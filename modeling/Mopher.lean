import Mopher.Var
import Mopher.Vtable
import Mopher.Stage
import Mopher.Symbol
import Mopher.Counter
import Mopher.Greylist.Recipient
import Mopher.Greylist.Admission
import Mopher.Greylist.Visa
import Mopher.Greylist.Janitor
import Mopher.Greylist.Connection
import Mopher.Lib.ReadModifyWrite
import Mopher.Concurrent
import Mopher.Milter.Session
import Mopher.Milter.Isolation
import Mopher.Milter.Buffers
import Mopher.Milter.Message
import Mopher.RecipientSymbols
import Mopher.Eval.VarOps
import Mopher.Lib.Prog
import Mopher.Lib.PartialRun
import Mopher.Lib.PathStore
import Mopher.Lib.Blocks
import Mopher.Eval.Operators
import Mopher.Eval.Exp
import Mopher.Eval.Kleene
import Mopher.Eval.NullRead
import Mopher.Eval.NullStrict
import Mopher.Eval.InPlace
import Mopher.Eval.Scope
import Mopher.Eval.Callback
import Mopher.Eval.Pointers
import Mopher.Eval.Congruence
import Mopher.Eval.Frame
import Mopher.Eval.AclTrace
import Mopher.Eval.Match
import Mopher.Eval.Blind
import Mopher.Eval.Inline
import Mopher.Ht.Refine
import Mopher.Ht.Iterate
import Mopher.Ht.Position
import Mopher.Lib.LittleEndian
import Mopher.Memdb.Vp
import Mopher.Client.Main
import Mopher.Ht.Map
import Mopher.Memdb.Store
import Mopher.Memdb.Cleanup
import Mopher.Hitlist
import Mopher.Hitlist.Shared
import Mopher.Hitlist.Open
import Mopher.Sql.Transaction
import Mopher.Base64
import Mopher.Sql.Record
import Mopher.Cf
import Mopher.Server
import Mopher.Lib.NodeGraph
import Mopher.Parser.Build
import Mopher.Parser.Define
import Mopher.Eval.Traps
import Mopher.Lib.ThreeWay
import Mopher.Eval.Compare
import Mopher.Eval.Membership
import Mopher.Greylist.Recipients
import Mopher.Greylist.ManualPass
import Mopher.Lib.PublicSuffix
import Mopher.Regdom.Lookup
import Mopher.Regdom.Algorithm
import Mopher.Regdom.Idna
import Mopher.Regdom.Load
import Mopher.Milter.Origin
import Mopher.Regdom.Case
import Mopher.Memdb.RoundTrip
import Mopher.Lib.CBuffer
import Mopher.Util.Address
import Mopher.Util.Envelope
import Mopher.Server.Receive
import Mopher.Server.Request
import Mopher.Dnsbl
import Mopher.Base64.Buffers
import Mopher.Base64.Sound
import Mopher.Var.Dump
import Mopher.Var.Room
import Mopher.Dbt.Dump
import Mopher.Greylist.Dump
import Mopher.Memdb.Keys
import Mopher.Ht.Collisions
import Mopher.Tarpit
import Mopher.Lib.CheckedBuffer
import Mopher.Spamd
import Mopher.Lib.Chain
import Mopher.Lib.Duplex
import Mopher.Ll
import Mopher.Server.Refusal
import Mopher.Sht
import Mopher.Watchdog
import Mopher.Server.Transfer
import Mopher.Dbt.Janitor
import Mopher.Sock
import Mopher.Parser.Include
import Mopher.Lib.SqlText
import Mopher.Lib.SqlTable
import Mopher.Sql.Statement
import Mopher.Sql.Store
import Mopher.Sql.Lite
import Mopher.Lib.OrderedWalk
import Mopher.Bdb.Driver
import Mopher.Bdb.Map
import Mopher.Bdb.Agree
import Mopher.Clamav
