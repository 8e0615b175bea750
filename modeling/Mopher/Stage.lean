import Mopher.Vtable

/-!
# Milter stages and ACL verdicts

The enumerations of `milter.h` and `acl.h`.  The C code keeps a set of stages
as a bit mask, and so does the model: which symbols a stage may read, and which
of them a message leaves behind, is decided by these masks.
-/

set_option autoImplicit false

namespace Mopher

inductive MilterStage where
  | init
  | connect
  | unknown
  | helo
  | envfrom
  | envrcpt
  | data
  | header
  | eoh
  | body
  | eom
  | abort
  | close
deriving Repr, DecidableEq

abbrev StageMask := Nat

def MilterStage.mask : MilterStage → StageMask
  | .init => 1 <<< 0
  | .connect => 1 <<< 1
  | .unknown => 1 <<< 2
  | .helo => 1 <<< 3
  | .envfrom => 1 <<< 4
  | .envrcpt => 1 <<< 5
  | .data => 1 <<< 6
  | .header => 1 <<< 7
  | .eoh => 1 <<< 8
  | .body => 1 <<< 9
  | .eom => 1 <<< 10
  | .abort => 1 <<< 11
  | .close => 1 <<< 12

def maskOf (stages : List MilterStage) : StageMask :=
  stages.foldr (fun stage mask => stage.mask ||| mask) 0

/-- `MS_ANY`: the stages in which symbols are available. -/
def msAny : StageMask :=
  maskOf [.connect, .helo, .envfrom, .envrcpt, .data, .header, .eoh, .body, .eom, .abort, .close]

def msOffHelo : StageMask :=
  maskOf [.helo, .envfrom, .envrcpt, .data, .header, .eoh, .body, .eom, .abort, .close]

def msOffEnvfrom : StageMask :=
  maskOf [.envfrom, .envrcpt, .data, .header, .eoh, .body, .eom, .abort, .close]

def msOffEnvrcpt : StageMask :=
  maskOf [.envrcpt, .data, .header, .eoh, .body, .eom, .abort, .close]

def msOffData : StageMask :=
  maskOf [.data, .header, .eoh, .body, .eom, .abort, .close]

def msOffEoh : StageMask :=
  maskOf [.eoh, .body, .eom, .abort, .close]

def msOffEom : StageMask :=
  maskOf [.eom, .abort, .close]

/-- `acl_action_type_t`. -/
inductive AclActionType where
  | error
  | null
  | none
  | return
  | continue
  | reject
  | discard
  | accept
  | tempfail
  | jump
  | call
  | set
  | log
  | greylist
  | tarpit
  | mod
  | pipe
deriving Repr, DecidableEq

end Mopher
