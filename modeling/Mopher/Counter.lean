import Mopher.Symbol

/-!
# Counters of accepted mail

Model of `counter_update_record` of `modules/counter.c`, with the records it
stores when there is none yet.
-/

set_option autoImplicit false

namespace Mopher

/-- A record of one of the four tables of `counter.c`. -/
structure CounterRecord where
  created : Int
  updated : Int
  expire : Int
  count : Int
deriving Repr, DecidableEq

structure CounterConfig where
  cfCounterThreshold : Int
  cfCounterExpireLow : Int
  cfCounterExpireHigh : Int

/-- The record that `counter_add_key`, `counter_add_domain` and
`counter_add_penpal` store. -/
def counterAdd (cf : CounterConfig) (received : Int) : CounterRecord :=
  { created := received, updated := received, expire := received + cf.cfCounterExpireLow,
    count := 1 }

/-- The record that `counter_update_record` stores, given the one it read. -/
def counterUpdateRecord (cf : CounterConfig) (received : Int) :
    Option CounterRecord → CounterRecord
  | none => counterAdd cf received
  | some record =>
      let count := record.count + 1
      { record with
        updated := received, count,
        expire := received +
          (if count > cf.cfCounterThreshold then cf.cfCounterExpireHigh
            else cf.cfCounterExpireLow) }

def CounterRecord.stored : Option CounterRecord → Int
  | none => 0
  | some record => record.count

theorem counterUpdateRecord_count (cf : CounterConfig) (received : Int)
    (record : Option CounterRecord) :
    (counterUpdateRecord cf received record).count = CounterRecord.stored record + 1 := by
  cases record with
  | none => rfl
  | some record => rfl

end Mopher
