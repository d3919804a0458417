import TraitLang.Toml.Document

/-!
Limits that an evaluation obeys, and their notation in a configuration file.
-/
namespace TraitLang

structure Limits where
  /-- calls that may be in progress at once, tail calls apart -/
  maxCallDepth : Nat := 100000
  /-- native stack, in bytes, below which more is to be reserved -/
  stackRedZone : Nat := 131072
  /-- native stack, in bytes, to reserve at a time -/
  stackGrowSize : Nat := 4194304
  /-- frames kept in the call trace of a failure -/
  traceLimit : Nat := 64
deriving DecidableEq, Repr, Inhabited

namespace Limits

/-- A limit, with a value for its absence. -/
private def count? (absent : Nat) : Option Toml → Option Nat
  | none => some absent
  | some (.integer n) => if 0 ≤ n then some n.toNat else none
  | some _ => none

private def ofSlots? (a b c d : Option Toml) : Option Limits := do
  let defaults : Limits := {}
  return {
    maxCallDepth := ← count? defaults.maxCallDepth a
    stackRedZone := ← count? defaults.stackRedZone b
    stackGrowSize := ← count? defaults.stackGrowSize c
    traceLimit := ← count? defaults.traceLimit d }

/-- Reads the table `eval` of a configuration file; other tables and keys are ignored. The limits
may also be listed in their order. -/
def parse? (text : String) : Option Limits := do
  match (← Toml.parse? text).lookup "eval" with
  | none => some {}
  | some (.table entries) =>
    ofSlots? (entries.lookup "max_call_depth") (entries.lookup "stack_red_zone")
      (entries.lookup "stack_grow_size") (entries.lookup "trace_limit")
  | some (.array items) => ofSlots? items[0]? items[1]? items[2]? items[3]?
  | some _ => none

end Limits

end TraitLang
