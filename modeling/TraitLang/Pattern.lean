import TraitLang.Run
import TraitLang.Value.Equality

/-!
Matching a value against a pattern. The matcher binds variables in a scope as it goes; what it bound
before a part failed stays behind. As a function of pattern and value, matching gives the bindings
from left to right, or nothing.
-/
namespace TraitLang

namespace Pattern

mutual

/-- Whether the value matches. Variables are bound in the scope on the way. -/
def matchInto (scope : ScopeId) : Pattern → Value → Run Bool
  | wildcard, _ => pure true
  | var name, v => do
    Run.define scope name v
    return true
  | literal l, v => pure (Value.ofLiteral l == v)
  | constructor name ps, .data _ ctor vs =>
    if ctor = name ∧ ps.length = vs.length then matchAllInto scope ps vs else pure false
  | tuple ps, .tuple vs => if ps.length = vs.length then matchAllInto scope ps vs else pure false
  | record ps, .record fields => matchFieldsInto scope ps fields
  | _, _ => pure false

def matchAllInto (scope : ScopeId) : List Pattern → List Value → Run Bool
  | p :: ps, v :: vs => do
    if ← matchInto scope p v then matchAllInto scope ps vs else return false
  | _, _ => pure true

def matchFieldsInto (scope : ScopeId) : List (String × Pattern) → List (String × Value) → Run Bool
  | [], _ => pure true
  | (name, p) :: ps, fields =>
    match fields.lookup name with
    | some v => do
      if ← matchInto scope p v then matchFieldsInto scope ps fields else return false
    | none => pure false

end

mutual

def bindings? : Pattern → Value → Option (List (String × Value))
  | wildcard, _ => some []
  | var name, v => some [(name, v)]
  | literal l, v => if Value.ofLiteral l == v then some [] else none
  | constructor name ps, .data _ ctor vs => if ctor = name then bindingsAll? ps vs else none
  | tuple ps, .tuple vs => bindingsAll? ps vs
  | record ps, .record fields => bindingsFields? ps fields
  | _, _ => none

/-- As many patterns as values, each matching its own. -/
def bindingsAll? : List Pattern → List Value → Option (List (String × Value))
  | [], [] => some []
  | p :: ps, v :: vs => do return (← bindings? p v) ++ (← bindingsAll? ps vs)
  | _, _ => none

/-- Each named field exists and matches. -/
def bindingsFields? : List (String × Pattern) → List (String × Value) →
    Option (List (String × Value))
  | [], _ => some []
  | (name, p) :: ps, fields => do
    let v ← fields.lookup name
    return (← bindings? p v) ++ (← bindingsFields? ps fields)

end

mutual

/-- What the matcher binds, up to the part that fails if one does. -/
def written : Pattern → Value → List (String × Value)
  | wildcard, _ | literal _, _ => []
  | var name, v => [(name, v)]
  | constructor name ps, .data _ ctor vs =>
    if ctor = name ∧ ps.length = vs.length then writtenAll ps vs else []
  | tuple ps, .tuple vs => if ps.length = vs.length then writtenAll ps vs else []
  | record ps, .record fields => writtenFields ps fields
  | _, _ => []

def writtenAll : List Pattern → List Value → List (String × Value)
  | p :: ps, v :: vs =>
    if (bindings? p v).isSome then written p v ++ writtenAll ps vs else written p v
  | _, _ => []

def writtenFields : List (String × Pattern) → List (String × Value) → List (String × Value)
  | [], _ => []
  | (name, p) :: ps, fields =>
    match fields.lookup name with
    | some v =>
      if (bindings? p v).isSome then written p v ++ writtenFields ps fields else written p v
    | none => []

end

/-! ### The matcher and its bindings -/

theorem bindingsAll?_cons (p : Pattern) (ps : List Pattern) (v : Value) (vs : List Value) :
    bindingsAll? (p :: ps) (v :: vs) =
      (p.bindings? v).bind fun bs => (bindingsAll? ps vs).map fun bs' => bs ++ bs' := by
  rw [bindingsAll?]
  cases p.bindings? v with
  | none => rfl
  | some bs => cases bindingsAll? ps vs <;> rfl

theorem bindingsFields?_cons (name : String) (p : Pattern) (ps : List (String × Pattern))
    (fields : List (String × Value)) :
    bindingsFields? ((name, p) :: ps) fields =
      (fields.lookup name).bind fun v =>
        (p.bindings? v).bind fun bs => (bindingsFields? ps fields).map fun bs' => bs ++ bs' := by
  rw [bindingsFields?]
  cases fields.lookup name with
  | none => rfl
  | some v =>
    show (do return (← p.bindings? v) ++ (← bindingsFields? ps fields)) =
      (p.bindings? v).bind fun bs => (bindingsFields? ps fields).map fun bs' => bs ++ bs'
    cases p.bindings? v with
    | none => rfl
    | some bs => cases bindingsFields? ps fields <;> rfl

theorem of_bindingsAll?_cons {p : Pattern} {ps : List Pattern} {v : Value} {vs : List Value}
    {bs : List (String × Value)} (h : bindingsAll? (p :: ps) (v :: vs) = some bs) :
    ∃ first rest, p.bindings? v = some first ∧ bindingsAll? ps vs = some rest ∧
      first ++ rest = bs := by
  rw [bindingsAll?_cons] at h
  obtain ⟨first, hfirst, htail⟩ := Option.bind_eq_some_iff.1 h
  obtain ⟨rest, hrest, heq⟩ := Option.map_eq_some_iff.1 htail
  exact ⟨first, rest, hfirst, hrest, heq⟩

theorem of_bindingsFields?_cons {name : String} {p : Pattern} {ps : List (String × Pattern)}
    {fields bs : List (String × Value)} (h : bindingsFields? ((name, p) :: ps) fields = some bs) :
    ∃ v first rest, fields.lookup name = some v ∧ p.bindings? v = some first ∧
      bindingsFields? ps fields = some rest ∧ first ++ rest = bs := by
  rw [bindingsFields?_cons] at h
  obtain ⟨v, hv, hparts⟩ := Option.bind_eq_some_iff.1 h
  obtain ⟨first, hfirst, htail⟩ := Option.bind_eq_some_iff.1 hparts
  obtain ⟨rest, hrest, heq⟩ := Option.map_eq_some_iff.1 htail
  exact ⟨v, first, rest, hv, hfirst, hrest, heq⟩

theorem length_of_bindingsAll? {ps : List Pattern} {vs : List Value} {bs : List (String × Value)}
    (h : bindingsAll? ps vs = some bs) : ps.length = vs.length := by
  induction ps generalizing vs bs with
  | nil =>
    cases vs with
    | nil => rfl
    | cons v vs => cases h
  | cons p ps ih =>
    cases vs with
    | nil => cases h
    | cons v vs =>
      obtain ⟨_, _, _, hrest, -⟩ := of_bindingsAll?_cons h
      exact congrArg Nat.succ (ih hrest)

theorem bindingsAll?_of_length_ne {ps : List Pattern} {vs : List Value}
    (h : ps.length ≠ vs.length) : bindingsAll? ps vs = none := by
  cases hbs : bindingsAll? ps vs with
  | none => rfl
  | some bs => exact absurd (length_of_bindingsAll? hbs) h

mutual

/-- The matcher does what `written` says and succeeds where there are bindings. -/
theorem matchInto_eq (scope : ScopeId) : ∀ (p : Pattern) (v : Value),
    p.matchInto scope v = (do
      Run.defineAll scope (p.written v)
      return (p.bindings? v).isSome)
  | wildcard, v => by rw [matchInto, written, bindings?]; rfl
  | var name, v => by rw [matchInto, written, bindings?]; rfl
  | literal l, v => by
    rw [matchInto, written, bindings?]
    cases Value.ofLiteral l == v <;> rfl
  | constructor name ps, v => by
    cases v with
    | data type ctor vs =>
      rw [matchInto, written, bindings?]
      by_cases hname : ctor = name
      · by_cases hlength : ps.length = vs.length
        · simp only [hname, hlength, and_self, if_true, matchAllInto_eq scope ps vs hlength]
        · simp [hname, hlength, bindingsAll?_of_length_ne hlength, Run.defineAll]
      · simp [hname, Run.defineAll]
    | _ => simp [matchInto, written, bindings?, Run.defineAll]
  | tuple ps, v => by
    cases v with
    | tuple vs =>
      rw [matchInto, written, bindings?]
      by_cases hlength : ps.length = vs.length
      · simp only [hlength, if_true, matchAllInto_eq scope ps vs hlength]
      · simp [hlength, bindingsAll?_of_length_ne hlength, Run.defineAll]
    | _ => simp [matchInto, written, bindings?, Run.defineAll]
  | record ps, v => by
    cases v with
    | record fields => rw [matchInto, written, bindings?, matchFieldsInto_eq scope ps fields]
    | _ => simp [matchInto, written, bindings?, Run.defineAll]

theorem matchAllInto_eq (scope : ScopeId) : ∀ (ps : List Pattern) (vs : List Value),
    ps.length = vs.length → matchAllInto scope ps vs = (do
      Run.defineAll scope (writtenAll ps vs)
      return (bindingsAll? ps vs).isSome)
  | [], vs, h => by
    cases vs with
    | nil => rfl
    | cons v vs => cases h
  | p :: ps, vs, h => by
    cases vs with
    | nil => cases h
    | cons v vs =>
      rw [matchAllInto, writtenAll, matchInto_eq scope p v, bindingsAll?,
        matchAllInto_eq scope ps vs (Nat.succ.inj h)]
      cases p.bindings? v with
      | none => simp
      | some first => cases bindingsAll? ps vs <;> simp [Run.defineAll_append]

theorem matchFieldsInto_eq (scope : ScopeId) :
    ∀ (ps : List (String × Pattern)) (fields : List (String × Value)),
      matchFieldsInto scope ps fields = (do
        Run.defineAll scope (writtenFields ps fields)
        return (bindingsFields? ps fields).isSome)
  | [], fields => rfl
  | (name, p) :: ps, fields => by
    rw [matchFieldsInto, writtenFields, bindingsFields?_cons]
    cases fields.lookup name with
    | none => rfl
    | some v =>
      simp only [Option.bind_some, matchInto_eq scope p v, matchFieldsInto_eq scope ps fields]
      cases p.bindings? v with
      | none => simp
      | some first => cases bindingsFields? ps fields <;> simp [Run.defineAll_append]

end

mutual

/-- Where the value matches, the bindings are what was written. -/
theorem written_of_bindings? : ∀ (p : Pattern) (v : Value) (bs : List (String × Value)),
    p.bindings? v = some bs → p.written v = bs
  | wildcard, v, bs => by
    intro h
    cases h
    rw [written]
  | var name, v, bs => by
    intro h
    cases h
    rw [written]
  | literal l, v, bs => by
    intro h
    rw [bindings?] at h
    split at h <;> cases h
    rw [written]
  | constructor name ps, v, bs => by
    intro h
    cases v with
    | data type ctor vs =>
      rw [bindings?] at h
      split at h
      · rename_i hname
        rw [written, if_pos ⟨hname, length_of_bindingsAll? h⟩]
        exact writtenAll_of_bindingsAll? ps vs bs h
      · cases h
    | _ => simp [bindings?] at h
  | tuple ps, v, bs => by
    intro h
    cases v with
    | tuple vs =>
      rw [bindings?] at h
      rw [written, if_pos (length_of_bindingsAll? h)]
      exact writtenAll_of_bindingsAll? ps vs bs h
    | _ => simp [bindings?] at h
  | record ps, v, bs => by
    intro h
    cases v with
    | record fields => exact writtenFields_of_bindingsFields? ps fields bs h
    | _ => simp [bindings?] at h

theorem writtenAll_of_bindingsAll? :
    ∀ (ps : List Pattern) (vs : List Value) (bs : List (String × Value)),
      bindingsAll? ps vs = some bs → writtenAll ps vs = bs
  | [], vs, bs => by
    intro h
    cases vs with
    | nil => cases h; rfl
    | cons v vs => cases h
  | p :: ps, vs, bs => by
    intro h
    cases vs with
    | nil => cases h
    | cons v vs =>
      obtain ⟨first, rest, hfirst, hrest, rfl⟩ := of_bindingsAll?_cons h
      rw [writtenAll, hfirst, written_of_bindings? p v first hfirst,
        writtenAll_of_bindingsAll? ps vs rest hrest]
      rfl

theorem writtenFields_of_bindingsFields? :
    ∀ (ps : List (String × Pattern)) (fields bs : List (String × Value)),
      bindingsFields? ps fields = some bs → writtenFields ps fields = bs
  | [], fields, bs => by
    intro h
    cases h
    rfl
  | (name, p) :: ps, fields, bs => by
    intro h
    obtain ⟨v, first, rest, hv, hfirst, hrest, rfl⟩ := of_bindingsFields?_cons h
    rw [writtenFields]
    simp only [hv, hfirst, written_of_bindings? p v first hfirst,
      writtenFields_of_bindingsFields? ps fields rest hrest]
    rfl

end

end Pattern

end TraitLang
