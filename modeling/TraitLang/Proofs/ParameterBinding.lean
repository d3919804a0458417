import TraitLang.Proofs.ScopeHygiene
import Mathlib.Data.List.TakeWhile

/-!
Binding arguments to parameters. Main statement: how many arguments there are decides between an
error, a partial application and a new scope; in the new scope the parameters have the arguments,
and those that are left the values of their defaults, which are evaluated from left to right where
the function was defined.
-/
namespace TraitLang

theorem zip_append_right {α β : Type} (l : List α) (xs ys : List β) :
    l.zip (xs ++ ys) = l.zip xs ++ (l.drop xs.length).zip ys := by
  induction xs generalizing l with
  | nil => simp
  | cons x xs ih =>
    cases l with
    | nil => simp
    | cons a l => simp [ih]

/-- No arguments are no dictionaries and no others. -/
theorem isEmpty_iff_counts (args : List Value) :
    args.isEmpty = true ↔ (plainArgs args).length = 0 ∧ (leadingDictionaries args).length = 0 := by
  cases args with
  | nil => simp [plainArgs, leadingDictionaries]
  | cons v args =>
    cases hv : v.isDictionary with
    | true =>
      cases v with
      | dictionary d => simp [leadingDictionaries]
      | _ => cases hv
    | false => simp [plainArgs, hv]

/-! ### What a call binds -/

namespace Func

/-- Fixed parameters that are left after `n` arguments. -/
def uncovered (f : Func) (n : Nat) : List Param := f.fixedParams.drop n

/-- Parameters whose defaults are evaluated: those up to one that has none. -/
def needed (f : Func) (n : Nat) : List Param :=
  (f.uncovered n).takeWhile fun p => p.default.isSome

/-- What the dictionaries in front of the arguments bind, if there are any. -/
def dictionaryBindings? (f : Func) : List Dictionary → Option (List (String × Value))
  | [] => some []
  | first :: rest => witnessBindings? first f.witnessParams (first :: rest)

/-- Dictionaries, then types, then the fixed parameters. -/
def bindings (f : Func) (dicts types : List (String × Value)) (values : List Value) :
    List (String × Value) :=
  dicts ++ types ++ (f.fixedParams.map Param.name).zip values

theorem bindings_append (f : Func) (dicts types : List (String × Value))
    (values more : List Value) :
    f.bindings dicts types (values ++ more) =
      f.bindings dicts types values ++ ((f.uncovered values.length).map Param.name).zip more := by
  simp only [bindings, uncovered, zip_append_right, List.map_drop, List.append_assoc]

theorem needed_eq {f : Func} {n : Nat} (h : ∀ p ∈ f.uncovered n, p.default ≠ none) :
    f.needed n = f.uncovered n := by
  rw [needed, List.takeWhile_eq_self_iff]
  intro p hp
  exact Option.isSome_iff_ne_none.2 (h p hp)

/-- A last parameter that collects what the fixed ones leave. -/
def surplus (f : Func) (plain : List Value) : List (String × Value) :=
  match f.params.getLast? with
  | some p => if p.variadic then [(p.name, .list (plain.drop f.fixedParams.length))] else []
  | none => []

end Func

/-- Type variables that the analyser fixed at the call node. -/
def CallSite.typeBindings (site : CallSite) (hints : Hints) : List (String × Value) :=
  ((site.node.bind fun node => hints.instantiations.lookup node).getD []).map fun b =>
    (b.1, .typeRep b.2)

namespace Machine

/-- With a new scope. -/
def opened (m : Machine) (parent : ScopeId) (bindings : List (String × Value)) : Machine :=
  { m with store := ⟨m.store.scopes.push { parent := some parent, bindings }⟩ }

theorem hints_opened (m : Machine) (parent : ScopeId) (bindings : List (String × Value)) :
    (m.opened parent bindings).hints = m.hints := rfl

/-- With a name bound in a scope. -/
def binding (m : Machine) (scope : ScopeId) (name : String) (v : Value) : Machine :=
  { m with store := m.store.define scope name v }

/-- With names bound in a scope, one after the other. -/
def bindingAll (m : Machine) (scope : ScopeId) (new : List (String × Value)) : Machine :=
  new.foldl (fun m b => m.binding scope b.1 b.2) m

variable {m : Machine} {scope : ScopeId}

theorem getElem?_binding {sc : Scope} (h : m.store.scopes[scope]? = some sc) (name : String)
    (v : Value) :
    (m.binding scope name v).store.scopes[scope]? =
      some { sc with bindings := Assoc.insert name v sc.bindings } := by
  simp [binding, Store.define, Array.getElem?_modify, h]

theorem getElem?_bindingAll {sc : Scope} (h : m.store.scopes[scope]? = some sc)
    (new : List (String × Value)) :
    (m.bindingAll scope new).store.scopes[scope]? =
      some { sc with bindings := Assoc.insertAll new sc.bindings } := by
  induction new generalizing m sc with
  | nil => exact h
  | cons b new ih => exact ih (getElem?_binding h b.1 b.2)

theorem binding_opened (m : Machine) (parent : ScopeId) (bindings : List (String × Value))
    (name : String) (v : Value) :
    (m.opened parent bindings).binding m.store.scopes.size name v =
      m.opened parent (Assoc.insert name v bindings) := by
  have hscopes : ((m.store.scopes.push { parent := some parent, bindings }).modify
        m.store.scopes.size fun sc => { sc with bindings := Assoc.insert name v sc.bindings }) =
      m.store.scopes.push { parent := some parent, bindings := Assoc.insert name v bindings } := by
    apply Array.ext_getElem?
    intro i
    rw [Array.getElem?_modify, Array.getElem?_push, Array.getElem?_push]
    by_cases hi : m.store.scopes.size = i
    · simp [hi]
    · simp [hi, Ne.symm hi]
  simp only [opened, binding, Store.define, hscopes]

theorem bindingAll_opened (m : Machine) (parent : ScopeId) (new bindings : List (String × Value)) :
    (m.opened parent bindings).bindingAll m.store.scopes.size new =
      m.opened parent (Assoc.insertAll new bindings) := by
  induction new generalizing bindings with
  | nil => rfl
  | cons b new ih =>
    show ((m.opened parent bindings).binding _ b.1 b.2).bindingAll _ new = _
    rw [binding_opened, ih]
    rfl

end Machine

namespace Run

variable {a : Apply} {c : Closure} {s : Setting} {scope : ScopeId} {supplied : Nat}

theorem defineAll_eq (scope : ScopeId) (new : List (String × Value)) (s : Setting) (m : Machine) :
    defineAll scope new s m = .done () (m.bindingAll scope new) := by
  induction new generalizing m with
  | nil => rfl
  | cons b new ih => exact ih (m.binding scope b.1 b.2)

theorem bindDictionaries_eq {f : Func} {ds : List Dictionary} {dicts : List (String × Value)}
    (h : f.dictionaryBindings? ds = some dicts) (scope : ScopeId) (s : Setting) (m : Machine) :
    bindDictionaries f scope ds s m = .done () (m.bindingAll scope dicts) := by
  cases ds with
  | nil =>
    cases h
    rfl
  | cons first rest =>
    have hbindings : witnessBindings? first f.witnessParams (first :: rest) = some dicts := h
    rw [bindDictionaries, hbindings]
    exact defineAll_eq scope dicts s m

theorem bindTypes_eq (scope : ScopeId) (site : CallSite) (s : Setting) (m : Machine) :
    bindTypes scope site s m = .done () (m.bindingAll scope (site.typeBindings m.hints)) :=
  defineAll_eq scope _ s m

theorem bindSurplus_eq (f : Func) (scope : ScopeId) (plain : List Value) (s : Setting)
    (m : Machine) :
    bindSurplus f scope plain s m = .done () (m.bindingAll scope (f.surplus plain)) := by
  unfold bindSurplus Func.surplus
  cases f.params.getLast? with
  | none => rfl
  | some p =>
    dsimp only
    split
    · rfl
    · rfl

/-! ### The fixed parameters -/

/-- Arguments are bound first, without an evaluation. -/
theorem bindParams_given (a : Apply) (c : Closure) (scope : ScopeId) (supplied : Nat)
    (ps : List Param) (vs : List Value) (s : Setting) (m : Machine) :
    bindParams a c scope supplied ps vs s m =
      bindParams a c scope supplied (ps.drop vs.length) [] s
        (m.bindingAll scope ((ps.map Param.name).zip vs)) := by
  induction ps generalizing vs m with
  | nil => simp [bindParams, Machine.bindingAll]
  | cons p ps ih =>
    cases vs with
    | nil => rfl
    | cons v vs =>
      rw [bindParams]
      exact ih vs (m.binding scope p.name v)

/-- Defaults are evaluated in order where the function was defined, and each value is bound in
`scope` before the next one is evaluated. -/
inductive Supplied (a : Apply) (s : Setting) (own scope : ScopeId) :
    List Param → Machine → List Value → Machine → Prop where
  | nil (m : Machine) : Supplied a s own scope [] m [] m
  | cons {p : Param} {ps : List Param} {e : Spanned Expr} {v : Value} {vs : List Value}
      {m m₁ m' : Machine} : p.default = some e → evalValue a {} own e s m = .done v m₁ →
      Supplied a s own scope ps (m₁.binding scope p.name v) vs m' →
      Supplied a s own scope (p :: ps) m (v :: vs) m'

/-- Parameters without arguments get the values of their defaults, unless one has none. -/
theorem bindParams_supplied {ps : List Param} {m m₁ : Machine} {vs : List Value}
    (h : Supplied a s c.scope scope (ps.takeWhile fun p => p.default.isSome) m vs m₁) :
    ((∀ p ∈ ps, p.default ≠ none) → bindParams a c scope supplied ps [] s m = .done () m₁) ∧
    ((∃ p ∈ ps, p.default = none) → bindParams a c scope supplied ps [] s m =
      .failed { cause := .arityMismatch c.func.name c.func.required supplied } m₁) := by
  induction ps generalizing m vs with
  | nil =>
    cases h
    refine ⟨fun _ => rfl, ?_⟩
    rintro ⟨p, hp, -⟩
    exact absurd hp List.not_mem_nil
  | cons p ps ih =>
    cases hdefault : p.default with
    | none =>
      rw [List.takeWhile_cons_of_neg (by simp [hdefault])] at h
      cases h
      refine ⟨fun hall => absurd hdefault (hall p List.mem_cons_self), fun _ => ?_⟩
      rw [bindParams, hdefault]
      rfl
    | some e =>
      rw [List.takeWhile_cons_of_pos (by simp [hdefault])] at h
      cases h with
      | @cons _ _ e' v vs' _ m' _ he heval hrest =>
        obtain rfl : e' = e := Option.some.inj (he.symm.trans hdefault)
        have hstep : bindParams a c scope supplied (p :: ps) [] s m =
            bindParams a c scope supplied ps [] s (m'.binding scope p.name v) := by
          rw [bindParams, hdefault]
          exact bind_of_done heval
        obtain ⟨hdone, hfailed⟩ := ih hrest
        rw [hstep]
        refine ⟨fun hall => hdone fun q hq => hall q (List.mem_cons_of_mem p hq), ?_⟩
        rintro ⟨q, hq, hnone⟩
        rcases List.mem_cons.1 hq with rfl | hq
        · rw [hdefault] at hnone
          cases hnone
        · exact hfailed ⟨q, hq, hnone⟩

/-- A scope for a body is made once the defaults that it takes are evaluated. -/
theorem bindScope_supplied {args : List Value} {dicts : List (String × Value)} {site : CallSite}
    {m m₁ : Machine} {vs : List Value}
    (hdicts : c.func.dictionaryBindings? (leadingDictionaries args) = some dicts)
    (h : Supplied a s c.scope m.store.scopes.size (c.func.needed (plainArgs args).length)
      (m.opened c.scope (Assoc.insertAll
        (c.func.bindings dicts (site.typeBindings m.hints) (plainArgs args)) [])) vs m₁) :
    ((∀ p ∈ c.func.uncovered (plainArgs args).length, p.default ≠ none) →
      bindScope a c args site s m = .done m.store.scopes.size
        (m₁.bindingAll m.store.scopes.size (c.func.surplus (plainArgs args)))) ∧
    ((∃ p ∈ c.func.uncovered (plainArgs args).length, p.default = none) →
      bindScope a c args site s m = .failed
        { cause := .arityMismatch c.func.name c.func.required (plainArgs args).length } m₁) := by
  have hnew : newScope c.scope s m = .done m.store.scopes.size (m.opened c.scope []) := rfl
  have hgiven := bindParams_given a c m.store.scopes.size (plainArgs args).length
    c.func.fixedParams (plainArgs args) s
    (m.opened c.scope (Assoc.insertAll (dicts ++ site.typeBindings m.hints) []))
  rw [Machine.bindingAll_opened, ← Assoc.insertAll_append] at hgiven
  obtain ⟨hdone, hfailed⟩ := bindParams_supplied h
  rw [bindScope, bind_of_done hnew, bind_of_done (bindDictionaries_eq hdicts _ s _),
    Machine.bindingAll_opened, bind_of_done (bindTypes_eq _ site s _), Machine.hints_opened,
    Machine.bindingAll_opened, ← Assoc.insertAll_append]
  constructor
  · intro hall
    rw [bind_of_done (hgiven.trans (hdone hall)), bind_of_done (bindSurplus_eq _ _ _ s m₁)]
    rfl
  · intro hmissing
    rw [bind_of_failed (hgiven.trans (hfailed hmissing))]

/-- However a call ends that makes a scope, the scope is there. -/
theorem bindScope_grows (fuel : Nat) (c : Closure) (args : List Value) (site : CallSite)
    (s : Setting) (m : Machine) :
    (bindScope (apply fuel) c args site s m).Ends
      (fun _ m' => m.store.scopes.size < m'.store.scopes.size)
      (fun m' => m.store.scopes.size < m'.store.scopes.size) fun _ => True := by
  have hnew : newScope c.scope s m = .done m.store.scopes.size (m.opened c.scope []) := rfl
  have hsize : (m.opened c.scope []).store.scopes.size = m.store.scopes.size + 1 := by
    simp [Machine.opened]
  have happly := Restores.apply (B := fun _ _ _ => True) (fun _ => Host.within_all _)
    (fun _ _ => trivial) fuel
  have hrest (scope : ScopeId) : Restores .all (fun _ _ _ => True) scope (do
      bindDictionaries c.func scope (leadingDictionaries args)
      bindTypes scope site
      bindParams (apply fuel) c scope (plainArgs args).length c.func.fixedParams (plainArgs args)
      bindSurplus c.func scope (plainArgs args)
      return scope : Run ScopeId) :=
    .bind (.bindDictionaries _ _) fun _ => .bind (.bindTypes site) fun _ =>
      .bind (.bindParams happly c _ _ _) fun _ => .bind (.bindSurplus _ _) fun _ => .pure _
  rw [bindScope, bind_of_done hnew]
  refine Outcome.Ends.imp (hrest m.store.scopes.size s (m.opened c.scope []) 0 (Nat.zero_le _)
    (Nat.zero_le _) trivial) (fun _ m' heffect => ?_) (fun m' heffect => ?_) fun _ _ => trivial
  · have hle := heffect.size_le
    omega
  · have hle := heffect.size_le
    omega

/-! ### The number of arguments -/

section Counts

variable {id : Ident} {args : List Value} {site : CallSite} {m : Machine}

theorem bindArguments_none (h : (plainArgs args).length < c.func.required)
    (hnone : args.isEmpty = true) :
    bindArguments a id c args site s m =
      .failed { cause := .missingArguments c.func.name c.func.required } m := by
  simp only [bindArguments, if_pos h, if_pos hnone]
  rfl

theorem bindArguments_few (h : (plainArgs args).length < c.func.required)
    (hsome : ¬ args.isEmpty = true) :
    bindArguments a id c args site s m =
      .done (.short (.partialApp m.nextIdent (.function id c) args
        (c.func.required - (plainArgs args).length))) { m with nextIdent := m.nextIdent + 1 } := by
  simp only [bindArguments, if_pos h, if_neg hsome]
  rfl

theorem bindArguments_many (h : c.func.required ≤ (plainArgs args).length)
    (hmany : c.func.isVariadic = false ∧ c.func.params.length < (plainArgs args).length) :
    bindArguments a id c args site s m =
      .failed { cause := .arityMismatch c.func.name c.func.params.length (plainArgs args).length }
        m := by
  simp only [bindArguments, if_neg (Nat.not_lt.2 h), hmany.1, hmany.2]
  rfl

theorem bindArguments_enough (h : c.func.required ≤ (plainArgs args).length)
    (henough : ¬ (c.func.isVariadic = false ∧ c.func.params.length < (plainArgs args).length)) :
    bindArguments a id c args site = (do return .ready (← bindScope a c args site)) := by
  have hcond : ¬ (!c.func.isVariadic && decide (c.func.params.length < (plainArgs args).length)) =
      true := by
    simpa using henough
  simp only [bindArguments, if_neg (Nat.not_lt.2 h), if_neg hcond]

/-- Enough arguments make a scope, however binding ends. -/
theorem bindArguments_grows (h : c.func.required ≤ (plainArgs args).length)
    (henough : ¬ (c.func.isVariadic = false ∧ c.func.params.length < (plainArgs args).length))
    (fuel : Nat) (id : Ident) (site : CallSite) (s : Setting) (m : Machine) :
    (bindArguments (apply fuel) id c args site s m).Ends
      (fun b m' => (∃ scope, b = .ready scope) ∧ m.store.scopes.size < m'.store.scopes.size)
      (fun m' => m.store.scopes.size < m'.store.scopes.size) fun _ => True := by
  rw [bindArguments_enough h henough]
  exact Ends.bind (bindScope_grows fuel c args site s m)
    (fun scope m' hsize => ⟨⟨scope, rfl⟩, hsize⟩) fun _ hsize => hsize

/-- The four ways in which the number of arguments decides. -/
theorem bindArguments_cases (fuel : Nat) (id : Ident) (c : Closure) (args : List Value)
    (site : CallSite) (s : Setting) (m : Machine) :
    ((plainArgs args).length < c.func.required ∧ args.isEmpty = true ∧
      bindArguments (apply fuel) id c args site s m =
        .failed { cause := .missingArguments c.func.name c.func.required } m) ∨
    ((plainArgs args).length < c.func.required ∧ ¬ args.isEmpty = true ∧
      bindArguments (apply fuel) id c args site s m =
        .done (.short (.partialApp m.nextIdent (.function id c) args
          (c.func.required - (plainArgs args).length))) { m with nextIdent := m.nextIdent + 1 }) ∨
    (c.func.required ≤ (plainArgs args).length ∧
      (c.func.isVariadic = false ∧ c.func.params.length < (plainArgs args).length) ∧
      bindArguments (apply fuel) id c args site s m =
        .failed { cause := .arityMismatch c.func.name c.func.params.length (plainArgs args).length }
          m) ∨
    (c.func.required ≤ (plainArgs args).length ∧
      ¬ (c.func.isVariadic = false ∧ c.func.params.length < (plainArgs args).length) ∧
      (bindArguments (apply fuel) id c args site s m).Ends
        (fun b m' => (∃ scope, b = .ready scope) ∧ m.store.scopes.size < m'.store.scopes.size)
        (fun m' => m.store.scopes.size < m'.store.scopes.size) fun _ => True) := by
  by_cases hfew : (plainArgs args).length < c.func.required
  · by_cases hnone : args.isEmpty = true
    · exact .inl ⟨hfew, hnone, bindArguments_none hfew hnone⟩
    · exact .inr (.inl ⟨hfew, hnone, bindArguments_few hfew hnone⟩)
  · have hrequired : c.func.required ≤ (plainArgs args).length := Nat.not_lt.1 hfew
    by_cases hmany : c.func.isVariadic = false ∧ c.func.params.length < (plainArgs args).length
    · exact .inr (.inr (.inl ⟨hrequired, hmany, bindArguments_many hrequired hmany⟩))
    · exact .inr (.inr (.inr
        ⟨hrequired, hmany, bindArguments_grows hrequired hmany fuel id site s m⟩))

theorem bindArguments_missing_iff (fuel : Nat) :
    bindArguments (apply fuel) id c args site s m =
        .failed { cause := .missingArguments c.func.name c.func.required } m ↔
      (plainArgs args).length = 0 ∧ (leadingDictionaries args).length = 0 ∧
        0 < c.func.required := by
  have hcounts := isEmpty_iff_counts args
  rcases bindArguments_cases fuel id c args site s m with
    ⟨hfew, hnone, heq⟩ | ⟨hfew, hsome, heq⟩ | ⟨hrequired, -, heq⟩ | ⟨hrequired, -, hgrows⟩
  · obtain ⟨hplain, hdicts⟩ := hcounts.1 hnone
    exact iff_of_true heq ⟨hplain, hdicts, by omega⟩
  · rw [heq]
    exact iff_of_false (by simp) fun h => hsome (hcounts.2 ⟨h.1, h.2.1⟩)
  · rw [heq]
    exact iff_of_false (by simp) fun h => by omega
  · refine ⟨fun h => ?_, fun h => by omega⟩
    rw [h] at hgrows
    exact absurd hgrows (Nat.lt_irrefl _)

theorem bindArguments_short_iff (fuel : Nat) (v : Value) (m' : Machine) :
    bindArguments (apply fuel) id c args site s m = .done (.short v) m' ↔
      ((plainArgs args).length < c.func.required ∧
          ¬ ((plainArgs args).length = 0 ∧ (leadingDictionaries args).length = 0)) ∧
        v = .partialApp m.nextIdent (.function id c) args
          (c.func.required - (plainArgs args).length) ∧
        m' = { m with nextIdent := m.nextIdent + 1 } := by
  rw [← isEmpty_iff_counts]
  rcases bindArguments_cases fuel id c args site s m with
    ⟨hfew, hnone, heq⟩ | ⟨hfew, hsome, heq⟩ | ⟨hrequired, -, heq⟩ | ⟨hrequired, -, hgrows⟩
  · rw [heq]
    exact iff_of_false (by simp) fun h => h.1.2 hnone
  · rw [heq]
    constructor
    · intro h
      cases h
      exact ⟨⟨hfew, hsome⟩, rfl, rfl⟩
    · rintro ⟨-, rfl, rfl⟩
      rfl
  · rw [heq]
    exact iff_of_false (by simp) fun h => by omega
  · refine ⟨fun h => ?_, fun h => by omega⟩
    rw [h] at hgrows
    obtain ⟨⟨scope, hready⟩, -⟩ := hgrows
    cases hready

theorem bindArguments_many_iff (fuel : Nat) :
    bindArguments (apply fuel) id c args site s m =
        .failed { cause := .arityMismatch c.func.name c.func.params.length (plainArgs args).length }
          m ↔
      c.func.required ≤ (plainArgs args).length ∧ c.func.isVariadic = false ∧
        c.func.params.length < (plainArgs args).length := by
  rcases bindArguments_cases fuel id c args site s m with
    ⟨hfew, hnone, heq⟩ | ⟨hfew, hsome, heq⟩ | ⟨hrequired, hmany, heq⟩ | ⟨hrequired, henough, hgrows⟩
  · rw [heq]
    exact iff_of_false (by simp) fun h => by omega
  · rw [heq]
    exact iff_of_false (by simp) fun h => by omega
  · exact iff_of_true heq ⟨hrequired, hmany⟩
  · refine ⟨fun h => ?_, fun h => absurd h.2 henough⟩
    rw [h] at hgrows
    exact absurd hgrows (Nat.lt_irrefl _)

end Counts

end Run

/-! ### The new scope -/

/-- Programs can get hold of all scopes but one. -/
def Policy.hiding (hidden : ScopeId) : Policy where
  toRules := .lax
  live id := id ≠ hidden
  evidence _ := True
  evidence_of_known _ _ _ := trivial

/-- The scope that a call of the closure makes is new: neither the closure nor the host nor anything
that the machine holds refers to it. -/
structure Closure.OpensNew (c : Closure) (s : Setting) (m : Machine) : Prop where
  scope : c.scope ≠ m.store.scopes.size
  host : s.host.Obeys (.hiding m.store.scopes.size)
  global : Store.global ≠ m.store.scopes.size
  parent : ∀ {id : ScopeId} {sc : Scope} {p : ScopeId}, m.store.scopes[id]? = some sc →
    sc.parent = some p → p ≠ m.store.scopes.size
  value : ∀ {id : ScopeId} {sc : Scope} {name : String} {v : Value},
    m.store.scopes[id]? = some sc → sc.bindings.lookup name = some v →
      v.Obeys (.hiding m.store.scopes.size)
  registry : m.registry.Obeys (.hiding m.store.scopes.size)

/-- Whatever the new scope binds, only the code that made it knows of it. -/
theorem Closure.OpensNew.obeys_opened {c : Closure} {s : Setting} {m : Machine}
    (h : c.OpensNew s m) (bindings : List (String × Value)) :
    (m.opened c.scope bindings).Obeys (.hiding m.store.scopes.size) := by
  have hold {id : ScopeId} {sc : Scope} (hid : id ≠ m.store.scopes.size)
      (hscope : (m.opened c.scope bindings).store.scopes[id]? = some sc) :
      m.store.scopes[id]? = some sc := by
    simpa [Machine.opened, Array.getElem?_push, hid] using hscope
  refine ⟨h.global, ⟨fun {id} hid => ?_, fun hid hscope hp => ?_, fun hid hscope hv => ?_⟩,
    h.registry, fun _ _ => ⟨rfl, fun _ _ => trivial⟩⟩
  · have hsize : m.store.scopes.size + 1 ≤ id := by simpa [Machine.opened] using hid
    exact Nat.ne_of_gt hsize
  · exact h.parent (hold hid hscope) hp
  · exact h.value (hold hid hscope) hv

namespace Run

/-- Evaluating a default leaves alone what it cannot get hold of, so the new scope has what was
bound in it before and the values of the defaults. -/
theorem Supplied.getElem? {fuel : Nat} {s : Setting} {own scope : ScopeId} {ps : List Param}
    {m m₁ : Machine} {vs : List Value} (h : Supplied (apply fuel) s own scope ps m vs m₁)
    (hs : s.host.Obeys (.hiding scope)) (hown : own ≠ scope) (hm : m.Obeys (.hiding scope))
    {sc : Scope} (hscope : m.store.scopes[scope]? = some sc) :
    m₁.store.scopes[scope]? = some
      { sc with bindings := Assoc.insertAll ((ps.map Param.name).zip vs) sc.bindings } := by
  induction h generalizing sc with
  | nil => exact hscope
  | @cons p ps e v vs m m' m₁ _ heval _ ih =>
    have hlt : scope < m.store.scopes.size := (Array.getElem?_eq_some_iff.1 hscope).1
    have hkeeps : (evalValue (apply fuel) {} own e).Keeps (.hiding scope) m.store.scopes.size
        (Value.Obeys (.hiding scope)) :=
      .evalValue (.apply fuel) {} hown (nodeFollows_lax e)
    have hends := hkeeps.ends s m m.store.scopes.size (Nat.le_refl _) (Nat.le_refl _) hs hm
    rw [heval] at hends
    obtain ⟨hv, hkept⟩ := hends
    have hsame : m'.store.scopes[scope]? = some sc :=
      (hkept.scopes scope hlt (.inr fun hlive => hlive rfl)).trans hscope
    have hobeys : (m'.binding scope p.name v).Obeys (.hiding scope) :=
      ⟨hkept.obeys.global, hkept.obeys.store.define hv, hkept.obeys.registry,
        hkept.obeys.witnesses⟩
    exact ih hobeys (Machine.getElem?_binding hsame p.name v)

theorem Supplied.getElem?_opened {fuel : Nat} {s : Setting} {c : Closure} {ps : List Param}
    {m m₁ : Machine} {bindings : List (String × Value)} {vs : List Value}
    (h : Supplied (apply fuel) s c.scope m.store.scopes.size ps (m.opened c.scope bindings) vs m₁)
    (hnew : ps ≠ [] → c.OpensNew s m) :
    m₁.store.scopes[m.store.scopes.size]? = some
      { parent := some c.scope
        bindings := Assoc.insertAll ((ps.map Param.name).zip vs) bindings } := by
  have hscope : (m.opened c.scope bindings).store.scopes[m.store.scopes.size]? =
      some { parent := some c.scope, bindings } := by
    simp [Machine.opened]
  cases ps with
  | nil =>
    cases h
    exact hscope
  | cons p ps =>
    have hopens := hnew (List.cons_ne_nil p ps)
    exact h.getElem? hopens.host hopens.scope (hopens.obeys_opened bindings) hscope

/-- Let a function be given some dictionaries and then other arguments. If there are fewer others
than it requires, the outcome is an error where there is no argument at all, and else a partial
application that keeps all of them, with neither a default evaluated nor a scope made. If there are
more others than it can take, the outcome is an error too. Otherwise, given that the dictionaries
can be bound and the defaults that are needed evaluated, it is an error where a fixed parameter is
left with neither an argument nor a default, and else a new scope below that of the definition:
fixed parameters have the arguments and, from the first one without, the values of the defaults,
evaluated from left to right where the function was defined; a last parameter that collects surplus
arguments has the list of those. Of several values for one name the last one counts. -/
theorem bindArguments_exact (fuel : Nat) (id : Ident) (c : Closure) (args : List Value)
    (site : CallSite) (s : Setting) (m : Machine) :
    let f := c.func
    let plain := plainArgs args
    let dictionaries := leadingDictionaries args
    let new := m.store.scopes.size
    let types := site.typeBindings m.hints
    let outcome := bindArguments (apply fuel) id c args site s m
    (outcome = .failed { cause := .missingArguments f.name f.required } m ↔
      plain.length = 0 ∧ dictionaries.length = 0 ∧ 0 < f.required) ∧
    (∀ v m', outcome = .done (.short v) m' ↔
      (plain.length < f.required ∧ ¬ (plain.length = 0 ∧ dictionaries.length = 0)) ∧
        v = .partialApp m.nextIdent (.function id c) args (f.required - plain.length) ∧
        m' = { m with nextIdent := m.nextIdent + 1 }) ∧
    (outcome = .failed { cause := .arityMismatch f.name f.params.length plain.length } m ↔
      f.required ≤ plain.length ∧ f.isVariadic = false ∧ f.params.length < plain.length) ∧
    (f.required ≤ plain.length → ¬ (f.isVariadic = false ∧ f.params.length < plain.length) →
      ∀ dicts vs m₁, f.dictionaryBindings? dictionaries = some dicts →
        Supplied (apply fuel) s c.scope new (f.needed plain.length)
          (m.opened c.scope (Assoc.insertAll (f.bindings dicts types plain) [])) vs m₁ →
        (outcome = .failed { cause := .arityMismatch f.name f.required plain.length } m₁ ↔
          ∃ p ∈ f.uncovered plain.length, p.default = none) ∧
        ((∀ p ∈ f.uncovered plain.length, p.default ≠ none) →
          outcome = .done (.ready new) (m₁.bindingAll new (f.surplus plain)) ∧
          ((f.needed plain.length ≠ [] → c.OpensNew s m) →
            ∃ bindings, (m₁.bindingAll new (f.surplus plain)).store.scopes[new]? =
                some { parent := some c.scope, bindings } ∧
              ∀ name, bindings.lookup name = (f.bindings dicts types (plain ++ vs) ++
                f.surplus plain).reverse.lookup name))) := by
  intro f plain dictionaries new types outcome
  refine ⟨bindArguments_missing_iff fuel, bindArguments_short_iff fuel, bindArguments_many_iff fuel,
    fun hrequired henough dicts vs m₁ hdicts hsupplied => ?_⟩
  obtain ⟨hdone, hfailed⟩ := bindScope_supplied hdicts hsupplied
  have houtcome : outcome =
      (do return .ready (← bindScope (apply fuel) c args site) : Run Binding) s m :=
    congrFun (congrFun (bindArguments_enough hrequired henough) s) m
  have hready (hall : ∀ p ∈ f.uncovered plain.length, p.default ≠ none) :
      outcome = .done (.ready new) (m₁.bindingAll new (f.surplus plain)) := by
    rw [houtcome, bind_of_done (hdone hall)]
    rfl
  refine ⟨⟨fun heq => ?_, fun hmissing => ?_⟩, fun hall => ⟨hready hall, fun hnew => ?_⟩⟩
  · apply Classical.byContradiction
    intro hnot
    have hall : ∀ p ∈ f.uncovered plain.length, p.default ≠ none :=
      fun p hp hnone => hnot ⟨p, hp, hnone⟩
    rw [hready hall] at heq
    cases heq
  · rw [houtcome, bind_of_failed (hfailed hmissing)]
  · have hscope : m₁.store.scopes[new]? = some
        { parent := some c.scope
          bindings := Assoc.insertAll (f.bindings dicts types (plain ++ vs)) [] } := by
      rw [Func.bindings_append, Assoc.insertAll_append, ← Func.needed_eq hall]
      exact hsupplied.getElem?_opened hnew
    refine ⟨_, Machine.getElem?_bindingAll hscope (f.surplus plain), fun name => ?_⟩
    rw [← Assoc.insertAll_append, Assoc.lookup_insertAll]
    simp

namespace Labelling

/-- `label(x, sep = dash, rest...)`, with a dictionary parameter. -/
def label : Closure where
  func :=
    ⟨"label", [⟨"x", none, none, false⟩, ⟨"sep", none, some ⟨.var "dash", {}⟩, false⟩,
      ⟨"rest", none, none, true⟩], none, [], [⟨"shows", "Show"⟩], ⟨.var "x", {}⟩, {}⟩
  scope := Store.global

/-- Type variable `a` stands for integers at one call. -/
def start : Machine where
  store := ⟨#[{ bindings := [("dash", .str "-")] }]⟩
  hints := { instantiations := [(7, [("a", .con "Int")])] }

def shows : Dictionary := .placeholder 0 "Show"

def site : CallSite := { name := "label", node := some 7 }

theorem opensNew : label.OpensNew {} start where
  scope := by decide
  host := Host.obeys_default
  global := by decide
  parent {id sc p} hsc hp := by
    cases id with
    | zero =>
      cases hsc
      cases hp
    | succ id => cases hsc
  value {id sc name v} hsc hv := by
    cases id with
    | zero =>
      cases hsc
      have hdash : ∀ b ∈ [("dash", Value.str "-")], b.2.Obeys (.hiding 1) := by simp
      exact obeys_of_lookup hdash hv
    | succ id => cases hsc
  registry := by
    refine ⟨fun h => ?_, fun h => ?_, fun h => ?_⟩
    · cases h
    · cases h
    · cases h

/-- The only default that is needed is looked up in the global scope. -/
theorem supplied :
    Supplied (apply 1) {} Store.global 1 (label.func.needed 1)
      (start.opened Store.global [("shows", .dictionary shows), ("a", .typeRep (.con "Int")),
        ("x", .int 1)]) [.str "-"]
      (start.opened Store.global [("shows", .dictionary shows), ("a", .typeRep (.con "Int")),
        ("x", .int 1), ("sep", .str "-")]) :=
  .cons rfl rfl (.nil _)

end Labelling

open Labelling in
theorem bindArguments_exact_labelling :
    label.OpensNew {} start ∧
    ∃ m' bindings,
      bindArguments (apply 1) 0 label [.dictionary shows, .int 1] site {} start =
        .done (.ready 1) m' ∧
      m'.store.scopes[1]? = some { parent := some Store.global, bindings } ∧
      bindings.lookup "x" = some (.int 1) ∧ bindings.lookup "sep" = some (.str "-") ∧
      bindings.lookup "rest" = some (.list []) := by
  obtain ⟨-, -, -, hready⟩ :=
    bindArguments_exact 1 0 label [.dictionary shows, .int 1] site {} start
  have hall : ∀ p ∈ label.func.uncovered 1, p.default ≠ none := by
    intro p hp
    obtain rfl := List.mem_singleton.1 hp
    simp
  obtain ⟨-, hscope⟩ := hready (by decide) (by decide) _ _ _ rfl supplied
  obtain ⟨hdone, hbindings⟩ := hscope hall
  obtain ⟨bindings, hbound, hlookup⟩ := hbindings fun _ => opensNew
  exact ⟨opensNew, _, bindings, hdone, hbound, by rw [hlookup]; rfl, by rw [hlookup]; rfl,
    by rw [hlookup]; rfl⟩

end Run

end TraitLang
