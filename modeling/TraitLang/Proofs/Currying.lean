import TraitLang.Proofs.Fuel

/-!
Partial application. A partial application or a bound receiver wraps a callable together with
arguments that it has taken. Main statement: a wrapped callable behaves like the callable inside,
applied to the arguments taken and those that follow; as long as there are too few of them the
result is one flat partial application that knows how many are missing.
-/
namespace TraitLang

section PlainArgs

variable {v : Value} {args zs : List Value}

theorem plainArgs_cons_dictionary (hv : v.isDictionary = true) :
    plainArgs (v :: args) = plainArgs args := List.dropWhile_cons_of_pos hv

theorem plainArgs_cons_plain (hv : v.isDictionary = false) : plainArgs (v :: args) = v :: args :=
  List.dropWhile_cons_of_neg (by simp [hv])

theorem plainArgs_append (h : 0 < (plainArgs args).length) (ys : List Value) :
    plainArgs (args ++ ys) = plainArgs args ++ ys := by
  induction args with
  | nil => cases h
  | cons v args ih =>
    rw [List.cons_append]
    cases hv : v.isDictionary with
    | true =>
      rw [plainArgs_cons_dictionary hv] at h ⊢
      rw [plainArgs_cons_dictionary hv]
      exact ih h
    | false => rw [plainArgs_cons_plain hv, plainArgs_cons_plain hv, List.cons_append]

theorem plainArgs_plainArgs (args : List Value) : plainArgs (plainArgs args) = plainArgs args := by
  induction args with
  | nil => rfl
  | cons v args ih =>
    cases hv : v.isDictionary with
    | true => rw [plainArgs_cons_dictionary hv, ih]
    | false => rw [plainArgs_cons_plain hv, plainArgs_cons_plain hv]

theorem length_plainArgs_append (args : List Value) (hzs : ∀ z ∈ zs, z.isDictionary = false) :
    (plainArgs (args ++ zs)).length = (plainArgs args).length + zs.length := by
  induction args with
  | nil =>
    cases zs with
    | nil => rfl
    | cons z zs =>
      rw [List.nil_append, plainArgs_cons_plain (hzs z List.mem_cons_self)]
      exact (Nat.zero_add _).symm
  | cons v args ih =>
    rw [List.cons_append]
    cases hv : v.isDictionary with
    | true => rw [plainArgs_cons_dictionary hv, plainArgs_cons_dictionary hv, ih]
    | false =>
      rw [plainArgs_cons_plain hv, plainArgs_cons_plain hv, ← List.cons_append, List.length_append]

end PlainArgs

namespace Value

/-- The callable inside partial applications and bound receivers. -/
def core : Value → Value
  | partialApp _ callee _ _ => callee.core
  | bound _ callee _ => callee.core
  | v => v

/-- The arguments that partial applications and receivers have taken, in order. -/
def taken : Value → List Value
  | partialApp _ callee first _ => callee.taken ++ first
  | bound _ callee receiver => callee.taken ++ [receiver]
  | _ => []

/-- The number of partial applications and bound receivers around a callable. -/
def layers : Value → Nat
  | partialApp _ callee _ _ => callee.layers + 1
  | bound _ callee _ => callee.layers + 1
  | _ => 0

/-- What is missing from `required` arguments if `counted` count and any are `given`. -/
def shortfall (given counted required : Nat) : Option Nat :=
  if 0 < given ∧ counted < required then some (required - counted) else none

/-- How many arguments a callable waits for that gets some, but too few. Dictionaries in front count
only for constructors and operators; to a function they may be all that it gets. -/
def missing? (args : List Value) : Value → Option Nat
  | function _ c => shortfall args.length (plainArgs args).length c.func.required
  | builtin b => b.arity.bind fun arity =>
    shortfall (plainArgs args).length (plainArgs args).length (arity - b.defaults.length)
  | constructor _ _ _ arity => shortfall args.length args.length arity
  | operator _ => shortfall args.length args.length 2
  | method _ m => shortfall (plainArgs args).length (plainArgs args).length m.arity
  | _ => none

/-- The arguments that a partial application of a callable keeps: a builtin drops dictionaries in
front. -/
def kept (args : List Value) : Value → List Value
  | builtin _ => plainArgs args
  | _ => args

/-- No partial application or bound receiver is left around the callable inside. -/
theorem layers_core (f : Value) : f.core.layers = 0 := by
  fun_induction core f with
  | case1 _ _ _ _ ih | case2 _ _ _ ih => exact ih
  | case3 v hpartial hbound =>
    cases v with
    | partialApp id callee first remaining => exact absurd rfl (hpartial id callee first remaining)
    | bound id callee receiver => exact absurd rfl (hbound id callee receiver)
    | _ => rfl

theorem core_eq {v : Value} (h : v.layers = 0) : v.core = v := by
  cases v with
  | partialApp | bound => cases h
  | _ => rfl

theorem taken_eq {v : Value} (h : v.layers = 0) : v.taken = [] := by
  cases v with
  | partialApp | bound => cases h
  | _ => rfl

theorem shortfall_eq_some {given counted required r : Nat}
    (h : shortfall given counted required = some r) :
    0 < given ∧ counted < required ∧ r = required - counted := by
  unfold shortfall at h
  split at h
  · next hlt => exact ⟨hlt.1, hlt.2, (Option.some.inj h).symm⟩
  · cases h

theorem missing?_pos {v : Value} {args : List Value} {r : Nat} (h : v.missing? args = some r) :
    0 < r := by
  have hpos {given counted required : Nat} (h : shortfall given counted required = some r) :
      0 < r := by
    obtain ⟨-, hlt, rfl⟩ := shortfall_eq_some h
    omega
  cases v with
  | function | constructor | operator | method => exact hpos h
  | builtin b =>
    obtain ⟨arity, -, h⟩ := Option.bind_eq_some_iff.1 h
    exact hpos h
  | _ => cases h

/-- Arguments that follow are counted down. -/
theorem missing?_kept_append {v : Value} {args zs : List Value} {r : Nat}
    (h : v.missing? args = some r) (hzs : ∀ z ∈ zs, z.isDictionary = false)
    (hlt : zs.length < r) : v.missing? (v.kept args ++ zs) = some (r - zs.length) := by
  have hshort {given counted required : Nat} (h : shortfall given counted required = some r)
      {given' : Nat} (hgiven : given ≤ given') :
      shortfall given' (counted + zs.length) required = some (r - zs.length) := by
    obtain ⟨hpos, hcounted, rfl⟩ := shortfall_eq_some h
    unfold shortfall
    rw [if_pos (by omega)]
    congr 1
    omega
  have hlen : args.length ≤ (args ++ zs).length := by simp
  have hplain := length_plainArgs_append args hzs
  cases v with
  | function id c =>
    show shortfall (args ++ zs).length (plainArgs (args ++ zs)).length c.func.required = _
    rw [hplain]
    exact hshort h hlen
  | constructor id type name arity =>
    show shortfall (args ++ zs).length (args ++ zs).length arity = _
    rw [List.length_append]
    exact hshort h (by omega)
  | operator op =>
    show shortfall (args ++ zs).length (args ++ zs).length 2 = _
    rw [List.length_append]
    exact hshort h (by omega)
  | method id m =>
    show shortfall (plainArgs (args ++ zs)).length (plainArgs (args ++ zs)).length m.arity = _
    rw [hplain]
    exact hshort h (by omega)
  | builtin b =>
    obtain ⟨arity, harity, h⟩ := Option.bind_eq_some_iff.1 h
    have hkept := length_plainArgs_append (plainArgs args) hzs
    rw [plainArgs_plainArgs] at hkept
    show b.arity.bind _ = _
    rw [harity]
    show shortfall (plainArgs (plainArgs args ++ zs)).length
      (plainArgs (plainArgs args ++ zs)).length (arity - b.defaults.length) = _
    rw [hkept]
    exact hshort h (by omega)
  | _ => cases h

end Value

section Core

open Coupling

variable {s : Setting} {n k : Nat}

/-- Peeling a wrapper off takes one round. -/
theorem Run.reduce_partialApp (n : Nat) (id : Ident) (callee : Value) (first : List Value)
    (remaining : Nat) (args : List Value) (site : CallSite) :
    reduce (n + 1) (.partialApp id callee first remaining) args site =
      reduce n callee (first ++ args) site := rfl

theorem Run.reduce_bound (n : Nat) (id : Ident) (callee receiver : Value) (args : List Value)
    (site : CallSite) :
    reduce (n + 1) (.bound id callee receiver) args site =
      reduce n callee (receiver :: args) site := rfl

theorem reduce_core (hnk : n ≤ k) (f : Value) (args : List Value) (site : CallSite) :
    (exactly s s).Follows (SameReduced id) (Run.reduce n f args site)
      (Run.reduce k f.core (f.taken ++ args) site) := by
  induction n generalizing f args with
  | zero => exact .outOfFuel _
  | succ n ih =>
    cases f with
    | partialApp id callee first remaining =>
      rw [Value.core, Value.taken, List.append_assoc, Run.reduce_partialApp]
      exact ih (by omega) callee (first ++ args)
    | bound id callee receiver =>
      rw [Value.core, Value.taken, List.append_assoc, Run.reduce_bound]
      exact ih (by omega) callee (receiver :: args)
    | _ => exact .reduce (exactly_lawful (.refl s)) hnk site rfl rfl

theorem reduce_of_core {f : Value} (hnk : n + f.layers ≤ k) (args : List Value) (site : CallSite) :
    (exactly s s).Follows (SameReduced id) (Run.reduce n f.core (f.taken ++ args) site)
      (Run.reduce k f args site) := by
  induction k generalizing f args with
  | zero =>
    obtain rfl : n = 0 := by omega
    exact .outOfFuel _
  | succ k ih =>
    cases f with
    | partialApp id callee first remaining =>
      rw [Value.layers] at hnk
      rw [Value.core, Value.taken, List.append_assoc, Run.reduce_partialApp]
      exact ih (by omega) (first ++ args)
    | bound id callee receiver =>
      rw [Value.layers] at hnk
      rw [Value.core, Value.taken, List.append_assoc, Run.reduce_bound]
      exact ih (by omega) (receiver :: args)
    | _ => exact .reduce (exactly_lawful (.refl s)) (Nat.le_of_add_right_le hnk) site rfl rfl

/-- A wrapped callable returns what the callable inside returns for all the arguments. -/
theorem returns_core_iff (f : Value) (args : List Value) (site : CallSite) (s : Setting)
    (m : Machine) (o : Outcome Value) :
    Returns f args site s m o ↔ Returns f.core (f.taken ++ args) site s m o := by
  constructor
  · refine Returns.of_follows fun n => ⟨n, ?_⟩
    cases n with
    | zero => exact .outOfFuel _
    | succ n =>
      have hn := Nat.le_refl n
      exact exactly_applyWith (.refl s) (exactly_apply (.refl s) hn) hn
        (reduce_core hn f args site)
  · refine Returns.of_follows fun n => ⟨n + f.layers, ?_⟩
    cases n with
    | zero => exact .outOfFuel _
    | succ n =>
      have hn := Nat.le_add_right n f.layers
      rw [Nat.add_right_comm]
      exact exactly_applyWith (.refl s) (exactly_apply (.refl s) hn) hn
        (reduce_of_core (Nat.le_refl _) args site)

theorem returns_partialApp_iff {v : Value} (hv : v.layers = 0) (id : Ident) (first : List Value)
    (r : Nat) (args : List Value) (site : CallSite) (s : Setting) (m : Machine)
    (o : Outcome Value) :
    Returns (.partialApp id v first r) args site s m o ↔
      Returns v (first ++ args) site s m o := by
  rw [returns_core_iff, Value.core, Value.taken, Value.core_eq hv, Value.taken_eq hv,
    List.nil_append]

end Core

section Short

variable {a : Apply} {v : Value} {args : List Value} {r : Nat}

theorem bindArguments_short {id : Ident} {c : Closure} (site : CallSite)
    (h : (Value.function id c).missing? args = some r) :
    Run.bindArguments a id c args site = (do
      return .short (← Run.partialApp (.function id c) args r)) := by
  obtain ⟨hgiven, hlt, rfl⟩ := Value.shortfall_eq_some h
  have hne : args.isEmpty = false := by simpa using List.ne_nil_of_length_pos hgiven
  unfold Run.bindArguments
  dsimp only
  rw [if_pos hlt, hne]
  rfl

theorem callBuiltin_short {b : Builtin} (h : (Value.builtin b).missing? args = some r) :
    Run.callBuiltin a b args = Run.partialApp (.builtin b) (plainArgs args) r := by
  obtain ⟨arity, harity, h⟩ := Option.bind_eq_some_iff.1 h
  obtain ⟨hgiven, hlt, rfl⟩ := Value.shortfall_eq_some h
  have hne : (plainArgs args).isEmpty = false := by simpa using List.ne_nil_of_length_pos hgiven
  unfold Run.callBuiltin
  rw [harity]
  dsimp only
  rw [hne, if_neg (by simp), if_pos hlt]

theorem applyNative_short (site : CallSite) (h : v.missing? args = some r)
    (hfunction : ∀ id c, v ≠ .function id c) (hmethod : ∀ id m, v ≠ .method id m) :
    Run.applyNative a v args site =
      Run.mapFault (·.orLocation site.span) (Run.partialApp v (v.kept args) r) := by
  cases v with
  | function id c => exact absurd rfl (hfunction id c)
  | method id m => exact absurd rfl (hmethod id m)
  | builtin b =>
    show Run.mapFault _ (Run.callBuiltin a b args) = _
    rw [callBuiltin_short h]
    rfl
  | constructor id type name arity =>
    obtain ⟨hgiven, hlt, rfl⟩ := Value.shortfall_eq_some h
    have hne : args.isEmpty = false := by simpa using List.ne_nil_of_length_pos hgiven
    show Run.mapFault _ (if args.length = arity then _ else _) = _
    rw [if_neg (by omega), hne, if_neg (by simp), if_pos hlt]
    rfl
  | operator op =>
    obtain ⟨hgiven, hlt, rfl⟩ := Value.shortfall_eq_some h
    obtain ⟨x, rfl⟩ : ∃ x, args = [x] := List.length_eq_one_iff.1 (by omega)
    rfl
  | _ => cases h

theorem loopStep_short (n base : Nat) (site : CallSite) (h : v.missing? args = some r)
    (hmethod : ∀ id m, v ≠ .method id m) :
    Run.loopStep a n base ⟨⟨v, args, none⟩, site, false⟩ = (do
      return .inr (← Run.partialApp v (v.kept args) r)) := by
  have hother (hfunction : ∀ id c, v ≠ .function id c) :
      Run.runOther a ⟨⟨v, args, none⟩, site, false⟩ = Run.partialApp v (v.kept args) r := by
    show Run.mapFault _ (Run.applyNative a v args site) = _
    rw [applyNative_short site h hfunction hmethod]
    rfl
  cases v with
  | function id c =>
    show (Run.mapFault _ (do
      let b ← Run.bindArguments a id c args site
      _) >>= _) = _
    rw [bindArguments_short site h]
    rfl
  | method id m => exact absurd rfl (hmethod id m)
  | builtin | constructor | operator =>
    rw [← hother (by simp)]
    rfl
  | _ => cases h

theorem reduceStep_short {id : Ident} {method : ClassMethod} (site : CallSite)
    (h : (Value.method id method).missing? args = some r) :
    Run.reduceStep site ⟨.method id method, args, none⟩ = (do
      return .inr (.short (← Run.partialApp (.method id method) args r))) := by
  obtain ⟨hgiven, hlt, rfl⟩ := Value.shortfall_eq_some h
  unfold Run.reduceStep
  dsimp only
  rw [if_pos ⟨hgiven, hlt⟩]

theorem keepingWitnesses_eq {α : Type} {x : Run α} {b : α} {s : Setting} {m m₁ : Machine}
    (hx : x s m = .done b m₁) (hw : m₁.witnesses = m.witnesses) :
    Run.keepingWitnesses x s m = .done b m₁ := by
  show Run.ensuring _ x s m = _
  unfold Run.ensuring
  rw [hx]
  show Outcome.done b { m₁ with witnesses := m₁.witnesses.cut m.witnesses.depth } = _
  rw [← hw, Stack.cut_depth]

/-- With too few arguments a callable gives a partial application and touches nothing else. -/
theorem trampoline_short (site : CallSite) (h : v.missing? args = some r) (s : Setting)
    (m : Machine) :
    Run.trampoline a 1 v args site s m = Run.partialApp v (v.kept args) r s m := by
  cases v with
  | method id method =>
    refine keepingWitnesses_eq ?_ rfl
    show Run.bind (Run.iterate _ 1 _) _ s m = _
    rw [Run.iterate_succ, reduceStep_short site h]
    rfl
  | function | builtin | constructor | operator =>
    refine keepingWitnesses_eq ?_ rfl
    show Run.iterate (Run.loopStep a 1 m.witnesses.depth) 1 _ s m = _
    rw [Run.iterate_succ, loopStep_short 1 _ site h (by simp)]
    rfl
  | _ => cases h

/-- With too few arguments a call returns a partial application, and of the machine only the supply
of identities changes. -/
theorem returns_short (site : CallSite) (h : v.missing? args = some r) {s : Setting} {m : Machine}
    (hdepth : m.calls.depth < s.limits.maxCallDepth) :
    Returns v args site s m (.done (.partialApp m.nextIdent v (v.kept args) r)
      { m with nextIdent := m.nextIdent + 1 }) := by
  refine ⟨trivial, 2, ?_⟩
  show Run.applyWith (apply 1) 1 v args site s m = _
  unfold Run.applyWith Run.asCall Run.withCall
  rw [if_neg (by omega)]
  dsimp only
  rw [trampoline_short site h]
  show Outcome.done _ { m with
    calls := (m.calls.push (m.frame site)).cut m.calls.depth, nextIdent := m.nextIdent + 1 } = _
  rw [Stack.cut_push]

end Short

section Kept

variable {args args' : List Value}

/-- A builtin with a function type does not see dictionaries in front. -/
theorem apply_builtin_plain {b : Builtin} {arity : Nat} (harity : b.arity = some arity)
    (hargs : plainArgs args = plainArgs args') (fuel : Nat) (site : CallSite) :
    apply fuel (.builtin b) args site = apply fuel (.builtin b) args' site := by
  have hcall (a : Apply) : Run.callBuiltin a b args = Run.callBuiltin a b args' := by
    unfold Run.callBuiltin
    rw [harity]
    dsimp only
    rw [hargs]
  have hstep (a : Apply) (n base : Nat) :
      Run.loopStep a n base ⟨⟨.builtin b, args, none⟩, site, false⟩ =
        Run.loopStep a n base ⟨⟨.builtin b, args', none⟩, site, false⟩ := by
    show (Run.mapFault _ (Run.mapFault _ (Run.callBuiltin a b args)) >>= _) = _
    rw [hcall]
    rfl
  have htrampoline (a : Apply) (n : Nat) :
      Run.trampoline a n (.builtin b) args site = Run.trampoline a n (.builtin b) args' site := by
    refine congrArg (fun x => Run.keepingWitnesses (Run.machine >>= x)) (funext fun m => ?_)
    cases n with
    | zero => rfl
    | succ n =>
      show Run.iterate _ (n + 1) _ = Run.iterate _ (n + 1) _
      rw [Run.iterate_succ, Run.iterate_succ, hstep]
  cases fuel with
  | zero => rfl
  | succ n =>
    show Run.applyWith (apply n) n _ args site = Run.applyWith (apply n) n _ args' site
    unfold Run.applyWith
    rw [htrampoline]

/-- Nothing is lost with the arguments that a partial application drops. -/
theorem returns_kept_iff {v : Value} {r : Nat} (h : v.missing? args = some r) (ys : List Value)
    (site : CallSite) (s : Setting) (m : Machine) (o : Outcome Value) :
    Returns v (v.kept args ++ ys) site s m o ↔ Returns v (args ++ ys) site s m o := by
  cases v with
  | builtin b =>
    obtain ⟨arity, harity, h⟩ := Option.bind_eq_some_iff.1 h
    have hpos := (Value.shortfall_eq_some h).1
    have hplain : plainArgs (plainArgs args ++ ys) = plainArgs (args ++ ys) := by
      rw [plainArgs_append hpos, plainArgs_append (by rwa [plainArgs_plainArgs]),
        plainArgs_plainArgs]
    show Returns (.builtin b) (plainArgs args ++ ys) site s m o ↔ _
    simp only [Returns, apply_builtin_plain harity hplain]
  | _ => exact Iff.rfl

end Kept

/-- The currying law. A callable that gets some arguments, but too few, returns a flat partial
application that knows how many are missing, whatever a debugger waits for, and uses up an identity.
Each plain argument that follows is counted down, and applied to the rest it returns what the
callable returns for all of them. In any case a wrapped callable returns what the callable inside
returns for the arguments taken and those that follow. -/
theorem currying (f : Value) (xs : List Value) :
    (∀ r, f.core.missing? (f.taken ++ xs) = some r → 0 < r ∧ f.core.layers = 0 ∧
      ∀ id, let p := Value.partialApp id f.core (f.core.kept (f.taken ++ xs)) r
        (∀ s m site, m.calls.depth < s.limits.maxCallDepth → m.nextIdent = id → ∀ o,
          Returns f xs site s m o ↔ o = .done p { m with nextIdent := m.nextIdent + 1 }) ∧
        (∀ zs, (∀ z ∈ zs, z.isDictionary = false) → zs.length < r →
          ∀ s m site, m.calls.depth < s.limits.maxCallDepth → ∃ args,
            Returns p zs site s m (.done
              (.partialApp m.nextIdent f.core args (r - zs.length))
              { m with nextIdent := m.nextIdent + 1 })) ∧
        ∀ ys site s m o, Returns p ys site s m o ↔ Returns f (xs ++ ys) site s m o) ∧
    ∀ site s m o, Returns f xs site s m o ↔ Returns f.core (f.taken ++ xs) site s m o := by
  refine ⟨fun r h => ⟨Value.missing?_pos h, f.layers_core, fun id => ⟨?_, ?_, ?_⟩⟩,
    fun site s m o => returns_core_iff f xs site s m o⟩
  · rintro s m site hdepth rfl o
    have hshort := (returns_core_iff f xs site s m _).2 (returns_short site h hdepth)
    exact ⟨fun ho => ho.unique hshort, fun ho => ho ▸ hshort⟩
  · intro zs hzs hlt s m site hdepth
    refine ⟨f.core.kept (f.core.kept (f.taken ++ xs) ++ zs), ?_⟩
    rw [returns_partialApp_iff f.layers_core]
    exact returns_short site (Value.missing?_kept_append h hzs hlt) hdepth
  · intro ys site s m o
    rw [returns_partialApp_iff f.layers_core, returns_kept_iff h, returns_core_iff f,
      List.append_assoc]

/-- A receiver bound to a partial application of a constructor with four fields. -/
theorem currying_quad :
    let quad : Value := .constructor 0 "Quad" "Quad" 4
    let f : Value := .bound 2 (.partialApp 1 quad [.unit] 3) (.bool true)
    let p : Value := .partialApp 0 quad [.unit, .bool true, .unit] 1
    let site : CallSite := { name := "quad" }
    f.core.missing? (f.taken ++ [.unit]) = some 1 ∧
      Returns f [.unit] site {} {} (.done p { nextIdent := 1 }) ∧
      (∃ args, Returns p [] site {} {} (.done (.partialApp 0 quad args 1) { nextIdent := 1 })) ∧
      Returns p [.bool false] site {} {}
        (.done (.data "Quad" "Quad" [.unit, .bool true, .unit, .bool false]) {}) := by
  intro quad f p site
  have hmissing : f.core.missing? (f.taken ++ [.unit]) = some 1 := rfl
  obtain ⟨-, -, h⟩ := (currying f [.unit]).1 1 hmissing
  obtain ⟨hshort, hcount, happend⟩ := h 0
  exact ⟨hmissing, (hshort {} {} site (by decide) rfl _).2 rfl,
    hcount [] (by simp) (by decide) {} {} site (by decide),
    (happend [.bool false] site {} {} _).2 ⟨trivial, 5, rfl⟩⟩

end TraitLang
