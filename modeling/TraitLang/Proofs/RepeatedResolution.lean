import TraitLang.Proofs.ArgumentDispatch

/-!
Resolving a method twice. The first time a default may become a method of an instance, so that the
second time there is something to find by evidence, by the expected type or by the arguments. Main
statement: the definition that is found, and what is left of the arguments, are those of the first
time.
-/
namespace TraitLang

theorem scoreKey_self_pos {types : List String} (h : types ≠ []) (contextName : Option String) :
    0 < scoreKey ⟨types⟩ types contextName := by
  obtain ⟨ty, rest, rfl⟩ := List.exists_cons_of_ne_nil h
  unfold scoreKey
  dsimp only
  apply Nat.add_pos_left
  rw [List.countP_pos_iff]
  exact ⟨(ty, ty), by simp, by simp⟩

/-- A search that finds nothing but one method. -/
def FindsOnly (v : Value) (found? : Option Candidate) : Prop :=
  ∀ found, found? = some found → found.callee = v

theorem findsOnly_none (v : Value) : FindsOnly v none := by
  intro found h
  cases h

namespace Registry

variable {r : Registry} {m : ClassMethod} {args : List Value} {key k : TypeKey} {v : Value}

theorem mem_instanceKeys_of_serves (h : r.Serves m args k = true) :
    k ∈ r.instanceKeys m.traitName := by
  obtain ⟨callee, hlookup, -⟩ := serves_iff.1 h
  obtain ⟨methods, htable, -⟩ := Option.bind_eq_some_iff.1 hlookup
  exact List.mem_map_of_mem (Assoc.mem_of_lookup htable)

theorem serves_addMethod_of_ne (hk : k ≠ key) :
    (r.addMethod m.traitName key m.method v).Serves m args k = r.Serves m args k := by
  simp [Serves, lookup?_addMethod, hk,
    (agreeOnNames_addMethod r m.traitName key m.method v).acceptsArgs]

/-! ### Searches that found nothing, made again -/

/-- What is under a key afterwards is the new method, unless the key served before. -/
theorem callee_of_lookup?_addMethod {callee : Value}
    (hserves : (r.addMethod m.traitName key m.method v).Serves m args k = true)
    (hlookup : (r.addMethod m.traitName key m.method v).lookup? m.traitName k m.method =
      some callee)
    (hbefore : ¬ r.Serves m args k = true) : callee = v := by
  by_cases hkey : k = key
  · rw [hkey, lookup?_addMethod, if_pos ⟨rfl, rfl, rfl⟩] at hlookup
    exact (Option.some.inj hlookup).symm
  · rw [serves_addMethod_of_ne hkey] at hserves
    exact absurd hserves hbefore

/-- All keys that are searched now and served before were searched before. -/
theorem firstAccepting?_again {exact : Bool} {keys keys' : List TypeKey}
    (h : r.firstAccepting? m args exact keys = none)
    (hkeys : ∀ k ∈ keys', r.Serves m args k = true → k ∈ keys) (exact' : Bool) :
    FindsOnly v
      ((r.addMethod m.traitName key m.method v).firstAccepting? m args exact' keys') := by
  intro found hfound
  obtain ⟨hhead, -, hlookup⟩ := firstAccepting?_eq_some_iff.1 hfound
  obtain ⟨hmem, hserves⟩ := List.mem_filter.1 (List.mem_of_mem_head? hhead)
  apply callee_of_lookup?_addMethod hserves hlookup
  intro hbefore
  have hnot := firstAccepting?_eq_none_iff.1 h found.key (hkeys _ hmem hbefore)
  rw [hbefore] at hnot
  cases hnot

theorem mem_keysNamed_of_serves {r' : Registry} {name : String}
    (hk : k ∈ r'.keysNamed m.traitName name) (h : r.Serves m args k = true) :
    k ∈ r.keysNamed m.traitName name := by
  unfold keysNamed at hk ⊢
  rcases List.mem_cons.1 hk with rfl | hk
  · exact List.mem_cons_self
  · have hcond := (List.mem_filter.1 hk).2
    exact List.mem_cons_of_mem _ (List.mem_filter.2 ⟨mem_instanceKeys_of_serves h, hcond⟩)

theorem contextCandidate?_again {expected : Ty} (h : r.contextCandidate? m expected args = none) :
    FindsOnly v ((r.addMethod m.traitName key m.method v).contextCandidate? m expected args) := by
  unfold contextCandidate? at h ⊢
  cases hname : expected.constructorName with
  | none => exact findsOnly_none v
  | some name =>
    rw [hname] at h
    refine firstAccepting?_again h (fun k hk hserves => ?_) true
    obtain ⟨name', hname', hk⟩ := List.mem_flatMap.1 hk
    exact List.mem_flatMap.2 ⟨name', hname', mem_keysNamed_of_serves hk hserves⟩

/-- The number of the trait's parameters may only be known now, and it may not have been that of the
types before; a method under these very types would have been found by its score then. -/
theorem argumentCandidate?_again {types : List String} {contextName : Option String}
    (htypes : types ≠ []) (h : r.argumentCandidate? m types args contextName = none) :
    FindsOnly v
      ((r.addMethod m.traitName key m.method v).argumentCandidate? m types args contextName) := by
  rw [argumentCandidate?_eq, Option.or_eq_none_iff] at h
  have hunserved := firstAccepting?_scored_none_iff.1 h.2
  intro found hfound
  rw [argumentCandidate?_eq, Option.or_eq_some_iff] at hfound
  rcases hfound with hexact | ⟨-, hscored⟩
  · obtain ⟨-, hserves, hkey, -, hlookup⟩ := exactCandidate?_eq_some_iff.1 hexact
    apply callee_of_lookup?_addMethod hserves hlookup
    intro hbefore
    have hnot := hunserved _ (mem_instanceKeys_of_serves hbefore)
      (scoreKey_self_pos htypes contextName)
    rw [hbefore] at hnot
    cases hnot
  · refine firstAccepting?_again h.2 (fun k hk hserves => ?_) false found hscored
    rw [scoredKeys_eq, List.mem_mergeSort, List.mem_filter] at hk ⊢
    exact ⟨mem_instanceKeys_of_serves hserves, hk.2⟩

end Registry

namespace ClassMethod

variable {m : ClassMethod} {hasArgs : Bool} {types : List String}
  {context : Option (Ty × ContextSource)} {c c' a a' : Option Candidate} {v : Value}

theorem preferred?_mem (m : ClassMethod) (hasArgs : Bool) (types : List String)
    (context : Option (Ty × ContextSource)) (c a : Option Candidate) :
    m.preferred? hasArgs types context c a = c ∨ m.preferred? hasArgs types context c a = a ∨
      m.preferred? hasArgs types context c a = none := by
  unfold preferred?
  cases m.choose hasArgs types context c a <;> simp

/-- Nothing won before. What the searches that had a say find now, wins now. -/
theorem preferred?_again (hcontext : context = none → c = none)
    (h : m.preferred? hasArgs types context c a = none) (hc : c = none → FindsOnly v c')
    (ha : a = none → FindsOnly v a') : FindsOnly v (m.preferred? hasArgs types context c' a') := by
  by_cases hshow : m.traitName = "Show"
  · rw [preferred?_show hshow, Option.or_eq_none_iff] at h
    rw [preferred?_show hshow]
    intro found hfound
    rcases Option.or_eq_some_iff.1 hfound with hfound | ⟨-, hfound⟩
    · exact ha h.1 found hfound
    · cases hasArgs with
      | true => cases hfound
      | false => exact hc h.2 found hfound
  by_cases honly : m.isContextOnly = true
  · rw [preferred?_contextOnly hshow honly] at h ⊢
    exact hc h
  have honly : m.isContextOnly = false := by simpa using honly
  have hnone : c = none ∧ a = none := by
    cases c with
    | none =>
      rw [preferred?_one hshow honly (.inl rfl), Option.none_or] at h
      exact ⟨rfl, h⟩
    | some x =>
      cases a with
      | none =>
        rw [preferred?_one hshow honly (.inr rfl)] at h
        cases h
      | some y =>
        cases context with
        | none => cases hcontext rfl
        | some expected =>
          rcases preferred?_both hshow honly hasArgs types expected x y with
            ⟨-, hwon⟩ | ⟨-, hwon⟩
          · rw [hwon] at h
            cases h
          · rw [hwon] at h
            cases h
  rcases preferred?_mem m hasArgs types context c' a' with hwins | hwins | hwins
  · rw [hwins]
    exact hc hnone.1
  · rw [hwins]
    exact ha hnone.2
  · rw [hwins]
    exact findsOnly_none v

end ClassMethod

namespace Machine

variable {mach : Machine} {m : ClassMethod} {args : List Value} {site : CallSite}

theorem preferred?_again (f : Func) (key : TypeKey) (named : Bool)
    (h : mach.preferred? m args site = none) :
    FindsOnly (.function mach.nextIdent (Registry.defaultClosure m.traitName f))
      ((mach.withDefault m f (some (key, named))).preferred? m args site) := by
  have hcontext : mach.expectedType m site = none →
      mach.contextOffer? m args site = none := by
    intro hnone
    simp [contextOffer?, hnone]
  unfold preferred?
  rw [expectedType_withDefault]
  refine ClassMethod.preferred?_again hcontext h (fun hc => ?_) fun ha => ?_
  · unfold contextOffer? at hc ⊢
    rw [expectedType_withDefault, registry_withDefault]
    cases hexpected : mach.expectedType m site with
    | none => exact findsOnly_none _
    | some expected =>
      rw [hexpected] at hc
      exact Registry.contextCandidate?_again hc
  · unfold argumentOffer? at ha ⊢
    rw [expectedType_withDefault, registry_withDefault]
    split
    · exact findsOnly_none _
    · rename_i hargs
      rw [if_neg hargs] at ha
      have htypes : m.dispatchTypes (plainArgs args) ≠ [] := by
        intro hnil
        simp [hnil] at hargs
      exact Registry.argumentCandidate?_again htypes ha

/-- What was left to a default is left to it again, or the default is found as a method. -/
theorem select_again {fb : Fallback} (h : mach.select m args site = .inr fb) (f : Func)
    (place : Option (TypeKey × Bool)) :
    Selects True (.function mach.nextIdent (Registry.defaultClosure m.traitName f)) (.inr fb)
      ((mach.withDefault m f place).select m args site) := by
  cases place with
  | none =>
    have hsame : (mach.withDefault m f none).select m args site =
        mach.select m args site := rfl
    rw [hsame, h]
    exact .fallback fb
  | some place =>
    obtain ⟨key, named⟩ := place
    rw [← h]
    refine select_of_prevails mach f named rfl rfl args site (fun _ => trivial)
      fun rest hdict hevidence => ?_
    have hweigh : mach.weigh m rest site = .inr fb := by
      simpa only [select, hdict, hevidence] using h
    have hbefore : mach.preferred? m rest site = none := by
      apply Option.eq_none_iff_forall_ne_some.2
      intro found hfound
      obtain ⟨witness, hfound⟩ := weigh_of_preferred hfound
      rw [hfound] at hweigh
      cases hweigh
    rw [hbefore]
    cases hafter : (mach.withDefault m f (some (key, named))).preferred? m rest site with
    | none => exact .refl _ _ none
    | some found => exact .of_new trivial (preferred?_again f key named hbefore found hafter)

end Machine

namespace Interpreter

variable {i j : Interpreter} {m : ClassMethod} {args : List Value} {site : CallSite}
  {r : Resolution}

theorem resolve_of_fallback (hi : i.Unwatched) {fb : Fallback}
    (h : i.machine.select m args site = .inr fb) :
    i.resolve m args site = i.exec (Run.resolveDefault m fb) := by
  unfold resolve exec
  rw [Run.resolve_eq (hi _ _), h, Sum.elim_inr]

theorem resolve_of_userDefault (hi : i.Unwatched) {fb : Fallback} {f : Func}
    (h : i.machine.select m args site = .inr fb)
    (huser : i.machine.registry.userDefault? m.traitName m.method = some f) :
    i.resolve m args site =
      (some (.ok
        { callee := .function i.machine.nextIdent (Registry.defaultClosure m.traitName f)
          args := fb.args
          witness := fb.witness m (i.machine.registry.defaultKey m fb) }),
        { i with machine := i.machine.withDefault m f (i.machine.registry.defaultKey m fb) }) := by
  rw [resolve_of_fallback hi h, exec, Run.resolveDefault_user huser]

theorem resolve_of_builtinDefault (hi : i.Unwatched) {fb : Fallback}
    {callee : Value} (h : i.machine.select m args site = .inr fb)
    (huser : i.machine.registry.userDefault? m.traitName m.method = none)
    (hbuiltin : i.machine.registry.builtinDefault? m.traitName m.method = some callee) :
    i.resolve m args site =
      (some (.ok
        { callee, args := fb.args
          witness := fb.witness m (i.machine.registry.defaultKey m fb) }), i) := by
  rw [resolve_of_fallback hi h, exec, Run.resolveDefault_builtin huser hbuiltin]

theorem resolve_of_no_default (hi : i.Unwatched) {fb : Fallback}
    (h : i.machine.select m args site = .inr fb)
    (huser : i.machine.registry.userDefault? m.traitName m.method = none)
    (hbuiltin : i.machine.registry.builtinDefault? m.traitName m.method = none) :
    ∃ f, i.resolve m args site = (some (.error f), i) ∧ f.kind = .dispatch := by
  rw [resolve_of_fallback hi h, exec, Run.resolveDefault_none huser hbuiltin]
  exact ⟨_, rfl, rfl⟩

/-- Without a default of the user's, resolving leaves the interpreter as it is. -/
theorem eq_of_resolve_of_no_userDefault (hi : i.Unwatched) {fb : Fallback}
    (hselect : i.machine.select m args site = .inr fb)
    (huser : i.machine.registry.userDefault? m.traitName m.method = none)
    (h : i.resolve m args site = (some (.ok r), j)) : j = i := by
  cases hbuiltin : i.machine.registry.builtinDefault? m.traitName m.method with
  | none =>
    obtain ⟨f, hfails, -⟩ := resolve_of_no_default hi hselect huser hbuiltin
    rw [hfails] at h
    cases h
  | some callee =>
    rw [resolve_of_builtinDefault hi hselect huser hbuiltin] at h
    exact (congrArg Prod.snd h).symm

/-- Resolving the same method for the same arguments at the same call site once more gives the same
definition and leaves the same arguments, also if a default became a method of an instance when it
was resolved first. -/
theorem resolve_again (hi : i.Unwatched) (h : i.resolve m args site = (some (.ok r), j)) :
    ∃ r' j', j.resolve m args site = (some (.ok r'), j') ∧ r'.args = r.args ∧
      r.callee.SameDefinition r'.callee := by
  cases hselect : i.machine.select m args site with
  | inl found =>
    have hj : j = i := by
      rw [resolve_of_select hi hselect] at h
      exact (congrArg Prod.snd h).symm
    rw [hj] at h ⊢
    exact ⟨r, i, h, rfl, .refl _⟩
  | inr fb =>
    cases huser : i.machine.registry.userDefault? m.traitName m.method with
    | none =>
      have hj := eq_of_resolve_of_no_userDefault hi hselect huser h
      rw [hj] at h ⊢
      exact ⟨r, i, h, rfl, .refl _⟩
    | some f =>
      rw [resolve_of_userDefault hi hselect huser] at h
      obtain ⟨rfl, rfl⟩ : _ = r ∧ _ = j := by simpa using h
      have hj : Unwatched
          { i with machine := i.machine.withDefault m f (i.machine.registry.defaultKey m fb) } := hi
      have hselects := Machine.select_again hselect f (i.machine.registry.defaultKey m fb)
      generalize hafter : (i.machine.withDefault m f
        (i.machine.registry.defaultKey m fb)).select m args site = after at hselects
      cases hselects with
      | taken _ hcallee hargs =>
        exact ⟨_, _, resolve_of_select hj hafter, hargs, hcallee ▸ .refl _⟩
      | fallback =>
        have huser' : (i.machine.withDefault m f
            (i.machine.registry.defaultKey m fb)).registry.userDefault? m.traitName m.method =
              some f := by
          cases i.machine.registry.defaultKey m fb <;> exact huser
        exact ⟨_, _, resolve_of_userDefault hj hafter huser', rfl, .function _ _ _⟩

namespace Measuring

def measure : ClassMethod := { traitName := "Measure", method := "measure", arity := 2 }

def measuring : Func :=
  ⟨"measure", [⟨"x", none, none, false⟩, ⟨"unit", none, none, false⟩], none, [], [],
    ⟨.lit (.str "default"), {}⟩, {}⟩

/-- A trait with a default and without instances. -/
def start : Interpreter where
  setting := {}
  machine := { registry := { userDefaults := [("Measure", [("measure", measuring)])] } }

def filled : Value := .function 0 (Registry.defaultClosure "Measure" measuring)

/-- The first instance has one parameter where a call has two arguments. -/
def after : Interpreter :=
  { start with
    machine :=
      { start.machine with
        registry := start.machine.registry.addMethod "Measure" (.single "Int") "measure" filled
        nextIdent := 1 } }

end Measuring

open Measuring in
/-- The default is taken first; then it is found by its score. -/
theorem resolve_again_measuring :
    start.resolve measure [.int 3, .str "cm"] { name := "measure" } =
      (some (.ok { callee := filled, args := [.int 3, .str "cm"] }), after) ∧
    ∃ r' j', after.resolve measure [.int 3, .str "cm"] { name := "measure" } =
        (some (.ok r'), j') ∧
      r'.args = [.int 3, .str "cm"] ∧ filled.SameDefinition r'.callee := by
  have hfirst : start.resolve measure [.int 3, .str "cm"] { name := "measure" } =
      (some (.ok { callee := filled, args := [.int 3, .str "cm"] }), after) := by
    with_unfolding_all rfl
  exact ⟨hfirst, resolve_again (fun _ _ => rfl) hfirst⟩

end Interpreter

end TraitLang
