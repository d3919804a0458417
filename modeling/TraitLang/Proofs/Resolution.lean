import TraitLang.Proofs.Currying
import TraitLang.Proofs.DictionaryPassing
import TraitLang.Proofs.Effects

/-!
What a trait method is resolved to. There are six routes: a dictionary in front of the arguments,
the evidence in force, the expected type, the types of the arguments, and two kinds of defaults.
Main statement: whichever is taken, nothing but dictionaries in front of the arguments is used up,
the callee belongs to exactly this trait and method, and a callee that was weighed against the
arguments does not get more of them than it takes.
-/
namespace TraitLang

/-- How a trait method was resolved. -/
inductive Route where
  | dictionary | evidence | context | argument | userDefault | builtinDefault
deriving DecidableEq, Repr

/-- The callee was weighed against the arguments. -/
def Route.isWeighed : Route → Bool
  | dictionary | context | argument => true
  | evidence | userDefault | builtinDefault => false

namespace Machine

/-- A machine after a default became the method of an instance, if there is one to take it. -/
def withDefault (mach : Machine) (m : ClassMethod) (f : Func) (key : Option (TypeKey × Bool)) :
    Machine :=
  { mach with
    nextIdent := mach.nextIdent + 1
    registry := match key with
      | some (key, _) => mach.registry.addMethod m.traitName key m.method
        (.function mach.nextIdent (Registry.defaultClosure m.traitName f))
      | none => mach.registry }

/-- Resolving method `m` on this machine takes a route to a resolution and leaves a machine. -/
inductive Resolves (mach : Machine) (m : ClassMethod) (args : List Value)
    (site : CallSite) : Route → Resolution → Machine → Prop where
  | dictionary {callee : Value} {rest : List Value} :
      mach.registry.byDictionary m args = (some callee, rest) →
      Resolves mach m args site .dictionary { callee, args := rest } mach
  | evidence {callee : Value} {rest : List Value} :
      mach.registry.byDictionary m args = (none, rest) → mach.witnessCandidate? m = some callee →
      Resolves mach m args site .evidence { callee, args := rest } mach
  | context {rest : List Value} {ty : Ty} {source : ContextSource} {found : Candidate}
      {r : Resolution} :
      mach.registry.byDictionary m args = (none, rest) → mach.witnessCandidate? m = none →
      mach.expectedType m site = some (ty, source) →
      mach.registry.contextCandidate? m ty (plainArgs rest) = some found →
      mach.weigh m rest site = .inl r →
      r = { callee := found.callee, args := rest, witness := some (m.traitName, ty) } →
      Resolves mach m args site .context r mach
  | argument {rest : List Value} {contextName : Option String} {found : Candidate}
      {r : Resolution} :
      mach.registry.byDictionary m args = (none, rest) → mach.witnessCandidate? m = none →
      mach.registry.argumentCandidate? m (m.dispatchTypes (plainArgs rest)) (plainArgs rest)
        contextName = some found →
      mach.weigh m rest site = .inl r →
      r = { callee := found.callee, args := rest } →
      Resolves mach m args site .argument r mach
  | userDefault {fb : Fallback} {f : Func} :
      mach.select m args site = .inr fb →
      mach.registry.userDefault? m.traitName m.method = some f →
      Resolves mach m args site .userDefault
        { callee := .function mach.nextIdent (Registry.defaultClosure m.traitName f)
          args := fb.args
          witness := fb.witness m (mach.registry.defaultKey m fb) }
        (mach.withDefault m f (mach.registry.defaultKey m fb))
  | builtinDefault {fb : Fallback} {callee : Value} :
      mach.select m args site = .inr fb →
      mach.registry.userDefault? m.traitName m.method = none →
      mach.registry.builtinDefault? m.traitName m.method = some callee →
      Resolves mach m args site .builtinDefault
        { callee, args := fb.args, witness := fb.witness m (mach.registry.defaultKey m fb) } mach

section Cases

variable {mach : Machine} {s : Setting} {m : ClassMethod} {args : List Value} {site : CallSite}

theorem weigh_cases {r : Resolution} (h : mach.weigh m args site = .inl r) :
    (∃ ty source found, mach.expectedType m site = some (ty, source) ∧
      mach.registry.contextCandidate? m ty (plainArgs args) = some found ∧
      r = { callee := found.callee, args, witness := some (m.traitName, ty) }) ∨
    ∃ contextName found,
      mach.registry.argumentCandidate? m (m.dispatchTypes (plainArgs args)) (plainArgs args)
        contextName = some found ∧
      r = { callee := found.callee, args } := by
  unfold weigh at h
  dsimp only at h
  split at h
  · rename_i found _ hcontext
    obtain ⟨⟨ty, source⟩, hexpected, hfound⟩ := Option.bind_eq_some_iff.1 hcontext
    rw [hexpected] at h
    exact .inl ⟨ty, source, found, hexpected, hfound, (Sum.inl.inj h).symm⟩
  · rename_i found _ hargument
    split at hargument
    · cases hargument
    · exact .inr ⟨_, found, hargument, (Sum.inl.inj h).symm⟩
  · cases h

theorem fallback_of_weigh {fb : Fallback} (h : mach.weigh m args site = .inr fb) :
    fb = { args, types := m.dispatchTypes (plainArgs args)
           context := mach.expectedType m site, hasArgs := !(plainArgs args).isEmpty } := by
  unfold weigh at h
  dsimp only at h
  split at h
  · cases h
  · cases h
  · exact (Sum.inr.inj h).symm

theorem weigh_of_select {fb : Fallback} (h : mach.select m args site = .inr fb) :
    ∃ rest, mach.registry.byDictionary m args = (none, rest) ∧
      mach.weigh m rest site = .inr fb := by
  unfold select at h
  split at h
  · cases h
  · rename_i rest hdict
    split at h
    · cases h
    · exact ⟨rest, hdict, h⟩

theorem args_of_select {fb : Fallback} (h : mach.select m args site = .inr fb) :
    mach.registry.byDictionary m args = (none, fb.args) := by
  obtain ⟨rest, hdict, hweigh⟩ := weigh_of_select h
  rw [hdict, fallback_of_weigh hweigh]

theorem context_of_select {fb : Fallback} (h : mach.select m args site = .inr fb) :
    fb.context = mach.expectedType m site := by
  obtain ⟨rest, -, hweigh⟩ := weigh_of_select h
  rw [fallback_of_weigh hweigh]

theorem resolves_of_select {r : Resolution} (h : mach.select m args site = .inl r) :
    ∃ route, mach.Resolves m args site route r mach := by
  unfold select at h
  split at h
  · rename_i hdict
    cases h
    exact ⟨.dictionary, .dictionary hdict⟩
  · rename_i rest hdict
    split at h
    · rename_i hevidence
      cases h
      exact ⟨.evidence, .evidence hdict hevidence⟩
    · rename_i hevidence
      obtain ⟨ty, source, found, hexpected, hfound, hr⟩ | ⟨_, found, hfound, hr⟩ := weigh_cases h
      · exact ⟨.context, .context hdict hevidence hexpected hfound h hr⟩
      · exact ⟨.argument, .argument hdict hevidence hfound h hr⟩

end Cases

end Machine

namespace Run

theorem resolveDefault_cases {m : ClassMethod} {args : List Value} {site : CallSite} {s : Setting}
    {mach : Machine} {fb : Fallback} (h : mach.select m args site = .inr fb) :
    (resolveDefault m fb s mach).Ends
      (fun r mach' => ∃ route, mach.Resolves m args site route r mach')
      (fun mach' => mach' = mach) (fun mach' => mach' = mach) := by
  rw [resolveDefault, machine_bind]
  cases huser : mach.registry.userDefault? m.traitName m.method with
  | some f =>
    have resolves := Machine.Resolves.userDefault h huser
    simp only [fresh_bind]
    -- whether there is an instance to take the default decides what is left to run
    cases hkey : mach.registry.defaultKey m fb with
    | none => rw [hkey] at resolves; exact ⟨.userDefault, resolves⟩
    | some key => rw [hkey] at resolves; exact ⟨.userDefault, resolves⟩
  | none =>
    cases hbuiltin : mach.registry.builtinDefault? m.traitName m.method with
    | some callee => exact ⟨.builtinDefault, .builtinDefault h huser hbuiltin⟩
    | none => exact rfl

/-- What resolving does, route by route; if it fails it has done nothing. -/
theorem resolve_cases (m : ClassMethod) (args : List Value) (site : CallSite) (s : Setting)
    (mach : Machine) :
    (resolve m args site s mach).Ends
      (fun r mach' => ∃ route, mach.Resolves m args site route r mach')
      (fun mach' => mach' = mach) (fun mach' => mach' = mach) := by
  have hreach : (reach (.dispatch m) s mach).Ends (fun _ mach' => mach' = mach)
      (fun mach' => mach' = mach) (fun mach' => mach' = mach) := by
    unfold reach
    split <;> rfl
  refine Ends.bind hreach (fun _ mach' hmach => ?_) fun _ => id
  rw [hmach, machine_bind]
  cases hselect : mach.select m args site with
  | inl r => exact Machine.resolves_of_select hselect
  | inr fb => exact resolveDefault_cases hselect

end Run

namespace Registry

variable {r : Registry} {m : ClassMethod} {args rest : List Value}

/-- Nothing but dictionaries was stripped from the front of the arguments, and what was found was
found in one of them. -/
def Stripped (r : Registry) (m : ClassMethod) (args : List Value) (found? : Option Value)
    (rest : List Value) : Prop :=
  ∃ dropped : List Dictionary, args = dropped.map Value.dictionary ++ rest ∧
    ∀ v, found? = some v →
      (∃ d ∈ dropped, r.FoundIn m.traitName m.method d v) ∧ r.acceptsArgs v rest = true

theorem stripped_nothing (r : Registry) (m : ClassMethod) (args : List Value) :
    r.Stripped m args none args :=
  ⟨[], rfl, fun _ hv => by cases hv⟩

theorem Stripped.cons {found? : Option Value} (h : r.Stripped m args found? rest)
    (d : Dictionary) : r.Stripped m (.dictionary d :: args) found? rest := by
  obtain ⟨dropped, rfl, hfound⟩ := h
  refine ⟨d :: dropped, rfl, fun v hv => ?_⟩
  obtain ⟨⟨d', hd', hin⟩, haccepts⟩ := hfound v hv
  exact ⟨⟨d', List.mem_cons_of_mem d hd', hin⟩, haccepts⟩

theorem Stripped.plainArgs_eq {found? : Option Value} (h : r.Stripped m args found? rest) :
    plainArgs rest = plainArgs args := by
  obtain ⟨dropped, rfl, -⟩ := h
  induction dropped with
  | nil => rfl
  | cons d dropped ih => exact ih

theorem stripped_of_byDictionary {found? : Option Value}
    (h : r.byDictionary m args = (found?, rest)) : r.Stripped m args found? rest := by
  fun_induction byDictionary r m args with
  | case1 d args hplaceholder ih => exact (ih h).cons d
  | case2 d args hplaceholder hnone =>
    cases h
    exact stripped_nothing r m _
  | case3 d args hplaceholder v hsome haccepts =>
    cases h
    have hfound := foundIn_of_methodIn? r _ _ d hsome
    refine ⟨[d], rfl, fun w hw => ?_⟩
    cases hw
    exact ⟨⟨d, List.mem_singleton_self d, hfound⟩, haccepts⟩
  | case4 d args hplaceholder v hsome haccepts ih => exact (ih h).cons d
  | case5 args hargs =>
    cases h
    exact stripped_nothing r m _

/-- A candidate is a method of an instance that takes the arguments. -/
structure Offers (r : Registry) (m : ClassMethod) (args : List Value) (found : Candidate) :
    Prop where
  lookup : r.lookup? m.traitName found.key m.method = some found.callee
  accepts : r.acceptsArgs found.callee args = true

theorem offers_of_firstAccepting? {exact : Bool} {keys : List TypeKey} {found : Candidate}
    (h : r.firstAccepting? m args exact keys = some found) : r.Offers m args found := by
  obtain ⟨key, -, hkey⟩ := List.exists_of_findSome?_eq_some h
  obtain ⟨callee, hlookup, hcallee⟩ := Option.bind_eq_some_iff.1 hkey
  split at hcallee
  · cases hcallee
    exact ⟨hlookup, ‹_›⟩
  · cases hcallee

theorem offers_of_contextCandidate? {expected : Ty} {found : Candidate}
    (h : r.contextCandidate? m expected args = some found) : r.Offers m args found := by
  obtain ⟨name, -, hfirst⟩ := Option.bind_eq_some_iff.1 h
  exact offers_of_firstAccepting? hfirst

theorem offers_of_argumentCandidate? {types : List String} {contextName : Option String}
    {found : Candidate} (h : r.argumentCandidate? m types args contextName = some found) :
    r.Offers m args found := by
  unfold argumentCandidate? at h
  dsimp only at h
  split at h
  · rename_i found? hexact
    cases h
    split at hexact
    · exact offers_of_firstAccepting? hexact
    · cases hexact
  · exact offers_of_firstAccepting? h

theorem exists_key_of_lookupWithAlias? {traitName method : String} {key : TypeKey} {v : Value}
    (h : r.lookupWithAlias? traitName key method = some v) :
    ∃ key, r.lookup? traitName key method = some v := by
  unfold lookupWithAlias? at h
  split at h
  · cases h
    exact ⟨key, ‹_›⟩
  · split at h
    · obtain ⟨target, -, htarget⟩ := Option.bind_eq_some_iff.1 h
      exact ⟨.single target, htarget⟩
    · cases h

/-- What a route may resolve a method to, given the dictionaries that were used up. -/
def Justifies (r : Registry) (m : ClassMethod) (dropped : List Dictionary) : Route → Value → Prop
  | .dictionary, callee => ∃ d ∈ dropped, r.FoundIn m.traitName m.method d callee
  | .evidence, callee | .context, callee | .argument, callee =>
    ∃ key, r.lookup? m.traitName key m.method = some callee
  | .userDefault, callee => ∃ f id, r.userDefault? m.traitName m.method = some f ∧
      callee = .function id { func := f, scope := Store.global, owner := some m.traitName }
  | .builtinDefault, callee => r.builtinDefault? m.traitName m.method = some callee

end Registry

/-- A function or builtin does not reject the arguments for being too many: it misses them all,
waits for more, or goes ahead. -/
def Value.NotTooMany (args : List Value) : Value → Prop
  | .function id c => ∀ apply site,
      Run.bindArguments apply id c args site =
        Run.fail (.missingArguments c.func.name c.func.required) ∨
      Run.bindArguments apply id c args site = (do
        return .short (← Run.partialApp (.function id c) args
          (c.func.required - (plainArgs args).length))) ∨
      Run.bindArguments apply id c args site = (do
        return .ready (← Run.bindScope apply c args site))
  | .builtin b => ∀ apply,
      (∃ required, Run.callBuiltin apply b args = Run.fail (.missingArguments b.name required)) ∨
      (∃ remaining,
        Run.callBuiltin apply b args = Run.partialApp (.builtin b) (plainArgs args) remaining) ∨
      Run.callBuiltin apply b args = Run.invoke apply b args ∨
      ∃ filled, Run.callBuiltin apply b args = Run.invoke apply b (plainArgs args ++ filled)
  | _ => True

section NotTooMany

variable {r : Registry} {args : List Value}

theorem Builtin.arity_eq_map (b : Builtin) :
    b.arity = (b.signature.bind Ty.fnParams).map List.length := by
  unfold arity
  cases b.signature <;> rfl

theorem Registry.notTooMany_of_acceptsArgs {callee : Value}
    (h : r.acceptsArgs callee args = true) : callee.NotTooMany args := by
  cases callee with
  | function id c =>
    intro apply site
    have hcount :
        (!c.func.isVariadic && c.func.params.length < (plainArgs args).length) = false := by
      simp only [acceptsArgs, Bool.and_eq_true] at h
      cases hv : c.func.isVariadic <;> simp_all
    unfold Run.bindArguments
    simp only [hcount]
    split
    · split
      · exact .inl rfl
      · exact .inr (.inl rfl)
    · exact .inr (.inr rfl)
  | builtin b =>
    intro apply
    unfold Run.callBuiltin
    cases harity : b.arity with
    | none => exact .inr (.inr (.inl rfl))
    | some arity =>
      have hcount : ¬ arity < (plainArgs args).length := by
        rw [b.arity_eq_map] at harity
        obtain ⟨params, hparams, rfl⟩ := Option.map_eq_some_iff.1 harity
        simp only [acceptsArgs, hparams, Bool.and_eq_true, decide_eq_true_eq] at h
        omega
      simp only [hcount, if_false]
      split
      · exact .inl ⟨_, rfl⟩
      · split
        · exact .inr (.inl ⟨_, rfl⟩)
        · exact .inr (.inr (.inr ⟨_, rfl⟩))
  | _ => trivial

/-- Dictionaries in front do not count when a candidate is weighed, nor when it is applied. -/
theorem Registry.Offers.accepts_all {m : ClassMethod} {found : Candidate}
    (h : r.Offers m (plainArgs args) found) : r.acceptsArgs found.callee args = true := by
  have haccepts := h.accepts
  simp only [acceptsArgs, plainArgs_plainArgs] at haccepts ⊢
  exact haccepts

end NotTooMany

namespace Machine.Resolves

variable {mach mach' : Machine} {s : Setting} {m : ClassMethod} {args : List Value}
  {site : CallSite} {route : Route} {r : Resolution}

theorem byDictionary (h : mach.Resolves m args site route r mach') :
    ∃ found?, mach.registry.byDictionary m args = (found?, r.args) ∧
      (route = .dictionary → found? = some r.callee) := by
  cases h with
  | dictionary hdict => exact ⟨_, hdict, fun _ => rfl⟩
  | evidence hdict => exact ⟨_, hdict, by simp⟩
  | context hdict _ _ _ _ hr => exact ⟨_, by rw [hdict, hr], by simp⟩
  | argument hdict _ _ _ hr => exact ⟨_, by rw [hdict, hr], by simp⟩
  | userDefault hselect => exact ⟨_, args_of_select hselect, by simp⟩
  | builtinDefault hselect => exact ⟨_, args_of_select hselect, by simp⟩

/-- The callee is what the route says, and weighed against what is left of the arguments. -/
theorem justified (h : mach.Resolves m args site route r mach') :
    ∃ dropped : List Dictionary, args = dropped.map Value.dictionary ++ r.args ∧
      mach.registry.Justifies m dropped route r.callee ∧
      (route.isWeighed = true → mach.registry.acceptsArgs r.callee r.args = true) := by
  obtain ⟨found?, hdict, hdecides⟩ := h.byDictionary
  obtain ⟨dropped, hargs, hfound⟩ := Registry.stripped_of_byDictionary hdict
  refine ⟨dropped, hargs, ?_⟩
  cases h with
  | dictionary =>
    obtain ⟨hin, haccepts⟩ := hfound _ (hdecides rfl)
    exact ⟨hin, fun _ => haccepts⟩
  | evidence _ hevidence =>
    refine ⟨?_, by simp [Route.isWeighed]⟩
    unfold witnessCandidate? at hevidence
    split at hevidence
    · obtain ⟨ty, -, hlookup⟩ := Option.bind_eq_some_iff.1 hevidence
      exact Registry.exists_key_of_lookupWithAlias? hlookup
    · cases hevidence
  | context _ _ _ hcandidate _ hr =>
    have hoffers := Registry.offers_of_contextCandidate? hcandidate
    subst hr
    exact ⟨⟨_, hoffers.lookup⟩, fun _ => hoffers.accepts_all⟩
  | argument _ _ hcandidate _ hr =>
    have hoffers := Registry.offers_of_argumentCandidate? hcandidate
    subst hr
    exact ⟨⟨_, hoffers.lookup⟩, fun _ => hoffers.accepts_all⟩
  | userDefault _ huser => exact ⟨⟨_, _, huser, rfl⟩, by simp [Route.isWeighed]⟩
  | builtinDefault _ _ hbuiltin => exact ⟨hbuiltin, by simp [Route.isWeighed]⟩

end Machine.Resolves

/-- A method that is resolved was found for exactly this trait and method, only dictionaries in
front of the arguments were used up for it, and a callee that a dictionary, the expected type or
the arguments picked is not handed more arguments than it takes. -/
theorem resolve_sound {m : ClassMethod} {args : List Value} {site : CallSite} {s : Setting}
    {mach mach' : Machine} {r : Resolution} (h : Run.resolve m args site s mach = .done r mach') :
    ∃ route, mach.Resolves m args site route r mach' ∧
      (∃ dropped : List Dictionary, args = dropped.map Value.dictionary ++ r.args ∧
        mach.registry.Justifies m dropped route r.callee) ∧
      (route.isWeighed = true → r.callee.NotTooMany r.args) := by
  have hcases := Run.resolve_cases m args site s mach
  rw [h] at hcases
  obtain ⟨route, hroute⟩ := hcases
  obtain ⟨dropped, hargs, hjustified, haccepts⟩ := hroute.justified
  exact ⟨route, hroute, ⟨dropped, hargs, hjustified⟩, fun hweighed =>
    Registry.notTooMany_of_acceptsArgs (haccepts hweighed)⟩

namespace Combining

def combine : ClassMethod := { traitName := "Combine", method := "combine", arity := 2 }

/-- The method for integers, of two parameters. -/
def plus : Value :=
  .builtin
    { id := 0, name := "plus", native := .host "plus"
      signature := some (.fn [.con "Int", .con "Int"] (.con "Int")), defaults := [] }

def start : Machine where
  registry := { instances := [("Combine", [(.single "Int", [("combine", plus)])])] }

/-- Of another trait. -/
def other : Value := .dictionary ⟨2, "Other", none, [.unit], []⟩

def args : List Value := [.dictionary (.placeholder 1 "Combine"), other, .int 1, .int 2]

end Combining

open Combining in
/-- A placeholder is used up, the dictionary of another trait is not. -/
theorem resolve_sound_combining :
    ∃ r, Run.resolve combine args { name := "combine" } {} start = .done r start ∧
      r.callee = plus ∧ r.args = [other, .int 1, .int 2] ∧
      ∃ route, start.Resolves combine args { name := "combine" } route r start ∧
        (∃ dropped : List Dictionary, args = dropped.map Value.dictionary ++ r.args ∧
          start.registry.Justifies combine dropped route r.callee) ∧
        (route.isWeighed = true → r.callee.NotTooMany r.args) := by
  have h : Run.resolve combine args { name := "combine" } {} start =
      .done { callee := plus, args := [other, .int 1, .int 2] } start := by
    with_unfolding_all rfl
  exact ⟨_, h, rfl, rfl, resolve_sound h⟩

end TraitLang
