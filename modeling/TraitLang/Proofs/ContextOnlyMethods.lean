import TraitLang.Proofs.LeftToDispatch
import TraitLang.Proofs.RepeatedResolution

/-!
Methods whose type shows up in the result only: `pure` and `lift` of `Applicative`. Main statement:
they are never dispatched on their arguments. For two argument lists that the registered methods do
not tell apart such a method takes the same route to the same method of an instance or to the same
default, or cannot be resolved for either.
-/
namespace TraitLang

namespace Registry

variable {r : Registry} {m : ClassMethod} {args args' : List Value}

/-- What is registered for the method takes both argument lists or neither. -/
def AcceptsAlike (r : Registry) (m : ClassMethod) (args args' : List Value) : Prop :=
  ∀ key v, r.lookup? m.traitName key m.method = some v →
    r.acceptsArgs v args' = r.acceptsArgs v args

theorem AcceptsAlike.offer?_eq (h : r.AcceptsAlike m args args') (exact : Bool) (key : TypeKey) :
    r.offer? m args' exact key = r.offer? m args exact key := by
  unfold offer?
  cases hlookup : r.lookup? m.traitName key m.method with
  | none => rfl
  | some v => simp [h key v hlookup]

theorem AcceptsAlike.contextCandidate?_eq (h : r.AcceptsAlike m args args') (expected : Ty) :
    r.contextCandidate? m expected args' = r.contextCandidate? m expected args := by
  have hoffer : r.offer? m args' true = r.offer? m args true := funext (h.offer?_eq true)
  simp only [contextCandidate?, firstAccepting?_eq, hoffer]

/-- The evidence that comes with a default depends on the expected type only. -/
theorem witness_contextOnly (honly : m.isContextOnly = true) {fb fb' : Fallback}
    (hcontext : fb'.context = fb.context) :
    fb'.witness m (r.defaultKey m fb') = fb.witness m (r.defaultKey m fb) := by
  unfold defaultKey
  simp only [honly, Bool.true_or, if_true, hcontext]
  cases fb.context.bind fun c => c.1.constructorName with
  | some name => simp [Fallback.witness, hcontext]
  | none => cases fb.types.isEmpty <;> cases fb'.types.isEmpty <;> rfl

end Registry

theorem ClassMethod.choose_contextOnly {m : ClassMethod} (hshow : m.traitName ≠ "Show")
    (honly : m.isContextOnly = true) (hasArgs : Bool) (types : List String)
    (context : Option (Ty × ContextSource)) (byContext byArgument : Option Candidate) :
    m.choose hasArgs types context byContext byArgument =
      if byContext.isSome then .context else .neither := by
  unfold choose
  rw [if_neg (by simp [hshow]), if_pos honly]

namespace Machine

variable {mach : Machine} {s : Setting} {m : ClassMethod} {args args' : List Value}
  {site : CallSite}

theorem weigh_of_contextCandidate? (hshow : m.traitName ≠ "Show") (honly : m.isContextOnly = true)
    {ty : Ty} {source : ContextSource} {found : Candidate}
    (hexpected : mach.expectedType m site = some (ty, source))
    (hfound : mach.registry.contextCandidate? m ty (plainArgs args) = some found) :
    mach.weigh m args site =
      .inl { callee := found.callee, args, witness := some (m.traitName, ty) } := by
  simp [weigh, ClassMethod.choose_contextOnly hshow honly, hexpected, hfound]

theorem contextOffer?_alike (halike : mach.registry.AcceptsAlike m args args')
    (hargs : plainArgs args = args) (hargs' : plainArgs args' = args')
    (site : CallSite) :
    mach.contextOffer? m args' site = mach.contextOffer? m args site := by
  unfold contextOffer?
  rw [hargs, hargs']
  congr 1
  funext expected
  exact halike.contextCandidate?_eq expected.1

/-- For both argument lists the same method is found by the same route, which is not by the types of
the arguments, or there is nothing but a default for the same expected type. -/
inductive SelectsAlike (mach : Machine) (s : Setting) (m : ClassMethod) (args args' : List Value)
    (site : CallSite) : Prop where
  | found {route : Route} {callee : Value} {witness : Option (String × Ty)} :
      route = .evidence ∨ route = .context →
      mach.select m args site = .inl { callee, args, witness } →
      mach.select m args' site = .inl { callee, args := args', witness } →
      mach.Resolves m args site route { callee, args, witness } mach →
      mach.Resolves m args' site route { callee, args := args', witness } mach →
      SelectsAlike mach s m args args' site
  | fallback {fb fb' : Fallback} : mach.select m args site = .inr fb →
      mach.select m args' site = .inr fb' → fb.args = args → fb'.args = args' →
      fb'.context = fb.context → SelectsAlike mach s m args args' site

theorem select_contextOnly (hshow : m.traitName ≠ "Show") (honly : m.isContextOnly = true)
    (hargs : plainArgs args = args) (hargs' : plainArgs args' = args')
    (halike : mach.registry.AcceptsAlike m args args') (s : Setting) (site : CallSite) :
    mach.SelectsAlike s m args args' site := by
  have hdict := Registry.byDictionary_of_plain mach.registry m hargs
  have hdict' := Registry.byDictionary_of_plain mach.registry m hargs'
  cases hevidence : mach.witnessCandidate? m with
  | some callee =>
    exact .found (.inl rfl) (select_of_evidence hdict hevidence site)
      (select_of_evidence hdict' hevidence site) (.evidence hdict hevidence)
      (.evidence hdict' hevidence)
  | none =>
    have hselect : mach.select m args site = mach.weigh m args site := by
      simp only [select, hdict, hevidence]
    have hselect' : mach.select m args' site = mach.weigh m args' site := by
      simp only [select, hdict', hevidence]
    have hsame := contextOffer?_alike halike hargs hargs' site
    cases hoffer : mach.contextOffer? m args site with
    | some found =>
      rw [hoffer] at hsame
      obtain ⟨⟨ty, source⟩, hexpected, hfound⟩ := Option.bind_eq_some_iff.1 hoffer
      obtain ⟨_, hexpected', hfound'⟩ := Option.bind_eq_some_iff.1 hsame
      obtain rfl := Option.some.inj (hexpected.symm.trans hexpected')
      have hweigh := weigh_of_contextCandidate? hshow honly hexpected hfound
      have hweigh' := weigh_of_contextCandidate? hshow honly hexpected hfound'
      exact .found (.inr rfl) (hselect.trans hweigh) (hselect'.trans hweigh')
        (.context hdict hevidence hexpected hfound hweigh rfl)
        (.context hdict' hevidence hexpected hfound' hweigh' rfl)
    | none =>
      rw [hoffer] at hsame
      have hnone : mach.preferred? m args site = none := by
        rw [preferred?, ClassMethod.preferred?_contextOnly hshow honly, hoffer]
      have hnone' : mach.preferred? m args' site = none := by
        rw [preferred?, ClassMethod.preferred?_contextOnly hshow honly, hsame]
      exact .fallback (hselect.trans (weigh_of_not_preferred hnone))
        (hselect'.trans (weigh_of_not_preferred hnone')) rfl rfl rfl

end Machine

namespace Interpreter

variable {i : Interpreter} {m : ClassMethod} {args args' : List Value}

/-- The method is resolved by a route. -/
structure Takes (i : Interpreter) (m : ClassMethod) (args : List Value) (site : CallSite)
    (route : Route) (r : Resolution) : Prop where
  result : (i.resolve m args site).1 = some (.ok r)
  resolves : i.machine.Resolves m args site route r (i.resolve m args site).2.machine

theorem takes_of_eq {site : CallSite} {route : Route} {r : Resolution} {j : Interpreter}
    (h : i.resolve m args site = (some (.ok r), j))
    (hroute : i.machine.Resolves m args site route r j.machine) :
    i.Takes m args site route r :=
  ⟨by rw [h], by rw [h]; exact hroute⟩

/-- `pure` and `lift` of `Applicative` are not dispatched on their arguments. For two lists of plain
arguments that whatever is registered for the method takes or rejects alike, it is resolved by the
same route to the same method of an instance or the same default, with the same evidence, or it
fails for both: what types the arguments have, and which instances there are for these, does not
count. -/
theorem resolve_contextOnly (hi : i.Unwatched) (htrait : m.traitName = "Applicative")
    (hmethod : m.method = "pure" ∨ m.method = "lift") (hargs : plainArgs args = args)
    (hargs' : plainArgs args' = args') (halike : i.machine.registry.AcceptsAlike m args args')
    (site : CallSite) :
    (∃ route callee witness, route ≠ .dictionary ∧ route ≠ .argument ∧
      i.machine.registry.Justifies m [] route callee ∧
      i.Takes m args site route { callee, args, witness } ∧
      i.Takes m args' site route { callee, args := args', witness }) ∨
    ∃ f f', i.resolve m args site = (some (.error f), i) ∧
      i.resolve m args' site = (some (.error f'), i) ∧
      f.kind = .dispatch ∧ f'.kind = .dispatch := by
  have hshow : m.traitName ≠ "Show" := by simp [htrait]
  have honly : m.isContextOnly = true := by
    rcases hmethod with hmethod | hmethod <;> simp [ClassMethod.isContextOnly, htrait, hmethod]
  cases Machine.select_contextOnly hshow honly hargs hargs' halike i.setting site with
  | @found route callee witness hroute hselect hselect' hresolves hresolves' =>
    obtain ⟨dropped, -, hjustified, -⟩ := hresolves.justified
    have htakes := takes_of_eq (resolve_of_select hi hselect) hresolves
    have htakes' := takes_of_eq (resolve_of_select hi hselect') hresolves'
    rcases hroute with rfl | rfl
    · exact .inl ⟨.evidence, callee, witness, by simp, by simp, hjustified, htakes, htakes'⟩
    · exact .inl ⟨.context, callee, witness, by simp, by simp, hjustified, htakes, htakes'⟩
  | @fallback fb fb' hselect hselect' hfb hfb' hcontext =>
    have hwitness : fb'.witness m (i.machine.registry.defaultKey m fb') =
        fb.witness m (i.machine.registry.defaultKey m fb) :=
      Registry.witness_contextOnly honly hcontext
    subst hfb hfb'
    cases huser : i.machine.registry.userDefault? m.traitName m.method with
    | some f =>
      have htakes := takes_of_eq (resolve_of_userDefault hi hselect huser)
        (.userDefault hselect huser)
      have htakes' := takes_of_eq (resolve_of_userDefault hi hselect' huser)
        (.userDefault hselect' huser)
      rw [hwitness] at htakes'
      exact .inl ⟨.userDefault, _, _, by simp, by simp, ⟨f, _, huser, rfl⟩, htakes, htakes'⟩
    | none =>
      cases hbuiltin : i.machine.registry.builtinDefault? m.traitName m.method with
      | some callee =>
        have htakes := takes_of_eq (resolve_of_builtinDefault hi hselect huser hbuiltin)
          (.builtinDefault hselect huser hbuiltin)
        have htakes' := takes_of_eq (resolve_of_builtinDefault hi hselect' huser hbuiltin)
          (.builtinDefault hselect' huser hbuiltin)
        rw [hwitness] at htakes'
        exact .inl ⟨.builtinDefault, callee, _, by simp, by simp, hbuiltin, htakes, htakes'⟩
      | none =>
        obtain ⟨f, hfails, hkind⟩ := resolve_of_no_default hi hselect huser hbuiltin
        obtain ⟨f', hfails', hkind'⟩ := resolve_of_no_default hi hselect' huser hbuiltin
        exact .inr ⟨f, f', hfails, hfails', hkind, hkind'⟩

namespace Wrapping

def pure : ClassMethod := { traitName := "Applicative", method := "pure", arity := 1 }

/-- Takes anything. -/
def wrapping (type : String) : Value :=
  .builtin
    { id := 0, name := type, native := .host type
      signature := some (.fn [.var "a"] (.app (.con type) [.var "a"])), defaults := [] }

/-- There are instances for the types of the arguments too. -/
def start : Interpreter where
  setting := {}
  machine :=
    { registry :=
        { instances := [("Applicative", [(.single "Int", [("pure", wrapping "Int")]),
            (.single "List", [("pure", wrapping "List")]),
            (.single "Option", [("pure", wrapping "Option")])])]
          builtinDefaults := [("Applicative", [("pure", wrapping "Any")])] } }

/-- An option of integers is expected. -/
def site : CallSite := { name := "pure", annotation := some (.app (.con "Option") [.con "Int"]) }

theorem acceptsAlike : start.machine.registry.AcceptsAlike pure [.int 1] [.list []] := by
  intro key v h
  obtain ⟨methods, hmethods, hmethod⟩ := Registry.mem_of_lookup? h
  have hwrapping : ∀ e ∈ start.machine.registry.table "Applicative", ∀ b ∈ e.2,
      ∃ type, b.2 = wrapping type := by
    simp [start, Registry.table]
  obtain ⟨type, rfl⟩ := hwrapping _ hmethods _ hmethod
  rfl

end Wrapping

open Wrapping in
/-- An integer and a list are wrapped as the annotation says, and without one by the default. -/
theorem resolve_contextOnly_wrapping :
    start.machine.registry.AcceptsAlike pure [.int 1] [.list []] ∧
    (start.resolve pure [.int 1] site).1 = some (.ok
      { callee := wrapping "Option", args := [.int 1]
        witness := some ("Applicative", .app (.con "Option") [.con "Int"]) }) ∧
    (start.resolve pure [.int 1] { name := "pure" }).1 = some (.ok
      { callee := wrapping "Any", args := [.int 1] }) ∧
    ∀ site, (∃ route callee witness, route ≠ .dictionary ∧ route ≠ .argument ∧
        start.machine.registry.Justifies pure [] route callee ∧
        start.Takes pure [.int 1] site route { callee, args := [.int 1], witness } ∧
        start.Takes pure [.list []] site route { callee, args := [.list []], witness }) ∨
      ∃ f f', start.resolve pure [.int 1] site = (some (.error f), start) ∧
        start.resolve pure [.list []] site = (some (.error f'), start) ∧
        f.kind = .dispatch ∧ f'.kind = .dispatch := by
  refine ⟨acceptsAlike, by with_unfolding_all rfl, by with_unfolding_all rfl, fun site => ?_⟩
  exact resolve_contextOnly (fun _ _ => rfl) rfl (.inl rfl) rfl rfl acceptsAlike site

end Interpreter

end TraitLang
