import TraitLang.Apply
import TraitLang.Proofs.ValueEquality

/-!
Dispatch goes by type names. Main statement: equal arguments, given that what has one identity is
one thing, have the same type names, so a trait method is resolved alike for them.
-/
namespace TraitLang

/-- The type name of what is compared by this scalar; a foreign value has one of its own. -/
def Scalar.typeName? : Scalar → Option String
  | unit => some "Unit"
  | int _ => some "Int"
  | float _ => some "Float"
  | bool _ => some "Bool"
  | char _ => some "Char"
  | str _ => some "String"
  | range _ _ => some "Range"
  | typeRep _ => some "Type"
  | identity .host _ => none
  | identity .error _ => some "Error"
  | identity .dictionary _ => some "Dictionary"
  | operator _ | identity _ _ => some "Function"

namespace Value

/-- Foreign values that share a handle share their type. -/
def SharesType (v w : Value) : Prop :=
  ∀ type type' handle, v = host type handle → w = host type' handle → type = type'

/-- What has one identity is one thing: the type of a foreign value, and a dictionary. -/
structure Coherent (v w : Value) : Prop where
  sharesType : v.SharesType w
  dictionary : ∀ {d d'}, v = dictionary d → w = dictionary d' → d.id = d'.id → d = d'

/-- Dispatch does not tell the values apart. -/
structure DispatchAlike (v w : Value) : Prop where
  typeName_eq : v.typeName = w.typeName
  dictionary_iff : ∀ d, v = dictionary d ↔ w = dictionary d

section Same

variable {v w : Value}

theorem Coherent.symm (h : v.Coherent w) : w.Coherent v where
  sharesType _ _ _ hw hv := (h.sharesType _ _ _ hv hw).symm
  dictionary hw hv hid := (h.dictionary hv hw hid.symm).symm

theorem typeName_of_scalar {a : Scalar} (h : v.scalar? = some a) :
    a.typeName? = some v.typeName ∨ ∃ type handle, v = host type handle := by
  cases v with
  | host type handle => exact .inr ⟨type, handle, rfl⟩
  | list _ | tuple _ | record _ | data _ _ _ => cases h
  | _ =>
    cases h
    exact .inl rfl

theorem Same.typeName_eq (h : v.Same w) (hshares : v.SharesType w) : v.typeName = w.typeName := by
  cases h with
  | scalar hv hw =>
    rcases typeName_of_scalar hv with hname | ⟨type, handle, rfl⟩
    · rcases typeName_of_scalar hw with hname' | ⟨type', handle', rfl⟩
      · exact Option.some.inj (hname.symm.trans hname')
      · cases hw
        cases hname
    · cases hv
      rcases typeName_of_scalar hw with hname' | ⟨type', handle', rfl⟩
      · cases hname'
      · cases hw
        exact hshares _ _ _ rfl rfl
  | _ => rfl

theorem Same.eq_dictionary (h : v.Same w) (hcoherent : v.Coherent w) {d : Dictionary}
    (hv : v = dictionary d) : w = dictionary d := by
  subst hv
  cases h with
  | scalar hv hw =>
    cases hv
    cases w with
    | dictionary d' =>
      have hid : d'.id = d.id := by
        injection hw with hw
        injection hw
      rw [hcoherent.dictionary rfl rfl hid.symm]
    | list _ | tuple _ | record _ | data _ _ _ => cases hw
    | _ => cases hw

theorem Same.dispatchAlike (h : v.Same w) (hcoherent : v.Coherent w) : v.DispatchAlike w where
  typeName_eq := h.typeName_eq hcoherent.sharesType
  dictionary_iff _ := ⟨h.eq_dictionary hcoherent, h.symm.eq_dictionary hcoherent.symm⟩

theorem exists_of_isDictionary (h : v.isDictionary = true) : ∃ d, v = dictionary d := by
  cases v with
  | dictionary d => exact ⟨d, rfl⟩
  | _ => cases h

theorem DispatchAlike.isDictionary_eq (h : v.DispatchAlike w) :
    v.isDictionary = w.isDictionary := by
  rw [Bool.eq_iff_iff]
  constructor
  · intro hv
    obtain ⟨d, hd⟩ := exists_of_isDictionary hv
    rw [(h.dictionary_iff d).1 hd]
    rfl
  · intro hw
    obtain ⟨d, hd⟩ := exists_of_isDictionary hw
    rw [(h.dictionary_iff d).2 hd]
    rfl

end Same

end Value

section Arguments

variable {args args' : List Value} {r : Registry} {m : ClassMethod}

theorem forall₂_plainArgs (h : List.Forall₂ Value.DispatchAlike args args') :
    List.Forall₂ Value.DispatchAlike (plainArgs args) (plainArgs args') := by
  induction h with
  | nil => exact .nil
  | @cons v w vs ws hvw hrest ih =>
    have hsame := hvw.isDictionary_eq
    unfold plainArgs at ih ⊢
    rw [List.dropWhile_cons, List.dropWhile_cons, ← hsame]
    split
    · exact ih
    · exact .cons hvw hrest

theorem map_typeName_eq (h : List.Forall₂ Value.DispatchAlike args args') :
    args.map Value.typeName = args'.map Value.typeName := by
  induction h with
  | nil => rfl
  | cons hvw _ ih => rw [List.map_cons, List.map_cons, hvw.typeName_eq, ih]

theorem ClassMethod.dispatchTypes_eq (h : List.Forall₂ Value.DispatchAlike args args') :
    m.dispatchTypes args = m.dispatchTypes args' := by
  have htypes := map_typeName_eq h
  unfold dispatchTypes
  split
  · exact htypes
  · refine congrArg (List.filterMap · m.argPositions) (funext fun i => ?_)
    rw [← List.getElem?_map, ← List.getElem?_map, htypes]

theorem all_zip_eq {α : Type} {f : α → Value → Bool}
    (hf : ∀ a v w, Value.DispatchAlike v w → f a v = f a w)
    (h : List.Forall₂ Value.DispatchAlike args args') (as : List α) :
    ((as.zip args).all fun e => f e.1 e.2) = (as.zip args').all fun e => f e.1 e.2 := by
  induction h generalizing as with
  | nil => rfl
  | cons hvw _ ih =>
    cases as with
    | nil => rfl
    | cons a as => rw [List.zip_cons_cons, List.zip_cons_cons, List.all_cons, List.all_cons, ih,
        hf a _ _ hvw]

namespace Registry

theorem typeAccepts_eq (r : Registry) (ty : Ty) {v w : Value} (h : v.DispatchAlike w) :
    r.typeAccepts ty v = r.typeAccepts ty w := by
  rw [typeAccepts, typeAccepts, h.typeName_eq]

theorem acceptsArgs_eq (h : List.Forall₂ Value.DispatchAlike args args') (callee : Value) :
    r.acceptsArgs callee args = r.acceptsArgs callee args' := by
  have hplain := forall₂_plainArgs h
  cases callee with
  | function id c =>
    have hfixed := all_zip_eq (f := fun (p : Param) v => p.ty.all fun ty => r.typeAccepts ty v)
      (fun p v w hvw => by simp only [r.typeAccepts_eq _ hvw]) hplain c.func.fixedParams
    simp only [acceptsArgs, hplain.length_eq, hfixed]
  | builtin b =>
    cases hparams : b.signature.bind Ty.fnParams with
    | none => simp only [acceptsArgs, hparams]
    | some params =>
      have hall := all_zip_eq (fun ty v w hvw => r.typeAccepts_eq ty hvw) hplain params
      simp only [acceptsArgs, hparams, hplain.length_eq, hall]
  | _ => rfl

theorem firstAccepting?_eq_of_alike (h : List.Forall₂ Value.DispatchAlike args args')
    (exact : Bool) (keys : List TypeKey) :
    r.firstAccepting? m args exact keys = r.firstAccepting? m args' exact keys := by
  simp only [firstAccepting?, acceptsArgs_eq h]

theorem contextCandidate?_eq_of_alike (h : List.Forall₂ Value.DispatchAlike args args')
    (expected : Ty) :
    r.contextCandidate? m expected args = r.contextCandidate? m expected args' := by
  simp only [contextCandidate?, firstAccepting?_eq_of_alike h]

theorem argumentCandidate?_eq_of_alike (h : List.Forall₂ Value.DispatchAlike args args')
    (types : List String) (contextName : Option String) :
    r.argumentCandidate? m types args contextName =
      r.argumentCandidate? m types args' contextName := by
  simp only [argumentCandidate?, firstAccepting?_eq_of_alike h]

theorem byDictionary_cons_plain {v : Value} (hv : v.isDictionary = false) (vs : List Value) :
    r.byDictionary m (v :: vs) = (none, v :: vs) := by
  cases v with
  | dictionary d => cases hv
  | _ => rfl

/-- The same dictionaries are stripped, and the same method is found. -/
theorem byDictionary_of_alike (h : List.Forall₂ Value.DispatchAlike args args') :
    ∃ found n, n ≤ args.length ∧ r.byDictionary m args = (found, args.drop n) ∧
      r.byDictionary m args' = (found, args'.drop n) := by
  induction h with
  | nil => exact ⟨none, 0, Nat.le_refl 0, rfl, rfl⟩
  | @cons v w vs ws hvw hrest ih =>
    cases hv : v.isDictionary with
    | false =>
      have hw : w.isDictionary = false := by rw [← hvw.isDictionary_eq, hv]
      exact ⟨none, 0, Nat.zero_le _, byDictionary_cons_plain hv vs, byDictionary_cons_plain hw ws⟩
    | true =>
      obtain ⟨d, rfl⟩ := Value.exists_of_isDictionary hv
      obtain rfl := (hvw.dictionary_iff d).1 rfl
      obtain ⟨found, n, hn, hvs, hws⟩ := ih
      have hdrop : n + 1 ≤ (Value.dictionary d :: vs).length := Nat.succ_le_succ hn
      rw [byDictionary, byDictionary]
      split
      · exact ⟨found, n + 1, hdrop, hvs, hws⟩
      · cases r.methodIn? m.traitName m.method d with
        | none => exact ⟨none, 0, Nat.zero_le _, rfl, rfl⟩
        | some callee =>
          dsimp only
          rw [acceptsArgs_eq hrest]
          split
          · exact ⟨some callee, 1, Nat.succ_le_succ (Nat.zero_le _), rfl, rfl⟩
          · exact ⟨found, n + 1, hdrop, hvs, hws⟩

end Registry

namespace Machine

/-- The same selection, for other arguments. -/
inductive Swapped (args args' : List Value) : Resolution ⊕ Fallback → Resolution ⊕ Fallback → Prop
  | found (callee : Value) (witness : Option (String × Ty)) :
      Swapped args args' (.inl { callee, args, witness }) (.inl { callee, args := args', witness })
  | fallback (fb : Fallback) :
      Swapped args args' (.inr { fb with args }) (.inr { fb with args := args' })

theorem weigh_swapped (h : List.Forall₂ Value.DispatchAlike args args') (mach : Machine)
    (m : ClassMethod) (site : CallSite) :
    Swapped args args' (mach.weigh m args site) (mach.weigh m args' site) := by
  have hplain := forall₂_plainArgs h
  have hempty : (plainArgs args).isEmpty = (plainArgs args').isEmpty := by
    rw [Bool.eq_iff_iff, List.isEmpty_iff_length_eq_zero, List.isEmpty_iff_length_eq_zero,
      hplain.length_eq]
  simp only [weigh, ClassMethod.dispatchTypes_eq hplain, hempty,
    Registry.contextCandidate?_eq_of_alike hplain, Registry.argumentCandidate?_eq_of_alike hplain]
  split
  · exact .found _ _
  · exact .found _ _
  · exact .fallback { args, types := _, context := _, hasArgs := _ }

theorem select_swapped (h : List.Forall₂ Value.DispatchAlike args args') (mach : Machine)
    (m : ClassMethod) (site : CallSite) : ∃ n, n ≤ args.length ∧
      Swapped (args.drop n) (args'.drop n) (mach.select m args site)
        (mach.select m args' site) := by
  obtain ⟨found, n, hn, hargs, hargs'⟩ :=
    Registry.byDictionary_of_alike (r := mach.registry) (m := m) h
  refine ⟨n, hn, ?_⟩
  simp only [select, hargs, hargs']
  cases found with
  | some callee => exact .found callee none
  | none =>
    cases mach.witnessCandidate? m with
    | some callee => exact .found callee none
    | none => exact weigh_swapped (List.forall₂_drop n h) mach m site

end Machine

namespace Run

/-- What is resolved by default goes by everything but the arguments themselves. -/
theorem resolveDefault_swapped {xs ys : List Value} {f : List Value → List Value} (hf : f xs = ys)
    (m : ClassMethod) (fb : Fallback) (s : Setting) (mach : Machine) :
    resolveDefault m { fb with args := ys } s mach =
      (do let r ← resolveDefault m { fb with args := xs }
          return { r with args := f r.args }) s mach := by
  subst hf
  unfold resolveDefault
  rw [bind_assoc, machine_bind, machine_bind]
  dsimp only
  have hkey : mach.registry.defaultKey m { fb with args := f xs } =
      mach.registry.defaultKey m { fb with args := xs } := rfl
  rw [hkey]
  cases mach.registry.userDefault? m.traitName m.method with
  | some default => cases mach.registry.defaultKey m { fb with args := xs } <;> rfl
  | none => cases mach.registry.builtinDefault? m.traitName m.method <;> rfl

/-- Resolving for arguments that dispatch does not tell apart: what is resolved for the ones, with
the others in the place of those that are left. -/
theorem resolve_of_alike (h : List.Forall₂ Value.DispatchAlike args args') (m : ClassMethod)
    (site : CallSite) (s : Setting) (mach : Machine) :
    resolve m args' site s mach =
      (do let r ← resolve m args site
          return { r with args := args'.drop (args.length - r.args.length) }) s mach := by
  obtain ⟨n, hn, hswapped⟩ := mach.select_swapped h m site
  have hdrop : args'.drop (args.length - (args.drop n).length) = args'.drop n := by
    rw [List.length_drop]
    congr 1
    omega
  unfold resolve
  rw [bind_assoc]
  cases hstop : s.breakpoint (.dispatch m) mach with
  | true =>
    have hreach : reach (.dispatch m) s mach = .halted (.breakpoint (.dispatch m) mach) := by
      rw [reach, if_pos hstop]
    rw [bind_of_halted hreach, bind_of_halted hreach]
  | false =>
    have hreach : reach (.dispatch m) s mach = .done () mach := by
      rw [reach, hstop]
      rfl
    rw [bind_of_done hreach, bind_of_done hreach, bind_assoc, machine_bind, machine_bind]
    generalize mach.select m args site = selected,
      mach.select m args' site = selected' at hswapped
    cases hswapped with
    | found callee witness =>
      show Outcome.done _ _ = Outcome.done _ _
      rw [hdrop]
    | fallback fb =>
      exact resolveDefault_swapped (f := fun rest => args'.drop (args.length - rest.length)) hdrop
        m fb s mach

end Run

end Arguments

section Records

variable {a : Apply} {scope : ScopeId} {s : Setting} {m m' : Machine}

theorem nodup_of_evalFields {fields : List (String × Spanned Expr)}
    {done made : List (String × Value)} (hdone : (Assoc.keys done).Nodup)
    (h : evalFields a scope done fields s m = .done made m') :
    (Assoc.keys made).Nodup := by
  induction fields generalizing done m with
  | nil =>
    rw [evalFields] at h
    cases h
    exact hdone
  | cons field fields ih =>
    obtain ⟨name, e⟩ := field
    rw [evalFields] at h
    obtain ⟨v, m₁, -, h⟩ := Run.done_of_bind h
    exact ih (Assoc.nodup_keys_insert hdone name v) h

/-- A record that a program makes has distinct fields. -/
theorem nodup_of_evalNode {ctx : EvalCtx} {fields : List (String × Spanned Expr)} {span : Span}
    {step : Step} (h : evalNode a ctx scope ⟨.record fields, span⟩ s m = .done step m') :
    ∃ made, step = .done (.record made) ∧ (Assoc.keys made).Nodup := by
  rw [evalNode, evalForm] at h
  obtain ⟨made, m₁, hmade, h⟩ := Run.done_of_bind (Run.done_of_mapFault h)
  cases h
  have hnone : (Assoc.keys ([] : List (String × Value))).Nodup := List.nodup_nil
  exact ⟨made, rfl, nodup_of_evalFields hnone hmade⟩

end Records

/-- Laws of equality. Where no float takes part and the fields of each record are distinct, as they
are in each record that a program makes, comparison is an equivalence: it decides whether values are
the same, by structure or by identity. The order of the fields in a record does not matter. Equal
values have the same type name if foreign values that share a handle have; and if dictionaries of
one identity are one, a trait method is resolved for equal arguments to the same, with the ones in
the place of the others. -/
theorem value_equality_laws :
    (Equivalence fun v w : { v : Value // v.Comparable } => (v.val == w.val) = true) ∧
    (∀ v w : Value, v.Comparable → w.Comparable → ((v == w) = true ↔ v.Same w)) ∧
    (∀ a ctx scope fields span s m step m',
      evalNode a ctx scope ⟨.record fields, span⟩ s m = .done step m' →
        ∃ made, step = .done (.record made) ∧ (Assoc.keys made).Nodup) ∧
    (∀ fields fields' : List (String × Value), fields.Perm fields' → (Assoc.keys fields).Nodup →
      ∀ w : Value, (.record fields == w) = (.record fields' == w) ∧
        (w == .record fields) = (w == .record fields')) ∧
    (∀ v w : Value, v.Comparable → w.Comparable → (v == w) = true → v.SharesType w →
      v.typeName = w.typeName) ∧
    ∀ args args' : List Value,
      List.Forall₂ (fun v w =>
        v.Comparable ∧ w.Comparable ∧ (v == w) = true ∧ v.Coherent w) args args' →
      ∀ m site s mach, Run.resolve m args' site s mach =
        (do let r ← Run.resolve m args site
            return { r with args := args'.drop (args.length - r.args.length) }) s mach := by
  refine ⟨Value.equal_equivalence, fun v w hv hw => Value.equal_iff_same hv hw,
    fun a ctx scope fields span s m step m' h => nodup_of_evalNode h,
    fun fields fields' h hfields w => Value.equal_record_of_perm h hfields w,
    fun v w hv hw h hshares => ((Value.equal_iff_same hv hw).1 h).typeName_eq hshares,
    fun args args' h m site s mach => Run.resolve_of_alike (h.imp fun v w hvw => ?_) m site s mach⟩
  obtain ⟨hv, hw, hequal, hcoherent⟩ := hvw
  exact ((Value.equal_iff_same hv hw).1 hequal).dispatchAlike hcoherent

/-- Two orders of the fields of a record with a callable and a foreign value in it. -/
theorem value_equality_laws_record :
    let callee : Value := .constructor 5 "Point" "Point" 2
    let v : Value := .record [("new", callee), ("at", .list [.int 1, .host "Handle" 7])]
    let w : Value := .record [("at", .list [.int 1, .host "Handle" 7]), ("new", callee)]
    v.Comparable ∧ w.Comparable ∧ v.Same w ∧ (w == v) = true ∧ (v == callee) = (w == callee) ∧
      v.typeName = w.typeName ∧
      ∀ m site s mach, Run.resolve m [w] site s mach =
        (do let r ← Run.resolve m [v] site
            return { r with args := [w].drop (1 - r.args.length) }) s mach := by
  intro callee v w
  have atom {u : Value} (hfloat : ∀ x, u ≠ .float x) (hrecord : ∀ fields, u ≠ .record fields)
      (hparts : u.parts = []) : u.Comparable :=
    .intro hfloat (fun fields h => absurd h (hrecord fields)) fun x hx => by
      rw [hparts] at hx
      cases hx
  have hlist : (Value.list [.int 1, .host "Handle" 7]).Comparable := by
    refine .intro nofun nofun (List.forall_mem_cons.2 ⟨atom nofun nofun rfl, ?_⟩)
    exact List.forall_mem_singleton.2 (atom nofun nofun rfl)
  have hcallee : callee.Comparable := atom nofun nofun rfl
  have record {fields : List (String × Value)} (hnodup : (Assoc.keys fields).Nodup)
      (hparts : ∀ u ∈ (Value.record fields).parts, u.Comparable) :
      (Value.record fields).Comparable :=
    .intro nofun (fun _ h => Value.record.inj h ▸ hnodup) hparts
  have hnodup : (Assoc.keys [("new", callee), ("at", .list [.int 1, .host "Handle" 7])]).Nodup := by
    decide
  have hv : v.Comparable :=
    record hnodup (List.forall_mem_cons.2 ⟨hcallee, List.forall_mem_singleton.2 hlist⟩)
  have hw : w.Comparable :=
    record (by decide) (List.forall_mem_cons.2 ⟨hlist, List.forall_mem_singleton.2 hcallee⟩)
  have hequal : (v == w) = true := by decide +kernel
  have hcoherent : v.Coherent w := ⟨nofun, nofun⟩
  obtain ⟨hequivalence, hsame, -, hperm, htype, hresolve⟩ := value_equality_laws
  refine ⟨hv, hw, (hsame v w hv hw).1 hequal, ?_, (hperm _ _ (.swap _ _ []) hnodup callee).1,
    htype v w hv hw hequal hcoherent.sharesType, ?_⟩
  · exact hequivalence.symm (x := ⟨v, hv⟩) (y := ⟨w, hw⟩) hequal
  · exact hresolve [v] [w] (.cons ⟨hv, hw, hequal, hcoherent⟩ .nil)

end TraitLang
