import TraitLang.Tree.Ty

/-!
Substitution in types. An application whose head becomes an application keeps the innermost head and
the outermost arguments. Main statements: one substitution after another is a single one, however
deep the heads are nested on either side; and a substitution that binds no variable of a type leaves
it as it is exactly if no application in the type has an application as its head.
-/
namespace TraitLang.Ty

/-- What holds of a type if it holds of its head, arguments, parameters, result and components holds
of all types. -/
@[elab_as_elim]
theorem inductionOn {P : Ty → Prop} (t : Ty) (con : ∀ name, P (con name))
    (var : ∀ name, P (var name))
    (app : ∀ head args, P head → (∀ t ∈ args, P t) → P (app head args))
    (fn : ∀ params ret, (∀ t ∈ params, P t) → P ret → P (fn params ret))
    (tuple : ∀ elems, (∀ t ∈ elems, P t) → P (tuple elems)) : P t :=
  @Ty.rec P (fun ts => ∀ t ∈ ts, P t) con var app fn tuple (fun _ h => absurd h List.not_mem_nil)
    (fun _ _ ht hts => List.forall_mem_cons.2 ⟨ht, hts⟩) t

section Composition

/-- Substitutes by `first` and then by `second`: what `first` binds is substituted into, and the
variables that it leaves are up to `second`. -/
def andThen (first second : String → Option Ty) (name : String) : Option Ty :=
  match first name with
  | some t => some (t.substitute second)
  | none => second name

variable (lookup : String → Option Ty)

/-- The arguments that a head brings along do not count, however often it is applied. -/
theorem applied_applied (head : Ty) (args args' : List Ty) :
    (head.applied args).applied args' = head.applied args' := by
  cases head <;> rfl

theorem substitute_app (head : Ty) (args : List Ty) :
    (app head args).substitute lookup =
      (head.substitute lookup).applied (args.map (substitute lookup)) := by
  rw [substitute, substituteAll_eq_map]

/-- It does not matter whether a head loses its arguments before or after a substitution. -/
theorem substitute_applied (head : Ty) (args : List Ty) :
    (head.applied args).substitute lookup =
      (head.substitute lookup).applied (args.map (substitute lookup)) := by
  cases head with
  | app inner own =>
    calc ((app inner own).applied args).substitute lookup
      _ = (inner.substitute lookup).applied (args.map (substitute lookup)) :=
        substitute_app lookup inner args
      _ = ((app inner own).substitute lookup).applied (args.map (substitute lookup)) := by
        rw [substitute_app, applied_applied]
  | _ => exact substitute_app lookup _ args

/-- Of a head that is applied again and again, substitution keeps the innermost head and the
outermost arguments. -/
theorem substitute_foldl_app (head : Ty) (inner : List (List Ty)) (args : List Ty) :
    (app (inner.foldl app head) args).substitute lookup =
      (head.substitute lookup).applied (args.map (substitute lookup)) := by
  induction inner generalizing head with
  | nil => exact substitute_app lookup head args
  | cons own inner ih => rw [List.foldl_cons, ih, substitute_app, applied_applied]

theorem substitute_substitute (first second : String → Option Ty) (t : Ty) :
    (t.substitute first).substitute second = t.substitute (andThen first second) := by
  induction t using inductionOn with
  | con name => rfl
  | var name =>
    cases hfirst : first name with
    | some t => simp [substitute, andThen, hfirst]
    | none => simp [substitute, andThen, hfirst]
  | app head args ihHead ihArgs =>
    -- the second substitution meets a head that may have collapsed already
    rw [substitute_app, substitute_applied, ihHead, substitute_app, List.map_map]
    exact congrArg _ (List.map_congr_left ihArgs)
  | fn params ret ihParams ihRet => simpa [substitute, ihRet] using ihParams
  | tuple elems ih => simpa [substitute] using ih

/-- Two substitutions, one after the other, are a single one, which maps a variable to what the
second makes of its image under the first, and to its image under the second if the first does not
bind it. A head keeps none of its own arguments in any of them, however deep it is nested and
whether it was written down or put in for a variable. -/
theorem substitute_composes (first second : String → Option Ty) :
    (∀ t : Ty, (t.substitute first).substitute second = t.substitute (andThen first second)) ∧
    ∀ (head : Ty) (inner : List (List Ty)) (args : List Ty),
      ((app (inner.foldl app head) args).substitute first).substitute second =
        ((head.substitute first).substitute second).applied
          (args.map (substitute (andThen first second))) := by
  refine ⟨substitute_substitute first second, fun head inner args => ?_⟩
  rw [substitute_substitute, substitute_foldl_app, substitute_substitute]

end Composition

section Unbound

mutual

/-- The variables of a type, from left to right. -/
def freeNames : Ty → List String
  | con _ => []
  | var name => [name]
  | app head args => head.freeNames ++ freeNamesOfAll args
  | fn params ret => freeNamesOfAll params ++ ret.freeNames
  | tuple elems => freeNamesOfAll elems

def freeNamesOfAll : List Ty → List String
  | [] => []
  | t :: ts => t.freeNames ++ freeNamesOfAll ts

end

@[simp] theorem freeNamesOfAll_eq_flatMap (ts : List Ty) :
    freeNamesOfAll ts = ts.flatMap freeNames := by
  induction ts with
  | nil => rfl
  | cons t ts ih => rw [freeNamesOfAll, ih, List.flatMap_cons]

def isApp : Ty → Bool
  | app _ _ => true
  | _ => false

mutual

/-- No application in the type has an application as its head. -/
def isFlat : Ty → Bool
  | con _ => true
  | var _ => true
  | app head args => !head.isApp && head.isFlat && allFlat args
  | fn params ret => allFlat params && ret.isFlat
  | tuple elems => allFlat elems

def allFlat : List Ty → Bool
  | [] => true
  | t :: ts => t.isFlat && allFlat ts

end

@[simp] theorem allFlat_eq_true_iff (ts : List Ty) :
    allFlat ts = true ↔ ∀ t ∈ ts, t.isFlat = true := by
  induction ts with
  | nil => simp [allFlat]
  | cons t ts ih => simp [allFlat, ih]

variable {lookup : String → Option Ty}

theorem isFlat_applied {head : Ty} (hhead : head.isFlat = true) {args : List Ty}
    (hargs : ∀ t ∈ args, t.isFlat = true) : (head.applied args).isFlat = true := by
  cases head with
  | app inner own =>
    -- a flat application has a head that is none
    simp only [isFlat, Bool.and_eq_true] at hhead
    simpa [applied, isFlat, hhead.1] using hargs
  | _ => simpa [applied, isApp, isFlat] using And.intro hhead hargs

/-- Substitution flattens a type, if what it puts in is flat. -/
theorem isFlat_substitute {t : Ty}
    (h : ∀ name ∈ t.freeNames, ∀ u, lookup name = some u → u.isFlat = true) :
    (t.substitute lookup).isFlat = true := by
  induction t using inductionOn with
  | con name => rfl
  | var name =>
    cases hname : lookup name with
    | some u => simpa [substitute, hname] using h name List.mem_cons_self u hname
    | none => simp [substitute, hname, isFlat]
  | app head args ihHead ihArgs =>
    simp only [freeNames, freeNamesOfAll_eq_flatMap, List.forall_mem_append,
      List.forall_mem_flatMap] at h
    rw [substitute_app]
    refine isFlat_applied (ihHead h.1) (List.forall_mem_map.2 fun t ht => ?_)
    exact ihArgs t ht (h.2 t ht)
  | fn params ret ihParams ihRet =>
    simp only [freeNames, freeNamesOfAll_eq_flatMap, List.forall_mem_append,
      List.forall_mem_flatMap] at h
    simp only [substitute, substituteAll_eq_map, isFlat, Bool.and_eq_true, allFlat_eq_true_iff]
    exact ⟨List.forall_mem_map.2 fun t ht => ihParams t ht (h.1 t ht), ihRet h.2⟩
  | tuple elems ih =>
    simp only [freeNames, freeNamesOfAll_eq_flatMap, List.forall_mem_flatMap] at h
    simp only [substitute, substituteAll_eq_map, isFlat, allFlat_eq_true_iff]
    exact List.forall_mem_map.2 fun t ht => ih t ht (h t ht)

theorem map_substitute_eq_self {ts : List Ty} (h : ∀ t ∈ ts, t.substitute lookup = t) :
    ts.map (substitute lookup) = ts :=
  (List.map_congr_left h).trans (List.map_id' ts)

theorem substitute_of_isFlat {t : Ty} (hflat : t.isFlat = true)
    (h : ∀ name ∈ t.freeNames, lookup name = none) : t.substitute lookup = t := by
  induction t using inductionOn with
  | con name => rfl
  | var name => simp [substitute, h name List.mem_cons_self]
  | app head args ihHead ihArgs =>
    simp only [freeNames, freeNamesOfAll_eq_flatMap, List.forall_mem_append,
      List.forall_mem_flatMap] at h
    simp only [isFlat, Bool.and_eq_true, allFlat_eq_true_iff, Bool.not_eq_true'] at hflat
    obtain ⟨⟨happ, hhead⟩, hargs⟩ := hflat
    have hall : args.map (substitute lookup) = args :=
      map_substitute_eq_self fun t ht => ihArgs t ht (hargs t ht) (h.2 t ht)
    rw [substitute_app, ihHead hhead h.1, hall]
    cases head with
    | app inner own => cases happ
    | _ => rfl
  | fn params ret ihParams ihRet =>
    simp only [freeNames, freeNamesOfAll_eq_flatMap, List.forall_mem_append,
      List.forall_mem_flatMap] at h
    simp only [isFlat, Bool.and_eq_true, allFlat_eq_true_iff] at hflat
    have hall : params.map (substitute lookup) = params :=
      map_substitute_eq_self fun t ht => ihParams t ht (hflat.1 t ht) (h.1 t ht)
    rw [substitute, substituteAll_eq_map, hall, ihRet hflat.2 h.2]
  | tuple elems ih =>
    simp only [freeNames, freeNamesOfAll_eq_flatMap, List.forall_mem_flatMap] at h
    simp only [isFlat, allFlat_eq_true_iff] at hflat
    have hall : elems.map (substitute lookup) = elems :=
      map_substitute_eq_self fun t ht => ih t ht (hflat t ht) (h t ht)
    rw [substitute, substituteAll_eq_map, hall]

/-- A substitution that binds no variable of a type leaves it as it is exactly if the type is flat.
It makes any other type flat. -/
theorem substitute_unbound {t : Ty} (h : ∀ name ∈ t.freeNames, lookup name = none) :
    (t.substitute lookup = t ↔ t.isFlat = true) ∧ (t.substitute lookup).isFlat = true := by
  have hflat : (t.substitute lookup).isFlat = true :=
    isFlat_substitute fun name hname u hu => by cases (h name hname).symm.trans hu
  refine ⟨⟨fun hself => ?_, fun ht => substitute_of_isFlat ht h⟩, hflat⟩
  rwa [hself] at hflat

/-- `(Map<a, f<b>>, c) -> (d, Int)`, with a binding for a variable that is not in there. -/
theorem substitute_unbound_function :
    let t := fn [app (con "Map") [var "a", app (var "f") [var "b"]], var "c"]
      (tuple [var "d", con "Int"])
    let lookup := fun name => if name = "e" then some (con "Int") else none
    (∀ name ∈ t.freeNames, lookup name = none) ∧ t.isFlat = true ∧ t.substitute lookup = t := by
  intro t lookup
  have h : ∀ name ∈ t.freeNames, lookup name = none := by decide
  have hflat : t.isFlat = true := by decide
  exact ⟨h, hflat, (substitute_unbound h).1.2 hflat⟩

/-- `Map<a><b>` becomes `Map<b>`, although `a` is not bound. -/
theorem nested_head_loses_argument :
    let t := app (app (con "Map") [var "a"]) [var "b"]
    let lookup : String → Option Ty := fun _ => none
    (∀ name ∈ t.freeNames, lookup name = none) ∧
      t.substitute lookup = app (con "Map") [var "b"] ∧ t.substitute lookup ≠ t := by
  decide

end Unbound

end TraitLang.Ty
