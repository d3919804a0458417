import TraitLang.Proofs.RegistryFrame
import TraitLang.Proofs.SuperTraits

/-!
Trait methods inside dictionaries. Where an instance lacks a method and its trait has no default,
the dictionary holds the trait method itself, to be dispatched when it is called. Main statement: a
call through such a dictionary is dispatched without the hints of the declaration; it gives what a
call without the dictionary gives if the hints have the method dispatch on all arguments in order,
as a method without hints does.
-/
namespace TraitLang

/-- The trait method that a declaration binds. -/
def TraitMethod.bound (decl : TraitMethod) (traitName : String) : ClassMethod :=
  { traitName, method := decl.name, arity := decl.arity, dispatch := decl.dispatch }

/-- The method without the hints of its declaration. -/
def ClassMethod.unhinted (g : ClassMethod) : ClassMethod := { g with dispatch := none }

/-- The hints have the method dispatch on all the arguments in order. -/
structure ClassMethod.ConsidersAll (g : ClassMethod) (args : List Value) : Prop where
  not_returnOnly : g.isReturnOnly = false
  types_eq : g.dispatchTypes args = args.map Value.typeName

/-- A trait declares the method once, and nothing supplies it for the instance. -/
structure Registry.Leaves (r : Registry) (key : TypeKey) (traitName : String) (decl : TraitMethod) :
    Prop where
  declared : ((r.traits.lookup traitName).getD []).filter (fun m => m.name == decl.name) = [decl]
  listed : decl.name ∈ r.methodNames traitName
  own : r.lookup? traitName key decl.name = none
  userDefault : r.userDefault? traitName decl.name = none
  builtinDefault : r.builtinDefault? traitName decl.name = none

/-- The identity is in use for this method and for no other one, as far as trait methods are stored
among the instances; all of them have identities that are in use. -/
structure Machine.Identifies (m : Machine) (id : Ident) (g : ClassMethod) : Prop where
  inUse : id < m.nextIdent
  stored_inUse : ∀ key id' g', m.registry.lookup? g.traitName key g.method = some (.method id' g') →
    id' < m.nextIdent
  stored_eq : ∀ key g', m.registry.lookup? g.traitName key g.method = some (.method id g') → g' = g

theorem Value.isMethod_iff {id : Ident} {v : Value} :
    v.isMethod id = true ↔ ∃ g, v = .method id g := by
  cases v <;> simp [Value.isMethod]

/-- Reducing a callee ends with an outcome, given enough fuel. -/
def Reduces (site : CallSite) (s : Setting) (p : Pending) (m : Machine) (o : Outcome Reduced) :
    Prop :=
  o.Returned ∧ ∃ fuel, Run.iterate (Run.reduceStep site) fuel p s m = o

section Steps

variable {site : CallSite} {s : Setting} {p q : Pending} {m m' : Machine} {o : Outcome Reduced}

theorem reduces_of_step (h : Run.reduceStep site p s m = .done (.inl q) m') :
    Reduces site s p m o ↔ Reduces site s q m' o := by
  refine and_congr_right fun ho => ⟨?_, ?_⟩
  · rintro ⟨fuel, rfl⟩
    cases fuel with
    | zero => cases ho
    | succ fuel => exact ⟨fuel, by rw [Run.iterate, h]⟩
  · rintro ⟨fuel, rfl⟩
    exact ⟨fuel + 1, by rw [Run.iterate, h]⟩

theorem reduces_of_failed {f : Fault} (h : Run.reduceStep site p s m = .failed f m') :
    Reduces site s p m o ↔ o = .failed f m' := by
  constructor
  · rintro ⟨ho, fuel, rfl⟩
    cases fuel with
    | zero => cases ho
    | succ fuel => rw [Run.iterate, h]
  · rintro rfl
    exact ⟨trivial, 1, by rw [Run.iterate, h]⟩

theorem Reduces.unique {o' : Outcome Reduced} (h : Reduces site s p m o)
    (h' : Reduces site s p m o') : o = o' := by
  obtain ⟨ho, fuel, hfuel⟩ := h
  induction fuel generalizing p m with
  | zero =>
    subst hfuel
    cases ho
  | succ fuel ih =>
    cases hstep : Run.reduceStep site p s m with
    | done next m₁ =>
      cases next with
      | inl q =>
        rw [Run.iterate, hstep] at hfuel
        exact ih ((reduces_of_step hstep).1 h') hfuel
      | inr reduced =>
        obtain ⟨ho', fuel', rfl⟩ := h'
        cases fuel' with
        | zero => cases ho'
        | succ fuel' => rw [← hfuel, Run.iterate, Run.iterate, hstep]
    | failed f m₁ =>
      rw [Run.iterate, hstep] at hfuel
      rw [← hfuel, (reduces_of_failed hstep).1 h']
    | halted why =>
      rw [Run.iterate, hstep] at hfuel
      subst hfuel
      cases ho

variable {id : Ident} {g : ClassMethod} {args : List Value} {witness : Option WitnessFrame}
  {r : Resolution}

/-- A trait method with enough arguments is resolved. -/
theorem reduceStep_resolve (harity : g.arity ≤ (plainArgs args).length) :
    Run.reduceStep site ⟨.method id g, args, witness⟩ = (do
      let r ← Run.resolve g args site
      if r.callee.isMethod id then Run.fail (.noImplementation g.traitName "unknown" g.method)
      else return .inl { callee := r.callee, args := r.args, witness := r.frame <|> witness }) := by
  have henough : ¬ (0 < (plainArgs args).length ∧ (plainArgs args).length < g.arity) := by omega
  unfold Run.reduceStep
  simp only [henough, if_false]

theorem reduceStep_of_found (harity : g.arity ≤ (plainArgs args).length)
    (h : Run.resolve g args site s m = .done r m') (hother : r.callee.isMethod id = false) :
    Run.reduceStep site ⟨.method id g, args, witness⟩ s m =
      .done (.inl { callee := r.callee, args := r.args, witness := r.frame <|> witness }) m' := by
  rw [reduceStep_resolve harity, Run.bind_of_done h, hother]
  rfl

theorem reduceStep_of_self (harity : g.arity ≤ (plainArgs args).length)
    (h : Run.resolve g args site s m = .done r m') (hself : r.callee.isMethod id = true) :
    Run.reduceStep site ⟨.method id g, args, witness⟩ s m =
      .failed { cause := .noImplementation g.traitName "unknown" g.method } m' := by
  rw [reduceStep_resolve harity, Run.bind_of_done h, hself]
  rfl

theorem reduceStep_of_failed {f : Fault} (harity : g.arity ≤ (plainArgs args).length)
    (h : Run.resolve g args site s m = .failed f m') :
    Run.reduceStep site ⟨.method id g, args, witness⟩ s m = .failed f m' := by
  rw [reduceStep_resolve harity]
  show Run.bind _ _ s m = _
  rw [Run.bind, h]

end Steps

namespace Registry

variable {r : Registry} {key : TypeKey} {traitName : String} {decl : TraitMethod}

theorem Leaves.traitMethod? (h : r.Leaves key traitName decl) :
    r.traitMethod? traitName decl.name = some decl := by
  have hdeclared := h.declared
  cases hlookup : r.traits.lookup traitName with
  | none => simp [hlookup] at hdeclared
  | some methods =>
    rw [hlookup, Option.getD_some] at hdeclared
    have hfind : methods.find? (fun m => m.name == decl.name) = some decl := by
      rw [← List.head?_filter, hdeclared, List.head?_cons]
    simp [Registry.traitMethod?, hlookup, hfind]

/-- The dictionary of the instance has the method without hints, under a new identity. -/
theorem Leaves.methodIn? (h : r.Leaves key traitName decl) (id : Ident)
    (supers : List Dictionary) :
    ∃ id', id < id' ∧
      r.methodIn? traitName decl.name (r.dictionaryAround key traitName id supers) =
        some (.method id' (decl.bound traitName).unhinted) := by
  obtain ⟨i, hi⟩ := exists_findIdx? h.listed
  refine ⟨id + 1 + i, Nat.lt_of_lt_of_le (Nat.lt_succ_self id) (Nat.le_add_right _ i), ?_⟩
  have hmethod : r.methodOrDefault key traitName (id + 1 + i) decl.name =
      .method (id + 1 + i) (decl.bound traitName).unhinted := by
    simp only [methodOrDefault, h.own, h.userDefault, h.builtinDefault, h.traitMethod?]
    rfl
  rw [dictionaryAround, Registry.methodIn?, if_pos rfl, hi, Option.bind_some,
    getElem?_methodsFrom, getElem?_of_findIdx? hi, Option.map_some, hmethod]

theorem mem_of_lookup? {method : String} {v : Value} (h : r.lookup? traitName key method = some v) :
    ∃ methods, (key, methods) ∈ r.table traitName ∧ (method, v) ∈ methods := by
  obtain ⟨methods, hkey, hmethod⟩ := Option.bind_eq_some_iff.1 h
  exact ⟨methods, Assoc.mem_of_lookup hkey, Assoc.mem_of_lookup hmethod⟩

theorem byDictionary_of_plain (r : Registry) (g : ClassMethod) {xs : List Value}
    (h : plainArgs xs = xs) : r.byDictionary g xs = (none, xs) := by
  have hleading := leadingDictionaries_of_plain h
  cases xs with
  | nil => rfl
  | cons x xs =>
    cases x with
    | dictionary d => cases hleading
    | _ => rfl

end Registry

namespace Machine

variable {mach : Machine} {g : ClassMethod} {xs : List Value}

/-- Hints that have the method dispatch on all arguments change nothing. -/
theorem select_unhinted (hall : g.ConsidersAll xs) (hxs : plainArgs xs = xs)
    (site : CallSite) :
    mach.select g.unhinted xs site = mach.select g xs site := by
  have htypes : g.unhinted.dispatchTypes (plainArgs xs) = g.dispatchTypes (plainArgs xs) := by
    rw [hxs, hall.types_eq]
    rfl
  have hreturn : g.unhinted.isReturnOnly = g.isReturnOnly := by
    rw [hall.not_returnOnly]
    rfl
  have hweigh : mach.weigh g.unhinted xs site = mach.weigh g xs site := by
    simp only [weigh, htypes, hreturn]
    rfl
  simp only [select, Registry.byDictionary_of_plain _ _ hxs, hweigh]
  rfl

end Machine

namespace Run

variable {s : Setting} {mach mach' : Machine} {g : ClassMethod} {xs : List Value} {site : CallSite}

theorem resolve_unhinted (hs : ∀ e m, s.breakpoint e m = false) (hall : g.ConsidersAll xs)
    (hxs : plainArgs xs = xs) :
    resolve g.unhinted xs site s mach = resolve g xs site s mach := by
  rw [resolve_eq (hs _ _), resolve_eq (hs _ _), Machine.select_unhinted hall hxs]
  rfl

theorem resolve_of_dictionary {args : List Value} {found : Value}
    (hs : s.breakpoint (.dispatch g) mach = false)
    (h : mach.registry.byDictionary g args = (some found, xs)) :
    resolve g args site s mach = .done { callee := found, args := xs } mach := by
  rw [resolve_eq hs, Machine.select_of_dictionary h]
  rfl

/-- Without dictionaries and defaults, what a method is resolved to is stored for an instance. -/
theorem stored_of_resolve (hxs : plainArgs xs = xs)
    (huser : mach.registry.userDefault? g.traitName g.method = none)
    (hbuiltin : mach.registry.builtinDefault? g.traitName g.method = none) {r : Resolution}
    (h : resolve g xs site s mach = .done r mach') :
    mach' = mach ∧ r.args = xs ∧
      ∃ key, mach.registry.lookup? g.traitName key g.method = some r.callee := by
  have hcases := resolve_cases g xs site s mach
  rw [h] at hcases
  obtain ⟨route, hroute⟩ := hcases
  obtain ⟨dropped, -, hjustified, -⟩ := hroute.justified
  obtain ⟨found?, hdict, hdecides⟩ := hroute.byDictionary
  rw [Registry.byDictionary_of_plain _ g hxs, Prod.mk.injEq] at hdict
  obtain ⟨rfl, hargs⟩ := hdict
  cases hroute with
  | dictionary => cases hdecides rfl
  | evidence => exact ⟨rfl, hargs.symm, hjustified⟩
  | context => exact ⟨rfl, hargs.symm, hjustified⟩
  | argument => exact ⟨rfl, hargs.symm, hjustified⟩
  | userDefault _ hdefault =>
    rw [huser] at hdefault
    cases hdefault
  | builtinDefault _ _ hdefault =>
    rw [hbuiltin] at hdefault
    cases hdefault

end Run

section Dispatched

variable {traitName : String} {key : TypeKey} {decl : TraitMethod} {s : Setting} {m m' : Machine}
  {d : Dictionary} {id id' : Ident} {xs : List Value} {site : CallSite} {o : Outcome Reduced}

/-- The first step of a call through the dictionary takes the method out of it. -/
theorem reduces_through_dictionary (hs : ∀ e m, s.breakpoint e m = false)
    (hleaves : m.registry.Leaves key traitName decl)
    (hbuilt : Run.buildDictionary traitName key s m = .done d m') (hid : id < m.nextIdent)
    (hxs : plainArgs xs = xs) (harity : decl.arity ≤ xs.length) (site : CallSite) :
    ∃ id', m.nextIdent < id' ∧ ∀ o,
      Reduces site s { callee := .method id (decl.bound traitName), args := .dictionary d :: xs }
        m' o ↔
      Reduces site s { callee := .method id' (decl.bound traitName).unhinted, args := xs }
        m' o := by
  obtain ⟨after, hsearches, rfl⟩ := Run.searches_of_buildDictionary hbuilt
  obtain ⟨supers, rfl⟩ := hsearches.eq_dictionaryAround
  obtain ⟨id', hid', hfound⟩ := hleaves.methodIn? m.nextIdent supers
  have hdict : m.registry.byDictionary (decl.bound traitName)
      (.dictionary (m.registry.dictionaryAround key traitName m.nextIdent supers) :: xs) =
        (some (.method id' (decl.bound traitName).unhinted), xs) :=
    Registry.Yields.byDictionary (.here rfl hfound rfl)
  have hresolve : Run.resolve (decl.bound traitName)
      (.dictionary (m.registry.dictionaryAround key traitName m.nextIdent supers) :: xs) site s
        { m with nextIdent := after.nextIdent } =
          .done { callee := .method id' (decl.bound traitName).unhinted, args := xs }
            { m with nextIdent := after.nextIdent } :=
    Run.resolve_of_dictionary (hs _ _) hdict
  have hother : (Value.method id' (decl.bound traitName).unhinted).isMethod id = false := by
    have hne : id' ≠ id := by
      rintro rfl
      exact Nat.lt_irrefl _ (Nat.lt_trans hid hid')
    simpa [Value.isMethod] using hne
  have hplain : decl.arity ≤ (plainArgs (.dictionary
      (m.registry.dictionaryAround key traitName m.nextIdent supers) :: xs)).length := by
    rwa [plainArgs_cons_dictionary rfl, hxs]
  exact ⟨id', hid', fun o => reduces_of_step (reduceStep_of_found hplain hresolve hother)⟩

/-- Where hints change nothing, a method goes the same way without them and under a new identity. If
it is resolved to itself, the other one takes a step more and fails alike. -/
theorem reduces_unhinted_iff {g : ClassMethod} (hs : ∀ e m, s.breakpoint e m = false)
    (huser : m.registry.userDefault? g.traitName g.method = none)
    (hbuiltin : m.registry.builtinDefault? g.traitName g.method = none)
    (hown : ∀ key g', m.registry.lookup? g.traitName key g.method = some (.method id g') → g' = g)
    (hnew : ∀ key g', m.registry.lookup? g.traitName key g.method ≠ some (.method id' g'))
    (hxs : plainArgs xs = xs) (harity : g.arity ≤ xs.length) (hall : g.ConsidersAll xs) :
    Reduces site s { callee := .method id' g.unhinted, args := xs } m o ↔
      Reduces site s { callee := .method id g, args := xs } m o := by
  have hplain : g.arity ≤ (plainArgs xs).length := by rwa [hxs]
  have hsame : Run.resolve g.unhinted xs site s m = Run.resolve g xs site s m :=
    Run.resolve_unhinted hs hall hxs
  cases hresolve : Run.resolve g xs site s m with
  | failed f m₁ =>
    rw [hresolve] at hsame
    rw [reduces_of_failed (reduceStep_of_failed (g := g.unhinted) hplain hsame),
      reduces_of_failed (reduceStep_of_failed hplain hresolve)]
  | halted why =>
    rw [Run.resolve_eq (hs _ _)] at hresolve
    cases hselect : m.select g xs site with
    | inl r => simp [hselect] at hresolve
    | inr fb => simp [hselect, Run.resolveDefault_none huser hbuiltin] at hresolve
  | done r m₁ =>
    rw [hresolve] at hsame
    obtain ⟨rfl, hargs, key, hstored⟩ := Run.stored_of_resolve hxs huser hbuiltin hresolve
    have hother : r.callee.isMethod id' = false := by
      cases hnewest : r.callee.isMethod id' with
      | false => rfl
      | true =>
        obtain ⟨g', hcallee⟩ := Value.isMethod_iff.1 hnewest
        exact absurd (hcallee ▸ hstored) (hnew key g')
    rw [reduces_of_step (reduceStep_of_found (g := g.unhinted) hplain hsame hother)]
    cases hself : r.callee.isMethod id with
    | false => rw [reduces_of_step (reduceStep_of_found hplain hresolve hself)]
    | true =>
      obtain ⟨g', hcallee⟩ := Value.isMethod_iff.1 hself
      obtain rfl : g' = g := hown key g' (hcallee ▸ hstored)
      rw [hargs, hcallee, reduces_of_failed (reduceStep_of_self hplain hresolve hself),
        reduces_of_failed (reduceStep_of_self hplain hresolve hself)]

/-- A method that is left to dispatch is dispatched without the hints of its declaration when it is
called through a dictionary. Where the hints have it dispatch on all the arguments in order, as it
does without hints, the call gives the same callee, arguments and evidence, or the same failure, as
one without the dictionary. -/
theorem dispatch_through_dictionary (hs : ∀ e m, s.breakpoint e m = false)
    (hleaves : m.registry.Leaves key traitName decl)
    (hbuilt : Run.buildDictionary traitName key s m = .done d m')
    (hid : m.Identifies id (decl.bound traitName)) (hxs : plainArgs xs = xs)
    (harity : decl.arity ≤ xs.length) (site : CallSite) :
    (∃ id', m.nextIdent < id' ∧ ∀ o,
      Reduces site s { callee := .method id (decl.bound traitName), args := .dictionary d :: xs }
        m' o ↔
      Reduces site s { callee := .method id' (decl.bound traitName).unhinted, args := xs } m' o) ∧
    ((decl.bound traitName).ConsidersAll xs → ∀ o,
      Reduces site s { callee := .method id (decl.bound traitName), args := .dictionary d :: xs }
        m' o ↔
      Reduces site s { callee := .method id (decl.bound traitName), args := xs } m' o) := by
  obtain ⟨id', hid', hthrough⟩ :=
    reduces_through_dictionary hs hleaves hbuilt hid.inUse hxs harity site
  refine ⟨⟨id', hid', hthrough⟩, fun hall o => (hthrough o).trans ?_⟩
  obtain ⟨after, -, rfl⟩ := Run.searches_of_buildDictionary hbuilt
  refine reduces_unhinted_iff hs hleaves.userDefault hleaves.builtinDefault hid.stored_eq
    (fun key g' hstored => ?_) hxs harity hall
  exact Nat.lt_asymm hid' (hid.stored_inUse key id' g' hstored)

end Dispatched

namespace Rendering

def render (dispatch : Option (List DispatchPos)) : TraitMethod where
  name := "render"
  arity := 2
  dispatch

def answering (id : Ident) (text : String) : Value :=
  .function id
    { func := ⟨"render", [⟨"style", none, none, false⟩, ⟨"x", none, none, false⟩], none, [], [],
        ⟨.lit (.str text), {}⟩, {}⟩
      scope := 0
      owner := some "Render" }

/-- Integers and strings have a method of their own, booleans have none. -/
def start (dispatch : Option (List DispatchPos)) : Machine where
  registry :=
    { traits := [("Render", [render dispatch])]
      instances := [("Render",
        [(.single "Bool", []), (.single "Int", [("render", answering 1 "as an integer")]),
          (.single "String", [("render", answering 2 "as a string")])])]
      methodOrder := [("Render", ["render"])] }
  nextIdent := 3

/-- The call `render(1, "x")`, with a dictionary or without. -/
def calling (dispatch : Option (List DispatchPos)) (dictionaries : List Dictionary) : Pending where
  callee := .method 0 ((render dispatch).bound "Render")
  args := dictionaries.map .dictionary ++ [.int 1, .str "x"]

theorem plainArgs_eq : plainArgs [.int 1, .str "x"] = [.int 1, .str "x"] := rfl

def rendered (id : Ident) (text : String) : Reduced :=
  .call { callee := answering id text, args := [.int 1, .str "x"] }

theorem leaves (dispatch : Option (List DispatchPos)) :
    (start dispatch).registry.Leaves (.single "Bool") "Render" (render dispatch) :=
  ⟨rfl, List.mem_cons_self, rfl, rfl, rfl⟩

theorem identifies (dispatch : Option (List DispatchPos)) :
    (start dispatch).Identifies 0 ((render dispatch).bound "Render") := by
  have hstored : ∀ key id g, (start dispatch).registry.lookup? "Render" key "render" ≠
      some (.method id g) := by
    intro key id g h
    obtain ⟨methods, hmethods, hmethod⟩ := Registry.mem_of_lookup? h
    have hfunction : ∀ e ∈ (start dispatch).registry.table "Render", ∀ b ∈ e.2,
        ∃ id text, b.2 = answering id text := by
      simp [start, Registry.table]
    obtain ⟨_, _, hanswering⟩ := hfunction _ hmethods _ hmethod
    cases hanswering
  exact ⟨Nat.zero_lt_succ 2, fun key id g h => absurd h (hstored key id g),
    fun key g h => absurd h (hstored key 0 g)⟩

end Rendering

open Rendering in
/-- The hints name both arguments in order. -/
theorem dispatch_through_dictionary_pairwise :
    let hints := some [.arg 0, .arg 1]
    (start hints).registry.Leaves (.single "Bool") "Render" (render hints) ∧
      (start hints).Identifies 0 ((render hints).bound "Render") ∧
      ((render hints).bound "Render").ConsidersAll [.int 1, .str "x"] ∧
      ∃ d m', Run.buildDictionary "Render" (.single "Bool") {} (start hints) = .done d m' ∧
        Reduces { name := "render" } {} (calling hints [d]) m'
          (.done (rendered 1 "as an integer") m') := by
  have hall : ((render (some [.arg 0, .arg 1])).bound "Render").ConsidersAll [.int 1, .str "x"] :=
    ⟨rfl, rfl⟩
  refine ⟨leaves _, identifies _, hall, _, _, rfl, ?_⟩
  have hs : ∀ e m, ({} : Setting).breakpoint e m = false := fun _ _ => rfl
  have hcall := (dispatch_through_dictionary hs (leaves _) rfl (identifies _) plainArgs_eq
    (Nat.le_refl 2) { name := "render" }).2 hall
  refine (hcall _).2 ⟨trivial, 2, ?_⟩
  with_unfolding_all rfl

set_option maxRecDepth 1024 in
open Rendering in
/-- The hints name the second argument, a string; in the dictionary they are lost, and the method is
dispatched on the first one, an integer. -/
theorem hints_lost_in_dictionary :
    let hints := some [.arg 1]
    (start hints).registry.Leaves (.single "Bool") "Render" (render hints) ∧
      (start hints).Identifies 0 ((render hints).bound "Render") ∧
      ∃ d m', Run.buildDictionary "Render" (.single "Bool") {} (start hints) = .done d m' ∧
        Reduces { name := "render" } {} (calling hints []) m'
          (.done (rendered 2 "as a string") m') ∧
        Reduces { name := "render" } {} (calling hints [d]) m'
          (.done (rendered 1 "as an integer") m') ∧
        ¬ Reduces { name := "render" } {} (calling hints [d]) m'
          (.done (rendered 2 "as a string") m') := by
  refine ⟨leaves _, identifies _, _, _, rfl, ⟨trivial, 2, by with_unfolding_all rfl⟩, ?_⟩
  have hs : ∀ e m, ({} : Setting).breakpoint e m = false := fun _ _ => rfl
  obtain ⟨id', -, hthrough⟩ := reduces_through_dictionary hs (leaves (some [.arg 1])) rfl
    (identifies (some [.arg 1])).inUse plainArgs_eq (Nat.le_refl 2) { name := "render" }
  have hinteger := (hthrough (.done (rendered 1 "as an integer") _)).2
    ⟨trivial, 2, by with_unfolding_all rfl⟩
  refine ⟨hinteger, fun hstring => ?_⟩
  have hsame := hinteger.unique hstring
  simp [rendered, answering] at hsame

end TraitLang
