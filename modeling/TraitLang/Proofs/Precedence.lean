import TraitLang.Proofs.Resolution

/-!
What decides first cannot be overruled. Main statement: where the dictionaries in front of the
arguments yield a method, nothing else of an interpreter matters but the order of methods and the
aliases of types; where the evidence in force decides for a method without parameters, nothing
matters that says which type the caller expects.
-/
namespace TraitLang

namespace Registry

/-- A dictionary that is passed over: a placeholder, or one whose method does not take the rest of
the arguments. -/
def PassesOver (r : Registry) (m : ClassMethod) (d : Dictionary) (rest : List Value) : Prop :=
  d.isPlaceholder = true ∨
    ∃ v, r.methodIn? m.traitName m.method d = some v ∧ r.acceptsArgs v rest = false

/-- The dictionaries in front of the arguments yield a method: the first one that is not passed over
has a method that takes the rest. -/
inductive Yields (r : Registry) (m : ClassMethod) : List Value → Value → List Value → Prop where
  | here {d : Dictionary} {v : Value} {rest : List Value} : d.isPlaceholder = false →
      r.methodIn? m.traitName m.method d = some v → r.acceptsArgs v rest = true →
      Yields r m (.dictionary d :: rest) v rest
  | later {d : Dictionary} {args : List Value} {v : Value} {rest : List Value} :
      r.PassesOver m d args → Yields r m args v rest → Yields r m (.dictionary d :: args) v rest

/-- Registries that list the methods of traits in the same order and know the same aliases. -/
structure AgreeOnNames (r r' : Registry) : Prop where
  methodNames : ∀ traitName, r.methodNames traitName = r'.methodNames traitName
  aliasTarget? : ∀ name, r.aliasTarget? name = r'.aliasTarget? name

variable {r r' : Registry} {m : ClassMethod} {args rest : List Value} {v : Value}

theorem yields_of_byDictionary (h : r.byDictionary m args = (some v, rest)) :
    r.Yields m args v rest := by
  fun_induction byDictionary r m args with
  | case1 d args hplaceholder ih => exact .later (.inl hplaceholder) (ih h)
  | case2 d args hplaceholder hnone => cases h
  | case3 d args hplaceholder found hsome haccepts =>
    cases h
    exact .here (by simpa using hplaceholder) hsome haccepts
  | case4 d args hplaceholder found hsome haccepts ih =>
    exact .later (.inr ⟨found, hsome, by simpa using haccepts⟩) (ih h)
  | case5 args hargs => cases h

theorem Yields.byDictionary (h : r.Yields m args v rest) :
    r.byDictionary m args = (some v, rest) := by
  induction h with
  | here hplaceholder hsome haccepts =>
    simp [Registry.byDictionary, hplaceholder, hsome, haccepts]
  | @later d args v rest hpass _ ih =>
    by_cases hplaceholder : d.isPlaceholder = true
    · simp [Registry.byDictionary, hplaceholder, ih]
    · obtain ⟨found, hsome, haccepts⟩ := hpass.resolve_left hplaceholder
      simp [Registry.byDictionary, hplaceholder, hsome, haccepts, ih]

/-- If no dictionary decides, some of the arguments are left for the rest of the search. -/
theorem exists_byDictionary_none (h : ∀ v rest, ¬ r.Yields m args v rest) :
    ∃ rest, r.byDictionary m args = (none, rest) := by
  rcases hdict : r.byDictionary m args with ⟨found?, rest⟩
  cases found? with
  | none => exact ⟨rest, rfl⟩
  | some found => exact absurd (yields_of_byDictionary hdict) (h found rest)

namespace AgreeOnNames

mutual

theorem methodIn? (h : r.AgreeOnNames r') (traitName method : String) :
    ∀ d : Dictionary, r.methodIn? traitName method d = r'.methodIn? traitName method d
  | ⟨_, name, _, methods, supers⟩ => by
    rw [Registry.methodIn?, Registry.methodIn?, h.methodNames,
      methodInAny? h traitName method supers]

theorem methodInAny? (h : r.AgreeOnNames r') (traitName method : String) :
    ∀ ds : List Dictionary,
      r.methodInAny? traitName method ds = r'.methodInAny? traitName method ds
  | [] => by rw [Registry.methodInAny?, Registry.methodInAny?]
  | d :: ds => by
    rw [Registry.methodInAny?, Registry.methodInAny?, methodIn? h traitName method d,
      methodInAny? h traitName method ds]

end

theorem acceptsArgs (h : r.AgreeOnNames r') (callee : Value) (args : List Value) :
    r.acceptsArgs callee args = r'.acceptsArgs callee args := by
  have haccepts : r.typeAccepts = r'.typeAccepts := by
    funext ty v
    simp only [typeAccepts, h.aliasTarget?]
  simp only [Registry.acceptsArgs, haccepts]

theorem byDictionary (h : r.AgreeOnNames r') (m : ClassMethod) (args : List Value) :
    r.byDictionary m args = r'.byDictionary m args := by
  induction args with
  | nil => rfl
  | cons v args ih =>
    cases v with
    | dictionary d => simp only [Registry.byDictionary, h.methodIn?, h.acceptsArgs, ih]
    | _ => rfl

end AgreeOnNames

theorem lookupWithAlias?_direct {traitName method : String} {key : TypeKey}
    (h : r.lookup? traitName key method = some v) :
    r.lookupWithAlias? traitName key method = some v := by
  simp [lookupWithAlias?, h]

theorem lookupWithAlias?_alias {traitName method name target : String}
    (hdirect : r.lookup? traitName (.single name) method = none)
    (halias : r.aliasTarget? name = some target)
    (htarget : r.lookup? traitName (.single target) method = some v) :
    r.lookupWithAlias? traitName (.single name) method = some v := by
  have hparts : (TypeKey.single name).parts = [name] := rfl
  simp [lookupWithAlias?, hdirect, hparts, halias, htarget]

end Registry

namespace Machine

/-- The evidence in force for the trait names an instance that has the method, directly or through
an alias. -/
inductive Evidences (mach : Machine) (m : ClassMethod) : Value → Prop where
  | direct {ty : Ty} {v : Value} : mach.witnesses.lookup m.traitName = some ty →
      mach.registry.lookup? m.traitName (.ofTypes [ty]) m.method = some v → Evidences mach m v
  | throughAlias {ty : Ty} {name target : String} {v : Value} :
      mach.witnesses.lookup m.traitName = some ty → TypeKey.ofTypes [ty] = .single name →
      mach.registry.lookup? m.traitName (.single name) m.method = none →
      mach.registry.aliasTarget? name = some target →
      mach.registry.lookup? m.traitName (.single target) m.method = some v → Evidences mach m v

variable {mach : Machine} {m : ClassMethod} {args rest : List Value} {v : Value}

theorem Evidences.witnessCandidate? (h : mach.Evidences m v) (harity : m.arity = 0) :
    mach.witnessCandidate? m = some v := by
  cases h with
  | direct hty hlookup =>
    simp [Machine.witnessCandidate?, harity, hty, Registry.lookupWithAlias?_direct hlookup]
  | throughAlias hty hkey hdirect halias htarget =>
    simp [Machine.witnessCandidate?, harity, hty, hkey,
      Registry.lookupWithAlias?_alias hdirect halias htarget]

theorem select_of_dictionary (h : mach.registry.byDictionary m args = (some v, rest))
    (site : CallSite) :
    mach.select m args site = .inl { callee := v, args := rest } := by
  simp only [select, h]

theorem select_of_evidence (hdict : mach.registry.byDictionary m args = (none, rest))
    (hevidence : mach.witnessCandidate? m = some v) (site : CallSite) :
    mach.select m args site = .inl { callee := v, args := rest } := by
  simp only [select, hdict, hevidence]

end Machine

namespace Run

/-- Where no debugger stops the run, resolving comes down to the selection. -/
theorem resolve_eq {s : Setting} {mach : Machine} {m : ClassMethod}
    (hs : s.breakpoint (.dispatch m) mach = false) (args : List Value) (site : CallSite) :
    resolve m args site s mach =
      (mach.select m args site).elim (.done · mach) (resolveDefault m · s mach) := by
  have hreach : reach (.dispatch m) s mach = .done () mach := by simp [reach, hs]
  rw [resolve, bind_of_done hreach, machine_bind]
  cases mach.select m args site <;> rfl

end Run

namespace Interpreter

/-- No debugger stops what the interpreter runs. -/
def Unwatched (i : Interpreter) : Prop := ∀ e m, i.setting.breakpoint e m = false

/-- What is selected without a default is the result, and the interpreter stays as it is. -/
theorem resolve_of_select {i : Interpreter} (hi : i.Unwatched) {m : ClassMethod}
    {args : List Value} {site : CallSite} {r : Resolution}
    (h : i.machine.select m args site = .inl r) :
    i.resolve m args site = (some (.ok r), i) := by
  have hrun : Run.resolve m args site i.setting i.machine = .done r i.machine := by
    rw [Run.resolve_eq (hi _ _), h, Sum.elim_inl]
  simp only [resolve, exec, hrun]

/-- A method that the dictionaries in front of the arguments yield is the outcome in any two
interpreters with the same orders of methods and the same aliases, at any call sites: stacks,
instances, defaults and hints do not count. A method without parameters that no dictionary decides
is what the evidence in force names, whatever container, type context, annotation, node or node type
says of the expected type. -/
theorem resolve_precedence {i j : Interpreter} (hi : i.Unwatched) (hj : j.Unwatched)
    (m : ClassMethod) (args : List Value) :
    (∀ {v rest}, i.machine.registry.Yields m args v rest →
      i.machine.registry.AgreeOnNames j.machine.registry → ∀ site site',
        i.resolve m args site = (some (.ok { callee := v, args := rest }), i) ∧
        j.resolve m args site' = (some (.ok { callee := v, args := rest }), j)) ∧
    (m.arity = 0 → (∀ v rest, ¬ i.machine.registry.Yields m args v rest) →
      ∀ {v}, i.machine.Evidences m v → j.machine.registry = i.machine.registry →
        j.machine.witnesses = i.machine.witnesses → ∃ rest, ∀ site site',
          i.resolve m args site = (some (.ok { callee := v, args := rest }), i) ∧
          j.resolve m args site' = (some (.ok { callee := v, args := rest }), j)) := by
  constructor
  · intro v rest hyields hagree site site'
    have hdict := hyields.byDictionary
    have hdict' : j.machine.registry.byDictionary m args = (some v, rest) := by
      rw [← hagree.byDictionary, hdict]
    exact ⟨resolve_of_select hi (Machine.select_of_dictionary hdict site),
      resolve_of_select hj (Machine.select_of_dictionary hdict' site')⟩
  · intro harity hnone v hevidences hregistry hwitnesses
    obtain ⟨rest, hdict⟩ := Registry.exists_byDictionary_none hnone
    have hcandidate := hevidences.witnessCandidate? harity
    have hcandidate' : j.machine.witnessCandidate? m = some v := by
      rw [← hcandidate, Machine.witnessCandidate?, hregistry, hwitnesses, Machine.witnessCandidate?]
    refine ⟨rest, fun site site' => ⟨?_, ?_⟩⟩
    · exact resolve_of_select hi (Machine.select_of_evidence hdict hcandidate site)
    · rw [← hregistry] at hdict
      exact resolve_of_select hj (Machine.select_of_evidence hdict hcandidate' site')

namespace Deciding

def join : ClassMethod := { traitName := "Join", method := "join", arity := 2 }

/-- Joins two values of one type. -/
def joining (type : String) : Value :=
  .builtin
    { id := 0, name := "join", native := .host "join"
      signature := some (.fn [.con type, .con type] (.con type)), defaults := [] }

def dictionaryOf (id : Ident) (method : Value) : Value :=
  .dictionary ⟨id, "Join", none, [method], []⟩

/-- A placeholder, a dictionary for strings and one for integers, then two integers. -/
def args : List Value :=
  [.dictionary (.placeholder 1 "Join"), dictionaryOf 2 (joining "String"),
    dictionaryOf 3 (joining "Int"), .int 1, .int 2]

/-- Knows no instances. -/
def blank : Interpreter where
  setting := {}
  machine := { registry := { methodOrder := [("Join", ["join"])] } }

/-- Has an instance for integers and expects a list. -/
def settled : Interpreter where
  setting := {}
  machine :=
    { registry :=
        { methodOrder := [("Join", ["join"])]
          instances := [("Join", [(.single "Int", [("join", joining "Float")])])] }
      hints := { nodeTypes := [(7, .con "String")] }
      containers := ⟨#["List"]⟩ }

def empty : ClassMethod := { traitName := "Monoid", method := "empty", arity := 0 }

/-- There is evidence for an alias of strings, and a type may be expected. -/
def expecting (containers : Stack String) : Interpreter where
  setting := {}
  machine :=
    { registry :=
        { instances := [("Monoid", [(.single "List", [("empty", .list [])]),
            (.single "String", [("empty", .str "")])])]
          aliases := [("Text", .con "String")] }
      witnesses := ⟨#[.single "Monoid" (.con "Text")]⟩
      containers }

theorem yields_args : blank.machine.registry.Yields join args (joining "Int") [.int 1, .int 2] :=
  .later (.inl rfl) (.later (.inr ⟨joining "String", rfl, rfl⟩) (.here rfl rfl rfl))

theorem evidences_empty (containers : Stack String) :
    (expecting containers).machine.Evidences empty (.str "") :=
  @Machine.Evidences.throughAlias _ _ (.con "Text") "Text" "String" _ rfl rfl rfl rfl rfl

end Deciding

open Deciding in
/-- The third dictionary overrules the instance for integers, and evidence for strings overrules a
list that is expected. -/
theorem resolve_precedence_deciding :
    (blank.resolve join args { name := "join" } =
        (some (.ok { callee := joining "Int", args := [.int 1, .int 2] }), blank) ∧
      settled.resolve join args { name := "other", node := some 7 } =
        (some (.ok { callee := joining "Int", args := [.int 1, .int 2] }), settled)) ∧
    ∃ rest, ∀ site site',
      (expecting {}).resolve empty [] site =
        (some (.ok { callee := .str "", args := rest }), expecting {}) ∧
      (expecting ⟨#["List"]⟩).resolve empty [] site' =
        (some (.ok { callee := .str "", args := rest }), expecting ⟨#["List"]⟩) := by
  have hagree : blank.machine.registry.AgreeOnNames settled.machine.registry :=
    ⟨fun _ => rfl, fun _ => rfl⟩
  have hnone : ∀ v rest, ¬ (expecting {}).machine.registry.Yields empty [] v rest := by
    intro v rest h
    cases h
  constructor
  · exact (resolve_precedence (i := blank) (j := settled) (fun _ _ => rfl) (fun _ _ => rfl)
      join args).1 yields_args hagree _ _
  · exact (resolve_precedence (fun _ _ => rfl) (fun _ _ => rfl) empty []).2 rfl hnone
      (evidences_empty {}) rfl rfl

end Interpreter

end TraitLang
