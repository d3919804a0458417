import TraitLang.Proofs.ReductionEnds
import TraitLang.Proofs.RegistryFrame
import TraitLang.Proofs.SuperTraits

/-!
Traits that are declared more than once. The methods of a trait are those of its last declaration;
without a hint, the order of its dictionaries is that of its first one. Main statement: after any
number of loads, the dictionary of an instance has a method exactly if the first declaration has it,
so it decides all methods of the trait exactly if the last declaration has no other ones.
-/
namespace TraitLang

/-- The declaration of the trait that an item is, if it is one. -/
def Item.declarations (traitName : String) : Item → List TraitDef
  | .traitDecl t => if t.name = traitName then [t] else []
  | _ => []

/-- The declarations of a trait in a program, in order. -/
def AnalyzedProgram.declarations (traitName : String) (p : AnalyzedProgram) : List TraitDef :=
  p.program.items.flatMap (Item.declarations traitName)

def TraitDef.methodNames (t : TraitDef) : List String := t.methods.map TraitMethod.name

/-- The methods of the first declaration of a trait. -/
def firstDeclared (ds : List TraitDef) : List String :=
  (ds.head?.map TraitDef.methodNames).getD []

/-- The methods of the last declaration of a trait. -/
def lastDeclared (ds : List TraitDef) : List String :=
  (ds.getLast?.map TraitDef.methodNames).getD []

namespace Registry

/-- What is known of a trait after its declarations `ds`: the methods of the last one, in the order
of the first one. -/
structure Declares (r : Registry) (traitName : String) (ds : List TraitDef) : Prop where
  traits : r.traits.lookup traitName = ds.getLast?.map TraitDef.methods
  methodOrder : r.methodOrder.lookup traitName = ds.head?.map TraitDef.methodNames

namespace Declares

variable {r r' : Registry} {traitName : String} {ds : List TraitDef}

theorem congr (h : r.Declares traitName ds) (htraits : r'.traits = r.traits)
    (horder : r'.methodOrder = r.methodOrder) : r'.Declares traitName ds :=
  ⟨htraits ▸ h.traits, horder ▸ h.methodOrder⟩

/-- Hints that do not order the methods of a trait leave it alone. -/
theorem absorb (h : r.Declares traitName ds) {hints : Hints}
    (hhints : traitName ∉ Assoc.keys hints.methodOrder) :
    (r.absorb hints).Declares traitName ds := by
  refine ⟨h.traits, ?_⟩
  have hnone : hints.methodOrder.reverse.lookup traitName = none := by
    rw [← Option.not_isSome_iff_eq_none]
    intro hsome
    exact hhints (by simpa [Assoc.keys] using Assoc.contains_eq_true_iff.1 hsome)
  rw [Registry.absorb, Assoc.lookup_insertAll, hnone, Option.none_or, h.methodOrder]

theorem declare (h : r.Declares traitName ds) (t : TraitDef) :
    (r.declare t).Declares traitName (ds ++ Item.declarations traitName (.traitDecl t)) := by
  by_cases hname : t.name = traitName
  · subst hname
    constructor
    · simp [Registry.declare, Item.declarations]
    · cases ds with
      | nil =>
        have hnew : Assoc.contains t.name r.methodOrder = false := by
          simp [Assoc.contains, h.methodOrder]
        simp [Registry.declare, Item.declarations, hnew, TraitDef.methodNames]
      | cons first ds =>
        -- the order is fixed since the first declaration
        have hfixed : Assoc.contains t.name r.methodOrder = true := by
          simp [Assoc.contains, h.methodOrder]
        simp [Registry.declare, hfixed, h.methodOrder]
  · have hother : traitName ≠ t.name := fun heq => hname heq.symm
    rw [Item.declarations, if_neg hname, List.append_nil]
    constructor
    · rw [Registry.declare, Assoc.lookup_insert_of_ne hother, h.traits]
    · rw [Registry.declare]
      split
      · exact h.methodOrder
      · rw [Assoc.lookup_insert_of_ne hother, h.methodOrder]

end Declares

end Registry

/-- Native functions that load no programs, whatever else they do. -/
def Powers.withoutLoad : Powers where
  defines := True
  changes r r' := r'.traits = r.traits ∧ r'.methodOrder = r.methodOrder
  loads := False
  defines_of_loads := False.elim
  changes_of_loads := False.elim

theorem Effect.declares {traitName : String} {ds : List TraitDef} {n : Nat} {m m' : Machine}
    (h : Effect .withoutLoad n m m') (hm : m.registry.Declares traitName ds) :
    m'.registry.Declares traitName ds := by
  induction h with
  | trans _ _ ih₁ ih₂ => exact ih₂ (ih₁ hm)
  | materialize m => exact hm.congr rfl rfl
  | change m r hchange => exact hm.congr hchange.1 hchange.2
  | _ => exact hm

namespace Run

variable {α β : Type} {traitName : String}

/-- The computation ends with a value and adds declarations of the trait. -/
structure AddsDeclarations (traitName : String) (new : List TraitDef) (x : Run α) : Prop where
  ends : ∀ s m ds, m.registry.Declares traitName ds →
    ∃ a m', x s m = .done a m' ∧ m'.registry.Declares traitName (ds ++ new)

namespace AddsDeclarations

theorem pure (a : α) : (pure a : Run α).AddsDeclarations traitName [] :=
  ⟨fun _ m ds h => ⟨a, m, rfl, (List.append_nil ds).symm ▸ h⟩⟩

theorem bind {x : Run α} {f : α → Run β} {new new' : List TraitDef}
    (hx : x.AddsDeclarations traitName new) (hf : ∀ a, (f a).AddsDeclarations traitName new') :
    (x >>= f).AddsDeclarations traitName (new ++ new') := by
  refine ⟨fun s m ds h => ?_⟩
  obtain ⟨a, m₁, hrun, h₁⟩ := hx.ends s m ds h
  obtain ⟨b, m₂, hrun', h₂⟩ := (hf a).ends s m₁ (ds ++ new) h₁
  exact ⟨b, m₂, (bind_of_done hrun).trans hrun', List.append_assoc ds new new' ▸ h₂⟩

theorem forM {f : α → Run Unit} {new : α → List TraitDef}
    (hf : ∀ a, (f a).AddsDeclarations traitName (new a)) (as : List α) :
    (as.forM f).AddsDeclarations traitName (as.flatMap new) := by
  induction as with
  | nil => exact pure ()
  | cons a as ih => exact bind (hf a) fun _ => ih

/-- Steps that declare nothing can be repeated. -/
theorem forM_nil {f : α → Run Unit} (hf : ∀ a, (f a).AddsDeclarations traitName []) (as : List α) :
    (as.forM f).AddsDeclarations traitName [] := by
  have h := forM hf as
  rwa [List.flatMap_eq_nil_iff.2 fun _ _ => rfl] at h

theorem fresh : fresh.AddsDeclarations traitName [] :=
  ⟨fun _ m ds h => ⟨m.nextIdent, _, rfl, (List.append_nil ds).symm ▸ h⟩⟩

theorem define (scope : ScopeId) (name : String) (v : Value) :
    (define scope name v).AddsDeclarations traitName [] :=
  ⟨fun _ _ ds h => ⟨(), _, rfl, (List.append_nil ds).symm ▸ h⟩⟩

theorem registry {f : Registry → Registry} {new : List TraitDef}
    (hf : ∀ r ds, r.Declares traitName ds → (f r).Declares traitName (ds ++ new)) :
    (modify fun m => { m with registry := f m.registry }).AddsDeclarations traitName new :=
  ⟨fun _ m ds h => ⟨(), _, rfl, hf m.registry ds h⟩⟩

/-- Instances and their methods are no declarations. -/
theorem instances {f : Registry → Registry} (htraits : ∀ r, (f r).traits = r.traits)
    (horder : ∀ r, (f r).methodOrder = r.methodOrder) :
    (modify fun m => { m with registry := f m.registry }).AddsDeclarations traitName [] :=
  registry fun r ds h => (List.append_nil ds).symm ▸ h.congr (htraits r) (horder r)

/-- An item adds its own declaration. -/
theorem declare (item : Item) :
    (declare item).AddsDeclarations traitName (item.declarations traitName) := by
  cases item with
  | func f => exact bind fresh fun _ => define _ _ _
  | data d =>
    refine forM_nil (fun c => ?_) _
    split
    · exact define _ _ _
    · exact bind fresh fun _ => define _ _ _
  | traitDecl t =>
    rw [← List.append_nil (Item.declarations traitName (.traitDecl t))]
    exact bind (registry fun _ _ h => h.declare t) fun _ =>
      forM_nil (fun _ => bind fresh fun _ => define _ _ _) _
  | inst d =>
    refine bind (instances (f := fun r => r.addInstance d.traitName _) (fun _ => rfl) fun _ => rfl)
      fun _ => forM_nil (fun f => bind fresh fun _ => ?_) _
    exact instances (f := fun r => r.addMethod d.traitName _ f.name _) (fun _ => rfl) fun _ => rfl
  | const c => exact pure ()

end AddsDeclarations

end Run

namespace Interpreter

variable {traitName : String} {ds : List TraitDef}

theorem defineConst_preserves (fuel : Nat) (item : Item) :
    (Run.defineConst (TraitLang.apply fuel) item).Preserves .withoutLoad fun m =>
      m.registry.Declares traitName ds := by
  have always := Run.Restores.apply (W := .withoutLoad)
    (B := fun s _ _ => s.host.Within .withoutLoad) id (fun h _ => h.holds) fuel
  cases item with
  | const c =>
    exact .bind (.of_restores Effect.declares (.evalValue always _ _ _)) fun v =>
      .modify fun _ h => h
  | _ => exact .pure ()

/-- A program adds its declarations, also where one of its constants fails. -/
theorem loading_declares (fuel : Nat) {p : AnalyzedProgram}
    (hhints : traitName ∉ Assoc.keys p.hints.methodOrder) {s : Setting}
    (hs : s.host.Within .withoutLoad) {m : Machine} (h : m.registry.Declares traitName ds) :
    (Run.loading (TraitLang.apply fuel) p s m).Ends
      (fun _ m' => m'.registry.Declares traitName (ds ++ p.declarations traitName))
      (fun m' => m'.registry.Declares traitName (ds ++ p.declarations traitName))
      fun _ => True := by
  let absorbed : Machine :=
    { m with
      file := if p.program.file.isEmpty then m.file else p.program.file
      hints := p.hints
      registry := m.registry.absorb p.hints }
  obtain ⟨a, m₁, hrun, h₁⟩ := (Run.AddsDeclarations.forM Run.AddsDeclarations.declare
    p.program.items).ends s absorbed ds (h.absorb hhints)
  have hconsts : (p.program.items.forM (Run.defineConst (TraitLang.apply fuel))).Preserves
      .withoutLoad fun m => m.registry.Declares traitName (ds ++ p.declarations traitName) :=
    .forM fun item _ => defineConst_preserves fuel item
  have hrest : Run.loading (TraitLang.apply fuel) p s m =
      p.program.items.forM (Run.defineConst (TraitLang.apply fuel)) s m₁ :=
    Run.bind_of_done hrun
  rw [hrest]
  exact hconsts.ends s m₁ hs h₁

theorem exec_machine {α : Type} {P : Machine → Prop} {i : Interpreter} {x : Run α}
    (h : (x i.setting i.machine).Ends (fun _ => P) P fun _ => True)
    (hresult : (i.exec x).1.isSome = true) : P (i.exec x).2.machine := by
  unfold exec at hresult ⊢
  cases hxm : x i.setting i.machine with
  | done a m => rw [hxm] at h; exact h
  | failed f m => rw [hxm] at h; exact h
  | halted why => rw [hxm] at hresult; cases hresult

/-- The operation loads no program, nor do native functions that come with it. -/
def Operation.LoadsNothing : Operation → Prop
  | load _ _ => False
  | setHost host => host.Within .withoutLoad
  | _ => True

/-- Only loads declare traits. -/
theorem perform_declares {i : Interpreter} (hhost : i.setting.host.Within .withoutLoad)
    (h : i.machine.registry.Declares traitName ds) {op : Operation} (hop : op.LoadsNothing) :
    (op.perform i).machine.registry.Declares traitName ds := by
  have always (fuel : Nat) := Run.Restores.apply (W := .withoutLoad)
    (B := fun s _ _ => s.host.Within .withoutLoad) id (fun h _ => h.holds) fuel
  have running {α : Type} {x : Run α}
      (hx : x.Restores .withoutLoad (fun s _ _ => s.host.Within .withoutLoad) 0) :
      (i.exec x).2.machine.registry.Declares traitName ds :=
    exec_preserves (I := fun m => m.registry.Declares traitName ds)
      (.of_restores Effect.declares hx) hhost h
  cases op with
  | load fuel p => exact hop.elim
  | run fuel => exact running (.callGlobal (always fuel) _ _)
  | call fuel name args => exact running (.callGlobal (always fuel) name args)
  | eval fuel e => exact running (.evalValue (always fuel) {} Store.global e)
  | apply fuel callee args site => exact running (always fuel callee args site 0)
  | resolve m args site => exact running (.resolve m args site)
  | addTraitDefault traitName method v => exact h.congr rfl rfl
  | addInstanceMethod traitName types method v => exact h.congr rfl rfl
  | _ => exact h

/-- The first builtins come without declarations. -/
theorem create_declares (limits : Limits) {host : Host} (hhost : host.Within .withoutLoad) :
    (create limits host).machine.registry.Declares traitName [] := by
  unfold create update registerCore
  -- any list will do; with these two, unification runs the loops
  generalize CoreNative.globals = globals
  generalize CoreNative.traitDefaults = traitDefaults
  have hfresh : Run.fresh.Preserves .withoutLoad fun m => m.registry.Declares traitName [] :=
    ⟨fun _ _ _ h => h⟩
  refine exec_preserves (I := fun m => m.registry.Declares traitName [])
    (.bind (.forM fun e _ => ?_) fun _ => .forM fun e _ => ?_) hhost ⟨rfl, rfl⟩
  · exact .bind (.bind hfresh fun _ => .pure _) fun _ => .modify fun _ h => h
  · exact .bind (.bind hfresh fun _ => .pure _) fun _ => .modify fun _ h => h.congr rfl rfl

/-- Programs were loaded into a new interpreter, one after the other and each with a result,
whatever else was done with it in between, short of loads by native functions. -/
inductive Loaded (limits : Limits) (host : Host) : List AnalyzedProgram → Interpreter → Prop where
  | new : Loaded limits host [] (create limits host)
  | load {ps : List AnalyzedProgram} {i : Interpreter} (fuel : Nat) (p : AnalyzedProgram) :
      Loaded limits host ps i → (i.load fuel p).1.isSome = true →
      Loaded limits host (ps ++ [p]) (i.load fuel p).2
  | other {ps : List AnalyzedProgram} {i : Interpreter} (op : Operation) :
      Loaded limits host ps i → op.LoadsNothing → Loaded limits host ps (op.perform i)

theorem Loaded.host_within {limits : Limits} {host : Host} {ps : List AnalyzedProgram}
    {i : Interpreter} (h : Loaded limits host ps i) (hhost : host.Within .withoutLoad) :
    i.setting.host.Within .withoutLoad := by
  induction h with
  | new =>
    rw [create, update, setting_exec]
    exact hhost
  | load fuel p _ _ ih =>
    rw [Interpreter.load, setting_exec]
    exact ih
  | other op _ hop ih =>
    rw [perform_eq_exec, setting_exec]
    cases op with
    | setHost host => exact hop
    | _ => exact ih

theorem Loaded.declares {limits : Limits} {host : Host} {ps : List AnalyzedProgram}
    {i : Interpreter} (h : Loaded limits host ps i) (hhost : host.Within .withoutLoad)
    (hhints : ∀ p ∈ ps, traitName ∉ Assoc.keys p.hints.methodOrder) :
    i.machine.registry.Declares traitName
      (ps.flatMap (AnalyzedProgram.declarations traitName)) := by
  induction h with
  | new => exact create_declares limits hhost
  | load fuel p hbefore hresult ih =>
    obtain ⟨hps, hp⟩ := List.forall_mem_append.1 hhints
    rw [List.flatMap_append, List.flatMap_singleton]
    refine exec_machine (P := fun m => m.registry.Declares traitName _) ?_ hresult
    exact loading_declares fuel (hp p List.mem_cons_self) (hbefore.host_within hhost) (ih hps)
  | other op hbefore hop ih =>
    exact perform_declares (hbefore.host_within hhost) (ih hhints) hop

end Interpreter

namespace Registry

variable {r : Registry} {key : TypeKey} {traitName : String} {d : Dictionary}

/-- The dictionary of an instance has exactly the methods in the order of its trait. -/
theorem Covers.methodIn?_isSome_iff (h : r.Covers key traitName d) (method : String) :
    (r.methodIn? traitName method d).isSome = true ↔ method ∈ r.methodNames traitName := by
  constructor
  · intro hsome
    obtain ⟨v, hv⟩ := Option.isSome_iff_exists.1 hsome
    obtain ⟨d', i, -, -, hi, -⟩ := foundIn_of_methodIn? r traitName method d hv
    exact List.mem_of_getElem? (getElem?_of_findIdx? hi)
  · intro hmethod
    rw [← h.traitName_eq] at hmethod ⊢
    exact methodIn?_isSome hmethod d h.lists (.refl d)

namespace Declares

variable {ds : List TraitDef}

theorem methodNames_eq (h : r.Declares traitName ds) :
    r.methodNames traitName = firstDeclared ds := by
  rw [methodNames, h.methodOrder]
  rfl

theorem traitMethod?_isSome_iff (h : r.Declares traitName ds) (method : String) :
    (r.traitMethod? traitName method).isSome = true ↔ method ∈ lastDeclared ds := by
  unfold traitMethod? lastDeclared
  rw [h.traits]
  cases ds.getLast? with
  | none => simp
  | some t => simp [TraitDef.methodNames]

end Declares

/-- A dictionary without the method ends the search and stays where it is. -/
theorem byDictionary_of_absent {c : ClassMethod} {rest : List Value}
    (hplaceholder : d.isPlaceholder = false)
    (habsent : r.methodIn? c.traitName c.method d = none) :
    r.byDictionary c (.dictionary d :: rest) = (none, .dictionary d :: rest) := by
  simp [byDictionary, hplaceholder, habsent]

theorem byDictionary_of_accepts {c : ClassMethod} {rest : List Value} {v : Value}
    (hplaceholder : d.isPlaceholder = false)
    (hfound : r.methodIn? c.traitName c.method d = some v)
    (haccepts : r.acceptsArgs v rest = true) :
    r.byDictionary c (.dictionary d :: rest) = (some v, rest) := by
  simp [byDictionary, hplaceholder, hfound, haccepts]

end Registry

/-- Where there is an instance, a dictionary is built that has exactly the methods in the order of
the trait. -/
theorem Run.buildDictionary_methods {traitName : String} {key : TypeKey} {m : Machine}
    (hinst : m.registry.hasInstance traitName key = true) (s : Setting) :
    ∃ d m', buildDictionary traitName key s m = .done d m' ∧ m'.registry = m.registry ∧
      d.isPlaceholder = false ∧
      ∀ method, (m'.registry.methodIn? traitName method d).isSome = true ↔
        method ∈ m.registry.methodNames traitName := by
  obtain ⟨d, m', hbuilt⟩ := buildDictionary_done (s := s) hinst
  obtain ⟨after, hsearches, rfl⟩ := searches_of_buildDictionary hbuilt
  have hcovers := hsearches.covers
  have hkey := (hcovers.lists d (.refl d)).key_eq
  exact ⟨d, _, hbuilt, rfl, by simp [Dictionary.isPlaceholder, hkey],
    hcovers.methodIn?_isSome_iff⟩

namespace Interpreter

/-- After programs were loaded without hints on the order of a trait, and by no native function, the
methods of the trait are those of its last declaration. The dictionary of an instance can be built
and has exactly the methods of the first declaration, so it has all methods of the trait exactly if
the last declaration added none. In a call that passes it, it decides a method that it has, given
arguments that this takes, and has no say in any other. -/
theorem dictionary_follows_first_declaration {limits : Limits} {host : Host}
    (hhost : host.Within .withoutLoad) {ps : List AnalyzedProgram} {i : Interpreter}
    (hloaded : Loaded limits host ps i) {traitName : String}
    (hhints : ∀ p ∈ ps, traitName ∉ Assoc.keys p.hints.methodOrder) :
    let ds := ps.flatMap (AnalyzedProgram.declarations traitName)
    (∀ method, (i.machine.registry.traitMethod? traitName method).isSome = true ↔
      method ∈ lastDeclared ds) ∧
    ∀ key, i.machine.registry.hasInstance traitName key = true → ∃ d m',
      Run.buildDictionary traitName key i.setting i.machine = .done d m' ∧
      (∀ method, (m'.registry.methodIn? traitName method d).isSome = true ↔
        method ∈ firstDeclared ds) ∧
      ((∀ method, (m'.registry.traitMethod? traitName method).isSome = true →
        (m'.registry.methodIn? traitName method d).isSome = true) ↔
          lastDeclared ds ⊆ firstDeclared ds) ∧
      ∀ (c : ClassMethod) (rest : List Value), c.traitName = traitName →
        (c.method ∉ firstDeclared ds →
          m'.registry.byDictionary c (.dictionary d :: rest) = (none, .dictionary d :: rest)) ∧
        (c.method ∈ firstDeclared ds → ∃ v,
          m'.registry.methodIn? traitName c.method d = some v ∧
          (m'.registry.acceptsArgs v rest = true →
            m'.registry.byDictionary c (.dictionary d :: rest) = (some v, rest))) := by
  intro ds
  have hdeclares := hloaded.declares hhost hhints
  refine ⟨hdeclares.traitMethod?_isSome_iff, fun key hinst => ?_⟩
  obtain ⟨d, m', hbuilt, hregistry, hplaceholder, hmethods⟩ :=
    Run.buildDictionary_methods hinst i.setting
  rw [hdeclares.methodNames_eq] at hmethods
  refine ⟨d, m', hbuilt, hmethods, ?_, ?_⟩
  · have hlast (method : String) :
        (m'.registry.traitMethod? traitName method).isSome = true ↔ method ∈ lastDeclared ds := by
      rw [hregistry, hdeclares.traitMethod?_isSome_iff]
    simp only [hmethods, hlast]
    exact Iff.rfl
  · rintro c rest rfl
    refine ⟨fun habsent => ?_, fun hpresent => ?_⟩
    · rw [← hmethods, Option.not_isSome_iff_eq_none] at habsent
      exact Registry.byDictionary_of_absent hplaceholder habsent
    · obtain ⟨v, hv⟩ := Option.isSome_iff_exists.1 ((hmethods c.method).2 hpresent)
      exact ⟨v, hv, Registry.byDictionary_of_accepts hplaceholder hv⟩

namespace Editions

/-- A function of one parameter that returns a text. -/
def answering (name answer : String) : Func :=
  ⟨name, [⟨"x", none, none, false⟩], none, [], [], ⟨.lit (.str answer), {}⟩, {}⟩

/-- A declaration of the trait, with instances for integers and strings that define one method. -/
def edition (methods : List String) (name : String) : AnalyzedProgram where
  program := {
    file := ""
    items := [
      .traitDecl
        { name := "Render"
          methods := methods.map fun name => { name, arity := 1, dispatch := none } },
      .inst
        { traitName := "Render", types := [.con "Int"]
          methods := [answering name "for integers"] },
      .inst
        { traitName := "Render", types := [.con "String"]
          methods := [answering name "for strings"] }] }

/-- Loads one program after another. -/
def loadAll (ps : List AnalyzedProgram) : Interpreter :=
  ps.foldl (fun i p => (i.load 5 p).2) (create {} {})

/-- The method, called on a string with the dictionary for integers. -/
def callOn (method : String) : Spanned Expr :=
  ⟨.call 0 ⟨.var method, {}⟩ [⟨.dict "Render" [.con "Int"], {}⟩, ⟨.lit (.str "x"), {}⟩], {}⟩

def textOf (result : Option (Except Fault Value) × Interpreter) : Option String :=
  result.1.bind fun r => r.toOption.map Value.text

theorem loaded (p q : AnalyzedProgram)
    (hp : ((create {} {}).load 5 p).1.isSome = true)
    (hq : ((loadAll [p]).load 5 q).1.isSome = true) : Loaded {} {} [p, q] (loadAll [p, q]) :=
  .load 5 q (.load 5 p .new hp) hq

/-- The second declaration has the methods of the first one in another order. -/
def reordered : List AnalyzedProgram :=
  [edition ["label", "render"] "label", edition ["render", "label"] "render"]

/-- The second declaration adds a method. -/
def extended : List AnalyzedProgram :=
  [edition ["label"] "label", edition ["label", "render"] "render"]

end Editions

open Editions in
theorem dictionary_follows_first_declaration_reordered :
    Loaded {} {} reordered (loadAll reordered) ∧
      (∀ p ∈ reordered, "Render" ∉ Assoc.keys p.hints.methodOrder) ∧
      (loadAll reordered).machine.registry.hasInstance "Render" (.single "Int") = true ∧
      ∃ d m', Run.buildDictionary "Render" (.single "Int") (loadAll reordered).setting
          (loadAll reordered).machine = .done d m' ∧
        ∀ method, (m'.registry.traitMethod? "Render" method).isSome = true →
          (m'.registry.methodIn? "Render" method d).isSome = true := by
  have hloaded : Loaded {} {} reordered (loadAll reordered) :=
    loaded _ _ (by decide +kernel) (by decide +kernel)
  have hhints : ∀ p ∈ reordered, "Render" ∉ Assoc.keys p.hints.methodOrder := by decide +kernel
  have hinst : (loadAll reordered).machine.registry.hasInstance "Render" (.single "Int") =
      true := by decide +kernel
  obtain ⟨d, m', hbuilt, -, hall, -⟩ :=
    (dictionary_follows_first_declaration Host.within_default hloaded hhints).2 (.single "Int")
      hinst
  exact ⟨hloaded, hhints, hinst, d, m', hbuilt, hall.2 (by decide +kernel)⟩

open Editions in
/-- The method that the second declaration adds belongs to the trait, but the dictionary for
integers does not have it, and a call that passes this dictionary gets the method for strings. -/
theorem dictionary_lacks_added_method :
    Loaded {} {} extended (loadAll extended) ∧
      (∀ p ∈ extended, "Render" ∉ Assoc.keys p.hints.methodOrder) ∧
      ((loadAll extended).machine.registry.traitMethod? "Render" "render").isSome = true ∧
      (∃ d m', Run.buildDictionary "Render" (.single "Int") (loadAll extended).setting
          (loadAll extended).machine = .done d m' ∧
        m'.registry.methodIn? "Render" "render" d = none) ∧
      textOf ((loadAll extended).eval 5 (callOn "label")) = some "for integers" ∧
      textOf ((loadAll extended).eval 5 (callOn "render")) = some "for strings" := by
  have hloaded : Loaded {} {} extended (loadAll extended) :=
    loaded _ _ (by decide +kernel) (by decide +kernel)
  have hhints : ∀ p ∈ extended, "Render" ∉ Assoc.keys p.hints.methodOrder := by decide +kernel
  have hinst : (loadAll extended).machine.registry.hasInstance "Render" (.single "Int") =
      true := by decide +kernel
  have hadded : "render" ∉ (loadAll extended).machine.registry.methodNames "Render" := by
    decide +kernel
  have hlabel : textOf ((loadAll extended).eval 5 (callOn "label")) = some "for integers" := by
    decide +kernel
  have hrender : textOf ((loadAll extended).eval 5 (callOn "render")) = some "for strings" := by
    decide +kernel
  have hmethod : ((loadAll extended).machine.registry.traitMethod? "Render" "render").isSome =
      true := by decide +kernel
  obtain ⟨d, m', hbuilt, -, -, hmethods⟩ :=
    Run.buildDictionary_methods hinst (loadAll extended).setting
  rw [← hmethods, Option.not_isSome_iff_eq_none] at hadded
  exact ⟨hloaded, hhints, hmethod, ⟨d, m', hbuilt, hadded⟩, hlabel, hrender⟩

end Interpreter

end TraitLang
