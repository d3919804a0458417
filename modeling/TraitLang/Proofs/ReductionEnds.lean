import TraitLang.Proofs.KnownEvidence
import TraitLang.Proofs.RegistryFrame

/-!
Reducing a callee comes to an end. Dictionaries may hold partial applications, receivers and trait
methods, which may hold dictionaries in turn, so a step can make the argument list longer and
dispatch again; but every step uses up a callable that was part of the callee or of an argument.
Main statement: if what is registered for instances are functions and builtins, as it is unless the
embedding program adds something else, reducing any callee ends with a failure, with a partial
application of a trait method or with something that runs directly.
-/
namespace TraitLang

namespace Value

/-- A function or a builtin. -/
def isDirect : Value → Bool
  | function _ _ | builtin _ => true
  | _ => false

/-- A step of reduction goes on from a partial application, a receiver and a trait method. -/
def isReducible : Value → Bool
  | partialApp _ _ _ _ | bound _ _ _ | method _ _ => true
  | _ => false

end Value

mutual

/-- The number of partial applications, receivers and trait methods that reducing can come upon in
a callee or an argument. -/
def Value.weight : Value → Nat
  | .partialApp _ callee args _ => callee.weight + weightAll args + 1
  | .bound _ callee receiver => callee.weight + receiver.weight + 1
  | .method _ _ => 1
  | .dictionary d => d.weight
  | _ => 0

def Dictionary.weight : Dictionary → Nat
  | ⟨_, _, _, methods, supers⟩ => weightAll methods + weightSupers supers

def weightAll : List Value → Nat
  | [] => 0
  | v :: vs => v.weight + weightAll vs

def weightSupers : List Dictionary → Nat
  | [] => 0
  | d :: ds => d.weight + weightSupers ds

end

theorem weightAll_append (vs ws : List Value) :
    weightAll (vs ++ ws) = weightAll vs + weightAll ws := by
  induction vs with
  | nil => simp [weightAll]
  | cons v vs ih => simp [weightAll, ih, Nat.add_assoc]

theorem Value.weight_le_of_mem {v : Value} {vs : List Value} (h : v ∈ vs) :
    v.weight ≤ weightAll vs := by
  induction vs with
  | nil => cases h
  | cons w vs ih =>
    rw [weightAll]
    rcases List.mem_cons.1 h with rfl | h
    · omega
    · have := ih h
      omega

theorem Value.weight_of_isDirect {v : Value} (h : v.isDirect = true) : v.weight = 0 := by
  cases v <;> simp_all [isDirect, weight]

namespace Dictionary

variable {d d' : Dictionary}

theorem weight_eq (d : Dictionary) : d.weight = weightAll d.methods + weightSupers d.supers := by
  obtain ⟨_, _, _, methods, supers⟩ := d
  rw [weight]

theorem weight_le_of_mem {ds : List Dictionary} (h : d ∈ ds) : d.weight ≤ weightSupers ds := by
  induction ds with
  | nil => cases h
  | cons e ds ih =>
    rw [weightSupers]
    rcases List.mem_cons.1 h with rfl | h
    · omega
    · have := ih h
      omega

theorem Contains.weight_le (h : d.Contains d') : d'.weight ≤ d.weight := by
  induction h with
  | refl => exact Nat.le_refl _
  | @super d sup d' hsup _ ih =>
    have hle := weight_le_of_mem hsup
    have heq := d.weight_eq
    omega

end Dictionary

/-- A method that a dictionary yields is part of it. -/
theorem Registry.FoundIn.weight_le {r : Registry} {traitName method : String} {d : Dictionary}
    {v : Value} (h : r.FoundIn traitName method d v) : v.weight ≤ d.weight := by
  obtain ⟨d', i, hcontains, -, -, hi⟩ := h
  have hmethod := Value.weight_le_of_mem (List.mem_of_getElem? hi)
  have heq := d'.weight_eq
  have hle := hcontains.weight_le
  omega

/-- What is registered for instances and as defaults are functions and builtins. -/
structure Registry.Direct (r : Registry) : Prop where
  method : ∀ {traitName key method v}, r.lookup? traitName key method = some v →
    v.isDirect = true
  builtinDefault : ∀ {traitName method v}, r.builtinDefault? traitName method = some v →
    v.isDirect = true

namespace Registry.Direct

variable {r : Registry}

theorem addMethod (h : r.Direct) {v : Value} (hv : v.isDirect = true) (traitName : String)
    (key : TypeKey) (method : String) : (r.addMethod traitName key method v).Direct := by
  refine ⟨fun hw => ?_, h.builtinDefault⟩
  rw [lookup?_addMethod] at hw
  split at hw
  · exact Option.some.inj hw ▸ hv
  · exact h.method hw

theorem addInstance (h : r.Direct) (traitName : String) (key : TypeKey) :
    (r.addInstance traitName key).Direct :=
  ⟨fun hv => h.method (lookup?_addInstance r traitName key _ _ _ ▸ hv), h.builtinDefault⟩

theorem addBuiltinDefault (h : r.Direct) {v : Value} (hv : v.isDirect = true)
    (traitName method : String) : (r.addBuiltinDefault traitName method v).Direct := by
  refine ⟨h.method, fun hw => ?_⟩
  rw [builtinDefault?_addBuiltinDefault] at hw
  split at hw
  · exact Option.some.inj hw ▸ hv
  · exact h.builtinDefault hw

theorem of_loads {r' : Registry} (h : r.Direct) (hloads : r.Loads r') : r'.Direct := by
  cases hloads with
  | absorb | declare => exact ⟨h.method, h.builtinDefault⟩
  | addInstance traitName key => exact h.addInstance traitName key
  | addMethod traitName key method => exact h.addMethod rfl traitName key method

end Registry.Direct

/-- Native functions that register functions and builtins only, whatever else they do. -/
def Powers.registeringDirect : Powers where
  defines := True
  changes r r' := r.Direct → r'.Direct
  loads := True
  defines_of_loads := id
  changes_of_loads _ _ _ hloads h := h.of_loads hloads

theorem Effect.direct {n : Nat} {m m' : Machine} (h : Effect .registeringDirect n m m')
    (hm : m.registry.Direct) : m'.registry.Direct := by
  induction h with
  | trans _ _ ih₁ ih₂ => exact ih₂ (ih₁ hm)
  | materialize m traitName method key id f _ => exact hm.addMethod rfl traitName key method
  | change m r hchange => exact hchange hm
  | _ => exact hm

namespace Machine.Resolves

variable {mach mach' : Machine} {s : Setting} {g : ClassMethod} {args : List Value}
  {site : CallSite} {route : Route} {r : Resolution}

theorem direct (h : mach.Resolves g args site route r mach') (hm : mach.registry.Direct) :
    mach'.registry.Direct := by
  cases h with
  | userDefault =>
    rename_i fb f _ _
    unfold withDefault
    cases mach.registry.defaultKey g fb with
    | none => exact hm
    | some place => exact hm.addMethod rfl _ _ _
  | _ => exact hm

/-- What a method is resolved to comes out of a dictionary that is used up, or is a function or a
builtin. -/
theorem weight_le (h : mach.Resolves g args site route r mach') (hm : mach.registry.Direct) :
    r.callee.weight + weightAll r.args ≤ weightAll args := by
  obtain ⟨dropped, rfl, hjustified, -⟩ := h.justified
  have hdirect (hcallee : r.callee.isDirect = true) : r.callee.weight = 0 :=
    Value.weight_of_isDirect hcallee
  rw [weightAll_append]
  cases route with
  | dictionary =>
    obtain ⟨d, hd, hfound⟩ := hjustified
    have hmem := Value.weight_le_of_mem (List.mem_map_of_mem (f := Value.dictionary) hd)
    rw [Value.weight] at hmem
    have hle := hfound.weight_le
    omega
  | evidence | context | argument =>
    obtain ⟨key, hkey⟩ := hjustified
    have := hdirect (hm.method hkey)
    omega
  | userDefault =>
    obtain ⟨f, id, -, hcallee⟩ := hjustified
    have := hdirect (by rw [hcallee]; rfl)
    omega
  | builtinDefault =>
    have := hdirect (hm.builtinDefault hjustified)
    omega

end Machine.Resolves

/-- The outcome is a failure or a value that satisfies `P`; nothing cut the computation short. -/
def Outcome.Finishes {α : Type} (P : α → Machine → Prop) : Outcome α → Prop
  | .done a m => P a m
  | .failed _ _ => True
  | .halted _ => False

namespace Run

variable {α σ : Type} {s : Setting}

/-- A loop whose steps finish and make a measure smaller ends, with the same outcome for any fuel
above the measure. -/
theorem iterate_finishes {step : σ → Run (σ ⊕ α)} {I : Machine → Prop} {μ : σ → Nat} {Q : α → Prop}
    (hstep : ∀ x m, I m → (step x s m).Finishes fun r m' =>
      Sum.elim (fun y => I m' ∧ μ y < μ x) Q r)
    (x : σ) (m : Machine) (hm : I m) :
    ∃ o : Outcome α, (o.Finishes fun a _ => Q a) ∧
      ∀ fuel, μ x < fuel → iterate step fuel x s m = o := by
  induction hn : μ x using Nat.strongRecOn generalizing x m with
  | _ n ih =>
    have hfinishes := hstep x m hm
    -- one unit of fuel is for this step, the rest for the loop that follows
    have unfold_step (fuel : Nat) (hfuel : n < fuel) : ∃ rest, fuel = rest + 1 ∧ n ≤ rest :=
      ⟨fuel - 1, by omega, by omega⟩
    cases hx : step x s m with
    | halted why => rw [hx] at hfinishes; cases hfinishes
    | failed f m' =>
      refine ⟨.failed f m', trivial, fun fuel hfuel => ?_⟩
      obtain ⟨rest, rfl, -⟩ := unfold_step fuel hfuel
      rw [iterate, hx]
    | done r m' =>
      rw [hx] at hfinishes
      cases r with
      | inr a =>
        refine ⟨.done a m', hfinishes, fun fuel hfuel => ?_⟩
        obtain ⟨rest, rfl, -⟩ := unfold_step fuel hfuel
        rw [iterate, hx]
      | inl y =>
        obtain ⟨hm', hlt⟩ := hfinishes
        obtain ⟨o, ho, heq⟩ := ih (μ y) (hn ▸ hlt) y m' hm' rfl
        refine ⟨o, ho, fun fuel hfuel => ?_⟩
        obtain ⟨rest, rfl, hrest⟩ := unfold_step fuel hfuel
        rw [iterate, hx]
        exact heq rest (by omega)

/-- Resolving finishes where no debugger stops it. -/
theorem resolve_finishes (hs : ∀ e m, s.breakpoint e m = false) (g : ClassMethod)
    (args : List Value) (site : CallSite) (m : Machine) :
    (resolve g args site s m).Finishes fun r m' =>
      ∃ route, m.Resolves g args site route r m' := by
  have hcases := resolve_cases g args site s m
  cases hresolve : resolve g args site s m with
  | done r m' => rw [hresolve] at hcases; exact hcases
  | failed f m' => trivial
  | halted why =>
    rw [resolve_eq (hs _ _)] at hresolve
    cases hselect : m.select g args site with
    | inl r => simp [hselect] at hresolve
    | inr fb =>
      cases huser : m.registry.userDefault? g.traitName g.method with
      | some f => simp [hselect, resolveDefault_user huser] at hresolve
      | none =>
        cases hbuiltin : m.registry.builtinDefault? g.traitName g.method with
        | some callee => simp [hselect, resolveDefault_builtin huser hbuiltin] at hresolve
        | none => simp [hselect, resolveDefault_none huser hbuiltin] at hresolve

end Run

/-- Reducing has come to an end: the callee runs directly, or a trait method waits for arguments. -/
inductive Reduced.Final : Reduced → Prop where
  | call {p : Pending} : p.callee.isReducible = false → Final (.call p)
  | short (id id' : Ident) (g : ClassMethod) (args : List Value) (remaining : Nat) :
      Final (.short (.partialApp id (.method id' g) args remaining))

def Pending.weight (p : Pending) : Nat := p.callee.weight + weightAll p.args

/-- Every step that is not the last one lowers the weight. -/
theorem Run.reduceStep_finishes {s : Setting} (hs : ∀ e m, s.breakpoint e m = false)
    (site : CallSite) (p : Pending) (m : Machine) (hm : m.registry.Direct) :
    (reduceStep site p s m).Finishes fun r m' =>
      Sum.elim (fun q : Pending => m'.registry.Direct ∧ q.weight < p.weight) Reduced.Final r := by
  obtain ⟨callee, args, witness⟩ := p
  cases callee with
  | partialApp id callee first remaining =>
    refine ⟨hm, ?_⟩
    simp only [Pending.weight, Value.weight, weightAll_append]
    omega
  | bound id callee receiver =>
    refine ⟨hm, ?_⟩
    simp only [Pending.weight, Value.weight, weightAll]
    omega
  | method id g =>
    unfold reduceStep
    dsimp only
    split
    · exact .short _ _ _ _ _
    · have hresolves := resolve_finishes hs g args site m
      cases hresolve : resolve g args site s m with
      | halted why => rw [hresolve] at hresolves; cases hresolves
      | failed f m' => rw [bind_of_failed hresolve]; trivial
      | done r m' =>
        rw [hresolve] at hresolves
        obtain ⟨route, hroute⟩ := hresolves
        rw [bind_of_done hresolve]
        split
        · trivial
        · refine ⟨hroute.direct hm, ?_⟩
          have hle := hroute.weight_le hm
          simp only [Pending.weight, Value.weight]
          omega
  | _ => exact .call rfl

namespace Run

variable {α β : Type} {W : Powers} {I : Machine → Prop}

/-- Given native functions with the powers `W`, a property of the machine that holds before the
computation holds after it, however it returns. -/
structure Preserves (W : Powers) (I : Machine → Prop) (x : Run α) : Prop where
  ends : ∀ s m, s.host.Within W → I m → (x s m).Ends (fun _ => I) I fun _ => True

namespace Preserves

theorem of_restores (hI : ∀ {m m'}, Effect W 0 m m' → I m → I m') {x : Run α}
    (hx : x.Restores W (fun s _ _ => s.host.Within W) 0) : x.Preserves W I :=
  ⟨fun s m hs hm => Outcome.Ends.imp (hx s m 0 (Nat.le_refl 0) (Nat.zero_le _) hs)
    (fun _ _ h => hI h hm) (fun _ h => hI h hm) fun _ _ => trivial⟩

theorem pure (a : α) : (pure a : Run α).Preserves W I := ⟨fun _ _ _ hm => hm⟩

theorem bind {x : Run α} {f : α → Run β} (hx : x.Preserves W I) (hf : ∀ a, (f a).Preserves W I) :
    (x >>= f).Preserves W I :=
  ⟨fun s m hs hm => Ends.bind (hx.ends s m hs hm) (fun a m₁ => (hf a).ends s m₁ hs) fun _ h => h⟩

theorem modify {f : Machine → Machine} (hf : ∀ m, I m → I (f m)) : (modify f).Preserves W I :=
  ⟨fun _ m _ hm => hf m hm⟩

theorem forM {f : α → Run Unit} {as : List α} (hf : ∀ a ∈ as, (f a).Preserves W I) :
    (as.forM f).Preserves W I := by
  induction as with
  | nil => exact pure ()
  | cons a as ih =>
    obtain ⟨ha, has⟩ := List.forall_mem_cons.1 hf
    exact bind ha fun _ => ih has

end Preserves

end Run

theorem Interpreter.exec_preserves {α : Type} {W : Powers} {I : Machine → Prop} {i : Interpreter}
    {x : Run α} (hx : x.Preserves W I) (hhost : i.setting.host.Within W) (hi : I i.machine) :
    I (i.exec x).2.machine := by
  have h := hx.ends i.setting i.machine hhost hi
  unfold exec
  cases hxm : x i.setting i.machine with
  | done a m => rw [hxm] at h; exact h
  | failed f m => rw [hxm] at h; exact h
  | halted why => exact hi

/-- The registry of the machine holds functions and builtins. -/
def Machine.Direct (m : Machine) : Prop := m.registry.Direct

namespace Interpreter

/-- The embedding program registers functions and builtins only. -/
def Operation.RegistersDirect : Operation → Prop
  | addTraitDefault _ _ v | addInstanceMethod _ _ _ v => v.isDirect = true
  | setHost host => host.Within .registeringDirect
  | _ => True

theorem register_direct {r : Registration} (hr : r.Within .registeringDirect) :
    (Run.register r).Preserves .registeringDirect Machine.Direct :=
  .of_restores Effect.direct (.register hr)

theorem addBuiltin_direct (name : String) (native : Native) (signature : Option Ty)
    (defaults : List Value) :
    (addBuiltin name native signature defaults).Preserves .registeringDirect Machine.Direct :=
  .of_restores Effect.direct
    (.bind (.bind .fresh fun _ => .pure _) fun v => .defineIn (.inr trivial) name v)

theorem Operation.code_direct {op : Operation} (hop : op.RegistersDirect) :
    op.code.Preserves .registeringDirect Machine.Direct := by
  have always (fuel : Nat) := Run.Restores.apply (W := .registeringDirect)
    (B := fun s _ _ => s.host.Within .registeringDirect) id (fun h _ => h.holds) fuel
  have ofEffects {α : Type} {x : Run α} {f : α → List Value}
      (hx : x.Restores .registeringDirect (fun s _ _ => s.host.Within .registeringDirect) 0) :
      (do return f (← x) : Run (List Value)).Preserves .registeringDirect Machine.Direct :=
    .bind (.of_restores Effect.direct hx) fun _ => .pure _
  cases op with
  | load fuel p => exact ofEffects (.loading (always fuel) trivial p)
  | run fuel => exact ofEffects (.callGlobal (always fuel) _ _)
  | call fuel name args => exact ofEffects (.callGlobal (always fuel) name args)
  | eval fuel e => exact ofEffects (.evalValue (always fuel) _ _ e)
  | apply fuel callee args site => exact ofEffects (always fuel callee args site 0)
  | resolve m args site => exact ofEffects (.resolve m args site)
  | defineGlobal name v => exact ofEffects (.defineIn (.inr trivial) name v)
  | addBuiltin name native signature defaults =>
    exact .bind (addBuiltin_direct name native signature defaults) fun _ => .pure _
  | addTraitDefault traitName method v =>
    exact .bind (register_direct fun _ h => h.addBuiltinDefault hop _ _) fun _ => .pure _
  | addInstanceMethod traitName types method v =>
    exact .bind (register_direct fun _ h => h.addMethod hop _ _ _) fun _ => .pure _
  | takeOutput | setHost => exact .bind (.modify fun _ h => h) fun _ => .pure _

theorem addCoreDefault_direct (traitName method : String) (native : CoreNative) (signature : Ty) :
    (addCoreDefault traitName method native signature).Preserves .registeringDirect
      Machine.Direct := by
  simp only [addCoreDefault, newBuiltin, bind_assoc, pure_bind]
  exact .bind ⟨fun _ _ _ hm => hm⟩ fun _ => register_direct fun _ h => h.addBuiltinDefault rfl _ _

theorem create_direct (limits : Limits) {host : Host} (hhost : host.Within .registeringDirect) :
    (create limits host).machine.Direct := by
  have hempty : ({} : Machine).Direct := by
    constructor
    · intro traitName key method v h
      cases h
    · intro traitName method v h
      cases h
  unfold create update registerCore
  generalize CoreNative.globals = globals
  generalize CoreNative.traitDefaults = traitDefaults
  refine exec_preserves (.bind (.forM fun e _ => ?_) fun _ => .forM fun e _ => ?_) hhost hempty
  · exact addBuiltin_direct _ _ _ _
  · exact addCoreDefault_direct _ _ _ _

theorem foldl_perform_direct {ops : List Operation} (hops : ∀ op ∈ ops, op.RegistersDirect)
    {i : Interpreter} (hhost : i.setting.host.Within .registeringDirect) (hi : i.machine.Direct) :
    (ops.foldl Operation.perform i).machine.Direct := by
  induction ops generalizing i with
  | nil => exact hi
  | cons op ops ih =>
    obtain ⟨hop, hops⟩ := List.forall_mem_cons.1 hops
    have hready : (op.setting i.setting).host.Within .registeringDirect := by
      cases op with
      | setHost host => exact hop
      | _ => exact hhost
    refine ih hops ?_ ?_
    · rw [perform_eq_exec, setting_exec]
      exact hready
    · rw [perform_eq_exec]
      exact exec_preserves (Operation.code_direct hop) hready hi

end Interpreter

/-- Reducing a callee ends, for any arguments, dictionaries in them included, and at any call site,
in a number of steps that their weight bounds, if functions and builtins are all that is registered
for instances: with a failure, a partial application of a trait method, or a callee that is neither
a partial application nor a receiver with its callable nor a trait method. Nothing else is
registered, whatever is loaded and run, unless the embedding program or its native functions add
it. -/
theorem reduction_ends :
    (∀ (s : Setting) (m : Machine), (∀ e m, s.breakpoint e m = false) → m.registry.Direct →
      ∀ callee args site, ∃ o : Outcome Reduced, (o.Finishes fun r _ => r.Final) ∧
        ∀ fuel, callee.weight + weightAll args < fuel →
          Run.reduce fuel callee args site s m = o) ∧
    ∀ limits (host : Host) (ops : List Interpreter.Operation), host.Within .registeringDirect →
      (∀ op ∈ ops, op.RegistersDirect) → (ops.foldl Interpreter.Operation.perform
        (Interpreter.create limits host)).machine.registry.Direct := by
  constructor
  · intro s m hs hm callee args site
    have hstep (p : Pending) (m : Machine) (hm : m.registry.Direct) :=
      Run.reduceStep_finishes hs site p m hm
    exact Run.iterate_finishes hstep { callee, args } m hm
  · intro limits host ops hhost hops
    refine Interpreter.foldl_perform_direct hops ?_ (Interpreter.create_direct limits hhost)
    rw [Interpreter.create, Interpreter.update, Interpreter.setting_exec]
    exact hhost

namespace Nesting

def pick : ClassMethod := { traitName := "Pick", method := "pick", arity := 2 }

def inner : Dictionary := ⟨1, "Pick", none, [.operator .add], []⟩

/-- The method is partly applied, has a receiver and is dispatched again, on that receiver. -/
def outer : Dictionary :=
  ⟨2, "Pick", none, [.partialApp 3 (.bound 4 (.method 5 pick) (.dictionary inner)) [] 2], []⟩

def args : List Value := [.dictionary outer, .int 1, .int 2]

def start : Machine where
  registry := { methodOrder := [("Pick", ["pick"])] }
  nextIdent := 6

theorem direct : start.registry.Direct := by
  constructor
  · intro traitName key method v h
    cases h
  · intro traitName method v h
    cases h

/-- A builtin for the trait, then a program. -/
def operations : List Interpreter.Operation :=
  [.addTraitDefault "Pick" "pick" (.builtin ⟨0, "pick", .host "pick", none, []⟩),
    .load 5 Interpreter.boxing]

end Nesting

open Nesting in
/-- A trait method is dispatched twice, on a dictionary inside a dictionary. -/
theorem reduction_ends_nesting :
    (start.registry.Direct ∧ (Value.method 0 pick).weight + weightAll args = 4 ∧
      ∀ fuel, 4 < fuel → Run.reduce fuel (.method 0 pick) args { name := "pick" } {} start =
        .done (.call { callee := .operator .add, args := [.int 1, .int 2] }) start) ∧
    (operations.foldl Interpreter.Operation.perform
      (Interpreter.create {} {})).machine.registry.Direct := by
  have hweight : (Value.method 0 pick).weight + weightAll args = 4 := by decide
  obtain ⟨o, -, ho⟩ := reduction_ends.1 {} start (fun _ _ => rfl) direct (.method 0 pick) args
    { name := "pick" }
  rw [hweight] at ho
  refine ⟨⟨direct, hweight, fun fuel hfuel => ?_⟩,
    reduction_ends.2 {} {} operations Host.within_default ?_⟩
  · rw [ho fuel hfuel, ← ho 5 (Nat.lt_succ_self 4)]
    rfl
  · exact List.forall_mem_cons.2 ⟨rfl, List.forall_mem_singleton.2 trivial⟩

end TraitLang
