import TraitLang.Proofs.StackBalance
import TraitLang.Proofs.ScopeHygiene

/-!
Evidence has a known head. Main statement: in every machine that an interpreter goes through from
its start on, all evidence, in force or captured by closures, has a constructor at its head; so a
type that is expected has one, wherever the expectation comes from, and no method is dispatched on
and no default stored for a type variable.
-/
namespace TraitLang

/-- Evidence has a constructor at its head; code and scopes are as they like. -/
def Policy.known : Policy where
  toRules := .lax
  live _ := True
  evidence ty := ty.constructorName.isSome = true
  evidence_of_known _ _ h := by rw [Ty.constructorName_isSome, h]; rfl

namespace Run.Keeps

variable {P : Policy} {k : ScopeId}

section Registering

variable {native : Native} {defaults : List Value}

theorem newBuiltin (name : String) (hnative : native.Obeys P) (signature : Option Ty)
    (hdefaults : ∀ v ∈ defaults, v.Obeys P) :
    (Interpreter.newBuiltin name native signature defaults).Keeps P k (Value.Obeys P) :=
  bind fresh fun _ _ => pure ((Builtin.obeys_iff _).2 ⟨hnative, hdefaults⟩)

theorem addBuiltin (name : String) (hnative : native.Obeys P) (signature : Option Ty)
    (hdefaults : ∀ v ∈ defaults, v.Obeys P) :
    (Interpreter.addBuiltin name native signature defaults).Keeps P Store.global fun _ => True :=
  bind (newBuiltin name hnative signature hdefaults) fun _ hv => define name hv

end Registering

end Run.Keeps

/-- A trait method is about to be resolved. -/
def Event.isDispatch : Event → Bool
  | dispatch _ => true
  | _ => false

/-- The machine that a computation left behind or was stopped on. -/
def Outcome.machine? {α : Type} : Outcome α → Option Machine
  | .done _ m | .failed _ m | .halted (.breakpoint _ m) => some m
  | .halted .outOfFuel => none

theorem Outcome.Ends.of_machine? {α : Type} {o : Outcome α} {Q : Machine → Prop} {m : Machine}
    (h : o.Ends (fun _ => Q) Q Q) (hm : o.machine? = some m) : Q m := by
  cases o with
  | done a m' => exact Option.some.inj hm ▸ h
  | failed f m' => exact Option.some.inj hm ▸ h
  | halted why =>
    cases why with
    | outOfFuel => cases hm
    | breakpoint e m' => exact Option.some.inj hm ▸ h

namespace Interpreter

namespace Operation

/-- What the embedding program supplies obeys a policy. -/
def Obeys (P : Policy) : Operation → Prop
  | load _ _ | run _ | eval _ _ | takeOutput => True
  | call _ _ args | resolve _ args _ => ∀ v ∈ args, v.Obeys P
  | apply _ callee args _ => callee.Obeys P ∧ ∀ v ∈ args, v.Obeys P
  | defineGlobal _ v | addTraitDefault _ _ v | addInstanceMethod _ _ _ v => v.Obeys P
  | addBuiltin _ native _ defaults => native.Obeys P ∧ ∀ v ∈ defaults, v.Obeys P
  | setHost host => host.Obeys P

/-- The setting in which an operation runs. -/
def setting (s : Setting) : Operation → Setting
  | setHost host => { s with host }
  | _ => s

/-- What an operation runs, with the values that it hands out. -/
def code : Operation → Run (List Value)
  | load fuel p => do
    Run.loading (TraitLang.apply fuel) p
    return []
  | run fuel => return [← Run.callGlobal (TraitLang.apply fuel) "main" []]
  | call fuel name args => return [← Run.callGlobal (TraitLang.apply fuel) name args]
  | eval fuel e => return [← evalValue (TraitLang.apply fuel) {} Store.global e]
  | apply fuel callee args site => return [← TraitLang.apply fuel callee args site]
  | resolve m args site => do
    let r ← Run.resolve m args site
    return r.callee :: r.args
  | defineGlobal name v => do
    Run.define Store.global name v
    return []
  | addBuiltin name native signature defaults => do
    Interpreter.addBuiltin name native signature defaults
    return []
  | addTraitDefault traitName method v => do
    Interpreter.addTraitDefault traitName method v
    return []
  | addInstanceMethod traitName types method v => do
    Run.register (.instanceMethod traitName types method v)
    return []
  | takeOutput => do
    Run.modify fun m => { m with output := "" }
    return []
  | setHost _ => do
    Run.modify fun m => { m with bridge := none, fallback := none }
    return []

/-- A machine that an operation goes through: where it ends, or where some debugger stops it. -/
def Visits (i : Interpreter) (op : Operation) (m : Machine) : Prop :=
  ∃ debugger,
    (op.code (op.setting { i.setting with breakpoint := debugger }) i.machine).machine? = some m

end Operation

theorem exec_map_snd {α β : Type} (i : Interpreter) (x : Run α) (g : α → β) :
    (i.exec (do return g (← x))).2 = (i.exec x).2 := by
  show (i.exec (Run.bind x fun a => Run.pure (g a))).2 = (i.exec x).2
  unfold exec Run.bind
  cases x i.setting i.machine <;> rfl

theorem perform_eq_exec (i : Interpreter) (op : Operation) :
    op.perform i = (exec { i with setting := op.setting i.setting } op.code).2 := by
  cases op with
  | setHost host => rfl
  | _ => exact (exec_map_snd _ _ _).symm

/-- The machine and the host of an interpreter obey a policy. -/
structure Obeys (P : Policy) (i : Interpreter) : Prop where
  machine : i.machine.Obeys P
  host : i.setting.host.Obeys P

theorem Obeys.exec {α : Type} {P : Policy} {A : α → Prop} {i : Interpreter} {x : Run α}
    (hi : i.Obeys P) (hx : x.Keeps P Store.global A) : (i.exec x).2.Obeys P := by
  have h := hx.ends i.setting i.machine 0 (Nat.le_refl 0) (Nat.zero_le _) hi.host hi.machine
  unfold Interpreter.exec
  cases hxm : x i.setting i.machine with
  | done a m => rw [hxm] at h; exact ⟨h.2.obeys, hi.host⟩
  | failed f m => rw [hxm] at h; exact ⟨h.obeys, hi.host⟩
  | halted why => exact hi

/-- With values of known evidence, an operation makes nothing else. -/
theorem Operation.code_keeps {op : Operation} (hop : op.Obeys .known) :
    op.code.Keeps .known Store.global fun vs => ∀ v ∈ vs, v.Obeys .known := by
  have one {x : Run Value} (hx : x.Keeps .known Store.global (Value.Obeys .known)) :
      (do return [← x] : Run (List Value)).Keeps .known Store.global
        fun vs => ∀ v ∈ vs, v.Obeys .known :=
    .bind hx fun v hv => .pure fun w hw => List.mem_singleton.1 hw ▸ hv
  have none {x : Run Unit} (hx : x.Keeps .known Store.global fun _ => True) :
      (do x; return [] : Run (List Value)).Keeps .known Store.global
        fun vs => ∀ v ∈ vs, v.Obeys .known :=
    .bind hx fun _ _ => .pure fun _ hw => absurd hw List.not_mem_nil
  cases op with
  | load fuel p => exact none (.loading rfl trivial (.apply fuel) p.follows_lax)
  | run fuel => exact one (.callGlobal (.apply fuel) _ fun _ hv => absurd hv List.not_mem_nil)
  | call fuel name args => exact one (.callGlobal (.apply fuel) name hop)
  | eval fuel e => exact one (.evalValue (.apply fuel) {} trivial (nodeFollows_lax e))
  | apply fuel callee args site => exact one (.apply fuel hop.1 hop.2 site _)
  | resolve m args site =>
    exact .bind (.resolve rfl m hop site) fun r hr =>
      .pure (List.forall_mem_cons.2 ⟨hr.callee, hr.args⟩)
  | defineGlobal name v => exact none (.define name hop)
  | addBuiltin name native signature defaults => exact none (.addBuiltin name hop.1 signature hop.2)
  | addTraitDefault traitName method v => exact none (.register hop)
  | addInstanceMethod traitName types method v => exact none (.register hop)
  | takeOutput | setHost => exact none (.modify (fun _ h => h.congr rfl rfl rfl) fun _ => rfl)

theorem Operation.host_setting {P : Policy} {op : Operation} (hop : op.Obeys P) {s : Setting}
    (hs : s.host.Obeys P) : (op.setting s).host.Obeys P := by
  cases op with
  | setHost host => exact hop
  | _ => exact hs

theorem Obeys.perform {i : Interpreter} (hi : i.Obeys .known) {op : Operation}
    (hop : op.Obeys .known) : (op.perform i).Obeys .known := by
  rw [perform_eq_exec]
  have hready : Obeys .known { i with setting := op.setting i.setting } :=
    ⟨hi.machine, Operation.host_setting hop hi.host⟩
  exact hready.exec (Operation.code_keeps hop)

/-- The only default of the first builtins is a string. -/
theorem Obeys.registerCore {P : Policy} {i : Interpreter} (hi : i.Obeys P) :
    (i.update registerCore).Obeys P := by
  have hdefaults : ∀ e ∈ CoreNative.globals, ∀ v ∈ e.2.2.2, v.Obeys P := by
    simp [CoreNative.globals]
  unfold update Interpreter.registerCore
  -- any list will do; with these two, unification runs the loops
  generalize CoreNative.globals = globals at hdefaults ⊢
  generalize CoreNative.traitDefaults = traitDefaults
  refine hi.exec (.bind (.forM fun e he => ?_) fun _ _ => .forM fun e _ => ?_)
  · obtain ⟨name, native, signature, defaults⟩ := e
    have hnative : (Native.core native).Obeys P := trivial
    exact .addBuiltin name hnative signature (hdefaults _ he)
  · obtain ⟨traitName, method, native, signature⟩ := e
    have hnative : (Native.core native).Obeys P := trivial
    have hnone : ∀ v ∈ ([] : List Value), v.Obeys P := fun _ hv => absurd hv List.not_mem_nil
    exact .bind (.newBuiltin _ hnative _ hnone) fun v hv => .register hv

theorem obeys_create (limits : Limits) {host : Host} (hhost : host.Obeys .known) :
    (create limits host).Obeys .known := by
  have hempty : ({} : Machine).Obeys .known := by
    refine ⟨trivial, ⟨fun _ => trivial, fun _ _ _ => trivial, fun {id scope name v} _ hid hv => ?_⟩,
      ⟨fun hv => ?_, fun hf => ?_, fun hv => ?_⟩, fun f hf => ?_⟩
    · cases id with
      | zero => cases hid; cases hv
      | succ id => cases hid
    · cases hv
    · cases hf
    · cases hv
    · cases hf
  exact Obeys.registerCore ⟨hempty, hhost⟩

/-- Interpreters that an embedding program can get, supplying no evidence but such as is known. -/
inductive Reachable (limits : Limits) (host : Host) : Interpreter → Prop where
  | new : Reachable limits host (create limits host)
  | step {i : Interpreter} {op : Operation} : Reachable limits host i → op.Obeys .known →
      Reachable limits host (op.perform i)

theorem Reachable.obeys {limits : Limits} {host : Host} {i : Interpreter}
    (h : Reachable limits host i) (hhost : host.Obeys .known) : i.Obeys .known := by
  induction h with
  | new => exact obeys_create limits hhost
  | step _ hop ih => exact ih.perform hop

end Interpreter

/-- All evidence on the machine has a constructor at its head, and so has every type that dispatch
goes by. -/
structure Machine.Informed (m : Machine) : Prop where
  /-- captured by closures in scopes, instances and defaults -/
  captured : m.Obeys .known
  inForce : ∀ f ∈ m.witnesses.toList, ∀ e ∈ f.entries, e.2.constructorName.isSome
  lookup : ∀ {key ty}, m.witnesses.lookup key = some ty → ty.constructorName.isSome
  expected : ∀ {hints method site ty source},
    ({ m with hints } : Machine).expectedType method site = some (ty, source) →
      ty.constructorName.isSome
  /-- what the key of a default is made from -/
  fallback : ∀ {hints method args site fb ty source},
    ({ m with hints } : Machine).select method args site = .inr fb →
      fb.context = some (ty, source) → ty.constructorName.isSome

theorem Machine.Obeys.withHints {P : Policy} {m : Machine} (h : m.Obeys P) (hints : Hints) :
    ({ m with hints } : Machine).Obeys P := h.congr rfl rfl rfl

theorem Machine.Obeys.informed {m : Machine} (h : m.Obeys .known) : m.Informed where
  captured := h
  inForce f hf := (h.witnesses f hf).evidence
  lookup := WitnessStack.evidence_of_lookup h.witnesses
  expected hty := (h.withHints _).evidence_of_expectedType rfl hty
  fallback hselect hcontext := by
    rw [context_of_select hselect] at hcontext
    exact (h.withHints _).evidence_of_expectedType rfl hcontext

namespace Interpreter

/-- From a new interpreter on, on every machine that operations go through all evidence has a
constructor at its head, and so has what they hand out, given that what the embedding program
supplies does. -/
theorem evidence_known {limits : Limits} {host : Host} (hhost : host.Obeys .known)
    {i : Interpreter} (hi : Reachable limits host i) :
    i.machine.Informed ∧ ∀ op : Operation, op.Obeys .known →
      (∀ m, op.Visits i m → m.Informed) ∧
      ∀ vs m, op.code (op.setting i.setting) i.machine = .done vs m → ∀ v ∈ vs, v.Obeys .known := by
  have hobeys := hi.obeys hhost
  refine ⟨hobeys.machine.informed, fun op hop => ⟨fun m ⟨debugger, hm⟩ => ?_, fun vs m hdone => ?_⟩⟩
  · have h := (Operation.code_keeps hop).ends (op.setting { i.setting with breakpoint := debugger })
      i.machine 0 (Nat.le_refl 0) (Nat.zero_le _) (Operation.host_setting hop hobeys.host)
      hobeys.machine
    have hends : Outcome.Ends _ _ _ _ := Outcome.Ends.imp h (fun _ _ h => h.2.obeys)
      (fun _ h => h.obeys) fun _ => id
    exact (hends.of_machine? hm).informed
  · have h := (Operation.code_keeps hop).ends (op.setting i.setting) i.machine 0 (Nat.le_refl 0)
      (Nat.zero_le _) (Operation.host_setting hop hobeys.host) hobeys.machine
    rw [hdone] at h
    exact h.1

/-- A function of type `Box` that calls a trait method without parameters. -/
def boxing : AnalyzedProgram where
  program := {
    file := ""
    items := [
      .traitDecl { name := "Make", methods := [{ name := "make", arity := 0, dispatch := none }] },
      .func { (default : Func) with
        name := "box", retTy := some (.con "Box")
        body := ⟨.call 0 ⟨.var "make", {}⟩ [], {}⟩ }] }
  hints := {}

/-- Where the method is dispatched, the declared result of the function is in force and is what the
call is expected to give. -/
theorem evidence_known_boxing :
    let i := Operation.perform (create {} {}) (.load 5 boxing)
    let op : Operation := .call 5 "box" []
    Reachable {} {} i ∧ op.Obeys .known ∧ ∃ m, op.Visits i m ∧
      m.expectedType { traitName := "Make", method := "make", arity := 0 } { name := "make" } =
        some (.con "Box", .resultWitness) ∧ m.Informed := by
  intro i op
  have hi : Reachable {} {} i := .step .new trivial
  have hop : op.Obeys .known := fun _ hv => absurd hv List.not_mem_nil
  have hexpected : ((op.code (op.setting { i.setting with breakpoint := fun e _ => e.isDispatch })
      i.machine).machine?.bind fun m => m.expectedType
        { traitName := "Make", method := "make", arity := 0 } { name := "make" }) =
      some (.con "Box", .resultWitness) := by decide +kernel
  obtain ⟨m, hm, hexpected⟩ := Option.bind_eq_some_iff.1 hexpected
  have hvisits : op.Visits i m := ⟨_, hm⟩
  exact ⟨hi, hop, m, hvisits, hexpected,
    ((evidence_known Host.obeys_default hi).2 op hop).1 m hvisits⟩

end Interpreter

end TraitLang
