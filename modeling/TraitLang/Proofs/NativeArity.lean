import TraitLang.Proofs.Currying
import TraitLang.Proofs.SoundStops

/-!
Builtins get as many arguments as they declare. Main statement: wherever a run invokes the native
part of a builtin with a function type, there is an argument for each parameter: those supplied,
then the defaults of the parameters left out. So a comparison always has two values to compare.
-/
namespace TraitLang

theorem plainArgs_dictionaries_append (dicts : List Dictionary) (args : List Value) :
    plainArgs (dicts.map .dictionary ++ args) = plainArgs args := by
  induction dicts with
  | nil => rfl
  | cons d dicts ih =>
    rw [List.map_cons, List.cons_append, plainArgs_cons_dictionary rfl, ih]

theorem Builtin.arity_of_signature {b : Builtin} {params : List Ty} {result : Ty}
    (h : b.signature = some (.fn params result)) : b.arity = some params.length := by
  rw [arity, h]
  rfl

/-- A native function is about to be invoked. -/
def Event.isNative : Event → Bool
  | native _ _ => true
  | _ => false

namespace Interpreter

open Run

/-- Natively, in any setting and on any machine, the builtin is invoked with this many arguments. -/
theorem Operation.length_of_native {b : Builtin} {n : Nat} (harity : b.arity = some n)
    {op : Operation} {s : Setting} {m m' : Machine} {args : List Value}
    (h : op.code s m = .halted (.breakpoint (.native b args) m')) : args.length = n :=
  have htakes : b.Takes args := Operation.sound_of_code_eq h
  htakes n harity

section CoreDefaults

/-- The builtin that is registered for a default with this trait, method, native and type. -/
def coreDefault (e : String × String × CoreNative × Ty) (id : Ident) : Builtin :=
  { id, name := e.1 ++ "." ++ e.2.1, native := .core e.2.2.1, signature := some e.2.2.2,
    defaults := [] }

def addCoreDefaults (es : List (String × String × CoreNative × Ty)) : Run Unit :=
  es.forM fun e => addCoreDefault e.1 e.2.1 e.2.2.1 e.2.2.2

/-- Registering defaults ends, and changes those of no other method. -/
theorem addCoreDefaults_frame (es : List (String × String × CoreNative × Ty)) (s : Setting)
    (m : Machine) : ∃ m', addCoreDefaults es s m = .done () m' ∧ ∀ traitName method,
      (∀ e ∈ es, ¬(traitName = e.1 ∧ method = e.2.1)) →
        m'.registry.builtinDefault? traitName method =
          m.registry.builtinDefault? traitName method := by
  induction es generalizing m with
  | nil => exact ⟨m, rfl, fun _ _ _ => rfl⟩
  | cons e es ih =>
    obtain ⟨m', hrun, hframe⟩ := ih
      { m with
        nextIdent := m.nextIdent + 1
        registry := m.registry.addBuiltinDefault e.1 e.2.1 (.builtin (coreDefault e m.nextIdent)) }
    refine ⟨m', hrun, fun traitName method hother => ?_⟩
    obtain ⟨he, hes⟩ := List.forall_mem_cons.1 hother
    rw [hframe traitName method hes, Registry.builtinDefault?_addBuiltinDefault, if_neg he]

/-- Defaults of different methods are all there in the end. -/
theorem addCoreDefaults_registers {es : List (String × String × CoreNative × Ty)}
    (hdistinct : es.Pairwise fun e e' => ¬(e.1 = e'.1 ∧ e.2.1 = e'.2.1))
    {e : String × String × CoreNative × Ty} (he : e ∈ es) (s : Setting) (m : Machine) :
    ∃ m' id, addCoreDefaults es s m = .done () m' ∧
      m'.registry.builtinDefault? e.1 e.2.1 = some (.builtin (coreDefault e id)) := by
  induction es generalizing m with
  | nil => cases he
  | cons first es ih =>
    obtain ⟨hfirst, hes⟩ := List.pairwise_cons.1 hdistinct
    let registered : Value := .builtin (coreDefault first m.nextIdent)
    let m₁ : Machine :=
      { m with
        nextIdent := m.nextIdent + 1
        registry := m.registry.addBuiltinDefault first.1 first.2.1 registered }
    rcases List.mem_cons.1 he with rfl | he
    · obtain ⟨m', hrun, hframe⟩ := addCoreDefaults_frame es s m₁
      refine ⟨m', m.nextIdent, hrun, ?_⟩
      rw [hframe _ _ hfirst, Registry.builtinDefault?_addBuiltinDefault, if_pos ⟨rfl, rfl⟩]
    · exact ih hes he m₁

theorem done_of_forM {α : Type} {f : α → Run Unit} (hf : ∀ a s m, ∃ m', f a s m = .done () m')
    (as : List α) (s : Setting) (m : Machine) : ∃ m', as.forM f s m = .done () m' := by
  induction as generalizing m with
  | nil => exact ⟨m, rfl⟩
  | cons a as ih =>
    obtain ⟨m₁, hm₁⟩ := hf a s m
    obtain ⟨m', hm'⟩ := ih m₁
    exact ⟨m', (bind_of_done hm₁).trans hm'⟩

theorem machine_exec {α : Type} {x : Run α} {i : Interpreter} {a : α} {m : Machine}
    (h : x i.setting i.machine = .done a m) : (i.exec x).2.machine = m := by
  rw [exec, h]

/-- A new interpreter has every default that is listed. -/
theorem builtinDefault?_create (limits : Limits) (host : Host)
    {e : String × String × CoreNative × Ty} (he : e ∈ CoreNative.traitDefaults) : ∃ id,
    (create limits host).machine.registry.builtinDefault? e.1 e.2.1 =
      some (.builtin (coreDefault e id)) := by
  have hdistinct : CoreNative.traitDefaults.Pairwise
      fun e e' => ¬(e.1 = e'.1 ∧ e.2.1 = e'.2.1) := by
    simp [CoreNative.traitDefaults]
  unfold create update registerCore
  generalize CoreNative.globals = globals
  generalize CoreNative.traitDefaults = es at he hdistinct ⊢
  obtain ⟨m₁, hglobals⟩ := done_of_forM
    (f := fun e => addBuiltin e.1 (.core e.2.1) e.2.2.1 e.2.2.2) (fun _ _ _ => ⟨_, rfl⟩) globals
    { limits, host } {}
  obtain ⟨m₂, id, hrun, hdefault⟩ := addCoreDefaults_registers hdistinct he { limits, host } m₁
  have hregister := (bind_of_done (f := fun _ => addCoreDefaults es) hglobals).trans hrun
  refine ⟨id, Eq.trans ?_ hdefault⟩
  exact congrArg (fun m => m.registry.builtinDefault? e.1 e.2.1)
    (machine_exec (i := ⟨{ limits, host }, {}⟩) hregister)

end CoreDefaults

/-- A default of the trait of comparisons has two values to compare wherever it is invoked. -/
structure Compares (i : Interpreter) (method : String) (holds : Value → Value → Bool) : Prop where
  comparison : ∃ b, i.machine.registry.builtinDefault? "Eq" method = some (.builtin b) ∧
    ∀ (op : Operation) s m args m', op.code s m = .halted (.breakpoint (.native b args) m') →
      ∃ v w, args = [v, w] ∧ ∀ a, runNative a args b.native = pure (.bool (holds v w))

theorem compares_of_default {i : Interpreter} {method : String} {holds : Value → Value → Bool}
    {b : Builtin} (hdefault : i.machine.registry.builtinDefault? "Eq" method = some (.builtin b))
    (harity : b.arity = some 2)
    (hnative : ∀ a v w, runNative a [v, w] b.native = pure (.bool (holds v w))) :
    i.Compares method holds := by
  refine ⟨⟨b, hdefault, fun op s m args m' h => ?_⟩⟩
  have hlength := Operation.length_of_native harity h
  cases args with
  | nil => cases hlength
  | cons v args =>
    obtain ⟨w, rfl⟩ := List.length_eq_one_iff.1 (Nat.succ.inj hlength)
    exact ⟨v, w, rfl, fun a => hnative a v w⟩

theorem compares_eq (limits : Limits) (host : Host) :
    (create limits host).Compares "eq" fun v w => v == w := by
  obtain ⟨id, hdefault⟩ := builtinDefault?_create limits host
    (e := ("Eq", "eq", .eq, _)) (.tail _ (.head _))
  exact compares_of_default hdefault rfl fun _ _ _ => rfl

theorem compares_neq (limits : Limits) (host : Host) :
    (create limits host).Compares "neq" fun v w => v != w := by
  obtain ⟨id, hdefault⟩ := builtinDefault?_create limits host
    (e := ("Eq", "neq", .neq, _)) (.tail _ (.tail _ (.head _)))
  exact compares_of_default hdefault rfl fun _ _ _ => rfl

/-- A builtin with a function type is applied like a function of as many parameters. Whatever is
run, natively it is invoked with an argument for each of them. With fewer than it requires it fails
or waits for the rest, with more than there are parameters it fails; in between, the last defaults
complete the arguments, each at a place of its own, and however many defaults there are, the slice
starts inside them. Dictionaries in front do not count. Hence the comparisons that an interpreter
starts with always have two values to compare. -/
theorem native_arguments_exact :
    (∀ (b : Builtin) params result, b.signature = some (.fn params result) →
      (∀ (op : Operation) s m args m',
        op.code s m = .halted (.breakpoint (.native b args) m') → args.length = params.length) ∧
      (∀ a args, let given := (plainArgs args).length
        let required := params.length - b.defaults.length
        (given < required → callBuiltin a b args =
          if (plainArgs args).isEmpty then fail (.missingArguments b.name required)
          else partialApp (.builtin b) (plainArgs args) (required - given)) ∧
        (params.length < given →
          callBuiltin a b args = fail (.arityMismatch b.name params.length given)) ∧
        (required ≤ given → given ≤ params.length → ∃ final,
          callBuiltin a b args = invoke a b final ∧
            b.Completes params.length (plainArgs args) final)) ∧
      ∀ fuel (dicts : List Dictionary) args site,
        TraitLang.apply fuel (.builtin b) (dicts.map .dictionary ++ args) site =
          TraitLang.apply fuel (.builtin b) args site) ∧
    ∀ limits host,
      (create limits host).Compares "eq" (fun v w => v == w) ∧
      (create limits host).Compares "neq" fun v w => v != w := by
  refine ⟨fun b params result hsignature => ?_,
    fun limits host => ⟨compares_eq limits host, compares_neq limits host⟩⟩
  have harity := Builtin.arity_of_signature hsignature
  refine ⟨fun op s m args m' h => Operation.length_of_native harity h, fun a args => ?_,
    fun fuel dicts args site =>
      apply_builtin_plain harity (plainArgs_dictionaries_append dicts args) fuel site⟩
  refine ⟨callBuiltin_of_lt a harity, callBuiltin_of_gt a harity, fun hleast hmost => ?_⟩
  exact ⟨_, callBuiltin_of_enough a harity hleast hmost, Builtin.completes_completed hleast hmost⟩

/-- Three parameters, of which the last two have a default. -/
def clamp : Builtin where
  id := 0
  name := "clamp"
  native := .host "clamp"
  signature := some (.fn [.con "Int", .con "Int", .con "Int"] (.con "Int"))
  defaults := [.int 0, .int 100]

/-- Applied behind a dictionary to its first argument. -/
theorem native_arguments_exact_clamp :
    let evidence : Dictionary :=
      { id := 1, traitName := "Show", key := none, methods := [], supers := [] }
    let args : List Value := [.dictionary evidence, .int 7]
    let final : List Value := [.int 7, .int 0, .int 100]
    let site : CallSite := { name := "clamp" }
    (∃ m', (Operation.apply 2 (.builtin clamp) args site).code
        { breakpoint := fun e _ => e.isNative } {} =
          .halted (.breakpoint (.native clamp final) m') ∧ final.length = 3) ∧
      (∀ a, ∃ final, callBuiltin a clamp args = invoke a clamp final ∧
        clamp.Completes 3 [.int 7] final) ∧
      TraitLang.apply 2 (.builtin clamp) args site =
        TraitLang.apply 2 (.builtin clamp) [.int 7] site := by
  intro evidence args final site
  obtain ⟨hexact, hcalls, hplain⟩ := native_arguments_exact.1 clamp _ _ rfl
  refine ⟨⟨_, rfl, hexact (.apply 2 (.builtin clamp) args site)
    { breakpoint := fun e _ => e.isNative } {} final _ rfl⟩, fun a => ?_,
    hplain 2 [evidence] [.int 7] site⟩
  exact (hcalls a args).2.2 (by decide) (by decide)

end Interpreter

end TraitLang
