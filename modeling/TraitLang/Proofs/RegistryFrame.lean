import TraitLang.Proofs.Calls
import TraitLang.Proofs.Materialization
import TraitLang.Proofs.Precedence

/-!
What is known about traits while programs run. Declarations, orders, super-traits, defaults and
aliases are fixed; instances may gain methods, and these are defaults of their trait. Main
statement: evaluating, applying and resolving extend the registry in no other way and leave the
setting alone, however they end, and resolving fails only where a method has no default.
-/
namespace TraitLang

namespace Registry

/-- A default of the method, closed over the global scope on behalf of the trait. -/
def HasDefault (r : Registry) (traitName method : String) (v : Value) : Prop :=
  ∃ f id, r.userDefault? traitName method = some f ∧
    v = .function id { func := f, scope := Store.global, owner := some traitName }

/-- The registry `r'` is `r` in which instances gained defaults of their traits: an entry is as it
was or holds a default; instances keep their order, and new ones, which have a default to show, come
after them. -/
structure Extends (r' r : Registry) : Prop where
  traits : r'.traits = r.traits
  methodOrder : r'.methodOrder = r.methodOrder
  superTraits : r'.superTraits = r.superTraits
  userDefaults : r'.userDefaults = r.userDefaults
  builtinDefaults : r'.builtinDefaults = r.builtinDefaults
  aliases : r'.aliases = r.aliases
  entries : ∀ traitName key method,
    r'.lookup? traitName key method = r.lookup? traitName key method ∨
      ∃ v, r'.lookup? traitName key method = some v ∧ r.HasDefault traitName method v
  keys : ∀ traitName, ∃ new, r'.instanceKeys traitName = r.instanceKeys traitName ++ new ∧
    ∀ key ∈ new, ∃ method v, r'.lookup? traitName key method = some v ∧
      r.HasDefault traitName method v

variable {r r₁ r₂ : Registry}

theorem HasDefault.of_userDefaults_eq {traitName method : String} {v : Value}
    (h : r₁.HasDefault traitName method v) (heq : r₁.userDefaults = r.userDefaults) :
    r.HasDefault traitName method v := by
  obtain ⟨f, id, hf, hv⟩ := h
  rw [userDefault?, heq] at hf
  exact ⟨f, id, hf, hv⟩

theorem Extends.refl (r : Registry) : r.Extends r where
  traits := rfl
  methodOrder := rfl
  superTraits := rfl
  userDefaults := rfl
  builtinDefaults := rfl
  aliases := rfl
  entries _ _ _ := .inl rfl
  keys _ := ⟨[], (List.append_nil _).symm, by simp⟩

theorem Extends.trans (h₂ : r₂.Extends r₁) (h₁ : r₁.Extends r) : r₂.Extends r where
  traits := h₂.traits.trans h₁.traits
  methodOrder := h₂.methodOrder.trans h₁.methodOrder
  superTraits := h₂.superTraits.trans h₁.superTraits
  userDefaults := h₂.userDefaults.trans h₁.userDefaults
  builtinDefaults := h₂.builtinDefaults.trans h₁.builtinDefaults
  aliases := h₂.aliases.trans h₁.aliases
  entries traitName key method := by
    rcases h₂.entries traitName key method with heq | ⟨v, hv, hdefault⟩
    · rw [heq]
      exact h₁.entries traitName key method
    · exact .inr ⟨v, hv, hdefault.of_userDefaults_eq h₁.userDefaults⟩
  keys traitName := by
    obtain ⟨new₁, hkeys₁, hnew₁⟩ := h₁.keys traitName
    obtain ⟨new₂, hkeys₂, hnew₂⟩ := h₂.keys traitName
    refine ⟨new₁ ++ new₂, by rw [hkeys₂, hkeys₁, List.append_assoc], fun key hkey => ?_⟩
    rcases List.mem_append.1 hkey with hkey | hkey
    · obtain ⟨method, v, hv, hdefault⟩ := hnew₁ key hkey
      -- A later default may have taken the place of this one.
      rcases h₂.entries traitName key method with heq | ⟨v', hv', hdefault'⟩
      · exact ⟨method, v, by rw [heq, hv], hdefault⟩
      · exact ⟨method, v', hv', hdefault'.of_userDefaults_eq h₁.userDefaults⟩
    · obtain ⟨method, v, hv, hdefault⟩ := hnew₂ key hkey
      exact ⟨method, v, hv, hdefault.of_userDefaults_eq h₁.userDefaults⟩

theorem instanceKeys_addMethod (r : Registry) (traitName : String) (key : TypeKey)
    (method : String) (v : Value) (traitName' : String) :
    (r.addMethod traitName key method v).instanceKeys traitName' =
      if traitName' = traitName ∧ r.hasInstance traitName key = false then
        r.instanceKeys traitName' ++ [key]
      else r.instanceKeys traitName' := by
  unfold instanceKeys
  rw [table_addMethod]
  by_cases htrait : traitName' = traitName
  · subst htrait
    cases hinstance : r.hasInstance traitName' key with
    | true => simp [Assoc.keys_insert_of_contains hinstance]
    | false => simp [Assoc.keys_insert_of_not_contains hinstance]
  · simp [htrait]

theorem extends_addMethod {traitName method : String} {v : Value}
    (h : r.HasDefault traitName method v) (key : TypeKey) :
    (r.addMethod traitName key method v).Extends r where
  traits := rfl
  methodOrder := rfl
  superTraits := rfl
  userDefaults := rfl
  builtinDefaults := rfl
  aliases := rfl
  entries traitName' key' method' := by
    rw [lookup?_addMethod]
    split
    · rename_i hplace
      obtain ⟨rfl, -, rfl⟩ := hplace
      exact .inr ⟨v, rfl, h⟩
    · exact .inl rfl
  keys traitName' := by
    rw [instanceKeys_addMethod]
    split
    · rename_i hplace
      obtain ⟨rfl, -⟩ := hplace
      refine ⟨[key], rfl, fun key' hkey' => ⟨method, v, ?_, h⟩⟩
      simp [lookup?_addMethod, List.mem_singleton.1 hkey']
    · exact ⟨[], (List.append_nil _).symm, by simp⟩

end Registry

/-- Native functions that neither add to the registry nor load programs, whatever else they do. -/
def Powers.sparingTraits : Powers where
  defines := True
  changes _ _ := False
  loads := False
  defines_of_loads := False.elim
  changes_of_loads := False.elim

/-- What runs do to a machine extends the registry, given native functions that leave it alone. -/
theorem Effect.extends_registry {n : Nat} {m m' : Machine} (h : Effect .sparingTraits n m m') :
    m'.registry.Extends m.registry := by
  induction h with
  | trans _ _ ih₁ ih₂ => exact ih₂.trans ih₁
  | change m r hchange => exact hchange.elim
  | materialize m traitName method key id f hf =>
    exact Registry.extends_addMethod ⟨f, id, hf, rfl⟩ key
  | _ => exact .refl _

namespace Run

variable {s : Setting} {mach mach' : Machine} {m : ClassMethod} {args : List Value}
  {site : CallSite} {fb : Fallback}

theorem resolveDefault_user {f : Func}
    (h : mach.registry.userDefault? m.traitName m.method = some f) :
    resolveDefault m fb s mach =
      .done
        { callee := .function mach.nextIdent (Registry.defaultClosure m.traitName f)
          args := fb.args
          witness := fb.witness m (mach.registry.defaultKey m fb) }
        (mach.withDefault m f (mach.registry.defaultKey m fb)) := by
  rw [resolveDefault, machine_bind, h]
  simp only [fresh_bind]
  cases mach.registry.defaultKey m fb <;> rfl

theorem resolveDefault_builtin {callee : Value}
    (huser : mach.registry.userDefault? m.traitName m.method = none)
    (h : mach.registry.builtinDefault? m.traitName m.method = some callee) :
    resolveDefault m fb s mach =
      .done
        { callee, args := fb.args, witness := fb.witness m (mach.registry.defaultKey m fb) }
        mach := by
  rw [resolveDefault, machine_bind, huser, h]
  rfl

theorem resolveDefault_none (huser : mach.registry.userDefault? m.traitName m.method = none)
    (h : mach.registry.builtinDefault? m.traitName m.method = none) :
    resolveDefault m fb s mach =
      .failed
        { cause := .noImplementation m.traitName
            (if fb.types.isEmpty then "unknown" else ", ".intercalate fb.types) m.method }
        mach := by
  rw [resolveDefault, machine_bind, huser, h]
  rfl

/-- Resolving fails only where a method has no default, and then it has done nothing. -/
theorem of_resolve_failed {f : Fault} (h : resolve m args site s mach = .failed f mach') :
    mach' = mach ∧ f.kind = .dispatch ∧
      mach.registry.userDefault? m.traitName m.method = none ∧
      mach.registry.builtinDefault? m.traitName m.method = none := by
  cases hstop : s.breakpoint (.dispatch m) mach with
  | true =>
    have hhalted : resolve m args site s mach = .halted (.breakpoint (.dispatch m) mach) := by
      show Run.bind (reach (.dispatch m)) _ s mach = _
      simp [Run.bind, reach, hstop]
    rw [hhalted] at h
    cases h
  | false =>
    rw [resolve_eq hstop] at h
    cases hselect : mach.select m args site with
    | inl r =>
      rw [hselect] at h
      cases h
    | inr fb =>
      rw [hselect, Sum.elim_inr] at h
      cases huser : mach.registry.userDefault? m.traitName m.method with
      | some g =>
        rw [resolveDefault_user huser] at h
        cases h
      | none =>
        cases hbuiltin : mach.registry.builtinDefault? m.traitName m.method with
        | some callee =>
          rw [resolveDefault_builtin huser hbuiltin] at h
          cases h
        | none =>
          rw [resolveDefault_none huser hbuiltin] at h
          cases h
          exact ⟨rfl, rfl, rfl, rfl⟩

end Run

namespace Interpreter

/-- The interpreter `j` comes after `i`: it has the same limits, host, hints and file, and its
registry extends that of `i`. -/
structure ComesFrom (j i : Interpreter) : Prop where
  setting : j.setting = i.setting
  hints : j.machine.hints = i.machine.hints
  file : j.machine.file = i.machine.file
  registry : j.machine.registry.Extends i.machine.registry

theorem exec_comesFrom {α : Type} {B : Setting → Stack CallFrame → WitnessStack → Prop} {x : Run α}
    (hx : x.Restores .sparingTraits B 0) {i : Interpreter}
    (hi : B i.setting i.machine.calls i.machine.witnesses) : (i.exec x).2.ComesFrom i := by
  have after (m : Machine) (h : Effect .sparingTraits 0 i.machine m) :
      ComesFrom { i with machine := m } i :=
    ⟨rfl, (h.sameSource id).2, (h.sameSource id).1, h.extends_registry⟩
  have h := hx i.setting i.machine 0 (Nat.le_refl 0) (Nat.zero_le _) hi
  unfold exec
  cases hxm : x i.setting i.machine with
  | done a m =>
    rw [hxm] at h
    exact after m h
  | failed f m =>
    rw [hxm] at h
    exact after m h
  | halted why => exact ⟨rfl, rfl, rfl, .refl _⟩

theorem resolve_error {i : Interpreter} {m : ClassMethod} {args : List Value} {site : CallSite}
    {f : Fault} (h : (i.resolve m args site).1 = some (.error f)) :
    (i.resolve m args site).2 = i ∧ f.kind = .dispatch ∧
      i.machine.registry.userDefault? m.traitName m.method = none ∧
      i.machine.registry.builtinDefault? m.traitName m.method = none := by
  unfold resolve exec at h ⊢
  cases hrun : Run.resolve m args site i.setting i.machine with
  | done r m' =>
    rw [hrun] at h
    cases h
  | failed g m' =>
    rw [hrun] at h
    cases h
    obtain ⟨rfl, hrest⟩ := Run.of_resolve_failed hrun
    exact ⟨rfl, hrest⟩
  | halted why =>
    rw [hrun] at h
    cases h

/-- Whatever is evaluated in any mode, applied, called or resolved, and however that ends: given
native functions that neither add to the registry nor load programs, instances gain defaults of
their traits, and otherwise what is known about traits, the setting, the hints and the file stay as
they are. If a method cannot be resolved nothing has changed, the failure is one of dispatch, and
the method has no default of either kind. -/
theorem registry_frame (i : Interpreter) (fuel : Nat) :
    (i.setting.host.Within .sparingTraits →
      (∀ ctx scope e, (i.exec (evalNode (TraitLang.apply fuel) ctx scope e)).2.ComesFrom i) ∧
      (∀ e, (i.eval fuel e).2.ComesFrom i) ∧
      (∀ callee args site, (i.apply fuel callee args site).2.ComesFrom i) ∧
      ∀ name args, (i.call fuel name args).2.ComesFrom i) ∧
    ∀ m args site, (i.resolve m args site).2.ComesFrom i ∧
      ∀ f, (i.resolve m args site).1 = some (.error f) →
        (i.resolve m args site).2 = i ∧ f.kind = .dispatch ∧
          i.machine.registry.userDefault? m.traitName m.method = none ∧
          i.machine.registry.builtinDefault? m.traitName m.method = none := by
  have always := Run.Restores.apply (W := .sparingTraits)
    (B := fun s _ _ => s.host.Within .sparingTraits) id (fun h _ => h.holds) fuel
  refine ⟨fun hhost => ⟨fun ctx scope e => ?_, fun e => ?_, fun callee args site => ?_,
    fun name args => ?_⟩, fun m args site => ⟨?_, fun f => resolve_error⟩⟩
  · exact exec_comesFrom (.node always ctx scope e 0) hhost
  · exact exec_comesFrom (.evalValue always {} Store.global e) hhost
  · exact exec_comesFrom (always callee args site 0) hhost
  · exact exec_comesFrom (.callGlobal always name args) hhost
  · exact exec_comesFrom (B := fun _ _ _ => True) (.resolve m args site) trivial

namespace Describing

def describe : ClassMethod := { traitName := "Describe", method := "describe", arity := 1 }

/-- Nothing implements it. -/
def size : ClassMethod := { traitName := "Size", method := "size", arity := 1 }

def described : Func :=
  ⟨"describe", [⟨"x", none, none, false⟩], none, [], [], ⟨.lit (.str "described"), {}⟩, {}⟩

/-- One trait has an instance for integers and a default. -/
def start : Interpreter where
  setting := {}
  machine :=
    { registry :=
        { instances := [("Describe", [(.single "Int", [("describe", .str "int")])])]
          userDefaults := [("Describe", [("describe", described)])] } }

end Describing

open Describing in
/-- A call on a truth value adds an instance after that for integers. A method without an
implementation fails and changes nothing. -/
theorem registry_frame_describing :
    ((start.apply 3 (.method 0 describe) [.bool false] { name := "describe" }).2.machine.registry
        |>.instanceKeys "Describe") = [.single "Int", .single "Bool"] ∧
      (start.apply 3 (.method 0 describe) [.bool false] { name := "describe" }).2.ComesFrom start ∧
    ∃ f, (start.resolve size [.str "abc"] { name := "size" }).1 = some (.error f) ∧
      (start.resolve size [.str "abc"] { name := "size" }).2 = start ∧ f.kind = .dispatch ∧
      start.machine.registry.userDefault? "Size" "size" = none ∧
      start.machine.registry.builtinDefault? "Size" "size" = none := by
  obtain ⟨hrun, hresolve⟩ := registry_frame start 3
  obtain ⟨-, -, happly, -⟩ := hrun fun _ _ => trivial
  have herror : (start.resolve size [.str "abc"] { name := "size" }).1.map Except.isOk =
      some false := by decide +kernel
  obtain ⟨answer, hanswer, hfails⟩ := Option.map_eq_some_iff.1 herror
  cases answer with
  | ok r => cases hfails
  | error f =>
    exact ⟨by decide +kernel, happly _ _ _, f, hanswer, (hresolve size _ _).2 f hanswer⟩

namespace Describing

/-- Its native functions give strings a description of their own. -/
def host : Host where
  native _ _ :=
    .register (.instanceMethod "Describe" [.con "String"] "describe" .unit) (.done .unit)

def registrar : Value := .builtin ⟨0, "registrar", .host "registrar", none, []⟩

def hosted : Interpreter := { start with setting := { host } }

end Describing

open Describing in
/-- A native function that adds a method to an instance: the entry is new and holds no default. -/
theorem native_extends_registry :
    ¬ (hosted.apply 3 registrar [] { name := "registrar" }).2.ComesFrom hosted := by
  intro h
  have hgained : (hosted.apply 3 registrar [] { name := "registrar" }).2.machine.registry.lookup?
      "Describe" (.single "String") "describe" = some .unit := by with_unfolding_all rfl
  rcases h.registry.entries "Describe" (.single "String") "describe" with
    heq | ⟨v, hv, f, id, -, rfl⟩
  · rw [hgained] at heq
    cases heq
  · rw [hgained] at hv
    cases hv

end Interpreter

end TraitLang
