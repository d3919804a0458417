import TraitLang.Proofs.KnownEvidence
import TraitLang.Proofs.TracedCalls

/-!
Where a debugger stops an interpreter. Main statement: whatever an embedding program does, with any
host and on any machine, it is stopped in sound places only: before a body with the evidence of the
closure in force, before a native function with as many arguments as it declares.
-/
namespace TraitLang

section AnyTrace

variable {T : List CallFrame → Prop}

theorem Action.passes_of_forall (hT : ∀ t, T t) (act : Action) : act.Passes T := by
  induction act with
  | done v => trivial
  | fail f => exact fun t _ => hT t
  | write text next ih | define scope name v next ih | register r next ih => exact ih
  | fresh next ih | limits next ih | newScope parent next ih | assign scope name v next ih =>
    exact ih
  | depths next ih => exact ih
  | look next ih => exact ih
  | apply callee args site next ih => exact fun r _ => ih r
  | call name args next ih => exact fun r _ => ih r
  | eval e next ih => exact fun r _ => ih r
  | resolve method args site next ih => exact fun r _ => ih r
  | load p next ih => exact fun r _ => ih r

theorem Host.passes_of_forall (hT : ∀ t, T t) (host : Host) : host.Passes T where
  native _ _ := Action.passes_of_forall hT _
  callMember _ _ _ _ _ := fun _ _ t _ => hT t
  readField _ _ _ _ := fun _ _ t _ => hT t
  fallback _ _ _ _ _ := fun _ _ t _ => hT t

/-- Every trace is allowed, so the host may raise what it likes. -/
def Tracing.unrestricted (s : Setting) : Tracing s where
  allowed _ _ := True
  capture _ := trivial
  outward _ := trivial
  host _ := Host.passes_of_forall (fun _ => trivial) _

end AnyTrace

namespace Interpreter.Operation

theorem code_traced {s : Setting} (T : Tracing s) (K : Stack CallFrame → Prop) (op : Operation) :
    op.code.Traced T K := by
  have one {x : Run Value} (hx : x.Traced T K) : (do return [← x] : Run (List Value)).Traced T K :=
    .bind hx fun _ => .pure _
  have none {x : Run Unit} (hx : x.Traced T K) : (do x; return [] : Run (List Value)).Traced T K :=
    .bind hx fun _ => .pure _
  cases op with
  | load fuel p => exact none (.loading (.apply fuel) p)
  | run fuel => exact one (.callGlobal (.apply fuel) _ _)
  | call fuel name args => exact one (.callGlobal (.apply fuel) name args)
  | eval fuel e => exact one (.evalValue (.apply fuel) {} _ e)
  | apply fuel callee args site => exact one (.apply fuel callee args site K)
  | resolve m args site => exact .bind (.resolve m args site) fun _ => .pure _
  | defineGlobal name v => exact none (.define _ name v)
  | addBuiltin name native signature defaults =>
    exact none (.bind (.bind .fresh fun _ => .pure _) fun v => .define _ name v)
  | addTraitDefault traitName method v => exact none (.register _)
  | addInstanceMethod traitName types method v => exact none (.register _)
  | takeOutput | setHost => exact none (.modify fun _ => rfl)

/-- An operation, in any setting and on any machine, is stopped in sound places only. -/
theorem sound_of_code_eq {op : Operation} {s : Setting} {m m' : Machine} {e : Event}
    (h : op.code s m = .halted (.breakpoint e m')) : e.Sound m' := by
  have htraced := op.code_traced (.unrestricted s) (fun _ => True) m trivial
  rw [h] at htraced
  exact htraced

end Interpreter.Operation

end TraitLang
