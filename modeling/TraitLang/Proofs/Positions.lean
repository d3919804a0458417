import TraitLang.Proofs.RelabeledTraits

/-!
Forgetting source positions: spans in trees and call sites, files in call frames, and what faults
say about where they happened. What is left of two machines that differ in positions only is the
same. The tables of the registry and the dictionaries built from them do not depend on positions.
-/
namespace TraitLang

mutual

/-- An expression without positions. -/
def Expr.forget : Expr → Expr
  | .lit l => .lit l
  | .var name => .var name
  | .list items => .list (forgetAll items)
  | .tuple items => .tuple (forgetAll items)
  | .record fields => .record (forgetFields fields)
  | .range start stop => .range (forgetNode start) (forgetNode stop)
  | .lambda f => .lambda f.forget
  | .call id callee args => .call id (forgetNode callee) (forgetAll args)
  | .methodCall id receiver method args =>
    .methodCall id (forgetNode receiver) method (forgetAll args)
  | .field target name => .field (forgetNode target) name
  | .binary left op right => .binary (forgetNode left) op (forgetNode right)
  | .unary op operand => .unary op (forgetNode operand)
  | .operator op => .operator op
  | .compose outer inner => .compose (forgetNode outer) (forgetNode inner)
  | .cond test yes no => .cond (forgetNode test) (forgetNode yes) (forgetNode no)
  | .letIn name ty value body => .letIn name ty (forgetNode value) (forgetNode body)
  | .block body => .block (forgetAll body)
  | .assign name value => .assign name (forgetNode value)
  | .annotated e ty => .annotated (forgetNode e) ty
  | .choose scrutinee arms => .choose (forgetNode scrutinee) (forgetArms arms)
  | .dict traitName types => .dict traitName types
  | .doChain binds body => .doChain (forgetBinds binds) (forgetNode body)
  | .attempt body => .attempt (forgetNode body)

def forgetNode : Spanned Expr → Spanned Expr
  | ⟨e, _⟩ => ⟨e.forget, {}⟩

def forgetAll : List (Spanned Expr) → List (Spanned Expr)
  | [] => []
  | e :: es => forgetNode e :: forgetAll es

def forgetFields : List (String × Spanned Expr) → List (String × Spanned Expr)
  | [] => []
  | (name, e) :: es => (name, forgetNode e) :: forgetFields es

def forgetArms : List Arm → List Arm
  | [] => []
  | ⟨pattern, body⟩ :: arms => ⟨⟨pattern.node, {}⟩, forgetNode body⟩ :: forgetArms arms

def forgetBinds : List DoBind → List DoBind
  | [] => []
  | ⟨name, value⟩ :: binds => ⟨name, forgetNode value⟩ :: forgetBinds binds

def Func.forget : Func → Func
  | ⟨name, params, retTy, constraints, witnessParams, body, _⟩ =>
    ⟨name, forgetParams params, retTy, constraints, witnessParams, forgetNode body, {}⟩

def forgetParams : List Param → List Param
  | [] => []
  | ⟨name, ty, default, variadic⟩ :: params =>
    ⟨name, ty, forgetDefault default, variadic⟩ :: forgetParams params

def forgetDefault : Option (Spanned Expr) → Option (Spanned Expr)
  | none => none
  | some e => some (forgetNode e)

end

attribute [simp] Expr.forget forgetNode forgetAll forgetFields forgetArms forgetBinds forgetDefault

mutual

theorem Expr.forget_forget : ∀ e : Expr, e.forget.forget = e.forget
  | .list es | .tuple es | .block es => by simp [forgetAll_forgetAll es]
  | .record es => by simp [forgetFields_forgetFields es]
  | .range e e' | .binary e _ e' | .compose e e' | .letIn _ _ e e' => by
    simp [forgetNode_forgetNode e, forgetNode_forgetNode e']
  | .lambda f => by simp [Func.forget_forget f]
  | .call _ e es | .methodCall _ e _ es => by
    simp [forgetNode_forgetNode e, forgetAll_forgetAll es]
  | .field e _ | .unary _ e | .annotated e _ | .attempt e | .assign _ e => by
    simp [forgetNode_forgetNode e]
  | .cond e e' e'' => by
    simp [forgetNode_forgetNode e, forgetNode_forgetNode e', forgetNode_forgetNode e'']
  | .choose e arms => by simp [forgetNode_forgetNode e, forgetArms_forgetArms arms]
  | .doChain binds e => by simp [forgetBinds_forgetBinds binds, forgetNode_forgetNode e]
  | .lit _ | .var _ | .operator _ | .dict _ _ => by simp

theorem forgetNode_forgetNode : ∀ e : Spanned Expr, forgetNode (forgetNode e) = forgetNode e
  | ⟨e, _⟩ => by simp [Expr.forget_forget e]

theorem forgetAll_forgetAll : ∀ es : List (Spanned Expr), forgetAll (forgetAll es) = forgetAll es
  | [] => by simp
  | e :: es => by
    rw [forgetAll, forgetAll, forgetNode_forgetNode e, forgetAll_forgetAll es]

theorem forgetFields_forgetFields :
    ∀ es : List (String × Spanned Expr), forgetFields (forgetFields es) = forgetFields es
  | [] => by simp
  | (_, e) :: es => by
    rw [forgetFields, forgetFields, forgetNode_forgetNode e, forgetFields_forgetFields es]

theorem forgetArms_forgetArms : ∀ arms : List Arm, forgetArms (forgetArms arms) = forgetArms arms
  | [] => by simp
  | ⟨_, e⟩ :: arms => by
    rw [forgetArms, forgetArms, forgetNode_forgetNode e, forgetArms_forgetArms arms]

theorem forgetBinds_forgetBinds :
    ∀ binds : List DoBind, forgetBinds (forgetBinds binds) = forgetBinds binds
  | [] => by simp
  | ⟨_, e⟩ :: binds => by
    rw [forgetBinds, forgetBinds, forgetNode_forgetNode e, forgetBinds_forgetBinds binds]

theorem Func.forget_forget : ∀ f : Func, f.forget.forget = f.forget
  | ⟨_, params, _, _, _, body, _⟩ => by
    rw [Func.forget, Func.forget, forgetParams_forgetParams params, forgetNode_forgetNode body]

theorem forgetParams_forgetParams :
    ∀ params : List Param, forgetParams (forgetParams params) = forgetParams params
  | [] => by rw [forgetParams, forgetParams]
  | ⟨_, _, default, _⟩ :: params => by
    rw [forgetParams, forgetParams, forgetDefault_forgetDefault default,
      forgetParams_forgetParams params]

theorem forgetDefault_forgetDefault : ∀ default : Option (Spanned Expr),
    forgetDefault (forgetDefault default) = forgetDefault default
  | none => by simp
  | some e => by rw [forgetDefault, forgetDefault, forgetNode_forgetNode e]

end

/-- A parameter without positions. -/
def Param.forget (p : Param) : Param := { p with default := forgetDefault p.default }

theorem forgetParams_eq (params : List Param) : forgetParams params = params.map Param.forget := by
  induction params with
  | nil => rw [forgetParams, List.map_nil]
  | cons p params ih =>
    obtain ⟨name, ty, default, variadic⟩ := p
    rw [forgetParams, ih, List.map_cons, Param.forget]

section Func

variable (f : Func)

@[simp] theorem Func.name_forget : f.forget.name = f.name := by cases f; rw [Func.forget]

@[simp] theorem Func.params_forget : f.forget.params = f.params.map Param.forget := by
  cases f
  rw [Func.forget, forgetParams_eq]

@[simp] theorem Func.retTy_forget : f.forget.retTy = f.retTy := by cases f; rw [Func.forget]

@[simp] theorem Func.constraints_forget : f.forget.constraints = f.constraints := by
  cases f; rw [Func.forget]

@[simp] theorem Func.witnessParams_forget : f.forget.witnessParams = f.witnessParams := by
  cases f; rw [Func.forget]

@[simp] theorem Func.body_forget : f.forget.body = forgetNode f.body := by cases f; rw [Func.forget]

@[simp] theorem Func.required_forget : f.forget.required = f.required := by
  have hdefault (p : Param) : p.forget.default.isNone = p.default.isNone := by
    obtain ⟨_, _, default, _⟩ := p
    cases default <;> rfl
  simp only [required, params_forget, List.countP_map]
  congr 1
  funext p
  simp only [Function.comp, hdefault]
  rfl

@[simp] theorem Func.isVariadic_forget : f.forget.isVariadic = f.isVariadic := by
  simp only [isVariadic, params_forget, List.getLast?_map, Option.any_map]
  rfl

@[simp] theorem Func.fixedParams_forget :
    f.forget.fixedParams = f.fixedParams.map Param.forget := by
  simp only [fixedParams, isVariadic_forget, params_forget]
  split
  · rw [List.map_dropLast]
  · rfl

end Func

/-- A fault without positions: its cause, and whether its calls were recorded. -/
def Fault.forget (f : Fault) : Fault := { cause := f.cause, trace := f.trace.map fun _ => [] }

def Closure.forget (c : Closure) : Closure := { c with func := c.func.forget }

def Native.forget : Native → Native
  | .core c => .core c
  | .resume name rest body scope => .resume name (forgetBinds rest) (forgetNode body) scope
  | .host name => .host name

def CallSite.forget (site : CallSite) : CallSite := { site with span := {} }

def CallFrame.forget (f : CallFrame) : CallFrame := { name := f.name, file := "", span := {} }

/-- Forgets the positions in a value. -/
def positions : Relabeling := ⟨Fault.forget, Func.forget, Native.forget⟩

theorem positions_lawful : positions.Lawful := ⟨fun _ => rfl, Func.name_forget⟩

namespace Fault

theorem forget_forget (f : Fault) : f.forget.forget = f.forget := by
  simp [forget, Function.comp_def]

@[simp] theorem forget_mk (cause : Cause) : forget { cause } = { cause } := rfl

theorem forget_orLocation (f : Fault) (span : Span) : (f.orLocation span).forget = f.forget := by
  unfold orLocation
  split <;> rfl

@[simp] theorem forget_orLocation_unknown (f : Fault) :
    f.forget.orLocation {} = f.forget := by
  simp [orLocation, Span.isKnown]

theorem forget_orTrace (f : Fault) (trace : List CallFrame) :
    (f.orTrace trace).forget = f.forget.orTrace [] := by
  cases h : f.trace <;> simp [orTrace, forget, h]

end Fault

theorem positions_comp : positions.comp positions = positions := by
  have hfault : Fault.forget ∘ Fault.forget = Fault.forget := funext Fault.forget_forget
  have hfunc : Func.forget ∘ Func.forget = Func.forget := funext Func.forget_forget
  have hnative : Native.forget ∘ Native.forget = Native.forget := by
    funext n
    cases n <;> simp [Native.forget, forgetBinds_forgetBinds, forgetNode_forgetNode]
  simp only [Relabeling.comp, positions, hfault, hfunc, hnative]

/-- A value without positions. -/
abbrev Value.forget : Value → Value := Value.relabel positions

abbrev Dictionary.forget : Dictionary → Dictionary := Dictionary.relabel positions

theorem Value.forget_forget (v : Value) : v.forget.forget = v.forget := by
  rw [forget, Value.relabel_relabel, positions_comp]

theorem map_forget_forget (vs : List Value) :
    (vs.map Value.forget).map Value.forget = vs.map Value.forget := by
  rw [List.map_map, Value.relabel_relabel_all, positions_comp]

/-- What is known about traits, without positions. -/
abbrev Registry.forget : Registry → Registry := Registry.relabel positions

/-- What the analyser knows, without positions. -/
abbrev Hints.forget : Hints → Hints := Hints.relabel positions

def Registration.forget : Registration → Registration
  | .traitDefault traitName method v => .traitDefault traitName method v.forget
  | .instanceMethod traitName types method v => .instanceMethod traitName types method v.forget
  | .bridge name => .bridge name
  | .fallback name => .fallback name

def Item.forget : Item → Item
  | .func f => .func f.forget
  | .inst d => .inst { d with methods := d.methods.map Func.forget }
  | .const c => .const { c with value := forgetNode c.value }
  | .data d => .data d
  | .traitDecl t => .traitDecl t

/-- A program without positions and the name of its file. -/
def AnalyzedProgram.forget (p : AnalyzedProgram) : AnalyzedProgram where
  program := { file := "", items := p.program.items.map Item.forget }
  hints := p.hints.forget

/-- The limits without the number of frames that call traces keep. -/
def Limits.forget (l : Limits) : Limits := { l with traceLimit := 0 }

theorem Store.forget_forget (st : Store) :
    (st.relabel positions).relabel positions = st.relabel positions := by
  rw [relabel_relabel, positions_comp]

theorem Registry.forget_forget (r : Registry) : r.forget.forget = r.forget := by
  rw [forget, relabel_relabel, positions_comp]

/-! ### Machines -/

namespace Stack

variable {α β : Type}

def map (f : α → β) (s : Stack α) : Stack β := ⟨s.entries.map f⟩

@[simp] theorem toList_map (f : α → β) (s : Stack α) : (s.map f).toList = s.toList.map f := by
  simp [toList, map]

@[simp] theorem depth_map (f : α → β) (s : Stack α) : (s.map f).depth = s.depth := by
  simp [← length_toList]

theorem map_push (f : α → β) (s : Stack α) (a : α) : (s.push a).map f = (s.map f).push (f a) := by
  ext1
  simp

theorem map_cut (f : α → β) (s : Stack α) (n : Nat) : (s.cut n).map f = (s.map f).cut n := by
  ext1
  simp [List.map_take]

theorem map_replaceTop (f : α → β) (s : Stack α) (a : α) :
    (s.replaceTop a).map f = (s.map f).replaceTop (f a) := by
  simp [map, replaceTop, Array.map_setIfInBounds]

end Stack

namespace Machine

/-- A machine without positions. -/
def forget (m : Machine) : Machine :=
  { m with
    store := m.store.relabel positions
    registry := m.registry.forget
    file := ""
    hints := m.hints.forget
    calls := m.calls.map CallFrame.forget }

theorem resolveType_forget (m : Machine) (ty : Ty) (scope : ScopeId) :
    m.forget.resolveType ty scope = m.resolveType ty scope := by
  unfold resolveType
  congr 1
  funext name
  show (((m.store.relabel positions).get? scope name).bind Value.type? <|>
    m.witnesses.lookup name) = _
  rw [Store.get?_relabel]
  cases m.store.get? scope name <;> simp

end Machine

end TraitLang
