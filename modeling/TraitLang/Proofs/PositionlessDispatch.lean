import TraitLang.Proofs.Positions

/-!
Resolving a trait method does not look at positions: on a machine without positions the same
implementation is selected, without its positions.
-/
namespace TraitLang

/-- A candidate without positions. -/
def Candidate.forget (c : Candidate) : Candidate := { c with callee := c.callee.forget }

def Resolution.forget (r : Resolution) : Resolution :=
  { r with callee := r.callee.forget, args := r.args.map Value.forget }

def Fallback.forget (fb : Fallback) : Fallback := { fb with args := fb.args.map Value.forget }

@[simp] theorem plainArgs_forget (args : List Value) :
    plainArgs (args.map Value.forget) = (plainArgs args).map Value.forget :=
  plainArgs_relabel positions args

theorem ClassMethod.dispatchTypes_forget (m : ClassMethod) (args : List Value) :
    m.dispatchTypes (args.map Value.forget) = m.dispatchTypes args := by
  have htype : Value.typeName ∘ Value.forget = Value.typeName :=
    funext (Value.typeName_relabel positions)
  unfold dispatchTypes
  split
  · rw [List.map_map, htype]
  · simp [htype, Option.map_map]

namespace Registry

variable (r : Registry)

theorem typeAccepts_forget (ty : Ty) (v : Value) :
    r.forget.typeAccepts ty v.forget = r.typeAccepts ty v := by
  simp only [typeAccepts, aliasTarget?_relabel, Value.typeName_relabel]

theorem acceptsArgs_forget (callee : Value) (args : List Value) :
    r.forget.acceptsArgs callee.forget (args.map Value.forget) = r.acceptsArgs callee args := by
  unfold acceptsArgs
  dsimp only
  rw [plainArgs_forget]
  cases callee with
  | function id c =>
    have hclosure : positions.closure c = c.forget := rfl
    have hty (p : Param) : p.forget.ty = p.ty := rfl
    simp [hclosure, Closure.forget, List.zip_map, List.all_map, typeAccepts_forget, hty,
      Function.comp_def]
  | builtin b =>
    simp only [Value.relabel, Builtin.signature_relabel]
    cases b.signature.bind Ty.fnParams with
    | none => rfl
    | some params =>
      simp [List.zip_map_right, List.all_map, typeAccepts_forget, Function.comp_def]
  | _ => rfl

@[simp] theorem lookupWithAlias?_forget (traitName : String) (key : TypeKey) (method : String) :
    r.forget.lookupWithAlias? traitName key method =
      (r.lookupWithAlias? traitName key method).map Value.forget := by
  unfold lookupWithAlias?
  rw [lookup?_relabel]
  cases r.lookup? traitName key method with
  | some found => rfl
  | none =>
    rcases key.parts with _ | ⟨name, _ | ⟨name', names⟩⟩
    · rfl
    · cases halias : r.aliasTarget? name <;> simp [halias]
    · rfl

theorem firstAccepting?_forget (m : ClassMethod) (args : List Value) (exact : Bool)
    (keys : List TypeKey) :
    r.forget.firstAccepting? m (args.map Value.forget) exact keys =
      (r.firstAccepting? m args exact keys).map Candidate.forget := by
  unfold firstAccepting?
  induction keys with
  | nil => rfl
  | cons key keys ih =>
    rw [List.findSome?_cons, List.findSome?_cons, lookup?_relabel, ih]
    cases r.lookup? m.traitName key m.method with
    | none => rfl
    | some callee =>
      simp only [Option.map_some, Option.bind_eq_bind, Option.bind_some, acceptsArgs_forget]
      cases r.acceptsArgs callee args <;> rfl

theorem keysNamed_forget (traitName name : String) :
    r.forget.keysNamed traitName name = r.keysNamed traitName name := by
  rw [keysNamed, instanceKeys_relabel, keysNamed]

theorem contextCandidate?_forget (m : ClassMethod) (expected : Ty) (args : List Value) :
    r.forget.contextCandidate? m expected (args.map Value.forget) =
      (r.contextCandidate? m expected args).map Candidate.forget := by
  have hkeys : r.forget.keysNamed m.traitName = r.keysNamed m.traitName :=
    funext (keysNamed_forget r m.traitName)
  unfold contextCandidate?
  cases expected.constructorName with
  | none => rfl
  | some name =>
    simp only [Option.bind_eq_bind, Option.bind_some, aliasTarget?_relabel, hkeys,
      firstAccepting?_forget]

theorem argumentCandidate?_forget (m : ClassMethod) (types : List String) (args : List Value)
    (contextName : Option String) :
    r.forget.argumentCandidate? m types (args.map Value.forget) contextName =
      (r.argumentCandidate? m types args contextName).map Candidate.forget := by
  have hscored : r.forget.scoredKeys m.traitName types contextName =
      r.scoredKeys m.traitName types contextName := by
    rw [scoredKeys, instanceKeys_relabel, scoredKeys]
  unfold argumentCandidate?
  simp only [keyArity_relabel, hscored, firstAccepting?_forget]
  by_cases harity : r.keyArity m.traitName = some types.length
  · simp only [harity, if_true]
    cases r.firstAccepting? m args true [⟨types⟩] <;> rfl
  · simp only [harity, if_false]

theorem byDictionary_forget (m : ClassMethod) (args : List Value) :
    r.forget.byDictionary m (args.map Value.forget) =
      ((r.byDictionary m args).1.map Value.forget, (r.byDictionary m args).2.map Value.forget) := by
  induction args with
  | nil => rfl
  | cons v args ih =>
    cases v with
    | dictionary d =>
      have hplaceholder : d.forget.isPlaceholder = d.isPlaceholder := by
        obtain ⟨id, traitName, key, methods, supers⟩ := d
        simp [Dictionary.isPlaceholder]
      simp only [List.map_cons, Value.relabel, byDictionary, hplaceholder, methodIn?_relabel, ih]
      cases d.isPlaceholder with
      | true => rfl
      | false =>
        cases r.methodIn? m.traitName m.method d with
        | none => simp
        | some found =>
          simp only [Option.map_some, acceptsArgs_forget]
          cases r.acceptsArgs found args <;> rfl
    | _ => rfl

end Registry

theorem ClassMethod.choose_forget (m : ClassMethod) (hasArgs : Bool) (types : List String)
    (context : Option (Ty × ContextSource)) (c a : Option Candidate) :
    m.choose hasArgs types context (c.map Candidate.forget) (a.map Candidate.forget) =
      m.choose hasArgs types context c a := by
  unfold choose
  cases c <;> cases a <;> rcases context with _ | ⟨expected, source⟩ <;> rfl

namespace Machine

variable (m : Machine) (method : ClassMethod)

theorem expectedType_forget (site : CallSite) :
    m.forget.expectedType method site.forget = m.expectedType method site := by
  have hresolve (ty : Ty) : m.forget.resolveAt ty site.forget = m.resolveAt ty site := by
    have hscope : site.forget.scope = site.scope := rfl
    unfold resolveAt
    rw [hscope]
    cases site.scope with
    | none => rfl
    | some scope => exact m.resolveType_forget ty scope
  unfold expectedType
  simp only [hresolve]
  rfl

theorem witnessCandidate?_forget :
    m.forget.witnessCandidate? method = (m.witnessCandidate? method).map Value.forget := by
  unfold witnessCandidate?
  split
  · show (m.witnesses.lookup method.traitName).bind (fun ty =>
      m.registry.forget.lookupWithAlias? method.traitName (.ofTypes [ty]) method.method) = _
    cases m.witnesses.lookup method.traitName with
    | none => rfl
    | some ty => exact Registry.lookupWithAlias?_forget _ _ _ _
  · rfl

theorem weigh_forget (args : List Value) (site : CallSite) :
    m.forget.weigh method (args.map Value.forget) site.forget =
      (m.weigh method args site).map Resolution.forget Fallback.forget := by
  have hregistry : m.forget.registry = m.registry.forget := rfl
  have hbyContext (o : Option (Ty × ContextSource)) (f : Ty × ContextSource → Option Candidate) :
      (o.bind fun c => (f c).map Candidate.forget) = (o.bind f).map Candidate.forget := by
    cases o <;> rfl
  have hbyArgument (c : Bool) (x : Option Candidate) :
      (if c then none else x).map Candidate.forget =
        if c then none else x.map Candidate.forget := by
    cases c <;> rfl
  unfold weigh
  simp only [expectedType_forget, hregistry, plainArgs_forget, ClassMethod.dispatchTypes_forget,
    Registry.contextCandidate?_forget, Registry.argumentCandidate?_forget, List.isEmpty_map]
  rw [hbyContext, ← hbyArgument, ClassMethod.choose_forget]
  generalize (m.expectedType method site).bind (fun c =>
    m.registry.contextCandidate? method c.1 (plainArgs args)) = byContext
  generalize (if method.isReturnOnly || (method.dispatchTypes (plainArgs args)).isEmpty then none
    else m.registry.argumentCandidate? method (method.dispatchTypes (plainArgs args))
      (plainArgs args) ((m.expectedType method site).bind fun c => c.1.constructorName)) =
    byArgument
  cases method.choose _ _ _ byContext byArgument <;> cases byContext <;> cases byArgument <;> rfl

theorem select_forget (args : List Value) (site : CallSite) :
    m.forget.select method (args.map Value.forget) site.forget =
      (m.select method args site).map Resolution.forget Fallback.forget := by
  have hregistry : m.forget.registry = m.registry.forget := rfl
  unfold select
  rw [hregistry, Registry.byDictionary_forget]
  rcases m.registry.byDictionary method args with ⟨found?, rest⟩
  cases found? with
  | some found => rfl
  | none =>
    simp only [Option.map_none, witnessCandidate?_forget]
    cases m.witnessCandidate? method with
    | some found => rfl
    | none => exact weigh_forget m method rest site

end Machine

theorem Registry.defaultKey_forget (r : Registry) (m : ClassMethod) (fb : Fallback) :
    r.forget.defaultKey m fb.forget = r.defaultKey m fb := by
  unfold defaultKey
  rw [keyArity_relabel]
  rfl

theorem Fallback.witness_forget (fb : Fallback) (m : ClassMethod)
    (place : Option (TypeKey × Bool)) : fb.forget.witness m place = fb.witness m place := rfl

end TraitLang
