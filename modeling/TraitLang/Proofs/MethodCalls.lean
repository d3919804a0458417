import TraitLang.Proofs.Currying

/-!
Method calls. Evaluation converges to an outcome if it has it with enough fuel. Main statement:
`receiver.method(args)` converges to what `method(receiver, args)` converges to, unless the receiver
is a foreign value or a record with such a callable, as long as the name keeps its value meanwhile.
-/
namespace TraitLang

namespace Run

open Coupling

variable {α β : Type} {x y : Apply → Run α} {f g : α → Apply → Run β} {s : Setting} {m : Machine}

/-- With enough fuel for the calls in it, a computation has this outcome. -/
def Converges (x : Apply → Run α) (s : Setting) (m : Machine) (o : Outcome α) : Prop :=
  o.Returned ∧ ∃ fuel, x (apply fuel) s m = o

/-- Two computations converge to the same outcomes. -/
def Agree (s : Setting) (m : Machine) (x y : Apply → Run α) : Prop :=
  ∀ o, Converges x s m o ↔ Converges y s m o

/-- With more fuel a computation that has returned returns the same. -/
structure Steady (x : Apply → Run α) : Prop where
  more : ∀ {s m n k}, n ≤ k → (x (apply n) s m).Returned → x (apply k) s m = x (apply n) s m

namespace Steady

theorem of_follows {R : α → α → Prop} (hR : ∀ a a', R a a' → a = a')
    (h : ∀ {s : Setting} {a a' : Apply}, (exactly s s).Applies a a' →
      (exactly s s).Follows R (x a) (x a')) : Steady x :=
  ⟨fun {s m _ _} hnk ho =>
    eq_of_outcomes hR (h (exactly_apply (.refl s) hnk) m m (machines_refl m)) ho⟩

theorem bind (hx : Steady x) (hf : ∀ a, Steady (f a)) : Steady fun a => x a >>= (f · a) := by
  constructor
  intro s m n k hnk ho
  cases hn : x (apply n) s m with
  | done b m₁ =>
    have hk : x (apply k) s m = .done b m₁ := by rw [hx.more hnk (by rw [hn]; trivial), hn]
    rw [bind_of_done hn] at ho ⊢
    rw [bind_of_done hk, (hf b).more hnk ho]
  | failed e m₁ =>
    have hk : x (apply k) s m = .failed e m₁ := by rw [hx.more hnk (by rw [hn]; trivial), hn]
    rw [bind_of_failed hn, bind_of_failed hk]
  | halted why =>
    rw [bind_of_halted hn] at ho
    cases ho

section Evaluation

theorem located {R : α → α → Prop} {x x' : Run α} (span : Span)
    (h : (exactly s s).Follows R x x') :
    (exactly s s).Follows R (mapFault (·.orLocation span) x) (mapFault (·.orLocation span) x') :=
  .mapFault (fun _ _ hf => (exactly_lawful (.refl s)).orLocation span hf) h

variable (scope : ScopeId) (span : Span)

theorem operand (e : Spanned Expr) :
    Steady fun a => mapFault (·.orLocation span) (settled a (evalNode a {} scope e)) :=
  of_follows (fun _ _ => SameValue.eq) fun ha =>
    located span (.settled ha (.node (exactly_lawful (.refl _)) ha {} scope e))

theorem operands (es : List (Spanned Expr)) :
    Steady fun a => mapFault (·.orLocation span) (evalAll a scope es) :=
  of_follows (fun _ _ => SameValues.eq) fun ha =>
    located span (.all (exactly_lawful (.refl _)) ha scope es)

theorem member (ctx : EvalCtx) (recv : Value) (method : String) (args : List Value)
    (site : CallSite) : Steady fun a =>
      settled a (mapFault (·.orLocation span) (callMember a ctx scope recv method args site)) :=
  of_follows (fun _ _ => SameValue.eq) fun ha =>
    .settled ha (located span
      (.callMember (exactly_lawful (.refl _)) ha ctx scope method site rfl rfl))

theorem finish (ctx : EvalCtx) (callee : Value) (args : List Value) (site : CallSite) :
    Steady fun a =>
      settled a (mapFault (·.orLocation span) (finishCall a ctx callee args site)) :=
  of_follows (fun _ _ => SameValue.eq) fun ha =>
    .settled ha (located span (.finishCall ha ctx site rfl rfl))

end Evaluation

end Steady

namespace Converges

theorem bind_imp (hx : Steady x) (hg : ∀ b, Steady (g b)) {o : Outcome β}
    (h : ∀ b m₁, Converges x s m (.done b m₁) → Converges (f b) s m₁ o → Converges (g b) s m₁ o)
    (ho : Converges (fun a => x a >>= (f · a)) s m o) :
    Converges (fun a => x a >>= (g · a)) s m o := by
  obtain ⟨ho, n, hn⟩ := ho
  refine ⟨ho, ?_⟩
  cases hxn : x (apply n) s m with
  | done b m₁ =>
    have hfn : f b (apply n) s m₁ = o := (bind_of_done hxn).symm.trans hn
    obtain ⟨-, k, hk⟩ := h b m₁ ⟨trivial, n, hxn⟩ ⟨ho, n, hfn⟩
    -- fuel for both parts
    have hxmax : x (apply (max n k)) s m = .done b m₁ := by
      rw [hx.more (Nat.le_max_left n k) (by rw [hxn]; trivial), hxn]
    have hgmax : g b (apply (max n k)) s m₁ = o := by
      rw [(hg b).more (Nat.le_max_right n k) (by rw [hk]; exact ho), hk]
    exact ⟨max n k, (bind_of_done hxmax).trans hgmax⟩
  | failed e m₁ => exact ⟨n, ((bind_of_failed hxn).trans (bind_of_failed hxn).symm).trans hn⟩
  | halted why =>
    obtain rfl : .halted why = o := (bind_of_halted hxn).symm.trans hn
    cases ho

theorem mapFault_imp {g : Fault → Fault} {o : Outcome α}
    (h : ∀ o, Converges x s m o → Converges y s m o)
    (ho : Converges (fun a => mapFault g (x a)) s m o) :
    Converges (fun a => mapFault g (y a)) s m o := by
  obtain ⟨ho, n, hn⟩ := ho
  have hreturned : (x (apply n) s m).Returned := by
    cases hxn : x (apply n) s m with
    | halted why =>
      simp only [mapFault, hxn] at hn
      rwa [← hn] at ho
    | _ => trivial
  obtain ⟨-, k, hk⟩ := h _ ⟨hreturned, n, rfl⟩
  exact ⟨ho, k, (mapFault_congr g hk).trans hn⟩

end Converges

namespace Agree

theorem of_eq (h : ∀ a, x a s m = y a s m) : Agree s m x y := fun o => by
  simp only [Converges, h]

theorem symm (h : Agree s m x y) : Agree s m y x := fun o => (h o).symm

theorem trans {z : Apply → Run α} (h : Agree s m x y) (h' : Agree s m y z) : Agree s m x z :=
  fun o => (h o).trans (h' o)

/-- What goes on after the same computation has to agree where that can end. -/
theorem bind (hx : Steady x) (hf : ∀ b, Steady (f b)) (hg : ∀ b, Steady (g b))
    (h : ∀ b m₁, Converges x s m (.done b m₁) → Agree s m₁ (f b) (g b)) :
    Agree s m (fun a => x a >>= (f · a)) fun a => x a >>= (g · a) := fun o =>
  ⟨Converges.bind_imp hx hg fun b m₁ hb => (h b m₁ hb o).1,
    Converges.bind_imp hx hf fun b m₁ hb => (h b m₁ hb o).2⟩

/-- Changing the faults of both alike changes nothing. -/
theorem mapFault (h : Agree s m x y) (g : Fault → Fault) :
    Agree s m (fun a => Run.mapFault g (x a)) fun a => Run.mapFault g (y a) := fun _ =>
  ⟨Converges.mapFault_imp fun o => (h o).1, Converges.mapFault_imp fun o => (h o).2⟩

end Agree

section Calls

variable {a : Apply} {ctx : EvalCtx} {scope : ScopeId} {recv fn : Value} {method : String}
  {args : List Value} {site : CallSite} {span : Span}

theorem lookup_of_get? (h : m.store.get? scope method = some fn) :
    lookup scope method s m = .done fn m := by
  rw [lookup, h]

/-- A receiver without members of its own is put in front of the arguments. -/
theorem callMember_of_plain (hforeign : recv.foreign? = none) (hmember : recv.member? method = none)
    (hfn : m.store.get? scope method = some fn) :
    callMember a ctx scope recv method args site s m =
      finishCall a ctx (.bound m.nextIdent fn recv) args site s m := by
  unfold callMember
  rw [hforeign, hmember]
  exact bind_of_done (lookup_of_get? hfn)

theorem settled_congr {x y : Run Step} (h : x s m = y s m) :
    settled a x s m = settled a y s m := by
  show Run.bind x _ s m = Run.bind y _ s m
  rw [Run.bind, Run.bind, h]

/-- A call in tail position is made outside of the expression that locates faults. -/
theorem settled_finishCall (a : Apply) (ctx : EvalCtx) (callee : Value) (args : List Value)
    (site : CallSite) (g : Fault → Fault) :
    settled a (mapFault g (finishCall a ctx callee args site)) =
      if ctx.tail then a callee args site else mapFault g (a callee args site) := by
  unfold finishCall settled
  split
  · rfl
  · rw [mapFault_bind, bind_assoc]
    exact bind_pure _

theorem agree_bound (id : Ident) (fn recv : Value) (args : List Value) (site : CallSite) :
    Agree s m (fun a => a (.bound id fn recv) args site) fun a => a fn (recv :: args) site := by
  intro o
  show Returns _ _ _ _ _ _ ↔ Returns _ _ _ _ _ _
  rw [returns_core_iff, returns_core_iff fn, Value.core, Value.taken, List.append_assoc]
  rfl

theorem agree_finishCall (id : Ident) (fn recv : Value) (args : List Value) (site : CallSite)
    (g : Fault → Fault) : Agree s m
      (fun a => settled a (mapFault g (finishCall a ctx (.bound id fn recv) args site)))
      fun a => settled a (mapFault g (finishCall a ctx fn (recv :: args) site)) := by
  simp only [settled_finishCall]
  cases ctx.tail with
  | true => exact agree_bound id fn recv args site
  | false => exact (agree_bound id fn recv args site).mapFault g

theorem agree_callMember (hforeign : recv.foreign? = none) (hmember : recv.member? method = none)
    (hfn : m.store.get? scope method = some fn) (ctx : EvalCtx) (args : List Value)
    (site : CallSite) (g : Fault → Fault) : Agree s m
      (fun a => settled a (mapFault g (callMember a ctx scope recv method args site)))
      fun a => settled a (mapFault g (finishCall a ctx fn (recv :: args) site)) := by
  refine .trans (.of_eq fun a => ?_) (agree_finishCall m.nextIdent fn recv args site g)
  exact settled_congr (mapFault_congr g (callMember_of_plain hforeign hmember hfn))

theorem settled_mapFault_bind (a : Apply) (g : Fault → Fault) (x : Run α) (f : α → Run Step) :
    settled a (Run.mapFault g (x >>= f)) =
      Run.mapFault g x >>= fun b => settled a (Run.mapFault g (f b)) := by
  unfold settled
  rw [mapFault_bind, bind_assoc]

/-- The site of a call of a named function. -/
def siteOf (ctx : EvalCtx) (scope : ScopeId) (id : NodeId) (name : String) (span : Span) :
    CallSite :=
  { name, node := some id, span, annotation := ctx.annotation, scope := some scope }

theorem settled_methodCall (a : Apply) (ctx : EvalCtx) (scope : ScopeId) (id : NodeId)
    (receiver : Spanned Expr) (method : String) (operands : List (Spanned Expr)) (span : Span) :
    settled a (evalNode a ctx scope ⟨.methodCall id receiver method operands, span⟩) =
      Run.mapFault (·.orLocation span) (settled a (evalNode a {} scope receiver)) >>= fun recv =>
        Run.mapFault (·.orLocation span) (evalAll a scope operands) >>= fun args =>
          settled a (Run.mapFault (·.orLocation span)
            (callMember a ctx scope recv method args (siteOf ctx scope id method span))) := by
  simp only [evalNode, evalForm, settled_mapFault_bind]
  rfl

theorem settled_call (hfn : m.store.get? scope method = some fn) (a : Apply) (ctx : EvalCtx)
    (id : NodeId) (receiver : Spanned Expr) (operands : List (Spanned Expr)) (span span' : Span)
    (s : Setting) : settled a (evalNode a ctx scope
        ⟨.call id ⟨.var method, span'⟩ (receiver :: operands), span⟩) s m =
      (Run.mapFault (·.orLocation span) (settled a (evalNode a {} scope receiver)) >>= fun recv =>
        Run.mapFault (·.orLocation span) (evalAll a scope operands) >>= fun args =>
          settled a (Run.mapFault (·.orLocation span)
            (finishCall a ctx fn (recv :: args) (siteOf ctx scope id method span)))) s m := by
  have hvar : Run.mapFault (·.orLocation span)
      (settled a (evalNode a {} scope ⟨.var method, span'⟩)) s m = .done fn m := by
    have hlookup := lookup_of_get? (s := s) hfn
    show Run.mapFault _ (Run.bind (Run.mapFault _ (Run.bind (lookup scope method) _)) _) s m = _
    simp only [Run.mapFault, Run.bind, hlookup]
    rfl
  rw [evalNode, evalForm, settled_mapFault_bind, bind_of_done hvar]
  simp only [evalAll, bind_assoc, pure_bind, settled_mapFault_bind]
  rfl

end Calls

end Run

open Run

/-- An expression has this outcome, with the call made that it leaves in tail position. -/
def Evaluates (ctx : EvalCtx) (scope : ScopeId) (e : Spanned Expr) (s : Setting) (m : Machine)
    (o : Outcome Value) : Prop :=
  Converges (fun a => settled a (evalNode a ctx scope e)) s m o

def EvaluatesAll (scope : ScopeId) (es : List (Spanned Expr)) (s : Setting) (m : Machine)
    (o : Outcome (List Value)) : Prop :=
  Converges (fun a => evalAll a scope es) s m o

/-- A method call is a call with the receiver in front. For any receiver, arguments, expected type
and mode: if the receiver, should it have a value, is neither foreign nor a record with a callable
of that name, and if the name is bound to the same value before and after receiver and arguments are
evaluated, then the method call, with the call made that it leaves, has the outcomes, a result or a
fault and the machine after it, that the call of the function has. -/
theorem method_call_agrees {ctx : EvalCtx} {scope : ScopeId} {id : NodeId}
    {receiver : Spanned Expr} {method : String} {operands : List (Spanned Expr)}
    {s : Setting} {m : Machine} {fn : Value} (span span' : Span)
    (hbefore : m.store.get? scope method = some fn)
    (hreceiver : ∀ recv m₁, Evaluates {} scope receiver s m (.done recv m₁) →
      recv.foreign? = none ∧ recv.member? method = none)
    (hafter : ∀ recv m₁ args m₂, Evaluates {} scope receiver s m (.done recv m₁) →
      EvaluatesAll scope operands s m₁ (.done args m₂) → m₂.store.get? scope method = some fn)
    (o : Outcome Value) :
    Evaluates ctx scope ⟨.methodCall id receiver method operands, span⟩ s m o ↔
      Evaluates ctx scope ⟨.call id ⟨.var method, span'⟩ (receiver :: operands), span⟩ s m o := by
  have located {α : Type} {x : Apply → Run α} {m m₁ : Machine} {b : α}
      (h : Converges (fun a => mapFault (·.orLocation span) (x a)) s m (.done b m₁)) :
      Converges x s m (.done b m₁) :=
    ⟨trivial, h.2.imp fun _ => done_of_mapFault⟩
  have hcall := Agree.of_eq fun a => settled_call hbefore a ctx id receiver operands span span' s
  refine (Agree.trans ?_ hcall.symm) o
  simp only [settled_methodCall]
  refine .bind (.operand scope span receiver)
    (fun recv => .bind (.operands scope span operands) fun args => .member scope span _ _ _ _ _)
    (fun recv => .bind (.operands scope span operands) fun args => .finish span _ _ _ _)
    fun recv m₁ hrecv => ?_
  refine .bind (.operands scope span operands) (fun args => .member scope span _ _ _ _ _)
    (fun args => .finish span _ _ _ _) fun args m₂ hargs => ?_
  obtain ⟨hforeign, hmember⟩ := hreceiver recv m₁ (located hrecv)
  have hfn := hafter recv m₁ args m₂ (located hrecv) (located hargs)
  exact agree_callMember hforeign hmember hfn ctx args _ _

/-- In tail position, on a record whose field of that name cannot be called, with an argument that
assigns to another variable. -/
theorem method_call_agrees_pair :
    let store := (Store.fresh.define Store.global "pair" (.constructor 0 "Pair" "Pair" 2)).define
      Store.global "seen" (.bool false)
    let m : Machine := { store, nextIdent := 1 }
    let receiver : Spanned Expr := ⟨.record [("pair", ⟨.lit .unit, {}⟩)], {}⟩
    let operands : List (Spanned Expr) := [⟨.assign "seen" ⟨.lit (.bool true), {}⟩, {}⟩]
    let pair : Value := .data "Pair" "Pair" [.record [("pair", .unit)], .unit]
    let seen := store.define Store.global "seen" (.bool true)
    m.store.get? Store.global "pair" = some (.constructor 0 "Pair" "Pair" 2) ∧
      Evaluates { tail := true } Store.global ⟨.methodCall 3 receiver "pair" operands, {}⟩ {} m
        (.done pair { m with store := seen }) := by
  intro store m receiver operands pair seen
  have hreceiver (recv : Value) (m₁ : Machine)
      (h : Evaluates {} Store.global receiver {} m (.done recv m₁)) :
      recv = .record [("pair", .unit)] ∧ m₁ = m := by
    obtain ⟨-, fuel, h⟩ := h
    cases h
    exact ⟨rfl, rfl⟩
  have hafter (args : List Value) (m₂ : Machine)
      (h : EvaluatesAll Store.global operands {} m (.done args m₂)) :
      m₂ = { m with store := seen } := by
    obtain ⟨-, fuel, h⟩ := h
    cases h
    rfl
  refine ⟨rfl, (method_call_agrees {} {} rfl (fun recv m₁ h => ?_)
    (fun recv m₁ args m₂ h h' => ?_) _).2 ⟨trivial, 2, rfl⟩⟩
  · obtain ⟨rfl, -⟩ := hreceiver recv m₁ h
    exact ⟨rfl, rfl⟩
  · obtain ⟨-, rfl⟩ := hreceiver recv m₁ h
    rw [hafter args m₂ h']
    rfl

end TraitLang
