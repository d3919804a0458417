import TraitLang.Interpreter

/-!
Tail position changes when a call is made, not what happens. Main statement: evaluating an
expression in tail position gives what evaluating it elsewhere gives, or it stops before a call in
tail position, and evaluating it elsewhere goes on with that call on the machine at hand; only the
position of a fault may come from an expression around the call.
-/
namespace TraitLang

/-- A call in tail position of an expression: the positions of the call and of the expressions
around it, the innermost first. -/
inductive TailPath (site : CallSite) : Spanned Expr → List Span → Prop where
  | call {id : NodeId} {callee : Spanned Expr} {args : List (Spanned Expr)} :
      site.node = some id → TailPath site ⟨.call id callee args, site.span⟩ [site.span]
  | methodCall {id : NodeId} {receiver : Spanned Expr} {method : String}
      {args : List (Spanned Expr)} : site.node = some id →
      TailPath site ⟨.methodCall id receiver method args, site.span⟩ [site.span]
  | yes {test yes no : Spanned Expr} {span : Span} {path : List Span} :
      TailPath site yes path → TailPath site ⟨.cond test yes no, span⟩ (path ++ [span])
  | no {test yes no : Spanned Expr} {span : Span} {path : List Span} :
      TailPath site no path → TailPath site ⟨.cond test yes no, span⟩ (path ++ [span])
  | body {name : String} {ty : Option Ty} {value body : Spanned Expr} {span : Span}
      {path : List Span} :
      TailPath site body path → TailPath site ⟨.letIn name ty value body, span⟩ (path ++ [span])
  | last {es : List (Spanned Expr)} {e : Spanned Expr} {span : Span} {path : List Span} :
      es.getLast? = some e → TailPath site e path → TailPath site ⟨.block es, span⟩ (path ++ [span])
  | arm {scrutinee : Spanned Expr} {arms : List Arm} {arm : Arm} {span : Span} {path : List Span} :
      arm ∈ arms → TailPath site arm.body path →
      TailPath site ⟨.choose scrutinee arms, span⟩ (path ++ [span])

namespace Fault

/-- A fault that leaves expressions at these positions, the innermost first. -/
def through (f : Fault) (path : List Span) : Fault := path.foldl orLocation f

theorem through_append (f : Fault) (path : List Span) (span : Span) :
    f.through (path ++ [span]) = (f.through path).orLocation span := by
  simp [through]

theorem orLocation_orLocation (f : Fault) (span span' : Span) :
    (f.orLocation span).orLocation span' = f.orLocation span ∨
      (f.orLocation span).orLocation span' = f.orLocation span' := by
  cases hl : f.location with
  | some l => exact .inl (by simp [orLocation, hl])
  | none =>
    cases hk : span.isKnown with
    | true => exact .inl (by simp [orLocation, hl, hk])
    | false => exact .inr (by simp [orLocation, hl, hk])

/-- The fault gets one position at most. -/
theorem through_eq (f : Fault) (path : List Span) :
    f.through path = f ∨ ∃ span ∈ path, f.through path = f.orLocation span := by
  induction path generalizing f with
  | nil => exact .inl rfl
  | cons span path ih =>
    right
    rcases ih (f.orLocation span) with hsame | ⟨span', hmem, hlocated⟩
    · exact ⟨span, List.mem_cons_self, hsame⟩
    · rcases f.orLocation_orLocation span span' with hfirst | hsecond
      · exact ⟨span, List.mem_cons_self, hlocated.trans hfirst⟩
      · exact ⟨span', List.mem_cons_of_mem _ hmem, hlocated.trans hsecond⟩

end Fault

/-- What a call returned, as the end of an evaluation around it. -/
inductive Made (path : List Span) : Outcome Value → Outcome Step → Prop where
  | done (v : Value) (m : Machine) : Made path (.done v m) (.done (.done v) m)
  | failed (f : Fault) (m : Machine) : Made path (.failed f m) (.failed (f.through path) m)
  | halted (why : Halt) : Made path (.halted why) (.halted why)

/-- How evaluations of one expression end in tail position and elsewhere; a call that the first one
leaves has one of these paths. -/
inductive Deferred (a : Apply) (s : Setting) (P : CallSite → List Span → Prop) :
    Outcome Step → Outcome Step → Prop where
  | done (v : Value) (m : Machine) : Deferred a s P (.done (.done v) m) (.done (.done v) m)
  | failed (f : Fault) (m : Machine) : Deferred a s P (.failed f m) (.failed f m)
  | halted (why : Halt) : Deferred a s P (.halted why) (.halted why)
  | tail (callee : Value) (args : List Value) (site : CallSite) (m : Machine) {path : List Span}
      {o : Outcome Step} : P site path → Made path (a callee args site s m) o →
      Deferred a s P (.done (.tail callee args site) m) o

theorem Made.ne_tail {path : List Span} {o : Outcome Value} {o' : Outcome Step}
    (h : Made path o o') (callee : Value) (args : List Value) (site : CallSite) (m : Machine) :
    o' ≠ .done (.tail callee args site) m := by
  cases h <;> simp

/-- Outside tail position every call is made. -/
theorem Deferred.ne_tail {a : Apply} {s : Setting} {P : CallSite → List Span → Prop}
    {o o' : Outcome Step} (h : Deferred a s P o o') (callee : Value) (args : List Value)
    (site : CallSite) (m : Machine) : o' ≠ .done (.tail callee args site) m := by
  cases h with
  | tail _ _ _ _ _ hmade => exact hmade.ne_tail callee args site m
  | _ => simp

namespace Run

/-- The second evaluation makes the call that the first one leaves. -/
def Defers (a : Apply) (P : CallSite → List Span → Prop) (x x' : Run Step) : Prop :=
  ∀ s m, Deferred a s P (x s m) (x' s m)

namespace Defers

variable {α : Type} {a : Apply} {P Q : CallSite → List Span → Prop} {x x' : Run Step}

theorem imp (h : Defers a P x x') (hPQ : ∀ {site path}, P site path → Q site path) :
    Defers a Q x x' := by
  intro s m
  have hs := h s m
  generalize x s m = o, x' s m = o' at hs ⊢
  cases hs with
  | done v m₁ => exact .done v m₁
  | failed f m₁ => exact .failed f m₁
  | halted why => exact .halted why
  | tail callee args site m₁ hpath hmade => exact .tail callee args site m₁ (hPQ hpath) hmade

theorem done (v : Value) : Defers a P (pure (.done v)) (pure (.done v)) := fun _ m => .done v m

theorem fail (cause : Cause) : Defers a P (fail cause) (fail cause) := fun _ m => .failed _ m

theorem bind (y : Run α) {f f' : α → Run Step} (h : ∀ b, Defers a P (f b) (f' b)) :
    Defers a P (y >>= f) (y >>= f') := by
  intro s m
  show Deferred a s P (Run.bind y f s m) (Run.bind y f' s m)
  unfold Run.bind
  cases y s m with
  | done b m₁ => exact h b s m₁
  | failed e m₁ => exact .failed e m₁
  | halted why => exact .halted why

theorem value (y : Run Value) : Defers a P (do return .done (← y)) (do return .done (← y)) :=
  bind y done

theorem located (span : Span) (h : Defers a (fun site path => P site (path ++ [span])) x x') :
    Defers a P (mapFault (·.orLocation span) x) (mapFault (·.orLocation span) x') := by
  intro s m
  have hs := h s m
  unfold Run.mapFault
  generalize x s m = o, x' s m = o' at hs ⊢
  cases hs with
  | done v m₁ => exact .done v m₁
  | failed f m₁ => exact .failed _ m₁
  | halted why => exact .halted why
  | @tail callee args site m₁ path _ hpath hmade =>
    refine .tail callee args site m₁ hpath ?_
    generalize a callee args site s m₁ = made at hmade ⊢
    cases hmade with
    | done v m₂ => exact .done v m₂
    | failed f m₂ =>
      dsimp only
      rw [← Fault.through_append]
      exact .failed f m₂
    | halted why => exact .halted why

theorem finishCall (expected : Option Ty) (callee : Value) (args : List Value) {site : CallSite}
    (hsite : P site []) :
    Defers a P (finishCall a { tail := true, annotation := expected } callee args site)
      (finishCall a { tail := false, annotation := expected } callee args site) := by
  intro s m
  refine .tail callee args site m hsite ?_
  show Made [] (a callee args site s m) (Run.bind (a callee args site) _ s m)
  unfold Run.bind
  cases a callee args site s m with
  | done v m₁ => exact .done v m₁
  | failed f m₁ => exact .failed f m₁
  | halted why => exact .halted why

theorem callMember (expected : Option Ty) (scope : ScopeId) (recv : Value) (method : String)
    (args : List Value) {site : CallSite} (hsite : P site []) :
    Defers a P (callMember a { tail := true, annotation := expected } scope recv method args site)
      (callMember a { tail := false, annotation := expected } scope recv method args site) := by
  unfold Run.callMember
  split
  · refine bind bridge fun b => ?_
    split
    · exact fail _
    · exact value _
  · split
    · exact finishCall expected _ args hsite
    · exact bind _ fun fn => bind _ fun id => finishCall expected _ args hsite

mutual

theorem node (expected : Option Ty) (scope : ScopeId) : ∀ e : Spanned Expr,
    Defers a (TailPath · e) (evalNode a { tail := true, annotation := expected } scope e)
      (evalNode a { tail := false, annotation := expected } scope e)
  | ⟨e, span⟩ => by
    rw [evalNode, evalNode]
    exact located span (form expected scope span e)

theorem form (expected : Option Ty) (scope : ScopeId) (span : Span) : ∀ e : Expr,
    Defers a (fun site path => TailPath site ⟨e, span⟩ (path ++ [span]))
      (evalForm a { tail := true, annotation := expected } scope span e)
      (evalForm a { tail := false, annotation := expected } scope span e)
  | .lit l => by rw [evalForm, evalForm]; exact done _
  | .operator op => by rw [evalForm, evalForm]; exact done _
  | .var name => by rw [evalForm, evalForm]; exact value _
  | .list items | .tuple items | .record items => by
    rw [evalForm, evalForm]
    exact bind _ fun _ => done _
  | .range start stop => by
    rw [evalForm, evalForm]
    exact bind _ fun _ => bind _ fun _ => value _
  | .lambda f => by
    rw [evalForm, evalForm]
    exact bind _ fun _ => bind _ fun _ => done _
  | .call id callee args => by
    rw [evalForm, evalForm]
    exact bind _ fun fn => bind _ fun vals => finishCall expected fn vals (.call rfl)
  | .methodCall id receiver method args => by
    rw [evalForm, evalForm]
    exact bind _ fun recv => bind _ fun vals =>
      callMember expected scope recv method vals (.methodCall rfl)
  | .field target name => by
    rw [evalForm, evalForm]
    exact bind _ fun _ => value _
  | .binary left op right => by
    rw [evalForm, evalForm]
    refine bind _ fun l => ?_
    split
    · refine bind _ fun b => ?_
      split
      · exact bind _ fun r => bind _ fun _ => done _
      · exact done _
    · exact bind _ fun _ => value _
  | .unary op operand => by
    rw [evalForm, evalForm]
    exact bind _ fun _ => value _
  | .compose outer inner => by
    rw [evalForm, evalForm]
    exact bind _ fun _ => bind _ fun _ => bind _ fun _ => done _
  | .cond test yes no => by
    rw [evalForm, evalForm]
    refine bind _ fun v => bind _ fun b => ?_
    split
    · exact (node expected scope yes).imp .yes
    · exact (node expected scope no).imp .no
  | .letIn name ty value body => by
    rw [evalForm, evalForm]
    exact bind _ fun v => bind _ fun inner => bind _ fun _ =>
      (node expected inner body).imp .body
  | .block [] => by rw [evalForm, evalForm]; exact done _
  | .block (e :: es) => by
    rw [evalForm, evalForm]
    refine bind _ fun inner => (seq expected inner (e :: es)).imp ?_
    rintro site path ⟨last, hlast, hpath⟩
    exact .last hlast hpath
  | .assign name value => by
    rw [evalForm, evalForm]
    exact bind _ fun _ => bind _ fun _ => done _
  | .annotated e ty => by
    rw [evalForm, evalForm]
    exact bind _ fun _ => value _
  | .choose scrutinee branches => by
    rw [evalForm, evalForm]
    refine bind _ fun v => (arms expected scope v branches).imp ?_
    rintro site path ⟨arm, hmem, hpath⟩
    exact .arm hmem hpath
  | .dict traitName types => by
    unfold evalForm
    split
    · exact bind _ fun _ => done _
    · exact bind _ fun _ => done _
  | .doChain [] body => by rw [evalForm, evalForm]; exact value _
  | .doChain (⟨name, source⟩ :: rest) body => by
    rw [evalForm, evalForm]
    exact bind _ fun _ => value _
  | .attempt body => by
    rw [evalForm, evalForm]
    refine bind _ fun r => ?_
    cases r with
    | ok v => exact done v
    | error f => exact bind _ fun _ => done _

theorem seq (expected : Option Ty) (scope : ScopeId) : ∀ es : List (Spanned Expr),
    Defers a (fun site path => ∃ e, es.getLast? = some e ∧ TailPath site e path)
      (evalSeq a { tail := true, annotation := expected } scope es)
      (evalSeq a { tail := false, annotation := expected } scope es)
  | [] => by rw [evalSeq, evalSeq]; exact done _
  | [e] => by rw [evalSeq, evalSeq]; exact (node expected scope e).imp fun hpath => ⟨e, rfl, hpath⟩
  | e :: e' :: es => by
    rw [evalSeq, evalSeq]
    refine bind _ fun _ => (seq expected scope (e' :: es)).imp ?_
    rintro site path ⟨last, hlast, hpath⟩
    exact ⟨last, by rwa [List.getLast?_cons_cons], hpath⟩

theorem arms (expected : Option Ty) (scope : ScopeId) (v : Value) : ∀ branches : List Arm,
    Defers a (fun site path => ∃ arm ∈ branches, TailPath site arm.body path)
      (evalArms a { tail := true, annotation := expected } scope v branches)
      (evalArms a { tail := false, annotation := expected } scope v branches)
  | [] => by rw [evalArms, evalArms]; exact fail _
  | ⟨pattern, body⟩ :: branches => by
    rw [evalArms, evalArms]
    refine bind _ fun inner => bind _ fun matched => ?_
    split
    · exact (node expected inner body).imp fun hpath => ⟨_, List.mem_cons_self, hpath⟩
    · refine (arms expected scope v branches).imp ?_
      rintro site path ⟨arm, hmem, hpath⟩
      exact ⟨arm, List.mem_cons_of_mem _ hmem, hpath⟩

end

end Defers

end Run

/-- In tail position an expression gives the same value or fault as elsewhere, or it leaves a call
in tail position of it. Elsewhere it then goes on with that call on the machine that was left, and a
fault of the call gets the first known position on the way out unless it has one. Calls are left in
tail position only. -/
theorem evalNode_deferred (a : Apply) (expected : Option Ty) (scope : ScopeId) (e : Spanned Expr)
    (s : Setting) (m : Machine) :
    Deferred a s (TailPath · e)
        (evalNode a { tail := true, annotation := expected } scope e s m)
        (evalNode a { tail := false, annotation := expected } scope e s m) ∧
      ∀ callee args site m', evalNode a { tail := false, annotation := expected } scope e s m ≠
        .done (.tail callee args site) m' := by
  have hdeferred : Deferred a s (TailPath · e) _ _ := Run.Defers.node expected scope e s m
  exact ⟨hdeferred, hdeferred.ne_tail⟩

end TraitLang
