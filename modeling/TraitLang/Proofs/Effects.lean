import TraitLang.Interpreter

/-!
What a run may do to a machine: use up identities, add scopes and fill them, give bound names new
values, print, and turn the default of a trait into a method of an instance. The stacks are not
among it: whoever pushes an entry takes it off again. Main statement: applying a callable and
evaluating an expression have such effects only, however they end.
-/
namespace TraitLang

namespace Machine

/-- A machine on the stacks of another one. -/
def onStacksOf (m t : Machine) : Machine :=
  { m with
    calls := t.calls
    witnesses := t.witnesses
    typeContext := t.typeContext
    containers := t.containers }

/-- The four stacks hold the same entries. -/
structure SameStacks (m t : Machine) : Prop where
  calls : m.calls = t.calls
  witnesses : m.witnesses = t.witnesses
  typeContext : m.typeContext = t.typeContext
  containers : m.containers = t.containers

theorem SameStacks.refl (m : Machine) : m.SameStacks m := ⟨rfl, rfl, rfl, rfl⟩

theorem SameStacks.trans {m₁ m₂ m₃ : Machine} (h : m₁.SameStacks m₂) (h' : m₂.SameStacks m₃) :
    m₁.SameStacks m₃ :=
  ⟨h.calls.trans h'.calls, h.witnesses.trans h'.witnesses, h.typeContext.trans h'.typeContext,
    h.containers.trans h'.containers⟩

end Machine

/-- What loading a program does to the registry, step by step. -/
inductive Registry.Loads : Registry → Registry → Prop where
  | absorb (r : Registry) (h : Hints) : Loads r (r.absorb h)
  | declare (r : Registry) (t : TraitDef) : Loads r (r.declare t)
  | addInstance (r : Registry) (traitName : String) (key : TypeKey) :
      Loads r (r.addInstance traitName key)
  | addMethod (r : Registry) (traitName : String) (key : TypeKey) (method : String) (id : Ident)
      (f : Func) :
      Loads r (r.addMethod traitName key method
        (.function id { func := f, scope := Store.global, owner := some traitName }))

/-- What native functions may do that programs cannot: bind names in scopes that they did not make,
change the registry, load programs. -/
structure Powers where
  defines : Prop
  changes : Registry → Registry → Prop
  loads : Prop
  defines_of_loads : loads → defines
  changes_of_loads : loads → ∀ {r r' : Registry}, r.Loads r' → changes r r'

namespace Powers

def all : Powers where
  defines := True
  changes _ _ := True
  loads := True
  defines_of_loads := id
  changes_of_loads _ _ _ _ := trivial

/-- Some changes of the registry and nothing else. -/
def only (changes : Registry → Registry → Prop) : Powers where
  defines := False
  changes
  loads := False
  defines_of_loads := id
  changes_of_loads := False.elim

end Powers

def Registration.Within (W : Powers) : Registration → Prop
  | .traitDefault traitName method v => ∀ r, W.changes r (r.addBuiltinDefault traitName method v)
  | .instanceMethod traitName types method v =>
    ∀ r, W.changes r (r.addMethod traitName (.ofTypes types) method v)
  | .bridge _ | .fallback _ => True

/-- A native function that made the scopes `own` goes on within its powers. -/
def Action.Within (W : Powers) : Action → List ScopeId → Prop
  | .done _, _ | .fail _, _ => True
  | .write _ next, own => next.Within W own
  | .fresh next, own => ∀ id, (next id).Within W own
  | .depths next, own => ∀ i j k, (next i j k).Within W own
  | .limits next, own => ∀ l, (next l).Within W own
  | .look next, own => ∀ r st, (next r st).Within W own
  | .newScope _ next, own => ∀ id, (next id).Within W (id :: own)
  | .define scope _ _ next, own => (scope ∈ own ∨ W.defines) ∧ next.Within W own
  | .assign _ _ _ next, own => ∀ bound, (next bound).Within W own
  | .apply _ _ _ next, own | .call _ _ next, own | .eval _ next, own =>
    ∀ r, (next r).Within W own
  | .resolve _ _ _ next, own => ∀ r, (next r).Within W own
  | .load _ next, own => W.loads ∧ ∀ r, (next r).Within W own
  | .register r next, own => r.Within W ∧ next.Within W own

def Host.Within (W : Powers) (h : Host) : Prop :=
  ∀ name args, (h.native name args).Within W []

theorem Action.within_all (act : Action) (own : List ScopeId) : act.Within .all own := by
  induction act generalizing own with
  | done v | fail f => trivial
  | write text next ih => exact ih own
  | fresh next ih => exact fun id => ih id own
  | depths next ih => exact fun i j k => ih i j k own
  | limits next ih => exact fun l => ih l own
  | look next ih => exact fun r st => ih r st own
  | newScope parent next ih => exact fun id => ih id (id :: own)
  | define scope name v next ih => exact ⟨.inr trivial, ih own⟩
  | assign scope name v next ih => exact fun bound => ih bound own
  | apply callee args site next ih | call name args next ih | eval e next ih
  | resolve method args site next ih => exact fun r => ih r own
  | load p next ih => exact ⟨trivial, fun r => ih r own⟩
  | register r next ih =>
    refine ⟨?_, ih own⟩
    cases r with
    | traitDefault | instanceMethod => exact fun _ => trivial
    | bridge | fallback => trivial

theorem Host.within_all (h : Host) : h.Within .all := fun _ _ => Action.within_all _ _

theorem CoreNative.within (c : CoreNative) (args : List Value) (W : Powers) (own : List ScopeId) :
    (c.action args).Within W own := by
  rcases c.action_cases args with ⟨v, h⟩ | ⟨cause, h⟩ | ⟨text, v, h⟩ | ⟨next, h⟩
  · rw [h]; trivial
  · rw [h]; trivial
  · rw [h]; trivial
  · rw [h]; exact fun _ _ _ => trivial

/-- What a run may do to a machine. The first `n` scopes keep their names, unless native functions
may bind names there. -/
inductive Effect (W : Powers) (n : Nat) : Machine → Machine → Prop where
  | refl (m : Machine) : Effect W n m m
  | trans {m₁ m₂ m₃ : Machine} : Effect W n m₁ m₂ → Effect W n m₂ m₃ → Effect W n m₁ m₃
  | ident (m : Machine) (next : Ident) : m.nextIdent ≤ next →
      Effect W n m { m with nextIdent := next }
  | child (m : Machine) (parent : ScopeId) :
      Effect W n m { m with store := (m.store.child parent).1 }
  | define (m : Machine) (scope : ScopeId) (name : String) (v : Value) : n ≤ scope ∨ W.defines →
      Effect W n m { m with store := m.store.define scope name v }
  | assign (m : Machine) (scope owner : ScopeId) (name : String) (v : Value) :
      m.store.owner? scope name = some owner →
      Effect W n m { m with store := m.store.define owner name v }
  | print (m : Machine) (text : String) : Effect W n m { m with output := m.output ++ text }
  | materialize (m : Machine) (traitName method : String) (key : TypeKey) (id : Ident) (f : Func) :
      m.registry.userDefault? traitName method = some f →
      Effect W n m { m with
        registry := m.registry.addMethod traitName key method
          (.function id (Registry.defaultClosure traitName f)) }
  | change (m : Machine) (r : Registry) : W.changes m.registry r →
      Effect W n m { m with registry := r }
  | source (m : Machine) (file : String) (hints : Hints) : W.loads →
      Effect W n m { m with file, hints }
  | install (m : Machine) (bridge fallback : Option String) :
      Effect W n m { m with bridge, fallback }

namespace Effect

variable {W : Powers} {n : Nat} {m m' t : Machine}

theorem sameStacks (h : Effect W n m m') : m'.SameStacks m := by
  induction h with
  | trans _ _ ih₁ ih₂ => exact ih₂.trans ih₁
  | _ => exact ⟨rfl, rfl, rfl, rfl⟩

theorem size_le (h : Effect W n m m') : m.store.scopes.size ≤ m'.store.scopes.size := by
  induction h with
  | trans _ _ ih₁ ih₂ => exact Nat.le_trans ih₁ ih₂
  | child m parent => simp [Store.child]
  | define m | assign m => simp [Store.define]
  | _ => exact Nat.le_refl _

/-- Without loading, call frames keep naming the same file, and the hints stay. -/
theorem sameSource (h : Effect W n m m') (hW : ¬W.loads) :
    m'.file = m.file ∧ m'.hints = m.hints := by
  induction h with
  | trans _ _ ih₁ ih₂ => exact ⟨ih₂.1.trans ih₁.1, ih₂.2.trans ih₁.2⟩
  | source m file hints h => exact absurd h hW
  | _ => exact ⟨rfl, rfl⟩

/-- Effects do not depend on the stacks. -/
theorem onStacksOf (h : Effect W n m m') (t : Machine) :
    Effect W n (m.onStacksOf t) (m'.onStacksOf t) := by
  induction h with
  | refl m => exact .refl _
  | trans _ _ ih₁ ih₂ => exact ih₁.trans ih₂
  | ident m next h => exact .ident (m.onStacksOf t) next h
  | child m parent => exact .child (m.onStacksOf t) parent
  | define m scope name v h => exact .define (m.onStacksOf t) scope name v h
  | assign m scope owner name v h => exact .assign (m.onStacksOf t) scope owner name v h
  | print m text => exact .print (m.onStacksOf t) text
  | materialize m traitName method key id f h =>
    exact .materialize (m.onStacksOf t) traitName method key id f h
  | change m r h => exact .change (m.onStacksOf t) r h
  | source m file hints h => exact .source (m.onStacksOf t) file hints h
  | install m bridge fallback => exact .install (m.onStacksOf t) bridge fallback

end Effect

namespace Registry

theorem le_nextIdent_superDictionaries (r : Registry) (key : TypeKey)
    {build : String → Trail → Dictionary × Trail}
    (hbuild : ∀ name trail, trail.nextIdent ≤ (build name trail).2.nextIdent)
    (sups : List String) (trail : Trail) :
    trail.nextIdent ≤ (r.superDictionaries key build sups trail).2.nextIdent := by
  induction sups generalizing trail with
  | nil => exact Nat.le_refl _
  | cons sup sups ih =>
    rw [superDictionaries]
    split
    · exact ih trail
    · exact Nat.le_trans (hbuild sup trail) (ih _)

theorem le_nextIdent_assemble (r : Registry) (key : TypeKey) (fuel : Nat) (traitName : String)
    (trail : Trail) : trail.nextIdent ≤ (r.assemble key fuel traitName trail).2.nextIdent := by
  induction fuel generalizing traitName trail with
  | zero => exact Nat.le_succ _
  | succ fuel ih =>
    refine Nat.le_trans ?_ (le_nextIdent_superDictionaries r key ih _ _)
    simp only
    omega

/-- Building a dictionary uses up identities. -/
theorem le_of_dictionary? {r : Registry} {traitName : String} {key : TypeKey} {next next' : Ident}
    {d : Dictionary} (h : r.dictionary? traitName key next = some (d, next')) : next ≤ next' := by
  unfold dictionary? at h
  split at h
  · have le := le_nextIdent_assemble r key (r.instances.length + 1) traitName ⟨[], next⟩
    simp only [Option.some.injEq, Prod.mk.injEq] at h
    exact h.2 ▸ le
  · cases h

end Registry

namespace Outcome

variable {α β : Type} {P P' : α → Machine → Prop} {Q Q' H H' : Machine → Prop}

/-- How a computation ends: with a value, with a fault, or at a breakpoint. -/
def Ends (P : α → Machine → Prop) (Q H : Machine → Prop) : Outcome α → Prop
  | .done a m => P a m
  | .failed _ m => Q m
  | .halted (.breakpoint _ m) => H m
  | .halted .outOfFuel => True

theorem Ends.imp {o : Outcome α} (h : o.Ends P Q H) (hP : ∀ a m, P a m → P' a m)
    (hQ : ∀ m, Q m → Q' m) (hH : ∀ m, H m → H' m) : o.Ends P' Q' H' := by
  cases o with
  | done a m => exact hP a m h
  | failed f m => exact hQ m h
  | halted why =>
    cases why with
    | outOfFuel => trivial
    | breakpoint e m => exact hH m h

end Outcome

/-- How a computation ends that started on machine `m`: back on the stacks of `m`, unless it was
stopped at a breakpoint, where the calls and the evidence satisfy `B`. -/
def Outcome.Restores {α : Type} (W : Powers) (B : Stack CallFrame → WitnessStack → Prop) (n : Nat)
    (m : Machine) (o : Outcome α) : Prop :=
  o.Ends (fun _ m' => Effect W n m m') (fun m' => Effect W n m m') fun m' => B m'.calls m'.witnesses

/-- An effect before a computation counts as one of its own. -/
theorem Outcome.Restores.after {α : Type} {W : Powers}
    {B : Stack CallFrame → WitnessStack → Prop} {n : Nat} {m m₁ : Machine} {o : Outcome α}
    (he : Effect W n m m₁) (h : o.Restores W B n m₁) : o.Restores W B n m :=
  Outcome.Ends.imp h (fun _ _ => he.trans) (fun _ => he.trans) fun _ => id

namespace Run

section Ends

variable {α β : Type} {P' : α → Machine → Prop} {P : β → Machine → Prop} {Q' Q H : Machine → Prop}
  {s : Setting} {m : Machine}

theorem Ends.bind {x : Run α} {f : α → Run β} (hx : (x s m).Ends P' Q' H)
    (hf : ∀ a m₁, P' a m₁ → (f a s m₁).Ends P Q H) (hQ : ∀ m₁, Q' m₁ → Q m₁) :
    ((x >>= f) s m).Ends P Q H := by
  show (Run.bind x f s m).Ends P Q H
  unfold Run.bind
  cases hxm : x s m with
  | done a m₁ => rw [hxm] at hx; exact hf a m₁ hx
  | failed e m₁ => rw [hxm] at hx; exact hQ m₁ hx
  | halted why => rw [hxm] at hx; cases why <;> exact hx

theorem Ends.mapFault {x : Run β} (g : Fault → Fault) (hx : (x s m).Ends P Q H) :
    (mapFault g x s m).Ends P Q H := by
  unfold Run.mapFault
  cases hxm : x s m with
  | done a m₁ => rw [hxm] at hx; exact hx
  | failed e m₁ => rw [hxm] at hx; exact hx
  | halted why => rw [hxm] at hx; cases why <;> exact hx

theorem Ends.ensuring {P' : β → Machine → Prop} {x : Run β} {tidy : Machine → Machine}
    (hx : (x s m).Ends P' Q' H) (hP : ∀ b m₁, P' b m₁ → P b (tidy m₁))
    (hQ : ∀ m₁, Q' m₁ → Q (tidy m₁)) : (ensuring tidy x s m).Ends P Q H := by
  unfold Run.ensuring
  cases hxm : x s m with
  | done b m₁ => rw [hxm] at hx; exact hP b m₁ hx
  | failed e m₁ => rw [hxm] at hx; exact hQ m₁ hx
  | halted why => rw [hxm] at hx; cases why <;> exact hx

theorem Ends.withCall {P' : β → Machine → Prop} {frame : CallFrame} {x : Run β}
    (hx : (x s { m with calls := m.calls.push frame }).Ends P' Q' H)
    (hP : ∀ b m₁, P' b m₁ → P b { m₁ with calls := m₁.calls.cut m.calls.depth })
    (hQ : ∀ m₁, Q' m₁ → Q { m₁ with calls := m₁.calls.cut m.calls.depth }) :
    (withCall frame x s m).Ends P Q H := by
  unfold Run.withCall
  dsimp only
  cases hxm : x s { m with calls := m.calls.push frame } with
  | done b m₁ => rw [hxm] at hx; exact hP b m₁ hx
  | failed e m₁ => rw [hxm] at hx; exact hQ m₁ hx
  | halted why => rw [hxm] at hx; cases why <;> exact hx

end Ends

variable {α β : Type} {W : Powers} {B : Setting → Stack CallFrame → WitnessStack → Prop}
  {k : ScopeId}

/-- A computation restores the stacks. Among the scopes that are there when it starts, it defines
names in those from `k` on only, apart from what native functions with powers `W` may do. -/
def Restores (W : Powers) (B : Setting → Stack CallFrame → WitnessStack → Prop) (k : ScopeId)
    (x : Run α) : Prop :=
  ∀ s m n, n ≤ k → n ≤ m.store.scopes.size → B s m.calls m.witnesses →
    (x s m).Restores W (B s) n m

/-- Where `B` holds, native functions have the powers `W` at most. -/
def Confines (B : Setting → Stack CallFrame → WitnessStack → Prop) (W : Powers) : Prop :=
  ∀ {s : Setting} {calls : Stack CallFrame} {witnesses : WitnessStack}, B s calls witnesses →
    s.host.Within W

namespace Restores

theorem pure (a : α) : (pure a : Run α).Restores W B k := fun _ m _ _ _ _ => .refl m

theorem throw (f : Fault) : (throw f : Run α).Restores W B k := fun _ m _ _ _ _ => .refl m

theorem fail (cause : Cause) : (fail cause : Run α).Restores W B k := throw _

theorem setting : Run.setting.Restores W B k := fun _ m _ _ _ _ => .refl m

theorem machine : Run.machine.Restores W B k := fun _ m _ _ _ _ => .refl m

theorem bridge : Run.bridge.Restores W B k := fun _ m _ _ _ _ => .refl m

theorem fallback : Run.fallback.Restores W B k := fun _ m _ _ _ _ => .refl m

theorem outOfFuel : (outOfFuel : Run α).Restores W B k := fun _ _ _ _ _ _ => trivial

theorem fresh : fresh.Restores W B k := fun _ m _ _ _ _ => .ident m _ (Nat.le_succ _)

theorem lookup (scope : ScopeId) (name : String) : (lookup scope name).Restores W B k := by
  intro s m n _ _ _
  unfold Run.lookup
  split <;> exact .refl m

theorem assign (scope : ScopeId) (name : String) (v : Value) :
    (assign scope name v).Restores W B k := by
  intro s m n _ _ _
  cases howner : m.store.owner? scope name with
  | some owner => rw [assign_of_owner howner]; exact .assign m scope owner name v howner
  | none => rw [assign_of_no_owner howner]; exact .refl m

theorem defineIn {scope : ScopeId} (h : k ≤ scope ∨ W.defines) (name : String) (v : Value) :
    (Run.define scope name v).Restores W B k :=
  fun _ m _ hn _ _ => .define m scope name v (h.imp_left (Nat.le_trans hn))

theorem define (name : String) (v : Value) : (define k name v).Restores W B k :=
  defineIn (.inl (Nat.le_refl k)) name v

theorem changeRegistry {f : Registry → Registry} (hf : ∀ r, W.changes r (f r)) :
    (modify fun m => { m with registry := f m.registry }).Restores W B k :=
  fun _ m _ _ _ _ => .change m _ (hf m.registry)

theorem mono {x : Run α} (hx : x.Restores W B k) {n : ScopeId} (hn : n ≤ k) : x.Restores W B n :=
  fun s m i hi hm hB => hx s m i (Nat.le_trans hi hn) hm hB

theorem print (text : String) :
    (modify fun m => { m with output := m.output ++ text }).Restores W B k :=
  fun _ m _ _ _ _ => .print m text

/-- A debugger stops the run where it is. -/
theorem reach (e : Event) : (reach e).Restores W B k := by
  intro s m n _ _ hB
  unfold Run.reach
  split
  · exact hB
  · exact .refl m

theorem require (cause : Cause) (o : Option α) : (require cause o).Restores W B k := by
  cases o with
  | some a => exact pure a
  | none => exact fail cause

theorem ofExcept (r : Except Fault α) : (ofExcept r).Restores W B k := by
  cases r with
  | ok a => exact pure a
  | error f => exact throw f

theorem ofCause (r : Except Cause α) : (ofCause r).Restores W B k := by
  cases r with
  | ok a => exact pure a
  | error cause => exact fail cause

theorem bind {x : Run α} {f : α → Run β} (hx : x.Restores W B k) (hf : ∀ a, (f a).Restores W B k) :
    (x >>= f).Restores W B k := by
  intro s m n hn hm hB
  refine Ends.bind (hx s m n hn hm hB) (fun a m₁ h => ?_) fun _ => id
  have same := h.sameStacks
  have hB₁ : B s m₁.calls m₁.witnesses := by rw [same.calls, same.witnesses]; exact hB
  exact (hf a s m₁ n hn (Nat.le_trans hm h.size_le) hB₁).after h

theorem mapFault {x : Run α} (g : Fault → Fault) (hx : x.Restores W B k) :
    (mapFault g x).Restores W B k :=
  fun s m n hn hm hB => Ends.mapFault g (hx s m n hn hm hB)

theorem attempt {x : Run α} (hx : x.Restores W B k) : (attempt x).Restores W B k := by
  intro s m n hn hm hB
  have h := hx s m n hn hm hB
  unfold Run.attempt
  cases hxm : x s m with
  | done a m₁ => rw [hxm] at h; exact h
  | failed e m₁ => rw [hxm] at h; exact h
  | halted why => rw [hxm] at h; cases why <;> exact h

/-- An entry on top of a stack that `B` does not look at comes off again. -/
theorem ensuring {x : Run α} {tidy : Machine → Machine} {s : Setting} {m p : Machine} {n : Nat}
    (hp : p.onStacksOf m = m)
    (htidy : ∀ m', m'.SameStacks p → tidy m' = m'.onStacksOf m)
    (h : (x s p).Restores W (B s) n p) :
    (ensuring tidy x s p).Restores W (B s) n m := by
  have back (m' : Machine) (he : Effect W n p m') : Effect W n m (tidy m') := by
    rw [htidy m' he.sameStacks]
    have := he.onStacksOf m
    rwa [hp] at this
  exact Ends.ensuring h (fun _ => back) back

theorem withExpected {x : Run α} (t : Ty) (hx : x.Restores W B k) :
    (withExpected t x).Restores W B k := by
  intro s m n hn hm hB
  refine ensuring rfl ?_ (hx s _ n hn hm hB)
  rintro m' ⟨hc, hw, ht, hk⟩
  simp only [Machine.onStacksOf, hc, hw, ht, hk, Stack.cut_push]

theorem withContainer {x : Run α} (name : String) (hx : x.Restores W B k) :
    (withContainer name x).Restores W B k := by
  intro s m n hn hm hB
  refine ensuring rfl ?_ (hx s _ n hn hm hB)
  rintro m' ⟨hc, hw, ht, hk⟩
  simp only [Machine.onStacksOf, hc, hw, ht, hk, Stack.cut_push]

/-- A new scope comes after all that are there. -/
theorem newScope_bind {f : ScopeId → Run β} (parent : ScopeId)
    (hf : ∀ id n, n ≤ k → n ≤ id → (f id).Restores W B n) :
    (newScope parent >>= f).Restores W B k := by
  intro s m n hn hm hB
  have child : Effect W n m { m with store := (m.store.child parent).1 } := .child m parent
  exact (hf m.store.scopes.size n hn hm s { m with store := (m.store.child parent).1 } n
    (Nat.le_refl n) (Nat.le_trans hm child.size_le) hB).after child

/-- A new scope may be filled by whoever made it. -/
theorem newScope {f : ScopeId → Run β} (parent : ScopeId) (hf : ∀ id, (f id).Restores W B id) :
    (newScope parent >>= f).Restores W B k :=
  newScope_bind parent fun id _ _ hid => (hf id).mono hid

theorem defineAll (bindings : List (String × Value)) : (defineAll k bindings).Restores W B k := by
  induction bindings with
  | nil => exact pure ()
  | cons b rest ih => exact bind (define b.1 b.2) fun _ => ih

theorem matchInto (p : Pattern) (v : Value) : (p.matchInto k v).Restores W B k := by
  rw [Pattern.matchInto_eq]
  exact bind (defineAll _) fun _ => pure _

/-- An application that restores the stacks, whatever it is given. -/
def Always (W : Powers) (B : Setting → Stack CallFrame → WitnessStack → Prop) (a : Apply) : Prop :=
  ∀ callee args site k, (a callee args site).Restores W B k

variable {a : Apply}

theorem settled {x : Run Step} (ha : Always W B a) (hx : x.Restores W B k) :
    (settled a x).Restores W B k := by
  refine bind hx fun step => ?_
  cases step with
  | done v => exact pure v
  | tail callee args site => exact ha callee args site k

theorem finishCall (ha : Always W B a) (ctx : EvalCtx) (callee : Value) (args : List Value)
    (site : CallSite) : (finishCall a ctx callee args site).Restores W B k := by
  unfold Run.finishCall
  split
  · exact pure _
  · exact bind (ha callee args site k) fun v => pure _

theorem callMember (ha : Always W B a) (ctx : EvalCtx) (scope : ScopeId) (recv : Value)
    (method : String) (args : List Value) (site : CallSite) :
    (callMember a ctx scope recv method args site).Restores W B k := by
  have member : (do
      let fn ← Run.lookup scope method
      Run.finishCall a ctx (.bound (← Run.machine).nextIdent fn recv) args site).Restores W B k :=
    bind (lookup scope method) fun fn => bind machine fun m => finishCall ha ctx _ args site
  unfold Run.callMember
  split
  · refine bind bridge fun b => ?_
    split
    · exact fail _
    · exact bind (ofExcept _) fun v => pure _
  · split
    · exact finishCall ha ctx _ args site
    · exact member

theorem readField (v : Value) (field : String) : (readField v field).Restores W B k := by
  unfold Run.readField
  split
  · refine bind bridge fun b => ?_
    split
    · exact fail _
    · exact ofExcept _
  · exact ofCause _

theorem asBool (v : Value) : v.asBool.Restores W B k := by
  unfold Value.asBool
  split
  · exact pure _
  · exact fail _

theorem buildDictionary (traitName : String) (key : TypeKey) :
    (buildDictionary traitName key).Restores W B k := by
  intro s m n _ _ _
  unfold Run.buildDictionary
  split
  · exact .ident m _ (Registry.le_of_dictionary? ‹_›)
  · exact .refl m

theorem bindSource (ha : Always W B a) (scope : ScopeId) (source : Value) (name : String)
    (rest : List DoBind) (body : Spanned Expr) (span : Span) :
    (bindSource a scope source name rest body span).Restores W B k :=
  withContainer _ (bind (lookup scope _) fun _ => bind fresh fun _ => ha _ _ _ _)

mutual

theorem node (ha : Always W B a) (ctx : EvalCtx) (scope : ScopeId) :
    ∀ (e : Spanned Expr) (k : ScopeId), (evalNode a ctx scope e).Restores W B k
  | ⟨e, span⟩, k => by
    rw [evalNode]
    exact mapFault _ (form ha ctx scope span e k)

theorem form (ha : Always W B a) (ctx : EvalCtx) (scope : ScopeId)
    (span : Span) : ∀ (e : Expr) (k : ScopeId), (evalForm a ctx scope span e).Restores W B k
  | .lit l, k => by rw [evalForm]; exact pure _
  | .var name, k => by rw [evalForm]; exact bind (lookup scope name) fun v => pure _
  | .list items, k | .tuple items, k => by
    rw [evalForm]
    exact bind (all ha scope items k) fun vs => pure _
  | .record entries, k => by
    rw [evalForm]
    exact bind (fields ha scope entries [] k) fun fs => pure _
  | .range start stop, k => by
    rw [evalForm]
    refine bind (settled ha (node ha {} scope start k)) fun first => ?_
    refine bind (settled ha (node ha {} scope stop k)) fun last => ?_
    exact bind (ofCause _) fun v => pure _
  | .lambda f, k => by
    rw [evalForm]
    exact bind machine fun m => bind fresh fun id => pure _
  | .call id callee args, k => by
    rw [evalForm]
    refine bind (settled ha (node ha {} scope callee k)) fun fn => ?_
    exact bind (all ha scope args k) fun vals => finishCall ha ctx fn vals _
  | .methodCall id receiver method args, k => by
    rw [evalForm]
    refine bind (settled ha (node ha {} scope receiver k)) fun recv => ?_
    exact bind (all ha scope args k) fun vals => callMember ha ctx scope recv _ vals _
  | .field target name, k => by
    rw [evalForm]
    refine bind (settled ha (node ha {} scope target k)) fun v => ?_
    exact bind (readField v name) fun w => pure _
  | .binary left op right, k => by
    rw [evalForm]
    refine bind (settled ha (node ha {} scope left k)) fun l => ?_
    have hright := settled ha (node ha {} scope right k)
    split
    · refine bind (asBool l) fun b => ?_
      split
      · exact bind hright fun r => bind (asBool r) fun b' => pure _
      · exact pure _
    · exact bind hright fun r => bind (ofCause _) fun v => pure _
  | .unary op operand, k => by
    rw [evalForm]
    refine bind (settled ha (node ha {} scope operand k)) fun v => ?_
    exact bind (ofCause _) fun w => pure _
  | .operator op, k => by rw [evalForm]; exact pure _
  | .compose outer inner, k => by
    rw [evalForm]
    refine bind (settled ha (node ha {} scope outer k)) fun f => ?_
    refine bind (settled ha (node ha {} scope inner k)) fun g => ?_
    exact bind fresh fun id => pure _
  | .cond test yes no, k => by
    rw [evalForm]
    refine bind (settled ha (node ha {} scope test k)) fun v => ?_
    refine bind (asBool v) fun b => ?_
    split
    · exact node ha ctx scope yes k
    · exact node ha ctx scope no k
  | .letIn name ty value body, k => by
    rw [evalForm]
    refine bind (settled ha (node ha _ scope value k)) fun v => ?_
    refine newScope scope fun inner => ?_
    exact bind (define name v) fun _ => node ha ctx inner body inner
  | .block [], k => by rw [evalForm]; exact pure _
  | .block (e :: es), k => by
    rw [evalForm]
    exact newScope scope fun inner => seq ha ctx inner (e :: es) inner
  | .assign name value, k => by
    rw [evalForm]
    refine bind (settled ha (node ha {} scope value k)) fun v => ?_
    exact bind (assign scope name v) fun _ => pure _
  | .annotated e ty, k => by
    rw [evalForm]
    refine bind machine fun m => ?_
    exact bind (withExpected _ (settled ha (node ha _ scope e k))) fun v => pure _
  | .choose scrutinee branches, k => by
    rw [evalForm]
    refine bind (settled ha (node ha {} scope scrutinee k)) fun v => ?_
    exact arms ha ctx scope v branches k
  | .dict traitName types, k => by
    unfold evalForm
    split
    · exact bind fresh fun id => pure _
    · exact bind (buildDictionary traitName _) fun d => pure _
  | .doChain [] body, k => by
    rw [evalForm]
    exact bind (settled ha (node ha {} scope body k)) fun v => pure _
  | .doChain (⟨name, value⟩ :: rest) body, k => by
    rw [evalForm]
    refine bind (settled ha (node ha {} scope value k)) fun source => ?_
    exact bind (bindSource ha scope source name rest body _) fun v => pure _
  | .attempt body, k => by
    rw [evalForm]
    refine bind (attempt (settled ha (node ha {} scope body k))) fun r => ?_
    cases r with
    | ok v => exact pure _
    | error f => exact bind fresh fun id => pure _

theorem all (ha : Always W B a) (scope : ScopeId) :
    ∀ (es : List (Spanned Expr)) (k : ScopeId), (evalAll a scope es).Restores W B k
  | [], k => by rw [evalAll]; exact pure _
  | e :: es, k => by
    rw [evalAll]
    refine bind (settled ha (node ha {} scope e k)) fun v => ?_
    exact bind (all ha scope es k) fun vs => pure _

theorem fields (ha : Always W B a) (scope : ScopeId) :
    ∀ (es : List (String × Spanned Expr)) (done : List (String × Value)) (k : ScopeId),
      (evalFields a scope done es).Restores W B k
  | [], done, k => by rw [evalFields]; exact pure _
  | (name, e) :: es, done, k => by
    rw [evalFields]
    refine bind (settled ha (node ha {} scope e k)) fun v => ?_
    exact fields ha scope es _ k

theorem seq (ha : Always W B a) (ctx : EvalCtx) (scope : ScopeId) :
    ∀ (es : List (Spanned Expr)) (k : ScopeId), (evalSeq a ctx scope es).Restores W B k
  | [], k => by rw [evalSeq]; exact pure _
  | [e], k => by rw [evalSeq]; exact node ha ctx scope e k
  | e :: e' :: es, k => by
    rw [evalSeq]
    refine bind (bind (settled ha (node ha {} scope e k)) fun v => pure _) fun _ => ?_
    exact seq ha ctx scope (e' :: es) k

theorem arms (ha : Always W B a) (ctx : EvalCtx) (scope : ScopeId)
    (v : Value) : ∀ (as : List Arm) (k : ScopeId), (evalArms a ctx scope v as).Restores W B k
  | [], k => by rw [evalArms]; exact fail _
  | ⟨pattern, body⟩ :: as, k => by
    rw [evalArms]
    refine newScope scope fun inner => bind (matchInto pattern.node v) fun matched => ?_
    split
    · exact node ha ctx inner body inner
    · exact arms ha ctx scope v as inner

end

theorem partialApp (callee : Value) (args : List Value) (remaining : Nat) :
    (partialApp callee args remaining).Restores W B k :=
  bind fresh fun _ => pure _

theorem iterate {σ : Type} {step : σ → Run (σ ⊕ α)} (hstep : ∀ x, (step x).Restores W B k)
    (fuel : Nat) (x : σ) : Restores W B k (iterate step fuel x) := by
  induction fuel generalizing x with
  | zero => exact outOfFuel
  | succ fuel ih =>
    rw [iterate_succ]
    refine bind (hstep x) fun r => ?_
    cases r with
    | inl y => exact ih y
    | inr b => exact pure b

theorem materialize {m : ClassMethod} (key : Option (TypeKey × Bool)) (n : Nat) (s : Setting)
    (mach : Machine) {f : Func} (hf : mach.registry.userDefault? m.traitName m.method = some f)
    (id : Ident) :
    (materialize m (.function id (Registry.defaultClosure m.traitName f)) key s mach).Restores
      W (B s) n mach := by
  cases key with
  | none => exact Effect.refl mach
  | some key => exact .materialize mach m.traitName m.method key.1 id f hf

theorem resolveDefault (m : ClassMethod) (fb : Fallback) :
    (resolveDefault m fb).Restores W B k := by
  intro s mach n hn hm hB
  rw [Run.resolveDefault, machine_bind]
  cases hf : mach.registry.userDefault? m.traitName m.method with
  | some f =>
    simp only [fresh_bind]
    let mach₁ : Machine := { mach with nextIdent := mach.nextIdent + 1 }
    have ident : Effect W n mach mach₁ := .ident mach _ (Nat.le_succ _)
    exact Ends.bind ((materialize _ n s mach₁ hf _).after ident) (fun _ _ h => h) fun _ => id
  | none =>
    cases mach.registry.builtinDefault? m.traitName m.method with
    | some callee => exact Effect.refl mach
    | none => exact Effect.refl mach

theorem resolve (m : ClassMethod) (args : List Value) (site : CallSite) :
    (resolve m args site).Restores W B k := by
  refine bind (reach _) fun _ => bind machine fun mach => ?_
  split
  · exact pure _
  · exact resolveDefault m _

theorem reduceStep (site : CallSite) (p : Pending) : (reduceStep site p).Restores W B k := by
  unfold Run.reduceStep
  split
  · exact pure _
  · exact pure _
  · dsimp only
    split
    · exact bind (partialApp _ _ _) fun v => pure _
    · refine bind (resolve _ _ site) fun r => ?_
      split
      · exact fail _
      · exact pure _
  · exact pure _

theorem reduce (fuel : Nat) (callee : Value) (args : List Value) (site : CallSite) :
    (reduce fuel callee args site).Restores W B k :=
  iterate (reduceStep site) fuel _

theorem evalValue (ha : Always W B a) (ctx : EvalCtx) (scope : ScopeId) (e : Spanned Expr) :
    (evalValue a ctx scope e).Restores W B k :=
  settled ha (node ha _ scope e k)

theorem bindParams (ha : Always W B a) (c : Closure) (supplied : Nat) (ps : List Param)
    (vs : List Value) : (bindParams a c k supplied ps vs).Restores W B k := by
  induction ps generalizing vs with
  | nil => rw [Run.bindParams]; exact pure _
  | cons p ps ih =>
    cases vs with
    | cons v vs =>
      rw [Run.bindParams]
      exact bind (define p.name v) fun _ => ih vs
    | nil =>
      rw [Run.bindParams]
      split
      · exact bind (evalValue ha {} c.scope _) fun v => bind (define p.name v) fun _ => ih []
      · exact fail _

theorem bindDictionaries (f : Func) (dicts : List Dictionary) :
    (bindDictionaries f k dicts).Restores W B k := by
  cases dicts with
  | nil => exact pure _
  | cons d ds => exact bind (require _ _) fun bindings => defineAll bindings

theorem bindTypes (site : CallSite) : (bindTypes k site).Restores W B k :=
  bind machine fun _ => defineAll _

theorem bindSurplus (f : Func) (plain : List Value) : (bindSurplus f k plain).Restores W B k := by
  unfold Run.bindSurplus
  split
  · split
    · exact define _ _
    · exact pure _
  · exact pure _

theorem bindScope (ha : Always W B a) (c : Closure) (args : List Value) (site : CallSite) :
    (bindScope a c args site).Restores W B k := by
  refine newScope c.scope fun scope => ?_
  refine bind (bindDictionaries _ _) fun _ => bind (bindTypes site) fun _ => ?_
  exact bind (bindParams ha c _ _ _) fun _ => bind (bindSurplus _ _) fun _ => pure _

theorem bindArguments (ha : Always W B a) (id : Ident) (c : Closure) (args : List Value)
    (site : CallSite) : (bindArguments a id c args site).Restores W B k := by
  unfold Run.bindArguments
  dsimp only
  split
  · split
    · exact fail _
    · exact bind (partialApp _ _ _) fun v => pure _
  · split
    · exact fail _
    · exact bind (bindScope ha c args site) fun scope => pure _

theorem callGlobal (ha : Always W B a) (name : String) (args : List Value) :
    (callGlobal a name args).Restores W B k :=
  bind (lookup _ name) fun callee => ha callee args _ k

theorem forM {σ : Type} {f : σ → Run Unit} (hf : ∀ x, (f x).Restores W B k) (xs : List σ) :
    (xs.forM f).Restores W B k := by
  induction xs with
  | nil => exact pure ()
  | cons x xs ih => exact bind (hf x) fun _ => ih

theorem declare (hW : W.loads) (item : Item) : (declare item).Restores W B k := by
  have global (name : String) (v : Value) : (Run.define Store.global name v).Restores W B k :=
    defineIn (.inr (W.defines_of_loads hW)) name v
  have changed {f : Registry → Registry} (hf : ∀ r : Registry, r.Loads (f r)) :
      (modify fun m => { m with registry := f m.registry }).Restores W B k :=
    changeRegistry fun r => W.changes_of_loads hW (hf r)
  cases item with
  | func f => exact bind fresh fun _ => global _ _
  | data d =>
    refine forM (fun c => ?_) _
    split
    · exact global _ _
    · exact bind fresh fun _ => global _ _
  | traitDecl t =>
    refine bind (changed fun r => .declare r t) fun _ => ?_
    exact forM (fun _ => bind fresh fun _ => global _ _) _
  | inst d =>
    refine bind (changed fun r => .addInstance r _ _) fun _ => ?_
    exact forM (fun f => bind fresh fun id => changed fun r => .addMethod r _ _ f.name id f) _
  | const c => exact pure ()

theorem defineConst (ha : Always W B a) (hW : W.loads) (item : Item) :
    (defineConst a item).Restores W B k := by
  cases item with
  | const c =>
    exact bind (evalValue ha _ _ _) fun v => defineIn (.inr (W.defines_of_loads hW)) c.name v
  | _ => exact pure ()

/-- Programs are loaded by native functions that may do so. -/
theorem loading (ha : Always W B a) (hW : W.loads) (p : AnalyzedProgram) :
    (loading a p).Restores W B k := by
  refine bind (fun s m n _ _ _ => ?_) fun _ =>
    bind (forM (declare hW) _) fun _ => forM (defineConst ha hW) _
  exact (Effect.source m _ p.hints hW).trans
    (.change _ _ (W.changes_of_loads hW (.absorb m.registry p.hints)))

theorem register {r : Registration} (hr : r.Within W) : (register r).Restores W B k := by
  cases r with
  | traitDefault traitName method v => exact changeRegistry hr
  | instanceMethod traitName types method v => exact changeRegistry hr
  | bridge name => exact fun _ m _ _ _ _ => .install m (some name) m.fallback
  | fallback name => exact fun _ m _ _ _ _ => .install m m.bridge (some name)

theorem perform (ha : Always W B a) (act : Action) {own : List ScopeId}
    (hown : ∀ id ∈ own, k ≤ id) (hact : act.Within W own) : (perform a act).Restores W B k := by
  induction act generalizing k own with
  | done v => exact pure v
  | fail f => exact throw f
  | write text next ih => exact bind (print text) fun _ => ih hown hact
  | fresh next ih => exact bind fresh fun id => ih id hown (hact id)
  | depths next ih =>
    exact bind (reach _) fun _ => bind machine fun m => ih _ _ _ hown (hact _ _ _)
  | limits next ih => exact bind (reach _) fun _ => bind setting fun s => ih _ hown (hact _)
  | look next ih => exact bind machine fun m => ih _ _ hown (hact _ _)
  | newScope parent next ih =>
    refine newScope_bind parent fun id n hn hid => ih id (fun id' hid' => ?_) (hact id)
    rcases List.mem_cons.1 hid' with rfl | hid'
    · exact hid
    · exact Nat.le_trans hn (hown id' hid')
  | define scope name v next ih =>
    exact bind (defineIn (hact.1.imp_left (hown scope)) name v) fun _ => ih hown hact.2
  | assign scope name v next ih =>
    exact bind (attempt (assign scope name v)) fun r => ih _ hown (hact _)
  | apply callee args site next ih =>
    exact bind (attempt (ha callee args site k)) fun r => ih r hown (hact r)
  | call name args next ih =>
    exact bind (attempt (callGlobal ha name args)) fun r => ih r hown (hact r)
  | eval e next ih => exact bind (attempt (evalValue ha {} _ e)) fun r => ih r hown (hact r)
  | resolve method args site next ih =>
    exact bind (attempt (resolve method args site)) fun r => ih r hown (hact r)
  | load p next ih =>
    exact bind (attempt (loading ha hact.1 p)) fun r => ih r hown (hact.2 r)
  | register r next ih => exact bind (register hact.1) fun _ => ih hown hact.2

theorem runNative (hB : Confines B W) (ha : Always W B a) (args : List Value) (native : Native) :
    (runNative a args native).Restores W B k := by
  have none : ∀ id ∈ ([] : List ScopeId), k ≤ id := fun _ hid => absurd hid List.not_mem_nil
  cases native with
  | core c => exact perform ha _ none (c.within args W [])
  | host name =>
    exact fun s m n hn hm hBs => perform ha _ none (hB hBs name args) s m n hn hm hBs
  | resume name rest body scope =>
    refine newScope scope fun inner => bind (define name _) fun _ => ?_
    exact settled ha (form ha {} inner {} _ inner)

theorem invoke (hB : Confines B W) (ha : Always W B a) (b : Builtin) (args : List Value) :
    (invoke a b args).Restores W B k :=
  bind (reach _) fun _ => runNative hB ha args b.native

theorem callBuiltin (hB : Confines B W) (ha : Always W B a) (b : Builtin) (args : List Value) :
    (callBuiltin a b args).Restores W B k := by
  unfold Run.callBuiltin
  split
  · exact invoke hB ha b args
  · dsimp only
    split
    · exact fail _
    · split
      · exact partialApp _ _ _
      · split
        · exact fail _
        · exact invoke hB ha b _

theorem applyNative (hB : Confines B W) (ha : Always W B a) (callee : Value) (args : List Value)
    (site : CallSite) : (applyNative a callee args site).Restores W B k := by
  unfold Run.applyNative
  dsimp only
  split
  · exact mapFault _ (callBuiltin hB ha _ args)
  · refine mapFault _ ?_
    split
    · exact pure _
    · split
      · exact fail _
      · split
        · exact partialApp _ _ _
        · exact fail _
  · refine mapFault _ ?_
    split
    · exact fail _
    · exact partialApp _ _ _
    · exact ofCause _
    · exact fail _
  · exact bind (ha _ args site k) fun v => mapFault _ (ha _ [v] site k)
  iterate 4 exact mapFault _ (ha _ args site k)
  · exact bind fallback fun _ => mapFault _ (ofExcept _)

end Restores

end Run

end TraitLang
