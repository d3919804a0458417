import TraitLang.Machine

/-!
Computations on a machine. They end with a value or with a fault, unless they are cut short; the
machine that a fault leaves behind counts, since programs go on after catching one. An entry pushed
on a stack is removed however the computation above it ends.
-/
namespace TraitLang

/-- Why a computation was cut short. -/
inductive Halt where
  | outOfFuel
  | breakpoint (e : Event) (m : Machine)

inductive Outcome (α : Type) where
  | done (a : α) (m : Machine)
  | failed (f : Fault) (m : Machine)
  | halted (why : Halt)

/-- A computation that yields an `α`. -/
def Run (α : Type) := Setting → Machine → Outcome α

namespace Run

variable {α β σ : Type}

@[inline] protected def pure (a : α) : Run α := fun _ m => .done a m

@[inline] protected def bind (x : Run α) (f : α → Run β) : Run β := fun s m =>
  match x s m with
  | .done a m => f a s m
  | .failed e m => .failed e m
  | .halted h => .halted h

instance : Monad Run where
  pure := Run.pure
  bind := Run.bind

instance : LawfulMonad Run :=
  .mk' Run
    (fun x => by
      funext s m
      show Run.bind x (fun a => Run.pure (id a)) s m = x s m
      unfold Run.bind
      cases x s m <;> rfl)
    (fun _ _ => rfl)
    (fun x f g => by
      funext s m
      show Run.bind (Run.bind x f) g s m = Run.bind x (fun a => Run.bind (f a) g) s m
      unfold Run.bind
      cases x s m <;> rfl)

def outOfFuel : Run α := fun _ _ => .halted .outOfFuel

/-- Passes a point at which a debugger can stop the run. -/
def reach (e : Event) : Run Unit := fun s m =>
  if s.breakpoint e m then .halted (.breakpoint e m) else .done () m

def throw (f : Fault) : Run α := fun _ m => .failed f m

def fail (cause : Cause) : Run α := throw { cause }

def setting : Run Setting := fun s m => .done s m

def machine : Run Machine := fun _ m => .done m m

def modify (f : Machine → Machine) : Run Unit := fun _ m => .done () (f m)

theorem bind_of_done {x : Run α} {f : α → Run β} {s : Setting} {m m₁ : Machine} {a : α}
    (h : x s m = .done a m₁) : (x >>= f) s m = f a s m₁ := by
  show Run.bind x f s m = _
  rw [Run.bind, h]

theorem bind_of_failed {x : Run α} {f : α → Run β} {s : Setting} {m m₁ : Machine} {e : Fault}
    (h : x s m = .failed e m₁) : (x >>= f) s m = .failed e m₁ := by
  show Run.bind x f s m = _
  rw [Run.bind, h]

theorem bind_of_halted {x : Run α} {f : α → Run β} {s : Setting} {m : Machine} {why : Halt}
    (h : x s m = .halted why) : (x >>= f) s m = .halted why := by
  show Run.bind x f s m = _
  rw [Run.bind, h]

theorem done_of_bind {x : Run α} {f : α → Run β} {s : Setting} {m m₂ : Machine} {b : β}
    (h : (x >>= f) s m = .done b m₂) : ∃ a m₁, x s m = .done a m₁ ∧ f a s m₁ = .done b m₂ := by
  have hrun : Run.bind x f s m = .done b m₂ := h
  unfold Run.bind at hrun
  cases hx : x s m with
  | done a m₁ => rw [hx] at hrun; exact ⟨a, m₁, rfl, hrun⟩
  | failed e m₁ => rw [hx] at hrun; cases hrun
  | halted why => rw [hx] at hrun; cases hrun

@[simp] theorem setting_bind (f : Setting → Run β) (s : Setting) (m : Machine) :
    (setting >>= f) s m = f s s m := rfl

@[simp] theorem machine_bind (f : Machine → Run β) (s : Setting) (m : Machine) :
    (machine >>= f) s m = f m s m := rfl

/-- A fresh identity. -/
def fresh : Run Ident := fun _ m => .done m.nextIdent { m with nextIdent := m.nextIdent + 1 }

@[simp] theorem fresh_bind (f : Ident → Run β) (s : Setting) (m : Machine) :
    (fresh >>= f) s m = f m.nextIdent s { m with nextIdent := m.nextIdent + 1 } := rfl

def ofExcept : Except Fault α → Run α
  | .ok a => pure a
  | .error f => throw f

def ofCause : Except Cause α → Run α
  | .ok a => pure a
  | .error cause => fail cause

/-- A value that has to be there. -/
def require (cause : Cause) : Option α → Run α
  | some a => pure a
  | none => fail cause

/-- Changes the fault, if there is one. -/
@[inline] def mapFault (f : Fault → Fault) (x : Run α) : Run α := fun s m =>
  match x s m with
  | .done a m => .done a m
  | .failed e m => .failed (f e) m
  | .halted h => .halted h

theorem done_of_mapFault {g : Fault → Fault} {x : Run α} {s : Setting} {m m₁ : Machine} {a : α}
    (h : mapFault g x s m = .done a m₁) : x s m = .done a m₁ := by
  unfold mapFault at h
  cases hx : x s m with
  | done b m' => rw [hx] at h; exact h
  | failed e m' => rw [hx] at h; cases h
  | halted why => rw [hx] at h; cases h

theorem mapFault_congr {x y : Run α} {s : Setting} {m m' : Machine} (g : Fault → Fault)
    (h : x s m = y s m') : mapFault g x s m = mapFault g y s m' := by
  unfold mapFault
  rw [h]

theorem mapFault_bind (g : Fault → Fault) (x : Run α) (f : α → Run β) :
    mapFault g (x >>= f) = mapFault g x >>= fun a => mapFault g (f a) := by
  funext s m
  show mapFault g (Run.bind x f) s m = Run.bind (mapFault g x) _ s m
  unfold mapFault Run.bind
  dsimp only
  cases x s m <;> rfl

/-- Catches a fault. -/
@[inline] def attempt (x : Run α) : Run (Except Fault α) := fun s m =>
  match x s m with
  | .done a m => .done (.ok a) m
  | .failed e m => .done (.error e) m
  | .halted h => .halted h

/-- Tidies up after a value and after a fault. -/
@[inline] def ensuring (tidy : Machine → Machine) (x : Run α) : Run α := fun s m =>
  match x s m with
  | .done a m => .done a (tidy m)
  | .failed e m => .failed e (tidy m)
  | .halted h => .halted h

/-- Repeats a step until it gives a result, at most `fuel` times. -/
def iterate (step : σ → Run (σ ⊕ α)) : Nat → σ → Setting → Machine → Outcome α
  | 0, _, _, _ => .halted .outOfFuel
  | fuel + 1, x, s, m =>
    match step x s m with
    | .done (.inl y) m => iterate step fuel y s m
    | .done (.inr a) m => .done a m
    | .failed e m => .failed e m
    | .halted h => .halted h

theorem iterate_succ (step : σ → Run (σ ⊕ α)) (fuel : Nat) (x : σ) :
    iterate step (fuel + 1) x = (do
      match ← step x with
      | .inl y => iterate step fuel y
      | .inr a => pure a : Run α) := by
  funext s m
  show _ = Run.bind _ _ s m
  rw [iterate, Run.bind]
  cases step x s m with
  | done r m => cases r <;> rfl
  | failed e m => rfl
  | halted h => rfl

/-- Runs `x` as a call in progress. The trace of a fault is taken while its frame is there. -/
def withCall (frame : CallFrame) (x : Run α) : Run α := fun s m =>
  let depth := m.calls.depth
  let attach : Fault → Machine → Fault := fun e m =>
    e.orTrace (CallFrame.capture m.calls s.limits.traceLimit)
  match x s { m with calls := m.calls.push frame } with
  | .done a m => .done a { m with calls := m.calls.cut depth }
  | .failed e m => .failed (attach e m) { m with calls := m.calls.cut depth }
  | .halted h => .halted h

/-- Runs `x` and drops the evidence that it brought in. -/
def keepingWitnesses (x : Run α) : Run α := fun s m =>
  let depth := m.witnesses.depth
  ensuring (fun m => { m with witnesses := m.witnesses.cut depth }) x s m

/-- Runs `x` with a type expected. -/
def withExpected (t : Ty) (x : Run α) : Run α := fun s m =>
  let depth := m.typeContext.depth
  ensuring (fun m => { m with typeContext := m.typeContext.cut depth }) x s
    { m with typeContext := m.typeContext.push t }

/-- Runs `x` inside a do chain over a container type. -/
def withContainer (name : String) (x : Run α) : Run α := fun s m =>
  let depth := m.containers.depth
  ensuring (fun m => { m with containers := m.containers.cut depth }) x s
    { m with containers := m.containers.push name }

/-- Brings in evidence, if there is any. -/
def pushWitness : Option WitnessFrame → Run Unit
  | some frame => modify fun m => { m with witnesses := m.witnesses.push frame }
  | none => pure ()

/-- A new scope below `parent`. -/
def newScope (parent : ScopeId) : Run ScopeId := fun _ m =>
  let (store, id) := m.store.child parent
  .done id { m with store }

def define (scope : ScopeId) (name : String) (v : Value) : Run Unit :=
  modify fun m => { m with store := m.store.define scope name v }

def defineAll (scope : ScopeId) : List (String × Value) → Run Unit
  | [] => pure ()
  | (name, v) :: rest => do
    define scope name v
    defineAll scope rest

theorem defineAll_append (scope : ScopeId) (bs bs' : List (String × Value)) :
    defineAll scope (bs ++ bs') = (do
      defineAll scope bs
      defineAll scope bs') := by
  induction bs with
  | nil => rfl
  | cons b bs ih =>
    show (do define scope b.1 b.2; defineAll scope (bs ++ bs')) = _
    rw [ih, ← bind_assoc]
    rfl

/-- Gives a bound name a new value. -/
def assign (scope : ScopeId) (name : String) (v : Value) : Run Unit := fun _ m =>
  match m.store.set? scope name v with
  | some store => .done () { m with store }
  | none => .failed { cause := .undefinedVariable name } m

theorem assign_of_owner {scope owner : ScopeId} {name : String} {m : Machine}
    (h : m.store.owner? scope name = some owner) (v : Value) (s : Setting) :
    assign scope name v s m = .done () { m with store := m.store.define owner name v } := by
  simp [assign, Store.set?_eq_owner?, h]

theorem assign_of_no_owner {scope : ScopeId} {name : String} {m : Machine}
    (h : m.store.owner? scope name = none) (v : Value) (s : Setting) :
    assign scope name v s m = .failed { cause := .undefinedVariable name } m := by
  simp [assign, Store.set?_eq_owner?, h]

/-- The value of a name. -/
def lookup (scope : ScopeId) (name : String) : Run Value := fun _ m =>
  match m.store.get? scope name with
  | some v => .done v m
  | none => .failed { cause := .undefinedVariable name } m

end Run

end TraitLang
