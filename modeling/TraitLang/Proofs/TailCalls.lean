import TraitLang.Proofs.Deferral
import TraitLang.Proofs.DepthLimit
import TraitLang.Proofs.KeptCalls

/-!
Tail calls against plain recursion. An engine in which every call nests, one in tail position like
any other, serves as the reference. Main statement: where traits play no part, a call that the
reference engine runs to its end without exceeding the limit ends alike when tail calls take over
the frame of their caller; only the position and the trace of a fault may differ.
-/
namespace TraitLang

namespace Run

/-- Runs a callee to its value; a body makes the call in its tail position like any other. -/
def runNested (apply : Apply) (p : Pending) (site : CallSite) : Run Value :=
  match p.callee with
  | .function id c => do
    match ← openBody apply id c p site with
    | .short v => return v
    | .ready scope =>
      reach (.body c scope)
      evalValue apply {} scope c.func.body
  | _ => runOther apply { p with site, reentered := false }

/-- Reduces a callee and runs it to its value. -/
def nestedCall (apply : Apply) (fuel : Nat) (callee : Value) (args : List Value) (site : CallSite) :
    Run Value := do
  match ← reduce fuel callee args site with
  | .short v => return v
  | .call p => runNested apply p site

/-- Applies a callable as a call of its own, unless too many calls are in progress. -/
def applyNested (apply : Apply) (fuel : Nat) (callee : Value) (args : List Value)
    (site : CallSite) : Run Value :=
  asCall site (keepingWitnesses (nestedCall apply fuel callee args site))

end Run

/-- Applies a callable to arguments by plain recursion. -/
def nested : Nat → Apply
  | 0, _, _, _ => Run.outOfFuel
  | fuel + 1, callee, args, site => Run.applyNested (nested fuel) fuel callee args site

namespace Run

/-- Goes on after a step of a trampoline that found no evidence. -/
def goOn (k j : Nat) : LoopState ⊕ Value → Run Value
  | .inl st => iterate (loopStep (apply k) k 0) j st
  | .inr v => pure v

theorem iterate_loopStep (k j : Nat) (st : LoopState) :
    iterate (loopStep (apply k) k 0) (j + 1) st = loopStep (apply k) k 0 st >>= goOn k j := by
  rw [iterate_succ]
  congr 1
  funext r
  cases r <;> rfl

end Run

/-- What is left of a fault without position and trace: its kind and its message. -/
def Fault.bare (f : Fault) : Fault := { cause := f.cause }

theorem Fault.bare_eq_iff {f f' : Fault} : f.bare = f'.bare ↔ f.cause = f'.cause := by
  simp [bare]

@[simp] theorem Fault.bare_orLocation (f : Fault) (span : Span) :
    (f.orLocation span).bare = f.bare := by simp [bare]

@[simp] theorem Fault.bare_orTrace (f : Fault) (trace : List CallFrame) :
    (f.orTrace trace).bare = f.bare := by simp [bare]

@[simp] theorem Fault.bare_atTailSite (site : CallSite) (reentered : Bool) (f : Fault) :
    (f.atTailSite site reentered).bare = f.bare := by
  unfold atTailSite
  split
  · exact f.bare_orLocation site.span
  · rfl

/-- Where a run could tell nested calls from calls that take over a frame: too many calls nest, a
trait method is dispatched, a body starts with evidence in force (of an earlier call, captured by
its closure, or from its declared result), or a native looks at the stacks. -/
def tellsCallsApart : Event → Machine → Bool
  | .overflow _, _ | .dispatch _, _ | .depths, _ => true
  | .body _ _, m => m.witnesses.depth != 0
  | .native _ _, _ | .limits, _ => false

/-- The setting in which a debugger stops a run that could tell calls apart. -/
def Setting.guarded (s : Setting) : Setting := { s with breakpoint := tellsCallsApart }

namespace Coupling

/-- A run by plain recursion with `d` calls in progress on the left, one whose tail calls take over
frames with `d'` calls in progress on the right, and no evidence on either side. -/
def abreast (s : Setting) (d d' : Nat) : Coupling where
  left := s.guarded
  right := s
  mask := Fault.bare
  frames calls witnesses calls' witnesses' :=
    calls.depth = d ∧ calls'.depth = d' ∧ witnesses = {} ∧ witnesses' = {}

variable {α : Type} {s : Setting} {d d' : Nat} {R : α → α → Prop}

theorem abreast_lawful (hs : ∀ e m, s.breakpoint e m = false) (hblind : s.host.Blind Fault.bare) :
    (abreast s d d').Lawful where
  cause _ := rfl
  orLocation span h := by simpa [abreast] using h
  host := rfl
  blind := hblind
  witnesses h := h.2.2.1.trans h.2.2.2.symm
  reach _ _ _ := hs _ _
  depths _ hb := by cases hb
  limits := .inr fun _ _ => ⟨hs _ _, rfl⟩
  resolve _ _ _ _ _ _ _ _ := .halted _ _

section Abreast

variable {m m' : Machine}

/-- Calls in progress may come and go, if they are counted. -/
theorem Machines.recount (hm : (abreast s d d').Machines m m') {e e' : Nat}
    {calls calls' : Stack CallFrame} (he : calls.depth = e) (he' : calls'.depth = e') :
    (abreast s e e').Machines { m with calls } { m' with calls := calls' } :=
  { hm with frames := ⟨he, he', hm.frames.2.2⟩ }

/-- There is no evidence that could be dropped. -/
theorem Machines.cut_left (hm : (abreast s d d').Machines m m') (n : Nat) :
    (abreast s d d').Machines { m with witnesses := m.witnesses.cut n } m' := by
  obtain ⟨hd, hd', hw, hw'⟩ := hm.frames
  exact { hm with frames := ⟨hd, hd', by simp [hw], hw'⟩ }

theorem Machines.cut_right (hm : (abreast s d d').Machines m m') (n : Nat) :
    (abreast s d d').Machines m { m' with witnesses := m'.witnesses.cut n } := by
  obtain ⟨hd, hd', hw, hw'⟩ := hm.frames
  exact { hm with frames := ⟨hd, hd', hw, by simp [hw']⟩ }

end Abreast

namespace Follows

section Abreast

variable {x x' : Run α}

theorem withCall_left (frame : CallFrame) (hx : (abreast s (d + 1) d').Follows R x x') :
    (abreast s d d').Follows R (Run.withCall frame x) x' := by
  intro m m' hm
  have h := hx { m with calls := m.calls.push frame } m'
    (hm.recount (by rw [Stack.depth_push, hm.frames.1]) hm.frames.2.1)
  have hleave {m₁ m₁' : Machine} (hm₁ : (abreast s (d + 1) d').Machines m₁ m₁') :
      (abreast s d d').Machines { m₁ with calls := m₁.calls.cut m.calls.depth } m₁' := by
    refine hm₁.recount ?_ hm₁.frames.2.1
    rw [Stack.depth_cut, hm.frames.1, hm₁.frames.1]
    omega
  unfold Run.withCall
  dsimp only [abreast] at h ⊢
  generalize x s.guarded _ = o, x' s m' = o' at h ⊢
  cases h with
  | done ha hm₁ => exact .done ha (hleave hm₁)
  | failed he hm₁ => exact .failed ((Fault.bare_orTrace _ _).trans he) (hleave hm₁)
  | halted why o => exact .halted _ _

theorem withCall_right (frame : CallFrame) (hx : (abreast s d (d' + 1)).Follows R x x') :
    (abreast s d d').Follows R x (Run.withCall frame x') := by
  intro m m' hm
  have h := hx m { m' with calls := m'.calls.push frame }
    (hm.recount hm.frames.1 (by rw [Stack.depth_push, hm.frames.2.1]))
  have hleave {m₁ m₁' : Machine} (hm₁ : (abreast s d (d' + 1)).Machines m₁ m₁') :
      (abreast s d d').Machines m₁ { m₁' with calls := m₁'.calls.cut m'.calls.depth } := by
    refine hm₁.recount hm₁.frames.1 ?_
    rw [Stack.depth_cut, hm.frames.2.1, hm₁.frames.2.1]
    omega
  unfold Run.withCall
  dsimp only [abreast] at h ⊢
  generalize x s.guarded m = o, x' s _ = o' at h ⊢
  cases h with
  | done ha hm₁ => exact .done ha (hleave hm₁)
  | failed he hm₁ => exact .failed (he.trans (Fault.bare_orTrace _ _).symm) (hleave hm₁)
  | halted why o => exact .halted _ _

theorem keepingWitnesses_left (hx : (abreast s d d').Follows R x x') :
    (abreast s d d').Follows R (Run.keepingWitnesses x) x' := by
  intro m m' hm
  have h := hx m m' hm
  unfold Run.keepingWitnesses Run.ensuring
  generalize x (abreast s d d').left m = o, x' (abreast s d d').right m' = o' at h ⊢
  cases h with
  | done ha hm₁ => exact .done ha (hm₁.cut_left _)
  | failed he hm₁ => exact .failed he (hm₁.cut_left _)
  | halted why o => exact .halted _ _

theorem keepingWitnesses_right (hx : (abreast s d d').Follows R x x') :
    (abreast s d d').Follows R x (Run.keepingWitnesses x') := by
  intro m m' hm
  have h := hx m m' hm
  unfold Run.keepingWitnesses Run.ensuring
  generalize x (abreast s d d').left m = o, x' (abreast s d d').right m' = o' at h ⊢
  cases h with
  | done ha hm₁ => exact .done ha (hm₁.cut_right _)
  | failed he hm₁ => exact .failed he (hm₁.cut_right _)
  | halted why o => exact .halted _ _

theorem machine_right {f : Machine → Run α}
    (hf : ∀ m, m.witnesses.depth = 0 → (abreast s d d').Follows R x (f m)) :
    (abreast s d d').Follows R x (Run.machine >>= f) := by
  intro m m' hm
  exact hf m' (by rw [hm.frames.2.2.2]; rfl) m m' hm

/-- The frame that a tail call takes over stays the only one of its trampoline. -/
theorem takeOver_right (frame : Machine → CallFrame) (n : Nat)
    (hx : (abreast s d d').Follows R x x') :
    (abreast s d d').Follows R x (do
      Run.modify fun m =>
        { m with witnesses := m.witnesses.cut n, calls := m.calls.replaceTop (frame m) }
      x') := by
  intro m m' hm
  have hcut := hm.cut_right n
  exact hx m _ (hcut.recount hm.frames.1 ((Stack.depth_replaceTop _ _).trans hm.frames.2.1))

variable {a a' : Apply} {n k : Nat}

/-- A trait method that is not resolved waits for arguments. -/
theorem reduceStep_method (id : Ident) (method : ClassMethod) (args : List Value)
    (witness : Option WitnessFrame) (site : CallSite) (m : Machine) :
    (∃ v m₁, Run.reduceStep site ⟨.method id method, args, witness⟩ s.guarded m =
      .done (.inr (.short v)) m₁) ∨
    ∃ why, Run.reduceStep site ⟨.method id method, args, witness⟩ s.guarded m = .halted why := by
  unfold Run.reduceStep
  dsimp only
  split
  · exact .inl ⟨_, _, rfl⟩
  · exact .inr ⟨_, rfl⟩

/-- Without dispatch, reducing a callee brings in no evidence. -/
theorem witness_of_iterate_reduceStep {site : CallSite} {p q : Pending} {m m₁ : Machine}
    (hp : p.witness = none)
    (h : Run.iterate (Run.reduceStep site) n p s.guarded m = .done (.call q) m₁) :
    q.witness = none := by
  induction n generalizing p m with
  | zero => cases h
  | succ n ih =>
    obtain ⟨callee, args, witness⟩ := p
    obtain rfl : witness = none := hp
    cases callee with
    | partialApp id callee first remaining => exact ih rfl h
    | bound id callee receiver => exact ih rfl h
    | method id method =>
      rw [Run.iterate] at h
      obtain ⟨v, m₂, hstep⟩ | ⟨why, hstep⟩ := reduceStep_method id method args none site m
      all_goals
        rw [hstep] at h
        cases h
    | _ => cases h; rfl

theorem reduce_unwitnessed (hκ : (abreast s d d').Lawful) (hnk : n ≤ k) {callee callee' : Value}
    {args args' : List Value} (site : CallSite) (hcallee : SameValue Fault.bare callee callee')
    (hargs : SameValues Fault.bare args args') :
    (abreast s d d').Follows
      (fun r r' => SameReduced Fault.bare r r' ∧ ∀ q, r = .call q → q.witness = none)
      (Run.reduce n callee args site) (Run.reduce k callee' args' site) :=
  (reduce hκ hnk site hcallee hargs).and_left fun _ _ _ h _ hr =>
    witness_of_iterate_reduceStep rfl (hr ▸ h)

theorem pushWitness_deepens (o : Option WitnessFrame) (m : Machine) :
    ∃ m₁, m₁.witnesses.depth = m.witnesses.depth + o.toList.length ∧
      ∀ s, Run.pushWitness o s m = .done () m₁ := by
  cases o with
  | none => exact ⟨m, rfl, fun _ => rfl⟩
  | some frame => exact ⟨_, Stack.depth_push m.witnesses frame, fun _ => rfl⟩

/-- Either a body starts with evidence in force, or its closure brings in none. -/
theorem pushEvidence_cases (c : Closure) (scope : ScopeId) (m : Machine) :
    (∃ m₁, m₁.witnesses.depth ≠ 0 ∧ ∀ s, Run.pushEvidence c scope s m = .done () m₁) ∨
    c.witnesses = none ∧ m.returnWitness c scope = none := by
  obtain ⟨m₁, hm₁, hrun₁⟩ := pushWitness_deepens c.witnesses m
  obtain ⟨m₂, hm₂, hrun₂⟩ := pushWitness_deepens (m₁.returnWitness c scope) m₁
  by_cases hdepth : m₂.witnesses.depth = 0
  · have hc : c.witnesses = none := by
      rw [← Option.toList_eq_nil_iff, ← List.length_eq_zero_iff]
      omega
    have hr : m₁.returnWitness c scope = none := by
      rw [← Option.toList_eq_nil_iff, ← List.length_eq_zero_iff]
      omega
    have hm := hrun₁ {}
    rw [hc] at hm
    cases hm
    exact .inr ⟨hc, hr⟩
  · refine .inl ⟨m₂, hdepth, fun s => ?_⟩
    show Run.bind (Run.pushWitness c.witnesses) _ s m = _
    unfold Run.bind
    rw [hrun₁]
    exact hrun₂ s

theorem pushEvidence_none {c : Closure} {scope : ScopeId} {m : Machine} (hc : c.witnesses = none)
    (hr : m.returnWitness c scope = none) (s : Setting) :
    Run.pushEvidence c scope s m = .done () m := by
  unfold Run.pushEvidence
  rw [hc]
  show Run.pushWitness (m.returnWitness c scope) s m = _
  rw [hr]
  rfl

theorem returnWitness_eq (hκ : (abreast s d d').Lawful) {m m' : Machine}
    (hm : (abreast s d d').Machines m m') (c : Closure) (scope : ScopeId) :
    m.returnWitness c scope = m'.returnWitness c scope := by
  unfold Machine.returnWitness
  simp only [hm.resolveType hκ]

/-- Opens a body on both sides. The left run is stopped at a body that has evidence. -/
theorem openBody_bind (hκ : (abreast s d d').Lawful) (ha : (abreast s d d').Applies a a')
    (id : Ident) (c : Closure) (site : CallSite) {p p' : Pending}
    (hp : SamePending Fault.bare p p') (hw : p.witness = none) {g : Fault → Fault}
    (hg : ∀ f, (g f).bare = f.bare) {next next' : Binding → Run α}
    (hshort : ∀ v v', SameValue Fault.bare v v' →
      (abreast s d d').Follows R (next (.short v)) (next' (.short v')))
    (hready : ∀ scope, (abreast s d d').Follows R (next (.ready scope)) (next' (.ready scope)))
    (hstop : ∀ scope m, m.witnesses.depth ≠ 0 →
      ∃ why, next (.ready scope) s.guarded m = .halted why) :
    (abreast s d d').Follows R (Run.openBody a id c p site >>= next)
      (Run.mapFault g (Run.openBody a' id c p' site) >>= next') := by
  have hopen (a : Apply) {p : Pending} (hw : p.witness = none) :
      Run.openBody a id c p site = (do
        match ← Run.bindArguments a id c p.args site with
        | .short v => return .short v
        | .ready scope => do
          Run.pushEvidence c scope
          return .ready scope) := by
    rw [Run.openBody, hw]
    rfl
  rw [hopen a hw, hopen a' (hp.witness ▸ hw), Run.mapFault_bind, bind_assoc, bind_assoc]
  refine bind (mapFault_right hg (bindArguments hκ ha id c site hp.args)) fun b b' hb => ?_
  cases hb with
  | short hv => exact hshort _ _ hv
  | ready scope =>
    intro m m' hm
    show Outcomes _ R
      (Run.bind (Run.bind (Run.pushEvidence c scope) _) next s.guarded m)
      (Run.bind (Run.mapFault g (Run.bind (Run.pushEvidence c scope) _)) next' s m')
    unfold Run.bind Run.mapFault
    dsimp only
    obtain ⟨m₁, hdepth, hrun⟩ | ⟨hc, hr⟩ := pushEvidence_cases c scope m
    · obtain ⟨why, hhalt⟩ := hstop scope m₁ hdepth
      rw [hrun]
      show Outcomes _ R (next (.ready scope) s.guarded m₁) _
      rw [hhalt]
      exact .halted _ _
    · rw [pushEvidence_none hc hr, pushEvidence_none hc (returnWitness_eq hκ hm c scope ▸ hr)]
      exact hready scope m m' hm

theorem runOther (hκ : (abreast s d d').Lawful) (ha : (abreast s d d').Applies a a')
    {p p' : Pending} (hp : SamePending Fault.bare p p') (hw : p.witness = none) (site : CallSite)
    (r r' : Bool) :
    (abreast s d d').Follows (SameValue Fault.bare)
      (Run.runOther a { p with site, reentered := r })
      (Run.runOther a' { p' with site, reentered := r' }) := by
  have hfault {f f' : Fault} (h : f.bare = f'.bare) :
      (f.atTailSite site r).bare = (f'.atTailSite site r').bare := by
    rw [Fault.bare_atTailSite, Fault.bare_atTailSite, h]
  unfold Run.runOther
  dsimp only
  rw [← hp.witness, hw]
  exact mapFault (fun _ _ => hfault) (applyNative hκ ha site hp.callee hp.args)

end Abreast

end Follows

theorem Outcomes.located {f : Fault} {m : Machine} {o : Outcome α} (span : Span)
    (h : (abreast s d d').Outcomes R (.failed f m) o) :
    (abreast s d d').Outcomes R (.failed (f.orLocation span) m) o := by
  cases h with
  | failed he hm => exact .failed ((f.bare_orLocation span).trans he) hm

/-- Tail calls keep up with plain recursion that nests `n` calls: what it applies, applying and
handing over the frame bring to the same end. -/
structure KeepsUp (s : Setting) (n : Nat) : Prop where
  applies : ∀ {d d' k}, d' ≤ d → n < k → (abreast s d d').Applies (nested n) (apply k)
  handsOver : ∀ {d d' k j}, d' ≤ d → n < k → n ≤ j → ∀ {callee callee' args args'} site,
    SameValue Fault.bare callee callee' → SameValues Fault.bare args args' →
    (abreast s d d').Follows (SameValue Fault.bare) (nested n callee args site)
      (Run.handOver k 0 (.tail callee' args' site) >>= Run.goOn k j)

/-- A call that nests is made only below the limit. -/
theorem nested_succ {R : Value → Value → Prop} {n : Nat} {callee : Value} {args : List Value}
    {site : CallSite} {x : Run Value}
    (h : d < s.limits.maxCallDepth →
      (abreast s (d + 1) d').Follows R (Run.nestedCall (nested n) n callee args site) x) :
    (abreast s d d').Follows R (nested (n + 1) callee args site) x := by
  intro m m' hm
  show Outcomes _ R (if s.limits.maxCallDepth ≤ m.calls.depth then _ else _) _
  split
  · exact .halted _ _
  · next hroom =>
    rw [hm.frames.1] at hroom
    exact Follows.withCall_left _ (.keepingWitnesses_left (h (by omega))) m m' hm

namespace KeepsUp

variable {n k j : Nat} (hlaw : ∀ d d', (abreast s d d').Lawful) (h : KeepsUp s n)

include hlaw h

/-- A body that leaves its last call ends, once that call has taken over the frame, like one that
makes it. -/
theorem body (hd : d' ≤ d) (hk : n < k) (hj : n ≤ j) (site : CallSite) (reentered : Bool)
    (scope : ScopeId) (e : Spanned Expr) :
    (abreast s d d').Follows (SameValue Fault.bare) (evalValue (nested n) {} scope e)
      (do
        let step ← Run.mapFault (Fault.atTailSite site reentered)
          (evalNode (apply k) { tail := true } scope e)
        Run.handOver k 0 step >>= Run.goOn k j) := by
  intro m m' hm
  have hnode := Follows.node (hlaw d d') (h.applies hd hk) { tail := true } scope e m m' hm
  have hdefer := Run.Defers.node (a := nested n) none scope e s.guarded m
  -- `hnode` compares the bodies up to the last call, `hdefer` says what making that call adds.
  show Outcomes _ _ (Run.bind (evalNode (nested n) { tail := false } scope e) _ s.guarded m)
    (Run.bind (Run.mapFault _ _) _ s m')
  unfold Run.bind Run.mapFault
  dsimp only [abreast] at hnode ⊢
  generalize evalNode (nested n) { tail := true } scope e s.guarded m = o,
    evalNode (nested n) { tail := false } scope e s.guarded m = o₁,
    evalNode (apply k) { tail := true } scope e s m' = o' at hnode hdefer ⊢
  cases hdefer with
  | done v m₁ =>
    cases hnode with
    | done hv hm₁ =>
      cases hv with
      | done hv => exact .done hv hm₁
  | failed f m₁ =>
    cases hnode with
    | failed he hm₁ => exact .failed (he.trans (Fault.bare_atTailSite _ _ _).symm) hm₁
  | halted why => exact .halted _ _
  | @tail callee args site' m₁ path _ _ hmade =>
    cases hnode with
    | done hv hm₁ =>
      cases hv with
      | tail _ hcallee hargs =>
        have hcall := h.handsOver hd hk hj site' hcallee hargs m₁ _ hm₁
        dsimp only [abreast] at hcall ⊢
        generalize nested n callee args site' s.guarded m₁ = made at hmade hcall
        cases hmade with
        | done v m₂ => exact hcall
        | failed f m₂ =>
          rcases f.through_eq path with hsame | ⟨span, -, hlocated⟩
          · rwa [hsame]
          · rw [hlocated]
            exact hcall.located span
        | halted why => exact .halted _ _

/-- A callee that runs to its value by plain recursion does so in a loop. -/
theorem loop (hd : d' ≤ d) (hk : n < k) (hj : n < j) {p p' : Pending}
    (hp : SamePending Fault.bare p p') (hw : p.witness = none) (site : CallSite)
    (reentered : Bool) :
    (abreast s d d').Follows (SameValue Fault.bare) (Run.runNested (nested n) p site)
      (Run.iterate (Run.loopStep (apply k) k 0) j { p' with site, reentered }) := by
  obtain ⟨j, rfl⟩ : ∃ i, j = i + 1 := ⟨j - 1, by omega⟩
  have ha : (abreast s d d').Applies (nested n) (apply k) := h.applies hd hk
  have hother : (abreast s d d').Follows (SameValue Fault.bare)
      (Run.runOther (nested n) { p with site, reentered := false })
      ((do return .inr (← Run.runOther (apply k) { p' with site, reentered })) >>=
        Run.goOn k j) := by
    rw [bind_assoc, ← bind_pure (Run.runOther (nested n) _)]
    exact .bind (.runOther (hlaw d d') ha hp hw site false reentered) fun _ _ hv => .pure hv
  rw [Run.iterate_loopStep]
  obtain ⟨callee, args, witness⟩ := p
  obtain ⟨callee', args', witness'⟩ := p'
  cases Value.alike_of_mask_eq hp.callee with
  | function id c =>
    show Follows _ _ _ (Run.runFunction (apply k) k 0 id c _ >>= Run.goOn k j)
    unfold Run.runNested Run.runFunction
    rw [bind_assoc]
    refine Follows.openBody_bind (hlaw d d') ha id c site hp hw
      (Fault.bare_atTailSite site reentered) ?_ ?_ ?_
    · exact fun v v' hv => .pure hv
    · intro scope
      dsimp only
      rw [bind_assoc]
      refine .bind (.reach (hlaw d d') (.body c scope)) fun _ _ _ => ?_
      rw [bind_assoc]
      exact h.body hlaw hd hk (by omega) site reentered scope c.func.body
    · intro scope m hdepth
      have hstop : s.guarded.breakpoint (.body c scope) m = true := by
        simp [Setting.guarded, tellsCallsApart, hdepth]
      refine ⟨.breakpoint (.body c scope) m, ?_⟩
      show Run.bind (Run.reach (.body c scope)) _ s.guarded m = _
      unfold Run.bind Run.reach
      rw [hstop]
      rfl
  | inert hv hv' =>
    have hnested : Run.runNested (nested n) ⟨callee, args, witness⟩ site =
        Run.runOther (nested n) ⟨⟨callee, args, witness⟩, site, false⟩ := by
      cases callee <;> first | rfl | cases hv
    have hstep : Run.loopStep (apply k) k 0 ⟨⟨callee', args', witness'⟩, site, reentered⟩ = (do
        return .inr (← Run.runOther (apply k) ⟨⟨callee', args', witness'⟩, site, reentered⟩)) := by
      cases callee' <;> first | rfl | cases hv'
    rw [hnested, hstep]
    exact hother
  | _ => exact hother

theorem applies_succ (hd : d' ≤ d) (hk : n + 1 < k) :
    (abreast s d d').Applies (nested (n + 1)) (apply k) := by
  intro callee callee' args args' site hcallee hargs
  obtain ⟨k, rfl⟩ : ∃ i, k = i + 1 := ⟨k - 1, by omega⟩
  refine nested_succ fun hlimit m m' hm => ?_
  -- There are no more calls in progress on the right than on the left, so there is room for one.
  have hroom : ¬ s.limits.maxCallDepth ≤ m'.calls.depth := by
    rw [hm.frames.2.1]
    omega
  show Outcomes _ _ _ (if s.limits.maxCallDepth ≤ m'.calls.depth then _ else _)
  rw [if_neg hroom]
  refine Follows.withCall_right (m'.frame site) (.keepingWitnesses_right ?_) m m' hm
  refine .machine_right fun m₀ hm₀ => ?_
  rw [hm₀]
  refine .bind (.reduce_unwitnessed (hlaw _ _) (by omega) site hcallee hargs) fun r r' hr => ?_
  obtain ⟨hr, hw⟩ := hr
  cases hr with
  | short hv => exact .pure hv
  | call hp => exact h.loop hlaw (by omega) (by omega) (by omega) hp (hw _ rfl) site false

theorem handsOver_succ (hd : d' ≤ d) (hk : n + 1 < k) (hj : n + 1 ≤ j) {callee callee' : Value}
    {args args' : List Value} (site : CallSite) (hcallee : SameValue Fault.bare callee callee')
    (hargs : SameValues Fault.bare args args') :
    (abreast s d d').Follows (SameValue Fault.bare) (nested (n + 1) callee args site)
      (Run.handOver k 0 (.tail callee' args' site) >>= Run.goOn k j) := by
  -- From here on the left side has one call more in progress than before, the right side not.
  refine nested_succ fun _ => ?_
  unfold Run.nestedCall
  rw [Run.handOver, bind_assoc]
  have hreduce := Follows.reduce_unwitnessed (hlaw (d + 1) d') (by omega : n ≤ k) site hcallee hargs
  refine .bind (.mapFault_right (fun f => f.bare_orLocation site.span) hreduce) fun r r' hr => ?_
  obtain ⟨hr, hw⟩ := hr
  cases hr with
  | short hv => exact .pure hv
  | call hp =>
    have hloop := h.loop hlaw (by omega : d' ≤ d + 1) (by omega : n < k) hj hp (hw _ rfl) site true
    exact fun m m' hm => Follows.takeOver_right (·.frame site) 0 hloop m m' hm

end KeepsUp

theorem keepsUp (hlaw : ∀ d d', (abreast s d d').Lawful) (n : Nat) : KeepsUp s n := by
  -- Bodies run with the fuel `n` at hand, so a loop needs both properties at `n` and gives them
  -- at `n + 1`.
  induction n with
  | zero =>
    constructor
    · intro d d' k _ _ callee callee' args args' site _ _
      exact .outOfFuel _
    · intros
      exact .outOfFuel _
  | succ n ih => exact ⟨ih.applies_succ hlaw, ih.handsOver_succ hlaw⟩

section Guarded

variable {t : Setting} (ht : s.Eases t)

include ht

theorem exactly_runNested {a : Apply} (ha : (exactly s t).Applies a a) (p : Pending)
    (site : CallSite) :
    (exactly s t).Follows (SameValue id) (Run.runNested a p site) (Run.runNested a p site) := by
  have hother := exactly_runOther ht ha { p with site, reentered := false }
  unfold Run.runNested
  cases p.callee with
  | function ident c =>
    refine .bind (exactly_openBody ht ha ident c p site) fun r r' hr => ?_
    obtain rfl := hr
    cases r with
    | short v => exact .pure rfl
    | ready scope =>
      refine .bind (exactly_reach ht Event.noConfusion) fun _ _ _ => ?_
      exact .evalValue (exactly_lawful ht) ha {} scope c.func.body
  | _ => exact hother

theorem exactly_nested (n : Nat) : (exactly s t).Applies (nested n) (nested n) := by
  induction n with
  | zero => exact fun _ _ _ => Follows.outOfFuel _
  | succ n ih =>
    intro callee callee' args args' site hcallee hargs
    refine exactly_asCall ht site (exactly_keepingWitnesses ?_)
    refine .bind (.reduce (exactly_lawful ht) (Nat.le_refl n) site hcallee hargs) fun r r' hr => ?_
    obtain rfl := hr.eq
    cases r with
    | short v => exact .pure rfl
    | call p => exact exactly_runNested ht ih p site

end Guarded

end Coupling

/-- A debugger that does not stop a run does not change it. -/
theorem nested_eq_guarded {s : Setting} (hs : ∀ e m, s.breakpoint e m = false) {n : Nat}
    {callee : Value} {args : List Value} {site : CallSite} {m : Machine}
    (h : (nested n callee args site s.guarded m).Returned) :
    nested n callee args site s m = nested n callee args site s.guarded m := by
  have hs : s.guarded.Eases s := .of_breakpoint fun e m _ => hs e m
  have hfollows := Coupling.exactly_nested hs n site (SameValue.refl id callee)
    (SameValues.refl id args)
  exact Coupling.eq_of_outcomes (fun _ _ => SameValue.eq)
    (hfollows m m (Coupling.machines_refl m)) h

/-- Machines that agree on all but calls and evidence, up to the position and the trace of caught
faults in scopes and traits. -/
structure Machine.Alike (m m' : Machine) : Prop where
  store : m.store.mask Fault.bare = m'.store.mask Fault.bare
  registry : m.registry.mask Fault.bare = m'.registry.mask Fault.bare
  file : m.file = m'.file
  hints : m.hints = m'.hints
  bridge : m.bridge = m'.bridge
  fallback : m.fallback = m'.fallback
  typeContext : m.typeContext = m'.typeContext
  containers : m.containers = m'.containers
  output : m.output = m'.output
  nextIdent : m.nextIdent = m'.nextIdent

/-- Both runs return the same value, up to caught faults in it, or faults of one cause. -/
inductive EndsAlike : Outcome Value → Outcome Value → Prop where
  | done {v v' : Value} {m m' : Machine} : v.mask Fault.bare = v'.mask Fault.bare → m.Alike m' →
      EndsAlike (.done v m) (.done v' m')
  | failed {f f' : Fault} {m m' : Machine} : f.kind = f'.kind → f.message = f'.message →
      m.Alike m' → EndsAlike (.failed f m) (.failed f' m')

theorem EndsAlike.of_outcomes {s : Setting} {d d' : Nat} {o o' : Outcome Value}
    (h : (Coupling.abreast s d d').Outcomes (SameValue Fault.bare) o o') (ho : o.Returned) :
    EndsAlike o o' := by
  have halike {m m' : Machine} (hm : (Coupling.abreast s d d').Machines m m') : m.Alike m' :=
    ⟨hm.store, hm.registry, hm.file, hm.hints, hm.bridge, hm.fallback, hm.typeContext,
      hm.containers, hm.output, hm.nextIdent⟩
  cases h with
  | done hv hm => exact .done hv (halike hm)
  | @failed f f' m m' hf hm =>
    have hcause : f.cause = f'.cause := Fault.bare_eq_iff.1 hf
    exact .failed (congrArg Cause.kind hcause) (congrArg Cause.message hcause) (halike hm)
  | halted why o => cases ho

/-- If plain recursion runs a call to its end where no evidence is in force, without exceeding the
limit or getting anywhere that could tell calls apart, then the call ends alike when tail calls take
over the frame of their caller. -/
theorem EndsAlike.of_guarded {s : Setting} (hs : ∀ e m, s.breakpoint e m = false)
    (hblind : s.host.Blind Fault.bare) {m : Machine} (hm : m.witnesses = {}) {n k : Nat}
    (hnk : n < k) {callee : Value} {args : List Value} {site : CallSite}
    (hreturned : (nested n callee args site s.guarded m).Returned) :
    EndsAlike (nested n callee args site s m) (apply k callee args site s m) := by
  rw [nested_eq_guarded hs hreturned]
  have hlaw (d d' : Nat) : (Coupling.abreast s d d').Lawful := Coupling.abreast_lawful hs hblind
  have happlies := (Coupling.keepsUp hlaw n).applies (Nat.le_refl m.calls.depth) hnk site
    (SameValue.refl _ callee) (SameValues.refl _ args)
  have hstart : (Coupling.abreast s m.calls.depth m.calls.depth).Machines m m :=
    ⟨rfl, rfl, rfl, rfl, rfl, rfl, ⟨rfl, rfl, hm, hm⟩, rfl, rfl, rfl, rfl⟩
  exact .of_outcomes (happlies m m hstart) hreturned

/-! ### Where traits play no part -/

/-- No trait method occurs, no function declares its result, and there is no evidence. -/
def Policy.traitless : Policy where
  assigns := true
  traits := false
  live _ := True
  evidence _ := False
  evidence_of_known h := absurd h Bool.false_ne_true

theorem Machine.Obeys.no_evidence {m : Machine} (h : m.Obeys .traitless) : m.witnesses = {} := by
  ext1
  refine List.eq_nil_iff_forall_not_mem.2 fun f hf => ?_
  exact Bool.false_ne_true (h.witnesses f hf).traits

namespace Run.Keeps

variable {P : Policy} {k : ScopeId} {a : Apply}

theorem runNested (ha : Always P a) {p : Pending} (hp : p.Obeys P) (site : CallSite) :
    (runNested a p site).Keeps P k (Value.Obeys P) := by
  have hcallee := hp.callee
  unfold Run.runNested
  split
  · rename_i id c heq
    rw [heq] at hcallee
    refine bind (openBody ha id hcallee hp site) fun b hb => ?_
    cases b with
    | short v => exact pure hb
    | ready scope =>
      exact bind (reach trivial) fun _ _ => evalValue ha {} hb (Func.follows_body hcallee.code)
  · exact runOther ha hp

/-- Plain recursion keeps to a policy as well. -/
theorem nested (n : Nat) : Always P (nested n) := by
  induction n with
  | zero => exact fun _ _ _ _ => outOfFuel
  | succ n ih =>
    intro callee args hcallee hargs site k
    refine asCall site (keepingWitnesses (bind (reduce n hcallee hargs site) fun r hr => ?_))
    cases r with
    | short v => exact pure hr
    | call p => exact runNested ih hr site

end Run.Keeps

/-- The depth of the stacks shows: too many calls are in progress, or a native asks for it. -/
def Event.showsDepth : Event → Bool
  | overflow _ | depths => true
  | _ => false

/-- Without traits the depth of the stacks is all that can tell calls apart. -/
theorem tellsCallsApart_eq {e : Event} {m : Machine} (he : e.Obeys .traitless)
    (hm : m.Obeys .traitless) : tellsCallsApart e m = e.showsDepth := by
  cases e with
  | dispatch method => exact absurd he Bool.false_ne_true
  | body c scope => rw [tellsCallsApart, hm.no_evidence]; rfl
  | overflow | native | depths | limits => rfl

theorem Setting.guarded_agrees {s : Setting} (hs : ∀ e m, s.breakpoint e m = false) :
    (s.stoppingAt Event.showsDepth).AgreesOn .traitless s.guarded where
  limits := rfl
  host := rfl
  breakpoint he hm := by
    simp only [guarded, stoppingAt, tellsCallsApart_eq he hm, hs, Bool.or_false]

/-- Where traits play no part, plain recursion gets nowhere else that could tell calls apart. -/
theorem nested_guarded {s : Setting} (hs : ∀ e m, s.breakpoint e m = false)
    (hhost : s.host.Obeys .traitless) {m : Machine} (hm : m.Obeys .traitless) {callee : Value}
    (hcallee : callee.Obeys .traitless) {args : List Value}
    (hargs : ∀ v ∈ args, v.Obeys .traitless) (n : Nat) (site : CallSite) :
    nested n callee args site s.guarded m =
      nested n callee args site (s.stoppingAt Event.showsDepth) m :=
  (Run.Keeps.nested n hcallee hargs site 0).agrees (Setting.guarded_agrees hs) hhost hm

/-- Where traits play no part, a call that plain recursion runs to its end without exceeding the
limit, and without a native asking for the depth of the stacks, ends alike when tail calls take over
the frame of their caller. No debugger is attached, and natives of the host do not look at the
position or the trace of a fault. -/
theorem apply_endsAlike_nested {s : Setting} (hs : ∀ e m, s.breakpoint e m = false)
    (hblind : s.host.Blind Fault.bare) (hhost : s.host.Obeys .traitless) {m : Machine}
    (hm : m.Obeys .traitless) {callee : Value} (hcallee : callee.Obeys .traitless)
    {args : List Value} (hargs : ∀ v ∈ args, v.Obeys .traitless) {n k : Nat} (hnk : n < k)
    {site : CallSite}
    (hreturned : (nested n callee args site (s.stoppingAt Event.showsDepth) m).Returned) :
    EndsAlike (nested n callee args site s m) (apply k callee args site s m) := by
  rw [← nested_guarded hs hhost hm hcallee hargs] at hreturned
  exact .of_guarded hs hblind hm.no_evidence hnk hreturned

/-- The number of frames in the trace of the fault that a run ended with. -/
def Outcome.traceLength? {α : Type} : Outcome α → Option Nat
  | .failed f _ => f.trace.map List.length
  | _ => none

theorem Host.blind_default (g : Fault → Fault) : ({} : Host).Blind g where
  native _ _ _ _ := .done rfl
  member _ hbridge := absurd hbridge (by simp [bridgeOn_eq_none])
  fallback _ hhandler := absurd hhandler (by simp [fallbackOn_eq_none])

/-- A function without parameters whose last call looks up a name that nothing binds. -/
def stray : Func :=
  { (default : Func) with
    body := ⟨.call 0 ⟨.lambda { (default : Func) with body := ⟨.var "x", {}⟩ }, {}⟩ [], {}⟩ }

/-- A function that the global scope holds. -/
def globalFunction (f : Func) : Value := .function 0 { func := f, scope := Store.global }

theorem obeys_globalFunction {f : Func} (hf : f.follows ⟨true, false⟩ = true) :
    (globalFunction f).Obeys .traitless :=
  ⟨hf, trivial, fun _ h => by cases h⟩

theorem Machine.obeys_traitless {bindings : List (String × Value)}
    (h : ∀ b ∈ bindings, b.2.Obeys .traitless) :
    ({ store := ⟨#[{ bindings }]⟩ } : Machine).Obeys .traitless := by
  refine ⟨trivial, ⟨fun _ => trivial, fun _ _ _ => trivial, fun {id scope name v} _ hid hv => ?_⟩,
    ⟨fun hv => ?_, fun hf => ?_, fun hv => ?_⟩, fun f hf => ?_⟩
  · cases id with
    | zero =>
      cases hid
      exact obeys_of_lookup h hv
    | succ id => cases hid
  · cases hv
  · cases hf
  · cases hv
  · cases hf

/-- A fault in a tail call has two frames in its trace by plain recursion and one otherwise. -/
theorem apply_endsAlike_nested_stray :
    let s : Setting := {}
    let m : Machine := { store := ⟨#[{}]⟩ }
    let callee := globalFunction stray
    let site : CallSite := { name := "stray" }
    (nested 3 callee [] site (s.stoppingAt Event.showsDepth) m).Returned ∧
      (nested 3 callee [] site s m).traceLength? = some 2 ∧
      (apply 4 callee [] site s m).traceLength? = some 1 ∧
      EndsAlike (nested 3 callee [] site s m) (apply 4 callee [] site s m) := by
  intro s m callee site
  exact ⟨by decide +kernel, by decide +kernel, by decide +kernel,
    apply_endsAlike_nested (fun _ _ => rfl) (Host.blind_default _) Host.obeys_default
      (Machine.obeys_traitless fun _ hb => absurd hb List.not_mem_nil) (obeys_globalFunction rfl)
      (fun _ hv => absurd hv List.not_mem_nil) (by decide) (by decide +kernel)⟩

/-! ### Natives that look at traces -/

namespace TraceReader

/-- The number of frames in the trace of a caught fault. -/
def framesOf : List Value → Value
  | [.error _ f] => .int (.ofNat (f.trace.getD []).length)
  | _ => .unit

/-- Its native functions count the frames of the fault that they are handed. -/
def host : Host where
  native _ args := .done (framesOf args)

def globals : List (String × Value) :=
  [("frames", .builtin ⟨0, "frames", .host "frames", none, []⟩), ("stray", globalFunction stray)]

def start : Machine where
  store := ⟨#[{ bindings := globals }]⟩

/-- `frames(try stray())` -/
def counting : Func :=
  { (default : Func) with
    body := ⟨.call 0 ⟨.var "frames", {}⟩ [⟨.attempt ⟨.call 1 ⟨.var "stray", {}⟩ [], {}⟩, {}⟩], {}⟩ }

theorem host_obeys : host.Obeys .traitless where
  native _ args _ := by
    show (framesOf args).Obeys .traitless
    unfold framesOf
    split <;> trivial
  callMember h := absurd h (by simp [Host.bridgeOn_eq_none, host])
  readField h := absurd h (by simp [Host.bridgeOn_eq_none, host])
  fallback h := absurd h (by simp [Host.fallbackOn_eq_none, host])

theorem start_obeys : start.Obeys .traitless := by
  have hstray : (globalFunction stray).Obeys .traitless := obeys_globalFunction rfl
  exact Machine.obeys_traitless (by simp [globals, Builtin.obeys_iff, hstray])

end TraceReader

def Value.number? : Value → Option Int64
  | .int n => some n
  | _ => none

theorem Value.number?_mask (g : Fault → Fault) (v : Value) : (v.mask g).number? = v.number? := by
  cases v <;> rfl

def Outcome.number? : Outcome Value → Option Int64
  | .done v _ => v.number?
  | _ => none

theorem EndsAlike.number? {o o' : Outcome Value} (h : EndsAlike o o') : o.number? = o'.number? := by
  cases h with
  | @done v v' _ _ hv _ =>
    show v.number? = v'.number?
    rw [← v.number?_mask Fault.bare, hv, v'.number?_mask]
  | failed => rfl

open TraceReader in
/-- A native that counts the frames in the trace of a caught fault tells calls apart, although
traits play no part and no depth shows. -/
theorem trace_shows_to_native :
    let s : Setting := { host }
    let callee := globalFunction counting
    let site : CallSite := { name := "counting" }
    s.host.Obeys .traitless ∧ start.Obeys .traitless ∧ callee.Obeys .traitless ∧
      (nested 5 callee [] site (s.stoppingAt Event.showsDepth) start).Returned ∧
      ¬ EndsAlike (nested 5 callee [] site s start) (apply 6 callee [] site s start) := by
  intro s callee site
  refine ⟨host_obeys, start_obeys, obeys_globalFunction rfl, by decide +kernel, fun h => ?_⟩
  have hthree : (nested 5 callee [] site s start).number? = some 3 := by decide +kernel
  have htwo : (apply 6 callee [] site s start).number? = some 2 := by decide +kernel
  rw [h.number?, htwo] at hthree
  cases hthree

end TraitLang
