import TraitLang.Proofs.Fuel

/-!
The limit on calls in progress. Main statement: a call in which the check of the depth never fires,
and no native asks for the limits, returns the same value or fault on the same machine under every
larger limit.
-/
namespace TraitLang

/-- A call finds too many others in progress. -/
def Event.isOverflow : Event → Bool
  | overflow _ => true
  | _ => false

/-- The limit on calls shows: too many are in progress, or a native asks for the limits. -/
def Event.showsLimit : Event → Bool
  | overflow _ | limits => true
  | _ => false

namespace Setting

/-- The setting with another limit on calls. -/
def withDepth (s : Setting) (d : Nat) : Setting :=
  { s with limits := { s.limits with maxCallDepth := d } }

/-- The setting with a debugger that also stops a run at the given events. -/
def stoppingAt (s : Setting) (stops : Event → Bool) : Setting :=
  { s with breakpoint := fun e m => stops e || s.breakpoint e m }

theorem breakpoint_of_stoppingAt {s : Setting} {stops : Event → Bool} {e : Event} {m : Machine}
    (h : (s.stoppingAt stops).breakpoint e m = false) :
    stops e = false ∧ s.breakpoint e m = false :=
  Bool.or_eq_false_iff.1 h

theorem stoppingAt_eases (s : Setting) {d d' : Nat} (hd : d ≤ d') :
    ((s.withDepth d).stoppingAt Event.showsLimit).Eases (s.withDepth d') where
  host := rfl
  traceLimit := rfl
  breakpoint _ _ _ h := (breakpoint_of_stoppingAt h).2
  maxCallDepth := .inr ⟨hd, fun _ _ => rfl⟩
  limits := .inr fun _ h => absurd (breakpoint_of_stoppingAt h).1 Bool.noConfusion

/-- Where no native asks for the limits, a debugger that waits for it changes nothing. -/
theorem stoppingAtOverflow_eases {s : Setting} (hs : s.host.IgnoresLimits) :
    (s.stoppingAt Event.isOverflow).Eases (s.stoppingAt Event.showsLimit) where
  host := rfl
  traceLimit := rfl
  breakpoint e m hlimits h := by
    obtain ⟨hstop, hs⟩ := breakpoint_of_stoppingAt h
    cases e with
    | overflow site => cases hstop
    | limits => exact absurd rfl hlimits
    | _ => exact hs
  maxCallDepth := .inl rfl
  limits := .inl hs

end Setting

/-- A call never gets to one of the given events: a debugger that stops it there lets it return. -/
def Avoids (stops : Event → Bool) (callee : Value) (args : List Value) (site : CallSite)
    (s : Setting) (m : Machine) : Prop :=
  ∃ o, Returns callee args site (s.stoppingAt stops) m o

/-- With natives that do not ask for the limits, the limit shows only where the check of the depth
fires. -/
theorem Avoids.showsLimit {s : Setting} (hs : s.host.IgnoresLimits) {callee : Value}
    {args : List Value} {site : CallSite} {m : Machine}
    (h : Avoids Event.isOverflow callee args site s m) :
    Avoids Event.showsLimit callee args site s m := by
  obtain ⟨o, ho⟩ := h
  exact ⟨o, ho.of_eases (Setting.stoppingAtOverflow_eases hs)⟩

/-- A call that returns under a limit, without the check of the depth ever firing, not even where
its failure would be caught, and without a native that asks for the limits, returns the same under
every larger limit: the same value or fault, on the same machine. -/
theorem returns_withDepth {s : Setting} {d d' : Nat} (hd : d ≤ d') {callee : Value}
    {args : List Value} {site : CallSite} {m : Machine} {o : Outcome Value}
    (h : Returns callee args site (s.withDepth d) m o)
    (hnever : Avoids Event.showsLimit callee args site (s.withDepth d) m) :
    Returns callee args site (s.withDepth d') m o := by
  obtain ⟨o', hstopping⟩ := hnever
  -- the debugger did not stop the call, so it saw the very outcome
  have hsame : Returns callee args site (s.withDepth d) m o' :=
    hstopping.of_eases (s.stoppingAt_eases (Nat.le_refl d))
  obtain rfl : o = o' := h.unique hsame
  exact hstopping.of_eases (s.stoppingAt_eases hd)

/-- `try (\-> 1)()`, as a function without parameters -/
def cautious : Value :=
  .function 0
    { func := { (default : Func) with
        body := ⟨.attempt ⟨.call 0 ⟨.lambda { (default : Func) with
          body := ⟨.lit (.int 1), {}⟩ }, {}⟩ [], {}⟩, {}⟩ }
      scope := Store.global }

/-- Two calls are in progress at most, so two are as good as nine. -/
theorem returns_withDepth_cautious :
    let s : Setting := {}
    let site : CallSite := { name := "cautious" }
    let o := apply 3 cautious [] site (s.withDepth 2) {}
    Returns cautious [] site (s.withDepth 2) {} o ∧
      Avoids Event.isOverflow cautious [] site (s.withDepth 2) {} ∧
      Returns cautious [] site (s.withDepth 9) {} o := by
  intro s site o
  have hreturns : Returns cautious [] site (s.withDepth 2) {} o := ⟨by decide +kernel, 3, rfl⟩
  have hnever : Avoids Event.isOverflow cautious [] site (s.withDepth 2) {} :=
    ⟨_, by decide +kernel, 3, rfl⟩
  have hhost : (s.withDepth 2).host.IgnoresLimits := fun _ _ => trivial
  exact ⟨hreturns, hnever, returns_withDepth (by decide) hreturns (hnever.showsLimit hhost)⟩

/-- Under a limit of one the check fires, and the program goes on with the failure as a value. -/
example : ∃ id f m, apply 3 cautious [] { name := "cautious" } (Setting.withDepth {} 1) {} =
    .done (.error id f) m := ⟨_, _, _, rfl⟩

/-- A native that returns the limit. -/
def asksForLimit : Host :=
  { native := fun _ _ => .limits fun l => .done (.int (.ofNat l.maxCallDepth)) }

/-- The native can tell two limits apart, though the check of the depth fires under neither. -/
theorem limit_shows_to_native :
    let s : Setting := { host := asksForLimit }
    let callee : Value := .builtin ⟨0, "limit", .host "limit", none, []⟩
    let site : CallSite := { name := "limit" }
    Returns callee [] site (s.withDepth 1) {} (.done (.int 1) {}) ∧
      Avoids Event.isOverflow callee [] site (s.withDepth 1) {} ∧
      Returns callee [] site (s.withDepth 2) {} (.done (.int 2) {}) := by
  intro s callee site
  have hnever : Avoids Event.isOverflow callee [] site (s.withDepth 1) {} :=
    ⟨.done (.int 1) {}, trivial, 2, rfl⟩
  exact ⟨⟨trivial, 2, rfl⟩, hnever, trivial, 2, rfl⟩

end TraitLang
