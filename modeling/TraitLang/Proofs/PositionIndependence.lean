import TraitLang.Proofs.PositionlessCalls

/-!
Positions are for diagnosis only. Two interpreters may differ in the positions in programs and
values, in the name of the file and in the number of frames that call traces keep. Main statement:
whatever operation both go through, the answers are the same up to positions, and so are the
interpreters that it leaves.
-/
namespace TraitLang

namespace Interpreter

/-- The interpreters differ at most in positions, in the name of the file and in the number of
frames that call traces keep. -/
structure DifferInPositions (i j : Interpreter) : Prop where
  host : i.setting.host = j.setting.host
  breakpoint : i.setting.breakpoint = j.setting.breakpoint
  limits : i.setting.limits.forget = j.setting.limits.forget
  machine : i.machine.forget = j.machine.forget

/-- The answers are the same up to positions, and what is left differs in nothing else. -/
def SameAnswer {α : Type} (f : α → α) (r r' : Option (Except Fault α) × Interpreter) : Prop :=
  r.1.map (forgetResult f) = r'.1.map (forgetResult f) ∧ r.2.DifferInPositions r'.2

variable {i j : Interpreter}

theorem DifferInPositions.setting (h : i.DifferInPositions j) :
    i.setting.forget = j.setting.forget := by
  simp only [Setting.forget, h.host, h.limits]

theorem DifferInPositions.ignoresPositions (h : i.DifferInPositions j)
    (hi : i.setting.IgnoresPositions) : j.setting.IgnoresPositions where
  host := h.host ▸ hi.host
  unwatched := h.breakpoint ▸ hi.unwatched

/-- Computations that do the same without positions give the same answer up to positions. -/
theorem DifferInPositions.exec {α : Type} {f : α → α} {x y z : Run α} (h : i.DifferInPositions j)
    (hx : Run.Forgets i.setting f x z) (hy : Run.Forgets j.setting f y z) :
    SameAnswer f (i.exec x) (j.exec y) := by
  have hsame : (x i.setting i.machine).forget f = (y j.setting j.machine).forget f := by
    rw [← hx i.machine, ← hy j.machine, h.setting, h.machine]
  unfold Interpreter.exec
  cases hxs : x i.setting i.machine <;> cases hys : y j.setting j.machine <;>
    rw [hxs, hys] at hsame <;> simp only [Outcome.forget, reduceCtorEq] at hsame
  case done.done a m b n =>
    obtain ⟨hvalue, hmachine⟩ := Outcome.done.inj hsame
    exact ⟨by simp only [Option.map_some, forgetResult, hvalue],
      ⟨h.host, h.breakpoint, h.limits, hmachine⟩⟩
  case failed.failed e m e' n =>
    obtain ⟨hfault, hmachine⟩ := Outcome.failed.inj hsame
    exact ⟨by simp only [Option.map_some, forgetResult, hfault],
      ⟨h.host, h.breakpoint, h.limits, hmachine⟩⟩
  case halted.halted => exact ⟨rfl, h⟩

/-- Loading programs, evaluating expressions, applying callables, calling functions by name and
resolving methods: where what they are given differs at most in positions, two interpreters that
differ at most in positions give the same answer up to positions, or neither gives one, and differ
at most in positions afterwards. -/
theorem positions_are_diagnostic (h : i.DifferInPositions j) (hi : i.setting.IgnoresPositions)
    (fuel : Nat) :
    (∀ p q : AnalyzedProgram, p.forget = q.forget →
      SameAnswer id (i.load fuel p) (j.load fuel q)) ∧
    (∀ e e', forgetNode e = forgetNode e' →
      SameAnswer Value.forget (i.eval fuel e) (j.eval fuel e')) ∧
    (∀ (callee callee' : Value) (args args' : List Value) (site site' : CallSite),
      callee.forget = callee'.forget → args.map Value.forget = args'.map Value.forget →
      site.forget = site'.forget →
      SameAnswer Value.forget (i.apply fuel callee args site) (j.apply fuel callee' args' site')) ∧
    (∀ name (args args' : List Value), args.map Value.forget = args'.map Value.forget →
      SameAnswer Value.forget (i.call fuel name args) (j.call fuel name args')) ∧
    ∀ m (args args' : List Value) (site site' : CallSite),
      args.map Value.forget = args'.map Value.forget → site.forget = site'.forget →
      SameAnswer Resolution.forget (i.resolve m args site) (j.resolve m args' site') := by
  have hj := h.ignoresPositions hi
  have happly := apply_forgets hi fuel
  have happly' := apply_forgets hj fuel
  refine ⟨?_, ?_, ?_, ?_, ?_⟩
  · intro p q hpq
    refine h.exec (Run.Forgets.loading hi happly p) ?_
    rw [hpq]
    exact Run.Forgets.loading hj happly' q
  · intro e e' he
    refine h.exec (Run.Forgets.evalValue hi happly {} Store.global e) ?_
    rw [he]
    exact Run.Forgets.evalValue hj happly' {} Store.global e'
  · intro callee callee' args args' site site' hcallee hargs hsite
    refine h.exec (happly callee args site) ?_
    rw [hcallee, hargs, hsite]
    exact happly' callee' args' site'
  · intro name args args' hargs
    refine h.exec (Run.Forgets.callGlobal happly name args) ?_
    rw [hargs]
    exact Run.Forgets.callGlobal happly' name args'
  · intro m args args' site site' hargs hsite
    refine h.exec (Run.Forgets.resolve hi m args site) ?_
    rw [hargs, hsite]
    exact Run.Forgets.resolve hj m args' site'

namespace Relay

/-- What a native function does that passes on what it got. -/
def answer : Except Fault Value → Action
  | .ok v => .done v
  | .error f => .fail f

/-- Its native functions call their first argument and pass on what they get. -/
def host : Host where
  native _ args := .apply (args.headD .unit) [] { name := "relay" } answer

theorem host_ignoresPositions : host.IgnoresPositions where
  native name args args' hargs := by
    have hhead : (args.headD .unit).forget = (args'.headD .unit).forget := by
      have h := congrArg (List.headD · Value.unit) hargs
      cases args <;> cases args' <;> simp_all
    refine .apply hhead rfl rfl fun r r' hr => ?_
    cases r <;> cases r' <;> simp only [forgetResult, reduceCtorEq] at hr
    · exact .fail (Except.error.inj hr)
    · exact .done (Except.ok.inj hr)
  member _ hbridge := absurd hbridge (by simp [Host.bridgeOn_eq_none, host])
  fallback _ hhandler := absurd hhandler (by simp [Host.fallbackOn_eq_none, host])

def start (file : String) (traceLimit : Nat) : Interpreter where
  setting := { limits := { traceLimit }, host }
  machine :=
    { file
      store := Store.fresh.define Store.global "relay"
        (.builtin ⟨0, "relay", .host "relay", none, []⟩)
      nextIdent := 1 }

/-- A constant that holds an error, and a function in which a call through the host fails. -/
def program (line : UInt32) : AnalyzedProgram where
  program :=
    { file := ""
      items := [
        .const ⟨"caught", none, ⟨.attempt ⟨.var "missing", { line }⟩, { line }⟩⟩,
        .func ⟨"main", [], none, [], [],
          ⟨.call 0 ⟨.var "relay", { line }⟩
            [⟨.lambda ⟨"", [], none, [], [], ⟨.var "missing", { line }⟩, { line }⟩, { line }⟩],
            { line }⟩, { line }⟩] }

theorem start_ignoresPositions (file : String) (traceLimit : Nat) :
    (start file traceLimit).setting.IgnoresPositions :=
  ⟨host_ignoresPositions, fun _ _ => rfl⟩

/-- After loading, which has defined the constant. -/
def loaded (file : String) (traceLimit : Nat) (line : UInt32) : Interpreter :=
  ((start file traceLimit).load 9 (program line)).2

theorem loaded_ignoresPositions (file : String) (traceLimit : Nat) (line : UInt32) :
    (loaded file traceLimit line).setting.IgnoresPositions := by
  rw [loaded, load, setting_exec]
  exact start_ignoresPositions file traceLimit

def failure? : Option (Except Fault Value) → Option Fault
  | some (.error f) => some f
  | _ => none

end Relay

open Relay in
/-- One program at two places: the failures name other lines and keep other frames, and are the same
up to positions. -/
theorem positions_are_diagnostic_relay :
    (start "first" 64).DifferInPositions (start "second" 1) ∧
    (program 3).forget = (program 7).forget ∧
    SameAnswer id ((start "first" 64).load 9 (program 3)) ((start "second" 1).load 9 (program 7)) ∧
    SameAnswer Value.forget ((loaded "first" 64 3).call 9 "main" [])
      ((loaded "second" 1 7).call 9 "main" []) ∧
    failure? ((loaded "first" 64 3).call 9 "main" []).1 = some
      { cause := .undefinedVariable "missing", location := some { line := 3 }
        trace := some [⟨"relay", "first", {}⟩, ⟨"relay", "first", { line := 3 }⟩] } ∧
    failure? ((loaded "second" 1 7).call 9 "main" []).1 = some
      { cause := .undefinedVariable "missing", location := some { line := 7 }
        trace := some [⟨"relay", "second", {}⟩] } := by
  have hstart : (start "first" 64).DifferInPositions (start "second" 1) := ⟨rfl, rfl, rfl, rfl⟩
  have hprogram : (program 3).forget = (program 7).forget := by
    simp only [AnalyzedProgram.forget, program, List.map_cons, List.map_nil, Item.forget,
      Func.forget, forgetNode, Expr.forget, forgetAll, forgetParams]
  have hload := (positions_are_diagnostic hstart (start_ignoresPositions "first" 64) 9).1
    (program 3) (program 7) hprogram
  have hcall := (positions_are_diagnostic hload.2 (loaded_ignoresPositions "first" 64 3) 9).2.2.2.1
    "main" [] [] rfl
  exact ⟨hstart, hprogram, hload, hcall, by decide +kernel, by decide +kernel⟩

namespace LineReader

/-- The line that a failure names. -/
def lineOf : List Value → Value
  | [.error _ f] => .int (.ofNat (f.location.getD {}).line.toNat)
  | _ => .unit

/-- Its native functions give the line of the failure that they are handed. -/
def host : Host where
  native _ args := .done (lineOf args)

def start : Interpreter where
  setting := { host }
  machine :=
    { store := Store.fresh.define Store.global "line"
        (.builtin ⟨0, "line", .host "line", none, []⟩) }

/-- `line(try missing)` -/
def asking (line : UInt32) : Spanned Expr :=
  ⟨.call 0 ⟨.var "line", {}⟩ [⟨.attempt ⟨.var "missing", { line }⟩, {}⟩], {}⟩

def number? : Option (Except Fault Value) → Option Int64
  | some (.ok (.int n)) => some n
  | _ => none

end LineReader

open LineReader in
/-- A native function that looks at the position in a failure tells one expression at two places
apart. -/
theorem position_shows_to_native :
    forgetNode (asking 3) = forgetNode (asking 7) ∧
    ¬ SameAnswer Value.forget (start.eval 9 (asking 3)) (start.eval 9 (asking 7)) := by
  refine ⟨by simp [asking, forgetNode, Expr.forget, forgetAll], fun h => ?_⟩
  have hthree : number? ((start.eval 9 (asking 3)).1.map (forgetResult Value.forget)) = some 3 := by
    decide +kernel
  have hseven : number? ((start.eval 9 (asking 7)).1.map (forgetResult Value.forget)) = some 7 := by
    decide +kernel
  rw [h.1, hseven] at hthree
  cases hthree

end Interpreter

end TraitLang
