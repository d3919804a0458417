import TraitLang.Apply

/-!
An interpreter: a setting and a machine, with the operations that an embedding program has on them.
Each takes the fuel of its run; `ample` is more than a run can use up.
-/
namespace TraitLang

structure Interpreter where
  setting : Setting
  machine : Machine

namespace Interpreter

/-- Fuel for a run without a bound of its own. -/
def ample : Nat := Nat.pow 2 62

/-- Runs a computation. One that is cut short has no result, and nothing has happened. -/
def exec {α : Type} (i : Interpreter) (x : Run α) : Option (Except Fault α) × Interpreter :=
  match x i.setting i.machine with
  | .done a m => (some (.ok a), { i with machine := m })
  | .failed f m => (some (.error f), { i with machine := m })
  | .halted _ => (none, i)

theorem setting_exec {α : Type} (i : Interpreter) (x : Run α) :
    (i.exec x).2.setting = i.setting := by
  unfold exec
  cases x i.setting i.machine <;> rfl

def update (i : Interpreter) (x : Run Unit) : Interpreter := (i.exec x).2

def newBuiltin (name : String) (native : Native) (signature : Option Ty) (defaults : List Value) :
    Run Value := do
  return .builtin { id := ← Run.fresh, name, native, signature, defaults }

def addTraitDefault (traitName method : String) (v : Value) : Run Unit :=
  Run.register (.traitDefault traitName method v)

def addBuiltin (name : String) (native : Native) (signature : Option Ty) (defaults : List Value) :
    Run Unit := do
  Run.define Store.global name (← newBuiltin name native signature defaults)

def addCoreDefault (traitName method : String) (native : CoreNative) (signature : Ty) :
    Run Unit := do
  addTraitDefault traitName method
    (← newBuiltin (traitName ++ "." ++ method) (.core native) (some signature) [])

/-- Registers the builtins that every interpreter starts with. -/
def registerCore : Run Unit := do
  CoreNative.globals.forM fun (name, native, signature, defaults) =>
    addBuiltin name (.core native) signature defaults
  CoreNative.traitDefaults.forM fun (traitName, method, native, signature) =>
    addCoreDefault traitName method native signature

def create (limits : Limits) (host : Host) : Interpreter :=
  update { setting := { limits, host }, machine := {} } registerCore

def load (i : Interpreter) (fuel : Nat) (p : AnalyzedProgram) :
    Option (Except Fault Unit) × Interpreter :=
  i.exec (Run.loading (TraitLang.apply fuel) p)

def apply (i : Interpreter) (fuel : Nat) (callee : Value) (args : List Value) (site : CallSite) :
    Option (Except Fault Value) × Interpreter :=
  i.exec (TraitLang.apply fuel callee args site)

def call (i : Interpreter) (fuel : Nat) (name : String) (args : List Value) :
    Option (Except Fault Value) × Interpreter :=
  i.exec (Run.callGlobal (TraitLang.apply fuel) name args)

def run (i : Interpreter) (fuel : Nat) : Option (Except Fault Value) × Interpreter :=
  i.call fuel "main" []

def eval (i : Interpreter) (fuel : Nat) (e : Spanned Expr) :
    Option (Except Fault Value) × Interpreter :=
  i.exec (evalValue (TraitLang.apply fuel) {} Store.global e)

def resolve (i : Interpreter) (m : ClassMethod) (args : List Value) (site : CallSite) :
    Option (Except Fault Resolution) × Interpreter :=
  i.exec (Run.resolve m args site)

def global? (i : Interpreter) (name : String) : Option Value :=
  i.machine.store.get? Store.global name

def globalNames (i : Interpreter) : List String := i.machine.store.localNames Store.global

def defineGlobal (i : Interpreter) (name : String) (v : Value) : Interpreter :=
  i.update (Run.define Store.global name v)

/-- Adds a method to an instance from outside a program. -/
def addInstanceMethod (i : Interpreter) (traitName : String) (types : List Ty) (method : String)
    (v : Value) : Interpreter :=
  i.update (Run.register (.instanceMethod traitName types method v))

/-- What has been printed, which is then forgotten. -/
def takeOutput (i : Interpreter) : String × Interpreter :=
  (i.machine.output, i.update (Run.modify fun m => { m with output := "" }))

end Interpreter

end TraitLang
