/-!
Arguments of the command line. They are read from left to right; an option that waits for its value
takes the next argument, and two dashes end the options.
-/
namespace TraitLang.CommandLine

inductive Command where
  /-- load a program and call one of its functions -/
  | run (file entry : String)
  /-- load a program and print it back -/
  | dump (file : String)
deriving DecidableEq, Repr

/-- Options that may stand before or after the name of the command. -/
structure Shared where
  verbose : Nat := 0
  config : Option String := none
  maxDepth : Option Nat := none
deriving DecidableEq, Repr

structure Request where
  command : Command
  shared : Shared
deriving DecidableEq, Repr

/-- Why arguments make no request. -/
inductive Stop where
  | version
  | help
  | misuse
deriving DecidableEq, Repr

inductive CommandName where
  | run
  | dump
  | help
deriving DecidableEq, Repr

def CommandName.ofString? : String → Option CommandName
  | "run" => some .run
  | "dump" => some .dump
  | "help" => some .help
  | _ => none

inductive Setter where
  | config
  | maxDepth
  | entry
deriving DecidableEq, Repr

/-- What has been read so far. -/
structure Draft where
  command : Option CommandName := none
  before : Shared := {}
  after : Shared := {}
  file : Option String := none
  entry : Option String := none
  waiting : Option Setter := none
  /-- the options have ended -/
  literal : Bool := false

namespace Draft

/-- Changes the options on the side of the command's name that is being read. -/
def share (d : Draft) (f : Shared → Except Stop Shared) : Except Stop Draft :=
  match d.command with
  | none => do return { d with before := ← f d.before }
  | some _ => do return { d with after := ← f d.after }

/-- A count of 64 bits, possibly with a plus sign. -/
def count? (text : String) : Option Nat :=
  let digits := match text.toList with
    | '+' :: ds => ds
    | ds => ds
  if digits.isEmpty || !digits.all Char.isDigit then none
  else
    let n := digits.foldl (fun n c => n * 10 + (c.toNat - '0'.toNat)) 0
    if n < UInt64.size then some n else none

/-- Gives an option its value, which it may have only once. -/
def assign (d : Draft) (option : Setter) (value : String) : Except Stop Draft :=
  let d := { d with waiting := none }
  match option with
  | .config =>
    d.share fun s =>
      if s.config.isSome || value.isEmpty then .error .misuse
      else .ok { s with config := some value }
  | .maxDepth =>
    d.share fun s =>
      match s.maxDepth, count? value with
      | none, some n => .ok { s with maxDepth := some n }
      | _, _ => .error .misuse
  | .entry =>
    if d.entry.isSome then .error .misuse else .ok { d with entry := some value }

def positional (d : Draft) (arg : String) : Except Stop Draft :=
  match d.command with
  | none => .error .misuse
  | some .help =>
    if d.file.isNone && (CommandName.ofString? arg).isSome then .ok { d with file := some arg }
    else .error .misuse
  | some _ =>
    if d.file.isSome || arg.isEmpty then .error .misuse else .ok { d with file := some arg }

def flag (d : Draft) (name : String) : Except Stop Draft :=
  match name, d.command with
  | "v", _ | "verbose", _ => d.share fun s => .ok { s with verbose := s.verbose + 1 }
  | "h", _ | "help", _ => .error .help
  | "V", none | "version", none => .error .version
  | _, _ => .error .misuse

def setter? (d : Draft) : String → Option Setter
  | "config" => some .config
  | "max-depth" => some .maxDepth
  | "entry" => if d.command = some .run then some .entry else none
  | _ => none

/-- An option with a name of several letters, possibly with its value after an equals sign. -/
def long (d : Draft) (text : List Char) : Except Stop Draft :=
  let name := String.ofList (text.takeWhile (· ≠ '='))
  match d.setter? name, text.dropWhile (· ≠ '=') with
  | some option, _ :: value => d.assign option (String.ofList value)
  | some option, [] => .ok { d with waiting := some option }
  | none, [] => if name.length = 1 then .error .misuse else d.flag name
  | none, _ => .error .misuse

def step (d : Draft) (arg : String) : Except Stop Draft :=
  if d.literal || d.command = some .help then d.positional arg
  else
    match d.waiting, d.command, CommandName.ofString? arg with
    | none, none, some name => .ok { d with command := some name }
    | waiting, _, _ =>
      match arg.toList, waiting with
      | '-' :: _ :: _, some _ => .error .misuse
      | ['-', '-'], none => .ok { d with literal := true }
      | '-' :: '-' :: name, none => d.long name
      | '-' :: c :: more, none => (c :: more).foldlM (fun d c => d.flag c.toString) d
      | _, some option => d.assign option arg
      | _, none => d.positional arg

def finish (d : Draft) : Except Stop Request :=
  let shared : Shared :=
    { verbose := if d.after.verbose = 0 then d.before.verbose else d.after.verbose
      config := d.after.config <|> d.before.config
      maxDepth := d.after.maxDepth <|> d.before.maxDepth }
  match d.waiting, d.command, d.file with
  | none, some .help, _ => .error .help
  | none, some .run, some file => .ok ⟨.run file (d.entry.getD "main"), shared⟩
  | none, some .dump, some file => .ok ⟨.dump file, shared⟩
  | _, _, _ => .error .misuse

end Draft

def parse (args : List String) : Except Stop Request := do
  (← args.foldlM Draft.step {}).finish

end TraitLang.CommandLine
