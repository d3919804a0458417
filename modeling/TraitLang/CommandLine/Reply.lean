import TraitLang.CommandLine.Arguments
import TraitLang.Interpreter
import TraitLang.Tree.OfJson
import TraitLang.Tree.ToJson

/-!
What the command line answers to a request, given the texts of the files that it reads.
-/
namespace TraitLang.CommandLine

structure Reply where
  code : UInt32 := 0
  stdout : String := ""
  stderr : String := ""
deriving DecidableEq, Repr, Inhabited

/-- Why a file could not be used. -/
inductive LoadError where
  | unreadable (path reason : String)
  | program
  | configuration
deriving DecidableEq, Repr

def LoadError.message : LoadError → String
  | unreadable path reason => "IO error reading " ++ path ++ ": " ++ reason
  | program => "malformed program: not an analyzed program"
  | configuration => "malformed configuration: not a table of limits"

/-- Gives the text of a file, or the reason why there is none. -/
abbrev Reader := String → Except String String

private def textOf (read : Reader) (path : String) : Except LoadError String :=
  (read path).mapError (.unreadable path)

/-- The limits in force; the depth on the command line counts more than the file's. -/
def limits (read : Reader) (shared : Shared) : Except LoadError Limits := do
  let base : Limits ← match shared.config with
    | none => pure {}
    | some path =>
      match Limits.parse? (← textOf read path) with
      | some l => pure l
      | none => throw .configuration
  return { base with maxCallDepth := shared.maxDepth.getD base.maxCallDepth }

/-- A program, which is named after its file if it has no name. -/
def program (read : Reader) (path : String) : Except LoadError AnalyzedProgram := do
  match AnalyzedProgram.parse? (← textOf read path) with
  | none => throw .program
  | some p =>
    if p.program.file.isEmpty then
      return { p with program := { p.program with file := path } }
    else return p

/-- Loads a program and calls one of its functions. -/
def runProgram (l : Limits) (p : AnalyzedProgram) (entry : String) : Reply :=
  let fuel := Interpreter.ample
  let (loaded, i) := (Interpreter.create l {}).load fuel p
  let (outcome, i) := match loaded with
    | some (.ok ()) => i.call fuel entry []
    | some (.error f) => (some (.error f), i)
    | none => (none, i)
  let printed := i.takeOutput.1
  match outcome with
  | some (.ok .unit) => { stdout := printed }
  | some (.ok v) => { stdout := printed ++ v.text ++ "\n" }
  | some (.error f) => { code := 1, stdout := printed, stderr := f.render p.program.file }
  | none => { code := 1, stdout := printed }

private def answer (read : Reader) (r : Request) : Except LoadError Reply :=
  match r.command with
  | .run file entry => do
    let l ← limits read r.shared
    return runProgram l (← program read file) entry
  | .dump file => do return { stdout := (← program read file).toJson.pretty 0 ++ "\n" }

def usage : String :=
  "\n".intercalate
    ["Usage: dicta [OPTIONS] <COMMAND>", "",
      "Commands:",
      "  run <FILE> [--entry <ENTRY>]  Load an analyzed program and call its entry function",
      "  dump <FILE>                   Load an analyzed program and print it back (debug)",
      "  help                          Print this text", "",
      "Options:",
      "  -v, --verbose                 Increase log verbosity",
      "      --config <CONFIG>         Evaluator configuration (TOML with an [eval] table)",
      "      --max-depth <MAX_DEPTH>   Override the nested call limit",
      "  -h, --help                    Print this text",
      "  -V, --version                 Print version", ""]

/-- The answer to arguments. -/
def reply (read : Reader) (args : List String) : Reply :=
  match parse args with
  | .error .version => { stdout := "dicta 0.1.0\n" }
  | .error .help => { stdout := usage }
  | .error .misuse => { code := 2, stderr := usage }
  | .ok r =>
    match answer read r with
    | .ok reply => reply
    | .error e => { code := 1, stderr := "Error: " ++ e.message ++ "\n" }

/-- The files that a request may read. -/
def Request.paths (r : Request) : List String :=
  r.shared.config.toList ++
    match r.command with
    | .run file _ | .dump file => [file]

end TraitLang.CommandLine
