import TraitLang.CommandLine.Reply

/-! The command line. -/
namespace TraitLang.CommandLine

/-- The text of a file, or what the operating system has against it. -/
def readText (path : String) : IO (Except String String) := do
  try
    return .ok (← IO.FS.readFile path)
  catch
    | .noFileOrDirectory _ code details | .inappropriateType _ code details
    | .permissionDenied _ code details => return .error s!"{details} (os error {code})"
    | e => return .error (toString e)

end TraitLang.CommandLine

open TraitLang.CommandLine in
def main (args : List String) : IO UInt32 := do
  let paths := match parse args with
    | .ok r => r.paths
    | .error _ => []
  let texts ← paths.mapM fun path => do return (path, ← readText path)
  let read (path : String) : Except String String :=
    (texts.lookup path).getD (.error "No such file or directory (os error 2)")
  let r := reply read args
  IO.print r.stdout
  IO.eprint r.stderr
  return r.code
