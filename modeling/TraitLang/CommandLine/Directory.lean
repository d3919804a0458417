/-!
A directory of text files, with the answers of an operating system to attempts at reading them.
-/
namespace TraitLang.CommandLine

/-- Names and contents; of two files with one name the later counts. -/
structure Directory where
  files : List (String × String)

namespace Directory

/-- The names that a path goes through, the current directory left out. -/
def steps (path : String) : List String :=
  (path.splitOn "/").filter fun s => s ≠ "" ∧ s ≠ "."

private def missing : Except String String := .error "No such file or directory (os error 2)"
private def notDirectory : Except String String := .error "Not a directory (os error 20)"
private def isDirectory : Except String String := .error "Is a directory (os error 21)"
private def tooLong : Except String String := .error "File name too long (os error 36)"

/-- The text of a file. Nothing is known of what lies outside the directory, except that it lies
in directories. -/
def read (d : Directory) (path : String) : Except String String :=
  let names := steps path
  let outside := path.startsWith "/" || names.contains ".."
  let file (names : List String) : Option String :=
    d.files.reverse.findSome? fun (name, text) => if steps name = names then some text else none
  let beyond := (List.range names.length).any fun n => (file (names.take n)).isSome
  if path.isEmpty then missing
  else if names.all (· = "..") then isDirectory
  else if outside then missing
  else if beyond then notDirectory
  else
    match file names with
    | some text =>
      if path.endsWith "/" || path.endsWith "/." then notDirectory else .ok text
    | none =>
      if d.files.any fun (name, _) => names.isPrefixOf (steps name) then isDirectory
      else if names.any fun s => 255 < s.utf8ByteSize then tooLong
      else missing

end Directory

end TraitLang.CommandLine
