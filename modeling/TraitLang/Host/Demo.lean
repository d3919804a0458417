import TraitLang.Interpreter

/-!
A small embedding program: native functions, members of foreign values and a meaning for integers
in the place of a function. It reaches the interpreter only as any host does.
-/
namespace TraitLang.Host.Demo

private def difference : List Value → Action
  | [.int a, .int b] => .done (.int (a - b))
  | [_, _] => .error (.typeError "Int" "other")
  | args => .error (.arityMismatch "sub" 2 args.length)

private def clamp : List Value → Action
  | [.int x, .int low, .int high] => .done (.int (min (max x low) high))
  | _ => .error (.typeError "Int" "other")

private def depths : Action :=
  .depths fun calls witnesses types =>
    .done (.tuple [.int (.ofNat calls), .int (.ofNat witnesses), .int (.ofNat types)])

private def traitOf : List Value → Action
  | .dictionary d :: _ => .done (.str d.traitName)
  | v :: _ => .error (.expectedDictionary v.typeName)
  | [] => .error (.expectedDictionary "nothing")

/-- Native functions by name. -/
def native (name : String) (args : List Value) : Action :=
  match name, args with
  | "list", _ => .done (.list args)
  | "first", _ => .done (args.headD .unit)
  | "sub", _ => difference args
  | "clamp", _ => clamp args
  | "depths", _ => depths
  | "raise", [] => .error (.user "raised")
  | "raise", v :: _ => .error (.user v.text)
  | "apply", [] => .error (.missingArguments "apply" 1)
  | "apply", callee :: rest => .apply callee rest { name := "native" } .ofResult
  | "call", [] => .error (.missingArguments "call" 1)
  | "call", callee :: rest => .call callee.text rest .ofResult
  | "want_dict", _ => traitOf args
  | _, _ => .error (.host ("no native " ++ name))

/-- Members that all foreign values have. -/
private def member? (type : String) (handle : Ident) (name : String) :
    Option (Except Fault Value) :=
  match name with
  | "refuse" => some (.error { cause := .host (type ++ " refused") })
  | "me" => some (.ok (.host type handle))
  | _ => none

def bridge : Bridge where
  callMember type handle name args :=
    (member? type handle name).getD
      (.ok (if name = "echo" then .list args
        else .str (type ++ "." ++ name ++ "/" ++ toString args.length)))
  readField type handle name :=
    (member? type handle name).getD (.ok (.str (type ++ "." ++ name)))

/-- An integer scales the sum of its integer arguments; zero is refused. -/
def fallback : Value → List Value → Option (Except Fault Value)
  | .int n, args =>
    let total := args.foldl (fun sum v => match v with | .int k => sum + k | _ => sum) 0
    some (if n = 0 then .error { cause := .user "zero factor" } else .ok (.int (n * total)))
  | _, _ => none

end TraitLang.Host.Demo
