import TraitLang.Eval

/-!
Loading: the declarations of a program, then its constants in order. Other things that an embedding
program adds to an interpreter are registered one by one.
-/
namespace TraitLang.Run

/-- What an item declares; constants come later. -/
def declare : Item → Run Unit
  | .func f => do
    define Store.global f.name (.function (← fresh) { func := f, scope := Store.global })
  | .data d =>
    d.constructors.forM fun c =>
      if c.arity = 0 then define Store.global c.name (.data d.name c.name [])
      else do
        define Store.global c.name (.constructor (← fresh) d.name c.name c.arity)
  | .traitDecl t => do
    modify fun m => { m with registry := m.registry.declare t }
    t.methods.forM fun method => do
      define Store.global method.name
        (.method (← fresh)
          { traitName := t.name, method := method.name, arity := method.arity
            dispatch := method.dispatch })
  | .inst d => do
    let key := TypeKey.ofTypes d.types
    modify fun m => { m with registry := m.registry.addInstance d.traitName key }
    d.methods.forM fun f => do
      let v := Value.function (← fresh)
        { func := f, scope := Store.global, owner := some d.traitName }
      modify fun m => { m with registry := m.registry.addMethod d.traitName key f.name v }
  | .const _ => pure ()

/-- The value of a constant, bound in the global scope. -/
def defineConst (apply : Apply) : Item → Run Unit
  | .const c => do
    define Store.global c.name (← evalValue apply { annotation := c.ty } Store.global c.value)
  | _ => pure ()

/-- What the analyser knows is taken over before anything is declared. -/
def loading (apply : Apply) (p : AnalyzedProgram) : Run Unit := do
  modify fun m =>
    { m with
      file := if p.program.file.isEmpty then m.file else p.program.file
      hints := p.hints
      registry := m.registry.absorb p.hints }
  p.program.items.forM declare
  p.program.items.forM (defineConst apply)

def register : Registration → Run Unit
  | .traitDefault traitName method v =>
    modify fun m => { m with registry := m.registry.addBuiltinDefault traitName method v }
  | .instanceMethod traitName types method v =>
    modify fun m => { m with registry := m.registry.addMethod traitName (.ofTypes types) method v }
  | .bridge name => modify fun m => { m with bridge := some name }
  | .fallback name => modify fun m => { m with fallback := some name }

end TraitLang.Run
