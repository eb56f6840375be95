import LuaDocs.Render

/-!
# Modules in documents

A directive starts the description of a module: what follows it in the document belongs to the
module. Another one only sets the module in whose scope names are looked up.
-/

namespace LuaDocs.ModuleDirective

/-- Why the argument of the directive is no name of a module. -/
def unexpectedSymbols : String := "unexpected symbols after module name"

/-- The name of a module in the argument of the directive `directive`, which must not stand in a
class. -/
def readArgument (directive : String) (argument : Option String) : Render String := do
  if (Context.nonEmpty (← Render.context).className.get?).isSome then
    Render.severe ("lua:" ++ directive ++ " only available on top level")
  let sig ← Render.orFail .noArgument argument
  match Signature.readName sig with
  | .error e => Render.error e.message
  | .ok (name, rest) => if rest.isEmpty then return name else Render.error unexpectedSymbols

/-- Sets the current module, or none. -/
def setModule (name : Option String) : Render Unit := do
  let c ← Render.context
  let current : Slot String := match name with
    | some n => .value n
    | none => .absent
  Render.setContext { c with moduleName := { c.moduleName with current } }

/-- Starts the description of a module and enters it into the index tables. -/
def start (argument : Option String) (options : Options) : Render (List Node) := do
  let name ← readArgument "module" argument
  setModule (some name)
  if options.has "no-index" then return []
  let id ← Render.enter name .module_ options none .member
  return [.element (.target [id] true) [], .element (.index [(name ++ " (module)", id)]) []]

/-- Sets the current module; the word `None` stands for no module. -/
def setCurrent (argument : Option String) : Render (List Node) := do
  let name ← readArgument "currentmodule" argument
  setModule (if name == "None" then none else some name)
  return []

end LuaDocs.ModuleDirective
