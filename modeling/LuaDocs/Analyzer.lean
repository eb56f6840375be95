import LuaDocs.Json.Access
import LuaDocs.Object.Merge
import LuaDocs.Text.Quoted

/-!
# Analyzers

An analyzer reads a Lua project and writes a document that describes it. The documents of several
project directories are read one after the other into one tree.
-/

namespace LuaDocs

/-- The analyzers. -/
inductive Analyzer where
  | luaLs
  | emmyLua
  deriving DecidableEq, Repr

/-- The name under which an analyzer is chosen. -/
def Analyzer.name : Analyzer → String
  | .luaLs => "luals"
  | .emmyLua => "emmylua"

/-- How the constructors of classes are recognised. -/
structure ConstructorRule where
  /-- The name of the function that makes the objects of a class. -/
  name : Option String
  /-- The function takes the object without naming it. -/
  nonColon : Bool
  /-- The function always gives the object. -/
  returnSelf : Bool
  deriving DecidableEq, Repr

/-- What is known after reading some documents. -/
structure Analysis where
  /-- Comments have lines in them that the analyzer added. -/
  cleanup : Bool
  /-- The version of the language. -/
  runtimeVersion : Option String
  rule : ConstructorRule
  requireFunction : Option String
  /-- What stands between the components of a required module. -/
  requireSeparator : Option String
  root : Object
  files : List Path

namespace Analysis

/-- Nothing has been read yet. -/
def empty (cleanup : Bool) : Analysis where
  cleanup := cleanup
  runtimeVersion := none
  rule := ⟨none, false, false⟩
  requireFunction := none
  requireSeparator := none
  root := .unknown cleanup
  files := []

/-- Nothing has been read yet from the given analyzer. -/
def start (a : Analyzer) : Analysis := empty (a == .luaLs)

/-- Why a document cannot be read. -/
inductive Error where
  /-- Something is not where it should be. -/
  | access (e : Json.AccessError)
  /-- Two definitions cannot be merged. -/
  | merge (e : Object.MergeError)
  /-- The visibility of an object is none that is known. -/
  | visibility (shown : String)
  deriving DecidableEq, Repr

/-- The text of an error, for the errors that have one. -/
def Error.message? : Error → Option String
  | .access (.missing key) => some key
  | .visibility shown => some (shown ++ " is not a valid Visibility")
  | _ => none

/-- What reading a part of a document gives. -/
abbrev Reader (α : Type) := Except Error α

/-- Looking into a document as a part of reading it. -/
def look {α : Type} (a : Json.Access α) : Reader α := a.mapError .access

/-- Merging as a part of reading a document. -/
def merging {α : Type} (r : Except Object.MergeError α) : Reader α := r.mapError .merge

/-- Adds an object to the tree. -/
def add (a : Analysis) (path : String) (o : Object) : Reader Analysis := do
  return { a with root := ← merging (a.root.insert a.cleanup path o) }

/-- Notes a file. -/
def noteFile (a : Analysis) (file : Path) : Analysis :=
  if a.files.contains file then a else { a with files := a.files ++ [file] }

/-- The parameters of a constructor: without the object, if it is taken without naming it. -/
def ConstructorRule.apply (rule : ConstructorRule) (call : Callable) : Callable :=
  if rule.nonColon then
    { call with
      implicitSelf := false
      params := match call.params with
        | p :: rest => if p.name == some "self" then rest else call.params
        | [] => [] }
  else call

/-- The class with its constructor taken out of its members, if it has one. -/
def extractConstructor (rule : ConstructorRule) (o : Object) : Object :=
  match o.form, given rule.name with
  | .class_ info, some name =>
    match o.child? name with
    | some ⟨details, .function call, _⟩ =>
      { o with
        form := .class_ { info with
          constructorName := some name
          maker := some ⟨details, ConstructorRule.apply rule call⟩ }
        children := Table.erase o.children name }
    | _ => o
  | _, _ => o

/-- The details of an object that is defined in the given file. -/
def placeIn (project file : Path) (d : Object.Details) : Object.Details :=
  { d with files := [file], commentFile := some file, foreign := !file.isBelow project }

end Analysis

end LuaDocs
