import LuaDocs.Heading
import LuaDocs.Object.Find

/-!
# Signatures of analyzed objects

The signatures of an object of the tree are not written in a document but made from what the
analyzer reported. Further signatures of functions are reported as text and have to be read.
-/

namespace LuaDocs.Auto

/-- A signature: its text, and the name and subject that is read in it. -/
abbrev MadeSignature := String × Except Signature.Error (String × Subject)

/-- A parameter in a signature. -/
def typedName (p : Param) : TypedName := ⟨p.name.getD "", p.type.getD ""⟩

/-- What a function takes and gives. -/
def callOf (c : Callable) : Signature.Call :=
  ⟨c.generics.map typedName, c.params.map typedName, c.returns.map typedName⟩

/-- A signature that was reported as text. -/
def readOverload (name sig : String) (subject : Signature.Call → Subject) :
    Except Signature.Error (String × Subject) :=
  (Signature.readFunction sig).map fun r => (name, subject r.2)

/-- The signatures of a function. -/
def functionSignatures (name : String) (c : Callable) : List MadeSignature :=
  (name :: c.overloads).map fun sig =>
    (sig, if sig == name then .ok (name, .function (callOf c)) else readOverload name sig .function)

/-- The signature of a variable. -/
def dataSignatures (name : String) (form : Object.Form) : List MadeSignature :=
  let type := match form with
    | .data type _ => type.getD ""
    | _ => ""
  [(name, .ok (name, .data type))]

/-- The signature of a table. -/
def tableSignatures (name : String) : List MadeSignature := [(name, .ok (name, .table))]

/-- What is shown for the meaning of an alias that is not known exactly. -/
def vagueMeaning : String := "__alias_base_type"

/-- The signature of an alias or an enumeration. -/
def aliasSignatures (vague : Bool) (name : String) (form : Object.Form) : List MadeSignature :=
  let meaning : Signature.AliasOf := match form with
    | .alias_ type generics =>
      if vague then ⟨[], vagueMeaning⟩ else ⟨generics.map typedName, type.getD ""⟩
    | .enum _ generics => ⟨generics.map typedName, ""⟩
    | _ => ⟨[], ""⟩
  [(name, .ok (name, .alias_ meaning))]

/-- The constructor of the class at a path: its own, or that of the first base that has one. -/
def maker? (tree : Object) (path : List String) (info : Object.ClassInfo) :
    Option Object.Constructor :=
  match info.maker with
  | some c => some c
  | none => (tree.bases path).findSome? fun b => match b.2.form with
    | .class_ info => info.maker
    | _ => none

/-- The signature that shows the bases of a class. -/
def basesSignature (name : String) (info : Object.ClassInfo) (shown : Bool) : MadeSignature :=
  (name, .ok (name, .class_ (.bases (info.generics.map typedName)
    (if shown then info.bases else []))))

/-- The signatures that show the constructor of a class. -/
def constructorSignatures (name : String) (maker : Option Object.Constructor) :
    List MadeSignature :=
  match maker with
  | none => [("", .ok (name, .class_ (.constructor ⟨[], [], []⟩)))]
  | some c =>
    ("", .ok (name, .class_ (.constructor (callOf c.call)))) ::
      c.call.overloads.mapIdx fun i sig =>
        (toString i, readOverload name sig fun call => .class_ (.constructor call))

/-- The signatures of a class. Options say whether they show its bases, its constructor or both; a
constructor that is described separately is not shown. -/
def classSignatures (options : Options) (name : String) (info : Object.ClassInfo)
    (maker : Option Object.Constructor) : List MadeSignature :=
  let shown := (options.text? "class-signature").getD "both"
  if options.text? "class-doc-from" == some "separate" then
    [basesSignature name info (shown != "ctor")]
  else
    let withBases := shown == "both" || shown == "bases" ||
      (shown == "minimal" && (!info.bases.isEmpty || maker.isNone))
    let withMaker := shown == "ctor" || ((shown == "minimal" || shown == "both") && maker.isSome)
    (if withBases then [basesSignature name info true] else []) ++
      (if withMaker then constructorSignatures name maker else [])

end LuaDocs.Auto
