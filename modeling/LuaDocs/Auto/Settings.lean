import LuaDocs.Render

/-!
# Options of described members

A description of an object of the tree hands some of its options down to the descriptions of the
object's members. What the analyzer knows of a member, and the options that its documentation sets,
are added.
-/

namespace LuaDocs.Auto

/-- The description from which another one is made. -/
structure Frame where
  argument : String
  /-- Its options, without defaults. -/
  options : Options

/-- Options that are always handed down, and those that switch off their defaults. -/
def plainKeys : List String :=
  ["member-order", "module-member-order", "recursive", "no-index", "no-index-entry",
    "no-contents-entry", "inherited-members-table", "class-doc-from", "class-signature",
    "annotate-require", "require-function-name", "require-separator"]

/-- Lists that are handed down if the description is recursive. -/
def listKeys : List String :=
  ["members", "globals", "undoc-members", "private-members", "protected-members",
    "package-members", "special-members", "inherited-members", "using"]

/-- Copies an option, if it is given. -/
def copy (source : Options) (key : String) (o : Options) : Options :=
  match source.get? key with
  | some v => o.set key v
  | none => o

/-- Hands a list down: all of it if it selects everything, and if it adds to a default. -/
def copyList (source : Options) (o : Options) (key : String) : Options :=
  match source.get? key with
  | some .all => o.set key .all
  | some (.names ("+" :: rest)) =>
    copy source ("no-" ++ key) (o.set key (.names ("+" :: rest)))
  | _ => o

/-- The options that a description hands down. -/
def handDown (source : Options) : Options :=
  let o := plainKeys.foldl (fun o key => copy source ("no-" ++ key) (copy source key o)) []
  if source.has "recursive" then listKeys.foldl (copyList source) o else o

/-- Adds what the analyzer knows of an object. -/
def withDetails (d : Object.Details) (o : Options) : Options :=
  let o := match d.visibility with
    | some .private_ => o.set "private" .flag
    | some .protected_ => o.set "protected" .flag
    | some .package_ => o.set "package" .flag
    | _ => o
  let o := if d.async then o.set "async" .flag else o
  if d.deprecated then o.set "deprecated" .flag else o

/-- Adds the modules that a module uses. -/
def addUsed (used : List String) (o : Options) : Except Failure Options :=
  if used.isEmpty then .ok o
  else
    let used := used.map TypeExpr.normalize
    match o.get? "using" with
    | none => .ok (o.set "using" (.names used))
    | some (.names items) => .ok (o.set "using" (.names (items ++ used)))
    | some _ => .error .addToAll

/-- The options of the description of an object. A directive that names the object gives it all its
options but the module. -/
def memberOptions (frame : Frame) (direct : Bool) (o : Object) : Except Failure Options := do
  let options := if direct then frame.options.erase "module" else handDown frame.options
  let options := withDetails o.details options
  let options ← (o.reading.options.foldlM (Options.addSetting frame.argument) options).mapError
    (.directive .error)
  let options ← addUsed o.details.usedModules options
  if o.details.toplevel then
    let options := options.set "module" (.text "")
    return if direct then options else options.set "global" .flag
  else return options

end LuaDocs.Auto
