import LuaDocs.Object.Find
import LuaDocs.Options

/-!
# Selecting members

The options of a description say which members of an object are described and in which order.

A member that is named in one of the lists is described in any case, and a member that is excluded
in none. Any other member has to be admitted for each thing that is special about it: that it has
no documentation, that it is private, that it is inherited, and so on; a member about which nothing
is special is described if `members` is set.

## Main definitions

* `Member`: a member with its path in the tree.
* `Members.candidates`: the children of an object, and the globals of a module.
* `Members.Order`, `Members.sort`: the orders.
* `Members.selected`: whether a member is described.
* `Members.list`: the members that are described, in order.
-/

namespace LuaDocs

/-- A member of an object. -/
structure Member where
  name : String
  path : List String
  object : Object

namespace Members

/-- The option names the member, or asks for everything. -/
def covers (v : OptionValue) (name : String) : Bool :=
  match v with
  | .all => true
  | .text s => Text.occurs name.toList s.toList
  | v => v.items.contains name

/-- A global of the project that belongs to a module: it is no module and is defined in a file of
the module. -/
def isGlobalOf (o g : Object) : Bool :=
  !g.details.foreign && g.kind? != some .module_ &&
    o.details.files.any fun f => g.details.files.contains f

/-- The globals that are described with a module. -/
def globals (root : Object) (o : Object) (options : Options) : List Member :=
  match options.get? "globals" with
  | some v =>
    if v.isTrue && o.kind? == some .module_ then
      (root.children.filter fun c => covers v c.1 && isGlobalOf o c.2).map fun c =>
        ⟨c.1, [c.1], c.2⟩
    else []
  | none => []

/-- The children of the object at the path `path`. -/
def children (path : List String) (o : Object) : List Member :=
  o.children.map fun c => ⟨c.1, path ++ [c.1], c.2⟩

/-- The orders in which members are listed. -/
inductive Order where
  /-- By name, without regard to case. -/
  | alphabetical
  /-- Globals first, then by kind, then by name. -/
  | groupwise
  /-- By file, then by line, then by name. -/
  | bySource
  deriving DecidableEq, Repr

/-- The order of the given name. -/
def Order.ofName? (name : String) : Option Order :=
  match name with
  | "alphabetical" => some .alphabetical
  | "groupwise" => some .groupwise
  | "bysource" => some .bySource
  | _ => none

/-- The name of the order that the options ask for; modules may have an order of their own. -/
def orderName (o : Object) (options : Options) : String :=
  let given (key : String) : Option String :=
    ((options.get? key).filter OptionValue.isTrue).map OptionValue.shown
  let member := (given "member-order").getD "bysource"
  if o.kind? == some .module_ then (given "module-member-order").getD member else member

/-- The file of a member when members are listed by source. -/
def fileKey (ignoreFiles : Bool) (m : Member) : String :=
  if ignoreFiles then ""
  else match m.object.details.commentFile with
    | some f => f.toString
    | none => "~"

/-- The line of a member when members are listed by source; lines that are not known, and the first
line of a file, come last. -/
def lineKey (m : Member) : Option Int := m.object.details.line.filter fun n => n != 0

/-- The line `a` does not come after the line `b`. -/
def lineLe : Option Int → Option Int → Bool
  | _, none => true
  | none, some _ => false
  | some m, some n => decide (m ≤ n)

/-- The place of the kind of a member; what has no kind counts as a variable. -/
def kindKey (m : Member) : Nat := (m.object.kind?.getD .data).order

/-- The member `a` does not come after the member `b`. -/
def Order.le (order : Order) (ignoreFiles : Bool) (a b : Member) : Bool :=
  match order with
  | .alphabetical => decide (Text.lower a.name ≤ Text.lower b.name)
  | .groupwise =>
    if a.object.details.toplevel != b.object.details.toplevel then a.object.details.toplevel
    else if kindKey a != kindKey b then decide (kindKey a < kindKey b)
    else decide (a.name ≤ b.name)
  | .bySource =>
    if fileKey ignoreFiles a != fileKey ignoreFiles b then
      decide (fileKey ignoreFiles a < fileKey ignoreFiles b)
    else if lineKey a != lineKey b then lineLe (lineKey a) (lineKey b)
    else decide (a.name ≤ b.name)

/-- The members in order; members that are equal in it keep theirs. -/
def sort (order : Order) (ignoreFiles : Bool) (ms : List Member) : List Member :=
  ms.mergeSort (order.le ignoreFiles)

/-- The names that the class at the path `path` inherits. -/
def inheritedNames (root : Object) (path : Option (List String)) : List String :=
  match path with
  | none => []
  | some p =>
    match root.at? p with
    | some ⟨d, .class_ info, cs⟩ =>
      if (Object.mk d (.class_ info) cs).kind? == some .class_ then
        (root.bases p).flatMap fun b => b.2.children.map Prod.fst
      else []
    | _ => []

/-- What can be special about a member. -/
inductive Trait where
  | undocumented | private_ | protected_ | package_ | special | inherited
  deriving DecidableEq, Repr

/-- The option that admits members with something special. -/
def Trait.option : Trait → String
  | .undocumented => "undoc-members"
  | .private_ => "private-members"
  | .protected_ => "protected-members"
  | .package_ => "package-members"
  | .special => "special-members"
  | .inherited => "inherited-members"

/-- All that can be special about a member. -/
def Trait.list : List Trait :=
  [.undocumented, .private_, .protected_, .package_, .special, .inherited]

/-- The visibility of an object, or an option of its documentation, restricts its use. -/
def restricted (o : Object) (v : Visibility) : Bool :=
  o.details.visibility == some v || o.reading.options.has v.name

/-- The trait is there in the member, where `inherited` are the names that are inherited. -/
def Trait.holds (t : Trait) (inherited : List String) (m : Member) : Bool :=
  match t with
  | .undocumented =>
    match m.object.reading.text with
    | some s => s.isEmpty
    | none => true
  | .private_ => restricted m.object .private_
  | .protected_ => restricted m.object .protected_
  | .package_ => restricted m.object .package_
  | .special => m.name.startsWith "__"
  | .inherited => inherited.contains m.name

/-- The option admits all members that it is about. -/
def admits (options : Options) (key : String) : Bool := options.get? key == some .all

/-- The options whose lists name members. -/
def listOptions : List String := "members" :: Trait.list.map Trait.option

/-- The member is named in a list. -/
def isNamed (options : Options) (name : String) : Bool :=
  listOptions.any fun key =>
    match options.get? key with
    | some v => v.items.contains name
    | none => false

/-- The member is excluded. -/
def isExcluded (options : Options) (name : String) : Bool :=
  match options.get? "exclude-members" with
  | some .all | none => false
  | some v => covers v name

/-- The option that excludes members can be asked for names. -/
def canExclude (options : Options) : Bool :=
  match options.get? "exclude-members" with
  | some .flag | some .off => false
  | _ => true

/-- The member is described. -/
def selected (options : Options) (inherited : List String) (m : Member) : Bool :=
  !isExcluded options m.name &&
  (isNamed options m.name || m.object.details.toplevel ||
    let traits := Trait.list.filter fun t => t.holds inherited m
    if traits.isEmpty then admits options "members"
    else traits.all fun t => admits options t.option)

/-- Why members cannot be listed. -/
inductive Error where
  /-- There is no order of the name. -/
  | order (name : String)
  /-- The option that excludes members has no names. -/
  | exclusions
  deriving DecidableEq, Repr

/-- The text of an error, if it has one. -/
def Error.message? : Error → Option String
  | .order name => some ("unknown member order " ++ name)
  | .exclusions => none

/-- The members of the object `o` at the path `path` that are described, in order. The class whose
inherited names count is at the path `parent`; `ignoreFiles` leaves files out of the order by
source, and `withGlobals` lists globals as well. -/
def list (root : Object) (ignoreFiles : Bool) (path : List String) (o : Object)
    (parent : Option (List String)) (options : Options) (withGlobals : Bool) :
    Except Error (List Member) :=
  let all := children path o ++ if withGlobals then globals root o options else []
  match Order.ofName? (orderName o options) with
  | none => .error (.order (orderName o options))
  | some order =>
    let inherited := inheritedNames root parent
    if !all.isEmpty && !canExclude options then .error .exclusions
    else .ok ((sort order ignoreFiles all).filter (selected options inherited))

end Members

end LuaDocs
