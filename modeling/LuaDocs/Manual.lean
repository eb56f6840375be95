import LuaDocs.Node
import LuaDocs.Text.Blank

/-!
# The reference manual of Lua

References to the standard library lead to the reference manual on the web, in the edition for the
version of the language that the project uses.
-/

namespace LuaDocs.Manual

open Text

/-- Versions of the language, and the names that their manuals explain. -/
def groups : List (List String × String) :=
  [(["jit", "5.1", "5.2", "5.3", "5.4"],
      "_G _VERSION assert collectgarbage coroutine.create coroutine.resume " ++
      "coroutine.running coroutine.status coroutine.wrap coroutine.yield coroutine " ++
      "debug.debug debug.gethook debug.getinfo debug.getlocal debug.getmetatable " ++
      "debug.getregistry debug.getupvalue debug.sethook debug.setlocal " ++
      "debug.setmetatable debug.setupvalue debug.traceback debug dofile error " ++
      "file.close file.flush file.lines file.read file.seek file.setvbuf file.write " ++
      "getmetatable io.close io.flush io.input io.lines io.open io.output io.popen " ++
      "io.read io.stderr io.stdin io.stdout io.tmpfile io.type io.write io ipairs load " ++
      "loadfile math.abs math.acos math.asin math.atan math.ceil math.cos math.deg " ++
      "math.exp math.floor math.fmod math.huge math.log math.max math.min math.modf " ++
      "math.pi math.rad math.random math.randomseed math.sin math.sqrt math.tan math " ++
      "next os.clock os.date os.difftime os.execute os.exit os.getenv os.remove " ++
      "os.rename os.setlocale os.time os.tmpname os package.cpath package.loaded " ++
      "package.loadlib package.path package.preload package pairs pcall print rawequal " ++
      "rawget rawset require select setmetatable string.byte string.char string.dump " ++
      "string.find string.format string.gmatch string.gsub string.len string.lower " ++
      "string.match string.rep string.reverse string.sub string.upper table.concat " ++
      "table.insert table.remove table.sort tonumber tostring type xpcall"),
    (["5.3", "5.4"],
      "math.maxinteger math.mininteger math.tointeger math.type math.ult metamethods " ++
      "std.metatable.__add std.metatable.__band std.metatable.__bnot " ++
      "std.metatable.__bor std.metatable.__bxor std.metatable.__call " ++
      "std.metatable.__concat std.metatable.__div std.metatable.__eq std.metatable.__gc " ++
      "std.metatable.__idiv std.metatable.__index std.metatable.__le " ++
      "std.metatable.__len std.metatable.__lt std.metatable.__metatable " ++
      "std.metatable.__mod std.metatable.__mode std.metatable.__mul " ++
      "std.metatable.__name std.metatable.__newindex std.metatable.__pairs " ++
      "std.metatable.__pow std.metatable.__shl std.metatable.__shr std.metatable.__sub " ++
      "std.metatable.__tostring std.metatable.__unm string.pack string.packsize " ++
      "string.unpack utf8.char utf8.charpattern utf8.codepoint utf8.codes utf8.len " ++
      "utf8.offset utf8"),
    (["5.2"],
      "bit32.arshift bit32.band bit32.bnot bit32.bor bit32.btest bit32.bxor " ++
      "bit32.extract bit32.lrotate bit32.lshift bit32.replace bit32.rrotate " ++
      "bit32.rshift bit32"),
    (["5.1"],
      "debug.getfenv debug.setfenv getfenv loadstring math.log10 module package.loaders " ++
      "package.seeall setfenv table.maxn unpack"),
    (["jit", "5.2", "5.3", "5.4"],
      "debug.getuservalue debug.setuservalue debug.upvalueid debug.upvaluejoin " ++
      "package.searchers package.searchpath table.pack table.unpack"),
    (["jit", "5.1", "5.2"],
      "math.atan2 math.cosh math.frexp math.ldexp math.pow math.sinh math.tanh"),
    (["5.2", "5.3", "5.4"],
      "package.config rawlen std.metatable std.type"),
    (["5.4"],
      "coroutine.close std.metatable.__close warn"),
    (["jit", "5.3", "5.4"],
      "coroutine.isyieldable table.move")]

/-- The names that the manuals explain, with the versions of the language that have them. -/
def entries : List (String × List String) :=
  groups.flatMap fun g => (words g.2.toList).map fun name => (String.ofList name, g.1)

/-- The names that are explained by a chapter. -/
def chapters : List (String × String) :=
  [("bit32", "6.7"), ("coroutine", "6.2"), ("debug", "6.10"), ("io", "6.8"), ("math", "6.7"),
    ("os", "6.9"), ("package", "6.3"), ("std.metatable", "2.4"), ("utf8", "6.5")]

/-- The name under which an event of metatables is listed: it can be given without the name of the
library. -/
def canonical (name : String) : String :=
  if name.startsWith "metatable.__" then "std." ++ name
  else if name.startsWith "__" then "std.metatable." ++ name
  else name

/-- Drops the text `start` from the beginning of a name. -/
def dropStart? (start name : String) : Option String :=
  if name.startsWith start then some (String.ofList (name.toList.drop start.length)) else none

/-- The anchor of the explanation of a name. Methods of files have a colon in their anchors. -/
def anchor (name : String) : String :=
  match chapters.find? fun c => c.1 == name with
  | some c => c.2
  | none =>
    match dropStart? "file." name with
    | some method => "pdf-file:" ++ method
    | none =>
      match dropStart? "std.metatable." name with
      | some event => "pdf-" ++ event
      | none => "pdf-" ++ (dropStart? "std." name).getD name

/-- The least of some versions in the order of their names. -/
def least (versions : List String) (default : String) : String :=
  versions.foldl (fun m v => if v < m then v else m) (versions.head?.getD default)

/-- The address of the explanation of a name for a version of the language; the manual for the
earliest version that has the name stands in for the just-in-time compiler. -/
def uri? (version name : String) : Option String :=
  let name := canonical name
  match entries.find? fun e => e.1 == name with
  | some (_, versions) =>
    if versions.contains version then
      let edition := if version == "jit" then least versions version else version
      some ("https://www.lua.org/manual/" ++ edition ++ "/manual.html#" ++ anchor name)
    else none
  | none => none

/-- A reference to the manual that shows `content`, for references of this domain and for those
that may belong to any. -/
def resolve (luaVersion : Option String) (domain role target : String) (content : Node) :
    Option Node :=
  if domain == "lua" || role == "any" then
    let version := (luaVersion.filter fun s => !s.isEmpty).getD "5.4"
    (uri? version target).map fun uri => .element (.reference (.uri uri) none) [content]
  else none

end LuaDocs.Manual
