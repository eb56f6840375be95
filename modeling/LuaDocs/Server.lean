import LuaDocs.Analyzer
import LuaDocs.Path

/-!
# The programs of the analyzers

Each analyzer is a program with a name of its own. It is found on the system, or installed from an
archive of one of its releases into a directory.
-/

namespace LuaDocs

namespace Analyzer

/-- The name of the program. -/
def program : Analyzer → String
  | .luaLs => "lua-language-server"
  | .emmyLua => "emmylua_doc_cli"

/-- The repository of the releases. -/
def repository : Analyzer → String
  | .luaLs => "LuaLs/lua-language-server"
  | .emmyLua => "EmmyLuaLs/emmylua-analyzer-rust"

/-- Where it is said how the program is installed by hand. -/
def manual : Analyzer → String
  | .luaLs => "https://lua_ls.github.io/#other-install"
  | .emmyLua =>
    "https://github.com/EmmyLuaLs/emmylua-analyzer-rust?tab=readme-ov-file#-installation"

/-- The least version, unless another one is asked for. -/
def leastVersion : Analyzer → String
  | .luaLs => "3.0.0"
  | .emmyLua => "0.11.0"

/-- The first version that is not known to work. -/
def nextVersion : Analyzer → String
  | .luaLs => "4.0.0"
  | .emmyLua => "2.0.0"

/-- Releases that are known to be broken. -/
def brokenReleases : Analyzer → List String
  | .luaLs => ["3.16.0"]
  | .emmyLua => []

/-- Where the program stands in the directory of an installation. -/
def location (a : Analyzer) (platform : String) : String :=
  (match a with
    | .luaLs => "bin/lua-language-server"
    | .emmyLua => "emmylua_doc_cli") ++
  if platform == "win32" then ".exe" else ""

/-- How the names of archives end that are meant for a platform and a machine. -/
def archiveEnding? (platform machine : String) : Option String :=
  match platform, machine with
  | "darwin", "arm" => some "-darwin-arm64.tar.gz"
  | "darwin", "x86_64" => some "-darwin-x64.tar.gz"
  | "linux", "arm" => some "-linux-arm64.tar.gz"
  | "linux", "x86_64" => some "-linux-x64.tar.gz"
  | "win32", "amd64" => some "-win32-x64.zip"
  | _, _ => none

/-- The archive of the given name holds the program for the systems of the given ending. -/
def offers (a : Analyzer) (ending name : String) : Bool :=
  ending.toList.isSuffixOf name.toList &&
    match a with
    | .luaLs => true
    | .emmyLua => a.program.toList.isPrefixOf name.toList

end Analyzer

namespace Server

/-- A program: what it prints when it is asked for its version, and the status it ends with. -/
structure Program where
  /-- What is printed. -/
  output : String
  /-- Zero if all went well. -/
  status : Int
  deriving DecidableEq, Repr

/-- Programs by their paths, which are resolved. -/
abbrev Disk := Table Program

variable [FileSystem]

/-- The program at a path. -/
def Disk.program? (d : Disk) (path : Path) : Option Program := d.get? path.resolve.toString

/-- The disk with a program at a path. -/
def Disk.place (d : Disk) (path : Path) (program : Program) : Disk :=
  d.set path.resolve.toString program

/-- The path of a file in a directory, as it is written. -/
def inDirectory (dir file : String) : String :=
  if dir.isEmpty || dir.back == '/' then dir ++ file else dir ++ "/" ++ file

/-- The first of the directories of a search path, which are divided by colons, that has a program
of the given name: the path of the program. -/
def Disk.search? (d : Disk) (searchPath name : String) : Option String :=
  if searchPath.isEmpty then none
  else ((Text.splitString ':' searchPath).map fun dir => inDirectory dir name).find? fun p =>
    (d.program? (.ofString p)).isSome

end Server

end LuaDocs
