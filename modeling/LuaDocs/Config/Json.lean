import LuaDocs.Config
import LuaDocs.Options.Json

/-!
# Configurations as JSON

Paths are written as texts, and sets of names as sets are written in options.
-/

namespace LuaDocs

open Json

/-- A path as JSON. -/
def Path.toJson (p : Path) : Json := .str p.toString

namespace Config

/-- A set of names as JSON. -/
def namesToJson (names : List String) : Json := (OptionValue.nameSet names).toJson

/-- A count as JSON. -/
def Count.toJson : Count → Json
  | .number n => .int n
  | .truth b => .bool b

/-- A text that may be missing. -/
def textToJson (s : Option String) : Json := orNull .str s

/-- A module for which pages are generated, as JSON. -/
def ApiRoot.toJson (r : ApiRoot) : Json :=
  .obj [("path", r.path.toJson), ("options", r.options.toJson),
    ("max_depth", r.maxDepth.toJson), ("ignored_modules", namesToJson r.ignored),
    ("format", .str r.format.name), ("separate_members", .bool r.separateMembers)]

/-- A configuration as JSON. -/
def toJson (c : Config) : Json :=
  .obj [("project_root", c.projectRoot.toJson), ("backend", .str c.backend.name),
    ("project_directories", orNull (Json.list Path.toJson) c.projectDirectories),
    ("auto_install", .bool c.autoInstall),
    ("auto_install_location", orNull Path.toJson c.autoInstallLocation),
    ("min_version", textToJson c.minVersion), ("max_version", textToJson c.maxVersion),
    ("skip_versions", orNull strings c.skipVersions), ("lua_version", textToJson c.luaVersion),
    ("default_options", c.defaultOptions.toJson),
    ("apidoc_default_options", c.apidocDefaultOptions.toJson),
    ("apidoc_max_depth", c.apidocMaxDepth.toJson),
    ("apidoc_ignored_modules", namesToJson c.apidocIgnored),
    ("apidoc_format", .str c.apidocFormat.name),
    ("apidoc_separate_members", .bool c.apidocSeparateMembers),
    ("apidoc_roots", .obj (c.apidocRoots.map fun (k, r) => (k, r.toJson))),
    ("class_default_function_name", textToJson c.rule.name),
    ("class_default_force_non_colon", .bool c.rule.nonColon),
    ("class_default_force_return_self", .bool c.rule.returnSelf),
    ("maximum_signature_line_length", orNull Count.toJson c.maxLineLength),
    ("verbose", .bool c.verbose)]

end Config

end LuaDocs
