import LuaDocs.Config
import LuaDocs.Heading

/-!
# What is announced to the documentation system

The documentation system is told which settings, directives, hooks and files there are.
-/

namespace LuaDocs

namespace Extension

/-- What must be made anew when a setting changes. -/
inductive Scope where
  | nothing
  | pages
  /-- Everything that was read. -/
  | environment
  deriving DecidableEq, Repr

/-- The name of a scope. -/
def Scope.name : Scope → String
  | .nothing => ""
  | .pages => "html"
  | .environment => "env"

/-- A setting. -/
structure Setting where
  name : String
  value : Config.Value
  /-- What must be made anew when the setting changes. -/
  scope : Scope

/-- The settings. -/
def settings : List Setting :=
  [⟨"lua_ls_backend", .none, .environment⟩,
    ⟨"lua_ls_project_root", .none, .environment⟩,
    ⟨"lua_ls_project_directories", .none, .environment⟩,
    ⟨"lua_ls_auto_install", .bool true, .nothing⟩,
    ⟨"lua_ls_auto_install_location", .none, .nothing⟩,
    ⟨"lua_ls_min_version", .none, .environment⟩,
    ⟨"lua_ls_max_version", .str "__auto__", .environment⟩,
    ⟨"lua_ls_skip_versions", .none, .environment⟩,
    ⟨"lua_ls_lua_version", .none, .pages⟩,
    ⟨"lua_ls_default_options", .none, .environment⟩,
    ⟨"lua_ls_apidoc_roots", .none, .nothing⟩,
    ⟨"lua_ls_apidoc_default_options", .none, .nothing⟩,
    ⟨"lua_ls_apidoc_max_depth", .none, .nothing⟩,
    ⟨"lua_ls_apidoc_ignored_modules", .none, .nothing⟩,
    ⟨"lua_ls_apidoc_format", .none, .nothing⟩,
    ⟨"lua_ls_apidoc_separate_members", .none, .nothing⟩,
    ⟨"lua_ls_class_default_function_name", .none, .environment⟩,
    ⟨"lua_ls_class_default_force_non_colon", .none, .environment⟩,
    ⟨"lua_ls_class_default_force_return_self", .none, .environment⟩,
    ⟨"lua_ls_maximum_signature_line_length", .int 50, .environment⟩,
    ⟨"lua_ls_verbose", .bool false, .nothing⟩]

/-- The defaults that are values. -/
def defaults : Config.Values :=
  (settings.filter fun s => s.value matches .bool _ | .int _ | .str _).map fun s =>
    (s.name, s.value)

/-- The defaults are those of the configuration. -/
theorem defaults_eq : defaults = Config.defaults := rfl

/-- The directives that show objects of the tree: one for each sort of object that can be shown,
one for an index of members, and one for inherited members. -/
def directives : List String :=
  ["autoobject", "autofunction", "autodata", "autoconst", "autoclass", "autoalias", "autoenum",
    "automethod", "autoclassmethod", "autostaticmethod", "autoattribute", "autotable",
    "automodule", "autoindex", "other-inherited-members"]

/-- What is done at certain moments of a build. -/
inductive Hook where
  /-- At the start: the settings are read. -/
  | configure
  /-- At the start: the tree is brought up to date. -/
  | analyze
  /-- At the start: pages are generated. -/
  | generate
  /-- For a reference that leads nowhere: the manual of the language is tried. -/
  | consultManual
  /-- At the end: files are added to the pages. -/
  | addFiles
  /-- For a reference about which there would be a warning: some are not meant to be found. -/
  | excuse
  deriving DecidableEq, Repr

/-- What is done when all documents have been read. -/
inductive Filling where
  /-- Indices of members are filled in. -/
  | memberTables
  /-- Lists of inherited members are filled in. -/
  | inheritedMembers
  deriving DecidableEq, Repr

/-- Something that is announced. -/
inductive Registration where
  /-- The domain of the language. -/
  | domain
  | setting (s : Setting)
  | directive (name : String)
  | hook (h : Hook)
  | filling (f : Filling)
  /-- How the code of the language is highlighted. -/
  | highlighting (language : String)
  | stylesheet (file : String)
  /-- The indentation in signatures. -/
  | indentation

/-- The file with the styles of the pages. -/
def stylesheetName : String := "lua.css"

/-- Everything that is announced, in order. -/
def registrations : List Registration :=
  [.domain] ++ settings.map .setting ++ directives.map .directive ++
    [.hook .configure, .hook .analyze, .hook .generate, .hook .consultManual, .hook .addFiles,
      .hook .excuse, .filling .memberTables, .filling .inheritedMembers, .highlighting "lua",
      .stylesheet stylesheetName, .indentation]

/-- What is announced for the domain alone. -/
def domainRegistrations : List Registration := [.domain]

/-- What is said about the extension as a whole. -/
structure Summary where
  version : String
  /-- Documents can be read by several processes. -/
  parallelReading : Bool
  /-- Pages can be written by several processes. -/
  parallelWriting : Bool
  deriving DecidableEq, Repr

/-- What is said about the whole extension. -/
def summary : Summary := ⟨"0.0.0", true, true⟩

/-- What is said about the domain alone. -/
def domainSummary : Summary := ⟨"builtin", true, true⟩

/-- The styles of the pages. -/
def stylesheet : String :=
  ".lua-index-table \x7b\n    width: 100%;\n\x7d\n\n" ++
    ".lua-deprecated \x7b\n    text-decoration: line-through;\n\x7d\n"

/-- The files that are added to the pages: a style sheet, if the pages are for browsers and have
been written without failure. -/
def assets (forBrowsers failed : Bool) : Table String :=
  if forBrowsers && !failed then [(stylesheetName, stylesheet)] else []

/-- What has been written for a printer, with an indentation after it. -/
def printIndentation (written : List String) : List String := written ++ ["~~~~"]

end Extension

/-- Descriptions of the family are written with a list of arguments. -/
def Family.hasArguments : Family → Bool
  | .function => true
  | _ => false

end LuaDocs
