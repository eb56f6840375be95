import LuaDocs.Context.Json
import LuaDocs.Node

/-!
# Documents as JSON

A text is a JSON text. An element is a list of its name, an object with its attributes, and its
children. Attributes without a value and empty lists are left out. Loose text is an object of its
own.
-/

namespace LuaDocs

open Json

/-- The name of an element without attributes. -/
def Tag.name : Tag → String
  | .paragraph => "paragraph"
  | .strong => "strong"
  | .title => "title"
  | .seealso => "seealso"
  | .admonition => "admonition"
  | .inline => "inline"
  | .literalStrong => "literal_strong"
  | .bulletList => "bullet_list"
  | .listItem => "list_item"
  | .fieldList => "field_list"
  | .field => "field"
  | .fieldName => "field_name"
  | .fieldBody => "field_body"
  | .tableBody => "tbody"
  | .row => "row"
  | .entry => "entry"
  | .descName => "desc_name"
  | .descAddName => "desc_addname"
  | .descNote => "desc_annotation"
  | .descType => "desc_type"
  | .descContent => "desc_content"
  | .sigName => "desc_sig_name"
  | .sigSpace => "desc_sig_space"
  | .sigOperator => "desc_sig_operator"
  | .sigPunctuation => "desc_sig_punctuation"
  | .sigKeyword => "desc_sig_keyword"
  | .sigKeywordType => "desc_sig_keyword_type"
  | .sigLiteralNumber => "desc_sig_literal_number"
  | .sigLiteralString => "desc_sig_literal_string"
  | .sigLiteralChar => "desc_sig_literal_char"
  | .sigIndent => "SigIndentNode"

/-- The modules in use where a reference stands. -/
def usedMember (s : Option Selection) : List (String × Json) :=
  entry "lua:using" Selection.toJson (s.filter fun s => !s.isEmpty)

/-- The name and the attributes of an element. -/
def Element.describe : Element → String × List (String × Json)
  | .plain t => (t.name, [])
  | .desc d => ("desc", [("objtype", .str d.objtype)] ++ flag "no-index" d.noIndex ++
      flag "no-index-entry" d.noIndexEntry ++
      flag "no-contents-entry" d.noContentsEntry)
  | .signature s => ("desc_signature",
      entryOfList "ids" .str s.ids ++ entry "module" .str (s.moduleName.join) ++
      entry "class" .str (s.className.join) ++ entry "fullname" .str s.fullname ++
      entry "lua:domain_name" .str s.shownName ++
      flag "is_multiline" s.multiline ++ entry "_toc_parts" strings s.tocParts ++
      entry "_toc_name" .str s.tocName)
  | .signatureLine p => ("desc_signature_line", entry "add_permalink" .bool p)
  | .index entries => ("index",
      if entries.isEmpty then [] else
        [("entries", list (fun (text, id) =>
          .arr [.str "single", .str text, .str id, .str "", .null]) entries)])
  | .target ids isModule => ("target", entryOfList "ids" .str ids ++ flag "ismod" isModule)
  | .pending r => ("pending_xref",
      [("refdomain", .str r.domain), ("reftype", .str r.role), ("reftarget", .str r.target),
        ("refexplicit", .bool r.explicit)] ++ entry "lua:module" .str r.moduleName ++
      entry "lua:class" .str r.className ++ usedMember r.usedModules)
  | .reference d title => ("reference",
      (match d with
        | .anchor id => [("refid", .str id)]
        | .uri uri => [("refuri", .str uri)]) ++ entry "reftitle" .str title)
  | .literal classes => ("literal", entryOfList "classes" .str classes)
  | .literalEmphasis classes => ("literal_emphasis", entryOfList "classes" .str classes)
  | .container classes => ("container", entryOfList "classes" .str classes)
  | .table classes => ("table", entryOfList "classes" .str classes)
  | .tableGroup n => ("tgroup", [("cols", .int n)])
  | .column n => ("colspec", [("colwidth", .int n)])
  | .titledSection name _ => ("section", [("name", .str name)])
  | .autoIndex name => ("AutoIndexNode", [("target", .str name)])
  | .inheritedMembers name => ("InheritedMethodsNode", entry "target" .str name)
  | .systemMessage level => ("system_message", [("level", .int level)])

/-- A node. -/
def Node.toJson : Node → Json
  | .text s => .str s
  | .loose s => .obj [("raw", .str s)]
  | .element kind children =>
    let (name, attributes) := kind.describe
    .arr (.str name :: .obj attributes :: children.attach.map fun ⟨n, _⟩ => n.toJson)

/-- Nodes one after the other. -/
def Node.listToJson (nodes : List Node) : Json := .arr (nodes.map Node.toJson)

end LuaDocs
