import LuaDocs.Table
import LuaDocs.Text.Blank
import LuaDocs.Text.Lines
import LuaDocs.Text.Search
import LuaDocs.Text.Word

/-!
# Documentation comments

The comment of an object is running text with settings in it. A setting starts a line: `!doc` sets
an option of the object's documentation and `!doctype` its type. The settings are taken out of the
text.

Some analyzers add lines of their own to a comment: tags that they have read, the code of the
definition, and a list of links. These are removed, and the links are put at the end of the text.

## Main definitions

* `Comment`: a comment as an analyzer gives it.
* `Comment.Reading`, `Comment.read`: its text, options and type.
* `Comment.cutSettings`: a text cut into settings and the rest.
-/

namespace LuaDocs

open Text

/-- The comment of an object with the options and the type that the analyzer found for it. -/
structure Comment where
  text : Option String
  /-- The analyzer has added lines of its own to the text. -/
  cleanup : Bool
  options : Table String
  doctype : Option String
  deriving DecidableEq, Repr

namespace Comment

/-- No comment. -/
def none (cleanup : Bool) : Comment := ⟨.none, cleanup, [], .none⟩

/-- What a comment says. -/
structure Reading where
  text : Option String
  options : Table String
  doctype : Option String
  deriving DecidableEq, Repr

/-! ### Settings -/

/-- A setting in a comment. -/
inductive Setting where
  /-- Sets the type of the object. -/
  | doctype (value : List Char)
  /-- Sets an option; the value may hold a name, a colon and an argument. -/
  | option (value : List Char)
  deriving DecidableEq, Repr

/-- The text starts with a blank. -/
def startsBlank : List Char → Bool
  | [] => false
  | c :: _ => isBlank c

/-- What stands after `!doc` or `!doctype`: a blank is needed, and then the value reaches from the
next mark to the end of its line. -/
def settingValue? (t : List Char) : Option (List Char × List Char) :=
  if startsBlank t then
    let t := trimStart t
    some (t.takeWhile fun c => c != '\n', t.dropWhile fun c => c != '\n')
  else .none

/-- Reads a setting at the start of a line, together with the blank lines before it, and the text
after it. -/
def setting? (s : List Char) : Option (Setting × List Char) :=
  match trimStart s with
  | '!' :: 'd' :: 'o' :: 'c' :: t =>
    match t with
    | 't' :: 'y' :: 'p' :: 'e' :: u => (settingValue? u).map fun p => (.doctype p.1, p.2)
    | _ => (settingValue? t).map fun p => (.option p.1, p.2)
  | _ => .none

theorem length_settingValue?_lt {t v r : List Char} (h : settingValue? t = some (v, r)) :
    r.length ≤ t.length := by
  unfold settingValue? at h
  split at h
  · simp only [Option.some.injEq, Prod.mk.injEq] at h
    rw [← h.2]
    exact Nat.le_trans (List.dropWhile_sublist _).length_le (length_trimStart_le t)
  · simp at h

theorem length_setting?_lt {s r : List Char} {x : Setting} (h : setting? s = some (x, r)) :
    r.length < s.length := by
  have h0 := length_trimStart_le s
  unfold setting? at h
  split at h
  · next t ht =>
    rw [ht] at h0
    simp only [List.length_cons] at h0
    split at h
    · next u =>
      obtain ⟨p, hp, hq⟩ := Option.map_eq_some_iff.1 h
      obtain ⟨-, rfl⟩ := Prod.mk.inj hq
      have := length_settingValue?_lt hp
      simp only [List.length_cons] at h0
      omega
    · obtain ⟨p, hp, hq⟩ := Option.map_eq_some_iff.1 h
      obtain ⟨-, rfl⟩ := Prod.mk.inj hq
      have := length_settingValue?_lt hp
      omega
  · simp at h

/-- Cuts a text into its settings and the characters between them; `atStart` says whether the text
stands at the start of a line. -/
def cutSettings (atStart : Bool) (s : List Char) : List (Setting ⊕ Char) :=
  match s with
  | [] => []
  | c :: r =>
    match _h : if atStart then setting? (c :: r) else .none with
    | some (x, rest) => .inl x :: cutSettings false rest
    | .none => .inr c :: cutSettings (c == '\n') r
termination_by s.length
decreasing_by
  · split at _h
    · exact length_setting?_lt _h
    · simp at _h
  · simp

/-- The characters that belong to no setting. -/
def dropSettings (s : List Char) : List Char :=
  (cutSettings true s).filterMap fun p => match p with
    | .inl _ => .none
    | .inr c => some c

/-- The settings of a text. -/
def settings (s : List Char) : List Setting :=
  (cutSettings true s).filterMap fun p => match p with
    | .inl x => some x
    | .inr _ => .none

/-- Name and argument of an option: what stands before and after the first colon. -/
def optionPair (value : List Char) : String × String :=
  let name := value.takeWhile fun c => c != ':'
  let arg := (value.dropWhile fun c => c != ':').drop 1
  (String.ofList (trim name), String.ofList (trim arg))

/-- The options after a setting. -/
def applyOption (options : Table String) : Setting → Table String
  | .doctype _ => options
  | .option value => let (name, arg) := optionPair value; options.set name arg

/-- The type after a setting. -/
def applyDoctype (doctype : Option String) : Setting → Option String
  | .doctype value => some (String.ofList (trim value))
  | .option _ => doctype

/-! ### Lines that the analyzer added -/

/-- The line is a tag that the analyzer has read: a word between stars after an at sign. -/
def isTagLine (l : List Char) : Bool :=
  match l with
  | '@' :: '*' :: r => startsWord r && (r.dropWhile isWord).head? == some '*'
  | _ => false
where
  /-- The text starts with a word character. -/
  startsWord : List Char → Bool
    | [] => false
    | c :: _ => isWord c

/-- Empties the lines that are tags. -/
def dropTags (s : List Char) : List Char :=
  unlines ((lines s).map fun l => if isTagLine l then [] else l)

/-- The line that starts a block of code. -/
def fenceStart : List Char := "```lua\n".toList

/-- The line that ends a block of code, with the line feed before it. -/
def fenceEnd : List Char := "\n```".toList

/-- The text after the block of code at its start. -/
def afterCode? (s : List Char) : Option (List Char) :=
  if fenceStart.isPrefixOf s then after? fenceEnd (s.drop fenceStart.length) else .none

theorem length_afterCode?_lt {s r : List Char} (h : afterCode? s = some r) :
    r.length < s.length := by
  unfold afterCode? at h
  split at h
  · next hp =>
    have h1 := length_after?_le h
    have h2 : fenceStart.length ≤ s.length := (List.isPrefixOf_iff_prefix.1 hp).length_le
    have h3 : 0 < fenceStart.length := by decide
    rw [List.length_drop] at h1
    omega
  · simp at h

/-- Removes the blocks of code that start a line. -/
def dropCode (atStart : Bool) (s : List Char) : List Char :=
  match s with
  | [] => []
  | c :: r =>
    match _h : if atStart then afterCode? (c :: r) else .none with
    | some rest => dropCode false rest
    | .none => c :: dropCode (c == '\n') r
termination_by s.length
decreasing_by
  · split at _h
    · exact length_afterCode?_lt _h
    · simp at _h
  · simp

/-! ### Links -/

/-- A link: what it refers to and the text after it. -/
structure Link where
  /-- What is referred to. -/
  target : List Char
  text : List Char
  deriving DecidableEq, Repr

/-- Cuts a text at the first occurrence of `c`. -/
def cutChar? (c : Char) (s : List Char) : Option (List Char × List Char) :=
  match s.dropWhile (fun d => d != c) with
  | [] => .none
  | _ :: r => some (s.takeWhile (fun d => d != c), r)

/-- Cuts a text at the first occurrence of `](`. -/
def cutBracket? : List Char → Option (List Char × List Char)
  | ']' :: '(' :: r => some ([], r)
  | c :: r => (cutBracket? r).map fun p => (c :: p.1, p.2)
  | [] => .none

/-- Reads a link: a target between tildes, which could not be resolved, or a target in brackets
with an address in parentheses. -/
def link? : List Char → Option Link
  | '~' :: c :: r => (cutChar? '~' r).map fun p => ⟨c :: p.1, p.2⟩
  | '[' :: c :: r =>
    match cutBracket? r with
    | some (target, rest) => (cutChar? ')' rest).map fun p => ⟨c :: target, p.2⟩
    | .none => .none
  | _ => .none

/-- A link as a reference with its text. -/
def Link.render (l : Link) : List Char :=
  ":lua:obj:`".toList ++ l.target ++ ['`'] ++ (if l.text.isEmpty then [] else ": ".toList ++ l.text)

/-- An item of a list of links. -/
def linkItem? : List Char → Option Link
  | ' ' :: ' ' :: '*' :: ' ' :: r => link? r
  | _ => .none

/-- A line that is a single link. -/
def linkLine? : List Char → Option Link
  | 'S' :: 'e' :: 'e' :: ':' :: ' ' :: r => link? r
  | _ => .none

/-- The lines of a text before and after the last line that starts a list of links. That line has
to end in a line feed. -/
def cutLinks : List (List Char) → Option (List (List Char) × List (List Char))
  | [] => .none
  | l :: rest =>
    match cutLinks rest with
    | some (before, after) => some (l :: before, after)
    | .none => if l == "See:".toList && !rest.isEmpty then some ([], rest) else .none

/-- A link with its text trimmed. -/
def Link.trimmed (l : Link) : Link := { l with text := trim l.text }

/-- The links of a text, and the text without them. Items of the list of links that are no links
stay, under a heading of their own. -/
def takeLinks (s : List Char) : List Link × List Char :=
  let (docs, list) := match cutLinks (lines s) with
    | some (before, after) =>
      (if before.isEmpty then [] else unlines before ++ ['\n'], splitLines (unlines after))
    | .none => (s, [])
  let items := list.filterMap linkItem?
  let others := list.filter fun l => (linkItem? l).isNone
  let (single, docs) := match (lines docs).find? fun l => (linkLine? l).isSome with
    | some l => ((linkLine? l).toList.map Link.trimmed, replaceAll l [] docs)
    | .none => ([], docs)
  let docs := if others.isEmpty then docs else docs ++ "\n\nSee:\n".toList ++ unlines others
  (items ++ single, docs)

/-- The lines that show links: a list, or a line for a single link. -/
def renderLinks (links : List Link) : List Char :=
  match links with
  | [] => []
  | [l] => "\nSee ".toList ++ l.render
  | ls => unlines ("".toList :: "See:".toList :: "".toList ::
      ls.flatMap fun l => ["- ".toList ++ l.render, []])

/-! ### Reading -/

/-- What the comment says. A comment without text has no options. -/
def read (c : Comment) : Reading :=
  match c.text.filter fun s => !s.isEmpty with
  | .none => ⟨.none, [], c.doctype⟩
  | some text =>
    let docs := text.toList
    let docs := if c.cleanup then dropCode true (dropTags docs) else docs
    let found := settings docs
    let options := found.foldl applyOption c.options
    let doctype := found.foldl applyDoctype c.doctype
    let docs := dropSettings docs
    let docs :=
      if c.cleanup then
        let (links, docs) := takeLinks docs
        dedent docs ++ renderLinks links
      else dedent docs
    ⟨some (String.ofList docs), options, doctype⟩

/-- The comment with the options that its text sets noted among those that the analyzer found. -/
def noteOptions (c : Comment) : Comment :=
  match c.text.filter fun s => !s.isEmpty with
  | .none => c
  | some _ => { c with options := c.read.options }

/-- The text of the comment of an alias: its lines of commentary, if the comment is a block of code
that shows the definition. -/
def aliasText (text : Option String) : Option String :=
  text.map fun s =>
    let chars := s.toList
    if fenceStart.isPrefixOf chars && fenceEnd.reverse.isPrefixOf chars.reverse then
      let body := (chars.take (chars.length - 5)).drop fenceStart.length
      String.ofList (unlines ((splitLines body).filterMap fun l => match l with
        | '-' :: '-' :: r => some r
        | _ => .none))
    else s

end Comment

end LuaDocs
