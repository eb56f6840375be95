import LuaDocs.Field
import LuaDocs.Proofs.Table
import LuaDocs.Proofs.TypeExpr.Spacing

/-!
# Types that cannot be shown

A character without a role is shown as text. When a second one follows it directly, with or without
blanks between them, the two are run together into loose text, which is no node and cannot become a
child of an element. So a type can be shown exactly if no two such characters follow each other
among its tokens, and a list of types or of typed names exactly if each of its types can.

What becomes such a character depends on all that can be read at its place: a quote does unless a
string starts with it, and a dot unless it is part of a number, a name or three dots. But only a
character that stands for nothing else does, and a type with one of them at most is always shown.

## Main results

* `TypeExpr.any_isLoose_display`: when the nodes of a type have loose text among them
* `Writer.params_eq_none_iff`, `Writer.types_eq_none_iff`: when a list cannot be written
* `Field.make_eq_none_iff`: when the field of parameters or results cannot be made
* `TypeExpr.shown_iff_not_crowded`: all of it together
-/

namespace LuaDocs

open Text

variable {type : String}

namespace Node

theorem attach_eq_none_iff {kind : Element} {children : List Node} :
    attach kind children = none ↔ children.any isLoose = true := by
  rw [attach]
  split
  · next h => simp [h]
  · next h => simp [h]

/-- Text stands at the end of the nodes. -/
def endInText (nodes : List Node) : Bool :=
  match nodes.getLast? with
  | some (.text _) => true
  | _ => false

theorem endInText_append_element (nodes : List Node) (kind : Element) (children : List Node) :
    endInText (nodes ++ [.element kind children]) = false := by
  simp [endInText]

@[simp] theorem isLoose_plain (tag : Tag) (children : List Node) :
    (plain tag children).isLoose = false := rfl

@[simp] theorem isLoose_leaf (tag : Tag) (s : String) : (leaf tag s).isLoose = false := rfl

@[simp] theorem isLoose_text (s : String) : (Node.text s).isLoose = false := rfl

end Node

/-- A role makes an element. -/
theorem Role.exists_render (context : Context) (style : Style) (role text : String) :
    ∃ kind children, render context style role text = .element kind children := by
  unfold render
  dsimp only
  split
  · exact ⟨_, _, rfl⟩
  · split
    · exact ⟨_, _, rfl⟩
    · exact ⟨_, _, rfl⟩

namespace TypeExpr

variable {token : Token}

namespace Token

/-! ### Nodes of tokens -/

/-- The token is a character without a role. -/
def isOther : Token → Bool
  | .other _ => true
  | _ => false

theorem exists_of_isOther (h : token.isOther = true) :
    ∃ char, token = .other char := by
  cases token with
  | other char => exact ⟨char, rfl⟩
  | _ => cases h

/-- Two characters without a role follow each other. -/
def crowded : List Token → Bool
  | a :: b :: rest => a.isOther && b.isOther || crowded (b :: rest)
  | _ => false

theorem crowded_cons (token : Token) (tokens : List Token) :
    crowded (token :: tokens) = (token.isOther && tokens.head?.any isOther || crowded tokens) := by
  cases tokens <;> simp [crowded]

theorem crowded_iff {tokens : List Token} : crowded tokens = true ↔
    ∃ before c d after, tokens = before ++ .other c :: .other d :: after := by
  induction tokens with
  | nil => simp [crowded]
  | cons token tokens ih =>
    rw [crowded_cons, Bool.or_eq_true, Bool.and_eq_true, ih]
    constructor
    · rintro (⟨htoken, hnext⟩ | ⟨before, c, d, after, rfl⟩)
      · obtain ⟨c, rfl⟩ := exists_of_isOther htoken
        cases tokens with
        | nil => cases hnext
        | cons second tokens =>
          obtain ⟨d, rfl⟩ := exists_of_isOther hnext
          exact ⟨[], c, d, tokens, rfl⟩
      · exact ⟨token :: before, c, d, after, rfl⟩
    · rintro ⟨before, c, d, after, heq⟩
      cases before with
      | nil =>
        rw [List.nil_append, List.cons.injEq] at heq
        rw [heq.1, heq.2]
        exact .inl ⟨rfl, rfl⟩
      | cons first before =>
        rw [List.cons_append, List.cons.injEq] at heq
        exact .inr ⟨before, c, d, after, heq.2⟩

/-- A token with a role adds elements. -/
theorem exists_display (h : token.isOther = false) (context : Context)
    (before : List Node) : ∃ nodes kind children,
      token.display context before = before ++ nodes ++ [.element kind children] ∧
        nodes.any Node.isLoose = false := by
  cases token with
  | reference name marks =>
    obtain ⟨kind, children, hrender⟩ :=
      Role.exists_render context .literal "_auto" (String.ofList name)
    simp only [display, hrender]
    split
    · exact ⟨[], kind, children, by simp, rfl⟩
    · exact ⟨[.element kind children], _, _, rfl, rfl⟩
  | separator sign =>
    simp only [display]
    split
    · exact ⟨[.space, .punctuation (String.singleton sign)], _, _, by simp [Node.space]; rfl, rfl⟩
    · exact ⟨[.punctuation (String.singleton sign)], _, _, by simp [Node.space]; rfl, rfl⟩
  | arrow => exact ⟨[.punctuation ":"], _, _, by simp [display, Node.space]; rfl, rfl⟩
  | other char => cases h
  | _ => exact ⟨[], _, _, by rw [display, List.append_nil]; rfl, rfl⟩

/-- What one token does: a character without a role is put after the text at the end, which gives
loose text, or becomes the text at the end. -/
theorem any_isLoose_display (context : Context) (before : List Node) (token : Token) :
    (token.display context before).any Node.isLoose =
        (before.any Node.isLoose || token.isOther && Node.endInText before) ∧
      Node.endInText (token.display context before) =
        (token.isOther && !Node.endInText before) := by
  cases hother : token.isOther with
  | false =>
    obtain ⟨nodes, kind, children, hdisplay, hnodes⟩ := exists_display hother context before
    rw [hdisplay, Node.endInText_append_element]
    simp [hnodes, Node.isLoose]
  | true =>
    obtain ⟨char, rfl⟩ := exists_of_isOther hother
    simp only [display]
    split
    · next s hlast => simp [Node.endInText, hlast, Node.isLoose]
    · next hlast =>
      have hend : Node.endInText before = false := by
        unfold Node.endInText
        split
        · next s hs => exact absurd hs (hlast s)
        · rfl
      rw [hend]
      simp [Node.endInText]

/-- What tokens do, after nodes that may have text at their end. -/
theorem any_isLoose_foldl_display (context : Context) (before : List Node) (tokens : List Token) :
    (tokens.foldl (display context) before).any Node.isLoose =
      (before.any Node.isLoose || Node.endInText before && tokens.head?.any isOther ||
        crowded tokens) := by
  induction tokens generalizing before with
  | nil => simp [crowded]
  | cons token tokens ih =>
    obtain ⟨hloose, hend⟩ := any_isLoose_display context before token
    rw [List.foldl_cons, ih, hloose, hend, crowded_cons, List.head?_cons, Option.any_some]
    cases token.isOther <;> cases Node.endInText before <;> simp [Bool.or_assoc]

end Token

/-- Two characters without a role follow each other in a type. -/
def crowded (type : String) : Bool := Token.crowded (Token.lex type.toList)

/-- **When the nodes of a type have loose text among them.** -/
theorem any_isLoose_display (context : Context) (type : String) :
    (display context type).any Node.isLoose = crowded type := by
  rw [display, Token.any_isLoose_foldl_display]
  simp [Node.endInText, crowded]

/-- Text at the end of the nodes is one character. -/
theorem Token.eq_singleton_of_display {context : Context} {before nodes : List Node} {s : String}
    (h : token.display context before = nodes ++ [.text s]) : ∃ c, s = String.singleton c := by
  cases hother : token.isOther with
  | false =>
    obtain ⟨_, _, _, hdisplay, -⟩ := exists_display hother context before
    rw [hdisplay] at h
    have hlast := congrArg List.getLast? h
    simp at hlast
  | true =>
    obtain ⟨char, rfl⟩ := exists_of_isOther hother
    rw [display] at h
    split at h
    · have hlast := congrArg List.getLast? h
      simp at hlast
    · have hlast := congrArg List.getLast? h
      simp at hlast
      exact ⟨char, hlast.symm⟩

/-- A type that is shown as a text is shown as one character. -/
theorem eq_singleton_of_display {context : Context} {s : String}
    (h : display context type = [.text s]) : ∃ c, s = String.singleton c := by
  rw [display] at h
  rcases List.eq_nil_or_concat (Token.lex type.toList) with hnil | ⟨tokens, last, hlast⟩
  · rw [hnil] at h
    cases h
  · rw [hlast, List.concat_eq_append, List.foldl_append] at h
    exact Token.eq_singleton_of_display (h.trans (List.nil_append _).symm)

/-! ### Characters without a role -/

/-- A character that is no blank and has no part in names, separators, brackets and signs: dots,
quotes and the characters that have no meaning in types. -/
def isStray (c : Char) : Bool :=
  !isBlank c && !isWord c && !Token.isSeparator c && !Token.isBracket c && !Token.isSymbol c

namespace Token

variable {c : Char}

theorem isWord_of_isDigit (h : isDigit c = true) : isWord c = true := by
  have hwithin : (zeroDigits.all fun z =>
      wordRanges.any fun r => r.1.ble z && (z + 9).ble r.2) = true := by decide +kernel
  obtain ⟨z, hz, hlow, hhigh⟩ := exists_zeroDigit h
  obtain ⟨r, hr, hbounds⟩ := List.any_eq_true.1 (List.all_eq_true.1 hwithin z hz)
  rw [Bool.and_eq_true, Nat.ble_eq, Nat.ble_eq] at hbounds
  exact inRanges_iff.2 ⟨r, hr, by omega, by omega⟩

/-- A stray character that starts neither a number nor a string has no role, -/
theorem next_of_string?_eq_none (h : isStray c = true) (hdot : c ≠ '.') {r : List Char}
    (hstring : isQuote c = true → string? c r = none) : next c r = (.other c, r) := by
  simp only [isStray, Bool.and_eq_true, Bool.not_eq_true'] at h
  obtain ⟨⟨⟨⟨-, hword⟩, hseparator⟩, hbracket⟩, hsymbol⟩ := h
  have hnumber : number? (c :: r) = none := by
    have hdigit : isDigit c = false := by
      rw [Bool.eq_false_iff]
      intro hdigit
      rw [isWord_of_isDigit hdigit] at hword
      cases hword
    have hfraction : fraction (c :: r) = ([], c :: r) := by
      unfold fraction
      split
      · next heq => exact absurd (List.cons.inj heq).1 hdot
      · rfl
    simp [number?, run, hdigit, hfraction]
  have hkeyword : keyword? (c :: r) = none := by
    unfold keyword?
    split
    · next heq =>
      rw [(List.cons.inj heq).1] at hword
      exact absurd hword (by decide +kernel)
    · rfl
  have hnone : (if isQuote c then string? c r else none) = none := by
    split
    · next hquote => exact hstring hquote
    · rfl
  unfold next
  split
  · exact absurd rfl hdot
  · rw [hnone, hnumber, hkeyword]
    simp only [hword, hseparator, hbracket, hsymbol, Bool.false_eq_true, if_false]
    split
    · exact absurd hsymbol (by simp [isSymbol])
    · rfl

/-- whatever follows it if it is no quote. -/
theorem next_of_isStray (h : isStray c = true) (hdot : c ≠ '.')
    (hquote : isQuote c = false) (r : List Char) : next c r = (.other c, r) :=
  next_of_string?_eq_none h hdot fun hc => absurd hc (by rw [hquote]; decide)

/-- A character without a role is stray, and the text after it is read next. -/
theorem eq_of_isOther_next {r : List Char} (hc : isBlank c = false)
    (h : (next c r).1.isOther = true) : isStray c = true ∧ (next c r).2 = r := by
  revert h
  unfold next
  split
  · intro h
    cases h
  split
  · intro h
    cases h
  split
  · intro h
    cases h
  split
  · intro h
    cases h
  split
  · next hword =>
    intro h
    cases href : reference? (c :: r) with
    | none =>
      rw [href, Option.getD_none, readLabel] at h
      split at h <;> cases h
    | some p =>
      obtain ⟨stop, -, rfl⟩ := Option.map_eq_some_iff.1 href
      rw [href] at h
      cases h
  next hword =>
  split
  · intro h
    cases h
  next hseparator =>
  split
  · intro h
    cases h
  next hbracket =>
  split
  · intro h
    cases h
  split
  · intro h
    cases h
  next hsymbol =>
  intro _
  simp_all [isStray]

/-- There are no more characters without a role than stray ones. -/
theorem countP_isOther_lex_le (s : List Char) :
    (lex s).countP isOther ≤ s.countP isStray := by
  fun_induction lex s with
  | case1 => exact Nat.le_refl 0
  | case2 c r hc ih => exact Nat.le_trans ih (List.sublist_cons_self c r).countP_le
  | case3 c r hc token ih =>
    have hblank : isBlank c = false := by simpa using hc
    obtain ⟨part, hpart, -⟩ := exists_spells_next hblank r
    rw [List.countP_cons]
    cases hother : token.1.isOther with
    | false =>
      have hlength : (c :: r).countP isStray = part.countP isStray + token.2.countP isStray := by
        rw [hpart, List.countP_append]
      rw [hlength]
      simp only [Bool.false_eq_true, if_false]
      omega
    | true =>
      obtain ⟨hstray, hrest⟩ := eq_of_isOther_next hblank hother
      rw [List.countP_cons, hstray]
      have hle : (lex token.2).countP isOther ≤ r.countP isStray := hrest ▸ ih
      simp only [if_true]
      omega

theorem two_le_countP_of_crowded {tokens : List Token} (h : crowded tokens = true) :
    2 ≤ tokens.countP isOther := by
  induction tokens with
  | nil => cases h
  | cons token tokens ih =>
    rw [crowded_cons, Bool.or_eq_true, Bool.and_eq_true] at h
    rw [List.countP_cons]
    rcases h with ⟨htoken, hnext⟩ | h
    · cases tokens with
      | nil => cases hnext
      | cons second tokens =>
        rw [List.head?_cons, Option.any_some] at hnext
        rw [List.countP_cons, htoken, hnext]
        simp only [if_true]
        omega
    · have := ih h
      omega

end Token

/-- A type with one stray character at most is not crowded. -/
theorem not_crowded_of_countP (h : type.toList.countP isStray ≤ 1) :
    crowded type = false := by
  rw [Bool.eq_false_iff]
  intro hcrowded
  have htwo := Token.two_le_countP_of_crowded hcrowded
  have hle := Token.countP_isOther_lex_le type.toList
  omega

theorem crowded_empty : crowded "" = false := by decide +kernel

end TypeExpr

/-! ### Lists in signatures -/

namespace Writer

theorem type_eq_none_iff (w : Writer) (type : String) :
    w.type type = none ↔ TypeExpr.crowded type = true := by
  rw [Writer.type, Option.map_eq_none_iff, Node.attach_eq_none_iff, TypeExpr.any_isLoose_display]

theorem typedName_eq_none_iff (w : Writer) (p : TypedName) :
    w.typedName p = none ↔ TypeExpr.crowded p.type = true := by
  unfold typedName
  dsimp only
  split
  · next h => simp [String.isEmpty_iff.1 h, TypeExpr.crowded_empty]
  · exact type_eq_none_iff _ _

variable {α : Type} {write : Writer → α → Option Writer} {bad : α → Prop}

/-- Elements cannot be written exactly if one of them cannot. -/
theorem elements_eq_none_iff (hwrite : ∀ w a, write w a = none ↔ bad a) (broken : Bool)
    (w : Writer) (items : List α) :
    elements write broken w items = none ↔ ∃ a ∈ items, bad a := by
  induction items generalizing w with
  | nil => simp [elements]
  | cons a rest ih =>
    rw [elements]
    dsimp only
    have hfirst := hwrite (if broken then w.newLine.indent else w) a
    cases hw : write (if broken then w.newLine.indent else w) a with
    | none => simp [hfirst.1 hw]
    | some w' =>
      have hgood : ¬ bad a := fun h => by rw [hfirst.2 h] at hw; cases hw
      simp [hgood, ih]

theorem list_eq_none_iff (hwrite : ∀ w a, write w a = none ↔ bad a) (estimate : Nat)
    (w : Writer) (items : List α) (brackets : Option (String × String)) :
    list write estimate w items brackets = none ↔ ∃ a ∈ items, bad a := by
  have hclose : ∀ (written : Option Writer) (close : Writer → Writer),
      (written >>= fun w => pure (close w)) = none ↔ written = none := by
    intro written close
    cases written <;> simp
  exact (hclose _ _).trans (elements_eq_none_iff hwrite _ _ items)

/-- A list of typed names cannot be written exactly if a type in it is crowded. -/
theorem params_eq_none_iff (w : Writer) (items : List TypedName)
    (brackets : Option (String × String)) (optionals : Bool) :
    w.params items brackets optionals = none ↔ ∃ p ∈ items,
      TypeExpr.crowded (if optionals then optionalName p else p).type = true :=
  list_eq_none_iff
    (fun w p => typedName_eq_none_iff w (if optionals then optionalName p else p)) _ w items
    brackets

/-- A list of types cannot be written exactly if a type in it is crowded. -/
theorem types_eq_none_iff (w : Writer) (items : List String)
    (brackets : Option (String × String)) :
    w.types items brackets = none ↔ ∃ type ∈ items, TypeExpr.crowded type = true := by
  refine list_eq_none_iff (fun w type => ?_) _ w items brackets
  split
  · next h => simp [String.isEmpty_iff.1 h, TypeExpr.crowded_empty]
  · exact type_eq_none_iff w type

end Writer

/-! ### Fields -/

namespace Field

variable {context : Option Context} {types : Table (List Node)} {items : List (String × List Node)}
  {name : String} {item : String × List Node}
  {types' : Table (List Node)}

/-- The type of an item as it is shown: without a question mark at its end, and without the
parentheses that are around the rest then. -/
def shownType (type : String) : String :=
  if type.toList.getLast? = some '?' then
    String.ofList (Signature.dropParens type.toList.dropLast)
  else type

/-- The type of an item, if it was given as text. -/
def givenType? (types : Table (List Node)) (name : String) : Option String :=
  (types.get? name).bind onlyText?

/-- The name under which an item is shown. -/
def finalName (types : Table (List Node)) (name : String) : String :=
  if ((givenType? types name).bind fun type => type.toList.getLast?) = some '?' then name.push '?'
  else name

/-- The nodes that are shown as the type of an item. -/
def finalNodes? (context : Option Context) (types : Table (List Node)) (name : String) :
    Option (List Node) :=
  match givenType? types name with
  | some type => some (showType context (shownType type))
  | none => types.get? name

theorem finalName_eq (types : Table (List Node)) (name : String) :
    finalName types name = name ∨ finalName types name = name.push '?' := by
  unfold finalName
  split
  · exact .inr rfl
  · exact .inl rfl

theorem push_ne (name : String) : name.push '?' ≠ name := fun h => by
  have hlength := congrArg (fun s : String => s.toList.length) h
  simp at hlength

/-- What one item does: it gets its final name and its final type, and leaves its old name. -/
theorem settleItem_eq (context : Option Context) (types : Table (List Node)) (name : String) :
    (settleItem context types name).1 = finalName types name ∧
      ∀ key, (settleItem context types name).2.get? key =
        if key = finalName types name then finalNodes? context types name
        else if key = name then none else types.get? key := by
  unfold settleItem finalName finalNodes? givenType?
  cases (types.get? name).bind onlyText? with
  | none =>
    refine ⟨rfl, fun key => ?_⟩
    dsimp only [Option.bind_none]
    by_cases hkey : key = name
    · simp [hkey]
    · simp [hkey]
  | some type =>
    simp only [Option.bind_some, shownType]
    split
    · next hmark =>
      simp only [hmark, if_true]
      refine ⟨trivial, fun key => ?_⟩
      rw [Table.get?_set, Table.get?_erase]
      by_cases hkey : key = name.push '?'
      · simp [hkey]
      · by_cases hname : key = name
        · simp [hname, push_ne, Ne.symm (push_ne name)]
        · simp [hkey, hname, Ne.symm hkey, Ne.symm hname]
    · next hmark =>
      simp only [if_neg hmark]
      refine ⟨trivial, fun key => ?_⟩
      rw [Table.get?_set]
      by_cases hkey : key = name
      · simp [hkey]
      · simp [hkey, Ne.symm hkey]

/-- The nodes at a name have loose text among them. -/
def LooseAt (types : Table (List Node)) (name : String) : Prop :=
  ∃ nodes, types.get? name = some nodes ∧ nodes.any Node.isLoose = true

/-- The nodes at a name have loose text among them, or they are a text that is shown with loose
text. -/
def BadAt (context : Option Context) (types : Table (List Node)) (name : String) : Prop :=
  LooseAt types name ∨ context.isSome = true ∧
    ∃ type, givenType? types name = some type ∧ TypeExpr.crowded (shownType type) = true

theorem eq_of_onlyText? {nodes : List Node} {s : String} (h : onlyText? nodes = some s) :
    nodes = [.text s] := by
  unfold onlyText? at h
  split at h
  · rw [Option.some.inj h]
  · cases h

theorem get?_of_givenType? (h : givenType? types name = some type) :
    types.get? name = some [.text type] := by
  obtain ⟨nodes, hget, htext⟩ := Option.bind_eq_some_iff.1 h
  rw [hget, eq_of_onlyText? htext]

theorem looseAt_congr {name' : String}
    (h : types.get? name = types'.get? name') : LooseAt types name ↔ LooseAt types' name' := by
  rw [LooseAt, LooseAt, h]

theorem badAt_congr (h : types.get? name = types'.get? name) :
    BadAt context types name ↔ BadAt context types' name := by
  rw [BadAt, BadAt, looseAt_congr h, givenType?, givenType?, h]

/-- Loose text is shown exactly where the nodes were loose or become so. -/
theorem any_isLoose_finalNodes?_iff :
    (∃ nodes, finalNodes? context types name = some nodes ∧ nodes.any Node.isLoose = true) ↔
      BadAt context types name := by
  unfold finalNodes? BadAt LooseAt
  cases hgiven : givenType? types name with
  | none => simp
  | some type =>
    rw [get?_of_givenType? hgiven]
    cases context with
    | none => simp [showType]
    | some c => simp only [showType, Option.some.injEq, exists_eq_left', Option.isSome_some,
        true_and, TypeExpr.any_isLoose_display, List.any_cons, Node.isLoose_text, List.any_nil,
        Bool.or_false, Bool.false_eq_true, false_or]

/-- A type that was shown as a text is one character, and is not shown with loose text. -/
theorem not_badAt_of_showType (h : types.get? name = some (showType context type))
    (hloose : (showType context type).any Node.isLoose = false) :
    ¬ BadAt context types name := by
  rintro (⟨nodes, hget, hnodes⟩ | ⟨hcontext, text, hgiven, hcrowded⟩)
  · rw [h] at hget
    rw [← Option.some.inj hget, hloose] at hnodes
    cases hnodes
  · obtain ⟨c, rfl⟩ := Option.isSome_iff_exists.1 hcontext
    have htext : TypeExpr.display c type = [.text text] :=
      Option.some.inj (h.symm.trans (get?_of_givenType? hgiven))
    obtain ⟨char, rfl⟩ := TypeExpr.eq_singleton_of_display htext
    have hcount : (shownType (String.singleton char)).toList.countP TypeExpr.isStray ≤ 1 := by
      refine Nat.le_trans List.countP_le_length ?_
      unfold shownType
      split <;> simp [Signature.dropParens]
    rw [TypeExpr.not_crowded_of_countP hcount] at hcrowded
    cases hcrowded

/-! What one item does to the names of others, and to its own. -/

theorem looseAt_settleItem_iff (name : String) :
    LooseAt (settleItem context types name).2 (settleItem context types name).1 ↔
      BadAt context types name := by
  obtain ⟨hname, hget⟩ := settleItem_eq context types name
  rw [← any_isLoose_finalNodes?_iff, LooseAt, hname, hget, if_pos rfl]

theorem get?_settleItem {key : String} (hkey : key ≠ name) (hpush : key ≠ name.push '?') :
    (settleItem context types name).2.get? key = types.get? key := by
  rw [(settleItem_eq context types name).2, if_neg, if_neg hkey]
  rcases finalName_eq types name with heq | heq
  · rwa [heq]
  · rwa [heq]

/-- An item is not bad afterwards unless it was before: it may come a second time. -/
theorem badAt_of_settleItem
    (h : BadAt context (settleItem context types name).2 name) : BadAt context types name := by
  obtain ⟨hname, hget⟩ := settleItem_eq context types name
  by_cases hfinal : finalName types name = name
  · have hown := hget name
    rw [if_pos hfinal.symm, finalNodes?] at hown
    cases hgiven : givenType? types name with
    | none =>
      rw [hgiven] at hown
      exact (badAt_congr hown).1 h
    | some type =>
      rw [hgiven] at hown
      rw [← looseAt_settleItem_iff, hname, hfinal]
      cases hloose : (showType context (shownType type)).any Node.isLoose with
      | true => exact ⟨_, hown, hloose⟩
      | false => exact absurd h (not_badAt_of_showType hown hloose)
  · have hown := hget name
    rw [if_neg (Ne.symm hfinal), if_pos rfl] at hown
    rcases h with ⟨nodes, hnodes, -⟩ | ⟨-, type, hgiven, -⟩
    · rw [hown] at hnodes
      cases hnodes
    · rw [get?_of_givenType? hgiven] at hown
      cases hown

theorem settleItem_of_givenType? (h : givenType? types name = none) :
    settleItem context types name = (name, types) := by
  unfold settleItem
  rw [givenType?] at h
  rw [h]

theorem settle_cons (item : String × List Node) (items : List (String × List Node)) :
    settle context types (item :: items) =
      (((settleItem context types item.1).1, item.2) ::
          (settle context (settleItem context types item.1).2 items).1,
        (settle context (settleItem context types item.1).2 items).2) := rfl

/-- The names of the items have no question mark at their end. -/
def Unmarked (items : List (String × List Node)) : Prop :=
  ∀ item ∈ items, item.1.toList.getLast? ≠ some '?'

theorem Unmarked.ne_push (h : Unmarked items) (hitem : item ∈ items)
    (name : String) : item.1 ≠ name.push '?' := fun heq =>
  h item hitem (by rw [heq]; simp)

/-- Loose text stays unless an item takes its name. -/
theorem looseAt_settle (hitems : Unmarked items) (h : LooseAt types name)
    (hmarks : ∀ item ∈ items, item.1.push '?' = name → types.get? item.1 = none) :
    LooseAt (settle context types items).2 name := by
  induction items generalizing types with
  | nil => exact h
  | cons item items ih =>
    have hrest : Unmarked items := fun i hi => hitems i (List.mem_cons_of_mem _ hi)
    have hmarksRest := (List.forall_mem_cons.1 hmarks).2
    rw [settle_cons]
    cases hgiven : givenType? types item.1 with
    | none =>
      rw [settleItem_of_givenType? hgiven]
      exact ih hrest h hmarksRest
    | some type =>
      have hget := get?_of_givenType? hgiven
      -- a text is not loose, and the name with a question mark is taken by items without a type
      have hne : name ≠ item.1 := by
        rintro rfl
        obtain ⟨nodes, hnodes, hloose⟩ := h
        rw [hget] at hnodes
        rw [← Option.some.inj hnodes] at hloose
        cases hloose
      have hpush : name ≠ item.1.push '?' := fun heq => by
        rw [(List.forall_mem_cons.1 hmarks).1 heq.symm] at hget
        cases hget
      refine ih hrest ((looseAt_congr (get?_settleItem hne hpush)).2 h) fun other hother heq => ?_
      have hother' : other.1 ≠ item.1 := fun hsame => hpush (heq.symm.trans (by rw [hsame]))
      rw [get?_settleItem hother' (hrest.ne_push hother _)]
      exact hmarksRest other hother heq

/-- An item whose type is shown with loose text has it under its final name. -/
theorem exists_looseAt_settle (hitems : Unmarked items)
    (hmem : item ∈ items) (h : BadAt context types item.1) :
    ∃ settled ∈ (settle context types items).1,
      LooseAt (settle context types items).2 settled.1 := by
  induction items generalizing types with
  | nil => cases hmem
  | cons first items ih =>
    have hrest : Unmarked items := fun i hi => hitems i (List.mem_cons_of_mem _ hi)
    rw [settle_cons]
    by_cases hfirst : item.1 = first.1
    · refine ⟨((settleItem context types first.1).1, first.2), List.mem_cons_self, ?_⟩
      refine looseAt_settle hrest ((looseAt_settleItem_iff _).2 (hfirst ▸ h)) ?_
      obtain ⟨hname, hget⟩ := settleItem_eq context types first.1
      intro other hother heq
      have hfinal : finalName types first.1 = first.1.push '?' :=
        (finalName_eq types first.1).resolve_left fun hsame =>
          hitems.ne_push List.mem_cons_self other.1 (hsame.symm.trans (hname.symm.trans heq.symm))
      have hother' : other.1 = first.1 := by
        rw [hname, hfinal] at heq
        exact String.toList_inj.1 (by simpa using congrArg String.toList heq)
      rw [hother', hget, if_neg, if_pos rfl]
      rw [hfinal]
      exact (push_ne first.1).symm
    · have hmem' : item ∈ items := (List.mem_cons.1 hmem).resolve_left fun heq =>
        hfirst (congrArg Prod.fst heq)
      have hsame : (settleItem context types first.1).2.get? item.1 = types.get? item.1 :=
        get?_settleItem hfirst (hitems.ne_push hmem first.1)
      obtain ⟨settled, hsettled, hloose⟩ := ih hrest hmem' ((badAt_congr hsame).2 h)
      exact ⟨settled, List.mem_cons_of_mem _ hsettled, hloose⟩

/-- Loose text was there or comes from an item. -/
theorem of_looseAt_settle (hitems : Unmarked items)
    (h : LooseAt (settle context types items).2 name) :
    LooseAt types name ∨ ∃ item ∈ items, BadAt context types item.1 := by
  induction items generalizing types with
  | nil => exact .inl h
  | cons first items ih =>
    have hrest : Unmarked items := fun i hi => hitems i (List.mem_cons_of_mem _ hi)
    rw [settle_cons] at h
    rcases ih hrest h with hloose | ⟨item, hitem, hbad⟩
    · by_cases hname : name = (settleItem context types first.1).1
      · rw [hname, looseAt_settleItem_iff] at hloose
        exact .inr ⟨first, List.mem_cons_self, hloose⟩
      · obtain ⟨hfinal, hget⟩ := settleItem_eq context types first.1
        obtain ⟨nodes, hnodes, hnodesLoose⟩ := hloose
        rw [hget, if_neg (hfinal ▸ hname)] at hnodes
        split at hnodes
        · cases hnodes
        · exact .inl ⟨nodes, hnodes, hnodesLoose⟩
    · by_cases hfirst : item.1 = first.1
      · rw [hfirst] at hbad
        exact .inr ⟨first, List.mem_cons_self, badAt_of_settleItem hbad⟩
      · have hsame : (settleItem context types first.1).2.get? item.1 = types.get? item.1 :=
          get?_settleItem hfirst (hrest.ne_push hitem first.1)
        exact .inr ⟨item, List.mem_cons_of_mem _ hitem, (badAt_congr hsame).1 hbad⟩

/-- The contents of items are not changed. -/
theorem forall_mem_settle {p : List Node → Prop} (h : ∀ item ∈ items, p item.2) :
    ∀ item ∈ (settle context types items).1, p item.2 := by
  induction items generalizing types with
  | nil => exact List.forall_mem_nil _
  | cons item items ih =>
    rw [List.forall_mem_cons] at h
    rw [settle_cons]
    exact List.forall_mem_cons.2 ⟨h.1, ih h.2⟩

theorem isLoose_textType (context : Option Context) (type : String) :
    (textType context type).any Node.isLoose = false := by
  cases context <;> rfl

/-- An item cannot be shown exactly if its type is more than a text and has loose text in it. -/
theorem paragraph_eq_none_iff (h : item.2.any Node.isLoose = false) :
    paragraph context types item = none ↔
      LooseAt types item.1 := by
  have hcontent : (if item.2.any fun n => !allBlank n.plainText.toList then
      .text " -- " :: item.2 else []).any Node.isLoose = false := by
    split
    · simpa using h
    · rfl
  unfold paragraph LooseAt
  dsimp only
  rw [Option.map_eq_none_iff, Node.attach_eq_none_iff, List.any_append, hcontent]
  cases types.get? item.1 with
  | none => simp
  | some nodes =>
    cases htext : onlyText? nodes with
    | none => simp [htext]
    | some s =>
      obtain rfl : nodes = [.text s] := eq_of_onlyText? htext
      have htype := isLoose_textType context s
      simp_all

/-- Items cannot be shown exactly if one of them cannot: a type that is used up is not needed
again. -/
theorem paragraphs_eq_none_iff (h : ∀ item ∈ items, item.2.any Node.isLoose = false) :
    paragraphs context types items = none ↔ ∃ item ∈ items, LooseAt types item.1 := by
  induction items generalizing types with
  | nil => simp [paragraphs]
  | cons item items ih =>
    rw [List.forall_mem_cons] at h
    have hfirst : paragraph context types item = none ↔ _ := paragraph_eq_none_iff h.1
    rw [List.exists_mem_cons_iff, ← hfirst, paragraphs]
    cases hparagraph : paragraph context types item with
    | none => simp
    | some p =>
      obtain ⟨node, -, rfl⟩ := Option.map_eq_some_iff.1 hparagraph
      have hclean : ¬ LooseAt types item.1 := fun hloose => by
        rw [hfirst.2 hloose] at hparagraph
        cases hparagraph
      have herase : ∀ name, LooseAt (types.erase item.1) name ↔ LooseAt types name := by
        intro name
        by_cases hname : item.1 = name
        · subst hname
          simp [LooseAt, Table.get?_erase] at hclean ⊢
          exact hclean
        · exact looseAt_congr (by rw [Table.get?_erase, if_neg hname])
      have hrest : paragraphs context (types.erase item.1) items = none ↔ _ := ih h.2
      simp only [herase] at hrest
      rw [or_iff_right (Option.some_ne_none _), ← hrest]
      cases hmore : paragraphs context (types.erase item.1) items with
      | none => simp [hmore]
      | some more => simp [hmore]

/-- **The field of parameters or results cannot be made exactly if the type of an item, as it is
shown, is crowded**; without a context types stay texts. -/
theorem make_eq_none_iff (group : Group) (hitems : Unmarked items)
    (hcontents : ∀ item ∈ items, item.2.any Node.isLoose = false)
    (htypes : ∀ name nodes, types.get? name = some nodes → nodes.any Node.isLoose = false) :
    make group context types items = none ↔ context.isSome = true ∧ ∃ item ∈ items,
      ∃ type, givenType? types item.1 = some type ∧
        TypeExpr.crowded (shownType type) = true := by
  have hmake : make group context types items = none ↔
      paragraphs context (settle context types items).2 (settle context types items).1 = none := by
    unfold make
    dsimp only
    cases paragraphs context (settle context types items).2 (settle context types items).1 with
    | none => simp
    | some p => simp
  have hclean : ∀ name, ¬ LooseAt types name := by
    rintro name ⟨nodes, hnodes, hloose⟩
    rw [htypes name nodes hnodes] at hloose
    cases hloose
  have hbad : ∀ item : String × List Node, BadAt context types item.1 ↔
      context.isSome = true ∧ ∃ type, givenType? types item.1 = some type ∧
        TypeExpr.crowded (shownType type) = true := fun item => or_iff_right (hclean item.1)
  have hsettled : ∀ item ∈ (settle context types items).1, item.2.any Node.isLoose = false :=
    forall_mem_settle (p := fun content => content.any Node.isLoose = false) hcontents
  rw [hmake, paragraphs_eq_none_iff hsettled]
  constructor
  · rintro ⟨settled, -, hloose⟩
    obtain ⟨item, hitem, h⟩ := (of_looseAt_settle hitems hloose).resolve_left (hclean _)
    obtain ⟨hcontext, hcrowded⟩ := (hbad item).1 h
    exact ⟨hcontext, item, hitem, hcrowded⟩
  · rintro ⟨hcontext, item, hitem, hcrowded⟩
    exact exists_looseAt_settle hitems hitem ((hbad item).2 ⟨hcontext, hcrowded⟩)

end Field

/-- **A type can be shown, alone, in a list and in a field, exactly if no two characters without a
role follow each other in it.** -/
theorem TypeExpr.shown_iff_not_crowded (context : Context) (w : Writer) (type : String) :
    (crowded type = true ↔
      ∃ before c d after, Token.lex type.toList = before ++ .other c :: .other d :: after) ∧
    (type.toList.countP isStray ≤ 1 → crowded type = false) ∧
    ((∀ node ∈ display context type, node.isLoose = false) ↔ crowded type = false) ∧
    (w.type type = none ↔ crowded type = true) ∧
    (∀ items brackets optionals, w.params items brackets optionals = none ↔
      ∃ p ∈ items, crowded (if optionals then Writer.optionalName p else p).type = true) ∧
    (∀ items brackets, w.types items brackets = none ↔ ∃ type ∈ items, crowded type = true) ∧
    ∀ group context types items, Field.Unmarked items →
      (∀ item ∈ items, item.2.any Node.isLoose = false) →
      (∀ name nodes, types.get? name = some nodes → nodes.any Node.isLoose = false) →
      (Field.make group context types items = none ↔ context.isSome = true ∧ ∃ item ∈ items,
        ∃ type, Field.givenType? types item.1 = some type ∧
          crowded (Field.shownType type) = true) := by
  refine ⟨Token.crowded_iff, not_crowded_of_countP, ?_, w.type_eq_none_iff type,
    w.params_eq_none_iff, w.types_eq_none_iff, ?_⟩
  · rw [← any_isLoose_display context type]
    simp
  · intro group context types items hitems hcontents htypes
    exact Field.make_eq_none_iff group hitems hcontents htypes

/-- Two currency signs are loose text, and a field with them as a type cannot be made. -/
theorem TypeExpr.loose_two_signs :
    crowded "€€" = true ∧ (∃ node ∈ display .empty "€€", node.isLoose = true) ∧
      Field.make .parameters (some .empty) [("x", [.text "€€?"])] [("x", [.text "text"])] =
        none := by
  obtain ⟨hiff, -, hdisplay, -, -, -, hmake⟩ :=
    shown_iff_not_crowded .empty ⟨none, .empty, [], []⟩ "€€"
  have hnext : ∀ r, Token.next '€' r = (.other '€', r) :=
    Token.next_of_isStray (by simp [isStray, Token.isSymbol]; decide +kernel) (by decide)
      (by decide)
  have hsigns : crowded "€€" = true := by
    refine hiff.2 ⟨[], '€', '€', [], ?_⟩
    have hblank : isBlank '€' = false := by decide
    simp [Token.lex, hblank, hnext]
  refine ⟨hsigns, ?_, ?_⟩
  · by_contra hnone
    have hclean := hdisplay.1 fun node hnode =>
      Bool.eq_false_iff.2 fun hloose => hnone ⟨node, hnode, hloose⟩
    rw [hsigns] at hclean
    cases hclean
  · refine (hmake _ _ _ _ ?_ ?_ ?_).2
      ⟨rfl, ("x", [.text "text"]), List.mem_cons_self, "€€?", rfl, ?_⟩
    · simp [Field.Unmarked]
    · simp
    · intro name nodes hnodes
      obtain ⟨-, rfl⟩ : "x" = name ∧ [Node.text "€€?"] = nodes := by
        simpa [Table.get?] using hnodes
      rfl
    · exact hsigns

end LuaDocs
