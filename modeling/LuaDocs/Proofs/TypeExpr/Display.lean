import LuaDocs.Proofs.TypeExpr.Spacing
import LuaDocs.TypeExpr.Display

/-!
# What the nodes of a type expression show

The nodes of a token show the normal form of the token, with one exception: they have a blank before
an ampersand, which the normal form has not. A reference shows its name, because a dotted name has
none of the signs with which a role gives a reference a title of its own, shortens it or takes it
away. So the nodes of a type expression show its normal form exactly if there is no ampersand among
its tokens.
-/

namespace LuaDocs

open Text

/-! ### The text of nodes -/

namespace Node

/-- The text of nodes that stand one after the other. -/
def textOf (nodes : List Node) : String := String.join (nodes.map plainText)

@[simp] theorem textOf_nil : textOf [] = "" := rfl

@[simp] theorem textOf_cons (n : Node) (nodes : List Node) :
    textOf (n :: nodes) = n.plainText ++ textOf nodes := by
  simp [textOf]

@[simp] theorem textOf_append (a b : List Node) : textOf (a ++ b) = textOf a ++ textOf b := by
  simp [textOf]

@[simp] theorem plainText_text (s : String) : (Node.text s).plainText = s := by
  rw [plainText]

@[simp] theorem plainText_loose (s : String) : (Node.loose s).plainText = s := by
  rw [plainText]

@[simp] theorem plainText_element (kind : Element) (children : List Node) :
    (Node.element kind children).plainText = textOf children := by
  rw [plainText, textOf, List.map_attach_eq_pmap]
  simp

@[simp] theorem plainText_holding (kind : Element) (s : String) :
    (holding kind s).plainText = s := by
  rw [holding, plainText_element]
  split
  · next h => exact (String.isEmpty_iff.1 h).symm
  · simp

@[simp] theorem plainText_leaf (tag : Tag) (s : String) : (leaf tag s).plainText = s :=
  plainText_holding (.plain tag) s

@[simp] theorem plainText_punctuation (s : String) : (punctuation s).plainText = s :=
  plainText_leaf .sigPunctuation s

@[simp] theorem plainText_space : space.plainText = " " := plainText_leaf .sigSpace " "

end Node

/-! ### Dotted names -/

namespace TypeExpr

/-- A dotted name: it is made of the characters of names and of dots, and does not start with a
dot. -/
structure IsDotted (name : List Char) : Prop where
  chars : ∀ c ∈ name, isNameChar c = true ∨ c = '.'
  head : ∀ c ∈ name.head?, isNameChar c = true

variable {name : List Char}

/-- No sign outside names is in a dotted name. -/
theorem IsDotted.not_mem (h : IsDotted name) {c : Char} (hc : isNameChar c = false)
    (hdot : c ≠ '.') : c ∉ name := by
  intro hmem
  rcases h.chars c hmem with hname | rfl
  · rw [hc] at hname
    cases hname
  · exact hdot rfl

theorem IsDotted.head?_ne (h : IsDotted name) {c : Char} (hc : isNameChar c = false) :
    name.head? ≠ some c := by
  intro hhead
  have hname := h.head c hhead
  rw [hc] at hname
  cases hname

end TypeExpr

/-! ### References to dotted names -/

variable {s : List Char}

theorem Text.replaceAll_of_not_mem {c : Char} (part by_ : List Char) (h : c ∉ s) :
    replaceAll (c :: part) by_ s = s := by
  induction s with
  | nil => rw [replaceAll]
  | cons d s ih =>
    rw [List.mem_cons, not_or] at h
    have hne : (c == d) = false := beq_eq_false_iff_ne.2 h.1
    rw [replaceAll, ih h.2]
    simp [List.isPrefixOf, hne]

namespace Role

theorem unescape_of_not_mem (h : escapeMark ∉ s) : unescape s = s := by
  rw [unescape, replaceAll_of_not_mem _ _ h, replaceAll_of_not_mem _ _ h, List.filter_eq_self]
  intro c hc
  rw [bne_iff_ne]
  rintro rfl
  exact h hc

theorem cutAngle_of_not_mem (before : List Char) (h : '<' ∉ s) : cutAngle before s = none := by
  induction s generalizing before with
  | nil => rfl
  | cons c s ih =>
    rw [List.mem_cons, not_or] at h
    have hne : (c == '<') = false := beq_eq_false_iff_ne.2 (Ne.symm h.1)
    rw [cutAngle, hne]
    exact ih _ h.2

theorem implicit_fst_of_head (hdot : s.head? ≠ some '.') (htilde : s.head? ≠ some '~') :
    (implicit s).1 = s := by
  cases s with
  | nil => rfl
  | cons c s =>
    have hne : (c == '.') = false := beq_eq_false_iff_ne.2 fun h => hdot (congrArg some h)
    have htitle : (c :: s).dropWhile (fun c => c == '.') = c :: s := by
      rw [List.dropWhile_cons, hne]
      rfl
    simp only [implicit, htitle]
    split
    · next t heq => exact absurd (congrArg List.head? heq) htilde
    · rfl

/-- **A role shows a dotted name as it is.** -/
theorem plainText_render (h : TypeExpr.IsDotted s) (context : Context) (style : Style)
    (role : String) :
    (render context style role (String.ofList s)).plainText = String.ofList s := by
  have hmark : escapeMark ∉ s := h.not_mem (by decide +kernel) (by decide)
  have hangle : '<' ∉ s := h.not_mem (by decide +kernel) (by decide)
  have htitle : (implicit s).1 = s :=
    implicit_fst_of_head (h.head?_ne isNameChar_dot) (h.head?_ne (by decide +kernel))
  have hexplicit : explicit? s = none := by
    rw [explicit?, cutAngle_of_not_mem [] hangle]
  unfold render
  simp only [String.toList_ofList]
  split
  · next rest => exact absurd rfl (h.head?_ne (c := '!') (by decide +kernel))
  · rw [hexplicit]
    simp [unescape_of_not_mem hmark, htitle]

end Role

namespace TypeExpr

namespace Token

/-! ### The names of references -/

theorem isNameChar_of_mem_takeWhile {c : Char} {s : List Char} (h : c ∈ s.takeWhile isNameChar) :
    isNameChar c = true :=
  List.all_eq_true.1 List.all_takeWhile c h

theorem exists_name_component (before s : List Char) :
    ∃ more, (component before s).name = before ++ (s.takeWhile isNameChar ++ more) ∧
      ∀ c ∈ more, isNameChar c = true ∨ c = '.' :=
  ⟨[], by simp [component], List.forall_mem_nil _⟩

/-- The name at a stop starts with the first component, and dots and names follow. -/
theorem exists_name_of_mem_stops {before s : List Char} {stop : Stop} (h : stop ∈ stops before s) :
    ∃ more, stop.name = before ++ (s.takeWhile isNameChar ++ more) ∧
      ∀ c ∈ more, isNameChar c = true ∨ c = '.' := by
  fun_induction stops before s with
  | case1 before s own r hr hnil =>
    obtain rfl := List.mem_singleton.1 h
    exact exists_name_component before s
  | case2 before s own r hr c t hc hword ih =>
    rcases List.mem_cons.1 h with rfl | h
    · exact exists_name_component before s
    · obtain ⟨more, hname, hmore⟩ := ih h
      refine ⟨'.' :: ((c :: t).takeWhile isNameChar ++ more), ?_, ?_⟩
      · rw [hname]
        simp [own, component]
      · refine List.forall_mem_cons.2 ⟨.inr rfl, List.forall_mem_append.2 ⟨?_, hmore⟩⟩
        exact fun d hd => .inl (isNameChar_of_mem_takeWhile hd)
  | case3 before s own r hr c t hc hword =>
    obtain rfl := List.mem_singleton.1 h
    exact exists_name_component before s
  | case4 before s own hr =>
    obtain rfl := List.mem_singleton.1 h
    exact exists_name_component before s

theorem isDotted_of_reference? {c : Char} {r name : List Char} {n : Nat} {p : Token × List Char}
    (hc : isWord c = true) (h : reference? (c :: r) = some p) (hp : p.1 = .reference name n) :
    IsDotted name := by
  have hnameChar : isNameChar c = true := by simp [isNameChar, hc]
  obtain ⟨stop, hstop, rfl⟩ := Option.map_eq_some_iff.1 h
  obtain ⟨rfl, -⟩ := Token.reference.inj hp
  obtain ⟨more, hname, hmore⟩ :=
    exists_name_of_mem_stops (List.mem_reverse.1 (List.mem_of_find?_eq_some hstop))
  rw [hname, List.nil_append]
  constructor
  · refine List.forall_mem_append.2 ⟨?_, hmore⟩
    exact fun d hd => .inl (isNameChar_of_mem_takeWhile hd)
  · intro d hd
    obtain rfl : c = d := by simpa [hnameChar] using hd
    exact hnameChar

theorem isDotted_of_next {c : Char} {r name : List Char} {n : Nat}
    (h : (next c r).1 = .reference name n) : IsDotted name := by
  unfold next at h
  split at h
  · cases h
  split at h
  · cases h
  split at h
  · cases h
  split at h
  · cases h
  split at h
  · next hword =>
    cases href : reference? (c :: r) with
    | none =>
      rw [href, Option.getD_none, readLabel] at h
      split at h <;> cases h
    | some p =>
      rw [href, Option.getD_some] at h
      exact isDotted_of_reference? hword href h
  split at h
  · cases h
  split at h
  · cases h
  split at h
  · cases h
  split at h <;> cases h

/-- References have dotted names. -/
theorem isDotted_of_mem_lex {s : List Char} {n : Nat} (h : .reference name n ∈ lex s) :
    IsDotted name := by
  fun_induction lex s with
  | case1 => cases h
  | case2 c r hc ih => exact ih h
  | case3 c r hc token ih =>
    rcases List.mem_cons.1 h with h | h
    · exact isDotted_of_next h.symm
    · exact ih h

/-! ### What tokens show -/

/-- What the nodes of a token show: its normal form, with a blank before an ampersand. -/
def shown (token : Token) : List Char :=
  if token = .separator '&' then ' ' :: token.normal else token.normal

/-- What one token adds to the text. -/
theorem textOf_display (context : Context) (before : List Node) {token : Token}
    (h : ∀ name n, token = .reference name n → IsDotted name) :
    Node.textOf (token.display context before) =
      Node.textOf before ++ String.ofList token.shown := by
  cases token with
  | reference name n =>
    have hname := Role.plainText_render (h name n rfl) context .literal "_auto"
    have hmarks : Node.textOf (if n = 0 then []
        else [.punctuation (String.ofList (List.replicate n '?'))]) =
        String.ofList (List.replicate n '?') := by
      cases n <;> simp
    simp [display, shown, normal, hname, hmarks]
  | separator sign =>
    simp only [display, shown, normal, separator.injEq]
    by_cases hamp : sign = '&'
    · subst hamp
      simp
    · by_cases hspaced : (sign == '=' || sign == '|') = true
      · simp [hamp, hspaced]
      · simp [hamp, hspaced]
  | other char =>
    simp only [display]
    split
    · next s hlast =>
      -- the character goes into the text node at the end
      obtain ⟨nodes, rfl⟩ := List.getLast?_eq_some_iff.1 hlast
      rw [← String.toList_inj]
      simp [shown, normal]
    · simp [shown, normal]
  | _ => simp [display, shown, normal]

/-- What tokens add to the text. -/
theorem textOf_foldl_display (context : Context) (before : List Node) {tokens : List Token}
    (h : ∀ name n, .reference name n ∈ tokens → IsDotted name) :
    Node.textOf (tokens.foldl (display context) before) =
      Node.textOf before ++ String.ofList (tokens.flatMap shown) := by
  induction tokens generalizing before with
  | nil => simp
  | cons token tokens ih =>
    have hrest : ∀ name n, .reference name n ∈ tokens → IsDotted name :=
      fun name n hmem => h name n (List.mem_cons_of_mem _ hmem)
    have htoken : ∀ name n, token = .reference name n → IsDotted name :=
      fun name n heq => h name n (heq ▸ List.mem_cons_self)
    rw [List.foldl_cons, ih _ hrest, textOf_display context before htoken]
    simp [String.append_assoc]

theorem length_flatMap_shown (tokens : List Token) : (tokens.flatMap shown).length =
    (tokens.flatMap normal).length + tokens.count (.separator '&') := by
  induction tokens with
  | nil => rfl
  | cons token tokens ih =>
    rw [List.flatMap_cons, List.length_append, ih, List.flatMap_cons, List.length_append,
      List.count_cons]
    by_cases hamp : token = .separator '&'
    · simp only [shown, hamp, if_pos, List.length_cons, beq_self_eq_true]
      omega
    · simp only [shown, hamp, beq_iff_eq, if_false]
      omega

/-- Only ampersands are shown in another way than in a normal form. -/
theorem flatMap_shown_eq_iff {tokens : List Token} :
    tokens.flatMap shown = tokens.flatMap normal ↔ .separator '&' ∉ tokens := by
  constructor
  · intro heq
    have hlength := length_flatMap_shown tokens
    rw [heq] at hlength
    rw [← List.count_eq_zero]
    omega
  · intro hnone
    induction tokens with
    | nil => rfl
    | cons token tokens ih =>
      rw [List.mem_cons, not_or] at hnone
      rw [List.flatMap_cons, List.flatMap_cons, ih hnone.2, shown, if_neg (Ne.symm hnone.1)]

end Token

/-- **The nodes of a type expression show its tokens, and its normal form exactly if there is no
ampersand among them.** -/
theorem textOf_display_eq_normalize_iff (context : Context) (type : String) :
    Node.textOf (display context type) =
        String.ofList ((Token.lex type.toList).flatMap Token.shown) ∧
      (Node.textOf (display context type) = normalize type ↔
        .separator '&' ∉ Token.lex type.toList) := by
  have htext : Node.textOf (display context type) =
      String.ofList ((Token.lex type.toList).flatMap Token.shown) := by
    rw [display, Token.textOf_foldl_display context [] fun name n => Token.isDotted_of_mem_lex]
    simp
  refine ⟨htext, ?_⟩
  rw [htext, normalize, normalizeChars, String.ofList_inj, Token.flatMap_shown_eq_iff]

example : normalize "A & B" = "A& B" := by decide +kernel

end TypeExpr

end LuaDocs
