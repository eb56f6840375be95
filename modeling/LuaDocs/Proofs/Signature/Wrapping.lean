import LuaDocs.Heading

/-!
# Signatures in lines

A list that is too long for one line is broken, and the first list that is broken turns all that
was written before it into the first line of the signature. What is written does not change by
that: when lines are joined and indentations are left out, a signature has the nodes that it has
without a limit, whatever is written and however often it is broken.

Two signatures that are written side by side, the one with a limit and the other without, are
related by `Writer.Wraps`. A step of writing preserves the relation, and so does a run.

## Main results

* `Writer.Wraps.apply`, `Writer.Wraps.run`: what a step and a run preserve
* `Writer.unwrapped_run`: the nodes of a signature do not depend on the limit
* `Heading.unwrapped_write`: what the heading of an object is with a limit
-/

namespace LuaDocs

variable {nodes : List Node}

/-! ### Lines of nodes -/

namespace Node

/-- A line of a signature. -/
def isLine : Node → Bool
  | .element (.signatureLine _) _ => true
  | _ => false

/-- A line with the permalink. -/
def hasPermalink : Node → Bool
  | .element (.signatureLine (some true)) _ => true
  | _ => false

mutual

/-- What a node stands for when lines are joined and indentations are left out, -/
def unwrap : Node → List Node
  | .element (.signatureLine _) children => unwrapped children
  | .element (.plain .sigIndent) _ => []
  | node => [node]

/-- and what nodes stand for. -/
def unwrapped : List Node → List Node
  | [] => []
  | node :: rest => node.unwrap ++ unwrapped rest

end

/-- The node is neither a line nor an indentation. -/
def IsWhole (node : Node) : Prop := node.unwrap = [node]

@[simp] theorem unwrapped_append (a b : List Node) :
    unwrapped (a ++ b) = unwrapped a ++ unwrapped b := by
  induction a with
  | nil => rfl
  | cons node rest ih => rw [List.cons_append, unwrapped, unwrapped, ih, List.append_assoc]

theorem unwrapped_singleton (node : Node) : unwrapped [node] = node.unwrap := by
  simp [unwrapped]

theorem unwrapped_of_isWhole (h : ∀ node ∈ nodes, node.IsWhole) :
    unwrapped nodes = nodes := by
  induction nodes with
  | nil => rfl
  | cons node rest ih =>
    rw [unwrapped, h node List.mem_cons_self,
      ih fun other hother => h other (List.mem_cons_of_mem node hother)]
    rfl

theorem isWhole_plain {tag : Tag} (h : tag ≠ .sigIndent) (children : List Node) :
    (plain tag children).IsWhole := by
  unfold IsWhole plain unwrap
  split
  · next heq => cases heq
  · next heq => exact absurd (by cases heq; rfl) h
  · rfl

theorem isWhole_leaf {tag : Tag} (h : tag ≠ .sigIndent) (s : String) : (leaf tag s).IsWhole :=
  isWhole_plain h _

@[simp] theorem isWhole_space : space.IsWhole := isWhole_leaf (by decide) _

@[simp] theorem isWhole_punctuation (s : String) : (punctuation s).IsWhole :=
  isWhole_leaf (by decide) s

end Node

namespace Writer

/-! ### Steps of writing -/

/-- What can be written. Names, signs, blanks, literals, indentations and references are nodes that
are added. -/
inductive Step where
  | add (node : Node)
  | newLine
  | type (s : String)
  | params (items : List TypedName) (brackets : Option (String × String)) (optionals : Bool)
  | types (items : List String) (brackets : Option (String × String))

namespace Step

/-- Writes one thing. -/
def apply (w : Writer) : Step → Option Writer
  | add node => some (w.add node)
  | newLine => some w.newLine
  | type s => w.type s
  | params items brackets optionals => w.params items brackets optionals
  | types items brackets => w.types items brackets

/-- A list is written with brackets. -/
def isBracketed : Step → Bool
  | params _ brackets _ | types _ brackets => brackets.isSome
  | _ => true

/-- A line is broken. -/
def breaks (w : Writer) : Step → Bool
  | newLine => true
  | params items _ _ => w.breaks (listLength estimate items)
  | types items _ => w.breaks (listLength String.length items)
  | _ => false

/-- Neither a line break nor a line or an indentation is asked for. -/
def IsWhole : Step → Prop
  | add node => node.IsWhole
  | newLine => False
  | _ => True

end Step

/-- Writes one thing after the other. -/
def run (w : Writer) (steps : List Step) : Option Writer := steps.foldlM Step.apply w

/-! ### What is written -/

/-- What was written, with lines joined and indentations left out. -/
def content (w : Writer) : List Node := Node.unwrapped (w.finished.flatten ++ w.line)

theorem content_add (w : Writer) (node : Node) :
    (w.add node).content = w.content ++ node.unwrap := by
  simp [content, add, Node.unwrapped_singleton]

theorem content_newLine (w : Writer) : w.newLine.content = w.content := by
  simp [content, newLine]

theorem isMultiline_newLine (w : Writer) : w.newLine.isMultiline = true := by
  simp [isMultiline, newLine]

theorem unwrapped_laterLines (w : Writer) (lines : List (List Node)) :
    Node.unwrapped (w.laterLines lines) = Node.unwrapped (lines.flatten ++ w.line) := by
  induction lines with
  | nil => simp [laterLines, Node.unwrapped, Node.unwrap]
  | cons line lines ih => simp [laterLines, Node.unwrapped, Node.unwrap, ih]

/-- The children of a signature hold what was written. -/
theorem unwrapped_nodes (w : Writer) : Node.unwrapped w.nodes = w.content := by
  unfold nodes content
  split
  · next h => simp [h]
  · next first rest h => simp [h, Node.unwrapped, Node.unwrap, unwrapped_laterLines]

theorem isLine_of_mem_laterLines {w : Writer} {lines : List (List Node)} {node : Node}
    (h : node ∈ w.laterLines lines) : node.isLine = true := by
  induction lines with
  | nil => rw [List.mem_singleton.1 h]; rfl
  | cons line lines ih =>
    rcases List.mem_cons.1 h with rfl | h
    · rfl
    · exact ih h

theorem map_hasPermalink_laterLines (w : Writer) (lines : List (List Node)) :
    (w.laterLines lines).map Node.hasPermalink = List.replicate lines.length false ++ [true] := by
  induction lines with
  | nil => rfl
  | cons line lines ih =>
    rw [laterLines, List.map_cons, ih]
    rfl

/-- The children of a signature that was broken are lines, and the last one has the permalink. -/
theorem nodes_of_isMultiline {w : Writer} (h : w.isMultiline = true) :
    (∀ node ∈ w.nodes, node.isLine = true) ∧
      w.nodes.map Node.hasPermalink = List.replicate w.finished.length false ++ [true] := by
  unfold nodes
  split
  · next hnil =>
    rw [isMultiline, hnil] at h
    cases h
  · next first rest hlines =>
    constructor
    · intro node hnode
      rcases List.mem_cons.1 hnode with rfl | hnode
      · rfl
      · exact isLine_of_mem_laterLines hnode
    · rw [List.map_cons, map_hasPermalink_laterLines, hlines]
      rfl

/-! ### With and without a limit -/

section Results

variable {r r' : Writer → Writer → Prop} {x y : Option Writer} {f g : Writer → Option Writer}

/-- Related results go on to related results. -/
theorem rel_bind (h : Option.Rel r x y) (hnext : ∀ w v, r w v → Option.Rel r' (f w) (g v)) :
    Option.Rel r' (x >>= f) (y >>= g) := by
  cases h with
  | none => exact .none
  | some h => exact hnext _ _ h

theorem exists_of_rel (h : Option.Rel r x y) {w : Writer} (hw : x = some w) :
    ∃ v, y = some v ∧ r w v := by
  cases h with
  | none => cases hw
  | some h => exact ⟨_, rfl, Option.some.inj hw ▸ h⟩

theorem isSome_eq_of_rel (h : Option.Rel r x y) : x.isSome = y.isSome := by
  cases h <;> rfl

end Results

/-- The same was written on both sides, on the right without a limit. The left side breaks lists as
`start` does and is `broken` if a line was broken there. If all that is written is `plain`, the
right side is one line without indentations. -/
structure Wraps (start : Writer) (plain : Prop) (broken : Bool) (w v : Writer) : Prop where
  breaks_eq : w.breaks = start.breaks
  unlimited : v.limit = none
  context_eq : w.context = v.context
  content_eq : w.content = v.content
  isMultiline_eq : w.isMultiline = broken
  one_line : plain → v.finished = [] ∧ ∀ node ∈ v.line, node.IsWhole

namespace Wraps

variable {start w v : Writer} {plain : Prop} {broken : Bool}

theorem add (h : Wraps start plain broken w v) {node : Node} (hnode : plain → node.IsWhole) :
    Wraps start plain broken (w.add node) (v.add node) where
  breaks_eq := h.breaks_eq
  unlimited := h.unlimited
  context_eq := h.context_eq
  content_eq := by rw [content_add, content_add, h.content_eq]
  isMultiline_eq := h.isMultiline_eq
  one_line hplain := by
    obtain ⟨hfinished, hline⟩ := h.one_line hplain
    refine ⟨hfinished, fun other hother => ?_⟩
    rcases List.mem_append.1 hother with hother | hother
    · exact hline other hother
    · rw [List.mem_singleton.1 hother]
      exact hnode hplain

/-- A line break on the left is not seen on the right, -/
theorem newLine (h : Wraps start plain broken w v) : Wraps start plain true w.newLine v where
  breaks_eq := h.breaks_eq
  unlimited := h.unlimited
  context_eq := h.context_eq
  content_eq := by rw [content_newLine, h.content_eq]
  isMultiline_eq := isMultiline_newLine w
  one_line := h.one_line

/-- nor is an indentation. -/
theorem indent (h : Wraps start plain broken w v) : Wraps start plain broken w.indent v where
  breaks_eq := h.breaks_eq
  unlimited := h.unlimited
  context_eq := h.context_eq
  content_eq := by
    have hindent : (Node.leaf .sigIndent "    ").unwrap = [] := by
      simp [Node.leaf, Node.plain, Node.unwrap]
    rw [Writer.indent, content_add, hindent, List.append_nil, h.content_eq]
  isMultiline_eq := h.isMultiline_eq
  one_line := h.one_line

theorem newLine_newLine (h : Wraps start plain broken w v) (hplain : ¬ plain) :
    Wraps start plain true w.newLine v.newLine where
  breaks_eq := h.breaks_eq
  unlimited := h.unlimited
  context_eq := h.context_eq
  content_eq := by rw [content_newLine, content_newLine, h.content_eq]
  isMultiline_eq := isMultiline_newLine w
  one_line hp := absurd hp hplain

theorem space (h : Wraps start plain broken w v) :
    Wraps start plain broken w.space v.space := h.add fun _ => Node.isWhole_space

theorem punctuation (h : Wraps start plain broken w v) (s : String) :
    Wraps start plain broken (w.punctuation s) (v.punctuation s) :=
  h.add fun _ => Node.isWhole_punctuation s

theorem type (h : Wraps start plain broken w v) (s : String) :
    Option.Rel (Wraps start plain broken) (w.type s) (v.type s) := by
  unfold Writer.type Node.attach
  rw [h.context_eq]
  split
  · exact .none
  · exact .some (h.add fun _ => Node.isWhole_plain (by decide) _)

theorem typedName (h : Wraps start plain broken w v) (p : TypedName) :
    Option.Rel (Wraps start plain broken) (w.typedName p) (v.typedName p) := by
  unfold Writer.typedName
  cases p.name.isEmpty <;> cases p.type.isEmpty
  · have hname : Wraps start plain broken (w.add (.leaf .sigName p.name))
        (v.add (.leaf .sigName p.name)) := h.add fun _ => Node.isWhole_leaf (by decide) p.name
    exact ((hname.punctuation ":").space).type p.type
  · exact .some (h.add fun _ => Node.isWhole_leaf (by decide) p.name)
  · exact h.type p.type
  · exact .some h

section Lists

variable {α : Type} {write : Writer → α → Option Writer}
  (hwrite : ∀ {broken w v}, Wraps start plain broken w v →
    ∀ a, Option.Rel (Wraps start plain broken) (write w a) (write v a))

include hwrite

/-- Elements that have lines of their own on the left. -/
theorem elements (h : Wraps start plain broken w v) (breaking : Bool) (items : List α) :
    Option.Rel (Wraps start plain (broken || breaking && !items.isEmpty))
      (Writer.elements write breaking w items) (Writer.elements write false v items) := by
  induction items generalizing broken w v with
  | nil => simpa [Writer.elements] using h
  | cons a rest ih =>
    have hstart : Wraps start plain (broken || breaking)
        (if breaking then w.newLine.indent else w) v := by
      cases breaking with
      | false => simpa using h
      | true => simpa using h.newLine.indent
    -- the right side writes no line breaks, so only the left side has something before the element
    rw [Writer.elements, Writer.elements]
    refine rel_bind (hwrite hstart a) fun w' v' h' => ?_
    cases rest with
    | nil => simpa [Writer.elements] using h'
    | cons b rest => simpa [Bool.or_assoc] using ih (h'.punctuation ",").space

/-- A list that has brackets or is not broken. -/
theorem list (h : Wraps start plain broken w v) (estimate : Nat) (items : List α)
    {brackets : Option (String × String)}
    (hbrackets : brackets.isSome = true ∨ start.breaks estimate = false) :
    Option.Rel (Wraps start plain (broken || start.breaks estimate))
      (Writer.list write estimate w items brackets)
      (Writer.list write estimate v items brackets) := by
  have hv : v.breaks estimate = false := by rw [Writer.breaks, h.unlimited]
  unfold Writer.list
  rw [hv, h.breaks_eq]
  cases brackets with
  | none =>
    have hbreaks : start.breaks estimate = false := by simpa using hbrackets
    rw [hbreaks]
    refine rel_bind (elements hwrite h false items) fun w' v' h' => ?_
    simpa using h'
  | some b =>
    cases hbreaks : start.breaks estimate with
    | false =>
      refine rel_bind (elements hwrite (h.punctuation b.1) false items) fun w' v' h' => .some ?_
      simpa using h'.punctuation b.2
    | true =>
      refine rel_bind (elements hwrite (h.punctuation b.1) true items) fun w' v' h' => .some ?_
      simpa using h'.newLine.punctuation b.2

end Lists

theorem unwrapped_eq (h : Wraps start plain broken w v) :
    Node.unwrapped w.nodes = Node.unwrapped v.nodes := by
  rw [unwrapped_nodes, unwrapped_nodes, h.content_eq]

/-- Without a limit there is nothing to join or to leave out. -/
theorem unwrapped_eq_nodes (h : Wraps start plain broken w v) (hplain : plain) :
    Node.unwrapped w.nodes = v.nodes := by
  obtain ⟨hfinished, hline⟩ := h.one_line hplain
  have hnodes : v.nodes = v.line := by rw [nodes, hfinished]
  rw [h.unwrapped_eq, hnodes, Node.unwrapped_of_isWhole hline]

/-- **What one step does**: the two sides write the same, or both write nothing. -/
theorem apply (h : Wraps start plain broken w v) {s : Step}
    (hs : s.isBracketed = true ∨ s.breaks start = false) (hplain : plain → s.IsWhole) :
    Option.Rel (Wraps start plain (broken || s.breaks start)) (s.apply w) (s.apply v) := by
  cases s with
  | add node => simpa [Step.breaks, Step.apply] using h.add hplain
  -- a line break that is asked for is made on both sides, so the right side is not one line then
  | newLine => simpa [Step.breaks, Step.apply] using h.newLine_newLine hplain
  | type s => simpa [Step.breaks, Step.apply] using h.type s
  | params items brackets optionals =>
    exact list (fun h p => h.typedName (if optionals then optionalName p else p)) h _ items hs
  | types items brackets =>
    refine list (fun h s => ?_) h _ items hs
    split
    · exact .some h
    · exact h.type s

/-- **What a run does**, by induction on the steps. -/
theorem run (h : Wraps start plain broken w v) {steps : List Step}
    (hsteps : ∀ s ∈ steps, s.isBracketed = true ∨ s.breaks start = false)
    (hplain : plain → ∀ s ∈ steps, s.IsWhole) :
    Option.Rel (Wraps start plain (broken || steps.any fun s => s.breaks start))
      (w.run steps) (v.run steps) := by
  induction steps generalizing broken w v with
  | nil => simpa [Writer.run] using h
  | cons s steps ih =>
    rw [Writer.run, Writer.run, List.foldlM_cons, List.foldlM_cons, List.any_cons,
      ← Bool.or_assoc]
    refine rel_bind (h.apply (hsteps s List.mem_cons_self)
      fun hp => hplain hp s List.mem_cons_self) fun w' v' h' => ?_
    exact ih h' (fun t ht => hsteps t (List.mem_cons_of_mem s ht))
      fun hp t ht => hplain hp t (List.mem_cons_of_mem s ht)

end Wraps

/-- A signature that has its opening nodes on one line. -/
def opened (limit : Option Int) (context : Context) (opening : List Node) : Writer :=
  ⟨limit, context, [], opening⟩

/-- A run with a limit beside the run without one, from the same opening. -/
theorem wraps_run_opened (limit : Option Int) (context : Context) (opening : List Node)
    {steps : List Step}
    (hsteps : ∀ s ∈ steps,
      s.isBracketed = true ∨ s.breaks (opened limit context opening) = false) :
    Option.Rel
      (Wraps (opened limit context opening)
        ((∀ node ∈ opening, node.IsWhole) ∧ ∀ s ∈ steps, s.IsWhole)
        (steps.any fun s => s.breaks (opened limit context opening)))
      ((opened limit context opening).run steps) ((opened none context opening).run steps) := by
  have hstart : Wraps (opened limit context opening)
      ((∀ node ∈ opening, node.IsWhole) ∧ ∀ s ∈ steps, s.IsWhole) false
      (opened limit context opening) (opened none context opening) :=
    ⟨rfl, rfl, rfl, rfl, rfl, fun h => ⟨rfl, h.1⟩⟩
  simpa using hstart.run hsteps fun h => h.2

/-- **Line breaks do not change a signature.** Lists that have brackets, types and nodes are written
with a limit exactly if they are written without one. The nodes are then the same when lines are
joined and indentations are left out, which has to be done on both sides only if lines or
indentations are asked for. A signature in which a line was broken consists of lines, of which the
last one has the permalink. -/
theorem unwrapped_run (limit : Option Int) (context : Context) (opening : List Node)
    (steps : List Step) (hsteps : ∀ s ∈ steps, s.isBracketed = true) :
    ((opened limit context opening).run steps).isSome =
        ((opened none context opening).run steps).isSome ∧
      ∀ w, (opened limit context opening).run steps = some w →
        (∃ v, (opened none context opening).run steps = some v ∧
          Node.unwrapped w.nodes = Node.unwrapped v.nodes ∧
          ((∀ node ∈ opening, node.IsWhole) → (∀ s ∈ steps, s.IsWhole) →
            Node.unwrapped w.nodes = v.nodes)) ∧
        w.isMultiline = steps.any (fun s => s.breaks (opened limit context opening)) ∧
        (w.isMultiline = true → (∀ node ∈ w.nodes, node.isLine = true) ∧
          w.nodes.map Node.hasPermalink = List.replicate w.finished.length false ++ [true]) := by
  have hrel := wraps_run_opened limit context opening fun s hs => .inl (hsteps s hs)
  refine ⟨isSome_eq_of_rel hrel, fun w hw => ?_⟩
  obtain ⟨v, hv, hwraps⟩ := exists_of_rel hrel hw
  exact ⟨⟨v, hv, hwraps.unwrapped_eq, fun hopening hwhole =>
    hwraps.unwrapped_eq_nodes ⟨hopening, hwhole⟩⟩, hwraps.isMultiline_eq, nodes_of_isMultiline⟩

/-- Two lists that are broken, after one that is not. -/
theorem unwrapped_run_two_lists :
    let opening : List Node := [.leaf .descName "f"]
    let steps : List Step := [.types ["T"] (some ("<", ">")),
      .params [⟨"a", "T"⟩, ⟨"b", "U?"⟩] (some ("(", ")")) true, .add (.punctuation ":"),
      .add .space, .types ["T", "U", "V"] (some ("(", ")"))]
    ∃ w v, (opened (some 5) .empty opening).run steps = some w ∧
      (opened none .empty opening).run steps = some v ∧ Node.unwrapped w.nodes = v.nodes ∧
      w.nodes.map Node.hasPermalink = List.replicate 7 false ++ [true] := by
  intro opening steps
  have hlines : ((opened (some 5) .empty opening).run steps).map (fun w => w.finished.length) =
      some 7 := by decide +kernel
  obtain ⟨w, hw, hlength⟩ := Option.map_eq_some_iff.1 hlines
  obtain ⟨⟨v, hv, -, hnodes⟩, hbroken, hpermalink⟩ :=
    (unwrapped_run (some 5) .empty opening steps (by simp [steps, Step.isBracketed])).2 w hw
  have hmulti : w.isMultiline = true := by
    rw [hbroken]
    decide +kernel
  refine ⟨w, v, hw, hv, hnodes ?_ ?_, hlength ▸ (hpermalink hmulti).2⟩
  · simp [opening, Node.isWhole_leaf]
  · simp [steps, Step.IsWhole]

end Writer

/-! ### Headings -/

namespace Heading

open Writer (Step opened)

variable {context : Context}

/-- The steps in which type parameters are written, -/
def genericSteps (items : List TypedName) : List Step :=
  if items.isEmpty then [] else [.params items (some ("<", ">")) false]

/-- the type of a variable, -/
def dataSteps (type : String) : List Step :=
  match type.toList with
  | [] => []
  | '=' :: r => [.add .space, .add (.punctuation "="), .add .space, .type (String.ofList r)]
  | ':' :: r => [.add (.punctuation ":"), .add .space, .type (String.ofList r)]
  | _ => [.add (.punctuation ":"), .add .space, .type type]

/-- results, which have brackets only if one of them has a name, -/
def returnSteps (items : List TypedName) : List Step :=
  if items.isEmpty then []
  else [.add (.punctuation ":"), .add .space,
    .params items (if items.any fun p => !p.name.isEmpty then some ("(", ")") else none) true]

/-- parameters and results, -/
def callSteps (c : Signature.Call) : List Step :=
  genericSteps c.generics ++ .params c.params (some ("(", ")")) true :: returnSteps c.returns

/-- and all that a signature says. The bases of a class have no brackets. -/
def steps : Subject → List Step
  | .function c => callSteps c
  | .data type => dataSteps type
  | .alias_ a => genericSteps a.generics ++ if a.type.isEmpty then []
    else [.add .space, .add (.punctuation "="), .add .space, .type a.type]
  | .class_ (.constructor c) => callSteps c
  | .class_ (.bases items bases) => genericSteps items ++ if bases.isEmpty then []
    else [.add (.punctuation ":"), .add .space, .types bases none]
  | .table => []

theorem generics_eq_run (w : Writer) (items : List TypedName) :
    generics w items = w.run (genericSteps items) := by
  unfold generics genericSteps
  split <;> simp [Writer.run, Step.apply]

theorem dataType_eq_run (w : Writer) (type : String) :
    dataType w type = w.run (dataSteps type) := by
  unfold dataType dataSteps
  split <;> simp [*, Writer.run, Step.apply, Writer.space, Writer.punctuation]

theorem returns_eq_run (w : Writer) (items : List TypedName) :
    w.returns items = w.run (returnSteps items) := by
  unfold Writer.returns returnSteps
  split <;> simp [Writer.run, Step.apply, Writer.space, Writer.punctuation]

theorem call_eq_run (w : Writer) (c : Signature.Call) : call w c = w.run (callSteps c) := by
  simp only [call, callSteps, generics_eq_run, returns_eq_run, Writer.run, List.foldlM_append,
    List.foldlM_cons, Step.apply]

/-- What a signature says is written in its steps. -/
theorem subject_eq_run (w : Writer) (s : Subject) : subject w s = w.run (steps s) := by
  cases s with
  | function c => exact call_eq_run w c
  | data type => exact dataType_eq_run w type
  | alias_ a =>
    simp only [subject, steps, generics_eq_run, Writer.run, List.foldlM_append]
    congr 1
    funext w'
    split <;> simp [Step.apply, Writer.space, Writer.punctuation]
  | class_ form =>
    cases form with
    | constructor c => exact call_eq_run w c
    | bases items bases =>
      simp only [subject, steps, generics_eq_run, Writer.run, List.foldlM_append]
      congr 1
      funext w'
      split <;> simp [Step.apply, Writer.space, Writer.punctuation]
  | table => rfl

theorem isWhole_genericSteps (items : List TypedName) :
    ∀ step ∈ genericSteps items, step.IsWhole := by
  unfold genericSteps
  split <;> simp [Step.IsWhole]

theorem isWhole_callSteps (c : Signature.Call) : ∀ step ∈ callSteps c, step.IsWhole := by
  have hreturns : ∀ step ∈ returnSteps c.returns, step.IsWhole := by
    unfold returnSteps
    split <;> simp [Step.IsWhole]
  exact List.forall_mem_append.2 ⟨isWhole_genericSteps c.generics,
    List.forall_mem_cons.2 ⟨trivial, hreturns⟩⟩

/-- Nothing asks for lines or indentations. -/
theorem isWhole_steps (s : Subject) : ∀ step ∈ steps s, step.IsWhole := by
  cases s with
  | function c => exact isWhole_callSteps c
  | data type =>
    rw [steps, dataSteps]
    split <;> simp [Step.IsWhole]
  | alias_ a =>
    refine List.forall_mem_append.2 ⟨isWhole_genericSteps a.generics, ?_⟩
    split <;> simp [Step.IsWhole]
  | class_ form =>
    cases form with
    | constructor c => exact isWhole_callSteps c
    | bases items bases =>
      refine List.forall_mem_append.2 ⟨isWhole_genericSteps items, ?_⟩
      split <;> simp [Step.IsWhole]
  | table => simp [steps]

theorem isWhole_nameNodes {name : String}
    (h : nameNodes context name = some nodes) : ∀ node ∈ nodes, node.IsWhole := by
  have hname : (Node.leaf .descName name).IsWhole := Node.isWhole_leaf (by decide) name
  unfold nameNodes at h
  split at h
  · next r hr =>
    split at h
    · obtain ⟨type, htype, rfl⟩ := Option.map_eq_some_iff.1 h
      have hwhole : type.IsWhole := by
        unfold Node.attach at htype
        split at htype
        · cases htype
        · rw [← Option.some.inj htype]
          exact Node.isWhole_plain (by decide) _
      simp [hwhole]
    · rw [← Option.some.inj h]
      simpa using hname
  · rw [← Option.some.inj h]
    simpa using hname

theorem isWhole_unless {c : Bool} {node : Node} (h : node.IsWhole) :
    ∀ other ∈ (if c then [] else [node]), other.IsWhole := by
  cases c <;> simp [h]

theorem isWhole_opening {t : ObjType} {options : Options} {n : Naming}
    {s : Subject} (h : opening context t options n s = some nodes) :
    ∀ node ∈ nodes, node.IsWhole := by
  obtain ⟨name, hname, rfl⟩ := Option.map_eq_some_iff.1 h
  exact List.forall_mem_append.2 ⟨List.forall_mem_append.2
    ⟨isWhole_unless (Node.isWhole_plain (by decide) _),
      isWhole_unless (Node.isWhole_leaf (by decide) _)⟩, isWhole_nameNodes hname⟩

/-- **The heading of an object does not depend on the limit** as long as the lists that have no
brackets, results without names and bases, fit on a line. Such a list gets brackets when it is
broken. -/
theorem unwrapped_write {limit : Option Int} {t : ObjType} {options : Options}
    {n : Naming} {s : Subject}
    (hfit : ∀ step ∈ steps s,
      step.isBracketed = true ∨ step.breaks (opened limit context []) = false) :
    (write limit context t options n s).isSome = (write none context t options n s).isSome ∧
      ∀ w, write limit context t options n s = some w →
        ∃ v, write none context t options n s = some v ∧ Node.unwrapped w.nodes = v.nodes := by
  unfold write
  cases hopening : opening context t options n s with
  | none => simp
  | some line =>
    -- what a step breaks depends on the limit only
    have hbreaks : ∀ step ∈ steps s,
        step.isBracketed = true ∨ step.breaks (opened limit context line) = false := by
      intro step hstep
      cases step <;> exact hfit _ hstep
    have hrel := Writer.wraps_run_opened limit context line hbreaks
    simp only [Option.bind_eq_bind, Option.bind_some, subject_eq_run]
    refine ⟨Writer.isSome_eq_of_rel hrel, fun w hw => ?_⟩
    obtain ⟨v, hv, hwraps⟩ := Writer.exists_of_rel hrel hw
    exact ⟨v, hv, hwraps.unwrapped_eq_nodes ⟨isWhole_opening hopening, isWhole_steps s⟩⟩

end Heading

end LuaDocs
