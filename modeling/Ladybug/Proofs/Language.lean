import Ladybug.Flowchart.Reader
import Ladybug.Proofs.EdgeLines
import Ladybug.Proofs.Outline

/-!
# The language of flowcharts

Which texts are flowcharts, and of which trees, is said here without a reader. The lines
that are not blank fall into blocks, each behind a header. The lines of a block draw a
*sketch*: a node at the top, and then one node after the other, each below a node that is
already there. The first line gives the node at the top, alone or with a first child, and
every other line gives one more child.

A sketch tells all about a tree but the rows of its nodes: the nodes in the order in which
they are declared, each with its kind, its parent and its children.

## Main definitions

* `Sketch` — a tree as it is drawn.
* `Draws` — the lines of a block draw a sketch.
* `Describes` — the lines of a text draw some sketches, one behind each header.
* `Arena.Shows` — the nodes of a table are those of the sketch, and so are their links.
* `Tree.Shows` — the tree is the one in the sketch, and nothing in it has begun.

## Main results

* `Sketch.outlines_extend` — what one more child changes.
* `Edge.isLongest_dropReturns` — carriage returns at the end of a line do not matter.
-/

namespace Ladybug

/-! ### Sketches -/

/-- A tree as it is drawn: the node at the top, and then one node after the other, each with
the name of its parent. -/
structure Sketch where
  root : NodeSpec
  links : List (String × NodeSpec)

namespace Sketch

/-- The nodes in the order in which they are declared. -/
def specs (s : Sketch) : List NodeSpec := s.root :: s.links.map Prod.snd

/-- The names of the children of a node, from left to right. -/
def children (s : Sketch) (id : String) : List String :=
  (s.links.filter fun l => l.1 == id).map fun l => l.2.id

/-- What the sketch says of its nodes, in the order in which they are declared. -/
def outlines (s : Sketch) : List Outline :=
  ⟨s.root.id, s.root.kind, none, s.children s.root.id⟩ ::
    s.links.map fun l => ⟨l.2.id, l.2.kind, some l.1, s.children l.2.id⟩

/-- The sketch with one more node, as the last child of a node. -/
def extend (s : Sketch) (parent : String) (child : NodeSpec) : Sketch :=
  { s with links := s.links ++ [(parent, child)] }

/-- There is something to do in the tree. -/
def HasAction (s : Sketch) : Prop := ∃ spec ∈ s.specs, spec.kind.isAction

end Sketch

/-- The node with one more child, if it is the named parent. -/
def Outline.gain (parent child : String) (o : Outline) : Outline :=
  if o.id = parent then { o with children := o.children ++ [child] } else o

/-- The table has the nodes of the sketch, in the order in which they are declared and with
the links of the sketch. -/
def Arena.Shows (t : Arena) (s : Sketch) : Prop :=
  (List.range t.size).map t.outline = s.outlines

/-- The table of the tree is the one in the sketch, the first node of the sketch is its root,
and nothing has begun. -/
structure Tree.Shows (t : Tree) (s : Sketch) : Prop where
  table : t.arena.Shows s
  root : t.root = 0
  current : t.current = 0
  jumped : t.jumped = false
  fresh : ∀ i, t.arena.status i = .notEntered

namespace Sketch

variable {s : Sketch} {parent : String} {child : NodeSpec}

/-- The children of the named parent are one more. -/
theorem children_extend (s : Sketch) (parent : String) (child : NodeSpec) (id : String) :
    (s.extend parent child).children id =
      s.children id ++ if id = parent then [child.id] else [] := by
  rw [children, extend, List.filter_append, List.map_append, children]
  by_cases h : id = parent
  · simp [h]
  · have hne : ¬ parent = id := fun heq => h heq.symm
    simp [h, hne]

/-- The outlines name the nodes of the sketch. -/
theorem specs_eq (s : Sketch) : s.specs = s.outlines.map fun o => ⟨o.id, o.kind⟩ := by
  rw [specs, outlines, List.map_cons, List.map_map]
  rfl

/-- One more child with a new name changes the outline of its parent, and it has no
children. -/
theorem outlines_extend (hparents : ∀ l ∈ s.links, l.1 ≠ child.id) (hparent : parent ≠ child.id) :
    (s.extend parent child).outlines =
      s.outlines.map (Outline.gain parent child.id) ++
        [⟨child.id, child.kind, some parent, []⟩] := by
  have hgain : ∀ (id : String) (kind : NodeKind) (p : Option String),
      (⟨id, kind, p, (s.extend parent child).children id⟩ : Outline) =
        Outline.gain parent child.id ⟨id, kind, p, s.children id⟩ := by
    intro id kind p
    rw [children_extend, Outline.gain]
    by_cases h : id = parent <;> simp [h]
  have hnone : s.children child.id = [] := by
    rw [children, List.map_eq_nil_iff, List.filter_eq_nil_iff]
    intro l hl
    simpa using hparents l hl
  have hlast : (s.extend parent child).children child.id = [] := by
    rw [children_extend, hnone, if_neg hparent.symm]
    rfl
  rw [outlines, outlines, List.map_cons, List.map_map, List.cons_append]
  refine congrArg₂ List.cons (hgain s.root.id s.root.kind none) ?_
  rw [extend, List.map_append, List.map_singleton]
  refine congrArg₂ (· ++ ·) (List.map_congr_left fun l _ => hgain l.2.id l.2.kind (some l.1)) ?_
  exact congrArg (fun cs => [(⟨child.id, child.kind, some parent, cs⟩ : Outline)]) hlast

end Sketch

namespace Flowchart

open Text

/-! ### Blocks and texts -/

/-- The token declares the node: its bracket denotes the kind. -/
structure Token.Declares (token : Token) (spec : NodeSpec) : Prop where
  id_eq : spec.id = String.ofList token.id
  kind_eq : ∃ b, token.bracket = some b ∧ b.kind = .ok spec.kind

/-- The lines of a block draw the sketch, line by line. -/
inductive Draws : List (List Char) → Sketch → Prop
  /-- The first line is a single node. It must not be possible to split it as an edge. -/
  | alone {line : List Char} {token : Token} {root : NodeSpec}
      (hline : ∀ edge : Edge, ¬ edge.Splits line) (hproper : token.Proper)
      (htext : trim line = token.text) (hroot : token.Declares root) :
      Draws [line] ⟨root, []⟩
  /-- The first line is an edge that declares both of its nodes. -/
  | first {line : List Char} {edge : Edge} {root child : NodeSpec}
      (hline : edge.IsLongest line) (hroot : edge.parent.Declares root)
      (hchild : edge.child.Declares child) (hcomposite : root.kind.isComposite)
      (hnew : root.id ≠ child.id) :
      Draws [line] ⟨root, [(root.id, child)]⟩
  /-- A later line is an edge from a declared node to a new one. -/
  | next {lines : List (List Char)} {sketch : Sketch} {line : List Char} {edge : Edge}
      {parent child : NodeSpec} (hlines : Draws lines sketch) (hline : edge.IsLongest line)
      (hbare : edge.parent.bracket = none) (hname : parent.id = String.ofList edge.parent.id)
      (hparent : parent ∈ sketch.specs) (hchild : edge.child.Declares child)
      (hcomposite : parent.kind.isComposite) (hnew : ∀ spec ∈ sketch.specs, spec.id ≠ child.id) :
      Draws (lines ++ [line]) (sketch.extend parent.id child)

/-- The lines that are not blank. -/
def writtenLines (lines : List String) : List (List Char) :=
  (lines.map String.toList).filter fun line => !(trim line).isEmpty

/-- The line says that a tree begins. -/
def isHeader (line : List Char) : Bool := trim line == header.toList

/-- The text describes the sketches: it begins with a header, and the lines behind each
header draw one of them. There is at least one tree, there are no more than ladybugs, and
there is something to do in each. -/
structure Describes (lines : List String) (ladybugs : Nat) (sketches : List Sketch) : Prop where
  blocks : ∃ blocks, (writtenLines lines).splitOnP isHeader = [] :: blocks ∧
    List.Forall₂ Draws blocks sketches
  some_tree : 1 ≤ sketches.length
  enough_ladybugs : sketches.length ≤ ladybugs
  actions : ∀ s ∈ sketches, s.HasAction

/-! ### Ends of lines -/

/-- Carriage returns are blanks. -/
theorem exists_blanks_of_dropReturns (line : List Char) :
    ∃ w, Blanks w ∧ line = dropReturns line ++ w := by
  refine ⟨(line.reverse.takeWhile (· == '\r')).reverse, fun c hc => ?_, ?_⟩
  · have hreturn := List.mem_takeWhile_imp (List.mem_reverse.mp hc)
    rw [beq_iff_eq.mp hreturn]
    decide
  · rw [dropReturns, ← List.reverse_append, List.takeWhile_append_dropWhile, List.reverse_reverse]

/-- Blanks behind a text are trimmed, whatever the text is. -/
theorem trimRight_append_blanks (cs : List Char) {w : List Char} (hw : Blanks w) :
    trimRight (cs ++ w) = trimRight cs := by
  have hblanks : ∀ c ∈ w.reverse, isBlank c = true := fun c hc => hw c (List.mem_reverse.mp hc)
  rw [trimRight, List.reverse_append, List.dropWhile_append_of_pos hblanks, trimRight]

theorem trim_append_blanks (cs : List Char) {w : List Char} (hw : Blanks w) :
    trim (cs ++ w) = trim cs := by
  rw [trim, trimLeft, List.dropWhile_append]
  cases hcs : cs.dropWhile isBlank with
  | nil =>
      have hall : w.dropWhile isBlank = [] := List.dropWhile_eq_nil_iff.mpr hw
      rw [trim, trimLeft, hcs, hall]
      rfl
  | cons c rest =>
      rw [trim, trimLeft, hcs]
      exact trimRight_append_blanks (c :: rest) hw

/-- Blanks behind a line do not matter to the edges in it. -/
theorem Edge.splits_trimRight {line : List Char} {edge : Edge} :
    edge.Splits (trimRight line) ↔ edge.Splits line := by
  obtain ⟨w, hline, hw⟩ := exists_blanks_of_trimRight line
  constructor
  · rintro ⟨hparent, hchild, hdeclared, w₁, w₂, w₃, w₄, hw₁, hw₂, hw₃, hw₄, htext⟩
    refine ⟨hparent, hchild, hdeclared, w₁, w₂, w₃, w₄ ++ w, hw₁, hw₂, hw₃, ?_, ?_⟩
    · exact fun c hc => (List.mem_append.mp hc).elim (hw₄ c) (hw c)
    · rw [hline, htext]
      simp
  · rintro ⟨hparent, hchild, hdeclared, w₁, w₂, w₃, w₄, hw₁, hw₂, hw₃, hw₄, htext⟩
    refine ⟨hparent, hchild, hdeclared, w₁, w₂, w₃, [], hw₁, hw₂, hw₃, blanks_nil, ?_⟩
    obtain ⟨id, b, hdecl⟩ := Token.exists_eq_of_isSome hdeclared
    have hlast : ∀ c ∈ edge.child.text.getLast?, isBlank c = false := by
      rw [hdecl]
      exact Token.isBlank_getLast?_declared id b
    have hne : edge.child.text ≠ [] := by
      rw [Token.text_eq]
      exact List.append_ne_nil_of_left_ne_nil hchild.isId.ne_nil _
    have hsplit : line =
        (w₁ ++ (edge.parent.text ++ (w₂ ++ (arrow ++ (w₃ ++ edge.child.text))))) ++ w₄ := by
      rw [htext]
      simp
    rw [List.append_nil, hsplit, trimRight_append hw₄]
    intro c hc
    simp only [← List.append_assoc] at hc
    exact hlast c (by rwa [List.getLast?_append_of_ne_nil _ hne] at hc)

/-- Carriage returns behind a line do not matter to the edges in it. -/
theorem Edge.splits_dropReturns {line : List Char} {edge : Edge} :
    edge.Splits (dropReturns line) ↔ edge.Splits line := by
  obtain ⟨w, hw, hline⟩ := exists_blanks_of_dropReturns line
  rw [← splits_trimRight, ← trimRight_append_blanks _ hw, ← hline, splits_trimRight]

theorem Edge.isLongest_dropReturns {line : List Char} {edge : Edge} :
    edge.IsLongest (dropReturns line) ↔ edge.IsLongest line := by
  constructor
  · rintro ⟨hsplits, hlongest⟩
    exact ⟨splits_dropReturns.mp hsplits, fun other hother =>
      hlongest other (splits_dropReturns.mpr hother)⟩
  · rintro ⟨hsplits, hlongest⟩
    exact ⟨splits_dropReturns.mpr hsplits, fun other hother =>
      hlongest other (splits_dropReturns.mp hother)⟩

theorem trim_dropReturns (line : List Char) : trim (dropReturns line) = trim line := by
  obtain ⟨w, hw, hline⟩ := exists_blanks_of_dropReturns line
  rw [← trim_append_blanks _ hw, ← hline]

end Flowchart

end Ladybug
