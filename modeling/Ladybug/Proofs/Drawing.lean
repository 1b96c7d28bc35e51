import Ladybug.Proofs.Language
import Ladybug.Proofs.Reading

/-!
# Blocks draw sketches

The block that is being read has the nodes that its lines have drawn, as long as every edge
starts at a declared node. An edge that declares its own parent is refused only at the end:
the line is read, but then a node other than the first has no parent. It keeps having none,
whatever follows, and the block cannot be closed.

## Main definitions

* `Block.Shows` — the block has the nodes of a sketch.
* `Block.Stray` — a node of the block is out of reach for good.
* `Block.Tells` — how a block stands to the lines that have been read.

## Main results

* `Block.readLine_eq_ok_iff` — what a line makes of a block.
* `Block.Tells.readLine`, `Block.Tells.foldlM` — lines keep a block in step with the sketch.
* `Block.Tells.close` — the lines of a closed block draw what its tree shows.
* `Draws.exists_foldlM` — lines that draw a sketch are read.
-/

namespace Ladybug

/-! ### Tables -/

namespace Arena

variable {t : Arena} {s : Sketch}

/-- A new name is not the name of any row. -/
theorem Linked.hasNode_eq_false_iff (h : t.Linked) {id : String} :
    t.hasNode id = false ↔ ∀ i < t.size, t.id i ≠ id := by
  rw [hasNode, Option.isSome_eq_false_iff, Option.isNone_iff_eq_none, Option.eq_none_iff_forall_ne_some]
  constructor
  · exact fun hnone i hi hid => hnone i ((h.lookup?_iff id i).mpr ⟨hi, hid⟩)
  · intro hne i hlookup
    obtain ⟨hi, hid⟩ := (h.lookup?_iff id i).mp hlookup
    exact hne i hi hid

/-- The nodes of the sketch are those of the table. -/
theorem Shows.mem_specs_iff (h : t.Shows s) {spec : NodeSpec} :
    spec ∈ s.specs ↔ ∃ i < t.size, t.id i = spec.id ∧ t.kind i = spec.kind := by
  rw [s.specs_eq, ← h, List.map_map, List.mem_map]
  constructor
  · rintro ⟨i, hi, rfl⟩
    exact ⟨i, List.mem_range.mp hi, rfl, rfl⟩
  · rintro ⟨i, hi, hid, hkind⟩
    refine ⟨i, List.mem_range.mpr hi, ?_⟩
    change (⟨t.id i, t.kind i⟩ : NodeSpec) = spec
    rw [hid, hkind]

/-- A new name is not the name of any node of the sketch. -/
theorem Shows.hasNode_eq_false_iff (h : t.Shows s) (hlinked : t.Linked) {id : String} :
    t.hasNode id = false ↔ ∀ spec ∈ s.specs, spec.id ≠ id := by
  rw [hlinked.hasNode_eq_false_iff]
  constructor
  · intro hne spec hspec
    obtain ⟨i, hi, hid, -⟩ := h.mem_specs_iff.mp hspec
    exact hid ▸ hne i hi
  · exact fun hne i hi => hne ⟨t.id i, t.kind i⟩ (h.mem_specs_iff.mpr ⟨i, hi, rfl, rfl⟩)

/-- The parent of a link is a row. -/
theorem Shows.exists_parent (h : t.Shows s) (hlinked : t.Linked) {l : String × NodeSpec}
    (hl : l ∈ s.links) : ∃ p < t.size, t.id p = l.1 := by
  have hmem : (⟨l.2.id, l.2.kind, some l.1, s.children l.2.id⟩ : Outline) ∈ s.outlines :=
    List.mem_cons_of_mem _ (List.mem_map_of_mem hl)
  rw [← h] at hmem
  obtain ⟨i, -, hi⟩ := List.mem_map.mp hmem
  obtain ⟨p, hp, hid⟩ := Option.map_eq_some_iff.mp (congrArg Outline.parent hi)
  exact ⟨p, lt_size_of_mem_children ((hlinked.parent?_iff p i).mp hp), hid⟩

/-- Only the first row has no parent. -/
theorem Shows.eq_zero_of_parent?_eq_none (h : t.Shows s) {i : Nat} (hi : i < t.size)
    (hparent : t.parent? i = none) : i = 0 := by
  cases i with
  | zero => rfl
  | succ i =>
      have hrow : t.outline (i + 1) ∈ s.outlines.tail := by
        rw [← h, ← List.map_tail, List.tail_range]
        exact List.mem_map_of_mem (List.mem_range'_1.mpr (by omega))
      obtain ⟨l, -, hl⟩ := List.mem_map.mp hrow
      have hsome : (t.parent? (i + 1)).map t.id = some l.1 := (congrArg Outline.parent hl).symm
      rw [hparent] at hsome
      cases hsome

/-- A table with a single row. -/
theorem shows_single (spec : NodeSpec) :
    (empty.push (Node.ofSpec spec none)).Shows ⟨spec, []⟩ := rfl

/-- A new leaf changes the outline of its parent. -/
theorem Linked.outline_sprout (h : t.Linked) {q : NodeIdx} (hq : q < t.size) (spec : NodeSpec)
    {i : NodeIdx} (hi : i < t.size) :
    (t.sprout spec q (t.children q ++ [t.size])).outline i =
      (t.outline i).gain (t.id q) spec.id := by
  have hid : ∀ j < t.size, (t.sprout spec q (t.children q ++ [t.size])).id j = t.id j :=
    fun j hj => by rw [id_sprout hq, if_neg (Nat.ne_of_lt hj)]
  have hparent : (t.parent? i).map (t.sprout spec q (t.children q ++ [t.size])).id =
      (t.parent? i).map t.id := by
    refine Option.map_congr fun p hp => hid p ?_
    exact lt_size_of_mem_children ((h.parent?_iff p i).mp hp)
  have hchildren : (t.children i).map (t.sprout spec q (t.children q ++ [t.size])).id =
      (t.children i).map t.id :=
    List.map_congr_left fun c hc => hid c (h.child_lt_size hc)
  have hlast : (t.sprout spec q (t.children q ++ [t.size])).id t.size = spec.id := by
    rw [id_sprout hq, if_pos rfl]
  rw [outline, hid i hi, kind_sprout hq, if_neg (Nat.ne_of_lt hi), parent?_sprout hq,
    if_neg (Nat.ne_of_lt hi), hparent, children_sprout hq, Outline.gain, outline]
  by_cases hiq : i = q
  · subst hiq
    rw [if_pos rfl, if_pos rfl, List.map_append, hchildren, List.map_singleton, hlast]
  · have hne : ¬ t.id i = t.id q := fun heq => hiq (h.eq_of_id_eq hi hq heq)
    rw [if_neg hiq, if_neg hne, hchildren]

/-- A new leaf at the end of a table is one more child in the sketch. -/
theorem Shows.sprout (h : t.Shows s) (hlinked : t.Linked) {q : NodeIdx} (hq : q < t.size)
    {spec : NodeSpec} (hnew : t.hasNode spec.id = false) :
    (t.sprout spec q (t.children q ++ [t.size])).Shows (s.extend (t.id q) spec) := by
  have hne := hlinked.hasNode_eq_false_iff.mp hnew
  have hparents : ∀ l ∈ s.links, l.1 ≠ spec.id := by
    intro l hl
    obtain ⟨p, hp, hid⟩ := h.exists_parent hlinked hl
    exact hid ▸ hne p hp
  have hrow : (t.sprout spec q (t.children q ++ [t.size])).outline t.size =
      ⟨spec.id, spec.kind, some (t.id q), []⟩ := by
    have hchildren : t.children t.size = [] := by
      rw [children, node_of_size_le (Nat.le_refl _)]
      rfl
    rw [outline, id_sprout hq, if_pos rfl, kind_sprout hq, if_pos rfl, parent?_sprout hq,
      if_pos rfl, children_sprout hq, if_neg (Nat.ne_of_gt hq), hchildren, Option.map_some,
      id_sprout hq, if_neg (Nat.ne_of_lt hq)]
    rfl
  rw [Shows, size_sprout, List.range_succ, List.map_append, List.map_singleton, hrow,
    Sketch.outlines_extend hparents (hne q hq), ← h, List.map_map]
  refine congrArg (· ++ _) (List.map_congr_left fun i hi => ?_)
  exact hlinked.outline_sprout hq spec (List.mem_range.mp hi)

end Arena

namespace Flowchart

open Arena Text

namespace Block

variable {b b' : Block} {s : Sketch}

/-! ### What lines make of a block -/

/-- A token is the bare name of a declared node, or it declares a new one. -/
theorem resolve_iff_declares {token : Token} {i : NodeIdx} :
    b.resolve token = .ok (b', i) ↔
      (token.bracket = none ∧ b.arena.lookup? (String.ofList token.id) = some i ∧ b' = b) ∨
        ∃ spec, token.Declares spec ∧ b.arena.hasNode spec.id = false ∧ i = b.arena.size ∧
          b' = b.declare spec := by
  rw [resolve_eq_ok_iff]
  refine or_congr_right ⟨?_, ?_⟩
  · rintro ⟨bracket, kind, hbracket, hkind, hnew, hi, hb'⟩
    exact ⟨⟨String.ofList token.id, kind⟩, ⟨rfl, bracket, hbracket, hkind⟩, hnew, hi, hb'⟩
  · rintro ⟨⟨id, kind⟩, ⟨hid, bracket, hbracket, hkind⟩, hnew, hi, hb'⟩
    obtain rfl : id = String.ofList token.id := hid
    exact ⟨bracket, kind, hbracket, hkind, hnew, hi, hb'⟩

/-- An edge leads from a node to a new one below it. -/
theorem addEdge_iff_declares (hlinked : b.arena.Linked) {edge : Edge}
    (hdeclared : edge.child.bracket.isSome) :
    b.addEdge edge = .ok b' ↔
      ∃ found parent child, b.resolve edge.parent = .ok (found, parent) ∧
        (found.arena.kind parent).isComposite ∧ edge.child.Declares child ∧
        found.arena.hasNode child.id = false ∧ b' = found.attach parent child := by
  rw [addEdge_eq_ok_iff hlinked hdeclared]
  constructor
  · rintro ⟨found, parent, bracket, kind, hresolve, -, hcomposite, hbracket, hkind, hnew, hb'⟩
    exact ⟨found, parent, ⟨String.ofList edge.child.id, kind⟩, hresolve, hcomposite,
      ⟨rfl, bracket, hbracket, hkind⟩, hnew, hb'⟩
  · rintro ⟨found, parent, ⟨id, kind⟩, hresolve, hcomposite, ⟨hid, bracket, hbracket, hkind⟩, hnew,
      hb'⟩
    obtain rfl : id = String.ofList edge.child.id := hid
    exact ⟨found, parent, bracket, kind, hresolve, lt_size_of_resolve hlinked hresolve, hcomposite,
      hbracket, hkind, hnew, hb'⟩

/-- A line is an edge, or it declares the first node of its block. -/
theorem readLine_eq_ok_iff (hlinked : b.arena.Linked) {line : List Char} :
    b.readLine line = .ok b' ↔
      (∃ edge : Edge, edge.IsLongest line ∧ b.addEdge edge = .ok b') ∨
        ∃ (token : Token) (root : NodeSpec), (∀ edge : Edge, ¬ edge.Splits line) ∧ token.Proper ∧
          trim line = token.text ∧ token.Declares root ∧ b.arena.size = 0 ∧
          b' = { b.declare root with root := some 0 } := by
  constructor
  · intro h
    rcases readLine_eq_ok h with ⟨edge, hedge, hadd⟩ |
      ⟨token, found, i, hedge, hempty, htoken, hbracket, hresolve, rfl⟩
    · exact .inl ⟨edge, Edge.read?_eq_some_iff.mp hedge, hadd⟩
    · have hzero : b.arena.size = 0 := by simpa [Arena.isEmpty, Arena.size] using hempty
      obtain ⟨hid, hproper, htext⟩ := Token.read?_eq_some htoken
      rcases resolve_iff_declares.mp hresolve with ⟨hbare, -, -⟩ | ⟨root, hroot, -, rfl, rfl⟩
      · rw [hbare] at hbracket
        cases hbracket
      · exact .inr ⟨token, root, Edge.read?_eq_none_iff.mp hedge, ⟨hid, hproper⟩, htext,
          hroot, hzero, by rw [hzero]⟩
  · rintro (⟨edge, hedge, hadd⟩ | ⟨token, root, hedge, hproper, htext, hroot, hzero, rfl⟩)
    · rw [readLine, Edge.read?_eq_some_iff.mpr hedge]
      exact hadd
    · obtain ⟨id, bracket⟩ := token
      obtain ⟨bracket, rfl, -⟩ := hroot.kind_eq
      have hempty : b.arena.isEmpty := by simpa [Arena.isEmpty, Arena.size] using hzero
      have hnew : b.arena.hasNode root.id = false :=
        hlinked.hasNode_eq_false_iff.mpr fun i hi => absurd hi (by omega)
      have htoken : Token.read? (trim line) = some ⟨id, some bracket⟩ := by
        rw [htext]
        exact Token.read?_text hproper.isId (hproper.bracket bracket rfl)
      have hresolve := resolve_iff_declares.mpr (.inr ⟨root, hroot, hnew, rfl, rfl⟩)
      rw [readLine, Edge.read?_eq_none_iff.mpr hedge]
      simp only [hempty, if_true, htoken, Option.filter_some, Option.isSome_some, hresolve]
      rw [hzero]
      rfl

/-! ### Blocks and sketches -/

/-- The block has the nodes of the sketch. -/
structure Shows (b : Block) (s : Sketch) : Prop where
  sound : b.Sound
  root : b.root = some 0
  table : b.arena.Shows s

/-- A node of the block other than the first has no parent, and never gets one. -/
structure Stray (b : Block) : Prop where
  sound : b.Sound
  node : ∃ i < b.arena.size, i ≠ 0 ∧ b.arena.parent? i = none

/-- How a block stands to the lines that have been read. -/
inductive Tells : List (List Char) → Block → Prop
  | opened (number : Nat) : Tells [] (.start number)
  | drawn {done : List (List Char)} {b : Block} {s : Sketch} (hdraws : Draws done s)
      (hshows : b.Shows s) : Tells done b
  | stray {done : List (List Char)} {b : Block} (hstray : b.Stray) : Tells done b

theorem Shows.size_pos (h : b.Shows s) : 0 < b.arena.size := (h.sound.root_eq 0 h.root).2

/-- There is something to do in a block if there is something to do in its sketch. -/
theorem Shows.hasAction_iff (h : b.Shows s) : b.hasAction = true ↔ s.HasAction := by
  rw [h.sound.hasAction_iff]
  constructor
  · rintro ⟨i, hi, haction⟩
    exact ⟨⟨b.arena.id i, b.arena.kind i⟩, h.table.mem_specs_iff.mpr ⟨i, hi, rfl, rfl⟩, haction⟩
  · rintro ⟨spec, hspec, haction⟩
    obtain ⟨i, hi, -, hkind⟩ := h.table.mem_specs_iff.mp hspec
    exact ⟨i, hi, by rwa [hkind]⟩

/-- The tree of a closed block shows the sketch, and a block with an action can be closed. -/
theorem Shows.close_eq_ok_iff (h : b.Shows s) {t : Tree} :
    b.close = .ok t ↔ s.HasAction ∧ t = Tree.ofArena b.arena 0 := by
  rw [← h.hasAction_iff]
  constructor
  · intro hclose
    obtain ⟨root, hroot, -, haction, ht⟩ := close_eq_ok hclose
    obtain rfl := Option.some.inj (h.root.symm.trans hroot)
    exact ⟨haction, ht⟩
  · rintro ⟨haction, rfl⟩
    exact h.sound.close_eq h.root (fun i hi => h.table.eq_zero_of_parent?_eq_none hi) haction

theorem Shows.tree (h : b.Shows s) : (Tree.ofArena b.arena 0).Shows s where
  table := h.table
  root := rfl
  current := rfl
  jumped := rfl
  fresh := h.sound.fresh

/-- The root of a block that has just been opened is its first row. -/
theorem growing_root (number : Nat) (root : NodeSpec) :
    ((Block.start number).declare root).Growing :=
  (Sound.start number).toGrowing.declare rfl

/-- The first node of a block. -/
theorem shows_root (number : Nat) (root : NodeSpec) :
    { (Block.start number).declare root with root := some 0 }.Shows ⟨root, []⟩ where
  sound := by
    have hgrowing := growing_root number root
    exact
      { linked := hgrowing.linked
        fresh := hgrowing.fresh
        hasAction_iff := hgrowing.hasAction_iff
        root_eq := fun r hr => ⟨(Option.some.inj hr).symm, Nat.zero_lt_one⟩
        size_eq := nofun }
  root := rfl
  table := shows_single root

/-! ### Lines and sketches -/

/-- Another name is new behind the first node. -/
theorem hasNode_root_eq_false_iff (number : Nat) {root : NodeSpec} {id : String} :
    ((Block.start number).declare root).arena.hasNode id = false ↔ root.id ≠ id := by
  have htable : ((Block.start number).declare root).arena.Shows ⟨root, []⟩ := shows_single root
  rw [htable.hasNode_eq_false_iff (growing_root number root).linked]
  exact List.forall_mem_singleton

/-- The first edge of a block declares the root, with a child below it. -/
theorem readLine_first_iff {number : Nat} {line : List Char} {edge : Edge}
    (hedge : edge.IsLongest line) :
    (Block.start number).addEdge edge = .ok b' ↔
      ∃ root child, edge.parent.Declares root ∧ edge.child.Declares child ∧
        root.kind.isComposite ∧ root.id ≠ child.id ∧
        b' = ((Block.start number).declare root).attach 0 child := by
  have hlinked := (Sound.start number).linked
  rw [addEdge_iff_declares hlinked hedge.splits.declared]
  constructor
  · rintro ⟨found, parent, child, hresolve, hcomposite, hchild, hnew, rfl⟩
    rcases resolve_iff_declares.mp hresolve with ⟨-, hlookup, -⟩ | ⟨root, hroot, -, rfl, rfl⟩
    · exact nomatch hlookup
    · exact ⟨root, child, hroot, hchild, hcomposite, (hasNode_root_eq_false_iff number).mp hnew, rfl⟩
  · rintro ⟨root, child, hroot, hchild, hcomposite, hne, rfl⟩
    exact ⟨_, 0, child, resolve_iff_declares.mpr (.inr ⟨root, hroot, rfl, rfl, rfl⟩), hcomposite,
      hchild, (hasNode_root_eq_false_iff number).mpr hne, rfl⟩

/-- The first edge draws a root and its child. -/
theorem shows_first {number : Nat} {line : List Char} {root child : NodeSpec}
    (hne : root.id ≠ child.id)
    (hline : (Block.start number).readLine line =
      .ok (((Block.start number).declare root).attach 0 child)) :
    (((Block.start number).declare root).attach 0 child).Shows ⟨root, [(root.id, child)]⟩ where
  sound := (Sound.start number).readLine hline
  root := rfl
  table := (shows_single root).sprout (growing_root number root).linked Nat.zero_lt_one
    ((hasNode_root_eq_false_iff number).mpr hne)

/-- One more child of a declared node is drawn. -/
theorem Shows.attach (h : b.Shows s) {q : NodeIdx} {parent child : NodeSpec}
    (hq : q < b.arena.size) (hid : b.arena.id q = parent.id)
    (hnew : b.arena.hasNode child.id = false) {line : List Char}
    (hline : b.readLine line = .ok (b.attach q child)) :
    (b.attach q child).Shows (s.extend parent.id child) where
  sound := h.sound.readLine hline
  root := by
    rw [Block.attach, h.root]
    rfl
  table := hid ▸ h.table.sprout h.sound.linked hq hnew

/-- The first line of a block draws its root. -/
theorem tells_of_start {number : Nat} {line : List Char}
    (hline : (Block.start number).readLine line = .ok b') : Tells [line] b' := by
  rcases (readLine_eq_ok_iff (Sound.start number).linked).mp hline with ⟨edge, hedge, hadd⟩ |
    ⟨token, root, hsplits, hproper, htext, hroot, -, rfl⟩
  · obtain ⟨root, child, hroot, hchild, hcomposite, hne, rfl⟩ := (readLine_first_iff hedge).mp hadd
    exact .drawn (.first hedge hroot hchild hcomposite hne) (shows_first hne hline)
  · exact .drawn (.alone hsplits hproper htext hroot) (shows_root number root)

/-- A further line draws one more child, or it declares a parent that is out of reach. -/
theorem Shows.readLine (h : b.Shows s) {done : List (List Char)} (hdraws : Draws done s)
    {line : List Char} (hline : b.readLine line = .ok b') : Tells (done ++ [line]) b' := by
  have hlinked := h.sound.linked
  have hpos := h.size_pos
  rcases (readLine_eq_ok_iff hlinked).mp hline with ⟨edge, hedge, hadd⟩ |
    ⟨-, -, -, -, -, -, hzero, -⟩
  · obtain ⟨found, q, child, hresolve, hcomposite, hchild, hnew, rfl⟩ :=
      (addEdge_iff_declares hlinked hedge.splits.declared).mp hadd
    rcases resolve_iff_declares.mp hresolve with ⟨hbare, hlookup, rfl⟩ | ⟨spec, -, -, rfl, rfl⟩
    · obtain ⟨hq, hid⟩ := (hlinked.lookup?_iff _ q).mp hlookup
      have hparent : ⟨found.arena.id q, found.arena.kind q⟩ ∈ s.specs :=
        h.table.mem_specs_iff.mpr ⟨q, hq, rfl, rfl⟩
      have hfresh := (h.table.hasNode_eq_false_iff hlinked).mp hnew
      exact .drawn (.next hdraws hedge hbare hid hparent hchild hcomposite hfresh)
        (h.attach hq rfl hnew hline)
    · have hlt : b.arena.size < (b.declare spec).arena.size := by
        rw [declare, size_push]
        exact Nat.lt_succ_self _
      refine .stray ⟨h.sound.readLine hline, b.arena.size, ?_, Nat.ne_of_gt hpos, ?_⟩
      · rw [Block.attach, size_sprout]
        exact Nat.lt_succ_of_lt hlt
      · rw [Block.attach, parent?_sprout hlt, if_neg (Nat.ne_of_lt hlt), declare, parent?, node_push,
          if_pos rfl]
        rfl
  · omega

/-- What is out of reach stays out of reach. -/
theorem Stray.readLine (h : b.Stray) {line : List Char} (hline : b.readLine line = .ok b') :
    b'.Stray := by
  obtain ⟨i, hi, hne, hparent⟩ := h.node
  obtain ⟨root, hroot⟩ : ∃ root, b.root = some root :=
    Option.ne_none_iff_exists'.mp fun hnone =>
      absurd hi (h.sound.size_eq hnone ▸ Nat.not_lt_zero i)
  obtain ⟨hkept, -, -⟩ := h.sound.kept_readLine hroot hline
  exact ⟨h.sound.readLine hline, i, hi.trans_le hkept.size_le, hne,
    (hkept.parent?_eq i hi).trans hparent⟩

/-- A block with such a node cannot be closed. -/
theorem Stray.close_ne_ok (h : b.Stray) (t : Tree) : b.close ≠ .ok t := by
  intro hclose
  obtain ⟨root, hroot, hreached, -, -⟩ := close_eq_ok hclose
  obtain ⟨i, hi, hne, hparent⟩ := h.node
  obtain ⟨rfl, hlt⟩ := h.sound.root_eq root hroot
  exact hne (eq_root_of_reached h.sound.linked hlt hreached hi hparent)

/-- One more line. -/
theorem Tells.readLine {done : List (List Char)} (h : Tells done b) {line : List Char}
    (hline : b.readLine line = .ok b') : Tells (done ++ [line]) b' := by
  cases h with
  | opened number => exact tells_of_start hline
  | drawn hdraws hshows => exact hshows.readLine hdraws hline
  | stray hstray => exact .stray (hstray.readLine hline)

/-- Any number of further lines. -/
theorem Tells.foldlM {done lines : List (List Char)} (h : Tells done b)
    (hlines : lines.foldlM Block.readLine b = .ok b') : Tells (done ++ lines) b' := by
  induction lines generalizing done b with
  | nil =>
      obtain rfl := Except.ok.inj hlines
      rwa [List.append_nil]
  | cons line lines ih =>
      obtain ⟨next, hnext, hrest⟩ := exists_ok_of_bind hlines
      have hall := ih (h.readLine hnext) hrest
      rwa [List.append_assoc] at hall

/-- The lines of a closed block draw a sketch with an action, and its tree shows it. -/
theorem Tells.close {done : List (List Char)} (h : Tells done b) {t : Tree}
    (hclose : b.close = .ok t) : ∃ s, Draws done s ∧ s.HasAction ∧ t.Shows s := by
  cases h with
  | opened number => cases hclose
  | stray hstray => exact absurd hclose (hstray.close_ne_ok t)
  | drawn hdraws hshows =>
      obtain ⟨haction, rfl⟩ := hshows.close_eq_ok_iff.mp hclose
      exact ⟨_, hdraws, haction, hshows.tree⟩

end Block

/-- Lines that draw a sketch are read. -/
theorem Draws.exists_foldlM {lines : List (List Char)} {s : Sketch} (h : Draws lines s)
    (number : Nat) :
    ∃ b, lines.foldlM Block.readLine (.start number) = .ok b ∧ b.Shows s := by
  have hstart := (Block.Sound.start number).linked
  induction h with
  | @alone line token root hline hproper htext hroot =>
      have hread := (Block.readLine_eq_ok_iff hstart).mpr
        (.inr ⟨token, root, hline, hproper, htext, hroot, rfl, rfl⟩)
      exact ⟨_, by rw [List.foldlM_cons, hread]; rfl, Block.shows_root number root⟩
  | @first line edge root child hline hroot hchild hcomposite hne =>
      have hread := (Block.readLine_eq_ok_iff hstart).mpr (.inl ⟨edge, hline,
        (Block.readLine_first_iff hline).mpr ⟨root, child, hroot, hchild, hcomposite, hne, rfl⟩⟩)
      exact ⟨_, by rw [List.foldlM_cons, hread]; rfl, Block.shows_first hne hread⟩
  | @next lines s line edge parent child _ hline hbare hname hparent hchild hcomposite hnew ih =>
      obtain ⟨b, hb, hshows⟩ := ih
      have hlinked := hshows.sound.linked
      obtain ⟨q, hq, hid, hkind⟩ := hshows.table.mem_specs_iff.mp hparent
      have hlookup := (hlinked.lookup?_iff _ q).mpr ⟨hq, hid.trans hname⟩
      have hfresh := (hshows.table.hasNode_eq_false_iff hlinked).mpr hnew
      have hadd := (Block.addEdge_iff_declares hlinked hline.splits.declared).mpr
        ⟨b, q, child, Block.resolve_iff_declares.mpr (.inl ⟨hbare, hlookup, rfl⟩), by rwa [hkind],
          hchild, hfresh, rfl⟩
      have hread := (Block.readLine_eq_ok_iff hlinked).mpr (.inl ⟨edge, hline, hadd⟩)
      refine ⟨_, ?_, hshows.attach hq hid hfresh hread⟩
      rw [List.foldlM_append, hb]
      change (b.readLine line >>= pure) = _
      rw [hread]
      rfl

end Flowchart

end Ladybug
