import Ladybug.Proofs.Copies
import Ladybug.Proofs.Legible

/-!
# Written trees are read back

A reachable tree whose new nodes have been read is written as a text from which it can be
read again. The tree that is read has the same outlines in the same order, and it is written
as the same text.

The reader is followed line by line. The first line declares the root, with the first child
if there is one. Every other line finds its parent by the name, and makes a copy of its
child. At the end no node is missing and none is out of reach, so the block can be closed.

## Main definitions

* `Block.Copies` — a block has copies of the nodes that some links of a tree declare.
* `Reader.opened` — the reader behind the first header.

## Main results

* `Block.Copies.readLine` — the line of a link makes one more copy.
* `Block.Copies.close` — with all links, the block is closed as a tree that resembles the
  one that was written.
* `Tree.Reachable.readTrees_treeText` — reachable trees are read back from their texts.
-/

namespace Ladybug

namespace Flowchart

open Arena Text

namespace Block

/-! ### Lines that can be read -/

/-- A bare name is that of a declared node. -/
theorem resolve_of_lookup? {b : Block} {id : String} {i : NodeIdx}
    (h : b.arena.lookup? id = some i) : b.resolve ⟨id.toList, none⟩ = .ok (b, i) :=
  resolve_eq_ok_iff.mpr (.inl ⟨rfl, by rwa [String.ofList_toList], rfl⟩)

/-- A new name with the bracket of a kind declares a node. -/
theorem resolve_of_new {b : Block} {id : String} {kind : NodeKind}
    (hnew : b.arena.hasNode id = false) (hkind : kind.Writable) :
    b.resolve ⟨id.toList, some (Bracket.ofKind kind)⟩ =
      .ok (b.declare ⟨id, kind⟩, b.arena.size) :=
  resolve_eq_ok_iff.mpr (.inr ⟨Bracket.ofKind kind, kind, rfl, Bracket.kind_ofKind hkind,
    by rwa [String.ofList_toList], rfl, by rw [String.ofList_toList]⟩)

/-- An edge with a new child is read, if its parent is a composite. -/
theorem addEdge_of_resolve {b found : Block} {parent : Token} {q : NodeIdx} {id : String}
    {kind : NodeKind} (hlinked : b.arena.Linked) (hresolve : b.resolve parent = .ok (found, q))
    (hcomposite : (found.arena.kind q).isComposite) (hnew : found.arena.hasNode id = false)
    (hkind : kind.Writable) :
    b.addEdge ⟨parent, ⟨id.toList, some (Bracket.ofKind kind)⟩⟩ =
      .ok (found.attach q ⟨id, kind⟩) :=
  (addEdge_eq_ok_iff hlinked rfl).mpr ⟨found, q, Bracket.ofKind kind, kind, hresolve,
    lt_size_of_resolve hlinked hresolve, hcomposite, rfl, Bracket.kind_ofKind hkind,
    by rwa [String.ofList_toList], by rw [String.ofList_toList]⟩

/-! ### Copies in a block -/

/-- The block has copies of the nodes that some links of a tree declare, and the copy of the
root is its root. -/
structure Copies (b : Block) (t : Tree) (done : List (NodeIdx × NodeIdx)) : Prop where
  sound : b.Sound
  table : t.CopiedBy done b.arena
  root : b.root = some 0

variable {t : Tree} {done : List (NodeIdx × NodeIdx)} {b : Block}

/-- Once its parent is resolved, a link makes one more copy. -/
theorem copies_of_resolve (ht : t.Sound) (hlegible : t.Legible) (hsound : b.Sound) {found : Block}
    {parent : Token} {p c q : NodeIdx} (hresolve : b.resolve parent = .ok (found, q))
    (htable : t.CopiedBy done found.arena) (hroot : found.root.or (some q) = some 0)
    (hid : found.arena.id q = t.arena.id p) (hlink : (p, c) ∈ links t)
    (hp : p ∈ known t.root done) (hc : c ∉ known t.root done) {line : List Char}
    (hline : Edge.read? line = some ⟨parent,
      ⟨(t.arena.id c).toList, some (Bracket.ofKind (t.arena.kind c))⟩⟩) :
    ∃ b', b.readLine line = .ok b' ∧ b'.Copies t (done ++ [(p, c)]) := by
  have hlinked := (hsound.toGrowing.resolve hresolve).linked
  have hlt := lt_size_of_resolve hsound.linked hresolve
  have hchild : c ∈ t.arena.children p := (mem_linksFrom.mp hlink).2
  have hclt := ht.linked.child_lt_size hchild
  have hnew := htable.hasNode_eq_false ht.linked hlinked hclt hc
  have hcomposite : (found.arena.kind q).isComposite := by
    obtain ⟨j, hj⟩ := htable.copy p hp
    obtain rfl := hlinked.eq_of_id_eq hj.lt hlt (hj.id_eq.trans hid.symm)
    rw [hj.kind_eq]
    exact ht.linked.composite p (List.ne_nil_of_mem hchild)
  have hadd := addEdge_of_resolve hsound.linked hresolve hcomposite hnew
    (hlegible.arena c hclt).writable
  have hread : b.readLine line = .ok (found.attach q ⟨t.arena.id c, t.arena.kind c⟩) := by
    rw [Block.readLine, hline]
    exact hadd
  exact ⟨_, hread, hsound.readLine hread,
    htable.attach ht.linked hlinked hp hclt hc hlt hid rfl, hroot⟩

/-- The line of a link makes one more copy. -/
theorem Copies.readLine (h : b.Copies t done) (ht : t.Sound) (hlegible : t.Legible)
    {p c : NodeIdx} (hlink : (p, c) ∈ links t) (hp : p ∈ known t.root done)
    (hc : c ∉ known t.root done) :
    ∃ b', b.readLine (linkLine t.arena (t.arena.id p) c).toList = .ok b' ∧
      b'.Copies t (done ++ [(p, c)]) := by
  have hclt := ht.linked.child_lt_size (mem_linksFrom.mp hlink).2
  obtain ⟨q, hq⟩ := h.table.copy p hp
  have hresolve := resolve_of_lookup? ((h.sound.linked.lookup?_iff _ q).mpr ⟨hq.lt, hq.id_eq⟩)
  refine copies_of_resolve ht hlegible h.sound hresolve h.table ?_ hq.id_eq hlink hp hc ?_
  · rw [h.root]
    rfl
  · exact Edge.read?_linkLine (hlegible.arena p (h.table.rows p hp)).isId
      (hlegible.arena c hclt).isId

/-- The root can be declared in a block that has just been started. -/
theorem resolve_root (hlegible : t.Legible) (ht : t.Sound) (number : Nat) :
    (Block.start number).resolve
        ⟨t.rootId.toList, some (Bracket.ofKind (t.arena.kind t.root))⟩ =
      .ok ((Block.start number).declare ⟨t.rootId, t.arena.kind t.root⟩, 0) :=
  resolve_of_new rfl (hlegible.arena t.root ht.root_lt).writable

/-- The line of the first link makes copies of both nodes. -/
theorem copies_of_first (ht : t.Sound) (hlegible : t.Legible) (number : Nat) {c : NodeIdx}
    (hlink : (t.root, c) ∈ links t) (hc : c ∉ known t.root []) :
    ∃ b', (Block.start number).readLine
        (linkLine t.arena (declaration t.arena t.root) c).toList = .ok b' ∧
      b'.Copies t [(t.root, c)] := by
  have hclt := ht.linked.child_lt_size (mem_linksFrom.mp hlink).2
  have htable : t.CopiedBy []
      ((Block.start number).declare ⟨t.rootId, t.arena.kind t.root⟩).arena :=
    Tree.CopiedBy.root ht.root_lt
  exact copies_of_resolve ht hlegible (.start number) (resolve_root hlegible ht number) htable rfl
    htable.first.2 hlink List.mem_cons_self hc
    (Edge.read?_linkLine_declaration (hlegible.arena t.root ht.root_lt).isId
      (hlegible.arena c hclt).isId)

/-- The line of a root without children makes a copy of it. -/
theorem copies_of_alone (ht : t.Sound) (hlegible : t.Legible) (halone : t.arena.size = 1)
    (number : Nat) :
    ∃ b', (Block.start number).readLine
        (indentation ++ declaration t.arena t.root).toList = .ok b' ∧ b'.Copies t [] := by
  have htoken := read?_trim_indented (hlegible.arena t.root ht.root_lt).isId
  have hnone := Edge.read?_eq_none_of_standsAlone (hlegible.alone halone) htoken
  have hread : (Block.start number).readLine
      (indentation ++ declaration t.arena t.root).toList =
        .ok { (Block.start number).declare ⟨t.rootId, t.arena.kind t.root⟩ with
          root := some 0 } := by
    have hresolve := resolve_root hlegible ht number
    have hempty : (Block.start number).arena.isEmpty = true := rfl
    rw [Block.readLine, hnone]
    simp only [hempty, if_true, htoken, Option.filter_some, Option.isSome_some]
    rw [← Tree.rootId, hresolve]
    rfl
  exact ⟨_, hread, (Sound.start number).readLine hread, Tree.CopiedBy.root ht.root_lt, rfl⟩

/-- With all links, the block is closed as a tree that resembles the one that was written. -/
theorem Copies.close (h : b.Copies t (links t)) (ht : t.Sound) :
    ∃ u, b.close = .ok u ∧ t.Resembles u := by
  have haction : b.hasAction = true := by
    obtain ⟨i, hi, hkind⟩ := ht.action
    obtain ⟨j, hj⟩ := h.table.exists_twin ht hi
    exact h.sound.hasAction_iff.mpr ⟨j, hj.right_lt, by rw [hj.kind_eq]; exact hkind⟩
  have hparent : ∀ j < b.arena.size, b.arena.parent? j = none → j = 0 := fun j hj =>
    h.table.eq_zero_of_parent?_eq_none ht h.sound.linked hj
  exact ⟨_, h.sound.close_eq h.root hparent haction,
    { left := ht
      right := h.sound.tree h.root hparent haction
      root := h.table.twin_root ht h.sound.linked
      twin := fun i hi => h.table.exists_twin ht hi }⟩

end Block

/-! ### Lines below a header -/

/-- The nodes of a link are declared alike in the tree. -/
theorem legible_of_mem_links {t : Tree} (ht : t.Sound) (hlegible : t.Legible) {p c : NodeIdx}
    (h : (p, c) ∈ links t) : IsId (t.arena.id p).toList ∧ IsId (t.arena.id c).toList := by
  have hchild : c ∈ t.arena.children p := (mem_linksFrom.mp h).2
  exact ⟨(hlegible.arena p (lt_size_of_mem_children hchild)).isId,
    (hlegible.arena c (ht.linked.child_lt_size hchild)).isId⟩

/-- A tree is written as a header and lines below it. -/
theorem exists_treeLines {t : Tree} (ht : t.Sound) (hlegible : t.Legible) :
    ∃ body, treeLines t = header :: body ∧ ∀ line ∈ body, IsBody line.toList := by
  have hroot := (hlegible.arena t.root ht.root_lt).isId
  rw [treeLines]
  cases hl : links t with
  | nil =>
      refine ⟨_, rfl, fun line hline => ?_⟩
      obtain rfl := List.mem_singleton.mp hline
      rw [toList_indented]
      refine isBody_append (fun hmem => ?_) _
      rcases List.mem_append.mp hmem with hmem | hmem
      · revert hmem
        decide
      · exact hroot.newline hmem
  | cons l ls =>
      have hids : ∀ l' ∈ l :: ls, IsId (t.arena.id l'.1).toList ∧ IsId (t.arena.id l'.2).toList :=
        fun l' hl' => legible_of_mem_links ht hlegible (hl ▸ hl')
      refine ⟨_, rfl, fun line hline => ?_⟩
      rcases List.mem_cons.mp hline with rfl | hline
      · obtain ⟨hparent, hchild⟩ := hids l List.mem_cons_self
        refine isBody_linkLine ?_ hchild
        rw [toList_declaration]
        exact (isBody_append hparent.newline _).newline
      · obtain ⟨l', hl', rfl⟩ := List.mem_map.mp hline
        obtain ⟨hparent, hchild⟩ := hids l' (List.mem_cons_of_mem l hl')
        exact isBody_linkLine hparent.newline hchild

/-- The lines of the text of a tree are the lines it is written in. -/
theorem lines_treeText {t : Tree} (ht : t.Sound) (hlegible : t.Legible) :
    (lines (treeText t).toList).map String.ofList = treeLines t := by
  obtain ⟨body, hbody, hlines⟩ := exists_treeLines ht hlegible
  have htext : (treeText t).toList =
      ((treeLines t).map String.toList).flatMap fun l => l ++ ['\n'] := by
    rw [treeText, String.toList_join, List.flatMap_map, List.flatMap_map]
    exact congrArg (List.flatMap · _) (funext fun line => String.toList_append)
  have hline : ∀ l ∈ (treeLines t).map String.toList, '\n' ∉ l ∧ l.getLast? ≠ some '\r' := by
    intro l hl
    rw [hbody, List.map_cons] at hl
    rcases List.mem_cons.mp hl with rfl | hl
    · decide
    · obtain ⟨line, hmem, rfl⟩ := List.mem_map.mp hl
      exact ⟨(hlines line hmem).newline, (hlines line hmem).last⟩
  rw [htext, lines_flatMap (fun l hl => (hline l hl).1) fun l hl => (hline l hl).2, List.map_map]
  exact (List.map_congr_left fun line _ => String.ofList_toList).trans (List.map_id _)

/-! ### The whole text -/

namespace Reader

/-- A line below a header goes to the block being read. -/
theorem readLine_of_isBody {r : Reader} {b b' : Block} (hblock : r.block = some b) {line : String}
    (hline : IsBody line.toList) (h : b.readLine line.toList = .ok b') (number : Nat) :
    r.readLine number line = .ok { r with block := some b' } := by
  obtain ⟨hblank, hheader⟩ := hline.trim_ne
  rw [readLine, hline.dropReturns_eq]
  simp only [List.isEmpty_iff, hblank, hheader, if_false, hblock, h]

/-- The lines of further links complete the copies. -/
theorem readLines_links {t : Tree} (ht : t.Sound) (hlegible : t.Legible)
    {done rest : List (NodeIdx × NodeIdx)} (hlinks : done ++ rest = links t)
    (hdeclares : Declares (known t.root done) rest) {r : Reader} {b : Block}
    (hblock : r.block = some b) (h : b.Copies t done) (number : Nat) :
    ∃ b', r.readLines number (rest.map fun l => linkLine t.arena (t.arena.id l.1) l.2) =
      .ok { r with block := some b' } ∧ b'.Copies t (links t) := by
  induction rest generalizing done r b number with
  | nil =>
      rw [List.append_nil] at hlinks
      refine ⟨b, ?_, hlinks ▸ h⟩
      rw [List.map_nil, readLines, ← hblock]
  | cons l rest ih =>
      obtain ⟨p, c⟩ := l
      obtain ⟨hp, hc, hrest⟩ := hdeclares
      have hlink : (p, c) ∈ links t :=
        hlinks ▸ List.mem_append_right done List.mem_cons_self
      obtain ⟨hparent, hchild⟩ := legible_of_mem_links ht hlegible hlink
      obtain ⟨next, hnext, hcopies⟩ := h.readLine ht hlegible hlink hp hc
      have hstep := readLine_of_isBody hblock (isBody_linkLine hparent.newline hchild) hnext number
      rw [← known_concat t.root done p c] at hrest
      obtain ⟨b', hb', hall⟩ := ih (by rw [← hlinks, List.append_assoc, List.singleton_append])
        hrest (r := { r with block := some next }) rfl hcopies (number + 1)
      refine ⟨b', ?_, hall⟩
      rw [List.map_cons, readLines, hstep]
      exact hb'

/-- After the header of the first tree. -/
def opened (ladybugs : Nat) : Reader where
  ladybugs := ladybugs
  headers := 1
  trees := []
  block := some (.start 1)

/-- The header opens the block of the one tree. -/
theorem readLine_header {ladybugs : Nat} (h : 1 ≤ ladybugs) :
    (Reader.start ladybugs).readLine 1 header = .ok (opened ladybugs) := by
  have htrim : trim (dropReturns header.toList) = header.toList := by decide
  have hempty : header.toList.isEmpty = false := by decide
  have hopen : (Reader.start ladybugs).openBlock = .ok (opened ladybugs) :=
    if_neg (Nat.not_lt_of_le h)
  rw [readLine]
  simp only [htrim, hempty, Bool.false_eq_true, if_false, if_true]
  exact hopen

/-- The lines of a tree are read as a block with copies of all nodes. -/
theorem readLines_treeLines {t : Tree} (ht : t.Sound) (hlegible : t.Legible) {ladybugs : Nat}
    (h : 1 ≤ ladybugs) :
    ∃ b, (Reader.start ladybugs).readLines 1 (treeLines t) =
      .ok { opened ladybugs with block := some b } ∧ b.Copies t (links t) := by
  obtain ⟨body, hbody, hlines⟩ := exists_treeLines ht hlegible
  have hdeclares := ht.declares_links
  have hopened : (Reader.start ladybugs).readLines 1 (header :: body) =
      (opened ladybugs).readLines 2 body := by
    rw [readLines, readLine_header h]
    rfl
  rw [hbody, hopened]
  rw [treeLines] at hbody
  cases hl : links t with
  | nil =>
      rw [hl] at hbody
      obtain ⟨-, rfl⟩ := List.cons.inj hbody
      obtain ⟨b, hb, hcopies⟩ :=
        Block.copies_of_alone ht hlegible (ht.size_of_links_eq_nil hl) 1
      have hstep := readLine_of_isBody (r := opened ladybugs) rfl (hlines _ List.mem_cons_self) hb 2
      refine ⟨b, ?_, hcopies⟩
      rw [readLines, hstep]
      rfl
  | cons l rest =>
      obtain ⟨p, c⟩ := l
      rw [hl] at hbody hdeclares
      obtain ⟨-, rfl⟩ := List.cons.inj hbody
      obtain ⟨hp, hc, hrest⟩ := hdeclares
      obtain rfl := List.mem_singleton.mp hp
      obtain ⟨b, hb, hcopies⟩ := Block.copies_of_first ht hlegible 1 (hl ▸ List.mem_cons_self) hc
      have hstep := readLine_of_isBody (r := opened ladybugs) rfl (hlines _ List.mem_cons_self) hb 2
      obtain ⟨b', hb', hall⟩ := readLines_links ht hlegible
        (show [(t.root, c)] ++ rest = links t by rw [hl]; rfl) hrest
        (r := { opened ladybugs with block := some b }) rfl hcopies 3
      refine ⟨b', ?_, hl ▸ hall⟩
      rw [readLines, hstep]
      exact hb'

end Reader

/-- The text of a legible tree is read as a tree that resembles it. -/
theorem exists_readTrees_treeLines {t : Tree} (ht : t.Sound) (hlegible : t.Legible)
    {ladybugs : Nat} (h : 1 ≤ ladybugs) :
    ∃ u, readTrees (treeLines t) ladybugs = .ok [u] ∧ t.Resembles u := by
  obtain ⟨b, hb, hcopies⟩ := Reader.readLines_treeLines ht hlegible h
  obtain ⟨u, hclose, hu⟩ := hcopies.close ht
  refine ⟨u, ?_, hu⟩
  rw [readTrees, hb]
  change Reader.close _ = _
  rw [Reader.close, Reader.closeBlock]
  simp only [hclose]
  rfl

end Flowchart

namespace Tree

/-- **A reachable tree is read back from its text.** If its new nodes have been read, the
lines of its text are read as exactly one tree, however many ladybugs there are. That tree
has the same nodes in the same order, each with its name, kind, parent and children, and its
text is the same. -/
theorem Reachable.readTrees_treeText {t : Tree}
    (h : t.Reachable fun spec => ∃ text, Flowchart.readNode text = .ok spec) {ladybugs : Nat}
    (hladybugs : 1 ≤ ladybugs) :
    ∃ u, Flowchart.readTrees ((Text.lines (Flowchart.treeText t).toList).map String.ofList)
        ladybugs = .ok [u] ∧
      u.outlines = t.outlines ∧ Flowchart.treeText u = Flowchart.treeText t := by
  have hlegible : t.Legible := by
    refine h.legible fun spec hspec => ?_
    obtain ⟨text, htext⟩ := hspec
    exact Flowchart.legible_of_readNode htext
  obtain ⟨u, hread, hu⟩ := Flowchart.exists_readTrees_treeLines h.sound hlegible hladybugs
  exact ⟨u, by rw [Flowchart.lines_treeText h.sound hlegible, hread], hu.outlines_eq,
    hu.treeText_eq⟩

/-- Names with arrows, closing brackets and letters of any alphabet are read back from a
tree that was read, jumped in and grown. -/
theorem readTrees_treeText_grown : ∃ t : Tree, ∃ spec,
    Flowchart.readTrees ["flowchart TD", "A-->B[->]-->C])[move]", "A-->B --> λ-->([atEdge])"] 1 =
      .ok [t] ∧
    Flowchart.readNode " é][turnLeft]" = .ok spec ∧
    ∃ u, Flowchart.readTrees ((Text.lines (Flowchart.treeText
        ((t.after (.jumpTo "C])")).after (.addSibling "C])" spec))).toList).map String.ofList) 3 =
          .ok [u] ∧
      u.outlines = ((t.after (.jumpTo "C])")).after (.addSibling "C])" spec)).outlines ∧
      Flowchart.treeText u =
        Flowchart.treeText ((t.after (.jumpTo "C])")).after (.addSibling "C])" spec)) := by
  obtain ⟨t, ht⟩ : ∃ t, Flowchart.readTrees
      ["flowchart TD", "A-->B[->]-->C])[move]", "A-->B --> λ-->([atEdge])"] 1 = .ok [t] :=
    ⟨_, rfl⟩
  obtain ⟨spec, hspec⟩ : ∃ spec, Flowchart.readNode " é][turnLeft]" = .ok spec := ⟨_, rfl⟩
  have hread : t.Reachable fun spec => ∃ text, Flowchart.readNode text = .ok spec :=
    .read ht (List.mem_singleton_self t)
  have hjumped : (t.after (.jumpTo "C])")).Reachable fun spec =>
    ∃ text, Flowchart.readNode text = .ok spec := .after hread trivial
  have hgrown : ((t.after (.jumpTo "C])")).after (.addSibling "C])" spec)).Reachable fun spec =>
    ∃ text, Flowchart.readNode text = .ok spec := .after hjumped ⟨_, hspec⟩
  exact ⟨t, spec, ht, hspec, Reachable.readTrees_treeText hgrown (by decide)⟩

end Tree

end Ladybug
