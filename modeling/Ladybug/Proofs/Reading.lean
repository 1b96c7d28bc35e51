import Ladybug.Flowchart.Reader
import Ladybug.Proofs.Reaching
import Ladybug.Proofs.Sound

/-!
# Trees that are read are sound

The reader of flowcharts builds the table of a tree line by line. Each line declares at
most two nodes, the later of which is linked at once below an earlier one, so the table
stays linked and every parent stands before its children. The root is the first node of its
block. When a block is closed, no node is left that the root does not reach, and then every
node but the root has a parent.

## Main definitions

* `Block.Growing` — the table of a block being read is in order.
* `Block.Sound` — so is its root.

## Main results

* `Block.resolve_eq_ok_iff`, `Block.addEdge_eq_ok_iff` — what a token and what an edge
  makes of a block.
* `Block.Sound.readLine` — a line keeps a block sound.
* `Block.Sound.close` — a sound block is closed as a sound tree in which nothing has begun.
* `Block.Sound.close_eq` — when a sound block can be closed.
* `forall_of_readTrees` — how properties of trees are carried through a text.
* `sound_of_readTrees` — every tree of a text is such a tree.
-/

namespace Ladybug.Flowchart

open Arena

/-! ### Declared children -/

theorem Edge.isSome_bracket_of_readChild? {cs : List Char} {child : Token}
    (h : Edge.readChild? cs = some child) : child.bracket.isSome := by
  rw [readChild?, Option.filter_eq_some_iff] at h
  exact h.2

/-- An arrow in the run stands behind an id and before the child. -/
theorem Edge.splitHere?_eq_some {child? : List Char → Option Token} {backwards left : List Char}
    {edge : Edge} (h : Edge.splitHere? child? backwards left = some edge) :
    ∃ id child, backwards = '>' :: '-' :: '-' :: id ∧ id ≠ [] ∧ child? left = some child ∧
      edge = ⟨⟨id.reverse, none⟩, child⟩ := by
  rw [splitHere?.eq_def] at h
  split at h
  · next id =>
      split at h
      · cases h
      · next hne =>
          obtain ⟨child, hchild, rfl⟩ := Option.map_eq_some_iff.mp h
          exact ⟨id, child, rfl, by simpa using hne, hchild, rfl⟩
  · cases h

/-- The edge of an arrow in the run: an id stands before it, and the child is read from what
is left of the run. -/
theorem Edge.splitRun?_eq_some {child? : List Char → Option Token} {backwards left : List Char}
    {edge : Edge} (h : Edge.splitRun? child? backwards left = some edge) :
    ∃ id rest child, backwards.reverse ++ left = id ++ '-' :: '-' :: '>' :: rest ∧ id ≠ [] ∧
      child? rest = some child ∧ edge = ⟨⟨id, none⟩, child⟩ := by
  induction backwards generalizing left with
  | nil => cases h
  | cons c backwards ih =>
      rw [splitRun?] at h
      split at h
      · next found hfound =>
          obtain ⟨id, child, hbackwards, hne, hc, rfl⟩ := splitHere?_eq_some hfound
          obtain rfl := Option.some.inj h
          exact ⟨id.reverse, left, child, by rw [hbackwards]; simp, by simpa using hne, hc, rfl⟩
      · obtain ⟨id, rest, child, hrun, hrest⟩ := ih h
        exact ⟨id, rest, child, by rw [← hrun]; simp, hrest⟩

/-- The child behind an arrow in the run is all of the rest of the line, or what is left of
the run is its id. -/
theorem Edge.childInRun?_eq_some {rest left : List Char} {bracket : Option Bracket} {child : Token}
    (h : Edge.childInRun? rest bracket left = some child) :
    Edge.readChild? rest = some child ∨ left ≠ [] ∧ ∃ b, child = ⟨left, some b⟩ := by
  rw [childInRun?] at h
  split at h
  · exact .inl h
  · next hleft =>
      obtain ⟨b, -, rfl⟩ := Option.map_eq_some_iff.mp h
      exact .inr ⟨by simpa using hleft, b, rfl⟩

/-- The parent of an edge has the whole run of id characters as its id, or it ends before an
arrow in the run. -/
theorem Edge.read?_eq_some {line : List Char} {edge : Edge} (h : Edge.read? line = some edge) :
    ((Text.trimLeft line).takeWhile isIdChar = edge.parent.id ∧ edge.parent.id ≠ [] ∧
        ∃ after, Edge.readChild? after = some edge.child) ∨
      ∃ id left, (Text.trimLeft line).takeWhile isIdChar = id ++ '-' :: '-' :: '>' :: left ∧
        id ≠ [] ∧ edge.parent = ⟨id, none⟩ ∧
        ((∃ after, Edge.readChild? after = some edge.child) ∨
          left ≠ [] ∧ ∃ b, edge.child = ⟨left, some b⟩) := by
  rw [read?] at h
  split at h
  · next found hfound =>
      obtain rfl := Option.some.inj h
      rw [readAfterRun?] at hfound
      split at hfound
      · cases hfound
      · next hne =>
          split at hfound
          split at hfound
          · next child hchild =>
              obtain rfl := Option.some.inj hfound
              obtain ⟨after, -, hafter⟩ := Option.bind_eq_some_iff.mp hchild
              exact .inl ⟨rfl, by simpa using hne, after, hafter⟩
          · cases hfound
  · obtain ⟨id, left, child, hrun, hne, hchild, rfl⟩ := splitRun?_eq_some h
    rw [List.reverse_reverse, List.append_nil] at hrun
    refine .inr ⟨id, left, hrun, hne, rfl, ?_⟩
    rcases childInRun?_eq_some hchild with hafter | hdeclared
    · exact .inl ⟨_, hafter⟩
    · exact .inr hdeclared

/-- The child of an edge is always declared. -/
theorem Edge.isSome_bracket_of_read? {line : List Char} {edge : Edge}
    (h : Edge.read? line = some edge) : edge.child.bracket.isSome := by
  rcases read?_eq_some h with ⟨-, -, after, hafter⟩ |
    ⟨id, left, -, -, -, ⟨after, hafter⟩ | ⟨-, b, hchild⟩⟩
  · exact isSome_bracket_of_readChild? hafter
  · exact isSome_bracket_of_readChild? hafter
  · rw [hchild]
    rfl

namespace Block

/-! ### What lines make of a block -/

/-- The block with a new node, not linked yet. -/
def declare (b : Block) (spec : NodeSpec) : Block :=
  { b with
    arena := b.arena.push (Node.ofSpec spec none)
    hasAction := b.hasAction || spec.kind.isAction }

/-- The block with a new node as the last child of a node. -/
def attach (b : Block) (parent : NodeIdx) (spec : NodeSpec) : Block :=
  { b with
    arena := b.arena.sprout spec parent (b.arena.children parent ++ [b.arena.size])
    root := b.root.or (some parent)
    hasAction := b.hasAction || spec.kind.isAction }

/-- A token names a node by its bare id, or it declares a new one. -/
theorem resolve_eq_ok_iff {b b' : Block} {token : Token} {i : NodeIdx} :
    b.resolve token = .ok (b', i) ↔
      (token.bracket = none ∧ b.arena.lookup? (String.ofList token.id) = some i ∧ b' = b) ∨
        ∃ bracket kind, token.bracket = some bracket ∧ bracket.kind = .ok kind ∧
          b.arena.hasNode (String.ofList token.id) = false ∧ i = b.arena.size ∧
          b' = b.declare ⟨String.ofList token.id, kind⟩ := by
  constructor
  · intro h
    rw [resolve] at h
    cases hlookup : b.arena.lookup? (String.ofList token.id) with
    | some j =>
        cases hbracket : token.bracket with
        | none =>
            simp only [hlookup, hbracket] at h
            obtain ⟨rfl, rfl⟩ := Prod.mk.inj (Except.ok.inj h)
            exact .inl ⟨rfl, rfl, rfl⟩
        | some bracket =>
            simp only [hlookup, hbracket] at h
            cases h
    | none =>
        have hnew : b.arena.hasNode (String.ofList token.id) = false := by
          rw [hasNode, hlookup]
          rfl
        cases hbracket : token.bracket with
        | none =>
            simp only [hlookup, hbracket] at h
            cases h
        | some bracket =>
            simp only [hlookup, hbracket] at h
            obtain ⟨kind, hkind, h⟩ := exists_ok_of_bind h
            rw [addNode, hnew] at h
            obtain ⟨rfl, rfl⟩ := Prod.mk.inj (Except.ok.inj h)
            exact .inr ⟨bracket, kind, rfl, hkind, hnew, rfl, rfl⟩
  · rintro (⟨hbare, hlookup, rfl⟩ | ⟨bracket, kind, hbracket, hkind, hnew, rfl, rfl⟩)
    · simp only [resolve, hbare, hlookup]
      rfl
    · simp only [resolve, hbracket, lookup?_eq_none hnew, hkind, addNode, hnew]
      rfl

/-- The node that a token names is a row of the table. -/
theorem lt_size_of_resolve {b b' : Block} {token : Token} {i : NodeIdx}
    (hlinked : b.arena.Linked) (h : b.resolve token = .ok (b', i)) : i < b'.arena.size := by
  rcases resolve_eq_ok_iff.mp h with ⟨-, hlookup, rfl⟩ | ⟨bracket, kind, -, -, -, rfl, rfl⟩
  · exact ((hlinked.lookup?_iff _ _).mp hlookup).1
  · rw [declare, size_push]
    exact Nat.lt_succ_self _

/-- An edge resolves its parent and attaches its child, which is new, below it. -/
theorem addEdge_eq_ok_iff {b b' : Block} {edge : Edge} (hlinked : b.arena.Linked)
    (hchild : edge.child.bracket.isSome) :
    b.addEdge edge = .ok b' ↔
      ∃ found parent bracket kind, b.resolve edge.parent = .ok (found, parent) ∧
        parent < found.arena.size ∧ (found.arena.kind parent).isComposite ∧
        edge.child.bracket = some bracket ∧ bracket.kind = .ok kind ∧
        found.arena.hasNode (String.ofList edge.child.id) = false ∧
        b' = found.attach parent ⟨String.ofList edge.child.id, kind⟩ := by
  constructor
  · intro h
    rw [addEdge] at h
    obtain ⟨⟨found, parent⟩, hparent, h⟩ := exists_ok_of_bind h
    obtain ⟨⟨both, child⟩, hresolved, h⟩ := exists_ok_of_bind h
    rcases resolve_eq_ok_iff.mp hresolved with ⟨hnone, -, -⟩ |
      ⟨bracket, kind, hbracket, hkind, hnew, rfl, rfl⟩
    · rw [hnone] at hchild
      cases hchild
    · have hlt := lt_size_of_resolve hlinked hparent
      have hsame : (found.declare ⟨String.ofList edge.child.id, kind⟩).arena.kind parent =
          found.arena.kind parent := by
        rw [declare, Arena.kind, node_push, if_neg (Nat.ne_of_lt hlt), Arena.kind]
      cases hcomposite : (found.arena.kind parent).isComposite with
      | false =>
          obtain ⟨error, hadd⟩ : ∃ error,
              (found.declare ⟨String.ofList edge.child.id, kind⟩).arena.addChild parent
                found.arena.size = .error error := by
            rw [addChild, hsame, hcomposite]
            exact ⟨_, rfl⟩
          simp only [hadd] at h
          cases h
      | true =>
          have hadd : (found.declare ⟨String.ofList edge.child.id, kind⟩).arena.addChild parent
              found.arena.size = .ok _ := addChild_push hlt hcomposite _
          simp only [hadd] at h
          obtain rfl := Except.ok.inj h
          exact ⟨found, parent, bracket, kind, hparent, hlt, hcomposite, hbracket, hkind, hnew, rfl⟩
  · rintro ⟨found, parent, bracket, kind, hresolve, hlt, hcomposite, hbracket, hkind, hnew, rfl⟩
    have hadd : (found.declare ⟨String.ofList edge.child.id, kind⟩).arena.addChild parent
        found.arena.size = .ok _ := addChild_push hlt hcomposite _
    have hdeclared := resolve_eq_ok_iff.mpr (.inr ⟨bracket, kind, hbracket, hkind, hnew, rfl, rfl⟩)
    rw [addEdge, hresolve]
    change (found.resolve edge.child >>= _) = _
    rw [hdeclared]
    dsimp only [bind, Except.bind]
    rw [hadd]
    rfl

/-- A line that is no edge declares a node, as the first one of its block. -/
theorem readLine_eq_ok {b b' : Block} {line : List Char} (h : b.readLine line = .ok b') :
    (∃ edge, Edge.read? line = some edge ∧ b.addEdge edge = .ok b') ∨
      ∃ token found root, Edge.read? line = none ∧ b.arena.isEmpty ∧
        Token.read? (Text.trim line) = some token ∧ token.bracket.isSome ∧
        b.resolve token = .ok (found, root) ∧ b' = { found with root := some root } := by
  rw [readLine] at h
  cases hedge : Edge.read? line with
  | some edge =>
      rw [hedge] at h
      exact .inl ⟨edge, rfl, h⟩
  | none =>
      simp only [hedge] at h
      split at h
      · next token htoken =>
          obtain ⟨⟨found, root⟩, hresolve, h⟩ := exists_ok_of_bind h
          obtain ⟨hsingle, hbracket⟩ := Option.filter_eq_some_iff.mp htoken
          obtain ⟨hempty, htoken⟩ := Option.ite_none_right_eq_some.mp hsingle
          exact .inr ⟨token, found, root, rfl, hempty, htoken, hbracket, hresolve,
            (Except.ok.inj h).symm⟩
      · cases h

/-! ### Sound blocks -/

/-- The table of a block being read is in order, and nothing in it has begun. -/
structure Growing (b : Block) : Prop where
  linked : b.arena.Linked
  fresh : ∀ i, b.arena.status i = .notEntered
  hasAction_iff : b.hasAction = true ↔ ∃ i < b.arena.size, (b.arena.kind i).isAction

/-- The table of a block is in order, and the root is its first node. -/
structure Sound (b : Block) : Prop extends b.Growing where
  root_eq : ∀ r, b.root = some r → r = 0 ∧ 0 < b.arena.size
  size_eq : b.root = none → b.arena.size = 0

theorem Sound.start (number : Nat) : (Block.start number).Sound where
  linked := linked_empty
  fresh i := by rw [Block.start, status, node_of_size_le (Nat.zero_le i)]; rfl
  hasAction_iff := ⟨nofun, fun ⟨i, hi, _⟩ => absurd hi (Nat.not_lt_zero i)⟩
  root_eq r hr := by cases hr
  size_eq _ := rfl

/-- A table has an action after a new row if it had one before or the new row is one. -/
theorem hasAction_grow {t u : Arena} {hasAction : Bool} {kind : NodeKind}
    (h : hasAction = true ↔ ∃ i < t.size, (t.kind i).isAction) (hsize : u.size = t.size + 1)
    (hkind : ∀ i, u.kind i = if i = t.size then kind else t.kind i) :
    (hasAction || kind.isAction) = true ↔ ∃ i < u.size, (u.kind i).isAction := by
  rw [Bool.or_eq_true, h, hsize]
  constructor
  · rintro (⟨i, hi, haction⟩ | haction)
    · exact ⟨i, Nat.lt_succ_of_lt hi, by rwa [hkind, if_neg (Nat.ne_of_lt hi)]⟩
    · exact ⟨t.size, Nat.lt_succ_self _, by rwa [hkind, if_pos rfl]⟩
  · rintro ⟨i, hi, haction⟩
    rcases Nat.lt_succ_iff_lt_or_eq.mp hi with hlt | rfl
    · exact .inl ⟨i, hlt, by rwa [hkind, if_neg (Nat.ne_of_lt hlt)] at haction⟩
    · exact .inr (by rwa [hkind, if_pos rfl] at haction)

/-- Declaring a new node keeps the table in order. -/
theorem Growing.declare {b : Block} (h : b.Growing) {spec : NodeSpec}
    (hid : b.arena.hasNode spec.id = false) : (b.declare spec).Growing where
  linked := h.linked.push hid
  fresh i := by
    rw [Block.declare, status, node_push]
    split
    · rfl
    · exact h.fresh i
  hasAction_iff := hasAction_grow h.hasAction_iff (size_push ..) fun i => by
    rw [Block.declare, Arena.kind, node_push, Arena.kind]
    split <;> rfl

/-- Attaching a new node keeps the table in order. -/
theorem Growing.attach {b : Block} (h : b.Growing) {parent : NodeIdx} {spec : NodeSpec}
    (hid : b.arena.hasNode spec.id = false) (hlt : parent < b.arena.size)
    (hkind : (b.arena.kind parent).isComposite) : (b.attach parent spec).Growing where
  linked := h.linked.sprout hid hlt hkind (List.perm_append_singleton ..)
  fresh i := by
    rw [Block.attach, status_sprout hlt]
    exact h.fresh i
  hasAction_iff := hasAction_grow h.hasAction_iff (size_sprout ..) fun i => kind_sprout hlt ..

/-- Resolving a token keeps the table in order. -/
theorem Growing.resolve {b b' : Block} (h : b.Growing) {token : Token} {i : NodeIdx}
    (hresolve : b.resolve token = .ok (b', i)) : b'.Growing := by
  rcases resolve_eq_ok_iff.mp hresolve with ⟨-, -, rfl⟩ | ⟨bracket, kind, -, -, hnew, -, rfl⟩
  · exact h
  · exact h.declare hnew

/-- The root of a block stays while tokens are resolved. -/
theorem root_of_resolve {b b' : Block} {token : Token} {i : NodeIdx}
    (h : b.resolve token = .ok (b', i)) : b'.root = b.root := by
  rcases resolve_eq_ok_iff.mp h with ⟨-, -, rfl⟩ | ⟨bracket, kind, -, -, -, -, rfl⟩ <;> rfl

/-- A node that is resolved leaves the rows before it. -/
theorem kept_of_resolve {b b' : Block} {token : Token} {i : NodeIdx}
    (h : b.resolve token = .ok (b', i)) :
    b.arena.KeptIn b'.arena ∧ b'.number = b.number := by
  rcases resolve_eq_ok_iff.mp h with ⟨-, -, rfl⟩ | ⟨bracket, kind, -, -, -, -, rfl⟩
  · exact ⟨.refl _, rfl⟩
  · exact ⟨.push _ _, rfl⟩

/-- The first node that is resolved in a block stands in the first row. -/
theorem resolve_empty {b b' : Block} (hlinked : b.arena.Linked) (hempty : b.arena.size = 0)
    {token : Token} {i : NodeIdx} (h : b.resolve token = .ok (b', i)) : i = 0 := by
  rcases resolve_eq_ok_iff.mp h with ⟨-, hlookup, rfl⟩ | ⟨bracket, kind, -, -, -, rfl, -⟩
  · have hlt := ((hlinked.lookup?_iff _ _).mp hlookup).1
    exact absurd hlt (by rw [hempty]; exact Nat.not_lt_zero i)
  · exact hempty

/-- A line keeps a block sound. -/
theorem Sound.readLine {b b' : Block} (h : b.Sound) {line : List Char}
    (hline : b.readLine line = .ok b') : b'.Sound := by
  rcases readLine_eq_ok hline with ⟨edge, hedge, hadd⟩ |
    ⟨token, found, root, -, hempty, -, -, hresolve, rfl⟩
  · obtain ⟨found, parent, bracket, kind, hresolve, hlt, hkind, -, -, hnew, rfl⟩ :=
      (addEdge_eq_ok_iff h.linked (Edge.isSome_bracket_of_read? hedge)).mp hadd
    have hroot : found.root = b.root := root_of_resolve hresolve
    have hfirst : ∀ r, (found.attach parent ⟨String.ofList edge.child.id, kind⟩).root = some r →
        r = 0 := by
      intro r hr
      rw [Block.attach, hroot] at hr
      cases hb : b.root with
      | some s =>
          obtain rfl : s = r := by rw [hb] at hr; exact Option.some.inj hr
          exact (h.root_eq s hb).1
      | none =>
          obtain rfl : parent = r := by rw [hb] at hr; exact Option.some.inj hr
          exact resolve_empty h.linked (h.size_eq hb) hresolve
    exact
      { toGrowing := (h.toGrowing.resolve hresolve).attach hnew hlt hkind
        root_eq := fun r hr => ⟨hfirst r hr, by rw [Block.attach, size_sprout]; omega⟩
        size_eq := fun hnone => by
          rw [Block.attach] at hnone
          cases hfound : found.root <;> rw [hfound] at hnone <;> cases hnone }
  · have hzero : b.arena.size = 0 := by simpa [Arena.isEmpty, Arena.size] using hempty
    have hlt := lt_size_of_resolve h.linked hresolve
    have hgrowing := h.toGrowing.resolve hresolve
    obtain rfl := resolve_empty h.linked hzero hresolve
    exact
      { linked := hgrowing.linked
        fresh := hgrowing.fresh
        hasAction_iff := hgrowing.hasAction_iff
        root_eq := fun r hr => ⟨(Option.some.inj hr).symm, hlt⟩
        size_eq := fun hnone => by cases hnone }

/-- A line leaves the rows before it, and the root of the block if there was one. -/
theorem Sound.kept_readLine {b b' : Block} (h : b.Sound) {root : NodeIdx}
    (hroot : b.root = some root) {line : List Char} (hline : b.readLine line = .ok b') :
    b.arena.KeptIn b'.arena ∧ b'.number = b.number ∧ b'.root = some root := by
  rcases readLine_eq_ok hline with ⟨edge, hedge, hadd⟩ | ⟨token, found, i, -, hempty, -⟩
  · obtain ⟨found, parent, bracket, kind, hresolve, hlt, -, -, -, -, rfl⟩ :=
      (addEdge_eq_ok_iff h.linked (Edge.isSome_bracket_of_read? hedge)).mp hadd
    obtain ⟨hkept, hnumber⟩ := kept_of_resolve hresolve
    refine ⟨hkept.trans (.sprout hlt _ _), hnumber, ?_⟩
    rw [Block.attach, root_of_resolve hresolve, hroot]
    rfl
  · have hlt := (h.root_eq root hroot).2
    have hzero : b.arena.size = 0 := by simpa [Arena.isEmpty, Arena.size] using hempty
    exact absurd hlt (hzero ▸ Nat.lt_irrefl 0)

/-- A closed block is the tree below its root, which reaches every node. -/
theorem close_eq_ok {b : Block} {t : Tree} (h : b.close = .ok t) :
    ∃ root, b.root = some root ∧ b.arena.unreachableFrom root = [] ∧ b.hasAction = true ∧
      t = Tree.ofArena b.arena root := by
  rw [close] at h
  cases hroot : b.root with
  | none =>
      rw [hroot] at h
      cases h
  | some root =>
      simp only [hroot] at h
      cases hreached : b.arena.unreachableFrom root with
      | cons id ids =>
          rw [hreached] at h
          cases h
      | nil =>
          simp only [hreached] at h
          cases haction : b.hasAction with
          | false =>
              rw [haction] at h
              cases h
          | true =>
              rw [haction] at h
              exact ⟨root, rfl, hreached, rfl, (Except.ok.inj h).symm⟩

/-- A node that the root reaches is the root or has a parent. -/
theorem eq_root_of_reached {t : Arena} (hlinked : t.Linked) {root : NodeIdx} (hroot : root < t.size)
    (hreached : t.unreachableFrom root = []) {i : NodeIdx} (hi : i < t.size)
    (hparent : t.parent? i = none) : i = root := by
  obtain ⟨missed, -, hmissed, hnames⟩ := hlinked.exists_missed (hlinked.ringless root) hroot
  rw [hreached] at hnames
  obtain rfl := List.map_eq_nil_iff.mp hnames.symm
  have hreach : t.Reaches root i := by
    by_contra hnot
    exact List.not_mem_nil ((hmissed i).mpr ⟨hi, hnot⟩)
  rcases Relation.ReflTransGen.cases_head (hlinked.reaches_iff.mp hreach) with rfl | ⟨p, hp, -⟩
  · rfl
  · rw [hparent] at hp
    cases hp

/-- A sound block all of whose nodes but the root have a parent is a sound tree. -/
theorem Sound.tree {b : Block} (h : b.Sound) {root : NodeIdx} (hroot : b.root = some root)
    (hparent : ∀ i < b.arena.size, b.arena.parent? i = none → i = root)
    (haction : b.hasAction = true) : (Tree.ofArena b.arena root).Sound := by
  obtain ⟨rfl, hlt⟩ := h.root_eq root hroot
  exact
    { linked := h.linked
      root_lt := hlt
      parent?_eq_none_iff := by
        intro i hi
        refine ⟨hparent i hi, ?_⟩
        rintro rfl
        cases hp : b.arena.parent? (Tree.ofArena b.arena 0).root with
        | none => exact hp
        | some p =>
            have hmem := (h.linked.parent?_iff p _).mp hp
            exact absurd (h.linked.lt p _ hmem) (Nat.not_lt_zero p)
      current_lt := hlt
      action := h.hasAction_iff.mp haction
      running := fun i hi => by
        rw [Tree.ofArena, h.fresh] at hi
        cases hi }

/-- A sound block is closed as a sound tree in which nothing has begun. -/
theorem Sound.close {b : Block} (h : b.Sound) {t : Tree} (hclose : b.close = .ok t) :
    t.Sound ∧ ∀ i, t.arena.status i = .notEntered := by
  obtain ⟨root, hroot, hreached, haction, rfl⟩ := close_eq_ok hclose
  obtain ⟨rfl, hlt⟩ := h.root_eq root hroot
  exact ⟨h.tree hroot (fun i hi => eq_root_of_reached h.linked hlt hreached hi) haction, h.fresh⟩

/-- Such a block can be closed. -/
theorem Sound.close_eq {b : Block} (h : b.Sound) {root : NodeIdx} (hroot : b.root = some root)
    (hparent : ∀ i < b.arena.size, b.arena.parent? i = none → i = root)
    (haction : b.hasAction = true) : b.close = .ok (Tree.ofArena b.arena root) := by
  have hperm := (h.tree hroot hparent haction).preorder_perm
  have hreached : b.arena.unreachableFrom root = [] := by
    rw [unreachableFrom, List.map_eq_nil_iff, List.filter_eq_nil_iff]
    intro i hi
    have hmem : i ∈ b.arena.preorderFrom root := hperm.mem_iff.mpr hi
    simpa using hmem
  rw [Block.close, hroot]
  simp only [hreached, haction]
  rfl

end Block

/-! ### Texts -/

/-- The block being read has one property, and the trees that have been closed have
another. -/
structure Reader.Holds (P : Block → Prop) (Q : Tree → Prop) (r : Reader) : Prop where
  block : ∀ b, r.block = some b → P b
  trees : ∀ t ∈ r.trees, Q t

section Texts

variable {P : Block → Prop} {Q : Tree → Prop}

namespace Reader

theorem Holds.start (ladybugs : Nat) : (Reader.start ladybugs).Holds P Q where
  block b hb := by cases hb
  trees t ht := by cases ht

/-- Closing the block makes one more tree. -/
theorem Holds.closeBlock {r r' : Reader} (h : r.Holds P Q)
    (hclosed : ∀ b t, P b → b.close = .ok t → Q t) (hclose : r.closeBlock = .ok r') :
    r'.Holds P Q := by
  rw [Reader.closeBlock] at hclose
  cases hblock : r.block with
  | none =>
      rw [hblock] at hclose
      obtain rfl := Except.ok.inj hclose
      exact h
  | some b =>
      simp only [hblock] at hclose
      cases hb : b.close with
      | error e =>
          rw [hb] at hclose
          cases hclose
      | ok t =>
          rw [hb] at hclose
          obtain rfl := Except.ok.inj hclose
          refine ⟨nofun, fun u hu => ?_⟩
          rcases List.mem_append.mp hu with hu | hu
          · exact h.trees u hu
          · obtain rfl := List.mem_singleton.mp hu
            exact hclosed b u (h.block b hblock) hb

/-- A line starts a block, or it goes on with one. -/
theorem Holds.readLine {r r' : Reader} (h : r.Holds P Q) (hstart : ∀ n, P (.start n))
    (hgrow : ∀ b b' line, P b → b.readLine line = .ok b' → P b')
    (hclosed : ∀ b t, P b → b.close = .ok t → Q t) {number : Nat} {line : String}
    (hline : r.readLine number line = .ok r') : r'.Holds P Q := by
  rw [Reader.readLine] at hline
  split at hline
  · obtain rfl := Except.ok.inj hline
    exact h
  · split at hline
    · obtain ⟨closed, hclose, hopen⟩ := exists_ok_of_bind hline
      have hholds := h.closeBlock hclosed hclose
      rw [openBlock] at hopen
      split at hopen
      · cases hopen
      · obtain rfl := Except.ok.inj hopen
        refine ⟨fun b hb => ?_, hholds.trees⟩
        obtain rfl := Option.some.inj hb
        exact hstart _
    · split at hline
      · cases hline
      · next b hb =>
          split at hline
          · cases hline
          · next b' hb' =>
              obtain rfl := Except.ok.inj hline
              refine ⟨fun c hc => ?_, h.trees⟩
              obtain rfl := Option.some.inj hc
              exact hgrow b b' _ (h.block b hb) hb'

/-- So do several lines. -/
theorem Holds.readLines {r r' : Reader} (h : r.Holds P Q) (hstart : ∀ n, P (.start n))
    (hgrow : ∀ b b' line, P b → b.readLine line = .ok b' → P b')
    (hclosed : ∀ b t, P b → b.close = .ok t → Q t) {number : Nat} {lines : List String}
    (hlines : r.readLines number lines = .ok r') : r'.Holds P Q := by
  induction lines generalizing r number with
  | nil =>
      obtain rfl := Except.ok.inj hlines
      exact h
  | cons line rest ih =>
      obtain ⟨next, hnext, hrest⟩ := exists_ok_of_bind hlines
      exact ih (h.readLine hstart hgrow hclosed hnext) hrest

end Reader

/-- **A property of the trees that are read is shown block by block.** It starts with the
block, every line keeps it, and closing the block turns it into the property of the tree. -/
theorem forall_of_readTrees (hstart : ∀ n, P (.start n))
    (hgrow : ∀ b b' line, P b → b.readLine line = .ok b' → P b')
    (hclosed : ∀ b t, P b → b.close = .ok t → Q t) {lines : List String} {ladybugs : Nat}
    {trees : List Tree} (h : readTrees lines ladybugs = .ok trees) : ∀ t ∈ trees, Q t := by
  obtain ⟨r, hr, hclose⟩ := exists_ok_of_bind h
  obtain ⟨closed, hclosing, hclose⟩ := exists_ok_of_bind hclose
  have hholds :=
    ((Reader.Holds.start ladybugs).readLines hstart hgrow hclosed hr).closeBlock hclosed hclosing
  split at hclose
  · cases hclose
  · obtain rfl := Except.ok.inj hclose
    exact hholds.trees

end Texts

/-- Every tree of a text is sound, and nothing in it has begun. -/
theorem sound_of_readTrees {lines : List String} {ladybugs : Nat} {trees : List Tree}
    (h : readTrees lines ladybugs = .ok trees) {t : Tree} (ht : t ∈ trees) :
    t.Sound ∧ ∀ i, t.arena.status i = .notEntered :=
  forall_of_readTrees Block.Sound.start (fun _ _ _ hb hline => hb.readLine hline)
    (fun _ _ hb hclose => hb.close hclose) h t ht

end Ladybug.Flowchart
