import Ladybug.Proofs.Drawing
import Ladybug.Proofs.RoundTrip

/-!
# Which texts are read

The reader accepts exactly the texts that describe sketches, and it makes exactly the trees
that are drawn in them. It goes through the lines once, so the two sides are compared line by
line: a blank line changes nothing on either side, a header ends one piece of the text and
closes one block, and any other line belongs to the piece and to the block that is open.

## Main definitions

* `Block.Makes` — the block is closed as a tree after some lines.
* `Made` — the blocks of a text are closed as some trees.
* `Reader.Finishes` — the reader makes some trees of the lines that are left.

## Main results

* `Reader.finishes_iff` — what a reader with an open block makes of the lines left.
* `readTrees_eq_ok_iff` — what the reader makes of a text.
* `readTrees_describes` — texts that are read are those that describe sketches, and their
  trees show them.
-/

namespace Ladybug.Flowchart

open Text

/-! ### Lines as they are given -/

/-- Carriage returns behind a line do not matter to the edge that is read. -/
theorem Edge.read?_dropReturns (line : List Char) :
    Edge.read? (dropReturns line) = Edge.read? line := by
  refine Option.ext fun edge => ?_
  rw [Edge.read?_eq_some_iff, Edge.read?_eq_some_iff, Edge.isLongest_dropReturns]

/-- Carriage returns behind a line do not matter to the block. -/
theorem Block.readLine_dropReturns (b : Block) (line : List Char) :
    b.readLine (dropReturns line) = b.readLine line := by
  rw [Block.readLine, Edge.read?_dropReturns, trim_dropReturns, Block.readLine]

section WrittenLines

variable {line : String} {lines : List String}

theorem writtenLines_of_blank (h : trim line.toList = []) :
    writtenLines (line :: lines) = writtenLines lines := by
  rw [writtenLines, List.map_cons, List.filter_cons_of_neg (by rw [h]; decide), writtenLines]

theorem writtenLines_cons (h : trim line.toList ≠ []) :
    writtenLines (line :: lines) = line.toList :: writtenLines lines := by
  rw [writtenLines, List.map_cons, List.filter_cons_of_pos (by simpa using h), writtenLines]

end WrittenLines

/-- The first piece ends before the first header. -/
theorem exists_pieces (lines : List String) :
    ∃ piece blocks, (writtenLines lines).splitOnP isHeader = piece :: blocks :=
  List.exists_cons_of_ne_nil (List.splitOnP_ne_nil isHeader (writtenLines lines))

namespace Reader

variable {r r' : Reader} {line : String} (number : Nat)

/-- The reader behind the header that ends a block. -/
def next (r : Reader) (t : Tree) : Reader :=
  { r with
    headers := r.headers + 1
    trees := r.trees ++ [t]
    block := some (.start (r.headers + 1)) }

theorem readLine_of_blank (h : trim line.toList = []) : r.readLine number line = .ok r := by
  rw [readLine, trim_dropReturns, h]
  rfl

theorem readLine_of_isHeader (h : isHeader line.toList = true) :
    r.readLine number line = r.closeBlock >>= openBlock := by
  have htext : trim line.toList = header.toList := beq_iff_eq.mp h
  rw [readLine, trim_dropReturns, htext]
  rfl

/-- The open block becomes one more tree. -/
theorem closeBlock_eq_ok_iff {b : Block} (hblock : r.block = some b) :
    r.closeBlock = .ok r' ↔
      ∃ t, b.close = .ok t ∧ r' = { r with trees := r.trees ++ [t], block := none } := by
  rw [closeBlock, hblock]
  cases hclose : b.close with
  | error e =>
      simp only [hclose]
      constructor
      · intro h
        cases h
      · rintro ⟨t, ht, -⟩
        cases ht
  | ok t =>
      simp only [hclose]
      constructor
      · intro h
        exact ⟨t, rfl, (Except.ok.inj h).symm⟩
      · rintro ⟨t', ht', rfl⟩
        obtain rfl := Except.ok.inj ht'
        rfl

/-- A header ends the open block, unless there are too many trees. -/
theorem readLine_header_eq_ok_iff (h : isHeader line.toList = true) {b : Block}
    (hblock : r.block = some b) :
    r.readLine number line = .ok r' ↔
      ∃ t, b.close = .ok t ∧ r.headers + 1 ≤ r.ladybugs ∧ r' = r.next t := by
  rw [readLine_of_isHeader number h]
  constructor
  · intro hread
    obtain ⟨closed, hclosed, hopen⟩ := exists_ok_of_bind hread
    obtain ⟨t, hclose, rfl⟩ := (closeBlock_eq_ok_iff hblock).mp hclosed
    rw [openBlock] at hopen
    split at hopen
    · cases hopen
    · next hmany => exact ⟨t, hclose, Nat.le_of_not_lt hmany, (Except.ok.inj hopen).symm⟩
  · rintro ⟨t, hclose, hle, rfl⟩
    rw [(closeBlock_eq_ok_iff hblock).mpr ⟨t, hclose, rfl⟩]
    exact if_neg (Nat.not_lt_of_le hle)

/-- A line that is neither blank nor a header belongs to a block. -/
theorem readLine_of_body (hblank : trim line.toList ≠ [])
    (hheader : isHeader line.toList = false) :
    r.readLine number line =
      match r.block with
      | none => .error (.atLine number .missingHeader)
      | some b =>
        match b.readLine line.toList with
        | .error fault => .error (.atLine number fault)
        | .ok b' => .ok { r with block := some b' } := by
  have htext : trim line.toList ≠ header.toList := fun heq => by
    rw [isHeader, heq, beq_self_eq_true] at hheader
    cases hheader
  rw [readLine, trim_dropReturns]
  cases r.block with
  | none => simp [hblank, htext]
  | some b =>
      cases hline : b.readLine line.toList with
      | error fault => simp [hblank, htext, Block.readLine_dropReturns, hline]
      | ok b' => simp [hblank, htext, Block.readLine_dropReturns, hline]

theorem readLine_body_eq_ok_iff (hblank : trim line.toList ≠ [])
    (hheader : isHeader line.toList = false) {b : Block} (hblock : r.block = some b) :
    r.readLine number line = .ok r' ↔
      ∃ b', b.readLine line.toList = .ok b' ∧ r' = { r with block := some b' } := by
  rw [readLine_of_body number hblank hheader, hblock]
  cases hline : b.readLine line.toList with
  | error fault =>
      simp only [hline]
      exact ⟨nofun, nofun⟩
  | ok b' =>
      simp only [hline]
      constructor
      · intro h
        exact ⟨b', rfl, (Except.ok.inj h).symm⟩
      · rintro ⟨b'', hb'', rfl⟩
        obtain rfl := Except.ok.inj hb''
        rfl

end Reader

/-! ### Blocks that are closed -/

/-- The block is closed as the tree after the lines. -/
def Block.Makes (b : Block) (lines : List (List Char)) (t : Tree) : Prop :=
  ∃ b', lines.foldlM Block.readLine b = .ok b' ∧ b'.close = .ok t

/-- The blocks are closed as the trees, one by one. They are counted on from the number. -/
inductive Made : Nat → List (List (List Char)) → List Tree → Prop
  | nil {number : Nat} : Made number [] []
  | cons {number : Nat} {lines : List (List Char)} {blocks : List (List (List Char))} {t : Tree}
      {trees : List Tree} (hblock : (Block.start (number + 1)).Makes lines t)
      (hrest : Made (number + 1) blocks trees) : Made number (lines :: blocks) (t :: trees)

theorem Block.makes_nil {b : Block} {t : Tree} : b.Makes [] t ↔ b.close = .ok t := by
  constructor
  · rintro ⟨b', hb', hclose⟩
    obtain rfl := Except.ok.inj hb'
    exact hclose
  · exact fun hclose => ⟨b, rfl, hclose⟩

theorem Block.makes_cons {b : Block} {line : List Char} {lines : List (List Char)} {t : Tree} :
    b.Makes (line :: lines) t ↔ ∃ next, b.readLine line = .ok next ∧ next.Makes lines t := by
  constructor
  · rintro ⟨b', hb', hclose⟩
    obtain ⟨next, hnext, hrest⟩ := exists_ok_of_bind hb'
    exact ⟨next, hnext, b', hrest, hclose⟩
  · rintro ⟨next, hnext, b', hrest, hclose⟩
    refine ⟨b', ?_, hclose⟩
    rw [List.foldlM_cons, hnext]
    exact hrest

theorem made_cons_iff {number : Nat} {lines : List (List Char)} {blocks : List (List (List Char))}
    {trees : List Tree} :
    Made number (lines :: blocks) trees ↔ ∃ t ts, (Block.start (number + 1)).Makes lines t ∧
      Made (number + 1) blocks ts ∧ trees = t :: ts := by
  constructor
  · intro h
    cases h with
    | cons hblock hrest => exact ⟨_, _, hblock, hrest, rfl⟩
  · rintro ⟨t, ts, hblock, hrest, rfl⟩
    exact .cons hblock hrest

/-- The trees of closed blocks show what the lines draw. -/
theorem Made.exists_sketches {number : Nat} {blocks : List (List (List Char))} {trees : List Tree}
    (h : Made number blocks trees) :
    ∃ sketches, List.Forall₂ Draws blocks sketches ∧ ∀ s ∈ sketches, s.HasAction := by
  induction h with
  | nil => exact ⟨[], .nil, nofun⟩
  | cons hblock hrest ih =>
      obtain ⟨b, hlines, hclose⟩ := hblock
      obtain ⟨sketches, hdraws, hactions⟩ := ih
      obtain ⟨s, hs, haction, -⟩ := ((Block.Tells.opened _).foldlM hlines).close hclose
      exact ⟨s :: sketches, .cons hs hdraws, List.forall_mem_cons.mpr ⟨haction, hactions⟩⟩

/-- Lines that draw sketches with actions are closed as trees that show them. -/
theorem exists_made {blocks : List (List (List Char))} {sketches : List Sketch}
    (h : List.Forall₂ Draws blocks sketches) (hactions : ∀ s ∈ sketches, s.HasAction)
    (number : Nat) : ∃ trees, Made number blocks trees ∧ List.Forall₂ Tree.Shows trees sketches := by
  induction h generalizing number with
  | nil => exact ⟨[], .nil, .nil⟩
  | cons hdraws hrest ih =>
      obtain ⟨haction, hactions⟩ := List.forall_mem_cons.mp hactions
      obtain ⟨trees, hmade, hshows⟩ := ih hactions (number + 1)
      obtain ⟨b, hlines, hb⟩ := hdraws.exists_foldlM (number + 1)
      have hclose := hb.close_eq_ok_iff.mpr ⟨haction, rfl⟩
      exact ⟨Tree.ofArena b.arena 0 :: trees, .cons ⟨b, hlines, hclose⟩ hmade,
        .cons hb.tree hshows⟩

/-! ### Texts -/

namespace Reader

/-- The reader makes the trees of the lines that are left. -/
def Finishes (r : Reader) (number : Nat) (lines : List String) (trees : List Tree) : Prop :=
  (r.readLines number lines >>= close) = .ok trees

/-- The reader goes on behind a line that it has read. -/
theorem finishes_cons_iff {r : Reader} {number : Nat} {line : String} {lines : List String}
    {trees : List Tree} :
    r.Finishes number (line :: lines) trees ↔
      ∃ next, r.readLine number line = .ok next ∧ next.Finishes (number + 1) lines trees := by
  have hsteps : (r.readLines number (line :: lines) >>= close) =
      r.readLine number line >>= fun next => next.readLines (number + 1) lines >>= close :=
    bind_assoc ..
  rw [Finishes, hsteps]
  constructor
  · exact exists_ok_of_bind
  · rintro ⟨next, hnext, hrest⟩
    rw [hnext]
    exact hrest

/-- At the end, the open block becomes the last tree. -/
theorem close_eq_ok_iff {r : Reader} {b : Block} (hblock : r.block = some b) {trees : List Tree} :
    r.close = .ok trees ↔ ∃ t, b.close = .ok t ∧ trees = r.trees ++ [t] := by
  constructor
  · intro h
    obtain ⟨closed, hclosed, htrees⟩ := exists_ok_of_bind h
    obtain ⟨t, hclose, rfl⟩ := (closeBlock_eq_ok_iff hblock).mp hclosed
    rw [if_neg (by simp)] at htrees
    exact ⟨t, hclose, (Except.ok.inj htrees).symm⟩
  · rintro ⟨t, hclose, rfl⟩
    rw [close, (closeBlock_eq_ok_iff hblock).mpr ⟨t, hclose, rfl⟩]
    exact if_neg (by simp)

/-- A blank line changes nothing. -/
theorem finishes_cons_of_blank {r : Reader} {number : Nat} {line : String} {lines : List String}
    {trees : List Tree} (hblank : trim line.toList = []) :
    r.Finishes number (line :: lines) trees ↔ r.Finishes (number + 1) lines trees := by
  rw [finishes_cons_iff, readLine_of_blank number hblank]
  constructor
  · rintro ⟨next, hnext, hrest⟩
    obtain rfl := Except.ok.inj hnext
    exact hrest
  · exact fun hrest => ⟨r, rfl, hrest⟩

/-- What a reader with an open block makes of the lines that are left: their first piece ends
the block, and every other piece is a block of its own. -/
theorem finishes_iff {lines : List String} {r : Reader} {b : Block}
    {piece : List (List Char)} {blocks : List (List (List Char))} {trees : List Tree} {number : Nat}
    (hblock : r.block = some b) (hheaders : r.headers ≤ r.ladybugs)
    (hpieces : (writtenLines lines).splitOnP isHeader = piece :: blocks) :
    r.Finishes number lines trees ↔
      ∃ t ts, b.Makes piece t ∧ Made r.headers blocks ts ∧
        r.headers + blocks.length ≤ r.ladybugs ∧ trees = r.trees ++ t :: ts := by
  induction lines generalizing r b piece blocks number with
  | nil =>
      obtain ⟨rfl, rfl⟩ := List.cons.inj hpieces
      change r.close = .ok trees ↔ _
      rw [close_eq_ok_iff hblock]
      constructor
      · rintro ⟨t, hclose, rfl⟩
        exact ⟨t, [], Block.makes_nil.mpr hclose, .nil, hheaders, rfl⟩
      · rintro ⟨t, ts, hmakes, hmade, -, rfl⟩
        cases hmade
        exact ⟨t, Block.makes_nil.mp hmakes, rfl⟩
  | cons line lines ih =>
      obtain ⟨piece', blocks', hrest⟩ := exists_pieces lines
      by_cases hblank : trim line.toList = []
      · -- A blank line is not one of the written lines.
        rw [writtenLines_of_blank hblank] at hpieces
        rw [finishes_cons_of_blank hblank]
        exact ih hblock hheaders hpieces
      rw [writtenLines_cons hblank, List.splitOnP_cons_eq_if_modifyHead, hrest] at hpieces
      rw [finishes_cons_iff]
      cases hheader : isHeader line.toList with
      | true =>
          -- The header closes the block, and the next piece is the block behind it.
          rw [if_pos hheader] at hpieces
          obtain ⟨rfl, rfl⟩ := List.cons.inj hpieces
          have hnext (t : Tree) : (r.next t).trees = r.trees ++ [t] := rfl
          rw [List.length_cons, Nat.add_comm blocks'.length, ← Nat.add_assoc]
          constructor
          · rintro ⟨next, hread, hrun⟩
            obtain ⟨t, hclose, hle, rfl⟩ :=
              (readLine_header_eq_ok_iff number hheader hblock).mp hread
            obtain ⟨t', ts, hmakes, hmade, hlen, rfl⟩ := (ih rfl hle hrest).mp hrun
            refine ⟨t, t' :: ts, Block.makes_nil.mpr hclose, .cons hmakes hmade, hlen, ?_⟩
            rw [hnext, List.append_assoc, List.singleton_append]
          · rintro ⟨t, all, hmakes, hmade, hlen, rfl⟩
            obtain ⟨t', ts, hmakes', hmade', rfl⟩ := made_cons_iff.mp hmade
            have hle : r.headers + 1 ≤ r.ladybugs := Nat.le_trans (Nat.le_add_right ..) hlen
            refine ⟨r.next t, (readLine_header_eq_ok_iff number hheader hblock).mpr
              ⟨t, Block.makes_nil.mp hmakes, hle, rfl⟩, (ih rfl hle hrest).mpr
              ⟨t', ts, hmakes', hmade', hlen, ?_⟩⟩
            rw [hnext, List.append_assoc, List.singleton_append]
      | false =>
          -- The line is the first one of the piece.
          rw [if_neg (by rw [hheader]; decide)] at hpieces
          obtain ⟨rfl, rfl⟩ := List.cons.inj hpieces
          have hopen (b' : Block) : ({ r with block := some b' } : Reader).block = some b' := rfl
          constructor
          · rintro ⟨next, hread, hrun⟩
            obtain ⟨b', hb', rfl⟩ :=
              (readLine_body_eq_ok_iff number hblank hheader hblock).mp hread
            obtain ⟨t, ts, hmakes, hall⟩ := (ih (hopen b') hheaders hrest).mp hrun
            exact ⟨t, ts, Block.makes_cons.mpr ⟨b', hb', hmakes⟩, hall⟩
          · rintro ⟨t, ts, hmakes, hall⟩
            obtain ⟨b', hb', hmakes⟩ := Block.makes_cons.mp hmakes
            exact ⟨_, (readLine_body_eq_ok_iff number hblank hheader hblock).mpr ⟨b', hb', rfl⟩,
              (ih (hopen b') hheaders hrest).mpr ⟨t, ts, hmakes, hall⟩⟩

/-- The first header opens the first block, if there is a ladybug for it. -/
theorem readLine_first_header_eq_ok_iff {ladybugs : Nat} {r : Reader} {line : String} (number : Nat)
    (h : isHeader line.toList = true) :
    (start ladybugs).readLine number line = .ok r ↔ 1 ≤ ladybugs ∧ r = opened ladybugs := by
  rw [readLine_of_isHeader number h]
  change openBlock (start ladybugs) = _ ↔ _
  rw [openBlock]
  split
  · next hmany =>
      constructor
      · intro hopen
        cases hopen
      · rintro ⟨hle, -⟩
        exact absurd hmany (Nat.not_lt_of_le hle)
  · next hmany =>
      constructor
      · intro hopen
        exact ⟨Nat.le_of_not_lt hmany, (Except.ok.inj hopen).symm⟩
      · rintro ⟨-, rfl⟩
        rfl

/-- What a reader makes of a text before the first header. -/
theorem start_finishes_iff {lines : List String} {ladybugs : Nat} {trees : List Tree}
    {number : Nat} :
    (start ladybugs).Finishes number lines trees ↔
      ∃ blocks, (writtenLines lines).splitOnP isHeader = [] :: blocks ∧ Made 0 blocks trees ∧
        1 ≤ blocks.length ∧ blocks.length ≤ ladybugs := by
  induction lines generalizing number with
  | nil =>
      refine ⟨nofun, ?_⟩
      rintro ⟨blocks, hblocks, -, hpos, -⟩
      obtain ⟨-, rfl⟩ := List.cons.inj hblocks
      cases hpos
  | cons line lines ih =>
      obtain ⟨piece, blocks, hrest⟩ := exists_pieces lines
      by_cases hblank : trim line.toList = []
      · rw [finishes_cons_of_blank hblank, writtenLines_of_blank hblank]
        exact ih
      rw [finishes_cons_iff, writtenLines_cons hblank, List.splitOnP_cons_eq_if_modifyHead, hrest]
      cases hheader : isHeader line.toList with
      | true =>
          rw [if_pos rfl]
          constructor
          · rintro ⟨next, hread, hrun⟩
            obtain ⟨hle, rfl⟩ := (readLine_first_header_eq_ok_iff number hheader).mp hread
            obtain ⟨t, ts, hmakes, hmade, hlen, rfl⟩ := (finishes_iff rfl hle hrest).mp hrun
            refine ⟨piece :: blocks, rfl, .cons hmakes hmade, Nat.succ_pos _, ?_⟩
            rw [List.length_cons, Nat.add_comm]
            exact hlen
          · rintro ⟨all, hall, hmade, -, hlen⟩
            obtain ⟨-, rfl⟩ := List.cons.inj hall
            obtain ⟨t, ts, hmakes, hmade', rfl⟩ := made_cons_iff.mp hmade
            rw [List.length_cons, Nat.add_comm] at hlen
            have hle : 1 ≤ ladybugs := Nat.le_trans (Nat.le_add_right ..) hlen
            exact ⟨_, (readLine_first_header_eq_ok_iff number hheader).mpr ⟨hle, rfl⟩,
              (finishes_iff rfl hle hrest).mpr ⟨t, ts, hmakes, hmade', hlen, rfl⟩⟩
      | false =>
          -- There is no block for the line, and no piece without lines begins with it.
          rw [if_neg (by decide), readLine_of_body number hblank hheader]
          constructor
          · rintro ⟨next, hread, -⟩
            cases hread
          · rintro ⟨all, hall, -⟩
            cases hall

end Reader

/-- What is made of a text: its blocks, one by one. -/
theorem readTrees_eq_ok_iff {lines : List String} {ladybugs : Nat} {trees : List Tree} :
    readTrees lines ladybugs = .ok trees ↔
      ∃ blocks, (writtenLines lines).splitOnP isHeader = [] :: blocks ∧ Made 0 blocks trees ∧
        1 ≤ blocks.length ∧ blocks.length ≤ ladybugs :=
  Reader.start_finishes_iff

/-- A text that describes sketches is read as trees that show them. -/
theorem Describes.exists_trees {lines : List String} {ladybugs : Nat} {sketches : List Sketch}
    (h : Describes lines ladybugs sketches) :
    ∃ trees, readTrees lines ladybugs = .ok trees ∧ List.Forall₂ Tree.Shows trees sketches := by
  obtain ⟨blocks, hblocks, hdraws⟩ := h.blocks
  obtain ⟨trees, hmade, hshows⟩ := exists_made hdraws h.actions 0
  have hlen := hdraws.length_eq
  exact ⟨trees, readTrees_eq_ok_iff.mpr ⟨blocks, hblocks, hmade, hlen ▸ h.some_tree,
    hlen ▸ h.enough_ladybugs⟩, hshows⟩

/-- **The texts that are read are exactly those that describe sketches.** The trees of such a
text are exactly those in the sketches, one behind each header. -/
theorem readTrees_describes (lines : List String) (ladybugs : Nat) :
    ((∃ trees, readTrees lines ladybugs = .ok trees) ↔
        ∃ sketches, Describes lines ladybugs sketches) ∧
      ∀ trees, readTrees lines ladybugs = .ok trees →
        ∀ sketches, Describes lines ladybugs sketches → List.Forall₂ Tree.Shows trees sketches := by
  refine ⟨⟨?_, ?_⟩, ?_⟩
  · rintro ⟨trees, hread⟩
    obtain ⟨blocks, hblocks, hmade, hpos, hle⟩ := readTrees_eq_ok_iff.mp hread
    obtain ⟨sketches, hdraws, hactions⟩ := hmade.exists_sketches
    have hlen := hdraws.length_eq
    exact ⟨sketches, ⟨blocks, hblocks, hdraws⟩, hlen ▸ hpos, hlen ▸ hle, hactions⟩
  · rintro ⟨sketches, hdescribes⟩
    obtain ⟨trees, hread, -⟩ := hdescribes.exists_trees
    exact ⟨trees, hread⟩
  · intro trees hread sketches hdescribes
    obtain ⟨trees', hread', hshows⟩ := hdescribes.exists_trees
    obtain rfl := Except.ok.inj (hread.symm.trans hread')
    exact hshows

/-- Two trees, one of them a single node, with blank lines, carriage returns and arrows in
names. -/
theorem readTrees_describes_two : ∃ trees sketches,
    readTrees ["", " flowchart TD\r", "A-->B[->]-->C[move]", "  A-->B --> D([atEdge])\r", "\t",
        "flowchart TD", "  alone[move] "] 2 = .ok trees ∧
      Describes ["", " flowchart TD\r", "A-->B[->]-->C[move]", "  A-->B --> D([atEdge])\r", "\t",
        "flowchart TD", "  alone[move] "] 2 sketches ∧
      trees.length = 2 ∧ List.Forall₂ Tree.Shows trees sketches := by
  obtain ⟨first, second, hread⟩ : ∃ first second, readTrees ["", " flowchart TD\r",
      "A-->B[->]-->C[move]", "  A-->B --> D([atEdge])\r", "\t", "flowchart TD",
      "  alone[move] "] 2 = .ok [first, second] := ⟨_, _, rfl⟩
  obtain ⟨haccepted, hshows⟩ := readTrees_describes ["", " flowchart TD\r", "A-->B[->]-->C[move]",
    "  A-->B --> D([atEdge])\r", "\t", "flowchart TD", "  alone[move] "] 2
  obtain ⟨sketches, hdescribes⟩ := haccepted.mp ⟨_, hread⟩
  exact ⟨_, sketches, hread, hdescribes, rfl, hshows _ hread sketches hdescribes⟩

end Ladybug.Flowchart
