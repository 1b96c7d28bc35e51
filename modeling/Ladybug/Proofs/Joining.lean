import Ladybug.Proofs.Binding

/-!
# Several texts of trees are read like one

Trees may come in several texts. Each of them is read by itself, with as many trees allowed as
there are ladybugs left, and what it says is told in numbers of its own lines and trees. The
texts joined to one are read by a single reader, who meets the header of the next text with the
last block of the text before still open.

Both come to the same if every text begins with a header. A reader behind other texts does what
a reader of a text by itself does, with lines and trees counted on from those before. And if a
text begins with a header, it makes no difference whether the block before it is closed first.

## Main definitions

* `Flowchart.Headed` — the text begins with a header.
* `Reader.behind` — a reader that has read other texts before.
* `FlowchartError.Alike` — the same complaint, perhaps about other numbers.
* `Game.LoadsAlike` — loading several texts and loading them joined come to the same.

## Main results

* `Reader.readLines_behind` — a reader behind other texts does what it does by itself.
* `Reader.close_first` — before a header the open block may as well be closed.
* `Reader.Counted.readLines` — how many trees are too many.
* `Game.loadTreeFiles_flatten` — several texts are loaded like one.
-/

namespace Ladybug

/-! ### Complaints -/

namespace FlowchartError

/-- The complaint counted on from some lines and trees. -/
def countOn (lines trees : Nat) : FlowchartError → FlowchartError
  | atLine line fault => atLine (lines + line) fault
  | disconnected tree id => disconnected (trees + tree) id
  | noAction tree => noAction (trees + tree)
  | noTrees => noTrees
  | tooManyTrees count ladybugs => tooManyTrees (trees + count) (trees + ladybugs)

/-- Two complaints are the same, up to the numbers of a line and of a tree. -/
inductive Alike : FlowchartError → FlowchartError → Prop
  | atLine (line line' : Nat) (fault : LineFault) : Alike (.atLine line fault) (.atLine line' fault)
  | disconnected (tree tree' : Nat) (id : String) :
      Alike (.disconnected tree id) (.disconnected tree' id)
  | noAction (tree tree' : Nat) : Alike (.noAction tree) (.noAction tree')
  | noTrees : Alike .noTrees .noTrees
  | tooManyTrees (trees ladybugs : Nat) : Alike (.tooManyTrees trees ladybugs)
      (.tooManyTrees trees ladybugs)

/-- If there are too many trees, it is one too many for the ladybugs. -/
def Within (ladybugs : Nat) : FlowchartError → Prop
  | tooManyTrees count allowed => count = ladybugs + 1 ∧ allowed = ladybugs
  | _ => True

/-- Alike complaints are about as many trees. -/
theorem Alike.within {e e' : FlowchartError} {ladybugs : Nat} (h : e.Alike e')
    (hwithin : e.Within ladybugs) : e'.Within ladybugs := by
  cases h with
  | tooManyTrees count allowed => exact hwithin
  | atLine | disconnected | noAction | noTrees => exact trivial

end FlowchartError

namespace Flowchart

open Text

section Outcomes

variable {α β γ : Type}

/-- What a step comes to when lines and trees are counted on. -/
def countOn (lines trees : Nat) (f : α → β) :
    Except FlowchartError α → Except FlowchartError β
  | .ok value => .ok (f value)
  | .error error => .error (error.countOn lines trees)

/-- Steps that follow one another count on from the same. -/
theorem countOn_bind {lines trees : Nat} {f : α → β} {f' : γ → γ} {x : Except FlowchartError α}
    {next : α → Except FlowchartError γ} {next' : β → Except FlowchartError γ}
    (h : ∀ value, next' (f value) = countOn lines trees f' (next value)) :
    (countOn lines trees f x >>= next') = countOn lines trees f' (x >>= next) := by
  cases x with
  | error error => rfl
  | ok value => exact h value

/-- A step leaves something of one kind, or it stops with a complaint of another. -/
def Yields (P : α → Prop) (Q : FlowchartError → Prop) : Except FlowchartError α → Prop
  | .ok value => P value
  | .error error => Q error

theorem Yields.bind {P : α → Prop} {P' : β → Prop} {Q : FlowchartError → Prop}
    {x : Except FlowchartError α} {next : α → Except FlowchartError β} (h : Yields P Q x)
    (hnext : ∀ value, P value → Yields P' Q (next value)) : Yields P' Q (x >>= next) := by
  cases x with
  | error error => exact h
  | ok value => exact hnext value h

theorem Yields.imp {P P' : α → Prop} {Q : FlowchartError → Prop} {x : Except FlowchartError α}
    (h : Yields P Q x) (himp : ∀ value, P value → P' value) : Yields P' Q x := by
  cases x with
  | error error => exact h
  | ok value => exact himp value h

end Outcomes

/-! ### Readers behind other texts -/

namespace Block

/-- The block counted on from some trees. -/
def countOn (trees : Nat) (b : Block) : Block := { b with number := trees + b.number }

variable {b : Block} (trees : Nat)

/-- The number of a block does not matter to its tokens. -/
theorem resolve_countOn (token : Token) :
    (b.countOn trees).resolve token =
      (b.resolve token).map fun found => (found.1.countOn trees, found.2) := by
  rw [resolve, resolve]
  dsimp only [countOn]
  cases b.arena.lookup? (String.ofList token.id) with
  | some i => cases token.bracket <;> rfl
  | none =>
      cases token.bracket with
      | none => rfl
      | some bracket =>
          dsimp only [bind, Except.bind]
          cases bracket.kind with
          | error fault => rfl
          | ok kind =>
              dsimp only
              cases b.arena.addNode ⟨String.ofList token.id, kind⟩ <;> rfl

/-- The number of a block does not matter to its edges. -/
theorem addEdge_countOn (edge : Edge) :
    (b.countOn trees).addEdge edge = (b.addEdge edge).map (Block.countOn trees) := by
  rw [addEdge, addEdge, resolve_countOn]
  cases b.resolve edge.parent with
  | error fault => rfl
  | ok found =>
      obtain ⟨b', parent⟩ := found
      dsimp only [bind, Except.bind, Except.map]
      rw [resolve_countOn]
      cases b'.resolve edge.child with
      | error fault => rfl
      | ok found =>
          obtain ⟨b'', child⟩ := found
          dsimp only [Except.map, countOn]
          cases b''.arena.addChild parent child <;> rfl

/-- The number of a block does not matter to its lines. -/
theorem readLine_countOn (line : List Char) :
    (b.countOn trees).readLine line = (b.readLine line).map (Block.countOn trees) := by
  rw [readLine, readLine]
  cases Edge.read? line with
  | some edge => exact addEdge_countOn trees edge
  | none =>
      have harena : (b.countOn trees).arena = b.arena := rfl
      dsimp only
      rw [harena]
      cases (if b.arena.isEmpty then Token.read? (trim line) else none).filter
          fun token => token.bracket.isSome with
      | none => rfl
      | some token =>
          dsimp only
          rw [resolve_countOn]
          cases b.resolve token <;> rfl

/-- A block that is counted on tells its number so when it is closed. -/
theorem close_countOn (lines : Nat) :
    (b.countOn trees).close = Flowchart.countOn lines trees id b.close := by
  have hroot : (b.countOn trees).root = b.root := rfl
  have harena : (b.countOn trees).arena = b.arena := rfl
  have haction : (b.countOn trees).hasAction = b.hasAction := rfl
  rw [close, close, hroot, harena, haction]
  cases b.root with
  | none => rfl
  | some root =>
      dsimp only
      cases b.arena.unreachableFrom root with
      | cons name names => rfl
      | nil => cases b.hasAction <;> rfl

/-- A block that cannot be closed says nothing about how many trees there are. -/
theorem within_of_close {error : FlowchartError} (h : b.close = .error error) (ladybugs : Nat) :
    error.Within ladybugs := by
  rw [close] at h
  split at h
  · obtain rfl := Except.error.inj h
    exact trivial
  · split at h
    · obtain rfl := Except.error.inj h
      exact trivial
    · split at h
      · cases h
      · obtain rfl := Except.error.inj h
        exact trivial

end Block

namespace Reader

/-- The reader of a text when other texts have been read before, of which these trees were
made. -/
def behind (earlier : List Tree) (r : Reader) : Reader where
  ladybugs := earlier.length + r.ladybugs
  headers := earlier.length + r.headers
  trees := earlier ++ r.trees
  block := r.block.map (Block.countOn earlier.length)

variable (earlier : List Tree) (lines : Nat) (r : Reader)

/-- Behind other texts a block is closed as by itself. -/
theorem closeBlock_behind :
    (r.behind earlier).closeBlock = countOn lines earlier.length (behind earlier) r.closeBlock := by
  obtain ⟨ladybugs, headers, trees, block⟩ := r
  cases block with
  | none => rfl
  | some b =>
      rw [closeBlock, closeBlock]
      dsimp only [behind, Option.map]
      rw [Block.close_countOn earlier.length lines]
      cases b.close with
      | error error => rfl
      | ok tree =>
          dsimp only [countOn, Except.map, behind]
          rw [List.append_assoc]
          rfl

/-- Behind other texts a block is opened as by itself. -/
theorem openBlock_behind :
    (r.behind earlier).openBlock = countOn lines earlier.length (behind earlier) r.openBlock := by
  rw [openBlock, openBlock]
  by_cases hmany : r.ladybugs < r.headers + 1
  · have hmany' : (r.behind earlier).ladybugs < (r.behind earlier).headers + 1 :=
      Nat.add_lt_add_left hmany _
    rw [if_pos hmany, if_pos hmany']
    rfl
  · have hmany' : ¬ (r.behind earlier).ladybugs < (r.behind earlier).headers + 1 :=
      fun h => hmany (Nat.lt_of_add_lt_add_left h)
    rw [if_neg hmany, if_neg hmany']
    rfl

/-- Behind other texts a line is read as by itself. -/
theorem readLine_behind (number : Nat) (line : String) :
    (r.behind earlier).readLine (lines + number) line =
      countOn lines earlier.length (behind earlier) (r.readLine number line) := by
  by_cases hblank : trim line.toList = []
  · rw [readLine_of_blank _ hblank, readLine_of_blank _ hblank]
    rfl
  cases hheader : isHeader line.toList with
  | true =>
      rw [readLine_of_isHeader _ hheader, readLine_of_isHeader _ hheader,
        closeBlock_behind earlier lines]
      exact countOn_bind fun closed => openBlock_behind earlier lines closed
  | false =>
      rw [readLine_of_body _ hblank hheader, readLine_of_body _ hblank hheader]
      obtain ⟨ladybugs, headers, trees, block⟩ := r
      cases block with
      | none => rfl
      | some b =>
          dsimp only [behind, Option.map]
          rw [Block.readLine_countOn]
          cases b.readLine line.toList <;> rfl

/-- **A reader behind other texts does what it does by itself**, with its lines and trees
counted on from those before. -/
theorem readLines_behind (number : Nat) (text : List String) :
    (r.behind earlier).readLines (lines + number) text =
      countOn lines earlier.length (behind earlier) (r.readLines number text) := by
  induction text generalizing r number with
  | nil => rfl
  | cons line rest ih =>
      rw [readLines, readLines, readLine_behind]
      exact countOn_bind fun next => ih next (number + 1)

/-- The lines of two texts are read one text after the other. -/
theorem readLines_append (number : Nat) (first second : List String) :
    r.readLines number (first ++ second) =
      r.readLines number first >>= fun next => next.readLines (number + first.length) second := by
  induction first generalizing r number with
  | nil => rfl
  | cons line rest ih =>
      rw [List.cons_append, readLines, readLines, bind_assoc]
      refine congrArg (r.readLine number line >>= ·) (funext fun next => ?_)
      rw [ih, List.length_cons, Nat.add_assoc, Nat.add_comm 1]

/-- A reader behind all of several texts is one behind the last of them. -/
theorem behind_closed {total : Nat} {trees : List Tree} (h : (earlier ++ trees).length ≤ total) :
    (⟨total - earlier.length, trees.length, trees, none⟩ : Reader).behind earlier =
      (start (total - (earlier ++ trees).length)).behind (earlier ++ trees) := by
  rw [List.length_append] at h
  rw [behind, behind, start, List.length_append, List.append_nil]
  congr 1
  dsimp only
  omega

/-! ### Closing before a header -/

variable {r}

/-- A block is closed once. -/
theorem closeBlock_closeBlock (r : Reader) : (r.closeBlock >>= closeBlock) = r.closeBlock := by
  obtain ⟨ladybugs, headers, trees, block⟩ := r
  cases block with
  | none => rfl
  | some b =>
      rw [closeBlock]
      dsimp only
      cases b.close <;> rfl

/-- What comes after a block is closed may close it again. -/
theorem closeBlock_bind {α : Type} (r : Reader) (next : Reader → Except FlowchartError α) :
    (r.closeBlock >>= fun closed => closed.closeBlock >>= next) = r.closeBlock >>= next := by
  rw [← bind_assoc, closeBlock_closeBlock]

/-- **Before a header, and at the end, the open block may as well be closed first.** -/
theorem close_first {text : List String} (number : Nat)
    (h : ∀ line ∈ (writtenLines text).head?, isHeader line = true) :
    (r.readLines number text >>= close) =
      r.closeBlock >>= fun closed => closed.readLines number text >>= close := by
  induction text generalizing number with
  | nil => exact (closeBlock_bind r _).symm
  | cons line rest ih =>
      by_cases hblank : trim line.toList = []
      · have hskip (r : Reader) :
            r.readLines number (line :: rest) = r.readLines (number + 1) rest := by
          rw [readLines, readLine_of_blank number hblank]
          rfl
        rw [writtenLines_of_blank hblank] at h
        simp only [hskip]
        exact ih (number + 1) h
      · rw [writtenLines_cons hblank] at h
        have hheader := h line.toList rfl
        have hopen (r : Reader) : (r.readLines number (line :: rest) >>= close) =
            r.closeBlock >>= fun closed => closed.openBlock >>= fun next =>
              next.readLines (number + 1) rest >>= close := by
          rw [readLines, readLine_of_isHeader number hheader, bind_assoc, bind_assoc]
        simp only [hopen]
        exact (closeBlock_bind r _).symm

/-! ### How many trees -/

/-- The headers so far are those of the closed blocks and of the open one, and there are
ladybugs for all of them. -/
structure Counted (ladybugs : Nat) (r : Reader) : Prop where
  allowed : r.ladybugs = ladybugs
  headers : r.headers = r.trees.length + r.block.toList.length
  headers_le : r.headers ≤ ladybugs

namespace Counted

variable {ladybugs : Nat}

/-- Without an open block, all there is are the trees. -/
theorem exists_eq (h : r.Counted ladybugs) (hblock : r.block = none) :
    ∃ trees, r = ⟨ladybugs, trees.length, trees, none⟩ := by
  have hheaders := h.headers
  rw [hblock] at hheaders
  obtain ⟨allowed, headers, trees, block⟩ := r
  obtain rfl : allowed = ladybugs := h.allowed
  obtain rfl : headers = trees.length := hheaders
  obtain rfl : block = none := hblock
  exact ⟨trees, rfl⟩

theorem start (ladybugs : Nat) : (Reader.start ladybugs).Counted ladybugs :=
  ⟨rfl, rfl, Nat.zero_le _⟩

/-- Closing the block makes one more tree and no header. -/
theorem closeBlock (h : r.Counted ladybugs) :
    Yields (fun r' => r'.Counted ladybugs ∧ r'.headers = r.headers ∧ r'.block = none)
      (·.Within ladybugs) r.closeBlock := by
  rw [Reader.closeBlock]
  cases hblock : r.block with
  | none => exact ⟨h, rfl, hblock⟩
  | some b =>
      have hheaders := h.headers
      rw [hblock] at hheaders
      dsimp only
      cases hclose : b.close with
      | error error => exact Block.within_of_close hclose ladybugs
      | ok tree =>
          refine ⟨⟨h.allowed, ?_, h.headers_le⟩, rfl, rfl⟩
          simpa using hheaders

/-- A header is one more, or one too many. -/
theorem openBlock (h : r.Counted ladybugs) (hblock : r.block = none) :
    Yields (fun r' => r'.Counted ladybugs ∧ r'.headers = r.headers + 1)
      (·.Within ladybugs) r.openBlock := by
  rw [Reader.openBlock]
  by_cases hmany : r.ladybugs < r.headers + 1
  · rw [if_pos hmany]
    have hle := h.headers_le
    have hallowed := h.allowed
    exact ⟨by omega, hallowed⟩
  · rw [if_neg hmany]
    have hheaders := h.headers
    rw [hblock] at hheaders
    exact ⟨⟨h.allowed, congrArg (· + 1) hheaders, h.allowed ▸ Nat.le_of_not_lt hmany⟩, rfl⟩

/-- A line counts one header more if it is one. -/
theorem readLine (h : r.Counted ladybugs) (number : Nat) (line : String) :
    Yields (fun r' => r'.Counted ladybugs ∧
        r'.headers = r.headers + if isHeader line.toList then 1 else 0)
      (·.Within ladybugs) (r.readLine number line) := by
  by_cases hheader : isHeader line.toList = true
  · rw [readLine_of_isHeader number hheader, if_pos hheader]
    exact h.closeBlock.bind fun closed ⟨hclosed, hheaders, hblock⟩ =>
      hheaders ▸ hclosed.openBlock hblock
  rw [if_neg hheader]
  by_cases hblank : trim line.toList = []
  · rw [readLine_of_blank number hblank]
    exact ⟨h, rfl⟩
  rw [readLine_of_body number hblank (Bool.not_eq_true _ ▸ hheader)]
  cases hblock : r.block with
  | none => exact trivial
  | some b =>
      have hheaders := h.headers
      rw [hblock] at hheaders
      dsimp only
      cases b.readLine line.toList with
      | error fault => exact trivial
      | ok b' => exact ⟨⟨h.allowed, hheaders, h.headers_le⟩, rfl⟩

/-- **Lines count all their headers, and if these are too many, the first one too many is
complained about.** -/
theorem readLines (h : r.Counted ladybugs) (number : Nat) (text : List String) :
    Yields (fun r' => r'.Counted ladybugs ∧
        r'.headers = r.headers + text.countP fun line => isHeader line.toList)
      (·.Within ladybugs) (r.readLines number text) := by
  induction text generalizing r number with
  | nil => exact ⟨h, rfl⟩
  | cons line rest ih =>
      refine (h.readLine number line).bind fun next ⟨hnext, hheaders⟩ => ?_
      refine (ih hnext (number + 1)).imp fun r' ⟨hr', hrest⟩ => ⟨hr', ?_⟩
      rw [hrest, hheaders, List.countP_cons]
      omega

end Counted

end Reader

/-! ### Texts -/

/-- The first line of the text that is not blank exists and is a header. -/
def Headed (text : List String) : Prop := (writtenLines text).head?.any isHeader

instance (text : List String) : Decidable (Headed text) := inferInstanceAs (Decidable (_ = true))

theorem writtenLines_append (first second : List String) :
    writtenLines (first ++ second) = writtenLines first ++ writtenLines second := by
  rw [writtenLines, List.map_append, List.filter_append, writtenLines, writtenLines]

/-- A text that begins with a header has a tree. -/
theorem Headed.countP_pos {text : List String} (h : Headed text) :
    0 < text.countP fun line => isHeader line.toList := by
  obtain ⟨first, hfirst, hheader⟩ := (Option.any_eq_true ..).mp h
  obtain ⟨line, hline, rfl⟩ :=
    List.mem_map.mp (List.mem_of_mem_filter (List.mem_of_mem_head? hfirst))
  exact List.countP_pos_iff.mpr ⟨line, hline, hheader⟩

/-- Joined texts begin with a header, if there are any lines. -/
theorem head?_writtenLines_flatten {files : List (List String)} (h : ∀ file ∈ files, Headed file) :
    ∀ line ∈ (writtenLines files.flatten).head?, isHeader line = true := by
  cases files with
  | nil => nofun
  | cons file rest =>
      intro line hline
      obtain ⟨first, hfirst, hheader⟩ := (Option.any_eq_true ..).mp (h file List.mem_cons_self)
      rw [List.flatten_cons, writtenLines_append, List.head?_append, hfirst] at hline
      obtain rfl := Option.some.inj hline
      exact hheader

/-- A text has at least one tree, and if there are too many, the first one too many is complained
about. -/
theorem readTrees_yields (text : List String) (ladybugs : Nat) :
    Yields (· ≠ []) (·.Within ladybugs) (readTrees text ladybugs) := by
  refine ((Reader.Counted.start ladybugs).readLines 1 text).bind fun r ⟨hr, _⟩ => ?_
  refine hr.closeBlock.bind fun closed _ => ?_
  cases closed.trees with
  | nil => exact trivial
  | cons tree trees => exact List.cons_ne_nil tree trees

namespace Reader

/-- A text that begins with a header either has trees by itself, and then these are all that is
left of it once its last block is closed, or there is a complaint before that. -/
theorem closeBlock_cases {file : List String} (h : Headed file) (ladybugs : Nat) :
    (∃ error, ((start ladybugs).readLines 1 file >>= closeBlock) = .error error ∧
      readTrees file ladybugs = .error error) ∨
    ∃ trees, ((start ladybugs).readLines 1 file >>= closeBlock) =
        .ok ⟨ladybugs, trees.length, trees, none⟩ ∧
      readTrees file ladybugs = .ok trees ∧ trees.length ≤ ladybugs := by
  have hcounted : Yields (fun closed => closed.Counted ladybugs ∧
        closed.headers = file.countP (fun line => isHeader line.toList) ∧ closed.block = none)
      (·.Within ladybugs) ((start ladybugs).readLines 1 file >>= closeBlock) := by
    refine ((Counted.start ladybugs).readLines 1 file).bind fun r ⟨hr, hheaders⟩ => ?_
    refine hr.closeBlock.imp fun closed ⟨hclosed, hsame, hblock⟩ => ⟨hclosed, ?_, hblock⟩
    exact hsame.trans (hheaders.trans (Nat.zero_add _))
  have hread : readTrees file ladybugs = ((start ladybugs).readLines 1 file >>= closeBlock) >>=
      fun closed => if closed.trees.isEmpty then .error .noTrees else .ok closed.trees :=
    (bind_assoc ..).symm
  rw [hread]
  cases hclosed : (start ladybugs).readLines 1 file >>= closeBlock with
  | error error => exact .inl ⟨error, rfl, rfl⟩
  | ok closed =>
      rw [hclosed] at hcounted
      obtain ⟨hcount, hheaders, hblock⟩ := hcounted
      obtain ⟨trees, rfl⟩ := hcount.exists_eq hblock
      have hlength : trees.length = _ := hheaders
      have hsome : trees ≠ [] := List.ne_nil_of_length_pos (hlength ▸ h.countP_pos)
      exact .inr ⟨trees, rfl, if_neg (by simpa using hsome), hcount.headers_le⟩

/-- Before a text that begins with a header, a text is read and its last block is closed. -/
theorem readLines_append_headed (earlier : List Tree) (lines ladybugs : Nat) (file : List String)
    {rest : List String} (h : ∀ line ∈ (writtenLines rest).head?, isHeader line = true) :
    (((start ladybugs).behind earlier).readLines (lines + 1) (file ++ rest) >>= close) =
      countOn lines earlier.length (behind earlier)
          ((start ladybugs).readLines 1 file >>= closeBlock) >>= fun closed =>
        closed.readLines (lines + 1 + file.length) rest >>= close := by
  have hclosed : countOn lines earlier.length (behind earlier)
        ((start ladybugs).readLines 1 file >>= closeBlock) =
      ((start ladybugs).behind earlier).readLines (lines + 1) file >>= closeBlock := by
    rw [readLines_behind]
    exact (countOn_bind fun r => closeBlock_behind earlier lines r).symm
  rw [hclosed, readLines_append, bind_assoc, bind_assoc]
  exact congrArg _ (funext fun r => close_first _ h)

/-- When no text is left, the trees before are all there are. -/
theorem close_behind_start (earlier : List Tree) (ladybugs total : Nat) :
    ((start ladybugs).behind earlier).close = readTreeFilesAfter total earlier [] := by
  rw [close, readTreeFilesAfter]
  dsimp only [behind, start, closeBlock, Option.map, bind, Except.bind]
  rw [List.append_nil]
  rfl

end Reader

/-- Two attempts to read trees come to the same: the trees are the same, or the complaints are,
up to the numbers of a line and of a tree. -/
inductive SameOutcome (ladybugs : Nat) :
    Except FlowchartError (List Tree) → Except FlowchartError (List Tree) → Prop
  | ok (trees : List Tree) : SameOutcome ladybugs (.ok trees) (.ok trees)
  | error {e e' : FlowchartError} (halike : e.Alike e') (hwithin : e.Within ladybugs) :
      SameOutcome ladybugs (.error e) (.error e')

end Flowchart

open Flowchart

/-- What is wrong with a text by itself is wrong with several texts, and with all of them
joined. -/
theorem readTreeFilesAfter_of_error {total : Nat} {parsed : List Tree} {file : List String}
    {error : FlowchartError} (hread : readTrees file (total - parsed.length) = .error error)
    (hle : parsed.length ≤ total) (lines : Nat) (rest : List (List String)) :
    SameOutcome total (readTreeFilesAfter total parsed (file :: rest))
      (.error (error.countOn lines parsed.length)) := by
  have hwithin := readTrees_yields file (total - parsed.length)
  rw [hread] at hwithin
  rw [readTreeFilesAfter, hread]
  cases error with
  | tooManyTrees count allowed =>
      obtain ⟨rfl, rfl⟩ := hwithin
      have hall : parsed.length + (total - parsed.length) = total := Nat.add_sub_of_le hle
      dsimp only [FlowchartError.countOn]
      rw [← Nat.add_assoc, hall]
      exact .error (.tooManyTrees ..) ⟨rfl, rfl⟩
  | atLine line fault => exact .error (.atLine ..) trivial
  | disconnected tree id => exact .error (.disconnected ..) trivial
  | noAction tree => exact .error (.noAction ..) trivial
  | noTrees => exact .error .noTrees trivial

/-- The texts that are left come to the same, whether they are read one by one or by one reader
behind the texts before. -/
theorem readTreeFilesAfter_flatten {total : Nat} {parsed : List Tree} {files : List (List String)}
    (h : ∀ file ∈ files, Headed file) (hle : parsed.length ≤ total) (lines : Nat) :
    SameOutcome total (readTreeFilesAfter total parsed files)
      (((Reader.start (total - parsed.length)).behind parsed).readLines (lines + 1)
        files.flatten >>= Reader.close) := by
  induction files generalizing parsed lines with
  | nil =>
      change SameOutcome total _ ((Reader.start (total - parsed.length)).behind parsed).close
      rw [Reader.close_behind_start parsed _ total, readTreeFilesAfter]
      split
      · exact .error .noTrees trivial
      · exact .ok parsed
  | cons file rest ih =>
      obtain ⟨hfile, hrest⟩ := List.forall_mem_cons.mp h
      rw [List.flatten_cons,
        Reader.readLines_append_headed parsed lines _ file (head?_writtenLines_flatten hrest)]
      rcases Reader.closeBlock_cases hfile (total - parsed.length) with
        ⟨error, hclosed, hread⟩ | ⟨trees, hclosed, hread, hmore⟩
      · rw [hclosed]
        exact readTreeFilesAfter_of_error hread hle lines rest
      · have hall : (parsed ++ trees).length ≤ total := by
          rw [List.length_append]
          omega
        have hnext := ih hrest hall (lines + file.length)
        rw [hclosed, readTreeFilesAfter, hread]
        change SameOutcome total (readTreeFilesAfter total (parsed ++ trees) rest)
          ((Reader.behind parsed _).readLines _ rest.flatten >>= Reader.close)
        rw [Reader.behind_closed parsed hall, Nat.add_right_comm]
        exact hnext

/-- A single text is read as it is. -/
theorem readTreeFiles_singleton (text : List String) (ladybugs : Nat) :
    readTreeFiles [text] ladybugs = readTrees text ladybugs := by
  have hyields := readTrees_yields text ladybugs
  rw [readTreeFiles, readTreeFilesAfter, List.length_nil, Nat.sub_zero]
  cases hread : readTrees text ladybugs with
  | ok trees =>
      rw [hread] at hyields
      have hsome : trees ≠ [] := hyields
      exact if_neg (by simpa using hsome)
  | error error =>
      rw [hread] at hyields
      cases error with
      | tooManyTrees count allowed =>
          obtain ⟨-, rfl⟩ := hyields
          dsimp only
          rw [Nat.zero_add]
      | atLine line fault => rfl
      | disconnected tree id => rfl
      | noAction tree => rfl
      | noTrees => rfl

/-- Several texts come to the same as all of them joined. -/
theorem readTreeFiles_flatten {files : List (List String)} (h : ∀ file ∈ files, Headed file)
    (ladybugs : Nat) :
    SameOutcome ladybugs (readTreeFiles files ladybugs) (readTrees files.flatten ladybugs) := by
  have hstart : (Reader.start ladybugs).behind [] = Reader.start ladybugs := by
    rw [Reader.behind, List.length_nil, Nat.zero_add]
    rfl
  have hall : SameOutcome ladybugs (readTreeFilesAfter ladybugs [] files) _ :=
    readTreeFilesAfter_flatten h (Nat.zero_le ladybugs) 0
  rw [List.length_nil, Nat.sub_zero, hstart] at hall
  exact hall

/-! ### Loading -/

namespace Game

/-- Loading the texts one by one and loading them joined to one come to the same. -/
inductive LoadsAlike (g : Game) (ladybugs : Nat) (files : List (List String)) : Prop
  /-- Both return the same number and leave the same game. -/
  | loaded {n : Nat} {next : Game} (hfiles : loadTreeFiles files g = .ok n next)
      (hjoined : loadTrees files.flatten g = .ok n next)
  /-- Both are refused for the same reason and leave the game as it is. If there are too many
  trees, both complain about one more than there are ladybugs. -/
  | refused {e e' : FlowchartError} (hfiles : loadTreeFiles files g = .error (.trees e) g)
      (hjoined : loadTrees files.flatten g = .error (.trees e') g) (halike : e.Alike e')
      (hwithin : e.Within ladybugs) (hwithin' : e'.Within ladybugs)

/-- **Several texts of trees are loaded like one**, if each of them begins with a header. -/
theorem loadTreeFiles_flatten {g : Game} {f : Field} (hfield : g.field = some f)
    {files : List (List String)} (h : ∀ file ∈ files, Headed file) :
    g.LoadsAlike f.ladybugs files := by
  have hone := readTreeFiles_singleton files.flatten f.ladybugs
  have hsame := readTreeFiles_flatten h f.ladybugs
  rw [← hone] at hsame
  generalize hfiles : readTreeFiles files f.ladybugs = one at hsame
  generalize hjoined : readTreeFiles [files.flatten] f.ladybugs = other at hsame
  cases hsame with
  | ok trees =>
      exact .loaded (loadTreeFiles_of_read hfield hfiles) (loadTreeFiles_of_read hfield hjoined)
  | error halike hwithin =>
      exact .refused (loadTreeFiles_of_error hfield hfiles) (loadTreeFiles_of_error hfield hjoined)
        halike hwithin (halike.within hwithin)

/-- Two texts have three trees for two ladybugs. -/
theorem loadTreeFiles_flatten_too_many :
    let files := [["", "flowchart TD", "A[move]"],
      ["flowchart TD", "B[->] --> C[move]", "", "flowchart TD", "D[turnLeft]"]]
    ∃ f, (new.after (.loadBoard [">.<"])).field = some f ∧ f.ladybugs = 2 ∧
      (∀ file ∈ files, Headed file) ∧
      (new.after (.loadBoard [">.<"])).LoadsAlike f.ladybugs files := by
  intro files
  obtain ⟨f, hfield⟩ : ∃ f, (new.after (.loadBoard [">.<"])).field = some f :=
    Option.isSome_iff_exists.mp (by decide +kernel)
  have htwo : (new.after (.loadBoard [">.<"])).field.map Field.ladybugs = some 2 := by
    decide +kernel
  rw [hfield] at htwo
  have hheaded : ∀ file ∈ files, Headed file := by decide +kernel
  exact ⟨f, hfield, Option.some.inj htwo, hheaded, loadTreeFiles_flatten hfield hheaded⟩

end Game

end Ladybug
