import Ladybug.Proofs.Joining

/-!
# Complaints come early and last

The reader of flowcharts goes through the lines of a text once and stops at the first violation.
It has not seen the lines behind that one, so they do not matter, and it has found nothing wrong
with the lines before. A complaint about the end of a text is less certain: a tree that has
nothing to do may be given an action by further lines. But if a node is out of reach of its root,
no line can help, since a line links only the node that it declares. Such a complaint is repeated
until something is wrong with one of the further lines, and the node it names stays the same,
since nodes that are declared later are told later.

## Main definitions

* `StopsBehind` — the reader stops at the line behind some others.
* `FlowchartError.Lasts` — how long a complaint about a text lasts.

## Main results

* `readTrees_eq_error` — a text is refused at one of its lines or at its end.
* `Block.Sound.disconnected_readLine` — a node that is out of reach stays so.
* `readTrees_error_lasts` — how long complaints last.
-/

namespace Ladybug.Flowchart

/-! ### Blocks that cannot be closed -/

namespace Block

variable {b b' : Block} {error : FlowchartError} {tree : Nat} {name : String}

/-- When a block cannot be closed, a node is out of reach or nothing is to be done. -/
theorem close_eq_error (h : b.close = .error error) :
    (∃ name, error = .disconnected b.number name) ∨ error = .noAction b.number := by
  rw [close] at h
  split at h
  · exact .inr (Except.error.inj h).symm
  · split at h
    · exact .inl ⟨_, (Except.error.inj h).symm⟩
    · split at h
      · cases h
      · exact .inr (Except.error.inj h).symm

/-- The node that is complained about is the first one out of reach of the root. -/
theorem close_eq_disconnected_iff :
    b.close = .error (.disconnected tree name) ↔ tree = b.number ∧
      ∃ root names, b.root = some root ∧ b.arena.unreachableFrom root = name :: names := by
  rw [close]
  cases b.root with
  | none => simp
  | some root =>
      cases hnames : b.arena.unreachableFrom root with
      | nil => cases hn : b.hasAction <;> simp [hnames]
      | cons first names => simp [hnames, eq_comm]

/-- **A node that is out of reach stays so**, whatever line comes next. -/
theorem Sound.disconnected_readLine (h : b.Sound)
    (hclose : b.close = .error (.disconnected tree name)) {line : List Char}
    (hline : b.readLine line = .ok b') : b'.close = .error (.disconnected tree name) := by
  obtain ⟨rfl, root, names, hroot, hnames⟩ := close_eq_disconnected_iff.mp hclose
  obtain ⟨hkept, hnumber, hroot'⟩ := h.kept_readLine hroot hline
  have hlt : root < b.arena.size := by
    obtain ⟨rfl, hlt⟩ := h.root_eq root hroot
    exact hlt
  obtain ⟨more, hmore⟩ := hkept.unreachableFrom_prefix h.linked (h.readLine hline).linked hlt
  rw [hnames, List.cons_append] at hmore
  exact close_eq_disconnected_iff.mpr ⟨hnumber.symm, root, names ++ more, hroot', hmore.symm⟩

end Block

/-! ### Readers that stop -/

namespace Reader

variable {r : Reader} {number : Nat} {error : FlowchartError}

/-- If the open block is not closed, it cannot be. -/
theorem closeBlock_eq_error (h : r.closeBlock = .error error) :
    ∃ b, r.block = some b ∧ b.close = .error error := by
  rw [closeBlock] at h
  cases hblock : r.block with
  | none =>
      rw [hblock] at h
      cases h
  | some b =>
      simp only [hblock] at h
      cases hclose : b.close with
      | error e =>
          rw [hclose] at h
          obtain rfl := Except.error.inj h
          exact ⟨b, rfl, hclose⟩
      | ok t =>
          rw [hclose] at h
          cases h

/-- At the end, the open block cannot be closed, or there was no block at all. -/
theorem close_eq_error (h : r.close = .error error) :
    (∃ b, r.block = some b ∧ b.close = .error error) ∨ error = .noTrees := by
  rcases exists_error_of_bind h with hblock | ⟨closed, -, hempty⟩
  · exact .inl (closeBlock_eq_error hblock)
  · split at hempty
    · exact .inr (Except.error.inj hempty).symm
    · cases hempty

/-- A line is at fault itself, or it ends a block that cannot be closed, or it is a header too
many. -/
theorem readLine_eq_error {line : String} (h : r.readLine number line = .error error) :
    (∃ fault, error = .atLine number fault) ∨ (∃ b, r.block = some b ∧ b.close = .error error) ∨
      ∃ trees ladybugs, error = .tooManyTrees trees ladybugs := by
  by_cases hblank : Text.trim line.toList = []
  · rw [readLine_of_blank number hblank] at h
    cases h
  cases hheader : isHeader line.toList with
  | true =>
      rw [readLine_of_isHeader number hheader] at h
      rcases exists_error_of_bind h with hblock | ⟨closed, -, hopen⟩
      · exact .inr (.inl (closeBlock_eq_error hblock))
      · rw [openBlock] at hopen
        split at hopen
        · exact .inr (.inr ⟨_, _, (Except.error.inj hopen).symm⟩)
        · cases hopen
  | false =>
      rw [readLine_of_body number hblank hheader] at h
      split at h
      · exact .inl ⟨_, (Except.error.inj h).symm⟩
      · split at h
        · exact .inl ⟨_, (Except.error.inj h).symm⟩
        · cases h

/-- The reader stops at one of the lines, having read those before it. -/
theorem readLines_eq_error {lines : List String} (h : r.readLines number lines = .error error) :
    ∃ first line rest next, lines = first ++ line :: rest ∧ r.readLines number first = .ok next ∧
      next.readLine (number + first.length) line = .error error := by
  induction lines generalizing r number with
  | nil => cases h
  | cons line lines ih =>
      rcases exists_error_of_bind h with hline | ⟨next, hline, hrest⟩
      · exact ⟨[], line, lines, r, rfl, rfl, hline⟩
      · obtain ⟨first, bad, rest, last, rfl, hfirst, hbad⟩ := ih hrest
        refine ⟨line :: first, bad, rest, last, rfl, ?_, ?_⟩
        · rw [readLines, hline]
          exact hfirst
        · rwa [List.length_cons, Nat.add_comm first.length, ← Nat.add_assoc]

/-- A node of the open block is out of reach. -/
def CutOff (tree : Nat) (name : String) (r : Reader) : Prop :=
  ∃ b, r.block = some b ∧ b.Sound ∧ b.close = .error (.disconnected tree name)

namespace CutOff

variable {tree : Nat} {name : String}

/-- The block cannot be closed. -/
theorem closeBlock_eq (h : r.CutOff tree name) :
    r.closeBlock = .error (.disconnected tree name) := by
  obtain ⟨b, hblock, -, hclose⟩ := h
  rw [closeBlock, hblock]
  simp only [hclose]
  rfl

/-- A further line ends the block, or it is at fault, or the node is out of reach behind it. -/
theorem readLine (h : r.CutOff tree name) (number : Nat) (line : String) :
    r.readLine number line = .error (.disconnected tree name) ∨
      (∃ fault, r.readLine number line = .error (.atLine number fault)) ∨
      ∃ next, r.readLine number line = .ok next ∧ next.CutOff tree name := by
  by_cases hblank : Text.trim line.toList = []
  · exact .inr (.inr ⟨r, readLine_of_blank number hblank, h⟩)
  cases hheader : isHeader line.toList with
  | true =>
      rw [readLine_of_isHeader number hheader, h.closeBlock_eq]
      exact .inl rfl
  | false =>
      obtain ⟨b, hblock, hsound, hclose⟩ := h
      rw [readLine_of_body number hblank hheader, hblock]
      cases hline : b.readLine line.toList with
      | error fault =>
          simp only [hline]
          exact .inr (.inl ⟨fault, rfl⟩)
      | ok b' =>
          simp only [hline]
          exact .inr (.inr ⟨_, rfl, b', rfl, hsound.readLine hline,
            hsound.disconnected_readLine hclose hline⟩)

/-- **A complaint about a node out of reach is repeated** until a line is at fault. -/
theorem readLines (h : r.CutOff tree name) (number : Nat) (lines : List String) :
    (r.readLines number lines >>= close) = .error (.disconnected tree name) ∨
      ∃ k fault, number ≤ k ∧ k < number + lines.length ∧
        (r.readLines number lines >>= close) = .error (.atLine k fault) := by
  induction lines generalizing r number with
  | nil =>
      change r.close = _ ∨ _
      rw [close, h.closeBlock_eq]
      exact .inl rfl
  | cons line lines ih =>
      have hsteps : (r.readLines number (line :: lines) >>= close) =
          r.readLine number line >>= fun next => next.readLines (number + 1) lines >>= close :=
        bind_assoc ..
      rw [hsteps, List.length_cons]
      rcases h.readLine number line with hline | ⟨fault, hline⟩ | ⟨next, hline, hnext⟩
      · rw [hline]
        exact .inl rfl
      · rw [hline]
        exact .inr ⟨number, fault, Nat.le_refl _, by omega, rfl⟩
      · rw [hline]
        rcases ih hnext (number + 1) with hsame | ⟨k, fault, hge, hlt, hfault⟩
        · exact .inl hsame
        · exact .inr ⟨k, fault, by omega, by omega, hfault⟩

end CutOff

end Reader

/-! ### Texts that are refused -/

/-- The reader has read some lines and stops at the line behind them. -/
def StopsBehind (ladybugs : Nat) (first : List String) (line : String) (error : FlowchartError) :
    Prop :=
  ∃ r, (Reader.start ladybugs).readLines 1 first = .ok r ∧
    r.readLine (1 + first.length) line = .error error

variable {ladybugs : Nat} {lines first : List String} {line : String} {error : FlowchartError}

/-- The lines behind are not read. -/
theorem StopsBehind.readTrees_eq (h : StopsBehind ladybugs first line error) (rest : List String) :
    readTrees (first ++ line :: rest) ladybugs = .error error := by
  obtain ⟨r, hfirst, hline⟩ := h
  rw [readTrees, Reader.readLines_append, hfirst]
  change (r.readLine (1 + first.length) line >>= fun next => _) >>= _ = _
  rw [hline]
  rfl

/-- **A text is refused at one of its lines or at its end.** -/
theorem readTrees_eq_error (h : readTrees lines ladybugs = .error error) :
    (∃ first line rest, lines = first ++ line :: rest ∧ StopsBehind ladybugs first line error) ∨
      ∃ r, (Reader.start ladybugs).readLines 1 lines = .ok r ∧ r.close = .error error := by
  rw [readTrees] at h
  cases hread : (Reader.start ladybugs).readLines 1 lines with
  | ok r =>
      rw [hread] at h
      exact .inr ⟨r, rfl, h⟩
  | error e =>
      rw [hread] at h
      obtain rfl := Except.error.inj h
      obtain ⟨first, line, rest, next, hlines, hfirst, hline⟩ := Reader.readLines_eq_error hread
      exact .inl ⟨first, line, rest, hlines, next, hfirst, hline⟩

/-- What was read before a text ended, or before the line at fault, was not at fault. -/
theorem line?_of_prefix {r : Reader} (h : (Reader.start ladybugs).readLines 1 first = .ok r)
    {before : List String} (hbefore : before <+: first)
    (hread : readTrees before ladybugs = .error error) : error.line? = none := by
  obtain ⟨rest, rfl⟩ := hbefore
  rw [Reader.readLines_append] at h
  obtain ⟨early, hearly, -⟩ := exists_ok_of_bind h
  rw [readTrees, hearly] at hread
  rcases Reader.close_eq_error hread with ⟨b, -, hclose⟩ | rfl
  · rcases Block.close_eq_error hclose with ⟨name, rfl⟩ | rfl <;> rfl
  · rfl

end Flowchart

open Flowchart

/-- How long a complaint about a text lasts when lines are cut off or added behind it. -/
def FlowchartError.Lasts (lines : List String) (ladybugs : Nat) : FlowchartError → Prop
  -- A fault is told as soon as the line is there, and then forever; before, no line is at fault.
  | atLine k fault => 1 ≤ k ∧ k ≤ lines.length ∧
      (∀ other : List String, other.take k = lines.take k →
        readTrees other ladybugs = .error (.atLine k fault)) ∧
      ∀ before, before <+: lines → before.length < k → ∀ error,
        readTrees before ladybugs = .error error → error.line? = none
  | tooManyTrees trees allowed => ∀ more,
      readTrees (lines ++ more) ladybugs = .error (.tooManyTrees trees allowed)
  | disconnected tree name => ∀ more,
      readTrees (lines ++ more) ladybugs = .error (.disconnected tree name) ∨
        ∃ k fault, lines.length < k ∧ k ≤ (lines ++ more).length ∧
          readTrees (lines ++ more) ladybugs = .error (.atLine k fault)
  | noAction _ => True
  | noTrees => True

namespace Flowchart

variable {ladybugs : Nat} {lines first : List String} {line : String} {error : FlowchartError}

/-- A complaint at a line is decided by the lines up to there. -/
theorem StopsBehind.lasts (h : StopsBehind ladybugs first line error) (rest : List String) :
    error.Lasts (first ++ line :: rest) ladybugs := by
  have hmore (more : List String) :
      readTrees (first ++ line :: rest ++ more) ladybugs = .error error := by
    rw [List.append_assoc]
    exact h.readTrees_eq (rest ++ more)
  cases error with
  | atLine k fault =>
      have hread := h.readTrees_eq
      obtain ⟨r, hfirst, hline⟩ := h
      obtain rfl : k = 1 + first.length := by
        rcases Reader.readLine_eq_error hline with ⟨fault', heq⟩ | ⟨b, -, hclose⟩ | ⟨_, _, heq⟩
        · exact (FlowchartError.atLine.inj heq).1
        · rcases Block.close_eq_error hclose with ⟨name, heq⟩ | heq <;> cases heq
        · cases heq
      have hlen : (first ++ line :: rest).length = first.length + (rest.length + 1) :=
        List.length_append
      refine ⟨by omega, by omega, fun other hother => ?_, fun before hbefore hlt e he => ?_⟩
      · have htake : other.take (1 + first.length) = first ++ [line] := by
          rw [hother, List.append_cons, Nat.add_comm]
          exact List.take_left' (by simp)
        have hsplit := List.take_append_drop (1 + first.length) other
        rw [htake, List.append_assoc, List.singleton_append] at hsplit
        rw [← hsplit]
        exact hread _
      · have hle : before.length ≤ first.length := by omega
        exact line?_of_prefix hfirst
          (List.prefix_of_prefix_length_le hbefore (List.prefix_append ..) hle) he
  | tooManyTrees trees allowed => exact hmore
  | disconnected tree name => exact fun more => .inl (hmore more)
  | noAction tree => trivial
  | noTrees => trivial

/-- A complaint at the end of a text is not about a line, and a node out of reach stays so. -/
theorem lasts_of_close {r : Reader} (hread : (Reader.start ladybugs).readLines 1 lines = .ok r)
    (hclose : r.close = .error error) : error.Lasts lines ladybugs := by
  rcases Reader.close_eq_error hclose with ⟨b, hblock, hb⟩ | rfl
  · rcases Block.close_eq_error hb with ⟨name, rfl⟩ | rfl
    · intro more
      have hholds : r.Holds Block.Sound fun _ => True :=
        (Reader.Holds.start ladybugs).readLines Block.Sound.start
          (fun _ _ _ hb hline => hb.readLine hline) (fun _ _ _ _ => trivial) hread
      have hcut : r.CutOff b.number name := ⟨b, hblock, hholds.block b hblock, hb⟩
      have hsteps : readTrees (lines ++ more) ladybugs =
          r.readLines (1 + lines.length) more >>= Reader.close := by
        rw [readTrees, Reader.readLines_append, hread]
        rfl
      rw [hsteps, List.length_append]
      rcases hcut.readLines (1 + lines.length) more with hsame | ⟨k, fault, hge, hlt, hfault⟩
      · exact .inl hsame
      · exact .inr ⟨k, fault, by omega, by omega, hfault⟩
    · trivial
  · trivial

/-- **Complaints about lines come early, and complaints that no line can help last.** -/
theorem readTrees_error_lasts (h : readTrees lines ladybugs = .error error) :
    error.Lasts lines ladybugs := by
  rcases readTrees_eq_error h with ⟨first, line, rest, rfl, hstops⟩ | ⟨r, hread, hclose⟩
  · exact hstops.lasts rest
  · exact lasts_of_close hread hclose

/-- A node out of reach and a tree too many are noticed at the end of a text, and a line without a
header before it is at fault by itself. -/
theorem readTrees_error_lasts_at_end :
    let stray := ["flowchart TD", "A[?] --> B[move]", "C[?] --> D[move]"]
    let headless := ["", "A[move]", "flowchart TD"]
    let many := ["flowchart TD", "A[move]", "flowchart TD", "B[move]"]
    (readTrees stray 1 = .error (.disconnected 1 "C") ∧
      (FlowchartError.disconnected 1 "C").Lasts stray 1) ∧
    (readTrees headless 1 = .error (.atLine 2 .missingHeader) ∧
      (FlowchartError.atLine 2 .missingHeader).Lasts headless 1) ∧
    (readTrees many 1 = .error (.tooManyTrees 2 1) ∧
      (FlowchartError.tooManyTrees 2 1).Lasts many 1) := by
  intro stray headless many
  have hstray : readTrees stray 1 = .error (.disconnected 1 "C") := by decide +kernel
  have hheadless : readTrees headless 1 = .error (.atLine 2 .missingHeader) := by decide +kernel
  have hmany : readTrees many 1 = .error (.tooManyTrees 2 1) := by decide +kernel
  exact ⟨⟨hstray, readTrees_error_lasts hstray⟩, ⟨hheadless, readTrees_error_lasts hheadless⟩,
    ⟨hmany, readTrees_error_lasts hmany⟩⟩

end Flowchart

end Ladybug
