import Ladybug.Proofs.Coordinates
import Ladybug.Proofs.Meanings

/-!
# Brackets say what a node is

The kinds of nodes that flowcharts can say are those whose threshold and whose coordinates
fit into 32 bits. Whatever a bracket says is such a kind, and every such kind is said again
by the bracket it is written in. What the bracket holds is a sign or a keyword with
positions behind it; it has no blanks at its ends, and it does not close the bracket.

## Main definitions

* `NodeKind.Writable` — what flowcharts can say.
* `Bracket.ofKind` — the bracket a kind is written in.

## Main results

* `Bracket.writable_of_kind` — a bracket says a writable kind.
* `Bracket.kind_ofKind` — a writable kind is read back from its bracket.
-/

namespace Ladybug

open Text Flowchart

/-- The positions of the kind are writable, and so is its threshold. -/
structure NodeKind.Writable (kind : NodeKind) : Prop where
  positions : ∀ p ∈ kind.positions, p.Writable
  threshold : ∀ n, kind = .composite (.parallel n) → 0 < n ∧ n ≤ maxThreshold

namespace Flowchart

/-! ### Words with positions -/

/-- A word with positions behind it, as flowcharts write it. -/
def said (word : String) (ps : List Position) : List Char := word.toList ++ writtenAfter ps

/-- The text of a position. -/
theorem toList_writtenPosition (p : Position) :
    (NodeKind.writtenPosition p).toList = written p := by
  rw [NodeKind.writtenPosition, String.toList_append, String.toList_append, toList_toString_int,
    toList_toString_int, List.append_assoc]
  rfl

/-- The text of a word with positions. -/
theorem toList_withPositions (word : String) (ps : List Position) :
    (NodeKind.withPositions NodeKind.writtenPosition word ps).toList = said word ps := by
  have hspace : (" " : String).toList = [' '] := rfl
  rw [NodeKind.withPositions, String.toList_append, String.toList_join, List.flatMap_map, said,
    writtenAfter]
  simp only [String.toList_append, toList_writtenPosition, hspace, List.singleton_append]

/-- Characters of written positions. -/
theorem mem_written {p : Position} {c : Char} (h : c ∈ written p) :
    c.isDigit = true ∨ c = '-' ∨ c = ',' := by
  have hsigned : ∀ x : Int, c ∈ signedDigitsOf x → c.isDigit = true ∨ c = '-' := by
    intro x hx
    cases x with
    | ofNat n => exact .inl (isDigit_of_mem_digitsOf hx)
    | negSucc n =>
        rcases List.mem_cons.mp hx with rfl | hx
        · exact .inr rfl
        · exact .inl (isDigit_of_mem_digitsOf hx)
  rcases List.mem_append.mp h with h | h
  · exact (hsigned _ h).imp_right .inl
  · rcases List.mem_cons.mp h with rfl | h
    · exact .inr (.inr rfl)
    · exact (hsigned _ h).imp_right .inl

/-- Written positions do not end with a blank. -/
theorem isBlank_getLast?_writtenAfter (ps : List Position) :
    ∀ c ∈ (writtenAfter ps).getLast?, isBlank c = false := by
  intro c hc
  rcases List.eq_nil_or_concat ps with rfl | ⟨ps, p, rfl⟩
  · cases hc
  · obtain ⟨d, hd, hdigit⟩ := (spellsPair_written p).isDigit_getLast?
    rw [writtenAfter, List.concat_eq_append, List.flatMap_append, List.flatMap_singleton,
      List.getLast?_append, List.getLast?_cons, hd] at hc
    obtain rfl := Option.some.inj hc
    exact isBlank_of_isDigit hdigit

section Said

variable {word : String} (h : IsWord word) (ps : List Position)

include h

/-- What is said starts with a character of its word. -/
theorem exists_cons_said : ∃ c cs, said word ps = c :: cs ∧ c ∈ word.toList := by
  obtain ⟨c, cs, hcs⟩ := List.exists_cons_of_ne_nil h.ne_nil
  exact ⟨c, cs ++ writtenAfter ps, by rw [said, hcs]; rfl, hcs ▸ List.mem_cons_self⟩

/-- Nothing of what is said is trimmed. -/
theorem trim_said : trim (said word ps) = said word ps := by
  refine trim_eq_self (fun c hc => ?_) fun c hc => ?_
  · obtain ⟨d, ds, hds, hd⟩ := exists_cons_said h ps
    rw [hds] at hc
    obtain rfl := Option.some.inj hc
    exact h.isBlank _ hd
  · rw [said, List.getLast?_append, Option.mem_def, Option.or_eq_some_iff] at hc
    rcases hc with hc | ⟨-, hc⟩
    · exact isBlank_getLast?_writtenAfter ps c hc
    · exact h.isBlank c (List.mem_of_getLast? hc)

/-- What is said does not close its bracket and does not end its line. -/
theorem ne_of_mem_said {c : Char} (hc : c ∈ said word ps) : c ≠ ']' ∧ c ≠ '\n' := by
  rcases List.mem_append.mp hc with hc | hc
  · refine ⟨fun heq => h.plain c hc (by rw [heq]; decide), fun heq => ?_⟩
    have hblank := h.isBlank c hc
    rw [heq] at hblank
    cases hblank
  · obtain ⟨p, -, hp⟩ := List.mem_flatMap.mp hc
    rcases List.mem_cons.mp hp with rfl | hp
    · exact ⟨by decide, by decide⟩
    · rcases mem_written hp with hp | rfl | rfl
      · exact ⟨ne_of_isDigit hp (by decide), ne_of_isDigit hp (by decide)⟩
      · exact ⟨by decide, by decide⟩
      · exact ⟨by decide, by decide⟩

end Said

/-! ### Kinds in brackets -/

/-- Positions follow the word they are said behind. -/
theorem follows_said (word : String) (p : Position) (ps : List Position) :
    Follows word.toList (written p ++ writtenAfter ps) (said word (p :: ps)) :=
  ⟨[' '], List.cons_ne_nil ' ' [], List.all_eq_true.mp rfl, rfl⟩

/-- An action is named by what is said of it. -/
theorem saysAction_said {action : Action} (h : ∀ p ∈ action.positions, p.Writable) :
    SaysAction (said action.keyword action.positions) action := by
  cases action with
  | fly goal => exact .fly (spellsPositions_written h) (follows_said _ goal [])
  | move | turnLeft | turnRight | takeLeaf | placeLeaf =>
      exact .plain (by decide) (List.append_nil _)

/-- A condition is named by what is said of it. -/
theorem saysCondition_said {condition : Condition} (h : ∀ p ∈ condition.positions, p.Writable) :
    SaysCondition (said condition.keyword condition.positions) condition := by
  cases condition with
  | pathTo goal => exact .pathTo (spellsPositions_written h) (follows_said _ goal [])
  | pathBetween start goal =>
      exact .pathBetween (spellsPositions_written h) (follows_said _ start [goal])
  | atEdge | leafFront | treeFront | mushroomFront =>
      exact .plain (by decide) (List.append_nil _)

/-- The bracket in which a kind is written. -/
def Bracket.ofKind : NodeKind → Bracket
  | .composite composite => ⟨false, composite.sign.toList⟩
  | .action action => ⟨false, said action.keyword action.positions⟩
  | .condition condition => ⟨true, said condition.keyword condition.positions⟩

/-- Its text is the representation of the kind. -/
theorem Bracket.text_ofKind (kind : NodeKind) :
    (Bracket.ofKind kind).text = kind.representation.toList := by
  cases kind with
  | composite composite =>
      rw [NodeKind.representation, String.toList_append, String.toList_append]
      rfl
  | action action =>
      rw [NodeKind.representation, String.toList_append, String.toList_append,
        toList_withPositions]
      rfl
  | condition condition =>
      rw [NodeKind.representation, String.toList_append, String.toList_append,
        toList_withPositions]
      rfl

/-- The text of a parallel. -/
theorem toList_sign_parallel (n : Nat) :
    (Composite.parallel n).sign.toList = '=' :: (digitsOf n ++ ['>']) := by
  rw [Composite.sign, String.toList_append, String.toList_append, toList_toString_nat]
  rfl

/-- What a bracket of a kind holds is not empty, does not close the bracket and does not end
the line. -/
theorem Bracket.inner_ofKind (kind : NodeKind) :
    (Bracket.ofKind kind).inner ≠ [] ∧
      ∀ c ∈ (Bracket.ofKind kind).inner, c ≠ ']' ∧ c ≠ '\n' := by
  have hsaid : ∀ {word : String} (ps : List Position), IsWord word →
      said word ps ≠ [] ∧ ∀ c ∈ said word ps, c ≠ ']' ∧ c ≠ '\n' := by
    intro word ps hword
    obtain ⟨c, cs, hcs, -⟩ := exists_cons_said hword ps
    exact ⟨by rw [hcs]; exact List.cons_ne_nil c cs, fun c hc => ne_of_mem_said hword ps hc⟩
  cases kind with
  | composite composite =>
      cases composite with
      | fallback => exact ⟨nofun, List.forall_mem_singleton.mpr (by decide)⟩
      | sequence =>
          refine ⟨nofun, List.forall_mem_cons.mpr ⟨by decide, ?_⟩⟩
          exact List.forall_mem_singleton.mpr (by decide)
      | parallel n =>
          rw [ofKind, toList_sign_parallel]
          refine ⟨nofun, fun c hc => ?_⟩
          rcases List.mem_cons.mp hc with rfl | hc
          · exact ⟨by decide, by decide⟩
          · rcases List.mem_append.mp hc with hc | hc
            · have hdigit := isDigit_of_mem_digitsOf hc
              exact ⟨ne_of_isDigit hdigit (by decide), ne_of_isDigit hdigit (by decide)⟩
            · obtain rfl := List.mem_singleton.mp hc
              exact ⟨by decide, by decide⟩
  | action action => exact hsaid _ (isWord_of_action action)
  | condition condition => exact hsaid _ (isWord_of_condition condition)

/-- Nothing of what a bracket of a kind holds is trimmed. -/
theorem Bracket.trim_inner_ofKind (kind : NodeKind) :
    trim (Bracket.ofKind kind).inner = (Bracket.ofKind kind).inner := by
  cases kind with
  | composite composite =>
      cases composite with
      | fallback => rfl
      | sequence => rfl
      | parallel n =>
          rw [ofKind, toList_sign_parallel]
          refine trim_eq_self (fun c hc => ?_) fun c hc => ?_
          · obtain rfl := Option.some.inj hc
            decide
          · rw [← List.cons_append, List.getLast?_concat] at hc
            obtain rfl := Option.some.inj hc
            decide
  | action action => exact trim_said (isWord_of_action action) action.positions
  | condition condition => exact trim_said (isWord_of_condition condition) condition.positions

/-- **A writable kind is read back from its bracket.** -/
theorem Bracket.kind_ofKind {kind : NodeKind} (h : kind.Writable) :
    (Bracket.ofKind kind).kind = .ok kind := by
  rw [kind_eq_ok_iff, trim_inner_ofKind]
  cases kind with
  | composite composite =>
      cases composite with
      | fallback => exact .fallback rfl
      | sequence => exact .sequence rfl
      | parallel n =>
          obtain ⟨hpos, hle⟩ := h.threshold n rfl
          exact .parallel ⟨spellsNat_digitsOf n, head?_digitsOf hpos, hpos, hle⟩
            (toList_sign_parallel n)
  | action action => exact .action rfl (saysAction_said h.positions)
  | condition condition => exact .condition rfl (saysCondition_said h.positions)

/-- **What a bracket says is a writable kind.** -/
theorem Bracket.writable_of_kind {b : Bracket} {kind : NodeKind} (h : b.kind = .ok kind) :
    kind.Writable := by
  have hplain : ∀ action ∈ Action.plain, action.positions = [] := by decide
  have hplain' : ∀ condition ∈ Condition.plain, condition.positions = [] := by decide
  cases kind_eq_ok_iff.mp h with
  | fallback => exact ⟨nofun, nofun⟩
  | sequence => exact ⟨nofun, nofun⟩
  | parallel hn =>
      refine ⟨nofun, fun m hm => ?_⟩
      obtain rfl := Composite.parallel.inj (NodeKind.composite.inj hm)
      exact ⟨hn.pos, hn.le⟩
  | @condition condition _ hcondition =>
      refine ⟨?_, nofun⟩
      change ∀ p ∈ condition.positions, p.Writable
      cases hcondition with
      | plain hmem => rw [hplain' condition hmem]; exact nofun
      | pathTo hgoal => exact hgoal.writable
      | pathBetween hgoals => exact hgoals.writable
  | @action action _ haction =>
      refine ⟨?_, nofun⟩
      change ∀ p ∈ action.positions, p.Writable
      cases haction with
      | plain hmem => rw [hplain action hmem]; exact nofun
      | fly hgoal => exact hgoal.writable

end Flowchart

end Ladybug
