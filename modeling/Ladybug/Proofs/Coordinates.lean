import Ladybug.Proofs.PairLists

/-!
# Written coordinates

Positions can be written if both coordinates, as users count, fit into 32 bits with either
sign. Only such positions are spelled by any text, and the text in which they are written is
one that spells them, since positions with spaces between them are a list of pairs.

## Main definitions

* `Position.Writable` — the positions that flowcharts can name.
* `written` and `writtenAfter` — positions in characters.

## Main results

* `spellsPositions_written` — writable positions are spelled as they are written.
* `SpellsPositions.writable` — what is spelled can be written.
-/

namespace Ladybug

open Text Flowchart

/-- Both coordinates fit into 32 bits, also with their signs changed. -/
structure Position.Writable (p : Position) : Prop where
  column_ge : -maxCoordinate ≤ p.toDisplay.1
  column_le : p.toDisplay.1 ≤ maxCoordinate
  row_ge : -maxCoordinate ≤ p.toDisplay.2
  row_le : p.toDisplay.2 ≤ maxCoordinate

namespace Flowchart

/-! ### Integers -/

/-- A written number is spelled. -/
theorem spellsNat_digitsOf (n : Nat) : SpellsNat (digitsOf n) n :=
  ⟨digitsOf_ne_nil n, fun _ hc => isDigit_of_mem_digitsOf hc, digitsValue_digitsOf n⟩

/-- A written integer is spelled. -/
theorem spellsInt_signedDigitsOf (x : Int) : SpellsInt (signedDigitsOf x) x := by
  cases x with
  | ofNat n => exact .plain (spellsNat_digitsOf n)
  | negSucc n => exact .minus (spellsNat_digitsOf (n + 1))

/-! ### Positions -/

/-- A position in characters, as flowcharts write it. -/
def written (p : Position) : List Char :=
  signedDigitsOf p.toDisplay.1 ++ ',' :: signedDigitsOf p.toDisplay.2

/-- Positions in characters, each behind a space. -/
def writtenAfter (ps : List Position) : List Char := ps.flatMap fun p => ' ' :: written p

/-- A written position is a pair without blanks. -/
theorem spellsPair_written (p : Position) : SpellsPair (written p) p.toDisplay :=
  have hnone : ∀ c ∈ ([] : List Char), isBlank c = true := nofun
  .mk (spellsInt_signedDigitsOf p.toDisplay.1) hnone hnone (spellsInt_signedDigitsOf p.toDisplay.2)

/-- Positions with spaces between them are a list of pairs. -/
theorem spellsPairs_written (p : Position) (ps : List Position) :
    SpellsPairs (written p ++ writtenAfter ps) ((p :: ps).map Position.toDisplay) := by
  induction ps generalizing p with
  | nil =>
      rw [writtenAfter, List.flatMap_nil, List.append_nil]
      exact .one (spellsPair_written p)
  | cons q qs ih =>
      have hspace : IsSeparator [' '] := .blanks (List.cons_ne_nil ' ' []) (List.all_eq_true.mp rfl)
      change SpellsPairs (written p ++ ([' '] ++ (written q ++ writtenAfter qs))) _
      exact .more (spellsPair_written p) hspace (ih q)

/-- **Writable positions are spelled as they are written.** -/
theorem spellsPositions_written {p : Position} {ps : List Position}
    (h : ∀ q ∈ p :: ps, q.Writable) : SpellsPositions (written p ++ writtenAfter ps) (p :: ps) := by
  have hfits : ∀ x ∈ (p :: ps).map Position.toDisplay, Fits x := by
    intro x hx
    obtain ⟨q, hq, rfl⟩ := List.mem_map.mp hx
    have hq := h q hq
    exact ⟨⟨hq.column_ge, hq.column_le⟩, hq.row_ge, hq.row_le⟩
  have hback : ((p :: ps).map Position.toDisplay).map
      (fun x => (⟨x.1 - 1, x.2 - 1⟩ : Position)) = p :: ps := by
    rw [List.map_map]
    exact List.map_id'' Position.ofDisplay_toDisplay (p :: ps)
  have hspelled := SpellsPositions.mk (spellsPairs_written p ps) hfits
  rwa [hback] at hspelled

/-- **What is spelled are writable positions.** -/
theorem SpellsPositions.writable {cs : List Char} {ps : List Position}
    (h : SpellsPositions cs ps) : ∀ p ∈ ps, p.Writable := by
  obtain ⟨-, hfits⟩ := h
  intro p hp
  obtain ⟨x, hx, rfl⟩ := List.mem_map.mp hp
  have hdisplay : Position.toDisplay ⟨x.1 - 1, x.2 - 1⟩ = x := Position.toDisplay_ofDisplay x.1 x.2
  obtain ⟨hcolumn, hrow⟩ := hfits x hx
  exact
    { column_ge := by rw [hdisplay]; exact hcolumn.1
      column_le := by rw [hdisplay]; exact hcolumn.2
      row_ge := by rw [hdisplay]; exact hrow.1
      row_le := by rw [hdisplay]; exact hrow.2 }

end Flowchart

end Ladybug
