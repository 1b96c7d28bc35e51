import Ladybug.Proofs.Boards
import Ladybug.Proofs.GameRuns
import Ladybug.Proofs.OneAction

/-!
# Every ladybug has a cell of its own

Throughout a game the ladybugs stand inside the grid, each on a cell of its own and none on
a tree. The cell need not be empty: a mushroom may be pushed under a ladybug, and a leaf may
be placed there. But no deed plants a tree, and whoever leaves a cell lands on an empty one
on which nobody else stands. That much is true of every deed, and it is all that is needed.

This begins with the load of a board, and there it takes a countable grid. A coordinate has 32 bits,
and a ladybug in a column or row beyond them starts outside the grid, or on another cell. Only
that the table has a row for each ladybug is true of all boards.

## Main definitions

* `Colony.Aligned` — the table is in order.
* `World.Settled` — each ladybug has a cell of its own.
* `World.Deed` — what every deed leaves.
* `Field.Aligned`, `Field.Settled` — the same of the world in play and of the world as it was
  loaded.

## Main results

* `Action.attempt?_deed` — the six actions are deeds.
* `World.Deed.keeps_settled` — a deed leaves a settled world settled.
* `World.settled_of_read` — the world of a countable board is settled.
* `Field.aligned_invariant`, `Field.settled_invariant` — the steps of a field keep tables in order,
  and countable worlds settled.
* `Colony.agentAt?_eq_some_iff`, `World.Settled.agentAt?_eq_some_iff` — who stands on a cell.
* `Game.Reachable.settled` — in every reachable game with a countable grid each ladybug has a cell
  of its own.
* `Game.not_settled_beyond` — one column further a ladybug starts outside the grid.
-/

namespace Ladybug

/-! ### What deeds do to the grid -/

/-- The second grid has the bounds of the first one and no tree that is not there as well. -/
structure Grid.NoNewTree (g g' : Grid) : Prop where
  inBounds : ∀ p, g'.inBounds p = g.inBounds p
  tree : ∀ p, g'.cell? p = some .tree → g.cell? p = some .tree

namespace Grid.NoNewTree

variable {g g' g'' : Grid}

theorem refl (g : Grid) : NoNewTree g g := ⟨fun _ => rfl, fun _ h => h⟩

theorem trans (h : NoNewTree g g') (h' : NoNewTree g' g'') : NoNewTree g g'' where
  inBounds p := (h'.inBounds p).trans (h.inBounds p)
  tree p htree := h.tree p (h'.tree p htree)

/-- Setting a cell to something else plants no tree. -/
theorem set (g : Grid) (p : Position) {c : Cell} (hc : c ≠ .tree) : NoNewTree g (g.set p c) where
  inBounds q := inBounds_set g p q c
  tree q htree := by
    by_cases hp : g.inBounds p
    · rw [cell?_set hp] at htree
      split at htree
      · exact absurd (Option.some.inj htree) hc
      · exact htree
    · rwa [set_of_not_inBounds hp] at htree

end Grid.NoNewTree

/-! ### Rows of the colony -/

namespace Colony

/-- Every array of the table has a row for each ladybug. -/
structure Aligned (c : Colony) : Prop where
  positions : c.positions.size = c.count
  directions : c.directions.size = c.count
  active : c.active.size = c.count

/-- The table of a board is in order. -/
theorem aligned_ofSpawns (spawns : List Spawn) : (ofSpawns spawns).Aligned := by
  constructor <;> simp [ofSpawns]

/-- A ladybug that is put on a cell is there, or it is a stranger and nothing changes. -/
theorem position_setPosition_self (c : Colony) (a : AgentId) (p : Position) :
    (c.setPosition a p).position a = p ∨ (c.setPosition a p).position a = c.position a := by
  by_cases h : a.index < c.positions.size
  · exact .inl ((position_setPosition h p a).trans (if_pos rfl))
  · right
    rw [setPosition, Array.setIfInBounds_eq_of_size_le (Nat.le_of_not_lt h)]

/-- The rows of the table are those of the ladybugs. -/
theorem contains_ofIndex {c : Colony} {row : Nat} : c.contains (.ofIndex row) ↔ row < c.count :=
  mem_ids.symm.trans (by simp [ids, AgentId.ofIndex])

/-- The position of a ladybug stands in its row. -/
theorem getElem?_positions {c : Colony} {a : AgentId} (h : a.index < c.positions.size) :
    c.positions.toList[a.index]? = some (c.position a) := by
  rw [Array.getElem?_toList, position, Array.getElem?_eq_getElem h, Option.getD_some]

/-- If no other ladybug stands on a cell, each of the others stands elsewhere. -/
theorem position_ne_of_occupiedByOther {c : Colony} {a b : AgentId} {p : Position}
    (h : c.occupiedByOther a p = false) (hb : b.index < c.positions.size)
    (hab : b.index ≠ a.index) : c.position b ≠ p := by
  intro hp
  have hrow : c.positions.toList[b.index]? = some p :=
    (getElem?_positions hb).trans (congrArg some hp)
  have hoccupied : c.occupiedByOther a p = true := by
    refine List.any_eq_true.mpr ⟨(p, b.index), List.mem_zipIdx_iff_getElem?.mpr hrow, ?_⟩
    simp [hab]
  rw [h] at hoccupied
  cases hoccupied

/-- Where a ladybug is depends on its row only. -/
theorem position_congr {a b : AgentId} (h : b.index = a.index) (c : Colony) :
    c.position b = c.position a := by
  rw [position, position, h]

/-- Two ladybugs of a colony have different rows. -/
theorem eq_of_index {c : Colony} {a b : AgentId} (ha : c.contains a) (hb : c.contains b)
    (h : a.index = b.index) : a = b := by
  simp only [contains, Bool.and_eq_true, decide_eq_true_eq] at ha hb
  rw [← AgentId.ofIndex_index ha.1, ← AgentId.ofIndex_index hb.1, h]

/-- The row of a ladybug is one of the table. -/
theorem index_lt_of_contains {c : Colony} {a : AgentId} (h : c.contains a) :
    a.index < c.count := by
  simp only [contains, Bool.and_eq_true, decide_eq_true_eq] at h
  exact h.2

/-- The ladybugs of a board stand and face as they were found, in the same order. -/
theorem getElem?_spawns {spawns : List Spawn} {a : AgentId} (h : (ofSpawns spawns).contains a) :
    spawns[a.index]? = some ⟨(ofSpawns spawns).position a, (ofSpawns spawns).direction a⟩ := by
  have hlt : a.index < spawns.length := index_lt_of_contains h
  simp [ofSpawns, position, direction, hlt]

/-- Who belongs to a colony depends on its size only. -/
theorem contains_congr {c d : Colony} (h : d.count = c.count) (a : AgentId) :
    d.contains a = c.contains a := by
  rw [contains, contains, h]

/-- Who stands on a cell is the first of the ladybugs that do. -/
theorem agentAt?_eq_some_iff {c : Colony} {p : Position} {a : AgentId} (h : c.Aligned) :
    c.agentAt? p = some a ↔ (c.contains a ∧ c.position a = p) ∧
      ∀ b, c.contains b → b.index < a.index → c.position b ≠ p := by
  have hrow (b : AgentId) (hb : c.contains b) :
      ∃ hlt : b.index < c.positions.toList.length,
        c.positions.toList[b.index] = c.position b := by
    refine List.getElem?_eq_some_iff.mp (getElem?_positions ?_)
    rw [h.positions]
    exact index_lt_of_contains hb
  have hlength : c.positions.toList.length = c.count := Array.length_toList.trans h.positions
  rw [agentAt?, Option.map_eq_some_iff]
  constructor
  · rintro ⟨row, hfound, rfl⟩
    obtain ⟨hlt, hp, hbefore⟩ := List.findIdx?_eq_some_iff_getElem.mp hfound
    have hcontains := contains_ofIndex.mpr (hlength ▸ hlt)
    refine ⟨⟨hcontains, ?_⟩, fun b hb hless hposition => ?_⟩
    · obtain ⟨_, hstands⟩ := hrow _ hcontains
      exact hstands.symm.trans (eq_of_beq hp)
    · obtain ⟨_, hstands⟩ := hrow b hb
      exact hbefore b.index hless (beq_iff_eq.mpr (hstands.trans hposition))
  · rintro ⟨⟨ha, hp⟩, hbefore⟩
    obtain ⟨hlt, hposition⟩ := hrow a ha
    refine ⟨a.index, List.findIdx?_eq_some_iff_getElem.mpr ⟨hlt, ?_, fun row hless => ?_⟩, ?_⟩
    · exact beq_iff_eq.mpr (hposition.trans hp)
    · have hcontains : c.contains (.ofIndex row) := contains_ofIndex.mpr (by omega)
      obtain ⟨_, hstands⟩ := hrow _ hcontains
      rw [beq_iff_eq]
      exact fun hat => hbefore _ hcontains hless (hstands.symm.trans hat)
    · simp only [contains, Bool.and_eq_true, decide_eq_true_eq] at ha
      exact AgentId.ofIndex_index ha.1

section SameBut

variable {a : AgentId} {c d : Colony}

/-- The table stays in order. -/
theorem SameBut.aligned (h : SameBut a c d) (hc : c.Aligned) : d.Aligned where
  positions := by rw [h.positions_size, hc.positions, h.count]
  directions := by rw [h.directions_size, hc.directions, h.count]
  active := by rw [h.active, hc.active, h.count]

/-- The other ladybugs stay where they are. -/
theorem SameBut.position (h : SameBut a c d) {b : AgentId} (hab : b.index ≠ a.index) :
    d.position b = c.position b := by
  rw [Colony.position, Colony.position, h.positions b.index hab]

/-- Nobody becomes active or inactive. -/
theorem SameBut.isActive (h : SameBut a c d) (b : AgentId) : d.isActive b = c.isActive b := by
  rw [Colony.isActive, Colony.isActive, h.active]

/-- The active ladybugs are the same ones. -/
theorem SameBut.activeIds (h : SameBut a c d) : d.activeIds = c.activeIds := by
  rw [Colony.activeIds, Colony.activeIds, ids, ids, h.count]
  exact List.filter_congr fun b _ => h.isActive b

end SameBut

end Colony

namespace World

/-! ### Deeds -/

/-- What every deed of a ladybug leaves: no new tree, the other ladybugs where they were, and
the ladybug itself either where it was or on an empty cell on which nobody else stands. -/
structure Deed (a : AgentId) (w w' : World) : Prop where
  colony : Colony.SameBut a w.colony w'.colony
  grid : Grid.NoNewTree w.grid w'.grid
  lands : w'.colony.position a = w.colony.position a ∨
    w'.grid.cell? (w'.colony.position a) = some .empty ∧
      w.colony.occupiedByOther a (w'.colony.position a) = false

namespace Deed

variable {a : AgentId} {w w' : World}

/-- Doing nothing is a deed. -/
theorem refl (a : AgentId) (w : World) : Deed a w w := ⟨.refl .., .refl _, .inl rfl⟩

/-- Landing on an empty cell without another ladybug is a deed. -/
theorem lands_on {g : Grid} {c : Colony} {p : Position} (hcolony : Colony.SameBut a w.colony c)
    (hposition : c.position a = w.colony.position a) (hgrid : Grid.NoNewTree w.grid g)
    (hempty : g.cell? p = some .empty) (hfree : w.colony.occupiedByOther a p = false) :
    Deed a w ⟨g, c.setPosition a p⟩ := by
  refine ⟨hcolony.trans (.setPosition ..), hgrid, ?_⟩
  rcases c.position_setPosition_self a p with hp | hp
  · exact .inr (hp.symm ▸ ⟨hempty, hfree⟩)
  · exact .inl (hp.trans hposition)

end Deed

/-- Stepping forward is a deed, with and without a mushroom ahead. -/
theorem stepForward?_deed {a : AgentId} {w w' : World} (h : w.stepForward? a = some w') :
    Deed a w w' := by
  rw [stepForward?] at h
  split at h
  · cases h
  · next hoccupied =>
      have hfree : w.colony.occupiedByOther a (w.colony.front a) = false := by
        rwa [Bool.not_eq_true] at hoccupied
      split at h
      · next hempty =>
          obtain rfl := Option.some.inj h
          exact .lands_on (.refl ..) rfl (.refl _) hempty hfree
      · next hmushroom =>
          dsimp only at h
          split at h
          · obtain rfl := Option.some.inj h
            -- The cell beyond is set first, so that the cell ahead ends up empty in any case.
            let beyond := (w.colony.front a).step (w.colony.direction a)
            have hbeyond : w.grid.NoNewTree (w.grid.set beyond .mushroom) := .set _ _ (by decide)
            have hin := (hbeyond.inBounds _).trans (Grid.inBounds_of_cell? hmushroom)
            refine .lands_on (.refl ..) rfl (hbeyond.trans (.set _ _ (by decide))) ?_ hfree
            rw [Grid.cell?_set hin, if_pos rfl]
          · cases h
      · cases h

/-- Flying is a deed. -/
theorem fly?_deed {a : AgentId} {w w' : World} {goal : Position} (h : w.fly? a goal = some w') :
    Deed a w w' := by
  rw [fly?] at h
  split at h
  · next hgoal =>
      obtain rfl := Option.some.inj h
      obtain ⟨hempty, hfree⟩ := Bool.and_eq_true_iff.mp hgoal
      exact .lands_on (.setDirection ..) rfl (.refl _) (eq_of_beq hempty)
        (Bool.not_eq_true' _ |>.mp hfree)
  · cases h

/-- Exchanging the contents of the cell ahead for anything but a tree is a deed. -/
theorem replaceAhead?_deed {a : AgentId} {w w' : World} {expected replacement : Cell}
    (hreplacement : replacement ≠ .tree) (h : w.replaceAhead? a expected replacement = some w') :
    Deed a w w' := by
  rw [replaceAhead?] at h
  split at h
  · obtain rfl := Option.some.inj h
    exact ⟨.refl .., .set _ _ hreplacement, .inl rfl⟩
  · cases h

end World

/-- The six actions are deeds. -/
theorem Action.attempt?_deed {action : Action} {w w' : World} {a : AgentId}
    (h : action.attempt? w a = some w') : World.Deed a w w' := by
  cases action with
  | move => exact World.stepForward?_deed h
  | turnLeft =>
      obtain rfl := Option.some.inj h
      exact ⟨.setDirection .., .refl _, .inl rfl⟩
  | turnRight =>
      obtain rfl := Option.some.inj h
      exact ⟨.setDirection .., .refl _, .inl rfl⟩
  | takeLeaf => exact World.replaceAhead?_deed Cell.noConfusion h
  | placeLeaf => exact World.replaceAhead?_deed Cell.noConfusion h
  | fly goal => exact World.fly?_deed h

/-- An action is a deed, whether or not it succeeds. -/
theorem Action.perform_deed (action : Action) (w : World) (a : AgentId) :
    World.Deed a w (action.perform w a).1 := by
  rw [perform]
  cases h : action.attempt? w a with
  | none => exact .refl a w
  | some w' => exact attempt?_deed h

/-- A turn of a ladybug is a deed. -/
theorem Tree.tick_deed (t : Tree) (w : World) (a : AgentId) :
    World.Deed a w (t.tick w a).world := by
  cases hp : (t.walks w a).tree.pending? with
  | none =>
      rw [tick_of_not_pending hp]
      exact .refl a w
  | some action =>
      rw [tick_of_pending hp]
      exact action.perform_deed w a

/-! ### Settled worlds -/

/-- Each ladybug stands inside the grid, on a cell of its own and not on a tree, and all
columns of the table are as long as there are ladybugs. -/
structure World.Settled (w : World) : Prop where
  inBounds : ∀ a, w.colony.contains a → w.grid.inBounds (w.colony.position a)
  apart : ∀ a b, w.colony.contains a → w.colony.contains b →
    w.colony.position a = w.colony.position b → a = b
  noTree : ∀ a, w.colony.contains a → w.grid.cell? (w.colony.position a) ≠ some .tree
  positions : w.colony.positions.size = w.colony.count
  directions : w.colony.directions.size = w.colony.count
  active : w.colony.active.size = w.colony.count

namespace World

variable {a b c : AgentId} {w w' : World}

/-- The table of a settled world is in order. -/
theorem Settled.aligned (h : w.Settled) : w.colony.Aligned := ⟨h.positions, h.directions, h.active⟩

/-- In a settled world it is the only one. -/
theorem Settled.agentAt?_eq_some_iff (h : w.Settled) {p : Position}
    {a : AgentId} :
    w.colony.agentAt? p = some a ↔ w.colony.contains a ∧ w.colony.position a = p := by
  rw [Colony.agentAt?_eq_some_iff h.aligned]
  refine ⟨And.left, fun ha => ⟨ha, fun b hb hless hposition => ?_⟩⟩
  obtain rfl := h.apart b a hb ha.1 (hposition.trans ha.2.symm)
  exact Nat.lt_irrefl _ hless
/-- After a deed nobody stands on the cell of a ladybug who did not do it. -/
theorem Deed.apart (h : Deed a w w') (hw : w.Settled) (hb : w.colony.contains b)
    (hc : w.colony.contains c) (hba : b.index ≠ a.index)
    (heq : w'.colony.position b = w'.colony.position c) : b = c := by
  have hstays := h.colony.position hba
  by_cases hca : c.index = a.index
  · rw [hstays, Colony.position_congr hca] at heq
    rcases h.lands with hposition | ⟨-, hfree⟩
    · rw [hposition, ← Colony.position_congr hca] at heq
      exact hw.apart b c hb hc heq
    · refine absurd heq (Colony.position_ne_of_occupiedByOther hfree ?_ hba)
      exact hw.positions.symm ▸ Colony.index_lt_of_contains hb
  · rw [hstays, h.colony.position hca] at heq
    exact hw.apart b c hb hc heq

/-- A deed leaves a settled world settled. -/
theorem Deed.keeps_settled (h : Deed a w w') (hw : w.Settled) : w'.Settled := by
  have hcontains := Colony.contains_congr h.colony.count
  have haligned := h.colony.aligned hw.aligned
  -- A ladybug stands where it stood, or it is the one that landed.
  have hstands (b : AgentId) (hb : w.colony.contains b) :
      w'.colony.position b = w.colony.position b ∨
        w'.grid.cell? (w'.colony.position b) = some .empty := by
    by_cases hba : b.index = a.index
    · rw [Colony.position_congr hba, Colony.position_congr hba]
      exact h.lands.imp_right And.left
    · exact .inl (h.colony.position hba)
  constructor
  · intro b hb
    rw [hcontains] at hb
    rcases hstands b hb with hposition | hempty
    · rw [hposition, h.grid.inBounds]
      exact hw.inBounds b hb
    · exact Grid.inBounds_of_cell? hempty
  · intro b c hb hc heq
    rw [hcontains] at hb hc
    by_cases hba : b.index = a.index
    · by_cases hca : c.index = a.index
      · exact Colony.eq_of_index hb hc (hba.trans hca.symm)
      · exact (h.apart hw hc hb hca heq.symm).symm
    · exact h.apart hw hb hc hba heq
  · intro b hb htree
    rw [hcontains] at hb
    rcases hstands b hb with hposition | hempty
    · rw [hposition] at htree
      exact hw.noTree b hb (h.grid.tree _ htree)
    · rw [htree] at hempty
      cases hempty
  · exact haligned.positions
  · exact haligned.directions
  · exact haligned.active

/-- The world of a countable board is settled. -/
theorem settled_of_read {lines : List String} {board : Board} (h : Board.read lines = .ok board)
    (hcountable : board.grid.Countable) : (ofBoard board).Settled := by
  have haligned := Colony.aligned_ofSpawns board.spawns
  have hspawn (a : AgentId) (ha : (ofBoard board).colony.contains a) :
      ∃ s, board.spawns[a.index]? = some s ∧ (ofBoard board).colony.position a = s.position :=
    ⟨_, Colony.getElem?_spawns ha, rfl⟩
  have hempty (a : AgentId) (ha : (ofBoard board).colony.contains a) :
      board.grid.cell? ((ofBoard board).colony.position a) = some .empty := by
    obtain ⟨s, hs, hposition⟩ := hspawn a ha
    rw [hposition]
    exact Board.cell?_of_read h hcountable (List.mem_of_getElem? hs)
  constructor
  · exact fun a ha => Grid.inBounds_of_cell? (hempty a ha)
  · intro a b ha hb heq
    obtain ⟨s, hs, hposition⟩ := hspawn a ha
    obtain ⟨t, ht, hposition'⟩ := hspawn b hb
    rw [hposition, hposition'] at heq
    obtain ⟨hsrow, rfl⟩ := List.getElem?_eq_some_iff.mp hs
    obtain ⟨htrow, rfl⟩ := List.getElem?_eq_some_iff.mp ht
    have hpairwise := List.pairwise_iff_getElem.mp (Board.pairwise_of_read h hcountable)
    refine Colony.eq_of_index ha hb ?_
    by_contra hne
    rcases Nat.lt_or_gt_of_ne hne with hlt | hgt
    · exact hpairwise _ _ hsrow htrow hlt heq
    · exact hpairwise _ _ htrow hsrow hgt heq.symm
  · intro a ha htree
    have hcell := hempty a ha
    rw [show board.grid.cell? _ = some Cell.tree from htree] at hcell
    cases hcell
  · exact haligned.positions
  · exact haligned.directions
  · exact haligned.active

end World

/-! ### Settled fields -/

/-- The tables of the world in play and of the world as it was loaded are in order, and both worlds
have the same ladybugs and the same bounds. -/
structure Field.Aligned (f : Field) : Prop where
  world : f.world.colony.Aligned
  initial : f.initial.colony.Aligned
  count : f.world.colony.count = f.initial.colony.count
  bounds : ∀ p, f.world.grid.inBounds p = f.initial.grid.inBounds p

/-- The world in play is settled, the world as it was loaded is, and the ladybugs are the
same in number. -/
structure Field.Settled (f : Field) : Prop where
  world : f.world.Settled
  initial : f.initial.Settled
  count : f.world.colony.count = f.initial.colony.count

namespace Field

/-! ### Steps of a field -/

/-- The ladybugs are made active one after another. -/
theorem activateFirst_succ (c : Colony) (n : Nat) :
    activateFirst c (n + 1) = (activateFirst c n).setActive (.ofIndex n) true := by
  rw [activateFirst, List.range_succ, List.foldl_append]
  rfl

/-- Making the first ladybugs active touches nothing but who is active. -/
theorem exists_activateFirst_eq (c : Colony) (n : Nat) :
    ∃ active, activateFirst c n = { c with active := active } ∧ active.size = c.active.size := by
  induction n with
  | zero => exact ⟨_, rfl, Array.size_map⟩
  | succ n ih =>
      obtain ⟨active, heq, hsize⟩ := ih
      rw [activateFirst_succ, heq]
      exact ⟨_, rfl, Array.size_setIfInBounds.trans hsize⟩

/-- Only an active ladybug of the colony with a tree in its place has a tree. -/
theorem tree_eq_ok_iff {f : Field} {a : AgentId} {t : Tree} :
    f.tree a = .ok t ↔ (f.world.colony.contains a ∧ f.world.colony.isActive a) ∧
      f.trees[a.index]? = some (some t) := by
  rw [tree, checkActive]
  by_cases hcontains : f.world.colony.contains a
  · by_cases hactive : f.world.colony.isActive a
    · simp only [hcontains, hactive, Bool.not_true, Bool.false_eq_true, if_false, true_and]
      split
      · next tree htree =>
          rw [htree, Option.some_inj, Option.some_inj]
          exact ⟨Except.ok.inj, congrArg Except.ok⟩
      · next hnone =>
          constructor
          · intro h
            cases h
          · intro htree
            exact absurd htree (hnone t)
    · simp only [hcontains, hactive, Bool.not_true, Bool.false_eq_true, if_false]
      constructor
      · intro h
        cases h
      · rintro ⟨⟨-, h⟩, -⟩
        cases h
  · simp only [hcontains]
    constructor
    · intro h
      cases h
    · rintro ⟨⟨h, -⟩, -⟩
      cases h

/-- A turn is a turn of the ladybug's tree. -/
theorem turn_of_tree {f : Field} {a : AgentId} {t : Tree} (h : f.tree a = .ok t) :
    f.turn a = .ok ((t.tick f.world a).trace,
      { f.setTree a (t.tick f.world a).tree with world := (t.tick f.world a).world }) := by
  rw [turn, h]
  rfl

/-- A ladybug that takes a turn has a tree. -/
theorem exists_tree_of_turn {f f' : Field} {a : AgentId} {trace : Trace}
    (h : f.turn a = .ok (trace, f')) :
    ∃ t, f.tree a = .ok t ∧ trace = (t.tick f.world a).trace ∧
      f' = { f.setTree a (t.tick f.world a).tree with world := (t.tick f.world a).world } := by
  cases htree : f.tree a with
  | error error =>
      rw [turn, htree] at h
      cases h
  | ok t =>
      rw [turn_of_tree htree] at h
      obtain ⟨rfl, rfl⟩ := Prod.mk.inj (Except.ok.inj h)
      exact ⟨t, rfl, rfl, rfl⟩

/-- The world in which trees are bound is the one that was loaded, except that other ladybugs are
active. -/
theorem exists_world_bind_eq (f : Field) (trees : List Tree) :
    ∃ active, (f.bind trees).world =
        { f.initial with colony := { f.initial.colony with active := active } } ∧
      active.size = f.initial.colony.active.size := by
  obtain ⟨active, heq, hsize⟩ := exists_activateFirst_eq f.initial.colony trees.length
  exact ⟨active, by rw [Field.bind, heq], hsize⟩

/-- Whatever is done to a field leaves its tables in order. -/
theorem aligned_invariant : Field.Invariant Field.Aligned where
  ofBoard {_ board} _ :=
    ⟨Colony.aligned_ofSpawns _, Colony.aligned_ofSpawns board.spawns, rfl, fun _ => rfl⟩
  bind {f _ trees} h _ := by
    obtain ⟨active, hworld, hsize⟩ := exists_world_bind_eq f trees
    have hinitial := h.initial
    refine ⟨?_, hinitial, ?_, ?_⟩
    · rw [hworld]
      exact { hinitial with active := hsize.trans hinitial.active }
    · rw [hworld]
      rfl
    · rw [hworld]
      exact fun _ => rfl
  turn {f a _ _} h hturn := by
    obtain ⟨t, -, -, rfl⟩ := exists_tree_of_turn hturn
    have hdeed := t.tick_deed f.world a
    exact ⟨hdeed.colony.aligned h.world, h.initial, hdeed.colony.count.trans h.count,
      fun p => (hdeed.grid.inBounds p).trans (h.bounds p)⟩
  setTree h _ _ := ⟨h.world, h.initial, h.count, h.bounds⟩

/-- Whatever is done to a field leaves it settled, if its grid is countable. -/
theorem settled_invariant :
    Field.Invariant fun f => f.initial.grid.Countable → f.Settled where
  ofBoard h hcountable :=
    ⟨World.settled_of_read h hcountable, World.settled_of_read h hcountable, rfl⟩
  bind {f _ trees} h _ hcountable := by
    obtain ⟨active, hworld, hsize⟩ := exists_world_bind_eq f trees
    have hinitial := (h hcountable).initial
    refine ⟨?_, hinitial, ?_⟩
    · rw [hworld]
      exact { hinitial with active := hsize.trans hinitial.active }
    · rw [hworld]
      rfl
  turn {f a _ _} h hturn := by
    obtain ⟨t, -, -, rfl⟩ := exists_tree_of_turn hturn
    have hdeed := t.tick_deed f.world a
    intro hcountable
    obtain ⟨hworld, hinitial, hcount⟩ := h hcountable
    exact ⟨hdeed.keeps_settled hworld, hinitial, hdeed.colony.count.trans hcount⟩
  setTree h _ _ hcountable := ⟨(h hcountable).world, (h hcountable).initial, (h hcountable).count⟩

end Field

namespace Game

/-- In a reachable game the field is settled, if its grid is countable. -/
theorem Reachable.settled_field {g : Game} (h : g.Reachable) {f : Field} (hf : g.field = some f)
    (hcountable : f.world.grid.Countable) : f.Settled :=
  have hbounds := (h.holds Field.aligned_invariant f hf).bounds
  h.holds Field.settled_invariant f hf (hcountable.congr fun p => (hbounds p).symm)

/-- **In every reachable game with a countable grid each ladybug has a cell of its own**: as soon as
a board is loaded, it stands inside the grid, no other ladybug stands on its cell, the cell is not a
tree, and all columns of the table are as long as there are ladybugs. The last part is true of all
grids. -/
theorem Reachable.settled {g : Game} (h : g.Reachable) {w : World} (hw : g.world = .ok w) :
    w.colony.Aligned ∧ (w.grid.Countable → w.Settled) := by
  rw [world, loaded] at hw
  cases hf : g.field with
  | none =>
      rw [hf] at hw
      cases hw
  | some f =>
      rw [hf] at hw
      obtain rfl := Except.ok.inj hw
      have haligned := h.holds Field.aligned_invariant f hf
      exact ⟨haligned.world, fun hcountable => (h.settled_field hf hcountable).world⟩

/-- A mushroom pushed under the second ladybug leaves each on a cell of its own. -/
theorem settled_pushed_under :
    let g := ((Game.new.after (.loadBoard [">o^"])).after
      (.loadTrees ["flowchart TD", "A[->] --> B[move]"])).after (.tick .first)
    ∃ w, g.world = .ok w ∧ w.colony.position .first = ⟨1, 0⟩ ∧
      w.grid.cell? (w.colony.position ⟨2⟩) = some .mushroom ∧ w.Settled := by
  intro g
  have hreach : g.Reachable := .after _ (.after _ (.after _ .new))
  have hw : g.world = .ok ⟨⟨3, 1, #[.empty, .empty, .mushroom], rfl⟩,
      ⟨2, #[⟨1, 0⟩, ⟨2, 0⟩], #[.right, .up], #[true, false]⟩⟩ := by decide +kernel
  have hcountable : Grid.Countable ⟨3, 1, #[.empty, .empty, .mushroom], rfl⟩ :=
    (Grid.small_of_le (by decide) (by decide)).countable
  exact ⟨_, hw, rfl, rfl, (hreach.settled hw).2 hcountable⟩

/-- A ladybug in a column that 32 bits cannot count starts outside the grid. -/
theorem not_settled_beyond :
    ∃ w, (Game.new.after (.loadBoard [Board.loneLine 0x80000000 0])).world = .ok w ∧
      w.colony.contains .first ∧ w.colony.position .first = ⟨-0x80000000, 0⟩ ∧ ¬ w.Settled := by
  obtain ⟨grid, -, -, hread⟩ := Board.exists_read_lone 0x80000000 0
  rw [Position.ofPlace_beyond] at hread
  have hloaded : (Game.new.after (.loadBoard [Board.loneLine 0x80000000 0])).world =
      .ok (.ofBoard ⟨grid, [⟨⟨-0x80000000, 0⟩, .up⟩]⟩) := by
    rw [after, Operation.run, loadBoard, hread]
    rfl
  refine ⟨_, hloaded, rfl, rfl, fun hsettled => ?_⟩
  obtain ⟨⟨hcolumn, -⟩, -⟩ := Grid.inBounds_iff.mp (hsettled.inBounds .first rfl)
  have hnonneg : (0 : Int) ≤ -0x80000000 := hcolumn
  omega

end Game

end Ladybug
