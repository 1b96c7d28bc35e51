import Ladybug.Grid.Path
import Ladybug.Proofs.Stock

/-!
# Searches decide whether cells are connected

A search keeps two things: the grid in which the empty cells it has come to are covered, and a
list of those whose neighbors it has still to look at. It takes one position from the list,
covers the empty cells around it and adds them to the list. What it has come to is connected with
the start, and a cell that is off the list has nothing empty around it any more. So once the list
is used up, the cells it has come to are closed under steps, and these are all that are connected
with the start.

Every position enters the list when its cell is covered. The empty cells and the list together
lose exactly one with every position that is taken, and that is why a search ends.

Nothing in this depends on where in the list new positions go. A flood puts them in front. A
breadth-first search puts them at the end, and it stops as soon as it is next to the goal. Both
give the same answer.

## Main definitions

* `Grid.IsWalk` — a walk over empty cells, given by its cells.
* `Grid.search` and `Grid.findsPath` — the breadth-first search.
* `Grid.Searched` — what a search knows at any time.

## Main results

* `Grid.connected_iff_exists_walk` — connected cells are those with a walk between them.
* `Grid.amount_cover` — what is covered is no longer counted as empty.
* `Grid.Searched.step` and `Grid.Searched.connected_iff` — one step of a search, and its end.
* `Grid.findsPath_eq` — the breadth-first search and the flood give the same answer.
* `Grid.hasPath_iff_exists_walk` — both searches decide whether there is a walk.
-/

namespace Ladybug

namespace Grid

variable {g g₀ : Grid} {start goal p q : Position} {todo rest : List Position}

/-! ### Walks -/

/-- The positions lie side by side in a row or in a column. -/
def Adjacent (p q : Position) : Prop :=
  (q.column - p.column).natAbs + (q.row - p.row).natAbs = 1

/-- The cells lead from the start to the goal, each of them next to the one before. All of them
lie inside the grid and are empty. -/
structure IsWalk (g : Grid) (start goal : Position) (cells : List Position) : Prop where
  head : cells.head? = some start
  last : cells.getLast? = some goal
  empty : ∀ p ∈ cells, g.inBounds p ∧ g.cell? p = some .empty
  adjacent : cells.IsChain Adjacent

/-- The adjacent positions are those one step away. -/
theorem adjacent_iff : Adjacent p q ↔ ∃ d, q = p.step d := by
  constructor
  · intro h
    rw [Adjacent] at h
    have hcases : (q.column = p.column ∧ q.row = p.row - 1) ∨
        (q.column = p.column + 1 ∧ q.row = p.row) ∨
        (q.column = p.column ∧ q.row = p.row + 1) ∨
        (q.column = p.column - 1 ∧ q.row = p.row) := by omega
    rcases hcases with ⟨hc, hr⟩ | ⟨hc, hr⟩ | ⟨hc, hr⟩ | ⟨hc, hr⟩
    · exact ⟨.up, Position.ext (by simp [Position.step, Direction.delta, hc]) hr⟩
    · exact ⟨.right, Position.ext hc (by simp [Position.step, Direction.delta, hr])⟩
    · exact ⟨.down, Position.ext (by simp [Position.step, Direction.delta, hc]) hr⟩
    · exact ⟨.left, Position.ext hc (by simp [Position.step, Direction.delta, hr])⟩
  · rintro ⟨d, rfl⟩
    rw [Adjacent]
    cases d <;> simp only [Position.step, Direction.delta] <;> omega

/-- The empty cells lie inside the grid. -/
theorem isEmpty_iff : g.isEmpty p ↔ g.inBounds p ∧ g.cell? p = some .empty := by
  rw [isEmpty, beq_iff_eq]
  exact ⟨fun h => ⟨inBounds_of_cell? h, h⟩, And.right⟩

/-- Connected cells are empty. -/
theorem Connected.isEmpty (h : g.Connected p q) : g.isEmpty p ∧ g.isEmpty q := by
  induction h with
  | here hp => exact ⟨hp, hp⟩
  | step d _ hq ih => exact ⟨ih.1, hq⟩

namespace IsWalk

variable {cells : List Position}

/-- A walk may be of a single cell. -/
theorem single (h : g.isEmpty p) : g.IsWalk p p [p] where
  head := rfl
  last := rfl
  empty := List.forall_mem_singleton.mpr (isEmpty_iff.mp h)
  adjacent := .singleton p

/-- A walk may go on to an empty cell next to the last one. -/
theorem concat (h : g.IsWalk start p cells) (hadjacent : Adjacent p q) (hq : g.isEmpty q) :
    g.IsWalk start q (cells ++ [q]) where
  head := by rw [List.head?_append, h.head, Option.some_or]
  last := List.getLast?_concat
  empty := List.forall_mem_append.mpr
    ⟨h.empty, List.forall_mem_singleton.mpr (isEmpty_iff.mp hq)⟩
  adjacent := by
    refine List.isChain_append.mpr ⟨h.adjacent, .singleton q, fun c hc c' hc' => ?_⟩
    obtain rfl : p = c := Option.some.inj (h.last.symm.trans hc)
    obtain rfl : q = c' := Option.some.inj hc'
    exact hadjacent

/-- A walk ends at an empty cell, to which another walk leads unless it is the start. -/
theorem cases_concat {c : Position} (h : g.IsWalk start q (cells ++ [c])) :
    g.isEmpty q ∧ (q = start ∨ ∃ b, g.IsWalk start b cells ∧ Adjacent b q) := by
  obtain ⟨hhead, hlast, hempty, hchain⟩ := h
  obtain rfl : c = q := Option.some.inj (List.getLast?_concat.symm.trans hlast)
  obtain ⟨hbefore, hc⟩ := List.forall_mem_append.mp hempty
  refine ⟨isEmpty_iff.mpr (hc c (List.mem_singleton_self c)), ?_⟩
  cases hb : cells.getLast? with
  | none =>
      obtain rfl := List.getLast?_eq_none_iff.mp hb
      exact .inl (Option.some.inj hhead)
  | some b =>
      obtain ⟨hcells, -, hseam⟩ := List.isChain_append.mp hchain
      have hne := List.ne_nil_of_mem (List.mem_of_getLast? hb)
      rw [List.head?_append_of_ne_nil cells hne] at hhead
      exact .inr ⟨b, ⟨hhead, hb, hbefore, hcells⟩, hseam b hb c rfl⟩

end IsWalk

/-- Connected cells are those with a walk between them. -/
theorem connected_iff_exists_walk : g.Connected p q ↔ ∃ cells, g.IsWalk p q cells := by
  constructor
  · intro h
    induction h with
    | here hp => exact ⟨_, .single hp⟩
    | step d _ hq ih =>
        obtain ⟨cells, hwalk⟩ := ih
        exact ⟨_, hwalk.concat (adjacent_iff.mpr ⟨d, rfl⟩) hq⟩
  · rintro ⟨cells, hwalk⟩
    induction cells using List.reverseRecOn generalizing q with
    | nil => cases hwalk.head
    | append_singleton cells c ih =>
        obtain ⟨hq, rfl | ⟨b, hbefore, hadjacent⟩⟩ := hwalk.cases_concat
        · exact .here hq
        · obtain ⟨d, rfl⟩ := adjacent_iff.mp hadjacent
          exact .step d (ih hbefore) hq

/-! ### What is covered -/

/-- The empty cells around a position, to which a search goes on from there. -/
def fresh (g : Grid) (p : Position) : List Position := (g.neighbors p).filter g.isEmpty

theorem mem_neighbors_iff : q ∈ g.neighbors p ↔ (∃ d, q = p.step d) ∧ g.inBounds q := by
  have hall : ∀ d : Direction, d ∈ Direction.all := by intro d; cases d <;> decide
  rw [neighbors, List.mem_filter, List.mem_map]
  constructor
  · rintro ⟨⟨d, -, rfl⟩, hq⟩
    exact ⟨⟨d, rfl⟩, hq⟩
  · rintro ⟨⟨d, rfl⟩, hq⟩
    exact ⟨⟨d, hall d, rfl⟩, hq⟩

theorem mem_fresh_iff : q ∈ g.fresh p ↔ (∃ d, q = p.step d) ∧ g.isEmpty q := by
  rw [fresh, List.mem_filter, mem_neighbors_iff]
  constructor
  · rintro ⟨⟨hstep, -⟩, hq⟩
    exact ⟨hstep, hq⟩
  · rintro ⟨hstep, hq⟩
    exact ⟨⟨hstep, (isEmpty_iff.mp hq).1⟩, hq⟩

/-- The cells around a position are different ones. -/
theorem nodup_fresh (g : Grid) (p : Position) : (g.fresh p).Nodup := by
  have hinj : Function.Injective p.step := by
    intro d e h
    obtain ⟨hcolumn, hrow⟩ := Position.mk.inj h
    have hdelta : d.delta = e.delta := Prod.ext (Int.add_left_cancel hcolumn)
      (Int.add_left_cancel hrow)
    cases d <;> cases e <;> first | rfl | cases hdelta
  have hsteps : (Direction.all.map p.step).Nodup := List.Nodup.map hinj (by decide)
  exact (hsteps.filter _).filter _

/-- What is covered is no longer counted as empty. -/
theorem amount_cover {ps : List Position} (hnodup : ps.Nodup) (hempty : ∀ p ∈ ps, g.isEmpty p) :
    (g.cover ps).amount .empty + ps.length = g.amount .empty := by
  induction ps generalizing g with
  | nil => rfl
  | cons p ps ih =>
      obtain ⟨hp, hnodup⟩ := List.nodup_cons.mp hnodup
      obtain ⟨hfirst, hempty⟩ := List.forall_mem_cons.mp hempty
      have hrest := ih (g := g.set p .tree) hnodup fun q hq =>
        isEmpty_set_tree_iff.mpr ⟨hempty q hq, ne_of_mem_of_not_mem hq hp⟩
      have hset := amount_set (isEmpty_iff.mp hfirst).2 .tree .empty
      rw [if_pos rfl, if_neg (by decide)] at hset
      rw [cover, List.foldl_cons, ← cover, List.length_cons]
      omega

/-- A position that is taken is all that the empty cells and the list lose. -/
theorem amount_fresh (g : Grid) (p : Position) :
    (g.cover (g.fresh p)).amount .empty + (g.fresh p).length = g.amount .empty :=
  amount_cover (nodup_fresh g p) fun _ hq => (mem_fresh_iff.mp hq).2

/-! ### The breadth-first search -/

/-- Takes positions from the front of a queue. If the goal is next to one of them, the search is
over. Otherwise the empty cells around it are covered and go to the end of the queue. -/
def search (goal : Position) (g : Grid) (queue : List Position) : Bool :=
  match queue with
  | [] => false
  | p :: queue =>
    if (g.neighbors p).contains goal then true
    else search goal (g.cover (g.fresh p)) (queue ++ g.fresh p)
termination_by g.amount .empty + queue.length
decreasing_by
  have hfresh := g.amount_fresh p
  rw [List.length_append, List.length_cons]
  omega

/-- Both ends are empty cells, and they are the same one or a search from the first comes to the
second. -/
def findsPath (g : Grid) (start goal : Position) : Bool :=
  g.isEmpty start && g.isEmpty goal &&
    (start == goal || search goal (g.set start .tree) [start])

/-! ### What a search knows -/

/-- What a search from the start knows: the grid before it, the grid in which the cells it has
come to are covered, and the positions whose neighbors it has still to look at. -/
structure Searched (g₀ : Grid) (start : Position) (g : Grid) (todo : List Position) : Prop where
  inBounds : ∀ p, g.inBounds p = g₀.inBounds p
  /-- Cells are covered, never emptied. -/
  remains : ∀ p, g.isEmpty p → g₀.isEmpty p
  started : g₀.isEmpty start ∧ ¬ g.isEmpty start
  /-- What has been covered is connected with the start. -/
  connected : ∀ p, g₀.isEmpty p → ¬ g.isEmpty p → g₀.Connected start p
  listed : ∀ p ∈ todo, g₀.isEmpty p ∧ ¬ g.isEmpty p
  /-- Nothing empty is left around a covered cell that is done with. -/
  closed : ∀ p d, g₀.isEmpty p → ¬ g.isEmpty p → p ∉ todo → ¬ g.isEmpty (p.step d)

namespace Searched

/-- Before the first step, the start is covered and still to be taken. -/
theorem of_start (h : g.isEmpty start) : Searched g start (g.set start .tree) [start] := by
  have hcovered {p : Position} (hp : g.isEmpty p) (hp' : ¬ (g.set start .tree).isEmpty p) :
      p = start := by
    by_contra hne
    exact hp' (isEmpty_set_tree_iff.mpr ⟨hp, hne⟩)
  have hstart : ¬ (g.set start .tree).isEmpty start := fun h' => (isEmpty_set_tree_iff.mp h').2 rfl
  exact
    { inBounds := fun p => g.inBounds_set start p .tree
      remains := fun p hp => (isEmpty_set_tree_iff.mp hp).1
      started := ⟨h, hstart⟩
      connected := fun p hp hp' => by
        obtain rfl := hcovered hp hp'
        exact .here h
      listed := fun p hp => by
        obtain rfl := List.mem_singleton.mp hp
        exact ⟨h, hstart⟩
      closed := fun p d hp hp' htodo =>
        absurd (List.mem_singleton.mpr (hcovered hp hp')) htodo }

/-- **One step of a search**: a position is taken from the list, and the empty cells around it
are covered and come to the list, no matter where. -/
theorem step (h : Searched g₀ start g (p :: rest))
    (htodo : ∀ q, q ∈ todo ↔ q ∈ rest ∨ q ∈ g.fresh p) :
    Searched g₀ start (g.cover (g.fresh p)) todo := by
  obtain ⟨hp, hp'⟩ := h.listed p List.mem_cons_self
  have hfresh {q : Position} (hq : q ∈ g.fresh p) :
      g₀.isEmpty q ∧ g₀.Connected start q := by
    obtain ⟨⟨d, rfl⟩, hq⟩ := mem_fresh_iff.mp hq
    have hq₀ := h.remains _ hq
    exact ⟨hq₀, .step d (h.connected p hp hp') hq₀⟩
  -- A cell that is covered now was covered before, or it is one around the position.
  have hcases {q : Position} (hq : ¬ (g.cover (g.fresh p)).isEmpty q) :
      ¬ g.isEmpty q ∨ q ∈ g.fresh p := by
    rwa [isEmpty_cover_iff, not_and_or, not_not] at hq
  have hstays {q : Position} (hq : ¬ g.isEmpty q) : ¬ (g.cover (g.fresh p)).isEmpty q :=
    fun hq' => hq (isEmpty_cover_iff.mp hq').1
  exact
    { inBounds := fun q => (inBounds_cover ..).trans (h.inBounds q)
      remains := fun q hq => h.remains q (isEmpty_cover_iff.mp hq).1
      started := ⟨h.started.1, hstays h.started.2⟩
      connected := fun q hq hq' =>
        (hcases hq').elim (h.connected q hq) fun hmem => (hfresh hmem).2
      listed := fun q hq => by
        rcases (htodo q).mp hq with hq | hq
        · obtain ⟨hq₀, hq'⟩ := h.listed q (List.mem_cons_of_mem p hq)
          exact ⟨hq₀, hstays hq'⟩
        · exact ⟨(hfresh hq).1, fun hq' => (isEmpty_cover_iff.mp hq').2 hq⟩
      closed := fun q d hq hq' hdone hnext => by
        obtain ⟨hempty, hmem⟩ := isEmpty_cover_iff.mp hnext
        rcases hcases hq' with hold | hnew
        · by_cases hqp : q = p
          · subst hqp
            exact hmem (mem_fresh_iff.mpr ⟨⟨d, rfl⟩, hempty⟩)
          · refine h.closed q d hq hold (fun htaken => ?_) hempty
            rcases List.mem_cons.mp htaken with hqp' | hrest
            · exact hqp hqp'
            · exact hdone ((htodo q).mpr (.inl hrest))
        · exact hdone ((htodo q).mpr (.inr hnew)) }

/-- **The end of a search**: once nothing is left to be taken, the covered cells are those that
are connected with the start. -/
theorem connected_iff (h : Searched g₀ start g []) :
    g₀.Connected start q ↔ g₀.isEmpty q ∧ ¬ g.isEmpty q := by
  constructor
  · intro hconnected
    induction hconnected with
    | here => exact h.started
    | step d _ hq ih => exact ⟨hq, h.closed _ d ih.1 ih.2 List.not_mem_nil⟩
  · exact fun ⟨hq, hq'⟩ => h.connected q hq hq'

/-- A flood with enough fuel uses up its stack. -/
theorem spread {fuel : Nat} (h : Searched g₀ start g todo)
    (hfuel : g.amount .empty + todo.length ≤ fuel) :
    Searched g₀ start (Grid.spread fuel g todo) [] := by
  induction fuel generalizing g todo with
  | zero =>
      obtain rfl := List.length_eq_zero_iff.mp (Nat.le_zero.mp (Nat.le_of_add_left_le hfuel))
      exact h
  | succ fuel ih =>
      cases todo with
      | nil => exact h
      | cons p rest =>
          have hfresh := g.amount_fresh p
          refine ih (h.step fun q => ?_) ?_
          · rw [List.mem_append]
            exact or_comm
          · change (g.cover (g.fresh p)).amount .empty + (g.fresh p ++ rest).length ≤ fuel
            rw [List.length_append]
            rw [List.length_cons] at hfuel
            omega

/-- A breadth-first search finds a goal that it has not come to if and only if that is connected
with the start. -/
theorem search_iff (h : Searched g₀ start g todo) (hgoal : g.isEmpty goal) :
    search goal g todo = true ↔ g₀.Connected start goal := by
  induction g, todo using search.induct goal with
  | case1 g =>
      rw [search, h.connected_iff]
      exact ⟨nofun, fun hreached => absurd hgoal hreached.2⟩
  | case2 g p rest hnext =>
      obtain ⟨⟨d, rfl⟩, -⟩ := mem_neighbors_iff.mp (List.contains_iff_mem.mp hnext)
      obtain ⟨hp, hp'⟩ := h.listed p List.mem_cons_self
      rw [search, if_pos hnext]
      exact iff_of_true rfl (.step d (h.connected p hp hp') (h.remains _ hgoal))
  | case3 g p rest hfar ih =>
      rw [search, if_neg hfar]
      refine ih (h.step fun q => List.mem_append) (isEmpty_cover_iff.mpr ⟨hgoal, fun hmem => ?_⟩)
      exact hfar (List.contains_iff_mem.mpr (List.mem_of_mem_filter hmem))

end Searched

/-! ### Paths -/

/-- When a search starts, the empty cells and the list are no more than the cells of the grid. -/
theorem amount_start_le (h : g.isEmpty start) :
    (g.set start .tree).amount .empty + 1 ≤ g.cells.size := by
  have hcovered := amount_set (isEmpty_iff.mp h).2 .tree .empty
  have hle : g.amount .empty ≤ g.cells.size := Array.count_le_size
  rw [if_pos rfl, if_neg (by decide)] at hcovered
  omega

/-- A flood decides whether two cells are connected. -/
theorem hasPath_iff_connected : g.hasPath start goal = true ↔ g.Connected start goal := by
  rw [hasPath, Bool.and_eq_true, Bool.and_eq_true, Bool.not_eq_true', ← Bool.not_eq_true]
  by_cases hstart : g.isEmpty start
  · have hflood : Searched g start (g.flood start) [] :=
      (Searched.of_start hstart).spread (amount_start_le hstart)
    rw [hflood.connected_iff]
    simp [hstart]
  · exact ⟨fun h => absurd h.1.1 hstart, fun h => absurd h.isEmpty.1 hstart⟩

/-- So does a breadth-first search. -/
theorem findsPath_iff_connected : g.findsPath start goal = true ↔ g.Connected start goal := by
  rw [findsPath, Bool.and_eq_true, Bool.and_eq_true, Bool.or_eq_true, beq_iff_eq]
  constructor
  · rintro ⟨⟨hstart, hgoal⟩, hsame | hfound⟩
    · subst hsame
      exact .here hstart
    · by_cases hsame : goal = start
      · subst hsame
        exact .here hgoal
      · exact ((Searched.of_start hstart).search_iff
          (isEmpty_set_tree_iff.mpr ⟨hgoal, hsame⟩)).mp hfound
  · intro h
    obtain ⟨hstart, hgoal⟩ := h.isEmpty
    refine ⟨⟨hstart, hgoal⟩, ?_⟩
    by_cases hsame : start = goal
    · exact .inl hsame
    · exact .inr (((Searched.of_start hstart).search_iff
        (isEmpty_set_tree_iff.mpr ⟨hgoal, Ne.symm hsame⟩)).mpr h)

/-- Both searches give the same answer. -/
theorem findsPath_eq (g : Grid) (start goal : Position) :
    g.findsPath start goal = g.hasPath start goal := by
  rw [Bool.eq_iff_iff, findsPath_iff_connected, hasPath_iff_connected]

/-- **There is a path between two positions if and only if both lie inside the grid, are empty,
and a walk over empty cells leads from one to the other.** The flood and the breadth-first search
agree about that. Positions are pairs of integers of any size here. With 32 bits the steps of a
search overflow only in a column or row `0x7fffffff`, and a grid of at most so many columns and rows
has neither. -/
theorem hasPath_iff_exists_walk (g : Grid) (start goal : Position) :
    (g.hasPath start goal = true ↔
      (g.inBounds start ∧ g.cell? start = some .empty) ∧
      (g.inBounds goal ∧ g.cell? goal = some .empty) ∧
      ∃ cells, g.IsWalk start goal cells) ∧
    g.findsPath start goal = g.hasPath start goal := by
  constructor
  · rw [hasPath_iff_connected, ← isEmpty_iff, ← isEmpty_iff, ← connected_iff_exists_walk]
    exact ⟨fun h => ⟨h.isEmpty.1, h.isEmpty.2, h⟩, fun h => h.2.2⟩
  · exact g.findsPath_eq start goal

end Grid

end Ladybug
