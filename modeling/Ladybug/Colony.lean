import Ladybug.Agent
import Ladybug.Board

/-!
# The colony

All ladybugs of a board are kept together, one row of three parallel arrays each: where
the ladybug is, which way it faces, and whether it is active, that is, has a behavior tree
to follow. The behavior trees themselves are kept elsewhere.

Questions about a single ladybug expect that it belongs to the colony. For a stranger they
answer with the origin, upwards and inactive, and changes to a stranger change nothing.

## Main definitions

* `Colony` — the table; `Colony.ofSpawns` fills it from a board.
* `Colony.position`, `Colony.direction`, `Colony.isActive` — one ladybug's row.
* `Colony.agentAt?`, `Colony.occupiedByOther` — who stands where.
* `Colony.front` — the cell ahead of a ladybug.

## Main results

* `Colony.position_setPosition` and its companions — a change to one ladybug leaves the
  other ladybugs as they were.
-/

namespace Ladybug

/-- The table of all ladybugs. -/
structure Colony where
  count : Nat
  positions : Array Position
  directions : Array Direction
  active : Array Bool
deriving DecidableEq, Inhabited

namespace Colony

/-- The colony of a board, with every ladybug inactive. -/
def ofSpawns (spawns : List Spawn) : Colony where
  count := spawns.length
  positions := (spawns.map Spawn.position).toArray
  directions := (spawns.map Spawn.direction).toArray
  active := Array.replicate spawns.length false

/-- There are no ladybugs. -/
def isEmpty (c : Colony) : Bool := c.count == 0

/-- The numbers of all ladybugs, ascending. -/
def ids (c : Colony) : List AgentId := (List.range c.count).map AgentId.ofIndex

/-- The ladybug belongs to the colony. -/
def contains (c : Colony) (a : AgentId) : Bool := 1 ≤ a.number && a.index < c.count

/-! ### One ladybug -/

/-- The cell a ladybug stands on. -/
def position (c : Colony) (a : AgentId) : Position := c.positions[a.index]?.getD default

/-- The facing of a ladybug. -/
def direction (c : Colony) (a : AgentId) : Direction := c.directions[a.index]?.getD default

/-- The ladybug has a behavior tree to follow. -/
def isActive (c : Colony) (a : AgentId) : Bool := c.active[a.index]?.getD false

/-- The position ahead of a ladybug, perhaps outside the grid. -/
def front (c : Colony) (a : AgentId) : Position := (c.position a).step (c.direction a)

/-- Puts a ladybug on a cell. -/
def setPosition (c : Colony) (a : AgentId) (p : Position) : Colony :=
  { c with positions := c.positions.setIfInBounds a.index p }

/-- Turns a ladybug. -/
def setDirection (c : Colony) (a : AgentId) (d : Direction) : Colony :=
  { c with directions := c.directions.setIfInBounds a.index d }

/-- Makes a ladybug active or inactive. -/
def setActive (c : Colony) (a : AgentId) (active : Bool) : Colony :=
  { c with active := c.active.setIfInBounds a.index active }

/-! ### All ladybugs -/

/-- Makes every ladybug inactive. -/
def deactivateAll (c : Colony) : Colony := { c with active := c.active.map fun _ => false }

/-- The numbers of the active ladybugs, ascending. -/
def activeIds (c : Colony) : List AgentId := c.ids.filter c.isActive

/-- The ladybug on a cell; of several, the one with the smallest number. -/
def agentAt? (c : Colony) (p : Position) : Option AgentId :=
  (c.positions.toList.findIdx? (· == p)).map AgentId.ofIndex

/-- A ladybug other than the given one stands on the cell. -/
def occupiedByOther (c : Colony) (a : AgentId) (p : Position) : Bool :=
  c.positions.toList.zipIdx.any fun (q, row) => q == p && row != a.index

/-! ### What changes do -/

/-- A ladybug is where it was put, and the others stay. -/
theorem position_setPosition {c : Colony} {a : AgentId} (h : a.index < c.positions.size)
    (p : Position) (b : AgentId) :
    (c.setPosition a p).position b = if b.index = a.index then p else c.position b := by
  unfold position setPosition
  rw [Array.getElem?_setIfInBounds]
  by_cases hab : a.index = b.index
  · simp [← hab, h]
  · have hba : ¬ b.index = a.index := fun he => hab he.symm
    simp [hab, hba]

/-- A ladybug faces where it was turned to, and the others keep their facing. -/
theorem direction_setDirection {c : Colony} {a : AgentId} (h : a.index < c.directions.size)
    (d : Direction) (b : AgentId) :
    (c.setDirection a d).direction b = if b.index = a.index then d else c.direction b := by
  unfold direction setDirection
  rw [Array.getElem?_setIfInBounds]
  by_cases hab : a.index = b.index
  · simp [← hab, h]
  · have hba : ¬ b.index = a.index := fun he => hab he.symm
    simp [hab, hba]

/-- A ladybug is active if it was made so, and the others stay as they were. -/
theorem isActive_setActive {c : Colony} {a : AgentId} (h : a.index < c.active.size)
    (active : Bool) (b : AgentId) :
    (c.setActive a active).isActive b = if b.index = a.index then active else c.isActive b := by
  unfold isActive setActive
  rw [Array.getElem?_setIfInBounds]
  by_cases hab : a.index = b.index
  · simp [← hab, h]
  · have hba : ¬ b.index = a.index := fun he => hab he.symm
    simp [hab, hba]

@[simp] theorem position_setDirection (c : Colony) (a b : AgentId) (d : Direction) :
    (c.setDirection a d).position b = c.position b := rfl

@[simp] theorem direction_setPosition (c : Colony) (a b : AgentId) (p : Position) :
    (c.setPosition a p).direction b = c.direction b := rfl

@[simp] theorem isActive_setPosition (c : Colony) (a b : AgentId) (p : Position) :
    (c.setPosition a p).isActive b = c.isActive b := rfl

@[simp] theorem isActive_setDirection (c : Colony) (a b : AgentId) (d : Direction) :
    (c.setDirection a d).isActive b = c.isActive b := rfl

/-- The numbers listed are those of the ladybugs that belong to the colony. -/
theorem mem_ids {c : Colony} {a : AgentId} : a ∈ c.ids ↔ c.contains a := by
  constructor
  · intro h
    obtain ⟨row, hrow, rfl⟩ := List.mem_map.mp h
    simp only [contains, Bool.and_eq_true, decide_eq_true_eq]
    exact ⟨Nat.le_add_left 1 row, List.mem_range.mp hrow⟩
  · intro h
    simp only [contains, Bool.and_eq_true, decide_eq_true_eq] at h
    exact List.mem_map.mpr ⟨a.index, List.mem_range.mpr h.2, AgentId.ofIndex_index h.1⟩

/-- The active numbers are those of the active ladybugs. -/
theorem mem_activeIds {c : Colony} {a : AgentId} :
    a ∈ c.activeIds ↔ c.contains a ∧ c.isActive a := by
  simp [activeIds, mem_ids]

end Colony

end Ladybug
