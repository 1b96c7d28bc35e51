/-!
# Ladybug numbers

Users name a ladybug by its number, counted from one in the reading order of the board.
Rows of tables are counted from zero, so the two never coincide; `AgentId.index` and
`AgentId.ofIndex` convert between them.
-/

namespace Ladybug

/-- The number of a ladybug. The number `0` names nobody. -/
structure AgentId where
  number : Nat
deriving DecidableEq, Inhabited

namespace AgentId

/-- The first ladybug of a board. -/
def first : AgentId := ⟨1⟩

/-- The table row of this ladybug. Only numbers from `1` on have one. -/
def index (a : AgentId) : Nat := a.number - 1

/-- The ladybug of a table row. The program has 32 bits for the number, which is enough for
`0xffffffff` ladybugs; `Checked.ofIndex` refuses all later rows. -/
def ofIndex (row : Nat) : AgentId := ⟨row + 1⟩

@[simp] theorem index_ofIndex (row : Nat) : (ofIndex row).index = row := rfl

theorem ofIndex_index {a : AgentId} (h : 0 < a.number) : ofIndex a.index = a := by
  cases a with
  | mk n => simp only [index, ofIndex] at *; congr; omega

/-- The number in decimal notation. -/
def text (a : AgentId) : String := toString a.number

end AgentId

end Ladybug
