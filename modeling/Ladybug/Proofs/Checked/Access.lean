import Ladybug.Console.Command
import Ladybug.Flowchart.Coordinates

/-!
# Checked accesses

On a machine the game reads arrays at rows that it has not compared with their length, it turns the
number of a ladybug into a row without asking whether the number names one, and it computes with
integers of 32 bits. The definitions of the game are total: a row that is not there has a default,
and sums and differences are as large as they need to be. So they are silent on whether an access is
valid.

Here every such access is a computation that may fault. In the modules that build on this one
each operation of the game is written once more with checked accesses, one for each access, in the
order in which they are made. That such an operation does not fault, and returns what the unchecked
one returns, is what is meant by its accesses being valid.

## Main definitions

* `Fault` — what can be wrong with an access.
* `Checked` — computations all of whose accesses are checked.
* `Checked.int32`, `Checked.minus`, `Checked.entry`, `Checked.setEntry`, `Checked.index`,
  `Checked.ofIndex` — the accesses.
* `Checked.keep` — a filter whose test is checked.
* `Checked.Agrees` — a checked computation that may be refused does not fault, and its result is
  that of an unchecked one.
-/

namespace Ladybug

open Flowchart

/-- What is wrong with an access. -/
inductive Fault where
  /-- The position has no cell. -/
  | noCell (p : Position)
  /-- The array has no such row. -/
  | noRow (row : Nat)
  /-- The number `0` has no row. -/
  | nobody
  /-- A natural number would become negative. -/
  | negative (m n : Nat)
  /-- The integer has too many bits. -/
  | overflow (x : Int)
deriving DecidableEq

/-- A computation all of whose accesses are checked: it stops at the first invalid one. -/
abbrev Checked (α : Type) := Except Fault α

namespace Checked

section Accesses

variable {α : Type}

/-! ### Numbers -/

/-- The integer has at most 32 bits. -/
def Fits (x : Int) : Prop := -maxCoordinate - 1 ≤ x ∧ x ≤ maxCoordinate

instance (x : Int) : Decidable (Fits x) := inferInstanceAs (Decidable (_ ∧ _))

/-- The result of an operation on integers of 32 bits. -/
def int32 (x : Int) : Checked Int := if Fits x then .ok x else .error (.overflow x)

/-- The difference of two natural numbers. -/
def minus (m n : Nat) : Checked Nat := if n ≤ m then .ok (m - n) else .error (.negative m n)

theorem int32_eq {x : Int} (h : Fits x) : int32 x = .ok x := if_pos h

theorem minus_eq {m n : Nat} (h : n ≤ m) : minus m n = .ok (m - n) := if_pos h

/-! ### Arrays -/

/-- The entry in a row of an array. -/
def entry (xs : Array α) (row : Nat) : Checked α :=
  match xs[row]? with
  | some x => .ok x
  | none => .error (.noRow row)

/-- The array with the entry in a row replaced. -/
def setEntry (xs : Array α) (row : Nat) (x : α) : Checked (Array α) :=
  if row < xs.size then .ok (xs.setIfInBounds row x) else .error (.noRow row)

/-- The default for a row that is not there does not matter. -/
theorem entry_eq {xs : Array α} {row : Nat} (h : row < xs.size) (default : α) :
    entry xs row = .ok (xs[row]?.getD default) := by
  rw [entry, Array.getElem?_eq_getElem h]
  rfl

theorem setEntry_eq {xs : Array α} {row : Nat} (h : row < xs.size) (x : α) :
    setEntry xs row x = .ok (xs.setIfInBounds row x) := if_pos h

/-! ### Numbers of ladybugs -/

/-- The table row of a ladybug. -/
def index (a : AgentId) : Checked Nat := if a.number = 0 then .error .nobody else .ok a.index

/-- The ladybug of a table row. -/
def ofIndex (row : Nat) : Checked AgentId :=
  if row < maxLadybug then .ok (.ofIndex row) else .error (.overflow (row + 1))

theorem index_eq {a : AgentId} (h : 1 ≤ a.number) : index a = .ok a.index :=
  if_neg (Nat.one_le_iff_ne_zero.mp h)

example : index ⟨0⟩ = .error .nobody := rfl

theorem ofIndex_eq {row : Nat} (h : row < maxLadybug) : ofIndex row = .ok (.ofIndex row) := if_pos h

end Accesses

/-! ### One access after another -/

section Lists

variable {α β : Type} {xs : List α}

@[simp] theorem ok_bind (x : α) (rest : α → Checked β) : (Except.ok x : Checked α) >>= rest = rest x :=
  rfl

theorem mapM_eq {f : α → Checked β} {g : α → β} (h : ∀ x ∈ xs, f x = .ok (g x)) :
    xs.mapM f = .ok (xs.map g) := by
  induction xs with
  | nil => rfl
  | cons x xs ih =>
      rw [List.mapM_cons, h x List.mem_cons_self, ok_bind,
        ih fun y hy => h y (List.mem_cons_of_mem _ hy)]
      rfl

/-- The first access that is invalid ends the computation. -/
theorem mapM_error {f : α → Checked β} {before after : List α} {x : α} {fault : Fault}
    (hbefore : ∀ y ∈ before, ∃ value, f y = .ok value) (hx : f x = .error fault) :
    (before ++ x :: after).mapM f = .error fault := by
  induction before with
  | nil =>
      rw [List.nil_append, List.mapM_cons, hx]
      rfl
  | cons y before ih =>
      obtain ⟨⟨value, hvalue⟩, hrest⟩ := List.forall_mem_cons.mp hbefore
      rw [List.cons_append, List.mapM_cons, hvalue, ok_bind, ih hrest]
      rfl

/-- So does the first one for the numbers below a bound. -/
theorem mapM_range_error {f : Nat → Checked β} {n i : Nat} {fault : Fault} (hi : i < n)
    (hbefore : ∀ j < i, ∃ value, f j = .ok value) (hfault : f i = .error fault) :
    (List.range n).mapM f = .error fault := by
  obtain ⟨rest, rfl⟩ := Nat.exists_eq_add_of_lt hi
  rw [Nat.add_assoc, List.range_add, List.range_succ_eq_map, List.map_cons, Nat.add_zero]
  exact mapM_error (fun j hj => hbefore j (List.mem_range.mp hj)) hfault

/-- The members of a list that pass a test. -/
def keep (test : α → Checked Bool) : List α → Checked (List α)
  | [] => .ok []
  | x :: xs => do
    let passes ← test x
    let rest ← keep test xs
    return if passes then x :: rest else rest

theorem keep_eq {test : α → Checked Bool} {p : α → Bool} (h : ∀ x ∈ xs, test x = .ok (p x)) :
    keep test xs = .ok (xs.filter p) := by
  induction xs with
  | nil => rfl
  | cons x xs ih =>
      rw [keep, h x List.mem_cons_self, ok_bind, ih fun y hy => h y (List.mem_cons_of_mem _ hy),
        ok_bind, List.filter_cons]
      rfl

theorem anyM_eq {f : α → Checked Bool} {p : α → Bool} (h : ∀ x ∈ xs, f x = .ok (p x)) :
    xs.anyM f = .ok (xs.any p) := by
  induction xs with
  | nil => rfl
  | cons x xs ih =>
      rw [List.anyM_cons, h x List.mem_cons_self, ok_bind, List.any_cons]
      cases p x with
      | true => rfl
      | false => exact ih fun y hy => h y (List.mem_cons_of_mem _ hy)

/-- The steps of a fold are checked one after another, each where the last one has led to. -/
theorem foldlM_eq {f : β → α → Checked β} {g : β → α → β} {P : β → Prop} {start : β}
    (hstart : P start) (h : ∀ b, P b → ∀ x ∈ xs, f b x = .ok (g b x) ∧ P (g b x)) :
    xs.foldlM f start = .ok (xs.foldl g start) := by
  induction xs generalizing start with
  | nil => rfl
  | cons x xs ih =>
      obtain ⟨hx, hnext⟩ := h start hstart x List.mem_cons_self
      rw [List.foldlM_cons, hx, ok_bind, List.foldl_cons]
      exact ih hnext fun b hb y hy => h b hb y (List.mem_cons_of_mem _ hy)

end Lists

/-! ### Computations that may be refused -/

/-- A value or a refusal that takes no further access. -/
def outcome {ε α : Type} (result : Except ε α) : ExceptT ε Checked α := ExceptT.mk (.ok result)

/-- The checked computation does not fault, and it is refused or returns a value as the unchecked
one. -/
def Agrees {ε α : Type} (checked : ExceptT ε Checked α) (plain : Except ε α) : Prop :=
  checked.run = .ok plain

namespace Agrees

variable {ε ε' α β : Type} {checked : ExceptT ε Checked β} {plain : Except ε β}

theorem outcome (result : Except ε α) : Agrees (outcome result) result := rfl

theorem pure (x : α) : Agrees (pure x : ExceptT ε Checked α) (.ok x) := rfl

theorem throw (error : ε) : Agrees (throw error : ExceptT ε Checked α) (.error error) := rfl

/-- Both may decide in the same way. -/
theorem ite {c : Prop} [Decidable c] {first second : ExceptT ε Checked α}
    {first' second' : Except ε α} (hfirst : c → Agrees first first')
    (hsecond : ¬ c → Agrees second second') :
    Agrees (if c then first else second) (if c then first' else second') := by
  split
  · next h => exact hfirst h
  · next h => exact hsecond h

/-- What follows needs to agree only on the value that is returned. -/
theorem bind {rest : β → ExceptT ε Checked α} {rest' : β → Except ε α} (h : Agrees checked plain)
    (hrest : ∀ x, plain = .ok x → Agrees (rest x) (rest' x)) :
    Agrees (checked >>= rest) (plain >>= rest') := by
  rw [Agrees] at h ⊢
  rw [ExceptT.run_bind, h, ok_bind]
  cases plain with
  | error error => rfl
  | ok x => exact hrest x rfl

/-- An access that is valid is passed. -/
theorem access {checked : Checked β} {x : β} {rest : β → ExceptT ε Checked α} {plain : Except ε α}
    (h : checked = .ok x) (hrest : Agrees (rest x) plain) :
    Agrees ((liftM checked : ExceptT ε Checked β) >>= rest) plain := by
  subst h
  exact hrest

/-- So may a computation end. -/
theorem lift {checked : Checked α} {x : α} (h : checked = .ok x) :
    Agrees (liftM checked : ExceptT ε Checked α) (.ok x) := by
  subst h
  rfl

/-- A value may be made into another one. -/
theorem map {f : β → α} (h : Agrees checked plain) :
    Agrees (do return f (← checked)) (plain.map f) := by
  rw [Agrees] at h ⊢
  rw [ExceptT.run_bind, h]
  cases plain <;> rfl

/-- What is refused may be refused for another reason. -/
theorem wrap {f : ε → ε'} {rest : β → ExceptT ε' Checked α} {whole : Except ε' α}
    (h : Agrees checked plain) (herror : ∀ error, plain = .error error → whole = .error (f error))
    (hok : ∀ x, plain = .ok x → Agrees (rest x) whole) :
    Agrees (ExceptT.adapt f checked >>= rest) whole := by
  have hadapt : (ExceptT.adapt f checked).run = .ok (plain.mapError f) := by
    change Except.map (Except.mapError f) checked.run = _
    rw [show checked.run = .ok plain from h]
    rfl
  rw [Agrees, ExceptT.run_bind, hadapt, ok_bind]
  cases hplain : plain with
  | error error => rw [herror error hplain]; rfl
  | ok x => exact hok x hplain

/-- Errors may be passed on as other errors. -/
theorem mapError {f : ε → ε'} (h : Agrees checked plain) :
    Agrees (ExceptT.adapt f checked) (plain.mapError f) := by
  rw [Agrees] at h ⊢
  change Except.map (Except.mapError f) checked.run = _
  rw [h]
  rfl

end Agrees

end Checked

end Ladybug
