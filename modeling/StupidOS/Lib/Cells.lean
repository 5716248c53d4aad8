import Mathlib.Tactic.Common

/-!
# Blocks of cells from `realloc`

A block is the list of its cells; a cell that has not been written since the block was
allocated is `none`. `Holds l` says that the block begins with the elements of `l`.
-/

namespace StupidOS

/-- An allocated block. -/
abbrev Cells (α : Type) := List (Option α)

namespace Cells

variable {α : Type}

/-- `realloc` to `n` cells, which succeeds: the old cells are kept, as far as they fit. -/
def realloc (cells : Cells α) (n : Nat) : Cells α :=
  cells.take n ++ List.replicate (n - cells.length) none

/-- What is read at index `i`: nothing outside the block, or from a cell not written yet. -/
def read (cells : Cells α) (i : Nat) : Option α := cells[i]?.join

/-- The store at index `i`, if that is in the block. -/
def store (cells : Cells α) (i : Nat) (x : α) : Option (Cells α) :=
  if i < cells.length then some (cells.set i (some x)) else none

/-- Stores at index `i` and the following ones. -/
def storeAll (cells : Cells α) (i : Nat) : List α → Option (Cells α)
  | [] => some cells
  | x :: l => (cells.store i x).bind fun cells => cells.storeAll (i + 1) l

/-- The block begins with the elements of `l`. -/
def Holds (cells : Cells α) (l : List α) : Prop :=
  ∀ i x, l[i]? = some x → cells.read i = some x

@[simp] theorem length_realloc (cells : Cells α) (n : Nat) : (cells.realloc n).length = n := by
  rw [realloc, List.length_append, List.length_take, List.length_replicate]
  omega

theorem read_realloc {cells : Cells α} {n i : Nat} (hi : i < n) :
    (cells.realloc n).read i = cells.read i := by
  rw [read, read, realloc]
  by_cases hold : i < cells.length
  · rw [List.getElem?_append_left (by rw [List.length_take]; omega), List.getElem?_take_of_lt hi]
  · have hnone : cells[i]? = none := List.getElem?_eq_none (by omega)
    have hlen : (cells.take n).length ≤ i := by
      rw [List.length_take]
      omega
    rw [List.getElem?_append_right hlen, List.getElem?_replicate, hnone]
    split <;> rfl

theorem read_set {cells : Cells α} {i j : Nat} {x : α} (hi : i < cells.length) :
    Cells.read (cells.set i (some x)) j = if j = i then some x else cells.read j := by
  rw [read, read, List.getElem?_set]
  by_cases hj : j = i
  · rw [if_pos hj.symm, if_pos hj, if_pos hi]
    rfl
  · rw [if_neg (Ne.symm hj), if_neg hj]

theorem holds_nil (cells : Cells α) : cells.Holds [] := by
  intro i x h
  exact absurd h (by simp)

theorem Holds.realloc {cells : Cells α} {l : List α} (h : cells.Holds l) {n : Nat}
    (hn : l.length ≤ n) : (cells.realloc n).Holds l := by
  intro i x hget
  have hi : i < l.length := (List.getElem?_eq_some_iff.mp hget).1
  rw [read_realloc (by omega)]
  exact h i x hget

theorem Holds.left {cells : Cells α} {l l' : List α} (h : cells.Holds (l ++ l')) :
    cells.Holds l := by
  intro i x hi
  refine h i x ?_
  rw [List.getElem?_append_left (List.getElem?_eq_some_iff.mp hi).1]
  exact hi

/-- A store behind the elements appends. -/
theorem Holds.set {cells : Cells α} {l : List α} (h : cells.Holds l) (x : α)
    (hlt : l.length < cells.length) :
    Cells.Holds (cells.set l.length (some x)) (l ++ [x]) := by
  intro i y hget
  rw [read_set hlt]
  by_cases hlast : i = l.length
  · subst hlast
    rw [List.getElem?_concat_length] at hget
    rw [if_pos rfl, hget]
  · have hlen := (List.getElem?_eq_some_iff.mp hget).1
    rw [List.length_append, List.length_singleton] at hlen
    rw [List.getElem?_append_left (by omega)] at hget
    rw [if_neg hlast]
    exact h i y hget

theorem store_eq {cells : Cells α} {i : Nat} (hi : i < cells.length) (x : α) :
    cells.store i x = some (cells.set i (some x)) := if_pos hi

/-- Stores behind the elements append them all. -/
theorem Holds.storeAll {cells : Cells α} {l : List α} (h : cells.Holds l) {l' : List α}
    (hroom : l.length + l'.length ≤ cells.length) : ∃ cells' : Cells α,
      cells.storeAll l.length l' = some cells' ∧ cells'.length = cells.length ∧
        cells'.Holds (l ++ l') := by
  induction l' generalizing cells l with
  | nil => exact ⟨cells, rfl, rfl, by rw [List.append_nil]; exact h⟩
  | cons x l' ih =>
      rw [List.length_cons] at hroom
      have hlt : l.length < cells.length := by omega
      have hfits : (l ++ [x]).length + l'.length ≤ (cells.set l.length (some x)).length := by
        rw [List.length_append, List.length_singleton, List.length_set]
        omega
      rcases ih (h.set x hlt) hfits with ⟨cells', hrun, hlen, hholds⟩
      rw [List.length_append, List.length_singleton] at hrun
      rw [List.length_set] at hlen
      rw [List.append_assoc] at hholds
      refine ⟨cells', ?_, hlen, hholds⟩
      rw [Cells.storeAll, store_eq hlt, Option.bind_some]
      exact hrun

end Cells

end StupidOS
