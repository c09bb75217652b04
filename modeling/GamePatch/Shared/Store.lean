import Mathlib.Data.List.Basic

/-! # Cells at numbered places

Blocks of cells are written and read at a place. Blocks that do not overlap are
independent of each other, and a block that was read can be put back. -/

namespace GamePatch.Store

variable {α : Type*} {s t : ℕ → α} {place other n m : ℕ} {cells cells' : List α}

/-- The store with the cells standing from `place` on. -/
def write (s : ℕ → α) (place : ℕ) (cells : List α) : ℕ → α := fun a =>
  if place ≤ a then cells.getD (a - place) (s a) else s a

/-- The `n` cells from `place` on. -/
def read (s : ℕ → α) (place n : ℕ) : List α := (List.range n).map fun i => s (place + i)

/-- The block of `n` cells at `place` and that of `m` cells at `other` do not overlap. -/
def Apart (place n other m : ℕ) : Prop := place + n ≤ other ∨ other + m ≤ place

theorem Apart.symm (h : Apart place n other m) : Apart other m place n := Or.symm h

@[simp] theorem length_read (s : ℕ → α) (place n : ℕ) : (read s place n).length = n := by
  simp [read]

theorem getElem_read {i : ℕ} (h : i < (read s place n).length) :
    (read s place n)[i] = s (place + i) := by
  simp [read]

/-! ## One write -/

theorem write_outside (s : ℕ → α) (cells : List α) {a : ℕ}
    (h : a < place ∨ place + cells.length ≤ a) : write s place cells a = s a := by
  rw [write]
  split
  · rw [List.getD_eq_getElem?_getD, List.getElem?_eq_none (by omega), Option.getD_none]
  · rfl

theorem write_inside (s : ℕ → α) (place : ℕ) {i : ℕ} (h : i < cells.length) :
    write s place cells (place + i) = cells[i] := by
  rw [write, if_pos (Nat.le_add_right _ _), Nat.add_sub_cancel_left,
    List.getD_eq_getElem?_getD, List.getElem?_eq_getElem h, Option.getD_some]

/-- A cell after a write is one of the cells written or the old one. -/
theorem write_cases (s : ℕ → α) (place : ℕ) (cells : List α) (a : ℕ) :
    (∃ i, ∃ h : i < cells.length, a = place + i ∧ write s place cells a = cells[i]) ∨
      (a < place ∨ place + cells.length ≤ a) ∧ write s place cells a = s a := by
  by_cases h : a < place ∨ place + cells.length ≤ a
  · exact .inr ⟨h, write_outside s cells h⟩
  · have ha : a = place + (a - place) := by omega
    have hi : a - place < cells.length := by omega
    refine .inl ⟨a - place, hi, ha, ?_⟩
    rw [← write_inside s place hi, ← ha]

/-! ## Reading back -/

theorem read_congr (h : ∀ i < n, s (place + i) = t (place + i)) :
    read s place n = read t place n := by
  apply List.map_congr_left
  intro i hi
  exact h i (List.mem_range.mp hi)

theorem read_write (s : ℕ → α) (place : ℕ) (cells : List α) :
    read (write s place cells) place cells.length = cells := by
  apply List.ext_getElem (length_read _ _ _)
  intro i h hi
  rw [getElem_read, write_inside s place hi]

theorem read_write_of_apart (s : ℕ → α) (h : Apart place n other cells.length) :
    read (write s other cells) place n = read s place n := by
  apply read_congr
  intro i hi
  rw [Apart] at h
  exact write_outside s cells (by omega)

/-! ## Two writes -/

theorem write_append (s : ℕ → α) (place : ℕ) (cells cells' : List α) :
    write s place (cells ++ cells') =
      write (write s place cells) (place + cells.length) cells' := by
  funext a
  obtain ⟨i, hi, rfl, hcell⟩ | ⟨hout, hcell⟩ :=
    write_cases (write s place cells) (place + cells.length) cells' a
  · rw [hcell, Nat.add_assoc, write_inside s place (by simpa using hi),
      List.getElem_append_right (Nat.le_add_right _ _)]
    simp
  · rw [hcell]
    obtain ⟨i, hi, rfl, hcell'⟩ | ⟨hout', hcell'⟩ := write_cases s place cells a
    · rw [hcell', write_inside s place (by simp; omega), List.getElem_append_left hi]
    · rw [hcell', write_outside s _ (by rw [List.length_append]; omega)]

/-! ## A sequence of writes -/

/-- Blocks written one after another, each with its place. -/
def writeAll (s : ℕ → α) (blocks : List (ℕ × List α)) : ℕ → α :=
  blocks.foldl (fun s block => write s block.1 block.2) s

/-- The block has a cell at `a`. -/
def Covers (a : ℕ) (block : ℕ × List α) : Prop :=
  block.1 ≤ a ∧ a < block.1 + block.2.length

theorem writeAll_append (s : ℕ → α) (blocks blocks' : List (ℕ × List α)) :
    writeAll s (blocks ++ blocks') = writeAll (writeAll s blocks) blocks' :=
  List.foldl_append

/-- A cell that no block covers is left alone. -/
theorem writeAll_outside (s : ℕ → α) {blocks : List (ℕ × List α)} {a : ℕ}
    (h : ∀ block ∈ blocks, ¬ Covers a block) : writeAll s blocks a = s a := by
  induction blocks generalizing s with
  | nil => rfl
  | cons block blocks ih =>
      rw [List.forall_mem_cons, Covers] at h
      rw [writeAll, List.foldl_cons, ← writeAll, ih _ h.2]
      exact write_outside s block.2 (by omega)

/-- The last block that covers a cell decides about it. -/
theorem writeAll_last (s : ℕ → α) {before after : List (ℕ × List α)} {block : ℕ × List α} {a : ℕ}
    (hcovers : Covers a block) (hafter : ∀ later ∈ after, ¬ Covers a later) :
    writeAll s (before ++ block :: after) a =
      block.2.get ⟨a - block.1, Nat.sub_lt_left_of_lt_add hcovers.1 hcovers.2⟩ := by
  have hplace : block.1 + (a - block.1) = a := Nat.add_sub_cancel' hcovers.1
  rw [writeAll_append, writeAll, List.foldl_cons, ← writeAll, writeAll_outside _ hafter]
  conv_lhs => rw [← hplace]
  exact write_inside _ block.1 _

end GamePatch.Store
