import Mathlib.Data.List.Basic
import Mathlib.Logic.Function.Basic

/-!
# Compaction in place

A loop walks over the first cells of an array and moves those that are to stay to
the front, over the ones that are to go. Nothing is moved before it is read: the
place to write to never gets ahead of the place to read from.
-/
namespace BoardComm.Compaction

variable {α : Type*}

/-- The first `n` cells. -/
def front (cells : ℕ → α) (n : ℕ) : List α := (List.range n).map cells

/-- The loop, with so many cells to go from `i` on, and `out` that stay so far. -/
def loop (keep : α → Bool) : ℕ → ℕ → ℕ → (ℕ → α) → ℕ × (ℕ → α)
  | 0, _, out, cells => (out, cells)
  | rounds + 1, i, out, cells =>
    if keep (cells i) = true then
      loop keep rounds (i + 1) (out + 1)
        (if out ≠ i then Function.update cells out (cells i) else cells)
    else loop keep rounds (i + 1) out cells

variable {cells : ℕ → α} {n : ℕ}

@[simp] theorem front_length (cells : ℕ → α) (n : ℕ) : (front cells n).length = n := by
  rw [front, List.length_map, List.length_range]

theorem mem_front {a : α} : a ∈ front cells n ↔ ∃ i < n, cells i = a := by
  simp only [front, List.mem_map, List.mem_range]

theorem front_succ (cells : ℕ → α) (n : ℕ) : front cells (n + 1) = front cells n ++ [cells n] := by
  rw [front, List.range_succ, List.map_append]
  rfl

/-- Only the cells of the front matter. -/
theorem front_congr {cells' : ℕ → α} (h : ∀ i < n, cells' i = cells i) :
    front cells' n = front cells n := by
  refine List.map_congr_left fun i hi => ?_
  exact h i (List.mem_range.mp hi)

/-- A cell behind the front is set, and joins it. -/
theorem front_update (cells : ℕ → α) (n : ℕ) (a : α) :
    front (Function.update cells n a) (n + 1) = front cells n ++ [a] := by
  rw [front_succ, Function.update_self]
  congr 1
  refine front_congr fun i hi => ?_
  rw [Function.update_of_ne (by omega)]

/-- The cells from `i` on that stay go behind those that are there. -/
theorem loop_front (keep : α → Bool) (rounds i out : ℕ) (cells : ℕ → α) (hout : out ≤ i) :
    front (loop keep rounds i out cells).2 (loop keep rounds i out cells).1 =
      front cells out ++ ((List.range' i rounds).map cells).filter keep := by
  induction rounds generalizing i out cells with
  | zero => simp [loop]
  | succ rounds ih =>
    rw [loop, List.range'_succ, List.map_cons]
    split_ifs with hkeep hmove
    · -- The cell is copied to its place: the ones that are still to be read are behind it.
      rw [ih (i + 1) (out + 1) _ (by omega), front_update, List.filter_cons_of_pos hkeep,
        List.append_assoc, List.singleton_append]
      congr 3
      refine List.map_congr_left fun j hj => ?_
      obtain ⟨hle, -⟩ := List.mem_range'_1.mp hj
      rw [Function.update_of_ne (by omega)]
    · have hsame : out = i := by omega
      rw [ih (i + 1) (out + 1) cells (by omega), front_succ, List.filter_cons_of_pos hkeep,
        List.append_assoc, List.singleton_append, hsame]
    · rw [ih (i + 1) out cells (by omega), List.filter_cons_of_neg hkeep]

/-- The whole front is filtered. -/
theorem front_loop (keep : α → Bool) (cells : ℕ → α) (n : ℕ) :
    front (loop keep n 0 0 cells).2 (loop keep n 0 0 cells).1 = (front cells n).filter keep := by
  rw [loop_front keep n 0 0 cells (Nat.le_refl 0), front, List.range_zero, List.map_nil,
    List.nil_append, ← List.range_eq_range', front]

end BoardComm.Compaction
