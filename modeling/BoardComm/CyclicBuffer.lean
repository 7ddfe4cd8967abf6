import Mathlib.Tactic

/-!
# A store with cyclic addresses

A store has `n` cells, and an address stands for the cell of its remainder. A window
reads consecutive addresses. Addresses run on for ever, so that neither the
end of the store nor a counter that starts again is a case of its own.
-/
namespace BoardComm.Cyclic

variable {α : Type*} (n : ℕ)

/-- Write a list from an address on. -/
def store : (ℕ → α) → ℕ → List α → ℕ → α
  | data, _, [] => data
  | data, p, x :: xs => store (Function.update data (p % n) x) (p + 1) xs

/-- Read so many cells from an address on. -/
def window (data : ℕ → α) : ℕ → ℕ → List α
  | _, 0 => []
  | p, k + 1 => data (p % n) :: window data (p + 1) k

variable {n} {data : ℕ → α} {p q k : ℕ} {xs : List α}

@[simp] theorem window_length : (window n data p k).length = k := by
  induction k generalizing p with
  | zero => rfl
  | succ k ih => rw [window, List.length_cons, ih]

theorem window_getElem? {i : ℕ} (h : i < k) :
    (window n data p k)[i]? = some (data ((p + i) % n)) := by
  induction k generalizing p i with
  | zero => exact absurd h (Nat.not_lt_zero i)
  | succ k ih =>
    cases i with
    | zero => rfl
    | succ i =>
      have hnext : p + (i + 1) = p + 1 + i := by omega
      rw [window, List.getElem?_cons_succ, hnext]
      exact ih (by omega)

/-- Writing one list and then another behind it. -/
theorem store_append (ys : List α) :
    store n data p (xs ++ ys) = store n (store n data p xs) (p + xs.length) ys := by
  induction xs generalizing data p with
  | nil => rfl
  | cons x xs ih =>
    have hnext : p + (x :: xs).length = p + 1 + xs.length := by
      rw [List.length_cons]
      omega
    rw [List.cons_append, store, ih, store, hnext]

/-- A window falls into two. -/
theorem window_add (l : ℕ) :
    window n data p (k + l) = window n data p k ++ window n data (p + k) l := by
  induction k generalizing p with
  | zero => rw [Nat.zero_add, Nat.add_zero, window, List.nil_append]
  | succ k ih =>
    have hnext : p + (k + 1) = p + 1 + k := by omega
    rw [Nat.succ_add, window, ih, window, List.cons_append, hnext]

/-- Addresses less than a round apart are different cells. -/
theorem mod_ne {i j : ℕ} (hlt : i < j) (hround : j < i + n) : i % n ≠ j % n := by
  intro h
  have hdvd : n ∣ j - i := (Nat.modEq_iff_dvd' hlt.le).mp h
  have hle := Nat.le_of_dvd (by omega) hdvd
  omega

/-- A cell that is not written keeps its value. -/
theorem store_of_ne {i : ℕ} (h : ∀ j < xs.length, (p + j) % n ≠ i) :
    store n data p xs i = data i := by
  induction xs generalizing data p with
  | nil => rfl
  | cons x xs ih =>
    have hrest : ∀ j < xs.length, (p + 1 + j) % n ≠ i := by
      intro j hj
      have hnext : p + 1 + j = p + (j + 1) := by omega
      rw [hnext]
      exact h (j + 1) (by rw [List.length_cons]; omega)
    rw [store, ih hrest]
    exact Function.update_of_ne (h 0 (by simp)).symm x data

/-- What is written less than a round behind a window does not change it. -/
theorem window_store (hbehind : q + k ≤ p) (hround : p + xs.length ≤ q + n) :
    window n (store n data p xs) q k = window n data q k := by
  induction k generalizing q with
  | zero => rfl
  | succ k ih =>
    have hcell : store n data p xs (q % n) = data (q % n) :=
      store_of_ne fun j hj => (mod_ne (by omega) (by omega)).symm
    rw [window, window, hcell, ih (by omega) (by omega)]

/-- What is written can be read. -/
theorem window_store_self (hle : xs.length ≤ n) :
    window n (store n data p xs) p xs.length = xs := by
  induction xs generalizing data p with
  | nil => rfl
  | cons x xs ih =>
    rw [List.length_cons] at hle
    have hcell : store n (Function.update data (p % n) x) (p + 1) xs (p % n) = x := by
      rw [store_of_ne fun j hj => (mod_ne (by omega) (by omega)).symm, Function.update_self]
    rw [List.length_cons, store, window, hcell, ih (by omega)]

/-- A window and what is written behind it make a longer window. -/
theorem window_store_append (hround : k + xs.length ≤ n) :
    window n (store n data (p + k) xs) p (k + xs.length) = window n data p k ++ xs := by
  rw [window_add, window_store le_rfl (by omega), window_store_self (by omega)]

end BoardComm.Cyclic
