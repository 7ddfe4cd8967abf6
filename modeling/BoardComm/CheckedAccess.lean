import Mathlib.Tactic

/-!
# Checked accesses

A computation that divides, and that reads and writes areas of bounded length, stops
at its first fault. What it comes to without one is an equation, and the lemmas say
for each operation when that equation holds.
-/
namespace BoardComm.Checked

/-- The first thing that goes wrong. -/
inductive Fault (A : Type*)
  | divideByZero
  | outside (area : A) (index : ℕ)
  deriving DecidableEq, Repr

variable {A α β : Type}

/-- A computation that has a result or a fault. -/
abbrev Run (A α : Type) := Except (Fault A) α

/-- The computation has no fault. -/
def Safe (x : Run A α) : Prop := ∃ a, x = .ok a

/-- The remainder of a division. -/
def remainder (a b : UInt32) : Run A UInt32 :=
  if b = 0 then .error .divideByZero else .ok (a % b)

/-- One byte of an area. -/
def access (area : A) (bound i : ℕ) : Run A Unit :=
  if i < bound then .ok () else .error (.outside area i)

/-- The place of a cell of an array. -/
def cell (area : A) (bound i : ℕ) : Run A (Fin bound) :=
  if h : i < bound then .ok ⟨i, h⟩ else .error (.outside area i)

/-- So many bytes of an area, from an index on. -/
def span (area : A) (bound : ℕ) : ℕ → ℕ → Run A Unit
  | _, 0 => .ok ()
  | i, n + 1 => do
    access area bound i
    span area bound (i + 1) n

@[simp] theorem ok_bind (a : α) (f : α → Run A β) : ((.ok a : Run A α) >>= f) = f a := rfl

@[simp] theorem bind_eq_ok {x : Run A α} {f : α → Run A β} {b : β} :
    (x >>= f) = .ok b ↔ ∃ a, x = .ok a ∧ f a = .ok b := by
  cases x with
  | error fault => simp [bind, Except.bind]
  | ok a =>
    constructor
    · intro h
      exact ⟨a, rfl, h⟩
    · rintro ⟨a', ha, h⟩
      rw [Except.ok.inj ha]
      exact h

@[simp] theorem remainder_eq_ok {a b r : UInt32} :
    (remainder a b : Run A UInt32) = .ok r ↔ b ≠ 0 ∧ r = a % b := by
  unfold remainder
  split_ifs with h
  · simp [h]
  · simp [h, eq_comm]

@[simp] theorem access_eq_ok {area : A} {bound i : ℕ} {u : Unit} :
    access area bound i = .ok u ↔ i < bound := by
  unfold access
  split_ifs with h <;> simp [h]

/-- The last byte decides. -/
@[simp] theorem span_eq_ok {area : A} {bound i n : ℕ} {u : Unit} :
    span area bound i n = .ok u ↔ n = 0 ∨ i + n ≤ bound := by
  induction n generalizing i with
  | zero => simp [span]
  | succ n ih =>
    simp only [span, bind_eq_ok, access_eq_ok, ih, exists_const]
    omega

theorem access_of_lt {area : A} {bound i : ℕ} (h : i < bound) :
    access area bound i = .ok () :=
  access_eq_ok.mpr h

theorem cell_of_lt {area : A} {bound i : ℕ} (h : i < bound) :
    cell area bound i = .ok ⟨i, h⟩ :=
  dif_pos h

theorem span_of_le {area : A} {bound i n : ℕ} (h : i + n ≤ bound) :
    span area bound i n = .ok () :=
  span_eq_ok.mpr (Or.inr h)

/-- What is read of an area is the same whatever stands behind it. -/
theorem take_drop_append {xs : List α} (behind : List α) {i n : ℕ} (h : i + n ≤ xs.length) :
    ((xs ++ behind).drop i).take n = (xs.drop i).take n := by
  rw [List.drop_append_of_le_length (by omega),
    List.take_append_of_le_length (by rw [List.length_drop]; omega)]

/-- A check that ends a computation ends what it comes to as well. -/
theorem ite_ok_eq_ok {p : Prop} [Decidable p] {x : Run A α} {a b : α} (h : ¬ p → x = .ok b) :
    (if p then .ok a else x) = .ok (if p then a else b) := by
  split_ifs with hp
  · rfl
  · exact h hp

/-- A computation that meets its condition comes to what it would come to unchecked. -/
theorem safe_iff {x : Run A α} {p : Prop} {plain : α} (h : ∀ a, x = .ok a ↔ p ∧ a = plain) :
    Safe x ↔ p := by
  constructor
  · rintro ⟨a, ha⟩
    exact ((h a).mp ha).1
  · intro hp
    exact ⟨plain, (h plain).mpr ⟨hp, rfl⟩⟩

end BoardComm.Checked
