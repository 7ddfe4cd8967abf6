import Mathlib.Tactic

/-!
# Serial numbers

A counter that runs on for ever is sent modulo a power of two. Two counts that are less
than half of the range apart are told apart by the sign of the difference of the
numbers that were sent for them.
-/
namespace BoardComm.Serial

variable {w : ℕ}

/-- By how much the first number is later than the second, seen as a signed number. -/
def diff (later earlier : BitVec w) : ℤ := (later - earlier).toInt

/-- Counts that are close are compared by their numbers. -/
theorem diff_ofNat {i j : ℕ} (hlow : 2 * j ≤ 2 * i + 2 ^ w) (hhigh : 2 * i < 2 * j + 2 ^ w) :
    diff (BitVec.ofNat w i) (BitVec.ofNat w j) = (i : ℤ) - j := by
  have hsub : diff (BitVec.ofNat w i) (BitVec.ofNat w j) =
      ((i : ℤ) - j).bmod (2 ^ w) := by
    rw [diff, BitVec.toInt_sub, BitVec.toInt_ofNat', BitVec.toInt_ofNat', Int.bmod_sub_bmod,
      Int.sub_bmod_bmod]
  rw [hsub]
  have hpos : 0 < 2 ^ w := Nat.two_pow_pos w
  apply Int.bmod_eq_of_le <;> omega

@[simp] theorem diff_self (s : BitVec w) : diff s s = 0 := by
  rw [diff, BitVec.sub_self, BitVec.toInt_zero]

/-- Of two numbers that are less than half of the range apart, one is the later. -/
theorem diff_swap {s s' : BitVec w} (h : -2 ^ w < 2 * diff s s') : diff s' s = -diff s s' := by
  have hneg : s' - s = -(s - s') := by rw [BitVec.neg_sub, BitVec.add_comm, BitVec.sub_eq_add_neg]
  have hhigh : 2 * diff s s' < 2 ^ w := BitVec.two_mul_toInt_lt
  rw [diff, hneg, BitVec.toInt_neg]
  change (-diff s s').bmod (2 ^ w) = _
  have hpow : ((2 ^ w : ℕ) : ℤ) = 2 ^ w := by push_cast; rfl
  apply Int.bmod_eq_of_le <;> omega

/-- Counts that are less than the range apart have different numbers. -/
theorem ofNat_inj {i j : ℕ} (hlow : j < i + 2 ^ w) (hhigh : i < j + 2 ^ w) :
    BitVec.ofNat w i = BitVec.ofNat w j ↔ i = j := by
  constructor
  · intro h
    have hmod : i % 2 ^ w = j % 2 ^ w := by
      have := congrArg BitVec.toNat h
      simpa only [BitVec.toNat_ofNat] using this
    rcases le_total i j with hle | hle
    · have hdvd := (Nat.modEq_iff_dvd' hle).mp hmod
      have := Nat.eq_zero_of_dvd_of_lt hdvd (by omega)
      omega
    · have hdvd := (Nat.modEq_iff_dvd' hle).mp hmod.symm
      have := Nat.eq_zero_of_dvd_of_lt hdvd (by omega)
      omega
  · rintro rfl
    rfl

/-- Every number is that of a count from `n` on. -/
theorem exists_count (s : BitVec w) (n : ℕ) :
    ∃ i, n ≤ i ∧ i < n + 2 ^ w ∧ s = BitVec.ofNat w i := by
  refine ⟨n + (s - BitVec.ofNat w n).toNat, by omega, ?_, ?_⟩
  · have := (s - BitVec.ofNat w n).isLt
    omega
  · rw [BitVec.ofNat_add, BitVec.ofNat_toNat, BitVec.setWidth_eq, BitVec.add_comm,
      BitVec.sub_add_cancel]

/-- A number that is not earlier than that of `n` is that of a later count in the half of
the range behind `n`. -/
theorem exists_later {s : BitVec w} {n : ℕ} (h : 0 ≤ diff s (BitVec.ofNat w n)) :
    ∃ i, n ≤ i ∧ 2 * i < 2 * n + 2 ^ w ∧ s = BitVec.ofNat w i := by
  obtain ⟨i, hle, hlt, rfl⟩ := exists_count s n
  refine ⟨i, hle, ?_, rfl⟩
  by_contra hfar
  -- The difference is in the upper half, so it is negative.
  have hsub : BitVec.ofNat w i - BitVec.ofNat w n = BitVec.ofNat w (i - n) := by
    rw [BitVec.sub_eq_iff_eq_add, ← BitVec.ofNat_add, Nat.sub_add_cancel hle]
  have hnat : (BitVec.ofNat w (i - n)).toNat = i - n := by
    rw [BitVec.toNat_ofNat, Nat.mod_eq_of_lt (by omega)]
  rw [diff, hsub, BitVec.toInt_eq_toNat_cond, hnat, if_neg (by omega)] at h
  omega

end BoardComm.Serial
