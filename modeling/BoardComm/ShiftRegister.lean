import Mathlib.Tactic

/-!
# Shift registers with feedback

A register of `w` bits shifts to the right and adds the feedback `p` when the
bit shifted out was one; input bits are added at the low end. The register is
linear in exclusive or, and when the top bit of `p` is set a step loses
nothing. So an input that differs from another in at most `w` consecutive bits
leaves a different remainder, whatever comes before and after.
-/
namespace BoardComm.ShiftRegister

variable {w : ℕ} (p : BitVec w)

/-- One shift. -/
def step (s : BitVec w) : BitVec w := (s >>> 1) ^^^ (if s.getLsbD 0 then p else 0#w)

/-- An input bit at the low end of the register. -/
def lowBit (w : ℕ) (b : Bool) : BitVec w := if b then 1#w else 0#w

/-- The register after the input bits. -/
def feed (s : BitVec w) (bits : List Bool) : BitVec w :=
  bits.foldl (fun s b => step p (s ^^^ lowBit w b)) s

/-- The register that holds the bits, the first one lowest. -/
def window (w : ℕ) : List Bool → BitVec w
  | [] => 0#w
  | b :: bits => (window w bits <<< 1) ^^^ lowBit w b

@[simp] theorem feed_nil (s : BitVec w) : feed p s [] = s := rfl

@[simp] theorem feed_cons (s : BitVec w) (b : Bool) (bits : List Bool) :
    feed p s (b :: bits) = feed p (step p (s ^^^ lowBit w b)) bits := rfl

@[simp] theorem feed_append (s : BitVec w) (xs ys : List Bool) :
    feed p s (xs ++ ys) = feed p (feed p s xs) ys := by
  simp [feed]

theorem step_zero : step p 0#w = 0#w := by simp [step]

theorem step_xor (s t : BitVec w) : step p (s ^^^ t) = step p s ^^^ step p t := by
  simp only [step, BitVec.ushiftRight_xor_distrib, BitVec.getLsbD_xor]
  ext i hi
  cases s.getLsbD 0 <;> cases t.getLsbD 0 <;>
    simp only [Bool.xor_false, Bool.xor_true, Bool.not_true, Bool.not_false, Bool.false_eq_true,
      if_true, if_false, BitVec.getElem_xor, BitVec.getElem_zero] <;>
    cases (s >>> 1)[i] <;> cases (t >>> 1)[i] <;> cases p[i] <;> rfl

theorem lowBit_xor (a b : Bool) : lowBit w (a ^^ b) = lowBit w a ^^^ lowBit w b := by
  cases a <;> cases b <;> simp [lowBit]

/-- The remainder of a sum is the sum of the remainders. -/
theorem feed_xor (s t : BitVec w) (xs ys : List Bool) (h : xs.length = ys.length) :
    feed p (s ^^^ t) (List.zipWith xor xs ys) = feed p s xs ^^^ feed p t ys := by
  induction xs generalizing s t ys with
  | nil =>
    obtain rfl : ys = [] := List.length_eq_zero_iff.mp h.symm
    simp
  | cons x xs ih =>
    cases ys with
    | nil => simp at h
    | cons y ys =>
      have hswap : s ^^^ t ^^^ lowBit w (x ^^ y) = (s ^^^ lowBit w x) ^^^ (t ^^^ lowBit w y) := by
        rw [lowBit_xor]
        ac_rfl
      simp only [List.zipWith_cons_cons, feed_cons]
      rw [hswap, step_xor]
      exact ih _ _ ys (by simpa using h)

/-- Without a one among the input bits the empty register stays empty. -/
theorem feed_zero_replicate (n : ℕ) : feed p 0#w (List.replicate n false) = 0#w := by
  induction n with
  | zero => rfl
  | succ n ih => simpa [List.replicate_succ, lowBit, step_zero] using ih

theorem feed_replicate (n : ℕ) (s : BitVec w) :
    feed p s (List.replicate n false) = (step p)^[n] s := by
  induction n generalizing s with
  | zero => rfl
  | succ n ih => simpa [List.replicate_succ, lowBit] using ih (step p s)

section Window

theorem getLsbD_lowBit (b : Bool) (i : ℕ) :
    (lowBit w b).getLsbD i = (b && decide (i = 0) && decide (i < w)) := by
  cases b with
  | false => simp [lowBit]
  | true =>
    simp only [lowBit, if_true, Bool.true_and, BitVec.getLsbD_one]
    grind

/-- Bit `i` of the window is input bit `i`. -/
theorem getLsbD_window (bits : List Bool) (i : ℕ) (hi : i < w) :
    (window w bits).getLsbD i = bits.getD i false := by
  induction bits generalizing i with
  | nil => simp [window]
  | cons b bits ih =>
    simp only [window, BitVec.getLsbD_xor, BitVec.getLsbD_shiftLeft, getLsbD_lowBit, hi,
      decide_true, Bool.true_and, Bool.and_true]
    cases i with
    | zero => simp
    | succ i => simp [ih i (by omega)]

/-- A one among the first `w` bits shows in the window. -/
theorem window_ne_zero {bits : List Bool} (hlen : bits.length ≤ w) (h : true ∈ bits) :
    window w bits ≠ 0#w := by
  obtain ⟨i, hi, hbit⟩ := List.getElem_of_mem h
  intro hzero
  have hread := getLsbD_window bits i (by omega : i < w)
  rw [hzero, List.getD_eq_getElem?_getD, List.getElem?_eq_getElem hi, hbit] at hread
  simp at hread

/-- A shift to the left undoes a step when no bit is lost at the top. -/
theorem step_shiftLeft {s : BitVec w} (h : s.getLsbD (w - 1) = false) : step p (s <<< 1) = s := by
  have hlow : (s <<< 1).getLsbD 0 = false := by simp [BitVec.getLsbD_shiftLeft]
  rw [step, hlow]
  apply BitVec.eq_of_getLsbD_eq
  intro i hi
  simp only [Bool.false_eq_true, if_false, BitVec.xor_zero, BitVec.getLsbD_ushiftRight,
    BitVec.getLsbD_shiftLeft]
  by_cases hlast : i = w - 1
  · subst hlast
    simp [h]
  · have hin : 1 + i < w := by omega
    simp [hin]

/-- At most `w` input bits act like their window added at the start. -/
theorem feed_eq_window (s : BitVec w) (bits : List Bool) (hlen : bits.length ≤ w) :
    feed p s bits = (step p)^[bits.length] (s ^^^ window w bits) := by
  induction bits generalizing s with
  | nil => simp [window]
  | cons b bits ih =>
    simp only [List.length_cons] at hlen
    have htop : (window w bits).getLsbD (w - 1) = false := by
      rw [getLsbD_window bits (w - 1) (by omega), List.getD_eq_getElem?_getD,
        List.getElem?_eq_none (by omega), Option.getD_none]
    have hsum : step p (s ^^^ window w (b :: bits))
        = step p (s ^^^ lowBit w b) ^^^ window w bits := by
      have hswap : s ^^^ window w (b :: bits) = (s ^^^ lowBit w b) ^^^ (window w bits <<< 1) := by
        rw [window]
        ac_rfl
      rw [hswap, step_xor, step_shiftLeft p htop]
    rw [feed_cons, ih _ (by omega), List.length_cons, Function.iterate_succ_apply, hsum]

end Window

section Injective

variable {p}

/-- A step forgets nothing: the top bit of the result is the bit shifted out. -/
theorem step_eq_zero {s : BitVec w} (hp : p.getLsbD (w - 1) = true) (h : step p s = 0#w) :
    s = 0#w := by
  have hbit : ∀ i, (step p s).getLsbD i = false := by simp [h]
  have hlow : s.getLsbD 0 = false := by
    by_contra hone
    have hset : s.getLsbD 0 = true := by simpa using hone
    have htop := hbit (w - 1)
    have hpos : 0 < w := BitVec.lt_of_getLsbD hset
    simp only [step, hset, if_true, BitVec.getLsbD_xor, BitVec.getLsbD_ushiftRight, hp,
      show 1 + (w - 1) = w by omega, BitVec.getLsbD_of_ge s w le_rfl] at htop
    simp at htop
  apply BitVec.eq_of_getLsbD_eq
  intro i hi
  cases i with
  | zero => simpa using hlow
  | succ i =>
    have hnext := hbit i
    simpa [step, hlow, BitVec.getLsbD_ushiftRight, Nat.add_comm 1 i] using hnext

theorem iterate_step_ne_zero {s : BitVec w} (hp : p.getLsbD (w - 1) = true) (h : s ≠ 0#w) (n : ℕ) :
    (step p)^[n] s ≠ 0#w := by
  induction n generalizing s with
  | zero => simpa using h
  | succ n ih => exact ih fun hzero => h (step_eq_zero hp hzero)

/-- A burst of at most `w` bits that are not all zero leaves a remainder,
whatever zeros surround it. -/
theorem feed_burst_ne_zero (hp : p.getLsbD (w - 1) = true) (before after : ℕ) {burst : List Bool}
    (hlen : burst.length ≤ w) (h : true ∈ burst) :
    feed p 0#w (List.replicate before false ++ burst ++ List.replicate after false) ≠ 0#w := by
  rw [feed_append, feed_append, feed_zero_replicate, feed_replicate, feed_eq_window p _ _ hlen]
  apply iterate_step_ne_zero hp
  apply iterate_step_ne_zero hp
  simpa using window_ne_zero hlen h

end Injective

/-- Bits that are all zero outside `width` places from `start` on are zeros, a
burst and zeros again. -/
theorem eq_burst {bits : List Bool} {start width : ℕ}
    (h : ∀ i : ℕ, bits[i]? = some true → start ≤ i ∧ i < start + width) :
    bits = List.replicate (bits.take start).length false ++ (bits.drop start).take width
      ++ List.replicate (bits.drop (start + width)).length false := by
  have hzeros : ∀ l : List Bool, true ∉ l → l = List.replicate l.length false := by
    intro l hl
    refine List.eq_replicate_iff.mpr ⟨rfl, fun b hb => ?_⟩
    cases b with
    | false => rfl
    | true => exact absurd hb hl
  have hfirst : true ∉ bits.take start := by
    intro hmem
    obtain ⟨i, hi⟩ := List.mem_iff_getElem?.mp hmem
    rw [List.getElem?_take] at hi
    split_ifs at hi with hlt
    have := (h i hi).1
    omega
  have hlast : true ∉ bits.drop (start + width) := by
    intro hmem
    obtain ⟨i, hi⟩ := List.mem_iff_getElem?.mp hmem
    rw [List.getElem?_drop] at hi
    have := (h _ hi).2
    omega
  rw [← hzeros _ hfirst, ← hzeros _ hlast, List.append_assoc, ← List.drop_drop,
    List.take_append_drop, List.take_append_drop]

/-- Input bits changed within `w` consecutive places, and changed at all, leave a
different remainder. -/
theorem feed_zipWith_xor_ne {p : BitVec w} (hp : p.getLsbD (w - 1) = true) (s : BitVec w)
    {bits change : List Bool} (hlen : bits.length = change.length) {start : ℕ}
    (hwindow : ∀ i : ℕ, change[i]? = some true → start ≤ i ∧ i < start + w)
    (hne : true ∈ change) :
    feed p s (List.zipWith xor bits change) ≠ feed p s bits := by
  have hshape := eq_burst hwindow
  have hone : true ∈ (change.drop start).take w := by
    obtain ⟨i, hi⟩ := List.mem_iff_getElem?.mp hne
    obtain ⟨hle, hlt⟩ := hwindow i hi
    apply List.mem_iff_getElem?.mpr
    refine ⟨i - start, ?_⟩
    rw [List.getElem?_take_of_lt (by omega), List.getElem?_drop,
      show start + (i - start) = i by omega]
    exact hi
  have hsum := feed_xor p s 0#w bits change hlen
  rw [BitVec.xor_zero] at hsum
  have hchange : feed p 0#w change ≠ 0#w := by
    rw [hshape]
    exact feed_burst_ne_zero hp _ _ (by simp) hone
  have hcancel : feed p s bits ^^^ (feed p s bits ^^^ feed p 0#w change) = feed p 0#w change := by
    rw [← BitVec.xor_assoc, BitVec.xor_self, BitVec.zero_xor]
  intro heq
  rw [← hsum, heq, BitVec.xor_self] at hcancel
  exact hchange hcancel.symm

end BoardComm.ShiftRegister
