import Mathlib.Tactic

/-!
# Fixed-size byte arrays of C

A `CBuffer n` is an array of `n` bytes. The operations are those of the C
library on such an array: clearing, copying a block to an offset, and reading
the string that ends at the first zero byte. The array length is a field of the
structure, so no operation can grow or shrink an array.
-/
namespace BoardComm

/-- An array of exactly `n` bytes. -/
structure CBuffer (n : ℕ) where
  bytes : List UInt8
  size_eq : bytes.length = n
  deriving DecidableEq, Repr

namespace CBuffer

/-- The bytes before the first zero. -/
def cstr (bs : List UInt8) : List UInt8 := bs.takeWhile (· != 0)

/-- `strnlen`: the distance to the first zero byte, at most `n`. -/
def strnlen (bs : List UInt8) (n : ℕ) : ℕ := (cstr (bs.take n)).length

@[ext] theorem ext {n : ℕ} {a b : CBuffer n} (h : a.bytes = b.bytes) : a = b := by
  cases a
  cases b
  subst h
  rfl

/-- `memset(buf, 0, n)`. -/
def zero (n : ℕ) : CBuffer n := ⟨List.replicate n 0, by simp⟩

/-- A cleared array with a block copied to its front. A block longer than the
array is cut, which no caller relies on. -/
def ofPrefix (n : ℕ) (bs : List UInt8) : CBuffer n :=
  ⟨bs.take n ++ List.replicate (n - bs.length) 0, by simp; omega⟩

/-- `memcpy(buf + off, src, src.length)`, keeping the bytes on both sides. -/
def copyAt {n : ℕ} (b : CBuffer n) (off : ℕ) (src : List UInt8) : CBuffer n :=
  ⟨(b.bytes.take off ++ src ++ b.bytes.drop (off + src.length)).take n
    ++ List.replicate (n - (b.bytes.take off ++ src ++ b.bytes.drop (off + src.length)).length) 0,
    by simp only [List.length_append, List.length_take, List.length_replicate]; omega⟩

/-- `strncpy(buf, src, k)`: at most `k` bytes of the string at `src`, the rest of
the first `k` bytes cleared. -/
def strncpy {n : ℕ} (b : CBuffer n) (src : List UInt8) (k : ℕ) : CBuffer n :=
  b.copyAt 0 (cstr (src.take k) ++ List.replicate (k - (cstr (src.take k)).length) 0)

/-- The C string held by the array. -/
def str {n : ℕ} (b : CBuffer n) : List UInt8 := cstr b.bytes

/-- A zero byte occurs in the array, so its C string ends inside it. -/
def Terminated {n : ℕ} (b : CBuffer n) : Prop := b.str.length < n

instance {n : ℕ} (b : CBuffer n) : Decidable b.Terminated := by
  unfold Terminated
  infer_instance

/-- A zero byte hides everything behind it. -/
theorem cstr_append_zero (bs rest : List UInt8) : cstr (bs ++ 0 :: rest) = cstr bs := by
  induction bs with
  | nil => simp [cstr]
  | cons b bs ih =>
    simp only [cstr] at ih
    by_cases hb : b = 0
    · simp [cstr, hb]
    · simp [cstr, hb, ih]

theorem zero_not_mem_cstr (bs : List UInt8) : (0 : UInt8) ∉ cstr bs := by
  intro h
  have hall : (bs.takeWhile (· != 0)).all (· != 0) = true := List.all_takeWhile
  have h0 := List.all_eq_true.mp hall 0 h
  simp at h0

theorem cstr_of_not_mem (bs : List UInt8) (h : (0 : UInt8) ∉ bs) : cstr bs = bs := by
  have hall : ∀ b ∈ bs, (b != 0) = true := by
    intro b hb
    have hne : b ≠ 0 := fun he => h (he ▸ hb)
    simpa using hne
  have happ : (bs ++ []).takeWhile (· != 0) = bs ++ [].takeWhile (· != 0) :=
    List.takeWhile_append_of_pos hall
  simpa [cstr] using happ

theorem cstr_isPrefix (bs : List UInt8) : cstr bs <+: bs := List.takeWhile_prefix _

theorem cstr_length_le (bs : List UInt8) : (cstr bs).length ≤ bs.length :=
  (cstr_isPrefix bs).length_le

@[simp] theorem cstr_cstr (bs : List UInt8) : cstr (cstr bs) = cstr bs :=
  cstr_of_not_mem _ (zero_not_mem_cstr bs)

/-- The string is the front of the array of that length. -/
theorem take_cstr_length (bs : List UInt8) : bs.take (cstr bs).length = cstr bs :=
  (List.prefix_iff_eq_take.mp (cstr_isPrefix bs)).symm

/-- The string is shorter than the bytes exactly when one of them is zero. -/
theorem cstr_length_lt_iff (bs : List UInt8) : (cstr bs).length < bs.length ↔ (0 : UInt8) ∈ bs := by
  constructor
  · intro h
    by_contra hn
    rw [cstr_of_not_mem bs hn] at h
    omega
  · intro h
    have hle := cstr_length_le bs
    by_contra hn
    have heq : cstr bs = bs := (cstr_isPrefix bs).eq_of_length (by omega)
    have hz := zero_not_mem_cstr bs
    rw [heq] at hz
    exact hz h

@[simp] theorem length_bytes {n : ℕ} (b : CBuffer n) : b.bytes.length = n := b.size_eq

@[simp] theorem strnlen_bytes {n : ℕ} (b : CBuffer n) : strnlen b.bytes n = b.str.length := by
  rw [strnlen, List.take_of_length_le (by simp), str]

theorem take_str_length {n : ℕ} (b : CBuffer n) : b.bytes.take b.str.length = b.str :=
  take_cstr_length b.bytes

theorem ofPrefix_bytes {n : ℕ} {bs : List UInt8} (h : bs.length ≤ n) :
    (ofPrefix n bs).bytes = bs ++ List.replicate (n - bs.length) 0 := by
  simp [ofPrefix, List.take_of_length_le h]

theorem take_ofPrefix {n : ℕ} {bs : List UInt8} (h : bs.length ≤ n) :
    (ofPrefix n bs).bytes.take bs.length = bs := by
  rw [ofPrefix_bytes h]
  simp

/-- Copying a block shorter than the array keeps the string it begins with. -/
theorem str_ofPrefix {n : ℕ} {bs : List UInt8} (hlt : bs.length < n) :
    (ofPrefix n bs).str = cstr bs := by
  have hpos : n - bs.length = (n - bs.length - 1) + 1 := by omega
  rw [str, ofPrefix_bytes (by omega), hpos, List.replicate_succ, cstr_append_zero]

/-- A copy that stays inside the array. -/
theorem copyAt_bytes {n : ℕ} (b : CBuffer n) {off : ℕ} {src : List UInt8}
    (h : off + src.length ≤ n) :
    (b.copyAt off src).bytes = b.bytes.take off ++ src ++ b.bytes.drop (off + src.length) := by
  have hlen : (b.bytes.take off ++ src ++ b.bytes.drop (off + src.length)).length = n := by
    simp only [List.length_append, List.length_take, List.length_drop, length_bytes]
    omega
  unfold copyAt
  simp only [hlen, Nat.sub_self, List.replicate_zero, List.append_nil]
  exact List.take_of_length_le hlen.le

/-- Copies to separate places do not disturb each other. -/
theorem copyAt_comm {n : ℕ} (b : CBuffer n) {off off' : ℕ} {src src' : List UInt8}
    (h : off + src.length ≤ off') (h' : off' + src'.length ≤ n) :
    (b.copyAt off' src').copyAt off src = (b.copyAt off src).copyAt off' src' := by
  have hlen := b.size_eq
  ext1
  rw [copyAt_bytes _ (by omega), copyAt_bytes _ h', copyAt_bytes _ h', copyAt_bytes _ (by omega)]
  apply List.ext_getElem?
  intro i
  simp only [List.getElem?_append, List.getElem?_take, List.getElem?_drop, List.length_append,
    List.length_take, List.length_drop, hlen]
  grind

theorem cstr_take (bs : List UInt8) (k : ℕ) : cstr (bs.take k) = (cstr bs).take k := by
  induction bs generalizing k with
  | nil => simp [cstr]
  | cons b bs ih =>
    simp only [cstr] at ih
    cases k with
    | zero => simp [cstr]
    | succ k =>
      by_cases hb : b = 0
      · simp [cstr, hb]
      · simp [cstr, hb, ih]

/-- The string that `strncpy` stores, as a later bounded read sees it. -/
theorem cstr_take_strncpy {n : ℕ} (b : CBuffer n) (src : List UInt8) {k : ℕ} (h : k ≤ n) :
    cstr ((b.strncpy src k).bytes.take k) = cstr (src.take k) := by
  have hle : (cstr (src.take k)).length ≤ k := by
    have hcstr := cstr_length_le (src.take k)
    simp only [List.length_take] at hcstr
    omega
  have hpad : (cstr (src.take k) ++ List.replicate (k - (cstr (src.take k)).length) 0).length
      = k := by
    simp only [List.length_append, List.length_replicate]
    omega
  rw [strncpy, copyAt_bytes b (by rw [hpad]; omega)]
  simp only [List.take_zero, List.nil_append]
  rw [List.take_append_of_le_length hpad.ge, List.take_of_length_le hpad.le]
  cases hrest : k - (cstr (src.take k)).length with
  | zero => simp
  | succ r => rw [List.replicate_succ, cstr_append_zero, cstr_cstr]

/-- Into a cleared array, with room for the terminator. -/
theorem strncpy_zero {n : ℕ} (src : List UInt8) {k : ℕ} (h : k < n) :
    (zero n).strncpy src k = ofPrefix n (cstr (src.take k)) := by
  have hle : (cstr (src.take k)).length ≤ k := by
    have hcstr := cstr_length_le (src.take k)
    simp only [List.length_take] at hcstr
    omega
  have hpad : (cstr (src.take k) ++ List.replicate (k - (cstr (src.take k)).length) 0).length
      = k := by
    simp only [List.length_append, List.length_replicate]
    omega
  have hzeros : List.replicate (k - (cstr (src.take k)).length) (0 : UInt8) ++
      List.replicate (n - k) 0 = List.replicate (n - (cstr (src.take k)).length) 0 := by
    rw [← List.replicate_add]
    congr 1
    omega
  ext1
  rw [strncpy, copyAt_bytes _ (by rw [hpad]; omega), hpad, ofPrefix_bytes (by omega), zero]
  simp only [List.take_zero, List.nil_append, zero_add, List.drop_replicate, List.append_assoc,
    hzeros]

theorem str_strncpy_zero {n : ℕ} (src : List UInt8) {k : ℕ} (h : k < n) :
    ((zero n).strncpy src k).str = cstr (src.take k) := by
  have hcstr := cstr_length_le (src.take k)
  simp only [List.length_take] at hcstr
  rw [strncpy_zero src h, str_ofPrefix (by omega), cstr_cstr]

/-- A terminated array is read in full without its last byte. -/
theorem cstr_take_of_terminated {n : ℕ} {b : CBuffer (n + 1)} (h : b.Terminated) :
    cstr (b.bytes.take n) = b.str := by
  have hlt : b.str.length < n + 1 := h
  rw [cstr_take]
  apply List.take_of_length_le
  rw [← str]
  omega

end CBuffer

end BoardComm
