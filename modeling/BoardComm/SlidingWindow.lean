import BoardComm.CBuffer

/-!
# A sliding window in a fixed array

The bytes in use lie between an offset and a length. They are taken from the
front, which moves the offset, appended behind the end, and moved to the front
of the array when the end is reached. Seen from outside it is a list of bytes.
-/
namespace BoardComm

/-- An array with the part of it that is in use. -/
structure Window (n : ℕ) where
  buf : CBuffer n
  off : ℕ
  len : ℕ
  deriving DecidableEq, Repr

namespace Window

variable {n : ℕ}

/-- The bytes in use. -/
def held (w : Window n) : List UInt8 := (w.buf.bytes.drop w.off).take w.len

/-- The part in use lies in the array. -/
def Inside (w : Window n) : Prop := w.off + w.len ≤ n

/-- `memmove` to the front of the array. -/
def compact (w : Window n) : Window n := ⟨w.buf.copyAt 0 w.held, 0, w.len⟩

/-- `memcpy` behind the bytes in use. -/
def append (w : Window n) (data : List UInt8) : Window n :=
  ⟨w.buf.copyAt (w.off + w.len) data, w.off, w.len + data.length⟩

/-- Give up bytes at the front; an empty window starts at the front of the array. -/
def consume (w : Window n) (k : ℕ) : Window n :=
  ⟨w.buf, if w.len - k = 0 then 0 else w.off + k, w.len - k⟩

variable {w : Window n}

@[simp] theorem held_length (h : w.Inside) : w.held.length = w.len := by
  unfold Inside at h
  simp only [held, List.length_take, List.length_drop, CBuffer.length_bytes]
  omega

@[simp] theorem compact_off (w : Window n) : w.compact.off = 0 := rfl

@[simp] theorem compact_len (w : Window n) : w.compact.len = w.len := rfl

theorem compact_inside (h : w.Inside) : w.compact.Inside := by
  unfold Inside at h ⊢
  rw [compact_off, compact_len]
  omega

/-- Moving the bytes keeps them. -/
theorem compact_held (h : w.Inside) : w.compact.held = w.held := by
  have hlen := held_length h
  unfold Inside at h
  have hmove := CBuffer.copyAt_bytes w.buf (by omega : 0 + w.held.length ≤ n)
  have hread : w.compact.held = ((w.buf.copyAt 0 w.held).bytes.drop 0).take w.len := rfl
  rw [hread, hmove, List.take_zero, List.nil_append, List.drop_zero, ← hlen, List.take_left]

@[simp] theorem append_off (w : Window n) (data : List UInt8) : (w.append data).off = w.off := rfl

@[simp] theorem append_len (w : Window n) (data : List UInt8) :
    (w.append data).len = w.len + data.length := rfl

theorem append_inside {data : List UInt8} (h : w.off + w.len + data.length ≤ n) :
    (w.append data).Inside := by
  unfold Inside
  rw [append_off, append_len]
  omega

/-- What is appended stands behind the bytes that were there. -/
theorem append_held {data : List UInt8} (h : w.off + w.len + data.length ≤ n) :
    (w.append data).held = w.held ++ data := by
  have hsize := w.buf.size_eq
  have hread : (w.append data).held =
      ((w.buf.copyAt (w.off + w.len) data).bytes.drop w.off).take (w.len + data.length) := rfl
  have hfront : ((w.buf.bytes.take (w.off + w.len)).drop w.off) = w.held := by
    rw [List.drop_take, Nat.add_sub_cancel_left]
    rfl
  have hlen : (w.held ++ data).length = w.len + data.length := by
    rw [List.length_append, held_length (by unfold Inside; omega)]
  rw [hread, CBuffer.copyAt_bytes w.buf h, List.append_assoc, List.drop_append_of_le_length
    (by rw [List.length_take]; omega), hfront, ← List.append_assoc, List.take_left' hlen]

theorem consume_inside (h : w.Inside) (k : ℕ) : (w.consume k).Inside := by
  unfold Inside consume at *
  simp only
  split_ifs <;> omega

/-- What is given up are the first bytes. -/
theorem consume_held (w : Window n) (k : ℕ) : (w.consume k).held = w.held.drop k := by
  unfold held consume
  simp only
  rw [List.drop_take, List.drop_drop]
  by_cases hempty : w.len - k = 0
  · rw [hempty, List.take_zero, List.take_zero]
  · rw [if_neg hempty]

end Window

end BoardComm
