import BoardComm.CheckedAccess
import BoardComm.ShmRing

/-!
# What a ring of arbitrary contents is accessed at

The peer maps the counters and the size of a ring, and may store anything there. The
calls divide by the size that they find, and address the data area by remainders of
it; the data area has the size that it was mapped with.
-/
namespace BoardComm.ShmRing

open Checked

/-- What a call reads or writes by index: the mapped data area, the local variable for
a length, and the array of the caller. -/
inductive RingArea
  | data
  | length
  | caller
  deriving DecidableEq, Repr

section Calls

/-- The copying loop of `bc_shm_ring_write`, from its pass `k` on. -/
def copyInChecked (size start : UInt32) :
    ℕ → List UInt8 → (ℕ → UInt8) → Run RingArea (ℕ → UInt8)
  | _, [], data => .ok data
  | k, b :: bs, data => do
    let p ← remainder (start + .ofNat k) size
    access .data bcShmRingSize p.toNat
    copyInChecked size start (k + 1) bs (Function.update data p.toNat b)

/-- The copying loop of `bc_shm_ring_peek_len` and `bc_shm_ring_read`, into an area of
`bound` bytes. -/
def copyOutChecked (size start : UInt32) (data : ℕ → UInt8) (into : RingArea) (bound : ℕ) :
    ℕ → ℕ → Run RingArea (List UInt8)
  | _, 0 => .ok []
  | k, n + 1 => do
    let p ← remainder (start + .ofNat k) size
    access .data bcShmRingSize p.toNat
    access into bound k
    let bs ← copyOutChecked size start data into bound (k + 1) n
    .ok (data p.toNat :: bs)

/-- `bc_shm_ring_write`, access by access. -/
def bcShmRingWriteChecked (ring : BcShmRing) (data : List UInt8) :
    Run RingArea (BcStatus × BcShmRing) :=
  if data.length > bcShmRingSize - 4 then .ok (.invalid, ring)
  else if (ringSpace ring).toNat < 4 + data.length then .ok (.nomem, ring)
  else do
    let head ← remainder ring.head ring.size
    let cells ← copyInChecked ring.size head 0 (ByteLayout.toLE 4 data.length) ring.data
    let head ← remainder (head + 4) ring.size
    let cells ← copyInChecked ring.size head 0 data cells
    .ok (.ok, { ring with
      head := ring.head + (4 + UInt32.ofNat data.length)
      data := cells })

/-- `bc_shm_ring_peek_len`, access by access. -/
def bcShmRingPeekLenChecked (ring : BcShmRing) : Run RingArea (Except BcStatus ℕ) :=
  let avail := ringData ring
  if avail < 4 then .ok (.error .notFound)
  else do
    let tail ← remainder ring.tail ring.size
    let bytes ← copyOutChecked ring.size tail ring.data .length 4 0 4
    let len := ByteLayout.ofLE bytes
    if avail.toNat < 4 + len then .ok (.error .notFound) else .ok (.ok len)

/-- `bc_shm_ring_read` into an array of `cap` bytes, access by access. -/
def bcShmRingReadChecked (ring : BcShmRing) (cap : ℕ) :
    Run RingArea (Except BcStatus (List UInt8) × BcShmRing) := do
  match ← bcShmRingPeekLenChecked ring with
  | .error rc => .ok (.error rc, ring)
  | .ok len =>
    if len > cap then .ok (.error .invalid, ring)
    else
      let tail ← remainder (ring.tail + 4) ring.size
      let bytes ← copyOutChecked ring.size tail ring.data .caller cap 0 len
      .ok (.ok bytes, { ring with tail := ring.tail + (4 + UInt32.ofNat len) })

end Calls

section Cells

variable {size start : UInt32} {data cells : ℕ → UInt8} {k n : ℕ} {bs : List UInt8}

/-- Pass `k` of a loop finds its byte in the data area. -/
def Inside (size start : UInt32) (k : ℕ) : Prop :=
  size ≠ 0 ∧ ((start + .ofNat k) % size).toNat < bcShmRingSize

theorem inside_from_succ :
    (∀ j < n + 1, Inside size start (k + j)) ↔
      Inside size start k ∧ ∀ j < n, Inside size start (k + 1 + j) := by
  rw [Nat.forall_lt_succ_left, Nat.add_zero]
  simp only [Nat.add_assoc, Nat.add_comm 1]

theorem copyInChecked_eq_ok :
    copyInChecked size start k bs data = .ok cells ↔
      (∀ j < bs.length, Inside size start (k + j)) ∧
        cells = copyIn size start (.ofNat k) bs data := by
  induction bs generalizing k data with
  | nil => simp [copyInChecked, copyIn, eq_comm]
  | cons b bs ih =>
    rw [copyInChecked, List.length_cons, inside_from_succ, copyIn]
    simp only [bind_eq_ok, remainder_eq_ok, access_eq_ok, ih, exists_const, UInt32.ofNat_add]
    constructor
    · rintro ⟨p, ⟨hsize, rfl⟩, hp, hrest, hcells⟩
      exact ⟨⟨⟨hsize, hp⟩, hrest⟩, hcells⟩
    · rintro ⟨⟨⟨hsize, hp⟩, hrest⟩, hcells⟩
      exact ⟨_, ⟨hsize, rfl⟩, hp, hrest, hcells⟩

theorem copyOutChecked_eq_ok {into : RingArea} {bound : ℕ} (hroom : k + n ≤ bound) :
    copyOutChecked size start data into bound k n = .ok bs ↔
      (∀ j < n, Inside size start (k + j)) ∧ bs = copyOut size start data (.ofNat k) n := by
  induction n generalizing k bs with
  | zero => simp [copyOutChecked, copyOut, eq_comm]
  | succ n ih =>
    have hfits : k < bound := by omega
    rw [copyOutChecked, inside_from_succ, copyOut]
    simp only [bind_eq_ok, remainder_eq_ok, access_eq_ok, ih (by omega : k + 1 + n ≤ bound),
      exists_const, UInt32.ofNat_add]
    constructor
    · rintro ⟨p, ⟨hsize, rfl⟩, hp, -, rest, ⟨hrest, rfl⟩, hbs⟩
      exact ⟨⟨⟨hsize, hp⟩, hrest⟩, (Except.ok.inj hbs).symm⟩
    · rintro ⟨⟨⟨hsize, hp⟩, hrest⟩, rfl⟩
      exact ⟨_, ⟨hsize, rfl⟩, hp, hfits, _, ⟨hrest, rfl⟩, rfl⟩

theorem index_toNat (k : ℕ) :
    ((start + .ofNat k) % size).toNat = (start.toNat + k) % 2 ^ 32 % size.toNat := by
  rw [UInt32.toNat_mod, UInt32.toNat_add, UInt32.toNat_ofNat', Nat.add_mod_mod]

/-- From an index below the size, a loop goes up to the size before it starts anew. -/
theorem inside_iff (hstart : start.toNat < size.toNat) :
    (∀ j < n, Inside size start j) ↔
      n = 0 ∨ size.toNat ≤ bcShmRingSize ∨ start.toNat + n ≤ bcShmRingSize := by
  have hsize : size ≠ 0 := by
    rintro rfl
    exact absurd hstart (Nat.not_lt_zero _)
  constructor
  · intro h
    by_contra hbeyond
    push Not at hbeyond
    obtain ⟨hn, hlarge, hlong⟩ := hbeyond
    have hfirst := (h 0 (Nat.pos_of_ne_zero hn)).2
    rw [index_toNat, Nat.add_zero, Nat.mod_eq_of_lt start.toNat_lt, Nat.mod_eq_of_lt hstart]
      at hfirst
    -- the pass that leaves the data area
    have hpass := (h (bcShmRingSize - start.toNat) (by omega)).2
    have hreached : start.toNat + (bcShmRingSize - start.toNat) = bcShmRingSize := by omega
    have hwidth : bcShmRingSize % 2 ^ 32 = bcShmRingSize := by decide
    rw [index_toNat, hreached, hwidth, Nat.mod_eq_of_lt hlarge] at hpass
    exact lt_irrefl _ hpass
  · rintro (rfl | hsmall | hfits) j hj
    · exact absurd hj (Nat.not_lt_zero j)
    · refine ⟨hsize, ?_⟩
      rw [index_toNat]
      exact (Nat.mod_lt _ (by omega)).trans_le hsmall
    · refine ⟨hsize, ?_⟩
      rw [index_toNat]
      calc (start.toNat + j) % 2 ^ 32 % size.toNat ≤ start.toNat + j :=
            (Nat.mod_le _ _).trans (Nat.mod_le _ _)
        _ < bcShmRingSize := by omega

end Cells

section Tolerance

variable {ring : BcShmRing} {data : List UInt8} {cap : ℕ}

/-- The length in front of the next message, whatever stands there. -/
def prefixLen (ring : BcShmRing) : ℕ :=
  ByteLayout.ofLE (copyOut ring.size (ring.tail % ring.size) ring.data 0 4)

/-- From an index on, so many bytes are addressed inside the data area: no size in the
header lets a loop leave it, or the loop ends in time. -/
def StaysInside (ring : BcShmRing) (start : UInt32) (n : ℕ) : Prop :=
  ring.size.toNat ≤ bcShmRingSize ∨ start.toNat + n ≤ bcShmRingSize

/-- What the header of a ring has to satisfy at a write. -/
def WriteTolerated (ring : BcShmRing) (n : ℕ) : Prop :=
  n > bcShmRingSize - 4 ∨ (ringSpace ring).toNat < 4 + n ∨
    ring.size ≠ 0 ∧ StaysInside ring (ring.head % ring.size) (4 + n)

/-- What it has to satisfy where the length of the next message is read. -/
def PeekTolerated (ring : BcShmRing) : Prop :=
  ringData ring < 4 ∨ ring.size ≠ 0 ∧ StaysInside ring (ring.tail % ring.size) 4

/-- What it has to satisfy, with the length that stands in the ring, at a read. -/
def ReadTolerated (ring : BcShmRing) (cap : ℕ) : Prop :=
  PeekTolerated ring ∧
    (ringData ring < 4 ∨ (ringData ring).toNat < 4 + prefixLen ring ∨ cap < prefixLen ring ∨
      prefixLen ring = 0 ∨ StaysInside ring ((ring.tail + 4) % ring.size) (prefixLen ring))

theorem mod_size_lt (hsize : ring.size ≠ 0) (counter : UInt32) :
    (counter % ring.size).toNat < ring.size.toNat := by
  have hpos : 0 < ring.size.toNat := by
    apply Nat.pos_of_ne_zero
    intro hzero
    exact hsize (UInt32.toNat_inj.mp hzero)
  rw [UInt32.toNat_mod]
  exact Nat.mod_lt _ hpos

/-- The length and the message behind it stay inside together. -/
theorem staysInside_add {start : UInt32} {n : ℕ} (hstart : start.toNat < ring.size.toNat) :
    StaysInside ring start 4 ∧ (n = 0 ∨ StaysInside ring ((start + 4) % ring.size) n) ↔
      StaysInside ring start (4 + n) := by
  unfold StaysInside
  by_cases hsmall : ring.size.toNat ≤ bcShmRingSize
  · simp [hsmall]
  · by_cases hfits : start.toNat + 4 ≤ bcShmRingSize
    · have hbehind : ((start + 4) % ring.size).toNat = start.toNat + 4 := by
        have hwidth : start.toNat + 4 < 2 ^ 32 := hfits.trans_lt (by decide)
        have hfour : (4 : UInt32).toNat = 4 := rfl
        rw [UInt32.toNat_mod, UInt32.toNat_add, hfour, Nat.mod_eq_of_lt hwidth]
        exact Nat.mod_eq_of_lt (by omega)
      omega
    · omega

theorem bcShmRingWriteChecked_eq_ok {r : BcStatus × BcShmRing} :
    bcShmRingWriteChecked ring data = .ok r ↔
      WriteTolerated ring data.length ∧ r = bcShmRingWrite ring data := by
  unfold bcShmRingWriteChecked bcShmRingWrite WriteTolerated
  by_cases hlong : data.length > bcShmRingSize - 4
  · simp [hlong, eq_comm]
  by_cases hfull : (ringSpace ring).toNat < 4 + data.length
  · simp [hlong, hfull, eq_comm]
  by_cases hsize : ring.size = 0
  · simp [hlong, hfull, hsize]
  have hhead := mod_size_lt hsize ring.head
  have hbehind := mod_size_lt hsize (ring.head % ring.size + 4)
  have hfour : (ByteLayout.toLE 4 data.length).length = 4 := ByteLayout.toLE_length ..
  rw [← staysInside_add hhead]
  simp only [hlong, hfull, if_false, bind_eq_ok, remainder_eq_ok, copyInChecked_eq_ok, hfour,
    Nat.zero_add, false_or]
  constructor
  · rintro ⟨head, ⟨-, rfl⟩, cells, ⟨hlen, rfl⟩, behind, ⟨-, rfl⟩, cells', ⟨hdata, rfl⟩, hr⟩
    have hlen' := (inside_iff hhead).mp hlen
    have hdata' := (inside_iff hbehind).mp hdata
    exact ⟨⟨hsize, hlen'.resolve_left (by decide), hdata'⟩, (Except.ok.inj hr).symm⟩
  · rintro ⟨⟨-, hlen, hdata⟩, rfl⟩
    exact ⟨_, ⟨hsize, rfl⟩, _, ⟨(inside_iff hhead).mpr (Or.inr hlen), rfl⟩, _, ⟨hsize, rfl⟩, _,
      ⟨(inside_iff hbehind).mpr hdata, rfl⟩, rfl⟩

theorem bcShmRingPeekLenChecked_eq_ok {r : Except BcStatus ℕ} :
    bcShmRingPeekLenChecked ring = .ok r ↔ PeekTolerated ring ∧ r = bcShmRingPeekLen ring := by
  unfold bcShmRingPeekLenChecked bcShmRingPeekLen PeekTolerated
  by_cases hempty : ringData ring < 4
  · simp [hempty, eq_comm]
  by_cases hsize : ring.size = 0
  · simp [hempty, hsize]
  have htail := mod_size_lt hsize ring.tail
  have hzero : UInt32.ofNat 0 = 0 := rfl
  simp only [hempty, if_false, bind_eq_ok, remainder_eq_ok, hzero,
    copyOutChecked_eq_ok (show 0 + 4 ≤ 4 from le_refl _), Nat.zero_add, false_or]
  constructor
  · rintro ⟨tail, ⟨-, rfl⟩, bytes, ⟨hlen, rfl⟩, hr⟩
    have hlen' := (inside_iff htail).mp hlen
    refine ⟨⟨hsize, hlen'.resolve_left (by decide)⟩, ?_⟩
    rw [← apply_ite Except.ok] at hr
    exact (Except.ok.inj hr).symm
  · rintro ⟨⟨-, hlen⟩, rfl⟩
    refine ⟨_, ⟨hsize, rfl⟩, _, ⟨(inside_iff htail).mpr (Or.inr hlen), rfl⟩, ?_⟩
    rw [← apply_ite Except.ok]

theorem bcShmRingPeekLen_eq (ring : BcShmRing) :
    bcShmRingPeekLen ring =
      if ringData ring < 4 ∨ (ringData ring).toNat < 4 + prefixLen ring then .error .notFound
      else .ok (prefixLen ring) := by
  unfold bcShmRingPeekLen prefixLen
  by_cases hempty : ringData ring < 4
  · simp [hempty]
  · simp [hempty]

theorem PeekTolerated.size_ne (h : PeekTolerated ring) (hdata : ¬ ringData ring < 4) :
    ring.size ≠ 0 :=
  (h.resolve_left hdata).1

theorem bcShmRingReadChecked_eq_ok {r : Except BcStatus (List UInt8) × BcShmRing} :
    bcShmRingReadChecked ring cap = .ok r ↔
      ReadTolerated ring cap ∧ r = bcShmRingRead ring cap := by
  unfold bcShmRingReadChecked bcShmRingRead ReadTolerated
  simp only [bind_eq_ok, bcShmRingPeekLenChecked_eq_ok, and_assoc, exists_and_left, exists_eq_left]
  apply and_congr_right
  intro hpeek
  by_cases hnone : ringData ring < 4 ∨ (ringData ring).toNat < 4 + prefixLen ring
  · rw [bcShmRingPeekLen_eq, if_pos hnone]
    constructor
    · intro hr
      exact ⟨hnone.imp_right Or.inl, (Except.ok.inj hr).symm⟩
    · rintro ⟨-, rfl⟩
      rfl
  obtain ⟨hdata, hwhole⟩ := not_or.mp hnone
  rw [bcShmRingPeekLen_eq, if_neg hnone]
  by_cases hlong : cap < prefixLen ring
  · simp [hlong, eq_comm]
  have hroom : 0 + prefixLen ring ≤ cap := by omega
  have hsize := hpeek.size_ne hdata
  have hzero : UInt32.ofNat 0 = 0 := rfl
  simp only [gt_iff_lt, hlong, if_false, bind_eq_ok, remainder_eq_ok, hzero,
    copyOutChecked_eq_ok hroom, hdata, hwhole, false_or, Nat.zero_add]
  have hinside := inside_iff (n := prefixLen ring) (mod_size_lt hsize (ring.tail + 4))
  constructor
  · rintro ⟨tail, ⟨-, rfl⟩, bytes, ⟨hcells, rfl⟩, hr⟩
    exact ⟨hinside.mp hcells, (Except.ok.inj hr).symm⟩
  · rintro ⟨hcells, rfl⟩
    exact ⟨_, ⟨hsize, rfl⟩, _, ⟨hinside.mpr hcells, rfl⟩, rfl⟩

end Tolerance

section Use

/-- A call of the daemon on one of its rings. -/
inductive RingUse
  | write (data : List UInt8)
  | peek
  | read
  deriving DecidableEq, Repr

/-- The condition on the header, for every call. -/
def Tolerated (capacity : ℕ) (ring : BcShmRing) : RingUse → Prop
  | .write data => WriteTolerated ring data.length
  | .peek => PeekTolerated ring
  | .read => ReadTolerated ring capacity

/-- No division by zero, no byte outside the data area and none behind the array of the
caller. -/
def UseSafe (capacity : ℕ) (ring : BcShmRing) : RingUse → Prop
  | .write data => Safe (bcShmRingWriteChecked ring data)
  | .peek => Safe (bcShmRingPeekLenChecked ring)
  | .read => Safe (bcShmRingReadChecked ring capacity)

/-- The headers that a call survives, whatever the data area holds. -/
theorem ring_use_safe_iff (capacity : ℕ) (ring : BcShmRing) (use : RingUse) :
    UseSafe capacity ring use ↔ Tolerated capacity ring use := by
  cases use with
  | write data => exact safe_iff fun _ => bcShmRingWriteChecked_eq_ok
  | peek => exact safe_iff fun _ => bcShmRingPeekLenChecked_eq_ok
  | read => exact safe_iff fun _ => bcShmRingReadChecked_eq_ok

/-- A header of zeros with a counter ahead makes a call divide by zero, and with a size
above that of the mapping a byte behind the data area is read, and one is written. -/
theorem ring_header_trusted :
    bcShmRingPeekLenChecked ⟨4, 0, 0, fun _ => 0⟩ = .error .divideByZero ∧
    bcShmRingPeekLenChecked ⟨.ofNat (bcShmRingSize + 4), .ofNat bcShmRingSize,
      .ofNat (2 * bcShmRingSize), fun _ => 0⟩ = .error (.outside .data bcShmRingSize) ∧
    bcShmRingWriteChecked ⟨.ofNat bcShmRingSize, .ofNat bcShmRingSize,
      .ofNat (2 * bcShmRingSize), fun _ => 0⟩ [] = .error (.outside .data bcShmRingSize) :=
  ⟨rfl, rfl, rfl⟩

/-- The two sides of a ring that nobody else writes to never leave it. -/
theorem Holds.tolerated {ring : BcShmRing} {t : ℕ} {queue : List (List UInt8)}
    (h : Holds ring t queue) (capacity : ℕ) (use : RingUse) : Tolerated capacity ring use := by
  have hinside : ∀ start n, StaysInside ring start n := by
    intro start n
    left
    rw [h.size]
    decide
  have hsize : ring.size ≠ 0 := by
    rw [h.size]
    decide
  cases use with
  | write data => exact Or.inr (Or.inr ⟨hsize, hinside _ _⟩)
  | peek => exact Or.inr ⟨hsize, hinside _ _⟩
  | read =>
    exact ⟨Or.inr ⟨hsize, hinside _ _⟩, Or.inr (Or.inr (Or.inr (Or.inr (hinside _ _))))⟩

end Use

end BoardComm.ShmRing
