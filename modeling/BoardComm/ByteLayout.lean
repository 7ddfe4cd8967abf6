import Mathlib.Tactic

/-!
# Little-endian records of fixed-width fields

A packed record is a list of fields, each a width in bytes and a natural number
value. `pack` writes the fields one after another, least significant byte
first, and `unpack` reads them back. Both directions are exact: reading undoes
writing when every value fits its width, and writing undoes reading always.
-/
namespace BoardComm.ByteLayout

/-- The `w` low bytes of `n`, least significant first. -/
def toLE : ℕ → ℕ → List UInt8
  | 0, _ => []
  | w + 1, n => UInt8.ofNat n :: toLE w (n / 256)

/-- The number whose little-endian bytes are given. -/
def ofLE : List UInt8 → ℕ
  | [] => 0
  | b :: bs => b.toNat + 256 * ofLE bs

@[simp] theorem toLE_length (w n : ℕ) : (toLE w n).length = w := by
  induction w generalizing n with
  | zero => rfl
  | succ w ih => simp [toLE, ih]

theorem ofLE_lt (bs : List UInt8) : ofLE bs < 256 ^ bs.length := by
  induction bs with
  | nil => simp [ofLE]
  | cons b bs ih =>
    have hb : b.toNat < 256 := b.toNat_lt
    simp only [ofLE, List.length_cons, pow_succ]
    omega

@[simp] theorem ofLE_toLE (w n : ℕ) (h : n < 256 ^ w) : ofLE (toLE w n) = n := by
  induction w generalizing n with
  | zero => simp only [pow_zero] at h; simp only [toLE, ofLE]; omega
  | succ w ih =>
    have hq : n / 256 < 256 ^ w := by
      rw [pow_succ] at h
      exact Nat.div_lt_of_lt_mul (by omega)
    have hb : (UInt8.ofNat n).toNat = n % 256 := by simp
    simp only [toLE, ofLE, ih _ hq, hb]
    omega

@[simp] theorem toLE_ofLE (bs : List UInt8) : toLE bs.length (ofLE bs) = bs := by
  induction bs with
  | nil => rfl
  | cons b bs ih =>
    have hb : b.toNat < 256 := b.toNat_lt
    have hq : (b.toNat + 256 * ofLE bs) / 256 = ofLE bs := by omega
    have hr : UInt8.ofNat (b.toNat + 256 * ofLE bs) = b := by
      apply UInt8.toNat_inj.mp
      simp only [UInt8.toNat_ofNat', Nat.reducePow]
      omega
    simp only [List.length_cons, ofLE, toLE, hq, hr, ih]

theorem toLE_ofLE_of_length {w : ℕ} {bs : List UInt8} (h : bs.length = w) :
    toLE w (ofLE bs) = bs := by
  subst h
  exact toLE_ofLE bs

/-- A string behind its length. -/
def counted (w : ℕ) (bs : List UInt8) : List UInt8 := toLE w bs.length ++ bs

@[simp] theorem counted_length (w : ℕ) (bs : List UInt8) :
    (counted w bs).length = w + bs.length := by
  simp [counted]

/-- A string whose length fits is found by reading the length. -/
theorem eq_counted_append {w : ℕ} {bs : List UInt8} (h : bs.length < 256 ^ w)
    (xs rest : List UInt8) :
    xs = counted w bs ++ rest ↔
      w ≤ xs.length ∧ ofLE (xs.take w) = bs.length ∧ xs.drop w = bs ++ rest := by
  constructor
  · rintro rfl
    have hlen : (toLE w bs.length).length = w := toLE_length w bs.length
    rw [counted, List.append_assoc, List.take_left' hlen, List.drop_left' hlen, ofLE_toLE w _ h,
      List.length_append, hlen]
    exact ⟨Nat.le_add_right _ _, rfl, rfl⟩
  · rintro ⟨hw, hlen, hrest⟩
    have htake : toLE w (ofLE (xs.take w)) = xs.take w :=
      toLE_ofLE_of_length (List.length_take_of_le hw)
    rw [counted, List.append_assoc, ← hlen, htake, ← hrest, List.take_append_drop]

theorem counted_append_inj {w : ℕ} {bs bs' rest rest' : List UInt8} (h : bs.length < 256 ^ w)
    (h' : bs'.length < 256 ^ w) :
    counted w bs ++ rest = counted w bs' ++ rest' ↔ bs = bs' ∧ rest = rest' := by
  obtain ⟨-, hlen, hrest⟩ := (eq_counted_append h (counted w bs ++ rest) rest).mp rfl
  constructor
  · intro heq
    obtain ⟨-, hlen', hrest'⟩ := (eq_counted_append h' _ _).mp heq
    exact List.append_inj (hrest.symm.trans hrest') (hlen.symm.trans hlen')
  · rintro ⟨rfl, rfl⟩
    rfl

/-- Write the fields of a record, each given by its width and its value. -/
def pack : List (ℕ × ℕ) → List UInt8
  | [] => []
  | (w, v) :: fs => toLE w v ++ pack fs

/-- Read consecutive fields of the given widths. -/
def unpack : List ℕ → List UInt8 → List ℕ
  | [], _ => []
  | w :: ws, bs => ofLE (bs.take w) :: unpack ws (bs.drop w)

@[simp] theorem pack_length (fs : List (ℕ × ℕ)) :
    (pack fs).length = (fs.map Prod.fst).sum := by
  induction fs with
  | nil => rfl
  | cons f fs ih => simp [pack, ih]

theorem pack_append (fs gs : List (ℕ × ℕ)) : pack (fs ++ gs) = pack fs ++ pack gs := by
  induction fs with
  | nil => rfl
  | cons f fs ih => simp only [List.cons_append, pack, ih, List.append_assoc]

theorem unpack_append_widths (ws vs : List ℕ) (bs : List UInt8) :
    unpack (ws ++ vs) bs = unpack ws bs ++ unpack vs (bs.drop ws.sum) := by
  induction ws generalizing bs with
  | nil => simp [unpack]
  | cons w ws ih => simp only [List.cons_append, unpack, ih, List.drop_drop, List.sum_cons]

/-- Reading a written record returns its values, whatever bytes follow it. -/
theorem unpack_pack_append (fs : List (ℕ × ℕ)) (rest : List UInt8)
    (h : ∀ f ∈ fs, f.2 < 256 ^ f.1) :
    unpack (fs.map Prod.fst) (pack fs ++ rest) = fs.map Prod.snd := by
  induction fs with
  | nil => rfl
  | cons f fs ih =>
    obtain ⟨w, v⟩ := f
    have hv : v < 256 ^ w := h (w, v) (by simp)
    have hrest := ih (fun g hg => h g (List.mem_cons_of_mem _ hg))
    have htake : ((pack ((w, v) :: fs)) ++ rest).take w = toLE w v := by
      simp [pack]
    have hdrop : ((pack ((w, v) :: fs)) ++ rest).drop w = pack fs ++ rest := by
      simp [pack]
    simp only [List.map_cons, unpack, htake, hdrop, ofLE_toLE w v hv, hrest]

/-- Writing the values read from a byte string reproduces its leading bytes. -/
theorem pack_unpack (ws : List ℕ) (bs : List UInt8) (h : ws.sum ≤ bs.length) :
    pack (ws.zip (unpack ws bs)) = bs.take ws.sum := by
  induction ws generalizing bs with
  | nil => simp [pack]
  | cons w ws ih =>
    simp only [List.sum_cons] at h
    have hw : (bs.take w).length = w := by simp; omega
    have hrest := ih (bs.drop w) (by simp; omega)
    simp only [unpack, List.zip_cons_cons, pack, toLE_ofLE_of_length hw, hrest, List.sum_cons]
    rw [← List.take_add]

/-- A field of `w` bytes is below `256 ^ w`. -/
theorem ofLE_take_lt (w : ℕ) (bs : List UInt8) : ofLE (bs.take w) < 256 ^ w :=
  (ofLE_lt _).trans_le (Nat.pow_le_pow_right (by decide) (List.length_take_le w bs))

/-- Only the bytes covered by the fields are read. -/
theorem unpack_append (ws : List ℕ) (bs rest : List UInt8) (h : ws.sum ≤ bs.length) :
    unpack ws (bs ++ rest) = unpack ws bs := by
  induction ws generalizing bs with
  | nil => rfl
  | cons w ws ih =>
    simp only [List.sum_cons] at h
    have hw : w ≤ bs.length := by omega
    simp only [unpack, List.take_append_of_le_length hw, List.drop_append_of_le_length hw]
    rw [ih (bs.drop w) (by simp; omega)]

end BoardComm.ByteLayout
