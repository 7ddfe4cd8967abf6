import BoardComm.Reassembly

/-!
# What a slot of the reassembly table holds

`bc_reasm_feed` claims a slot before it has looked at the place of the piece, and
it never clears the payload of a slot. The first means that a piece it refuses
can still take a slot away; the second, that a message whose first piece is
short is handed out with bytes of an earlier one.
-/
namespace BoardComm

section Refusal

/-- `bc_reasm_feed` on the table. -/
def reasmStep (reasm : BcReasm) (frag : BcMessage) : BcReasm := (bcReasmFeed reasm frag).2.1

/-- If the piece is refused, every slot is as it was. -/
def RefusedUnchanged (reasm : BcReasm) (frag : BcMessage) : Prop :=
  (bcReasmFeed reasm frag).1 = .invalid ∨ (bcReasmFeed reasm frag).1 = .nomem →
    reasmStep reasm frag = reasm

/-- The checks of `bc_reasm_feed` before the look-up. -/
def BcMessage.GoodHeader (frag : BcMessage) : Prop :=
  bcFragHdrSize ≤ frag.payloadLen ∧ frag.fragTotal ≠ 0 ∧ frag.fragIndex < frag.fragTotal

instance (frag : BcMessage) : Decidable frag.GoodHeader :=
  inferInstanceAs (Decidable (_ ∧ _ ∧ _))

/-- The bytes of the piece fit the payload at the place its index gives them. -/
def BcMessage.Fits (frag : BcMessage) : Prop :=
  frag.fragIndex * bcFragChunkMax + (frag.payloadLen - bcFragHdrSize) ≤ bcMaxPayloadLen

instance BcMessage.decidableFits (frag : BcMessage) : Decidable frag.Fits :=
  inferInstanceAs (Decidable (_ ≤ _))

/-- The piece of a message that no slot holds gets a free slot, and then turns out
not to fit the payload. -/
structure ClaimsInVain (reasm : BcReasm) (frag : BcMessage) : Prop where
  header : frag.GoodHeader
  new : ∀ i, ¬ (reasm.slots i).Holds frag.seq frag.srcNode
  room : ∃ i, (reasm.slots i).active = false
  past : ¬ frag.Fits

theorem bcReasmFeed_of_badHeader {frag : BcMessage} (h : ¬ frag.GoodHeader) (reasm : BcReasm) :
    bcReasmFeed reasm frag = (.invalid, reasm, none) := by
  unfold BcMessage.GoodHeader at h
  unfold bcReasmFeed
  split_ifs with hlen hindex
  · rfl
  · rfl
  · exact absurd ⟨by omega, by omega, by omega⟩ h

theorem bcReasmFeed_of_goodHeader {frag : BcMessage} (h : frag.GoodHeader) (reasm : BcReasm) :
    bcReasmFeed reasm frag =
      match findSlot reasm frag.seq frag.srcNode with
      | none => (.nomem, reasm, none)
      | some i =>
        let r := feedSlot (reasm.slots i) frag frag.fragIndex frag.fragTotal
        (r.1, reasm.set i r.2.1, r.2.2) := by
  obtain ⟨hlen, htotal, hindex⟩ := h
  unfold bcReasmFeed
  split_ifs with hshort hpast
  · exact absurd hlen (by omega)
  · omega
  · rfl

@[simp] theorem BcReasm.set_self (reasm : BcReasm) (i : Fin bcReasmSlots) :
    reasm.set i (reasm.slots i) = reasm := by
  simp [BcReasm.set]

/-- A slot in use refuses a piece without a trace. -/
theorem feedSlot_refused_active {slot : BcReasmSlot} (hact : slot.active = true)
    {frag : BcMessage} {index total : ℕ}
    (h : (feedSlot slot frag index total).1 = .invalid ∨
      (feedSlot slot frag index total).1 = .nomem) :
    (feedSlot slot frag index total).2.1 = slot := by
  unfold feedSlot at h ⊢
  simp only [hact, true_and, if_true] at h ⊢
  split_ifs at h ⊢ <;> simp_all

/-- A free slot refuses only a piece that does not fit, and is claimed for it. -/
theorem feedSlot_free {slot : BcReasmSlot} (hfree : slot.active = false) (frag : BcMessage)
    (index total : ℕ) :
    let r := feedSlot slot frag index total
    (r.1 = .invalid ∧ r.2.1.active = true ∧
        bcMaxPayloadLen < index * bcFragChunkMax + (frag.payloadLen - bcFragHdrSize)) ∨
      ((r.1 = .ok ∨ r.1 = .notFound) ∧
        index * bcFragChunkMax + (frag.payloadLen - bcFragHdrSize) ≤ bcMaxPayloadLen) := by
  unfold feedSlot
  simp only [hfree, Bool.false_eq_true, false_and, if_false]
  split_ifs with hpast hbit hmore
  · exact .inl ⟨rfl, rfl, hpast⟩
  · exact .inr ⟨.inr rfl, by omega⟩
  · exact .inr ⟨.inr rfl, by omega⟩
  · exact .inr ⟨.inl rfl, by omega⟩

/-- One call in any table. -/
theorem refusedUnchanged_iff (reasm : BcReasm) (frag : BcMessage) :
    RefusedUnchanged reasm frag ↔ ¬ ClaimsInVain reasm frag := by
  unfold RefusedUnchanged reasmStep
  by_cases hheader : frag.GoodHeader
  swap
  · rw [bcReasmFeed_of_badHeader hheader]
    exact ⟨fun _ h => hheader h.header, fun _ _ => rfl⟩
  have hspec := findSlot_spec reasm frag.seq frag.srcNode
  rw [bcReasmFeed_of_goodHeader hheader]
  cases hfind : findSlot reasm frag.seq frag.srcNode with
  | none =>
    rw [hfind] at hspec
    refine ⟨fun _ h => ?_, fun _ _ => rfl⟩
    obtain ⟨i, hi⟩ := h.room
    simp [(hspec i).1] at hi
  | some i =>
    rw [hfind] at hspec
    rcases hspec with hholds | ⟨hfree, hnew⟩
    · refine ⟨fun _ h => h.new i hholds, fun _ hrefused => ?_⟩
      simp only [feedSlot_refused_active hholds.1 hrefused, BcReasm.set_self]
    · have hcases := feedSlot_free hfree frag frag.fragIndex frag.fragTotal
      simp only at hcases ⊢
      rcases hcases with ⟨hinvalid, hactive, hpast⟩ | ⟨hanswer, hfits⟩
      · constructor
        · intro hunchanged
          have hslot := congrArg (fun r : BcReasm => (r.slots i).active)
            (hunchanged (.inl hinvalid))
          simp [BcReasm.set, hactive, hfree] at hslot
        · intro hvain
          exact absurd ⟨hheader, hnew, ⟨i, hfree⟩, by unfold BcMessage.Fits; omega⟩ hvain
      · refine ⟨fun _ h => h.past hfits, fun _ hrefused => ?_⟩
        rcases hanswer with hok | hmore
        · simp [hok] at hrefused
        · simp [hmore] at hrefused

/-- A refused piece leaves the table unchanged, except when it claims a free slot in
vain; so the refusals of a run leave no trace exactly when none of its pieces does. -/
theorem refused_unchanged_iff (reasm : BcReasm) (frag : BcMessage) (frags : List BcMessage) :
    (RefusedUnchanged reasm frag ↔ ¬ ClaimsInVain reasm frag) ∧
      (Runs.Meets reasmStep RefusedUnchanged reasm frags ↔
        Runs.Meets reasmStep (fun reasm frag => ¬ ClaimsInVain reasm frag) reasm frags) := by
  refine ⟨refusedUnchanged_iff reasm frag, ?_⟩
  simp only [Runs.Meets, refusedUnchanged_iff]

/-- A piece with the given index, total and number of bytes behind its header. -/
def rawPiece (index total : ℕ) (chunk : List UInt8) : BcMessage :=
  { BcMessage.zero with
    srcNode := 2, seq := 5, topic := .ofPrefix _ [116],
    payload := .ofPrefix _ (ByteLayout.toLE 2 index ++ ByteLayout.toLE 2 total
      ++ List.replicate 4 0 ++ chunk),
    payloadLen := bcFragHdrSize + chunk.length }

/-- Nine bytes at index one: the first slot is taken for them and they are refused. -/
theorem refused_piece_takes_slot :
    ¬ ∀ reasm frag, (∃ fed, reasm = (feedAll bcReasmInit fed).2) → RefusedUnchanged reasm frag := by
  intro h
  have hslot := h bcReasmInit (rawPiece 1 2 (List.replicate 9 0)) ⟨[], rfl⟩ (by decide +kernel)
  have hactive := congrArg (fun r : BcReasm => (r.slots 0).active) hslot
  revert hactive
  decide +kernel

end Refusal

section OwnBytes

/-- The first message handed out while the pieces are fed. What follows it is a
sequence of its own, from the table that it leaves. -/
def firstMessage (reasm : BcReasm) (frags : List BcMessage) : Option BcMessage :=
  (feedAll reasm frags).1.findSome? Prod.snd

/-- The payload as a receiver of the message sees it. -/
def BcMessage.content (msg : BcMessage) : ℕ × List UInt8 := (msg.payloadLen, msg.body)

/-- A table that pieces from the network have led to, with no slot for the message
and room for it. -/
structure Idle (seq srcNode : UInt32) (reasm : BcReasm) : Prop where
  reached : ∃ fed : List BcMessage,
    (∀ frag ∈ fed, frag.payloadLen ≤ bcMaxPayloadLen) ∧ reasm = (feedAll bcReasmInit fed).2
  new : ∀ i, ¬ (reasm.slots i).Holds seq srcNode
  room : ∃ i, (reasm.slots i).active = false

/-- A byte of the message that one of the pieces has at this place. -/
def CopiedFrom (frags : List BcMessage) (out : BcMessage) (p : ℕ) : Prop :=
  ∃ frag ∈ frags, ∃ q b, p = frag.fragIndex * bcFragChunkMax + q ∧ frag.fragChunk[q]? = some b ∧
    out.body[p]? = some b

/-- What the pieces of a message make of it does not depend on the table they are
fed to, and every byte of it comes from one of them. -/
structure OwnBytes (seq srcNode : UInt32) (frags : List BcMessage) : Prop where
  same : ∀ r₁ r₂, Idle seq srcNode r₁ → Idle seq srcNode r₂ →
    (firstMessage r₁ frags).map BcMessage.content = (firstMessage r₂ frags).map BcMessage.content
  copied : ∀ r, Idle seq srcNode r → ∀ out, firstMessage r frags = some out →
    ∀ p < out.payloadLen, CopiedFrom frags out p

/-- A piece that is stored at index `k` of a message of `total` pieces. -/
def BcMessage.IsPiece (frag : BcMessage) (total : ℕ) (k : PieceIndex) : Prop :=
  frag.GoodHeader ∧ frag.fragTotal = total ∧ frag.fragIndex = k ∧ frag.Fits

instance (frag : BcMessage) (total : ℕ) (k : PieceIndex) : Decidable (frag.IsPiece total k) :=
  inferInstanceAs (Decidable (_ ∧ _ ∧ _ ∧ _))

/-- If the pieces announce two pieces, and both come, then the first one to come
with index zero is full. -/
def NoGap (frags : List BcMessage) : Prop :=
  ∀ opener first second, frags.find? (·.GoodHeader) = some opener → opener.fragTotal = 2 →
    frags.find? (·.IsPiece 2 0) = some first → frags.find? (·.IsPiece 2 1) = some second →
      first.payloadLen = bcMaxPayloadLen

/-- The bytes of the pieces, over the bytes of an earlier message. -/
def overlay (stale : CBuffer bcMaxPayloadLen) (first second : List UInt8) :
    CBuffer bcMaxPayloadLen :=
  (stale.copyAt 0 first).copyAt bcFragChunkMax second

/-- The content of a message of two pieces, once both are there. -/
def pairContent (stale : CBuffer bcMaxPayloadLen) :
    Option BcMessage → Option BcMessage → Option (ℕ × List UInt8)
  | some first, some second =>
    some (bcFragChunkMax + second.fragChunk.length,
      (overlay stale first.fragChunk second.fragChunk).bytes.take
        (bcFragChunkMax + second.fragChunk.length))
  | _, _ => none

/-- The content of the first message that the pieces make in a slot with the given
bytes. -/
def expected (stale : CBuffer bcMaxPayloadLen) (frags : List BcMessage) : Option (ℕ × List UInt8) :=
  match frags.find? (·.GoodHeader) with
  | none => none
  | some opener =>
    if opener.fragTotal = 1 then some (opener.fragChunk.length, opener.fragChunk)
    else if opener.fragTotal = 2 then
      pairContent stale (frags.find? (·.IsPiece 2 0)) (frags.find? (·.IsPiece 2 1))
    else none

/-- The bytes of a piece that has come. -/
def chunkOr (piece : Option BcMessage) : List UInt8 := piece.elim [] BcMessage.fragChunk

/-- Slot `i` collects the message and has the pieces `p`. -/
structure Collecting (seq srcNode : UInt32) (stale : CBuffer bcMaxPayloadLen) (total : ℕ)
    (p : PieceIndex → Option BcMessage) (i : Fin bcReasmSlots) (reasm : BcReasm) : Prop where
  holds : (reasm.slots i).Holds seq srcNode
  only : ∀ j, j ≠ i → ¬ (reasm.slots j).Holds seq srcNode
  total_eq : (reasm.slots i).total = total
  bitmap : ∀ k, (reasm.slots i).bitmap k = (p k).isSome
  received : (reasm.slots i).received = (p 0).isSome.toNat + (p 1).isSome.toNat
  payload : (reasm.slots i).payload = overlay stale (chunkOr (p 0)) (chunkOr (p 1))
  payloadLen : (reasm.slots i).payloadLen =
    max (chunkOr (p 0)).length (if (p 1).isSome then bcFragChunkMax + (chunkOr (p 1)).length else 0)
  stored : ∀ k frag, p k = some frag → frag.fragChunk.length + k * bcFragChunkMax ≤ bcMaxPayloadLen

/-- From the network no message is longer than its array. -/
structure FromNetwork (seq srcNode : UInt32) (frag : BcMessage) : Prop where
  seq_eq : frag.seq = seq
  srcNode_eq : frag.srcNode = srcNode
  payloadLen_le : frag.payloadLen ≤ bcMaxPayloadLen

theorem fragChunk_length {frag : BcMessage} (h : frag.payloadLen ≤ bcMaxPayloadLen) :
    frag.fragChunk.length = frag.payloadLen - bcFragHdrSize := by
  simp only [BcMessage.fragChunk, List.length_take, List.length_drop, CBuffer.length_bytes]
  simp only [bcMaxPayloadLen, bcFragHdrSize] at *
  omega

theorem fragChunk_length_le (frag : BcMessage) : frag.fragChunk.length ≤ bcFragChunkMax := by
  simp only [BcMessage.fragChunk, List.length_take, List.length_drop, CBuffer.length_bytes,
    bcFragChunkMax]
  omega

@[simp] theorem BcReasm.slots_set_self (reasm : BcReasm) (i : Fin bcReasmSlots)
    (slot : BcReasmSlot) : (reasm.set i slot).slots i = slot := by
  simp [BcReasm.set]

@[simp] theorem BcReasm.slots_set_of_ne {i j : Fin bcReasmSlots} (h : j ≠ i) (reasm : BcReasm)
    (slot : BcReasmSlot) : (reasm.set i slot).slots j = reasm.slots j := by
  simp [BcReasm.set, Function.update_of_ne h]

@[simp] theorem BcReasm.set_set (reasm : BcReasm) (i : Fin bcReasmSlots)
    (slot slot' : BcReasmSlot) : (reasm.set i slot).set i slot' = reasm.set i slot' := by
  simp [BcReasm.set]

theorem CBuffer.copyAt_nil {n : ℕ} (b : CBuffer n) {off : ℕ} (h : off ≤ n) :
    b.copyAt off [] = b := by
  ext1
  rw [CBuffer.copyAt_bytes b (by simpa using h)]
  simp

@[simp] theorem overlay_nil (stale : CBuffer bcMaxPayloadLen) : overlay stale [] [] = stale := by
  rw [overlay, CBuffer.copyAt_nil _ (by decide), CBuffer.copyAt_nil _ (by decide)]

section Collect

variable {seq srcNode : UInt32} {stale : CBuffer bcMaxPayloadLen} {total : ℕ}
  {p : PieceIndex → Option BcMessage} {i : Fin bcReasmSlots} {reasm : BcReasm} {frag : BcMessage}

/-- A free slot taken for a piece has no piece yet. -/
theorem collecting_activate (hfrag : FromNetwork seq srcNode frag)
    (hnew : ∀ j, ¬ (reasm.slots j).Holds seq srcNode) (i : Fin bcReasmSlots) (total : ℕ) :
    Collecting seq srcNode (reasm.slots i).payload total (fun _ => none) i
      (reasm.set i ((reasm.slots i).activate frag total)) := by
  constructor
  case holds =>
    rw [BcReasm.slots_set_self]
    exact ⟨rfl, hfrag.seq_eq, hfrag.srcNode_eq⟩
  case only =>
    intro j hj
    rw [BcReasm.slots_set_of_ne hj]
    exact hnew j
  all_goals simp [BcReasmSlot.activate, chunkOr]

theorem Collecting.chunkOr_fits (h : Collecting seq srcNode stale total p i reasm) :
    bcFragChunkMax + (chunkOr (p 1)).length ≤ bcMaxPayloadLen := by
  cases hp : p 1 with
  | none => simp [chunkOr]
  | some frag =>
    have hstored := h.stored 1 frag hp
    have hone : ((1 : PieceIndex) : ℕ) = 1 := rfl
    simp only [chunkOr, Option.elim_some, hone] at hstored ⊢
    omega

theorem pieceIndex_zero_or_one : ∀ k : PieceIndex, k = 0 ∨ k = 1 := by decide

/-- A piece that was missing is stored. -/
theorem Collecting.store (h : Collecting seq srcNode stale total p i reasm)
    (hfrag : FromNetwork seq srcNode frag) {k : PieceIndex} (hpiece : frag.IsPiece total k)
    (hnone : p k = none) :
    Collecting seq srcNode stale total (Function.update p k (some frag)) i
      (reasm.set i ((reasm.slots i).store k frag)) := by
  have hlen := fragChunk_length hfrag.payloadLen_le
  have hle := fragChunk_length_le frag
  have hfits : frag.fragChunk.length + k * bcFragChunkMax ≤ bcMaxPayloadLen := by
    have := hpiece.2.2.2
    unfold BcMessage.Fits at this
    rw [hpiece.2.2.1] at this
    omega
  constructor
  case holds =>
    rw [BcReasm.slots_set_self]
    exact h.holds
  case only =>
    intro j hj
    rw [BcReasm.slots_set_of_ne hj]
    exact h.only j hj
  case total_eq =>
    rw [BcReasm.slots_set_self]
    exact h.total_eq
  case bitmap =>
    intro j
    rw [BcReasm.slots_set_self]
    by_cases hjk : j = k
    · simp [BcReasmSlot.store, hjk]
    · simp [BcReasmSlot.store, Function.update_of_ne hjk, h.bitmap j]
  case received =>
    rw [BcReasm.slots_set_self, BcReasmSlot.store, h.received]
    rcases pieceIndex_zero_or_one k with rfl | rfl
    · rw [Function.update_self, Function.update_of_ne (by decide), hnone]
      simp only [Option.isSome_none, Option.isSome_some, Bool.toNat_false, Bool.toNat_true]
      omega
    · rw [Function.update_self, Function.update_of_ne (by decide), hnone]
      simp
  case payload =>
    rw [BcReasm.slots_set_self, BcReasmSlot.store, h.payload]
    rcases pieceIndex_zero_or_one k with rfl | rfl
    · have hsecond : bcFragChunkMax + (chunkOr (p 1)).length ≤ bcMaxPayloadLen := h.chunkOr_fits
      rw [Function.update_self, Function.update_of_ne (by decide), hnone]
      simp only [overlay, chunkOr, Option.elim_none, Option.elim_some, Fin.val_zero, Nat.zero_mul]
      rw [CBuffer.copyAt_nil _ (by decide)]
      exact CBuffer.copyAt_comm _ (by omega) hsecond
    · rw [Function.update_self, Function.update_of_ne (by decide), hnone]
      simp only [overlay, chunkOr, Option.elim_none, Option.elim_some]
      rw [CBuffer.copyAt_nil _ (by decide)]
      rfl
  case payloadLen =>
    rw [BcReasm.slots_set_self, BcReasmSlot.store, h.payloadLen, ← hlen]
    rcases pieceIndex_zero_or_one k with rfl | rfl
    · rw [Function.update_self, Function.update_of_ne (by decide), hnone]
      simp only [chunkOr, Option.elim_none, Option.elim_some, Fin.val_zero, List.length_nil]
      omega
    · rw [Function.update_self, Function.update_of_ne (by decide), hnone]
      simp only [Option.isSome_none, Option.isSome_some, Bool.false_eq_true, if_false, if_true]
      have hone : ((1 : PieceIndex) : ℕ) = 1 := rfl
      simp only [chunkOr, Option.elim_some, hone]
      omega
  case stored =>
    intro j f hf
    by_cases hjk : j = k
    · subst hjk
      simp only [Function.update_self, Option.some.injEq] at hf
      rw [← hf]
      exact hfits
    · rw [Function.update_of_ne hjk] at hf
      exact h.stored j f hf

/-- Anything but a missing piece changes nothing. -/
theorem Collecting.feed_other (h : Collecting seq srcNode stale total p i reasm)
    (hfrag : FromNetwork seq srcNode frag) (hno : ∀ k, frag.IsPiece total k → p k ≠ none) :
    (bcReasmFeed reasm frag).2 = (reasm, none) := by
  by_cases hheader : frag.GoodHeader
  swap
  · rw [bcReasmFeed_of_badHeader hheader]
  rw [bcReasmFeed_of_goodHeader hheader, hfrag.seq_eq, hfrag.srcNode_eq,
    findSlot_only h.holds h.only]
  have hslot : (feedSlot (reasm.slots i) frag frag.fragIndex frag.fragTotal).2 =
      (reasm.slots i, none) := by
    unfold feedSlot
    simp only [h.holds.1, true_and, if_true]
    split_ifs with htotal hpast hbit hmore
    · rfl
    · rfl
    · rfl
    all_goals
      exfalso
      rw [h.bitmap, Bool.not_eq_true, Option.isSome_eq_false_iff] at hbit
      refine hno _ ⟨hheader, ?_, rfl, ?_⟩ (Option.isNone_iff_eq_none.mp hbit)
      · rw [← h.total_eq]
        exact (not_not.mp htotal).symm
      · unfold BcMessage.Fits
        omega
  simp only [hslot, BcReasm.set_self]

/-- A missing piece is stored, and the last one hands out the message. -/
theorem Collecting.feed_piece (h : Collecting seq srcNode stale total p i reasm)
    (hfrag : FromNetwork seq srcNode frag) {k : PieceIndex} (hpiece : frag.IsPiece total k)
    (hnone : p k = none) :
    bcReasmFeed reasm frag =
      let slot := (reasm.slots i).store k frag
      if slot.received < total then (.notFound, reasm.set i slot, none)
      else (.ok, reasm.set i { slot with active := false }, some slot.message) := by
  obtain ⟨hheader, htotal, hindex, hfits⟩ := hpiece
  have hpast :
      ¬ (k : ℕ) * bcFragChunkMax + (frag.payloadLen - bcFragHdrSize) > bcMaxPayloadLen := by
    rw [← hindex]
    exact Nat.not_lt.mpr hfits
  have hbit : (reasm.slots i).bitmap k = false := by simp [h.bitmap, hnone]
  have hstore : ((reasm.slots i).store k frag).total = total := h.total_eq
  rw [bcReasmFeed_of_goodHeader hheader, hfrag.seq_eq, hfrag.srcNode_eq,
    findSlot_only h.holds h.only, hindex, htotal]
  unfold feedSlot
  simp only [h.holds.1, h.total_eq, ne_eq, not_true_eq_false, and_false, if_false, if_true,
    dif_neg hpast, Fin.eta, hbit, Bool.false_eq_true, hstore]
  split_ifs <;> rfl

/-- The message that the slot would hand out. -/
theorem Collecting.content (h : Collecting seq srcNode stale total p i reasm) :
    (reasm.slots i).message.content =
      ((reasm.slots i).payloadLen, (overlay stale (chunkOr (p 0)) (chunkOr (p 1))).bytes.take
        (reasm.slots i).payloadLen) := by
  have hfits := h.chunkOr_fits
  have hfirst : (chunkOr (p 0)).length ≤ bcFragChunkMax := by
    cases p 0 with
    | none => simp [chunkOr]
    | some frag => exact fragChunk_length_le frag
  have hlen : (reasm.slots i).payloadLen ≤ bcMaxPayloadLen := by
    rw [h.payloadLen]
    simp only [bcFragChunkMax, bcFragHdrSize, bcMaxPayloadLen] at *
    split_ifs <;> omega
  have htake : ((reasm.slots i).payload.bytes.take (reasm.slots i).payloadLen).length =
      (reasm.slots i).payloadLen := by
    rw [List.length_take, CBuffer.length_bytes]
    omega
  have hfront := CBuffer.take_ofPrefix (htake.trans_le hlen)
  rw [htake] at hfront
  rw [BcMessage.content, BcMessage.body, BcReasmSlot.message, ← h.payload]
  simp only [hfront]

end Collect

section FirstMessage

variable {seq srcNode : UInt32}

@[simp] theorem firstMessage_nil (reasm : BcReasm) : firstMessage reasm [] = none := rfl

theorem firstMessage_cons (reasm : BcReasm) (frag : BcMessage) (frags : List BcMessage) :
    firstMessage reasm (frag :: frags) =
      (bcReasmFeed reasm frag).2.2.or (firstMessage (bcReasmFeed reasm frag).2.1 frags) := by
  simp only [firstMessage, feedAll, List.findSome?_cons]
  cases (bcReasmFeed reasm frag).2.2 <;> rfl

theorem isPiece_unique {frag : BcMessage} {total total' : ℕ} {k k' : PieceIndex}
    (h : frag.IsPiece total k) (h' : frag.IsPiece total' k') : k = k' :=
  Fin.ext (h.2.2.1.symm.trans h'.2.2.1)

/-- A slot that collects a message of two pieces or more: what is there, and what
is still to come. -/
theorem Collecting.firstMessage_content {stale : CBuffer bcMaxPayloadLen} {total : ℕ}
    {p : PieceIndex → Option BcMessage} {i : Fin bcReasmSlots} {reasm : BcReasm}
    (h : Collecting seq srcNode stale total p i reasm) (htotal : 2 ≤ total)
    (hopen : (reasm.slots i).received < total) {frags : List BcMessage}
    (hfrags : ∀ frag ∈ frags, FromNetwork seq srcNode frag) :
    (firstMessage reasm frags).map BcMessage.content =
      if total = 2 then
        pairContent stale ((p 0).or (frags.find? (·.IsPiece 2 0)))
          ((p 1).or (frags.find? (·.IsPiece 2 1)))
      else none := by
  induction frags generalizing p reasm with
  | nil =>
    split_ifs with htwo
    · rw [h.received, htwo] at hopen
      cases h0 : p 0 with
      | none => rfl
      | some first =>
        cases h1 : p 1 with
        | none => rfl
        | some second => simp [h0, h1] at hopen
    · rfl
  | cons frag frags ih =>
    have hfrag := hfrags frag (by simp)
    have hrest : ∀ f ∈ frags, FromNetwork seq srcNode f := fun f hf => hfrags f (by simp [hf])
    by_cases hpiece : ∃ k, frag.IsPiece total k ∧ p k = none
    swap
    · push Not at hpiece
      have hstay := h.feed_other hfrag hpiece
      rw [firstMessage_cons, hstay, Option.none_or, ih h hopen hrest]
      split_ifs with htwo
      · subst htwo
        -- A piece that is there already hides the later ones.
        have hsame : ∀ k, (p k).or ((frag :: frags).find? (·.IsPiece 2 k)) =
            (p k).or (frags.find? (·.IsPiece 2 k)) := by
          intro k
          by_cases hk : frag.IsPiece 2 k
          · obtain ⟨f, hf⟩ := Option.ne_none_iff_exists'.mp (hpiece k hk)
            rw [hf, Option.some_or, Option.some_or]
          · rw [List.find?_cons_of_neg (by simpa using hk)]
        rw [hsame, hsame]
      · rfl
    · obtain ⟨k, hk, hnone⟩ := hpiece
      have hnext := h.store hfrag hk hnone
      have hfeed := h.feed_piece hfrag hk hnone
      have hpair : total = 2 → ∀ j, (Function.update p k (some frag) j).or
          (frags.find? (·.IsPiece 2 j)) = (p j).or ((frag :: frags).find? (·.IsPiece 2 j)) := by
        intro htwo j
        subst htwo
        by_cases hjk : j = k
        · rw [hjk, Function.update_self, hnone, List.find?_cons_of_pos (by simpa using hk)]
          rfl
        · have hnot : ¬ frag.IsPiece 2 j := fun hj => hjk (isPiece_unique hj hk)
          rw [Function.update_of_ne hjk, List.find?_cons_of_neg (by simpa using hnot)]
      have hreceived := hnext.received
      rw [BcReasm.slots_set_self] at hreceived
      by_cases hmore : ((reasm.slots i).store k frag).received < total
      · simp only [if_pos hmore] at hfeed
        rw [firstMessage_cons, hfeed, Option.none_or,
          ih hnext (by rwa [BcReasm.slots_set_self]) hrest]
        split_ifs with htwo
        · rw [hpair htwo, hpair htwo]
        · rfl
      · simp only [if_neg hmore] at hfeed
        have hcontent := hnext.content
        have hpayloadLen := hnext.payloadLen
        rw [BcReasm.slots_set_self] at hcontent hpayloadLen
        have hcount : ∀ b : Bool, b.toNat ≤ 1 := by decide
        have hzero := hcount (Function.update p k (some frag) 0).isSome
        have hone := hcount (Function.update p k (some frag) 1).isSome
        have htwo : total = 2 := by omega
        obtain ⟨first, hfirst⟩ : ∃ f, Function.update p k (some frag) 0 = some f := by
          cases hf : Function.update p k (some frag) 0 with
          | none => simp only [hf, Option.isSome_none, Bool.toNat_false] at hreceived; omega
          | some f => exact ⟨f, rfl⟩
        obtain ⟨second, hsecond⟩ : ∃ f, Function.update p k (some frag) 1 = some f := by
          cases hf : Function.update p k (some frag) 1 with
          | none => simp only [hf, Option.isSome_none, Bool.toNat_false] at hreceived; omega
          | some f => exact ⟨f, rfl⟩
        have hle := fragChunk_length_le first
        have hlength : ((reasm.slots i).store k frag).payloadLen =
            bcFragChunkMax + second.fragChunk.length := by
          simp only [hpayloadLen, hfirst, hsecond, chunkOr, Option.elim_some, Option.isSome_some,
            if_true]
          omega
        rw [firstMessage_cons, hfeed, Option.some_or, Option.map_some, hcontent, if_pos htwo,
          ← hpair htwo, ← hpair htwo, hfirst, hsecond, hlength]
        rfl

/-- The bytes up to the end of the second piece: between the two pieces the bytes
of the earlier message show. -/
theorem overlay_take (stale : CBuffer bcMaxPayloadLen) {first second : List UInt8}
    (hfirst : first.length ≤ bcFragChunkMax)
    (hsecond : bcFragChunkMax + second.length ≤ bcMaxPayloadLen) :
    (overlay stale first second).bytes.take (bcFragChunkMax + second.length) =
      first ++ (stale.bytes.drop first.length).take (bcFragChunkMax - first.length) ++ second := by
  have hstore : (stale.copyAt 0 first).bytes.take bcFragChunkMax =
      first ++ (stale.bytes.drop first.length).take (bcFragChunkMax - first.length) := by
    rw [CBuffer.copyAt_bytes stale (by omega), List.take_zero, List.nil_append, Nat.zero_add,
      List.take_append, List.take_of_length_le hfirst]
  have hlen : (first ++ (stale.bytes.drop first.length).take (bcFragChunkMax - first.length) ++
      second).length = bcFragChunkMax + second.length := by
    simp only [List.length_append, List.length_take, List.length_drop, CBuffer.length_bytes]
    omega
  rw [overlay, CBuffer.copyAt_bytes _ hsecond, hstore]
  exact List.take_left' hlen

theorem overlay_take_single (stale : CBuffer bcMaxPayloadLen) {first : List UInt8}
    (hfirst : first.length ≤ bcFragChunkMax) :
    (overlay stale first []).bytes.take first.length = first := by
  have hroom : bcFragChunkMax ≤ bcMaxPayloadLen := by decide
  rw [overlay, CBuffer.copyAt_nil _ hroom, CBuffer.copyAt_bytes stale (by omega)]
  simp

section Opening

variable {reasm : BcReasm} {i : Fin bcReasmSlots} {frag : BcMessage}

/-- A free slot is claimed first; the rest is as in a slot in use. -/
theorem bcReasmFeed_opener (hfrag : FromNetwork seq srcNode frag)
    (hnew : ∀ j, ¬ (reasm.slots j).Holds seq srcNode)
    (hfind : findSlot reasm seq srcNode = some i) (hfree : (reasm.slots i).active = false)
    (hheader : frag.GoodHeader) :
    bcReasmFeed reasm frag =
      bcReasmFeed (reasm.set i ((reasm.slots i).activate frag frag.fragTotal)) frag := by
  have hopen := collecting_activate hfrag hnew i frag.fragTotal
  rw [bcReasmFeed_of_goodHeader hheader, bcReasmFeed_of_goodHeader hheader, hfrag.seq_eq,
    hfrag.srcNode_eq, hfind, findSlot_only hopen.holds hopen.only]
  have hslot : feedSlot (reasm.slots i) frag frag.fragIndex frag.fragTotal =
      feedSlot ((reasm.slots i).activate frag frag.fragTotal) frag frag.fragIndex
        frag.fragTotal := by
    have hactive : ((reasm.slots i).activate frag frag.fragTotal).active = true := rfl
    have htotal : ((reasm.slots i).activate frag frag.fragTotal).total = frag.fragTotal := rfl
    unfold feedSlot
    simp only [hfree, hactive, htotal, Bool.false_eq_true, false_and, if_false, ne_eq,
      not_true_eq_false, and_false, if_true]
  simp only [hslot, BcReasm.slots_set_self, BcReasm.set_set]

/-- The content of the first message in terms of the pieces and of the bytes that
the free slot holds. -/
theorem firstMessage_content (hnew : ∀ j, ¬ (reasm.slots j).Holds seq srcNode)
    (hfind : findSlot reasm seq srcNode = some i) (hfree : (reasm.slots i).active = false)
    {frags : List BcMessage} (hfrags : ∀ frag ∈ frags, FromNetwork seq srcNode frag) :
    (firstMessage reasm frags).map BcMessage.content = expected (reasm.slots i).payload frags := by
  induction frags with
  | nil => rfl
  | cons frag frags ih =>
    have hfrag := hfrags frag (by simp)
    by_cases hheader : frag.GoodHeader
    swap
    · have hskip : ∀ k, ¬ frag.IsPiece 2 k := fun k hk => hheader hk.1
      rw [firstMessage_cons, bcReasmFeed_of_badHeader hheader, Option.none_or,
        ih fun f hf => hfrags f (by simp [hf])]
      simp only [expected]
      rw [List.find?_cons_of_neg (by simpa using hheader),
        List.find?_cons_of_neg (by simpa using hskip 0),
        List.find?_cons_of_neg (by simpa using hskip 1)]
    · have hopen := collecting_activate hfrag hnew i frag.fragTotal
      have hopener := bcReasmFeed_opener hfrag hnew hfind hfree hheader
      have hfirst : firstMessage reasm (frag :: frags) =
          firstMessage (reasm.set i ((reasm.slots i).activate frag frag.fragTotal))
            (frag :: frags) := by
        rw [firstMessage_cons, firstMessage_cons, hopener]
      have hexpected : expected (reasm.slots i).payload (frag :: frags) =
          if frag.fragTotal = 1 then some (frag.fragChunk.length, frag.fragChunk)
          else if frag.fragTotal = 2 then
            pairContent (reasm.slots i).payload ((frag :: frags).find? (·.IsPiece 2 0))
              ((frag :: frags).find? (·.IsPiece 2 1))
          else none := by
        rw [expected, List.find?_cons_of_pos (by simpa using hheader)]
      rw [hexpected, hfirst]
      by_cases hone : frag.fragTotal = 1
      · -- The only piece of a message fits and completes it.
        have hindex : frag.fragIndex = 0 := by
          have := hheader.2.2
          omega
        have hfits : frag.Fits := by
          have := hfrag.payloadLen_le
          unfold BcMessage.Fits
          rw [hindex, Nat.zero_mul]
          omega
        have hpiece : frag.IsPiece frag.fragTotal 0 := ⟨hheader, rfl, hindex, hfits⟩
        have hnext := hopen.store hfrag hpiece rfl
        have hcontent := hnext.content
        have hpayloadLen := hnext.payloadLen
        have hreceived := hnext.received
        rw [Function.update_self, Function.update_of_ne (by decide)] at hreceived hpayloadLen
        rw [Function.update_self, Function.update_of_ne (by decide), hpayloadLen] at hcontent
        rw [BcReasm.slots_set_self] at hreceived hcontent
        have hlast : ¬ (((reasm.set i ((reasm.slots i).activate frag frag.fragTotal)).slots
            i).store 0 frag).received < frag.fragTotal := by
          rw [hreceived, hone]
          simp
        have hle := fragChunk_length_le frag
        rw [firstMessage_cons, hopen.feed_piece hfrag hpiece rfl, if_pos hone]
        simp only [if_neg hlast, Option.some_or, Option.map_some, hcontent]
        simp [chunkOr, overlay_take_single _ hle]
      · have htwo : 2 ≤ frag.fragTotal := by
          have := hheader.2.1
          omega
        have hreceived : ((reasm.set i ((reasm.slots i).activate frag frag.fragTotal)).slots
            i).received < frag.fragTotal := by
          rw [hopen.received]
          exact (by decide : (0 : ℕ) < 2).trans_le htwo
        rw [hopen.firstMessage_content htwo hreceived hfrags, if_neg hone]
        rfl

end Opening

end FirstMessage

section Law

variable {seq srcNode : UInt32} {frags : List BcMessage}

theorem second_fits {second : BcMessage} (hsecond : frags.find? (·.IsPiece 2 1) = some second)
    (hfrag : FromNetwork seq srcNode second) :
    bcFragChunkMax + second.fragChunk.length ≤ bcMaxPayloadLen := by
  obtain ⟨-, -, hindex, hfits⟩ : second.IsPiece 2 1 := by
    simpa using List.find?_some hsecond
  have hone : ((1 : PieceIndex) : ℕ) = 1 := rfl
  unfold BcMessage.Fits at hfits
  rw [fragChunk_length hfrag.payloadLen_le]
  rw [hindex, hone, Nat.one_mul] at hfits
  exact hfits

/-- Without a gap the earlier bytes do not matter. -/
theorem NoGap.expected_eq (h : NoGap frags) (hlen : ∀ frag ∈ frags, FromNetwork seq srcNode frag)
    (stale stale' : CBuffer bcMaxPayloadLen) : expected stale frags = expected stale' frags := by
  unfold expected
  cases hopener : frags.find? (·.GoodHeader) with
  | none => rfl
  | some opener =>
    simp only
    split_ifs with hone htwo
    · rfl
    · cases hfirst : frags.find? (·.IsPiece 2 0) with
      | none => rfl
      | some first =>
        cases hsecond : frags.find? (·.IsPiece 2 1) with
        | none => rfl
        | some second =>
          have hfull := h opener first second hopener htwo hfirst hsecond
          have hmem := List.mem_of_find?_eq_some hfirst
          have hchunk := fragChunk_length (hlen first hmem).payloadLen_le
          have hgap : bcFragChunkMax - first.fragChunk.length = 0 := by
            rw [hchunk, hfull]
            decide
          have hfits := second_fits hsecond (hlen second (List.mem_of_find?_eq_some hsecond))
          simp only [pairContent]
          rw [overlay_take stale (fragChunk_length_le first) hfits,
            overlay_take stale' (fragChunk_length_le first) hfits, hgap, List.take_zero,
            List.take_zero]
    · rfl

/-- Without a gap every byte of the first message is one of a piece. -/
theorem NoGap.copied (h : NoGap frags) (hfrags : ∀ frag ∈ frags, FromNetwork seq srcNode frag)
    {stale : CBuffer bcMaxPayloadLen} {out : BcMessage}
    (hout : some out.content = expected stale frags) : ∀ p < out.payloadLen,
      CopiedFrom frags out p := by
  intro p hp
  unfold expected at hout
  cases hopener : frags.find? (·.GoodHeader) with
  | none => simp [hopener] at hout
  | some opener =>
    simp only [hopener] at hout
    split_ifs at hout with hone htwo
    · simp only [BcMessage.content, Option.some.injEq, Prod.mk.injEq] at hout
      obtain ⟨hlen, hbody⟩ := hout
      obtain ⟨-, -, hindex⟩ : opener.GoodHeader := by simpa using List.find?_some hopener
      have hzero : opener.fragIndex = 0 := by omega
      have hin : p < opener.fragChunk.length := by omega
      refine ⟨opener, List.mem_of_find?_eq_some hopener, p, opener.fragChunk[p], ?_,
        List.getElem?_eq_getElem hin, ?_⟩
      · rw [hzero, Nat.zero_mul, Nat.zero_add]
      · rw [hbody, List.getElem?_eq_getElem hin]
    · cases hfirst : frags.find? (·.IsPiece 2 0) with
      | none => simp [hfirst, pairContent] at hout
      | some first =>
        cases hsecond : frags.find? (·.IsPiece 2 1) with
        | none => simp [hfirst, hsecond, pairContent] at hout
        | some second =>
          have hmem := List.mem_of_find?_eq_some hfirst
          have hmem' := List.mem_of_find?_eq_some hsecond
          have hfull := h opener first second hopener htwo hfirst hsecond
          have hchunk : first.fragChunk.length = bcFragChunkMax := by
            rw [fragChunk_length (hfrags first hmem).payloadLen_le, hfull]
          have hfits := second_fits hsecond (hfrags second hmem')
          obtain ⟨-, -, hindex, -⟩ : first.IsPiece 2 0 := by simpa using List.find?_some hfirst
          obtain ⟨-, -, hindex', -⟩ : second.IsPiece 2 1 := by simpa using List.find?_some hsecond
          simp only [hfirst, hsecond, pairContent, BcMessage.content, Option.some.injEq,
            Prod.mk.injEq, overlay_take stale hchunk.le hfits, hchunk, Nat.sub_self,
            List.take_zero, List.append_nil] at hout
          obtain ⟨hlen, hbody⟩ := hout
          by_cases hlow : p < bcFragChunkMax
          · have hin : p < first.fragChunk.length := by omega
            refine ⟨first, hmem, p, first.fragChunk[p], ?_, List.getElem?_eq_getElem hin, ?_⟩
            · rw [hindex, Fin.val_zero, Nat.zero_mul, Nat.zero_add]
            · rw [hbody, List.getElem?_append_left hin, List.getElem?_eq_getElem hin]
          · have hin : p - bcFragChunkMax < second.fragChunk.length := by omega
            have hone : ((1 : PieceIndex) : ℕ) = 1 := rfl
            refine ⟨second, hmem', p - bcFragChunkMax, second.fragChunk[p - bcFragChunkMax], ?_,
              List.getElem?_eq_getElem hin, ?_⟩
            · rw [hindex', hone, Nat.one_mul]
              omega
            · rw [hbody, List.getElem?_append_right (by omega), hchunk,
                List.getElem?_eq_getElem hin]

theorem Idle.content {reasm : BcReasm} (h : Idle seq srcNode reasm)
    (hfrags : ∀ frag ∈ frags, FromNetwork seq srcNode frag) :
    ∃ i, (firstMessage reasm frags).map BcMessage.content =
      expected (reasm.slots i).payload frags := by
  obtain ⟨i, hfind, hfree⟩ := findSlot_free h.new h.room
  exact ⟨i, firstMessage_content h.new hfind hfree hfrags⟩

/-- A free table gives its first slot away. -/
theorem findSlot_allFree {reasm : BcReasm} (hfree : ∀ i, (reasm.slots i).active = false)
    (seq srcNode : UInt32) : findSlot reasm seq srcNode = some 0 := by
  have hkeep : ∀ is, findSlotLoop reasm seq srcNode is (some 0) = some 0 := by
    intro is
    induction is with
    | nil => rfl
    | cons i is ih =>
      have hnot : ¬ (reasm.slots i).Holds seq srcNode := fun h => by
        have hact := h.1
        rw [hfree i] at hact
        cases hact
      rw [findSlotLoop, if_neg hnot, if_neg (by simp), ih]
  have hnot : ¬ (reasm.slots 0).Holds seq srcNode := fun h => by
    have hact := h.1
    rw [hfree 0] at hact
    cases hact
  have hrange : List.finRange bcReasmSlots = 0 :: (List.finRange 15).map Fin.succ :=
    List.finRange_succ
  rw [findSlot, hrange, findSlotLoop, if_neg hnot, if_pos ⟨hfree 0, rfl⟩, hkeep]

theorem idle_of_allFree {fed : List BcMessage}
    (hfed : ∀ frag ∈ fed, frag.payloadLen ≤ bcMaxPayloadLen)
    (hfree : ∀ i, ((feedAll bcReasmInit fed).2.slots i).active = false) (seq srcNode : UInt32) :
    Idle seq srcNode (feedAll bcReasmInit fed).2 := by
  refine ⟨⟨fed, hfed, rfl⟩, fun i h => ?_, 0, hfree 0⟩
  have hact := h.1
  rw [hfree i] at hact
  cases hact

/-- A message of one piece that has come and gone. -/
def earlierPieces : List BcMessage := [rawPiece 0 1 (List.replicate bcFragChunkMax 0xff)]

theorem earlierPieces_fromNetwork : ∀ frag ∈ earlierPieces, frag.payloadLen ≤ bcMaxPayloadLen := by
  decide +kernel

theorem earlierPieces_free :
    ∀ i, ((feedAll bcReasmInit earlierPieces).2.slots i).active = false := by
  decide +kernel

theorem earlierPieces_payload :
    ((feedAll bcReasmInit earlierPieces).2.slots 0).payload.bytes.take bcFragChunkMax =
      List.replicate bcFragChunkMax 0xff := by
  decide +kernel

/-- In a gap the bytes of the earlier message show. -/
theorem OwnBytes.noGap (h : OwnBytes seq srcNode frags)
    (hfrags : ∀ frag ∈ frags, FromNetwork seq srcNode frag) : NoGap frags := by
  intro opener first second hopener htwo hfirst hsecond
  by_contra hshort
  have hmem := List.mem_of_find?_eq_some hfirst
  have hle := (hfrags first hmem).payloadLen_le
  have hchunk : first.fragChunk.length < bcFragChunkMax := by
    obtain ⟨⟨hhdr, -, -⟩, -, -, -⟩ : first.IsPiece 2 0 := by simpa using List.find?_some hfirst
    rw [fragChunk_length hle]
    simp only [bcFragChunkMax, bcMaxPayloadLen, bcFragHdrSize] at *
    omega
  have hfits := second_fits hsecond (hfrags second (List.mem_of_find?_eq_some hsecond))
  have hclean : Idle seq srcNode (feedAll bcReasmInit []).2 :=
    idle_of_allFree (by simp) (fun _ => rfl) seq srcNode
  have hdirty := idle_of_allFree earlierPieces_fromNetwork earlierPieces_free seq srcNode
  have hsame := h.same _ _ hclean hdirty
  rw [firstMessage_content hclean.new (findSlot_allFree (fun _ => rfl) _ _) rfl hfrags,
    firstMessage_content hdirty.new (findSlot_allFree earlierPieces_free _ _)
      (earlierPieces_free 0) hfrags] at hsame
  have hexpected : ∀ stale,
      expected stale frags = pairContent stale (some first) (some second) := by
    intro stale
    simp only [expected, hopener, htwo, hfirst, hsecond]
    rfl
  rw [hexpected, hexpected] at hsame
  simp only [pairContent, Option.some.injEq, Prod.mk.injEq, true_and] at hsame
  rw [overlay_take _ hchunk.le hfits, overlay_take _ hchunk.le hfits] at hsame
  -- The first byte behind the first piece.
  have hbyte := congrArg (fun bytes : List UInt8 => bytes[first.fragChunk.length]?) hsame
  have hgap : ∀ stale : CBuffer bcMaxPayloadLen,
      (first.fragChunk ++ (stale.bytes.drop first.fragChunk.length).take
        (bcFragChunkMax - first.fragChunk.length) ++ second.fragChunk)[first.fragChunk.length]? =
      stale.bytes[first.fragChunk.length]? := by
    intro stale
    have hsize := stale.size_eq
    have hroom : bcFragChunkMax ≤ bcMaxPayloadLen := by decide
    rw [List.append_assoc, List.getElem?_append_right le_rfl, Nat.sub_self,
      List.getElem?_append_left (by simp only [List.length_take, List.length_drop]; omega),
      List.getElem?_take_of_lt (by omega), List.getElem?_drop, Nat.add_zero]
  have hclear : ((feedAll bcReasmInit []).2.slots 0).payload.bytes[first.fragChunk.length]? =
      some 0 := by
    have hzero : ((feedAll bcReasmInit []).2.slots 0).payload = .zero _ := rfl
    rw [hzero, CBuffer.zero, List.getElem?_replicate, if_pos (by omega)]
  have hset : ((feedAll bcReasmInit earlierPieces).2.slots 0).payload.bytes[
      first.fragChunk.length]? = some 0xff := by
    rw [← List.getElem?_take_of_lt hchunk, earlierPieces_payload, List.getElem?_replicate,
      if_pos hchunk]
  simp only [hgap] at hbyte
  rw [hclear, hset] at hbyte
  simp at hbyte

/-- What the pieces of a message make of it depends on them alone exactly when the
first of two pieces, if there are two, is full. -/
theorem ownBytes_iff_noGap (hfrags : ∀ frag ∈ frags, FromNetwork seq srcNode frag) :
    OwnBytes seq srcNode frags ↔ NoGap frags := by
  refine ⟨fun h => h.noGap hfrags, fun h => ⟨fun r₁ r₂ h₁ h₂ => ?_, fun r hr out hout => ?_⟩⟩
  · obtain ⟨i, hi⟩ := h₁.content hfrags
    obtain ⟨j, hj⟩ := h₂.content hfrags
    rw [hi, hj]
    exact h.expected_eq hfrags _ _
  · obtain ⟨i, hi⟩ := hr.content hfrags
    rw [hout, Option.map_some] at hi
    exact h.copied hfrags hi

/-- Two pieces of one byte each. -/
def shortPieces : List BcMessage := [rawPiece 0 2 [1], rawPiece 1 2 [2]]

theorem shortPieces_fromNetwork : ∀ frag ∈ shortPieces, FromNetwork 5 2 frag := by
  intro frag hfrag
  simp only [shortPieces, List.mem_cons, List.not_mem_nil, or_false] at hfrag
  rcases hfrag with rfl | rfl <;> exact ⟨rfl, rfl, by decide⟩

theorem ownBytes_iff_noGap_short : OwnBytes 5 2 shortPieces ↔ NoGap shortPieces :=
  ownBytes_iff_noGap shortPieces_fromNetwork

/-- They make a message with 1391 bytes of the message before. -/
theorem short_pieces_show_earlier_bytes :
    ¬ ∀ seq srcNode frags, (∀ frag ∈ frags, FromNetwork seq srcNode frag) →
      OwnBytes seq srcNode frags := by
  intro h
  have hclean : Idle 5 2 (feedAll bcReasmInit []).2 :=
    idle_of_allFree (by simp) (fun _ => rfl) 5 2
  have hdirty := idle_of_allFree earlierPieces_fromNetwork earlierPieces_free 5 2
  have hsame := (h 5 2 shortPieces shortPieces_fromNetwork).same _ _ hclean hdirty
  revert hsame
  decide +kernel

end Law

end OwnBytes

end BoardComm
