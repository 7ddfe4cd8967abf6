import BoardComm.CheckedAccess
import BoardComm.ReassemblySlots

/-!
# The arrays of the reassembly

A piece may carry any index and any total. The place that its index gives it is checked
against the length of the payload, and the bitmap, which has two entries, is looked at
only after that.
-/
namespace BoardComm

open Checked

/-- The arrays that `bc_reasm_feed` works on. -/
inductive ReasmArea
  | bitmap
  | slotPayload
  | fragPayload
  | outPayload
  deriving DecidableEq, Repr

section Calls

/-- The part of `bc_reasm_feed` behind the look-up, access by access. -/
def feedSlotChecked (slot : BcReasmSlot) (frag : BcMessage) (index total : ℕ) :
    Run ReasmArea (BcStatus × BcReasmSlot × Option BcMessage) :=
  if slot.active = true ∧ slot.total ≠ total then .ok (.invalid, slot, none)
  else do
    let slot := if slot.active = true then slot else slot.activate frag total
    let chunkLen := frag.payloadLen - bcFragHdrSize
    let offset := index * bcFragChunkMax
    if offset + chunkLen > bcMaxPayloadLen then .ok (.invalid, slot, none)
    else do
      let place ← cell .bitmap (bcMaxPayloadLen / bcFragChunkMax + 1) index
      if slot.bitmap place = true then .ok (.notFound, slot, none)
      else do
        span .fragPayload bcMaxPayloadLen bcFragHdrSize chunkLen
        span .slotPayload bcMaxPayloadLen offset chunkLen
        let slot := slot.store place frag
        if slot.received < slot.total then .ok (.notFound, slot, none)
        else do
          span .slotPayload bcMaxPayloadLen 0 slot.payloadLen
          span .outPayload bcMaxPayloadLen 0 slot.payloadLen
          .ok (.ok, { slot with active := false }, some slot.message)

/-- `bc_reasm_feed`, access by access. -/
def bcReasmFeedChecked (reasm : BcReasm) (frag : BcMessage) :
    Run ReasmArea (BcStatus × BcReasm × Option BcMessage) :=
  if frag.payloadLen < bcFragHdrSize then .ok (.invalid, reasm, none)
  else do
    span .fragPayload bcMaxPayloadLen 0 4
    if frag.fragTotal = 0 ∨ frag.fragIndex ≥ frag.fragTotal then .ok (.invalid, reasm, none)
    else
      match findSlot reasm frag.seq frag.srcNode with
      | none => .ok (.nomem, reasm, none)
      | some i => do
        let r ← feedSlotChecked (reasm.slots i) frag frag.fragIndex frag.fragTotal
        .ok (r.1, reasm.set i r.2.1, r.2.2)

end Calls

/-- The indices whose pieces a slot has. -/
def BcReasmSlot.stored (slot : BcReasmSlot) : Finset PieceIndex :=
  Finset.univ.filter fun index => slot.bitmap index = true

/-- A slot that is in use between two calls. -/
structure BcReasmSlot.Orderly (slot : BcReasmSlot) : Prop where
  payloadLen : slot.payloadLen ≤ bcMaxPayloadLen
  received : slot.received = slot.stored.card
  incomplete : slot.received < slot.total

/-- Every slot in use is orderly, and no two collect one message. -/
structure BcReasm.Orderly (reasm : BcReasm) : Prop where
  slots : ∀ i, (reasm.slots i).active = true → (reasm.slots i).Orderly
  one : ∀ i j seq srcNode, (reasm.slots i).Holds seq srcNode →
    (reasm.slots j).Holds seq srcNode → i = j

section Slots

variable {slot : BcReasmSlot} {frag : BcMessage} {index total : ℕ}

@[simp] theorem activate_stored (slot : BcReasmSlot) (frag : BcMessage) (total : ℕ) :
    (slot.activate frag total).stored = ∅ := by
  simp [BcReasmSlot.stored, BcReasmSlot.activate]

theorem stored_store (slot : BcReasmSlot) (place : PieceIndex) (frag : BcMessage) :
    (slot.store place frag).stored = insert place slot.stored := by
  ext index
  simp only [BcReasmSlot.stored, BcReasmSlot.store, Function.update_apply, Finset.mem_filter,
    Finset.mem_univ, true_and, Finset.mem_insert]
  split_ifs with h <;> simp [h]

/-- A slot that has been taken has nothing yet. -/
theorem activate_orderly (slot : BcReasmSlot) (frag : BcMessage) (htotal : total ≠ 0) :
    (slot.activate frag total).Orderly := by
  refine ⟨Nat.zero_le _, ?_, Nat.pos_of_ne_zero htotal⟩
  rw [activate_stored, Finset.card_empty]
  rfl

/-- A piece that the slot does not have counts once, and ends inside the payload. -/
theorem BcReasmSlot.Orderly.store (h : slot.Orderly) {place : PieceIndex}
    (hnew : slot.bitmap place = false)
    (hfits : place * bcFragChunkMax + (frag.payloadLen - bcFragHdrSize) ≤ bcMaxPayloadLen) :
    (slot.store place frag).payloadLen ≤ bcMaxPayloadLen ∧
      (slot.store place frag).received = (slot.store place frag).stored.card := by
  constructor
  · exact max_le h.payloadLen hfits
  · have hout : place ∉ slot.stored := by simp [BcReasmSlot.stored, hnew]
    rw [stored_store, Finset.card_insert_of_notMem hout, ← h.received]
    rfl

/-- A slot that is given to a piece is orderly before the piece is looked at. -/
theorem orderly_of_given (hslot : slot.active = true → slot.Orderly) (frag : BcMessage)
    (htotal : total ≠ 0) :
    (if slot.active = true then slot else slot.activate frag total).Orderly := by
  split_ifs with hactive
  · exact hslot hactive
  · exact activate_orderly slot frag htotal

/-- The slot stays orderly, or is given back. -/
theorem feedSlot_orderly (hslot : slot.active = true → slot.Orderly) (frag : BcMessage)
    (htotal : total ≠ 0) (hactive : (feedSlot slot frag index total).2.1.active = true) :
    (feedSlot slot frag index total).2.1.Orderly := by
  have hgiven := orderly_of_given hslot frag htotal
  revert hactive
  unfold feedSlot
  by_cases hother : slot.active = true ∧ slot.total ≠ total
  · rw [if_pos hother]
    exact hslot
  rw [if_neg hother]
  generalize (if slot.active = true then slot else slot.activate frag total) = given at *
  dsimp only
  split_ifs with hpast hhave hmore
  · exact fun _ => hgiven
  · exact fun _ => hgiven
  · intro _
    obtain ⟨hlen, hcount⟩ := hgiven.store (eq_false_of_ne_true hhave) (not_lt.mp hpast)
    exact ⟨hlen, hcount, hmore⟩
  · intro hactive
    cases hactive

/-- Every access for a slot is inside its array. -/
theorem feedSlotChecked_eq_ok (hslot : slot.active = true → slot.Orderly)
    (hfrag : frag.payloadLen ≤ bcMaxPayloadLen) (htotal : total ≠ 0) :
    feedSlotChecked slot frag index total = .ok (feedSlot slot frag index total) := by
  have hgiven := orderly_of_given hslot frag htotal
  unfold feedSlotChecked feedSlot
  apply ite_ok_eq_ok
  intro _
  generalize (if slot.active = true then slot else slot.activate frag total) = given at *
  dsimp only
  by_cases hpast : index * bcFragChunkMax + (frag.payloadLen - bcFragHdrSize) > bcMaxPayloadLen
  · rw [if_pos hpast, dif_pos hpast]
  rw [if_neg hpast, dif_neg hpast, cell_of_lt (index_lt_bitmap hpast), ok_bind]
  apply ite_ok_eq_ok
  intro hhave
  have hread : bcFragHdrSize + (frag.payloadLen - bcFragHdrSize) ≤ bcMaxPayloadLen := by
    simp only [bcFragHdrSize, bcMaxPayloadLen] at *
    omega
  rw [span_of_le hread, span_of_le (not_lt.mp hpast), ok_bind, ok_bind]
  apply ite_ok_eq_ok
  intro _
  obtain ⟨hlen, -⟩ := hgiven.store (eq_false_of_ne_true hhave) (not_lt.mp hpast)
  rw [span_of_le ((Nat.zero_add _).trans_le hlen), span_of_le ((Nat.zero_add _).trans_le hlen),
    ok_bind, ok_bind]

end Slots

section Tables

variable {reasm : BcReasm}

theorem init_orderly : bcReasmInit.Orderly := by
  constructor
  · intro i hi
    cases hi
  · intro i j seq srcNode hi
    cases hi.1

/-- The slot that a piece is given is in use for its message, or for none. -/
theorem BcReasm.Orderly.set (h : reasm.Orderly) {frag : BcMessage} (htotal : frag.fragTotal ≠ 0)
    {i : Fin bcReasmSlots} (hfind : findSlot reasm frag.seq frag.srcNode = some i) :
    (reasm.set i
      (feedSlot (reasm.slots i) frag frag.fragIndex frag.fragTotal).2.1).Orderly := by
  have hkey := feedSlot_key (reasm.slots i) frag frag.fragIndex frag.fragTotal
  have hslot := @feedSlot_orderly _ frag.fragIndex _ (h.slots i) frag htotal
  have hspec := findSlot_spec reasm frag.seq frag.srcNode
  rw [hfind] at hspec
  dsimp only at hkey
  generalize (feedSlot (reasm.slots i) frag frag.fragIndex frag.fragTotal).2.1 = slot at *
  -- Another slot that collects the message of this one did so before.
  have hother : ∀ j seq srcNode, slot.Holds seq srcNode →
      (reasm.slots j).Holds seq srcNode → j = i := by
    intro j seq srcNode hi hj
    rcases hkey with ⟨hseq, hsrc, hactive⟩ | ⟨hseq, hsrc⟩
    · exact h.one j i seq srcNode hj ⟨hactive hi.1, hseq.symm.trans hi.2.1, hsrc.symm.trans hi.2.2⟩
    · have hframe : frag.seq = seq ∧ frag.srcNode = srcNode :=
        ⟨hseq.symm.trans hi.2.1, hsrc.symm.trans hi.2.2⟩
      obtain ⟨rfl, rfl⟩ := hframe
      rcases hspec with hheld | ⟨-, hnone⟩
      · exact h.one j i _ _ hj hheld
      · exact absurd hj (hnone j)
  constructor
  · intro j hj
    by_cases hji : j = i
    · subst hji
      simp only [BcReasm.set, Function.update_self] at hj ⊢
      exact hslot hj
    · simp only [BcReasm.set, Function.update_of_ne hji] at hj ⊢
      exact h.slots j hj
  · intro j k seq srcNode hj hk
    by_cases hji : j = i
    · by_cases hki : k = i
      · rw [hji, hki]
      · subst hji
        simp only [BcReasm.set, Function.update_self, Function.update_of_ne hki] at hj hk
        exact (hother k seq srcNode hj hk).symm
    · by_cases hki : k = i
      · subst hki
        simp only [BcReasm.set, Function.update_self, Function.update_of_ne hji] at hj hk
        exact hother j seq srcNode hk hj
      · simp only [BcReasm.set, Function.update_of_ne hji, Function.update_of_ne hki] at hj hk
        exact h.one j k seq srcNode hj hk

theorem BcReasm.Orderly.feed (h : reasm.Orderly) (frag : BcMessage) :
    (reasmStep reasm frag).Orderly := by
  unfold reasmStep bcReasmFeed
  split_ifs with hlen hindex
  · exact h
  · exact h
  cases hfind : findSlot reasm frag.seq frag.srcNode with
  | none => exact h
  | some i => exact h.set (fun htotal => hindex (.inl htotal)) hfind

/-- Every access of a call is inside its array. -/
theorem BcReasm.Orderly.feedChecked (h : reasm.Orderly) {frag : BcMessage}
    (hfrag : frag.payloadLen ≤ bcMaxPayloadLen) :
    bcReasmFeedChecked reasm frag = .ok (bcReasmFeed reasm frag) := by
  unfold bcReasmFeedChecked bcReasmFeed
  apply ite_ok_eq_ok
  intro _
  rw [span_of_le (by decide), ok_bind]
  apply ite_ok_eq_ok
  intro hindex
  cases findSlot reasm frag.seq frag.srcNode with
  | none => rfl
  | some i =>
    have hslot := @feedSlotChecked_eq_ok _ _ frag.fragIndex _ (h.slots i) hfrag
      fun htotal => hindex (.inl htotal)
    dsimp only
    rw [hslot, ok_bind]

end Tables

/-- Whatever pieces have been fed, the table is orderly, and the next piece, with any
index and any total, is handled without an access outside an array. -/
theorem reasm_stays_inside (frags : List BcMessage) :
    (Runs.run reasmStep bcReasmInit frags).Orderly ∧
      ∀ frag, frag.payloadLen ≤ bcMaxPayloadLen →
        bcReasmFeedChecked (Runs.run reasmStep bcReasmInit frags) frag =
          .ok (bcReasmFeed (Runs.run reasmStep bcReasmInit frags) frag) := by
  have horderly : (Runs.run reasmStep bcReasmInit frags).Orderly :=
    Runs.run_of_step reasmStep (fun _ frag h => h.feed frag) init_orderly frags
  exact ⟨horderly, fun frag hfrag => horderly.feedChecked hfrag⟩

end BoardComm
