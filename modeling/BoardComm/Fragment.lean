import BoardComm.ByteLayout
import BoardComm.Types

/-!
# Fragments and their reassembly

A message whose payload leaves no room for the fragment header travels in two
pieces. The receiving side collects the pieces in a table of sixteen slots. A
slot is taken by the first piece of a message and given back when the last one
arrives; nothing else gives it back.
-/
namespace BoardComm

abbrev bcFragHdrSize : ℕ := 8
abbrev bcFragChunkMax : ℕ := bcMaxPayloadLen - bcFragHdrSize
abbrev bcReasmSlots : ℕ := 16

namespace BcMessage

/-- The index field of a fragment header. -/
def fragIndex (frag : BcMessage) : ℕ := ByteLayout.ofLE (frag.payload.bytes.take 2)

/-- The total field of a fragment header. -/
def fragTotal (frag : BcMessage) : ℕ := ByteLayout.ofLE ((frag.payload.bytes.drop 2).take 2)

/-- The bytes behind the fragment header. -/
def fragChunk (frag : BcMessage) : List UInt8 :=
  (frag.payload.bytes.drop bcFragHdrSize).take (frag.payloadLen - bcFragHdrSize)

end BcMessage

/-- `bc_reasm_slot_t`. -/
structure BcReasmSlot where
  active : Bool
  seq : UInt32
  total : ℕ
  received : ℕ
  bitmap : Fin (bcMaxPayloadLen / bcFragChunkMax + 1) → Bool
  topic : CBuffer bcMaxTopicLen
  channel : CBuffer bcMaxChannelLen
  srcNode : UInt32
  dstNode : UInt32
  qos : UInt16
  payload : CBuffer bcMaxPayloadLen
  payloadLen : ℕ

/-- `bc_reasm_t`. -/
structure BcReasm where
  slots : Fin bcReasmSlots → BcReasmSlot

/-- `bc_reasm_init`. -/
def bcReasmInit : BcReasm :=
  ⟨fun _ => ⟨false, 0, 0, 0, fun _ => false, .zero _, .zero _, 0, 0, 0, .zero _, 0⟩⟩

namespace BcReasmSlot

/-- The slot is collecting the message with this number from this node. -/
def Holds (slot : BcReasmSlot) (seq srcNode : UInt32) : Prop :=
  slot.active = true ∧ slot.seq = seq ∧ slot.srcNode = srcNode

instance (slot : BcReasmSlot) (seq srcNode : UInt32) : Decidable (slot.Holds seq srcNode) :=
  inferInstanceAs (Decidable (_ ∧ _ ∧ _))

/-- A free slot is taken for the message of a piece. Bytes of an earlier message
stay in the payload and behind the strings. -/
def activate (slot : BcReasmSlot) (frag : BcMessage) (total : ℕ) : BcReasmSlot :=
  { slot with
    active := true, seq := frag.seq, total := total, received := 0, srcNode := frag.srcNode,
    dstNode := frag.dstNode, qos := frag.qos, payloadLen := 0, bitmap := fun _ => false,
    topic := slot.topic.strncpy frag.topic.bytes (bcMaxTopicLen - 1),
    channel := slot.channel.strncpy frag.channel.bytes (bcMaxChannelLen - 1) }

/-- The bytes behind the header of a piece go to their place. -/
def store (slot : BcReasmSlot) (index : Fin (bcMaxPayloadLen / bcFragChunkMax + 1))
    (frag : BcMessage) : BcReasmSlot :=
  { slot with
    payload := slot.payload.copyAt (index * bcFragChunkMax) frag.fragChunk,
    bitmap := Function.update slot.bitmap index true,
    received := slot.received + 1,
    payloadLen := max slot.payloadLen
      (index * bcFragChunkMax + (frag.payloadLen - bcFragHdrSize)) }

/-- The message that a complete slot hands out. -/
def message (slot : BcReasmSlot) : BcMessage :=
  { BcMessage.zero with
    srcNode := slot.srcNode, dstNode := slot.dstNode, qos := slot.qos, seq := slot.seq,
    topic := (CBuffer.zero _).strncpy slot.topic.bytes (bcMaxTopicLen - 1),
    channel := (CBuffer.zero _).strncpy slot.channel.bytes (bcMaxChannelLen - 1),
    payloadLen := slot.payloadLen,
    payload := .ofPrefix _ (slot.payload.bytes.take slot.payloadLen) }

end BcReasmSlot

/-- The loop of `find_slot` over the remaining slots, with the first free slot
seen so far. -/
def findSlotLoop (reasm : BcReasm) (seq srcNode : UInt32) :
    List (Fin bcReasmSlots) → Option (Fin bcReasmSlots) → Option (Fin bcReasmSlots)
  | [], free => free
  | i :: is, free =>
    if (reasm.slots i).Holds seq srcNode then some i
    else
      findSlotLoop reasm seq srcNode is
        (if (reasm.slots i).active = false ∧ free = none then some i else free)

/-- `find_slot`. -/
def findSlot (reasm : BcReasm) (seq srcNode : UInt32) : Option (Fin bcReasmSlots) :=
  findSlotLoop reasm seq srcNode (List.finRange bcReasmSlots) none

def BcReasm.set (reasm : BcReasm) (i : Fin bcReasmSlots) (slot : BcReasmSlot) : BcReasm :=
  ⟨Function.update reasm.slots i slot⟩

/-- A piece that fits the payload has a place in the bitmap. -/
theorem index_lt_bitmap {index chunkLen : ℕ}
    (h : ¬ index * bcFragChunkMax + chunkLen > bcMaxPayloadLen) :
    index < bcMaxPayloadLen / bcFragChunkMax + 1 := by
  simp only [bcFragChunkMax, bcMaxPayloadLen, bcFragHdrSize] at *
  omega

/-- The part of `bc_reasm_feed` behind the look-up, on the slot found and the
index and total of the piece. -/
def feedSlot (slot : BcReasmSlot) (frag : BcMessage) (index total : ℕ) :
    BcStatus × BcReasmSlot × Option BcMessage :=
  if slot.active = true ∧ slot.total ≠ total then (.invalid, slot, none)
  else
    let slot := if slot.active = true then slot else slot.activate frag total
    if h : index * bcFragChunkMax + (frag.payloadLen - bcFragHdrSize) > bcMaxPayloadLen then
      (.invalid, slot, none)
    else
      let index : Fin (bcMaxPayloadLen / bcFragChunkMax + 1) := ⟨index, index_lt_bitmap h⟩
      if slot.bitmap index = true then (.notFound, slot, none)
      else
        let slot := slot.store index frag
        if slot.received < slot.total then (.notFound, slot, none)
        else (.ok, { slot with active := false }, some slot.message)

/-- `bc_reasm_feed`. The message is there only with `BC_OK`. -/
def bcReasmFeed (reasm : BcReasm) (frag : BcMessage) : BcStatus × BcReasm × Option BcMessage :=
  if frag.payloadLen < bcFragHdrSize then (.invalid, reasm, none)
  else if frag.fragTotal = 0 ∨ frag.fragIndex ≥ frag.fragTotal then (.invalid, reasm, none)
  else
    match findSlot reasm frag.seq frag.srcNode with
    | none => (.nomem, reasm, none)
    | some i =>
      let r := feedSlot (reasm.slots i) frag frag.fragIndex frag.fragTotal
      (r.1, reasm.set i r.2.1, r.2.2)

/-- One piece of a fragmented message. -/
def fragmentPiece (msg : BcMessage) (total index : ℕ) : BcMessage :=
  let chunk := (msg.payload.bytes.drop (index * bcFragChunkMax)).take
    (min (msg.payloadLen - index * bcFragChunkMax) bcFragChunkMax)
  { BcMessage.zero with
    srcNode := msg.srcNode, dstNode := msg.dstNode, qos := msg.qos, seq := msg.seq,
    flags := bcFlagFragment,
    topic := (CBuffer.zero _).strncpy msg.topic.bytes (bcMaxTopicLen - 1),
    channel := (CBuffer.zero _).strncpy msg.channel.bytes (bcMaxChannelLen - 1),
    payload := .ofPrefix _ (ByteLayout.toLE 2 index ++ ByteLayout.toLE 2 total
      ++ List.replicate 4 0 ++ chunk),
    payloadLen := bcFragHdrSize + min (msg.payloadLen - index * bcFragChunkMax) bcFragChunkMax }

section Publish

variable {σ : Type*} (emit : BcMessage → σ → BcStatus × σ)

/-- The loop of `bc_fragment_publish` over the remaining indices. -/
def bcFragmentPublishLoop (msg : BcMessage) (total : ℕ) : List ℕ → σ → BcStatus × σ
  | [], user => (.ok, user)
  | index :: indices, user =>
    match emit (fragmentPiece msg total index) user with
    | (.ok, user') => bcFragmentPublishLoop msg total indices user'
    | (rc, user') => (rc, user')

/-- `bc_fragment_publish`. -/
def bcFragmentPublish (msg : BcMessage) (user : σ) : BcStatus × σ :=
  if msg.payloadLen ≤ bcFragChunkMax then emit msg user
  else
    let total := (msg.payloadLen + bcFragChunkMax - 1) / bcFragChunkMax % 2 ^ 16
    if total = 0 then (.invalid, user)
    else bcFragmentPublishLoop emit msg total (List.range total) user

end Publish

/-- The pieces that `bc_fragment_publish` emits while every piece is accepted. -/
def fragmentsOf (msg : BcMessage) : List BcMessage :=
  (bcFragmentPublish (fun piece pieces => (.ok, pieces ++ [piece])) msg []).2

/-- Successive calls of `bc_reasm_feed`: what each call returns, and the table
afterwards. -/
def feedAll : BcReasm → List BcMessage → List (BcStatus × Option BcMessage) × BcReasm
  | reasm, [] => ([], reasm)
  | reasm, frag :: frags =>
    let r := bcReasmFeed reasm frag
    let rest := feedAll r.2.1 frags
    ((r.1, r.2.2) :: rest.1, rest.2)

/-- A message that needs two pieces has exactly these two. -/
theorem fragmentsOf_eq {msg : BcMessage} (hgt : bcFragChunkMax < msg.payloadLen)
    (hle : msg.payloadLen ≤ bcMaxPayloadLen) :
    fragmentsOf msg = [fragmentPiece msg 2 0, fragmentPiece msg 2 1] := by
  have htotal : (msg.payloadLen + bcFragChunkMax - 1) / bcFragChunkMax % 2 ^ 16 = 2 := by
    simp only [bcFragChunkMax, bcMaxPayloadLen, bcFragHdrSize] at *
    omega
  have hrange : List.range 2 = [0, 1] := rfl
  unfold fragmentsOf bcFragmentPublish
  simp only [if_neg (Nat.not_le.mpr hgt), htotal, if_neg two_ne_zero, hrange,
    bcFragmentPublishLoop, List.nil_append, List.cons_append]

/-- What `find_slot` answers: the slot of this message, else a free slot, and
nothing only if every slot collects another message. -/
def FoundSlot (reasm : BcReasm) (seq srcNode : UInt32) : Option (Fin bcReasmSlots) → Prop
  | some i => (reasm.slots i).Holds seq srcNode ∨
      ((reasm.slots i).active = false ∧ ∀ j, ¬ (reasm.slots j).Holds seq srcNode)
  | none => ∀ j, (reasm.slots j).active = true ∧ ¬ (reasm.slots j).Holds seq srcNode

theorem findSlot_spec (reasm : BcReasm) (seq srcNode : UInt32) :
    FoundSlot reasm seq srcNode (findSlot reasm seq srcNode) := by
  -- The slots looked at so far hold another message, and `free` is a free one of them if any.
  have hloop : ∀ (is : List (Fin bcReasmSlots)) (free : Option (Fin bcReasmSlots)),
      (∀ j, j ∉ is → ¬ (reasm.slots j).Holds seq srcNode) →
      (∀ i, free = some i → (reasm.slots i).active = false) →
      (free = none → ∀ j, j ∉ is → (reasm.slots j).active = true) →
      FoundSlot reasm seq srcNode (findSlotLoop reasm seq srcNode is free) := by
    intro is
    induction is with
    | nil =>
      intro free hseen hfree hnone
      cases free with
      | none => exact fun j => ⟨hnone rfl j (by simp), hseen j (by simp)⟩
      | some i => exact .inr ⟨hfree i rfl, fun j => hseen j (by simp)⟩
    | cons i is ih =>
      intro free hseen hfree hnone
      unfold findSlotLoop
      split_ifs with hholds hact
      · exact .inl hholds
      · refine ih (some i) ?_ ?_ (fun h => by cases h)
        · intro j hj
          by_cases hji : j = i
          · exact hji ▸ hholds
          · exact hseen j (by simp [hji, hj])
        · intro k hk
          cases hk
          exact hact.1
      · refine ih free ?_ hfree ?_
        · intro j hj
          by_cases hji : j = i
          · exact hji ▸ hholds
          · exact hseen j (by simp [hji, hj])
        · intro hfn j hj
          by_cases hji : j = i
          · subst hji
            by_contra hna
            exact hact ⟨eq_false_of_ne_true hna, hfn⟩
          · exact hnone hfn j (by simp [hji, hj])
  exact hloop _ none (fun j hj => absurd (List.mem_finRange j) hj) (fun i h => by cases h)
    (fun _ j hj => absurd (List.mem_finRange j) hj)

section Pieces

variable {msg : BcMessage} {total index : ℕ}

/-- The bytes of the message that go into one piece. -/
def chunkOf (msg : BcMessage) (index : ℕ) : List UInt8 :=
  (msg.body.drop (index * bcFragChunkMax)).take bcFragChunkMax

theorem chunkOf_length_le (msg : BcMessage) (index : ℕ) :
    (chunkOf msg index).length ≤ bcFragChunkMax := by
  simp only [chunkOf, List.length_take]
  omega

theorem chunkOf_length (hle : msg.payloadLen ≤ bcMaxPayloadLen) :
    (chunkOf msg index).length = min (msg.payloadLen - index * bcFragChunkMax) bcFragChunkMax := by
  simp only [chunkOf, List.length_take, List.length_drop, BcMessage.body_length hle, min_comm]

theorem fragmentPiece_payloadLen (hle : msg.payloadLen ≤ bcMaxPayloadLen) :
    (fragmentPiece msg total index).payloadLen = bcFragHdrSize + (chunkOf msg index).length := by
  rw [chunkOf_length hle, fragmentPiece]

theorem fragmentPiece_bytes (msg : BcMessage) (total index : ℕ) :
    ∃ rest, (fragmentPiece msg total index).payload.bytes =
      ByteLayout.toLE 2 index ++ (ByteLayout.toLE 2 total ++ (List.replicate 4 0
        ++ (chunkOf msg index ++ rest))) := by
  have hchunk : (msg.payload.bytes.drop (index * bcFragChunkMax)).take
      (min (msg.payloadLen - index * bcFragChunkMax) bcFragChunkMax) = chunkOf msg index := by
    simp only [chunkOf, BcMessage.body, List.drop_take, List.take_take, min_comm]
  have hroom := chunkOf_length_le msg index
  have hfit : (ByteLayout.toLE 2 index ++ ByteLayout.toLE 2 total ++ List.replicate 4 0
      ++ chunkOf msg index).length ≤ bcMaxPayloadLen := by
    simp only [List.length_append, ByteLayout.toLE_length, List.length_replicate]
    simp only [bcFragChunkMax, bcFragHdrSize, bcMaxPayloadLen] at *
    omega
  simp only [fragmentPiece]
  rw [hchunk, CBuffer.ofPrefix_bytes hfit]
  simp only [List.append_assoc]
  exact ⟨_, rfl⟩

/-- A receiver reads back the index, the total and the bytes of a piece. -/
theorem fragmentPiece_read (total index : ℕ) (hle : msg.payloadLen ≤ bcMaxPayloadLen)
    (hi : index < 2 ^ 16) (ht : total < 2 ^ 16) :
    (fragmentPiece msg total index).fragIndex = index ∧
      (fragmentPiece msg total index).fragTotal = total ∧
      (fragmentPiece msg total index).fragChunk = chunkOf msg index := by
  obtain ⟨rest, hbytes⟩ := fragmentPiece_bytes msg total index
  refine ⟨?_, ?_, ?_⟩
  · simp [BcMessage.fragIndex, hbytes, ByteLayout.ofLE_toLE 2 index hi]
  · simp [BcMessage.fragTotal, hbytes, ByteLayout.ofLE_toLE 2 total ht]
  · have hdrop : (fragmentPiece msg total index).payload.bytes.drop bcFragHdrSize =
        chunkOf msg index ++ rest := by
      rw [hbytes, ← List.append_assoc, ← List.append_assoc]
      exact List.drop_left' (by simp)
    rw [BcMessage.fragChunk, hdrop, fragmentPiece_payloadLen hle, Nat.add_sub_cancel_left,
      List.take_left]

theorem fragmentPiece_channel (total index : ℕ) (h : msg.channel.Terminated) :
    (fragmentPiece msg total index).channel.str = msg.channel.str := by
  simp only [fragmentPiece]
  rw [CBuffer.str_strncpy_zero _ (by decide)]
  exact CBuffer.cstr_take_of_terminated h

theorem fragmentPiece_topic (total index : ℕ) (h : msg.topic.Terminated) :
    (fragmentPiece msg total index).topic.str = msg.topic.str := by
  simp only [fragmentPiece]
  rw [CBuffer.str_strncpy_zero _ (by decide)]
  exact CBuffer.cstr_take_of_terminated h

/-- The pieces of a proper message are proper messages. -/
theorem fragmentPiece_wellFormed (h : msg.WellFormed) (total index : ℕ) :
    (fragmentPiece msg total index).WellFormed := by
  obtain ⟨hchannel, htopic, hne, hlen⟩ := h
  have hchannelStr := fragmentPiece_channel total index hchannel
  have htopicStr := fragmentPiece_topic total index htopic
  refine ⟨?_, ?_, ?_, ?_⟩
  · rw [CBuffer.Terminated, hchannelStr]
    exact hchannel
  · rw [CBuffer.Terminated, htopicStr]
    exact htopic
  · rw [htopicStr]
    exact hne
  · have hchunk := chunkOf_length_le msg index
    rw [fragmentPiece_payloadLen hlen]
    simp only [bcFragChunkMax, bcFragHdrSize, bcMaxPayloadLen] at *
    omega

/-- A piece is built from cleared arrays, so a receiver of its bytes rebuilds it. -/
theorem fragmentPiece_canonical (hle : msg.payloadLen ≤ bcMaxPayloadLen) (total index : ℕ) :
    (fragmentPiece msg total index).canonical = fragmentPiece msg total index := by
  have hchunk : ((msg.payload.bytes.drop (index * bcFragChunkMax)).take
      (min (msg.payloadLen - index * bcFragChunkMax) bcFragChunkMax)).length =
        min (msg.payloadLen - index * bcFragChunkMax) bcFragChunkMax := by
    simp only [List.length_take, List.length_drop, CBuffer.length_bytes]
    omega
  have hlen : (ByteLayout.toLE 2 index ++ ByteLayout.toLE 2 total ++ List.replicate 4 0 ++
      (msg.payload.bytes.drop (index * bcFragChunkMax)).take
        (min (msg.payloadLen - index * bcFragChunkMax) bcFragChunkMax)).length =
      bcFragHdrSize + min (msg.payloadLen - index * bcFragChunkMax) bcFragChunkMax := by
    simp only [List.length_append, ByteLayout.toLE_length, List.length_replicate, hchunk]
  have hfit : bcFragHdrSize + min (msg.payloadLen - index * bcFragChunkMax) bcFragChunkMax ≤
      bcMaxPayloadLen := by
    simp only [bcFragChunkMax, bcFragHdrSize, bcMaxPayloadLen]
    omega
  have hbody := CBuffer.take_ofPrefix (hlen.trans_le hfit)
  rw [hlen] at hbody
  simp only [BcMessage.canonical, BcMessage.body, fragmentPiece, BcMessage.mk.injEq, true_and]
  refine ⟨?_, ?_, ?_⟩
  · rw [CBuffer.str_strncpy_zero _ (by decide), CBuffer.strncpy_zero _ (by decide)]
  · rw [CBuffer.str_strncpy_zero _ (by decide), CBuffer.strncpy_zero _ (by decide)]
  · rw [hbody]

end Pieces

section Feed

variable {slot : BcReasmSlot} {msg : BcMessage}

/-- Feeding a slot keeps the message it collects, or takes it for the message of
the piece. -/
theorem feedSlot_key (slot : BcReasmSlot) (frag : BcMessage) (index total : ℕ) :
    let slot' := (feedSlot slot frag index total).2.1
    (slot'.seq = slot.seq ∧ slot'.srcNode = slot.srcNode ∧
        (slot'.active = true → slot.active = true)) ∨
      (slot'.seq = frag.seq ∧ slot'.srcNode = frag.srcNode) := by
  unfold feedSlot
  by_cases hact : slot.active = true
  · left
    simp only [hact, true_and, if_true]
    split_ifs <;> simp [BcReasmSlot.store, hact]
  · right
    simp only [eq_false_of_ne_true hact, Bool.false_eq_true, false_and, if_false]
    split_ifs <;> exact ⟨rfl, rfl⟩

/-- Either piece has room at its place. -/
theorem fragmentPiece_fits (hle : msg.payloadLen ≤ bcMaxPayloadLen)
    (index : Fin (bcMaxPayloadLen / bcFragChunkMax + 1)) :
    ¬ index * bcFragChunkMax + ((fragmentPiece msg 2 index).payloadLen - bcFragHdrSize)
      > bcMaxPayloadLen := by
  rw [fragmentPiece_payloadLen hle, chunkOf_length hle]
  simp only [bcFragChunkMax, bcMaxPayloadLen, bcFragHdrSize] at *
  omega

/-- A free slot takes the first piece that arrives. -/
theorem feedSlot_first (hfree : slot.active = false) (hle : msg.payloadLen ≤ bcMaxPayloadLen)
    (index : Fin (bcMaxPayloadLen / bcFragChunkMax + 1)) :
    feedSlot slot (fragmentPiece msg 2 index) index 2 =
      (.notFound,
        (slot.activate (fragmentPiece msg 2 index) 2).store index (fragmentPiece msg 2 index),
        none) := by
  have hfit := fragmentPiece_fits hle index
  unfold feedSlot
  simp only [hfree, Bool.false_eq_true, false_and, if_false, dif_neg hfit, Fin.eta]
  rfl

/-- A slot in use ignores a piece it has. -/
theorem feedSlot_again (hle : msg.payloadLen ≤ bcMaxPayloadLen) (hact : slot.active = true)
    (htotal : slot.total = 2) {index : Fin (bcMaxPayloadLen / bcFragChunkMax + 1)}
    (hbit : slot.bitmap index = true) :
    feedSlot slot (fragmentPiece msg 2 index) index 2 = (.notFound, slot, none) := by
  have hfit := fragmentPiece_fits hle index
  unfold feedSlot
  simp only [hact, htotal, ne_eq, not_true, and_false, if_false, if_true, dif_neg hfit, Fin.eta,
    hbit]

/-- A slot that holds one piece completes with the other. -/
theorem feedSlot_second (hle : msg.payloadLen ≤ bcMaxPayloadLen) (hact : slot.active = true)
    (htotal : slot.total = 2) (hreceived : slot.received = 1)
    {index : Fin (bcMaxPayloadLen / bcFragChunkMax + 1)} (hbit : slot.bitmap index = false) :
    feedSlot slot (fragmentPiece msg 2 index) index 2 =
      (.ok, { slot.store index (fragmentPiece msg 2 index) with active := false },
        some (slot.store index (fragmentPiece msg 2 index)).message) := by
  have hfit := fragmentPiece_fits hle index
  have hdone : ¬ (slot.store index (fragmentPiece msg 2 index)).received <
      (slot.store index (fragmentPiece msg 2 index)).total := by
    simp [BcReasmSlot.store, htotal, hreceived]
  unfold feedSlot
  simp only [hact, htotal, ne_eq, not_true, and_false, if_false, if_true, dif_neg hfit, Fin.eta,
    hbit, Bool.false_eq_true, if_neg hdone]

/-- The text that the slot and then the message keep of a string of the piece. -/
theorem message_topic (piece piece' : BcMessage) (i j : Fin (bcMaxPayloadLen / bcFragChunkMax + 1)) :
    (((slot.activate piece 2).store i piece).store j piece').message.topic.str =
      CBuffer.cstr (piece.topic.bytes.take (bcMaxTopicLen - 1)) := by
  rw [BcReasmSlot.message, CBuffer.str_strncpy_zero _ (by decide)]
  exact CBuffer.cstr_take_strncpy _ _ (by decide)

theorem message_channel (piece piece' : BcMessage)
    (i j : Fin (bcMaxPayloadLen / bcFragChunkMax + 1)) :
    (((slot.activate piece 2).store i piece).store j piece').message.channel.str =
      CBuffer.cstr (piece.channel.bytes.take (bcMaxChannelLen - 1)) := by
  rw [BcReasmSlot.message, CBuffer.str_strncpy_zero _ (by decide)]
  exact CBuffer.cstr_take_strncpy _ _ (by decide)

/-- The two pieces of a payload, stored at their places, are the payload. -/
theorem copyAt_chunks (b : CBuffer bcMaxPayloadLen) (hgt : bcFragChunkMax < msg.payloadLen)
    (hle : msg.payloadLen ≤ bcMaxPayloadLen) :
    ((b.copyAt 0 (chunkOf msg 0)).copyAt bcFragChunkMax (chunkOf msg 1)).bytes.take
      msg.payloadLen = msg.body := by
  have h0 : (chunkOf msg 0).length = bcFragChunkMax := by
    rw [chunkOf_length hle]
    omega
  have h1 : (chunkOf msg 1).length = msg.payloadLen - bcFragChunkMax := by
    rw [chunkOf_length hle]
    simp only [bcFragChunkMax, bcMaxPayloadLen, bcFragHdrSize] at *
    omega
  have hbody : chunkOf msg 0 ++ chunkOf msg 1 = msg.body := by
    have hlast : (msg.body.drop bcFragChunkMax).take bcFragChunkMax =
        msg.body.drop bcFragChunkMax := by
      apply List.take_of_length_le
      rw [List.length_drop, BcMessage.body_length hle]
      simp only [bcFragChunkMax, bcMaxPayloadLen, bcFragHdrSize] at *
      omega
    rw [chunkOf, chunkOf, Nat.zero_mul, List.drop_zero, Nat.one_mul, hlast, List.take_append_drop]
  have hfirst : (b.copyAt 0 (chunkOf msg 0)).bytes.take bcFragChunkMax = chunkOf msg 0 := by
    rw [CBuffer.copyAt_bytes b (by rw [h0]; decide), List.take_zero, List.nil_append,
      List.take_left' h0]
  have hsum : (chunkOf msg 0 ++ chunkOf msg 1).length = msg.payloadLen := by
    rw [List.length_append, h0, h1]
    omega
  rw [CBuffer.copyAt_bytes _ (by rw [h1]; omega), hfirst, List.take_left' hsum, hbody]

/-- What a slot hands out after the two pieces of a message is that message. Its
own flags do not travel with the pieces. -/
theorem message_same (slot : BcReasmSlot) (hgt : bcFragChunkMax < msg.payloadLen)
    (hle : msg.payloadLen ≤ bcMaxPayloadLen) (hch : msg.channel.Terminated)
    (htop : msg.topic.Terminated) :
    (((slot.activate (fragmentPiece msg 2 0) 2).store 0 (fragmentPiece msg 2 0)).store 1
      (fragmentPiece msg 2 1)).message.Same { msg with flags := 0 } := by
  obtain ⟨-, -, hc0⟩ := fragmentPiece_read 2 0 hle (by decide) (by decide)
  obtain ⟨-, -, hc1⟩ := fragmentPiece_read 2 1 hle (by decide) (by decide)
  have hl0 : (fragmentPiece msg 2 0).payloadLen - bcFragHdrSize = bcFragChunkMax := by
    rw [fragmentPiece_payloadLen hle, chunkOf_length hle]
    omega
  have hl1 : (fragmentPiece msg 2 1).payloadLen - bcFragHdrSize =
      msg.payloadLen - bcFragChunkMax := by
    rw [fragmentPiece_payloadLen hle, chunkOf_length hle]
    simp only [bcFragChunkMax, bcMaxPayloadLen, bcFragHdrSize] at *
    omega
  have hone : ((1 : Fin (bcMaxPayloadLen / bcFragChunkMax + 1)) : ℕ) = 1 := rfl
  have hlen : (((slot.activate (fragmentPiece msg 2 0) 2).store 0 (fragmentPiece msg 2 0)).store 1
      (fragmentPiece msg 2 1)).payloadLen = msg.payloadLen := by
    simp only [BcReasmSlot.store, BcReasmSlot.activate, hl0, hl1]
    simp only [Fin.val_zero, hone, bcFragChunkMax, bcMaxPayloadLen, bcFragHdrSize] at *
    omega
  have hbytes : (((slot.activate (fragmentPiece msg 2 0) 2).store 0 (fragmentPiece msg 2 0)).store
      1 (fragmentPiece msg 2 1)).payload.bytes.take msg.payloadLen = msg.body := by
    have hcopy := copyAt_chunks slot.payload hgt hle
    simpa only [BcReasmSlot.store, BcReasmSlot.activate, hc0, hc1, Fin.val_zero, hone,
      Nat.zero_mul, Nat.one_mul] using hcopy
  refine ⟨rfl, rfl, rfl, rfl, rfl, ?_, ?_, hlen, ?_⟩
  · rw [message_channel, fragmentPiece]
    simp only
    rw [CBuffer.cstr_take_strncpy _ _ (by decide)]
    exact CBuffer.cstr_take_of_terminated hch
  · rw [message_topic, fragmentPiece]
    simp only
    rw [CBuffer.cstr_take_strncpy _ _ (by decide)]
    exact CBuffer.cstr_take_of_terminated htop
  · have hfit : msg.body.length ≤ bcMaxPayloadLen := by
      rw [BcMessage.body_length hle]
      exact hle
    have htake := CBuffer.take_ofPrefix hfit
    rw [BcMessage.body_length hle] at htake
    simp only [BcMessage.body, BcReasmSlot.message, hlen, hbytes]
    exact htake

end Feed

section Runs

/-- A message that is complete with a piece has the number and the node of the piece. -/
theorem bcReasmFeed_identity {reasm : BcReasm} {frag out : BcMessage}
    (hout : (bcReasmFeed reasm frag).2.2 = some out) :
    out.seq = frag.seq ∧ out.srcNode = frag.srcNode := by
  unfold bcReasmFeed at hout
  split_ifs at hout
  have hspec := findSlot_spec reasm frag.seq frag.srcNode
  cases hfind : findSlot reasm frag.seq frag.srcNode with
  | none => simp [hfind] at hout
  | some i =>
    rw [hfind] at hspec
    simp only [hfind] at hout
    unfold feedSlot at hout
    rcases hspec with ⟨hactive, hseq, hsrc⟩ | ⟨hfree, -⟩
    · simp only [hactive, true_and, if_true] at hout
      split_ifs at hout
      cases hout
      exact ⟨hseq, hsrc⟩
    · simp only [hfree, Bool.false_eq_true, false_and, if_false] at hout
      split_ifs at hout
      cases hout
      exact ⟨rfl, rfl⟩

/-- It has no flags. -/
theorem bcReasmFeed_flags {reasm : BcReasm} {frag out : BcMessage}
    (hout : (bcReasmFeed reasm frag).2.2 = some out) : out.flags = 0 := by
  unfold bcReasmFeed at hout
  split_ifs at hout
  cases hfind : findSlot reasm frag.seq frag.srcNode with
  | none => simp [hfind] at hout
  | some i =>
    simp only [hfind] at hout
    unfold feedSlot at hout
    simp only at hout
    split_ifs at hout <;> cases hout <;> rfl

/-- Every slot in use collects a message of which a piece has been fed. -/
def CollectsFed (fed : List BcMessage) (reasm : BcReasm) : Prop :=
  ∀ i, (reasm.slots i).active = true →
    ∃ frag ∈ fed, frag.seq = (reasm.slots i).seq ∧ frag.srcNode = (reasm.slots i).srcNode

theorem collectsFed_feed {fed : List BcMessage} {reasm : BcReasm} (h : CollectsFed fed reasm)
    (frag : BcMessage) : CollectsFed (fed ++ [frag]) (bcReasmFeed reasm frag).2.1 := by
  have hmono : CollectsFed (fed ++ [frag]) reasm := by
    intro i hi
    obtain ⟨f, hf, hkey⟩ := h i hi
    exact ⟨f, List.mem_append_left _ hf, hkey⟩
  unfold bcReasmFeed
  split_ifs
  · exact hmono
  · exact hmono
  cases hfind : findSlot reasm frag.seq frag.srcNode with
  | none => exact hmono
  | some i =>
    intro j hj
    by_cases hji : j = i
    · subst hji
      have hkey := feedSlot_key (reasm.slots j) frag frag.fragIndex frag.fragTotal
      simp only [BcReasm.set, Function.update_self] at hj hkey ⊢
      rcases hkey with ⟨hseq, hsrc, hact⟩ | ⟨hseq, hsrc⟩
      · rw [hseq, hsrc]
        exact hmono j (hact hj)
      · exact ⟨frag, by simp, hseq.symm, hsrc.symm⟩
    · simp only [BcReasm.set, Function.update_of_ne hji] at hj ⊢
      exact hmono j hj

theorem collectsFed_feedAll {fed : List BcMessage} {reasm : BcReasm} (h : CollectsFed fed reasm)
    (frags : List BcMessage) : CollectsFed (fed ++ frags) (feedAll reasm frags).2 := by
  induction frags generalizing fed reasm with
  | nil => simpa [feedAll] using h
  | cons frag frags ih =>
    have hstep := ih (collectsFed_feed h frag)
    rw [List.append_assoc] at hstep
    exact hstep

/-- No slot collects a message of which nothing has been fed. -/
theorem not_holds_of_fresh {frags : List BcMessage} {seq srcNode : UInt32}
    (hfresh : ∀ frag ∈ frags, (frag.seq, frag.srcNode) ≠ (seq, srcNode)) (i : Fin bcReasmSlots) :
    ¬ ((feedAll bcReasmInit frags).2.slots i).Holds seq srcNode := by
  have hinit : CollectsFed [] bcReasmInit := fun i hi => by cases hi
  intro hholds
  obtain ⟨frag, hfrag, hseq, hsrc⟩ := collectsFed_feedAll hinit frags i hholds.1
  apply hfresh frag hfrag
  rw [hseq, hsrc, hholds.2.1, hholds.2.2]

/-- A message that no slot collects gets a free slot if there is one. -/
theorem findSlot_free {reasm : BcReasm} {seq srcNode : UInt32}
    (hnew : ∀ i, ¬ (reasm.slots i).Holds seq srcNode)
    (hroom : ∃ i, (reasm.slots i).active = false) :
    ∃ i, findSlot reasm seq srcNode = some i ∧ (reasm.slots i).active = false := by
  have hspec := findSlot_spec reasm seq srcNode
  cases hfind : findSlot reasm seq srcNode with
  | none =>
    rw [hfind] at hspec
    obtain ⟨i, hi⟩ := hroom
    have hact := (hspec i).1
    rw [hi] at hact
    cases hact
  | some i =>
    rw [hfind] at hspec
    rcases hspec with hholds | ⟨hi, -⟩
    · exact absurd hholds (hnew i)
    · exact ⟨i, rfl, hi⟩

/-- The only slot that collects a message is found. -/
theorem findSlot_only {reasm : BcReasm} {seq srcNode : UInt32} {i : Fin bcReasmSlots}
    (hi : (reasm.slots i).Holds seq srcNode)
    (honly : ∀ j, j ≠ i → ¬ (reasm.slots j).Holds seq srcNode) :
    findSlot reasm seq srcNode = some i := by
  have hspec := findSlot_spec reasm seq srcNode
  cases hfind : findSlot reasm seq srcNode with
  | none =>
    rw [hfind] at hspec
    exact absurd hi (hspec i).2
  | some j =>
    rw [hfind] at hspec
    by_cases hji : j = i
    · rw [hji]
    · rcases hspec with hj | ⟨-, hnone⟩
      · exact absurd hj (honly j hji)
      · exact absurd hi (hnone i)

/-- Without a free slot a message that no slot collects is refused. -/
theorem findSlot_full {reasm : BcReasm} {seq srcNode : UInt32}
    (hnew : ∀ i, ¬ (reasm.slots i).Holds seq srcNode)
    (hfull : ∀ i, (reasm.slots i).active = true) : findSlot reasm seq srcNode = none := by
  have hspec := findSlot_spec reasm seq srcNode
  cases hfind : findSlot reasm seq srcNode with
  | none => rfl
  | some i =>
    rw [hfind] at hspec
    rcases hspec with hholds | ⟨hi, -⟩
    · exact absurd hholds (hnew i)
    · rw [hfull i] at hi
      cases hi

variable {msg : BcMessage}

/-- `bc_reasm_feed` on a piece passes its argument checks and goes to the slot. -/
theorem bcReasmFeed_piece (reasm : BcReasm) (hle : msg.payloadLen ≤ bcMaxPayloadLen) {index : ℕ}
    (hi : index < 2) :
    bcReasmFeed reasm (fragmentPiece msg 2 index) =
      match findSlot reasm msg.seq msg.srcNode with
      | none => (.nomem, reasm, none)
      | some i =>
        let r := feedSlot (reasm.slots i) (fragmentPiece msg 2 index) index 2
        (r.1, reasm.set i r.2.1, r.2.2) := by
  obtain ⟨hindex, htotal, -⟩ := fragmentPiece_read 2 index hle (by omega) (by decide)
  have hhdr : ¬ (fragmentPiece msg 2 index).payloadLen < bcFragHdrSize := by
    rw [fragmentPiece_payloadLen hle]
    omega
  have hcheck : ¬ (2 = 0 ∨ index ≥ 2) := by omega
  rw [bcReasmFeed, hindex, htotal, if_neg hhdr, if_neg hcheck]
  rfl

/-- With a free slot the two pieces are reassembled. -/
theorem feedAll_fragments_free {reasm : BcReasm} (hgt : bcFragChunkMax < msg.payloadLen)
    (hle : msg.payloadLen ≤ bcMaxPayloadLen) (hch : msg.channel.Terminated)
    (htop : msg.topic.Terminated)
    (hnew : ∀ i, ¬ (reasm.slots i).Holds msg.seq msg.srcNode)
    (hroom : ∃ i, (reasm.slots i).active = false) :
    ∃ out, (feedAll reasm (fragmentsOf msg)).1 = [(.notFound, none), (.ok, some out)] ∧
      out.Same { msg with flags := out.flags } := by
  obtain ⟨i, hfind, hfree⟩ := findSlot_free hnew hroom
  let p0 := fragmentPiece msg 2 0
  let slot1 := ((reasm.slots i).activate p0 2).store 0 p0
  have hfirst : bcReasmFeed reasm p0 = (.notFound, reasm.set i slot1, none) := by
    have hslot := feedSlot_first hfree hle 0
    rw [Fin.val_zero] at hslot
    rw [bcReasmFeed_piece reasm hle (by decide), hfind]
    simp only [hslot]
    rfl
  have hself : (reasm.set i slot1).slots i = slot1 := by simp [BcReasm.set]
  have hfind' : findSlot (reasm.set i slot1) msg.seq msg.srcNode = some i := by
    apply findSlot_only
    · rw [hself]
      exact ⟨rfl, rfl, rfl⟩
    · intro j hj
      simp only [BcReasm.set, Function.update_of_ne hj]
      exact hnew j
  have hbit : slot1.bitmap 1 = false := rfl
  have hsecond : bcReasmFeed (reasm.set i slot1) (fragmentPiece msg 2 1) =
      (.ok, (reasm.set i slot1).set i
        { slot1.store 1 (fragmentPiece msg 2 1) with active := false },
        some (slot1.store 1 (fragmentPiece msg 2 1)).message) := by
    have hone : ((1 : Fin (bcMaxPayloadLen / bcFragChunkMax + 1)) : ℕ) = 1 := rfl
    have hslot := feedSlot_second hle rfl rfl rfl hbit
    rw [hone] at hslot
    rw [bcReasmFeed_piece _ hle (by decide), hfind']
    simp only [hself, hslot]
  refine ⟨(slot1.store 1 (fragmentPiece msg 2 1)).message, ?_, ?_⟩
  · rw [fragmentsOf_eq hgt hle]
    simp only [feedAll, hsecond, show bcReasmFeed reasm (fragmentPiece msg 2 0) = _ from hfirst]
  · exact message_same (reasm.slots i) hgt hle hch htop

/-- Without a free slot both pieces are refused and the table stays as it is. -/
theorem feedAll_fragments_full {reasm : BcReasm} (hgt : bcFragChunkMax < msg.payloadLen)
    (hle : msg.payloadLen ≤ bcMaxPayloadLen)
    (hnew : ∀ i, ¬ (reasm.slots i).Holds msg.seq msg.srcNode)
    (hfull : ∀ i, (reasm.slots i).active = true) :
    feedAll reasm (fragmentsOf msg) = ([(.nomem, none), (.nomem, none)], reasm) := by
  have hrefuse : ∀ index, index < 2 →
      bcReasmFeed reasm (fragmentPiece msg 2 index) = (.nomem, reasm, none) := by
    intro index hi
    rw [bcReasmFeed_piece reasm hle hi, findSlot_full hnew hfull]
  rw [fragmentsOf_eq hgt hle]
  simp only [feedAll, hrefuse 0 (by decide), hrefuse 1 (by decide)]

end Runs

/-- Reassembly of a new message. After any pieces from anywhere, the two pieces
of a message whose number and node have not been seen are reassembled if a slot
is free, and both refused if none is. -/
theorem reasm_new_message (frags : List BcMessage) (msg : BcMessage)
    (hgt : bcFragChunkMax < msg.payloadLen) (hle : msg.payloadLen ≤ bcMaxPayloadLen)
    (hch : msg.channel.Terminated) (htop : msg.topic.Terminated)
    (hfresh : ∀ frag ∈ frags, (frag.seq, frag.srcNode) ≠ (msg.seq, msg.srcNode)) :
    let reasm := (feedAll bcReasmInit frags).2
    ((∃ i, (reasm.slots i).active = false) →
      ∃ out, (feedAll reasm (fragmentsOf msg)).1 = [(.notFound, none), (.ok, some out)] ∧
        out.Same { msg with flags := out.flags }) ∧
    ((∀ i, (reasm.slots i).active = true) →
      feedAll reasm (fragmentsOf msg) = ([(.nomem, none), (.nomem, none)], reasm)) := by
  intro reasm
  have hnew := not_holds_of_fresh hfresh
  exact ⟨feedAll_fragments_free hgt hle hch htop hnew, feedAll_fragments_full hgt hle hnew⟩

/-- A message that needs two pieces. -/
def longMessage (seq : UInt32) : BcMessage :=
  { BcMessage.zero with
    srcNode := 2, seq := seq, topic := .ofPrefix _ [116], payloadLen := bcMaxPayloadLen }

/-- Sixteen messages of which the second piece is lost. -/
def lostSecondPieces : List BcMessage :=
  (List.range bcReasmSlots).map fun n => fragmentPiece (longMessage (.ofNat n)) 2 0

/-- Fifteen messages whose second piece is lost, the second piece of one of them after
all, and a repeated first piece. -/
def mixedPieces : List BcMessage :=
  lostSecondPieces.take 15 ++ [fragmentPiece (longMessage 3) 2 1, fragmentPiece (longMessage 4) 2 0]

theorem reasm_new_message_mixed :
    ∃ out, (feedAll (feedAll bcReasmInit mixedPieces).2 (fragmentsOf (longMessage 16))).1 =
        [(.notFound, none), (.ok, some out)] ∧
      out.Same { longMessage 16 with flags := out.flags } :=
  (reasm_new_message mixedPieces (longMessage 16) (by decide) (by decide) (by decide +kernel)
    (by decide +kernel) (by decide +kernel)).1 ⟨15, by decide +kernel⟩

/-- After these no new message gets through. -/
theorem reasm_full_after_losses :
    (∀ frag ∈ lostSecondPieces,
      (frag.seq, frag.srcNode) ≠ ((longMessage 16).seq, (longMessage 16).srcNode)) ∧
    ((feedAll (feedAll bcReasmInit lostSecondPieces).2 (fragmentsOf (longMessage 16))).1.map
      Prod.fst) = [.nomem, .nomem] := by
  decide +kernel

end BoardComm
