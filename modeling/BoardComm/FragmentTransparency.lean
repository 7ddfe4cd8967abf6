import BoardComm.Acknowledgement
import BoardComm.Reassembly

/-!
# Pieces against the whole message

What a node does with the two pieces of a long message, compared with what it does
with the message in one. The message put together from the pieces differs from the
original in its flags only, and these show in the frames for the subscribers.
-/
namespace BoardComm

/-- The same message with flags of its own. -/
def BcMessage.Reflagged (out msg : BcMessage) : Prop := out.Same { msg with flags := out.flags }

section Reflagged

variable {σ ν : Type*} {out msg : BcMessage}

theorem BcMessage.Reflagged.channel_terminated (h : out.Reflagged msg)
    (hmsg : msg.channel.Terminated) : out.channel.Terminated := by
  rw [CBuffer.Terminated, h.channel]
  exact hmsg

theorem BcMessage.Reflagged.topic_terminated (h : out.Reflagged msg)
    (hmsg : msg.topic.Terminated) : out.topic.Terminated := by
  rw [CBuffer.Terminated, h.topic]
  exact hmsg

/-- The bytes of the message that a piece takes. -/
theorem chunk_eq (msg : BcMessage) (index : ℕ) :
    (msg.payload.bytes.drop (index * bcFragChunkMax)).take
      (min (msg.payloadLen - index * bcFragChunkMax) bcFragChunkMax) = chunkOf msg index := by
  simp only [chunkOf, BcMessage.body, List.drop_take, List.take_take, min_comm]

/-- The flags of a message do not go into its pieces. -/
theorem fragmentPiece_reflagged (h : out.Reflagged msg) (hchannel : msg.channel.Terminated)
    (htopic : msg.topic.Terminated) (total index : ℕ) :
    fragmentPiece out total index = fragmentPiece msg total index := by
  have hsame : out.body = msg.body := h.body
  have hlen : out.payloadLen = msg.payloadLen := h.payloadLen
  have hchunk := chunk_eq out index
  rw [chunkOf, hsame, ← chunkOf, ← chunk_eq msg, hlen] at hchunk
  have hch : CBuffer.cstr (out.channel.bytes.take (bcMaxChannelLen - 1)) =
      CBuffer.cstr (msg.channel.bytes.take (bcMaxChannelLen - 1)) :=
    ((CBuffer.cstr_take_of_terminated (h.channel_terminated hchannel)).trans h.channel).trans
      (CBuffer.cstr_take_of_terminated hchannel).symm
  have htop : CBuffer.cstr (out.topic.bytes.take (bcMaxTopicLen - 1)) =
      CBuffer.cstr (msg.topic.bytes.take (bcMaxTopicLen - 1)) :=
    ((CBuffer.cstr_take_of_terminated (h.topic_terminated htopic)).trans h.topic).trans
      (CBuffer.cstr_take_of_terminated htopic).symm
  simp only [fragmentPiece, hlen, BcMessage.mk.injEq, true_and]
  refine ⟨h.srcNode, h.dstNode, h.qos, h.seq, ?_, ?_⟩
  · rw [CBuffer.strncpy_zero _ (by decide), CBuffer.strncpy_zero _ (by decide), hch]
  · rw [CBuffer.strncpy_zero _ (by decide), CBuffer.strncpy_zero _ (by decide), htop, hchunk]
    exact ⟨rfl, rfl⟩

/-- A long message goes out the same with any flags. -/
theorem sendOnTransport_reflagged (send : ℕ → List UInt8 → ν → BcStatus × ν) (transport : ℕ)
    (h : out.Reflagged msg) (hchannel : msg.channel.Terminated) (htopic : msg.topic.Terminated)
    (hgt : bcFragChunkMax < msg.payloadLen) (use : NetworkUse ν) :
    sendOnTransport send transport out use = sendOnTransport send transport msg use := by
  have hlen : out.payloadLen = msg.payloadLen := h.payloadLen
  have hloop : ∀ (total : ℕ) (indices : List ℕ) (use : NetworkUse ν),
      bcFragmentPublishLoop (emitNetworkFrame send transport) out total indices use =
        bcFragmentPublishLoop (emitNetworkFrame send transport) msg total indices use := by
    intro total indices
    induction indices with
    | nil => exact fun _ => rfl
    | cons index indices ih =>
      intro use
      unfold bcFragmentPublishLoop
      rw [fragmentPiece_reflagged h hchannel htopic]
      simp only [ih]
  unfold sendOnTransport bcFragmentPublish
  simp only [hlen, if_pos hgt, if_neg (Nat.not_le.mpr hgt), hloop]

theorem forwardMessage_reflagged (send : ℕ → List UInt8 → ν → BcStatus × ν) (bus : MessageBus)
    (h : out.Reflagged msg) (hchannel : msg.channel.Terminated) (htopic : msg.topic.Terminated)
    (hgt : bcFragChunkMax < msg.payloadLen) (exclude : Option ℕ) (transports : ν) :
    forwardMessage send bus out exclude transports =
      forwardMessage send bus msg exclude transports := by
  have hch : out.channel.str = msg.channel.str := h.channel
  have htop : out.topic.str = msg.topic.str := h.topic
  have hroute : bcRouterRoute bus.router out = bcRouterRoute bus.router msg := by
    simp only [bcRouterRoute, hch, htop]
  unfold forwardMessage
  simp only [hroute, sendOnTransport_reflagged send _ h hchannel htopic hgt]

/-- The frame for the subscribers shows the flags, and nothing else is different. -/
theorem deliverFrame_reflagged (h : out.Reflagged msg) :
    deliverFrame out = deliverFrame { msg with flags := out.flags } := by
  have hch : out.channel.str = msg.channel.str := h.channel
  have htop : out.topic.str = msg.topic.str := h.topic
  have hbody : out.body = msg.body := h.body
  have hlen : out.payloadLen = msg.payloadLen := h.payloadLen
  have hdst : out.dstNode = msg.dstNode := h.dstNode
  have hqos : out.qos = msg.qos := h.qos
  have hseq : out.seq = msg.seq := h.seq
  have hframe : ∀ m : BcMessage, deliverFrame m =
      ({ magic := bcIpcMagic, version := bcIpcVersion, type := bcIpcDeliver,
         topicLen := .ofNat m.topic.str.length, channelLen := .ofNat m.channel.str.length,
         payloadLen := .ofNat m.payloadLen, dstNode := m.dstNode, qos := m.qos,
         flags := m.flags, seq := m.seq } : IpcHeader).toBytes
        ++ m.channel.str ++ m.topic.str ++ m.body := by
    intro m
    simp only [deliverFrame, CBuffer.strnlen_bytes, CBuffer.take_str_length]
  have hbody' : ({ msg with flags := out.flags } : BcMessage).body = msg.body := rfl
  simp only [hframe, hch, htop, hbody, hlen, hdst, hqos, hseq, hbody']

theorem deliverFrame_flags {a b : BcMessage} (h : deliverFrame a = deliverFrame b) :
    a.flags = b.flags := by
  have hread : ∀ m : BcMessage, (IpcHeader.ofBytes (deliverFrame m)).flags = m.flags := by
    intro m
    simp only [deliverFrame, List.append_assoc, IpcHeader.ofBytes_toBytes_append]
  rw [← hread a, ← hread b, h]

/-- The entries that take the message do not depend on the flags. -/
theorem wants_reflagged (h : out.Reflagged msg) (source : ℤ) (sub : BcSubscription) :
    sub.wants source out = sub.wants source msg := by
  have htop : out.topic.str = msg.topic.str := h.topic
  simp only [BcSubscription.wants, htop]

theorem shouldDeliverLocal_reflagged (h : out.Reflagged msg) (bus : MessageBus) :
    shouldDeliverLocal bus out = shouldDeliverLocal bus msg := by
  have hdst : out.dstNode = msg.dstNode := h.dstNode
  simp only [shouldDeliverLocal, hdst]

theorem matchingEntries_reflagged (h : out.Reflagged msg) (bus : MessageBus) (source : ℤ) :
    matchingEntries bus source out = matchingEntries bus source msg := by
  simp only [matchingEntries, shouldDeliverLocal_reflagged h, wants_reflagged h]

/-- A local delivery in which no entry sees the difference. -/
theorem inboundLocal_reflagged (deliver : ℤ → List UInt8 → σ → DeliverAnswer × σ)
    (s : BusState σ ν) (h : out.Reflagged msg)
    (hframe : deliverFrame out = deliverFrame msg ∨ matchingEntries s.bus (-1) msg = []) :
    inboundLocal deliver s out = inboundLocal deliver s msg := by
  unfold inboundLocal
  rw [shouldDeliverLocal_reflagged h]
  by_cases hhere : shouldDeliverLocal s.bus msg = true
  · have hloop : ∀ (subs : List BcSubscription) (clients : σ),
        deliverFrame out = deliverFrame msg ∨ subs.filter (·.wants (-1) msg) = [] →
        deliverLocalLoop deliver (-1) out subs clients =
          deliverLocalLoop deliver (-1) msg subs clients := by
      intro subs
      induction subs with
      | nil => exact fun _ _ => rfl
      | cons sub subs ih =>
        intro clients hsee
        unfold deliverLocalLoop
        rw [wants_reflagged h]
        by_cases hwants : sub.wants (-1) msg = true
        · have heq : deliverFrame out = deliverFrame msg := by
            rcases hsee with heq | hnone
            · exact heq
            · simp [hwants] at hnone
          simp only [if_pos hwants, heq, ih _ (.inl heq)]
        · simp only [if_neg hwants]
          apply ih
          simpa [hwants] using hsee
    rw [matchingEntries, if_pos hhere] at hframe
    simp only [if_pos hhere, bcMessageBusDeliverLocal, hloop s.bus.subscriptions s.clients hframe]
  · simp only [if_neg hhere]

/-- A long message that no entry tells from the original has the same effects. -/
theorem inboundComplete_reflagged (deliver : ℤ → List UInt8 → σ → DeliverAnswer × σ)
    (send : ℕ → List UInt8 → ν → BcStatus × ν) (s : BusState σ ν) (fromTransport : Option ℕ)
    (h : out.Reflagged msg) (hchannel : msg.channel.Terminated) (htopic : msg.topic.Terminated)
    (hgt : bcFragChunkMax < msg.payloadLen)
    (hframe : deliverFrame out = deliverFrame msg ∨ matchingEntries s.bus (-1) msg = []) :
    inboundComplete deliver send s out fromTransport =
      inboundComplete deliver send s msg fromTransport := by
  have hdst : out.dstNode = msg.dstNode := h.dstNode
  have hqos : out.qos = msg.qos := h.qos
  have hforward : ∀ s' : BusState σ ν,
      inboundForward send s' out fromTransport = inboundForward send s' msg fromTransport := by
    intro s'
    have hpass : shouldForward s'.bus out = shouldForward s'.bus msg := by
      simp only [shouldForward, hdst]
    simp only [inboundForward, hpass, forwardMessage_reflagged send s'.bus h hchannel htopic hgt]
  have hack : ∀ s' : BusState σ ν,
      inboundAck send s' out fromTransport = inboundAck send s' msg fromTransport := by
    intro s'
    have hmessage : ackMessage s'.bus out = ackMessage s'.bus msg := by
      have hch : out.channel.str = msg.channel.str := h.channel
      have htop : out.topic.str = msg.topic.str := h.topic
      have hsrc : out.srcNode = msg.srcNode := h.srcNode
      have hseq : out.seq = msg.seq := h.seq
      simp only [ackMessage, hch, htop, hsrc, hseq]
    simp only [inboundAck, hqos, sendAck, hmessage]
  unfold inboundComplete inboundUnicast
  simp only [hdst, forwardMessage_reflagged send s.bus h hchannel htopic hgt,
    inboundLocal_reflagged deliver s h hframe, hforward, hack]

end Reflagged

/-- The counters with other values of those that only inbound frames change. -/
def BcStats.recount (rxNetwork fragRx : UInt64) (stats : BcStats) : BcStats :=
  { stats with rxNetwork := rxNetwork, fragRx := fragRx }

/-- A bus with other values of these counters. -/
def MessageBus.recount (rxNetwork fragRx : UInt64) (bus : MessageBus) : MessageBus :=
  { bus with stats := bus.stats.recount rxNetwork fragRx }

/-- A state with other values of these counters and another table. -/
def BusState.recount {σ ν : Type*} (rxNetwork fragRx : UInt64) (reasm : BcReasm)
    (s : BusState σ ν) : BusState σ ν :=
  { s with bus := s.bus.recount rxNetwork fragRx, reasm := reasm }

/-- The same for what sending uses. -/
def NetworkUse.recount {ν : Type*} (rxNetwork fragRx : UInt64) (use : NetworkUse ν) :
    NetworkUse ν :=
  { use with stats := use.stats.recount rxNetwork fragRx }

section Recount

variable {σ ν : Type*} (deliver : ℤ → List UInt8 → σ → DeliverAnswer × σ)
  (send : ℕ → List UInt8 → ν → BcStatus × ν) (rxNetwork fragRx : UInt64) (reasm : BcReasm)
  {msg : BcMessage}

theorem emitNetworkFrame_recount (transport : ℕ) (piece : BcMessage) (use : NetworkUse ν) :
    emitNetworkFrame send transport piece (use.recount rxNetwork fragRx) =
      ((emitNetworkFrame send transport piece use).1,
        (emitNetworkFrame send transport piece use).2.recount rxNetwork fragRx) := by
  unfold emitNetworkFrame NetworkUse.recount
  cases bcProtocolEncode piece with
  | error _ => rfl
  | ok frame =>
    simp only
    split_ifs <;> rfl

theorem sendOnTransport_recount (transport : ℕ) (use : NetworkUse ν) :
    sendOnTransport send transport msg (use.recount rxNetwork fragRx) =
      ((sendOnTransport send transport msg use).1,
        (sendOnTransport send transport msg use).2.recount rxNetwork fragRx) := by
  have hloop : ∀ (total : ℕ) (indices : List ℕ) (use : NetworkUse ν),
      bcFragmentPublishLoop (emitNetworkFrame send transport) msg total indices
          (use.recount rxNetwork fragRx) =
        ((bcFragmentPublishLoop (emitNetworkFrame send transport) msg total indices use).1,
          (bcFragmentPublishLoop (emitNetworkFrame send transport) msg total indices
            use).2.recount rxNetwork fragRx) := by
    intro total indices
    induction indices with
    | nil => exact fun _ => rfl
    | cons index indices ih =>
      intro use
      unfold bcFragmentPublishLoop
      rw [emitNetworkFrame_recount]
      generalize emitNetworkFrame send transport (fragmentPiece msg total index) use = answer
      obtain ⟨rc, use'⟩ := answer
      cases rc with
      | ok => exact ih use'
      | _ => rfl
  have hpublish : ∀ use : NetworkUse ν,
      bcFragmentPublish (emitNetworkFrame send transport) msg (use.recount rxNetwork fragRx) =
        ((bcFragmentPublish (emitNetworkFrame send transport) msg use).1,
          (bcFragmentPublish (emitNetworkFrame send transport) msg use).2.recount rxNetwork
            fragRx) := by
    intro use
    unfold bcFragmentPublish
    simp only
    split_ifs
    · exact emitNetworkFrame_recount send rxNetwork fragRx transport msg use
    · rfl
    · exact hloop _ _ use
  have hlong := hpublish
    { use with stats := { use.stats with fragTx := use.stats.fragTx + 1 } }
  have hshort := emitNetworkFrame_recount send rxNetwork fragRx transport msg use
  unfold sendOnTransport
  by_cases hgt : msg.payloadLen > bcFragChunkMax
  · simp only [if_pos hgt]
    rw [show ({ use.recount rxNetwork fragRx with stats :=
        { (use.recount rxNetwork fragRx).stats with
          fragTx := (use.recount rxNetwork fragRx).stats.fragTx + 1 } } : NetworkUse ν) =
      NetworkUse.recount rxNetwork fragRx
        { use with stats := { use.stats with fragTx := use.stats.fragTx + 1 } } from rfl, hlong]
    split_ifs <;> rfl
  · simp only [if_neg hgt]
    rw [hshort]
    split_ifs <;> rfl

theorem forwardMessage_recount (bus : MessageBus) (exclude : Option ℕ) (transports : ν) :
    forwardMessage send (bus.recount rxNetwork fragRx) msg exclude transports =
      ((forwardMessage send bus msg exclude transports).1,
        (forwardMessage send bus msg exclude transports).2.1,
        (forwardMessage send bus msg exclude transports).2.2.1.recount rxNetwork fragRx,
        (forwardMessage send bus msg exclude transports).2.2.2) := by
  have hrouter : (bus.recount rxNetwork fragRx).router = bus.router := rfl
  have hrequire : (bus.recount rxNetwork fragRx).requireRoute = bus.requireRoute := rfl
  unfold forwardMessage
  rw [hrouter, hrequire]
  cases bcRouterRoute bus.router msg with
  | none =>
    by_cases hfails : bus.requireRoute = true
    · simp only [if_pos hfails]
      rfl
    · simp only [if_neg hfails]
  | some transport =>
    by_cases hback : some transport = exclude
    · simp only [if_pos hback]
    · have hsend := @sendOnTransport_recount _ send rxNetwork fragRx msg transport
        ⟨transports, bus.stats, []⟩
      have huse : (⟨transports, (bus.recount rxNetwork fragRx).stats, []⟩ : NetworkUse ν) =
          NetworkUse.recount rxNetwork fragRx ⟨transports, bus.stats, []⟩ := rfl
      simp only [if_neg hback, huse, hsend]
      by_cases hok : (sendOnTransport send transport msg ⟨transports, bus.stats, []⟩).1 = .ok
      · simp only [if_pos hok]
        rfl
      · simp only [if_neg hok]
        rfl

theorem inboundForward_recount (s : BusState σ ν) (fromTransport : Option ℕ) :
    inboundForward send (s.recount rxNetwork fragRx reasm) msg fromTransport =
      ((inboundForward send s msg fromTransport).1, (inboundForward send s msg fromTransport).2.1,
        (inboundForward send s msg fromTransport).2.2.recount rxNetwork fragRx reasm) := by
  have hpass : shouldForward (s.bus.recount rxNetwork fragRx) msg = shouldForward s.bus msg := rfl
  unfold inboundForward
  simp only [BusState.recount, hpass, forwardMessage_recount]
  split_ifs <;> rfl

theorem inboundLocal_recount (s : BusState σ ν) :
    inboundLocal deliver (s.recount rxNetwork fragRx reasm) msg =
      ((inboundLocal deliver s msg).1, (inboundLocal deliver s msg).2.1,
        (inboundLocal deliver s msg).2.2.recount rxNetwork fragRx reasm) := by
  have hlocal : shouldDeliverLocal (s.bus.recount rxNetwork fragRx) msg =
      shouldDeliverLocal s.bus msg := rfl
  have hsubs : (s.bus.recount rxNetwork fragRx).subscriptions = s.bus.subscriptions := rfl
  unfold inboundLocal
  simp only [BusState.recount, hlocal, bcMessageBusDeliverLocal, hsubs]
  by_cases hhere : shouldDeliverLocal s.bus msg = true
  · simp only [if_pos hhere]
    generalize deliverLocalLoop deliver (-1) msg s.bus.subscriptions s.clients = d
    cases d.1.result <;> rfl
  · simp only [if_neg hhere]

theorem inboundAck_recount (s : BusState σ ν) (fromTransport : Option ℕ) :
    inboundAck send (s.recount rxNetwork fragRx reasm) msg fromTransport =
      ((inboundAck send s msg fromTransport).1,
        (inboundAck send s msg fromTransport).2.recount rxNetwork fragRx reasm) := by
  cases fromTransport with
  | none => rfl
  | some transport =>
    have hsend := @sendOnTransport_recount _ send rxNetwork fragRx (ackMessage s.bus msg)
      transport ⟨s.transports, s.bus.stats, []⟩
    have hack : ackMessage (s.bus.recount rxNetwork fragRx) msg = ackMessage s.bus msg := rfl
    have huse : (⟨s.transports, (s.bus.recount rxNetwork fragRx).stats, []⟩ : NetworkUse ν) =
        NetworkUse.recount rxNetwork fragRx ⟨s.transports, s.bus.stats, []⟩ := rfl
    unfold inboundAck sendAck
    simp only [BusState.recount, hack, huse, hsend]
    by_cases hqos : msg.qos = bcQosAtLeastOnce
    · simp only [if_pos hqos]
      generalize sendOnTransport send transport (ackMessage s.bus msg)
        ⟨s.transports, s.bus.stats, []⟩ = sent
      by_cases hok : sent.1 = .ok
      · simp only [if_pos hok]
        rfl
      · simp only [if_neg hok]
        rfl
    · simp only [if_neg hqos]

/-- These counters and the table do not matter to a message that is complete, and it
leaves them alone. -/
theorem inboundComplete_recount (s : BusState σ ν) (fromTransport : Option ℕ) :
    inboundComplete deliver send (s.recount rxNetwork fragRx reasm) msg fromTransport =
      ((inboundComplete deliver send s msg fromTransport).1,
        (inboundComplete deliver send s msg fromTransport).2.recount rxNetwork fragRx reasm) := by
  have hnode : (s.recount rxNetwork fragRx reasm).bus.nodeId = s.bus.nodeId := rfl
  have hrequire : ∀ s' : BusState σ ν,
      (s'.recount rxNetwork fragRx reasm).bus.requireRoute = s'.bus.requireRoute := fun _ => rfl
  have hunicast : inboundUnicast send (s.recount rxNetwork fragRx reasm) msg fromTransport =
      ((inboundUnicast send s msg fromTransport).1,
        (inboundUnicast send s msg fromTransport).2.recount rxNetwork fragRx reasm) := by
    unfold inboundUnicast
    simp only [BusState.recount, forwardMessage_recount]
    rfl
  unfold inboundComplete
  rw [hnode, hunicast]
  by_cases hother : msg.dstNode ≠ 0 ∧ msg.dstNode ≠ s.bus.nodeId
  · simp only [if_pos hother]
  · simp only [if_neg hother, inboundLocal_recount]
    cases (inboundLocal deliver s msg).1 with
    | error rc => rfl
    | ok n =>
      simp only [inboundForward_recount, inboundAck_recount, hrequire]
      split_ifs <;> rfl

end Recount

section Pieces

variable {σ ν : Type*} (deliver : ℤ → List UInt8 → σ → DeliverAnswer × σ)
  (send : ℕ → List UInt8 → ν → BcStatus × ν) {msg : BcMessage}

/-- Messages handled one after the other. -/
def handleAll (fromTransport : Option ℕ) :
    BusState σ ν → List BcMessage → List InboundResult × BusState σ ν
  | s, [] => ([], s)
  | s, msg :: msgs =>
    let r := bcMessageBusHandleInbound deliver send s msg fromTransport
    let rest := handleAll fromTransport r.2 msgs
    (r.1 :: rest.1, rest.2)

/-- Both pieces in either order: the first takes a slot, the second gives it back and
completes the message, but for its flags. -/
theorem feed_both {reasm : BcReasm} (hgt : bcFragChunkMax < msg.payloadLen)
    (hle : msg.payloadLen ≤ bcMaxPayloadLen) (hchannel : msg.channel.Terminated)
    (htopic : msg.topic.Terminated) (hroom : ∃ k, (reasm.slots k).active = false)
    (hnew : ∀ k, ¬ (reasm.slots k).Holds msg.seq msg.srcNode) {a b : PieceIndex} (hne : a ≠ b) :
    ∃ (half done : BcReasm) (out : BcMessage),
      bcReasmFeed reasm (fragmentPiece msg 2 a) = (.notFound, half, none) ∧
        bcReasmFeed half (fragmentPiece msg 2 b) = (.ok, done, some out) ∧
        out.Same { msg with flags := 0 } ∧
        ∀ k, (done.slots k).active = (reasm.slots k).active := by
  have hfirst := fed_piece hgt hle hchannel htopic (fun k hk => absurd hk (hnew k)) a
  generalize bcReasmFeed reasm (fragmentPiece msg 2 a) = first at hfirst
  cases hfirst with
  | refused hfull _ =>
    obtain ⟨k, hk⟩ := hroom
    rw [hfull k] at hk
    cases hk
  | again k slot hslot => exact absurd (hslot ▸ taken_holds slot msg a) (hnew k)
  | last k slot other _ hslot => exact absurd (hslot ▸ taken_holds slot msg other) (hnew k)
  | first k hfree _ =>
    have hself : (reasm.set k ((reasm.slots k).taken msg a)).slots k =
        (reasm.slots k).taken msg a := by simp [BcReasm.set]
    have hother : ∀ l, l ≠ k →
        (reasm.set k ((reasm.slots k).taken msg a)).slots l = reasm.slots l := by
      intro l hl
      simp only [BcReasm.set, Function.update_of_ne hl]
    have honly : ∀ l,
        ((reasm.set k ((reasm.slots k).taken msg a)).slots l).Holds msg.seq msg.srcNode →
          l = k := by
      intro l hl
      by_contra hlk
      rw [hother l hlk] at hl
      exact hnew l hl
    have hk : ((reasm.set k ((reasm.slots k).taken msg a)).slots k).Holds msg.seq msg.srcNode := by
      rw [hself]
      exact taken_holds _ msg a
    have htaken : ∀ l,
        ((reasm.set k ((reasm.slots k).taken msg a)).slots l).Holds msg.seq msg.srcNode →
          ∃ slot c, (reasm.set k ((reasm.slots k).taken msg a)).slots l =
            BcReasmSlot.taken slot msg c := by
      intro l hl
      rw [honly l hl, hself]
      exact ⟨_, a, rfl⟩
    have hsecond := fed_piece hgt hle hchannel htopic htaken b
    refine ⟨reasm.set k ((reasm.slots k).taken msg a), ?_⟩
    generalize bcReasmFeed (reasm.set k ((reasm.slots k).taken msg a)) (fragmentPiece msg 2 b) =
      second at hsecond
    cases hsecond with
    | refused _ hnone => exact absurd hk (hnone k)
    | again l slot hslot =>
      have hl : l = k := by
        apply honly
        rw [hslot]
        exact taken_holds slot msg b
      subst hl
      exact absurd (taken_index (hself.symm.trans hslot)) hne
    | first l _ hnone => exact absurd hk (hnone k)
    | last l slot other _ hslot out hout done hdone =>
      have hl : l = k := by
        apply honly
        rw [hslot]
        exact taken_holds slot msg other
      subst hl
      refine ⟨_, out, rfl, rfl, hout, fun m => ?_⟩
      by_cases hm : m = l
      · subst hm
        simp only [BcReasm.set, Function.update_self, hdone, hfree]
      · simp only [BcReasm.set, Function.update_of_ne hm]

/-- A piece goes to the table. -/
theorem handleInbound_piece (s : BusState σ ν) (fromTransport : Option ℕ) (total index : ℕ) :
    bcMessageBusHandleInbound deliver send s (fragmentPiece msg total index) fromTransport =
      match bcReasmFeed s.reasm (fragmentPiece msg total index) with
      | (_, reasm, some complete) =>
        inboundComplete deliver send
          (s.recount (s.bus.stats.rxNetwork + 1) (s.bus.stats.fragRx + 1) reasm) complete
          fromTransport
      | (.notFound, reasm, none) =>
        (⟨.ok, none, [], []⟩,
          s.recount (s.bus.stats.rxNetwork + 1) (s.bus.stats.fragRx + 1) reasm)
      | (rc, reasm, none) =>
        let s := s.recount (s.bus.stats.rxNetwork + 1) (s.bus.stats.fragRx + 1) reasm
        (⟨rc, none, [], []⟩, { s with bus := { s.bus with
          stats := { s.bus.stats with rxDrop := s.bus.stats.rxDrop + 1 } } }) := by
  have hack : ¬ (fragmentPiece msg total index).flags &&& bcFlagAck ≠ 0 := by
    rw [show (fragmentPiece msg total index).flags = bcFlagFragment from rfl]
    decide
  have hfrag : (fragmentPiece msg total index).flags &&& bcFlagFragment ≠ 0 := by
    rw [show (fragmentPiece msg total index).flags = bcFlagFragment from rfl]
    decide
  unfold bcMessageBusHandleInbound
  simp only [if_neg hack, if_pos hfrag]
  rcases bcReasmFeed s.reasm (fragmentPiece msg total index) with ⟨rc, reasm, _ | complete⟩
  · cases rc <;> rfl
  · cases rc <;> rfl

/-- What handling both pieces comes to. -/
theorem handleAll_pieces (s : BusState σ ν) (fromTransport : Option ℕ)
    (hgt : bcFragChunkMax < msg.payloadLen) (hle : msg.payloadLen ≤ bcMaxPayloadLen)
    (hchannel : msg.channel.Terminated) (htopic : msg.topic.Terminated)
    (hroom : ∃ k, (s.reasm.slots k).active = false)
    (hnew : ∀ k, ¬ (s.reasm.slots k).Holds msg.seq msg.srcNode) {a b : PieceIndex} (hne : a ≠ b) :
    ∃ (done : BcReasm) (out : BcMessage), out.Same { msg with flags := 0 } ∧
      (∀ k, (done.slots k).active = (s.reasm.slots k).active) ∧
      handleAll deliver send fromTransport s [fragmentPiece msg 2 a, fragmentPiece msg 2 b] =
        let r := inboundComplete deliver send s out fromTransport
        ([⟨.ok, none, [], []⟩, r.1],
          r.2.recount (s.bus.stats.rxNetwork + 1 + 1) (s.bus.stats.fragRx + 1 + 1) done) := by
  obtain ⟨half, done, out, hfirst, hsecond, hout, hactive⟩ :=
    feed_both hgt hle hchannel htopic hroom hnew hne
  refine ⟨done, out, hout, hactive, ?_⟩
  have hhalf : (s.recount (s.bus.stats.rxNetwork + 1) (s.bus.stats.fragRx + 1) half).reasm =
      half := rfl
  have htwice : ∀ (s : BusState σ ν) (r f r' f' : UInt64) (t t' : BcReasm),
      (s.recount r f t).recount r' f' t' = s.recount r' f' t' := fun _ _ _ _ _ _ _ => rfl
  simp only [handleAll, handleInbound_piece, hfirst, hhalf, hsecond, htwice,
    inboundComplete_recount]
  rfl

end Pieces

section Calls

variable {σ ν : Type*} (deliver : ℤ → List UInt8 → σ → DeliverAnswer × σ)
  (send : ℕ → List UInt8 → ν → BcStatus × ν) {msg : BcMessage}

/-- The callback for local deliveries, with a list of the frames that it was called
for. -/
def recordCalls (fd : ℤ) (data : List UInt8) (clients : σ × List (ℤ × List UInt8)) :
    DeliverAnswer × σ × List (ℤ × List UInt8) :=
  let answer := deliver fd data clients.1
  (answer.1, answer.2, clients.2 ++ [(fd, data)])

theorem deliverLocalLoop_calls (source : ℤ) (subs : List BcSubscription)
    (clients : σ × List (ℤ × List UInt8)) :
    (deliverLocalLoop (recordCalls deliver) source msg subs clients).2.2 =
      clients.2 ++ (subs.filter (·.wants source msg)).map fun sub => (sub.fd, deliverFrame msg) := by
  induction subs generalizing clients with
  | nil => simp [deliverLocalLoop]
  | cons sub subs ih =>
    unfold deliverLocalLoop
    by_cases hwants : sub.wants source msg = true
    · simp [hwants, ih, recordCalls]
    · simp [hwants, ih]

/-- A complete message is handed to its entries, one frame each. -/
theorem inboundComplete_calls (s : BusState (σ × List (ℤ × List UInt8)) ν)
    (fromTransport : Option ℕ) :
    (inboundComplete (recordCalls deliver) send s msg fromTransport).2.clients.2 =
      s.clients.2 ++
        (matchingEntries s.bus (-1) msg).map fun sub => (sub.fd, deliverFrame msg) := by
  have hforward : ∀ s' : BusState (σ × List (ℤ × List UInt8)) ν,
      (inboundForward send s' msg fromTransport).2.2.clients = s'.clients := by
    intro s'
    unfold inboundForward
    split_ifs <;> rfl
  have hack : ∀ s' : BusState (σ × List (ℤ × List UInt8)) ν,
      (inboundAck send s' msg fromTransport).2.clients = s'.clients := by
    intro s'
    cases fromTransport with
    | none => rfl
    | some transport =>
      unfold inboundAck
      simp only
      split_ifs <;> rfl
  unfold inboundComplete
  by_cases hother : msg.dstNode ≠ 0 ∧ msg.dstNode ≠ s.bus.nodeId
  · have hnot : ¬ shouldDeliverLocal s.bus msg = true := by
      simpa [shouldDeliverLocal] using hother
    rw [if_pos hother, matchingEntries, if_neg hnot]
    simp [inboundUnicast]
  · have hhere : shouldDeliverLocal s.bus msg = true := by
      by_contra hnot
      exact hother (by simpa [shouldDeliverLocal] using hnot)
    have hlocal : (inboundLocal (recordCalls deliver) s msg).2.2.clients.2 =
        s.clients.2 ++
          (matchingEntries s.bus (-1) msg).map fun sub => (sub.fd, deliverFrame msg) := by
      simp only [inboundLocal, if_pos hhere, bcMessageBusDeliverLocal, deliverLocalLoop_calls,
        matchingEntries]
    rw [if_neg hother]
    simp only
    cases (inboundLocal (recordCalls deliver) s msg).1 with
    | error rc => exact hlocal
    | ok n =>
      simp only
      split_ifs
      · rw [hforward, hlocal]
      · rw [hack, hforward, hlocal]

end Calls

/-- Handling the pieces of a message has led to what handling the whole message has
led to. Only three counters may differ. -/
structure SameEffect {σ ν : Type*} (pieces : List InboundResult × BusState σ ν)
    (whole : InboundResult × BusState σ ν) : Prop where
  results : pieces.1 = [⟨.ok, none, [], []⟩, whole.1]
  clients : pieces.2.clients = whole.2.clients
  transports : pieces.2.transports = whole.2.transports
  bus : pieces.2.bus =
    { whole.2.bus with stats := { whole.2.bus.stats with
        rxNetwork := pieces.2.bus.stats.rxNetwork
        fragRx := pieces.2.bus.stats.fragRx
        fragTx := pieces.2.bus.stats.fragTx } }
  slots : ∀ k, (pieces.2.reasm.slots k).active = (whole.2.reasm.slots k).active

section Transparent

variable {σ ν : Type*} (deliver : ℤ → List UInt8 → σ → DeliverAnswer × σ)
  (send : ℕ → List UInt8 → ν → BcStatus × ν) {msg : BcMessage}

/-- A message that is neither an acknowledgement nor a piece is complete. -/
theorem handleInbound_whole (s : BusState σ ν) (fromTransport : Option ℕ)
    (hack : msg.flags &&& bcFlagAck = 0) (hfrag : msg.flags &&& bcFlagFragment = 0) :
    bcMessageBusHandleInbound deliver send s msg fromTransport =
      ((inboundComplete deliver send s msg fromTransport).1,
        (inboundComplete deliver send s msg fromTransport).2.recount
          (s.bus.stats.rxNetwork + 1) s.bus.stats.fragRx s.reasm) := by
  rw [← inboundComplete_recount]
  unfold bcMessageBusHandleInbound
  simp only [if_neg (not_not.mpr hack), if_neg (not_not.mpr hfrag)]
  rfl

/-- Both orders of the pieces. -/
theorem pieces_of_perm (hgt : bcFragChunkMax < msg.payloadLen)
    (hle : msg.payloadLen ≤ bcMaxPayloadLen) {order : List BcMessage}
    (horder : order.Perm (fragmentsOf msg)) :
    ∃ a b : PieceIndex, a ≠ b ∧ order = [fragmentPiece msg 2 a, fragmentPiece msg 2 b] := by
  have hone : ((1 : PieceIndex) : ℕ) = 1 := rfl
  rw [fragmentsOf_eq hgt hle] at horder
  rcases List.perm_pair.mp horder with rfl | rfl
  · exact ⟨0, 1, by decide, by rw [Fin.val_zero, hone]⟩
  · exact ⟨1, 0, by decide, by rw [Fin.val_zero, hone]⟩

/-- Fragmentation is transparent but for the flags of a message, which only its
subscribers see: its pieces have the same effect as the whole message, in any order
and whatever clients and transports answer, exactly if it has no flags or no entry of
the node is to get it. -/
theorem fragmentation_transparent_iff (s : BusState (σ × List (ℤ × List UInt8)) ν)
    (fromTransport : Option ℕ) (hgt : bcFragChunkMax < msg.payloadLen)
    (hle : msg.payloadLen ≤ bcMaxPayloadLen) (hack : msg.flags &&& bcFlagAck = 0)
    (hfrag : msg.flags &&& bcFlagFragment = 0) (hchannel : msg.channel.Terminated)
    (htopic : msg.topic.Terminated) (hroom : ∃ k, (s.reasm.slots k).active = false)
    (hnew : ∀ k, ¬ (s.reasm.slots k).Holds msg.seq msg.srcNode) :
    (∀ order : List BcMessage, order.Perm (fragmentsOf msg) →
        SameEffect (handleAll (recordCalls deliver) send fromTransport s order)
          (bcMessageBusHandleInbound (recordCalls deliver) send s msg fromTransport)) ↔
      msg.flags = 0 ∨ matchingEntries s.bus (-1) msg = [] := by
  rw [handleInbound_whole _ send s fromTransport hack hfrag]
  constructor
  · intro h
    obtain ⟨done, out, hout, -, hpieces⟩ := handleAll_pieces (recordCalls deliver) send s
      fromTransport hgt hle hchannel htopic hroom hnew (show (0 : PieceIndex) ≠ 1 by decide)
    have horder : [fragmentPiece msg 2 (0 : PieceIndex), fragmentPiece msg 2 (1 : PieceIndex)].Perm
        (fragmentsOf msg) := by
      rw [fragmentsOf_eq hgt hle]
      exact .refl _
    have hclients := congrArg Prod.snd (h _ horder).clients
    rw [hpieces] at hclients
    have hout' : out.Reflagged msg := by
      have hflags : out.flags = 0 := hout.flags
      rw [BcMessage.Reflagged, hflags]
      exact hout
    have hcalls : (matchingEntries s.bus (-1) msg).map (fun sub => (sub.fd, deliverFrame out)) =
        (matchingEntries s.bus (-1) msg).map fun sub => (sub.fd, deliverFrame msg) := by
      have hleft := @inboundComplete_calls _ _ deliver send out s fromTransport
      have hright := @inboundComplete_calls _ _ deliver send msg s fromTransport
      rw [matchingEntries_reflagged hout'] at hleft
      exact List.append_cancel_left ((hleft.symm.trans hclients).trans hright)
    cases hmatching : matchingEntries s.bus (-1) msg with
    | nil => exact .inr rfl
    | cons sub subs =>
      rw [hmatching, List.map_cons, List.map_cons] at hcalls
      have hframe := congrArg Prod.snd (List.cons.inj hcalls).1
      exact .inl ((deliverFrame_flags hframe).symm.trans hout.flags)
  · intro hsee order horder
    obtain ⟨a, b, hne, rfl⟩ := pieces_of_perm hgt hle horder
    obtain ⟨done, out, hout, hactive, hpieces⟩ := handleAll_pieces (recordCalls deliver) send s
      fromTransport hgt hle hchannel htopic hroom hnew hne
    have hout' : out.Reflagged msg := by
      have hflags : out.flags = 0 := hout.flags
      rw [BcMessage.Reflagged, hflags]
      exact hout
    have hframe : deliverFrame out = deliverFrame msg ∨ matchingEntries s.bus (-1) msg = [] := by
      refine hsee.imp_left fun hflags => ?_
      have hzero : out.flags = msg.flags := hout.flags.trans hflags.symm
      rw [deliverFrame_reflagged hout', hzero]
    rw [hpieces, inboundComplete_reflagged _ send s fromTransport hout' hchannel htopic hgt hframe]
    exact ⟨rfl, rfl, rfl, rfl, hactive⟩

/-- A node with a subscriber of everything. -/
def subscribedNode :
    BusState (List DeliverAnswer × List (ℤ × List UInt8)) (List (ℕ × List UInt8)) :=
  ⟨⟨[⟨5, .ofPrefix _ anyTopic⟩], ⟨[], [], []⟩, 1, 0, false, true, bcStatsReset⟩, bcReasmInit,
    ([], []), []⟩

theorem fragmentation_transparent_iff_plain :
    (∀ order : List BcMessage, order.Perm (fragmentsOf (longMessage 7)) →
        SameEffect (handleAll (recordCalls answerNext) putOut (some 0) subscribedNode order)
          (bcMessageBusHandleInbound (recordCalls answerNext) putOut subscribedNode (longMessage 7)
            (some 0))) ↔
      (longMessage 7).flags = 0 ∨ matchingEntries subscribedNode.bus (-1) (longMessage 7) = [] :=
  fragmentation_transparent_iff answerNext putOut subscribedNode (some 0) (by decide) (by decide)
    (by decide) (by decide) (by decide +kernel) (by decide +kernel) ⟨0, rfl⟩
    fun _ hk => by cases hk.1

/-- A long message that is not to be bridged. -/
def markedMessage : BcMessage := { longMessage 7 with flags := bcFlagNoBridge }

/-- Its subscriber gets the mark with the whole message only. -/
theorem fragmentation_loses_flags :
    ¬ ∀ order : List BcMessage, order.Perm (fragmentsOf markedMessage) →
      SameEffect (handleAll (recordCalls answerNext) putOut (some 0) subscribedNode order)
        (bcMessageBusHandleInbound (recordCalls answerNext) putOut subscribedNode markedMessage
          (some 0)) := by
  have hdiffer : (handleAll (recordCalls answerNext) putOut (some 0) subscribedNode
      (fragmentsOf markedMessage)).2.clients ≠
      (bcMessageBusHandleInbound (recordCalls answerNext) putOut subscribedNode markedMessage
        (some 0)).2.clients := by
    decide +kernel
  intro h
  exact hdiffer (h _ (.refl _)).clients

end Transparent

end BoardComm
