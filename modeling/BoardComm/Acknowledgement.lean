import BoardComm.BridgeNetwork

/-!
# What an acknowledgement says

An acknowledgement is the last thing that the bus does with an inbound message.
It is sent only when every subscriber of the message has taken it, and never in
answer to an acknowledgement.
-/
namespace BoardComm

section Answers

variable {σ : Type*} (deliver : ℤ → List UInt8 → σ → DeliverAnswer × σ) (source : ℤ)
  (msg : BcMessage)

/-- The entries that a local delivery calls, with the answers of their clients. -/
def deliverAnswers : List BcSubscription → σ → List (BcSubscription × DeliverAnswer)
  | [], _ => []
  | sub :: subs, clients =>
    if sub.wants source msg = true then
      let answer := deliver sub.fd (deliverFrame msg) clients
      (sub, answer.1) :: deliverAnswers subs answer.2
    else deliverAnswers subs clients

theorem deliverAnswers_fst (subs : List BcSubscription) (clients : σ) :
    (deliverAnswers deliver source msg subs clients).map Prod.fst =
      subs.filter (·.wants source msg) := by
  induction subs generalizing clients with
  | nil => rfl
  | cons sub subs ih =>
    unfold deliverAnswers
    by_cases hwants : sub.wants source msg = true
    · simp [hwants, ih]
    · simp [hwants, ih]

/-- A delivery that failed for nobody was taken by everyone. -/
theorem deliverLocalLoop_failed (subs : List BcSubscription) (clients : σ) :
    (deliverLocalLoop deliver source msg subs clients).1.failed = 0 ↔
      ∀ p ∈ deliverAnswers deliver source msg subs clients, p.2.rc = .ok := by
  induction subs generalizing clients with
  | nil => simp [deliverLocalLoop, deliverAnswers]
  | cons sub subs ih =>
    unfold deliverLocalLoop deliverAnswers
    by_cases hwants : sub.wants source msg = true
    · by_cases hok : (deliver sub.fd (deliverFrame msg) clients).1.rc = .ok
      · simp [hwants, hok, LocalDelivery.add, ih]
      · simp [hwants, hok, LocalDelivery.add]
    · simp [hwants, ih]

/-- A result that is no error says so. -/
theorem LocalDelivery.failed_of_result {d : LocalDelivery} {n : ℕ} (h : d.result = .ok n) :
    d.failed = 0 := by
  unfold LocalDelivery.result at h
  split_ifs at h with hfailed
  omega

end Answers

/-- What an acknowledgement says of the message that it answers: it was no
acknowledgement, it completed a message for this node that asks for one, and every
client with a matching entry took that message. -/
structure Certified {σ ν : Type*} (deliver : ℤ → List UInt8 → σ → DeliverAnswer × σ)
    (s : BusState σ ν) (msg complete ack : BcMessage) : Prop where
  data : msg.flags &&& bcFlagAck = 0
  whole : (reassembled s.reasm msg).2 = some complete
  qos : complete.qos = bcQosAtLeastOnce
  here : complete.dstNode = 0 ∨ complete.dstNode = s.bus.nodeId
  asked : (deliverAnswers deliver (-1) complete s.bus.subscriptions s.clients).map Prod.fst =
    s.bus.subscriptions.filter fun sub => bcTopicMatches sub.topic.str complete.topic.str
  taken : ∀ p ∈ deliverAnswers deliver (-1) complete s.bus.subscriptions s.clients, p.2.rc = .ok
  flags : ack.flags = bcFlagAck
  seq : ack.seq = msg.seq
  dstNode : ack.dstNode = msg.srcNode
  srcNode : ack.srcNode = s.bus.nodeId

section Frames

variable {σ ν : Type*} (send : ℕ → List UInt8 → ν → BcStatus × ν) {msg : BcMessage}

/-- No piece of a message without the flag looks like an acknowledgement. -/
theorem wirePieces_no_ack (hflag : msg.flags &&& bcFlagAck = 0) {piece : BcMessage}
    (hpiece : piece ∈ wirePieces msg) : piece.flags &&& bcFlagAck = 0 := by
  have hfragment : bcFlagFragment &&& bcFlagAck = 0 := by decide
  unfold wirePieces at hpiece
  split_ifs at hpiece with hgt
  · obtain ⟨total, index, rfl⟩ := exists_of_mem_fragmentsOf hgt hpiece
    exact hfragment
  · rw [List.mem_singleton.mp hpiece]
    exact hflag

/-- What a transport takes of a message without payload. -/
theorem sendOnTransport_empty (transport : ℕ) (hlen : msg.payloadLen = 0) (transports : ν)
    (stats : BcStats) :
    (sendOnTransport send transport msg ⟨transports, stats, []⟩).2.sent = [] ∨
      (msg.WellFormed ∧
        (sendOnTransport send transport msg ⟨transports, stats, []⟩).2.sent =
          [frameBytes msg]) := by
  have hshort : ¬ msg.payloadLen > bcFragChunkMax := by
    rw [hlen]
    exact Nat.not_lt_zero _
  unfold sendOnTransport
  simp only [if_neg hshort]
  by_cases hwell : msg.WellFormed
  · obtain ⟨f, hf, hdata⟩ := bcProtocolEncode_of_wellFormed hwell
    by_cases hok : (send transport f.data transports).1 = .ok
    · simp [emitNetworkFrame, hf, hdata ▸ hok, hdata, hwell]
    · refine .inl ?_
      simp [emitNetworkFrame, hf, hok]
  · refine .inl ?_
    simp [emitNetworkFrame, bcProtocolEncode_of_not_wellFormed hwell]

/-- What is passed on of a message are its frames, and the tables stay. -/
theorem forwardMessage_spec (bus : MessageBus) (exclude : Option ℕ) (transports : ν) :
    bus.Agrees (forwardMessage send bus msg exclude transports).2.2.1 ∧
      ∀ frame ∈ (forwardMessage send bus msg exclude transports).2.1,
        ∃ piece ∈ wirePieces msg, piece.WellFormed ∧ frame = frameBytes piece := by
  unfold forwardMessage
  cases bcRouterRoute bus.router msg with
  | none =>
    simp only
    split_ifs <;> exact ⟨⟨rfl, rfl, rfl, rfl, rfl⟩, by simp⟩
  | some transport =>
    simp only
    split_ifs
    · exact ⟨⟨rfl, rfl, rfl, rfl, rfl⟩, by simp⟩
    · exact ⟨⟨rfl, rfl, rfl, rfl, rfl⟩, fun frame hframe =>
        sendOnTransport_sent_mem transport send transports bus.stats hframe⟩
    · exact ⟨⟨rfl, rfl, rfl, rfl, rfl⟩, fun frame hframe =>
        sendOnTransport_sent_mem transport send transports bus.stats hframe⟩

theorem inboundForward_spec (s : BusState σ ν) (fromTransport : Option ℕ) :
    s.bus.Agrees (inboundForward send s msg fromTransport).2.2.bus ∧
      ∀ frame ∈ (inboundForward send s msg fromTransport).2.1,
        ∃ piece ∈ wirePieces msg, piece.WellFormed ∧ frame = frameBytes piece := by
  unfold inboundForward
  split_ifs
  · exact forwardMessage_spec send s.bus fromTransport s.transports
  · exact ⟨⟨rfl, rfl, rfl, rfl, rfl⟩, by simp⟩

/-- At most one acknowledgement is sent, for a message that asks for it. -/
theorem inboundAck_spec (s : BusState σ ν) (fromTransport : Option ℕ) :
    (inboundAck send s msg fromTransport).1 = [] ∨
      (msg.qos = bcQosAtLeastOnce ∧ (ackMessage s.bus msg).WellFormed ∧
        (inboundAck send s msg fromTransport).1 = [frameBytes (ackMessage s.bus msg)]) := by
  cases fromTransport with
  | none => exact .inl rfl
  | some transport =>
    by_cases hqos : msg.qos = bcQosAtLeastOnce
    · have hsent := @sendOnTransport_empty _ send (ackMessage s.bus msg) transport rfl
        s.transports s.bus.stats
      have hacks : (inboundAck send s msg (some transport)).1 =
          (sendOnTransport send transport (ackMessage s.bus msg)
            ⟨s.transports, s.bus.stats, []⟩).2.sent := by
        simp only [inboundAck, if_pos hqos, sendAck]
        split_ifs <;> rfl
      rw [hacks]
      rcases hsent with hnone | ⟨hwell, hone⟩
      · exact .inl hnone
      · exact .inr ⟨hqos, hwell, hone⟩
    · exact .inl (by simp [inboundAck, hqos])

end Frames

section Inbound

variable {σ ν : Type*} (deliver : ℤ → List UInt8 → σ → DeliverAnswer × σ)
  (send : ℕ → List UInt8 → ν → BcStatus × ν) {msg : BcMessage}

/-- A local delivery without error was taken by every entry that it called. -/
theorem inboundLocal_spec (s : BusState σ ν)
    (hhere : msg.dstNode = 0 ∨ msg.dstNode = s.bus.nodeId) :
    s.bus.Agrees (inboundLocal deliver s msg).2.2.bus ∧
      ∀ n, (inboundLocal deliver s msg).1 = .ok n →
        ∀ p ∈ deliverAnswers deliver (-1) msg s.bus.subscriptions s.clients, p.2.rc = .ok := by
  have hlocal : shouldDeliverLocal s.bus msg = true := decide_eq_true hhere
  unfold inboundLocal
  rw [if_pos hlocal]
  refine ⟨⟨rfl, rfl, rfl, rfl, rfl⟩, fun n hn => ?_⟩
  exact (deliverLocalLoop_failed deliver (-1) msg s.bus.subscriptions s.clients).mp
    (LocalDelivery.failed_of_result hn)

/-- What a complete message is answered with. -/
structure Answered (s : BusState σ ν) (msg : BcMessage) (r : InboundResult) : Prop where
  acks : r.acks = [] ∨
    (msg.qos = bcQosAtLeastOnce ∧ (msg.dstNode = 0 ∨ msg.dstNode = s.bus.nodeId) ∧
      (∀ p ∈ deliverAnswers deliver (-1) msg s.bus.subscriptions s.clients, p.2.rc = .ok) ∧
      (ackMessage s.bus msg).WellFormed ∧ r.acks = [frameBytes (ackMessage s.bus msg)])
  forwarded : ∀ frame ∈ r.forwarded,
    ∃ piece ∈ wirePieces msg, piece.WellFormed ∧ frame = frameBytes piece

theorem inboundComplete_answered (s : BusState σ ν) (fromTransport : Option ℕ) :
    Answered deliver s msg (inboundComplete deliver send s msg fromTransport).1 := by
  unfold inboundComplete
  by_cases hother : msg.dstNode ≠ 0 ∧ msg.dstNode ≠ s.bus.nodeId
  · rw [if_pos hother]
    exact ⟨.inl rfl, (forwardMessage_spec send s.bus fromTransport s.transports).2⟩
  have hhere : msg.dstNode = 0 ∨ msg.dstNode = s.bus.nodeId := by
    by_contra hnot
    exact hother (not_or.mp hnot)
  rw [if_neg hother]
  obtain ⟨hlocalBus, htaken⟩ := inboundLocal_spec deliver s hhere
  simp only
  generalize inboundLocal deliver s msg = l at hlocalBus htaken
  obtain ⟨result, delivery, s₁⟩ := l
  cases result with
  | error rc => exact ⟨.inl rfl, by simp⟩
  | ok n =>
    obtain ⟨hforwardBus, hforwarded⟩ := @inboundForward_spec _ _ send msg s₁ fromTransport
    simp only
    generalize inboundForward send s₁ msg fromTransport = f at hforwardBus hforwarded
    obtain ⟨rc, sent, s₂⟩ := f
    simp only at hforwardBus hforwarded ⊢
    split_ifs
    · exact ⟨.inl rfl, hforwarded⟩
    · refine ⟨?_, hforwarded⟩
      have hack : ackMessage s₂.bus msg = ackMessage s.bus msg := by
        simp only [ackMessage, hforwardBus.nodeId, show s₁.bus.nodeId = _ from hlocalBus.nodeId]
      rcases @inboundAck_spec _ _ send msg s₂ fromTransport with hnone | ⟨hqos, hwell, hone⟩
      · exact .inl hnone
      · exact .inr ⟨hqos, hhere, htaken n rfl, hack ▸ hwell, hack ▸ hone⟩

/-- The handling of a message, by what is complete with it. -/
theorem handleInbound_result (s : BusState σ ν) (msg : BcMessage) (fromTransport : Option ℕ) :
    ((reassembled s.reasm msg).2 = none ∧
        (bcMessageBusHandleInbound deliver send s msg fromTransport).1.acks = [] ∧
        (bcMessageBusHandleInbound deliver send s msg fromTransport).1.forwarded = [] ∧
        (bcMessageBusHandleInbound deliver send s msg fromTransport).2.transports =
          s.transports) ∨
      ∃ (complete : BcMessage) (bus : MessageBus), s.bus.Agrees bus ∧
        msg.flags &&& bcFlagAck = 0 ∧ (reassembled s.reasm msg).2 = some complete ∧
        bcMessageBusHandleInbound deliver send s msg fromTransport =
          inboundComplete deliver send
            { s with bus := bus, reasm := (reassembled s.reasm msg).1 } complete
            fromTransport := by
  unfold bcMessageBusHandleInbound reassembled
  by_cases hack : msg.flags &&& bcFlagAck ≠ 0
  · simp only [if_pos hack]
    exact .inl ⟨trivial, trivial, trivial, trivial⟩
  have hdata : msg.flags &&& bcFlagAck = 0 := not_not.mp hack
  by_cases hfrag : msg.flags &&& bcFlagFragment ≠ 0
  · simp only [if_neg hack, if_pos hfrag]
    cases (bcReasmFeed s.reasm msg).2.2 with
    | none =>
      refine .inl ⟨rfl, ?_⟩
      simp only
      split_ifs <;> exact ⟨rfl, rfl, rfl⟩
    | some complete =>
      refine .inr ⟨complete, _, ?_, hdata, rfl, rfl⟩
      exact ⟨rfl, rfl, rfl, rfl, rfl⟩
  · simp only [if_neg hack, if_neg hfrag]
    refine .inr ⟨msg, _, ?_, hdata, rfl, rfl⟩
    exact ⟨rfl, rfl, rfl, rfl, rfl⟩

/-- What is complete with a message has its number and its node, and no flag of an
acknowledgement. -/
theorem reassembled_identity {reasm : BcReasm} {complete : BcMessage}
    (h : (reassembled reasm msg).2 = some complete) :
    complete.seq = msg.seq ∧ complete.srcNode = msg.srcNode ∧ complete.flags &&& bcFlagAck = 0 := by
  unfold reassembled at h
  split_ifs at h with hack hfrag
  · obtain ⟨hseq, hsrc⟩ := bcReasmFeed_identity h
    have hflags : complete.flags = 0 := bcReasmFeed_flags h
    refine ⟨hseq, hsrc, ?_⟩
    rw [hflags]
    decide
  · cases h
    exact ⟨rfl, rfl, not_not.mp hack⟩

/-- A frame that no bus answers, in whatever state. -/
def Unanswered (σ ν : Type*) (frame : List UInt8) : Prop :=
  ∀ (deliver : ℤ → List UInt8 → σ → DeliverAnswer × σ) (send : ℕ → List UInt8 → ν → BcStatus × ν)
    (s : BusState σ ν) (msg : BcMessage) (fromTransport : Option ℕ),
    bcProtocolDecode frame = .ok msg →
      (bcMessageBusHandleInbound deliver send s msg fromTransport).1.acks = [] ∧
      (bcMessageBusHandleInbound deliver send s msg fromTransport).1.forwarded = [] ∧
      (bcMessageBusHandleInbound deliver send s msg fromTransport).2.transports = s.transports

theorem unanswered_of_ack {frame : List UInt8} {ack : BcMessage}
    (hframe : bcProtocolDecode frame = .ok ack) (hflag : ack.flags &&& bcFlagAck ≠ 0) :
    Unanswered σ ν frame := by
  intro deliver send s msg fromTransport hmsg
  obtain rfl : ack = msg := Except.ok.inj (hframe.symm.trans hmsg)
  rcases handleInbound_result deliver send s ack fromTransport with
    ⟨-, hnothing⟩ | ⟨-, -, -, hdata, -⟩
  · exact hnothing
  · exact absurd hdata hflag

/-- An acknowledgement certifies that the message is delivered. Whatever message a
bus receives, it sends one acknowledgement at most, and only for a message that it
has whole, that asks for it and is for this node, after every client with a matching
entry has taken it. It passes no acknowledgement on, and no bus answers one. -/
theorem ack_certifies_delivery {σ' ν' : Type*} (s : BusState σ ν) (msg : BcMessage)
    (fromTransport : Option ℕ) (hfd : ∀ sub ∈ s.bus.subscriptions, 0 ≤ sub.fd) :
    (bcMessageBusHandleInbound deliver send s msg fromTransport).1.acks.length ≤ 1 ∧
      (∀ frame ∈ (bcMessageBusHandleInbound deliver send s msg fromTransport).1.acks,
        (∃ complete ack, bcProtocolDecode frame = .ok ack ∧
          Certified deliver s msg complete ack) ∧
        Unanswered σ' ν' frame) ∧
      ∀ frame ∈ (bcMessageBusHandleInbound deliver send s msg fromTransport).1.forwarded,
        ∃ passed, bcProtocolDecode frame = .ok passed ∧ passed.flags &&& bcFlagAck = 0 := by
  rcases handleInbound_result deliver send s msg fromTransport with
    ⟨-, hacks, hforwarded, -⟩ | ⟨complete, bus, hbus, hdata, hwhole, hresult⟩
  · rw [hacks, hforwarded]
    simp
  rw [hresult]
  obtain ⟨hacks, hforwarded⟩ := @inboundComplete_answered _ _ deliver send complete
    { s with bus := bus, reasm := (reassembled s.reasm msg).1 } fromTransport
  obtain ⟨hseq, hsrc, hflag⟩ := reassembled_identity hwhole
  refine ⟨?_, ?_, fun frame hframe => ?_⟩
  · rcases hacks with hnone | ⟨-, -, -, -, hone⟩
    · simp [hnone]
    · simp [hone]
  · rcases hacks with hnone | ⟨hqos, hhere, htaken, hwell, hone⟩
    · simp [hnone]
    rw [hone]
    intro frame hframe
    rw [List.mem_singleton.mp hframe]
    have hdecode := decode_frameBytes hwell
    have hmarked : bcFlagAck &&& bcFlagAck ≠ 0 := by decide
    refine ⟨⟨complete, _, hdecode, ?_⟩, unanswered_of_ack hdecode hmarked⟩
    simp only [hbus.subscriptions] at htaken
    refine ⟨hdata, hwhole, hqos, ?_, ?_, htaken, rfl, hseq, hsrc, hbus.nodeId⟩
    · rwa [hbus.nodeId] at hhere
    · rw [deliverAnswers_fst]
      refine List.filter_congr fun sub hsub => ?_
      have hclient : sub.fd ≠ -1 := by
        have hnonneg := hfd sub hsub
        omega
      simp [BcSubscription.wants, hclient]
  · obtain ⟨piece, hpiece, hwell, rfl⟩ := hforwarded frame hframe
    have hclear := wirePieces_no_ack hflag hpiece
    exact ⟨piece.canonical, decode_frameBytes hwell, hclear⟩

end Inbound

section Request

/-- A node with a subscriber of everything, and a broadcast that asks for an
acknowledgement. -/
def askedNode : BusState (List DeliverAnswer) (List (ℕ × List UInt8)) :=
  ⟨⟨[⟨5, .ofPrefix _ anyTopic⟩], ⟨[], [], []⟩, 1, 0, false, true, bcStatsReset⟩,
    bcReasmInit, [], []⟩

def askingMessage : BcMessage :=
  { BcMessage.zero with
    srcNode := 2, seq := 7, qos := bcQosAtLeastOnce, topic := .ofPrefix _ [116] }

theorem ack_certifies_delivery_asked :
    (bcMessageBusHandleInbound answerNext putOut askedNode askingMessage (some 0)).1.acks ≠ [] ∧
      ∀ frame ∈ (bcMessageBusHandleInbound answerNext putOut askedNode askingMessage
          (some 0)).1.acks,
        (∃ complete ack, bcProtocolDecode frame = .ok ack ∧
          Certified answerNext askedNode askingMessage complete ack) ∧
        Unanswered ℕ ℕ frame :=
  ⟨by decide +kernel, (ack_certifies_delivery answerNext putOut askedNode askingMessage (some 0)
    (by decide)).2.1⟩

end Request

end BoardComm
