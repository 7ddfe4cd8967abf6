import BoardComm.InboundCounters
import BoardComm.ProtocolRoundTrip
import BoardComm.PublishOutcome
import BoardComm.Runs
import BoardComm.TokenWalk

/-!
# A network of bridging nodes

Every transport of a node is linked to a transport of another node. A node that
gets a frame decodes it and hands it to its bus; what the bus sends is on its way
to the other end of the link. Frames are not lost, and handled in any order.
-/
namespace BoardComm

/-- A frame with the node and the transport at which it is to arrive. -/
abbrev FlyingFrame (N : Type*) := (N × ℕ) × List UInt8

/-- The buses of the nodes, and the links between their transports. -/
structure BridgeNetwork (N : Type*) where
  bus : N → MessageBus
  links : TokenWalk.Links N ℕ

/-- A network that runs, with the local deliveries made so far, and the nodes that
have passed a message on. -/
structure NetState (N : Type*) where
  bus : N → MessageBus
  reasm : N → BcReasm
  inFlight : Multiset (FlyingFrame N)
  deliveries : List (N × List BcSubscription)
  forwarded : List N

/-- A frame is handled; the answers are those of the clients of the node. -/
structure Arrival (N : Type*) where
  frame : FlyingFrame N
  answers : List DeliverAnswer

/-- The clients answer one after the other, and take a frame when nothing else is
said. -/
def answerNext (_ : ℤ) (_ : List UInt8) (answers : List DeliverAnswer) :
    DeliverAnswer × List DeliverAnswer :=
  (answers.headD ⟨.ok, true⟩, answers.tail)

/-- A transport that takes every frame. -/
def putOut (transport : ℕ) (data : List UInt8) (put : List (ℕ × List UInt8)) :
    BcStatus × List (ℕ × List UInt8) :=
  (.ok, put ++ [(transport, data)])

/-- The transport that a bus chooses for a broadcast. -/
def broadcastRoute (bus : MessageBus) (topic : List UInt8) : Option ℕ :=
  if bus.bridgeBroadcast = true then routeTopic bus.router topic bus.router.routes none else none

namespace BridgeNetwork

variable {N : Type*} [DecidableEq N] (net : BridgeNetwork N)

/-- Frames that a node puts on its transports arrive at the other ends. -/
def arriving (n : N) (put : List (ℕ × List UInt8)) : Multiset (FlyingFrame N) :=
  ↑(put.map fun p => (net.links.peer (n, p.1), p.2))

/-- A client of a node of the idle network publishes a message. -/
def publish (origin : N) (source : ℤ) (msg : BcMessage) (answers : List DeliverAnswer) :
    NetState N :=
  let r := bcMessageBusPublish answerNext putOut (net.bus origin) source msg answers []
  { bus := Function.update net.bus origin r.2.1
    reasm := fun _ => bcReasmInit
    inFlight := net.arriving origin r.2.2.2
    deliveries :=
      if shouldDeliverLocal (net.bus origin) msg = true then [(origin, r.1.appended)] else []
    forwarded := [] }

/-- A node gets a frame. -/
def receive (s : NetState N) (a : Arrival N) : NetState N :=
  let n := a.frame.1.1
  match bcProtocolDecode a.frame.2 with
  | .error _ => { s with inFlight := s.inFlight.erase a.frame }
  | .ok msg =>
    let r := bcMessageBusHandleInbound answerNext putOut ⟨s.bus n, s.reasm n, a.answers, []⟩ msg
      (some a.frame.1.2)
    { bus := Function.update s.bus n r.2.bus
      reasm := Function.update s.reasm n r.2.reasm
      inFlight := s.inFlight.erase a.frame + net.arriving n r.2.transports
      deliveries := s.deliveries ++ (r.1.delivery.map fun d => (n, d.appended)).toList
      forwarded := if r.1.forwarded = [] then s.forwarded else s.forwarded ++ [n] }

/-- One of the frames on their way is handled. -/
def step (s : NetState N) (a : Arrival N) : NetState N :=
  if a.frame ∈ s.inFlight then net.receive s a else s

/-- The transport that a node chooses for the broadcasts of a topic. -/
def route (topic : List UInt8) (n : N) : Option ℕ := broadcastRoute (net.bus n) topic

/-- Where a broadcast goes from a node that it reached by a transport, or where it
was published. -/
abbrev hop (topic : List UInt8) : N × Option ℕ → Option (N × Option ℕ) :=
  TokenWalk.hop net.links (net.route topic)

end BridgeNetwork

/-- A message for every node, without a channel. -/
structure BcMessage.Broadcast (msg : BcMessage) : Prop where
  dstNode : msg.dstNode = 0
  channel : msg.channel.str = []

section Sending

/-- The messages of which the frames go to the wire. -/
def wirePieces (msg : BcMessage) : List BcMessage :=
  if msg.payloadLen > bcFragChunkMax then fragmentsOf msg else [msg]

/-- A frame that its receiver only counts. -/
def Inert (data : List UInt8) : Prop :=
  ∃ msg, bcProtocolDecode data = .ok msg ∧ msg.flags &&& bcFlagAck ≠ 0

variable {msg : BcMessage} (transport : ℕ) (put : List (ℕ × List UInt8))

theorem wirePieces_ne_nil (hle : msg.payloadLen ≤ bcMaxPayloadLen) : wirePieces msg ≠ [] := by
  unfold wirePieces
  split_ifs with hgt
  · rw [fragmentsOf_eq hgt hle]
    simp
  · simp

theorem emitNetworkFrame_putOut (h : msg.WellFormed) (stats : BcStats) (sent : List (List UInt8)) :
    emitNetworkFrame putOut transport msg ⟨put, stats, sent⟩ =
      (.ok, ⟨put ++ [(transport, frameBytes msg)], stats, sent ++ [frameBytes msg]⟩) := by
  obtain ⟨frame, hframe, hdata⟩ := bcProtocolEncode_of_wellFormed h
  simp [emitNetworkFrame, hframe, putOut, hdata]

/-- A proper message goes out whole. -/
theorem sendOnTransport_putOut (h : msg.WellFormed) (stats : BcStats) :
    ∃ stats', sendOnTransport putOut transport msg ⟨put, stats, []⟩ =
      (.ok, ⟨put ++ (wirePieces msg).map (fun piece => (transport, frameBytes piece)), stats',
        (wirePieces msg).map frameBytes⟩) := by
  unfold sendOnTransport wirePieces
  by_cases hgt : msg.payloadLen > bcFragChunkMax
  · simp [hgt, bcFragmentPublish_two _ hgt h.payloadLen,
      emitNetworkFrame_putOut _ _ (fragmentPiece_wellFormed h 2 _),
      fragmentsOf_eq hgt h.payloadLen]
  · simp [hgt, emitNetworkFrame_putOut _ _ h]

/-- The pieces of a message that is too long for one frame. -/
theorem fragmentsOf_eq_map (hgt : bcFragChunkMax < msg.payloadLen)
    (htotal : (msg.payloadLen + bcFragChunkMax - 1) / bcFragChunkMax % 2 ^ 16 ≠ 0) :
    fragmentsOf msg =
      (List.range ((msg.payloadLen + bcFragChunkMax - 1) / bcFragChunkMax % 2 ^ 16)).map
        (fragmentPiece msg ((msg.payloadLen + bcFragChunkMax - 1) / bcFragChunkMax % 2 ^ 16)) := by
  have hloop : ∀ (total : ℕ) (indices : List ℕ) (pieces : List BcMessage),
      (bcFragmentPublishLoop (fun piece pieces => (.ok, pieces ++ [piece])) msg total indices
        pieces).2 = pieces ++ indices.map (fragmentPiece msg total) := by
    intro total indices
    induction indices with
    | nil => simp [bcFragmentPublishLoop]
    | cons index indices ih =>
      intro pieces
      simp [bcFragmentPublishLoop, ih]
  unfold fragmentsOf bcFragmentPublish
  simp only [if_neg (Nat.not_le.mpr hgt), if_neg htotal, hloop, List.nil_append]

theorem exists_of_mem_fragmentsOf (hgt : bcFragChunkMax < msg.payloadLen) {piece : BcMessage}
    (hpiece : piece ∈ fragmentsOf msg) : ∃ total index, piece = fragmentPiece msg total index := by
  by_cases htotal : (msg.payloadLen + bcFragChunkMax - 1) / bcFragChunkMax % 2 ^ 16 = 0
  · simp only [fragmentsOf, bcFragmentPublish, if_neg (Nat.not_le.mpr hgt), if_pos htotal,
      List.not_mem_nil] at hpiece
  · rw [fragmentsOf_eq_map hgt htotal] at hpiece
    obtain ⟨index, -, rfl⟩ := List.mem_map.mp hpiece
    exact ⟨_, index, rfl⟩

/-- Whatever a transport answers, it has taken no other frames than those of the
message. -/
theorem sendOnTransport_sent_mem {ν : Type*} (send : ℕ → List UInt8 → ν → BcStatus × ν)
    (transports : ν) (stats : BcStats) {frame : List UInt8}
    (h : frame ∈ (sendOnTransport send transport msg ⟨transports, stats, []⟩).2.sent) :
    ∃ piece ∈ wirePieces msg, piece.WellFormed ∧ frame = frameBytes piece := by
  have hemit : ∀ (piece : BcMessage) (use : NetworkUse ν),
      frame ∈ (emitNetworkFrame send transport piece use).2.sent →
        frame ∈ use.sent ∨ (piece.WellFormed ∧ frame = frameBytes piece) := by
    intro piece use hmem
    by_cases hwell : piece.WellFormed
    · obtain ⟨f, hf, hdata⟩ := bcProtocolEncode_of_wellFormed hwell
      simp only [emitNetworkFrame, hf] at hmem
      split_ifs at hmem
      · rcases List.mem_append.mp hmem with hmem | hmem
        · exact .inl hmem
        · exact .inr ⟨hwell, (List.mem_singleton.mp hmem).trans hdata⟩
      · exact .inl hmem
    · simp only [emitNetworkFrame, bcProtocolEncode_of_not_wellFormed hwell] at hmem
      exact .inl hmem
  have hloop : ∀ (total : ℕ) (indices : List ℕ) (use : NetworkUse ν),
      frame ∈ (bcFragmentPublishLoop (emitNetworkFrame send transport) msg total indices
          use).2.sent →
        frame ∈ use.sent ∨ ∃ index ∈ indices, (fragmentPiece msg total index).WellFormed ∧
          frame = frameBytes (fragmentPiece msg total index) := by
    intro total indices
    induction indices with
    | nil => exact fun use hmem => .inl hmem
    | cons index indices ih =>
      intro use hmem
      have hfirst := hemit (fragmentPiece msg total index) use
      unfold bcFragmentPublishLoop at hmem
      rcases hanswer : emitNetworkFrame send transport (fragmentPiece msg total index) use
        with ⟨rc, use'⟩
      rw [hanswer] at hmem hfirst
      have hhere : frame ∈ use'.sent → frame ∈ use.sent ∨ ∃ i ∈ index :: indices,
          (fragmentPiece msg total i).WellFormed ∧
            frame = frameBytes (fragmentPiece msg total i) := by
        intro hmem'
        rcases hfirst hmem' with hmem' | hpiece
        · exact .inl hmem'
        · exact .inr ⟨index, by simp, hpiece⟩
      cases rc with
      | ok =>
        rcases ih use' hmem with hmem' | ⟨i, hi, hpiece⟩
        · exact hhere hmem'
        · exact .inr ⟨i, List.mem_cons_of_mem _ hi, hpiece⟩
      | _ => exact hhere hmem
  have hsent : frame ∈ (if msg.payloadLen > bcFragChunkMax then
      bcFragmentPublish (emitNetworkFrame send transport) msg
        ⟨transports, { stats with fragTx := stats.fragTx + 1 }, []⟩
      else emitNetworkFrame send transport msg ⟨transports, stats, []⟩).2.sent := by
    unfold sendOnTransport at h
    simp only at h
    split_ifs at h ⊢ <;> exact h
  unfold wirePieces
  split_ifs at hsent ⊢ with hgt
  · unfold bcFragmentPublish at hsent
    simp only [if_neg (Nat.not_le.mpr hgt)] at hsent
    split_ifs at hsent with htotal
    · cases hsent
    · rcases hloop _ _ _ hsent with hmem | ⟨index, hindex, hpiece⟩
      · cases hmem
      · rw [fragmentsOf_eq_map hgt htotal]
        exact ⟨_, List.mem_map.mpr ⟨index, hindex, rfl⟩, hpiece⟩
  · rcases hemit _ _ hsent with hmem | hpiece
    · cases hmem
    · exact ⟨msg, by simp, hpiece⟩

/-- A message without a topic does not go out at all. -/
theorem sendOnTransport_no_topic (htopic : msg.topic.str = [])
    (hle : msg.payloadLen ≤ bcMaxPayloadLen) (stats : BcStats) :
    ∃ stats', sendOnTransport putOut transport msg ⟨put, stats, []⟩ =
      (.invalid, ⟨put, stats', []⟩) := by
  have hemit : ∀ (piece : BcMessage) (stats : BcStats), piece.topic.str = [] →
      emitNetworkFrame putOut transport piece ⟨put, stats, []⟩ =
        (.invalid, ⟨put, stats, []⟩) := by
    intro piece stats hpiece
    have hnot : ¬ piece.WellFormed := fun hwell => hwell.topic_ne hpiece
    simp [emitNetworkFrame, bcProtocolEncode_of_not_wellFormed hnot]
  have hterminated : msg.topic.Terminated := by
    rw [CBuffer.Terminated, htopic]
    decide
  unfold sendOnTransport
  by_cases hgt : msg.payloadLen > bcFragChunkMax
  · have hfirst : ∀ stats : BcStats,
        emitNetworkFrame putOut transport (fragmentPiece msg 2 0) ⟨put, stats, []⟩ =
          (.invalid, ⟨put, stats, []⟩) :=
      fun stats => hemit _ stats ((fragmentPiece_topic 2 0 hterminated).trans htopic)
    simp only [if_pos hgt, bcFragmentPublish_two _ hgt hle, hfirst, reduceCtorEq, if_false]
    exact ⟨_, rfl⟩
  · simp only [if_neg hgt, hemit msg stats htopic, reduceCtorEq, if_false]
    exact ⟨_, rfl⟩

end Sending

section Inbound

variable {msg : BcMessage}

/-- What a node puts on its transports for a broadcast that reached it by a
transport: acknowledgements, and the broadcast if it passes it on. -/
inductive Spread (msg : BcMessage) (route fromTransport : Option ℕ) :
    List (List UInt8) → List (ℕ × List UInt8) → Prop
  | kept (acks : List (ℕ × List UInt8)) (hinert : ∀ a ∈ acks, Inert a.2) :
      Spread msg route fromTransport [] acks
  | passed (transport : ℕ) (hroute : route = some transport)
      (hback : some transport ≠ fromTransport) (acks : List (ℕ × List UInt8))
      (hinert : ∀ a ∈ acks, Inert a.2) :
      Spread msg route fromTransport ((wirePieces msg).map frameBytes)
        ((wirePieces msg).map (fun piece => (transport, frameBytes piece)) ++ acks)

theorem bcRouterRoute_broadcast (router : BcRouter) (h : msg.channel.str = []) :
    bcRouterRoute router msg = routeTopic router msg.topic.str router.routes none := by
  simp [bcRouterRoute, h]

/-- An acknowledgement is a proper message. -/
theorem ackMessage_wellFormed (bus : MessageBus) (h : msg.WellFormed) :
    (ackMessage bus msg).WellFormed := by
  have hstr : ∀ {n : ℕ} (b : CBuffer (n + 1)), b.Terminated →
      (CBuffer.ofPrefix (n + 1) (b.str.take n)).str = b.str := by
    intro n b hb
    have hlt : b.str.length < n + 1 := hb
    rw [List.take_of_length_le (by omega), CBuffer.str_ofPrefix hb, CBuffer.str, CBuffer.cstr_cstr]
  have hchannel : (ackMessage bus msg).channel.str = msg.channel.str := hstr _ h.channel
  have htopic : (ackMessage bus msg).topic.str = msg.topic.str := hstr _ h.topic
  refine ⟨?_, ?_, ?_, Nat.zero_le _⟩
  · rw [CBuffer.Terminated, hchannel]
    exact h.channel
  · rw [CBuffer.Terminated, htopic]
    exact h.topic
  · rw [htopic]
    exact h.topic_ne

/-- The frame of a message with the flag is inert. -/
theorem inert_frameBytes (h : msg.WellFormed) (hflag : msg.flags &&& bcFlagAck ≠ 0) :
    Inert (frameBytes msg) :=
  ⟨msg.canonical, decode_frameBytes h, hflag⟩

/-- The transport to which a node passes a message on. -/
def passRoute (bus : MessageBus) (msg : BcMessage) : Option ℕ :=
  if shouldForward bus msg = true then bcRouterRoute bus.router msg else none

theorem passRoute_broadcast (bus : MessageBus) (hb : msg.Broadcast) :
    passRoute bus msg = broadcastRoute bus msg.topic.str := by
  have hforward : shouldForward bus msg = bus.bridgeBroadcast := if_pos hb.dstNode
  rw [passRoute, hforward, bcRouterRoute_broadcast _ hb.channel, broadcastRoute]

theorem MessageBus.Agrees.passRoute_eq {bus bus' : MessageBus} (h : bus.Agrees bus')
    (msg : BcMessage) : passRoute bus' msg = passRoute bus msg := by
  rw [h.eq]
  rfl

/-- What a transport that takes every frame gets of an acknowledgement. -/
theorem inboundAck_putOut (s : BusState (List DeliverAnswer) (List (ℕ × List UInt8)))
    (h : msg.WellFormed) (fromTransport : Option ℕ) :
    ∃ acks : List (ℕ × List UInt8),
      (acks = [] ∨ ∃ transport, fromTransport = some transport ∧
        acks = [(transport, frameBytes (ackMessage s.bus msg))]) ∧
      (msg.qos = bcQosAtLeastOnce → fromTransport ≠ none → acks ≠ []) ∧
      (inboundAck putOut s msg fromTransport).2.transports = s.transports ++ acks ∧
      s.bus.Agrees (inboundAck putOut s msg fromTransport).2.bus ∧
      (inboundAck putOut s msg fromTransport).2.reasm = s.reasm ∧
      (inboundAck putOut s msg fromTransport).2.bus.stats.ackSent =
        s.bus.stats.ackSent + UInt64.ofNat acks.length := by
  have hsame : s.bus.Agrees s.bus := ⟨rfl, rfl, rfl, rfl, rfl⟩
  have hzero : s.bus.stats.ackSent = s.bus.stats.ackSent + 0 := (UInt64.add_zero _).symm
  cases fromTransport with
  | none => exact ⟨[], .inl rfl, by simp, by simp [inboundAck], hsame, rfl, hzero⟩
  | some transport =>
    by_cases hqos : msg.qos = bcQosAtLeastOnce
    · have hack := ackMessage_wellFormed s.bus h
      obtain ⟨stats', hsend⟩ := sendOnTransport_putOut transport s.transports hack s.bus.stats
      have hsent : stats'.ackSent = s.bus.stats.ackSent := by
        have hkeeps := @sendOnTransport_keeps _ _ putOut (ackMessage s.bus msg) _ ackSent_blind
          transport ⟨s.transports, s.bus.stats, []⟩
        rwa [hsend] at hkeeps
      have hshort : wirePieces (ackMessage s.bus msg) = [ackMessage s.bus msg] :=
        if_neg (Nat.not_lt_zero _)
      refine ⟨[(transport, frameBytes (ackMessage s.bus msg))], .inr ⟨transport, rfl, rfl⟩,
        by simp, ?_⟩
      simp only [inboundAck, if_pos hqos, sendAck, hsend, if_true, hshort, hsent]
      exact ⟨rfl, ⟨rfl, rfl, rfl, rfl, rfl⟩, trivial, rfl⟩
    · refine ⟨[], .inl rfl, fun hask => absurd hask hqos, ?_⟩
      simp only [inboundAck, if_neg hqos]
      exact ⟨(List.append_nil _).symm, hsame, trivial, hzero⟩

/-- What is put on a transport of a message that is passed on: nothing, or all of it. -/
theorem forwardMessage_putOut (bus : MessageBus) (h : msg.WellFormed) (exclude : Option ℕ) :
    let f := forwardMessage putOut bus msg exclude []
    bus.Agrees f.2.2.1 ∧ f.2.2.1.stats.ackSent = bus.stats.ackSent ∧
      ((f.2.1 = [] ∧ f.2.2.2 = [] ∧ ∀ transport, bcRouterRoute bus.router msg = some transport →
          some transport = exclude) ∨
        ∃ transport, bcRouterRoute bus.router msg = some transport ∧ some transport ≠ exclude ∧
          f.1 = .ok ∧ f.2.1 = (wirePieces msg).map frameBytes ∧
          f.2.2.2 = (wirePieces msg).map fun piece => (transport, frameBytes piece)) := by
  unfold forwardMessage
  cases hroute : bcRouterRoute bus.router msg with
  | none =>
    simp only
    split_ifs <;> exact ⟨⟨rfl, rfl, rfl, rfl, rfl⟩, rfl, .inl ⟨rfl, rfl, by simp⟩⟩
  | some transport =>
    by_cases hback : some transport = exclude
    · simp only [if_pos hback]
      exact ⟨⟨rfl, rfl, rfl, rfl, rfl⟩, trivial, .inl ⟨trivial, trivial, by simpa using hback⟩⟩
    · obtain ⟨stats', hsend⟩ := sendOnTransport_putOut transport [] h bus.stats
      have hsent : stats'.ackSent = bus.stats.ackSent := by
        have hkeeps := @sendOnTransport_keeps _ _ putOut msg _ ackSent_blind transport
          ⟨[], bus.stats, []⟩
        rwa [hsend] at hkeeps
      simp only [if_neg hback, hsend, if_true]
      exact ⟨⟨rfl, rfl, rfl, rfl, rfl⟩, hsent,
        .inr ⟨transport, rfl, hback, trivial, trivial, List.nil_append _⟩⟩

/-- Clients that take everything let a local delivery succeed. -/
theorem deliverLocalLoop_answerNext (source : ℤ) (msg : BcMessage) (subs : List BcSubscription) :
    (deliverLocalLoop answerNext source msg subs []).1.failed = 0 ∧
      (deliverLocalLoop answerNext source msg subs []).1.delivered =
        (deliverLocalLoop answerNext source msg subs []).1.matched := by
  induction subs with
  | nil => exact ⟨rfl, rfl⟩
  | cons sub subs ih =>
    obtain ⟨hfailed, hdelivered⟩ := ih
    unfold deliverLocalLoop
    split_ifs
    · simp [answerNext, LocalDelivery.add, hfailed, hdelivered]
    · exact ⟨hfailed, hdelivered⟩

/-- A message for this node is handed to its subscribers. -/
theorem inboundLocal_here (s : BusState (List DeliverAnswer) (List (ℕ × List UInt8)))
    (hlocal : shouldDeliverLocal s.bus msg = true) :
    let l := inboundLocal answerNext s msg
    s.bus.Agrees l.2.2.bus ∧ l.2.2.bus.stats.ackSent = s.bus.stats.ackSent ∧
      l.2.2.reasm = s.reasm ∧ l.2.2.transports = s.transports ∧ (∃ d, l.2.1 = some d) ∧
      (s.clients = [] → ∃ n, l.1 = .ok n) := by
  simp only [inboundLocal, if_pos hlocal, bcMessageBusDeliverLocal]
  refine ⟨⟨rfl, rfl, rfl, rfl, rfl⟩, ?_, trivial, trivial, ⟨_, rfl⟩, fun hclients => ?_⟩
  · split <;> rfl
  obtain ⟨hfailed, hdelivered⟩ := deliverLocalLoop_answerNext (-1) msg s.bus.subscriptions
  rw [hclients]
  simp only [LocalDelivery.result, hfailed, hdelivered]
  rw [if_neg (lt_irrefl 0), if_neg (by omega)]
  exact ⟨_, rfl⟩

/-- What a node that was reached by a transport has done with a complete message, with
the acknowledgements that it sent: it has delivered a message for itself, passed on a
message for others, and acknowledged only what it delivered. -/
structure InboundDone (s : BusState (List DeliverAnswer) (List (ℕ × List UInt8))) (msg : BcMessage)
    (fromTransport : Option ℕ)
    (r : InboundResult × BusState (List DeliverAnswer) (List (ℕ × List UInt8)))
    (acks : List (ℕ × List UInt8)) : Prop where
  agrees : s.bus.Agrees r.2.bus
  reasm : r.2.reasm = s.reasm
  delivered : shouldDeliverLocal s.bus msg = true → ∃ d, r.1.delivery = some d
  frames : acks = [] ∨ ∃ transport, fromTransport = some transport ∧
    acks = [(transport, frameBytes (ackMessage s.bus msg))]
  here : acks ≠ [] → shouldDeliverLocal s.bus msg = true
  ackSent : r.2.bus.stats.ackSent = s.bus.stats.ackSent + UInt64.ofNat acks.length
  passed : (r.1.forwarded = [] ∧ r.2.transports = acks ∧
      (s.clients = [] → ∀ transport, passRoute s.bus msg = some transport →
        some transport = fromTransport)) ∨
    ∃ transport, passRoute s.bus msg = some transport ∧ some transport ≠ fromTransport ∧
      r.1.forwarded = (wirePieces msg).map frameBytes ∧
      r.2.transports = (wirePieces msg).map (fun piece => (transport, frameBytes piece)) ++ acks
  replied : s.clients = [] → msg.qos = bcQosAtLeastOnce → msg.dstNode ≠ 0 →
    msg.dstNode = s.bus.nodeId → fromTransport ≠ none → acks ≠ []

theorem inboundComplete_putOut (s : BusState (List DeliverAnswer) (List (ℕ × List UInt8)))
    (hput : s.transports = []) (h : msg.WellFormed) (fromTransport : Option ℕ) :
    ∃ acks, InboundDone s msg fromTransport (inboundComplete answerNext putOut s msg fromTransport)
      acks := by
  have hzero : ∀ n : UInt64, n = n + 0 := fun n => (UInt64.add_zero n).symm
  unfold inboundComplete
  by_cases hother : msg.dstNode ≠ 0 ∧ msg.dstNode ≠ s.bus.nodeId
  · have hroute : passRoute s.bus msg = bcRouterRoute s.bus.router msg := by
      simp [passRoute, shouldForward, hother.1, hother.2]
    have hnot : ¬ shouldDeliverLocal s.bus msg = true := by
      simpa [shouldDeliverLocal] using hother
    obtain ⟨hagrees, hsent, hpassed⟩ := forwardMessage_putOut s.bus h fromTransport
    simp only [if_pos hother, inboundUnicast, hput]
    refine ⟨[], ⟨hagrees.1, hagrees.2, hagrees.3, hagrees.4, hagrees.5⟩, rfl,
      fun hhere => absurd hhere hnot, .inl rfl, fun hne => absurd rfl hne, hsent.trans (hzero _), ?_,
      fun _ _ _ hnode => absurd hnode hother.2⟩
    rw [hroute]
    rcases hpassed with ⟨hnone, hnothing, hchoice⟩ | ⟨transport, htransport, hback, -, hall, hframes⟩
    · exact .inl ⟨hnone, hnothing, fun _ => hchoice⟩
    · exact .inr ⟨transport, htransport, hback, hall, by rw [List.append_nil]; exact hframes⟩
  have hhere : shouldDeliverLocal s.bus msg = true := by
    by_contra hnot
    exact hother (by simpa [shouldDeliverLocal] using hnot)
  obtain ⟨hbus, hsent, hreasm, htransports, ⟨d, hd⟩, hok⟩ := inboundLocal_here s hhere
  simp only [if_neg hother]
  generalize inboundLocal answerNext s msg = l at hbus hsent hreasm htransports hd hok
  obtain ⟨result, delivery, s₁⟩ := l
  simp only at hbus hsent hreasm htransports hd hok
  subst hd
  cases result with
  | error rc =>
    have hnot : s.clients ≠ [] := by
      intro hclients
      obtain ⟨n, hn⟩ := hok hclients
      cases hn
    exact ⟨[], hbus, hreasm, fun _ => ⟨d, rfl⟩, .inl rfl, fun hne => absurd rfl hne,
      hsent.trans (hzero _),
      .inl ⟨rfl, htransports.trans hput, fun hclients => absurd hclients hnot⟩,
      fun hclients => absurd hclients hnot⟩
  | ok n =>
    have hforward : ∀ f, inboundForward putOut s₁ msg fromTransport = f →
        s₁.bus.Agrees f.2.2.bus ∧ f.2.2.bus.stats.ackSent = s₁.bus.stats.ackSent ∧
          f.2.2.reasm = s₁.reasm ∧
          ((f.2.1 = [] ∧ f.2.2.transports = [] ∧
              ∀ transport, passRoute s.bus msg = some transport →
                some transport = fromTransport) ∨
            ∃ transport, passRoute s.bus msg = some transport ∧ some transport ≠ fromTransport ∧
              f.1 = .ok ∧ f.2.1 = (wirePieces msg).map frameBytes ∧
              f.2.2.transports =
                (wirePieces msg).map fun piece => (transport, frameBytes piece)) ∧
          (msg.dstNode ≠ 0 → msg.dstNode = s.bus.nodeId → f.1 = .ok) := by
      rintro f rfl
      unfold inboundForward
      rw [← hbus.passRoute_eq, ← hbus.nodeId, passRoute]
      by_cases hpass : shouldForward s₁.bus msg = true
      · obtain ⟨hagrees, hkept, hpassed⟩ := forwardMessage_putOut s₁.bus h fromTransport
        simp only [if_pos hpass, show s₁.transports = [] from htransports.trans hput]
        refine ⟨hagrees, hkept, trivial, hpassed, fun hdst hnode => ?_⟩
        rw [shouldForward, if_neg hdst] at hpass
        exact absurd hnode (of_decide_eq_true hpass)
      · simp only [if_neg hpass]
        exact ⟨⟨rfl, rfl, rfl, rfl, rfl⟩, trivial, trivial,
          .inl ⟨trivial, htransports.trans hput, by simp⟩, fun _ _ => trivial⟩
    obtain ⟨hbus₂, hsent₂, hreasm₂, hpassed, hrc⟩ := hforward _ rfl
    simp only
    generalize inboundForward putOut s₁ msg fromTransport = f at hbus₂ hsent₂ hreasm₂ hpassed hrc
    obtain ⟨rc, sent, s₂⟩ := f
    simp only at hbus₂ hsent₂ hreasm₂ hpassed hrc ⊢
    have hagrees := hbus.trans hbus₂
    by_cases hrequire : rc ≠ .ok ∧ s₂.bus.requireRoute = true
    · rw [if_pos hrequire]
      obtain ⟨hnone, hnothing, hchoice⟩ : sent = [] ∧ s₂.transports = [] ∧
          ∀ transport, passRoute s.bus msg = some transport → some transport = fromTransport := by
        rcases hpassed with hkept | ⟨-, -, -, hrc, -⟩
        · exact hkept
        · exact absurd hrc hrequire.1
      refine ⟨[], hagrees, hreasm₂.trans hreasm, fun _ => ⟨d, rfl⟩, .inl rfl,
        fun hne => absurd rfl hne, (hsent₂.trans hsent).trans (hzero _),
        .inl ⟨hnone, hnothing, fun _ => hchoice⟩, fun _ _ hdst hnode => ?_⟩
      exact absurd (hrc hdst hnode) hrequire.1
    · rw [if_neg hrequire]
      obtain ⟨acks, hframes, hasked, hput₃, hbus₃, hreasm₃, hsent₃⟩ :=
        inboundAck_putOut s₂ h fromTransport
      have hack : ackMessage s₂.bus msg = ackMessage s.bus msg := by
        simp only [ackMessage, hagrees.nodeId]
      rw [hack] at hframes
      refine ⟨acks, hagrees.trans hbus₃, (hreasm₃.trans hreasm₂).trans hreasm, fun _ => ⟨d, rfl⟩,
        hframes, fun _ => hhere, ?_, ?_, fun _ hqos _ _ hfrom => hasked hqos hfrom⟩
      · rw [hsent₃, hsent₂, hsent]
      · rcases hpassed with ⟨hnone, hnothing, hchoice⟩ |
          ⟨transport, htransport, hback, -, hall, hput₂⟩
        · exact .inl ⟨hnone, by rw [hput₃, hnothing, List.nil_append], fun _ => hchoice⟩
        · exact .inr ⟨transport, htransport, hback, hall, by rw [hput₃, hput₂]⟩

/-- Acknowledgements are inert. -/
theorem InboundDone.inert {s : BusState (List DeliverAnswer) (List (ℕ × List UInt8))}
    {fromTransport : Option ℕ}
    {r : InboundResult × BusState (List DeliverAnswer) (List (ℕ × List UInt8))}
    {acks : List (ℕ × List UInt8)} (hr : InboundDone s msg fromTransport r acks)
    (h : msg.WellFormed) :
    ∀ a ∈ acks, Inert a.2 := by
  have hflag : bcFlagAck &&& bcFlagAck ≠ 0 := by decide
  rcases hr.frames with rfl | ⟨transport, -, rfl⟩
  · simp
  · intro a ha
    rw [List.mem_singleton.mp ha]
    exact inert_frameBytes (ackMessage_wellFormed s.bus h) hflag

/-- A broadcast spreads. -/
theorem InboundDone.spread {s : BusState (List DeliverAnswer) (List (ℕ × List UInt8))}
    {fromTransport : Option ℕ}
    {r : InboundResult × BusState (List DeliverAnswer) (List (ℕ × List UInt8))}
    {acks : List (ℕ × List UInt8)} (hr : InboundDone s msg fromTransport r acks)
    (h : msg.WellFormed)
    (hb : msg.Broadcast) :
    Spread msg (broadcastRoute s.bus msg.topic.str) fromTransport r.1.forwarded r.2.transports ∧
      (s.clients = [] → ∀ transport, broadcastRoute s.bus msg.topic.str = some transport →
        some transport ≠ fromTransport → r.1.forwarded ≠ []) := by
  have hinert := hr.inert h
  have hpassed := hr.passed
  rw [passRoute_broadcast _ hb] at hpassed
  refine ⟨?_, fun hclients transport hroute hback => ?_⟩
  · rcases hpassed with ⟨hnone, hframes, -⟩ | ⟨transport, hroute, hback, hall, hframes⟩
    · rw [hnone, hframes]
      exact .kept acks hinert
    · rw [hall, hframes]
      exact .passed transport hroute hback acks hinert
  · rcases hpassed with ⟨-, -, hchoice⟩ | ⟨-, -, -, hall, -⟩
    · exact absurd (hchoice hclients transport hroute) hback
    · rw [hall]
      simpa using wirePieces_ne_nil h.payloadLen

/-- What a node makes of a message it received: the message that is complete with
it, if any. -/
def reassembled (reasm : BcReasm) (msg : BcMessage) : BcReasm × Option BcMessage :=
  if msg.flags &&& bcFlagAck ≠ 0 then (reasm, none)
  else if msg.flags &&& bcFlagFragment ≠ 0 then (bcReasmFeed reasm msg).2
  else (reasm, some msg)

/-- A message that completes nothing is only counted or stored. -/
theorem handleInbound_none (s : BusState (List DeliverAnswer) (List (ℕ × List UInt8)))
    (fromTransport : Option ℕ) (hnone : (reassembled s.reasm msg).2 = none) :
    let r := bcMessageBusHandleInbound answerNext putOut s msg fromTransport
    s.bus.Agrees r.2.bus ∧ r.2.reasm = (reassembled s.reasm msg).1 ∧
      r.2.transports = s.transports ∧ r.1.delivery = none ∧ r.1.forwarded = [] := by
  unfold reassembled at hnone ⊢
  unfold bcMessageBusHandleInbound
  by_cases hack : msg.flags &&& bcFlagAck ≠ 0
  · simp only [if_pos hack]
    exact ⟨⟨rfl, rfl, rfl, rfl, rfl⟩, trivial, trivial, trivial, trivial⟩
  by_cases hfrag : msg.flags &&& bcFlagFragment ≠ 0
  · simp only [if_neg hack, if_pos hfrag] at hnone ⊢
    rw [hnone]
    simp only
    split_ifs <;> exact ⟨⟨rfl, rfl, rfl, rfl, rfl⟩, rfl, rfl, rfl, rfl⟩
  · simp only [if_neg hack, if_neg hfrag, reduceCtorEq] at hnone

theorem handleInbound_none_ackSent (s : BusState (List DeliverAnswer) (List (ℕ × List UInt8)))
    (fromTransport : Option ℕ) (hnone : (reassembled s.reasm msg).2 = none) :
    (bcMessageBusHandleInbound answerNext putOut s msg fromTransport).2.bus.stats.ackSent =
      s.bus.stats.ackSent := by
  unfold reassembled at hnone
  unfold bcMessageBusHandleInbound
  by_cases hack : msg.flags &&& bcFlagAck ≠ 0
  · simp only [if_pos hack]
  by_cases hfrag : msg.flags &&& bcFlagFragment ≠ 0
  · simp only [if_neg hack, if_pos hfrag] at hnone ⊢
    rw [hnone]
    simp only
    split_ifs <;> rfl
  · simp only [if_neg hack, if_neg hfrag, reduceCtorEq] at hnone

/-- Any other is handled as the message that is complete with it. -/
theorem handleInbound_some (s : BusState (List DeliverAnswer) (List (ℕ × List UInt8)))
    (fromTransport : Option ℕ) {complete : BcMessage}
    (hsome : (reassembled s.reasm msg).2 = some complete) :
    ∃ bus : MessageBus, s.bus.Agrees bus ∧ bus.stats.ackSent = s.bus.stats.ackSent ∧
      bcMessageBusHandleInbound answerNext putOut s msg fromTransport =
        inboundComplete answerNext putOut
          { s with bus := bus, reasm := (reassembled s.reasm msg).1 } complete fromTransport := by
  unfold reassembled at hsome ⊢
  unfold bcMessageBusHandleInbound
  by_cases hack : msg.flags &&& bcFlagAck ≠ 0
  · simp only [if_pos hack, reduceCtorEq] at hsome
  by_cases hfrag : msg.flags &&& bcFlagFragment ≠ 0
  · simp only [if_neg hack, if_pos hfrag] at hsome ⊢
    rw [hsome]
    refine ⟨_, ?_, ?_, rfl⟩
    · exact ⟨rfl, rfl, rfl, rfl, rfl⟩
    · rfl
  · simp only [if_neg hack, if_neg hfrag, Option.some.injEq] at hsome ⊢
    subst hsome
    refine ⟨_, ?_, ?_, rfl⟩
    · exact ⟨rfl, rfl, rfl, rfl, rfl⟩
    · rfl

end Inbound

section Publishing

variable {msg : BcMessage}

/-- A broadcast goes to the transport that the bus chooses for it, unless it is not
to be bridged. -/
theorem networkRoute_broadcast (bus : MessageBus) (hb : msg.Broadcast) :
    networkRoute bus msg =
      if msg.flags &&& bcFlagNoBridge ≠ 0 then none else broadcastRoute bus msg.topic.str := by
  have hforward : shouldForward bus msg = bus.bridgeBroadcast := if_pos hb.dstNode
  unfold networkRoute needNetwork broadcastRoute
  rw [bcRouterRoute_broadcast _ hb.channel, hforward]
  by_cases hflag : msg.flags &&& bcFlagNoBridge ≠ 0
  · simp [hflag, hb.channel, hb.dstNode]
  · simp [hflag, hb.channel, hb.dstNode]

/-- What publishing puts on the transports: all of the message, if there is a route. -/
theorem publishNetwork_putOut (bus : MessageBus) (hwell : msg.WellFormed)
    (localResult : Except BcStatus ℕ) :
    (networkRoute bus msg = none ∧ (publishNetwork putOut bus msg localResult []).2.1 = [] ∧
        (publishNetwork putOut bus msg localResult []).2.2.2 = []) ∨
      ∃ transport, networkRoute bus msg = some transport ∧
        (publishNetwork putOut bus msg localResult []).2.1 = (wirePieces msg).map frameBytes ∧
        (publishNetwork putOut bus msg localResult []).2.2.2 =
          (wirePieces msg).map fun piece => (transport, frameBytes piece) := by
  unfold publishNetwork networkRoute
  by_cases hneed : needNetwork bus msg = true
  · simp only [if_pos hneed]
    cases hroute : bcRouterRoute bus.router msg with
    | none =>
      refine .inl ⟨rfl, ?_⟩
      simp only
      split_ifs <;> exact ⟨rfl, rfl⟩
    | some transport =>
      obtain ⟨stats, hsend⟩ := sendOnTransport_putOut transport [] hwell bus.stats
      simp only [hsend]
      exact .inr ⟨transport, rfl, trivial, List.nil_append _⟩
  · simp only [if_neg hneed]
    exact .inl ⟨trivial, trivial, trivial⟩

/-- What publishing a broadcast puts on the transports. -/
theorem publishNetwork_broadcast (bus : MessageBus) (hwell : msg.WellFormed)
    (localResult : Except BcStatus ℕ) :
    Spread msg (networkRoute bus msg) none
        (publishNetwork putOut bus msg localResult []).2.1
        (publishNetwork putOut bus msg localResult []).2.2.2 ∧
      (networkRoute bus msg ≠ none → (publishNetwork putOut bus msg localResult []).2.1 ≠ []) := by
  rcases publishNetwork_putOut bus hwell localResult with
    ⟨hroute, hsent, hput⟩ | ⟨transport, hroute, hsent, hput⟩
  · rw [hroute, hsent, hput]
    exact ⟨.kept [] (by simp), fun hne => absurd rfl hne⟩
  · rw [hroute, hsent, hput]
    refine ⟨?_, fun _ => by simpa using wirePieces_ne_nil hwell.payloadLen⟩
    have hpassed : Spread msg (some transport) none ((wirePieces msg).map frameBytes)
        ((wirePieces msg).map (fun piece => (transport, frameBytes piece)) ++ []) :=
      .passed transport rfl (Option.some_ne_none transport) [] (by simp)
    rwa [List.append_nil] at hpassed

/-- A broadcast without a topic is put on no transport. -/
theorem publishNetwork_no_topic (bus : MessageBus) (htopic : msg.topic.str = [])
    (hle : msg.payloadLen ≤ bcMaxPayloadLen) (localResult : Except BcStatus ℕ) :
    (publishNetwork putOut bus msg localResult []).2.2.2 = [] := by
  unfold publishNetwork
  by_cases hneed : needNetwork bus msg = true
  · simp only [if_pos hneed]
    cases bcRouterRoute bus.router msg with
    | none =>
      simp only
      split_ifs <;> rfl
    | some transport =>
      obtain ⟨stats, hsend⟩ := sendOnTransport_no_topic transport [] htopic hle bus.stats
      simp only [hsend]
  · simp only [if_neg hneed]

end Publishing

end BoardComm
