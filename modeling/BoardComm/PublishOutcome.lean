import BoardComm.ClientDelivery

/-!
# What one attempt to publish leaves behind

`BC_ERR_NOMEM` and `BC_ERR_NOT_FOUND` leave the frame at the head of the receive
buffer, so the publish is run again. Whether such an attempt has left a copy of
the message in a stream or on a transport is decided before it: by the room in
the queues of the subscribers, the route, and the answers of the transport to
the pieces of the message.
-/
namespace BoardComm

/-- The frame of the message stays in the receive buffer of its publisher. -/
def PublishResult.Kept (r : PublishResult) : Prop := r.rc = .nomem ∨ r.rc = .notFound

/-- No stream and no transport has the message. -/
def PublishResult.Silent (r : PublishResult) : Prop := r.appended = [] ∧ r.sent = []

section Network

variable {ν : Type*} (send : ℕ → List UInt8 → ν → BcStatus × ν)

/-- The answer of a transport to a piece of a message. -/
def answerTo (transport : ℕ) (piece : BcMessage) (transports : ν) : BcStatus × ν :=
  match bcProtocolEncode piece with
  | .error _ => (.invalid, transports)
  | .ok frame => send transport frame.data transports

/-- The piece of a message that is sent first. -/
def firstPiece (msg : BcMessage) : BcMessage :=
  if msg.payloadLen > bcFragChunkMax then fragmentPiece msg 2 0 else msg

/-- The transport does not take the first piece. -/
def Declines (transport : ℕ) (msg : BcMessage) (transports : ν) : Prop :=
  (answerTo send transport (firstPiece msg) transports).1 ≠ .ok

/-- The transport takes the first of two pieces and answers the second with a
status that keeps the frame. -/
def Breaks (transport : ℕ) (msg : BcMessage) (transports : ν) : Prop :=
  msg.payloadLen > bcFragChunkMax ∧
    (answerTo send transport (fragmentPiece msg 2 0) transports).1 = .ok ∧
    ((answerTo send transport (fragmentPiece msg 2 1)
        (answerTo send transport (fragmentPiece msg 2 0) transports).2).1 = .nomem ∨
      (answerTo send transport (fragmentPiece msg 2 1)
        (answerTo send transport (fragmentPiece msg 2 0) transports).2).1 = .notFound)

/-- What a transport answers to a message: its answer to the last piece that it
was offered. -/
def networkAnswer (transport : ℕ) (msg : BcMessage) (transports : ν) : BcStatus :=
  if msg.payloadLen > bcFragChunkMax then
    let first := answerTo send transport (fragmentPiece msg 2 0) transports
    if first.1 = .ok then (answerTo send transport (fragmentPiece msg 2 1) first.2).1 else first.1
  else (answerTo send transport msg transports).1

variable (transport : ℕ)

theorem emitNetworkFrame_answer (piece : BcMessage) (use : NetworkUse ν) :
    (emitNetworkFrame send transport piece use).1 =
        (answerTo send transport piece use.transports).1 ∧
      (emitNetworkFrame send transport piece use).2.transports =
        (answerTo send transport piece use.transports).2 := by
  unfold emitNetworkFrame answerTo
  cases bcProtocolEncode piece with
  | error e => exact ⟨rfl, rfl⟩
  | ok frame =>
    dsimp only
    split
    · next hok => exact ⟨hok.symm, rfl⟩
    · exact ⟨rfl, rfl⟩

/-- A frame is on the transport exactly when it was taken. -/
theorem emitNetworkFrame_sent (piece : BcMessage) (use : NetworkUse ν) :
    ((answerTo send transport piece use.transports).1 = .ok →
        (emitNetworkFrame send transport piece use).2.sent ≠ []) ∧
      ((answerTo send transport piece use.transports).1 ≠ .ok →
        (emitNetworkFrame send transport piece use).2.sent = use.sent) := by
  unfold emitNetworkFrame answerTo
  cases bcProtocolEncode piece with
  | error e => simp
  | ok frame =>
    dsimp only
    by_cases hok : (send transport frame.data use.transports).1 = .ok
    · simp [hok]
    · simp [hok]

theorem emitNetworkFrame_sent_ne {piece : BcMessage} {use : NetworkUse ν} (h : use.sent ≠ []) :
    (emitNetworkFrame send transport piece use).2.sent ≠ [] := by
  by_cases hok : (answerTo send transport piece use.transports).1 = .ok
  · exact (emitNetworkFrame_sent send transport piece use).1 hok
  · rw [(emitNetworkFrame_sent send transport piece use).2 hok]
    exact h

/-- A message that needs two pieces stops at the first that is not taken. -/
theorem bcFragmentPublish_two {σ : Type*} {msg : BcMessage} (emit : BcMessage → σ → BcStatus × σ)
    (hgt : bcFragChunkMax < msg.payloadLen) (hle : msg.payloadLen ≤ bcMaxPayloadLen) (user : σ) :
    bcFragmentPublish emit msg user =
      if (emit (fragmentPiece msg 2 0) user).1 = .ok then
        emit (fragmentPiece msg 2 1) (emit (fragmentPiece msg 2 0) user).2
      else emit (fragmentPiece msg 2 0) user := by
  have htotal : (msg.payloadLen + bcFragChunkMax - 1) / bcFragChunkMax % 2 ^ 16 = 2 := by
    simp only [bcFragChunkMax, bcMaxPayloadLen, bcFragHdrSize] at *
    omega
  have hrange : List.range 2 = [0, 1] := rfl
  unfold bcFragmentPublish
  simp only [if_neg (Nat.not_le.mpr hgt), htotal, if_neg two_ne_zero, hrange,
    bcFragmentPublishLoop]
  rcases emit (fragmentPiece msg 2 0) user with ⟨rc, user'⟩
  cases rc <;> simp only [reduceCtorEq, if_true, if_false]
  rcases emit (fragmentPiece msg 2 1) user' with ⟨rc', user''⟩
  cases rc' <;> rfl

/-- The counters do not matter to what is sent. -/
theorem sendOnTransport_eq (msg : BcMessage) (use : NetworkUse ν) :
    ∃ stats : BcStats,
      (sendOnTransport send transport msg use).1 =
          (if msg.payloadLen > bcFragChunkMax then
            bcFragmentPublish (emitNetworkFrame send transport) msg { use with stats := stats }
          else emitNetworkFrame send transport msg { use with stats := stats }).1 ∧
        (sendOnTransport send transport msg use).2.sent =
          (if msg.payloadLen > bcFragChunkMax then
            bcFragmentPublish (emitNetworkFrame send transport) msg { use with stats := stats }
          else emitNetworkFrame send transport msg { use with stats := stats }).2.sent := by
  unfold sendOnTransport
  by_cases hgt : msg.payloadLen > bcFragChunkMax
  · refine ⟨{ use.stats with fragTx := use.stats.fragTx + 1 }, ?_⟩
    simp only [if_pos hgt]
    split
    · next hok => exact ⟨hok.symm, rfl⟩
    · exact ⟨rfl, rfl⟩
  · refine ⟨use.stats, ?_⟩
    simp only [if_neg hgt]
    split
    · next hok => exact ⟨hok.symm, rfl⟩
    · exact ⟨rfl, rfl⟩

theorem sendOnTransport_rc {msg : BcMessage} (hle : msg.payloadLen ≤ bcMaxPayloadLen)
    (transports : ν) (stats : BcStats) :
    (sendOnTransport send transport msg ⟨transports, stats, []⟩).1 =
      networkAnswer send transport msg transports := by
  obtain ⟨stats', hrc, -⟩ := sendOnTransport_eq send transport msg ⟨transports, stats, []⟩
  rw [hrc, networkAnswer]
  by_cases hgt : msg.payloadLen > bcFragChunkMax
  · simp only [if_pos hgt, bcFragmentPublish_two _ hgt hle]
    obtain ⟨hfirst, hafter⟩ := emitNetworkFrame_answer send transport
      (fragmentPiece msg 2 0) ⟨transports, stats', []⟩
    rw [hfirst]
    split
    · rw [(emitNetworkFrame_answer send transport _ _).1, hafter]
    · exact hfirst
  · simp only [if_neg hgt]
    exact (emitNetworkFrame_answer send transport msg ⟨transports, stats', []⟩).1

theorem sendOnTransport_sent_iff {msg : BcMessage}
    (hle : msg.payloadLen ≤ bcMaxPayloadLen) (transports : ν) (stats : BcStats) :
    (sendOnTransport send transport msg ⟨transports, stats, []⟩).2.sent = [] ↔
      Declines send transport msg transports := by
  obtain ⟨stats', -, hsent⟩ :=
    sendOnTransport_eq send transport msg ⟨transports, stats, []⟩
  rw [hsent, Declines, firstPiece]
  by_cases hgt : msg.payloadLen > bcFragChunkMax
  · simp only [if_pos hgt, bcFragmentPublish_two _ hgt hle]
    have hanswer := emitNetworkFrame_answer send transport
      (fragmentPiece msg 2 0) ⟨transports, stats', []⟩
    have hfirst := emitNetworkFrame_sent send transport
      (fragmentPiece msg 2 0) ⟨transports, stats', []⟩
    by_cases hok : (answerTo send transport (fragmentPiece msg 2 0) transports).1 = .ok
    · rw [if_pos (hanswer.1.trans hok)]
      exact iff_of_false (emitNetworkFrame_sent_ne send transport (hfirst.1 hok)) (not_not.mpr hok)
    · rw [if_neg (hanswer.1.trans_ne hok)]
      exact iff_of_true (hfirst.2 hok) hok
  · simp only [if_neg hgt]
    have hfirst := emitNetworkFrame_sent send transport
      msg ⟨transports, stats', []⟩
    by_cases hok : (answerTo send transport msg transports).1 = .ok
    · exact iff_of_false (hfirst.1 hok) (not_not.mpr hok)
    · exact iff_of_true (hfirst.2 hok) hok

/-- A status that keeps the frame, with a piece on the transport. -/
theorem sendOnTransport_breaks_iff {msg : BcMessage}
    (hle : msg.payloadLen ≤ bcMaxPayloadLen) (transports : ν) (stats : BcStats) :
    (((sendOnTransport send transport msg ⟨transports, stats, []⟩).1 = .nomem ∨
        (sendOnTransport send transport msg ⟨transports, stats, []⟩).1 = .notFound) ∧
      (sendOnTransport send transport msg ⟨transports, stats, []⟩).2.sent ≠ []) ↔
      Breaks send transport msg transports := by
  obtain ⟨stats', hrc, hsent⟩ :=
    sendOnTransport_eq send transport msg ⟨transports, stats, []⟩
  rw [hrc, hsent, Breaks]
  by_cases hgt : msg.payloadLen > bcFragChunkMax
  · simp only [if_pos hgt, bcFragmentPublish_two _ hgt hle]
    have hanswer := emitNetworkFrame_answer send transport
      (fragmentPiece msg 2 0) ⟨transports, stats', []⟩
    have hfirst := emitNetworkFrame_sent send transport
      (fragmentPiece msg 2 0) ⟨transports, stats', []⟩
    by_cases hok : (answerTo send transport (fragmentPiece msg 2 0) transports).1 = .ok
    · rw [if_pos (hanswer.1.trans hok), (emitNetworkFrame_answer send transport _ _).1, hanswer.2]
      simp [hgt, hok, emitNetworkFrame_sent_ne send transport (hfirst.1 hok)]
    · rw [if_neg (hanswer.1.trans_ne hok), hfirst.2 hok]
      simp [hok]
  · simp only [if_neg hgt]
    have hanswer := emitNetworkFrame_answer send transport
      msg ⟨transports, stats', []⟩
    have hfirst := emitNetworkFrame_sent send transport
      msg ⟨transports, stats', []⟩
    constructor
    · -- a single piece with an error is not on the transport
      rintro ⟨hkept, hne⟩
      have hnot : (answerTo send transport msg transports).1 ≠ .ok := by
        rw [hanswer.1] at hkept
        rcases hkept with h | h <;> rw [h] <;> simp
      exact absurd (hfirst.2 hnot) hne
    · rintro ⟨hgt', -⟩
      exact absurd hgt' hgt

end Network

section Bus

/-- Two states of the bus with the same tables and settings. -/
structure MessageBus.Agrees (bus bus' : MessageBus) : Prop where
  subscriptions : bus'.subscriptions = bus.subscriptions
  router : bus'.router = bus.router
  nodeId : bus'.nodeId = bus.nodeId
  requireRoute : bus'.requireRoute = bus.requireRoute
  bridgeBroadcast : bus'.bridgeBroadcast = bus.bridgeBroadcast

variable {bus bus' : MessageBus} {msg : BcMessage}

/-- Only the sequence counter and the statistics differ. -/
theorem MessageBus.Agrees.eq (h : bus.Agrees bus') :
    bus' = { bus with nextSeq := bus'.nextSeq, stats := bus'.stats } := by
  obtain ⟨hsubscriptions, hrouter, hnodeId, hrequire, hbridge⟩ := h
  cases bus'
  simp only at hsubscriptions hrouter hnodeId hrequire hbridge
  subst hsubscriptions hrouter hnodeId hrequire hbridge
  rfl

theorem MessageBus.Agrees.trans {bus'' : MessageBus} (h : bus.Agrees bus') (h' : bus'.Agrees bus'') :
    bus.Agrees bus'' :=
  ⟨h'.1.trans h.1, h'.2.trans h.2, h'.3.trans h.3, h'.4.trans h.4, h'.5.trans h.5⟩

/-- Publishing leaves the flags and the payload of a message alone, and says where it
is to go as before. -/
theorem stampMessage_fields (bus : MessageBus) (msg : BcMessage) :
    (stampMessage bus msg).1.flags = msg.flags ∧
      (stampMessage bus msg).1.payloadLen = msg.payloadLen ∧
      (stampMessage bus msg).1.dstNode = msg.dstNode ∧
      (stampMessage bus msg).1.channel = msg.channel ∧
      (stampMessage bus msg).1.topic = msg.topic ∧ (stampMessage bus msg).1.qos = msg.qos := by
  unfold stampMessage
  split_ifs <;> exact ⟨rfl, rfl, rfl, rfl, rfl, rfl⟩

theorem agrees_stampMessage (bus : MessageBus) (msg : BcMessage) :
    bus.Agrees (stampMessage bus msg).2 := by
  unfold stampMessage
  split <;> exact ⟨rfl, rfl, rfl, rfl, rfl⟩

theorem agrees_publishLocal {σ : Type*} (deliver : ℤ → List UInt8 → σ → DeliverAnswer × σ)
    (source : ℤ) (clients : σ) :
    bus.Agrees (publishLocal deliver bus source msg clients).2.2.1 := by
  unfold publishLocal
  split <;> exact ⟨rfl, rfl, rfl, rfl, rfl⟩

/-- The entries that are to get a message. -/
def matchingEntries (bus : MessageBus) (source : ℤ) (msg : BcMessage) : List BcSubscription :=
  if shouldDeliverLocal bus msg = true then bus.subscriptions.filter (·.wants source msg) else []

/-- The transport that a message goes to. -/
def networkRoute (bus : MessageBus) (msg : BcMessage) : Option ℕ :=
  if needNetwork bus msg = true then bcRouterRoute bus.router msg else none

/-- The message has to go to a transport, and no route names one. -/
def Unroutable (bus : MessageBus) (msg : BcMessage) : Prop :=
  needNetwork bus msg = true ∧ bcRouterRoute bus.router msg = none ∧ bus.requireRoute = true

theorem MessageBus.Agrees.needNetwork_eq (h : bus.Agrees bus') (msg : BcMessage) :
    needNetwork bus' msg = needNetwork bus msg := by
  rw [h.eq]
  rfl

theorem MessageBus.Agrees.matchingEntries_eq (h : bus.Agrees bus') (source : ℤ) (msg : BcMessage) :
    matchingEntries bus' source msg = matchingEntries bus source msg := by
  rw [h.eq]
  rfl

theorem MessageBus.Agrees.networkRoute_eq (h : bus.Agrees bus') (msg : BcMessage) :
    networkRoute bus' msg = networkRoute bus msg := by
  simp only [networkRoute, h.needNetwork_eq, h.router]

theorem MessageBus.Agrees.unroutable_iff (h : bus.Agrees bus') (msg : BcMessage) :
    Unroutable bus' msg ↔ Unroutable bus msg := by
  simp only [Unroutable, h.needNetwork_eq, h.router, h.requireRoute]

variable {ν : Type*} (send : ℕ → List UInt8 → ν → BcStatus × ν) (localResult : Except BcStatus ℕ)
  (transports : ν)

theorem agrees_publishNetwork :
    bus.Agrees (publishNetwork send bus msg localResult transports).2.2.1 := by
  unfold publishNetwork
  split
  · split
    · split <;> exact ⟨rfl, rfl, rfl, rfl, rfl⟩
    · exact ⟨rfl, rfl, rfl, rfl, rfl⟩
  · exact ⟨rfl, rfl, rfl, rfl, rfl⟩

theorem agrees_bcMessageBusPublish {σ : Type*} (deliver : ℤ → List UInt8 → σ → DeliverAnswer × σ)
    (bus : MessageBus) (source : ℤ) (msg : BcMessage) (clients : σ) :
    bus.Agrees (bcMessageBusPublish deliver send bus source msg clients transports).2.1 :=
  ((agrees_stampMessage bus msg).trans (agrees_publishLocal deliver source clients)).trans
    (agrees_publishNetwork send _ transports)

theorem publishNetwork_unroutable (h : Unroutable bus msg) :
    (publishNetwork send bus msg localResult transports).1 =
        (if localStatus localResult = .nomem then .nomem else .notFound) ∧
      (publishNetwork send bus msg localResult transports).2.1 = [] := by
  obtain ⟨hneed, hroute, hrequire⟩ := h
  simp only [publishNetwork, hneed, hroute, hrequire, if_true, and_self]

theorem publishNetwork_no_route (hroute : networkRoute bus msg = none) (h : ¬ Unroutable bus msg) :
    (publishNetwork send bus msg localResult transports).1 = localStatus localResult ∧
      (publishNetwork send bus msg localResult transports).2.1 = [] := by
  unfold publishNetwork
  unfold networkRoute at hroute
  by_cases hneed : needNetwork bus msg = true
  · rw [if_pos hneed] at hroute ⊢
    have hrequire : bus.requireRoute ≠ true := fun hrequire => h ⟨hneed, hroute, hrequire⟩
    simp only [hroute, if_neg hrequire, and_self]
  · simp only [if_neg hneed, and_self]

theorem publishNetwork_route {transport : ℕ} (hroute : networkRoute bus msg = some transport) :
    (publishNetwork send bus msg localResult transports).1 =
        publishStatus msg localResult
          (sendOnTransport send transport msg ⟨transports, bus.stats, []⟩).1 ∧
      (publishNetwork send bus msg localResult transports).2.1 =
        (sendOnTransport send transport msg ⟨transports, bus.stats, []⟩).2.sent := by
  unfold publishNetwork
  unfold networkRoute at hroute
  by_cases hneed : needNetwork bus msg = true
  · rw [if_pos hneed] at hroute ⊢
    simp only [hroute, and_self]
  · rw [if_neg hneed] at hroute
    cases hroute

end Bus

section Local

variable {clients : List BcClient} {watch : ℤ → Bool} {bus : MessageBus} {source : ℤ}
  {msg : BcMessage}

theorem deliverFrame_length_le (msg : BcMessage) : (deliverFrame msg).length ≤ bcClientTxCap := by
  simp only [deliverFrame, IpcHeader.toBytes, IpcHeader.widths, IpcHeader.fields, BcMessage.body,
    List.length_append, ByteLayout.pack_length, List.zip_cons_cons, List.zip_nil_right,
    List.map_cons, List.map_nil, List.sum_cons, List.sum_nil, List.length_take,
    CBuffer.length_bytes, bcClientTxCap, bcMaxChannelLen, bcMaxTopicLen, bcMaxPayloadLen]
  omega

theorem publishLocal_of_allTake
    (h : AllTake clients watch (deliverFrame msg).length (matchingEntries bus source msg)) :
    (publishLocal (deliverToClient watch) bus source msg clients).1 =
      .ok (matchingEntries bus source msg).length := by
  unfold publishLocal
  unfold matchingEntries at h ⊢
  by_cases hlocal : shouldDeliverLocal bus msg = true
  · simp only [if_pos hlocal] at h ⊢
    rw [deliverLocalLoop_filter]
    have hwants : ∀ sub ∈ bus.subscriptions.filter (·.wants source msg),
        sub.wants source msg = true := fun sub hsub => (List.mem_filter.mp hsub).2
    have hfailed := (failed_eq_zero_iff hwants (deliverFrame_length_le msg)).mpr h
    obtain ⟨hmatched, hsum⟩ := matched_eq hwants (deliverToClient watch) clients
    unfold LocalDelivery.result
    rw [if_neg (by omega), if_neg (by omega)]
    congr 1
    omega
  · simp only [if_neg hlocal, List.length_nil]

theorem publishLocal_of_not_allTake
    (h : ¬ AllTake clients watch (deliverFrame msg).length (matchingEntries bus source msg)) :
    (publishLocal (deliverToClient watch) bus source msg clients).1 = .error .nomem := by
  unfold publishLocal
  unfold matchingEntries at h
  by_cases hlocal : shouldDeliverLocal bus msg = true
  · simp only [if_pos hlocal] at h ⊢
    rw [deliverLocalLoop_filter]
    have hwants : ∀ sub ∈ bus.subscriptions.filter (·.wants source msg),
        sub.wants source msg = true := fun sub hsub => (List.mem_filter.mp hsub).2
    rw [← failed_eq_zero_iff hwants (deliverFrame_length_le msg)] at h
    unfold LocalDelivery.result
    rw [if_pos (Nat.pos_of_ne_zero h)]
  · exact absurd (by simp [hlocal, AllTake]) h

theorem publishLocal_appended_iff :
    (publishLocal (deliverToClient watch) bus source msg clients).2.1 = [] ↔
      NoneTake clients (deliverFrame msg).length (matchingEntries bus source msg) := by
  unfold publishLocal matchingEntries
  by_cases hlocal : shouldDeliverLocal bus msg = true
  · simp only [if_pos hlocal]
    rw [deliverLocalLoop_filter]
    exact appended_eq_nil_iff (fun sub hsub => (List.mem_filter.mp hsub).2)
      (deliverFrame_length_le msg)
  · simp [hlocal, NoneTake]

/-- The first copy for an entry needs no more room than all of them. -/
theorem not_noneTake {n : ℕ} {subs : List BcSubscription} (hall : AllTake clients watch n subs)
    (hne : subs ≠ []) : ¬ NoneTake clients n subs := by
  obtain ⟨sub, hsub⟩ := List.exists_mem_of_ne_nil subs hne
  intro hnone
  obtain ⟨r, hr, htakes⟩ := hall sub hsub
  have hpos : 0 < copies subs sub.fd := List.countP_pos_iff.mpr ⟨sub, hsub, by simp⟩
  have hrefuses := hnone sub hsub r hr
  cases r with
  | socket w =>
    have hn : n ≤ copies subs sub.fd * n := Nat.le_mul_of_pos_left n hpos
    have hroom := htakes.1
    exact hrefuses hpos (by omega)
  | ring writes =>
    obtain ⟨rest, rfl⟩ := htakes
    apply hrefuses
    rw [List.take_left' List.length_replicate]
    exact List.mem_replicate.mpr ⟨by omega, rfl⟩

end Local

section Attempts

variable {ν : Type*} (send : ℕ → List UInt8 → ν → BcStatus × ν)

namespace Attempt

/-- The message as it is published. -/
def stamped (a : Attempt ν) : BcMessage := (stampMessage a.bus a.msg).1

/-- The entries that are to get the message. -/
def matching (a : Attempt ν) : List BcSubscription := matchingEntries a.bus a.publisher a.stamped

/-- Every matching entry has room for its copies. -/
def AllRoom (a : Attempt ν) : Prop :=
  AllTake a.clients a.watch (deliverFrame a.stamped).length a.matching

/-- No matching entry has room. -/
def NoRoom (a : Attempt ν) : Prop :=
  NoneTake a.clients (deliverFrame a.stamped).length a.matching

/-- The attempt either succeeds or leaves no copy behind. -/
structure Harmless (a : Attempt ν) : Prop where
  refused : ¬ a.AllRoom → a.NoRoom ∧ ∀ transport, networkRoute a.bus a.stamped = some transport →
    Declines send transport a.stamped a.transports
  delivered : a.AllRoom → a.matching ≠ [] → ¬ Unroutable a.bus a.stamped
  network : a.matching = [] → a.msg.qos ≥ bcQosAtLeastOnce →
    ∀ transport, networkRoute a.bus a.stamped = some transport →
      ¬ Breaks send transport a.stamped a.transports

/-- What publishing in the state of the attempt gives. -/
def replay (a : Attempt ν) : PublishResult :=
  (bcMessageBusPublish (deliverToClient a.watch) send a.bus a.publisher a.msg a.clients
    a.transports).1

variable {a : Attempt ν}

theorem stamped_eq (a : Attempt ν) :
    a.stamped.payloadLen = a.msg.payloadLen ∧ a.stamped.qos = a.msg.qos := by
  unfold stamped stampMessage
  split <;> exact ⟨rfl, rfl⟩

/-- The two halves of the publish. -/
theorem replay_eq (a : Attempt ν) :
    ∃ (localResult : Except BcStatus ℕ) (bus : MessageBus), a.bus.Agrees bus ∧
      (a.AllRoom → localResult = .ok a.matching.length) ∧
      (¬ a.AllRoom → localResult = .error .nomem) ∧
      ((a.replay send).appended = [] ↔ a.NoRoom) ∧
      (a.replay send).rc = (publishNetwork send bus a.stamped localResult a.transports).1 ∧
      (a.replay send).sent = (publishNetwork send bus a.stamped localResult a.transports).2.1 := by
  have hbus := agrees_stampMessage a.bus a.msg
  refine ⟨_, _, hbus.trans (agrees_publishLocal _ a.publisher a.clients), fun h => ?_, fun h => ?_,
    ?_, rfl, rfl⟩
  · rw [AllRoom, matching, ← hbus.matchingEntries_eq] at h
    rw [matching, ← hbus.matchingEntries_eq]
    exact publishLocal_of_allTake h
  · rw [AllRoom, matching, ← hbus.matchingEntries_eq] at h
    exact publishLocal_of_not_allTake h
  · rw [NoRoom, matching, ← hbus.matchingEntries_eq]
    exact publishLocal_appended_iff

theorem allRoom_of_matching (h : a.matching = []) : a.AllRoom := by
  rw [AllRoom, h]
  intro sub hsub
  simp at hsub

/-- A refused delivery is reported whatever the transport answers. -/
theorem replay_refused (hlen : a.msg.payloadLen ≤ bcMaxPayloadLen) (h : ¬ a.AllRoom) :
    (a.replay send).rc = .nomem ∧
      ((a.replay send).sent = [] ↔
        ∀ transport, networkRoute a.bus a.stamped = some transport →
          Declines send transport a.stamped a.transports) := by
  obtain ⟨localResult, bus, hagrees, -, hlocal, -, hrc, hsent⟩ := replay_eq send a
  rw [hrc, hsent, hlocal h, ← hagrees.networkRoute_eq]
  cases hroute : networkRoute bus a.stamped with
  | none =>
    by_cases hun : Unroutable bus a.stamped
    · obtain ⟨hrc, hsent⟩ := publishNetwork_unroutable send (.error .nomem) a.transports hun
      rw [hrc, hsent]
      simp [localStatus]
    · obtain ⟨hrc, hsent⟩ :=
        publishNetwork_no_route send (.error .nomem) a.transports hroute hun
      rw [hrc, hsent]
      simp [localStatus]
  | some transport =>
    obtain ⟨hrc, hsent⟩ := publishNetwork_route send (.error .nomem) a.transports hroute
    rw [hrc, hsent, sendOnTransport_sent_iff send transport (by rw [(stamped_eq a).1]; exact hlen)]
    constructor
    · simp [publishStatus, localStatus]
    · simp

/-- A message that some entry got is kept for lack of a route only. -/
theorem replay_delivered (h : a.AllRoom) (hne : a.matching ≠ []) :
    (a.replay send).Kept ↔ Unroutable a.bus a.stamped := by
  obtain ⟨localResult, bus, hagrees, hlocal, -, -, hrc, -⟩ := replay_eq send a
  have hlen : a.matching.length ≠ 0 := by simpa using hne
  rw [PublishResult.Kept, hrc, hlocal h, ← hagrees.unroutable_iff]
  by_cases hun : Unroutable bus a.stamped
  · rw [(publishNetwork_unroutable send _ _ hun).1]
    simp [localStatus, hun]
  · cases hroute : networkRoute bus a.stamped with
    | none =>
      rw [(publishNetwork_no_route send _ _ hroute hun).1]
      simp [localStatus, hun]
    | some transport =>
      rw [(publishNetwork_route send _ _ hroute).1]
      simp [publishStatus, localStatus, localDelivered, hlen, hun]

/-- A message that no entry is to get is kept as the transport answers. -/
theorem replay_unmatched (hlen : a.msg.payloadLen ≤ bcMaxPayloadLen) (h : a.matching = []) :
    ((a.replay send).Kept → (a.replay send).sent = []) ↔
      (a.msg.qos ≥ bcQosAtLeastOnce → ∀ transport,
        networkRoute a.bus a.stamped = some transport →
          ¬ Breaks send transport a.stamped a.transports) := by
  obtain ⟨localResult, bus, hagrees, hlocal, -, -, hrc, hsent⟩ := replay_eq send a
  rw [PublishResult.Kept, hrc, hsent, hlocal (allRoom_of_matching h), h, ← hagrees.networkRoute_eq]
  cases hroute : networkRoute bus a.stamped with
  | none =>
    by_cases hun : Unroutable bus a.stamped
    · rw [(publishNetwork_unroutable send _ _ hun).2]
      simp
    · rw [(publishNetwork_no_route send _ _ hroute hun).2]
      simp
  | some transport =>
    obtain ⟨hrc, hsent⟩ := publishNetwork_route send (.ok 0) a.transports hroute
    rw [List.length_nil, hrc, hsent]
    have hbreaks := sendOnTransport_breaks_iff send transport
      (show a.stamped.payloadLen ≤ bcMaxPayloadLen by rw [(stamped_eq a).1]; exact hlen)
      a.transports bus.stats
    by_cases hqos : a.msg.qos ≥ bcQosAtLeastOnce
    · have hstatus : publishStatus a.stamped (.ok 0)
          (sendOnTransport send transport a.stamped ⟨a.transports, bus.stats, []⟩).1 =
          (sendOnTransport send transport a.stamped ⟨a.transports, bus.stats, []⟩).1 := by
        unfold publishStatus
        rw [(stamped_eq a).2]
        by_cases hok : (sendOnTransport send transport a.stamped
            ⟨a.transports, bus.stats, []⟩).1 = .ok
        · simp [hok, localStatus]
        · simp [hok, hqos, localStatus, localDelivered]
      rw [hstatus]
      constructor
      · rintro h - _ ⟨⟩ hb
        obtain ⟨hkept, hne⟩ := hbreaks.mpr hb
        exact hne (h hkept)
      · intro h hkept
        by_contra hne
        exact h hqos transport rfl (hbreaks.mp ⟨hkept, hne⟩)
    · have hstatus : publishStatus a.stamped (.ok 0)
          (sendOnTransport send transport a.stamped ⟨a.transports, bus.stats, []⟩).1 = .ok := by
        unfold publishStatus
        rw [(stamped_eq a).2]
        simp [hqos, localStatus]
      rw [hstatus]
      simp [hqos]

/-- The bus answers the attempt with the status: for lack of a route, or as the
transport does when the message asks for a delivery and no subscriber has it. -/
def Answers (a : Attempt ν) (rc : BcStatus) : Prop :=
  a.AllRoom ∧ (rc = .notFound ∧ Unroutable a.bus a.stamped ∨
    a.matching = [] ∧ a.msg.qos ≥ bcQosAtLeastOnce ∧
      ∃ transport, networkRoute a.bus a.stamped = some transport ∧
        networkAnswer send transport a.stamped a.transports = rc)

/-- Where a status other than success and backpressure comes from. -/
theorem replay_rc_iff (hlen : a.msg.payloadLen ≤ bcMaxPayloadLen) {rc : BcStatus}
    (hok : rc ≠ .ok) (hnomem : rc ≠ .nomem) : (a.replay send).rc = rc ↔ a.Answers send rc := by
  by_cases hall : a.AllRoom
  · obtain ⟨localResult, bus, hagrees, hlocal, -, -, hrc, -⟩ := replay_eq send a
    rw [Answers, hrc, hlocal hall, ← hagrees.unroutable_iff, ← hagrees.networkRoute_eq]
    by_cases hun : Unroutable bus a.stamped
    · rw [(publishNetwork_unroutable send _ _ hun).1]
      have hnone : networkRoute bus a.stamped = none := by
        rw [networkRoute, if_pos hun.1, hun.2.1]
      have hkept : (if localStatus (.ok a.matching.length) = .nomem then BcStatus.nomem
          else .notFound) = .notFound := rfl
      rw [hkept, hnone]
      constructor
      · intro h
        exact ⟨hall, .inl ⟨h.symm, hun⟩⟩
      · rintro ⟨-, ⟨h, -⟩ | ⟨-, -, transport, hroute, -⟩⟩
        · exact h.symm
        · cases hroute
    · cases hroute : networkRoute bus a.stamped with
      | none =>
        rw [(publishNetwork_no_route send _ _ hroute hun).1]
        simp [localStatus, hun, Ne.symm hok]
      | some transport =>
        have hanswer := sendOnTransport_rc send transport
          (show a.stamped.payloadLen ≤ bcMaxPayloadLen by rw [(stamped_eq a).1]; exact hlen)
          a.transports bus.stats
        rw [(publishNetwork_route send _ _ hroute).1, hanswer, publishStatus, (stamped_eq a).2]
        have hzero : localDelivered (.ok a.matching.length) = 0 ↔ a.matching = [] :=
          List.length_eq_zero_iff
        simp only [hall, hun, and_false, false_or, true_and, Option.some.injEq, exists_eq_left',
          hzero]
        by_cases hcount : networkAnswer send transport a.stamped a.transports ≠ .ok ∧
            a.msg.qos ≥ bcQosAtLeastOnce ∧ a.matching = []
        · rw [if_pos hcount]
          change networkAnswer send transport a.stamped a.transports = rc ↔ _
          simp only [hcount.2.1, hcount.2.2, true_and]
        · rw [if_neg hcount]
          refine iff_of_false (Ne.symm hok) ?_
          rintro ⟨hnil, hqos, rfl⟩
          exact hcount ⟨hok, hqos, hnil⟩
  · rw [(replay_refused send hlen hall).1]
    exact iff_of_false (Ne.symm hnomem) fun h => hall h.1

/-- Exactly the harmless attempts leave nothing behind when their frame is kept. -/
theorem harmless_iff (hlen : a.msg.payloadLen ≤ bcMaxPayloadLen) :
    a.Harmless send ↔ ((a.replay send).Kept → (a.replay send).Silent) := by
  have happended : (a.replay send).appended = [] ↔ a.NoRoom := by
    obtain ⟨-, -, -, -, -, happended, -, -⟩ := replay_eq send a
    exact happended
  by_cases hall : a.AllRoom
  · by_cases hne : a.matching = []
    · have hnone : a.NoRoom := by
        rw [NoRoom, hne]
        intro sub hsub
        simp at hsub
      constructor
      · intro h hkept
        exact ⟨happended.mpr hnone, (replay_unmatched send hlen hne).mpr (h.network hne) hkept⟩
      · intro h
        refine ⟨fun hnot => absurd hall hnot, fun _ hsome => absurd hne hsome, fun _ => ?_⟩
        exact (replay_unmatched send hlen hne).mp fun hkept => (h hkept).2
    · have hsome : ¬ a.NoRoom := not_noneTake hall hne
      constructor
      · intro h hkept
        exact absurd ((replay_delivered send hall hne).mp hkept) (h.delivered hall hne)
      · intro h
        refine ⟨fun hnot => absurd hall hnot, fun _ _ hun => hsome ?_, fun hnil => absurd hnil hne⟩
        exact happended.mp (h ((replay_delivered send hall hne).mpr hun)).1
  · obtain ⟨hrc, hsent⟩ := replay_refused send hlen hall
    constructor
    · intro h _
      exact ⟨happended.mpr (h.refused hall).1, hsent.mpr (h.refused hall).2⟩
    · intro h
      obtain ⟨hnil, hsilent⟩ := h (.inl hrc)
      refine ⟨fun _ => ⟨happended.mp hnil, hsent.mp hsilent⟩, fun hnot => absurd hnot hall,
        fun hnot => absurd (allRoom_of_matching hnot) hall⟩

end Attempt

end Attempts

end BoardComm
