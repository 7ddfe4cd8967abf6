import BoardComm.PublishedFlags
import BoardComm.Runs

/-!
# The sequence numbers of published messages

The bus counts the messages that come without a number, and keeps the number of
those that bring one. A reassembler at another node knows a message by its source
and its number alone.
-/
namespace BoardComm

/-- `bc_message_bus_init`. -/
def bcMessageBusInit (router : BcRouter) : MessageBus :=
  ⟨[], router, 0, 0, false, true, bcStatsReset⟩

/-- `bc_message_bus_configure`, without the transports. -/
def bcMessageBusConfigure (bus : MessageBus) (nodeId : UInt32)
    (requireRoute bridgeBroadcast : Bool) : MessageBus :=
  { bus with
    nodeId := nodeId, requireRoute := requireRoute, bridgeBroadcast := bridgeBroadcast,
    nextSeq := 0 }

/-- A call of the bus: by a client that subscribes, goes away or publishes a frame, or
with a message from a transport. -/
inductive BusCall
  | subscribe (fd : ℤ) (topic : List UInt8)
  | removeClient (fd : ℤ)
  | publish (fd : ℤ) (f : IpcFrame)
  | inbound (msg : BcMessage) (fromTransport : Option ℕ)

/-- The message of a frame. -/
def IpcFrame.message (f : IpcFrame) : BcMessage :=
  publishedMessage f.header f.channel f.topic f.payload

section Stats

variable {σ ν : Type*} (deliver : ℤ → List UInt8 → σ → DeliverAnswer × σ)
  (send : ℕ → List UInt8 → ν → BcStatus × ν)

/-- Nothing but the statistics of the bus has changed. -/
def MessageBus.OnlyStats (bus bus' : MessageBus) : Prop := bus' = { bus with stats := bus'.stats }

theorem MessageBus.OnlyStats.trans {bus bus' bus'' : MessageBus} (h : bus.OnlyStats bus')
    (h' : bus'.OnlyStats bus'') : bus.OnlyStats bus'' := by
  rw [MessageBus.OnlyStats, h', h]

theorem forwardMessage_onlyStats (bus : MessageBus) (msg : BcMessage) (exclude : Option ℕ)
    (transports : ν) : bus.OnlyStats (forwardMessage send bus msg exclude transports).2.2.1 := by
  unfold forwardMessage
  split
  · split_ifs <;> rfl
  · split_ifs <;> rfl

theorem inboundLocal_onlyStats (s : BusState σ ν) (msg : BcMessage) :
    s.bus.OnlyStats (inboundLocal deliver s msg).2.2.bus := by
  unfold inboundLocal bcMessageBusDeliverLocal
  split_ifs <;> rfl

theorem inboundForward_onlyStats (s : BusState σ ν) (msg : BcMessage) (fromTransport : Option ℕ) :
    s.bus.OnlyStats (inboundForward send s msg fromTransport).2.2.bus := by
  unfold inboundForward
  split_ifs
  · exact forwardMessage_onlyStats send s.bus msg fromTransport s.transports
  · rfl

theorem inboundAck_onlyStats (s : BusState σ ν) (msg : BcMessage) (fromTransport : Option ℕ) :
    s.bus.OnlyStats (inboundAck send s msg fromTransport).2.bus := by
  unfold inboundAck sendAck
  cases fromTransport with
  | none => rfl
  | some transport =>
    simp only
    split_ifs <;> rfl

theorem inboundComplete_onlyStats (s : BusState σ ν) (msg : BcMessage)
    (fromTransport : Option ℕ) :
    s.bus.OnlyStats (inboundComplete deliver send s msg fromTransport).2.bus := by
  unfold inboundComplete
  split_ifs
  · exact (forwardMessage_onlyStats send s.bus msg fromTransport s.transports).trans rfl
  have hlocal := inboundLocal_onlyStats deliver s msg
  have hforward := hlocal.trans
    (inboundForward_onlyStats send (inboundLocal deliver s msg).2.2 msg fromTransport)
  simp only
  cases (inboundLocal deliver s msg).1 with
  | error rc => exact hlocal
  | ok n =>
    simp only
    split_ifs
    · exact hforward
    · exact hforward.trans (inboundAck_onlyStats send _ msg fromTransport)

theorem handleInbound_onlyStats (s : BusState σ ν) (msg : BcMessage) (fromTransport : Option ℕ) :
    s.bus.OnlyStats (bcMessageBusHandleInbound deliver send s msg fromTransport).2.bus := by
  unfold bcMessageBusHandleInbound
  by_cases hack : msg.flags &&& bcFlagAck ≠ 0
  · simp only [if_pos hack]
    rfl
  by_cases hfragment : msg.flags &&& bcFlagFragment ≠ 0
  · simp only [if_neg hack, if_pos hfragment]
    cases (bcReasmFeed s.reasm msg).2.2 with
    | some complete => exact inboundComplete_onlyStats deliver send _ complete fromTransport
    | none =>
      simp only
      split_ifs <;> rfl
  · simp only [if_neg hack, if_neg hfragment]
    exact inboundComplete_onlyStats deliver send _ msg fromTransport

theorem publishNetwork_onlyStats (bus : MessageBus) (msg : BcMessage)
    (localResult : Except BcStatus ℕ) (transports : ν) :
    bus.OnlyStats (publishNetwork send bus msg localResult transports).2.2.1 := by
  unfold publishNetwork
  split
  · split
    · split <;> rfl
    · rfl
  · rfl

/-- Publishing changes the counter of the bus where it gives the message its number. -/
theorem bcMessageBusPublish_onlyStats (bus : MessageBus) (source : ℤ) (msg : BcMessage)
    (clients : σ) (transports : ν) :
    (stampMessage bus msg).2.OnlyStats
      (bcMessageBusPublish deliver send bus source msg clients transports).2.1 := by
  have hlocal : (stampMessage bus msg).2.OnlyStats (publishLocal deliver (stampMessage bus msg).2
      source (stampMessage bus msg).1 clients).2.2.1 := by
    unfold publishLocal
    split_ifs <;> rfl
  exact hlocal.trans (publishNetwork_onlyStats send _ _ _ transports)

end Stats

section Routes

/-- Messages go the same way. -/
structure MessageBus.SameRoutes (bus bus' : MessageBus) : Prop where
  router : bus'.router = bus.router
  nodeId : bus'.nodeId = bus.nodeId
  bridgeBroadcast : bus'.bridgeBroadcast = bus.bridgeBroadcast

variable {bus bus' : MessageBus}

theorem MessageBus.SameRoutes.trans {bus'' : MessageBus} (h : bus.SameRoutes bus')
    (h' : bus'.SameRoutes bus'') : bus.SameRoutes bus'' :=
  ⟨h'.router.trans h.router, h'.nodeId.trans h.nodeId,
    h'.bridgeBroadcast.trans h.bridgeBroadcast⟩

theorem MessageBus.Agrees.sameRoutes (h : bus.Agrees bus') : bus.SameRoutes bus' :=
  ⟨h.router, h.nodeId, h.bridgeBroadcast⟩

theorem MessageBus.OnlyStats.nextSeq (h : bus.OnlyStats bus') : bus'.nextSeq = bus.nextSeq := by
  rw [h]

theorem MessageBus.OnlyStats.sameRoutes (h : bus.OnlyStats bus') : bus.SameRoutes bus' := by
  rw [h]
  exact ⟨rfl, rfl, rfl⟩

theorem MessageBus.SameRoutes.networkRoute_eq (h : bus.SameRoutes bus') (msg : BcMessage) :
    networkRoute bus' msg = networkRoute bus msg := by
  obtain ⟨hrouter, hnodeId, hbridge⟩ := h
  cases bus'
  simp only at hrouter hnodeId hbridge
  subst hrouter hnodeId hbridge
  rfl

theorem subscribe_keeps (bus : MessageBus) (fd : ℤ) (topic : List UInt8) :
    bus.SameRoutes (bcMessageBusSubscribe bus fd topic).2 ∧
      (bcMessageBusSubscribe bus fd topic).2.nextSeq = bus.nextSeq := by
  unfold bcMessageBusSubscribe
  split
  · exact ⟨⟨rfl, rfl, rfl⟩, rfl⟩
  · split
    · exact ⟨⟨rfl, rfl, rfl⟩, rfl⟩
    · split <;> exact ⟨⟨rfl, rfl, rfl⟩, rfl⟩

/-- Where a message goes does not depend on its number. -/
theorem networkRoute_stamped (bus bus' : MessageBus) (msg : BcMessage) :
    networkRoute bus (stampMessage bus' msg).1 = networkRoute bus msg := by
  unfold stampMessage
  split_ifs <;> rfl

end Routes

section Run

variable {σ ν : Type*} (deliver : ℤ → List UInt8 → σ → DeliverAnswer × σ)
  (send : ℕ → List UInt8 → ν → BcStatus × ν)

/-- The bus after a call. -/
def busStep (s : BusState σ ν) : BusCall → BusState σ ν
  | .subscribe fd topic => { s with bus := (bcMessageBusSubscribe s.bus fd topic).2 }
  | .removeClient fd => { s with bus := bcMessageBusRemoveClient s.bus fd }
  | .publish fd f =>
    let r := bcMessageBusPublish deliver send s.bus fd f.message s.clients s.transports
    { s with bus := r.2.1, clients := r.2.2.1, transports := r.2.2.2 }
  | .inbound msg fromTransport => (bcMessageBusHandleInbound deliver send s msg fromTransport).2

/-- The source and the number of a message that a call publishes on a transport. -/
def handed (s : BusState σ ν) : BusCall → List (UInt32 × UInt32)
  | .publish _ f =>
    let msg := (stampMessage s.bus f.message).1
    if networkRoute s.bus msg = none then [] else [(msg.srcNode, msg.seq)]
  | _ => []

/-- The frames that the clients publish. -/
def published (calls : List BusCall) : List IpcFrame :=
  calls.filterMap fun call =>
    match call with
    | .publish _ f => some f
    | _ => none

variable (bus : MessageBus)

/-- The numbers that came from the clients with messages for a transport. -/
def givenSeqs (frames : List IpcFrame) : List UInt32 :=
  (frames.filter fun f => networkRoute bus f.message ≠ none ∧ f.message.seq ≠ 0).map (·.message.seq)

/-- The numbers that the bus, having counted so far, gives to messages for a transport. -/
def countedSeqs : ℕ → List IpcFrame → List UInt32
  | _, [] => []
  | n, f :: frames =>
    if f.message.seq = 0 then
      if networkRoute bus f.message = none then countedSeqs (n + 1) frames
      else UInt32.ofNat (n + 1) :: countedSeqs (n + 1) frames
    else countedSeqs n frames

variable {bus}

theorem mem_countedSeqs {n : ℕ} {frames : List IpcFrame} {seq : UInt32}
    (h : seq ∈ countedSeqs bus n frames) :
    ∃ k, n < k ∧ k ≤ n + frames.length ∧ seq = UInt32.ofNat k := by
  induction frames generalizing n with
  | nil => simp [countedSeqs] at h
  | cons f frames ih =>
    rw [countedSeqs] at h
    rw [List.length_cons]
    split_ifs at h
    · obtain ⟨k, hlow, hhigh, hk⟩ := ih h
      exact ⟨k, by omega, by omega, hk⟩
    · rcases List.mem_cons.mp h with rfl | h
      · exact ⟨n + 1, by omega, by omega, rfl⟩
      · obtain ⟨k, hlow, hhigh, hk⟩ := ih h
        exact ⟨k, by omega, by omega, hk⟩
    · obtain ⟨k, hlow, hhigh, hk⟩ := ih h
      exact ⟨k, by omega, by omega, hk⟩

/-- The bus does not count up to a number twice before it wraps around. -/
theorem nodup_countedSeqs {n : ℕ} {frames : List IpcFrame} (hfew : n + frames.length < 2 ^ 32) :
    (countedSeqs bus n frames).Nodup := by
  induction frames generalizing n with
  | nil => exact List.nodup_nil
  | cons f frames ih =>
    rw [List.length_cons] at hfew
    rw [countedSeqs]
    split_ifs
    · exact ih (by omega)
    · refine List.nodup_cons.mpr ⟨fun hmem => ?_, ih (by omega)⟩
      obtain ⟨k, hlow, hhigh, hk⟩ := mem_countedSeqs hmem
      have hnat := congrArg UInt32.toNat hk
      rw [UInt32.toNat_ofNat_of_lt' (by simp only [UInt32.size]; omega),
        UInt32.toNat_ofNat_of_lt' (by simp only [UInt32.size]; omega)] at hnat
      omega
    · exact ih (by omega)

theorem countedSeqs_ne_zero {n : ℕ} {frames : List IpcFrame} (hfew : n + frames.length < 2 ^ 32)
    {seq : UInt32} (h : seq ∈ countedSeqs bus n frames) : seq ≠ 0 := by
  obtain ⟨k, hlow, hhigh, rfl⟩ := mem_countedSeqs h
  intro hzero
  have hnat := congrArg UInt32.toNat hzero
  rw [UInt32.toNat_ofNat_of_lt' (by simp only [UInt32.size]; omega), UInt32.toNat_zero] at hnat
  omega

/-- The numbers of the messages for a transport are those from the clients and those
of the bus. -/
theorem perm_collect_handed (calls : List BusCall) {s : BusState σ ν} {n : ℕ}
    (hroutes : bus.SameRoutes s.bus) (hseq : s.bus.nextSeq = UInt32.ofNat n) :
    List.Perm (Runs.collect (busStep deliver send) handed s calls)
      ((givenSeqs bus (published calls) ++ countedSeqs bus n (published calls)).map
        (Prod.mk bus.nodeId)) := by
  induction calls generalizing s n with
  | nil => exact List.Perm.refl _
  | cons call calls ih =>
    rw [Runs.collect]
    cases call with
    | subscribe fd topic =>
      obtain ⟨hsame, hcounter⟩ := subscribe_keeps s.bus fd topic
      exact ih (hroutes.trans hsame) (hcounter.trans hseq)
    | removeClient fd => exact ih (hroutes.trans ⟨rfl, rfl, rfl⟩) hseq
    | inbound msg fromTransport =>
      have hstats := handleInbound_onlyStats deliver send s msg fromTransport
      exact ih (hroutes.trans hstats.sameRoutes) (hstats.nextSeq.trans hseq)
    | publish fd f =>
      have hstats := bcMessageBusPublish_onlyStats deliver send s.bus fd f.message s.clients
        s.transports
      have hnext := hroutes.trans
        ((agrees_stampMessage s.bus f.message).sameRoutes.trans hstats.sameRoutes)
      have hroute : networkRoute s.bus (stampMessage s.bus f.message).1 =
          networkRoute bus f.message :=
        (networkRoute_stamped s.bus s.bus f.message).trans (hroutes.networkRoute_eq f.message)
      have hpublished : published (.publish fd f :: calls) = f :: published calls := rfl
      rw [hpublished, countedSeqs]
      simp only [handed, hroute]
      by_cases hzero : f.message.seq = 0
      · have hcount :
            (busStep deliver send s (.publish fd f)).bus.nextSeq = UInt32.ofNat (n + 1) := by
          refine hstats.nextSeq.trans ?_
          rw [stampMessage, if_pos hzero, hseq, UInt32.ofNat_add]
          rfl
        have hrest := ih (s := busStep deliver send s (.publish fd f)) hnext hcount
        have hgiven : givenSeqs bus (f :: published calls) = givenSeqs bus (published calls) := by
          simp [givenSeqs, hzero]
        rw [hgiven, if_pos hzero]
        by_cases hnone : networkRoute bus f.message = none
        · rw [if_pos hnone, if_pos hnone]
          exact hrest
        · have hpair : ((stampMessage s.bus f.message).1.srcNode,
              (stampMessage s.bus f.message).1.seq) = (bus.nodeId, UInt32.ofNat (n + 1)) := by
            rw [stampMessage, if_pos hzero, hseq, ← hroutes.nodeId, UInt32.ofNat_add]
            rfl
          rw [if_neg hnone, if_neg hnone, hpair]
          refine (hrest.cons _).trans ?_
          rw [← List.map_cons]
          exact (List.perm_middle.symm).map _
      · have hcount : (busStep deliver send s (.publish fd f)).bus.nextSeq = UInt32.ofNat n := by
          refine hstats.nextSeq.trans ?_
          rw [stampMessage, if_neg hzero]
          exact hseq
        have hrest := ih (s := busStep deliver send s (.publish fd f)) hnext hcount
        rw [if_neg hzero]
        by_cases hnone : networkRoute bus f.message = none
        · have hgiven : givenSeqs bus (f :: published calls) = givenSeqs bus (published calls) := by
            simp [givenSeqs, hnone]
          rw [hgiven, if_pos hnone]
          exact hrest
        · have hgiven : givenSeqs bus (f :: published calls) =
              f.message.seq :: givenSeqs bus (published calls) := by
            simp [givenSeqs, hnone, hzero]
          have hpair : ((stampMessage s.bus f.message).1.srcNode,
              (stampMessage s.bus f.message).1.seq) = (bus.nodeId, f.message.seq) := by
            rw [stampMessage, if_neg hzero, ← hroutes.nodeId]
          rw [hgiven, if_neg hnone, hpair]
          exact hrest.cons _

/-- The frames of a published message carry the pair. -/
theorem handed_of_sent (s : BusState σ ν) (fd : ℤ) (f : IpcFrame) {frame : List UInt8}
    (hframe : frame ∈ (bcMessageBusPublish deliver send s.bus fd f.message s.clients
      s.transports).1.sent) :
    ∃ received, bcProtocolDecode frame = .ok received ∧
      (received.srcNode, received.seq) ∈ handed s (.publish fd f) := by
  rcases bcMessageBusPublish_sent deliver send s.bus fd f.message s.clients s.transports with
    ⟨-, hsent⟩ | ⟨transport, stats, hroute, hsent⟩
  · rw [hsent] at hframe
    cases hframe
  rw [hsent] at hframe
  obtain ⟨piece, hpiece, hwell, rfl⟩ :=
    sendOnTransport_sent_mem transport send s.transports stats hframe
  refine ⟨_, decode_frameBytes hwell, ?_⟩
  have hpair : (piece.srcNode, piece.seq) = ((stampMessage s.bus f.message).1.srcNode,
      (stampMessage s.bus f.message).1.seq) := by
    by_cases hlong : (stampMessage s.bus f.message).1.payloadLen > bcFragChunkMax
    · rw [wirePieces, if_pos hlong] at hpiece
      obtain ⟨total, index, rfl⟩ := exists_of_mem_fragmentsOf hlong hpiece
      rfl
    · rw [wirePieces, if_neg hlong, List.mem_singleton] at hpiece
      rw [hpiece]
  have hhanded : handed s (.publish fd f) = [((stampMessage s.bus f.message).1.srcNode,
      (stampMessage s.bus f.message).1.seq)] := if_neg (by rw [hroute]; simp)
  rw [hhanded, ← hpair]
  exact List.mem_singleton_self _

/-- Every message has a number, and no two the same source and number, so that a slot
of a reassembler is never for two of them. -/
structure SeqsIdentify (pairs : List (UInt32 × UInt32)) : Prop where
  nonzero : ∀ p ∈ pairs, p.2 ≠ 0
  distinct : pairs.Nodup
  slots : pairs.Pairwise fun p q =>
    ∀ slot : BcReasmSlot, ¬ (slot.Holds p.2 p.1 ∧ slot.Holds q.2 q.1)

theorem SeqsIdentify.of_nodup {pairs : List (UInt32 × UInt32)} (hnonzero : ∀ p ∈ pairs, p.2 ≠ 0)
    (hnodup : pairs.Nodup) : SeqsIdentify pairs := by
  refine ⟨hnonzero, hnodup, hnodup.imp fun {p q} hne slot hboth => hne ?_⟩
  obtain ⟨⟨-, hseq, hsrc⟩, -, hseq', hsrc'⟩ := hboth
  exact Prod.ext (hsrc.symm.trans hsrc') (hseq.symm.trans hseq')

/-- The numbers of the bus alone identify its messages. Those that clients bring do so
exactly if no two that go to a transport are the same, and none is one that the bus
counts up to for a message that goes to a transport. -/
theorem seqs_identify_iff (router : BcRouter) (nodeId : UInt32) (requireRoute bridge : Bool)
    (reasm : BcReasm) (clients : σ) (transports : ν) (calls : List BusCall)
    (hfew : (published calls).length < 2 ^ 32 - 1) :
    let bus := bcMessageBusConfigure (bcMessageBusInit router) nodeId requireRoute bridge
    SeqsIdentify (Runs.collect (busStep deliver send) handed ⟨bus, reasm, clients, transports⟩
        calls) ↔
      (givenSeqs bus (published calls)).Nodup ∧
        ∀ seq ∈ givenSeqs bus (published calls), seq ∉ countedSeqs bus 0 (published calls) := by
  intro bus
  have hperm := @perm_collect_handed _ _ deliver send bus calls ⟨bus, reasm, clients, transports⟩ 0
    ⟨rfl, rfl, rfl⟩ rfl
  have hbound : 0 + (published calls).length < 2 ^ 32 := by omega
  have hnodup : (Runs.collect (busStep deliver send) handed ⟨bus, reasm, clients, transports⟩
      calls).Nodup ↔ (givenSeqs bus (published calls)).Nodup ∧
        ∀ seq ∈ givenSeqs bus (published calls), seq ∉ countedSeqs bus 0 (published calls) := by
    rw [hperm.nodup_iff, List.nodup_map_iff (Prod.mk_right_injective _), List.nodup_append]
    constructor
    · rintro ⟨hgiven, -, hdisjoint⟩
      exact ⟨hgiven, fun seq hseq hcounted => hdisjoint seq hseq seq hcounted rfl⟩
    · rintro ⟨hgiven, hdisjoint⟩
      refine ⟨hgiven, nodup_countedSeqs hbound, ?_⟩
      rintro seq hseq _ hcounted rfl
      exact hdisjoint seq hseq hcounted
  have hnonzero : ∀ p ∈ Runs.collect (busStep deliver send) handed
      ⟨bus, reasm, clients, transports⟩ calls, p.2 ≠ 0 := by
    intro p hp
    obtain ⟨seq, hseq, rfl⟩ := List.mem_map.mp (hperm.mem_iff.mp hp)
    rcases List.mem_append.mp hseq with hgiven | hcounted
    · obtain ⟨f, hf, rfl⟩ := List.mem_map.mp hgiven
      have hkept := (List.mem_filter.mp hf).2
      simp only [decide_eq_true_eq] at hkept
      exact hkept.2
    · exact countedSeqs_ne_zero hbound hcounted
  constructor
  · intro h
    exact hnodup.mp h.distinct
  · intro h
    exact .of_nodup hnonzero (hnodup.mpr h)

end Run

section Two

/-- A short message for everyone. -/
def numberedFrame (seq : UInt32) : IpcFrame := .oneByte bcIpcPublish 0 seq 116 1

/-- A bus that sends everything over one transport. -/
abbrev countingBus : MessageBus :=
  bcMessageBusConfigure (bcMessageBusInit ⟨[], [⟨anyTopic, [97]⟩], [[97]]⟩) 1 false true

theorem seqs_identify_iff_counted :
    SeqsIdentify (Runs.collect (busStep answerNext putOut) handed ⟨countingBus, bcReasmInit, [], []⟩
        [.publish 5 (numberedFrame 0), .publish 6 (numberedFrame 0)]) ↔
      (givenSeqs countingBus [numberedFrame 0, numberedFrame 0]).Nodup ∧
        ∀ seq ∈ givenSeqs countingBus [numberedFrame 0, numberedFrame 0],
          seq ∉ countedSeqs countingBus 0 [numberedFrame 0, numberedFrame 0] :=
  seqs_identify_iff answerNext putOut ⟨[], [⟨anyTopic, [97]⟩], [[97]]⟩ 1 false true bcReasmInit []
    [] [.publish 5 (numberedFrame 0), .publish 6 (numberedFrame 0)] (by decide)

/-- One client leaves the number to the bus, another brings the same. -/
theorem seqs_collide :
    ¬ SeqsIdentify (Runs.collect (busStep answerNext putOut) handed
      ⟨countingBus, bcReasmInit, [], []⟩
      [.publish 5 (numberedFrame 0), .publish 6 (numberedFrame 1)]) := by
  intro h
  have hdistinct := h.distinct
  revert hdistinct
  decide +kernel

end Two

end BoardComm
