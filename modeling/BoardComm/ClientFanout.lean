import BoardComm.IpcFrames
import BoardComm.PublishOutcome
import BoardComm.Runs

/-!
# Publishing through the client manager, over whole runs

A frame that was published leaves the receive buffer, and one that is kept is
published again. Copies are told apart by the place of their frame in the stream
of the publisher. If no attempt leaves a copy behind and keeps its frame, the
copies for an entry stand in the order of the frames, one each.
-/
namespace BoardComm

variable {ν : Type*} {send : ℕ → List UInt8 → ν → BcStatus × ν}

section Property

/-- The frames of a publisher in the stream of an entry: their places in the
stream of the publisher, in the order of delivery. -/
def deliveries (history : List (Attempt ν)) (publisher : ℤ) (sub : BcSubscription) : List ℕ :=
  (history.filter (·.publisher = publisher)).flatMap fun a =>
    List.replicate (a.result.appended.count sub) a.offset

/-- The frames of a publisher of which a transport took at least a piece. -/
def transmissions (history : List (Attempt ν)) (publisher : ℤ) : List ℕ :=
  (history.filter fun a => a.publisher = publisher ∧ a.result.sent ≠ []).map (·.offset)

/-- Every frame is delivered to every entry and sent on a transport at most once,
in the order of publishing. -/
structure OnceInOrder (history : List (Attempt ν)) (publisher : ℤ) : Prop where
  deliveries : ∀ sub, (deliveries history publisher sub).Pairwise (· < ·)
  transmissions : (transmissions history publisher).Pairwise (· < ·)

/-- The attempts on frames of the client that left a copy are those on frames
before the place. -/
def Behind (history : List (Attempt ν)) (publisher : ℤ) (place : ℕ) : Prop :=
  ∀ a ∈ history, a.publisher = publisher → a.offset < place ∨ a.result.Silent

variable {history : List (Attempt ν)} {publisher : ℤ} {place : ℕ} {a : Attempt ν}

theorem onceInOrder_nil (publisher : ℤ) : OnceInOrder ([] : List (Attempt ν)) publisher :=
  ⟨fun _ => List.Pairwise.nil, List.Pairwise.nil⟩

theorem mem_deliveries {sub : BcSubscription} {offset : ℕ}
    (h : offset ∈ deliveries history publisher sub) :
    ∃ b ∈ history, b.publisher = publisher ∧ b.offset = offset ∧ ¬ b.result.Silent := by
  obtain ⟨b, hb, hoffset⟩ := List.mem_flatMap.mp h
  obtain ⟨hmem, hpublisher⟩ := List.mem_filter.mp hb
  obtain ⟨hcount, rfl⟩ := List.mem_replicate.mp hoffset
  refine ⟨b, hmem, by simpa using hpublisher, rfl, fun hsilent => hcount ?_⟩
  rw [hsilent.1, List.count_nil]

theorem mem_transmissions {offset : ℕ} (h : offset ∈ transmissions history publisher) :
    ∃ b ∈ history, b.publisher = publisher ∧ b.offset = offset ∧ ¬ b.result.Silent := by
  obtain ⟨b, hb, rfl⟩ := List.mem_map.mp h
  obtain ⟨hmem, hprops⟩ := List.mem_filter.mp hb
  simp only [decide_eq_true_eq] at hprops
  exact ⟨b, hmem, hprops.1, rfl, fun hsilent => hprops.2 hsilent.2⟩

/-- An attempt on a frame behind all that have left copies. -/
theorem OnceInOrder.append (h : OnceInOrder history publisher)
    (hbehind : a.publisher = publisher → Behind history publisher a.offset)
    (hnodup : a.result.appended.Nodup) : OnceInOrder (history ++ [a]) publisher := by
  by_cases hpublisher : a.publisher = publisher
  · have hbefore : ∀ offset : ℕ, (∃ b ∈ history, b.publisher = publisher ∧ b.offset = offset ∧
        ¬ b.result.Silent) → offset < a.offset := by
      rintro offset ⟨b, hb, hpub, rfl, hloud⟩
      exact (hbehind hpublisher b hb hpub).resolve_right hloud
    constructor
    · intro sub
      have hsplit : BoardComm.deliveries (history ++ [a]) publisher sub =
          BoardComm.deliveries history publisher sub ++
            List.replicate (a.result.appended.count sub) a.offset := by
        simp [BoardComm.deliveries, hpublisher]
      rw [hsplit, List.pairwise_append]
      refine ⟨h.deliveries sub, ?_, ?_⟩
      · have hcount : a.result.appended.count sub ≤ 1 := List.nodup_iff_count_le_one.mp hnodup sub
        interval_cases a.result.appended.count sub <;> simp
      · intro offset hoffset offset' hoffset'
        obtain ⟨-, rfl⟩ := List.mem_replicate.mp hoffset'
        exact hbefore offset (mem_deliveries hoffset)
    · by_cases hsent : a.result.sent = []
      · have hsame : BoardComm.transmissions (history ++ [a]) publisher =
            BoardComm.transmissions history publisher := by
          simp [BoardComm.transmissions, hsent]
        rw [hsame]
        exact h.transmissions
      · have hsplit : BoardComm.transmissions (history ++ [a]) publisher =
            BoardComm.transmissions history publisher ++ [a.offset] := by
          simp [BoardComm.transmissions, hpublisher, hsent]
        rw [hsplit, List.pairwise_append]
        refine ⟨h.transmissions, List.pairwise_singleton _ _, ?_⟩
        intro offset hoffset offset' hoffset'
        rw [List.mem_singleton.mp hoffset']
        exact hbefore offset (mem_transmissions hoffset)
  · constructor
    · intro sub
      have hsame : BoardComm.deliveries (history ++ [a]) publisher sub =
          BoardComm.deliveries history publisher sub := by
        simp [BoardComm.deliveries, hpublisher]
      rw [hsame]
      exact h.deliveries sub
    · have hsame : BoardComm.transmissions (history ++ [a]) publisher =
          BoardComm.transmissions history publisher := by
        simp [BoardComm.transmissions, hpublisher]
      rw [hsame]
      exact h.transmissions

end Property

section Frame

variable {m : ClientManager ν} {client : BcClient}

/-- What handling the frame at the head of a receive buffer does to the manager. -/
structure Handled (send : ℕ → List UInt8 → ν → BcStatus × ν) (env : ClientEnv)
    (m : ClientManager ν) (client : BcClient) (r : BcStatus × ClientManager ν) : Prop where
  identities : identities r.2.clients = identities m.clients
  sockets : Sockets m.clients → env.setup client.fd = none → Sockets r.2.clients
  entries : m.bus.subscriptions.Nodup → r.2.bus.subscriptions.Nodup
  history : r.2.history = m.history ∨ ∃ a, r.2.history = m.history ++ [a] ∧
    a.publisher = client.fd ∧ a.offset = client.consumed ∧
    a.result.appended.Sublist m.bus.subscriptions ∧
    (a.Harmless send → r.1 = .nomem ∨ r.1 = .notFound → a.result.Silent)

variable (send) (env : ClientEnv)

theorem Handled.unchanged (m : ClientManager ν) (client : BcClient) (rc : BcStatus) :
    Handled send env m client (rc, m) := ⟨rfl, fun h _ => h, id, .inl rfl⟩

theorem publishFrame_handled (hfds : DistinctFds m.clients) (client : BcClient)
    {msg : BcMessage} (hlen : msg.payloadLen ≤ bcMaxPayloadLen) :
    Handled send env m client (publishFrame send env m client msg) := by
  have hstamp := agrees_stampMessage m.bus msg
  have hbus := agrees_bcMessageBusPublish send m.transports (deliverToClient env.watch) m.bus
    client.fd msg m.clients
  refine ⟨?_, fun hsock _ => ?_, fun hnodup => ?_,
    .inr ⟨_, rfl, rfl, rfl, ?_, fun hharmless => ?_⟩⟩
  · change identities (publishLocal _ _ _ _ _).2.2.2 = _
    unfold publishLocal
    split
    · exact identities_deliverLocalLoop hfds env.watch client.fd _ _
    · exact rfl
  · change Sockets (publishLocal _ _ _ _ _).2.2.2
    unfold publishLocal
    split
    · exact hsock.deliverLocalLoop env.watch client.fd _ _
    · exact hsock
  · rw [← hbus.subscriptions] at hnodup
    exact hnodup
  · change (publishLocal _ _ _ _ _).2.1.Sublist _
    unfold publishLocal
    split
    · rw [← hstamp.subscriptions]
      exact appended_sublist _ _ _ _ _
    · exact List.nil_sublist _
  · rw [Attempt.harmless_iff send hlen] at hharmless
    exact hharmless

/-- A topic string that fits is stored whole. -/
theorem bcMessageBusSubscribe_nodup {bus : MessageBus} {fd : ℤ} {topic : List UInt8}
    (hlen : topic.length < bcMaxTopicLen) (hnul : (0 : UInt8) ∉ topic)
    (h : bus.subscriptions.Nodup) :
    (bcMessageBusSubscribe bus fd topic).2.subscriptions.Nodup := by
  unfold bcMessageBusSubscribe
  split
  · exact h
  split
  · exact h
  split
  · exact h
  next hnone =>
    rw [List.nodup_append]
    refine ⟨h, List.nodup_singleton _, ?_⟩
    intro sub hsub sub' hsub' heq
    rw [List.mem_singleton] at hsub'
    rw [heq, hsub'] at hsub
    apply hnone
    rw [List.any_eq_true]
    refine ⟨_, hsub, ?_⟩
    have htake : topic.take (bcMaxTopicLen - 1) = topic := List.take_of_length_le (by omega)
    simp only [htake, CBuffer.str_ofPrefix hlen, CBuffer.cstr_of_not_mem topic hnul, decide_true,
      and_self]

theorem sendStatsReply_identity (watch : Bool) (stats : BcStats) (client : BcClient) :
    (sendStatsReply watch stats client).2.fd = client.fd ∧
      (sendStatsReply watch stats client).2.rx = client.rx ∧
      (sendStatsReply watch stats client).2.consumed = client.consumed := by
  have hheader := enqueueClientTx_identity watch client statsHeader.toBytes
  unfold sendStatsReply
  by_cases hok : (enqueueClientTx watch client statsHeader.toBytes).1.rc = .ok
  · have hbody := enqueueClientTx_identity watch
      (enqueueClientTx watch client statsHeader.toBytes).2 stats.toBytes
    simp only [hok, ne_eq, not_true_eq_false, if_false]
    exact ⟨hbody.1.trans hheader.1, hbody.2.1.trans hheader.2.1, hbody.2.2.trans hheader.2.2⟩
  · simp only [hok, ne_eq, not_false_eq_true, if_true]
    exact hheader

theorem sendStatsReply_shm (watch : Bool) (stats : BcStats) (client : BcClient) :
    (sendStatsReply watch stats client).2.shm = client.shm := by
  unfold sendStatsReply
  dsimp only
  split
  · exact enqueueClientTx_shm watch client _
  · rw [enqueueClientTx_shm, enqueueClientTx_shm]

theorem processIpcPayload_handled (hfds : DistinctFds m.clients)
    (hclient : findClient m.clients client.fd = some client)
    {header : IpcHeader} {channel topic payload : List UInt8}
    (htopic : topic.length < bcMaxTopicLen) (hlen : header.payloadLen.toNat ≤ bcMaxPayloadLen) :
    Handled send env m client
      (processIpcPayload send env m client header channel topic payload) := by
  unfold processIpcPayload
  split
  · refine ⟨rfl, fun h _ => h, fun h => ?_, .inl rfl⟩
    have hcstr := CBuffer.cstr_length_le topic
    exact bcMessageBusSubscribe_nodup (by omega) (CBuffer.zero_not_mem_cstr topic) h
  split
  · apply publishFrame_handled send env hfds
    unfold publishedMessage
    split <;> exact hlen
  split
  · obtain ⟨hfd, hrx, hconsumed⟩ :=
      sendStatsReply_identity (env.watch client.fd) m.bus.stats client
    refine ⟨identities_setClient hfds hclient hfd hrx hconsumed, fun h _ => h.setClient ?_, id,
      .inl rfl⟩
    rw [sendStatsReply_shm]
    exact h client (findClient_some hclient).1
  split
  · cases hsetup : env.setup client.fd with
    | none => exact .unchanged send env m client _
    | some session =>
      refine ⟨identities_setClient hfds hclient rfl rfl rfl, fun _ hnone => ?_, id, .inl rfl⟩
      rw [hsetup] at hnone
      cases hnone
  split
  · exact .unchanged send env m client _
  · exact .unchanged send env m client _

theorem processFrameBuffer_handled (hfds : DistinctFds m.clients)
    (hclient : findClient m.clients client.fd = some client) (data : List UInt8) (len : ℕ) :
    Handled send env m client (processFrameBuffer send env m client data len) := by
  unfold processFrameBuffer
  split
  · exact .unchanged send env m client _
  dsimp only
  split
  · exact .unchanged send env m client _
  split
  · exact .unchanged send env m client _
  split
  · exact .unchanged send env m client _
  next hlengths =>
    push Not at hlengths
    split
    · exact .unchanged send env m client _
    · apply processIpcPayload_handled send env hfds hclient
      · rw [List.length_take]
        omega
      · exact hlengths.2.2.2

/-- A message is handled and taken out, or it is left where it is. -/
theorem processOneMessage_cases (hfds : DistinctFds m.clients)
    (hclient : findClient m.clients client.fd = some client) :
    ((processOneMessage send env m client).1 ≠ .ok ∧
        Handled send env m client (processOneMessage send env m client)) ∨
      ∃ m' n, Handled send env m client (.ok, m') ∧ 0 < n ∧ n ≤ client.rx.length ∧
        processOneMessage send env m client = (.ok, consumeFrame m' client.fd n) := by
  unfold processOneMessage
  split
  · exact .inl ⟨by simp, .unchanged send env m client _⟩
  dsimp only
  split
  · exact .inl ⟨by simp, .unchanged send env m client _⟩
  split
  · refine .inl ⟨?_, .unchanged send env m client _⟩
    split <;> simp
  next hframe =>
    have hhandled := processFrameBuffer_handled send env hfds hclient (client.rx ++ client.stale)
      ((IpcHeader.ofBytes (client.rx ++ client.stale)).total
        (bcIpcHeaderSize (IpcHeader.ofBytes (client.rx ++ client.stale)).version))
    have hsize := sizeV1_le_bcIpcHeaderSize (IpcHeader.ofBytes (client.rx ++ client.stale)).version
    push Not at hframe
    split
    · next hok =>
      refine .inr ⟨_, _, ?_, ?_, hframe.2, rfl⟩
      · rw [← hok]
        exact hhandled
      · unfold IpcHeader.total
        simp only [IpcHeader.sizeV1] at hsize
        omega
    · next hok => exact .inl ⟨hok, hhandled⟩

end Frame

section Invariant

variable {env : ClientEnv} {m m' : ClientManager ν} {client : BcClient} {fd : ℤ}
  {r : BcStatus × ClientManager ν}

/-- The state between two frames: copies came from frames that are taken out. -/
structure ClientManager.Settled (m : ClientManager ν) : Prop where
  distinct : DistinctFds m.clients
  entries : m.bus.subscriptions.Nodup
  once : ∀ publisher, OnceInOrder m.history publisher
  behind : ∀ c ∈ m.clients, Behind m.history c.fd c.consumed

/-- The state in which the frame of a client was handled and is still there. -/
structure ClientManager.Unsettled (m : ClientManager ν) (fd : ℤ) : Prop where
  distinct : DistinctFds m.clients
  entries : m.bus.subscriptions.Nodup
  once : ∀ publisher, OnceInOrder m.history publisher
  others : ∀ c ∈ m.clients, c.fd ≠ fd → Behind m.history c.fd c.consumed
  own : ∀ c ∈ m.clients, c.fd = fd → Behind m.history c.fd (c.consumed + 1)

theorem Behind.mono {history : List (Attempt ν)} {publisher : ℤ} {place place' : ℕ}
    (h : Behind history publisher place) (hle : place ≤ place') :
    Behind history publisher place' :=
  fun a ha hpublisher => (h a ha hpublisher).imp_left fun hlt => by omega

theorem Behind.append {history : List (Attempt ν)} {publisher : ℤ} {place : ℕ} {a : Attempt ν}
    (h : Behind history publisher place)
    (ha : a.publisher = publisher → a.offset < place ∨ a.result.Silent) :
    Behind (history ++ [a]) publisher place := by
  intro b hb hpublisher
  rcases List.mem_append.mp hb with hb | hb
  · exact h b hb hpublisher
  · rw [List.mem_singleton.mp hb] at hpublisher ⊢
    exact ha hpublisher

theorem Handled.unsettled (hhandled : Handled send env m client r) (h : m.Settled)
    (hclient : findClient m.clients client.fd = some client) : r.2.Unsettled client.fd := by
  have hold : Behind m.history client.fd client.consumed :=
    h.behind client (findClient_some hclient).1
  have hsame : ∀ c ∈ r.2.clients, ∃ d ∈ m.clients, d.fd = c.fd ∧ d.consumed = c.consumed := by
    intro c hc
    obtain ⟨d, hd, hfd, -, hconsumed⟩ := mem_identities hhandled.identities hc
    exact ⟨d, hd, hfd, hconsumed⟩
  have hown : ∀ c ∈ r.2.clients, c.fd = client.fd → c.consumed = client.consumed := by
    intro c hc hfd
    obtain ⟨d, hd, hdfd, hconsumed⟩ := hsame c hc
    rw [← hconsumed, eq_of_findClient h.distinct hclient hd (hdfd.trans hfd)]
  have hbehind : ∀ c ∈ r.2.clients, Behind m.history c.fd c.consumed := by
    intro c hc
    obtain ⟨d, hd, hfd, hconsumed⟩ := hsame c hc
    rw [← hfd, ← hconsumed]
    exact h.behind d hd
  have hdistinct := h.distinct.of_identities hhandled.identities
  have hentries := hhandled.entries h.entries
  rcases hhandled.history with hhistory | ⟨a, hhistory, hpublisher, hoffset, happended, -⟩
  · rw [← hhistory] at hbehind
    exact ⟨hdistinct, hentries, fun p => hhistory ▸ h.once p, fun c hc _ => hbehind c hc,
      fun c hc _ => (hbehind c hc).mono (by omega)⟩
  · refine ⟨hdistinct, hentries, fun p => ?_, fun c hc hfd => ?_, fun c hc hfd => ?_⟩
    · rw [hhistory]
      refine (h.once p).append (fun hp => ?_) (h.entries.sublist happended)
      rw [← hp, hpublisher, hoffset]
      exact hold
    · rw [hhistory]
      exact (hbehind c hc).append fun hp => absurd (hp.symm.trans hpublisher) hfd
    · rw [hhistory]
      refine ((hbehind c hc).mono (by omega)).append fun _ => .inl ?_
      rw [hoffset, hown c hc hfd]
      omega

/-- A harmless attempt that keeps its frame changes nothing. -/
theorem Handled.kept (hhandled : Handled send env m client r) (h : m.Settled)
    (hclient : findClient m.clients client.fd = some client)
    (hharmless : ∀ a ∈ r.2.history, a.Harmless send) (hrc : r.1 = .nomem ∨ r.1 = .notFound) :
    r.2.Settled := by
  have hunsettled := hhandled.unsettled h hclient
  refine ⟨hunsettled.distinct, hunsettled.entries, hunsettled.once, fun c hc => ?_⟩
  obtain ⟨d, hd, hfd, -, hconsumed⟩ := mem_identities hhandled.identities hc
  have hold : Behind m.history c.fd c.consumed := by
    rw [← hfd, ← hconsumed]
    exact h.behind d hd
  rcases hhandled.history with hhistory | ⟨a, hhistory, -, -, -, hsilent⟩
  · exact hhistory ▸ hold
  · rw [hhistory] at hharmless ⊢
    exact hold.append fun _ => .inr (hsilent (hharmless a (by simp)) hrc)

theorem ClientManager.Unsettled.closeClient (h : m.Unsettled fd) : (closeClient m fd).Settled := by
  refine ⟨?_, h.entries.filter _, h.once, fun c hc => ?_⟩
  · exact h.distinct.sublist (List.filter_sublist.map _)
  · obtain ⟨hc, hfd⟩ := List.mem_filter.mp hc
    exact h.others c hc (by simpa using hfd)

theorem ClientManager.Settled.unsettled (h : m.Settled) (fd : ℤ) : m.Unsettled fd :=
  ⟨h.distinct, h.entries, h.once, fun c hc _ => h.behind c hc,
    fun c hc _ => (h.behind c hc).mono (by omega)⟩

theorem ClientManager.Settled.closeClient (h : m.Settled) (fd : ℤ) : (closeClient m fd).Settled :=
  (h.unsettled fd).closeClient

theorem ClientManager.Unsettled.consumeFrame (h : m.Unsettled fd) {n : ℕ} (hn : 0 < n) :
    (consumeFrame m fd n).Settled := by
  refine ⟨?_, h.entries, h.once, fun c hc => ?_⟩
  · have hfds : (BoardComm.consumeFrame m fd n).clients.map (·.fd) = m.clients.map (·.fd) := by
      simp only [BoardComm.consumeFrame, List.map_map]
      apply List.map_congr_left
      intro c _
      simp only [Function.comp_apply]
      split <;> rfl
    rw [DistinctFds, hfds]
    exact h.distinct
  · obtain ⟨d, hd, rfl⟩ := List.mem_map.mp hc
    by_cases hfd : d.fd = fd
    · rw [if_pos hfd]
      exact (h.own d hd hfd).mono (by simp only [BcClient.dropRx]; omega)
    · rw [if_neg hfd]
      exact h.others d hd hfd

/-- Changes that leave descriptors, places and the history alone. -/
theorem ClientManager.Settled.of_places (h : m.Settled)
    (hfds : m'.clients.map (fun c => (c.fd, c.consumed)) =
      m.clients.map (fun c => (c.fd, c.consumed)))
    (hbus : m'.bus = m.bus) (hhistory : m'.history = m.history) : m'.Settled := by
  refine ⟨?_, hbus ▸ h.entries, hhistory ▸ h.once, fun c hc => ?_⟩
  · have hmap : ∀ cs : List BcClient,
        cs.map (·.fd) = (cs.map fun c => (c.fd, c.consumed)).map Prod.fst := by
      intro cs
      simp [Function.comp_def]
    rw [DistinctFds, hmap, hfds, ← hmap]
    exact h.distinct
  · have hmem : (c.fd, c.consumed) ∈ m.clients.map fun c => (c.fd, c.consumed) := by
      rw [← hfds]
      exact List.mem_map_of_mem hc
    obtain ⟨d, hd, heq⟩ := List.mem_map.mp hmem
    simp only [Prod.mk.injEq] at heq
    rw [hhistory, ← heq.1, ← heq.2]
    exact h.behind d hd

end Invariant

section Runs

variable {env : ClientEnv} {m m' : ClientManager ν} {client : BcClient} {fd : ℤ}

/-- As long as the attempts are harmless, the state is settled. -/
structure ClientManager.Safe (send : ℕ → List UInt8 → ν → BcStatus × ν) (m : ClientManager ν) :
    Prop where
  distinct : DistinctFds m.clients
  sockets : Sockets m.clients
  settled : (∀ a ∈ m.history, a.Harmless send) → m.Settled

theorem distinctFds_closeClient (h : DistinctFds m.clients) (fd : ℤ) :
    DistinctFds (closeClient m fd).clients := h.sublist (List.filter_sublist.map _)

theorem sockets_closeClient (h : Sockets m.clients) (fd : ℤ) :
    Sockets (closeClient m fd).clients :=
  fun c hc => h c (List.mem_filter.mp hc).1

theorem distinctFds_map {clients : List BcClient} (h : DistinctFds clients)
    {f : BcClient → BcClient} (hf : ∀ c, (f c).fd = c.fd) : DistinctFds (clients.map f) := by
  have hfds : (clients.map f).map (·.fd) = clients.map (·.fd) := by
    rw [List.map_map]
    apply List.map_congr_left
    intro c _
    exact hf c
  rw [DistinctFds, hfds]
  exact h

theorem sockets_map {clients : List BcClient} (h : Sockets clients)
    {f : BcClient → BcClient} (hf : ∀ c, (f c).shm = c.shm) : Sockets (clients.map f) := by
  intro c hc
  obtain ⟨d, hd, rfl⟩ := List.mem_map.mp hc
  rw [hf]
  exact h d hd

theorem ClientManager.Safe.closeClient (h : m.Safe send) (fd : ℤ) : (closeClient m fd).Safe send :=
  ⟨distinctFds_closeClient h.distinct fd, sockets_closeClient h.sockets fd,
    fun hharmless => (h.settled hharmless).closeClient fd⟩

theorem Handled.history_subset {r : BcStatus × ClientManager ν} (h : Handled send env m client r) :
    m.history ⊆ r.2.history := by
  rcases h.history with hhistory | ⟨a, hhistory, -⟩
  · rw [hhistory]
    exact List.Subset.refl _
  · rw [hhistory]
    exact List.subset_append_left _ _

/-- One message, whose client stays or is closed. -/
theorem processOneMessage_safe (h : m.Safe send) (hsetup : ∀ fd, env.setup fd = none)
    (hclient : findClient m.clients client.fd = some client) :
    (closeClient (processOneMessage send env m client).2 client.fd).Safe send ∧
      ((processOneMessage send env m client).1 = .ok ∨
          (processOneMessage send env m client).1 = .nomem ∨
          (processOneMessage send env m client).1 = .notFound →
        (processOneMessage send env m client).2.Safe send) := by
  rcases processOneMessage_cases send env h.distinct hclient with
    ⟨hok, hhandled⟩ | ⟨m', n, hhandled, hpos, -, hr⟩
  · have hdistinct := h.distinct.of_identities hhandled.identities
    have hsock := hhandled.sockets h.sockets (hsetup _)
    refine ⟨⟨distinctFds_closeClient hdistinct _, sockets_closeClient hsock _,
      fun hharmless => ?_⟩, fun hrc => ⟨hdistinct, hsock, fun hharmless => ?_⟩⟩
    · have hsettled := h.settled fun a ha => hharmless a (hhandled.history_subset ha)
      exact (hhandled.unsettled hsettled hclient).closeClient
    · have hsettled := h.settled fun a ha => hharmless a (hhandled.history_subset ha)
      exact hhandled.kept hsettled hclient hharmless (hrc.resolve_left hok)
  · have hsafe : (consumeFrame m' client.fd n).Safe send := by
      refine ⟨?_, ?_, fun hharmless => ?_⟩
      · apply distinctFds_map (h.distinct.of_identities hhandled.identities)
        intro c
        split <;> rfl
      · apply sockets_map (hhandled.sockets h.sockets (hsetup _))
        intro c
        split <;> rfl
      · have hsettled := h.settled fun a ha => hharmless a (hhandled.history_subset ha)
        exact (hhandled.unsettled hsettled hclient).consumeFrame hpos
    rw [hr]
    exact ⟨hsafe.closeClient _, fun _ => hsafe⟩

theorem processMessagesLoop_safe (h : m.Safe send) (hsetup : ∀ fd, env.setup fd = none) (fd : ℤ)
    (rounds : ℕ) :
    (closeClient (processMessagesLoop send env fd rounds m).2 fd).Safe send ∧
      ((processMessagesLoop send env fd rounds m).1 = .ok ∨
          (processMessagesLoop send env fd rounds m).1 = .nomem →
        (processMessagesLoop send env fd rounds m).2.Safe send) := by
  induction rounds generalizing m with
  | zero => exact ⟨h.closeClient fd, fun _ => h⟩
  | succ rounds ih =>
    unfold processMessagesLoop
    cases hclient : findClient m.clients fd with
    | none => exact ⟨h.closeClient fd, fun _ => h⟩
    | some client =>
      obtain rfl := (findClient_some hclient).2
      obtain ⟨hclosed, hkept⟩ := processOneMessage_safe h hsetup hclient
      dsimp only
      split
      · next hok => exact ih (hkept (.inl hok))
      split
      · next hnot => exact ⟨hclosed, fun _ => hkept (.inr (.inr hnot))⟩
      · next hok _ => exact ⟨hclosed, fun hrc => hkept (.inr (.inl (hrc.resolve_left hok)))⟩

theorem processMessages_safe (h : m.Safe send) (hsetup : ∀ fd, env.setup fd = none)
    (client : BcClient) :
    (closeClient (processMessages send env m client).2 client.fd).Safe send ∧
      ((processMessages send env m client).1 = .ok ∨
          (processMessages send env m client).1 = .nomem →
        (processMessages send env m client).2.Safe send) :=
  processMessagesLoop_safe h hsetup client.fd client.rx.length

theorem closeOnError_safe {r : BcStatus × ClientManager ν}
    (h : (closeClient r.2 fd).Safe send ∧ (r.1 = .ok ∨ r.1 = .nomem → r.2.Safe send)) :
    (closeOnError fd r).Safe send := by
  unfold closeOnError
  split
  · next hrc => exact h.2 hrc
  · exact h.1

theorem resumePendingPublishers_safe (h : m.Safe send) (hsetup : ∀ fd, env.setup fd = none) :
    (resumePendingPublishers send env m).Safe send := by
  have hloop : ∀ (fds : List ℤ) (m : ClientManager ν), m.Safe send →
      (fds.foldl (resumeClient send env) m).Safe send := by
    intro fds
    induction fds with
    | nil => exact fun m h => h
    | cons fd fds ih =>
      intro m h
      apply ih
      unfold resumeClient
      cases hclient : findClient m.clients fd with
      | none => exact h
      | some client =>
        obtain rfl := (findClient_some hclient).2
        dsimp only
        split
        · exact h
        · exact closeOnError_safe (processMessages_safe h hsetup client)
  exact hloop _ m h

theorem appendRx_safe (h : m.Safe send) (fd : ℤ) (data : List UInt8) :
    (appendRx m fd data).Safe send := by
  refine ⟨?_, ?_, fun hharmless => ?_⟩
  · apply distinctFds_map h.distinct
    intro c
    split <;> rfl
  · apply sockets_map h.sockets
    intro c
    split <;> rfl
  · refine (h.settled hharmless).of_places ?_ rfl rfl
    rw [appendRx, List.map_map]
    apply List.map_congr_left
    intro c _
    simp only [Function.comp_apply]
    split <;> rfl

/-- There is nothing to drain without a session. -/
theorem drainClientShm_socket (send : ℕ → List UInt8 → ν → BcStatus × ν) (env : ClientEnv)
    (hsock : Sockets m.clients) (fd : ℤ) (ring : List RingRead) :
    drainClientShm send env m fd ring = (.ok, m, ring) := by
  unfold drainClientShm
  cases hclient : findClient m.clients fd with
  | none => rfl
  | some client => exact if_pos (hsock client (findClient_some hclient).1)

theorem readClient_safe (h : m.Safe send) (hsetup : ∀ fd, env.setup fd = none) (fd : ℤ)
    (reads : List RecvAnswer) (ring : List RingRead) :
    (readClient send env fd reads ring m).Safe send := by
  induction reads generalizing m with
  | nil => exact h
  | cons answer answers ih =>
    unfold readClient
    cases hclient : findClient m.clients fd with
    | none => exact h
    | some client =>
      obtain rfl := (findClient_some hclient).2
      dsimp only
      split
      · exact h
      cases answer with
      | again => exact h
      | error => exact h.closeClient _
      | eintr => exact ih h
      | bytes data =>
        dsimp only
        split
        · exact h.closeClient _
        · obtain ⟨hclosed, hkept⟩ := processMessages_safe
            (appendRx_safe h client.fd (data.take (bcClientRxCap - client.rx.length))) hsetup
            (client.addRx (data.take (bcClientRxCap - client.rx.length)))
          split
          · next hok =>
            have hsafe := hkept (.inl hok)
            rw [drainClientShm_socket send env hsafe.sockets]
            exact ih hsafe
          split
          · next hnomem => exact resumePendingPublishers_safe (hkept (.inr hnomem)) hsetup
          · exact hclosed

theorem setClient_safe (h : m.Safe send) (hclient : findClient m.clients fd = some client)
    {c : BcClient} (hfd : c.fd = client.fd) (hrx : c.rx = client.rx)
    (hconsumed : c.consumed = client.consumed) (hshm : c.shm = none) :
    ({ m with clients := setClient m.clients c } : ClientManager ν).Safe send := by
  have hid := identities_setClient h.distinct hclient hfd hrx hconsumed
  refine ⟨h.distinct.of_identities hid, h.sockets.setClient hshm, fun hharmless => ?_⟩
  refine (h.settled hharmless).of_places ?_ rfl rfl
  have hplaces : ∀ cs : List BcClient, (cs.map fun c => (c.fd, c.consumed)) =
      (identities cs).map fun p => (p.1, p.2.2) := by
    intro cs
    simp [identities, Function.comp_def]
  rw [hplaces, hid, ← hplaces]

theorem flushClientTx_identity (watch : Bool) (writes : List SendQueue.WriteOutcome)
    (client : BcClient) :
    (flushClientTx watch writes client).2.fd = client.fd ∧
      (flushClientTx watch writes client).2.rx = client.rx ∧
      (flushClientTx watch writes client).2.consumed = client.consumed ∧
      (flushClientTx watch writes client).2.shm = client.shm := by
  unfold flushClientTx
  split
  · exact ⟨rfl, rfl, rfl, rfl⟩
  · dsimp only
    split <;> exact ⟨rfl, rfl, rfl, rfl⟩

theorem readEvent_safe (h : m.Safe send) (hsetup : ∀ fd, env.setup fd = none) (fd : ℤ)
    (events : EpollEvents) (reads : List RecvAnswer) (ring : List RingRead) :
    (readEvent send env m fd events reads ring).Safe send := by
  unfold readEvent
  rw [drainClientShm_socket send env h.sockets]
  simp only [reduceCtorEq, ne_eq, not_true_eq_false, if_false]
  split
  · exact h.closeClient fd
  · exact readClient_safe h hsetup fd reads ring

theorem onClientEvent_safe (h : m.Safe send) (hsetup : ∀ fd, env.setup fd = none) (fd : ℤ)
    (events : EpollEvents) (writes : List SendQueue.WriteOutcome) (reads : List RecvAnswer)
    (ring : List RingRead) : (onClientEvent send env m fd events writes reads ring).Safe send := by
  unfold onClientEvent
  cases hclient : findClient m.clients fd with
  | none => exact h
  | some client =>
    dsimp only
    split
    · obtain ⟨hfd, hrx, hconsumed, hshm⟩ := flushClientTx_identity (env.watch fd) writes client
      have hnone := hshm.trans (h.sockets client (findClient_some hclient).1)
      have hflushed := setClient_safe h hclient hfd hrx hconsumed hnone
      split
      · exact hflushed.closeClient fd
      · exact readEvent_safe (resumePendingPublishers_safe hflushed hsetup) hsetup fd events reads
          ring
    · exact readEvent_safe h hsetup fd events reads ring

/-- No session comes up in the event. -/
def ManagerEvent.SocketOnly : ManagerEvent → Prop
  | .client _ _ env _ _ _ => ∀ fd, env.setup fd = none
  | .deliver _ _ _ => True

theorem step_safe (event : ManagerEvent) (hevent : event.SocketOnly) (h : m.Safe send) :
    (m.step send event).Safe send := by
  cases event with
  | client fd events env writes reads ring =>
    exact onClientEvent_safe h hevent fd events writes reads ring
  | deliver fd watch data =>
    change ({ m with clients := (deliverToClient watch fd data m.clients).2 } :
      ClientManager ν).Safe send
    rw [deliverToClient_socket h.sockets]
    cases hclient : findClient m.clients fd with
    | none => exact h
    | some client =>
      obtain ⟨hfd, hrx, hconsumed⟩ := enqueueClientTx_identity (watch fd) client data
      have hnone := (enqueueClientTx_shm (watch fd) client data).trans
        (h.sockets client (findClient_some hclient).1)
      exact setClient_safe h hclient hfd hrx hconsumed hnone

/-- Clients of any kind on their sockets, before the first frame is published. -/
structure ClientManager.Fresh (m : ClientManager ν) : Prop where
  distinct : DistinctFds m.clients
  sockets : Sockets m.clients
  entries : m.bus.subscriptions.Nodup
  history : m.history = []

theorem ClientManager.Fresh.safe (hfresh : m.Fresh) : m.Safe send := by
  refine ⟨hfresh.distinct, hfresh.sockets, fun _ => ⟨hfresh.distinct, hfresh.entries,
    fun p => ?_, fun c _ => ?_⟩⟩
  · rw [hfresh.history]
    exact onceInOrder_nil p
  · rw [hfresh.history]
    intro a ha
    simp at ha

/-- A run all of whose attempts are harmless publishes every frame once, in order. -/
theorem fanout_once_in_order (send : ℕ → List UInt8 → ν → BcStatus × ν) (m : ClientManager ν)
    (events : List ManagerEvent) (hfresh : m.Fresh)
    (hsockets : ∀ event ∈ events, event.SocketOnly)
    (hharmless : ∀ a ∈ (Runs.run (ClientManager.step send) m events).history, a.Harmless send)
    (publisher : ℤ) :
    OnceInOrder (Runs.run (ClientManager.step send) m events).history publisher := by
  have hend := Runs.run_of_inputs (ClientManager.step send)
    (fun m event h hevent => step_safe event hevent h) hfresh.safe hsockets
  exact (hend.settled hharmless).once publisher

end Runs

section Examples

/-- The topic `t`. -/
def tTopic : CBuffer bcMaxTopicLen := .ofPrefix _ [0x74]

theorem tFrame_channel_lt : ([] : List UInt8).length < bcMaxChannelLen := by decide

theorem tFrame_topic_ne : ([0x74] : List UInt8) ≠ [] := by simp

theorem tFrame_topic_lt : ([0x74] : List UInt8).length < bcMaxTopicLen := by decide

theorem tFrame_payload_le : ([0x78] : List UInt8).length ≤ bcMaxPayloadLen := by decide

/-- A PUBLISH frame on the topic, with the payload `x`. -/
def tFrame : IpcFrame :=
  { version := 2, type := bcIpcPublish, dstNode := 0, qos := 0, flags := 0, seq := 7,
    channel := [], topic := [0x74], payload := [0x78], channel_lt := tFrame_channel_lt,
    topic_ne := tFrame_topic_ne, topic_lt := tFrame_topic_lt, payload_le := tFrame_payload_le }

/-- The message of the frame, from a node. -/
def tMessage (srcNode : UInt32) : BcMessage :=
  { BcMessage.zero with
    srcNode := srcNode, seq := 7, topic := tTopic, payloadLen := 1, payload := .ofPrefix _ [0x78] }

/-- A message from the network, whose DELIVER frame has 1024 bytes. -/
def fillMessage : BcMessage := { BcMessage.zero with topic := tTopic, payloadLen := 995 }

def tBus (stats : BcStats) : MessageBus :=
  { subscriptions := [⟨5, tTopic⟩, ⟨6, tTopic⟩], router := ⟨[], [], []⟩, nodeId := 1,
    nextSeq := 0, requireRoute := false, bridgeBroadcast := false, stats := stats }

/-- A publisher and two subscribers. -/
def tClients (rx tx tx' : List UInt8) : List BcClient :=
  [⟨4, rx, [], 0, [], none, 0⟩, ⟨5, [], [], 0, tx, none, 0⟩, ⟨6, [], [], 0, tx', none, 0⟩]

def noSend : ℕ → List UInt8 → Unit → BcStatus × Unit := fun _ _ _ => (.io, ())

def quietEnv : ClientEnv := ⟨fun _ => true, fun _ => none⟩

theorem publishedMessage_tFrame :
    publishedMessage tFrame.header tFrame.channel tFrame.topic tFrame.payload = tMessage 0 := by
  decide +kernel

theorem enqueueClientTx_room_left (fd : ℤ) {tx data : List UInt8}
    (h : tx.length + data.length ≤ bcClientTxCap) :
    enqueueClientTx true ⟨fd, [], [], 0, tx, none, 0⟩ data =
      (⟨.ok, true⟩, ⟨fd, [], [], 0, tx ++ data, none, 0⟩) := by
  unfold enqueueClientTx
  rw [if_neg (by omega)]
  simp only [gt_iff_lt, lt_irrefl, false_and, if_false, Nat.zero_add]
  rw [if_neg (by omega)]
  rfl

theorem enqueueClientTx_full (fd : ℤ) {tx data : List UInt8} (hfull : tx.length = bcClientTxCap)
    (hpos : 0 < data.length) (hlen : data.length ≤ bcClientTxCap) :
    enqueueClientTx true ⟨fd, [], [], 0, tx, none, 0⟩ data =
      (⟨.nomem, false⟩, ⟨fd, [], [], 0, tx, none, 0⟩) := by
  unfold enqueueClientTx
  rw [if_neg (by omega)]
  simp only [gt_iff_lt, lt_irrefl, false_and, if_false, Nat.zero_add]
  rw [if_pos (by omega)]

/-- The frame that the subscribers are to get. -/
def tDeliver : List UInt8 := deliverFrame (tMessage 1)

theorem tDeliver_length : tDeliver.length = 30 := by decide +kernel

theorem tMessage_delivered (rx : List UInt8) {tx full : List UInt8} (hfull : full.length = bcClientTxCap)
    (htx : tx.length ≤ 1024) :
    deliverLocalLoop (deliverToClient quietEnv.watch) 4 (tMessage 1)
        [⟨5, tTopic⟩, ⟨6, tTopic⟩] (tClients rx tx full) =
      (⟨2, 1, 1, [⟨5, tTopic⟩]⟩, tClients rx (tx ++ tDeliver) full) := by
  have hwants : BcSubscription.wants 4 (tMessage 1) ⟨5, tTopic⟩ = true ∧
      BcSubscription.wants 4 (tMessage 1) ⟨6, tTopic⟩ = true := by
    decide +kernel
  have hlen := tDeliver_length
  have h5 : deliverToClient quietEnv.watch 5 tDeliver (tClients rx tx full) =
      (⟨.ok, true⟩, tClients rx (tx ++ tDeliver) full) := by
    have henqueue := enqueueClientTx_room_left 5
      (show tx.length + tDeliver.length ≤ bcClientTxCap by simp only [bcClientTxCap]; omega)
    simp [deliverToClient, tClients, findClient, setClient, quietEnv, henqueue]
  have h6 : ∀ tx, deliverToClient quietEnv.watch 6 tDeliver (tClients rx tx full) =
      (⟨.nomem, false⟩, tClients rx tx full) := by
    intro tx
    have henqueue := enqueueClientTx_full 6 hfull (show 0 < tDeliver.length by omega)
      (by simp only [bcClientTxCap]; omega)
    simp [deliverToClient, tClients, findClient, setClient, quietEnv, henqueue]
  simp only [deliverLocalLoop, hwants, if_true]
  rw [← tDeliver, h5]
  dsimp only
  rw [h6]
  rfl

/-- One attempt reaches the first subscriber only. -/
theorem tMessage_published (rx : List UInt8) {tx full : List UInt8} (hfull : full.length = bcClientTxCap)
    (htx : tx.length ≤ 1024) (stats : BcStats) :
    ∃ stats' : BcStats,
      bcMessageBusPublish (deliverToClient quietEnv.watch) noSend (tBus stats) 4 (tMessage 0)
          (tClients rx tx full) () =
        (⟨.nomem, [⟨5, tTopic⟩], []⟩, tBus stats', tClients rx (tx ++ tDeliver) full, ()) := by
  have hstamp : stampMessage (tBus stats) (tMessage 0) = (tMessage 1, tBus stats) := by
    unfold stampMessage
    rw [if_neg (by decide)]
    rfl
  have hnetwork : ∀ stats, needNetwork (tBus stats) (tMessage 1) = false := by
    intro stats
    rfl
  have hdeliver := tMessage_delivered rx hfull htx
  obtain ⟨stats', hlocal⟩ : ∃ stats' : BcStats,
      publishLocal (deliverToClient quietEnv.watch) (tBus stats) 4 (tMessage 1)
          (tClients rx tx full) =
        (.error .nomem, [⟨5, tTopic⟩], tBus stats', tClients rx (tx ++ tDeliver) full) := by
    have hsubs : (tBus stats).subscriptions = [⟨5, tTopic⟩, ⟨6, tTopic⟩] := rfl
    unfold publishLocal
    rw [if_pos (by rfl), hsubs, hdeliver]
    exact ⟨_, rfl⟩
  refine ⟨stats', ?_⟩
  unfold bcMessageBusPublish
  rw [hstamp]
  dsimp only
  rw [hlocal]
  dsimp only
  unfold publishNetwork
  rw [hnetwork]
  rfl

/-- The frame stays where it is, and the first subscriber has the message. -/
theorem tFrame_kept {tx full : List UInt8} (hfull : full.length = bcClientTxCap)
    (htx : tx.length ≤ 1024) (stats : BcStats) (history : List (Attempt Unit)) :
    ∃ (stats' : BcStats) (a : Attempt Unit),
      a.publisher = 4 ∧ a.offset = 0 ∧ a.result = ⟨.nomem, [⟨5, tTopic⟩], []⟩ ∧
      processMessages noSend quietEnv
          ⟨tClients tFrame.bytes tx full, tBus stats, (), history⟩
          ⟨4, tFrame.bytes, [], 0, [], none, 0⟩ =
        (.nomem, ⟨tClients tFrame.bytes (tx ++ tDeliver) full, tBus stats', (),
          history ++ [a]⟩) := by
  have hrx : tFrame.bytes = tFrame.bytes ++ [] := by rw [List.append_nil]
  have hone := processOneMessage_frame noSend quietEnv
    ⟨tClients tFrame.bytes tx full, tBus stats, (), history⟩
    ⟨4, tFrame.bytes, [], 0, [], none, 0⟩ hrx
  have hdispatch : ∀ (m : ClientManager Unit) (client : BcClient),
      processIpcPayload noSend quietEnv m client tFrame.header tFrame.channel tFrame.topic
        tFrame.payload = publishFrame noSend quietEnv m client (tMessage 0) := by
    intro m client
    rw [← publishedMessage_tFrame]
    rfl
  obtain ⟨stats', hpublish⟩ := tMessage_published tFrame.bytes hfull htx stats
  rw [hdispatch, publishFrame] at hone
  dsimp only at hone
  rw [hpublish] at hone
  dsimp only at hone
  rw [if_neg (by decide)] at hone
  have hrounds : tFrame.bytes.length = 29 + 1 := by decide +kernel
  refine ⟨stats', ⟨4, 0, tMessage 0, tBus stats, tClients tFrame.bytes tx full, (),
    quietEnv.watch, ⟨.nomem, [⟨5, tTopic⟩], []⟩⟩, rfl, rfl, rfl, ?_⟩
  unfold processMessages
  dsimp only
  rw [hrounds]
  unfold processMessagesLoop
  have hfind : findClient (tClients tFrame.bytes tx full) 4 =
      some ⟨4, tFrame.bytes, [], 0, [], none, 0⟩ := rfl
  dsimp only
  rw [hfind]
  dsimp only
  rw [hone]
  rfl

/-- The frames of the network fill the queue of the second subscriber. -/
theorem run_fill (stats : BcStats) {data : List UInt8} (k : ℕ) {tx' : List UInt8}
    (hroom : tx'.length + k * data.length ≤ bcClientTxCap) :
    Runs.run (ClientManager.step noSend) ⟨tClients [] [] tx', tBus stats, (), []⟩
        (List.replicate k (.deliver 6 quietEnv.watch data)) =
      ⟨tClients [] [] (tx' ++ (List.replicate k data).flatten), tBus stats, (), []⟩ := by
  induction k generalizing tx' with
  | zero => simp
  | succ k ih =>
    rw [Nat.add_mul, one_mul] at hroom
    have hstep : (ClientManager.step noSend ⟨tClients [] [] tx', tBus stats, (), []⟩
        (.deliver 6 quietEnv.watch data)) =
        ⟨tClients [] [] (tx' ++ data), tBus stats, (), []⟩ := by
      have henqueue := enqueueClientTx_room_left 6
        (show tx'.length + data.length ≤ bcClientTxCap by omega)
      simp [ClientManager.step, deliverToClient, tClients, findClient, setClient, quietEnv,
        henqueue]
    rw [List.replicate_succ, Runs.run_cons, hstep, ih (by rw [List.length_append]; omega)]
    simp [List.replicate_succ]

/-- The read of one frame, with the queue of the second subscriber full. -/
theorem tFrame_read {full : List UInt8} (hfull : full.length = bcClientTxCap) (stats : BcStats) :
    ∃ a a' : Attempt Unit,
      (ClientManager.step noSend ⟨tClients [] [] full, tBus stats, (), []⟩
        (.client 4 ⟨true, false, false, false⟩ quietEnv [] [.bytes tFrame.bytes] [])).history =
          [a, a'] ∧
      a.publisher = 4 ∧ a.offset = 0 ∧ a.result = ⟨.nomem, [⟨5, tTopic⟩], []⟩ ∧
      a'.publisher = 4 ∧ a'.offset = 0 ∧ a'.result = ⟨.nomem, [⟨5, tTopic⟩], []⟩ := by
  obtain ⟨stats', a, hpublisher, hoffset, hresult, hfirst⟩ :=
    tFrame_kept hfull (show ([] : List UInt8).length ≤ 1024 by simp) stats []
  obtain ⟨stats'', a', hpublisher', hoffset', hresult', hsecond⟩ :=
    tFrame_kept hfull (show ([] ++ tDeliver).length ≤ 1024 by simp [tDeliver_length]) stats' [a]
  refine ⟨a, a', ?_, hpublisher, hoffset, hresult, hpublisher', hoffset', hresult'⟩
  have hne : tFrame.bytes ≠ [] := by decide
  have hresume : resumePendingPublishers noSend quietEnv
      ⟨tClients tFrame.bytes ([] ++ tDeliver) full, tBus stats', (), [a]⟩ =
      ⟨tClients tFrame.bytes ([] ++ tDeliver ++ tDeliver) full, tBus stats'', (), [a] ++ [a']⟩ := by
    have hfirst : resumeClient noSend quietEnv
        ⟨tClients tFrame.bytes ([] ++ tDeliver) full, tBus stats', (), [a]⟩ 4 =
        ⟨tClients tFrame.bytes ([] ++ tDeliver ++ tDeliver) full, tBus stats'', (),
          [a] ++ [a']⟩ := by
      have hfind : findClient (tClients tFrame.bytes ([] ++ tDeliver) full) 4 =
          some ⟨4, tFrame.bytes, [], 0, [], none, 0⟩ := rfl
      simp only [resumeClient, hfind, hne, if_false, hsecond, closeOnError, or_true, if_true]
    have hfds : (tClients tFrame.bytes ([] ++ tDeliver) full).map (·.fd) = [4, 5, 6] := rfl
    simp only [resumePendingPublishers, hfds, List.foldl_cons, List.foldl_nil, hfirst]
    rfl
  have hstep : ClientManager.step noSend ⟨tClients [] [] full, tBus stats, (), []⟩
      (.client 4 ⟨true, false, false, false⟩ quietEnv [] [.bytes tFrame.bytes] []) =
      resumePendingPublishers noSend quietEnv
        ⟨tClients tFrame.bytes ([] ++ tDeliver) full, tBus stats', (), [a]⟩ := by
    have hfind : findClient (tClients [] [] full) 4 = some ⟨4, [], [], 0, [], none, 0⟩ := rfl
    have hsock : Sockets (⟨tClients [] [] full, tBus stats, (), []⟩ : ClientManager Unit).clients := by
      simp [Sockets, tClients]
    have hdrain := drainClientShm_socket noSend quietEnv hsock 4 []
    have htake : tFrame.bytes.take (bcClientRxCap - ([] : List UInt8).length) = tFrame.bytes :=
      List.take_of_length_le (by decide)
    have happend : appendRx ⟨tClients [] [] full, tBus stats, (), []⟩ 4 tFrame.bytes =
        ⟨tClients tFrame.bytes [] full, tBus stats, (), ([] : List (Attempt Unit))⟩ := rfl
    have hadd : BcClient.addRx ⟨4, [], [], 0, [], none, 0⟩ tFrame.bytes =
        ⟨4, tFrame.bytes, [], 0, [], none, 0⟩ := rfl
    have hroom : ¬ ([] : List UInt8).length ≥ bcClientRxCap := by decide
    simp only [ClientManager.step, onClientEvent, hfind, readEvent, hdrain, readClient, hroom,
      hne, htake, happend, hadd, hfirst, reduceCtorEq, Bool.false_eq_true, or_false, false_and, if_false,
      if_true, List.nil_append, ne_eq, not_true_eq_false]
  rw [hstep, hresume]
  rfl

/-- So many frames of 1024 bytes fill a queue. -/
def fillRounds : ℕ := bcClientTxCap / 1024

/-- The network fills the queue of one subscriber, then a frame is read. -/
def fullEvents : List ManagerEvent :=
  List.replicate fillRounds (.deliver 6 quietEnv.watch (deliverFrame fillMessage)) ++
    [.client 4 ⟨true, false, false, false⟩ quietEnv [] [.bytes tFrame.bytes] []]

def tManager : ClientManager Unit := ⟨tClients [] [] [], tBus bcStatsReset, (), []⟩

theorem tManager_fresh : tManager.Fresh :=
  ⟨by simp [DistinctFds, tManager, tClients], by simp [Sockets, tManager, tClients],
    by decide +kernel, rfl⟩

/-- The subscriber with room gets the frame twice. -/
theorem fanout_repeats :
    tManager.Fresh ∧ (∀ event ∈ fullEvents, event.SocketOnly) ∧
      deliveries (Runs.run (ClientManager.step noSend) tManager fullEvents).history 4
        ⟨5, tTopic⟩ = [0, 0] ∧
      ¬ OnceInOrder (Runs.run (ClientManager.step noSend) tManager fullEvents).history 4 := by
  have hlen : (deliverFrame fillMessage).length = 1024 := by decide +kernel
  have hrounds : fillRounds * 1024 = bcClientTxCap := by decide
  have hfull : ([] ++ (List.replicate fillRounds (deliverFrame fillMessage)).flatten).length =
      bcClientTxCap := by
    rw [List.nil_append, List.length_flatten, List.map_replicate, List.sum_replicate, hlen,
      smul_eq_mul, hrounds]
  have hroom : ([] : List UInt8).length + fillRounds * (deliverFrame fillMessage).length ≤
      bcClientTxCap := by
    rw [hlen, hrounds, List.length_nil, Nat.zero_add]
  obtain ⟨a, a', hhistory, hpublisher, hoffset, hresult, hpublisher', hoffset', hresult'⟩ :=
    tFrame_read hfull bcStatsReset
  have hrun : (Runs.run (ClientManager.step noSend) tManager fullEvents).history = [a, a'] := by
    have hfill := run_fill bcStatsReset fillRounds hroom
    unfold fullEvents tManager
    rw [Runs.run_append, hfill, Runs.run_cons, Runs.run_nil]
    exact hhistory
  have hdeliveries : deliveries [a, a'] 4 ⟨5, tTopic⟩ = [0, 0] := by
    simp [deliveries, hpublisher, hpublisher', hoffset, hoffset', hresult, hresult']
  rw [hrun]
  refine ⟨tManager_fresh, ?_, hdeliveries, fun h => ?_⟩
  · intro event hevent
    rcases List.mem_append.mp hevent with hevent | hevent
    · rw [(List.mem_replicate.mp hevent).2]
      trivial
    · rw [List.mem_singleton.mp hevent]
      exact fun _ => rfl
  · have hpairwise := h.deliveries ⟨5, tTopic⟩
    rw [hdeliveries] at hpairwise
    simp at hpairwise

/-- Two frames, read in one go and with room for both. -/
def roomEvents : List ManagerEvent :=
  [.client 4 ⟨true, false, false, false⟩ quietEnv [] [.bytes (tFrame.bytes ++ tFrame.bytes)] []]

theorem fanout_once_in_order_room :
    deliveries (Runs.run (ClientManager.step noSend) tManager roomEvents).history 4
        ⟨5, tTopic⟩ = [0, 30] ∧
      OnceInOrder (Runs.run (ClientManager.step noSend) tManager roomEvents).history 4 := by
  have hattempts : ((Runs.run (ClientManager.step noSend) tManager roomEvents).history.all
      fun a => decide (a.msg.payloadLen ≤ bcMaxPayloadLen ∧ (a.replay noSend).rc = .ok)) = true := by
    decide +kernel
  refine ⟨by decide +kernel, fanout_once_in_order noSend tManager roomEvents tManager_fresh ?_ ?_ 4⟩
  · intro event hevent
    rw [List.mem_singleton.mp hevent]
    exact fun _ => rfl
  · intro a ha
    obtain ⟨hlen, hok⟩ := by simpa using List.all_eq_true.mp hattempts a ha
    rw [Attempt.harmless_iff noSend hlen]
    rintro (hkept | hkept) <;> rw [hok] at hkept <;> cases hkept

end Examples

end BoardComm
