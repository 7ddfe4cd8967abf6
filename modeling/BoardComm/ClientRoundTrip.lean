import BoardComm.ClientSdk

/-!
# From one client to another

A publish frame that is built by a client, dispatched by the daemon, delivered to
a subscriber and read by it: the four codecs agree on the frames that pass.
-/
namespace BoardComm

/-- The message has the parts that the client gave. -/
structure BcMessage.Carries (msg : BcMessage) (channel topic payload : List UInt8)
    (opts : Option BcPublishOpts) : Prop where
  channel : msg.channel.str = channel
  topic : msg.topic.str = topic
  payloadLen : msg.payloadLen = payload.length
  body : msg.body = payload
  dstNode : msg.dstNode = opts.elim 0 (·.dstNode)
  qos : msg.qos = opts.elim 0 (·.qos)
  flags : msg.flags = opts.elim 0 (·.flags)

/-- The frames that `bc_message_bus_deliver_local` hands to the clients, each with
its descriptor, while these answer as they do. -/
def deliverCalls (answer : ℤ → List UInt8 → DeliverAnswer) (source : ℤ) (msg : BcMessage)
    (subs : List BcSubscription) : List (ℤ × List UInt8) :=
  (deliverLocalLoop (fun fd data calls => (answer fd data, calls ++ [(fd, data)])) source msg
    subs []).2

/-- The client has subscribed to the filter. -/
def MessageBus.Subscribed (bus : MessageBus) (fd : ℤ) (filter : List UInt8) : Prop :=
  ∃ sub ∈ bus.subscriptions, sub.fd = fd ∧ sub.topic.str = filter

section Daemon

variable {msg : BcMessage}

/-- Each entry that wants the message is called with its DELIVER frame. -/
theorem mem_deliverCalls (answer : ℤ → List UInt8 → DeliverAnswer) {source : ℤ}
    {subs : List BcSubscription} {sub : BcSubscription} (hsub : sub ∈ subs)
    (hwants : sub.wants source msg = true) :
    (sub.fd, deliverFrame msg) ∈ deliverCalls answer source msg subs := by
  -- The calls made so far stay, and every later entry adds its own.
  have hloop : ∀ (subs : List BcSubscription) (calls : List (ℤ × List UInt8)),
      calls ⊆ (deliverLocalLoop (fun fd data calls => (answer fd data, calls ++ [(fd, data)]))
          source msg subs calls).2 ∧
        (sub ∈ subs → (sub.fd, deliverFrame msg) ∈
          (deliverLocalLoop (fun fd data calls => (answer fd data, calls ++ [(fd, data)]))
            source msg subs calls).2) := by
    intro subs
    induction subs with
    | nil => simp [deliverLocalLoop]
    | cons s subs ih =>
      intro calls
      unfold deliverLocalLoop
      split_ifs with hs
      · obtain ⟨hkept, hlater⟩ := ih (calls ++ [(s.fd, deliverFrame msg)])
        refine ⟨fun c hc => hkept (List.mem_append_left _ hc), fun hmem => ?_⟩
        rcases List.mem_cons.mp hmem with rfl | hmem
        · exact hkept (by simp)
        · exact hlater hmem
      · obtain ⟨hkept, hlater⟩ := ih calls
        refine ⟨hkept, fun hmem => ?_⟩
        rcases List.mem_cons.mp hmem with rfl | hmem
        · exact absurd hwants hs
        · exact hlater hmem
  exact (hloop subs []).2 hsub

/-- The DELIVER frame of a message is a frame with its parts. -/
theorem exists_deliverFrame (h : msg.WellFormed) :
    ∃ f : IpcFrame, deliverFrame msg = f.bytes ∧ f.version = bcIpcVersion ∧
      f.type = bcIpcDeliver ∧ f.channel = msg.channel.str ∧ f.topic = msg.topic.str ∧
      f.payload = msg.body := by
  obtain ⟨hchannel, htopic, hne, hlen⟩ := h
  have hbody := BcMessage.body_length hlen
  let f : IpcFrame :=
    { version := bcIpcVersion, type := bcIpcDeliver, dstNode := msg.dstNode, qos := msg.qos,
      flags := msg.flags, seq := msg.seq, channel := msg.channel.str, topic := msg.topic.str,
      payload := msg.body, channel_lt := hchannel, topic_ne := hne, topic_lt := htopic,
      payload_le := hbody.trans_le hlen }
  refine ⟨f, ?_, rfl, rfl, rfl, rfl, rfl⟩
  rw [f.bytes_of_version rfl]
  simp only [deliverFrame, CBuffer.strnlen_bytes, CBuffer.take_str_length, List.append_assoc,
    IpcFrame.header, f, hbody]

/-- An accepted subscription stands in the table. -/
theorem bcMessageBusSubscribe_mem {bus : MessageBus} {fd : ℤ} {topic : List UInt8}
    (hzero : 0 ∉ topic) (hlt : topic.length < bcMaxTopicLen)
    (h : (bcMessageBusSubscribe bus fd topic).1 = .ok) :
    (bcMessageBusSubscribe bus fd topic).2.Subscribed fd topic := by
  unfold bcMessageBusSubscribe at h ⊢
  split_ifs at h ⊢ with hempty hfull hthere
  · obtain ⟨sub, hsub, hsame⟩ := List.any_eq_true.mp hthere
    exact ⟨sub, hsub, by simpa using hsame⟩
  · refine ⟨_, List.mem_append_right _ (List.mem_singleton.mpr rfl), rfl, ?_⟩
    simp only
    rw [List.take_of_length_le (by omega), CBuffer.str_ofPrefix hlt, CBuffer.cstr_of_not_mem _ hzero]

/-- What is published of a built frame carries its parts. -/
theorem publishedMessage_carries {f : IpcFrame} {type : UInt16}
    {channel topic : Option (List UInt8)} {payload : List UInt8} {opts : Option BcPublishOpts}
    (h : f.Built type channel topic payload opts) :
    (publishedMessage f.header f.channel f.topic f.payload).Carries f.channel f.topic payload
      opts := by
  obtain ⟨t, -, htopic⟩ := h.topic
  have hchannelZero : CBuffer.cstr f.channel = f.channel := by
    rw [h.channel]
    cases channel with
    | none => rfl
    | some c => exact CBuffer.cstr_cstr c
  have htopicZero : CBuffer.cstr f.topic = f.topic := by rw [htopic, CBuffer.cstr_cstr]
  have hnew : f.header.version ≥ bcIpcVersion := by
    have hversion : f.header.version = bcIpcVersion := h.version
    rw [hversion]
    decide
  have hbody : (publishedMessage f.header f.channel f.topic f.payload).body = f.payload := by
    have htake := CBuffer.take_ofPrefix f.payload_le
    simp only [publishedMessage, if_pos hnew, BcMessage.body, f.payloadLen_toNat, htake]
  refine ⟨?_, ?_, ?_, ?_, ?_, ?_, ?_⟩
  · simp only [publishedMessage, if_pos hnew, hchannelZero, CBuffer.str_ofPrefix f.channel_lt]
  · simp only [publishedMessage, if_pos hnew, htopicZero, CBuffer.str_ofPrefix f.topic_lt]
  · simp only [publishedMessage, if_pos hnew, f.payloadLen_toNat, h.payload]
  · rw [hbody, h.payload]
  · simp only [publishedMessage, if_pos hnew]
    exact h.dstNode
  · simp only [publishedMessage, if_pos hnew]
    exact h.qos
  · simp only [publishedMessage, if_pos hnew]
    exact h.flags

/-- A message with a proper topic can be put in a frame. -/
theorem BcMessage.Carries.wellFormed {channel topic payload : List UInt8}
    {opts : Option BcPublishOpts} (h : msg.Carries channel topic payload opts)
    (hchannel : channel.length < bcMaxChannelLen) (hne : topic ≠ [])
    (htopic : topic.length < bcMaxTopicLen) (hpayload : payload.length ≤ bcMaxPayloadLen) :
    msg.WellFormed := by
  refine ⟨?_, ?_, ?_, ?_⟩
  · rw [CBuffer.Terminated, h.channel]
    exact hchannel
  · rw [CBuffer.Terminated, h.topic]
    exact htopic
  · rw [h.topic]
    exact hne
  · rw [h.payloadLen]
    exact hpayload

/-- Stamping a message changes its source and its number only. -/
theorem stampMessage_carries (bus : MessageBus) {channel topic payload : List UInt8}
    {opts : Option BcPublishOpts} (h : msg.Carries channel topic payload opts) :
    (stampMessage bus msg).1.Carries channel topic payload opts := by
  unfold stampMessage
  split
  · exact ⟨h.channel, h.topic, h.payloadLen, h.body, h.dstNode, h.qos, h.flags⟩
  · exact ⟨h.channel, h.topic, h.payloadLen, h.body, h.dstNode, h.qos, h.flags⟩

end Daemon

/-- A string as a client passes it: without a zero byte, not empty, and short
enough for a topic. -/
structure IsTopic (topic : List UInt8) : Prop where
  zero : 0 ∉ topic
  ne : topic ≠ []
  lt : topic.length < bcMaxTopicLen

/-- The frames of a subscription and of a publication, from one client to another. -/
structure Passes {ν : Type*} (send : ℕ → List UInt8 → ν → BcStatus × ν) (env : ClientEnv)
    (publisher subscriber : BcClient) (channel topic payload filter : List UInt8)
    (opts : Option BcPublishOpts) (subscribe publish : List UInt8) (msg : BcMessage) : Prop where
  subscribed : ∀ (m : ClientManager ν) rest,
    processFrameBuffer send env m subscriber (subscribe ++ rest) subscribe.length =
      (.ok, { m with bus := (bcMessageBusSubscribe m.bus subscriber.fd filter).2 })
  accepted : ∀ bus, (bcMessageBusSubscribe bus subscriber.fd filter).1 = .ok →
    (bcMessageBusSubscribe bus subscriber.fd filter).2.Subscribed subscriber.fd filter
  published : ∀ (m : ClientManager ν) rest,
    processFrameBuffer send env m publisher (publish ++ rest) publish.length =
      publishFrame send env m publisher msg
  carries : msg.Carries channel topic payload opts
  delivered : ∀ (bus : MessageBus) answer, bus.Subscribed subscriber.fd filter →
    opts.elim 0 (·.dstNode) = 0 ∨ opts.elim 0 (·.dstNode) = bus.nodeId →
      shouldDeliverLocal bus (stampMessage bus msg).1 = true ∧
        (subscriber.fd, deliverFrame (stampMessage bus msg).1) ∈
          deliverCalls answer publisher.fd (stampMessage bus msg).1 bus.subscriptions
  read : ∀ (bus : MessageBus) topicCap payloadCap rest, bcMaxTopicLen ≤ topicCap →
    bcMaxPayloadLen ≤ payloadCap →
      readIpcDeliver topicCap payloadCap none .readable (deliverFrame (stampMessage bus msg).1 ++ rest) =
        .ok (⟨some topic, payload⟩, rest)

/-- Four codecs, one format: what a client publishes is what a subscriber reads. -/
theorem ipc_round_trip {ν : Type*} (send : ℕ → List UInt8 → ν → BcStatus × ν) (env : ClientEnv)
    (publisher subscriber : BcClient) (hfds : subscriber.fd ≠ publisher.fd)
    {channel : Option (List UInt8)} {topic payload filter : List UInt8}
    (opts : Option BcPublishOpts)
    (hchannel : ∀ c ∈ channel, 0 ∉ c ∧ c.length < bcMaxChannelLen) (htopic : IsTopic topic)
    (hpayload : payload.length ≤ bcMaxPayloadLen) (hfilter : IsTopic filter)
    (hmatch : bcTopicMatches filter topic = true) :
    ∃ subscribe publish msg,
      buildIpcFrame bcClientFrameMax bcIpcSubscribe none (some filter) [] none = .ok subscribe ∧
      buildIpcFrame bcClientFrameMax bcIpcPublish channel (some topic) payload opts = .ok publish ∧
      Passes send env publisher subscriber (channel.getD []) topic payload filter opts subscribe
        publish msg := by
  have hstring : channel.elim [] CBuffer.cstr = channel.getD [] := by
    cases channel with
    | none => rfl
    | some c => exact CBuffer.cstr_of_not_mem c (hchannel c rfl).1
  have hchannelLt : (channel.getD []).length < bcMaxChannelLen := by
    cases channel with
    | none => exact (by decide : (0 : ℕ) < bcMaxChannelLen)
    | some c => exact (hchannel c rfl).2
  let p : IpcFrame :=
    { version := bcIpcVersion, type := bcIpcPublish, dstNode := opts.elim 0 (·.dstNode),
      qos := opts.elim 0 (·.qos), flags := opts.elim 0 (·.flags), seq := 0,
      channel := channel.getD [], topic := topic, payload := payload, channel_lt := hchannelLt,
      topic_ne := htopic.ne, topic_lt := htopic.lt, payload_le := hpayload }
  let s : IpcFrame :=
    { version := bcIpcVersion, type := bcIpcSubscribe, dstNode := 0, qos := 0, flags := 0, seq := 0,
      channel := [], topic := filter, payload := [], channel_lt := by decide,
      topic_ne := hfilter.ne, topic_lt := hfilter.lt, payload_le := by decide }
  have hp : p.Built bcIpcPublish channel (some topic) payload opts :=
    ⟨rfl, rfl, rfl, hstring.symm, ⟨topic, rfl, (CBuffer.cstr_of_not_mem _ htopic.zero).symm⟩, rfl,
      rfl, rfl, rfl⟩
  have hs : s.Built bcIpcSubscribe none (some filter) [] none :=
    ⟨rfl, rfl, rfl, rfl, ⟨filter, rfl, (CBuffer.cstr_of_not_mem _ hfilter.zero).symm⟩, rfl, rfl, rfl,
      rfl⟩
  have hcarries := publishedMessage_carries hp
  refine ⟨s.bytes, p.bytes, _, hs.buildIpcFrame_eq, hp.buildIpcFrame_eq, ?_, ?_, ?_, hcarries, ?_,
    ?_⟩
  · intro m rest
    rw [processFrameBuffer_frame]
    have hsubscribe : s.header.type = bcIpcSubscribe := rfl
    rw [processIpcPayload, if_pos hsubscribe]
    simp only [s, CBuffer.cstr_of_not_mem _ hfilter.zero]
  · exact fun bus h => bcMessageBusSubscribe_mem hfilter.zero hfilter.lt h
  · intro m rest
    rw [processFrameBuffer_frame]
    rfl
  · intro bus answer hsubscribed hdst
    have hstamped := stampMessage_carries bus hcarries
    constructor
    · simp only [shouldDeliverLocal, hstamped.dstNode]
      simpa using hdst
    · obtain ⟨sub, hsub, hfd, hfilterStr⟩ := hsubscribed
      rw [← hfd]
      refine mem_deliverCalls answer hsub ?_
      have htopicStr : (stampMessage bus _).1.topic.str = topic := hstamped.topic
      simp [BcSubscription.wants, hfilterStr, htopicStr, hmatch, hfd, hfds]
  · intro bus topicCap payloadCap rest htopicCap hpayloadCap
    have hstamped := stampMessage_carries bus hcarries
    obtain ⟨f, hbytes, hversion, htype, -, htopicEq, hpayloadEq⟩ := exists_deliverFrame
      (hstamped.wellFormed p.channel_lt htopic.ne htopic.lt hpayload)
    rw [hstamped.topic] at htopicEq
    rw [hstamped.body] at hpayloadEq
    have hread := readIpcDeliverSocket_frame hversion htype
      (show f.topic.length < topicCap by have := f.topic_lt; omega)
      (show f.payload.length ≤ payloadCap by have := f.payload_le; omega) rest
    rw [htopicEq, hpayloadEq] at hread
    rw [hbytes, readIpcDeliver, if_neg (by simp only [bcMaxTopicLen] at htopicCap; omega)]
    exact hread

/-- A client without anything in its buffers. -/
def idleClient (fd : ℤ) : BcClient := ⟨fd, [], [], 0, [], none, 0⟩

/-- A reading of a sensor, and a subscription to all of them. -/
theorem ipc_round_trip_wildcard :
    ∃ subscribe publish msg,
      buildIpcFrame bcClientFrameMax bcIpcSubscribe none (some [116, 46, 42]) [] none =
        .ok subscribe ∧
      buildIpcFrame bcClientFrameMax bcIpcPublish (some [99]) (some [116, 46, 97]) [1, 2]
        (some ⟨0, 1, 0⟩) = .ok publish ∧
      Passes noSend quietEnv (idleClient 4) (idleClient 5) [99] [116, 46, 97]
        [1, 2] [116, 46, 42] (some ⟨0, 1, 0⟩) subscribe publish msg :=
  ipc_round_trip noSend quietEnv (idleClient 4) (idleClient 5) (by decide)
    (some ⟨0, 1, 0⟩) (by decide) ⟨by decide, by decide, by decide⟩ (by decide)
    ⟨by decide, by decide, by decide⟩ (by decide)

end BoardComm
