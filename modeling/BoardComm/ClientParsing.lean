import BoardComm.ClientFanout

/-!
# Taking frames out of a receive buffer

The checks of `process_one_message` and `process_frame_buffer` decide what is
handed to `process_ipc_payload`: nothing, or the parts of a well-formed frame at
the head of the buffer, which make up one request of the client.
-/
namespace BoardComm

section Checks

/-- What `process_frame_buffer` hands to `process_ipc_payload`. -/
structure Dispatch where
  header : IpcHeader
  channel : List UInt8
  topic : List UInt8
  payload : List UInt8
  deriving DecidableEq, Repr

/-- The limits of `process_frame_buffer` on the parts of a frame. -/
def IpcHeader.Fits (h : IpcHeader) : Prop :=
  h.channelLen.toNat < bcMaxChannelLen ∧ h.topicLen.toNat ≠ 0 ∧
    h.topicLen.toNat < bcMaxTopicLen ∧ h.payloadLen.toNat ≤ bcMaxPayloadLen

instance (h : IpcHeader) : Decidable h.Fits := by
  unfold IpcHeader.Fits
  infer_instance

/-- The length of the whole frame. -/
def IpcHeader.frameLen (h : IpcHeader) : ℕ := h.total (bcIpcHeaderSize h.version)

/-- The parts of a frame. -/
def IpcHeader.parts (h : IpcHeader) (data : List UInt8) : Dispatch :=
  let frame := data.drop (bcIpcHeaderSize h.version)
  ⟨h, frame.take h.channelLen.toNat, (frame.drop h.channelLen.toNat).take h.topicLen.toNat,
    (frame.drop (h.channelLen.toNat + h.topicLen.toNat)).take h.payloadLen.toNat⟩

/-- The header at the head of the receive buffer. -/
def BcClient.header (client : BcClient) : IpcHeader :=
  IpcHeader.ofBytes (client.rx ++ client.stale)

/-- What is dispatched of a receive buffer, or why nothing is. -/
def headDispatch (client : BcClient) : Except BcStatus Dispatch :=
  if client.rx.length < IpcHeader.sizeV1 then .error .notFound
  else if client.header.magic ≠ bcIpcMagic then .error .invalid
  else if client.rx.length < client.header.frameLen then .error .notFound
  else if client.header.Fits then .ok (client.header.parts (client.rx ++ client.stale))
  else .error .invalid

variable {ν : Type*} (send : ℕ → List UInt8 → ν → BcStatus × ν) (env : ClientEnv)
  (m : ClientManager ν) (client : BcClient)

/-- `process_ipc_payload`, on what it is handed. -/
def handleDispatch (d : Dispatch) : BcStatus × ClientManager ν :=
  processIpcPayload send env m client d.header d.channel d.topic d.payload

theorem IpcHeader.sizeV1_le_frameLen (h : IpcHeader) : sizeV1 ≤ h.frameLen := by
  have hsize := sizeV1_le_bcIpcHeaderSize h.version
  unfold frameLen total
  omega

theorem IpcHeader.Fits.frameLen_le {h : IpcHeader} (hfits : h.Fits) :
    h.frameLen ≤ bcClientFrameMax := by
  obtain ⟨hchannel, -, htopic, hpayload⟩ := hfits
  have hsize : bcIpcHeaderSize h.version ≤ size := by
    unfold bcIpcHeaderSize
    split
    · exact le_refl _
    · decide
  unfold frameLen total bcClientFrameMax
  omega

theorem processFrameBuffer_frameLen {data : List UInt8}
    (hmagic : (IpcHeader.ofBytes data).magic = bcIpcMagic) :
    processFrameBuffer send env m client data (IpcHeader.ofBytes data).frameLen =
      if (IpcHeader.ofBytes data).Fits then
        handleDispatch send env m client ((IpcHeader.ofBytes data).parts data)
      else (.invalid, m) := by
  have hlen := (IpcHeader.ofBytes data).sizeV1_le_frameLen
  have hsize : bcIpcHeaderSize (IpcHeader.ofBytes data).version ≤
      (IpcHeader.ofBytes data).frameLen := by
    unfold IpcHeader.frameLen IpcHeader.total
    omega
  unfold processFrameBuffer
  rw [if_neg (by omega)]
  dsimp only
  rw [if_neg (not_not.mpr hmagic), if_neg (by omega)]
  by_cases hfits : (IpcHeader.ofBytes data).Fits
  · rw [if_pos hfits]
    have hbad : ¬ ((IpcHeader.ofBytes data).channelLen.toNat ≥ bcMaxChannelLen ∨
        (IpcHeader.ofBytes data).topicLen.toNat = 0 ∨
        (IpcHeader.ofBytes data).topicLen.toNat ≥ bcMaxTopicLen ∨
        (IpcHeader.ofBytes data).payloadLen.toNat > bcMaxPayloadLen) := by
      obtain ⟨hchannel, hpos, htopic, hpayload⟩ := hfits
      omega
    rw [if_neg hbad, if_neg]
    · rfl
    · exact lt_irrefl _
  · rw [if_neg hfits, if_pos]
    unfold IpcHeader.Fits at hfits
    omega

theorem processOneMessage_eq :
    processOneMessage send env m client =
      match headDispatch client with
      | .error rc => (rc, m)
      | .ok d =>
        if (handleDispatch send env m client d).1 = .ok then
          (.ok, consumeFrame (handleDispatch send env m client d).2 client.fd
            client.header.frameLen)
        else handleDispatch send env m client d := by
  unfold processOneMessage headDispatch
  by_cases hshort : client.rx.length < IpcHeader.sizeV1
  · rw [if_pos hshort, if_pos hshort]
  rw [if_neg hshort, if_neg hshort]
  change (if client.header.magic ≠ bcIpcMagic then (BcStatus.invalid, m)
    else if client.header.frameLen > bcClientFrameMax ∨
        client.rx.length < client.header.frameLen then
      (if client.rx.length < client.header.frameLen then .notFound else .invalid, m)
    else
      if (processFrameBuffer send env m client (client.rx ++ client.stale)
          client.header.frameLen).1 = .ok then
        (.ok, consumeFrame (processFrameBuffer send env m client (client.rx ++ client.stale)
          client.header.frameLen).2 client.fd client.header.frameLen)
      else processFrameBuffer send env m client (client.rx ++ client.stale)
        client.header.frameLen) = _
  by_cases hmagic : client.header.magic = bcIpcMagic
  · rw [if_neg (not_not.mpr hmagic), if_neg (not_not.mpr hmagic)]
    by_cases hlen : client.rx.length < client.header.frameLen
    · simp only [hlen, or_true, if_true]
    · simp only [hlen, or_false, if_false]
      by_cases hfits : client.header.Fits
      · rw [if_neg (Nat.not_lt.mpr hfits.frameLen_le), if_pos hfits]
        rw [BcClient.header, processFrameBuffer_frameLen send env m client hmagic,
          ← BcClient.header, if_pos hfits]
      · rw [if_neg hfits]
        split
        · rfl
        · rw [BcClient.header, processFrameBuffer_frameLen send env m client hmagic,
            ← BcClient.header, if_neg hfits]
          rfl
  · rw [if_pos hmagic, if_pos hmagic]

end Checks

section Frames

/-- A complete well-formed frame stands at the head of the bytes. -/
def HasFrame (rx : List UInt8) : Prop := ∃ (f : IpcFrame) (rest : List UInt8), rx = f.bytes ++ rest

/-- What is dispatched of a frame. -/
def IpcFrame.dispatch (f : IpcFrame) : Dispatch := ⟨f.header, f.channel, f.topic, f.payload⟩

/-- Two dispatches that `process_ipc_payload` treats alike: fields that the version
lacks may differ. -/
structure Dispatch.Same (d d' : Dispatch) : Prop where
  agrees : d.header.AgreesV1 d'.header
  whole : d.header.version ≥ bcIpcVersion → d'.header = d.header
  channel : d'.channel = d.channel
  topic : d'.topic = d.topic
  payload : d'.payload = d.payload

variable {ν : Type*} {send : ℕ → List UInt8 → ν → BcStatus × ν} {env : ClientEnv}
  {m : ClientManager ν} {client : BcClient} {f : IpcFrame} {rest : List UInt8} {d d' : Dispatch}

theorem IpcFrame.fits (f : IpcFrame) : f.header.Fits := by
  unfold IpcHeader.Fits
  rw [f.channelLen_toNat, f.topicLen_toNat, f.payloadLen_toNat]
  exact ⟨f.channel_lt, f.topic_pos.ne', f.topic_lt, f.payload_le⟩

theorem IpcHeader.AgreesV1.frameLen {h h' : IpcHeader} (hagrees : h.AgreesV1 h') :
    h'.frameLen = h.frameLen := by
  unfold IpcHeader.frameLen total
  rw [hagrees.version, hagrees.channelLen, hagrees.topicLen, hagrees.payloadLen]

theorem IpcHeader.AgreesV1.fits_iff {h h' : IpcHeader} (hagrees : h.AgreesV1 h') :
    h'.Fits ↔ h.Fits := by
  unfold IpcHeader.Fits
  rw [hagrees.channelLen, hagrees.topicLen, hagrees.payloadLen]

/-- A frame at the head of the buffer is dispatched with its own parts. -/
theorem headDispatch_frame (hrx : client.rx = f.bytes ++ rest) :
    ∃ d, headDispatch client = .ok d ∧ f.dispatch.Same d ∧
      client.header.frameLen = f.bytes.length := by
  have hmemory : client.rx ++ client.stale = f.bytes ++ (rest ++ client.stale) := by
    rw [hrx, List.append_assoc]
  obtain ⟨hagrees, hwhole⟩ := f.ofBytes_bytes (rest ++ client.stale)
  rw [← hmemory] at hagrees hwhole
  have hframeLen : client.header.frameLen = f.bytes.length :=
    hagrees.frameLen.trans f.total_header
  have hlen : f.bytes.length ≤ client.rx.length := by
    rw [hrx, List.length_append]
    omega
  have hshort := client.header.sizeV1_le_frameLen
  have hdrop : (client.rx ++ client.stale).drop (bcIpcHeaderSize f.version) =
      f.channel ++ (f.topic ++ (f.payload ++ (rest ++ client.stale))) := by
    rw [hmemory, IpcFrame.bytes, List.append_assoc, List.drop_left' f.header_take_length]
    simp only [List.append_assoc]
  have hversion : client.header.version = f.version := hagrees.version
  have hchannelLen : client.header.channelLen.toNat = f.channel.length := by
    rw [← f.channelLen_toNat]
    exact congrArg UInt16.toNat hagrees.channelLen
  have htopicLen : client.header.topicLen.toNat = f.topic.length := by
    rw [← f.topicLen_toNat]
    exact congrArg UInt16.toNat hagrees.topicLen
  have hpayloadLen : client.header.payloadLen.toNat = f.payload.length := by
    rw [← f.payloadLen_toNat]
    exact congrArg UInt32.toNat hagrees.payloadLen
  refine ⟨client.header.parts (client.rx ++ client.stale), ?_, ?_, hframeLen⟩
  · unfold headDispatch
    have hmagic : client.header.magic = bcIpcMagic := hagrees.magic
    have hfits : client.header.Fits := hagrees.fits_iff.mpr f.fits
    rw [if_neg (by omega), if_neg (not_not.mpr hmagic), if_neg (by omega), if_pos hfits]
  · refine ⟨hagrees, hwhole, ?_, ?_, ?_⟩
    · simp only [IpcHeader.parts, hversion, hdrop, hchannelLen, List.take_left]
      rfl
    · simp only [IpcHeader.parts, hversion, hdrop, hchannelLen, htopicLen, List.drop_left,
        List.take_left]
      rfl
    · simp only [IpcHeader.parts, hversion, hdrop, hchannelLen, htopicLen, hpayloadLen,
        ← List.drop_drop, List.drop_left, List.take_left]
      rfl

/-- Bytes that begin with a header within the limits, and go on for as long as it
announces, begin with a frame. -/
theorem exists_frame {h : IpcHeader} {rx : List UInt8} (hmagic : h.magic = bcIpcMagic)
    (hfits : h.Fits) (hlen : h.frameLen ≤ rx.length)
    (hfront : h.toBytes.take (bcIpcHeaderSize h.version) = rx.take (bcIpcHeaderSize h.version)) :
    ∃ (f : IpcFrame) (rest : List UInt8), rx = f.bytes ++ rest ∧ f.dispatch = h.parts rx := by
  obtain ⟨hchannel, hpos, htopic, hpayload⟩ := hfits
  have hrx : rx.length ≥ bcIpcHeaderSize h.version + h.channelLen.toNat + h.topicLen.toNat +
      h.payloadLen.toNat := hlen
  have hclen : (h.parts rx).channel.length = h.channelLen.toNat := by
    simp only [IpcHeader.parts, List.length_take, List.length_drop]
    omega
  have htlen : (h.parts rx).topic.length = h.topicLen.toNat := by
    simp only [IpcHeader.parts, List.length_take, List.length_drop]
    omega
  have hplen : (h.parts rx).payload.length = h.payloadLen.toNat := by
    simp only [IpcHeader.parts, List.length_take, List.length_drop]
    omega
  have htopic_ne : (h.parts rx).topic ≠ [] := by
    intro hnil
    rw [hnil] at htlen
    exact hpos htlen.symm
  let f : IpcFrame :=
    { version := h.version, type := h.type, dstNode := h.dstNode, qos := h.qos, flags := h.flags,
      seq := h.seq, channel := (h.parts rx).channel, topic := (h.parts rx).topic,
      payload := (h.parts rx).payload, channel_lt := by omega, topic_ne := htopic_ne,
      topic_lt := by omega, payload_le := by omega }
  have hheader : f.header = h := by
    simp only [IpcFrame.header, f, hclen, htlen, hplen, UInt16.ofNat_toNat, UInt32.ofNat_toNat,
      ← hmagic]
  refine ⟨f, (rx.drop (bcIpcHeaderSize h.version)).drop
    (h.channelLen.toNat + h.topicLen.toNat + h.payloadLen.toNat), ?_, ?_⟩
  · have hbytes : f.bytes = rx.take (bcIpcHeaderSize h.version) ++
        ((h.parts rx).channel ++ ((h.parts rx).topic ++ (h.parts rx).payload)) := by
      have hfrontf : f.header.toBytes.take (bcIpcHeaderSize f.version) =
          rx.take (bcIpcHeaderSize h.version) := by
        rw [hheader]
        exact hfront
      rw [IpcFrame.bytes, hfrontf]
    have hbody : ∀ (body : List UInt8) (c t p : ℕ),
        body = body.take c ++ ((body.drop c).take t ++ ((body.drop (c + t)).take p ++
          body.drop (c + t + p))) := by
      intro body c t p
      rw [← List.drop_drop, ← List.drop_drop, ← List.drop_drop, List.take_append_drop,
        List.take_append_drop, List.take_append_drop]
    rw [hbytes]
    simp only [IpcHeader.parts, List.append_assoc]
    rw [← hbody, List.take_append_drop]
  · rw [IpcFrame.dispatch, hheader]
    rfl

/-- The bytes of the header that was read. -/
theorem header_front (hlen : client.header.frameLen ≤ client.rx.length) :
    client.header.toBytes.take (bcIpcHeaderSize client.header.version) =
      client.rx.take (bcIpcHeaderSize client.header.version) := by
  have hsize := sizeV1_le_bcIpcHeaderSize client.header.version
  have hrx : bcIpcHeaderSize client.header.version ≤ client.rx.length := by
    unfold IpcHeader.frameLen IpcHeader.total at hlen
    omega
  have hfront : (client.rx ++ client.stale).take (bcIpcHeaderSize client.header.version) =
      client.rx.take (bcIpcHeaderSize client.header.version) :=
    List.take_append_of_le_length hrx
  rw [← hfront]
  have hmemory : bcIpcHeaderSize client.header.version ≤
      (client.rx ++ client.stale).length := by
    rw [List.length_append]
    omega
  unfold bcIpcHeaderSize at hmemory ⊢
  split at hmemory
  · next hnew =>
    rw [if_pos hnew, BcClient.header, IpcHeader.toBytes_ofBytes _ hmemory, List.take_take,
      Nat.min_self]
  · next hold =>
    rw [if_neg hold]
    exact IpcHeader.toBytes_ofBytes_take _ hmemory

/-- The parts are cut out of the received bytes. -/
theorem parts_append {h : IpcHeader} {rx : List UInt8} (hlen : h.frameLen ≤ rx.length)
    (stale : List UInt8) : h.parts (rx ++ stale) = h.parts rx := by
  have hrx : rx.length ≥ bcIpcHeaderSize h.version + h.channelLen.toNat + h.topicLen.toNat +
      h.payloadLen.toNat := hlen
  have hcut : ∀ k n : ℕ, k + n ≤ rx.length →
      ((rx ++ stale).drop k).take n = (rx.drop k).take n := by
    intro k n hkn
    rw [List.drop_append_of_le_length (by omega), List.take_append_of_le_length]
    rw [List.length_drop]
    omega
  simp only [IpcHeader.parts, List.drop_drop]
  rw [hcut _ _ (by omega), hcut _ _ (by omega), hcut _ _ (by omega)]

/-- Only a frame at the head of the buffer is dispatched. -/
theorem hasFrame_of_headDispatch (h : headDispatch client = .ok d) :
    ∃ (f : IpcFrame) (rest : List UInt8), client.rx = f.bytes ++ rest ∧ d = f.dispatch := by
  unfold headDispatch at h
  split_ifs at h with hshort hmagic hlen hfits
  have hd : client.header.parts (client.rx ++ client.stale) = d := by simpa using h
  have hle : client.header.frameLen ≤ client.rx.length := Nat.not_lt.mp hlen
  obtain ⟨f, rest, hrx, hparts⟩ := exists_frame (not_not.mp hmagic) hfits hle (header_front hle)
  refine ⟨f, rest, hrx, ?_⟩
  rw [← hd, parts_append hle, hparts]

theorem hasFrame_iff : HasFrame client.rx ↔ ∃ d, headDispatch client = .ok d := by
  constructor
  · rintro ⟨f, rest, hrx⟩
    obtain ⟨d, hd, -⟩ := headDispatch_frame hrx
    exact ⟨d, hd⟩
  · rintro ⟨d, hd⟩
    obtain ⟨f, rest, hrx, -⟩ := hasFrame_of_headDispatch hd
    exact ⟨f, rest, hrx⟩

/-- The header that the code reads, with whatever stands behind the bytes. -/
theorem header_agrees (h : IpcHeader.sizeV1 ≤ client.rx.length) :
    (IpcHeader.ofBytes client.rx).AgreesV1 client.header :=
  IpcHeader.ofBytes_append_agrees h client.stale

/-- More bytes are waited for when the header, or what it announces, is not whole. -/
theorem headDispatch_waits_iff :
    headDispatch client = .error .notFound ↔ client.rx.length < IpcHeader.sizeV1 ∨
      (IpcHeader.ofBytes client.rx).magic = bcIpcMagic ∧
        client.rx.length < (IpcHeader.ofBytes client.rx).frameLen := by
  unfold headDispatch
  by_cases hshort : client.rx.length < IpcHeader.sizeV1
  · simp only [hshort, if_true, true_or]
  · have hagrees := header_agrees (Nat.not_lt.mp hshort)
    rw [if_neg hshort, hagrees.magic, hagrees.frameLen]
    by_cases hmagic : (IpcHeader.ofBytes client.rx).magic = bcIpcMagic
    · rw [if_neg (not_not.mpr hmagic)]
      by_cases hlen : client.rx.length < (IpcHeader.ofBytes client.rx).frameLen
      · simp only [hlen, hmagic, if_true, and_self, or_true]
      · rw [if_neg hlen]
        refine iff_of_false ?_ fun h => ?_
        · split <;> simp
        · exact h.elim hshort fun h => hlen h.2
    · rw [if_pos hmagic]
      exact iff_of_false (by simp) fun h => h.elim hshort fun h => hmagic h.1

end Frames

section Requests

/-- What a client asks for with a frame. -/
inductive ClientRequest
  | subscribe (topic : List UInt8)
  | publish (msg : BcMessage)
  | stats
  | setup
  | kick
  | unknown
  deriving DecidableEq, Repr

/-- The branch of `process_ipc_payload` that is taken, with what it reads. -/
def Dispatch.request (d : Dispatch) : ClientRequest :=
  if d.header.type = bcIpcSubscribe then .subscribe (CBuffer.cstr d.topic)
  else if d.header.type = bcIpcPublish then
    .publish (publishedMessage d.header d.channel d.topic d.payload)
  else if d.header.type = bcIpcStats then .stats
  else if d.header.type = bcIpcShmSetup then .setup
  else if d.header.type = bcIpcShmKick then .kick
  else .unknown

variable {ν : Type*} (send : ℕ → List UInt8 → ν → BcStatus × ν) (env : ClientEnv)
  (m : ClientManager ν) (client : BcClient)

/-- The attempt that is made for a message. -/
def attemptOf (msg : BcMessage) : Attempt ν :=
  ⟨client.fd, client.consumed, msg, m.bus, m.clients, m.transports, env.watch,
    (bcMessageBusPublish (deliverToClient env.watch) send m.bus client.fd msg m.clients
      m.transports).1⟩

/-- The queue of the client takes a reply of `send_stats_reply`. -/
def StatsRoom : Prop :=
  client.tx.length + IpcHeader.size + 88 ≤ bcClientTxCap ∧ env.watch client.fd = true

/-- The request is answered with a status other than success and backpressure. -/
def ClientRequest.Answers (rc : BcStatus) : ClientRequest → Prop
  | .subscribe _ => False
  | .publish msg => (attemptOf send env m client msg).Answers send rc
  | .stats => rc = .io ∧ ¬ StatsRoom env client
  | .setup => rc = .io ∧ env.setup client.fd = none
  | .kick => False
  | .unknown => rc = .invalid

theorem sendStatsReply_rc (client : BcClient) :
    ((sendStatsReply (env.watch client.fd) m.bus.stats client).1 = .ok ↔ StatsRoom env client) ∧
      (¬ StatsRoom env client →
        (sendStatsReply (env.watch client.fd) m.bus.stats client).1 = .io) := by
  have hheaderLen : statsHeader.toBytes.length = IpcHeader.size := IpcHeader.toBytes_length _
  have hbodyLen : m.bus.stats.toBytes.length = 88 := by simp [BcStats.toBytes]
  have hheaderFits : statsHeader.toBytes.length ≤ bcClientTxCap := by
    rw [hheaderLen]
    decide
  have hbodyFits : m.bus.stats.toBytes.length ≤ bcClientTxCap := by
    rw [hbodyLen]
    decide
  obtain ⟨hfirst, htx⟩ := enqueueClientTx_eq (env.watch client.fd) client hheaderFits
  obtain ⟨hsecond, -⟩ := enqueueClientTx_eq (env.watch client.fd)
    (enqueueClientTx (env.watch client.fd) client statsHeader.toBytes).2 hbodyFits
  rw [hheaderLen] at hfirst htx
  rw [htx, hbodyLen] at hsecond
  unfold sendStatsReply StatsRoom
  dsimp only
  rw [hfirst, hsecond]
  by_cases hroom : client.tx.length + IpcHeader.size ≤ bcClientTxCap
  · simp only [if_pos hroom, List.length_append, hheaderLen]
    cases env.watch client.fd with
    | false => simp [watchStatus]
    | true =>
      by_cases hbody : client.tx.length + IpcHeader.size + 88 ≤ bcClientTxCap
      · simp [watchStatus, hbody]
      · simp [watchStatus, hbody]
  · have hbody : ¬ client.tx.length + IpcHeader.size + 88 ≤ bcClientTxCap := by omega
    simp [hroom, hbody]

/-- `process_ipc_payload`, on what it is asked for. -/
def handleRequest : ClientRequest → BcStatus × ClientManager ν
  | .subscribe topic => (.ok, { m with bus := (bcMessageBusSubscribe m.bus client.fd topic).2 })
  | .publish msg => publishFrame send env m client msg
  | .stats =>
    let r := sendStatsReply (env.watch client.fd) m.bus.stats client
    (r.1, { m with clients := setClient m.clients r.2 })
  | .setup =>
    match env.setup client.fd with
    | none => (.io, m)
    | some session => (.ok, { m with clients := setClient m.clients { client with shm := session } })
  | .kick => (.ok, m)
  | .unknown => (.invalid, m)

/-- Nothing but the request decides what is done with a dispatch. -/
theorem handleDispatch_eq (d : Dispatch) :
    handleDispatch send env m client d = handleRequest send env m client d.request := by
  unfold handleDispatch processIpcPayload Dispatch.request
  split_ifs <;> rfl

/-- The message that is published carries at most what the limits allow. -/
theorem Dispatch.payloadLen_of_request {d : Dispatch} {msg : BcMessage}
    (hlen : d.header.payloadLen.toNat ≤ bcMaxPayloadLen) (h : d.request = .publish msg) :
    msg.payloadLen ≤ bcMaxPayloadLen := by
  unfold Dispatch.request at h
  split_ifs at h
  obtain rfl := ClientRequest.publish.inj h
  unfold publishedMessage
  split <;> exact hlen

/-- Where a status other than success and backpressure comes from. -/
theorem handleDispatch_rc_iff {d : Dispatch} (hlen : d.header.payloadLen.toNat ≤ bcMaxPayloadLen)
    {rc : BcStatus} (hok : rc ≠ .ok) (hnomem : rc ≠ .nomem) :
    (handleDispatch send env m client d).1 = rc ↔
      d.request.Answers send env m client rc := by
  rw [handleDispatch_eq]
  cases hrequest : d.request with
  | subscribe topic => exact iff_of_false (Ne.symm hok) id
  | publish msg =>
    exact Attempt.replay_rc_iff send (a := attemptOf send env m client msg)
      (Dispatch.payloadLen_of_request hlen hrequest) hok hnomem
  | stats =>
    obtain ⟨hreply, hfull⟩ := sendStatsReply_rc env m client
    change _ = rc ↔ rc = .io ∧ ¬ StatsRoom env client
    by_cases hroom : StatsRoom env client
    · exact iff_of_false (fun h => hok (h.symm.trans (hreply.mpr hroom))) fun h => h.2 hroom
    · rw [handleRequest, hfull hroom]
      exact ⟨fun h => ⟨h.symm, hroom⟩, fun h => h.1.symm⟩
  | setup =>
    change _ ↔ rc = .io ∧ env.setup client.fd = none
    unfold handleRequest
    cases env.setup client.fd with
    | none => simp [eq_comm]
    | some session => exact iff_of_false (Ne.symm hok) fun h => by cases h.2
  | kick => exact iff_of_false (Ne.symm hok) id
  | unknown => exact eq_comm

/-- Requests of dispatches that are treated alike. -/
theorem Dispatch.Same.request {d d' : Dispatch} (h : d.Same d') : d'.request = d.request := by
  have hmsg : publishedMessage d'.header d'.channel d'.topic d'.payload =
      publishedMessage d.header d.channel d.topic d.payload := by
    rw [h.channel, h.topic, h.payload]
    by_cases hversion : d.header.version ≥ bcIpcVersion
    · rw [h.whole hversion]
    · have hversion' : ¬ d'.header.version ≥ bcIpcVersion := by
        rw [h.agrees.version]
        exact hversion
      simp only [publishedMessage, h.agrees.payloadLen, if_neg hversion, if_neg hversion']
  unfold Dispatch.request
  rw [hmsg, h.agrees.type, h.topic]

/-- The payload of what is dispatched is within the limit. -/
theorem payloadLen_of_headDispatch {client : BcClient} {d : Dispatch}
    (h : headDispatch client = .ok d) : d.header.payloadLen.toNat ≤ bcMaxPayloadLen := by
  unfold headDispatch at h
  split_ifs at h with hshort hmagic hlen hfits
  have hd : client.header.parts (client.rx ++ client.stale) = d := by simpa using h
  rw [← hd]
  exact hfits.2.2.2

end Requests

end BoardComm
