import BoardComm.ClientDraining

/-!
# The client side of the protocol

What a client writes to the daemon and reads from it. A string argument is given
by the bytes at its pointer, and there is none where the pointer is null. A handle
carries the frames that were written to its socket and to its ring, as history.
-/
namespace BoardComm

/-- `bc_publish_opts_t`. -/
structure BcPublishOpts where
  dstNode : UInt32
  qos : UInt16
  flags : UInt16
  deriving DecidableEq, Repr

section Building

/-- The length of the channel that is sent; an empty channel is none. -/
def sdkChannelLen (channel : Option (List UInt8)) : ℕ :=
  match channel with
  | none => 0
  | some channel => CBuffer.strnlen channel bcMaxChannelLen

/-- `build_ipc_frame`. -/
def buildIpcFrame (frameCap : ℕ) (type : UInt16) (channel topic : Option (List UInt8))
    (payload : List UInt8) (opts : Option BcPublishOpts) : Except BcStatus (List UInt8) :=
  match topic with
  | none => .error .invalid
  | some topic =>
    let topicLen := CBuffer.strnlen topic bcMaxTopicLen
    let channelLen := sdkChannelLen channel
    if CBuffer.cstr topic = [] then .error .invalid
    else if payload.length > bcMaxPayloadLen then .error .invalid
    else if topicLen = 0 ∨ topicLen ≥ bcMaxTopicLen then .error .invalid
    else if channelLen ≥ bcMaxChannelLen then .error .invalid
    else
      let header := { IpcHeader.zero with
        magic := bcIpcMagic, version := bcIpcVersion, type := type,
        topicLen := .ofNat topicLen, channelLen := .ofNat channelLen,
        payloadLen := .ofNat payload.length }
      let header := match opts with
        | none => header
        | some opts => { header with dstNode := opts.dstNode, qos := opts.qos, flags := opts.flags }
      if IpcHeader.size + channelLen + topicLen + payload.length > frameCap then .error .invalid
      else
        .ok (header.toBytes ++ (channel.getD []).take channelLen ++ topic.take topicLen ++ payload)

/-- The header of a control frame. -/
def controlHeader (type : UInt16) : IpcHeader :=
  { IpcHeader.zero with magic := bcIpcMagic, version := bcIpcVersion, type := type }

end Building

section Calls

/-- A connected handle: another handle is the global one, the ring of the global
session is ready, and the writes to the socket and to the ring. -/
structure SdkHandle where
  foreign : Bool
  shmReady : Bool
  written : List (List UInt8)
  ring : List (List UInt8)
  deriving DecidableEq, Repr

/-- What the system and the daemon answer during a call: to each `write_all` the
number of bytes after which it fails, if it does; to each `bc_shm_ring_write` a
status; whether the reply comes, and whether the session can be attached. -/
structure SdkAnswers where
  writes : List (Option ℕ)
  ring : List BcStatus
  reply : Bool
  attach : Bool
  deriving DecidableEq, Repr

/-- `write_all`. -/
def sdkWriteAll (answer : Option ℕ) (h : SdkHandle) (data : List UInt8) : BcStatus × SdkHandle :=
  match answer with
  | none => (.ok, { h with written := h.written ++ [data] })
  | some n => (.io, { h with written := h.written ++ [data.take n] })

/-- `send_shm_kick`. -/
def sendShmKick (answer : Option ℕ) (h : SdkHandle) : BcStatus × SdkHandle :=
  sdkWriteAll answer h (controlHeader bcIpcShmKick).toBytes

/-- The loop of `shm_write_frame`. The result of a kick is ignored. -/
def shmWriteLoop (frame : List UInt8) :
    ℕ → List BcStatus → List (Option ℕ) → SdkHandle → BcStatus × List (Option ℕ) × SdkHandle
  | 0, _, writes, h => (.nomem, writes, h)
  | rounds + 1, ring, writes, h =>
    match ring.headD .nomem with
    | .nomem =>
      shmWriteLoop frame rounds ring.tail writes.tail (sendShmKick (writes.headD none) h).2
    | .ok => (.ok, writes, { h with ring := h.ring ++ [frame] })
    | rc => (rc, writes, h)

/-- `shm_write_frame`. -/
def shmWriteFrame (answers : SdkAnswers) (h : SdkHandle) (frame : List UInt8) :
    BcStatus × SdkHandle :=
  match shmWriteLoop frame 10000 answers.ring answers.writes h with
  | (.ok, writes, h) => sendShmKick (writes.headD none) h
  | (rc, _, h) => (rc, h)

/-- `send_ipc_message`. -/
def sendIpcMessage (answers : SdkAnswers) (h : SdkHandle) (type : UInt16)
    (channel topic : Option (List UInt8)) (payload : List UInt8) (opts : Option BcPublishOpts) :
    BcStatus × SdkHandle :=
  match buildIpcFrame bcClientFrameMax type channel topic payload opts with
  | .error rc => (rc, h)
  | .ok frame =>
    if h.shmReady = true then shmWriteFrame answers h frame
    else sdkWriteAll (answers.writes.headD none) h frame

/-- `bc_write`. -/
def bcWrite (answers : SdkAnswers) (h : SdkHandle) (topic : Option (List UInt8))
    (payload : List UInt8) : BcStatus × SdkHandle :=
  sendIpcMessage answers h bcIpcPublish none topic payload none

/-- `bc_write_ex`. -/
def bcWriteEx (answers : SdkAnswers) (h : SdkHandle) (channel topic : Option (List UInt8))
    (payload : List UInt8) (opts : Option BcPublishOpts) : BcStatus × SdkHandle :=
  sendIpcMessage answers h bcIpcPublish channel topic payload opts

/-- `bc_subscribe_fd`. -/
def bcSubscribeFd (answers : SdkAnswers) (h : SdkHandle) (topic : Option (List UInt8)) :
    BcStatus × SdkHandle :=
  sendIpcMessage answers h bcIpcSubscribe none topic [] none

/-- A control frame that is answered by a reply. -/
def sendControl (answers : SdkAnswers) (h : SdkHandle) (type : UInt16) : BcStatus × SdkHandle :=
  let sent := sdkWriteAll (answers.writes.headD none) h (controlHeader type).toBytes
  if sent.1 ≠ .ok then (.io, sent.2)
  else if answers.reply = false then (.io, sent.2)
  else (.ok, sent.2)

/-- `bc_enable_shm`. A handle becomes the global one if there is none. -/
def bcEnableShm (answers : SdkAnswers) (h : SdkHandle) : BcStatus × SdkHandle :=
  if h.foreign = true then (.invalid, h)
  else
    let r := sendControl answers h bcIpcShmSetup
    if r.1 ≠ .ok then r
    else if answers.attach = false then (.io, { r.2 with shmReady := false })
    else (.ok, { r.2 with shmReady := true })

/-- `bc_context_enable_shm`. The session belongs to the context: the calls on the
handle do not use it. -/
def bcContextEnableShm (answers : SdkAnswers) (h : SdkHandle) : BcStatus × SdkHandle :=
  let r := sendControl answers h bcIpcShmSetup
  if r.1 ≠ .ok then r
  else if answers.attach = false then (.io, r.2)
  else (.ok, r.2)

/-- `bc_get_stats`. -/
def bcGetStats (answers : SdkAnswers) (h : SdkHandle) : BcStatus × SdkHandle :=
  sendControl answers h bcIpcStats

/-- A call on a handle. -/
inductive SdkCall
  | write (topic : Option (List UInt8)) (payload : List UInt8)
  | writeEx (channel topic : Option (List UInt8)) (payload : List UInt8)
      (opts : Option BcPublishOpts)
  | subscribeFd (topic : Option (List UInt8))
  | enableShm
  | contextEnableShm
  | getStats
  deriving DecidableEq, Repr

def SdkHandle.call (h : SdkHandle) (c : SdkCall × SdkAnswers) : BcStatus × SdkHandle :=
  match c.1 with
  | .write topic payload => bcWrite c.2 h topic payload
  | .writeEx channel topic payload opts => bcWriteEx c.2 h channel topic payload opts
  | .subscribeFd topic => bcSubscribeFd c.2 h topic
  | .enableShm => bcEnableShm c.2 h
  | .contextEnableShm => bcContextEnableShm c.2 h
  | .getStats => bcGetStats c.2 h

def SdkHandle.step (h : SdkHandle) (c : SdkCall × SdkAnswers) : SdkHandle := (h.call c).2

end Calls

section Reading

/-- What `poll` answers to a reader. -/
inductive PollAnswer
  | timeout
  | error
  | readable
  deriving DecidableEq, Repr

/-- What `read_ipc_deliver` stores: a topic, unless it read a STATS reply, and a
payload. -/
structure SdkRead where
  topic : Option (List UInt8)
  payload : List UInt8
  deriving DecidableEq, Repr

/-- `read_all`, on what the peer will send. -/
def sdkReadAll (n : ℕ) (stream : List UInt8) : Option (List UInt8 × List UInt8) :=
  if stream.length < n then none else some (stream.take n, stream.drop n)

/-- The socket half of `read_ipc_deliver`: the result, and what is left of the
stream after a success. -/
def readIpcDeliverSocket (topicCap payloadCap : ℕ) (poll : PollAnswer) (stream : List UInt8) :
    Except BcStatus (SdkRead × List UInt8) :=
  match poll with
  | .timeout => .error .timeout
  | .error => .error .io
  | .readable =>
    match sdkReadAll IpcHeader.size stream with
    | none => .error .io
    | some (data, stream) =>
      let header := IpcHeader.ofBytes data
      if header.magic ≠ bcIpcMagic then .error .io
      else if header.type = bcIpcStats then
        match sdkReadAll header.payloadLen.toNat stream with
        | none => .error .io
        | some (payload, stream) => .ok (⟨none, payload⟩, stream)
      else if header.type ≠ bcIpcDeliver then .error .io
      else if header.channelLen.toNat ≥ bcMaxChannelLen ∨ header.topicLen = 0 ∨
          header.topicLen.toNat ≥ bcMaxTopicLen ∨ header.payloadLen.toNat > bcMaxPayloadLen ∨
          topicCap ≤ header.topicLen.toNat ∨ payloadCap < header.payloadLen.toNat then .error .io
      else
        match sdkReadAll header.channelLen.toNat stream with
        | none => .error .io
        | some (_, stream) =>
          match sdkReadAll header.topicLen.toNat stream with
          | none => .error .io
          | some (topic, stream) =>
            match sdkReadAll header.payloadLen.toNat stream with
            | none => .error .io
            | some (payload, stream) => .ok (⟨some topic, payload⟩, stream)

/-- The `parse_frame` half of `read_ipc_deliver`, on a frame of the ring and the
bytes behind it. The lengths are not compared with that of the frame. -/
def parseDeliverFrame (topicCap payloadCap : ℕ) (data stale : List UInt8) :
    Except BcStatus SdkRead :=
  if data.length < bcIpcHeaderSize bcIpcVersion then .error .io
  else
    let header := IpcHeader.ofBytes data
    if header.magic ≠ bcIpcMagic ∨ header.type ≠ bcIpcDeliver then .error .io
    else if header.topicLen = 0 ∨ header.topicLen.toNat ≥ bcMaxTopicLen ∨
        header.payloadLen.toNat > bcMaxPayloadLen ∨ topicCap ≤ header.topicLen.toNat ∨
        payloadCap < header.payloadLen.toNat then .error .io
    else
      let frame := (data ++ stale).drop (bcIpcHeaderSize header.version + header.channelLen.toNat)
      .ok ⟨some (frame.take header.topicLen.toNat),
        (frame.drop header.topicLen.toNat).take header.payloadLen.toNat⟩

/-- `read_ipc_deliver`, on the answer of the ring where there is a session. -/
def readIpcDeliver (topicCap payloadCap : ℕ) (ring : Option RingRead) (poll : PollAnswer)
    (stream : List UInt8) : Except BcStatus (SdkRead × List UInt8) :=
  if topicCap = 0 then .error .invalid
  else
    match ring with
    | none => readIpcDeliverSocket topicCap payloadCap poll stream
    | some (.frame data stale) =>
      (parseDeliverFrame topicCap payloadCap data stale).map fun read => (read, stream)
    | some (.status rc) =>
      if rc = .notFound then readIpcDeliverSocket topicCap payloadCap poll stream else .error rc

end Reading

section Frames

theorem buildIpcFrame_error {frameCap : ℕ} {type : UInt16} {channel topic : Option (List UInt8)}
    {payload : List UInt8} {opts : Option BcPublishOpts} {rc : BcStatus}
    (h : buildIpcFrame frameCap type channel topic payload opts = .error rc) : rc = .invalid := by
  cases topic with
  | none => exact (Except.error.inj h).symm
  | some topic =>
    unfold buildIpcFrame at h
    simp only at h
    split_ifs at h <;> exact (Except.error.inj h).symm

/-- The frame that is built from the arguments. -/
structure IpcFrame.Built (f : IpcFrame) (type : UInt16) (channel topic : Option (List UInt8))
    (payload : List UInt8) (opts : Option BcPublishOpts) : Prop where
  version : f.version = bcIpcVersion
  type : f.type = type
  seq : f.seq = 0
  channel : f.channel = channel.elim [] CBuffer.cstr
  topic : ∃ t, topic = some t ∧ f.topic = CBuffer.cstr t
  payload : f.payload = payload
  dstNode : f.dstNode = opts.elim 0 (·.dstNode)
  qos : f.qos = opts.elim 0 (·.qos)
  flags : f.flags = opts.elim 0 (·.flags)

theorem IpcFrame.bytes_of_version {f : IpcFrame} (h : f.version = bcIpcVersion) :
    f.bytes = f.header.toBytes ++ (f.channel ++ (f.topic ++ f.payload)) := by
  have hsize : bcIpcHeaderSize f.version = IpcHeader.size := by
    rw [h]
    rfl
  have hwhole : f.header.toBytes.take IpcHeader.size = f.header.toBytes :=
    List.take_of_length_le (by rw [IpcHeader.toBytes_length])
  rw [IpcFrame.bytes, hsize, hwhole]

/-- A string shorter than the limit is measured, and copied, to its end. -/
theorem strnlen_of_lt {bs : List UInt8} {n : ℕ} (h : CBuffer.strnlen bs n < n) :
    CBuffer.strnlen bs n = (CBuffer.cstr bs).length ∧
      bs.take (CBuffer.strnlen bs n) = CBuffer.cstr bs := by
  have hlen : CBuffer.strnlen bs n = (CBuffer.cstr bs).length := by
    rw [CBuffer.strnlen, CBuffer.cstr_take, List.length_take] at h ⊢
    omega
  refine ⟨hlen, ?_⟩
  rw [hlen, CBuffer.take_cstr_length]

theorem strnlen_lt {bs : List UInt8} {n : ℕ} (h : (CBuffer.cstr bs).length < n) :
    CBuffer.strnlen bs n < n := by
  rw [CBuffer.strnlen, CBuffer.cstr_take, List.length_take]
  omega

theorem sdkChannelLen_of_lt {channel : Option (List UInt8)}
    (h : sdkChannelLen channel < bcMaxChannelLen) :
    sdkChannelLen channel = (channel.elim [] CBuffer.cstr).length ∧
      (channel.getD []).take (sdkChannelLen channel) = channel.elim [] CBuffer.cstr := by
  cases channel with
  | none => exact ⟨rfl, rfl⟩
  | some channel => exact strnlen_of_lt h

theorem sdkChannelLen_lt {channel : Option (List UInt8)}
    (h : (channel.elim [] CBuffer.cstr).length < bcMaxChannelLen) :
    sdkChannelLen channel < bcMaxChannelLen := by
  cases channel with
  | none => exact (by decide : (0 : ℕ) < bcMaxChannelLen)
  | some channel => exact strnlen_lt h

variable {type : UInt16} {channel topic : Option (List UInt8)} {payload bytes : List UInt8}
  {opts : Option BcPublishOpts}

/-- The bytes that the builder puts together are those of the frame. -/
theorem IpcFrame.Built.buildIpcFrame_eq {f : IpcFrame}
    (h : f.Built type channel topic payload opts) :
    buildIpcFrame bcClientFrameMax type channel topic payload opts = .ok f.bytes := by
  obtain ⟨t, rfl, htopic⟩ := h.topic
  have htopicLt : CBuffer.strnlen t bcMaxTopicLen < bcMaxTopicLen :=
    strnlen_lt (htopic ▸ f.topic_lt)
  have hchannelLt : sdkChannelLen channel < bcMaxChannelLen :=
    sdkChannelLen_lt (h.channel ▸ f.channel_lt)
  obtain ⟨htopicLen, htopicBytes⟩ := strnlen_of_lt htopicLt
  obtain ⟨hchannelLen, hchannelBytes⟩ := sdkChannelLen_of_lt hchannelLt
  have hpos := f.topic_pos
  have hpayload := f.payload_le
  have hlen := f.bytes_length_le
  rw [f.bytes_length, h.version] at hlen
  change IpcHeader.size + _ + _ + _ ≤ _ at hlen
  rw [← htopic] at htopicLen htopicBytes
  rw [← h.channel] at hchannelLen hchannelBytes
  rw [htopicLen] at htopicBytes
  rw [hchannelLen] at hchannelBytes
  have hne : CBuffer.cstr t ≠ [] := htopic ▸ f.topic_ne
  unfold buildIpcFrame
  simp only [htopicLen, hchannelLen, htopicBytes, hchannelBytes, ← h.payload]
  rw [if_neg hne, if_neg (by omega), if_neg (by have := f.topic_lt; omega),
    if_neg (by have := f.channel_lt; omega), if_neg (by omega), f.bytes_of_version h.version]
  have hheader : f.header = { IpcHeader.zero with
      magic := bcIpcMagic, version := bcIpcVersion, type := type,
      topicLen := .ofNat f.topic.length, channelLen := .ofNat f.channel.length,
      payloadLen := .ofNat f.payload.length, dstNode := opts.elim 0 (·.dstNode),
      qos := opts.elim 0 (·.qos), flags := opts.elim 0 (·.flags) } := by
    rw [IpcFrame.header, h.version, h.type, h.seq, h.dstNode, h.qos, h.flags]
    rfl
  rw [hheader]
  cases opts with
  | none =>
    simp only [Option.elim, List.append_assoc]
    rfl
  | some opts => simp only [Option.elim, List.append_assoc]

/-- What the builder accepts is a frame. -/
theorem exists_built (h : buildIpcFrame bcClientFrameMax type channel topic payload opts =
      .ok bytes) :
    ∃ f : IpcFrame, f.Built type channel topic payload opts ∧ bytes = f.bytes := by
  cases topic with
  | none => simp [buildIpcFrame] at h
  | some t =>
    have hchecks : CBuffer.cstr t ≠ [] ∧ payload.length ≤ bcMaxPayloadLen ∧
        CBuffer.strnlen t bcMaxTopicLen < bcMaxTopicLen ∧
        sdkChannelLen channel < bcMaxChannelLen := by
      unfold buildIpcFrame at h
      simp only at h
      split_ifs at h with hempty hlong htopic hchannel
      all_goals exact ⟨hempty, by omega, by omega, by omega⟩
    obtain ⟨hne, hpayload, htopicLt, hchannelLt⟩ := hchecks
    have htopicLen := (strnlen_of_lt htopicLt).1
    have hchannelLen := (sdkChannelLen_of_lt hchannelLt).1
    let f : IpcFrame :=
      { version := bcIpcVersion, type := type, dstNode := opts.elim 0 (·.dstNode),
        qos := opts.elim 0 (·.qos), flags := opts.elim 0 (·.flags), seq := 0,
        channel := channel.elim [] CBuffer.cstr, topic := CBuffer.cstr t, payload := payload,
        channel_lt := by omega, topic_ne := hne, topic_lt := by omega, payload_le := hpayload }
    have hbuilt : f.Built type channel (some t) payload opts :=
      ⟨rfl, rfl, rfl, rfl, ⟨t, rfl, rfl⟩, rfl, rfl, rfl, rfl⟩
    refine ⟨f, hbuilt, ?_⟩
    rw [hbuilt.buildIpcFrame_eq] at h
    exact (Except.ok.inj h).symm

theorem sdkReadAll_append (front rest : List UInt8) :
    sdkReadAll front.length (front ++ rest) = some (front, rest) := by
  rw [sdkReadAll, if_neg (by simp), List.take_left, List.drop_left]

/-- A DELIVER frame is read whole, and nothing behind it. -/
theorem readIpcDeliverSocket_frame {f : IpcFrame} (hversion : f.version = bcIpcVersion)
    (htype : f.type = bcIpcDeliver) {topicCap payloadCap : ℕ} (htopicCap : f.topic.length < topicCap)
    (hpayloadCap : f.payload.length ≤ payloadCap) (rest : List UInt8) :
    readIpcDeliverSocket topicCap payloadCap .readable (f.bytes ++ rest) =
      .ok (⟨some f.topic, f.payload⟩, rest) := by
  have hread : sdkReadAll IpcHeader.size (f.bytes ++ rest) =
      some (f.header.toBytes, f.channel ++ (f.topic ++ (f.payload ++ rest))) := by
    rw [f.bytes_of_version hversion]
    have hfront := sdkReadAll_append f.header.toBytes (f.channel ++ (f.topic ++ (f.payload ++ rest)))
    rw [IpcHeader.toBytes_length] at hfront
    simpa only [List.append_assoc] using hfront
  have hheader : IpcHeader.ofBytes f.header.toBytes = f.header := by
    have h := f.header.ofBytes_toBytes_append []
    rwa [List.append_nil] at h
  have hmagic : f.header.magic = bcIpcMagic := rfl
  have htype' : f.header.type = bcIpcDeliver := htype
  have htopicLen : f.header.topicLen ≠ 0 := by
    intro hzero
    have hpos := f.topic_pos
    rw [← f.topicLen_toNat, hzero] at hpos
    exact absurd hpos (by decide)
  have hchannel := f.channel_lt
  have htopic := f.topic_lt
  have hpayload := f.payload_le
  have hfits : ¬ (f.channel.length ≥ bcMaxChannelLen ∨ f.header.topicLen = 0 ∨
      f.topic.length ≥ bcMaxTopicLen ∨ f.payload.length > bcMaxPayloadLen ∨
      topicCap ≤ f.topic.length ∨ payloadCap < f.payload.length) := by
    simp only [htopicLen, false_or]
    omega
  have hstats : ¬ bcIpcDeliver = bcIpcStats := by decide
  unfold readIpcDeliverSocket
  simp only [hread, hheader, hmagic, htype', ne_eq, not_true, if_false, if_neg hstats,
    f.channelLen_toNat, f.topicLen_toNat, f.payloadLen_toNat, if_neg hfits, sdkReadAll_append]

end Frames

end BoardComm
