import BoardComm.ClientManager

/-!
# Well-formed frames in a receive buffer

A frame whose header announces lengths within the limits. At the head of the
receive buffer it is handed on with exactly its own channel, topic and payload,
whatever stands behind it.
-/
namespace BoardComm

/-- A frame of a client, of either version of the protocol. -/
structure IpcFrame where
  version : UInt16
  type : UInt16
  dstNode : UInt32
  qos : UInt16
  flags : UInt16
  seq : UInt32
  channel : List UInt8
  topic : List UInt8
  payload : List UInt8
  channel_lt : channel.length < bcMaxChannelLen
  topic_ne : topic ≠ []
  topic_lt : topic.length < bcMaxTopicLen
  payload_le : payload.length ≤ bcMaxPayloadLen

namespace IpcFrame

variable (f : IpcFrame)

/-- The header of the frame. -/
def header : IpcHeader :=
  { magic := bcIpcMagic, version := f.version, type := f.type,
    topicLen := .ofNat f.topic.length, channelLen := .ofNat f.channel.length,
    payloadLen := .ofNat f.payload.length, dstNode := f.dstNode, qos := f.qos, flags := f.flags,
    seq := f.seq }

/-- The bytes of the frame. A version 1 header ends before the destination. -/
def bytes : List UInt8 :=
  f.header.toBytes.take (bcIpcHeaderSize f.version) ++ (f.channel ++ (f.topic ++ f.payload))

theorem channelLen_toNat : f.header.channelLen.toNat = f.channel.length :=
  UInt16.toNat_ofNat_of_lt' (f.channel_lt.trans (by decide))

theorem topicLen_toNat : f.header.topicLen.toNat = f.topic.length :=
  UInt16.toNat_ofNat_of_lt' (f.topic_lt.trans (by decide))

theorem payloadLen_toNat : f.header.payloadLen.toNat = f.payload.length :=
  UInt32.toNat_ofNat_of_lt' (f.payload_le.trans_lt (by decide))

theorem headerSize_le : bcIpcHeaderSize f.version ≤ IpcHeader.size := by
  unfold bcIpcHeaderSize
  split
  · exact le_refl _
  · decide

theorem header_take_length :
    (f.header.toBytes.take (bcIpcHeaderSize f.version)).length = bcIpcHeaderSize f.version := by
  have hle := f.headerSize_le
  rw [List.length_take, IpcHeader.toBytes_length]
  omega

@[simp] theorem bytes_length :
    f.bytes.length =
      bcIpcHeaderSize f.version + f.channel.length + f.topic.length + f.payload.length := by
  rw [bytes, List.length_append, header_take_length]
  simp only [List.length_append]
  omega

theorem total_header : f.header.total (bcIpcHeaderSize f.version) = f.bytes.length := by
  rw [IpcHeader.total, f.channelLen_toNat, f.topicLen_toNat, f.payloadLen_toNat, bytes_length]

theorem topic_pos : 0 < f.topic.length := List.length_pos_of_ne_nil f.topic_ne

theorem bytes_length_le : f.bytes.length ≤ bcClientFrameMax := by
  have hsize := f.headerSize_le
  have hchannel := f.channel_lt
  have htopic := f.topic_lt
  have hpayload := f.payload_le
  rw [bytes_length]
  simp only [bcClientFrameMax]
  omega

/-- The header that is read at a frame. Only a version 2 header is read whole. -/
theorem ofBytes_bytes (rest : List UInt8) :
    f.header.AgreesV1 (IpcHeader.ofBytes (f.bytes ++ rest)) ∧
      (f.version ≥ bcIpcVersion → IpcHeader.ofBytes (f.bytes ++ rest) = f.header) := by
  rw [bytes, List.append_assoc, bcIpcHeaderSize]
  split
  · have hwhole : f.header.toBytes.take IpcHeader.size = f.header.toBytes :=
      List.take_of_length_le (by rw [IpcHeader.toBytes_length])
    rw [hwhole, IpcHeader.ofBytes_toBytes_append]
    exact ⟨⟨rfl, rfl, rfl, rfl, rfl, rfl⟩, fun _ => rfl⟩
  · next hversion =>
    exact ⟨IpcHeader.ofBytes_take_append _ _, fun hnew => absurd hnew hversion⟩

theorem oneByte_channel_lt : ([] : List UInt8).length < bcMaxChannelLen := by decide

theorem oneByte_topic_lt (b : UInt8) : [b].length < bcMaxTopicLen := by
  rw [List.length_singleton]
  decide

theorem oneByte_payload_le (b : UInt8) : [b].length ≤ bcMaxPayloadLen := by
  rw [List.length_singleton]
  decide

/-- A frame for everyone, with one byte each for topic and payload. -/
def oneByte (type flags : UInt16) (seq : UInt32) (topic payload : UInt8) : IpcFrame :=
  { version := bcIpcVersion, type := type, dstNode := 0, qos := 0, flags := flags, seq := seq,
    channel := [], topic := [topic], payload := [payload], channel_lt := oneByte_channel_lt,
    topic_ne := List.cons_ne_nil topic [], topic_lt := oneByte_topic_lt topic,
    payload_le := oneByte_payload_le payload }

end IpcFrame

section Checks

variable {τ : Type*} (payload : IpcHeader → List UInt8 → List UInt8 → List UInt8 → τ)
  (fail : BcStatus → τ)

/-- The checks of `process_frame_buffer`, and what follows on them. -/
def frameBuffer (data : List UInt8) (len : ℕ) : τ :=
  if len < IpcHeader.sizeV1 then fail .notFound
  else
    let header := IpcHeader.ofBytes data
    let headerSize := bcIpcHeaderSize header.version
    if header.magic ≠ bcIpcMagic then fail .invalid
    else if len < headerSize then fail .notFound
    else if header.channelLen.toNat ≥ bcMaxChannelLen ∨ header.topicLen.toNat = 0 ∨
        header.topicLen.toNat ≥ bcMaxTopicLen ∨ header.payloadLen.toNat > bcMaxPayloadLen then
      fail .invalid
    else if len < header.total headerSize then fail .notFound
    else
      let frame := data.drop headerSize
      payload header (frame.take header.channelLen.toNat)
        ((frame.drop header.channelLen.toNat).take header.topicLen.toNat)
        ((frame.drop (header.channelLen.toNat + header.topicLen.toNat)).take
          header.payloadLen.toNat)

/-- A frame is handed on with its own parts. -/
theorem frameBuffer_frame (f : IpcFrame) (rest : List UInt8) :
    frameBuffer payload fail (f.bytes ++ rest) f.bytes.length =
      payload (IpcHeader.ofBytes (f.bytes ++ rest)) f.channel f.topic f.payload := by
  obtain ⟨hagrees, -⟩ := f.ofBytes_bytes rest
  have hchannelLen := f.channelLen_toNat
  have htopicLen := f.topicLen_toNat
  have hpayloadLen := f.payloadLen_toNat
  have hsize := sizeV1_le_bcIpcHeaderSize f.version
  have hlen := f.bytes_length
  have htotal := f.total_header
  have hpos := f.topic_pos
  have hchannel := f.channel_lt
  have htopic := f.topic_lt
  have hpayload := f.payload_le
  unfold frameBuffer
  rw [if_neg (by omega)]
  dsimp only
  rw [hagrees.magic, hagrees.version, hagrees.channelLen, hagrees.topicLen, hagrees.payloadLen,
    IpcHeader.total, hagrees.channelLen, hagrees.topicLen, hagrees.payloadLen, hchannelLen,
    htopicLen, hpayloadLen]
  rw [if_neg (by simp [IpcFrame.header])]
  change (if f.bytes.length < bcIpcHeaderSize f.version then _ else _) = _
  rw [if_neg (by omega), if_neg (by omega)]
  change (if f.bytes.length <
    bcIpcHeaderSize f.version + f.channel.length + f.topic.length + f.payload.length
    then _ else _) = _
  rw [if_neg (by omega)]
  have hdrop : (f.bytes ++ rest).drop (bcIpcHeaderSize f.version) =
      f.channel ++ (f.topic ++ (f.payload ++ rest)) := by
    rw [IpcFrame.bytes, List.append_assoc, List.drop_left' f.header_take_length]
    simp only [List.append_assoc]
  change payload _
    (((f.bytes ++ rest).drop (bcIpcHeaderSize f.version)).take _)
    ((((f.bytes ++ rest).drop (bcIpcHeaderSize f.version)).drop _).take _)
    ((((f.bytes ++ rest).drop (bcIpcHeaderSize f.version)).drop _).take _) = _
  rw [hdrop, ← List.drop_drop, List.take_left, List.drop_left, List.take_left, List.drop_left,
    List.take_left]

end Checks

section Dispatch

variable {ν : Type*} (send : ℕ → List UInt8 → ν → BcStatus × ν) (env : ClientEnv)
  (m : ClientManager ν) (client : BcClient)

/-- What is done with a frame does not depend on fields that its version lacks. -/
theorem processIpcPayload_congr {header header' : IpcHeader} (h : header.AgreesV1 header')
    (hnew : header.version ≥ bcIpcVersion → header' = header) (channel topic payload : List UInt8) :
    processIpcPayload send env m client header' channel topic payload =
      processIpcPayload send env m client header channel topic payload := by
  by_cases hversion : header.version ≥ bcIpcVersion
  · rw [hnew hversion]
  · have hversion' : ¬ header'.version ≥ bcIpcVersion := by
      rw [h.version]
      exact hversion
    simp only [processIpcPayload, publishedMessage, h.type, h.payloadLen, if_neg hversion,
      if_neg hversion']

/-- A frame is handed on with its own parts. -/
theorem processFrameBuffer_frame (f : IpcFrame) (rest : List UInt8) :
    processFrameBuffer send env m client (f.bytes ++ rest) f.bytes.length =
      processIpcPayload send env m client f.header f.channel f.topic f.payload := by
  obtain ⟨hagrees, hnew⟩ := f.ofBytes_bytes rest
  have hchecks : processFrameBuffer send env m client (f.bytes ++ rest) f.bytes.length =
      frameBuffer (processIpcPayload send env m client) (fun rc => (rc, m)) (f.bytes ++ rest)
        f.bytes.length := rfl
  rw [hchecks, frameBuffer_frame]
  exact processIpcPayload_congr send env m client hagrees hnew _ _ _

/-- A message at the head of the receive buffer is handled, and taken out if
that went well. -/
theorem processOneMessage_frame {f : IpcFrame} {rest : List UInt8}
    (hrx : client.rx = f.bytes ++ rest) :
    processOneMessage send env m client =
      if (processIpcPayload send env m client f.header f.channel f.topic f.payload).1 = .ok then
        (.ok, consumeFrame
          (processIpcPayload send env m client f.header f.channel f.topic f.payload).2
          client.fd f.bytes.length)
      else processIpcPayload send env m client f.header f.channel f.topic f.payload := by
  have hmemory : client.rx ++ client.stale = f.bytes ++ (rest ++ client.stale) := by
    rw [hrx, List.append_assoc]
  obtain ⟨hagrees, -⟩ := f.ofBytes_bytes (rest ++ client.stale)
  have hlen : f.bytes.length ≤ client.rx.length := by
    rw [hrx, List.length_append]
    omega
  have hsize := sizeV1_le_bcIpcHeaderSize f.version
  have hbytes := f.bytes_length
  have hmax := f.bytes_length_le
  unfold processOneMessage
  rw [if_neg (by omega), hmemory]
  dsimp only
  have htotal : (IpcHeader.ofBytes (f.bytes ++ (rest ++ client.stale))).total
      (bcIpcHeaderSize (IpcHeader.ofBytes (f.bytes ++ (rest ++ client.stale))).version) =
      f.bytes.length := by
    rw [← f.total_header, hagrees.version, IpcHeader.total, hagrees.channelLen, hagrees.topicLen,
      hagrees.payloadLen]
    rfl
  rw [htotal, hagrees.magic, if_neg (by simp [IpcFrame.header]), if_neg (by omega),
    processFrameBuffer_frame]

end Dispatch

end BoardComm
