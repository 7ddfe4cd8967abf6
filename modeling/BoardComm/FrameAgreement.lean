import BoardComm.CheckedAccess
import BoardComm.ProtocolRoundTrip

/-!
# The two readers of a frame

`bc_protocol_frame_length` and `bc_protocol_decode` check the same header, each in an
order of its own. The receive loop asks the one how long a frame is and hands so many
bytes to the other.
-/
namespace BoardComm

open Checked

/-- The bytes of the caller, the header that is copied out of them, and the arrays of
the message. -/
inductive FrameArea
  | data
  | header
  | channel
  | topic
  | payload
  deriving DecidableEq, Repr

section Calls

/-- `memcpy(&header, data, sizeof(header))`, with `len` bytes of `data` to read. -/
def frameHeaderChecked (data : List UInt8) (len : ℕ) : Run FrameArea FrameHeader := do
  span .data len 0 FrameHeader.size
  span .header FrameHeader.size 0 FrameHeader.size
  .ok (FrameHeader.ofBytes data)

/-- `bc_protocol_frame_length`, access by access. -/
def bcProtocolFrameLengthChecked (data : List UInt8) (len : ℕ) : Run FrameArea (BcStatus × ℕ) :=
  if len < FrameHeader.size then .ok (.notFound, 0)
  else do
    let header ← frameHeaderChecked data len
    if header.magic ≠ bcFrameMagic ∨ header.version ≠ bcFrameVersion then .ok (.invalid, 0)
    else if header.headerLen.toNat ≠ FrameHeader.size then .ok (.invalid, 0)
    else if header.channelLen.toNat ≥ bcMaxChannelLen then .ok (.invalid, 0)
    else if header.topicLen.toNat = 0 ∨ header.topicLen.toNat ≥ bcMaxTopicLen then
      .ok (.invalid, 0)
    else if header.payloadLen.toNat > bcMaxPayloadLen then .ok (.invalid, 0)
    else
      let totalLen := FrameHeader.size + header.channelLen.toNat + header.topicLen.toNat
        + header.payloadLen.toNat
      if totalLen > bcMaxFrameLen then .ok (.invalid, 0)
      else .ok (if len ≥ totalLen then .ok else .notFound, totalLen)

/-- `bc_protocol_decode`, access by access. -/
def bcProtocolDecodeChecked (data : List UInt8) (len : ℕ) :
    Run FrameArea (Except BcStatus BcMessage) :=
  if len < FrameHeader.size then .ok (.error .invalid)
  else do
    let header ← frameHeaderChecked data len
    if header.magic ≠ bcFrameMagic ∨ header.version ≠ bcFrameVersion then .ok (.error .invalid)
    else if header.channelLen.toNat ≥ bcMaxChannelLen then .ok (.error .invalid)
    else if header.topicLen.toNat = 0 ∨ header.topicLen.toNat ≥ bcMaxTopicLen then
      .ok (.error .invalid)
    else if header.payloadLen.toNat > bcMaxPayloadLen then .ok (.error .invalid)
    else if header.headerLen.toNat ≠ FrameHeader.size then .ok (.error .invalid)
    else if len < FrameHeader.size + header.channelLen.toNat + header.topicLen.toNat
        + header.payloadLen.toNat then .ok (.error .invalid)
    else do
      let channel := FrameHeader.size
      let topic := channel + header.channelLen.toNat
      let payload := topic + header.topicLen.toNat
      span .data len payload header.payloadLen.toNat
      if bcCrc32 (header.payloadOf data) ≠ header.checksum then .ok (.error .invalid)
      else do
        span .data len channel header.channelLen.toNat
        span .channel bcMaxChannelLen 0 header.channelLen.toNat
        access .channel bcMaxChannelLen header.channelLen.toNat
        span .data len topic header.topicLen.toNat
        span .topic bcMaxTopicLen 0 header.topicLen.toNat
        access .topic bcMaxTopicLen header.topicLen.toNat
        span .data len payload header.payloadLen.toNat
        span .payload bcMaxPayloadLen 0 header.payloadLen.toNat
        .ok (.ok (header.toMessage data))

end Calls

section Accesses

variable {data : List UInt8} (behind : List UInt8)

theorem frameHeaderChecked_append (h : FrameHeader.size ≤ data.length) :
    frameHeaderChecked (data ++ behind) data.length = .ok (FrameHeader.ofBytes data) := by
  have hread : 0 + FrameHeader.size ≤ data.length := by omega
  have hwrite : 0 + FrameHeader.size ≤ FrameHeader.size := by decide
  rw [frameHeaderChecked, span_of_le hread, span_of_le hwrite, ok_bind, ok_bind,
    FrameHeader.ofBytes_append data behind h]

/-- What a complete frame holds does not depend on the bytes behind it. -/
theorem FrameHeader.parts_append (header : FrameHeader) (h : header.total ≤ data.length) :
    header.payloadOf (data ++ behind) = header.payloadOf data ∧
      header.toMessage (data ++ behind) = header.toMessage data := by
  have hpart : ∀ off w : ℕ, off + w ≤ header.total →
      ((data ++ behind).drop off).take w = (data.drop off).take w :=
    fun off w hw => take_drop_append behind (hw.trans h)
  have hchannel := hpart size header.channelLen.toNat (by simp only [total]; omega)
  have htopic := hpart (size + header.channelLen.toNat) header.topicLen.toNat
    (by simp only [total]; omega)
  have hpayload := hpart (size + header.channelLen.toNat + header.topicLen.toNat)
    header.payloadLen.toNat le_rfl
  constructor
  · exact hpayload
  · simp only [toMessage, channelOf, topicOf, payloadOf, hchannel, htopic, hpayload]

/-- The length of a frame is found within the bytes of the caller. -/
theorem bcProtocolFrameLengthChecked_eq_ok :
    bcProtocolFrameLengthChecked (data ++ behind) data.length =
      .ok (bcProtocolFrameLength data) := by
  unfold bcProtocolFrameLengthChecked bcProtocolFrameLength
  apply ite_ok_eq_ok
  intro hshort
  rw [frameHeaderChecked_append behind (not_lt.mp hshort), ok_bind]
  iterate 6
    apply ite_ok_eq_ok
    intro _
  rfl

/-- A frame is decoded within them, and within the arrays of the message. -/
theorem bcProtocolDecodeChecked_eq_ok :
    bcProtocolDecodeChecked (data ++ behind) data.length = .ok (bcProtocolDecode data) := by
  unfold bcProtocolDecodeChecked bcProtocolDecode
  apply ite_ok_eq_ok
  intro hshort
  rw [frameHeaderChecked_append behind (not_lt.mp hshort), ok_bind]
  have hparts := @FrameHeader.parts_append data behind (FrameHeader.ofBytes data)
  generalize FrameHeader.ofBytes data = header at hparts
  apply ite_ok_eq_ok
  intro _
  apply ite_ok_eq_ok
  intro hchannel
  apply ite_ok_eq_ok
  intro htopic
  apply ite_ok_eq_ok
  intro hpayload
  apply ite_ok_eq_ok
  intro _
  apply ite_ok_eq_ok
  intro htotal
  obtain ⟨hbody, hmessage⟩ := hparts (not_lt.mp htotal)
  push Not at hchannel htopic hpayload
  -- The three parts lie behind one another, and the last ends with the frame.
  have hpart : ∀ off w, off + w ≤ header.total →
      span FrameArea.data data.length off w = .ok () :=
    fun off w hw => span_of_le (hw.trans (not_lt.mp htotal))
  have hread := hpart (FrameHeader.size + header.channelLen.toNat + header.topicLen.toNat)
    header.payloadLen.toNat le_rfl
  dsimp only
  rw [hread, ok_bind, hbody]
  apply ite_ok_eq_ok
  intro _
  have hreadChannel := hpart FrameHeader.size header.channelLen.toNat
    (by simp only [FrameHeader.total]; omega)
  have hreadTopic := hpart (FrameHeader.size + header.channelLen.toNat) header.topicLen.toNat
    (by simp only [FrameHeader.total]; omega)
  have hfill : ∀ (area : FrameArea) (bound w : ℕ), w ≤ bound → span area bound 0 w = .ok () :=
    fun area bound w hw => span_of_le (by omega)
  rw [hmessage, hreadChannel, hreadTopic, hfill _ _ _ hchannel.le,
    hfill _ _ _ htopic.2.le, hfill _ _ _ hpayload, access_of_lt hchannel, access_of_lt htopic.2]
  simp only [ok_bind]

end Accesses

/-- The two readers agree. What is decoded has a length, and so many bytes of it are
enough. What has a length is decoded from so many bytes if the checksum is right, and
not otherwise. Neither reads what stands behind the bytes that it is given. -/
theorem frame_readers_agree (data behind : List UInt8) :
    (∀ msg, bcProtocolDecode data = .ok msg → ∃ n, bcProtocolFrameLength data = (.ok, n) ∧
      n ≤ data.length ∧ bcProtocolDecode (data.take n) = .ok msg) ∧
    (∀ n, bcProtocolFrameLength data = (.ok, n) →
      37 ≤ n ∧ n ≤ min data.length bcMaxFrameLen ∧
      ((∃ msg, bcProtocolDecode (data.take n) = .ok msg) ↔
        bcCrc32 ((FrameHeader.ofBytes data).payloadOf data) =
          (FrameHeader.ofBytes data).checksum)) ∧
    bcProtocolFrameLengthChecked (data ++ behind) data.length =
      .ok (bcProtocolFrameLength data) ∧
    bcProtocolDecodeChecked (data ++ behind) data.length = .ok (bcProtocolDecode data) := by
  refine ⟨?_, ?_, bcProtocolFrameLengthChecked_eq_ok behind, bcProtocolDecodeChecked_eq_ok behind⟩
  · intro msg hdec
    obtain ⟨hsize, hv, htotal, hcrc, hmsg⟩ := (bcProtocolDecode_ok_iff data msg).mp hdec
    have hlen := (bcProtocolFrameLength_ok_iff data _).mpr ⟨hsize, hv, rfl, htotal⟩
    exact ⟨_, hlen, htotal, (decode_take_iff_of_frameLength hlen).mpr ⟨hcrc, hmsg⟩⟩
  · intro n hlen
    obtain ⟨-, hv, hn, hle⟩ := (bcProtocolFrameLength_ok_iff data n).mp hlen
    have hmin := hv.lt_total
    have hmax := hv.total_le
    simp only [FrameHeader.size] at hmin
    refine ⟨by omega, le_min hle (by simp only [bcMaxFrameLen]; omega), ?_⟩
    simp only [decode_take_iff_of_frameLength hlen, exists_and_left, exists_eq, and_true]

end BoardComm
