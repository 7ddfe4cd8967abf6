import BoardComm.ByteLayout
import BoardComm.Crc32
import BoardComm.Types

/-!
# The frame codec

A frame is a 36-byte header followed by channel, topic and payload. The three
functions of the codec repeat the layout and the limits, as in the program. The
header is copied with `memcpy`, which on the little-endian boards this daemon
runs on writes every field least significant byte first.
-/
namespace BoardComm

abbrev bcFrameMagic : UInt32 := 0x42434652
abbrev bcFrameVersion : UInt16 := 1
abbrev bcMaxFrameLen : ℕ := 1600

/-- `bc_frame_header_t`. -/
structure FrameHeader where
  magic : UInt32
  version : UInt16
  headerLen : UInt16
  srcNode : UInt32
  dstNode : UInt32
  flags : UInt16
  qos : UInt16
  seq : UInt32
  channelLen : UInt16
  topicLen : UInt16
  payloadLen : UInt32
  checksum : UInt32
  deriving DecidableEq, Repr

/-- `bc_frame_t`, with the used part of its array. -/
structure BcFrame where
  data : List UInt8
  len_le : data.length ≤ bcMaxFrameLen
  deriving DecidableEq, Repr

namespace FrameHeader

/-- Widths of the fields in declaration order. -/
def widths : List ℕ := [4, 2, 2, 4, 4, 2, 2, 4, 2, 2, 4, 4]

/-- `sizeof(bc_frame_header_t)`. -/
abbrev size : ℕ := 36

def fields (h : FrameHeader) : List ℕ :=
  [h.magic.toNat, h.version.toNat, h.headerLen.toNat, h.srcNode.toNat, h.dstNode.toNat,
    h.flags.toNat, h.qos.toNat, h.seq.toNat, h.channelLen.toNat, h.topicLen.toNat,
    h.payloadLen.toNat, h.checksum.toNat]

/-- `memcpy(data, &header, sizeof(header))`. -/
def toBytes (h : FrameHeader) : List UInt8 := ByteLayout.pack (widths.zip h.fields)

def ofFields : List ℕ → FrameHeader
  | [magic, version, headerLen, srcNode, dstNode, flags, qos, seq, channelLen, topicLen,
      payloadLen, checksum] =>
    { magic := .ofNat magic, version := .ofNat version, headerLen := .ofNat headerLen,
      srcNode := .ofNat srcNode, dstNode := .ofNat dstNode, flags := .ofNat flags,
      qos := .ofNat qos, seq := .ofNat seq, channelLen := .ofNat channelLen,
      topicLen := .ofNat topicLen, payloadLen := .ofNat payloadLen,
      checksum := .ofNat checksum }
  | _ => ⟨0, 0, 0, 0, 0, 0, 0, 0, 0, 0, 0, 0⟩

/-- `memcpy(&header, data, sizeof(header))`. -/
def ofBytes (data : List UInt8) : FrameHeader := ofFields (ByteLayout.unpack widths data)

/-- Length of the frame the header announces. -/
def total (h : FrameHeader) : ℕ :=
  size + h.channelLen.toNat + h.topicLen.toNat + h.payloadLen.toNat

/-- The field checks shared by `bc_protocol_frame_length` and `bc_protocol_decode`. -/
structure Valid (h : FrameHeader) : Prop where
  magic : h.magic = bcFrameMagic
  version : h.version = bcFrameVersion
  headerLen : h.headerLen.toNat = size
  channelLen : h.channelLen.toNat < bcMaxChannelLen
  topicLen_ne : h.topicLen.toNat ≠ 0
  topicLen : h.topicLen.toNat < bcMaxTopicLen
  payloadLen : h.payloadLen.toNat ≤ bcMaxPayloadLen

@[simp] theorem toBytes_length (h : FrameHeader) : h.toBytes.length = size := by
  simp [toBytes, widths, fields, size]

/-- Every field fits its width, so a stored header is read back unchanged. -/
theorem ofBytes_toBytes_append (h : FrameHeader) (rest : List UInt8) :
    ofBytes (h.toBytes ++ rest) = h := by
  have hfits : ∀ f ∈ widths.zip h.fields, f.2 < 256 ^ f.1 := by
    intro f hf
    simp only [widths, fields, List.zip_cons_cons, List.zip_nil_left, List.mem_cons,
      List.not_mem_nil, or_false] at hf
    rcases hf with rfl | rfl | rfl | rfl | rfl | rfl | rfl | rfl | rfl | rfl | rfl | rfl <;>
      first
      | exact UInt32.toNat_lt _
      | exact UInt16.toNat_lt _
  have hread := ByteLayout.unpack_pack_append (widths.zip h.fields) rest hfits
  have hw : (widths.zip h.fields).map Prod.fst = widths := by simp [widths, fields]
  have hv : (widths.zip h.fields).map Prod.snd = h.fields := by simp [widths, fields]
  rw [hw, hv] at hread
  rw [ofBytes, toBytes, hread]
  simp only [fields, ofFields, UInt32.ofNat_toNat, UInt16.ofNat_toNat]

/-- Storing the header read from a byte string reproduces its first 36 bytes. -/
theorem toBytes_ofBytes (data : List UInt8) (h : size ≤ data.length) :
    (ofBytes data).toBytes = data.take size := by
  have hpack := ByteLayout.pack_unpack widths data h
  have hfields : (ofBytes data).fields = ByteLayout.unpack widths data := by
    simp only [ofBytes, widths, ByteLayout.unpack, ofFields, fields]
    simp only [UInt32.toNat_ofNat_of_lt' (ByteLayout.ofLE_take_lt 4 _),
      UInt16.toNat_ofNat_of_lt' (ByteLayout.ofLE_take_lt 2 _)]
  rw [toBytes, hfields, hpack]
  rfl

theorem ofBytes_append (data rest : List UInt8) (h : size ≤ data.length) :
    ofBytes (data ++ rest) = ofBytes data := by
  rw [ofBytes, ofBytes, ByteLayout.unpack_append widths data rest h]

theorem ofBytes_take {data : List UInt8} {n : ℕ} (hsize : size ≤ n) (hn : n ≤ data.length) :
    ofBytes (data.take n) = ofBytes data := by
  have hlen : size ≤ (data.take n).length := by rwa [List.length_take_of_le hn]
  have hwhole := ofBytes_append (data.take n) (data.drop n) hlen
  rw [← hwhole, List.take_append_drop]

/-- The bytes after the header that the header assigns to the channel. -/
def channelOf (h : FrameHeader) (data : List UInt8) : List UInt8 :=
  (data.drop size).take h.channelLen.toNat

/-- The bytes that the header assigns to the topic. -/
def topicOf (h : FrameHeader) (data : List UInt8) : List UInt8 :=
  (data.drop (size + h.channelLen.toNat)).take h.topicLen.toNat

/-- The bytes that the header assigns to the payload. -/
def payloadOf (h : FrameHeader) (data : List UInt8) : List UInt8 :=
  (data.drop (size + h.channelLen.toNat + h.topicLen.toNat)).take h.payloadLen.toNat

/-- The message `bc_protocol_decode` fills in from an accepted frame. -/
def toMessage (h : FrameHeader) (data : List UInt8) : BcMessage :=
  { srcNode := h.srcNode, dstNode := h.dstNode, flags := h.flags, qos := h.qos, seq := h.seq,
    channel := .ofPrefix _ (h.channelOf data), topic := .ofPrefix _ (h.topicOf data),
    payloadLen := h.payloadLen.toNat, payload := .ofPrefix _ (h.payloadOf data) }

end FrameHeader

/-- The length test of the encoder keeps the copied bytes inside the frame buffer. -/
theorem encoded_length_le (header : FrameHeader) (msg : BcMessage) (channelLen topicLen : ℕ)
    (h : ¬ FrameHeader.size + channelLen + topicLen + msg.payloadLen > bcMaxFrameLen) :
    (header.toBytes ++ msg.channel.bytes.take channelLen ++ msg.topic.bytes.take topicLen
      ++ msg.body).length ≤ bcMaxFrameLen := by
  simp only [List.length_append, FrameHeader.toBytes_length, List.length_take, BcMessage.body]
  omega

/-- `bc_protocol_encode`. -/
def bcProtocolEncode (msg : BcMessage) : Except BcStatus BcFrame :=
  let channelLen := CBuffer.strnlen msg.channel.bytes bcMaxChannelLen
  let topicLen := CBuffer.strnlen msg.topic.bytes bcMaxTopicLen
  if channelLen ≥ bcMaxChannelLen then .error .invalid
  else if topicLen = 0 ∨ topicLen ≥ bcMaxTopicLen ∨ msg.payloadLen > bcMaxPayloadLen then
    .error .invalid
  else
    let totalLen := FrameHeader.size + channelLen + topicLen + msg.payloadLen
    if h : totalLen > bcMaxFrameLen then .error .invalid
    else
      let header : FrameHeader :=
        { magic := bcFrameMagic, version := bcFrameVersion, headerLen := .ofNat FrameHeader.size,
          srcNode := msg.srcNode, dstNode := msg.dstNode, flags := msg.flags, qos := msg.qos,
          seq := msg.seq, channelLen := .ofNat channelLen, topicLen := .ofNat topicLen,
          payloadLen := .ofNat msg.payloadLen, checksum := bcCrc32 msg.body }
      .ok ⟨header.toBytes ++ msg.channel.bytes.take channelLen
        ++ msg.topic.bytes.take topicLen ++ msg.body,
        encoded_length_le header msg channelLen topicLen h⟩

/-- `bc_protocol_frame_length` with its out parameter, which the callers set to
zero before the call and the function writes once the header is accepted. -/
def bcProtocolFrameLength (data : List UInt8) : BcStatus × ℕ :=
  if data.length < FrameHeader.size then (.notFound, 0)
  else
    let header := FrameHeader.ofBytes data
    if header.magic ≠ bcFrameMagic ∨ header.version ≠ bcFrameVersion then (.invalid, 0)
    else if header.headerLen.toNat ≠ FrameHeader.size then (.invalid, 0)
    else if header.channelLen.toNat ≥ bcMaxChannelLen then (.invalid, 0)
    else if header.topicLen.toNat = 0 ∨ header.topicLen.toNat ≥ bcMaxTopicLen then (.invalid, 0)
    else if header.payloadLen.toNat > bcMaxPayloadLen then (.invalid, 0)
    else
      let totalLen := FrameHeader.size + header.channelLen.toNat + header.topicLen.toNat
        + header.payloadLen.toNat
      if totalLen > bcMaxFrameLen then (.invalid, 0)
      else (if data.length ≥ totalLen then .ok else .notFound, totalLen)

/-- `bc_protocol_decode`. -/
def bcProtocolDecode (data : List UInt8) : Except BcStatus BcMessage :=
  if data.length < FrameHeader.size then .error .invalid
  else
    let header := FrameHeader.ofBytes data
    if header.magic ≠ bcFrameMagic ∨ header.version ≠ bcFrameVersion then .error .invalid
    else if header.channelLen.toNat ≥ bcMaxChannelLen then .error .invalid
    else if header.topicLen.toNat = 0 ∨ header.topicLen.toNat ≥ bcMaxTopicLen then .error .invalid
    else if header.payloadLen.toNat > bcMaxPayloadLen then .error .invalid
    else if header.headerLen.toNat ≠ FrameHeader.size then .error .invalid
    else if data.length < FrameHeader.size + header.channelLen.toNat + header.topicLen.toNat
        + header.payloadLen.toNat then .error .invalid
    else
      if bcCrc32 (header.payloadOf data) ≠ header.checksum then .error .invalid
      else .ok (header.toMessage data)

section Checks

variable {ε α : Type} {p : Prop} [Decidable p] {x : Except ε α} {e e' : ε} {a : α}

/-- A check is passed by what is accepted. -/
theorem ite_error_eq_ok : (if p then .error e else x) = .ok a ↔ ¬ p ∧ x = .ok a := by
  split_ifs with h
  · simp [h]
  · simp [h]

/-- A row of checks that all refuse alike. -/
theorem eq_of_ite_error (hx : x = .error e' → e' = e)
    (h : (if p then .error e else x) = .error e') : e' = e := by
  split_ifs at h
  · exact (Except.error.inj h).symm
  · exact hx h

end Checks

/-- A header is accepted when all its fields pass; the limits together keep a
frame well below the size of the frame buffer. -/
theorem FrameHeader.Valid.total_le {h : FrameHeader} (hv : h.Valid) : h.total ≤ 1530 := by
  have h₁ := hv.channelLen
  have h₂ := hv.topicLen
  have h₃ := hv.payloadLen
  simp only [total, size, bcMaxChannelLen, bcMaxTopicLen, bcMaxPayloadLen] at *
  omega

theorem FrameHeader.Valid.lt_total {h : FrameHeader} (hv : h.Valid) : size < h.total := by
  have h₁ := hv.topicLen_ne
  simp only [total, size]
  omega

theorem bcProtocolFrameLength_of_short {data : List UInt8} (h : data.length < FrameHeader.size) :
    bcProtocolFrameLength data = (.notFound, 0) := by
  rw [bcProtocolFrameLength, if_pos h]

theorem bcProtocolFrameLength_of_valid {data : List UInt8} (h : FrameHeader.size ≤ data.length)
    (hv : (FrameHeader.ofBytes data).Valid) :
    bcProtocolFrameLength data =
      (if data.length ≥ (FrameHeader.ofBytes data).total then .ok else .notFound,
        (FrameHeader.ofBytes data).total) := by
  have htotal := hv.total_le
  obtain ⟨h₁, h₂, h₃, h₄, h₅, h₆, h₇⟩ := hv
  simp only [FrameHeader.total] at htotal
  simp only [bcProtocolFrameLength, FrameHeader.total, ge_iff_le]
  rw [if_neg (by omega), if_neg (by simp [h₁, h₂]), if_neg (by simp [h₃]), if_neg (by omega),
    if_neg (by omega), if_neg (by omega), if_neg (by simp only [bcMaxFrameLen]; omega)]

theorem bcProtocolFrameLength_of_not_valid {data : List UInt8}
    (h : FrameHeader.size ≤ data.length) (hv : ¬ (FrameHeader.ofBytes data).Valid) :
    bcProtocolFrameLength data = (.invalid, 0) := by
  simp only [bcProtocolFrameLength]
  rw [if_neg (by omega)]
  split_ifs with h₁ h₂ h₃ h₄ h₅ h₆ <;> try rfl
  -- All five tests passed, so the header is valid after all.
  all_goals
    push Not at h₁ h₂ h₄
    exact absurd ⟨h₁.1, h₁.2, h₂, by omega, h₄.1, h₄.2, by omega⟩ hv

/-- `bc_protocol_frame_length` answers by the header alone: too few bytes, a
rejected header, or the announced length and whether it is all there. -/
theorem bcProtocolFrameLength_ok_iff (data : List UInt8) (n : ℕ) :
    bcProtocolFrameLength data = (.ok, n) ↔
      FrameHeader.size ≤ data.length ∧ (FrameHeader.ofBytes data).Valid ∧
        n = (FrameHeader.ofBytes data).total ∧ n ≤ data.length := by
  by_cases hs : data.length < FrameHeader.size
  · rw [bcProtocolFrameLength_of_short hs]
    simp only [Prod.mk.injEq, reduceCtorEq, false_and, false_iff]
    omega
  push Not at hs
  by_cases hv : (FrameHeader.ofBytes data).Valid
  · rw [bcProtocolFrameLength_of_valid hs hv]
    split_ifs with hl
    · simp only [Prod.mk.injEq, true_and, hs, hv]
      omega
    · simp only [Prod.mk.injEq, reduceCtorEq, false_and, false_iff]
      omega
  · rw [bcProtocolFrameLength_of_not_valid hs hv]
    simp [hv]

/-- The decoder accepts exactly the complete frames with a valid header and a
matching checksum, and returns the message laid out in them. -/
theorem bcProtocolDecode_ok_iff (data : List UInt8) (m : BcMessage) :
    bcProtocolDecode data = .ok m ↔
      FrameHeader.size ≤ data.length ∧ (FrameHeader.ofBytes data).Valid ∧
        (FrameHeader.ofBytes data).total ≤ data.length ∧
        bcCrc32 ((FrameHeader.ofBytes data).payloadOf data) = (FrameHeader.ofBytes data).checksum ∧
        m = (FrameHeader.ofBytes data).toMessage data := by
  simp only [bcProtocolDecode, FrameHeader.total]
  constructor
  · intro h
    simp only [ite_error_eq_ok] at h
    obtain ⟨h₁, h₂, h₃, h₄, h₅, h₆, h₇, h₈, h⟩ := h
    push Not at h₂ h₄ h₆ h₈
    refine ⟨by omega, ⟨h₂.1, h₂.2, h₆, by omega, h₄.1, h₄.2, by omega⟩, by omega, h₈, ?_⟩
    exact (Except.ok.inj h).symm
  · rintro ⟨hs, ⟨h₁, h₂, h₃, h₄, h₅, h₆, h₇⟩, htotal, hcrc, rfl⟩
    rw [if_neg (by omega), if_neg (by simp [h₁, h₂]), if_neg (by omega), if_neg (by omega),
      if_neg (by omega), if_neg (by simp [h₃]), if_neg (by omega), if_neg (by simp [hcrc])]

/-- The decoder knows one refusal. -/
theorem bcProtocolDecode_error {data : List UInt8} {e : BcStatus}
    (h : bcProtocolDecode data = .error e) : e = .invalid := by
  revert h
  unfold bcProtocolDecode
  iterate 8 apply eq_of_ite_error
  intro h
  cases h

/-- The encoder accepts exactly the well-formed messages. -/
theorem bcProtocolEncode_of_not_wellFormed {m : BcMessage} (h : ¬ m.WellFormed) :
    bcProtocolEncode m = .error .invalid := by
  simp only [bcProtocolEncode, CBuffer.strnlen_bytes]
  split_ifs with h₁ h₂ h₃ <;> try rfl
  push Not at h₁ h₂
  exact absurd ⟨h₁, h₂.2.1, by simpa using h₂.1, h₂.2.2⟩ h

/-- The header the encoder writes for a message. -/
def headerFor (m : BcMessage) : FrameHeader :=
  { magic := bcFrameMagic, version := bcFrameVersion, headerLen := .ofNat FrameHeader.size,
    srcNode := m.srcNode, dstNode := m.dstNode, flags := m.flags, qos := m.qos, seq := m.seq,
    channelLen := .ofNat m.channel.str.length, topicLen := .ofNat m.topic.str.length,
    payloadLen := .ofNat m.payloadLen, checksum := bcCrc32 m.body }

/-- The bytes of an encoded message. -/
def frameBytes (m : BcMessage) : List UInt8 :=
  (headerFor m).toBytes ++ m.channel.str ++ m.topic.str ++ m.body

theorem bcProtocolEncode_of_wellFormed {m : BcMessage} (h : m.WellFormed) :
    ∃ frame, bcProtocolEncode m = .ok frame ∧ frame.data = frameBytes m := by
  obtain ⟨h₁, h₂, h₃, h₄⟩ := h
  have h₃' : m.topic.str.length ≠ 0 := by simpa using h₃
  unfold CBuffer.Terminated at h₁ h₂
  simp only [bcProtocolEncode, CBuffer.strnlen_bytes]
  rw [if_neg (by omega), if_neg (by omega),
    dif_neg (by simp only [bcMaxFrameLen, FrameHeader.size, bcMaxChannelLen, bcMaxTopicLen,
      bcMaxPayloadLen] at *; omega)]
  refine ⟨_, rfl, ?_⟩
  simp only [frameBytes, headerFor, CBuffer.take_str_length]

end BoardComm
