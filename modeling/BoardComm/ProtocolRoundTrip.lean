import BoardComm.Protocol

/-!
# Encoding and decoding are inverse

From a message to its frame and back the codec is exact, and it is exact under
any bytes that follow the frame. From a frame to its message and back it is
exact only when the topic and channel bytes hold no zero: the decoder takes the
two lengths from the header, the encoder measures the strings again.
-/
namespace BoardComm

/-- A message with the topic `t` and nothing else. -/
def plainMessage : BcMessage :=
  { BcMessage.zero with srcNode := 7, seq := 1, topic := .ofPrefix _ [116] }

section FromMessage

variable {m : BcMessage}

theorem headerFor_channelLen (h : m.WellFormed) :
    (headerFor m).channelLen.toNat = m.channel.str.length := by
  have hc := h.channel
  unfold CBuffer.Terminated at hc
  exact UInt16.toNat_ofNat_of_lt' (by simp only [bcMaxChannelLen, UInt16.size] at *; omega)

theorem headerFor_topicLen (h : m.WellFormed) :
    (headerFor m).topicLen.toNat = m.topic.str.length := by
  have ht := h.topic
  unfold CBuffer.Terminated at ht
  exact UInt16.toNat_ofNat_of_lt' (by simp only [bcMaxTopicLen, UInt16.size] at *; omega)

theorem headerFor_payloadLen (h : m.WellFormed) :
    (headerFor m).payloadLen.toNat = m.payloadLen := by
  have hp := h.payloadLen
  exact UInt32.toNat_ofNat_of_lt' (by simp only [bcMaxPayloadLen, UInt32.size] at *; omega)

theorem headerFor_valid (h : m.WellFormed) : (headerFor m).Valid := by
  refine ⟨rfl, rfl, rfl, ?_, ?_, ?_, ?_⟩
  · rw [headerFor_channelLen h]
    exact h.channel
  · rw [headerFor_topicLen h]
    simpa using h.topic_ne
  · rw [headerFor_topicLen h]
    exact h.topic
  · rw [headerFor_payloadLen h]
    exact h.payloadLen

theorem frameBytes_length (h : m.WellFormed) :
    (frameBytes m).length =
      FrameHeader.size + m.channel.str.length + m.topic.str.length + m.payloadLen := by
  simp only [frameBytes, List.length_append, FrameHeader.toBytes_length,
    BcMessage.body_length h.payloadLen]

theorem headerFor_total (h : m.WellFormed) : (headerFor m).total = (frameBytes m).length := by
  rw [frameBytes_length h, FrameHeader.total, headerFor_channelLen h, headerFor_topicLen h,
    headerFor_payloadLen h]

theorem ofBytes_frameBytes_append (m : BcMessage) (s : List UInt8) :
    FrameHeader.ofBytes (frameBytes m ++ s) = headerFor m := by
  simp only [frameBytes, List.append_assoc]
  exact FrameHeader.ofBytes_toBytes_append _ _

theorem size_le_frameBytes (m : BcMessage) : FrameHeader.size ≤ (frameBytes m).length := by
  simp only [frameBytes, List.length_append, FrameHeader.toBytes_length]
  omega

theorem channelOf_frameBytes (h : m.WellFormed) (s : List UInt8) :
    (headerFor m).channelOf (frameBytes m ++ s) = m.channel.str := by
  rw [FrameHeader.channelOf, headerFor_channelLen h]
  simp [frameBytes, List.append_assoc]

theorem topicOf_frameBytes (h : m.WellFormed) (s : List UInt8) :
    (headerFor m).topicOf (frameBytes m ++ s) = m.topic.str := by
  rw [FrameHeader.topicOf, headerFor_channelLen h, headerFor_topicLen h, ← List.drop_drop]
  simp [frameBytes, List.append_assoc]

theorem payloadOf_frameBytes (h : m.WellFormed) (s : List UInt8) :
    (headerFor m).payloadOf (frameBytes m ++ s) = m.body := by
  have hlen := BcMessage.body_length h.payloadLen
  rw [FrameHeader.payloadOf, headerFor_channelLen h, headerFor_topicLen h, headerFor_payloadLen h,
    ← List.drop_drop, ← List.drop_drop]
  simp [frameBytes, List.append_assoc, ← hlen]

theorem frameLength_frameBytes_append (h : m.WellFormed) (s : List UInt8) :
    bcProtocolFrameLength (frameBytes m ++ s) = (.ok, (frameBytes m).length) := by
  rw [bcProtocolFrameLength_ok_iff, ofBytes_frameBytes_append, headerFor_total h]
  have hsize := size_le_frameBytes m
  refine ⟨?_, headerFor_valid h, rfl, ?_⟩ <;> simp only [List.length_append] <;> omega

/-- Bytes that stop before the end that their header announces are either too short for
a header or carry it, so the answer is to wait for more bytes. -/
theorem frameLength_of_part {p q : List UInt8} (hv : (FrameHeader.ofBytes (p ++ q)).Valid)
    (hlt : p.length < (FrameHeader.ofBytes (p ++ q)).total) :
    (bcProtocolFrameLength p).1 = .notFound := by
  by_cases hs : p.length < FrameHeader.size
  · rw [bcProtocolFrameLength_of_short hs]
  push Not at hs
  rw [FrameHeader.ofBytes_append p q hs] at hv hlt
  rw [bcProtocolFrameLength_of_valid hs hv, if_neg (by omega)]

theorem frameLength_of_proper_isPrefix (h : m.WellFormed) {p : List UInt8}
    (hp : p <+: frameBytes m) (hne : p ≠ frameBytes m) :
    (bcProtocolFrameLength p).1 = .notFound := by
  have hlt : p.length < (frameBytes m).length :=
    lt_of_le_of_ne hp.length_le fun he => hne (hp.eq_of_length he)
  obtain ⟨q, hq⟩ := hp
  have hheader : FrameHeader.ofBytes (p ++ q) = headerFor m := by
    rw [hq]
    simpa using ofBytes_frameBytes_append m []
  apply frameLength_of_part (hheader ▸ headerFor_valid h)
  rw [hheader, headerFor_total h]
  exact hlt

theorem decode_frameBytes_append (h : m.WellFormed) (s : List UInt8) :
    bcProtocolDecode (frameBytes m ++ s) = .ok m.canonical := by
  have hsize := size_le_frameBytes m
  have hb := ofBytes_frameBytes_append m s
  rw [bcProtocolDecode_ok_iff, hb, headerFor_total h, payloadOf_frameBytes h]
  refine ⟨by simp only [List.length_append]; omega, headerFor_valid h,
    by simp only [List.length_append]; omega, rfl, ?_⟩
  simp only [FrameHeader.toMessage, channelOf_frameBytes h, topicOf_frameBytes h,
    payloadOf_frameBytes h, headerFor_payloadLen h, BcMessage.canonical]
  rfl

theorem decode_frameBytes (h : m.WellFormed) :
    bcProtocolDecode (frameBytes m) = .ok m.canonical := by
  have hdecode := decode_frameBytes_append h []
  rwa [List.append_nil] at hdecode

/-- The whole wire format: a well-formed message becomes a frame of the summed
length; any bytes may follow it; every proper prefix is incomplete; and decoding
returns what was encoded. Every other message is refused. -/
theorem bcProtocol_roundTrip (m : BcMessage) :
    (m.WellFormed →
      ∃ frame, bcProtocolEncode m = .ok frame ∧
        frame.data.length =
          36 + m.channel.str.length + m.topic.str.length + m.payloadLen ∧
        frame.data.length ≤ bcMaxFrameLen ∧
        (∀ s, bcProtocolFrameLength (frame.data ++ s) = (.ok, frame.data.length)) ∧
        (∀ p, p <+: frame.data → p ≠ frame.data → (bcProtocolFrameLength p).1 = .notFound) ∧
        ∀ s, ∃ m', bcProtocolDecode (frame.data ++ s) = .ok m' ∧ m'.Same m) ∧
      (¬ m.WellFormed → bcProtocolEncode m = .error .invalid) := by
  refine ⟨fun h => ?_, bcProtocolEncode_of_not_wellFormed⟩
  obtain ⟨frame, henc, hdata⟩ := bcProtocolEncode_of_wellFormed h
  refine ⟨frame, henc, ?_, frame.len_le, ?_, ?_, ?_⟩
  · rw [hdata, frameBytes_length h]
  · intro s
    rw [hdata]
    exact frameLength_frameBytes_append h s
  · intro p hp hne
    rw [hdata] at hp hne
    exact frameLength_of_proper_isPrefix h hp hne
  · intro s
    rw [hdata]
    exact ⟨m.canonical, decode_frameBytes_append h s, BcMessage.canonical_same h⟩

end FromMessage

section FromFrame

variable {data : List UInt8} {n : ℕ} {m : BcMessage}

/-- A complete frame is its header followed by the three parts the header names. -/
theorem take_total_eq_parts (h : (FrameHeader.ofBytes data).total ≤ data.length) :
    data.take (FrameHeader.ofBytes data).total =
      (FrameHeader.ofBytes data).toBytes ++ (FrameHeader.ofBytes data).channelOf data
        ++ (FrameHeader.ofBytes data).topicOf data
        ++ (FrameHeader.ofBytes data).payloadOf data := by
  have hsize : FrameHeader.size ≤ data.length := by
    simp only [FrameHeader.total] at h
    omega
  rw [FrameHeader.toBytes_ofBytes data hsize]
  simp only [FrameHeader.total, FrameHeader.channelOf, FrameHeader.topicOf, FrameHeader.payloadOf,
    List.take_add]

/-- Cutting a complete frame out of a longer stream does not change its message. -/
theorem toMessage_take_total (data : List UInt8) :
    (FrameHeader.ofBytes data).toMessage (data.take (FrameHeader.ofBytes data).total) =
      (FrameHeader.ofBytes data).toMessage data := by
  have hle : ∀ (off w : ℕ), off + w ≤ (FrameHeader.ofBytes data).total →
      ((data.take (FrameHeader.ofBytes data).total).drop off).take w = (data.drop off).take w := by
    intro off w hw
    rw [List.drop_take, List.take_take, min_eq_left (by omega)]
  simp only [FrameHeader.toMessage, FrameHeader.channelOf, FrameHeader.topicOf,
    FrameHeader.payloadOf]
  rw [hle _ _ (by simp only [FrameHeader.total]; omega),
    hle _ _ (by simp only [FrameHeader.total]; omega),
    hle _ _ (by simp only [FrameHeader.total]; omega)]

theorem payloadOf_take_total (data : List UInt8) :
    (FrameHeader.ofBytes data).payloadOf (data.take (FrameHeader.ofBytes data).total) =
      (FrameHeader.ofBytes data).payloadOf data := by
  simp only [FrameHeader.payloadOf, List.drop_take, List.take_take]
  rw [min_eq_left (by simp only [FrameHeader.total]; omega)]

/-- The decoder on a frame cut to the announced length. -/
theorem decode_take_iff_of_frameLength (hlen : bcProtocolFrameLength data = (.ok, n)) :
    bcProtocolDecode (data.take n) = .ok m ↔
      bcCrc32 ((FrameHeader.ofBytes data).payloadOf data) = (FrameHeader.ofBytes data).checksum ∧
        m = (FrameHeader.ofBytes data).toMessage data := by
  obtain ⟨hsize, hv, rfl, hle⟩ := (bcProtocolFrameLength_ok_iff data n).mp hlen
  have hlt := hv.lt_total
  have hheader := FrameHeader.ofBytes_take hlt.le hle
  rw [bcProtocolDecode_ok_iff, hheader, payloadOf_take_total, toMessage_take_total,
    List.length_take_of_le hle]
  constructor
  · rintro ⟨-, -, -, hcrc, hm⟩
    exact ⟨hcrc, hm⟩
  · rintro ⟨hcrc, hm⟩
    exact ⟨hlt.le, hv, le_rfl, hcrc, hm⟩

/-- The header the encoder writes for a decoded message is the one received,
provided the strings have the lengths the header gave them. -/
theorem headerFor_toMessage (hv : (FrameHeader.ofBytes data).Valid)
    (hcrc : bcCrc32 m.body = (FrameHeader.ofBytes data).checksum)
    (hm : m = (FrameHeader.ofBytes data).toMessage data)
    (hc : m.channel.str.length = (FrameHeader.ofBytes data).channelLen.toNat)
    (ht : m.topic.str.length = (FrameHeader.ofBytes data).topicLen.toNat) :
    headerFor m = FrameHeader.ofBytes data := by
  have hlen : UInt16.ofNat FrameHeader.size = (FrameHeader.ofBytes data).headerLen := by
    rw [← hv.headerLen, UInt16.ofNat_toNat]
  have hp : m.payloadLen = (FrameHeader.ofBytes data).payloadLen.toNat := by rw [hm]; rfl
  rw [headerFor, hc, ht, hp, hcrc, hlen, UInt16.ofNat_toNat, UInt16.ofNat_toNat,
    UInt32.ofNat_toNat, ← hv.magic, ← hv.version, hm]
  rfl

/-- Encoding a decoded message reproduces the received frame exactly when
neither the channel bytes nor the topic bytes of that frame contain a zero. -/
theorem encode_decoded_iff (hlen : bcProtocolFrameLength data = (.ok, n))
    (hdec : bcProtocolDecode (data.take n) = .ok m) :
    (∃ frame, bcProtocolEncode m = .ok frame ∧ frame.data = data.take n) ↔
      (0 : UInt8) ∉ (FrameHeader.ofBytes data).channelOf data ∧
        (0 : UInt8) ∉ (FrameHeader.ofBytes data).topicOf data := by
  obtain ⟨hcrc, hm⟩ := (decode_take_iff_of_frameLength hlen).mp hdec
  obtain ⟨hsize, hv, rfl, hle⟩ := (bcProtocolFrameLength_ok_iff data n).mp hlen
  have hparts := take_total_eq_parts hle
  set h := FrameHeader.ofBytes data with hh
  -- The lengths of the three parts, and the strings the decoded message holds.
  have hcl : (h.channelOf data).length = h.channelLen.toNat := by
    simp only [FrameHeader.channelOf, List.length_take, List.length_drop, FrameHeader.total] at *
    omega
  have htl : (h.topicOf data).length = h.topicLen.toNat := by
    simp only [FrameHeader.topicOf, List.length_take, List.length_drop, FrameHeader.total] at *
    omega
  have hpl : (h.payloadOf data).length = h.payloadLen.toNat := by
    simp only [FrameHeader.payloadOf, List.length_take, List.length_drop, FrameHeader.total] at *
    omega
  have hchan : m.channel.str = CBuffer.cstr (h.channelOf data) := by
    rw [hm]
    exact CBuffer.str_ofPrefix (by rw [hcl]; exact hv.channelLen)
  have htop : m.topic.str = CBuffer.cstr (h.topicOf data) := by
    rw [hm]
    exact CBuffer.str_ofPrefix (by rw [htl]; exact hv.topicLen)
  have hbody : m.body = h.payloadOf data := by
    have hfit : (h.payloadOf data).length ≤ bcMaxPayloadLen := hpl ▸ hv.payloadLen
    have htake := CBuffer.take_ofPrefix hfit
    rw [hpl] at htake
    rw [hm]
    exact htake
  constructor
  · rintro ⟨frame, henc, hdata⟩
    have hw : m.WellFormed := by
      by_contra hn
      rw [bcProtocolEncode_of_not_wellFormed hn] at henc
      cases henc
    obtain ⟨frame', henc', hdata'⟩ := bcProtocolEncode_of_wellFormed hw
    obtain rfl : frame = frame' := by rw [henc] at henc'; exact Except.ok.inj henc'
    have hl := congrArg List.length (hdata.symm.trans hdata')
    rw [frameBytes_length hw, hchan, htop, List.length_take, min_eq_left hle,
      ← BcMessage.body_length hw.payloadLen, hbody, hpl, FrameHeader.total] at hl
    have h₁ := CBuffer.cstr_length_le (h.channelOf data)
    have h₂ := CBuffer.cstr_length_le (h.topicOf data)
    rw [← CBuffer.cstr_length_lt_iff, ← CBuffer.cstr_length_lt_iff]
    omega
  · rintro ⟨hc0, ht0⟩
    rw [CBuffer.cstr_of_not_mem _ hc0] at hchan
    rw [CBuffer.cstr_of_not_mem _ ht0] at htop
    have hw : m.WellFormed := by
      refine ⟨?_, ?_, ?_, ?_⟩
      · rw [CBuffer.Terminated, hchan, hcl]
        exact hv.channelLen
      · rw [CBuffer.Terminated, htop, htl]
        exact hv.topicLen
      · intro he
        have h0 := congrArg List.length (htop.symm.trans he)
        rw [htl] at h0
        exact hv.topicLen_ne h0
      · rw [hm]
        exact hv.payloadLen
    obtain ⟨frame, henc, hdata⟩ := bcProtocolEncode_of_wellFormed hw
    refine ⟨frame, henc, ?_⟩
    rw [hdata, frameBytes, headerFor_toMessage hv (by rw [hbody, hcrc]) hm
      (by rw [hchan, hcl]) (by rw [htop, htl]), ← hh, hchan, htop, hbody, hparts]

/-- A frame whose one-byte topic is the zero byte. -/
def nulTopicFrame : List UInt8 :=
  ({ magic := bcFrameMagic, version := bcFrameVersion, headerLen := 36, srcNode := 7, dstNode := 0,
     flags := 0, qos := 0, seq := 1, channelLen := 0, topicLen := 1, payloadLen := 0,
     checksum := bcCrc32 [] } : FrameHeader).toBytes ++ [0]

/-- The decoder accepts it and hands out a message with an empty topic, which
the encoder refuses. -/
theorem nulTopicFrame_not_reproduced :
    bcProtocolFrameLength nulTopicFrame = (.ok, 37) ∧
      ∃ m, bcProtocolDecode (nulTopicFrame.take 37) = .ok m ∧ m.topic.str = [] ∧
        bcProtocolEncode m = .error .invalid := by
  refine ⟨by decide +kernel, (FrameHeader.ofBytes nulTopicFrame).toMessage nulTopicFrame,
    by decide +kernel, by decide +kernel, by decide +kernel⟩

/-- A frame with topic `t` and no payload comes back unchanged. -/
theorem encode_decoded_iff_plain :
    (∃ frame, bcProtocolEncode ((FrameHeader.ofBytes (frameBytes plainMessage)).toMessage
        (frameBytes plainMessage)) = .ok frame ∧ frame.data = (frameBytes plainMessage).take 37) ↔
      (0 : UInt8) ∉ (FrameHeader.ofBytes (frameBytes plainMessage)).channelOf
          (frameBytes plainMessage) ∧
        (0 : UInt8) ∉ (FrameHeader.ofBytes (frameBytes plainMessage)).topicOf
          (frameBytes plainMessage) :=
  encode_decoded_iff (by decide +kernel) (by decide +kernel)

end FromFrame

end BoardComm
