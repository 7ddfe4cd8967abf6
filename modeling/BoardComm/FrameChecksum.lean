import BoardComm.ProtocolRoundTrip
import BoardComm.ShiftRegister

/-!
# What the frame checksum detects

The bitwise loop of the checksum is a shift register fed with the bits of the
payload, least significant first. The header carries the checksum of the
payload as it was sent, so a payload changed in a burst of at most 32 bits does
not pass the decoder.
-/
namespace BoardComm

open ShiftRegister

/-- The bits of the bytes in order, least significant first within each byte. -/
def bitsOf (bytes : List UInt8) : List Bool :=
  bytes.flatMap fun b => (List.range 8).map b.toBitVec.getLsbD

/-- A frame with its last bytes, the payload, changed by exclusive or. -/
def alterPayload (frame pattern : List UInt8) : List UInt8 :=
  frame.take (frame.length - pattern.length)
    ++ List.zipWith (· ^^^ ·) (frame.drop (frame.length - pattern.length)) pattern

abbrev crcPolynomial : BitVec 32 := 0xedb88320#32

@[simp] theorem bitsOf_nil : bitsOf [] = [] := rfl

@[simp] theorem bitsOf_cons (b : UInt8) (bytes : List UInt8) :
    bitsOf (b :: bytes) = (List.range 8).map b.toBitVec.getLsbD ++ bitsOf bytes := by
  simp [bitsOf]

@[simp] theorem bitsOf_length (bytes : List UInt8) : (bitsOf bytes).length = 8 * bytes.length := by
  induction bytes with
  | nil => rfl
  | cons b bytes ih => simp [ih]; omega

/-- Exclusive or of bytes is exclusive or of their bits. -/
theorem bitsOf_zipWith_xor (xs ys : List UInt8) :
    bitsOf (List.zipWith (· ^^^ ·) xs ys) = List.zipWith xor (bitsOf xs) (bitsOf ys) := by
  induction xs generalizing ys with
  | nil => simp
  | cons x xs ih =>
    cases ys with
    | nil => simp
    | cons y ys =>
      rw [List.zipWith_cons_cons, bitsOf_cons, bitsOf_cons, bitsOf_cons,
        List.zipWith_append (by simp), ih]
      simp

section Register

/-- The low bit as a mask, as the loop computes it. -/
theorem mask_toBitVec (crc : UInt32) :
    (0 - (crc &&& 1)).toBitVec = if crc.toBitVec.getLsbD 0 then 0xffffffff#32 else 0#32 := by
  have hand : (crc &&& 1).toBitVec = BitVec.setWidth 32 (BitVec.ofBool (crc.toBitVec.getLsbD 0)) :=
    BitVec.and_one_eq_setWidth_ofBool_getLsbD
  rw [UInt32.toBitVec_sub, hand]
  cases crc.toBitVec.getLsbD 0 <;> rfl

theorem crcBit_toBitVec (crc : UInt32) :
    (crcBit crc).toBitVec = step crcPolynomial crc.toBitVec := by
  simp only [crcBit, UInt32.toBitVec_xor, UInt32.toBitVec_and, mask_toBitVec, step]
  cases crc.toBitVec.getLsbD 0 <;> rfl

theorem crcBit_iterate_toBitVec (n : ℕ) (crc : UInt32) :
    (crcBit^[n] crc).toBitVec = (step crcPolynomial)^[n] crc.toBitVec := by
  induction n generalizing crc with
  | zero => rfl
  | succ n ih => rw [Function.iterate_succ_apply, Function.iterate_succ_apply, ih, crcBit_toBitVec]

theorem window_byte (b : UInt8) :
    window 32 ((List.range 8).map b.toBitVec.getLsbD) = b.toUInt32.toBitVec := by
  apply BitVec.eq_of_getLsbD_eq
  intro i hi
  rw [getLsbD_window _ i hi, UInt8.toBitVec_toUInt32, BitVec.getLsbD_setWidth]
  by_cases hlow : i < 8
  · simp [hlow, hi]
  · simp [hlow, BitVec.getLsbD_of_ge b.toBitVec i (by omega)]

/-- A byte of the loop feeds the eight bits of the byte. -/
theorem crcByte_toBitVec (crc : UInt32) (b : UInt8) :
    (crcByte crc b).toBitVec =
      feed crcPolynomial crc.toBitVec ((List.range 8).map b.toBitVec.getLsbD) := by
  rw [feed_eq_window _ _ _ (by simp), window_byte, crcByte, crcBit_iterate_toBitVec,
    UInt32.toBitVec_xor]
  simp

theorem foldl_crcByte_toBitVec (crc : UInt32) (bytes : List UInt8) :
    (bytes.foldl crcByte crc).toBitVec = feed crcPolynomial crc.toBitVec (bitsOf bytes) := by
  induction bytes generalizing crc with
  | nil => rfl
  | cons b bytes ih => rw [List.foldl_cons, ih, crcByte_toBitVec, bitsOf_cons, feed_append]

/-- A burst of at most 32 bits changes the checksum of any bytes. -/
theorem bcCrc32_burst_ne {bytes pattern : List UInt8} (hlen : bytes.length = pattern.length)
    {start : ℕ} (hwindow : ∀ i : ℕ, (bitsOf pattern)[i]? = some true → start ≤ i ∧ i < start + 32)
    (hne : true ∈ bitsOf pattern) :
    bcCrc32 (List.zipWith (· ^^^ ·) bytes pattern) ≠ bcCrc32 bytes := by
  intro heq
  have hfold := congrArg UInt32.toBitVec (UInt32.not_inj.mp heq)
  rw [foldl_crcByte_toBitVec, foldl_crcByte_toBitVec, bitsOf_zipWith_xor] at hfold
  exact feed_zipWith_xor_ne (by decide) _ (by simp [hlen]) hwindow hne hfold

end Register

section Frames

variable {m : BcMessage} {pattern : List UInt8}

/-- Only the payload of an encoded message is touched. -/
theorem alterPayload_frameBytes (h : m.WellFormed) (hlen : pattern.length = m.payloadLen) :
    alterPayload (frameBytes m) pattern =
      (headerFor m).toBytes ++ m.channel.str ++ m.topic.str
        ++ List.zipWith (· ^^^ ·) m.body pattern := by
  have hbody : m.body.length = pattern.length := by
    rw [hlen, BcMessage.body_length h.payloadLen]
  have hat : (frameBytes m).length - pattern.length
      = ((headerFor m).toBytes ++ m.channel.str ++ m.topic.str).length := by
    rw [frameBytes, List.length_append, ← hbody]
    omega
  rw [alterPayload, hat, frameBytes, List.take_left, List.drop_left]

/-- A frame with another payload of the announced length passes exactly when the
checksum in its header is that of the new payload. -/
theorem decode_of_payload (h : m.WellFormed) {payload : List UInt8}
    (hlen : payload.length = m.payloadLen) (hcrc : bcCrc32 payload ≠ bcCrc32 m.body) :
    bcProtocolDecode ((headerFor m).toBytes ++ m.channel.str ++ m.topic.str ++ payload)
      = .error .invalid := by
  set data := (headerFor m).toBytes ++ m.channel.str ++ m.topic.str ++ payload with hdata
  have hheader : FrameHeader.ofBytes data = headerFor m := by
    rw [hdata, List.append_assoc, List.append_assoc]
    exact FrameHeader.ofBytes_toBytes_append _ _
  have hpayload : (headerFor m).payloadOf data = payload := by
    rw [FrameHeader.payloadOf, headerFor_channelLen h, headerFor_topicLen h, headerFor_payloadLen h,
      ← List.drop_drop, ← List.drop_drop, hdata]
    simp [List.append_assoc, ← hlen]
  cases hdec : bcProtocolDecode data with
  | error e => rw [bcProtocolDecode_error hdec]
  | ok message =>
    obtain ⟨-, -, -, hsum, -⟩ := (bcProtocolDecode_ok_iff data message).mp hdec
    rw [hheader, hpayload] at hsum
    exact absurd hsum hcrc

/-- The payload of an encoded frame changed within 32 consecutive bits, and
changed at all: the decoder rejects the frame. -/
theorem bcProtocolDecode_payload_burst {frame : BcFrame} (henc : bcProtocolEncode m = .ok frame)
    (hlen : pattern.length = m.payloadLen) (start : ℕ)
    (hwindow : ∀ i : ℕ, (bitsOf pattern)[i]? = some true → start ≤ i ∧ i < start + 32)
    (hne : true ∈ bitsOf pattern) :
    bcProtocolDecode (alterPayload frame.data pattern) = .error .invalid := by
  have h : m.WellFormed := by
    by_contra hnot
    rw [bcProtocolEncode_of_not_wellFormed hnot] at henc
    simp at henc
  obtain ⟨frame', henc', hdata⟩ := bcProtocolEncode_of_wellFormed h
  obtain rfl : frame = frame' := by simpa [henc] using henc'
  have hbody : m.body.length = pattern.length := by
    rw [hlen, BcMessage.body_length h.payloadLen]
  rw [hdata, alterPayload_frameBytes h hlen]
  exact decode_of_payload h (by simp [hbody, hlen]) (bcCrc32_burst_ne hbody hwindow hne)

/-- Four payload bytes with bits changed in the first and in the last of them. -/
theorem bcProtocolDecode_payload_burst_four :
    ∃ frame, bcProtocolEncode { plainMessage with payloadLen := 4 } = .ok frame ∧
      bcProtocolDecode (alterPayload frame.data [0x10, 0, 0, 0x0f]) = .error .invalid := by
  have h : ({ plainMessage with payloadLen := 4 } : BcMessage).WellFormed := by decide +kernel
  obtain ⟨frame, henc, -⟩ := bcProtocolEncode_of_wellFormed h
  refine ⟨frame, henc, bcProtocolDecode_payload_burst henc rfl 0 ?_ (by decide)⟩
  intro i hi
  obtain ⟨hlt, -⟩ := List.getElem?_eq_some_iff.mp hi
  simpa using hlt

end Frames

end BoardComm
