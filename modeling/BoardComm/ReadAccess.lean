import BoardComm.CheckedAccess
import BoardComm.ClientSdk

/-!
# The arrays of a reader

`read_ipc_deliver` fills the arrays of its caller from a socket, or from a record that
it has copied out of the ring. Three branches check the lengths in the header, and each
of them checks others.
-/
namespace BoardComm

open Checked

/-- What `read_ipc_deliver` writes, its header among it, and the record that it reads. -/
inductive ReadArea
  | header
  | channel
  | topic
  | payload
  | record
  deriving DecidableEq, Repr

section Calls

/-- `read_all` into an array of `bound` bytes. What comes before the peer closes is
written. -/
def sdkReadAllChecked (area : ReadArea) (bound n : ℕ) (stream : List UInt8) :
    Run ReadArea (Option (List UInt8 × List UInt8)) := do
  span area bound 0 (min n stream.length)
  .ok (sdkReadAll n stream)

/-- The socket half of `read_ipc_deliver`, access by access. -/
def readIpcDeliverSocketChecked (topicCap payloadCap : ℕ) (poll : PollAnswer)
    (stream : List UInt8) : Run ReadArea (Except BcStatus (SdkRead × List UInt8)) :=
  match poll with
  | .timeout => .ok (.error .timeout)
  | .error => .ok (.error .io)
  | .readable => do
    match ← sdkReadAllChecked .header IpcHeader.size IpcHeader.size stream with
    | none => .ok (.error .io)
    | some (data, stream) =>
      let header := IpcHeader.ofBytes data
      if header.magic ≠ bcIpcMagic then .ok (.error .io)
      else if header.type = bcIpcStats then
        match ← sdkReadAllChecked .payload payloadCap header.payloadLen.toNat stream with
        | none => .ok (.error .io)
        | some (payload, stream) => .ok (.ok (⟨none, payload⟩, stream))
      else if header.type ≠ bcIpcDeliver then .ok (.error .io)
      else if header.channelLen.toNat ≥ bcMaxChannelLen ∨ header.topicLen = 0 ∨
          header.topicLen.toNat ≥ bcMaxTopicLen ∨ header.payloadLen.toNat > bcMaxPayloadLen ∨
          topicCap ≤ header.topicLen.toNat ∨ payloadCap < header.payloadLen.toNat then
        .ok (.error .io)
      else
        match ← sdkReadAllChecked .channel bcMaxChannelLen header.channelLen.toNat stream with
        | none => .ok (.error .io)
        | some (_, stream) =>
          match ← sdkReadAllChecked .topic topicCap header.topicLen.toNat stream with
          | none => .ok (.error .io)
          | some (topic, stream) =>
            match ← sdkReadAllChecked .payload payloadCap header.payloadLen.toNat stream with
            | none => .ok (.error .io)
            | some (payload, stream) => do
              access .topic topicCap header.topicLen.toNat
              .ok (.ok (⟨some topic, payload⟩, stream))

/-- The `parse_frame` half of `read_ipc_deliver`, access by access. -/
def parseDeliverFrameChecked (topicCap payloadCap : ℕ) (data stale : List UInt8) :
    Run ReadArea (Except BcStatus SdkRead) :=
  if data.length < bcIpcHeaderSize bcIpcVersion then .ok (.error .io)
  else do
    span .record data.length 0 IpcHeader.size
    span .header IpcHeader.size 0 IpcHeader.size
    let header := IpcHeader.ofBytes data
    if header.magic ≠ bcIpcMagic ∨ header.type ≠ bcIpcDeliver then .ok (.error .io)
    else if header.topicLen = 0 ∨ header.topicLen.toNat ≥ bcMaxTopicLen ∨
        header.payloadLen.toNat > bcMaxPayloadLen ∨ topicCap ≤ header.topicLen.toNat ∨
        payloadCap < header.payloadLen.toNat then .ok (.error .io)
    else do
      let off := bcIpcHeaderSize header.version + header.channelLen.toNat
      let frame := (data ++ stale).drop off
      span .record data.length off header.topicLen.toNat
      span .topic topicCap 0 header.topicLen.toNat
      access .topic topicCap header.topicLen.toNat
      span .record data.length (off + header.topicLen.toNat) header.payloadLen.toNat
      span .payload payloadCap 0 header.payloadLen.toNat
      .ok (.ok ⟨some (frame.take header.topicLen.toNat),
        (frame.drop header.topicLen.toNat).take header.payloadLen.toNat⟩)

/-- `read_ipc_deliver`, access by access. -/
def readIpcDeliverChecked (topicCap payloadCap : ℕ) (ring : Option RingRead) (poll : PollAnswer)
    (stream : List UInt8) : Run ReadArea (Except BcStatus (SdkRead × List UInt8)) :=
  if topicCap = 0 then .ok (.error .invalid)
  else
    match ring with
    | none => readIpcDeliverSocketChecked topicCap payloadCap poll stream
    | some (.frame data stale) => do
      let read ← parseDeliverFrameChecked topicCap payloadCap data stale
      .ok (read.map fun read => (read, stream))
    | some (.status rc) =>
      if rc = .notFound then readIpcDeliverSocketChecked topicCap payloadCap poll stream
      else .ok (.error rc)

end Calls

section Lengths

variable {topicCap payloadCap : ℕ} {stream data stale : List UInt8}

/-- A reply with statistics, or as much of it as comes, fits the array for a payload. -/
def StatsFits (payloadCap : ℕ) (stream : List UInt8) : Prop :=
  let header := IpcHeader.ofBytes (stream.take IpcHeader.size)
  IpcHeader.size ≤ stream.length → header.magic = bcIpcMagic → header.type = bcIpcStats →
    min header.payloadLen.toNat (stream.length - IpcHeader.size) ≤ payloadCap

/-- A record whose header is accepted is as long as its header says. -/
def RecordFits (topicCap payloadCap : ℕ) (data : List UInt8) : Prop :=
  let header := IpcHeader.ofBytes data
  IpcHeader.size ≤ data.length → header.magic = bcIpcMagic → header.type = bcIpcDeliver →
    header.topicLen ≠ 0 → header.topicLen.toNat < min bcMaxTopicLen topicCap →
    header.payloadLen.toNat ≤ min bcMaxPayloadLen payloadCap →
    header.total (bcIpcHeaderSize header.version) ≤ data.length

/-- What the peer has to send for a call to stay inside the arrays. -/
def InputFits (topicCap payloadCap : ℕ) (poll : PollAnswer) (stream : List UInt8) :
    Option RingRead → Prop
  | some (.frame data _) => RecordFits topicCap payloadCap data
  | some (.status .notFound) | none => poll = .readable → StatsFits payloadCap stream
  | some (.status _) => True

theorem sdkReadAllChecked_eq_ok {area : ReadArea} {bound n : ℕ}
    {r : Option (List UInt8 × List UInt8)} :
    sdkReadAllChecked area bound n stream = .ok r ↔
      min n stream.length ≤ bound ∧ r = sdkReadAll n stream := by
  simp only [sdkReadAllChecked, bind_eq_ok, span_eq_ok, exists_const, Nat.zero_add, Except.ok.injEq]
  apply and_congr
  · omega
  · exact eq_comm

theorem sdkReadAllChecked_of_le {area : ReadArea} {bound n : ℕ} (h : n ≤ bound) :
    sdkReadAllChecked area bound n stream = .ok (sdkReadAll n stream) :=
  sdkReadAllChecked_eq_ok.mpr ⟨(min_le_left _ _).trans h, rfl⟩

theorem sdkReadAll_some {n : ℕ} {bytes rest : List UInt8}
    (h : sdkReadAll n stream = some (bytes, rest)) :
    n ≤ stream.length ∧ bytes = stream.take n ∧ rest = stream.drop n := by
  unfold sdkReadAll at h
  split_ifs at h with hshort
  obtain ⟨rfl, rfl⟩ := Prod.mk.inj (Option.some.inj h)
  exact ⟨not_lt.mp hshort, rfl, rfl⟩

theorem readIpcDeliverSocketChecked_eq_ok {poll : PollAnswer}
    {r : Except BcStatus (SdkRead × List UInt8)} :
    readIpcDeliverSocketChecked topicCap payloadCap poll stream = .ok r ↔
      (poll = .readable → StatsFits payloadCap stream) ∧
        r = readIpcDeliverSocket topicCap payloadCap poll stream := by
  cases poll with
  | timeout => simp [readIpcDeliverSocketChecked, readIpcDeliverSocket, eq_comm]
  | error => simp [readIpcDeliverSocketChecked, readIpcDeliverSocket, eq_comm]
  | readable =>
    unfold readIpcDeliverSocketChecked readIpcDeliverSocket StatsFits
    simp only [sdkReadAllChecked_of_le (le_refl IpcHeader.size), ok_bind, forall_const]
    cases hread : sdkReadAll IpcHeader.size stream with
    | none =>
      have hshort : ¬ IpcHeader.size ≤ stream.length := by
        intro hlen
        simp [sdkReadAll, hlen.not_gt] at hread
      simp only [hshort, false_imp_iff, true_and, Except.ok.injEq]
      exact eq_comm
    | some p =>
      obtain ⟨data, rest⟩ := p
      obtain ⟨hlen, rfl, rfl⟩ := sdkReadAll_some hread
      rw [← List.length_drop]
      simp only [hlen, true_imp_iff]
      generalize IpcHeader.ofBytes (stream.take IpcHeader.size) = header
      generalize stream.drop IpcHeader.size = rest
      by_cases hmagic : header.magic = bcIpcMagic
      swap
      · simp [hmagic, eq_comm]
      by_cases hstats : header.type = bcIpcStats
      · -- the reply is read up to the length that it announces
        simp only [hmagic, hstats, ne_eq, not_true_eq_false, if_false, if_true, true_imp_iff,
          bind_eq_ok, sdkReadAllChecked_eq_ok, and_assoc, exists_and_left, exists_eq_left]
        apply and_congr_right
        intro _
        cases sdkReadAll header.payloadLen.toNat rest with
        | none => simp [eq_comm]
        | some p => simp [eq_comm]
      by_cases hdeliver : header.type = bcIpcDeliver
      swap
      · simp [hmagic, hstats, hdeliver, eq_comm]
      have hother : bcIpcDeliver ≠ bcIpcStats := by decide
      simp only [hmagic, hdeliver, hother, ne_eq, not_true_eq_false, if_false, false_imp_iff,
        imp_true_iff, true_and]
      split_ifs with hrefused
      · simp [eq_comm]
      · simp only [not_or, not_le, not_lt] at hrefused
        obtain ⟨hchannel, -, -, -, htopic, hpayload⟩ := hrefused
        simp only [sdkReadAllChecked_of_le hchannel.le, sdkReadAllChecked_of_le htopic.le,
          sdkReadAllChecked_of_le hpayload, ok_bind]
        cases sdkReadAll header.channelLen.toNat rest with
        | none => simp [eq_comm]
        | some p =>
          dsimp only
          cases sdkReadAll header.topicLen.toNat p.2 with
          | none => simp [eq_comm]
          | some q =>
            dsimp only
            cases sdkReadAll header.payloadLen.toNat q.2 with
            | none => simp [eq_comm]
            | some _ =>
              dsimp only
              rw [access_of_lt htopic, ok_bind, Except.ok.injEq]
              exact eq_comm

theorem parseDeliverFrameChecked_eq_ok {r : Except BcStatus SdkRead} :
    parseDeliverFrameChecked topicCap payloadCap data stale = .ok r ↔
      RecordFits topicCap payloadCap data ∧
        r = parseDeliverFrame topicCap payloadCap data stale := by
  unfold parseDeliverFrameChecked parseDeliverFrame RecordFits
  have hsize : bcIpcHeaderSize bcIpcVersion = IpcHeader.size := rfl
  by_cases hshort : data.length < IpcHeader.size
  · simp [hsize, hshort, hshort.not_ge, eq_comm]
  have hlen : 0 + IpcHeader.size ≤ data.length := by omega
  have hwhole : IpcHeader.size ≤ data.length := not_lt.mp hshort
  have hcopy : 0 + IpcHeader.size ≤ IpcHeader.size := by decide
  simp only [hsize, hshort, if_false, span_of_le hlen, span_of_le hcopy, ok_bind, hwhole,
    true_imp_iff]
  generalize IpcHeader.ofBytes data = header
  split_ifs with hkind hrefused
  · constructor
    · intro hr
      refine ⟨fun hmagic htype => ?_, (Except.ok.inj hr).symm⟩
      exact absurd hkind (not_or.mpr ⟨not_not.mpr hmagic, not_not.mpr htype⟩)
    · rintro ⟨-, rfl⟩
      rfl
  · constructor
    · intro hr
      refine ⟨fun _ _ hne htopic hpayload => ?_, (Except.ok.inj hr).symm⟩
      rcases hrefused with hzero | hrefused
      · exact absurd hzero hne
      · omega
    · rintro ⟨-, rfl⟩
      rfl
  · obtain ⟨hmagic, htype⟩ := not_or.mp hkind
    rw [not_not] at hmagic htype
    simp only [not_or, not_le, not_lt] at hrefused
    obtain ⟨hne, hshortTopic, hmax, htopic, hpayload⟩ := hrefused
    have hnonzero : header.topicLen.toNat ≠ 0 := by
      intro hzero
      exact hne (UInt16.toNat_inj.mp hzero)
    simp only [bind_eq_ok, span_eq_ok, access_eq_ok, exists_const, hmagic, htype, hne,
      ne_eq, not_false_eq_true, true_imp_iff, Except.ok.injEq]
    unfold IpcHeader.total
    constructor
    · rintro ⟨htopicIn, -, -, hpayloadIn, -, hr⟩
      exact ⟨fun _ _ => by omega, hr.symm⟩
    · rintro ⟨hfits, rfl⟩
      have hannounced := hfits (by omega) (by omega)
      exact ⟨by omega, by omega, htopic, by omega, by omega, rfl⟩

theorem readIpcDeliverChecked_eq_ok (htopic : topicCap ≠ 0) {ring : Option RingRead}
    {poll : PollAnswer} {r : Except BcStatus (SdkRead × List UInt8)} :
    readIpcDeliverChecked topicCap payloadCap ring poll stream = .ok r ↔
      InputFits topicCap payloadCap poll stream ring ∧
        r = readIpcDeliver topicCap payloadCap ring poll stream := by
  unfold readIpcDeliverChecked readIpcDeliver
  rw [if_neg htopic, if_neg htopic]
  cases ring with
  | none => exact readIpcDeliverSocketChecked_eq_ok
  | some read =>
    cases read with
    | frame data stale =>
      simp only [bind_eq_ok, parseDeliverFrameChecked_eq_ok, and_assoc, exists_and_left,
        exists_eq_left, InputFits, Except.ok.injEq]
      exact and_congr_right fun _ => eq_comm
    | status rc =>
      by_cases hempty : rc = .notFound
      · subst hempty
        exact readIpcDeliverSocketChecked_eq_ok
      · cases rc <;> simp_all [InputFits, eq_comm]

/-- A call stays inside the arrays of its caller, inside its own channel array and
inside the record of the ring, on the input that fits and on no other. -/
theorem read_ipc_deliver_safe_iff {topicCap : ℕ} (htopic : 1 ≤ topicCap) (payloadCap : ℕ)
    (ring : Option RingRead) (poll : PollAnswer) (stream : List UInt8) :
    Safe (readIpcDeliverChecked topicCap payloadCap ring poll stream) ↔
      InputFits topicCap payloadCap poll stream ring :=
  safe_iff fun _ => readIpcDeliverChecked_eq_ok (by omega)

/-- A header with these lengths and nothing else. -/
def lengthsHeader (type topicLen : UInt16) (payloadLen : UInt32) : IpcHeader :=
  { IpcHeader.zero with
    magic := bcIpcMagic
    version := bcIpcVersion
    type := type
    topicLen := topicLen
    payloadLen := payloadLen }

theorem read_ipc_deliver_safe_iff_reply :
    Safe (readIpcDeliverChecked 1 2 none .readable
      ((lengthsHeader bcIpcStats 0 2).toBytes ++ [7, 7])) := by
  apply (read_ipc_deliver_safe_iff (le_refl 1) 2 none .readable _).mpr
  intro _ _ _ _
  decide

/-- A reply that announces two bytes is stored in an array of one, and a record without
a topic is read behind its end. -/
theorem read_leaves_arrays :
    readIpcDeliverChecked 1 1 none .readable
      ((lengthsHeader bcIpcStats 0 2).toBytes ++ [7, 7]) = .error (.outside .payload 1) ∧
    readIpcDeliverChecked 2 1 (some (.frame (lengthsHeader bcIpcDeliver 1 0).toBytes [7])) .timeout
      [] = .error (.outside .record IpcHeader.size) :=
  ⟨rfl, rfl⟩

end Lengths

end BoardComm
