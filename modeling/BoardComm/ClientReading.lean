import BoardComm.ClientRoundTrip
import BoardComm.ShmRing

/-!
# Both ends of the connection of one client

The daemon delivers into the ring or into the transmit queue of the client and
flushes the queue when it can; the client reads from the ring and from its
socket. In contrast to the readers of a finished stream, a link keeps its state
after every return of `read_ipc_deliver`, so that it can be asked where the
stream stands after an error.
-/
namespace BoardComm

open SendQueue (WriteOutcome writeAll)

/-- The daemon's record of a client, the bytes that were sent to it and not yet read,
and the ring from the daemon to the client where there is a session. -/
structure ClientLink where
  client : BcClient
  arrived : List UInt8
  ring : Option BcShmRing

/-- A message that the daemon delivers: its strings end in their arrays, and its
payload fits. Its topic may be empty. -/
structure BcMessage.Deliverable (msg : BcMessage) : Prop where
  channel : msg.channel.Terminated
  topic : msg.topic.Terminated
  payloadLen : msg.payloadLen ≤ bcMaxPayloadLen

namespace ClientLink

/-- `deliver_to_client`, behind `find_client`, on the frame of a message. -/
def deliver (watch : Bool) (msg : BcMessage) (l : ClientLink) : DeliverAnswer × ClientLink :=
  match l.ring with
  | none =>
    let r := enqueueClientTx watch l.client (deliverFrame msg)
    (r.1, { l with client := r.2 })
  | some ring =>
    let w := ShmRing.bcShmRingWrite ring (deliverFrame msg)
    if w.1 = .ok then
      (⟨.ok, true⟩, { l with
        ring := some w.2
        client := (enqueueClientTx watch l.client kickHeader.toBytes).2 })
    else (⟨w.1, false⟩, { l with ring := some w.2 })

/-- `flush_client_tx`. -/
def flush (watch : Bool) (outcomes : List WriteOutcome) (l : ClientLink) : BcStatus × ClientLink :=
  let r := flushClientTx watch outcomes l.client
  (r.1, { l with client := r.2, arrived := l.arrived ++ (writeAll outcomes l.client.tx).written })

/-- While a read blocks the daemon sends the bytes that it waits for. -/
def await (n : ℕ) (l : ClientLink) : ClientLink :=
  if l.arrived.length < n then (l.flush true [.wrote (n - l.arrived.length)]).2 else l

/-- `read_all`. Without enough bytes to come it fails when the peer closes. -/
def readAll (n : ℕ) (l : ClientLink) : Option (List UInt8) × ClientLink :=
  let l := l.await n
  if l.arrived.length < n then (none, { l with arrived := [] })
  else (some (l.arrived.take n), { l with arrived := l.arrived.drop n })

/-- `poll` finds bytes, which may come while it waits. -/
def Readable (waits : Bool) (l : ClientLink) : Prop :=
  l.arrived ≠ [] ∨ (waits = true ∧ l.client.tx ≠ [])

instance (waits : Bool) (l : ClientLink) : Decidable (l.Readable waits) :=
  inferInstanceAs (Decidable (_ ∨ _))

/-- The socket half of `read_ipc_deliver`. -/
def readSocket (topicCap payloadCap : ℕ) (waits : Bool) (l : ClientLink) :
    Except BcStatus SdkRead × ClientLink :=
  if ¬ l.Readable waits then (.error .timeout, l)
  else
    match l.readAll IpcHeader.size with
    | (none, l) => (.error .io, l)
    | (some data, l) =>
      let header := IpcHeader.ofBytes data
      if header.magic ≠ bcIpcMagic then (.error .io, l)
      else if header.type = bcIpcStats then
        match l.readAll header.payloadLen.toNat with
        | (none, l) => (.error .io, l)
        | (some payload, l) => (.ok ⟨none, payload⟩, l)
      else if header.type ≠ bcIpcDeliver then (.error .io, l)
      else if header.channelLen.toNat ≥ bcMaxChannelLen ∨ header.topicLen = 0 ∨
          header.topicLen.toNat ≥ bcMaxTopicLen ∨ header.payloadLen.toNat > bcMaxPayloadLen ∨
          topicCap ≤ header.topicLen.toNat ∨ payloadCap < header.payloadLen.toNat then
        (.error .io, l)
      else
        match l.readAll header.channelLen.toNat with
        | (none, l) => (.error .io, l)
        | (some _, l) =>
          match l.readAll header.topicLen.toNat with
          | (none, l) => (.error .io, l)
          | (some topic, l) =>
            match l.readAll header.payloadLen.toNat with
            | (none, l) => (.error .io, l)
            | (some payload, l) => (.ok ⟨some topic, payload⟩, l)

/-- `read_ipc_deliver`. A frame of the ring is copied to an array with other bytes
behind it. -/
def readIpcDeliver (topicCap payloadCap : ℕ) (waits : Bool) (stale : List UInt8) (l : ClientLink) :
    Except BcStatus SdkRead × ClientLink :=
  if topicCap = 0 then (.error .invalid, l)
  else
    match l.ring with
    | none => l.readSocket topicCap payloadCap waits
    | some ring =>
      let r := ShmRing.bcShmRingRead ring bcClientFrameMax
      let l := { l with ring := some r.2 }
      match r.1 with
      | .ok data => (parseDeliverFrame topicCap payloadCap data stale, l)
      | .error rc =>
        if rc = .notFound then l.readSocket topicCap payloadCap waits else (.error rc, l)

/-- All bytes on the way to the client. -/
def coming (l : ClientLink) : List UInt8 := l.arrived ++ l.client.tx

section Bytes

theorem flushClientTx_tx (watch : Bool) (outcomes : List WriteOutcome) (client : BcClient) :
    (flushClientTx watch outcomes client).2.tx = (writeAll outcomes client.tx).rest := by
  have hdone := SendQueue.writeAll_done_iff outcomes client.tx
  unfold flushClientTx
  split_ifs with hempty
  · rw [hempty]
    cases outcomes <;> rfl
  · simp only
    cases hexit : (writeAll outcomes client.tx).exit with
    | done => exact (hdone.mp hexit).symm
    | blocked => rfl
    | failed => rfl

/-- Sending moves bytes on, and loses none. -/
@[simp] theorem flush_coming (watch : Bool) (outcomes : List WriteOutcome) (l : ClientLink) :
    (l.flush watch outcomes).2.coming = l.coming := by
  unfold coming flush
  rw [flushClientTx_tx, List.append_assoc, SendQueue.writeAll_append]

@[simp] theorem flush_ring (watch : Bool) (outcomes : List WriteOutcome) (l : ClientLink) :
    (l.flush watch outcomes).2.ring = l.ring := rfl

@[simp] theorem await_coming (n : ℕ) (l : ClientLink) : (l.await n).coming = l.coming := by
  unfold await
  split_ifs
  · exact flush_coming _ _ _
  · rfl

@[simp] theorem await_ring (n : ℕ) (l : ClientLink) : (l.await n).ring = l.ring := by
  unfold await
  split_ifs <;> rfl

/-- All that a read waits for comes, if it has been queued. -/
theorem await_arrived (n : ℕ) (l : ClientLink) :
    (l.await n).arrived.length < n ↔ l.coming.length < n := by
  unfold await coming
  split_ifs with hshort
  · have hwrite : (writeAll [.wrote (n - l.arrived.length)] l.client.tx).written =
        l.client.tx.take (n - l.arrived.length) := by
      have hpos : n - l.arrived.length ≠ 0 := by omega
      cases htx : l.client.tx with
      | nil => simp [writeAll]
      | cons b bs =>
        have hlast : ∀ data, (writeAll [] data).written = [] := by
          intro data
          cases data <;> rfl
        simp [writeAll, hpos, hlast]
    unfold flush
    simp only
    rw [hwrite, List.length_append, List.length_append, List.length_take]
    omega
  · rw [List.length_append]
    omega

/-- `read_all` takes the next bytes, or there are not enough of them. -/
theorem readAll_cases (n : ℕ) (l : ClientLink) :
    (l.readAll n).2.ring = l.ring ∧
      ((n ≤ l.coming.length ∧ (l.readAll n).1 = some (l.coming.take n) ∧
          (l.readAll n).2.coming = l.coming.drop n) ∨
        (l.coming.length < n ∧ (l.readAll n).1 = none)) := by
  have harrived := await_arrived n l
  have hcoming := await_coming n l
  unfold readAll
  simp only
  split_ifs with hshort
  · exact ⟨await_ring n l, .inr ⟨harrived.mp hshort, rfl⟩⟩
  · have henough : n ≤ (l.await n).arrived.length := by omega
    refine ⟨await_ring n l, .inl ⟨by omega, ?_, ?_⟩⟩
    · rw [← hcoming, coming, List.take_append_of_le_length henough]
    · rw [← hcoming]
      exact (List.drop_append_of_le_length henough).symm

/-- `read_all` on a front of known length. -/
theorem readAll_append {l : ClientLink} {front rest : List UInt8} (h : l.coming = front ++ rest) :
    ∃ l', l.readAll front.length = (some front, l') ∧ l'.coming = rest ∧ l'.ring = l.ring := by
  obtain ⟨hring, hcases⟩ := readAll_cases front.length l
  rw [h, List.take_left, List.drop_left, List.length_append] at hcases
  rcases hcases with ⟨-, hread, hrest⟩ | ⟨hshort, -⟩
  · exact ⟨_, Prod.ext hread rfl, hrest, hring⟩
  · omega

/-- Reading the socket does not touch the ring. -/
theorem readSocket_ring (topicCap payloadCap : ℕ) (waits : Bool) (l : ClientLink) :
    (l.readSocket topicCap payloadCap waits).2.ring = l.ring := by
  have hread : ∀ n (l : ClientLink) r l', l.readAll n = (r, l') → l'.ring = l.ring := by
    intro n l r l' h
    have hring := (readAll_cases n l).1
    rwa [h] at hring
  unfold readSocket
  by_cases hpoll : l.Readable waits
  swap
  · rw [if_pos hpoll]
  rw [if_neg (not_not.mpr hpoll)]
  cases h₁ : l.readAll IpcHeader.size with
  | mk data l₁ =>
    have hr₁ := hread _ _ _ _ h₁
    cases data with
    | none => exact hr₁
    | some data =>
      simp only
      split_ifs
      · exact hr₁
      · cases h₂ : l₁.readAll (IpcHeader.ofBytes data).payloadLen.toNat with
        | mk payload l₂ =>
          have hr₂ := hread _ _ _ _ h₂
          cases payload <;> exact hr₂.trans hr₁
      · exact hr₁
      · exact hr₁
      · cases h₂ : l₁.readAll (IpcHeader.ofBytes data).channelLen.toNat with
        | mk channel l₂ =>
          have hr₂ := hread _ _ _ _ h₂
          cases channel with
          | none => exact hr₂.trans hr₁
          | some channel =>
            simp only
            cases h₃ : l₂.readAll (IpcHeader.ofBytes data).topicLen.toNat with
            | mk topic l₃ =>
              have hr₃ := hread _ _ _ _ h₃
              cases topic with
              | none => exact hr₃.trans (hr₂.trans hr₁)
              | some topic =>
                simp only
                cases h₄ : l₃.readAll (IpcHeader.ofBytes data).payloadLen.toNat with
                | mk payload l₄ =>
                  have hr₄ := hread _ _ _ _ h₄
                  cases payload <;> exact hr₄.trans (hr₃.trans (hr₂.trans hr₁))

/-- What a finished stream makes of a result: after an error nothing is said about
it. -/
def ofLink : Except BcStatus SdkRead × ClientLink → Except BcStatus (SdkRead × List UInt8)
  | (.ok read, l) => .ok (read, l.coming)
  | (.error rc, _) => .error rc

/-- The two readings of the socket agree on the result, and on the stream after a
success. -/
theorem readSocket_agrees (topicCap payloadCap : ℕ) (waits : Bool) (l : ClientLink) :
    ofLink (l.readSocket topicCap payloadCap waits) =
      readIpcDeliverSocket topicCap payloadCap
        (if l.Readable waits then .readable else .timeout) l.coming := by
  have hread : ∀ n (l : ClientLink),
      (∃ data l', l.readAll n = (some data, l') ∧ sdkReadAll n l.coming = some (data, l'.coming)) ∨
        ∃ l', l.readAll n = (none, l') ∧ sdkReadAll n l.coming = none := by
    intro n l
    obtain ⟨-, ⟨hle, hdata, hrest⟩ | ⟨hshort, hdata⟩⟩ := readAll_cases n l
    · refine .inl ⟨_, _, Prod.ext hdata rfl, ?_⟩
      rw [sdkReadAll, if_neg (Nat.not_lt.mpr hle), hrest]
    · refine .inr ⟨_, Prod.ext hdata rfl, ?_⟩
      rw [sdkReadAll, if_pos hshort]
  unfold readSocket readIpcDeliverSocket
  by_cases hpoll : l.Readable waits
  swap
  · rw [if_pos hpoll, if_neg hpoll]
    rfl
  rw [if_neg (not_not.mpr hpoll), if_pos hpoll]
  obtain ⟨data, l₁, h₁, h₁'⟩ | ⟨l₁, h₁, h₁'⟩ := hread IpcHeader.size l
  swap
  · simp only [h₁, h₁']
    rfl
  simp only [h₁, h₁']
  split_ifs with hmagic hstats hdeliver hchecks
  · rfl
  · obtain ⟨payload, l₂, h₂, h₂'⟩ | ⟨l₂, h₂, h₂'⟩ :=
      hread (IpcHeader.ofBytes data).payloadLen.toNat l₁ <;> simp only [h₂, h₂'] <;> rfl
  · rfl
  · rfl
  · obtain ⟨channel, l₂, h₂, h₂'⟩ | ⟨l₂, h₂, h₂'⟩ :=
      hread (IpcHeader.ofBytes data).channelLen.toNat l₁
    swap
    · simp only [h₂, h₂']
      rfl
    obtain ⟨topic, l₃, h₃, h₃'⟩ | ⟨l₃, h₃, h₃'⟩ :=
      hread (IpcHeader.ofBytes data).topicLen.toNat l₂
    swap
    · simp only [h₂, h₂', h₃, h₃']
      rfl
    obtain ⟨payload, l₄, h₄, h₄'⟩ | ⟨l₄, h₄, h₄'⟩ :=
      hread (IpcHeader.ofBytes data).payloadLen.toNat l₃ <;>
        simp only [h₂, h₂', h₃, h₃', h₄, h₄'] <;> rfl

/-- Delivering into the ring is what the client manager does with a session that gives
the answer of the ring. -/
theorem deliver_agrees {l : ClientLink} {ring : BcShmRing} (hring : l.ring = some ring)
    {msg : BcMessage} {rc : BcStatus}
    (hrc : (ShmRing.bcShmRingWrite ring (deliverFrame msg)).1 = rc) (watch : Bool)
    (writes : List BcStatus) :
    (deliverToRing watch l.client ⟨rc :: writes⟩).1 = (l.deliver watch msg).1 ∧
      (deliverToRing watch l.client ⟨rc :: writes⟩).2.tx = (l.deliver watch msg).2.client.tx := by
  have htx : ∀ shm, (enqueueClientTx watch { l.client with shm := shm } kickHeader.toBytes).2.tx =
      (enqueueClientTx watch l.client kickHeader.toBytes).2.tx := by
    intro shm
    unfold enqueueClientTx
    simp only
    split_ifs <;> rfl
  have hsession : deliverToRing watch l.client ⟨rc :: writes⟩ =
      if rc = .ok then
        (⟨.ok, true⟩,
          (enqueueClientTx watch { l.client with shm := some ⟨writes⟩ } kickHeader.toBytes).2)
      else (⟨rc, false⟩, { l.client with shm := some ⟨writes⟩ }) := rfl
  rw [hsession, deliver, hring]
  simp only [hrc]
  split_ifs
  · exact ⟨rfl, htx _⟩
  · exact ⟨rfl, rfl⟩

end Bytes

section Frames

variable {msg : BcMessage}

/-- The header of a DELIVER frame. -/
def deliverHeader (msg : BcMessage) : IpcHeader :=
  { magic := bcIpcMagic, version := bcIpcVersion, type := bcIpcDeliver,
    topicLen := .ofNat msg.topic.str.length, channelLen := .ofNat msg.channel.str.length,
    payloadLen := .ofNat msg.payloadLen, dstNode := msg.dstNode, qos := msg.qos,
    flags := msg.flags, seq := msg.seq }

theorem deliverFrame_eq (msg : BcMessage) :
    deliverFrame msg = (deliverHeader msg).toBytes ++
      (msg.channel.str ++ (msg.topic.str ++ msg.body)) := by
  simp only [deliverFrame, CBuffer.strnlen_bytes, CBuffer.take_str_length, List.append_assoc]
  rfl

theorem deliverFrame_length (h : msg.Deliverable) :
    (deliverFrame msg).length =
      IpcHeader.size + msg.channel.str.length + msg.topic.str.length + msg.payloadLen := by
  have hbody := BcMessage.body_length h.payloadLen
  rw [deliverFrame_eq]
  simp only [List.length_append, IpcHeader.toBytes_length, hbody]
  omega

theorem deliverFrame_length_le (h : msg.Deliverable) :
    (deliverFrame msg).length ≤ bcClientFrameMax := by
  have hchannel : msg.channel.str.length < bcMaxChannelLen := h.channel
  have htopic : msg.topic.str.length < bcMaxTopicLen := h.topic
  have hpayload := h.payloadLen
  rw [deliverFrame_length h]
  simp only [bcClientFrameMax]
  omega

/-- The lengths in the header of the frame. -/
structure HeaderLengths (msg : BcMessage) (header : IpcHeader) : Prop where
  channel : header.channelLen.toNat = msg.channel.str.length
  topic : header.topicLen.toNat = msg.topic.str.length
  topic_zero : header.topicLen = 0 ↔ msg.topic.str = []
  payload : header.payloadLen.toNat = msg.payloadLen

theorem deliverHeader_lengths (h : msg.Deliverable) : HeaderLengths msg (deliverHeader msg) := by
  have hchannel : msg.channel.str.length < bcMaxChannelLen := h.channel
  have htopic : msg.topic.str.length < bcMaxTopicLen := h.topic
  have hpayload := h.payloadLen
  have htopicLen : (deliverHeader msg).topicLen.toNat = msg.topic.str.length :=
    UInt16.toNat_ofNat_of_lt' (htopic.trans (by decide))
  refine ⟨UInt16.toNat_ofNat_of_lt' (hchannel.trans (by decide)), htopicLen, ?_,
    UInt32.toNat_ofNat_of_lt' (hpayload.trans_lt (by decide))⟩
  rw [← UInt16.toNat_inj, htopicLen, UInt16.toNat_zero, List.length_eq_zero_iff]

/-- The buffers of a call hold the message. -/
def HasRoom (topicCap payloadCap : ℕ) (msg : BcMessage) : Prop :=
  msg.topic.str.length < topicCap ∧ msg.payloadLen ≤ payloadCap

instance (topicCap payloadCap : ℕ) (msg : BcMessage) :
    Decidable (HasRoom topicCap payloadCap msg) :=
  inferInstanceAs (Decidable (_ ∧ _))

/-- What a call returns for a message that it accepts. -/
def readOf (msg : BcMessage) : SdkRead := ⟨some msg.topic.str, msg.body⟩

/-- The check of the lengths, on either path, of the frame of a message. -/
theorem lengths_checked (h : msg.Deliverable) {header : IpcHeader}
    (hlengths : HeaderLengths msg header) (topicCap payloadCap : ℕ) :
    (header.topicLen = 0 ∨ header.topicLen.toNat ≥ bcMaxTopicLen ∨
        header.payloadLen.toNat > bcMaxPayloadLen ∨ topicCap ≤ header.topicLen.toNat ∨
        payloadCap < header.payloadLen.toNat) ↔
      ¬ (msg.topic.str ≠ [] ∧ HasRoom topicCap payloadCap msg) := by
  have htopic : msg.topic.str.length < bcMaxTopicLen := h.topic
  have hpayload := h.payloadLen
  unfold HasRoom
  rw [hlengths.topic, hlengths.topic_zero, hlengths.payload]
  by_cases hempty : msg.topic.str = []
  · simp [hempty]
  · simp only [hempty, false_or, not_false_eq_true, ne_eq, true_and]
    omega

variable {l : ClientLink} {topicCap payloadCap : ℕ} {waits : Bool} {rest : List UInt8}

theorem readAll_header {header : IpcHeader} (h : l.coming = header.toBytes ++ rest) :
    ∃ l', l.readAll IpcHeader.size = (some header.toBytes, l') ∧ l'.coming = rest ∧
      l'.ring = l.ring := by
  have hread := readAll_append h
  rwa [IpcHeader.toBytes_length] at hread

theorem ofBytes_toBytes (header : IpcHeader) : IpcHeader.ofBytes header.toBytes = header := by
  have h := header.ofBytes_toBytes_append []
  rwa [List.append_nil] at h

/-- The message at the head of the stream, with a topic and with room for it. -/
theorem readSocket_accepted (hmsg : msg.Deliverable) (hpoll : l.Readable waits)
    (hcoming : l.coming = deliverFrame msg ++ rest) (htopic : msg.topic.str ≠ [])
    (hroom : HasRoom topicCap payloadCap msg) :
    ∃ l', l.readSocket topicCap payloadCap waits = (.ok (readOf msg), l') ∧ l'.coming = rest := by
  have hlengths := deliverHeader_lengths hmsg
  have hbody := BcMessage.body_length hmsg.payloadLen
  have hchannel : msg.channel.str.length < bcMaxChannelLen := hmsg.channel
  rw [deliverFrame_eq, List.append_assoc, List.append_assoc, List.append_assoc] at hcoming
  obtain ⟨l₁, h₁, hc₁, -⟩ := readAll_header hcoming
  obtain ⟨l₂, h₂, hc₂, -⟩ := readAll_append hc₁
  obtain ⟨l₃, h₃, hc₃, -⟩ := readAll_append hc₂
  obtain ⟨l₄, h₄, hc₄, -⟩ := readAll_append hc₃
  have hchecks := lengths_checked hmsg hlengths topicCap payloadCap
  have hmagic : (deliverHeader msg).magic = bcIpcMagic := rfl
  have htype : (deliverHeader msg).type = bcIpcDeliver := rfl
  have hstats : ¬ bcIpcDeliver = bcIpcStats := by decide
  have hpass : ¬ ((deliverHeader msg).channelLen.toNat ≥ bcMaxChannelLen ∨
      (deliverHeader msg).topicLen = 0 ∨ (deliverHeader msg).topicLen.toNat ≥ bcMaxTopicLen ∨
      (deliverHeader msg).payloadLen.toNat > bcMaxPayloadLen ∨
      topicCap ≤ (deliverHeader msg).topicLen.toNat ∨
      payloadCap < (deliverHeader msg).payloadLen.toNat) := by
    rw [hchecks, hlengths.channel]
    rintro (hlong | hnot)
    · omega
    · exact hnot ⟨htopic, hroom⟩
  refine ⟨l₄, ?_, hc₄⟩
  unfold readSocket
  rw [if_neg (not_not.mpr hpoll), h₁]
  simp only [ofBytes_toBytes, hmagic, htype, ne_eq, not_true, if_false, if_neg hstats,
    if_neg hpass]
  rw [hlengths.channel, hlengths.topic, hlengths.payload, h₂]
  simp only [h₃]
  rw [← hbody, h₄]
  rfl

/-- Otherwise the header is gone, and the rest of the frame is still there. -/
theorem readSocket_refused (hmsg : msg.Deliverable) (hpoll : l.Readable waits)
    (hcoming : l.coming = deliverFrame msg ++ rest)
    (hnot : ¬ (msg.topic.str ≠ [] ∧ HasRoom topicCap payloadCap msg)) :
    ∃ l', l.readSocket topicCap payloadCap waits = (.error .io, l') ∧
      l'.coming = msg.channel.str ++ (msg.topic.str ++ (msg.body ++ rest)) := by
  have hlengths := deliverHeader_lengths hmsg
  rw [deliverFrame_eq, List.append_assoc, List.append_assoc, List.append_assoc] at hcoming
  obtain ⟨l₁, h₁, hc₁, -⟩ := readAll_header hcoming
  have hchecks := lengths_checked hmsg hlengths topicCap payloadCap
  have hmagic : (deliverHeader msg).magic = bcIpcMagic := rfl
  have htype : (deliverHeader msg).type = bcIpcDeliver := rfl
  have hstats : ¬ bcIpcDeliver = bcIpcStats := by decide
  refine ⟨l₁, ?_, hc₁⟩
  unfold readSocket
  rw [if_neg (not_not.mpr hpoll), h₁]
  simp only [ofBytes_toBytes, hmagic, htype, ne_eq, not_true, if_false, if_neg hstats]
  rw [if_pos (.inr (hchecks.mpr hnot))]

/-- A kick is no DELIVER frame. -/
theorem readSocket_kick (hpoll : l.Readable waits)
    (hcoming : l.coming = kickHeader.toBytes ++ rest) :
    ∃ l', l.readSocket topicCap payloadCap waits = (.error .io, l') ∧ l'.coming = rest := by
  obtain ⟨l₁, h₁, hc₁, -⟩ := readAll_header hcoming
  have hmagic : kickHeader.magic = bcIpcMagic := rfl
  have htype : kickHeader.type = bcIpcShmKick := rfl
  have hstats : ¬ bcIpcShmKick = bcIpcStats := by decide
  have hdeliver : ¬ bcIpcShmKick = bcIpcDeliver := by decide
  refine ⟨l₁, ?_, hc₁⟩
  unfold readSocket
  rw [if_neg (not_not.mpr hpoll), h₁]
  simp only [ofBytes_toBytes, hmagic, htype, ne_eq, not_true, if_false, if_neg hstats,
    not_false_eq_true, if_true, hdeliver]

/-- The frame of a message, taken from the ring. -/
theorem parseDeliverFrame_frame (hmsg : msg.Deliverable) (topicCap payloadCap : ℕ)
    (stale : List UInt8) :
    parseDeliverFrame topicCap payloadCap (deliverFrame msg) stale =
      if msg.topic.str ≠ [] ∧ HasRoom topicCap payloadCap msg then .ok (readOf msg)
      else .error .io := by
  have hlengths := deliverHeader_lengths hmsg
  have hchecks := lengths_checked hmsg hlengths topicCap payloadCap
  have hlen := deliverFrame_length hmsg
  have hsize : bcIpcHeaderSize bcIpcVersion = IpcHeader.size := rfl
  have hheader : IpcHeader.ofBytes (deliverFrame msg) = deliverHeader msg := by
    rw [deliverFrame_eq, IpcHeader.ofBytes_toBytes_append]
  have hmagic : (deliverHeader msg).magic = bcIpcMagic := rfl
  have htype : (deliverHeader msg).type = bcIpcDeliver := rfl
  have hversion : (deliverHeader msg).version = bcIpcVersion := rfl
  have hbody := BcMessage.body_length hmsg.payloadLen
  unfold parseDeliverFrame
  rw [if_neg (by rw [hlen, hsize]; omega)]
  simp only [hheader, hmagic, htype, hversion, ne_eq, not_true, or_self, if_false]
  by_cases haccept : msg.topic.str ≠ [] ∧ HasRoom topicCap payloadCap msg
  · rw [if_neg (fun hbad => hchecks.mp hbad haccept), if_pos haccept]
    have hdrop : (deliverFrame msg ++ stale).drop
        (IpcHeader.size + (deliverHeader msg).channelLen.toNat) =
          msg.topic.str ++ (msg.body ++ stale) := by
      rw [hlengths.channel, deliverFrame_eq, ← List.drop_drop, List.append_assoc,
        List.drop_left' (IpcHeader.toBytes_length _), List.append_assoc, List.append_assoc,
        List.drop_left]
    rw [hsize, hdrop, hlengths.topic, hlengths.payload, List.take_left, List.drop_left, ← hbody,
      List.take_left]
    rfl
  · rw [if_pos (hchecks.mpr haccept), if_neg haccept]

end Frames

end ClientLink

end BoardComm
