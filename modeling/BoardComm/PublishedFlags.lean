import BoardComm.Acknowledgement
import BoardComm.IpcFrames
import BoardComm.PieceArrival

/-!
# The flags of published messages

The flags of a PUBLISH frame come from the client and go to the wire with a message
that fits one frame. The pieces of a longer message have flags of their own.
-/
namespace BoardComm

/-- The receiver of a frame takes it for the message, or for a piece of it if the
message is long. -/
structure DataFrame (σ ν : Type*) (msg : BcMessage) (frame : List UInt8) (received : BcMessage) :
    Prop where
  decoded : bcProtocolDecode frame = .ok received
  no_ack : received.flags &&& bcFlagAck = 0
  fragment : received.flags &&& bcFlagFragment ≠ 0 →
    msg.payloadLen > bcFragChunkMax ∧ received ∈ (fragmentsOf msg).map BcMessage.canonical
  whole : ¬ msg.payloadLen > bcFragChunkMax →
    received.Same msg ∧ ∀ reasm, reassembled reasm received = (reasm, some received)
  uncounted : ∀ (deliver : ℤ → List UInt8 → σ → DeliverAnswer × σ)
    (send : ℕ → List UInt8 → ν → BcStatus × ν) (s : BusState σ ν) (fromTransport : Option ℕ),
    (bcMessageBusHandleInbound deliver send s received fromTransport).2.bus.stats.ackRecv =
      s.bus.stats.ackRecv

section Flags

variable {σ ν : Type*} {msg : BcMessage}

/-- The frames of an ordinary message are taken for it. -/
theorem dataFrame_of_ordinary (hordinary : msg.Ordinary) {piece : BcMessage}
    (hpiece : piece ∈ wirePieces msg) (hwell : piece.WellFormed) :
    DataFrame σ ν msg (frameBytes piece) piece.canonical := by
  have hno_ack : piece.canonical.flags &&& bcFlagAck = 0 := by
    by_cases hlong : msg.payloadLen > bcFragChunkMax
    · rw [wirePieces, if_pos hlong] at hpiece
      obtain ⟨total, index, rfl⟩ := exists_of_mem_fragmentsOf hlong hpiece
      have hfragment : bcFlagFragment &&& bcFlagAck = 0 := by decide
      exact hfragment
    · have hclear : piece.flags &&& bcFlagAck = 0 :=
        wirePieces_no_ack (hordinary.resolve_left hlong).1 hpiece
      exact hclear
  refine ⟨decode_frameBytes hwell, hno_ack, fun hfrag => ?_, fun hshort => ?_,
    fun deliver send s fromTransport => ?_⟩
  · by_cases hlong : msg.payloadLen > bcFragChunkMax
    · rw [wirePieces, if_pos hlong] at hpiece
      exact ⟨hlong, List.mem_map_of_mem hpiece⟩
    · rw [wirePieces, if_neg hlong, List.mem_singleton] at hpiece
      subst hpiece
      exact absurd (hordinary.resolve_left hlong).2 hfrag
  · rw [wirePieces, if_neg hshort, List.mem_singleton] at hpiece
    subst hpiece
    refine ⟨BcMessage.canonical_same hwell, fun reasm => ?_⟩
    have hno_fragment : ¬ piece.canonical.flags &&& bcFlagFragment ≠ 0 :=
      not_not.mpr (hordinary.resolve_left hshort).2
    rw [reassembled, if_neg (not_not.mpr hno_ack), if_neg hno_fragment]
  · rw [handleInbound_ackRecv, if_neg (not_not.mpr hno_ack)]

/-- A short message that is not ordinary is taken for something else. -/
theorem ordinary_of_dataFrame (hwell : msg.WellFormed)
    (hshort : ¬ msg.payloadLen > bcFragChunkMax) {received : BcMessage}
    (h : DataFrame σ ν msg (frameBytes msg) received) : msg.Ordinary := by
  obtain rfl : msg.canonical = received :=
    Except.ok.inj ((decode_frameBytes hwell).symm.trans h.decoded)
  refine .inr ⟨h.no_ack, ?_⟩
  by_contra hfrag
  exact hshort (h.fragment hfrag).1

variable (deliver : ℤ → List UInt8 → σ → DeliverAnswer × σ)
  (send : ℕ → List UInt8 → ν → BcStatus × ν)

/-- What a publish puts on the transports. -/
theorem bcMessageBusPublish_sent (bus : MessageBus) (source : ℤ) (msg : BcMessage) (clients : σ)
    (transports : ν) :
    (networkRoute bus (stampMessage bus msg).1 = none ∧
        (bcMessageBusPublish deliver send bus source msg clients transports).1.sent = []) ∨
      ∃ (transport : ℕ) (stats : BcStats),
        networkRoute bus (stampMessage bus msg).1 = some transport ∧
        (bcMessageBusPublish deliver send bus source msg clients transports).1.sent =
          (sendOnTransport send transport (stampMessage bus msg).1
            ⟨transports, stats, []⟩).2.sent := by
  have hbus : bus.Agrees (publishLocal deliver (stampMessage bus msg).2 source
      (stampMessage bus msg).1 clients).2.2.1 :=
    (agrees_stampMessage bus msg).trans (agrees_publishLocal deliver source clients)
  rw [← hbus.networkRoute_eq]
  unfold bcMessageBusPublish
  simp only
  generalize publishLocal deliver (stampMessage bus msg).2 source (stampMessage bus msg).1
    clients = localPart
  cases hroute : networkRoute localPart.2.2.1 (stampMessage bus msg).1 with
  | none =>
    refine .inl ⟨rfl, ?_⟩
    by_cases hun : Unroutable localPart.2.2.1 (stampMessage bus msg).1
    · exact (publishNetwork_unroutable send _ _ hun).2
    · exact (publishNetwork_no_route send _ _ hroute hun).2
  | some transport =>
    exact .inr ⟨transport, localPart.2.2.1.stats, rfl,
      (publishNetwork_route send _ _ hroute).2⟩

/-- The flags of a client reach the wire. Whatever a client publishes, its frames are
taken for that message by every receiver exactly if its flags do not mark it as an
acknowledgement or a piece, or it is long enough to be cut, or nothing of it is sent. -/
theorem published_frames_are_data_iff (f : IpcFrame) (bus : MessageBus) (source : ℤ) (clients : σ)
    (transports : ν) :
    let msg := publishedMessage f.header f.channel f.topic f.payload
    let stamped := (stampMessage bus msg).1
    (∀ frame ∈ (bcMessageBusPublish deliver send bus source msg clients transports).1.sent,
        ∃ received, DataFrame σ ν stamped frame received) ↔
      msg.Ordinary ∨ ∀ transport, networkRoute bus stamped = some transport →
        Declines send transport stamped transports := by
  intro msg stamped
  have hlen : stamped.payloadLen ≤ bcMaxPayloadLen := by
    have hpayload : msg.payloadLen = f.payload.length := by
      simp only [msg, publishedMessage]
      split_ifs <;> exact f.payloadLen_toNat
    rw [show stamped.payloadLen = msg.payloadLen from (stampMessage_fields bus msg).2.1, hpayload]
    exact f.payload_le
  have hordinary : stamped.Ordinary ↔ msg.Ordinary := by
    simp only [BcMessage.Ordinary, stamped, (stampMessage_fields bus msg).1,
      (stampMessage_fields bus msg).2.1]
  rcases bcMessageBusPublish_sent deliver send bus source msg clients transports with
    ⟨hnone, hsent⟩ | ⟨transport, stats, hroute, hsent⟩
  · rw [hsent]
    refine iff_of_true (by simp) (.inr fun transport htransport => ?_)
    rw [show networkRoute bus stamped = none from hnone] at htransport
    cases htransport
  have hchosen : ∀ t, networkRoute bus stamped = some t ↔ t = transport := by
    intro t
    rw [show networkRoute bus stamped = some transport from hroute, Option.some.injEq, eq_comm]
  have hdeclines := sendOnTransport_sent_iff send transport hlen transports stats
  simp only [hchosen, forall_eq]
  rw [hsent, ← hordinary]
  constructor
  · intro h
    by_cases hnothing : Declines send transport stamped transports
    · exact .inr hnothing
    left
    by_cases hlong : stamped.payloadLen > bcFragChunkMax
    · exact .inl hlong
    obtain ⟨frame, hframe⟩ := List.exists_mem_of_ne_nil _ (mt hdeclines.mp hnothing)
    obtain ⟨received, hdata⟩ := h frame hframe
    obtain ⟨piece, hpiece, hwell, rfl⟩ :=
      sendOnTransport_sent_mem transport send transports stats hframe
    rw [wirePieces, if_neg hlong, List.mem_singleton] at hpiece
    rw [hpiece] at hwell hdata
    exact ordinary_of_dataFrame hwell hlong hdata
  · rintro (hordinary | hnothing) frame hframe
    · obtain ⟨piece, hpiece, hwell, rfl⟩ :=
        sendOnTransport_sent_mem transport send transports stats hframe
      exact ⟨_, dataFrame_of_ordinary hordinary hpiece hwell⟩
    · rw [hdeclines.mpr hnothing] at hframe
      cases hframe

end Flags

section Forged

/-- A node that sends everything over one transport. -/
def sendingBus : MessageBus :=
  ⟨[], ⟨[], [⟨anyTopic, [97]⟩], [[97]]⟩, 1, 0, false, true, bcStatsReset⟩

/-- A client publishes a message that is marked as an acknowledgement. -/
def forgedAck : IpcFrame := .oneByte bcIpcPublish bcFlagAck 0 116 1

/-- Its message. -/
def forgedMessage : BcMessage :=
  publishedMessage forgedAck.header forgedAck.channel forgedAck.topic forgedAck.payload

/-- The frame that is sent is marked too, and every receiver counts it. -/
theorem forged_ack_is_no_data :
    ¬ ∀ frame ∈ (bcMessageBusPublish answerNext putOut sendingBus 5 forgedMessage [] []).1.sent,
      ∃ received, DataFrame (List DeliverAnswer) (List (ℕ × List UInt8))
        (stampMessage sendingBus forgedMessage).1 frame received := by
  have hmarked : ∃ frame ∈ (bcMessageBusPublish answerNext putOut sendingBus 5 forgedMessage
      [] []).1.sent,
      (bcProtocolDecode frame).toOption.any fun received => received.flags &&& bcFlagAck ≠ 0 := by
    decide +kernel
  intro h
  obtain ⟨frame, hframe, hflag⟩ := hmarked
  obtain ⟨received, hdata⟩ := h frame hframe
  rw [hdata.decoded] at hflag
  simp [Except.toOption, hdata.no_ack] at hflag

end Forged

end BoardComm
