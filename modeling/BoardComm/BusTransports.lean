import BoardComm.MessageInbound
import BoardComm.TransportFraming

/-!
# What the bus does with its transports

The bus sends frames of messages on its transports, and sees no more of them than what
they answer. Two buses whose transports answer alike go on alike.
-/
namespace BoardComm

variable {σ ν ν' : Type*} {deliver : ℤ → List UInt8 → σ → DeliverAnswer × σ}
  {send : ℕ → List UInt8 → ν → BcStatus × ν} {send' : ℕ → List UInt8 → ν' → BcStatus × ν'}
  {R : ν → ν' → Prop}

/-- Transports that are related answer alike when a frame is sent, and stay related. -/
def SendAlike (send : ℕ → List UInt8 → ν → BcStatus × ν)
    (send' : ℕ → List UInt8 → ν' → BcStatus × ν') (R : ν → ν' → Prop) : Prop :=
  ∀ transport (m : WireMessage) t t', R t t' →
    (send transport m.frame t).1 = (send' transport m.frame t').1 ∧
      R (send transport m.frame t).2 (send' transport m.frame t').2

/-- The same was sent on related transports. -/
structure NetworkUse.Alike (R : ν → ν' → Prop) (use : NetworkUse ν) (use' : NetworkUse ν') :
    Prop where
  transports : R use.transports use'.transports
  stats : use.stats = use'.stats
  sent : use.sent = use'.sent

section Send

variable {use : NetworkUse ν} {use' : NetworkUse ν'}

theorem NetworkUse.Alike.recount (h : use.Alike R use') (f : BcStats → BcStats) :
    NetworkUse.Alike R { use with stats := f use.stats } { use' with stats := f use'.stats } :=
  ⟨h.transports, congrArg f h.stats, h.sent⟩

theorem emitNetworkFrame_alike (hsend : SendAlike send send' R) (transport : ℕ)
    (piece : BcMessage) (h : use.Alike R use') :
    (emitNetworkFrame send transport piece use).1 =
        (emitNetworkFrame send' transport piece use').1 ∧
      NetworkUse.Alike R (emitNetworkFrame send transport piece use).2
        (emitNetworkFrame send' transport piece use').2 := by
  by_cases hwell : piece.WellFormed
  · obtain ⟨frame, hframe, hdata⟩ := bcProtocolEncode_of_wellFormed hwell
    obtain ⟨hrc, hnext⟩ := hsend transport ⟨piece, hwell⟩ _ _ h.transports
    rw [WireMessage.frame] at hrc hnext
    simp only [emitNetworkFrame, hframe, hdata, hrc]
    split_ifs
    · exact ⟨rfl, hnext, h.stats, congrArg (· ++ _) h.sent⟩
    · exact ⟨rfl, hnext, by rw [h.stats], h.sent⟩
  · simp only [emitNetworkFrame, bcProtocolEncode_of_not_wellFormed hwell]
    exact ⟨trivial, h⟩

theorem bcFragmentPublish_alike (hsend : SendAlike send send' R) (transport : ℕ)
    (msg : BcMessage) (h : use.Alike R use') :
    (bcFragmentPublish (emitNetworkFrame send transport) msg use).1 =
        (bcFragmentPublish (emitNetworkFrame send' transport) msg use').1 ∧
      NetworkUse.Alike R (bcFragmentPublish (emitNetworkFrame send transport) msg use).2
        (bcFragmentPublish (emitNetworkFrame send' transport) msg use').2 := by
  have hloop : ∀ (total : ℕ) (indices : List ℕ) (use : NetworkUse ν) (use' : NetworkUse ν'),
      use.Alike R use' →
      (bcFragmentPublishLoop (emitNetworkFrame send transport) msg total indices use).1 =
          (bcFragmentPublishLoop (emitNetworkFrame send' transport) msg total indices use').1 ∧
        NetworkUse.Alike R
          (bcFragmentPublishLoop (emitNetworkFrame send transport) msg total indices use).2
          (bcFragmentPublishLoop (emitNetworkFrame send' transport) msg total indices use').2 := by
    intro total indices
    induction indices with
    | nil => exact fun _ _ h => ⟨rfl, h⟩
    | cons index indices ih =>
      intro use use' h
      obtain ⟨hrc, hnext⟩ :=
        emitNetworkFrame_alike hsend transport (fragmentPiece msg total index) h
      unfold bcFragmentPublishLoop
      rcases hemit : emitNetworkFrame send transport (fragmentPiece msg total index) use with
        ⟨rc, used⟩
      rcases hemit' : emitNetworkFrame send' transport (fragmentPiece msg total index) use' with
        ⟨rc', used'⟩
      rw [hemit, hemit'] at hrc hnext
      obtain rfl : rc = rc' := hrc
      cases rc with
      | ok => exact ih used used' hnext
      | _ => exact ⟨rfl, hnext⟩
  unfold bcFragmentPublish
  by_cases hshort : msg.payloadLen ≤ bcFragChunkMax
  · rw [if_pos hshort, if_pos hshort]
    exact emitNetworkFrame_alike hsend transport msg h
  · simp only [if_neg hshort]
    split_ifs
    · exact ⟨rfl, h⟩
    · exact hloop _ _ use use' h

theorem sendOnTransport_alike (hsend : SendAlike send send' R) (transport : ℕ) (msg : BcMessage)
    (h : use.Alike R use') :
    (sendOnTransport send transport msg use).1 = (sendOnTransport send' transport msg use').1 ∧
      NetworkUse.Alike R (sendOnTransport send transport msg use).2
        (sendOnTransport send' transport msg use').2 := by
  have hcounted : ∀ {r : BcStatus × NetworkUse ν} {r' : BcStatus × NetworkUse ν'},
      r.1 = r'.1 ∧ r.2.Alike R r'.2 →
      (if r.1 = .ok then (BcStatus.ok, { r.2 with stats := { r.2.stats with
          pubNetwork := r.2.stats.pubNetwork + 1 } }) else r).1 =
        (if r'.1 = .ok then (BcStatus.ok, { r'.2 with stats := { r'.2.stats with
          pubNetwork := r'.2.stats.pubNetwork + 1 } }) else r').1 ∧
      NetworkUse.Alike R
        (if r.1 = .ok then (BcStatus.ok, { r.2 with stats := { r.2.stats with
          pubNetwork := r.2.stats.pubNetwork + 1 } }) else r).2
        (if r'.1 = .ok then (BcStatus.ok, { r'.2 with stats := { r'.2.stats with
          pubNetwork := r'.2.stats.pubNetwork + 1 } }) else r').2 := by
    rintro r r' ⟨hrc, hnext⟩
    rw [hrc]
    split_ifs
    · exact ⟨rfl, hnext.recount fun stats => { stats with pubNetwork := stats.pubNetwork + 1 }⟩
    · exact ⟨hrc, hnext⟩
  unfold sendOnTransport
  by_cases hlong : msg.payloadLen > bcFragChunkMax
  · simp only [if_pos hlong]
    exact hcounted (bcFragmentPublish_alike hsend transport msg
      (h.recount fun stats => { stats with fragTx := stats.fragTx + 1 }))
  · simp only [if_neg hlong]
    exact hcounted (emitNetworkFrame_alike hsend transport msg h)

end Send

section Inbound

variable {t : ν} {t' : ν'}

theorem forwardMessage_alike (hsend : SendAlike send send' R) (bus : MessageBus)
    (msg : BcMessage) (exclude : Option ℕ) (h : R t t') :
    (forwardMessage send bus msg exclude t).1 = (forwardMessage send' bus msg exclude t').1 ∧
      (forwardMessage send bus msg exclude t).2.1 =
        (forwardMessage send' bus msg exclude t').2.1 ∧
      (forwardMessage send bus msg exclude t).2.2.1 =
        (forwardMessage send' bus msg exclude t').2.2.1 ∧
      R (forwardMessage send bus msg exclude t).2.2.2
        (forwardMessage send' bus msg exclude t').2.2.2 := by
  unfold forwardMessage
  cases bcRouterRoute bus.router msg with
  | none =>
    simp only
    split_ifs <;> exact ⟨rfl, rfl, rfl, h⟩
  | some transport =>
    have huse : NetworkUse.Alike R ⟨t, bus.stats, []⟩ ⟨t', bus.stats, []⟩ := ⟨h, rfl, rfl⟩
    obtain ⟨hrc, hnext⟩ := sendOnTransport_alike hsend transport msg huse
    simp only
    split_ifs with hback hok hok' hok'
    · exact ⟨rfl, rfl, rfl, h⟩
    · exact ⟨hrc, hnext.sent, by rw [hnext.stats], hnext.transports⟩
    · exact absurd (hrc.symm.trans hok) hok'
    · exact absurd (hrc.trans hok') hok
    · exact ⟨hrc, hnext.sent, by rw [hnext.stats], hnext.transports⟩

theorem sendAck_alike (hsend : SendAlike send send' R) (bus : MessageBus) (transport : ℕ)
    (req : BcMessage) (h : R t t') :
    (sendAck send bus transport req t).2.1 = (sendAck send' bus transport req t').2.1 ∧
      (sendAck send bus transport req t).2.2.1 = (sendAck send' bus transport req t').2.2.1 ∧
      R (sendAck send bus transport req t).2.2.2 (sendAck send' bus transport req t').2.2.2 := by
  have huse : NetworkUse.Alike R ⟨t, bus.stats, []⟩ ⟨t', bus.stats, []⟩ := ⟨h, rfl, rfl⟩
  obtain ⟨hrc, hnext⟩ := sendOnTransport_alike hsend transport (ackMessage bus req) huse
  unfold sendAck
  simp only [hrc]
  split_ifs
  · exact ⟨hnext.sent, by rw [hnext.stats], hnext.transports⟩
  · exact ⟨hnext.sent, by rw [hnext.stats], hnext.transports⟩

/-- Two states that differ in their transports only, which are related. -/
structure BusState.Alike (R : ν → ν' → Prop) (s : BusState σ ν) (s' : BusState σ ν') : Prop where
  bus : s.bus = s'.bus
  reasm : s.reasm = s'.reasm
  clients : s.clients = s'.clients
  transports : R s.transports s'.transports

variable {s : BusState σ ν} {s' : BusState σ ν'}

theorem inboundLocal_alike (msg : BcMessage) (h : s.Alike R s') :
    (inboundLocal deliver s msg).1 = (inboundLocal deliver s' msg).1 ∧
      (inboundLocal deliver s msg).2.1 = (inboundLocal deliver s' msg).2.1 ∧
      BusState.Alike R (inboundLocal deliver s msg).2.2 (inboundLocal deliver s' msg).2.2 := by
  unfold inboundLocal
  rw [h.bus, h.clients]
  split_ifs
  · exact ⟨rfl, rfl, rfl, h.reasm, rfl, h.transports⟩
  · exact ⟨rfl, rfl, h⟩

theorem inboundForward_alike (hsend : SendAlike send send' R) (msg : BcMessage)
    (origin : Option ℕ) (h : s.Alike R s') :
    (inboundForward send s msg origin).1 = (inboundForward send' s' msg origin).1 ∧
      (inboundForward send s msg origin).2.1 = (inboundForward send' s' msg origin).2.1 ∧
      BusState.Alike R (inboundForward send s msg origin).2.2
        (inboundForward send' s' msg origin).2.2 := by
  unfold inboundForward
  rw [h.bus]
  split_ifs
  · obtain ⟨hrc, hsent, hbus, htransports⟩ :=
      forwardMessage_alike hsend s'.bus msg origin h.transports
    exact ⟨hrc, hsent, hbus, h.reasm, h.clients, htransports⟩
  · exact ⟨rfl, rfl, h⟩

theorem inboundAck_alike (hsend : SendAlike send send' R) (msg : BcMessage) (origin : Option ℕ)
    (h : s.Alike R s') :
    (inboundAck send s msg origin).1 = (inboundAck send' s' msg origin).1 ∧
      BusState.Alike R (inboundAck send s msg origin).2 (inboundAck send' s' msg origin).2 := by
  unfold inboundAck
  rw [h.bus]
  cases origin with
  | none => exact ⟨rfl, h⟩
  | some transport =>
    simp only
    split_ifs
    · obtain ⟨hsent, hbus, htransports⟩ :=
        sendAck_alike hsend s'.bus transport msg h.transports
      exact ⟨hsent, hbus, h.reasm, h.clients, htransports⟩
    · exact ⟨rfl, h⟩

theorem inboundComplete_alike (hsend : SendAlike send send' R) (msg : BcMessage)
    (origin : Option ℕ) (h : s.Alike R s') :
    (inboundComplete deliver send s msg origin).1 =
        (inboundComplete deliver send' s' msg origin).1 ∧
      BusState.Alike R (inboundComplete deliver send s msg origin).2
        (inboundComplete deliver send' s' msg origin).2 := by
  unfold inboundComplete
  by_cases hother : msg.dstNode ≠ 0 ∧ msg.dstNode ≠ s.bus.nodeId
  · rw [if_pos hother, if_pos (by rwa [← h.bus])]
    obtain ⟨hrc, hsent, hbus, htransports⟩ :=
      forwardMessage_alike hsend s.bus msg origin h.transports
    unfold inboundUnicast
    rw [← h.bus]
    simp only
    exact ⟨by rw [hrc, hsent], by rw [hrc, hbus], h.reasm, h.clients, htransports⟩
  · rw [if_neg hother, if_neg (by rwa [← h.bus])]
    obtain ⟨hresult, hdelivery, hlocal⟩ :=
      @inboundLocal_alike σ ν ν' deliver R s s' msg h
    simp only [hresult, hdelivery]
    cases (inboundLocal deliver s' msg).1 with
    | error rc => exact ⟨rfl, hlocal⟩
    | ok n =>
      obtain ⟨hrc, hsent, hforward⟩ := inboundForward_alike hsend msg origin hlocal
      obtain ⟨hacks, hack⟩ := inboundAck_alike hsend msg origin hforward
      simp only [hrc, hsent, hforward.bus, hacks]
      split_ifs
      · exact ⟨rfl, hforward⟩
      · exact ⟨rfl, hack⟩

/-- Two buses get the same message from transports that answer alike. -/
theorem bcMessageBusHandleInbound_alike (hsend : SendAlike send send' R) (msg : BcMessage)
    (origin : Option ℕ) (h : s.Alike R s') :
    (bcMessageBusHandleInbound deliver send s msg origin).1 =
        (bcMessageBusHandleInbound deliver send' s' msg origin).1 ∧
      BusState.Alike R (bcMessageBusHandleInbound deliver send s msg origin).2
        (bcMessageBusHandleInbound deliver send' s' msg origin).2 := by
  unfold bcMessageBusHandleInbound
  simp only [h.bus, h.reasm]
  by_cases hack : msg.flags &&& bcFlagAck ≠ 0
  · rw [if_pos hack, if_pos hack]
    exact ⟨rfl, rfl, rfl, h.clients, h.transports⟩
  rw [if_neg hack, if_neg hack]
  by_cases hpiece : msg.flags &&& bcFlagFragment ≠ 0
  · rw [if_pos hpiece, if_pos hpiece]
    cases (bcReasmFeed s'.reasm msg).2.2 with
    | some complete =>
      exact inboundComplete_alike hsend complete origin ⟨rfl, rfl, h.clients, h.transports⟩
    | none =>
      simp only
      split_ifs
      · exact ⟨rfl, rfl, rfl, h.clients, h.transports⟩
      · exact ⟨rfl, rfl, rfl, h.clients, h.transports⟩
  · rw [if_neg hpiece, if_neg hpiece]
    exact inboundComplete_alike hsend msg origin ⟨rfl, rfl, h.clients, h.transports⟩

end Inbound

section Publish

variable {t : ν} {t' : ν'}

theorem publishNetwork_alike (hsend : SendAlike send send' R) (bus : MessageBus)
    (msg : BcMessage) (localResult : Except BcStatus ℕ) (h : R t t') :
    (publishNetwork send bus msg localResult t).1 =
        (publishNetwork send' bus msg localResult t').1 ∧
      (publishNetwork send bus msg localResult t).2.1 =
        (publishNetwork send' bus msg localResult t').2.1 ∧
      (publishNetwork send bus msg localResult t).2.2.1 =
        (publishNetwork send' bus msg localResult t').2.2.1 ∧
      R (publishNetwork send bus msg localResult t).2.2.2
        (publishNetwork send' bus msg localResult t').2.2.2 := by
  unfold publishNetwork
  by_cases hneed : needNetwork bus msg = true
  · rw [if_pos hneed, if_pos hneed]
    cases bcRouterRoute bus.router msg with
    | none =>
      simp only
      split_ifs <;> exact ⟨rfl, rfl, rfl, h⟩
    | some transport =>
      have huse : NetworkUse.Alike R ⟨t, bus.stats, []⟩ ⟨t', bus.stats, []⟩ := ⟨h, rfl, rfl⟩
      obtain ⟨hrc, hnext⟩ := sendOnTransport_alike hsend transport msg huse
      simp only [hrc, hnext.stats, hnext.sent]
      exact ⟨trivial, trivial, trivial, hnext.transports⟩
  · rw [if_neg hneed, if_neg hneed]
    exact ⟨rfl, rfl, rfl, h⟩

/-- A message is published on transports that answer alike. -/
theorem bcMessageBusPublish_alike {s : BusState σ ν} {s' : BusState σ ν'}
    (hsend : SendAlike send send' R) (source : ℤ) (msg : BcMessage) (h : s.Alike R s') :
    let r := bcMessageBusPublish deliver send s.bus source msg s.clients s.transports
    let r' := bcMessageBusPublish deliver send' s'.bus source msg s'.clients s'.transports
    r.1 = r'.1 ∧ BusState.Alike R
      { s with bus := r.2.1, clients := r.2.2.1, transports := r.2.2.2 }
      { s' with bus := r'.2.1, clients := r'.2.2.1, transports := r'.2.2.2 } := by
  rw [h.bus, h.clients]
  let localPart := publishLocal deliver (stampMessage s'.bus msg).2 source
    (stampMessage s'.bus msg).1 s'.clients
  obtain ⟨hrc, hsent, hbus, htransports⟩ := publishNetwork_alike hsend localPart.2.2.1
    (stampMessage s'.bus msg).1 localPart.1 h.transports
  exact ⟨by simp only [bcMessageBusPublish, localPart, hrc, hsent], hbus, h.reasm, rfl,
    htransports⟩

end Publish

section Keeps

variable {I : ν → Prop}

/-- Sending the frame of a message keeps what is known of the transports. -/
def SendKeeps (send : ℕ → List UInt8 → ν → BcStatus × ν) (I : ν → Prop) : Prop :=
  ∀ transport (m : WireMessage) t, I t → I (send transport m.frame t).2

theorem SendKeeps.alike (h : SendKeeps send I) :
    SendAlike send send fun t t' => t = t' ∧ I t := by
  rintro transport m t _ ⟨rfl, ht⟩
  exact ⟨rfl, rfl, h transport m t ht⟩

/-- The bus does nothing with its transports but sending frames of messages. -/
theorem bcMessageBusHandleInbound_keepsTransports (hsend : SendKeeps send I) (s : BusState σ ν)
    (msg : BcMessage) (origin : Option ℕ) (h : I s.transports) :
    I (bcMessageBusHandleInbound deliver send s msg origin).2.transports :=
  (bcMessageBusHandleInbound_alike hsend.alike msg origin
    ⟨rfl, rfl, rfl, rfl, h⟩).2.transports.2

theorem bcMessageBusPublish_keepsTransports (hsend : SendKeeps send I) (s : BusState σ ν)
    (source : ℤ) (msg : BcMessage) (h : I s.transports) :
    I (bcMessageBusPublish deliver send s.bus source msg s.clients s.transports).2.2.2 :=
  (bcMessageBusPublish_alike hsend.alike source msg
    ⟨rfl, rfl, rfl, rfl, h⟩).2.transports.2

end Keeps

end BoardComm
