import BoardComm.MessageInbound

/-!
# The acknowledgement counters

Which of its counters a bus touches while it handles an inbound message. Sending
changes only the counters of sending.
-/
namespace BoardComm

section Sending

variable {ν α : Type*} (send : ℕ → List UInt8 → ν → BcStatus × ν) {msg : BcMessage}

/-- What every piece keeps, sending all pieces keeps. -/
theorem bcFragmentPublish_keeps {ρ : Type*} {emit : BcMessage → ρ → BcStatus × ρ} {P : ρ → Prop}
    (hemit : ∀ piece user, P user → P (emit piece user).2) {user : ρ} (h : P user) :
    P (bcFragmentPublish emit msg user).2 := by
  have hloop : ∀ (total : ℕ) (indices : List ℕ) (user : ρ), P user →
      P (bcFragmentPublishLoop emit msg total indices user).2 := by
    intro total indices
    induction indices with
    | nil => exact fun _ h => h
    | cons index indices ih =>
      intro user h
      have hnext := hemit (fragmentPiece msg total index) user h
      unfold bcFragmentPublishLoop
      generalize emit (fragmentPiece msg total index) user = answer at hnext
      obtain ⟨rc, user'⟩ := answer
      cases rc with
      | ok => exact ih user' hnext
      | _ => exact hnext
  unfold bcFragmentPublish
  simp only
  split_ifs
  · exact hemit msg user h
  · exact h
  · exact hloop _ _ user h

/-- A view of the counters that does not show those of sending. -/
structure BlindToSending (see : BcStats → α) : Prop where
  pubFailed : ∀ stats n, see { stats with pubFailed := n } = see stats
  fragTx : ∀ stats n, see { stats with fragTx := n } = see stats
  pubNetwork : ∀ stats n, see { stats with pubNetwork := n } = see stats

theorem ackRecv_blind : BlindToSending BcStats.ackRecv :=
  ⟨fun _ _ => rfl, fun _ _ => rfl, fun _ _ => rfl⟩

theorem ackSent_blind : BlindToSending BcStats.ackSent :=
  ⟨fun _ _ => rfl, fun _ _ => rfl, fun _ _ => rfl⟩

variable {see : BcStats → α}

theorem emitNetworkFrame_keeps (hsee : BlindToSending see) (transport : ℕ) (piece : BcMessage)
    (use : NetworkUse ν) :
    see (emitNetworkFrame send transport piece use).2.stats = see use.stats := by
  unfold emitNetworkFrame
  cases bcProtocolEncode piece with
  | error _ => rfl
  | ok frame =>
    simp only
    split_ifs
    · rfl
    · exact hsee.pubFailed _ _

theorem sendOnTransport_keeps (hsee : BlindToSending see) (transport : ℕ) (use : NetworkUse ν) :
    see (sendOnTransport send transport msg use).2.stats = see use.stats := by
  have hpieces : ∀ use' : NetworkUse ν, see use'.stats = see use.stats →
      see (bcFragmentPublish (emitNetworkFrame send transport) msg use').2.stats =
        see use.stats := fun use' h =>
    bcFragmentPublish_keeps (P := fun u => see u.stats = see use.stats)
      (fun piece u hu => (emitNetworkFrame_keeps send hsee transport piece u).trans hu) h
  have hlong := hpieces { use with stats := { use.stats with fragTx := use.stats.fragTx + 1 } }
    (hsee.fragTx _ _)
  unfold sendOnTransport
  simp only
  split_ifs
  · exact (hsee.pubNetwork _ _).trans hlong
  · exact hlong
  · exact (hsee.pubNetwork _ _).trans (emitNetworkFrame_keeps send hsee transport msg use)
  · exact emitNetworkFrame_keeps send hsee transport msg use

variable {σ : Type*} (deliver : ℤ → List UInt8 → σ → DeliverAnswer × σ)

/-- A view that does not show the counters of local deliveries either. -/
structure BlindToPublishing (see : BcStats → α) : Prop extends BlindToSending see where
  delivered : ∀ stats n m, see { stats with rxLocal := n, pubLocal := m } = see stats

theorem ackRecv_unpublished : BlindToPublishing BcStats.ackRecv :=
  ⟨ackRecv_blind, fun _ _ _ => rfl⟩

theorem ackSent_unpublished : BlindToPublishing BcStats.ackSent :=
  ⟨ackSent_blind, fun _ _ _ => rfl⟩

/-- Publishing changes only the counters of publishing. -/
theorem bcMessageBusPublish_keeps (hsee : BlindToPublishing see) (bus : MessageBus) (source : ℤ)
    (msg : BcMessage) (clients : σ) (transports : ν) :
    see (bcMessageBusPublish deliver send bus source msg clients transports).2.1.stats =
      see bus.stats := by
  have hstamp : (stampMessage bus msg).2.stats = bus.stats := by
    unfold stampMessage
    split_ifs <;> rfl
  have hlocal : ∀ (bus : MessageBus) (msg : BcMessage),
      see (publishLocal deliver bus source msg clients).2.2.1.stats = see bus.stats := by
    intro bus msg
    unfold publishLocal
    split_ifs
    · exact hsee.delivered _ _ _
    · rfl
  have hnetwork : ∀ (bus : MessageBus) (msg : BcMessage) (localResult : Except BcStatus ℕ),
      see (publishNetwork send bus msg localResult transports).2.2.1.stats = see bus.stats := by
    intro bus msg localResult
    unfold publishNetwork
    by_cases hneed : needNetwork bus msg = true
    · rw [if_pos hneed]
      cases bcRouterRoute bus.router msg with
      | none =>
        by_cases hrequire : bus.requireRoute = true
        · simp only [if_pos hrequire]
          exact hsee.pubFailed _ _
        · simp only [if_neg hrequire]
      | some transport => exact sendOnTransport_keeps send hsee.toBlindToSending transport _
    · rw [if_neg hneed]
  have hpublish := (hnetwork (publishLocal deliver (stampMessage bus msg).2 source
    (stampMessage bus msg).1 clients).2.2.1 (stampMessage bus msg).1 (publishLocal deliver
    (stampMessage bus msg).2 source (stampMessage bus msg).1 clients).1).trans (hlocal _ _)
  rw [hstamp] at hpublish
  exact hpublish

end Sending

section Inbound

variable {σ ν : Type*} (deliver : ℤ → List UInt8 → σ → DeliverAnswer × σ)
  (send : ℕ → List UInt8 → ν → BcStatus × ν) {msg : BcMessage}

theorem forwardMessage_ackRecv (bus : MessageBus) (exclude : Option ℕ) (transports : ν) :
    (forwardMessage send bus msg exclude transports).2.2.1.stats.ackRecv = bus.stats.ackRecv := by
  unfold forwardMessage
  cases bcRouterRoute bus.router msg with
  | none =>
    simp only
    split_ifs <;> rfl
  | some transport =>
    have hsend : (sendOnTransport send transport msg
        ⟨transports, bus.stats, []⟩).2.stats.ackRecv = bus.stats.ackRecv :=
      sendOnTransport_keeps send ackRecv_blind transport _
    simp only
    split_ifs
    · rfl
    · exact hsend
    · exact hsend

theorem inboundAck_ackRecv (s : BusState σ ν) (fromTransport : Option ℕ) :
    (inboundAck send s msg fromTransport).2.bus.stats.ackRecv = s.bus.stats.ackRecv := by
  cases fromTransport with
  | none => rfl
  | some transport =>
    have hsend : (sendOnTransport send transport (ackMessage s.bus msg)
        ⟨s.transports, s.bus.stats, []⟩).2.stats.ackRecv = s.bus.stats.ackRecv :=
      sendOnTransport_keeps send ackRecv_blind transport _
    unfold inboundAck sendAck
    simp only
    split_ifs
    · exact hsend
    · exact hsend
    · rfl

/-- No message that is complete counts as an acknowledgement. -/
theorem inboundComplete_ackRecv (s : BusState σ ν) (fromTransport : Option ℕ) :
    (inboundComplete deliver send s msg fromTransport).2.bus.stats.ackRecv =
      s.bus.stats.ackRecv := by
  have hlocal : (inboundLocal deliver s msg).2.2.bus.stats.ackRecv = s.bus.stats.ackRecv := by
    unfold inboundLocal
    split_ifs
    · simp only [bcMessageBusDeliverLocal]
      split <;> rfl
    · rfl
  have hforward : ∀ s' : BusState σ ν,
      (inboundForward send s' msg fromTransport).2.2.bus.stats.ackRecv =
        s'.bus.stats.ackRecv := by
    intro s'
    unfold inboundForward
    split_ifs
    · exact forwardMessage_ackRecv send s'.bus fromTransport s'.transports
    · rfl
  unfold inboundComplete
  by_cases hother : msg.dstNode ≠ 0 ∧ msg.dstNode ≠ s.bus.nodeId
  · rw [if_pos hother]
    exact forwardMessage_ackRecv send s.bus fromTransport s.transports
  rw [if_neg hother]
  simp only
  cases (inboundLocal deliver s msg).1 with
  | error rc => exact hlocal
  | ok n =>
    simp only
    split_ifs
    · exact (hforward _).trans hlocal
    · exact ((inboundAck_ackRecv send _ fromTransport).trans (hforward _)).trans hlocal

/-- A bus counts an acknowledgement exactly for a message with the flag. -/
theorem handleInbound_ackRecv (s : BusState σ ν) (msg : BcMessage) (fromTransport : Option ℕ) :
    (bcMessageBusHandleInbound deliver send s msg fromTransport).2.bus.stats.ackRecv =
      if msg.flags &&& bcFlagAck ≠ 0 then s.bus.stats.ackRecv + 1 else s.bus.stats.ackRecv := by
  unfold bcMessageBusHandleInbound
  by_cases hack : msg.flags &&& bcFlagAck ≠ 0
  · simp only [if_pos hack]
  simp only [if_neg hack]
  by_cases hfrag : msg.flags &&& bcFlagFragment ≠ 0
  · simp only [if_pos hfrag]
    cases (bcReasmFeed s.reasm msg).2.2 with
    | some complete => exact inboundComplete_ackRecv deliver send _ fromTransport
    | none =>
      simp only
      split_ifs <;> rfl
  · simp only [if_neg hfrag]
    exact inboundComplete_ackRecv deliver send _ fromTransport

end Inbound

end BoardComm
