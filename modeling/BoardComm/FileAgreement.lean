import BoardComm.FileParties
import BoardComm.Runs

/-!
# Agreement of the two parties of a file transfer

Over a network that loses, repeats and reorders packets as it likes: a receiver
that returns success has the file of the sender, and a sender that returns
success has a receiver that did.
-/
namespace BoardComm

/-- Packets are never used up: each can be read never, once or often, in any order. -/
def anyOrder : FileNetwork where
  take queue payload := if payload ∈ queue then some queue else none
  lost _ := false

section Receiver

variable {t : FileTransfer} {pieces : List (List UInt8)}

/-- Where the receiver of a transfer can stand. -/
inductive FileTransfer.ReceiverAt (t : FileTransfer) : FileRecv → Prop
  | waiting : t.ReceiverAt recvFileStart
  | receiving {pieces : List (List UInt8)} (h : Kept t.chunks pieces) (ended : Bool) :
      t.ReceiverAt (t.receiver pieces ended)
  | complete : t.ReceiverAt t.complete
  | failed {r : FileRecv} {rc : BcStatus} (h : r.exit = some rc) (hrc : rc ≠ .ok) : t.ReceiverAt r

/-- A receiver that returns success has the file. -/
theorem FileTransfer.ReceiverAt.eq_complete {r : FileRecv} (h : t.ReceiverAt r)
    (hok : r.exit = some .ok) : r = t.complete := by
  cases h with
  | waiting => simp [recvFileStart] at hok
  | receiving => simp at hok
  | complete => rfl
  | failed hexit hrc => exact absurd (Option.some.inj (hexit.symm.trans hok)) hrc

/-- What a step of the receiver may do: it stays in the transfer, and says DONE
only with the whole file. -/
structure FileTransfer.ReceiverStep (t : FileTransfer) (next : FileRecv × List (List UInt8)) :
    Prop where
  stays : t.ReceiverAt next.1
  done : ∀ p ∈ next.2, t.IsDone p → next.1 = t.complete

theorem not_isDone_nackPacket (t : FileTransfer) (k : ℕ) : ¬ t.IsDone (t.nackPacket k) := by
  rintro ⟨hdr, extra, hparse, hdone⟩
  rw [FileTransfer.nackPacket, fileV2Control, parseFilePacket_filePacket] at hparse
  obtain ⟨rfl, rfl⟩ := Prod.mk.inj (Option.some.inj hparse)
  rw [parseFileV2Control_fileV2Control, if_neg (by decide)] at hdone
  exact BcStatus.noConfusion hdone

theorem receiverStep_silent {r : FileRecv} (h : t.ReceiverAt r) : t.ReceiverStep (r, []) :=
  ⟨h, by simp⟩

theorem receiverStep_nack {r : FileRecv} (h : t.ReceiverAt r) (k : ℕ) :
    t.ReceiverStep (r, [t.nackPacket k]) := by
  refine ⟨h, fun p hp hdone => absurd hdone ?_⟩
  rw [List.mem_singleton.mp hp]
  exact not_isDone_nackPacket t k

/-- The sizes of the receiver are compared without wrapping. -/
theorem received_eq_size_iff (h : Kept t.chunks pieces) :
    UInt32.ofNat pieces.flatten.length = .ofNat t.content.length ↔
      pieces.flatten.length = t.content.length := by
  have hsize : t.content.length < UInt32.size := t.size_lt
  have hle : pieces.flatten.length ≤ t.content.length := h.flatten_length_le
  constructor
  · intro heq
    have hval := congrArg UInt32.toNat heq
    rwa [UInt32.toNat_ofNat_of_lt' (hle.trans_lt hsize), UInt32.toNat_ofNat_of_lt' hsize] at hval
  · intro heq
    rw [heq]

/-- A receiver that has received the announced number of bytes has the file. -/
theorem finish_step (h : Kept t.chunks pieces)
    (hsize : UInt32.ofNat pieces.flatten.length = .ofNat t.content.length) :
    t.ReceiverStep (t.receiver pieces true).finish := by
  have hall := h.eq_of_flatten_length t.chunk_ne ((received_eq_size_iff h).mp hsize)
  rw [hall, finish_receiver]
  exact ⟨.complete, fun _ _ _ => rfl⟩

theorem accept_step (io : RecvIo) (h : Kept t.chunks pieces) (ended : Bool) {chunk : List UInt8}
    (hchunk : t.chunks[pieces.length]? = some chunk) :
    t.ReceiverStep ((t.receiver pieces ended).accept io (t.pieceOf chunk)) := by
  have hkept := h.append hchunk (piece_pieceOf t chunk)
  rw [accept_receiver]
  split
  · exact receiverStep_silent (.failed rfl (by decide))
  · split
    · next hfull =>
      obtain ⟨rfl, hsize⟩ := hfull
      exact finish_step hkept hsize
    · exact receiverStep_silent (.receiving hkept ended)

/-- One packet of the transfer, whatever came before it. -/
theorem recvFilePacket_step (io : RecvIo) {r : FileRecv} (h : t.ReceiverAt r) (hrun : r.exit = none)
    {payload : List UInt8} (hp : t.Emits payload) :
    t.ReceiverStep (recvFilePacket t.channel io r payload) := by
  cases h with
  | waiting =>
    cases hp with
    | start =>
      rw [recvFilePacket_start]
      split
      · exact receiverStep_silent (.receiving (.nil _) false)
      · exact receiverStep_silent (.failed rfl (by decide))
    | data =>
      rw [fileDataPacket, recvFilePacket_early _ _ _ _ (by decide)]
      exact receiverStep_silent .waiting
    | done =>
      rw [FileTransfer.finalEnd, FileTransfer.endPacket, fileV2Control,
        recvFilePacket_early _ _ _ _ (by decide)]
      exact receiverStep_silent .waiting
  | @receiving pieces hk ended =>
    cases hp with
    | start =>
      rw [recvFilePacket_start_again]
      exact receiverStep_silent (.receiving hk ended)
    | @data i chunk hchunk =>
      obtain ⟨hi, hget⟩ := List.getElem?_eq_some_iff.mp hchunk
      have hne : chunk ≠ [] := t.chunk_ne chunk (hget ▸ List.getElem_mem hi)
      rw [recvFilePacket_data t _ io hi hk.length_le hne]
      split
      · exact receiverStep_silent (.receiving hk ended)
      · split
        · exact receiverStep_nack (.receiving hk ended) _
        · next hlt hgt =>
          obtain rfl : pieces.length = i := by omega
          exact accept_step io hk ended hchunk
    | done =>
      rw [recvFilePacket_end]
      split
      · exact receiverStep_silent (.receiving hk ended)
      · split
        · exact receiverStep_nack (.receiving hk true) _
        · next hsize => exact finish_step hk (by simpa using hsize)
  | complete => simp [FileTransfer.complete] at hrun
  | failed hexit => simp [hrun] at hexit

theorem recvFileTimeout_step {r : FileRecv} (h : t.ReceiverAt r) (hrun : r.exit = none) :
    t.ReceiverStep (recvFileTimeout r) := by
  cases h with
  | waiting => exact receiverStep_silent (.failed rfl (by decide))
  | @receiving pieces hk ended =>
    rw [recvFileTimeout, FileTransfer.receiver_gotStart, if_neg (by simp), nack_receiver]
    exact receiverStep_nack (.failed rfl (by decide)) _
  | complete => simp [FileTransfer.complete] at hrun
  | failed hexit => simp [hrun] at hexit

/-- Every step of the receiver on packets of the transfer. -/
theorem recvFileStep_step {r : FileRecv} {answer : RecvFileAnswer}
    {next : FileRecv × List (List UInt8)} (h : t.ReceiverAt r)
    (hp : ∀ p ∈ answer.payload, t.Emits p)
    (hnext : recvFileStep t.channel r answer = some next) : t.ReceiverStep next := by
  cases hrun : r.exit with
  | some rc => simp [recvFileStep, hrun] at hnext
  | none =>
    cases answer with
    | read payload io =>
      simp only [recvFileStep, hrun] at hnext
      obtain rfl := Option.some.inj hnext
      exact recvFilePacket_step io h hrun (hp payload rfl)
    | timeout =>
      simp only [recvFileStep, hrun] at hnext
      obtain rfl := Option.some.inj hnext
      exact recvFileTimeout_step h hrun
    | readError rc =>
      simp only [recvFileStep, hrun] at hnext
      obtain rfl := Option.some.inj hnext
      exact receiverStep_silent (.failed rfl rc.2.1)

end Receiver

section Agreement

variable {t : FileTransfer} {sys : FileSystem}

/-- The invariant of the system: both parties stand in the transfer, only its
packets are under way to the receiver, and where the receiver is said to be done
it has the file. -/
structure FileTransfer.Agrees (t : FileTransfer) (sys : FileSystem) : Prop where
  sender : t.SenderAt sys.sender
  receiver : t.ReceiverAt sys.receiver
  toRecv : ∀ p ∈ sys.toRecv, t.Emits p
  toSend : ∀ p ∈ sys.toSend, t.IsDone p → sys.receiver = t.complete
  done : sys.sender.DoneSeen → sys.receiver = t.complete

theorem agrees_system (t : FileTransfer) : t.Agrees t.system := by
  refine ⟨.start, .waiting, ?_, ?_, ?_⟩
  · intro p hp
    exact absurd hp List.not_mem_nil
  · intro p hp
    exact absurd hp List.not_mem_nil
  · intro h
    exact absurd h (not_doneSeen_start (t := t) (k := 0))

/-- Whoever reads, reads something that is under way, and nothing is used up. -/
theorem read_anyOrder {queue left : List (List UInt8)} {payload : Option (List UInt8)}
    (h : anyOrder.read queue payload = some left) :
    left = queue ∧ ∀ p ∈ payload, p ∈ queue := by
  cases payload with
  | none => exact ⟨(Option.some.inj h).symm, by simp⟩
  | some p =>
    simp only [FileNetwork.read, anyOrder] at h
    split at h
    · next hp =>
      refine ⟨(Option.some.inj h).symm, fun q hq => ?_⟩
      rwa [← Option.some.inj hq]
    · simp at h

theorem FileTransfer.Agrees.step (h : t.Agrees sys) (event : FileEvent) :
    t.Agrees (sys.step anyOrder t event) := by
  cases event with
  | sender answer =>
    simp only [FileSystem.step]
    split
    · next left next written hread hnext =>
      obtain ⟨rfl, hmem⟩ := read_anyOrder hread
      have hstep := sendFileStep_step h.sender hnext
      refine ⟨hstep.stays, h.receiver, ?_, h.toSend, fun hdone => ?_⟩
      · intro p hp
        simp only [anyOrder, Bool.false_eq_true, if_false, List.mem_append] at hp
        exact hp.elim (h.toRecv p) (hstep.emits p)
      · rcases hstep.done hdone with hseen | ⟨payload, rc, rfl, hpayload⟩
        · exact h.done hseen
        · exact h.toSend payload (hmem payload rfl) hpayload
    · exact h
  | receiver answer =>
    simp only [FileSystem.step]
    split
    · next left next written hread hnext =>
      obtain ⟨rfl, hmem⟩ := read_anyOrder hread
      have hstep := recvFileStep_step h.receiver (fun p hp => h.toRecv p (hmem p hp)) hnext
      -- a receiver that is done takes no further step
      have hrunning : sys.receiver ≠ t.complete := by
        intro hcomplete
        rw [hcomplete] at hnext
        cases hnext
      refine ⟨h.sender, hstep.stays, h.toRecv, ?_, fun hdone => absurd (h.done hdone) hrunning⟩
      intro p hp hdone
      rcases List.mem_append.mp hp with hold | hnew
      · exact absurd (h.toSend p hold hdone) hrunning
      · exact hstep.done p hnew hdone
    · exact h

/-- The invariant holds in every state of every run. -/
theorem agrees_run (t : FileTransfer) (events : List FileEvent) :
    t.Agrees (Runs.run (FileSystem.step anyOrder t) t.system events) :=
  Runs.run_of_step _ (fun _ event h => h.step event) (agrees_system t) events

/-- However the network treats the packets, a successful receiver has exactly the
file, every chunk once, and a successful sender has a successful receiver. -/
theorem file_transfer_agreement (t : FileTransfer) (events : List FileEvent) :
    let sys := Runs.run (FileSystem.step anyOrder t) t.system events
    (sys.receiver.exit = some .ok →
      sys.receiver.file = some t.content ∧ sys.receiver.expectedSeq = .ofNat t.count) ∧
    (sys.sender.phase = .returned .ok →
      sys.receiver.exit = some .ok ∧ sys.receiver.file = some t.content) := by
  intro sys
  have h : t.Agrees sys := agrees_run t events
  constructor
  · intro hexit
    rw [h.receiver.eq_complete hexit]
    exact ⟨rfl, rfl⟩
  · intro hphase
    rw [h.done (.inr hphase)]
    exact ⟨rfl, rfl⟩

/-- A file of one byte. -/
def oneByteFile : FileTransfer where
  transferId := 7
  name := [97]
  channel := []
  chunks := [[1]]
  name_ne := by decide
  name_le := by decide
  channel_lt := by decide
  chunk_ne := by decide
  chunk_le := by decide
  size_lt := by decide

-- END overtakes the data, and both parties still come to an end.
example : (Runs.run (FileSystem.step anyOrder oneByteFile) oneByteFile.system
    [.sender (.write .ok), .sender (.write .ok), .sender (.write .ok),
      .receiver (.read oneByteFile.startPacket ⟨true, true⟩),
      .receiver (.read oneByteFile.finalEnd ⟨true, true⟩),
      .receiver (.read (fileDataPacket 0 [1]) ⟨true, true⟩),
      .sender (.read oneByteFile.donePacket .ok), .sender (.timeout .ok)]).sender.phase =
    .returned .ok := by decide +kernel

end Agreement

end BoardComm
