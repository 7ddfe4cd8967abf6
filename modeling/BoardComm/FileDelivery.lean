import BoardComm.FileRecovery

/-!
# File transfers over a network that loses nothing

All calls succeed, everything that is written arrives once and in order, and nobody
stops waiting while something can still come. What the receiver writes to the file
depends on the bytes of the file all the same: a transfer id at the front of a chunk
is cut off, and no packet follows that would make up for it.
-/
namespace BoardComm

/-- Packets arrive once and in order. -/
def inOrder : FileNetwork where
  take queue payload := if queue.head? = some payload then some queue.tail else none
  lost _ := false

/-- The sender has calls to make before it waits. -/
def FileSend.Writing (s : FileSend) : Prop := s.phase = .start ∨ s.phase = .data

/-- What can happen where nothing fails. The sender may have to wait for several rounds,
but it has not begun the last one in vain; the receiver stops waiting when nothing is
under way and nothing will be. -/
inductive FileTransfer.Due (t : FileTransfer) (sys : FileSystem) : FileEvent → Prop
  | write (h : sys.sender.Writing) : t.Due sys (.sender (.write .ok))
  | control {payload : List UInt8} {rest : List (List UInt8)} {round : ℕ}
      {doneSeen resentAny : Bool} (hphase : sys.sender.phase = .wait round doneSeen resentAny)
      (hqueue : sys.toSend = payload :: rest) : t.Due sys (.sender (.read payload .ok))
  | round {round : ℕ} {doneSeen resentAny : Bool}
      (hphase : sys.sender.phase = .wait round doneSeen resentAny) (hqueue : sys.toSend = [])
      (htime : sys.toRecv = [] ∨ round + 1 < endWaitRounds t) : t.Due sys (.sender (.timeout .ok))
  | packet {payload : List UInt8} {rest : List (List UInt8)} (hrun : sys.receiver.exit = none)
      (hqueue : sys.toRecv = payload :: rest) :
      t.Due sys (.receiver (.read payload ⟨true, true⟩))
  | idle (hrun : sys.receiver.exit = none) (hrecv : sys.toRecv = []) (hsend : sys.toSend = [])
      (hdone : ¬ sys.sender.Writing) : t.Due sys (.receiver .timeout)

/-- Both have returned success, and the receiver has the file. -/
structure FileTransfer.Transferred (t : FileTransfer) (sys : FileSystem) : Prop where
  receiver : sys.receiver.exit = some .ok
  file : sys.receiver.file = some t.content
  sender : sys.sender.phase = .returned .ok

section Steps

variable {t : FileTransfer} {s s' : FileSend} {r r' : FileRecv} {toRecv toSend : List (List UInt8)}
  {written : List (List UInt8)} {payload : List UInt8}

theorem step_write (h : sendFileStep t s (.write .ok) = some (s', written)) :
    FileSystem.step inOrder t ⟨s, r, toRecv, toSend⟩ (.sender (.write .ok)) =
      ⟨s', r, toRecv ++ written, toSend⟩ := by
  simp [FileSystem.step, FileNetwork.read, SendAnswer.payload, inOrder, h]

theorem step_round (h : sendFileStep t s (.timeout .ok) = some (s', written)) :
    FileSystem.step inOrder t ⟨s, r, toRecv, toSend⟩ (.sender (.timeout .ok)) =
      ⟨s', r, toRecv ++ written, toSend⟩ := by
  simp [FileSystem.step, FileNetwork.read, SendAnswer.payload, inOrder, h]

theorem step_control (h : sendFileStep t s (.read payload .ok) = some (s', written)) :
    FileSystem.step inOrder t ⟨s, r, toRecv, payload :: toSend⟩ (.sender (.read payload .ok)) =
      ⟨s', r, toRecv ++ written, toSend⟩ := by
  simp [FileSystem.step, FileNetwork.read, SendAnswer.payload, inOrder, h]

theorem step_packet (hrun : r.exit = none)
    (h : recvFilePacket t.channel ⟨true, true⟩ r payload = (r', written)) :
    FileSystem.step inOrder t ⟨s, r, payload :: toRecv, toSend⟩
        (.receiver (.read payload ⟨true, true⟩)) = ⟨s, r', toRecv, toSend ++ written⟩ := by
  simp [FileSystem.step, FileNetwork.read, RecvFileAnswer.payload, recvFileStep, inOrder, hrun, h]

theorem step_idle (hrun : r.exit = none) :
    FileSystem.step inOrder t ⟨s, r, toRecv, toSend⟩ (.receiver .timeout) =
      ⟨s, (recvFileTimeout r).1, toRecv, toSend ++ (recvFileTimeout r).2⟩ := by
  simp [FileSystem.step, FileNetwork.read, RecvFileAnswer.payload, recvFileStep, hrun]

/-- The packet that comes after the last chunk asks for nothing that was sent. -/
theorem sendFileStep_nack_beyond (t : FileTransfer) (round : ℕ) (doneSeen resentAny : Bool)
    (rc : BcStatus) :
    sendFileStep t (t.sender t.count (.wait round doneSeen resentAny))
        (.read (t.nackPacket t.count) rc) =
      some (t.sender t.count (.wait round doneSeen resentAny), []) := by
  have htype : ¬ (bcFilePktNack = bcFilePktStart ∨ bcFilePktNack = bcFilePktData ∨
      bcFilePktNack = bcFilePktEnd) := by decide
  have hbeyond : UInt32.ofNat t.count ≥
      (t.sender t.count (.wait round doneSeen resentAny)).seq := UInt32.le_refl _
  refine congrArg some ?_
  simp only [senderHandlePacket, FileTransfer.nackPacket, fileV2Control,
    parseFilePacket_filePacket, parseFileV2Control_fileV2Control, if_neg htype, if_pos hbeyond]
  rw [if_neg (by decide)]
  split <;> rfl

theorem sendFileStep_done (t : FileTransfer) (round : ℕ) (doneSeen resentAny : Bool)
    (rc : BcStatus) :
    sendFileStep t (t.sender t.count (.wait round doneSeen resentAny))
        (.read t.donePacket rc) =
      some (t.sender t.count (.wait round true resentAny), []) := by
  refine congrArg some ?_
  simp only [senderHandlePacket, FileTransfer.donePacket, fileV2Control,
    parseFilePacket_filePacket, parseFileV2Control_fileV2Control, if_true]
  rfl

/-- A round without anything to read, before DONE. -/
theorem sendFileStep_waiting (t : FileTransfer) (round : ℕ) (rc : BcStatus) :
    sendFileStep t (t.sender t.count (.wait round false false)) (.timeout rc) =
      some (t.sender t.count (if round + 1 < endWaitRounds t then .wait (round + 1) false false
        else .returned .timeout), []) := by
  refine congrArg some ?_
  simp [senderEndRound, FileTransfer.sender]

theorem sendFileStep_told (t : FileTransfer) (round : ℕ) (resentAny : Bool) (rc : BcStatus) :
    sendFileStep t (t.sender t.count (.wait round true resentAny)) (.timeout rc) =
      some (t.sender t.count (.returned .ok), []) := by
  refine congrArg some ?_
  simp [senderEndRound, FileTransfer.sender]

end Steps

section Course

variable {t : FileTransfer} {s : FileSend} {j : ℕ} {ended : Bool} {sys : FileSystem}

/-- How often the sender can still write or stop waiting. -/
def FileTransfer.sendLeft (t : FileTransfer) (s : FileSend) : ℕ :=
  match s.phase with
  | .start => t.count + 3 + endWaitRounds t
  | .data => s.rest.length + 2 + endWaitRounds t
  | .wait round _ _ => endWaitRounds t - round + 1
  | .returned _ => 0

/-- How often a packet can still be read: the receiver reads the stream, and the sender
what comes back at its end. -/
def FileTransfer.readLeft (t : FileTransfer) (sys : FileSystem) : ℕ :=
  if sys.receiver.exit = none then
    if sys.receiver.gotStart = true then t.count - sys.receiver.expectedSeq.toNat + 2
    else t.count + 3
  else sys.toSend.length

def FileTransfer.left (t : FileTransfer) (sys : FileSystem) : ℕ :=
  t.sendLeft sys.sender + t.readLeft sys

/-- The states of a transfer in which nothing is cut off. No chunk has the number
`t.count`, so none is left out of the stream. -/
inductive FileTransfer.Course (t : FileTransfer) : FileSystem → Prop
  | start : t.Course ⟨t.sender 0 .start, recvFileStart, [], []⟩
  | unopened {s : FileSend} {j : ℕ} {ended : Bool} (h : t.Sent s j ended) :
      t.Course ⟨s, recvFileStart, t.startPacket :: t.ahead t.count 0 j ended, []⟩
  | receiving {s : FileSend} {p j : ℕ} {ended : Bool} (h : t.Sent s j ended) (hp : p ≤ j) :
      t.Course ⟨s, t.receiver (t.chunks.take p) false, t.ahead t.count p j ended, []⟩
  | complete (round : ℕ) :
      t.Course ⟨t.sender t.count (.wait round false false), t.complete, [], [t.donePacket]⟩
  | told (round : ℕ) :
      t.Course ⟨t.sender t.count (.wait round true false), t.complete, [], []⟩
  | returned : t.Course ⟨t.sender t.count (.returned .ok), t.complete, [], []⟩

/-- The sender writes the next chunk, or END. -/
theorem sent_write (h : t.Sent s j ended) (hwriting : s.Writing) :
    ∃ s' written j' ended', sendFileStep t s (.write .ok) = some (s', written) ∧
      t.Sent s' j' ended' ∧ j ≤ j' ∧ t.sendLeft s' < t.sendLeft s ∧
      ∀ p ≤ j, t.ahead t.count p j ended ++ written = t.ahead t.count p j' ended' := by
  cases h with
  | @data j hj =>
    rcases hj.lt_or_eq with hlt | rfl
    · refine ⟨t.sender (j + 1) .data, [t.dataPacket j], j + 1, false, ?_, .data hlt, by omega, ?_,
        fun p hp => ?_⟩
      · rw [sendFileStep_data (chunks_getD hlt), if_pos rfl]
        rfl
      · have hcount : t.chunks.length = t.count := rfl
        simp only [FileTransfer.sendLeft, FileTransfer.sender, List.length_drop, hcount]
        omega
      · rw [← ahead_succ t hp, if_neg hlt.ne]
    · refine ⟨t.sender t.count (.wait 0 false false), [t.finalEnd], t.count, true, ?_, .wait 0,
        le_refl _, ?_, fun p _ => ahead_end t p t.count⟩
      · rw [sendFileStep_end, if_pos rfl]
      · have hnone : t.chunks.length - t.count = 0 := Nat.sub_self _
        simp only [FileTransfer.sendLeft, FileTransfer.sender, List.length_drop, hnone]
        omega
  | wait round => rcases hwriting with h | h <;> cases h

/-- The sender waits for another round. -/
theorem sent_round {round : ℕ} {doneSeen resentAny : Bool} (h : t.Sent s j ended)
    (hphase : s.phase = .wait round doneSeen resentAny) (htime : round + 1 < endWaitRounds t) :
    ∃ s', sendFileStep t s (.timeout .ok) = some (s', []) ∧ t.Sent s' j ended ∧
      t.sendLeft s' < t.sendLeft s := by
  cases h with
  | data => cases hphase
  | wait round' =>
    obtain ⟨rfl, -, -⟩ := SendPhase.wait.inj hphase
    refine ⟨t.sender t.count (.wait (round' + 1) false false), ?_, .wait (round' + 1), ?_⟩
    · rw [sendFileStep_waiting, if_pos htime]
    · simp only [FileTransfer.sendLeft, FileTransfer.sender]
      omega

theorem writing_or_ended (h : t.Sent s j ended) : s.Writing ∨ ended = true := by
  cases h with
  | data => exact .inl (.inr rfl)
  | wait => exact .inr rfl

/-- The first packet of the stream is the next chunk, or END behind all of them. -/
theorem ahead_count_head {p : ℕ} {payload : List UInt8} {rest : List (List UInt8)}
    (h : t.Sent s j ended) (hp : p ≤ j) (hqueue : t.ahead t.count p j ended = payload :: rest) :
    (p < j ∧ payload = t.dataPacket p ∧ rest = t.ahead t.count (p + 1) j ended) ∨
      (ended = true ∧ payload = t.finalEnd ∧ rest = [] ∧ p = j) := by
  have hj := h.le
  rcases ahead_head hp hqueue with ⟨q, hq, -, hmin, -, hpayload, hrest⟩ |
    ⟨hended, hpayload, hrest, hlast⟩
  · obtain rfl : q = p := by omega
    exact .inl ⟨hq, hpayload, hrest⟩
  · exact .inr ⟨hended, hpayload, hrest, by omega⟩

/-- Where nothing is under way, the sender has still to write. -/
theorem writing_of_ahead_nil {p : ℕ} (h : t.Sent s j ended)
    (hqueue : t.ahead t.count p j ended = []) : s.Writing := by
  rcases writing_or_ended h with hwriting | rfl
  · exact hwriting
  · exact absurd hqueue (by simp [FileTransfer.ahead])

theorem step_receiving_data (hplain : ∀ c ∈ t.chunks, t.pieceOf c = c) {p : ℕ}
    (hp : p < t.count) :
    recvFilePacket t.channel ⟨true, true⟩ (t.receiver (t.chunks.take p) false) (t.dataPacket p) =
      (t.receiver (t.chunks.take (p + 1)) false, []) := by
  rw [recvFilePacket_expected _ _ _ hp (hplain _ (chunk_mem hp)), if_neg (by simp),
    if_neg (by simp)]

/-- END after all chunks. -/
theorem step_receiving_end (t : FileTransfer) :
    recvFilePacket t.channel ⟨true, true⟩ (t.receiver t.chunks false) t.finalEnd =
      (t.complete, [t.donePacket]) := by
  rw [recvFilePacket_end, if_neg (by simp), if_neg (by simp [FileTransfer.content]),
    finish_receiver]

theorem readLeft_receiver {pieces toRecv toSend : List (List UInt8)}
    (hpieces : pieces.length ≤ t.count) (b : Bool) :
    t.readLeft ⟨s, t.receiver pieces b, toRecv, toSend⟩ = t.count - pieces.length + 2 := by
  have hseq : (t.receiver pieces b).expectedSeq.toNat = pieces.length :=
    FileTransfer.toNat_ofNat_of_le_count hpieces
  simp only [FileTransfer.readLeft, FileTransfer.receiver_exit, FileTransfer.receiver_gotStart,
    if_true, hseq]

/-- The event keeps the transfer on its course, and brings it forward. -/
def FileTransfer.Advances (t : FileTransfer) (sys : FileSystem) (event : FileEvent) : Prop :=
  t.Course (sys.step inOrder t event) ∧ t.left (sys.step inOrder t event) < t.left sys

theorem advances_start (t : FileTransfer) {event : FileEvent}
    (hdue : t.Due ⟨t.sender 0 .start, recvFileStart, [], []⟩ event) :
    t.Advances ⟨t.sender 0 .start, recvFileStart, [], []⟩ event := by
  rw [FileTransfer.Advances]
  cases hdue with
  | write =>
    have hcount : t.chunks.length = t.count := rfl
    rw [step_write (by rw [sendFileStep_start, if_pos rfl])]
    refine ⟨?_, Nat.add_lt_add_right ?_ _⟩
    · simpa [FileTransfer.ahead] using
        FileTransfer.Course.unopened (t := t) (.data (Nat.zero_le _))
    · simp only [FileTransfer.sendLeft, FileTransfer.sender, List.drop_zero, hcount]
      omega
  | control hphase | round hphase => cases hphase
  | packet hrun hqueue => cases hqueue
  | idle hrun hrecv hsend hdone => exact absurd (.inl rfl) hdone

theorem advances_unopened (hs : t.Sent s j ended) {event : FileEvent}
    (hdue : t.Due ⟨s, recvFileStart, t.startPacket :: t.ahead t.count 0 j ended, []⟩ event) :
    t.Advances ⟨s, recvFileStart, t.startPacket :: t.ahead t.count 0 j ended, []⟩ event := by
  rw [FileTransfer.Advances]
  cases hdue with
  | write hwriting =>
    obtain ⟨s', written, j', ended', hnext, hs', -, hleft, hahead⟩ := sent_write hs hwriting
    rw [step_write hnext, List.cons_append, hahead 0 (Nat.zero_le _)]
    exact ⟨.unopened hs', Nat.add_lt_add_right hleft _⟩
  | control hphase hqueue => cases hqueue
  | round hphase hqueue htime =>
    obtain ⟨s', hnext, hs', hleft⟩ := sent_round hs hphase (htime.resolve_left (by simp))
    rw [step_round hnext, List.append_nil]
    exact ⟨.unopened hs', Nat.add_lt_add_right hleft _⟩
  | packet hrun hqueue =>
    obtain ⟨rfl, rfl⟩ := List.cons.inj hqueue
    rw [step_packet rfl (by rw [recvFilePacket_start, if_pos rfl])]
    refine ⟨.receiving (p := 0) hs (Nat.zero_le _), Nat.add_lt_add_left ?_ _⟩
    rw [readLeft_receiver (Nat.zero_le _)]
    exact Nat.lt_succ_self _
  | idle hrun hrecv => cases hrecv

/-- The packet that is read is the next chunk, or END when all chunks are there. -/
theorem advances_receiving (hplain : ∀ c ∈ t.chunks, t.pieceOf c = c) (hs : t.Sent s j ended)
    {p : ℕ} (hp : p ≤ j) {event : FileEvent}
    (hdue : t.Due ⟨s, t.receiver (t.chunks.take p) false, t.ahead t.count p j ended, []⟩ event) :
    t.Advances ⟨s, t.receiver (t.chunks.take p) false, t.ahead t.count p j ended, []⟩ event := by
  have hj := hs.le
  have htaken : ∀ q ≤ t.count, (t.chunks.take q).length = q := by
    intro q hq
    rw [List.length_take]
    exact min_eq_left hq
  rw [FileTransfer.Advances]
  cases hdue with
  | write hwriting =>
    obtain ⟨s', written, j', ended', hnext, hs', hj', hleft, hahead⟩ := sent_write hs hwriting
    rw [step_write hnext, hahead p hp]
    exact ⟨.receiving hs' (hp.trans hj'), Nat.add_lt_add_right hleft _⟩
  | control hphase hqueue => cases hqueue
  | round hphase hqueue htime =>
    have hcoming : ¬ t.ahead t.count p j ended = [] := by
      intro hnil
      rcases writing_of_ahead_nil hs hnil with h | h <;> cases hphase.symm.trans h
    obtain ⟨s', hnext, hs', hleft⟩ := sent_round hs hphase (htime.resolve_left hcoming)
    rw [step_round hnext, List.append_nil]
    exact ⟨.receiving hs' hp, Nat.add_lt_add_right hleft _⟩
  | packet hrun hqueue =>
    change t.ahead t.count p j ended = _ at hqueue
    rcases ahead_count_head hs hp hqueue with ⟨hlt, rfl, rfl⟩ | ⟨rfl, rfl, rfl, rfl⟩
    · have hnext := htaken (p + 1) (Nat.succ_le_of_lt (hlt.trans_le hj))
      have hnow := htaken p (hp.trans hj)
      rw [hqueue, step_packet rfl (step_receiving_data hplain (hlt.trans_le hj)), List.append_nil]
      refine ⟨.receiving hs hlt, Nat.add_lt_add_left ?_ _⟩
      rw [readLeft_receiver (by omega), readLeft_receiver (by omega), hnow, hnext]
      omega
    · cases hs with
      | wait round =>
        rw [hqueue, List.take_length, step_packet rfl (step_receiving_end t), List.nil_append]
        refine ⟨.complete round, Nat.add_lt_add_left ?_ _⟩
        rw [readLeft_receiver (le_refl _)]
        exact Nat.lt_of_lt_of_le (Nat.lt_succ_self 1) (Nat.le_add_left _ _)
  | idle hrun hrecv hsend hdone => exact absurd (writing_of_ahead_nil hs hrecv) hdone

theorem advances_complete (t : FileTransfer) (round : ℕ) {event : FileEvent}
    (hdue : t.Due ⟨t.sender t.count (.wait round false false), t.complete, [], [t.donePacket]⟩
      event) :
    t.Advances ⟨t.sender t.count (.wait round false false), t.complete, [], [t.donePacket]⟩
      event := by
  rw [FileTransfer.Advances]
  cases hdue with
  | write hwriting => rcases hwriting with h | h <;> cases h
  | control hphase hqueue =>
    obtain ⟨rfl, rfl⟩ := List.cons.inj hqueue
    rw [step_control (sendFileStep_done t round false false .ok)]
    exact ⟨.told round, Nat.lt_succ_self _⟩
  | round hphase hqueue => cases hqueue
  | packet hrun hqueue => cases hqueue
  | idle hrun => cases hrun

theorem advances_told (t : FileTransfer) (round : ℕ) {event : FileEvent}
    (hdue : t.Due ⟨t.sender t.count (.wait round true false), t.complete, [], []⟩ event) :
    t.Advances ⟨t.sender t.count (.wait round true false), t.complete, [], []⟩ event := by
  rw [FileTransfer.Advances]
  cases hdue with
  | write hwriting => rcases hwriting with h | h <;> cases h
  | control hphase hqueue => cases hqueue
  | round =>
    rw [step_round (sendFileStep_told t round false .ok)]
    exact ⟨.returned, Nat.add_lt_add_right (Nat.succ_pos _) _⟩
  | packet hrun hqueue => cases hqueue
  | idle hrun => cases hrun

/-- Nothing is due any more when both have returned. -/
theorem not_due_of_returned {rc rc' : BcStatus} (hsender : sys.sender.phase = .returned rc)
    (hreceiver : sys.receiver.exit = some rc') (event : FileEvent) : ¬ t.Due sys event := by
  intro hdue
  cases hdue with
  | write hwriting => rcases hwriting with h | h <;> cases hsender.symm.trans h
  | control hphase | round hphase => cases hsender.symm.trans hphase
  | packet hrun | idle hrun => cases hreceiver.symm.trans hrun

/-- What can happen keeps the transfer on its course, and brings it forward. -/
theorem FileTransfer.Course.advances (hplain : ∀ c ∈ t.chunks, t.pieceOf c = c)
    (h : t.Course sys) {event : FileEvent} (hdue : t.Due sys event) : t.Advances sys event := by
  cases h with
  | start => exact advances_start t hdue
  | unopened hs => exact advances_unopened hs hdue
  | receiving hs hp => exact advances_receiving hplain hs hp hdue
  | complete round => exact advances_complete t round hdue
  | told round => exact advances_told t round hdue
  | returned => exact absurd hdue (not_due_of_returned rfl rfl event)

/-- A transfer that has come to its end is complete. -/
theorem FileTransfer.Course.transferred (h : t.Course sys) (hend : ∀ event, ¬ t.Due sys event) :
    t.Transferred sys := by
  cases h with
  | start => exact absurd (.write (.inl rfl)) (hend _)
  | unopened => exact absurd (.packet rfl rfl) (hend _)
  | @receiving s p j ended hs hp =>
    cases hqueue : t.ahead t.count p j ended with
    | nil => exact absurd (.write (writing_of_ahead_nil hs hqueue)) (hend _)
    | cons payload rest => exact absurd (.packet rfl hqueue) (hend _)
  | complete round => exact absurd (.control rfl rfl) (hend _)
  | told round => exact absurd (.round rfl rfl (.inl rfl)) (hend _)
  | returned => exact ⟨rfl, rfl, rfl⟩

end Course

section Cut

open Runs (Leads)

variable {t : FileTransfer} {j : ℕ}

theorem pieceOf_eq_iff (t : FileTransfer) (c : List UInt8) :
    t.pieceOf c = c ↔ (4 < c.length → c.take 4 ≠ idBytes t.transferId) := by
  rw [FileTransfer.pieceOf]
  by_cases hcut : 4 < c.length ∧ c.take 4 = idBytes t.transferId
  · rw [if_pos hcut]
    constructor
    · intro h
      have hlen := congrArg List.length h
      rw [List.length_drop] at hlen
      exact absurd hlen (by omega)
    · intro h
      exact absurd hcut.2 (h hcut.1)
  · rw [if_neg hcut]
    exact ⟨fun _ hlong hid => hcut ⟨hlong, hid⟩, fun _ => rfl⟩

/-- What the receiver makes of the first chunks. -/
def FileTransfer.pieces (t : FileTransfer) (j : ℕ) : List (List UInt8) :=
  (t.chunks.take j).map t.pieceOf

theorem pieces_length (hj : j ≤ t.count) : (t.pieces j).length = j := by
  rw [FileTransfer.pieces, List.length_map, List.length_take]
  exact min_eq_left hj

theorem pieces_succ (hj : j < t.count) :
    t.pieces (j + 1) = t.pieces j ++ [t.pieceOf (t.chunks.getD j [])] := by
  rw [FileTransfer.pieces, List.take_add_one, chunks_getD hj, List.map_append]
  rfl

theorem kept_pieces (t : FileTransfer) (chunks : List (List UInt8)) :
    Kept chunks (chunks.map t.pieceOf) := by
  induction chunks with
  | nil => exact .nil []
  | cons c cs ih => exact .cons (piece_pieceOf t c) ih

/-- A transfer with a piece cut off does not have the announced size. -/
theorem pieces_size_ne (hcut : ¬ ∀ c ∈ t.chunks, t.pieceOf c = c) :
    UInt32.ofNat (t.pieces t.count).flatten.length ≠ .ofNat t.content.length := by
  have hpieces : t.pieces t.count = t.chunks.map t.pieceOf := by
    rw [FileTransfer.pieces, List.take_length]
  have hkept := kept_pieces t t.chunks
  intro hsize
  rw [hpieces, received_eq_size_iff hkept] at hsize
  have hall := hkept.eq_of_flatten_length t.chunk_ne hsize
  rw [← List.map_id t.chunks, List.map_map] at hall
  exact hcut (List.map_inj_left.mp hall)

/-- The next chunk is sent and received. -/
theorem leads_data (hj : j < t.count) :
    Leads (FileSystem.step inOrder t) t.Due
      ⟨t.sender j .data, t.receiver (t.pieces j) false, [], []⟩
      ⟨t.sender (j + 1) .data, t.receiver (t.pieces (j + 1)) false, [], []⟩ := by
  have hlen := pieces_length hj.le
  have hread : recvFilePacket t.channel ⟨true, true⟩ (t.receiver (t.pieces j) false)
      (fileDataPacket (.ofNat j) (t.chunks.getD j [])) =
        (t.receiver (t.pieces (j + 1)) false, []) := by
    rw [recvFilePacket_data t _ _ hj (by omega) (t.chunk_ne _ (chunk_mem hj)), hlen,
      if_neg (lt_irrefl j), if_neg (lt_irrefl j), accept_receiver, if_neg (by simp),
      if_neg (by simp), ← pieces_succ hj]
  have hwrite : sendFileStep t (t.sender j .data) (.write .ok) =
      some (t.sender (j + 1) .data, [fileDataPacket (.ofNat j) (t.chunks.getD j [])]) := by
    rw [sendFileStep_data (chunks_getD hj), if_pos rfl]
  exact (Leads.single (.write (.inr rfl)) (step_write hwrite)).trans
    (.single (.packet rfl rfl) (step_packet rfl hread))

/-- All chunks are sent and received. -/
theorem leads_all (hj : j ≤ t.count) :
    Leads (FileSystem.step inOrder t) t.Due t.system
      ⟨t.sender j .data, t.receiver (t.pieces j) false, [], []⟩ := by
  induction j with
  | zero =>
    have hwrite : sendFileStep t (t.sender 0 .start) (.write .ok) =
        some (t.sender 0 .data, [t.startPacket]) := by
      rw [sendFileStep_start, if_pos rfl]
    have hread : recvFilePacket t.channel ⟨true, true⟩ recvFileStart t.startPacket =
        (t.receiver [] false, []) := by
      rw [recvFilePacket_start, if_pos rfl]
    exact (Leads.single (.write (.inl rfl)) (step_write hwrite)).trans
      (.single (.packet rfl rfl) (step_packet rfl hread))
  | succ j ih => exact (ih (Nat.le_of_succ_le hj)).trans (leads_data hj)

/-- The sender waits for all its rounds, and gives up. -/
theorem leads_timeout (t : FileTransfer) (r : FileRecv) (round : ℕ) :
    Leads (FileSystem.step inOrder t) t.Due
      ⟨t.sender t.count (.wait round false false), r, [], []⟩
      ⟨t.sender t.count (.returned .timeout), r, [], []⟩ := by
  induction hleft : endWaitRounds t - round generalizing round with
  | zero =>
    refine .single (.round rfl rfl (.inl rfl)) (step_round ?_)
    rw [sendFileStep_waiting, if_neg (by omega)]
  | succ left ih =>
    by_cases hround : round + 1 < endWaitRounds t
    · refine Leads.trans (.single (.round rfl rfl (.inl rfl)) (step_round ?_))
        (ih (round + 1) (by omega))
      rw [sendFileStep_waiting, if_pos hround]
    · refine .single (.round rfl rfl (.inl rfl)) (step_round ?_)
      rw [sendFileStep_waiting, if_neg hround]

/-- A transfer with a piece cut off can come to its end without success. -/
theorem exists_failed (hcut : ¬ ∀ c ∈ t.chunks, t.pieceOf c = c) :
    ∃ sys, Leads (FileSystem.step inOrder t) t.Due t.system sys ∧
      (∀ event, ¬ t.Due sys event) ∧ sys.receiver.exit = some .io ∧ sys.receiver.file = none ∧
      sys.sender.phase = .returned .timeout := by
  have hlen := pieces_length (le_refl t.count)
  have hwrite : sendFileStep t (t.sender t.count .data) (.write .ok) =
      some (t.sender t.count (.wait 0 false false), [t.finalEnd]) := by
    rw [sendFileStep_end, if_pos rfl]
  have hread : recvFilePacket t.channel ⟨true, true⟩ (t.receiver (t.pieces t.count) false)
      t.finalEnd = (t.receiver (t.pieces t.count) true, [t.nackPacket t.count]) := by
    rw [recvFilePacket_end, if_neg (by simp), if_pos (pieces_size_ne hcut), hlen]
  have hidle : recvFileTimeout (t.receiver (t.pieces t.count) true) =
      ((t.receiver (t.pieces t.count) true).fail, [t.nackPacket t.count]) := by
    rw [recvFileTimeout, FileTransfer.receiver_gotStart, if_neg (by simp), nack_receiver, hlen]
  have hnotWriting : ¬ (t.sender t.count (.wait 0 false false)).Writing := by
    rintro (h | h) <;> cases h
  have hsent := (leads_all (le_refl t.count)).trans
    (.single (.write (.inr rfl)) (step_write hwrite))
  have hasked := (hsent.trans (.single (.packet rfl rfl) (step_packet rfl hread))).trans
    (.single (.control rfl rfl) (step_control (sendFileStep_nack_beyond t 0 false false .ok)))
  have hgone := (hasked.trans (.single (.idle rfl rfl rfl hnotWriting) (step_idle rfl)))
  rw [hidle] at hgone
  have hignored := hgone.trans
    (.single (.control rfl rfl) (step_control (sendFileStep_nack_beyond t 0 false false .ok)))
  exact ⟨_, hignored.trans (leads_timeout t _ 0), not_due_of_returned rfl rfl, rfl, rfl, rfl⟩

end Cut

/-- Every transfer without losses comes to its end with the file of the sender at the
receiver and success on both sides, exactly where no chunk goes on behind a transfer id
at its front. -/
theorem lossless_transfer_iff (t : FileTransfer) :
    (∀ events, Runs.Meets (FileSystem.step inOrder t) t.Due t.system events →
      events.length ≤ 2 * t.count + 6 + endWaitRounds t ∧
        ((∀ event, ¬ t.Due (Runs.run (FileSystem.step inOrder t) t.system events) event) →
          t.Transferred (Runs.run (FileSystem.step inOrder t) t.system events))) ↔
      ∀ c ∈ t.chunks, 4 < c.length → c.take 4 ≠ idBytes t.transferId := by
  constructor
  · intro h
    by_contra hid
    have hcut : ¬ ∀ c ∈ t.chunks, t.pieceOf c = c := by
      simpa only [pieceOf_eq_iff] using hid
    obtain ⟨_, ⟨events, hmeets, rfl⟩, hend, hfailed, -, -⟩ := exists_failed hcut
    have hok := ((h events hmeets).2 hend).receiver
    rw [hfailed] at hok
    cases hok
  · intro hid events hmeets
    have hplain : ∀ c ∈ t.chunks, t.pieceOf c = c := fun c hc =>
      (pieceOf_eq_iff t c).mpr (hid c hc)
    obtain ⟨hcourse, hlength⟩ := Runs.length_le_of_meets (FileSystem.step inOrder t)
      (I := t.Course) (n := t.left) (fun _ _ h hdue => h.advances hplain hdue) (s := t.system)
      .start hmeets
    have hleft : t.left t.system = 2 * t.count + 6 + endWaitRounds t := by
      change t.count + 3 + endWaitRounds t + (t.count + 3) = _
      omega
    exact ⟨by omega, hcourse.transferred⟩

/-- A file of five bytes that begins with the transfer id. -/
def idFile : FileTransfer :=
  { oneByteFile with
    chunks := [idBytes oneByteFile.transferId ++ [1]]
    chunk_ne := by decide
    chunk_le := by decide
    size_lt := by decide }

/-- The receiver lacks the four bytes, and both parties give up. -/
theorem id_in_front_fails :
    ∃ events, Runs.Meets (FileSystem.step inOrder idFile) idFile.Due idFile.system events ∧
      (∀ event, ¬ idFile.Due (Runs.run (FileSystem.step inOrder idFile) idFile.system events)
        event) ∧
      ¬ idFile.Transferred (Runs.run (FileSystem.step inOrder idFile) idFile.system events) ∧
      (Runs.run (FileSystem.step inOrder idFile) idFile.system events).receiver.exit = some .io ∧
      (Runs.run (FileSystem.step inOrder idFile) idFile.system events).receiver.file = none ∧
      (Runs.run (FileSystem.step inOrder idFile) idFile.system events).sender.phase =
        .returned .timeout := by
  have hcut : ¬ ∀ c ∈ idFile.chunks, idFile.pieceOf c = c := by decide
  obtain ⟨_, ⟨events, hmeets, rfl⟩, hend, hexit, hfile, hphase⟩ := exists_failed hcut
  refine ⟨events, hmeets, hend, fun h => ?_, hexit, hfile, hphase⟩
  rw [h.receiver] at hexit
  cases hexit

end BoardComm
