import BoardComm.FileAgreement

/-!
# Recovery of a file transfer from the loss of one chunk

Over two queues, when exactly the first transmission of one DATA packet is lost.
The receiver asks for a missing chunk only where a later chunk or the first END
arrives; when the chunk that it asked for is there, nothing makes it ask for the
ones it threw away in the meantime.
-/
namespace BoardComm

/-- Packets arrive once and in order, but for the first transmission of chunk `k`. -/
def oneLoss (k : ℕ) : FileNetwork where
  take queue payload := if queue.head? = some payload then some queue.tail else none
  lost s := decide (s.phase = .data ∧ s.seq.toNat = k)

/-- Nobody has anything left to read: the sender waits for DONE, the receiver for
a chunk. -/
structure FileTransfer.Stuck (t : FileTransfer) (sys : FileSystem) : Prop where
  toRecv : sys.toRecv = []
  toSend : sys.toSend = []
  sender : ∃ round resentAny, sys.sender.phase = .wait round false resentAny
  receiver : sys.receiver.exit = none
  started : sys.receiver.gotStart = true
  missing : sys.receiver.expectedSeq.toNat < t.count

/-- No chunk looks as if it began with the transfer id. -/
def FileTransfer.NoIdInFront (t : FileTransfer) : Prop :=
  ∀ c ∈ t.chunks, c.take 4 ≠ idBytes t.transferId

section Queues

/-- What is read from a queue is its first packet. -/
theorem read_oneLoss {k : ℕ} {queue left : List (List UInt8)} {payload : Option (List UInt8)}
    (h : (oneLoss k).read queue payload = some left) :
    queue = payload.toList ++ left := by
  cases payload with
  | none => exact Option.some.inj h
  | some p =>
    simp only [FileNetwork.read, oneLoss] at h
    split at h
    · next hhead =>
      obtain ⟨rest, rfl⟩ := List.head?_eq_some_iff.mp hhead
      obtain rfl := Option.some.inj h
      rfl
    · simp at h

/-- Only the first transmission of chunk `k` is lost. -/
theorem lost_data {t : FileTransfer} {j : ℕ} (k : ℕ) (hj : j ≤ t.count) :
    (oneLoss k).lost (t.sender j .data) = decide (j = k) := by
  simp [oneLoss, FileTransfer.sender, FileTransfer.toNat_ofNat_of_le_count hj]

@[simp] theorem read_oneLoss_cons (k : ℕ) (p : List UInt8) (rest : List (List UInt8)) :
    (oneLoss k).read (p :: rest) (some p) = some rest := by
  simp [FileNetwork.read, oneLoss]

end Queues

namespace FileTransfer

variable {t : FileTransfer} {k p j : ℕ}

/-- The DATA packet of chunk `i`. -/
def dataPacket (t : FileTransfer) (i : ℕ) : List UInt8 :=
  fileDataPacket (.ofNat i) (t.chunks.getD i [])

/-- The packets of the chunks from `p` on, below `j` and without the lost one. -/
def dataPackets (t : FileTransfer) (k p j : ℕ) : List (List UInt8) :=
  ((List.range' p (j - p)).filter (· ≠ k)).map t.dataPacket

@[simp] theorem dataPackets_self (t : FileTransfer) (k j : ℕ) : t.dataPackets k j j = [] := by
  simp [dataPackets]

theorem dataPackets_succ (t : FileTransfer) (k : ℕ) (h : p ≤ j) :
    t.dataPackets k p (j + 1) = t.dataPackets k p j ++ if j = k then [] else [t.dataPacket j] := by
  have hlast : List.range' p (j + 1 - p) = List.range' p (j - p) ++ [j] := by
    rw [show j + 1 - p = (j - p) + 1 by omega, List.range'_1_concat]
    simp only [List.append_cancel_left_eq, List.cons.injEq, and_true]
    omega
  rw [dataPackets, hlast, List.filter_append, List.map_append, dataPackets]
  by_cases hj : j = k <;> simp [hj]

theorem dataPackets_cons (t : FileTransfer) (h : p < j) (hp : p ≠ k) :
    t.dataPackets k p j = t.dataPacket p :: t.dataPackets k (p + 1) j := by
  rw [dataPackets, show j - p = (j - (p + 1)) + 1 by omega, List.range'_succ,
    List.filter_cons_of_pos (by simpa using hp)]
  rfl

theorem dataPackets_lost (t : FileTransfer) (h : k < j) :
    t.dataPackets k k j = t.dataPackets k (k + 1) j := by
  rw [dataPackets, show j - k = (j - (k + 1)) + 1 by omega, List.range'_succ,
    List.filter_cons_of_neg (by simp)]
  rfl

theorem take_flatten_length_ne (t : FileTransfer) (h : k < t.count) :
    UInt32.ofNat (t.chunks.take k).flatten.length ≠ .ofNat t.content.length := by
  intro heq
  have hkept := Kept.take t.chunks k
  have hall := hkept.eq_of_flatten_length t.chunk_ne ((received_eq_size_iff hkept).mp heq)
  have hlen := congrArg List.length hall
  rw [List.length_take] at hlen
  exact absurd hlen (by simp only [count] at h; omega)

end FileTransfer

section Steps

variable {t : FileTransfer} {k i : ℕ}

theorem chunks_getD (h : i < t.count) : t.chunks[i]? = some (t.chunks.getD i []) := by
  rw [List.getD_eq_getElem?_getD, List.getElem?_eq_getElem h]
  rfl

theorem chunk_mem (h : i < t.count) : t.chunks.getD i [] ∈ t.chunks :=
  List.mem_of_getElem? (chunks_getD h)

/-- A DATA packet, for a receiver that has the first `k` chunks. -/
theorem recvFilePacket_chunk (channel : List UInt8) (io : RecvIo) (ended : Bool)
    (hk : k ≤ t.count) (hi : i < t.count) :
    recvFilePacket channel io (t.receiver (t.chunks.take k) ended) (t.dataPacket i) =
      if i < k then (t.receiver (t.chunks.take k) ended, [])
      else if k < i then (t.receiver (t.chunks.take k) ended, [t.nackPacket k])
      else (t.receiver (t.chunks.take k) ended).accept io (t.pieceOf (t.chunks.getD i [])) := by
  have hlen : (t.chunks.take k).length = k := by
    rw [List.length_take]
    exact min_eq_left hk
  rw [FileTransfer.dataPacket, recvFilePacket_data t channel io hi (by rw [hlen]; exact hk)
    (t.chunk_ne _ (chunk_mem hi)), hlen]

theorem FileTransfer.NoIdInFront.whole (hid : t.NoIdInFront) (h : i < t.count) :
    t.pieceOf (t.chunks.getD i []) = t.chunks.getD i [] :=
  if_neg fun hcut => hid _ (chunk_mem h) hcut.2

/-- The chunk that the receiver waits for. -/
theorem recvFilePacket_expected (channel : List UInt8) (io : RecvIo) (ended : Bool)
    (h : i < t.count) (hwhole : t.pieceOf (t.chunks.getD i []) = t.chunks.getD i []) :
    recvFilePacket channel io (t.receiver (t.chunks.take i) ended) (t.dataPacket i) =
      if io.fwrite = false then ((t.receiver (t.chunks.take i) ended).fail, [])
      else if ended = true ∧ i + 1 = t.count then (t.complete, [t.donePacket])
      else (t.receiver (t.chunks.take (i + 1)) ended, []) := by
  have htake : t.chunks.take i ++ [t.chunks.getD i []] = t.chunks.take (i + 1) := by
    rw [List.take_add_one, chunks_getD h]
    rfl
  rw [recvFilePacket_chunk channel io ended h.le h, if_neg (lt_irrefl i), if_neg (lt_irrefl i),
    hwhole, accept_receiver, htake]
  by_cases hlast : i + 1 = t.count
  · rw [hlast, List.take_length]
    cases ended <;> simp [FileTransfer.content, finish_receiver]
  · have hne := t.take_flatten_length_ne (k := i + 1) (by omega)
    simp only [hne, hlast, and_false, if_false]

/-- A chunk that the receiver has. -/
theorem recvFilePacket_known (channel : List UInt8) (io : RecvIo) (ended : Bool) (h : i < k)
    (hk : k ≤ t.count) :
    recvFilePacket channel io (t.receiver (t.chunks.take k) ended) (t.dataPacket i) =
      (t.receiver (t.chunks.take k) ended, []) := by
  rw [recvFilePacket_chunk channel io ended hk (by omega), if_pos h]

/-- A chunk that comes too early is thrown away, with a request for the missing one. -/
theorem recvFilePacket_ahead (channel : List UInt8) (io : RecvIo) (ended : Bool) (h : k < i)
    (hi : i < t.count) :
    recvFilePacket channel io (t.receiver (t.chunks.take k) ended) (t.dataPacket i) =
      (t.receiver (t.chunks.take k) ended, [t.nackPacket k]) := by
  rw [recvFilePacket_chunk channel io ended (by omega) hi, if_neg (by omega), if_pos h]

/-- The first END, while chunk `k` is missing. -/
theorem recvFilePacket_end_early (channel : List UInt8) (io : RecvIo) (hk : k < t.count) :
    recvFilePacket channel io (t.receiver (t.chunks.take k) false) t.finalEnd =
      (t.receiver (t.chunks.take k) true, [t.nackPacket k]) := by
  rw [recvFilePacket_end, if_neg (by simp), if_pos (t.take_flatten_length_ne hk), List.length_take,
    min_eq_left hk.le]

end Steps

section Recovered

variable {t : FileTransfer} {k : ℕ} {sys : FileSystem}

/-- The sender that has sent `j` chunks and, where `ended`, END. -/
inductive FileTransfer.Sent (t : FileTransfer) : FileSend → ℕ → Bool → Prop
  | data {j : ℕ} (h : j ≤ t.count) : t.Sent (t.sender j .data) j false
  | wait (round : ℕ) : t.Sent (t.sender t.count (.wait round false false)) t.count true

/-- What is under way to a receiver that has read up to chunk `p`. -/
def FileTransfer.ahead (t : FileTransfer) (k p j : ℕ) (ended : Bool) : List (List UInt8) :=
  t.dataPackets k p j ++ if ended = true then [t.finalEnd] else []

/-- The states of a transfer that loses chunk `k` and cannot get stuck. -/
inductive FileTransfer.Flow (t : FileTransfer) (k : ℕ) : FileSystem → Prop
  | start : t.Flow k ⟨t.sender 0 .start, recvFileStart, [], []⟩
  | unopened {s : FileSend} {j : ℕ} {ended : Bool} (h : t.Sent s j ended) :
      t.Flow k ⟨s, recvFileStart, t.startPacket :: t.ahead k 0 j ended, []⟩
  | receiving {s : FileSend} {p j : ℕ} {ended : Bool} (h : t.Sent s j ended) (hp : p ≤ j) :
      t.Flow k ⟨s, t.receiver (t.chunks.take (min p k)) false, t.ahead k p j ended,
        List.replicate (p - (k + 1)) (t.nackPacket k)⟩
  | asked (round m : ℕ) (h : k + 1 = t.count → m = 0) :
      t.Flow k ⟨t.sender t.count (.wait round false false), t.receiver (t.chunks.take k) true, [],
        t.nackPacket k :: List.replicate m (t.nackPacket k)⟩
  | resent (round : ℕ) (resentAny : Bool) (rest : List (List UInt8)) (h : k + 1 = t.count) :
      t.Flow k ⟨t.sender t.count (.wait round false resentAny), t.receiver (t.chunks.take k) true,
        t.dataPacket k :: rest, []⟩
  | returned {sys : FileSystem} (rc : BcStatus) (h : sys.sender.phase = .returned rc) : t.Flow k sys
  | stopped {sys : FileSystem} (rc : BcStatus) (h : sys.receiver.exit = some rc) : t.Flow k sys

theorem FileTransfer.Flow.not_stuck (h : t.Flow k sys) : ¬ t.Stuck sys := by
  intro hstuck
  cases h with
  | start => exact absurd hstuck.started (by simp [recvFileStart])
  | unopened => exact List.cons_ne_nil _ _ hstuck.toRecv
  | receiving h hp =>
    obtain ⟨round, resentAny, hphase⟩ := hstuck.sender
    cases h with
    | data => cases hphase
    | wait => simpa [FileTransfer.ahead] using hstuck.toRecv
  | asked => exact List.cons_ne_nil _ _ hstuck.toSend
  | resent => exact List.cons_ne_nil _ _ hstuck.toRecv
  | returned rc h =>
    obtain ⟨round, resentAny, hphase⟩ := hstuck.sender
    rw [h] at hphase
    cases hphase
  | stopped rc h =>
    rw [hstuck.receiver] at h
    cases h

/-- The sender writes: the chunk that is lost leaves no packet. -/
theorem ahead_succ (t : FileTransfer) {p j : ℕ} (hp : p ≤ j) :
    t.ahead k p j false ++ (if j = k then [] else [t.dataPacket j]) = t.ahead k p (j + 1) false := by
  simp [FileTransfer.ahead, t.dataPackets_succ k hp]

theorem ahead_end (t : FileTransfer) (p j : ℕ) :
    t.ahead k p j false ++ [t.finalEnd] = t.ahead k p j true := by
  simp [FileTransfer.ahead]

/-- The end of a round without DONE. -/
theorem senderEndRound_waiting (t : FileTransfer) (j round : ℕ) (resentAny : Bool) (rc : BcStatus)
    {next : FileSend × List (List UInt8)}
    (h : senderEndRound t (t.sender j (.wait round false resentAny)) round false resentAny rc = next) :
    (∃ rc, next.1.phase = .returned rc) ∨
    next.1 = t.sender j (.wait (round + 1) false false) ∧ (resentAny = false → next.2 = []) := by
  subst h
  unfold senderEndRound
  rw [if_neg (by simp)]
  split
  · exact .inl ⟨rc, rfl⟩
  · by_cases hround : round + 1 < endWaitRounds t
    · simp only [if_pos hround]
      exact .inr ⟨rfl, fun h => by simp [h]⟩
    · simp only [if_neg hround]
      exact .inl ⟨.timeout, rfl⟩

/-- What a step of a sender that has not been told anything does: it returns, or
it goes on and its packets are the next ones of the stream. -/
theorem sent_step {s : FileSend} {j : ℕ} {ended : Bool} (h : t.Sent s j ended) (hk : k < t.count)
    {answer : SendAnswer} (hread : answer.payload = none) {next : FileSend × List (List UInt8)}
    (hnext : sendFileStep t s answer = some next) :
    (∃ rc, next.1.phase = .returned rc) ∨
    ∃ j' ended', t.Sent next.1 j' ended' ∧ j ≤ j' ∧
      ∀ p ≤ j, t.ahead k p j ended ++ (if (oneLoss k).lost s = true then [] else next.2) =
        t.ahead k p j' ended' := by
  cases h with
  | @data j hj =>
    cases answer with
    | write rc =>
      by_cases hrc : rc = .ok
      · right
        rcases hj.lt_or_eq with hlt | rfl
        · rw [sendFileStep_data (chunks_getD hlt), if_pos hrc] at hnext
          obtain rfl := Option.some.inj hnext
          refine ⟨j + 1, false, .data hlt, by omega, fun p hp => ?_⟩
          rw [lost_data k hj, ← ahead_succ t hp]
          simp [FileTransfer.dataPacket]
        · rw [sendFileStep_end, if_pos hrc] at hnext
          obtain rfl := Option.some.inj hnext
          refine ⟨t.count, true, .wait 0, le_refl _, fun p _ => ?_⟩
          rw [lost_data k hj, if_neg (by simpa using hk.ne'), ahead_end]
      · left
        rcases hj.lt_or_eq with hlt | rfl
        · rw [sendFileStep_data (chunks_getD hlt), if_neg hrc] at hnext
          obtain rfl := Option.some.inj hnext
          exact ⟨rc, rfl⟩
        · rw [sendFileStep_end, if_neg hrc] at hnext
          obtain rfl := Option.some.inj hnext
          exact ⟨rc, rfl⟩
    | fileError =>
      obtain rfl := Option.some.inj hnext
      exact .inl ⟨.io, rfl⟩
    | read | timeout | readError => cases hnext
  | wait round =>
    cases answer with
    | write | fileError => cases hnext
    | read => cases hread
    | timeout rc =>
      rcases senderEndRound_waiting t _ round false rc (Option.some.inj hnext) with
        hreturned | ⟨hwait, hsilent⟩
      · exact .inl hreturned
      · right
        rw [hwait, hsilent rfl]
        refine ⟨t.count, true, .wait (round + 1), le_refl _, fun p _ => ?_⟩
        simp
    | readError rc =>
      obtain rfl := Option.some.inj hnext
      exact .inl ⟨rc, rfl⟩

/-- A request that reaches the waiting sender. -/
theorem sendFileStep_nack (hk : k < t.count) (round : ℕ) (doneSeen resentAny : Bool)
    (rc : BcStatus) :
    sendFileStep t (t.sender t.count (.wait round doneSeen resentAny))
        (.read (t.nackPacket k) rc) =
      some (if t.count ≤ k + bcFileRetxWindow then
        if rc = .ok then
          (t.sender t.count (.wait round doneSeen true), [t.dataPacket k])
        else (t.sender t.count (.returned rc), [])
      else (t.sender t.count (.returned .io), [])) :=
  congrArg some
    (senderHandlePacket_nack (le_refl _) hk (chunks_getD hk) round doneSeen resentAny rc)

theorem FileTransfer.Sent.le {s : FileSend} {j : ℕ} {ended : Bool} (h : t.Sent s j ended) :
    j ≤ t.count := by
  cases h with
  | data h => exact h
  | wait => exact le_refl _

/-- A receiver that reads no packet stops. -/
theorem recvFileStep_silent {r : FileRecv} {answer : RecvFileAnswer}
    {next : FileRecv × List (List UInt8)} (hread : answer.payload = none)
    (hnext : recvFileStep t.channel r answer = some next) : ∃ rc, next.1.exit = some rc := by
  cases hexit : r.exit with
  | some rc => simp [recvFileStep, hexit] at hnext
  | none =>
    cases answer with
    | read => cases hread
    | timeout =>
      simp only [recvFileStep, hexit] at hnext
      obtain rfl := Option.some.inj hnext
      unfold recvFileTimeout
      split
      · exact ⟨.timeout, rfl⟩
      · exact ⟨.io, rfl⟩
    | readError rc =>
      simp only [recvFileStep, hexit] at hnext
      obtain rfl := Option.some.inj hnext
      exact ⟨rc, rfl⟩

/-- The first packet under way to the receiver: the next chunk but for the lost
one, or END behind all of them. -/
theorem ahead_head {p j : ℕ} {ended : Bool} {pkt : List UInt8} {left : List (List UInt8)}
    (hp : p ≤ j) (h : t.ahead k p j ended = pkt :: left) :
    (∃ q, q < j ∧ q ≠ k ∧ min q k = min p k ∧ q - (k + 1) = p - (k + 1) ∧
      pkt = t.dataPacket q ∧ left = t.ahead k (q + 1) j ended) ∨
    (ended = true ∧ pkt = t.finalEnd ∧ left = [] ∧ (p = j ∨ p = k ∧ j = k + 1)) := by
  have hnext : ∀ q, q < j → q ≠ k →
      t.ahead k q j ended = t.dataPacket q :: t.ahead k (q + 1) j ended := by
    intro q hq hqk
    rw [FileTransfer.ahead, t.dataPackets_cons hq hqk, List.cons_append]
    rfl
  have hlast : ∀ q, t.dataPackets k q j = [] → t.ahead k q j ended = pkt :: left →
      ended = true ∧ pkt = t.finalEnd ∧ left = [] := by
    intro q hq hpkt
    rw [FileTransfer.ahead, hq, List.nil_append] at hpkt
    split at hpkt
    · next hended =>
      obtain ⟨h₁, h₂⟩ := List.cons.inj hpkt
      exact ⟨hended, h₁.symm, h₂.symm⟩
    · cases hpkt
  rcases hp.eq_or_lt with rfl | hlt
  · obtain ⟨h₁, h₂, h₃⟩ := hlast p (t.dataPackets_self k p) h
    exact .inr ⟨h₁, h₂, h₃, .inl rfl⟩
  · by_cases hpk : p = k
    · -- the lost chunk is passed over
      subst hpk
      have hskip : t.ahead p p j ended = t.ahead p (p + 1) j ended := by
        rw [FileTransfer.ahead, t.dataPackets_lost hlt, FileTransfer.ahead]
      rw [hskip] at h
      rcases Nat.lt_or_ge (p + 1) j with hmore | hend
      · rw [hnext (p + 1) hmore (by omega)] at h
        obtain ⟨h₁, h₂⟩ := List.cons.inj h
        exact .inl ⟨p + 1, hmore, by omega, by omega, by omega, h₁.symm, h₂.symm⟩
      · obtain rfl : j = p + 1 := by omega
        obtain ⟨h₁, h₂, h₃⟩ := hlast (p + 1) (t.dataPackets_self p (p + 1)) h
        exact .inr ⟨h₁, h₂, h₃, .inr ⟨rfl, rfl⟩⟩
    · rw [hnext p hlt hpk] at h
      obtain ⟨h₁, h₂⟩ := List.cons.inj h
      exact .inl ⟨p, hlt, hpk, rfl, rfl, h₁.symm, h₂.symm⟩

/-- A step of the sender, where the lost chunk is the last one or out of the
retransmission window. -/
theorem FileTransfer.Flow.step_sender (hk : k < t.count)
    (hcond : k + 1 = t.count ∨ k + bcFileRetxWindow < t.count) (h : t.Flow k sys)
    (answer : SendAnswer) : t.Flow k (sys.step (oneLoss k) t (.sender answer)) := by
  simp only [FileSystem.step]
  split
  swap
  · exact h
  next left next written hread hnext =>
  have hqueue := read_oneLoss hread
  cases h with
  | start =>
    obtain ⟨hpayload, rfl⟩ := List.append_eq_nil_iff.mp hqueue.symm
    cases answer with
    | write rc =>
      rw [sendFileStep_start] at hnext
      by_cases hrc : rc = .ok
      · rw [if_pos hrc] at hnext
        obtain ⟨rfl, rfl⟩ := Prod.mk.inj (Option.some.inj hnext)
        simpa [oneLoss, FileTransfer.sender, FileTransfer.ahead] using
          FileTransfer.Flow.unopened (t := t) (k := k) (.data (Nat.zero_le _))
      · rw [if_neg hrc] at hnext
        obtain ⟨rfl, rfl⟩ := Prod.mk.inj (Option.some.inj hnext)
        exact .returned rc rfl
    | fileError | read | timeout | readError => cases hnext
  | unopened hs =>
    obtain ⟨hpayload, rfl⟩ := List.append_eq_nil_iff.mp hqueue.symm
    rcases sent_step hs hk (Option.toList_eq_nil_iff.mp hpayload) hnext with
      ⟨rc, hrc⟩ | ⟨j', ended', hs', -, hahead⟩
    · exact .returned rc hrc
    · rw [List.cons_append, hahead 0 (Nat.zero_le _)]
      exact .unopened hs'
  | @receiving s p j ended hs hp =>
    cases hpayload : answer.payload with
    | none =>
      obtain rfl : List.replicate (p - (k + 1)) (t.nackPacket k) = left := by
        simpa [hpayload] using hqueue
      rcases sent_step hs hk hpayload hnext with ⟨rc, hrc⟩ | ⟨j', ended', hs', hj, hahead⟩
      · exact .returned rc hrc
      · rw [hahead p hp]
        exact .receiving hs' (hp.trans hj)
    | some pkt =>
      -- a request is under way, so the lost chunk is not the last one
      replace hqueue : List.replicate (p - (k + 1)) (t.nackPacket k) = pkt :: left := by
        simpa [hpayload] using hqueue
      have hj := hs.le
      have hlen := congrArg List.length hqueue
      rw [List.length_replicate, List.length_cons] at hlen
      have hmem : pkt ∈ List.replicate (p - (k + 1)) (t.nackPacket k) := by
        rw [hqueue]
        simp
      obtain rfl := List.eq_of_mem_replicate hmem
      cases answer with
      | write | fileError | timeout | readError => cases hpayload
      | read payload rc =>
        obtain rfl := Option.some.inj hpayload
        cases hs with
        | data => cases hnext
        | wait round =>
          rw [sendFileStep_nack hk, if_neg (by omega)] at hnext
          obtain ⟨rfl, rfl⟩ := Prod.mk.inj (Option.some.inj hnext)
          exact .returned .io rfl
  | asked round m hm =>
    cases answer with
    | write | fileError => cases hnext
    | read payload rc =>
      obtain ⟨rfl, rfl⟩ := List.cons.inj hqueue
      rw [sendFileStep_nack hk] at hnext
      split at hnext
      · obtain rfl := hm (by omega)
        by_cases hrc : rc = .ok
        · rw [if_pos hrc] at hnext
          obtain ⟨rfl, rfl⟩ := Prod.mk.inj (Option.some.inj hnext)
          exact .resent round true [] (by omega)
        · rw [if_neg hrc] at hnext
          obtain ⟨rfl, rfl⟩ := Prod.mk.inj (Option.some.inj hnext)
          exact .returned rc rfl
      · obtain ⟨rfl, rfl⟩ := Prod.mk.inj (Option.some.inj hnext)
        exact .returned .io rfl
    | timeout rc =>
      obtain rfl : t.nackPacket k :: List.replicate m (t.nackPacket k) = left := hqueue
      rcases senderEndRound_waiting t _ round false rc (Option.some.inj hnext) with
        ⟨rc', hreturned⟩ | ⟨hwait, hsilent⟩
      · exact .returned rc' hreturned
      · obtain rfl : next = t.sender t.count (.wait (round + 1) false false) := hwait
        obtain rfl : written = [] := hsilent rfl
        simpa using FileTransfer.Flow.asked (round + 1) m hm
    | readError rc =>
      obtain ⟨rfl, rfl⟩ := Prod.mk.inj (Option.some.inj hnext)
      exact .returned rc rfl
  | resent round resentAny rest hlast =>
    cases answer with
    | write | fileError => cases hnext
    | read payload rc => cases hqueue
    | timeout rc =>
      obtain rfl : [] = left := hqueue
      rcases senderEndRound_waiting t _ round resentAny rc (Option.some.inj hnext) with
        ⟨rc', hreturned⟩ | ⟨hwait, -⟩
      · exact .returned rc' hreturned
      · obtain rfl : next = t.sender t.count (.wait (round + 1) false false) := hwait
        exact .resent (round + 1) false _ hlast
    | readError rc =>
      obtain ⟨rfl, rfl⟩ := Prod.mk.inj (Option.some.inj hnext)
      exact .returned rc rfl
  | returned rc h => simp [sendFileStep, h] at hnext
  | stopped rc h => exact .stopped rc h

theorem FileTransfer.Flow.step_receiver (hid : t.NoIdInFront) (hk : k < t.count)
    (h : t.Flow k sys) (answer : RecvFileAnswer) :
    t.Flow k (sys.step (oneLoss k) t (.receiver answer)) := by
  simp only [FileSystem.step]
  split
  swap
  · exact h
  next left next written hread hnext =>
  have hqueue := read_oneLoss hread
  cases answer with
  | timeout =>
    obtain ⟨rc, hrc⟩ := recvFileStep_silent rfl hnext
    exact .stopped rc hrc
  | readError rc =>
    obtain ⟨rc, hrc⟩ := recvFileStep_silent rfl hnext
    exact .stopped rc hrc
  | read pkt io =>
    cases h with
    | start => cases hqueue
    | unopened hs =>
      obtain ⟨rfl, rfl⟩ := List.cons.inj hqueue
      replace hnext := Option.some.inj hnext
      rw [recvFilePacket_start] at hnext
      split at hnext
      · obtain ⟨rfl, rfl⟩ := Prod.mk.inj hnext
        simpa using FileTransfer.Flow.receiving (k := k) hs (Nat.zero_le _)
      · obtain ⟨rfl, rfl⟩ := Prod.mk.inj hnext
        exact .stopped .io rfl
    | @receiving s p j ended hs hp =>
      replace hnext := Option.some.inj hnext
      have hj := hs.le
      rcases ahead_head hp hqueue with ⟨q, hq, hqk, hmin, hsub, rfl, rfl⟩ | ⟨rfl, rfl, rfl, hend⟩
      · rw [← hmin] at hnext
        rw [← hsub]
        rcases Nat.lt_or_ge q k with hlt | hge
        · rw [min_eq_left hlt.le,
            recvFilePacket_expected _ _ _ (by omega) (hid.whole (by omega))] at hnext
          split at hnext
          · obtain ⟨rfl, rfl⟩ := Prod.mk.inj hnext
            exact .stopped .io rfl
          · rw [if_neg (by simp)] at hnext
            obtain ⟨rfl, rfl⟩ := Prod.mk.inj hnext
            have hreceiving := FileTransfer.Flow.receiving (k := k) hs (Nat.succ_le_of_lt hq)
            rw [min_eq_left (by omega), show q + 1 - (k + 1) = q - (k + 1) by omega] at hreceiving
            simpa using hreceiving
        · rw [min_eq_right hge, recvFilePacket_ahead _ _ _ (by omega) (by omega)] at hnext
          obtain ⟨rfl, rfl⟩ := Prod.mk.inj hnext
          have hreceiving := FileTransfer.Flow.receiving (k := k) hs (Nat.succ_le_of_lt hq)
          rw [min_eq_right (by omega), show q + 1 - (k + 1) = q - (k + 1) + 1 by omega,
            List.replicate_succ'] at hreceiving
          exact hreceiving
      · cases hs with
        | wait round =>
          rw [min_eq_right (by omega), recvFilePacket_end_early _ _ hk] at hnext
          obtain ⟨rfl, rfl⟩ := Prod.mk.inj hnext
          have hasked := FileTransfer.Flow.asked (t := t) (k := k) round (p - (k + 1)) (by omega)
          rw [← List.replicate_succ, List.replicate_succ'] at hasked
          exact hasked
    | asked => cases hqueue
    | resent round resentAny rest hlast =>
      obtain ⟨rfl, rfl⟩ := List.cons.inj hqueue
      replace hnext := Option.some.inj hnext
      rw [recvFilePacket_expected _ _ _ hk (hid.whole hk)] at hnext
      split at hnext
      · obtain ⟨rfl, rfl⟩ := Prod.mk.inj hnext
        exact .stopped .io rfl
      · rw [if_pos ⟨rfl, hlast⟩] at hnext
        obtain ⟨rfl, rfl⟩ := Prod.mk.inj hnext
        exact .stopped .ok rfl
    | returned rc h => exact .returned rc h
    | stopped rc h => simp [recvFileStep, h] at hnext

end Recovered

section Lost

open Runs (Reaches)

variable {t : FileTransfer} {k : ℕ}

/-- A step of the sender that reads nothing. -/
theorem reaches_write {s s' : FileSend} (r : FileRecv) (toRecv toSend : List (List UInt8))
    {answer : SendAnswer} {written : List (List UInt8)} (hread : answer.payload = none)
    (hnext : sendFileStep t s answer = some (s', written)) :
    Reaches (FileSystem.step (oneLoss k) t) ⟨s, r, toRecv, toSend⟩
      ⟨s', r, toRecv ++ if (oneLoss k).lost s = true then [] else written, toSend⟩ := by
  refine ⟨[.sender answer], ?_⟩
  simp [FileSystem.step, FileNetwork.read, hread, hnext]

/-- The sender reads the first packet that came back. -/
theorem reaches_control {s s' : FileSend} (r : FileRecv) (toRecv rest : List (List UInt8))
    {p : List UInt8} {written : List (List UInt8)} (hlost : (oneLoss k).lost s = false)
    (hnext : sendFileStep t s (.read p .ok) = some (s', written)) :
    Reaches (FileSystem.step (oneLoss k) t) ⟨s, r, toRecv, p :: rest⟩
      ⟨s', r, toRecv ++ written, rest⟩ := by
  refine ⟨[.sender (.read p .ok)], ?_⟩
  simp [FileSystem.step, SendAnswer.payload, hlost, hnext]

/-- The receiver reads the first packet; the file can be opened and written. -/
theorem reaches_read (s : FileSend) {r r' : FileRecv} (rest toSend : List (List UInt8))
    {p : List UInt8} {written : List (List UInt8)} (hrun : r.exit = none)
    (hnext : recvFilePacket t.channel ⟨true, true⟩ r p = (r', written)) :
    Reaches (FileSystem.step (oneLoss k) t) ⟨s, r, p :: rest, toSend⟩
      ⟨s, r', rest, toSend ++ written⟩ := by
  refine ⟨[.receiver (.read p ⟨true, true⟩)], ?_⟩
  simp [FileSystem.step, RecvFileAnswer.payload, recvFileStep, hrun, hnext]

/-- The sender sends the first `j` chunks before the receiver reads anything. -/
theorem reaches_sent (t : FileTransfer) (k : ℕ) {j : ℕ} (hj : j ≤ t.count) :
    Reaches (FileSystem.step (oneLoss k) t) t.system
      ⟨t.sender j .data, recvFileStart, t.startPacket :: t.ahead k 0 j false, []⟩ := by
  induction j with
  | zero =>
    have hstep := reaches_write (k := k) recvFileStart [] [] rfl (sendFileStep_start t .ok)
    have hsystem : t.system = ⟨t.sender 0 .start, recvFileStart, [], []⟩ := rfl
    rw [hsystem]
    simpa [oneLoss, FileTransfer.sender, FileTransfer.ahead] using hstep
  | succ j ih =>
    apply (ih (by omega)).trans
    have hstep := reaches_write (k := k) recvFileStart (t.startPacket :: t.ahead k 0 j false) []
      rfl (sendFileStep_data (chunks_getD hj) .ok)
    rw [lost_data k (Nat.le_of_succ_le hj), List.cons_append] at hstep
    rw [← ahead_succ t (Nat.zero_le j)]
    simpa [FileTransfer.dataPacket] using hstep

/-- The receiver reads what is left of the stream, and asks for the lost chunk at
every later one and at END. -/
theorem reaches_asked (hid : t.NoIdInFront) (hk : k < t.count) (s : FileSend) {p : ℕ}
    (hp : p ≤ t.count) :
    Reaches (FileSystem.step (oneLoss k) t)
      ⟨s, t.receiver (t.chunks.take (min p k)) false, t.ahead k p t.count true,
        List.replicate (p - (k + 1)) (t.nackPacket k)⟩
      ⟨s, t.receiver (t.chunks.take k) true, [],
        List.replicate (t.count - k) (t.nackPacket k)⟩ := by
  induction hd : t.count - p generalizing p with
  | zero =>
    obtain rfl : p = t.count := by omega
    have hstep := reaches_read (k := k) (t := t) s []
      (List.replicate (t.count - (k + 1)) (t.nackPacket k)) rfl
      (recvFilePacket_end_early t.channel ⟨true, true⟩ hk)
    rw [← List.replicate_succ', show t.count - (k + 1) + 1 = t.count - k by omega] at hstep
    rw [min_eq_right hk.le]
    simpa [FileTransfer.ahead] using hstep
  | succ d ih =>
    have hlt : p < t.count := by omega
    have hnext := ih hlt (by omega)
    rcases lt_trichotomy p k with hpk | rfl | hpk
    · rw [min_eq_left (by omega), show p + 1 - (k + 1) = p - (k + 1) by omega] at hnext
      rw [min_eq_left hpk.le, FileTransfer.ahead, t.dataPackets_cons hlt hpk.ne, List.cons_append]
      have hread := recvFilePacket_expected t.channel ⟨true, true⟩ false hlt (hid.whole hlt)
      rw [if_neg (by simp), if_neg (by simp)] at hread
      have hstep := reaches_read (k := k) s (t.ahead k (p + 1) t.count true)
        (List.replicate (p - (k + 1)) (t.nackPacket k)) rfl hread
      rw [List.append_nil] at hstep
      exact hstep.trans hnext
    · -- the lost chunk is passed over
      rw [min_eq_right (by omega), show p + 1 - (p + 1) = p - (p + 1) by omega] at hnext
      rwa [min_self, FileTransfer.ahead, t.dataPackets_lost hlt]
    · rw [min_eq_right (by omega), show p + 1 - (k + 1) = p - (k + 1) + 1 by omega,
        List.replicate_succ'] at hnext
      rw [min_eq_right hpk.le, FileTransfer.ahead, t.dataPackets_cons hlt hpk.ne',
        List.cons_append]
      exact (reaches_read s _ _ rfl (recvFilePacket_ahead t.channel ⟨true, true⟩ false hpk hlt)).trans
        hnext

/-- The sender answers every request while the lost chunk is in its cache. -/
theorem reaches_resent (hk : k < t.count) (hcache : t.count ≤ k + bcFileRetxWindow) (r : FileRecv)
    (m round : ℕ) (resentAny : Bool) (toRecv : List (List UInt8)) :
    Reaches (FileSystem.step (oneLoss k) t)
      ⟨t.sender t.count (.wait round false resentAny), r, toRecv,
        List.replicate (m + 1) (t.nackPacket k)⟩
      ⟨t.sender t.count (.wait round false true), r,
        toRecv ++ List.replicate (m + 1) (t.dataPacket k), []⟩ := by
  have hanswer : ∀ resentAny, sendFileStep t (t.sender t.count (.wait round false resentAny))
      (.read (t.nackPacket k) .ok) =
        some (t.sender t.count (.wait round false true), [t.dataPacket k]) := by
    intro resentAny
    rw [sendFileStep_nack hk, if_pos hcache, if_pos rfl]
  have hstep : ∀ resentAny toRecv rest, Reaches (FileSystem.step (oneLoss k) t)
      ⟨t.sender t.count (.wait round false resentAny), r, toRecv, t.nackPacket k :: rest⟩
      ⟨t.sender t.count (.wait round false true), r, toRecv ++ [t.dataPacket k], rest⟩ :=
    fun resentAny toRecv rest => reaches_control r toRecv rest rfl (hanswer resentAny)
  induction m generalizing resentAny toRecv with
  | zero => exact hstep resentAny toRecv []
  | succ m ih =>
    apply (hstep resentAny toRecv (List.replicate (m + 1) (t.nackPacket k))).trans
    have hrest := ih true (toRecv ++ [t.dataPacket k])
    rw [List.append_assoc] at hrest
    exact hrest

/-- The receiver throws away what it has. -/
theorem reaches_ignored (s : FileSend) {j : ℕ} (hk : k < j) (hj : j ≤ t.count)
    (m : ℕ) (rest : List (List UInt8)) :
    Reaches (FileSystem.step (oneLoss k) t)
      ⟨s, t.receiver (t.chunks.take j) true, List.replicate m (t.dataPacket k) ++ rest, []⟩
      ⟨s, t.receiver (t.chunks.take j) true, rest, []⟩ := by
  induction m with
  | zero => exact .refl _ _
  | succ m ih =>
    exact (reaches_read s _ _ rfl (recvFilePacket_known t.channel ⟨true, true⟩ true hk hj)).trans ih

/-- The sender sends everything, and the receiver asks for the lost chunk. -/
theorem reaches_all_asked (hid : t.NoIdInFront) (hk : k < t.count) :
    Reaches (FileSystem.step (oneLoss k) t) t.system
      ⟨t.sender t.count (.wait 0 false false), t.receiver (t.chunks.take k) true, [],
        List.replicate (t.count - k) (t.nackPacket k)⟩ := by
  have hend := reaches_write (k := k) recvFileStart (t.startPacket :: t.ahead k 0 t.count false) []
    rfl (sendFileStep_end t .ok)
  rw [lost_data k (le_refl _), if_neg (by simpa using hk.ne'), List.cons_append, ahead_end] at hend
  have hopen := reaches_read (k := k) (t := t) (t.sender t.count (.wait 0 false false))
    (t.ahead k 0 t.count true) [] rfl (recvFilePacket_start t ⟨true, true⟩)
  have hasked := reaches_asked hid hk (t.sender t.count (.wait 0 false false)) (Nat.zero_le _)
  rw [Nat.zero_min, Nat.zero_sub] at hasked
  exact (((reaches_sent t k (le_refl _)).trans hend).trans hopen).trans hasked

/-- The sender has answered the requests: END is sent again, and ignored. -/
theorem reaches_ended (t : FileTransfer) (k : ℕ) (pieces : List (List UInt8)) :
    Reaches (FileSystem.step (oneLoss k) t)
      ⟨t.sender t.count (.wait 0 false true), t.receiver pieces true, [], []⟩
      ⟨t.sender t.count (.wait 1 false false), t.receiver pieces true, [], []⟩ := by
  have hround : 0 + 1 < endWaitRounds t := by
    apply lt_of_lt_of_le _ (le_max_left _ _)
    decide
  have hend : sendFileStep t (t.sender t.count (.wait 0 false true)) (.timeout .ok) =
      some (t.sender t.count (.wait 1 false false), [t.finalEnd]) := by
    show some (senderEndRound t _ 0 false true .ok) = _
    simp [senderEndRound, hround, FileTransfer.sender, FileTransfer.finalEnd]
  have hwrite := reaches_write (k := k) (t.receiver pieces true) [] [] rfl hend
  have hread := recvFilePacket_end t t.channel ⟨true, true⟩ pieces true
  exact hwrite.trans (reaches_read _ _ _ rfl hread)

/-- Where a later chunk was thrown away, the recovery of the lost one is the end. -/
theorem reaches_stuck (hid : t.NoIdInFront) (hlater : k + 1 < t.count)
    (hcache : t.count ≤ k + bcFileRetxWindow) :
    ∃ sys, Reaches (FileSystem.step (oneLoss k) t) t.system sys ∧ t.Stuck sys := by
  have hk : k < t.count := by omega
  refine ⟨⟨t.sender t.count (.wait 1 false false), t.receiver (t.chunks.take (k + 1)) true, [], []⟩,
    ?_, ?_⟩
  · have hresent := reaches_resent hk hcache (t.receiver (t.chunks.take k) true)
      (t.count - k - 1) 0 false []
    rw [show t.count - k - 1 + 1 = t.count - k by omega, List.nil_append,
      show t.count - k = t.count - k - 1 + 1 by omega, List.replicate_succ (a := t.dataPacket k),
      show t.count - k - 1 + 1 = t.count - k by omega] at hresent
    have hread := recvFilePacket_expected t.channel ⟨true, true⟩ true hk (hid.whole hk)
    rw [if_neg (by simp), if_neg (by simpa using hlater.ne)] at hread
    have haccept := reaches_read (k := k) (t.sender t.count (.wait 0 false true))
      (List.replicate (t.count - k - 1) (t.dataPacket k)) [] rfl hread
    have hignored := reaches_ignored (t := t) (t.sender t.count (.wait 0 false true))
      (Nat.lt_succ_self k) hlater.le (t.count - k - 1) []
    rw [List.append_nil] at hignored
    exact ((((reaches_all_asked hid hk).trans hresent).trans haccept).trans hignored).trans
      (reaches_ended t k _)
  · refine ⟨rfl, rfl, ⟨1, false, rfl⟩, rfl, rfl, ?_⟩
    rw [FileTransfer.receiver_expectedSeq, List.length_take, min_eq_left hlater.le,
      FileTransfer.toNat_ofNat_of_le_count hlater.le]
    exact hlater

end Lost

/-- No transfer that loses the first transmission of chunk `k` gets stuck, exactly
where nothing follows the chunk, or where so much does that the sender gives up. -/
theorem file_recovery_iff (t : FileTransfer) (hid : t.NoIdInFront) (k : ℕ) (hk : k < t.count) :
    (∀ events, ¬ t.Stuck (Runs.run (FileSystem.step (oneLoss k) t) t.system events)) ↔
      k + 1 = t.count ∨ k + bcFileRetxWindow < t.count := by
  constructor
  · intro h
    by_contra hcond
    have hlater : k + 1 < t.count := by omega
    obtain ⟨_, ⟨events, rfl⟩, hstuck⟩ := reaches_stuck hid hlater (by omega)
    exact h events hstuck
  · intro hcond events
    have hflow : t.Flow k (Runs.run (FileSystem.step (oneLoss k) t) t.system events) := by
      refine Runs.run_of_step _ ?_ .start events
      intro sys event h
      cases event with
      | sender answer => exact h.step_sender hk hcond answer
      | receiver answer => exact h.step_receiver hid hk answer
    exact hflow.not_stuck

/-- What `read` returns of a file of 1393 bytes: a full chunk and one of one byte. -/
def twoChunks : List (List UInt8) := [List.replicate bcFileDataBodyMax 0, [1]]

theorem twoChunks_ne : ∀ c ∈ twoChunks, c ≠ [] := by
  simp [twoChunks]

theorem twoChunks_le : ∀ c ∈ twoChunks, c.length ≤ bcFileDataBodyMax := by
  intro c hc
  simp only [twoChunks, List.mem_cons, List.not_mem_nil, or_false] at hc
  rcases hc with rfl | rfl
  · rw [List.length_replicate]
  · decide

theorem twoChunks_size_lt : twoChunks.flatten.length < 2 ^ 32 := by
  simp only [twoChunks, List.flatten_cons, List.flatten_nil, List.length_append,
    List.length_replicate, List.length_singleton, List.length_nil]
  decide

/-- The transfer of that file. -/
def twoChunkFile : FileTransfer :=
  { oneByteFile with chunks := twoChunks, chunk_ne := twoChunks_ne, chunk_le := twoChunks_le,
                     size_lt := twoChunks_size_lt }

theorem twoChunkFile_noIdInFront : twoChunkFile.NoIdInFront := by
  intro c hc
  simp only [twoChunkFile, twoChunks, List.mem_cons, List.not_mem_nil, or_false] at hc
  rcases hc with rfl | rfl
  · rw [List.take_replicate]
    decide
  · decide

/-- The first of the two chunks is lost: both parties wait for ever. -/
theorem file_recovery_stuck :
    twoChunkFile.NoIdInFront ∧ 0 < twoChunkFile.count ∧
    ∃ events, twoChunkFile.Stuck
      (Runs.run (FileSystem.step (oneLoss 0) twoChunkFile) twoChunkFile.system events) := by
  obtain ⟨_, ⟨events, rfl⟩, hstuck⟩ :=
    reaches_stuck (k := 0) twoChunkFile_noIdInFront (by decide) (by decide)
  exact ⟨twoChunkFile_noIdInFront, by decide, events, hstuck⟩

theorem file_recovery_iff_last :
    (∀ events, ¬ twoChunkFile.Stuck
      (Runs.run (FileSystem.step (oneLoss 1) twoChunkFile) twoChunkFile.system events)) ↔
      1 + 1 = twoChunkFile.count ∨ 1 + bcFileRetxWindow < twoChunkFile.count :=
  file_recovery_iff twoChunkFile twoChunkFile_noIdInFront 1 (by decide)

end BoardComm
