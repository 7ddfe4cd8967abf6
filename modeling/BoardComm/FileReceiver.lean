import BoardComm.FileAgreement
import BoardComm.Runs

/-!
# What the receiver makes of packets of other transfers

A receiver listens on a topic that others may use too. Packets carry the id of
their transfer, but each type is tested at another place, and END only after the
state was changed.
-/
namespace BoardComm

namespace FileRecv

/-- A receiver is answered; one that has returned reads nothing. -/
def step (channel : List UInt8) (r : FileRecv) (answer : RecvFileAnswer) : FileRecv :=
  ((recvFileStep channel r answer).map Prod.fst).getD r

/-- The packets that the receiver writes meanwhile. -/
def writes (channel : List UInt8) (r : FileRecv) (answer : RecvFileAnswer) : List (List UInt8) :=
  ((recvFileStep channel r answer).map Prod.snd).getD []

/-- What an accepted START packet settles. -/
def settled (r : FileRecv) : Bool × Bool × UInt32 := (r.gotStart, r.v2Mode, r.transferId)

variable {channel : List UInt8} {io : RecvIo} {r : FileRecv} {hdr : FilePktHdr}
  {extra : List UInt8}

theorem step_of_exit {rc : BcStatus} (h : r.exit = some rc) (answer : RecvFileAnswer) :
    r.step channel answer = r ∧ r.writes channel answer = [] := by
  unfold step writes recvFileStep
  rw [h]
  exact ⟨rfl, rfl⟩

theorem settled_finish : r.finish.1.settled = r.settled := by
  unfold finish
  split
  · rfl
  · rfl

theorem exit_finish : r.finish.1.exit ≠ none := by
  unfold finish
  split
  · exact Option.some_ne_none _
  · exact Option.some_ne_none _

/-- A receiver that has returned, or whose stream is as before. -/
def Goes (r r' : FileRecv) : Prop := r'.settled = r.settled ∧ (r'.exit = none → r'.fp = r.fp)

theorem goes_accept (data : List UInt8) : r.Goes (r.accept io data).1 := by
  unfold accept
  split_ifs with hwrite
  · exact ⟨rfl, fun h => by cases h⟩
  · simp only
    split_ifs
    · exact ⟨settled_finish, fun h => absurd h exit_finish⟩
    · exact ⟨rfl, fun _ => rfl⟩

theorem goes_onData : r.Goes (r.onData io hdr extra).1 := by
  unfold onData
  split_ifs
  · exact ⟨rfl, fun _ => rfl⟩
  · exact ⟨rfl, fun _ => rfl⟩
  · exact ⟨rfl, fun _ => rfl⟩
  · exact ⟨rfl, fun _ => rfl⟩
  · exact goes_accept _

theorem goes_onEnd : r.Goes (r.onEnd hdr extra).1 := by
  unfold onEnd checkEnd
  split_ifs
  · exact ⟨rfl, fun _ => rfl⟩
  · exact ⟨rfl, fun h => by cases h⟩
  · exact ⟨rfl, fun h => by cases h⟩
  · exact ⟨rfl, fun _ => rfl⟩
  · exact ⟨settled_finish, fun h => absurd h exit_finish⟩

theorem goes_step (channel : List UInt8) (hstart : r.gotStart = true) (answer : RecvFileAnswer) :
    r.Goes (r.step channel answer) := by
  unfold step recvFileStep
  cases hexit : r.exit with
  | some rc => exact ⟨rfl, fun _ => rfl⟩
  | none =>
    cases answer with
    | read payload io =>
      simp only [Option.map_some, Option.getD_some, recvFilePacket]
      cases parseFilePacket payload with
      | none => exact ⟨rfl, fun _ => rfl⟩
      | some packet =>
        obtain ⟨hdr, extra⟩ := packet
        simp only
        split_ifs
        · rw [onStart, if_pos hstart]
          exact ⟨rfl, fun _ => rfl⟩
        · exact ⟨rfl, fun _ => rfl⟩
        · exact goes_onData
        · exact goes_onEnd
        · exact ⟨rfl, fun _ => rfl⟩
    | timeout =>
      simp only [Option.map_some, Option.getD_some, recvFileTimeout, hstart, Bool.true_eq_false,
        if_false]
      exact ⟨rfl, fun h => by cases h⟩
    | readError rc => exact ⟨rfl, fun h => by cases h⟩

/-- The transfer id that a version 2 packet of a control type, or START, carries. -/
def carriedId (hdr : FilePktHdr) (extra : List UInt8) : Option ℕ :=
  if hdr.v2 = false then none
  else if hdr.type = bcFilePktStart then
    if 5 ≤ extra.length then some (ByteLayout.ofLE ((extra.drop 1).take 4)) else none
  else if hdr.type = bcFilePktEnd ∨ hdr.type = bcFilePktNack ∨ hdr.type = bcFilePktDone then
    if extra.length = 4 then some (ByteLayout.ofLE extra) else none
  else none

/-- A packet of another transfer is read. -/
def foreign (transferId : UInt32) : RecvFileAnswer → Bool
  | .read payload _ =>
    match parseFilePacket payload with
    | some (hdr, extra) => (carriedId hdr extra).any (· ≠ transferId.toNat)
    | none => false
  | _ => false

/-- An END packet is read. -/
def readsEnd : RecvFileAnswer → Bool
  | .read payload _ => (parseFilePacket payload).any fun packet => packet.1.type = bcFilePktEnd
  | _ => false

/-- What the transfer rests on is as before, and the call goes on or has ended as before. -/
structure Unaltered (r r' : FileRecv) : Prop where
  expectedSeq : r'.expectedSeq = r.expectedSeq
  received : r'.received = r.received
  crc : r'.crc = r.crc
  gotEnd : r'.gotEnd = r.gotEnd
  endCrc : r'.endCrc = r.endCrc
  file : r'.file = r.file
  exit : r'.exit = r.exit

/-- A packet of another transfer leaves the receiver alone. -/
def Ignores (channel : List UInt8) (r : FileRecv) (answer : RecvFileAnswer) : Prop :=
  foreign r.transferId answer = true → r.Unaltered (r.step channel answer)

/-- An END packet of another transfer comes only after an END packet was taken. -/
def AfterEnd (r : FileRecv) (answer : RecvFileAnswer) : Prop :=
  foreign r.transferId answer = true → readsEnd answer = true → r.exit = none → r.gotEnd = true

/-- A receiver of version 2 that has accepted START. -/
structure Receiving (r : FileRecv) : Prop where
  gotStart : r.gotStart = true
  v2Mode : r.v2Mode = true
  fp : r.exit = none → r.fp = true

theorem Receiving.step (h : r.Receiving) (channel : List UInt8) (answer : RecvFileAnswer) :
    (r.step channel answer).Receiving ∧ (r.step channel answer).transferId = r.transferId := by
  obtain ⟨hsettled, hfp⟩ := goes_step channel h.gotStart answer
  simp only [settled, Prod.mk.injEq] at hsettled
  obtain ⟨hstart, hv2, hid⟩ := hsettled
  refine ⟨⟨hstart.trans h.gotStart, hv2.trans h.v2Mode, fun hexit => ?_⟩, hid⟩
  rw [hfp hexit]
  cases hr : r.exit with
  | none => exact h.fp hr
  | some rc =>
    rw [(step_of_exit hr answer).1, hr] at hexit
    cases hexit

/-- A packet of another transfer changes nothing, unless it is an END packet that
comes first. -/
theorem Receiving.foreign_packet (h : r.Receiving) (channel : List UInt8) (io : RecvIo)
    (hfp : r.fp = true) {payload : List UInt8}
    (hparse : parseFilePacket payload = some (hdr, extra)) {id : ℕ}
    (hid : carriedId hdr extra = some id) (hne : id ≠ r.transferId.toNat) :
    recvFilePacket channel io r payload =
      if hdr.type = bcFilePktEnd ∧ r.gotEnd = false then
        ({ r with gotEnd := true, endCrc := hdr.value }.fail, [])
      else (r, []) := by
  simp only [recvFilePacket, hparse]
  unfold carriedId at hid
  split_ifs at hid with hv2 hstart hlong hcontrol hlength
  · -- START
    have hend : ¬ hdr.type = bcFilePktEnd := by
      rw [hstart]
      decide
    rw [if_pos hstart, onStart, if_pos h.gotStart, if_neg (fun hbad => hend hbad.1)]
  · have hopen : ¬ (r.gotStart = false ∨ r.fp = false) := by
      rw [h.gotStart, hfp]
      decide
    rw [if_neg hstart, if_neg hopen]
    rcases hcontrol with hend | hother
    · -- END
      have hdata : ¬ hdr.type = bcFilePktData := by
        rw [hend]
        decide
      rw [if_neg hdata, if_pos hend, onEnd]
      cases hgot : r.gotEnd with
      | true => rw [if_pos rfl, if_neg (by simp)]
      | false =>
        have hflag : ¬ (hdr.v2 = false ∨ extra.length ≠ 4) := by
          simp [hv2, hlength]
        have hmismatch : ByteLayout.ofLE extra ≠ r.transferId.toNat := by
          rw [Option.some.injEq] at hid
          rwa [hid]
        rw [if_neg (by simp), checkEnd, if_neg (fun hbad => hflag hbad.2),
          if_pos ⟨h.v2Mode, hmismatch⟩, if_pos ⟨hend, rfl⟩]
    · -- NACK and DONE are no packets for a receiver.
      have hother : ¬ hdr.type = bcFilePktData ∧ ¬ hdr.type = bcFilePktEnd := by
        rcases hother with hother | hother
        · rw [hother]
          decide
        · rw [hother]
          decide
      rw [if_neg hother.1, if_neg hother.2, if_neg (fun hbad => hother.2 hbad.1)]

theorem Receiving.foreign_step (h : r.Receiving) (channel : List UInt8) (answer : RecvFileAnswer)
    (hforeign : foreign r.transferId answer = true) :
    if readsEnd answer = true ∧ r.exit = none ∧ r.gotEnd = false then
      (FileRecv.step channel r answer).exit ≠ r.exit
    else FileRecv.step channel r answer = r ∧ r.writes channel answer = [] := by
  cases hexit : r.exit with
  | some rc =>
    rw [if_neg (by simp)]
    exact step_of_exit hexit answer
  | none =>
    cases answer with
    | timeout => cases hforeign
    | readError rc => cases hforeign
    | read payload io =>
      simp only [foreign] at hforeign
      cases hparse : parseFilePacket payload with
      | none =>
        rw [hparse] at hforeign
        cases hforeign
      | some packet =>
        obtain ⟨hdr, extra⟩ := packet
        rw [hparse] at hforeign
        obtain ⟨id, hid, hne⟩ := (Option.any_eq_true _ _).mp hforeign
        have hpacket := h.foreign_packet channel io (h.fp hexit) hparse hid
          (by simpa using hne)
        simp only [readsEnd, hparse, Option.any_some, decide_eq_true_eq, true_and]
        simp only [FileRecv.step, writes, recvFileStep, hexit, Option.map_some,
          Option.getD_some, hpacket]
        split_ifs with hend
        · exact Option.some_ne_none _
        · exact ⟨rfl, rfl⟩

theorem Unaltered.refl (r : FileRecv) : r.Unaltered r := ⟨rfl, rfl, rfl, rfl, rfl, rfl, rfl⟩

/-- A packet of another transfer is ignored exactly when it is no END packet that comes first. -/
theorem Receiving.ignores_iff (h : r.Receiving) (answer : RecvFileAnswer) :
    Ignores channel r answer ↔ AfterEnd r answer := by
  constructor
  · intro hignores hforeign hend hexit
    by_contra hgot
    have hstep := h.foreign_step channel answer hforeign
    rw [if_pos ⟨hend, hexit, by simpa using hgot⟩] at hstep
    exact hstep (hignores hforeign).exit
  · intro hafter hforeign
    have hstep := h.foreign_step channel answer hforeign
    rw [if_neg (fun hbad => by simp [hafter hforeign hbad.1 hbad.2.1] at hbad)] at hstep
    rw [hstep.1]
    exact .refl r

/-- An accepted START packet leaves a stream that is open until the call returns. -/
theorem open_run (channel : List UInt8) (answers : List RecvFileAnswer) :
    let r := Runs.run (FileRecv.step channel) recvFileStart answers
    r.gotStart = true → r.exit = none → r.fp = true := by
  refine Runs.run_of_step (FileRecv.step channel)
    (I := fun r => r.gotStart = true → r.exit = none → r.fp = true) ?_ (fun h => by cases h) answers
  intro r answer hopen hstart hexit
  cases hbefore : r.gotStart with
  | true =>
    have hgoes := goes_step channel hbefore answer
    rw [hgoes.2 hexit]
    cases hr : r.exit with
    | none => exact hopen hbefore hr
    | some rc =>
      rw [(step_of_exit hr answer).1, hr] at hexit
      cases hexit
  | false =>
    -- Only a START packet starts a transfer.
    revert hstart hexit
    unfold FileRecv.step recvFileStep
    cases hr : r.exit with
    | some rc => simp [hbefore]
    | none =>
      cases answer with
      | timeout => simp [recvFileTimeout, hbefore]
      | readError rc => simp [recvFileError]
      | read payload io =>
        simp only [Option.map_some, Option.getD_some, recvFilePacket]
        cases parseFilePacket payload with
        | none => simp [hbefore]
        | some packet =>
          obtain ⟨hdr, extra⟩ := packet
          simp only
          by_cases htype : hdr.type = bcFilePktStart
          · rw [if_pos htype, onStart, if_neg (by simp [hbefore])]
            split
            · split_ifs
              · simp
              · simp
            · simp [hbefore]
          · rw [if_neg htype, if_pos (.inl hbefore)]
            simp [hbefore]

end FileRecv

/-- In a run after a version 2 START was accepted, exactly the END packets of other
transfers that come before the END of this one are not ignored. Without such packets
the run is the one in which no packet of another transfer is read. -/
theorem foreign_packets_ignored_iff (channel : List UInt8) (before answers : List RecvFileAnswer)
    (r : FileRecv) (hr : Runs.run (FileRecv.step channel) recvFileStart before = r)
    (hstart : r.gotStart = true) (hv2 : r.v2Mode = true) :
    (Runs.Meets (FileRecv.step channel) (FileRecv.Ignores channel) r answers ↔
        Runs.Meets (FileRecv.step channel) FileRecv.AfterEnd r answers) ∧
      (Runs.Meets (FileRecv.step channel) FileRecv.AfterEnd r answers →
        Runs.run (FileRecv.step channel) r answers =
            Runs.run (FileRecv.step channel) r
              (answers.filter fun a => !FileRecv.foreign r.transferId a) ∧
          Runs.collect (FileRecv.step channel) (FileRecv.writes channel) r answers =
            Runs.collect (FileRecv.step channel) (FileRecv.writes channel) r
              (answers.filter fun a => !FileRecv.foreign r.transferId a)) := by
  have hreceiving : r.Receiving := by
    refine ⟨hstart, hv2, fun hexit => ?_⟩
    subst hr
    exact FileRecv.open_run channel before hstart hexit
  -- Along the run the receiver stays in the transfer.
  have hstays : ∀ pre, pre <+: answers → (Runs.run (FileRecv.step channel) r pre).Receiving ∧
      (Runs.run (FileRecv.step channel) r pre).transferId = r.transferId := by
    intro pre _
    refine Runs.run_of_step (FileRecv.step channel)
      (I := fun r' => r'.Receiving ∧ r'.transferId = r.transferId) ?_ ⟨hreceiving, rfl⟩ pre
    intro r' answer ⟨h, hid⟩
    obtain ⟨h', hid'⟩ := h.step channel answer
    exact ⟨h', hid'.trans hid⟩
  have hpart : ∀ {pre : List RecvFileAnswer} {answer : RecvFileAnswer},
      pre ++ [answer] <+: answers → pre <+: answers :=
    fun h => (List.prefix_append _ _).trans h
  refine ⟨⟨fun h pre answer hpre => ?_, fun h pre answer hpre => ?_⟩, fun h => ?_⟩
  · exact ((hstays pre (hpart hpre)).1.ignores_iff answer).mp (h pre answer hpre)
  · exact ((hstays pre (hpart hpre)).1.ignores_iff answer).mpr (h pre answer hpre)
  · apply Runs.run_filter
    intro pre answer hpre hkeep
    obtain ⟨hnow, hid⟩ := hstays pre (hpart hpre)
    have hforeign : FileRecv.foreign (Runs.run (FileRecv.step channel) r pre).transferId answer =
        true := by
      rw [hid]
      simpa using hkeep
    have hstep := hnow.foreign_step channel answer hforeign
    have hafter := h pre answer hpre hforeign
    rwa [if_neg (fun hbad => by simp [hafter hbad.1 hbad.2.1] at hbad)] at hstep

/-- A receiver that has accepted START. -/
def oneByteStarted : FileRecv :=
  Runs.run (FileRecv.step oneByteFile.channel) recvFileStart
    [.read oneByteFile.startPacket ⟨true, true⟩]

theorem foreign_packets_ignored_iff_nack :
    Runs.Meets (FileRecv.step oneByteFile.channel) (FileRecv.Ignores oneByteFile.channel)
      oneByteStarted [.read (fileV2Control bcFilePktNack 0 99) ⟨true, true⟩] := by
  apply (foreign_packets_ignored_iff oneByteFile.channel
    [.read oneByteFile.startPacket ⟨true, true⟩]
    [.read (fileV2Control bcFilePktNack 0 99) ⟨true, true⟩] oneByteStarted (by rfl)
    (by decide) (by decide)).1.mpr
  rw [Runs.meets_cons]
  refine ⟨fun _ hend => ?_, Runs.meets_nil _⟩
  rw [FileRecv.readsEnd, fileV2Control, parseFilePacket_filePacket] at hend
  cases hend

/-- An END packet of an earlier transfer. -/
def lateEnd : RecvFileAnswer := .read (fileV2Control bcFilePktEnd 0 99) ⟨true, true⟩

/-- The rest of the transfer. -/
def oneByteRest : List RecvFileAnswer :=
  [.read (fileDataPacket 0 [1]) ⟨true, true⟩, .read oneByteFile.finalEnd ⟨true, true⟩]

/-- It ends the transfer that would have been completed without it. -/
theorem foreign_end_aborts :
    FileRecv.foreign oneByteStarted.transferId lateEnd = true ∧
      ¬ Runs.Meets (FileRecv.step oneByteFile.channel) (FileRecv.Ignores oneByteFile.channel)
        oneByteStarted (lateEnd :: oneByteRest) ∧
      (Runs.run (FileRecv.step oneByteFile.channel) oneByteStarted oneByteRest).exit = some .ok ∧
      (Runs.run (FileRecv.step oneByteFile.channel) oneByteStarted
        (lateEnd :: oneByteRest)).exit = some .io := by
  have hforeign : FileRecv.foreign oneByteStarted.transferId lateEnd = true := by decide
  refine ⟨hforeign, fun h => ?_, by decide, by decide⟩
  obtain ⟨hignores, -⟩ := (Runs.meets_cons _).mp h
  have hexit := (hignores hforeign).exit
  revert hexit
  decide

end BoardComm
