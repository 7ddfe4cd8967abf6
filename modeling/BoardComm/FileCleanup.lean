import BoardComm.FileReceiver

/-!
# What the receiver leaves behind

The receive loop ends in many places, and each tidies up by itself. The calls of the
C library on the destination are listed here beside the steps of the receiver.
-/
namespace BoardComm

/-- A call of the C library on the destination, where it opens the file if it is `fopen`. -/
inductive FileCall
  | fopen
  | fclose
  | unlink
  deriving DecidableEq, Repr

/-- The destination: whether it was opened, how often the stream was closed since, and
whether the path is there. -/
structure DestFile where
  opened : Bool
  closes : ℕ
  there : Bool
  deriving DecidableEq, Repr

def DestFile.call (d : DestFile) : FileCall → DestFile
  | .fopen => ⟨true, 0, true⟩
  | .fclose => { d with closes := d.closes + 1 }
  | .unlink => { d with there := false }

namespace FileRecv

/-- All bytes are there. -/
def finishCalls (r : FileRecv) : List FileCall :=
  .fclose :: if r.endCrc ≠ ~~~r.crc then [.unlink] else []

/-- A START packet. -/
def startCalls (channel : List UInt8) (io : RecvIo) (r : FileRecv) (hdr : FilePktHdr)
    (extra : List UInt8) : List FileCall :=
  if r.gotStart = true then []
  else
    match parseStartMeta extra channel hdr.v2 r.transferId with
    | (.ok, _) => if io.fopen = false then [] else [.fopen]
    | _ => []

/-- A chunk in its turn. -/
def acceptCalls (io : RecvIo) (r : FileRecv) (data : List UInt8) : List FileCall :=
  if io.fwrite = false then [.fclose, .unlink]
  else
    let r := { r with file := r.file.map (· ++ data), crc := bcFileCrc32Update r.crc data,
                      received := r.received + UInt32.ofNat data.length,
                      expectedSeq := r.expectedSeq + 1 }
    if r.gotEnd = true ∧ r.received = r.expectedSize then r.finishCalls else []

/-- A DATA packet. -/
def dataCalls (io : RecvIo) (r : FileRecv) (hdr : FilePktHdr) (extra : List UInt8) :
    List FileCall :=
  if r.v2Mode = true ∧ (hdr.v2 = false ∨ extra.length = 0) then []
  else if (r.dataOf extra).length = 0 then []
  else if hdr.value < r.expectedSeq then []
  else if hdr.value > r.expectedSeq then []
  else r.acceptCalls io (r.dataOf extra)

/-- The first END packet. Where it is refused the path is removed, and the stream stays open. -/
def checkEndCalls (r : FileRecv) (hdr : FilePktHdr) (extra : List UInt8) : List FileCall :=
  if r.v2Mode = true ∧ (hdr.v2 = false ∨ extra.length ≠ 4) then [.unlink]
  else if r.v2Mode = true ∧ ByteLayout.ofLE extra ≠ r.transferId.toNat then [.unlink]
  else if r.received ≠ r.expectedSize then []
  else r.finishCalls

/-- An END packet. -/
def endCalls (r : FileRecv) (hdr : FilePktHdr) (extra : List UInt8) : List FileCall :=
  if r.gotEnd = true then []
  else checkEndCalls { r with gotEnd := true, endCrc := hdr.value } hdr extra

/-- The calls of one step of `recv_file_path` on the destination. -/
def calls (channel : List UInt8) (r : FileRecv) (answer : RecvFileAnswer) : List FileCall :=
  match r.exit, answer with
  | some _, _ => []
  | none, .read payload io =>
    match parseFilePacket payload with
    | none => []
    | some (hdr, extra) =>
      if hdr.type = bcFilePktStart then r.startCalls channel io hdr extra
      else if r.gotStart = false ∨ r.fp = false then []
      else if hdr.type = bcFilePktData then r.dataCalls io hdr extra
      else if hdr.type = bcFilePktEnd then r.endCalls hdr extra
      else []
  | none, .timeout =>
    if r.gotStart = false then []
    else (if r.fp = true then [.fclose] else []) ++ [.unlink]
  | none, .readError _ => if r.fp = true then [.fclose, .unlink] else []

/-- An END packet that the receiver refuses for its flag, its length or its id. -/
def RefusesEnd (r : FileRecv) : RecvFileAnswer → Prop
  | .read payload _ =>
    match parseFilePacket payload with
    | none => False
    | some (hdr, extra) =>
      hdr.type = bcFilePktEnd ∧ r.exit = none ∧ r.gotStart = true ∧ r.gotEnd = false ∧
        r.v2Mode = true ∧
        (hdr.v2 = false ∨ extra.length ≠ 4 ∨ ByteLayout.ofLE extra ≠ r.transferId.toNat)
  | _ => False

/-- What a step on an open file may leave: it goes on, or it closes the stream once and
removes the path unless it returns `BC_OK`. -/
inductive Tidies (r : FileRecv) : FileRecv → List FileCall → Prop
  | goesOn {r' : FileRecv} (hexit : r'.exit = r.exit) (hstart : r'.gotStart = r.gotStart)
      (hfp : r'.fp = r.fp) (hfile : r'.file.isSome = r.file.isSome) : Tidies r r' []
  | done {r' : FileRecv} (hexit : r'.exit = some .ok) (hfile : r'.file.isSome = r.file.isSome) :
      Tidies r r' [.fclose]
  | fails {r' : FileRecv} {rc : BcStatus} (hrc : rc ≠ .ok) (hexit : r'.exit = some rc)
      (hfile : r'.file = none) : Tidies r r' [.fclose, .unlink]

variable {channel : List UInt8} {io : RecvIo} {r : FileRecv} {hdr : FilePktHdr}
  {extra : List UInt8}

theorem Tidies.of_same {r' r'' : FileRecv} {calls : List FileCall} (h : r'.Tidies r'' calls)
    (hexit : r'.exit = r.exit) (hstart : r'.gotStart = r.gotStart) (hfp : r'.fp = r.fp)
    (hfile : r'.file.isSome = r.file.isSome) : r.Tidies r'' calls := by
  cases h with
  | goesOn hexit' hstart' hfp' hfile' =>
    exact .goesOn (hexit'.trans hexit) (hstart'.trans hstart) (hfp'.trans hfp)
      (hfile'.trans hfile)
  | done hexit' hfile' => exact .done hexit' (hfile'.trans hfile)
  | fails hrc hexit' hfile' => exact .fails hrc hexit' hfile'

theorem Tidies.refl (r : FileRecv) : r.Tidies r [] := .goesOn rfl rfl rfl rfl

theorem io_ne_ok : BcStatus.io ≠ .ok := by decide

theorem tidies_finish : r.Tidies r.finish.1 r.finishCalls := by
  unfold finish finishCalls
  split_ifs
  · exact .fails io_ne_ok rfl rfl
  all_goals exact .done rfl rfl

theorem tidies_accept (data : List UInt8) :
    r.Tidies (r.accept io data).1 (r.acceptCalls io data) := by
  unfold accept acceptCalls
  split_ifs
  · exact .fails io_ne_ok rfl rfl
  · simp only
    split_ifs
    · exact tidies_finish.of_same rfl rfl rfl Option.isSome_map
    · exact .goesOn rfl rfl rfl Option.isSome_map

theorem tidies_onData : r.Tidies (r.onData io hdr extra).1 (r.dataCalls io hdr extra) := by
  unfold onData dataCalls
  split_ifs
  · exact .refl r
  · exact .refl r
  · exact .refl r
  · exact .refl r
  · exact tidies_accept _

theorem tidies_onEnd (h : r.gotEnd = false → r.v2Mode = true →
      ¬ (hdr.v2 = false ∨ extra.length ≠ 4 ∨ ByteLayout.ofLE extra ≠ r.transferId.toNat)) :
    r.Tidies (r.onEnd hdr extra).1 (r.endCalls hdr extra) := by
  unfold onEnd endCalls
  split_ifs with hgot
  · exact .refl r
  · have hfine := h (by simpa using hgot)
    unfold checkEnd checkEndCalls
    simp only
    split_ifs with hflag hid
    · exact absurd (hflag.2.imp id .inl) (hfine hflag.1)
    · exact absurd (.inr (.inr hid.2)) (hfine hid.1)
    · exact .goesOn rfl rfl rfl rfl
    · exact tidies_finish.of_same rfl rfl rfl rfl

/-- A refused END packet takes the path away, and the call returns. -/
theorem onEnd_refused (hgot : r.gotEnd = false) (hv2 : r.v2Mode = true)
    (hbad : hdr.v2 = false ∨ extra.length ≠ 4 ∨ ByteLayout.ofLE extra ≠ r.transferId.toNat) :
    r.endCalls hdr extra = [.unlink] ∧ (r.onEnd hdr extra).1.exit = some .io := by
  unfold endCalls onEnd checkEndCalls checkEnd
  simp only [hgot, hv2, Bool.false_eq_true, if_false, true_and]
  by_cases hflag : hdr.v2 = false ∨ extra.length ≠ 4
  · rw [if_pos hflag, if_pos hflag]
    exact ⟨rfl, rfl⟩
  · have hid := (or_assoc.mpr hbad).resolve_left hflag
    rw [if_neg hflag, if_neg hflag, if_pos hid, if_pos hid]
    exact ⟨rfl, rfl⟩

end FileRecv

/-- A receiver with its destination. -/
structure FileRecvRun where
  recv : FileRecv
  dest : DestFile
  deriving DecidableEq, Repr

namespace FileRecvRun

/-- Before anything is read. -/
def start : FileRecvRun := ⟨recvFileStart, ⟨false, 0, false⟩⟩

def step (channel : List UInt8) (s : FileRecvRun) (answer : RecvFileAnswer) : FileRecvRun :=
  ⟨s.recv.step channel answer, (s.recv.calls channel answer).foldl DestFile.call s.dest⟩

/-- A call that returned after opening the destination has closed the stream once, and
the file is left exactly where `BC_OK` was returned. -/
def CleanedUp (s : FileRecvRun) : Prop :=
  ∀ rc, s.recv.exit = some rc → s.dest.opened = true →
    s.dest.closes = 1 ∧ (s.dest.there = true ↔ rc = .ok)

/-- The stream is open while the call goes on. -/
structure Tidy (s : FileRecvRun) : Prop where
  file : s.recv.file.isSome = s.dest.there
  going : s.recv.exit = none →
    s.recv.fp = s.recv.gotStart ∧ s.dest = ⟨s.recv.gotStart, 0, s.recv.gotStart⟩
  ended : s.CleanedUp

variable {s : FileRecvRun} {r' : FileRecv} {calls : List FileCall}

theorem Tidy.tidies (h : s.Tidy) (hexit : s.recv.exit = none) (hstart : s.recv.gotStart = true)
    (htidies : s.recv.Tidies r' calls) : Tidy ⟨r', calls.foldl DestFile.call s.dest⟩ := by
  obtain ⟨hfp, hdest⟩ := h.going hexit
  have hfile := h.file
  rw [hdest, hstart] at hfile
  rw [hdest, hstart]
  rw [hstart] at hfp
  cases htidies with
  | goesOn hexit' hstart' hfp' hfile' =>
    refine ⟨hfile'.trans hfile, fun _ => ?_, fun rc hrc => ?_⟩
    · show r'.fp = r'.gotStart ∧ (⟨true, 0, true⟩ : DestFile) = ⟨r'.gotStart, 0, r'.gotStart⟩
      rw [hfp', hstart', hfp, hstart]
      exact ⟨rfl, rfl⟩
    · have hnone : r'.exit = none := hexit'.trans hexit
      rw [show r'.exit = some rc from hrc] at hnone
      cases hnone
  | done hexit' hfile' =>
    refine ⟨hfile'.trans hfile, fun hnone => ?_, fun rc hrc _ => ?_⟩
    · rw [show r'.exit = none from hnone] at hexit'
      cases hexit'
    · have hok : some rc = some .ok := hrc.symm.trans hexit'
      exact ⟨rfl, fun _ => Option.some.inj hok, fun _ => rfl⟩
  | fails hrc' hexit' hfile' =>
    refine ⟨by rw [hfile']; rfl, fun hnone => ?_, fun rc hrc _ => ?_⟩
    · rw [show r'.exit = none from hnone] at hexit'
      cases hexit'
    · have hsame : some rc = some _ := hrc.symm.trans hexit'
      have hnot : rc ≠ .ok := by
        rw [Option.some.inj hsame]
        exact hrc'
      exact ⟨rfl, fun hthere => absurd hthere Bool.false_ne_true, fun hok => absurd hok hnot⟩

/-- A call that returns before anything was opened. -/
theorem Tidy.returns (h : s.Tidy) (hexit : s.recv.exit = none) (hstart : s.recv.gotStart = false)
    (hfile : r'.file = s.recv.file) (hexit' : r'.exit ≠ none) : Tidy ⟨r', s.dest⟩ := by
  obtain ⟨-, hdest⟩ := h.going hexit
  refine ⟨by rw [hfile]; exact h.file, fun hnone => absurd hnone hexit', fun rc _ hopened => ?_⟩
  rw [hdest, hstart] at hopened
  cases hopened

variable {channel : List UInt8}

theorem Tidy.onStart (h : s.Tidy) (hexit : s.recv.exit = none) (io : RecvIo) (hdr : FilePktHdr)
    (extra : List UInt8) :
    Tidy ⟨(s.recv.onStart channel io hdr extra).1,
      (s.recv.startCalls channel io hdr extra).foldl DestFile.call s.dest⟩ := by
  unfold FileRecv.onStart FileRecv.startCalls
  by_cases hstart : s.recv.gotStart = true
  · rw [if_pos hstart, if_pos hstart]
    exact h
  · have hfresh : s.recv.gotStart = false := by simpa using hstart
    rw [if_neg hstart, if_neg hstart]
    cases parseStartMeta extra channel hdr.v2 s.recv.transferId with
    | mk rc transferId =>
      cases rc with
      | ok =>
        simp only
        split_ifs with hopen
        · exact h.returns hexit hfresh rfl (Option.some_ne_none _)
        · refine ⟨rfl, fun _ => ⟨rfl, rfl⟩, fun rc hrc => ?_⟩
          rw [show s.recv.exit = some rc from hrc] at hexit
          cases hexit
      | _ => exact ⟨h.file, h.going, h.ended⟩

theorem Tidy.step (h : s.Tidy) (answer : RecvFileAnswer) (hend : ¬ s.recv.RefusesEnd answer) :
    (s.step channel answer).Tidy := by
  unfold FileRecvRun.step FileRecv.step FileRecv.calls recvFileStep
  cases hexit : s.recv.exit with
  | some rc => exact h
  | none =>
    obtain ⟨hfp, hdest⟩ := h.going hexit
    cases answer with
    | timeout =>
      simp only [Option.map_some, Option.getD_some, recvFileTimeout]
      cases hstart : s.recv.gotStart with
      | false => exact h.returns hexit hstart rfl (Option.some_ne_none _)
      | true =>
        rw [hstart] at hfp
        simp only [Bool.true_eq_false, if_false, hfp, if_true]
        exact h.tidies hexit hstart (.fails FileRecv.io_ne_ok rfl rfl)
    | readError rc =>
      simp only [Option.map_some, Option.getD_some, recvFileError]
      cases hstart : s.recv.gotStart with
      | false =>
        rw [hstart] at hfp
        simp only [hfp, Bool.false_eq_true, if_false]
        exact h.returns hexit hstart rfl (Option.some_ne_none _)
      | true =>
        rw [hstart] at hfp
        simp only [hfp, if_true]
        exact h.tidies hexit hstart (.fails rc.2.1 rfl rfl)
    | read payload io =>
      simp only [Option.map_some, Option.getD_some, recvFilePacket]
      cases hparse : parseFilePacket payload with
      | none => exact h
      | some packet =>
        obtain ⟨hdr, extra⟩ := packet
        simp only
        split_ifs with htype hnot hdata hfin
        · exact h.onStart hexit io hdr extra
        · exact h
        · have hstart : s.recv.gotStart = true := by
            by_contra hno
            exact hnot (.inl (by simpa using hno))
          exact h.tidies hexit hstart FileRecv.tidies_onData
        · have hstart : s.recv.gotStart = true := by
            by_contra hno
            exact hnot (.inl (by simpa using hno))
          refine h.tidies hexit hstart (FileRecv.tidies_onEnd fun hgot hv2 hbad => hend ?_)
          simp only [FileRecv.RefusesEnd, hparse]
          exact ⟨hfin, hexit, hstart, hgot, hv2, hbad⟩
        · exact h

/-- An END packet that is refused leaves the stream open. -/
theorem Tidy.lost (h : s.Tidy) (answer : RecvFileAnswer) (hend : s.recv.RefusesEnd answer) :
    ¬ (s.step channel answer).CleanedUp := by
  cases answer with
  | timeout => exact absurd hend id
  | readError rc => exact absurd hend id
  | read payload io =>
    simp only [FileRecv.RefusesEnd] at hend
    cases hparse : parseFilePacket payload with
    | none =>
      rw [hparse] at hend
      exact absurd hend id
    | some packet =>
      obtain ⟨hdr, extra⟩ := packet
      rw [hparse] at hend
      obtain ⟨htype, hexit, hstart, hgot, hv2, hbad⟩ := hend
      obtain ⟨hfp, hdest⟩ := h.going hexit
      rw [hstart] at hfp hdest
      have hnotStart : ¬ hdr.type = bcFilePktStart := by
        rw [htype]
        decide
      have hnotData : ¬ hdr.type = bcFilePktData := by
        rw [htype]
        decide
      have hopen : ¬ (s.recv.gotStart = false ∨ s.recv.fp = false) := by
        rw [hstart, hfp]
        decide
      obtain ⟨hunlinks, hreturns⟩ := FileRecv.onEnd_refused hgot hv2 hbad
      have hcalls : s.recv.calls channel (.read payload io) = [.unlink] := by
        simp only [FileRecv.calls, hexit, hparse, if_neg hnotStart, if_neg hopen, if_neg hnotData,
          if_pos htype, hunlinks]
      have hreturned : (s.recv.step channel (.read payload io)).exit = some .io := by
        simp only [FileRecv.step, recvFileStep, hexit, recvFilePacket, hparse, if_neg hnotStart,
          if_neg hopen, if_neg hnotData, if_pos htype, Option.map_some, Option.getD_some, hreturns]
      intro hclean
      have hdestAfter : (s.step channel (.read payload io)).dest = ⟨true, 0, false⟩ := by
        show (s.recv.calls channel (.read payload io)).foldl DestFile.call s.dest = _
        rw [hcalls, hdest]
        rfl
      have hcloses := (hclean .io hreturned (by rw [hdestAfter])).1
      rw [hdestAfter] at hcloses
      cases hcloses

end FileRecvRun

/-- The receiver cleans up after itself exactly in the runs in which it refuses no END packet. -/
theorem recv_file_cleaned_up_iff (channel : List UInt8) (answers : List RecvFileAnswer) :
    Runs.Along (FileRecvRun.step channel) FileRecvRun.CleanedUp .start answers ↔
      Runs.Meets (FileRecvRun.step channel) (fun s answer => ¬ s.recv.RefusesEnd answer) .start
        answers := by
  have hstart : FileRecvRun.start.Tidy := by
    refine ⟨rfl, fun _ => ⟨rfl, rfl⟩, fun rc hrc => ?_⟩
    cases hrc
  exact Runs.along_iff_meets (FileRecvRun.step channel) (A := fun _ => True)
    (fun _ h => h.ended) (fun _ answer h _ hend => h.step answer hend)
    (fun _ answer h _ hend => h.lost answer (not_not.mp hend)) hstart (fun _ _ => trivial)

/-- An END packet of another transfer: the path is gone, and the stream is still open. -/
theorem refused_end_leaks :
    let s := Runs.run (FileRecvRun.step []) .start
      [.read oneByteFile.startPacket ⟨true, true⟩, lateEnd]
    s.recv.exit = some .io ∧ s.dest = ⟨true, 0, false⟩ ∧ ¬ s.CleanedUp := by
  have hrun : (Runs.run (FileRecvRun.step []) .start
      [.read oneByteFile.startPacket ⟨true, true⟩, lateEnd]).recv.exit = some .io ∧
      (Runs.run (FileRecvRun.step []) .start
        [.read oneByteFile.startPacket ⟨true, true⟩, lateEnd]).dest = ⟨true, 0, false⟩ := by
    decide
  refine ⟨hrun.1, hrun.2, fun hclean => ?_⟩
  have hcloses := (hclean .io hrun.1 (by rw [hrun.2])).1
  rw [hrun.2] at hcloses
  cases hcloses

end BoardComm
