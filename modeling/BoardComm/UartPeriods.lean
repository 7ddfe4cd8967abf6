import BoardComm.UartReopen

/-!
# What a reopened device is sent

A device is written between an open and the next close. The frames that wait when
it is lost are written to the next one, from the offset where the last write ended,
and that may be inside a frame.
-/
namespace BoardComm

open SendQueue (Link writeAll)
open SendQueue.Link (Room)

/-- One open device: what waited when it was opened, and the bytes written since. -/
structure UartPeriod where
  waiting : List UInt8
  bytes : List UInt8
  deriving DecidableEq, Repr

/-- A transport with its history: the frames passed to `uart_send`, those with bytes
in the send buffer since it was last empty, and the periods. A period goes on until
the device is closed. -/
structure UartRun where
  transport : UartImpl
  frames : List (List UInt8)
  buffered : List (List UInt8)
  ended : List UartPeriod
  current : List UartPeriod
  deriving DecidableEq, Repr

/-- A call on the transport. -/
inductive UartCall
  | send (frame : List UInt8) (io : IoAnswers)
  | flush (io : IoAnswers)
  | scheduleReopen
  | tryReopen (answer : Option ℕ) (watch : Bool)
  deriving DecidableEq, Repr

namespace UartRun

/-- What was written to the device goes to the periods that are open. -/
def wrote (r : UartRun) (impl : UartImpl) : UartRun :=
  let bytes := impl.link.written.drop r.transport.link.written.length
  let current := r.current.map fun p => { p with bytes := p.bytes ++ bytes }
  if impl.opened = true then { r with transport := impl, current := current }
  else { r with transport := impl, ended := r.ended ++ current, current := [] }

/-- A frame of which bytes came into the buffer is one of those there. -/
def buffers (r : UartRun) (impl : UartImpl) (frame : List UInt8) : List (List UInt8) :=
  if impl.link.stored = r.transport.link.stored then r.buffered
  else if r.transport.link.off < r.transport.link.stored.length then r.buffered ++ [frame]
  else [frame]

def step (r : UartRun) : UartCall → UartRun
  | .send frame io =>
    let impl := (uartSend io r.transport frame).2
    { r.wrote impl with frames := r.frames ++ [frame], buffered := r.buffers impl frame }
  | .flush io => r.wrote (uartFlushSend io r.transport).2
  | .scheduleReopen => r.wrote (uartScheduleReopen r.transport)
  | .tryReopen answer watch =>
    let impl := (uartTryReopen answer watch r.transport).2
    let r := r.wrote impl
    if impl.opened = true then { r with current := r.current ++ [⟨impl.link.pending, []⟩] } else r

/-- The bytes are those of whole frames. -/
def Whole (frames : List (List UInt8)) (bytes : List UInt8) : Prop :=
  ∃ fs : List (List UInt8), (∀ f ∈ fs, f ∈ frames) ∧ bytes = fs.flatten

/-- The period begins with whole frames, and its bytes are those of whole frames
except that the last may be incomplete. -/
structure Aligned (frames : List (List UInt8)) (p : UartPeriod) : Prop where
  waiting : Whole frames p.waiting
  bytes : ∃ whole, Whole frames whole ∧ p.bytes <+: whole

/-- Every device so far was sent frames from their beginning. -/
def OnBoundaries (r : UartRun) : Prop := ∀ p ∈ r.ended ++ r.current, Aligned r.frames p

/-- What waits in the buffer are its last frames, none of them written in part. -/
def BetweenFrames (r : UartRun) : Prop :=
  ∃ fs, fs <:+ r.buffered ∧ r.transport.link.pending = fs.flatten

/-- The call does not open the device inside a frame, gives no part of a frame up,
and copies nothing behind the buffer. -/
def Keeps (r : UartRun) : UartCall → Prop
  | .send frame io => r.transport.opened = true → ¬ DirectionStuck r.transport io →
      Room bcUartSendCap io.alloc io.writes r.transport.link frame
  | .tryReopen (some _) _ => r.BetweenFrames
  | _ => True

section Bytes

variable {frames : List (List UInt8)} {bytes taken : List UInt8}

theorem Whole.nil : Whole frames [] := ⟨[], by simp, rfl⟩

theorem Whole.append (h : Whole frames bytes) (htaken : taken = [] ∨ taken ∈ frames) :
    Whole frames (bytes ++ taken) := by
  obtain ⟨fs, hfs, rfl⟩ := h
  rcases htaken with rfl | hmem
  · exact ⟨fs, hfs, by rw [List.append_nil]⟩
  · refine ⟨fs ++ [taken], ?_, by rw [List.flatten_append, List.flatten_singleton]⟩
    intro f hf
    rcases List.mem_append.mp hf with hf | hf
    · exact hfs f hf
    · exact List.mem_singleton.mp hf ▸ hmem

theorem Whole.mono {frames' : List (List UInt8)} (h : Whole frames bytes)
    (hsub : frames ⊆ frames') : Whole frames' bytes := by
  obtain ⟨fs, hfs, rfl⟩ := h
  exact ⟨fs, fun f hf => hsub (hfs f hf), rfl⟩

theorem Aligned.mono {frames' : List (List UInt8)} {p : UartPeriod} (h : Aligned frames p)
    (hsub : frames ⊆ frames') : Aligned frames' p := by
  obtain ⟨whole, hwhole, hle⟩ := h.bytes
  exact ⟨h.waiting.mono hsub, whole, hwhole.mono hsub, hle⟩

end Bytes

/-- A call writes bytes, which together with what waits behind them are those that
waited before and perhaps one frame. What waits is lost with the device at most. -/
def Passes (frames : List (List UInt8)) (l : Link) (impl : UartImpl) : Prop :=
  ∃ bytes rest taken, impl.link.written = l.written ++ bytes ∧
    (taken = [] ∨ taken ∈ frames) ∧ bytes ++ rest = l.pending ++ taken ∧
    (impl.opened = true → impl.link.pending = rest)

section Calls

variable {frames : List (List UInt8)} {impl impl' : UartImpl} {io : IoAnswers}

theorem Passes.unchanged (hlink : impl'.link = impl.link) : Passes frames impl.link impl' :=
  ⟨[], impl.link.pending, [], by simp [hlink], .inl rfl, by simp, fun _ => by rw [hlink]⟩

theorem passes_of_sends {frame : List UInt8} (h : UartSends io impl frame impl')
    (hoff : impl.link.off ≤ impl.link.stored.length) (hmem : frame ∈ frames)
    (hfit : frame.length ≤ bcUartSendCap)
    (hroom : impl.opened = true → ¬ DirectionStuck impl io →
      Room bcUartSendCap io.alloc io.writes impl.link frame) :
    Passes frames impl.link impl' ∧ impl'.link.off ≤ impl'.link.stored.length := by
  have happ := SendQueue.writeAll_append io.writes frame
  cases h with
  | closed => exact ⟨.unchanged rfl, hoff⟩
  | full => exact ⟨.unchanged rfl, hoff⟩
  | stuck => exact ⟨.unchanged rfl, hoff⟩
  | behind hopen hwaits hqueue =>
    obtain ⟨hwritten, hpending, hoff'⟩ := queue_pending hoff hqueue
    exact ⟨⟨[], impl.link.pending ++ frame, frame, by simp [hwritten], .inr hmem, rfl,
      fun _ => hpending⟩, hoff'⟩
  | sent hidle hexit =>
    rw [(SendQueue.writeAll_done_iff _ _).mp hexit, List.append_nil] at happ
    refine ⟨⟨frame, [], frame, ?_, .inr hmem, by simp [idle_pending hidle], fun _ => ?_⟩, ?_⟩
    · simp [Link.write, happ]
    · rw [link_txDisable]
      exact idle_pending hidle
    · rw [link_txDisable]
      exact hoff
  | waits hopen hidle hexit hqueue =>
    have hbehind : (impl.link.write io.writes frame).2.off ≤
      (impl.link.write io.writes frame).2.stored.length := hoff
    obtain ⟨hwritten, hpending, hoff'⟩ := queue_pending hbehind hqueue
    refine ⟨⟨_, (writeAll io.writes frame).rest, frame, hwritten, .inr hmem, ?_, fun _ => ?_⟩,
      hoff'⟩
    · rw [happ, idle_pending hidle, List.nil_append]
    · rw [hpending]
      exact congrArg (· ++ (writeAll io.writes frame).rest) (idle_pending hidle)
  | refused hopen hfd hgpio hidle hexit hqueue =>
    -- Without a buffer for the rest nothing has been written.
    have hnone : (writeAll io.writes frame).written = [] := by
      by_contra hw
      have hfound := hroom hopen (fun hstuck => hstuck.2 hgpio)
      rw [Room, if_neg hidle] at hfound
      have hneed : impl.link.stored.length - impl.link.off +
          (writeAll io.writes frame).rest.length ≤ bcUartSendCap := by
        have hrest := Link.length_rest_le io.writes frame
        omega
      rw [Link.queue_eq, if_pos ⟨hneed, hfound hexit hw⟩] at hqueue
      cases hqueue
    refine ⟨⟨[], impl.link.pending, [], ?_, .inl rfl, by simp, fun _ => rfl⟩, hoff⟩
    simp [Link.write, hnone]
  | lost hidle hexit =>
    refine ⟨⟨(writeAll io.writes frame).written, (writeAll io.writes frame).rest, frame, ?_,
      .inr hmem, ?_, fun hopen => ?_⟩, ?_⟩
    · rw [link_scheduleReopen]
      rfl
    · rw [happ, idle_pending hidle, List.nil_append]
    · rw [opened_scheduleReopen] at hopen
      cases hopen
    · rw [link_scheduleReopen]
      exact hoff

theorem passes_of_flushes (h : UartFlushes io impl impl')
    (hoff : impl.link.off ≤ impl.link.stored.length) :
    Passes frames impl.link impl' ∧ impl'.link.off ≤ impl'.link.stored.length := by
  obtain ⟨bytes, hwritten, hpending, hoff', -⟩ := flush_pending io.writes hoff
  have hpasses : ∀ impl' : UartImpl, impl'.link = (impl.link.flush io.writes).2 →
      Passes frames impl.link impl' ∧ impl'.link.off ≤ impl'.link.stored.length := by
    intro impl' hlink
    rw [hlink]
    exact ⟨⟨bytes, _, [], by rw [hlink, hwritten], .inl rfl, by rw [hpending, List.append_nil],
      fun _ => by rw [hlink]⟩, hoff'⟩
  cases h with
  | closed => exact ⟨.unchanged rfl, hoff⟩
  | stuck => exact ⟨.unchanged rfl, hoff⟩
  | done => exact hpasses _ (by simp)
  | waits => exact hpasses _ rfl
  | lost => exact hpasses _ (by simp)

end Calls

/-- Frames and lengths as the transport gets them. -/
def CallOk : UartCall → Prop
  | .send frame _ => 1 ≤ frame.length ∧ frame.length ≤ bcMaxFrameLen
  | _ => True

/-- What is written next goes on with whole frames. -/
structure Inv (r : UartRun) : Prop where
  ended : ∀ p ∈ r.ended, Aligned r.frames p
  current : ∀ p ∈ r.current, Whole r.frames p.waiting ∧
    Whole r.frames (p.bytes ++ r.transport.link.pending)
  buffered : r.buffered ⊆ r.frames
  off_le : r.transport.link.off ≤ r.transport.link.stored.length

theorem Inv.onBoundaries {r : UartRun} (h : r.Inv) : r.OnBoundaries := by
  intro p hp
  rcases List.mem_append.mp hp with hp | hp
  · exact h.ended p hp
  · obtain ⟨hwaiting, hwhole⟩ := h.current p hp
    exact ⟨hwaiting, _, hwhole, List.prefix_append _ _⟩

/-- A call that passes bytes on leaves the periods aligned. -/
theorem Inv.wrote {r : UartRun} (h : r.Inv) {frames buffered : List (List UInt8)}
    {impl : UartImpl} (hsub : r.frames ⊆ frames) (hbuffered : buffered ⊆ frames)
    (hpasses : Passes frames r.transport.link impl)
    (hoff : impl.link.off ≤ impl.link.stored.length) :
    Inv { r.wrote impl with frames := frames, buffered := buffered } := by
  obtain ⟨bytes, rest, taken, hwritten, htaken, happ, hrest⟩ := hpasses
  have hbytes : impl.link.written.drop r.transport.link.written.length = bytes := by
    rw [hwritten, List.drop_left]
  have hwhole : ∀ p ∈ r.current,
      Whole frames p.waiting ∧ Whole frames (p.bytes ++ bytes ++ rest) := by
    intro p hp
    obtain ⟨hwaiting, hbefore⟩ := h.current p hp
    refine ⟨hwaiting.mono hsub, ?_⟩
    rw [List.append_assoc, happ, ← List.append_assoc]
    exact (hbefore.mono hsub).append htaken
  have hended : ∀ p ∈ r.ended, Aligned frames p := fun p hp => (h.ended p hp).mono hsub
  unfold UartRun.wrote
  rw [hbytes]
  simp only
  split_ifs with hopen
  · refine ⟨hended, ?_, hbuffered, hoff⟩
    intro p hp
    obtain ⟨q, hq, rfl⟩ := List.mem_map.mp hp
    rw [show (UartRun.transport _) = impl from rfl, hrest hopen]
    exact hwhole q hq
  · refine ⟨?_, by simp, hbuffered, hoff⟩
    intro p hp
    rcases List.mem_append.mp hp with hp | hp
    · exact hended p hp
    · obtain ⟨q, hq, rfl⟩ := List.mem_map.mp hp
      obtain ⟨hwaiting, hall⟩ := hwhole q hq
      exact ⟨hwaiting, _, hall, List.prefix_append _ _⟩

/-- A call after which no frame was passed. -/
theorem Inv.wrote_same {r : UartRun} (h : r.Inv) {impl : UartImpl}
    (hpasses : Passes r.frames r.transport.link impl)
    (hoff : impl.link.off ≤ impl.link.stored.length) : Inv (r.wrote impl) := by
  have hwrote := h.wrote (List.Subset.refl _) h.buffered hpasses hoff
  unfold UartRun.wrote at hwrote ⊢
  split_ifs at hwrote ⊢
  · exact hwrote
  · exact hwrote

theorem link_tryReopen (answer : Option ℕ) (watch : Bool) (impl : UartImpl) :
    (uartTryReopen answer watch impl).2.link = impl.link := by
  cases answer with
  | none => exact link_scheduleReopen _
  | some fd => rfl

theorem Inv.step {r : UartRun} (h : r.Inv) (call : UartCall) (hok : CallOk call)
    (hkeeps : r.Keeps call) : Inv (r.step call) := by
  cases call with
  | send frame io =>
    have hfit : frame.length ≤ bcUartSendCap := hok.2.trans (by decide)
    have hmem : frame ∈ r.frames ++ [frame] := by simp
    obtain ⟨hpasses, hoff⟩ :=
      passes_of_sends (uartSends r.transport io frame) h.off_le hmem hfit hkeeps
    refine h.wrote (List.subset_append_left _ _) ?_ hpasses hoff
    unfold buffers
    split_ifs
    · exact List.Subset.trans h.buffered (List.subset_append_left _ _)
    · exact List.append_subset.mpr ⟨List.Subset.trans h.buffered (List.subset_append_left _ _),
        List.subset_append_right _ _⟩
    · exact List.subset_append_right _ _
  | flush io =>
    obtain ⟨hpasses, hoff⟩ := passes_of_flushes (uartFlushes r.transport io) h.off_le
    exact h.wrote_same hpasses hoff
  | scheduleReopen =>
    have hlink := link_scheduleReopen r.transport
    exact h.wrote_same (.unchanged hlink) (hlink ▸ h.off_le)
  | tryReopen answer watch =>
    have hlink := link_tryReopen answer watch r.transport
    have hwrote := h.wrote_same (.unchanged hlink) (hlink ▸ h.off_le)
    simp only [UartRun.step]
    split_ifs with hopen
    · cases answer with
      | none => cases hopen
      | some fd =>
        obtain ⟨fs, hfs, hpending⟩ := hkeeps
        have hwhole : Whole r.frames r.transport.link.pending :=
          ⟨fs, fun f hf => h.buffered (hfs.subset hf), hpending⟩
        refine ⟨hwrote.ended, ?_, hwrote.buffered, hwrote.off_le⟩
        intro p hp
        rcases List.mem_append.mp hp with hp | hp
        · exact hwrote.current p hp
        · cases List.mem_singleton.mp hp
          exact ⟨hwhole, hwhole⟩
    · exact hwrote

end UartRun

/-- The histories of a device that has just been opened. -/
def uartRunStart (impl : UartImpl) : UartRun := ⟨impl, [], [], [], [⟨[], []⟩]⟩

/-- In a run whose calls open the device between frames only and leave no frame in
part, every device is sent frames from their beginning. -/
theorem uart_periods_onBoundaries (impl : UartImpl) (calls : List UartCall)
    (hfresh : UartFresh impl) (hok : ∀ call ∈ calls, UartRun.CallOk call)
    (hkeeps : Runs.Meets UartRun.step UartRun.Keeps (uartRunStart impl) calls) :
    Runs.Along UartRun.step UartRun.OnBoundaries (uartRunStart impl) calls := by
  obtain ⟨-, -, hstored, hoff, -, -⟩ := hfresh
  have hstart : (uartRunStart impl).Inv := by
    refine ⟨by simp [uartRunStart], ?_, by simp [uartRunStart], ?_⟩
    · intro p hp
      cases List.mem_singleton.mp hp
      refine ⟨.nil, ?_⟩
      show UartRun.Whole [] ([] ++ impl.link.stored.drop impl.link.off)
      rw [hstored, List.drop_nil]
      exact .nil
    · show impl.link.off ≤ impl.link.stored.length
      rw [hoff]
      exact Nat.zero_le _
  intro pre hpre
  exact (Runs.along_of_meets UartRun.step (fun r call h hc hk => h.step call hc hk) hstart hok
    hkeeps pre hpre).onBoundaries

/-- A frame that was not begun before the device is lost. -/
def wholeFrameCalls : List UartCall :=
  [.send [1, 2] ioBlocked, .scheduleReopen, .tryReopen (some 6) true,
    .flush ⟨[.wrote 2], true, true, true⟩]

theorem uart_periods_onBoundaries_whole :
    Runs.Along UartRun.step UartRun.OnBoundaries (uartRunStart uartIdle) wholeFrameCalls := by
  apply uart_periods_onBoundaries uartIdle wholeFrameCalls uartFresh_idle
  · intro call hcall
    fin_cases hcall
    · exact ⟨by decide, by decide⟩
    all_goals trivial
  · unfold wholeFrameCalls
    simp only [Runs.meets_cons]
    refine ⟨fun _ _ => ?_, trivial, ⟨[[1, 2]], ?_, ?_⟩, trivial, Runs.meets_nil _⟩
    · rw [Room, if_neg (by decide)]
      exact fun _ _ => .inr rfl
    · exact List.suffix_rfl
    · decide

/-- A frame of which the first byte has been written when the device is lost. -/
def brokenFrameCalls : List UartCall :=
  [.send [1, 2] ⟨[.wrote 1, .eagain], true, true, true⟩, .scheduleReopen,
    .tryReopen (some 6) true, .flush ⟨[.wrote 1], true, true, true⟩]

/-- The next device is sent the rest of it. -/
theorem reopened_inside_frame :
    UartFresh uartIdle ∧ (∀ call ∈ brokenFrameCalls, UartRun.CallOk call) ∧
      ¬ Runs.Along UartRun.step UartRun.OnBoundaries (uartRunStart uartIdle) brokenFrameCalls := by
  refine ⟨uartFresh_idle, ?_, fun h => ?_⟩
  · intro call hcall
    fin_cases hcall
    · exact ⟨by decide, by decide⟩
    all_goals trivial
  have hlast := h brokenFrameCalls List.prefix_rfl
  have hperiods : (Runs.run UartRun.step (uartRunStart uartIdle) brokenFrameCalls).current =
      [⟨[2], [2]⟩] := by decide
  have hframes : (Runs.run UartRun.step (uartRunStart uartIdle) brokenFrameCalls).frames =
      [[1, 2]] := by decide
  obtain ⟨whole, ⟨fs, hfs, rfl⟩, hle⟩ := (hlast ⟨[2], [2]⟩ (by simp [hperiods])).bytes
  rw [hframes] at hfs
  cases fs with
  | nil => simp at hle
  | cons f fs =>
    rw [List.mem_singleton.mp (hfs f (by simp))] at hle
    simp at hle

end BoardComm
