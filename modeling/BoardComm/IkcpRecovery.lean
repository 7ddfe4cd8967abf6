import BoardComm.IkcpLink

/-!
# Recovery of a KCP conversation

Whatever the network lost, doubled and reordered so far, what was sent can still be
delivered: reads, calls of the clock and datagrams that arrive lead from every state to one
in which all messages were read.
-/
namespace BoardComm.Ikcp

open SelectiveRepeat

section Timers

/-- There is a time at which a timer is over and the session flushes. -/
theorem exists_flush (kcp : Ikcpcb) (ts : UInt32) : ∃ current tsFlush,
    ikcpUpdate kcp current = ikcpFlush (kcp.clocked current tsFlush) ∧
      0 ≤ itimediff current ts := by
  have hself : ∀ t, itimediff t t = 0 := fun t => Serial.diff_self _
  obtain ⟨tsFlush, ⟨-, hlow, hhigh⟩ | heq⟩ := ikcpUpdate_cases kcp ts
  · -- The next flush is a little later, and the timer is over by then.
    have hswap : itimediff kcp.tsFlush ts = -itimediff ts kcp.tsFlush :=
      Serial.diff_swap (by change _ < 2 * itimediff ts kcp.tsFlush; omega)
    obtain ⟨tsFlush, ⟨-, -, hneg⟩ | heq⟩ := ikcpUpdate_cases kcp kcp.tsFlush
    · rw [hself] at hneg
      exact absurd hneg (lt_irrefl _)
    · exact ⟨_, _, heq, by omega⟩
  · exact ⟨_, _, heq, (hself ts).ge⟩

/-- There is a time at which the session sends its first segment. -/
theorem exists_due {kcp : Ikcpcb} (hwork : kcp.sndBuf ≠ [] ∨ kcp.sndQueue ≠ [])
    (hopen : kcp.sndBuf = [] → 0 < (sendWindow kcp).toNat) : ∃ current tsFlush,
    ikcpUpdate kcp current = ikcpFlush (kcp.clocked current tsFlush) ∧
      Due (kcp.clocked current tsFlush) := by
  cases hbuf : kcp.sndBuf with
  | nil =>
    obtain ⟨current, tsFlush, heq, -⟩ := exists_flush kcp 0
    refine ⟨current, tsFlush, heq, ?_⟩
    have hqueue := hwork.resolve_left fun hne => hne hbuf
    simp only [Due, Ikcpcb.clocked, hbuf]
    exact ⟨hqueue, hopen hbuf⟩
  | cons seg segs =>
    obtain ⟨current, tsFlush, heq, htime⟩ := exists_flush kcp seg.resendts
    refine ⟨current, tsFlush, heq, ?_⟩
    simp only [Due, Ikcpcb.clocked, hbuf]
    exact .inr htime

/-- The session asks for the window that is closed when it is time. -/
theorem askSend_of_due {kcp : Ikcpcb} (hrmt : kcp.rmtWnd = 0) (hprobe : kcp.probeWait ≠ 0)
    (htime : itimediff kcp.current kcp.tsProbe ≥ 0) : (probeWindow kcp).askSend = true := by
  rw [probeWindow, if_pos hrmt, if_neg hprobe, if_pos htime]

/-- There is a time at which the session asks for the window of the other end. -/
theorem exists_ask {kcp : Ikcpcb} (hrmt : kcp.rmtWnd = 0) (hprobe : kcp.probeWait ≠ 0) :
    ∃ current tsFlush, ikcpUpdate kcp current = ikcpFlush (kcp.clocked current tsFlush) ∧
      (probeWindow (kcp.clocked current tsFlush)).askSend = true := by
  obtain ⟨current, tsFlush, heq, htime⟩ := exists_flush kcp kcp.tsProbe
  exact ⟨current, tsFlush, heq, askSend_of_due (by exact hrmt) hprobe htime⟩

/-- The first flush that finds the window closed starts the timer of the questions. -/
theorem probeWait_ne_zero {kcp : Ikcpcb} (hrmt : kcp.rmtWnd = 0) (hprobe : kcp.probeWait = 0) :
    (probeWindow kcp).probeWait ≠ 0 := by
  rw [probeWindow, if_pos hrmt, if_pos hprobe]
  exact (by decide : ikcpProbeInit ≠ 0)

end Timers

section Swap

/-- Whether the call gives a message to send. -/
def EndCall.isSend : EndCall → Bool
  | .send _ => true
  | _ => false

/-- A step that gives no message to send, and delivers a datagram in time. -/
def Link.QuietCall (l : Link) (call : EndCall) : Prop := l.FreshCall call ∧ call.isSend = false

def Link.Quiet (l : Link) : LinkStep → Prop
  | .near call => l.QuietCall call
  | .far call => l.swap.QuietCall call

def LinkStep.swap : LinkStep → LinkStep
  | .near call => .far call
  | .far call => .near call

theorem leads_swap {l l' : Link} (h : Runs.Leads linkStep Link.Quiet l l') :
    Runs.Leads linkStep Link.Quiet l.swap l'.swap := by
  have hstep : ∀ l step, linkStep (Link.swap l) (LinkStep.swap step) = (linkStep l step).swap := by
    rintro l (call | call) <;> rfl
  have hquiet : ∀ l step, Link.Quiet l step → l.swap.Quiet step.swap := by
    rintro l (call | call) h <;> exact h
  exact h.map hstep hquiet

end Swap

section Watching

/-- The reader gets a message whose size is known. -/
theorem endRecv_received {x : End} {n : ℕ} (hpeek : ikcpPeeksize x.kcp = some n) :
    (endRecv x n).received.length = x.received.length + 1 := by
  have hne : x.kcp.rcvQueue ≠ [] := by
    intro hempty
    rw [ikcpPeeksize, hempty] at hpeek
    cases hpeek
  rw [endRecv, ikcpRecv, if_neg hne, hpeek]
  simp only [if_neg (lt_irrefl n), List.length_append, List.length_singleton]

/-- Where there is no message to read, the window is open. -/
theorem Stands.window_open {x y : End} {gx gy : View} (h : Stands x y gx gy)
    (h' : Stands y x gy gx) (hpeek : ikcpPeeksize x.kcp = none) :
    (ikcpWndUnused x.kcp).toUInt16.toUInt32 ≠ 0 := by
  have hlength := h.queue_length_lt h' hpeek
  have hcount : x.kcp.nrcvQue.toNat = x.kcp.rcvQueue.length := h.orderly.receive.nrcvQue
  have hwnd := h.rcvWnd
  have hless : x.kcp.nrcvQue < x.kcp.rcvWnd := by
    rw [UInt32.lt_iff_toNat_lt]
    omega
  intro hzero
  have hnat := congrArg UInt32.toNat hzero
  rw [UInt16.toNat_toUInt32, UInt32.toNat_toUInt16, ikcpWndUnused, if_pos hless,
    UInt32.toNat_sub_of_le _ _ (UInt32.le_of_lt hless), UInt32.toNat_zero] at hnat
  omega

/-- An open window lets the session send. -/
theorem Stands.sendWindow_pos {x y : End} {gx gy : View} (h : Stands x y gx gy)
    (hrmt : x.kcp.rmtWnd ≠ 0) : 0 < (sendWindow x.kcp).toNat := by
  have hnocwnd : x.kcp.nocwnd ≠ 0 := by
    rw [show x.kcp.nocwnd = 1 from congrArg Settings.nocwnd h.settings]
    decide
  have hwnd : x.kcp.sndWnd.toNat = 256 :=
    congrArg (fun settings : Settings => settings.sndWnd.toNat) h.settings
  have hpos : x.kcp.rmtWnd.toNat ≠ 0 := fun hzero => hrmt (UInt32.toNat_inj.mp hzero)
  simp only [sendWindow, if_neg hnocwnd, imin]
  split_ifs <;> omega

/-- A session has nothing left to send exactly when all pieces were acknowledged. -/
theorem Stands.idle_iff {x y : End} {gx gy : View} (h : Stands x y gx gy) :
    x.kcp.sndBuf = [] ∧ x.kcp.sndQueue = [] ↔ gx.s.una = (pieces 1376 x.sent).length := by
  have hkept : List.Forall₂ (Kept x.kcp.conv (PieceOf 1376 x.sent)) gx.s.kept x.kcp.sndBuf :=
    h.orderly.send.kept
  have hcounted : gx.s.nxt + x.kcp.sndQueue.length = (pieces 1376 x.sent).length :=
    h.orderly.send.counted
  constructor
  · rintro ⟨hbuf, hqueue⟩
    rw [hbuf] at hkept
    rw [hqueue, List.length_nil] at hcounted
    rw [Sender.una, List.forall₂_nil_right_iff.mp hkept]
    exact hcounted
  · intro huna
    have hle := gx.s.una_le_nxt
    have hnone : gx.s.kept = [] := List.eq_nil_iff_forall_not_mem.mpr fun i hi => by
      have := Sender.una_le hi
      have := gx.s.below i hi
      omega
    rw [hnone] at hkept
    exact ⟨List.forall₂_nil_left_iff.mp hkept, List.eq_nil_of_length_eq_zero (by omega)⟩

/-- Where there is no message to read, all that was acknowledged was moved to the queue. -/
theorem Stands.una_le_next {x y : End} {gx gy : View} (h : Stands x y gx gy)
    (h' : Stands y x gy gx) (hpeek : ikcpPeeksize y.kcp = none) : gx.s.una ≤ gy.r.next := by
  by_contra hlt
  have hlength := h'.queue_length_lt h hpeek
  have hwnd := h'.rcvWnd
  rcases h'.told _ (h.agree.has_of_lt_una (Nat.not_le.mp hlt)) with hless | hearly
  · exact lt_irrefl _ hless
  · have hfull : y.kcp.rcvQueue.length = y.kcp.rcvWnd.toNat := h'.orderly.settled hearly
    omega

theorem Onward.una_le {kcp kcp' : Ikcpcb} {gx gx' : View} (h : Onward kcp kcp' gx gx') :
    gx.s.una ≤ gx'.s.una :=
  Sender.una_le_of_kept h.nxt h.kept

/-- A link with the views of its ends. -/
structure Watched where
  link : Link
  gx : View
  gy : View
  near : Stands link.near link.far gx gy
  far : Stands link.far link.near gy gx

namespace Watched

def swap (v : Watched) : Watched := ⟨v.link.swap, v.gy, v.gx, v.far, v.near⟩

/-- A link is found later: no message was given to it, and nothing that was acknowledged was
taken back. -/
structure Later (v v' : Watched) : Prop where
  leads : Runs.Leads linkStep Link.Quiet v.link v'.link
  nearSent : v'.link.near.sent = v.link.near.sent
  farSent : v'.link.far.sent = v.link.far.sent
  nearUna : v.gx.s.una ≤ v'.gx.s.una
  farUna : v.gy.s.una ≤ v'.gy.s.una

theorem Later.refl (v : Watched) : Later v v := ⟨.refl _ _, rfl, rfl, le_rfl, le_rfl⟩

theorem Later.trans {v v' v'' : Watched} (h : Later v v') (h' : Later v' v'') : Later v v'' :=
  ⟨h.leads.trans h'.leads, h'.nearSent.trans h.nearSent, h'.farSent.trans h.farSent,
    h.nearUna.trans h'.nearUna, h.farUna.trans h'.farUna⟩

theorem Later.swap {v v' : Watched} (h : Later v v') : Later v.swap v'.swap :=
  ⟨leads_swap h.leads, h.farSent, h.nearSent, h.farUna, h.nearUna⟩

/-- The near end takes a message from the session, if it is not too long. -/
theorem read (v : Watched) (len : ℕ) : ∃ v' : Watched, Later v v' ∧
    v'.link = ⟨endRecv v.link.near len, v.link.far⟩ ∧ v'.gy = v.gy ∧
    Onward v.link.near.kcp v'.link.near.kcp v.gx v'.gx := by
  obtain ⟨gx', h, h', honward⟩ := v.near.recv v.far len
  let v' : Watched := ⟨⟨endRecv v.link.near len, v.link.far⟩, gx', v.gy, h, h'⟩
  have hsent : (endRecv v.link.near len).sent = v.link.near.sent := by
    rw [endRecv]
    split <;> rfl
  refine ⟨v', ⟨?_, hsent, rfl, honward.una_le, le_rfl⟩, rfl, rfl, honward⟩
  exact .single (i := .near (.recv len)) ⟨trivial, rfl⟩ rfl

/-- The near end reads until there is no message left. -/
theorem drain (v : Watched) : ∃ v' : Watched, Later v v' ∧ v'.link.far = v.link.far ∧
    v'.gy = v.gy ∧ Onward v.link.near.kcp v'.link.near.kcp v.gx v'.gx ∧
    ikcpPeeksize v'.link.near.kcp = none := by
  induction hn : v.link.far.sent.length - v.link.near.received.length using
    Nat.strong_induction_on generalizing v with
  | _ n ih =>
    cases hpeek : ikcpPeeksize v.link.near.kcp with
    | none => exact ⟨v, .refl v, rfl, rfl, .refl _ _, hpeek⟩
    | some size =>
      obtain ⟨v₁, hlater, hlink, hgy, honward⟩ := v.read size
      have hmore := endRecv_received hpeek
      have hnear : v₁.link.near = endRecv v.link.near size := by rw [hlink]
      have hfar : v₁.link.far = v.link.far := by rw [hlink]
      have hle := v₁.near.received.length_le
      rw [← hnear] at hmore
      rw [hfar] at hle
      obtain ⟨v', hlater', hfar', hgy', honward', hnone⟩ := ih _ (by rw [hfar]; omega) v₁ rfl
      exact ⟨v', hlater.trans hlater', hfar'.trans hfar, hgy'.trans hgy, honward.trans honward',
        hnone⟩

/-- The near end flushes. -/
theorem flush (v : Watched) {current tsFlush : UInt32}
    (heq : ikcpUpdate v.link.near.kcp current =
      ikcpFlush (v.link.near.kcp.clocked current tsFlush)) :
    ∃ (v' : Watched) (rows : List (List IkcpSeg)), Later v v' ∧ v'.link.far = v.link.far ∧
      v'.gy = v.gy ∧ Sends v.link.near v'.link.near v.link.far v.gx v'.gx v.gy
        (v.link.near.kcp.clocked current tsFlush) rows := by
  obtain ⟨gx', rows, h, h', hsends⟩ := v.near.flush v.far heq
  let v' : Watched :=
    ⟨⟨endUpdate v.link.near v.link.far.numbered current, v.link.far⟩, gx', v.gy, h, h'⟩
  refine ⟨v', rows, ⟨?_, hsends.sent, rfl, hsends.una.ge, le_rfl⟩, rfl, rfl, hsends⟩
  exact .single (i := .near (.update current)) ⟨trivial, rfl⟩ rfl

/-- The far end gets a datagram that was just put out. -/
theorem carry (v : Watched) {row : List IkcpSeg} (hne : row ≠ [])
    (hput : ⟨rowBytes row, v.link.total⟩ ∈ v.link.near.output)
    (hcarries : ∀ seg ∈ row, Carries v.link.near.kcp.conv (PieceOf 1376 v.link.near.sent) 0
      v.gx.s.nxt v.gx.told v.gy.s.nxt seg) :
    ∃ v' : Watched, Later v v' ∧ v'.link.near = v.link.near ∧ v'.gx = v.gx ∧
      Onward v.link.far.kcp v'.link.far.kcp v.gy v'.gy ∧
      (∀ seg ∈ row, Heeded v'.link.far.kcp v'.gy (v.gy.r.next + 256) v.gx.s.nxt seg) ∧
      ∀ wnd, (∀ seg ∈ row, seg.wnd = wnd) → v'.link.far.kcp.rmtWnd = wnd.toUInt16.toUInt32 := by
  obtain ⟨i, hi⟩ := List.getElem?_of_mem hput
  obtain ⟨gy', h, h', honward, hheeded, hrmt⟩ := v.far.input v.near hne hcarries (by decide)
  let kcp' := (ikcpInput v.link.far.kcp (rowBytes row)).2
  let v' : Watched := ⟨⟨v.link.near, { v.link.far with kcp := kcp' }⟩, v.gx, gy', h', h⟩
  refine ⟨v', ⟨?_, rfl, rfl, le_rfl, honward.una_le⟩, rfl, rfl, honward, hheeded, hrmt⟩
  refine .single (i := .far (.deliver i)) ⟨fun d hd => ?_, rfl⟩ ?_
  · have hsame : d = ⟨rowBytes row, v.link.total⟩ := Option.some.inj (hd.symm.trans hi)
    rw [hsame]
    simp only [Link.total, Link.swap]
    omega
  · change (⟨v.link.near, endDeliver v.link.far v.link.near.output[i]?⟩ : Link) = v'.link
    rw [hi]
    rfl

/-- The near end flushed, and a segment of what it put out arrived at the far end. -/
structure Told (v v' : Watched) (seg : IkcpSeg) : Prop where
  later : Later v v'
  una : v'.gx.s.una = v.gx.s.una
  item : seg.cmd = ikcpCmdPush → v'.gx.s.una < v'.gx.s.nxt
  onward : Onward v.link.far.kcp v'.link.far.kcp v.gy v'.gy
  heeded : Heeded v'.link.far.kcp v'.gy (v.gy.r.next + 256) v'.gx.s.nxt seg
  rmtWnd : v'.link.far.kcp.rmtWnd = (ikcpWndUnused v.link.near.kcp).toUInt16.toUInt32

/-- What is urgent gets to the far end. -/
theorem tell (v : Watched) {P : IkcpSeg → Prop} {current tsFlush : UInt32}
    (heq : ikcpUpdate v.link.near.kcp current =
      ikcpFlush (v.link.near.kcp.clocked current tsFlush))
    (hurgent : ∀ s' segs, s'.una = v.gx.s.una →
      Urgent (v.link.near.kcp.clocked current tsFlush) s' segs → ∃ seg ∈ segs, P seg) :
    ∃ (v' : Watched) (seg : IkcpSeg), Told v v' seg ∧ P seg := by
  obtain ⟨v₁, rows, hlater, hfar, hgy, hsends⟩ := v.flush heq
  obtain ⟨seg, hseg, hP⟩ := hurgent _ _ hsends.una hsends.urgent
  obtain ⟨row, hrow, hmem⟩ := List.mem_flatten.mp hseg
  obtain ⟨hne, hcarries⟩ := hsends.carries row hrow
  have hput : ⟨rowBytes row, v₁.link.total⟩ ∈ v₁.link.near.output := by
    rw [hsends.output, Link.total, hfar]
    exact List.mem_append_right _ (List.mem_map_of_mem hrow)
  obtain ⟨v', hlater', hnear', hgx', honward, hheeded, hrmt⟩ := v₁.carry hne hput
    fun seg hseg => by
      rw [hgy]
      exact (hcarries seg hseg).1
  rw [hfar, hgy] at honward
  rw [hgy] at hheeded
  refine ⟨v', seg, ⟨hlater.trans hlater', ?_, fun hcmd => ?_, honward, ?_, ?_⟩, hP⟩
  · rw [hgx']
    exact hsends.una
  · obtain ⟨i, hi, -⟩ := (hcarries seg hmem).2.item hcmd
    rw [hgx']
    exact (Sender.una_le hi).trans_lt (v₁.gx.s.below i hi)
  · rw [hgx']
    exact hheeded seg hmem
  · exact hrmt _ fun seg hseg => (hcarries seg hseg).2.wnd

/-- The near end gets to know that the window of the far one is open, if this is what it
waits for. -/
theorem opened (v : Watched) :
    ∃ v' : Watched, Later v v' ∧ v'.link.near.kcp.rmtWnd ≠ 0 := by
  by_cases hrmt : v.link.near.kcp.rmtWnd = 0
  · -- The first flush starts the timer of the questions, the next one asks.
    obtain ⟨v₁, hlater₁, hrmt₁, hprobe⟩ : ∃ v₁ : Watched, Later v v₁ ∧
        v₁.link.near.kcp.rmtWnd = 0 ∧ v₁.link.near.kcp.probeWait ≠ 0 := by
      by_cases hprobe : v.link.near.kcp.probeWait = 0
      · obtain ⟨current, tsFlush, heq, -⟩ := exists_flush v.link.near.kcp 0
        obtain ⟨v₁, rows, hlater, -, -, hsends⟩ := v.flush heq
        refine ⟨v₁, hlater, hsends.rmtWnd.trans hrmt, ?_⟩
        rw [hsends.probeWait]
        exact probeWait_ne_zero hrmt hprobe
      · exact ⟨v, .refl v, hrmt, hprobe⟩
    obtain ⟨current, tsFlush, heq, hask⟩ := exists_ask hrmt₁ hprobe
    obtain ⟨v₂, seg, htold, hcmd⟩ := v₁.tell heq fun _ _ _ hurgent => hurgent.asks hask
    have htell := htold.heeded.wask hcmd
    -- The far end reads what there is, and answers.
    obtain ⟨v₃, hlater₃, -, -, honward, hnone⟩ := v₂.swap.drain
    obtain ⟨current', tsFlush', heq', -⟩ := exists_flush v₃.link.near.kcp 0
    obtain ⟨v₄, seg', htold', -⟩ := v₃.tell (P := fun _ => True) heq' fun _ segs _ hurgent => by
      obtain ⟨seg, hseg⟩ := List.exists_mem_of_ne_nil segs (hurgent.tells (honward.askTell htell))
      exact ⟨seg, hseg, trivial⟩
    refine ⟨v₄.swap, (hlater₁.trans htold.later).trans (hlater₃.trans htold'.later).swap, ?_⟩
    have hopen := v₃.near.window_open v₃.far hnone
    rw [← htold'.rmtWnd] at hopen
    exact hopen
  · exact ⟨v, .refl v, hrmt⟩

/-- As long as not everything is acknowledged, more can be acknowledged. -/
theorem progress (v : Watched) (hwork : v.gx.s.una < (pieces 1376 v.link.near.sent).length) :
    ∃ v' : Watched, Later v v' ∧ v.gx.s.una < v'.gx.s.una := by
  obtain ⟨v₁, hlater₁, hrmt⟩ := v.opened
  obtain ⟨v₂, hlater₂, hnear₂, hgx₂, -, hnone⟩ := v₁.swap.drain
  have hlater := hlater₁.trans hlater₂.swap
  rcases hlater.nearUna.lt_or_eq with hless | hsame
  · exact ⟨v₂.swap, hlater, hless⟩
  -- The first piece that is not acknowledged is sent, and the far end has room for it.
  have hidle := v₂.far.idle_iff.not.mpr (by
    rw [← hlater.nearSent] at hwork
    exact (hsame.symm.trans_lt hwork).ne)
  obtain ⟨current, tsFlush, heq, hdue⟩ : ∃ current tsFlush,
      ikcpUpdate v₂.link.far.kcp current = ikcpFlush (v₂.link.far.kcp.clocked current tsFlush) ∧
        Due (v₂.link.far.kcp.clocked current tsFlush) := by
    refine exists_due ?_ fun _ => v₂.far.sendWindow_pos ?_
    · by_contra hboth
      exact hidle (by simpa [not_or] using hboth)
    · rw [hnear₂]
      exact hrmt
  have hroom := v₂.far.una_le_next v₂.near hnone
  obtain ⟨v₃, seg, htold, hcmd, hsn⟩ :=
    v₂.swap.tell (P := fun seg => seg.cmd = ikcpCmdPush ∧ seg.sn = .ofNat v₂.gy.s.una) heq
      fun s' segs huna hurgent => by
        obtain ⟨seg, hseg, hcmd, hsn⟩ := hurgent.first hdue
        rw [huna] at hsn
        exact ⟨seg, hseg, hcmd, hsn⟩
  have huna₃ : v₃.gx.s.una = v₂.gy.s.una := htold.una
  have hnarrow := v₃.near.orderly.send.narrow
  have hack := htold.heeded.push hcmd _ hsn (hroom.trans_lt (by
    change _ < v₂.gx.r.next + 256
    omega)) (by omega)
  -- The far end acknowledges it.
  obtain ⟨current', tsFlush', heq', -⟩ := exists_flush v₃.link.far.kcp 0
  obtain ⟨v₄, seg', htold', hcmd', hsn'⟩ :=
    v₃.swap.tell (P := fun seg' => seg'.cmd = ikcpCmdAck ∧ seg'.sn = seg.sn) heq'
      fun _ segs _ hurgent => hurgent.acks _ hack
  have hgone := htold'.heeded.ack hcmd' _ (hsn'.trans hsn)
  refine ⟨v₄.swap, (hlater.trans htold.later).trans htold'.later.swap, ?_⟩
  have hle : v₃.gx.s.una ≤ v₄.gy.s.una := htold'.onward.una_le
  have hnxt : v₄.gy.s.nxt = v₃.gx.s.nxt := htold'.onward.nxt
  have hitem := htold.item hcmd
  change v.gx.s.una < v₄.gy.s.una
  have hstart : v.gx.s.una = v₂.gy.s.una := hsame
  rcases v₄.gy.s.una_mem_or with hmem | hend
  · refine lt_of_le_of_ne (by omega) fun hstill => hgone ?_
    rw [← hstart, hstill]
    exact hmem
  · omega

/-- Everything that the near end sent can be acknowledged. -/
theorem acked (v : Watched) : ∃ v' : Watched, Later v v' ∧
    v'.gx.s.una = (pieces 1376 v'.link.near.sent).length := by
  induction hn : (pieces 1376 v.link.near.sent).length - v.gx.s.una using
    Nat.strong_induction_on generalizing v with
  | _ n ih =>
    have hcounted := v.near.orderly.send.counted
    have hle := v.gx.s.una_le_nxt
    rcases (show v.gx.s.una ≤ (pieces 1376 v.link.near.sent).length by omega).lt_or_eq with
      hwork | hdone
    · obtain ⟨v₁, hlater, hless⟩ := v.progress hwork
      obtain ⟨v', hlater', hdone⟩ := ih _ (by rw [hlater.nearSent]; omega) v₁ rfl
      exact ⟨v', hlater.trans hlater', hdone⟩
    · exact ⟨v, .refl v, hdone⟩

/-- What is acknowledged stays so. -/
theorem Later.done {v v' : Watched} (h : Later v v')
    (hdone : v.gx.s.una = (pieces 1376 v.link.near.sent).length) :
    v'.gx.s.una = (pieces 1376 v'.link.near.sent).length := by
  have hcounted := v'.near.orderly.send.counted
  have hle := v'.gx.s.una_le_nxt
  have hmono := h.nearUna
  rw [h.nearSent] at hcounted ⊢
  omega

/-- Everything that both ends sent can be acknowledged and read. -/
theorem recovered (v : Watched) : ∃ v' : Watched, Later v v' ∧
    (v'.link.near.kcp.sndBuf = [] ∧ v'.link.near.kcp.sndQueue = []) ∧
    (v'.link.far.kcp.sndBuf = [] ∧ v'.link.far.kcp.sndQueue = []) ∧
    v'.link.far.received = v'.link.near.sent ∧ v'.link.near.received = v'.link.far.sent := by
  obtain ⟨v₁, hlater₁, hdone₁⟩ := v.acked
  obtain ⟨v₂, hlater₂, hdone₂⟩ := v₁.swap.acked
  obtain ⟨v₃, hlater₃, -, -, -, hnone₃⟩ := v₂.drain
  obtain ⟨v₄, hlater₄, hfar₄, -, -, hnone₄⟩ := v₃.swap.drain
  have hnear : v₄.gx.s.una = (pieces 1376 v₄.link.near.sent).length :=
    (hlater₂.trans hlater₃ |>.swap.trans hlater₄).done hdone₁
  have hfar : v₄.gy.s.una = (pieces 1376 v₄.link.far.sent).length :=
    (hlater₃.trans hlater₄.swap).done hdone₂
  have hidle := v₄.near.idle_iff.mpr hnear
  have hidle' := v₄.far.idle_iff.mpr hfar
  refine ⟨v₄, hlater₁.trans ((hlater₂.trans hlater₃).swap.trans hlater₄), hidle, hidle', ?_, ?_⟩
  · refine v₄.far.complete v₄.near hidle.1 hidle.2 ?_
    rw [hfar₄]
    exact hnone₃
  · exact v₄.near.complete v₄.far hidle'.1 hidle'.2 hnone₄

end Watched

end Watching

variable {conv : UInt32} {steps : List LinkStep}

/-- Whatever was lost, doubled and reordered, the sessions can go on, without any message
given to them, until each user has read all that the other one sent and nothing is left to
be sent again. -/
theorem link_recovers (hfresh : Runs.Meets linkStep Link.Fresh (openLink conv) steps) :
    let l := Runs.run linkStep (openLink conv) steps
    ∃ rest, Runs.Meets linkStep Link.Quiet l rest ∧
      (Runs.run linkStep l rest).far.received = l.near.sent ∧
      (Runs.run linkStep l rest).near.received = l.far.sent ∧
      ikcpWaitsnd (Runs.run linkStep l rest).near.kcp = 0 ∧
      ikcpWaitsnd (Runs.run linkStep l rest).far.kcp = 0 := by
  intro l
  obtain ⟨gx, gy, hnear, hfar⟩ := run_linked hfresh
  let v : Watched := ⟨l, gx, gy, hnear, hfar⟩
  obtain ⟨v', hlater, hidle, hidle', hread, hread'⟩ := v.recovered
  obtain ⟨rest, hmeets, hrun⟩ := hlater.leads
  have hwait : ∀ {x y : End} {gx gy : View}, Stands x y gx gy →
      x.kcp.sndBuf = [] ∧ x.kcp.sndQueue = [] → ikcpWaitsnd x.kcp = 0 := by
    rintro x y gx gy h ⟨hbuf, hqueue⟩
    have hcount : x.kcp.nsndBuf = .ofNat x.kcp.sndBuf.length := h.orderly.send.nsndBuf
    have hcount' : x.kcp.nsndQue = .ofNat x.kcp.sndQueue.length := h.orderly.send.nsndQue
    rw [ikcpWaitsnd, hcount, hcount', hbuf, hqueue]
    rfl
  refine ⟨rest, hmeets, ?_⟩
  rw [hrun]
  exact ⟨hread.trans hlater.nearSent, hread'.trans hlater.farSent, hwait v'.near hidle,
    hwait v'.far hidle'⟩

/-- The only datagram was lost. -/
theorem link_recovers_lost :
    let l := Runs.run linkStep (openLink 7) [.near (.send [1]), .near (.update 0)]
    ∃ rest, Runs.Meets linkStep Link.Quiet l rest ∧
      (Runs.run linkStep l rest).far.received = l.near.sent ∧
      (Runs.run linkStep l rest).near.received = l.far.sent ∧
      ikcpWaitsnd (Runs.run linkStep l rest).near.kcp = 0 ∧
      ikcpWaitsnd (Runs.run linkStep l rest).far.kcp = 0 :=
  link_recovers (by decide +kernel)

end BoardComm.Ikcp
