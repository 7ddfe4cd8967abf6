import BoardComm.IkcpSending

/-!
# What a KCP session puts out

`ikcp_flush` puts out the acknowledgements that wait, questions and answers about the
window, and the segments that are due, in datagrams that hold as many of them as fit.
-/
namespace BoardComm.Ikcp

open SelectiveRepeat

variable {kcp : Ikcpcb} {Q : ℕ → Piece → Prop} {s : Sender} {given : ℕ}

section Stages

/-- Probing the remote window concerns nothing else. -/
theorem probeWindow_eq (kcp : Ikcpcb) : ∃ wait ts ask,
    probeWindow kcp = { kcp with probeWait := wait, tsProbe := ts, askSend := ask } := by
  unfold probeWindow
  simp only
  split_ifs <;> exact ⟨_, _, _, rfl⟩

/-- The congestion window concerns nothing else. -/
theorem adjustCwnd_eq (kcp : Ikcpcb) (priorCwnd resent : UInt32) (change : ℕ) (lost : Bool) :
    ∃ ssthresh cwnd incr, adjustCwnd kcp priorCwnd resent change lost =
      { kcp with ssthresh := ssthresh, cwnd := cwnd, incr := incr } := by
  unfold adjustCwnd
  simp only
  split_ifs <;> exact ⟨_, _, _, rfl⟩

end Stages

/-- A segment that is put out: an item that is kept, an acknowledgement that was waiting,
or a question or an answer about the window. -/
structure PutOut (kcp : Ikcpcb) (Q : ℕ → Piece → Prop) (s : Sender) (seg : IkcpSeg) : Prop where
  sendable : Sendable kcp.conv seg
  una : seg.una = kcp.rcvNxt
  wnd : seg.wnd = ikcpWndUnused kcp
  item : seg.cmd = ikcpCmdPush → ∃ i ∈ s.kept, Shown Q i seg
  ack : seg.cmd = ikcpCmdAck → (seg.sn, seg.ts) ∈ kcp.acklist

/-- What stands for the acknowledgements of a session whose items fit its datagrams. -/
structure Fitting (kcp : Ikcpcb) (Q : ℕ → Piece → Prop) : Prop where
  fits : ∀ i p, Q i p → ikcpOverhead + p.2.length ≤ kcp.mtu.toNat
  overhead : ikcpOverhead ≤ kcp.mtu.toNat
  mtu : kcp.mtu.toNat < 2 ^ 31

/-- What is put out in front of the data: the acknowledgements, and the questions and answers
about the window. -/
structure Controls (kcp : Ikcpcb) (segs : List IkcpSeg) : Prop where
  shape : ∀ seg ∈ segs, seg.conv = kcp.conv ∧ seg.wnd = ikcpWndUnused kcp ∧ seg.una = kcp.rcvNxt ∧
    seg.data = [] ∧ (seg.cmd = ikcpCmdAck ∧ (seg.sn, seg.ts) ∈ kcp.acklist ∨
      seg.cmd = ikcpCmdWask ∨ seg.cmd = ikcpCmdWins)
  acks : ∀ ack ∈ kcp.acklist, ∃ seg ∈ segs, seg.cmd = ikcpCmdAck ∧ seg.sn = ack.1
  asks : (probeWindow kcp).askSend = true → ∃ seg ∈ segs, seg.cmd = ikcpCmdWask
  tells : kcp.askTell = true → segs ≠ []

/-- The first segment that is not acknowledged is to be sent, or the first of the queue if
there is none. -/
def Due (kcp : Ikcpcb) : Prop :=
  match kcp.sndBuf with
  | seg :: _ => seg.xmit = 0 ∨ itimediff kcp.current seg.resendts ≥ 0
  | [] => kcp.sndQueue ≠ [] ∧ 0 < (sendWindow kcp).toNat

/-- What is put out without fail. -/
structure Urgent (kcp : Ikcpcb) (s : Sender) (segs : List IkcpSeg) : Prop where
  acks : ∀ ack ∈ kcp.acklist, ∃ seg ∈ segs, seg.cmd = ikcpCmdAck ∧ seg.sn = ack.1
  asks : (probeWindow kcp).askSend = true → ∃ seg ∈ segs, seg.cmd = ikcpCmdWask
  tells : kcp.askTell = true → segs ≠ []
  first : Due kcp → ∃ seg ∈ segs, seg.cmd = ikcpCmdPush ∧ seg.sn = .ofNat s.una

/-- A session after it flushed: items were numbered, the acknowledgements were put out,
and what it receives is untouched. -/
structure Flushed (kcp kcp' : Ikcpcb) (output : List (List UInt8)) (Q : ℕ → Piece → Prop)
    (s' : Sender) (given : ℕ) : Prop where
  send : kcp'.sendSide.Shows kcp.conv Q s' given
  current : kcp'.sendSide.Current s'
  receiveSide : kcp'.receiveSide = kcp.receiveSide
  settings : kcp'.settings = kcp.settings
  rmtWnd : kcp'.rmtWnd = kcp.rmtWnd
  rxRto : kcp'.rxRto = kcp.rxRto
  acklist : kcp'.acklist = []
  updated : kcp'.updated = true
  probeWait : kcp'.probeWait = (probeWindow kcp).probeWait
  output : ∃ rows : List (List IkcpSeg), output = rows.map rowBytes ∧ (∀ row ∈ rows, row ≠ [] ∧
    (rowBytes row).length ≤ kcp.mtu.toNat ∧ ∀ seg ∈ row, PutOut kcp Q s' seg) ∧
    Urgent kcp s' rows.flatten

/-- What the acknowledgements, the questions and the answers do to the session. -/
theorem flushControl_eq (kcp : Ikcpcb) : ∃ wait ts, (flushControl kcp).1 =
    { kcp with
      acklist := [], probeWait := wait, tsProbe := ts, askSend := false, askTell := false } ∧
      wait = (probeWindow kcp).probeWait := by
  have hsame :
      (probeWindow { kcp with acklist := [] }).probeWait = (probeWindow kcp).probeWait := by
    unfold probeWindow
    simp only
    split_ifs <;> rfl
  obtain ⟨wait, ts, ask, hprobe⟩ := probeWindow_eq { kcp with acklist := [] }
  refine ⟨wait, ts, ?_, ?_⟩
  · simp only [flushControl, hprobe]
  · rw [← hsame, hprobe]

/-- What the first part of `ikcp_flush` writes. -/
theorem flushControl_holds (hmtu : ikcpOverhead ≤ kcp.mtu.toNat) :
    ∃ segs, (flushControl kcp).2.Holds kcp.mtu.toNat segs ∧ Controls kcp segs := by
  have hfits : ikcpOverhead + (ackSegment kcp).data.length ≤ kcp.mtu.toNat := hmtu
  obtain ⟨hloop, sn, ts, hseg⟩ := @ackLoop_holds kcp.mtu.toNat kcp.acklist (ackSegment kcp) {} []
    hfits (Flushing.holds_start kcp.mtu.toNat)
  let acks := kcp.acklist.map fun ack => { ackSegment kcp with sn := ack.1, ts := ack.2 }
  let asking (cmd : UInt32) : IkcpSeg := { ackSegment kcp with sn := sn, ts := ts, cmd := cmd }
  let probed := probeWindow { kcp with acklist := [] }
  have hask : probed.askSend = (probeWindow kcp).askSend := by
    simp only [probed, probeWindow]
    split_ifs <;> rfl
  have htell : probed.askTell = kcp.askTell := by
    obtain ⟨wait, ts, ask, hprobe⟩ := probeWindow_eq { kcp with acklist := [] }
    simp only [probed, hprobe]
  let questions := if probed.askSend = true then [asking ikcpCmdWask] else []
  let told := if probed.askTell = true then [asking ikcpCmdWins] else []
  have hquestions : ∀ seg ∈ questions, seg = asking ikcpCmdWask := by
    intro seg hmem
    simp only [questions] at hmem
    split_ifs at hmem
    · exact List.mem_singleton.mp hmem
    · cases hmem
  have htold : ∀ seg ∈ told, seg = asking ikcpCmdWins := by
    intro seg hmem
    simp only [told] at hmem
    split_ifs at hmem
    · exact List.mem_singleton.mp hmem
    · cases hmem
  refine ⟨acks ++ questions ++ told, ?_, ?_, ?_, ?_, ?_⟩
  · have hput : ∀ (f : Flushing) segs cmd, f.Holds kcp.mtu.toNat segs →
        (f.put kcp.mtu.toNat (asking cmd)).Holds kcp.mtu.toNat (segs ++ [asking cmd]) :=
      fun f segs cmd hf => hf.put hmtu
    rw [List.nil_append] at hloop
    simp only [flushControl, hseg, questions, told]
    split_ifs
    · exact hput _ _ _ (hput _ _ _ hloop)
    · rw [List.append_nil]
      exact hput _ _ _ hloop
    · rw [List.append_nil]
      exact hput _ _ _ hloop
    · rw [List.append_nil, List.append_nil]
      exact hloop
  · intro seg hmem
    rcases List.mem_append.mp hmem with hmem | hmem
    · rcases List.mem_append.mp hmem with hmem | hmem
      · obtain ⟨ack, hack, rfl⟩ := List.mem_map.mp hmem
        exact ⟨rfl, rfl, rfl, rfl, .inl ⟨rfl, hack⟩⟩
      · rw [hquestions seg hmem]
        exact ⟨rfl, rfl, rfl, rfl, .inr (.inl rfl)⟩
    · rw [htold seg hmem]
      exact ⟨rfl, rfl, rfl, rfl, .inr (.inr rfl)⟩
  · intro ack hack
    refine ⟨{ ackSegment kcp with sn := ack.1, ts := ack.2 }, ?_, rfl, rfl⟩
    exact List.mem_append_left _ (List.mem_append_left _ (List.mem_map_of_mem hack))
  · intro hasked
    refine ⟨asking ikcpCmdWask, List.mem_append_left _ (List.mem_append_right _ ?_), rfl⟩
    simp only [questions, hask, if_pos hasked]
    exact List.mem_singleton_self _
  · intro hasked
    refine List.append_ne_nil_of_right_ne_nil _ ?_
    simp only [told, htell, if_pos hasked]
    exact List.cons_ne_nil _ _

/-- Sending what is due changes neither what the session keeps nor what it receives. -/
theorem flushData_eq (kcp : Ikcpcb) (wnd priorCwnd : UInt32) (f : Flushing) :
    ∃ segs xmit state ssthresh cwnd incr, (flushData kcp wnd priorCwnd f).1 =
      { kcp with
        sndBuf := segs, xmit := xmit, state := state, ssthresh := ssthresh, cwnd := cwnd,
        incr := incr } ∧
      ∀ {conv Q is}, List.Forall₂ (Kept conv Q) is kcp.sndBuf →
        List.Forall₂ (Kept conv Q) is segs := by
  obtain ⟨ssthresh, cwnd, incr, hadjust⟩ := adjustCwnd_eq _ _ _ _ _
  exact ⟨_, _, _, _, _, _, hadjust, fun h => resendLoop_kept h _⟩

/-- What the second part of `ikcp_flush` puts out, behind what stands in the buffer. -/
theorem flushData_rows {wnd priorCwnd : UInt32} {f : Flushing} {before : List IkcpSeg}
    (hfits : ∀ seg ∈ kcp.sndBuf, ikcpOverhead + seg.data.length ≤ kcp.mtu.toNat)
    (hf : f.Holds kcp.mtu.toNat before) :
    ∃ (rows : List (List IkcpSeg)) (rtomin : UInt32),
      (flushData kcp wnd priorCwnd f).2 = rows.map rowBytes ∧
      rows.flatten =
        before ++ kcp.sndBuf.filterMap (sentSegment kcp wnd (flushResent kcp) rtomin) ∧
      ∀ row ∈ rows, row ≠ [] ∧ (rowBytes row).length ≤ kcp.mtu.toNat := by
  let rtomin := if kcp.nodelay = 0 then (kcp.rxRto >>> 3).toUInt32 else 0
  have hloop := @resendLoop_holds kcp kcp.mtu.toNat wnd (flushResent kcp) rtomin kcp.sndBuf before
    ⟨f, kcp.xmit, kcp.state, 0, false⟩ rfl hfits hf
  obtain ⟨hemit, hempty⟩ := hloop.emit
  obtain ⟨rows, hsegs, houtput, hrows⟩ := hemit.output_rows hempty
  exact ⟨rows, rtomin, houtput, hsegs, hrows⟩

/-- What is put out in front of the data can be put out. -/
theorem Controls.putOut {segs : List IkcpSeg} (h : Controls kcp segs) :
    ∀ seg ∈ segs, PutOut kcp Q s seg := by
  intro seg hseg
  have hother {cmd cmd' : UInt32} {p : Prop} (hcmd : seg.cmd = cmd) (hne : cmd ≠ cmd')
      (hcmd' : seg.cmd = cmd') : p :=
    absurd (hcmd.symm.trans hcmd') hne
  obtain ⟨hsconv, hswnd, hsuna, hsdata, hcmd⟩ := h.shape seg hseg
  have hlen : seg.data.length < 2 ^ 31 := by
    rw [hsdata]
    decide
  rcases hcmd with ⟨hcmd, hack⟩ | hcmd | hcmd
  · exact ⟨⟨hsconv, .inr (.inl hcmd), hlen⟩, hsuna, hswnd, hother hcmd (by decide), fun _ => hack⟩
  · exact ⟨⟨hsconv, .inr (.inr (.inl hcmd)), hlen⟩, hsuna, hswnd, hother hcmd (by decide),
      hother hcmd (by decide)⟩
  · exact ⟨⟨hsconv, .inr (.inr (.inr hcmd)), hlen⟩, hsuna, hswnd, hother hcmd (by decide),
      hother hcmd (by decide)⟩

/-- A segment whose time has come is sent. -/
theorem needsend_of_due (resent : UInt32) {seg : IkcpSeg}
    (h : seg.xmit = 0 ∨ itimediff kcp.current seg.resendts ≥ 0) :
    ∃ why, needsend kcp resent seg = some why := by
  unfold needsend
  by_cases hxmit : seg.xmit = 0
  · exact ⟨.first, if_pos hxmit⟩
  · exact ⟨.timeout, by rw [if_neg hxmit, if_pos (h.resolve_left hxmit)]⟩

/-- The segments that are numbered go behind the others. -/
theorem fillLoop_sndBuf (cwnd wnd : UInt32) (segs : List IkcpSeg) (kcp : Ikcpcb) :
    kcp.sndBuf <+: (fillLoop cwnd wnd segs kcp).sndBuf := by
  induction segs generalizing kcp with
  | nil => exact List.prefix_rfl
  | cons seg segs ih =>
    rw [fillLoop]
    split_ifs
    · refine List.IsPrefix.trans ?_ (ih _)
      exact List.prefix_append _ _
    · exact List.prefix_rfl

/-- When the window is filled, the first segment is due. -/
theorem fillLoop_due {wnd : UInt32} (h : kcp.sendSide.Shows kcp.conv Q s given)
    (hcur : kcp.sendSide.Current s) (hrmt : kcp.rmtWnd.toNat < 2 ^ 16) (hdue : Due kcp) :
    ∃ seg segs, (fillLoop (sendWindow kcp) wnd kcp.sndQueue kcp).sndBuf = seg :: segs ∧
      (seg.xmit = 0 ∨ itimediff kcp.current seg.resendts ≥ 0) := by
  unfold Due at hdue
  cases hbuf : kcp.sndBuf with
  | cons seg segs =>
    rw [hbuf] at hdue
    obtain ⟨rest, hrest⟩ := fillLoop_sndBuf (sendWindow kcp) wnd kcp.sndQueue kcp
    rw [hbuf] at hrest
    exact ⟨seg, segs ++ rest, hrest.symm, hdue⟩
  | nil =>
    rw [hbuf] at hdue
    obtain ⟨hqueue, hwindow⟩ := hdue
    obtain ⟨newseg, segs, hsegs⟩ := List.exists_cons_of_ne_nil hqueue
    have hkept : List.Forall₂ (Kept kcp.conv Q) s.kept kcp.sndBuf := h.kept
    have hnxt : kcp.sndNxt = .ofNat s.nxt := h.nxt
    have huna : kcp.sndUna = .ofNat s.una := hcur
    have hnone : s.una = s.nxt := by
      rw [hbuf] at hkept
      rw [Sender.una, List.forall₂_nil_right_iff.mp hkept]
      rfl
    have hsmall := (sendWindow_le kcp).trans_lt hrmt
    have hroom : itimediff kcp.sndNxt (kcp.sndUna + sendWindow kcp) < 0 := by
      rw [hnxt, huna, hnone, ofNat_add_toNat, itimediff_ofNat (by omega) (by omega)]
      omega
    rw [hsegs, fillLoop, if_pos hroom]
    obtain ⟨rest, hrest⟩ := fillLoop_sndBuf (sendWindow kcp) wnd segs _
    rw [← hrest, hbuf]
    exact ⟨_, rest, rfl, .inl rfl⟩

/-- The items that the window has room for are numbered, and what is due is put out. -/
theorem ikcpFlush_shows (hup : kcp.updated = true) (hfit : Fitting kcp Q)
    (hrmt : kcp.rmtWnd.toNat < 2 ^ 16) (h : kcp.sendSide.Shows kcp.conv Q s given)
    (hcur : kcp.sendSide.Current s) :
    ∃ n, Flushed kcp (ikcpFlush kcp).1 (ikcpFlush kcp).2 Q (Sender.number^[n] s) given := by
  have hmtu := hfit.mtu
  obtain ⟨wait, ts, hcontrol, hwait⟩ := flushControl_eq kcp
  let kcp₁ : Ikcpcb :=
    { kcp with
      acklist := [], probeWait := wait, tsProbe := ts, askSend := false, askTell := false }
  let wnd := ikcpWndUnused kcp
  let kcp₂ := fillLoop (sendWindow kcp₁) wnd kcp₁.sndQueue kcp₁
  have hflush : ikcpFlush kcp = flushData kcp₂ wnd kcp.cwnd (flushControl kcp).2 := by
    rw [ikcpFlush, if_neg (by simp [hup])]
    simp only [hcontrol]
    rfl
  have hfill : SendOnly kcp₁ kcp₂ := fillLoop_only _ _ _ _
  obtain ⟨n, hshows, hcurrent⟩ : ∃ n, kcp₂.sendSide.Shows kcp.conv Q (Sender.number^[n] s) given ∧
      kcp₂.sendSide.Current (Sender.number^[n] s) :=
    fillLoop_shows ((sendWindow_le kcp₁).trans_lt hrmt) h hcur
  obtain ⟨segs, xmit, state, ssthresh, cwnd, incr, hdata, hkept⟩ :=
    flushData_eq kcp₂ wnd kcp.cwnd (flushControl kcp).2
  -- Numbering items concerns the sending side only.
  have hconv : kcp₂.conv = kcp.conv := hfill.keeps Ikcpcb.conv fun _ => rfl
  have hmtu₂ : kcp₂.mtu = kcp.mtu := hfill.keeps Ikcpcb.mtu fun _ => rfl
  have hnxt : kcp₂.rcvNxt = kcp.rcvNxt := hfill.keeps Ikcpcb.rcvNxt fun _ => rfl
  have hreceive : kcp₂.receiveSide = kcp.receiveSide := hfill.keeps Ikcpcb.receiveSide fun _ => rfl
  have hsettings : kcp₂.settings = kcp.settings := hfill.keeps Ikcpcb.settings fun _ => rfl
  have hrmt₂ : kcp₂.rmtWnd = kcp.rmtWnd := hfill.keeps Ikcpcb.rmtWnd fun _ => rfl
  have hrto : kcp₂.rxRto = kcp.rxRto := hfill.keeps Ikcpcb.rxRto fun _ => rfl
  have hacklist : kcp₂.acklist = [] := hfill.keeps Ikcpcb.acklist fun _ => rfl
  have hprobe₂ : kcp₂.probeWait = wait := hfill.keeps Ikcpcb.probeWait fun _ => rfl
  have hup₂ : kcp₂.updated = true := (hfill.keeps Ikcpcb.updated fun _ => rfl).trans hup
  have hfit₂ : Fitting kcp₂ Q := by
    constructor
    all_goals rw [hmtu₂]
    · exact hfit.fits
    · exact hfit.overhead
    · exact hfit.mtu
  have hkept₂ : List.Forall₂ (Kept kcp.conv Q) (Sender.number^[n] s).kept kcp₂.sndBuf := hshows.kept
  obtain ⟨controls, hholds, hcontrols⟩ := flushControl_holds hfit.overhead
  have hfits : ∀ seg ∈ kcp₂.sndBuf, ikcpOverhead + seg.data.length ≤ kcp₂.mtu.toNat := by
    intro seg hseg
    obtain ⟨i, -, hshown⟩ := exists_item hkept₂ hseg
    exact hfit₂.fits i _ hshown.shown.2
  obtain ⟨rows, rtomin, houtput, hsegs, hrows⟩ := flushData_rows hfits (by rw [hmtu₂]; exact hholds)
  have hputs : ∀ seg ∈ kcp₂.sndBuf.filterMap (sentSegment kcp₂ wnd (flushResent kcp₂) rtomin),
      PutOut kcp Q (Sender.number^[n] s) seg := by
    intro seg' hmem
    obtain ⟨seg, hseg, hsent⟩ := List.mem_filterMap.mp hmem
    obtain ⟨i, hi, hkeep⟩ := exists_item hkept₂ hseg
    obtain ⟨hkeep', hswnd, hsuna⟩ := sentSegment_kept hkeep hsent
    have hlen := hfit.fits i _ hkeep'.shown.2
    exact ⟨⟨hkeep'.conv, .inl hkeep'.cmd, by simp only [IkcpSeg.piece] at hlen; omega⟩,
      hsuna.trans hnxt, hswnd, fun _ => ⟨i, hi, hkeep'.shown⟩,
      fun hcmd => absurd (hkeep'.cmd.symm.trans hcmd) (by decide)⟩
  have hurgent : Urgent kcp (Sender.number^[n] s) rows.flatten := by
    rw [hsegs]
    refine ⟨fun ack hack => ?_, fun hask => ?_, fun htell => ?_, fun hdue => ?_⟩
    · obtain ⟨seg, hseg, hack'⟩ := hcontrols.acks ack hack
      exact ⟨seg, List.mem_append_left _ hseg, hack'⟩
    · obtain ⟨seg, hseg, hcmd⟩ := hcontrols.asks hask
      exact ⟨seg, List.mem_append_left _ hseg, hcmd⟩
    · exact List.append_ne_nil_of_left_ne_nil (hcontrols.tells htell) _
    · obtain ⟨seg, segs, hbuf, htime⟩ : ∃ seg segs, kcp₂.sndBuf = seg :: segs ∧
          (seg.xmit = 0 ∨ itimediff kcp₁.current seg.resendts ≥ 0) :=
        fillLoop_due h hcur hrmt hdue
      have hcurrent₂ : kcp₂.current = kcp₁.current := hfill.keeps Ikcpcb.current fun _ => rfl
      obtain ⟨why, hwhy⟩ := needsend_of_due (flushResent kcp₂) (by rw [hcurrent₂]; exact htime)
      obtain ⟨seg', hsent⟩ : ∃ seg',
          sentSegment kcp₂ wnd (flushResent kcp₂) rtomin seg = some seg' :=
        ⟨_, by rw [sentSegment, hwhy, Option.map_some]⟩
      have hfirst := hkept₂
      rw [hbuf] at hfirst
      obtain ⟨i, is, hkeep, -, his⟩ := List.forall₂_cons_right_iff.mp hfirst
      have hi : i = (Sender.number^[n] s).una := by
        rw [Sender.una, his]
        rfl
      obtain ⟨hkeep', -, -⟩ := sentSegment_kept hkeep hsent
      refine ⟨seg', List.mem_append_right _ (List.mem_filterMap.mpr ⟨seg, ?_, hsent⟩), hkeep'.cmd,
        ?_⟩
      · rw [hbuf]
        exact List.mem_cons_self
      · rw [← hi]
        exact hkeep'.shown.1
  refine ⟨n, ?_⟩
  rw [hflush]
  constructor
  · rw [hdata]
    refine ⟨hshows.nxt, hkept hkept₂, hshows.queue, hshows.counted, ?_, hshows.nsndQue,
      hshows.narrow⟩
    have hlen : segs.length = kcp₂.sndBuf.length :=
      (hkept hkept₂).length_eq.symm.trans hkept₂.length_eq
    exact hshows.nsndBuf.trans (congrArg UInt32.ofNat hlen.symm)
  · rw [hdata]
    exact hcurrent
  · rw [hdata]
    exact hreceive
  · rw [hdata]
    exact hsettings
  · rw [hdata]
    exact hrmt₂
  · rw [hdata]
    exact hrto
  · rw [hdata]
    exact hacklist
  · rw [hdata]
    exact hup₂
  · rw [hdata]
    exact hprobe₂.trans hwait
  · refine ⟨rows, houtput, fun row hrow => ?_, hurgent⟩
    obtain ⟨hne, hlen⟩ := hrows row hrow
    rw [hmtu₂] at hlen
    refine ⟨hne, hlen, fun seg hseg => ?_⟩
    have hmem := List.mem_flatten.mpr ⟨row, hrow, hseg⟩
    rw [hsegs] at hmem
    exact (List.mem_append.mp hmem).elim (hcontrols.putOut seg) (hputs seg)

end BoardComm.Ikcp
