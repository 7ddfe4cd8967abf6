import BoardComm.IkcpSides

/-!
# What a KCP session sends

The segments in `snd_buf` are the items that a sender keeps. Acknowledgements take some
of them away; `ikcp_flush` numbers new ones and puts out those that are due.
-/
namespace BoardComm.Ikcp

open SelectiveRepeat

variable {kcp : Ikcpcb} {conv : UInt32} {Q : ℕ → Piece → Prop} {s : Sender} {given : ℕ}

section Kept

/-- The segment of an item that is kept. -/
structure Kept (conv : UInt32) (Q : ℕ → Piece → Prop) (i : ℕ) (seg : IkcpSeg) : Prop where
  shown : Shown Q i seg
  conv : seg.conv = conv
  cmd : seg.cmd = ikcpCmdPush

/-- The sending side shows a sender to which so many items were given, of which the last
wait in the queue. The window is far from half of the sequence space. -/
structure SendSide.Shows (side : SendSide) (conv : UInt32) (Q : ℕ → Piece → Prop) (s : Sender)
    (given : ℕ) : Prop where
  nxt : side.sndNxt = .ofNat s.nxt
  kept : List.Forall₂ (Kept conv Q) s.kept side.sndBuf
  queue : Numbered Q s.nxt side.sndQueue
  counted : s.nxt + side.sndQueue.length = given
  nsndBuf : side.nsndBuf = .ofNat side.sndBuf.length
  nsndQue : side.nsndQue = .ofNat side.sndQueue.length
  narrow : s.nxt ≤ s.una + 2 ^ 16

/-- `snd_una` is that of the sender, as it is after `ikcp_shrink_buf`. -/
def SendSide.Current (side : SendSide) (s : Sender) : Prop := side.sndUna = .ofNat s.una

theorem ikcpShrinkBuf_shows (h : kcp.sendSide.Shows conv Q s given) :
    (ikcpShrinkBuf kcp).sendSide.Shows conv Q s given ∧ (ikcpShrinkBuf kcp).sendSide.Current s := by
  refine ⟨⟨h.nxt, h.kept, h.queue, h.counted, h.nsndBuf, h.nsndQue, h.narrow⟩, ?_⟩
  have hkept : List.Forall₂ (Kept conv Q) s.kept kcp.sndBuf := h.kept
  have hnxt : kcp.sndNxt = .ofNat s.nxt := h.nxt
  rw [SendSide.Current, Sender.una]
  simp only [ikcpShrinkBuf, Ikcpcb.sendSide]
  cases hbuf : kcp.sndBuf with
  | nil =>
    rw [hbuf] at hkept
    rw [List.forall₂_nil_right_iff.mp hkept]
    exact hnxt
  | cons seg segs =>
    rw [hbuf] at hkept
    obtain ⟨i, is, hseg, -, hs⟩ := List.forall₂_cons_right_iff.mp hkept
    rw [hs]
    exact hseg.shown.1

/-- A cumulative acknowledgement takes away what stands in front of its count. -/
theorem parseUnaLoop_kept {u : ℕ} {is : List ℕ} {segs : List IkcpSeg} (hsorted : is.Pairwise (· < ·))
    (hnear : ∀ i ∈ is, i ≤ u + 2 ^ 31 ∧ u < i + 2 ^ 31)
    (h : List.Forall₂ (Kept conv Q) is segs) (hcount : kcp.nsndBuf = .ofNat segs.length) :
    ∃ segs', parseUnaLoop (.ofNat u) segs kcp =
        { kcp with sndBuf := segs', nsndBuf := .ofNat segs'.length } ∧
      List.Forall₂ (Kept conv Q) (is.filter fun i => ! decide (i < u)) segs' := by
  induction h generalizing kcp with
  | nil => exact ⟨[], by rw [parseUnaLoop, ← hcount], .nil⟩
  | @cons i seg is segs hseg hrest ih =>
    obtain ⟨hle, hlt⟩ := hnear i List.mem_cons_self
    have hbefore : itimediff (.ofNat u) seg.sn > 0 ↔ i < u := by
      rw [hseg.shown.1, itimediff_ofNat (by omega) hlt]
      omega
    rw [parseUnaLoop]
    by_cases hiu : i < u
    · rw [if_pos (hbefore.mpr hiu)]
      let kcp' : Ikcpcb := { kcp with nsndBuf := kcp.nsndBuf - 1 }
      have hless : kcp'.nsndBuf = .ofNat segs.length := by
        change kcp.nsndBuf - 1 = _
        rw [hcount, List.length_cons, ← ofNat_succ, UInt32.add_sub_cancel]
      obtain ⟨segs', heq, hforall⟩ :=
        ih hsorted.of_cons (fun j hj => hnear j (List.mem_cons_of_mem _ hj)) hless
      refine ⟨segs', heq, ?_⟩
      rw [List.filter_cons_of_neg (by simp [hiu])]
      exact hforall
    · rw [if_neg (mt hbefore.mp hiu)]
      refine ⟨seg :: segs, by rw [← hcount], ?_⟩
      have hall : (i :: is).filter (fun i => ! decide (i < u)) = i :: is := by
        rw [List.filter_eq_self]
        intro j hj
        rcases List.mem_cons.mp hj with rfl | hj
        · simp [hiu]
        · have := List.rel_of_pairwise_cons hsorted hj
          simp
          omega
      rw [hall]
      exact .cons hseg hrest

/-- What a cumulative acknowledgement takes away is in front of its count, which is not
far from it. -/
theorem ikcpParseUna_shows (h : kcp.sendSide.Shows conv Q s given) (una : UInt32) :
    ∃ p, (ikcpParseUna kcp una).sendSide.Shows conv Q (s.acknowledge p) given ∧
      ∀ i ∈ s.kept, p i = true → ∃ u, una = .ofNat u ∧ i < u ∧ u < i + 2 ^ 31 := by
  have hkept : List.Forall₂ (Kept conv Q) s.kept kcp.sndBuf := h.kept
  have hnarrow := h.narrow
  have hsides : ∀ (p : ℕ → Bool) (segs' : List IkcpSeg),
      List.Forall₂ (Kept conv Q) (s.acknowledge p).kept segs' →
      SendSide.Shows { kcp.sendSide with sndBuf := segs', nsndBuf := .ofNat segs'.length } conv Q
        (s.acknowledge p) given := by
    intro p segs' hforall
    refine ⟨h.nxt, hforall, h.queue, h.counted, rfl, h.nsndQue, ?_⟩
    exact hnarrow.trans (Nat.add_le_add_right (s.una_le_acknowledge p) _)
  by_cases hpos : 0 < itimediff una (.ofNat s.una)
  · obtain ⟨u, hle, hlt, rfl⟩ := exists_later hpos.le
    have hnear : ∀ i ∈ s.kept, i ≤ u + 2 ^ 31 ∧ u < i + 2 ^ 31 := by
      intro i hi
      have := Sender.una_le hi
      have := s.below i hi
      omega
    obtain ⟨segs', heq, hforall⟩ := parseUnaLoop_kept s.sorted hnear hkept h.nsndBuf
    refine ⟨fun i => decide (i < u), ?_, fun i hi hp => ⟨u, rfl, by simpa using hp, ?_⟩⟩
    · rw [ikcpParseUna, heq]
      exact hsides _ segs' hforall
    · exact (hnear i hi).2
  · -- Nothing is taken away, since the first segment stays.
    have hsame : ikcpParseUna kcp una = kcp := by
      unfold ikcpParseUna
      cases hbuf : kcp.sndBuf with
      | nil => rw [parseUnaLoop, ← hbuf]
      | cons seg segs =>
        rw [hbuf] at hkept
        obtain ⟨i, is, hseg, -, hs⟩ := List.forall₂_cons_right_iff.mp hkept
        have hfirst : seg.sn = .ofNat s.una := by
          rw [Sender.una, hs]
          exact hseg.shown.1
        rw [parseUnaLoop, hfirst, if_neg hpos, ← hbuf]
    refine ⟨fun _ => false, ?_, fun i _ hp => absurd hp (by simp)⟩
    rw [hsame]
    have hall : (s.acknowledge fun _ => false).kept = s.kept := by simp [Sender.acknowledge]
    refine ⟨h.nxt, by rw [hall]; exact h.kept, h.queue, h.counted, h.nsndBuf, h.nsndQue, ?_⟩
    exact hnarrow.trans (Nat.add_le_add_right (s.una_le_acknowledge _) _)

/-- An acknowledgement takes away the segment of its count, if it is kept. -/
theorem parseAckLoop_kept {k : ℕ} {is : List ℕ} {segs : List IkcpSeg} (hsorted : is.Pairwise (· < ·))
    (hnear : ∀ i ∈ is, i ≤ k + 2 ^ 31 ∧ k < i + 2 ^ 31)
    (h : List.Forall₂ (Kept conv Q) is segs) :
    (parseAckLoop (.ofNat k) segs = none ∧ k ∉ is) ∨
      ∃ segs', parseAckLoop (.ofNat k) segs = some segs' ∧ segs.length = segs'.length + 1 ∧
        List.Forall₂ (Kept conv Q) (is.filter fun i => ! decide (i = k)) segs' := by
  induction h with
  | nil => exact .inl ⟨rfl, by simp⟩
  | @cons i seg is segs hseg hrest ih =>
    obtain ⟨hle, hlt⟩ := hnear i List.mem_cons_self
    have hsame : UInt32.ofNat k = seg.sn ↔ k = i := by
      rw [hseg.shown.1]
      exact ofNat_inj (by omega) (by omega)
    have hbefore : itimediff (.ofNat k) seg.sn < 0 ↔ k < i := by
      rw [hseg.shown.1, itimediff_ofNat (by omega) hlt]
      omega
    have hafter := fun j (hj : j ∈ is) => List.rel_of_pairwise_cons hsorted hj
    rw [parseAckLoop]
    by_cases hki : k = i
    · rw [if_pos (hsame.mpr hki)]
      have hall : (i :: is).filter (fun j => ! decide (j = k)) = is := by
        rw [List.filter_cons_of_neg (by simp [hki]), List.filter_eq_self]
        intro j hj
        have := hafter j hj
        simp
        omega
      exact .inr ⟨segs, rfl, rfl, by rw [hall]; exact hrest⟩
    · rw [if_neg (mt hsame.mp hki)]
      by_cases hlt : k < i
      · rw [if_pos (hbefore.mpr hlt)]
        refine .inl ⟨rfl, fun hmem => ?_⟩
        rcases List.mem_cons.mp hmem with heq | hmem
        · exact hki heq
        · have := hafter k hmem
          omega
      · rw [if_neg (mt hbefore.mp hlt)]
        rcases ih hsorted.of_cons fun j hj => hnear j (List.mem_cons_of_mem _ hj) with
          ⟨hnone, hnot⟩ | ⟨segs', hsome, hlen, hforall⟩
        · refine .inl ⟨by rw [hnone]; rfl, fun hmem => ?_⟩
          exact (List.mem_cons.mp hmem).elim hki hnot
        · refine .inr ⟨seg :: segs', by rw [hsome]; rfl, by rw [List.length_cons, hlen]; rfl, ?_⟩
          rw [List.filter_cons_of_pos (by simp [Ne.symm hki])]
          exact .cons hseg hforall

/-- An acknowledgement takes away the item that has its number. -/
theorem ikcpParseAck_shows (h : kcp.sendSide.Shows conv Q s given) (hcur : kcp.sendSide.Current s)
    (sn : UInt32) :
    ∃ p, (ikcpParseAck kcp sn).sendSide.Shows conv Q (s.acknowledge p) given ∧
      ∀ i ∈ s.kept, p i = true ↔ sn = .ofNat i := by
  have hkept : List.Forall₂ (Kept conv Q) s.kept kcp.sndBuf := h.kept
  have hnarrow := h.narrow
  have hsame : kcp.sendSide.Shows conv Q (s.acknowledge fun _ => false) given := by
    have hall : (s.acknowledge fun _ => false).kept = s.kept := by simp [Sender.acknowledge]
    refine ⟨h.nxt, by rw [hall]; exact h.kept, h.queue, h.counted, h.nsndBuf, h.nsndQue, ?_⟩
    exact hnarrow.trans (Nat.add_le_add_right (s.una_le_acknowledge _) _)
  have hnxt : kcp.sndNxt = .ofNat s.nxt := h.nxt
  have huna : kcp.sndUna = .ofNat s.una := hcur
  have hbetween : ∀ i ∈ s.kept, s.una ≤ i ∧ i < s.nxt := fun i hi => ⟨Sender.una_le hi, s.below i hi⟩
  unfold ikcpParseAck
  by_cases hout : itimediff sn kcp.sndUna < 0 ∨ itimediff sn kcp.sndNxt ≥ 0
  · rw [if_pos hout]
    refine ⟨_, hsame, fun i hi => ⟨fun hp => absurd hp (by simp), ?_⟩⟩
    rintro rfl
    have := hbetween i hi
    rw [huna, hnxt, itimediff_ofNat (by omega) (by omega), itimediff_ofNat (by omega) (by omega)]
      at hout
    omega
  · rw [if_neg hout]
    rw [not_or, huna, not_lt] at hout
    obtain ⟨k, hle, hlt, rfl⟩ := exists_later hout.1
    have hnear : ∀ i ∈ s.kept, i ≤ k + 2 ^ 31 ∧ k < i + 2 ^ 31 := by
      intro i hi
      have := hbetween i hi
      omega
    have hnumber : ∀ i ∈ s.kept, UInt32.ofNat k = .ofNat i ↔ k = i := by
      intro i hi
      have := hnear i hi
      exact ofNat_inj (by omega) (by omega)
    rcases parseAckLoop_kept s.sorted hnear hkept with ⟨hnone, hnot⟩ | ⟨segs', hsome, hlen, hforall⟩
    · rw [hnone]
      refine ⟨_, hsame, fun i hi => ⟨fun hp => absurd hp (by simp), fun hsn => ?_⟩⟩
      rw [(hnumber i hi).mp hsn] at hnot
      exact absurd hi hnot
    · rw [hsome]
      refine ⟨fun i => decide (i = k), ⟨hnxt, hforall, h.queue, h.counted, ?_, h.nsndQue, ?_⟩, ?_⟩
      · have hcount : kcp.nsndBuf = .ofNat kcp.sndBuf.length := h.nsndBuf
        change kcp.nsndBuf - 1 = .ofNat segs'.length
        rw [hcount, hlen, ← ofNat_succ, UInt32.add_sub_cancel]
      · exact hnarrow.trans (Nat.add_le_add_right (s.una_le_acknowledge _) _)
      · intro i hi
        rw [decide_eq_true_eq, hnumber i hi]
        exact eq_comm

/-- Counting the segments that later ones have overtaken changes nothing of them. -/
theorem parseFastackLoop_kept {sn ts : UInt32} {is : List ℕ} {segs : List IkcpSeg}
    (h : List.Forall₂ (Kept conv Q) is segs) :
    List.Forall₂ (Kept conv Q) is (parseFastackLoop sn ts segs) := by
  induction h with
  | nil => exact .nil
  | cons hseg hrest ih =>
    rw [parseFastackLoop]
    split_ifs
    · exact .cons hseg hrest
    · exact .cons ⟨hseg.shown, hseg.conv, hseg.cmd⟩ ih
    · exact .cons hseg ih

theorem ikcpParseFastack_shows (h : kcp.sendSide.Shows conv Q s given) (hcur : kcp.sendSide.Current s)
    (sn ts : UInt32) :
    (ikcpParseFastack kcp sn ts).sendSide.Shows conv Q s given ∧
      (ikcpParseFastack kcp sn ts).sendSide.Current s := by
  unfold ikcpParseFastack
  split_ifs
  · exact ⟨h, hcur⟩
  · have hforall : List.Forall₂ (Kept conv Q) s.kept (parseFastackLoop sn ts kcp.sndBuf) :=
      parseFastackLoop_kept h.kept
    refine ⟨⟨h.nxt, hforall, h.queue, h.counted, ?_, h.nsndQue, h.narrow⟩, hcur⟩
    have hlen := hforall.length_eq.symm.trans h.kept.length_eq
    exact h.nsndBuf.trans (congrArg UInt32.ofNat hlen.symm)

end Kept

section Flush

theorem imin_le_right (a b : UInt32) : (imin a b).toNat ≤ b.toNat := by
  unfold imin
  split_ifs with hle
  · exact UInt32.le_iff_toNat_le.mp hle
  · exact le_rfl

theorem sendWindow_le (kcp : Ikcpcb) : (sendWindow kcp).toNat ≤ kcp.rmtWnd.toNat := by
  have hwnd := imin_le_right kcp.sndWnd kcp.rmtWnd
  unfold sendWindow
  simp only
  split_ifs
  · exact (imin_le_right _ _).trans hwnd
  · exact hwnd

theorem fillLoop_only (cwnd wnd : UInt32) (segs : List IkcpSeg) (kcp : Ikcpcb) :
    SendOnly kcp (fillLoop cwnd wnd segs kcp) := by
  induction segs generalizing kcp with
  | nil => rfl
  | cons seg segs ih =>
    rw [fillLoop]
    split_ifs
    · refine SendOnly.trans ?_ (ih _)
      rfl
    · rfl

/-- The segments that the window has room for are numbered and kept. -/
theorem fillLoop_shows {cwnd wnd : UInt32} {segs : List IkcpSeg} (hcwnd : cwnd.toNat < 2 ^ 16)
    (h : SendSide.Shows { kcp.sendSide with sndQueue := segs } kcp.conv Q s given)
    (hcur : kcp.sendSide.Current s) :
    ∃ n, (fillLoop cwnd wnd segs kcp).sendSide.Shows kcp.conv Q (Sender.number^[n] s) given ∧
      (fillLoop cwnd wnd segs kcp).sendSide.Current (Sender.number^[n] s) := by
  induction segs generalizing kcp s with
  | nil => exact ⟨0, h, hcur⟩
  | cons newseg segs ih =>
    have hnxt : kcp.sndNxt = .ofNat s.nxt := h.nxt
    have huna : kcp.sndUna = .ofNat s.una := hcur
    have hnarrow := h.narrow
    have hle := s.una_le_nxt
    rw [fillLoop]
    by_cases hroom : itimediff kcp.sndNxt (kcp.sndUna + cwnd) < 0
    · rw [if_pos hroom]
      rw [hnxt, huna, ofNat_add_toNat, itimediff_ofNat (by omega) (by omega)] at hroom
      obtain ⟨hpiece, hqueue⟩ := Numbered.cons.mp h.queue
      let seg : IkcpSeg := { newseg with
        conv := kcp.conv, cmd := ikcpCmdPush, wnd := wnd, ts := kcp.current, sn := kcp.sndNxt,
        una := kcp.rcvNxt, resendts := kcp.current, rto := kcp.rxRto.toUInt32, fastack := 0,
        xmit := 0 }
      let kcp' : Ikcpcb := { kcp with
        sndBuf := kcp.sndBuf ++ [seg], nsndQue := kcp.nsndQue - 1, nsndBuf := kcp.nsndBuf + 1,
        sndNxt := kcp.sndNxt + 1 }
      have hnumbered : SendSide.Shows { kcp'.sendSide with sndQueue := segs } kcp.conv Q s.number
          given := by
        refine ⟨?_, ?_, hqueue, ?_, ?_, ?_, ?_⟩
        · change kcp.sndNxt + 1 = _
          rw [hnxt, ofNat_succ]
          rfl
        · exact List.rel_append h.kept (.cons ⟨⟨hnxt, hpiece⟩, rfl, rfl⟩ .nil)
        · have hcounted : s.nxt + (segs.length + 1) = given := h.counted
          change s.nxt + 1 + segs.length = given
          omega
        · have hcount : kcp.nsndBuf = .ofNat kcp.sndBuf.length := h.nsndBuf
          change kcp.nsndBuf + 1 = .ofNat (kcp.sndBuf ++ [seg]).length
          rw [hcount, ofNat_succ, List.length_append, List.length_singleton]
        · have hcount : kcp.nsndQue = .ofNat (segs.length + 1) := h.nsndQue
          change kcp.nsndQue - 1 = .ofNat segs.length
          rw [hcount, ← ofNat_succ, UInt32.add_sub_cancel]
        · rw [Sender.number_nxt, Sender.una_number]
          omega
      have hcur' : kcp'.sendSide.Current s.number := by
        rw [SendSide.Current, Sender.una_number]
        exact huna
      obtain ⟨n, hshows, hcurrent⟩ := @ih kcp' s.number hnumbered hcur'
      exact ⟨n + 1, hshows, hcurrent⟩
    · rw [if_neg hroom]
      exact ⟨0, h, hcur⟩

/-- Sending a segment changes only when it is sent again, and by what it is told from
others in a datagram. -/
theorem resend_kept {i : ℕ} {seg : IkcpSeg} (wnd rtomin : UInt32) (r : Resending) (why : Sending)
    (h : Kept conv Q i seg) : Kept conv Q i (resend kcp wnd rtomin r seg why).2 := by
  cases why <;> exact ⟨h.shown, h.conv, h.cmd⟩

theorem resendLoop_kept {wnd resent rtomin : UInt32} {is : List ℕ} {segs : List IkcpSeg}
    (h : List.Forall₂ (Kept conv Q) is segs) (r : Resending) :
    List.Forall₂ (Kept conv Q) is (resendLoop kcp wnd resent rtomin segs r).2 := by
  induction h generalizing r with
  | nil => exact .nil
  | cons hseg hrest ih =>
    rw [resendLoop]
    cases needsend kcp resent _ with
    | none => exact .cons hseg (ih r)
    | some why => exact .cons (resend_kept wnd rtomin r why hseg) (ih _)

/-- A segment of `snd_buf` as it is put out, if it is due. -/
def sentSegment (kcp : Ikcpcb) (wnd resent rtomin : UInt32) (seg : IkcpSeg) : Option IkcpSeg :=
  (needsend kcp resent seg).map fun why =>
    { rescheduled kcp rtomin seg why with ts := kcp.current, wnd := wnd, una := kcp.rcvNxt }

/-- What is put out of a segment that is kept. -/
theorem sentSegment_kept {wnd resent rtomin : UInt32} {i : ℕ} {seg seg' : IkcpSeg}
    (h : Kept conv Q i seg) (hsent : sentSegment kcp wnd resent rtomin seg = some seg') :
    Kept conv Q i seg' ∧ seg'.wnd = wnd ∧ seg'.una = kcp.rcvNxt := by
  obtain ⟨why, -, rfl⟩ := Option.map_eq_some_iff.mp hsent
  cases why <;> exact ⟨⟨h.shown, h.conv, h.cmd⟩, rfl, rfl⟩

/-- The loop over `snd_buf` puts out the segments that are due. -/
theorem resendLoop_holds {mtu : ℕ} {wnd resent rtomin : UInt32} {segs before : List IkcpSeg}
    {r : Resending} (hmtu : kcp.mtu.toNat = mtu)
    (hfits : ∀ seg ∈ segs, ikcpOverhead + seg.data.length ≤ mtu) (hr : r.flushing.Holds mtu before) :
    (resendLoop kcp wnd resent rtomin segs r).1.flushing.Holds mtu
      (before ++ segs.filterMap (sentSegment kcp wnd resent rtomin)) := by
  subst hmtu
  induction segs generalizing r before with
  | nil =>
    rw [List.filterMap_nil, List.append_nil]
    exact hr
  | cons seg segs ih =>
    have hrest := fun seg' hmem => hfits seg' (List.mem_cons_of_mem seg hmem)
    rw [resendLoop]
    cases hneed : needsend kcp resent seg with
    | none =>
      rw [List.filterMap_cons_none (by rw [sentSegment, hneed]; rfl)]
      exact ih hrest hr
    | some why =>
      let seg' : IkcpSeg :=
        { rescheduled kcp rtomin seg why with ts := kcp.current, wnd := wnd, una := kcp.rcvNxt }
      have hlen : ikcpOverhead + seg'.data.length ≤ kcp.mtu.toNat := by
        have hseg := hfits seg List.mem_cons_self
        cases why <;> exact hseg
      have hput : (resend kcp wnd rtomin r seg why).1.flushing.Holds kcp.mtu.toNat
          (before ++ [seg']) := hr.put hlen
      rw [List.filterMap_cons_some (by rw [sentSegment, hneed]; rfl), List.append_cons]
      exact ih hrest hput

/-- The loop over the acknowledgements puts out each of them. The segment keeps the last. -/
theorem ackLoop_holds {mtu : ℕ} {acks : List (UInt32 × UInt32)} {seg : IkcpSeg} {f : Flushing}
    {before : List IkcpSeg} (hmtu : ikcpOverhead + seg.data.length ≤ mtu)
    (hf : f.Holds mtu before) :
    (ackLoop mtu acks seg f).2.Holds mtu
        (before ++ acks.map fun ack => { seg with sn := ack.1, ts := ack.2 }) ∧
      ∃ sn ts, (ackLoop mtu acks seg f).1 = { seg with sn := sn, ts := ts } := by
  induction acks generalizing seg f before with
  | nil =>
    rw [List.map_nil, List.append_nil]
    exact ⟨hf, seg.sn, seg.ts, rfl⟩
  | cons ack acks ih =>
    obtain ⟨sn, ts⟩ := ack
    let seg' : IkcpSeg := { seg with sn := sn, ts := ts }
    have hput : (f.put mtu seg').Holds mtu (before ++ [seg']) := hf.put hmtu
    have hmtu' : ikcpOverhead + seg'.data.length ≤ mtu := hmtu
    obtain ⟨hholds, sn', ts', hseg⟩ := ih hmtu' hput
    rw [ackLoop, List.map_cons, List.append_cons]
    exact ⟨hholds, sn', ts', hseg⟩

end Flush

end BoardComm.Ikcp
