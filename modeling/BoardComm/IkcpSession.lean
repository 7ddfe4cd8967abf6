import BoardComm.IkcpFlush
import BoardComm.IkcpInput
import BoardComm.IkcpMessages
import BoardComm.Runs

/-!
# A KCP session and the network

A session takes any datagrams, in any order and with any contents, between the calls of
its user. Its lists stay in order, its counters agree with them, and what it puts out is
read by any session of the same conversation.
-/
namespace BoardComm.Ikcp

open SelectiveRepeat

variable {kcp : Ikcpcb} {Q R : ℕ → Piece → Prop} {s : Sender} {r : Receiver}
  {given taken : ℕ}

section Calls

/-- The session with its clock set. -/
def Ikcpcb.clocked (kcp : Ikcpcb) (current tsFlush : UInt32) : Ikcpcb :=
  { kcp with current := current, updated := true, tsFlush := tsFlush }

/-- The clock concerns nothing else. -/
theorem Orderly.clock (h : Orderly kcp Q R s given r taken) (current tsFlush : UInt32) :
    Orderly (kcp.clocked current tsFlush) Q R s given r taken :=
  ⟨h.send, h.current, h.receive, h.settled, h.rcvWnd, h.rmtWnd, h.minrto, ⟨h.rto.min, h.rto.max⟩⟩

theorem Flushed.orderly {kcp' : Ikcpcb} {output : List (List UInt8)} {s' : Sender}
    (hf : Flushed kcp kcp' output Q s' given) (h : Orderly kcp Q R s given r taken) :
    Orderly kcp' Q R s' given r taken := by
  have hmin : kcp'.rxMinrto = kcp.rxMinrto := congrArg Settings.rxMinrto hf.settings
  refine h.sending hf.send hf.current hf.receiveSide hf.settings ?_ ⟨?_, ?_⟩
  · rw [hf.rmtWnd]
    exact h.rmtWnd
  · rw [hmin, hf.rxRto]
    exact h.rto.min
  · rw [hf.rxRto]
    exact h.rto.max

/-- `ikcp_update` sets the clock, and flushes unless the next flush is up to ten seconds
ahead. -/
theorem ikcpUpdate_cases (kcp : Ikcpcb) (current : UInt32) : ∃ tsFlush,
    ikcpUpdate kcp current = (kcp.clocked current tsFlush, []) ∧
        -10000 ≤ itimediff current kcp.tsFlush ∧ itimediff current kcp.tsFlush < 0 ∨
      ikcpUpdate kcp current = ikcpFlush (kcp.clocked current tsFlush) := by
  cases hup : kcp.updated with
  | false =>
    have hself : itimediff current current = 0 := Serial.diff_self _
    simp only [ikcpUpdate, hup, if_true, hself]
    exact ⟨_, .inr rfl⟩
  | true =>
    by_cases hlate : (itimediff current kcp.tsFlush ≥ 10000 ∨
        itimediff current kcp.tsFlush < -10000) ∨ itimediff current kcp.tsFlush ≥ 0
    · simp only [ikcpUpdate, hup, Bool.true_eq_false, if_false, if_pos hlate]
      split_ifs <;> exact ⟨_, .inr rfl⟩
    · have hnear : ¬ (itimediff current kcp.tsFlush ≥ 10000 ∨
          itimediff current kcp.tsFlush < -10000) := fun hfar => hlate (.inl hfar)
      refine ⟨kcp.tsFlush, .inl ⟨?_, by omega, by omega⟩⟩
      simp only [ikcpUpdate, hup, Bool.true_eq_false, if_false, if_neg hlate, if_neg hnear]
      rfl

/-- What a flush at a time does. -/
theorem ikcpFlush_orderly (current tsFlush : UInt32) (hfit : Fitting kcp Q)
    (h : Orderly kcp Q R s given r taken) :
    ∃ n, Flushed (kcp.clocked current tsFlush) (ikcpFlush (kcp.clocked current tsFlush)).1
      (ikcpFlush (kcp.clocked current tsFlush)).2 Q (Sender.number^[n] s) given := by
  have hclock := h.clock current tsFlush
  exact ikcpFlush_shows rfl ⟨hfit.fits, hfit.overhead, hfit.mtu⟩ hclock.rmtWnd hclock.send
    hclock.current

/-- The queue grows by the pieces of a message. What is known of the pieces may become
more. -/
theorem ikcpSend_orderly {Q' : ℕ → Piece → Prop} {buffer : List UInt8} (hQ : ∀ i p, Q i p → Q' i p)
    (hnew : pieceCount kcp.mss.toNat buffer.length < 128 → Numbered Q' given
      (pieceLoop kcp.mss.toNat (pieceCount kcp.mss.toNat buffer.length) buffer))
    (h : Orderly kcp Q R s given r taken) :
    ikcpSend kcp buffer = (-2, kcp) ∨
      ∃ kcp', ikcpSend kcp buffer = ((buffer.length : ℤ), kcp') ∧
        Orderly kcp' Q' R s (given + pieceCount kcp.mss.toNat buffer.length) r taken ∧
        pieceCount kcp.mss.toNat buffer.length < 128 ∧
        kcp'.settings = kcp.settings ∧ kcp'.acklist = kcp.acklist ∧ kcp'.updated = kcp.updated := by
  replace h := h.imp hQ fun _ _ => id
  have hcount : kcp.nsndQue = .ofNat kcp.sndQueue.length := h.send.nsndQue
  have hcounted : s.nxt + kcp.sndQueue.length = given := h.send.counted
  unfold ikcpSend
  simp only
  split_ifs with hmany
  · exact .inl rfl
  · let count := pieceCount kcp.mss.toNat buffer.length
    let kcp' : Ikcpcb := { kcp with
      sndQueue := kcp.sndQueue ++ pieceLoop kcp.mss.toNat count buffer
      nsndQue := kcp.nsndQue + .ofNat count }
    have hshows : kcp'.sendSide.Shows kcp'.conv Q' s (given + count) := by
      refine ⟨h.send.nxt, h.send.kept, h.send.queue.append ?_, ?_, h.send.nsndBuf, ?_, h.send.narrow⟩
      · rw [h.send.counted]
        exact hnew (Nat.not_le.mp hmany)
      · change s.nxt + (kcp.sndQueue ++ pieceLoop kcp.mss.toNat count buffer).length = given + count
        rw [List.length_append, pieceLoop_length, ← Nat.add_assoc, hcounted]
      · change kcp.nsndQue + .ofNat count =
          .ofNat (kcp.sndQueue ++ pieceLoop kcp.mss.toNat count buffer).length
        rw [hcount, List.length_append, pieceLoop_length, UInt32.ofNat_add]
    exact .inr ⟨kcp', rfl, ⟨hshows, h.current, h.receive, h.settled, h.rcvWnd, h.rmtWnd, h.minrto,
      ⟨h.rto.min, h.rto.max⟩⟩, Nat.not_le.mp hmany, rfl, rfl, rfl⟩

/-- The reader takes a message or nothing. -/
theorem ikcpRecv_orderly (len : ℕ) (h : Orderly kcp Q R s given r taken) :
    (∃ rc, ikcpRecv kcp len = (.error rc, kcp)) ∨
      ∃ r' kcp', ikcpRecv kcp len = (.ok (dataOf (messageOf kcp.rcvQueue)), kcp') ∧
        (ikcpPeeksize kcp).isSome ∧
        Orderly kcp' Q R s given r' (taken + (messageOf kcp.rcvQueue).length) ∧
        (∀ i, r'.Has i ↔ r.Has i) ∧ r.next ≤ r'.next ∧ kcp'.settings = kcp.settings ∧
        kcp'.sendSide = kcp.sendSide ∧ kcp'.acklist = kcp.acklist ∧ kcp'.updated = kcp.updated ∧
        (kcp.askTell = true → kcp'.askTell = true) := by
  rcases ikcpRecv_cases kcp len with herr | ⟨-, hpeek, ask, htell, heq⟩
  · exact .inl herr
  · right
    obtain ⟨r', hshows, hsettled, hhas, hmono⟩ := takeMessage_shows h.receive h.rcvWnd
    rw [moveReady_eq] at heq
    refine ⟨r', _, heq, hpeek, ?_, hhas, hmono, rfl, rfl, rfl, rfl, htell⟩
    exact ⟨h.send, h.current, hshows, hsettled, h.rcvWnd, h.rmtWnd, h.minrto,
      ⟨h.rto.min, h.rto.max⟩⟩

end Calls

section Opening

/-- A session as it is opened. -/
def openSession (conv : UInt32) (nodelay interval resend nc sndwnd rcvwnd : Int32) : Ikcpcb :=
  ikcpWndsize (ikcpNodelay (ikcpCreate conv) nodelay interval resend nc) sndwnd rcvwnd

/-- The session that `udp_kcp_open` opens. -/
def kcpSession (conv : UInt32) : Ikcpcb := openSession conv 1 10 2 1 256 256

theorem imax_toNat (a b : UInt32) : (imax a b).toNat = max a.toNat b.toNat := by
  unfold imax
  split_ifs with hle
  · exact (max_eq_left (UInt32.le_iff_toNat_le.mp hle)).symm
  · exact (max_eq_right (Nat.le_of_not_le (mt UInt32.le_iff_toNat_le.mpr hle))).symm

/-- Nothing is numbered and nothing is received. -/
def startSender : Sender := ⟨0, [], .nil, by simp⟩

def startReceiver : Receiver := ⟨0, [], .nil, by simp⟩

theorem ikcpNodelay_eq (kcp : Ikcpcb) (nodelay interval resend nc : Int32) :
    ∃ nd mr iv fr nw, ikcpNodelay kcp nodelay interval resend nc =
      { kcp with nodelay := nd, rxMinrto := mr, interval := iv, fastresend := fr, nocwnd := nw } ∧
      (mr = kcp.rxMinrto ∨ mr = ikcpRtoNdl.toInt32 ∨ mr = ikcpRtoMin.toInt32) := by
  unfold ikcpNodelay
  simp only
  split_ifs <;> exact ⟨_, _, _, _, _, rfl, by simp⟩

theorem toNat_lt_of_pos {n : Int32} (h : 0 < n) : n.toUInt32.toNat < 2 ^ 31 := by
  have hpos : 0 < n.toBitVec.toInt := Int32.lt_iff_toInt_lt.mp h
  have hlt := n.toBitVec.isLt
  have hnat : n.toUInt32.toNat = n.toBitVec.toNat := rfl
  rw [BitVec.toInt_eq_toNat_cond] at hpos
  split_ifs at hpos <;> omega

theorem ikcpWndsize_eq {kcp : Ikcpcb} (sndwnd rcvwnd : Int32) (hwnd : kcp.rcvWnd = ikcpWndRcv) :
    ∃ sw rw, ikcpWndsize kcp sndwnd rcvwnd = { kcp with sndWnd := sw, rcvWnd := rw } ∧
      128 ≤ rw.toNat ∧ rw.toNat < 2 ^ 31 := by
  have hrcv : ikcpWndRcv.toNat = 128 := rfl
  have hpos : 0 < rcvwnd → 128 ≤ (imax rcvwnd.toUInt32 ikcpWndRcv).toNat ∧
      (imax rcvwnd.toUInt32 ikcpWndRcv).toNat < 2 ^ 31 := by
    intro hpos
    have hlt := toNat_lt_of_pos hpos
    rw [imax_toNat, hrcv]
    omega
  have hkeep : 128 ≤ kcp.rcvWnd.toNat ∧ kcp.rcvWnd.toNat < 2 ^ 31 := by
    rw [hwnd, hrcv]
    decide
  unfold ikcpWndsize
  simp only
  by_cases hrcvwnd : rcvwnd > 0
  · rw [if_pos hrcvwnd]
    split_ifs
    · exact ⟨_, _, rfl, hpos hrcvwnd⟩
    · exact ⟨kcp.sndWnd, _, rfl, hpos hrcvwnd⟩
  · rw [if_neg hrcvwnd]
    split_ifs
    · exact ⟨_, _, rfl, hkeep⟩
    · exact ⟨kcp.sndWnd, kcp.rcvWnd, rfl, hkeep⟩

/-- What is known of a session that was just opened. -/
theorem openSession_orderly (conv : UInt32) (nodelay interval resend nc sndwnd rcvwnd : Int32) :
    ∃ kcp, openSession conv nodelay interval resend nc sndwnd rcvwnd = kcp ∧
      Orderly kcp Q R startSender 0 startReceiver 0 ∧ kcp.conv = conv ∧ kcp.mtu = ikcpMtuDef ∧
      kcp.mss = 1376 ∧ 128 ≤ kcp.rcvWnd.toNat ∧ kcp.acklist = [] := by
  obtain ⟨nd, mr, iv, fr, nw, hnodelay, hmr⟩ :=
    ikcpNodelay_eq (ikcpCreate conv) nodelay interval resend nc
  obtain ⟨sw, rw, hwnd, hlow, hhigh⟩ :=
    @ikcpWndsize_eq (ikcpNodelay (ikcpCreate conv) nodelay interval resend nc) sndwnd rcvwnd
      (by rw [hnodelay]; rfl)
  have hmin : mr.toUInt32 ≤ ikcpRtoDef := by
    rcases hmr with rfl | rfl | rfl
    · change ikcpRtoMin.toInt32.toUInt32 ≤ ikcpRtoDef
      decide
    · decide
    · decide
  refine ⟨_, rfl, ?_⟩
  rw [openSession, hwnd, hnodelay]
  have hdef : ikcpRtoDef ≤ ikcpRtoMax := by decide
  have hmax : mr.toUInt32 ≤ ikcpRtoMax := UInt32.le_trans hmin hdef
  have hrto : ikcpRtoDef.toInt32.toUInt32 ≤ ikcpRtoMax := by decide
  have hsend : SendSide.Shows ⟨0, 0, [], [], 0, 0⟩ conv Q startSender 0 :=
    ⟨rfl, .nil, numbered_nil _, rfl, rfl, rfl, Nat.zero_le _⟩
  have hreceive : ReceiveSide.Shows ⟨0, [], [], 0, 0⟩ rw.toNat R startReceiver 0 :=
    ⟨rfl, .nil, by simp [startReceiver], numbered_nil _, rfl, rfl, Nat.zero_le _, rfl⟩
  have hrmt : ikcpWndRcv.toNat < 2 ^ 16 := by decide
  exact ⟨⟨hsend, rfl, hreceive, by simp [ReceiveSide.Settled, startReceiver], hhigh, hrmt, hmax,
    ⟨hmin, hrto⟩⟩, rfl, rfl, rfl, hlow, rfl⟩

end Opening

section AnyNetwork

/-- The lists of a session are in order and no longer than its windows, and its counters
agree with them. -/
structure InOrder (kcp : Ikcpcb) : Prop where
  sndUna : kcp.sndUna = (kcp.sndBuf.head?.map (·.sn)).getD kcp.sndNxt
  sndBuf : kcp.sndBuf.Pairwise fun seg seg' => itimediff seg'.sn seg.sn > 0
  sndWindow : ∀ seg ∈ kcp.sndBuf, itimediff seg.sn kcp.sndUna ≥ 0 ∧ itimediff seg.sn kcp.sndNxt < 0
  inFlight : 0 ≤ itimediff kcp.sndNxt kcp.sndUna ∧ itimediff kcp.sndNxt kcp.sndUna ≤ 2 ^ 16
  nsndBuf : kcp.nsndBuf.toNat = kcp.sndBuf.length ∧ kcp.sndBuf.length ≤ 2 ^ 16
  nsndQue : kcp.nsndQue = .ofNat kcp.sndQueue.length
  rcvBuf : kcp.rcvBuf.Pairwise fun seg seg' => itimediff seg'.sn seg.sn > 0
  rcvWindow : ∀ seg ∈ kcp.rcvBuf,
    itimediff seg.sn kcp.rcvNxt ≥ 0 ∧ itimediff seg.sn (kcp.rcvNxt + kcp.rcvWnd) < 0
  ready : ∀ seg ∈ kcp.rcvBuf, seg.sn = kcp.rcvNxt → kcp.nrcvQue = kcp.rcvWnd
  nrcvBuf : kcp.nrcvBuf.toNat = kcp.rcvBuf.length ∧ kcp.rcvBuf.length ≤ kcp.rcvWnd.toNat
  nrcvQue : kcp.nrcvQue.toNat = kcp.rcvQueue.length ∧ kcp.rcvQueue.length ≤ kcp.rcvWnd.toNat
  rxRto : kcp.rxMinrto.toUInt32 ≤ kcp.rxRto.toUInt32 ∧ kcp.rxRto.toUInt32 ≤ ikcpRtoMax

/-- Segments of ascending items have ascending numbers. -/
theorem pairwise_shown {P : ℕ → IkcpSeg → Prop} {is : List ℕ} {segs : List IkcpSeg} {a : ℕ}
    (h : List.Forall₂ P is segs) (hsn : ∀ i seg, P i seg → seg.sn = .ofNat i)
    (hsorted : is.Pairwise (· < ·)) (hbetween : ∀ i ∈ is, a ≤ i ∧ i < a + 2 ^ 31) :
    segs.Pairwise fun seg seg' => itimediff seg'.sn seg.sn > 0 := by
  induction h with
  | nil => exact .nil
  | @cons i seg is segs hseg hrest ih =>
    refine List.pairwise_cons.mpr ⟨fun seg' hmem => ?_, ih hsorted.of_cons fun j hj =>
      hbetween j (List.mem_cons_of_mem _ hj)⟩
    obtain ⟨j, hj, hseg'⟩ := exists_item hrest hmem
    have hij := List.rel_of_pairwise_cons hsorted hj
    have hi := hbetween i List.mem_cons_self
    have hj' := hbetween j (List.mem_cons_of_mem _ hj)
    rw [hsn _ _ hseg, hsn _ _ hseg', itimediff_ofNat (by omega) (by omega)]
    omega

theorem Orderly.inOrder (h : Orderly kcp Q R s given r taken) : InOrder kcp := by
  have hnxt : kcp.sndNxt = .ofNat s.nxt := h.send.nxt
  have huna : kcp.sndUna = .ofNat s.una := h.current
  have hnext : kcp.rcvNxt = .ofNat r.next := h.receive.next
  have hkept : List.Forall₂ (Kept kcp.conv Q) s.kept kcp.sndBuf := h.send.kept
  have hearly : List.Forall₂ (Shown R) r.early kcp.rcvBuf := h.receive.early
  have hnarrow := h.send.narrow
  have hle := s.una_le_nxt
  have hwnd := h.rcvWnd
  have hmine : ∀ i ∈ s.kept, s.una ≤ i ∧ i < s.una + 2 ^ 31 := fun i hi =>
    ⟨Sender.una_le hi, by have := s.below i hi; omega⟩
  have htheirs : ∀ i ∈ r.early, r.next ≤ i ∧ i < r.next + 2 ^ 31 := fun i hi =>
    ⟨r.above i hi, by have := h.receive.window i hi; omega⟩
  have hkeptlen := s.kept_length_le
  have hearlylen := Receiver.early_length_le h.receive.window
  rw [hkept.length_eq] at hkeptlen
  rw [hearly.length_eq] at hearlylen
  have hque : kcp.nrcvQue.toNat = kcp.rcvQueue.length := h.receive.nrcvQue
  constructor
  · rw [huna, Sender.una]
    cases hbuf : kcp.sndBuf with
    | nil =>
      rw [hbuf] at hkept
      rw [List.forall₂_nil_right_iff.mp hkept]
      exact hnxt.symm
    | cons seg segs =>
      rw [hbuf] at hkept
      obtain ⟨i, is, hseg, -, hs⟩ := List.forall₂_cons_right_iff.mp hkept
      rw [hs]
      exact hseg.shown.1.symm
  · exact pairwise_shown hkept (fun i seg hseg => hseg.shown.1) s.sorted hmine
  · intro seg hseg
    obtain ⟨i, hi, hshown⟩ := exists_item hkept hseg
    have := hmine i hi
    have := s.below i hi
    rw [hshown.shown.1, huna, hnxt, itimediff_ofNat (by omega) (by omega),
      itimediff_ofNat (by omega) (by omega)]
    omega
  · rw [huna, hnxt, itimediff_ofNat (by omega) (by omega)]
    omega
  · have hcount : kcp.nsndBuf = .ofNat kcp.sndBuf.length := h.send.nsndBuf
    refine ⟨?_, by omega⟩
    rw [hcount]
    exact UInt32.toNat_ofNat_of_lt' (by change _ < 2 ^ 32; omega)
  · exact h.send.nsndQue
  · exact pairwise_shown hearly (fun i seg hseg => hseg.1) r.sorted htheirs
  · intro seg hseg
    obtain ⟨i, hi, hshown⟩ := exists_item hearly hseg
    have := htheirs i hi
    have := h.receive.window i hi
    rw [hshown.1, hnext, ofNat_add_toNat, itimediff_ofNat (by omega) (by omega),
      itimediff_ofNat (by omega) (by omega)]
    omega
  · intro seg hseg hready
    obtain ⟨i, hi, hshown⟩ := exists_item hearly hseg
    have := htheirs i hi
    rw [hshown.1, hnext, ofNat_inj (by omega) (by omega)] at hready
    have hfull := h.settled (by rwa [← hready])
    exact UInt32.toNat_inj.mp (hque.trans hfull)
  · have hcount : kcp.nrcvBuf = .ofNat kcp.rcvBuf.length := h.receive.nrcvBuf
    refine ⟨?_, hearlylen⟩
    rw [hcount]
    exact UInt32.toNat_ofNat_of_lt' (by change _ < 2 ^ 32; omega)
  · exact ⟨hque, h.receive.nrcvQue_le⟩
  · exact ⟨h.rto.min, h.rto.max⟩

/-- A call of the user or of the clock, or a datagram. -/
inductive KcpCall
  | send (buffer : List UInt8)
  | recv (len : ℕ)
  | update (current : UInt32)
  | input (data : List UInt8)
  deriving DecidableEq, Repr

def kcpCall (kcp : Ikcpcb) : KcpCall → Ikcpcb
  | .send buffer => (ikcpSend kcp buffer).2
  | .recv len => (ikcpRecv kcp len).2
  | .update current => (ikcpUpdate kcp current).1
  | .input data => (ikcpInput kcp data).2

/-- What is known of a session of which it is not known what the other end sends. -/
def Sound (conv : UInt32) (kcp : Ikcpcb) : Prop :=
  kcp.conv = conv ∧ kcp.mtu = ikcpMtuDef ∧ kcp.mss = 1376 ∧
    ∃ s given r taken, Orderly kcp (fun _ p => p.2.length ≤ 1376) (fun _ _ => True) s given r taken

theorem fitting_of_mtu (hmtu : kcp.mtu = ikcpMtuDef) :
    Fitting kcp fun _ p => p.2.length ≤ 1376 := by
  constructor
  all_goals rw [hmtu, show ikcpMtuDef.toNat = 1400 from rfl]
  · intro i p hp
    rw [ikcpOverhead]
    omega
  · decide
  · decide

/-- Every call leaves a session sound. -/
theorem kcpCall_sound {conv : UInt32} (h : Sound conv kcp) (call : KcpCall) :
    Sound conv (kcpCall kcp call) := by
  obtain ⟨hconv, hmtu, hmss, s, given, r, taken, horderly⟩ := h
  have hsettled : ∀ kcp' : Ikcpcb, kcp'.settings = kcp.settings →
      (∃ s given r taken,
        Orderly kcp' (fun _ p => p.2.length ≤ 1376) (fun _ _ => True) s given r taken) →
      Sound conv kcp' := fun kcp' hset horderly' =>
    ⟨(congrArg Settings.conv hset).trans hconv, (congrArg Settings.mtu hset).trans hmtu,
      (congrArg Settings.mss hset).trans hmss, horderly'⟩
  cases call with
  | send buffer =>
    have hnew : pieceCount kcp.mss.toNat buffer.length < 128 →
        Numbered (fun _ p => p.2.length ≤ 1376) given
          (pieceLoop kcp.mss.toNat (pieceCount kcp.mss.toNat buffer.length) buffer) := by
      intro hcount k seg hk
      have hlen := (pieceLoop_bounds (by omega) (List.mem_of_getElem? hk)).1
      rwa [hmss] at hlen
    rcases ikcpSend_orderly (fun _ _ hp => hp) hnew horderly with
      heq | ⟨kcp', heq, horderly', -, hset, -⟩
    · simp only [kcpCall, heq]
      exact ⟨hconv, hmtu, hmss, s, given, r, taken, horderly⟩
    · simp only [kcpCall, heq]
      exact hsettled _ hset ⟨s, _, r, taken, horderly'⟩
  | recv len =>
    rcases ikcpRecv_orderly len horderly with
      ⟨rc, heq⟩ | ⟨r', kcp', heq, -, horderly', -, -, hset, -⟩
    · simp only [kcpCall, heq]
      exact ⟨hconv, hmtu, hmss, s, given, r, taken, horderly⟩
    · simp only [kcpCall, heq]
      exact hsettled _ hset ⟨s, given, r', _, horderly'⟩
  | update current =>
    obtain ⟨tsFlush, ⟨heq, -⟩ | heq⟩ := ikcpUpdate_cases kcp current
    · simp only [kcpCall, heq]
      exact hsettled _ rfl ⟨s, given, r, taken, horderly.clock current tsFlush⟩
    · obtain ⟨n, hf⟩ := ikcpFlush_orderly current tsFlush (fitting_of_mtu hmtu) horderly
      simp only [kcpCall, heq]
      exact hsettled _ hf.settings
        ⟨_, given, r, taken, hf.orderly (horderly.clock current tsFlush)⟩
  | input data =>
    obtain ⟨s', r', horderly', hset, -⟩ := ikcpInput_orderly data (fun _ _ _ => trivial) horderly
    exact hsettled _ hset ⟨s', given, r', taken, horderly'⟩

variable (conv : UInt32) (nodelay interval resend nc sndwnd rcvwnd : Int32)

theorem run_sound (calls : List KcpCall) :
    Sound conv
      (Runs.run kcpCall (openSession conv nodelay interval resend nc sndwnd rcvwnd) calls) := by
  have hstart : Sound conv (openSession conv nodelay interval resend nc sndwnd rcvwnd) := by
    obtain ⟨kcp, heq, horderly, hconv, hmtu, hmss, -⟩ :=
      openSession_orderly conv nodelay interval resend nc sndwnd rcvwnd
    rw [heq]
    exact ⟨hconv, hmtu, hmss, _, _, _, _, horderly⟩
  have hstep : ∀ kcp call, Sound conv kcp → Sound conv (kcpCall kcp call) :=
    fun _ call h => kcpCall_sound h call
  exact Runs.run_of_step kcpCall hstep hstart calls

/-- Whatever comes from the network, and whenever the user calls, the session stays in
order. -/
theorem session_in_order (calls : List KcpCall) :
    InOrder
      (Runs.run kcpCall (openSession conv nodelay interval resend nc sndwnd rcvwnd) calls) := by
  obtain ⟨-, -, -, s, given, r, taken, horderly⟩ :=
    run_sound conv nodelay interval resend nc sndwnd rcvwnd calls
  exact horderly.inOrder

/-- Every datagram that a session puts out fits in its mtu, and is a row of segments:
another session reads all of them if it is of the same conversation, and otherwise refuses
the datagram and stays as it is. -/
theorem output_is_read (calls : List KcpCall) (current : UInt32) (d : List UInt8)
    (hd : d ∈ (ikcpUpdate (Runs.run kcpCall
      (openSession conv nodelay interval resend nc sndwnd rcvwnd) calls) current).2) :
    d.length ≤ ikcpMtuDef.toNat ∧ ∃ segs ≠ [], d = rowBytes segs ∧ ∀ peer : Ikcpcb,
      (peer.conv = conv → ikcpInput peer d =
        (0, inputEnd peer.sndUna (inputRow peer none segs).1 (inputRow peer none segs).2)) ∧
      (peer.conv ≠ conv → ikcpInput peer d = (-1, peer)) := by
  obtain ⟨hconv, hmtu, hmss, s, given, r, taken, horderly⟩ :=
    run_sound conv nodelay interval resend nc sndwnd rcvwnd calls
  obtain ⟨tsFlush, ⟨heq, -⟩ | heq⟩ := ikcpUpdate_cases (Runs.run kcpCall
    (openSession conv nodelay interval resend nc sndwnd rcvwnd) calls) current
  · rw [heq] at hd
    cases hd
  · obtain ⟨n, hf⟩ := ikcpFlush_orderly current tsFlush (fitting_of_mtu hmtu) horderly
    obtain ⟨rows, houtput, hrows, -⟩ := hf.output
    rw [heq, houtput] at hd
    obtain ⟨segs, hmem, rfl⟩ := List.mem_map.mp hd
    obtain ⟨hne, hlen, hput⟩ := hrows segs hmem
    have hlen' : (rowBytes segs).length ≤ ikcpMtuDef.toNat := by
      rw [← hmtu]
      exact hlen
    have hsegs : ∀ seg ∈ segs, Sendable conv seg := fun seg hseg => by
      have hsend := (hput seg hseg).sendable
      rw [← hconv]
      exact hsend
    refine ⟨hlen', segs, hne, rfl, fun peer => ⟨fun hpeer => ?_, fun hpeer => ?_⟩⟩
    · exact ikcpInput_row hne (by rwa [hpeer])
    · exact ikcpInput_foreign hne hsegs (Ne.symm hpeer)

/-- A session that was given one byte to send. -/
theorem output_is_read_first :
    (rowBytes [⟨7, 81, 0, 256, 0, 0, 0, 0, 200, 0, 1, [5]⟩]).length ≤ ikcpMtuDef.toNat ∧
      ∃ segs ≠ [], rowBytes [⟨7, 81, 0, 256, 0, 0, 0, 0, 200, 0, 1, [5]⟩] = rowBytes segs ∧
        ∀ peer : Ikcpcb, (peer.conv = 7 →
          ikcpInput peer (rowBytes [⟨7, 81, 0, 256, 0, 0, 0, 0, 200, 0, 1, [5]⟩]) =
            (0, inputEnd peer.sndUna (inputRow peer none segs).1 (inputRow peer none segs).2)) ∧
          (peer.conv ≠ 7 →
            ikcpInput peer (rowBytes [⟨7, 81, 0, 256, 0, 0, 0, 0, 200, 0, 1, [5]⟩]) = (-1, peer)) :=
  output_is_read 7 1 10 2 1 256 256 [.send [5]] 0 _ (by decide +kernel)

end AnyNetwork

end BoardComm.Ikcp
