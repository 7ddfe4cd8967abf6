import BoardComm.IkcpWire
import BoardComm.SelectiveRepeat

/-!
# The two sides of a KCP session

What a session sends and what it receives are kept apart in it. Each side shows one end
of a link with selective repeat, whose items are counted without end: a segment has the
number of its count modulo `2 ^ 32`.
-/
namespace BoardComm.Ikcp

open SelectiveRepeat

/-- What a segment carries of a message. -/
abbrev Piece := UInt32 × List UInt8

def IkcpSeg.piece (seg : IkcpSeg) : Piece := (seg.frg, seg.data)

/-- What is fixed when the session is opened. -/
structure Settings where
  conv : UInt32
  mtu : UInt32
  mss : UInt32
  sndWnd : UInt32
  rcvWnd : UInt32
  rxMinrto : Int32
  interval : UInt32
  nodelay : UInt32
  deadLink : UInt32
  fastresend : Int32
  fastlimit : Int32
  nocwnd : Int32
  deriving DecidableEq, Repr

structure SendSide where
  sndUna : UInt32
  sndNxt : UInt32
  sndQueue : List IkcpSeg
  sndBuf : List IkcpSeg
  nsndQue : UInt32
  nsndBuf : UInt32
  deriving DecidableEq, Repr

structure ReceiveSide where
  rcvNxt : UInt32
  rcvQueue : List IkcpSeg
  rcvBuf : List IkcpSeg
  nrcvQue : UInt32
  nrcvBuf : UInt32
  deriving DecidableEq, Repr

namespace Ikcpcb

def settings (kcp : Ikcpcb) : Settings :=
  ⟨kcp.conv, kcp.mtu, kcp.mss, kcp.sndWnd, kcp.rcvWnd, kcp.rxMinrto, kcp.interval, kcp.nodelay,
    kcp.deadLink, kcp.fastresend, kcp.fastlimit, kcp.nocwnd⟩

def sendSide (kcp : Ikcpcb) : SendSide :=
  ⟨kcp.sndUna, kcp.sndNxt, kcp.sndQueue, kcp.sndBuf, kcp.nsndQue, kcp.nsndBuf⟩

def receiveSide (kcp : Ikcpcb) : ReceiveSide :=
  ⟨kcp.rcvNxt, kcp.rcvQueue, kcp.rcvBuf, kcp.nrcvQue, kcp.nrcvBuf⟩

def withSend (kcp : Ikcpcb) (side : SendSide) : Ikcpcb :=
  { kcp with
    sndUna := side.sndUna, sndNxt := side.sndNxt, sndQueue := side.sndQueue, sndBuf := side.sndBuf,
    nsndQue := side.nsndQue, nsndBuf := side.nsndBuf }

def withReceive (kcp : Ikcpcb) (side : ReceiveSide) : Ikcpcb :=
  { kcp with
    rcvNxt := side.rcvNxt, rcvQueue := side.rcvQueue, rcvBuf := side.rcvBuf,
    nrcvQue := side.nrcvQue, nrcvBuf := side.nrcvBuf }

end Ikcpcb

/-- The second session is the first with another sending side. -/
def SendOnly (kcp kcp' : Ikcpcb) : Prop := kcp' = kcp.withSend kcp'.sendSide

theorem SendOnly.trans {kcp kcp' kcp'' : Ikcpcb} (h : SendOnly kcp kcp') (h' : SendOnly kcp' kcp'') :
    SendOnly kcp kcp'' := by
  unfold SendOnly at *
  rw [h', h]
  rfl

theorem SendOnly.keeps {kcp kcp' : Ikcpcb} {α : Type} (h : SendOnly kcp kcp') (field : Ikcpcb → α)
    (hfield : ∀ side, field (kcp.withSend side) = field kcp) : field kcp' = field kcp :=
  (congrArg field h).trans (hfield _)

section Counts

/-- Counts that are close are compared by their numbers. -/
theorem itimediff_ofNat {i j : ℕ} (hlow : j ≤ i + 2 ^ 31) (hhigh : i < j + 2 ^ 31) :
    itimediff (.ofNat i) (.ofNat j) = (i : ℤ) - j := by
  rw [itimediff, UInt32.toBitVec_ofNat', UInt32.toBitVec_ofNat']
  exact Serial.diff_ofNat (by omega) (by omega)

theorem ofNat_inj {i j : ℕ} (hlow : j < i + 2 ^ 32) (hhigh : i < j + 2 ^ 32) :
    UInt32.ofNat i = UInt32.ofNat j ↔ i = j := by
  rw [← UInt32.toBitVec_inj, UInt32.toBitVec_ofNat', UInt32.toBitVec_ofNat']
  exact Serial.ofNat_inj hlow hhigh

/-- A number that is not earlier than that of `n` is that of a later count. -/
theorem exists_later {sn : UInt32} {n : ℕ} (h : 0 ≤ itimediff sn (.ofNat n)) :
    ∃ i, n ≤ i ∧ i < n + 2 ^ 31 ∧ sn = .ofNat i := by
  rw [itimediff, UInt32.toBitVec_ofNat'] at h
  obtain ⟨i, hle, hlt, hi⟩ := Serial.exists_later h
  refine ⟨i, hle, by omega, ?_⟩
  rw [← UInt32.toBitVec_inj, UInt32.toBitVec_ofNat', hi]

theorem ofNat_add_toNat (n : ℕ) (w : UInt32) : UInt32.ofNat n + w = .ofNat (n + w.toNat) := by
  rw [UInt32.ofNat_add, UInt32.ofNat_toNat]

theorem ofNat_succ (n : ℕ) : UInt32.ofNat n + 1 = .ofNat (n + 1) := by
  rw [UInt32.ofNat_add]
  rfl

end Counts

section Receive

variable {kcp : Ikcpcb} {Q : ℕ → Piece → Prop}

/-- Consecutive items from a count on are as they should be. -/
def Numbered (Q : ℕ → Piece → Prop) (n : ℕ) (segs : List IkcpSeg) : Prop :=
  ∀ k seg, segs[k]? = some seg → Q (n + k) seg.piece

theorem Numbered.append {n : ℕ} {segs segs' : List IkcpSeg} (h : Numbered Q n segs)
    (h' : Numbered Q (n + segs.length) segs') : Numbered Q n (segs ++ segs') := by
  intro k seg hk
  rcases Nat.lt_or_ge k segs.length with hlt | hge
  · rw [List.getElem?_append_left hlt] at hk
    exact h k seg hk
  · rw [List.getElem?_append_right hge] at hk
    have := h' (k - segs.length) seg hk
    rwa [Nat.add_assoc, Nat.add_sub_cancel' hge] at this

theorem Numbered.cons {n : ℕ} {seg : IkcpSeg} {segs : List IkcpSeg} :
    Numbered Q n (seg :: segs) ↔ Q n seg.piece ∧ Numbered Q (n + 1) segs := by
  constructor
  · intro h
    refine ⟨h 0 seg rfl, fun k seg' hk => ?_⟩
    have := h (k + 1) seg' hk
    rwa [show n + (k + 1) = n + 1 + k by omega] at this
  · rintro ⟨hseg, hsegs⟩ k seg' hk
    cases k with
    | zero =>
      obtain rfl := Option.some.inj hk
      exact hseg
    | succ k =>
      have := hsegs k seg' hk
      rwa [show n + 1 + k = n + (k + 1) by omega] at this

theorem numbered_nil (n : ℕ) : Numbered Q n [] := by
  intro k seg hk
  cases hk

theorem Numbered.imp {Q' : ℕ → Piece → Prop} (hQ : ∀ i p, Q i p → Q' i p) {n : ℕ}
    {segs : List IkcpSeg} (h : Numbered Q n segs) : Numbered Q' n segs :=
  fun k seg hk => hQ _ _ (h k seg hk)

/-- The segment of an item. -/
def Shown (Q : ℕ → Piece → Prop) (i : ℕ) (seg : IkcpSeg) : Prop :=
  seg.sn = .ofNat i ∧ Q i seg.piece

/-- Every segment of a row is that of an item. -/
theorem exists_item {P : ℕ → IkcpSeg → Prop} {is : List ℕ} {segs : List IkcpSeg} {seg : IkcpSeg}
    (h : List.Forall₂ P is segs) (hmem : seg ∈ segs) : ∃ i ∈ is, P i seg := by
  induction h with
  | nil => cases hmem
  | cons hseg hrest ih =>
    rcases List.mem_cons.mp hmem with rfl | hmem
    · exact ⟨_, List.mem_cons_self, hseg⟩
    · obtain ⟨i, hi, hP⟩ := ih hmem
      exact ⟨i, List.mem_cons_of_mem _ hi, hP⟩

/-- The receiving side shows a receiver, of whose items so many were taken by the
reader. Whether the first item that waits could be moved on is left open. -/
structure ReceiveSide.Shows (side : ReceiveSide) (wnd : ℕ) (Q : ℕ → Piece → Prop) (r : Receiver)
    (taken : ℕ) : Prop where
  next : side.rcvNxt = .ofNat r.next
  early : List.Forall₂ (Shown Q) r.early side.rcvBuf
  window : ∀ i ∈ r.early, i < r.next + wnd
  queue : Numbered Q taken side.rcvQueue
  taken : taken + side.rcvQueue.length = r.next
  nrcvQue : side.nrcvQue.toNat = side.rcvQueue.length
  nrcvQue_le : side.rcvQueue.length ≤ wnd
  nrcvBuf : side.nrcvBuf = .ofNat side.rcvBuf.length

/-- An item that waits although it is the next one waits for room in the queue. -/
def ReceiveSide.Settled (side : ReceiveSide) (wnd : ℕ) (r : Receiver) : Prop :=
  r.next ∈ r.early → side.rcvQueue.length = wnd

variable {r : Receiver} {taken : ℕ}

/-- The items that are ready go into the queue as long as it has room. -/
theorem moveReady_shows {segs : List IkcpSeg} {kcp : Ikcpcb} {r : Receiver}
    (hwnd : kcp.rcvWnd.toNat < 2 ^ 31)
    (h : ReceiveSide.Shows { kcp.receiveSide with rcvBuf := segs } kcp.rcvWnd.toNat Q r taken) :
    ∃ r', (moveReady segs kcp).receiveSide.Shows kcp.rcvWnd.toNat Q r' taken ∧
      (moveReady segs kcp).receiveSide.Settled kcp.rcvWnd.toNat r' ∧
      (∀ i, r'.Has i ↔ r.Has i) ∧ r.next ≤ r'.next := by
  induction segs generalizing kcp r with
  | nil =>
    refine ⟨r, h, fun hmem => ?_, fun i => Iff.rfl, le_rfl⟩
    have hnil := List.forall₂_nil_right_iff.mp h.early
    rw [hnil] at hmem
    cases hmem
  | cons seg segs ih =>
    obtain ⟨i, is, ⟨hsn, hQ⟩, hrest, hearly⟩ := List.forall₂_cons_right_iff.mp h.early
    have hle : r.next ≤ i := r.above i (by rw [hearly]; exact List.mem_cons_self)
    have hlt : i < r.next + kcp.rcvWnd.toNat := h.window i (by rw [hearly]; exact List.mem_cons_self)
    have hnext : kcp.rcvNxt = .ofNat r.next := h.next
    have hfirst : seg.sn = kcp.rcvNxt ↔ i = r.next := by
      rw [hsn, hnext]
      exact ofNat_inj (by omega) (by omega)
    have hque : kcp.nrcvQue.toNat = kcp.rcvQueue.length := h.nrcvQue
    rw [moveReady]
    by_cases hready : seg.sn = kcp.rcvNxt ∧ kcp.nrcvQue < kcp.rcvWnd
    · rw [if_pos hready]
      obtain rfl := hfirst.mp hready.1
      have hroom : kcp.nrcvQue.toNat < kcp.rcvWnd.toNat := UInt32.lt_iff_toNat_lt.mp hready.2
      have htaken : taken + kcp.rcvQueue.length = r.next := h.taken
      have hbuf : kcp.nrcvBuf = .ofNat (segs.length + 1) := h.nrcvBuf
      let kcp' : Ikcpcb := { kcp with
        nrcvBuf := kcp.nrcvBuf - 1, rcvQueue := kcp.rcvQueue ++ [seg],
        nrcvQue := kcp.nrcvQue + 1, rcvNxt := kcp.rcvNxt + 1 }
      have hmoved : ReceiveSide.Shows { kcp'.receiveSide with rcvBuf := segs } kcp.rcvWnd.toNat Q
          (r.advance hearly) taken := by
        constructor
        · change kcp.rcvNxt + 1 = _
          rw [hnext, ofNat_succ]
          rfl
        · exact hrest
        · intro j hj
          have := h.window j (by rw [hearly]; exact List.mem_cons_of_mem _ hj)
          exact this.trans (Nat.add_lt_add_right (Nat.lt_succ_self _) _)
        · refine Numbered.append h.queue (Numbered.cons.mpr ⟨?_, numbered_nil _⟩)
          rw [htaken]
          exact hQ
        · change taken + (kcp.rcvQueue ++ [seg]).length = r.next + 1
          rw [List.length_append, List.length_singleton, ← Nat.add_assoc, htaken]
        · change (kcp.nrcvQue + 1).toNat = (kcp.rcvQueue ++ [seg]).length
          rw [UInt32.toNat_add, List.length_append, List.length_singleton, ← hque]
          exact Nat.mod_eq_of_lt (by simp only [UInt32.toNat_one]; omega)
        · change (kcp.rcvQueue ++ [seg]).length ≤ _
          rw [List.length_append, List.length_singleton, ← hque]
          exact hroom
        · change kcp.nrcvBuf - 1 = _
          rw [hbuf, ← ofNat_succ, UInt32.add_sub_cancel]
      obtain ⟨r', hshows, hsettled, hhas, hmono⟩ := @ih kcp' _ hwnd hmoved
      refine ⟨r', hshows, hsettled, fun j => (hhas j).trans (Receiver.has_advance hearly), ?_⟩
      exact (Nat.le_succ _).trans hmono
    · rw [if_neg hready]
      refine ⟨r, h, fun hmem => ?_, fun i => Iff.rfl, le_rfl⟩
      have hi : i = r.next := by
        have hsorted := r.sorted
        rw [hearly] at hmem hsorted
        rcases List.mem_cons.mp hmem with heq | hmem
        · exact heq.symm
        · have := List.rel_of_pairwise_cons hsorted hmem
          omega
      have hfull : ¬ kcp.nrcvQue < kcp.rcvWnd := fun hlt => hready ⟨hfirst.mpr hi, hlt⟩
      rw [UInt32.lt_iff_toNat_lt, hque] at hfull
      exact le_antisymm h.nrcvQue_le (Nat.not_lt.mp hfull)

/-- A segment finds its place among those that wait, unless it is one of them. -/
theorem placeLoop_shows {newseg : IkcpSeg} {i : ℕ} (hnew : Shown Q i newseg) {is : List ℕ}
    {segs : List IkcpSeg} (hsorted : is.Pairwise (· > ·)) (h : List.Forall₂ (Shown Q) is segs)
    (hnear : ∀ j ∈ is, j < i + 2 ^ 31 ∧ i < j + 2 ^ 31) :
    (placeLoop newseg segs = none ∧ i ∈ is) ∨
      ∃ is' segs', placeLoop newseg segs = some segs' ∧ i ∉ is ∧ is'.Pairwise (· > ·) ∧
        List.Forall₂ (Shown Q) is' segs' ∧ (∀ j, j ∈ is' ↔ j = i ∨ j ∈ is) ∧
        segs'.length = segs.length + 1 := by
  induction h with
  | nil =>
    refine .inr ⟨[i], [newseg], rfl, by simp, List.pairwise_singleton _ _, ?_, by simp, rfl⟩
    exact .cons hnew .nil
  | @cons j seg js segs hseg hrest ih =>
    obtain ⟨hji, hij⟩ := hnear j List.mem_cons_self
    have hsame : seg.sn = newseg.sn ↔ j = i := by
      rw [hseg.1, hnew.1]
      exact ofNat_inj (by omega) (by omega)
    have hlater : itimediff newseg.sn seg.sn > 0 ↔ j < i := by
      rw [hseg.1, hnew.1, itimediff_ofNat (by omega) (by omega)]
      omega
    rw [placeLoop]
    by_cases heq : j = i
    · rw [if_pos (hsame.mpr heq)]
      exact .inl ⟨rfl, by rw [heq]; exact List.mem_cons_self⟩
    · rw [if_neg (mt hsame.mp heq)]
      by_cases hlt : j < i
      · rw [if_pos (hlater.mpr hlt)]
        have hfront : ∀ k ∈ j :: js, k < i := by
          intro k hk
          rcases List.mem_cons.mp hk with rfl | hk
          · exact hlt
          · exact (List.rel_of_pairwise_cons hsorted hk).trans hlt
        refine .inr ⟨i :: j :: js, _, rfl, fun hmem => lt_irrefl _ (hfront i hmem), ?_, ?_, ?_, rfl⟩
        · exact List.pairwise_cons.mpr ⟨fun k hk => hfront k hk, hsorted⟩
        · exact .cons hnew (.cons hseg hrest)
        · exact fun k => List.mem_cons
      · rw [if_neg (mt hlater.mp hlt)]
        rcases ih hsorted.of_cons fun k hk => hnear k (List.mem_cons_of_mem _ hk) with
          ⟨hnone, hmem⟩ | ⟨is', segs', hsome, hnot, hsorted', hforall, hmem, hlen⟩
        · exact .inl ⟨by rw [hnone]; rfl, List.mem_cons_of_mem _ hmem⟩
        · refine .inr ⟨j :: is', seg :: segs', by rw [hsome]; rfl, ?_, ?_, .cons hseg hforall, ?_, ?_⟩
          · rw [List.mem_cons, not_or]
            exact ⟨Ne.symm heq, hnot⟩
          · refine List.pairwise_cons.mpr ⟨fun k hk => ?_, hsorted'⟩
            rcases (hmem k).mp hk with rfl | hk
            · omega
            · exact List.rel_of_pairwise_cons hsorted hk
          · intro k
            rw [List.mem_cons, hmem, List.mem_cons]
            tauto
          · rw [List.length_cons, hlen, List.length_cons]

theorem placeSegment_rcvWnd (kcp : Ikcpcb) (newseg : IkcpSeg) :
    (placeSegment kcp newseg).rcvWnd = kcp.rcvWnd := by
  unfold placeSegment
  cases placeLoop newseg kcp.rcvBuf.reverse <;> rfl

/-- A segment in the window waits with the others. -/
theorem placeSegment_shows {newseg : IkcpSeg} {i : ℕ} (hnew : Shown Q i newseg)
    (hwnd : kcp.rcvWnd.toNat < 2 ^ 31)
    (h : kcp.receiveSide.Shows kcp.rcvWnd.toNat Q r taken) (hle : r.next ≤ i)
    (hlt : i < r.next + kcp.rcvWnd.toNat) :
    ∃ r', (placeSegment kcp newseg).receiveSide.Shows kcp.rcvWnd.toNat Q r' taken ∧
      (∀ j, r'.Has j ↔ r.Has j ∨ j = i) ∧ r'.next = r.next := by
  have hnear : ∀ j ∈ r.early.reverse, j < i + 2 ^ 31 ∧ i < j + 2 ^ 31 := by
    intro j hj
    have hmem := List.mem_reverse.mp hj
    have := r.above j hmem
    have := h.window j hmem
    omega
  have hbuf : List.Forall₂ (Shown Q) r.early kcp.rcvBuf := h.early
  unfold placeSegment
  rcases placeLoop_shows hnew (List.pairwise_reverse.mpr r.sorted)
    (List.forall₂_reverse_iff.mpr hbuf) hnear with
    ⟨hnone, hmem⟩ | ⟨is', segs', hsome, -, hsorted, hforall, hmem, hlen⟩
  · rw [hnone]
    refine ⟨r, h, fun j => ⟨.inl, fun hj => hj.elim id ?_⟩, rfl⟩
    rintro rfl
    exact .inr (List.mem_reverse.mp hmem)
  · rw [hsome]
    let r' : Receiver :=
      { next := r.next
        early := is'.reverse
        sorted := List.pairwise_reverse.mpr hsorted
        above := by
          intro j hj
          rcases (hmem j).mp (List.mem_reverse.mp hj) with rfl | hj
          · exact hle
          · exact r.above j (List.mem_reverse.mp hj) }
    have hmem' : ∀ j, j ∈ r'.early ↔ j = i ∨ j ∈ r.early := by
      intro j
      rw [List.mem_reverse, hmem, List.mem_reverse]
    refine ⟨r', ⟨h.next, List.forall₂_reverse_iff.mpr hforall, ?_, h.queue, h.taken, h.nrcvQue,
      h.nrcvQue_le, ?_⟩, ?_, rfl⟩
    · intro j hj
      rcases (hmem' j).mp hj with rfl | hj
      · exact hlt
      · exact h.window j hj
    · have hcount : kcp.nrcvBuf = .ofNat kcp.rcvBuf.length := h.nrcvBuf
      change kcp.nrcvBuf + 1 = .ofNat segs'.reverse.length
      rw [List.length_reverse, hlen, List.length_reverse, hcount, ofNat_succ]
    · intro j
      unfold Receiver.Has
      rw [hmem']
      change j < r.next ∨ _ ↔ _
      tauto

/-- A segment in the window is received. -/
theorem ikcpParseData_shows {newseg : IkcpSeg} {i : ℕ} (hnew : Shown Q i newseg)
    (hwnd : kcp.rcvWnd.toNat < 2 ^ 31)
    (h : kcp.receiveSide.Shows kcp.rcvWnd.toNat Q r taken) (hle : r.next ≤ i)
    (hlt : i < r.next + kcp.rcvWnd.toNat) :
    ∃ r', (ikcpParseData kcp newseg).receiveSide.Shows kcp.rcvWnd.toNat Q r' taken ∧
      (ikcpParseData kcp newseg).receiveSide.Settled kcp.rcvWnd.toNat r' ∧
      (∀ j, r'.Has j ↔ r.Has j ∨ j = i) ∧ r.next ≤ r'.next := by
  have hnext : kcp.rcvNxt = .ofNat r.next := h.next
  have hinside : ¬ (itimediff newseg.sn (kcp.rcvNxt + kcp.rcvWnd) ≥ 0 ∨
      itimediff newseg.sn kcp.rcvNxt < 0) := by
    rw [hnew.1, hnext, ofNat_add_toNat, itimediff_ofNat (by omega) (by omega),
      itimediff_ofNat (by omega) (by omega)]
    omega
  obtain ⟨r₁, hplaced, hhas₁, hnext₁⟩ := placeSegment_shows hnew hwnd h hle hlt
  have hkeep := placeSegment_rcvWnd kcp newseg
  obtain ⟨r', hshows, hsettled, hhas, hmono⟩ :=
    moveReady_shows
      (by rwa [hkeep]) (by rwa [hkeep])
  rw [hkeep] at hshows hsettled
  rw [ikcpParseData, if_neg hinside]
  exact ⟨r', hshows, hsettled, fun j => (hhas j).trans (hhas₁ j), hnext₁.ge.trans hmono⟩

theorem moveReady_eq (segs : List IkcpSeg) (kcp : Ikcpcb) :
    moveReady segs kcp = kcp.withReceive (moveReady segs kcp).receiveSide := by
  induction segs generalizing kcp with
  | nil => rfl
  | cons seg segs ih =>
    rw [moveReady]
    split_ifs
    · rw [ih]
      rfl
    · rfl

/-- The segments that `ikcp_recv` merges: up to the first that is the last of a message. -/
def messageOf : List IkcpSeg → List IkcpSeg
  | [] => []
  | seg :: segs => if seg.frg = 0 then [seg] else seg :: messageOf segs

/-- The bytes that segments carry. -/
def dataOf (segs : List IkcpSeg) : List UInt8 := segs.flatMap (·.data)

@[simp] theorem dataOf_nil : dataOf [] = [] := rfl

@[simp] theorem dataOf_cons (seg : IkcpSeg) (segs : List IkcpSeg) :
    dataOf (seg :: segs) = seg.data ++ dataOf segs := rfl

theorem messageOf_isPrefix (segs : List IkcpSeg) : messageOf segs <+: segs := by
  induction segs with
  | nil => exact List.prefix_rfl
  | cons seg segs ih =>
    rw [messageOf]
    split_ifs with hlast
    · exact (List.prefix_cons_inj seg).mpr List.nil_prefix
    · exact (List.prefix_cons_inj seg).mpr ih

theorem peekLoop_eq (segs : List IkcpSeg) : peekLoop segs = (dataOf (messageOf segs)).length := by
  induction segs with
  | nil => rfl
  | cons seg segs ih =>
    rw [peekLoop, messageOf]
    split_ifs with hlast
    · simp
    · rw [dataOf_cons, List.length_append, ih]

/-- What the merging loop makes of the queue. -/
theorem mergeLoop_eq (segs : List IkcpSeg) (kcp : Ikcpcb) :
    mergeLoop segs kcp = (dataOf (messageOf segs), { kcp with
      rcvQueue := segs.drop (messageOf segs).length
      nrcvQue := kcp.nrcvQue - .ofNat (messageOf segs).length }) := by
  induction segs generalizing kcp with
  | nil => simp [mergeLoop, messageOf]
  | cons seg segs ih =>
    rw [mergeLoop, messageOf]
    split_ifs with hlast
    · simp
    · have hcount : kcp.nrcvQue - 1 - .ofNat (messageOf segs).length =
          kcp.nrcvQue - .ofNat ((messageOf segs).length + 1) := by
        rw [← ofNat_succ]
        grind
      simp only [ih, hcount, dataOf_cons, List.length_cons, List.drop_succ_cons]

/-- The size that `ikcp_peeksize` finds is that of the message that is merged, as
`ikcp_recv` asserts. -/
theorem ikcpPeeksize_eq {kcp : Ikcpcb} {n : ℕ} (h : ikcpPeeksize kcp = some n) :
    n = (dataOf (messageOf kcp.rcvQueue)).length := by
  unfold ikcpPeeksize at h
  cases hqueue : kcp.rcvQueue with
  | nil =>
    rw [hqueue] at h
    cases h
  | cons seg segs =>
    rw [hqueue] at h
    simp only at h
    split_ifs at h with hlast hpart
    · rw [messageOf, if_pos hlast, ← Option.some.inj h]
      simp
    · rw [← peekLoop_eq, ← Option.some.inj h]

/-- The session without the message at the head of its queue. -/
def takeMessage (kcp : Ikcpcb) : Ikcpcb :=
  { kcp with
    rcvQueue := kcp.rcvQueue.drop (messageOf kcp.rcvQueue).length
    nrcvQue := kcp.nrcvQue - .ofNat (messageOf kcp.rcvQueue).length }

/-- `ikcp_recv` fails and changes nothing, or it returns the message at the head of the
queue. -/
theorem ikcpRecv_cases (kcp : Ikcpcb) (len : ℕ) :
    (∃ rc, ikcpRecv kcp len = (.error rc, kcp)) ∨
      (dataOf (messageOf kcp.rcvQueue)).length ≤ len ∧ (ikcpPeeksize kcp).isSome ∧
        ∃ ask, (kcp.askTell = true → ask = true) ∧
          ikcpRecv kcp len = (.ok (dataOf (messageOf kcp.rcvQueue)),
            { moveReady (takeMessage kcp).rcvBuf (takeMessage kcp) with askTell := ask }) := by
  by_cases hempty : kcp.rcvQueue = []
  · exact .inl ⟨-1, by rw [ikcpRecv, if_pos hempty]⟩
  · cases hpeek : ikcpPeeksize kcp with
    | none => exact .inl ⟨-2, by rw [ikcpRecv, if_neg hempty, hpeek]⟩
    | some n =>
      by_cases hlong : n > len
      · refine .inl ⟨-3, ?_⟩
        rw [ikcpRecv, if_neg hempty, hpeek]
        simp only [if_pos hlong]
      · right
        have hsize := ikcpPeeksize_eq hpeek
        rw [ikcpRecv, if_neg hempty, hpeek]
        simp only [if_neg hlong, mergeLoop_eq]
        refine ⟨by omega, rfl, ?_⟩
        split_ifs
        · exact ⟨true, fun _ => rfl, rfl⟩
        · refine ⟨_, fun htell => ?_, rfl⟩
          exact (congrArg Ikcpcb.askTell (moveReady_eq _ _)).trans htell

/-- The reader takes the items of the first message. -/
theorem takeMessage_shows (h : kcp.receiveSide.Shows kcp.rcvWnd.toNat Q r taken)
    (hwnd : kcp.rcvWnd.toNat < 2 ^ 31) :
    ∃ r', (moveReady (takeMessage kcp).rcvBuf (takeMessage kcp)).receiveSide.Shows kcp.rcvWnd.toNat
        Q r' (taken + (messageOf kcp.rcvQueue).length) ∧
      (moveReady (takeMessage kcp).rcvBuf (takeMessage kcp)).receiveSide.Settled
        kcp.rcvWnd.toNat r' ∧ (∀ i, r'.Has i ↔ r.Has i) ∧ r.next ≤ r'.next := by
  have hfront := (messageOf_isPrefix kcp.rcvQueue).length_le
  have htaken : taken + kcp.rcvQueue.length = r.next := h.taken
  have hque : kcp.nrcvQue.toNat = kcp.rcvQueue.length := h.nrcvQue
  have hle : kcp.rcvQueue.length ≤ kcp.rcvWnd.toNat := h.nrcvQue_le
  refine moveReady_shows hwnd ?_
  refine ⟨h.next, h.early, h.window, ?_, ?_, ?_, ?_, h.nrcvBuf⟩
  · intro k seg hk
    have hk' : (kcp.rcvQueue.drop (messageOf kcp.rcvQueue).length)[k]? = some seg := hk
    rw [List.getElem?_drop] at hk'
    rw [Nat.add_assoc]
    exact h.queue _ seg hk'
  · change _ + (kcp.rcvQueue.drop _).length = _
    rw [List.length_drop]
    omega
  · change (kcp.nrcvQue - _).toNat = (kcp.rcvQueue.drop _).length
    have hcount : (UInt32.ofNat (messageOf kcp.rcvQueue).length).toNat =
        (messageOf kcp.rcvQueue).length := UInt32.toNat_ofNat_of_lt' (by
      change _ < 2 ^ 32
      omega)
    rw [UInt32.toNat_sub_of_le _ _ (by rw [UInt32.le_iff_toNat_le, hcount, hque]; exact hfront),
      hcount, hque, List.length_drop]
  · change (kcp.rcvQueue.drop _).length ≤ _
    rw [List.length_drop]
    exact (Nat.sub_le _ _).trans hle

end Receive

end BoardComm.Ikcp
