import BoardComm.IkcpSending

/-!
# What a KCP session takes in

Every segment tells the sending side what was received, and may give the receiving side
an item. What a segment can do to a session is said once, for any segment: it may be
late, repeated or made up.
-/
namespace BoardComm.Ikcp

open SelectiveRepeat

variable {kcp : Ikcpcb} {Q R : ℕ → Piece → Prop} {s : Sender} {r : Receiver}
  {given taken : ℕ}

section Frames

theorem parseUnaLoop_only (una : UInt32) (segs : List IkcpSeg) (kcp : Ikcpcb) :
    SendOnly kcp (parseUnaLoop una segs kcp) := by
  induction segs generalizing kcp with
  | nil => rfl
  | cons seg segs ih =>
    rw [parseUnaLoop]
    split_ifs
    · refine SendOnly.trans ?_ (ih _)
      rfl
    · rfl

theorem ikcpShrinkBuf_only (kcp : Ikcpcb) : SendOnly kcp (ikcpShrinkBuf kcp) := rfl

theorem ikcpParseAck_only (kcp : Ikcpcb) (sn : UInt32) : SendOnly kcp (ikcpParseAck kcp sn) := by
  unfold ikcpParseAck
  split_ifs
  · rfl
  · cases parseAckLoop sn kcp.sndBuf <;> rfl

theorem ikcpParseFastack_only (kcp : Ikcpcb) (sn ts : UInt32) :
    SendOnly kcp (ikcpParseFastack kcp sn ts) := by
  unfold ikcpParseFastack
  split_ifs <;> rfl

theorem ikcpParseData_eq (kcp : Ikcpcb) (newseg : IkcpSeg) :
    ikcpParseData kcp newseg = kcp.withReceive (ikcpParseData kcp newseg).receiveSide := by
  have hplace : placeSegment kcp newseg =
      kcp.withReceive (placeSegment kcp newseg).receiveSide := by
    unfold placeSegment
    cases placeLoop newseg kcp.rcvBuf.reverse <;> rfl
  unfold ikcpParseData
  split_ifs
  · rfl
  · rw [hplace]
    exact moveReady_eq _ _

/-- What an acknowledgement leaves alone. -/
theorem inputAck_keeps {α : Type} (field : Ikcpcb → α)
    (hfield : ∀ kcp side, field (Ikcpcb.withSend kcp side) = field kcp)
    (hrto : ∀ kcp rtt, field (ikcpUpdateAck kcp rtt) = field kcp) (kcp : Ikcpcb) (head : IkcpHead) :
    field (inputAck kcp head) = field kcp := by
  let kcp' := if itimediff kcp.current head.ts ≥ 0 then
    ikcpUpdateAck kcp (kcp.current - head.ts).toInt32 else kcp
  have honly : SendOnly kcp' (inputAck kcp head) :=
    (ikcpParseAck_only kcp' head.sn).trans (ikcpShrinkBuf_only _)
  rw [honly.keeps field (hfield _)]
  unfold kcp'
  split_ifs
  · exact hrto _ _
  · rfl

/-- What data leaves alone. -/
theorem inputPush_keeps {α : Type} (field : Ikcpcb → α)
    (hfield : ∀ kcp side, field (Ikcpcb.withReceive kcp side) = field kcp)
    (hpush : ∀ kcp sn ts, field (ikcpAckPush kcp sn ts) = field kcp) (kcp : Ikcpcb)
    (head : IkcpHead) (data : List UInt8) : field (inputPush kcp head data) = field kcp := by
  unfold inputPush
  simp only
  split_ifs
  · rw [ikcpParseData_eq, hfield, hpush]
  · exact hpush _ _ _
  · rfl

/-- What the front of a segment leaves alone. -/
theorem parseUna_only (kcp : Ikcpcb) (wnd una : UInt32) :
    SendOnly { kcp with rmtWnd := wnd }
      (ikcpShrinkBuf (ikcpParseUna { kcp with rmtWnd := wnd } una)) :=
  (parseUnaLoop_only una kcp.sndBuf _).trans (ikcpShrinkBuf_only _)

/-- No segment changes what was settled when the session was opened. -/
theorem inputSegment_settings (kcp : Ikcpcb) (acked : Acked) (head : IkcpHead) (data : List UInt8) :
    (inputSegment kcp acked head data).1.settings = kcp.settings ∧
      (inputSegment kcp acked head data).1.updated = kcp.updated := by
  have honly := parseUna_only kcp head.wnd.toUInt32 head.una
  have hset := honly.keeps Ikcpcb.settings fun _ => rfl
  have hup := honly.keeps Ikcpcb.updated fun _ => rfl
  unfold inputSegment
  simp only
  split_ifs
  · rw [inputAck_keeps Ikcpcb.settings (fun _ _ => rfl) (fun _ _ => rfl),
      inputAck_keeps Ikcpcb.updated (fun _ _ => rfl) (fun _ _ => rfl)]
    exact ⟨hset, hup⟩
  · rw [inputPush_keeps Ikcpcb.settings (fun _ _ => rfl) (fun _ _ _ => rfl),
      inputPush_keeps Ikcpcb.updated (fun _ _ => rfl) (fun _ _ _ => rfl)]
    exact ⟨hset, hup⟩
  · exact ⟨hset, hup⟩
  · exact ⟨hset, hup⟩

/-- Every segment gives the window of the other end. -/
theorem inputSegment_rmtWnd (kcp : Ikcpcb) (acked : Acked) (head : IkcpHead) (data : List UInt8) :
    (inputSegment kcp acked head data).1.rmtWnd = head.wnd.toUInt32 := by
  have hrmt := (parseUna_only kcp head.wnd.toUInt32 head.una).keeps Ikcpcb.rmtWnd fun _ => rfl
  unfold inputSegment
  simp only
  split_ifs
  · exact (inputAck_keeps Ikcpcb.rmtWnd (fun _ _ => rfl) (fun _ _ => rfl) _ head).trans hrmt
  · exact (inputPush_keeps Ikcpcb.rmtWnd (fun _ _ => rfl) (fun _ _ _ => rfl) _ head data).trans hrmt
  · exact hrmt
  · exact hrmt

/-- An answer that is to be given is not forgotten, and a question is to be answered. -/
theorem inputSegment_askTell (kcp : Ikcpcb) (acked : Acked) (head : IkcpHead) (data : List UInt8)
    (h : kcp.askTell = true ∨ head.cmd.toUInt32 = ikcpCmdWask) :
    (inputSegment kcp acked head data).1.askTell = true := by
  have htell := (parseUna_only kcp head.wnd.toUInt32 head.una).keeps Ikcpcb.askTell fun _ => rfl
  unfold inputSegment
  simp only
  split_ifs with hack hpush hwask
  · rw [inputAck_keeps Ikcpcb.askTell (fun _ _ => rfl) (fun _ _ => rfl), htell]
    exact h.resolve_right fun hcmd => absurd (hack.symm.trans hcmd) (by decide)
  · rw [inputPush_keeps Ikcpcb.askTell (fun _ _ => rfl) (fun _ _ _ => rfl), htell]
    exact h.resolve_right fun hcmd => absurd (hpush.symm.trans hcmd) (by decide)
  · rfl
  · rw [htell]
    exact h.resolve_right hwask

/-- An item in the window is to be acknowledged. -/
theorem inputSegment_pushed (kcp : Ikcpcb) (acked : Acked) (head : IkcpHead) (data : List UInt8)
    (hcmd : head.cmd.toUInt32 = ikcpCmdPush)
    (hroom : itimediff head.sn (kcp.rcvNxt + kcp.rcvWnd) < 0) :
    (head.sn, head.ts) ∈ (inputSegment kcp acked head data).1.acklist := by
  have honly := parseUna_only kcp head.wnd.toUInt32 head.una
  have hnxt := honly.keeps Ikcpcb.rcvNxt fun _ => rfl
  have hwnd := honly.keeps Ikcpcb.rcvWnd fun _ => rfl
  have hack : ¬ head.cmd.toUInt32 = ikcpCmdAck :=
    fun hack => absurd (hack.symm.trans hcmd) (by decide)
  unfold inputSegment inputPush
  simp only
  rw [if_neg hack, if_pos hcmd, hnxt, hwnd, if_pos hroom]
  have hmem : ∀ kcp : Ikcpcb, (head.sn, head.ts) ∈ (ikcpAckPush kcp head.sn head.ts).acklist :=
    fun kcp => List.mem_append_right _ (List.mem_singleton_self _)
  split_ifs
  · rw [ikcpParseData_eq]
    exact hmem _
  · exact hmem _

/-- The congestion window concerns nothing else. -/
theorem growCwnd_eq (kcp : Ikcpcb) :
    ∃ cwnd incr, growCwnd kcp = { kcp with cwnd := cwnd, incr := incr } := by
  unfold growCwnd
  simp only
  split_ifs <;> exact ⟨_, _, rfl⟩

end Frames

section Rto

/-- The timeout for sending again stays between its bounds. -/
structure RtoBounded (kcp : Ikcpcb) : Prop where
  min : kcp.rxMinrto.toUInt32 ≤ kcp.rxRto.toUInt32
  max : kcp.rxRto.toUInt32 ≤ ikcpRtoMax

theorem ibound_bounds {lower upper : UInt32} (h : lower ≤ upper) (middle : UInt32) :
    lower ≤ ibound lower middle upper ∧ ibound lower middle upper ≤ upper := by
  unfold ibound imin imax
  grind

/-- Whatever an acknowledgement makes of the measured times. -/
theorem ikcpUpdateAck_rto (hmin : kcp.rxMinrto.toUInt32 ≤ ikcpRtoMax) (rtt : Int32) :
    RtoBounded (ikcpUpdateAck kcp rtt) := by
  obtain ⟨hlow, hhigh⟩ := ibound_bounds hmin _
  exact ⟨hlow, hhigh⟩

end Rto

/-- A session whose sides show a sender and a receiver. -/
structure Orderly (kcp : Ikcpcb) (Q R : ℕ → Piece → Prop) (s : Sender) (given : ℕ)
    (r : Receiver) (taken : ℕ) : Prop where
  send : kcp.sendSide.Shows kcp.conv Q s given
  current : kcp.sendSide.Current s
  receive : kcp.receiveSide.Shows kcp.rcvWnd.toNat R r taken
  settled : kcp.receiveSide.Settled kcp.rcvWnd.toNat r
  rcvWnd : kcp.rcvWnd.toNat < 2 ^ 31
  rmtWnd : kcp.rmtWnd.toNat < 2 ^ 16
  minrto : kcp.rxMinrto.toUInt32 ≤ ikcpRtoMax
  rto : RtoBounded kcp

/-- The sending side may change by itself. -/
theorem Orderly.sending {kcp' : Ikcpcb} {s' : Sender} (h : Orderly kcp Q R s given r taken)
    (hsend : kcp'.sendSide.Shows kcp.conv Q s' given) (hcur : kcp'.sendSide.Current s')
    (hreceive : kcp'.receiveSide = kcp.receiveSide) (hset : kcp'.settings = kcp.settings)
    (hrmt : kcp'.rmtWnd.toNat < 2 ^ 16) (hrto : RtoBounded kcp') :
    Orderly kcp' Q R s' given r taken := by
  have hconv : kcp'.conv = kcp.conv := congrArg Settings.conv hset
  have hwnd : kcp'.rcvWnd = kcp.rcvWnd := congrArg Settings.rcvWnd hset
  have hmin : kcp'.rxMinrto = kcp.rxMinrto := congrArg Settings.rxMinrto hset
  constructor
  · rwa [hconv]
  · exact hcur
  · rw [hreceive, hwnd]
    exact h.receive
  · rw [hreceive, hwnd]
    exact h.settled
  · rw [hwnd]
    exact h.rcvWnd
  · exact hrmt
  · rw [hmin]
    exact h.minrto
  · exact hrto

/-- So may the receiving side. -/
theorem Orderly.receiving {side : ReceiveSide} {r' : Receiver} {taken' : ℕ}
    (h : Orderly kcp Q R s given r taken) (hshows : side.Shows kcp.rcvWnd.toNat R r' taken')
    (hsettled : side.Settled kcp.rcvWnd.toNat r') :
    Orderly (kcp.withReceive side) Q R s given r' taken' :=
  ⟨h.send, h.current, hshows, hsettled, h.rcvWnd, h.rmtWnd, h.minrto, ⟨h.rto.min, h.rto.max⟩⟩

/-- What is known of the items may become more. -/
theorem Orderly.imp {Q' R' : ℕ → Piece → Prop} (h : Orderly kcp Q R s given r taken)
    (hQ : ∀ i p, Q i p → Q' i p) (hR : ∀ i p, R i p → R' i p) :
    Orderly kcp Q' R' s given r taken := by
  have hkept : List.Forall₂ (Kept kcp.conv Q') s.kept kcp.sndBuf :=
    h.send.kept.imp fun i seg hseg => ⟨⟨hseg.shown.1, hQ _ _ hseg.shown.2⟩, hseg.conv, hseg.cmd⟩
  have hearly : List.Forall₂ (Shown R') r.early kcp.rcvBuf :=
    h.receive.early.imp fun i seg hseg => ⟨hseg.1, hR _ _ hseg.2⟩
  exact { h with
    send := { h.send with kept := hkept, queue := h.send.queue.imp hQ }
    receive := { h.receive with early := hearly, queue := h.receive.queue.imp hR } }

/-- The segment says that the item was received: the item stands in front of its `una`,
or the segment is the acknowledgement of the item. -/
def Tells (head : IkcpHead) (i : ℕ) : Prop :=
  (∃ u, head.una = .ofNat u ∧ i < u ∧ u < i + 2 ^ 31) ∨
    head.cmd.toUInt32 = ikcpCmdAck ∧ head.sn = .ofNat i

/-- The segment brings the item, and the receiver has a place for it. -/
def Brings (head : IkcpHead) (r : Receiver) (wnd i : ℕ) : Prop :=
  head.cmd.toUInt32 = ikcpCmdPush ∧ head.sn = .ofNat i ∧ r.next ≤ i ∧ i < r.next + wnd

/-- What a segment does to the receiving side: it brings an item or nothing, and what is
acknowledged was received or seems to have been received before. -/
structure Heard (kcp kcp' : Ikcpcb) (head : IkcpHead) (r r' : Receiver) : Prop where
  settings : kcp'.settings = kcp.settings
  updated : kcp'.updated = kcp.updated
  more : ∀ i, r.Has i → r'.Has i
  has : ∀ i, r'.Has i → r.Has i ∨ Brings head r kcp.rcvWnd.toNat i
  next : r.next ≤ r'.next
  acklist : kcp'.acklist = kcp.acklist ∨
    kcp'.acklist = kcp.acklist ++ [(head.sn, head.ts)] ∧ head.cmd.toUInt32 = ikcpCmdPush ∧
      (itimediff head.sn (.ofNat r.next) < 0 ∨
        ∃ i, Brings head r kcp.rcvWnd.toNat i ∧ r'.Has i)

theorem Heard.nothing {kcp' : Ikcpcb} {head : IkcpHead} (hset : kcp'.settings = kcp.settings)
    (hup : kcp'.updated = kcp.updated) (hack : kcp'.acklist = kcp.acklist) :
    Heard kcp kcp' head r r :=
  ⟨hset, hup, fun _ => id, fun _ => .inl, le_rfl, .inl hack⟩

theorem Orderly.sendOnly {kcp' : Ikcpcb} {s' : Sender} (h : Orderly kcp Q R s given r taken)
    (honly : SendOnly kcp kcp') (hsend : kcp'.sendSide.Shows kcp.conv Q s' given)
    (hcur : kcp'.sendSide.Current s') : Orderly kcp' Q R s' given r taken := by
  have hrmt : kcp'.rmtWnd = kcp.rmtWnd := honly.keeps Ikcpcb.rmtWnd fun _ => rfl
  have hmin : kcp'.rxMinrto = kcp.rxMinrto := honly.keeps Ikcpcb.rxMinrto fun _ => rfl
  have hrto : kcp'.rxRto = kcp.rxRto := honly.keeps Ikcpcb.rxRto fun _ => rfl
  refine h.sending hsend hcur (honly.keeps Ikcpcb.receiveSide fun _ => rfl)
    (honly.keeps Ikcpcb.settings fun _ => rfl) ?_ ⟨?_, ?_⟩
  · rw [hrmt]
    exact h.rmtWnd
  · rw [hmin, hrto]
    exact h.rto.min
  · rw [hrto]
    exact h.rto.max

/-- What every segment tells comes first: the window of the other end, and what it has
received up to. -/
theorem parseUna_orderly (h : Orderly kcp Q R s given r taken) (wnd : UInt16) (una : UInt32) :
    ∃ p, Orderly (ikcpShrinkBuf (ikcpParseUna { kcp with rmtWnd := wnd.toUInt32 } una)) Q R
        (s.acknowledge p) given r taken ∧
      ∀ i ∈ s.kept, p i = true → ∃ u, una = .ofNat u ∧ i < u ∧ u < i + 2 ^ 31 := by
  let kcp' : Ikcpcb := { kcp with rmtWnd := wnd.toUInt32 }
  have horderly : Orderly kcp' Q R s given r taken :=
    ⟨h.send, h.current, h.receive, h.settled, h.rcvWnd, wnd.toNat_lt, h.minrto,
      ⟨h.rto.min, h.rto.max⟩⟩
  obtain ⟨p, hshows, htold⟩ := ikcpParseUna_shows horderly.send una
  obtain ⟨hshows, hcur⟩ := ikcpShrinkBuf_shows hshows
  exact ⟨p, horderly.sendOnly (parseUna_only kcp _ una) hshows hcur, htold⟩

/-- An acknowledgement gives a new measure of the time that it took, and takes an item
away. -/
theorem inputAck_orderly (h : Orderly kcp Q R s given r taken) {head : IkcpHead} :
    ∃ p, Orderly (inputAck kcp head) Q R (s.acknowledge p) given r taken ∧
      ∀ i ∈ s.kept, p i = true ↔ head.sn = .ofNat i := by
  let kcp' := if itimediff kcp.current head.ts ≥ 0 then
    ikcpUpdateAck kcp (kcp.current - head.ts).toInt32 else kcp
  have horderly : Orderly kcp' Q R s given r taken := by
    unfold kcp'
    split_ifs
    · exact ⟨h.send, h.current, h.receive, h.settled, h.rcvWnd, h.rmtWnd, h.minrto,
        ikcpUpdateAck_rto h.minrto _⟩
    · exact h
  obtain ⟨p, hshows, htold⟩ := ikcpParseAck_shows horderly.send horderly.current head.sn
  obtain ⟨hshows, hcur⟩ := ikcpShrinkBuf_shows hshows
  have honly : SendOnly kcp' (inputAck kcp head) :=
    (ikcpParseAck_only kcp' head.sn).trans (ikcpShrinkBuf_only _)
  exact ⟨p, horderly.sendOnly honly hshows hcur, htold⟩

/-- An item that a segment brings is acknowledged, and received if it is not there yet. -/
theorem inputPush_orderly (h : Orderly kcp Q R s given r taken) {head : IkcpHead} {data : List UInt8}
    (hcmd : head.cmd.toUInt32 = ikcpCmdPush)
    (hR : ∀ i, Brings head r kcp.rcvWnd.toNat i → R i (head.frg.toUInt32, data)) :
    ∃ r', Orderly (inputPush kcp head data) Q R s given r' taken ∧
      Heard kcp (inputPush kcp head data) head r r' := by
  have hnext : kcp.rcvNxt = .ofNat r.next := h.receive.next
  have hwnd := h.rcvWnd
  have hpush : Orderly (ikcpAckPush kcp head.sn head.ts) Q R s given r taken :=
    ⟨h.send, h.current, h.receive, h.settled, h.rcvWnd, h.rmtWnd, h.minrto, ⟨h.rto.min, h.rto.max⟩⟩
  unfold inputPush
  simp only
  split_ifs with hroom hnew
  · -- The item is in the window.
    have hnew' : itimediff head.sn kcp.rcvNxt ≥ 0 := hnew
    rw [hnext] at hnew' hroom
    obtain ⟨i, hle, hnear, hsn⟩ := exists_later hnew'
    have hlt : i < r.next + kcp.rcvWnd.toNat := by
      rw [hsn, ofNat_add_toNat, itimediff_ofNat (by omega) (by omega)] at hroom
      omega
    have hbrings : Brings head r kcp.rcvWnd.toNat i := ⟨hcmd, hsn, hle, hlt⟩
    let seg : IkcpSeg :=
      { conv := head.conv, cmd := head.cmd.toUInt32, frg := head.frg.toUInt32,
        wnd := head.wnd.toUInt32, ts := head.ts, sn := head.sn, una := head.una, data := data }
    have hshown : Shown R i seg := ⟨hsn, hR i hbrings⟩
    obtain ⟨r', hshows, hsettled, hhas, hmono⟩ :=
      ikcpParseData_shows hshown hpush.rcvWnd hpush.receive hle hlt
    refine ⟨r', ?_, ?_⟩
    · rw [ikcpParseData_eq]
      exact hpush.receiving hshows hsettled
    · rw [ikcpParseData_eq]
      refine ⟨rfl, rfl, fun j hj => (hhas j).mpr (.inl hj), fun j hj => ?_, hmono,
        .inr ⟨rfl, hcmd, ?_⟩⟩
      · rcases (hhas j).mp hj with hj | rfl
        · exact .inl hj
        · exact .inr hbrings
      · exact .inr ⟨i, hbrings, (hhas i).mpr (.inr rfl)⟩
  · -- It stands in front of the window.
    have hnew' : ¬ itimediff head.sn kcp.rcvNxt ≥ 0 := hnew
    rw [hnext] at hnew'
    exact ⟨r, hpush, rfl, rfl, fun _ => id, fun _ => .inl, le_rfl,
      .inr ⟨rfl, hcmd, .inl (not_le.mp hnew')⟩⟩
  · exact ⟨r, h, Heard.nothing rfl rfl rfl⟩

/-- What a segment can do to a session. -/
theorem inputSegment_orderly (h : Orderly kcp Q R s given r taken) (acked : Acked) {head : IkcpHead}
    {data : List UInt8}
    (hR : ∀ i, Brings head r kcp.rcvWnd.toNat i → R i (head.frg.toUInt32, data)) :
    ∃ p r', Orderly (inputSegment kcp acked head data).1 Q R (s.acknowledge p) given r' taken ∧
      Heard kcp (inputSegment kcp acked head data).1 head r r' ∧
      (∀ i ∈ s.kept, p i = true → Tells head i) ∧
      ∀ i ∈ s.kept, head.cmd.toUInt32 = ikcpCmdAck → head.sn = .ofNat i → p i = true := by
  obtain ⟨p, horderly, htold⟩ := parseUna_orderly h head.wnd head.una
  let kcp₁ := ikcpShrinkBuf (ikcpParseUna { kcp with rmtWnd := head.wnd.toUInt32 } head.una)
  have honly := parseUna_only kcp head.wnd.toUInt32 head.una
  have hset : kcp₁.settings = kcp.settings := honly.keeps Ikcpcb.settings fun _ => rfl
  have hup : kcp₁.updated = kcp.updated := honly.keeps Ikcpcb.updated fun _ => rfl
  have hack : kcp₁.acklist = kcp.acklist := honly.keeps Ikcpcb.acklist fun _ => rfl
  have hwnd : kcp₁.rcvWnd = kcp.rcvWnd := congrArg Settings.rcvWnd hset
  have htells : ∀ i ∈ s.kept, p i = true → Tells head i := fun i hi hp => .inl (htold i hi hp)
  unfold inputSegment
  simp only
  split_ifs with hcack hpush
  · obtain ⟨p', horderly', htold'⟩ := inputAck_orderly horderly
    refine ⟨fun i => p i || p' i, r, ?_, Heard.nothing ?_ ?_ ?_, ?_, ?_⟩
    · rw [← Sender.acknowledge_acknowledge]
      exact horderly'
    · exact (inputAck_keeps _ (fun _ _ => rfl) (fun _ _ => rfl) kcp₁ head).trans hset
    · exact (inputAck_keeps _ (fun _ _ => rfl) (fun _ _ => rfl) kcp₁ head).trans hup
    · exact (inputAck_keeps _ (fun _ _ => rfl) (fun _ _ => rfl) kcp₁ head).trans hack
    · intro i hi hp
      cases hpi : p i with
      | true => exact htells i hi hpi
      | false =>
        have hp' : p' i = true := by simpa [hpi] using hp
        exact .inr ⟨hcack, (htold' i (Sender.mem_acknowledge.mpr ⟨hi, hpi⟩)).mp hp'⟩
    · intro i hi _ hsn
      change (p i || p' i) = true
      rw [Bool.or_eq_true, or_iff_not_imp_left]
      intro hpi
      exact (htold' i (Sender.mem_acknowledge.mpr ⟨hi, Bool.eq_false_of_not_eq_true hpi⟩)).mpr hsn
  · obtain ⟨r', horderly', hheard⟩ := inputPush_orderly horderly hpush
      fun i hi => hR i (by rwa [← hwnd])
    refine ⟨p, r', horderly', ?_, htells, fun _ _ hcmd => absurd hcmd hcack⟩
    obtain ⟨hset', hup', hmore, hhas, hnext, hacklist⟩ := hheard
    rw [hwnd] at hhas hacklist
    rw [hack] at hacklist
    exact ⟨hset'.trans hset, hup'.trans hup, hmore, hhas, hnext, hacklist⟩
  · refine ⟨p, r, ?_, Heard.nothing hset hup hack, htells, fun _ _ hcmd => absurd hcmd hcack⟩
    exact ⟨horderly.send, horderly.current, horderly.receive, horderly.settled, horderly.rcvWnd,
      horderly.rmtWnd, horderly.minrto, ⟨horderly.rto.min, horderly.rto.max⟩⟩
  · exact ⟨p, r, horderly, Heard.nothing hset hup hack, htells, fun _ _ hcmd => absurd hcmd hcack⟩

section Datagrams

/-- The end of a datagram changes nothing that is kept or received. -/
theorem inputEnd_orderly (h : Orderly kcp Q R s given r taken) (prevUna : UInt32) (acked : Acked) :
    Orderly (inputEnd prevUna kcp acked) Q R s given r taken := by
  have hcounted : ∀ maxack latestTs,
      Orderly (ikcpParseFastack kcp maxack latestTs) Q R s given r taken := by
    intro maxack latestTs
    obtain ⟨hshows, hcur⟩ := ikcpParseFastack_shows h.send h.current maxack latestTs
    exact h.sendOnly (ikcpParseFastack_only _ _ _) hshows hcur
  have hgrown : ∀ kcp', Orderly kcp' Q R s given r taken →
      Orderly (growCwnd kcp') Q R s given r taken := by
    intro kcp' h'
    obtain ⟨cwnd, incr, hgrow⟩ := growCwnd_eq kcp'
    rw [hgrow]
    exact ⟨h'.send, h'.current, h'.receive, h'.settled, h'.rcvWnd, h'.rmtWnd, h'.minrto,
      ⟨h'.rto.min, h'.rto.max⟩⟩
  cases acked with
  | none =>
    simp only [inputEnd]
    split_ifs
    · exact hgrown _ h
    · exact h
  | some acked =>
    simp only [inputEnd]
    split_ifs
    · exact hgrown _ (hcounted _ _)
    · exact hcounted _ _

theorem inputEnd_keeps {α : Type} (field : Ikcpcb → α)
    (hfield : ∀ kcp side, field (Ikcpcb.withSend kcp side) = field kcp)
    (hgrow : ∀ (kcp : Ikcpcb) cwnd incr, field { kcp with cwnd := cwnd, incr := incr } = field kcp)
    (prevUna : UInt32) (kcp : Ikcpcb) (acked : Acked) :
    field (inputEnd prevUna kcp acked) = field kcp := by
  have hgrown : ∀ kcp', field (growCwnd kcp') = field kcp' := by
    intro kcp'
    obtain ⟨cwnd, incr, heq⟩ := growCwnd_eq kcp'
    rw [heq]
    exact hgrow _ _ _
  have hcounted : ∀ maxack latestTs, field (ikcpParseFastack kcp maxack latestTs) = field kcp :=
    fun maxack latestTs => (ikcpParseFastack_only kcp maxack latestTs).keeps field (hfield _)
  cases acked with
  | none =>
    simp only [inputEnd]
    split_ifs
    · exact hgrown _
    · rfl
  | some acked =>
    simp only [inputEnd]
    split_ifs
    · exact (hgrown _).trans (hcounted _ _)
    · exact hcounted _ _

/-- A datagram of the other end is read to its end. -/
theorem ikcpInput_row {segs : List IkcpSeg} (hne : segs ≠ [])
    (hsegs : ∀ seg ∈ segs, Sendable kcp.conv seg) :
    ikcpInput kcp (rowBytes segs) =
      (0, inputEnd kcp.sndUna (inputRow kcp none segs).1 (inputRow kcp none segs).2) := by
  obtain ⟨seg, rest, rfl⟩ := List.exists_cons_of_ne_nil hne
  have hlong : ¬ (rowBytes (seg :: rest)).length < ikcpOverhead := by
    rw [rowBytes_cons, List.length_append, segBytes_length]
    omega
  have hconv : ∀ kcp acked head data, (inputSegment kcp acked head data).1.conv = kcp.conv :=
    fun kcp acked head data =>
      congrArg Settings.conv (inputSegment_settings kcp acked head data).1
  rw [ikcpInput, if_neg hlong, inputLoop_row hconv hsegs le_rfl]

/-- A datagram of another session is refused. -/
theorem ikcpInput_foreign {conv : UInt32} {segs : List IkcpSeg} (hne : segs ≠ [])
    (hsegs : ∀ seg ∈ segs, Sendable conv seg) (hconv : conv ≠ kcp.conv) :
    ikcpInput kcp (rowBytes segs) = (-1, kcp) := by
  obtain ⟨seg, rest, rfl⟩ := List.exists_cons_of_ne_nil hne
  have hlen : (rowBytes (seg :: rest)).length =
      ikcpOverhead + seg.data.length + (rowBytes rest).length := by
    rw [rowBytes_cons, List.length_append, segBytes_length]
  obtain ⟨fuel, hfuel⟩ : ∃ n, (rowBytes (seg :: rest)).length = n + 1 :=
    Nat.exists_eq_succ_of_ne_zero (by rw [hlen, ikcpOverhead]; omega)
  have hlong : ¬ (rowBytes (seg :: rest)).length < ikcpOverhead := by
    rw [hlen]
    omega
  have hhead : IkcpHead.ofBytes (rowBytes (seg :: rest)) = headOf seg := by
    rw [rowBytes_cons, segBytes_eq, List.append_assoc, IkcpHead.ofBytes_toBytes_append]
  have hother : (headOf seg).conv ≠ kcp.conv := by
    rw [← (hsegs seg List.mem_cons_self).conv] at hconv
    exact hconv
  have hloop : inputLoop (rowBytes (seg :: rest)).length (rowBytes (seg :: rest)) kcp none =
      (.error (-1), kcp) := by
    rw [hfuel, inputLoop, if_neg hlong, hhead]
    simp only [if_pos hother]
  rw [ikcpInput, if_neg hlong, hloop]

/-- Whatever bytes come, a session that takes any item stays orderly. -/
theorem inputLoop_orderly {fuel : ℕ} {data : List UInt8} {acked : Acked}
    (hR : ∀ i (frg : UInt8) data, R i (frg.toUInt32, data)) (h : Orderly kcp Q R s given r taken) :
    ∃ s' r', Orderly (inputLoop fuel data kcp acked).2 Q R s' given r' taken ∧
      (inputLoop fuel data kcp acked).2.settings = kcp.settings ∧
      (inputLoop fuel data kcp acked).2.updated = kcp.updated := by
  induction fuel generalizing data kcp acked s r with
  | zero => exact ⟨s, r, h, rfl, rfl⟩
  | succ fuel ih =>
    rw [inputLoop]
    simp only
    split_ifs
    · exact ⟨s, r, h, rfl, rfl⟩
    · exact ⟨s, r, h, rfl, rfl⟩
    · exact ⟨s, r, h, rfl, rfl⟩
    · obtain ⟨p, r', horderly, hheard, -, -⟩ := inputSegment_orderly h acked fun i _ => hR i _ _
      obtain ⟨s'', r'', horderly', hset, hup⟩ := ih horderly
      exact ⟨s'', r'', horderly', hset.trans hheard.settings, hup.trans hheard.updated⟩
    · exact ⟨s, r, h, rfl, rfl⟩

/-- What `ikcp_input` does to a session that takes any item. -/
theorem ikcpInput_orderly (data : List UInt8) (hR : ∀ i (frg : UInt8) data, R i (frg.toUInt32, data))
    (h : Orderly kcp Q R s given r taken) :
    ∃ s' r', Orderly (ikcpInput kcp data).2 Q R s' given r' taken ∧
      (ikcpInput kcp data).2.settings = kcp.settings ∧
      (ikcpInput kcp data).2.updated = kcp.updated := by
  unfold ikcpInput
  split_ifs
  · exact ⟨s, r, h, rfl, rfl⟩
  · obtain ⟨s', r', horderly, hset, hup⟩ := inputLoop_orderly hR h
    cases hloop : inputLoop data.length data kcp none with
    | mk result kcp' =>
      rw [hloop] at horderly hset hup
      cases result with
      | error rc => exact ⟨s', r', horderly, hset, hup⟩
      | ok acked =>
        exact ⟨s', r', inputEnd_orderly horderly _ _,
          (inputEnd_keeps _ (fun _ _ => rfl) (fun _ _ _ => rfl) _ _ _).trans hset,
          (inputEnd_keeps _ (fun _ _ => rfl) (fun _ _ _ => rfl) _ _ _).trans hup⟩

end Datagrams

end BoardComm.Ikcp
