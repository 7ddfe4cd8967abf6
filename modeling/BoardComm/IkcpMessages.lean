import BoardComm.IkcpSides

/-!
# Messages in pieces

`ikcp_send` cuts a message into pieces that are counted down to zero, by which
`ikcp_recv` finds the end of the message again.
-/
namespace BoardComm.Ikcp

/-- The pieces of messages, in the order in which they are numbered. -/
def pieces (mss : ℕ) (msgs : List (List UInt8)) : List Piece :=
  msgs.flatMap fun msg => (pieceLoop mss (pieceCount mss msg.length) msg).map IkcpSeg.piece

/-- The item is the piece of one of the messages. -/
def PieceOf (mss : ℕ) (msgs : List (List UInt8)) (i : ℕ) (p : Piece) : Prop :=
  (pieces mss msgs)[i]? = some p

variable {mss : ℕ}

@[simp] theorem pieceLoop_length (mss n : ℕ) (buffer : List UInt8) :
    (pieceLoop mss n buffer).length = n := by
  induction n generalizing buffer with
  | zero => rfl
  | succ n ih => rw [pieceLoop, List.length_cons, ih]

@[simp] theorem pieces_nil (mss : ℕ) : pieces mss [] = [] := rfl

@[simp] theorem pieces_append (mss : ℕ) (msgs msgs' : List (List UInt8)) :
    pieces mss (msgs ++ msgs') = pieces mss msgs ++ pieces mss msgs' := List.flatMap_append

theorem pieces_cons (mss : ℕ) (msg : List UInt8) (msgs : List (List UInt8)) :
    pieces mss (msg :: msgs) =
      (pieceLoop mss (pieceCount mss msg.length) msg).map IkcpSeg.piece ++ pieces mss msgs := rfl

theorem pieces_singleton_length (mss : ℕ) (msg : List UInt8) :
    (pieces mss [msg]).length = pieceCount mss msg.length := by
  rw [pieces_cons, pieces_nil, List.append_nil, List.length_map, pieceLoop_length]

/-- Later messages change nothing of the pieces of earlier ones. -/
theorem PieceOf.append {msgs : List (List UInt8)} {i : ℕ} {p : Piece} (h : PieceOf mss msgs i p)
    (msgs' : List (List UInt8)) : PieceOf mss (msgs ++ msgs') i p := by
  obtain ⟨hlt, -⟩ := List.getElem?_eq_some_iff.mp h
  rw [PieceOf, pieces_append, List.getElem?_append_left hlt]
  exact h

/-- The pieces of a further message are numbered behind the others. -/
theorem numbered_pieceLoop (mss : ℕ) (msgs : List (List UInt8)) (msg : List UInt8) :
    Numbered (PieceOf mss (msgs ++ [msg])) (pieces mss msgs).length
      (pieceLoop mss (pieceCount mss msg.length) msg) := by
  intro k seg hk
  rw [PieceOf, pieces_append, List.getElem?_append_right (Nat.le_add_right _ _),
    Nat.add_sub_cancel_left, pieces_cons, pieces_nil, List.append_nil, List.getElem?_map, hk]
  rfl

theorem pieceCount_pos (mss len : ℕ) (hmss : 0 < mss) : 0 < pieceCount mss len := by
  unfold pieceCount
  split_ifs with hle
  · exact Nat.one_pos
  · exact Nat.div_pos (by omega) hmss

/-- There are enough pieces for the whole message. -/
theorem le_mul_pieceCount (len : ℕ) (hmss : 0 < mss) : len ≤ mss * pieceCount mss len := by
  unfold pieceCount
  split_ifs with hle
  · omega
  · have := Nat.div_add_mod (len + mss - 1) mss
    have := Nat.mod_lt (len + mss - 1) hmss
    omega

/-- A piece is no longer than `mss`, and the numbers of the pieces are below their count. -/
theorem pieceLoop_bounds {n : ℕ} {buffer : List UInt8} {seg : IkcpSeg} (hn : n ≤ 2 ^ 32)
    (h : seg ∈ pieceLoop mss n buffer) : seg.data.length ≤ mss ∧ seg.frg.toNat < n := by
  induction n generalizing buffer with
  | zero => cases h
  | succ n ih =>
    rw [pieceLoop] at h
    rcases List.mem_cons.mp h with rfl | h
    · refine ⟨List.length_take_le _ _, ?_⟩
      change (UInt32.ofNat n).toNat < n + 1
      rw [UInt32.toNat_ofNat_of_lt' (by change n < 2 ^ 32; omega)]
      exact Nat.lt_succ_self n
    · obtain ⟨hlen, hfrg⟩ := ih (by omega) h
      exact ⟨hlen, hfrg.trans (Nat.lt_succ_self n)⟩

/-- So it is for all pieces of messages that are short enough. -/
theorem PieceOf.bounds {msgs : List (List UInt8)} {count : ℕ} (hcount : count ≤ 2 ^ 32)
    (hshort : ∀ msg ∈ msgs, pieceCount mss msg.length < count) {i : ℕ} {p : Piece}
    (h : PieceOf mss msgs i p) : p.2.length ≤ mss ∧ p.1.toNat < count := by
  obtain ⟨msg, hmsg, hp⟩ := List.mem_flatMap.mp (List.mem_of_getElem? h)
  obtain ⟨seg, hseg, rfl⟩ := List.mem_map.mp hp
  have hless := hshort msg hmsg
  obtain ⟨hlen, hfrg⟩ := pieceLoop_bounds (by omega) hseg
  exact ⟨hlen, hfrg.trans hless⟩

/-- The pieces together are the message. -/
theorem dataOf_pieceLoop {n : ℕ} {buffer : List UInt8} (h : buffer.length ≤ mss * n) :
    dataOf (pieceLoop mss n buffer) = buffer := by
  induction n generalizing buffer with
  | zero =>
    rw [Nat.mul_zero, Nat.le_zero, List.length_eq_zero_iff] at h
    rw [h]
    rfl
  | succ n ih =>
    rw [pieceLoop, dataOf_cons, ih, List.take_append_drop]
    rw [List.length_drop, Nat.sub_le_iff_le_add]
    exact h

/-- The data of segments are those of their pieces. -/
theorem dataOf_eq_of_pieces {segs segs' : List IkcpSeg}
    (h : segs.map IkcpSeg.piece = segs'.map IkcpSeg.piece) : dataOf segs = dataOf segs' := by
  have hdata : ∀ segs : List IkcpSeg, dataOf segs = (segs.map IkcpSeg.piece).flatMap (·.2) := by
    intro segs
    rw [List.flatMap_map]
    rfl
  rw [hdata, hdata, h]

/-- The first message of a queue ends where its pieces end. -/
theorem messageOf_pieces {n : ℕ} {buffer : List UInt8} {segs : List IkcpSeg} {rest : List Piece}
    (hn : n < 2 ^ 32)
    (h : segs.map IkcpSeg.piece = (pieceLoop mss (n + 1) buffer).map IkcpSeg.piece ++ rest) :
    messageOf segs = segs.take (n + 1) := by
  induction n generalizing segs buffer with
  | zero =>
    cases segs with
    | nil => simp [pieceLoop] at h
    | cons seg segs =>
      have hfrg : seg.frg = 0 := by
        simp only [pieceLoop, List.map_cons, List.cons_append, List.cons.injEq] at h
        exact congrArg Prod.fst h.1
      rw [messageOf, if_pos hfrg]
      rfl
  | succ n ih =>
    cases segs with
    | nil => simp [pieceLoop] at h
    | cons seg segs =>
      rw [pieceLoop, List.map_cons, List.map_cons, List.cons_append, List.cons.injEq] at h
      have hfrg : seg.frg = .ofNat (n + 1) := congrArg Prod.fst h.1
      have hne : seg.frg ≠ 0 := by
        intro hzero
        have hnat := congrArg UInt32.toNat (hfrg.symm.trans hzero)
        rw [UInt32.toNat_ofNat_of_lt' hn] at hnat
        exact Nat.succ_ne_zero n hnat
      rw [messageOf, if_neg hne, ih (by omega) h.2, List.take_succ_cons]

/-- Consecutive items that are pieces of messages are a piece of the row of all pieces. -/
theorem map_piece_isPrefix {msgs : List (List UInt8)} {front : List Piece} {n : ℕ}
    {segs : List IkcpSeg} {back : List Piece} (hpieces : pieces mss msgs = front ++ back)
    (hn : n = front.length) (h : Numbered (PieceOf mss msgs) n segs) :
    segs.map IkcpSeg.piece <+: back := by
  rw [List.prefix_iff_getElem?]
  intro k hk
  rw [List.length_map] at hk
  have hpiece := h k segs[k] (List.getElem?_eq_getElem hk)
  rw [PieceOf, hpieces, hn, List.getElem?_append_right (Nat.le_add_right _ _),
    Nat.add_sub_cancel_left] at hpiece
  rw [hpiece, List.getElem_map]

section Head

variable {kcp : Ikcpcb} {front back : List (List UInt8)}

/-- The first segment of the queue belongs to the message that comes next, and tells how
many pieces this has. -/
theorem head_message {seg : IkcpSeg} {segs : List IkcpSeg} (hmss : 0 < mss)
    (hqueue : Numbered (PieceOf mss (front ++ back)) (pieces mss front).length (seg :: segs)) :
    ∃ msg back' n, back = msg :: back' ∧ pieceCount mss msg.length = n + 1 ∧ seg.frg = .ofNat n ∧
      (seg :: segs).map IkcpSeg.piece <+:
        (pieceLoop mss (n + 1) msg).map IkcpSeg.piece ++ pieces mss back' := by
  have hprefix := map_piece_isPrefix (pieces_append mss front back) rfl hqueue
  cases back with
  | nil =>
    rw [pieces_nil, List.prefix_nil] at hprefix
    cases hprefix
  | cons msg back' =>
    obtain ⟨n, hn⟩ := Nat.exists_eq_succ_of_ne_zero (pieceCount_pos mss msg.length hmss).ne'
    rw [pieces_cons, hn] at hprefix
    refine ⟨msg, back', n, rfl, hn, ?_, hprefix⟩
    rw [Nat.succ_eq_add_one, pieceLoop, List.map_cons, List.map_cons, List.cons_append,
      List.cons_prefix_cons] at hprefix
    exact congrArg Prod.fst hprefix.1

/-- Whether the size of the first message is known: all of its pieces are in the queue. -/
theorem peeksize_isSome_iff {seg : IkcpSeg} {segs : List IkcpSeg} {n : ℕ} (hn : n + 1 < 2 ^ 32)
    (hsegs : kcp.rcvQueue = seg :: segs) (hcount : kcp.nrcvQue.toNat = kcp.rcvQueue.length)
    (hfrg : seg.frg = .ofNat n) : (ikcpPeeksize kcp).isSome ↔ n + 1 ≤ kcp.rcvQueue.length := by
  have hnat : (UInt32.ofNat n).toNat = n :=
    UInt32.toNat_ofNat_of_lt' (show n < 2 ^ 32 by omega)
  have hsucc : (UInt32.ofNat n + 1).toNat = n + 1 := by
    rw [ofNat_succ]
    exact UInt32.toNat_ofNat_of_lt' hn
  have hlen : kcp.rcvQueue.length = segs.length + 1 := by rw [hsegs, List.length_cons]
  have hless : kcp.nrcvQue < UInt32.ofNat n + 1 ↔ kcp.rcvQueue.length < n + 1 := by
    rw [UInt32.lt_iff_toNat_lt, hcount, hsucc]
  unfold ikcpPeeksize
  rw [hsegs]
  simp only [hfrg, hless]
  rw [← hsegs]
  split_ifs with hlast hpart
  · have hzero : n = 0 := by
      rw [← hnat, hlast]
      rfl
    simp only [Option.isSome_some, true_iff]
    omega
  · simpa using hpart
  · simpa using hpart

/-- If the size of the first message is known, it is the message that comes next. -/
theorem message_at_head (hmss : 0 < mss) (hshort : ∀ msg ∈ back, pieceCount mss msg.length < 2 ^ 32)
    (hqueue : Numbered (PieceOf mss (front ++ back)) (pieces mss front).length kcp.rcvQueue)
    (hcount : kcp.nrcvQue.toNat = kcp.rcvQueue.length) (hpeek : (ikcpPeeksize kcp).isSome) :
    ∃ msg back', back = msg :: back' ∧ dataOf (messageOf kcp.rcvQueue) = msg ∧
      (messageOf kcp.rcvQueue).length = pieceCount mss msg.length := by
  cases hsegs : kcp.rcvQueue with
  | nil =>
    rw [ikcpPeeksize, hsegs] at hpeek
    cases hpeek
  | cons seg segs =>
    rw [hsegs] at hqueue
    obtain ⟨msg, back', n, rfl, hn, hfrg, hprefix⟩ := head_message hmss hqueue
    have hlt := hshort msg List.mem_cons_self
    rw [hn] at hlt
    have hall := (peeksize_isSome_iff hlt hsegs hcount hfrg).mp hpeek
    rw [hsegs] at hall
    obtain ⟨rest, hrest⟩ := List.prefix_of_prefix_length_le (List.prefix_append _ _) hprefix
      (by rw [List.length_map, pieceLoop_length, List.length_map]; exact hall)
    have hmessage := messageOf_pieces (by omega) hrest.symm
    refine ⟨msg, back', rfl, ?_, ?_⟩
    · have htake : ((seg :: segs).take (n + 1)).map IkcpSeg.piece =
          (pieceLoop mss (n + 1) msg).map IkcpSeg.piece := by
        rw [List.map_take, ← hrest, List.take_left']
        rw [List.length_map, pieceLoop_length]
      have hlen := le_mul_pieceCount msg.length hmss
      rw [hn] at hlen
      rw [hmessage, dataOf_eq_of_pieces htake, dataOf_pieceLoop hlen]
    · rw [hmessage, List.length_take, hn]
      omega

/-- If the queue is not empty but the size of its first message is not known, pieces of
this message are missing. -/
theorem message_missing (hmss : 0 < mss) (hshort : ∀ msg ∈ back, pieceCount mss msg.length < 2 ^ 32)
    (hqueue : Numbered (PieceOf mss (front ++ back)) (pieces mss front).length kcp.rcvQueue)
    (hcount : kcp.nrcvQue.toNat = kcp.rcvQueue.length) (hpeek : ikcpPeeksize kcp = none)
    (hne : kcp.rcvQueue ≠ []) :
    ∃ msg back', back = msg :: back' ∧ kcp.rcvQueue.length < pieceCount mss msg.length := by
  obtain ⟨seg, segs, hsegs⟩ := List.exists_cons_of_ne_nil hne
  rw [hsegs] at hqueue
  obtain ⟨msg, back', n, rfl, hn, hfrg, -⟩ := head_message hmss hqueue
  have hlt := hshort msg List.mem_cons_self
  rw [hn] at hlt
  refine ⟨msg, back', rfl, ?_⟩
  by_contra hle
  rw [hn, Nat.not_lt] at hle
  have := (peeksize_isSome_iff hlt hsegs hcount hfrg).mpr hle
  rw [hpeek] at this
  cases this

end Head

end BoardComm.Ikcp
