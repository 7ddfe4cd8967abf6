import BoardComm.Ikcp

/-!
# Datagrams of KCP segments

A datagram is a row of segments, each a header and its data. What `ikcp_flush` puts
out fits the maximal length, and `ikcp_input` reads exactly the segments that were
written.
-/
namespace BoardComm.Ikcp

/-- The header that `ikcp_encode_seg` writes for a segment. -/
def headOf (seg : IkcpSeg) : IkcpHead :=
  ⟨seg.conv, seg.cmd.toUInt8, seg.frg.toUInt8, seg.wnd.toUInt16, seg.ts, seg.sn, seg.una,
    .ofNat seg.data.length⟩

/-- A segment as it stands in a datagram. -/
def segBytes (seg : IkcpSeg) : List UInt8 := ikcpEncodeSeg seg ++ seg.data

/-- A row of segments. -/
def rowBytes (segs : List IkcpSeg) : List UInt8 := segs.flatMap segBytes

/-- A segment that the other end of the session will take. -/
structure Sendable (conv : UInt32) (seg : IkcpSeg) : Prop where
  conv : seg.conv = conv
  cmd : seg.cmd = ikcpCmdPush ∨ seg.cmd = ikcpCmdAck ∨ seg.cmd = ikcpCmdWask ∨ seg.cmd = ikcpCmdWins
  len : seg.data.length < 2 ^ 31

/-- What `ikcp_input` makes of a row of segments. -/
def inputRow (kcp : Ikcpcb) (acked : Acked) (segs : List IkcpSeg) : Ikcpcb × Acked :=
  segs.foldl (fun r seg => inputSegment r.1 r.2 (headOf seg) seg.data) (kcp, acked)

namespace IkcpHead

@[simp] theorem toBytes_length (head : IkcpHead) : head.toBytes.length = ikcpOverhead := by
  simp [toBytes, widths, fields]

/-- Every field fits its width, so a header that was written is read back unchanged. -/
theorem ofBytes_toBytes_append (head : IkcpHead) (rest : List UInt8) :
    ofBytes (head.toBytes ++ rest) = head := by
  have hfits : ∀ f ∈ widths.zip head.fields, f.2 < 256 ^ f.1 := by
    intro f hf
    simp only [widths, fields, List.zip_cons_cons, List.zip_nil_left, List.mem_cons,
      List.not_mem_nil, or_false] at hf
    rcases hf with rfl | rfl | rfl | rfl | rfl | rfl | rfl | rfl <;>
      first
      | exact UInt32.toNat_lt _
      | exact UInt16.toNat_lt _
      | exact UInt8.toNat_lt _
  have hread := ByteLayout.unpack_pack_append (widths.zip head.fields) rest hfits
  have hw : (widths.zip head.fields).map Prod.fst = widths := by simp [widths, fields]
  have hv : (widths.zip head.fields).map Prod.snd = head.fields := by simp [widths, fields]
  rw [hw, hv] at hread
  rw [ofBytes, toBytes, hread]
  simp only [fields, ofFields, UInt32.ofNat_toNat, UInt16.ofNat_toNat, UInt8.ofNat_toNat]

end IkcpHead

section Rows

variable {conv : UInt32} {seg : IkcpSeg} {segs : List IkcpSeg}

theorem segBytes_eq (seg : IkcpSeg) : segBytes seg = (headOf seg).toBytes ++ seg.data := rfl

@[simp] theorem segBytes_length (seg : IkcpSeg) :
    (segBytes seg).length = ikcpOverhead + seg.data.length := by
  rw [segBytes_eq, List.length_append, IkcpHead.toBytes_length]

@[simp] theorem rowBytes_nil : rowBytes [] = [] := rfl

@[simp] theorem rowBytes_cons (seg : IkcpSeg) (segs : List IkcpSeg) :
    rowBytes (seg :: segs) = segBytes seg ++ rowBytes segs := rfl

theorem rowBytes_append (segs segs' : List IkcpSeg) :
    rowBytes (segs ++ segs') = rowBytes segs ++ rowBytes segs' := List.flatMap_append

@[simp] theorem inputRow_nil (kcp : Ikcpcb) (acked : Acked) : inputRow kcp acked [] = (kcp, acked) :=
  rfl

theorem inputRow_cons (kcp : Ikcpcb) (acked : Acked) (seg : IkcpSeg) (segs : List IkcpSeg) :
    inputRow kcp acked (seg :: segs) =
      inputRow (inputSegment kcp acked (headOf seg) seg.data).1
        (inputSegment kcp acked (headOf seg) seg.data).2 segs := rfl

theorem Sendable.known (h : Sendable conv seg) : (headOf seg).Known := by
  rcases h.cmd with hcmd | hcmd | hcmd | hcmd <;> simp [IkcpHead.Known, headOf, hcmd]

theorem Sendable.cmd_eq (h : Sendable conv seg) : (headOf seg).cmd.toUInt32 = seg.cmd := by
  rcases h.cmd with hcmd | hcmd | hcmd | hcmd <;> simp [headOf, hcmd]

theorem Sendable.len_toNat (h : Sendable conv seg) : (headOf seg).len.toNat = seg.data.length :=
  UInt32.toNat_ofNat_of_lt' (h.len.trans (by decide))

theorem Sendable.len_nonneg (h : Sendable conv seg) : ¬ (headOf seg).len.toInt32 < 0 := by
  have hlen := h.len_toNat
  have hlt := h.len
  rw [Int32.lt_iff_toInt_lt, not_lt]
  have hint : (headOf seg).len.toInt32.toInt = (headOf seg).len.toBitVec.toInt := rfl
  rw [hint, BitVec.toInt_eq_toNat_cond, UInt32.toNat_toBitVec, hlen, if_pos (by omega)]
  exact Int.natCast_nonneg _

/-- Segments that are expected are read one after the other. -/
theorem inputLoop_row {fuel : ℕ} {kcp : Ikcpcb} {acked : Acked}
    (hconv : ∀ kcp acked head data, (inputSegment kcp acked head data).1.conv = kcp.conv)
    (hsegs : ∀ seg ∈ segs, Sendable kcp.conv seg) (hfuel : (rowBytes segs).length ≤ fuel) :
    inputLoop fuel (rowBytes segs) kcp acked =
      (.ok (inputRow kcp acked segs).2, (inputRow kcp acked segs).1) := by
  induction segs generalizing fuel kcp acked with
  | nil =>
    cases fuel with
    | zero => rfl
    | succ fuel => rfl
  | cons seg segs ih =>
    have hseg := hsegs seg List.mem_cons_self
    rw [rowBytes_cons, List.length_append, segBytes_length, ikcpOverhead] at hfuel
    obtain ⟨fuel, rfl⟩ : ∃ n, fuel = n + 1 := ⟨fuel - 1, by omega⟩
    have hhead : IkcpHead.ofBytes (rowBytes (seg :: segs)) = headOf seg := by
      rw [rowBytes_cons, segBytes_eq, List.append_assoc, IkcpHead.ofBytes_toBytes_append]
    have hrest : (rowBytes (seg :: segs)).drop ikcpOverhead = seg.data ++ rowBytes segs := by
      rw [rowBytes_cons, segBytes_eq, List.append_assoc,
        List.drop_left' (IkcpHead.toBytes_length _)]
    have hlong : ¬ (rowBytes (seg :: segs)).length < ikcpOverhead := by
      rw [rowBytes_cons, List.length_append, segBytes_length]
      omega
    have hconv' : (headOf seg).conv = kcp.conv := hseg.conv
    have hfit : ¬ ((seg.data ++ rowBytes segs).length < seg.data.length ∨
        (headOf seg).len.toInt32 < 0) := by
      rw [not_or]
      exact ⟨by rw [List.length_append]; omega, hseg.len_nonneg⟩
    rw [inputLoop, if_neg hlong]
    simp only [hhead, hrest, hconv', hseg.len_toNat, ne_eq, not_true_eq_false, if_false, if_neg hfit,
      if_neg (not_not.mpr hseg.known), List.take_left', List.drop_left']
    rw [ih (fun seg' hmem => ?_) (by omega), inputRow_cons]
    rw [hconv]
    exact hsegs seg' (List.mem_cons_of_mem _ hmem)

end Rows

section Buffers

/-- These segments were written, in this order: those in front were put out in datagrams
that are no longer than the maximal length, and the last ones stand in the buffer. -/
structure Flushing.Holds (f : Flushing) (mtu : ℕ) (segs : List IkcpSeg) : Prop where
  rows : ∃ (rows : List (List IkcpSeg)) (last : List IkcpSeg),
    rows.flatten ++ last = segs ∧ f.output = rows.map rowBytes ∧
    f.buffer = rowBytes last ∧ ∀ row ∈ rows, row ≠ [] ∧ (rowBytes row).length ≤ mtu
  fits : f.buffer.length ≤ mtu

variable {f : Flushing} {mtu : ℕ}

theorem rowBytes_eq_nil {segs : List IkcpSeg} : rowBytes segs = [] ↔ segs = [] := by
  constructor
  · intro h
    cases segs with
    | nil => rfl
    | cons seg segs =>
      have hlen := congrArg List.length h
      rw [rowBytes_cons, List.length_append, segBytes_length, List.length_nil, ikcpOverhead] at hlen
      omega
  · rintro rfl
    rfl

theorem Flushing.holds_start (mtu : ℕ) : Flushing.Holds {} mtu [] :=
  ⟨⟨[], [], rfl, rfl, rfl, by simp⟩, Nat.zero_le _⟩

theorem Flushing.Holds.emit {segs : List IkcpSeg} (h : f.Holds mtu segs) :
    f.emit.Holds mtu segs ∧ f.emit.buffer = [] := by
  unfold Flushing.emit
  by_cases hempty : f.buffer.length = 0
  · rw [if_pos hempty]
    exact ⟨h, List.length_eq_zero_iff.mp hempty⟩
  · rw [if_neg hempty]
    obtain ⟨rows, last, hsegs, houtput, hbuffer, hrows⟩ := h.rows
    refine ⟨⟨⟨rows ++ [last], [], ?_, ?_, rfl, fun row hrow => ?_⟩, Nat.zero_le _⟩, rfl⟩
    · rw [List.flatten_append, List.flatten_singleton, List.append_nil, hsegs]
    · rw [houtput, hbuffer, List.map_append, List.map_singleton]
    · rcases List.mem_append.mp hrow with hrow | hrow
      · exact hrows row hrow
      · rw [List.mem_singleton.mp hrow, ← hbuffer]
        refine ⟨?_, h.fits⟩
        rintro rfl
        rw [hbuffer] at hempty
        exact hempty rfl

/-- When the buffer is empty, all that was written was put out. -/
theorem Flushing.Holds.output_rows {segs : List IkcpSeg} (h : f.Holds mtu segs)
    (hempty : f.buffer = []) : ∃ rows : List (List IkcpSeg),
      rows.flatten = segs ∧ f.output = rows.map rowBytes ∧
      ∀ row ∈ rows, row ≠ [] ∧ (rowBytes row).length ≤ mtu := by
  obtain ⟨rows, last, hsegs, houtput, hbuffer, hrows⟩ := h.rows
  rw [rowBytes_eq_nil.mp (hbuffer.symm.trans hempty), List.append_nil] at hsegs
  exact ⟨rows, hsegs, houtput, hrows⟩

/-- A segment that fits an empty buffer fits after the buffer was put out, if need be. -/
theorem Flushing.Holds.put {segs : List IkcpSeg} {seg : IkcpSeg} (h : f.Holds mtu segs)
    (hfits : ikcpOverhead + seg.data.length ≤ mtu) : (f.put mtu seg).Holds mtu (segs ++ [seg]) := by
  have happend : ∀ g : Flushing, g.Holds mtu segs →
      g.buffer.length + (ikcpOverhead + seg.data.length) ≤ mtu →
      Flushing.Holds { g with buffer := g.buffer ++ segBytes seg } mtu (segs ++ [seg]) := by
    intro g hg hroom
    obtain ⟨rows, last, hsegs, houtput, hbuffer, hrows⟩ := hg.rows
    refine ⟨⟨rows, last ++ [seg], ?_, houtput, ?_, hrows⟩, ?_⟩
    · rw [← hsegs, List.append_assoc]
    · rw [hbuffer, rowBytes_append, rowBytes_cons, rowBytes_nil, List.append_nil]
    · rw [List.length_append, segBytes_length]
      exact hroom
  unfold Flushing.put
  by_cases hroom : f.buffer.length + (ikcpOverhead + seg.data.length) > mtu
  · simp only [if_pos hroom]
    obtain ⟨hemit, hempty⟩ := h.emit
    refine happend _ hemit ?_
    rw [hempty]
    simpa using hfits
  · simp only [if_neg hroom]
    exact happend f h (by omega)

end Buffers

end BoardComm.Ikcp
