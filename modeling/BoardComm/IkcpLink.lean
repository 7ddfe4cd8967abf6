import BoardComm.IkcpSession

/-!
# Two KCP sessions and the network between them

The network may lose datagrams, deliver them several times and in any order. The numbers
in a datagram stand for counts as long as fewer than `2 ^ 30` segments are numbered
between the time it is put out and the time it is delivered.
-/
namespace BoardComm.Ikcp

open SelectiveRepeat

/-- A datagram that was put out, and how many segments both ends had numbered by then. -/
structure Datagram where
  bytes : List UInt8
  since : ℕ
  deriving DecidableEq, Repr

/-- One end of a conversation. The messages that it took and handed out, the number of
segments that it has numbered and the datagrams that it put out are history. -/
structure End where
  kcp : Ikcpcb
  sent : List (List UInt8) := []
  received : List (List UInt8) := []
  numbered : ℕ := 0
  output : List Datagram := []
  deriving DecidableEq, Repr

structure Link where
  near : End
  far : End
  deriving DecidableEq, Repr

namespace Link

def swap (l : Link) : Link := ⟨l.far, l.near⟩

/-- How many segments both ends have numbered. -/
def total (l : Link) : ℕ := l.near.numbered + l.far.numbered

end Link

/-- A call at one end, or the delivery of a datagram that the other end put out at some
time. -/
inductive EndCall
  | send (buffer : List UInt8)
  | recv (len : ℕ)
  | update (current : UInt32)
  | deliver (i : ℕ)
  deriving DecidableEq, Repr

def endSend (e : End) (buffer : List UInt8) : End :=
  let r := ikcpSend e.kcp buffer
  { e with kcp := r.2, sent := if r.1 < 0 then e.sent else e.sent ++ [buffer] }

def endRecv (e : End) (len : ℕ) : End :=
  match ikcpRecv e.kcp len with
  | (.ok msg, kcp) => { e with kcp := kcp, received := e.received ++ [msg] }
  | (.error _, kcp) => { e with kcp := kcp }

/-- What is put out is marked with the number of segments that are numbered then, to
which the other end has added so many. -/
def endUpdate (e : End) (others : ℕ) (current : UInt32) : End :=
  let r := ikcpUpdate e.kcp current
  let numbered := e.numbered + (r.1.sndNxt - e.kcp.sndNxt).toNat
  { e with
    kcp := r.1, numbered := numbered,
    output := e.output ++ r.2.map fun bytes => ⟨bytes, numbered + others⟩ }

def endDeliver (e : End) (d : Option Datagram) : End :=
  match d with
  | some d => { e with kcp := (ikcpInput e.kcp d.bytes).2 }
  | none => e

def Link.call (l : Link) : EndCall → Link
  | .send buffer => { l with near := endSend l.near buffer }
  | .recv len => { l with near := endRecv l.near len }
  | .update current => { l with near := endUpdate l.near l.far.numbered current }
  | .deliver i => { l with near := endDeliver l.near l.far.output[i]? }

/-- A step of either end. -/
inductive LinkStep
  | near (call : EndCall)
  | far (call : EndCall)
  deriving DecidableEq, Repr

def linkStep (l : Link) : LinkStep → Link
  | .near call => l.call call
  | .far call => (l.swap.call call).swap

/-- The datagram that is delivered, if any, is not too old. -/
def Link.FreshCall (l : Link) : EndCall → Prop
  | .deliver i => ∀ d ∈ l.far.output[i]?, l.total < d.since + 2 ^ 30
  | _ => True

instance (l : Link) (call : EndCall) : Decidable (l.FreshCall call) := by
  cases call <;> unfold Link.FreshCall <;> infer_instance

def Link.Fresh (l : Link) : LinkStep → Prop
  | .near call => l.FreshCall call
  | .far call => l.swap.FreshCall call

instance (l : Link) (step : LinkStep) : Decidable (l.Fresh step) := by
  cases step <;> unfold Link.Fresh <;> infer_instance

/-- Two sessions of a conversation, as both ends open them. -/
def openLink (conv : UInt32) : Link := ⟨{ kcp := kcpSession conv }, { kcp := kcpSession conv }⟩

section Views

/-- What one end stands for: what it sends, what it receives, and what it had received
when it last told the other end. -/
structure View where
  s : Sender
  r : Receiver
  told : Receiver

/-- A segment that is on its way. What it says was true when it was put out, and is not
too far from what is true now. -/
structure Carries (conv : UInt32) (Q : ℕ → Piece → Prop) (age nxt : ℕ) (told : Receiver)
    (theirs : ℕ) (seg : IkcpSeg) : Prop where
  sendable : Sendable conv seg
  item : seg.cmd = ikcpCmdPush → ∃ i, Shown Q i seg ∧ i < nxt ∧ nxt ≤ i + 2 ^ 17 + age
  una : ∃ u, seg.una = .ofNat u ∧ u ≤ told.next ∧ theirs ≤ u + 2 ^ 17 + age
  ack : seg.cmd = ikcpCmdAck →
    ∃ k, seg.sn = .ofNat k ∧ told.Has k ∧ theirs ≤ k + 2 ^ 18 + 2 ^ 30 + age

/-- An end and its view, as the other end and its view are. -/
structure Stands (x y : End) (gx gy : View) : Prop where
  conv : x.kcp.conv = y.kcp.conv
  settings : x.kcp.settings = (kcpSession x.kcp.conv).settings
  short : ∀ msg ∈ x.sent, pieceCount 1376 msg.length < 128
  orderly : Orderly x.kcp (PieceOf 1376 x.sent) (PieceOf 1376 y.sent) gx.s
    (pieces 1376 x.sent).length gx.r (pieces 1376 x.received).length
  numbered : x.numbered = gx.s.nxt
  agree : Agree gx.s gy.told
  told : ∀ i, gx.told.Has i → gx.r.Has i
  toldNext : gx.told.next ≤ gx.r.next
  toldWindow : ∀ i ∈ gx.told.early, i < gx.told.next + 2 ^ 16
  below : ∀ i, gx.r.Has i → i < gy.s.nxt
  acklist : ∀ ack ∈ x.kcp.acklist,
    ∃ k, ack.1 = .ofNat k ∧ gx.r.Has k ∧ gx.told.next ≤ k + 2 ^ 17 + 2 ^ 30
  fits : ∀ d ∈ x.output, d.bytes.length ≤ ikcpMtuDef.toNat
  output : ∀ d ∈ x.output, d.since ≤ x.numbered + y.numbered ∧ ∃ segs ≠ [], d.bytes = rowBytes segs ∧
    ∀ seg ∈ segs, Carries x.kcp.conv (PieceOf 1376 x.sent) (x.numbered + y.numbered - d.since)
      gx.s.nxt gx.told gy.s.nxt seg
  received : x.received <+: y.sent

variable {x y : End} {gx gy : View}

theorem Stands.mtu (h : Stands x y gx gy) : x.kcp.mtu = ikcpMtuDef :=
  congrArg Settings.mtu h.settings

theorem Stands.mss (h : Stands x y gx gy) : x.kcp.mss = 1376 := congrArg Settings.mss h.settings

theorem Stands.rcvWnd (h : Stands x y gx gy) : x.kcp.rcvWnd.toNat = 256 :=
  congrArg (fun settings : Settings => settings.rcvWnd.toNat) h.settings

/-- The sender is not far ahead of what it was told. -/
theorem Stands.nxt_le (h : Stands x y gx gy) (h' : Stands y x gy gx) :
    gx.s.nxt ≤ gy.told.next + 2 ^ 17 := by
  have hnarrow := h.orderly.send.narrow
  have huna : gx.s.una ≤ gy.told.next + 2 ^ 16 := by
    by_contra hlt
    rcases h.agree.has_of_lt_una (Nat.not_le.mp hlt) with hnext | hearly
    · omega
    · exact absurd (h'.toldWindow _ hearly) (lt_irrefl _)
  omega

/-- Only what was numbered was handed on. -/
theorem Stands.next_le (h : Stands x y gx gy) : gx.r.next ≤ gy.s.nxt := by
  by_contra hlt
  exact absurd (h.below _ (.inl (Nat.not_le.mp hlt))) (lt_irrefl _)

/-- What a segment said stays true. -/
theorem Carries.later {conv : UInt32} {Q Q' : ℕ → Piece → Prop}
    {age age' nxt nxt' theirs theirs' : ℕ} {told told' : Receiver} {seg : IkcpSeg}
    (h : Carries conv Q age nxt told theirs seg) (hQ : ∀ i p, Q i p → Q' i p) (hnxt : nxt ≤ nxt')
    (hmine : nxt' + age ≤ nxt + age') (htheirs : theirs' + age ≤ theirs + age')
    (hnext : told.next ≤ told'.next) (htold : ∀ i, told.Has i → told'.Has i) :
    Carries conv Q' age' nxt' told' theirs' seg := by
  refine ⟨h.sendable, fun hcmd => ?_, ?_, fun hcmd => ?_⟩
  · obtain ⟨i, hshown, hlt, hle⟩ := h.item hcmd
    exact ⟨i, ⟨hshown.1, hQ _ _ hshown.2⟩, by omega, by omega⟩
  · obtain ⟨u, huna, hle, hnear⟩ := h.una
    exact ⟨u, huna, by omega, by omega⟩
  · obtain ⟨k, hsn, hhas, hnear⟩ := h.ack hcmd
    exact ⟨k, hsn, htold k hhas, by omega⟩

end Views

section Truth

variable {x y : End} {gx gy : View} {conv : UInt32} {Q : ℕ → Piece → Prop} {age : ℕ} {seg : IkcpSeg}

/-- The segment acknowledges only what the other end has received. -/
theorem Stands.tells (h : Stands x y gx gy) (h' : Stands y x gy gx)
    (hseg : Carries conv Q age gy.s.nxt gy.told gx.s.nxt seg) (hage : age < 2 ^ 30) {i : ℕ}
    (hi : i ∈ gx.s.kept) (htells : Tells (headOf seg) i) : gy.told.Has i := by
  have hbelow := gx.s.below i hi
  have huna := Sender.una_le hi
  have hnarrow := h.orderly.send.narrow
  rcases htells with ⟨u, hu, hlt, hnear⟩ | ⟨hcmd, hsn⟩
  · obtain ⟨v, hv, hle, hclose⟩ := hseg.una
    have hnext := h'.toldNext.trans h'.next_le
    have huv : UInt32.ofNat u = UInt32.ofNat v := hu.symm.trans hv
    rw [ofNat_inj (by omega) (by omega)] at huv
    exact .inl (by omega)
  · rw [hseg.sendable.cmd_eq] at hcmd
    obtain ⟨k, hk, hhas, hclose⟩ := hseg.ack hcmd
    have hbelow' := h'.below k (h'.told k hhas)
    have hik : UInt32.ofNat i = UInt32.ofNat k := hsn.symm.trans hk
    rw [ofNat_inj (by omega) (by omega)] at hik
    rwa [hik]

/-- Where the item that a segment carries stands as the receiver sees it. -/
theorem Stands.near_item (h : Stands x y gx gy) (h' : Stands y x gy gx)
    (hseg : Carries conv Q age gy.s.nxt gy.told gx.s.nxt seg) (hage : age < 2 ^ 30)
    (hcmd : seg.cmd = ikcpCmdPush) :
    ∃ i, Shown Q i seg ∧ i < gy.s.nxt ∧ i < gx.r.next + 2 ^ 17 ∧
      gx.r.next ≤ i + 2 ^ 17 + 2 ^ 30 := by
  obtain ⟨i, hshown, hlt, hclose⟩ := hseg.item hcmd
  have hnxt := h'.nxt_le h
  have htold := h.toldNext
  have hnext := h.next_le
  exact ⟨i, hshown, hlt, by omega, by omega⟩

/-- The segment brings no other item than the one that it carries. -/
theorem Stands.brings (h : Stands x y gx gy) (h' : Stands y x gy gx)
    (hseg : Carries conv Q age gy.s.nxt gy.told gx.s.nxt seg) (hage : age < 2 ^ 30) {i : ℕ}
    (hbrings : Brings (headOf seg) gx.r x.kcp.rcvWnd.toNat i) : Q i seg.piece ∧ i < gy.s.nxt := by
  obtain ⟨hcmd, hsn, hle, hlt⟩ := hbrings
  rw [hseg.sendable.cmd_eq] at hcmd
  obtain ⟨k, ⟨hk, hQ⟩, hbelow, hhigh, hlow⟩ := h.near_item h' hseg hage hcmd
  have hwnd := h.rcvWnd
  have hik : UInt32.ofNat i = UInt32.ofNat k := hsn.symm.trans hk
  rw [ofNat_inj (by omega) (by omega)] at hik
  rw [hik]
  exact ⟨hQ, hbelow⟩

/-- What is acknowledged, though it is not in the window, was received before. -/
theorem Stands.behind (h : Stands x y gx gy) (h' : Stands y x gy gx)
    (hseg : Carries conv Q age gy.s.nxt gy.told gx.s.nxt seg) (hage : age < 2 ^ 30)
    (hcmd : seg.cmd = ikcpCmdPush) (hbehind : itimediff seg.sn (.ofNat gx.r.next) < 0) :
    ∃ k, seg.sn = .ofNat k ∧ gx.r.Has k ∧ gx.told.next ≤ k + 2 ^ 17 + 2 ^ 30 := by
  obtain ⟨k, ⟨hk, -⟩, -, hhigh, hlow⟩ := h.near_item h' hseg hage hcmd
  have htold := h.toldNext
  rw [hk, itimediff_ofNat (by omega) (by omega)] at hbehind
  exact ⟨k, hk, .inl (by omega), by omega⟩

end Truth

section Steps

variable {x y : End} {gx gy : View}

/-- The state of the session may change where its views do not show it. -/
theorem Stands.withKcp (h : Stands x y gx gy) {kcp : Ikcpcb} (hset : kcp.settings = x.kcp.settings)
    (hack : kcp.acklist = x.kcp.acklist)
    (horderly : Orderly kcp (PieceOf 1376 x.sent) (PieceOf 1376 y.sent) gx.s
      (pieces 1376 x.sent).length gx.r (pieces 1376 x.received).length) :
    Stands { x with kcp := kcp } y gx gy := by
  have hconv : kcp.conv = x.kcp.conv := congrArg Settings.conv hset
  exact {
    conv := hconv.trans h.conv
    settings := by rw [hset, hconv]; exact h.settings
    short := h.short
    orderly := horderly
    numbered := h.numbered
    agree := h.agree
    told := h.told
    toldNext := h.toldNext
    toldWindow := h.toldWindow
    below := h.below
    acklist := by rw [hack]; exact h.acklist
    fits := h.fits
    output := by rw [hconv]; exact h.output
    received := h.received }

/-- What the other end knows of an end. -/
theorem Stands.otherKcp (h : Stands y x gy gx) {kcp : Ikcpcb} (hconv : kcp.conv = x.kcp.conv) :
    Stands y { x with kcp := kcp } gy gx :=
  { h with conv := h.conv.trans hconv.symm }

/-- What datagrams that are delivered never take back. -/
structure Onward (kcp kcp' : Ikcpcb) (gx gx' : View) : Prop where
  nxt : gx'.s.nxt = gx.s.nxt
  kept : ∀ i ∈ gx'.s.kept, i ∈ gx.s.kept
  next : gx.r.next ≤ gx'.r.next
  acklist : ∀ ack ∈ kcp.acklist, ack ∈ kcp'.acklist
  askTell : kcp.askTell = true → kcp'.askTell = true

theorem Onward.refl (kcp : Ikcpcb) (gx : View) : Onward kcp kcp gx gx :=
  ⟨rfl, fun _ => id, le_rfl, fun _ => id, id⟩

theorem Onward.trans {kcp kcp' kcp'' : Ikcpcb} {gx gx' gx'' : View} (h : Onward kcp kcp' gx gx')
    (h' : Onward kcp' kcp'' gx' gx'') : Onward kcp kcp'' gx gx'' :=
  ⟨h'.nxt.trans h.nxt, fun i hi => h.kept i (h'.kept i hi), h.next.trans h'.next,
    fun ack hack => h'.acklist ack (h.acklist ack hack), fun htell => h'.askTell (h.askTell htell)⟩

/-- What came of a segment that was delivered: an item that it acknowledges is not kept, an
item that it brings is to be acknowledged, and a question is to be answered. -/
structure Heeded (kcp : Ikcpcb) (gx : View) (room theirs : ℕ) (seg : IkcpSeg) : Prop where
  ack : seg.cmd = ikcpCmdAck → ∀ i, seg.sn = .ofNat i → i ∉ gx.s.kept
  push : seg.cmd = ikcpCmdPush → ∀ i, seg.sn = .ofNat i → i < room → theirs ≤ i + 2 ^ 30 →
    (seg.sn, seg.ts) ∈ kcp.acklist
  wask : seg.cmd = ikcpCmdWask → kcp.askTell = true

theorem Heeded.later {kcp kcp' : Ikcpcb} {gx gx' : View} {room room' theirs : ℕ} {seg : IkcpSeg}
    (h : Heeded kcp gx room theirs seg) (honward : Onward kcp kcp' gx gx') (hroom : room' ≤ room) :
    Heeded kcp' gx' room' theirs seg :=
  ⟨fun hcmd i hsn hi => h.ack hcmd i hsn (honward.kept i hi),
    fun hcmd i hsn hi hle => honward.acklist _ (h.push hcmd i hsn (hi.trans_le hroom) hle),
    fun hcmd => honward.askTell (h.wask hcmd)⟩

/-- A segment that is delivered in time. -/
theorem Stands.segment (h : Stands x y gx gy) (h' : Stands y x gy gx) (acked : Acked)
    {conv : UInt32} {age : ℕ} {seg : IkcpSeg}
    (hseg : Carries conv (PieceOf 1376 y.sent) age gy.s.nxt gy.told gx.s.nxt seg)
    (hage : age < 2 ^ 30) :
    let kcp' := (inputSegment x.kcp acked (headOf seg) seg.data).1
    ∃ gx', Stands { x with kcp := kcp' } y gx' gy ∧ Stands y { x with kcp := kcp' } gy gx' ∧
      Onward x.kcp kcp' gx gx' ∧ Heeded kcp' gx' (gx.r.next + 256) gy.s.nxt seg := by
  have hR : ∀ i, Brings (headOf seg) gx.r x.kcp.rcvWnd.toNat i →
      PieceOf 1376 y.sent i ((headOf seg).frg.toUInt32, seg.data) := by
    intro i hi
    have hpiece := (h.brings h' hseg hage hi).1
    have hfrg : (headOf seg).frg.toUInt32 = seg.frg := by
      have hlt : seg.frg.toNat < 128 := (hpiece.bounds (by decide) h'.short).2
      rw [← UInt32.toNat_inj, UInt8.toNat_toUInt32]
      change seg.frg.toUInt8.toNat = _
      rw [UInt32.toNat_toUInt8, Nat.mod_eq_of_lt (by omega)]
    rw [hfrg]
    exact hpiece
  obtain ⟨p, r', horderly, hheard, htold, hacked⟩ := inputSegment_orderly h.orderly acked hR
  let gx' : View := ⟨gx.s.acknowledge p, r', gx.told⟩
  have hset := hheard.settings
  have hcmd := hseg.sendable.cmd_eq
  have hconv : (inputSegment x.kcp acked (headOf seg) seg.data).1.conv = x.kcp.conv :=
    congrArg Settings.conv hset
  refine ⟨gx', ?_, ?_, ⟨rfl, ?_, hheard.next, ?_, ?_⟩, ⟨?_, ?_, ?_⟩⟩
  · constructor
    · exact hconv.trans h.conv
    · rw [hset, hconv]
      exact h.settings
    · exact h.short
    · exact horderly
    · exact h.numbered
    · exact h.agree.acknowledge fun i hi hp => h.tells h' hseg hage hi (htold i hi hp)
    · exact fun i hi => hheard.more i (h.told i hi)
    · exact h.toldNext.trans hheard.next
    · exact h.toldWindow
    · intro i hi
      rcases hheard.has i hi with hi | hi
      · exact h.below i hi
      · exact (h.brings h' hseg hage hi).2
    · intro ack hack
      rcases hheard.acklist with heq | ⟨heq, hpush, hwhere⟩
      · rw [heq] at hack
        obtain ⟨k, hk, hhas, hle⟩ := h.acklist ack hack
        exact ⟨k, hk, hheard.more k hhas, hle⟩
      · rw [heq] at hack
        rcases List.mem_append.mp hack with hack | hack
        · obtain ⟨k, hk, hhas, hle⟩ := h.acklist ack hack
          exact ⟨k, hk, hheard.more k hhas, hle⟩
        · rw [List.mem_singleton.mp hack]
          rcases hwhere with hbehind | ⟨i, hbrings, hhas⟩
          · obtain ⟨k, hk, hhas, hle⟩ := h.behind h' hseg hage (hcmd.symm.trans hpush) hbehind
            exact ⟨k, hk, hheard.more k hhas, hle⟩
          · have hle := h.toldNext.trans hbrings.2.2.1
            exact ⟨i, hbrings.2.1, hhas, by change gx.told.next ≤ _; omega⟩
    · exact h.fits
    · simp only
      rw [hconv]
      exact h.output
    · exact h.received
  · have hother := h'.otherKcp hconv
    exact { hother with agree := h'.agree, below := h'.below, output := h'.output }
  · exact fun i hi => (Sender.mem_acknowledge.mp hi).1
  · intro ack hack
    rcases hheard.acklist with heq | ⟨heq, -⟩
    · rwa [heq]
    · rw [heq]
      exact List.mem_append_left _ hack
  · exact fun htell => inputSegment_askTell x.kcp acked _ _ (.inl htell)
  · intro hack i hsn hi
    obtain ⟨hkept, hp⟩ := Sender.mem_acknowledge.mp hi
    exact absurd (hacked i hkept (hcmd.trans hack) hsn) (by simp [hp])
  · intro hpush i hsn hi hle
    have hnext : x.kcp.rcvNxt = .ofNat gx.r.next := h.orderly.receive.next
    have hwnd := h.rcvWnd
    have hbelow := h.next_le
    refine inputSegment_pushed x.kcp acked (headOf seg) seg.data (hcmd.trans hpush) ?_
    change itimediff seg.sn _ < 0
    rw [hnext, ofNat_add_toNat, hwnd, hsn, itimediff_ofNat (by omega) (by omega)]
    omega
  · exact fun hwask => inputSegment_askTell x.kcp acked _ _ (.inr (hcmd.trans hwask))

/-- The segments of a datagram that is delivered in time, one after the other. -/
theorem Stands.row (h : Stands x y gx gy) (h' : Stands y x gy gx) (acked : Acked) {conv : UInt32}
    {age : ℕ} {segs : List IkcpSeg}
    (hsegs : ∀ seg ∈ segs, Carries conv (PieceOf 1376 y.sent) age gy.s.nxt gy.told gx.s.nxt seg)
    (hage : age < 2 ^ 30) :
    let kcp' := (inputRow x.kcp acked segs).1
    ∃ gx', Stands { x with kcp := kcp' } y gx' gy ∧ Stands y { x with kcp := kcp' } gy gx' ∧
      Onward x.kcp kcp' gx gx' ∧
      ∀ seg ∈ segs, Heeded kcp' gx' (gx.r.next + 256) gy.s.nxt seg := by
  induction segs generalizing x gx acked with
  | nil => exact ⟨gx, h, h', .refl _ _, by simp⟩
  | cons seg segs ih =>
    obtain ⟨gx₁, h₁, h₁', honward, hheeded⟩ :=
      h.segment h' acked (hsegs seg List.mem_cons_self) hage
    have hrest : ∀ seg' ∈ segs,
        Carries conv (PieceOf 1376 y.sent) age gy.s.nxt gy.told gx₁.s.nxt seg' := by
      intro seg' hmem
      rw [honward.nxt]
      exact hsegs seg' (List.mem_cons_of_mem _ hmem)
    obtain ⟨gx', h₂, h₂', honward', hheeded'⟩ :=
      @ih { x with kcp := (inputSegment x.kcp acked (headOf seg) seg.data).1 } gx₁ h₁ h₁'
        (inputSegment x.kcp acked (headOf seg) seg.data).2 hrest
    refine ⟨gx', h₂, h₂', honward.trans honward', fun seg' hmem => ?_⟩
    have hnext := Nat.add_le_add_right honward.next 256
    rcases List.mem_cons.mp hmem with rfl | hmem
    · exact hheeded.later honward' le_rfl
    · exact (hheeded' seg' hmem).later (.refl _ _) hnext

/-- A row gives the window of the other end. -/
theorem inputRow_rmtWnd {kcp : Ikcpcb} {acked : Acked} {segs : List IkcpSeg} {wnd : UInt32}
    (hne : segs ≠ []) (hwnd : ∀ seg ∈ segs, seg.wnd = wnd) :
    (inputRow kcp acked segs).1.rmtWnd = wnd.toUInt16.toUInt32 := by
  induction segs generalizing kcp acked with
  | nil => exact absurd rfl hne
  | cons seg segs ih =>
    rw [inputRow_cons]
    cases segs with
    | nil =>
      rw [inputRow_nil, inputSegment_rmtWnd]
      change seg.wnd.toUInt16.toUInt32 = _
      rw [hwnd seg List.mem_cons_self]
    | cons seg' segs =>
      exact ih (List.cons_ne_nil _ _) fun seg'' hmem => hwnd seg'' (List.mem_cons_of_mem _ hmem)

/-- What a datagram does. -/
theorem Stands.input (h : Stands x y gx gy) (h' : Stands y x gy gx) {age : ℕ} {segs : List IkcpSeg}
    (hne : segs ≠ []) (hsegs : ∀ seg ∈ segs,
      Carries y.kcp.conv (PieceOf 1376 y.sent) age gy.s.nxt gy.told gx.s.nxt seg)
    (hage : age < 2 ^ 30) :
    let kcp' := (ikcpInput x.kcp (rowBytes segs)).2
    ∃ gx', Stands { x with kcp := kcp' } y gx' gy ∧ Stands y { x with kcp := kcp' } gy gx' ∧
      Onward x.kcp kcp' gx gx' ∧
      (∀ seg ∈ segs, Heeded kcp' gx' (gx.r.next + 256) gy.s.nxt seg) ∧
      ∀ wnd, (∀ seg ∈ segs, seg.wnd = wnd) → kcp'.rmtWnd = wnd.toUInt16.toUInt32 := by
  obtain ⟨gx', h₁, h₁', honward, hheeded⟩ := h.row h' none hsegs hage
  have hinput : (ikcpInput x.kcp (rowBytes segs)).2 =
      inputEnd x.kcp.sndUna (inputRow x.kcp none segs).1 (inputRow x.kcp none segs).2 := by
    rw [ikcpInput_row hne fun seg hseg => by
      rw [← h'.conv]
      exact (hsegs seg hseg).sendable]
  let kcp₁ := (inputRow x.kcp none segs).1
  have hset : (ikcpInput x.kcp (rowBytes segs)).2.settings = kcp₁.settings := by
    rw [hinput]
    exact inputEnd_keeps Ikcpcb.settings (fun _ _ => rfl) (fun _ _ _ => rfl) _ _ _
  have hack : (ikcpInput x.kcp (rowBytes segs)).2.acklist = kcp₁.acklist := by
    rw [hinput]
    exact inputEnd_keeps Ikcpcb.acklist (fun _ _ => rfl) (fun _ _ _ => rfl) _ _ _
  have htell : (ikcpInput x.kcp (rowBytes segs)).2.askTell = kcp₁.askTell := by
    rw [hinput]
    exact inputEnd_keeps Ikcpcb.askTell (fun _ _ => rfl) (fun _ _ _ => rfl) _ _ _
  have hrmt : (ikcpInput x.kcp (rowBytes segs)).2.rmtWnd = kcp₁.rmtWnd := by
    rw [hinput]
    exact inputEnd_keeps Ikcpcb.rmtWnd (fun _ _ => rfl) (fun _ _ _ => rfl) _ _ _
  have hend : Onward kcp₁ (ikcpInput x.kcp (rowBytes segs)).2 gx' gx' :=
    ⟨rfl, fun _ => id, le_rfl, fun ack hmem => by rwa [hack], fun hasked => htell.trans hasked⟩
  refine ⟨gx', ?_, h₁'.otherKcp (congrArg Settings.conv hset), honward.trans hend,
    fun seg hseg => (hheeded seg hseg).later hend le_rfl,
    fun wnd hwnd => hrmt.trans (inputRow_rmtWnd hne hwnd)⟩
  refine h₁.withKcp hset hack ?_
  rw [hinput]
  exact inputEnd_orderly h₁.orderly _ _

/-- A datagram that is delivered in time. -/
theorem Stands.deliver (h : Stands x y gx gy) (h' : Stands y x gy gx) {d : Option Datagram}
    (hput : ∀ d' ∈ d, d' ∈ y.output)
    (hfresh : ∀ d' ∈ d, x.numbered + y.numbered < d'.since + 2 ^ 30) :
    ∃ gx', Stands (endDeliver x d) y gx' gy ∧ Stands y (endDeliver x d) gy gx' := by
  cases d with
  | none => exact ⟨gx, h, h'⟩
  | some d =>
    obtain ⟨hsince, segs, hne, hrow, hcarries⟩ := h'.output d (hput d rfl)
    have hage : y.numbered + x.numbered - d.since < 2 ^ 30 := by
      have := hfresh d rfl
      omega
    obtain ⟨gx', h₁, h₁', -⟩ := h.input h' hne hcarries hage
    refine ⟨gx', ?_, ?_⟩
    · rw [endDeliver, hrow]
      exact h₁
    · rw [endDeliver, hrow]
      exact h₁'

/-- A message is taken from the user, or refused. -/
theorem Stands.send (h : Stands x y gx gy) (h' : Stands y x gy gx) (buffer : List UInt8) :
    Stands (endSend x buffer) y gx gy ∧ Stands y (endSend x buffer) gy gx := by
  have hmss : x.kcp.mss.toNat = 1376 := by rw [h.mss]; rfl
  have hmono : ∀ i p, PieceOf 1376 x.sent i p → PieceOf 1376 (x.sent ++ [buffer]) i p :=
    fun i p hp => hp.append _
  have hnew : pieceCount x.kcp.mss.toNat buffer.length < 128 →
      Numbered (PieceOf 1376 (x.sent ++ [buffer])) (pieces 1376 x.sent).length
        (pieceLoop x.kcp.mss.toNat (pieceCount x.kcp.mss.toNat buffer.length) buffer) := by
    rw [hmss]
    exact fun _ => numbered_pieceLoop 1376 x.sent buffer
  rcases ikcpSend_orderly hmono hnew h.orderly with
    heq | ⟨kcp', heq, horderly, hcount, hset, hack, -⟩
  · have hsame : endSend x buffer = x := by
      rw [endSend, heq]
      rfl
    rw [hsame]
    exact ⟨h, h'⟩
  · have hsent : endSend x buffer = { x with kcp := kcp', sent := x.sent ++ [buffer] } := by
      rw [endSend, heq]
      simp
    rw [hsent]
    have hlen : (pieces 1376 (x.sent ++ [buffer])).length =
        (pieces 1376 x.sent).length + pieceCount 1376 buffer.length := by
      rw [pieces_append, List.length_append, pieces_singleton_length]
    rw [hmss] at horderly hcount
    rw [← hlen] at horderly
    have hconv : kcp'.conv = x.kcp.conv := congrArg Settings.conv hset
    constructor
    · exact { h with
        conv := hconv.trans h.conv
        settings := by rw [hset, hconv]; exact h.settings
        short := by
          intro msg hmsg
          rcases List.mem_append.mp hmsg with hmsg | hmsg
          · exact h.short msg hmsg
          · rwa [List.mem_singleton.mp hmsg]
        orderly := horderly
        acklist := by rw [hack]; exact h.acklist
        output := by
          rw [hconv]
          intro d hd
          obtain ⟨hsince, segs, hne, hrow, hcarries⟩ := h.output d hd
          exact ⟨hsince, segs, hne, hrow, fun seg hseg => (hcarries seg hseg).later hmono le_rfl
            le_rfl le_rfl le_rfl fun _ => id⟩ }
    · exact { h'.otherKcp hconv with
        orderly := h'.orderly.imp (fun _ _ => id) hmono
        received := h'.received.trans (List.prefix_append _ _) }

/-- A message is read, or none. -/
theorem Stands.recv (h : Stands x y gx gy) (h' : Stands y x gy gx) (len : ℕ) :
    ∃ gx', Stands (endRecv x len) y gx' gy ∧ Stands y (endRecv x len) gy gx' ∧
      Onward x.kcp (endRecv x len).kcp gx gx' := by
  rcases ikcpRecv_orderly len h.orderly with
    ⟨rc, heq⟩ | ⟨r', kcp', heq, hpeek, horderly, hhas, hmono, hset, -, hack, -, htell⟩
  · have hsame : endRecv x len = x := by
      rw [endRecv, heq]
    rw [hsame]
    exact ⟨gx, h, h', .refl _ _⟩
  · have hread : endRecv x len = { x with
        kcp := kcp', received := x.received ++ [dataOf (messageOf x.kcp.rcvQueue)] } := by
      rw [endRecv, heq]
    rw [hread]
    obtain ⟨back, hback⟩ := h.received
    have hqueue := h.orderly.receive.queue
    rw [← hback] at hqueue
    obtain ⟨msg, back', rfl, hdata, hlen⟩ := message_at_head (by decide) (fun msg hmsg => by
      have := h'.short msg (by rw [← hback]; exact List.mem_append_right _ hmsg)
      omega) hqueue h.orderly.receive.nrcvQue hpeek
    rw [hdata]
    rw [hlen, ← pieces_singleton_length, ← List.length_append, ← pieces_append] at horderly
    let gx' : View := { gx with r := r' }
    have hconv : kcp'.conv = x.kcp.conv := congrArg Settings.conv hset
    refine ⟨gx', ?_, ?_, ⟨rfl, fun _ => id, hmono, fun ack hmem => by rwa [hack], htell⟩⟩
    · exact { h with
        conv := hconv.trans h.conv
        settings := by rw [hset, hconv]; exact h.settings
        orderly := horderly
        told := fun i hi => (hhas i).mpr (h.told i hi)
        toldNext := h.toldNext.trans hmono
        below := fun i hi => h.below i ((hhas i).mp hi)
        acklist := by
          rw [hack]
          intro ack hmem
          obtain ⟨k, hk, hhask, hle⟩ := h.acklist ack hmem
          exact ⟨k, hk, (hhas k).mpr hhask, hle⟩
        output := by
          rw [hconv]
          exact h.output
        received := ⟨back', by rw [List.append_assoc]; exact hback⟩ }
    · exact { h'.otherKcp hconv with agree := h'.agree }

/-- The items of an end fit its datagrams. -/
theorem Stands.fitting (h : Stands x y gx gy) : Fitting x.kcp (PieceOf 1376 x.sent) := by
  constructor
  all_goals rw [h.mtu, show ikcpMtuDef.toNat = 1400 from rfl]
  · intro i p hp
    have hlen := (hp.bounds (by decide) h.short).1
    rw [ikcpOverhead]
    omega
  · decide
  · decide

/-- What an end puts out is true. -/
theorem Stands.carries (h : Stands x y gx gy) (h' : Stands y x gy gx) {s' : Sender}
    (hnarrow : s'.nxt ≤ s'.una + 2 ^ 17) {seg : IkcpSeg}
    (hput : PutOut x.kcp (PieceOf 1376 x.sent) s' seg) :
    Carries x.kcp.conv (PieceOf 1376 x.sent) 0 s'.nxt gx.r gy.s.nxt seg := by
  have hnear := h'.nxt_le h
  refine ⟨hput.sendable, fun hcmd => ?_, ?_, fun hcmd => ?_⟩
  · obtain ⟨i, hi, hshown⟩ := hput.item hcmd
    have huna := Sender.una_le hi
    exact ⟨i, hshown, s'.below i hi, by omega⟩
  · have hnext : x.kcp.rcvNxt = .ofNat gx.r.next := h.orderly.receive.next
    have htold := h.toldNext
    exact ⟨gx.r.next, hput.una.trans hnext, le_rfl, by omega⟩
  · obtain ⟨k, hk, hhas, hle⟩ := h.acklist _ (hput.ack hcmd)
    exact ⟨k, hk, hhas, by omega⟩

/-- What an end puts out when it flushes at a time. -/
structure Sends (x x' y : End) (gx gx' gy : View) (kcp : Ikcpcb) (rows : List (List IkcpSeg)) :
    Prop where
  una : gx'.s.una = gx.s.una
  r : gx'.r = gx.r
  sent : x'.sent = x.sent
  output : x'.output = x.output ++ rows.map fun row => ⟨rowBytes row, x'.numbered + y.numbered⟩
  carries : ∀ row ∈ rows, row ≠ [] ∧ ∀ seg ∈ row,
    Carries x'.kcp.conv (PieceOf 1376 x'.sent) 0 gx'.s.nxt gx'.told gy.s.nxt seg ∧
      PutOut kcp (PieceOf 1376 x'.sent) gx'.s seg
  urgent : Urgent kcp gx'.s rows.flatten
  rmtWnd : x'.kcp.rmtWnd = x.kcp.rmtWnd
  probeWait : x'.kcp.probeWait = (probeWindow kcp).probeWait

/-- An end that flushes puts out what is due. -/
theorem Stands.flush (h : Stands x y gx gy) (h' : Stands y x gy gx) {current tsFlush : UInt32}
    (heq : ikcpUpdate x.kcp current = ikcpFlush (x.kcp.clocked current tsFlush)) :
    ∃ gx' rows, Stands (endUpdate x y.numbered current) y gx' gy ∧
      Stands y (endUpdate x y.numbered current) gy gx' ∧
      Sends x (endUpdate x y.numbered current) y gx gx' gy (x.kcp.clocked current tsFlush) rows := by
  obtain ⟨n, hf⟩ := ikcpFlush_orderly current tsFlush h.fitting h.orderly
  rw [← heq] at hf
  obtain ⟨rows, houtput, hrows, hurgent⟩ := hf.output
  obtain ⟨hnxt, huna, -⟩ := Sender.number_iterate gx.s n
  have horderly := hf.orderly (h.orderly.clock current tsFlush)
  have hnarrow := horderly.send.narrow
  have hcount : ((ikcpUpdate x.kcp current).1.sndNxt - x.kcp.sndNxt).toNat = n := by
    have hnew : (ikcpUpdate x.kcp current).1.sndNxt = .ofNat (Sender.number^[n] gx.s).nxt :=
      horderly.send.nxt
    have hold : x.kcp.sndNxt = .ofNat gx.s.nxt := h.orderly.send.nxt
    have hle := gx.s.una_le_nxt
    rw [hnew, hold, hnxt, Nat.add_comm, UInt32.ofNat_add, UInt32.add_sub_cancel]
    exact UInt32.toNat_ofNat_of_lt' (show n < 2 ^ 32 by omega)
  let kcp' := (ikcpUpdate x.kcp current).1
  have hnumbered : endUpdate x y.numbered current = { x with
      kcp := kcp', numbered := x.numbered + n
      output := x.output ++ rows.map fun row => ⟨rowBytes row, x.numbered + n + y.numbered⟩ } := by
    rw [endUpdate]
    simp only [hcount, kcp', houtput, List.map_map]
    rfl
  rw [hnumbered]
  let gx' : View := ⟨Sender.number^[n] gx.s, gx.r, gx.r⟩
  have hset : kcp'.settings = x.kcp.settings := hf.settings
  have hconv : kcp'.conv = x.kcp.conv := congrArg Settings.conv hset
  have hwindow := h.rcvWnd
  have hnxt' : (Sender.number^[n] gx.s).nxt = gx.s.nxt + n := hnxt
  have hcarries : ∀ row ∈ rows, ∀ seg ∈ row, Carries x.kcp.conv (PieceOf 1376 x.sent) 0
      (Sender.number^[n] gx.s).nxt gx.r gy.s.nxt seg := by
    intro row hrow seg hseg
    obtain ⟨hsendable, hsegUna, hsegWnd, hitem, hack⟩ := (hrows row hrow).2.2 seg hseg
    exact h.carries h' (by omega) ⟨hsendable, hsegUna, hsegWnd, hitem, hack⟩
  refine ⟨gx', rows, ?_, ?_, ?_⟩
  · exact {
      conv := hconv.trans h.conv
      settings := by rw [hset, hconv]; exact h.settings
      short := h.short
      orderly := horderly
      numbered := by rw [h.numbered]; exact hnxt.symm
      agree := h.agree.number_iterate n
      told := fun _ => id
      toldNext := le_rfl
      toldWindow := fun i hi => by
        have := h.orderly.receive.window i hi
        change i < gx.r.next + 2 ^ 16
        omega
      below := h.below
      acklist := by rw [hf.acklist]; simp
      fits := by
        intro d hd
        rcases List.mem_append.mp hd with hd | hd
        · exact h.fits d hd
        · obtain ⟨row, hrow, rfl⟩ := List.mem_map.mp hd
          have hlen := (hrows row hrow).2.1
          rw [← h.mtu]
          exact hlen
      output := by
        intro d hd
        rw [hconv]
        rcases List.mem_append.mp hd with hd | hd
        · obtain ⟨hsince, segs, hne, hrow, hcarries⟩ := h.output d hd
          refine ⟨by dsimp only; omega, segs, hne, hrow, fun seg hseg => ?_⟩
          refine (hcarries seg hseg).later (fun _ _ => id) ?_ ?_ ?_ h.toldNext h.told
          · rw [hnxt']
            omega
          · rw [hnxt']
            dsimp only
            omega
          · dsimp only
            omega
        · obtain ⟨row, hrow, rfl⟩ := List.mem_map.mp hd
          refine ⟨le_rfl, row, (hrows row hrow).1, rfl, fun seg hseg => ?_⟩
          have hcarry := hcarries row hrow seg hseg
          rwa [← Nat.sub_self (x.numbered + n + y.numbered)] at hcarry
      received := h.received }
  · exact { h'.otherKcp hconv with
      agree := h'.agree.receive h.told h.below
      below := fun i hi => by
        have := h'.below i hi
        change i < (Sender.number^[n] gx.s).nxt
        omega
      output := by
        intro d hd
        obtain ⟨hsince, segs, hne, hrow, hcarries⟩ := h'.output d hd
        refine ⟨by dsimp only; omega, segs, hne, hrow, fun seg hseg => ?_⟩
        refine (hcarries seg hseg).later (fun _ _ => id) le_rfl ?_ ?_ le_rfl fun _ => id
        · dsimp only
          omega
        · change (Sender.number^[n] gx.s).nxt + _ ≤ _
          dsimp only
          omega }
  · exact {
      una := huna
      r := rfl
      sent := rfl
      output := rfl
      carries := fun row hrow => ⟨(hrows row hrow).1, fun seg hseg =>
        ⟨by rw [hconv]; exact hcarries row hrow seg hseg, (hrows row hrow).2.2 seg hseg⟩⟩
      urgent := hurgent
      rmtWnd := hf.rmtWnd
      probeWait := hf.probeWait }

/-- The clock goes on, and what is due is put out. -/
theorem Stands.update (h : Stands x y gx gy) (h' : Stands y x gy gx) (current : UInt32) :
    ∃ gx', Stands (endUpdate x y.numbered current) y gx' gy ∧
      Stands y (endUpdate x y.numbered current) gy gx' := by
  obtain ⟨tsFlush, ⟨heq, -⟩ | heq⟩ := ikcpUpdate_cases x.kcp current
  · have hsame :
        endUpdate x y.numbered current = { x with kcp := x.kcp.clocked current tsFlush } := by
      rw [endUpdate, heq]
      simp [Ikcpcb.clocked]
    rw [hsame]
    exact ⟨gx, h.withKcp rfl rfl (h.orderly.clock current tsFlush), h'.otherKcp rfl⟩
  · obtain ⟨gx', rows, h₁, h₁', -⟩ := h.flush h' heq
    exact ⟨gx', h₁, h₁'⟩

/-- If there is no message to read, the pieces that wait are fewer than those of the message
that comes next. -/
theorem Stands.missing (h : Stands x y gx gy) (h' : Stands y x gy gx)
    (hpeek : ikcpPeeksize x.kcp = none) : x.kcp.rcvQueue = [] ∨ ∃ msg back,
      x.received ++ msg :: back = y.sent ∧ x.kcp.rcvQueue.length < pieceCount 1376 msg.length := by
  refine or_iff_not_imp_left.mpr fun hne => ?_
  obtain ⟨back, hback⟩ := h.received
  have hshort : ∀ msg ∈ back, pieceCount 1376 msg.length < 128 := fun msg hmsg =>
    h'.short msg (by rw [← hback]; exact List.mem_append_right _ hmsg)
  have hqueue := h.orderly.receive.queue
  rw [← hback] at hqueue
  obtain ⟨msg, back', rfl, hless⟩ := message_missing (by decide)
    (fun msg hmsg => (hshort msg hmsg).trans (by decide)) hqueue h.orderly.receive.nrcvQue hpeek hne
  exact ⟨msg, back', hback, hless⟩

/-- Then few pieces wait. -/
theorem Stands.queue_length_lt (h : Stands x y gx gy) (h' : Stands y x gy gx)
    (hpeek : ikcpPeeksize x.kcp = none) : x.kcp.rcvQueue.length < 128 := by
  rcases h.missing h' hpeek with hempty | ⟨msg, back, hback, hless⟩
  · rw [hempty]
    decide
  · refine hless.trans (h'.short msg ?_)
    rw [← hback]
    exact List.mem_append_right _ List.mem_cons_self

/-- If the other end has nothing left to send, its messages are either read or can be
read. -/
theorem Stands.complete (h : Stands x y gx gy) (h' : Stands y x gy gx) (hbuf : y.kcp.sndBuf = [])
    (hsend : y.kcp.sndQueue = []) (hpeek : ikcpPeeksize x.kcp = none) : x.received = y.sent := by
  have hkept : List.Forall₂ (Kept y.kcp.conv (PieceOf 1376 y.sent)) gy.s.kept y.kcp.sndBuf :=
    h'.orderly.send.kept
  rw [hbuf] at hkept
  have hnone := List.forall₂_nil_right_iff.mp hkept
  have hgiven : gy.s.nxt + y.kcp.sndQueue.length = (pieces 1376 y.sent).length :=
    h'.orderly.send.counted
  rw [hsend, List.length_nil, Nat.add_zero] at hgiven
  have htaken : (pieces 1376 x.received).length + x.kcp.rcvQueue.length = gx.r.next :=
    h.orderly.receive.taken
  -- Everything was received, and waits in order unless the queue is full.
  have hhas : ∀ i < gy.s.nxt, gx.r.Has i := by
    intro i hi
    rcases h'.agree.covered i hi with hmem | hhas
    · rw [hnone] at hmem
      cases hmem
    · exact h.told i hhas
  have hlength := h.queue_length_lt h' hpeek
  have hwnd := h.rcvWnd
  have hnext : gx.r.next = gy.s.nxt := by
    refine le_antisymm h.next_le (Nat.not_lt.mp fun hlt => ?_)
    rcases hhas _ hlt with hlt' | hmem
    · exact lt_irrefl _ hlt'
    · have hfull : x.kcp.rcvQueue.length = x.kcp.rcvWnd.toNat := h.orderly.settled hmem
      omega
  have hlen : ∀ back, x.received ++ back = y.sent → (pieces 1376 y.sent).length =
      (pieces 1376 x.received).length + (pieces 1376 back).length := by
    rintro back hback
    rw [← hback, pieces_append, List.length_append]
  rcases h.missing h' hpeek with hempty | ⟨msg, back, hback, hless⟩
  · obtain ⟨back, hback⟩ := h.received
    have := hlen back hback
    rw [hempty, List.length_nil] at htaken
    cases back with
    | nil => rw [← hback, List.append_nil]
    | cons msg back =>
      have hpos := pieceCount_pos 1376 msg.length (by decide)
      rw [pieces_cons, List.length_append, List.length_map, pieceLoop_length] at this
      omega
  · have := hlen _ hback
    rw [pieces_cons, List.length_append, List.length_map, pieceLoop_length] at this
    omega

end Steps

section Runs

/-- The two ends of a conversation stand as they should. -/
def Linked (l : Link) : Prop :=
  ∃ gx gy, Stands l.near l.far gx gy ∧ Stands l.far l.near gy gx

theorem Linked.swap {l : Link} (h : Linked l) : Linked l.swap := by
  obtain ⟨gx, gy, hnear, hfar⟩ := h
  exact ⟨gy, gx, hfar, hnear⟩

theorem openLink_linked (conv : UInt32) : Linked (openLink conv) := by
  let view : View := ⟨startSender, startReceiver, startReceiver⟩
  have hstands : Stands { kcp := kcpSession conv } { kcp := kcpSession conv } view view := by
    obtain ⟨kcp, heq, horderly, hconv, hmtu, hmss, hwnd, hack⟩ :=
      @openSession_orderly (PieceOf 1376 []) (PieceOf 1376 []) conv 1 10 2 1 256 256
    have hset : kcp.settings = (kcpSession kcp.conv).settings := by rw [← heq]; rfl
    rw [kcpSession, heq]
    have hnone : ∀ i, ¬ startReceiver.Has i := by simp [Receiver.Has, startReceiver]
    exact {
      conv := rfl
      settings := hset
      short := by simp
      orderly := horderly
      numbered := rfl
      agree := ⟨fun i hi => absurd hi (hnone i), by simp [view, startSender]⟩
      told := fun _ => id
      toldNext := le_rfl
      toldWindow := by simp [view, startReceiver]
      below := fun i hi => absurd hi (hnone i)
      acklist := by rw [hack]; simp
      fits := by simp
      output := by simp
      received := List.prefix_rfl }
  exact ⟨view, view, hstands, hstands⟩

/-- Every call and every delivery in time. -/
theorem Linked.call {l : Link} (h : Linked l) {call : EndCall} (hfresh : l.FreshCall call) :
    Linked (l.call call) := by
  obtain ⟨gx, gy, hnear, hfar⟩ := h
  cases call with
  | send buffer => exact ⟨gx, gy, hnear.send hfar buffer⟩
  | recv len =>
    obtain ⟨gx', h, h', -⟩ := hnear.recv hfar len
    exact ⟨gx', gy, h, h'⟩
  | update current =>
    obtain ⟨gx', h'⟩ := hnear.update hfar current
    exact ⟨gx', gy, h'⟩
  | deliver i =>
    obtain ⟨gx', h'⟩ := hnear.deliver hfar (fun d hd => List.mem_of_getElem? hd) hfresh
    exact ⟨gx', gy, h'⟩

theorem linkStep_linked {l : Link} (h : Linked l) {step : LinkStep} (hfresh : l.Fresh step) :
    Linked (linkStep l step) := by
  cases step with
  | near call => exact h.call hfresh
  | far call => exact (h.swap.call hfresh).swap

variable {conv : UInt32} {steps : List LinkStep}

theorem run_linked (hfresh : Runs.Meets linkStep Link.Fresh (openLink conv) steps) :
    Linked (Runs.run linkStep (openLink conv) steps) := by
  have hstep : ∀ l step, Linked l → True → l.Fresh step → Linked (linkStep l step) :=
    fun l step h _ hfresh => linkStep_linked h hfresh
  exact Runs.along_of_meets linkStep hstep (openLink_linked conv) (fun _ _ => trivial) hfresh steps
    List.prefix_rfl

/-- Whatever the network loses, doubles and reorders, each user reads the messages that
the other one sent, whole, once and in order. -/
theorem link_delivers (hfresh : Runs.Meets linkStep Link.Fresh (openLink conv) steps) :
    (Runs.run linkStep (openLink conv) steps).far.received <+:
        (Runs.run linkStep (openLink conv) steps).near.sent ∧
      (Runs.run linkStep (openLink conv) steps).near.received <+:
        (Runs.run linkStep (openLink conv) steps).far.sent := by
  obtain ⟨gx, gy, hnear, hfar⟩ := run_linked hfresh
  exact ⟨hfar.received, hnear.received⟩

/-- The first datagram arrives twice, behind the second one. -/
theorem link_delivers_twice :
    let steps : List LinkStep := [.near (.send [1]), .near (.update 0), .near (.send [2]),
      .near (.update 10), .far (.deliver 1), .far (.deliver 0), .far (.deliver 0), .far (.recv 9)]
    (Runs.run linkStep (openLink 7) steps).far.received <+:
        (Runs.run linkStep (openLink 7) steps).near.sent ∧
      (Runs.run linkStep (openLink 7) steps).near.received <+:
        (Runs.run linkStep (openLink 7) steps).far.sent :=
  link_delivers (by decide +kernel)

/-- When a session has nothing left to send or to send again, and the other one has no
message to read, all messages were read. -/
theorem link_complete (hfresh : Runs.Meets linkStep Link.Fresh (openLink conv) steps) :
    let l := Runs.run linkStep (openLink conv) steps
    (l.near.kcp.sndBuf = [] → l.near.kcp.sndQueue = [] → ikcpPeeksize l.far.kcp = none →
      l.far.received = l.near.sent) ∧
    (l.far.kcp.sndBuf = [] → l.far.kcp.sndQueue = [] → ikcpPeeksize l.near.kcp = none →
      l.near.received = l.far.sent) := by
  obtain ⟨gx, gy, hnear, hfar⟩ := run_linked hfresh
  exact ⟨hfar.complete hnear, hnear.complete hfar⟩

/-- The first datagram is lost; the message is acknowledged when it was sent again. -/
theorem link_complete_again :
    let l := Runs.run linkStep (openLink 7) [.near (.send [1]), .near (.update 0),
      .near (.update 300), .far (.deliver 1), .far (.recv 9), .far (.update 310), .near (.deliver 0)]
    (l.near.kcp.sndBuf = [] → l.near.kcp.sndQueue = [] → ikcpPeeksize l.far.kcp = none →
      l.far.received = l.near.sent) ∧
    (l.far.kcp.sndBuf = [] → l.far.kcp.sndQueue = [] → ikcpPeeksize l.near.kcp = none →
      l.near.received = l.far.sent) :=
  link_complete (by decide +kernel)

end Runs

end BoardComm.Ikcp
