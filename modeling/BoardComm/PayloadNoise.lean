import BoardComm.FrameChecksum
import BoardComm.NoisyFraming
import BoardComm.TransportFraming

/-!
# Frames with altered payloads

A frame whose payload does not pass the checksum makes the handler throw away the whole
receive buffer, whatever else it holds. The frames around it are the good items of a code
with spoilt items.
-/
namespace BoardComm

/-- A frame as it arrives: behind the header and the names of the message stands a payload
of the length that is announced. A payload other than that of the message is rejected. -/
structure NoisyFrame where
  message : WireMessage
  payload : List UInt8
  length_eq : payload.length = message.val.payloadLen
  rejected : payload ≠ message.val.body →
    bcProtocolDecode ((headerFor message.val).toBytes ++ message.val.channel.str
      ++ message.val.topic.str ++ payload) = .error .invalid

namespace NoisyFrame

def bytes (f : NoisyFrame) : List UInt8 :=
  (headerFor f.message.val).toBytes ++ f.message.val.channel.str ++ f.message.val.topic.str
    ++ f.payload

/-- The payload is not that of the message. -/
def Altered (f : NoisyFrame) : Prop := f.payload ≠ f.message.val.body

instance (f : NoisyFrame) : Decidable f.Altered := inferInstanceAs (Decidable (_ ≠ _))

/-- What is handed on of the frame. -/
def answer (f : NoisyFrame) : Option BcMessage :=
  if f.Altered then none else some f.message.received

/-- A message on its way without noise. -/
def plain (m : WireMessage) : NoisyFrame where
  message := m
  payload := m.val.body
  length_eq := BcMessage.body_length m.property.payloadLen
  rejected h := absurd rfl h

theorem answer_eq_none {f : NoisyFrame} : f.answer = none ↔ f.Altered := by
  unfold answer
  split_ifs with h <;> simp [h]

theorem bytes_of_not_altered {f : NoisyFrame} (h : ¬ f.Altered) : f.bytes = f.message.frame := by
  rw [bytes, not_not.mp h]
  rfl

theorem bytes_length (f : NoisyFrame) : f.bytes.length = (headerFor f.message.val).total := by
  have hbody := BcMessage.body_length f.message.property.payloadLen
  rw [headerFor_total f.message.property, bytes, frameBytes]
  simp only [List.length_append, hbody, f.length_eq]

theorem ofBytes_bytes_append (f : NoisyFrame) (rest : List UInt8) :
    FrameHeader.ofBytes (f.bytes ++ rest) = headerFor f.message.val := by
  simp only [bytes, List.append_assoc]
  exact FrameHeader.ofBytes_toBytes_append _ _

theorem size_lt_bytes (f : NoisyFrame) : FrameHeader.size < f.bytes.length := by
  rw [bytes_length]
  exact (headerFor_valid f.message.property).lt_total

theorem bytes_length_le (f : NoisyFrame) : f.bytes.length ≤ 1530 := by
  rw [bytes_length]
  exact (headerFor_valid f.message.property).total_le

/-- The header announces the frame, altered or not. -/
theorem frameLength_bytes_append (f : NoisyFrame) (rest : List UInt8) :
    bcProtocolFrameLength (f.bytes ++ rest) = (.ok, f.bytes.length) := by
  have hsize := f.size_lt_bytes
  rw [bcProtocolFrameLength_ok_iff, ofBytes_bytes_append, bytes_length]
  refine ⟨?_, headerFor_valid f.message.property, rfl, ?_⟩
  · rw [List.length_append]
    omega
  · rw [List.length_append, bytes_length]
    omega

/-- As long as a byte is missing the handler waits. -/
theorem scanFrame_part (f : NoisyFrame) {p : List UInt8} (hp : p <+: f.bytes) (hne : p ≠ f.bytes) :
    scanFrame p = .more := by
  have hlt := Framing.length_lt_of_part hp hne
  obtain ⟨q, hq⟩ := hp
  have hheader : FrameHeader.ofBytes (p ++ q) = headerFor f.message.val := by
    rw [hq]
    simpa using f.ofBytes_bytes_append []
  have hmore : (bcProtocolFrameLength p).1 = .notFound := by
    apply frameLength_of_part (hheader ▸ headerFor_valid f.message.property)
    rw [hheader, ← bytes_length]
    exact hlt
  rw [scanFrame]
  cases hlen : bcProtocolFrameLength p with
  | mk rc n =>
    rw [hlen] at hmore
    simp only at hmore
    rw [hmore]

theorem scanFrame_altered {f : NoisyFrame} (h : f.Altered) (rest : List UInt8) :
    scanFrame (f.bytes ++ rest) = .bad := by
  have hle : ¬ f.bytes.length > (f.bytes ++ rest).length := by
    rw [List.length_append]
    omega
  simp only [scanFrame, frameLength_bytes_append, if_neg hle, List.take_left]
  rw [bytes, f.rejected h]

end NoisyFrame

/-- The scanner of the receive loop reads frames with noise. -/
theorem scanFrame_readsNoisy :
    Framing.ReadsNoisy scanFrame NoisyFrame.bytes NoisyFrame.answer where
  whole f c rest h := by
    have hsame : ¬ f.Altered := by
      rw [← NoisyFrame.answer_eq_none, h]
      exact Option.some_ne_none c
    have hc : f.message.received = c := by simpa [NoisyFrame.answer, hsame] using h
    rw [NoisyFrame.bytes_of_not_altered hsame, ← hc]
    exact scanFrame_reads.whole f.message rest
  spoilt f rest h := NoisyFrame.scanFrame_altered (NoisyFrame.answer_eq_none.mp h) rest
  part f p hp hne := f.scanFrame_part hp hne
  empty := scanFrame_nil
  ne_nil f := List.length_pos_iff.mp ((Nat.zero_le _).trans_lt f.size_lt_bytes)

theorem noisyFrame_sized : Framing.Sized 1530 NoisyFrame.bytes := by
  intro f
  have hsize := f.size_lt_bytes
  simp only [FrameHeader.size] at hsize
  exact ⟨by omega, f.bytes_length_le⟩

/-- Nothing but the bytes of a frame decides about it. -/
theorem scanFrame_local (rx : List UInt8) (n : ℕ) (msg : BcMessage)
    (h : scanFrame rx = .item n msg) : n ≤ 1530 ∧ scanFrame (rx.take n) = .item n msg := by
  unfold scanFrame at h
  split at h
  · cases h
  · rename_i frameLen hlen
    obtain ⟨-, hv, hn, hle⟩ := (bcProtocolFrameLength_ok_iff rx frameLen).mp hlen
    rw [if_neg (Nat.not_lt.mpr hle)] at h
    split at h
    · cases h
    · rename_i message hdec
      obtain ⟨rfl, rfl⟩ : frameLen = n ∧ message = msg := by simpa using h
      have hlt := hv.lt_total
      have hlength : (rx.take frameLen).length = frameLen := List.length_take_of_le hle
      have hheader := FrameHeader.ofBytes_take (hn ▸ hlt.le) hle
      have htaken : bcProtocolFrameLength (rx.take frameLen) = (.ok, frameLen) := by
        rw [bcProtocolFrameLength_ok_iff, hheader, hlength]
        exact ⟨by omega, hv, hn, le_rfl⟩
      refine ⟨hn ▸ hv.total_le, ?_⟩
      simp only [scanFrame, htaken, hlength, lt_irrefl, if_false, List.take_take,
        min_self, hdec]
  · cases h

section Handler

variable {World Answer : Type*} (handleInbound : World → BcMessage → World)

/-- The handler has received its reads one after the other. -/
structure Reading (ctx : TransportEventCtx World) : Prop where
  received : (ctx.inbound, ctx.rxBuf) = ctx.reads.foldl (Framing.receive scanFrame) ([], [])
  short : ctx.rxBuf.length < 1530

theorem Reading.receiveBytes {ctx : TransportEventCtx World} (h : Reading ctx)
    (data : List UInt8) : Reading (BoardComm.receiveBytes handleInbound ctx data).2 := by
  refine ⟨?_, receiveBytes_length_lt handleInbound ctx data⟩
  rw [receiveBytes_eq]
  simp only
  rw [List.foldl_concat, ← h.received]
  rfl

theorem Reading.onTransportEvent {ctx : TransportEventCtx World} (h : Reading ctx)
    (ops : TransportOps World Answer) (fd : ℤ) (events : EpollEvents) (answers : List Answer) :
    Reading (BoardComm.onTransportEvent ops handleInbound fd events answers ctx).2.1 := by
  refine onTransportEventLoop_rule handleInbound ops events (A := fun _ => True)
    (P := Reading) (Q := fun _ c => Reading c) ?_ (fun _ hc => hc)
    (fun _ _ _ hc _ _ => ⟨hc.received, hc.short⟩) (fun _ _ _ hc _ _ => ⟨hc.received, hc.short⟩)
    ?_ answers (fun _ _ => trivial) _ ⟨h.received, h.short⟩
  · intro c hc hfull
    have hlt := hc.short
    simp only [transportRxCap, bcMaxFrameLen] at hfull
    omega
  · intro c answer world data hc _ _
    have hworld : Reading { c with world := world } := ⟨hc.received, hc.short⟩
    have hnext := hworld.receiveBytes handleInbound data
    refine ⟨fun ctx' he => ?_, fun ctx' he => ?_⟩
    · rw [he] at hnext
      exact hnext
    · rw [he] at hnext
      exact hnext

theorem Reading.runTransportEvents {ctx : TransportEventCtx World} (h : Reading ctx)
    (ops : TransportOps World Answer) (evs : List (TransportEvent Answer)) :
    Reading (BoardComm.runTransportEvents ops handleInbound evs ctx).2 := by
  induction evs generalizing ctx with
  | nil => exact h
  | cons ev evs ih => exact ih (h.onTransportEvent handleInbound ops ev.fd ev.events ev.answers)

end Handler

/-- The unaltered frames have been handed on in order, and nothing else has. -/
def Passed (frames : List NoisyFrame) (inbound : List BcMessage) : Prop :=
  List.Forall₂ (fun got (f : NoisyFrame) => got.Same f.message.val) inbound
    (frames.filter fun f => ¬ f.Altered)

theorem answers_eq (frames : List NoisyFrame) :
    frames.filterMap NoisyFrame.answer =
      (frames.filter fun f => ¬ f.Altered).map fun f => f.message.received := by
  induction frames with
  | nil => rfl
  | cons f frames ih =>
    by_cases hf : f.Altered
    · rw [List.filterMap_cons_none (NoisyFrame.answer_eq_none.mpr hf), ih]
      simp [hf]
    · have hanswer : f.answer = some f.message.received := by simp [NoisyFrame.answer, hf]
      rw [List.filterMap_cons_some hanswer, ih]
      simp [hf]

theorem passed_answers (frames : List NoisyFrame) :
    Passed frames (frames.filterMap NoisyFrame.answer) := by
  rw [Passed, answers_eq, List.forall₂_map_left_iff]
  exact List.forall₂_same.mpr fun f _ => f.message.received_same

theorem Passed.length_eq {frames : List NoisyFrame} {inbound : List BcMessage}
    (h : Passed frames inbound) : inbound.length = (frames.filterMap NoisyFrame.answer).length := by
  rw [answers_eq, List.length_map]
  exact List.Forall₂.length_eq h

/-- A read brings no more than there is room for. -/
structure TransportOps.WithinRoom {World Answer : Type} (ops : TransportOps World Answer) :
    Prop where
  recv : ∀ recv ∈ ops.recv, ∀ world answer cap, (recv world answer cap).2.1.length ≤ cap
  read : ∀ world answer cap data world', ops.read world answer cap = (.bytes data, world') →
    data.length ≤ cap

/-- Every altered frame costs only itself: in whatever pieces a transport delivers the
bytes, the unaltered frames are handed on, and nothing else. -/
def CostsOnlyItself (frames : List NoisyFrame) : Prop :=
  ∀ (World Answer : Type) (ops : TransportOps World Answer)
    (handleInbound : World → BcMessage → World) (evs : List (TransportEvent Answer))
    (world : World), ops.WithinRoom →
      let ctx := (runTransportEvents ops handleInbound evs ⟨world, [], [], []⟩).2
      ctx.reads.flatten = frames.flatMap NoisyFrame.bytes → Passed frames ctx.inbound

section Pieces

/-- A transport whose reads return the given pieces as far as there is room. -/
def roomOps : TransportOps Unit (List UInt8) where
  handleEvent world _ _ := world
  recv := some fun world piece cap => (.ok, piece.take cap, world)
  read world _ _ := (.eof, world)

theorem roomOps_withinRoom : roomOps.WithinRoom where
  recv recv hrecv world piece cap := by
    cases hrecv
    exact List.length_take_le cap piece
  read world piece cap data world' h := by cases h

/-- An event that brings one piece. -/
def pieceEvent (piece : List UInt8) : TransportEvent (List UInt8) :=
  ⟨3, ⟨true, false, false, false⟩, [piece]⟩

variable {ctx : TransportEventCtx Unit}

theorem onTransportEvent_piece (hctx : ctx.rxBuf.length < 1530) {piece : List UInt8}
    (hpiece : piece ≠ []) (hshort : piece.length ≤ 1531) :
    (onTransportEvent roomOps (fun _ _ => ()) (pieceEvent piece).fd (pieceEvent piece).events
      (pieceEvent piece).answers ctx).2.1 = (receiveBytes (fun _ _ => ()) ctx piece).2 := by
  have hlt := receiveBytes_length_lt (fun _ _ => ()) ctx piece
  have hnotFull : ¬ ctx.rxBuf.length ≥ transportRxCap := by
    simp only [transportRxCap, bcMaxFrameLen]
    omega
  have hread : readTransport roomOps (pieceEvent piece).events ctx.world piece
      (transportRxCap - ctx.rxBuf.length) = (.got piece, ctx.world) := by
    have hfits : piece.take (transportRxCap - ctx.rxBuf.length) = piece := by
      apply List.take_of_length_le
      simp only [transportRxCap, bcMaxFrameLen]
      omega
    simp only [readTransport, roomOps, hfits, if_neg hpiece]
  change (onTransportEventLoop roomOps _ _ [piece] ctx).2.1 = _
  rw [onTransportEventLoop, if_neg hnotFull]
  simp only [hread]
  cases hreceive : receiveBytes (fun _ _ => ()) ctx piece with
  | mk rc ctx' =>
    have hnext : ¬ ctx'.rxBuf.length ≥ transportRxCap := by
      rw [hreceive] at hlt
      simp only [transportRxCap, bcMaxFrameLen] at hlt ⊢
      omega
    cases rc
    case ok =>
      simp only
      rw [onTransportEventLoop, if_neg hnext]
    all_goals rfl

/-- Short pieces are all read. -/
theorem runTransportEvents_pieces {pieces : List (List UInt8)}
    (hpieces : Framing.Short 1530 pieces) (hctx : ctx.rxBuf.length < 1530) :
    (runTransportEvents roomOps (fun _ _ => ()) (pieces.map pieceEvent) ctx).2.reads =
      ctx.reads ++ pieces := by
  induction pieces generalizing ctx with
  | nil => rw [List.append_nil]; rfl
  | cons piece pieces ih =>
    obtain ⟨hne, hshort⟩ := hpieces piece List.mem_cons_self
    have hpiece := onTransportEvent_piece hctx hne hshort
    have hlt := receiveBytes_length_lt (fun _ _ => ()) ctx piece
    have hreads : (receiveBytes (fun _ _ => ()) ctx piece).2.reads = ctx.reads ++ [piece] := by
      rw [receiveBytes_eq]
    rw [List.map_cons, runTransportEvents]
    simp only
    rw [hpiece, ih (fun p hp => hpieces p (List.mem_cons_of_mem _ hp)) hlt, hreads,
      List.append_assoc, List.singleton_append]

end Pieces

/-- Altered frames cost only themselves exactly when nothing that stands behind one of
them can be decoded: no unaltered frame, and no frame within a payload. In a run that
begins a new read behind every other altered frame they do in any case. -/
theorem payload_noise_iff (frames : List NoisyFrame) :
    (CostsOnlyItself frames ↔
      Framing.NothingBehind scanFrame NoisyFrame.bytes NoisyFrame.answer frames) ∧
    ∀ (World Answer : Type) (ops : TransportOps World Answer)
      (handleInbound : World → BcMessage → World) (evs : List (TransportEvent Answer))
      (world : World),
      let ctx := (runTransportEvents ops handleInbound evs ⟨world, [], [], []⟩).2
      ctx.reads.flatten = frames.flatMap NoisyFrame.bytes →
        Framing.Apart scanFrame NoisyFrame.bytes NoisyFrame.answer frames ctx.reads →
          Passed frames ctx.inbound := by
  have hrun : ∀ (World Answer : Type) (ops : TransportOps World Answer)
      (handleInbound : World → BcMessage → World) (evs : List (TransportEvent Answer))
      (world : World),
      let ctx := (runTransportEvents ops handleInbound evs ⟨world, [], [], []⟩).2
      ctx.inbound = (ctx.reads.foldl (Framing.receive scanFrame) ([], [])).1 := by
    intro World Answer ops handleInbound evs world
    have hstart : Reading (⟨world, [], [], []⟩ : TransportEventCtx World) :=
      ⟨rfl, Nat.zero_lt_succ _⟩
    exact congrArg Prod.fst (hstart.runTransportEvents handleInbound ops evs).received
  have happly : ∀ (World Answer : Type) (ops : TransportOps World Answer)
      (handleInbound : World → BcMessage → World) (evs : List (TransportEvent Answer))
      (world : World),
      let ctx := (runTransportEvents ops handleInbound evs ⟨world, [], [], []⟩).2
      ctx.reads.flatten = frames.flatMap NoisyFrame.bytes →
        Framing.Apart scanFrame NoisyFrame.bytes NoisyFrame.answer frames ctx.reads →
          Passed frames ctx.inbound := by
    intro World Answer ops handleInbound evs world ctx hall hapart
    have hanswers := Framing.foldl_receive_apart scanFrame_readsNoisy scanFrame_progress
      scanFrame_stable hall hapart
    rw [hrun World Answer ops handleInbound evs world, hanswers]
    exact passed_answers frames
  refine ⟨⟨fun hcost => ?_, fun hnothing => ?_⟩, happly⟩
  · rw [← Framing.nothingBehind_iff scanFrame_readsNoisy scanFrame_progress scanFrame_stable
      noisyFrame_sized scanFrame_local]
    intro pieces hshort hflat
    have hreads : (runTransportEvents roomOps (fun _ _ => ()) (pieces.map pieceEvent)
        ⟨(), [], [], []⟩).2.reads = [] ++ pieces :=
      runTransportEvents_pieces hshort (Nat.zero_lt_succ _)
    rw [List.nil_append] at hreads
    have hpassed := hcost Unit (List UInt8) roomOps (fun _ _ => ()) (pieces.map pieceEvent) ()
      roomOps_withinRoom (by rw [hreads]; exact hflat)
    have hlength := hpassed.length_eq
    rw [hrun, hreads] at hlength
    exact hlength
  · intro World Answer ops handleInbound evs world _ ctx hall
    exact happly World Answer ops handleInbound evs world hall (hnothing.apart ctx.reads)

def fourMessage : BcMessage := { plainMessage with payloadLen := 4 }

theorem fourMessage_wellFormed : fourMessage.WellFormed := by decide +kernel

theorem fourMessage_rejected :
    bcProtocolDecode ((headerFor fourMessage).toBytes ++ fourMessage.channel.str
      ++ fourMessage.topic.str ++ [1, 0, 0, 0]) = .error .invalid := by
  decide +kernel

/-- Four payload bytes with one bit changed. -/
def flippedFrame : NoisyFrame where
  message := ⟨fourMessage, fourMessage_wellFormed⟩
  payload := [1, 0, 0, 0]
  length_eq := rfl
  rejected _ := fourMessage_rejected

/-- Two frames in one read, and a bit of the first is changed: the second is lost. -/
theorem coalesced_frame_lost : ¬ ∀ frames, CostsOnlyItself frames := by
  intro h
  have hreads : (runTransportEvents roomOps (fun _ _ => ())
      [pieceEvent (flippedFrame.bytes ++ plainWireMessage.frame)] ⟨(), [], [], []⟩).2.reads =
      [flippedFrame.bytes ++ plainWireMessage.frame] := by
    decide +kernel
  have hinbound : (runTransportEvents roomOps (fun _ _ => ())
      [pieceEvent (flippedFrame.bytes ++ plainWireMessage.frame)] ⟨(), [], [], []⟩).2.inbound =
      [] := by
    decide +kernel
  have hpassed := h [flippedFrame, .plain plainWireMessage] Unit (List UInt8) roomOps
    (fun _ _ => ()) [pieceEvent (flippedFrame.bytes ++ plainWireMessage.frame)] ()
    roomOps_withinRoom (by rw [hreads]; rfl)
  have hlength := hpassed.length_eq
  rw [hinbound] at hlength
  revert hlength
  decide +kernel

end BoardComm
