import BoardComm.TransportEvents

/-!
# Frames are recovered from any split of the stream

`process_transport_frames` is the draining loop of a scanner, and that scanner
reads the frame code. So the frames of a stream reach the bus one by one, in
order, however the stream is cut into reads, and what stays in the buffer is
always shorter than one frame.
-/
namespace BoardComm

/-- A message that has a frame. -/
abbrev WireMessage := {m : BcMessage // m.WellFormed}

namespace WireMessage

def frame (m : WireMessage) : List UInt8 := frameBytes m.val

/-- The message a receiver of the frame passes on. -/
def received (m : WireMessage) : BcMessage := m.val.canonical

theorem received_same (m : WireMessage) : m.received.Same m.val :=
  BcMessage.canonical_same m.property

end WireMessage

theorem scanFrame_progress : Framing.Progress scanFrame := by
  intro rx n msg h
  unfold scanFrame at h
  split at h
  · cases h
  · rename_i frameLen hlen
    obtain ⟨-, hv, rfl, hle⟩ := (bcProtocolFrameLength_ok_iff rx frameLen).mp hlen
    split_ifs at h with hgt
    split at h
    · cases h
    · injection h with hn _
      have hlt := hv.lt_total
      omega
  · cases h

theorem scanFrame_nil : scanFrame [] = .more := rfl

/-- The answers about a header and a frame do not depend on the bytes behind them. -/
theorem scanFrame_stable : Framing.Stable scanFrame := by
  -- What the frame length function says of a longer buffer, once the header is there.
  have hlen : ∀ rx rest : List UInt8, FrameHeader.size ≤ rx.length →
      FrameHeader.ofBytes (rx ++ rest) = FrameHeader.ofBytes rx ∧
        FrameHeader.size ≤ (rx ++ rest).length := by
    intro rx rest hs
    refine ⟨FrameHeader.ofBytes_append rx rest hs, ?_⟩
    rw [List.length_append]
    omega
  have hitem : ∀ (rx rest : List UInt8) (n : ℕ), bcProtocolFrameLength rx = (.ok, n) →
      bcProtocolFrameLength (rx ++ rest) = (.ok, n) ∧ n ≤ rx.length ∧
        (rx ++ rest).take n = rx.take n := by
    intro rx rest n h
    obtain ⟨hs, hv, hn, hle⟩ := (bcProtocolFrameLength_ok_iff rx n).mp h
    obtain ⟨hof, hs'⟩ := hlen rx rest hs
    refine ⟨(bcProtocolFrameLength_ok_iff _ n).mpr ⟨hs', hof ▸ hv, hof ▸ hn, ?_⟩, hle, ?_⟩
    · rw [List.length_append]
      omega
    · exact List.take_append_of_le_length hle
  have hscan : ∀ (rx rest : List UInt8) (n : ℕ), bcProtocolFrameLength rx = (.ok, n) →
      scanFrame (rx ++ rest) = scanFrame rx := by
    intro rx rest n h
    obtain ⟨hok, hle, htake⟩ := hitem rx rest n h
    have hle' : ¬ n > (rx ++ rest).length := by
      rw [List.length_append]
      omega
    simp only [scanFrame, h, hok, if_neg hle', if_neg (Nat.not_lt.mpr hle), htake]
  constructor
  · intro rx n msg rest h
    cases hfl : bcProtocolFrameLength rx with
    | mk rc k =>
      cases rc
      case ok => rw [hscan rx rest k hfl, h]
      all_goals
        rw [scanFrame, hfl] at h
        cases h
  · intro rx rest h
    by_cases hs : rx.length < FrameHeader.size
    · rw [scanFrame, bcProtocolFrameLength_of_short hs] at h
      cases h
    push Not at hs
    obtain ⟨hof, hs'⟩ := hlen rx rest hs
    by_cases hv : (FrameHeader.ofBytes rx).Valid
    · cases hfl : bcProtocolFrameLength rx with
      | mk rc k =>
        rw [bcProtocolFrameLength_of_valid hs hv] at hfl
        split_ifs at hfl with hall
        · obtain ⟨rfl, rfl⟩ := Prod.mk.inj hfl
          rw [hscan rx rest _ (by rw [bcProtocolFrameLength_of_valid hs hv, if_pos hall]), h]
        · rw [scanFrame, bcProtocolFrameLength_of_valid hs hv, if_neg hall] at h
          cases h
    · rw [scanFrame, bcProtocolFrameLength_of_not_valid hs' (hof ▸ hv)]

/-- Bytes that stop inside a frame: after the whole frames at their front comes
something that `bc_protocol_frame_length` takes for the start of one more. -/
abbrev EndsInsideFrame (bytes : List UInt8) : Prop := Framing.Truncated scanFrame bytes

instance (bytes : List UInt8) : Decidable (EndsInsideFrame bytes) :=
  decidable_of_iff _
    (Framing.drain_keeps_iff scanFrame_progress scanFrame_nil bytes.length bytes le_rfl)

/-- Bytes that ask for more input are shorter than the longest frame. -/
theorem length_lt_of_scanFrame_more {rx : List UInt8} (h : scanFrame rx = .more) :
    rx.length < 1530 := by
  by_cases hs : rx.length < FrameHeader.size
  · simp only [FrameHeader.size] at hs
    omega
  push Not at hs
  by_cases hv : (FrameHeader.ofBytes rx).Valid
  · have htotal := hv.total_le
    by_contra hlen
    have hlen' : rx.length ≥ (FrameHeader.ofBytes rx).total := by omega
    rw [scanFrame, bcProtocolFrameLength_of_valid hs hv, if_pos hlen'] at h
    simp only at h
    split_ifs at h
    split at h <;> cases h
  · rw [scanFrame, bcProtocolFrameLength_of_not_valid hs hv] at h
    cases h

/-- The scanner of the receive loop reads the frame code. -/
theorem scanFrame_reads : Framing.Reads scanFrame WireMessage.frame WireMessage.received where
  whole m rest := by
    have hlen := frameLength_frameBytes_append m.property rest
    have hdec := decode_frameBytes m.property
    have hle : ¬ (frameBytes m.val).length > (frameBytes m.val ++ rest).length := by simp
    simp only [scanFrame, WireMessage.frame, hlen, if_neg hle, List.take_left, hdec,
      WireMessage.received]
  part m p hp hne := by
    have h := frameLength_of_proper_isPrefix m.property hp hne
    rw [scanFrame]
    cases hfl : bcProtocolFrameLength p with
    | mk rc n =>
      rw [hfl] at h
      simp only at h
      rw [h]
  empty := scanFrame_nil
  ne_nil m := by
    intro he
    have hsize := size_le_frameBytes m.val
    rw [show frameBytes m.val = [] from he] at hsize
    simp at hsize

section Handler

variable {World Answer : Type*} (handleInbound : World → BcMessage → World)

/-- The receive loop is the draining loop: it hands the items to the bus in
order and keeps what the scanner leaves. -/
theorem processTransportFramesLoop_eq_drain (fuel : ℕ) (ctx : TransportEventCtx World) :
    processTransportFramesLoop handleInbound fuel ctx =
      let r := Framing.drain scanFrame fuel ctx.rxBuf
      (if r.2.2 then .ok else .invalid,
        { world := r.1.foldl handleInbound ctx.world, rxBuf := r.2.1, reads := ctx.reads,
          inbound := ctx.inbound ++ r.1 }) := by
  induction fuel generalizing ctx with
  | zero => simp [processTransportFramesLoop, Framing.drain]
  | succ fuel ih =>
    cases hfl : bcProtocolFrameLength ctx.rxBuf with
    | mk rc n =>
      by_cases hnf : rc = .notFound
      · subst hnf
        simp [processTransportFramesLoop, Framing.drain, scanFrame, hfl]
      by_cases hok : rc = .ok
      · subst hok
        by_cases hgt : n > ctx.rxBuf.length
        · simp [processTransportFramesLoop, Framing.drain, scanFrame, hfl, hgt]
        · cases hdec : bcProtocolDecode (ctx.rxBuf.take n) with
          | error e =>
            simp [processTransportFramesLoop, Framing.drain, scanFrame, hfl, hgt, hdec]
          | ok msg =>
            simp [processTransportFramesLoop, Framing.drain, scanFrame, hfl, hgt, hdec, ih]
      · have hbad : scanFrame ctx.rxBuf = .bad := by
          rw [scanFrame, hfl]
          cases rc <;> first | rfl | contradiction
        simp [processTransportFramesLoop, Framing.drain, hbad, hfl, hnf, hok]

/-- What one read does to the buffer, in terms of the scanner. -/
theorem receiveBytes_eq (ctx : TransportEventCtx World) (data : List UInt8) :
    receiveBytes handleInbound ctx data =
      let r := Framing.drain scanFrame (ctx.rxBuf ++ data).length (ctx.rxBuf ++ data)
      (if r.2.2 then .ok else .invalid,
        { world := r.1.foldl handleInbound ctx.world, rxBuf := if r.2.2 then r.2.1 else [],
          reads := ctx.reads ++ [data], inbound := ctx.inbound ++ r.1 }) := by
  simp only [receiveBytes, processTransportFrames, processTransportFramesLoop_eq_drain]
  cases (Framing.drain scanFrame (ctx.rxBuf ++ data).length (ctx.rxBuf ++ data)).2.2 <;> rfl

/-- Whatever the bytes read are, the buffer afterwards is shorter than a frame. -/
theorem receiveBytes_length_lt (ctx : TransportEventCtx World) (data : List UInt8) :
    (receiveBytes handleInbound ctx data).2.rxBuf.length < 1530 := by
  rw [receiveBytes_eq]
  simp only
  split_ifs with hr
  · exact length_lt_of_scanFrame_more
      (Framing.scan_of_drain scanFrame_progress scanFrame_nil _ _ le_rfl hr)
  · simp

/-- The rule for the read loop: `P` holds before every read, `Q` when the event
ends, and every answer of the kernel satisfies `A`. Each premise is one way
through the body of the loop. -/
theorem onTransportEventLoop_rule (ops : TransportOps World Answer) (events : EpollEvents)
    {A : Answer → Prop} {P : TransportEventCtx World → Prop}
    {Q : EventExit → TransportEventCtx World → Prop}
    (hfull : ∀ ctx, P ctx → transportRxCap ≤ ctx.rxBuf.length → Q .full { ctx with rxBuf := [] })
    (hdone : ∀ ctx, P ctx → Q .blocked ctx)
    (hstop : ∀ ctx answer world, P ctx → A answer →
      readTransport ops events ctx.world answer (transportRxCap - ctx.rxBuf.length)
        = (.stop, world) → Q .blocked { ctx with world := world })
    (hretry : ∀ ctx answer world, P ctx → A answer →
      readTransport ops events ctx.world answer (transportRxCap - ctx.rxBuf.length)
        = (.retry, world) → P { ctx with world := world })
    (hgot : ∀ ctx answer world data, P ctx → A answer →
      readTransport ops events ctx.world answer (transportRxCap - ctx.rxBuf.length)
        = (.got data, world) →
      (∀ ctx', receiveBytes handleInbound { ctx with world := world } data = (.ok, ctx') →
        P ctx') ∧
      (∀ ctx', receiveBytes handleInbound { ctx with world := world } data = (.invalid, ctx') →
        Q .invalid ctx'))
    (answers : List Answer) (hA : ∀ answer ∈ answers, A answer) (ctx : TransportEventCtx World)
    (h : P ctx) :
    Q (onTransportEventLoop ops handleInbound events answers ctx).1
      (onTransportEventLoop ops handleInbound events answers ctx).2.1 := by
  induction answers generalizing ctx with
  | nil =>
    rw [onTransportEventLoop]
    split_ifs with hcap
    · exact hfull ctx h hcap
    · exact hdone ctx h
  | cons answer rest ih =>
    have hanswer : A answer := hA answer (by simp)
    have hrest : ∀ a ∈ rest, A a := fun a ha => hA a (List.mem_cons_of_mem _ ha)
    rw [onTransportEventLoop]
    split_ifs with hcap
    · exact hfull ctx h hcap
    · cases hr : readTransport ops events ctx.world answer
          (transportRxCap - ctx.rxBuf.length) with
      | mk attempt world =>
        cases attempt with
        | stop => exact hstop ctx answer world h hanswer hr
        | retry => exact ih hrest _ (hretry ctx answer world h hanswer hr)
        | got data =>
          obtain ⟨hnext, hbad⟩ := hgot ctx answer world data h hanswer hr
          have heq := receiveBytes_eq handleInbound { ctx with world := world } data
          simp only at heq
          cases hb : (Framing.drain scanFrame (ctx.rxBuf ++ data).length
              (ctx.rxBuf ++ data)).2.2 with
          | true =>
            simp only [hb, if_true] at heq
            simp only [heq]
            exact ih hrest _ (hnext _ heq)
          | false =>
            simp only [hb, Bool.false_eq_true, if_false] at heq
            simp only [heq]
            exact hbad _ heq

/-- Reading never forgets what was read. -/
theorem onTransportEvent_reads (ops : TransportOps World Answer) (fd : ℤ) (events : EpollEvents)
    (answers : List Answer) (ctx : TransportEventCtx World) :
    ctx.reads <+: (onTransportEvent ops handleInbound fd events answers ctx).2.1.reads := by
  refine onTransportEventLoop_rule handleInbound ops events (A := fun _ => True)
    (P := fun c => ctx.reads <+: c.reads) (Q := fun _ c => ctx.reads <+: c.reads)
    (fun _ h _ => h) (fun _ h => h) (fun _ _ _ h _ _ => h) (fun _ _ _ h _ _ => h) ?_ answers
    (fun _ _ => trivial) _ List.prefix_rfl
  intro c answer world data h _ _
  have hreads : (receiveBytes handleInbound { c with world := world } data).2.reads =
      c.reads ++ [data] := by rw [receiveBytes_eq]
  refine ⟨fun ctx' he => ?_, fun ctx' he => ?_⟩ <;>
  · rw [he] at hreads
    exact hreads ▸ h.trans (List.prefix_append _ _)

theorem runTransportEvents_reads (ops : TransportOps World Answer)
    (evs : List (TransportEvent Answer)) (ctx : TransportEventCtx World) :
    ctx.reads <+: (runTransportEvents ops handleInbound evs ctx).2.reads := by
  induction evs generalizing ctx with
  | nil => exact List.prefix_rfl
  | cons ev evs ih =>
    exact (onTransportEvent_reads handleInbound ops ev.fd ev.events ev.answers ctx).trans (ih _)

/-- The handler is in step with a stream of frames: what it has read is cut into
the messages it has handed on and the bytes it still holds. -/
def InStep (msgs : List WireMessage) (ctx : TransportEventCtx World) : Prop :=
  ∃ done, Framing.Cut WireMessage.frame msgs ctx.reads.flatten done ctx.rxBuf ∧
    ctx.inbound = done.map WireMessage.received

/-- The handler stays in step over one more read of the stream. -/
theorem inStep_receiveBytes {msgs : List WireMessage} {ctx : TransportEventCtx World}
    (h : InStep msgs ctx) (data : List UInt8)
    (hp : (ctx.reads ++ [data]).flatten <+: msgs.flatMap WireMessage.frame) :
    ∃ ctx', receiveBytes handleInbound ctx data = (.ok, ctx') ∧ InStep msgs ctx' := by
  obtain ⟨done, hcut, hin⟩ := h
  simp only [List.flatten_append, List.flatten_singleton] at hp
  obtain ⟨todo, new, tail, -, hnew, hall⟩ := hcut.extend hp
  have hdrain := Framing.drain_of_cut scanFrame_reads hnew (ctx.rxBuf ++ data).length le_rfl
  rw [receiveBytes_eq, hdrain]
  refine ⟨_, rfl, done ++ new, ?_, ?_⟩
  · simpa using hall
  · simp [hin]

/-- The buffer of a handler in step is never full. -/
theorem InStep.room {msgs : List WireMessage} {ctx : TransportEventCtx World}
    (h : InStep msgs ctx) :
    ctx.rxBuf.length < transportRxCap := by
  obtain ⟨done, hcut, -⟩ := h
  have hmore := Framing.properPart_scan scanFrame_reads hcut.pending.choose_spec.2
  have hlt := length_lt_of_scanFrame_more hmore
  simp only [transportRxCap, bcMaxFrameLen]
  omega

/-- The messages between two places where the handler was in step. -/
theorem InStep.more {msgs : List WireMessage} {ctx ctx' : TransportEventCtx World}
    {got : List BcMessage} (h : InStep msgs ctx) (h' : InStep msgs ctx')
    (hgot : ctx'.inbound = ctx.inbound ++ got) :
    ∃ new : List WireMessage, got = new.map WireMessage.received ∧
      msgs.drop ctx.inbound.length = new ++ msgs.drop ctx'.inbound.length := by
  obtain ⟨done, ⟨-, todo, hmsgs, -⟩, hdone⟩ := h
  obtain ⟨done', ⟨-, todo', hmsgs', -⟩, hdone'⟩ := h'
  have hprefix : done <+: done' := by
    refine List.prefix_of_prefix_length_le ⟨todo, hmsgs.symm⟩ ⟨todo', hmsgs'.symm⟩ ?_
    have hlength := congrArg List.length hgot
    rw [hdone, hdone', List.length_append, List.length_map, List.length_map] at hlength
    exact (Nat.le_add_right _ _).trans_eq hlength.symm
  obtain ⟨new, rfl⟩ := hprefix
  refine ⟨new, ?_, ?_⟩
  · rw [hdone, hdone', List.map_append] at hgot
    exact (List.append_cancel_left hgot).symm
  · subst hmsgs'
    rw [hdone, hdone', List.length_map, List.length_map]
    calc (done ++ new ++ todo').drop done.length
      _ = (done ++ (new ++ todo')).drop done.length := by rw [List.append_assoc]
      _ = new ++ todo' := List.drop_left
      _ = new ++ (done ++ new ++ todo').drop (done ++ new).length := by rw [List.drop_left]

/-- In-step handlers that read on along the stream return only when no more
input is there, and stay in step. -/
theorem inStep_onTransportEvent (ops : TransportOps World Answer) {msgs : List WireMessage}
    (fd : ℤ) (events : EpollEvents) (answers : List Answer) {ctx : TransportEventCtx World}
    (h : InStep msgs ctx)
    (hp : (onTransportEvent ops handleInbound fd events answers ctx).2.1.reads.flatten
      <+: msgs.flatMap WireMessage.frame) :
    (onTransportEvent ops handleInbound fd events answers ctx).1 = .blocked ∧
      InStep msgs (onTransportEvent ops handleInbound fd events answers ctx).2.1 := by
  -- Along the loop the handler is in step as long as the reads follow the stream.
  refine onTransportEventLoop_rule handleInbound ops events (A := fun _ => True)
    (P := fun c => c.reads.flatten <+: msgs.flatMap WireMessage.frame → InStep msgs c)
    (Q := fun e c => c.reads.flatten <+: msgs.flatMap WireMessage.frame →
      e = .blocked ∧ InStep msgs c)
    ?_ (fun _ h hc => ⟨rfl, h hc⟩) (fun _ _ _ h _ _ hc => ⟨rfl, h hc⟩) (fun _ _ _ h _ _ => h)
    ?_ answers (fun _ _ => trivial) _ (fun _ => h) hp
  · intro c hc hfull hpre
    obtain ⟨done, hcut, -⟩ := hc hpre
    have hmore := Framing.properPart_scan scanFrame_reads hcut.pending.choose_spec.2
    have hlt := length_lt_of_scanFrame_more hmore
    simp only [transportRxCap, bcMaxFrameLen] at hfull
    omega
  · intro c answer world data hc _ _
    have hreads : (receiveBytes handleInbound { c with world := world } data).2.reads =
        c.reads ++ [data] := by rw [receiveBytes_eq]
    have hstep : (c.reads ++ [data]).flatten <+: msgs.flatMap WireMessage.frame →
        ∃ ctx', receiveBytes handleInbound { c with world := world } data = (.ok, ctx') ∧
          InStep msgs ctx' := by
      intro hpre
      have hpre' : c.reads.flatten <+: msgs.flatMap WireMessage.frame := by
        refine List.IsPrefix.trans ?_ hpre
        simp
      have hin : InStep msgs { c with world := world } := hc hpre'
      exact inStep_receiveBytes handleInbound hin data hpre
    refine ⟨fun ctx' he hpre => ?_, fun ctx' he hpre => ?_⟩ <;>
    · rw [he] at hreads
      obtain ⟨ctx'', he', hin⟩ := hstep (hreads ▸ hpre)
      rw [he] at he'
      cases he'
      try exact hin

theorem inStep_runTransportEvents (ops : TransportOps World Answer) {msgs : List WireMessage}
    (evs : List (TransportEvent Answer)) {ctx : TransportEventCtx World} (h : InStep msgs ctx)
    (hp : (runTransportEvents ops handleInbound evs ctx).2.reads.flatten
      <+: msgs.flatMap WireMessage.frame) :
    (∀ e ∈ (runTransportEvents ops handleInbound evs ctx).1, e = .blocked) ∧
      InStep msgs (runTransportEvents ops handleInbound evs ctx).2 := by
  induction evs generalizing ctx with
  | nil => exact ⟨by simp [runTransportEvents], h⟩
  | cons ev evs ih =>
    -- The reads of the first event are a prefix of all reads.
    have hmono := runTransportEvents_reads handleInbound ops evs
      (onTransportEvent ops handleInbound ev.fd ev.events ev.answers ctx).2.1
    obtain ⟨more, hmore⟩ := hmono
    have hfirst : (onTransportEvent ops handleInbound ev.fd ev.events ev.answers
        ctx).2.1.reads.flatten <+: msgs.flatMap WireMessage.frame := by
      refine List.IsPrefix.trans ?_ hp
      simp only [runTransportEvents, ← hmore, List.flatten_append]
      exact List.prefix_append _ _
    obtain ⟨hexit, hnext⟩ := inStep_onTransportEvent handleInbound ops ev.fd ev.events
      ev.answers h hfirst
    obtain ⟨hexits, hlast⟩ := ih hnext hp
    refine ⟨?_, hlast⟩
    simp only [runTransportEvents, List.mem_cons, forall_eq_or_imp]
    exact ⟨hexit, hexits⟩

end Handler

/-- Framing does not depend on chunking. For any transport and any sequence of
events whose reads so far are a prefix of the concatenated frames, the messages
handed to the bus are those of the frames read completely, in order; no event
ends by discarding the buffer; and after every read less than one frame is left. -/
theorem inbound_independent_of_chunking {World Answer : Type*}
    (ops : TransportOps World Answer) (handleInbound : World → BcMessage → World)
    (msgs : List WireMessage) (evs : List (TransportEvent Answer)) (world : World)
    (hp : (runTransportEvents ops handleInbound evs ⟨world, [], [], []⟩).2.reads.flatten
      <+: msgs.flatMap WireMessage.frame) :
    let r := runTransportEvents ops handleInbound evs ⟨world, [], [], []⟩
    (∃ done tail, Framing.Cut WireMessage.frame msgs r.2.reads.flatten done tail ∧
      r.2.rxBuf = tail ∧ List.Forall₂ (fun got m => got.Same m.val) r.2.inbound done) ∧
    (r.2.reads.flatten = msgs.flatMap WireMessage.frame →
      List.Forall₂ (fun got m => got.Same m.val) r.2.inbound msgs) ∧
    (∀ e ∈ r.1, e = .blocked) ∧ r.2.rxBuf.length < 1530 ∧
    ∀ ctx data, (receiveBytes handleInbound ctx data).2.rxBuf.length < 1530 := by
  intro r
  have hstart : InStep msgs (⟨world, [], [], []⟩ : TransportEventCtx World) :=
    ⟨[], Framing.Cut.nil _ scanFrame_reads.ne_nil msgs, rfl⟩
  obtain ⟨hexits, done, hcut, hin⟩ := inStep_runTransportEvents handleInbound ops evs hstart hp
  have hsame : ∀ ms : List WireMessage,
      List.Forall₂ (fun (got : BcMessage) (m : WireMessage) => got.Same m.val)
        (ms.map WireMessage.received) ms := by
    intro ms
    rw [List.forall₂_map_left_iff]
    exact List.forall₂_same.mpr (fun m _ => m.received_same)
  refine ⟨⟨done, _, hcut, rfl, hin ▸ hsame done⟩, ?_, hexits, ?_, receiveBytes_length_lt _⟩
  · intro hfull
    change (runTransportEvents ops handleInbound evs ⟨world, [], [], []⟩).2.reads.flatten = _ at hfull
    rw [hfull] at hcut
    rw [← hcut.done_of_full.1]
    exact hin ▸ hsame done
  · exact length_lt_of_scanFrame_more
      (Framing.properPart_scan scanFrame_reads hcut.pending.choose_spec.2)

/-- A transport whose reads return the given pieces one after another. -/
def pieceOps : TransportOps Unit (List UInt8) where
  handleEvent world _ _ := world
  recv := some fun world piece _ => (.ok, piece, world)
  read world _ _ := (.eof, world)

def plainWireMessage : WireMessage := ⟨plainMessage, by decide +kernel⟩

/-- One frame, cut inside its header by one event and completed by the next. -/
def splitFrameEvents : List (TransportEvent (List UInt8)) :=
  [⟨3, ⟨true, false, false, false⟩, [plainWireMessage.frame.take 20]⟩,
    ⟨3, ⟨true, false, false, false⟩, [plainWireMessage.frame.drop 20]⟩]

theorem inbound_independent_of_chunking_split :
    List.Forall₂ (fun got m => got.Same m.val)
      (runTransportEvents pieceOps (fun _ _ => ()) splitFrameEvents ⟨(), [], [], []⟩).2.inbound
      [plainWireMessage] :=
  (inbound_independent_of_chunking pieceOps (fun _ _ => ()) [plainWireMessage] splitFrameEvents ()
    (by decide +kernel)).2.1 (by decide +kernel)

end BoardComm
