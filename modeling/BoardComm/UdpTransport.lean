import BoardComm.TransportFraming

/-!
# Datagrams through the stream buffer

The UDP transport hands each datagram to the same receive buffer that serves
byte streams. A datagram that leaves bytes behind is joined to the next one; a
datagram that leaves nothing is independent of its neighbours.
-/
namespace BoardComm

/-- What `recvfrom` answers. -/
inductive RecvfromAnswer
  | datagram (bytes : List UInt8)
  | again
  | error
  deriving DecidableEq, Repr

/-- The bus behind a UDP transport, with the datagrams received so far as history. -/
structure UdpWorld (Bus : Type*) where
  bus : Bus
  received : List (List UInt8)
  deriving DecidableEq, Repr

section Transport

variable {Bus : Type*}

/-- `udp_recv`. `recvfrom` drops what does not fit; an empty datagram reads as
zero bytes, which the code treats as an error. -/
def udpRecv (world : UdpWorld Bus) (answer : RecvfromAnswer) (cap : ℕ) :
    BcStatus × List UInt8 × UdpWorld Bus :=
  match answer with
  | .datagram d =>
    let world' := { world with received := world.received ++ [d] }
    if (d.take cap).length > 0 then (.ok, d.take cap, world') else (.io, [], world')
  | .again => (.notFound, [], world)
  | .error => (.io, [], world)

/-- `udp_ops`: there is no `handle_event`. -/
def udpOps : TransportOps (UdpWorld Bus) RecvfromAnswer where
  handleEvent world _ _ := world
  recv := some udpRecv
  read world _ _ := (.error, world)

/-- The bus call as the handler of a UDP transport makes it. -/
def udpInbound (handleInbound : Bus → BcMessage → Bus) (world : UdpWorld Bus) (msg : BcMessage) :
    UdpWorld Bus :=
  { world with bus := handleInbound world.bus msg }

end Transport

/-- The handler after receiving one datagram into an empty buffer. -/
def afterDatagram (d : List UInt8) : TransportEventCtx Unit :=
  (receiveBytes (fun _ _ => ()) ⟨(), [], [], []⟩ d).2

/-- Exactly these datagrams leave bytes in an empty buffer. -/
theorem endsInsideFrame_iff (d : List UInt8) :
    EndsInsideFrame d ↔ (afterDatagram d).rxBuf ≠ [] := by
  rw [EndsInsideFrame, ← Framing.drain_keeps_iff scanFrame_progress scanFrame_nil d.length d le_rfl]
  simp only [afterDatagram, receiveBytes_eq, List.nil_append]
  split_ifs with hok
  · simp only [hok, true_and]
  · simp only [eq_false_of_ne_true hok, Bool.false_eq_true, false_and, ne_eq, not_true]

/-- Messages that owe nothing to other datagrams: each is decoded from a stretch
of `d`, and if `d` is one frame they are that frame's message, once. -/
structure DecodedFrom (d : List UInt8) (msgs : List BcMessage) : Prop where
  within : ∀ msg ∈ msgs, ∃ off len, bcProtocolDecode ((d.drop off).take len) = .ok msg
  frame : ∀ m : WireMessage, d = m.frame → msgs = [m.received]

/-- The messages handed to the bus split into groups, one for each datagram. -/
def DatagramsIndependent (received : List (List UInt8)) (inbound : List BcMessage) : Prop :=
  ∃ groups : List (List BcMessage), inbound = groups.flatten ∧
    List.Forall₂ DecodedFrom received groups

theorem decode_of_scanFrame {rx : List UInt8} {n : ℕ} {msg : BcMessage}
    (h : scanFrame rx = .item n msg) : bcProtocolDecode (rx.take n) = .ok msg := by
  unfold scanFrame at h
  split at h
  · cases h
  · split_ifs at h
    split at h
    · cases h
    · rename_i hdec
      injection h with hn hm
      rw [← hn, ← hm]
      exact hdec
  · cases h

/-- What one datagram yields on its own owes nothing to others. -/
theorem afterDatagram_decodedFrom (d : List UInt8) : DecodedFrom d (afterDatagram d).inbound := by
  have heq : (afterDatagram d).inbound = (Framing.drain scanFrame d.length d).1 := by
    simp [afterDatagram, receiveBytes_eq]
  refine ⟨fun msg hmsg => ?_, fun m hd => ?_⟩
  · rw [heq] at hmsg
    obtain ⟨off, n, hscan⟩ := Framing.scan_of_mem_drain scanFrame d.length d hmsg
    exact ⟨off, n, decode_of_scanFrame hscan⟩
  · subst hd
    have hcut : Framing.Cut WireMessage.frame [m] m.frame [m] [] :=
      ⟨by simp, [], by simp, rfl⟩
    rw [heq, Framing.drain_of_cut scanFrame_reads hcut _ le_rfl]
    rfl

section Runs

variable {Bus : Type*} (handleInbound : Bus → BcMessage → Bus)

/-- The handler has kept the datagrams apart: what it handed on is what each
yields alone, and what it still holds is what the last one left. -/
structure KeptApart (ctx : TransportEventCtx (UdpWorld Bus)) : Prop where
  inbound : ctx.inbound = ctx.world.received.flatMap fun d => (afterDatagram d).inbound
  rxBuf : ∀ d, ctx.world.received.getLast? = some d → ctx.rxBuf = (afterDatagram d).rxBuf
  start : ctx.world.received = [] → ctx.rxBuf = []

/-- If no datagram so far ended inside a frame, the buffer is empty. -/
theorem KeptApart.rxBuf_eq_nil {ctx : TransportEventCtx (UdpWorld Bus)} (h : KeptApart ctx)
    (hself : ∀ d ∈ ctx.world.received, ¬ EndsInsideFrame d) : ctx.rxBuf = [] := by
  cases hlast : ctx.world.received.getLast? with
  | none => exact h.start (List.getLast?_eq_none_iff.mp hlast)
  | some d =>
    have hd := hself d (List.mem_of_getLast? hlast)
    rw [endsInsideFrame_iff, not_not] at hd
    exact (h.rxBuf d hlast).trans hd

/-- The bus call leaves the list of received datagrams alone. -/
theorem foldl_udpInbound_received (msgs : List BcMessage) (world : UdpWorld Bus) :
    (msgs.foldl (udpInbound handleInbound) world).received = world.received := by
  induction msgs generalizing world with
  | nil => rfl
  | cons m msgs ih => exact ih _

theorem receiveBytes_udp_received (ctx : TransportEventCtx (UdpWorld Bus)) (d : List UInt8) :
    (receiveBytes (udpInbound handleInbound) ctx d).2.world.received = ctx.world.received := by
  rw [receiveBytes_eq]
  exact foldl_udpInbound_received handleInbound _ _

/-- The handler's state when `d` has been stored behind the buffered bytes. -/
def withDatagram (ctx : TransportEventCtx (UdpWorld Bus)) (d : List UInt8) :
    TransportEventCtx (UdpWorld Bus) :=
  { ctx with world := { ctx.world with received := ctx.world.received ++ [d] } }

/-- One datagram received into an empty buffer is treated as if it were alone. -/
theorem KeptApart.receive {ctx : TransportEventCtx (UdpWorld Bus)} (h : KeptApart ctx)
    (d : List UInt8) (hself : ∀ d ∈ ctx.world.received, ¬ EndsInsideFrame d) :
    KeptApart (receiveBytes (udpInbound handleInbound) (withDatagram ctx d) d).2 := by
  have hrx := h.rxBuf_eq_nil hself
  have hreceived := receiveBytes_udp_received handleInbound (withDatagram ctx d) d
  have halone : afterDatagram d = (receiveBytes (fun _ _ => ()) ⟨(), [], [], []⟩ d).2 := rfl
  rw [receiveBytes_eq] at halone
  simp only [List.nil_append] at halone
  refine ⟨?_, ?_, ?_⟩
  · rw [hreceived, receiveBytes_eq]
    simp only [withDatagram, hrx, List.nil_append, List.flatMap_append, List.flatMap_singleton,
      h.inbound, halone]
  · intro e he
    rw [hreceived] at he
    simp only [withDatagram, List.getLast?_append, List.getLast?_singleton, Option.some_or,
      Option.some.injEq] at he
    rw [receiveBytes_eq]
    simp only [withDatagram, hrx, List.nil_append, ← he, halone]
  · intro he
    rw [hreceived] at he
    simp [withDatagram] at he

/-- Datagrams of the sizes the network delivers. -/
def UdpAnswerOk : RecvfromAnswer → Prop
  | .datagram d => 1 ≤ d.length ∧ d.length ≤ bcMaxFrameLen
  | _ => True

instance : DecidablePred UdpAnswerOk
  | .datagram d => inferInstanceAs (Decidable (1 ≤ d.length ∧ d.length ≤ bcMaxFrameLen))
  | .again => inferInstanceAs (Decidable True)
  | .error => inferInstanceAs (Decidable True)

/-- What `readTransport` makes of each answer while a whole datagram fits. -/
theorem readTransport_udp (events : EpollEvents) (world : UdpWorld Bus) (answer : RecvfromAnswer)
    (hok : UdpAnswerOk answer) (cap : ℕ) (hcap : bcMaxFrameLen ≤ cap) :
    readTransport udpOps events world answer cap =
      match answer with
      | .datagram d => (.got d, { world with received := world.received ++ [d] })
      | _ => (.stop, world) := by
  cases answer with
  | again => rfl
  | error => rfl
  | datagram d =>
    obtain ⟨hpos, hle⟩ := hok
    have htake : d.take cap = d := List.take_of_length_le (hle.trans hcap)
    have hne : d ≠ [] := List.length_pos_iff.mp hpos
    have hgt : d.length > 0 := hpos
    simp only [readTransport, udpOps, udpRecv, htake, if_pos hgt, if_neg hne]

/-- What is kept over a run: as long as no datagram before the last one ends
inside a frame, the datagrams are kept apart; and the buffer stays short. -/
def UdpKept (ctx : TransportEventCtx (UdpWorld Bus)) : Prop :=
  ((∀ d ∈ ctx.world.received.dropLast, ¬ EndsInsideFrame d) → KeptApart ctx) ∧
    ctx.rxBuf.length < 1530

/-- One more datagram. -/
theorem UdpKept.receive {ctx : TransportEventCtx (UdpWorld Bus)} (h : UdpKept ctx)
    (d : List UInt8) :
    UdpKept (receiveBytes (udpInbound handleInbound) (withDatagram ctx d) d).2 := by
  refine ⟨fun hall => ?_, receiveBytes_length_lt _ _ _⟩
  -- All datagrams before `d` now count, so those before the last of them do.
  rw [receiveBytes_udp_received] at hall
  simp only [withDatagram, List.dropLast_concat] at hall
  have hkept := h.1 fun e he => hall e (List.dropLast_subset _ he)
  exact hkept.receive handleInbound d hall

/-- The buffer always has room for a whole datagram. -/
theorem UdpKept.room {ctx : TransportEventCtx (UdpWorld Bus)} (h : UdpKept ctx) :
    bcMaxFrameLen ≤ transportRxCap - ctx.rxBuf.length := by
  have hlt := h.2
  simp only [transportRxCap, bcMaxFrameLen]
  omega

theorem UdpKept.onTransportEvent {ctx : TransportEventCtx (UdpWorld Bus)} (h : UdpKept ctx)
    (ev : TransportEvent RecvfromAnswer) (hev : ∀ answer ∈ ev.answers, UdpAnswerOk answer) :
    UdpKept (BoardComm.onTransportEvent udpOps (udpInbound handleInbound) ev.fd ev.events
      ev.answers ctx).2.1 := by
  refine onTransportEventLoop_rule (udpInbound handleInbound) udpOps ev.events (A := UdpAnswerOk)
    (P := UdpKept) (Q := fun _ c => UdpKept c)
    ?_ (fun _ h => h) ?_ ?_ ?_ ev.answers hev _ h
  · intro c hc hfull
    have hroom := hc.room
    simp only [transportRxCap, bcMaxFrameLen] at hfull hroom
    omega
  · intro c answer world hc hA hread
    rw [readTransport_udp ev.events c.world answer hA _ hc.room] at hread
    cases answer with
    | datagram d => cases hread
    | again => cases hread; exact hc
    | error => cases hread; exact hc
  · intro c answer world hc hA hread
    rw [readTransport_udp ev.events c.world answer hA _ hc.room] at hread
    cases answer <;> cases hread
  · intro c answer world data hc hA hread
    rw [readTransport_udp ev.events c.world answer hA _ hc.room] at hread
    cases answer with
    | again => cases hread
    | error => cases hread
    | datagram d =>
      obtain ⟨hgot, hworld⟩ := Prod.mk.inj hread
      cases hgot
      subst hworld
      have hnext := hc.receive handleInbound data
      constructor
      · intro ctx' he
        rw [withDatagram, he] at hnext
        exact hnext
      · intro ctx' he
        rw [withDatagram, he] at hnext
        exact hnext

theorem UdpKept.runTransportEvents {ctx : TransportEventCtx (UdpWorld Bus)} (h : UdpKept ctx)
    (evs : List (TransportEvent RecvfromAnswer))
    (hevs : ∀ ev ∈ evs, ∀ answer ∈ ev.answers, UdpAnswerOk answer) :
    UdpKept (BoardComm.runTransportEvents udpOps (udpInbound handleInbound) evs ctx).2 := by
  induction evs generalizing ctx with
  | nil => exact h
  | cons ev evs ih =>
    have hfirst := h.onTransportEvent handleInbound ev (hevs ev (by simp))
    exact ih hfirst fun e he => hevs e (List.mem_cons_of_mem _ he)

/-- Datagrams kept apart are independent. -/
theorem KeptApart.independent {ctx : TransportEventCtx (UdpWorld Bus)} (h : KeptApart ctx) :
    DatagramsIndependent ctx.world.received ctx.inbound := by
  refine ⟨ctx.world.received.map fun d => (afterDatagram d).inbound, ?_, ?_⟩
  · rw [h.inbound, List.flatMap_def]
  · rw [List.forall₂_map_right_iff]
    exact List.forall₂_same.mpr fun d _ => afterDatagram_decodedFrom d

/-- A UDP transport on which nothing has been received. -/
def udpStart (bus : Bus) : TransportEventCtx (UdpWorld Bus) := ⟨⟨bus, []⟩, [], [], []⟩

theorem udpKept_start (bus : Bus) : UdpKept (udpStart bus) :=
  ⟨fun _ => ⟨rfl, by simp [udpStart], fun _ => rfl⟩, by simp [udpStart]⟩

end Runs

/-- In every run in which no datagram before the last one received ends inside a
frame, the datagrams are independent. -/
theorem udp_datagrams_independent {Bus : Type*} (handleInbound : Bus → BcMessage → Bus) (bus : Bus)
    (evs : List (TransportEvent RecvfromAnswer))
    (hevs : ∀ ev ∈ evs, ∀ answer ∈ ev.answers, UdpAnswerOk answer) :
    let ctx := (runTransportEvents udpOps (udpInbound handleInbound) evs (udpStart bus)).2
    (∀ d ∈ ctx.world.received.dropLast, ¬ EndsInsideFrame d) →
      DatagramsIndependent ctx.world.received ctx.inbound := by
  intro ctx hself
  have hkept := (udpKept_start bus).runTransportEvents handleInbound evs hevs
  exact (hkept.1 hself).independent

/-- Each datagram arrives with an event of its own. -/
def datagramEvents (ds : List (List UInt8)) : List (TransportEvent RecvfromAnswer) :=
  ds.map fun d => ⟨3, ⟨true, false, false, false⟩, [.datagram d, .again]⟩

/-- The state of the handler after these datagrams. -/
def afterDatagrams (ds : List (List UInt8)) : TransportEventCtx (UdpWorld Unit) :=
  (runTransportEvents udpOps (udpInbound fun _ _ => ()) (datagramEvents ds) (udpStart ())).2

/-- Junk that is rejected at once, then a frame. -/
theorem udp_datagrams_independent_junk :
    DatagramsIndependent (afterDatagrams [List.replicate 40 0, plainWireMessage.frame]).world.received
      (afterDatagrams [List.replicate 40 0, plainWireMessage.frame]).inbound :=
  udp_datagrams_independent (fun _ _ => ()) ()
    (datagramEvents [List.replicate 40 0, plainWireMessage.frame])
    (by decide +kernel) (by decide +kernel)

/-- One byte of junk, then a frame: the frame never reaches the bus. -/
theorem udp_frame_lost_after_junk_byte :
    (afterDatagrams [[0], plainWireMessage.frame]).world.received = [[0], plainWireMessage.frame] ∧
      ¬ DatagramsIndependent (afterDatagrams [[0], plainWireMessage.frame]).world.received
        (afterDatagrams [[0], plainWireMessage.frame]).inbound := by
  have hreceived : (afterDatagrams [[0], plainWireMessage.frame]).world.received =
      [[0], plainWireMessage.frame] := by decide +kernel
  have hnone : (afterDatagrams [[0], plainWireMessage.frame]).inbound = [] := by decide +kernel
  refine ⟨hreceived, ?_⟩
  rw [hreceived, hnone]
  intro h
  obtain ⟨groups, hflat, hgroups⟩ := h
  -- The second group belongs to a datagram that is one frame, so it is not empty.
  obtain ⟨g₁, gs, -, htail, rfl⟩ := List.forall₂_cons_left_iff.mp hgroups
  obtain ⟨g₂, gs', hframe, -, rfl⟩ := List.forall₂_cons_left_iff.mp htail
  have hg₂ := hframe.frame plainWireMessage rfl
  simp [hg₂] at hflat

end BoardComm
