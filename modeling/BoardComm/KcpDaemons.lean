import BoardComm.BusTransports
import BoardComm.KcpChannel

/-!
# Two daemons over KCP

Two daemons exchange frames over a KCP transport; each has other transports too. What one
bus gives to the channel is handed to the other one, whatever the network does to the
datagrams.
-/
namespace BoardComm

namespace Ikcp

section Calls

variable {e : KcpEnd}

/-- The end works on, and nothing is sent or read. -/
structure Continues (e e' : KcpEnd) : Prop where
  returned : e'.returned = e.returned
  sent : e'.session.sent = e.session.sent
  discarded : e.discarded ≤ e'.discarded

theorem Continues.refl (e : KcpEnd) : Continues e e := ⟨rfl, rfl, le_rfl⟩

theorem Continues.trans {e e' e'' : KcpEnd} (h : Continues e e') (h' : Continues e' e'') :
    Continues e e'' :=
  ⟨h'.returned.trans h.returned, h'.sent.trans h.sent, h.discarded.trans h'.discarded⟩

theorem endRecv_sent (x : End) (len : ℕ) : (endRecv x len).sent = x.sent := by
  rw [endRecv]
  split <;> rfl

theorem drainLoop_continues (fuel : ℕ) (e : KcpEnd) : Continues e (drainLoop fuel e).2 := by
  induction fuel generalizing e with
  | zero => exact .refl e
  | succ fuel ih =>
    by_cases hroom : e.rx.length < bcKcpRxBufLen
    · rcases drainLoop_cases hroom with ⟨status, heq⟩ | ⟨msg, e', he', -, -, hnext⟩
      · rw [heq]
        exact .refl e
      · have hstep : Continues e e' := by
          rw [he']
          exact ⟨rfl, endRecv_sent _ _, le_rfl⟩
        rcases hnext with heq | ⟨heq, -⟩
        · rw [heq]
          exact hstep
        · rw [heq]
          exact hstep.trans (ih e')
    · rw [drainLoop, if_pos (Nat.not_lt.mp hroom)]
      exact ⟨rfl, rfl, Nat.le_succ _⟩

theorem kcpUpdateSession_continues (e : KcpEnd) (others : ℕ) (now : UInt32) :
    Continues e (kcpUpdateSession e others now) := by
  have hupdate : Continues e { e with session := endUpdate e.session others now } :=
    ⟨rfl, rfl, le_rfl⟩
  exact hupdate.trans (drainLoop_continues _ _)

theorem udpKcpTimer_continues (e : KcpEnd) (others : ℕ) (nows : List UInt32) :
    Continues e (udpKcpTimer e others nows) := by
  induction nows generalizing e with
  | nil => exact .refl e
  | cons now nows ih => exact (kcpUpdateSession_continues e others now).trans (ih _)

theorem pumpLoop_continues (ds : List Datagram) (e : KcpEnd) : Continues e (pumpLoop ds e).2 := by
  induction ds generalizing e with
  | nil => exact .refl e
  | cons d ds ih =>
    let e' : KcpEnd := { e with session := { e.session with
      kcp := (ikcpInput e.session.kcp (d.bytes.take bcKcpUdpBufLen)).2 } }
    have hinput : Continues e e' := ⟨rfl, rfl, le_rfl⟩
    rw [pumpLoop]
    simp only
    split_ifs
    · exact hinput
    · exact hinput.trans (ih e')

theorem udpKcpSocket_continues (e : KcpEnd) (others : ℕ) (ds : List Datagram) (now : UInt32) :
    Continues e (udpKcpSocket e others ds now).2 := by
  have hpump := pumpLoop_continues ds e
  rw [udpKcpSocket]
  split_ifs
  · exact hpump.trans (kcpUpdateSession_continues _ others now)
  · exact hpump

/-- A message is sent whole, or not at all. -/
theorem udpKcpSend_sent (e : KcpEnd) (others : ℕ) {data : List UInt8} (now : UInt32)
    (hlen : data.length < 2 ^ 31) :
    (udpKcpSend e others data now).2.returned = e.returned ∧
      e.discarded ≤ (udpKcpSend e others data now).2.discarded ∧
      ∃ more, (more = [] ∨ more = [data]) ∧
        (udpKcpSend e others data now).2.session.sent = e.session.sent ++ more := by
  have hmod : data.length % 2 ^ 32 = data.length := Nat.mod_eq_of_lt (by omega)
  have hmore : ∃ more, (more = [] ∨ more = [data]) ∧
      (endSend e.session data).sent = e.session.sent ++ more := by
    rw [endSend]
    by_cases hneg : (ikcpSend e.session.kcp data).1 < 0
    · exact ⟨[], .inl rfl, by simp [hneg]⟩
    · exact ⟨[data], .inr rfl, by simp [hneg]⟩
  rw [udpKcpSend]
  simp only [hmod, List.take_length, if_neg (Nat.not_le.mpr hlen)]
  split_ifs
  · exact ⟨rfl, le_rfl, hmore⟩
  · have hupdate :=
      kcpUpdateSession_continues { e with session := endSend e.session data } others now
    refine ⟨hupdate.returned, hupdate.discarded, ?_⟩
    rw [hupdate.sent]
    exact hmore

/-- What is read is returned. -/
theorem udpKcpRecv_returned (e : KcpEnd) (others cap : ℕ) (now : UInt32) :
    ∃ data, (udpKcpRecv e others cap now).2.returned = e.returned ++ data ∧
      (udpKcpRecv e others cap now).2.session.sent = e.session.sent ∧
      e.discarded ≤ (udpKcpRecv e others cap now).2.discarded ∧
      ((udpKcpRecv e others cap now).1 = .ok data ∨
        data = [] ∧ (udpKcpRecv e others cap now).1 = .error .notFound) := by
  have hupdate := kcpUpdateSession_continues e others now
  rw [udpKcpRecv]
  simp only
  by_cases hempty : (kcpUpdateSession e others now).rx.length = 0
  · rw [if_pos hempty]
    refine ⟨[], ?_, hupdate.sent, hupdate.discarded, .inr ⟨rfl, rfl⟩⟩
    rw [List.append_nil]
    exact hupdate.returned
  · rw [if_neg hempty]
    refine ⟨_, ?_, hupdate.sent, hupdate.discarded, .inl rfl⟩
    rw [hupdate.returned]

end Calls

/-- The transports of a daemon: its end of the channel, with the number of segments that the
other end has numbered and the times that `kcp_now_ms` will give, and all others. -/
structure Ports (ν : Type*) where
  link : KcpEnd
  others : ℕ
  times : List UInt32
  rest : ν

/-- What the event of the channel is: its timer is read at some times, or datagrams wait in
its socket. -/
inductive KcpSignal
  | timer (nows : List UInt32)
  | socket (arrived : List Datagram)
  deriving DecidableEq, Repr

/-- `udp_kcp_handle_event`. -/
def udpKcpHandleEvent {ν : Type*} (signal : KcpSignal) (p : Ports ν) : Ports ν :=
  match signal with
  | .timer nows => { p with link := udpKcpTimer p.link p.others nows }
  | .socket arrived =>
    { p with
      link := (udpKcpSocket p.link p.others arrived (p.times.headD 0)).2, times := p.times.tail }

section Daemon

variable {σ ν : Type*} (deliver : ℤ → List UInt8 → σ → DeliverAnswer × σ)
  (send : ℕ → List UInt8 → ν → BcStatus × ν)

/-- How the bus sends on the transport with an index, the first of which is the channel. -/
def portSend (transport : ℕ) (data : List UInt8) (p : Ports ν) : BcStatus × Ports ν :=
  if transport = 0 then
    let r := udpKcpSend p.link p.others data (p.times.headD 0)
    (r.1, { p with link := r.2, times := p.times.tail })
  else
    let r := send transport data p.rest
    (r.1, { p with rest := r.2 })

/-- What a message that a transport received makes of the daemon. -/
def handleInbound (origin : Option ℕ) (s : BusState σ (Ports ν)) (msg : BcMessage) :
    BusState σ (Ports ν) :=
  (bcMessageBusHandleInbound deliver (portSend send) s msg origin).2

/-- The operations of the channel. -/
def linkOps (signal : KcpSignal) : TransportOps (BusState σ (Ports ν)) Unit where
  handleEvent s _ _ := { s with transports := udpKcpHandleEvent signal s.transports }
  recv := some fun s _ cap =>
    let p := s.transports
    let r := udpKcpRecv p.link p.others cap (p.times.headD 0)
    let s := { s with transports := { p with link := r.2, times := p.times.tail } }
    match r.1 with
    | .ok data => (.ok, data, s)
    | .error rc => (rc, [], s)
  read s _ _ := (.error, s)

/-- A daemon, with the buffer that the channel is read into. -/
abbrev Daemon (σ ν : Type*) := TransportEventCtx (BusState σ (Ports ν))

/-- A client of the daemon publishes, another transport received a message, or there is an
event of the channel. The datagrams that arrive are given by their places among those that
the other end has put out, and the channel is read so many times at most. -/
inductive DaemonCall
  | publish (source : ℤ) (msg : BcMessage)
  | inbound (origin : Option ℕ) (msg : BcMessage)
  | timer (nows : List UInt32) (reads : ℕ)
  | socket (arrived : List ℕ) (reads : ℕ)

/-- Two daemons. -/
structure Daemons (σ ν : Type*) where
  near : Daemon σ ν
  far : Daemon σ ν

namespace Daemons

def swap (d : Daemons σ ν) : Daemons σ ν := ⟨d.far, d.near⟩

/-- The channel that links them. -/
def channel (d : Daemons σ ν) : Channel :=
  ⟨d.near.world.transports.link, d.far.world.transports.link⟩

/-- The near daemon when a call begins. -/
def start (d : Daemons σ ν) (times : List UInt32) : Daemon σ ν :=
  let s := d.near.world
  { d.near with world := { s with transports := { s.transports with
    others := d.channel.far.session.numbered, times := times } } }

def call (d : Daemons σ ν) (times : List UInt32) (call : DaemonCall) : Daemons σ ν :=
  let ctx := d.start times
  let event (signal : KcpSignal) (reads : ℕ) : Daemon σ ν :=
    (onTransportEvent (linkOps signal) (handleInbound deliver send (some 0)) 0
      ⟨true, false, false, false⟩ (List.replicate reads ()) ctx).2.1
  match call with
  | .publish source msg =>
    let s := ctx.world
    let r := bcMessageBusPublish deliver (portSend send) s.bus source msg s.clients s.transports
    { d with near := { ctx with
      world := { s with bus := r.2.1, clients := r.2.2.1, transports := r.2.2.2 } } }
  | .inbound origin msg =>
    { d with near := { ctx with world := handleInbound deliver send origin ctx.world msg } }
  | .timer nows reads => { d with near := event (.timer nows) reads }
  | .socket arrived reads => { d with near := event (.socket (d.channel.arriving arrived)) reads }

/-- No datagram that arrives is too old. -/
def FreshCall (d : Daemons σ ν) : DaemonCall → Prop
  | .socket arrived _ => d.channel.FreshCall (.socket arrived 0)
  | _ => True

instance (d : Daemons σ ν) (call : DaemonCall) : Decidable (d.FreshCall call) := by
  cases call <;> unfold FreshCall <;> infer_instance

end Daemons

/-- A call of either daemon, with the times that its clock gives meanwhile. -/
inductive DaemonStep
  | near (times : List UInt32) (call : DaemonCall)
  | far (times : List UInt32) (call : DaemonCall)

def daemonStep (d : Daemons σ ν) : DaemonStep → Daemons σ ν
  | .near times call => d.call deliver send times call
  | .far times call => (d.swap.call deliver send times call).swap

def Daemons.Fresh (d : Daemons σ ν) : DaemonStep → Prop
  | .near _ call => d.FreshCall call
  | .far _ call => d.swap.FreshCall call

instance (d : Daemons σ ν) (step : DaemonStep) : Decidable (d.Fresh step) := by
  cases step <;> unfold Daemons.Fresh <;> infer_instance

/-- Two daemons when they have opened the channel, whatever their buses, clients and other
transports are. -/
def openDaemons (cfg cfg' : TransportConfig) (bus bus' : MessageBus) (reasm reasm' : BcReasm)
    (clients clients' : σ) (rest rest' : ν) : Daemons σ ν :=
  let c := openChannel cfg cfg'
  ⟨⟨⟨bus, reasm, clients, ⟨c.near, 0, [], rest⟩⟩, [], [], []⟩,
    ⟨⟨bus', reasm', clients', ⟨c.far, 0, [], rest'⟩⟩, [], [], []⟩⟩

end Daemon

section Exchange

variable {σ ν : Type*} {deliver : ℤ → List UInt8 → σ → DeliverAnswer × σ}
  {send : ℕ → List UInt8 → ν → BcStatus × ν} {y : End} {msgs theirs : List WireMessage}
  {bytes : List UInt8} {n : ℕ} {p : Ports ν}

/-- What is known of an end of the channel: which frames were given to it, and which bytes
were read from it. -/
structure PortHolds (y : End) (msgs : List WireMessage) (bytes : List UInt8) (n : ℕ)
    (p : Ports ν) : Prop where
  linked : Linked ⟨p.link.session, y⟩
  lossless : p.link.Lossless
  sent : ∃ more, p.link.session.sent = (msgs ++ more).map WireMessage.frame
  returned : p.link.returned = bytes
  discarded : n ≤ p.link.discarded

/-- The same while the daemon works. -/
structure PortWorks (y : End) (msgs : List WireMessage) (bytes : List UInt8) (n : ℕ)
    (p : Ports ν) : Prop extends PortHolds y msgs bytes n p where
  others : p.others = y.numbered

/-- The channel worked, and nothing else happened to the transports. -/
structure Moved (y : End) (msgs : List WireMessage) (bytes : List UInt8) (n : ℕ)
    (p p' : Ports ν) : Prop where
  works : PortWorks y msgs bytes n p'
  sent : p'.link.session.sent = p.link.session.sent
  rest : p'.rest = p.rest

theorem Continues.moved {e : KcpEnd} {times : List UInt32} (h : PortWorks y msgs bytes n p)
    (hcont : Continues p.link e) (hlinked : Linked ⟨e.session, y⟩) (hlossless : e.Lossless) :
    Moved y msgs bytes n p { p with link := e, times := times } := by
  refine ⟨⟨⟨hlinked, hlossless, ?_, hcont.returned.trans h.returned,
    h.discarded.trans hcont.discarded⟩, h.others⟩, hcont.sent, rfl⟩
  rw [hcont.sent]
  exact h.sent

/-- The bus sends frames of messages. -/
theorem portSend_keeps : SendKeeps (portSend send) (PortWorks y msgs bytes n) := by
  intro transport m p h
  rw [portSend]
  split_ifs
  · have hlen : m.frame.length < 2 ^ 31 := by
      obtain ⟨frame, -, hdata⟩ := bcProtocolEncode_of_wellFormed m.property
      have hle := frame.len_le
      rw [WireMessage.frame, ← hdata]
      exact hle.trans_lt (by decide)
    obtain ⟨hlinked, hlossless⟩ :=
      udpKcpSend_keeps h.linked h.lossless hlen (p.times.headD 0)
    obtain ⟨hreturned, hdiscarded, sent, hsent, heq⟩ :=
      udpKcpSend_sent p.link p.others (p.times.headD 0) hlen
    rw [← h.others] at hlinked hlossless
    obtain ⟨more, hmore⟩ := h.sent
    refine ⟨⟨hlinked, hlossless, ?_, hreturned.trans h.returned, h.discarded.trans hdiscarded⟩,
      h.others⟩
    simp only [heq, hmore]
    rcases hsent with rfl | rfl
    · exact ⟨more, List.append_nil _⟩
    · exact ⟨more ++ [m], by simp⟩
  · exact ⟨⟨h.linked, h.lossless, h.sent, h.returned, h.discarded⟩, h.others⟩

/-- Datagrams of the other end that are not too old, or readings of the timer. -/
theorem udpKcpHandleEvent_moved (h : PortWorks y msgs bytes n p) {signal : KcpSignal}
    (hfresh : ∀ ds, signal = .socket ds → ∀ d ∈ ds, d ∈ y.output ∧
      p.link.session.numbered + y.numbered < d.since + 2 ^ 30) :
    Moved y msgs bytes n p (udpKcpHandleEvent signal p) := by
  cases signal with
  | timer nows =>
    obtain ⟨hlinked, hlossless⟩ := udpKcpTimer_keeps h.linked h.lossless nows
    rw [← h.others] at hlinked hlossless
    exact (udpKcpTimer_continues p.link p.others nows).moved h hlinked hlossless
  | socket arrived =>
    obtain ⟨hlinked, hlossless⟩ :=
      udpKcpSocket_keeps h.linked h.lossless (hfresh arrived rfl) (p.times.headD 0)
    rw [← h.others] at hlinked hlossless
    exact (udpKcpSocket_continues p.link p.others arrived _).moved h hlinked hlossless

/-- What is read goes behind the bytes that were read before. -/
theorem readTransport_moved {s : BusState σ (Ports ν)} (h : PortWorks y msgs bytes n s.transports)
    (signal : KcpSignal) (events : EpollEvents) (cap : ℕ) :
    ∃ data p, readTransport (linkOps signal) events s () cap =
        (if data = [] then .stop else .got data, { s with transports := p }) ∧
      Moved y msgs (bytes ++ data) n s.transports p := by
  let p := s.transports
  obtain ⟨data, hreturned, hsent, hdiscarded, hstatus⟩ :=
    udpKcpRecv_returned p.link p.others cap (p.times.headD 0)
  obtain ⟨hlinked, hlossless⟩ := udpKcpRecv_keeps h.linked h.lossless cap (p.times.headD 0)
  rw [← h.others] at hlinked hlossless
  let p' : Ports ν := { p with
    link := (udpKcpRecv p.link p.others cap (p.times.headD 0)).2, times := p.times.tail }
  have hworks : PortWorks y msgs (bytes ++ data) n p' := by
    refine ⟨⟨hlinked, hlossless, ?_, ?_, h.discarded.trans hdiscarded⟩, h.others⟩
    · simp only [p', hsent]
      exact h.sent
    · simp only [p', hreturned]
      rw [h.returned]
  refine ⟨data, p', ?_, ⟨hworks, hsent, rfl⟩⟩
  rcases hstatus with hok | ⟨hnone, herr⟩
  · simp only [readTransport, linkOps, p', p, hok]
  · simp only [readTransport, linkOps, p', p, herr, hnone, if_true]

/-- The messages that are handed to the bus make it send. -/
theorem handleInbound_works (msgs' : List BcMessage) (origin : Option ℕ)
    {s : BusState σ (Ports ν)} (h : PortWorks y msgs bytes n s.transports) :
    PortWorks y msgs bytes n
      (msgs'.foldl (handleInbound deliver send origin) s).transports := by
  induction msgs' generalizing s with
  | nil => exact h
  | cons msg msgs' ih =>
    exact ih (bcMessageBusHandleInbound_keepsTransports portSend_keeps s msg origin h)

theorem receiveBytes_works {ctx : Daemon σ ν} (h : PortWorks y msgs bytes n ctx.world.transports)
    (data : List UInt8) :
    PortWorks y msgs bytes n
      (receiveBytes (handleInbound deliver send (some 0)) ctx data).2.world.transports := by
  rw [receiveBytes_eq]
  exact handleInbound_works _ (some 0) h

/-- A daemon that reads the frames of the other one, as far as no buffer was given up. -/
structure Receives (y : End) (msgs theirs : List WireMessage) (ctx : Daemon σ ν) : Prop where
  port : PortWorks y msgs ctx.reads.flatten 0 ctx.world.transports
  inStep : ctx.world.transports.link.discarded = 0 → InStep theirs ctx

/-- The state of the daemon may change behind its buffer. -/
theorem Receives.work {ctx : Daemon σ ν} (h : Receives y msgs theirs ctx)
    {s : BusState σ (Ports ν)}
    (hport : PortWorks y msgs ctx.reads.flatten ctx.world.transports.link.discarded s.transports) :
    Receives y msgs theirs { ctx with world := s } :=
  ⟨{ hport with discarded := Nat.zero_le _ }, fun hnone =>
    h.inStep (Nat.eq_zero_of_le_zero (hport.discarded.trans_eq hnone))⟩

theorem Receives.now {ctx : Daemon σ ν} (h : Receives y msgs theirs ctx) :
    PortWorks y msgs ctx.reads.flatten ctx.world.transports.link.discarded ctx.world.transports :=
  { h.port with discarded := le_rfl }

/-- The bytes that were read are the first of those frames. -/
theorem PortWorks.bytes_prefix (h : PortWorks y msgs bytes n p)
    (hsent : y.sent = theirs.map WireMessage.frame) (hnone : p.link.discarded = 0) :
    bytes <+: theirs.flatMap WireMessage.frame := by
  obtain ⟨gx, gy, hnear, -⟩ := h.linked
  obtain ⟨rest, hrest⟩ := hnear.received
  have hall := h.lossless hnone
  rw [h.returned] at hall
  rw [List.flatMap_def, ← hsent, ← hrest, List.flatten_append, ← hall, List.append_assoc]
  exact List.prefix_append _ _

/-- The bytes of one read, and the messages in them. -/
theorem Receives.got {ctx : Daemon σ ν} (h : Receives y msgs theirs ctx)
    (hsent : y.sent = theirs.map WireMessage.frame) {s : BusState σ (Ports ν)} {data : List UInt8}
    (hport : PortWorks y msgs (ctx.reads.flatten ++ data) ctx.world.transports.link.discarded
      s.transports) :
    Receives y msgs theirs
      (receiveBytes (handleInbound deliver send (some 0)) { ctx with world := s } data).2 := by
  have hreads : (receiveBytes (handleInbound deliver send (some 0)) { ctx with world := s }
      data).2.reads.flatten = ctx.reads.flatten ++ data := by
    rw [receiveBytes_eq, List.flatten_append, List.flatten_singleton]
  have hworks := @receiveBytes_works σ ν deliver send _ _ _ _ { ctx with world := s } hport data
  refine ⟨?_, fun hnone => ?_⟩
  · rw [hreads]
    exact { hworks with discarded := Nat.zero_le _ }
  · -- No buffer was given up before either, so that the bytes follow the frames.
    have hread := @receiveBytes_works σ ν deliver send _ _ _ _ { ctx with world := s }
      { hport with discarded := le_rfl } data
    have hbefore := Nat.eq_zero_of_le_zero (hworks.discarded.trans_eq hnone)
    have hstart : InStep theirs { ctx with world := s } := h.inStep hbefore
    rw [← List.flatten_singleton (l := data), ← List.flatten_append] at hport
    obtain ⟨ctx', hok, hstep⟩ := inStep_receiveBytes (handleInbound deliver send (some 0)) hstart
      data (hport.bytes_prefix hsent (Nat.eq_zero_of_le_zero (hread.discarded.trans_eq hnone)))
    rw [hok]
    exact hstep

/-- The rule for an event of the channel: the channel works, and what is read of it is
received. -/
theorem linkEvent_rule {P : Daemon σ ν → Prop} {signal : KcpSignal}
    (hnow : ∀ ctx, P ctx → PortWorks y msgs ctx.reads.flatten
      ctx.world.transports.link.discarded ctx.world.transports)
    (hfull : ∀ ctx, P ctx → transportRxCap ≤ ctx.rxBuf.length → P { ctx with rxBuf := [] })
    (hwork : ∀ ctx p, P ctx → Moved y msgs ctx.reads.flatten
      ctx.world.transports.link.discarded ctx.world.transports p →
      P { ctx with world := { ctx.world with transports := p } })
    (hgot : ∀ ctx p data, P ctx → Moved y msgs (ctx.reads.flatten ++ data)
      ctx.world.transports.link.discarded ctx.world.transports p →
      P (receiveBytes (handleInbound deliver send (some 0))
        { ctx with world := { ctx.world with transports := p } } data).2)
    {ctx : Daemon σ ν} (h : P ctx)
    (hfresh : ∀ ds, signal = .socket ds → ∀ d ∈ ds, d ∈ y.output ∧
      ctx.world.transports.link.session.numbered + y.numbered < d.since + 2 ^ 30)
    (fd : ℤ) (events : EpollEvents) (answers : List Unit) :
    P (onTransportEvent (linkOps signal) (handleInbound deliver send (some 0)) fd events answers
      ctx).2.1 := by
  have hread := fun (ctx : Daemon σ ν) (h : P ctx) =>
    readTransport_moved (hnow ctx h) signal events (transportRxCap - ctx.rxBuf.length)
  refine onTransportEventLoop_rule (handleInbound deliver send (some 0)) (linkOps signal) events
    (A := fun _ => True) (P := P) (Q := fun _ => P) hfull (fun _ h => h) ?_ ?_ ?_ answers
    (fun _ _ => trivial) _ (hwork ctx _ h (udpKcpHandleEvent_moved (hnow ctx h) hfresh))
  · intro ctx answer world h _ hstop
    obtain ⟨data, p, heq, hmoved⟩ := hread ctx h
    rw [hstop] at heq
    split_ifs at heq with hdata
    · obtain rfl := (Prod.mk.inj heq).2
      rw [hdata, List.append_nil] at hmoved
      exact hwork ctx p h hmoved
    · cases (Prod.mk.inj heq).1
  · intro ctx answer world h _ hretry
    obtain ⟨data, p, heq, -⟩ := hread ctx h
    rw [hretry] at heq
    split_ifs at heq <;> cases (Prod.mk.inj heq).1
  · intro ctx answer world data h _ hread'
    obtain ⟨data', p, heq, hmoved⟩ := hread ctx h
    rw [hread'] at heq
    split_ifs at heq with hdata
    · cases (Prod.mk.inj heq).1
    · obtain ⟨hsame, rfl⟩ := Prod.mk.inj heq
      obtain rfl : data = data' := ReadAttempt.got.inj hsame
      have hnext := hgot ctx p data h hmoved
      exact ⟨fun ctx' he => by rwa [he] at hnext, fun ctx' he => by rwa [he] at hnext⟩

/-- An event of the channel. -/
theorem Receives.event {ctx : Daemon σ ν} (h : Receives y msgs theirs ctx)
    (hsent : y.sent = theirs.map WireMessage.frame) {signal : KcpSignal}
    (hfresh : ∀ ds, signal = .socket ds → ∀ d ∈ ds, d ∈ y.output ∧
      ctx.world.transports.link.session.numbered + y.numbered < d.since + 2 ^ 30)
    (fd : ℤ) (events : EpollEvents) (answers : List Unit) :
    Receives y msgs theirs (onTransportEvent (linkOps signal)
      (handleInbound deliver send (some 0)) fd events answers ctx).2.1 := by
  refine linkEvent_rule (fun _ h => h.now) ?_ (fun _ _ h hmoved => h.work hmoved.works)
    (fun _ _ _ h hmoved => h.got hsent hmoved.works) h hfresh fd events answers
  exact fun ctx h hfull =>
    ⟨h.port, fun hnone => absurd (h.inStep hnone).room (Nat.not_lt.mpr hfull)⟩

/-- A daemon between its calls. -/
structure Rests (y : End) (msgs theirs : List WireMessage) (ctx : Daemon σ ν) : Prop where
  port : PortHolds y msgs ctx.reads.flatten 0 ctx.world.transports
  inStep : ctx.world.transports.link.discarded = 0 → InStep theirs ctx

/-- Two daemons have given frames to the channel, and each reads those of the other. -/
structure Daemons.Exchange (d : Daemons σ ν) (ours theirs : List WireMessage) : Prop where
  nearSent : d.channel.near.session.sent = ours.map WireMessage.frame
  farSent : d.channel.far.session.sent = theirs.map WireMessage.frame
  near : Rests d.channel.far.session ours theirs d.near
  far : Rests d.channel.near.session theirs ours d.far

theorem Daemons.Exchange.swap {d : Daemons σ ν} {ours theirs : List WireMessage}
    (h : d.Exchange ours theirs) : d.swap.Exchange theirs ours :=
  ⟨h.farSent, h.nearSent, h.far, h.near⟩

/-- The near daemon worked, and may have given more frames to the channel. -/
theorem Daemons.Exchange.received {d : Daemons σ ν} {ours theirs : List WireMessage}
    (h : d.Exchange ours theirs) {ctx : Daemon σ ν}
    (hctx : Receives d.channel.far.session ours theirs ctx) :
    ∃ ours', Daemons.Exchange { d with near := ctx } ours' theirs := by
  obtain ⟨more, hmore⟩ := hctx.port.sent
  have hlinked := hctx.port.linked
  refine ⟨ours ++ more, hmore, h.farSent, ⟨?_, hctx.inStep⟩, ⟨?_, fun hnone => ?_⟩⟩
  · exact ⟨hlinked, hctx.port.lossless, ⟨[], by rw [List.append_nil]; exact hmore⟩,
      hctx.port.returned, Nat.zero_le _⟩
  · exact ⟨hlinked.swap, h.far.port.lossless, h.far.port.sent, h.far.port.returned,
      Nat.zero_le _⟩
  · obtain ⟨done, hcut, hinbound⟩ := h.far.inStep hnone
    exact ⟨done, hcut.append scanFrame_reads.ne_nil more, hinbound⟩

theorem Daemons.Exchange.start {d : Daemons σ ν} {ours theirs : List WireMessage}
    (h : d.Exchange ours theirs) (times : List UInt32) :
    Receives d.channel.far.session ours theirs (d.start times) :=
  ⟨⟨⟨h.near.port.linked, h.near.port.lossless, h.near.port.sent, h.near.port.returned,
    h.near.port.discarded⟩, rfl⟩, h.near.inStep⟩

/-- The datagrams that arrive were put out by the far daemon, and are not too old. -/
theorem Daemons.fresh_arriving {d : Daemons σ ν} {arrived : List ℕ} {reads : ℕ}
    (hfresh : d.FreshCall (.socket arrived reads)) {ds : List Datagram}
    (hds : KcpSignal.socket (d.channel.arriving arrived) = .socket ds) :
    ∀ d' ∈ ds, d' ∈ d.channel.far.session.output ∧
      d.channel.near.session.numbered + d.channel.far.session.numbered < d'.since + 2 ^ 30 := by
  intro d' hd'
  obtain rfl := KcpSignal.socket.inj hds
  obtain ⟨i, -, hi⟩ := List.mem_filterMap.mp hd'
  exact ⟨List.mem_of_getElem? hi, hfresh d' hd'⟩

theorem Daemons.Exchange.call {d : Daemons σ ν} {ours theirs : List WireMessage}
    (h : d.Exchange ours theirs) (times : List UInt32) {call : DaemonCall}
    (hfresh : d.FreshCall call) :
    ∃ ours', (d.call deliver send times call).Exchange ours' theirs := by
  have hstart := h.start times
  cases call with
  | publish source msg =>
    refine h.received (hstart.work ?_)
    exact bcMessageBusPublish_keepsTransports portSend_keeps _ source msg hstart.now
  | inbound origin msg =>
    refine h.received (hstart.work ?_)
    exact bcMessageBusHandleInbound_keepsTransports portSend_keeps _ msg origin hstart.now
  | timer nows reads =>
    refine h.received (hstart.event h.farSent (fun ds hds => ?_) _ _ _)
    cases hds
  | socket arrived reads =>
    exact h.received (hstart.event h.farSent (fun ds hds => d.fresh_arriving hfresh hds) _ _ _)

theorem daemonStep_exchange {d : Daemons σ ν} (h : ∃ ours theirs, d.Exchange ours theirs)
    {step : DaemonStep} (hfresh : d.Fresh step) :
    ∃ ours theirs, (daemonStep deliver send d step).Exchange ours theirs := by
  obtain ⟨ours, theirs, h⟩ := h
  cases step with
  | near times call =>
    obtain ⟨ours', h'⟩ := h.call times hfresh
    exact ⟨ours', theirs, h'⟩
  | far times call =>
    obtain ⟨theirs', h'⟩ := h.swap.call times hfresh
    exact ⟨ours, theirs', h'.swap⟩

variable {cfg cfg' : TransportConfig} {bus bus' : MessageBus} {reasm reasm' : BcReasm}
  {clients clients' : σ} {rest rest' : ν} {steps : List DaemonStep}

theorem openDaemons_exchange (hconv : kcpConvFromConfig cfg = kcpConvFromConfig cfg') :
    (openDaemons cfg cfg' bus bus' reasm reasm' clients clients' rest rest').Exchange [] [] := by
  have hlinked : Linked (openChannel cfg cfg').link := by
    rw [openChannel, ← hconv]
    exact openLink_linked _
  have hrests : ∀ (y : End) (p : Ports ν) (bus : MessageBus) (reasm : BcReasm) (clients : σ),
      Linked ⟨p.link.session, y⟩ → p.link.Lossless → p.link.session.sent = [] →
      p.link.returned = [] → Rests y [] [] ⟨⟨bus, reasm, clients, p⟩, [], [], []⟩ :=
    fun y p bus reasm clients hlinked hlossless hsent hreturned =>
      ⟨⟨hlinked, hlossless, ⟨[], hsent⟩, hreturned, Nat.zero_le _⟩,
        fun _ => ⟨[], Framing.Cut.nil _ scanFrame_reads.ne_nil [], rfl⟩⟩
  exact ⟨rfl, rfl, hrests _ _ _ _ _ hlinked (fun _ => rfl) rfl rfl,
    hrests _ _ _ _ _ hlinked.swap (fun _ => rfl) rfl rfl⟩

theorem run_daemons_exchange (hconv : kcpConvFromConfig cfg = kcpConvFromConfig cfg')
    (hfresh : Runs.Meets (daemonStep deliver send) Daemons.Fresh
      (openDaemons cfg cfg' bus bus' reasm reasm' clients clients' rest rest') steps) :
    ∃ ours theirs, (Runs.run (daemonStep deliver send)
      (openDaemons cfg cfg' bus bus' reasm reasm' clients clients' rest rest')
      steps).Exchange ours theirs := by
  have hstep : ∀ (d : Daemons σ ν) step, (∃ ours theirs, d.Exchange ours theirs) → True →
      d.Fresh step → ∃ ours theirs, (daemonStep deliver send d step).Exchange ours theirs :=
    fun d step h _ hfresh => daemonStep_exchange h hfresh
  exact Runs.along_of_meets (daemonStep deliver send) hstep ⟨[], [], openDaemons_exchange hconv⟩
    (fun _ _ => trivial) hfresh steps List.prefix_rfl

/-- What the bus of a daemon has got from the channel: the messages in the first of the frames
that the other one gave to it, and in all of them when all bytes were read. -/
structure Got (given : KcpEnd) (ctx : Daemon σ ν) : Prop where
  inOrder : List.Forall₂ (fun frame got => bcProtocolDecode frame = .ok got)
    (given.session.sent.take ctx.inbound.length) ctx.inbound
  complete : ctx.world.transports.link.returned = given.session.sent.flatten →
    ctx.inbound.length = given.session.sent.length

theorem Rests.got {given : KcpEnd} {ctx : Daemon σ ν} {ours theirs : List WireMessage}
    (h : Rests given.session theirs ours ctx)
    (hsent : given.session.sent = ours.map WireMessage.frame)
    (hnone : ctx.world.transports.link.discarded = 0) : Got given ctx := by
  obtain ⟨done, hcut, hinbound⟩ := h.inStep hnone
  have hlength : ctx.inbound.length = done.length := by rw [hinbound, List.length_map]
  constructor
  · obtain ⟨todo, rfl, -⟩ := hcut.pending
    rw [hlength, hsent, List.map_append, List.take_left' (List.length_map _), hinbound]
    rw [List.forall₂_map_left_iff, List.forall₂_map_right_iff]
    exact List.forall₂_same.mpr fun m _ => decode_frameBytes m.property
  · intro hall
    rw [h.port.returned, hsent, ← List.flatMap_def] at hall
    rw [hall] at hcut
    rw [hlength, hcut.done_of_full.1, hsent, List.length_map]

/-- Whatever the network loses, doubles and reorders, and whatever both buses do, the bus of
each daemon is handed the messages that the other one gave to the channel, whole, once and in
order, unless a full buffer was given up. -/
theorem daemons_exchange (hconv : kcpConvFromConfig cfg = kcpConvFromConfig cfg')
    (hfresh : Runs.Meets (daemonStep deliver send) Daemons.Fresh
      (openDaemons cfg cfg' bus bus' reasm reasm' clients clients' rest rest') steps) :
    let d := Runs.run (daemonStep deliver send)
      (openDaemons cfg cfg' bus bus' reasm reasm' clients clients' rest rest') steps
    (d.channel.far.discarded = 0 → Got d.channel.near d.far) ∧
      (d.channel.near.discarded = 0 → Got d.channel.far d.near) := by
  obtain ⟨ours, theirs, h⟩ := run_daemons_exchange hconv hfresh
  exact ⟨h.far.got h.nearSent, h.near.got h.farSent⟩

/-- A bus that passes every broadcast to the channel. -/
def channelBus (id : UInt32) : MessageBus :=
  ⟨[], ⟨[], [⟨[42], [107]⟩], [[107]]⟩, id, 0, false, true, bcStatsReset⟩

/-- A client publishes a message; its datagram arrives twice. -/
theorem daemons_exchange_twice :
    let cfg : TransportConfig := ⟨[107], .udpKcp, [], 9100, 0, -1, 7, 0, -1⟩
    let deliver : ℤ → List UInt8 → Unit → DeliverAnswer × Unit := fun _ _ _ => (⟨.ok, true⟩, ())
    let send : ℕ → List UInt8 → Unit → BcStatus × Unit := fun _ _ _ => (.io, ())
    let d := Runs.run (daemonStep deliver send)
      (openDaemons cfg cfg (channelBus 1) (channelBus 2) bcReasmInit bcReasmInit () () () ())
      [.near [5] (.publish 4 plainMessage), .far [6, 7, 8] (.socket [0, 0] 3)]
    (d.channel.far.discarded = 0 → Got d.channel.near d.far) ∧
      (d.channel.near.discarded = 0 → Got d.channel.far d.near) :=
  daemons_exchange rfl (by decide +kernel)

end Exchange

end Ikcp

end BoardComm
