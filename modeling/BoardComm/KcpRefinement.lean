import BoardComm.KcpDaemons

/-!
# What the channel is for

Two boards are linked by queues that lose nothing, and a bus takes the frames that the
other one gave to its queue. Two daemons over KCP do what such boards do.
-/
namespace BoardComm

section Boards

variable {σ ν : Type*} (deliver : ℤ → List UInt8 → σ → DeliverAnswer × σ)
  (send : ℕ → List UInt8 → ν → BcStatus × ν)

/-- The transports of a board: the frames in its queue, and all others. -/
structure QueuePorts (ν : Type*) where
  out : List (List UInt8)
  rest : ν

/-- The queue takes every frame. -/
def queueSend (transport : ℕ) (data : List UInt8) (q : QueuePorts ν) : BcStatus × QueuePorts ν :=
  if transport = 0 then (.ok, { q with out := q.out ++ [data] })
  else
    let r := send transport data q.rest
    (r.1, { q with rest := r.2 })

/-- Two boards. -/
structure Boards (σ ν : Type*) where
  near : BusState σ (QueuePorts ν)
  far : BusState σ (QueuePorts ν)

/-- A client publishes, another transport received a message, or the bus takes a frame out of
the queue of the other board. -/
inductive BoardCall
  | publish (source : ℤ) (msg : BcMessage)
  | inbound (origin : Option ℕ) (msg : BcMessage)
  | take

def BoardCall.isInput : BoardCall → Bool
  | .take => false
  | _ => true

namespace Boards

def swap (b : Boards σ ν) : Boards σ ν := ⟨b.far, b.near⟩

def call (b : Boards σ ν) : BoardCall → Boards σ ν
  | .publish source msg =>
    let s := b.near
    let r := bcMessageBusPublish deliver (queueSend send) s.bus source msg s.clients s.transports
    { b with near := { s with bus := r.2.1, clients := r.2.2.1, transports := r.2.2.2 } }
  | .inbound origin msg =>
    { b with near := (bcMessageBusHandleInbound deliver (queueSend send) b.near msg origin).2 }
  | .take =>
    match b.far.transports.out with
    | [] => b
    | frame :: out =>
      let far := { b.far with transports := { b.far.transports with out := out } }
      match bcProtocolDecode frame with
      | .ok msg => ⟨(bcMessageBusHandleInbound deliver (queueSend send) b.near msg (some 0)).2, far⟩
      | .error _ => { b with far := far }

end Boards

/-- A call of either board. -/
inductive BoardStep
  | near (call : BoardCall)
  | far (call : BoardCall)

def boardStep (b : Boards σ ν) : BoardStep → Boards σ ν
  | .near call => b.call deliver send call
  | .far call => (b.swap.call deliver send call).swap

def BoardStep.isInput : BoardStep → Bool
  | .near call => call.isInput
  | .far call => call.isInput

/-- Two boards with empty queues. -/
def openBoards (bus bus' : MessageBus) (reasm reasm' : BcReasm) (clients clients' : σ)
    (rest rest' : ν) : Boards σ ν :=
  ⟨⟨bus, reasm, clients, ⟨[], rest⟩⟩, ⟨bus', reasm', clients', ⟨[], rest'⟩⟩⟩

end Boards

namespace Ikcp

/-- What the bus is asked from outside the channel. -/
def DaemonCall.input : DaemonCall → Option BoardCall
  | .publish source msg => some (.publish source msg)
  | .inbound origin msg => some (.inbound origin msg)
  | _ => none

def DaemonStep.input : DaemonStep → Option BoardStep
  | .near _ call => call.input.map .near
  | .far _ call => call.input.map .far

section Refinement

variable {σ ν : Type*} {deliver : ℤ → List UInt8 → σ → DeliverAnswer × σ}
  {send : ℕ → List UInt8 → ν → BcStatus × ν} {y : End} {msgs theirs : List WireMessage}
  {bytes : List UInt8} {n taken : ℕ} {p : Ports ν} {q : QueuePorts ν}

/-- The queue holds the frames that the other daemon has not handed to its bus. -/
structure Queued (taken : ℕ) (p : Ports ν) (q : QueuePorts ν) : Prop where
  rest : p.rest = q.rest
  out : q.out = p.link.session.sent.drop taken

/-- The same while the daemon works. -/
structure PortQueues (y : End) (msgs : List WireMessage) (bytes : List UInt8) (n taken : ℕ)
    (p : Ports ν) (q : QueuePorts ν) : Prop extends Queued taken p q where
  works : PortWorks y msgs bytes n p
  taken_le : taken ≤ msgs.length

/-- A frame is never refused by the channel. -/
theorem udpKcpSend_frame {e : KcpEnd} (h : Linked ⟨e.session, y⟩) (others : ℕ) (m : WireMessage)
    (now : UInt32) :
    (udpKcpSend e others m.frame now).1 = .ok ∧
      (udpKcpSend e others m.frame now).2.session.sent = e.session.sent ++ [m.frame] := by
  obtain ⟨gx, gy, hnear, -⟩ := h
  obtain ⟨frame, -, hdata⟩ := bcProtocolEncode_of_wellFormed m.property
  have hlen : m.frame.length ≤ 2048 := by
    rw [WireMessage.frame, ← hdata]
    exact frame.len_le.trans (by decide)
  have hfew : ¬ ikcpWndRcv.toNat ≤ pieceCount e.session.kcp.mss.toNat m.frame.length := by
    have hmss : e.session.kcp.mss.toNat = 1376 := congrArg UInt32.toNat hnear.mss
    have hwnd : ikcpWndRcv.toNat = 128 := rfl
    rw [hmss, hwnd, pieceCount]
    split_ifs <;> omega
  have hmod : m.frame.length % 2 ^ 32 = m.frame.length := Nat.mod_eq_of_lt (by omega)
  have hsigned : ¬ m.frame.length ≥ 2 ^ 31 := by omega
  have hsent : ¬ (ikcpSend e.session.kcp m.frame).1 < 0 := by
    simp only [ikcpSend, ge_iff_le, if_neg hfew]
    exact not_lt.mpr (Int.natCast_nonneg _)
  simp only [udpKcpSend, hmod, List.take_length, if_neg hsigned, if_neg hsent, true_and]
  rw [(kcpUpdateSession_continues _ others now).sent, endSend]
  simp [hsent]

theorem PortQueues.moved {bytes' : List UInt8} {n' : ℕ} {p' : Ports ν}
    (h : PortQueues y msgs bytes n taken p q) (hmoved : Moved y msgs bytes' n' p p') :
    PortQueues y msgs bytes' 0 taken p' q :=
  ⟨⟨hmoved.rest.trans h.rest, by rw [h.out, hmoved.sent]⟩,
    { hmoved.works with discarded := Nat.zero_le _ }, h.taken_le⟩

theorem portSend_queueSend :
    SendAlike (portSend send) (queueSend send) (PortQueues y msgs bytes n taken) := by
  intro transport m p q h
  have hworks : PortWorks y msgs bytes n (portSend send transport m.frame p).2 :=
    portSend_keeps transport m p h.works
  by_cases hlink : transport = 0
  · obtain ⟨hok, hsent⟩ := udpKcpSend_frame h.works.linked p.others m (p.times.headD 0)
    simp only [portSend, queueSend, if_pos hlink] at hworks ⊢
    refine ⟨hok, ⟨h.rest, ?_⟩, hworks, h.taken_le⟩
    obtain ⟨more, hmore⟩ := h.works.sent
    have hle : taken ≤ p.link.session.sent.length := by
      rw [hmore, List.length_map, List.length_append]
      exact h.taken_le.trans (Nat.le_add_right _ _)
    rw [hsent, List.drop_append_of_le_length hle, h.out]
  · simp only [portSend, queueSend, if_neg hlink] at hworks ⊢
    rw [h.rest] at hworks ⊢
    exact ⟨rfl, ⟨rfl, h.out⟩, hworks, h.taken_le⟩

/-- The bus of the board takes as many frames as the daemon hands messages to its bus. -/
theorem foldl_handleInbound_takes (new : List WireMessage) {s : BusState σ (Ports ν)}
    {b : Boards σ ν} {out : List (List UInt8)}
    (h : s.Alike (PortQueues y msgs bytes n taken) b.near)
    (hout : b.far.transports.out = new.map WireMessage.frame ++ out) :
    ∃ s', Runs.run (Boards.call deliver send) b (List.replicate new.length .take) =
        ⟨s', { b.far with transports := { b.far.transports with out := out } }⟩ ∧
      BusState.Alike (PortQueues y msgs bytes n taken)
        ((new.map WireMessage.received).foldl (handleInbound deliver send (some 0)) s) s' := by
  induction new generalizing s b with
  | nil =>
    obtain rfl : b.far.transports.out = out := hout
    exact ⟨b.near, rfl, h⟩
  | cons m new ih =>
    let far : BusState σ (QueuePorts ν) := { b.far with
      transports := { b.far.transports with out := new.map WireMessage.frame ++ out } }
    have htake : b.call deliver send .take =
        ⟨(bcMessageBusHandleInbound deliver (queueSend send) b.near m.received (some 0)).2,
          far⟩ := by
      have hdecode : bcProtocolDecode m.frame = .ok m.received := decode_frameBytes m.property
      simp only [Boards.call, hout, List.map_cons, List.cons_append, hdecode, far]
    have hnext : BusState.Alike (PortQueues y msgs bytes n taken)
        (handleInbound deliver send (some 0) s m.received)
        (bcMessageBusHandleInbound deliver (queueSend send) b.near m.received (some 0)).2 :=
      (bcMessageBusHandleInbound_alike portSend_queueSend m.received (some 0) h).2
    obtain ⟨s', heq, hs'⟩ := ih (b := ⟨_, far⟩) hnext rfl
    exact ⟨s', by rw [List.length_cons, List.replicate_succ, Runs.run_cons, htake, heq], hs'⟩

variable {Reach : Boards σ ν → Prop} {far : BusState σ (Ports ν)} {ctx : Daemon σ ν}

/-- The boards stand where a daemon and the other end of its channel do. -/
structure Models (far : BusState σ (Ports ν)) (msgs : List WireMessage) (taken : ℕ)
    (ctx : Daemon σ ν) (b : Boards σ ν) : Prop where
  near : ctx.world.Alike (PortQueues far.transports.link.session msgs ctx.reads.flatten 0 taken)
    b.near
  far : far.Alike (Queued ctx.inbound.length) b.far

/-- A daemon reads frames, and boards that can be reached stand where it does, as far as no
buffer was given up. -/
structure Follows (Reach : Boards σ ν → Prop) (far : BusState σ (Ports ν))
    (msgs theirs : List WireMessage) (taken : ℕ) (ctx : Daemon σ ν) : Prop where
  receives : Receives far.transports.link.session msgs theirs ctx
  boards : ctx.world.transports.link.discarded = 0 → ∃ b, Reach b ∧ Models far msgs taken ctx b

/-- The channel may work behind the buffer. -/
theorem Follows.work (h : Follows Reach far msgs theirs taken ctx)
    (hmoved : Moved far.transports.link.session msgs ctx.reads.flatten
      ctx.world.transports.link.discarded ctx.world.transports p) :
    Follows Reach far msgs theirs taken
      { ctx with world := { ctx.world with transports := p } } := by
  refine ⟨h.receives.work hmoved.works, fun hnone => ?_⟩
  have hbefore := Nat.eq_zero_of_le_zero (hmoved.works.discarded.trans_eq hnone)
  obtain ⟨b, hreach, ⟨hbus, hreasm, hclients, hports⟩, hfar⟩ := h.boards hbefore
  exact ⟨b, hreach, ⟨hbus, hreasm, hclients, hports.moved hmoved⟩, hfar⟩

/-- One read, and the frames that the near board takes meanwhile. -/
theorem Follows.got (htake : ∀ b, Reach b → Reach (b.call deliver send .take))
    (h : Follows Reach far msgs theirs taken ctx)
    (htheirs : far.transports.link.session.sent = theirs.map WireMessage.frame)
    {data : List UInt8}
    (hmoved : Moved far.transports.link.session msgs (ctx.reads.flatten ++ data)
      ctx.world.transports.link.discarded ctx.world.transports p) :
    Follows Reach far msgs theirs taken (receiveBytes (handleInbound deliver send (some 0))
      { ctx with world := { ctx.world with transports := p } } data).2 := by
  let ctx₁ : Daemon σ ν := { ctx with world := { ctx.world with transports := p } }
  have hgot := @Receives.got σ ν deliver send _ _ _ _ h.receives htheirs ctx₁.world _
    hmoved.works
  have hworks := @receiveBytes_works σ ν deliver send _ _ _ _ ctx₁ hmoved.works data
  refine ⟨hgot, fun hnone => ?_⟩
  have hbefore := Nat.eq_zero_of_le_zero (hworks.discarded.trans_eq hnone)
  obtain ⟨b, hreach, ⟨hbus, hreasm, hclients, hports⟩, hfar⟩ := h.boards hbefore
  have hinbound := congrArg (fun r => r.2.inbound)
    (receiveBytes_eq (handleInbound deliver send (some 0)) ctx₁ data)
  obtain ⟨new, hnew, hqueue⟩ :=
    InStep.more (h.receives.inStep hbefore) (hgot.inStep hnone) hinbound
  have hnear : ctx₁.world.Alike (PortQueues far.transports.link.session msgs
      (ctx.reads.flatten ++ data) 0 taken) b.near :=
    ⟨hbus, hreasm, hclients, hports.moved hmoved⟩
  have hout : b.far.transports.out = new.map WireMessage.frame ++
      (theirs.drop (receiveBytes (handleInbound deliver send (some 0)) ctx₁
        data).2.inbound.length).map WireMessage.frame := by
    rw [hfar.transports.out, htheirs, ← List.map_drop, hqueue, List.map_append]
  obtain ⟨s', htakes, hs'⟩ := foldl_handleInbound_takes new hnear hout
  have hreach' := Runs.run_of_inputs (A := (· = .take)) (Boards.call deliver send)
    (fun b call hb hcall => by rw [hcall]; exact htake b hb) hreach
    fun call hcall => List.eq_of_mem_replicate (n := new.length) hcall
  rw [htakes] at hreach'
  refine ⟨_, hreach', ?_, hfar.bus, hfar.reasm, hfar.clients, hfar.transports.rest, ?_⟩
  · have hworld : (receiveBytes (handleInbound deliver send (some 0)) ctx₁ data).2.world =
        (new.map WireMessage.received).foldl (handleInbound deliver send (some 0)) ctx₁.world := by
      rw [receiveBytes_eq, ← hnew]
    have hreads : (receiveBytes (handleInbound deliver send (some 0)) ctx₁ data).2.reads.flatten =
        ctx.reads.flatten ++ data := by
      rw [receiveBytes_eq, List.flatten_append, List.flatten_singleton]
    rw [hworld, hreads]
    exact hs'
  · rw [htheirs, List.map_drop]

/-- An event of the channel. -/
theorem Follows.event (htake : ∀ b, Reach b → Reach (b.call deliver send .take))
    (h : Follows Reach far msgs theirs taken ctx)
    (htheirs : far.transports.link.session.sent = theirs.map WireMessage.frame)
    {signal : KcpSignal}
    (hfresh : ∀ ds, signal = .socket ds → ∀ d ∈ ds, d ∈ far.transports.link.session.output ∧
      ctx.world.transports.link.session.numbered + far.transports.link.session.numbered <
        d.since + 2 ^ 30)
    (fd : ℤ) (events : EpollEvents) (answers : List Unit) :
    Follows Reach far msgs theirs taken (onTransportEvent (linkOps signal)
      (handleInbound deliver send (some 0)) fd events answers ctx).2.1 := by
  refine linkEvent_rule (fun _ h => h.receives.now) ?_ (fun _ _ h hmoved => h.work hmoved)
    (fun _ _ _ h hmoved => h.got htake htheirs hmoved) h hfresh fd events answers
  intro ctx h hfull
  have hroom : ctx.world.transports.link.discarded ≠ 0 := fun hnone =>
    Nat.not_lt.mpr hfull (h.receives.inStep hnone).room
  exact ⟨⟨h.receives.port, fun hnone => absurd hnone hroom⟩, fun hnone => absurd hnone hroom⟩

/-- The boards stand where the daemons do. -/
structure Daemons.Shows (d : Daemons σ ν) (b : Boards σ ν) : Prop where
  near : d.near.world.Alike (Queued d.far.inbound.length) b.near
  far : d.far.world.Alike (Queued d.near.inbound.length) b.far

theorem Daemons.Shows.swap {d : Daemons σ ν} {b : Boards σ ν} (h : d.Shows b) :
    d.swap.Shows b.swap :=
  ⟨h.far, h.near⟩

/-- The daemon when a call begins. -/
theorem Daemons.Exchange.follows {d : Daemons σ ν} {ours : List WireMessage}
    (h : d.Exchange ours theirs) (times : List UInt32) (hfar : d.channel.far.discarded = 0)
    (hshows : d.channel.near.discarded = 0 → ∃ b, Reach b ∧ d.Shows b) :
    Follows Reach d.far.world ours theirs d.far.inbound.length (d.start times) := by
  refine ⟨h.start times, fun hnone => ?_⟩
  obtain ⟨b, hreach, ⟨hbus, hreasm, hclients, hqueued⟩, hb⟩ := hshows hnone
  have hle : d.far.inbound.length ≤ ours.length := by
    obtain ⟨done, ⟨-, todo, hours, -⟩, hdone⟩ := h.far.inStep hfar
    rw [hdone, hours, List.length_map, List.length_append]
    exact Nat.le_add_right _ _
  exact ⟨b, hreach, ⟨hbus, hreasm, hclients, ⟨hqueued.rest, hqueued.out⟩, (h.start times).port,
    hle⟩, hb⟩

/-- What a daemon does in a call, the near board can do. -/
theorem Follows.shows {d : Daemons σ ν} (h : Follows Reach d.far.world msgs theirs
      d.far.inbound.length ctx) (hnone : ctx.world.transports.link.discarded = 0) :
    ∃ b, Reach b ∧ Daemons.Shows { d with near := ctx } b := by
  obtain ⟨b, hreach, ⟨hbus, hreasm, hclients, hports⟩, hb⟩ := h.boards hnone
  exact ⟨b, hreach, ⟨hbus, hreasm, hclients, hports.rest, hports.out⟩, hb⟩

/-- Clients and other transports ask the bus of the near board the same. -/
theorem Follows.asked {Reach' : Boards σ ν → Prop} {s : BusState σ (Ports ν)} {call : BoardCall}
    (h : Follows Reach far msgs theirs taken ctx)
    (hinput : ∀ b, Reach b → Reach' (b.call deliver send call))
    (hkeep : PortWorks far.transports.link.session msgs ctx.reads.flatten
      ctx.world.transports.link.discarded s.transports)
    (halike : ∀ b : Boards σ ν,
      ctx.world.Alike (PortQueues far.transports.link.session msgs ctx.reads.flatten 0 taken)
        b.near →
      ∃ s', b.call deliver send call = { b with near := s' } ∧
        s.Alike (PortQueues far.transports.link.session msgs ctx.reads.flatten 0 taken) s') :
    Follows Reach' far msgs theirs taken { ctx with world := s } := by
  refine ⟨h.receives.work hkeep, fun hnone => ?_⟩
  have hbefore := Nat.eq_zero_of_le_zero (hkeep.discarded.trans_eq hnone)
  obtain ⟨b, hreach, hnear, hb⟩ := h.boards hbefore
  obtain ⟨s', heq, hs'⟩ := halike b hnear
  have hnext := hinput b hreach
  rw [heq] at hnext
  exact ⟨_, hnext, hs', hb⟩

/-- What a call does, the boards can do. -/
theorem Daemons.Exchange.call_shows {d : Daemons σ ν} {ours : List WireMessage}
    {Reach' : Boards σ ν → Prop} (h : d.Exchange ours theirs) (times : List UInt32)
    {call : DaemonCall} (hfresh : d.FreshCall call)
    (htake : ∀ b, Reach' b → Reach' (b.call deliver send .take))
    (hinput : ∀ b, Reach b → Reach' (call.input.elim b (b.call deliver send)))
    (hfar : d.channel.far.discarded = 0)
    (hshows : d.channel.near.discarded = 0 → ∃ b, Reach b ∧ d.Shows b)
    (hnone : (d.call deliver send times call).channel.near.discarded = 0) :
    ∃ b, Reach' b ∧ (d.call deliver send times call).Shows b := by
  have hstart := h.follows times hfar hshows
  have hnow := hstart.receives.now
  cases call with
  | publish source msg =>
    have hpublish : ∀ b, Reach b → Reach' (b.call deliver send (.publish source msg)) := hinput
    have hasked := hstart.asked hpublish
      (s := (d.call deliver send times (.publish source msg)).near.world)
      (bcMessageBusPublish_keepsTransports portSend_keeps _ source msg hnow)
      fun b hb => ⟨_, rfl, (bcMessageBusPublish_alike portSend_queueSend source msg hb).2⟩
    exact hasked.shows hnone
  | inbound origin msg =>
    have hinbound : ∀ b, Reach b → Reach' (b.call deliver send (.inbound origin msg)) := hinput
    have hasked := hstart.asked hinbound
      (s := (d.call deliver send times (.inbound origin msg)).near.world)
      (bcMessageBusHandleInbound_keepsTransports portSend_keeps _ msg origin hnow)
      fun b hb => ⟨_, rfl, (bcMessageBusHandleInbound_alike portSend_queueSend msg origin hb).2⟩
    exact hasked.shows hnone
  | timer nows reads =>
    have hstart' := h.follows times hfar fun hnone =>
      (hshows hnone).imp fun b hb => ⟨hinput b hb.1, hb.2⟩
    exact (hstart'.event htake h.farSent (fun ds hds => by cases hds) _ _ _).shows hnone
  | socket arrived reads =>
    have hstart' := h.follows times hfar fun hnone =>
      (hshows hnone).imp fun b hb => ⟨hinput b hb.1, hb.2⟩
    exact (hstart'.event htake h.farSent (fun ds hds => d.fresh_arriving hfresh hds) _ _ _).shows
      hnone

variable (deliver send) in
theorem Daemons.call_far (d : Daemons σ ν) (times : List UInt32) (call : DaemonCall) :
    (d.call deliver send times call).channel.far = d.channel.far := by
  cases call <;> rfl

/-- What a step does, the boards can do. -/
theorem daemonStep_shows {d : Daemons σ ν} {Reach' : Boards σ ν → Prop}
    (h : ∃ ours theirs, d.Exchange ours theirs) {step : DaemonStep} (hfresh : d.Fresh step)
    (htake : ∀ b step, step.isInput = false → Reach' b → Reach' (boardStep deliver send b step))
    (hinput : ∀ b, Reach b → Reach' (step.input.elim b (boardStep deliver send b)))
    (hshows : d.channel.near.discarded = 0 → d.channel.far.discarded = 0 →
      ∃ b, Reach b ∧ d.Shows b)
    (hnear : (daemonStep deliver send d step).channel.near.discarded = 0)
    (hfar : (daemonStep deliver send d step).channel.far.discarded = 0) :
    ∃ b, Reach' b ∧ (daemonStep deliver send d step).Shows b := by
  obtain ⟨ours, theirs, h⟩ := h
  cases step with
  | near times call =>
    have hother : d.channel.far.discarded = 0 := by
      rwa [daemonStep, Daemons.call_far] at hfar
    refine h.call_shows times hfresh (fun b => htake b (.near .take) rfl) (fun b hb => ?_) hother
      (fun hnone => hshows hnone hother) hnear
    have hnext := hinput b hb
    cases call <;> exact hnext
  | far times call =>
    have hother : d.swap.channel.far.discarded = 0 := by
      rwa [← d.swap.call_far deliver send times call]
    have hswapped : ∀ b : Boards σ ν, Reach b.swap →
        Reach' (call.input.elim b (b.call deliver send)).swap := by
      intro b hb
      have hnext := hinput b.swap hb
      cases call <;> exact hnext
    obtain ⟨b, hreach, hb⟩ := @Daemons.Exchange.call_shows σ ν deliver send ours
      (fun b => Reach b.swap) d.swap theirs (fun b => Reach' b.swap) h.swap times call hfresh
      (fun b => htake b.swap (.far .take) rfl) hswapped hother
      (fun hnone => (hshows hother hnone).elim fun b hb => ⟨b.swap, hb.1, hb.2.swap⟩) hfar
    exact ⟨b.swap, hreach, hb.swap⟩

theorem DaemonStep.input_isInput (step : DaemonStep) {i : BoardStep} (h : step.input = some i) :
    i.isInput = true := by
  rcases step with ⟨times, call⟩ | ⟨times, call⟩ <;> cases call <;> cases h <;> rfl

/-- The boards come to stand somewhere when they are asked so. -/
def Asked (deliver : ℤ → List UInt8 → σ → DeliverAnswer × σ)
    (send : ℕ → List UInt8 → ν → BcStatus × ν) (start : Boards σ ν) (inputs : List BoardStep)
    (b : Boards σ ν) : Prop :=
  ∃ calls, calls.filter BoardStep.isInput = inputs ∧
    Runs.run (boardStep deliver send) start calls = b

variable {start : Boards σ ν} {inputs : List BoardStep}

theorem Asked.append {b : Boards σ ν} (h : Asked deliver send start inputs b) (step : BoardStep) :
    Asked deliver send start (inputs ++ [step].filter BoardStep.isInput)
      (boardStep deliver send b step) := by
  obtain ⟨calls, rfl, rfl⟩ := h
  exact ⟨calls ++ [step], List.filter_append .., by rw [Runs.run_append]; rfl⟩

theorem run_daemons_show {d : Daemons σ ν} {steps : List DaemonStep}
    (h : ∃ ours theirs, d.Exchange ours theirs)
    (hfresh : Runs.Meets (daemonStep deliver send) Daemons.Fresh d steps)
    (hshows : d.channel.near.discarded = 0 → d.channel.far.discarded = 0 →
      ∃ b, Asked deliver send start inputs b ∧ d.Shows b)
    (hnear : (Runs.run (daemonStep deliver send) d steps).channel.near.discarded = 0)
    (hfar : (Runs.run (daemonStep deliver send) d steps).channel.far.discarded = 0) :
    ∃ b, Asked deliver send start (inputs ++ steps.filterMap DaemonStep.input) b ∧
      (Runs.run (daemonStep deliver send) d steps).Shows b := by
  induction steps generalizing d inputs with
  | nil =>
    rw [List.filterMap_nil, List.append_nil]
    exact hshows hnear hfar
  | cons step steps ih =>
    obtain ⟨hstep, hrest⟩ := (Runs.meets_cons _).mp hfresh
    have hdone := @ih (inputs ++ step.input.toList) _ (daemonStep_exchange h hstep) hrest
      (daemonStep_shows h hstep (fun b i hi hb => ?_) (fun b hb => ?_) hshows) hnear hfar
    · have hinputs : inputs ++ (step :: steps).filterMap DaemonStep.input =
          inputs ++ step.input.toList ++ steps.filterMap DaemonStep.input := by
        cases hinput : step.input <;> simp [hinput]
      rw [hinputs]
      exact hdone
    · have hnext := hb.append i
      rwa [List.filter_singleton, hi, cond_false, List.append_nil] at hnext
    · cases hinput : step.input with
      | none =>
        rw [Option.toList, List.append_nil]
        exact hb
      | some i =>
        have hnext := hb.append i
        rwa [List.filter_singleton, step.input_isInput hinput] at hnext

variable {cfg cfg' : TransportConfig} {bus bus' : MessageBus} {reasm reasm' : BcReasm}
  {clients clients' : σ} {rest rest' : ν} {steps : List DaemonStep}

/-- As long as no full buffer was given up, both daemons stand where boards linked by queues
can stand that were asked the same in the same order, whatever the network loses, doubles and
reorders: with the same buses, clients and other transports, and the frames in the queues
that the daemons have not handed on. -/
theorem daemons_refine (hconv : kcpConvFromConfig cfg = kcpConvFromConfig cfg')
    (hfresh : Runs.Meets (daemonStep deliver send) Daemons.Fresh
      (openDaemons cfg cfg' bus bus' reasm reasm' clients clients' rest rest') steps) :
    let d := Runs.run (daemonStep deliver send)
      (openDaemons cfg cfg' bus bus' reasm reasm' clients clients' rest rest') steps
    d.channel.near.discarded = 0 → d.channel.far.discarded = 0 →
      ∃ calls, calls.filter BoardStep.isInput = steps.filterMap DaemonStep.input ∧
        d.Shows (Runs.run (boardStep deliver send)
          (openBoards bus bus' reasm reasm' clients clients' rest rest') calls) := by
  intro d hnear hfar
  have hstart : (openDaemons cfg cfg' bus bus' reasm reasm' clients clients' rest rest').Shows
      (openBoards bus bus' reasm reasm' clients clients' rest rest') :=
    ⟨⟨rfl, rfl, rfl, rfl, rfl⟩, ⟨rfl, rfl, rfl, rfl, rfl⟩⟩
  obtain ⟨b, ⟨calls, hcalls, rfl⟩, hb⟩ := run_daemons_show
    ⟨[], [], openDaemons_exchange hconv⟩ hfresh (fun _ _ => ⟨_, ⟨[], rfl, rfl⟩, hstart⟩) hnear hfar
  exact ⟨calls, hcalls, hb⟩

/-- The message of a client is on its way, and arrives twice. -/
theorem daemons_refine_twice :
    let cfg : TransportConfig := ⟨[107], .udpKcp, [], 9100, 0, -1, 7, 0, -1⟩
    let deliver : ℤ → List UInt8 → Unit → DeliverAnswer × Unit := fun _ _ _ => (⟨.ok, true⟩, ())
    let send : ℕ → List UInt8 → Unit → BcStatus × Unit := fun _ _ _ => (.io, ())
    let steps : List DaemonStep :=
      [.near [5] (.publish 4 plainMessage), .far [6, 7, 8] (.socket [0, 0] 3)]
    ∃ calls, calls.filter BoardStep.isInput = steps.filterMap DaemonStep.input ∧
      Daemons.Shows (Runs.run (daemonStep deliver send)
        (openDaemons cfg cfg (channelBus 1) (channelBus 2) bcReasmInit bcReasmInit () () () ())
        steps)
        (Runs.run (boardStep deliver send)
          (openBoards (channelBus 1) (channelBus 2) bcReasmInit bcReasmInit () () () ()) calls) :=
  daemons_refine rfl (by decide +kernel) (by decide +kernel) (by decide +kernel)

end Refinement

end Ikcp

end BoardComm
