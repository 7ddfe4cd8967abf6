import BoardComm.BusTransports
import BoardComm.TcpTransport

/-!
# A TCP transport in its daemon

The handler reads frames from the transport and hands them to the bus, and the bus sends
acknowledgements and forwarded messages on the same transport while it deals with them.
A send that fails gives the connection up, so that every bus call may end it.
-/
namespace BoardComm

section Grows

/-- A change of the transport other than receiving: connections may be lost and
established, and nothing has arrived on those that are new. -/
def Grows (impl impl' : TcpImpl) : Prop :=
  ∃ k, impl'.streams = impl.streams ++ List.replicate k [] ∧
    (k = 0 → impl'.connected = true → impl.connected = true)

theorem Grows.refl (impl : TcpImpl) : Grows impl impl :=
  ⟨0, by simp, fun _ h => h⟩

theorem Grows.trans {a b c : TcpImpl} (h₁ : Grows a b) (h₂ : Grows b c) : Grows a c := by
  obtain ⟨k, hk, hconn⟩ := h₁
  obtain ⟨l, hl, hconn'⟩ := h₂
  refine ⟨k + l, ?_, ?_⟩
  · rw [hl, hk, List.append_assoc, List.replicate_append_replicate]
  · intro hz hc
    exact hconn (by omega) (hconn' (by omega) hc)

/-- The connection, if any, stays or is lost. -/
theorem Grows.of_same {impl impl' : TcpImpl} (hs : impl'.streams = impl.streams)
    (hc : impl'.connected = true → impl.connected = true) : Grows impl impl' :=
  ⟨0, by simp [hs], fun _ => hc⟩

/-- A connection is established. -/
theorem Grows.of_new {impl impl' : TcpImpl} (hs : impl'.streams = impl.streams ++ [[]]) :
    Grows impl impl' :=
  ⟨1, hs, fun h => absurd h (by decide)⟩

theorem grows_scheduleReconnect (impl : TcpImpl) : Grows impl (tcpScheduleReconnect impl) := by
  unfold tcpScheduleReconnect
  split_ifs
  · exact .refl impl
  · simp only [tcpTimerArm]
    split_ifs
    · exact .of_same rfl id
    · exact .of_same rfl id

theorem grows_closeConn (impl : TcpImpl) : Grows impl (tcpCloseConn impl) :=
  .of_same rfl (fun h => by cases h)

theorem grows_dropConnection (impl : TcpImpl) : Grows impl (tcpDropConnection impl) := by
  unfold tcpDropConnection
  split_ifs
  · exact .refl impl
  · exact grows_closeConn impl
  · exact (grows_closeConn impl).trans (grows_scheduleReconnect _)

theorem grows_beginConnect (answer : ConnectAnswer) (watch : Bool) (impl : TcpImpl) :
    Grows impl (tcpBeginConnect answer watch impl).2 := by
  cases answer with
  | noSocket => exact .of_same rfl id
  | badHost => exact .of_same rfl id
  | inProgress fd => exact .of_same rfl (fun h => by cases h)
  | refused => exact .of_same rfl (fun h => by cases h)
  | connected fd => exact .of_new rfl

theorem grows_onConnectReady (failed watch : Bool) (impl : TcpImpl) :
    Grows impl (tcpOnConnectReady failed watch impl).2 := by
  unfold tcpOnConnectReady
  split_ifs with hfailed
  · simp only
    split_ifs
    · exact (grows_dropConnection impl).trans (grows_scheduleReconnect _)
    · exact grows_dropConnection impl
  · exact .of_new rfl

theorem grows_acceptOne (answer : AcceptAnswer) (watch : Bool) (impl : TcpImpl) :
    Grows impl (tcpAcceptOne answer watch impl).2 := by
  cases answer with
  | eintr => exact .refl impl
  | error => exact .refl impl
  | client fd =>
    unfold tcpAcceptOne
    simp only
    split_ifs
    · exact (grows_dropConnection impl).trans (.of_new rfl)
    · exact .of_new rfl

theorem grows_queueSend (io : IoAnswers) (impl : TcpImpl) (data : List UInt8) :
    Grows impl (tcpQueueSend io impl data).2 := by
  unfold tcpQueueSend
  cases impl.link.queue bcTcpSendCap io.alloc data with
  | none => exact .refl impl
  | some link => exact .of_same rfl id

/-- A send that fails loses the connection. -/
theorem grows_send (io : IoAnswers) (impl : TcpImpl) (data : List UInt8) :
    Grows impl (tcpSend io impl data).2 := by
  unfold tcpSend
  split_ifs
  · exact .refl impl
  · exact grows_queueSend io impl data
  · cases impl.link.write io.writes data with
    | mk r link =>
      have hwritten : Grows impl { impl with link := link } := .of_same rfl id
      simp only
      cases r.exit with
      | done => exact hwritten
      | blocked => exact hwritten.trans (grows_queueSend io _ _)
      | failed => exact hwritten.trans (grows_dropConnection _)

theorem grows_flushSend (io : IoAnswers) (impl : TcpImpl) :
    Grows impl (tcpFlushSend io impl).2 := by
  unfold tcpFlushSend
  split_ifs
  · exact .refl impl
  · cases impl.link.flush io.writes with
    | mk exit link => cases exit <;> exact .of_same rfl id

theorem grows_timerLoop (watch : Bool) (answers : List ConnectAnswer) (impl : TcpImpl) :
    Grows impl (tcpTimerLoop watch answers impl) := by
  induction answers generalizing impl with
  | nil => exact .refl impl
  | cons answer answers ih =>
    unfold tcpTimerLoop
    split_ifs
    · exact .refl impl
    · have harm : Grows impl { impl with timer := none, reconnectArmed := false } :=
        .of_same rfl id
      exact (harm.trans (grows_beginConnect answer watch _)).trans (ih _)
    · have harm : Grows impl { impl with timer := none } := .of_same rfl id
      exact harm.trans (ih _)

theorem grows_acceptLoop (watch : Bool) (answers : List AcceptAnswer) (impl : TcpImpl) :
    Grows impl (tcpAcceptLoop watch answers impl) := by
  induction answers generalizing impl with
  | nil => exact .refl impl
  | cons answer answers ih =>
    have hone := grows_acceptOne answer watch impl
    unfold tcpAcceptLoop
    cases hacc : tcpAcceptOne answer watch impl with
    | mk rc impl' =>
      rw [hacc] at hone
      cases rc
      case ok => exact hone.trans (ih impl')
      all_goals exact hone

theorem grows_handleEvent (answers : TcpAnswers) (impl : TcpImpl) (fd : ℤ) (events : EpollEvents) :
    Grows impl (tcpHandleEvent answers impl fd events) := by
  unfold tcpHandleEvent
  split_ifs
  · exact grows_timerLoop _ _ impl
  · exact grows_acceptLoop _ _ impl
  · exact grows_onConnectReady _ _ impl
  · exact grows_dropConnection impl
  · have hflush := grows_flushSend answers.io impl
    cases hf : tcpFlushSend answers.io impl with
    | mk rc impl' =>
      rw [hf] at hflush
      cases rc
      case ok => exact hflush
      all_goals exact hflush.trans (grows_dropConnection impl')
  · exact .refl impl
  · exact .refl impl

theorem grows_open (impl : TcpImpl) (answer : TcpOpenAnswer) :
    Grows impl (tcpOpen impl answer) := by
  cases answer with
  | server fd => exact .of_same rfl id
  | client fd connect watch =>
    have hset : Grows impl { impl with isServer := false, timerFd := fd } := .of_same rfl id
    have hbegin := hset.trans (grows_beginConnect connect watch _)
    simp only [tcpOpen]
    cases hb : tcpBeginConnect connect watch { impl with isServer := false, timerFd := fd } with
    | mk rc impl' =>
      rw [hb] at hbegin
      cases rc
      case ok => exact hbegin
      all_goals exact hbegin.trans (grows_scheduleReconnect impl')

end Grows

/-- The transports of a daemon, one of which is a TCP transport, with what the system will
answer to the sends on it. -/
structure TcpPorts (ν : Type*) where
  impl : TcpImpl
  sends : List IoAnswers
  rest : ν

variable {σ ν : Type*}

/-- What the handler of the TCP transport sees. -/
abbrev TcpDaemon (σ ν : Type*) : Type _ := TransportEventCtx (BusState σ (TcpPorts ν))

section Ports

/-- How the bus sends on the transport with an index. -/
def tcpPortSend (send : ℕ → List UInt8 → ν → BcStatus × ν) (port transport : ℕ)
    (data : List UInt8) (p : TcpPorts ν) : BcStatus × TcpPorts ν :=
  if transport = port then
    let r := tcpSend (p.sends.headD TcpAnswers.silent.io) p.impl data
    (r.1, { p with impl := r.2, sends := p.sends.tail })
  else
    let r := send transport data p.rest
    (r.1, { p with rest := r.2 })

/-- `tcp_ops`, as the handler uses it. -/
def tcpOps (answers : TcpAnswers) : TransportOps (BusState σ (TcpPorts ν)) RecvAnswer where
  handleEvent s fd events :=
    { s with transports :=
      { s.transports with impl := tcpHandleEvent answers s.transports.impl fd events } }
  recv := some fun s answer cap =>
    let (rc, data, impl) := tcpRecv s.transports.impl answer cap
    (rc, data, { s with transports := { s.transports with impl := impl } })
  read s _ _ := (.error, s)

/-- `bc_message_bus_handle_inbound`, as the handler of the transport calls it. -/
def tcpInbound (deliver : ℤ → List UInt8 → σ → DeliverAnswer × σ)
    (send : ℕ → List UInt8 → ν → BcStatus × ν) (port : ℕ) (s : BusState σ (TcpPorts ν))
    (msg : BcMessage) : BusState σ (TcpPorts ν) :=
  (bcMessageBusHandleInbound deliver (tcpPortSend send port) s msg (some port)).2

end Ports

section Steps

/-- What the daemon does next: an event on a descriptor of the transport, a message that a
client publishes, a message that another transport received, or anything that leaves the
transport alone. The sends on the transport meet the answers in their order. -/
inductive TcpDaemonInput (σ ν : Type*)
  | event (answers : TcpAnswers) (sends : List IoAnswers) (ev : TransportEvent RecvAnswer)
  | publish (sends : List IoAnswers) (source : ℤ) (msg : BcMessage)
  | inbound (sends : List IoAnswers) (origin : ℕ) (msg : BcMessage)
  | elsewhere (bus : MessageBus) (reasm : BcReasm) (clients : σ) (rest : ν)

variable (deliver : ℤ → List UInt8 → σ → DeliverAnswer × σ)
  (send : ℕ → List UInt8 → ν → BcStatus × ν) (port : ℕ)

/-- The sends to come are answered so. -/
def BusState.answering (s : BusState σ (TcpPorts ν)) (sends : List IoAnswers) :
    BusState σ (TcpPorts ν) :=
  { s with transports := { s.transports with sends := sends } }

/-- One step of the daemon, with the receive buffer of the transport. -/
def tcpDaemonStep (ctx : TcpDaemon σ ν) : TcpDaemonInput σ ν → TcpDaemon σ ν
  | .event answers sends ev =>
    (onTransportEvent (tcpOps answers) (tcpInbound deliver send port) ev.fd ev.events ev.answers
      { ctx with world := ctx.world.answering sends }).2.1
  | .publish sends source msg =>
    let s := ctx.world.answering sends
    let r := bcMessageBusPublish deliver (tcpPortSend send port) s.bus source msg s.clients
      s.transports
    { ctx with world := { s with bus := r.2.1, clients := r.2.2.1, transports := r.2.2.2 } }
  | .inbound sends origin msg =>
    { ctx with world := (bcMessageBusHandleInbound deliver (tcpPortSend send port)
      (ctx.world.answering sends) msg (some origin)).2 }
  | .elsewhere bus reasm clients rest =>
    { ctx with world := ⟨bus, reasm, clients, { ctx.world.transports with rest := rest }⟩ }

/-- The daemon when the transport has been opened. -/
def tcpDaemonStart (s : BusState σ ν) (answer : TcpOpenAnswer) : TcpDaemon σ ν :=
  ⟨{ s with transports := ⟨tcpOpen bcTcpTransportInit answer, [], s.transports⟩ }, [], [], []⟩

end Steps

section Bus

variable {deliver : ℤ → List UInt8 → σ → DeliverAnswer × σ}
  {send : ℕ → List UInt8 → ν → BcStatus × ν} {port : ℕ} {impl : TcpImpl}

theorem sendKeeps_grows :
    SendKeeps (tcpPortSend send port) fun p : TcpPorts ν => Grows impl p.impl := by
  intro transport m p hp
  unfold tcpPortSend
  split_ifs
  · exact hp.trans (grows_send _ _ _)
  · exact hp

variable (deliver send port) in
/-- The bus loses the connection at most. -/
theorem grows_handleInbound (s : BusState σ (TcpPorts ν)) (msg : BcMessage)
    (origin : Option ℕ) :
    Grows s.transports.impl
      (bcMessageBusHandleInbound deliver (tcpPortSend send port) s msg
        origin).2.transports.impl :=
  bcMessageBusHandleInbound_keepsTransports sendKeeps_grows s msg origin (.refl _)

variable (deliver send port) in
theorem grows_publish (s : BusState σ (TcpPorts ν)) (source : ℤ) (msg : BcMessage) :
    Grows s.transports.impl
      (bcMessageBusPublish deliver (tcpPortSend send port) s.bus source msg s.clients
        s.transports).2.2.2.impl :=
  bcMessageBusPublish_keepsTransports sendKeeps_grows s source msg (.refl _)

variable (deliver send port) in
theorem grows_foldl_tcpInbound (msgs : List BcMessage) (s : BusState σ (TcpPorts ν)) :
    Grows s.transports.impl
      (msgs.foldl (tcpInbound deliver send port) s).transports.impl := by
  induction msgs generalizing s with
  | nil => exact .refl _
  | cons msg msgs ih =>
    exact (grows_handleInbound deliver send port s msg (some port)).trans (ih _)

end Bus

end BoardComm
