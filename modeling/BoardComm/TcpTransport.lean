import BoardComm.TransportIo

/-!
# The TCP transport

One transport holds at most one connection at a time: a server replaces it by a
newly accepted one, a client connects again after losing it.
-/
namespace BoardComm

abbrev bcTcpSendCap : ℕ := bcMaxFrameLen * 64

abbrev bcTcpReconnectMsInit : ℕ := 1000

abbrev bcTcpReconnectMsMax : ℕ := 30000

abbrev intMax : ℕ := 2 ^ 31 - 1

/-- `bc_tcp_impl_t`. The queue fields are those of the link; `timer` is the delay
for which the timer is armed, if it is. The bytes received on each connection,
in the order of the connections, are history. -/
structure TcpImpl where
  listenFd : ℤ
  connFd : ℤ
  timerFd : ℤ
  isServer : Bool
  connected : Bool
  connecting : Bool
  reconnectArmed : Bool
  retryAttempt : ℕ
  timer : Option ℕ
  link : SendQueue.Link
  streams : List (List UInt8)
  deriving DecidableEq, Repr

namespace TcpImpl

/-- A connection is established: its histories begin. -/
def established (impl : TcpImpl) : TcpImpl :=
  { impl with connected := true, connecting := false, link := { impl.link with written := [] },
              streams := impl.streams ++ [[]] }

/-- Bytes arrive on the current connection. -/
def received (impl : TcpImpl) (data : List UInt8) : TcpImpl :=
  { impl with streams := impl.streams.dropLast ++ [impl.streams.getLastD [] ++ data] }

end TcpImpl

/-- `tcp_clear_send_queue`. -/
def tcpClearSendQueue (impl : TcpImpl) : TcpImpl := { impl with link := impl.link.clear }

/-- `tcp_reconnect_delay_ms`. A shift that leaves the range of `int` has no
defined result. -/
def tcpReconnectDelayMs (impl : TcpImpl) : Option ℕ :=
  if impl.retryAttempt > 0 then
    let delay := bcTcpReconnectMsInit <<< (impl.retryAttempt - 1)
    if delay > intMax then none
    else if delay > bcTcpReconnectMsMax then some bcTcpReconnectMsMax
    else some delay
  else some bcTcpReconnectMsInit

/-- `tcp_timer_arm`. Without a defined delay nothing is promised of the timer. -/
def tcpTimerArm (impl : TcpImpl) (delayMs : Option ℕ) : TcpImpl :=
  if impl.timerFd < 0 then impl else { impl with timer := delayMs }

/-- `tcp_schedule_reconnect`. -/
def tcpScheduleReconnect (impl : TcpImpl) : TcpImpl :=
  if impl.isServer = true then impl
  else
    let delay := tcpReconnectDelayMs impl
    tcpTimerArm { impl with reconnectArmed := true, retryAttempt := impl.retryAttempt + 1 } delay

/-- `tcp_close_conn`. -/
def tcpCloseConn (impl : TcpImpl) : TcpImpl :=
  tcpClearSendQueue { impl with connFd := -1, connected := false, connecting := false }

/-- `tcp_drop_connection`. -/
def tcpDropConnection (impl : TcpImpl) : TcpImpl :=
  if impl.connected = false ∧ impl.connecting = false then impl
  else if impl.isServer = true then tcpCloseConn impl
  else tcpScheduleReconnect (tcpCloseConn impl)

/-- The ways `tcp_begin_connect` can go. -/
inductive ConnectAnswer
  | noSocket
  | badHost
  | inProgress (fd : ℕ)
  | refused
  | connected (fd : ℕ)
  deriving DecidableEq, Repr

/-- `tcp_begin_connect`. -/
def tcpBeginConnect (answer : ConnectAnswer) (watch : Bool) (impl : TcpImpl) :
    BcStatus × TcpImpl :=
  match answer with
  | .noSocket => (.io, { impl with connFd := -1 })
  | .badHost => (.invalid, { impl with connFd := -1 })
  | .inProgress fd =>
    (watchStatus watch,
      { impl with connFd := fd, connecting := true, connected := false, reconnectArmed := false })
  | .refused => (.io, tcpCloseConn { impl with reconnectArmed := false })
  | .connected fd =>
    (watchStatus watch, { impl with connFd := fd, reconnectArmed := false }.established)

/-- `tcp_on_connect_ready`. `failed` is what `SO_ERROR` reports. -/
def tcpOnConnectReady (failed watch : Bool) (impl : TcpImpl) : BcStatus × TcpImpl :=
  if failed = true then
    let impl := tcpDropConnection impl
    (.io, if impl.isServer = false then tcpScheduleReconnect impl else impl)
  else (watchStatus watch, { impl with retryAttempt := 0 }.established)

/-- What `accept4` answers. -/
inductive AcceptAnswer
  | client (fd : ℕ)
  | eintr
  | error
  deriving DecidableEq, Repr

/-- `tcp_accept_one`. -/
def tcpAcceptOne (answer : AcceptAnswer) (watch : Bool) (impl : TcpImpl) : BcStatus × TcpImpl :=
  match answer with
  | .eintr => (.ok, impl)
  | .error => (.io, impl)
  | .client fd =>
    let impl := if impl.connected = true ∧ impl.connFd ≥ 0 then tcpDropConnection impl else impl
    (watchStatus watch, { impl with connFd := fd, retryAttempt := 0 }.established)

/-- `tcp_flush_send`. A link that blocks is watched for output, one that is done
is watched again without. -/
def tcpFlushSend (io : IoAnswers) (impl : TcpImpl) : BcStatus × TcpImpl :=
  if impl.connected = false ∨ impl.connFd < 0 then (.io, impl)
  else
    let (exit, link) := impl.link.flush io.writes
    match exit with
    | .failed => (.io, { impl with link := link })
    | _ => (watchStatus io.watch, { impl with link := link })

/-- `tcp_queue_send`. The result of the registration is ignored. -/
def tcpQueueSend (io : IoAnswers) (impl : TcpImpl) (data : List UInt8) : BcStatus × TcpImpl :=
  match impl.link.queue bcTcpSendCap io.alloc data with
  | none => (.nomem, impl)
  | some link => (.ok, { impl with link := link })

/-- `tcp_send`. -/
def tcpSend (io : IoAnswers) (impl : TcpImpl) (data : List UInt8) : BcStatus × TcpImpl :=
  if impl.connected = false ∨ impl.connFd < 0 then (.io, impl)
  else if impl.link.off < impl.link.stored.length then tcpQueueSend io impl data
  else
    let (r, link) := impl.link.write io.writes data
    let impl := { impl with link := link }
    match r.exit with
    | .done => (.ok, impl)
    | .blocked => tcpQueueSend io impl r.rest
    | .failed => (.io, tcpDropConnection impl)

/-- `tcp_recv`. -/
def tcpRecv (impl : TcpImpl) (answer : RecvAnswer) (cap : ℕ) :
    BcStatus × List UInt8 × TcpImpl :=
  if impl.connected = false ∨ impl.connFd < 0 then (.invalid, [], impl)
  else
    match answer with
    | .bytes data =>
      if (data.take cap).length > 0 then (.ok, data.take cap, impl.received (data.take cap))
      else (.io, [], tcpDropConnection impl)
    | .eintr => (.notFound, [], impl)
    | .again => (.notFound, [], impl)
    | .error => (.io, [], tcpDropConnection impl)

/-- What the system answers while `tcp_handle_event` runs: one connect answer
for each expiration of the timer, the answers of `accept4`, the pending error of
a socket that connects. -/
structure TcpAnswers where
  connects : List ConnectAnswer
  accepts : List AcceptAnswer
  soError : Bool
  io : IoAnswers
  deriving DecidableEq, Repr

/-- A system that grants nothing, which answers when no other answer is left. -/
def TcpAnswers.silent : TcpAnswers := ⟨[], [], true, ⟨[], false, false, false⟩⟩

/-- The timer branch of `tcp_handle_event`. The timer has no interval: it expires
at most once after it is armed, and until then there is nothing to read. -/
def tcpTimerLoop (watch : Bool) : List ConnectAnswer → TcpImpl → TcpImpl
  | [], impl => impl
  | answer :: answers, impl =>
    if impl.timer = none then impl
    else if impl.reconnectArmed = true ∧ impl.connected = false ∧ impl.connecting = false then
      tcpTimerLoop watch answers
        (tcpBeginConnect answer watch { impl with timer := none, reconnectArmed := false }).2
    else tcpTimerLoop watch answers { impl with timer := none }

/-- The accept branch of `tcp_handle_event`. When the answers run out there is
nobody left to accept. -/
def tcpAcceptLoop (watch : Bool) : List AcceptAnswer → TcpImpl → TcpImpl
  | [], impl => impl
  | answer :: answers, impl =>
    match tcpAcceptOne answer watch impl with
    | (.ok, impl') => tcpAcceptLoop watch answers impl'
    | (_, impl') => impl'

/-- `tcp_handle_event`. -/
def tcpHandleEvent (answers : TcpAnswers) (impl : TcpImpl) (fd : ℤ) (events : EpollEvents) :
    TcpImpl :=
  if fd = impl.timerFd ∧ events.epollin = true then
    tcpTimerLoop answers.io.watch answers.connects impl
  else if fd = impl.listenFd ∧ events.epollin = true then
    tcpAcceptLoop answers.io.watch answers.accepts impl
  else if fd = impl.connFd ∧ impl.connecting = true ∧
      (events.epollout = true ∨ events.epollin = true ∨ events.epollerr = true) then
    (tcpOnConnectReady answers.soError answers.io.watch impl).2
  else if fd = impl.connFd ∧ impl.connected = true then
    if events.epollhup = true ∨ events.epollerr = true then tcpDropConnection impl
    else if events.epollout = true ∧ impl.link.off < impl.link.stored.length then
      match tcpFlushSend answers.io impl with
      | (.ok, impl') => impl'
      | (_, impl') => tcpDropConnection impl'
    else impl
  else impl

/-- What the system answers while a transport is opened, in each role. -/
inductive TcpOpenAnswer
  | server (listenFd : ℕ)
  | client (timerFd : ℕ) (connect : ConnectAnswer) (watch : Bool)
  deriving DecidableEq, Repr

/-- `bc_tcp_transport_init`. -/
def bcTcpTransportInit : TcpImpl :=
  ⟨-1, -1, -1, false, false, false, false, 0, none, ⟨false, [], 0, [], []⟩, []⟩

/-- `tcp_open`, where it succeeds. -/
def tcpOpen (impl : TcpImpl) : TcpOpenAnswer → TcpImpl
  | .server listenFd => { impl with isServer := true, listenFd := listenFd }
  | .client timerFd connect watch =>
    match tcpBeginConnect connect watch { impl with isServer := false, timerFd := timerFd } with
    | (.ok, impl') => impl'
    | (_, impl') => tcpScheduleReconnect impl'

end BoardComm
