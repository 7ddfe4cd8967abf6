import BoardComm.Framing
import BoardComm.ProtocolRoundTrip

/-!
# Reading frames from a transport

The event handler of `main.c` and its receive buffer. Everything outside the
buffer (the transport, the bus, the kernel) is one abstract `World`; the handler
reaches it through the operations of the transport and through
`bc_message_bus_handle_inbound`. Two history fields record what was read and
what was handed to the bus; no decision depends on them.
-/
namespace BoardComm

/-- The epoll flags a handler looks at. -/
structure EpollEvents where
  epollin : Bool
  epollout : Bool
  epollhup : Bool
  epollerr : Bool
  deriving DecidableEq, Repr

/-- The result of a raw `read` on a descriptor. -/
inductive ReadResult
  | bytes (data : List UInt8)
  | eof
  | eintr
  | error
  deriving DecidableEq, Repr

/-- The operations of `bc_transport_ops_t` that the handler calls. Each consumes
one answer of the kernel; `recv` may be missing, and then the handler reads the
descriptor itself. -/
structure TransportOps (World Answer : Type*) where
  handleEvent : World → ℤ → EpollEvents → World
  recv : Option (World → Answer → ℕ → BcStatus × List UInt8 × World)
  read : World → Answer → ℕ → ReadResult × World

/-- `sizeof(ctx->rx_buf)`. -/
abbrev transportRxCap : ℕ := bcMaxFrameLen * 2

/-- `bc_transport_event_ctx_t` together with the world it points into. -/
structure TransportEventCtx (World : Type*) where
  world : World
  rxBuf : List UInt8
  reads : List (List UInt8)
  inbound : List BcMessage

/-- The front of the receive buffer as `process_transport_frames` sees it. -/
def scanFrame (rx : List UInt8) : Framing.Scan BcMessage :=
  match bcProtocolFrameLength rx with
  | (.notFound, _) => .more
  | (.ok, frameLen) =>
    if frameLen > rx.length then .bad
    else
      match bcProtocolDecode (rx.take frameLen) with
      | .error _ => .bad
      | .ok msg => .item frameLen msg
  | _ => .bad

section Handler

variable {World Answer : Type*}

/-- The loop of `process_transport_frames`. A frame has at least 37 bytes, so
the buffer length bounds the number of turns. -/
def processTransportFramesLoop (handleInbound : World → BcMessage → World) :
    ℕ → TransportEventCtx World → BcStatus × TransportEventCtx World
  | 0, ctx => (.ok, ctx)
  | fuel + 1, ctx =>
    let (rc, frameLen) := bcProtocolFrameLength ctx.rxBuf
    if rc = .notFound then (.ok, ctx)
    else if rc ≠ .ok ∨ frameLen > ctx.rxBuf.length then (.invalid, ctx)
    else
      match bcProtocolDecode (ctx.rxBuf.take frameLen) with
      | .error _ => (.invalid, ctx)
      | .ok msg =>
        processTransportFramesLoop handleInbound fuel
          { ctx with world := handleInbound ctx.world msg, rxBuf := ctx.rxBuf.drop frameLen,
                     inbound := ctx.inbound ++ [msg] }

/-- `process_transport_frames`. -/
def processTransportFrames (handleInbound : World → BcMessage → World)
    (ctx : TransportEventCtx World) : BcStatus × TransportEventCtx World :=
  processTransportFramesLoop handleInbound ctx.rxBuf.length ctx

/-- One attempt to read more input: bytes, a retry, or nothing for now. -/
inductive ReadAttempt
  | got (data : List UInt8)
  | retry
  | stop
  deriving DecidableEq, Repr

/-- The two ways `on_transport_event` obtains input. -/
def readTransport (ops : TransportOps World Answer) (events : EpollEvents) (world : World)
    (answer : Answer) (cap : ℕ) : ReadAttempt × World :=
  match ops.recv with
  | some recv =>
    match recv world answer cap with
    | (.ok, got, world') => (if got = [] then .stop else .got got, world')
    | (_, _, world') => (.stop, world')
  | none =>
    if events.epollin = false then (.stop, world)
    else
      match ops.read world answer cap with
      | (.bytes data, world') => (if data = [] then .stop else .got data, world')
      | (.eintr, world') => (.retry, world')
      | (_, world') => (.stop, world')

/-- Why `on_transport_event` returned. -/
inductive EventExit
  | full
  | blocked
  | invalid
  deriving DecidableEq, Repr

/-- The bytes a read stored behind the buffered ones, then the frames in it. -/
def receiveBytes (handleInbound : World → BcMessage → World) (ctx : TransportEventCtx World)
    (data : List UInt8) : BcStatus × TransportEventCtx World :=
  match processTransportFrames handleInbound
      { ctx with rxBuf := ctx.rxBuf ++ data, reads := ctx.reads ++ [data] } with
  | (.ok, ctx') => (.ok, ctx')
  | (_, ctx') => (.invalid, { ctx' with rxBuf := [] })

/-- The read loop of `on_transport_event`, over the answers the kernel gives to
the successive reads. When they run out the next read would block. -/
def onTransportEventLoop (ops : TransportOps World Answer)
    (handleInbound : World → BcMessage → World) (events : EpollEvents) :
    List Answer → TransportEventCtx World → EventExit × TransportEventCtx World × List Answer
  | answers, ctx =>
    if ctx.rxBuf.length ≥ transportRxCap then (.full, { ctx with rxBuf := [] }, answers)
    else
      match answers with
      | [] => (.blocked, ctx, [])
      | answer :: rest =>
        match readTransport ops events ctx.world answer (transportRxCap - ctx.rxBuf.length) with
        | (.stop, world) => (.blocked, { ctx with world := world }, rest)
        | (.retry, world) =>
          onTransportEventLoop ops handleInbound events rest { ctx with world := world }
        | (.got data, world) =>
          match receiveBytes handleInbound { ctx with world := world } data with
          | (.ok, ctx') => onTransportEventLoop ops handleInbound events rest ctx'
          | (_, ctx') => (.invalid, ctx', rest)

/-- `on_transport_event`. -/
def onTransportEvent (ops : TransportOps World Answer)
    (handleInbound : World → BcMessage → World) (fd : ℤ) (events : EpollEvents)
    (answers : List Answer) (ctx : TransportEventCtx World) :
    EventExit × TransportEventCtx World × List Answer :=
  onTransportEventLoop ops handleInbound events answers
    { ctx with world := ops.handleEvent ctx.world fd events }

/-- An event with the answers its reads receive. -/
structure TransportEvent (Answer : Type*) where
  fd : ℤ
  events : EpollEvents
  answers : List Answer

/-- A sequence of events on one transport. -/
def runTransportEvents (ops : TransportOps World Answer)
    (handleInbound : World → BcMessage → World) :
    List (TransportEvent Answer) → TransportEventCtx World →
      List EventExit × TransportEventCtx World
  | [], ctx => ([], ctx)
  | ev :: evs, ctx =>
    let r := onTransportEvent ops handleInbound ev.fd ev.events ev.answers ctx
    let rest := runTransportEvents ops handleInbound evs r.2.1
    (r.1 :: rest.1, rest.2)

end Handler

end BoardComm
