import BoardComm.MessageBus
import BoardComm.TransportIo

/-!
# The client manager

The clients of the daemon on their sockets and rings. The other end of a ring is
in the hands of the client, so a session is given by the answers that its ring
will give to writes, and an event by those to reads. A client carries the number
of bytes that were taken out of its receive buffer, and the manager the attempts
to publish a frame, as history.
-/
namespace BoardComm

open SendQueue (WriteOutcome WriteResult writeAll)

abbrev bcClientFrameMax : ℕ := IpcHeader.size + bcMaxChannelLen + bcMaxTopicLen + bcMaxPayloadLen
abbrev bcClientRxCap : ℕ := 256 * 1024
abbrev bcClientTxCap : ℕ := 4 * 1024 * 1024

/-- `bc_shm_session_t`: what `bc_shm_ring_write` answers from now on. -/
structure ShmSession where
  writes : List BcStatus
  deriving DecidableEq, Repr

/-- `bc_client_ctx_t`, with the `rx_len` bytes of `rx_buf`, the bytes behind them,
and the `tx_len` bytes that wait at `tx_off`. A session is there when `shm_ready`
is set. -/
structure BcClient where
  fd : ℤ
  rx : List UInt8
  stale : List UInt8
  txOff : ℕ
  tx : List UInt8
  shm : Option ShmSession
  consumed : ℕ
  deriving DecidableEq, Repr

/-- What the system answers during an event: to registering a client again, and
to setting up a session for it. -/
structure ClientEnv where
  watch : ℤ → Bool
  setup : ℤ → Option ShmSession

/-- An answer of `bc_shm_ring_read`: a frame, with the bytes behind it in the array
that it was copied to, or a status. -/
inductive RingRead
  | frame (data stale : List UInt8)
  | status (rc : BcStatus)
  deriving DecidableEq, Repr

/-- One attempt to publish the frame at the head of a receive buffer: the client
and the place of the frame in its stream, the message, the state in which the
attempt was made, and what came of it. -/
structure Attempt (ν : Type*) where
  publisher : ℤ
  offset : ℕ
  msg : BcMessage
  bus : MessageBus
  clients : List BcClient
  transports : ν
  watch : ℤ → Bool
  result : PublishResult

/-- `bc_client_manager_t`, with its bus and the state of the transports. -/
structure ClientManager (ν : Type*) where
  clients : List BcClient
  bus : MessageBus
  transports : ν
  history : List (Attempt ν)

section Clients

/-- `find_client`. -/
def findClient (clients : List BcClient) (fd : ℤ) : Option BcClient :=
  clients.find? (·.fd = fd)

/-- Write a client back. -/
def setClient (clients : List BcClient) (client : BcClient) : List BcClient :=
  clients.map fun c => if c.fd = client.fd then client else c

/-- `enqueue_client_tx`. The registration comes after the copy. -/
def enqueueClientTx (watch : Bool) (client : BcClient) (data : List UInt8) :
    DeliverAnswer × BcClient :=
  if data.length > bcClientTxCap then (⟨.invalid, false⟩, client)
  else
    let off := if client.txOff > 0 ∧ client.txOff + client.tx.length + data.length > bcClientTxCap
      then 0 else client.txOff
    if off + client.tx.length + data.length > bcClientTxCap then
      (⟨.nomem, false⟩, { client with txOff := off })
    else (⟨watchStatus watch, true⟩, { client with txOff := off, tx := client.tx ++ data })

/-- `flush_client_tx`. -/
def flushClientTx (watch : Bool) (writes : List WriteOutcome) (client : BcClient) :
    BcStatus × BcClient :=
  if client.tx = [] then (watchStatus watch, client)
  else
    let r := writeAll writes client.tx
    match r.exit with
    | .done => (watchStatus watch, { client with txOff := 0, tx := [] })
    | .blocked => (.ok, { client with txOff := client.txOff + r.written.length, tx := r.rest })
    | .failed => (.io, { client with txOff := client.txOff + r.written.length, tx := r.rest })

/-- `bc_shm_ring_write`; a ring with no answer left is full. -/
def bcShmRingWrite (session : ShmSession) : BcStatus × ShmSession :=
  match session.writes with
  | [] => (.nomem, session)
  | rc :: writes => (rc, ⟨writes⟩)

/-- The header of a kick. -/
def kickHeader : IpcHeader :=
  { IpcHeader.zero with magic := bcIpcMagic, version := bcIpcVersion, type := bcIpcShmKick }

/-- `deliver_to_client` for a client with a session. The kick may get lost. -/
def deliverToRing (watch : Bool) (client : BcClient) (session : ShmSession) :
    DeliverAnswer × BcClient :=
  let r := bcShmRingWrite session
  if r.1 = .ok then
    (⟨.ok, true⟩, (enqueueClientTx watch { client with shm := some r.2 } kickHeader.toBytes).2)
  else (⟨r.1, false⟩, { client with shm := some r.2 })

/-- `deliver_to_client`. -/
def deliverToClient (watch : ℤ → Bool) (fd : ℤ) (data : List UInt8) (clients : List BcClient) :
    DeliverAnswer × List BcClient :=
  match findClient clients fd with
  | none => (⟨.notFound, false⟩, clients)
  | some client =>
    match client.shm with
    | none =>
      let r := enqueueClientTx (watch fd) client data
      (r.1, setClient clients r.2)
    | some session =>
      let r := deliverToRing (watch fd) client session
      (r.1, setClient clients r.2)

/-- The bytes of `bc_stats_t`. -/
def BcStats.toBytes (stats : BcStats) : List UInt8 :=
  [stats.pubLocal, stats.pubNetwork, stats.pubFailed, stats.rxNetwork, stats.rxLocal,
    stats.rxForward, stats.rxDrop, stats.ackSent, stats.ackRecv, stats.fragRx,
    stats.fragTx].flatMap fun counter => ByteLayout.toLE 8 counter.toNat

/-- The header of a STATS reply. -/
def statsHeader : IpcHeader :=
  { IpcHeader.zero with magic := bcIpcMagic, version := bcIpcVersion, type := bcIpcStats,
                        payloadLen := 88 }

/-- `send_stats_reply`. -/
def sendStatsReply (watch : Bool) (stats : BcStats) (client : BcClient) : BcStatus × BcClient :=
  let header := enqueueClientTx watch client statsHeader.toBytes
  if header.1.rc ≠ .ok then (.io, header.2)
  else
    let body := enqueueClientTx watch header.2 stats.toBytes
    (if body.1.rc ≠ .ok then .io else .ok, body.2)

end Clients

section Frames

variable {ν : Type*} (send : ℕ → List UInt8 → ν → BcStatus × ν) (env : ClientEnv)

/-- `close_client`. -/
def closeClient (m : ClientManager ν) (fd : ℤ) : ClientManager ν :=
  { m with clients := m.clients.filter (·.fd ≠ fd), bus := bcMessageBusRemoveClient m.bus fd }

/-- The message of a PUBLISH frame. -/
def publishedMessage (header : IpcHeader) (channel topic payload : List UInt8) : BcMessage :=
  let msg := { BcMessage.zero with
    channel := .ofPrefix _ (CBuffer.cstr channel), topic := .ofPrefix _ (CBuffer.cstr topic)
    payloadLen := header.payloadLen.toNat, payload := .ofPrefix _ payload }
  if header.version ≥ bcIpcVersion then
    { msg with dstNode := header.dstNode, qos := header.qos, flags := header.flags,
               seq := header.seq }
  else msg

/-- A PUBLISH frame, handed to the bus. -/
def publishFrame (m : ClientManager ν) (client : BcClient) (msg : BcMessage) :
    BcStatus × ClientManager ν :=
  let r := bcMessageBusPublish (deliverToClient env.watch) send m.bus client.fd msg m.clients
    m.transports
  (r.1.rc, ⟨r.2.2.1, r.2.1, r.2.2.2, m.history ++
    [⟨client.fd, client.consumed, msg, m.bus, m.clients, m.transports, env.watch, r.1⟩]⟩)

/-- `process_ipc_payload`. -/
def processIpcPayload (m : ClientManager ν) (client : BcClient) (header : IpcHeader)
    (channel topic payload : List UInt8) : BcStatus × ClientManager ν :=
  if header.type = bcIpcSubscribe then
    (.ok, { m with bus := (bcMessageBusSubscribe m.bus client.fd (CBuffer.cstr topic)).2 })
  else if header.type = bcIpcPublish then
    publishFrame send env m client (publishedMessage header channel topic payload)
  else if header.type = bcIpcStats then
    let r := sendStatsReply (env.watch client.fd) m.bus.stats client
    (r.1, { m with clients := setClient m.clients r.2 })
  else if header.type = bcIpcShmSetup then
    match env.setup client.fd with
    | none => (.io, m)
    | some session => (.ok, { m with clients := setClient m.clients { client with shm := session } })
  else if header.type = bcIpcShmKick then (.ok, m)
  else (.invalid, m)

/-- `process_frame_buffer`, on the bytes at `data`, of which `len` belong to the frame. -/
def processFrameBuffer (m : ClientManager ν) (client : BcClient) (data : List UInt8) (len : ℕ) :
    BcStatus × ClientManager ν :=
  if len < IpcHeader.sizeV1 then (.notFound, m)
  else
    let header := IpcHeader.ofBytes data
    let headerSize := bcIpcHeaderSize header.version
    if header.magic ≠ bcIpcMagic then (.invalid, m)
    else if len < headerSize then (.notFound, m)
    else if header.channelLen.toNat ≥ bcMaxChannelLen ∨ header.topicLen.toNat = 0 ∨
        header.topicLen.toNat ≥ bcMaxTopicLen ∨ header.payloadLen.toNat > bcMaxPayloadLen then
      (.invalid, m)
    else if len < header.total headerSize then (.notFound, m)
    else
      let frame := data.drop headerSize
      processIpcPayload send env m client header (frame.take header.channelLen.toNat)
        ((frame.drop header.channelLen.toNat).take header.topicLen.toNat)
        ((frame.drop (header.channelLen.toNat + header.topicLen.toNat)).take
          header.payloadLen.toNat)

/-- The frame is taken out of the receive buffer: the bytes behind it move up, and
the end of the buffer stays as it was. -/
def BcClient.dropRx (client : BcClient) (frameLen : ℕ) : BcClient :=
  { client with
    rx := client.rx.drop frameLen
    stale := (client.rx ++ client.stale).drop (client.rx.length - frameLen)
    consumed := client.consumed + frameLen }

def consumeFrame (m : ClientManager ν) (fd : ℤ) (frameLen : ℕ) : ClientManager ν :=
  { m with clients := m.clients.map fun c => if c.fd = fd then c.dropRx frameLen else c }

/-- `process_one_message`. -/
def processOneMessage (m : ClientManager ν) (client : BcClient) : BcStatus × ClientManager ν :=
  if client.rx.length < IpcHeader.sizeV1 then (.notFound, m)
  else
    let header := IpcHeader.ofBytes (client.rx ++ client.stale)
    let frameLen := header.total (bcIpcHeaderSize header.version)
    if header.magic ≠ bcIpcMagic then (.invalid, m)
    else if frameLen > bcClientFrameMax ∨ client.rx.length < frameLen then
      (if client.rx.length < frameLen then .notFound else .invalid, m)
    else
      let r := processFrameBuffer send env m client (client.rx ++ client.stale) frameLen
      if r.1 = .ok then (.ok, consumeFrame r.2 client.fd frameLen) else r

/-- The loop of `process_messages`. Every frame is at least a header long, so as
many rounds as there are bytes are enough. -/
def processMessagesLoop (fd : ℤ) : ℕ → ClientManager ν → BcStatus × ClientManager ν
  | 0, m => (.ok, m)
  | rounds + 1, m =>
    match findClient m.clients fd with
    | none => (.ok, m)
    | some client =>
      let r := processOneMessage send env m client
      if r.1 = .ok then processMessagesLoop fd rounds r.2
      else if r.1 = .notFound then (.ok, r.2)
      else r

/-- `process_messages`. -/
def processMessages (m : ClientManager ν) (client : BcClient) : BcStatus × ClientManager ν :=
  processMessagesLoop send env client.fd client.rx.length m

/-- What follows on the result of `process_messages`, where backpressure is no error. -/
def closeOnError (fd : ℤ) (r : BcStatus × ClientManager ν) : ClientManager ν :=
  if r.1 = .ok ∨ r.1 = .nomem then r.2 else closeClient r.2 fd

/-- One client in the loop of `resume_pending_publishers`. -/
def resumeClient (m : ClientManager ν) (fd : ℤ) : ClientManager ν :=
  match findClient m.clients fd with
  | none => m
  | some client =>
    if client.rx = [] then m
    else closeOnError fd (processMessages send env m client)

/-- `resume_pending_publishers`. The loop goes on behind a client that it closes. -/
def resumePendingPublishers (m : ClientManager ν) : ClientManager ν :=
  (m.clients.map (·.fd)).foldl (resumeClient send env) m

/-- What was read goes behind the bytes of the receive buffer. -/
def BcClient.addRx (client : BcClient) (data : List UInt8) : BcClient :=
  { client with rx := client.rx ++ data, stale := client.stale.drop data.length }

def appendRx (m : ClientManager ν) (fd : ℤ) (data : List UInt8) : ClientManager ν :=
  { m with clients := m.clients.map fun c => if c.fd = fd then c.addRx data else c }

/-- The loop of `drain_client_shm` over the answers of `bc_shm_ring_read`. The
answers behind the end of the ring are for the next call. -/
def drainLoop (fd : ℤ) : List RingRead → ClientManager ν → BcStatus × ClientManager ν × List RingRead
  | [], m => (.ok, m, [])
  | answer :: answers, m =>
    match findClient m.clients fd with
    | none => (.ok, m, answer :: answers)
    | some client =>
      match answer with
      | .status rc => (if rc = .notFound then .ok else rc, m, answers)
      | .frame data stale =>
        let r := processFrameBuffer send env m client (data ++ stale) data.length
        if r.1 = .ok then drainLoop fd answers r.2 else (r.1, r.2, answers)

/-- `drain_client_shm`. -/
def drainClientShm (m : ClientManager ν) (fd : ℤ) (ring : List RingRead) :
    BcStatus × ClientManager ν × List RingRead :=
  match findClient m.clients fd with
  | none => (.ok, m, ring)
  | some client => if client.shm = none then (.ok, m, ring) else drainLoop send env fd ring m

/-- The read loop of `on_client_event`. -/
def readClient (fd : ℤ) : List RecvAnswer → List RingRead → ClientManager ν → ClientManager ν
  | [], _, m => m
  | answer :: answers, ring, m =>
    match findClient m.clients fd with
    | none => m
    | some client =>
      if client.rx.length ≥ bcClientRxCap then m
      else
        match answer with
        | .again => m
        | .error => closeClient m fd
        | .eintr => readClient fd answers ring m
        | .bytes data =>
          if data = [] then closeClient m fd
          else
            let data := data.take (bcClientRxCap - client.rx.length)
            let r := processMessages send env (appendRx m fd data) (client.addRx data)
            if r.1 = .ok then
              let drained := drainClientShm send env r.2 fd ring
              if drained.1 = .ok then readClient fd answers drained.2.2 drained.2.1
              else if drained.1 = .nomem then drained.2.1
              else closeClient drained.2.1 fd
            else if r.1 = .nomem then resumePendingPublishers send env r.2
            else closeClient r.2 fd

/-- `on_client_event`, behind its flush. -/
def readEvent (m : ClientManager ν) (fd : ℤ) (events : EpollEvents) (reads : List RecvAnswer)
    (ring : List RingRead) : ClientManager ν :=
  let drained := drainClientShm send env m fd ring
  if drained.1 = .nomem then resumePendingPublishers send env drained.2.1
  else if drained.1 ≠ .ok then closeClient drained.2.1 fd
  else if (events.epollhup = true ∨ events.epollerr = true) ∧ events.epollin = false then
    closeClient drained.2.1 fd
  else readClient send env fd reads drained.2.2 drained.2.1

/-- `on_client_event`. -/
def onClientEvent (m : ClientManager ν) (fd : ℤ) (events : EpollEvents)
    (writes : List WriteOutcome) (reads : List RecvAnswer) (ring : List RingRead) :
    ClientManager ν :=
  match findClient m.clients fd with
  | none => m
  | some client =>
    if events.epollout = true then
      let r := flushClientTx (env.watch fd) writes client
      let m := { m with clients := setClient m.clients r.2 }
      if r.1 ≠ .ok then closeClient m fd
      else readEvent send env (resumePendingPublishers send env m) fd events reads ring
    else readEvent send env m fd events reads ring

end Frames

section Events

variable {ν : Type*} (send : ℕ → List UInt8 → ν → BcStatus × ν)

/-- What happens to the clients: an event on a socket, with the answers of the
system, or a frame that the bus delivers from the network. -/
inductive ManagerEvent
  | client (fd : ℤ) (events : EpollEvents) (env : ClientEnv) (writes : List WriteOutcome)
      (reads : List RecvAnswer) (ring : List RingRead)
  | deliver (fd : ℤ) (watch : ℤ → Bool) (data : List UInt8)

def ClientManager.step (m : ClientManager ν) : ManagerEvent → ClientManager ν
  | .client fd events env writes reads ring => onClientEvent send env m fd events writes reads ring
  | .deliver fd watch data => { m with clients := (deliverToClient watch fd data m.clients).2 }

end Events

end BoardComm
