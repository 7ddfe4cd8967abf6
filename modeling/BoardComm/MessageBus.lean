import BoardComm.Fragment
import BoardComm.IpcProtocol
import BoardComm.Protocol
import BoardComm.Router

/-!
# The message bus

Local delivery and publishing. The bus calls back for every frame that it
delivers to a client and for every frame that it sends on a transport; both
callbacks run on a state of their own. What the clients and the transports took
is listed with the result.
-/
namespace BoardComm

abbrev bcMaxSubscriptions : ℕ := 128

/-- `bc_subscription_t`. -/
structure BcSubscription where
  fd : ℤ
  topic : CBuffer bcMaxTopicLen
  deriving DecidableEq, Repr

/-- `bc_stats_t`. -/
structure BcStats where
  pubLocal : UInt64
  pubNetwork : UInt64
  pubFailed : UInt64
  rxNetwork : UInt64
  rxLocal : UInt64
  rxForward : UInt64
  rxDrop : UInt64
  ackSent : UInt64
  ackRecv : UInt64
  fragRx : UInt64
  fragTx : UInt64
  deriving DecidableEq, Repr

/-- `bc_stats_reset`. -/
def bcStatsReset : BcStats := ⟨0, 0, 0, 0, 0, 0, 0, 0, 0, 0, 0⟩

/-- The part of `bc_message_bus_t` that publishing uses. -/
structure MessageBus where
  subscriptions : List BcSubscription
  router : BcRouter
  nodeId : UInt32
  nextSeq : UInt32
  requireRoute : Bool
  bridgeBroadcast : Bool
  stats : BcStats
  deriving DecidableEq, Repr

section Subscriptions

/-- `bc_message_bus_subscribe`, for a topic string. -/
def bcMessageBusSubscribe (bus : MessageBus) (fd : ℤ) (topic : List UInt8) :
    BcStatus × MessageBus :=
  if topic = [] then (.invalid, bus)
  else if bus.subscriptions.length ≥ bcMaxSubscriptions then (.nomem, bus)
  else if bus.subscriptions.any fun sub => sub.fd = fd ∧ sub.topic.str = topic then (.ok, bus)
  else
    (.ok, { bus with subscriptions := bus.subscriptions ++
      [⟨fd, .ofPrefix _ (topic.take (bcMaxTopicLen - 1))⟩] })

/-- `bc_message_bus_remove_client`. -/
def bcMessageBusRemoveClient (bus : MessageBus) (fd : ℤ) : MessageBus :=
  { bus with subscriptions := bus.subscriptions.filter (·.fd ≠ fd) }

end Subscriptions

section Delivery

variable {σ : Type*}

/-- What a client made of a frame: the result of the callback, and whether the
bytes of the frame stand in its stream. -/
structure DeliverAnswer where
  rc : BcStatus
  appended : Bool
  deriving DecidableEq, Repr

/-- The counters of `bc_message_bus_deliver_local`, with the entries whose
clients have the frame in their stream. -/
structure LocalDelivery where
  matched : ℕ
  delivered : ℕ
  failed : ℕ
  appended : List BcSubscription
  deriving DecidableEq, Repr

/-- The counters with one more matching entry in front. -/
def LocalDelivery.add (d : LocalDelivery) (sub : BcSubscription) (answer : DeliverAnswer) :
    LocalDelivery :=
  { matched := d.matched + 1
    delivered := if answer.rc = .ok then d.delivered + 1 else d.delivered
    failed := if answer.rc = .ok then d.failed else d.failed + 1
    appended := if answer.appended = true then sub :: d.appended else d.appended }

/-- The DELIVER frame of a message. -/
def deliverFrame (msg : BcMessage) : List UInt8 :=
  let channelLen := CBuffer.strnlen msg.channel.bytes bcMaxChannelLen
  let topicLen := CBuffer.strnlen msg.topic.bytes bcMaxTopicLen
  ({ magic := bcIpcMagic, version := bcIpcVersion, type := bcIpcDeliver,
     topicLen := .ofNat topicLen, channelLen := .ofNat channelLen,
     payloadLen := .ofNat msg.payloadLen, dstNode := msg.dstNode, qos := msg.qos,
     flags := msg.flags, seq := msg.seq } : IpcHeader).toBytes
    ++ msg.channel.bytes.take channelLen ++ msg.topic.bytes.take topicLen ++ msg.body

/-- An entry that gets the messages of a topic, unless they come from its client. -/
def BcSubscription.wants (source : ℤ) (msg : BcMessage) (sub : BcSubscription) : Bool :=
  sub.fd ≠ source ∧ bcTopicMatches sub.topic.str msg.topic.str

/-- The loop of `bc_message_bus_deliver_local`. -/
def deliverLocalLoop (deliver : ℤ → List UInt8 → σ → DeliverAnswer × σ) (source : ℤ)
    (msg : BcMessage) : List BcSubscription → σ → LocalDelivery × σ
  | [], clients => (⟨0, 0, 0, []⟩, clients)
  | sub :: subs, clients =>
    if sub.wants source msg = true then
      let answer := deliver sub.fd (deliverFrame msg) clients
      let rest := deliverLocalLoop deliver source msg subs answer.2
      (rest.1.add sub answer.1, rest.2)
    else deliverLocalLoop deliver source msg subs clients

/-- The value of `bc_message_bus_deliver_local`: the number of deliveries. -/
def LocalDelivery.result (d : LocalDelivery) : Except BcStatus ℕ :=
  if d.failed > 0 then .error .nomem
  else if d.matched > 0 ∧ d.delivered = 0 then .error .nomem
  else .ok d.delivered

end Delivery

section Network

variable {ν : Type*}

/-- What sending changes: the transports, the counters of the bus, and the list
of frames that a transport took. -/
structure NetworkUse (ν : Type*) where
  transports : ν
  stats : BcStats
  sent : List (List UInt8)

/-- `emit_network_frame`. -/
def emitNetworkFrame (send : ℕ → List UInt8 → ν → BcStatus × ν) (transport : ℕ)
    (piece : BcMessage) (use : NetworkUse ν) : BcStatus × NetworkUse ν :=
  match bcProtocolEncode piece with
  | .error _ => (.invalid, use)
  | .ok frame =>
    let answer := send transport frame.data use.transports
    if answer.1 = .ok then
      (.ok, { use with transports := answer.2, sent := use.sent ++ [frame.data] })
    else
      (answer.1, { use with transports := answer.2,
                            stats := { use.stats with pubFailed := use.stats.pubFailed + 1 } })

/-- `send_on_transport`. -/
def sendOnTransport (send : ℕ → List UInt8 → ν → BcStatus × ν) (transport : ℕ) (msg : BcMessage)
    (use : NetworkUse ν) : BcStatus × NetworkUse ν :=
  let r :=
    if msg.payloadLen > bcFragChunkMax then
      bcFragmentPublish (emitNetworkFrame send transport) msg
        { use with stats := { use.stats with fragTx := use.stats.fragTx + 1 } }
    else emitNetworkFrame send transport msg use
  if r.1 = .ok then
    (.ok, { r.2 with stats := { r.2.stats with pubNetwork := r.2.stats.pubNetwork + 1 } })
  else r

end Network

section Publish

variable {σ ν : Type*}

/-- `should_deliver_local`. -/
def shouldDeliverLocal (bus : MessageBus) (msg : BcMessage) : Bool :=
  msg.dstNode = 0 ∨ msg.dstNode = bus.nodeId

/-- `should_forward`. -/
def shouldForward (bus : MessageBus) (msg : BcMessage) : Bool :=
  if msg.dstNode = 0 then bus.bridgeBroadcast else msg.dstNode ≠ bus.nodeId

/-- `need_network` of `bc_message_bus_publish`. -/
def needNetwork (bus : MessageBus) (msg : BcMessage) : Bool :=
  if msg.flags &&& bcFlagNoBridge ≠ 0 then
    msg.channel.str ≠ [] ∨ (msg.dstNode ≠ 0 ∧ msg.dstNode ≠ bus.nodeId)
  else
    shouldForward bus msg = true ∨ msg.channel.str ≠ [] ∨
      (msg.dstNode ≠ 0 ∧ msg.dstNode ≠ bus.nodeId)

/-- The source node and the sequence number that publishing gives a message. -/
def stampMessage (bus : MessageBus) (msg : BcMessage) : BcMessage × MessageBus :=
  if msg.seq = 0 then
    ({ msg with srcNode := bus.nodeId, seq := bus.nextSeq + 1 },
      { bus with nextSeq := bus.nextSeq + 1 })
  else ({ msg with srcNode := bus.nodeId }, bus)

/-- What publishing returns, the entries that have the message in their stream,
and the frames that a transport took. -/
structure PublishResult where
  rc : BcStatus
  appended : List BcSubscription
  sent : List (List UInt8)
  deriving DecidableEq, Repr

/-- The status of the local delivery. -/
def localStatus : Except BcStatus ℕ → BcStatus
  | .error rc => rc
  | .ok _ => .ok

/-- The number of local deliveries, none after an error. -/
def localDelivered : Except BcStatus ℕ → ℕ
  | .error _ => 0
  | .ok n => n

/-- The status of a publish that was sent on a transport: a failure there counts
where the message asks for it and no local subscriber has the message. -/
def publishStatus (msg : BcMessage) (localResult : Except BcStatus ℕ) (networkRc : BcStatus) :
    BcStatus :=
  if networkRc ≠ .ok ∧ msg.qos ≥ bcQosAtLeastOnce ∧ localDelivered localResult = 0 then
    if localStatus localResult = .nomem then .nomem else networkRc
  else localStatus localResult

/-- The second half of `bc_message_bus_publish`, after the local delivery. -/
def publishNetwork (send : ℕ → List UInt8 → ν → BcStatus × ν) (bus : MessageBus) (msg : BcMessage)
    (localResult : Except BcStatus ℕ) (transports : ν) :
    BcStatus × List (List UInt8) × MessageBus × ν :=
  if needNetwork bus msg = true then
    match bcRouterRoute bus.router msg with
    | none =>
      if bus.requireRoute = true then
        (if localStatus localResult = .nomem then .nomem else .notFound, [],
          { bus with stats := { bus.stats with pubFailed := bus.stats.pubFailed + 1 } }, transports)
      else (localStatus localResult, [], bus, transports)
    | some transport =>
      let r := sendOnTransport send transport msg ⟨transports, bus.stats, []⟩
      (publishStatus msg localResult r.1, r.2.sent, { bus with stats := r.2.stats },
        r.2.transports)
  else (localStatus localResult, [], bus, transports)

/-- The local half of `bc_message_bus_publish`. -/
def publishLocal (deliver : ℤ → List UInt8 → σ → DeliverAnswer × σ) (bus : MessageBus)
    (source : ℤ) (msg : BcMessage) (clients : σ) :
    Except BcStatus ℕ × List BcSubscription × MessageBus × σ :=
  if shouldDeliverLocal bus msg = true then
    let d := deliverLocalLoop deliver source msg bus.subscriptions clients
    let stats := { bus.stats with
      rxLocal := bus.stats.rxLocal + UInt64.ofNat d.1.delivered
      pubLocal := bus.stats.pubLocal + UInt64.ofNat (localDelivered d.1.result) }
    (d.1.result, d.1.appended, { bus with stats := stats }, d.2)
  else (.ok 0, [], bus, clients)

/-- `bc_message_bus_publish`. -/
def bcMessageBusPublish (deliver : ℤ → List UInt8 → σ → DeliverAnswer × σ)
    (send : ℕ → List UInt8 → ν → BcStatus × ν) (bus : MessageBus) (source : ℤ) (msg : BcMessage)
    (clients : σ) (transports : ν) : PublishResult × MessageBus × σ × ν :=
  let stamped := stampMessage bus msg
  let localPart := publishLocal deliver stamped.2 source stamped.1 clients
  let network := publishNetwork send localPart.2.2.1 stamped.1 localPart.1 transports
  (⟨network.1, localPart.2.1, network.2.1⟩, network.2.2.1, localPart.2.2.2, network.2.2.2)

end Publish

end BoardComm
