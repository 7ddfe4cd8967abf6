import BoardComm.MessageBus

/-!
# Inbound messages

What the bus does with a message that a transport received: pieces are collected,
a message for another node is passed on, every other is delivered to the local
subscribers, passed on if it is a broadcast, and acknowledged if it asks for it.
-/
namespace BoardComm

variable {σ ν : Type*}

/-- A bus with its reassembly table, and the clients and transports it calls. -/
structure BusState (σ ν : Type*) where
  bus : MessageBus
  reasm : BcReasm
  clients : σ
  transports : ν

/-- What an inbound message led to: the local delivery if there was one, and the
frames that a transport took. -/
structure InboundResult where
  rc : BcStatus
  delivery : Option LocalDelivery
  forwarded : List (List UInt8)
  acks : List (List UInt8)
  deriving DecidableEq, Repr

/-- `bc_message_bus_deliver_local`. -/
def bcMessageBusDeliverLocal (deliver : ℤ → List UInt8 → σ → DeliverAnswer × σ) (bus : MessageBus)
    (source : ℤ) (msg : BcMessage) (clients : σ) : LocalDelivery × MessageBus × σ :=
  let d := deliverLocalLoop deliver source msg bus.subscriptions clients
  (d.1, { bus with stats :=
    { bus.stats with rxLocal := bus.stats.rxLocal + UInt64.ofNat d.1.delivered } }, d.2)

/-- The message that `send_ack` builds. -/
def ackMessage (bus : MessageBus) (req : BcMessage) : BcMessage :=
  { BcMessage.zero with
    srcNode := bus.nodeId, dstNode := req.srcNode, seq := req.seq, flags := bcFlagAck,
    qos := bcQosAtMostOnce,
    topic := .ofPrefix _ (req.topic.str.take (bcMaxTopicLen - 1)),
    channel := .ofPrefix _ (req.channel.str.take (bcMaxChannelLen - 1)) }

/-- `send_ack`. -/
def sendAck (send : ℕ → List UInt8 → ν → BcStatus × ν) (bus : MessageBus) (transport : ℕ)
    (req : BcMessage) (transports : ν) : BcStatus × List (List UInt8) × MessageBus × ν :=
  let r := sendOnTransport send transport (ackMessage bus req) ⟨transports, bus.stats, []⟩
  if r.1 = .ok then
    (.ok, r.2.sent,
      { bus with stats := { r.2.stats with ackSent := r.2.stats.ackSent + 1 } }, r.2.transports)
  else (.io, r.2.sent, { bus with stats := r.2.stats }, r.2.transports)

/-- `forward_message`. -/
def forwardMessage (send : ℕ → List UInt8 → ν → BcStatus × ν) (bus : MessageBus) (msg : BcMessage)
    (exclude : Option ℕ) (transports : ν) : BcStatus × List (List UInt8) × MessageBus × ν :=
  match bcRouterRoute bus.router msg with
  | none =>
    if bus.requireRoute = true then
      (.notFound, [],
        { bus with stats := { bus.stats with pubFailed := bus.stats.pubFailed + 1 } }, transports)
    else (.ok, [], bus, transports)
  | some transport =>
    if some transport = exclude then (.ok, [], bus, transports)
    else
      let r := sendOnTransport send transport msg ⟨transports, bus.stats, []⟩
      let stats :=
        if r.1 = .ok then { r.2.stats with rxForward := r.2.stats.rxForward + 1 } else r.2.stats
      (r.1, r.2.sent, { bus with stats := stats }, r.2.transports)

/-- A message for another node is only passed on. -/
def inboundUnicast (send : ℕ → List UInt8 → ν → BcStatus × ν) (s : BusState σ ν) (msg : BcMessage)
    (fromTransport : Option ℕ) : InboundResult × BusState σ ν :=
  let f := forwardMessage send s.bus msg fromTransport s.transports
  let stats := { f.2.2.1.stats with
    rxDrop := if f.1 ≠ .ok then f.2.2.1.stats.rxDrop + 1 else f.2.2.1.stats.rxDrop }
  (⟨f.1, none, f.2.1, []⟩,
    { s with bus := { f.2.2.1 with stats := stats }, transports := f.2.2.2 })

/-- The local delivery of a message, with its result. -/
def inboundLocal (deliver : ℤ → List UInt8 → σ → DeliverAnswer × σ) (s : BusState σ ν)
    (msg : BcMessage) : Except BcStatus ℕ × Option LocalDelivery × BusState σ ν :=
  if shouldDeliverLocal s.bus msg = true then
    let d := bcMessageBusDeliverLocal deliver s.bus (-1) msg s.clients
    let stats := match d.1.result with
      | .error _ => { d.2.1.stats with rxDrop := d.2.1.stats.rxDrop + 1 }
      | .ok n => { d.2.1.stats with pubLocal := d.2.1.stats.pubLocal + UInt64.ofNat n }
    (d.1.result, some d.1, { s with bus := { d.2.1 with stats := stats }, clients := d.2.2 })
  else (.ok 0, none, s)

/-- A broadcast is passed on as well. -/
def inboundForward (send : ℕ → List UInt8 → ν → BcStatus × ν) (s : BusState σ ν) (msg : BcMessage)
    (fromTransport : Option ℕ) : BcStatus × List (List UInt8) × BusState σ ν :=
  if shouldForward s.bus msg = true then
    let f := forwardMessage send s.bus msg fromTransport s.transports
    (f.1, f.2.1, { s with bus := f.2.2.1, transports := f.2.2.2 })
  else (.ok, [], s)

/-- The acknowledgement, on the transport of arrival. -/
def inboundAck (send : ℕ → List UInt8 → ν → BcStatus × ν) (s : BusState σ ν) (msg : BcMessage)
    (fromTransport : Option ℕ) : List (List UInt8) × BusState σ ν :=
  match fromTransport with
  | none => ([], s)
  | some transport =>
    if msg.qos = bcQosAtLeastOnce then
      let a := sendAck send s.bus transport msg s.transports
      (a.2.1, { s with bus := a.2.2.1, transports := a.2.2.2 })
    else ([], s)

/-- The part of `bc_message_bus_handle_inbound` behind the reassembly. -/
def inboundComplete (deliver : ℤ → List UInt8 → σ → DeliverAnswer × σ)
    (send : ℕ → List UInt8 → ν → BcStatus × ν) (s : BusState σ ν) (msg : BcMessage)
    (fromTransport : Option ℕ) : InboundResult × BusState σ ν :=
  if msg.dstNode ≠ 0 ∧ msg.dstNode ≠ s.bus.nodeId then inboundUnicast send s msg fromTransport
  else
    let l := inboundLocal deliver s msg
    match l.1 with
    | .error rc => (⟨rc, l.2.1, [], []⟩, l.2.2)
    | .ok _ =>
      let f := inboundForward send l.2.2 msg fromTransport
      if f.1 ≠ .ok ∧ f.2.2.bus.requireRoute = true then (⟨f.1, l.2.1, f.2.1, []⟩, f.2.2)
      else
        let a := inboundAck send f.2.2 msg fromTransport
        (⟨.ok, l.2.1, f.2.1, a.1⟩, a.2)

/-- `bc_message_bus_handle_inbound`. -/
def bcMessageBusHandleInbound (deliver : ℤ → List UInt8 → σ → DeliverAnswer × σ)
    (send : ℕ → List UInt8 → ν → BcStatus × ν) (s : BusState σ ν) (msg : BcMessage)
    (fromTransport : Option ℕ) : InboundResult × BusState σ ν :=
  let s := { s with bus := { s.bus with
    stats := { s.bus.stats with rxNetwork := s.bus.stats.rxNetwork + 1 } } }
  if msg.flags &&& bcFlagAck ≠ 0 then
    (⟨.ok, none, [], []⟩, { s with bus := { s.bus with
      stats := { s.bus.stats with ackRecv := s.bus.stats.ackRecv + 1 } } })
  else if msg.flags &&& bcFlagFragment ≠ 0 then
    let s := { s with bus := { s.bus with
      stats := { s.bus.stats with fragRx := s.bus.stats.fragRx + 1 } } }
    let r := bcReasmFeed s.reasm msg
    match r.2.2 with
    | some complete => inboundComplete deliver send { s with reasm := r.2.1 } complete fromTransport
    | none =>
      if r.1 = .notFound then (⟨.ok, none, [], []⟩, { s with reasm := r.2.1 })
      else
        (⟨r.1, none, [], []⟩, { s with
          reasm := r.2.1
          bus := { s.bus with stats := { s.bus.stats with rxDrop := s.bus.stats.rxDrop + 1 } } })
  else inboundComplete deliver send s msg fromTransport

end BoardComm
