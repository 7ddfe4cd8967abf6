import BoardComm.IpcFrames
import BoardComm.ShmRing

/-!
# Two ways in for the frames of a client

Frames come through the ring of a client or through its socket. Both ways hand them
to the same bus, which is free to answer as it likes, but the ring is read before the
answer is known, and the receive buffer of the socket afterwards.
-/
namespace BoardComm

/-- A bus in some state, and its answers to requests. What is no message and no
subscription is one more request. -/
structure RequestBus (β : Type*) where
  subscribe : β → List UInt8 → BcStatus × β
  publish : β → BcMessage → BcStatus × β
  other : β → IpcHeader → BcStatus × β

/-- The client as `drain_client_shm` sees it, with its array for one frame, and the
frames that the bus has accepted so far. -/
structure ShmClient (β : Type*) where
  ring : BcShmRing
  frame : List UInt8
  bus : β
  accepted : List (List UInt8)
  closed : Bool

/-- The client as `process_messages` sees it. -/
structure SocketClient (β : Type*) where
  rx : List UInt8
  stale : List UInt8
  bus : β
  accepted : List (List UInt8)
  closed : Bool

section Paths

variable {β : Type*} (bus : RequestBus β)

/-- `process_ipc_payload`, for any bus. -/
def RequestBus.processIpcPayload (b : β) (header : IpcHeader)
    (channel topic payload : List UInt8) : BcStatus × β :=
  if header.type = bcIpcSubscribe then (.ok, (bus.subscribe b (CBuffer.cstr topic)).2)
  else if header.type = bcIpcPublish then
    bus.publish b (publishedMessage header channel topic payload)
  else if header.type = bcIpcShmKick then (.ok, b)
  else bus.other b header

/-- `process_frame_buffer`, for any bus. -/
def RequestBus.processFrameBuffer (b : β) (data : List UInt8) (len : ℕ) : BcStatus × β :=
  frameBuffer (bus.processIpcPayload b) (fun rc => (rc, b)) data len

/-- The loop of `drain_client_shm`. Every record of the ring takes some bytes, so as
many rounds as there are bytes, and one more, are enough. -/
def RequestBus.drainClientShmLoop : ℕ → ShmClient β → BcStatus × ShmClient β
  | 0, c => (.ok, c)
  | rounds + 1, c =>
    match ShmRing.bcShmRingRead c.ring bcClientFrameMax with
    | (.error rc, _) => (if rc = .notFound then .ok else rc, c)
    | (.ok data, ring) =>
      let frame := data ++ c.frame.drop data.length
      let r := bus.processFrameBuffer c.bus frame data.length
      let c := { c with ring := ring, frame := frame, bus := r.2 }
      if r.1 = .ok then drainClientShmLoop rounds { c with accepted := c.accepted ++ [data] }
      else (r.1, c)

/-- `drain_client_shm`, of a client that has its ring. -/
def RequestBus.drainClientShm (c : ShmClient β) : BcStatus × ShmClient β :=
  bus.drainClientShmLoop ((ShmRing.ringData c.ring).toNat + 1) c

/-- `process_one_message`, for any bus. -/
def RequestBus.processOneMessage (c : SocketClient β) : BcStatus × SocketClient β :=
  if c.rx.length < IpcHeader.sizeV1 then (.notFound, c)
  else
    let header := IpcHeader.ofBytes (c.rx ++ c.stale)
    let frameLen := header.total (bcIpcHeaderSize header.version)
    if header.magic ≠ bcIpcMagic then (.invalid, c)
    else if frameLen > bcClientFrameMax ∨ c.rx.length < frameLen then
      (if c.rx.length < frameLen then .notFound else .invalid, c)
    else
      let r := bus.processFrameBuffer c.bus (c.rx ++ c.stale) frameLen
      if r.1 = .ok then
        (.ok, { c with
          rx := c.rx.drop frameLen
          stale := (c.rx ++ c.stale).drop (c.rx.length - frameLen)
          bus := r.2
          accepted := c.accepted ++ [c.rx.take frameLen] })
      else (r.1, { c with bus := r.2 })

/-- The loop of `process_messages`. -/
def RequestBus.processMessagesLoop : ℕ → SocketClient β → BcStatus × SocketClient β
  | 0, c => (.ok, c)
  | rounds + 1, c =>
    let r := bus.processOneMessage c
    if r.1 = .ok then processMessagesLoop rounds r.2
    else if r.1 = .notFound then (.ok, r.2)
    else r

/-- `process_messages`, for any bus. -/
def RequestBus.processMessages (c : SocketClient β) : BcStatus × SocketClient β :=
  bus.processMessagesLoop c.rx.length c

/-- The ring is drained, and the client closed for an error other than backpressure. -/
def feedShm (c : ShmClient β) : ShmClient β :=
  let r := bus.drainClientShm c
  if r.1 = .ok ∨ r.1 = .nomem then r.2 else { r.2 with closed := true }

/-- The receive buffer is processed, and the client closed likewise. -/
def feedSocket (c : SocketClient β) : SocketClient β :=
  let r := bus.processMessages c
  if r.1 = .ok ∨ r.1 = .nomem then r.2 else { r.2 with closed := true }

/-- The same client on both ways, and the frames that it has sent. -/
structure Twins (β : Type*) where
  sent : List (List UInt8)
  shm : ShmClient β
  socket : SocketClient β

/-- What happens to the bus, and the frames that come after it. Without frames, both
are just resumed. -/
structure Feeding (β : Type*) where
  change : β → β
  frames : List IpcFrame

/-- The frames are in the ring. -/
def ShmClient.fed (c : ShmClient β) (i : Feeding β) : ShmClient β :=
  { c with
    bus := i.change c.bus
    ring := ShmRing.writeAll c.ring (i.frames.map IpcFrame.bytes) }

/-- The frames have been read into the receive buffer. -/
def SocketClient.fed (c : SocketClient β) (i : Feeding β) : SocketClient β :=
  { c with
    bus := i.change c.bus
    rx := c.rx ++ (i.frames.map IpcFrame.bytes).flatten
    stale := c.stale.drop (i.frames.map IpcFrame.bytes).flatten.length }

/-- Both are fed, if they are still there. -/
def Twins.step (s : Twins β) (i : Feeding β) : Twins β where
  sent := s.sent ++ i.frames.map IpcFrame.bytes
  shm := if s.shm.closed = true then s.shm else feedShm bus (s.shm.fed i)
  socket := if s.socket.closed = true then s.socket else feedSocket bus (s.socket.fed i)

/-- A client with a new ring and an empty receive buffer. -/
def Twins.start (b : β) (frame stale : List UInt8) : Twins β :=
  ⟨[], ⟨ShmRing.initRing, frame, b, [], false⟩, ⟨[], stale, b, [], false⟩⟩

end Paths

section Manager

variable {ν : Type*} (send : ℕ → List UInt8 → ν → BcStatus × ν) (env : ClientEnv)
  (client : BcClient)

/-- The bus that the daemon has behind a client. -/
def clientBus : RequestBus (ClientManager ν) where
  subscribe m topic :=
    ((bcMessageBusSubscribe m.bus client.fd topic).1,
      { m with bus := (bcMessageBusSubscribe m.bus client.fd topic).2 })
  publish m msg := publishFrame send env m client msg
  other m header :=
    if header.type = bcIpcStats then
      let r := sendStatsReply (env.watch client.fd) m.bus.stats client
      (r.1, { m with clients := setClient m.clients r.2 })
    else if header.type = bcIpcShmSetup then
      match env.setup client.fd with
      | none => (.io, m)
      | some session =>
        (.ok, { m with clients := setClient m.clients { client with shm := session } })
    else (.invalid, m)

theorem clientBus_processIpcPayload (m : ClientManager ν) (header : IpcHeader)
    (channel topic payload : List UInt8) :
    (clientBus send env client).processIpcPayload m header channel topic payload =
      processIpcPayload send env m client header channel topic payload := by
  rw [RequestBus.processIpcPayload, processIpcPayload]
  by_cases hkick : header.type = bcIpcShmKick
  · have hothers : bcIpcShmKick ≠ bcIpcSubscribe ∧ bcIpcShmKick ≠ bcIpcPublish ∧
        bcIpcShmKick ≠ bcIpcStats ∧ bcIpcShmKick ≠ bcIpcShmSetup := by decide
    simp only [hkick, if_neg hothers.1, if_neg hothers.2.1, if_neg hothers.2.2.1,
      if_neg hothers.2.2.2, if_true]
  · simp only [if_neg hkick]
    rfl

/-- The frames of a client are handed to the bus of the daemon. -/
theorem clientBus_processFrameBuffer (m : ClientManager ν) (data : List UInt8) (len : ℕ) :
    (clientBus send env client).processFrameBuffer m data len =
      processFrameBuffer send env m client data len := by
  have hpayload : (clientBus send env client).processIpcPayload m =
      processIpcPayload send env m client := by
    ext header channel topic payload : 4
    exact clientBus_processIpcPayload send env client m header channel topic payload
  rw [RequestBus.processFrameBuffer, hpayload]
  rfl

end Manager

section Offers

variable {β : Type*} (bus : RequestBus β)

/-- What the bus makes of a frame. -/
def RequestBus.offer (b : β) (f : IpcFrame) : BcStatus × β :=
  bus.processIpcPayload b f.header f.channel f.topic f.payload

/-- What has become of frames that were offered one after the other, until the bus did
not take one. -/
structure Offers (β : Type*) where
  taken : List IpcFrame
  rest : List IpcFrame
  rc : BcStatus
  bus : β

def RequestBus.offerAll : β → List IpcFrame → Offers β
  | b, [] => ⟨[], [], .ok, b⟩
  | b, f :: frames =>
    let r := bus.offer b f
    if r.1 = .ok then
      let offers := RequestBus.offerAll r.2 frames
      { offers with taken := f :: offers.taken }
    else ⟨[], f :: frames, r.1, r.2⟩

variable {bus} {b : β}

/-- The bus has taken them all if it answered so to the last. -/
theorem offerAll_rest (frames : List IpcFrame) (h : (bus.offerAll b frames).rc = .ok) :
    (bus.offerAll b frames).rest = [] ∧ (bus.offerAll b frames).taken = frames := by
  induction frames generalizing b with
  | nil => exact ⟨rfl, rfl⟩
  | cons f frames ih =>
    rw [RequestBus.offerAll] at h ⊢
    by_cases htakes : (bus.offer b f).1 = .ok
    · simp only [if_pos htakes] at h ⊢
      exact ⟨(ih h).1, congrArg (f :: ·) (ih h).2⟩
    · simp only [if_neg htakes] at h
      exact absurd h htakes

variable (bus b) in
/-- Frames are taken from the front. -/
theorem offerAll_taken_rest (frames : List IpcFrame) :
    (bus.offerAll b frames).taken ++ (bus.offerAll b frames).rest = frames := by
  induction frames generalizing b with
  | nil => rfl
  | cons f frames ih =>
    rw [RequestBus.offerAll]
    by_cases htakes : (bus.offer b f).1 = .ok
    · simp only [if_pos htakes, List.cons_append, ih]
    · simp only [if_neg htakes, List.nil_append]

/-- The frame that the bus did not take is among the rest. -/
theorem offerAll_refused (frames : List IpcFrame) (h : (bus.offerAll b frames).rc ≠ .ok) :
    (bus.offerAll b frames).rest ≠ [] := by
  induction frames generalizing b with
  | nil => exact absurd rfl h
  | cons f frames ih =>
    rw [RequestBus.offerAll] at h ⊢
    by_cases htakes : (bus.offer b f).1 = .ok
    · simp only [if_pos htakes] at h ⊢
      exact ih h
    · simp [if_neg htakes]

/-- The kinds of frames that are compared. -/
def IpcFrame.Request (f : IpcFrame) : Prop := f.type = bcIpcPublish ∨ f.type = bcIpcSubscribe

/-- A frame is handed to the bus, whatever stands behind it. -/
theorem processFrameBuffer_offer {f : IpcFrame} (hrequest : f.Request) (rest : List UInt8) :
    bus.processFrameBuffer b (f.bytes ++ rest) f.bytes.length = bus.offer b f := by
  obtain ⟨hagrees, hnew⟩ := f.ofBytes_bytes rest
  rw [RequestBus.processFrameBuffer, frameBuffer_frame]
  by_cases hversion : f.version ≥ bcIpcVersion
  · rw [hnew hversion, RequestBus.offer]
  · have hold : ¬ f.header.version ≥ bcIpcVersion := hversion
    have hold' : ¬ (IpcHeader.ofBytes (f.bytes ++ rest)).version ≥ bcIpcVersion := by
      rw [hagrees.version]
      exact hold
    have htype : f.header.type = f.type := rfl
    rcases hrequest with htypeEq | htypeEq
    · simp only [RequestBus.offer, RequestBus.processIpcPayload, publishedMessage, hagrees.type,
        hagrees.payloadLen, if_neg hold, if_neg hold', htype, htypeEq, if_true]
    · simp only [RequestBus.offer, RequestBus.processIpcPayload, hagrees.type, htype, htypeEq,
        if_true]

theorem bytes_pos (f : IpcFrame) : 1 ≤ f.bytes.length := by
  have hpos := f.topic_pos
  rw [f.bytes_length]
  omega

/-- What the offers make of the client with the ring. The frame that the bus did not
take is out of the ring as well. -/
structure ShmClient.Offered (c c' : ShmClient β) (o : Offers β) : Prop where
  bus : c'.bus = o.bus
  accepted : c'.accepted = c.accepted ++ o.taken.map IpcFrame.bytes
  closed : c'.closed = c.closed
  ring : ∃ t, ShmRing.Holds c'.ring t (o.rest.tail.map IpcFrame.bytes)

/-- Draining offers the frames of the ring one after the other. -/
theorem drainClientShmLoop_spec (frames : List IpcFrame) (hrequests : ∀ f ∈ frames, f.Request)
    {c : ShmClient β} {t rounds : ℕ} (h : ShmRing.Holds c.ring t (frames.map IpcFrame.bytes))
    (hrounds : frames.length < rounds) :
    (bus.drainClientShmLoop rounds c).1 = (bus.offerAll c.bus frames).rc ∧
      c.Offered (bus.drainClientShmLoop rounds c).2 (bus.offerAll c.bus frames) := by
  induction frames generalizing c t rounds with
  | nil =>
    obtain ⟨rounds, rfl⟩ := Nat.exists_eq_add_of_lt hrounds
    have hread : ShmRing.bcShmRingRead c.ring bcClientFrameMax = (.error .notFound, c.ring) := by
      simp only [ShmRing.bcShmRingRead, h.peekLen_nil]
    rw [RequestBus.drainClientShmLoop, hread]
    exact ⟨rfl, rfl, (List.append_nil _).symm, rfl, t, h⟩
  | cons f frames ih =>
    obtain ⟨rounds, rfl⟩ : ∃ n, rounds = n + 1 := ⟨rounds - 1, by omega⟩
    obtain ⟨hread, hring⟩ := h.read f.bytes_length_le
    have hoffer : bus.processFrameBuffer c.bus (f.bytes ++ c.frame.drop f.bytes.length)
        f.bytes.length = bus.offer c.bus f :=
      processFrameBuffer_offer (hrequests f (by simp)) _
    rw [RequestBus.drainClientShmLoop, hread, RequestBus.offerAll]
    simp only [hoffer]
    by_cases htakes : (bus.offer c.bus f).1 = .ok
    · simp only [if_pos htakes]
      generalize hnext : (⟨(ShmRing.bcShmRingRead c.ring bcClientFrameMax).2,
        f.bytes ++ c.frame.drop f.bytes.length, (bus.offer c.bus f).2, c.accepted ++ [f.bytes],
        c.closed⟩ : ShmClient β) = next
      have hbus : next.bus = (bus.offer c.bus f).2 := by rw [← hnext]
      have haccepted : next.accepted = c.accepted ++ [f.bytes] := by rw [← hnext]
      have hclosed : next.closed = c.closed := by rw [← hnext]
      obtain ⟨hrc, hoffered⟩ := ih (c := next)
        (fun g hg => hrequests g (List.mem_cons_of_mem f hg)) (by rw [← hnext]; exact hring)
        (Nat.lt_of_succ_lt_succ hrounds)
      rw [hbus] at hrc hoffered
      refine ⟨hrc, hoffered.bus, ?_, hoffered.closed.trans hclosed, hoffered.ring⟩
      rw [hoffered.accepted, haccepted, List.map_cons, List.append_assoc, List.singleton_append]
    · simp only [if_neg htakes]
      exact ⟨trivial, rfl, (List.append_nil _).symm, rfl, _, hring⟩

theorem drainClientShm_spec {frames : List IpcFrame} (hrequests : ∀ f ∈ frames, f.Request)
    {c : ShmClient β} {t : ℕ} (h : ShmRing.Holds c.ring t (frames.map IpcFrame.bytes)) :
    (bus.drainClientShm c).1 = (bus.offerAll c.bus frames).rc ∧
      c.Offered (bus.drainClientShm c).2 (bus.offerAll c.bus frames) := by
  refine drainClientShmLoop_spec frames hrequests h (Nat.lt_succ_of_le ?_)
  rw [h.ringData_eq, ShmRing.stream_length, List.map_map]
  have hlen := List.length_le_sum_of_one_le (frames.map (ShmRing.room ∘ IpcFrame.bytes)) (by
    intro n hn
    obtain ⟨f, -, rfl⟩ := List.mem_map.mp hn
    exact (bytes_pos f).trans (Nat.le_add_left _ 4))
  rwa [List.length_map] at hlen

variable (bus) in
/-- The frame at the head of the receive buffer is taken out if the bus takes it. -/
theorem processOneMessage_spec {f : IpcFrame} (hrequest : f.Request) (c : SocketClient β)
    {rest : List UInt8} (hrx : c.rx = f.bytes ++ rest) :
    bus.processOneMessage c =
      if (bus.offer c.bus f).1 = .ok then
        (.ok, { c with
          rx := rest
          stale := (c.rx ++ c.stale).drop (c.rx.length - f.bytes.length)
          bus := (bus.offer c.bus f).2
          accepted := c.accepted ++ [f.bytes] })
      else ((bus.offer c.bus f).1, { c with bus := (bus.offer c.bus f).2 }) := by
  have hmemory : c.rx ++ c.stale = f.bytes ++ (rest ++ c.stale) := by
    rw [hrx, List.append_assoc]
  obtain ⟨hagrees, -⟩ := f.ofBytes_bytes (rest ++ c.stale)
  have hlen : f.bytes.length ≤ c.rx.length := by
    rw [hrx, List.length_append]
    omega
  have hsize := sizeV1_le_bcIpcHeaderSize f.version
  have hbytes := f.bytes_length
  have hmax := f.bytes_length_le
  have htotal : (IpcHeader.ofBytes (f.bytes ++ (rest ++ c.stale))).total
      (bcIpcHeaderSize (IpcHeader.ofBytes (f.bytes ++ (rest ++ c.stale))).version) =
      f.bytes.length := by
    rw [← f.total_header, hagrees.version, IpcHeader.total, hagrees.channelLen, hagrees.topicLen,
      hagrees.payloadLen]
    rfl
  unfold RequestBus.processOneMessage
  rw [if_neg (by omega), hmemory]
  dsimp only
  rw [htotal, hagrees.magic, if_neg (by simp [IpcFrame.header]), if_neg (by omega),
    processFrameBuffer_offer hrequest, hrx, List.drop_left, List.take_left]

/-- What the offers make of the client with the receive buffer. The frame that the bus
did not take stays in it. -/
structure SocketClient.Offered (c c' : SocketClient β) (o : Offers β) : Prop where
  bus : c'.bus = o.bus
  accepted : c'.accepted = c.accepted ++ o.taken.map IpcFrame.bytes
  closed : c'.closed = c.closed
  rx : c'.rx = (o.rest.map IpcFrame.bytes).flatten

/-- Processing offers the frames of the receive buffer one after the other. -/
theorem processMessagesLoop_spec (frames : List IpcFrame) (hrequests : ∀ f ∈ frames, f.Request)
    {c : SocketClient β} {rounds : ℕ} (hrx : c.rx = (frames.map IpcFrame.bytes).flatten)
    (hrounds : frames.length ≤ rounds) :
    (bus.processMessagesLoop rounds c).1 =
        (if (bus.offerAll c.bus frames).rc = .notFound then .ok
          else (bus.offerAll c.bus frames).rc) ∧
      c.Offered (bus.processMessagesLoop rounds c).2 (bus.offerAll c.bus frames) := by
  induction frames generalizing c rounds with
  | nil =>
    have hnothing : c.Offered c (bus.offerAll c.bus []) :=
      ⟨rfl, (List.append_nil _).symm, rfl, hrx⟩
    cases rounds with
    | zero => exact ⟨rfl, hnothing⟩
    | succ rounds =>
      have hnone : bus.processOneMessage c = (.notFound, c) := by
        rw [RequestBus.processOneMessage, hrx, if_pos (by decide)]
      rw [RequestBus.processMessagesLoop, hnone]
      exact ⟨rfl, hnothing⟩
  | cons f frames ih =>
    obtain ⟨rounds, rfl⟩ : ∃ n, rounds = n + 1 :=
      ⟨rounds - 1, by rw [List.length_cons] at hrounds; omega⟩
    have hfirst := processOneMessage_spec bus (hrequests f (by simp)) c hrx
    rw [RequestBus.processMessagesLoop, hfirst, RequestBus.offerAll]
    by_cases htakes : (bus.offer c.bus f).1 = .ok
    · simp only [if_pos htakes, if_true]
      generalize hnext : (⟨(frames.map IpcFrame.bytes).flatten,
        (c.rx ++ c.stale).drop (c.rx.length - f.bytes.length), (bus.offer c.bus f).2,
        c.accepted ++ [f.bytes], c.closed⟩ : SocketClient β) = next
      have hbus : next.bus = (bus.offer c.bus f).2 := by rw [← hnext]
      have haccepted : next.accepted = c.accepted ++ [f.bytes] := by rw [← hnext]
      have hclosed : next.closed = c.closed := by rw [← hnext]
      obtain ⟨hrc, hoffered⟩ := ih (c := next)
        (fun g hg => hrequests g (List.mem_cons_of_mem f hg)) (by rw [← hnext])
        (Nat.le_of_succ_le_succ hrounds)
      rw [hbus] at hrc hoffered
      refine ⟨hrc, hoffered.bus, ?_, hoffered.closed.trans hclosed, hoffered.rx⟩
      rw [hoffered.accepted, haccepted, List.map_cons, List.append_assoc, List.singleton_append]
    · have hkept : c.Offered { c with bus := (bus.offer c.bus f).2 }
          ⟨[], f :: frames, (bus.offer c.bus f).1, (bus.offer c.bus f).2⟩ :=
        ⟨rfl, (List.append_nil _).symm, rfl, hrx⟩
      simp only [if_neg htakes]
      by_cases hlacks : (bus.offer c.bus f).1 = .notFound
      · simp only [if_pos hlacks]
        exact ⟨trivial, hkept⟩
      · simp only [if_neg hlacks]
        exact ⟨trivial, hkept⟩

theorem processMessages_spec {frames : List IpcFrame} (hrequests : ∀ f ∈ frames, f.Request)
    {c : SocketClient β} (hrx : c.rx = (frames.map IpcFrame.bytes).flatten) :
    (bus.processMessages c).1 =
        (if (bus.offerAll c.bus frames).rc = .notFound then .ok
          else (bus.offerAll c.bus frames).rc) ∧
      c.Offered (bus.processMessages c).2 (bus.offerAll c.bus frames) := by
  refine processMessagesLoop_spec frames hrequests hrx ?_
  rw [hrx, List.length_flatten, List.map_map]
  have hlen := List.length_le_sum_of_one_le (frames.map (List.length ∘ IpcFrame.bytes)) (by
    intro n hn
    obtain ⟨f, -, rfl⟩ := List.mem_map.mp hn
    exact bytes_pos f)
  rwa [List.length_map] at hlen

end Offers

section Agreement

variable {β : Type*} (bus : RequestBus β)

/-- The frames are to be compared, and they come in at once. -/
structure Feeding.Fits (i : Feeding β) : Prop where
  requests : ∀ f ∈ i.frames, f.Request
  room : (i.frames.map IpcFrame.bytes).flatten.length ≤ bcClientRxCap

/-- The first of the frames that the bus does not take, if there is one, is refused
for another reason than that its tables are full or that a client is missing. -/
def Feeding.Harmless (s : Twins β) (i : Feeding β) : Prop :=
  s.shm.closed = false →
    (bus.offerAll (i.change s.shm.bus) i.frames).rc ≠ .nomem ∧
      (bus.offerAll (i.change s.shm.bus) i.frames).rc ≠ .notFound

/-- Both ways have led to the same, and the frames that the bus has not accepted yet
are still there. -/
structure Twins.SamePaths (s : Twins β) : Prop where
  accepted : s.shm.accepted = s.socket.accepted
  closed : s.shm.closed = s.socket.closed
  shm_kept : s.shm.closed = false →
    ∃ t queue, ShmRing.Holds s.shm.ring t queue ∧ s.shm.accepted ++ queue = s.sent
  socket_kept : s.socket.closed = false →
    s.socket.accepted.flatten ++ s.socket.rx = s.sent.flatten

/-- Nothing is waiting on either way. -/
structure Twins.Settled (s : Twins β) : Prop where
  accepted : s.shm.accepted = s.socket.accepted
  closed : s.shm.closed = s.socket.closed
  bus : s.shm.bus = s.socket.bus
  all : s.shm.closed = false → s.shm.accepted = s.sent
  ring : s.shm.closed = false → ∃ t, ShmRing.Holds s.shm.ring t []
  rx : s.shm.closed = false → s.socket.rx = []

variable {bus} {s : Twins β} {i : Feeding β}

theorem Twins.Settled.samePaths (h : s.Settled) : s.SamePaths where
  accepted := h.accepted
  closed := h.closed
  shm_kept hopen := by
    obtain ⟨t, hring⟩ := h.ring hopen
    exact ⟨t, [], hring, by rw [List.append_nil, h.all hopen]⟩
  socket_kept hopen := by
    rw [← h.closed] at hopen
    rw [← h.accepted, h.rx hopen, List.append_nil, h.all hopen]

theorem settled_start (b : β) (frame stale : List UInt8) : (Twins.start b frame stale).Settled :=
  ⟨rfl, rfl, rfl, fun _ => rfl, fun _ => ⟨0, ShmRing.holds_initRing⟩, fun _ => rfl⟩

/-- The lengths in front of the frames are short beside them. -/
theorem sum_room_le (frames : List IpcFrame) :
    ((frames.map IpcFrame.bytes).map ShmRing.room).sum ≤
      5 * (frames.map IpcFrame.bytes).flatten.length := by
  induction frames with
  | nil => exact Nat.zero_le _
  | cons f frames ih =>
    have hpos := bytes_pos f
    simp only [List.map_cons, List.sum_cons, List.flatten_cons, List.length_append, ShmRing.room]
      at ih ⊢
    omega

/-- What fits into the receive buffer has room in an empty ring. -/
theorem Feeding.Fits.holds (h : i.Fits) {ring : BcShmRing} {t : ℕ}
    (hring : ShmRing.Holds ring t []) :
    ShmRing.Holds (ShmRing.writeAll ring (i.frames.map IpcFrame.bytes)) t
      (i.frames.map IpcFrame.bytes) := by
  refine hring.writeAll _ ?_
  have hroom := h.room
  have hsum := sum_room_le i.frames
  have hempty : (ShmRing.stream []).length = 0 := rfl
  simp only [bcClientRxCap] at hroom
  simp only [hempty, bcShmRingSize]
  omega

variable (bus) in
theorem Twins.Settled.drain (h : s.Settled) (hopen : s.shm.closed = false) (hfits : i.Fits) :
    (bus.drainClientShm (s.shm.fed i)).1 = (bus.offerAll (i.change s.shm.bus) i.frames).rc ∧
      (s.shm.fed i).Offered (bus.drainClientShm (s.shm.fed i)).2
        (bus.offerAll (i.change s.shm.bus) i.frames) := by
  obtain ⟨t, hring⟩ := h.ring hopen
  exact drainClientShm_spec hfits.requests (c := s.shm.fed i) (hfits.holds hring)

variable (bus) in
theorem Twins.Settled.process (h : s.Settled) (hopen : s.shm.closed = false) (hfits : i.Fits) :
    (bus.processMessages (s.socket.fed i)).1 =
        (if (bus.offerAll (i.change s.shm.bus) i.frames).rc = .notFound then .ok
          else (bus.offerAll (i.change s.shm.bus) i.frames).rc) ∧
      (s.socket.fed i).Offered (bus.processMessages (s.socket.fed i)).2
        (bus.offerAll (i.change s.shm.bus) i.frames) := by
  have hrx : (s.socket.fed i).rx = (i.frames.map IpcFrame.bytes).flatten := by
    simp only [SocketClient.fed, h.rx hopen, List.nil_append]
  have hbus : (s.socket.fed i).bus = i.change s.shm.bus := by rw [SocketClient.fed, h.bus]
  rw [← hbus]
  exact processMessages_spec hfits.requests hrx

/-- Nothing is left waiting if the bus takes all frames, or refuses one for good. -/
theorem settled_step (h : s.Settled) (hfits : i.Fits) (hharmless : i.Harmless bus s) :
    (s.step bus i).Settled := by
  by_cases hclosed : s.shm.closed = true
  · have hclosed' : s.socket.closed = true := h.closed.symm.trans hclosed
    simp only [Twins.step, if_pos hclosed, if_pos hclosed']
    exact ⟨h.accepted, h.closed, h.bus, by simp [hclosed], by simp [hclosed], by simp [hclosed]⟩
  have hopen : s.shm.closed = false := by simpa using hclosed
  have hopen' : s.socket.closed = false := h.closed.symm.trans hopen
  obtain ⟨hnomem, hnotFound⟩ := hharmless hopen
  obtain ⟨hdrained, hshm⟩ := h.drain bus hopen hfits
  obtain ⟨hprocessed, hsocket⟩ := h.process bus hopen hfits
  rw [if_neg hnotFound] at hprocessed
  have haccepted : (bus.drainClientShm (s.shm.fed i)).2.accepted =
      (bus.processMessages (s.socket.fed i)).2.accepted := by
    rw [hshm.accepted, hsocket.accepted]
    simp only [ShmClient.fed, SocketClient.fed, h.accepted]
  have hbus := hshm.bus.trans hsocket.bus.symm
  simp only [Twins.step, if_neg hclosed, hopen', Bool.false_eq_true, if_false]
  by_cases hok : (bus.offerAll (i.change s.shm.bus) i.frames).rc = .ok
  · obtain ⟨hrest, htaken⟩ := offerAll_rest i.frames hok
    simp only [feedShm, feedSocket, hdrained, hprocessed, if_pos (Or.inl hok)]
    refine ⟨haccepted, ?_, hbus, fun _ => ?_, fun _ => ?_, fun _ => ?_⟩
    · rw [hshm.closed, hsocket.closed]
      exact h.closed
    · rw [hshm.accepted, htaken]
      simp only [ShmClient.fed, h.all hopen]
    · obtain ⟨t, hring⟩ := hshm.ring
      rw [hrest] at hring
      exact ⟨t, hring⟩
    · rw [hsocket.rx, hrest, List.map_nil, List.flatten_nil]
  · simp only [feedShm, feedSocket, hdrained, hprocessed, if_neg (not_or.mpr ⟨hok, hnomem⟩)]
    exact ⟨haccepted, rfl, hbus, by simp, by simp, by simp⟩

/-- A frame that was refused because there was no room is in the ring no more. One for
which a client was missing closes the client on the ring only. -/
theorem not_samePaths_step (h : s.Settled) (hfits : i.Fits) (hharm : ¬ i.Harmless bus s) :
    ¬ (s.step bus i).SamePaths := by
  intro hsame
  obtain ⟨hopen, hrefused⟩ := Classical.not_imp.mp hharm
  have hopen' : s.socket.closed = false := h.closed.symm.trans hopen
  obtain ⟨hdrained, hshm⟩ := h.drain bus hopen hfits
  obtain ⟨hprocessed, hsocket⟩ := h.process bus hopen hfits
  have hstep : s.step bus i = ⟨s.sent ++ i.frames.map IpcFrame.bytes,
      feedShm bus (s.shm.fed i), feedSocket bus (s.socket.fed i)⟩ := by
    simp only [Twins.step, hopen, hopen', Bool.false_eq_true, if_false]
  rw [hstep] at hsame
  by_cases hnotFound : (bus.offerAll (i.change s.shm.bus) i.frames).rc = .notFound
  · rw [if_pos hnotFound] at hprocessed
    have hshmClosed : (feedShm bus (s.shm.fed i)).closed = true := by
      simp only [feedShm, hdrained, hnotFound, reduceCtorEq, or_self, if_false]
    have hsocketOpen : (feedSocket bus (s.socket.fed i)).closed = false := by
      simp only [feedSocket, hprocessed, true_or, if_true, hsocket.closed]
      exact hopen'
    have hclosed := hsame.closed
    rw [hshmClosed, hsocketOpen] at hclosed
    contradiction
  · have hnomem : (bus.offerAll (i.change s.shm.bus) i.frames).rc = .nomem := by
      by_contra hne
      exact hrefused ⟨hne, hnotFound⟩
    have hrest : (bus.offerAll (i.change s.shm.bus) i.frames).rest ≠ [] :=
      offerAll_refused i.frames (by rw [hnomem]; decide)
    have hfed : feedShm bus (s.shm.fed i) = (bus.drainClientShm (s.shm.fed i)).2 := by
      simp only [feedShm, hdrained, hnomem, or_true, if_true]
    obtain ⟨t', queue, hring', hkept⟩ := hsame.shm_kept (by
      rw [hfed, hshm.closed]
      exact hopen)
    obtain ⟨t, hring⟩ := hshm.ring
    rw [hfed] at hring' hkept
    rw [hshm.accepted] at hkept
    -- what is kept would have to be all that the bus did not take
    have hqueue : queue = (bus.offerAll (i.change s.shm.bus) i.frames).rest.map IpcFrame.bytes := by
      have hall := congrArg (List.map IpcFrame.bytes)
        (offerAll_taken_rest bus (i.change s.shm.bus) i.frames)
      rw [List.map_append] at hall
      simp only [ShmClient.fed, h.all hopen, ← hall, List.append_assoc] at hkept
      exact List.append_cancel_left (List.append_cancel_left hkept)
    have hlength := hring.ringData_eq.symm.trans hring'.ringData_eq
    obtain ⟨f, frames, hcons⟩ := List.exists_cons_of_ne_nil hrest
    rw [hqueue, hcons, List.tail_cons, List.map_cons, ShmRing.stream_cons, List.length_append,
      ShmRing.record_length, ShmRing.room] at hlength
    omega

variable (bus)

/-- Whatever frames come in, and whatever the bus makes of them, both ways lead to the
same as long as no frame is refused for want of room or of a client. -/
theorem shm_path_agrees_iff (b : β) (frame stale : List UInt8) (is : List (Feeding β))
    (hfits : ∀ i ∈ is, i.Fits) :
    Runs.Along (Twins.step bus) Twins.SamePaths (Twins.start b frame stale) is ↔
      Runs.Meets (Twins.step bus) (fun s i => i.Harmless bus s) (Twins.start b frame stale) is :=
  Runs.along_iff_meets (Twins.step bus) (fun _ h => h.samePaths)
    (fun _ _ h hi hharmless => settled_step h hi hharmless)
    (fun _ _ h hi hharm => not_samePaths_step h hi hharm) (settled_start b frame stale) hfits

end Agreement

section Refusals

/-- A bus with the answers that it will give. -/
def scriptedBus : RequestBus (List BcStatus) where
  subscribe b _ := (b.headD .ok, b.tail)
  publish b _ := (b.headD .ok, b.tail)
  other b _ := (.invalid, b)

/-- A message of one byte. -/
def shortFrame : IpcFrame := .oneByte bcIpcPublish 0 7 0x74 0x78

/-- The second of two messages is refused for another reason. -/
theorem shm_path_agrees_iff_refused :
    Runs.Along (Twins.step scriptedBus) Twins.SamePaths (Twins.start [.ok, .invalid] [] [])
      [⟨id, [shortFrame, shortFrame]⟩] := by
  have hfits : ∀ i ∈ [(⟨id, [shortFrame, shortFrame]⟩ : Feeding (List BcStatus))], i.Fits := by
    intro i hi
    rw [List.mem_singleton.mp hi]
    refine ⟨?_, by decide⟩
    intro f hf
    rw [List.mem_pair, or_self] at hf
    rw [hf]
    exact Or.inl rfl
  refine (shm_path_agrees_iff scriptedBus [.ok, .invalid] [] [] _ hfits).mpr ?_
  exact (Runs.meets_cons _).mpr ⟨fun _ => by decide, Runs.meets_nil _⟩

/-- There is no room for the message at first, and both are resumed afterwards. -/
def refusedFeedings : List (Feeding (List BcStatus)) := [⟨id, [shortFrame]⟩, ⟨id, []⟩]

/-- A message for which there was no room is never accepted from the ring. One for which
a client is missing closes the client on the ring only. -/
theorem shm_path_differs :
    ¬ Runs.Along (Twins.step scriptedBus) Twins.SamePaths (Twins.start [.nomem] [] [])
        refusedFeedings ∧
      (Runs.run (Twins.step scriptedBus) (Twins.start [.nomem] [] []) refusedFeedings).shm.accepted
        = [] ∧
      (Runs.run (Twins.step scriptedBus) (Twins.start [.nomem] [] [])
        refusedFeedings).socket.accepted = [shortFrame.bytes] ∧
      (Runs.run (Twins.step scriptedBus) (Twins.start [.notFound] [] [])
        refusedFeedings).shm.closed = true ∧
      (Runs.run (Twins.step scriptedBus) (Twins.start [.notFound] [] [])
        refusedFeedings).socket.closed = false := by
  have hshm : (Runs.run (Twins.step scriptedBus) (Twins.start [.nomem] [] [])
      refusedFeedings).shm.accepted = [] := by
    decide +kernel
  have hsocket : (Runs.run (Twins.step scriptedBus) (Twins.start [.nomem] [] [])
      refusedFeedings).socket.accepted = [shortFrame.bytes] := by
    decide +kernel
  refine ⟨fun h => ?_, hshm, hsocket, by decide +kernel, by decide +kernel⟩
  have hsame := (h refusedFeedings List.prefix_rfl).accepted
  rw [hshm, hsocket] at hsame
  exact List.cons_ne_nil _ _ hsame.symm

end Refusals

end BoardComm
