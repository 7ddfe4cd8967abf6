import BoardComm.TcpEvents

/-!
# Successive connections through one receive buffer

The receive buffer belongs to the handler and outlives the connections of the
transport. What a connection leaves in it is joined to the first bytes of the
next one; connections that end between two frames leave nothing. What waits in
the socket when a connection is given up is never read.
-/
namespace BoardComm

/-- The messages of the whole frames at the front of a stream. -/
def framesIn (stream : List UInt8) : List BcMessage := (Framing.drainAll scanFrame stream).1

/-- What follows them. -/
def tailIn (stream : List UInt8) : List UInt8 := (Framing.drainAll scanFrame stream).2.1

/-- No rejected frame occurs in the stream. -/
def Sound (stream : List UInt8) : Prop := (Framing.drainAll scanFrame stream).2.2 = true

/-- A sound stream that does not end inside a frame leaves nothing. -/
theorem tailIn_of_not_endsInsideFrame {stream : List UInt8} (hsound : Sound stream)
    (h : ¬ EndsInsideFrame stream) : tailIn stream = [] := by
  by_contra hne
  apply h
  rw [EndsInsideFrame, ← Framing.drain_keeps_iff scanFrame_progress scanFrame_nil stream.length
    stream le_rfl]
  exact ⟨hsound, hne⟩

theorem sound_of_append {stream data : List UInt8} (h : Sound (stream ++ data)) : Sound stream :=
  Framing.drainAll_ok_of_append scanFrame_progress scanFrame_nil scanFrame_stable h

/-- What is kept of a stream and the bytes after it are drained together. -/
theorem drainAll_tailIn {stream : List UInt8} (h : Sound stream) (data : List UInt8) :
    Framing.drainAll scanFrame (stream ++ data) =
      (framesIn stream ++ (Framing.drainAll scanFrame (tailIn stream ++ data)).1,
        (Framing.drainAll scanFrame (tailIn stream ++ data)).2) := by
  have hok : (Framing.drainAll scanFrame stream).2.2 = true := h
  rw [Framing.drainAll_append scanFrame_progress scanFrame_nil scanFrame_stable, if_pos hok]
  rfl

section Kept

/-- Whenever bytes were read on a connection, no earlier one had ended inside a frame. -/
def BoundariesKept (streams : List (List UInt8)) : Prop :=
  streams.Pairwise fun earlier later => later ≠ [] → ¬ EndsInsideFrame earlier

instance (streams : List (List UInt8)) : Decidable (BoundariesKept streams) :=
  inferInstanceAs (Decidable (List.Pairwise _ streams))

/-- The handler has kept the connections apart: it has handed on the frames of
each, and holds what follows the frames of the last one. -/
structure StreamsApart (streams : List (List UInt8)) (inbound : List BcMessage)
    (rxBuf : List UInt8) : Prop where
  inbound : inbound = streams.flatMap framesIn
  rxBuf : (∀ s ∈ streams.dropLast, ¬ EndsInsideFrame s) → rxBuf = tailIn (streams.getLastD [])

/-- What is kept over a run. -/
structure TcpKept (impl : TcpImpl) (inbound : List BcMessage) (rxBuf : List UInt8) : Prop where
  apart : (∀ s ∈ impl.streams, Sound s) → BoundariesKept impl.streams →
    StreamsApart impl.streams inbound rxBuf
  short : rxBuf.length < 1530
  current : impl.connected = true → impl.streams ≠ []

variable {impl : TcpImpl} {inbound : List BcMessage} {rxBuf : List UInt8}

/-- If no connection so far has ended inside a frame, nothing is held. -/
theorem StreamsApart.rxBuf_eq_nil {streams : List (List UInt8)}
    (h : StreamsApart streams inbound rxBuf)
    (hsound : ∀ s ∈ streams, Sound s) (hend : ∀ s ∈ streams, ¬ EndsInsideFrame s) :
    rxBuf = [] := by
  have hrx := h.rxBuf fun s hs => hend s (List.dropLast_subset _ hs)
  cases hlast : streams.getLast? with
  | none =>
    rw [List.getLast?_eq_none_iff.mp hlast] at hrx
    exact hrx
  | some s =>
    have hmem := List.mem_of_getLast? hlast
    rw [List.getLastD_eq_getLast?, hlast, Option.getD_some] at hrx
    rw [hrx]
    exact tailIn_of_not_endsInsideFrame (hsound s hmem) (hend s hmem)

/-- Losing and establishing connections changes nothing in the handler. -/
theorem StreamsApart.grow {streams : List (List UInt8)} (h : StreamsApart streams inbound rxBuf)
    (hsound : ∀ s ∈ streams, Sound s) (k : ℕ) :
    StreamsApart (streams ++ List.replicate k []) inbound rxBuf := by
  cases k with
  | zero => simpa using h
  | succ k =>
    constructor
    · rw [List.flatMap_append, ← h.inbound]
      have hnone : (List.replicate (k + 1) ([] : List UInt8)).flatMap framesIn = [] := by
        rw [List.flatMap_eq_nil_iff]
        intro s hs
        rw [List.eq_of_mem_replicate hs]
        rfl
      rw [hnone, List.append_nil]
    · intro hend
      rw [List.replicate_succ', ← List.append_assoc, List.dropLast_concat] at hend
      have hrx := h.rxBuf_eq_nil hsound fun s hs => hend s (List.mem_append_left _ hs)
      rw [hrx, List.replicate_succ', ← List.append_assoc, List.getLastD_concat]
      rfl

theorem TcpKept.grow (h : TcpKept impl inbound rxBuf) {impl' : TcpImpl} (hg : Grows impl impl') :
    TcpKept impl' inbound rxBuf := by
  obtain ⟨k, hk, hconn⟩ := hg
  refine ⟨?_, h.short, ?_⟩
  · intro hsound hkept
    rw [hk] at hsound hkept ⊢
    have hold : ∀ s ∈ impl.streams, Sound s := fun s hs => hsound s (List.mem_append_left _ hs)
    exact (h.apart hold (List.pairwise_append.mp hkept).1).grow hold k
  · intro hc
    rw [hk]
    cases k with
    | zero => simpa using h.current (hconn rfl hc)
    | succ k => simp

/-- More bytes on the last connection. -/
theorem StreamsApart.receive {pre : List (List UInt8)} {s data : List UInt8}
    (h : StreamsApart (pre ++ [s]) inbound rxBuf)
    (hsound : Sound (s ++ data)) (hend : ∀ e ∈ pre, ¬ EndsInsideFrame e) :
    StreamsApart (pre ++ [s ++ data])
      (inbound ++ (Framing.drainAll scanFrame (rxBuf ++ data)).1)
      (if (Framing.drainAll scanFrame (rxBuf ++ data)).2.2 = true then
        (Framing.drainAll scanFrame (rxBuf ++ data)).2.1 else []) := by
  have hrx : rxBuf = tailIn s := by
    have hheld := h.rxBuf (by rwa [List.dropLast_concat])
    rwa [List.getLastD_concat] at hheld
  have hall := drainAll_tailIn (sound_of_append hsound) data
  rw [hrx]
  have hok : (Framing.drainAll scanFrame (tailIn s ++ data)).2.2 = true := by
    have hs : (Framing.drainAll scanFrame (s ++ data)).2.2 = true := hsound
    rwa [hall] at hs
  constructor
  · have hframes : framesIn (s ++ data) =
        framesIn s ++ (Framing.drainAll scanFrame (tailIn s ++ data)).1 := by
      rw [framesIn, hall]
    rw [h.inbound]
    simp only [List.flatMap_append, List.flatMap_singleton, hframes, List.append_assoc]
  · intro _
    have htail : tailIn (s ++ data) = (Framing.drainAll scanFrame (tailIn s ++ data)).2.1 := by
      rw [tailIn, hall]
    rw [if_pos hok, List.getLastD_concat, htail]

theorem TcpKept.receive (h : TcpKept impl inbound rxBuf) (hconn : impl.connected = true)
    {data : List UInt8} (hne : data ≠ [])
    (hshort : (if (Framing.drainAll scanFrame (rxBuf ++ data)).2.2 = true then
      (Framing.drainAll scanFrame (rxBuf ++ data)).2.1 else []).length < 1530) :
    TcpKept (impl.received data) (inbound ++ (Framing.drainAll scanFrame (rxBuf ++ data)).1)
      (if (Framing.drainAll scanFrame (rxBuf ++ data)).2.2 = true then
        (Framing.drainAll scanFrame (rxBuf ++ data)).2.1 else []) := by
  obtain ⟨pre, s, hstreams⟩ : ∃ pre s, impl.streams = pre ++ [s] :=
    ⟨_, _, (List.dropLast_append_getLast (h.current hconn)).symm⟩
  have hnew : (impl.received data).streams = pre ++ [s ++ data] := by
    simp only [TcpImpl.received, hstreams, List.dropLast_concat, List.getLastD_concat]
  refine ⟨?_, hshort, ?_⟩
  · rw [hnew]
    intro hsound hkept
    -- The state before the bytes came satisfies the same conditions.
    have hlast : Sound (s ++ data) := hsound _ (by simp)
    obtain ⟨hpre, -, hcross⟩ := List.pairwise_append.mp hkept
    have hend : ∀ e ∈ pre, ¬ EndsInsideFrame e := by
      intro e he
      exact hcross e he (s ++ data) (by simp) (by simp [hne])
    have hold : StreamsApart (pre ++ [s]) inbound rxBuf := by
      rw [← hstreams]
      apply h.apart
      · rw [hstreams]
        intro e he
        rcases List.mem_append.mp he with he | he
        · exact hsound e (List.mem_append_left _ he)
        · rw [List.mem_singleton.mp he]
          exact sound_of_append hlast
      · rw [hstreams]
        refine List.pairwise_append.mpr ⟨hpre, List.pairwise_singleton _ _, ?_⟩
        intro e he _ _ _
        exact hend e he
    exact hold.receive hlast hend
  · intro _
    rw [hnew]
    simp

end Kept

section Runs

variable {σ ν : Type*} {deliver : ℤ → List UInt8 → σ → DeliverAnswer × σ}
  {send : ℕ → List UInt8 → ν → BcStatus × ν} {port : ℕ} {ctx : TcpDaemon σ ν}

/-- What is kept, of the handler. -/
def HandlerKept (ctx : TcpDaemon σ ν) : Prop :=
  TcpKept ctx.world.transports.impl ctx.inbound ctx.rxBuf

/-- The handler's state when bytes of the connection have been read. -/
def withReceived (ctx : TcpDaemon σ ν) (data : List UInt8) : TcpDaemon σ ν :=
  { ctx with world := { ctx.world with transports := { ctx.world.transports with
    impl := ctx.world.transports.impl.received data } } }

variable (deliver send port) in
theorem HandlerKept.receive (h : HandlerKept ctx)
    (hconn : ctx.world.transports.impl.connected = true) {data : List UInt8} (hne : data ≠ []) :
    HandlerKept (receiveBytes (tcpInbound deliver send port) (withReceived ctx data) data).2 := by
  have hshort := receiveBytes_length_lt (tcpInbound deliver send port) (withReceived ctx data) data
  rw [receiveBytes_eq] at hshort ⊢
  -- the bytes are drained, and the bus may have given the connection up meanwhile
  exact (TcpKept.receive h hconn hne hshort).grow (grows_foldl_tcpInbound deliver send port _ _)

/-- What `readTransport` makes of an answer. -/
theorem readTransport_tcp (answers : TcpAnswers) (events : EpollEvents)
    (s : BusState σ (TcpPorts ν)) (answer : RecvAnswer) (cap : ℕ) :
    (∃ impl, Grows s.transports.impl impl ∧
        readTransport (tcpOps answers) events s answer cap =
          (.stop, { s with transports := { s.transports with impl := impl } })) ∨
      (∃ data, data ≠ [] ∧ s.transports.impl.connected = true ∧
        readTransport (tcpOps answers) events s answer cap =
          (.got data, { s with transports :=
            { s.transports with impl := s.transports.impl.received data } })) := by
  by_cases hguard : s.transports.impl.connected = false ∨ s.transports.impl.connFd < 0
  · left
    exact ⟨s.transports.impl, .refl _, by simp only [readTransport, tcpOps, tcpRecv, if_pos hguard]⟩
  · have hconn : s.transports.impl.connected = true := by
      cases hc : s.transports.impl.connected with
      | true => rfl
      | false => exact absurd (.inl hc) hguard
    cases answer with
    | bytes data =>
      by_cases hpos : (data.take cap).length > 0
      · right
        have hne : data.take cap ≠ [] := List.length_pos_iff.mp hpos
        refine ⟨data.take cap, hne, hconn, ?_⟩
        simp only [readTransport, tcpOps, tcpRecv, if_neg hguard, if_pos hpos, if_neg hne]
      · left
        refine ⟨tcpDropConnection s.transports.impl, grows_dropConnection _, ?_⟩
        simp only [readTransport, tcpOps, tcpRecv, if_neg hguard, if_neg hpos]
    | eintr =>
      left
      exact ⟨s.transports.impl, .refl _,
        by simp only [readTransport, tcpOps, tcpRecv, if_neg hguard]⟩
    | again =>
      left
      exact ⟨s.transports.impl, .refl _,
        by simp only [readTransport, tcpOps, tcpRecv, if_neg hguard]⟩
    | error =>
      left
      refine ⟨tcpDropConnection s.transports.impl, grows_dropConnection _, ?_⟩
      simp only [readTransport, tcpOps, tcpRecv, if_neg hguard]

variable (deliver send port) in
theorem HandlerKept.onTransportEvent (h : HandlerKept ctx) (answers : TcpAnswers)
    (ev : TransportEvent RecvAnswer) :
    HandlerKept (BoardComm.onTransportEvent (tcpOps answers) (tcpInbound deliver send port) ev.fd
      ev.events ev.answers ctx).2.1 := by
  have hstart : HandlerKept { ctx with
      world := (tcpOps answers).handleEvent ctx.world ev.fd ev.events } :=
    TcpKept.grow h (grows_handleEvent _ _ _ _)
  have hreads (c : TcpDaemon σ ν) (answer : RecvAnswer) :=
    readTransport_tcp answers ev.events c.world answer (transportRxCap - c.rxBuf.length)
  refine onTransportEventLoop_rule (tcpInbound deliver send port) (tcpOps answers) ev.events
    (A := fun _ => True) (P := HandlerKept) (Q := fun _ c => HandlerKept c)
    ?_ (fun _ h => h) ?_ ?_ ?_ ev.answers (fun _ _ => trivial) _ hstart
  · intro c hc hfull
    have hlt := hc.short
    simp only [transportRxCap, bcMaxFrameLen] at hfull
    omega
  · intro c answer world hc _ hread
    rcases hreads c answer with ⟨impl, hg, heq⟩ | ⟨data, -, -, heq⟩
    · rw [heq] at hread
      cases hread
      exact TcpKept.grow hc hg
    · rw [heq] at hread
      cases hread
  · intro c answer world hc _ hread
    rcases hreads c answer with ⟨impl, -, heq⟩ | ⟨data, -, -, heq⟩
    · rw [heq] at hread
      cases hread
    · rw [heq] at hread
      cases hread
  · intro c answer world data hc _ hread
    rcases hreads c answer with ⟨impl, -, heq⟩ | ⟨data', hne, hconn, heq⟩
    · rw [heq] at hread
      cases hread
    · rw [heq] at hread
      cases hread
      have hnext := hc.receive deliver send port hconn hne
      constructor
      · intro ctx' he
        rw [withReceived, he] at hnext
        exact hnext
      · intro ctx' he
        rw [withReceived, he] at hnext
        exact hnext

variable (deliver send port) in
theorem HandlerKept.step (h : HandlerKept ctx) (input : TcpDaemonInput σ ν) :
    HandlerKept (tcpDaemonStep deliver send port ctx input) := by
  cases input with
  | event answers sends ev =>
    have hstart : HandlerKept { ctx with world := ctx.world.answering sends } := h
    exact hstart.onTransportEvent deliver send port answers ev
  | publish sends source msg =>
    exact TcpKept.grow h (grows_publish deliver send port (ctx.world.answering sends) source msg)
  | inbound sends origin msg =>
    exact TcpKept.grow h
      (grows_handleInbound deliver send port (ctx.world.answering sends) msg (some origin))
  | elsewhere bus reasm clients rest => exact h

variable (deliver send port) in
theorem HandlerKept.run (h : HandlerKept ctx) (inputs : List (TcpDaemonInput σ ν)) :
    HandlerKept (Runs.run (tcpDaemonStep deliver send port) ctx inputs) := by
  induction inputs generalizing ctx with
  | nil => exact h
  | cons input inputs ih => exact ih (h.step deliver send port input)

theorem handlerKept_start (s : BusState σ ν) (answer : TcpOpenAnswer) :
    HandlerKept (tcpDaemonStart s answer) := by
  have hinit : TcpKept bcTcpTransportInit [] [] :=
    ⟨fun _ _ => ⟨rfl, fun _ => rfl⟩, by simp, fun h => by cases h⟩
  exact hinit.grow (grows_open bcTcpTransportInit answer)

end Runs

section Arrived

/-- The messages of one connection are those of the frames that arrived in full. -/
def CompleteFrames (carried : List WireMessage) (stream : List UInt8) (msgs : List BcMessage) :
    Prop :=
  ∃ done tail, Framing.Cut WireMessage.frame carried stream done tail ∧
    List.Forall₂ (fun msg (m : WireMessage) => msg.Same m.val) msgs done

/-- The messages handed to the bus are the complete frames of each connection,
in order. -/
def ConnectionsApart (carried : List (List WireMessage)) (arrived : List (List UInt8))
    (inbound : List BcMessage) : Prop :=
  ∃ groups, inbound = groups.flatten ∧ List.Forall₂
    (fun (c : List WireMessage × List UInt8) group => CompleteFrames c.1 c.2 group)
    (carried.zip arrived) groups

/-- What arrived on each connection is the beginning of a sequence of frames. -/
def Carries (carried : List (List WireMessage)) (arrived : List (List UInt8)) : Prop :=
  List.Forall₂ (fun (msgs : List WireMessage) stream => stream <+: msgs.flatMap WireMessage.frame)
    carried arrived

/-- What was read on each connection is the beginning of what arrived on it. -/
def ReadInOrder (streams arrived : List (List UInt8)) : Prop :=
  List.Forall₂ (fun stream bytes => stream <+: bytes) streams arrived

/-- The bytes of a connection that are left unread complete no frame. -/
def FramesRead (stream arrived : List UInt8) : Prop := framesIn arrived = framesIn stream

instance (stream arrived : List UInt8) : Decidable (FramesRead stream arrived) :=
  inferInstanceAs (Decidable (_ = _))

/-- A stream of frames is sound, and its frames are those that arrived in full. -/
theorem framesIn_of_isPrefix {msgs : List WireMessage} {stream : List UInt8}
    (h : stream <+: msgs.flatMap WireMessage.frame) :
    Sound stream ∧ CompleteFrames msgs stream (framesIn stream) := by
  obtain ⟨done, tail, hcut⟩ := Framing.exists_cut WireMessage.frame msgs stream h
  have hdrain : Framing.drainAll scanFrame stream = (done.map WireMessage.received, tail, true) :=
    Framing.drain_of_cut scanFrame_reads hcut _ le_rfl
  refine ⟨by rw [Sound, hdrain], done, tail, hcut, ?_⟩
  rw [framesIn, hdrain, List.forall₂_map_left_iff]
  exact List.forall₂_same.mpr fun m _ => m.received_same

theorem CompleteFrames.length_eq {msgs : List WireMessage} {stream : List UInt8}
    {group : List BcMessage} (h : CompleteFrames msgs stream group) :
    group.length = (framesIn stream).length := by
  obtain ⟨done, tail, hcut, hsame⟩ := h
  have hdrain : Framing.drainAll scanFrame stream = (done.map WireMessage.received, tail, true) :=
    Framing.drain_of_cut scanFrame_reads hcut _ le_rfl
  rw [hsame.length_eq, framesIn, hdrain, List.length_map]

theorem Carries.sound {carried : List (List WireMessage)} {arrived : List (List UInt8)}
    (h : Carries carried arrived) : ∀ s ∈ arrived, Sound s := by
  induction h with
  | nil => simp
  | cons hfirst _ ih =>
    intro s hs
    rcases List.mem_cons.mp hs with rfl | hs
    · exact (framesIn_of_isPrefix hfirst).1
    · exact ih s hs

theorem Carries.completeFrames {carried : List (List WireMessage)} {arrived : List (List UInt8)}
    (h : Carries carried arrived) :
    List.Forall₂ (fun (c : List WireMessage × List UInt8) group => CompleteFrames c.1 c.2 group)
      (carried.zip arrived) (arrived.map framesIn) := by
  induction h with
  | nil => exact .nil
  | cons hfirst _ ih => exact .cons (framesIn_of_isPrefix hfirst).2 ih

/-- As many messages as there are complete frames. -/
theorem ConnectionsApart.length_eq {carried : List (List WireMessage)}
    {arrived : List (List UInt8)} {inbound : List BcMessage} (hcarries : Carries carried arrived)
    (h : ConnectionsApart carried arrived inbound) :
    inbound.length = (arrived.flatMap framesIn).length := by
  obtain ⟨groups, rfl, hgroups⟩ := h
  induction hcarries generalizing groups with
  | nil =>
    cases hgroups
    rfl
  | cons _ _ ih =>
    obtain ⟨group, rest, hfirst, hrest, rfl⟩ := List.forall₂_cons_left_iff.mp hgroups
    rw [List.flatten_cons, List.flatMap_cons, List.length_append, List.length_append,
      ih rest hrest, hfirst.length_eq]

/-- The frames of what was read come first among those of what arrived. -/
theorem framesIn_isPrefix {stream arrived : List UInt8} (hread : stream <+: arrived)
    (hsound : Sound arrived) : framesIn stream <+: framesIn arrived := by
  obtain ⟨unread, rfl⟩ := hread
  have hframes : framesIn (stream ++ unread) =
      framesIn stream ++ (Framing.drainAll scanFrame (tailIn stream ++ unread)).1 := by
    rw [framesIn, drainAll_tailIn (sound_of_append hsound)]
  exact ⟨_, hframes.symm⟩

theorem length_flatMap_framesIn_le {streams arrived : List (List UInt8)}
    (hread : ReadInOrder streams arrived) (hsound : ∀ s ∈ arrived, Sound s) :
    (streams.flatMap framesIn).length ≤ (arrived.flatMap framesIn).length := by
  induction hread with
  | nil => exact le_rfl
  | cons hfirst _ ih =>
    have hrest := ih fun s hs => hsound s (List.mem_cons_of_mem _ hs)
    have hle := (framesIn_isPrefix hfirst (hsound _ List.mem_cons_self)).length_le
    rw [List.flatMap_cons, List.flatMap_cons, List.length_append, List.length_append]
    omega

/-- If as many frames were read as arrived, all of them were read on each connection. -/
theorem framesRead_of_length_eq {streams arrived : List (List UInt8)}
    (hread : ReadInOrder streams arrived) (hsound : ∀ s ∈ arrived, Sound s)
    (hlen : (streams.flatMap framesIn).length = (arrived.flatMap framesIn).length) :
    List.Forall₂ FramesRead streams arrived := by
  induction hread with
  | nil => exact .nil
  | cons hfirst hrest ih =>
    have hsound' : ∀ s ∈ _, Sound s := fun s hs => hsound s (List.mem_cons_of_mem _ hs)
    have hpre := framesIn_isPrefix hfirst (hsound _ List.mem_cons_self)
    have hle := hpre.length_le
    have hle' := length_flatMap_framesIn_le hrest hsound'
    rw [List.flatMap_cons, List.flatMap_cons, List.length_append, List.length_append] at hlen
    exact .cons (hpre.eq_of_length (by omega)).symm (ih hsound' (by omega))

theorem flatMap_framesIn_eq {streams arrived : List (List UInt8)}
    (h : List.Forall₂ FramesRead streams arrived) :
    arrived.flatMap framesIn = streams.flatMap framesIn := by
  induction h with
  | nil => rfl
  | cons hfirst _ ih => rw [List.flatMap_cons, List.flatMap_cons, hfirst, ih]

end Arrived

/-- A message that asks for an acknowledgement. -/
def ackedWireMessage : WireMessage :=
  ⟨{ plainMessage with qos := bcQosAtLeastOnce }, by decide +kernel⟩

/-- A bus without subscribers and routes. -/
def bareBus : BusState Unit Unit :=
  ⟨⟨[], ⟨[], [], []⟩, 1, 0, false, false, bcStatsReset⟩, bcReasmInit, (), ()⟩

/-- A server accepts a connection and reads from it. -/
def acceptEvent (fd : ℕ) (sends : List IoAnswers) (reads : List (List UInt8)) :
    TcpDaemonInput Unit Unit :=
  .event ⟨[], [.client fd], true, ⟨[], true, true, true⟩⟩ sends
    ⟨3, ⟨true, false, false, false⟩, reads.map .bytes ++ [.again]⟩

def serverRun (inputs : List (TcpDaemonInput Unit Unit)) : TcpDaemon Unit Unit :=
  Runs.run (tcpDaemonStep (fun _ _ _ => (⟨.ok, true⟩, ())) (fun _ _ _ => (.io, ())) 0)
    (tcpDaemonStart bareBus (.server 3)) inputs

/-- The acknowledgement of the first frame meets a broken connection; bytes of a second
frame stay in its socket. A publish follows, and a connection with a frame and a part. -/
def ackFails : List (TcpDaemonInput Unit Unit) :=
  [acceptEvent 7 [⟨[.error], true, true, true⟩] [ackedWireMessage.frame],
    .publish [] 4 plainMessage,
    acceptEvent 7 [] [plainWireMessage.frame ++ plainWireMessage.frame.take 20]]

/-- A connection that the peer closes inside a frame, and one that carries a frame. -/
def afterPartial : List (TcpDaemonInput Unit Unit) :=
  [acceptEvent 7 [] [plainWireMessage.frame.take 20],
    .event TcpAnswers.silent [] ⟨7, ⟨true, false, false, false⟩, [.bytes []]⟩,
    acceptEvent 7 [] [plainWireMessage.frame]]

/-- A connection that is accepted before its frame arrives, and is reset behind it. -/
def hungUp : List (TcpDaemonInput Unit Unit) :=
  [acceptEvent 7 [] [],
    .event TcpAnswers.silent [] ⟨7, ⟨true, false, true, true⟩, [.bytes plainWireMessage.frame]⟩]

/-- A connection whose frame has arrived when another client is accepted. -/
def replaced : List (TcpDaemonInput Unit Unit) := [acceptEvent 7 [] [], acceptEvent 8 [] []]

end BoardComm
