import BoardComm.ClientTurns

/-!
# Frames in any number of reads

The bytes of well-formed frames arrive in reads that may end anywhere. As long as
every dispatch succeeds, the frames are dispatched one by one in their order, and
what stands behind a frame in the buffer does not matter to it.
-/
namespace BoardComm

variable {ν : Type*} (send : ℕ → List UInt8 → ν → BcStatus × ν)

section Log

/-- A pass of `process_messages` that hands a request to `process_ipc_payload`: the state
in front of it, the request, the answer and the state behind it. -/
structure DispatchStep (ν : Type*) where
  env : ClientEnv
  before : ClientManager ν
  client : BcClient
  request : ClientRequest
  rc : BcStatus
  after : ClientManager ν

/-- What a pass does is what is done with its request, and a frame that is dealt with is
taken out of the buffer. -/
def DispatchStep.Handled (s : DispatchStep ν) : Prop :=
  let r := handleRequest send s.env s.before s.client s.request
  s.rc = r.1 ∧
    s.after = if r.1 = .ok then consumeFrame r.2 s.client.fd s.client.header.frameLen else r.2

/-- The passes of `process_messages` that dispatch a frame. -/
def messagesLog (env : ClientEnv) (fd : ℤ) :
    ℕ → ClientManager ν → List (DispatchStep ν)
  | 0, _ => []
  | rounds + 1, m =>
    match findClient m.clients fd with
    | none => []
    | some client =>
      match headDispatch client with
      | .error _ => []
      | .ok d =>
        let r := processOneMessage send env m client
        ⟨env, m, client, d.request, r.1, r.2⟩ ::
          if r.1 = .ok then messagesLog env fd rounds r.2 else []

/-- What a turn dispatches from the receive buffer of a client. -/
def turnLog (fd : ℤ) (m : ClientManager ν) (t : Turn) : List (DispatchStep ν) :=
  match findClient m.clients fd, t with
  | some client, .resume fd' env =>
    if fd' = fd then messagesLog send env fd client.rx.length m else []
  | some client, .read fd' env data =>
    if fd' = fd then
      messagesLog send env fd (client.addRx (client.taken data)).rx.length
        (appendRx m fd (client.taken data))
    else []
  | _, _ => []

/-- What a turn reads from the socket of a client. -/
def turnReceived (fd : ℤ) (m : ClientManager ν) (t : Turn) : List UInt8 :=
  match findClient m.clients fd, t with
  | some client, .read fd' _ data => if fd' = fd then client.taken data else []
  | _, _ => []

/-- A dispatched frame is handled as its request says. -/
theorem messagesLog_handled (env : ClientEnv) (fd : ℤ) (rounds : ℕ) (m : ClientManager ν) :
    ∀ s ∈ messagesLog send env fd rounds m, s.Handled send := by
  induction rounds generalizing m with
  | zero => simp [messagesLog]
  | succ rounds ih =>
    intro s hs
    cases hclient : findClient m.clients fd with
    | none => simp [messagesLog, hclient] at hs
    | some client =>
      have hone := processOneMessage_eq send env m client
      cases hd : headDispatch client with
      | error rc => simp [messagesLog, hclient, hd] at hs
      | ok d =>
        rw [hd] at hone
        simp only [handleDispatch_eq] at hone
        simp only [messagesLog, hclient, hd, List.mem_cons] at hs
        rcases hs with rfl | hs
        · unfold DispatchStep.Handled
          simp only [hone]
          split_ifs with hok
          · exact ⟨hok.symm, rfl⟩
          · exact ⟨rfl, rfl⟩
        · split_ifs at hs with hok
          · exact ih _ s hs
          · cases hs

theorem turnLog_handled (fd : ℤ) (m : ClientManager ν) (t : Turn) :
    ∀ s ∈ turnLog send fd m t, s.Handled send := by
  intro s hs
  unfold turnLog at hs
  split at hs
  · split_ifs at hs
    · exact messagesLog_handled send _ _ _ _ s hs
    · cases hs
  · split_ifs at hs
    · exact messagesLog_handled send _ _ _ _ s hs
    · cases hs
  · cases hs

end Log

section Partial

variable {client : BcClient} {f : IpcFrame}

variable (f) in
/-- The beginning of a frame is waited on. -/
theorem headDispatch_partial (more : List UInt8) (hrx : f.bytes = client.rx ++ more)
    (hmore : more ≠ []) : headDispatch client = .error .notFound := by
  have hlt : client.rx.length < f.bytes.length := by
    have hpos := List.length_pos_of_ne_nil hmore
    rw [hrx, List.length_append]
    omega
  unfold headDispatch
  by_cases hshort : client.rx.length < IpcHeader.sizeV1
  · rw [if_pos hshort]
  · -- the fields up to the lengths are those of the frame
    have hfront : client.rx.take IpcHeader.sizeV1 = f.header.toBytes.take IpcHeader.sizeV1 := by
      have hsize := sizeV1_le_bcIpcHeaderSize f.version
      have hlong : (client.rx ++ more).take IpcHeader.sizeV1 = client.rx.take IpcHeader.sizeV1 :=
        List.take_append_of_le_length (Nat.not_lt.mp hshort)
      rw [← hlong, ← hrx, IpcFrame.bytes,
        List.take_append_of_le_length (by rw [f.header_take_length]; exact hsize),
        List.take_take, Nat.min_eq_left hsize]
    have hagrees := f.header.ofBytes_take_append
      (client.rx.drop IpcHeader.sizeV1 ++ client.stale)
    rw [← hfront, ← List.append_assoc, List.take_append_drop] at hagrees
    have hmagic : client.header.magic = bcIpcMagic := hagrees.magic
    have hlen : client.header.frameLen = f.bytes.length :=
      hagrees.frameLen.trans f.total_header
    rw [if_neg hshort, if_neg (not_not.mpr hmagic), if_pos (by rw [hlen]; exact hlt)]

/-- A window of a stream begins with the first frame of it, or with a part of the frame
that is waited on. -/
theorem headDispatch_window {rest stream : List UInt8}
    (hrx : client.rx ++ rest = f.bytes ++ stream) :
    (∃ tail, client.rx = f.bytes ++ tail ∧ tail ++ rest = stream) ∨
      headDispatch client = .error .notFound := by
  rcases List.append_eq_append_iff.mp hrx with ⟨more, hfront, hrest⟩ | ⟨tail, hfront, hrest⟩
  · by_cases hmore : more = []
    · subst hmore
      exact .inl ⟨[], by rw [List.append_nil, hfront, List.append_nil], hrest⟩
    · have hwaits := headDispatch_partial f more hfront hmore
      exact .inr hwaits
  · exact .inl ⟨tail, hfront, hrest.symm⟩

end Partial

section Calls

variable {send} {env : ClientEnv} {m : ClientManager ν} {client : BcClient} {fd : ℤ}

variable (send env) in
/-- Nothing is dispatched where more bytes are waited for. -/
theorem processMessagesLoop_waits (hclient : findClient m.clients fd = some client)
    (hd : headDispatch client = .error .notFound) (rounds : ℕ) :
    messagesLog send env fd rounds m = [] ∧
      processMessagesLoop send env fd rounds m = (.ok, m) := by
  cases rounds with
  | zero => exact ⟨rfl, rfl⟩
  | succ rounds =>
    have hone := processOneMessage_eq send env m client
    rw [hd] at hone
    constructor
    · simp only [messagesLog, hclient, hd]
    · simp only [processMessagesLoop, hclient, hone, reduceCtorEq, if_false, if_true]

/-- A call dispatches the frames that are whole, and leaves the beginning of the rest. -/
def Advances (send : ℕ → List UInt8 → ν → BcStatus × ν) (env : ClientEnv) (fd : ℤ) (rounds : ℕ)
    (m : ClientManager ν) (frames : List IpcFrame) (rest : List UInt8) : Prop :=
  ∃ done todo m' c, frames = done ++ todo ∧
    (messagesLog send env fd rounds m).map (·.request) = done.map (·.dispatch.request) ∧
    processMessagesLoop send env fd rounds m = (.ok, m') ∧ DistinctFds m'.clients ∧
    findClient m'.clients fd = some c ∧ c.rx ++ rest = todo.flatMap IpcFrame.bytes ∧
    headDispatch c = .error .notFound

theorem advances_of_waits {frames : List IpcFrame} {rest : List UInt8} (rounds : ℕ)
    (hfds : DistinctFds m.clients) (hclient : findClient m.clients fd = some client)
    (hrx : client.rx ++ rest = frames.flatMap IpcFrame.bytes)
    (hd : headDispatch client = .error .notFound) :
    Advances send env fd rounds m frames rest := by
  obtain ⟨hlog, hloop⟩ := processMessagesLoop_waits send env hclient hd rounds
  exact ⟨[], frames, m, client, rfl, by rw [hlog]; rfl, hloop, hfds, hclient, hrx, hd⟩

variable (send env client) in
theorem processMessagesLoop_advances {frames : List IpcFrame} {rest : List UInt8} (rounds : ℕ)
    (hfds : DistinctFds m.clients) (hclient : findClient m.clients fd = some client)
    (hrx : client.rx ++ rest = frames.flatMap IpcFrame.bytes)
    (hrounds : client.rx.length ≤ rounds)
    (hok : ∀ e ∈ messagesLog send env fd rounds m, e.rc = .ok) :
    Advances send env fd rounds m frames rest := by
  induction frames generalizing m client rounds with
  | nil =>
    apply advances_of_waits rounds hfds hclient hrx
    have hnil : client.rx = [] := (List.append_eq_nil_iff.mp hrx).1
    unfold headDispatch
    rw [hnil, if_pos (by decide)]
  | cons f frames ih =>
    rw [List.flatMap_cons] at hrx
    rcases headDispatch_window hrx with ⟨tail, hsplit, hrest⟩ | hd
    · -- the frame is whole
      obtain ⟨d, hd, hsame, hframeLen⟩ := headDispatch_frame hsplit
      have hpos := f.topic_pos
      have hbytes := f.bytes_length
      have hlong : client.rx.length = f.bytes.length + tail.length := by
        rw [hsplit, List.length_append]
      obtain ⟨rounds, rfl⟩ : ∃ k, rounds = k + 1 := ⟨rounds - 1, by omega⟩
      have hlog : messagesLog send env fd (rounds + 1) m =
          ⟨env, m, client, d.request, (processOneMessage send env m client).1,
            (processOneMessage send env m client).2⟩ ::
            if (processOneMessage send env m client).1 = .ok then
              messagesLog send env fd rounds (processOneMessage send env m client).2
            else [] := by
        simp only [messagesLog, hclient, hd]
      rw [hlog] at hok
      have hone : (processOneMessage send env m client).1 = .ok := hok _ List.mem_cons_self
      rw [if_pos hone] at hok
      have htakes : Takes send env fd m (processOneMessage send env m client).2 :=
        ⟨client, hclient, by rw [← hone]⟩
      obtain ⟨c, hc, hcrx, -⟩ := htakes.rest hfds hclient
      rw [hframeLen] at hcrx
      have hctail : c.rx = tail := by rw [hcrx, hsplit, List.drop_left]
      have hloop : processMessagesLoop send env fd (rounds + 1) m =
          processMessagesLoop send env fd rounds (processOneMessage send env m client).2 := by
        simp only [processMessagesLoop, hclient, hone, if_true]
      have hclen : c.rx.length ≤ rounds := by
        rw [hctail]
        omega
      obtain ⟨done, todo, m', c', hframes, hdone, hresult⟩ := ih _ rounds (htakes.frame hfds).1 hc
        (hctail ▸ hrest) hclen fun e he => hok e (List.mem_cons_of_mem _ he)
      refine ⟨f :: done, todo, m', c', by rw [hframes]; rfl, ?_, by rw [hloop]; exact hresult⟩
      rw [hlog, if_pos hone, List.map_cons, List.map_cons, hdone, hsame.request]
    · exact advances_of_waits rounds hfds hclient (by rw [List.flatMap_cons]; exact hrx) hd

end Calls

section Reads

variable {send} {m : ClientManager ν} {client : BcClient} {fd : ℤ}

variable (send m) in
/-- A turn that leaves the receive buffer alone shows nothing of it. -/
theorem turn_sees_nothing {t : Turn} (ht : ¬ t.Reads fd) :
    turnLog send fd m t = [] ∧ turnReceived fd m t = [] := by
  unfold turnLog turnReceived
  cases findClient m.clients fd with
  | none => exact ⟨rfl, rfl⟩
  | some client =>
    cases t with
    | resume fd' env => exact ⟨if_neg ht, rfl⟩
    | read fd' env data => exact ⟨if_neg ht, if_neg ht⟩
    | ring | flush | close | deliver => exact ⟨rfl, rfl⟩

theorem rxOf_eq_none : rxOf m.clients fd = none ↔ findClient m.clients fd = none :=
  Option.map_eq_none_iff

variable (send) in
/-- A client that is gone stays gone. -/
theorem turn_absent (hfds : DistinctFds m.clients) (hnone : findClient m.clients fd = none)
    (t : Turn) :
    DistinctFds (m.turn send t).clients ∧ findClient (m.turn send t).clients fd = none := by
  by_cases ht : t.Reads fd
  · have hsame : m.turn send t = m := by
      cases t with
      | resume fd' env =>
        obtain rfl : fd' = fd := ht
        simp only [ClientManager.turn, resumeClient, hnone]
      | read fd' env data =>
        obtain rfl : fd' = fd := ht
        simp only [ClientManager.turn, hnone]
      | ring | flush | close | deliver => exact ht.elim
    rw [hsame]
    exact ⟨hfds, hnone⟩
  · obtain ⟨hdistinct, hbuffer⟩ := turn_frame send hfds ht
    rw [rxOf_eq_none.mpr hnone, or_self] at hbuffer
    exact ⟨hdistinct, rxOf_eq_none.mp hbuffer⟩

variable (send) in
theorem collect_absent (hfds : DistinctFds m.clients) (hnone : findClient m.clients fd = none)
    (turns : List Turn) :
    Runs.collect (ClientManager.turn send) (turnLog send fd) m turns = [] ∧
      Runs.collect (ClientManager.turn send) (turnReceived fd) m turns = [] := by
  induction turns generalizing m with
  | nil => exact ⟨rfl, rfl⟩
  | cons t turns ih =>
    obtain ⟨hfds', hnone'⟩ := turn_absent send hfds hnone t
    obtain ⟨hlog, hreceived⟩ := ih hfds' hnone'
    unfold Runs.collect
    rw [hlog, hreceived]
    simp only [turnLog, turnReceived, hnone, List.append_nil, and_self]

/-- No frame is left when all the bytes are in the buffer and nothing is dispatched. -/
theorem frames_eq_nil {frames : List IpcFrame} (hd : headDispatch client = .error .notFound)
    (hrx : client.rx = frames.flatMap IpcFrame.bytes) : frames = [] := by
  cases frames with
  | nil => rfl
  | cons f frames =>
    obtain ⟨d, hframe, -⟩ := headDispatch_frame (hrx.trans List.flatMap_cons)
    rw [hd] at hframe
    cases hframe

theorem collect_frames {frames : List IpcFrame} (turns : List Turn)
    (hfds : DistinctFds m.clients) (hclient : findClient m.clients fd = some client)
    (hd : headDispatch client = .error .notFound)
    (hrx : client.rx ++ Runs.collect (ClientManager.turn send) (turnReceived fd) m turns =
      frames.flatMap IpcFrame.bytes)
    (hok : ∀ e ∈ Runs.collect (ClientManager.turn send) (turnLog send fd) m turns, e.rc = .ok) :
    (Runs.collect (ClientManager.turn send) (turnLog send fd) m turns).map (·.request) =
      frames.map (·.dispatch.request) := by
  induction turns generalizing m client frames with
  | nil =>
    rw [Runs.collect, List.append_nil] at hrx
    rw [frames_eq_nil hd hrx]
    rfl
  | cons t turns ih =>
    unfold Runs.collect at hrx hok ⊢
    by_cases ht : t.Reads fd
    · cases t with
      | resume fd' env =>
        obtain rfl : fd' = fd := ht
        obtain ⟨hlog, hloop⟩ :=
          processMessagesLoop_waits send env hclient hd client.rx.length
        have hturn : m.turn send (.resume fd' env) = m := by
          simp only [ClientManager.turn, resumeClient, hclient, processMessages]
          rw [(findClient_some hclient).2, hloop, closeOnError_kept (.inl rfl), ite_self]
        have hsees : turnLog send fd' m (.resume fd' env) = [] ∧
            turnReceived fd' m (.resume fd' env) = [] := by
          simp only [turnLog, turnReceived, hclient, hlog, if_true, and_self]
        rw [hturn, hsees.2, List.nil_append] at hrx
        rw [hturn, hsees.1, List.nil_append] at hok ⊢
        exact ih hfds hclient hd hrx hok
      | read fd' env data =>
        obtain rfl : fd' = fd := ht
        have hsees : turnLog send fd' m (.read fd' env data) =
              messagesLog send env fd' (client.addRx (client.taken data)).rx.length
                (appendRx m fd' (client.taken data)) ∧
            turnReceived fd' m (.read fd' env data) = client.taken data := by
          simp only [turnLog, turnReceived, hclient, if_true, and_self]
        rw [hsees.1] at hok ⊢
        rw [hsees.2, ← List.append_assoc] at hrx
        obtain ⟨done, todo, m', c, rfl, hdone, hloop, hfds', hc, hcrx, hcd⟩ :=
          processMessagesLoop_advances send env (client.addRx (client.taken data)) _
            (appendRx_frame hfds fd' (client.taken data)).1
            (findClient_appendRx hclient (client.taken data)) hrx (le_refl _)
            fun e he => hok e (List.mem_append_left _ he)
        have hturn : m.turn send (.read fd' env data) = m' := by
          have hfd : (client.addRx (client.taken data)).fd = fd' := (findClient_some hclient).2
          simp only [ClientManager.turn, hclient, processMessages]
          rw [hfd, hloop, closeOnError_kept (.inl rfl)]
        rw [hturn] at hcrx hok ⊢
        rw [List.map_append, List.map_append, hdone,
          ih hfds' hc hcd hcrx fun e he => hok e (List.mem_append_right _ he)]
      | ring | flush | close | deliver => exact ht.elim
    · obtain ⟨hlog, hreceived⟩ := turn_sees_nothing send m ht
      obtain ⟨hfds', hbuffer⟩ := turn_frame send hfds ht
      rw [hreceived, List.nil_append] at hrx
      rw [hlog, List.nil_append] at hok ⊢
      rcases hbuffer with hnone | hsame
      · -- the client is closed, so everything was dispatched
        obtain ⟨hlog', hreceived'⟩ :=
          collect_absent send hfds' (rxOf_eq_none.mp hnone) turns
        rw [hreceived', List.append_nil] at hrx
        rw [hlog', frames_eq_nil hd hrx]
        rfl
      · obtain ⟨c, hc, hcrx⟩ : ∃ c, findClient (m.turn send t).clients fd = some c ∧
            c.rx = client.rx := by
          rw [rxOf, rxOf, hclient, Option.map_some, Option.map_eq_some_iff] at hsame
          exact hsame
        have hcd : headDispatch c = .error .notFound := by
          rw [headDispatch_waits_iff, hcrx]
          exact headDispatch_waits_iff.mp hd
        rw [← hcrx] at hrx
        exact ih hfds' hc hcd hrx hok

/-- However the bytes of the frames are read, and whatever happens to other clients in
between, the frames are dispatched once each and in order, and each is dealt with as its
own request says. -/
theorem frames_in_any_chunks (send : ℕ → List UInt8 → ν → BcStatus × ν) (m : ClientManager ν)
    (fd : ℤ) (client : BcClient) (frames : List IpcFrame) (turns : List Turn)
    (hfds : DistinctFds m.clients) (hclient : findClient m.clients fd = some client)
    (hrx : client.rx = [])
    (hreceived : Runs.collect (ClientManager.turn send) (turnReceived fd) m turns =
      frames.flatMap IpcFrame.bytes)
    (hok : ∀ s ∈ Runs.collect (ClientManager.turn send) (turnLog send fd) m turns, s.rc = .ok) :
    (Runs.collect (ClientManager.turn send) (turnLog send fd) m turns).map (·.request) =
        frames.map (·.dispatch.request) ∧
      ∀ s ∈ Runs.collect (ClientManager.turn send) (turnLog send fd) m turns,
        s.Handled send := by
  constructor
  · apply collect_frames turns hfds hclient ?_ ?_ hok
    · unfold headDispatch
      rw [hrx, if_pos (by decide)]
    · rw [hrx]
      exact hreceived
  · exact Runs.forall_mem_collect (fun m t => turnLog_handled send fd m t) m turns

theorem olderFrame_channel_lt : ([] : List UInt8).length < bcMaxChannelLen := by decide

theorem olderFrame_topic_ne : ([0x74] : List UInt8) ≠ [] := by simp

theorem olderFrame_topic_lt : ([0x74] : List UInt8).length < bcMaxTopicLen := by decide

theorem olderFrame_payload_le : ([] : List UInt8).length ≤ bcMaxPayloadLen := by decide

/-- A SUBSCRIBE frame of a version 1 client. -/
def olderFrame : IpcFrame :=
  { version := 1, type := bcIpcSubscribe, dstNode := 0, qos := 0, flags := 0, seq := 0,
    channel := [], topic := [0x74], payload := [], channel_lt := olderFrame_channel_lt,
    topic_ne := olderFrame_topic_ne, topic_lt := olderFrame_topic_lt,
    payload_le := olderFrame_payload_le }

/-- Both frames in two reads, the first of which ends in the second frame. -/
def splitTurns : List Turn :=
  [.read 4 quietEnv ((olderFrame.bytes ++ tFrame.bytes).take 30), .deliver 5 (fun _ => true) [],
    .read 4 quietEnv ((olderFrame.bytes ++ tFrame.bytes).drop 30)]

theorem frames_in_any_chunks_split :
    let log := Runs.collect (ClientManager.turn noSend) (turnLog noSend 4) tManager splitTurns
    log.map (·.request) = [.subscribe [0x74], .publish (tMessage 0)] ∧
      ∀ s ∈ log, s.Handled noSend := by
  have hrequests : [olderFrame, tFrame].map (·.dispatch.request) =
      [.subscribe [0x74], .publish (tMessage 0)] := by
    decide +kernel
  rw [← hrequests]
  exact frames_in_any_chunks noSend tManager 4 ⟨4, [], [], 0, [], none, 0⟩ [olderFrame, tFrame]
    splitTurns tManager_fresh.distinct rfl rfl (by decide +kernel) (by decide +kernel)

end Reads

end BoardComm
