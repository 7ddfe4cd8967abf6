import BoardComm.ClientDraining

/-!
# The turns of an event

An event on a client socket is a list of turns: a pass of a loop over one client
and one answer of the system, after which the client is closed if that failed.
Between two turns the code holds nothing but the manager, so what every turn
keeps holds wherever a loop of `on_client_event` stands.
-/
namespace BoardComm

open SendQueue (WriteOutcome)

/-- A turn, with the answers of the system that it sees. -/
inductive Turn
  | resume (fd : ℤ) (env : ClientEnv)
  | read (fd : ℤ) (env : ClientEnv) (data : List UInt8)
  | ring (fd : ℤ) (env : ClientEnv) (data stale : List UInt8)
  | flush (fd : ℤ) (watch : Bool) (writes : List WriteOutcome)
  | close (fd : ℤ)
  | deliver (fd : ℤ) (watch : ℤ → Bool) (data : List UInt8)

variable {ν : Type*} (send : ℕ → List UInt8 → ν → BcStatus × ν)

section Turns

/-- The bytes that a read takes up. -/
def BcClient.taken (client : BcClient) (data : List UInt8) : List UInt8 :=
  data.take (bcClientRxCap - client.rx.length)

def ClientManager.turn (m : ClientManager ν) : Turn → ClientManager ν
  | .resume fd env => resumeClient send env m fd
  | .read fd env data =>
    match findClient m.clients fd with
    | none => m
    | some client =>
      closeOnError fd (processMessages send env (appendRx m fd (client.taken data))
        (client.addRx (client.taken data)))
  | .ring fd env data stale =>
    match findClient m.clients fd with
    | none => m
    | some client =>
      closeOnError fd (processFrameBuffer send env m client (data ++ stale) data.length)
  | .flush fd watch writes =>
    match findClient m.clients fd with
    | none => m
    | some client =>
      let r := flushClientTx watch writes client
      if r.1 ≠ .ok then closeClient { m with clients := setClient m.clients r.2 } fd
      else { m with clients := setClient m.clients r.2 }
  | .close fd => closeClient m fd
  | .deliver fd watch data => { m with clients := (deliverToClient watch fd data m.clients).2 }

variable (env : ClientEnv)

/-- The turns of `resume_pending_publishers`. -/
def resumeTurns (m : ClientManager ν) : List Turn := m.clients.map fun c => .resume c.fd env

/-- The turns of `drain_client_shm`. -/
def drainTurns (fd : ℤ) : List RingRead → ClientManager ν → List Turn
  | [], _ => []
  | answer :: answers, m =>
    match findClient m.clients fd with
    | none => []
    | some client =>
      match answer with
      | .status rc => if rc = .notFound ∨ rc = .ok ∨ rc = .nomem then [] else [.close fd]
      | .frame data stale =>
        let r := processFrameBuffer send env m client (data ++ stale) data.length
        .ring fd env data stale :: if r.1 = .ok then drainTurns fd answers r.2 else []

/-- The turns of `drain_client_shm`, where there is a session. -/
def sessionTurns (m : ClientManager ν) (fd : ℤ) (ring : List RingRead) : List Turn :=
  match findClient m.clients fd with
  | none => []
  | some client => if client.shm = none then [] else drainTurns send env fd ring m

/-- The turns of the read loop. -/
def readTurns (fd : ℤ) : List RecvAnswer → List RingRead → ClientManager ν → List Turn
  | [], _, _ => []
  | answer :: answers, ring, m =>
    match findClient m.clients fd with
    | none => []
    | some client =>
      if client.rx.length ≥ bcClientRxCap then []
      else
        match answer with
        | .again => []
        | .error => [.close fd]
        | .eintr => readTurns fd answers ring m
        | .bytes data =>
          if data = [] then [.close fd]
          else
            let r := processMessages send env (appendRx m fd (client.taken data))
              (client.addRx (client.taken data))
            .read fd env data ::
              if r.1 = .ok then
                let drained := drainClientShm send env r.2 fd ring
                sessionTurns send env r.2 fd ring ++
                  if drained.1 = .ok then readTurns fd answers drained.2.2 drained.2.1 else []
              else if r.1 = .nomem then resumeTurns env r.2
              else []

/-- The turns of `on_client_event` behind its flush. -/
def readEventTurns (m : ClientManager ν) (fd : ℤ) (events : EpollEvents) (reads : List RecvAnswer)
    (ring : List RingRead) : List Turn :=
  let drained := drainClientShm send env m fd ring
  sessionTurns send env m fd ring ++
    if drained.1 = .nomem then resumeTurns env drained.2.1
    else if drained.1 ≠ .ok then []
    else if (events.epollhup = true ∨ events.epollerr = true) ∧ events.epollin = false then
      [.close fd]
    else readTurns send env fd reads drained.2.2 drained.2.1

/-- The turns of an event. -/
def eventTurns (m : ClientManager ν) : ManagerEvent → List Turn
  | .client fd events env writes reads ring =>
    match findClient m.clients fd with
    | none => []
    | some client =>
      if events.epollout = true then
        let r := flushClientTx (env.watch fd) writes client
        let flushed := { m with clients := setClient m.clients r.2 }
        .flush fd (env.watch fd) writes ::
          if r.1 ≠ .ok then []
          else resumeTurns env flushed ++
            readEventTurns send env (resumePendingPublishers send env flushed) fd events reads ring
      else readEventTurns send env m fd events reads ring
  | .deliver fd watch data => [.deliver fd watch data]

/-- The turns of a run. -/
def runTurns : ClientManager ν → List ManagerEvent → List Turn
  | _, [] => []
  | m, event :: events => eventTurns send m event ++ runTurns (m.step send event) events

end Turns

section Equations

variable (env : ClientEnv) (m : ClientManager ν)

theorem closeOnError_kept {fd : ℤ} {r : BcStatus × ClientManager ν}
    (h : r.1 = .ok ∨ r.1 = .nomem) : closeOnError fd r = r.2 := if_pos h

theorem closeOnError_closed {fd : ℤ} {r : BcStatus × ClientManager ν} (hok : r.1 ≠ .ok)
    (hnomem : r.1 ≠ .nomem) : closeOnError fd r = closeClient r.2 fd :=
  if_neg (not_or.mpr ⟨hok, hnomem⟩)

theorem run_resumeTurns :
    Runs.run (ClientManager.turn send) m (resumeTurns env m) =
      resumePendingPublishers send env m := by
  unfold Runs.run resumeTurns resumePendingPublishers
  rw [List.foldl_map, List.foldl_map]
  rfl

theorem run_drainTurns (fd : ℤ) (ring : List RingRead) :
    Runs.run (ClientManager.turn send) m (drainTurns send env fd ring m) =
      closeOnError fd ((drainLoop send env fd ring m).1, (drainLoop send env fd ring m).2.1) := by
  induction ring generalizing m with
  | nil => rfl
  | cons answer answers ih =>
    unfold drainTurns drainLoop
    cases hclient : findClient m.clients fd with
    | none => rfl
    | some client =>
      cases answer with
      | status rc =>
        dsimp only
        cases rc <;> rfl
      | frame data stale =>
        dsimp only
        rw [Runs.run_cons]
        have hturn : m.turn send (.ring fd env data stale) = closeOnError fd
            (processFrameBuffer send env m client (data ++ stale) data.length) := by
          simp only [ClientManager.turn, hclient]
        rw [hturn]
        by_cases hok :
            (processFrameBuffer send env m client (data ++ stale) data.length).1 = .ok
        · simp only [if_pos hok]
          rw [closeOnError, if_pos (.inl hok), ih]
        · simp only [if_neg hok]
          rfl

theorem run_sessionTurns (fd : ℤ) (ring : List RingRead) :
    Runs.run (ClientManager.turn send) m (sessionTurns send env m fd ring) =
      closeOnError fd
        ((drainClientShm send env m fd ring).1, (drainClientShm send env m fd ring).2.1) := by
  unfold sessionTurns drainClientShm
  cases findClient m.clients fd with
  | none => rfl
  | some client =>
    dsimp only
    split
    · rfl
    · exact run_drainTurns send env m fd ring

theorem run_readTurns (fd : ℤ) (reads : List RecvAnswer) (ring : List RingRead) :
    Runs.run (ClientManager.turn send) m (readTurns send env fd reads ring m) =
      readClient send env fd reads ring m := by
  induction reads generalizing m ring with
  | nil => rfl
  | cons answer answers ih =>
    unfold readTurns readClient
    cases hclient : findClient m.clients fd with
    | none => rfl
    | some client =>
      dsimp only
      split
      · rfl
      cases answer with
      | again => rfl
      | error => rfl
      | eintr => exact ih m ring
      | bytes data =>
        dsimp only
        split
        · rfl
        rw [Runs.run_cons]
        have hturn : m.turn send (.read fd env data) = closeOnError fd
            (processMessages send env (appendRx m fd (client.taken data))
              (client.addRx (client.taken data))) := by
          simp only [ClientManager.turn, hclient]
        rw [hturn, ← BcClient.taken]
        generalize processMessages send env (appendRx m fd (client.taken data))
          (client.addRx (client.taken data)) = r
        by_cases hok : r.1 = .ok
        · rw [closeOnError_kept (.inl hok), if_pos hok, if_pos hok, Runs.run_append,
            run_sessionTurns]
          generalize drainClientShm send env r.2 fd ring = drained
          by_cases hdrained : drained.1 = .ok
          · rw [closeOnError_kept (.inl hdrained), if_pos hdrained, if_pos hdrained]
            exact ih drained.2.1 drained.2.2
          rw [if_neg hdrained, if_neg hdrained, Runs.run_nil]
          by_cases hnomem : drained.1 = .nomem
          · rw [closeOnError_kept (.inr hnomem), if_pos hnomem]
          · rw [closeOnError_closed hdrained hnomem, if_neg hnomem]
        · by_cases hnomem : r.1 = .nomem
          · rw [closeOnError_kept (.inr hnomem), if_neg hok, if_pos hnomem, if_neg hok,
              if_pos hnomem]
            exact run_resumeTurns send env r.2
          · rw [closeOnError_closed hok hnomem, if_neg hok, if_neg hnomem, if_neg hok,
              if_neg hnomem]
            rfl

theorem run_readEventTurns (fd : ℤ) (events : EpollEvents) (reads : List RecvAnswer)
    (ring : List RingRead) :
    Runs.run (ClientManager.turn send) m (readEventTurns send env m fd events reads ring) =
      readEvent send env m fd events reads ring := by
  unfold readEventTurns readEvent
  rw [Runs.run_append, run_sessionTurns]
  generalize drainClientShm send env m fd ring = drained
  dsimp only
  by_cases hnomem : drained.1 = .nomem
  · rw [closeOnError_kept (.inr hnomem), if_pos hnomem, if_pos hnomem]
    exact run_resumeTurns send env drained.2.1
  rw [if_neg hnomem, if_neg hnomem]
  by_cases hok : drained.1 = .ok
  · rw [closeOnError_kept (.inl hok), if_neg (not_not.mpr hok), if_neg (not_not.mpr hok)]
    split
    · rfl
    · exact run_readTurns send env drained.2.1 fd reads drained.2.2
  · rw [closeOnError_closed hok hnomem, if_pos hok, if_pos hok]
    rfl

/-- An event is its turns. -/
theorem run_eventTurns (event : ManagerEvent) :
    Runs.run (ClientManager.turn send) m (eventTurns send m event) = m.step send event := by
  cases event with
  | deliver fd watch data => rfl
  | client fd events env writes reads ring =>
    simp only [eventTurns, ClientManager.step, onClientEvent]
    cases hclient : findClient m.clients fd with
    | none => rfl
    | some client =>
      dsimp only
      by_cases hout : events.epollout = true
      · rw [if_pos hout, if_pos hout, Runs.run_cons]
        simp only [ClientManager.turn, hclient]
        by_cases hok : (flushClientTx (env.watch fd) writes client).1 = .ok
        · simp only [hok, ne_eq, not_true_eq_false, if_false]
          rw [Runs.run_append, run_resumeTurns, run_readEventTurns]
        · simp only [hok, ne_eq, not_false_eq_true, if_true, Runs.run_nil]
      · rw [if_neg hout, if_neg hout]
        exact run_readEventTurns send env m fd events reads ring

/-- A run is its turns. -/
theorem run_runTurns (events : List ManagerEvent) :
    Runs.run (ClientManager.turn send) m (runTurns send m events) =
      Runs.run (ClientManager.step send) m events := by
  induction events generalizing m with
  | nil => rfl
  | cons event events ih =>
    rw [runTurns, Runs.run_append, run_eventTurns, ih, Runs.run_cons]

end Equations

section Frame

variable {send} {env : ClientEnv} {m m' : ClientManager ν} {client : BcClient} {fd : ℤ}

theorem appendRx_frame (hfds : DistinctFds m.clients) (fd : ℤ) (data : List UInt8) :
    DistinctFds (appendRx m fd data).clients ∧ others fd (appendRx m fd data) = others fd m := by
  constructor
  · apply distinctFds_map hfds
    intro c
    split <;> rfl
  · exact others_update (g := (·.addRx data)) (fun _ => rfl) rfl

/-- The client whose receive buffer a turn is about. -/
def Turn.Reads (fd : ℤ) : Turn → Prop
  | .resume fd' _ | .read fd' _ _ => fd' = fd
  | .ring _ _ _ _ | .flush _ _ _ | .close _ | .deliver _ _ _ => False

/-- Descriptors stay distinct, and a receive buffer stays or its client is closed. -/
structure Frame (fd : ℤ) (m m' : ClientManager ν) : Prop where
  distinct : DistinctFds m'.clients
  buffer : rxOf m'.clients fd = none ∨ rxOf m'.clients fd = rxOf m.clients fd

theorem Frame.of_identities (hfds : DistinctFds m.clients)
    (h : identities m'.clients = identities m.clients) : Frame fd m m' := by
  refine ⟨hfds.of_identities h, .inr ?_⟩
  rw [rxOf_identities, rxOf_identities, h]

theorem rxOf_closeClient (m : ClientManager ν) (fd fd' : ℤ) :
    rxOf (closeClient m fd').clients fd = none ∨
      rxOf (closeClient m fd').clients fd = rxOf m.clients fd := by
  by_cases hfd : fd = fd'
  · rw [hfd]
    left
    rw [rxOf, findClient_closeClient, Option.map_none]
  · exact .inr (rxOf_others hfd (others_closeClient m fd'))

theorem Frame.closeClient (h : Frame fd m m') (fd' : ℤ) : Frame fd m (closeClient m' fd') := by
  refine ⟨distinctFds_closeClient h.distinct fd', ?_⟩
  rcases rxOf_closeClient m' fd fd' with hnone | hsame
  · exact .inl hnone
  · rw [hsame]
    exact h.buffer

theorem Frame.closeOnError {r : BcStatus × ClientManager ν} (h : Frame fd m r.2) (fd' : ℤ) :
    Frame fd m (closeOnError fd' r) := by
  unfold BoardComm.closeOnError
  split
  · exact h
  · exact h.closeClient fd'

variable (send) in
/-- A turn touches one receive buffer only. -/
theorem turn_frame (hfds : DistinctFds m.clients) {t : Turn} (ht : ¬ t.Reads fd) :
    Frame fd m (m.turn send t) := by
  have hrefl : Frame fd m m := ⟨hfds, .inr rfl⟩
  cases t with
  | resume fd' env =>
    change Frame fd m (resumeClient send env m fd')
    unfold resumeClient
    cases hclient : findClient m.clients fd' with
    | none => exact hrefl
    | some client =>
      obtain rfl := (findClient_some hclient).2
      dsimp only
      split
      · exact hrefl
      · obtain ⟨hdistinct, hothers, -⟩ :=
          processMessages_frame send env _ hfds hclient
        have hframe : Frame fd m (processMessages send env m client).2 :=
          ⟨hdistinct, .inr (rxOf_others (Ne.symm ht) hothers)⟩
        exact hframe.closeOnError client.fd
  | read fd' env data =>
    simp only [ClientManager.turn]
    cases hclient : findClient m.clients fd' with
    | none => exact hrefl
    | some client =>
      obtain rfl := (findClient_some hclient).2
      obtain ⟨hfds', hothers⟩ := appendRx_frame hfds client.fd (client.taken data)
      obtain ⟨hdistinct, hothers', -⟩ := processMessages_frame send env
        (client.addRx (client.taken data)) hfds' (findClient_appendRx hclient _)
      have hframe : Frame fd m (processMessages send env (appendRx m client.fd (client.taken data))
          (client.addRx (client.taken data))).2 :=
        ⟨hdistinct, .inr (rxOf_others (Ne.symm ht) (hothers'.trans hothers))⟩
      exact hframe.closeOnError client.fd
  | ring fd' env data stale =>
    simp only [ClientManager.turn]
    cases hclient : findClient m.clients fd' with
    | none => exact hrefl
    | some client =>
      obtain rfl := (findClient_some hclient).2
      have hhandled := processFrameBuffer_handled send env hfds hclient (data ++ stale) data.length
      exact (Frame.of_identities hfds hhandled.identities).closeOnError client.fd
  | flush fd' watch writes =>
    simp only [ClientManager.turn]
    cases hclient : findClient m.clients fd' with
    | none => exact hrefl
    | some client =>
      obtain ⟨hfd, hrx, hconsumed, -⟩ := flushClientTx_identity watch writes client
      have hframe : Frame fd m
          { m with clients := setClient m.clients (flushClientTx watch writes client).2 } :=
        .of_identities hfds (identities_setClient hfds hclient hfd hrx hconsumed)
      dsimp only
      split
      · exact hframe.closeClient fd'
      · exact hframe
  | close fd' => exact hrefl.closeClient fd'
  | deliver fd' watch data =>
    exact .of_identities hfds (identities_deliverToClient hfds watch fd' data)

end Frame

end BoardComm
