import BoardComm.ClientTurns

/-!
# The life of a client record

`close_client` frees the record of a client, which `resume_pending_publishers`
reads once more to find the next one. The functions are given again with a check:
they stop at the first use of a record that is no longer in the list of clients.
-/
namespace BoardComm

open SendQueue (WriteOutcome)

section Checks

variable {α β : Type*}

/-- A computation that gives the value when the condition holds, and else stops. -/
structure ChecksFor (P : Prop) (o : Option α) (a : α) : Prop where
  holds : P → o = some a
  fails : ¬ P → o = none

theorem ChecksFor.some {P : Prop} (hP : P) (a : α) : ChecksFor P (Option.some a) a :=
  ⟨fun _ => rfl, fun h => absurd hP h⟩

theorem ChecksFor.bind {P Q : Prop} {o : Option α} {a : α} {f : α → Option β} {b : β}
    (h : ChecksFor P o a) (hf : P → ChecksFor Q (f a) b) : ChecksFor (P ∧ Q) (o.bind f) b := by
  constructor
  · rintro ⟨hP, hQ⟩
    rw [h.holds hP]
    exact (hf hP).holds hQ
  · intro hnot
    by_cases hP : P
    · rw [h.holds hP]
      exact (hf hP).fails fun hQ => hnot ⟨hP, hQ⟩
    · rw [h.fails hP]
      rfl

theorem ChecksFor.congr {P Q : Prop} {o : Option α} {a : α} (h : ChecksFor P o a)
    (hPQ : Q ↔ P) : ChecksFor Q o a :=
  ⟨fun hQ => h.holds (hPQ.mp hQ), fun hQ => h.fails fun hP => hQ (hPQ.mpr hP)⟩

theorem ChecksFor.isSome_iff {P : Prop} {o : Option α} {a : α} (h : ChecksFor P o a) :
    o.isSome = true ↔ P := by
  by_cases hP : P
  · rw [h.holds hP]
    exact iff_of_true rfl hP
  · rw [h.fails hP]
    exact iff_of_false (by simp) hP

end Checks

variable {ν : Type*} (send : ℕ → List UInt8 → ν → BcStatus × ν) (env : ClientEnv)

section Checked

/-- `close_client`, which reads the record that it frees. -/
def closeClientChecked (m : ClientManager ν) (fd : ℤ) : Option (ClientManager ν) :=
  (findClient m.clients fd).bind fun _ => some (closeClient m fd)

/-- The loop of `process_messages`. -/
def processMessagesLoopChecked (fd : ℤ) :
    ℕ → ClientManager ν → Option (BcStatus × ClientManager ν)
  | 0, m => some (.ok, m)
  | rounds + 1, m =>
    (findClient m.clients fd).bind fun client =>
      let r := processOneMessage send env m client
      if r.1 = .ok then processMessagesLoopChecked fd rounds r.2
      else if r.1 = .notFound then some (.ok, r.2)
      else some r

/-- What follows on the result of `process_messages`. -/
def closeOnErrorChecked (fd : ℤ) (r : BcStatus × ClientManager ν) : Option (ClientManager ν) :=
  if r.1 = .ok ∨ r.1 = .nomem then some r.2 else closeClientChecked r.2 fd

/-- The loop of `resume_pending_publishers`: `client->next` is read behind the turn
of the client. -/
def resumeLoopChecked : List ℤ → ClientManager ν → Option (ClientManager ν)
  | [], m => some m
  | fd :: fds, m =>
    (findClient m.clients fd).bind fun client =>
      (if client.rx = [] then some m
        else (processMessagesLoopChecked send env fd client.rx.length m).bind
          (closeOnErrorChecked fd)).bind fun m' =>
        (findClient m'.clients fd).bind fun _ => resumeLoopChecked fds m'

/-- `resume_pending_publishers`. -/
def resumePendingPublishersChecked (m : ClientManager ν) : Option (ClientManager ν) :=
  resumeLoopChecked send env (m.clients.map (·.fd)) m

/-- The loop of `drain_client_shm`. -/
def drainLoopChecked (fd : ℤ) :
    List RingRead → ClientManager ν → Option (BcStatus × ClientManager ν × List RingRead)
  | [], m => some (.ok, m, [])
  | answer :: answers, m =>
    (findClient m.clients fd).bind fun client =>
      match answer with
      | .status rc => some (if rc = .notFound then .ok else rc, m, answers)
      | .frame data stale =>
        let r := processFrameBuffer send env m client (data ++ stale) data.length
        if r.1 = .ok then drainLoopChecked fd answers r.2 else some (r.1, r.2, answers)

/-- `drain_client_shm`. -/
def drainClientShmChecked (m : ClientManager ν) (fd : ℤ) (ring : List RingRead) :
    Option (BcStatus × ClientManager ν × List RingRead) :=
  (findClient m.clients fd).bind fun client =>
    if client.shm = none then some (.ok, m, ring) else drainLoopChecked send env fd ring m

/-- The read loop of `on_client_event`. -/
def readClientChecked (fd : ℤ) :
    List RecvAnswer → List RingRead → ClientManager ν → Option (ClientManager ν)
  | [], _, m => some m
  | answer :: answers, ring, m =>
    (findClient m.clients fd).bind fun client =>
      if client.rx.length ≥ bcClientRxCap then some m
      else
        match answer with
        | .again => some m
        | .error => closeClientChecked m fd
        | .eintr => readClientChecked fd answers ring m
        | .bytes data =>
          if data = [] then closeClientChecked m fd
          else
            (processMessagesLoopChecked send env fd (client.addRx (client.taken data)).rx.length
                (appendRx m fd (client.taken data))).bind fun r =>
              if r.1 = .ok then
                (drainClientShmChecked send env r.2 fd ring).bind fun drained =>
                  if drained.1 = .ok then readClientChecked fd answers drained.2.2 drained.2.1
                  else closeOnErrorChecked fd (drained.1, drained.2.1)
              else if r.1 = .nomem then resumePendingPublishersChecked send env r.2
              else closeClientChecked r.2 fd

/-- `on_client_event`, behind its flush. -/
def readEventChecked (m : ClientManager ν) (fd : ℤ) (events : EpollEvents)
    (reads : List RecvAnswer) (ring : List RingRead) : Option (ClientManager ν) :=
  (drainClientShmChecked send env m fd ring).bind fun drained =>
    if drained.1 = .nomem then resumePendingPublishersChecked send env drained.2.1
    else if drained.1 ≠ .ok then closeClientChecked drained.2.1 fd
    else if (events.epollhup = true ∨ events.epollerr = true) ∧ events.epollin = false then
      closeClientChecked drained.2.1 fd
    else readClientChecked send env fd reads drained.2.2 drained.2.1

/-- `on_client_event`. -/
def onClientEventChecked (m : ClientManager ν) (fd : ℤ) (events : EpollEvents)
    (writes : List WriteOutcome) (reads : List RecvAnswer) (ring : List RingRead) :
    Option (ClientManager ν) :=
  (findClient m.clients fd).bind fun client =>
    if events.epollout = true then
      let r := flushClientTx (env.watch fd) writes client
      let flushed := { m with clients := setClient m.clients r.2 }
      if r.1 ≠ .ok then closeClientChecked flushed fd
      else (resumePendingPublishersChecked send env flushed).bind fun m' =>
        readEventChecked send env m' fd events reads ring
    else readEventChecked send env m fd events reads ring

end Checked

section Quiet

variable {send env} {m m' : ClientManager ν} {client : BcClient} {fd : ℤ}

/-- The head of the receive buffer makes `process_messages` fail: it is malformed, or
its request is answered with an error that is neither backpressure nor a lack of
routes. -/
def FailingHead (send : ℕ → List UInt8 → ν → BcStatus × ν) (env : ClientEnv) (fd : ℤ)
    (m : ClientManager ν) : Prop :=
  ∃ client, findClient m.clients fd = some client ∧
    (headDispatch client = .error .invalid ∨
      ∃ d rc, headDispatch client = .ok d ∧ rc ≠ .ok ∧ rc ≠ .nomem ∧ rc ≠ .notFound ∧
        d.request.Answers send env m client rc)

/-- No head that fails is come to in a call of `process_messages`. -/
def QuietCall (send : ℕ → List UInt8 → ν → BcStatus × ν) (env : ClientEnv) (fd : ℤ)
    (m : ClientManager ν) : Prop :=
  ∀ m', Drains send env fd m m' → ¬ FailingHead send env fd m'

/-- A turn of `resume_pending_publishers` that does not close its client. -/
def Turn.Quiet (send : ℕ → List UInt8 → ν → BcStatus × ν) (m : ClientManager ν) : Turn → Prop
  | .resume fd env => QuietCall send env fd m
  | .read _ _ _ | .ring _ _ _ _ | .flush _ _ _ | .close _ | .deliver _ _ _ => True

/-- Where a message fails. -/
theorem failingHead_iff (hclient : findClient m.clients fd = some client) :
    FailingHead send env fd m ↔ (processOneMessage send env m client).1 ≠ .ok ∧
      (processOneMessage send env m client).1 ≠ .nomem ∧
      (processOneMessage send env m client).1 ≠ .notFound := by
  have hhead : FailingHead send env fd m ↔ headDispatch client = .error .invalid ∨
      ∃ d rc, headDispatch client = .ok d ∧ rc ≠ .ok ∧ rc ≠ .nomem ∧ rc ≠ .notFound ∧
        d.request.Answers send env m client rc := by
    constructor
    · rintro ⟨c, hc, hfails⟩
      obtain rfl : client = c := Option.some.inj (hclient.symm.trans hc)
      exact hfails
    · intro hfails
      exact ⟨client, hclient, hfails⟩
  rw [hhead, processOneMessage_eq]
  cases hd : headDispatch client with
  | error rc =>
    have hrc : rc = .notFound ∨ rc = .invalid := by
      unfold headDispatch at hd
      split_ifs at hd <;> cases hd <;> simp
    rcases hrc with rfl | rfl <;> simp
  | ok d =>
    dsimp only
    have hanswers : ∀ rc, rc ≠ .ok → rc ≠ .nomem →
        ((handleDispatch send env m client d).1 = rc ↔ d.request.Answers send env m client rc) :=
      fun rc => handleDispatch_rc_iff send env m client (payloadLen_of_headDispatch hd)
    constructor
    · rintro (hnone | ⟨d', rc, hd', hok, hnomem, hnot, hrc⟩)
      · cases hnone
      · obtain rfl := Except.ok.inj hd'
        rw [← hanswers rc hok hnomem] at hrc
        rw [if_neg (by rw [hrc]; exact hok), hrc]
        exact ⟨hok, hnomem, hnot⟩
    · intro h
      split at h
      · exact absurd rfl h.1
      · exact .inr ⟨d, _, rfl, h.1, h.2.1, h.2.2, (hanswers _ h.1 h.2.1).mp rfl⟩

variable (send env) in
/-- A call that is not quiet fails. -/
theorem quietCall_iff (hfds : DistinctFds m.clients)
    (hclient : findClient m.clients client.fd = some client) :
    QuietCall send env client.fd m ↔ (processMessages send env m client).1 = .ok ∨
      (processMessages send env m client).1 = .nomem := by
  obtain ⟨m', c, hdrains, hstop, hresult⟩ :=
    processMessages_stops send env hfds hclient
  have hquiet : QuietCall send env client.fd m ↔ ¬ FailingHead send env client.fd m' := by
    constructor
    · intro h
      exact h m' hdrains
    · intro h m'' hdrains'' hfails
      have hfound := hfails
      obtain ⟨c'', hc'', -⟩ := hfound
      have hstop'' : Stops send env client.fd m'' c'' :=
        ⟨hc'', ((failingHead_iff hc'').mp hfails).1⟩
      obtain ⟨rfl, -⟩ := hstop.unique hdrains hstop'' hdrains''
      exact h hfails
  rw [hquiet, failingHead_iff hstop.found, hresult, stopResult]
  have hne := hstop.stops
  cases hrc : (processOneMessage send env m' c).1 <;> simp_all

/-- The descriptors of the clients, in their order. -/
def members (m : ClientManager ν) : List ℤ := m.clients.map (·.fd)

theorem findClient_of_members (h : fd ∈ members m) : ∃ client,
    findClient m.clients fd = some client := by
  obtain ⟨c, hc, hfd⟩ := List.mem_map.mp h
  cases hfind : findClient m.clients fd with
  | none =>
    rw [findClient, List.find?_eq_none] at hfind
    exact absurd (decide_eq_true hfd) (hfind c hc)
  | some client => exact ⟨client, rfl⟩

theorem mem_members (h : findClient m.clients fd = some client) : fd ∈ members m := by
  obtain ⟨hmem, rfl⟩ := findClient_some h
  exact List.mem_map_of_mem hmem

theorem members_of_identities (h : identities m'.clients = identities m.clients) :
    members m' = members m := by
  have hfds : ∀ m : ClientManager ν, members m = (identities m.clients).map Prod.fst := by
    intro m
    simp [members, identities, Function.comp_def]
  rw [hfds, hfds, h]

theorem members_map {f : BcClient → BcClient} (hf : ∀ c, (f c).fd = c.fd)
    (h : m'.clients = m.clients.map f) : members m' = members m := by
  rw [members, h, List.map_map, members]
  apply List.map_congr_left
  intro c _
  exact hf c

/-- Taking out frames closes nobody. -/
theorem Drains.members (hfds : DistinctFds m.clients) (h : Drains send env fd m m') :
    members m' = members m := by
  induction h with
  | refl => rfl
  | @tail m₁ m₂ hdrains htake ih =>
    obtain ⟨client, d, hclient, hd, -, rfl⟩ := takes_iff.mp htake
    obtain rfl := (findClient_some hclient).2
    have hfds₁ := (Drains.frame hfds hdrains).1
    have hhandled := handleDispatch_handled send env hfds₁ hclient hd
    rw [members_map (f := fun c => if c.fd = client.fd then c.dropRx client.header.frameLen else c)
      (fun c => by split <;> rfl) rfl, members_of_identities hhandled.identities, ih]

variable (send env client) in
theorem processMessages_members (hfds : DistinctFds m.clients)
    (hclient : findClient m.clients client.fd = some client) :
    members (processMessages send env m client).2 = members m := by
  obtain ⟨m', c, hdrains, hstop, hresult⟩ :=
    processMessages_stops send env hfds hclient
  have hfds' := (hdrains.frame hfds).1
  rw [hresult, stopResult, members_of_identities (hstop.handled hfds').identities,
    hdrains.members hfds]

end Quiet

section Agreement

variable {send env} {m m' : ClientManager ν} {client : BcClient} {fd : ℤ}

theorem closeClientChecked_eq (h : fd ∈ members m) :
    closeClientChecked m fd = some (closeClient m fd) := by
  obtain ⟨client, hclient⟩ := findClient_of_members h
  rw [closeClientChecked, hclient]
  rfl

theorem closeOnErrorChecked_eq {r : BcStatus × ClientManager ν} (h : fd ∈ members r.2) :
    closeOnErrorChecked fd r = some (closeOnError fd r) := by
  unfold closeOnErrorChecked closeOnError
  split
  · rfl
  · exact closeClientChecked_eq h

theorem processMessagesLoopChecked_eq (hfds : DistinctFds m.clients)
    (hclient : findClient m.clients fd = some client) (rounds : ℕ) :
    processMessagesLoopChecked send env fd rounds m =
      some (processMessagesLoop send env fd rounds m) := by
  induction rounds generalizing m client with
  | zero => rfl
  | succ rounds ih =>
    simp only [processMessagesLoopChecked, processMessagesLoop, hclient, Option.bind_some]
    by_cases hok : (processOneMessage send env m client).1 = .ok
    · have htakes : Takes send env fd m (processOneMessage send env m client).2 :=
        ⟨client, hclient, by rw [← hok]⟩
      obtain ⟨c, hc, -⟩ := htakes.rest hfds hclient
      rw [if_pos hok, if_pos hok]
      exact ih (htakes.frame hfds).1 hc
    · rw [if_neg hok, if_neg hok]
      split <;> rfl

variable (send env) in
/-- A turn of the resume loop keeps every client, or its client is closed. -/
theorem resumeClient_cases (hfds : DistinctFds m.clients)
    (hclient : findClient m.clients fd = some client) :
    QuietCall send env fd m ∧ DistinctFds (resumeClient send env m fd).clients ∧
        members (resumeClient send env m fd) = members m ∨
      ¬ QuietCall send env fd m ∧
        findClient (resumeClient send env m fd).clients fd = none := by
  obtain rfl := (findClient_some hclient).2
  have hquiet := quietCall_iff send env hfds hclient
  have hmembers := processMessages_members send env _ hfds hclient
  have hdistinct := (processMessages_frame send env _ hfds hclient).1
  simp only [resumeClient, hclient]
  by_cases hrx : client.rx = []
  · have hresult : processMessages send env m client = (.ok, m) := by
      rw [processMessages, hrx]
      rfl
    rw [if_pos hrx]
    exact .inl ⟨hquiet.mpr (.inl (by rw [hresult])), hfds, rfl⟩
  · rw [if_neg hrx]
    by_cases hkept : (processMessages send env m client).1 = .ok ∨
        (processMessages send env m client).1 = .nomem
    · rw [closeOnError_kept hkept]
      exact .inl ⟨hquiet.mpr hkept, hdistinct, hmembers⟩
    · obtain ⟨hok, hnomem⟩ := not_or.mp hkept
      rw [closeOnError_closed hok hnomem]
      exact .inr ⟨fun h => hkept (hquiet.mp h), findClient_closeClient _ _⟩

/-- One turn of the checked loop. -/
theorem resumeLoopChecked_cons (hfds : DistinctFds m.clients)
    (hclient : findClient m.clients fd = some client) (fds : List ℤ) :
    resumeLoopChecked send env (fd :: fds) m =
      (findClient (resumeClient send env m fd).clients fd).bind fun _ =>
        resumeLoopChecked send env fds (resumeClient send env m fd) := by
  obtain rfl := (findClient_some hclient).2
  simp only [resumeLoopChecked, resumeClient, hclient, Option.bind_some]
  by_cases hrx : client.rx = []
  · rw [if_pos hrx, if_pos hrx]
    rfl
  · have hmember : client.fd ∈ members (processMessages send env m client).2 := by
      rw [processMessages_members _ _ _ hfds hclient]
      exact mem_members hclient
    rw [if_neg hrx, if_neg hrx, processMessagesLoopChecked_eq hfds hclient, Option.bind_some,
      ← processMessages, closeOnErrorChecked_eq hmember, Option.bind_some]

variable (send env) in
/-- The resume loop uses the records of members only exactly when its turns are quiet,
and closes nobody then. -/
theorem resumeLoopChecked_checks (fds : List ℤ) (hfds : DistinctFds m.clients)
    (hmem : ∀ fd ∈ fds, fd ∈ members m) :
    ChecksFor (Runs.Meets (ClientManager.turn send) (Turn.Quiet send) m
        (fds.map fun fd => .resume fd env))
      (resumeLoopChecked send env fds m) (fds.foldl (resumeClient send env) m) ∧
    (Runs.Meets (ClientManager.turn send) (Turn.Quiet send) m
        (fds.map fun fd => .resume fd env) →
      DistinctFds (fds.foldl (resumeClient send env) m).clients ∧
        members (fds.foldl (resumeClient send env) m) = members m) := by
  induction fds generalizing m with
  | nil => exact ⟨.some (Runs.meets_nil _) m, fun _ => ⟨hfds, rfl⟩⟩
  | cons fd fds ih =>
    obtain ⟨client, hclient⟩ := findClient_of_members (hmem fd (by simp))
    rw [List.map_cons, Runs.meets_cons, resumeLoopChecked_cons hfds hclient, List.foldl_cons]
    rcases resumeClient_cases send env hfds hclient with
      ⟨hquiet, hfds', hmembers⟩ | ⟨hnot, hclosed⟩
    · have hmember : fd ∈ members (resumeClient send env m fd) := by
        rw [hmembers]
        exact hmem fd (by simp)
      obtain ⟨c, hc⟩ := findClient_of_members hmember
      have hrest := ih hfds' fun fd' hfd' => by
        rw [hmembers]
        exact hmem fd' (List.mem_cons_of_mem _ hfd')
      rw [hc, Option.bind_some]
      refine ⟨hrest.1.congr ⟨fun h => h.2, fun h => ⟨hquiet, h⟩⟩, fun h => ?_⟩
      rw [← hmembers]
      exact hrest.2 h.2
    · rw [hclosed, Option.bind_none]
      exact ⟨⟨fun h => absurd h.1 hnot, fun _ => rfl⟩, fun h => absurd h.1 hnot⟩

variable (send env) in
theorem resumePendingPublishersChecked_checks (hfds : DistinctFds m.clients) :
    ChecksFor (Runs.Meets (ClientManager.turn send) (Turn.Quiet send) m (resumeTurns env m))
      (resumePendingPublishersChecked send env m) (resumePendingPublishers send env m) ∧
    (Runs.Meets (ClientManager.turn send) (Turn.Quiet send) m (resumeTurns env m) →
      DistinctFds (resumePendingPublishers send env m).clients ∧
        members (resumePendingPublishers send env m) = members m) := by
  have hloop := resumeLoopChecked_checks send env (members m) hfds
    fun _ hfd => hfd
  rw [members, List.map_map] at hloop
  exact hloop

variable (send env) in
theorem drainLoopChecked_eq (hfds : DistinctFds m.clients) (hmem : fd ∈ members m)
    (ring : List RingRead) :
    drainLoopChecked send env fd ring m = some (drainLoop send env fd ring m) ∧
      DistinctFds (drainLoop send env fd ring m).2.1.clients ∧
      members (drainLoop send env fd ring m).2.1 = members m := by
  induction ring generalizing m with
  | nil => exact ⟨rfl, hfds, rfl⟩
  | cons answer answers ih =>
    obtain ⟨client, hclient⟩ := findClient_of_members hmem
    obtain rfl := (findClient_some hclient).2
    simp only [drainLoopChecked, drainLoop, hclient, Option.bind_some]
    cases answer with
    | status rc => exact ⟨rfl, hfds, rfl⟩
    | frame data stale =>
      have hhandled := processFrameBuffer_handled send env hfds hclient (data ++ stale) data.length
      have hfds' := hfds.of_identities hhandled.identities
      have hmembers := members_of_identities hhandled.identities
      dsimp only
      by_cases hok : (processFrameBuffer send env m client (data ++ stale) data.length).1 = .ok
      · rw [if_pos hok, if_pos hok, ← hmembers]
        exact ih hfds' (hmembers ▸ hmem)
      · rw [if_neg hok, if_neg hok]
        exact ⟨rfl, hfds', hmembers⟩

variable (send env) in
theorem drainClientShmChecked_eq (hfds : DistinctFds m.clients) (hmem : fd ∈ members m)
    (ring : List RingRead) :
    drainClientShmChecked send env m fd ring = some (drainClientShm send env m fd ring) ∧
      DistinctFds (drainClientShm send env m fd ring).2.1.clients ∧
      members (drainClientShm send env m fd ring).2.1 = members m := by
  obtain ⟨client, hclient⟩ := findClient_of_members hmem
  simp only [drainClientShmChecked, drainClientShm, hclient, Option.bind_some]
  split
  · exact ⟨rfl, hfds, rfl⟩
  · exact drainLoopChecked_eq _ _ hfds hmem ring

/-- The turns on a ring do not resume anybody. -/
theorem sessionTurns_quiet (m m' : ClientManager ν) (fd : ℤ) (ring : List RingRead) :
    Runs.Meets (ClientManager.turn send) (Turn.Quiet send) m'
      (sessionTurns send env m fd ring) := by
  have hdrain : ∀ (ring : List RingRead) (m : ClientManager ν),
      ∀ t ∈ drainTurns send env fd ring m, ∀ m'', Turn.Quiet send m'' t := by
    intro ring
    induction ring with
    | nil => simp [drainTurns]
    | cons answer answers ih =>
      intro m t ht m''
      unfold drainTurns at ht
      cases hclient : findClient m.clients fd with
      | none => simp [hclient] at ht
      | some client =>
        rw [hclient] at ht
        cases answer with
        | status rc =>
          dsimp only at ht
          split at ht
          · simp at ht
          · rw [List.mem_singleton.mp ht]
            trivial
        | frame data stale =>
          dsimp only at ht
          rcases List.mem_cons.mp ht with rfl | ht
          · trivial
          · split at ht
            · exact ih _ t ht m''
            · simp at ht
  apply Runs.meets_of_forall
  intro m'' t ht
  unfold sessionTurns at ht
  split at ht
  · simp at ht
  · split at ht
    · simp at ht
    · exact hdrain ring m t ht m''

/-- A turn that resumes nobody is no condition. -/
theorem meets_cons_quiet {t : Turn} (ht : t.Quiet send m) (turns : List Turn) :
    Runs.Meets (ClientManager.turn send) (Turn.Quiet send) m (t :: turns) ↔
      Runs.Meets (ClientManager.turn send) (Turn.Quiet send) (m.turn send t) turns := by
  rw [Runs.meets_cons]
  exact and_iff_right ht

theorem readClientChecked_checks (hfds : DistinctFds m.clients) (hmem : fd ∈ members m)
    (reads : List RecvAnswer) (ring : List RingRead) :
    ChecksFor (Runs.Meets (ClientManager.turn send) (Turn.Quiet send) m
        (readTurns send env fd reads ring m))
      (readClientChecked send env fd reads ring m) (readClient send env fd reads ring m) := by
  induction reads generalizing m ring with
  | nil => exact .some (Runs.meets_nil _) m
  | cons answer answers ih =>
    obtain ⟨client, hclient⟩ := findClient_of_members hmem
    obtain rfl := (findClient_some hclient).2
    simp only [readClientChecked, readTurns, readClient, hclient, Option.bind_some]
    by_cases hfull : client.rx.length ≥ bcClientRxCap
    · simp only [if_pos hfull]
      exact .some (Runs.meets_nil _) m
    simp only [if_neg hfull]
    have hclose : ChecksFor (Runs.Meets (ClientManager.turn send) (Turn.Quiet send) m
        [.close client.fd]) (closeClientChecked m client.fd) (closeClient m client.fd) := by
      rw [closeClientChecked_eq hmem]
      exact .some ((meets_cons_quiet (t := .close client.fd) trivial []).mpr (Runs.meets_nil _)) _
    cases answer with
    | again => exact .some (Runs.meets_nil _) m
    | error => exact hclose
    | eintr => exact ih hfds hmem ring
    | bytes data =>
      dsimp only
      by_cases hnil : data = []
      · rw [if_pos hnil, if_pos hnil, if_pos hnil]
        exact hclose
      obtain ⟨hfds₁, -⟩ := appendRx_frame hfds client.fd (client.taken data)
      have hclient₁ := findClient_appendRx hclient (client.taken data)
      have hcall : processMessagesLoopChecked send env client.fd
          (client.addRx (client.taken data)).rx.length
          (appendRx m client.fd (client.taken data)) =
          some (processMessages send env (appendRx m client.fd (client.taken data))
            (client.addRx (client.taken data))) :=
        processMessagesLoopChecked_eq hfds₁ hclient₁ _
      have hmembers : members (processMessages send env (appendRx m client.fd (client.taken data))
          (client.addRx (client.taken data))).2 = members m := by
        rw [processMessages_members send env (client.addRx (client.taken data)) hfds₁ hclient₁]
        exact members_map (fun c => by split <;> rfl) rfl
      have hfds₂ := (processMessages_frame send env (client.addRx (client.taken data)) hfds₁
        hclient₁).1
      have hturn : m.turn send (.read client.fd env data) = closeOnError client.fd
          (processMessages send env (appendRx m client.fd (client.taken data))
            (client.addRx (client.taken data))) := by
        simp only [ClientManager.turn, hclient]
      rw [if_neg hnil, if_neg hnil, if_neg hnil,
        meets_cons_quiet (t := .read client.fd env data) trivial, hturn, hcall, Option.bind_some]
      rw [← BcClient.taken]
      generalize processMessages send env (appendRx m client.fd (client.taken data))
        (client.addRx (client.taken data)) = r at hmembers hfds₂ ⊢
      have hmem₂ : client.fd ∈ members r.2 := by
        rw [hmembers]
        exact hmem
      by_cases hok : r.1 = .ok
      · obtain ⟨hdrain, hfds₃, hmembers₃⟩ :=
          drainClientShmChecked_eq send env hfds₂ hmem₂ ring
        rw [closeOnError_kept (.inl hok), if_pos hok, if_pos hok, if_pos hok, hdrain,
          Option.bind_some]
        simp only [Runs.meets_append, sessionTurns_quiet, true_and, run_sessionTurns]
        generalize drainClientShm send env r.2 client.fd ring = drained at hfds₃ hmembers₃ ⊢
        have hmem₃ : client.fd ∈ members drained.2.1 := by
          rw [hmembers₃]
          exact hmem₂
        by_cases hdrained : drained.1 = .ok
        · simp only [closeOnError_kept (r := (drained.1, drained.2.1)) (.inl hdrained),
            if_pos hdrained]
          exact ih hfds₃ hmem₃ drained.2.2
        · simp only [if_neg hdrained]
          rw [closeOnErrorChecked_eq hmem₃]
          have hclosed : closeOnError client.fd (drained.1, drained.2.1) =
              if drained.1 = .nomem then drained.2.1 else closeClient drained.2.1 client.fd := by
            simp only [closeOnError, hdrained, false_or]
          rw [hclosed]
          exact .some (Runs.meets_nil _) _
      · by_cases hnomem : r.1 = .nomem
        · rw [closeOnError_kept (.inr hnomem), if_neg hok, if_neg hok, if_neg hok, if_pos hnomem,
            if_pos hnomem, if_pos hnomem]
          exact (resumePendingPublishersChecked_checks _ _ hfds₂).1
        · rw [closeOnError_closed hok hnomem, if_neg hok, if_neg hok, if_neg hok, if_neg hnomem,
            if_neg hnomem, if_neg hnomem, closeClientChecked_eq hmem₂]
          exact .some (Runs.meets_nil _) _

theorem readEventChecked_checks (hfds : DistinctFds m.clients) (hmem : fd ∈ members m)
    (events : EpollEvents) (reads : List RecvAnswer) (ring : List RingRead) :
    ChecksFor (Runs.Meets (ClientManager.turn send) (Turn.Quiet send) m
        (readEventTurns send env m fd events reads ring))
      (readEventChecked send env m fd events reads ring)
      (readEvent send env m fd events reads ring) := by
  obtain ⟨hdrain, hfds', hmembers⟩ :=
    drainClientShmChecked_eq send env hfds hmem ring
  unfold readEventChecked readEventTurns readEvent
  rw [hdrain, Option.bind_some]
  simp only [Runs.meets_append, sessionTurns_quiet, true_and, run_sessionTurns]
  generalize drainClientShm send env m fd ring = drained at hfds' hmembers ⊢
  have hmem' : fd ∈ members drained.2.1 := by
    rw [hmembers]
    exact hmem
  by_cases hnomem : drained.1 = .nomem
  · simp only [closeOnError_kept (r := (drained.1, drained.2.1)) (.inr hnomem), if_pos hnomem]
    exact (resumePendingPublishersChecked_checks _ _ hfds').1
  simp only [if_neg hnomem]
  by_cases hok : drained.1 = .ok
  · rw [closeOnError_kept (.inl hok)]
    simp only [hok, ne_eq, not_true_eq_false, if_false]
    split
    · rw [closeClientChecked_eq hmem']
      exact .some ((meets_cons_quiet (t := .close fd) trivial []).mpr (Runs.meets_nil _)) _
    · exact readClientChecked_checks hfds' hmem' reads drained.2.2
  · simp only [hok, ne_eq, not_false_eq_true, if_true]
    rw [closeClientChecked_eq hmem']
    exact .some (Runs.meets_nil _) _

/-- An event runs as it should exactly when its resume loops close nobody. -/
theorem onClientEventChecked_checks (hfds : DistinctFds m.clients)
    (hclient : findClient m.clients client.fd = some client) (events : EpollEvents)
    (writes : List WriteOutcome) (reads : List RecvAnswer) (ring : List RingRead) :
    ChecksFor (Runs.Meets (ClientManager.turn send) (Turn.Quiet send) m
        (eventTurns send m (.client client.fd events env writes reads ring)))
      (onClientEventChecked send env m client.fd events writes reads ring)
      (onClientEvent send env m client.fd events writes reads ring) := by
  have hmem := mem_members hclient
  unfold onClientEventChecked onClientEvent
  simp only [eventTurns, hclient, Option.bind_some]
  by_cases hout : events.epollout = true
  · obtain ⟨hfd, hrx, hconsumed, -⟩ := flushClientTx_identity (env.watch client.fd) writes client
    have hsame := identities_setClient hfds hclient hfd hrx hconsumed
    obtain ⟨flushed, hflushed⟩ : ∃ flushed : ClientManager ν,
        flushed = { m with
          clients := setClient m.clients (flushClientTx (env.watch client.fd) writes client).2 } :=
      ⟨_, rfl⟩
    have hidentities : identities flushed.clients = identities m.clients := by
      rw [hflushed]
      exact hsame
    have hfds' : DistinctFds flushed.clients := hfds.of_identities hidentities
    have hmem' : client.fd ∈ members flushed := by
      rw [members_of_identities hidentities]
      exact hmem
    have hturn : m.turn send (.flush client.fd (env.watch client.fd) writes) =
        if (flushClientTx (env.watch client.fd) writes client).1 ≠ .ok then
          closeClient flushed client.fd
        else flushed := by
      simp only [ClientManager.turn, hclient, hflushed]
    rw [if_pos hout, if_pos hout, if_pos hout,
      meets_cons_quiet (t := .flush client.fd (env.watch client.fd) writes) trivial, hturn,
      ← hflushed]
    by_cases hok : (flushClientTx (env.watch client.fd) writes client).1 = .ok
    · rw [if_neg (not_not.mpr hok), if_neg (not_not.mpr hok), if_neg (not_not.mpr hok),
        if_neg (not_not.mpr hok), Runs.meets_append, run_resumeTurns]
      obtain ⟨hresume, hkept⟩ :=
        resumePendingPublishersChecked_checks send env hfds'
      apply hresume.bind
      intro hquiet
      obtain ⟨hfds'', hmembers⟩ := hkept hquiet
      exact readEventChecked_checks hfds'' (by rw [hmembers]; exact hmem') events reads ring
    · rw [if_pos hok, if_pos hok, if_pos hok, if_pos hok, closeClientChecked_eq hmem']
      exact .some (Runs.meets_nil _) _
  · rw [if_neg hout, if_neg hout, if_neg hout]
    exact readEventChecked_checks hfds hmem events reads ring

/-- An event uses the records of members only exactly when no turn of its resume loops
closes the client that it is about. -/
theorem only_members_used (send : ℕ → List UInt8 → ν → BcStatus × ν) (env : ClientEnv)
    (m : ClientManager ν) (client : BcClient) (events : EpollEvents) (writes : List WriteOutcome)
    (reads : List RecvAnswer) (ring : List RingRead) (hfds : DistinctFds m.clients)
    (hclient : findClient m.clients client.fd = some client) :
    (onClientEventChecked send env m client.fd events writes reads ring).isSome = true ↔
      Runs.Meets (ClientManager.turn send) (Turn.Quiet send) m
        (eventTurns send m (.client client.fd events env writes reads ring)) :=
  (onClientEventChecked_checks hfds hclient events writes reads ring).isSome_iff

theorem setupFrame_payload_le : ([] : List UInt8).length ≤ bcMaxPayloadLen := by decide

/-- A SHM_SETUP frame with a topic. -/
def setupFrame : IpcFrame :=
  { tFrame with type := bcIpcShmSetup, payload := [], payload_le := setupFrame_payload_le }

/-- The session that comes up has a ring that is full once. -/
def setupEnv : ClientEnv := ⟨fun _ => true, fun _ => some ⟨[.nomem, .ok]⟩⟩

def setupEvents : List ManagerEvent :=
  [.client 5 ⟨true, false, false, false⟩ setupEnv [] [.bytes setupFrame.bytes, .again] []]

/-- The publish meets backpressure, and the turn that resumes its client gets it through. -/
theorem only_members_used_resumed :
    Runs.Meets (ClientManager.turn noSend) (Turn.Quiet noSend)
        (Runs.run (ClientManager.step noSend) tManager setupEvents)
        (eventTurns noSend (Runs.run (ClientManager.step noSend) tManager setupEvents)
          (.client 4 ⟨true, false, false, false⟩ quietEnv [] [.bytes tFrame.bytes, .again] [])) ∧
      (Runs.run (ClientManager.step noSend) tManager (setupEvents ++
        [.client 4 ⟨true, false, false, false⟩ quietEnv [] [.bytes tFrame.bytes, .again]
          []])).history.map (·.result.rc) = [.nomem, .ok] := by
  constructor
  · exact (only_members_used noSend quietEnv _ ⟨4, [], [], 0, [], none, 0⟩
      ⟨true, false, false, false⟩ [] [.bytes tFrame.bytes, .again] []
      (by unfold DistinctFds; decide +kernel) (by decide +kernel)).mp (by decide +kernel)
  · decide +kernel

/-- A publish, and bytes that are no header. -/
def brokenBytes : List UInt8 := tFrame.bytes ++ List.replicate 16 0

/-- The publish meets backpressure and is resumed at once; what follows it closes the
client, and the loop goes on with its record. -/
theorem closed_client_used :
    tManager.Fresh ∧
      onClientEventChecked noSend quietEnv
        (Runs.run (ClientManager.step noSend) tManager setupEvents) 4
        ⟨true, false, false, false⟩ [] [.bytes brokenBytes, .again] [] = none := by
  refine ⟨tManager_fresh, ?_⟩
  rw [← Option.isNone_iff_eq_none]
  decide +kernel

end Agreement

end BoardComm
