import BoardComm.ClientParsing

/-!
# The loop of process_messages

Frames are taken out until one is not there or is not dealt with. The state in
which the loop stops is determined, so what a call does is read off it.
-/
namespace BoardComm

section Loop

variable {ν : Type*} (send : ℕ → List UInt8 → ν → BcStatus × ν) (env : ClientEnv)

/-- A frame of the client is dealt with and taken out. -/
def Takes (fd : ℤ) (m m' : ClientManager ν) : Prop :=
  ∃ client, findClient m.clients fd = some client ∧
    processOneMessage send env m client = (.ok, m')

/-- Frames of the client are dealt with, one after the other. -/
abbrev Drains (fd : ℤ) : ClientManager ν → ClientManager ν → Prop :=
  Relation.ReflTransGen (Takes send env fd)

variable {send env} {m m' : ClientManager ν} {client : BcClient} {fd : ℤ}

theorem findClient_of_identities {clients clients' : List BcClient}
    (h : identities clients' = identities clients) (hfind : findClient clients fd = some client) :
    ∃ c, findClient clients' fd = some c ∧ c.fd = client.fd ∧ c.rx = client.rx ∧
      c.consumed = client.consumed := by
  induction clients generalizing clients' with
  | nil => simp [findClient] at hfind
  | cons d clients ih =>
    cases clients' with
    | nil => simp [identities] at h
    | cons c clients' =>
      simp only [identities, List.map_cons, List.cons.injEq, Prod.mk.injEq] at h
      obtain ⟨⟨hfd, hrx, hconsumed⟩, hrest⟩ := h
      by_cases hd : d.fd = fd
      · have hclient : d = client := by simpa [findClient, hd] using hfind
        rw [← hclient]
        exact ⟨c, by simp [findClient, hfd, hd], hfd, hrx, hconsumed⟩
      · have hc : c.fd ≠ fd := by rwa [hfd]
        rw [findClient, List.find?_cons_of_neg (by simpa using hd)] at hfind
        obtain ⟨c', hc', hsame⟩ := ih hrest hfind
        exact ⟨c', by rw [findClient, List.find?_cons_of_neg (by simpa using hc)]; exact hc',
          hsame⟩

theorem findClient_map {clients : List BcClient} {f : BcClient → BcClient}
    (hf : ∀ c, (f c).fd = c.fd) (fd : ℤ) :
    findClient (clients.map f) fd = (findClient clients fd).map f := by
  rw [findClient, List.find?_map, findClient]
  congr 1
  apply congrArg (List.find? · clients)
  funext c
  simp [hf]

/-- What is known of the clients other than one. -/
def others (fd : ℤ) (m : ClientManager ν) : List (ℤ × List UInt8 × ℕ) :=
  (identities m.clients).filter (·.1 ≠ fd)

variable (send env) in
theorem handleDispatch_handled (hfds : DistinctFds m.clients)
    (hclient : findClient m.clients client.fd = some client) {d : Dispatch}
    (hd : headDispatch client = .ok d) :
    Handled send env m client (handleDispatch send env m client d) := by
  have hlen := payloadLen_of_headDispatch hd
  obtain ⟨f, rest, -, rfl⟩ := hasFrame_of_headDispatch hd
  exact processIpcPayload_handled send env hfds hclient f.topic_lt hlen

theorem takes_iff :
    Takes send env fd m m' ↔ ∃ client d, findClient m.clients fd = some client ∧
      headDispatch client = .ok d ∧ (handleDispatch send env m client d).1 = .ok ∧
      m' = consumeFrame (handleDispatch send env m client d).2 fd client.header.frameLen := by
  unfold Takes
  constructor
  · rintro ⟨client, hclient, hone⟩
    rw [processOneMessage_eq] at hone
    cases hd : headDispatch client with
    | error rc =>
      -- an error of the checks is not a success
      rw [hd] at hone
      obtain ⟨rfl, -⟩ := Prod.mk.injEq .. ▸ hone
      unfold headDispatch at hd
      split_ifs at hd <;> simp at hd
    | ok d =>
      rw [hd] at hone
      dsimp only at hone
      obtain rfl := (findClient_some hclient).2
      split at hone
      · next hok => exact ⟨client, d, hclient, hd, hok, (congrArg Prod.snd hone).symm⟩
      · next hok => exact absurd (congrArg Prod.fst hone) hok
  · rintro ⟨client, d, hclient, hd, hok, rfl⟩
    refine ⟨client, hclient, ?_⟩
    rw [processOneMessage_eq, hd]
    dsimp only
    rw [if_pos hok, (findClient_some hclient).2]

theorem frameLen_le_of_headDispatch {d : Dispatch} (hd : headDispatch client = .ok d) :
    client.header.frameLen ≤ client.rx.length := by
  unfold headDispatch at hd
  split_ifs at hd with hshort hmagic hlen hfits
  exact Nat.not_lt.mp hlen

/-- The frame is out of the receive buffer of its client. -/
theorem findClient_consumeFrame (hclient : findClient m.clients fd = some client)
    (hsame : identities m'.clients = identities m.clients) (n : ℕ) :
    ∃ c, findClient (consumeFrame m' fd n).clients fd = some c ∧
      c.rx = client.rx.drop n ∧ c.consumed = client.consumed + n := by
  obtain ⟨c, hc, hfd, hrx, hconsumed⟩ := findClient_of_identities hsame hclient
  refine ⟨c.dropRx n, ?_, by rw [← hrx]; rfl, by rw [← hconsumed]; rfl⟩
  have hmap : ∀ c : BcClient, (if c.fd = fd then c.dropRx n else c).fd = c.fd := by
    intro c
    split <;> rfl
  simp only [consumeFrame]
  rw [findClient_map hmap, hc, Option.map_some, if_pos (findClient_some hc).2]

/-- Changing one client leaves the others alone. -/
theorem others_update {g : BcClient → BcClient} (hg : ∀ c, (g c).fd = c.fd)
    (h : m'.clients = m.clients.map fun c => if c.fd = fd then g c else c) :
    others fd m' = others fd m := by
  unfold others identities
  rw [h, List.map_map]
  induction m.clients with
  | nil => rfl
  | cons c clients ih =>
    simp only [List.map_cons, Function.comp_apply]
    by_cases hc : c.fd = fd
    · rw [if_pos hc, List.filter_cons_of_neg (by simp [hg, hc]),
        List.filter_cons_of_neg (by simp [hc])]
      exact ih
    · rw [if_neg hc, List.filter_cons_of_pos (by simp [hc]), List.filter_cons_of_pos (by simp [hc]),
        ih]

theorem findClient_closeClient (m : ClientManager ν) (fd : ℤ) :
    findClient (closeClient m fd).clients fd = none := by
  unfold findClient closeClient
  rw [List.find?_eq_none]
  intro c hc
  simpa using (List.mem_filter.mp hc).2

theorem findClient_appendRx (hclient : findClient m.clients fd = some client)
    (data : List UInt8) :
    findClient (appendRx m fd data).clients fd = some (client.addRx data) := by
  have hmap : ∀ c : BcClient, (if c.fd = fd then c.addRx data else c).fd = c.fd := by
    intro c
    split <;> rfl
  simp only [appendRx]
  rw [findClient_map hmap, hclient, Option.map_some, if_pos (findClient_some hclient).2]

theorem others_closeClient (m : ClientManager ν) (fd : ℤ) :
    others fd (closeClient m fd) = others fd m := by
  rw [others, others, closeClient, identities, identities, List.filter_map, List.filter_map,
    List.filter_filter]
  congr 2
  funext c
  simp

/-- The receive buffer of a client, if it is there. -/
def rxOf (clients : List BcClient) (fd : ℤ) : Option (List UInt8) :=
  (findClient clients fd).map (·.rx)

theorem rxOf_identities (clients : List BcClient) (fd : ℤ) :
    rxOf clients fd = ((identities clients).find? (·.1 = fd)).map (·.2.1) := by
  rw [rxOf, findClient, identities, List.find?_map, Option.map_map]
  rfl

theorem rxOf_others {fd' : ℤ} (hne : fd ≠ fd') (h : others fd' m' = others fd' m) :
    rxOf m'.clients fd = rxOf m.clients fd := by
  have hfind : ∀ m : ClientManager ν,
      (others fd' m).find? (·.1 = fd) = (identities m.clients).find? (·.1 = fd) := by
    intro m
    rw [others, List.find?_filter]
    congr 1
    funext i
    by_cases hi : i.1 = fd
    · simp [hi, hne]
    · simp [hi]
  rw [rxOf_identities, rxOf_identities, ← hfind, ← hfind, h]

/-- A frame that is taken out leaves the descriptors and the other clients alone. -/
theorem Takes.frame (hfds : DistinctFds m.clients) (h : Takes send env fd m m') :
    DistinctFds m'.clients ∧ others fd m' = others fd m := by
  obtain ⟨client, d, hclient, hd, hok, rfl⟩ := takes_iff.mp h
  obtain rfl := (findClient_some hclient).2
  have hhandled := handleDispatch_handled send env hfds hclient hd
  constructor
  · apply distinctFds_map (hfds.of_identities hhandled.identities)
    intro c
    split <;> rfl
  · have hframe : others client.fd (consumeFrame (handleDispatch send env m client d).2 client.fd
        client.header.frameLen) = others client.fd (handleDispatch send env m client d).2 :=
      others_update (g := (·.dropRx client.header.frameLen)) (fun _ => rfl) rfl
    rw [hframe, others, hhandled.identities, others]

/-- What is left of the receive buffer. -/
theorem Takes.rest (hfds : DistinctFds m.clients) (h : Takes send env fd m m')
    (hclient : findClient m.clients fd = some client) :
    ∃ c, findClient m'.clients fd = some c ∧ c.rx = client.rx.drop client.header.frameLen ∧
      c.consumed = client.consumed + client.header.frameLen := by
  obtain ⟨client', d, hclient', hd, hok, rfl⟩ := takes_iff.mp h
  obtain rfl : client' = client := by
    rw [hclient] at hclient'
    exact (Option.some.inj hclient').symm
  obtain rfl := (findClient_some hclient).2
  have hhandled := handleDispatch_handled send env hfds hclient hd
  exact findClient_consumeFrame hclient hhandled.identities _

theorem Drains.frame (hfds : DistinctFds m.clients) (h : Drains send env fd m m') :
    DistinctFds m'.clients ∧ others fd m' = others fd m := by
  induction h with
  | refl => exact ⟨hfds, rfl⟩
  | tail _ htake ih =>
    obtain ⟨hdistinct, hothers⟩ := htake.frame ih.1
    exact ⟨hdistinct, hothers.trans ih.2⟩

theorem takes_rightUnique (send : ℕ → List UInt8 → ν → BcStatus × ν) (env : ClientEnv) (fd : ℤ) :
    Relator.RightUnique (Takes send env fd) := by
  rintro m m₁ m₂ ⟨client, hclient, hone⟩ ⟨client', hclient', hone'⟩
  obtain rfl : client = client' := by
    rw [hclient] at hclient'
    exact Option.some.inj hclient'
  rw [hone] at hone'
  exact (Prod.mk.inj hone').2

/-- The loop stops in the state: the frame at the head is not dealt with. -/
structure Stops (send : ℕ → List UInt8 → ν → BcStatus × ν) (env : ClientEnv) (fd : ℤ)
    (m : ClientManager ν) (client : BcClient) : Prop where
  found : findClient m.clients fd = some client
  stops : (processOneMessage send env m client).1 ≠ .ok

/-- No frame is taken out of a state in which the loop stops. -/
theorem Stops.eq_of_drains (hstop : Stops send env fd m client) (h : Drains send env fd m m') :
    m' = m := by
  rcases h.cases_head with rfl | ⟨m₁, ⟨client', hclient', hone⟩, -⟩
  · rfl
  · obtain rfl : client = client' := by
      have hclient := hstop.found
      rw [hclient'] at hclient
      exact (Option.some.inj hclient).symm
    exact absurd (congrArg Prod.fst hone) hstop.stops

/-- The state in which the loop stops is determined. -/
theorem Stops.unique {m₁ : ClientManager ν} {c : BcClient} (hstop : Stops send env fd m' client)
    (h : Drains send env fd m m') (hstop₁ : Stops send env fd m₁ c)
    (h₁ : Drains send env fd m m₁) : m₁ = m' ∧ c = client := by
  have hstate : m₁ = m' := by
    rcases Relation.ReflTransGen.total_of_right_unique (takes_rightUnique send env fd) h h₁ with
      hafter | hbefore
    · exact hstop.eq_of_drains hafter
    · exact (hstop₁.eq_of_drains hbefore).symm
  subst hstate
  have hclient := hstop₁.found
  rw [hstop.found] at hclient
  exact ⟨rfl, (Option.some.inj hclient).symm⟩

/-- What `process_messages` makes of the answer that stops it. -/
def stopResult (r : BcStatus × ClientManager ν) : BcStatus × ClientManager ν :=
  (if r.1 = .notFound then .ok else r.1, r.2)

theorem processMessagesLoop_stops (hfds : DistinctFds m.clients)
    (hclient : findClient m.clients fd = some client) (rounds : ℕ)
    (hrounds : client.rx.length ≤ rounds) :
    ∃ m' c, Drains send env fd m m' ∧ Stops send env fd m' c ∧
      processMessagesLoop send env fd rounds m = stopResult (processOneMessage send env m' c) := by
  induction rounds generalizing m client with
  | zero =>
    have hone : processOneMessage send env m client = (.notFound, m) := by
      unfold processOneMessage
      rw [if_pos (Nat.lt_of_le_of_lt hrounds (by decide))]
    refine ⟨m, client, .refl, ⟨hclient, by simp [hone]⟩, ?_⟩
    rw [hone]
    rfl
  | succ rounds ih =>
    unfold processMessagesLoop
    rw [hclient]
    dsimp only
    by_cases hok : (processOneMessage send env m client).1 = .ok
    · have htakes : Takes send env fd m (processOneMessage send env m client).2 :=
        ⟨client, hclient, by rw [← hok]⟩
      obtain ⟨c, hc, hrx, -⟩ := htakes.rest hfds hclient
      have hpos : 0 < client.header.frameLen :=
        Nat.lt_of_lt_of_le (by decide) client.header.sizeV1_le_frameLen
      obtain ⟨m', c', hdrains, hstop, hresult⟩ := ih (htakes.frame hfds).1 hc (by
        rw [hrx, List.length_drop]
        omega)
      rw [if_pos hok]
      exact ⟨m', c', .head htakes hdrains, hstop, hresult⟩
    · refine ⟨m, client, .refl, ⟨hclient, hok⟩, ?_⟩
      rw [if_neg hok]
      unfold stopResult
      split <;> rfl

variable (send env) in
/-- The loop takes frames out until one is not dealt with. -/
theorem processMessages_stops (hfds : DistinctFds m.clients)
    (hclient : findClient m.clients client.fd = some client) :
    ∃ m' c, Drains send env client.fd m m' ∧ Stops send env client.fd m' c ∧
      processMessages send env m client = stopResult (processOneMessage send env m' c) :=
  processMessagesLoop_stops hfds hclient _ (le_refl _)

variable (send env m client) in
/-- What a dispatch adds to the history: the attempt, if it is a publish. -/
theorem handleDispatch_history (d : Dispatch) :
    (∃ msg, d.request = .publish msg ∧
        (handleDispatch send env m client d).2.history =
          m.history ++ [attemptOf send env m client msg] ∧
        (handleDispatch send env m client d).1 = (attemptOf send env m client msg).result.rc) ∨
      (handleDispatch send env m client d).2.history = m.history ∧
        (handleDispatch send env m client d).1 ≠ .nomem ∧
        (handleDispatch send env m client d).1 ≠ .notFound := by
  rw [handleDispatch_eq]
  cases d.request with
  | publish msg => exact .inl ⟨msg, rfl, rfl, rfl⟩
  | stats =>
    obtain ⟨hreply, hfull⟩ := sendStatsReply_rc env m client
    right
    by_cases hroom : StatsRoom env client
    · simp [handleRequest, hreply.mpr hroom]
    · simp [handleRequest, hfull hroom]
  | setup =>
    right
    unfold handleRequest
    cases env.setup client.fd <;> simp
  | subscribe | kick | unknown => exact .inr ⟨rfl, by simp [handleRequest], by simp [handleRequest]⟩

/-- The attempts that were made for frames that are taken out have succeeded. -/
theorem Drains.history (h : Drains send env fd m m') :
    ∃ new, m'.history = m.history ++ new ∧ ∀ a ∈ new, a.result.rc = .ok := by
  induction h with
  | refl => exact ⟨[], by simp, by simp⟩
  | @tail m₁ _ _ htake ih =>
    obtain ⟨new, hhistory, hnew⟩ := ih
    obtain ⟨client, d, -, -, hok, rfl⟩ := takes_iff.mp htake
    rcases handleDispatch_history send env m₁ client d with
      ⟨msg, -, hlast, hrc⟩ | ⟨hsame, -, -⟩
    · refine ⟨new ++ [attemptOf send env m₁ client msg], ?_, ?_⟩
      · change (handleDispatch send env _ client d).2.history = _
        rw [hlast, hhistory, List.append_assoc]
      · intro a ha
        rcases List.mem_append.mp ha with ha | ha
        · exact hnew a ha
        · rw [List.mem_singleton.mp ha, ← hrc]
          exact hok
    · refine ⟨new, ?_, hnew⟩
      change (handleDispatch send env _ client d).2.history = _
      rw [hsame, hhistory]

/-- The answer that stops the loop leaves every client what it had. -/
theorem Stops.handled (hfds : DistinctFds m.clients) (h : Stops send env fd m client) :
    Handled send env m client (processOneMessage send env m client) := by
  obtain rfl := (findClient_some h.found).2
  rcases processOneMessage_cases send env hfds h.found with ⟨-, hhandled⟩ | ⟨_, _, -, -, -, hr⟩
  · exact hhandled
  · exact absurd (congrArg Prod.fst hr) h.stops

/-- The client, and the other clients, after the answer that stops the loop. -/
theorem Stops.after (hfds : DistinctFds m.clients) (h : Stops send env fd m client) :
    DistinctFds (processOneMessage send env m client).2.clients ∧
      others fd (processOneMessage send env m client).2 = others fd m ∧
      ∃ c, findClient (processOneMessage send env m client).2.clients fd = some c ∧
        c.rx = client.rx ∧ c.consumed = client.consumed := by
  have hhandled := h.handled hfds
  obtain ⟨c, hc, -, hrx, hconsumed⟩ := findClient_of_identities hhandled.identities h.found
  refine ⟨hfds.of_identities hhandled.identities, ?_, c, hc, hrx, hconsumed⟩
  rw [others, hhandled.identities, others]

/-- The loop stops for want of a whole frame, or at one that is not dealt with. -/
theorem Stops.cases (h : Stops send env fd m client) :
    (∃ rc, headDispatch client = .error rc ∧ processOneMessage send env m client = (rc, m)) ∨
      ∃ d, headDispatch client = .ok d ∧ (handleDispatch send env m client d).1 ≠ .ok ∧
        processOneMessage send env m client = handleDispatch send env m client d := by
  have heq := processOneMessage_eq send env m client
  cases hd : headDispatch client with
  | error rc =>
    rw [hd] at heq
    exact .inl ⟨rc, rfl, heq⟩
  | ok d =>
    rw [hd] at heq
    dsimp only at heq
    by_cases hok : (handleDispatch send env m client d).1 = .ok
    · rw [if_pos hok] at heq
      exact absurd (congrArg Prod.fst heq) h.stops
    · rw [if_neg hok] at heq
      exact .inr ⟨d, rfl, hok, heq⟩

/-- A state in which the loop stops decides the result of the call. -/
theorem processMessages_of_stops (hfds : DistinctFds m.clients)
    (hclient : findClient m.clients client.fd = some client) {c : BcClient}
    (hdrains : Drains send env client.fd m m') (hstop : Stops send env client.fd m' c) :
    processMessages send env m client = stopResult (processOneMessage send env m' c) ∧
      ∃ c', findClient (processMessages send env m client).2.clients client.fd = some c' ∧
        c'.rx = c.rx ∧ c'.consumed = c.consumed := by
  obtain ⟨m'', c'', hdrains'', hstop'', hresult⟩ :=
    processMessages_stops send env hfds hclient
  obtain ⟨rfl, rfl⟩ := hstop.unique hdrains hstop'' hdrains''
  obtain ⟨-, -, hafter⟩ := hstop.after (hdrains.frame hfds).1
  rw [hresult]
  exact ⟨rfl, hafter⟩

variable (send env client) in
/-- The other clients, and the history, after a call of `process_messages`. -/
theorem processMessages_frame (hfds : DistinctFds m.clients)
    (hclient : findClient m.clients client.fd = some client) :
    DistinctFds (processMessages send env m client).2.clients ∧
      others client.fd (processMessages send env m client).2 = others client.fd m ∧
      m.history ⊆ (processMessages send env m client).2.history := by
  obtain ⟨m', c, hdrains, hstop, hresult⟩ :=
    processMessages_stops send env hfds hclient
  obtain ⟨hfds', hothers⟩ := hdrains.frame hfds
  obtain ⟨hdistinct, hothers', -⟩ := hstop.after hfds'
  obtain ⟨new, hhistory, -⟩ := hdrains.history
  have hsubset : m.history ⊆ m'.history := by
    rw [hhistory]
    exact List.subset_append_left _ _
  rw [hresult]
  exact ⟨hdistinct, hothers'.trans hothers,
    List.Subset.trans hsubset (hstop.handled hfds').history_subset⟩

end Loop

end BoardComm
