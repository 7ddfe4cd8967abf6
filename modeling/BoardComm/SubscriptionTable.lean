import BoardComm.ClientTurns
import BoardComm.Compaction
import BoardComm.MessageInbound

/-!
# The table of subscriptions and the life of the clients

The bus keeps its subscriptions in an array, by descriptor. The client manager
closes clients, and the system gives their descriptors to new ones. The array is
followed beside the manager through accepted connections, frames, messages from
the network and closed clients, in any order.
-/
namespace BoardComm

/-- `subscriptions` and `subscription_count` of the bus. -/
structure SubscriptionTable where
  rows : ℕ → BcSubscription
  count : ℕ

namespace SubscriptionTable

/-- The rows in use. -/
def entries (table : SubscriptionTable) : List BcSubscription :=
  Compaction.front table.rows table.count

/-- The array of a bus that has just been initialised. -/
def init : SubscriptionTable := ⟨fun _ => ⟨0, .zero _⟩, 0⟩

/-- `bc_message_bus_subscribe`, for a topic string. -/
def bcMessageBusSubscribe (table : SubscriptionTable) (fd : ℤ) (topic : List UInt8) :
    BcStatus × SubscriptionTable :=
  if topic = [] then (.invalid, table)
  else if table.count ≥ bcMaxSubscriptions then (.nomem, table)
  else if (List.range table.count).any fun i =>
      (table.rows i).fd = fd ∧ (table.rows i).topic.str = topic then (.ok, table)
  else
    (.ok, ⟨Function.update table.rows table.count
      ⟨fd, .ofPrefix _ (topic.take (bcMaxTopicLen - 1))⟩, table.count + 1⟩)

/-- `bc_message_bus_remove_client`. -/
def bcMessageBusRemoveClient (table : SubscriptionTable) (fd : ℤ) : SubscriptionTable :=
  let r := Compaction.loop (fun sub => decide (sub.fd ≠ fd)) table.count 0 0 table.rows
  ⟨r.2, r.1⟩

variable {table : SubscriptionTable} {bus : MessageBus}

@[simp] theorem entries_length (table : SubscriptionTable) : table.entries.length = table.count :=
  Compaction.front_length table.rows table.count

/-- On the array and on the list of its rows subscribing is the same. -/
theorem subscribe_entries (h : bus.subscriptions = table.entries) (fd : ℤ) (topic : List UInt8) :
    (table.bcMessageBusSubscribe fd topic).1 = (BoardComm.bcMessageBusSubscribe bus fd topic).1 ∧
      (BoardComm.bcMessageBusSubscribe bus fd topic).2.subscriptions =
        (table.bcMessageBusSubscribe fd topic).2.entries := by
  have hlen : bus.subscriptions.length = table.count := by rw [h, entries_length]
  have hany : (bus.subscriptions.any fun sub => sub.fd = fd ∧ sub.topic.str = topic) =
      (List.range table.count).any fun i =>
        (table.rows i).fd = fd ∧ (table.rows i).topic.str = topic := by
    rw [h, entries, Compaction.front, List.any_map]
    rfl
  unfold BoardComm.bcMessageBusSubscribe bcMessageBusSubscribe
  rw [hlen, hany]
  split_ifs
  · exact ⟨rfl, h⟩
  · exact ⟨rfl, h⟩
  · exact ⟨rfl, h⟩
  · refine ⟨rfl, ?_⟩
    rw [entries, Compaction.front_update, h, entries]

/-- The rows that are left keep their order. -/
theorem removeClient_entries (table : SubscriptionTable) (fd : ℤ) :
    (table.bcMessageBusRemoveClient fd).entries = table.entries.filter (·.fd ≠ fd) :=
  Compaction.front_loop _ table.rows table.count

/-- The client has subscribed to the topic. -/
def Present (table : SubscriptionTable) (fd : ℤ) (topic : List UInt8) : Prop :=
  ∃ sub ∈ table.entries, sub.fd = fd ∧ sub.topic.str = topic

theorem any_eq_true_iff_present {fd : ℤ} {topic : List UInt8} :
    ((List.range table.count).any fun i =>
      (table.rows i).fd = fd ∧ (table.rows i).topic.str = topic) = true ↔
      table.Present fd topic := by
  rw [List.any_eq_true]
  constructor
  · rintro ⟨i, hi, hrow⟩
    exact ⟨table.rows i, Compaction.mem_front.mpr ⟨i, List.mem_range.mp hi, rfl⟩,
      of_decide_eq_true hrow⟩
  · rintro ⟨sub, hsub, hrow⟩
    obtain ⟨i, hi, rfl⟩ := Compaction.mem_front.mp hsub
    exact ⟨i, List.mem_range.mpr hi, decide_eq_true hrow⟩

section Subscribe

variable {fd : ℤ} {topic : List UInt8}

theorem subscribe_of_full (hne : topic ≠ []) (hfull : bcMaxSubscriptions ≤ table.count) :
    table.bcMessageBusSubscribe fd topic = (.nomem, table) := by
  rw [bcMessageBusSubscribe, if_neg hne, if_pos hfull]

theorem subscribe_of_present (hne : topic ≠ []) (hroom : table.count < bcMaxSubscriptions)
    (h : table.Present fd topic) : table.bcMessageBusSubscribe fd topic = (.ok, table) := by
  rw [bcMessageBusSubscribe, if_neg hne, if_neg (Nat.not_le.mpr hroom),
    if_pos (any_eq_true_iff_present.mpr h)]

theorem subscribe_of_new (hne : topic ≠ []) (hroom : table.count < bcMaxSubscriptions)
    (h : ¬ table.Present fd topic) :
    ∃ table', table.bcMessageBusSubscribe fd topic = (.ok, table') ∧
      table'.count = table.count + 1 ∧
      table'.entries = table.entries ++ [⟨fd, .ofPrefix _ (topic.take (bcMaxTopicLen - 1))⟩] := by
  rw [bcMessageBusSubscribe, if_neg hne, if_neg (Nat.not_le.mpr hroom),
    if_neg (fun hany => h (any_eq_true_iff_present.mp hany))]
  exact ⟨_, rfl, rfl, Compaction.front_update _ _ _⟩

/-- Subscribing leaves the table, or adds one row that was not there. -/
theorem subscribe_step (table : SubscriptionTable) (fd : ℤ) (topic : List UInt8) :
    (table.bcMessageBusSubscribe fd topic).2 = table ∨
      topic ≠ [] ∧ table.count < bcMaxSubscriptions ∧ ¬ table.Present fd topic ∧
        (table.bcMessageBusSubscribe fd topic).2.entries =
          table.entries ++ [⟨fd, .ofPrefix _ (topic.take (bcMaxTopicLen - 1))⟩] ∧
        (table.bcMessageBusSubscribe fd topic).2.count = table.count + 1 := by
  by_cases hne : topic = []
  · rw [bcMessageBusSubscribe, if_pos hne]
    exact .inl rfl
  rcases Nat.lt_or_ge table.count bcMaxSubscriptions with hroom | hfull
  · by_cases hpresent : table.Present fd topic
    · rw [subscribe_of_present hne hroom hpresent]
      exact .inl rfl
    · obtain ⟨table', heq, hcount, hentries⟩ := subscribe_of_new hne hroom hpresent
      rw [heq]
      exact .inr ⟨hne, hroom, hpresent, hentries, hcount⟩
  · rw [subscribe_of_full hne hfull]
    exact .inl rfl

/-- The row that is added holds the topic as far as it has room for it. -/
theorem str_newRow (hnul : (0 : UInt8) ∉ topic) :
    (CBuffer.ofPrefix bcMaxTopicLen (topic.take (bcMaxTopicLen - 1))).str =
      topic.take (bcMaxTopicLen - 1) := by
  have hlen : (topic.take (bcMaxTopicLen - 1)).length < bcMaxTopicLen :=
    (List.length_take_le _ _).trans_lt (by decide)
  rw [CBuffer.str_ofPrefix hlen]
  exact CBuffer.cstr_of_not_mem _ fun h => hnul (List.mem_of_mem_take h)

end Subscribe

end SubscriptionTable

/-- What the system and the peer answer while a connection is accepted: the user of the
peer, and whether there is memory and the descriptor can be watched. -/
structure AcceptAnswers where
  cred : Option UInt32
  allocated : Bool
  watched : Bool
  deriving DecidableEq, Repr

/-- `accept_client_auth`. -/
def acceptClientAuth (socketUid : UInt32) (cred : Option UInt32) : BcStatus :=
  if socketUid > 0 then
    match cred with
    | none => .auth
    | some uid => if uid ≠ socketUid then .auth else .ok
  else .ok

/-- A client as it is allocated. -/
def newClient (fd : ℤ) : BcClient := ⟨fd, [], List.replicate bcClientRxCap 0, 0, [], none, 0⟩

/-- `on_server_event`, for one connection. -/
def onServerEvent {ν : Type*} (socketUid : UInt32) (m : ClientManager ν) (fd : ℤ)
    (answers : AcceptAnswers) : ClientManager ν :=
  if acceptClientAuth socketUid answers.cred ≠ .ok then m
  else if answers.allocated = false then m
  else
    let linked := { m with clients := newClient fd :: m.clients }
    if answers.watched = true then linked
    else { linked with clients := linked.clients.filter (·.fd ≠ fd) }

/-- What `process_frame_buffer` hands on: the topic and the payload are within their
limits. -/
structure FramePayload where
  header : IpcHeader
  channel : List UInt8
  topic : List UInt8
  payload : List UInt8
  topic_lt : topic.length < bcMaxTopicLen
  payload_le : header.payloadLen.toNat ≤ bcMaxPayloadLen

/-- What happens to the clients and their subscriptions. -/
inductive TableOp
  | accept (fd : ℤ) (answers : AcceptAnswers)
  | frame (fd : ℤ) (env : ClientEnv) (payload : FramePayload)
  | inbound (watch : ℤ → Bool) (msg : BcMessage)
  | close (fd : ℤ)

/-- A manager, with the array that its bus keeps. -/
structure TableRun (ν : Type*) where
  m : ClientManager ν
  table : SubscriptionTable

namespace TableRun

variable {ν : Type*} (send : ℕ → List UInt8 → ν → BcStatus × ν) (socketUid : UInt32)

/-- Nothing is connected or subscribed. -/
def start (bus : MessageBus) (transports : ν) : TableRun ν :=
  ⟨⟨[], { bus with subscriptions := [] }, transports, []⟩, .init⟩

def step (r : TableRun ν) : TableOp → TableRun ν
  | .accept fd answers => { r with m := onServerEvent socketUid r.m fd answers }
  | .frame fd env p =>
    match findClient r.m.clients fd with
    | none => r
    | some client =>
      { m := (processIpcPayload send env r.m client p.header p.channel p.topic p.payload).2
        table := if p.header.type = bcIpcSubscribe then
            (r.table.bcMessageBusSubscribe client.fd (CBuffer.cstr p.topic)).2
          else r.table }
  | .inbound watch msg =>
    let d := bcMessageBusDeliverLocal (deliverToClient watch) r.m.bus (-1) msg r.m.clients
    { r with m := { r.m with bus := d.2.1, clients := d.2.2 } }
  | .close fd =>
    match findClient r.m.clients fd with
    | none => r
    | some client => ⟨closeClient r.m client.fd, r.table.bcMessageBusRemoveClient client.fd⟩

/-- The descriptors of the clients that a message goes to in a step. -/
def receives (r : TableRun ν) : TableOp → List ℤ
  | .frame fd env p =>
    ((step send socketUid r (.frame fd env p)).m.history.drop r.m.history.length).flatMap fun a =>
      a.result.appended.map (·.fd)
  | .inbound watch msg =>
    (bcMessageBusDeliverLocal (deliverToClient watch) r.m.bus (-1) msg
      r.m.clients).1.appended.map (·.fd)
  | _ => []

/-- The system gives out a descriptor that no client has. -/
def Fresh (r : TableRun ν) : TableOp → Prop
  | .accept fd _ => ∀ client ∈ r.m.clients, client.fd ≠ fd
  | _ => True

instance (r : TableRun ν) : ∀ op, Decidable (r.Fresh op)
  | .accept fd _ => inferInstanceAs (Decidable (∀ client ∈ r.m.clients, client.fd ≠ fd))
  | .frame _ _ _ => inferInstanceAs (Decidable True)
  | .inbound _ _ => inferInstanceAs (Decidable True)
  | .close _ => inferInstanceAs (Decidable True)

/-- The table follows the clients. -/
structure Sound (r : TableRun ν) : Prop where
  shown : r.m.bus.subscriptions = r.table.entries
  live : ∀ sub ∈ r.table.entries, ∃ client ∈ r.m.clients, client.fd = sub.fd
  distinct : (r.table.entries.map fun sub => (sub.fd, sub.topic.str)).Nodup
  bounded : r.table.count ≤ bcMaxSubscriptions

/-- Closing a client takes its rows out, and no others. -/
def ClosesRows (r : TableRun ν) (op : TableOp) : Prop :=
  ∀ fd, op = .close fd → (∃ client ∈ r.m.clients, client.fd = fd) →
    (step send socketUid r op).table.entries = r.table.entries.filter (·.fd ≠ fd) ∧
      ∀ client ∈ (step send socketUid r op).m.clients, client.fd ≠ fd

/-- A SUBSCRIBE frame of a client. -/
def Subscribes (fd : ℤ) : TableOp → Prop
  | .frame fd' _ p => fd' = fd ∧ p.header.type = bcIpcSubscribe
  | _ => False

section Steps

variable {send socketUid} {r : TableRun ν}

/-- What holds in every state. -/
structure Orderly (r : TableRun ν) : Prop extends r.Sound where
  fds : DistinctFds r.m.clients

theorem start_orderly (bus : MessageBus) (transports : ν) : (start bus transports).Orderly := by
  refine ⟨⟨rfl, ?_, List.nodup_nil, Nat.zero_le _⟩, List.nodup_nil⟩
  intro sub hsub
  simp [start, SubscriptionTable.entries, SubscriptionTable.init, Compaction.front] at hsub

/-- A topic that fits its array is kept as it is. -/
theorem subscribe_cases (table : SubscriptionTable) (fd : ℤ) {topic : List UInt8}
    (hlen : topic.length < bcMaxTopicLen) (hnul : (0 : UInt8) ∉ topic) :
    (table.bcMessageBusSubscribe fd topic).2 = table ∨
      ∃ sub, sub.fd = fd ∧ sub.topic.str = topic ∧ table.count < bcMaxSubscriptions ∧
        (∀ row ∈ table.entries, ¬ (row.fd = fd ∧ row.topic.str = topic)) ∧
        (table.bcMessageBusSubscribe fd topic).2.entries = table.entries ++ [sub] ∧
        (table.bcMessageBusSubscribe fd topic).2.count = table.count + 1 := by
  rcases table.subscribe_step fd topic with hsame | ⟨-, hroom, hnew, hentries, hcount⟩
  · exact .inl hsame
  · have htake : topic.take (bcMaxTopicLen - 1) = topic := List.take_of_length_le (by omega)
    have hstr := SubscriptionTable.str_newRow hnul
    rw [htake] at hstr hentries
    have hother : ∀ row ∈ table.entries, ¬ (row.fd = fd ∧ row.topic.str = topic) :=
      fun row hrow hsame => hnew ⟨row, hrow, hsame⟩
    exact .inr ⟨_, rfl, hstr, hroom, hother, hentries, hcount⟩

variable (send) in
/-- Only a SUBSCRIBE frame touches the subscriptions of the bus. -/
theorem processIpcPayload_subscriptions (env : ClientEnv) (m : ClientManager ν) (client : BcClient)
    (header : IpcHeader) (channel topic payload : List UInt8) :
    (processIpcPayload send env m client header channel topic payload).2.bus.subscriptions =
      if header.type = bcIpcSubscribe then
        (bcMessageBusSubscribe m.bus client.fd (CBuffer.cstr topic)).2.subscriptions
      else m.bus.subscriptions := by
  unfold processIpcPayload
  split_ifs with hsubscribe hpublish
  · rfl
  · exact (agrees_bcMessageBusPublish send m.transports (deliverToClient env.watch) m.bus
      client.fd (publishedMessage header channel topic payload) m.clients).subscriptions
  · rfl
  · cases env.setup client.fd <;> rfl
  · rfl
  · rfl

theorem mem_of_fds {clients clients' : List BcClient}
    (h : clients'.map (·.fd) = clients.map (·.fd)) (fd : ℤ) :
    (∃ client ∈ clients', client.fd = fd) ↔ ∃ client ∈ clients, client.fd = fd := by
  simp only [← List.mem_map, h]

theorem fds_of_identities {clients clients' : List BcClient}
    (h : identities clients' = identities clients) :
    clients'.map (·.fd) = clients.map (·.fd) := by
  have hfst := congrArg (List.map Prod.fst) h
  simpa only [identities, List.map_map, Function.comp_def] using hfst

/-- Steps that leave the descriptors and the table alone. -/
theorem Orderly.same (h : r.Orderly) {m : ClientManager ν}
    (hfds : m.clients.map (·.fd) = r.m.clients.map (·.fd))
    (hsubs : m.bus.subscriptions = r.m.bus.subscriptions) : Orderly ⟨m, r.table⟩ := by
  refine ⟨⟨hsubs.trans h.shown, fun sub hsub => ?_, h.distinct, h.bounded⟩, ?_⟩
  · exact (mem_of_fds hfds sub.fd).mpr (h.live sub hsub)
  · have hdistinct := h.fds
    unfold DistinctFds at hdistinct ⊢
    rwa [hfds]

theorem onServerEvent_cases (socketUid : UInt32) (m : ClientManager ν) (fd : ℤ)
    (answers : AcceptAnswers) (hfresh : ∀ client ∈ m.clients, client.fd ≠ fd) :
    onServerEvent socketUid m fd answers = m ∨
      onServerEvent socketUid m fd answers = { m with clients := newClient fd :: m.clients } := by
  have hfilter : (newClient fd :: m.clients).filter (fun c => decide (c.fd ≠ fd)) = m.clients := by
    rw [List.filter_cons_of_neg (by simp [newClient]), List.filter_eq_self]
    intro client hclient
    simpa using hfresh client hclient
  unfold onServerEvent
  split_ifs
  · exact .inl rfl
  · exact .inl rfl
  · exact .inr rfl
  · refine .inl ?_
    simp only [hfilter]

theorem Orderly.accept (h : r.Orderly) {fd : ℤ} {answers : AcceptAnswers}
    (hfresh : r.Fresh (.accept fd answers)) :
    (step send socketUid r (.accept fd answers)).Orderly := by
  simp only [step]
  obtain hsame | hlinked := onServerEvent_cases socketUid r.m fd answers hfresh
  · rw [hsame]
    exact h
  · rw [hlinked]
    refine ⟨⟨h.shown, fun sub hsub => ?_, h.distinct, h.bounded⟩, ?_⟩
    · obtain ⟨client, hclient, hfd⟩ := h.live sub hsub
      exact ⟨client, List.mem_cons_of_mem _ hclient, hfd⟩
    · refine List.nodup_cons.mpr ⟨fun hmem => ?_, h.fds⟩
      obtain ⟨client, hclient, hfd⟩ := List.mem_map.mp hmem
      exact hfresh client hclient hfd

theorem Orderly.frame (h : r.Orderly) (fd : ℤ) (env : ClientEnv) (p : FramePayload) :
    (step send socketUid r (.frame fd env p)).Orderly := by
  simp only [step]
  cases hclient : findClient r.m.clients fd with
  | none => exact h
  | some client =>
    obtain ⟨hmem, hfd⟩ := findClient_some hclient
    rw [← hfd] at hclient
    have hhandled : Handled send env r.m client
        (processIpcPayload send env r.m client p.header p.channel p.topic p.payload) :=
      processIpcPayload_handled send env h.fds hclient p.topic_lt p.payload_le
    have hfds := fds_of_identities hhandled.identities
    have hsubs := processIpcPayload_subscriptions send env r.m client p.header p.channel p.topic
      p.payload
    by_cases hsubscribe : p.header.type = bcIpcSubscribe
    · rw [if_pos hsubscribe] at hsubs
      have hcstr := CBuffer.cstr_length_le p.topic
      have hlen := p.topic_lt
      have hshown := (SubscriptionTable.subscribe_entries h.shown client.fd
        (CBuffer.cstr p.topic)).2
      simp only [if_pos hsubscribe]
      obtain hsame | ⟨sub, hsub, htopic, hroom, hnew, hentries, hcount⟩ :=
        subscribe_cases r.table client.fd (hcstr.trans_lt hlen) (CBuffer.zero_not_mem_cstr _)
      · rw [hsame] at hshown ⊢
        exact h.same hfds (hsubs.trans (hshown.trans h.shown.symm))
      · refine ⟨⟨hsubs.trans hshown, fun row hrow => ?_, ?_, ?_⟩, ?_⟩
        · rw [mem_of_fds hfds]
          rw [hentries] at hrow
          rcases List.mem_append.mp hrow with hold | hlast
          · exact h.live row hold
          · rw [List.mem_singleton.mp hlast, hsub]
            exact ⟨client, hmem, rfl⟩
        · rw [hentries, List.map_append, List.nodup_append]
          refine ⟨h.distinct, List.nodup_singleton _, ?_⟩
          intro key hkey key' hkey' heq
          obtain ⟨row, hrow, rfl⟩ := List.mem_map.mp hkey
          simp only [List.map_cons, List.map_nil, List.mem_singleton] at hkey'
          rw [hkey', Prod.mk.injEq, hsub, htopic] at heq
          exact hnew row hrow heq
        · rw [hcount]
          exact hroom
        · exact h.fds.of_identities hhandled.identities
    · rw [if_neg hsubscribe] at hsubs
      simp only [if_neg hsubscribe]
      exact h.same hfds hsubs

theorem Orderly.inbound (h : r.Orderly) (watch : ℤ → Bool) (msg : BcMessage) :
    (step send socketUid r (.inbound watch msg)).Orderly :=
  h.same (fds_of_identities (identities_deliverLocalLoop h.fds watch (-1) msg _)) rfl

theorem Orderly.close (h : r.Orderly) (fd : ℤ) :
    (step send socketUid r (.close fd)).Orderly := by
  simp only [step]
  cases hclient : findClient r.m.clients fd with
  | none => exact h
  | some client =>
    have hentries := SubscriptionTable.removeClient_entries r.table client.fd
    refine ⟨⟨?_, fun sub hsub => ?_, ?_, ?_⟩, ?_⟩
    · rw [hentries, ← h.shown]
      rfl
    · rw [hentries, List.mem_filter] at hsub
      obtain ⟨hold, hother⟩ := hsub
      obtain ⟨c, hc, hfd⟩ := h.live sub hold
      rw [← hfd] at hother
      exact ⟨c, List.mem_filter.mpr ⟨hc, hother⟩, hfd⟩
    · rw [hentries]
      exact h.distinct.sublist (List.filter_sublist.map _)
    · rw [← SubscriptionTable.entries_length, hentries]
      have hle := List.length_filter_le (fun sub => decide (sub.fd ≠ client.fd)) r.table.entries
      rw [SubscriptionTable.entries_length] at hle
      exact hle.trans h.bounded
    · exact h.fds.sublist (List.filter_sublist.map _)

theorem Orderly.step (h : r.Orderly) {op : TableOp} (hfresh : r.Fresh op) :
    (step send socketUid r op).Orderly := by
  cases op with
  | accept fd answers => exact h.accept hfresh
  | frame fd env p => exact h.frame fd env p
  | inbound watch msg => exact h.inbound watch msg
  | close fd => exact h.close fd

theorem Orderly.closesRows (h : r.Orderly) (op : TableOp) : ClosesRows send socketUid r op := by
  rintro fd rfl ⟨client, hmem, rfl⟩
  simp only [TableRun.step, findClient_of_mem h.fds hmem]
  refine ⟨SubscriptionTable.removeClient_entries r.table client.fd, fun c hc => ?_⟩
  simpa using (List.mem_filter.mp hc).2

/-- No row belongs to the descriptor. -/
def Unsubscribed (fd : ℤ) (r : TableRun ν) : Prop := ∀ sub ∈ r.table.entries, sub.fd ≠ fd

variable (send socketUid) in
theorem Orderly.unsubscribed (h : r.Orderly) {fd : ℤ} {answers : AcceptAnswers}
    (hfresh : r.Fresh (.accept fd answers)) :
    Unsubscribed fd (TableRun.step send socketUid r (.accept fd answers)) := by
  intro sub hsub hfd
  obtain ⟨client, hclient, hclientFd⟩ := h.live sub hsub
  exact hfresh client hclient (hclientFd.trans hfd)

theorem Unsubscribed.step {fd : ℤ} (h : Unsubscribed fd r) {op : TableOp}
    (hop : ¬ Subscribes fd op) : Unsubscribed fd (TableRun.step send socketUid r op) := by
  cases op with
  | accept fd' answers => exact h
  | inbound watch msg => exact h
  | frame fd' env p =>
    simp only [TableRun.step]
    cases hclient : findClient r.m.clients fd' with
    | none => exact h
    | some client =>
      obtain ⟨-, rfl⟩ := findClient_some hclient
      by_cases hsubscribe : p.header.type = bcIpcSubscribe
      · have hcstr := CBuffer.cstr_length_le p.topic
        simp only [if_pos hsubscribe]
        intro row hrow
        obtain hsame | ⟨sub, hsub, -, -, -, hentries, -⟩ := subscribe_cases r.table client.fd
          (hcstr.trans_lt p.topic_lt) (CBuffer.zero_not_mem_cstr _)
        · rw [hsame] at hrow
          exact h row hrow
        · simp only [hentries] at hrow
          rcases List.mem_append.mp hrow with hold | hlast
          · exact h row hold
          · rw [List.mem_singleton.mp hlast, hsub]
            exact fun hfd => hop ⟨hfd, hsubscribe⟩
      · simp only [if_neg hsubscribe]
        exact h
  | close fd' =>
    simp only [TableRun.step]
    cases findClient r.m.clients fd' with
    | none => exact h
    | some client =>
      intro row hrow
      rw [SubscriptionTable.removeClient_entries] at hrow
      exact h row (List.mem_filter.mp hrow).1

/-- A message goes to the clients of rows only. -/
theorem Orderly.receives (h : r.Orderly) {fd : ℤ} (hfd : Unsubscribed fd r) (op : TableOp) :
    fd ∉ receives send socketUid r op := by
  intro hmem
  cases op with
  | accept fd' answers => cases hmem
  | close fd' => cases hmem
  | inbound watch msg =>
    obtain ⟨sub, hsub, rfl⟩ := List.mem_map.mp hmem
    have hrow := (appended_sublist (deliverToClient watch) (-1) msg r.m.bus.subscriptions
      r.m.clients).subset hsub
    rw [h.shown] at hrow
    exact hfd sub hrow rfl
  | frame fd' env p =>
    simp only [TableRun.receives, TableRun.step] at hmem
    cases hclient : findClient r.m.clients fd' with
    | none => simp [hclient] at hmem
    | some client =>
      simp only [hclient] at hmem
      obtain ⟨-, rfl⟩ := findClient_some hclient
      have hhandled : Handled send env r.m client
          (processIpcPayload send env r.m client p.header p.channel p.topic p.payload) :=
        processIpcPayload_handled send env h.fds hclient p.topic_lt p.payload_le
      obtain ⟨a, ha, hgot⟩ := List.mem_flatMap.mp hmem
      obtain ⟨sub, hsub, rfl⟩ := List.mem_map.mp hgot
      rcases hhandled.history with hsame | ⟨b, hnew, -, -, happended, -⟩
      · rw [hsame, List.drop_length] at ha
        cases ha
      · rw [hnew, List.drop_left, List.mem_singleton] at ha
        rw [ha] at hsub
        have hrow := happended.subset hsub
        rw [h.shown] at hrow
        exact hfd sub hrow rfl

/-- Nothing is received while nobody subscribes for the descriptor. -/
theorem Orderly.collect_receives (h : r.Orderly) {fd : ℤ} (hfd : Unsubscribed fd r)
    {ops : List TableOp} (hfresh : Runs.Meets (TableRun.step send socketUid) Fresh r ops)
    (hops : ∀ op ∈ ops, ¬ Subscribes fd op) :
    fd ∉ Runs.collect (TableRun.step send socketUid) (TableRun.receives send socketUid) r ops := by
  induction ops generalizing r with
  | nil => exact List.not_mem_nil
  | cons op ops ih =>
    obtain ⟨hop, hrest⟩ := (Runs.meets_cons _).mp hfresh
    rw [Runs.collect, List.mem_append, not_or]
    exact ⟨h.receives hfd op,
      ih (h.step hop) (hfd.step (hops op (by simp))) hrest fun o ho =>
        hops o (List.mem_cons_of_mem _ ho)⟩

end Steps

/-- Whatever clients connect, send and are closed: every row belongs to a client that is
there, no row is there twice, there are not too many of them, a closed client takes
its own rows along and no others, and a new client gets nothing before it subscribes,
whoever had its descriptor before. -/
theorem subscriptions_follow_clients (bus : MessageBus) (transports : ν) {ops : List TableOp}
    (hfresh : Runs.Meets (step send socketUid) Fresh (start bus transports) ops) :
    Runs.Along (step send socketUid) Sound (start bus transports) ops ∧
      Runs.Meets (step send socketUid) (ClosesRows send socketUid) (start bus transports) ops ∧
      ∀ before fd answers after, before ++ .accept fd answers :: after <+: ops →
        (∀ op ∈ after, ¬ Subscribes fd op) →
        fd ∉ Runs.collect (step send socketUid) (receives send socketUid)
          (Runs.run (step send socketUid) (start bus transports) (before ++ [.accept fd answers]))
          after := by
  have halong : Runs.Along (step send socketUid) Orderly (start bus transports) ops :=
    Runs.along_of_meets (step send socketUid) (A := fun _ => True) (fun r op h _ hop => h.step hop)
      (start_orderly bus transports) (fun _ _ => trivial) hfresh
  refine ⟨fun pre hpre => (halong pre hpre).toSound, fun pre op hpre => ?_, ?_⟩
  · exact (halong pre ((List.prefix_append pre [op]).trans hpre)).closesRows op
  · intro before fd answers after hfront hafter
    have haccepted : before ++ [.accept fd answers] <+: ops := by
      refine List.IsPrefix.trans ⟨after, ?_⟩ hfront
      rw [List.append_assoc, List.singleton_append]
    obtain ⟨rest, rfl⟩ := hfront
    obtain ⟨hmeets, -⟩ := (Runs.meets_append _).mp hfresh
    rw [List.append_cons] at hmeets
    obtain ⟨hbefore, hmeets⟩ := (Runs.meets_append _).mp hmeets
    have hstart := halong before ((List.prefix_append before _).trans haccepted)
    have hnone := hstart.unsubscribed send socketUid
      (hbefore before (.accept fd answers) List.prefix_rfl)
    have hlast := halong _ haccepted
    rw [Runs.run_append] at hmeets hlast ⊢
    exact hlast.collect_receives hnone hmeets hafter

theorem tSubscribe_payload_le : (0 : UInt32).toNat ≤ bcMaxPayloadLen := by decide

/-- A SUBSCRIBE frame for the topic `t`. -/
def tSubscribe : FramePayload :=
  { header := { IpcHeader.zero with magic := bcIpcMagic, version := bcIpcVersion,
                                    type := bcIpcSubscribe, topicLen := 1 }
    channel := [], topic := [0x74], payload := [], topic_lt := tFrame_topic_lt
    payload_le := tSubscribe_payload_le }

/-- A client subscribes and is closed, and another one gets its descriptor. -/
def reusedOps : List TableOp :=
  [.accept 5 ⟨none, true, true⟩, .frame 5 quietEnv tSubscribe, .close 5,
    .accept 5 ⟨none, true, true⟩, .inbound quietEnv.watch (tMessage 2)]

theorem reusedOps_fresh :
    Runs.Meets (step noSend 0) Fresh (start (tBus bcStatsReset) ()) reusedOps := by
  decide +kernel

theorem subscriptions_follow_clients_reused :
    Runs.Along (step noSend 0) Sound (start (tBus bcStatsReset) ()) reusedOps ∧
      Runs.Meets (step noSend 0) (ClosesRows noSend 0) (start (tBus bcStatsReset) ()) reusedOps ∧
      ∀ before fd answers after, before ++ .accept fd answers :: after <+: reusedOps →
        (∀ op ∈ after, ¬ Subscribes fd op) →
        fd ∉ Runs.collect (step noSend 0) (receives noSend 0)
          (Runs.run (step noSend 0) (start (tBus bcStatsReset) ())
            (before ++ [.accept fd answers])) after :=
  subscriptions_follow_clients noSend 0 (tBus bcStatsReset) () reusedOps_fresh

section Events

variable {send} {env : ClientEnv} {m : ClientManager ν} {client : BcClient} {fd : ℤ}

/-- Some array follows the clients of the manager. -/
def Followed (m : ClientManager ν) : Prop := ∃ table, Orderly ⟨m, table⟩

theorem Followed.fds (h : Followed m) : DistinctFds m.clients := by
  obtain ⟨table, horderly⟩ := h
  exact horderly.fds

theorem Followed.same {m' : ClientManager ν} (h : Followed m)
    (hfds : m'.clients.map (·.fd) = m.clients.map (·.fd))
    (hsubs : m'.bus.subscriptions = m.bus.subscriptions) : Followed m' := by
  obtain ⟨table, horderly⟩ := h
  exact ⟨table, horderly.same hfds hsubs⟩

theorem Followed.closeClient (h : Followed m) (fd : ℤ) : Followed (closeClient m fd) := by
  obtain ⟨table, horderly⟩ := h
  cases hclient : findClient m.clients fd with
  | none =>
    have hnone : ∀ client ∈ m.clients, client.fd ≠ fd := by
      intro client hclient' hfd
      rw [← hfd, findClient_of_mem horderly.fds hclient'] at hclient
      cases hclient
    refine ⟨table, horderly.same ?_ ?_⟩
    · rw [BoardComm.closeClient, List.filter_eq_self.mpr]
      intro client hclient'
      simpa using hnone client hclient'
    · refine List.filter_eq_self.mpr fun sub hsub => ?_
      have hshown : m.bus.subscriptions = table.entries := horderly.shown
      rw [hshown] at hsub
      obtain ⟨client, hclient', hfd⟩ := horderly.live sub hsub
      rw [← hfd]
      simpa using hnone client hclient'
  | some client =>
    have hclosed : Orderly (TableRun.step (fun _ _ s => (.ok, s)) 0 ⟨m, table⟩ (.close fd)) :=
      horderly.close fd
    simp only [TableRun.step, hclient, (findClient_some hclient).2] at hclosed
    exact ⟨_, hclosed⟩

theorem Followed.closeOnError {r : BcStatus × ClientManager ν} (h : Followed r.2) (fd : ℤ) :
    Followed (closeOnError fd r) := by
  unfold BoardComm.closeOnError
  split_ifs
  · exact h
  · exact h.closeClient fd

/-- What `process_frame_buffer` does is a frame of the client, or nothing. -/
theorem Followed.processFrameBuffer (h : Followed m)
    (hclient : findClient m.clients fd = some client) (data : List UInt8) (len : ℕ) :
    Followed (processFrameBuffer send env m client data len).2 := by
  unfold BoardComm.processFrameBuffer
  split_ifs with hshort
  · exact h
  simp only
  split_ifs with hmagic hheader hlimits hwhole
  · exact h
  · exact h
  · exact h
  · exact h
  · obtain ⟨table, horderly⟩ := h
    push Not at hlimits
    obtain ⟨-, -, htopic, hpayload⟩ := hlimits
    let header := IpcHeader.ofBytes data
    let rest := (data.drop (bcIpcHeaderSize header.version)).drop header.channelLen.toNat
    have htopic_lt : (rest.take header.topicLen.toNat).length < bcMaxTopicLen :=
      (List.length_take_le _ _).trans_lt htopic
    let payload : FramePayload :=
      ⟨header, (data.drop (bcIpcHeaderSize header.version)).take header.channelLen.toNat,
        rest.take header.topicLen.toNat, ((data.drop (bcIpcHeaderSize header.version)).drop
          (header.channelLen.toNat + header.topicLen.toNat)).take header.payloadLen.toNat,
        htopic_lt, hpayload⟩
    have hframe : Orderly (TableRun.step send 0 ⟨m, table⟩ (.frame fd env payload)) :=
      horderly.frame fd env payload
    simp only [TableRun.step, hclient] at hframe
    exact ⟨_, hframe⟩

theorem fds_map {clients : List BcClient} {g : BcClient → BcClient} (hg : ∀ c, (g c).fd = c.fd) :
    (clients.map fun c => if c.fd = fd then g c else c).map (·.fd) = clients.map (·.fd) := by
  rw [List.map_map]
  refine List.map_congr_left fun c _ => ?_
  rw [Function.comp_apply]
  split_ifs
  · exact hg c
  · rfl

theorem Followed.processOneMessage (h : Followed m)
    (hclient : findClient m.clients fd = some client) :
    Followed (processOneMessage send env m client).2 := by
  have hbuffer : ∀ data len, Followed (BoardComm.processFrameBuffer send env m client data len).2 :=
    fun data len => h.processFrameBuffer hclient data len
  unfold BoardComm.processOneMessage
  split_ifs
  · exact h
  simp only
  split_ifs
  · exact h
  · exact h
  · exact h
  · exact (hbuffer _ _).same (fds_map fun _ => rfl) rfl
  · exact hbuffer _ _

theorem Followed.processMessages (h : Followed m) (fd : ℤ) (rounds : ℕ) :
    Followed (processMessagesLoop send env fd rounds m).2 := by
  induction rounds generalizing m with
  | zero => exact h
  | succ rounds ih =>
    rw [processMessagesLoop]
    cases hclient : findClient m.clients fd with
    | none => exact h
    | some client =>
      have hone : Followed (BoardComm.processOneMessage send env m client).2 :=
        h.processOneMessage hclient
      simp only
      split_ifs
      · exact ih hone
      · exact hone
      · exact hone

theorem Followed.turn (h : Followed m) (t : Turn) : Followed (m.turn send t) := by
  cases t with
  | resume fd env =>
    simp only [ClientManager.turn, resumeClient]
    cases findClient m.clients fd with
    | none => exact h
    | some client =>
      simp only
      split_ifs
      · exact h
      · exact (h.processMessages client.fd client.rx.length).closeOnError fd
  | read fd env data =>
    simp only [ClientManager.turn]
    cases findClient m.clients fd with
    | none => exact h
    | some client =>
      have hread : Followed (appendRx m fd (client.taken data)) :=
        h.same (fds_map fun _ => rfl) rfl
      exact (hread.processMessages _ _).closeOnError fd
  | ring fd env data stale =>
    simp only [ClientManager.turn]
    cases hclient : findClient m.clients fd with
    | none => exact h
    | some client => exact (h.processFrameBuffer hclient _ _).closeOnError fd
  | flush fd watch writes =>
    simp only [ClientManager.turn]
    cases hclient : findClient m.clients fd with
    | none => exact h
    | some client =>
      obtain ⟨hfd, hrx, hconsumed, -⟩ := flushClientTx_identity watch writes client
      have hflushed : Followed { m with
          clients := setClient m.clients (flushClientTx watch writes client).2 } :=
        h.same (fds_of_identities (identities_setClient h.fds hclient hfd hrx hconsumed)) rfl
      simp only
      split_ifs
      · exact hflushed.closeClient fd
      · exact hflushed
  | close fd => exact h.closeClient fd
  | deliver fd watch data =>
    exact h.same (fds_of_identities (identities_deliverToClient h.fds watch fd data)) rfl

/-- Whatever the clients send and the system answers, and whoever is closed on the way
by whose event: the rows are those of clients that are there. -/
theorem Followed.events (h : Followed m) (events : List ManagerEvent) :
    Followed (Runs.run (ClientManager.step send) m events) := by
  rw [← run_runTurns]
  exact Runs.run_of_step (ClientManager.turn send) (fun _ t hm => hm.turn t) h _

end Events

end TableRun

end BoardComm
