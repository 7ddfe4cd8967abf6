import BoardComm.ClientManager

/-!
# What one local delivery does

The delivery loop runs over the entries that want the message. Whether all of
them get it, and whether any does, is decided by the room of their clients before
the loop: an entry needs room for its own copy and for those of the other entries
of its client.
-/
namespace BoardComm

section Clients

variable {clients : List BcClient} {client : BcClient} {fd : ℤ}

/-- What a delivery leaves alone. -/
def identities (clients : List BcClient) : List (ℤ × List UInt8 × ℕ) :=
  clients.map fun c => (c.fd, c.rx, c.consumed)

/-- Every client has a descriptor of its own. -/
def DistinctFds (clients : List BcClient) : Prop := (clients.map (·.fd)).Nodup

/-- No client has a session: all are served on their sockets. -/
def Sockets (clients : List BcClient) : Prop := ∀ c ∈ clients, c.shm = none

theorem DistinctFds.of_identities {clients' : List BcClient} (h : DistinctFds clients)
    (hid : identities clients' = identities clients) : DistinctFds clients' := by
  have hfds : ∀ cs : List BcClient, cs.map (·.fd) = (identities cs).map Prod.fst := by
    intro cs
    simp [identities, Function.comp_def]
  rw [DistinctFds, hfds, hid, ← hfds]
  exact h

theorem mem_identities {clients' : List BcClient}
    (hid : identities clients' = identities clients) {c : BcClient} (hc : c ∈ clients') :
    ∃ d ∈ clients, d.fd = c.fd ∧ d.rx = c.rx ∧ d.consumed = c.consumed := by
  have hmem : (c.fd, c.rx, c.consumed) ∈ identities clients := by
    rw [← hid]
    exact List.mem_map_of_mem hc
  obtain ⟨d, hd, heq⟩ := List.mem_map.mp hmem
  simp only [Prod.mk.injEq] at heq
  exact ⟨d, hd, heq⟩

theorem findClient_some (h : findClient clients fd = some client) :
    client ∈ clients ∧ client.fd = fd := by
  refine ⟨List.mem_of_find?_eq_some h, ?_⟩
  simpa using List.find?_some h

theorem eq_of_findClient (hfds : DistinctFds clients) (h : findClient clients fd = some client)
    {c : BcClient} (hc : c ∈ clients) (hfd : c.fd = fd) : c = client := by
  obtain ⟨hmem, hclient⟩ := findClient_some h
  exact List.inj_on_of_nodup_map hfds hc hmem (hfd.trans hclient.symm)

theorem findClient_of_mem (hfds : DistinctFds clients) {c : BcClient} (hc : c ∈ clients) :
    findClient clients c.fd = some c := by
  cases hfind : findClient clients c.fd with
  | none =>
    rw [findClient, List.find?_eq_none] at hfind
    exact absurd (decide_eq_true rfl) (hfind c hc)
  | some client => rw [eq_of_findClient hfds hfind hc rfl]

theorem findClient_setClient (clients : List BcClient) (client : BcClient) (fd : ℤ) :
    findClient (setClient clients client) fd =
      (findClient clients fd).map fun c => if c.fd = client.fd then client else c := by
  rw [findClient, setClient, List.find?_map, findClient]
  congr 1
  apply congrArg (List.find? · clients)
  funext c
  by_cases hc : c.fd = client.fd
  · simp [hc]
  · simp [hc]

/-- Writing back a client with the same identity. -/
theorem identities_setClient (hfds : DistinctFds clients)
    (h : findClient clients fd = some client) {c : BcClient} (hfd : c.fd = client.fd)
    (hrx : c.rx = client.rx) (hconsumed : c.consumed = client.consumed) :
    identities (setClient clients c) = identities clients := by
  rw [identities, setClient, List.map_map, identities]
  apply List.map_congr_left
  intro d hd
  by_cases hdc : d.fd = c.fd
  · have hclient := (findClient_some h).2
    rw [eq_of_findClient hfds h hd (by rw [hdc, hfd, hclient])]
    simp [hfd, hrx, hconsumed]
  · simp [hdc]

theorem enqueueClientTx_identity (watch : Bool) (client : BcClient) (data : List UInt8) :
    (enqueueClientTx watch client data).2.fd = client.fd ∧
      (enqueueClientTx watch client data).2.rx = client.rx ∧
      (enqueueClientTx watch client data).2.consumed = client.consumed := by
  unfold enqueueClientTx
  split
  · exact ⟨rfl, rfl, rfl⟩
  · dsimp only
    generalize (if client.txOff > 0 ∧ client.txOff + client.tx.length + data.length > bcClientTxCap
      then 0 else client.txOff) = off
    split <;> exact ⟨rfl, rfl, rfl⟩

theorem enqueueClientTx_shm (watch : Bool) (client : BcClient) (data : List UInt8) :
    (enqueueClientTx watch client data).2.shm = client.shm := by
  unfold enqueueClientTx
  split
  · rfl
  · dsimp only
    generalize (if client.txOff > 0 ∧ client.txOff + client.tx.length + data.length > bcClientTxCap
      then 0 else client.txOff) = off
    split <;> rfl

theorem deliverToRing_identity (watch : Bool) (client : BcClient) (session : ShmSession) :
    (deliverToRing watch client session).2.fd = client.fd ∧
      (deliverToRing watch client session).2.rx = client.rx ∧
      (deliverToRing watch client session).2.consumed = client.consumed := by
  unfold deliverToRing
  dsimp only
  split
  · exact enqueueClientTx_identity watch _ _
  · exact ⟨rfl, rfl, rfl⟩

theorem Sockets.setClient (h : Sockets clients) (hclient : client.shm = none) :
    Sockets (setClient clients client) := by
  intro c hc
  obtain ⟨d, hd, rfl⟩ := List.mem_map.mp hc
  split
  · exact hclient
  · exact h d hd

/-- Moving the waiting bytes to the front makes their number decide. -/
theorem enqueueClientTx_eq (watch : Bool) (client : BcClient) {data : List UInt8}
    (hdata : data.length ≤ bcClientTxCap) :
    (enqueueClientTx watch client data).1 =
        (if client.tx.length + data.length ≤ bcClientTxCap then ⟨watchStatus watch, true⟩
        else ⟨.nomem, false⟩) ∧
      (enqueueClientTx watch client data).2.tx =
        if client.tx.length + data.length ≤ bcClientTxCap then client.tx ++ data
        else client.tx := by
  unfold enqueueClientTx
  rw [if_neg (by omega)]
  by_cases hroom : client.tx.length + data.length ≤ bcClientTxCap
  · have hoff : ¬ (if client.txOff > 0 ∧
        client.txOff + client.tx.length + data.length > bcClientTxCap then 0
        else client.txOff) + client.tx.length + data.length > bcClientTxCap := by
      split_ifs <;> omega
    simp only [if_neg hoff, if_pos hroom, and_self]
  · have hoff : (if client.txOff > 0 ∧
        client.txOff + client.tx.length + data.length > bcClientTxCap then 0
        else client.txOff) + client.tx.length + data.length > bcClientTxCap := by
      split_ifs <;> omega
    simp only [if_pos hoff, if_neg hroom, and_self]

end Clients

section Answer

variable {clients : List BcClient} {watch : ℤ → Bool} {data : List UInt8} {fd : ℤ}

theorem identities_deliverToClient (hfds : DistinctFds clients) (watch : ℤ → Bool) (fd : ℤ)
    (data : List UInt8) :
    identities (deliverToClient watch fd data clients).2 = identities clients := by
  unfold deliverToClient
  cases h : findClient clients fd with
  | none => rfl
  | some client =>
    dsimp only
    cases client.shm with
    | none =>
      obtain ⟨hfd, hrx, hconsumed⟩ := enqueueClientTx_identity (watch fd) client data
      exact identities_setClient hfds h hfd hrx hconsumed
    | some session =>
      obtain ⟨hfd, hrx, hconsumed⟩ := deliverToRing_identity (watch fd) client session
      exact identities_setClient hfds h hfd hrx hconsumed

/-- What a client can still be given: the bytes that wait for its socket, or the
answers of its ring. -/
inductive ClientRoom
  | socket (waiting : ℕ)
  | ring (writes : List BcStatus)

/-- The room after a frame of the length was delivered. -/
def ClientRoom.after (n : ℕ) : ClientRoom → ClientRoom
  | .socket w => .socket (if w + n ≤ bcClientTxCap then w + n else w)
  | .ring writes => .ring writes.tail

/-- There is room for so many copies, and the client can be registered for writing. -/
def ClientRoom.Takes (watch : Bool) (n copies : ℕ) : ClientRoom → Prop
  | .socket w => w + copies * n ≤ bcClientTxCap ∧ watch = true
  | .ring writes => List.replicate copies .ok <+: writes

/-- None of so many copies leaves a byte with the client. -/
def ClientRoom.Refuses (n copies : ℕ) : ClientRoom → Prop
  | .socket w => 0 < copies → ¬ w + n ≤ bcClientTxCap
  | .ring writes => .ok ∉ writes.take copies

theorem ClientRoom.takes_succ (watch : Bool) (n k : ℕ) (r : ClientRoom) :
    r.Takes watch n (k + 1) ↔ r.Takes watch n 1 ∧ (r.after n).Takes watch n k := by
  cases r with
  | socket w =>
    simp only [Takes, after, Nat.add_mul, one_mul]
    constructor
    · rintro ⟨hroom, hwatch⟩
      have hfirst : w + n ≤ bcClientTxCap := by omega
      rw [if_pos hfirst]
      exact ⟨⟨hfirst, hwatch⟩, by omega, hwatch⟩
    · rintro ⟨⟨hfirst, hwatch⟩, hrest, -⟩
      rw [if_pos hfirst] at hrest
      exact ⟨by omega, hwatch⟩
  | ring writes =>
    simp only [Takes, after]
    cases writes with
    | nil => simp [List.replicate_succ]
    | cons rc writes => simp [List.replicate_succ, List.cons_prefix_cons]

theorem ClientRoom.refuses_succ (n k : ℕ) (r : ClientRoom) :
    r.Refuses n (k + 1) ↔ r.Refuses n 1 ∧ (r.after n).Refuses n k := by
  cases r with
  | socket w =>
    simp only [Refuses, after]
    by_cases hfirst : w + n ≤ bcClientTxCap
    · simp [hfirst]
    · simp [hfirst]
  | ring writes =>
    simp only [Refuses, after]
    cases writes with
    | nil => simp
    | cons rc writes => simp

def BcClient.room (client : BcClient) : ClientRoom :=
  match client.shm with
  | none => .socket client.tx.length
  | some session => .ring session.writes

/-- The room of a client. -/
def roomOf (clients : List BcClient) (fd : ℤ) : Option ClientRoom :=
  (findClient clients fd).map BcClient.room

theorem enqueueClientTx_room {client : BcClient} (hshm : client.shm = none)
    (watch : Bool) (hdata : data.length ≤ bcClientTxCap) :
    ((enqueueClientTx watch client data).1.rc = .ok ↔ client.room.Takes watch data.length 1) ∧
      ((enqueueClientTx watch client data).1.appended = false ↔
        client.room.Refuses data.length 1) ∧
      (enqueueClientTx watch client data).2.room = client.room.after data.length := by
  obtain ⟨hanswer, htx⟩ := enqueueClientTx_eq watch client hdata
  have hshm' := (enqueueClientTx_shm watch client data).trans hshm
  simp only [BcClient.room, hshm, hshm', hanswer, htx, ClientRoom.Takes, ClientRoom.Refuses,
    ClientRoom.after]
  by_cases hroom : client.tx.length + data.length ≤ bcClientTxCap
  · cases watch <;> simp [hroom, watchStatus]
  · simp [hroom]

theorem deliverToRing_room {client : BcClient} {session : ShmSession}
    (hshm : client.shm = some session) (watch : Bool) (n : ℕ) :
    ((deliverToRing watch client session).1.rc = .ok ↔ client.room.Takes watch n 1) ∧
      ((deliverToRing watch client session).1.appended = false ↔ client.room.Refuses n 1) ∧
      (deliverToRing watch client session).2.room = client.room.after n := by
  obtain ⟨writes⟩ := session
  unfold deliverToRing bcShmRingWrite
  cases writes with
  | nil => simp [BcClient.room, hshm, ClientRoom.Takes, ClientRoom.Refuses, ClientRoom.after]
  | cons rc writes =>
    by_cases hrc : rc = .ok
    · simp [BcClient.room, hshm, ClientRoom.Takes, ClientRoom.Refuses, ClientRoom.after, hrc,
        enqueueClientTx_shm]
    · simp [BcClient.room, hshm, ClientRoom.Takes, ClientRoom.Refuses, ClientRoom.after, hrc, eq_comm]

/-- What delivering a frame says and does, by the room of the client. -/
theorem deliverToClient_room (clients : List BcClient) (watch : ℤ → Bool)
    (hdata : data.length ≤ bcClientTxCap) (fd : ℤ) :
    ((deliverToClient watch fd data clients).1.rc = .ok ↔
        ∃ r, roomOf clients fd = some r ∧ r.Takes (watch fd) data.length 1) ∧
      ((deliverToClient watch fd data clients).1.appended = false ↔
        ∀ r, roomOf clients fd = some r → r.Refuses data.length 1) ∧
      ∀ fd', roomOf (deliverToClient watch fd data clients).2 fd' =
        (roomOf clients fd').map fun r => if fd' = fd then r.after data.length else r := by
  unfold deliverToClient roomOf
  cases h : findClient clients fd with
  | none =>
    refine ⟨by simp, by simp, fun fd' => ?_⟩
    by_cases hfd : fd' = fd
    · rw [hfd, h]
      rfl
    · simp [hfd, Function.comp_def]
  | some client =>
    have hwrite : ∀ c : BcClient, c.fd = client.fd → c.room = client.room.after data.length →
        ∀ fd', (findClient (setClient clients c) fd').map BcClient.room =
          ((findClient clients fd').map BcClient.room).map
            fun r => if fd' = fd then r.after data.length else r := by
      intro c hc hroom fd'
      have hfd := (findClient_some h).2
      rw [findClient_setClient, hc, hfd, Option.map_map, Option.map_map]
      cases hother : findClient clients fd' with
      | none => rfl
      | some other =>
        have hother' := (findClient_some hother).2
        by_cases heq : fd' = fd
        · rw [heq] at hother hother'
          rw [h] at hother
          cases hother
          simp [heq, hfd, hroom]
        · simp [heq, hother']
    dsimp only
    cases hshm : client.shm with
    | none =>
      obtain ⟨hok, happended, hroom⟩ := enqueueClientTx_room hshm (watch fd) hdata
      refine ⟨by simpa using hok, by simpa using happended, hwrite _ ?_ hroom⟩
      exact (enqueueClientTx_identity (watch fd) client data).1
    | some session =>
      obtain ⟨hok, happended, hroom⟩ := deliverToRing_room hshm (watch fd) data.length
      refine ⟨by simpa using hok, by simpa using happended, hwrite _ ?_ hroom⟩
      exact (deliverToRing_identity (watch fd) client session).1

/-- A client without a session gets its frames on its socket. -/
theorem deliverToClient_socket (hsock : Sockets clients) (watch : ℤ → Bool) (fd : ℤ)
    (data : List UInt8) :
    deliverToClient watch fd data clients =
      match findClient clients fd with
      | none => (⟨.notFound, false⟩, clients)
      | some client =>
        ((enqueueClientTx (watch fd) client data).1,
          setClient clients (enqueueClientTx (watch fd) client data).2) := by
  unfold deliverToClient
  cases h : findClient clients fd with
  | none => rfl
  | some client => simp only [hsock client (findClient_some h).1]

theorem Sockets.deliverToClient (hsock : Sockets clients) (watch : ℤ → Bool) (fd : ℤ)
    (data : List UInt8) : Sockets (deliverToClient watch fd data clients).2 := by
  rw [deliverToClient_socket hsock]
  cases h : findClient clients fd with
  | none => exact hsock
  | some client =>
    apply hsock.setClient
    rw [enqueueClientTx_shm]
    exact hsock client (findClient_some h).1

/-- The bytes that are on their way to a client. -/
def streamOf (clients : List BcClient) (fd : ℤ) : Option (List UInt8) :=
  (findClient clients fd).map (·.tx)

/-- The stream of a client grows by the frame, or not at all. -/
theorem streamOf_deliverToClient (hsock : Sockets clients) (watch : ℤ → Bool)
    (hdata : data.length ≤ bcClientTxCap) (fd fd' : ℤ) :
    streamOf (BoardComm.deliverToClient watch fd data clients).2 fd' =
      (streamOf clients fd').map (· ++
        if fd = fd' ∧ (BoardComm.deliverToClient watch fd data clients).1.appended = true then data
        else []) := by
  rw [deliverToClient_socket hsock, streamOf, streamOf]
  cases h : findClient clients fd with
  | none => simp [Function.comp_def]
  | some client =>
    have hfd := (findClient_some h).2
    have hid := (enqueueClientTx_identity (watch fd) client data).1
    obtain ⟨hanswer, htx⟩ := enqueueClientTx_eq (watch fd) client hdata
    simp only [findClient_setClient, Option.map_map, hid, hfd, hanswer]
    by_cases hfd' : fd = fd'
    · subst hfd'
      rw [h]
      by_cases hroom : client.tx.length + data.length ≤ bcClientTxCap <;>
        simp [hfd, htx, hroom]
    · cases h' : findClient clients fd' with
      | none => rfl
      | some client' =>
        have hne : client'.fd ≠ fd := by
          rw [(findClient_some h').2]
          exact fun heq => hfd' heq.symm
        simp [hne, hfd']

end Answer

section Loop

variable {clients : List BcClient} {watch : ℤ → Bool} {msg : BcMessage} {source : ℤ}

/-- The number of entries of a client. -/
def copies (subs : List BcSubscription) (fd : ℤ) : ℕ := subs.countP (·.fd = fd)

/-- Every entry gets the frame of the length: its client takes a copy for each of
its entries. -/
def AllTake (clients : List BcClient) (watch : ℤ → Bool) (n : ℕ) (subs : List BcSubscription) :
    Prop :=
  ∀ sub ∈ subs, ∃ r, roomOf clients sub.fd = some r ∧
    r.Takes (watch sub.fd) n (copies subs sub.fd)

/-- No entry gets the frame. -/
def NoneTake (clients : List BcClient) (n : ℕ) (subs : List BcSubscription) : Prop :=
  ∀ sub ∈ subs, ∀ r, roomOf clients sub.fd = some r → r.Refuses n (copies subs sub.fd)

/-- Only the entries that want the message matter to the loop. -/
theorem deliverLocalLoop_filter {σ : Type*} (deliver : ℤ → List UInt8 → σ → DeliverAnswer × σ)
    (source : ℤ) (msg : BcMessage) (subs : List BcSubscription) (s : σ) :
    deliverLocalLoop deliver source msg subs s =
      deliverLocalLoop deliver source msg (subs.filter (·.wants source msg)) s := by
  induction subs generalizing s with
  | nil => rfl
  | cons sub subs ih =>
    by_cases hwants : sub.wants source msg = true
    · rw [List.filter_cons_of_pos hwants, deliverLocalLoop, deliverLocalLoop, if_pos hwants,
        if_pos hwants]
      dsimp only
      rw [ih]
    · rw [List.filter_cons_of_neg hwants, deliverLocalLoop, if_neg hwants, ih]

/-- The entries that got the frame are some of those that were to get it. -/
theorem appended_sublist {σ : Type*} (deliver : ℤ → List UInt8 → σ → DeliverAnswer × σ)
    (source : ℤ) (msg : BcMessage) (subs : List BcSubscription) (s : σ) :
    (deliverLocalLoop deliver source msg subs s).1.appended.Sublist subs := by
  induction subs generalizing s with
  | nil => exact List.Sublist.refl _
  | cons sub subs ih =>
    rw [deliverLocalLoop]
    split
    · simp only [LocalDelivery.add]
      split
      · exact (ih _).cons_cons sub
      · exact (ih _).cons sub
    · exact (ih _).cons sub

theorem identities_deliverLocalLoop (hfds : DistinctFds clients) (watch : ℤ → Bool) (source : ℤ)
    (msg : BcMessage) (subs : List BcSubscription) :
    identities (deliverLocalLoop (deliverToClient watch) source msg subs clients).2 =
      identities clients := by
  induction subs generalizing clients with
  | nil => rfl
  | cons sub subs ih =>
    rw [deliverLocalLoop]
    split
    · have hid := identities_deliverToClient hfds watch sub.fd (deliverFrame msg)
      exact (ih (hfds.of_identities hid)).trans hid
    · exact ih hfds

theorem Sockets.deliverLocalLoop (hsock : Sockets clients) (watch : ℤ → Bool) (source : ℤ)
    (msg : BcMessage) (subs : List BcSubscription) :
    Sockets (BoardComm.deliverLocalLoop (BoardComm.deliverToClient watch) source msg subs
      clients).2 := by
  induction subs generalizing clients with
  | nil => exact hsock
  | cons sub subs ih =>
    rw [BoardComm.deliverLocalLoop]
    split
    · exact ih (hsock.deliverToClient watch sub.fd _)
    · exact ih hsock

theorem matched_eq {subs : List BcSubscription} (hwants : ∀ sub ∈ subs, sub.wants source msg = true)
    {σ : Type*} (deliver : ℤ → List UInt8 → σ → DeliverAnswer × σ) (s : σ) :
    (deliverLocalLoop deliver source msg subs s).1.matched = subs.length ∧
      (deliverLocalLoop deliver source msg subs s).1.delivered +
        (deliverLocalLoop deliver source msg subs s).1.failed = subs.length := by
  induction subs generalizing s with
  | nil => exact ⟨rfl, rfl⟩
  | cons sub subs ih =>
    obtain ⟨hmatched, hsum⟩ := ih (fun d hd => hwants d (List.mem_cons_of_mem _ hd))
      (deliver sub.fd (deliverFrame msg) s).2
    rw [deliverLocalLoop, if_pos (hwants sub (by simp))]
    simp only [LocalDelivery.add, List.length_cons, hmatched]
    constructor
    · trivial
    · split <;> omega

theorem copies_cons (sub : BcSubscription) (subs : List BcSubscription) (fd : ℤ) :
    copies (sub :: subs) fd = copies subs fd + if sub.fd = fd then 1 else 0 := by
  simp [copies, List.countP_cons]

/-- A property of the room and the number of copies that can be checked copy by
copy can be checked entry by entry, each in the state that the one before leaves. -/
theorem forall_copies_cons {P : ℤ → Option ClientRoom → ℕ → Prop} {after : ClientRoom → ClientRoom}
    (hP : ∀ fd o k, P fd o (k + 1) ↔ P fd o 1 ∧ P fd (o.map after) k)
    {sub : BcSubscription} {rooms rooms' : ℤ → Option ClientRoom}
    (hrooms : ∀ fd, rooms' fd = (rooms fd).map fun r => if fd = sub.fd then after r else r)
    (subs : List BcSubscription) :
    (∀ s ∈ sub :: subs, P s.fd (rooms s.fd) (copies (sub :: subs) s.fd)) ↔
      P sub.fd (rooms sub.fd) 1 ∧ ∀ s ∈ subs, P s.fd (rooms' s.fd) (copies subs s.fd) := by
  have hsame : ∀ fd, fd = sub.fd → rooms' fd = (rooms fd).map after := by
    rintro fd rfl
    simp [hrooms]
  have hother : ∀ fd, fd ≠ sub.fd → rooms' fd = rooms fd := by
    intro fd hfd
    simp [hrooms, hfd]
  -- an entry behind the first needs its room behind the copy of the first
  have hlater : ∀ s : BcSubscription, P s.fd (rooms s.fd) (copies (sub :: subs) s.fd) ↔
      (s.fd = sub.fd → P s.fd (rooms s.fd) 1) ∧ P s.fd (rooms' s.fd) (copies subs s.fd) := by
    intro s
    by_cases hfd : s.fd = sub.fd
    · rw [copies_cons, if_pos hfd.symm, hP, hsame s.fd hfd]
      simp [hfd]
    · rw [copies_cons, if_neg fun h => hfd h.symm, Nat.add_zero, hother s.fd hfd]
      simp [hfd]
  constructor
  · intro h
    refine ⟨((hlater sub).mp (h sub (by simp))).1 rfl, fun s hs => ?_⟩
    exact ((hlater s).mp (h s (List.mem_cons_of_mem _ hs))).2
  · rintro ⟨hfirst, hrest⟩ s hs
    have hone : s.fd = sub.fd → P s.fd (rooms s.fd) 1 := by
      intro hfd
      rw [hfd]
      exact hfirst
    rcases List.mem_cons.mp hs with rfl | hs
    · by_cases hmore : copies subs s.fd = 0
      · rw [copies_cons, hmore, if_pos rfl]
        exact hfirst
      · obtain ⟨s', hs', hfd⟩ := List.countP_pos_iff.mp (Nat.pos_of_ne_zero hmore)
        have hs'fd : s'.fd = s.fd := by simpa using hfd
        rw [hlater, ← hs'fd]
        rw [← hs'fd] at hfirst
        exact ⟨fun _ => hfirst, hrest s' hs'⟩
    · exact (hlater s).mpr ⟨hone, hrest s hs⟩

theorem allTake_cons (watch : ℤ → Bool) {sub : BcSubscription} {subs : List BcSubscription}
    {data : List UInt8} (hcap : data.length ≤ bcClientTxCap) :
    AllTake clients watch data.length (sub :: subs) ↔
      (deliverToClient watch sub.fd data clients).1.rc = .ok ∧
        AllTake (deliverToClient watch sub.fd data clients).2 watch data.length subs := by
  obtain ⟨hok, -, hroom⟩ := deliverToClient_room clients watch hcap sub.fd
  rw [hok]
  refine forall_copies_cons
    (P := fun fd o k => ∃ r, o = some r ∧ r.Takes (watch fd) data.length k)
    (fun fd o k => ?_) hroom subs
  cases o with
  | none => simp
  | some r => simpa using ClientRoom.takes_succ (watch fd) data.length k r

theorem noneTake_cons (watch : ℤ → Bool) {sub : BcSubscription} {subs : List BcSubscription}
    {data : List UInt8} (hcap : data.length ≤ bcClientTxCap) :
    NoneTake clients data.length (sub :: subs) ↔
      (deliverToClient watch sub.fd data clients).1.appended = false ∧
        NoneTake (deliverToClient watch sub.fd data clients).2 data.length subs := by
  obtain ⟨-, happended, hroom⟩ := deliverToClient_room clients watch hcap sub.fd
  rw [happended]
  refine forall_copies_cons
    (P := fun _ o k => ∀ r, o = some r → r.Refuses data.length k)
    (fun fd o k => ?_) hroom subs
  cases o with
  | none => simp
  | some r => simpa using ClientRoom.refuses_succ data.length k r

/-- The entries that are listed are those whose clients have a copy more in their
streams. -/
theorem streamOf_deliverLocalLoop (hsock : Sockets clients) (watch : ℤ → Bool) (source : ℤ)
    {msg : BcMessage} (hcap : (deliverFrame msg).length ≤ bcClientTxCap)
    (subs : List BcSubscription) (fd : ℤ) :
    streamOf (deliverLocalLoop (deliverToClient watch) source msg subs clients).2 fd =
      (streamOf clients fd).map (· ++ (List.replicate (copies
        (deliverLocalLoop (deliverToClient watch) source msg subs clients).1.appended fd)
        (deliverFrame msg)).flatten) := by
  induction subs generalizing clients with
  | nil => simp [deliverLocalLoop, copies]
  | cons sub subs ih =>
    rw [deliverLocalLoop]
    split
    · simp only [ih (hsock.deliverToClient watch _ _), LocalDelivery.add,
        streamOf_deliverToClient hsock watch hcap, Option.map_map]
      generalize (deliverLocalLoop _ source msg subs _).1.appended = appended
      congr 1
      funext tx
      by_cases happended : (deliverToClient watch sub.fd (deliverFrame msg) clients).1.appended = true
      · by_cases hfd : sub.fd = fd
        · subst hfd
          simp [happended, copies_cons, List.replicate_succ]
        · simp only [hfd, false_and, if_false, List.append_nil, Function.comp_apply]
          split <;> simp [copies_cons, hfd]
      · simp [happended]
    · exact ih hsock

theorem failed_eq_zero_iff {subs : List BcSubscription}
    (hwants : ∀ sub ∈ subs, sub.wants source msg = true)
    (hcap : (deliverFrame msg).length ≤ bcClientTxCap) :
    (deliverLocalLoop (deliverToClient watch) source msg subs clients).1.failed = 0 ↔
      AllTake clients watch (deliverFrame msg).length subs := by
  induction subs generalizing clients with
  | nil => simp [deliverLocalLoop, AllTake]
  | cons sub subs ih =>
    rw [deliverLocalLoop, if_pos (hwants sub (by simp)), allTake_cons watch hcap,
      ← ih fun d hd => hwants d (List.mem_cons_of_mem _ hd)]
    simp only [LocalDelivery.add]
    split
    · next hok => simp [hok]
    · next hok => simp [hok]

theorem appended_eq_nil_iff {subs : List BcSubscription}
    (hwants : ∀ sub ∈ subs, sub.wants source msg = true)
    (hcap : (deliverFrame msg).length ≤ bcClientTxCap) :
    (deliverLocalLoop (deliverToClient watch) source msg subs clients).1.appended = [] ↔
      NoneTake clients (deliverFrame msg).length subs := by
  induction subs generalizing clients with
  | nil => simp [deliverLocalLoop, NoneTake]
  | cons sub subs ih =>
    rw [deliverLocalLoop, if_pos (hwants sub (by simp)), noneTake_cons watch hcap,
      ← ih fun d hd => hwants d (List.mem_cons_of_mem _ hd)]
    simp only [LocalDelivery.add]
    split
    · next happended => simp [happended]
    · next happended => simp [happended]

end Loop

end BoardComm
