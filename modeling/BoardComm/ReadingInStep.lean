import BoardComm.ClientReading

/-!
# The stream of a client and the calls that read it

Deliveries, flushes and calls of `bc_read` in any order, over the socket or over
the ring. A run notes which message each call is about. The stream is in step
while what is on the way are the messages that no call was about.
-/
namespace BoardComm

open SendQueue (WriteOutcome)
open ClientLink (HasRoom readOf)

/-- What happens to a link. -/
inductive LinkEvent
  | deliver (msg : BcMessage) (watch : Bool)
  | flush (outcomes : List WriteOutcome) (watch : Bool)
  | read (topicCap payloadCap : ℕ) (waits : Bool) (stale : List UInt8)

/-- A call of `bc_read`, with the message that it is about. -/
structure LinkRead where
  next : Option BcMessage
  topicCap : ℕ
  payloadCap : ℕ
  answer : Except BcStatus SdkRead

/-- A link with its history: the messages that were delivered, those of them that no
call was about yet, and the calls. -/
structure LinkRun where
  link : ClientLink
  delivered : List BcMessage
  todo : List BcMessage
  reads : List LinkRead

/-- The call stored the message, if there was room for it. Otherwise it failed. -/
def LinkRead.Right (read : LinkRead) : Prop :=
  match read.next with
  | none => ∃ rc, read.answer = .error rc
  | some msg =>
    if HasRoom read.topicCap read.payloadCap msg then read.answer = .ok (readOf msg)
    else ∃ rc, read.answer = .error rc

namespace LinkRun

/-- A client that has just connected, with a session or without. -/
def start (fd : ℤ) (shared : Bool) : LinkRun :=
  ⟨⟨idleClient fd, [], if shared then some ShmRing.initRing else none⟩, [], [], []⟩

/-- The message that a call is about. On the socket `poll` must find it. -/
def next (r : LinkRun) (waits : Bool) : Option BcMessage :=
  match r.link.ring with
  | none => if r.link.Readable waits then r.todo.head? else none
  | some _ => r.todo.head?

def step (r : LinkRun) : LinkEvent → LinkRun
  | .deliver msg watch =>
    let d := r.link.deliver watch msg
    if d.1.appended = true then
      { r with link := d.2, delivered := r.delivered ++ [msg], todo := r.todo ++ [msg] }
    else { r with link := d.2 }
  | .flush outcomes watch => { r with link := (r.link.flush watch outcomes).2 }
  | .read topicCap payloadCap waits stale =>
    let d := r.link.readIpcDeliver topicCap payloadCap waits stale
    let next := r.next waits
    { r with
      link := d.2
      todo := if next.isSome then r.todo.tail else r.todo
      reads := r.reads ++ [⟨next, topicCap, payloadCap, d.1⟩] }

/-- What is on the way are the frames of the messages still to be read. -/
def Carries (r : LinkRun) : Prop :=
  match r.link.ring with
  | none => r.link.coming = r.todo.flatMap deliverFrame
  | some ring => ∃ t, ShmRing.Holds ring t (r.todo.map deliverFrame)

/-- The calls were about the messages one after the other, each returned what it had
to, and took no more and no less than its message. -/
structure InStep (r : LinkRun) : Prop where
  turns : r.reads.filterMap (·.next) ++ r.todo = r.delivered
  right : ∀ read ∈ r.reads, read.Right
  carries : r.Carries

/-- Messages that the daemon delivers, and calls with an array for the topic. -/
def Proper : LinkEvent → Prop
  | .deliver msg _ => msg.Deliverable
  | .flush _ _ => True
  | .read topicCap _ _ _ => 1 ≤ topicCap

/-- The message that a call on the socket is about fits its buffers, and a message that
fits has a topic. -/
def Suffices (r : LinkRun) : LinkEvent → Prop
  | .read topicCap payloadCap waits _ => ∀ msg ∈ r.next waits,
      (r.link.ring = none → HasRoom topicCap payloadCap msg) ∧
        (HasRoom topicCap payloadCap msg → msg.topic.str ≠ [])
  | _ => True

/-- Only kicks. -/
def Kicks (bytes : List UInt8) : Prop := ∃ k, bytes = (List.replicate k kickHeader.toBytes).flatten

theorem Kicks.nil : Kicks [] := ⟨0, rfl⟩

theorem Kicks.snoc {bytes : List UInt8} (h : Kicks bytes) :
    Kicks (bytes ++ kickHeader.toBytes) := by
  obtain ⟨k, rfl⟩ := h
  refine ⟨k + 1, ?_⟩
  rw [List.replicate_succ', List.flatten_concat]

/-- Kicks that are not all gone start with one. -/
theorem Kicks.cases {bytes : List UInt8} (h : Kicks bytes) :
    bytes = [] ∨ ∃ rest, bytes = kickHeader.toBytes ++ rest ∧ Kicks rest := by
  obtain ⟨k, rfl⟩ := h
  cases k with
  | zero => exact .inl rfl
  | succ k => exact .inr ⟨_, rfl, k, rfl⟩

end LinkRun

namespace ClientLink

variable {l : ClientLink} {msg : BcMessage} {topicCap payloadCap : ℕ} {waits : Bool}

theorem Readable.coming_ne_nil (h : l.Readable waits) : l.coming ≠ [] := by
  intro hnil
  obtain ⟨harrived, htx⟩ := List.append_eq_nil_iff.mp hnil
  rcases h with hne | ⟨-, hne⟩
  · exact hne harrived
  · exact hne htx

/-- Without a session the frame goes behind the bytes that are on the way, or not at
all. -/
theorem deliver_socket (hmsg : msg.Deliverable) (hring : l.ring = none) (watch : Bool) :
    (l.deliver watch msg).2.ring = none ∧
      (l.deliver watch msg).2.coming =
        if (l.deliver watch msg).1.appended = true then l.coming ++ deliverFrame msg
        else l.coming := by
  have hcap : (deliverFrame msg).length ≤ bcClientTxCap :=
    (deliverFrame_length_le hmsg).trans (by decide)
  obtain ⟨hanswer, htx⟩ := enqueueClientTx_eq watch l.client hcap
  unfold deliver coming
  rw [hring]
  simp only [hanswer, htx]
  by_cases hroom : l.client.tx.length + (deliverFrame msg).length ≤ bcClientTxCap
  · simp only [if_pos hroom, if_true, List.append_assoc, and_self]
  · simp only [if_neg hroom, Bool.false_eq_true, if_false, and_self]

/-- With a session it goes behind the messages in the ring, and a kick goes to the
socket. -/
theorem deliver_ring {ring : BcShmRing} {t : ℕ} {queue : List (List UInt8)}
    (hring : l.ring = some ring) (hholds : ShmRing.Holds ring t queue) (watch : Bool)
    (msg : BcMessage) :
    (∃ ring' t', (l.deliver watch msg).2.ring = some ring' ∧ ShmRing.Holds ring' t'
        (if (l.deliver watch msg).1.appended = true then queue ++ [deliverFrame msg]
        else queue)) ∧
      (LinkRun.Kicks l.coming → LinkRun.Kicks (l.deliver watch msg).2.coming) := by
  obtain ⟨hfifo, -, t', hnext⟩ := hholds.answer (.write (deliverFrame msg))
  unfold deliver
  rw [hring]
  simp only [ShmRing.ringStep] at hnext
  by_cases hok : (ShmRing.bcShmRingWrite ring (deliverFrame msg)).1 = .ok
  · have hsucceeds : (ShmRing.ringAnswer ring (.write (deliverFrame msg))).succeeds = true := by
      simp [ShmRing.ringAnswer, ShmRing.RingAnswer.succeeds, hok]
    rw [ShmRing.fifoStep, ← hfifo, if_pos hsucceeds] at hnext
    simp only [if_pos hok]
    refine ⟨⟨_, t', rfl, hnext⟩, fun hkicks => ?_⟩
    have hcap : kickHeader.toBytes.length ≤ bcClientTxCap := by
      rw [IpcHeader.toBytes_length]
      decide
    obtain ⟨-, htx⟩ := enqueueClientTx_eq watch l.client hcap
    unfold coming
    rw [htx]
    split_ifs
    · rw [← List.append_assoc]
      exact hkicks.snoc
    · exact hkicks
  · have hfails : ¬ (ShmRing.ringAnswer ring (.write (deliverFrame msg))).succeeds = true := by
      simp [ShmRing.ringAnswer, ShmRing.RingAnswer.succeeds, hok]
    rw [ShmRing.fifoStep, ← hfifo, if_neg hfails] at hnext
    simp only [if_neg hok]
    exact ⟨⟨_, t', rfl, hnext⟩, id⟩

theorem readIpcDeliver_socket (hring : l.ring = none) (htopicCap : 1 ≤ topicCap)
    (stale : List UInt8) :
    l.readIpcDeliver topicCap payloadCap waits stale = l.readSocket topicCap payloadCap waits := by
  have hsome : ¬ topicCap = 0 := by omega
  rw [readIpcDeliver, if_neg hsome, hring]

/-- The first message of the ring is taken, whatever becomes of it. -/
theorem readIpcDeliver_ring {ring : BcShmRing} {t : ℕ} {queue : List (List UInt8)}
    (hring : l.ring = some ring) (hholds : ShmRing.Holds ring t (deliverFrame msg :: queue))
    (hmsg : msg.Deliverable) (htopicCap : 1 ≤ topicCap) (payloadCap : ℕ) (waits : Bool)
    (stale : List UInt8) :
    ∃ ring' t', l.readIpcDeliver topicCap payloadCap waits stale =
        (if msg.topic.str ≠ [] ∧ HasRoom topicCap payloadCap msg then .ok (readOf msg)
          else .error .io, { l with ring := some ring' }) ∧ ShmRing.Holds ring' t' queue := by
  have hsome : ¬ topicCap = 0 := by omega
  obtain ⟨hread, hnext⟩ := hholds.read (deliverFrame_length_le hmsg)
  refine ⟨_, _, ?_, hnext⟩
  rw [readIpcDeliver, if_neg hsome, hring, ← parseDeliverFrame_frame hmsg _ _ stale]
  simp only [congrArg Prod.fst hread]

theorem readIpcDeliver_ring_nil {ring : BcShmRing} {t : ℕ} (hring : l.ring = some ring)
    (hholds : ShmRing.Holds ring t []) (htopicCap : 1 ≤ topicCap) (stale : List UInt8) :
    l.readIpcDeliver topicCap payloadCap waits stale = l.readSocket topicCap payloadCap waits := by
  have hsome : ¬ topicCap = 0 := by omega
  have hsame : { l with ring := some ring } = l := by rw [← hring]
  rw [readIpcDeliver, if_neg hsome, hring]
  simp only [ShmRing.bcShmRingRead, hholds.peekLen_nil, if_true, hsame]

/-- Among kicks there is no message to be read. -/
theorem readSocket_kicks (hkicks : LinkRun.Kicks l.coming) (topicCap payloadCap : ℕ)
    (waits : Bool) :
    LinkRun.Kicks (l.readSocket topicCap payloadCap waits).2.coming ∧
      (l.readSocket topicCap payloadCap waits).1 =
        if l.Readable waits then .error .io else .error .timeout := by
  by_cases hpoll : l.Readable waits
  · obtain hnil | ⟨rest, hcoming, hrest⟩ := hkicks.cases
    · exact absurd hnil hpoll.coming_ne_nil
    · obtain ⟨l', hread, hcoming'⟩ : ∃ l', l.readSocket topicCap payloadCap waits =
          (.error .io, l') ∧ l'.coming = rest := readSocket_kick hpoll hcoming
      rw [if_pos hpoll, hread, hcoming']
      exact ⟨hrest, rfl⟩
  · rw [if_neg hpoll]
    unfold readSocket
    rw [if_pos hpoll]
    exact ⟨hkicks, rfl⟩

end ClientLink

namespace LinkRun

variable {r : LinkRun}

/-- What holds while every call suffices. The socket of a client with a session
carries kicks alone. -/
structure Orderly (r : LinkRun) : Prop extends r.InStep where
  deliverable : ∀ msg ∈ r.todo, msg.Deliverable
  kicks : r.link.ring ≠ none → Kicks r.link.coming

theorem start_orderly (fd : ℤ) (shared : Bool) : (start fd shared).Orderly := by
  refine ⟨⟨rfl, by simp [start], ?_⟩, by simp [start], fun _ => Kicks.nil⟩
  cases shared with
  | false => rfl
  | true => exact ⟨0, ShmRing.holds_initRing⟩

theorem carries_socket (hring : r.link.ring = none) :
    r.Carries ↔ r.link.coming = r.todo.flatMap deliverFrame := by
  rw [Carries, hring]

theorem carries_ring {ring : BcShmRing} (hring : r.link.ring = some ring) :
    r.Carries ↔ ∃ t, ShmRing.Holds ring t (r.todo.map deliverFrame) := by
  rw [Carries, hring]

theorem Orderly.deliver (h : r.Orderly) {msg : BcMessage} (hmsg : msg.Deliverable) (watch : Bool) :
    (r.step (.deliver msg watch)).Orderly := by
  have hcarries := h.carries
  cases hring : r.link.ring with
  | none =>
    rw [carries_socket hring] at hcarries
    obtain ⟨hring', hcoming⟩ := ClientLink.deliver_socket hmsg hring watch
    unfold step
    simp only
    split_ifs with happended
    · rw [if_pos happended] at hcoming
      refine ⟨⟨?_, h.right, ?_⟩, ?_, fun hsome => absurd hring' hsome⟩
      · rw [← List.append_assoc, h.turns]
      · rw [carries_socket hring', hcoming, hcarries, List.flatMap_append, List.flatMap_singleton]
      · simpa [or_imp, forall_and] using ⟨h.deliverable, hmsg⟩
    · rw [if_neg happended] at hcoming
      refine ⟨⟨h.turns, h.right, ?_⟩, h.deliverable, fun hsome => absurd hring' hsome⟩
      rw [carries_socket hring', hcoming, hcarries]
  | some ring =>
    rw [carries_ring hring] at hcarries
    obtain ⟨t, hholds⟩ := hcarries
    obtain ⟨⟨ring', t', hring', hholds'⟩, hkicks⟩ :=
      ClientLink.deliver_ring hring hholds watch msg
    have hkicks' := hkicks (h.kicks (by rw [hring]; simp))
    unfold step
    simp only
    split_ifs with happended
    · rw [if_pos happended] at hholds'
      refine ⟨⟨?_, h.right, ?_⟩, ?_, fun _ => hkicks'⟩
      · rw [← List.append_assoc, h.turns]
      · rw [carries_ring hring', List.map_append]
        exact ⟨t', hholds'⟩
      · simpa [or_imp, forall_and] using ⟨h.deliverable, hmsg⟩
    · rw [if_neg happended] at hholds'
      refine ⟨⟨h.turns, h.right, ?_⟩, h.deliverable, fun _ => hkicks'⟩
      rw [carries_ring hring']
      exact ⟨t', hholds'⟩

theorem Orderly.flush (h : r.Orderly) (outcomes : List WriteOutcome) (watch : Bool) :
    (r.step (.flush outcomes watch)).Orderly := by
  refine ⟨⟨h.turns, h.right, ?_⟩, h.deliverable, ?_⟩
  · have hcarries := h.carries
    unfold Carries at hcarries ⊢
    simpa only [step, ClientLink.flush_ring, ClientLink.flush_coming] using hcarries
  · intro hsome
    simpa only [step, ClientLink.flush_coming] using h.kicks hsome

/-- What a call can do. On the socket it leaves the stream in the middle of a message
that it refuses. -/
inductive Reading (r : LinkRun) (topicCap payloadCap : ℕ) (waits : Bool)
    (d : Except BcStatus SdkRead × ClientLink) : Prop
  | idle (hnext : r.next waits = none)
      (hanswer : d.1 = if r.link.Readable waits then .error .io else .error .timeout)
      (hcarries : ({ r with link := d.2 } : LinkRun).Carries)
  | taken (msg : BcMessage) (todo : List BcMessage) (hnext : r.next waits = some msg)
      (htodo : r.todo = msg :: todo)
      (hanswer : d.1 = if msg.topic.str ≠ [] ∧ HasRoom topicCap payloadCap msg then
        .ok (readOf msg) else .error .io)
      (hsocket : r.link.ring = none → msg.topic.str ≠ [] ∧ HasRoom topicCap payloadCap msg)
      (hcarries : ({ r with link := d.2, todo := todo } : LinkRun).Carries)
  | broken (msg : BcMessage) (todo : List BcMessage) (hnext : r.next waits = some msg)
      (htodo : r.todo = msg :: todo) (hanswer : d.1 = .error .io) (hring : r.link.ring = none)
      (hnot : ¬ (msg.topic.str ≠ [] ∧ HasRoom topicCap payloadCap msg))
      (hlost : HasRoom topicCap payloadCap msg ∨
        ¬ ({ r with link := d.2, todo := todo } : LinkRun).Carries)

theorem next_socket (hring : r.link.ring = none) (waits : Bool) :
    r.next waits = if r.link.Readable waits then r.todo.head? else none := by
  rw [next, hring]

theorem next_ring {ring : BcShmRing} (hring : r.link.ring = some ring) (waits : Bool) :
    r.next waits = r.todo.head? := by
  rw [next, hring]

/-- Something is left of a message for which there is no room. -/
theorem leftover_ne_nil {msg : BcMessage} (hmsg : msg.Deliverable) {topicCap payloadCap : ℕ}
    (htopicCap : 1 ≤ topicCap) (hroom : ¬ HasRoom topicCap payloadCap msg) :
    msg.channel.str ++ (msg.topic.str ++ msg.body) ≠ [] := by
  have hbody := BcMessage.body_length hmsg.payloadLen
  intro hnil
  have hlen := congrArg List.length hnil
  rw [List.length_append, List.length_append, hbody, List.length_nil] at hlen
  unfold HasRoom at hroom
  omega

theorem Orderly.readSocket (h : r.Orderly) (hring : r.link.ring = none) {topicCap : ℕ}
    (htopicCap : 1 ≤ topicCap) (payloadCap : ℕ) (waits : Bool) :
    Reading r topicCap payloadCap waits (r.link.readSocket topicCap payloadCap waits) := by
  have hcarries := (carries_socket hring).mp h.carries
  have hnext := next_socket hring waits
  have hring' := ClientLink.readSocket_ring topicCap payloadCap waits r.link
  rw [hring] at hring'
  by_cases hpoll : r.link.Readable waits
  swap
  · rw [if_neg hpoll] at hnext
    have hread : r.link.readSocket topicCap payloadCap waits = (.error .timeout, r.link) := by
      rw [ClientLink.readSocket, if_pos hpoll]
    rw [hread]
    refine .idle hnext ?_ h.carries
    rw [if_neg hpoll]
  rw [if_pos hpoll] at hnext
  cases htodo : r.todo with
  | nil =>
    rw [htodo] at hcarries
    exact absurd hcarries hpoll.coming_ne_nil
  | cons msg todo =>
    rw [htodo, List.head?_cons] at hnext
    rw [htodo, List.flatMap_cons] at hcarries
    have hmsg := h.deliverable msg (by simp [htodo])
    by_cases haccept : msg.topic.str ≠ [] ∧ HasRoom topicCap payloadCap msg
    · obtain ⟨l', hread, hcoming⟩ :=
        ClientLink.readSocket_accepted hmsg hpoll hcarries haccept.1 haccept.2
      rw [hread] at hring' ⊢
      refine .taken msg todo hnext htodo ?_ (fun _ => haccept) ?_
      · rw [if_pos haccept]
      · rw [carries_socket hring']
        exact hcoming
    · obtain ⟨l', hread, hcoming⟩ := ClientLink.readSocket_refused hmsg hpoll hcarries haccept
      rw [hread] at hring' ⊢
      refine .broken msg todo hnext htodo rfl hring haccept ?_
      by_cases hroom : HasRoom topicCap payloadCap msg
      · exact .inl hroom
      · refine .inr fun hnow => ?_
        rw [carries_socket hring'] at hnow
        have hsame : (msg.channel.str ++ (msg.topic.str ++ msg.body)) ++
            todo.flatMap deliverFrame = todo.flatMap deliverFrame := by
          rw [List.append_assoc, List.append_assoc, ← hcoming, hnow]
        exact leftover_ne_nil hmsg htopicCap hroom (List.append_left_eq_self.mp hsame)

theorem Orderly.reading (h : r.Orderly) {topicCap : ℕ} (htopicCap : 1 ≤ topicCap)
    (payloadCap : ℕ) (waits : Bool) (stale : List UInt8) :
    Reading r topicCap payloadCap waits (r.link.readIpcDeliver topicCap payloadCap waits stale) ∧
      ((r.link.readIpcDeliver topicCap payloadCap waits stale).2.ring ≠ none →
        Kicks (r.link.readIpcDeliver topicCap payloadCap waits stale).2.coming) := by
  have hcarries := h.carries
  cases hring : r.link.ring with
  | none =>
    rw [ClientLink.readIpcDeliver_socket hring htopicCap stale]
    refine ⟨h.readSocket hring htopicCap payloadCap waits, fun hsome => ?_⟩
    rw [ClientLink.readSocket_ring, hring] at hsome
    exact absurd rfl hsome
  | some ring =>
    rw [carries_ring hring] at hcarries
    obtain ⟨t, hholds⟩ := hcarries
    have hkicks := h.kicks (by rw [hring]; simp)
    have hnext := next_ring hring waits
    cases htodo : r.todo with
    | nil =>
      rw [htodo, List.map_nil] at hholds
      rw [htodo, List.head?_nil] at hnext
      rw [ClientLink.readIpcDeliver_ring_nil hring hholds htopicCap stale]
      obtain ⟨hkicks', hanswer⟩ := ClientLink.readSocket_kicks hkicks topicCap payloadCap waits
      have hring' := ClientLink.readSocket_ring topicCap payloadCap waits r.link
      rw [hring] at hring'
      refine ⟨.idle hnext hanswer ?_, fun _ => hkicks'⟩
      rw [carries_ring hring', htodo]
      exact ⟨t, hholds⟩
    | cons msg todo =>
      rw [htodo, List.map_cons] at hholds
      rw [htodo, List.head?_cons] at hnext
      have hmsg := h.deliverable msg (by simp [htodo])
      obtain ⟨ring', t', hread, hholds'⟩ :=
        ClientLink.readIpcDeliver_ring hring hholds hmsg htopicCap payloadCap waits stale
      rw [hread]
      refine ⟨.taken msg todo hnext htodo rfl (fun hnone => ?_) ?_, fun _ => hkicks⟩
      · rw [hring] at hnone
        cases hnone
      · rw [carries_ring rfl]
        exact ⟨t', hholds'⟩

/-- The message that a call is about is the first of those still to be read. -/
theorem turns_tail {msg : BcMessage} {todo : List BcMessage} (htodo : r.todo = msg :: todo)
    (hturns : r.reads.filterMap (·.next) ++ r.todo = r.delivered) (read : LinkRead)
    (hnext : read.next = some msg) :
    (r.reads ++ [read]).filterMap (·.next) ++ todo = r.delivered := by
  rw [← hturns, htodo]
  simp [hnext]

theorem Orderly.read (h : r.Orderly) {topicCap payloadCap : ℕ} {waits : Bool} {stale : List UInt8}
    (htopicCap : 1 ≤ topicCap) (hsuffices : r.Suffices (.read topicCap payloadCap waits stale)) :
    (r.step (.read topicCap payloadCap waits stale)).Orderly := by
  obtain ⟨hreading, hkicks⟩ := h.reading htopicCap payloadCap waits stale
  unfold step
  cases hreading with
  | idle hnext hanswer hcarries =>
    simp only [hnext, Option.isSome_none, Bool.false_eq_true, if_false]
    refine ⟨⟨?_, ?_, hcarries⟩, h.deliverable, hkicks⟩
    · rw [List.filterMap_append, ← h.turns]
      simp
    · intro read hread
      rcases List.mem_append.mp hread with hold | hnew
      · exact h.right read hold
      · rw [List.mem_singleton.mp hnew]
        simp only [LinkRead.Right, hanswer]
        split_ifs
        · exact ⟨_, rfl⟩
        · exact ⟨_, rfl⟩
  | taken msg todo hnext htodo hanswer hsocket hcarries =>
    obtain ⟨-, htopic⟩ := hsuffices msg hnext
    have htail : r.todo.tail = todo := by rw [htodo, List.tail_cons]
    simp only [hnext, Option.isSome_some, if_true, htail]
    refine ⟨⟨turns_tail htodo h.turns _ rfl, ?_, hcarries⟩, ?_, hkicks⟩
    · intro read hread
      rcases List.mem_append.mp hread with hold | hnew
      · exact h.right read hold
      · rw [List.mem_singleton.mp hnew]
        simp only [LinkRead.Right, hanswer]
        by_cases hroom : HasRoom topicCap payloadCap msg
        · rw [if_pos hroom, if_pos ⟨htopic hroom, hroom⟩]
        · rw [if_neg hroom, if_neg (fun haccept => hroom haccept.2)]
          exact ⟨_, rfl⟩
    · intro m hm
      exact h.deliverable m (by rw [htodo]; exact List.mem_cons_of_mem _ hm)
  | broken msg todo hnext htodo hanswer hring hnot hlost =>
    obtain ⟨hroom, htopic⟩ := hsuffices msg hnext
    exact absurd ⟨htopic (hroom hring), hroom hring⟩ hnot

/-- A call that does not suffice is answered wrongly or leaves the stream out of
step. -/
theorem Orderly.read_lost (h : r.Orderly) {topicCap payloadCap : ℕ} {waits : Bool}
    {stale : List UInt8} (htopicCap : 1 ≤ topicCap)
    (hnot : ¬ r.Suffices (.read topicCap payloadCap waits stale)) :
    ¬ (r.step (.read topicCap payloadCap waits stale)).InStep := by
  obtain ⟨hreading, -⟩ := h.reading htopicCap payloadCap waits stale
  intro hafter
  have hright := hafter.right _ (List.mem_append_right _ (List.mem_singleton_self _))
  have hcarries := hafter.carries
  unfold Suffices at hnot
  push Not at hnot
  obtain ⟨msg', hnext', hnot⟩ := hnot
  cases hreading with
  | idle hnext hanswer _ =>
    rw [hnext] at hnext'
    cases hnext'
  | taken msg todo hnext htodo hanswer hsocket _ =>
    obtain rfl : msg' = msg := by
      rw [hnext] at hnext'
      exact (Option.some.inj hnext').symm
    obtain ⟨hroom, htopic⟩ := hnot fun hring => (hsocket hring).2
    simp only [LinkRead.Right, hnext, if_pos hroom, hanswer] at hright
    rw [if_neg (fun haccept => haccept.1 htopic)] at hright
    cases hright
  | broken msg todo hnext htodo hanswer hring hnotboth hlost =>
    have htail : r.todo.tail = todo := by rw [htodo, List.tail_cons]
    simp only [step, hnext, Option.isSome_some, if_true, htail] at hcarries
    rcases hlost with hroom | hlost
    · simp only [LinkRead.Right, hnext, if_pos hroom, hanswer] at hright
      cases hright
    · exact hlost hcarries

/-- The calls and the stream stay in step exactly when every call on the socket has
room for its message, and every message with room for it has a topic. -/
theorem bcRead_inStep_iff (fd : ℤ) (shared : Bool) {events : List LinkEvent}
    (hevents : ∀ e ∈ events, Proper e) :
    Runs.Along step InStep (start fd shared) events ↔
      Runs.Meets step Suffices (start fd shared) events := by
  refine Runs.along_iff_meets step (I := Orderly) (fun _ h => h.toInStep)
    (fun r e h he hsuffices => ?_) (fun r e h he hnot => ?_) (start_orderly fd shared) hevents
  · cases e with
    | deliver msg watch => exact h.deliver he watch
    | flush outcomes watch => exact h.flush outcomes watch
    | read topicCap payloadCap waits stale => exact h.read he hsuffices
  · cases e with
    | deliver msg watch => exact absurd trivial hnot
    | flush outcomes watch => exact absurd trivial hnot
    | read topicCap payloadCap waits stale => exact h.read_lost he hnot

/-- A message of one byte for the topic "t". -/
def oneByteMessage : BcMessage :=
  { BcMessage.zero with topic := .ofPrefix _ [116], payload := .ofPrefix _ [7], payloadLen := 1 }

theorem oneByteMessage_deliverable : oneByteMessage.Deliverable := ⟨by decide, by decide, by decide⟩

/-- It is delivered, sent, and read with an array for its payload. -/
def roomyEvents : List LinkEvent :=
  [.deliver oneByteMessage true, .flush [.wrote 100] true, .read 128 1400 false []]

theorem roomyEvents_proper : ∀ e ∈ roomyEvents, Proper e := by
  simp [roomyEvents, Proper, oneByteMessage_deliverable]

theorem bcRead_inStep_iff_roomy :
    Runs.Along step InStep (start 4 false) roomyEvents ↔
      Runs.Meets step Suffices (start 4 false) roomyEvents :=
  bcRead_inStep_iff 4 false roomyEvents_proper

/-- An array of no bytes leaves the topic and the payload in the stream. -/
theorem short_buffer_loses_step :
    ¬ ∀ fd shared events, (∀ e ∈ events, Proper e) →
      Runs.Along step InStep (start fd shared) events := by
  intro h
  have hlast := h 4 false
    [.deliver oneByteMessage true, .flush [.wrote 100] true, .read 128 0 false []]
    (by simp [Proper, oneByteMessage_deliverable]) _ List.prefix_rfl
  have hcarries := (carries_socket rfl).mp hlast.carries
  revert hcarries
  decide +kernel

end LinkRun

end BoardComm
