import BoardComm.ReadingInStep

/-!
# The ring of a client and the kicks on its socket

A client with a session reads the ring first. When it finds the ring empty it turns
to the socket, where the kicks of messages that it has read already may be waiting.
-/
namespace BoardComm.LinkRun

open ClientLink (HasRoom readOf)

variable {r : LinkRun} {events : List LinkEvent}

/-- What the calls have stored. -/
def results (r : LinkRun) : List SdkRead := r.reads.filterMap (·.answer.toOption)

/-- The calls stored the messages that were delivered, up to those that are still in the
ring. A call without a message timed out. -/
structure Drains (r : LinkRun) : Prop where
  order : ∃ ring t, ∃ left : List BcMessage, r.link.ring = some ring ∧
    ShmRing.Holds ring t (left.map deliverFrame) ∧
      r.results ++ left.map readOf = r.delivered.map readOf
  answers : ∀ read ∈ r.reads, read.answer = .error .timeout ∨ ∃ got, read.answer = .ok got

/-- Calls that do not wait and have room for every message of the run. -/
def Ample (events : List LinkEvent) : LinkEvent → Prop
  | .deliver msg _ => msg.Deliverable
  | .flush _ _ => True
  | .read topicCap payloadCap waits _ => 1 ≤ topicCap ∧ waits = false ∧
      ∀ msg watch, LinkEvent.deliver msg watch ∈ events → HasRoom topicCap payloadCap msg

/-- A call finds a message with a topic in the ring, or nothing on the socket
either. -/
def Unkicked (r : LinkRun) : LinkEvent → Prop
  | .read _ _ _ _ => match r.todo.head? with
    | some msg => msg.topic.str ≠ []
    | none => r.link.arrived = []
  | _ => True

/-- What holds while no call meets a kick. -/
structure Draining (events : List LinkEvent) (r : LinkRun) : Prop extends r.Orderly where
  shared : r.link.ring ≠ none
  stored : r.results ++ r.todo.map readOf = r.delivered.map readOf
  answers : ∀ read ∈ r.reads, read.answer = .error .timeout ∨ ∃ got, read.answer = .ok got
  fromEvents : ∀ msg ∈ r.todo, ∃ watch, LinkEvent.deliver msg watch ∈ events

theorem Draining.drains (h : r.Draining events) : r.Drains := by
  have hcarries := h.carries
  obtain ⟨ring, hring⟩ := Option.ne_none_iff_exists'.mp h.shared
  rw [carries_ring hring] at hcarries
  obtain ⟨t, hholds⟩ := hcarries
  exact ⟨⟨ring, t, r.todo, hring, hholds, h.stored⟩, h.answers⟩

theorem start_draining (fd : ℤ) (events : List LinkEvent) : (start fd true).Draining events :=
  ⟨start_orderly fd true, by simp [start], rfl, by simp [start], by simp [start]⟩

theorem step_shared {e : LinkEvent} (hring : r.link.ring ≠ none) : (r.step e).link.ring ≠ none := by
  obtain ⟨ring, hring⟩ := Option.ne_none_iff_exists'.mp hring
  cases e with
  | deliver msg watch =>
    unfold step ClientLink.deliver
    rw [hring]
    simp only
    split_ifs <;> simp
  | flush outcomes watch =>
    simp only [step, ClientLink.flush_ring, hring, ne_eq, reduceCtorEq, not_false_eq_true]
  | read topicCap payloadCap waits stale =>
    simp only [step]
    unfold ClientLink.readIpcDeliver
    rw [hring]
    split_ifs with hcap
    · simp [hring]
    · simp only
      cases (ShmRing.bcShmRingRead ring bcClientFrameMax).1 with
      | ok data => simp
      | error rc =>
        simp only
        split_ifs
        · rw [ClientLink.readSocket_ring]
          simp
        · simp

theorem Draining.deliver (h : r.Draining events) {msg : BcMessage} {watch : Bool}
    (hmem : LinkEvent.deliver msg watch ∈ events) (hmsg : msg.Deliverable) :
    (r.step (.deliver msg watch)).Draining events := by
  have horderly := h.toOrderly.deliver hmsg watch
  have hshared := step_shared (e := .deliver msg watch) h.shared
  unfold step at horderly hshared ⊢
  simp only at horderly hshared ⊢
  split_ifs at horderly hshared ⊢ with happended
  · refine ⟨horderly, hshared, ?_, h.answers, ?_⟩
    · rw [List.map_append, List.map_append, ← h.stored, List.append_assoc]
      rfl
    · intro m hm
      rcases List.mem_append.mp hm with hold | hnew
      · exact h.fromEvents m hold
      · rw [List.mem_singleton.mp hnew]
        exact ⟨watch, hmem⟩
  · exact ⟨horderly, hshared, h.stored, h.answers, h.fromEvents⟩

/-- Without waiting, nothing is readable but what has arrived. -/
theorem readable_false (l : ClientLink) : l.Readable false ↔ l.arrived ≠ [] := by
  simp [ClientLink.Readable]

theorem Draining.read (h : r.Draining events) {topicCap payloadCap : ℕ} {waits : Bool}
    {stale : List UInt8} (hample : Ample events (.read topicCap payloadCap waits stale))
    (hunkicked : r.Unkicked (.read topicCap payloadCap waits stale)) :
    (r.step (.read topicCap payloadCap waits stale)).Draining events := by
  obtain ⟨htopicCap, rfl, hroom⟩ := hample
  obtain ⟨ring, hring⟩ := Option.ne_none_iff_exists'.mp h.shared
  have hhead := next_ring hring false
  have hsuffices : r.Suffices (.read topicCap payloadCap false stale) := by
    intro msg hnext
    rw [Option.mem_def, hhead] at hnext
    simp only [Unkicked, hnext] at hunkicked
    exact ⟨fun hnone => absurd hnone h.shared, fun _ => hunkicked⟩
  have horderly := h.toOrderly.read htopicCap hsuffices
  have hshared := step_shared (e := .read topicCap payloadCap false stale) h.shared
  obtain ⟨hreading, -⟩ := h.toOrderly.reading htopicCap payloadCap false stale
  unfold Unkicked at hunkicked
  unfold step at horderly hshared ⊢
  cases hreading with
  | idle hnext hanswer hcarries =>
    rw [← hhead, hnext] at hunkicked
    rw [if_neg (fun hread => (readable_false _).mp hread hunkicked)] at hanswer
    simp only [hnext, Option.isSome_none, Bool.false_eq_true, if_false, hanswer]
      at horderly hshared ⊢
    refine ⟨horderly, hshared, ?_, ?_, h.fromEvents⟩
    · rw [← h.stored, results, List.filterMap_append]
      simp [results, Except.toOption]
    · intro read hread
      rcases List.mem_append.mp hread with hold | hnew
      · exact h.answers read hold
      · rw [List.mem_singleton.mp hnew]
        exact .inl rfl
  | taken msg todo hnext htodo hanswer hsocket hcarries =>
    rw [← hhead, hnext] at hunkicked
    obtain ⟨watch, hmem⟩ := h.fromEvents msg (by simp [htodo])
    have htail : r.todo.tail = todo := by rw [htodo, List.tail_cons]
    rw [if_pos ⟨hunkicked, hroom msg watch hmem⟩] at hanswer
    simp only [hnext, Option.isSome_some, if_true, htail, hanswer] at horderly hshared ⊢
    refine ⟨horderly, hshared, ?_, ?_, ?_⟩
    · rw [← h.stored, htodo, results, List.filterMap_append]
      simp [results, Except.toOption]
    · intro read hread
      rcases List.mem_append.mp hread with hold | hnew
      · exact h.answers read hold
      · rw [List.mem_singleton.mp hnew]
        exact .inr ⟨_, rfl⟩
    · intro m hm
      exact h.fromEvents m (by rw [htodo]; exact List.mem_cons_of_mem _ hm)
  | broken msg todo hnext htodo hanswer hnone _ _ => exact absurd hnone h.shared

/-- A kick that waits on the socket, or a message without a topic, makes the call
fail. -/
theorem Draining.read_lost (h : r.Draining events) {topicCap payloadCap : ℕ} {waits : Bool}
    {stale : List UInt8} (hample : Ample events (.read topicCap payloadCap waits stale))
    (hnot : ¬ r.Unkicked (.read topicCap payloadCap waits stale)) :
    ¬ (r.step (.read topicCap payloadCap waits stale)).Drains := by
  obtain ⟨htopicCap, rfl, -⟩ := hample
  obtain ⟨ring, hring⟩ := Option.ne_none_iff_exists'.mp h.shared
  have hhead := next_ring hring false
  obtain ⟨hreading, -⟩ := h.toOrderly.reading htopicCap payloadCap false stale
  intro hafter
  have hlast := hafter.answers _ (List.mem_append_right _ (List.mem_singleton_self _))
  unfold Unkicked at hnot
  cases hreading with
  | idle hnext hanswer _ =>
    rw [← hhead, hnext] at hnot
    rw [if_pos ((readable_false _).mpr hnot)] at hanswer
    simp [hanswer] at hlast
  | taken msg todo hnext htodo hanswer _ _ =>
    rw [← hhead, hnext] at hnot
    rw [if_neg (fun haccept => hnot haccept.1)] at hanswer
    simp [hanswer] at hlast
  | broken msg todo hnext htodo hanswer hnone _ _ => exact absurd hnone h.shared

/-- Reading the ring without waiting goes as it should exactly when every call finds a
message with a topic in the ring, or no byte of a kick on the socket. -/
theorem ring_drains_iff (fd : ℤ) (hevents : ∀ e ∈ events, Ample events e) :
    Runs.Along step Drains (start fd true) events ↔
      Runs.Meets step Unkicked (start fd true) events := by
  refine Runs.along_iff_meets step (I := Draining events)
    (A := fun e => e ∈ events ∧ Ample events e) (fun _ h => h.drains)
    (fun r e h he hunkicked => ?_) (fun r e h he hnot => ?_) (start_draining fd events)
    (fun e he => ⟨he, hevents e he⟩)
  · cases e with
    | deliver msg watch => exact h.deliver he.1 he.2
    | flush outcomes watch =>
      exact ⟨h.toOrderly.flush outcomes watch, step_shared h.shared, h.stored, h.answers,
        h.fromEvents⟩
    | read topicCap payloadCap waits stale => exact h.read he.2 hunkicked
  · cases e with
    | deliver msg watch => exact absurd trivial hnot
    | flush outcomes watch => exact absurd trivial hnot
    | read topicCap payloadCap waits stale => exact h.read_lost he.2 hnot

/-- A message goes into the ring, its kick to the socket, and the message is read. -/
def kickedEvents : List LinkEvent :=
  [.deliver oneByteMessage true, .flush [.wrote 100] true, .read 128 1400 false []]

theorem kickedEvents_ample : ∀ e ∈ kickedEvents, Ample kickedEvents e := by
  have hroom : HasRoom 128 1400 oneByteMessage := by decide
  simp [kickedEvents, Ample, oneByteMessage_deliverable, hroom]

theorem ring_drains_iff_kicked :
    Runs.Along step Drains (start 4 true) kickedEvents ↔
      Runs.Meets step Unkicked (start 4 true) kickedEvents :=
  ring_drains_iff 4 kickedEvents_ample

/-- The next call finds the kick. -/
theorem late_kick_fails :
    ¬ ∀ fd events, (∀ e ∈ events, Ample events e) →
      Runs.Along step Drains (start fd true) events := by
  intro h
  have hroom : HasRoom 128 1400 oneByteMessage := by decide
  have hlast := h 4 (kickedEvents ++ [.read 128 1400 false []])
    (by simp [kickedEvents, Ample, oneByteMessage_deliverable, hroom]) _ List.prefix_rfl
  have hkick : .error .io ∈ (Runs.run step (start 4 true)
      (kickedEvents ++ [.read 128 1400 false []])).reads.map (·.answer) := by
    decide +kernel
  obtain ⟨read, hread, hanswer⟩ := List.mem_map.mp hkick
  simpa [hanswer] using hlast.answers read hread

end BoardComm.LinkRun
