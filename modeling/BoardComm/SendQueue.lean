import Mathlib.Tactic

/-!
# A send queue in a linear buffer

A sender writes to a descriptor that accepts bytes in portions and blocks when
it likes. What was not accepted waits in a buffer of fixed capacity, between a
read offset and the number of bytes stored. The buffer is emptied only when all
of it has been written, so the room behind the stored bytes is not the room that
the waiting bytes leave.
-/
namespace BoardComm.SendQueue

/-- What the kernel answers to one write. -/
inductive WriteOutcome
  | wrote (n : ℕ)
  | eintr
  | eagain
  | error
  deriving DecidableEq, Repr

/-- How a sequence of writes ends. -/
inductive WriteExit
  | done
  | blocked
  | failed
  deriving DecidableEq, Repr

/-- The bytes that were accepted and those that were not. -/
structure WriteResult where
  exit : WriteExit
  written : List UInt8
  rest : List UInt8
  deriving DecidableEq, Repr

/-- Write until all is written or the descriptor blocks or fails. When the
answers run out the next write would block. -/
def writeAll : List WriteOutcome → List UInt8 → WriteResult
  | _, [] => ⟨.done, [], []⟩
  | [], data => ⟨.blocked, [], data⟩
  | .wrote n :: outcomes, data =>
    if n = 0 then ⟨.failed, [], data⟩
    else
      let r := writeAll outcomes (data.drop n)
      { r with written := data.take n ++ r.written }
  | .eintr :: outcomes, data => writeAll outcomes data
  | .eagain :: _, data => ⟨.blocked, [], data⟩
  | .error :: _, data => ⟨.failed, [], data⟩

/-- Answers of a descriptor that is still alive. -/
def Live (outcomes : List WriteOutcome) : Prop :=
  ∀ o ∈ outcomes, o ≠ .error ∧ o ≠ .wrote 0

instance (outcomes : List WriteOutcome) : Decidable (Live outcomes) :=
  inferInstanceAs (Decidable (∀ o ∈ outcomes, _))

theorem writeAll_append (outcomes : List WriteOutcome) (data : List UInt8) :
    (writeAll outcomes data).written ++ (writeAll outcomes data).rest = data := by
  induction outcomes generalizing data with
  | nil => cases data <;> rfl
  | cons o outcomes ih =>
    cases data with
    | nil => rfl
    | cons b bs =>
      cases o with
      | wrote n =>
        unfold writeAll
        split_ifs
        · rfl
        · simp only [List.append_assoc, ih, List.take_append_drop]
      | eintr => exact ih _
      | eagain => rfl
      | error => rfl

/-- Nothing is left exactly when the writing was not stopped. -/
theorem writeAll_done_iff (outcomes : List WriteOutcome) (data : List UInt8) :
    (writeAll outcomes data).exit = .done ↔ (writeAll outcomes data).rest = [] := by
  induction outcomes generalizing data with
  | nil => cases data <;> simp [writeAll]
  | cons o outcomes ih =>
    cases data with
    | nil => simp [writeAll]
    | cons b bs =>
      cases o with
      | wrote n =>
        unfold writeAll
        split_ifs
        · simp
        · exact ih _
      | eintr => exact ih _
      | eagain => simp [writeAll]
      | error => simp [writeAll]

theorem writeAll_not_failed {outcomes : List WriteOutcome} (hlive : Live outcomes)
    (data : List UInt8) : (writeAll outcomes data).exit ≠ .failed := by
  induction outcomes generalizing data with
  | nil => cases data <;> simp [writeAll]
  | cons o outcomes ih =>
    have ho := hlive o (by simp)
    have hrest := ih fun p hp => hlive p (List.mem_cons_of_mem _ hp)
    cases data with
    | nil => simp [writeAll]
    | cons b bs =>
      cases o with
      | wrote n =>
        have hn : n ≠ 0 := fun h => ho.2 (by rw [h])
        unfold writeAll
        rw [if_neg hn]
        exact hrest _
      | eintr => exact hrest _
      | eagain => simp [writeAll]
      | error => exact absurd rfl ho.1

/-- One link with its buffer: whether the buffer is allocated, the bytes below
the stored length, and the read offset. The bytes written to the link and the
copies into the buffer (offset and length) are history. -/
structure Link where
  allocated : Bool
  stored : List UInt8
  off : ℕ
  written : List UInt8
  copies : List (ℕ × ℕ)
  deriving DecidableEq, Repr

namespace Link

/-- The bytes that wait. -/
def pending (l : Link) : List UInt8 := l.stored.drop l.off

/-- The queue holds nothing. -/
def clear (l : Link) : Link := { l with stored := [], off := 0 }

/-- Write what waits; a queue written completely is cleared. -/
def flush (l : Link) (outcomes : List WriteOutcome) : WriteExit × Link :=
  let r := writeAll outcomes l.pending
  let l' := { l with off := l.off + r.written.length, written := l.written ++ r.written }
  (r.exit, if r.exit = .done then l'.clear else l')

/-- Write past the queue. -/
def write (l : Link) (outcomes : List WriteOutcome) (data : List UInt8) : WriteResult × Link :=
  let r := writeAll outcomes data
  (r, { l with written := l.written ++ r.written })

/-- Make sure that there is a buffer for `need` bytes. `none` is out of memory. -/
def ensureCap (cap : ℕ) (alloc : Bool) (l : Link) (need : ℕ) : Option Link :=
  if need > cap then none
  else if l.allocated = true then some l
  else if alloc = true then some { l with allocated := true }
  else none

/-- Copy data behind the stored bytes. -/
def store (l : Link) (data : List UInt8) : Link :=
  { l with stored := l.stored ++ data, copies := l.copies ++ [(l.stored.length, data.length)] }

/-- Queue data if the bytes that wait leave enough room for it. -/
def queue (cap : ℕ) (alloc : Bool) (l : Link) (data : List UInt8) : Option Link :=
  (ensureCap cap alloc l ((l.stored.length - l.off) + data.length)).map (store · data)

/-- How sending a block of data ends. -/
inductive SendReply
  | sent
  | queued
  | refused
  | failed
  deriving DecidableEq, Repr

/-- Queue data and report whether it was taken. -/
def queueReply (cap : ℕ) (alloc : Bool) (l : Link) (data : List UInt8) : SendReply × Link :=
  match queue cap alloc l data with
  | none => (.refused, l)
  | some l' => (.queued, l')

/-- Send data: behind the bytes that wait if there are any, and otherwise
directly, with what is not accepted queued. -/
def send (cap : ℕ) (alloc : Bool) (outcomes : List WriteOutcome) (l : Link) (data : List UInt8) :
    SendReply × Link :=
  if l.off < l.stored.length then queueReply cap alloc l data
  else
    match l.write outcomes data with
    | (⟨.done, _, _⟩, l') => (.sent, l')
    | (⟨.blocked, _, rest⟩, l') => queueReply cap alloc l' rest
    | (⟨.failed, _, _⟩, l') => (.failed, l')

/-- The step leaves the queue correct: data that the waiting bytes leave room for
also fits behind the stored bytes; and there is a buffer for the rest of data
that was written in part. -/
def Room (cap : ℕ) (alloc : Bool) (outcomes : List WriteOutcome) (l : Link) (data : List UInt8) :
    Prop :=
  if l.off < l.stored.length then
    (l.stored.length - l.off) + data.length ≤ cap → l.stored.length + data.length ≤ cap
  else
    (writeAll outcomes data).exit = .blocked → (writeAll outcomes data).written ≠ [] →
      l.allocated = true ∨ alloc = true

/-- Data that ends up in the queue. -/
def Queues (cap : ℕ) (alloc : Bool) (outcomes : List WriteOutcome) (l : Link) (data : List UInt8) :
    Prop :=
  if l.off < l.stored.length then (l.stored.length - l.off) + data.length ≤ cap
  else (writeAll outcomes data).exit = .blocked ∧ (l.allocated = true ∨ alloc = true)

/-- What a correct queue keeps: its offsets and every copy stay inside the
buffer, and what was written and what waits are the bytes taken over, in order. -/
structure Good (cap : ℕ) (taken : List UInt8) (l : Link) : Prop where
  off_le : l.off ≤ l.stored.length
  len_le : l.stored.length ≤ cap
  copies : ∀ c ∈ l.copies, c.1 + c.2 ≤ cap
  stream : l.written ++ l.pending = taken

/-- A good queue that is cleared whenever nothing waits, and allocated otherwise. -/
structure Inv (cap : ℕ) (taken : List UInt8) (l : Link) : Prop extends Good cap taken l where
  empty : l.off = l.stored.length → l.stored = []
  allocated : l.off < l.stored.length → l.allocated = true

variable {cap : ℕ} {taken : List UInt8} {l : Link}

theorem Inv.pending_of_empty (h : Inv cap taken l) (he : ¬ l.off < l.stored.length) :
    l.stored = [] ∧ l.off = 0 ∧ l.written = taken := by
  have hle := h.off_le
  have hstored := h.empty (by omega)
  have hoff : l.off = 0 := by simpa [hstored] using hle
  have hstream := h.stream
  simp only [pending, hstored, List.drop_nil, List.append_nil] at hstream
  exact ⟨hstored, hoff, hstream⟩

/-- Flushing keeps everything. -/
theorem Inv.flush (h : Inv cap taken l) (outcomes : List WriteOutcome) :
    Inv cap taken (l.flush outcomes).2 := by
  have happ := writeAll_append outcomes l.pending
  have hstream := h.stream
  have hlen : (writeAll outcomes l.pending).written.length +
      (writeAll outcomes l.pending).rest.length = l.stored.length - l.off := by
    have hl := congrArg List.length happ
    simpa [pending] using hl
  have hle := h.off_le
  simp only [Link.flush]
  split_ifs with hdone
  · have hrest := (writeAll_done_iff _ _).mp hdone
    rw [hrest, List.append_nil] at happ
    have hcleared : l.written ++ (writeAll outcomes l.pending).written ++ [] = taken := by
      rw [happ, List.append_nil, hstream]
    exact ⟨⟨le_rfl, Nat.zero_le _, h.copies, hcleared⟩, fun _ => rfl,
      fun hlt => absurd hlt (Nat.lt_irrefl 0)⟩
  · have hrest : (writeAll outcomes l.pending).rest ≠ [] :=
      fun he => hdone ((writeAll_done_iff _ _).mpr he)
    have hpos := List.length_pos_iff.mpr hrest
    have hmoved : l.written ++ (writeAll outcomes l.pending).written ++
        l.stored.drop (l.off + (writeAll outcomes l.pending).written.length) = taken := by
      rw [← List.drop_drop, ← hstream, List.append_assoc]
      congr 1
      have hdrop := congrArg (List.drop (writeAll outcomes l.pending).written.length) happ
      rw [List.drop_left] at hdrop
      rw [show l.stored.drop l.off = l.pending from rfl, ← hdrop, happ]
    refine ⟨⟨?_, h.len_le, h.copies, hmoved⟩, fun he => ?_, fun _ => h.allocated (by omega)⟩
    · show l.off + (writeAll outcomes l.pending).written.length ≤ l.stored.length
      omega
    · have he' : l.off + (writeAll outcomes l.pending).written.length = l.stored.length := he
      omega

/-- Writing past an empty queue takes over what was written. -/
theorem Inv.write (h : Inv cap taken l) (he : ¬ l.off < l.stored.length)
    (outcomes : List WriteOutcome) (data : List UInt8) :
    Inv cap (taken ++ (writeAll outcomes data).written) (l.write outcomes data).2 := by
  obtain ⟨hstored, hoff, hwritten⟩ := h.pending_of_empty he
  have hstream : l.written ++ (writeAll outcomes data).written ++ l.stored.drop l.off =
      taken ++ (writeAll outcomes data).written := by
    rw [hwritten, hstored, List.drop_nil, List.append_nil]
  exact ⟨⟨h.off_le, h.len_le, h.copies, hstream⟩, h.empty, h.allocated⟩

/-- Data is queued when the waiting bytes leave room for it and there is a buffer. -/
theorem queue_eq (alloc : Bool) (data : List UInt8) :
    queue cap alloc l data =
      if (l.stored.length - l.off) + data.length ≤ cap ∧ (l.allocated = true ∨ alloc = true) then
        some (store { l with allocated := true } data)
      else none := by
  unfold queue ensureCap
  by_cases hneed : (l.stored.length - l.off) + data.length > cap
  · rw [if_pos hneed, if_neg (fun h => absurd h.1 (by omega))]
    rfl
  rw [if_neg hneed]
  push Not at hneed
  cases hal : l.allocated with
  | true =>
    have hl : l = { l with allocated := true } := by
      rw [← hal]
    rw [if_pos rfl, if_pos ⟨hneed, .inl rfl⟩, ← hl]
    rfl
  | false =>
    cases alloc with
    | true =>
      rw [if_neg Bool.false_ne_true, if_pos rfl, if_pos ⟨hneed, .inr rfl⟩]
      rfl
    | false =>
      rw [if_neg Bool.false_ne_true, if_neg Bool.false_ne_true,
        if_neg (fun h => by simpa using h.2)]
      rfl

/-- A copy that fits behind the stored bytes takes the data over. -/
theorem Inv.store (h : Inv cap taken l) {data : List UInt8} (hne : data ≠ [])
    (hroom : l.stored.length + data.length ≤ cap) :
    Inv cap (taken ++ data) (store { l with allocated := true } data) := by
  have hpos := List.length_pos_iff.mpr hne
  have hle := h.off_le
  refine ⟨⟨?_, ?_, ?_, ?_⟩, fun he => ?_, fun _ => rfl⟩
  · simp only [Link.store, List.length_append]
    omega
  · simp only [Link.store, List.length_append]
    omega
  · intro c hc
    simp only [Link.store, List.mem_append, List.mem_singleton] at hc
    rcases hc with hc | rfl
    · exact h.copies c hc
    · exact hroom
  · simp only [Link.store, pending]
    rw [List.drop_append_of_le_length hle, ← List.append_assoc]
    rw [show l.written ++ l.stored.drop l.off = taken from h.stream]
  · simp only [Link.store, List.length_append] at he
    omega

/-- A copy that does not fit behind the stored bytes leaves the buffer. -/
theorem not_good_store {data : List UInt8} (hroom : ¬ l.stored.length + data.length ≤ cap) :
    ¬ Good cap taken (store l data) := by
  intro h
  apply hroom
  have hle := h.len_le
  simpa only [store, List.length_append] using hle

/-- Data queued behind waiting bytes, in a queue that keeps its invariant. -/
theorem Inv.queueReply_pending (h : Inv cap taken l) (hlt : l.off < l.stored.length) (alloc : Bool)
    (data : List UInt8) :
    queueReply cap alloc l data =
      if (l.stored.length - l.off) + data.length ≤ cap then (.queued, Link.store l data)
      else (.refused, l) := by
  have hal := h.allocated hlt
  have hl : { l with allocated := true } = l := by
    rw [← hal]
  unfold queueReply
  rw [queue_eq, hl]
  by_cases hfit : (l.stored.length - l.off) + data.length ≤ cap
  · rw [if_pos ⟨hfit, .inl hal⟩, if_pos hfit]
  · rw [if_neg (fun hc => hfit hc.1), if_neg hfit]

/-- The rest of data that an empty link accepted only in part. -/
theorem Inv.queueReply_rest (h : Inv cap taken l) (he : ¬ l.off < l.stored.length) (alloc : Bool)
    {rest : List UInt8} (hfit : rest.length ≤ cap) :
    queueReply cap alloc l rest =
      if l.allocated = true ∨ alloc = true then
        (.queued, Link.store { l with allocated := true } rest)
      else (.refused, l) := by
  obtain ⟨hstored, hoff, -⟩ := h.pending_of_empty he
  have hneed : (l.stored.length - l.off) + rest.length ≤ cap := by
    rw [hstored, List.length_nil]
    omega
  unfold queueReply
  rw [queue_eq]
  by_cases hal : l.allocated = true ∨ alloc = true
  · rw [if_pos ⟨hneed, hal⟩, if_pos hal]
  · rw [if_neg (fun hc => hal hc.2), if_neg hal]

/-- The three ways in which sending past an empty queue can go on a live link. -/
theorem send_empty (he : ¬ l.off < l.stored.length) (alloc : Bool)
    (outcomes : List WriteOutcome) (data : List UInt8) :
    send cap alloc outcomes l data =
      match (writeAll outcomes data).exit with
      | .done => (.sent, (l.write outcomes data).2)
      | .blocked => queueReply cap alloc (l.write outcomes data).2 (writeAll outcomes data).rest
      | .failed => (.failed, (l.write outcomes data).2) := by
  unfold send
  rw [if_neg he]
  simp only [write]
  cases writeAll outcomes data with
  | mk exit written rest => cases exit <;> rfl

variable {alloc : Bool} {outcomes : List WriteOutcome} {data : List UInt8}

theorem length_rest_le (outcomes : List WriteOutcome) (data : List UInt8) :
    (writeAll outcomes data).rest.length ≤ data.length := by
  have hlen := congrArg List.length (writeAll_append outcomes data)
  rw [List.length_append] at hlen
  omega

/-- A send that finds room keeps the invariant: data that is refused leaves no
trace, other data is taken over. -/
theorem Inv.send (h : Inv cap taken l) (hne : data ≠ []) (hfit : data.length ≤ cap)
    (hlive : Live outcomes) (hroom : Room cap alloc outcomes l data) :
    ((Link.send cap alloc outcomes l data).1 = .refused ∧
        Inv cap taken (Link.send cap alloc outcomes l data).2) ∨
      (((Link.send cap alloc outcomes l data).1 = .sent ∨
          (Link.send cap alloc outcomes l data).1 = .queued) ∧
        Inv cap (taken ++ data) (Link.send cap alloc outcomes l data).2) := by
  by_cases hlt : l.off < l.stored.length
  · rw [Room, if_pos hlt] at hroom
    rw [Link.send, if_pos hlt, h.queueReply_pending hlt]
    split_ifs with hneed
    · right
      have hl : { l with allocated := true } = l := by
        rw [← h.allocated hlt]
      exact ⟨.inr rfl, hl ▸ h.store hne (hroom hneed)⟩
    · exact .inl ⟨rfl, h⟩
  · rw [Room, if_neg hlt] at hroom
    have happ := writeAll_append outcomes data
    have hwrite := h.write hlt outcomes data
    rw [send_empty hlt]
    cases hexit : (writeAll outcomes data).exit with
    | failed => exact absurd hexit (writeAll_not_failed hlive data)
    | done =>
      right
      rw [(writeAll_done_iff _ _).mp hexit, List.append_nil] at happ
      rw [happ] at hwrite
      exact ⟨.inl rfl, hwrite⟩
    | blocked =>
      have hrest : (writeAll outcomes data).rest ≠ [] := by
        intro hr
        rw [← writeAll_done_iff, hexit] at hr
        cases hr
      have hle := (length_rest_le outcomes data).trans hfit
      have hempty : ¬ (l.write outcomes data).2.off < (l.write outcomes data).2.stored.length := hlt
      simp only
      rw [hwrite.queueReply_rest hempty alloc hle]
      split_ifs with hal
      · right
        obtain ⟨hstored, -, -⟩ := hwrite.pending_of_empty hempty
        have hstore := hwrite.store hrest (by rw [hstored, List.length_nil]; omega)
        rw [List.append_assoc, happ] at hstore
        exact ⟨.inr rfl, hstore⟩
      · -- Without a buffer nothing can have been written.
        left
        have hnone : (writeAll outcomes data).written = [] := by
          by_contra hw
          exact hal (hroom hexit hw)
        rw [hnone, List.append_nil] at hwrite
        exact ⟨rfl, hwrite⟩

theorem send_queued_iff (h : Inv cap taken l) (hfit : data.length ≤ cap) :
    (Link.send cap alloc outcomes l data).1 = .queued ↔ Queues cap alloc outcomes l data := by
  by_cases hlt : l.off < l.stored.length
  · rw [Queues, if_pos hlt, Link.send, if_pos hlt, h.queueReply_pending hlt]
    split_ifs with hneed
    · simp [hneed]
    · simp [hneed]
  · rw [Queues, if_neg hlt, send_empty hlt]
    cases hexit : (writeAll outcomes data).exit with
    | failed => simp
    | done => simp
    | blocked =>
      have hle := (length_rest_le outcomes data).trans hfit
      have hempty : ¬ (l.write outcomes data).2.off < (l.write outcomes data).2.stored.length := hlt
      simp only [true_and]
      rw [(h.write hlt outcomes data).queueReply_rest hempty alloc hle]
      have hal : (l.write outcomes data).2.allocated = l.allocated := rfl
      rw [hal]
      split_ifs with hc
      · simp [hc]
      · simp [hc]

/-- A send that does not find room spoils the queue, whatever it answers. -/
theorem Inv.not_good_send (h : Inv cap taken l) (hfit : data.length ≤ cap)
    (hroom : ¬ Room cap alloc outcomes l data) :
    ((Link.send cap alloc outcomes l data).1 = .queued ∧
        ∀ taken', ¬ Good cap taken' (Link.send cap alloc outcomes l data).2) ∨
      ((Link.send cap alloc outcomes l data).1 = .refused ∧
        ¬ Good cap taken (Link.send cap alloc outcomes l data).2) := by
  by_cases hlt : l.off < l.stored.length
  · rw [Room, if_pos hlt] at hroom
    push Not at hroom
    left
    rw [Link.send, if_pos hlt, h.queueReply_pending hlt, if_pos hroom.1]
    exact ⟨rfl, fun taken' => not_good_store (by omega)⟩
  · rw [Room, if_neg hlt] at hroom
    push Not at hroom
    obtain ⟨hexit, hwritten, hal⟩ := hroom
    right
    have hle := (length_rest_le outcomes data).trans hfit
    have hempty : ¬ (l.write outcomes data).2.off < (l.write outcomes data).2.stored.length := hlt
    have hno : ¬ ((l.write outcomes data).2.allocated = true ∨ alloc = true) := by
      intro hc
      rcases hc with hc | hc
      · exact hal.1 hc
      · exact hal.2 hc
    rw [send_empty hlt, hexit]
    simp only
    rw [(h.write hlt outcomes data).queueReply_rest hempty alloc hle, if_neg hno]
    refine ⟨rfl, fun hgood => ?_⟩
    -- The bytes written would be more than the bytes taken over.
    have hsame := (h.write hlt outcomes data).stream
    rw [hgood.stream] at hsame
    exact hwritten (List.self_eq_append_right.mp hsame)

end Link

end BoardComm.SendQueue
