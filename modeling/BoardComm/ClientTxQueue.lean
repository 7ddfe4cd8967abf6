import BoardComm.ClientManager
import BoardComm.SlidingWindow

/-!
# The transmit queue of a client

`tx_buf` with its offset and length, as the calls of the client manager use
them. Frames go in whole or not at all, the kernel takes bytes as it likes, and
the window moves to the front of the array when its end is reached. The list of
waiting bytes that the rest of the client manager speaks of is the content of
the window.
-/
namespace BoardComm

open SendQueue (WriteOutcome WriteExit writeAll)

/-- `tx_buf`, `tx_off` and `tx_len`. The bytes that were sent, and the parts of the
array that were copied or sent from (offset and length), are history. -/
structure ClientTx extends Window bcClientTxCap where
  sent : List UInt8
  touched : List (ℕ × ℕ)

namespace ClientTx

/-- A client as it is allocated. -/
def init : ClientTx := ⟨⟨.zero _, 0, 0⟩, [], []⟩

/-- The `memmove` to the front of the array. -/
def moveToFront (tx : ClientTx) : ClientTx :=
  ⟨tx.toWindow.compact, tx.sent, tx.touched ++ [(tx.off, tx.len), (0, tx.len)]⟩

/-- The `memcpy` behind the bytes that wait. -/
def copyIn (tx : ClientTx) (data : List UInt8) : ClientTx :=
  ⟨tx.toWindow.append data, tx.sent, tx.touched ++ [(tx.off + tx.len, data.length)]⟩

/-- `enqueue_client_tx`. -/
def enqueueClientTx (watch : Bool) (tx : ClientTx) (data : List UInt8) : DeliverAnswer × ClientTx :=
  if data.length > bcClientTxCap then (⟨.invalid, false⟩, tx)
  else
    let tx := if tx.off > 0 ∧ tx.off + tx.len + data.length > bcClientTxCap then tx.moveToFront
      else tx
    if tx.off + tx.len + data.length > bcClientTxCap then (⟨.nomem, false⟩, tx)
    else (⟨watchStatus watch, true⟩, tx.copyIn data)

/-- The kernel looks at all bytes that wait and takes the first ones. -/
def took (tx : ClientTx) (k : ℕ) : ClientTx :=
  ⟨tx.toWindow.consume k, tx.sent ++ tx.held.take k, tx.touched ++ [(tx.off, tx.len)]⟩

/-- The loop of `flush_client_tx` over the answers of `send`, which takes no more
than it is given. When they run out the next one would block. -/
def flushLoop : List WriteOutcome → ClientTx → WriteExit × ClientTx
  | [], tx => (if tx.len = 0 then .done else .blocked, tx)
  | o :: outcomes, tx =>
    if tx.len = 0 then (.done, tx)
    else
      match o with
      | .wrote n => if n = 0 then (.failed, tx) else flushLoop outcomes (tx.took (min n tx.len))
      | .eintr => flushLoop outcomes tx
      | .eagain => (.blocked, tx)
      | .error => (.failed, tx)

/-- `flush_client_tx`. -/
def flushClientTx (watch : Bool) (outcomes : List WriteOutcome) (tx : ClientTx) :
    BcStatus × ClientTx :=
  match flushLoop outcomes tx with
  | (.done, tx) => (watchStatus watch, tx)
  | (.blocked, tx) => (.ok, tx)
  | (.failed, tx) => (.io, tx)

/-- The window and all parts that were touched lie in the array. -/
structure InBounds (tx : ClientTx) : Prop where
  window : tx.Inside
  touched : ∀ part ∈ tx.touched, part.1 + part.2 ≤ bcClientTxCap

theorem init_inBounds : init.InBounds := ⟨Nat.zero_le _, by simp [init]⟩

section Enqueue

variable {tx : ClientTx} {data : List UInt8}

theorem InBounds.moveToFront (h : tx.InBounds) : tx.moveToFront.InBounds := by
  have hwindow : tx.off + tx.len ≤ bcClientTxCap := h.window
  refine ⟨Window.compact_inside h.window, fun part hpart => ?_⟩
  simp only [ClientTx.moveToFront, List.mem_append, List.mem_cons, List.not_mem_nil,
    or_false] at hpart
  rcases hpart with hold | rfl | rfl
  · exact h.touched part hold
  · exact hwindow
  · simp only
    omega

theorem InBounds.copyIn (h : tx.InBounds) (hfit : tx.off + tx.len + data.length ≤ bcClientTxCap) :
    (tx.copyIn data).InBounds := by
  refine ⟨Window.append_inside hfit, fun part hpart => ?_⟩
  simp only [ClientTx.copyIn, List.mem_append, List.mem_cons, List.not_mem_nil, or_false] at hpart
  rcases hpart with hold | rfl
  · exact h.touched part hold
  · exact hfit

theorem InBounds.took (h : tx.InBounds) (k : ℕ) : (tx.took k).InBounds := by
  refine ⟨Window.consume_inside h.window k, fun part hpart => ?_⟩
  simp only [ClientTx.took, List.mem_append, List.mem_cons, List.not_mem_nil, or_false] at hpart
  rcases hpart with hold | rfl
  · exact h.touched part hold
  · exact h.window

/-- What `enqueue_client_tx` does, by the room that the waiting bytes leave. -/
inductive Enqueued (watch : Bool) (tx : ClientTx) (data : List UInt8) :
    DeliverAnswer × ClientTx → Prop
  | tooLong (h : bcClientTxCap < data.length) : Enqueued watch tx data (⟨.invalid, false⟩, tx)
  | full (h : bcClientTxCap < tx.len + data.length) (tx' : ClientTx)
      (hmoved : tx' = tx ∨ tx' = tx.moveToFront) : Enqueued watch tx data (⟨.nomem, false⟩, tx')
  | taken (h : tx.len + data.length ≤ bcClientTxCap) (tx' : ClientTx)
      (hmoved : tx' = tx ∨ tx' = tx.moveToFront)
      (hfit : tx'.off + tx'.len + data.length ≤ bcClientTxCap) :
      Enqueued watch tx data (⟨watchStatus watch, true⟩, tx'.copyIn data)

theorem enqueueClientTx_spec (watch : Bool) (tx : ClientTx) (data : List UInt8) :
    Enqueued watch tx data (enqueueClientTx watch tx data) := by
  have hoff : tx.moveToFront.off = 0 := rfl
  have hlen : tx.moveToFront.len = tx.len := rfl
  unfold enqueueClientTx
  by_cases hlong : data.length > bcClientTxCap
  · rw [if_pos hlong]
    exact .tooLong hlong
  rw [if_neg hlong]
  by_cases hmove : tx.off > 0 ∧ tx.off + tx.len + data.length > bcClientTxCap
  · simp only [if_pos hmove, hoff, hlen, Nat.zero_add]
    split_ifs with hfull
    · exact .full hfull _ (.inr rfl)
    · refine .taken (by omega) _ (.inr rfl) ?_
      rw [hoff, hlen]
      omega
  · simp only [if_neg hmove]
    split_ifs with hfull
    · -- Nothing to move: the window starts at the front already.
      exact .full (by omega) _ (.inl rfl)
    · exact .taken (by omega) _ (.inl rfl) (by omega)

theorem moved_held (h : tx.InBounds) {tx' : ClientTx} (hmoved : tx' = tx ∨ tx' = tx.moveToFront) :
    tx'.InBounds ∧ tx'.held = tx.held ∧ tx'.sent = tx.sent ∧ tx'.len = tx.len ∧
      (tx'.off = tx.off ∨ tx'.off = 0) := by
  rcases hmoved with rfl | rfl
  · exact ⟨h, rfl, rfl, rfl, .inl rfl⟩
  · exact ⟨h.moveToFront, Window.compact_held h.window, rfl, rfl, .inr rfl⟩

end Enqueue

section Flush

variable {tx : ClientTx}

@[simp] theorem took_sent (tx : ClientTx) (k : ℕ) : (tx.took k).sent = tx.sent ++ tx.held.take k :=
  rfl

@[simp] theorem took_held (tx : ClientTx) (k : ℕ) : (tx.took k).held = tx.held.drop k :=
  Window.consume_held tx.toWindow k

/-- The kernel takes no more bytes than wait. -/
theorem InBounds.min_len (h : tx.InBounds) (n : ℕ) :
    tx.held.take (min n tx.len) = tx.held.take n ∧
      tx.held.drop (min n tx.len) = tx.held.drop n := by
  have hlen := Window.held_length h.window
  constructor
  · rw [List.take_eq_take_iff, hlen, min_assoc, min_self]
  · rw [List.drop_eq_drop_iff, hlen, min_assoc, min_self]

theorem held_eq_nil_iff (h : tx.InBounds) : tx.held = [] ↔ tx.len = 0 := by
  rw [← List.length_eq_zero_iff, Window.held_length h.window]

/-- The loop sends what `writeAll` writes of the waiting bytes, and stays inside
the array. -/
theorem flushLoop_spec (outcomes : List WriteOutcome) (h : tx.InBounds) :
    (flushLoop outcomes tx).2.InBounds ∧
      (flushLoop outcomes tx).1 = (writeAll outcomes tx.held).exit ∧
      (flushLoop outcomes tx).2.sent = tx.sent ++ (writeAll outcomes tx.held).written ∧
      (flushLoop outcomes tx).2.held = (writeAll outcomes tx.held).rest := by
  induction outcomes generalizing tx with
  | nil =>
    by_cases hempty : tx.len = 0
    · have hheld := (held_eq_nil_iff h).mpr hempty
      simp [flushLoop, hempty, hheld, writeAll, h]
    · have hne : tx.held ≠ [] := fun hnil => hempty ((held_eq_nil_iff h).mp hnil)
      obtain ⟨b, bs, hcons⟩ := List.exists_cons_of_ne_nil hne
      simp [flushLoop, hempty, hcons, writeAll, h]
  | cons o outcomes ih =>
    by_cases hempty : tx.len = 0
    · have hheld := (held_eq_nil_iff h).mpr hempty
      simp [flushLoop, hempty, hheld, writeAll, h]
    have hne : tx.held ≠ [] := fun hnil => hempty ((held_eq_nil_iff h).mp hnil)
    obtain ⟨b, bs, hcons⟩ := List.exists_cons_of_ne_nil hne
    cases o with
    | wrote n =>
      by_cases hn : n = 0
      · simp [flushLoop, hempty, hn, hcons, writeAll, h]
      · obtain ⟨htake, hdrop⟩ := h.min_len n
        obtain ⟨hbounds, hexit, hsent, hrest⟩ := ih (h.took (min n tx.len))
        have hloop : flushLoop (.wrote n :: outcomes) tx =
            flushLoop outcomes (tx.took (min n tx.len)) := by
          rw [flushLoop, if_neg hempty, if_neg hn]
        have hwrite : writeAll (.wrote n :: outcomes) tx.held =
            { writeAll outcomes (tx.held.drop n) with
              written := tx.held.take n ++ (writeAll outcomes (tx.held.drop n)).written } := by
          simp [hcons, writeAll, hn]
        rw [took_held, hdrop] at hexit hsent hrest
        rw [took_sent, htake, List.append_assoc] at hsent
        rw [hloop, hwrite]
        exact ⟨hbounds, hexit, hsent, hrest⟩
    | eintr =>
      have hloop : flushLoop (.eintr :: outcomes) tx = flushLoop outcomes tx := by
        rw [flushLoop, if_neg hempty]
      have hwrite : writeAll (.eintr :: outcomes) tx.held = writeAll outcomes tx.held := by
        simp [hcons, writeAll]
      rw [hloop, hwrite]
      exact ih h
    | eagain => simp [flushLoop, hempty, hcons, writeAll, h]
    | error => simp [flushLoop, hempty, hcons, writeAll, h]

theorem flushClientTx_tx (watch : Bool) (outcomes : List WriteOutcome) (tx : ClientTx) :
    (flushClientTx watch outcomes tx).2 = (flushLoop outcomes tx).2 := by
  unfold flushClientTx
  split <;> simp_all

theorem flushClientTx_rc (watch : Bool) (outcomes : List WriteOutcome) (tx : ClientTx) :
    (flushClientTx watch outcomes tx).1 =
      match (flushLoop outcomes tx).1 with
      | .done => watchStatus watch
      | .blocked => .ok
      | .failed => .io := by
  unfold flushClientTx
  split <;> simp_all

/-- The offset moves with the bytes that are sent, and back to the front when none
are left. -/
theorem flushLoop_off (outcomes : List WriteOutcome) (h : tx.InBounds) :
    (flushLoop outcomes tx).2.off =
      if (flushLoop outcomes tx).1 = .done ∧ tx.len ≠ 0 then 0
      else tx.off + (writeAll outcomes tx.held).written.length := by
  induction outcomes generalizing tx with
  | nil =>
    have hwritten : (writeAll [] tx.held).written = [] := by cases tx.held <;> rfl
    rw [hwritten]
    by_cases hempty : tx.len = 0 <;> simp [flushLoop, hempty]
  | cons o outcomes ih =>
    by_cases hempty : tx.len = 0
    · have hheld := (held_eq_nil_iff h).mpr hempty
      simp [flushLoop, hempty, hheld, writeAll]
    have hne : tx.held ≠ [] := fun hnil => hempty ((held_eq_nil_iff h).mp hnil)
    obtain ⟨b, bs, hcons⟩ := List.exists_cons_of_ne_nil hne
    cases o with
    | wrote n =>
      by_cases hn : n = 0
      · simp [flushLoop, hempty, hn, hcons, writeAll]
      · have hlen := Window.held_length h.window
        have hloop : flushLoop (.wrote n :: outcomes) tx =
            flushLoop outcomes (tx.took (min n tx.len)) := by
          rw [flushLoop, if_neg hempty, if_neg hn]
        have hnext := ih (h.took (min n tx.len))
        have hlen' : (tx.took (min n tx.len)).len = tx.len - min n tx.len := rfl
        have hoff' : (tx.took (min n tx.len)).off =
            if tx.len - min n tx.len = 0 then 0 else tx.off + min n tx.len := rfl
        have hdrop : (tx.took (min n tx.len)).held = tx.held.drop n :=
          (took_held tx _).trans (h.min_len n).2
        have hwrite : (writeAll (.wrote n :: outcomes) tx.held).written =
            tx.held.take n ++ (writeAll outcomes (tx.held.drop n)).written := by
          simp [hcons, writeAll, hn]
        rw [hloop, hnext, hwrite, List.length_append, List.length_take, hlen, hlen', hoff', hdrop]
        by_cases hrest : tx.len - min n tx.len = 0
        · -- The last byte was taken: the loop ends here.
          obtain ⟨-, hexit, -, -⟩ := flushLoop_spec outcomes (h.took (min n tx.len))
          have hnil : tx.held.drop n = [] := by
            rw [List.drop_eq_nil_iff]
            omega
          have hdone : ∀ os : List WriteOutcome, writeAll os [] = ⟨.done, [], []⟩ := by
            intro os
            cases os <;> rfl
          rw [hdrop, hnil, hdone] at hexit
          simp [hexit, hrest, hempty, hnil, hdone]
        · by_cases hexit : (flushLoop outcomes (tx.took (min n tx.len))).1 = .done
          · rw [if_pos ⟨hexit, hrest⟩, if_pos ⟨hexit, hempty⟩]
          · have hnot : ∀ q, ¬ ((flushLoop outcomes (tx.took (min n tx.len))).1 = .done ∧ q) :=
              fun q hand => hexit hand.1
            rw [if_neg (hnot _), if_neg (hnot _), if_neg hrest, Nat.add_assoc]
    | eintr =>
      have hloop : flushLoop (.eintr :: outcomes) tx = flushLoop outcomes tx := by
        rw [flushLoop, if_neg hempty]
      have hwrite : writeAll (.eintr :: outcomes) tx.held = writeAll outcomes tx.held := by
        simp [hcons, writeAll]
      rw [hloop, hwrite]
      exact ih h
    | eagain => simp [flushLoop, hempty, hcons, writeAll]
    | error => simp [flushLoop, hempty, hcons, writeAll]

end Flush

section Refinement

/-- A client whose waiting bytes are those of the window. -/
structure Shows (tx : ClientTx) (client : BcClient) : Prop where
  off : client.txOff = tx.off
  held : client.tx = tx.held

variable {tx : ClientTx} {client : BcClient}

/-- On the array and on the list of waiting bytes `enqueue_client_tx` is the same. -/
theorem Shows.enqueueClientTx (hs : tx.Shows client) (h : tx.InBounds) (watch : Bool)
    (data : List UInt8) :
    (BoardComm.enqueueClientTx watch client data).1 = (ClientTx.enqueueClientTx watch tx data).1 ∧
      (ClientTx.enqueueClientTx watch tx data).2.Shows
        (BoardComm.enqueueClientTx watch client data).2 := by
  have hlen : client.tx.length = tx.len := by rw [hs.held, Window.held_length h.window]
  have hcompact := Window.compact_held h.window
  have hoff : tx.moveToFront.off = 0 := rfl
  have hlen' : tx.moveToFront.len = tx.len := rfl
  unfold BoardComm.enqueueClientTx ClientTx.enqueueClientTx
  rw [hs.off, hlen]
  by_cases hlong : data.length > bcClientTxCap
  · rw [if_pos hlong, if_pos hlong]
    exact ⟨rfl, hs⟩
  rw [if_neg hlong, if_neg hlong]
  by_cases hmove : tx.off > 0 ∧ tx.off + tx.len + data.length > bcClientTxCap
  · simp only [if_pos hmove, hoff, hlen']
    split_ifs with hfull
    · exact ⟨rfl, rfl, hs.held.trans hcompact.symm⟩
    · have hroom : tx.moveToFront.off + tx.moveToFront.len + data.length ≤ bcClientTxCap :=
        Nat.not_lt.mp hfull
      refine ⟨rfl, rfl, ?_⟩
      rw [hs.held, ← hcompact]
      exact (Window.append_held hroom).symm
  · simp only [if_neg hmove]
    split_ifs with hfull
    · exact ⟨rfl, rfl, hs.held⟩
    · refine ⟨rfl, rfl, ?_⟩
      rw [hs.held]
      exact (Window.append_held (Nat.not_lt.mp hfull)).symm

/-- And so is `flush_client_tx`. -/
theorem Shows.flushClientTx (hs : tx.Shows client) (h : tx.InBounds) (watch : Bool)
    (outcomes : List WriteOutcome) :
    (BoardComm.flushClientTx watch outcomes client).1 =
        (ClientTx.flushClientTx watch outcomes tx).1 ∧
      (ClientTx.flushClientTx watch outcomes tx).2.Shows
        (BoardComm.flushClientTx watch outcomes client).2 := by
  obtain ⟨-, hexit, -, hrest⟩ := flushLoop_spec outcomes h
  have hoff := flushLoop_off outcomes h
  have hempty := held_eq_nil_iff h
  rw [← hs.held] at hexit hrest hoff hempty
  rw [← hs.off] at hoff
  have hdone : writeAll outcomes [] = ⟨.done, [], []⟩ := by cases outcomes <;> rfl
  unfold BoardComm.flushClientTx
  rw [flushClientTx_rc, hexit]
  by_cases hnone : client.tx = []
  · have hlen := hempty.mp hnone
    rw [hnone, hdone] at hexit hrest hoff
    rw [if_pos hnone, hnone, hdone]
    refine ⟨rfl, ?_, ?_⟩
    · rw [flushClientTx_tx, hoff, if_neg (by simp [hlen]), List.length_nil, Nat.add_zero]
    · rw [flushClientTx_tx, hrest, hnone]
  · have hlen : tx.len ≠ 0 := fun hzero => hnone (hempty.mpr hzero)
    have hall := SendQueue.writeAll_done_iff outcomes client.tx
    rw [if_neg hnone]
    simp only
    cases hresult : (writeAll outcomes client.tx).exit with
    | done =>
      rw [hresult] at hexit
      rw [if_pos ⟨hexit, hlen⟩] at hoff
      rw [hall.mp hresult] at hrest
      refine ⟨rfl, ?_, ?_⟩
      · rw [flushClientTx_tx, hoff]
      · rw [flushClientTx_tx, hrest]
    | blocked =>
      rw [hresult] at hexit
      rw [if_neg (by simp [hexit])] at hoff
      refine ⟨rfl, ?_, ?_⟩
      · rw [flushClientTx_tx, hoff]
      · rw [flushClientTx_tx, hrest]
    | failed =>
      rw [hresult] at hexit
      rw [if_neg (by simp [hexit])] at hoff
      refine ⟨rfl, ?_, ?_⟩
      · rw [flushClientTx_tx, hoff]
      · rw [flushClientTx_tx, hrest]

end Refinement

section Runs

/-- A call on the queue, with the answers of the system. -/
inductive TxCall
  | enqueue (data : List UInt8) (watch : Bool)
  | flush (outcomes : List WriteOutcome) (watch : Bool)
  deriving DecidableEq, Repr

/-- The queue with the frames that passed the capacity checks. -/
structure TxRun where
  tx : ClientTx
  accepted : List (List UInt8)

namespace TxRun

def start : TxRun := ⟨init, []⟩

def call (r : TxRun) : TxCall → TxRun
  | .enqueue data watch =>
    let answer := enqueueClientTx watch r.tx data
    ⟨answer.2, if answer.1.appended = true then r.accepted ++ [data] else r.accepted⟩
  | .flush outcomes watch => ⟨(flushClientTx watch outcomes r.tx).2, r.accepted⟩

/-- The queue in order: nothing outside the array, and what was sent and what waits
are the accepted frames. -/
structure Fifo (r : TxRun) : Prop where
  window : r.tx.off + r.tx.len ≤ bcClientTxCap
  touched : ∀ part ∈ r.tx.touched, part.1 + part.2 ≤ bcClientTxCap
  bytes : r.tx.sent ++ r.tx.held = r.accepted.flatten

/-- A frame is accepted if the waiting bytes leave room for it, and otherwise refused
with `BC_ERR_NOMEM`, which leaves these bytes as they are. -/
def Answers (r : TxRun) : TxCall → Prop
  | .enqueue data watch => data.length ≤ bcClientTxCap →
    let answer := enqueueClientTx watch r.tx data
    (answer.1.appended = true ↔ r.tx.len + data.length ≤ bcClientTxCap) ∧
      (answer.1.rc = .nomem ↔ r.tx.len + data.length > bcClientTxCap) ∧
      (answer.1.rc = .nomem → answer.2.held = r.tx.held ∧ answer.2.len = r.tx.len ∧
        (answer.2.off = r.tx.off ∨ answer.2.off = 0))
  | .flush _ _ => True

end TxRun

/-- One call keeps the queue in order. -/
theorem TxRun.Fifo.call {r : TxRun} (h : r.Fifo) (c : TxCall) : (r.call c).Fifo := by
  have hbounds : r.tx.InBounds := ⟨h.window, h.touched⟩
  cases c with
  | enqueue data watch =>
    have hspec := enqueueClientTx_spec watch r.tx data
    unfold TxRun.call
    simp only
    generalize enqueueClientTx watch r.tx data = answer at hspec ⊢
    cases hspec with
    | tooLong _ => exact h
    | full _ tx' hmoved =>
      obtain ⟨hin, hheld, hsent, -, -⟩ := moved_held hbounds hmoved
      refine ⟨hin.window, hin.touched, ?_⟩
      simp only [hheld, hsent, Bool.false_eq_true, if_false]
      exact h.bytes
    | taken _ tx' hmoved hfit =>
      obtain ⟨hin, hheld, hsent, -, -⟩ := moved_held hbounds hmoved
      obtain ⟨hwindow, htouched⟩ := hin.copyIn hfit
      refine ⟨hwindow, htouched, ?_⟩
      have hdata : (tx'.copyIn data).held = tx'.held ++ data := Window.append_held hfit
      have hkeep : (tx'.copyIn data).sent = tx'.sent := rfl
      rw [hdata, hkeep, hheld, hsent, if_pos rfl, List.flatten_append, List.flatten_singleton,
        ← List.append_assoc, h.bytes]
  | flush outcomes watch =>
    obtain ⟨hin, -, hsent, hrest⟩ := flushLoop_spec outcomes hbounds
    have hcall : r.call (.flush outcomes watch) = ⟨(flushLoop outcomes r.tx).2, r.accepted⟩ := by
      simp only [TxRun.call, flushClientTx_tx]
    rw [hcall]
    refine ⟨hin.window, hin.touched, ?_⟩
    simp only
    rw [hsent, hrest, List.append_assoc, SendQueue.writeAll_append, h.bytes]

theorem TxRun.Fifo.answers {r : TxRun} (h : r.Fifo) (c : TxCall) : r.Answers c := by
  cases c with
  | flush outcomes watch => exact trivial
  | enqueue data watch =>
    intro hle
    have hspec := enqueueClientTx_spec watch r.tx data
    have hwatch : watchStatus watch ≠ .nomem := by cases watch <;> decide
    simp only
    generalize enqueueClientTx watch r.tx data = answer at hspec ⊢
    cases hspec with
    | tooLong hlong => omega
    | full hfull tx' hmoved =>
      obtain ⟨-, hheld, -, hlen, hoff⟩ := moved_held ⟨h.window, h.touched⟩ hmoved
      refine ⟨?_, ?_, fun _ => ⟨hheld, hlen, hoff⟩⟩
      · simpa using hfull
      · simpa using hfull
    | taken hroom tx' hmoved hfit =>
      refine ⟨?_, ?_, fun hrc => absurd hrc hwatch⟩
      · simpa using hroom
      · simpa [hwatch] using hroom

/-- The transmit queue is a byte FIFO that refuses a frame only when it is full: in
every run of calls it stays inside its array, what was sent followed by what waits
are the accepted frames in order, and every answer tells the room there was. -/
theorem clientTx_fifo (calls : List TxCall) :
    Runs.Along TxRun.call TxRun.Fifo .start calls ∧
      Runs.Meets TxRun.call TxRun.Answers .start calls := by
  have hstart : TxRun.Fifo .start := ⟨init_inBounds.window, init_inBounds.touched, by
    simp [TxRun.start, init, Window.held]⟩
  have halong : ∀ pre, TxRun.Fifo (Runs.run TxRun.call .start pre) :=
    Runs.run_of_step TxRun.call (fun r c h => h.call c) hstart
  exact ⟨fun pre _ => halong pre, fun pre c _ => (halong pre).answers c⟩

end Runs

end ClientTx

end BoardComm
