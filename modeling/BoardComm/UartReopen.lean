import BoardComm.Runs
import BoardComm.TransportSendQueue

/-!
# How a serial device comes back

A device that was lost is opened again by the timer. The send queue stays as it was
when the device was closed, with its read offset wherever the last write left it.
-/
namespace BoardComm

open SendQueue (Link writeAll)
open SendQueue.Link (Room)

/-- `uart_device_open`. The answer is the new descriptor, if there is one. -/
def uartDeviceOpen (answer : Option ℕ) (impl : UartImpl) : BcStatus × UartImpl :=
  match answer with
  | none => (.io, { impl with fd := -1 })
  | some fd => (.ok, { impl with fd := fd, opened := true })

/-- `uart_try_reopen`. -/
def uartTryReopen (answer : Option ℕ) (watch : Bool) (impl : UartImpl) : BcStatus × UartImpl :=
  match uartDeviceOpen answer impl with
  | (.ok, impl) => (watchStatus watch, { impl with retryAttempt := 0, reopenArmed := false })
  | (_, impl) => (.io, uartScheduleReopen impl)

/-- `uart_recv`. An adapter that drives the line does not listen. -/
def uartRecv (impl : UartImpl) (answer : RecvAnswer) (cap : ℕ) :
    BcStatus × List UInt8 × UartImpl :=
  if impl.opened = false ∨ impl.fd < 0 then (.invalid, [], impl)
  else if impl.mode = .rs485 ∧ impl.deTxActive = true then (.notFound, [], impl)
  else
    match answer with
    | .bytes data =>
      if (data.take cap).length > 0 then (.ok, data.take cap, impl)
      else (.io, [], uartScheduleReopen impl)
    | .eintr => (.notFound, [], impl)
    | .again => (.notFound, [], impl)
    | .error => (.io, [], uartScheduleReopen impl)

/-- The timer branch of `uart_handle_event`: one answer for each expiration read. -/
def uartTimerLoop (watch : Bool) : List (Option ℕ) → UartImpl → UartImpl
  | [], impl => impl
  | answer :: answers, impl =>
    if impl.reopenArmed = true then
      uartTimerLoop watch answers
        (uartTryReopen answer watch { impl with reopenArmed := false }).2
    else uartTimerLoop watch answers impl

/-- `uart_handle_event`, with the descriptor of the timer. -/
def uartHandleEvent (timerFd : ℤ) (opens : List (Option ℕ)) (io : IoAnswers) (impl : UartImpl)
    (fd : ℤ) (events : EpollEvents) : UartImpl :=
  if fd = timerFd ∧ events.epollin = true then uartTimerLoop io.watch opens impl
  else if fd = impl.fd then
    if events.epollhup = true ∨ events.epollerr = true then uartScheduleReopen impl
    else if events.epollout = true ∧ impl.link.off < impl.link.stored.length then
      (uartFlushSend io impl).2
    else impl
  else impl

/-- The ways through `uart_send`, with the transport that each leaves. -/
inductive UartSends (io : IoAnswers) (impl : UartImpl) (data : List UInt8) : UartImpl → Prop
  | closed (h : impl.opened = false ∨ impl.fd < 0) : UartSends io impl data impl
  | full (hwaits : impl.link.off < impl.link.stored.length)
      (hqueue : impl.link.queue bcUartSendCap io.alloc data = none) : UartSends io impl data impl
  | behind (hopen : impl.opened = true) (hwaits : impl.link.off < impl.link.stored.length)
      {link : Link} (hqueue : impl.link.queue bcUartSendCap io.alloc data = some link) :
      UartSends io impl data { impl with link := link }
  | stuck (hgpio : (uartRs485TxEnable io.gpio impl).1 ≠ .ok) : UartSends io impl data impl
  | sent (hidle : ¬ impl.link.off < impl.link.stored.length)
      (hexit : (writeAll io.writes data).exit = .done) :
      UartSends io impl data (uartRs485TxDisable
        { (uartRs485TxEnable io.gpio impl).2 with link := (impl.link.write io.writes data).2 })
  | waits (hopen : impl.opened = true) (hidle : ¬ impl.link.off < impl.link.stored.length)
      (hexit : (writeAll io.writes data).exit = .blocked) {link : Link}
      (hqueue : (impl.link.write io.writes data).2.queue bcUartSendCap io.alloc
        (writeAll io.writes data).rest = some link) :
      UartSends io impl data { (uartRs485TxEnable io.gpio impl).2 with link := link }
  | refused (hopen : impl.opened = true) (hfd : 0 ≤ impl.fd)
      (hgpio : (uartRs485TxEnable io.gpio impl).1 = .ok)
      (hidle : ¬ impl.link.off < impl.link.stored.length)
      (hexit : (writeAll io.writes data).exit = .blocked)
      (hqueue : (impl.link.write io.writes data).2.queue bcUartSendCap io.alloc
        (writeAll io.writes data).rest = none) :
      UartSends io impl data
        { (uartRs485TxEnable io.gpio impl).2 with link := (impl.link.write io.writes data).2 }
  | lost (hidle : ¬ impl.link.off < impl.link.stored.length)
      (hexit : (writeAll io.writes data).exit = .failed) :
      UartSends io impl data (uartScheduleReopen
        { (uartRs485TxEnable io.gpio impl).2 with link := (impl.link.write io.writes data).2 })

/-- The ways through `uart_flush_send`. -/
inductive UartFlushes (io : IoAnswers) (impl : UartImpl) : UartImpl → Prop
  | closed (h : impl.opened = false ∨ impl.fd < 0) : UartFlushes io impl impl
  | stuck (hgpio : (uartRs485TxEnable io.gpio impl).1 ≠ .ok) : UartFlushes io impl impl
  | done (hexit : (impl.link.flush io.writes).1 = .done) {impl' : UartImpl}
      (hready : impl' = impl ∨ impl' = (uartRs485TxEnable io.gpio impl).2) :
      UartFlushes io impl
        (uartRs485TxDisable { impl' with link := (impl.link.flush io.writes).2 })
  | waits (hopen : impl.opened = true) (hwaits : impl.link.off < impl.link.stored.length)
      (hexit : (impl.link.flush io.writes).1 = .blocked) :
      UartFlushes io impl
        { (uartRs485TxEnable io.gpio impl).2 with link := (impl.link.flush io.writes).2 }
  | lost (hwaits : impl.link.off < impl.link.stored.length)
      (hexit : (impl.link.flush io.writes).1 = .failed) :
      UartFlushes io impl (uartScheduleReopen
        { (uartRs485TxEnable io.gpio impl).2 with link := (impl.link.flush io.writes).2 })

section Waiting

variable {l l' : Link}

theorem idle_pending (h : ¬ l.off < l.stored.length) : l.pending = [] :=
  List.drop_eq_nil_of_le (by omega)

theorem waits_of_pending (h : l.pending ≠ []) : l.off < l.stored.length := by
  by_contra hidle
  exact h (idle_pending hidle)

theorem pending_of_waits (h : l.off < l.stored.length) : l.pending ≠ [] := by
  intro hnone
  have hle := List.drop_eq_nil_iff.mp hnone
  omega

/-- A copy behind the stored bytes lengthens what waits. -/
theorem queue_pending {alloc : Bool} {data : List UInt8} (hoff : l.off ≤ l.stored.length)
    (h : l.queue bcUartSendCap alloc data = some l') :
    l'.written = l.written ∧ l'.pending = l.pending ++ data ∧ l'.off ≤ l'.stored.length := by
  rw [Link.queue_eq] at h
  split_ifs at h with hfit
  cases h
  refine ⟨rfl, List.drop_append_of_le_length hoff, ?_⟩
  simp only [Link.store, List.length_append]
  omega

/-- A flush writes what waits, from its beginning. -/
theorem flush_pending (outcomes : List SendQueue.WriteOutcome) (hoff : l.off ≤ l.stored.length) :
    ∃ bytes, (l.flush outcomes).2.written = l.written ++ bytes ∧
      bytes ++ (l.flush outcomes).2.pending = l.pending ∧
      (l.flush outcomes).2.off ≤ (l.flush outcomes).2.stored.length ∧
      ((l.flush outcomes).1 ≠ .done → (l.flush outcomes).2.pending ≠ []) := by
  have happ := SendQueue.writeAll_append outcomes l.pending
  have hdone := SendQueue.writeAll_done_iff outcomes l.pending
  simp only [Link.flush]
  generalize writeAll outcomes l.pending = r at happ hdone ⊢
  have hlen := congrArg List.length happ
  rw [List.length_append, Link.pending, List.length_drop] at hlen
  by_cases hexit : r.exit = .done
  · rw [hdone.mp hexit] at happ
    rw [if_pos hexit]
    exact ⟨r.written, rfl, happ, le_rfl, fun h => absurd hexit h⟩
  · have hrest : l.stored.drop (l.off + r.written.length) = r.rest := by
      rw [← List.drop_drop, ← Link.pending, ← happ, List.drop_left]
    rw [if_neg hexit]
    refine ⟨r.written, rfl, ?_, ?_, fun _ => ?_⟩
    · rw [Link.pending, hrest, happ]
    · show l.off + r.written.length ≤ l.stored.length
      omega
    · rw [Link.pending, hrest]
      exact fun h => hexit (hdone.mpr h)

end Waiting

section Device

variable (impl : UartImpl) (io : IoAnswers)

@[simp] theorem link_txEnable : (uartRs485TxEnable io.gpio impl).2.link = impl.link :=
  (uartRs485TxEnable_same io.gpio impl).2

@[simp] theorem opened_txEnable : (uartRs485TxEnable io.gpio impl).2.opened = impl.opened :=
  (uartRs485TxEnable_same io.gpio impl).1.opened

@[simp] theorem link_txDisable : (uartRs485TxDisable impl).link = impl.link :=
  (uartRs485TxDisable_same impl).2

@[simp] theorem link_scheduleReopen : (uartScheduleReopen impl).link = impl.link :=
  link_txDisable impl

@[simp] theorem opened_scheduleReopen : (uartScheduleReopen impl).opened = false := rfl

/-- A pin that could not be set leaves the transport as it was. -/
theorem txEnable_failed (h : (uartRs485TxEnable io.gpio impl).1 ≠ .ok) :
    (uartRs485TxEnable io.gpio impl).2 = impl := by
  unfold uartRs485TxEnable at h ⊢
  split_ifs at h ⊢ with hmode hgpio
  · rfl
  · rfl
  · exact absurd rfl h

theorem uartSends (data : List UInt8) : UartSends io impl data (uartSend io impl data).2 := by
  unfold uartSend
  split_ifs with hclosed hwaits
  · exact .closed hclosed
  · have hopen : impl.opened = true := by
      cases h : impl.opened
      · exact absurd (.inl h) hclosed
      · rfl
    rw [uartQueueSend, if_neg (by simp [hopen])]
    cases hqueue : impl.link.queue bcUartSendCap io.alloc data with
    | none => exact .full hwaits hqueue
    | some link => exact .behind hopen hwaits hqueue
  · have hopen : impl.opened = true := by
      cases h : impl.opened
      · exact absurd (.inl h) hclosed
      · rfl
    have hfd : 0 ≤ impl.fd := by
      by_contra hfd
      exact hclosed (.inr (by omega))
    have hlink := link_txEnable impl io
    have hopened := opened_txEnable impl io
    cases hen : uartRs485TxEnable io.gpio impl with
    | mk rc impl' =>
      have hsnd : (uartRs485TxEnable io.gpio impl).2 = impl' := by rw [hen]
      by_cases hrc : rc = .ok
      · subst hrc
        have hgpio : (uartRs485TxEnable io.gpio impl).1 = .ok := by rw [hen]
        rw [hsnd] at hlink hopened
        simp only [Link.write, hlink]
        cases hexit : (writeAll io.writes data).exit with
        | done => exact hsnd ▸ .sent hwaits hexit
        | failed => exact hsnd ▸ .lost hwaits hexit
        | blocked =>
          simp only [uartQueueSend]
          rw [if_neg (by simp [hopened, hopen])]
          cases hqueue : Link.queue bcUartSendCap io.alloc
              { impl.link with written := impl.link.written ++ (writeAll io.writes data).written }
              (writeAll io.writes data).rest with
          | none => exact hsnd ▸ .refused hopen hfd hgpio hwaits hexit hqueue
          | some link => exact hsnd ▸ .waits hopen hwaits hexit hqueue
      · have hgpio : (uartRs485TxEnable io.gpio impl).1 ≠ .ok := by rwa [hen]
        have hsame := txEnable_failed impl io hgpio
        rw [hsnd] at hsame
        subst hsame
        cases rc with
        | ok => exact absurd rfl hrc
        | _ => exact .stuck hgpio

/-- What waits nowhere is written without an answer. -/
theorem flush_of_idle {l : Link} (h : ¬ l.off < l.stored.length)
    (outcomes : List SendQueue.WriteOutcome) : (l.flush outcomes).1 = .done := by
  have hpending : l.pending = [] := List.drop_eq_nil_of_le (by omega)
  simp only [Link.flush, hpending]
  cases outcomes <;> rfl

theorem uartFlushes : UartFlushes io impl (uartFlushSend io impl).2 := by
  unfold uartFlushSend
  split_ifs with hclosed hwaits
  · exact .closed hclosed
  · have hopen : impl.opened = true := by
      cases h : impl.opened
      · exact absurd (.inl h) hclosed
      · rfl
    have hlink := link_txEnable impl io
    cases hen : uartRs485TxEnable io.gpio impl with
    | mk rc impl' =>
      have hsnd : (uartRs485TxEnable io.gpio impl).2 = impl' := by rw [hen]
      simp only
      split_ifs with hrc
      · have hgpio : (uartRs485TxEnable io.gpio impl).1 ≠ .ok := by rwa [hen]
        have hsame := txEnable_failed impl io hgpio
        rw [hsnd] at hsame
        subst hsame
        exact .stuck hgpio
      · rw [hsnd] at hlink
        rw [hlink]
        cases hexit : (impl.link.flush io.writes).1 with
        | done => exact .done hexit (.inr hsnd.symm)
        | blocked => exact hsnd ▸ .waits hopen hwaits hexit
        | failed => exact hsnd ▸ .lost hwaits hexit
  · have hexit := flush_of_idle hwaits io.writes
    simp only [hexit, ne_eq, not_true, if_false]
    exact .done hexit (.inl rfl)

end Device

end BoardComm
