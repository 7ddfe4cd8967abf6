import BoardComm.UartReopen

/-!
# The direction pin of an RS-485 adapter

An adapter that drives the line hears nothing. The pin is set before the first byte
and is reset by whoever finds the queue empty, so it may stay set only while an open
device has bytes waiting.
-/
namespace BoardComm

open SendQueue (Link writeAll)

/-- What a serial transport meets. -/
inductive UartInput
  | send (data : List UInt8) (io : IoAnswers)
  | flush (io : IoAnswers)
  | scheduleReopen
  | recv (answer : RecvAnswer) (cap : ℕ)
  | event (timerFd : ℤ) (opens : List (Option ℕ)) (io : IoAnswers) (fd : ℤ)
      (events : EpollEvents)
  deriving DecidableEq, Repr

def uartStep (impl : UartImpl) : UartInput → UartImpl
  | .send data io => (uartSend io impl data).2
  | .flush io => (uartFlushSend io impl).2
  | .scheduleReopen => uartScheduleReopen impl
  | .recv answer cap => (uartRecv impl answer cap).2.2
  | .event timerFd opens io fd events => uartHandleEvent timerFd opens io impl fd events

/-- `gpio_set_value` returns `BC_OK`. -/
def UartInput.PinWorks : UartInput → Prop
  | .send _ io => io.gpio = true
  | .flush io => io.gpio = true
  | .event _ _ io _ _ => io.gpio = true
  | _ => True

namespace UartImpl

/-- The line is driven only while bytes wait for an open device. -/
def Released (impl : UartImpl) : Prop :=
  impl.deTxActive = true → impl.opened = true ∧ impl.link.off < impl.link.stored.length

/-- The device blocks while nothing waits, and there is no room to queue the rest. -/
def RestRefused (impl : UartImpl) : UartInput → Prop
  | .send data io => impl.opened = true ∧ 0 ≤ impl.fd ∧
      ¬ impl.link.off < impl.link.stored.length ∧ (writeAll io.writes data).exit = .blocked ∧
      ¬ ((writeAll io.writes data).rest.length ≤ bcUartSendCap ∧
        (impl.link.allocated = true ∨ io.alloc = true))
  | _ => False

structure Rs485 (impl : UartImpl) : Prop where
  mode : impl.mode = .rs485
  off_le : impl.link.off ≤ impl.link.stored.length
  released : impl.Released

section Pin

variable {impl impl' : UartImpl} {io : IoAnswers}

@[simp] theorem mode_txEnable (gpio : Bool) :
    (uartRs485TxEnable gpio impl).2.mode = impl.mode := by
  unfold uartRs485TxEnable
  split_ifs
  all_goals rfl

@[simp] theorem mode_txDisable : (uartRs485TxDisable impl).mode = impl.mode := by
  unfold uartRs485TxDisable
  split_ifs
  all_goals rfl

@[simp] theorem mode_scheduleReopen : (uartScheduleReopen impl).mode = impl.mode :=
  mode_txDisable

theorem deTxActive_txEnable (hmode : impl.mode = .rs485) (hgpio : io.gpio = true) :
    (uartRs485TxEnable io.gpio impl).1 = .ok ∧
      (uartRs485TxEnable io.gpio impl).2.deTxActive = true := by
  unfold uartRs485TxEnable
  split_ifs with hskip hpin
  · exact ⟨rfl, hskip.resolve_left (not_not.mpr hmode)⟩
  · rw [hgpio] at hpin
    cases hpin
  · exact ⟨rfl, rfl⟩

theorem deTxActive_txDisable (hmode : impl.mode = .rs485) :
    (uartRs485TxDisable impl).deTxActive = false := by
  unfold uartRs485TxDisable
  split_ifs with hskip
  · exact hskip.resolve_left (not_not.mpr hmode)
  · rfl

theorem Rs485.txDisable (hmode : impl.mode = .rs485)
    (hoff : impl.link.off ≤ impl.link.stored.length) : (uartRs485TxDisable impl).Rs485 := by
  refine ⟨mode_txDisable.trans hmode, ?_, fun hactive => ?_⟩
  · rw [link_txDisable]
    exact hoff
  · rw [deTxActive_txDisable hmode] at hactive
    cases hactive

theorem Rs485.scheduleReopen (hmode : impl.mode = .rs485)
    (hoff : impl.link.off ≤ impl.link.stored.length) : (uartScheduleReopen impl).Rs485 := by
  refine ⟨mode_scheduleReopen.trans hmode, ?_, fun hactive => ?_⟩
  · rw [link_scheduleReopen]
    exact hoff
  · have hreset : (uartRs485TxDisable impl).deTxActive = true := hactive
    rw [deTxActive_txDisable hmode] at hreset
    cases hreset

theorem Rs485.sends {data : List UInt8} (h : impl.Rs485) (hs : UartSends io impl data impl')
    (hgpio : io.gpio = true) (hroom : ¬ impl.RestRefused (.send data io)) : impl'.Rs485 := by
  have henable := deTxActive_txEnable h.mode hgpio
  cases hs with
  | closed => exact h
  | full => exact h
  | stuck => exact h
  | behind hopen hwaits hqueue =>
    obtain ⟨-, hpending, hoff⟩ := queue_pending h.off_le hqueue
    refine ⟨h.mode, hoff, fun _ => ⟨hopen, waits_of_pending ?_⟩⟩
    rw [hpending]
    exact List.append_ne_nil_of_left_ne_nil (pending_of_waits hwaits) data
  | sent => exact Rs485.txDisable ((mode_txEnable _).trans h.mode) h.off_le
  | waits hopen hidle hexit hqueue =>
    have hrest : (writeAll io.writes data).rest ≠ [] := by
      intro hrest
      rw [← SendQueue.writeAll_done_iff, hexit] at hrest
      cases hrest
    have hbehind : (impl.link.write io.writes data).2.off ≤
      (impl.link.write io.writes data).2.stored.length := h.off_le
    obtain ⟨-, hpending, hoff⟩ := queue_pending hbehind hqueue
    refine ⟨(mode_txEnable _).trans h.mode, hoff,
      fun _ => ⟨(opened_txEnable impl io).trans hopen, waits_of_pending ?_⟩⟩
    rw [hpending]
    exact List.append_ne_nil_of_right_ne_nil _ hrest
  | refused hopen hfd hen hidle hexit hqueue =>
    refine absurd ⟨hopen, hfd, hidle, hexit, fun hfit => ?_⟩ hroom
    have hneed : (impl.link.write io.writes data).2.stored.length -
        (impl.link.write io.writes data).2.off + (writeAll io.writes data).rest.length ≤
          bcUartSendCap := by
      have hnone : impl.link.stored.length - impl.link.off = 0 := by omega
      show impl.link.stored.length - impl.link.off + _ ≤ _
      rw [hnone, Nat.zero_add]
      exact hfit.1
    rw [Link.queue_eq, if_pos ⟨hneed, hfit.2⟩] at hqueue
    cases hqueue
  | lost => exact Rs485.scheduleReopen ((mode_txEnable _).trans h.mode) h.off_le

theorem Rs485.flushes (h : impl.Rs485) (hs : UartFlushes io impl impl') : impl'.Rs485 := by
  obtain ⟨-, -, -, hoff, hrest⟩ := flush_pending io.writes h.off_le
  cases hs with
  | closed => exact h
  | stuck => exact h
  | done hexit hready =>
    refine Rs485.txDisable ?_ hoff
    rcases hready with rfl | rfl
    · exact h.mode
    · exact (mode_txEnable _).trans h.mode
  | waits hopen hwaits hexit =>
    have hlt := waits_of_pending (hrest (by rw [hexit]; decide))
    exact ⟨(mode_txEnable _).trans h.mode, hoff,
      fun _ => ⟨(opened_txEnable impl io).trans hopen, hlt⟩⟩
  | lost => exact Rs485.scheduleReopen ((mode_txEnable _).trans h.mode) hoff

theorem Rs485.tryReopen (h : impl.Rs485) (answer : Option ℕ) (watch : Bool) :
    (uartTryReopen answer watch impl).2.Rs485 := by
  cases answer with
  | none => exact Rs485.scheduleReopen h.mode h.off_le
  | some fd => exact ⟨h.mode, h.off_le, fun hactive => ⟨rfl, (h.released hactive).2⟩⟩

theorem Rs485.timerLoop (watch : Bool) (answers : List (Option ℕ)) (h : impl.Rs485) :
    (uartTimerLoop watch answers impl).Rs485 := by
  induction answers generalizing impl with
  | nil => exact h
  | cons answer answers ih =>
    unfold uartTimerLoop
    split_ifs
    · apply ih
      apply Rs485.tryReopen
      exact ⟨h.mode, h.off_le, h.released⟩
    · exact ih h

theorem Rs485.step (h : impl.Rs485) {input : UartInput} (hpin : input.PinWorks)
    (hroom : ¬ impl.RestRefused input) : (uartStep impl input).Rs485 := by
  cases input with
  | send data io => exact h.sends (uartSends impl io data) hpin hroom
  | flush io => exact h.flushes (uartFlushes impl io)
  | scheduleReopen => exact Rs485.scheduleReopen h.mode h.off_le
  | recv answer cap =>
    simp only [uartStep, uartRecv]
    split_ifs
    · exact h
    · exact h
    · cases answer with
      | bytes data =>
        simp only
        split_ifs
        · exact h
        · exact Rs485.scheduleReopen h.mode h.off_le
      | eintr => exact h
      | again => exact h
      | error => exact Rs485.scheduleReopen h.mode h.off_le
  | event timerFd opens io fd events =>
    simp only [uartStep, uartHandleEvent]
    split_ifs
    · exact Rs485.timerLoop io.watch opens h
    · exact Rs485.scheduleReopen h.mode h.off_le
    · exact h.flushes (uartFlushes impl io)
    · exact h
    · exact h

/-- A rest that is refused leaves the pin set with nothing queued. -/
theorem Rs485.lost (h : impl.Rs485) {input : UartInput} (hpin : input.PinWorks)
    (hrefused : impl.RestRefused input) : ¬ (uartStep impl input).Released := by
  cases input with
  | send data io =>
    obtain ⟨hopen, hfd, hidle, hexit, hfit⟩ := hrefused
    obtain ⟨hok, hactive⟩ := deTxActive_txEnable h.mode hpin
    have hs := uartSends impl io data
    show ¬ Released (uartSend io impl data).2
    generalize (uartSend io impl data).2 = impl' at hs
    intro hreleased
    cases hs with
    | closed hclosed =>
      rcases hclosed with hclosed | hclosed
      · rw [hopen] at hclosed
        cases hclosed
      · omega
    | full hwaits => exact hidle hwaits
    | behind _ hwaits => exact hidle hwaits
    | stuck hgpio => exact hgpio hok
    | sent _ hdone =>
      rw [hexit] at hdone
      cases hdone
    | waits _ _ _ hqueue =>
      rw [Link.queue_eq] at hqueue
      split_ifs at hqueue with hfound
      exact hfit ⟨le_trans (Nat.le_add_left _ _) hfound.1, hfound.2⟩
    | refused =>
      obtain ⟨-, hlt⟩ := hreleased hactive
      exact hidle hlt
    | lost _ hfailed =>
      rw [hexit] at hfailed
      cases hfailed
  | flush io => exact absurd hrefused id
  | scheduleReopen => exact absurd hrefused id
  | recv answer cap => exact absurd hrefused id
  | event timerFd opens io fd events => exact absurd hrefused id

end Pin

end UartImpl

/-- The line is released throughout exactly when no rest of a blocked write is refused. -/
theorem uart_direction_released_iff (impl : UartImpl) (inputs : List UartInput)
    (hmode : impl.mode = .rs485) (hoff : impl.link.off ≤ impl.link.stored.length)
    (hreleased : impl.Released) (hpin : ∀ input ∈ inputs, input.PinWorks) :
    Runs.Along uartStep UartImpl.Released impl inputs ↔
      Runs.Meets uartStep (fun impl input => ¬ impl.RestRefused input) impl inputs :=
  Runs.along_iff_meets uartStep (I := UartImpl.Rs485) (fun _ h => h.released)
    (fun _ _ h hp hr => h.step hp hr) (fun _ _ h hp hr => h.lost hp (not_not.mp hr))
    ⟨hmode, hoff, hreleased⟩ hpin

/-- An adapter that has just been opened. -/
def rs485Idle : UartImpl := { uartIdle with mode := .rs485 }

theorem uart_direction_released_iff_queued :
    Runs.Along uartStep UartImpl.Released rs485Idle [.send [1, 2] ioBlocked, .flush ioBlocked] := by
  apply (uart_direction_released_iff rs485Idle [.send [1, 2] ioBlocked, .flush ioBlocked] rfl
    (by decide) (fun h => by cases h) (by simp [UartInput.PinWorks, ioBlocked])).mpr
  simp only [Runs.meets_cons]
  refine ⟨?_, id, Runs.meets_nil _⟩
  intro hrefused
  exact hrefused.2.2.2.2 ⟨by decide, .inr rfl⟩

/-- Half of the frame is written, and there is no memory for the other half. -/
def restRefusedInputs : List UartInput :=
  [.send [1, 2] ⟨[.wrote 1, .eagain], false, true, true⟩]

/-- The adapter then drives the line with nothing queued, and hears nothing. -/
theorem driver_left_enabled :
    (∀ input ∈ restRefusedInputs, input.PinWorks) ∧
      ¬ Runs.Along uartStep UartImpl.Released rs485Idle restRefusedInputs ∧
      (uartRecv (Runs.run uartStep rs485Idle restRefusedInputs) (.bytes [7]) 1).1 = .notFound := by
  refine ⟨by simp [restRefusedInputs, UartInput.PinWorks], fun h => ?_, by decide⟩
  have hlast := h restRefusedInputs List.prefix_rfl
  have hactive : (Runs.run uartStep rs485Idle restRefusedInputs).deTxActive = true ∧
      ¬ (Runs.run uartStep rs485Idle restRefusedInputs).link.off <
        (Runs.run uartStep rs485Idle restRefusedInputs).link.stored.length := by decide
  exact hactive.2 (hlast hactive.1).2

end BoardComm
