import BoardComm.Runs
import BoardComm.TcpReconnect
import BoardComm.UartTransport

/-!
# The delay before the next attempt

A TCP client and a serial device wait for their next attempt by the same rule. The
delay doubles with every attempt that failed since the last success, up to a bound.
Everything is computed in `int`, and the clamp comes after the shift.
-/
namespace BoardComm

/-- `BC_UART_REOPEN_MS_INIT`. -/
abbrev bcUartReopenMsInit : ℕ := 1000

/-- `BC_UART_REOPEN_MS_MAX`. -/
abbrev bcUartReopenMsMax : ℕ := 30000

/-- `x << shift` in `int`. A result that leaves the range is not defined. -/
def shiftInt (x : Int32) (shift : ℕ) : Option Int32 :=
  if x.toInt * 2 ^ shift > intMax then none else some (x <<< Int32.ofNat shift)

/-- The rule of both transports. -/
def retryDelayMs (init max : Int32) (retryAttempt : ℕ) : Option Int32 :=
  if retryAttempt > 0 then
    match shiftInt init (retryAttempt - 1) with
    | none => none
    | some delay => if delay > max then some max else some delay
  else some init

/-- `tcp_reconnect_delay_ms`, in the arithmetic of 32 bits. -/
def tcpReconnectDelayInt (impl : TcpImpl) : Option Int32 :=
  retryDelayMs (.ofNat bcTcpReconnectMsInit) (.ofNat bcTcpReconnectMsMax) impl.retryAttempt

/-- `uart_reopen_delay_ms`. -/
def uartReopenDelayMs (impl : UartImpl) : Option Int32 :=
  retryDelayMs (.ofNat bcUartReopenMsInit) (.ofNat bcUartReopenMsMax) impl.retryAttempt

/-- The `it_value` of a timer. -/
structure TimerValue where
  tvSec : ℤ
  tvNsec : ℤ
  deriving DecidableEq, Repr

/-- What `timerfd_settime` accepts, and does not take for disarming. -/
def TimerValue.Arms (v : TimerValue) : Prop :=
  0 ≤ v.tvSec ∧ 0 ≤ v.tvNsec ∧ v.tvNsec < 1000000000 ∧ (v.tvSec ≠ 0 ∨ v.tvNsec ≠ 0)

instance decidableArms : DecidablePred TimerValue.Arms := fun v =>
  inferInstanceAs (Decidable (0 ≤ v.tvSec ∧ 0 ≤ v.tvNsec ∧ v.tvNsec < 1000000000 ∧
    (v.tvSec ≠ 0 ∨ v.tvNsec ≠ 0)))

/-- `it_value` in `tcp_timer_arm` and `uart_timer_arm`. -/
def timerValue (delayMs : Int32) : TimerValue :=
  ⟨(delayMs / 1000).toInt, (delayMs % 1000).toInt * 1000000⟩

/-- The delay that `tcp_schedule_reconnect` passes to the timer, where it is defined. -/
def tcpScheduledDelay (impl : TcpImpl) : List (Option Int32) :=
  if impl.isServer = true then [] else [tcpReconnectDelayInt impl]

/-- The delay that `uart_schedule_reopen` passes to the timer, where it is defined. -/
def uartScheduledDelay (impl : UartImpl) : List (Option Int32) :=
  [uartReopenDelayMs (uartDeviceClose impl)]

/-- The delays of so many calls of `tcp_schedule_reconnect` without a success. -/
def tcpDelays (impl : TcpImpl) (n : ℕ) : List (Option Int32) :=
  Runs.collect (fun impl _ => tcpScheduleReconnect impl) (fun impl _ => tcpScheduledDelay impl)
    impl (List.replicate n ())

/-- The delays of so many calls of `uart_schedule_reopen` without a success. -/
def uartDelays (impl : UartImpl) (n : ℕ) : List (Option Int32) :=
  Runs.collect (fun impl _ => uartScheduleReopen impl) (fun impl _ => uartScheduledDelay impl)
    impl (List.replicate n ())

/-- Every delay stands between the first and the greatest one, none is shorter than
the one before it, and each arms the timer. -/
structure InRange (init max : Int32) (delays : List Int32) : Prop where
  bounds : ∀ delay ∈ delays, init ≤ delay ∧ delay ≤ max
  rising : delays.IsChain (· ≤ ·)
  arms : ∀ delay ∈ delays, (timerValue delay).Arms

/-- All the delays are defined, and they stay in range. -/
def StaysInRange (init max : Int32) (delays : List (Option Int32)) : Prop :=
  ∃ defined, delays = defined.map some ∧ InRange init max defined

theorem retryDelayMs_of_ge {attempt : ℕ} (h : 23 ≤ attempt) :
    retryDelayMs 1000 30000 attempt = none := by
  have hpow : (2 : ℤ) ^ 22 ≤ 2 ^ (attempt - 1) := pow_le_pow_right₀ (by decide) (by omega)
  have hlong : (1000 : Int32).toInt * 2 ^ (attempt - 1) > intMax := by
    have hinit : (1000 : Int32).toInt = 1000 := by decide
    simp only [hinit, intMax]
    omega
  simp only [retryDelayMs, if_pos (show attempt > 0 by omega), shiftInt, if_pos hlong]

/-- The delay is the one of the model without a bound on `int`. -/
theorem tcpReconnectDelayInt_eq (impl : TcpImpl) :
    (tcpReconnectDelayInt impl).map Int32.toInt = (tcpReconnectDelayMs impl).map Nat.cast := by
  by_cases hretry : impl.retryAttempt < 23
  · have hall : ∀ attempt < 23, ∀ impl : TcpImpl, impl.retryAttempt = attempt →
        (retryDelayMs 1000 30000 attempt).map Int32.toInt =
          (tcpReconnectDelayMs impl).map Nat.cast := by
      intro attempt hlt impl hretry
      unfold tcpReconnectDelayMs
      rw [hretry]
      clear hretry
      revert attempt
      decide
    exact hall impl.retryAttempt hretry impl rfl
  · have hge : 23 ≤ impl.retryAttempt := Nat.not_lt.mp hretry
    rw [tcpReconnectDelayMs_of_ge hge]
    exact congrArg (Option.map Int32.toInt) (retryDelayMs_of_ge hge)

/-- The delays of so many attempts from one with a given number on. -/
def retryDelays (first n : ℕ) : List (Option Int32) :=
  (List.range' first n).map (retryDelayMs 1000 30000)

theorem tcpDelays_eq {impl : TcpImpl} (hclient : impl.isServer = false) (n : ℕ) :
    tcpDelays impl n = retryDelays impl.retryAttempt n := by
  have hstep : ∀ (impl : TcpImpl) (_ : Unit), impl.isServer = false →
      (tcpScheduleReconnect impl).isServer = false ∧
        (tcpScheduleReconnect impl).retryAttempt = impl.retryAttempt + 1 := by
    intro impl _ hclient
    rw [tcpScheduleReconnect, if_neg (by simp [hclient])]
    unfold tcpTimerArm
    split_ifs
    · exact ⟨hclient, rfl⟩
    · exact ⟨hclient, rfl⟩
  have hsee : ∀ (impl : TcpImpl) (_ : Unit), impl.isServer = false →
      tcpScheduledDelay impl = [retryDelayMs 1000 30000 impl.retryAttempt] := by
    intro impl _ hclient
    rw [tcpScheduledDelay, if_neg (by simp [hclient])]
    rfl
  have hcollect := Runs.collect_eq_map_count (fun impl _ => tcpScheduledDelay impl)
    (retryDelayMs 1000 30000) hstep hsee hclient (List.replicate n ())
  rwa [List.length_replicate] at hcollect

theorem uartDelays_eq (impl : UartImpl) (n : ℕ) :
    uartDelays impl n = retryDelays impl.retryAttempt n := by
  have hclose : ∀ impl : UartImpl, (uartDeviceClose impl).retryAttempt = impl.retryAttempt := by
    intro impl
    unfold uartDeviceClose uartRs485TxDisable
    split_ifs
    · rfl
    · rfl
  have hstep : ∀ (impl : UartImpl) (_ : Unit), True →
      True ∧ (uartScheduleReopen impl).retryAttempt = impl.retryAttempt + 1 := by
    intro impl _ _
    exact ⟨trivial, congrArg (· + 1) (hclose impl)⟩
  have hsee : ∀ (impl : UartImpl) (_ : Unit), True →
      uartScheduledDelay impl = [retryDelayMs 1000 30000 impl.retryAttempt] := by
    intro impl _ _
    rw [uartScheduledDelay, uartReopenDelayMs, hclose]
    rfl
  have hcollect := Runs.collect_eq_map_count (s := impl) (fun impl _ => uartScheduledDelay impl)
    (retryDelayMs 1000 30000) hstep hsee trivial (List.replicate n ())
  rwa [List.length_replicate] at hcollect

/-- A delay in the range is seconds and a part of a second that a timer takes. -/
theorem timerValue_arms {delay : Int32} (hshort : 1000 ≤ delay) (hlong : delay ≤ 30000) :
    (timerValue delay).Arms := by
  have hlow : (1000 : ℤ) ≤ delay.toInt := Int32.le_iff_toInt_le.mp hshort
  have hhigh : delay.toInt ≤ 30000 := Int32.le_iff_toInt_le.mp hlong
  have hsec : (delay / 1000).toInt = delay.toInt / 1000 := by
    rw [Int32.toInt_div_of_ne_right _ _ (by decide)]
    exact Int.tdiv_eq_ediv_of_nonneg (by omega)
  have hnsec : (delay % 1000).toInt = delay.toInt % 1000 := by
    rw [Int32.toInt_mod]
    exact Int.tmod_eq_emod_of_nonneg (by omega)
  unfold timerValue TimerValue.Arms
  rw [hsec, hnsec]
  dsimp only
  omega

/-- The delays of the attempts before the shift leaves the range. -/
def definedDelays : List Int32 :=
  [1000, 1000, 2000, 4000, 8000, 16000] ++ List.replicate 17 30000

theorem retryDelays_defined : retryDelays 0 23 = definedDelays.map some := by decide +kernel

/-- A stretch of those delays stays in range. -/
theorem inRange_of_infix {delays : List Int32} (h : delays <:+: definedDelays) :
    InRange 1000 30000 delays := by
  -- The elements of the list are run through, not those of the type.
  have hall : definedDelays.all (fun delay => 1000 ≤ delay ∧ delay ≤ 30000) = true := by
    decide +kernel
  have hchain : definedDelays.IsChain (· ≤ ·) := by decide +kernel
  have hbounds : ∀ delay ∈ delays, (1000 : Int32) ≤ delay ∧ delay ≤ 30000 :=
    fun delay hdelay => of_decide_eq_true (List.all_eq_true.mp hall delay (h.subset hdelay))
  exact ⟨hbounds, hchain.infix h,
    fun delay hdelay => timerValue_arms (hbounds delay hdelay).1 (hbounds delay hdelay).2⟩

/-- The shift of attempt 23 is the first that leaves the range. -/
theorem staysInRange_retryDelays_iff (first n : ℕ) :
    StaysInRange 1000 30000 (retryDelays first n) ↔ n = 0 ∨ first + n ≤ 23 := by
  constructor
  · rintro ⟨defined, hdefined, -⟩
    by_contra hlong
    have hmem : retryDelayMs 1000 30000 (first + n - 1) ∈ retryDelays first n :=
      List.mem_map_of_mem (List.mem_range'_1.mpr (by omega))
    rw [retryDelayMs_of_ge (by omega), hdefined] at hmem
    simp at hmem
  · rintro (rfl | hn)
    · exact ⟨[], rfl, inRange_of_infix (List.nil_infix)⟩
    · refine ⟨(definedDelays.drop first).take n, ?_,
        inRange_of_infix ((List.take_prefix _ _).isInfix.trans (List.drop_suffix _ _).isInfix)⟩
      rw [List.map_take, List.map_drop, ← retryDelays_defined, retryDelays, retryDelays,
        ← List.map_drop, ← List.map_take]
      congr 1
      apply List.ext_getElem
      · simp
        omega
      · intro i hi hi'
        simp

/-- Wherever the count stands, the delays of both transports stay in range as long as it
does not pass 23. -/
theorem retry_delays_inRange_iff (tcp : TcpImpl) (uart : UartImpl) (n : ℕ)
    (hclient : tcp.isServer = false) :
    (StaysInRange (.ofNat bcTcpReconnectMsInit) (.ofNat bcTcpReconnectMsMax) (tcpDelays tcp n) ↔
        n = 0 ∨ tcp.retryAttempt + n ≤ 23) ∧
      (StaysInRange (.ofNat bcUartReopenMsInit) (.ofNat bcUartReopenMsMax) (uartDelays uart n) ↔
        n = 0 ∨ uart.retryAttempt + n ≤ 23) := by
  rw [tcpDelays_eq hclient, uartDelays_eq]
  exact ⟨staysInRange_retryDelays_iff _ n, staysInRange_retryDelays_iff _ n⟩

/-- A client and a device that have met some failures. -/
def tcpFailed (retryAttempt : ℕ) : TcpImpl :=
  ⟨-1, -1, 4, false, false, false, false, retryAttempt, none, ⟨false, [], 0, [], []⟩, []⟩

def uartFailed (retryAttempt : ℕ) : UartImpl :=
  ⟨-1, .rs232, false, false, retryAttempt, true, ⟨false, [], 0, [], []⟩⟩

theorem retry_delays_inRange_iff_failed :
    StaysInRange 1000 30000 (tcpDelays (tcpFailed 3) 20) ∧
      StaysInRange 1000 30000 (uartDelays (uartFailed 5) 18) :=
  have h := retry_delays_inRange_iff (tcpFailed 3) (uartFailed 5) 20 (by rfl)
  have h' := retry_delays_inRange_iff (tcpFailed 3) (uartFailed 5) 18 (by rfl)
  ⟨h.1.mpr (.inr (by decide)), h'.2.mpr (.inr (by decide))⟩

/-- The shift of the 24th attempt leaves the range; compiled code passes a negative delay
that no timer takes. A connect that succeeds at once does not reset the count. -/
theorem retry_delay_negative :
    (1000 : Int32) <<< 22 = -100663296 ∧ ¬ (timerValue (-100663296)).Arms ∧
      ¬ StaysInRange 1000 30000 (tcpDelays (tcpFailed 0) 24) ∧
      ¬ StaysInRange 1000 30000 (uartDelays (uartFailed 0) 24) ∧
      let again := (tcpBeginConnect (.connected 5) true (tcpFailed 22)).2
      again.connected = true ∧ ¬ StaysInRange 1000 30000 (tcpDelays again 2) := by
  have hlong : ∀ first n, ¬ (n = 0 ∨ first + n ≤ 23) →
      ¬ StaysInRange 1000 30000 (retryDelays first n) :=
    fun first n h => mt (staysInRange_retryDelays_iff first n).mp h
  refine ⟨by decide, by decide, ?_, ?_, rfl, ?_⟩
  · rw [tcpDelays_eq rfl]
    exact hlong 0 24 (by decide)
  · rw [uartDelays_eq]
    exact hlong 0 24 (by decide)
  · rw [tcpDelays_eq rfl]
    exact hlong 22 2 (by decide)

end BoardComm
