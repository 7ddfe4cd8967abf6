import BoardComm.Runs
import BoardComm.TcpTransport

/-!
# How a TCP client comes back

A client without a connection relies on its timer. The timer is armed where the
connection is lost and where the first attempt fails; an attempt made by the
timer itself leaves nothing behind when it fails.
-/
namespace BoardComm

/-- What a client meets: an event of its descriptors, or a call of the handler
above it. -/
inductive TcpInput
  | event (answers : TcpAnswers) (fd : ℕ) (events : EpollEvents)
  | send (io : IoAnswers) (data : List UInt8)
  | recv (answer : RecvAnswer) (cap : ℕ)
  deriving DecidableEq, Repr

def tcpStep (impl : TcpImpl) : TcpInput → TcpImpl
  | .event answers fd events => tcpHandleEvent answers impl fd events
  | .send io data => (tcpSend io impl data).2
  | .recv answer cap => (tcpRecv impl answer cap).2.2

/-- A client as `tcp_client_setup` leaves it. No reactor is bound yet, so there is
no registration that could fail. -/
def tcpClient (timerFd : ℕ) (connect : ConnectAnswer) : TcpImpl :=
  tcpOpen bcTcpTransportInit (.client timerFd connect true)

namespace TcpImpl

/-- There is a connection, one is under way, or the timer will start one. -/
def Trying (impl : TcpImpl) : Prop :=
  impl.connected = true ∨ impl.connecting = true ∨
    (impl.reconnectArmed = true ∧ ∃ delay, impl.timer = some delay ∧ 0 < delay)

/-- What the role of the transport is read from. -/
def role (impl : TcpImpl) : Bool × ℤ × ℤ := (impl.isServer, impl.listenFd, impl.timerFd)

structure IsClient (impl : TcpImpl) : Prop where
  server : impl.isServer = false
  listenFd : impl.listenFd < 0
  timerFd : 0 ≤ impl.timerFd

theorem IsClient.of_role {impl impl' : TcpImpl} (h : impl.IsClient) (hr : impl'.role = impl.role) :
    impl'.IsClient := by
  obtain ⟨hserver, hlisten, htimer⟩ := h
  simp only [role, Prod.mk.injEq] at hr
  obtain ⟨hs, hl, ht⟩ := hr
  exact ⟨hs ▸ hserver, hl ▸ hlisten, ht ▸ htimer⟩

/-- The delays of the next `n` schedulings are all defined. -/
def CanSchedule (impl : TcpImpl) (n : ℕ) : Prop := impl.retryAttempt + n ≤ 23

/-- The connection is lost while the data is written. -/
def SendFails (impl : TcpImpl) (io : IoAnswers) (data : List UInt8) : Prop :=
  impl.connected = true ∧ 0 ≤ impl.connFd ∧ impl.link.stored.length ≤ impl.link.off ∧
    (impl.link.write io.writes data).1.exit = .failed

/-- The peer has closed, or the descriptor fails. -/
def RecvFails (impl : TcpImpl) (answer : RecvAnswer) (cap : ℕ) : Prop :=
  impl.connected = true ∧ 0 ≤ impl.connFd ∧
    (answer = .error ∨ ∃ data, answer = .bytes data ∧ data.take cap = [])

/-- The connection hangs up, or what is queued cannot be written to it. -/
def HangsUp (impl : TcpImpl) (answers : TcpAnswers) (events : EpollEvents) : Prop :=
  events.epollhup = true ∨ events.epollerr = true ∨
    (events.epollout = true ∧ impl.link.off < impl.link.stored.length ∧
      (tcpFlushSend answers.io impl).1 ≠ .ok)

end TcpImpl

/-- The attempt connects, or leaves a socket that is connecting. -/
def ConnectAnswer.Starts : ConnectAnswer → Prop
  | .inProgress _ => True
  | .connected _ => True
  | _ => False

/-- An attempt made by the timer starts, and what is lost can be scheduled: an
attempt that fails later is scheduled twice. -/
def TcpImpl.KeepsTrying (impl : TcpImpl) : TcpInput → Prop
  | .event answers fd events =>
    if fd = impl.timerFd ∧ events.epollin = true then
      impl.connected = false → impl.connecting = false →
        ∀ answer ∈ answers.connects.head?, answer.Starts
    else if fd = impl.connFd ∧ impl.connecting = true ∧
        (events.epollout = true ∨ events.epollin = true ∨ events.epollerr = true) then
      answers.soError = true → impl.CanSchedule 2
    else
      fd = impl.connFd → impl.connected = true → impl.HangsUp answers events → impl.CanSchedule 1
  | .send io data => impl.SendFails io data → impl.CanSchedule 1
  | .recv answer cap => impl.RecvFails answer cap → impl.CanSchedule 1

section Delay

theorem tcpReconnectDelayMs_of_lt {impl : TcpImpl} (h : impl.retryAttempt < 23) :
    ∃ delay, tcpReconnectDelayMs impl = some delay ∧ 0 < delay := by
  unfold tcpReconnectDelayMs
  by_cases hz : impl.retryAttempt > 0
  · have hpow : 2 ^ (impl.retryAttempt - 1) ≤ 2 ^ 21 :=
      Nat.pow_le_pow_right (by decide) (by omega)
    have hpos : 0 < 2 ^ (impl.retryAttempt - 1) := Nat.two_pow_pos _
    have hfits : ¬ bcTcpReconnectMsInit * 2 ^ (impl.retryAttempt - 1) > intMax := by
      simp only [bcTcpReconnectMsInit, intMax]
      omega
    simp only [if_pos hz, Nat.shiftLeft_eq, if_neg hfits]
    split_ifs with hmax
    · exact ⟨bcTcpReconnectMsMax, rfl, by decide⟩
    · exact ⟨_, rfl, by simp only [bcTcpReconnectMsInit]; omega⟩
  · rw [if_neg hz]
    exact ⟨bcTcpReconnectMsInit, rfl, by decide⟩

theorem tcpReconnectDelayMs_of_ge {impl : TcpImpl} (h : 23 ≤ impl.retryAttempt) :
    tcpReconnectDelayMs impl = none := by
  have hpow : 2 ^ 22 ≤ 2 ^ (impl.retryAttempt - 1) := Nat.pow_le_pow_right (by decide) (by omega)
  have hfits : bcTcpReconnectMsInit * 2 ^ (impl.retryAttempt - 1) > intMax := by
    simp only [bcTcpReconnectMsInit, intMax]
    omega
  unfold tcpReconnectDelayMs
  simp only [if_pos (show impl.retryAttempt > 0 by omega), Nat.shiftLeft_eq, if_pos hfits]

theorem delay_iff (impl : TcpImpl) :
    (∃ delay, tcpReconnectDelayMs impl = some delay ∧ 0 < delay) ↔ impl.CanSchedule 1 := by
  constructor
  · intro ⟨delay, hdelay, _⟩
    by_contra hretry
    rw [tcpReconnectDelayMs_of_ge (by simp only [TcpImpl.CanSchedule] at hretry; omega)] at hdelay
    cases hdelay
  · intro hretry
    exact tcpReconnectDelayMs_of_lt (by simp only [TcpImpl.CanSchedule] at hretry; omega)

end Delay

section Role

variable (impl : TcpImpl)

theorem role_scheduleReconnect : (tcpScheduleReconnect impl).role = impl.role := by
  unfold tcpScheduleReconnect tcpTimerArm
  simp only
  split_ifs <;> rfl

theorem role_dropConnection : (tcpDropConnection impl).role = impl.role := by
  unfold tcpDropConnection
  split_ifs
  · rfl
  · rfl
  · exact role_scheduleReconnect _

theorem role_beginConnect (answer : ConnectAnswer) (watch : Bool) :
    (tcpBeginConnect answer watch impl).2.role = impl.role := by
  cases answer <;> rfl

theorem role_onConnectReady (failed watch : Bool) :
    (tcpOnConnectReady failed watch impl).2.role = impl.role := by
  unfold tcpOnConnectReady
  split_ifs with hfailed
  · simp only
    split_ifs
    · exact (role_scheduleReconnect _).trans (role_dropConnection impl)
    · exact role_dropConnection impl
  · rfl

theorem role_timerLoop (watch : Bool) (answers : List ConnectAnswer) :
    (tcpTimerLoop watch answers impl).role = impl.role := by
  induction answers generalizing impl with
  | nil => rfl
  | cons answer answers ih =>
    unfold tcpTimerLoop
    split_ifs
    · rfl
    · exact (ih _).trans (role_beginConnect _ answer watch)
    · exact ih _

/-- Flushing works on the queue alone. -/
theorem flushSend_link (io : IoAnswers) :
    ∃ link, (tcpFlushSend io impl).2 = { impl with link := link } := by
  unfold tcpFlushSend
  split_ifs
  · exact ⟨impl.link, rfl⟩
  · cases impl.link.flush io.writes with
    | mk exit link => cases exit <;> exact ⟨link, rfl⟩

theorem queueSend_link (io : IoAnswers) (data : List UInt8) :
    ∃ link, (tcpQueueSend io impl data).2 = { impl with link := link } := by
  unfold tcpQueueSend
  cases impl.link.queue bcTcpSendCap io.alloc data with
  | none => exact ⟨impl.link, rfl⟩
  | some link => exact ⟨link, rfl⟩

end Role

section Scheduling

variable {impl : TcpImpl} (hclient : impl.IsClient)
include hclient

theorem scheduleReconnect_eq :
    tcpScheduleReconnect impl =
      { impl with reconnectArmed := true, retryAttempt := impl.retryAttempt + 1,
                  timer := tcpReconnectDelayMs impl } := by
  have htimer : ¬ impl.timerFd < 0 := by have := hclient.timerFd; omega
  simp only [tcpScheduleReconnect, hclient.server, Bool.false_eq_true, if_false, tcpTimerArm,
    if_neg htimer]

/-- Without a connection everything rests on the delay. -/
theorem trying_scheduleReconnect (hconnected : impl.connected = false)
    (hconnecting : impl.connecting = false) :
    (tcpScheduleReconnect impl).Trying ↔ impl.CanSchedule 1 := by
  rw [← delay_iff, scheduleReconnect_eq hclient]
  simp [TcpImpl.Trying, hconnected, hconnecting]

theorem dropConnection_eq (h : impl.connected = true ∨ impl.connecting = true) :
    tcpDropConnection impl = tcpScheduleReconnect (tcpCloseConn impl) := by
  have hidle : ¬ (impl.connected = false ∧ impl.connecting = false) := by
    rintro ⟨hconnected, hconnecting⟩
    rw [hconnected, hconnecting] at h
    simp at h
  simp only [tcpDropConnection, if_neg hidle, hclient.server, Bool.false_eq_true, if_false]

theorem trying_dropConnection (h : impl.connected = true ∨ impl.connecting = true) :
    (tcpDropConnection impl).Trying ↔ impl.CanSchedule 1 := by
  have hclosed : (tcpCloseConn impl).IsClient := hclient.of_role rfl
  rw [dropConnection_eq hclient h, trying_scheduleReconnect hclosed rfl rfl]
  rfl

/-- A connection that fails while it is set up is scheduled by the drop and again
after it. -/
theorem trying_onConnectReady (failed watch : Bool) (h : impl.connecting = true) :
    (tcpOnConnectReady failed watch impl).2.Trying ↔ (failed = true → impl.CanSchedule 2) := by
  cases failed with
  | false => simp [tcpOnConnectReady, TcpImpl.Trying, TcpImpl.established]
  | true =>
    have hdropped : (tcpDropConnection impl).IsClient :=
      hclient.of_role (role_dropConnection impl)
    have hclosed : (tcpCloseConn impl).IsClient := hclient.of_role rfl
    have heq : (tcpOnConnectReady true watch impl).2 =
        tcpScheduleReconnect (tcpDropConnection impl) := by
      simp only [tcpOnConnectReady, if_true, hdropped.server]
    have hdrop := dropConnection_eq hclient (.inr h)
    rw [scheduleReconnect_eq hclosed] at hdrop
    rw [heq, trying_scheduleReconnect hdropped (by rw [hdrop]; rfl) (by rw [hdrop]; rfl), hdrop]
    simp only [TcpImpl.CanSchedule, tcpCloseConn, tcpClearSendQueue, forall_const, Nat.add_assoc,
      Nat.reduceAdd]

end Scheduling

section Timer

variable {impl : TcpImpl}

variable (impl) in
/-- An attempt of the timer stands for itself: nothing is armed beside it. -/
theorem trying_beginConnect (answer : ConnectAnswer) (watch : Bool)
    (hconnected : impl.connected = false) (hconnecting : impl.connecting = false)
    (harmed : impl.reconnectArmed = false) :
    (tcpBeginConnect answer watch impl).2.Trying ↔ answer.Starts := by
  cases answer <;>
    simp [tcpBeginConnect, TcpImpl.Trying, ConnectAnswer.Starts, hconnected, hconnecting, harmed,
      tcpCloseConn, tcpClearSendQueue, TcpImpl.established]

theorem timerLoop_of_unarmed (watch : Bool) (answers : List ConnectAnswer)
    (h : impl.timer = none) : tcpTimerLoop watch answers impl = impl := by
  cases answers with
  | nil => rfl
  | cons answer answers => rw [tcpTimerLoop, if_pos h]

theorem timer_beginConnect (answer : ConnectAnswer) (watch : Bool) :
    (tcpBeginConnect answer watch impl).2.timer = impl.timer := by
  cases answer <;> rfl

theorem trying_timerLoop (watch : Bool) (answers : List ConnectAnswer) (htrying : impl.Trying) :
    (tcpTimerLoop watch answers impl).Trying ↔
      (impl.connected = false → impl.connecting = false →
        ∀ answer ∈ answers.head?, answer.Starts) := by
  cases answers with
  | nil => simp [tcpTimerLoop, htrying]
  | cons answer answers =>
    by_cases hidle : impl.connected = false ∧ impl.connecting = false
    · obtain ⟨hconnected, hconnecting⟩ := hidle
      obtain ⟨harmed, delay, hdelay, -⟩ : impl.reconnectArmed = true ∧ ∃ delay,
          impl.timer = some delay ∧ 0 < delay := by
        simpa [TcpImpl.Trying, hconnected, hconnecting] using htrying
      have hread : impl.timer ≠ none := by rw [hdelay]; simp
      have hattempt := trying_beginConnect { impl with timer := none, reconnectArmed := false }
        answer watch hconnected hconnecting rfl
      rw [tcpTimerLoop, if_neg hread, if_pos ⟨harmed, hconnected, hconnecting⟩,
        timerLoop_of_unarmed watch answers (timer_beginConnect answer watch), hattempt]
      simp [hconnected, hconnecting]
    · have hkept : impl.connected = true ∨ impl.connecting = true := by
        simp only [not_and_or, Bool.not_eq_false] at hidle
        exact hidle
      have hloop : (tcpTimerLoop watch (answer :: answers) impl).Trying := by
        unfold tcpTimerLoop
        split_ifs with hread harm
        · exact htrying
        · exact absurd harm.2 hidle
        · rw [timerLoop_of_unarmed watch answers rfl]
          exact hkept.imp id .inl
      refine iff_of_true hloop fun hconnected hconnecting => ?_
      exact absurd ⟨hconnected, hconnecting⟩ hidle

end Timer

section Steps

variable {impl : TcpImpl}

theorem sendFails_iff (io : IoAnswers) (data : List UInt8) (hclient : impl.IsClient)
    (htrying : impl.Trying) :
    (tcpSend io impl data).2.Trying ↔ (impl.SendFails io data → impl.CanSchedule 1) := by
  have hqueue : ∀ (link : SendQueue.Link) (rest : List UInt8),
      (tcpQueueSend io { impl with link := link } rest).2.Trying := by
    intro link rest
    obtain ⟨link', hlink'⟩ := queueSend_link { impl with link := link } io rest
    rw [hlink']
    exact htrying
  unfold tcpSend
  split_ifs with hclosed hpending
  · refine iff_of_true htrying fun hfails => ?_
    obtain ⟨hconnected, hfd, -⟩ := hfails
    rcases hclosed with h | h
    · rw [hconnected] at h
      cases h
    · omega
  · refine iff_of_true (hqueue impl.link data) fun hfails => ?_
    exact absurd hfails.2.2.1 (by omega)
  · have hopen : impl.connected = true ∧ 0 ≤ impl.connFd := by
      simpa only [not_or, Bool.not_eq_false, Int.not_lt] using hclosed
    cases hw : impl.link.write io.writes data with
    | mk r link =>
      have hfails : impl.SendFails io data ↔ r.exit = .failed := by
        simp [TcpImpl.SendFails, hopen, hw, Nat.not_lt.mp hpending]
      rw [hfails]
      cases hexit : r.exit with
      | done =>
        have hwritten : ({ impl with link := link } : TcpImpl).Trying := htrying
        exact iff_of_true (by simpa only [hexit] using hwritten) fun h => by cases h
      | blocked =>
        exact iff_of_true (by simpa only [hexit] using hqueue link r.rest) fun h => by cases h
      | failed =>
        have hwritten : ({ impl with link := link } : TcpImpl).IsClient := hclient.of_role rfl
        have hdrop : (tcpDropConnection { impl with link := link }).Trying ↔ impl.CanSchedule 1 :=
          trying_dropConnection hwritten (.inl hopen.1)
        rw [forall_prop_of_true rfl]
        simpa only [hexit] using hdrop

theorem recvFails_iff (answer : RecvAnswer) (cap : ℕ) (hclient : impl.IsClient)
    (htrying : impl.Trying) :
    (tcpRecv impl answer cap).2.2.Trying ↔ (impl.RecvFails answer cap → impl.CanSchedule 1) := by
  unfold tcpRecv
  split_ifs with hclosed
  · refine iff_of_true htrying fun hfails => ?_
    obtain ⟨hconnected, hfd, -⟩ := hfails
    rcases hclosed with h | h
    · rw [hconnected] at h
      cases h
    · omega
  · have hopen : impl.connected = true ∧ 0 ≤ impl.connFd := by
      simpa only [not_or, Bool.not_eq_false, Int.not_lt] using hclosed
    have hdrop := trying_dropConnection hclient (.inl hopen.1)
    cases answer with
    | bytes data =>
      have hfails : impl.RecvFails (.bytes data) cap ↔ data.take cap = [] := by
        simp [TcpImpl.RecvFails, hopen]
      rw [hfails]
      by_cases hdata : data.take cap = []
      · rw [forall_prop_of_true hdata]
        simpa only [hdata, List.length_nil, gt_iff_lt, lt_irrefl, if_false] using hdrop
      · have hpos : (data.take cap).length > 0 := List.length_pos_of_ne_nil hdata
        simp only [if_pos hpos]
        exact iff_of_true htrying fun h => absurd h hdata
    | eintr => simpa [TcpImpl.RecvFails] using htrying
    | again => simpa [TcpImpl.RecvFails] using htrying
    | error => simpa [TcpImpl.RecvFails, hopen] using hdrop

/-- What the event branches after the timer and the connecting socket do. -/
theorem hangsUp_iff (answers : TcpAnswers) (events : EpollEvents) (hclient : impl.IsClient)
    (hconnected : impl.connected = true) :
    (if events.epollhup = true ∨ events.epollerr = true then tcpDropConnection impl
      else if events.epollout = true ∧ impl.link.off < impl.link.stored.length then
        match tcpFlushSend answers.io impl with
        | (.ok, impl') => impl'
        | (_, impl') => tcpDropConnection impl'
      else impl).Trying ↔ (impl.HangsUp answers events → impl.CanSchedule 1) := by
  have hdrop := trying_dropConnection hclient (.inl hconnected)
  split_ifs with hhup hpending
  · have hup : impl.HangsUp answers events := by
      rcases hhup with h | h
      · exact .inl h
      · exact .inr (.inl h)
    rw [hdrop, forall_prop_of_true hup]
  · obtain ⟨link, hlink⟩ := flushSend_link impl answers.io
    have hup : impl.HangsUp answers events ↔ (tcpFlushSend answers.io impl).1 ≠ .ok := by
      simp only [not_or] at hhup
      simp [TcpImpl.HangsUp, hhup, hpending]
    rw [hup]
    cases hflush : tcpFlushSend answers.io impl with
    | mk rc impl' =>
      rw [hflush] at hlink
      simp only at hlink
      have hflushed : impl'.IsClient := hclient.of_role (by rw [hlink]; rfl)
      have hkept : impl'.connected = true := by rw [hlink]; exact hconnected
      have hsame : impl'.CanSchedule 1 ↔ impl.CanSchedule 1 := by rw [hlink]; rfl
      have hlost := (trying_dropConnection hflushed (.inl hkept)).trans hsame
      cases rc
      case ok => exact iff_of_true (.inl hkept) fun h => absurd rfl h
      all_goals simpa using hlost
  · refine iff_of_true (.inl hconnected) fun hup => ?_
    rcases hup with h | h | ⟨hout, hoff, -⟩
    · exact absurd (.inl h) hhup
    · exact absurd (.inr h) hhup
    · exact absurd ⟨hout, hoff⟩ hpending

theorem role_tcpStep (impl : TcpImpl) (input : TcpInput) (hclient : impl.IsClient) :
    (tcpStep impl input).role = impl.role := by
  cases input with
  | send io data =>
    have hrole : ∀ (link : SendQueue.Link) (rest : List UInt8),
        (tcpQueueSend io { impl with link := link } rest).2.role = impl.role := by
      intro link rest
      obtain ⟨link', hlink'⟩ := queueSend_link { impl with link := link } io rest
      rw [hlink']
      rfl
    simp only [tcpStep, tcpSend]
    split_ifs
    · rfl
    · exact hrole impl.link data
    · cases impl.link.write io.writes data with
      | mk r link =>
        simp only
        cases r.exit
        · rfl
        · exact hrole link r.rest
        · exact role_dropConnection { impl with link := link }
  | recv answer cap =>
    simp only [tcpStep, tcpRecv]
    split_ifs
    · rfl
    · cases answer with
      | bytes data =>
        simp only
        split_ifs
        · rfl
        · exact role_dropConnection impl
      | eintr => rfl
      | again => rfl
      | error => exact role_dropConnection impl
  | event answers fd events =>
    have hlisten : (fd : ℤ) ≠ impl.listenFd := by have := hclient.listenFd; omega
    simp only [tcpStep, tcpHandleEvent, hlisten, false_and, if_false]
    split_ifs
    · exact role_timerLoop impl _ _
    · exact role_onConnectReady impl _ _
    · exact role_dropConnection impl
    · obtain ⟨link, hlink⟩ := flushSend_link impl answers.io
      cases hflush : tcpFlushSend answers.io impl with
      | mk rc impl' =>
        rw [hflush] at hlink
        simp only at hlink
        have hrole : impl'.role = impl.role := by rw [hlink]; rfl
        cases rc
        case ok => exact hrole
        all_goals exact (role_dropConnection impl').trans hrole
    · rfl
    · rfl

/-- One step: the client goes on trying exactly if the input lets it. -/
theorem trying_tcpStep_iff (input : TcpInput) (hclient : impl.IsClient) (htrying : impl.Trying) :
    (tcpStep impl input).Trying ↔ impl.KeepsTrying input := by
  cases input with
  | send io data => exact sendFails_iff io data hclient htrying
  | recv answer cap => exact recvFails_iff answer cap hclient htrying
  | event answers fd events =>
    have hlisten : (fd : ℤ) ≠ impl.listenFd := by have := hclient.listenFd; omega
    simp only [tcpStep, tcpHandleEvent, TcpImpl.KeepsTrying, hlisten, false_and, if_false]
    by_cases htimer : (fd : ℤ) = impl.timerFd ∧ events.epollin = true
    · rw [if_pos htimer, if_pos htimer]
      exact trying_timerLoop _ _ htrying
    by_cases hready : (fd : ℤ) = impl.connFd ∧ impl.connecting = true ∧
        (events.epollout = true ∨ events.epollin = true ∨ events.epollerr = true)
    · rw [if_neg htimer, if_pos hready, if_neg htimer, if_pos hready]
      exact trying_onConnectReady hclient _ _ hready.2.1
    rw [if_neg htimer, if_neg hready, if_neg htimer, if_neg hready]
    by_cases hopen : (fd : ℤ) = impl.connFd ∧ impl.connected = true
    · rw [if_pos hopen, forall_prop_of_true hopen.1, forall_prop_of_true hopen.2]
      exact hangsUp_iff answers events hclient hopen.2
    · rw [if_neg hopen]
      exact iff_of_true htrying fun hfd hconnected => absurd ⟨hfd, hconnected⟩ hopen

end Steps

/-- Every outcome of the first attempt leaves the client with something to wait
for. -/
theorem tcpClient_trying (timerFd : ℕ) (connect : ConnectAnswer) :
    (tcpClient timerFd connect).IsClient ∧ (tcpClient timerFd connect).Trying := by
  have htimer : ¬ (timerFd : ℤ) < 0 := by omega
  cases connect <;>
    refine ⟨⟨?_, ?_, ?_⟩, ?_⟩ <;>
    simp [tcpClient, tcpOpen, tcpBeginConnect, tcpScheduleReconnect, tcpTimerArm, htimer,
      tcpReconnectDelayMs, bcTcpTransportInit, tcpCloseConn, tcpClearSendQueue, watchStatus,
      TcpImpl.established, TcpImpl.Trying]

/-- A run of the client never ends in a state where nothing is left to happen,
exactly when the attempts of the timer start and the delays stay defined. -/
theorem tcp_client_keeps_trying_iff (timerFd : ℕ) (connect : ConnectAnswer)
    (inputs : List TcpInput) :
    Runs.Along tcpStep TcpImpl.Trying (tcpClient timerFd connect) inputs ↔
      Runs.Meets tcpStep TcpImpl.KeepsTrying (tcpClient timerFd connect) inputs := by
  refine Runs.along_iff_meets tcpStep (I := fun impl => impl.IsClient ∧ impl.Trying)
    (A := fun _ => True) (fun _ h => h.2) ?_ ?_ (tcpClient_trying timerFd connect)
    fun _ _ => trivial
  · rintro impl input ⟨hclient, htrying⟩ - hkeeps
    exact ⟨hclient.of_role (role_tcpStep impl input hclient),
      (trying_tcpStep_iff input hclient htrying).mpr hkeeps⟩
  · rintro impl input ⟨hclient, htrying⟩ - hkeeps
    exact fun h => hkeeps ((trying_tcpStep_iff input hclient htrying).mp h)

/-- The timer of a client expires, and its attempt is refused at once. -/
def timerRefused : TcpInput :=
  .event ⟨[.refused], [], false, ⟨[], false, false, true⟩⟩ 3 ⟨true, false, false, false⟩

/-- The first attempt is refused and the timer is armed; its own attempt is
refused and nothing is armed any more. -/
theorem refused_attempt_wedges :
    ¬ Runs.Along tcpStep TcpImpl.Trying (tcpClient 3 .refused) [timerRefused] := by
  intro h
  have hlast := h [timerRefused] List.prefix_rfl
  have hwedged : Runs.run tcpStep (tcpClient 3 .refused) [timerRefused] =
      ⟨-1, -1, 3, false, false, false, false, 1, none, ⟨false, [], 0, [], []⟩, []⟩ := by
    decide
  rw [hwedged] at hlast
  simp [TcpImpl.Trying] at hlast

end BoardComm
