import BoardComm.TcpTransport
import BoardComm.UartTransport

/-!
# The send queues of TCP and UART

Both transports queue through the same buffer discipline, with different
capacities and different uses of the reactor. A run of sends and flushes on one
live link keeps the queue correct exactly as long as every frame that is queued
also fits behind the bytes already stored.
-/
namespace BoardComm

open SendQueue (Link Live writeAll)
open SendQueue.Link (Good Inv Room Queues SendReply)

/-- An empty link is in order. -/
theorem inv_start (cap : ℕ) {l : Link} (hstored : l.stored = []) (hoff : l.off = 0)
    (hwritten : l.written = []) (hcopies : l.copies = []) : Inv cap [] l := by
  refine ⟨⟨?_, ?_, ?_, ?_⟩, fun _ => hstored, fun hlt => ?_⟩
  · rw [hoff]
    exact Nat.zero_le _
  · rw [hstored]
    exact Nat.zero_le _
  · rw [hcopies]
    intro c hc
    cases hc
  · rw [Link.pending, hstored, hwritten, List.drop_nil, List.append_nil]
  · rw [hstored] at hlt
    simp at hlt

section Tcp

/-- `tcp_send` on a live connection, in terms of the queue. -/
theorem tcpSend_live {impl : TcpImpl} (hconn : impl.connected = true) (hfd : 0 ≤ impl.connFd)
    (io : IoAnswers) (hlive : Live io.writes) (frame : List UInt8) :
    tcpSend io impl frame =
      let r := impl.link.send bcTcpSendCap io.alloc io.writes frame
      (if r.1 = .refused then .nomem else .ok, { impl with link := r.2 }) := by
  have hguard : ¬ (impl.connected = false ∨ impl.connFd < 0) := by
    simp only [hconn, Bool.true_eq_false, false_or]
    omega
  have hqueue : ∀ (impl : TcpImpl) (data : List UInt8), tcpQueueSend io impl data =
      let r := Link.queueReply bcTcpSendCap io.alloc impl.link data
      (if r.1 = .refused then .nomem else .ok, { impl with link := r.2 }) := by
    intro impl data
    unfold tcpQueueSend Link.queueReply
    cases Link.queue bcTcpSendCap io.alloc impl.link data <;> rfl
  rw [tcpSend, if_neg hguard]
  by_cases hlt : impl.link.off < impl.link.stored.length
  · rw [if_pos hlt, hqueue, Link.send, if_pos hlt]
  · rw [if_neg hlt, Link.send_empty hlt]
    simp only [Link.write]
    cases hexit : (writeAll io.writes frame).exit with
    | failed => exact absurd hexit (SendQueue.writeAll_not_failed hlive frame)
    | done => rfl
    | blocked => exact hqueue _ _

/-- `tcp_flush_send` on a live connection. -/
theorem tcpFlushSend_live {impl : TcpImpl} (hconn : impl.connected = true)
    (hfd : 0 ≤ impl.connFd) (io : IoAnswers) :
    (tcpFlushSend io impl).2 = { impl with link := (impl.link.flush io.writes).2 } := by
  have hguard : ¬ (impl.connected = false ∨ impl.connFd < 0) := by
    simp only [hconn, Bool.true_eq_false, false_or]
    omega
  rw [tcpFlushSend, if_neg hguard]
  cases impl.link.flush io.writes with
  | mk exit link => cases exit <;> rfl

/-- One call on a TCP transport. -/
abbrev tcpCall : SendRun TcpImpl → SendCall → SendRun TcpImpl :=
  SendRun.call tcpSend tcpFlushSend

/-- A call that finds room in the queue. -/
def TcpRoom (r : SendRun TcpImpl) : SendCall → Prop
  | .send frame io => Room bcTcpSendCap io.alloc io.writes r.transport.link frame
  | .flush _ => True

/-- The connection is alive and its queue correct. -/
structure TcpQueueInv (r : SendRun TcpImpl) : Prop where
  connected : r.transport.connected = true
  connFd : 0 ≤ r.transport.connFd
  queue : Inv bcTcpSendCap r.accepted.flatten r.transport.link

theorem TcpQueueInv.call {r : SendRun TcpImpl} {c : SendCall} (h : TcpQueueInv r) (hc : c.Ok)
    (hroom : TcpRoom r c) : TcpQueueInv (tcpCall r c) := by
  cases c with
  | flush io =>
    refine ⟨?_, ?_, ?_⟩ <;> simp only [tcpCall, SendRun.call, tcpFlushSend_live h.connected h.connFd]
    · exact h.connected
    · exact h.connFd
    · exact h.queue.flush io.writes
  | send frame io =>
    obtain ⟨hpos, hle, hlive⟩ := hc
    have hne : frame ≠ [] := List.length_pos_iff.mp hpos
    have hfit : frame.length ≤ bcTcpSendCap := hle.trans (by decide)
    refine ⟨?_, ?_, ?_⟩ <;>
      simp only [tcpCall, SendRun.call, tcpSend_live h.connected h.connFd io hlive]
    · exact h.connected
    · exact h.connFd
    · rcases h.queue.send hne hfit hlive hroom with ⟨hreply, hinv⟩ | ⟨hreply, hinv⟩
      · rw [if_pos hreply]
        exact hinv
      · have hnot : (r.transport.link.send bcTcpSendCap io.alloc io.writes frame).1 ≠ .refused := by
          rcases hreply with he | he <;> simp [he]
        rw [if_neg hnot, if_pos rfl, List.flatten_append, List.flatten_singleton]
        exact hinv

theorem TcpQueueInv.lost {r : SendRun TcpImpl} {c : SendCall} (h : TcpQueueInv r) (hc : c.Ok)
    (hroom : ¬ TcpRoom r c) :
    ¬ Good bcTcpSendCap (tcpCall r c).accepted.flatten (tcpCall r c).transport.link := by
  cases c with
  | flush io => exact absurd trivial hroom
  | send frame io =>
    obtain ⟨hpos, hle, hlive⟩ := hc
    have hfit : frame.length ≤ bcTcpSendCap := hle.trans (by decide)
    simp only [tcpCall, SendRun.call, tcpSend_live h.connected h.connFd io hlive]
    rcases h.queue.not_good_send hfit hroom with ⟨-, hbad⟩ | ⟨hreply, hbad⟩
    · exact hbad _
    · rw [if_pos hreply]
      exact hbad

end Tcp

section Uart

/-- The direction pin of an RS-485 adapter cannot be set for a direct write. -/
def DirectionStuck (impl : UartImpl) (io : IoAnswers) : Prop :=
  ¬ impl.link.off < impl.link.stored.length ∧ (uartRs485TxEnable io.gpio impl).1 ≠ .ok

instance (impl : UartImpl) (io : IoAnswers) : Decidable (DirectionStuck impl io) :=
  inferInstanceAs (Decidable (_ ∧ _))

/-- What `uart_send` returns for each reply of the queue. -/
def uartSendStatus (io : IoAnswers) : SendReply → BcStatus
  | .sent => .ok
  | .queued => watchStatus io.watch
  | .refused => .nomem
  | .failed => .io

/-- The parts of a transport that stay while its device is open. -/
structure SameDevice (impl impl' : UartImpl) : Prop where
  opened : impl'.opened = impl.opened
  fd : impl'.fd = impl.fd

theorem uartRs485TxEnable_same (gpio : Bool) (impl : UartImpl) :
    SameDevice impl (uartRs485TxEnable gpio impl).2 ∧
      (uartRs485TxEnable gpio impl).2.link = impl.link := by
  unfold uartRs485TxEnable
  split_ifs <;> exact ⟨⟨rfl, rfl⟩, rfl⟩

theorem uartRs485TxEnable_failed {gpio : Bool} {impl : UartImpl}
    (h : (uartRs485TxEnable gpio impl).1 ≠ .ok) : gpio = false := by
  unfold uartRs485TxEnable at h
  split_ifs at h with hmode hgpio
  · exact absurd rfl h
  · exact hgpio
  · exact absurd rfl h

theorem uartRs485TxDisable_same (impl : UartImpl) :
    SameDevice impl (uartRs485TxDisable impl) ∧ (uartRs485TxDisable impl).link = impl.link := by
  unfold uartRs485TxDisable
  split_ifs <;> exact ⟨⟨rfl, rfl⟩, rfl⟩

theorem uartQueueSend_opened {impl : UartImpl} (hopen : impl.opened = true) (io : IoAnswers)
    (data : List UInt8) :
    uartQueueSend io impl data =
      let r := Link.queueReply bcUartSendCap io.alloc impl.link data
      (uartSendStatus io r.1, { impl with link := r.2 }) := by
  unfold uartQueueSend Link.queueReply
  rw [if_neg (by simp [hopen])]
  cases Link.queue bcUartSendCap io.alloc impl.link data <;> rfl

variable {impl : UartImpl}

/-- `uart_send` on an open device, in terms of the queue. -/
theorem uartSend_open (hopen : impl.opened = true) (hfd : 0 ≤ impl.fd) (io : IoAnswers)
    (hlive : Live io.writes) (frame : List UInt8) (hstuck : ¬ DirectionStuck impl io) :
    let r := impl.link.send bcUartSendCap io.alloc io.writes frame
    (uartSend io impl frame).1 = uartSendStatus io r.1 ∧
      (uartSend io impl frame).2.link = r.2 ∧ SameDevice impl (uartSend io impl frame).2 := by
  have hguard : ¬ (impl.opened = false ∨ impl.fd < 0) := by
    simp only [hopen, Bool.true_eq_false, false_or]
    omega
  rw [uartSend, if_neg hguard]
  by_cases hlt : impl.link.off < impl.link.stored.length
  · rw [if_pos hlt, uartQueueSend_opened hopen, Link.send, if_pos hlt]
    exact ⟨rfl, rfl, rfl, rfl⟩
  · rw [if_neg hlt, Link.send_empty hlt]
    have henable : (uartRs485TxEnable io.gpio impl).1 = .ok := by
      by_contra he
      exact hstuck ⟨hlt, he⟩
    obtain ⟨hsame, hlink⟩ := uartRs485TxEnable_same io.gpio impl
    cases hen : uartRs485TxEnable io.gpio impl with
    | mk rc impl' =>
      rw [hen] at henable hsame hlink
      simp only at henable hsame hlink
      subst henable
      simp only [Link.write, hlink]
      cases hexit : (writeAll io.writes frame).exit with
      | failed => exact absurd hexit (SendQueue.writeAll_not_failed hlive frame)
      | done =>
        obtain ⟨hsame', hlink'⟩ := uartRs485TxDisable_same { impl' with
          link := { impl.link with
            written := impl.link.written ++ (writeAll io.writes frame).written } }
        exact ⟨rfl, hlink', hsame'.opened.trans hsame.opened, hsame'.fd.trans hsame.fd⟩
      | blocked =>
        simp only
        rw [uartQueueSend_opened]
        · exact ⟨rfl, rfl, hsame.opened, hsame.fd⟩
        · exact hsame.opened.trans hopen

theorem uartSend_stuck (io : IoAnswers) (frame : List UInt8) (hstuck : DirectionStuck impl io) :
    (uartSend io impl frame).1 = .io ∧ (uartSend io impl frame).2.link = impl.link ∧
      SameDevice impl (uartSend io impl frame).2 := by
  obtain ⟨hlt, hen⟩ := hstuck
  obtain ⟨hsame, hlink⟩ := uartRs485TxEnable_same io.gpio impl
  unfold uartSend
  split_ifs with hguard
  · exact ⟨rfl, rfl, rfl, rfl⟩
  · cases henable : uartRs485TxEnable io.gpio impl with
    | mk rc impl' =>
      rw [henable] at hen hsame hlink
      cases rc
      · exact absurd rfl hen
      all_goals exact ⟨rfl, hlink, hsame⟩

/-- `uart_flush_send` on an open device either writes what waits or, when the
direction pin cannot be set, nothing. -/
theorem uartFlushSend_open (hopen : impl.opened = true) (hfd : 0 ≤ impl.fd) (io : IoAnswers)
    (hlive : Live io.writes) :
    ((io.gpio = false ∧ (uartFlushSend io impl).2.link = impl.link) ∨
        (uartFlushSend io impl).2.link = (impl.link.flush io.writes).2) ∧
      SameDevice impl (uartFlushSend io impl).2 := by
  have hguard : ¬ (impl.opened = false ∨ impl.fd < 0) := by
    simp only [hopen, Bool.true_eq_false, false_or]
    omega
  obtain ⟨hsame, hlink⟩ := uartRs485TxEnable_same io.gpio impl
  -- The part before the writes leaves the queue alone.
  have henable : ∀ e, e = (if impl.link.off < impl.link.stored.length then
      uartRs485TxEnable io.gpio impl else (.ok, impl)) →
      SameDevice impl e.2 ∧ e.2.link = impl.link ∧ (e.1 ≠ .ok → io.gpio = false) := by
    intro e he
    subst he
    split_ifs
    · exact ⟨hsame, hlink, uartRs485TxEnable_failed⟩
    · exact ⟨⟨rfl, rfl⟩, rfl, fun h => absurd rfl h⟩
  rw [uartFlushSend, if_neg hguard]
  cases he : (if impl.link.off < impl.link.stored.length then uartRs485TxEnable io.gpio impl
      else (BcStatus.ok, impl)) with
  | mk rc impl' =>
    obtain ⟨hdev, hl, hgpio⟩ := henable _ he.symm
    simp only at hdev hl hgpio ⊢
    split_ifs with hrc
    · exact ⟨.inl ⟨hgpio hrc, hl⟩, hdev⟩
    · rw [hl]
      cases hflush : impl.link.flush io.writes with
      | mk exit link =>
        cases exit with
        | failed =>
          have hexit : (impl.link.flush io.writes).1 = .failed := by rw [hflush]
          exact absurd hexit (SendQueue.writeAll_not_failed hlive impl.link.pending)
        | done =>
          obtain ⟨hdev', hl'⟩ := uartRs485TxDisable_same { impl' with link := link }
          exact ⟨.inr hl', hdev'.opened.trans hdev.opened, hdev'.fd.trans hdev.fd⟩
        | blocked => exact ⟨.inr rfl, hdev.opened, hdev.fd⟩

/-- One call on a UART transport. -/
abbrev uartCall : SendRun UartImpl → SendCall → SendRun UartImpl :=
  SendRun.call uartSend uartFlushSend

/-- A call that finds room in the queue, and a reactor that registers the
descriptor when something is queued. -/
def UartRoom (r : SendRun UartImpl) : SendCall → Prop
  | .send frame io => DirectionStuck r.transport io ∨
      (Room bcUartSendCap io.alloc io.writes r.transport.link frame ∧
        (Queues bcUartSendCap io.alloc io.writes r.transport.link frame → io.watch = true))
  | .flush _ => True

/-- The device is open and its queue correct. -/
structure UartQueueInv (r : SendRun UartImpl) : Prop where
  opened : r.transport.opened = true
  fd : 0 ≤ r.transport.fd
  queue : Inv bcUartSendCap r.accepted.flatten r.transport.link

theorem UartQueueInv.call {r : SendRun UartImpl} {c : SendCall} (h : UartQueueInv r) (hc : c.Ok)
    (hroom : UartRoom r c) : UartQueueInv (uartCall r c) := by
  cases c with
  | flush io =>
    obtain ⟨hlink, hdev⟩ := uartFlushSend_open h.opened h.fd io hc
    refine ⟨hdev.opened.trans h.opened, hdev.fd ▸ h.fd, ?_⟩
    show Inv bcUartSendCap r.accepted.flatten (uartFlushSend io r.transport).2.link
    rcases hlink with ⟨-, hl⟩ | hl
    · rw [hl]
      exact h.queue
    · rw [hl]
      exact h.queue.flush io.writes
  | send frame io =>
    obtain ⟨hpos, hle, hlive⟩ := hc
    have hne : frame ≠ [] := List.length_pos_iff.mp hpos
    have hfit : frame.length ≤ bcUartSendCap := hle.trans (by decide)
    by_cases hstuck : DirectionStuck r.transport io
    · obtain ⟨hrc, hl, hdev⟩ := uartSend_stuck io frame hstuck
      refine ⟨hdev.opened.trans h.opened, hdev.fd ▸ h.fd, ?_⟩
      simp only [uartCall, SendRun.call, hrc, hl, reduceCtorEq, if_false]
      exact h.queue
    · obtain ⟨hroom, hwatch⟩ := hroom.resolve_left hstuck
      obtain ⟨hrc, hl, hdev⟩ := uartSend_open h.opened h.fd io hlive frame hstuck
      refine ⟨hdev.opened.trans h.opened, hdev.fd ▸ h.fd, ?_⟩
      simp only [uartCall, SendRun.call, hrc, hl]
      rcases h.queue.send hne hfit hlive hroom with ⟨hreply, hinv⟩ | ⟨hreply, hinv⟩
      · rw [hreply, uartSendStatus, if_neg (by decide)]
        exact hinv
      · have hok : uartSendStatus io
            (r.transport.link.send bcUartSendCap io.alloc io.writes frame).1 = .ok := by
          rcases hreply with hsent | hqueued
          · rw [hsent, uartSendStatus]
          · have hq := (Link.send_queued_iff h.queue hfit).mp hqueued
            rw [hqueued, uartSendStatus, watchStatus, if_pos (hwatch hq)]
        rw [if_pos hok, List.flatten_append, List.flatten_singleton]
        exact hinv

theorem UartQueueInv.lost {r : SendRun UartImpl} {c : SendCall} (h : UartQueueInv r) (hc : c.Ok)
    (hroom : ¬ UartRoom r c) :
    ¬ Good bcUartSendCap (uartCall r c).accepted.flatten (uartCall r c).transport.link := by
  cases c with
  | flush io => exact absurd trivial hroom
  | send frame io =>
    obtain ⟨hpos, hle, hlive⟩ := hc
    have hne : frame ≠ [] := List.length_pos_iff.mp hpos
    have hfit : frame.length ≤ bcUartSendCap := hle.trans (by decide)
    have hstuck : ¬ DirectionStuck r.transport io := fun hs => hroom (.inl hs)
    obtain ⟨hrc, hl, -⟩ := uartSend_open h.opened h.fd io hlive frame hstuck
    simp only [uartCall, SendRun.call, hrc, hl]
    by_cases hfound : Room bcUartSendCap io.alloc io.writes r.transport.link frame
    · -- The frame is queued, but the caller is told that it failed.
      have hmiss : ¬ (Queues bcUartSendCap io.alloc io.writes r.transport.link frame →
          io.watch = true) := fun hw => hroom (.inr ⟨hfound, hw⟩)
      push Not at hmiss
      have hqueued := (Link.send_queued_iff h.queue hfit).mpr hmiss.1
      rcases h.queue.send hne hfit hlive hfound with ⟨hreply, -⟩ | ⟨-, hinv⟩
      · rw [hqueued] at hreply
        cases hreply
      · intro hgood
        rw [hqueued, uartSendStatus, watchStatus, if_neg hmiss.2, if_neg (by decide)] at hgood
        have hsame := hinv.stream
        rw [hgood.stream] at hsame
        exact hne (List.self_eq_append_right.mp hsame)
    · rcases h.queue.not_good_send hfit hfound with ⟨-, hbad⟩ | ⟨hreply, hbad⟩
      · exact hbad _
      · rw [hreply, uartSendStatus, if_neg (by decide)]
        exact hbad

end Uart

/-- A connection on which nothing has been sent. -/
def TcpFresh (impl : TcpImpl) : Prop :=
  impl.connected = true ∧ 0 ≤ impl.connFd ∧ impl.link.stored = [] ∧ impl.link.off = 0 ∧
    impl.link.written = [] ∧ impl.link.copies = []

/-- A device on which nothing has been sent. -/
def UartFresh (impl : UartImpl) : Prop :=
  impl.opened = true ∧ 0 ≤ impl.fd ∧ impl.link.stored = [] ∧ impl.link.off = 0 ∧
    impl.link.written = [] ∧ impl.link.copies = []

/-- The queue stays correct after every call exactly when every call finds room. -/
theorem send_queue_good_iff_room (tcp : TcpImpl) (tcpCalls : List SendCall) (uart : UartImpl)
    (uartCalls : List SendCall) (htcp : TcpFresh tcp) (htcpCalls : ∀ c ∈ tcpCalls, c.Ok)
    (huart : UartFresh uart) (huartCalls : ∀ c ∈ uartCalls, c.Ok) :
    (Runs.Along tcpCall (fun r => Good bcTcpSendCap r.accepted.flatten r.transport.link)
        ⟨tcp, []⟩ tcpCalls ↔ Runs.Meets tcpCall TcpRoom ⟨tcp, []⟩ tcpCalls) ∧
    (Runs.Along uartCall (fun r => Good bcUartSendCap r.accepted.flatten r.transport.link)
        ⟨uart, []⟩ uartCalls ↔ Runs.Meets uartCall UartRoom ⟨uart, []⟩ uartCalls) := by
  constructor
  · obtain ⟨hconn, hfd, hstored, hoff, hwritten, hcopies⟩ := htcp
    have hstart : TcpQueueInv ⟨tcp, []⟩ :=
      ⟨hconn, hfd, inv_start bcTcpSendCap hstored hoff hwritten hcopies⟩
    exact Runs.along_iff_meets tcpCall (fun _ h => h.queue.toGood) (fun _ _ h hc hr => h.call hc hr)
      (fun _ _ h hc hr => h.lost hc hr) hstart htcpCalls
  · obtain ⟨hopen, hfd, hstored, hoff, hwritten, hcopies⟩ := huart
    have hstart : UartQueueInv ⟨uart, []⟩ :=
      ⟨hopen, hfd, inv_start bcUartSendCap hstored hoff hwritten hcopies⟩
    exact Runs.along_iff_meets uartCall (fun _ h => h.queue.toGood)
      (fun _ _ h hc hr => h.call hc hr) (fun _ _ h hc hr => h.lost hc hr) hstart huartCalls

/-- A connection, and a device, on which nothing has been sent. -/
def tcpIdle : TcpImpl :=
  ⟨-1, 5, 4, false, true, false, false, 0, none, ⟨false, [], 0, [], []⟩, [[]]⟩

def uartIdle : UartImpl := ⟨5, .rs232, false, false, 0, true, ⟨false, [], 0, [], []⟩⟩

theorem tcpFresh_idle : TcpFresh tcpIdle := ⟨rfl, by decide, rfl, rfl, rfl, rfl⟩

theorem uartFresh_idle : UartFresh uartIdle := ⟨rfl, by decide, rfl, rfl, rfl, rfl⟩

/-- A link that accepts nothing. -/
def ioBlocked : IoAnswers := ⟨[.eagain], true, true, true⟩

/-- A link that accepts one byte. -/
def ioOneByte : IoAnswers := ⟨[.wrote 1, .eagain], true, true, true⟩

/-- A frame that is queued, one byte of it written, and a second frame behind the rest. -/
def partCalls : List SendCall :=
  [.send [1, 2, 3] ioBlocked, .flush ioOneByte, .send [4, 5] ioBlocked]

theorem send_queue_good_iff_room_part :
    Runs.Along tcpCall (fun r => Good bcTcpSendCap r.accepted.flatten r.transport.link)
        ⟨tcpIdle, []⟩ partCalls ∧
      Runs.Along uartCall (fun r => Good bcUartSendCap r.accepted.flatten r.transport.link)
        ⟨uartIdle, []⟩ partCalls := by
  obtain ⟨htcp, huart⟩ := send_queue_good_iff_room tcpIdle partCalls uartIdle partCalls
    tcpFresh_idle (by decide) uartFresh_idle (by decide)
  refine ⟨htcp.mpr ?_, huart.mpr ?_⟩
  · simp only [partCalls, Runs.meets_cons, TcpRoom, Room]
    refine ⟨?_, trivial, ?_, Runs.meets_nil _⟩
    · rw [if_neg (by decide)]
      exact fun _ _ => .inr rfl
    · -- two bytes wait behind the one that was written
      rw [if_pos (by decide +kernel)]
      exact fun _ => by decide +kernel
  · simp only [partCalls, Runs.meets_cons, UartRoom, Room]
    refine ⟨.inr ⟨?_, fun _ => rfl⟩, trivial, .inr ⟨?_, fun _ => rfl⟩, Runs.meets_nil _⟩
    · rw [if_neg (by decide)]
      exact fun _ _ => .inr rfl
    · rw [if_pos (by decide +kernel)]
      exact fun _ => by decide +kernel

/-- A frame of the largest length. -/
def longFrame : List UInt8 := List.replicate bcMaxFrameLen 0

theorem longFrame_length : longFrame.length = bcMaxFrameLen := List.length_replicate

/-- A link that accepts one frame of that length. -/
def ioOneFrame : IoAnswers := ⟨[.wrote bcMaxFrameLen, .eagain], true, true, true⟩

/-- The calls that follow the filling of a queue. -/
def overrunEnd : List SendCall := [.flush ioOneFrame, .send longFrame ioBlocked]

/-- Fill a queue of `n` frames, write one of them, and queue one more. -/
def overrunCalls (n : ℕ) : List SendCall :=
  List.replicate n (.send longFrame ioBlocked) ++ overrunEnd

theorem overrunCalls_ok (n : ℕ) : ∀ c ∈ overrunCalls n, c.Ok := by
  have hsend : (SendCall.send longFrame ioBlocked).Ok := by
    refine ⟨?_, longFrame_length.le, by decide⟩
    rw [longFrame_length]
    decide
  have hflush : (SendCall.flush ioOneFrame).Ok := by decide
  intro c hc
  simp only [overrunCalls, overrunEnd, List.mem_append, List.mem_cons, List.not_mem_nil, or_false] at hc
  rcases hc with hc | rfl | rfl
  · rw [List.eq_of_mem_replicate hc]
    exact hsend
  · exact hflush
  · exact hsend

/-- A queue that holds `k` such frames, none of them written. -/
structure Holds (k : ℕ) (l : Link) : Prop where
  off : l.off = 0
  length : l.stored.length = k * bcMaxFrameLen
  allocated : 0 < k → l.allocated = true

theorem Holds.send {k cap : ℕ} {l : Link} (h : Holds k l) (hcap : (k + 1) * bcMaxFrameLen ≤ cap) :
    (l.send cap true ioBlocked.writes longFrame).1 = .queued ∧
      Holds (k + 1) (l.send cap true ioBlocked.writes longFrame).2 := by
  have hlen := longFrame_length
  have hstored := h.length
  have hfit : (l.stored.length - l.off) + longFrame.length ≤ cap := by
    rw [hlen, hstored, h.off]
    simp only [bcMaxFrameLen] at *
    omega
  -- Whether or not something waits, the frame goes to the queue.
  have hqueue : Link.queueReply cap true l longFrame =
      (.queued, Link.store { l with allocated := true } longFrame) := by
    unfold Link.queueReply
    rw [Link.queue_eq, if_pos ⟨hfit, .inr rfl⟩]
  have hsend : l.send cap true ioBlocked.writes longFrame =
      (.queued, Link.store { l with allocated := true } longFrame) := by
    by_cases hlt : l.off < l.stored.length
    · rw [Link.send, if_pos hlt, hqueue]
    · have hblocked : writeAll ioBlocked.writes longFrame = ⟨.blocked, [], longFrame⟩ := rfl
      have hsame : (l.write ioBlocked.writes longFrame).2 = l := by
        simp only [Link.write, hblocked, List.append_nil]
      rw [Link.send_empty hlt, hblocked, hsame]
      exact hqueue
  rw [hsend]
  refine ⟨rfl, h.off, ?_, fun _ => rfl⟩
  simp only [Link.store, List.length_append, hlen, hstored, bcMaxFrameLen]
  omega

/-- A link that takes `n` bytes of more and then blocks. -/
theorem writeAll_some {n : ℕ} {data : List UInt8} (hn : n ≠ 0) (hlt : n < data.length) :
    writeAll [.wrote n, .eagain] data = ⟨.blocked, data.take n, data.drop n⟩ := by
  have hrest : writeAll [.eagain] (data.drop n) = ⟨.blocked, [], data.drop n⟩ := by
    cases hd : data.drop n with
    | nil =>
      have hlen := congrArg List.length hd
      simp only [List.length_drop, List.length_nil] at hlen
      omega
    | cons b bs => rfl
  cases data with
  | nil => simp at hlt
  | cons b bs =>
    rw [writeAll]
    simp only [if_neg hn, hrest, List.append_nil]
    exact List.cons_ne_nil b bs

/-- One frame written out of a full queue makes room for one more by the waiting
bytes, but not behind the stored ones. -/
theorem Holds.overrun {k cap : ℕ} {l : Link} (h : Holds (k + 2) l)
    (hcap : cap = (k + 2) * bcMaxFrameLen) :
    cap < ((l.flush ioOneFrame.writes).2.send cap true ioBlocked.writes
      longFrame).2.stored.length := by
  have hlen := longFrame_length
  have hstored := h.length
  have hpending : l.pending = l.stored := by rw [Link.pending, h.off, List.drop_zero]
  have hlt : bcMaxFrameLen < l.stored.length := by
    rw [hstored]
    simp only [bcMaxFrameLen]
    omega
  have hwrite := writeAll_some (show bcMaxFrameLen ≠ 0 by decide) hlt
  have hflush : (l.flush ioOneFrame.writes).2 =
      { l with off := bcMaxFrameLen, written := l.written ++ l.stored.take bcMaxFrameLen } := by
    have htake : (l.stored.take bcMaxFrameLen).length = bcMaxFrameLen := by
      rw [List.length_take]
      omega
    simp only [Link.flush, ioOneFrame, hpending, hwrite, htake, h.off, Nat.zero_add, reduceCtorEq,
      if_false]
  have hfit : (l.stored.length - bcMaxFrameLen) + longFrame.length ≤ cap := by
    rw [hlen, hstored, hcap]
    simp only [bcMaxFrameLen]
    omega
  rw [hflush, Link.send, if_pos hlt, Link.queueReply, Link.queue_eq, if_pos ⟨hfit, .inr rfl⟩]
  simp only [Link.store, List.length_append, hlen, hstored, hcap, bcMaxFrameLen]
  omega

theorem holds_zero : Holds 0 ⟨false, [], 0, [], []⟩ :=
  ⟨rfl, rfl, fun h => absurd h (Nat.lt_irrefl 0)⟩

theorem tcp_fill (n : ℕ) (hn : n ≤ 64) :
    let r := Runs.run tcpCall ⟨tcpIdle, []⟩ (List.replicate n (.send longFrame ioBlocked))
    r.transport.connected = true ∧ 0 ≤ r.transport.connFd ∧ Holds n r.transport.link := by
  induction n with
  | zero => exact ⟨rfl, by decide, holds_zero⟩
  | succ n ih =>
    obtain ⟨hconn, hfd, hholds⟩ := ih (by omega)
    have hcap : (n + 1) * bcMaxFrameLen ≤ bcTcpSendCap := by
      simp only [bcTcpSendCap, bcMaxFrameLen]
      omega
    obtain ⟨-, hnext⟩ := hholds.send hcap
    rw [List.replicate_succ', Runs.run_append, Runs.run_cons, Runs.run_nil]
    simp only [tcpCall, SendRun.call, tcpSend_live hconn hfd ioBlocked (by decide)]
    exact ⟨hconn, hfd, hnext⟩

theorem not_directionStuck (impl : UartImpl) {io : IoAnswers} (hgpio : io.gpio = true) :
    ¬ DirectionStuck impl io := by
  intro h
  have hfalse := uartRs485TxEnable_failed h.2
  rw [hgpio] at hfalse
  cases hfalse

theorem uart_fill (n : ℕ) (hn : n ≤ 8) :
    let r := Runs.run uartCall ⟨uartIdle, []⟩ (List.replicate n (.send longFrame ioBlocked))
    r.transport.opened = true ∧ 0 ≤ r.transport.fd ∧ Holds n r.transport.link := by
  induction n with
  | zero => exact ⟨rfl, by decide, holds_zero⟩
  | succ n ih =>
    obtain ⟨hopen, hfd, hholds⟩ := ih (by omega)
    have hcap : (n + 1) * bcMaxFrameLen ≤ bcUartSendCap := by
      simp only [bcUartSendCap, bcMaxFrameLen]
      omega
    obtain ⟨-, hnext⟩ := hholds.send hcap
    obtain ⟨-, hlink, hdev⟩ := uartSend_open hopen hfd ioBlocked (by decide) longFrame
      (not_directionStuck _ rfl)
    rw [List.replicate_succ', Runs.run_append, Runs.run_cons, Runs.run_nil]
    exact ⟨hdev.opened.trans hopen, hdev.fd ▸ hfd, hlink ▸ hnext⟩

theorem tcp_overrun {r : SendRun TcpImpl} (hconn : r.transport.connected = true)
    (hfd : 0 ≤ r.transport.connFd) (hholds : Holds 64 r.transport.link) :
    bcTcpSendCap < (Runs.run tcpCall r overrunEnd).transport.link.stored.length := by
  have hover := hholds.overrun (show bcTcpSendCap = (62 + 2) * bcMaxFrameLen by rfl)
  rw [overrunEnd, Runs.run_cons, Runs.run_cons, Runs.run_nil]
  have hflush := tcpFlushSend_live hconn hfd ioOneFrame
  simp only [tcpCall, SendRun.call]
  rw [hflush, tcpSend_live (by exact hconn) (by exact hfd) ioBlocked (by decide)]
  exact hover

theorem uart_overrun {r : SendRun UartImpl} (hopen : r.transport.opened = true)
    (hfd : 0 ≤ r.transport.fd) (hholds : Holds 8 r.transport.link) :
    bcUartSendCap < (Runs.run uartCall r overrunEnd).transport.link.stored.length := by
  have hover := hholds.overrun (show bcUartSendCap = (6 + 2) * bcMaxFrameLen by rfl)
  obtain ⟨hflush, hdev⟩ := uartFlushSend_open hopen hfd ioOneFrame (by decide)
  have hlink := hflush.resolve_left (fun hg => absurd hg.1 (by decide))
  obtain ⟨-, hsend, -⟩ := uartSend_open (hdev.opened.trans hopen) (hdev.fd ▸ hfd) ioBlocked
    (by decide) longFrame (not_directionStuck _ rfl)
  rw [hlink] at hsend
  rw [overrunEnd, Runs.run_cons, Runs.run_cons, Runs.run_nil]
  simp only [uartCall, SendRun.call, hsend]
  exact hover

/-- In both transports a queue full of frames of the largest length, one frame
of it written, and one more frame: the copy of that frame leaves the buffer. -/
theorem send_queue_overrun :
    (TcpFresh tcpIdle ∧ (∀ c ∈ overrunCalls 64, c.Ok) ∧
      ¬ Runs.Along tcpCall (fun r => Good bcTcpSendCap r.accepted.flatten r.transport.link)
        ⟨tcpIdle, []⟩ (overrunCalls 64)) ∧
    (UartFresh uartIdle ∧ (∀ c ∈ overrunCalls 8, c.Ok) ∧
      ¬ Runs.Along uartCall (fun r => Good bcUartSendCap r.accepted.flatten r.transport.link)
        ⟨uartIdle, []⟩ (overrunCalls 8)) := by
  refine ⟨⟨tcpFresh_idle, overrunCalls_ok 64, fun h => ?_⟩, uartFresh_idle, overrunCalls_ok 8,
    fun h => ?_⟩
  · obtain ⟨hconn, hfd, hholds⟩ := tcp_fill 64 le_rfl
    have hlast := (h (overrunCalls 64) List.prefix_rfl).len_le
    rw [overrunCalls, Runs.run_append] at hlast
    exact absurd hlast (Nat.not_le.mpr (tcp_overrun hconn hfd hholds))
  · obtain ⟨hopen, hfd, hholds⟩ := uart_fill 8 le_rfl
    have hlast := (h (overrunCalls 8) List.prefix_rfl).len_le
    rw [overrunCalls, Runs.run_append] at hlast
    exact absurd hlast (Nat.not_le.mpr (uart_overrun hopen hfd hholds))

end BoardComm
