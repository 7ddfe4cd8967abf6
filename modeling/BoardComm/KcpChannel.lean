import BoardComm.Config
import BoardComm.IkcpLink
import BoardComm.KcpTransport

/-!
# Two boards over KCP

Each end of the channel is a transport with its session. Reading takes messages out of
the session into the staging buffer, and bytes out of the buffer.
-/
namespace BoardComm.Ikcp

/-- `BC_KCP_UDP_BUF_LEN`. -/
abbrev bcKcpUdpBufLen : ℕ := 2048

/-- `kcp_conv_from_config`. -/
def kcpConvFromConfig (cfg : TransportConfig) : UInt32 :=
  if cfg.kcpConv > 0 then .ofNat cfg.kcpConv.toNat
  else if cfg.localPort > 0 then .ofNat cfg.localPort.toNat
  else 1

/-- `bc_udp_kcp_impl_t` with its session. The bytes returned to the reader, and how often
a full buffer was given up, are history. -/
structure KcpEnd where
  session : End
  rx : List UInt8 := []
  returned : List UInt8 := []
  discarded : ℕ := 0
  deriving DecidableEq, Repr

/-- The loop of `kcp_drain_recv`. Every round but the last adds a byte to the buffer, so
that its length is enough for the rounds. -/
def drainLoop : ℕ → KcpEnd → BcStatus × KcpEnd
  | 0, e => (.io, e)
  | fuel + 1, e =>
    if e.rx.length ≥ bcKcpRxBufLen then (.io, { e with rx := [], discarded := e.discarded + 1 })
    else
      let room := bcKcpRxBufLen - e.rx.length
      match (ikcpRecv e.session.kcp room).1 with
      | .ok msg =>
        let e := { e with session := endRecv e.session room, rx := e.rx ++ msg }
        if msg.length > 0 then drainLoop fuel e else (.io, e)
      | .error rc => if rc = -3 then (.ok, e) else (.io, e)

/-- `kcp_drain_recv`. -/
def kcpDrainRecv (e : KcpEnd) : BcStatus × KcpEnd := drainLoop (bcKcpRxBufLen + 1) e

/-- `kcp_update_session`, at a time that `kcp_now_ms` gives. -/
def kcpUpdateSession (e : KcpEnd) (others : ℕ) (now : UInt32) : KcpEnd :=
  (kcpDrainRecv { e with session := endUpdate e.session others now }).2

/-- The loop of `kcp_pump_udp`, over the datagrams that wait in the socket. -/
def pumpLoop : List Datagram → KcpEnd → BcStatus × KcpEnd
  | [], e => (.ok, e)
  | d :: ds, e =>
    let r := ikcpInput e.session.kcp (d.bytes.take bcKcpUdpBufLen)
    let e := { e with session := { e.session with kcp := r.2 } }
    if r.1 < 0 then (.io, e) else pumpLoop ds e

/-- `udp_kcp_send`. The length is converted to a signed number of 32 bits. -/
def udpKcpSend (e : KcpEnd) (others : ℕ) (data : List UInt8) (now : UInt32) : BcStatus × KcpEnd :=
  let len := data.length % 2 ^ 32
  if len ≥ 2 ^ 31 then (.io, e)
  else if (ikcpSend e.session.kcp (data.take len)).1 < 0 then
    (.io, { e with session := endSend e.session (data.take len) })
  else (.ok, kcpUpdateSession { e with session := endSend e.session (data.take len) } others now)

/-- `udp_kcp_recv` into an array of `cap` bytes. -/
def udpKcpRecv (e : KcpEnd) (others cap : ℕ) (now : UInt32) :
    Except BcStatus (List UInt8) × KcpEnd :=
  let e := kcpUpdateSession e others now
  if e.rx.length = 0 then (.error .notFound, e)
  else
    let n := if e.rx.length < cap then e.rx.length else cap
    (.ok (e.rx.take n), { e with rx := e.rx.drop n, returned := e.returned ++ e.rx.take n })

/-- `udp_kcp_handle_event` for the timer: every round of its loop is an update. -/
def udpKcpTimer (e : KcpEnd) (others : ℕ) (nows : List UInt32) : KcpEnd :=
  nows.foldl (fun e now => kcpUpdateSession e others now) e

/-- `udp_kcp_handle_event` for the socket. -/
def udpKcpSocket (e : KcpEnd) (others : ℕ) (ds : List Datagram) (now : UInt32) :
    BcStatus × KcpEnd :=
  let r := pumpLoop ds e
  if r.1 = .ok then (.ok, kcpUpdateSession r.2 others now) else (.io, r.2)

structure Channel where
  near : KcpEnd
  far : KcpEnd
  deriving DecidableEq, Repr

/-- A call or an event at one end. The datagrams that arrive are given by their places
among those that the other end has put out. -/
inductive ChannelCall
  | send (data : List UInt8) (now : UInt32)
  | recv (cap : ℕ) (now : UInt32)
  | timer (nows : List UInt32)
  | socket (arrived : List ℕ) (now : UInt32)
  deriving DecidableEq, Repr

namespace Channel

def swap (c : Channel) : Channel := ⟨c.far, c.near⟩

/-- The sessions of both ends. -/
def link (c : Channel) : Link := ⟨c.near.session, c.far.session⟩

def arriving (c : Channel) (arrived : List ℕ) : List Datagram :=
  arrived.filterMap fun i => c.far.session.output[i]?

def call (c : Channel) : ChannelCall → Channel
  | .send data now => { c with near := (udpKcpSend c.near c.far.session.numbered data now).2 }
  | .recv cap now => { c with near := (udpKcpRecv c.near c.far.session.numbered cap now).2 }
  | .timer nows => { c with near := udpKcpTimer c.near c.far.session.numbered nows }
  | .socket arrived now =>
    { c with near := (udpKcpSocket c.near c.far.session.numbered (c.arriving arrived) now).2 }

/-- No message is too long for its length to be converted, and no datagram is too old. -/
def FreshCall (c : Channel) : ChannelCall → Prop
  | .send data _ => data.length < 2 ^ 31
  | .socket arrived _ => ∀ d ∈ c.arriving arrived, c.link.total < d.since + 2 ^ 30
  | _ => True

instance (c : Channel) (call : ChannelCall) : Decidable (c.FreshCall call) := by
  cases call <;> unfold FreshCall <;> infer_instance

end Channel

/-- A step of either end. -/
inductive ChannelStep
  | near (call : ChannelCall)
  | far (call : ChannelCall)
  deriving DecidableEq, Repr

def channelStep (c : Channel) : ChannelStep → Channel
  | .near call => c.call call
  | .far call => (c.swap.call call).swap

def Channel.Fresh (c : Channel) : ChannelStep → Prop
  | .near call => c.FreshCall call
  | .far call => c.swap.FreshCall call

instance (c : Channel) (step : ChannelStep) : Decidable (c.Fresh step) := by
  cases step <;> unfold Channel.Fresh <;> infer_instance

/-- Two transports as `udp_kcp_open` leaves them. -/
def openChannel (cfg cfg' : TransportConfig) : Channel :=
  ⟨{ session := { kcp := kcpSession (kcpConvFromConfig cfg) } },
    { session := { kcp := kcpSession (kcpConvFromConfig cfg') } }⟩

section Rounds

variable {e : KcpEnd}

/-- What a round of `kcp_drain_recv` can do while the buffer has room: it ends, or it
takes a message. -/
theorem drainLoop_cases (hroom : e.rx.length < bcKcpRxBufLen) :
    (∃ status, ∀ fuel, drainLoop (fuel + 1) e = (status, e)) ∨
      ∃ msg e', e' = { e with
          session := endRecv e.session (bcKcpRxBufLen - e.rx.length), rx := e.rx ++ msg } ∧
        e'.session.received = e.session.received ++ [msg] ∧
        e.rx.length + msg.length ≤ bcKcpRxBufLen ∧
        ((∀ fuel, drainLoop (fuel + 1) e = (.io, e')) ∨
          (∀ fuel, drainLoop (fuel + 1) e = drainLoop fuel e') ∧ 0 < msg.length) := by
  simp only [drainLoop, if_neg (Nat.not_le.mpr hroom)]
  rcases ikcpRecv_cases e.session.kcp (bcKcpRxBufLen - e.rx.length) with
    ⟨rc, heq⟩ | ⟨hlen, -, ask, -, heq⟩
  · left
    simp only [heq]
    split_ifs
    · exact ⟨_, fun _ => rfl⟩
    · exact ⟨_, fun _ => rfl⟩
  · right
    refine ⟨dataOf (messageOf e.session.kcp.rcvQueue), _, rfl, ?_, by omega, ?_⟩
    · simp only [endRecv, heq]
    · simp only [heq]
      split_ifs with hpos
      · exact .inr ⟨fun _ => rfl, hpos⟩
      · exact .inl fun _ => rfl

/-- The loop of `kcp_drain_recv` does not run out of rounds. -/
theorem drainLoop_fuel {fuel fuel' : ℕ} (hrx : e.rx.length ≤ bcKcpRxBufLen)
    (h : bcKcpRxBufLen < e.rx.length + fuel) (hle : fuel ≤ fuel') :
    drainLoop fuel' e = drainLoop fuel e := by
  induction fuel generalizing fuel' e with
  | zero => omega
  | succ fuel ih =>
    obtain ⟨fuel', rfl⟩ : ∃ n, fuel' = n + 1 :=
      Nat.exists_eq_succ_of_ne_zero (Nat.ne_of_gt ((Nat.succ_pos fuel).trans_le hle))
    by_cases hroom : e.rx.length < bcKcpRxBufLen
    · rcases drainLoop_cases hroom with ⟨status, heq⟩ | ⟨msg, e', he', -, hfits, heq | ⟨heq, hpos⟩⟩
      · rw [heq, heq]
      · rw [heq, heq]
      · have hlen : e'.rx.length = e.rx.length + msg.length := by rw [he', List.length_append]
        rw [heq, heq]
        exact ih (by omega) (by omega) (Nat.le_of_succ_le_succ hle)
    · rw [drainLoop, drainLoop, if_pos (Nat.not_lt.mp hroom), if_pos (Nat.not_lt.mp hroom)]

end Rounds

section Lossless

/-- What the reader got and what stands in the buffer are the messages that were taken
out of the session, if no buffer was given up. -/
def KcpEnd.Lossless (e : KcpEnd) : Prop :=
  e.discarded = 0 → e.returned ++ e.rx = e.session.received.flatten

variable {e : KcpEnd} {y : End}

theorem Linked.recv {x : End} (h : Linked ⟨x, y⟩) (len : ℕ) : Linked ⟨endRecv x len, y⟩ :=
  @Linked.call _ h (.recv len) trivial

theorem Linked.update {x : End} (h : Linked ⟨x, y⟩) (now : UInt32) :
    Linked ⟨endUpdate x y.numbered now, y⟩ :=
  @Linked.call _ h (.update now) trivial

theorem Linked.deliver {x : End} (h : Linked ⟨x, y⟩) {d : Datagram} (hd : d ∈ y.output)
    (hfresh : x.numbered + y.numbered < d.since + 2 ^ 30) :
    Linked ⟨endDeliver x (some d), y⟩ ∧ d.bytes.length ≤ ikcpMtuDef.toNat := by
  obtain ⟨gx, gy, hnear, hfar⟩ := h
  refine ⟨?_, hfar.fits d hd⟩
  have hput : ∀ d' ∈ some d, d' ∈ y.output := by
    intro d' hd'
    rwa [← Option.mem_some_iff.mp hd']
  have hage : ∀ d' ∈ some d, x.numbered + y.numbered < d'.since + 2 ^ 30 := by
    intro d' hd'
    rwa [← Option.mem_some_iff.mp hd']
  obtain ⟨gx', h'⟩ := hnear.deliver hfar hput hage
  exact ⟨gx', gy, h'⟩

/-- The messages that are taken go behind the bytes in the buffer. -/
theorem drainLoop_keeps {fuel : ℕ} (h : Linked ⟨e.session, y⟩) (hbytes : e.Lossless) :
    Linked ⟨(drainLoop fuel e).2.session, y⟩ ∧ (drainLoop fuel e).2.Lossless := by
  induction fuel generalizing e with
  | zero => exact ⟨h, hbytes⟩
  | succ fuel ih =>
    by_cases hroom : e.rx.length < bcKcpRxBufLen
    · rcases drainLoop_cases hroom with ⟨status, heq⟩ | ⟨msg, e', he', hreceived, -, hnext⟩
      · rw [heq]
        exact ⟨h, hbytes⟩
      · have hlinked : Linked ⟨e'.session, y⟩ := by
          rw [he']
          exact h.recv _
        have hbytes' : e'.Lossless := by
          intro hnone
          rw [he'] at hnone
          rw [hreceived, List.flatten_append, List.flatten_singleton, ← hbytes hnone, he',
            List.append_assoc]
        rcases hnext with heq | ⟨heq, -⟩
        · rw [heq]
          exact ⟨hlinked, hbytes'⟩
        · rw [heq]
          exact ih hlinked hbytes'
    · rw [drainLoop, if_pos (Nat.not_lt.mp hroom)]
      exact ⟨h, fun hnone => absurd hnone (Nat.succ_ne_zero _)⟩

/-- An update of the session keeps what is known of an end. -/
theorem kcpUpdateSession_keeps (h : Linked ⟨e.session, y⟩) (hbytes : e.Lossless) (now : UInt32) :
    Linked ⟨(kcpUpdateSession e y.numbered now).session, y⟩ ∧
      (kcpUpdateSession e y.numbered now).Lossless := by
  have hupdated : KcpEnd.Lossless { e with session := endUpdate e.session y.numbered now } := hbytes
  exact drainLoop_keeps (h.update now) hupdated

/-- So do datagrams of the other end that are not too old. -/
theorem pumpLoop_keeps {ds : List Datagram} (h : Linked ⟨e.session, y⟩) (hbytes : e.Lossless)
    (hds : ∀ d ∈ ds, d ∈ y.output ∧ e.session.numbered + y.numbered < d.since + 2 ^ 30) :
    Linked ⟨(pumpLoop ds e).2.session, y⟩ ∧ (pumpLoop ds e).2.Lossless := by
  induction ds generalizing e with
  | nil => exact ⟨h, hbytes⟩
  | cons d ds ih =>
    obtain ⟨hd, hfresh⟩ := hds d List.mem_cons_self
    obtain ⟨hlinked, hlen⟩ := h.deliver hd hfresh
    have hwhole : d.bytes.take bcKcpUdpBufLen = d.bytes :=
      List.take_of_length_le (hlen.trans (by decide))
    rw [pumpLoop, hwhole]
    simp only
    let e' : KcpEnd := { e with
      session := { e.session with kcp := (ikcpInput e.session.kcp d.bytes).2 } }
    have hbytes' : e'.Lossless := hbytes
    split_ifs
    · exact ⟨hlinked, hbytes'⟩
    · exact @ih e' hlinked hbytes' fun d' hd' => hds d' (List.mem_cons_of_mem _ hd')

theorem udpKcpSend_keeps (h : Linked ⟨e.session, y⟩) (hbytes : e.Lossless) {data : List UInt8}
    (hlen : data.length < 2 ^ 31) (now : UInt32) :
    Linked ⟨(udpKcpSend e y.numbered data now).2.session, y⟩ ∧
      (udpKcpSend e y.numbered data now).2.Lossless := by
  have hmod : data.length % 2 ^ 32 = data.length := Nat.mod_eq_of_lt (by omega)
  have hlinked : Linked ⟨endSend e.session data, y⟩ := @Linked.call _ h (.send data) trivial
  have hbytes' : KcpEnd.Lossless { e with session := endSend e.session data } := hbytes
  rw [udpKcpSend]
  simp only [hmod, List.take_length, if_neg (Nat.not_le.mpr hlen)]
  split_ifs
  · exact ⟨hlinked, hbytes'⟩
  · exact kcpUpdateSession_keeps hlinked hbytes' now

theorem udpKcpRecv_keeps (h : Linked ⟨e.session, y⟩) (hbytes : e.Lossless) (cap : ℕ)
    (now : UInt32) :
    Linked ⟨(udpKcpRecv e y.numbered cap now).2.session, y⟩ ∧
      (udpKcpRecv e y.numbered cap now).2.Lossless := by
  obtain ⟨hlinked, hbytes'⟩ := kcpUpdateSession_keeps h hbytes now
  rw [udpKcpRecv]
  simp only
  generalize kcpUpdateSession e y.numbered now = e' at hlinked hbytes'
  by_cases hempty : e'.rx.length = 0
  · rw [if_pos hempty]
    exact ⟨hlinked, hbytes'⟩
  · rw [if_neg hempty]
    refine ⟨hlinked, fun hnone => ?_⟩
    rw [List.append_assoc, List.take_append_drop]
    exact hbytes' hnone

theorem udpKcpTimer_keeps (h : Linked ⟨e.session, y⟩) (hbytes : e.Lossless) (nows : List UInt32) :
    Linked ⟨(udpKcpTimer e y.numbered nows).session, y⟩ ∧
      (udpKcpTimer e y.numbered nows).Lossless := by
  induction nows generalizing e with
  | nil => exact ⟨h, hbytes⟩
  | cons now nows ih =>
    obtain ⟨hlinked, hbytes'⟩ := kcpUpdateSession_keeps h hbytes now
    exact ih hlinked hbytes'

theorem udpKcpSocket_keeps (h : Linked ⟨e.session, y⟩) (hbytes : e.Lossless) {ds : List Datagram}
    (hds : ∀ d ∈ ds, d ∈ y.output ∧ e.session.numbered + y.numbered < d.since + 2 ^ 30)
    (now : UInt32) :
    Linked ⟨(udpKcpSocket e y.numbered ds now).2.session, y⟩ ∧
      (udpKcpSocket e y.numbered ds now).2.Lossless := by
  obtain ⟨hlinked, hbytes'⟩ := pumpLoop_keeps h hbytes hds
  rw [udpKcpSocket]
  split_ifs
  · exact kcpUpdateSession_keeps hlinked hbytes' now
  · exact ⟨hlinked, hbytes'⟩

/-- What is known of a channel. -/
structure Channel.Sound (c : Channel) : Prop where
  linked : Linked c.link
  near : c.near.Lossless
  far : c.far.Lossless

theorem Channel.Sound.swap {c : Channel} (h : c.Sound) : c.swap.Sound :=
  ⟨h.linked.swap, h.far, h.near⟩

theorem Channel.Sound.call {c : Channel} (h : c.Sound) {call : ChannelCall}
    (hfresh : c.FreshCall call) : (c.call call).Sound := by
  have hend : ∀ e : KcpEnd, Linked ⟨e.session, c.far.session⟩ ∧ e.Lossless →
      Channel.Sound { c with near := e } := fun e he => ⟨he.1, he.2, h.far⟩
  cases call with
  | send data now => exact hend _ (udpKcpSend_keeps h.linked h.near hfresh now)
  | recv cap now => exact hend _ (udpKcpRecv_keeps h.linked h.near cap now)
  | timer nows => exact hend _ (udpKcpTimer_keeps h.linked h.near nows)
  | socket arrived now =>
    refine hend _ (udpKcpSocket_keeps h.linked h.near (fun d hd => ⟨?_, hfresh d hd⟩) now)
    obtain ⟨i, -, hi⟩ := List.mem_filterMap.mp hd
    exact List.mem_of_getElem? hi

theorem channelStep_sound {c : Channel} (h : c.Sound) {step : ChannelStep} (hfresh : c.Fresh step) :
    (channelStep c step).Sound := by
  cases step with
  | near call => exact h.call hfresh
  | far call => exact (h.swap.call hfresh).swap

variable {cfg cfg' : TransportConfig} {steps : List ChannelStep}

theorem run_channel_sound (hconv : kcpConvFromConfig cfg = kcpConvFromConfig cfg')
    (hfresh : Runs.Meets channelStep Channel.Fresh (openChannel cfg cfg') steps) :
    (Runs.run channelStep (openChannel cfg cfg') steps).Sound := by
  have hstart : (openChannel cfg cfg').Sound := by
    refine ⟨?_, fun _ => rfl, fun _ => rfl⟩
    rw [openChannel, ← hconv]
    exact openLink_linked _
  have hstep : ∀ c step, Channel.Sound c → True → c.Fresh step → (channelStep c step).Sound :=
    fun c step h _ hfresh => channelStep_sound h hfresh
  exact Runs.along_of_meets channelStep hstep hstart (fun _ _ => trivial) hfresh steps
    List.prefix_rfl

/-- The bytes that a reader gets, with those that wait for it, are the first of the bytes
that were sent at the other end, unless a full buffer was given up. -/
theorem channel_delivers (hconv : kcpConvFromConfig cfg = kcpConvFromConfig cfg')
    (hfresh : Runs.Meets channelStep Channel.Fresh (openChannel cfg cfg') steps) :
    let c := Runs.run channelStep (openChannel cfg cfg') steps
    (c.far.discarded = 0 → c.far.returned ++ c.far.rx <+: c.near.session.sent.flatten) ∧
      (c.near.discarded = 0 → c.near.returned ++ c.near.rx <+: c.far.session.sent.flatten) := by
  have hsound := run_channel_sound hconv hfresh
  obtain ⟨gx, gy, hnear, hfar⟩ := hsound.linked
  have hflatten : ∀ msgs msgs' : List (List UInt8), msgs <+: msgs' →
      msgs.flatten <+: msgs'.flatten := by
    rintro msgs _ ⟨rest, rfl⟩
    rw [List.flatten_append]
    exact List.prefix_append _ _
  refine ⟨fun hnone => ?_, fun hnone => ?_⟩
  · rw [hsound.far hnone]
    exact hflatten _ _ hfar.received
  · rw [hsound.near hnone]
    exact hflatten _ _ hnear.received

/-- Both ends take the conversation from the configuration; the first of two datagrams is
late. -/
theorem channel_delivers_late :
    let cfg : TransportConfig := ⟨[], .udpKcp, [], 9100, 0, -1, 7, 0, -1⟩
    let c := Runs.run channelStep (openChannel cfg cfg)
      [.near (.send [1, 2] 0), .near (.send [3] 10), .far (.socket [1, 0] 12), .far (.recv 2 13)]
    (c.far.discarded = 0 → c.far.returned ++ c.far.rx <+: c.near.session.sent.flatten) ∧
      (c.near.discarded = 0 → c.near.returned ++ c.near.rx <+: c.far.session.sent.flatten) :=
  channel_delivers rfl (by decide +kernel)

end Lossless

end BoardComm.Ikcp
