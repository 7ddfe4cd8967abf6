import BoardComm.Runs
import BoardComm.Types

/-!
# Receiving over KCP

The messages that the KCP session has are copied one after the other into a staging
buffer, from which the reader takes bytes. Of the session it is known only that it
hands out its messages whole and in order, as they are found complete.
-/
namespace BoardComm

/-- `BC_KCP_RX_BUF_LEN`. -/
abbrev bcKcpRxBufLen : ℕ := 3200

/-- `bc_udp_kcp_impl_t`: the first `rx_len` bytes of `rx_buf`, and the session, given by
the messages that are still to be taken from it and by whether each of the next calls
finds one complete. The messages taken so far and the bytes returned to the
reader are history. -/
structure UdpKcp where
  rx : List UInt8
  coming : List (List UInt8)
  found : List Bool
  taken : List (List UInt8)
  returned : List UInt8
  deriving DecidableEq, Repr

/-- What `ikcp_recv` answers: a message, -3, or another negative value. -/
inductive IkcpAnswer
  | message
  | tooLong
  | nothing
  deriving DecidableEq, Repr

/-- `ikcp_recv`, with so much room for the next message. -/
def ikcpRecv (msg : List UInt8) (found : Bool) (room : ℕ) : IkcpAnswer :=
  if found = false then .nothing else if msg.length > room then .tooLong else .message

/-- A message is copied behind the bytes that are in the buffer. -/
def UdpKcp.accept (s : UdpKcp) (msg : List UInt8) (coming : List (List UInt8)) : UdpKcp :=
  { s with
    rx := s.rx ++ msg, coming := coming, found := s.found.tail, taken := s.taken ++ [msg] }

/-- The loop of `kcp_drain_recv`, over the messages of the session. -/
def kcpDrainLoop : List (List UInt8) → UdpKcp → BcStatus × UdpKcp
  | [], s =>
    if s.rx.length ≥ bcKcpRxBufLen then (.io, { s with rx := [] })
    else (.io, { s with found := s.found.tail })
  | msg :: coming, s =>
    if s.rx.length ≥ bcKcpRxBufLen then (.io, { s with rx := [] })
    else
      match ikcpRecv msg (s.found.headD false) (bcKcpRxBufLen - s.rx.length) with
      | .message =>
        if msg = [] then (.io, s.accept msg coming) else kcpDrainLoop coming (s.accept msg coming)
      | .tooLong => (.ok, { s with found := s.found.tail })
      | .nothing => (.io, { s with found := s.found.tail })

/-- `kcp_drain_recv`. -/
def kcpDrainRecv (s : UdpKcp) : BcStatus × UdpKcp := kcpDrainLoop s.coming s

/-- `kcp_update_session`. What `ikcp_update` does shows in later calls of `ikcp_recv`. -/
def kcpUpdateSession (s : UdpKcp) : UdpKcp := (kcpDrainRecv s).2

/-- `udp_kcp_send`, if `ikcp_send` takes the message or not. -/
def udpKcpSend (s : UdpKcp) (accepted : Bool) : BcStatus × UdpKcp :=
  if accepted = true then (.ok, kcpUpdateSession s) else (.io, s)

/-- `udp_kcp_recv` into an array of `cap` bytes. -/
def udpKcpRecv (s : UdpKcp) (cap : ℕ) : Except BcStatus (List UInt8) × UdpKcp :=
  let s := kcpUpdateSession s
  if s.rx.length = 0 then (.error .notFound, s)
  else
    let n := if s.rx.length < cap then s.rx.length else cap
    (.ok (s.rx.take n), { s with rx := s.rx.drop n, returned := s.returned ++ s.rx.take n })

/-- An event for the transport: so many ticks of its timer, or datagrams that are
pumped into the session. -/
inductive KcpEvent
  | timer (ticks : ℕ)
  | socket (pumped : Bool)
  deriving DecidableEq, Repr

/-- `udp_kcp_handle_event`. -/
def udpKcpHandleEvent (s : UdpKcp) : KcpEvent → BcStatus × UdpKcp
  | .timer ticks => (.ok, kcpUpdateSession^[ticks] s)
  | .socket pumped => if pumped = true then (.ok, kcpUpdateSession s) else (.io, s)

/-- An update of the session, or a call of the reader. -/
inductive KcpStep
  | update
  | recv (cap : ℕ)
  deriving DecidableEq, Repr

def kcpStep (s : UdpKcp) : KcpStep → UdpKcp
  | .update => kcpUpdateSession s
  | .recv cap => (udpKcpRecv s cap).2

section Updates

variable (s : UdpKcp)

/-- Sending and every event make updates, and nothing else. -/
theorem udpKcpSend_run (accepted : Bool) :
    ∃ n, (udpKcpSend s accepted).2 = Runs.run kcpStep s (List.replicate n .update) := by
  cases accepted with
  | true => exact ⟨1, rfl⟩
  | false => exact ⟨0, rfl⟩

theorem udpKcpHandleEvent_run (event : KcpEvent) :
    ∃ n, (udpKcpHandleEvent s event).2 = Runs.run kcpStep s (List.replicate n .update) := by
  cases event with
  | timer ticks =>
    refine ⟨ticks, ?_⟩
    simp only [udpKcpHandleEvent]
    induction ticks generalizing s with
    | zero => rfl
    | succ ticks ih =>
      rw [Function.iterate_succ_apply, ih, List.replicate_succ, Runs.run_cons, kcpStep]
  | socket pumped =>
    cases pumped with
    | true => exact ⟨1, rfl⟩
    | false => exact ⟨0, rfl⟩

end Updates

section Staging

/-- The next messages that are found fill the buffer to its last byte. -/
def UdpKcp.Fills (s : UdpKcp) : Prop :=
  ∃ j ≤ s.coming.length, (∀ i < j, s.found[i]? = some true) ∧ [] ∉ s.coming.take j ∧
    s.rx.length + (s.coming.take j).flatten.length = bcKcpRxBufLen

/-- What an update does to the buffer. -/
inductive Drained (s s' : UdpKcp) : Prop
  | kept (hfills : ¬ s.Fills) (msgs : List (List UInt8)) (hreturned : s'.returned = s.returned)
      (htaken : s'.taken = s.taken ++ msgs) (hrx : s'.rx = s.rx ++ msgs.flatten)
      (hroom : s'.rx.length < bcKcpRxBufLen)
  | lost (hfills : s.Fills) (msgs : List (List UInt8)) (hreturned : s'.returned = s.returned)
      (htaken : s'.taken = s.taken ++ msgs) (hrx : s'.rx = [])
      (hfull : s.rx.length + msgs.flatten.length = bcKcpRxBufLen)

/-- A message that is taken leaves the question to the next ones. -/
theorem fills_cons {s : UdpKcp} {msg : List UInt8} {coming : List (List UInt8)}
    (hcoming : s.coming = msg :: coming) (hfound : s.found.headD false = true) (hne : msg ≠ [])
    (hroom : s.rx.length < bcKcpRxBufLen) :
    (s.accept msg coming).Fills ↔ s.Fills := by
  obtain ⟨b, found, hcons⟩ : ∃ b found, s.found = b :: found := by
    cases hs : s.found with
    | nil => simp [hs] at hfound
    | cons b found => exact ⟨b, found, rfl⟩
  obtain rfl : b = true := by simpa [hcons] using hfound
  simp only [UdpKcp.Fills, UdpKcp.accept, hcoming, hcons, List.tail_cons, List.length_append]
  constructor
  · rintro ⟨j, hj, hall, hnonempty, hsum⟩
    refine ⟨j + 1, by simpa using hj, fun i hi => ?_, ?_, ?_⟩
    · cases i with
      | zero => rfl
      | succ i => exact hall i (by omega)
    · rw [List.take_succ_cons, List.mem_cons, not_or]
      exact ⟨hne.symm, hnonempty⟩
    · rw [List.take_succ_cons, List.flatten_cons, List.length_append]
      omega
  · rintro ⟨j, hj, hall, hnonempty, hsum⟩
    cases j with
    | zero =>
      simp at hsum
      omega
    | succ j =>
      rw [List.take_succ_cons, List.mem_cons, not_or] at hnonempty
      rw [List.take_succ_cons, List.flatten_cons, List.length_append] at hsum
      refine ⟨j, by simpa using hj, fun i hi => hall (i + 1) (by omega), hnonempty.2, by omega⟩

/-- A message that does not come leaves the buffer unfilled. -/
theorem not_fills {s : UdpKcp} (hroom : s.rx.length < bcKcpRxBufLen)
    (hnext : ∀ msg coming, s.coming = msg :: coming → s.found.headD false = true → msg ≠ [] →
      s.rx.length + msg.length > bcKcpRxBufLen) : ¬ s.Fills := by
  rintro ⟨j, hj, hall, hnonempty, hsum⟩
  cases j with
  | zero =>
    simp at hsum
    omega
  | succ j =>
    cases hcoming : s.coming with
    | nil => simp [hcoming] at hj
    | cons msg coming =>
      rw [hcoming, List.take_succ_cons, List.mem_cons, not_or] at hnonempty
      rw [hcoming, List.take_succ_cons, List.flatten_cons, List.length_append] at hsum
      have hfirst := hall 0 (by omega)
      have hfound : s.found.headD false = true := by
        cases hs : s.found with
        | nil => simp [hs] at hfirst
        | cons b found => simpa [hs] using hfirst
      have hgt := hnext msg coming hcoming hfound (Ne.symm hnonempty.1)
      omega

theorem kcpDrainLoop_drained (coming : List (List UInt8)) {s : UdpKcp} (hcoming : s.coming = coming)
    (hroom : s.rx.length < bcKcpRxBufLen) : Drained s (kcpDrainLoop coming s).2 := by
  induction coming generalizing s with
  | nil =>
    rw [kcpDrainLoop, if_neg (Nat.not_le.mpr hroom)]
    refine .kept (not_fills hroom fun msg coming h => ?_) [] rfl (by simp) (by simp) hroom
    rw [hcoming] at h
    cases h
  | cons msg coming ih =>
    rw [kcpDrainLoop, if_neg (Nat.not_le.mpr hroom)]
    have hsame : ∀ msg' coming', s.coming = msg' :: coming' → msg' = msg := by
      intro msg' coming' h
      rw [hcoming] at h
      exact (List.cons.inj h).1.symm
    by_cases hfound : s.found.headD false = true
    · by_cases hlong : msg.length > bcKcpRxBufLen - s.rx.length
      · have hanswer : ikcpRecv msg (s.found.headD false) (bcKcpRxBufLen - s.rx.length) =
            .tooLong := by rw [ikcpRecv, hfound, if_neg (by simp), if_pos hlong]
        simp only [hanswer]
        refine .kept (not_fills hroom fun msg' coming' h _ _ => ?_) [] rfl (by simp) (by simp) hroom
        rw [hsame msg' coming' h]
        omega
      · have hanswer : ikcpRecv msg (s.found.headD false) (bcKcpRxBufLen - s.rx.length) =
            .message := by rw [ikcpRecv, hfound, if_neg (by simp), if_neg hlong]
        simp only [hanswer]
        by_cases hempty : msg = []
        · subst hempty
          simp only [if_true]
          refine .kept (not_fills hroom fun msg' coming' h _ hne => ?_) [[]] rfl rfl
            (by simp [UdpKcp.accept]) (by simpa [UdpKcp.accept] using hroom)
          exact absurd (hsame msg' coming' h) hne
        · simp only [if_neg hempty]
          have hfills := fills_cons hcoming hfound hempty hroom
          have hlen : (s.accept msg coming).rx.length = s.rx.length + msg.length := by
            rw [UdpKcp.accept, List.length_append]
          by_cases hfull : (s.accept msg coming).rx.length < bcKcpRxBufLen
          · cases ih rfl hfull with
            | kept hkeeps msgs hreturned' htaken' hrx' hroom' =>
              refine .kept (mt hfills.mpr hkeeps) (msg :: msgs) hreturned' ?_ ?_ hroom'
              · rw [htaken', UdpKcp.accept, List.append_assoc, List.singleton_append]
              · rw [hrx', UdpKcp.accept, List.append_assoc, List.flatten_cons]
            | lost hloses msgs hreturned' htaken' hrx' hfull' =>
              refine .lost (hfills.mp hloses) (msg :: msgs) hreturned' ?_ hrx' ?_
              · rw [htaken', UdpKcp.accept, List.append_assoc, List.singleton_append]
              · rw [List.flatten_cons, List.length_append]
                omega
          · -- The buffer is full, and the next round empties it.
            have hexact : (s.accept msg coming).rx.length = bcKcpRxBufLen := by omega
            have hreset : (kcpDrainLoop coming (s.accept msg coming)).2 =
                { s.accept msg coming with rx := [] } := by
              cases coming <;> rw [kcpDrainLoop, if_pos hexact.ge]
            rw [hreset]
            refine .lost (hfills.mp ⟨0, Nat.zero_le _, by simp, by simp, by simpa using hexact⟩) [msg]
              rfl rfl rfl ?_
            rw [List.flatten_cons, List.flatten_nil, List.append_nil]
            omega
    · have hanswer : ikcpRecv msg (s.found.headD false) (bcKcpRxBufLen - s.rx.length) =
          .nothing := by rw [ikcpRecv, if_pos (Bool.eq_false_iff.mpr hfound)]
      simp only [hanswer]
      exact .kept (not_fills hroom fun _ _ _ h => absurd h hfound) [] rfl (by simp) (by simp) hroom

theorem kcpUpdateSession_drained {s : UdpKcp} (hroom : s.rx.length < bcKcpRxBufLen) :
    Drained s (kcpUpdateSession s) :=
  kcpDrainLoop_drained s.coming rfl hroom

end Staging

section Lossless

/-- No byte of the messages taken is missing. -/
def UdpKcp.Lossless (s : UdpKcp) : Prop := s.returned ++ s.rx = s.taken.flatten

/-- The reader takes bytes from the front of the buffer. -/
theorem udpKcpRecv_fields (s : UdpKcp) (cap : ℕ) :
    (udpKcpRecv s cap).2.returned ++ (udpKcpRecv s cap).2.rx =
        (kcpUpdateSession s).returned ++ (kcpUpdateSession s).rx ∧
      (udpKcpRecv s cap).2.taken = (kcpUpdateSession s).taken ∧
      (udpKcpRecv s cap).2.rx.length ≤ (kcpUpdateSession s).rx.length := by
  unfold udpKcpRecv
  by_cases hempty : (kcpUpdateSession s).rx.length = 0
  · simp only [if_pos hempty]
    exact ⟨trivial, trivial, le_rfl⟩
  · simp only [if_neg hempty]
    refine ⟨?_, trivial, ?_⟩
    · rw [List.append_assoc, List.take_append_drop]
    · rw [List.length_drop]
      omega

/-- A step is an update, but for the place of the bytes. -/
theorem kcpStep_fields (s : UdpKcp) (step : KcpStep) :
    (kcpStep s step).returned ++ (kcpStep s step).rx =
        (kcpUpdateSession s).returned ++ (kcpUpdateSession s).rx ∧
      (kcpStep s step).taken = (kcpUpdateSession s).taken ∧
      (kcpStep s step).rx.length ≤ (kcpUpdateSession s).rx.length := by
  cases step with
  | update => exact ⟨rfl, rfl, le_rfl⟩
  | recv cap => exact udpKcpRecv_fields s cap

/-- Bytes are lost exactly if some update fills the buffer to its last byte. Otherwise
what the reader has got and what stands in the buffer are the messages taken from
the session, after every step. -/
theorem kcp_lossless_iff (coming : List (List UInt8)) (found : List Bool) (steps : List KcpStep) :
    Runs.Along kcpStep UdpKcp.Lossless ⟨[], coming, found, [], []⟩ steps ↔
      Runs.Meets kcpStep (fun s _ => ¬ s.Fills) ⟨[], coming, found, [], []⟩ steps := by
  refine Runs.along_iff_meets kcpStep
    (I := fun s => s.Lossless ∧ s.rx.length < bcKcpRxBufLen) (A := fun _ => True)
    (fun s h => h.1) ?_ ?_ ⟨rfl, by simp⟩ fun _ _ => trivial
  · rintro s step ⟨hlossless, hroom⟩ - hkeeps
    obtain ⟨hbytes, htaken, hle⟩ := kcpStep_fields s step
    cases kcpUpdateSession_drained hroom with
    | kept _ msgs hreturned' htaken' hrx' hroom' =>
      refine ⟨?_, hle.trans_lt hroom'⟩
      rw [UdpKcp.Lossless, hbytes, htaken, hreturned', htaken', hrx', ← List.append_assoc,
        hlossless, List.flatten_append]
    | lost hfills => exact absurd hfills hkeeps
  · rintro s step ⟨hlossless, hroom⟩ - hfills hafter
    obtain ⟨hbytes, htaken, -⟩ := kcpStep_fields s step
    cases kcpUpdateSession_drained hroom with
    | kept hkeeps => exact hfills hkeeps
    | lost _ msgs hreturned' htaken' hrx' hfull =>
      rw [UdpKcp.Lossless, hbytes, htaken, hreturned', htaken', hrx', List.flatten_append,
        ← hlossless, List.append_nil] at hafter
      have hlength := congrArg List.length hafter
      simp only [List.length_append] at hlength
      omega

/-- Three messages that fill the buffer. -/
def fillingMessages : List (List UInt8) :=
  [List.replicate 1530 0, List.replicate 1530 0, List.replicate 140 0]

theorem kcp_drops_full_buffer :
    (∀ msg ∈ fillingMessages, 37 ≤ msg.length ∧ msg.length ≤ 1530) ∧
      ¬ Runs.Along kcpStep UdpKcp.Lossless ⟨[], fillingMessages, [true, true, true], [], []⟩
        [.update] := by
  refine ⟨by decide +kernel, fun h => ?_⟩
  have hafter : UdpKcp.Lossless (kcpUpdateSession
      ⟨[], fillingMessages, [true, true, true], [], []⟩) := h [.update] List.prefix_rfl
  have hempty : (kcpUpdateSession ⟨[], fillingMessages, [true, true, true], [], []⟩).rx = [] ∧
      (kcpUpdateSession ⟨[], fillingMessages, [true, true, true], [], []⟩).returned = [] ∧
      (kcpUpdateSession ⟨[], fillingMessages, [true, true, true], [], []⟩).taken =
        fillingMessages := by
    decide +kernel
  rw [UdpKcp.Lossless, hempty.1, hempty.2.1, hempty.2.2] at hafter
  exact absurd hafter (by decide +kernel)

end Lossless

end BoardComm
