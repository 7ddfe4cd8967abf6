import BoardComm.ClientChunks
import BoardComm.ClientRoundTrip
import BoardComm.Runs

/-!
# What the daemon makes of the calls of a client

The frames of the builder are accepted one after the other. A control frame has no
topic, and the checks of the daemon refuse it.
-/
namespace BoardComm

/-- The call writes a control frame. -/
def SdkCall.IsControl : SdkCall → Prop
  | .enableShm => True
  | .contextEnableShm => True
  | .getStats => True
  | _ => False

instance : DecidablePred SdkCall.IsControl := fun c => by
  cases c <;> unfold SdkCall.IsControl <;> infer_instance

/-- A handle that was just connected. -/
def SdkHandle.fresh (foreign : Bool) : SdkHandle := ⟨foreign, false, [], []⟩

/-- The receive buffer of a client holds a window of the stream that starts with a frame
and may end anywhere. A whole frame at its head reaches the branch of its type, the client
is not closed for a malformed frame, and what is left in the buffer starts with a frame
again, so that it is a window of the stream with the bytes that are still to come. -/
structure Accepted {ν : Type*} (send : ℕ → List UInt8 → ν → BcStatus × ν)
    (frames : List (List UInt8)) : Prop where
  reached : ∀ before frame after, frames = before ++ frame :: after →
    ∀ (client : BcClient) part, part <+: after.flatten → client.rx = frame ++ part →
      ∃ d, headDispatch client = .ok d ∧ d.header.type = (IpcHeader.ofBytes frame).type
  kept : ∀ before after, frames = before ++ after →
    ∀ (m : ClientManager ν) env (client : BcClient) rest, DistinctFds m.clients →
      findClient m.clients client.fd = some client → client.rx ++ rest = after.flatten →
        (processMessages send env m client).1 ≠ .invalid ∧
        ∃ done todo c, after = done ++ todo ∧
          findClient (processMessages send env m client).2.clients client.fd = some c ∧
          c.rx ++ rest = todo.flatten

/-- A frame that is built for a call: it subscribes or publishes, and no byte of
its topic is zero. -/
structure IpcFrame.OfCall (f : IpcFrame) : Prop where
  type : f.type = bcIpcSubscribe ∨ f.type = bcIpcPublish
  version : f.version = bcIpcVersion
  topic : 0 ∉ f.topic

section Calls

variable {h : SdkHandle} {c : SdkCall × SdkAnswers}

/-- Without a session a message is one frame on the socket. -/
theorem sendIpcMessage_socket {answers : SdkAnswers} (hshm : h.shmReady = false) {type : UInt16}
    (htype : type = bcIpcSubscribe ∨ type = bcIpcPublish) {channel topic : Option (List UInt8)}
    {payload : List UInt8} {opts : Option BcPublishOpts}
    (hok : (sendIpcMessage answers h type channel topic payload opts).1 = .ok) :
    ∃ f : IpcFrame, f.OfCall ∧ (sendIpcMessage answers h type channel topic payload opts).2 =
      { h with written := h.written ++ [f.bytes] } := by
  unfold sendIpcMessage at hok ⊢
  cases hbuild : buildIpcFrame bcClientFrameMax type channel topic payload opts with
  | error rc =>
    rw [hbuild, buildIpcFrame_error hbuild] at hok
    cases hok
  | ok bytes =>
    obtain ⟨f, hf, rfl⟩ := exists_built hbuild
    obtain ⟨t, -, htopic⟩ := hf.topic
    have hready : ¬ h.shmReady = true := by simp [hshm]
    rw [hbuild] at hok
    simp only [if_neg hready] at hok ⊢
    refine ⟨f, ⟨by rw [hf.type]; exact htype, hf.version, ?_⟩, ?_⟩
    · rw [htopic]
      exact CBuffer.zero_not_mem_cstr t
    · cases hanswer : answers.writes.headD none with
      | none => rfl
      | some n =>
        rw [hanswer] at hok
        cases hok

/-- A call that is no control call writes one frame, and leaves the handle without a
session. -/
theorem call_frame (hshm : h.shmReady = false) (hcontrol : ¬ c.1.IsControl)
    (hok : (h.call c).1 = .ok) :
    ∃ f : IpcFrame, f.OfCall ∧ h.step c = { h with written := h.written ++ [f.bytes] } := by
  obtain ⟨call, answers⟩ := c
  cases call with
  | write topic payload => exact sendIpcMessage_socket hshm (.inr rfl) hok
  | writeEx channel topic payload opts => exact sendIpcMessage_socket hshm (.inr rfl) hok
  | subscribeFd topic => exact sendIpcMessage_socket hshm (.inl rfl) hok
  | enableShm => exact absurd trivial hcontrol
  | contextEnableShm => exact absurd trivial hcontrol
  | getStats => exact absurd trivial hcontrol

theorem sendControl_written {answers : SdkAnswers} {type : UInt16}
    (hok : (sendControl answers h type).1 = .ok) :
    (sendControl answers h type).2.written = h.written ++ [(controlHeader type).toBytes] := by
  unfold sendControl at hok ⊢
  cases hanswer : answers.writes.headD none with
  | none =>
    simp only [sdkWriteAll, ne_eq, not_true, if_false]
    cases answers.reply <;> rfl
  | some n =>
    rw [hanswer] at hok
    cases hok

/-- A control call writes a control frame. -/
theorem call_control (hcontrol : c.1.IsControl) (hok : (h.call c).1 = .ok) :
    ∃ type, (h.step c).written = h.written ++ [(controlHeader type).toBytes] := by
  obtain ⟨call, answers⟩ := c
  cases call with
  | write topic payload => exact absurd hcontrol id
  | writeEx channel topic payload opts => exact absurd hcontrol id
  | subscribeFd topic => exact absurd hcontrol id
  | enableShm =>
    refine ⟨bcIpcShmSetup, ?_⟩
    simp only [SdkHandle.step, SdkHandle.call, bcEnableShm] at hok ⊢
    split_ifs at hok ⊢ with hforeign hsent hattach
    · exact absurd hok hsent
    · exact sendControl_written (not_not.mp hsent)
  | contextEnableShm =>
    refine ⟨bcIpcShmSetup, ?_⟩
    simp only [SdkHandle.step, SdkHandle.call, bcContextEnableShm] at hok ⊢
    split_ifs at hok ⊢ with hsent hattach
    · exact absurd hok hsent
    · exact sendControl_written (not_not.mp hsent)
  | getStats => exact ⟨bcIpcStats, sendControl_written hok⟩

/-- What was written stays. -/
theorem sdkWriteAll_written (answer : Option ℕ) (h : SdkHandle) (data : List UInt8) :
    h.written <+: (sdkWriteAll answer h data).2.written := by
  cases answer <;> exact List.prefix_append _ _

theorem shmWriteLoop_written (frame : List UInt8) (rounds : ℕ) (ring : List BcStatus)
    (writes : List (Option ℕ)) (h : SdkHandle) :
    h.written <+: (shmWriteLoop frame rounds ring writes h).2.2.written := by
  induction rounds generalizing ring writes h with
  | zero => exact List.prefix_rfl
  | succ rounds ih =>
    unfold shmWriteLoop
    split
    · exact (sdkWriteAll_written _ h _).trans (ih _ _ _)
    · exact List.prefix_rfl
    · exact List.prefix_rfl

theorem sendIpcMessage_written (answers : SdkAnswers) (h : SdkHandle) (type : UInt16)
    (channel topic : Option (List UInt8)) (payload : List UInt8) (opts : Option BcPublishOpts) :
    h.written <+: (sendIpcMessage answers h type channel topic payload opts).2.written := by
  unfold sendIpcMessage
  cases buildIpcFrame bcClientFrameMax type channel topic payload opts with
  | error rc => exact List.prefix_rfl
  | ok frame =>
    simp only
    split_ifs
    · have hloop := shmWriteLoop_written frame 10000 answers.ring answers.writes h
      unfold shmWriteFrame
      split
      · next heq =>
        rw [heq] at hloop
        exact hloop.trans (sdkWriteAll_written _ _ _)
      · next heq =>
        rw [heq] at hloop
        exact hloop
    · exact sdkWriteAll_written _ h _

theorem sendControl_prefix (answers : SdkAnswers) (h : SdkHandle) (type : UInt16) :
    h.written <+: (sendControl answers h type).2.written := by
  have hsent := sdkWriteAll_written (answers.writes.headD none) h (controlHeader type).toBytes
  unfold sendControl
  simp only
  split_ifs <;> exact hsent

theorem step_written (h : SdkHandle) (c : SdkCall × SdkAnswers) :
    h.written <+: (h.step c).written := by
  obtain ⟨call, answers⟩ := c
  cases call with
  | write topic payload => exact sendIpcMessage_written _ _ _ _ _ _ _
  | writeEx channel topic payload opts => exact sendIpcMessage_written _ _ _ _ _ _ _
  | subscribeFd topic => exact sendIpcMessage_written _ _ _ _ _ _ _
  | enableShm =>
    have hsent := sendControl_prefix answers h bcIpcShmSetup
    simp only [SdkHandle.step, SdkHandle.call, bcEnableShm]
    split_ifs
    · exact List.prefix_rfl
    all_goals exact hsent
  | contextEnableShm =>
    have hsent := sendControl_prefix answers h bcIpcShmSetup
    simp only [SdkHandle.step, SdkHandle.call, bcContextEnableShm]
    split_ifs <;> exact hsent
  | getStats => exact sendControl_prefix answers h bcIpcStats

theorem run_written (h : SdkHandle) (calls : List (SdkCall × SdkAnswers)) :
    h.written <+: (Runs.run SdkHandle.step h calls).written := by
  induction calls generalizing h with
  | nil => exact List.prefix_rfl
  | cons c calls ih => exact (step_written h c).trans (ih _)

end Calls

section Frames

/-- The daemon dispatches nothing where a control frame stands. -/
theorem headDispatch_control {client : BcClient} (type : UInt16) {rest : List UInt8}
    (hrx : client.rx = (controlHeader type).toBytes ++ rest) :
    headDispatch client = .error .invalid := by
  have hheader : client.header = controlHeader type := by
    rw [BcClient.header, hrx, List.append_assoc, IpcHeader.ofBytes_toBytes_append]
  have hlen : client.rx.length = IpcHeader.size + rest.length := by
    rw [hrx, List.length_append, IpcHeader.toBytes_length]
  have hframe : client.header.frameLen = IpcHeader.size := by
    rw [hheader]
    rfl
  have hfits : ¬ client.header.Fits := by
    rw [hheader]
    intro hfits
    exact hfits.2.1 rfl
  have hmagic : client.header.magic = bcIpcMagic := by rw [hheader]; rfl
  unfold headDispatch
  rw [if_neg (by rw [hlen]; simp only [IpcHeader.size, IpcHeader.sizeV1]; omega),
    if_neg (not_not.mpr hmagic), if_neg (by rw [hlen, hframe]; omega), if_neg hfits]

variable {ν : Type*} {send : ℕ → List UInt8 → ν → BcStatus × ν} {env : ClientEnv}
  {m m' : ClientManager ν} {client : BcClient} {fd : ℤ}

/-- What is left of a window of a stream of frames is a window of it that starts with a
frame. -/
theorem Drains.frames {frames : List IpcFrame} {rest : List UInt8} (hfds : DistinctFds m.clients)
    (hclient : findClient m.clients fd = some client)
    (hrx : client.rx ++ rest = frames.flatMap IpcFrame.bytes) (h : Drains send env fd m m') :
    ∃ todo c, todo <:+ frames ∧ findClient m'.clients fd = some c ∧
      c.rx ++ rest = todo.flatMap IpcFrame.bytes := by
  induction h with
  | refl => exact ⟨frames, client, List.suffix_rfl, hclient, hrx⟩
  | @tail m₁ m₂ hdrains htake ih =>
    obtain ⟨todo, c, hsuffix, hc, hcrx⟩ := ih
    obtain ⟨c', d, hc', hd, -, -⟩ := takes_iff.mp htake
    obtain rfl : c = c' := by
      rw [hc] at hc'
      exact Option.some.inj hc'
    cases todo with
    | nil =>
      exfalso
      obtain ⟨f, more, hf, -⟩ := hasFrame_of_headDispatch hd
      have hempty : c.rx = [] := (List.append_eq_nil_iff.mp hcrx).1
      have hlen := congrArg List.length (hempty.symm.trans hf)
      have hpos := f.topic_pos
      simp only [List.length_nil, List.length_append, f.bytes_length] at hlen
      omega
    | cons f todo =>
      rw [List.flatMap_cons] at hcrx
      rcases headDispatch_window hcrx with ⟨tail, hwhole, htail⟩ | hwaits
      · obtain ⟨-, -, -, hframeLen⟩ := headDispatch_frame hwhole
        obtain ⟨c₂, hc₂, hc₂rx, -⟩ := htake.rest (Drains.frame hfds hdrains).1 hc
        refine ⟨todo, c₂, (List.suffix_cons f todo).trans hsuffix, hc₂, ?_⟩
        rw [hc₂rx, hframeLen, hwhole, List.drop_left]
        exact htail
      · rw [hd] at hwaits
        cases hwaits

/-- A transport that never answers `BC_ERR_INVALID` does not answer it to a proper
message: every piece of it can be encoded. -/
theorem networkAnswer_ne_invalid
    (hsend : ∀ transport data transports, (send transport data transports).1 ≠ .invalid)
    {msg : BcMessage} (h : msg.WellFormed) (transport : ℕ) (transports : ν) :
    networkAnswer send transport msg transports ≠ .invalid := by
  have hanswer : ∀ (piece : BcMessage), piece.WellFormed → ∀ transports,
      (answerTo send transport piece transports).1 ≠ .invalid := by
    intro piece hpiece transports
    obtain ⟨frame, hframe, -⟩ := bcProtocolEncode_of_wellFormed hpiece
    rw [answerTo, hframe]
    exact hsend _ _ _
  unfold networkAnswer
  simp only
  split_ifs
  · exact hanswer _ (fragmentPiece_wellFormed h 2 1) _
  · exact hanswer _ (fragmentPiece_wellFormed h 2 0) _
  · exact hanswer _ h _

theorem publishedMessage_wellFormed {f : IpcFrame} (hzero : 0 ∉ f.topic) :
    (publishedMessage f.header f.channel f.topic f.payload).WellFormed := by
  have hchannel := CBuffer.cstr_length_le f.channel
  have hchannelLt := f.channel_lt
  have htopic : CBuffer.cstr f.topic = f.topic := CBuffer.cstr_of_not_mem _ hzero
  have hlen := f.payload_le
  rw [← f.payloadLen_toNat] at hlen
  have hmsg : ∀ msg : BcMessage, msg.channel = .ofPrefix _ (CBuffer.cstr f.channel) →
      msg.topic = .ofPrefix _ (CBuffer.cstr f.topic) →
      msg.payloadLen = f.header.payloadLen.toNat → msg.WellFormed := by
    intro msg hc ht hp
    refine ⟨?_, ?_, ?_, hp ▸ hlen⟩
    · rw [CBuffer.Terminated, hc, CBuffer.str_ofPrefix (by omega), CBuffer.cstr_cstr]
      omega
    · rw [CBuffer.Terminated, ht, htopic, CBuffer.str_ofPrefix f.topic_lt, htopic]
      exact f.topic_lt
    · rw [ht, htopic, CBuffer.str_ofPrefix f.topic_lt, htopic]
      exact f.topic_ne
  unfold publishedMessage
  simp only
  split_ifs <;> exact hmsg _ rfl rfl rfl

/-- Subscribing is always well, and publishing asks the transports at most. -/
theorem not_answers_invalid
    (hsend : ∀ transport data transports, (send transport data transports).1 ≠ .invalid)
    {f : IpcFrame} (hf : f.OfCall) :
    ¬ f.dispatch.request.Answers send env m client .invalid := by
  obtain ⟨htype, -, hzero⟩ := hf
  have hwell := publishedMessage_wellFormed hzero
  rcases htype with htype | htype
  · have hrequest : f.dispatch.request = .subscribe (CBuffer.cstr f.topic) := if_pos htype
    rw [hrequest]
    exact id
  · have hrequest : f.dispatch.request =
        .publish (publishedMessage f.header f.channel f.topic f.payload) := by
      have hother : ¬ f.type = bcIpcSubscribe := by
        rw [htype]
        decide
      exact (if_neg hother).trans (if_pos htype)
    rw [hrequest]
    rintro ⟨-, ⟨hfound, -⟩ | ⟨-, -, transport, -, hanswer⟩⟩
    · cases hfound
    · refine networkAnswer_ne_invalid hsend ?_ transport _ hanswer
      unfold Attempt.stamped stampMessage
      split <;> exact ⟨hwell.channel, hwell.topic, hwell.topic_ne, hwell.payloadLen⟩

/-- At a window of the frames of calls `process_one_message` has no malformed frame. -/
theorem processOneMessage_ne_invalid
    (hsend : ∀ transport data transports, (send transport data transports).1 ≠ .invalid)
    {frames : List IpcFrame} (hframes : ∀ f ∈ frames, f.OfCall) {rest : List UInt8}
    (hrx : client.rx ++ rest = frames.flatMap IpcFrame.bytes) :
    (processOneMessage send env m client).1 ≠ .invalid := by
  have hwaiting : headDispatch client = .error .notFound →
      (processOneMessage send env m client).1 ≠ .invalid := by
    intro hwaits
    rw [processOneMessage_eq, hwaits]
    simp
  cases frames with
  | nil =>
    apply hwaiting
    rw [headDispatch_waits_iff, (List.append_eq_nil_iff.mp hrx).1]
    exact .inl (by decide)
  | cons f frames =>
    rw [List.flatMap_cons] at hrx
    rcases headDispatch_window hrx with ⟨tail, hwhole, -⟩ | hwaits
    · obtain ⟨d, hd, hsame, -⟩ := headDispatch_frame hwhole
      rw [processOneMessage_eq, hd]
      simp only
      split_ifs with hok
      · simp
      rw [Ne, handleDispatch_rc_iff send env m client (payloadLen_of_headDispatch hd) (by simp)
        (by simp), hsame.request]
      exact not_answers_invalid hsend (hframes f (by simp))
    · exact hwaiting hwaits

/-- The frames of calls never get a client closed for a malformed frame, wherever the
buffer ends, and the buffer goes on with a frame. -/
theorem processMessages_window
    (hsend : ∀ transport data transports, (send transport data transports).1 ≠ .invalid)
    {frames : List IpcFrame} (hframes : ∀ f ∈ frames, f.OfCall) {rest : List UInt8}
    (hfds : DistinctFds m.clients)
    (hclient : findClient m.clients client.fd = some client)
    (hrx : client.rx ++ rest = frames.flatMap IpcFrame.bytes) :
    (processMessages send env m client).1 ≠ .invalid ∧
      ∃ done todo c, frames = done ++ todo ∧
        findClient (processMessages send env m client).2.clients client.fd = some c ∧
        c.rx ++ rest = todo.flatMap IpcFrame.bytes := by
  obtain ⟨m', c, hdrains, hstop, hresult⟩ := processMessages_stops send env hfds hclient
  obtain ⟨todo, c', hsuffix, hc', hc'rx⟩ := Drains.frames hfds hclient hrx hdrains
  obtain rfl : c' = c := by
    have hfound := hstop.found
    rw [hc'] at hfound
    exact Option.some.inj hfound
  constructor
  · have hone : (processOneMessage send env m' c').1 ≠ .invalid :=
      processOneMessage_ne_invalid hsend (fun f hf => hframes f (hsuffix.subset hf)) hc'rx
    rw [hresult, stopResult]
    split_ifs <;> simp [hone]
  · obtain ⟨-, c, hc, hcrx, -⟩ := processMessages_of_stops hfds hclient hdrains hstop
    obtain ⟨done, rfl⟩ := hsuffix
    exact ⟨done, todo, c, rfl, hc, by rw [hcrx, hc'rx]⟩

/-- The frames of calls are accepted. -/
theorem accepted_of_frames
    (hsend : ∀ transport data transports, (send transport data transports).1 ≠ .invalid)
    {frames : List IpcFrame} (hframes : ∀ f ∈ frames, f.OfCall) :
    Accepted send (frames.map IpcFrame.bytes) := by
  constructor
  · intro before frame after hsplit client part hpart hrx
    have hmem : frame ∈ frames.map IpcFrame.bytes := by rw [hsplit]; simp
    obtain ⟨f, -, rfl⟩ := List.mem_map.mp hmem
    obtain ⟨d, hd, hsame, -⟩ := headDispatch_frame hrx
    have hread := (f.ofBytes_bytes []).1.type
    rw [List.append_nil] at hread
    exact ⟨d, hd, hsame.agrees.type.trans hread.symm⟩
  · intro before after hsplit m env client rest hfds hclient hrx
    obtain ⟨first, last, rfl, rfl, rfl⟩ := List.map_eq_append_iff.mp hsplit
    obtain ⟨hkept, done, todo, c, rfl, hc, hcrx⟩ :=
      processMessages_window hsend (fun f hf => hframes f (List.mem_append_right _ hf)) hfds
        hclient (hrx.trans (List.flatMap_def ..).symm)
    exact ⟨hkept, done.map IpcFrame.bytes, todo.map IpcFrame.bytes, c, List.map_append, hc,
      hcrx.trans (List.flatMap_def ..)⟩

end Frames

/-- The calls succeed one after the other. -/
def Succeed (h : SdkHandle) (calls : List (SdkCall × SdkAnswers)) : Prop :=
  Runs.Meets SdkHandle.step (fun h c => (h.call c).1 = .ok) h calls

/-- Without a control call, what is written is the frames of the calls. -/
theorem written_of_calls {h : SdkHandle} {calls : List (SdkCall × SdkAnswers)}
    (hshm : h.shmReady = false) (hok : Succeed h calls) (hcontrol : ∀ c ∈ calls, ¬ c.1.IsControl) :
    ∃ frames : List IpcFrame, (∀ f ∈ frames, f.OfCall) ∧
      (Runs.run SdkHandle.step h calls).written = h.written ++ frames.map IpcFrame.bytes := by
  induction calls generalizing h with
  | nil => exact ⟨[], by simp, by simp⟩
  | cons c calls ih =>
    obtain ⟨hfirst, hrest⟩ := (Runs.meets_cons SdkHandle.step).mp hok
    obtain ⟨f, hf, hstep⟩ := call_frame hshm (hcontrol c (by simp)) hfirst
    have hnext : (h.step c).shmReady = false := by rw [hstep]; exact hshm
    obtain ⟨frames, hframes, hwritten⟩ :=
      ih hnext hrest fun c hc => hcontrol c (List.mem_cons_of_mem _ hc)
    refine ⟨f :: frames, ?_, ?_⟩
    · intro g hg
      rcases List.mem_cons.mp hg with rfl | hg
      · exact hf
      · exact hframes g hg
    · rw [Runs.run_cons, hwritten, hstep]
      simp

/-- A control call leaves its frame in what is written. -/
theorem control_written {h : SdkHandle} {calls : List (SdkCall × SdkAnswers)}
    (hok : Succeed h calls) {c : SdkCall × SdkAnswers} (hc : c ∈ calls) (hcontrol : c.1.IsControl) :
    ∃ type, (controlHeader type).toBytes ∈ (Runs.run SdkHandle.step h calls).written := by
  induction calls generalizing h with
  | nil => cases hc
  | cons first calls ih =>
    obtain ⟨hfirst, hrest⟩ := (Runs.meets_cons SdkHandle.step).mp hok
    rcases List.mem_cons.mp hc with rfl | hc
    · obtain ⟨type, hwritten⟩ := call_control hcontrol hfirst
      refine ⟨type, (run_written _ calls).subset ?_⟩
      rw [hwritten]
      simp
    · exact ih hrest hc

/-- A client subscribes, publishes with and without a channel, and subscribes again, and
everything it asks of the system succeeds. -/
def plainCalls : List (SdkCall × SdkAnswers) :=
  [.subscribeFd (some [116]), .writeEx (some [99]) (some [116]) [1] (some ⟨0, 1, 0⟩),
    .write (some [116, 47, 117]) [5, 6, 7], .subscribeFd (some [117, 47, 35])].map
      fun call => (call, ⟨[], [], true, true⟩)

/-- A client that asks for the counters, and gets its answer. -/
def statsCalls : List (SdkCall × SdkAnswers) := [(.getStats, ⟨[], [], true, true⟩)]

end BoardComm
