import BoardComm.ClientTurns

/-!
# What is left in a receive buffer

A call of `process_messages` returns success when it finds no whole frame, but
also when the bus answers a publish with `BC_ERR_NOT_FOUND`: that frame stays.
Nor is a header outside the limits rejected before the bytes that it announces
are there.
-/
namespace BoardComm

variable {ν : Type*} {send : ℕ → List UInt8 → ν → BcStatus × ν} {env : ClientEnv}
  {m m' : ClientManager ν} {client : BcClient} {fd : ℤ}

section Refused

/-- The frame at the head is a publish that the bus answers with `BC_ERR_NOT_FOUND`. -/
def RefusedHead (send : ℕ → List UInt8 → ν → BcStatus × ν) (env : ClientEnv) (fd : ℤ)
    (m : ClientManager ν) : Prop :=
  ∃ client d msg, findClient m.clients fd = some client ∧ headDispatch client = .ok d ∧
    d.request = .publish msg ∧ (attemptOf send env m client msg).Answers send .notFound

/-- A frame for which the bus answers `BC_ERR_NOT_FOUND` is a publish. -/
theorem refusedHead_iff {d : Dispatch} (hclient : findClient m.clients fd = some client)
    (hd : headDispatch client = .ok d) :
    RefusedHead send env fd m ↔ (handleDispatch send env m client d).1 = .notFound := by
  rw [handleDispatch_rc_iff send env m client (payloadLen_of_headDispatch hd) (by simp) (by simp)]
  constructor
  · rintro ⟨client', d', msg, hclient', hd', hrequest, hanswers⟩
    obtain rfl : client' = client := by
      rw [hclient'] at hclient
      exact Option.some.inj hclient
    obtain rfl : d' = d := by
      rw [hd'] at hd
      exact Except.ok.inj hd
    rw [hrequest]
    exact hanswers
  · intro hanswers
    cases hrequest : d.request with
    | publish msg =>
      rw [hrequest] at hanswers
      exact ⟨client, d, msg, hclient, hd, hrequest, hanswers⟩
    | stats | setup =>
      rw [hrequest] at hanswers
      cases hanswers.1
    | subscribe topic | kick =>
      rw [hrequest] at hanswers
      exact hanswers.elim
    | unknown =>
      rw [hrequest] at hanswers
      cases hanswers

/-- The loop stops at a frame that is refused. -/
theorem RefusedHead.stops (h : RefusedHead send env fd m) :
    ∃ client d, Stops send env fd m client ∧ headDispatch client = .ok d ∧
      processOneMessage send env m client =
        (.notFound, (handleDispatch send env m client d).2) := by
  obtain ⟨client, d, msg, hclient, hd, hrequest, hanswers⟩ := h
  have hrc : (handleDispatch send env m client d).1 = .notFound :=
    (refusedHead_iff hclient hd).mp ⟨client, d, msg, hclient, hd, hrequest, hanswers⟩
  have hone : processOneMessage send env m client =
      (.notFound, (handleDispatch send env m client d).2) := by
    rw [processOneMessage_eq, hd]
    dsimp only
    rw [if_neg (by simp [hrc]), ← hrc]
  exact ⟨client, d, ⟨hclient, by simp [hone]⟩, hd, hone⟩

/-- The loop stops at the refused frame and reports success. -/
theorem RefusedHead.result (h : RefusedHead send env client.fd m')
    (hfds : DistinctFds m.clients) (hclient : findClient m.clients client.fd = some client)
    (hdrains : Drains send env client.fd m m') :
    (processMessages send env m client).1 = .ok ∧
      ∃ c, findClient (processMessages send env m client).2.clients client.fd = some c ∧
        HasFrame c.rx := by
  obtain ⟨c, d, hstop, hd, hone⟩ := h.stops
  obtain ⟨hresult, c', hc', hrx, -⟩ := processMessages_of_stops hfds hclient hdrains hstop
  refine ⟨?_, c', hc', ?_⟩
  · rw [hresult, hone]
    rfl
  · rw [hrx, hasFrame_iff]
    exact ⟨d, hd⟩

/-- A call of `process_messages` deals with the whole frames that it finds. -/
structure NeverBlocked (m : ClientManager ν) (fd : ℤ) (r : BcStatus × ClientManager ν) :
    Prop where
  head : r.1 = .ok → ∀ client, findClient r.2.clients fd = some client → ¬ HasFrame client.rx
  left : ∀ client, findClient (closeOnError fd r).clients fd = some client →
    HasFrame client.rx → r.1 = .nomem
  refused : ∀ a ∈ r.2.history.drop m.history.length, a.result.rc = .notFound →
    ∀ client, findClient r.2.clients fd = some client → a.offset < client.consumed

/-- Whole frames are dealt with exactly when no frame that comes to the head is a
publish that the bus refuses. -/
theorem whole_frame_never_blocks (send : ℕ → List UInt8 → ν → BcStatus × ν) (env : ClientEnv)
    (m : ClientManager ν) (client : BcClient) (hfds : DistinctFds m.clients)
    (hclient : findClient m.clients client.fd = some client) :
    NeverBlocked m client.fd (processMessages send env m client) ↔
      ∀ m', Drains send env client.fd m m' → ¬ RefusedHead send env client.fd m' := by
  constructor
  · intro hnever m' hdrains hrefused
    obtain ⟨hok, c, hc, hframe⟩ := hrefused.result hfds hclient hdrains
    exact hnever.head hok c hc hframe
  · intro hnone
    obtain ⟨m', c, hdrains, hstop, -⟩ :=
      processMessages_stops send env hfds hclient
    obtain ⟨hresult, c', hc', hrx, -⟩ := processMessages_of_stops hfds hclient hdrains hstop
    rw [hresult] at hc' ⊢
    have hnot : ∀ d, headDispatch c = .ok d →
        (handleDispatch send env m' c d).1 ≠ .notFound := by
      intro d hd hrc
      exact hnone m' hdrains ((refusedHead_iff hstop.found hd).mpr hrc)
    have hhead : (stopResult (processOneMessage send env m' c)).1 = .ok → ¬ HasFrame c'.rx := by
      rw [hrx, hasFrame_iff]
      rintro hok ⟨d, hd⟩
      rcases hstop.cases with ⟨rc, hrc, -⟩ | ⟨d', hd', herr, hone⟩
      · rw [hd] at hrc
        cases hrc
      · rw [stopResult, hone, if_neg (hnot d' hd')] at hok
        exact herr hok
    have hfound : ∀ c₁, findClient (stopResult (processOneMessage send env m' c)).2.clients
        client.fd = some c₁ → c₁ = c' := by
      intro c₁ hc₁
      exact Option.some.inj (hc₁.symm.trans hc')
    refine ⟨fun hok c₁ hc₁ => ?_, fun c₁ hc₁ hframe => ?_, fun a ha hrc c₁ hc₁ => ?_⟩
    · rw [hfound c₁ hc₁]
      exact hhead hok
    · by_cases hok : (stopResult (processOneMessage send env m' c)).1 = .ok
      · rw [closeOnError_kept (.inl hok)] at hc₁
        rw [hfound c₁ hc₁] at hframe
        exact absurd hframe (hhead hok)
      · by_contra hnomem
        rw [closeOnError_closed hok hnomem, findClient_closeClient] at hc₁
        cases hc₁
    · -- the attempts before the last have succeeded, and the last is not refused
      exfalso
      obtain ⟨new, hhistory, hnew⟩ := hdrains.history
      have hlast : ∀ last : List (Attempt ν), (processOneMessage send env m' c).2.history =
          m'.history ++ last → a ∈ new ++ last := by
        intro last hlast
        rw [stopResult, hlast, hhistory, List.append_assoc, List.drop_left] at ha
        exact ha
      have hold : a ∉ new := fun hmem => by
        rw [hnew a hmem] at hrc
        cases hrc
      rcases hstop.cases with ⟨rc, -, hone⟩ | ⟨d, hd, -, hone⟩
      · have hmem := hlast [] (by rw [hone, List.append_nil])
        rw [List.append_nil] at hmem
        exact hold hmem
      · rcases handleDispatch_history send env m' c d with
          ⟨msg, -, hafter, hmsg⟩ | ⟨hsame, -, -⟩
        · have hmem := hlast [attemptOf send env m' c msg] (by rw [hone, hafter])
          rcases List.mem_append.mp hmem with hmem | hmem
          · exact hold hmem
          · rw [List.mem_singleton.mp hmem, ← hmsg] at hrc
            exact hnot d hd hrc
        · have hmem := hlast [] (by rw [hone, hsame, List.append_nil])
          rw [List.append_nil] at hmem
          exact hold hmem

/-- A bus that demands a route and has none. -/
def refusingBus : MessageBus :=
  { subscriptions := [⟨5, tTopic⟩], router := ⟨[], [], []⟩, nodeId := 1, nextSeq := 0,
    requireRoute := true, bridgeBroadcast := true, stats := bcStatsReset }

def refusedClient : BcClient := ⟨4, tFrame.bytes, [], 0, [], none, 0⟩

def refusingManager : ClientManager Unit :=
  ⟨[refusedClient, ⟨5, [], [], 0, [], none, 0⟩], refusingBus, (), []⟩

theorem whole_frame_never_blocks_refusing :
    NeverBlocked refusingManager 4
        (processMessages noSend quietEnv refusingManager refusedClient) ↔
      ∀ m', Drains noSend quietEnv 4 refusingManager m' →
        ¬ RefusedHead noSend quietEnv 4 m' :=
  whole_frame_never_blocks noSend quietEnv refusingManager refusedClient
    (by simp [DistinctFds, refusingManager, refusedClient]) (by decide)

/-- The refused publish stays, and the subscriber gets it again with the next read. -/
theorem refused_frame_blocks :
    ¬ NeverBlocked refusingManager 4
        (processMessages noSend quietEnv refusingManager refusedClient) ∧
      streamOf (processMessages noSend quietEnv
          (processMessages noSend quietEnv refusingManager refusedClient).2
          refusedClient).2.clients 5 = some (tDeliver ++ tDeliver) := by
  constructor
  · intro hnever
    have hok : (processMessages noSend quietEnv refusingManager refusedClient).1 = .ok := by
      decide +kernel
    have hclient : findClient (processMessages noSend quietEnv refusingManager
        refusedClient).2.clients 4 = some refusedClient := by
      decide +kernel
    exact hnever.head hok refusedClient hclient ⟨tFrame, [], by decide +kernel⟩
  · decide +kernel

end Refused

section Limits

/-- The header at the head is there. -/
def HeaderComplete (rx : List UInt8) : Prop :=
  bcIpcHeaderSize (IpcHeader.ofBytes rx).version ≤ rx.length

/-- The bytes wait for the rest of a frame within the limits, or of its header. -/
def Awaits (rx : List UInt8) : Prop :=
  HeaderComplete rx → (IpcHeader.ofBytes rx).magic = bcIpcMagic ∧ (IpcHeader.ofBytes rx).Fits ∧
    rx.length < (IpcHeader.ofBytes rx).frameLen

/-- The header at the head is outside the limits, and the bytes that it announces
are not there. -/
def Overlong (rx : List UInt8) : Prop :=
  HeaderComplete rx ∧ (IpcHeader.ofBytes rx).magic = bcIpcMagic ∧
    ¬ (IpcHeader.ofBytes rx).Fits ∧ rx.length < (IpcHeader.ofBytes rx).frameLen

theorem Awaits.length_lt {rx : List UInt8} (h : Awaits rx) : rx.length < bcClientFrameMax := by
  by_cases hcomplete : HeaderComplete rx
  · obtain ⟨-, hfits, hlt⟩ := h hcomplete
    exact hlt.trans_le hfits.frameLen_le
  · have hsize : bcIpcHeaderSize (IpcHeader.ofBytes rx).version ≤ IpcHeader.size := by
      unfold bcIpcHeaderSize
      split
      · exact le_refl _
      · decide
    exact (Nat.lt_of_not_le hcomplete).trans_le (hsize.trans (by decide))

/-- Without a frame to dispatch, the bytes are waited for unless they are overlong. -/
theorem awaits_iff (h : headDispatch client = .error .notFound) :
    Awaits client.rx ↔ ¬ Overlong client.rx := by
  rcases headDispatch_waits_iff.mp h with hshort | ⟨hmagic, hlen⟩
  · have hnot : ¬ HeaderComplete client.rx := by
      intro hcomplete
      exact absurd ((sizeV1_le_bcIpcHeaderSize _).trans hcomplete) (Nat.not_le.mpr hshort)
    exact iff_of_true (fun hcomplete => absurd hcomplete hnot) fun h => hnot h.1
  · unfold Awaits Overlong
    constructor
    · rintro hawaits ⟨hcomplete, -, hnot, -⟩
      exact hnot (hawaits hcomplete).2.1
    · intro hnot hcomplete
      refine ⟨hmagic, ?_, hlen⟩
      by_contra hfits
      exact hnot ⟨hcomplete, hmagic, hfits, hlen⟩

/-- A whole frame is not waited for. -/
theorem not_awaits_of_hasFrame (h : HasFrame client.rx) : ¬ Awaits client.rx := by
  intro hawaits
  obtain ⟨d, hd⟩ := hasFrame_iff.mp h
  have hlen := frameLen_le_of_headDispatch hd
  have hlong := client.header.sizeV1_le_frameLen.trans hlen
  have hagrees := header_agrees hlong
  rw [hagrees.frameLen] at hlen
  have hcomplete : HeaderComplete client.rx := by
    refine Nat.le_trans ?_ hlen
    unfold IpcHeader.frameLen IpcHeader.total
    omega
  exact absurd hlen (Nat.not_le.mpr (hawaits hcomplete).2.2)

/-- The bytes at the head are overlong. -/
def OverlongHead (fd : ℤ) (m : ClientManager ν) : Prop :=
  ∃ client, findClient m.clients fd = some client ∧ Overlong client.rx

theorem Overlong.headDispatch (h : Overlong client.rx) :
    headDispatch client = .error .notFound :=
  headDispatch_waits_iff.mpr (.inr ⟨h.2.1, h.2.2.2⟩)

/-- After a successful call the receive buffer waits exactly when no overlong header
and no refused publish comes to the head. -/
theorem processMessages_awaits_iff (hfds : DistinctFds m.clients)
    (hclient : findClient m.clients client.fd = some client) :
    ((processMessages send env m client).1 = .ok → ∀ c,
        findClient (processMessages send env m client).2.clients client.fd = some c →
          Awaits c.rx) ↔
      ∀ m', Drains send env client.fd m m' →
        ¬ OverlongHead client.fd m' ∧ ¬ RefusedHead send env client.fd m' := by
  constructor
  · intro hawaits m' hdrains
    constructor
    · rintro ⟨c, hc, hlong⟩
      have hd : headDispatch c = .error .notFound := hlong.headDispatch
      have hone := processOneMessage_eq send env m' c
      rw [hd] at hone
      have hstop : Stops send env client.fd m' c := ⟨hc, by simp [hone]⟩
      obtain ⟨hresult, c', hc', hrx, -⟩ := processMessages_of_stops hfds hclient hdrains hstop
      have hok : (processMessages send env m client).1 = .ok := by
        rw [hresult, hone]
        rfl
      have hwaits := hawaits hok c' hc'
      rw [hrx] at hwaits
      exact (awaits_iff hd).mp hwaits hlong
    · intro hrefused
      obtain ⟨hok, c, hc, hframe⟩ := hrefused.result hfds hclient hdrains
      exact not_awaits_of_hasFrame hframe (hawaits hok c hc)
  · intro hclean hok c₁ hc₁
    obtain ⟨m', c, hdrains, hstop, -⟩ :=
      processMessages_stops send env hfds hclient
    obtain ⟨hresult, c', hc', hrx, -⟩ := processMessages_of_stops hfds hclient hdrains hstop
    obtain ⟨hlong, hrefused⟩ := hclean m' hdrains
    obtain rfl : c₁ = c' := Option.some.inj (hc₁.symm.trans hc')
    rw [hresult] at hok
    rw [hrx]
    rcases hstop.cases with ⟨rc, hd, hone⟩ | ⟨d, hd, herr, hone⟩
    · rw [stopResult, hone] at hok
      have hrc : rc = .notFound := by
        by_contra hne
        rw [if_neg hne] at hok
        exact hstop.stops (by rw [hone]; exact hok)
      rw [hrc] at hd
      exact (awaits_iff hd).mpr fun h => hlong ⟨c, hstop.found, h⟩
    · rw [stopResult, hone] at hok
      have hnot : (handleDispatch send env m' c d).1 ≠ .notFound := fun hrc =>
        hrefused ((refusedHead_iff hstop.found hd).mpr hrc)
      rw [if_neg hnot] at hok
      exact absurd hok herr

end Limits

section Bounded

/-- No overlong header and no refused publish comes to the head in a call of
`process_messages`. -/
def CleanCall (send : ℕ → List UInt8 → ν → BcStatus × ν) (env : ClientEnv) (fd : ℤ)
    (m : ClientManager ν) : Prop :=
  ∀ m', Drains send env fd m m' → ¬ OverlongHead fd m' ∧ ¬ RefusedHead send env fd m'

/-- A turn with a clean call, if it makes one. -/
def Turn.Clean (send : ℕ → List UInt8 → ν → BcStatus × ν) (m : ClientManager ν) : Turn → Prop
  | .resume fd env => CleanCall send env fd m
  | .read fd env data => ∀ client, findClient m.clients fd = some client →
      CleanCall send env fd (appendRx m fd (client.taken data))
  | .ring _ _ _ _ | .flush _ _ _ | .close _ | .deliver _ _ _ => True

/-- A whole frame that is left in place: its publish met backpressure. -/
def HeldBack (m : ClientManager ν) (client : BcClient) : Prop :=
  HasFrame client.rx ∧ ∃ a ∈ m.history, a.publisher = client.fd ∧ a.offset = client.consumed ∧
    a.result.rc = .nomem

/-- Outside backpressure every receive buffer waits for the rest of one frame. -/
structure ClientManager.Bounded (m : ClientManager ν) : Prop where
  distinct : DistinctFds m.clients
  buffers : ∀ client ∈ m.clients, Awaits client.rx ∨ HeldBack m client

theorem mem_others {c : BcClient} (h : others fd m' = others fd m) (hc : c ∈ m'.clients)
    (hfd : c.fd ≠ fd) : ∃ d ∈ m.clients, d.fd = c.fd ∧ d.rx = c.rx ∧ d.consumed = c.consumed := by
  have hmem : (c.fd, c.rx, c.consumed) ∈ others fd m' := by
    refine List.mem_filter.mpr ⟨List.mem_map_of_mem hc, ?_⟩
    simpa using hfd
  rw [h] at hmem
  obtain ⟨d, hd, heq⟩ := List.mem_map.mp (List.mem_filter.mp hmem).1
  simp only [Prod.mk.injEq] at heq
  exact ⟨d, hd, heq⟩

/-- A client that is as it was is bounded as it was. -/
theorem bounded_client {c d : BcClient} (hhistory : m.history ⊆ m'.history)
    (h : Awaits d.rx ∨ HeldBack m d) (hfd : d.fd = c.fd) (hrx : d.rx = c.rx)
    (hconsumed : d.consumed = c.consumed) : Awaits c.rx ∨ HeldBack m' c := by
  unfold HeldBack at h ⊢
  rw [hfd, hrx, hconsumed] at h
  rcases h with h | ⟨hframe, a, ha, hattempt⟩
  · exact .inl h
  · exact .inr ⟨hframe, a, hhistory ha, hattempt⟩

theorem ClientManager.Bounded.of_identities (h : m.Bounded)
    (hsame : identities m'.clients = identities m.clients) (hhistory : m.history ⊆ m'.history) :
    m'.Bounded := by
  refine ⟨h.distinct.of_identities hsame, fun c hc => ?_⟩
  obtain ⟨d, hd, hfd, hrx, hconsumed⟩ := mem_identities hsame hc
  exact bounded_client hhistory (h.buffers d hd) hfd hrx hconsumed

theorem ClientManager.Bounded.closeClient (h : m.Bounded) (fd : ℤ) :
    (closeClient m fd).Bounded :=
  ⟨distinctFds_closeClient h.distinct fd, fun c hc => h.buffers c (List.mem_filter.mp hc).1⟩

/-- The other clients stay bounded when one is made so. -/
theorem ClientManager.Bounded.of_others (h : m.Bounded) (fd : ℤ) (hfds : DistinctFds m'.clients)
    (hothers : others fd m' = others fd m) (hhistory : m.history ⊆ m'.history)
    (hown : ∀ c, findClient m'.clients fd = some c → Awaits c.rx ∨ HeldBack m' c) :
    m'.Bounded := by
  refine ⟨hfds, fun c hc => ?_⟩
  by_cases hfd : c.fd = fd
  · apply hown
    rw [← hfd]
    exact findClient_of_mem hfds hc
  · obtain ⟨d, hd, hdfd, hrx, hconsumed⟩ := mem_others hothers hc hfd
    exact bounded_client hhistory (h.buffers d hd) hdfd hrx hconsumed

/-- Backpressure leaves the frame of a publish, and its attempt in the history. -/
theorem processMessages_heldBack (hfds : DistinctFds m.clients)
    (hclient : findClient m.clients client.fd = some client)
    (hnomem : (processMessages send env m client).1 = .nomem) {c : BcClient}
    (hc : findClient (processMessages send env m client).2.clients client.fd = some c) :
    HeldBack (processMessages send env m client).2 c := by
  obtain ⟨m', c', hdrains, hstop, -⟩ :=
    processMessages_stops send env hfds hclient
  obtain ⟨hresult, c₁, hc₁, hrx, hconsumed⟩ :=
    processMessages_of_stops hfds hclient hdrains hstop
  obtain rfl : c = c₁ := Option.some.inj (hc.symm.trans hc₁)
  have hfd : c'.fd = c.fd := (findClient_some hstop.found).2.trans (findClient_some hc).2.symm
  rw [hresult, stopResult] at hnomem
  rw [hresult, stopResult]
  rcases hstop.cases with ⟨rc, hd, hone⟩ | ⟨d, hd, -, hone⟩
  · -- the checks do not answer so
    rw [hone] at hnomem
    unfold headDispatch at hd
    split_ifs at hd <;> cases hd <;> simp at hnomem
  · rw [hone] at hnomem ⊢
    have hrc : (handleDispatch send env m' c' d).1 = .nomem := by
      by_contra hne
      split at hnomem
      · cases hnomem
      · exact hne hnomem
    rcases handleDispatch_history send env m' c' d with
      ⟨msg, -, hlast, hmsg⟩ | ⟨-, hnot, -⟩
    · refine ⟨by rw [hrx]; exact hasFrame_iff.mpr ⟨d, hd⟩, attemptOf send env m' c' msg, ?_,
        hfd, hconsumed.symm, hmsg.symm.trans hrc⟩
      change _ ∈ (handleDispatch send env m' c' d).2.history
      rw [hlast]
      simp
    · exact absurd hrc hnot

variable (client) in
/-- A clean call bounds the client that it is about, or closes it. -/
theorem closeOnError_bounded {m₀ : ClientManager ν} (h : m₀.Bounded)
    (hfds : DistinctFds m.clients) (hothers : others client.fd m = others client.fd m₀)
    (hhistory : m.history = m₀.history)
    (hclient : findClient m.clients client.fd = some client)
    (hclean : CleanCall send env client.fd m) :
    (closeOnError client.fd (processMessages send env m client)).Bounded := by
  obtain ⟨hfds', hothers', hhistory'⟩ := processMessages_frame send env _ hfds
    hclient
  rw [hhistory] at hhistory'
  by_cases hok : (processMessages send env m client).1 = .ok
  · rw [closeOnError_kept (.inl hok)]
    refine h.of_others client.fd hfds' (hothers'.trans hothers) hhistory' fun c hc => .inl ?_
    exact (processMessages_awaits_iff hfds hclient).mpr hclean hok c hc
  by_cases hnomem : (processMessages send env m client).1 = .nomem
  · rw [closeOnError_kept (.inr hnomem)]
    refine h.of_others client.fd hfds' (hothers'.trans hothers) hhistory' fun c hc => .inr ?_
    exact processMessages_heldBack hfds hclient hnomem hc
  · rw [closeOnError_closed hok hnomem]
    refine h.of_others client.fd (distinctFds_closeClient hfds' client.fd)
      ((others_closeClient _ _).trans (hothers'.trans hothers)) hhistory' fun c hc => ?_
    rw [findClient_closeClient] at hc
    cases hc

theorem turn_bounded (t : Turn) (h : m.Bounded) (hclean : t.Clean send m) :
    (m.turn send t).Bounded := by
  cases t with
  | resume fd env =>
    change (resumeClient send env m fd).Bounded
    unfold resumeClient
    cases hclient : findClient m.clients fd with
    | none => exact h
    | some client =>
      obtain rfl := (findClient_some hclient).2
      dsimp only
      split
      · exact h
      · exact closeOnError_bounded _ h h.distinct rfl rfl hclient hclean
  | read fd env data =>
    simp only [ClientManager.turn]
    cases hclient : findClient m.clients fd with
    | none => exact h
    | some client =>
      obtain rfl := (findClient_some hclient).2
      obtain ⟨hfds, hothers⟩ := appendRx_frame h.distinct client.fd (client.taken data)
      exact closeOnError_bounded (client.addRx (client.taken data)) h hfds hothers rfl
        (findClient_appendRx hclient _) (hclean client hclient)
  | ring fd env data stale =>
    simp only [ClientManager.turn]
    cases hclient : findClient m.clients fd with
    | none => exact h
    | some client =>
      obtain rfl := (findClient_some hclient).2
      have hhandled := processFrameBuffer_handled send env h.distinct hclient (data ++ stale)
        data.length
      have hkept := h.of_identities hhandled.identities hhandled.history_subset
      dsimp only
      unfold closeOnError
      split
      · exact hkept
      · exact hkept.closeClient client.fd
  | flush fd watch writes =>
    simp only [ClientManager.turn]
    cases hclient : findClient m.clients fd with
    | none => exact h
    | some client =>
      obtain ⟨hfd, hrx, hconsumed, -⟩ := flushClientTx_identity watch writes client
      have hkept : ({ m with clients := setClient m.clients (flushClientTx watch writes client).2 } :
          ClientManager ν).Bounded :=
        h.of_identities (identities_setClient h.distinct hclient hfd hrx hconsumed)
          (List.Subset.refl _)
      dsimp only
      split
      · exact hkept.closeClient fd
      · exact hkept
  | close fd => exact h.closeClient fd
  | deliver fd watch data =>
    exact h.of_identities (identities_deliverToClient h.distinct watch fd data)
      (List.Subset.refl _)

/-- Distinct clients that have sent nothing yet. -/
structure ClientManager.Connected (m : ClientManager ν) : Prop where
  distinct : DistinctFds m.clients
  empty : ∀ client ∈ m.clients, client.rx = []

/-- When all its turns are clean, a run keeps every receive buffer outside backpressure
below the size of a frame, so that reading does not stop at a full buffer. -/
theorem receive_buffers_bounded (send : ℕ → List UInt8 → ν → BcStatus × ν) (m : ClientManager ν)
    (events : List ManagerEvent) (hstart : m.Connected)
    (hclean : Runs.Meets (ClientManager.turn send) (Turn.Clean send) m (runTurns send m events)) :
    Runs.Along (ClientManager.turn send) (fun m => ∀ client ∈ m.clients, HeldBack m client ∨
      Awaits client.rx ∧ client.rx.length < bcClientFrameMax ∧ client.rx.length < bcClientRxCap)
      m (runTurns send m events) := by
  have hstart' : m.Bounded := by
    refine ⟨hstart.distinct, fun client hclient => .inl fun hcomplete => ?_⟩
    rw [hstart.empty client hclient] at hcomplete
    exact absurd (Nat.le_zero.mp hcomplete) (by decide)
  have hbounded := Runs.along_of_meets (ClientManager.turn send) (A := fun _ => True)
    (fun m t h _ hclean => turn_bounded t h hclean) hstart' (fun _ _ => trivial) hclean
  intro pre hpre client hclient
  rcases (hbounded pre hpre).buffers client hclient with hawaits | hheld
  · have hlen := hawaits.length_lt
    exact .inr ⟨hawaits, hlen, hlen.trans (by decide)⟩
  · exact .inl hheld

/-- A call is clean if what it leaves in the buffer waits for the rest of a frame. -/
theorem cleanCall_of_left (rx : List UInt8) (hfds : DistinctFds m.clients)
    (hclient : findClient m.clients fd = some client)
    (hleft : (findClient (processMessages send env m client).2.clients fd).map (·.rx) = some rx)
    (hawaits : Awaits rx) : CleanCall send env fd m := by
  obtain rfl := (findClient_some hclient).2
  apply (processMessages_awaits_iff hfds hclient).mp
  intro _ c hc
  rw [hc, Option.map_some] at hleft
  rw [Option.some.inj hleft]
  exact hawaits

/-- A frame and the header of the next arrive in one read, the rest of that in another. -/
def splitClientEvents : List ManagerEvent :=
  [tFrame.bytes ++ tFrame.bytes.take 28, tFrame.bytes.drop 28].map fun data =>
    .client 4 ⟨true, false, false, false⟩ quietEnv [] [.bytes data, .again] []

theorem splitClientEvents_turns : runTurns noSend tManager splitClientEvents =
    [.read 4 quietEnv (tFrame.bytes ++ tFrame.bytes.take 28),
      .read 4 quietEnv (tFrame.bytes.drop 28)] := rfl

theorem receive_buffers_bounded_split :
    Runs.Along (ClientManager.turn noSend) (fun m => ∀ client ∈ m.clients, HeldBack m client ∨
      Awaits client.rx ∧ client.rx.length < bcClientFrameMax ∧ client.rx.length < bcClientRxCap)
      tManager (runTurns noSend tManager splitClientEvents) := by
  apply receive_buffers_bounded noSend tManager splitClientEvents
  · refine ⟨tManager_fresh.distinct, ?_⟩
    simp [tManager, tClients]
  · rw [splitClientEvents_turns, Runs.meets_cons, Runs.meets_cons]
    refine ⟨?_, ?_, Runs.meets_nil _⟩
    · -- the frame is dispatched, and the header behind it stays
      intro client hclient
      obtain rfl : client = ⟨4, [], [], 0, [], none, 0⟩ := (Option.some.inj hclient).symm
      apply cleanCall_of_left (tFrame.bytes.take 28) (appendRx_frame tManager_fresh.distinct 4 _).1
        (findClient_appendRx hclient _) (by decide +kernel)
      unfold Awaits HeaderComplete
      decide +kernel
    · -- the second frame is whole
      intro client hclient
      obtain rfl : client = (findClient (tManager.turn noSend
          (.read 4 quietEnv (tFrame.bytes ++ tFrame.bytes.take 28))).clients 4).getD
            ⟨4, [], [], 0, [], none, 0⟩ := by
        rw [hclient]
        rfl
      apply cleanCall_of_left [] (appendRx_frame (by unfold DistinctFds; decide +kernel) 4 _).1
        (findClient_appendRx hclient _) (by decide +kernel)
      unfold Awaits HeaderComplete
      decide +kernel

/-- A header that announces 4 GiB of payload. -/
def overlongHeader : IpcHeader :=
  { IpcHeader.zero with magic := bcIpcMagic, version := bcIpcVersion, type := bcIpcPublish,
                        topicLen := 1, payloadLen := 0xffffffff }

def overlongEvents : List ManagerEvent :=
  [.client 4 ⟨true, false, false, false⟩ quietEnv [] [.bytes overlongHeader.toBytes, .again] []]

/-- The header is kept, and its frame is waited for. -/
theorem overlong_header_waits :
    ¬ Runs.Along (ClientManager.turn noSend) (fun m => ∀ client ∈ m.clients, HeldBack m client ∨
      Awaits client.rx ∧ client.rx.length < bcClientFrameMax ∧ client.rx.length < bcClientRxCap)
      tManager (runTurns noSend tManager overlongEvents) := by
  intro hbounded
  have hend := hbounded _ List.prefix_rfl
  rw [run_runTurns] at hend
  have hclient : (⟨4, overlongHeader.toBytes, [], 0, [], none, 0⟩ : BcClient) ∈
      (Runs.run (ClientManager.step noSend) tManager overlongEvents).clients := by
    decide +kernel
  have hhistory : (Runs.run (ClientManager.step noSend) tManager overlongEvents).history.length =
      0 := by
    decide +kernel
  rcases hend _ hclient with ⟨-, a, ha, -⟩ | ⟨hawaits, -⟩
  · rw [List.length_eq_zero_iff.mp hhistory] at ha
    simp at ha
  · have hcomplete : HeaderComplete overlongHeader.toBytes := by
      unfold HeaderComplete
      decide +kernel
    exact absurd (hawaits hcomplete).2.1 (by decide +kernel)

end Bounded

end BoardComm
