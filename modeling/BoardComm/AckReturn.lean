import BoardComm.MessageWalk

/-!
# Acknowledgements on their way back

A node that sends an acknowledgement addresses it to the node that published the
message. The next node counts it, whomever it is addressed to, and it ends there.
-/
namespace BoardComm

variable {N : Type*}

/-- A message for another node comes to it by way of so many nodes. -/
structure BridgeNetwork.Chain (net : BridgeNetwork N) (msg : BcMessage) (source target : N)
    (k : ℕ) : Prop where
  unicast : msg.dstNode ≠ 0
  addressed : msg.dstNode = (net.bus target).nodeId
  walk : ∃ p, TokenWalk.position (TokenWalk.hop net.links (net.pass msg)) (source, none) (k + 1) =
    some (target, some p)

/-- Once the target has sent an acknowledgement none but the source counts one, and
in the end the source has counted as many as the target sent. -/
structure AckReturns (net : BridgeNetwork N) (source target : N) (s : NetState N) : Prop where
  others : (s.bus target).stats.ackSent ≠ (net.bus target).stats.ackSent →
    ∀ n, n ≠ source → (s.bus n).stats.ackRecv = (net.bus n).stats.ackRecv
  returned : s.inFlight = 0 → (s.bus source).stats.ackRecv =
    (net.bus source).stats.ackRecv +
      ((s.bus target).stats.ackSent - (net.bus target).stats.ackSent)

/-- What the bus does with an acknowledgement depends on its flag alone. -/
theorem handleInbound_ack {σ ν : Type*} (deliver : ℤ → List UInt8 → σ → DeliverAnswer × σ)
    (send : ℕ → List UInt8 → ν → BcStatus × ν) (s : BusState σ ν) {ack : BcMessage}
    (hack : ack.flags &&& bcFlagAck ≠ 0) (fromTransport : Option ℕ) :
    (bcMessageBusHandleInbound deliver send s ack fromTransport).1.forwarded = [] ∧
      (bcMessageBusHandleInbound deliver send s ack fromTransport).2.bus.stats.ackRecv =
        s.bus.stats.ackRecv + 1 := by
  constructor
  · simp [bcMessageBusHandleInbound, hack]
  · rw [handleInbound_ackRecv, if_pos hack]

section Chains

variable {net : BridgeNetwork N} {msg : BcMessage} {source target : N} {k : ℕ}

theorem pass_stamped (origin : N) : net.pass (net.stamped origin msg) = net.pass msg := by
  obtain ⟨-, -, hdst, hchannel, htopic, -⟩ := stampMessage_fields (net.bus origin) msg
  ext n : 1
  exact passRoute_of_address hdst (congrArg CBuffer.str hchannel) (congrArg CBuffer.str htopic) _

/-- A node that would pass on a message for another node publishes it there too. -/
theorem networkRoute_of_pass {bus : MessageBus} {transport : ℕ} (hdst : msg.dstNode ≠ 0)
    (h : passRoute bus msg = some transport) : networkRoute bus msg = some transport := by
  have hforward : shouldForward bus msg = true := by
    by_contra hnot
    simp [passRoute, hnot] at h
  have hother : msg.dstNode ≠ bus.nodeId := by simpa [shouldForward, hdst] using hforward
  have hneeds : needNetwork bus msg = true := by simp [needNetwork, hdst, hother]
  rw [passRoute, if_pos hforward] at h
  rw [networkRoute, if_pos hneeds, h]

/-- The message stops at its target. -/
theorem BridgeNetwork.Chain.stops (h : net.Chain msg source target k) (p : Option ℕ) :
    TokenWalk.hop net.links (net.pass msg) (target, p) = none := by
  have hforward : ¬ shouldForward (net.bus target) msg = true := by
    rw [shouldForward, if_neg h.unicast, h.addressed]
    simp
  simp [TokenWalk.hop, passRoute, hforward]

theorem BridgeNetwork.Chain.ends (h : net.Chain msg source target k) :
    TokenWalk.Ends (TokenWalk.hop net.links (net.pass msg)) (source, none) := by
  obtain ⟨p, hp⟩ := h.walk
  exact ⟨k + 2, by rw [TokenWalk.position, hp, Option.bind_some, h.stops]⟩

/-- The last node before a target further away is not the source. -/
theorem BridgeNetwork.Chain.last_ne (h : net.Chain msg source target k) (hk : k ≠ 0) {p : ℕ}
    (hp : TokenWalk.position (TokenWalk.hop net.links (net.pass msg)) (source, none) (k + 1) =
      some (target, some p)) : (net.links.peer (target, p)).1 ≠ source := by
  obtain ⟨⟨n, a⟩, hn, hhop⟩ := Option.bind_eq_some_iff.mp hp
  obtain ⟨r, -, -, hq⟩ := TokenWalk.hop_eq_some hhop
  have hlink : net.links.peer (n, r) = (target, p) := by simpa [Prod.ext_iff] using hq.symm
  rw [← hlink, net.links.peer_peer]
  rintro rfl
  exact TokenWalk.not_ends_of_revisit (Nat.pos_of_ne_zero hk) rfl hn h.ends

/-- The way starts with the route of the source. -/
theorem BridgeNetwork.Chain.first (h : net.Chain msg source target k) :
    ∃ transport, net.pass msg source = some transport ∧
      TokenWalk.position (TokenWalk.hop net.links (net.pass msg)) (source, none) 1 =
        some ((net.links.peer (source, transport)).1,
          some (net.links.peer (source, transport)).2) := by
  obtain ⟨p, hp⟩ := h.walk
  have hone : TokenWalk.hop net.links (net.pass msg) (source, none) ≠ none := by
    intro hnone
    have hstops : TokenWalk.position (TokenWalk.hop net.links (net.pass msg)) (source, none) 1 =
        none := hnone
    rw [TokenWalk.position_none_of_le hstops (by omega)] at hp
    cases hp
  obtain ⟨q, hq⟩ := Option.ne_none_iff_exists'.mp hone
  obtain ⟨transport, htransport, -, rfl⟩ := TokenWalk.hop_eq_some hq
  exact ⟨transport, htransport, hq⟩

end Chains

section Direct

variable {net : BridgeNetwork N} {msg : BcMessage} {port : N × ℕ} {source target : N}
  {s : NetState N}

/-- The message is on its way to the first node, or has ended there, and what
acknowledgements there are go to the source. -/
inductive Acking (net : BridgeNetwork N) (msg : BcMessage) (source target : N) (port : N × ℕ)
    (s : NetState N) : Prop
  | comes (todo : Multiset BcMessage) (h : EnRoute net s msg port 0 todo)
      (hfresh : ¬ msg.payloadLen > bcFragChunkMax → s.reasm port.1 = bcReasmInit)
      (hrecv : ∀ n, (s.bus n).stats.ackRecv = (net.bus n).stats.ackRecv)
      (hsent : ∀ n, (s.bus n).stats.ackSent = (net.bus n).stats.ackSent)
  | lost (h : AtRest net s 0)
      (hrecv : (s.bus source).stats.ackRecv = (net.bus source).stats.ackRecv)
      (hsent : (s.bus target).stats.ackSent = (net.bus target).stats.ackSent)
  | answered (replies : Multiset (FlyingFrame N)) (h : AtRest net s replies)
      (hback : ∀ f ∈ replies, f.1.1 = source)
      (hothers : ∀ n, n ≠ source → (s.bus n).stats.ackRecv = (net.bus n).stats.ackRecv)
      (hcount : (s.bus source).stats.ackRecv + UInt64.ofNat replies.card =
        (net.bus source).stats.ackRecv +
          ((s.bus target).stats.ackSent - (net.bus target).stats.ackSent))

theorem Acking.returns (h : Acking net msg source target port s) :
    AckReturns net source target s := by
  cases h with
  | comes todo h _ hrecv hsent =>
    refine ⟨fun hne => absurd (hsent target) hne, fun _ => ?_⟩
    rw [hrecv, hsent, UInt64.sub_self, UInt64.add_zero]
  | lost h hrecv hsent =>
    refine ⟨fun hne => absurd hsent hne, fun _ => ?_⟩
    rw [hrecv, hsent, UInt64.sub_self, UInt64.add_zero]
  | answered replies h _ hothers hcount =>
    refine ⟨fun _ => hothers, fun hflight => ?_⟩
    rw [h.inFlight] at hflight
    rw [hflight] at hcount
    rw [← hcount]
    exact (UInt64.add_zero _).symm

/-- Every step keeps this, if the message does not arrive, or arrives at its target
from the source. -/
theorem Acking.step [DecidableEq N] (hpeer : port.1 ≠ source)
    (hdirect : msg.Arrives → port.1 = target ∧ (net.links.peer port).1 = source ∧
      TokenWalk.hop net.links (net.pass msg) (port.1, some port.2) = none)
    (h : Acking net msg source target port s) (a : Arrival N) :
    Acking net msg source target port (net.step s a) := by
  by_cases hmem : a.frame ∈ s.inFlight
  · cases h with
    | comes todo h hfresh hrecv hsent =>
      have hsplit := hmem
      rw [h.inFlight, zero_add] at hsplit
      obtain ⟨piece, hpiece, hframe⟩ := Multiset.mem_map.mp hsplit
      obtain ⟨rest, rfl⟩ := Multiset.exists_cons_of_mem hpiece
      cases h.step_piece hframe.symm with
      | waits hwaits hquiet =>
        refine .comes rest hwaits (fun hshort => ?_) (fun n => (hquiet.ackRecv n).trans (hrecv n))
          fun n => (hquiet.ackSent n).trans (hsent n)
        exact absurd (h.pending.short_cons hshort).2 hwaits.pending.ne_zero
      | lost hlost _ _ _ hrecv' hsent' =>
        exact .lost hlost ((hrecv' source hpeer.symm).trans (hrecv source))
          ((hsent' target).trans (hsent target))
      | landed hlanded hsome =>
        obtain ⟨rfl, rfl, hstop⟩ := hdirect (h.pending.arrives hfresh hsome)
        cases hlanded with
        | kept replies hrest hreplied _ _ =>
          rw [zero_add] at hrest
          refine .answered replies hrest (fun f hf => ?_)
            (fun n _ => (hreplied.ackRecv n).trans (hrecv n)) ?_
          · rcases hreplied.frames with hnone | ⟨data, -, hone⟩
            · simp [hnone] at hf
            · rw [hone, Multiset.mem_singleton] at hf
              rw [hf]
          · have hnew : ∀ m n : UInt64, m + n - m = n := fun m n => by
              rw [UInt64.add_comm, UInt64.add_sub_cancel]
            rw [hreplied.ackRecv, hrecv, hreplied.ackSent, hsent, hnew]
        | passed _ _ _ _ _ _ _ _ hhop =>
          rw [hstop] at hhop
          cases hhop
    | lost h _ _ =>
      rw [h.inFlight] at hmem
      simp at hmem
    | answered replies h hback hothers hcount =>
      rw [h.inFlight] at hmem
      obtain ⟨hrest, -, hsent, hrecv⟩ := h.step hmem
      have hcard : (replies.erase a.frame).card + 1 = replies.card :=
        Multiset.card_erase_add_one hmem
      refine .answered _ hrest (fun f hf => hback f (Multiset.mem_of_mem_erase hf))
        (fun n hn => ?_) ?_
      · rw [hrecv, if_neg fun heq => hn (heq.trans (hback _ hmem)), hothers n hn]
      · rw [hrecv, if_pos (hback _ hmem).symm, hsent, ← hcount, ← hcard, UInt64.ofNat_add,
          UInt64.add_assoc, UInt64.add_comm 1]
        rfl
  · rw [BridgeNetwork.step, if_neg hmem]
    exact h

end Direct

section Distant

variable {net : BridgeNetwork N} {msg : BcMessage} {source : N}

/-- No node has sent or counted an acknowledgement. -/
structure Uncounted (net : BridgeNetwork N) (s : NetState N) : Prop where
  ackRecv : ∀ n, (s.bus n).stats.ackRecv = (net.bus n).stats.ackRecv
  ackSent : ∀ n, (s.bus n).stats.ackSent = (net.bus n).stats.ackSent

theorem Uncounted.of_quiet {s s' : NetState N} (h : Uncounted net s) (hquiet : Quiet s s') :
    Uncounted net s' :=
  ⟨fun n => (hquiet.ackRecv n).trans (h.ackRecv n), fun n => (hquiet.ackSent n).trans (h.ackSent n)⟩

variable [DecidableEq N]

/-- The node at a port can come to have the message before anything is counted. -/
def Comes (net : BridgeNetwork N) (start : NetState N) (msg : BcMessage) (port : N × ℕ) : Prop :=
  ∃ out s₁ s₂, out.Alike msg ∧ Runs.Reaches net.step start s₂ ∧ Uncounted net s₁ ∧
    Landed net out port 0 [] s₁ s₂

/-- From a node that is not its target the message goes on to the next one. -/
theorem Comes.goes_on {start : NetState N} {port port' : N × ℕ} (hdst : msg.dstNode ≠ 0)
    (h : Comes net start msg port)
    (hhop : TokenWalk.hop net.links (net.pass msg) (port.1, some port.2) =
      some (port'.1, some port'.2)) : Comes net start msg port' := by
  obtain ⟨out, s₁, s₂, hout, hreaches, huncounted, hlanded⟩ := h
  rw [← hout.pass_eq] at hhop
  cases hlanded with
  | kept _ _ _ _ hstop =>
    rw [hstop rfl] at hhop
    cases hhop
  | passed out' hout' hordinary next replies hroute hreplied _ hnext =>
    rw [hnext] at hhop
    obtain rfl : next = port' := by simpa [Prod.ext_iff] using hhop
    have hother : ¬ shouldDeliverLocal (net.bus port.1) out = true := by
      obtain ⟨transport, htransport, -, -⟩ := TokenWalk.hop_eq_some hnext
      intro hhere
      have hforward : ¬ shouldForward (net.bus port.1) out = true := by
        rw [shouldForward, if_neg (hout.dstNode.trans_ne hdst)]
        simpa [shouldDeliverLocal, hout.dstNode.trans_ne hdst] using hhere
      simp [passRoute, hforward] at htransport
    obtain rfl : replies = 0 := by
      by_contra hreplies
      exact hother (hreplied.here hreplies)
    rw [add_zero] at hroute
    obtain ⟨s₃, s₄, hreaches', hquiet, hlanded'⟩ := hroute.lands hordinary
    refine ⟨out', s₃, s₄, hout'.trans hout, hreaches.trans hreaches', ?_, hlanded'⟩
    have hsent : ∀ n, (s₂.bus n).stats.ackSent = (s₁.bus n).stats.ackSent := by
      intro n
      by_cases hn : n = port.1
      · rw [hn, hreplied.ackSent]
        exact UInt64.add_zero _
      · exact hreplied.ackSent_ne n hn
    exact Uncounted.of_quiet ⟨fun n => (hreplied.ackRecv n).trans (huncounted.ackRecv n),
      fun n => (hsent n).trans (huncounted.ackSent n)⟩ hquiet

/-- The message can come to every node on its way. -/
theorem comes_of_position {start : NetState N} {first : N × ℕ} (hdst : msg.dstNode ≠ 0)
    (hstart : TokenWalk.position (TokenWalk.hop net.links (net.pass msg)) (source, none) 1 =
      some (first.1, some first.2)) (hfirst : Comes net start msg first) (i : ℕ) {port : N × ℕ}
    (hport : TokenWalk.position (TokenWalk.hop net.links (net.pass msg)) (source, none) (i + 1) =
      some (port.1, some port.2)) : Comes net start msg port := by
  induction i generalizing port with
  | zero =>
    obtain rfl : first = port := by simpa [Prod.ext_iff] using hstart.symm.trans hport
    exact hfirst
  | succ i ih =>
    obtain ⟨q, hq, hhop⟩ := Option.bind_eq_some_iff.mp hport
    obtain ⟨p, -, hp⟩ := Option.bind_eq_some_iff.mp hq
    obtain ⟨r, -, -, rfl⟩ := TokenWalk.hop_eq_some hp
    exact (ih hq).goes_on hdst hhop

/-- A target that is not next to the source has its acknowledgement counted on the
way. -/
theorem Comes.not_returns {start : NetState N} {port : N × ℕ} (h : Comes net start msg port)
    (hqos : msg.qos = bcQosAtLeastOnce) (hdst : msg.dstNode ≠ 0)
    (haddressed : msg.dstNode = (net.bus port.1).nodeId) (hfar : (net.links.peer port).1 ≠ source) :
    ∃ s, Runs.Reaches net.step start s ∧ ¬ AckReturns net source port.1 s := by
  have hnext : ∀ n : UInt64, n + 1 ≠ n := by
    intro n hn
    have hzero := congrArg (· - n) hn
    simp [UInt64.add_comm n] at hzero
  obtain ⟨out, s₁, s₂, hout, hreaches, huncounted, hlanded⟩ := h
  cases hlanded with
  | kept replies hrest hreplied _ _ =>
    have hreplies : replies ≠ 0 := hreplied.asked rfl (hout.qos.trans hqos)
      (hout.dstNode.trans_ne hdst) (hout.dstNode.trans haddressed)
    obtain ⟨data, -, rfl⟩ := hreplied.frames.resolve_left hreplies
    rw [zero_add] at hrest
    obtain ⟨-, -, hsent, hrecv⟩ := hrest.step (a := ⟨(net.links.peer port, data), []⟩) (by simp)
    refine ⟨_, hreaches.trans (.single net.step s₂ ⟨(net.links.peer port, data), []⟩),
      fun hreturns => ?_⟩
    have hcounted := hreturns.others (by
      rw [hsent, hreplied.ackSent, huncounted.ackSent]
      exact hnext _) _ hfar
    rw [hrecv, if_pos rfl, hreplied.ackRecv, huncounted.ackRecv] at hcounted
    exact hnext _ hcounted
  | passed _ _ _ _ _ _ _ _ hhop =>
    obtain ⟨transport, htransport, -, -⟩ := TokenWalk.hop_eq_some hhop
    have hforward : ¬ shouldForward (net.bus port.1) out = true := by
      rw [shouldForward, if_neg (hout.dstNode.trans_ne hdst), hout.dstNode, haddressed]
      simp
    simp [passRoute, hforward] at htransport

/-- Acknowledgements come back over one link and no further. In every run only the
source counts those of the target, and counts them all, exactly if the two are
linked, or the message does not get to the next node. The bus handles no
acknowledgement otherwise than by counting it. -/
theorem acks_return_iff {N : Type*} [DecidableEq N] (net : BridgeNetwork N) {source target : N}
    {k : ℕ} {msg : BcMessage} (hchain : net.Chain msg source target k)
    (hqos : msg.qos = bcQosAtLeastOnce) (hchannel : msg.channel.Terminated)
    (htopic : msg.topic.Terminated) (hle : msg.payloadLen ≤ bcMaxPayloadLen) :
    ((∀ client answers arrivals, Runs.Along net.step (AckReturns net source target)
          (net.publish source client msg answers) arrivals) ↔
        k = 0 ∨ ¬ (msg.topic.str ≠ [] ∧ (net.stamped source msg).Arrives)) ∧
      ∀ (s : BusState (List DeliverAnswer) (List (ℕ × List UInt8))) (ack : BcMessage)
        (fromTransport : Option ℕ), ack.flags &&& bcFlagAck ≠ 0 →
        (bcMessageBusHandleInbound answerNext putOut s ack fromTransport).1.forwarded = [] ∧
          (bcMessageBusHandleInbound answerNext putOut s ack fromTransport).2.bus.stats.ackRecv =
            s.bus.stats.ackRecv + 1 := by
  refine ⟨?_, fun s ack fromTransport hack =>
    handleInbound_ack answerNext putOut s hack fromTransport⟩
  obtain ⟨-, -, hdstEq, -, -, hqosEq⟩ := stampMessage_fields (net.bus source) msg
  have hdst : (net.stamped source msg).dstNode ≠ 0 := hdstEq.trans_ne hchain.unicast
  obtain ⟨transport, hpass, hfirst⟩ := hchain.first
  rw [← pass_stamped source] at hpass hfirst
  have hroute := networkRoute_of_pass hdst hpass
  have huncounted : ∀ client answers, Uncounted net (net.publish source client msg answers) :=
    fun client answers => ⟨fun n => (publish_counters net source client answers n).1,
      fun n => (publish_counters net source client answers n).2⟩
  constructor
  · intro hreturns
    by_contra hnot
    obtain ⟨hk, hnonempty, harrives⟩ : k ≠ 0 ∧ msg.topic.str ≠ [] ∧
        (net.stamped source msg).Arrives := by
      simpa only [not_or, not_not] using hnot
    rcases publish_enRoute net source hchannel htopic hle 0 [] with
      ⟨-, hnone | hempty⟩ | ⟨transport', hroute', -, hmoves⟩
    · rw [hroute] at hnone
      cases hnone
    · exact hnonempty hempty
    obtain rfl : transport = transport' := Option.some.inj (hroute.symm.trans hroute')
    obtain ⟨s₁, s₂, hreaches, hquiet, hlanded⟩ := hmoves.lands_of_arrives rfl harrives
    have hcomes : Comes net (net.publish source 0 msg []) (net.stamped source msg)
        (net.links.peer (source, transport)) :=
      ⟨_, s₁, s₂, ⟨rfl, rfl, rfl, rfl, rfl, rfl, hmoves.wellFormed⟩, hreaches,
        (huncounted 0 []).of_quiet hquiet, hlanded⟩
    obtain ⟨p, hp⟩ := hchain.walk
    have hfar := hchain.last_ne hk hp
    rw [← pass_stamped source] at hp
    have htarget : Comes net (net.publish source 0 msg []) (net.stamped source msg) (target, p) :=
      comes_of_position hdst hfirst hcomes k hp
    obtain ⟨s, ⟨arrivals, rfl⟩, hlost⟩ := htarget.not_returns (hqosEq.trans hqos) hdst
      (hdstEq.trans hchain.addressed) hfar
    exact hlost (hreturns 0 [] arrivals arrivals List.prefix_rfl)
  · intro hdirect client answers arrivals pre _
    have hpeer : (net.links.peer (source, transport)).1 ≠ source := net.links.peer_ne _
    rcases publish_enRoute net source hchannel htopic hle client answers with
      ⟨hrest, -⟩ | ⟨transport', hroute', hnonempty, hmoves⟩
    · -- Nothing is on its way, so nothing ever happens.
      have hstill := Runs.run_of_step net.step
        (I := fun s => s = net.publish source client msg answers) (fun s a hs => by
          subst hs
          rw [BridgeNetwork.step, hrest.inFlight]
          rfl) rfl pre
      have hstays : Runs.run net.step (net.publish source client msg answers) pre =
          net.publish source client msg answers := hstill
      rw [hstays]
      have hphase : Acking net msg source target (net.links.peer (source, transport))
          (net.publish source client msg answers) :=
        .lost hrest ((huncounted client answers).ackRecv source)
          ((huncounted client answers).ackSent target)
      exact hphase.returns
    · obtain rfl : transport = transport' := Option.some.inj (hroute.symm.trans hroute')
      have hends : (net.stamped source msg).Arrives →
          (net.links.peer (source, transport)).1 = target ∧
            (net.links.peer (net.links.peer (source, transport))).1 = source ∧
            TokenWalk.hop net.links (net.pass (net.stamped source msg))
              ((net.links.peer (source, transport)).1,
                some (net.links.peer (source, transport)).2) = none := by
        intro harrives
        obtain rfl : k = 0 := hdirect.resolve_right fun hnot => hnot ⟨hnonempty, harrives⟩
        obtain ⟨p, hp⟩ := hchain.walk
        rw [← pass_stamped source, hfirst] at hp
        have htarget : (net.links.peer (source, transport)).1 = target :=
          congrArg Prod.fst (Option.some.inj hp)
        refine ⟨htarget, by rw [net.links.peer_peer], ?_⟩
        rw [htarget, pass_stamped]
        exact hchain.stops _
      exact (Runs.run_of_step net.step (I := Acking net (net.stamped source msg) source target
        (net.links.peer (source, transport))) (fun _ a h => h.step hpeer hends a)
        (.comes _ hmoves (fun _ => rfl) (huncounted client answers).ackRecv
          (huncounted client answers).ackSent) pre).returns

end Distant

section Row

/-- The topic `t` leads from the first node of the row to the last, and `r` back. -/
def relayRow : BridgeNetwork (Fin 3) :=
  lineNetwork fun n =>
    match n with
    | 0 => ⟨[], [⟨[116], [97]⟩], [[97]]⟩
    | 1 => ⟨[], [⟨[116], [98]⟩, ⟨[114], [97]⟩], [[97], [98]]⟩
    | 2 => ⟨[], [⟨[114], [97]⟩], [[97]]⟩

/-- A message that is to be acknowledged. -/
def askedMessage (topic : UInt8) (dstNode : UInt32) : BcMessage :=
  { BcMessage.zero with
    dstNode := dstNode, qos := bcQosAtLeastOnce, topic := .ofPrefix _ [topic] }

theorem acks_return_iff_next :
    ((∀ client answers arrivals, Runs.Along relayRow.step (AckReturns relayRow 0 1)
          (relayRow.publish 0 client (askedMessage 116 2) answers) arrivals) ↔
        (0 : ℕ) = 0 ∨ ¬ ((askedMessage 116 2).topic.str ≠ [] ∧
          (relayRow.stamped 0 (askedMessage 116 2)).Arrives)) ∧
      ∀ (s : BusState (List DeliverAnswer) (List (ℕ × List UInt8))) (ack : BcMessage)
        (fromTransport : Option ℕ), ack.flags &&& bcFlagAck ≠ 0 →
        (bcMessageBusHandleInbound answerNext putOut s ack fromTransport).1.forwarded = [] ∧
          (bcMessageBusHandleInbound answerNext putOut s ack fromTransport).2.bus.stats.ackRecv =
            s.bus.stats.ackRecv + 1 :=
  acks_return_iff relayRow ⟨by decide, by decide, 0, by decide +kernel⟩ rfl (by decide +kernel)
    (by decide +kernel) (by decide)

/-- A message goes by one node to the next, and its acknowledgement to the one before. -/
def relayArrivals (n m : Fin 3) (sent : BcMessage) : List (Arrival (Fin 3)) :=
  [⟨((n, 0), frameBytes sent), []⟩, ⟨((m, 0), frameBytes sent), []⟩,
    ⟨((n, 1), frameBytes (ackMessage (relayRow.bus m) sent)), []⟩]

/-- The node in the middle keeps the acknowledgement of the last one. -/
theorem acks_stop_in_the_middle :
    relayRow.Chain (askedMessage 116 3) 0 2 1 ∧ relayRow.Chain (askedMessage 114 1) 2 0 1 ∧
      ¬ ∀ client answers arrivals, Runs.Along relayRow.step (AckReturns relayRow 0 2)
        (relayRow.publish 0 client (askedMessage 116 3) answers) arrivals := by
  refine ⟨⟨by decide, by decide, 0, by decide +kernel⟩,
    ⟨by decide, by decide, 0, by decide +kernel⟩,
    fun h => ?_⟩
  let arrivals := relayArrivals 1 2 (relayRow.stamped 0 (askedMessage 116 3))
  have hcounted : (((Runs.run relayRow.step (relayRow.publish 0 5 (askedMessage 116 3) [])
      arrivals).bus 2).stats.ackSent ≠ (relayRow.bus 2).stats.ackSent) ∧
      ((Runs.run relayRow.step (relayRow.publish 0 5 (askedMessage 116 3) [])
        arrivals).bus 1).stats.ackRecv ≠ (relayRow.bus 1).stats.ackRecv := by
    decide +kernel
  have hreturns : AckReturns relayRow 0 2 (Runs.run relayRow.step
      (relayRow.publish 0 5 (askedMessage 116 3) []) arrivals) :=
    h 5 [] arrivals _ List.prefix_rfl
  exact hcounted.2 (hreturns.others hcounted.1 1 (by decide))

end Row

end BoardComm
