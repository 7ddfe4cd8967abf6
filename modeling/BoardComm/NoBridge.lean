import BoardComm.MessageWalk

/-!
# Messages that are not to be bridged

The flag is tested where a message is published, and nowhere else. A message that
leaves its node for the sake of its channel goes on from the next node as any other.
-/
namespace BoardComm

section Forwarding

variable {N : Type*} [DecidableEq N] (net : BridgeNetwork N) (origin : N) {msg : BcMessage}

/-- Where a message goes from the node next to the one that publishes it. -/
def BridgeNetwork.secondHop (msg : BcMessage) : Option (N × Option ℕ) :=
  (networkRoute (net.bus origin) msg).bind fun transport =>
    TokenWalk.hop net.links (net.pass msg)
      ((net.links.peer (origin, transport)).1, some (net.links.peer (origin, transport)).2)

/-- The marked message has not been passed on, and is on its way to the first node, if
at all. -/
inductive Unbridged (msg : BcMessage) (port : N × ℕ) (s : NetState N) : Prop
  | rests (acks : Multiset (FlyingFrame N)) (h : AtRest net s acks) (hkept : s.forwarded = [])
  | moves (acks : Multiset (FlyingFrame N)) (todo : Multiset BcMessage)
      (h : EnRoute net s msg port acks todo) (hkept : s.forwarded = [])
      (hfresh : ¬ msg.payloadLen > bcFragChunkMax → s.reasm port.1 = bcReasmInit)

variable {net}

/-- A node that has nowhere to send the message, or does not get it, keeps it. -/
theorem Unbridged.step {port : N × ℕ} {s : NetState N}
    (hstop : msg.Arrives →
      TokenWalk.hop net.links (net.pass msg) (port.1, some port.2) = none)
    (h : Unbridged net msg port s) (a : Arrival N) : Unbridged net msg port (net.step s a) := by
  by_cases hmem : a.frame ∈ s.inFlight
  · cases h with
    | rests acks h hkept =>
      rw [h.inFlight] at hmem
      obtain ⟨hrest, hforwarded, -, -⟩ := h.step hmem
      exact .rests _ hrest (hforwarded.trans hkept)
    | moves acks todo h hkept hfresh =>
      have hsplit := hmem
      rw [h.inFlight, Multiset.mem_add] at hsplit
      rcases hsplit with hack | hpiece
      · obtain ⟨hmoves, hreasm, hforwarded⟩ := h.step_ack hack
        exact .moves _ todo hmoves (hforwarded.trans hkept) (by rw [hreasm]; exact hfresh)
      · obtain ⟨piece, hpiece, hframe⟩ := Multiset.mem_map.mp hpiece
        obtain ⟨rest, rfl⟩ := Multiset.exists_cons_of_mem hpiece
        cases h.step_piece hframe.symm with
        | waits hwaits hquiet =>
          refine .moves acks rest hwaits (hquiet.forwarded.trans hkept) fun hshort => ?_
          exact absurd (h.pending.short_cons hshort).2 hwaits.pending.ne_zero
        | lost hlost hforwarded _ _ _ _ => exact .rests acks hlost (hforwarded.trans hkept)
        | landed hlanded hsome =>
          cases hlanded with
          | kept replies hrest _ hforwarded _ => exact .rests _ hrest (hforwarded.trans hkept)
          | passed _ _ _ _ _ _ _ _ hhop =>
            rw [hstop (h.pending.arrives hfresh hsome)] at hhop
            cases hhop
  · rw [BridgeNetwork.step, if_neg hmem]
    exact h

/-- The mark holds for the node that publishes a broadcast and for no other. No node
passes a marked broadcast on, in any run, exactly if it does not leave its node, or
the next node has no route for it but the one back, or does not bridge, or gets
nothing from its frames. -/
theorem no_bridge_honoured_iff (net : BridgeNetwork N) (origin : N)
    (hflag : msg.flags &&& bcFlagNoBridge ≠ 0) (hdst : msg.dstNode = 0)
    (hchannel : msg.channel.Terminated) (htopic : msg.topic.Terminated)
    (hle : msg.payloadLen ≤ bcMaxPayloadLen) :
    ((∀ source answers arrivals, Runs.Along net.step (fun s => s.forwarded = [])
          (net.publish origin source msg answers) arrivals) ∧
        (msg.channel.str = [] →
          ∀ source answers, (net.publish origin source msg answers).inFlight = 0)) ↔
      ¬ (msg.topic.str ≠ [] ∧ (net.stamped origin msg).Arrives ∧
        net.secondHop origin (net.stamped origin msg) ≠ none) := by
  constructor
  · rintro ⟨hkept, -⟩ ⟨hnonempty, harrives, hgoes⟩
    rcases publish_enRoute net origin hchannel htopic hle 0 [] with
      ⟨-, hroute | hempty⟩ | ⟨transport, hroute, -, hmoves⟩
    · rw [BridgeNetwork.secondHop, hroute] at hgoes
      exact hgoes rfl
    · exact hnonempty hempty
    rw [BridgeNetwork.secondHop, hroute, Option.bind_some] at hgoes
    obtain ⟨s₁, s₂, ⟨arrivals, hrun⟩, -, hlanded⟩ := hmoves.lands_of_arrives rfl harrives
    have hnothing := hkept 0 [] arrivals arrivals List.prefix_rfl
    rw [hrun] at hnothing
    cases hlanded with
    | kept _ _ _ _ hstop => exact hgoes (hstop rfl)
    | passed _ _ _ _ _ _ _ hpassed _ => simp [hpassed] at hnothing
  · intro hstays
    refine ⟨fun source answers arrivals pre _ => ?_, fun hnone source answers => ?_⟩
    · rcases publish_enRoute net origin hchannel htopic hle source answers with
        ⟨hrests, -⟩ | ⟨transport, hroute, hnonempty, hmoves⟩
      · exact (hrests.run pre).2
      have hstop : (net.stamped origin msg).Arrives →
          TokenWalk.hop net.links (net.pass (net.stamped origin msg))
            ((net.links.peer (origin, transport)).1, some (net.links.peer (origin, transport)).2) =
              none := by
        intro harrives
        by_contra hgoes
        refine hstays ⟨hnonempty, harrives, ?_⟩
        rw [BridgeNetwork.secondHop, hroute, Option.bind_some]
        exact hgoes
      have hrun := Runs.run_of_step net.step
        (I := Unbridged net (net.stamped origin msg) (net.links.peer (origin, transport)))
        (fun _ a h => h.step hstop a) (.moves 0 _ hmoves rfl fun _ => rfl) pre
      cases hrun with
      | rests _ _ hkept => exact hkept
      | moves _ _ _ hkept _ => exact hkept
    · rcases publish_enRoute net origin hchannel htopic hle source answers with
        ⟨hrests, -⟩ | ⟨transport, hroute, -, -⟩
      · exact hrests.inFlight
      · obtain ⟨hflags, -, hdstEq, hchannelEq, -, -⟩ := stampMessage_fields (net.bus origin) msg
        simp [networkRoute, needNetwork, hflags, hflag, hdstEq, hdst, hchannelEq, hnone] at hroute

end Forwarding

section Row

/-- The first node has a channel to the middle one, which has it too if told so, and
leads it to the last. -/
def channelRow (relay : Bool) : BridgeNetwork (Fin 3) :=
  lineNetwork fun n =>
    match n with
    | 0 => ⟨[⟨[99], [97]⟩], [], [[97]]⟩
    | 1 => ⟨if relay then [⟨[99], [98]⟩] else [], [], [[97], [98]]⟩
    | 2 => ⟨[], [], []⟩

/-- A broadcast for a channel that is not to be bridged. -/
def channelMessage : BcMessage :=
  { BcMessage.zero with
    flags := bcFlagNoBridge, channel := .ofPrefix _ [99], topic := .ofPrefix _ [116] }

theorem no_bridge_honoured_iff_row :
    ((∀ source answers arrivals, Runs.Along (channelRow false).step (fun s => s.forwarded = [])
          ((channelRow false).publish 0 source channelMessage answers) arrivals) ∧
        (channelMessage.channel.str = [] → ∀ source answers,
          ((channelRow false).publish 0 source channelMessage answers).inFlight = 0)) ↔
      ¬ (channelMessage.topic.str ≠ [] ∧ ((channelRow false).stamped 0 channelMessage).Arrives ∧
        (channelRow false).secondHop 0 ((channelRow false).stamped 0 channelMessage) ≠ none) :=
  no_bridge_honoured_iff (channelRow false) 0 (by decide) rfl (by decide +kernel)
    (by decide +kernel) (by decide)

/-- The middle node passes it on. -/
theorem no_bridge_passed_on :
    channelMessage.flags &&& bcFlagNoBridge ≠ 0 ∧ channelMessage.dstNode = 0 ∧
      ¬ ∀ source answers arrivals, Runs.Along (channelRow true).step (fun s => s.forwarded = [])
        ((channelRow true).publish 0 source channelMessage answers) arrivals := by
  refine ⟨by decide, rfl, fun h => ?_⟩
  have hpassed : (Runs.run (channelRow true).step ((channelRow true).publish 0 5 channelMessage [])
      [⟨((1, 0), frameBytes ((channelRow true).stamped 0 channelMessage)), []⟩]).forwarded =
        [1] := by
    decide +kernel
  have hkept : (Runs.run (channelRow true).step ((channelRow true).publish 0 5 channelMessage [])
      [⟨((1, 0), frameBytes ((channelRow true).stamped 0 channelMessage)), []⟩]).forwarded = [] :=
    h 5 [] [⟨((1, 0), frameBytes ((channelRow true).stamped 0 channelMessage)), []⟩] _
      List.prefix_rfl
  rw [hpassed] at hkept
  cases hkept

end Row

end BoardComm
