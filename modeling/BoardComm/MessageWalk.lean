import BoardComm.PieceArrival

/-!
# One message on its way

The frames of a message are on their way to a node, together with acknowledgements
that nobody waits for. When the last of them is handled the node has the message,
and keeps it or passes it on.
-/
namespace BoardComm

variable {N : Type*}

/-- The first node to which the frames of a message come gets a message from them. -/
def BcMessage.Arrives (msg : BcMessage) : Prop :=
  msg.payloadLen > bcFragChunkMax ∨ (reassembled bcReasmInit msg.canonical).2 ≠ none

/-- The transport to which a node passes a message on. -/
abbrev BridgeNetwork.pass (net : BridgeNetwork N) (msg : BcMessage) (n : N) : Option ℕ :=
  passRoute (net.bus n) msg

/-- Nothing is on its way but acknowledgements. -/
structure AtRest (net : BridgeNetwork N) (s : NetState N) (acks : Multiset (FlyingFrame N)) :
    Prop where
  agrees : ∀ n, (net.bus n).Agrees (s.bus n)
  inert : ∀ f ∈ acks, Inert f.2
  inFlight : s.inFlight = acks

/-- The frames of a message are on their way to a port, and acknowledgements. -/
structure EnRoute (net : BridgeNetwork N) (s : NetState N) (msg : BcMessage) (port : N × ℕ)
    (acks : Multiset (FlyingFrame N)) (todo : Multiset BcMessage) : Prop where
  agrees : ∀ n, (net.bus n).Agrees (s.bus n)
  wellFormed : msg.WellFormed
  pending : Pending msg (s.reasm port.1) todo
  idle : ∀ n, n ≠ port.1 → (s.reasm n).Idle
  inert : ∀ f ∈ acks, Inert f.2
  inFlight : s.inFlight = acks + todo.map fun piece => (port, frameBytes piece)

/-- Nothing has been passed on, sent back or counted between two states. -/
structure Quiet (s s' : NetState N) : Prop where
  forwarded : s'.forwarded = s.forwarded
  ackRecv : ∀ n, (s'.bus n).stats.ackRecv = (s.bus n).stats.ackRecv
  ackSent : ∀ n, (s'.bus n).stats.ackSent = (s.bus n).stats.ackSent

theorem Quiet.trans {s s' s'' : NetState N} (h : Quiet s s') (h' : Quiet s' s'') : Quiet s s'' :=
  ⟨h'.forwarded.trans h.forwarded, fun n => (h'.ackRecv n).trans (h.ackRecv n),
    fun n => (h'.ackSent n).trans (h.ackSent n)⟩

/-- The node at a port has got a message, and sent acknowledgements. -/
structure Replied (net : BridgeNetwork N) (msg : BcMessage) (port : N × ℕ)
    (answers : List DeliverAnswer) (s s' : NetState N) (replies : Multiset (FlyingFrame N)) :
    Prop where
  frames : replies = 0 ∨ ∃ data, Inert data ∧ replies = {(net.links.peer port, data)}
  here : replies ≠ 0 → shouldDeliverLocal (net.bus port.1) msg = true
  asked : answers = [] → msg.qos = bcQosAtLeastOnce → msg.dstNode ≠ 0 →
    msg.dstNode = (net.bus port.1).nodeId → replies ≠ 0
  ackRecv : ∀ n, (s'.bus n).stats.ackRecv = (s.bus n).stats.ackRecv
  ackSent : (s'.bus port.1).stats.ackSent =
    (s.bus port.1).stats.ackSent + UInt64.ofNat replies.card
  ackSent_ne : ∀ n, n ≠ port.1 → (s'.bus n).stats.ackSent = (s.bus n).stats.ackSent

/-- What becomes of a message that a node has got at a port. -/
inductive Landed (net : BridgeNetwork N) (msg : BcMessage) (port : N × ℕ)
    (acks : Multiset (FlyingFrame N)) (answers : List DeliverAnswer) (s s' : NetState N) : Prop
  | kept (replies : Multiset (FlyingFrame N)) (h : AtRest net s' (acks + replies))
      (hreplied : Replied net msg port answers s s' replies) (hkept : s'.forwarded = s.forwarded)
      (hstop : answers = [] →
        TokenWalk.hop net.links (net.pass msg) (port.1, some port.2) = none)
  | passed (out : BcMessage) (hout : out.Alike msg) (hordinary : out.Ordinary) (port' : N × ℕ)
      (replies : Multiset (FlyingFrame N))
      (h : EnRoute net s' out port' (acks + replies) ↑(wirePieces out))
      (hreplied : Replied net msg port answers s s' replies)
      (hpassed : s'.forwarded = s.forwarded ++ [port.1])
      (hhop : TokenWalk.hop net.links (net.pass msg) (port.1, some port.2) =
        some (port'.1, some port'.2))

/-- What a frame of the message leads to: the node waits for the other piece, does not
take it for data, or has the message. -/
inductive Landing (net : BridgeNetwork N) (msg : BcMessage) (port : N × ℕ)
    (acks : Multiset (FlyingFrame N)) (piece : BcMessage) (rest : Multiset BcMessage)
    (answers : List DeliverAnswer) (s s' : NetState N) : Prop
  | waits (h : EnRoute net s' msg port acks rest) (hquiet : Quiet s s')
  | lost (h : AtRest net s' acks) (hkept : s'.forwarded = s.forwarded) (hodd : ¬ msg.Ordinary)
      (hnone : (reassembled (s.reasm port.1) piece.canonical).2 = none)
      (hrecv : ∀ n, n ≠ port.1 → (s'.bus n).stats.ackRecv = (s.bus n).stats.ackRecv)
      (hsent : ∀ n, (s'.bus n).stats.ackSent = (s.bus n).stats.ackSent)
  | landed (h : Landed net msg port acks answers s s')
      (hsome : (reassembled (s.reasm port.1) piece.canonical).2 ≠ none)

/-- Messages that go to the same place are passed on alike. -/
theorem passRoute_of_address {out msg : BcMessage} (hdst : out.dstNode = msg.dstNode)
    (hchannel : out.channel.str = msg.channel.str) (htopic : out.topic.str = msg.topic.str)
    (bus : MessageBus) : passRoute bus out = passRoute bus msg := by
  have hforward : shouldForward bus out = shouldForward bus msg := by
    simp only [shouldForward, hdst]
  simp only [passRoute, hforward, bcRouterRoute, hchannel, htopic]

theorem BcMessage.Alike.passRoute_eq {out msg : BcMessage} (h : out.Alike msg) (bus : MessageBus) :
    passRoute bus out = passRoute bus msg :=
  passRoute_of_address h.dstNode h.channel h.topic bus

theorem BcMessage.Alike.pass_eq {net : BridgeNetwork N} {out msg : BcMessage} (h : out.Alike msg) :
    net.pass out = net.pass msg := by
  ext n : 1
  exact h.passRoute_eq (net.bus n)

/-- A message in one frame. -/
theorem Pending.short {msg : BcMessage} {reasm : BcReasm} {todo : Multiset BcMessage}
    (h : Pending msg reasm todo) (hshort : ¬ msg.payloadLen > bcFragChunkMax) : todo = {msg} := by
  cases h with
  | whole _ _ htodo => exact htodo
  | both hlong _ _ => exact absurd hlong hshort
  | second hlong _ _ _ _ _ _ _ _ => exact absurd hlong hshort

/-- Nothing is left to come after the frame of a message in one frame. -/
theorem Pending.short_cons {msg : BcMessage} {reasm : BcReasm} {piece : BcMessage}
    {rest : Multiset BcMessage} (h : Pending msg reasm (piece ::ₘ rest))
    (hshort : ¬ msg.payloadLen > bcFragChunkMax) : piece = msg ∧ rest = 0 := by
  obtain ⟨hpiece, hrest⟩ := (Multiset.singleton_eq_cons_iff _).mp (h.short hshort).symm
  exact ⟨hpiece.symm, hrest⟩

/-- A message that a table without other messages makes of its frames has arrived. -/
theorem Pending.arrives {msg : BcMessage} {reasm : BcReasm} {piece : BcMessage}
    {rest : Multiset BcMessage} (h : Pending msg reasm (piece ::ₘ rest))
    (hfresh : ¬ msg.payloadLen > bcFragChunkMax → reasm = bcReasmInit)
    (hsome : (reassembled reasm piece.canonical).2 ≠ none) : msg.Arrives := by
  by_cases hlong : msg.payloadLen > bcFragChunkMax
  · exact .inl hlong
  · rw [hfresh hlong, (h.short_cons hlong).1] at hsome
    exact .inr hsome

/-- Frames that a node puts on one of its transports. -/
theorem BridgeNetwork.arriving_append (net : BridgeNetwork N) (n : N)
    (put put' : List (ℕ × List UInt8)) :
    net.arriving n (put ++ put') = net.arriving n put' + net.arriving n put := by
  simp only [BridgeNetwork.arriving, List.map_append, Multiset.coe_add]
  exact Multiset.coe_eq_coe.mpr List.perm_append_comm

theorem BridgeNetwork.card_arriving (net : BridgeNetwork N) (n : N) (put : List (ℕ × List UInt8)) :
    (net.arriving n put).card = put.length := by
  simp [BridgeNetwork.arriving]

theorem BridgeNetwork.arriving_ne_zero (net : BridgeNetwork N) (n : N)
    (put : List (ℕ × List UInt8)) : net.arriving n put ≠ 0 ↔ put ≠ [] := by
  rw [← Multiset.card_pos, net.card_arriving, List.length_pos_iff]

/-- The acknowledgement for a message goes back to where the message came from. -/
theorem InboundDone.arriving {b : BusState (List DeliverAnswer) (List (ℕ × List UInt8))}
    {out : BcMessage} {transport : ℕ}
    {r : InboundResult × BusState (List DeliverAnswer) (List (ℕ × List UInt8))}
    {replies : List (ℕ × List UInt8)} (h : InboundDone b out (some transport) r replies)
    (hout : out.WellFormed) (net : BridgeNetwork N) (n : N) :
    net.arriving n replies = 0 ∨
      ∃ data, Inert data ∧ net.arriving n replies = {(net.links.peer (n, transport), data)} := by
  have hinert := h.inert hout
  rcases h.frames with rfl | ⟨transport', htransport, rfl⟩
  · exact .inl rfl
  · obtain rfl : transport = transport' := Option.some.inj htransport
    exact .inr ⟨_, hinert _ (List.mem_singleton_self _), rfl⟩

/-- What has been sent back is waited for by nobody. -/
theorem Replied.inert {net : BridgeNetwork N} {msg : BcMessage} {port : N × ℕ}
    {answers : List DeliverAnswer} {s s' : NetState N} {acks replies : Multiset (FlyingFrame N)}
    (h : Replied net msg port answers s s' replies) (hacks : ∀ f ∈ acks, Inert f.2) :
    ∀ f ∈ acks + replies, Inert f.2 := by
  intro f hf
  rcases Multiset.mem_add.mp hf with hf | hf
  · exact hacks f hf
  · rcases h.frames with hnone | ⟨data, hdata, hone⟩
    · rw [hnone] at hf
      exact absurd hf (Multiset.notMem_zero f)
    · rw [hone, Multiset.mem_singleton] at hf
      rw [hf]
      exact hdata

section Receive

variable [DecidableEq N] {net : BridgeNetwork N} {s : NetState N} {a : Arrival N}
  {msg : BcMessage}

/-- A frame that completes nothing. -/
theorem receive_none (hdecode : bcProtocolDecode a.frame.2 = .ok msg)
    (hnone : (reassembled (s.reasm a.frame.1.1) msg).2 = none) :
    (∀ n, (s.bus n).Agrees ((net.receive s a).bus n)) ∧
      (net.receive s a).reasm =
        Function.update s.reasm a.frame.1.1 (reassembled (s.reasm a.frame.1.1) msg).1 ∧
      (net.receive s a).inFlight = s.inFlight.erase a.frame ∧
      (net.receive s a).deliveries = s.deliveries ∧
      (net.receive s a).forwarded = s.forwarded := by
  obtain ⟨hbus, hreasm, hput, hdelivery, hforwarded⟩ :=
    handleInbound_none ⟨s.bus a.frame.1.1, s.reasm a.frame.1.1, a.answers, []⟩
      (some a.frame.1.2) hnone
  unfold BridgeNetwork.receive
  simp only [hdecode, hreasm, hput, hdelivery, hforwarded]
  refine ⟨fun n => ?_, trivial, by simp [BridgeNetwork.arriving], by simp, by simp⟩
  by_cases hn : n = a.frame.1.1
  · subst hn
    simpa using hbus
  · simp only [Function.update_of_ne hn]
    exact ⟨rfl, rfl, rfl, rfl, rfl⟩

/-- An inert frame leaves only counters behind. -/
theorem receive_inert (hinert : Inert a.frame.2) :
    (∀ n, (s.bus n).Agrees ((net.receive s a).bus n)) ∧
      (net.receive s a).reasm = s.reasm ∧
      (net.receive s a).inFlight = s.inFlight.erase a.frame ∧
      (net.receive s a).deliveries = s.deliveries ∧
      (net.receive s a).forwarded = s.forwarded := by
  obtain ⟨msg, hdecode, hack⟩ := hinert
  have hnone : reassembled (s.reasm a.frame.1.1) msg = (s.reasm a.frame.1.1, none) := if_pos hack
  have hreceive := @receive_none _ _ net s _ _ hdecode (congrArg Prod.snd hnone)
  rw [hnone, Function.update_eq_self] at hreceive
  exact hreceive

/-- Frames count as acknowledgements by their flag. -/
theorem receive_ackRecv (hdecode : bcProtocolDecode a.frame.2 = .ok msg) (n : N) :
    ((net.receive s a).bus n).stats.ackRecv =
      if n = a.frame.1.1 ∧ msg.flags &&& bcFlagAck ≠ 0 then (s.bus n).stats.ackRecv + 1
      else (s.bus n).stats.ackRecv := by
  unfold BridgeNetwork.receive
  simp only [hdecode]
  by_cases hn : n = a.frame.1.1
  · subst hn
    simp only [Function.update_self, handleInbound_ackRecv, true_and]
  · simp only [Function.update_of_ne hn, hn, false_and, if_false]

/-- A frame that completes nothing sends no acknowledgement. -/
theorem receive_none_ackSent (hdecode : bcProtocolDecode a.frame.2 = .ok msg)
    (hnone : (reassembled (s.reasm a.frame.1.1) msg).2 = none) (n : N) :
    ((net.receive s a).bus n).stats.ackSent = (s.bus n).stats.ackSent := by
  unfold BridgeNetwork.receive
  simp only [hdecode]
  by_cases hn : n = a.frame.1.1
  · subst hn
    rw [Function.update_self]
    exact handleInbound_none_ackSent _ _ hnone
  · simp only [Function.update_of_ne hn]

/-- A frame that completes a message. -/
theorem receive_some (hagrees : ∀ n, (net.bus n).Agrees (s.bus n))
    (hdecode : bcProtocolDecode a.frame.2 = .ok msg) {out : BcMessage}
    (hsome : (reassembled (s.reasm a.frame.1.1) msg).2 = some out) (hout : out.WellFormed) :
    ∃ (b : BusState (List DeliverAnswer) (List (ℕ × List UInt8)))
      (r : InboundResult × BusState (List DeliverAnswer) (List (ℕ × List UInt8)))
      (acks : List (ℕ × List UInt8)),
      (net.bus a.frame.1.1).Agrees b.bus ∧ b.clients = a.answers ∧
      b.bus.stats.ackSent = (s.bus a.frame.1.1).stats.ackSent ∧
      b.reasm = (reassembled (s.reasm a.frame.1.1) msg).1 ∧
      InboundDone b out (some a.frame.1.2) r acks ∧
      net.receive s a =
        { bus := Function.update s.bus a.frame.1.1 r.2.bus
          reasm := Function.update s.reasm a.frame.1.1 r.2.reasm
          inFlight := s.inFlight.erase a.frame + net.arriving a.frame.1.1 r.2.transports
          deliveries := s.deliveries ++
            (r.1.delivery.map fun d => (a.frame.1.1, d.appended)).toList
          forwarded := if r.1.forwarded = [] then s.forwarded
            else s.forwarded ++ [a.frame.1.1] } := by
  obtain ⟨bus, hbus, hsent, hhandle⟩ :=
    handleInbound_some ⟨s.bus a.frame.1.1, s.reasm a.frame.1.1, a.answers, []⟩
      (some a.frame.1.2) hsome
  obtain ⟨acks, hr⟩ := inboundComplete_putOut
    ⟨bus, (reassembled (s.reasm a.frame.1.1) msg).1, a.answers, []⟩ rfl hout (some a.frame.1.2)
  refine ⟨_, _, acks, (hagrees a.frame.1.1).trans hbus, rfl, hsent, rfl, hr, ?_⟩
  unfold BridgeNetwork.receive
  simp only [hdecode, hhandle]

/-- A frame that completes nothing counts and answers nothing. -/
theorem receive_quiet (hdecode : bcProtocolDecode a.frame.2 = .ok msg)
    (hack : msg.flags &&& bcFlagAck = 0)
    (hnone : (reassembled (s.reasm a.frame.1.1) msg).2 = none) : Quiet s (net.receive s a) := by
  obtain ⟨-, -, -, -, hforwarded⟩ := @receive_none _ _ net _ _ _ hdecode hnone
  refine ⟨hforwarded, fun n => ?_, receive_none_ackSent hdecode hnone⟩
  rw [receive_ackRecv hdecode, if_neg fun h => h.2 hack]

end Receive

section Steps

variable [DecidableEq N] {net : BridgeNetwork N} {s : NetState N} {a : Arrival N}
  {msg : BcMessage} {port : N × ℕ} {acks : Multiset (FlyingFrame N)} {todo : Multiset BcMessage}

/-- Acknowledgements are counted where they arrive, and that is all. -/
theorem AtRest.step (h : AtRest net s acks) (hmem : a.frame ∈ acks) :
    AtRest net (net.step s a) (acks.erase a.frame) ∧
      (net.step s a).forwarded = s.forwarded ∧
      (∀ n, ((net.step s a).bus n).stats.ackSent = (s.bus n).stats.ackSent) ∧
      ∀ n, ((net.step s a).bus n).stats.ackRecv =
        if n = a.frame.1.1 then (s.bus n).stats.ackRecv + 1 else (s.bus n).stats.ackRecv := by
  have hflying : a.frame ∈ s.inFlight := by
    rw [h.inFlight]
    exact hmem
  obtain ⟨hbus, -, hflight, -, hforwarded⟩ := @receive_inert _ _ net s _ (h.inert _ hmem)
  obtain ⟨ack, hdecode, hflag⟩ := h.inert _ hmem
  have hnone : reassembled (s.reasm a.frame.1.1) ack = (s.reasm a.frame.1.1, none) := if_pos hflag
  rw [BridgeNetwork.step, if_pos hflying]
  refine ⟨⟨fun n => (h.agrees n).trans (hbus n),
    fun f hf => h.inert f (Multiset.mem_of_mem_erase hf), ?_⟩, hforwarded,
    receive_none_ackSent hdecode (congrArg Prod.snd hnone), fun n => ?_⟩
  · rw [hflight, h.inFlight]
  · rw [receive_ackRecv hdecode]
    simp only [hflag, not_false_eq_true, and_true, ne_eq]

/-- Nothing more happens than that. -/
theorem AtRest.run (h : AtRest net s acks) (arrivals : List (Arrival N)) :
    (∃ acks', AtRest net (Runs.run net.step s arrivals) acks') ∧
      (Runs.run net.step s arrivals).forwarded = s.forwarded := by
  refine Runs.run_of_step net.step (I := fun s' => (∃ acks', AtRest net s' acks') ∧
    s'.forwarded = s.forwarded) ?_ ⟨⟨acks, h⟩, rfl⟩ arrivals
  rintro s' a ⟨⟨acks', h'⟩, hforwarded⟩
  by_cases hmem : a.frame ∈ s'.inFlight
  · rw [h'.inFlight] at hmem
    obtain ⟨hrest, hkept, -, -⟩ := h'.step hmem
    exact ⟨⟨_, hrest⟩, hkept.trans hforwarded⟩
  · rw [BridgeNetwork.step, if_neg hmem]
    exact ⟨⟨acks', h'⟩, hforwarded⟩

/-- Of a message in one frame there is nothing left to come. -/
theorem Pending.flags {reasm : BcReasm} {piece : BcMessage} {rest : Multiset BcMessage}
    (h : Pending msg reasm (piece ::ₘ rest)) (hrest : rest ≠ 0) :
    piece.flags = bcFlagFragment := by
  cases h with
  | whole _ _ htodo => exact absurd ((Multiset.singleton_eq_cons_iff _).mp htodo.symm).2 hrest
  | both _ _ htodo =>
    have hmem : piece ∈ ({fragmentPiece msg 2 0, fragmentPiece msg 2 1} : Multiset BcMessage) := by
      rw [← htodo]
      exact Multiset.mem_cons_self piece rest
    simp only [Multiset.insert_eq_cons, Multiset.mem_cons, Multiset.mem_singleton] at hmem
    rcases hmem with rfl | rfl <;> rfl
  | second _ _ _ _ _ _ _ _ htodo =>
    exact absurd ((Multiset.singleton_eq_cons_iff _).mp htodo.symm).2 hrest

/-- A frame that is taken leaves those of the other pieces. -/
theorem piece_taken {piece : BcMessage} {rest : Multiset BcMessage}
    (hflight : s.inFlight = acks + (piece ::ₘ rest).map fun piece => (port, frameBytes piece))
    (hframe : a.frame = (port, frameBytes piece)) :
    a.frame ∈ s.inFlight ∧
      s.inFlight.erase a.frame = acks + rest.map fun piece => (port, frameBytes piece) := by
  rw [Multiset.map_cons, ← hframe, Multiset.add_cons] at hflight
  rw [hflight]
  exact ⟨Multiset.mem_cons_self _ _, Multiset.erase_cons_head _ _⟩

/-- One frame of the message. -/
theorem EnRoute.step_piece {piece : BcMessage} {rest : Multiset BcMessage}
    (h : EnRoute net s msg port acks (piece ::ₘ rest))
    (hframe : a.frame = (port, frameBytes piece)) :
    Landing net msg port acks piece rest a.answers s (net.step s a) := by
  have hwell := h.pending.wellFormed h.wellFormed (Multiset.mem_cons_self piece rest)
  have hdecode : bcProtocolDecode a.frame.2 = .ok piece.canonical := by
    rw [hframe]
    exact decode_frameBytes hwell
  have hport : a.frame.1 = port := by rw [hframe]
  obtain ⟨hflying, hrest⟩ := piece_taken h.inFlight hframe
  have houtcome := h.pending.outcome h.wellFormed
  have hreassembled : reassembled (s.reasm a.frame.1.1) piece.canonical =
      reassembled (s.reasm port.1) piece.canonical := by rw [hport]
  rw [BridgeNetwork.step, if_pos hflying]
  generalize hresult : reassembled (s.reasm port.1) piece.canonical = result at houtcome
  rw [hresult] at hreassembled
  -- The other tables are left alone.
  have hothers : ∀ reasm n, n ≠ port.1 →
      (Function.update s.reasm a.frame.1.1 reasm n).Idle := by
    intro reasm n hn
    rw [Function.update_of_ne (by rw [hport]; exact hn)]
    exact h.idle n hn
  cases houtcome with
  | stored reasm hpending =>
    obtain ⟨hbus, hreasm, hflight, -, -⟩ :=
      @receive_none _ _ net s _ _ hdecode (congrArg Prod.snd hreassembled)
    rw [hreassembled] at hreasm
    have hack : piece.canonical.flags &&& bcFlagAck = 0 := by
      rw [show piece.canonical.flags = bcFlagFragment from h.pending.flags hpending.ne_zero]
      decide
    refine .waits ⟨fun n => (h.agrees n).trans (hbus n), h.wellFormed, ?_, ?_, h.inert,
      hflight.trans hrest⟩ (receive_quiet hdecode hack (congrArg Prod.snd hreassembled))
    · rw [hreasm, ← hport, Function.update_self]
      exact hpending
    · rw [hreasm]
      exact hothers reasm
  | lost reasm hodd htodo =>
    obtain ⟨hbus, -, hflight, -, hforwarded⟩ :=
      @receive_none _ _ net s _ _ hdecode (congrArg Prod.snd hreassembled)
    refine .lost ⟨fun n => (h.agrees n).trans (hbus n), h.inert, ?_⟩ hforwarded hodd
      (congrArg Prod.snd hresult) (fun n hn => ?_)
      (receive_none_ackSent hdecode (congrArg Prod.snd hreassembled))
    · rw [hflight, hrest, htodo, Multiset.map_zero, add_zero]
    · rw [receive_ackRecv hdecode, if_neg fun h => hn (h.1.trans (congrArg Prod.fst hport))]
  | complete reasm hidle out hout hordinary htodo =>
    have hack : piece.canonical.flags &&& bcFlagAck = 0 := by
      by_contra hflag
      rw [reassembled, if_pos hflag] at hresult
      cases hresult
    obtain ⟨b, r, replies, hbus, hclients, hsent, hreasm, hr, hreceive⟩ :=
      receive_some h.agrees hdecode (congrArg Prod.snd hreassembled) hout.wellFormed
    have hrecv := fun n => @receive_ackRecv _ _ net s _ _ hdecode n
    simp only [hack, ne_eq, not_true, and_false, if_false] at hrecv
    rw [hreassembled] at hreasm
    rw [hrest, htodo, Multiset.map_zero, add_zero] at hreceive
    have hroute : passRoute b.bus out = net.pass msg port.1 := by
      rw [hbus.passRoute_eq, hout.passRoute_eq, hport]
    have hlocal : shouldDeliverLocal b.bus out = shouldDeliverLocal (net.bus port.1) msg := by
      simp only [shouldDeliverLocal, hout.dstNode, hbus.nodeId, hport]
    have hagrees : ∀ n, (net.bus n).Agrees ((net.receive s a).bus n) := by
      intro n
      rw [hreceive]
      by_cases hn : n = a.frame.1.1
      · subst hn
        simpa using hbus.trans hr.agrees
      · simp only [Function.update_of_ne hn]
        exact h.agrees n
    have htables : ∀ n, ((net.receive s a).reasm n).Idle := by
      intro n
      rw [hreceive]
      by_cases hn : n = port.1
      · rw [hn, ← hport]
        simp only [Function.update_self, hr.reasm, hreasm]
        exact hidle
      · exact hothers _ n hn
    have hframes := hr.arriving hout.wellFormed net port.1
    rw [hport] at hframes
    have hempty := net.arriving_ne_zero port.1 replies
    have hreplied : Replied net msg port a.answers s (net.receive s a)
        (net.arriving port.1 replies) := by
      refine ⟨hframes, fun hne => ?_, fun hanswers hqos hdst hnode => ?_, hrecv, ?_,
        fun n hn => ?_⟩
      · rw [← hlocal]
        exact hr.here (hempty.mp hne)
      · refine hempty.mpr (hr.replied (hclients.trans hanswers) (hout.qos.trans hqos)
          (hout.dstNode.trans_ne hdst) ?_ (Option.some_ne_none _))
        rw [hout.dstNode, hnode, hbus.nodeId, hport]
      · rw [net.card_arriving, hreceive, ← hport]
        simp only [Function.update_self, hr.ackSent, hsent]
      · rw [hreceive]
        simp only [Function.update_of_ne (show n ≠ a.frame.1.1 by rw [hport]; exact hn)]
    have hinert := hreplied.inert h.inert
    refine .landed ?_ (by rw [hresult]; exact Option.some_ne_none out)
    rcases hr.passed with ⟨hnone, hput, hchoice⟩ | ⟨transport, htransport, hback, hall, hput⟩
    · refine .kept (net.arriving port.1 replies) ⟨hagrees, hinert, ?_⟩ hreplied ?_
        fun hanswers => ?_
      · rw [hreceive, hport]
        simp only [hput]
      · rw [hreceive]
        simp only [hnone, if_true]
      · cases hchosen : net.pass msg port.1 with
        | none => simp [TokenWalk.hop, hchosen]
        | some transport =>
          have hback := hchoice (hclients.trans hanswers) transport (hroute.trans hchosen)
          rw [hport] at hback
          simp [TokenWalk.hop, hchosen, hback]
    · have hpieces : (wirePieces out).map frameBytes ≠ [] := by
        simpa using wirePieces_ne_nil hout.wellFormed.payloadLen
      rw [hroute] at htransport
      rw [hport] at hback
      refine .passed out hout hordinary (net.links.peer (port.1, transport))
        (net.arriving port.1 replies) ⟨hagrees, hout.wellFormed,
          pending_wirePieces hout.wellFormed (htables _), fun n _ => htables n, hinert, ?_⟩
        hreplied ?_ ?_
      · rw [hreceive, hport]
        simp only [hput, BridgeNetwork.arriving_append, add_assoc]
        simp [BridgeNetwork.arriving, Function.comp_def]
      · rw [hreceive]
        simp only [hall, if_neg hpieces, hport]
      · simp [TokenWalk.hop, htransport, hback]

/-- An acknowledgement does not concern the message. -/
theorem EnRoute.step_ack (h : EnRoute net s msg port acks todo) (hmem : a.frame ∈ acks) :
    EnRoute net (net.step s a) msg port (acks.erase a.frame) todo ∧
      (net.step s a).reasm = s.reasm ∧ (net.step s a).forwarded = s.forwarded := by
  have hflying : a.frame ∈ s.inFlight := by
    rw [h.inFlight]
    exact Multiset.mem_add.mpr (.inl hmem)
  obtain ⟨hbus, hreasm, hflight, -, hforwarded⟩ :=
    @receive_inert _ _ net s _ (h.inert _ hmem)
  rw [BridgeNetwork.step, if_pos hflying]
  refine ⟨⟨fun n => (h.agrees n).trans (hbus n), h.wellFormed, ?_, ?_,
    fun f hf => h.inert f (Multiset.mem_of_mem_erase hf), ?_⟩, hreasm, hforwarded⟩
  · rw [hreasm]
    exact h.pending
  · rw [hreasm]
    exact h.idle
  · rw [hflight, h.inFlight, Multiset.erase_add_left_pos _ hmem]

/-- The frames of an ordinary message can be handled one after the other, and then the
node has it. -/
theorem EnRoute.lands (hordinary : msg.Ordinary) (h : EnRoute net s msg port acks todo) :
    ∃ s₁ s₂, Runs.Reaches net.step s s₂ ∧ Quiet s s₁ ∧ Landed net msg port acks [] s₁ s₂ := by
  induction todo using Multiset.induction generalizing s with
  | empty => exact absurd rfl h.pending.ne_zero
  | cons piece rest ih =>
    have hstep := Runs.Reaches.single net.step s ⟨(port, frameBytes piece), []⟩
    cases h.step_piece (a := ⟨(port, frameBytes piece), []⟩) rfl with
    | waits hwaits hquiet =>
      obtain ⟨s₁, s₂, hreaches, hquiet', hlanded⟩ := ih hwaits
      exact ⟨s₁, s₂, hstep.trans hreaches, hquiet.trans hquiet', hlanded⟩
    | lost _ _ hodd _ _ _ => exact absurd hordinary hodd
    | landed hlanded _ => exact ⟨s, _, hstep, ⟨rfl, fun _ => rfl, fun _ => rfl⟩, hlanded⟩

/-- A message that arrives lands. -/
theorem EnRoute.lands_of_arrives {port : N × ℕ} {s : NetState N}
    (h : EnRoute net s msg port 0 ↑(wirePieces msg)) (hfresh : s.reasm port.1 = bcReasmInit)
    (harrives : msg.Arrives) :
    ∃ s₁ s₂, Runs.Reaches net.step s s₂ ∧ Quiet s s₁ ∧ Landed net msg port 0 [] s₁ s₂ := by
  by_cases hlong : msg.payloadLen > bcFragChunkMax
  · exact h.lands (.inl hlong)
  have hwire : (↑(wirePieces msg) : Multiset BcMessage) = msg ::ₘ 0 := by
    rw [wirePieces, if_neg hlong]
    rfl
  rw [hwire] at h
  have hstep := Runs.Reaches.single net.step s ⟨(port, frameBytes msg), []⟩
  cases h.step_piece (a := ⟨(port, frameBytes msg), []⟩) rfl with
  | waits hwaits _ => exact absurd rfl hwaits.pending.ne_zero
  | lost _ _ _ hnone _ _ =>
    rw [hfresh] at hnone
    exact absurd hnone (harrives.resolve_left hlong)
  | landed hlanded _ => exact ⟨s, _, hstep, ⟨rfl, fun _ => rfl, fun _ => rfl⟩, hlanded⟩

end Steps

section Publish

variable [DecidableEq N] (net : BridgeNetwork N) (origin : N) {msg : BcMessage}

/-- The message as its node sends it. -/
abbrev BridgeNetwork.stamped (msg : BcMessage) : BcMessage := (stampMessage (net.bus origin) msg).1

/-- A published message is on its way over the route of its node, if there is one and
the message has a topic. -/
theorem publish_enRoute (hchannel : msg.channel.Terminated) (htopic : msg.topic.Terminated)
    (hle : msg.payloadLen ≤ bcMaxPayloadLen) (source : ℤ) (answers : List DeliverAnswer) :
    (AtRest net (net.publish origin source msg answers) 0 ∧
        (networkRoute (net.bus origin) (net.stamped origin msg) = none ∨ msg.topic.str = [])) ∨
      ∃ transport, networkRoute (net.bus origin) (net.stamped origin msg) = some transport ∧
        msg.topic.str ≠ [] ∧
        EnRoute net (net.publish origin source msg answers) (net.stamped origin msg)
          (net.links.peer (origin, transport)) 0 ↑(wirePieces (net.stamped origin msg)) := by
  obtain ⟨-, hlenEq, -, hchannelEq, htopicEq, -⟩ := stampMessage_fields (net.bus origin) msg
  have hagrees : ∀ n, (net.bus n).Agrees ((net.publish origin source msg answers).bus n) := by
    intro n
    by_cases hn : n = origin
    · subst hn
      have hpublish :=
        agrees_bcMessageBusPublish putOut [] answerNext (net.bus n) source msg answers
      simpa [BridgeNetwork.publish] using hpublish
    · simp only [BridgeNetwork.publish, Function.update_of_ne hn]
      exact ⟨rfl, rfl, rfl, rfl, rfl⟩
  have hidle : bcReasmInit.Idle := fun _ => rfl
  let localPart := publishLocal answerNext (stampMessage (net.bus origin) msg).2 source
    (net.stamped origin msg) answers
  have hlocal : (net.bus origin).Agrees localPart.2.2.1 :=
    (agrees_stampMessage (net.bus origin) msg).trans (agrees_publishLocal answerNext source answers)
  have hflight : (net.publish origin source msg answers).inFlight =
      net.arriving origin (publishNetwork putOut localPart.2.2.1 (net.stamped origin msg)
        localPart.1 []).2.2.2 := rfl
  by_cases hempty : msg.topic.str = []
  · refine .inl ⟨⟨hagrees, by simp, ?_⟩, .inr hempty⟩
    rw [hflight, publishNetwork_no_topic _ (by rw [htopicEq, hempty]) (by rw [hlenEq]; exact hle)]
    rfl
  have hwell : (net.stamped origin msg).WellFormed := by
    refine ⟨?_, ?_, ?_, ?_⟩
    · rw [hchannelEq]
      exact hchannel
    · rw [htopicEq]
      exact htopic
    · rw [htopicEq]
      exact hempty
    · rw [hlenEq]
      exact hle
  rcases publishNetwork_putOut localPart.2.2.1 hwell localPart.1 with
    ⟨hroute, -, hput⟩ | ⟨transport, hroute, -, hput⟩
  · rw [hlocal.networkRoute_eq] at hroute
    refine .inl ⟨⟨hagrees, by simp, ?_⟩, .inl hroute⟩
    rw [hflight, hput]
    rfl
  · rw [hlocal.networkRoute_eq] at hroute
    refine .inr ⟨transport, hroute, hempty, hagrees, hwell, pending_wirePieces hwell hidle,
      fun _ _ => hidle, by simp, ?_⟩
    rw [hflight, hput]
    simp [BridgeNetwork.arriving, Function.comp_def]

/-- Publishing counts no acknowledgement. -/
theorem publish_counters (source : ℤ) (answers : List DeliverAnswer) (n : N) :
    ((net.publish origin source msg answers).bus n).stats.ackRecv = (net.bus n).stats.ackRecv ∧
      ((net.publish origin source msg answers).bus n).stats.ackSent =
        (net.bus n).stats.ackSent := by
  by_cases hn : n = origin
  · subst hn
    simp only [BridgeNetwork.publish, Function.update_self]
    exact ⟨bcMessageBusPublish_keeps putOut answerNext ackRecv_unpublished _ _ _ _ _,
      bcMessageBusPublish_keeps putOut answerNext ackSent_unpublished _ _ _ _ _⟩
  · simp only [BridgeNetwork.publish, Function.update_of_ne hn]
    exact ⟨trivial, trivial⟩

end Publish

section Line

/-- Three nodes in a row. The even transports of the middle node lead to the first, the
odd ones to the last. -/
def linePeer : Fin 3 × ℕ → Fin 3 × ℕ
  | (0, p) => (1, 2 * p)
  | (1, p) => if p % 2 = 0 then (0, p / 2) else (2, p / 2)
  | (2, p) => (1, 2 * p + 1)

theorem linePeer_linePeer (p : Fin 3 × ℕ) : linePeer (linePeer p) = p := by
  obtain ⟨n, p⟩ := p
  fin_cases n
  · simp [linePeer]
  · by_cases hp : p % 2 = 0
    · simp only [linePeer, if_pos hp]
      congr 1
      omega
    · simp only [linePeer, if_neg hp]
      congr 1
      omega
  · have hodd : ¬ (2 * p + 1) % 2 = 0 := by omega
    simp only [linePeer, if_neg hodd]
    congr 1
    omega

theorem linePeer_ne (p : Fin 3 × ℕ) : (linePeer p).1 ≠ p.1 := by
  obtain ⟨n, p⟩ := p
  fin_cases n
  · simp [linePeer]
  · by_cases hp : p % 2 = 0 <;> simp [linePeer, hp]
  · simp [linePeer]

/-- The nodes of the row with these routers. -/
def lineNetwork (routers : Fin 3 → BcRouter) : BridgeNetwork (Fin 3) where
  bus n := ⟨[], routers n, .ofNat (n + 1), 0, false, true, bcStatsReset⟩
  links := ⟨linePeer, linePeer_linePeer, linePeer_ne⟩

end Line

end BoardComm
