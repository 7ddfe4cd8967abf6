import BoardComm.MessageWalk

/-!
# Where a broadcast goes

Every node passes a broadcast to one transport, so of all its frames on their way
only those to one node matter: a broadcast walks through the network like a
token. It comes to a node twice exactly if the walk does.
-/
namespace BoardComm

/-- A broadcast of the topic that can be put on the wire. -/
structure Carried (topic : List UInt8) (msg : BcMessage) : Prop where
  broadcast : msg.Broadcast
  topic : msg.topic.str = topic
  wellFormed : msg.WellFormed

/-- What one of these messages leads to. -/
inductive Progress (topic : List UInt8) (msg : BcMessage) (todo : Multiset BcMessage) :
    BcReasm × Option BcMessage → Prop
  | stored (reasm : BcReasm) (hpending : Pending msg reasm todo) : Progress topic msg todo (reasm, none)
  | complete (reasm : BcReasm) (hidle : reasm.Idle) (out : BcMessage) (hout : Carried topic out)
      (hordinary : out.Ordinary) (htodo : todo = 0) : Progress topic msg todo (reasm, some out)
  | lost (reasm : BcReasm) (hodd : ¬ msg.Ordinary) (htodo : todo = 0) :
      Progress topic msg todo (reasm, none)

section Reassembled

variable {topic : List UInt8} {msg : BcMessage} {reasm : BcReasm}

/-- A message with the strings of a broadcast is one too. -/
theorem Carried.of_strings {out : BcMessage} (h : Carried topic msg) (hdst : out.dstNode = 0)
    (hchannel : out.channel.str = []) (htopic : out.topic.str = topic)
    (hle : out.payloadLen ≤ bcMaxPayloadLen) : Carried topic out := by
  refine ⟨⟨hdst, hchannel⟩, htopic, ?_, ?_, ?_, hle⟩
  · rw [CBuffer.Terminated, hchannel]
    decide
  · rw [CBuffer.Terminated, htopic, ← h.topic]
    exact h.wellFormed.topic
  · rw [htopic, ← h.topic]
    exact h.wellFormed.topic_ne

theorem Carried.of_alike (h : Carried topic msg) {out : BcMessage} (hout : out.Alike msg) :
    Carried topic out :=
  h.of_strings (hout.dstNode.trans h.broadcast.dstNode) (hout.channel.trans h.broadcast.channel)
    (hout.topic.trans h.topic) hout.wellFormed.payloadLen

/-- One of the messages arrives. -/
theorem Pending.receive {todo : Multiset BcMessage} {piece : BcMessage} (h : Carried topic msg)
    (hpending : Pending msg reasm (piece ::ₘ todo)) :
    Progress topic msg todo (reassembled reasm piece.canonical) := by
  have houtcome := hpending.outcome h.wellFormed
  generalize reassembled reasm piece.canonical = r at houtcome
  cases houtcome with
  | stored reasm' hrest => exact .stored reasm' hrest
  | complete reasm' hidle out hout hordinary htodo =>
    exact .complete reasm' hidle out (h.of_alike hout) hordinary htodo
  | lost reasm' hodd htodo => exact .lost reasm' hodd htodo

end Reassembled

section Walk

variable {N : Type*} (net : BridgeNetwork N) (topic : List UInt8) (origin : N)

/-- Where a broadcast that is published at a node is after so many links. -/
abbrev BridgeNetwork.spot (i : ℕ) : Option (N × Option ℕ) :=
  TokenWalk.position (net.hop topic) (origin, none) i

/-- The nodes that it has come to by then. -/
abbrev BridgeNetwork.visited (i : ℕ) : List N :=
  TokenWalk.trail Prod.fst (net.hop topic) (origin, none) (i + 1)

/-- The broadcast has been delivered at the nodes up to a step of its walk and its
frames are on their way to the next one. -/
structure Moving (s : NetState N) (i : ℕ) (msg : BcMessage) (port : N × ℕ)
    (acks : Multiset (FlyingFrame N)) (todo : Multiset BcMessage) : Prop where
  agrees : ∀ n, (net.bus n).Agrees (s.bus n)
  delivered : s.deliveries.map Prod.fst = net.visited topic origin i
  forwarded : s.forwarded = (net.visited topic origin i).tail
  carried : Carried topic msg
  spot : net.spot topic origin (i + 1) = some (port.1, some port.2)
  pending : Pending msg (s.reasm port.1) todo
  idle : ∀ n, n ≠ port.1 → (s.reasm n).Idle
  inert : ∀ f ∈ acks, Inert f.2
  inFlight : s.inFlight = acks + todo.map fun piece => (port, frameBytes piece)

/-- It has been delivered at the nodes up to a step of its walk and goes nowhere
else. -/
structure Stopped (s : NetState N) (i : ℕ) : Prop where
  agrees : ∀ n, (net.bus n).Agrees (s.bus n)
  delivered : s.deliveries.map Prod.fst = net.visited topic origin i
  forwarded : s.forwarded <+: (net.visited topic origin i).tail
  inert : ∀ f ∈ s.inFlight, Inert f.2

variable {net topic origin}

theorem visited_eq (i : ℕ) :
    net.visited topic origin i = origin :: (net.visited topic origin i).tail := by
  simp [TokenWalk.trail, List.range_succ_eq_map, TokenWalk.position]

theorem spot_succ {i : ℕ} {p : N × Option ℕ} (h : net.spot topic origin i = some p) :
    net.spot topic origin (i + 1) = net.hop topic p := by
  have hsucc : net.spot topic origin (i + 1) =
      (net.spot topic origin i).bind (net.hop topic) := rfl
  rw [hsucc, h, Option.bind_some]

theorem visited_succ {i : ℕ} {n : N} {a : Option ℕ}
    (h : net.spot topic origin (i + 1) = some (n, a)) :
    net.visited topic origin (i + 1) = net.visited topic origin i ++ [n] :=
  TokenWalk.trail_succ Prod.fst h

theorem tail_visited_succ {i : ℕ} {n : N} {a : Option ℕ}
    (h : net.spot topic origin (i + 1) = some (n, a)) :
    (net.visited topic origin (i + 1)).tail = (net.visited topic origin i).tail ++ [n] := by
  rw [visited_succ h, visited_eq i]
  rfl

/-- Buses that agree choose the same transport. -/
theorem route_eq {bus : MessageBus} {n : N} (h : (net.bus n).Agrees bus) :
    broadcastRoute bus topic = net.route topic n := by
  simp only [BridgeNetwork.route, broadcastRoute, h.router, h.bridgeBroadcast]

/-- What a node has put on its transports goes one step of the walk, if it is not
only acknowledgements. -/
theorem arriving_spread {msg : BcMessage} {n : N} {fromTransport : Option ℕ}
    {forwarded : List (List UInt8)} {put : List (ℕ × List UInt8)}
    (h : Spread msg (net.route topic n) fromTransport forwarded put) :
    (forwarded = [] ∧ ∀ f ∈ net.arriving n put, Inert f.2) ∨
      (forwarded = (wirePieces msg).map frameBytes ∧
        ∃ (port : N × ℕ) (acks : Multiset (FlyingFrame N)),
          net.hop topic (n, fromTransport) = some (port.1, some port.2) ∧
            (∀ f ∈ acks, Inert f.2) ∧
              net.arriving n put =
                acks + (↑(wirePieces msg) : Multiset BcMessage).map fun piece =>
                  (port, frameBytes piece)) := by
  have hinertAt : ∀ acks : List (ℕ × List UInt8), (∀ a ∈ acks, Inert a.2) →
      ∀ f ∈ net.arriving n acks, Inert f.2 := by
    intro acks hacks f hf
    obtain ⟨a, ha, rfl⟩ := List.mem_map.mp (Multiset.mem_coe.mp hf)
    exact hacks a ha
  cases h with
  | kept acks hinert => exact .inl ⟨rfl, hinertAt _ hinert⟩
  | passed transport hroute hback acks hinert =>
    refine .inr ⟨rfl, net.links.peer (n, transport), net.arriving n acks, ?_, hinertAt _ hinert, ?_⟩
    · simp [TokenWalk.hop, hroute, hback]
    · simp only [BridgeNetwork.arriving, List.map_append, List.map_map, Multiset.map_coe,
        Multiset.coe_add]
      exact Multiset.coe_eq_coe.mpr List.perm_append_comm

variable [DecidableEq N] {s : NetState N} {a : Arrival N} {msg : BcMessage}

/-- A frame that completes a broadcast. -/
theorem receive_broadcast (hagrees : ∀ n, (net.bus n).Agrees (s.bus n))
    (hdecode : bcProtocolDecode a.frame.2 = .ok msg) {out : BcMessage}
    (hsome : (reassembled (s.reasm a.frame.1.1) msg).2 = some out) (hout : Carried topic out) :
    (∀ n, (net.bus n).Agrees ((net.receive s a).bus n)) ∧
      (net.receive s a).reasm =
        Function.update s.reasm a.frame.1.1 (reassembled (s.reasm a.frame.1.1) msg).1 ∧
      (net.receive s a).deliveries.map Prod.fst = s.deliveries.map Prod.fst ++ [a.frame.1.1] ∧
      ∃ forwarded put,
        Spread out (net.route topic a.frame.1.1) (some a.frame.1.2) forwarded put ∧
        (net.receive s a).inFlight =
          s.inFlight.erase a.frame + net.arriving a.frame.1.1 put ∧
        (net.receive s a).forwarded =
          (if forwarded = [] then s.forwarded else s.forwarded ++ [a.frame.1.1]) ∧
        (a.answers = [] → ∀ transport, net.route topic a.frame.1.1 = some transport →
          some transport ≠ some a.frame.1.2 → forwarded ≠ []) := by
  obtain ⟨b, r, acks, hbus, hclients, -, hreasm, hr, hreceive⟩ :=
    receive_some hagrees hdecode hsome hout.wellFormed
  have hlocal : shouldDeliverLocal b.bus out = true := by
    simp [shouldDeliverLocal, hout.broadcast.dstNode]
  obtain ⟨d, hd⟩ := hr.delivered hlocal
  obtain ⟨hspread, hpasses⟩ := hr.spread hout.wellFormed hout.broadcast
  rw [hout.topic, route_eq hbus] at hspread hpasses
  rw [hreceive]
  simp only [hd, hr.reasm, hreasm]
  refine ⟨fun n => ?_, trivial, by simp, _, _, hspread, rfl, rfl,
    fun hanswers => hpasses (hclients.trans hanswers)⟩
  by_cases hn : n = a.frame.1.1
  · subst hn
    simpa using hbus.trans hr.agrees
  · simp only [Function.update_of_ne hn]
    exact hagrees n

/-- What a frame of the broadcast leads to: the node waits for the other piece, does
not take the message for a broadcast, keeps it, or passes it on. -/
inductive Advance (net : BridgeNetwork N) (topic : List UInt8) (origin : N) (i : ℕ)
    (msg : BcMessage) (port : N × ℕ) (acks : Multiset (FlyingFrame N))
    (todo : Multiset BcMessage) (answers : List DeliverAnswer) (s : NetState N) : Prop
  | waits (h : Moving net topic origin s i msg port acks todo)
  | lost (h : Stopped net topic origin s i) (hodd : ¬ msg.Ordinary)
  | ends (h : Stopped net topic origin s (i + 1))
      (hlast : answers = [] → net.spot topic origin (i + 2) = none)
  | moves (out : BcMessage) (port' : N × ℕ) (acks' : Multiset (FlyingFrame N))
      (hordinary : out.Ordinary)
      (h : Moving net topic origin s (i + 1) out port' acks' ↑(wirePieces out))

variable {i : ℕ} {port : N × ℕ} {acks : Multiset (FlyingFrame N)} {todo : Multiset BcMessage}

/-- Frames on their way that are not for the walk any more are only counted. -/
theorem Stopped.step (h : Stopped net topic origin s i) (a : Arrival N) :
    Stopped net topic origin (net.step s a) i := by
  unfold BridgeNetwork.step
  split_ifs with hmem
  · obtain ⟨hbus, -, hflight, hdeliveries, hforwarded⟩ :=
      @receive_inert _ _ net s _ (h.inert _ hmem)
    refine ⟨fun n => (h.agrees n).trans (hbus n), ?_, ?_, ?_⟩
    · rw [hdeliveries]
      exact h.delivered
    · rw [hforwarded]
      exact h.forwarded
    · rw [hflight]
      exact fun f hf => h.inert f (Multiset.mem_of_mem_erase hf)
  · exact h

/-- An acknowledgement does not concern the walk. -/
theorem Moving.step_ack (h : Moving net topic origin s i msg port acks todo)
    (hmem : a.frame ∈ acks) :
    Moving net topic origin (net.step s a) i msg port (acks.erase a.frame) todo := by
  have hflying : a.frame ∈ s.inFlight := by
    rw [h.inFlight]
    exact Multiset.mem_add.mpr (.inl hmem)
  obtain ⟨hbus, hreasm, hflight, hdeliveries, hforwarded⟩ :=
    @receive_inert _ _ net s _ (h.inert _ hmem)
  rw [BridgeNetwork.step, if_pos hflying]
  refine ⟨fun n => (h.agrees n).trans (hbus n), ?_, ?_, h.carried, h.spot, ?_, ?_, ?_, ?_⟩
  · rw [hdeliveries]
    exact h.delivered
  · rw [hforwarded]
    exact h.forwarded
  · rw [hreasm]
    exact h.pending
  · rw [hreasm]
    exact h.idle
  · exact fun f hf => h.inert f (Multiset.mem_of_mem_erase hf)
  · rw [hflight, h.inFlight, Multiset.erase_add_left_pos _ hmem]

/-- One frame of the broadcast. -/
theorem Moving.step_piece {piece : BcMessage} {rest : Multiset BcMessage}
    (h : Moving net topic origin s i msg port acks (piece ::ₘ rest))
    (hframe : a.frame = (port, frameBytes piece)) :
    Advance net topic origin i msg port acks rest a.answers (net.step s a) := by
  have hwell := h.pending.wellFormed h.carried.wellFormed (Multiset.mem_cons_self piece rest)
  have hdecode : bcProtocolDecode a.frame.2 = .ok piece.canonical := by
    rw [hframe]
    exact decode_frameBytes hwell
  have hport : a.frame.1 = port := by rw [hframe]
  obtain ⟨hflying, hrest⟩ := piece_taken h.inFlight hframe
  have hprogress := h.pending.receive h.carried
  have hreassembled : reassembled (s.reasm a.frame.1.1) piece.canonical =
      reassembled (s.reasm port.1) piece.canonical := by rw [hport]
  rw [BridgeNetwork.step, if_pos hflying]
  generalize hresult : reassembled (s.reasm port.1) piece.canonical = result at hprogress
  rw [hresult] at hreassembled
  -- The other tables are left alone.
  have hothers : ∀ reasm n, n ≠ port.1 →
      (Function.update s.reasm a.frame.1.1 reasm n).Idle := by
    intro reasm n hn
    rw [Function.update_of_ne (by rw [hport]; exact hn)]
    exact h.idle n hn
  cases hprogress with
  | stored reasm hpending =>
    obtain ⟨hbus, hreasm, hflight, hdeliveries, hforwarded⟩ :=
      @receive_none _ _ net s _ _ hdecode (congrArg Prod.snd hreassembled)
    rw [hreassembled] at hreasm
    refine .waits ⟨fun n => (h.agrees n).trans (hbus n), ?_, ?_, h.carried, h.spot, ?_, ?_,
      h.inert, hflight.trans hrest⟩
    · rw [hdeliveries]
      exact h.delivered
    · rw [hforwarded]
      exact h.forwarded
    · rw [hreasm, ← hport, Function.update_self]
      exact hpending
    · rw [hreasm]
      exact hothers reasm
  | lost reasm hodd htodo =>
    obtain ⟨hbus, -, hflight, hdeliveries, hforwarded⟩ :=
      @receive_none _ _ net s _ _ hdecode (congrArg Prod.snd hreassembled)
    refine .lost ⟨fun n => (h.agrees n).trans (hbus n), ?_, ?_, ?_⟩ hodd
    · rw [hdeliveries]
      exact h.delivered
    · rw [hforwarded, h.forwarded]
    · rw [hflight, hrest, htodo]
      simpa using h.inert
  | complete reasm hidle out hout hordinary htodo =>
    obtain ⟨hbus, hreasm, hdeliveries, forwarded, put, hspread, hflight, hforwarded, hpasses⟩ :=
      receive_broadcast h.agrees hdecode (congrArg Prod.snd hreassembled) hout
    rw [hreassembled] at hreasm
    rw [hrest, htodo, Multiset.map_zero, add_zero] at hflight
    rw [hport] at hdeliveries hspread hflight hforwarded hpasses
    have hdelivered :
        (net.receive s a).deliveries.map Prod.fst = net.visited topic origin (i + 1) := by
      rw [hdeliveries, h.delivered, visited_succ h.spot]
    have htables : ∀ n, ((net.receive s a).reasm n).Idle := by
      intro n
      rw [hreasm]
      by_cases hn : n = port.1
      · rw [hn, ← hport, Function.update_self]
        exact hidle
      · exact hothers reasm n hn
    rcases arriving_spread hspread with ⟨hnone, hinert⟩ | ⟨hpieces, port', acks', hhop, hinert, hput⟩
    · refine .ends ⟨hbus, hdelivered, ?_, ?_⟩ fun hanswers => ?_
      · rw [hforwarded, if_pos hnone, h.forwarded, tail_visited_succ h.spot]
        exact List.prefix_append _ _
      · intro f hf
        rw [hflight] at hf
        rcases Multiset.mem_add.mp hf with hf | hf
        · exact h.inert f hf
        · exact hinert f hf
      · by_contra hmore
        rw [spot_succ h.spot] at hmore
        obtain ⟨q, hq⟩ := Option.ne_none_iff_exists'.mp hmore
        obtain ⟨transport, htransport, hback, -⟩ := TokenWalk.hop_eq_some hq
        exact hpasses hanswers transport htransport hback hnone
    · have hsome : forwarded ≠ [] := by
        rw [hpieces]
        simpa using wirePieces_ne_nil hout.wellFormed.payloadLen
      refine .moves out port' (acks + acks') hordinary ⟨hbus, hdelivered, ?_, hout, ?_,
        pending_wirePieces hout.wellFormed (htables _), fun n _ => htables n, ?_, ?_⟩
      · rw [hforwarded, if_neg hsome, h.forwarded, tail_visited_succ h.spot]
      · rw [spot_succ h.spot]
        exact hhop
      · intro f hf
        rcases Multiset.mem_add.mp hf with hf | hf
        · exact h.inert f hf
        · exact hinert f hf
      · rw [hflight, hput, add_assoc]

/-- A published broadcast either stays at its node or is on its way to the first node
of its walk. -/
theorem publish_walk (net : BridgeNetwork N) (origin : N) {msg : BcMessage} (hb : msg.Broadcast)
    (htopic : msg.topic.Terminated) (hle : msg.payloadLen ≤ bcMaxPayloadLen) (source : ℤ)
    (answers : List DeliverAnswer) :
    (Stopped net msg.topic.str origin (net.publish origin source msg answers) 0 ∧
        (msg.topic.str ≠ [] → msg.flags &&& bcFlagNoBridge = 0 →
          net.spot msg.topic.str origin 1 = none)) ∨
      ∃ (out : BcMessage) (port : N × ℕ) (acks : Multiset (FlyingFrame N)),
        Moving net msg.topic.str origin (net.publish origin source msg answers) 0 out port acks
            ↑(wirePieces out) ∧
          (msg.Ordinary → out.Ordinary) := by
  -- The message with its source and number.
  obtain ⟨hstampedBroadcast, hstampedTopic, hstampedLen, hstampedFlags⟩ :
      (stampMessage (net.bus origin) msg).1.Broadcast ∧
        (stampMessage (net.bus origin) msg).1.topic = msg.topic ∧
          (stampMessage (net.bus origin) msg).1.payloadLen = msg.payloadLen ∧
            (stampMessage (net.bus origin) msg).1.flags = msg.flags := by
    unfold stampMessage
    split_ifs <;> exact ⟨⟨hb.dstNode, hb.channel⟩, rfl, rfl, rfl⟩
  have hagrees : ∀ n, (net.bus n).Agrees ((net.publish origin source msg answers).bus n) := by
    intro n
    by_cases hn : n = origin
    · subst hn
      have hpublish := agrees_bcMessageBusPublish putOut [] answerNext (net.bus n) source msg answers
      simpa [BridgeNetwork.publish] using hpublish
    · simp only [BridgeNetwork.publish, Function.update_of_ne hn]
      exact ⟨rfl, rfl, rfl, rfl, rfl⟩
  have hdelivered : (net.publish origin source msg answers).deliveries.map Prod.fst =
      net.visited msg.topic.str origin 0 := by
    have hlocal : shouldDeliverLocal (net.bus origin) msg = true := by
      simp [shouldDeliverLocal, hb.dstNode]
    simp [BridgeNetwork.publish, hlocal, TokenWalk.trail, TokenWalk.position]
  have hidle : bcReasmInit.Idle := fun _ => rfl
  let stampedMsg := (stampMessage (net.bus origin) msg).1
  let localPart := publishLocal answerNext (stampMessage (net.bus origin) msg).2 source stampedMsg
    answers
  have hlocalAgrees : (net.bus origin).Agrees localPart.2.2.1 :=
    (agrees_stampMessage (net.bus origin) msg).trans (agrees_publishLocal answerNext source answers)
  have hflight : (net.publish origin source msg answers).inFlight =
      net.arriving origin (publishNetwork putOut localPart.2.2.1 stampedMsg localPart.1 []).2.2.2 :=
    rfl
  by_cases hempty : msg.topic.str = []
  · have hnothing := publishNetwork_no_topic localPart.2.2.1
      (show stampedMsg.topic.str = [] by rw [hstampedTopic, hempty])
      (show stampedMsg.payloadLen ≤ bcMaxPayloadLen by rw [hstampedLen]; exact hle) localPart.1
    refine .inl ⟨⟨hagrees, hdelivered, List.nil_prefix, ?_⟩, fun hne => absurd hempty hne⟩
    rw [hflight, hnothing]
    simp [BridgeNetwork.arriving]
  have hcarried : Carried msg.topic.str stampedMsg := by
    refine ⟨hstampedBroadcast, by rw [hstampedTopic], ?_, ?_, ?_, ?_⟩
    · rw [CBuffer.Terminated, hstampedBroadcast.channel]
      decide
    · rw [hstampedTopic]
      exact htopic
    · rw [hstampedTopic]
      exact hempty
    · rw [hstampedLen]
      exact hle
  obtain ⟨hspread, hsent⟩ := publishNetwork_broadcast localPart.2.2.1 hcarried.wellFormed localPart.1
  rw [networkRoute_broadcast _ hstampedBroadcast, hstampedTopic, hstampedFlags,
    route_eq hlocalAgrees] at hspread hsent
  generalize publishNetwork putOut localPart.2.2.1 stampedMsg localPart.1 [] = network
    at hflight hspread hsent
  have hstart : net.spot msg.topic.str origin 0 = some (origin, none) := rfl
  by_cases hflag : msg.flags &&& bcFlagNoBridge ≠ 0
  · rw [if_pos hflag] at hspread
    refine .inl ⟨⟨hagrees, hdelivered, List.nil_prefix, ?_⟩, fun _ hclear => absurd hclear hflag⟩
    obtain ⟨rc, sent, bus, put⟩ := network
    cases hspread with
    | kept _ hinert =>
      rw [hflight]
      intro f hf
      obtain ⟨a, ha, rfl⟩ := List.mem_map.mp (Multiset.mem_coe.mp hf)
      exact hinert a ha
    | passed _ hroute => cases hroute
  rw [if_neg hflag] at hspread hsent
  rcases arriving_spread hspread with ⟨hnone, hinert⟩ | ⟨-, port, acks, hhop, hinert, hput⟩
  · refine .inl ⟨⟨hagrees, hdelivered, List.nil_prefix, ?_⟩, fun _ _ => ?_⟩
    · rw [hflight]
      exact hinert
    · by_contra hmore
      rw [spot_succ hstart] at hmore
      obtain ⟨q, hq⟩ := Option.ne_none_iff_exists'.mp hmore
      obtain ⟨transport, htransport, -⟩ := TokenWalk.hop_eq_some hq
      exact hsent (htransport ▸ Option.some_ne_none transport) hnone
  · refine .inr ⟨stampedMsg, port, acks, ⟨hagrees, hdelivered, rfl, hcarried, ?_,
      pending_wirePieces hcarried.wellFormed hidle, fun _ _ => hidle, hinert, ?_⟩, ?_⟩
    · rw [spot_succ hstart]
      exact hhop
    · rw [hflight, hput]
    · rintro (hlong | hclear)
      · exact .inl (hlong.trans_eq hstampedLen.symm)
      · exact .inr (hstampedFlags ▸ hclear)

/-- After every run the broadcast stands at some step of its walk. -/
theorem run_walk {s : NetState N} {i : ℕ}
    (h : Stopped net topic origin s i ∨ ∃ msg port acks todo,
      Moving net topic origin s i msg port acks todo) (arrivals : List (Arrival N)) :
    ∃ j, Stopped net topic origin (Runs.run net.step s arrivals) j ∨ ∃ msg port acks todo,
      Moving net topic origin (Runs.run net.step s arrivals) j msg port acks todo := by
  refine Runs.run_of_step net.step (I := fun s => ∃ j, Stopped net topic origin s j ∨
    ∃ msg port acks todo, Moving net topic origin s j msg port acks todo) ?_ ⟨i, h⟩ arrivals
  rintro s a ⟨j, hstopped | ⟨msg, port, acks, todo, hmoving⟩⟩
  · exact ⟨j, .inl (hstopped.step a)⟩
  by_cases hmem : a.frame ∈ s.inFlight
  · have hsplit := hmem
    rw [hmoving.inFlight, Multiset.mem_add] at hsplit
    rcases hsplit with hack | hpiece
    · exact ⟨j, .inr ⟨msg, port, _, todo, hmoving.step_ack hack⟩⟩
    · obtain ⟨piece, hpiece, hframe⟩ := Multiset.mem_map.mp hpiece
      obtain ⟨rest, rfl⟩ := Multiset.exists_cons_of_mem hpiece
      cases hmoving.step_piece hframe.symm with
      | waits h => exact ⟨j, .inr ⟨msg, port, acks, rest, h⟩⟩
      | lost h _ => exact ⟨j, .inl h⟩
      | ends h _ => exact ⟨j + 1, .inl h⟩
      | moves out port' acks' _ h => exact ⟨j + 1, .inr ⟨out, port', acks', _, h⟩⟩
  · rw [BridgeNetwork.step, if_neg hmem]
    exact ⟨j, .inr ⟨msg, port, acks, todo, hmoving⟩⟩

/-- Along a walk that does not stop, the frames to a node can be handled such that
the broadcast goes on to the next one. -/
theorem Moving.goes_on (hends : ¬ TokenWalk.Ends (net.hop topic) (origin, none)) {i : ℕ}
    {msg : BcMessage} {port : N × ℕ} {acks : Multiset (FlyingFrame N)}
    {todo : Multiset BcMessage} {s : NetState N} (hordinary : msg.Ordinary)
    (h : Moving net topic origin s i msg port acks todo) :
    ∃ s', Runs.Reaches net.step s s' ∧ ∃ out port' acks', out.Ordinary ∧
      Moving net topic origin s' (i + 1) out port' acks' ↑(wirePieces out) := by
  induction todo using Multiset.induction generalizing s with
  | empty => exact absurd rfl h.pending.ne_zero
  | cons piece rest ih =>
    have hstep := Runs.Reaches.single net.step s ⟨(port, frameBytes piece), []⟩
    cases h.step_piece (a := ⟨(port, frameBytes piece), []⟩) rfl with
    | waits hwaits =>
      obtain ⟨s', hreaches, hnext⟩ := ih hwaits
      exact ⟨s', hstep.trans hreaches, hnext⟩
    | lost _ hodd => exact absurd hordinary hodd
    | ends _ hlast => exact absurd ⟨i + 2, hlast rfl⟩ hends
    | moves out port' acks' hout hmoves => exact ⟨_, hstep, out, port', acks', hout, hmoves⟩

end Walk

section Once

variable {N : Type*} [DecidableEq N]

/-- The broadcast has been handed to the subscribers of no node twice, at its own
node only when it was published, and was not passed on there. -/
structure BroadcastOnce (origin : N) (s : NetState N) : Prop where
  delivered : (s.deliveries.map Prod.fst).Nodup
  own : (s.deliveries.map Prod.fst).count origin = 1
  forwarded : origin ∉ s.forwarded

/-- What has been delivered and passed on along a walk that visits no node twice. -/
theorem broadcastOnce_of_nodup {net : BridgeNetwork N} {topic : List UInt8} {origin : N}
    {s : NetState N} {i : ℕ} (hnodup : (net.visited topic origin i).Nodup)
    (hdelivered : s.deliveries.map Prod.fst = net.visited topic origin i)
    (hforwarded : s.forwarded <+: (net.visited topic origin i).tail) : BroadcastOnce origin s := by
  have hvisited : net.visited topic origin i = origin :: (net.visited topic origin i).tail :=
    visited_eq i
  have hnot : origin ∉ (net.visited topic origin i).tail := by
    rw [hvisited] at hnodup
    exact (List.nodup_cons.mp hnodup).1
  refine ⟨hdelivered ▸ hnodup, ?_, fun hmem => hnot (hforwarded.subset hmem)⟩
  rw [hdelivered]
  exact List.count_eq_one_of_mem hnodup (by rw [hvisited]; simp)

/-- A walk that does not stop can be followed as far as one likes. -/
theorem exists_moving {net : BridgeNetwork N} {origin : N} {msg : BcMessage} (hb : msg.Broadcast)
    (htopic : msg.topic.Terminated) (hle : msg.payloadLen ≤ bcMaxPayloadLen)
    (hne : msg.topic.str ≠ []) (hbridge : msg.flags &&& bcFlagNoBridge = 0)
    (hordinary : msg.Ordinary)
    (hends : ¬ TokenWalk.Ends (net.hop msg.topic.str) (origin, none)) (i : ℕ) :
    ∃ s', Runs.Reaches net.step (net.publish origin 0 msg []) s' ∧
      ∃ out port acks, out.Ordinary ∧
        Moving net msg.topic.str origin s' i out port acks ↑(wirePieces out) := by
  induction i with
  | zero =>
    rcases publish_walk net origin hb htopic hle 0 [] with
      ⟨-, hstays⟩ | ⟨out, port, acks, hmoving, hout⟩
    · exact absurd ⟨1, hstays hne hbridge⟩ hends
    · exact ⟨_, .refl _ _, out, port, acks, hout hordinary, hmoving⟩
  | succ i ih =>
    obtain ⟨s, hreaches, out, port, acks, hout, hmoving⟩ := ih
    obtain ⟨s', hreaches', hnext⟩ := hmoving.goes_on hends hout
    exact ⟨s', hreaches.trans hreaches', hnext⟩

/-- Broadcasts circulate only over routes that lead in a circle: a broadcast is
handed to the subscribers of each node at most once, whatever happens, if following
the routes from its node comes to an end. Where it does not, an ordinary broadcast
can come to a node again. -/
theorem broadcast_once_iff_walk_ends [Finite N] (net : BridgeNetwork N) (origin : N)
    {msg : BcMessage} (hb : msg.Broadcast) (htopic : msg.topic.Terminated)
    (hle : msg.payloadLen ≤ bcMaxPayloadLen) :
    (TokenWalk.Ends (net.hop msg.topic.str) (origin, none) → ∀ source answers arrivals,
      Runs.Along net.step (BroadcastOnce origin) (net.publish origin source msg answers)
        arrivals) ∧
    (msg.topic.str ≠ [] → msg.flags &&& bcFlagNoBridge = 0 → msg.Ordinary →
      (∀ source answers arrivals,
        Runs.Along net.step (BroadcastOnce origin) (net.publish origin source msg answers)
          arrivals) →
      TokenWalk.Ends (net.hop msg.topic.str) (origin, none)) := by
  constructor
  · intro hends source answers arrivals pre _
    have hstart : Stopped net msg.topic.str origin (net.publish origin source msg answers) 0 ∨
        ∃ out port acks todo, Moving net msg.topic.str origin
          (net.publish origin source msg answers) 0 out port acks todo := by
      rcases publish_walk net origin hb htopic hle source answers with
        ⟨hstopped, -⟩ | ⟨out, port, acks, hmoving, -⟩
      · exact .inl hstopped
      · exact .inr ⟨out, port, acks, _, hmoving⟩
    obtain ⟨i, hstopped | ⟨out, port, acks, todo, hmoving⟩⟩ := run_walk hstart pre
    · exact broadcastOnce_of_nodup (TokenWalk.nodup_trail origin hends _) hstopped.delivered
        hstopped.forwarded
    · exact broadcastOnce_of_nodup (TokenWalk.nodup_trail origin hends _) hmoving.delivered
        (hmoving.forwarded ▸ List.prefix_rfl)
  · intro hne hbridge hordinary honce
    by_contra hends
    obtain ⟨n, hrepeat⟩ := TokenWalk.exists_not_nodup_trail origin hends
    cases n with
    | zero => exact hrepeat List.nodup_nil
    | succ i =>
      obtain ⟨s, ⟨arrivals, rfl⟩, out, port, acks, -, hmoving⟩ :=
        exists_moving hb htopic hle hne hbridge hordinary hends i
      have hnodup := (honce 0 [] arrivals arrivals List.prefix_rfl).delivered
      rw [hmoving.delivered] at hnodup
      exact hrepeat hnodup

end Once

section Pair

/-- Two nodes with two links between them, and on each a subscriber of everything.
Each node has one route. -/
def pairBus (id : UInt32) (name : List UInt8) : MessageBus :=
  ⟨[⟨5, .ofPrefix _ anyTopic⟩], ⟨[], [⟨anyTopic, name⟩], [[97], [98]]⟩, id, 0, false, true,
    bcStatsReset⟩

def pairPeer (p : Bool × ℕ) : Bool × ℕ := (!p.1, p.2)

theorem pairPeer_pairPeer (p : Bool × ℕ) : pairPeer (pairPeer p) = p := by simp [pairPeer]

theorem pairPeer_ne (p : Bool × ℕ) : (pairPeer p).1 ≠ p.1 := by simp [pairPeer]

/-- The first node sends over the link `a`, the second over the link named. -/
def pairNetwork (name : List UInt8) : BridgeNetwork Bool where
  bus n := if n then pairBus 1 [97] else pairBus 2 name
  links := ⟨pairPeer, pairPeer_pairPeer, pairPeer_ne⟩

def pairMessage : BcMessage := { BcMessage.zero with topic := .ofPrefix _ [116] }

/-- The message as it is sent. -/
def pairSent : BcMessage := { pairMessage with srcNode := 1, seq := 1 }

def pairArrivals : List (Arrival Bool) :=
  [⟨((false, 0), frameBytes pairSent), []⟩, ⟨((true, 1), frameBytes pairSent), []⟩,
    ⟨((false, 0), frameBytes pairSent), []⟩]

theorem broadcast_once_one_link :
    Runs.Along (pairNetwork [97]).step (BroadcastOnce true)
      ((pairNetwork [97]).publish true 4 pairMessage []) pairArrivals :=
  (broadcast_once_iff_walk_ends (pairNetwork [97]) true ⟨rfl, by decide +kernel⟩
    (by decide +kernel) (by decide)).1 ⟨2, by decide +kernel⟩ 4 [] pairArrivals

/-- Over the two links the broadcast comes back to its node, which hands it to its
subscribers and passes it on again. -/
theorem broadcast_circulates :
    ((pairNetwork [98]).bus true).nodeId ≠ ((pairNetwork [98]).bus false).nodeId ∧
      (∀ n, ((pairNetwork [98]).bus n).bridgeBroadcast = true) ∧ pairMessage.Broadcast ∧
      (Runs.run (pairNetwork [98]).step ((pairNetwork [98]).publish true 4 pairMessage [])
        pairArrivals).deliveries.map (fun d => (d.1, d.2.map BcSubscription.fd)) =
          [(true, [5]), (false, [5]), (true, [5]), (false, [5])] ∧
      true ∈ (Runs.run (pairNetwork [98]).step ((pairNetwork [98]).publish true 4 pairMessage [])
        pairArrivals).forwarded :=
  ⟨by decide +kernel, by decide +kernel, ⟨rfl, by decide +kernel⟩, by decide +kernel,
    by decide +kernel⟩

end Pair

end BoardComm
