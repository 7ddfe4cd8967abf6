import BoardComm.BridgeNetwork
import BoardComm.Reassembly

/-!
# Messages that come in pieces

The frames of one message arrive at a node that has nothing else to collect, in any
order. With the last of them the node has the message, or one that it takes for it.
-/
namespace BoardComm

/-- The table collects no message. -/
def BcReasm.Idle (reasm : BcReasm) : Prop := ∀ k, (reasm.slots k).active = false

/-- The flags do not make the message look like a piece or an acknowledgement to
the next node. The pieces of a long message have flags of their own. -/
def BcMessage.Ordinary (msg : BcMessage) : Prop :=
  msg.payloadLen > bcFragChunkMax ∨ (msg.flags &&& bcFlagAck = 0 ∧ msg.flags &&& bcFlagFragment = 0)

/-- The messages that a node still has to receive until it has the broadcast, by
the state of its table. -/
inductive Pending (msg : BcMessage) (reasm : BcReasm) (todo : Multiset BcMessage) : Prop
  | whole (hshort : ¬ msg.payloadLen > bcFragChunkMax) (hidle : reasm.Idle) (htodo : todo = {msg})
  | both (hlong : msg.payloadLen > bcFragChunkMax) (hidle : reasm.Idle)
      (htodo : todo = {fragmentPiece msg 2 0, fragmentPiece msg 2 1})
  | second (hlong : msg.payloadLen > bcFragChunkMax) (a b : PieceIndex) (hne : a ≠ b)
      (k : Fin bcReasmSlots) (slot : BcReasmSlot) (hslot : reasm.slots k = slot.taken msg a)
      (hother : ∀ l, l ≠ k → (reasm.slots l).active = false)
      (htodo : todo = {fragmentPiece msg 2 b})

/-- A proper message that goes where the other does, and answers to its name. -/
structure BcMessage.Alike (out msg : BcMessage) : Prop where
  srcNode : out.srcNode = msg.srcNode
  dstNode : out.dstNode = msg.dstNode
  qos : out.qos = msg.qos
  seq : out.seq = msg.seq
  channel : out.channel.str = msg.channel.str
  topic : out.topic.str = msg.topic.str
  wellFormed : out.WellFormed

/-- What one of these messages leads to. -/
inductive Outcome (msg : BcMessage) (todo : Multiset BcMessage) :
    BcReasm × Option BcMessage → Prop
  | stored (reasm : BcReasm) (hpending : Pending msg reasm todo) : Outcome msg todo (reasm, none)
  | complete (reasm : BcReasm) (hidle : reasm.Idle) (out : BcMessage) (hout : out.Alike msg)
      (hordinary : out.Ordinary) (htodo : todo = 0) : Outcome msg todo (reasm, some out)
  | lost (reasm : BcReasm) (hodd : ¬ msg.Ordinary) (htodo : todo = 0) :
      Outcome msg todo (reasm, none)

section Arrival

variable {msg : BcMessage} {reasm : BcReasm}

theorem BcMessage.Alike.trans {a b c : BcMessage} (h : a.Alike b) (h' : b.Alike c) : a.Alike c :=
  ⟨h.srcNode.trans h'.srcNode, h.dstNode.trans h'.dstNode, h.qos.trans h'.qos, h.seq.trans h'.seq,
    h.channel.trans h'.channel, h.topic.trans h'.topic, h.wellFormed⟩

/-- A message with the strings of a proper one is proper too. -/
theorem BcMessage.WellFormed.of_strings {out : BcMessage} (h : msg.WellFormed)
    (hchannel : out.channel.str = msg.channel.str) (htopic : out.topic.str = msg.topic.str)
    (hle : out.payloadLen ≤ bcMaxPayloadLen) : out.WellFormed := by
  refine ⟨?_, ?_, ?_, hle⟩
  · rw [CBuffer.Terminated, hchannel]
    exact h.channel
  · rw [CBuffer.Terminated, htopic]
    exact h.topic
  · rw [htopic]
    exact h.topic_ne

theorem BcMessage.WellFormed.alike_of_same {out : BcMessage} (h : msg.WellFormed)
    {flags : UInt16} (hout : out.Same { msg with flags := flags }) : out.Alike msg :=
  ⟨hout.srcNode, hout.dstNode, hout.qos, hout.seq, hout.channel, hout.topic,
    h.of_strings hout.channel hout.topic (hout.payloadLen.trans_le h.payloadLen)⟩

theorem BcMessage.WellFormed.canonical_alike (h : msg.WellFormed) : msg.canonical.Alike msg :=
  @BcMessage.WellFormed.alike_of_same msg _ h msg.flags (BcMessage.canonical_same h)

/-- No slot of an idle table holds a message. -/
theorem BcReasm.Idle.not_holds (h : reasm.Idle) (seq srcNode : UInt32) (k : Fin bcReasmSlots) :
    ¬ (reasm.slots k).Holds seq srcNode := by
  intro hk
  have hactive := hk.1
  rw [h k] at hactive
  cases hactive

theorem pending_wirePieces (h : msg.WellFormed) (hidle : reasm.Idle) :
    Pending msg reasm ↑(wirePieces msg) := by
  unfold wirePieces
  split_ifs with hgt
  · refine .both hgt hidle ?_
    rw [fragmentsOf_eq hgt h.payloadLen]
    rfl
  · exact .whole hgt hidle rfl

/-- The node always waits for some message, and for proper ones. -/
theorem Pending.ne_zero {todo : Multiset BcMessage} (h : Pending msg reasm todo) : todo ≠ 0 := by
  cases h with
  | whole _ _ htodo => simp [htodo]
  | both _ _ htodo => simp [htodo]
  | second _ _ _ _ _ _ _ _ htodo => simp [htodo]

theorem Pending.wellFormed {todo : Multiset BcMessage} (h : Pending msg reasm todo)
    (hwell : msg.WellFormed) {piece : BcMessage} (hpiece : piece ∈ todo) : piece.WellFormed := by
  cases h with
  | whole _ _ htodo =>
    rw [htodo, Multiset.mem_singleton] at hpiece
    exact hpiece ▸ hwell
  | both _ _ htodo =>
    rw [htodo] at hpiece
    simp only [Multiset.insert_eq_cons, Multiset.mem_cons, Multiset.mem_singleton] at hpiece
    rcases hpiece with rfl | rfl <;> exact fragmentPiece_wellFormed hwell 2 _
  | second _ _ _ _ _ _ _ _ htodo =>
    rw [htodo, Multiset.mem_singleton] at hpiece
    exact hpiece ▸ fragmentPiece_wellFormed hwell 2 _

/-- A piece goes to the reassembly. -/
theorem reassembled_piece (hle : msg.payloadLen ≤ bcMaxPayloadLen) (a : PieceIndex) :
    reassembled reasm (fragmentPiece msg 2 a).canonical =
      (bcReasmFeed reasm (fragmentPiece msg 2 a)).2 := by
  have hack : ¬ ((fragmentPiece msg 2 a).flags &&& bcFlagAck ≠ 0) := by
    rw [show (fragmentPiece msg 2 a).flags = bcFlagFragment from rfl]
    decide
  have hfrag : (fragmentPiece msg 2 a).flags &&& bcFlagFragment ≠ 0 := by
    rw [show (fragmentPiece msg 2 a).flags = bcFlagFragment from rfl]
    decide
  rw [fragmentPiece_canonical hle, reassembled, if_neg hack, if_pos hfrag]

/-- The first piece takes a slot. -/
theorem Outcome.first (hlong : msg.payloadLen > bcFragChunkMax) (h : msg.WellFormed)
    (hidle : reasm.Idle) {a b : PieceIndex} (hne : a ≠ b) :
    Outcome msg {fragmentPiece msg 2 b} (bcReasmFeed reasm (fragmentPiece msg 2 a)).2 := by
  have hnew := hidle.not_holds msg.seq msg.srcNode
  have hfed := fed_piece hlong h.payloadLen h.channel h.topic (fun k hk => absurd hk (hnew k)) a
  generalize bcReasmFeed reasm (fragmentPiece msg 2 a) = answer at hfed
  cases hfed with
  | refused hfull _ =>
    have hzero := hfull 0
    rw [hidle 0] at hzero
    cases hzero
  | again k slot hslot => exact absurd (hslot ▸ taken_holds slot msg a) (hnew k)
  | last k slot other _ hslot => exact absurd (hslot ▸ taken_holds slot msg other) (hnew k)
  | first k _ _ =>
    refine .stored _ (.second hlong a b hne k (reasm.slots k) ?_ ?_ rfl)
    · simp [BcReasm.set]
    · intro l hl
      simp only [BcReasm.set, Function.update_of_ne hl]
      exact hidle l

/-- The other piece completes the message. -/
theorem Outcome.last (hlong : msg.payloadLen > bcFragChunkMax) (h : msg.WellFormed)
    {a b : PieceIndex} (hne : a ≠ b) {k : Fin bcReasmSlots} {slot : BcReasmSlot}
    (hslot : reasm.slots k = slot.taken msg a)
    (hother : ∀ l, l ≠ k → (reasm.slots l).active = false) :
    Outcome msg 0 (bcReasmFeed reasm (fragmentPiece msg 2 b)).2 := by
  have honly : ∀ l, (reasm.slots l).Holds msg.seq msg.srcNode → l = k := by
    intro l hl
    by_contra hlk
    have hactive := hl.1
    rw [hother l hlk] at hactive
    cases hactive
  have hk : (reasm.slots k).Holds msg.seq msg.srcNode := hslot ▸ taken_holds slot msg a
  have hfed := fed_piece hlong h.payloadLen h.channel h.topic
    (fun l hl => ⟨slot, a, honly l hl ▸ hslot⟩) b
  generalize bcReasmFeed reasm (fragmentPiece msg 2 b) = answer at hfed
  cases hfed with
  | refused _ hnew => exact absurd hk (hnew k)
  | again l slot' hslot' =>
    have hl : l = k := honly l (hslot' ▸ taken_holds slot' msg b)
    exact absurd (taken_index (hslot.symm.trans (hl ▸ hslot'))) hne
  | last l slot' other _ hslot' out hout done hdone =>
    have hl : l = k := honly l (hslot' ▸ taken_holds slot' msg other)
    have hflags : out.flags = 0 := hout.flags
    refine .complete _ ?_ out (h.alike_of_same hout) (.inr (by simp [hflags])) rfl
    intro m
    by_cases hm : m = l
    · simpa [BcReasm.set, hm] using hdone
    · simp only [BcReasm.set, Function.update_of_ne hm]
      exact hother m (hl ▸ hm)
  | first _ _ hnew => exact absurd hk (hnew k)

/-- What an idle table makes of a single piece. -/
theorem bcReasmFeed_idle {frag out : BcMessage} (hidle : reasm.Idle)
    (hsome : (bcReasmFeed reasm frag).2.2 = some out) :
    (bcReasmFeed reasm frag).2.1.Idle ∧
      ∃ (slot : BcReasmSlot) (total : ℕ) (index : PieceIndex),
        out = ((slot.activate frag total).store index frag).message ∧
          ((slot.activate frag total).store index frag).payloadLen ≤ bcMaxPayloadLen := by
  unfold bcReasmFeed at hsome ⊢
  split_ifs at hsome ⊢
  cases hfind : findSlot reasm frag.seq frag.srcNode with
  | none => simp [hfind] at hsome
  | some k =>
    simp only [hfind] at hsome ⊢
    unfold feedSlot at hsome ⊢
    simp only [hidle k, Bool.false_eq_true, false_and, if_false] at hsome ⊢
    split_ifs at hsome ⊢ with hroom hbit hmore
    refine ⟨fun l => ?_, reasm.slots k, frag.fragTotal, _, (Option.some.inj hsome).symm, ?_⟩
    · by_cases hl : l = k
      · simp [BcReasm.set, hl]
      · simp only [BcReasm.set, Function.update_of_ne hl]
        exact hidle l
    · simp only [BcReasmSlot.store, BcReasmSlot.activate]
      omega

/-- One of the messages arrives. -/
theorem Pending.outcome {todo : Multiset BcMessage} {piece : BcMessage} (h : msg.WellFormed)
    (hpending : Pending msg reasm (piece ::ₘ todo)) :
    Outcome msg todo (reassembled reasm piece.canonical) := by
  have hle := h.payloadLen
  cases hpending with
  | whole hshort hidle htodo =>
    obtain ⟨rfl, rfl⟩ := (Multiset.singleton_eq_cons_iff _).mp htodo.symm
    have hcanonical := h.canonical_alike
    unfold reassembled
    by_cases hack : msg.canonical.flags &&& bcFlagAck ≠ 0
    · rw [if_pos hack]
      refine .lost _ ?_ rfl
      rintro (hlong | ⟨hflag, -⟩)
      · exact hshort hlong
      · exact hack hflag
    rw [if_neg hack]
    by_cases hfrag : msg.canonical.flags &&& bcFlagFragment ≠ 0
    · rw [if_pos hfrag]
      rcases hanswer : bcReasmFeed reasm msg.canonical with ⟨rc, reasm', _ | out⟩
      · refine .lost _ ?_ rfl
        rintro (hlong | ⟨-, hflag⟩)
        · exact hshort hlong
        · exact hfrag hflag
      · -- The message passes for the only piece of another one.
        obtain ⟨hidle', slot, total, index, hout, hlen⟩ :=
          bcReasmFeed_idle hidle (congrArg (·.2.2) hanswer)
        rw [hanswer] at hidle'
        have hchannel : out.channel.str = msg.channel.str := by
          rw [hout, BcReasmSlot.message, CBuffer.str_strncpy_zero _ (by decide)]
          refine (CBuffer.cstr_take_strncpy _ _ (by decide)).trans ?_
          exact (CBuffer.cstr_take_of_terminated hcanonical.wellFormed.channel).trans
            hcanonical.channel
        have htopic : out.topic.str = msg.topic.str := by
          rw [hout, BcReasmSlot.message, CBuffer.str_strncpy_zero _ (by decide)]
          refine (CBuffer.cstr_take_strncpy _ _ (by decide)).trans ?_
          exact (CBuffer.cstr_take_of_terminated hcanonical.wellFormed.topic).trans
            hcanonical.topic
        have hwell := h.of_strings hchannel htopic (by rw [hout]; exact hlen)
        subst hout
        refine .complete reasm' hidle' _ ⟨rfl, rfl, rfl, rfl, hchannel, htopic, hwell⟩ (.inr ?_) rfl
        simp [BcReasmSlot.message, BcMessage.zero]
    · rw [if_neg hfrag]
      exact .complete reasm hidle _ hcanonical (.inr ⟨not_not.mp hack, not_not.mp hfrag⟩) rfl
  | both hlong hidle htodo =>
    have hone : ((1 : PieceIndex) : ℕ) = 1 := rfl
    rcases Multiset.cons_eq_cons.mp htodo with ⟨hpiece, hrest⟩ | ⟨-, cs, hrest, hpiece⟩
    · subst hpiece hrest
      have hfirst := Outcome.first (a := 0) (b := 1) hlong h hidle (by decide)
      have hfeed := @reassembled_piece msg reasm hle 0
      rw [Fin.val_zero] at hfeed
      rw [hfeed]
      exact hfirst
    · obtain ⟨hpiece', hnil⟩ := (Multiset.singleton_eq_cons_iff _).mp hpiece
      subst hpiece' hnil hrest
      have hfirst := Outcome.first (a := 1) (b := 0) hlong h hidle (by decide)
      have hfeed := @reassembled_piece msg reasm hle 1
      rw [hone] at hfeed
      rw [hfeed]
      exact hfirst
  | second hlong a b hne k slot hslot hother htodo =>
    obtain ⟨rfl, rfl⟩ := (Multiset.singleton_eq_cons_iff _).mp htodo.symm
    rw [reassembled_piece hle b]
    exact .last hlong h hne hslot hother

end Arrival

end BoardComm
