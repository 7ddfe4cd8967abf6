import BoardComm.Fragment
import BoardComm.Runs

/-!
# Reassembly over whole runs

Pieces of many messages arrive interleaved, in any order and more than once. A
slot remembers the piece it has until the other one arrives, and nothing after
that: a repeat that comes later opens a slot again.
-/
namespace BoardComm

abbrev PieceIndex : Type := Fin (bcMaxPayloadLen / bcFragChunkMax + 1)

/-- A slot after the first piece of a message. -/
def BcReasmSlot.taken (slot : BcReasmSlot) (msg : BcMessage) (index : PieceIndex) : BcReasmSlot :=
  (slot.activate (fragmentPiece msg 2 index) 2).store index (fragmentPiece msg 2 index)

/-- Every piece of the message has been fed. -/
def Arrived (fed : List BcMessage) (msg : BcMessage) : Prop := ∀ piece ∈ fragmentsOf msg, piece ∈ fed

instance (fed : List BcMessage) (msg : BcMessage) : Decidable (Arrived fed msg) :=
  inferInstanceAs (Decidable (∀ piece ∈ fragmentsOf msg, piece ∈ fed))

/-- Some piece has been fed, and some has not. -/
def Incomplete (fed : List BcMessage) (msg : BcMessage) : Prop :=
  (∃ piece ∈ fragmentsOf msg, piece ∈ fed) ∧ ¬ Arrived fed msg

/-- Messages that travel in pieces, told apart by their node and number. -/
structure Fragmented {ι : Type*} (msgs : ι → BcMessage) : Prop where
  distinct : ∀ i j, (msgs i).seq = (msgs j).seq → (msgs i).srcNode = (msgs j).srcNode → i = j
  long : ∀ i, bcFragChunkMax < (msgs i).payloadLen
  fits : ∀ i, (msgs i).payloadLen ≤ bcMaxPayloadLen
  channel : ∀ i, (msgs i).channel.Terminated
  topic : ∀ i, (msgs i).topic.Terminated

/-- A table with what it was fed, and the numbers and nodes for which it answered
`BC_OK`. -/
structure ReasmRun where
  reasm : BcReasm
  fed : List BcMessage
  completed : List (UInt32 × UInt32)

namespace ReasmRun

def start : ReasmRun := ⟨bcReasmInit, [], []⟩

/-- `bc_reasm_feed`, seen from outside. -/
def feed (r : ReasmRun) (frag : BcMessage) : ReasmRun :=
  let answer := bcReasmFeed r.reasm frag
  ⟨answer.2.1, r.fed ++ [frag],
    if answer.1 = .ok then r.completed ++ [(frag.seq, frag.srcNode)] else r.completed⟩

@[simp] theorem feed_fed (r : ReasmRun) (frag : BcMessage) : (r.feed frag).fed = r.fed ++ [frag] :=
  rfl

@[simp] theorem feed_reasm (r : ReasmRun) (frag : BcMessage) :
    (r.feed frag).reasm = (bcReasmFeed r.reasm frag).2.1 := rfl

theorem run_fed (r : ReasmRun) (frags : List BcMessage) :
    (Runs.run feed r frags).fed = r.fed ++ frags := by
  induction frags generalizing r with
  | nil => simp
  | cons frag frags ih => simp [ih]

end ReasmRun

section Pieces

variable {msg : BcMessage}

/-- The pieces are told apart by their index. -/
theorem fragmentPiece_inj (hle : msg.payloadLen ≤ bcMaxPayloadLen) {a b : PieceIndex}
    (h : fragmentPiece msg 2 a = fragmentPiece msg 2 b) : a = b := by
  have hsmall : ∀ c : PieceIndex, (c : ℕ) < 2 ^ 16 := fun c => lt_of_lt_of_le c.isLt (by decide)
  obtain ⟨ha, -, -⟩ := fragmentPiece_read 2 a hle (hsmall a) (by decide)
  obtain ⟨hb, -, -⟩ := fragmentPiece_read 2 b hle (hsmall b) (by decide)
  apply Fin.ext
  rw [← ha, ← hb, h]

theorem mem_fragmentsOf (hgt : bcFragChunkMax < msg.payloadLen)
    (hle : msg.payloadLen ≤ bcMaxPayloadLen) {frag : BcMessage} :
    frag ∈ fragmentsOf msg ↔ ∃ a : PieceIndex, frag = fragmentPiece msg 2 a := by
  rw [fragmentsOf_eq hgt hle]
  constructor
  · intro h
    rcases List.mem_cons.mp h with rfl | h
    · exact ⟨0, rfl⟩
    · exact ⟨1, List.mem_singleton.mp h⟩
  · rintro ⟨a, rfl⟩
    have ha : (a : ℕ) = 0 ∨ (a : ℕ) = 1 := by
      have hlt : (a : ℕ) < 2 := a.isLt
      omega
    rcases ha with ha | ha <;> rw [ha] <;> simp

theorem arrived_iff (hgt : bcFragChunkMax < msg.payloadLen)
    (hle : msg.payloadLen ≤ bcMaxPayloadLen) {fed : List BcMessage} :
    Arrived fed msg ↔ ∀ a : PieceIndex, fragmentPiece msg 2 a ∈ fed := by
  constructor
  · intro h a
    exact h _ ((mem_fragmentsOf hgt hle).mpr ⟨a, rfl⟩)
  · intro h piece hpiece
    obtain ⟨a, rfl⟩ := (mem_fragmentsOf hgt hle).mp hpiece
    exact h a

/-- There are two pieces: what is not one of them is the other. -/
theorem pieceIndex_cases : ∀ a b : PieceIndex, a ≠ b → ∀ c, c = a ∨ c = b := by decide

/-- The message is complete once both indices have been fed. -/
theorem arrived_of_two (hgt : bcFragChunkMax < msg.payloadLen)
    (hle : msg.payloadLen ≤ bcMaxPayloadLen) {fed : List BcMessage} {a b : PieceIndex}
    (hne : a ≠ b) (ha : fragmentPiece msg 2 a ∈ fed) (hb : fragmentPiece msg 2 b ∈ fed) :
    Arrived fed msg := by
  rw [arrived_iff hgt hle]
  intro c
  rcases pieceIndex_cases a b hne c with rfl | rfl
  · exact ha
  · exact hb

end Pieces

section Slots

variable {slot : BcReasmSlot} {msg : BcMessage}

theorem taken_holds (slot : BcReasmSlot) (msg : BcMessage) (index : PieceIndex) :
    (slot.taken msg index).Holds msg.seq msg.srcNode := ⟨rfl, rfl, rfl⟩

/-- The piece that a slot has can be read off it. -/
theorem taken_bitmap (slot : BcReasmSlot) (msg : BcMessage) (a b : PieceIndex) :
    (slot.taken msg a).bitmap b = decide (b = a) := by
  simp only [BcReasmSlot.taken, BcReasmSlot.store, BcReasmSlot.activate, Function.update_apply]
  split_ifs with h <;> simp [h]

theorem taken_index {slot slot' : BcReasmSlot} {a b : PieceIndex}
    (h : slot.taken msg a = slot'.taken msg b) : a = b := by
  have hbit := congrArg (fun s => BcReasmSlot.bitmap s a) h
  simpa [taken_bitmap] using hbit

/-- The pieces may be stored in either order. -/
theorem taken_store_comm (slot : BcReasmSlot) (hle : msg.payloadLen ≤ bcMaxPayloadLen)
    {a b : PieceIndex} (hlt : a < b) :
    (slot.taken msg b).store a (fragmentPiece msg 2 a) =
      (slot.taken msg a).store b (fragmentPiece msg 2 b) := by
  have hsmall : ∀ c : PieceIndex, (c : ℕ) < 2 ^ 16 := fun c => lt_of_lt_of_le c.isLt (by decide)
  obtain ⟨-, -, ha⟩ := fragmentPiece_read 2 a hle (hsmall a) (by decide)
  obtain ⟨-, -, hb⟩ := fragmentPiece_read 2 b hle (hsmall b) (by decide)
  have hstart : slot.activate (fragmentPiece msg 2 b) 2 =
      slot.activate (fragmentPiece msg 2 a) 2 := by
    simp only [BcReasmSlot.activate, fragmentPiece]
  have hplaces : (a : ℕ) * bcFragChunkMax + (chunkOf msg a).length ≤ b * bcFragChunkMax := by
    have hchunk := chunkOf_length_le msg a
    have hstep : ((a : ℕ) + 1) * bcFragChunkMax ≤ b * bcFragChunkMax :=
      Nat.mul_le_mul_right _ hlt
    rw [Nat.add_mul, Nat.one_mul] at hstep
    omega
  have hend : (b : ℕ) * bcFragChunkMax + (chunkOf msg b).length ≤ bcMaxPayloadLen := by
    have hfits := fragmentPiece_fits hle b
    rw [fragmentPiece_payloadLen hle, Nat.add_sub_cancel_left] at hfits
    exact Nat.not_lt.mp hfits
  simp only [BcReasmSlot.taken, hstart, BcReasmSlot.store, ha, hb, BcReasmSlot.mk.injEq, true_and]
  refine ⟨?_, CBuffer.copyAt_comm _ hplaces hend, max_right_comm _ _ _⟩
  rw [Function.update_comm hlt.ne']

/-- Both pieces make the message, whichever came first. -/
theorem taken_message_same (slot : BcReasmSlot) (hgt : bcFragChunkMax < msg.payloadLen)
    (hle : msg.payloadLen ≤ bcMaxPayloadLen) (hch : msg.channel.Terminated)
    (htop : msg.topic.Terminated) {a b : PieceIndex} (hne : a ≠ b) :
    ((slot.taken msg a).store b (fragmentPiece msg 2 b)).message.Same { msg with flags := 0 } := by
  have hordered : ∀ {a b : PieceIndex}, a < b →
      ((slot.taken msg a).store b (fragmentPiece msg 2 b)).message.Same { msg with flags := 0 } := by
    intro a b hlt
    have hends : ∀ a b : PieceIndex, a < b → a = 0 ∧ b = 1 := by decide
    obtain ⟨rfl, rfl⟩ := hends a b hlt
    have hsame := message_same slot hgt hle hch htop
    have hone : ((1 : PieceIndex) : ℕ) = 1 := rfl
    rw [BcReasmSlot.taken, Fin.val_zero, hone]
    exact hsame
  rcases lt_or_gt_of_ne hne with hlt | hgt'
  · exact hordered hlt
  · rw [taken_store_comm slot hle hgt']
    exact hordered hgt'

end Slots

/-- What `bc_reasm_feed` can answer to a piece of a message. -/
inductive Fed (reasm : BcReasm) (msg : BcMessage) (index : PieceIndex) :
    BcStatus × BcReasm × Option BcMessage → Prop
  | refused (hfull : ∀ k, (reasm.slots k).active = true)
      (hnew : ∀ k, ¬ (reasm.slots k).Holds msg.seq msg.srcNode) :
      Fed reasm msg index (.nomem, reasm, none)
  | again (k : Fin bcReasmSlots) (slot : BcReasmSlot)
      (hslot : reasm.slots k = slot.taken msg index) :
      Fed reasm msg index (.notFound, reasm, none)
  | last (k : Fin bcReasmSlots) (slot : BcReasmSlot) (other : PieceIndex) (hne : other ≠ index)
      (hslot : reasm.slots k = slot.taken msg other) (out : BcMessage)
      (hout : out.Same { msg with flags := 0 }) (done : BcReasmSlot) (hdone : done.active = false) :
      Fed reasm msg index (.ok, reasm.set k done, some out)
  | first (k : Fin bcReasmSlots) (hfree : (reasm.slots k).active = false)
      (hnew : ∀ l, ¬ (reasm.slots l).Holds msg.seq msg.srcNode) :
      Fed reasm msg index (.notFound, reasm.set k ((reasm.slots k).taken msg index), none)

/-- A table whose slot for the message, if any, has one piece of it. -/
theorem fed_piece {reasm : BcReasm} {msg : BcMessage} (hgt : bcFragChunkMax < msg.payloadLen)
    (hle : msg.payloadLen ≤ bcMaxPayloadLen) (hch : msg.channel.Terminated)
    (htop : msg.topic.Terminated)
    (htaken : ∀ k, (reasm.slots k).Holds msg.seq msg.srcNode →
      ∃ slot a, reasm.slots k = BcReasmSlot.taken slot msg a) (index : PieceIndex) :
    Fed reasm msg index (bcReasmFeed reasm (fragmentPiece msg 2 index)) := by
  have hindex : (index : ℕ) < 2 := index.isLt
  have hspec := findSlot_spec reasm msg.seq msg.srcNode
  rw [bcReasmFeed_piece reasm hle hindex]
  cases hfind : findSlot reasm msg.seq msg.srcNode with
  | none =>
    rw [hfind] at hspec
    exact .refused (fun k => (hspec k).1) fun k => (hspec k).2
  | some k =>
    rw [hfind] at hspec
    simp only
    rcases hspec with hholds | ⟨hfree, hnew⟩
    · obtain ⟨slot, a, hslot⟩ := htaken k hholds
      by_cases ha : a = index
      · subst ha
        have hbit : (reasm.slots k).bitmap a = true := by rw [hslot, taken_bitmap]; simp
        have hsame : reasm.set k (reasm.slots k) = reasm := by
          simp only [BcReasm.set, Function.update_eq_self]
        rw [feedSlot_again hle hholds.1 (by rw [hslot]; rfl) hbit, hsame]
        exact .again k slot hslot
      · have hbit : (reasm.slots k).bitmap index = false := by
          rw [hslot, taken_bitmap]
          simp [Ne.symm ha]
        rw [feedSlot_second hle hholds.1 (by rw [hslot]; rfl) (by rw [hslot]; rfl) hbit, hslot]
        exact .last k slot a ha hslot _ (taken_message_same slot hgt hle hch htop ha) _ rfl
    · rw [feedSlot_first hfree hle index]
      exact .first k hfree hnew

section Runs

variable {ι : Type*} {msgs : ι → BcMessage}

/-- Each slot in use has one piece of a message that is not complete, no message
has two slots, and what was handed out is complete and was handed out once. -/
structure Collects (msgs : ι → BcMessage) (r : ReasmRun) : Prop where
  slot : ∀ k, (r.reasm.slots k).active = true → ∃ i a slot,
    r.reasm.slots k = BcReasmSlot.taken slot (msgs i) a ∧
      fragmentPiece (msgs i) 2 a ∈ r.fed ∧ ¬ Arrived r.fed (msgs i)
  one : ∀ k l i, (r.reasm.slots k).Holds (msgs i).seq (msgs i).srcNode →
    (r.reasm.slots l).Holds (msgs i).seq (msgs i).srcNode → k = l
  done : ∀ i, ((msgs i).seq, (msgs i).srcNode) ∈ r.completed → Arrived r.fed (msgs i)
  once : r.completed.Nodup

/-- A free slot is not taken for a message of which no piece is missing then. -/
def ReasmRun.Due (msgs : ι → BcMessage) (r : ReasmRun) (frag : BcMessage) : Prop :=
  ∀ i, frag ∈ fragmentsOf (msgs i) → Arrived (r.fed ++ [frag]) (msgs i) →
    (∃ k, (r.reasm.slots k).Holds (msgs i).seq (msgs i).srcNode) ∨
      ∀ k, (r.reasm.slots k).active = true

instance [Fintype ι] (msgs : ι → BcMessage) (r : ReasmRun) (frag : BcMessage) :
    Decidable (r.Due msgs frag) :=
  inferInstanceAs (Decidable (∀ i, frag ∈ fragmentsOf (msgs i) →
    Arrived (r.fed ++ [frag]) (msgs i) → _ ∨ _))

/-- Each incomplete message has its slot, and each complete one was handed out. -/
structure Keeps (msgs : ι → BcMessage) (r : ReasmRun) : Prop where
  held : ∀ i, Incomplete r.fed (msgs i) →
    ∃ k, (r.reasm.slots k).Holds (msgs i).seq (msgs i).srcNode
  handed : ∀ i, Arrived r.fed (msgs i) → ((msgs i).seq, (msgs i).srcNode) ∈ r.completed

/-- There are no more incomplete messages than slots. -/
def ReasmRun.Room (msgs : ι → BcMessage) (r : ReasmRun) : Prop :=
  ∀ s : Finset ι, (∀ i ∈ s, Incomplete r.fed (msgs i)) → s.card ≤ bcReasmSlots

/-- The piece comes before its message is complete. -/
def ReasmRun.InTime (msgs : ι → BcMessage) (r : ReasmRun) (frag : BcMessage) : Prop :=
  ∀ i, frag ∈ fragmentsOf (msgs i) → ¬ Arrived r.fed (msgs i)

instance [Fintype ι] (msgs : ι → BcMessage) (r : ReasmRun) (frag : BcMessage) :
    Decidable (r.InTime msgs frag) :=
  inferInstanceAs (Decidable (∀ i, frag ∈ fragmentsOf (msgs i) → ¬ Arrived r.fed (msgs i)))

/-- `BC_OK` and the message with the last piece of it that was missing,
`BC_ERR_NOT_FOUND` with every other. -/
def ReasmRun.Answers (msgs : ι → BcMessage) (r : ReasmRun) (frag : BcMessage) : Prop :=
  ∀ i, frag ∈ fragmentsOf (msgs i) →
    (Arrived (r.fed ++ [frag]) (msgs i) → (bcReasmFeed r.reasm frag).1 = .ok ∧
      ∃ out, (bcReasmFeed r.reasm frag).2.2 = some out ∧
        out.Same { msgs i with flags := out.flags }) ∧
    (¬ Arrived (r.fed ++ [frag]) (msgs i) → (bcReasmFeed r.reasm frag).1 = .notFound)

theorem Arrived.append {fed : List BcMessage} {msg : BcMessage} (h : Arrived fed msg)
    (frags : List BcMessage) : Arrived (fed ++ frags) msg :=
  fun piece hpiece => List.mem_append_left _ (h piece hpiece)

/-- A repeat changes nothing. -/
theorem arrived_again {fed : List BcMessage} {frag msg : BcMessage} (h : frag ∈ fed) :
    Arrived (fed ++ [frag]) msg ↔ Arrived fed msg := by
  constructor
  · intro harrived piece hpiece
    rcases List.mem_append.mp (harrived piece hpiece) with hp | hp
    · exact hp
    · rw [List.mem_singleton.mp hp]
      exact h
  · exact fun harrived => harrived.append _

variable (hmsgs : Fragmented msgs)
include hmsgs

/-- The pieces of a message say which message it is. -/
theorem Fragmented.eq_of_piece {i j : ι} {a b : PieceIndex}
    (h : fragmentPiece (msgs i) 2 a = fragmentPiece (msgs j) 2 b) : i = j := by
  have hseq := congrArg BcMessage.seq h
  have hsrc := congrArg BcMessage.srcNode h
  exact hmsgs.distinct i j hseq hsrc

/-- A piece changes nothing for the other messages. -/
theorem Fragmented.arrived_other {i j : ι} (hij : i ≠ j) (fed : List BcMessage) (a : PieceIndex) :
    Arrived (fed ++ [fragmentPiece (msgs i) 2 a]) (msgs j) ↔ Arrived fed (msgs j) := by
  rw [arrived_iff (hmsgs.long j) (hmsgs.fits j), arrived_iff (hmsgs.long j) (hmsgs.fits j)]
  refine forall_congr' fun b => ?_
  rw [List.mem_append, List.mem_singleton]
  constructor
  · intro h
    rcases h with h | h
    · exact h
    · exact absurd (hmsgs.eq_of_piece h).symm hij
  · exact .inl

/-- The slot of a message has one piece of it, and the other is missing. -/
theorem Collects.of_holds {r : ReasmRun} (h : Collects msgs r) {k : Fin bcReasmSlots} {i : ι}
    (hk : (r.reasm.slots k).Holds (msgs i).seq (msgs i).srcNode) : ∃ slot a,
      r.reasm.slots k = BcReasmSlot.taken slot (msgs i) a ∧
        fragmentPiece (msgs i) 2 a ∈ r.fed ∧ ¬ Arrived r.fed (msgs i) := by
  obtain ⟨j, a, slot, hslot, hfed, harrived⟩ := h.slot k hk.1
  have hkey := taken_holds slot (msgs j) a
  rw [hslot] at hk
  have hij : j = i := hmsgs.distinct j i (hkey.2.1.symm.trans hk.2.1) (hkey.2.2.symm.trans hk.2.2)
  subst hij
  exact ⟨slot, a, hslot, hfed, harrived⟩

/-- The answer to a piece in such a state. -/
theorem Collects.fed_piece {r : ReasmRun} (h : Collects msgs r) (i : ι) (a : PieceIndex) :
    Fed r.reasm (msgs i) a (bcReasmFeed r.reasm (fragmentPiece (msgs i) 2 a)) := by
  refine BoardComm.fed_piece (hmsgs.long i) (hmsgs.fits i) (hmsgs.channel i) (hmsgs.topic i) ?_ a
  intro k hk
  obtain ⟨slot, b, hslot, -⟩ := h.of_holds hmsgs hk
  exact ⟨slot, b, hslot⟩

/-- One call keeps the order, unless it takes a slot for a message of which no
piece is missing. -/
theorem Collects.feed {r : ReasmRun} (h : Collects msgs r) (i : ι) (a : PieceIndex)
    (hdue : Arrived (r.fed ++ [fragmentPiece (msgs i) 2 a]) (msgs i) →
      (∃ k, (r.reasm.slots k).Holds (msgs i).seq (msgs i).srcNode) ∨
        ∀ k, (r.reasm.slots k).active = true) :
    Collects msgs (r.feed (fragmentPiece (msgs i) 2 a)) := by
  have hdone : ∀ j, ((msgs j).seq, (msgs j).srcNode) ∈ r.completed →
      Arrived (r.fed ++ [fragmentPiece (msgs i) 2 a]) (msgs j) := fun j hj => (h.done j hj).append _
  -- The slots of other messages are not concerned.
  have hkeep : ∀ k, (r.reasm.slots k).active = true →
      ¬ (r.reasm.slots k).Holds (msgs i).seq (msgs i).srcNode → ∃ j b slot,
        r.reasm.slots k = BcReasmSlot.taken slot (msgs j) b ∧
          fragmentPiece (msgs j) 2 b ∈ r.fed ++ [fragmentPiece (msgs i) 2 a] ∧
            ¬ Arrived (r.fed ++ [fragmentPiece (msgs i) 2 a]) (msgs j) := by
    intro k hk hnot
    obtain ⟨j, b, slot, hslot, hfed, harrived⟩ := h.slot k hk
    have hij : i ≠ j := by
      rintro rfl
      exact hnot (hslot ▸ taken_holds slot _ b)
    exact ⟨j, b, slot, hslot, List.mem_append_left _ hfed,
      (hmsgs.arrived_other hij r.fed a).not.mpr harrived⟩
  have hfed := h.fed_piece hmsgs i a
  unfold ReasmRun.feed
  generalize bcReasmFeed r.reasm (fragmentPiece (msgs i) 2 a) = answer at hfed
  cases hfed with
  | refused hfull hnew => exact ⟨fun k hk => hkeep k hk (hnew k), h.one, hdone, h.once⟩
  | again k slot hslot =>
    have hk : (r.reasm.slots k).Holds (msgs i).seq (msgs i).srcNode := hslot ▸ taken_holds _ _ _
    obtain ⟨slot', b, hslot', hpiece, harrived⟩ := h.of_holds hmsgs hk
    have hab : a = b := taken_index (hslot.symm.trans hslot')
    subst hab
    refine ⟨fun l hl => ?_, h.one, hdone, h.once⟩
    by_cases hlk : (r.reasm.slots l).Holds (msgs i).seq (msgs i).srcNode
    · rw [h.one l k i hlk hk]
      exact ⟨i, a, slot, hslot, List.mem_append_left _ hpiece, (arrived_again hpiece).not.mpr harrived⟩
    · exact hkeep l hl hlk
  | last k slot other hne hslot out hout done hdone' =>
    have hk : (r.reasm.slots k).Holds (msgs i).seq (msgs i).srcNode := hslot ▸ taken_holds _ _ _
    obtain ⟨slot', b, hslot', hpiece, harrived⟩ := h.of_holds hmsgs hk
    have hob : other = b := taken_index (hslot.symm.trans hslot')
    subst hob
    have hnow : Arrived (r.fed ++ [fragmentPiece (msgs i) 2 a]) (msgs i) :=
      arrived_of_two (hmsgs.long i) (hmsgs.fits i) hne (List.mem_append_left _ hpiece) (by simp)
    -- A slot in use afterwards is another slot, and was in use before.
    have hrest : ∀ l, ((r.reasm.set k done).slots l).active = true →
        l ≠ k ∧ (r.reasm.set k done).slots l = r.reasm.slots l := by
      intro l hl
      have hlk : l ≠ k := by
        rintro rfl
        simp [BcReasm.set, hdone'] at hl
      exact ⟨hlk, by simp [BcReasm.set, hlk]⟩
    refine ⟨fun l hl => ?_, fun l m j hl hm => ?_, fun j hj => ?_, ?_⟩
    · obtain ⟨hlk, hsame⟩ := hrest l hl
      simp only at hl ⊢
      rw [hsame] at hl ⊢
      exact hkeep l hl fun hholds => hlk (h.one l k i hholds hk)
    · obtain ⟨-, hsl⟩ := hrest l hl.1
      obtain ⟨-, hsm⟩ := hrest m hm.1
      simp only at hl hm
      rw [hsl] at hl
      rw [hsm] at hm
      exact h.one l m j hl hm
    · rcases List.mem_append.mp hj with hj | hj
      · exact hdone j hj
      · obtain ⟨hseq, hsrc⟩ := Prod.mk.inj (List.mem_singleton.mp hj)
        rw [hmsgs.distinct j i hseq hsrc]
        exact hnow
    · refine List.nodup_append.mpr ⟨h.once, by simp, ?_⟩
      rintro key hkey _ hlast rfl
      rw [List.mem_singleton] at hlast
      subst hlast
      exact harrived (h.done i hkey)
  | first k hfree hnew =>
    have hself : (r.reasm.set k ((r.reasm.slots k).taken (msgs i) a)).slots k =
        (r.reasm.slots k).taken (msgs i) a := by simp [BcReasm.set]
    have hother : ∀ l, l ≠ k →
        (r.reasm.set k ((r.reasm.slots k).taken (msgs i) a)).slots l = r.reasm.slots l := by
      intro l hl
      simp [BcReasm.set, hl]
    have hmissing : ¬ Arrived (r.fed ++ [fragmentPiece (msgs i) 2 a]) (msgs i) := by
      intro harrived
      rcases hdue harrived with ⟨l, hl⟩ | hfull
      · exact hnew l hl
      · rw [hfull k] at hfree
        cases hfree
    -- Whoever shares the slot of another message would have held this one before.
    have halone : ∀ l j, ((r.reasm.slots k).taken (msgs i) a).Holds (msgs j).seq (msgs j).srcNode →
        ¬ (r.reasm.slots l).Holds (msgs j).seq (msgs j).srcNode := by
      intro l j hk hl
      obtain ⟨-, hseq, hsrc⟩ := taken_holds (r.reasm.slots k) (msgs i) a
      rw [← hk.2.1, ← hk.2.2, hseq, hsrc] at hl
      exact hnew l hl
    refine ⟨fun l hl => ?_, fun l m j hl hm => ?_, hdone, h.once⟩
    · by_cases hlk : l = k
      · subst hlk
        exact ⟨i, a, r.reasm.slots l, hself, by simp, hmissing⟩
      · simp only at hl ⊢
        rw [hother l hlk] at hl ⊢
        exact hkeep l hl (hnew l)
    · simp only at hl hm
      by_cases hlk : l = k
      · by_cases hmk : m = k
        · rw [hlk, hmk]
        · rw [hlk, hself] at hl
          rw [hother m hmk] at hm
          exact absurd hm (halone m j hl)
      · rw [hother l hlk] at hl
        by_cases hmk : m = k
        · rw [hmk, hself] at hm
          exact absurd hl (halone l j hm)
        · rw [hother m hmk] at hm
          exact h.one l m j hl hm

omit hmsgs in
theorem collects_start : Collects msgs ReasmRun.start := by
  refine ⟨fun k hk => ?_, fun k l i hk => ?_, fun i hi => ?_, List.nodup_nil⟩
  · cases hk
  · cases hk.1
  · simp [ReasmRun.start] at hi

/-- A slot that is taken for a complete message is out of order at once. -/
theorem Collects.lost {r : ReasmRun} (h : Collects msgs r) (i : ι) (a : PieceIndex)
    (harrived : Arrived (r.fed ++ [fragmentPiece (msgs i) 2 a]) (msgs i))
    (hnew : ∀ k, ¬ (r.reasm.slots k).Holds (msgs i).seq (msgs i).srcNode)
    (hroom : ∃ k, (r.reasm.slots k).active = false) :
    ¬ Collects msgs (r.feed (fragmentPiece (msgs i) 2 a)) := by
  intro hafter
  have hfed := h.fed_piece hmsgs i a
  have hreasm := ReasmRun.feed_reasm r (fragmentPiece (msgs i) 2 a)
  generalize bcReasmFeed r.reasm (fragmentPiece (msgs i) 2 a) = answer at hfed hreasm
  cases hfed with
  | refused hfull _ =>
    obtain ⟨k, hk⟩ := hroom
    rw [hfull k] at hk
    cases hk
  | again k slot hslot => exact hnew k (hslot ▸ taken_holds _ _ _)
  | last k slot other _ hslot => exact hnew k (hslot ▸ taken_holds _ _ _)
  | first k _ _ =>
    have hk : ((r.feed (fragmentPiece (msgs i) 2 a)).reasm.slots k).Holds (msgs i).seq
        (msgs i).srcNode := by
      rw [hreasm]
      simp only [BcReasm.set, Function.update_self]
      exact taken_holds _ _ _
    obtain ⟨-, -, -, -, hopen⟩ := hafter.of_holds hmsgs hk
    exact hopen harrived

/-- Along a run of pieces the slots stay in order exactly when none is taken for
a complete message. -/
theorem collects_iff_due {frags : List BcMessage}
    (hpieces : ∀ frag ∈ frags, ∃ i, frag ∈ fragmentsOf (msgs i)) :
    Runs.Along ReasmRun.feed (Collects msgs) .start frags ↔
      Runs.Meets ReasmRun.feed (ReasmRun.Due msgs) .start frags := by
  refine Runs.along_iff_meets ReasmRun.feed (I := Collects msgs)
    (A := fun frag => ∃ i, frag ∈ fragmentsOf (msgs i)) (fun _ h => h) ?_ ?_ collects_start hpieces
  · rintro r frag h ⟨i, hfrag⟩ hdue
    have hthis := hdue i hfrag
    obtain ⟨a, rfl⟩ := (mem_fragmentsOf (hmsgs.long i) (hmsgs.fits i)).mp hfrag
    exact h.feed hmsgs i a hthis
  · rintro r frag h - hdue
    simp only [ReasmRun.Due, not_forall, not_or, not_exists] at hdue
    obtain ⟨i, hfrag, harrived, hnew, k, hk⟩ := hdue
    obtain ⟨a, rfl⟩ := (mem_fragmentsOf (hmsgs.long i) (hmsgs.fits i)).mp hfrag
    exact h.lost hmsgs i a harrived hnew ⟨k, eq_false_of_ne_true hk⟩

/-- A full table has as many incomplete messages as slots, so a new message is one
too many. -/
theorem Collects.not_full {r : ReasmRun} (h : Collects msgs r) {i : ι} {a : PieceIndex}
    (hroom : (r.feed (fragmentPiece (msgs i) 2 a)).Room msgs)
    (hnew : ∀ k, ¬ (r.reasm.slots k).Holds (msgs i).seq (msgs i).srcNode)
    (hopen : ¬ Arrived (r.fed ++ [fragmentPiece (msgs i) 2 a]) (msgs i)) :
    ¬ ∀ k, (r.reasm.slots k).active = true := by
  classical
  intro hfull
  choose j b slot hslot hfed hmissing using fun k => h.slot k (hfull k)
  have hne : ∀ k, i ≠ j k := by
    intro k hik
    exact hnew k (by rw [hslot k, hik]; exact taken_holds _ _ _)
  have hinj : Function.Injective j := by
    intro k l hkl
    refine h.one k l (j k) (by rw [hslot k]; exact taken_holds _ _ _) ?_
    rw [hslot l, hkl]
    exact taken_holds _ _ _
  have hcard := hroom (insert i (Finset.univ.image j)) ?_
  · rw [Finset.card_insert_of_notMem (by simpa [eq_comm] using hne),
      Finset.card_image_of_injective _ hinj, Finset.card_univ, Fintype.card_fin] at hcard
    omega
  · intro l hl
    rw [ReasmRun.feed_fed]
    rcases Finset.mem_insert.mp hl with rfl | hl
    · exact ⟨⟨_, (mem_fragmentsOf (hmsgs.long l) (hmsgs.fits l)).mpr ⟨a, rfl⟩, by simp⟩, hopen⟩
    · obtain ⟨k, -, rfl⟩ := Finset.mem_image.mp hl
      exact ⟨⟨_, (mem_fragmentsOf (hmsgs.long _) (hmsgs.fits _)).mpr ⟨b k, rfl⟩,
          List.mem_append_left _ (hfed k)⟩,
        (hmsgs.arrived_other (hne k) r.fed a).not.mpr (hmissing k)⟩

/-- A piece of a message that no slot has is the first of it. -/
theorem Keeps.first {r : ReasmRun} (h : Keeps msgs r) {i : ι}
    (hnew : ∀ k, ¬ (r.reasm.slots k).Holds (msgs i).seq (msgs i).srcNode)
    (hopen : ¬ Arrived r.fed (msgs i)) (a : PieceIndex) :
    ¬ Arrived (r.fed ++ [fragmentPiece (msgs i) 2 a]) (msgs i) := by
  intro harrived
  have hnone : ∀ piece ∈ fragmentsOf (msgs i), piece ∉ r.fed := by
    intro piece hpiece hfed
    obtain ⟨k, hk⟩ := h.held i ⟨⟨piece, hpiece, hfed⟩, hopen⟩
    exact hnew k hk
  have hall : ∀ b : PieceIndex, b = a := by
    intro b
    have hb := (mem_fragmentsOf (hmsgs.long i) (hmsgs.fits i)).mpr ⟨b, rfl⟩
    rcases List.mem_append.mp (harrived _ hb) with hfed | hlast
    · exact absurd hfed (hnone _ hb)
    · exact fragmentPiece_inj (hmsgs.fits i) (List.mem_singleton.mp hlast)
  exact absurd ((hall 0).trans (hall 1).symm) (by decide)

/-- One call with room and in time: it answers as it should, and leaves every
incomplete message its slot. -/
theorem Keeps.feed {r : ReasmRun} (h : Keeps msgs r) (hcollects : Collects msgs r) {i : ι}
    {a : PieceIndex} (hroom : (r.feed (fragmentPiece (msgs i) 2 a)).Room msgs)
    (hopen : ¬ Arrived r.fed (msgs i)) :
    Keeps msgs (r.feed (fragmentPiece (msgs i) 2 a)) ∧
      r.Answers msgs (fragmentPiece (msgs i) 2 a) := by
  -- The other messages stand as they stood.
  have hincomplete : ∀ j, i ≠ j → Incomplete (r.fed ++ [fragmentPiece (msgs i) 2 a]) (msgs j) →
      Incomplete r.fed (msgs j) := by
    rintro j hij ⟨⟨piece, hpiece, hfed⟩, harrived⟩
    refine ⟨⟨piece, hpiece, ?_⟩, (hmsgs.arrived_other hij r.fed a).not.mp harrived⟩
    obtain ⟨b, rfl⟩ := (mem_fragmentsOf (hmsgs.long j) (hmsgs.fits j)).mp hpiece
    rcases List.mem_append.mp hfed with hfed | hlast
    · exact hfed
    · exact absurd (hmsgs.eq_of_piece (List.mem_singleton.mp hlast)).symm hij
  have hhanded : ∀ j, i ≠ j → Arrived (r.fed ++ [fragmentPiece (msgs i) 2 a]) (msgs j) →
      ((msgs j).seq, (msgs j).srcNode) ∈ r.completed :=
    fun j hij harrived => h.handed j ((hmsgs.arrived_other hij r.fed a).mp harrived)
  have hself : ∀ j, fragmentPiece (msgs i) 2 a ∈ fragmentsOf (msgs j) → i = j := by
    intro j hj
    obtain ⟨b, hb⟩ := (mem_fragmentsOf (hmsgs.long j) (hmsgs.fits j)).mp hj
    exact hmsgs.eq_of_piece hb
  have hfed := hcollects.fed_piece hmsgs i a
  unfold ReasmRun.Answers ReasmRun.feed
  generalize bcReasmFeed r.reasm (fragmentPiece (msgs i) 2 a) = answer at hfed
  cases hfed with
  | refused hfull hnew =>
    exact absurd hfull (hcollects.not_full hmsgs hroom hnew (h.first hmsgs hnew hopen a))
  | again k slot hslot =>
    have hk : (r.reasm.slots k).Holds (msgs i).seq (msgs i).srcNode := hslot ▸ taken_holds _ _ _
    obtain ⟨slot', b, hslot', hpiece, -⟩ := hcollects.of_holds hmsgs hk
    obtain rfl : a = b := taken_index (hslot.symm.trans hslot')
    have hstill : ¬ Arrived (r.fed ++ [fragmentPiece (msgs i) 2 a]) (msgs i) :=
      (arrived_again hpiece).not.mpr hopen
    refine ⟨⟨fun j hj => ?_, fun j hj => ?_⟩, fun j hj => ?_⟩
    · by_cases hij : i = j
      · exact ⟨k, hij ▸ hk⟩
      · exact h.held j (hincomplete j hij hj)
    · by_cases hij : i = j
      · exact absurd (hij ▸ hj) hstill
      · exact hhanded j hij hj
    · obtain rfl := hself j hj
      exact ⟨fun harrived => absurd harrived hstill, fun _ => rfl⟩
  | last k slot other hne hslot out hout done hdone =>
    have hk : (r.reasm.slots k).Holds (msgs i).seq (msgs i).srcNode := hslot ▸ taken_holds _ _ _
    obtain ⟨slot', b, hslot', hpiece, -⟩ := hcollects.of_holds hmsgs hk
    obtain rfl : other = b := taken_index (hslot.symm.trans hslot')
    have hnow : Arrived (r.fed ++ [fragmentPiece (msgs i) 2 a]) (msgs i) :=
      arrived_of_two (hmsgs.long i) (hmsgs.fits i) hne (List.mem_append_left _ hpiece) (by simp)
    refine ⟨⟨fun j hj => ?_, fun j hj => ?_⟩, fun j hj => ?_⟩
    · have hij : i ≠ j := by
        rintro rfl
        exact hj.2 hnow
      obtain ⟨l, hl⟩ := h.held j (hincomplete j hij hj)
      have hlk : l ≠ k := by
        rintro rfl
        exact hij (hmsgs.distinct i j (hk.2.1.symm.trans hl.2.1) (hk.2.2.symm.trans hl.2.2))
      exact ⟨l, by simpa [BcReasm.set, hlk] using hl⟩
    · by_cases hij : i = j
      · subst hij
        exact List.mem_append_right _ (List.mem_singleton.mpr rfl)
      · exact List.mem_append_left _ (hhanded j hij hj)
    · obtain rfl := hself j hj
      refine ⟨fun _ => ⟨rfl, out, rfl, ?_⟩, fun harrived => absurd hnow harrived⟩
      have hflags : out.flags = 0 := hout.flags
      rw [hflags]
      exact hout
  | first k hfree hnew =>
    have hstill := h.first hmsgs hnew hopen a
    refine ⟨⟨fun j hj => ?_, fun j hj => ?_⟩, fun j hj => ?_⟩
    · by_cases hij : i = j
      · subst hij
        exact ⟨k, by simpa [BcReasm.set] using taken_holds (r.reasm.slots k) (msgs i) a⟩
      · obtain ⟨l, hl⟩ := h.held j (hincomplete j hij hj)
        have hlk : l ≠ k := by
          rintro rfl
          rw [hl.1] at hfree
          cases hfree
        exact ⟨l, by simpa [BcReasm.set, hlk] using hl⟩
    · by_cases hij : i = j
      · exact absurd (hij ▸ hj) hstill
      · exact hhanded j hij hj
    · obtain rfl := hself j hj
      exact ⟨fun harrived => absurd harrived hstill, fun _ => rfl⟩

omit hmsgs in
theorem keeps_start (hmsgs : Fragmented msgs) : Keeps msgs ReasmRun.start := by
  refine ⟨fun i hi => ?_, fun i hi => ?_⟩
  · obtain ⟨⟨piece, -, hfed⟩, -⟩ := hi
    simp [ReasmRun.start] at hfed
  · have hfirst := hi _ ((mem_fragmentsOf (hmsgs.long i) (hmsgs.fits i)).mpr ⟨0, rfl⟩)
    simp [ReasmRun.start] at hfirst

/-- A run with room, of pieces in time, keeps its slots in order and answers as it
should. -/
theorem keeps_and_answers {frags : List BcMessage}
    (hpieces : ∀ frag ∈ frags, ∃ i, frag ∈ fragmentsOf (msgs i))
    (htime : Runs.Meets ReasmRun.feed (ReasmRun.InTime msgs) .start frags)
    (hroom : Runs.Along ReasmRun.feed (ReasmRun.Room msgs) .start frags) :
    Runs.Along ReasmRun.feed (fun r => Collects msgs r ∧ Keeps msgs r) .start frags ∧
      Runs.Meets ReasmRun.feed (ReasmRun.Answers msgs) .start frags := by
  have hmeets : Runs.Meets ReasmRun.feed
      (fun r frag => r.InTime msgs frag ∧ (r.feed frag).Room msgs) .start frags := by
    intro pre frag hpre
    have hnext := hroom (pre ++ [frag]) hpre
    rw [Runs.run_append] at hnext
    exact ⟨htime pre frag hpre, hnext⟩
  have halong : Runs.Along ReasmRun.feed (fun r => Collects msgs r ∧ Keeps msgs r) .start frags := by
    refine Runs.along_of_meets ReasmRun.feed (A := fun frag => ∃ i, frag ∈ fragmentsOf (msgs i))
      ?_ ⟨collects_start, keeps_start hmsgs⟩ hpieces hmeets
    rintro r frag ⟨hcollects, hkeeps⟩ ⟨i, hfrag⟩ ⟨hintime, hnext⟩
    have hopen := hintime i hfrag
    obtain ⟨a, rfl⟩ := (mem_fragmentsOf (hmsgs.long i) (hmsgs.fits i)).mp hfrag
    refine ⟨hcollects.feed hmsgs i a fun harrived => ?_,
      (hkeeps.feed hmsgs hcollects hnext hopen).1⟩
    -- A piece that completes its message finds the slot of the message.
    by_contra hlost
    simp only [not_or, not_exists] at hlost
    exact hkeeps.first hmsgs hlost.1 hopen a harrived
  refine ⟨halong, fun pre frag hpre i hfrag => ?_⟩
  obtain ⟨hcollects, hkeeps⟩ := halong pre ((List.prefix_append _ _).trans hpre)
  obtain ⟨hintime, hnext⟩ := hmeets pre frag hpre
  have hopen := hintime i hfrag
  obtain ⟨a, rfl⟩ := (mem_fragmentsOf (hmsgs.long i) (hmsgs.fits i)).mp hfrag
  exact (hkeeps.feed hmsgs hcollects hnext hopen).2 i hfrag

end Runs

/-- Reassembly undoes fragmentation. Pieces of any messages, in any order, with
repeats while their message is not complete and never more incomplete messages
than slots: each message is handed out once, with the piece that completes it. -/
theorem reassembled_in_any_order {ι : Type*} {msgs : ι → BcMessage} (hmsgs : Fragmented msgs)
    {frags : List BcMessage} (hpieces : ∀ frag ∈ frags, ∃ i, frag ∈ fragmentsOf (msgs i))
    (hall : ∀ i, Arrived frags (msgs i))
    (htime : Runs.Meets ReasmRun.feed (ReasmRun.InTime msgs) .start frags)
    (hroom : Runs.Along ReasmRun.feed (ReasmRun.Room msgs) .start frags) :
    (∀ i, (Runs.run ReasmRun.feed .start frags).completed.count
      ((msgs i).seq, (msgs i).srcNode) = 1) ∧
    Runs.Meets ReasmRun.feed (ReasmRun.Answers msgs) .start frags := by
  obtain ⟨halong, hanswers⟩ := keeps_and_answers hmsgs hpieces htime hroom
  obtain ⟨hcollects, hkeeps⟩ := halong frags List.prefix_rfl
  refine ⟨fun i => ?_, hanswers⟩
  have harrived : Arrived (Runs.run ReasmRun.feed .start frags).fed (msgs i) := by
    rw [ReasmRun.run_fed]
    exact hall i
  exact List.count_eq_one_of_mem hcollects.once (hkeeps.handed i harrived)

/-- Two messages, and their pieces interleaved with a repeat. -/
def twoMessages (n : Fin 2) : BcMessage := longMessage (.ofNat n)

def interleavedPieces : List BcMessage :=
  [fragmentPiece (twoMessages 0) 2 1, fragmentPiece (twoMessages 1) 2 0,
    fragmentPiece (twoMessages 0) 2 1, fragmentPiece (twoMessages 0) 2 0,
    fragmentPiece (twoMessages 1) 2 1]

theorem twoMessages_fragmented : Fragmented twoMessages :=
  ⟨by decide, by decide, by decide, by decide +kernel, by decide +kernel⟩

theorem interleavedPieces_pieces :
    ∀ frag ∈ interleavedPieces, ∃ i, frag ∈ fragmentsOf (twoMessages i) := by decide +kernel

theorem reassembled_in_any_order_two :
    (∀ i, (Runs.run ReasmRun.feed .start interleavedPieces).completed.count
      ((twoMessages i).seq, (twoMessages i).srcNode) = 1) ∧
    Runs.Meets ReasmRun.feed (ReasmRun.Answers twoMessages) .start interleavedPieces :=
  reassembled_in_any_order twoMessages_fragmented interleavedPieces_pieces (by decide +kernel)
    (by decide +kernel) fun _ _ s _ => (Finset.card_le_univ s).trans (by decide)

/-- `BC_OK` was answered at most once for each number and node, and no slot is in
use once every message of which a piece was fed is complete. -/
structure AtMostOnce {ι : Type*} (msgs : ι → BcMessage) (r : ReasmRun) : Prop where
  once : r.completed.Nodup
  free : (∀ i, (∃ piece ∈ fragmentsOf (msgs i), piece ∈ r.fed) → Arrived r.fed (msgs i)) →
    ∀ k, (r.reasm.slots k).active = false

theorem Collects.atMostOnce {ι : Type*} {msgs : ι → BcMessage} {r : ReasmRun}
    (hmsgs : Fragmented msgs) (h : Collects msgs r) : AtMostOnce msgs r := by
  refine ⟨h.once, fun hall k => ?_⟩
  by_contra hk
  obtain ⟨i, a, slot, -, hfed, hopen⟩ := h.slot k (by simpa using hk)
  exact hopen (hall i ⟨_, (mem_fragmentsOf (hmsgs.long i) (hmsgs.fits i)).mpr ⟨a, rfl⟩, hfed⟩)

/-- Repeats do no harm while their message is not complete. -/
theorem reassembled_at_most_once {ι : Type*} {msgs : ι → BcMessage} (hmsgs : Fragmented msgs)
    {frags : List BcMessage} (hpieces : ∀ frag ∈ frags, ∃ i, frag ∈ fragmentsOf (msgs i))
    (hdue : Runs.Meets ReasmRun.feed (ReasmRun.Due msgs) .start frags) :
    Runs.Along ReasmRun.feed (AtMostOnce msgs) .start frags := by
  intro pre hpre
  exact ((collects_iff_due hmsgs hpieces).mpr hdue pre hpre).atMostOnce hmsgs

theorem reassembled_at_most_once_two :
    Runs.Along ReasmRun.feed (AtMostOnce twoMessages) .start interleavedPieces :=
  reassembled_at_most_once twoMessages_fragmented interleavedPieces_pieces (by decide +kernel)

/-- Both pieces of a message, and both again. -/
def repeatedPieces : List BcMessage := fragmentsOf (twoMessages 0) ++ fragmentsOf (twoMessages 0)

/-- The repeats of a complete message are reassembled once more. -/
theorem late_repeats_complete_again :
    (∀ frag ∈ repeatedPieces, ∃ i, frag ∈ fragmentsOf (twoMessages i)) ∧
      ¬ Runs.Along ReasmRun.feed (AtMostOnce twoMessages) .start repeatedPieces := by
  refine ⟨by decide +kernel, fun h => ?_⟩
  have honce := (h repeatedPieces List.prefix_rfl).once
  revert honce
  decide +kernel

end BoardComm
