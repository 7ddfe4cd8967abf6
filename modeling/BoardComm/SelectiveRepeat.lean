import Mathlib.Tactic

/-!
# Selective repeat

A sender numbers items and keeps each of them until it is acknowledged. A receiver hands
items on in the order of their numbers, and holds those that come too early. What either
tells the other stays true for ever: an item that was numbered keeps its number, and an
item that was received stays received. So it does no harm if what they tell is lost,
repeated or late.
-/
namespace BoardComm.SelectiveRepeat

/-- The items that are numbered are those below `nxt`; those in `kept` may still be sent
again. -/
structure Sender where
  nxt : ℕ
  kept : List ℕ
  sorted : kept.Pairwise (· < ·)
  below : ∀ i ∈ kept, i < nxt

/-- The items below `next` were handed on; those in `early` wait for others. -/
structure Receiver where
  next : ℕ
  early : List ℕ
  sorted : early.Pairwise (· < ·)
  above : ∀ i ∈ early, next ≤ i

/-- Numbers that go up from `a` and stay below `b`. -/
theorem length_le_of_sorted {is : List ℕ} {a b : ℕ} (hsorted : is.Pairwise (· < ·))
    (hbetween : ∀ i ∈ is, a ≤ i ∧ i < b) : is.length ≤ b - a := by
  have hnodup : is.Nodup := hsorted.imp Nat.ne_of_lt
  have hsub : is.toFinset ⊆ Finset.Ico a b := by
    intro i hi
    exact Finset.mem_Ico.mpr (hbetween i (List.mem_toFinset.mp hi))
  calc is.length = is.toFinset.card := (List.toFinset_card_of_nodup hnodup).symm
    _ ≤ (Finset.Ico a b).card := Finset.card_le_card hsub
    _ = b - a := Nat.card_Ico a b

namespace Sender

variable (s : Sender)

/-- The first item that is not acknowledged. -/
def una : ℕ := s.kept.headD s.nxt

/-- The next item is numbered. -/
def number : Sender where
  nxt := s.nxt + 1
  kept := s.kept ++ [s.nxt]
  sorted := List.pairwise_append.mpr
    ⟨s.sorted, List.pairwise_singleton _ _, fun i hi j hj => by
      rw [List.mem_singleton.mp hj]
      exact s.below i hi⟩
  below := by
    intro i hi
    rcases List.mem_append.mp hi with hi | hi
    · exact Nat.lt_succ_of_lt (s.below i hi)
    · rw [List.mem_singleton.mp hi]
      exact Nat.lt_succ_self _

/-- The items with the property are acknowledged. -/
def acknowledge (p : ℕ → Bool) : Sender where
  nxt := s.nxt
  kept := s.kept.filter fun i => ! p i
  sorted := s.sorted.filter _
  below := fun i hi => s.below i (List.mem_filter.mp hi).1

@[simp] theorem number_nxt : s.number.nxt = s.nxt + 1 := rfl

@[simp] theorem number_kept : s.number.kept = s.kept ++ [s.nxt] := rfl

@[simp] theorem acknowledge_nxt (p : ℕ → Bool) : (s.acknowledge p).nxt = s.nxt := rfl

variable {s}

@[simp] theorem mem_acknowledge {p : ℕ → Bool} {i : ℕ} :
    i ∈ (s.acknowledge p).kept ↔ i ∈ s.kept ∧ p i = false := by
  simp [acknowledge]

/-- Nothing that is kept stands in front of the first item that is not acknowledged. -/
theorem una_le {i : ℕ} (hi : i ∈ s.kept) : s.una ≤ i := by
  have hsorted := s.sorted
  unfold una
  cases hkept : s.kept with
  | nil =>
    rw [hkept] at hi
    cases hi
  | cons j js =>
    rw [hkept] at hi hsorted
    rcases List.mem_cons.mp hi with rfl | hmem
    · exact le_rfl
    · exact (List.rel_of_pairwise_cons hsorted hmem).le

theorem una_le_nxt (s : Sender) : s.una ≤ s.nxt := by
  unfold una
  cases hkept : s.kept with
  | nil => exact le_rfl
  | cons j js => exact (s.below j (by rw [hkept]; exact List.mem_cons_self)).le

theorem kept_length_le (s : Sender) : s.kept.length ≤ s.nxt - s.una :=
  length_le_of_sorted s.sorted fun i hi => ⟨una_le hi, s.below i hi⟩

theorem una_number (s : Sender) : s.number.una = s.una := by
  simp only [una, number_kept, number_nxt]
  cases s.kept <;> rfl

/-- So many items are numbered. -/
theorem number_iterate (s : Sender) (n : ℕ) :
    (number^[n] s).nxt = s.nxt + n ∧ (number^[n] s).una = s.una ∧
      ∀ i, i ∈ (number^[n] s).kept ↔ i ∈ s.kept ∨ s.nxt ≤ i ∧ i < s.nxt + n := by
  induction n with
  | zero =>
    refine ⟨rfl, rfl, fun i => ⟨.inl, fun h => h.elim id fun hi => ?_⟩⟩
    omega
  | succ n ih =>
    obtain ⟨hnxt, huna, hkept⟩ := ih
    rw [Function.iterate_succ_apply']
    refine ⟨by rw [number_nxt, hnxt]; rfl, by rw [una_number, huna], fun i => ?_⟩
    rw [number_kept, List.mem_append, List.mem_singleton, hkept, hnxt]
    constructor
    · rintro ((h | h) | rfl)
      · exact .inl h
      · exact .inr (by omega)
      · exact .inr (by omega)
    · rintro (h | h)
      · exact .inl (.inl h)
      · rcases Nat.lt_or_ge i (s.nxt + n) with hlt | hge
        · exact .inl (.inr ⟨h.1, hlt⟩)
        · exact .inr (by omega)

theorem acknowledge_acknowledge (s : Sender) (p p' : ℕ → Bool) :
    (s.acknowledge p).acknowledge p' = s.acknowledge fun i => p i || p' i := by
  have hkept : (s.kept.filter fun i => ! p i).filter (fun i => ! p' i) =
      s.kept.filter fun i => ! (p i || p' i) := by
    rw [List.filter_filter]
    congr 1
    funext i
    cases p i <;> cases p' i <;> rfl
  simp only [acknowledge, hkept]

/-- Either the first item that is not acknowledged is kept, or there is none. -/
theorem una_mem_or (s : Sender) : s.una ∈ s.kept ∨ s.una = s.nxt := by
  unfold una
  cases s.kept with
  | nil => exact .inr rfl
  | cons j js => exact .inl List.mem_cons_self

/-- Where less is kept of the same items, nothing was taken back. -/
theorem una_le_of_kept {s' : Sender} (hnxt : s'.nxt = s.nxt) (hkept : ∀ i ∈ s'.kept, i ∈ s.kept) :
    s.una ≤ s'.una := by
  rcases s'.una_mem_or with hmem | heq
  · exact una_le (hkept _ hmem)
  · rw [heq, hnxt]
    exact s.una_le_nxt

/-- An acknowledgement never takes anything back. -/
theorem una_le_acknowledge (s : Sender) (p : ℕ → Bool) : s.una ≤ (s.acknowledge p).una :=
  una_le_of_kept rfl fun _ hi => (mem_acknowledge.mp hi).1

end Sender

namespace Receiver

variable (r : Receiver)

/-- The item was received. -/
def Has (i : ℕ) : Prop := i < r.next ∨ i ∈ r.early

/-- The first of the items that wait is handed on. -/
def advance {js : List ℕ} (h : r.early = r.next :: js) : Receiver where
  next := r.next + 1
  early := js
  sorted := by
    have hsorted := r.sorted
    rw [h] at hsorted
    exact hsorted.of_cons
  above := by
    have hsorted := r.sorted
    rw [h] at hsorted
    exact fun i hi => List.rel_of_pairwise_cons hsorted hi

variable {r}

theorem has_advance {js : List ℕ} {i : ℕ} (h : r.early = r.next :: js) :
    (r.advance h).Has i ↔ r.Has i := by
  unfold Has advance
  rw [h, List.mem_cons, Nat.lt_succ_iff_lt_or_eq, or_assoc]

theorem early_length_le {wnd : ℕ} (h : ∀ i ∈ r.early, i < r.next + wnd) :
    r.early.length ≤ wnd := by
  have := length_le_of_sorted r.sorted fun i hi => ⟨r.above i hi, h i hi⟩
  omega

end Receiver

/-- Both ends of a link. Only numbered items were received, and what was not received is
kept. -/
structure Agree (s : Sender) (r : Receiver) : Prop where
  numbered : ∀ i, r.Has i → i < s.nxt
  covered : ∀ i < s.nxt, i ∈ s.kept ∨ r.Has i

namespace Agree

variable {s : Sender} {r : Receiver} (h : Agree s r)
include h

theorem number : Agree s.number r where
  numbered := fun i hi => Nat.lt_succ_of_lt (h.numbered i hi)
  covered := by
    intro i hi
    rw [Sender.number_kept, List.mem_append, List.mem_singleton]
    rcases Nat.lt_succ_iff_lt_or_eq.mp hi with hlt | heq
    · exact (h.covered i hlt).imp_left .inl
    · exact .inl (.inr heq)

theorem number_iterate (n : ℕ) : Agree (Sender.number^[n] s) r := by
  induction n with
  | zero => exact h
  | succ n ih =>
    rw [Function.iterate_succ_apply']
    exact ih.number

/-- Items that were received may be acknowledged. -/
theorem acknowledge {p : ℕ → Bool} (hp : ∀ i ∈ s.kept, p i = true → r.Has i) :
    Agree (s.acknowledge p) r where
  numbered := h.numbered
  covered := by
    intro i hi
    rcases h.covered i hi with hkept | hhas
    · cases hpi : p i with
      | false => exact .inl (Sender.mem_acknowledge.mpr ⟨hkept, hpi⟩)
      | true => exact .inr (hp i hkept hpi)
    · exact .inr hhas

/-- Receiving more of what was numbered changes nothing of it. -/
theorem receive {r' : Receiver} (hmore : ∀ i, r.Has i → r'.Has i)
    (hnew : ∀ i, r'.Has i → i < s.nxt) : Agree s r' where
  numbered := hnew
  covered := fun i hi => (h.covered i hi).imp_right (hmore i)

/-- What stands in front of the first item that is not acknowledged was received. -/
theorem has_of_lt_una {i : ℕ} (hi : i < s.una) : r.Has i :=
  (h.covered i (hi.trans_le s.una_le_nxt)).resolve_left fun hkept =>
    absurd (Sender.una_le hkept) (Nat.not_le.mpr hi)

end Agree

end BoardComm.SelectiveRepeat
