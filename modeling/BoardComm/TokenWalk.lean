import Mathlib.Tactic

/-!
# Walks of a token over links

Every port of a node is joined to a port of another node. Each node has chosen
at most one of its ports. A token that arrives at a node leaves by the chosen
port, unless it arrived there, and it stops where it cannot leave.
-/
namespace BoardComm.TokenWalk

section Walks

variable {α : Type*} (next : α → Option α)

/-- The position after so many steps, if the walk gets that far. -/
def position (a : α) : ℕ → Option α
  | 0 => some a
  | n + 1 => (position a n).bind next

/-- The walk stops. -/
def Ends (a : α) : Prop := ∃ n, position next a n = none

variable {next} {a : α}

theorem position_none_of_le {m n : ℕ} (h : position next a m = none) (hle : m ≤ n) :
    position next a n = none := by
  induction n, hle using Nat.le_induction with
  | base => exact h
  | succ n _ ih => rw [position, ih, Option.bind_none]

/-- What follows a position does not depend on how it was reached. -/
theorem position_add_eq {i j : ℕ} (h : position next a i = position next a j) (k : ℕ) :
    position next a (i + k) = position next a (j + k) := by
  induction k with
  | zero => exact h
  | succ k ih =>
    rw [← Nat.add_assoc, ← Nat.add_assoc, position, position, ih]

/-- A walk that comes to a position again never stops. -/
theorem not_ends_of_repeat {i j : ℕ} (hlt : i < j) (h : position next a i = position next a j)
    (hsome : position next a i ≠ none) : ¬ Ends next a := by
  -- After any number of rounds the walk is where it was.
  have hround : ∀ k, position next a (i + k * (j - i)) = position next a i := by
    intro k
    induction k with
    | zero => rw [Nat.zero_mul, Nat.add_zero]
    | succ k ih =>
      have hshift := position_add_eq h (k * (j - i))
      have hindex : i + (k + 1) * (j - i) = j + k * (j - i) := by
        rw [Nat.add_mul, Nat.one_mul]
        omega
      rw [hindex, ← hshift, ih]
  rintro ⟨n, hn⟩
  have hfar : n ≤ i + n * (j - i) := by
    have hstep : n * 1 ≤ n * (j - i) := Nat.mul_le_mul_left n (by omega)
    omega
  exact hsome (hround n ▸ position_none_of_le hn hfar)

/-- What the walk shows of the positions up to a step. -/
def trail {β : Type*} (see : α → β) (next : α → Option α) (a : α) (n : ℕ) : List β :=
  (List.range n).filterMap fun i => (position next a i).map see

theorem trail_succ {β : Type*} (see : α → β) {n : ℕ} {b : α} (h : position next a n = some b) :
    trail see next a (n + 1) = trail see next a n ++ [see b] := by
  simp [trail, List.range_succ, List.filterMap_append, h]

/-- A walk that does not stop shows a position for every step. -/
theorem trail_length {β : Type*} {see : α → β} (h : ¬ Ends next a) (n : ℕ) :
    (trail see next a n).length = n := by
  induction n with
  | zero => rfl
  | succ n ih =>
    have hn : position next a n ≠ none := fun hnone => h ⟨n, hnone⟩
    obtain ⟨b, hb⟩ := Option.ne_none_iff_exists'.mp hn
    rw [trail_succ see hb, List.length_append, ih, List.length_singleton]

end Walks

section Links

variable {N P : Type*}

/-- Every port is joined to a port of another node. -/
structure Links (N P : Type*) where
  peer : N × P → N × P
  peer_peer : ∀ p, peer (peer p) = p
  peer_ne : ∀ p, (peer p).1 ≠ p.1

variable [DecidableEq P] (links : Links N P) (route : N → Option P)

/-- The next node of a token, and the port by which it arrives there. -/
def hop (p : N × Option P) : Option (N × Option P) :=
  match route p.1 with
  | none => none
  | some r =>
    if some r = p.2 then none
    else some ((links.peer (p.1, r)).1, some (links.peer (p.1, r)).2)

variable {links route}

theorem hop_eq_some {p q : N × Option P} (h : hop links route p = some q) :
    ∃ r, route p.1 = some r ∧ some r ≠ p.2 ∧
      q = ((links.peer (p.1, r)).1, some (links.peer (p.1, r)).2) := by
  unfold hop at h
  cases hr : route p.1 with
  | none => simp [hr] at h
  | some r =>
    simp only [hr] at h
    split_ifs at h with hback
    exact ⟨r, rfl, hback, (Option.some.inj h).symm⟩

/-- A token that comes to a node again by a port other than the chosen one goes
where it went before, and one that comes by the chosen port had turned around
before, which it cannot. So it never stops. -/
theorem not_ends_of_revisit {o : N} {i j : ℕ} {n : N} {a b : Option P} (hlt : i < j)
    (hi : position (hop links route) (o, none) i = some (n, a))
    (hj : position (hop links route) (o, none) j = some (n, b)) :
    ¬ Ends (hop links route) (o, none) := by
  -- There is a step from the first visit, since there is a later one.
  have hgo : ∀ k ≤ j, position (hop links route) (o, none) k ≠ none := by
    intro k hk hnone
    rw [position_none_of_le hnone hk] at hj
    cases hj
  obtain ⟨q, hq⟩ := Option.ne_none_iff_exists'.mp (hgo (i + 1) hlt)
  have hstep : hop links route (n, a) = some q := by simpa [position, hi] using hq
  obtain ⟨r, hr, hra, rfl⟩ := hop_eq_some hstep
  by_cases hback : some r = b
  · -- The last step to the second visit came over the link of the first step from the first.
    obtain ⟨k, rfl⟩ : ∃ k, j = k + 1 := ⟨j - 1, by omega⟩
    obtain ⟨p, hp⟩ := Option.ne_none_iff_exists'.mp (hgo k (by omega))
    have hlast : hop links route p = some (n, b) := by simpa [position, hp] using hj
    obtain ⟨r', hr', hpr, hnb⟩ := hop_eq_some hlast
    have hpeer : links.peer (p.1, r') = (n, r) := by
      obtain ⟨hn, hb⟩ := Prod.mk.inj hnb
      rw [← hback] at hb
      exact Prod.ext hn.symm (Option.some.inj hb).symm
    have hother : links.peer (n, r) = (p.1, r') := by rw [← hpeer, links.peer_peer]
    -- The node there has chosen that link, so the token stopped at once.
    have hstop : position (hop links route) (o, none) (i + 2) = none := by
      rw [position, hq, Option.bind_some, hother]
      simp [hop, hr']
    rcases Nat.lt_or_ge k (i + 1) with hk | hk
    · obtain rfl : k = i := by omega
      rw [hi] at hp
      cases hp
      exact absurd (congrArg Prod.fst hpeer) (links.peer_ne _)
    · exact absurd (position_none_of_le hstop (by omega)) (hgo (k + 1) le_rfl)
  · have hagain : position (hop links route) (o, none) (j + 1) =
        position (hop links route) (o, none) (i + 1) := by
      rw [hq, position, hj, Option.bind_some]
      simp [hop, hr, hback]
    exact not_ends_of_repeat (by omega) hagain.symm (by simp [hq])

/-- A walk that stops visits no node twice. -/
theorem nodup_trail (o : N) (h : Ends (hop links route) (o, none)) (n : ℕ) :
    (trail Prod.fst (hop links route) (o, none) n).Nodup := by
  refine List.pairwise_filterMap.mpr (List.pairwise_lt_range.imp ?_)
  intro i j hlt m hm m' hm' heq
  obtain ⟨⟨n, a⟩, hi, rfl⟩ := Option.map_eq_some_iff.mp hm
  obtain ⟨⟨n', b⟩, hj, rfl⟩ := Option.map_eq_some_iff.mp hm'
  obtain rfl : n = n' := heq
  exact not_ends_of_revisit hlt hi hj h

/-- On finitely many nodes a walk that does not stop comes to a node again. -/
theorem exists_not_nodup_trail [Finite N] (o : N) (h : ¬ Ends (hop links route) (o, none)) :
    ∃ n, ¬ (trail Prod.fst (hop links route) (o, none) n).Nodup := by
  have := Fintype.ofFinite N
  refine ⟨Fintype.card N + 1, fun hnodup => ?_⟩
  have hle := hnodup.length_le_card
  rw [trail_length h] at hle
  omega

end Links

end BoardComm.TokenWalk
