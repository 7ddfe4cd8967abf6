import Mathlib.Tactic

/-!
# Self-delimiting codes in a byte stream

A scanner looks at the front of a buffer and answers that it needs more input,
that the input is bad, or that an item of a given length stands there. When the
scanner reads a code, a stream of coded items can be received in arbitrary
pieces: what is consumed is the whole items of the input so far, and what is
kept is a proper part of the next one.
-/
namespace BoardComm.Framing

variable {α β γ : Type*}

/-- The answer of a scanner. -/
inductive Scan (γ : Type*)
  | more
  | bad
  | item (len : ℕ) (a : γ)
  deriving DecidableEq, Repr

/-- `scan` reads the code `enc`, answering `out a` for the item `a`. -/
structure Reads (scan : List β → Scan γ) (enc : α → List β) (out : α → γ) : Prop where
  whole : ∀ a rest, scan (enc a ++ rest) = .item (enc a).length (out a)
  part : ∀ a p, p <+: enc a → p ≠ enc a → scan p = .more
  empty : scan [] = .more
  ne_nil : ∀ a, enc a ≠ []

/-- Consume items from the front of a buffer until the scanner stops: the items,
the bytes kept, and whether the scanner stopped for want of input. -/
def drain (scan : List β → Scan γ) : ℕ → List β → List γ × List β × Bool
  | 0, bs => ([], bs, true)
  | fuel + 1, bs =>
    match scan bs with
    | .more => ([], bs, true)
    | .bad => ([], bs, false)
    | .item n a =>
      let r := drain scan fuel (bs.drop n)
      (a :: r.1, r.2.1, r.2.2)

/-- The bytes `tail` begin the next item of `todo` without completing it. -/
def ProperPart (enc : α → List β) : List α → List β → Prop
  | [], tail => tail = []
  | a :: _, tail => tail <+: enc a ∧ tail ≠ enc a

/-- The input `p` is cut into the whole items `done` and a proper part of the
item after them. -/
structure Cut (enc : α → List β) (items : List α) (p : List β) (done : List α)
    (tail : List β) : Prop where
  bytes : p = done.flatMap enc ++ tail
  pending : ∃ todo, items = done ++ todo ∧ ProperPart enc todo tail

/-- A part of an item that is not the whole item is shorter. -/
theorem length_lt_of_part {part whole : List β} (hp : part <+: whole) (hne : part ≠ whole) :
    part.length < whole.length :=
  lt_of_le_of_ne hp.length_le fun he => hne (hp.eq_of_length he)

/-- A part of the next item asks for more input, whatever whole items answer. -/
theorem ProperPart.scan_eq_more {scan : List β → Scan γ} {enc : α → List β} {todo : List α}
    {tail : List β} (hp : ProperPart enc todo tail)
    (hpart : ∀ a p, p <+: enc a → p ≠ enc a → scan p = .more) (hempty : scan [] = .more) :
    scan tail = .more := by
  cases todo with
  | nil => rw [show tail = [] from hp, hempty]
  | cons a todo => exact hpart a tail hp.1 hp.2

theorem properPart_nil {enc : α → List β} (hne : ∀ a, enc a ≠ []) (todo : List α) :
    ProperPart enc todo [] := by
  cases todo with
  | nil => rfl
  | cons a todo => exact ⟨List.nil_prefix, (hne a).symm⟩

theorem properPart_scan {scan : List β → Scan γ} {enc : α → List β} {out : α → γ}
    (h : Reads scan enc out) {todo : List α} {tail : List β} (hp : ProperPart enc todo tail) :
    scan tail = .more :=
  hp.scan_eq_more h.part h.empty

/-- Every prefix of a coded stream has a cut. -/
theorem exists_cut (enc : α → List β) (items : List α) (p : List β)
    (hp : p <+: items.flatMap enc) : ∃ done tail, Cut enc items p done tail := by
  induction items generalizing p with
  | nil =>
    have hnil : p = [] := by simpa using hp
    exact ⟨[], [], by simp [hnil], [], rfl, rfl⟩
  | cons a items ih =>
    simp only [List.flatMap_cons] at hp
    by_cases ha : enc a <+: p
    · obtain ⟨p', rfl⟩ := ha
      have hp' : p' <+: items.flatMap enc := (List.prefix_append_right_inj (enc a)).mp hp
      obtain ⟨done, tail, hbytes, todo, htodo, hpart⟩ := ih p' hp'
      exact ⟨a :: done, tail, by simp [hbytes], todo, by simp [htodo], hpart⟩
    · have hpa : p <+: enc a :=
        (List.prefix_or_prefix_of_prefix (List.prefix_append _ _) hp).resolve_left ha
      refine ⟨[], p, by simp, a :: items, rfl, hpa, ?_⟩
      rintro rfl
      exact ha List.prefix_rfl

/-- Draining a cut buffer yields its whole items and keeps its tail. -/
theorem drain_of_cut {scan : List β → Scan γ} {enc : α → List β} {out : α → γ}
    (h : Reads scan enc out) {items : List α} {p : List β} {done : List α} {tail : List β}
    (hc : Cut enc items p done tail) (fuel : ℕ) (hf : p.length ≤ fuel) :
    drain scan fuel p = (done.map out, tail, true) := by
  obtain ⟨rfl, todo, rfl, hpart⟩ := hc
  induction done generalizing fuel with
  | nil =>
    cases fuel with
    | zero => simp [drain]
    | succ fuel => simp [drain, properPart_scan h hpart]
  | cons a done ih =>
    have hpos := List.length_pos_iff.mpr (h.ne_nil a)
    simp only [List.flatMap_cons, List.append_assoc, List.length_append] at hf ⊢
    cases fuel with
    | zero => omega
    | succ fuel =>
      have hrest := ih fuel (by simp only [List.length_append]; omega)
      simp only [drain, h.whole, List.drop_left, hrest, List.map_cons]

/-- More input extends a cut: the bytes kept and the new input together are cut
into the items that become complete and a new tail. -/
theorem Cut.extend {enc : α → List β} {items : List α} {p c : List β} {done : List α}
    {tail : List β} (hc : Cut enc items p done tail) (hp : p ++ c <+: items.flatMap enc) :
    ∃ todo new tail', items = done ++ todo ∧ Cut enc todo (tail ++ c) new tail' ∧
      Cut enc items (p ++ c) (done ++ new) tail' := by
  obtain ⟨rfl, todo, rfl, -⟩ := hc
  simp only [List.flatMap_append, List.append_assoc] at hp
  obtain ⟨new, tail', hcut⟩ := exists_cut enc todo (tail ++ c)
    ((List.prefix_append_right_inj _).mp hp)
  refine ⟨todo, new, tail', rfl, hcut, ?_, ?_⟩
  · simp [hcut.bytes]
  · obtain ⟨todo', htodo, hpart⟩ := hcut.pending
    exact ⟨todo', by simp [htodo], hpart⟩

/-- A cut stays one when more items come behind the others. -/
theorem Cut.append {enc : α → List β} {items : List α} {p : List β} {done : List α}
    {tail : List β} (hne : ∀ a, enc a ≠ []) (hc : Cut enc items p done tail) (more : List α) :
    Cut enc (items ++ more) p done tail := by
  obtain ⟨hbytes, todo, rfl, hpart⟩ := hc
  refine ⟨hbytes, todo ++ more, List.append_assoc _ _ _, ?_⟩
  cases todo with
  | nil =>
    rw [show tail = [] from hpart]
    exact properPart_nil hne _
  | cons a todo => exact hpart

/-- A scanner whose items are nonempty stretches of the buffer it looked at. -/
def Progress (scan : List β → Scan γ) : Prop :=
  ∀ bs n a, scan bs = .item n a → 0 < n ∧ n ≤ bs.length

/-- With enough fuel, draining that ends well stops where more input is needed. -/
theorem scan_of_drain {scan : List β → Scan γ} (hp : Progress scan) (h0 : scan [] = .more)
    (fuel : ℕ) (bs : List β) (hf : bs.length ≤ fuel) (hok : (drain scan fuel bs).2.2 = true) :
    scan (drain scan fuel bs).2.1 = .more := by
  induction fuel generalizing bs with
  | zero =>
    have hnil : bs = [] := List.length_eq_zero_iff.mp (by omega)
    simp [drain, hnil, h0]
  | succ fuel ih =>
    cases hs : scan bs with
    | more => simp [drain, hs]
    | bad => simp [drain, hs] at hok
    | item n a =>
      have hn := hp bs n a hs
      simp only [drain, hs] at hok ⊢
      exact ih (bs.drop n) (by simp only [List.length_drop]; omega) hok

/-- Whole items at the front of `bs`, and then a beginning of one more. -/
inductive Truncated (scan : List β → Scan γ) : List β → Prop
  | more {bs : List β} (hne : bs ≠ []) (h : scan bs = .more) : Truncated scan bs
  | item {bs : List β} {n : ℕ} {a : γ} (h : scan bs = .item n a)
      (hrest : Truncated scan (bs.drop n)) : Truncated scan bs

/-- Draining keeps bytes for later exactly when the buffer is truncated. -/
theorem drain_keeps_iff {scan : List β → Scan γ} (hp : Progress scan) (h0 : scan [] = .more)
    (fuel : ℕ) (bs : List β) (hf : bs.length ≤ fuel) :
    (drain scan fuel bs).2.2 = true ∧ (drain scan fuel bs).2.1 ≠ [] ↔ Truncated scan bs := by
  induction fuel generalizing bs with
  | zero =>
    have hnil : bs = [] := List.length_eq_zero_iff.mp (by omega)
    subst hnil
    constructor
    · intro h
      exact absurd rfl h.2
    · intro h
      cases h with
      | more hne _ => exact absurd rfl hne
      | item h _ => rw [h0] at h; cases h
  | succ fuel ih =>
    cases hs : scan bs with
    | more =>
      simp only [drain, hs, true_and]
      constructor
      · intro hne
        exact .more hne hs
      · intro h
        cases h with
        | more hne _ => exact hne
        | item h _ => rw [hs] at h; cases h
    | bad =>
      simp only [drain, hs, Bool.false_eq_true, false_and, false_iff]
      intro h
      cases h with
      | more _ h => rw [hs] at h; cases h
      | item h _ => rw [hs] at h; cases h
    | item n a =>
      have hn := hp bs n a hs
      have hrest := ih (bs.drop n) (by simp only [List.length_drop]; omega)
      simp only [drain, hs]
      rw [hrest]
      constructor
      · intro h
        exact .item hs h
      · intro h
        cases h with
        | more _ h => rw [hs] at h; cases h
        | item h hrest =>
          rw [hs] at h
          cases h
          exact hrest

/-- Every drained item stands somewhere in the buffer. -/
theorem scan_of_mem_drain (scan : List β → Scan γ) (fuel : ℕ) (bs : List β) {a : γ}
    (ha : a ∈ (drain scan fuel bs).1) : ∃ off n, scan (bs.drop off) = .item n a := by
  induction fuel generalizing bs with
  | zero => simp [drain] at ha
  | succ fuel ih =>
    cases hs : scan bs with
    | more => simp [drain, hs] at ha
    | bad => simp [drain, hs] at ha
    | item n b =>
      simp only [drain, hs, List.mem_cons] at ha
      rcases ha with rfl | ha
      · exact ⟨0, n, hs⟩
      · obtain ⟨off, k, hk⟩ := ih (bs.drop n) ha
        exact ⟨n + off, k, by rwa [← List.drop_drop]⟩

theorem Cut.nil (enc : α → List β) (hne : ∀ a, enc a ≠ []) (items : List α) :
    Cut enc items [] [] [] :=
  ⟨rfl, items, rfl, properPart_nil hne items⟩

/-- A whole stream is cut into all its items. -/
theorem Cut.done_of_full {enc : α → List β} {items done : List α}
    {tail : List β} (hc : Cut enc items (items.flatMap enc) done tail) :
    done = items ∧ tail = [] := by
  obtain ⟨hbytes, todo, rfl, hpart⟩ := hc
  simp only [List.flatMap_append, List.append_cancel_left_eq] at hbytes
  cases todo with
  | nil => exact ⟨by simp, hpart⟩
  | cons a todo =>
    -- A proper part of `enc a` is shorter than any stream that starts with it.
    have hlen := congrArg List.length hbytes
    have hlt := length_lt_of_part hpart.1 hpart.2
    simp only [List.flatMap_cons, List.length_append] at hlen
    omega

/-- A scanner whose definite answers are not changed by what follows. -/
structure Stable (scan : List β → Scan γ) : Prop where
  item : ∀ bs n a rest, scan bs = .item n a → scan (bs ++ rest) = .item n a
  bad : ∀ bs rest, scan bs = .bad → scan (bs ++ rest) = .bad

/-- Draining with all the fuel it can use. -/
def drainAll (scan : List β → Scan γ) (bs : List β) : List γ × List β × Bool :=
  drain scan bs.length bs

section DrainAll

variable {scan : List β → Scan γ}

theorem drain_eq_drainAll (hp : Progress scan) (h0 : scan [] = .more) (fuel : ℕ) (bs : List β)
    (hf : bs.length ≤ fuel) : drain scan fuel bs = drainAll scan bs := by
  -- Any two sufficient amounts of fuel give the same result.
  have hsame : ∀ (f g : ℕ) (bs : List β), bs.length ≤ f → bs.length ≤ g →
      drain scan f bs = drain scan g bs := by
    intro f
    induction f with
    | zero =>
      intro g bs hbs _
      have hnil : bs = [] := List.length_eq_zero_iff.mp (by omega)
      subst hnil
      cases g <;> simp [drain, h0]
    | succ f ih =>
      intro g bs hbs hbs'
      cases g with
      | zero =>
        have hnil : bs = [] := List.length_eq_zero_iff.mp (by omega)
        subst hnil
        simp [drain, h0]
      | succ g =>
        cases hs : scan bs with
        | more => simp [drain, hs]
        | bad => simp [drain, hs]
        | item n a =>
          have hn := hp bs n a hs
          have hrest := ih g (bs.drop n) (by simp only [List.length_drop]; omega)
            (by simp only [List.length_drop]; omega)
          simp only [drain, hs, hrest]
  exact hsame fuel bs.length bs hf le_rfl

theorem drainAll_item (hp : Progress scan) (h0 : scan [] = .more) {bs : List β} {n : ℕ} {a : γ}
    (hs : scan bs = .item n a) :
    drainAll scan bs = (a :: (drainAll scan (bs.drop n)).1, (drainAll scan (bs.drop n)).2) := by
  have hn := hp bs n a hs
  obtain ⟨k, hk⟩ : ∃ k, bs.length = k + 1 := ⟨bs.length - 1, by omega⟩
  rw [drainAll, hk, drain, hs]
  simp only
  rw [drain_eq_drainAll hp h0 k (bs.drop n) (by simp only [List.length_drop]; omega)]

theorem drainAll_more {bs : List β} (hs : scan bs = .more) : drainAll scan bs = ([], bs, true) := by
  unfold drainAll
  cases bs.length <;> simp [drain, hs]

theorem drainAll_bad (h0 : scan [] = .more) {bs : List β} (hs : scan bs = .bad) :
    drainAll scan bs = ([], bs, false) := by
  cases bs with
  | nil =>
    rw [h0] at hs
    cases hs
  | cons b bs => simp [drainAll, drain, hs]

/-- More input is drained together with the bytes kept. -/
theorem drainAll_append (hp : Progress scan) (h0 : scan [] = .more) (hst : Stable scan)
    (bs rest : List β) :
    drainAll scan (bs ++ rest) =
      if (drainAll scan bs).2.2 = true then
        ((drainAll scan bs).1 ++ (drainAll scan ((drainAll scan bs).2.1 ++ rest)).1,
          (drainAll scan ((drainAll scan bs).2.1 ++ rest)).2)
      else ((drainAll scan bs).1, (drainAll scan bs).2.1 ++ rest, false) := by
  induction hlen : bs.length using Nat.strong_induction_on generalizing bs with
  | _ k ih =>
    cases hs : scan bs with
    | more => simp [drainAll_more hs]
    | bad => simp [drainAll_bad h0 hs, drainAll_bad h0 (hst.bad bs rest hs)]
    | item n a =>
      have hn := hp bs n a hs
      have hrest := ih (bs.drop n).length (by simp only [List.length_drop]; omega) (bs.drop n) rfl
      rw [drainAll_item hp h0 hs, drainAll_item hp h0 (hst.item bs n a rest hs),
        List.drop_append_of_le_length hn.2, hrest]
      split_ifs <;> rfl

/-- Input that is drained to its end stays so when its end is cut off. -/
theorem drainAll_ok_of_append (hp : Progress scan) (h0 : scan [] = .more) (hst : Stable scan)
    {bs rest : List β} (h : (drainAll scan (bs ++ rest)).2.2 = true) :
    (drainAll scan bs).2.2 = true := by
  rw [drainAll_append hp h0 hst] at h
  by_contra hn
  rw [if_neg hn] at h
  cases h

end DrainAll

end BoardComm.Framing
