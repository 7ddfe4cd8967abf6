import Mathlib.Tactic

/-!
# A descriptor table shared by two parties

One party obtains descriptors and gives them back; the other one does what it likes
with the numbers that are free, at any time. Numbers that were given back may be
taken by either. The closes of the first party are history, each with the owner that
the number had.
-/
namespace BoardComm.DescriptorTable

inductive Owner
  | own
  | other
  deriving DecidableEq, Repr

/-- What the other party does with a number. -/
inductive Act
  | takes (n : ℕ)
  | drops (n : ℕ)
  deriving DecidableEq, Repr

/-- Who has which number, and what the other party will do before each operation of
the first one. -/
structure Table where
  owner : ℕ → Option Owner
  meanwhile : List (List Act)
  closes : List (ℕ × Option Owner)

namespace Table

/-- One act of the other party: it takes free numbers and drops its own. -/
def act (t : Table) : Act → Table
  | .takes n =>
    if t.owner n = none then { t with owner := Function.update t.owner n (some .other) } else t
  | .drops n =>
    if t.owner n = some .other then { t with owner := Function.update t.owner n none } else t

/-- What the other party does meanwhile. -/
def pass (t : Table) : Table :=
  (t.meanwhile.headD []).foldl act { t with meanwhile := t.meanwhile.tail }

/-- A new descriptor of the number, which the system gives only if it is free. -/
def obtain? (t : Table) (n : ℕ) : Option Table :=
  let t := t.pass
  if t.owner n = none then some { t with owner := Function.update t.owner n (some .own) } else none

/-- `close` of the number, whoever has it. -/
def close (t : Table) (n : ℕ) : Table :=
  let t := t.pass
  { t with owner := Function.update t.owner n none, closes := t.closes ++ [(n, t.owner n)] }

/-- The numbers that the first party has. -/
def held (t : Table) : Set ℕ := {n | t.owner n = some .own}

/-- Every close was of a descriptor obtained and not yet closed. -/
def OwnCloses (t : Table) : Prop := ∀ c ∈ t.closes, c.2 = some .own

variable {t t' : Table} {n : ℕ}

theorem act_held (a : Act) : (t.act a).held = t.held ∧ (t.act a).closes = t.closes := by
  cases a with
  | takes n =>
    simp only [act]
    split_ifs with hfree
    · refine ⟨?_, rfl⟩
      ext m
      by_cases hm : m = n
      · subst hm
        simp [held, hfree]
      · simp [held, Function.update_of_ne hm]
    · exact ⟨rfl, rfl⟩
  | drops n =>
    simp only [act]
    split_ifs with hother
    · refine ⟨?_, rfl⟩
      ext m
      by_cases hm : m = n
      · subst hm
        simp [held, hother]
      · simp [held, Function.update_of_ne hm]
    · exact ⟨rfl, rfl⟩

/-- The other party never touches what the first one has. -/
theorem pass_held (t : Table) : t.pass.held = t.held ∧ t.pass.closes = t.closes := by
  have hacts : ∀ (acts : List Act) (t : Table),
      (acts.foldl act t).held = t.held ∧ (acts.foldl act t).closes = t.closes := by
    intro acts
    induction acts with
    | nil => exact fun t => ⟨rfl, rfl⟩
    | cons a acts ih =>
      intro t
      obtain ⟨hheld, hcloses⟩ := ih (t.act a)
      obtain ⟨hheld', hcloses'⟩ := act_held (t := t) a
      exact ⟨hheld.trans hheld', hcloses.trans hcloses'⟩
  exact hacts (t.meanwhile.headD []) _

theorem obtain_held (h : t.obtain? n = some t') :
    n ∉ t.held ∧ t'.held = insert n t.held ∧ t'.closes = t.closes := by
  obtain ⟨hheld, hcloses⟩ := pass_held t
  unfold obtain? at h
  simp only at h
  split_ifs at h with hfree
  cases h
  refine ⟨?_, ?_, hcloses⟩
  · rw [← hheld]
    intro hn
    rw [held, Set.mem_ofPred_eq, hfree] at hn
    cases hn
  · rw [← hheld]
    ext m
    by_cases hm : m = n
    · subst hm
      simp [held]
    · simp [held, hm]

theorem close_held : (t.close n).held = t.held \ {n} := by
  obtain ⟨hheld, -⟩ := pass_held t
  rw [← hheld]
  ext m
  by_cases hm : m = n
  · subst hm
    simp [held, close]
  · simp [held, close, hm]

theorem OwnCloses.close (h : t.OwnCloses) (hn : n ∈ t.held) : (t.close n).OwnCloses := by
  obtain ⟨hheld, hcloses⟩ := pass_held t
  rw [← hheld] at hn
  intro c hc
  simp only [Table.close, List.mem_append, List.mem_singleton, hcloses] at hc
  rcases hc with hc | rfl
  · exact h c hc
  · exact hn

theorem OwnCloses.of_obtain (h : t.OwnCloses) (ho : t.obtain? n = some t') : t'.OwnCloses := by
  obtain ⟨-, -, hcloses⟩ := obtain_held ho
  unfold OwnCloses
  rw [hcloses]
  exact h

/-- A descriptor that is given back at once leaves no trace. -/
theorem OwnCloses.of_obtain_close (h : t.OwnCloses) (ho : t.obtain? n = some t') :
    (t'.close n).held = t.held ∧ (t'.close n).OwnCloses := by
  obtain ⟨hfresh, hheld, -⟩ := obtain_held ho
  have hn : n ∈ t'.held := by
    rw [hheld]
    exact Set.mem_insert _ _
  refine ⟨?_, (h.of_obtain ho).close hn⟩
  rw [close_held, hheld, Set.insert_sdiff_self_of_notMem hfresh]

end Table

end BoardComm.DescriptorTable
