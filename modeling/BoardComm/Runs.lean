import Mathlib.Tactic

/-!
# Runs of a step function

A run feeds a list of inputs to a step function. Statements about every state of
a run, and about every step taken, are read off the prefixes of the input list.
-/
namespace BoardComm.Runs

variable {σ ι : Type*} (step : σ → ι → σ)

/-- The state after the inputs. -/
def run (s : σ) (is : List ι) : σ := is.foldl step s

/-- `P` holds in every state of the run. -/
def Along (P : σ → Prop) (s : σ) (is : List ι) : Prop :=
  ∀ pre, pre <+: is → P (run step s pre)

/-- Every input meets `Q` in the state in which it is fed. -/
def Meets (Q : σ → ι → Prop) (s : σ) (is : List ι) : Prop :=
  ∀ pre i, pre ++ [i] <+: is → Q (run step s pre) i

@[simp] theorem run_nil (s : σ) : run step s [] = s := rfl

@[simp] theorem run_cons (s : σ) (i : ι) (is : List ι) :
    run step s (i :: is) = run step (step s i) is := rfl

theorem run_append (s : σ) (is js : List ι) :
    run step s (is ++ js) = run step (run step s is) js := List.foldl_append

/-- Some run leads from one state to the other. -/
def Reaches (s s' : σ) : Prop := ∃ is, run step s is = s'

theorem Reaches.refl (s : σ) : Reaches step s s := ⟨[], rfl⟩

variable {step} in
theorem Reaches.trans {s₁ s₂ s₃ : σ} (h : Reaches step s₁ s₂) (h' : Reaches step s₂ s₃) :
    Reaches step s₁ s₃ := by
  obtain ⟨is, rfl⟩ := h
  obtain ⟨js, rfl⟩ := h'
  exact ⟨is ++ js, run_append step s₁ is js⟩

theorem Reaches.single (s : σ) (i : ι) : Reaches step s (step s i) := ⟨[i], rfl⟩

/-- What is seen of the steps of a run, in order. -/
def collect {α : Type*} (see : σ → ι → List α) : σ → List ι → List α
  | _, [] => []
  | s, i :: is => see s i ++ collect see (step s i) is

variable {step} in
theorem forall_mem_collect {α : Type*} {see : σ → ι → List α} {P : α → Prop}
    (hsee : ∀ s i, ∀ a ∈ see s i, P a) (s : σ) (is : List ι) :
    ∀ a ∈ collect step see s is, P a := by
  induction is generalizing s with
  | nil => simp [collect]
  | cons i is ih =>
    intro a ha
    rcases List.mem_append.mp ha with ha | ha
    · exact hsee s i a ha
    · exact ih _ a ha

/-- Two runs look the same and end in related states, if steps from related states look
the same and lead to related states. -/
theorem collect_eq_of_related {τ α : Type*} {step' : τ → ι → τ} {R : σ → τ → Prop}
    {see : σ → ι → List α} {see' : τ → ι → List α}
    (hstep : ∀ s t i, R s t → see s i = see' t i ∧ R (step s i) (step' t i)) {s : σ} {t : τ}
    (h : R s t) (is : List ι) :
    collect step see s is = collect step' see' t is ∧ R (run step s is) (run step' t is) := by
  induction is generalizing s t with
  | nil => exact ⟨rfl, h⟩
  | cons i is ih =>
    obtain ⟨hsee, hnext⟩ := hstep s t i h
    obtain ⟨hrest, hend⟩ := ih hnext
    exact ⟨by rw [collect, collect, hsee, hrest], hend⟩

variable {step} in
/-- What is seen of a run whose steps are counted. -/
theorem collect_eq_map_count {α : Type*} {I : σ → Prop} {count : σ → ℕ} (see : σ → ι → List α)
    (f : ℕ → α) (hstep : ∀ s i, I s → I (step s i) ∧ count (step s i) = count s + 1)
    (hsee : ∀ s i, I s → see s i = [f (count s)]) {s : σ} (hs : I s) (is : List ι) :
    collect step see s is = (List.range' (count s) is.length).map f := by
  induction is generalizing s with
  | nil => rfl
  | cons i is ih =>
    obtain ⟨hnext, hcount⟩ := hstep s i hs
    rw [collect, hsee s i hs, ih hnext, hcount, List.length_cons, List.range'_succ,
      List.map_cons, List.singleton_append]

/-- What every step keeps holds after every run. -/
theorem run_of_step {I : σ → Prop} (hstep : ∀ s i, I s → I (step s i)) {s : σ} (hs : I s)
    (is : List ι) : I (run step s is) := by
  induction is generalizing s with
  | nil => exact hs
  | cons i is ih => exact ih (hstep s i hs)

/-- What every step on an input of the kind keeps holds after every run of these. -/
theorem run_of_inputs {I : σ → Prop} {A : ι → Prop} (hstep : ∀ s i, I s → A i → I (step s i))
    {s : σ} (hs : I s) {is : List ι} (hA : ∀ i ∈ is, A i) : I (run step s is) := by
  induction is generalizing s with
  | nil => exact hs
  | cons i is ih =>
    exact ih (hstep s i hs (hA i (by simp))) fun j hj => hA j (List.mem_cons_of_mem _ hj)

theorem along_nil {P : σ → Prop} {s : σ} : Along step P s [] ↔ P s := by
  constructor
  · intro h
    exact h [] List.prefix_rfl
  · intro h pre hpre
    rw [List.prefix_nil.mp hpre]
    exact h

theorem along_cons {P : σ → Prop} {s : σ} {i : ι} {is : List ι} :
    Along step P s (i :: is) ↔ P s ∧ Along step P (step s i) is := by
  constructor
  · intro h
    refine ⟨h [] List.nil_prefix, fun pre hpre => ?_⟩
    exact h (i :: pre) ((List.prefix_cons_inj i).mpr hpre)
  · intro ⟨hs, h⟩ pre hpre
    cases pre with
    | nil => exact hs
    | cons j pre =>
      obtain ⟨rfl, hrest⟩ := List.cons_prefix_cons.mp hpre
      exact h pre hrest

theorem meets_nil {Q : σ → ι → Prop} {s : σ} : Meets step Q s [] := by
  intro pre i h
  simp at h

theorem meets_cons {Q : σ → ι → Prop} {s : σ} {i : ι} {is : List ι} :
    Meets step Q s (i :: is) ↔ Q s i ∧ Meets step Q (step s i) is := by
  constructor
  · intro h
    refine ⟨h [] i ?_, fun pre j hpre => ?_⟩
    · simp
    · exact h (i :: pre) j ((List.prefix_cons_inj i).mpr hpre)
  · intro ⟨hi, h⟩ pre j hpre
    cases pre with
    | nil =>
      obtain ⟨rfl, -⟩ := List.cons_prefix_cons.mp hpre
      exact hi
    | cons k pre =>
      obtain ⟨rfl, hrest⟩ := List.cons_prefix_cons.mp hpre
      exact h pre j hrest

variable {step} in
/-- Inputs that leave every state in which they are fed as it is, with nothing to see,
can be left out. -/
theorem run_filter {α : Type*} {see : σ → ι → List α} {keep : ι → Bool} {s : σ} {is : List ι}
    (h : Meets step (fun s i => keep i = false → step s i = s ∧ see s i = []) s is) :
    run step s is = run step s (is.filter keep) ∧
      collect step see s is = collect step see s (is.filter keep) := by
  induction is generalizing s with
  | nil => exact ⟨rfl, rfl⟩
  | cons i is ih =>
    obtain ⟨hi, hrest⟩ := (meets_cons step).mp h
    obtain ⟨hrun, hcollect⟩ := ih hrest
    cases hkeep : keep i with
    | true =>
      rw [List.filter_cons_of_pos hkeep]
      exact ⟨hrun, by rw [collect, collect, hcollect]⟩
    | false =>
      obtain ⟨hsame, hnone⟩ := hi hkeep
      rw [List.filter_cons_of_neg (by simp [hkeep]), run_cons, collect, hnone, List.nil_append]
      rw [hsame] at hrun hcollect ⊢
      exact ⟨hrun, hcollect⟩

theorem meets_of_forall {Q : σ → ι → Prop} {s : σ} {is : List ι} (h : ∀ s, ∀ i ∈ is, Q s i) :
    Meets step Q s is := by
  intro pre i hpre
  exact h _ i (hpre.subset (by simp))

theorem meets_append {Q : σ → ι → Prop} {s : σ} {is js : List ι} :
    Meets step Q s (is ++ js) ↔ Meets step Q s is ∧ Meets step Q (run step s is) js := by
  induction is generalizing s with
  | nil =>
    constructor
    · intro h
      exact ⟨meets_nil step, h⟩
    · intro h
      exact h.2
  | cons i is ih =>
    rw [List.cons_append, meets_cons, meets_cons, ih, run_cons, and_assoc]

instance decidableMeets {Q : σ → ι → Prop} [∀ s i, Decidable (Q s i)] :
    ∀ (s : σ) (is : List ι), Decidable (Meets step Q s is)
  | _, [] => isTrue (meets_nil step)
  | s, i :: is =>
    have : Decidable (Meets step Q (step s i) is) := decidableMeets (step s i) is
    decidable_of_iff _ (meets_cons step).symm

/-- A run whose steps meet their condition keeps an invariant. -/
theorem along_of_meets {I : σ → Prop} {A : ι → Prop} {Q : σ → ι → Prop}
    (hstep : ∀ s i, I s → A i → Q s i → I (step s i)) {s : σ} {is : List ι} (hs : I s)
    (hA : ∀ i ∈ is, A i) (hmeets : Meets step Q s is) : Along step I s is := by
  induction is generalizing s with
  | nil => exact (along_nil step).mpr hs
  | cons i is ih =>
    obtain ⟨hi, hrest⟩ := (meets_cons step).mp hmeets
    have hnext := hstep s i hs (hA i (by simp)) hi
    exact (along_cons step).mpr
      ⟨hs, ih hnext (fun j hj => hA j (List.mem_cons_of_mem _ hj)) hrest⟩

/-- A run whose steps meet their condition is no longer than the steps that were left
in the beginning. -/
theorem length_le_of_meets {I : σ → Prop} {Q : σ → ι → Prop} {n : σ → ℕ}
    (hstep : ∀ s i, I s → Q s i → I (step s i) ∧ n (step s i) < n s) {s : σ} {is : List ι}
    (hs : I s) (hmeets : Meets step Q s is) :
    I (run step s is) ∧ is.length + n (run step s is) ≤ n s := by
  induction is generalizing s with
  | nil => exact ⟨hs, by simp⟩
  | cons i is ih =>
    obtain ⟨hi, hrest⟩ := (meets_cons step).mp hmeets
    obtain ⟨hnext, hless⟩ := hstep s i hs hi
    obtain ⟨hend, hlength⟩ := ih hnext hrest
    rw [run_cons, List.length_cons]
    exact ⟨hend, by omega⟩

/-- A run of steps that meet their condition leads from one state to the other. -/
def Leads (Q : σ → ι → Prop) (s s' : σ) : Prop := ∃ is, Meets step Q s is ∧ run step s is = s'

theorem Leads.refl {Q : σ → ι → Prop} (s : σ) : Leads step Q s s := ⟨[], meets_nil step, rfl⟩

variable {step} in
theorem Leads.single {Q : σ → ι → Prop} {s s' : σ} {i : ι} (hi : Q s i) (hnext : step s i = s') :
    Leads step Q s s' :=
  ⟨[i], (meets_cons step).mpr ⟨hi, meets_nil step⟩, hnext⟩

variable {step} in
theorem Leads.trans {Q : σ → ι → Prop} {s₁ s₂ s₃ : σ} (h : Leads step Q s₁ s₂)
    (h' : Leads step Q s₂ s₃) : Leads step Q s₁ s₃ := by
  obtain ⟨is, hmeets, rfl⟩ := h
  obtain ⟨js, hmeets', rfl⟩ := h'
  exact ⟨is ++ js, (meets_append step).mpr ⟨hmeets, hmeets'⟩, run_append step s₁ is js⟩

variable {step} in
/-- A run that leads somewhere does so in another system that takes the same steps. -/
theorem Leads.map {τ κ : Type*} {step' : τ → κ → τ} {Q : σ → ι → Prop} {Q' : τ → κ → Prop}
    {f : σ → τ} {g : ι → κ} (hstep : ∀ s i, step' (f s) (g i) = f (step s i))
    (hQ : ∀ s i, Q s i → Q' (f s) (g i)) {s s' : σ} (h : Leads step Q s s') :
    Leads step' Q' (f s) (f s') := by
  obtain ⟨is, hmeets, rfl⟩ := h
  induction is generalizing s with
  | nil => exact .refl step' (f s)
  | cons i is ih =>
    obtain ⟨hi, hrest⟩ := (meets_cons step).mp hmeets
    exact (Leads.single (hQ s i hi) (hstep s i)).trans (ih hrest)

/-- If a step that misses its condition loses `P`, then `P` holds along a run
exactly when all its steps meet theirs. -/
theorem along_iff_meets {I P : σ → Prop} {A : ι → Prop} {Q : σ → ι → Prop}
    (hI : ∀ s, I s → P s)
    (hstep : ∀ s i, I s → A i → Q s i → I (step s i))
    (hlost : ∀ s i, I s → A i → ¬ Q s i → ¬ P (step s i)) {s : σ} {is : List ι} (hs : I s)
    (hA : ∀ i ∈ is, A i) : Along step P s is ↔ Meets step Q s is := by
  constructor
  · intro h
    induction is generalizing s with
    | nil => exact meets_nil step
    | cons i is ih =>
      obtain ⟨-, hrest⟩ := (along_cons step).mp h
      have hi : Q s i := by
        by_contra hq
        exact hlost s i hs (hA i (by simp)) hq (hrest [] List.nil_prefix)
      have hnext := hstep s i hs (hA i (by simp)) hi
      exact (meets_cons step).mpr
        ⟨hi, ih hnext (fun j hj => hA j (List.mem_cons_of_mem _ hj)) hrest⟩
  · intro h pre hpre
    exact hI _ (along_of_meets step hstep hs hA h pre hpre)

end BoardComm.Runs
