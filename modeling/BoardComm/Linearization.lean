import BoardComm.Runs

/-!
# Calls that take effect one at a time

Threads call on an object they share. A call takes some time, so that calls of
different threads overlap, and what is seen are the calls and the answers. The history
is linear if each call could have taken effect at one moment between the two. An object
on which every call takes effect in a step of its own has such histories, and so has
whatever can be followed by it.
-/
namespace BoardComm.Linearization

/-- What is seen of a call. -/
inductive Event (T C A : Type*)
  | called (thread : T) (call : C)
  | answered (thread : T) (answer : A)
  deriving DecidableEq, Repr

variable {S T C A : Type*} [DecidableEq T]

/-- The calls of a thread. -/
def calls (thread : T) (history : List (Event T C A)) : List C :=
  history.filterMap fun
    | .called t call => if t = thread then some call else none
    | .answered _ _ => none

/-- The answers to a thread. -/
def answers (thread : T) (history : List (Event T C A)) : List A :=
  history.filterMap fun
    | .called _ _ => none
    | .answered t answer => if t = thread then some answer else none

/-- The calls of a thread among those of all threads. -/
def callsOf (thread : T) (order : List (T × C)) : List C :=
  order.filterMap fun op => if op.1 = thread then some op.2 else none

variable (answer : S → C → A) (next : S → C → S)

/-- The answers to a thread if the calls are made one after the other. -/
def answersOf (thread : T) (s : S) (order : List (T × C)) : List A :=
  Runs.collect (fun s op => next s op.2)
    (fun s op => if op.1 = thread then [answer s op.2] else []) s order

/-- The calls could have taken effect in this order. At any time those that have are among
the calls made, and those answered are among them with the answer that they then get. -/
def LinearizedBy (s : S) (history : List (Event T C A)) (order : List (T × C)) : Prop :=
  ∀ past, past <+: history → ∃ done, done <+: order ∧ ∀ thread,
    callsOf thread done <+: calls thread past ∧
      answers thread past <+: answersOf answer next thread s done

section Atomic

/-- How far a thread is with its call. -/
inductive Stage (C A : Type*)
  | idle
  | waiting (call : C)
  | done (answer : A)

/-- The call that has not taken effect. -/
def Stage.waits : Stage C A → List C
  | .waiting call => [call]
  | _ => []

/-- The answer that the thread does not have yet. -/
def Stage.holds : Stage C A → List A
  | .done answer => [answer]
  | _ => []

/-- An object on which every call takes effect in a step of its own. -/
structure Atomic (S T C A : Type*) where
  object : S
  stage : T → Stage C A

/-- No thread has made a call. -/
def Atomic.fresh (s : S) : Atomic S T C A := ⟨s, fun _ => .idle⟩

/-- A thread goes on to a stage. -/
def Atomic.at (x : Atomic S T C A) (thread : T) (stage : Stage C A) : Atomic S T C A :=
  { x with stage := Function.update x.stage thread stage }

/-- A call takes effect. -/
def Atomic.effect (x : Atomic S T C A) (thread : T) (call : C) : Atomic S T C A :=
  { x.at thread (.done (answer x.object call)) with object := next x.object call }

/-- What one step does, and what is seen of it. -/
inductive Moves : Atomic S T C A → List (Event T C A) → Atomic S T C A → Prop
  | call {x thread} (call : C) (h : x.stage thread = .idle) :
      Moves x [.called thread call] (x.at thread (.waiting call))
  | effect {x thread call} (h : x.stage thread = .waiting call) :
      Moves x [] (x.effect answer next thread call)
  | answer {x thread answer} (h : x.stage thread = .done answer) :
      Moves x [.answered thread answer] (x.at thread .idle)

/-- What some steps do, and what is seen of them. -/
inductive Follows : Atomic S T C A → List (Event T C A) → Atomic S T C A → Prop
  | refl (x) : Follows x [] x
  | step {x y z seen more} (h : Follows x seen y) (hmove : Moves answer next y more z) :
      Follows x (seen ++ more) z

variable {answer next} {x y z : Atomic S T C A} {thread : T}

@[simp] theorem Atomic.at_object {stage : Stage C A} : (x.at thread stage).object = x.object := rfl

@[simp] theorem Atomic.at_stage {stage : Stage C A} {t : T} :
    (x.at thread stage).stage t = if t = thread then stage else x.stage t :=
  Function.update_apply x.stage thread stage t

@[simp] theorem Atomic.effect_stage {call : C} {t : T} :
    (x.effect answer next thread call).stage t =
      if t = thread then .done (answer x.object call) else x.stage t :=
  Atomic.at_stage

theorem Follows.trans {seen more : List (Event T C A)} (h : Follows answer next x seen y)
    (h' : Follows answer next y more z) : Follows answer next x (seen ++ more) z := by
  induction h' with
  | refl =>
    rw [List.append_nil]
    exact h
  | step _ hmove ih =>
    rw [← List.append_assoc]
    exact .step ih hmove

theorem Follows.single {seen : List (Event T C A)} (h : Moves answer next x seen y) :
    Follows answer next x seen y :=
  .step (.refl x) h

/-- A call that takes effect is answered at once. -/
theorem Follows.answer_now {call : C} {given : A} (h : x.stage thread = .waiting call)
    (hgiven : answer x.object call = given) :
    Follows answer next x [.answered thread given]
      ((x.effect answer next thread call).at thread .idle) := by
  have heffect : Follows answer next x [] (x.effect answer next thread call) :=
    .single (.effect h)
  have hdone : (x.effect answer next thread call).stage thread = .done given := by
    simp [hgiven]
  exact .step heffect (.answer hdone)

/-- A system whose steps the object can follow has histories of the object. -/
theorem follows_of_simulation {σ ι : Type*} {step : σ → ι → σ}
    {see : σ → ι → List (Event T C A)} {R : σ → Atomic S T C A → Prop}
    (hstep : ∀ s x i, R s x → ∃ y, Follows answer next x (see s i) y ∧ R (step s i) y)
    {s : σ} (h : R s x) (is : List ι) :
    ∃ y, Follows answer next x (Runs.collect step see s is) y ∧ R (Runs.run step s is) y := by
  induction is generalizing s x with
  | nil => exact ⟨x, .refl x, h⟩
  | cons i is ih =>
    obtain ⟨y, hfollow, hnext⟩ := hstep s x i h
    obtain ⟨z, hrest, hend⟩ := ih hnext
    exact ⟨z, hfollow.trans hrest, hend⟩

end Atomic

section Order

variable {answer next} {thread t : T} {call : C}

@[simp] theorem calls_append (h h' : List (Event T C A)) :
    calls thread (h ++ h') = calls thread h ++ calls thread h' :=
  List.filterMap_append

@[simp] theorem answers_append (h h' : List (Event T C A)) :
    answers thread (h ++ h') = answers thread h ++ answers thread h' :=
  List.filterMap_append

@[simp] theorem callsOf_append (order order' : List (T × C)) :
    callsOf thread (order ++ order') = callsOf thread order ++ callsOf thread order' :=
  List.filterMap_append

@[simp] theorem calls_called :
    calls thread [(.called t call : Event T C A)] = if t = thread then [call] else [] := by
  by_cases heq : t = thread <;> simp [calls, heq]

@[simp] theorem calls_answered {given : A} :
    calls thread [(.answered t given : Event T C A)] = [] := rfl

@[simp] theorem answers_called :
    answers thread [(.called t call : Event T C A)] = [] := rfl

@[simp] theorem answers_answered {given : A} :
    answers thread [(.answered t given : Event T C A)] = if t = thread then [given] else [] := by
  by_cases heq : t = thread <;> simp [answers, heq]

@[simp] theorem callsOf_single : callsOf thread [(t, call)] = if t = thread then [call] else [] := by
  by_cases heq : t = thread <;> simp [callsOf, heq]

/-- The object after the calls. -/
def objectOf (next : S → C → S) (s : S) (order : List (T × C)) : S :=
  Runs.run (fun s op => next s op.2) s order

@[simp] theorem answersOf_append (s : S) (order order' : List (T × C)) :
    answersOf answer next thread s (order ++ order') =
      answersOf answer next thread s order ++
        answersOf answer next thread (objectOf next s order) order' := by
  induction order generalizing s with
  | nil => rfl
  | cons op order ih =>
    have hrest := ih (next s op.2)
    simp only [answersOf, objectOf, List.cons_append, Runs.collect, Runs.run_cons] at hrest ⊢
    rw [hrest, List.append_assoc]

@[simp] theorem answersOf_single (s : S) :
    answersOf answer next thread s [(t, call)] = if t = thread then [answer s call] else [] := by
  simp [answersOf, Runs.collect]

/-- The calls that took effect account for the history and for the stages of the threads. -/
structure Accounts (answer : S → C → A) (next : S → C → S) (s : S)
    (history : List (Event T C A)) (order : List (T × C)) (x : Atomic S T C A) : Prop where
  object : x.object = objectOf next s order
  called : ∀ thread, calls thread history = callsOf thread order ++ (x.stage thread).waits
  answered : ∀ thread,
    answersOf answer next thread s order = answers thread history ++ (x.stage thread).holds

variable {x y : Atomic S T C A} {s : S} {history seen : List (Event T C A)}
  {order : List (T × C)}

variable (answer next s) in
theorem accounts_fresh : Accounts answer next s [] [] (Atomic.fresh s : Atomic S T C A) :=
  ⟨rfl, fun _ => rfl, fun _ => rfl⟩

/-- A step lets at most one more call take effect. -/
theorem Accounts.move (h : Accounts answer next s history order x)
    (hmove : Moves answer next x seen y) :
    ∃ more, Accounts answer next s (history ++ seen) (order ++ more) y := by
  cases hmove with
  | @call t call hidle =>
    refine ⟨[], by rw [List.append_nil]; exact h.object, fun thread => ?_, fun thread => ?_⟩
    · by_cases heq : thread = t
      · subst heq
        simp [h.called, hidle, Stage.waits]
      · simp [h.called, heq, Ne.symm heq]
    · by_cases heq : thread = t
      · subst heq
        simp [h.answered, hidle, Stage.holds]
      · simp [h.answered, heq]
  | @effect t call hwait =>
    refine ⟨[(t, call)], ?_, fun thread => ?_, fun thread => ?_⟩
    · have hobject := h.object
      rw [objectOf] at hobject ⊢
      rw [Runs.run_append, ← hobject]
      rfl
    · by_cases heq : thread = t
      · subst heq
        simp [h.called, hwait, Stage.waits]
      · simp [h.called, heq, Ne.symm heq]
    · by_cases heq : thread = t
      · subst heq
        simp [h.answered, hwait, Stage.holds, h.object]
      · simp [h.answered, heq, Ne.symm heq]
  | @answer t given hdone =>
    refine ⟨[], by rw [List.append_nil]; exact h.object, fun thread => ?_, fun thread => ?_⟩
    · by_cases heq : thread = t
      · subst heq
        simp [h.called, hdone, Stage.waits]
      · simp [h.called, heq]
    · by_cases heq : thread = t
      · subst heq
        simp [h.answered, hdone, Stage.holds]
      · simp [h.answered, heq, Ne.symm heq]

/-- What is accounted for is linear at this moment. -/
theorem Accounts.now (h : Accounts answer next s history order x) (thread : T) :
    callsOf thread order <+: calls thread history ∧
      answers thread history <+: answersOf answer next thread s order := by
  rw [h.called thread, h.answered thread]
  exact ⟨List.prefix_append _ _, List.prefix_append _ _⟩

/-- One step is seen at once. -/
theorem Moves.prefix_iff (h : Moves answer next x seen y) {past : List (Event T C A)}
    (hpast : past <+: history ++ seen) : past = history ++ seen ∨ past <+: history := by
  cases h with
  | call => exact List.prefix_concat_iff.mp hpast
  | effect =>
    rw [List.append_nil] at hpast
    exact .inr hpast
  | answer => exact List.prefix_concat_iff.mp hpast

/-- What is seen from a fresh object on is linear. -/
theorem Follows.linearized {first : Atomic S T C A} (h : Follows answer next first history x)
    (hfresh : first = .fresh s) :
    ∃ order, LinearizedBy answer next s history order ∧
      Accounts answer next s history order x := by
  induction h with
  | refl =>
    subst hfresh
    refine ⟨[], fun past hpast => ⟨[], List.prefix_rfl, fun thread => ?_⟩,
      accounts_fresh answer next s⟩
    rw [List.prefix_nil.mp hpast]
    exact (accounts_fresh answer next s).now thread
  | step _ hmove ih =>
    obtain ⟨order, hlinear, haccounts⟩ := ih
    obtain ⟨more, hnext⟩ := haccounts.move hmove
    refine ⟨order ++ more, fun past hpast => ?_, hnext⟩
    rcases hmove.prefix_iff hpast with rfl | hold
    · exact ⟨_, List.prefix_rfl, hnext.now⟩
    · obtain ⟨done, hdone, hnow⟩ := hlinear past hold
      exact ⟨done, hdone.trans (List.prefix_append _ _), hnow⟩

end Order

end BoardComm.Linearization
