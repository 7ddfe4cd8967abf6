import BoardComm.Runs
import BoardComm.Types

/-!
# The reactor

Registrations are linked in a list, and the kernel keeps a pointer to each for its
descriptor. One wait returns several of these pointers, and the callbacks are called one
after the other, while any of them may take registrations away.
-/
namespace BoardComm

/-- A `struct bc_reactor_event` in memory. A callback stands with its argument. -/
structure ReactorEvent (κ : Type*) where
  fd : ℕ
  cb : Option κ

/-- `bc_reactor_t`: the addresses of the linked registrations, the youngest first, what
memory holds at each address, and the pointers that the kernel keeps. -/
structure Reactor (κ : Type*) where
  stop : Bool
  events : List ℕ
  memory : ℕ → ReactorEvent κ
  interest : ℕ → Option ℕ

namespace Reactor

variable {κ : Type*}

/-- `bc_reactor_init`. -/
def bcReactorInit (memory : ℕ → ReactorEvent κ) : Reactor κ := ⟨false, [], memory, fun _ => none⟩

/-- `find_event`. -/
def findEvent (r : Reactor κ) (fd : ℕ) : Option ℕ :=
  r.events.find? fun item => (r.memory item).fd = fd

/-- `unlink_event`. The memory keeps what it held until it is used again. -/
def unlinkEvent (r : Reactor κ) (fd : ℕ) : Reactor κ :=
  { r with events := r.events.eraseP fun item => (r.memory item).fd = fd }

/-- `bc_reactor_add`. The answers are those of `calloc` and of `epoll_ctl`, which refuses
a descriptor that it already has. -/
def bcReactorAdd (r : Reactor κ) (fd : ℕ) (cb : Option κ) (address : Option ℕ) (ctl : Bool) :
    BcStatus × Reactor κ :=
  match address with
  | none => (.nomem, r)
  | some item =>
    let r := { r with memory := Function.update r.memory item ⟨fd, cb⟩ }
    if ctl = false ∨ r.interest fd ≠ none then (.io, r)
    else (.ok, { r with events := item :: r.events
                        interest := Function.update r.interest fd (some item) })

/-- `bc_reactor_mod`. -/
def bcReactorMod (r : Reactor κ) (fd : ℕ) (cb : Option κ) (ctl : Bool) : BcStatus × Reactor κ :=
  match r.findEvent fd with
  | none => (.notFound, r)
  | some item =>
    let r := { r with memory := Function.update r.memory item ⟨fd, cb⟩ }
    if ctl = false ∨ r.interest fd = none then (.io, r)
    else (.ok, { r with interest := Function.update r.interest fd (some item) })

/-- `bc_reactor_del`. -/
def bcReactorDel (r : Reactor κ) (fd : ℕ) : Reactor κ :=
  unlinkEvent { r with interest := Function.update r.interest fd none } fd

end Reactor

/-- What a callback may do to the reactor. A descriptor that is closed leaves the kernel's
set by itself. -/
inductive ReactorOp (κ : Type*)
  | add (fd : ℕ) (cb : Option κ) (address : Option ℕ) (ctl : Bool)
  | mod (fd : ℕ) (cb : Option κ) (ctl : Bool)
  | del (fd : ℕ)
  | close (fd : ℕ)
  | stop

/-- One step of `bc_reactor_run`: `epoll_wait` returns, the next event of the batch is
dispatched, or the callback that runs does something. -/
inductive ReactorInput (κ : Type*)
  | wait (batch : List ℕ)
  | next
  | op (op : ReactorOp κ)

/-- The reactor with the pointers of the batch that are still to be dispatched. Each
callback called is history, with whether its registration was linked at that moment. -/
structure ReactorRun (κ : Type*) where
  reactor : Reactor κ
  batch : List ℕ
  invoked : List (κ × Bool)

namespace ReactorRun

variable {κ : Type*}

def applyOp (r : Reactor κ) : ReactorOp κ → Reactor κ
  | .add fd cb address ctl => (r.bcReactorAdd fd cb address ctl).2
  | .mod fd cb ctl => (r.bcReactorMod fd cb ctl).2
  | .del fd => r.bcReactorDel fd
  | .close fd => { r with interest := Function.update r.interest fd none }
  | .stop => { r with stop := true }

/-- `bc_reactor_run`, step by step. -/
def step (s : ReactorRun κ) : ReactorInput κ → ReactorRun κ
  | .wait batch => if s.batch = [] ∧ s.reactor.stop = false then { s with batch := batch } else s
  | .next =>
    match s.batch with
    | [] => s
    | item :: rest =>
      match (s.reactor.memory item).cb with
      | none => { s with batch := rest }
      | some cb =>
        { s with batch := rest, invoked := s.invoked ++ [(cb, decide (item ∈ s.reactor.events))] }
  | .op op => { s with reactor := applyOp s.reactor op }

/-- What the system can answer: `epoll_wait` returns pointers that the kernel keeps, 32 at
most, and `calloc` returns memory that is not in use. -/
def Possible (s : ReactorRun κ) : ReactorInput κ → Prop
  | .wait batch => batch.length ≤ 32 ∧ ∀ item ∈ batch, ∃ fd, s.reactor.interest fd = some item
  | .op (.add _ _ (some item) _) => item ∉ s.reactor.events
  | _ => True

/-- No registration is taken away whose event comes later in the batch. -/
def SparesBatch (s : ReactorRun κ) : ReactorInput κ → Prop
  | .op (.del fd) => ∀ item, s.reactor.findEvent fd = some item → item ∉ s.batch
  | _ => True

/-- Every callback was called for a linked registration. -/
def OnlyLinked (s : ReactorRun κ) : Prop := ∀ call ∈ s.invoked, call.2 = true

end ReactorRun

section Linked

variable {κ : Type*} {r : Reactor κ} {fd fd' item : ℕ}

/-- Removing the first of one kind does not change what is the first of another. -/
theorem find_eraseP {α : Type*} {p q : α → Bool} (hpq : ∀ x, q x = true → p x = false)
    (l : List α) : (l.eraseP p).find? q = l.find? q := by
  induction l with
  | nil => rfl
  | cons x l ih =>
    by_cases hp : p x = true
    · have hq : q x = false := by
        by_contra hne
        have hfalse := hpq x (by simpa using hne)
        rw [hp] at hfalse
        cases hfalse
      rw [List.eraseP_cons_of_pos hp, List.find?_cons_of_neg (by simp [hq])]
    · rw [List.eraseP_cons_of_neg hp, List.find?_cons, List.find?_cons, ih]

/-- Memory that no registration uses may change. -/
theorem Reactor.findEvent_update (hfresh : item ∉ r.events) (event : ReactorEvent κ) (fd : ℕ) :
    Reactor.findEvent { r with memory := Function.update r.memory item event } fd =
      r.findEvent fd := by
  unfold Reactor.findEvent
  apply List.find?_congr
  intro other hother
  have hne : other ≠ item := fun he => hfresh (he ▸ hother)
  show decide ((Function.update r.memory item event other).fd = fd) = _
  rw [Function.update_of_ne hne]

/-- The pointers of the kernel are the registrations that a search finds, and those of the
batch are linked. -/
structure ReactorRun.Inv (s : ReactorRun κ) : Prop where
  batch : ∀ item ∈ s.batch, item ∈ s.reactor.events
  interest : ∀ fd item, s.reactor.interest fd = some item → s.reactor.findEvent fd = some item
  invoked : s.OnlyLinked

namespace ReactorRun

variable {s : ReactorRun κ}

theorem Inv.add (h : s.Inv) (fd : ℕ) (cb : Option κ) (ctl : Bool)
    (hfresh : item ∉ s.reactor.events) :
    Inv { s with reactor := (s.reactor.bcReactorAdd fd cb (some item) ctl).2 } := by
  have hfind := Reactor.findEvent_update hfresh ⟨fd, cb⟩
  simp only [Reactor.bcReactorAdd]
  split_ifs with hrefused
  · refine ⟨h.batch, fun fd' item' hin => ?_, h.invoked⟩
    exact (hfind fd').trans (h.interest fd' item' hin)
  · refine ⟨fun item' hin => List.mem_cons_of_mem _ (h.batch item' hin), fun fd' item' hin => ?_,
      h.invoked⟩
    show List.find? _ (item :: s.reactor.events) = some item'
    by_cases hfd : fd' = fd
    · subst hfd
      simp only [Function.update_self, Option.some.injEq] at hin
      rw [List.find?_cons_of_pos (by simp), hin]
    · simp only [Function.update_of_ne hfd] at hin
      rw [List.find?_cons_of_neg (by simp [Ne.symm hfd])]
      exact (hfind fd').trans (h.interest fd' item' hin)

theorem Inv.mod (h : s.Inv) (fd : ℕ) (cb : Option κ) (ctl : Bool) :
    Inv { s with reactor := (s.reactor.bcReactorMod fd cb ctl).2 } := by
  simp only [Reactor.bcReactorMod]
  cases hfound : s.reactor.findEvent fd with
  | none => exact h
  | some item =>
    have hfd : (s.reactor.memory item).fd = fd := by
      simpa using List.find?_some hfound
    -- The registration keeps its descriptor.
    have hfind : ∀ fd', Reactor.findEvent { s.reactor with
        memory := Function.update s.reactor.memory item ⟨fd, cb⟩ } fd' =
        s.reactor.findEvent fd' := by
      intro fd'
      unfold Reactor.findEvent
      apply List.find?_congr
      intro other _
      show decide ((Function.update s.reactor.memory item ⟨fd, cb⟩ other).fd = fd') = _
      by_cases he : other = item
      · rw [he, Function.update_self, hfd]
      · rw [Function.update_of_ne he]
    simp only
    split_ifs with hrefused
    · exact ⟨h.batch, fun fd' item' hin => (hfind fd').trans (h.interest fd' item' hin), h.invoked⟩
    · refine ⟨h.batch, fun fd' item' hin => (hfind fd').trans ?_, h.invoked⟩
      by_cases hsame : fd' = fd
      · subst hsame
        simp only [Function.update_self, Option.some.injEq] at hin
        rw [← hin]
        exact hfound
      · simp only [Function.update_of_ne hsame] at hin
        exact h.interest fd' item' hin

theorem Inv.del (h : s.Inv) (fd : ℕ)
    (hspares : ∀ item, s.reactor.findEvent fd = some item → item ∉ s.batch) :
    Inv { s with reactor := s.reactor.bcReactorDel fd } := by
  refine ⟨fun item hin => ?_, fun fd' item hin => ?_, h.invoked⟩
  · show item ∈ List.eraseP _ s.reactor.events
    have hlinked := h.batch item hin
    rcases List.exists_or_eq_self_of_eraseP
      (fun item => decide ((s.reactor.memory item).fd = fd)) s.reactor.events with
      hnone | ⟨x, front, back, hfront, hx, hevents, herase⟩
    · rw [hnone]
      exact hlinked
    · rw [herase]
      have hfound : s.reactor.findEvent fd = some x := by
        have hfirst : List.find? (fun item => decide ((s.reactor.memory item).fd = fd))
            (x :: back) = some x := List.find?_cons_of_pos hx
        rw [Reactor.findEvent, hevents, List.find?_append, hfirst, List.find?_eq_none.mpr hfront,
          Option.none_or]
      rw [hevents] at hlinked
      rcases List.mem_append.mp hlinked with hin' | hin'
      · exact List.mem_append_left _ hin'
      · rcases List.mem_cons.mp hin' with rfl | hin'
        · exact absurd hin (hspares item hfound)
        · exact List.mem_append_right _ hin'
  · by_cases hsame : fd' = fd
    · subst hsame
      simp [Reactor.bcReactorDel, Reactor.unlinkEvent] at hin
    · have hbefore : s.reactor.interest fd' = some item := by
        simpa [Reactor.bcReactorDel, Reactor.unlinkEvent, Function.update_of_ne hsame] using hin
      refine Eq.trans (find_eraseP (fun x hx => ?_) _) (h.interest fd' item hbefore)
      have hx' : (s.reactor.memory x).fd = fd' := of_decide_eq_true hx
      exact decide_eq_false fun he => hsame (hx'.symm.trans he)

theorem Inv.step (h : s.Inv) (input : ReactorInput κ) (hpossible : s.Possible input)
    (hspares : s.SparesBatch input) : (s.step input).Inv := by
  cases input with
  | wait batch =>
    simp only [ReactorRun.step]
    split_ifs
    · refine ⟨fun item hin => ?_, h.interest, h.invoked⟩
      obtain ⟨fd, hfd⟩ := hpossible.2 item hin
      exact List.mem_of_find?_eq_some (h.interest fd item hfd)
    · exact h
  | next =>
    simp only [ReactorRun.step]
    cases hbatch : s.batch with
    | nil => exact h
    | cons item rest =>
      have hrest : ∀ item' ∈ rest, item' ∈ s.reactor.events := by
        intro item' hin
        apply h.batch
        rw [hbatch]
        exact List.mem_cons_of_mem _ hin
      have hlinked : item ∈ s.reactor.events := by
        apply h.batch
        rw [hbatch]
        exact List.mem_cons_self
      cases hcb : (s.reactor.memory item).cb with
      | none =>
        simp only [hcb]
        exact ⟨hrest, h.interest, h.invoked⟩
      | some cb =>
        simp only [hcb]
        refine ⟨hrest, h.interest, fun call hcall => ?_⟩
        rcases List.mem_append.mp hcall with hcall | hcall
        · exact h.invoked call hcall
        · rw [List.mem_singleton.mp hcall]
          simpa using hlinked
  | op op =>
    cases op with
    | add fd cb address ctl =>
      cases address with
      | none => exact h
      | some item => exact h.add fd cb ctl hpossible
    | mod fd cb ctl => exact h.mod fd cb ctl
    | del fd => exact h.del fd hspares
    | close fd =>
      refine ⟨h.batch, fun fd' item hin => ?_, h.invoked⟩
      by_cases hsame : fd' = fd
      · subst hsame
        simp [ReactorRun.step, applyOp] at hin
      · simp only [ReactorRun.step, applyOp, Function.update_of_ne hsame] at hin
        exact h.interest fd' item hin
    | stop => exact ⟨h.batch, h.interest, h.invoked⟩

end ReactorRun

end Linked

/-- The reactor before anything is registered. -/
def reactorStart {κ : Type*} (memory : ℕ → ReactorEvent κ) : ReactorRun κ :=
  ⟨Reactor.bcReactorInit memory, [], []⟩

/-- In a run in which no callback takes away a registration whose event comes later in the
batch, callbacks are called for linked registrations only. -/
theorem reactor_only_linked {κ : Type*} (memory : ℕ → ReactorEvent κ)
    (inputs : List (ReactorInput κ))
    (hpossible : Runs.Meets ReactorRun.step ReactorRun.Possible (reactorStart memory) inputs)
    (hspares : Runs.Meets ReactorRun.step ReactorRun.SparesBatch (reactorStart memory) inputs) :
    Runs.Along ReactorRun.step ReactorRun.OnlyLinked (reactorStart memory) inputs := by
  have hstart : (reactorStart memory).Inv := by
    refine ⟨fun item hin => ?_, fun fd item hin => ?_, fun call hcall => ?_⟩
    · cases hin
    · cases hin
    · cases hcall
  have hboth : Runs.Meets ReactorRun.step
      (fun s input => s.Possible input ∧ s.SparesBatch input) (reactorStart memory) inputs :=
    fun pre input hpre => ⟨hpossible pre input hpre, hspares pre input hpre⟩
  intro pre hpre
  exact (Runs.along_of_meets ReactorRun.step (A := fun _ => True)
    (fun s input h _ hc => h.step input hc.1 hc.2) hstart (fun _ _ => trivial) hboth
    pre hpre).invoked

/-- Two descriptors are registered, and both are ready. -/
def bothReady : List (ReactorInput ℕ) :=
  [.op (.add 5 (some 50) (some 100) true), .op (.add 6 (some 60) (some 200) true),
    .wait [100, 200], .next]

/-- Memory that was never used. -/
def blankMemory : ℕ → ReactorEvent ℕ := fun _ => ⟨0, none⟩

theorem reactor_only_linked_own :
    Runs.Along ReactorRun.step ReactorRun.OnlyLinked (reactorStart blankMemory)
      (bothReady ++ [.op (.del 5), .next]) := by
  have hpossible : Runs.Meets ReactorRun.step ReactorRun.Possible (reactorStart blankMemory)
      (bothReady ++ [.op (.del 5), .next]) := by
    simp only [bothReady, List.cons_append, List.nil_append, Runs.meets_cons]
    refine ⟨List.not_mem_nil, show 200 ∉ [100] by decide, ⟨by decide, ?_⟩, trivial, trivial,
      trivial, Runs.meets_nil _⟩
    intro item hin
    fin_cases hin
    · exact ⟨5, rfl⟩
    · exact ⟨6, rfl⟩
  apply reactor_only_linked blankMemory _ hpossible
  simp only [bothReady, List.cons_append, List.nil_append, Runs.meets_cons]
  refine ⟨trivial, trivial, trivial, trivial, ?_, trivial, Runs.meets_nil _⟩
  intro item hfound hin
  revert hfound
  rw [List.mem_singleton.mp hin]
  decide

/-- The first callback takes the registration of the other descriptor away, and the callback
of that registration is called all the same. -/
theorem removed_registration_dispatched :
    Runs.Meets ReactorRun.step ReactorRun.Possible (reactorStart blankMemory)
        (bothReady ++ [.op (.del 6), .next]) ∧
      (Runs.run ReactorRun.step (reactorStart blankMemory)
        (bothReady ++ [.op (.del 6), .next])).invoked = [(50, true), (60, false)] ∧
      ¬ Runs.Along ReactorRun.step ReactorRun.OnlyLinked (reactorStart blankMemory)
        (bothReady ++ [.op (.del 6), .next]) := by
  have hinvoked : (Runs.run ReactorRun.step (reactorStart blankMemory)
      (bothReady ++ [.op (.del 6), .next])).invoked = [(50, true), (60, false)] := by decide
  refine ⟨?_, hinvoked, fun h => ?_⟩
  · simp only [bothReady, List.cons_append, List.nil_append, Runs.meets_cons]
    refine ⟨List.not_mem_nil, show 200 ∉ [100] by decide, ⟨by decide, ?_⟩, trivial, trivial,
      trivial, Runs.meets_nil _⟩
    intro item hin
    fin_cases hin
    · exact ⟨5, rfl⟩
    · exact ⟨6, rfl⟩
  · have hlinked := h _ List.prefix_rfl (60, false) (by rw [hinvoked]; simp)
    cases hlinked

end BoardComm
