import BoardComm.DescriptorTable
import BoardComm.Runs
import BoardComm.Types

/-!
# The descriptors of the client library

The library opens sockets, is sent descriptors of shared memory over them, and closes
what it no longer needs. Its caller may open and close files of its own meanwhile. A
session of shared memory remembers the descriptor from which it was mapped.
-/
namespace BoardComm

open DescriptorTable (Table Owner)

/-- The ways `bc_open` can go, with the number that `socket` answers. -/
inductive OpenAnswer
  | noSocket
  | refused (fd : ℕ)
  | connected (fd : ℕ)
  deriving DecidableEq, Repr

/-- The ways a request for shared memory can go, with the number that `recv_fd` answers. -/
inductive ShmAnswer
  | unwritten
  | unanswered
  | unmapped (fd : ℕ)
  | mapped (fd : ℕ)
  deriving DecidableEq, Repr

/-- `bc_context_t`, as far as descriptors go. A session is the descriptor in its `fd`. -/
structure SdkContext where
  fd : ℕ
  shm : Option ℕ
  deriving DecidableEq, Repr

/-- The globals of the library, its contexts by address, the handles that the caller has,
and the descriptor table. -/
structure Sdk where
  gFd : Option ℕ
  gShm : Option ℕ
  contexts : ℕ → Option SdkContext
  handles : List ℕ
  table : Table

/-- `bc_shm_close` of a session. -/
def bcShmClose (shm : Option ℕ) (table : Table) : Table :=
  match shm with
  | some fd => table.close fd
  | none => table

/-- `bc_open`. -/
def bcOpen (answer : OpenAnswer) (table : Table) : Option ℕ × Table :=
  match answer with
  | .noSocket => (none, table)
  | .refused fd =>
    match table.obtain? fd with
    | none => (none, table)
    | some table => (none, table.close fd)
  | .connected fd =>
    match table.obtain? fd with
    | none => (none, table)
    | some table => (some fd, table)

/-- The part that `bc_enable_shm` and `bc_context_enable_shm` share: the request, the
descriptor that answers it, `bc_shm_attach` in place of the old session, and the close
of the descriptor. -/
def enableShm (answer : ShmAnswer) (shm : Option ℕ) (table : Table) :
    BcStatus × Option ℕ × Table :=
  match answer with
  | .unwritten => (.io, shm, table)
  | .unanswered => (.io, shm, table)
  | .unmapped fd =>
    match table.obtain? fd with
    | none => (.io, shm, table)
    | some table => (.io, none, (bcShmClose shm table).close fd)
  | .mapped fd =>
    match table.obtain? fd with
    | none => (.io, shm, table)
    | some table => (.ok, some fd, (bcShmClose shm table).close fd)

namespace Sdk

/-- `bc_enable_shm`. -/
def bcEnableShm (answer : ShmAnswer) (s : Sdk) (handle : ℕ) : BcStatus × Sdk :=
  if s.gFd ≠ none ∧ s.gFd ≠ some handle then (.invalid, s)
  else
    let (rc, shm, table) := enableShm answer s.gShm s.table
    (rc, { s with gFd := some handle, gShm := shm, table := table })

/-- `bc_open` for the caller. -/
def bcOpen (answer : OpenAnswer) (s : Sdk) : Sdk :=
  match BoardComm.bcOpen answer s.table with
  | (none, table) => { s with table := table }
  | (some fd, table) => { s with table := table, handles := fd :: s.handles }

/-- `bc_open_with_shm`. -/
def bcOpenWithShm (answer : OpenAnswer) (shmAnswer : ShmAnswer) (s : Sdk) : Sdk :=
  match BoardComm.bcOpen answer s.table with
  | (none, table) => { s with table := table }
  | (some fd, table) =>
    (bcEnableShm shmAnswer { s with gFd := some fd, table := table, handles := fd :: s.handles }
      fd).2

/-- `bc_close`. -/
def bcClose (s : Sdk) (handle : ℕ) : Sdk :=
  let s := if s.gFd = some handle then
      { s with gFd := none, gShm := none, table := bcShmClose s.gShm s.table }
    else s
  { s with handles := s.handles.erase handle, table := s.table.close handle }

/-- `bc_shutdown`. -/
def bcShutdown (s : Sdk) : Sdk :=
  let s := { s with gShm := none, table := bcShmClose s.gShm s.table }
  match s.gFd with
  | some fd => s.bcClose fd
  | none => s

/-- `bc_context_create`. -/
def bcContextCreate (answer : OpenAnswer) (s : Sdk) (ctx : ℕ) : Sdk :=
  match BoardComm.bcOpen answer s.table with
  | (none, table) => { s with table := table }
  | (some fd, table) =>
    { s with table := table, contexts := Function.update s.contexts ctx (some ⟨fd, none⟩) }

/-- `bc_context_enable_shm`. -/
def bcContextEnableShm (answer : ShmAnswer) (s : Sdk) (ctx : ℕ) : Sdk :=
  match s.contexts ctx with
  | none => s
  | some c =>
    let (_, shm, table) := enableShm answer c.shm s.table
    { s with table := table
             contexts := Function.update s.contexts ctx (some { c with shm := shm }) }

/-- `bc_context_destroy`. -/
def bcContextDestroy (s : Sdk) (ctx : ℕ) : Sdk :=
  match s.contexts ctx with
  | none => s
  | some c =>
    { s with contexts := Function.update s.contexts ctx none
             table := (bcShmClose c.shm s.table).close c.fd }

end Sdk

/-- A call of the library. A new context is given an address by the allocator. -/
inductive LibraryCall
  | openSocket (answer : OpenAnswer)
  | openWithShm (answer : OpenAnswer) (shmAnswer : ShmAnswer)
  | enableShm (handle : ℕ) (answer : ShmAnswer)
  | close (handle : ℕ)
  | shutdown
  | contextCreate (ctx : ℕ) (answer : OpenAnswer)
  | contextEnableShm (ctx : ℕ) (answer : ShmAnswer)
  | contextDestroy (ctx : ℕ)
  deriving DecidableEq, Repr

/-- The socket is connected. -/
def OpenAnswer.Connects (answer : OpenAnswer) : Prop := ∃ fd, answer = .connected fd

/-- A descriptor of shared memory arrives, and an older session is replaced. -/
def ShmAnswer.Arrives : ShmAnswer → Prop
  | .unmapped _ => True
  | .mapped _ => True
  | _ => False

namespace Sdk

def step (s : Sdk) : LibraryCall → Sdk
  | .openSocket answer => s.bcOpen answer
  | .openWithShm answer shmAnswer => s.bcOpenWithShm answer shmAnswer
  | .enableShm handle answer => (s.bcEnableShm answer handle).2
  | .close handle => s.bcClose handle
  | .shutdown => s.bcShutdown
  | .contextCreate ctx answer => s.bcContextCreate answer ctx
  | .contextEnableShm ctx answer => s.bcContextEnableShm answer ctx
  | .contextDestroy ctx => s.bcContextDestroy ctx

/-- A call in a legal order: on a handle that was opened and not yet closed, on a context
that was created and not yet destroyed. -/
def Legal (s : Sdk) : LibraryCall → Prop
  | .enableShm handle _ => handle ∈ s.handles
  | .close handle => handle ∈ s.handles
  | .contextCreate ctx _ => s.contexts ctx = none
  | .contextEnableShm ctx _ => s.contexts ctx ≠ none
  | .contextDestroy ctx => s.contexts ctx ≠ none
  | _ => True

/-- The call closes no session of shared memory. -/
def SparesSessions (s : Sdk) : LibraryCall → Prop
  | .openWithShm answer shmAnswer => answer.Connects → shmAnswer.Arrives → s.gShm = none
  | .enableShm handle answer =>
    s.gFd = none ∨ s.gFd = some handle → answer.Arrives → s.gShm = none
  | .close handle => s.gFd = some handle → s.gShm = none
  | .shutdown => s.gShm = none
  | .contextEnableShm ctx answer =>
    ∀ c, s.contexts ctx = some c → answer.Arrives → c.shm = none
  | .contextDestroy ctx => ∀ c, s.contexts ctx = some c → c.shm = none
  | _ => True

/-- The descriptors of the contexts. -/
def contextFd (s : Sdk) (ctx : ℕ) : Option ℕ := (s.contexts ctx).map SdkContext.fd

/-- The library holds what it will close, each descriptor for one purpose. -/
structure Inv (s : Sdk) : Prop where
  handles : ∀ h ∈ s.handles, h ∈ s.table.held
  nodup : s.handles.Nodup
  gFd : ∀ fd, s.gFd = some fd → fd ∈ s.handles
  contexts : ∀ ctx fd, s.contextFd ctx = some fd → fd ∈ s.table.held ∧ fd ∉ s.handles
  apart : ∀ ctx ctx' fd, s.contextFd ctx = some fd → s.contextFd ctx' = some fd → ctx = ctx'
  own : s.table.OwnCloses

section Tables

variable {t : Table} {shmAnswer : ShmAnswer} {shm : Option ℕ}

/-- What a connection attempt leaves in the table. -/
theorem bcOpen_cases (h : t.OwnCloses) (answer : OpenAnswer) :
    (∃ t', BoardComm.bcOpen answer t = (none, t') ∧ t'.held = t.held ∧ t'.OwnCloses) ∨
      ∃ fd t', BoardComm.bcOpen answer t = (some fd, t') ∧ fd ∉ t.held ∧
        t'.held = insert fd t.held ∧ t'.OwnCloses ∧ answer.Connects := by
  cases answer with
  | noSocket => exact Or.inl ⟨t, rfl, rfl, h⟩
  | refused fd =>
    left
    simp only [BoardComm.bcOpen]
    cases hobtain : t.obtain? fd with
    | none => exact ⟨t, rfl, rfl, h⟩
    | some t' => exact ⟨t'.close fd, rfl, h.of_obtain_close hobtain⟩
  | connected fd =>
    simp only [BoardComm.bcOpen]
    cases hobtain : t.obtain? fd with
    | none => exact Or.inl ⟨t, rfl, rfl, h⟩
    | some t' =>
      obtain ⟨hfresh, hheld, -⟩ := Table.obtain_held hobtain
      exact Or.inr ⟨fd, t', rfl, hfresh, hheld, h.of_obtain hobtain, fd, rfl⟩

/-- Shared memory that replaces no session gives back what it was sent. -/
theorem enableShm_held (h : t.OwnCloses) (hspares : shmAnswer.Arrives → shm = none) :
    (enableShm shmAnswer shm t).2.2.held = t.held ∧
      (enableShm shmAnswer shm t).2.2.OwnCloses := by
  cases shmAnswer with
  | unwritten => exact ⟨rfl, h⟩
  | unanswered => exact ⟨rfl, h⟩
  | unmapped fd =>
    cases hspares trivial
    simp only [enableShm]
    cases hobtain : t.obtain? fd with
    | none => exact ⟨rfl, h⟩
    | some t' => exact h.of_obtain_close hobtain
  | mapped fd =>
    cases hspares trivial
    simp only [enableShm]
    cases hobtain : t.obtain? fd with
    | none => exact ⟨rfl, h⟩
    | some t' => exact h.of_obtain_close hobtain

end Tables

variable {s s' : Sdk}

/-- What keeps the descriptors keeps the invariant. -/
theorem Inv.of_held (h : s.Inv) (hhandles : s'.handles = s.handles)
    (hgFd : ∀ fd, s'.gFd = some fd → fd ∈ s.handles)
    (hcontexts : ∀ ctx, s'.contextFd ctx = s.contextFd ctx)
    (hheld : s'.table.held = s.table.held) (hown : s'.table.OwnCloses) : s'.Inv := by
  refine ⟨?_, ?_, ?_, ?_, ?_, hown⟩
  · rw [hhandles, hheld]
    exact h.handles
  · rw [hhandles]
    exact h.nodup
  · rw [hhandles]
    exact hgFd
  · intro ctx fd
    rw [hcontexts, hheld, hhandles]
    exact h.contexts ctx fd
  · intro ctx ctx' fd
    rw [hcontexts, hcontexts]
    exact h.apart ctx ctx' fd

/-- A new handle. -/
theorem Inv.opened (h : s.Inv) {table : Table} {fd : ℕ} (hfresh : fd ∉ s.table.held)
    (hheld : table.held = insert fd s.table.held) (hown : table.OwnCloses) :
    Inv { s with table := table, handles := fd :: s.handles } := by
  refine ⟨?_, ?_, ?_, ?_, h.apart, hown⟩
  · intro handle hmem
    rw [show (Sdk.table _) = table from rfl, hheld]
    rcases List.mem_cons.mp hmem with rfl | hmem
    · exact Set.mem_insert _ _
    · exact Set.mem_insert_of_mem _ (h.handles handle hmem)
  · exact List.nodup_cons.mpr ⟨fun hmem => hfresh (h.handles fd hmem), h.nodup⟩
  · exact fun g hg => List.mem_cons_of_mem _ (h.gFd g hg)
  · intro ctx fd' hctx
    obtain ⟨hmem, hnot⟩ := h.contexts ctx fd' hctx
    rw [show (Sdk.table _) = table from rfl, hheld]
    refine ⟨Set.mem_insert_of_mem _ hmem, fun hin => ?_⟩
    rcases List.mem_cons.mp hin with rfl | hin
    · exact hfresh hmem
    · exact hnot hin

theorem Inv.enableShm (h : s.Inv) {handle : ℕ} {answer : ShmAnswer} (hmem : handle ∈ s.handles)
    (hspares : s.gFd = none ∨ s.gFd = some handle → answer.Arrives → s.gShm = none) :
    (s.bcEnableShm answer handle).2.Inv := by
  unfold bcEnableShm
  split_ifs with hother
  · exact h
  · have hfits : s.gFd = none ∨ s.gFd = some handle := by
      by_contra hneither
      push Not at hneither
      exact hother hneither
    obtain ⟨hheld, hown⟩ := enableShm_held h.own (hspares hfits)
    refine h.of_held rfl ?_ (fun _ => rfl) hheld hown
    intro fd hfd
    cases hfd
    exact hmem

theorem Inv.close (h : s.Inv) {handle : ℕ} (hmem : handle ∈ s.handles)
    (hspares : s.gFd = some handle → s.gShm = none) : (s.bcClose handle).Inv := by
  have hclosed : ∀ s' : Sdk, s'.Inv → s'.handles = s.handles → s'.gFd ≠ some handle →
      Inv { s' with handles := s'.handles.erase handle, table := s'.table.close handle } := by
    intro s' h' hhandles hgFd
    have hmem' : handle ∈ s'.handles := by
      rw [hhandles]
      exact hmem
    refine ⟨?_, h'.nodup.erase _, ?_, ?_, h'.apart, h'.own.close (h'.handles _ hmem')⟩
    · intro other hother
      obtain ⟨hne, hin⟩ := (List.Nodup.mem_erase_iff h'.nodup).mp hother
      rw [show (Sdk.table _) = s'.table.close handle from rfl, Table.close_held]
      exact ⟨h'.handles other hin, hne⟩
    · intro fd hfd
      refine (List.Nodup.mem_erase_iff h'.nodup).mpr ⟨fun he => hgFd ?_, h'.gFd fd hfd⟩
      rw [← he]
      exact hfd
    · intro ctx fd hctx
      obtain ⟨hin, hnot⟩ := h'.contexts ctx fd hctx
      rw [show (Sdk.table _) = s'.table.close handle from rfl, Table.close_held]
      refine ⟨⟨hin, fun he => hnot ?_⟩, fun hin' => hnot (List.mem_of_mem_erase hin')⟩
      rw [Set.mem_singleton_iff.mp he]
      exact hmem'
  unfold bcClose
  split_ifs with hg
  · rw [hspares hg]
    refine hclosed { s with gFd := none, gShm := none } ?_ rfl (by simp)
    exact h.of_held rfl (fun fd hfd => by cases hfd) (fun _ => rfl) rfl h.own
  · exact hclosed s h rfl hg

theorem contextFd_of_update {ctx : ℕ} {c : Option SdkContext}
    (h : s'.contexts = Function.update s.contexts ctx c) (ctx' : ℕ) :
    s'.contextFd ctx' = if ctx' = ctx then c.map SdkContext.fd else s.contextFd ctx' := by
  unfold contextFd
  rw [h]
  split_ifs with hsame
  · rw [hsame, Function.update_self]
  · rw [Function.update_of_ne hsame]

theorem Inv.create (h : s.Inv) {ctx fd : ℕ} {table : Table} (hfresh : fd ∉ s.table.held)
    (hheld : table.held = insert fd s.table.held)
    (hown : table.OwnCloses) :
    Inv { s with table := table,
                 contexts := Function.update s.contexts ctx (some ⟨fd, none⟩) } := by
  refine ⟨?_, h.nodup, h.gFd, ?_, ?_, hown⟩
  · intro handle hmem
    rw [show (Sdk.table _) = table from rfl, hheld]
    exact Set.mem_insert_of_mem _ (h.handles handle hmem)
  · intro c fd' hc
    rw [contextFd_of_update rfl] at hc
    rw [show (Sdk.table _) = table from rfl, hheld]
    split_ifs at hc with hsame
    · cases hc
      exact ⟨Set.mem_insert _ _, fun hin => hfresh (h.handles fd hin)⟩
    · obtain ⟨hin, hnot⟩ := h.contexts c fd' hc
      exact ⟨Set.mem_insert_of_mem _ hin, hnot⟩
  · intro c c' fd' hc hc'
    rw [contextFd_of_update rfl] at hc hc'
    split_ifs at hc hc' with hsame hsame' hsame'
    · rw [hsame, hsame']
    · cases hc
      exact absurd (h.contexts c' fd hc').1 hfresh
    · cases hc'
      exact absurd (h.contexts c fd hc).1 hfresh
    · exact h.apart c c' fd' hc hc'

theorem Inv.destroy (h : s.Inv) {ctx : ℕ} {c : SdkContext} (hctx : s.contexts ctx = some c) :
    Inv { s with contexts := Function.update s.contexts ctx none
                 table := s.table.close c.fd } := by
  have hfd : s.contextFd ctx = some c.fd := by
    rw [contextFd, hctx]
    rfl
  obtain ⟨hin, hnot⟩ := h.contexts ctx c.fd hfd
  refine ⟨?_, h.nodup, h.gFd, ?_, ?_, h.own.close hin⟩
  · intro handle hmem
    rw [show (Sdk.table _) = s.table.close c.fd from rfl, Table.close_held]
    refine ⟨h.handles handle hmem, fun he => hnot ?_⟩
    rw [← Set.mem_singleton_iff.mp he]
    exact hmem
  · intro c' fd hc'
    rw [contextFd_of_update rfl] at hc'
    split_ifs at hc' with hne
    · cases hc'
    · obtain ⟨hin', hnot'⟩ := h.contexts c' fd hc'
      rw [show (Sdk.table _) = s.table.close c.fd from rfl, Table.close_held]
      refine ⟨⟨hin', fun he => hne ?_⟩, hnot'⟩
      rw [Set.mem_singleton_iff.mp he] at hc'
      exact h.apart c' ctx c.fd hc' hfd
  · intro c₁ c₂ fd h₁ h₂
    rw [contextFd_of_update rfl] at h₁ h₂
    split_ifs at h₁ h₂
    · cases h₁
    · cases h₁
    · cases h₂
    · exact h.apart c₁ c₂ fd h₁ h₂

theorem Inv.step (h : s.Inv) (call : LibraryCall) (hlegal : s.Legal call)
    (hspares : s.SparesSessions call) : (s.step call).Inv := by
  cases call with
  | openSocket answer =>
    simp only [Sdk.step, Sdk.bcOpen]
    obtain ⟨table, ho, hheld, hown⟩ | ⟨fd, table, ho, hfresh, hheld, hown, -⟩ :=
      bcOpen_cases h.own answer
    · rw [ho]
      exact h.of_held rfl h.gFd (fun _ => rfl) hheld hown
    · rw [ho]
      exact h.opened hfresh hheld hown
  | openWithShm answer shmAnswer =>
    simp only [Sdk.step, bcOpenWithShm]
    obtain ⟨table, ho, hheld, hown⟩ | ⟨fd, table, ho, hfresh, hheld, hown, hconnects⟩ :=
      bcOpen_cases h.own answer
    · rw [ho]
      exact h.of_held rfl h.gFd (fun _ => rfl) hheld hown
    · rw [ho]
      have hopened := h.opened hfresh hheld hown
      have hglobal :
          Inv { s with gFd := some fd, table := table, handles := fd :: s.handles } := by
        refine hopened.of_held rfl ?_ (fun _ => rfl) rfl hown
        intro g hg
        cases hg
        exact List.mem_cons_self
      exact hglobal.enableShm List.mem_cons_self fun _ => hspares hconnects
  | enableShm handle answer => exact h.enableShm hlegal hspares
  | close handle => exact h.close hlegal hspares
  | shutdown =>
    have hnone : s.gShm = none := hspares
    simp only [Sdk.step, bcShutdown]
    have hsame : Inv { s with gShm := none, table := bcShmClose s.gShm s.table } := by
      rw [hnone]
      exact h.of_held rfl h.gFd (fun _ => rfl) rfl h.own
    cases hg : s.gFd with
    | none =>
      rw [hg] at hsame
      exact hsame
    | some fd =>
      rw [hg] at hsame
      exact hsame.close (h.gFd fd hg) fun _ => rfl
  | contextCreate ctx answer =>
    simp only [Sdk.step, bcContextCreate]
    obtain ⟨table, ho, hheld, hown⟩ | ⟨fd, table, ho, hfresh, hheld, hown, -⟩ :=
      bcOpen_cases h.own answer
    · rw [ho]
      exact h.of_held rfl h.gFd (fun _ => rfl) hheld hown
    · rw [ho]
      exact h.create hfresh hheld hown
  | contextEnableShm ctx answer =>
    simp only [Sdk.step, bcContextEnableShm]
    cases hctx : s.contexts ctx with
    | none => exact h
    | some c =>
      obtain ⟨hheld, hown⟩ := enableShm_held h.own (hspares c hctx)
      refine h.of_held rfl h.gFd (fun c' => ?_) hheld hown
      unfold contextFd
      by_cases hsame : c' = ctx
      · rw [hsame, hctx]
        simp
      · simp [Function.update_of_ne hsame]
  | contextDestroy ctx =>
    simp only [Sdk.step, bcContextDestroy]
    cases hctx : s.contexts ctx with
    | none => exact h
    | some c =>
      simp only [hspares c hctx, bcShmClose]
      exact h.destroy hctx

/-- The library before any call, in a process whose other descriptors are the caller's. -/
def start (table : Table) : Sdk := ⟨none, none, fun _ => none, [], table⟩

end Sdk

/-- In a run of legal calls that close no session of shared memory, the library closes
only what it obtained and has not yet closed. -/
theorem sdk_closes_own (table : Table) (calls : List LibraryCall)
    (hcloses : table.closes = [])
    (hlegal : Runs.Meets Sdk.step Sdk.Legal (Sdk.start table) calls)
    (hspares : Runs.Meets Sdk.step Sdk.SparesSessions (Sdk.start table) calls) :
    Runs.Along Sdk.step (fun s => s.table.OwnCloses) (Sdk.start table) calls := by
  have hown : table.OwnCloses := by
    intro c hc
    rw [hcloses] at hc
    cases hc
  have hstart : (Sdk.start table).Inv := by
    refine ⟨?_, List.nodup_nil, ?_, ?_, ?_, hown⟩
    · intro handle hmem
      cases hmem
    · intro fd hfd
      cases hfd
    · intro ctx fd hctx
      cases hctx
    · intro ctx ctx' fd hctx
      cases hctx
  have hboth : Runs.Meets Sdk.step (fun s call => s.Legal call ∧ s.SparesSessions call)
      (Sdk.start table) calls :=
    fun pre call hpre => ⟨hlegal pre call hpre, hspares pre call hpre⟩
  intro pre hpre
  exact (Runs.along_of_meets Sdk.step (A := fun _ => True)
    (fun s call h _ hc => h.step call hc.1 hc.2) hstart (fun _ _ => trivial) hboth pre hpre).own

/-- A process in which the caller takes the number 4 before the fourth operation. -/
def reusedTable : Table := ⟨fun _ => none, [[], [], [], [.takes 4]], []⟩

theorem sdk_closes_own_socket :
    Runs.Along Sdk.step (fun s => s.table.OwnCloses) (Sdk.start reusedTable)
      [.openWithShm (.connected 3) .unanswered, .close 3] := by
  apply sdk_closes_own reusedTable [.openWithShm (.connected 3) .unanswered, .close 3] rfl
  · simp only [Runs.meets_cons]
    exact ⟨trivial, List.mem_singleton_self 3, Runs.meets_nil _⟩
  · simp only [Runs.meets_cons]
    exact ⟨fun _ h => absurd h id, fun _ => rfl, Runs.meets_nil _⟩

/-- Shared memory is attached, and its descriptor closed. -/
def attachedCalls : List LibraryCall := [.openWithShm (.connected 3) (.mapped 4), .close 3]

/-- The end of the session closes the number again, which is now a file of the caller. -/
theorem session_closed_twice :
    Runs.Meets Sdk.step Sdk.Legal (Sdk.start reusedTable) attachedCalls ∧
      (Runs.run Sdk.step (Sdk.start reusedTable) attachedCalls).table.closes =
        [(4, some .own), (4, some .other), (3, some .own)] ∧
      ¬ Runs.Along Sdk.step (fun s => s.table.OwnCloses) (Sdk.start reusedTable)
        attachedCalls := by
  have hcloses : (Runs.run Sdk.step (Sdk.start reusedTable) attachedCalls).table.closes =
      [(4, some .own), (4, some .other), (3, some .own)] := by decide
  refine ⟨?_, hcloses, fun h => ?_⟩
  · unfold attachedCalls
    simp only [Runs.meets_cons]
    exact ⟨trivial, List.mem_singleton_self 3, Runs.meets_nil _⟩
  · have hown := h attachedCalls List.prefix_rfl (4, some .other)
      (by rw [hcloses]; simp)
    cases hown

end BoardComm
