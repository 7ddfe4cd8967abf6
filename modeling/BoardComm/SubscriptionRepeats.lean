import BoardComm.Runs
import BoardComm.SubscriptionTable

/-!
# Subscribing again

A client may subscribe to what it has subscribed to before. The table is asked whether
it is full before it is asked whether the pair is there.
-/
namespace BoardComm.SubscriptionTable

/-- A C string. -/
abbrev TopicString : Type := { s : List UInt8 // (0 : UInt8) ∉ s }

/-- What is asked of the table. -/
inductive Call
  | subscribe (fd : ℤ) (topic : TopicString)
  | removeClient (fd : ℤ)
  deriving DecidableEq

def call (table : SubscriptionTable) : Call → SubscriptionTable
  | .subscribe fd topic => (table.bcMessageBusSubscribe fd topic.val).2
  | .removeClient fd => table.bcMessageBusRemoveClient fd

/-- Subscribing to what is there succeeds and changes nothing, and only what is new is
refused, for want of room. -/
structure RepeatHarmless (table : SubscriptionTable) (fd : ℤ) (topic : List UInt8) : Prop where
  again : table.Present fd topic → table.bcMessageBusSubscribe fd topic = (.ok, table)
  refused : (table.bcMessageBusSubscribe fd topic).1 = .nomem →
    ¬ table.Present fd topic ∧ table.count = bcMaxSubscriptions

/-- The array is not overrun, and no row has an empty topic. -/
structure Filled (table : SubscriptionTable) : Prop where
  bounded : table.count ≤ bcMaxSubscriptions
  topic_ne : ∀ sub ∈ table.entries, sub.topic.str ≠ []

section Tables

variable {table : SubscriptionTable} {fd : ℤ}

theorem init_filled : Filled init := by
  constructor
  · exact Nat.zero_le _
  · intro sub hsub
    simp [entries, init, Compaction.front] at hsub

theorem Filled.call (h : table.Filled) (c : Call) : (table.call c).Filled := by
  cases c with
  | subscribe fd topic =>
    rcases table.subscribe_step fd topic.val with hsame | ⟨hne, hroom, -, hentries, hcount⟩
    · rw [SubscriptionTable.call, hsame]
      exact h
    · constructor
      · rw [SubscriptionTable.call, hcount]
        exact hroom
      · rw [SubscriptionTable.call, hentries]
        intro sub hsub
        rcases List.mem_append.mp hsub with hsub | hsub
        · exact h.topic_ne sub hsub
        · rw [List.mem_singleton.mp hsub, str_newRow topic.property]
          obtain ⟨b, s, hcons⟩ := List.exists_cons_of_ne_nil hne
          simp [hcons]
  | removeClient fd =>
    have hentries := table.removeClient_entries fd
    constructor
    · rw [SubscriptionTable.call, ← entries_length, hentries]
      refine (List.length_filter_le _ _).trans ?_
      rw [entries_length]
      exact h.bounded
    · rw [SubscriptionTable.call, hentries]
      intro sub hsub
      exact h.topic_ne sub (List.mem_of_mem_filter hsub)

/-- What every sequence of calls leaves. -/
theorem run_filled (calls : List Call) : (Runs.run call init calls).Filled :=
  Runs.run_of_step call (fun _ c h => h.call c) init_filled calls

/-- A pair that is there is refused by a full table, and by no other. -/
theorem Filled.repeatHarmless_iff (h : table.Filled) (topic : List UInt8) :
    table.RepeatHarmless fd topic ↔
      (table.Present fd topic → table.count < bcMaxSubscriptions) := by
  have hne : table.Present fd topic → topic ≠ [] := by
    rintro ⟨sub, hsub, -, rfl⟩
    exact h.topic_ne sub hsub
  constructor
  · intro hharmless hpresent
    by_contra hfull
    have hagain := hharmless.again hpresent
    rw [subscribe_of_full (hne hpresent) (not_lt.mp hfull)] at hagain
    cases hagain
  · intro hroom
    constructor
    · intro hpresent
      exact subscribe_of_present (hne hpresent) (hroom hpresent) hpresent
    · intro hrefused
      have hfull : bcMaxSubscriptions ≤ table.count := by
        unfold bcMessageBusSubscribe at hrefused
        split_ifs at hrefused with hempty hfull
        exact hfull
      exact ⟨fun hpresent => (hroom hpresent).not_ge hfull, le_antisymm h.bounded hfull⟩

end Tables

/-- After any calls, subscribing again is harmless unless the pair is there and the table
is full. -/
theorem subscribe_again_iff (calls : List Call) (fd : ℤ) (topic : TopicString) :
    (Runs.run call init calls).RepeatHarmless fd topic.val ↔
      ((Runs.run call init calls).Present fd topic.val →
        (Runs.run call init calls).count < bcMaxSubscriptions) :=
  (run_filled calls).repeatHarmless_iff topic.val

/-- The topic `t`. -/
def topicT : TopicString := ⟨[0x74], by decide⟩

/-- So many clients subscribe to one topic. -/
def fill (n : ℕ) : List Call := (List.range n).map fun i : ℕ => .subscribe i topicT

theorem run_fill {n : ℕ} (h : n ≤ bcMaxSubscriptions) :
    (Runs.run call init (fill n)).entries =
      (List.range n).map fun i : ℕ => ⟨i, .ofPrefix _ topicT.val⟩ := by
  induction n with
  | zero => rfl
  | succ n ih =>
    have hentries := ih (Nat.le_of_succ_le h)
    have hlen := congrArg List.length hentries
    rw [entries_length, List.length_map, List.length_range] at hlen
    have hnew : ¬ (Runs.run call init (fill n)).Present n topicT.val := by
      rintro ⟨sub, hsub, hfd, -⟩
      rw [hentries, List.mem_map] at hsub
      obtain ⟨i, hi, rfl⟩ := hsub
      exact (List.mem_range.mp hi).ne (Int.natCast_inj.mp hfd)
    obtain ⟨table', heq, -, hadded⟩ :=
      subscribe_of_new (by decide) (by rw [hlen]; exact h) hnew
    have hlast : Runs.run call init (fill (n + 1)) = table' := by
      rw [fill, List.range_succ, List.map_append, Runs.run_append]
      exact congrArg Prod.snd heq
    rw [hlast, hadded, hentries, List.range_succ, List.map_append]
    rfl

/-- A full table refuses a client what it has subscribed to. -/
theorem full_table_refuses_repeat :
    ¬ ∀ (calls : List Call) (fd : ℤ) (topic : TopicString),
      (Runs.run call init calls).RepeatHarmless fd topic.val := by
  intro h
  have hentries := run_fill (le_refl bcMaxSubscriptions)
  have hfull := congrArg List.length hentries
  rw [entries_length, List.length_map, List.length_range] at hfull
  have hpresent : (Runs.run call init (fill bcMaxSubscriptions)).Present (0 : ℕ) topicT.val := by
    refine ⟨⟨(0 : ℕ), .ofPrefix _ topicT.val⟩, ?_, rfl, rfl⟩
    rw [hentries]
    exact List.mem_map.mpr ⟨0, by decide, rfl⟩
  have hagain := (h (fill bcMaxSubscriptions) (0 : ℕ) topicT).again hpresent
  rw [subscribe_of_full (by decide) hfull.ge] at hagain
  cases hagain

end BoardComm.SubscriptionTable
