import BoardComm.Framing

/-!
# A code with spoilt items

Some items of a coded stream are spoilt: they have their place in the stream, and the
scanner finds them bad. A receiver that throws everything away that it holds when the
scanner finds something bad may throw away more than the spoilt item.
-/
namespace BoardComm.Framing

variable {α β γ : Type*}

/-- `scan` reads the code `enc`, answering `c` where `out a = some c`, and finds the
items without an answer bad. -/
structure ReadsNoisy (scan : List β → Scan γ) (enc : α → List β) (out : α → Option γ) : Prop where
  whole : ∀ a c rest, out a = some c → scan (enc a ++ rest) = .item (enc a).length c
  spoilt : ∀ a rest, out a = none → scan (enc a ++ rest) = .bad
  part : ∀ a p, p <+: enc a → p ≠ enc a → scan p = .more
  empty : scan [] = .more
  ne_nil : ∀ a, enc a ≠ []

/-- A read of the receiver: the items so far and the bytes that are held. -/
def receive (scan : List β → Scan γ) (s : List γ × List β) (data : List β) : List γ × List β :=
  let r := drainAll scan (s.2 ++ data)
  (s.1 ++ r.1, if r.2.2 = true then r.2.1 else [])

/-- Nowhere in the bytes does an item begin. -/
def ItemFree (scan : List β → Scan γ) (bs : List β) : Prop :=
  ∀ k n c, scan (bs.drop k) ≠ .item n c

/-- No item begins behind a spoilt one. -/
def NothingBehind (scan : List β → Scan γ) (enc : α → List β) (out : α → Option γ)
    (items : List α) : Prop :=
  ∀ front a rest, items = front ++ a :: rest → out a = none → ItemFree scan (rest.flatMap enc)

/-- Behind a spoilt item the reads start anew, or no item begins. -/
def Apart (scan : List β → Scan γ) (enc : α → List β) (out : α → Option γ) (items : List α)
    (pieces : List (List β)) : Prop :=
  ∀ front a rest, items = front ++ a :: rest → out a = none →
    (∃ early, early <+: pieces ∧ early.flatten = (front ++ [a]).flatMap enc) ∨
      ItemFree scan (rest.flatMap enc)

theorem NothingBehind.apart {scan : List β → Scan γ} {enc : α → List β} {out : α → Option γ}
    {items : List α} (h : NothingBehind scan enc out items) (pieces : List (List β)) :
    Apart scan enc out items pieces :=
  fun front a rest hitems ha => .inr (h front a rest hitems ha)

section Drained

variable {scan : List β → Scan γ} {enc : α → List β} {out : α → Option γ}

/-- The first element that has the property, if there is one. -/
theorem split_first (p : α → Prop) (items : List α) :
    (∀ a ∈ items, ¬ p a) ∨
      ∃ front a rest, items = front ++ a :: rest ∧ (∀ b ∈ front, ¬ p b) ∧ p a := by
  induction items with
  | nil => exact .inl fun a ha => absurd ha List.not_mem_nil
  | cons a items ih =>
    by_cases ha : p a
    · exact .inr ⟨[], a, items, rfl, fun b hb => absurd hb List.not_mem_nil, ha⟩
    rcases ih with hnone | ⟨front, b, rest, rfl, hfront, hb⟩
    · exact .inl (List.forall_mem_cons.mpr ⟨ha, hnone⟩)
    · exact .inr ⟨a :: front, b, rest, rfl, List.forall_mem_cons.mpr ⟨ha, hfront⟩, hb⟩

theorem drainAll_front (h : ReadsNoisy scan enc out) (hp : Progress scan) {front : List α}
    (hfront : ∀ a ∈ front, out a ≠ none) (bs : List β) :
    drainAll scan (front.flatMap enc ++ bs) =
      (front.filterMap out ++ (drainAll scan bs).1, (drainAll scan bs).2) := by
  induction front with
  | nil => rfl
  | cons a front ih =>
    obtain ⟨c, hc⟩ := Option.ne_none_iff_exists'.mp (hfront a (by simp))
    have hrest := ih fun b hb => hfront b (List.mem_cons_of_mem _ hb)
    rw [List.flatMap_cons, List.append_assoc, drainAll_item hp h.empty (h.whole a c _ hc),
      List.drop_left, hrest, List.filterMap_cons_some hc]
    rfl

/-- A part of the next item is shorter than all items up to a later one. -/
theorem ProperPart.length_lt {front rest : List α} {a : α} {tail : List β}
    (hpart : ProperPart enc (front ++ a :: rest) tail) :
    tail.length < ((front ++ [a]).flatMap enc).length := by
  cases front with
  | nil =>
    have h := length_lt_of_part hpart.1 hpart.2
    simpa using h
  | cons b front =>
    have h := length_lt_of_part hpart.1 hpart.2
    rw [List.cons_append, List.flatMap_cons, List.length_append]
    omega

/-- Where no item begins, nothing is taken out of the buffer. -/
theorem drainAll_of_not_item (h : ReadsNoisy scan enc out) {bs : List β}
    (hbs : ∀ n c, scan bs ≠ .item n c) :
    (drainAll scan bs).1 = [] ∧ (drainAll scan bs).2.1 = bs := by
  cases hs : scan bs with
  | more => rw [drainAll_more hs]; exact ⟨rfl, rfl⟩
  | bad => rw [drainAll_bad h.empty hs]; exact ⟨rfl, rfl⟩
  | item n c => exact absurd hs (hbs n c)

end Drained

section Kept

variable {scan : List β → Scan γ} {enc : α → List β} {out : α → Option γ} {items : List α}
  {read : List β} {s : List γ × List β}

/-- The receiver holds a part of the next item, and has the answers of all before it. -/
structure InOrder (enc : α → List β) (out : α → Option γ) (items : List α) (read : List β)
    (s : List γ × List β) (done todo : List α) : Prop where
  items : items = done ++ todo
  read : read = done.flatMap enc ++ s.2
  part : ProperPart enc todo s.2
  got : s.1 = done.filterMap out

/-- The receiver is behind a spoilt item, where no item begins. -/
structure Behind (scan : List β → Scan γ) (enc : α → List β) (out : α → Option γ)
    (items : List α) (read : List β) (s : List γ × List β) (front : List α) (a : α)
    (rest : List α) (thrown : List β) : Prop where
  items : items = front ++ a :: rest
  spoilt : out a = none
  free : ItemFree scan (rest.flatMap enc)
  read : read = (front ++ [a]).flatMap enc ++ thrown ++ s.2
  got : s.1 = front.filterMap out

/-- What the receiver has done with what it has read. -/
def Kept (scan : List β → Scan γ) (enc : α → List β) (out : α → Option γ) (items : List α)
    (read : List β) (s : List γ × List β) : Prop :=
  (∃ done todo, InOrder enc out items read s done todo) ∨
    ∃ front a rest thrown, Behind scan enc out items read s front a rest thrown

theorem Behind.receive {front rest : List α} {a : α} {thrown : List β}
    (hb : Behind scan enc out items read s front a rest thrown) (h : ReadsNoisy scan enc out)
    (hst : Stable scan) {data : List β} (hdata : read ++ data <+: items.flatMap enc) :
    ∃ thrown', Behind scan enc out items (read ++ data) (receive scan s data) front a rest
      thrown' := by
  obtain ⟨more, hmore⟩ := hdata
  have hsegment : rest.flatMap enc = thrown ++ (s.2 ++ data ++ more) := by
    rw [hb.read, hb.items] at hmore
    simpa using hmore.symm
  have hnone : ∀ n c, scan (s.2 ++ data) ≠ .item n c := by
    intro n c hitem
    apply hb.free thrown.length n c
    rw [hsegment, List.drop_left]
    exact hst.item _ n c more hitem
  obtain ⟨hgot, hheld⟩ := drainAll_of_not_item h hnone
  have hread : read ++ data = (front ++ [a]).flatMap enc ++ thrown ++ (s.2 ++ data) := by
    rw [hb.read, List.append_assoc _ s.2]
  simp only [Framing.receive, hgot, hheld, List.append_nil]
  split_ifs
  · exact ⟨thrown, hb.items, hb.spoilt, hb.free, hread, hb.got⟩
  · refine ⟨thrown ++ (s.2 ++ data), hb.items, hb.spoilt, hb.free, ?_, hb.got⟩
    rw [List.append_nil, hread, List.append_assoc _ thrown]

theorem InOrder.receive {done todo : List α} (ho : InOrder enc out items read s done todo)
    (h : ReadsNoisy scan enc out) (hp : Progress scan) {data : List β}
    (hdata : read ++ data <+: items.flatMap enc)
    (hapart : ∀ front a rest, items = front ++ a :: rest → out a = none →
      read.length < ((front ++ [a]).flatMap enc).length →
      ((front ++ [a]).flatMap enc).length ≤ (read ++ data).length →
      read ++ data = (front ++ [a]).flatMap enc ∨ ItemFree scan (rest.flatMap enc)) :
    Kept scan enc out items (read ++ data) (receive scan s data) := by
  have htodo : s.2 ++ data <+: todo.flatMap enc := by
    rw [ho.read, ho.items, List.flatMap_append, List.append_assoc] at hdata
    exact (List.prefix_append_right_inj _).mp hdata
  obtain ⟨new, tail, hbytes, todo', htodo', hpart⟩ := exists_cut enc todo _ htodo
  rcases split_first (out · = none) new with hnew | ⟨front, a, rest, rfl, hfront, ha⟩
  · -- All that has become complete is good.
    have hdrain : drainAll scan (s.2 ++ data) = (new.filterMap out, tail, true) := by
      rw [hbytes, drainAll_front h hp hnew, drainAll_more (hpart.scan_eq_more h.part h.empty),
        List.append_nil]
    refine .inl ⟨done ++ new, todo', ?_, ?_, ?_, ?_⟩
    · rw [ho.items, htodo', List.append_assoc]
    · rw [Framing.receive, hdrain, ho.read, List.append_assoc, hbytes]
      simp
    · rw [Framing.receive, hdrain]
      exact hpart
    · rw [Framing.receive, hdrain, List.filterMap_append, ← ho.got]
  · -- The buffer is thrown away at the first item that is spoilt.
    have hdrain : drainAll scan (s.2 ++ data) =
        (front.filterMap out, enc a ++ (rest.flatMap enc ++ tail), false) := by
      rw [hbytes, List.flatMap_append, List.append_assoc, drainAll_front h hp hfront,
        List.flatMap_cons, List.append_assoc, drainAll_bad h.empty (h.spoilt a _ ha),
        List.append_nil]
    have hreceive : Framing.receive scan s data = ((done ++ front).filterMap out, []) := by
      rw [Framing.receive, hdrain, List.filterMap_append, ← ho.got]
      rfl
    have hitems : items = done ++ front ++ a :: (rest ++ todo') := by
      rw [ho.items, htodo']
      simp
    have hread : read ++ data =
        (done ++ front ++ [a]).flatMap enc ++ (rest.flatMap enc ++ tail) := by
      rw [ho.read, List.append_assoc, hbytes]
      simp
    have hlt : read.length < ((done ++ front ++ [a]).flatMap enc).length := by
      have hshort : s.2.length < ((front ++ [a]).flatMap enc).length := by
        have hlater : ProperPart enc (front ++ a :: (rest ++ todo')) s.2 := by
          have hpart' := ho.part
          rw [htodo'] at hpart'
          simpa using hpart'
        exact hlater.length_lt
      rw [ho.read, List.append_assoc done, List.flatMap_append, List.length_append,
        List.length_append]
      omega
    have hle : ((done ++ front ++ [a]).flatMap enc).length ≤ (read ++ data).length := by
      rw [hread, List.length_append]
      omega
    rw [hreceive]
    rcases hapart (done ++ front) a (rest ++ todo') hitems ha hlt hle with hend | hfree
    · refine .inl ⟨done ++ front ++ [a], rest ++ todo', ?_, ?_, properPart_nil h.ne_nil _, ?_⟩
      · rw [hitems]
        simp
      · rw [hend, List.append_nil]
      · have hnone : (done ++ front ++ [a]).filterMap out = (done ++ front).filterMap out := by
          simp [ha]
        exact hnone.symm
    · refine .inr ⟨done ++ front, a, rest ++ todo', rest.flatMap enc ++ tail, hitems, ha, hfree,
        ?_, rfl⟩
      rw [hread, List.append_nil]

/-- Over reads that keep what is good apart from what is spoilt. -/
theorem kept_foldl (h : ReadsNoisy scan enc out) (hp : Progress scan) (hst : Stable scan)
    {pieces : List (List β)} (hpieces : pieces.flatten <+: items.flatMap enc)
    (hapart : Apart scan enc out items pieces) {early : List (List β)} (hearly : early <+: pieces) :
    Kept scan enc out items early.flatten (early.foldl (receive scan) ([], [])) := by
  induction early using List.reverseRecOn with
  | nil => exact .inl ⟨[], items, rfl, rfl, properPart_nil h.ne_nil _, rfl⟩
  | append_singleton early data ih =>
    have hbefore : early <+: pieces := (List.prefix_append _ _).trans hearly
    have hdata : early.flatten ++ data <+: items.flatMap enc := by
      obtain ⟨later, rfl⟩ := hearly
      refine List.IsPrefix.trans ?_ hpieces
      simp [List.append_assoc]
    rw [List.foldl_concat, List.flatten_concat]
    rcases ih hbefore with ⟨done, todo, ho⟩ | ⟨front, a, rest, thrown, hb⟩
    · refine ho.receive h hp hdata fun front a rest hitems ha hlt hle => ?_
      rcases hapart front a rest hitems ha with ⟨upto, hupto, hend⟩ | hfree
      · refine .inl ?_
        -- The read that completes the spoilt item ends with it.
        have hnot : ¬ upto <+: early := by
          intro hpre
          have hshort := (List.IsPrefix.flatten hpre).length_le
          rw [hend] at hshort
          omega
        have hpre : (early ++ [data]).flatten <+: (front ++ [a]).flatMap enc := by
          rw [← hend]
          apply List.IsPrefix.flatten
          rcases List.prefix_or_prefix_of_prefix hupto hearly with hshort | hlong
          · rcases List.prefix_concat_iff.mp hshort with rfl | hshort
            · exact List.prefix_rfl
            · exact absurd hshort hnot
          · exact hlong
        rw [List.flatten_concat] at hpre
        exact hpre.eq_of_length_le hle
      · exact .inr hfree
    · obtain ⟨thrown', hb'⟩ := hb.receive h hst hdata
      exact .inr ⟨front, a, rest, thrown', hb'⟩

/-- Where no item begins, every item is spoilt. -/
theorem ItemFree.spoilt (h : ReadsNoisy scan enc out) {rest : List α}
    (hfree : ItemFree scan (rest.flatMap enc)) : ∀ b ∈ rest, out b = none := by
  intro b hb
  by_contra hne
  obtain ⟨c, hc⟩ := Option.ne_none_iff_exists'.mp hne
  obtain ⟨before, after, rfl⟩ := List.append_of_mem hb
  apply hfree (before.flatMap enc).length (enc b).length c
  rw [List.flatMap_append, List.drop_left, List.flatMap_cons]
  exact h.whole b c _ hc

theorem InOrder.todo_eq_nil {done todo : List α} (ho : InOrder enc out items read s done todo)
    (hread : read = items.flatMap enc) : todo = [] := by
  cases todo with
  | nil => rfl
  | cons a todo =>
    have hpart : ProperPart enc ([] ++ a :: todo) s.2 := ho.part
    have hlt := hpart.length_lt
    have hall : s.2 = enc a ++ todo.flatMap enc := by
      rw [ho.read, ho.items, List.flatMap_append] at hread
      simpa using hread
    rw [hall] at hlt
    simp at hlt

/-- When everything has been read, the receiver has the answers of the good items. -/
theorem foldl_receive_apart (h : ReadsNoisy scan enc out) (hp : Progress scan) (hst : Stable scan)
    {pieces : List (List β)} (hpieces : pieces.flatten = items.flatMap enc)
    (hapart : Apart scan enc out items pieces) :
    (pieces.foldl (receive scan) ([], [])).1 = items.filterMap out := by
  have hfront : pieces.flatten <+: items.flatMap enc := by rw [hpieces]
  rcases kept_foldl h hp hst hfront hapart List.prefix_rfl with
    ⟨done, todo, ho⟩ | ⟨front, a, rest, thrown, hb⟩
  · rw [ho.got, ho.items, ho.todo_eq_nil hpieces, List.append_nil]
  · have hnone : rest.filterMap out = [] := List.filterMap_eq_nil_iff.mpr (hb.free.spoilt h)
    rw [hb.got, hb.items, List.filterMap_append, List.filterMap_cons_none hb.spoilt, hnone,
      List.append_nil]

end Kept

section Lost

variable {scan : List β → Scan γ} {enc : α → List β} {out : α → Option γ} {items : List α}

/-- An item that is read alone costs no other. -/
theorem receive_item (h : ReadsNoisy scan enc out) (hp : Progress scan) (got : List γ) (a : α) :
    receive scan (got, []) (enc a) = (got ++ (out a).toList, []) := by
  have hempty : drainAll scan [] = ([], [], true) := drainAll_more h.empty
  rw [receive, List.nil_append]
  cases hout : out a with
  | none =>
    have hbad := h.spoilt a [] hout
    rw [List.append_nil] at hbad
    rw [drainAll_bad h.empty hbad]
    simp
  | some c =>
    have hitem := h.whole a c [] hout
    rw [List.append_nil] at hitem
    rw [drainAll_item hp h.empty hitem, List.drop_length, hempty]
    simp

theorem foldl_receive_items (h : ReadsNoisy scan enc out) (hp : Progress scan) (got : List γ)
    (items : List α) :
    (items.map enc).foldl (receive scan) (got, []) = (got ++ items.filterMap out, []) := by
  induction items generalizing got with
  | nil => rw [List.filterMap_nil, List.append_nil]; rfl
  | cons a items ih =>
    rw [List.map_cons, List.foldl_cons, receive_item h hp, ih, List.append_assoc]
    cases hout : out a with
    | none => rw [List.filterMap_cons_none hout]; rfl
    | some c => rw [List.filterMap_cons_some hout]; rfl

/-- Two reads: an item without its last byte, and that byte with what follows. -/
def breakItem (bs more : List β) : List (List β) :=
  [bs.take (bs.length - 1), bs.drop (bs.length - 1) ++ more]

theorem breakItem_flatten (bs more : List β) : (breakItem bs more).flatten = bs ++ more := by
  simp [breakItem, ← List.append_assoc]

/-- What is read together with the end of a spoilt item is lost. -/
theorem foldl_receive_break (h : ReadsNoisy scan enc out) (got : List γ) {a : α}
    (ha : out a = none) (more : List β) :
    (breakItem (enc a) more).foldl (receive scan) (got, []) = (got, []) := by
  have hpos := List.length_pos_iff.mpr (h.ne_nil a)
  have hpart : scan ((enc a).take ((enc a).length - 1)) = .more := by
    refine h.part a _ (List.take_prefix _ _) fun heq => ?_
    have hlen := congrArg List.length heq
    rw [List.length_take] at hlen
    omega
  have hfirst : receive scan (got, []) ((enc a).take ((enc a).length - 1)) =
      (got, (enc a).take ((enc a).length - 1)) := by
    rw [receive, List.nil_append, drainAll_more hpart]
    simp
  have hbad := h.spoilt a more ha
  have hbytes : (enc a).take ((enc a).length - 1) ++ ((enc a).drop ((enc a).length - 1) ++ more) =
      enc a ++ more := by
    rw [← List.append_assoc, List.take_append_drop]
  rw [breakItem, List.foldl_cons, List.foldl_cons, List.foldl_nil, hfirst, receive, hbytes,
    drainAll_bad h.empty hbad]
  simp

/-- Answers are never taken back. -/
theorem foldl_receive_isPrefix (scan : List β → Scan γ) (s : List γ × List β)
    (pieces : List (List β)) : s.1 <+: (pieces.foldl (receive scan) s).1 := by
  induction pieces generalizing s with
  | nil => exact List.prefix_rfl
  | cons data pieces ih =>
    have hstep : s.1 <+: (receive scan s data).1 := List.prefix_append _ _
    exact hstep.trans (ih _)

/-- The last of the items that are spoilt in a row. -/
theorem last_spoilt {a : α} {spoilt : List α} (ha : out a = none)
    (hspoilt : ∀ b ∈ spoilt, out b = none) :
    ∃ init b, a :: spoilt = init ++ [b] ∧ out b = none ∧ init.filterMap out = [] := by
  have hne : a :: spoilt ≠ [] := List.cons_ne_nil _ _
  have hall : ∀ b ∈ a :: spoilt, out b = none := by simpa [ha] using hspoilt
  refine ⟨(a :: spoilt).dropLast, (a :: spoilt).getLast hne,
    (List.dropLast_append_getLast hne).symm, hall _ (List.getLast_mem hne), ?_⟩
  exact List.filterMap_eq_nil_iff.mpr fun b hb => hall b (List.mem_of_mem_dropLast hb)

/-- Reads that are not empty, and bring no more than one byte and an item. -/
def Short (most : ℕ) (pieces : List (List β)) : Prop :=
  ∀ piece ∈ pieces, piece ≠ [] ∧ piece.length ≤ most + 1

/-- All items have at least two bytes and at most `most`. -/
def Sized (most : ℕ) (enc : α → List β) : Prop :=
  ∀ a, 1 < (enc a).length ∧ (enc a).length ≤ most

theorem Short.append {most : ℕ} {pieces pieces' : List (List β)} (h : Short most pieces)
    (h' : Short most pieces') : Short most (pieces ++ pieces') := by
  intro piece hpiece
  rcases List.mem_append.mp hpiece with hpiece | hpiece
  · exact h piece hpiece
  · exact h' piece hpiece

theorem Sized.short_items {most : ℕ} (hsize : Sized most enc) (items : List α) :
    Short most (items.map enc) := by
  intro piece hpiece
  obtain ⟨a, -, rfl⟩ := List.mem_map.mp hpiece
  obtain ⟨hpos, hle⟩ := hsize a
  exact ⟨List.length_pos_iff.mp (by omega), by omega⟩

theorem Sized.short_break {most : ℕ} (hsize : Sized most enc) (a : α) {more : List β}
    (hmore : more.length ≤ most) : Short most (breakItem (enc a) more) := by
  obtain ⟨hpos, hle⟩ := hsize a
  have hfirst := List.length_take_of_le (Nat.sub_le (enc a).length 1)
  have hsecond : ((enc a).drop ((enc a).length - 1) ++ more).length = 1 + more.length := by
    rw [List.length_append, List.length_drop]
    omega
  intro piece hpiece
  rcases List.mem_cons.mp hpiece with rfl | hpiece
  · exact ⟨List.length_pos_iff.mp (by omega), by omega⟩
  · rw [List.mem_singleton.mp hpiece]
    exact ⟨List.length_pos_iff.mp (by omega), by omega⟩

/-- A good item that stands right behind a spoilt one is lost by one way to read the
stream, and no other item is. -/
theorem lost_behind (h : ReadsNoisy scan enc out) (hp : Progress scan) {most : ℕ}
    (hsize : Sized most enc) {front post : List α} {a u : α} {c : γ} (ha : out a = none)
    (hu : out u = some c) (hitems : items = front ++ a :: u :: post) :
    ∃ pieces, Short most pieces ∧ pieces.flatten = items.flatMap enc ∧
      (pieces.foldl (receive scan) ([], [])).1.length ≠ (items.filterMap out).length := by
  refine ⟨front.map enc ++ breakItem (enc a) (enc u) ++ post.map enc, ?_, ?_, ?_⟩
  · exact ((hsize.short_items front).append (hsize.short_break a (hsize u).2)).append
      (hsize.short_items post)
  · simp only [List.flatten_append, breakItem_flatten, hitems, List.flatMap_def,
      List.map_append, List.map_cons, List.flatten_cons, List.append_assoc]
  · rw [List.foldl_append, List.foldl_append, foldl_receive_items h hp, foldl_receive_break h _ ha,
      foldl_receive_items h hp, hitems, List.filterMap_append, List.filterMap_cons_none ha,
      List.filterMap_cons_some hu]
    simp only [List.nil_append, List.length_append, List.length_cons]
    omega

/-- Where an item begins behind items that are spoilt, one way to read the stream finds
it, and so has an answer too many. -/
theorem found_behind (h : ReadsNoisy scan enc out) (hp : Progress scan) {most : ℕ}
    (hsize : Sized most enc)
    (hlocal : ∀ bs n c, scan bs = .item n c → n ≤ most ∧ scan (bs.take n) = .item n c)
    {front spoilt : List α} {a : α} {k n : ℕ} {c : γ} (ha : out a = none)
    (hspoilt : ∀ b ∈ spoilt, out b = none) (hitems : items = front ++ a :: spoilt)
    (hitem : scan ((spoilt.flatMap enc).drop k) = .item n c) :
    ∃ pieces, Short most pieces ∧ pieces.flatten = items.flatMap enc ∧
      (pieces.foldl (receive scan) ([], [])).1.length ≠ (items.filterMap out).length := by
  have hn := hp _ n c hitem
  obtain ⟨hmost, htake⟩ := hlocal _ n c hitem
  -- The item `b` in whose bytes the other begins, and the spoilt item in front of it.
  obtain ⟨mid, part, hbytes, todo, rfl, hpart⟩ :=
    exists_cut enc spoilt ((spoilt.flatMap enc).take k) (List.take_prefix _ _)
  set bs := ((mid ++ todo).flatMap enc).drop k with hbs
  have hall : (mid ++ todo).flatMap enc = mid.flatMap enc ++ (part ++ bs) := by
    rw [← List.append_assoc, ← hbytes, List.take_append_drop]
  have hlen : part.length ≤ most := by
    cases todo with
    | nil => rw [show part = [] from hpart]; exact Nat.zero_le _
    | cons b post => exact hpart.1.length_le.trans (hsize b).2
  obtain ⟨init, last, hlast, hlost, hinit⟩ :=
    last_spoilt ha fun b hb => hspoilt b (List.mem_append_left todo hb)
  have hrow : enc a ++ mid.flatMap enc = init.flatMap enc ++ enc last := by
    have hflat := congrArg (List.flatMap enc) hlast
    simpa using hflat
  refine ⟨(front ++ init).map enc ++ breakItem (enc last) part ++
    ([bs.take n] ++ (bs.drop n).map fun b => [b]), ?_, ?_, ?_⟩
  · refine ((hsize.short_items _).append (hsize.short_break last hlen)).append (.append ?_ ?_)
    · intro piece hpiece
      have htaken := List.length_take_of_le hn.2
      rw [List.mem_singleton.mp hpiece]
      exact ⟨List.length_pos_iff.mp (by omega), by omega⟩
    · intro piece hpiece
      obtain ⟨b, -, rfl⟩ := List.mem_map.mp hpiece
      exact ⟨List.cons_ne_nil _ _, by simp⟩
  · have hsingle : ((bs.drop n).map fun b => [b]).flatten = bs.drop n := by
      rw [← List.flatMap_def, List.flatMap_singleton']
    calc ((front ++ init).map enc ++ breakItem (enc last) part ++
          ([bs.take n] ++ (bs.drop n).map fun b => [b])).flatten
        = front.flatMap enc ++ (init.flatMap enc ++ enc last) ++ (part ++ bs) := by
          simp only [List.flatten_append, hsingle, breakItem_flatten, List.flatten_singleton,
            List.take_append_drop, List.map_append, ← List.flatMap_def, List.append_assoc]
      _ = items.flatMap enc := by
          rw [← hrow, hitems, List.flatMap_append, List.flatMap_cons, hall]
          simp only [List.append_assoc]
  · have hgood : items.filterMap out = (front ++ init).filterMap out := by
      rw [hitems, List.filterMap_append, List.filterMap_cons_none ha,
        List.filterMap_eq_nil_iff.mpr hspoilt, List.filterMap_append, hinit]
    let start : List γ × List β := ((front ++ init).filterMap out, [])
    have hstart : ((front ++ init).map enc ++ breakItem (enc last) part).foldl (receive scan)
        ([], []) = start := by
      rw [List.foldl_append, foldl_receive_items h hp, foldl_receive_break h _ hlost]
      rfl
    have hfound : (receive scan start (bs.take n)).1.length =
        start.1.length + ((drainAll scan ((bs.take n).drop n)).1.length + 1) := by
      rw [receive, List.nil_append, drainAll_item hp h.empty htake, List.length_append,
        List.length_cons]
    have hmore := (foldl_receive_isPrefix scan (receive scan start (bs.take n))
      ((bs.drop n).map fun b => [b])).length_le
    rw [List.foldl_append, List.foldl_append, hstart, List.foldl_cons, List.foldl_nil, hgood]
    simp only [start] at hfound hmore ⊢
    omega

/-- Every way to read the stream in short pieces gives the answers of the good items
exactly when no item begins behind a spoilt one. -/
theorem nothingBehind_iff (h : ReadsNoisy scan enc out) (hp : Progress scan) (hst : Stable scan)
    {most : ℕ} (hsize : Sized most enc)
    (hlocal : ∀ bs n c, scan bs = .item n c → n ≤ most ∧ scan (bs.take n) = .item n c)
    (items : List α) :
    (∀ pieces, Short most pieces → pieces.flatten = items.flatMap enc →
        (pieces.foldl (receive scan) ([], [])).1.length = (items.filterMap out).length) ↔
      NothingBehind scan enc out items := by
  constructor
  · intro hall front a rest hitems ha k n c hitem
    have hnot : ¬ ∃ pieces, Short most pieces ∧ pieces.flatten = items.flatMap enc ∧
        (pieces.foldl (receive scan) ([], [])).1.length ≠ (items.filterMap out).length :=
      fun ⟨pieces, hshort, hflat, hne⟩ => hne (hall pieces hshort hflat)
    rcases split_first (out · ≠ none) rest with hspoilt | ⟨row, u, post, rfl, hrow, hu⟩
    · refine hnot (found_behind h hp hsize hlocal ha (fun b hb => ?_) hitems hitem)
      exact not_not.mp (hspoilt b hb)
    · obtain ⟨c', hc'⟩ := Option.ne_none_iff_exists'.mp hu
      obtain ⟨init, last, hlast, hlost, -⟩ := last_spoilt ha fun b hb => not_not.mp (hrow b hb)
      have hsplit : items = (front ++ init) ++ last :: u :: post := by
        rw [hitems, ← List.cons_append, hlast]
        simp
      exact hnot (lost_behind h hp hsize hlost hc' hsplit)
  · intro hnothing pieces _ hflat
    rw [foldl_receive_apart h hp hst hflat (hnothing.apart pieces)]

end Lost

end BoardComm.Framing
