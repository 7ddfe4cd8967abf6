import Mathlib.Tactic

/-!
# Scanning strings of bytes

The conversions of `sscanf`, one after the other: each takes a front of the string
and gives the rest, or fails. White space is skipped in front of a conversion, and
never in front of a literal.
-/
namespace BoardComm.Scan

/-- `isspace`. -/
def isSpace (b : UInt8) : Bool := b = 32 ∨ (9 ≤ b ∧ b ≤ 13)

/-- `isdigit`. -/
def isDigit (b : UInt8) : Bool := 48 ≤ b ∧ b ≤ 57

/-- The bytes of a word. -/
def word (cs : List Char) : List UInt8 := cs.map fun c => UInt8.ofNat c.toNat

/-- The characters of a literal, as they stand in a format. -/
def literal : List UInt8 → List UInt8 → Option (List UInt8)
  | [], s => some s
  | _ :: _, [] => none
  | l :: ls, b :: s => if b = l then literal ls s else none

/-- `%s` with a width. -/
def token (width : ℕ) (s : List UInt8) : Option (List UInt8 × List UInt8) :=
  let s := s.dropWhile isSpace
  let t := (s.takeWhile fun b => !isSpace b).take width
  if t = [] then none else some (t, s.drop t.length)

/-- A sign, if there is one. -/
def sign : List UInt8 → Bool × List UInt8
  | 45 :: s => (true, s)
  | 43 :: s => (false, s)
  | s => (false, s)

/-- A decimal number. -/
def number (s : List UInt8) : Option (ℤ × List UInt8) :=
  let r := sign (s.dropWhile isSpace)
  let ds := r.2.takeWhile isDigit
  let n := ds.foldl (fun (n : ℕ) d => 10 * n + (d.toNat - 48)) 0
  if ds = [] then none else some (if r.1 = true then -(n : ℤ) else n, r.2.drop ds.length)

/-- The clamp of `strtoul` to 64 bits, and the lower half of that. -/
def toUnsigned (n : ℤ) : UInt32 :=
  if n.natAbs ≥ 2 ^ 64 then .ofNat (2 ^ 32 - 1) else .ofNat (n % 2 ^ 32).toNat

/-- The clamp of `strtol` to 64 bits, and the lower half of that. -/
def toInt (n : ℤ) : ℤ := (max (-2 ^ 63) (min n (2 ^ 63 - 1))).bmod (2 ^ 32)

/-- `%u`. -/
def unsigned (s : List UInt8) : Option (UInt32 × List UInt8) :=
  (number s).map fun r => (toUnsigned r.1, r.2)

/-- `%d`. -/
def int (s : List UInt8) : Option (ℤ × List UInt8) := (number s).map fun r => (toInt r.1, r.2)

/-- `atoi`. -/
def atoi (s : List UInt8) : ℤ :=
  match number s with
  | none => 0
  | some r => toInt r.1

/-- `fgets`: a front of the stream up to a line feed, and no longer than the array
allows. -/
def fgets : ℕ → List UInt8 → List UInt8 × List UInt8
  | 0, s => ([], s)
  | _ + 1, [] => ([], [])
  | room + 1, b :: s =>
    if b = 10 then ([b], s)
    else
      let r := fgets room s
      (b :: r.1, r.2)

/-- The lines of a text, with their line feeds. The last one may have none. -/
def lines : List UInt8 → List (List UInt8)
  | [] => []
  | b :: s =>
    if b = 10 then [b] :: lines s
    else
      match lines s with
      | [] => [[b]]
      | l :: ls => (b :: l) :: ls

/-- A string in pieces of one length, of which the last may be shorter. -/
def cut {α : Type*} (room : ℕ) (s : List α) : List (List α) :=
  if s = [] ∨ room = 0 then [] else s.take room :: cut room (s.drop room)
termination_by s.length
decreasing_by
  rename_i h
  obtain ⟨hs, hroom⟩ := not_or.mp h
  have hpos := List.length_pos_iff.mpr hs
  rw [List.length_drop]
  omega

theorem literal_eq_some {l s rest : List UInt8} : literal l s = some rest ↔ s = l ++ rest := by
  induction l generalizing s with
  | nil => simp [literal]
  | cons b l ih =>
    cases s with
    | nil => simp [literal]
    | cons c s =>
      rw [literal, List.cons_append, List.cons.injEq]
      split_ifs with hb
      · rw [ih]
        simp [hb]
      · simp [hb]

/-- A literal that is found is a prefix. -/
theorem literal_isPrefix {l s rest : List UInt8} (h : literal l s = some rest) : l <+: s :=
  ⟨rest, (literal_eq_some.mp h).symm⟩

/-- A pattern that matches only strings that start with the word. -/
def Starts {β : Type*} (l : List UInt8) (scan : List UInt8 → Option β) : Prop :=
  ∀ s v, scan s = some v → l <+: s

theorem Starts.eq_none {β : Type*} {l : List UInt8} {scan : List UInt8 → Option β}
    (h : Starts l scan) {s : List UInt8} (hs : ¬ l <+: s) : scan s = none := by
  by_contra hsome
  obtain ⟨v, hv⟩ := Option.ne_none_iff_exists'.mp hsome
  exact hs (h s v hv)

/-- A pattern that starts with a literal. -/
theorem starts_bind {β : Type*} (l : List UInt8) (scan : List UInt8 → Option β) :
    Starts l fun s => (literal l s).bind scan := by
  intro s v h
  obtain ⟨rest, hrest, -⟩ := Option.bind_eq_some_iff.mp h
  exact literal_isPrefix hrest

/-- Of two prefixes of a string one is a prefix of the other. -/
theorem not_prefix_both {l l' s : List UInt8} (h : ¬ l <+: l') (h' : ¬ l' <+: l) (hl : l <+: s) :
    ¬ l' <+: s := by
  intro hl'
  rcases List.prefix_or_prefix_of_prefix hl hl' with hp | hp
  · exact h hp
  · exact h' hp

/-- A token is found where something other than white space stands. -/
theorem token_cons (width : ℕ) {b : UInt8} (hb : isSpace b = false) (s : List UInt8) :
    ∃ t rest, token (width + 1) (b :: s) = some (b :: t, rest) := by
  refine ⟨(s.takeWhile fun b => !isSpace b).take width, ?_⟩
  simp [token, hb]

theorem fgets_append (room : ℕ) (s : List UInt8) : (fgets room s).1 ++ (fgets room s).2 = s := by
  induction room generalizing s with
  | zero => rfl
  | succ room ih =>
    cases s with
    | nil => rfl
    | cons b s =>
      rw [fgets]
      split_ifs
      · rfl
      · rw [List.cons_append, ih]

theorem lines_ne_nil {s : List UInt8} (hs : s ≠ []) : lines s ≠ [] := by
  cases s with
  | nil => exact absurd rfl hs
  | cons b s =>
    rw [lines]
    split_ifs
    · simp
    · cases lines s <;> simp

/-- No line is empty: it has its line feed, or something in front of the end. -/
theorem lines_pos {s : List UInt8} : ∀ line ∈ lines s, 0 < line.length := by
  induction s with
  | nil => simp [lines]
  | cons b s ih =>
    rw [lines]
    split_ifs
    · simpa using ih
    · cases hs : lines s with
      | nil => simp
      | cons l ls =>
        rw [hs] at ih
        simp only [List.mem_cons, forall_eq_or_imp] at ih ⊢
        exact ⟨Nat.succ_pos _, ih.2⟩

/-- What is read of a text is its first line as far as there is room. The rest of that
line is the first line of what is left. -/
theorem fgets_cut {room : ℕ} {s line : List UInt8} {rest : List (List UInt8)}
    (hlines : lines s = line :: rest) :
    (fgets room s).1 = line.take room ∧
      lines (fgets room s).2 = if line.length ≤ room then rest else line.drop room :: rest := by
  induction s generalizing room line with
  | nil => cases hlines
  | cons b s ih =>
    cases room with
    | zero =>
      have hpos := lines_pos line (by rw [hlines]; exact List.mem_cons_self)
      rw [fgets, hlines, if_neg (Nat.not_le.mpr hpos)]
      exact ⟨rfl, rfl⟩
    | succ room =>
      rw [lines] at hlines
      rw [fgets]
      by_cases hb : b = 10
      · rw [if_pos hb] at hlines ⊢
        obtain ⟨rfl, rfl⟩ := List.cons.inj hlines
        exact ⟨by simp, by simp⟩
      · rw [if_neg hb] at hlines ⊢
        cases hs : lines s with
        | nil =>
          rw [hs] at hlines
          obtain ⟨rfl, rfl⟩ := List.cons.inj hlines
          have hnil : s = [] := by
            by_contra hne
            exact lines_ne_nil hne hs
          rw [hnil]
          cases room <;> exact ⟨by simp [fgets], by simp [fgets, lines]⟩
        | cons l ls =>
          rw [hs] at hlines
          obtain ⟨rfl, rfl⟩ := List.cons.inj hlines
          obtain ⟨hfirst, hleft⟩ := ih hs
          refine ⟨congrArg _ hfirst, hleft.trans ?_⟩
          simp only [List.length_cons, Nat.add_le_add_iff_right, List.drop_succ_cons]

/-- Behind a line feed the lines begin anew. -/
theorem lines_append {front : List UInt8} (h : front = [] ∨ front.getLast? = some 10)
    (s : List UInt8) : lines (front ++ s) = lines front ++ lines s := by
  induction front with
  | nil => rfl
  | cons b front ih =>
    rw [List.cons_append, lines, lines]
    by_cases hfront : front = []
    · have hb : b = 10 := by simpa [hfront] using h
      rw [if_pos hb, if_pos hb, hfront]
      rfl
    · have hlast : front = [] ∨ front.getLast? = some 10 := by
        obtain ⟨c, cs, rfl⟩ := List.exists_cons_of_ne_nil hfront
        simpa using h
      rw [ih hlast]
      split_ifs with hb
      · rfl
      · obtain ⟨l, ls, hls⟩ := List.exists_cons_of_ne_nil (lines_ne_nil hfront)
        rw [hls]
        rfl

/-- A text with no line feed but at its end is one line. -/
theorem lines_single {line : List UInt8} (hne : line ≠ []) (hone : 10 ∉ line.dropLast) :
    lines line = [line] := by
  induction line with
  | nil => exact absurd rfl hne
  | cons b line ih =>
    rw [lines]
    by_cases hline : line = []
    · rw [hline]
      split_ifs <;> rfl
    · obtain ⟨c, cs, rfl⟩ := List.exists_cons_of_ne_nil hline
      simp only [List.dropLast_cons_cons, List.mem_cons, not_or] at hone
      rw [if_neg (Ne.symm hone.1), ih hline hone.2]

theorem cut_nil {α : Type*} (room : ℕ) : cut room ([] : List α) = [] := by
  rw [cut, if_pos (.inl rfl)]

theorem cut_cons {α : Type*} {room : ℕ} (hroom : room ≠ 0) {s : List α} (hs : s ≠ []) :
    cut room s = s.take room :: cut room (s.drop room) := by
  rw [cut, if_neg (not_or.mpr ⟨hs, hroom⟩)]

/-- What fits is one piece. -/
theorem cut_of_le {α : Type*} {room : ℕ} {s : List α} (hs : s ≠ []) (hle : s.length ≤ room) :
    cut room s = [s] := by
  have hroom : room ≠ 0 := ((List.length_pos_iff.mpr hs).trans_le hle).ne'
  rw [cut_cons hroom hs, List.take_of_length_le hle, List.drop_of_length_le hle, cut_nil]

end BoardComm.Scan
