import BoardComm.ConfigDirectives

/-!
# Comments in the configuration

A line that begins with `#` is skipped, as far as the array reaches. What stands behind
that is read as if a line of its own began there.
-/
namespace BoardComm.Config

open Scan (word)

/-- A line that begins with `#`. Only at its end there may be a line feed. -/
structure Comment where
  line : List UInt8
  hash : line.head? = some 35
  one : 10 ∉ line.dropLast
  deriving DecidableEq

/-- The comment is a line of the text that begins with `front` and ends with `rest`. -/
structure Comment.Within (c : Comment) (front rest : List UInt8) : Prop where
  begins : front = [] ∨ front.getLast? = some 10
  ends : c.line.getLast? = some 10 ∨ rest = []

/-- The pieces of a comment behind the one that begins with `#`. -/
def Comment.behind (c : Comment) : List (List UInt8) :=
  (Scan.cut 255 (c.line.drop 255)).map CBuffer.cstr

/-- Something is made of the line. What matches the pattern of `socket_uid` matches that of
`socket` before. -/
def Interpreted (line : List UInt8) : Prop :=
  (scanNodeId line).isSome ∨ (scanSocket line).isSome ∨ requireRoute <+: line ∨
    noBridge <+: line ∨ (ofKind plugin scanPlugin line).isSome ∨
    (ofKind transport scanTransport line).isSome ∨ (ofKind channel scanChannel line).isSome ∨
    (ofKind route scanRoute line).isSome

instance (line : List UInt8) : Decidable (Interpreted line) :=
  inferInstanceAs (Decidable (_ ∨ _ ∨ _ ∨ _ ∨ _ ∨ _ ∨ _ ∨ _))

section Pieces

variable {c : Comment} {front rest : List UInt8}

/-- The text is loaded from its pieces. -/
theorem load_pieces (text : List UInt8) :
    (bcConfigLoad (.text text)).2 = (pieceStrings text).foldl processLine
      { bcConfigLoadDefaults with plugins := [], transports := [], channels := [], routes := [] } :=
  loadLoop_pieces text.length le_rfl _

/-- The first piece of a comment is skipped. -/
theorem Comment.pieceStrings_line (c : Comment) :
    ∃ first : List UInt8, first.head? = some 35 ∧ pieceStrings c.line = first :: c.behind := by
  obtain ⟨body, hline⟩ := List.head?_eq_some_iff.mp c.hash
  have hne : c.line ≠ [] := by
    rw [hline]
    exact List.cons_ne_nil _ _
  refine ⟨CBuffer.cstr (c.line.take 255), ?_, ?_⟩
  · rw [hline]
    rfl
  · rw [pieceStrings, Scan.lines_single hne c.one, List.flatMap_singleton,
      Scan.cut_cons (by decide) hne, List.map_cons, Comment.behind]

theorem pieceStrings_append (h : front = [] ∨ front.getLast? = some 10) (s : List UInt8) :
    pieceStrings (front ++ s) = pieceStrings front ++ pieceStrings s := by
  rw [pieceStrings, Scan.lines_append h, List.flatMap_append, List.map_append]
  rfl

/-- The pieces behind the first are read between what stands around the comment. -/
theorem Comment.Within.load_eq (h : c.Within front rest) :
    (bcConfigLoad (.text (front ++ c.line ++ rest))).2 =
      (pieceStrings rest).foldl processLine
        (c.behind.foldl processLine (bcConfigLoad (.text front)).2) := by
  obtain ⟨first, hhash, hline⟩ := c.pieceStrings_line
  have hrest : pieceStrings (c.line ++ rest) = pieceStrings c.line ++ pieceStrings rest := by
    rcases h.ends with hfeed | hend
    · exact pieceStrings_append (.inr hfeed) rest
    · rw [hend, List.append_nil]
      exact (List.append_nil _).symm
  have hskip : ∀ cfg, processLine cfg first = cfg := fun cfg => if_pos (.inl hhash)
  rw [load_pieces, load_pieces, List.append_assoc, pieceStrings_append h.begins, hrest, hline,
    List.foldl_append, List.foldl_append, List.foldl_cons, hskip]

theorem Comment.Within.load_without (h : c.Within front rest) :
    (bcConfigLoad (.text (front ++ rest))).2 =
      (pieceStrings rest).foldl processLine (bcConfigLoad (.text front)).2 := by
  rw [load_pieces, load_pieces, pieceStrings_append h.begins, List.foldl_append]

end Pieces

section Effects

variable {line : List UInt8}

/-- A line of which nothing is made leaves the configuration as it is. -/
theorem processLine_of_not_interpreted (h : ¬ Interpreted line) (cfg : BcConfig) :
    processLine cfg line = cfg := by
  simp only [Interpreted, not_or, Option.not_isSome_iff_eq_none] at h
  obtain ⟨hnodeId, hsocket, hrequire, hbridge, hplugin, htransport, hchannel, hroute⟩ := h
  have hstep := processLine_step cfg line
  obtain ⟨hplugins, htransports, hchannels, hroutes⟩ := processLine_lists cfg line
  apply BcConfig.ext
  · rw [hstep.nodeId_eq, hnodeId, Option.getD_none]
  · rw [hstep.socketPath_eq, hsocket, Option.getD_none]
  · exact hstep.socketUid_eq
  · rw [hstep.requireRoute_eq, decide_eq_false hrequire, Bool.or_false]
  · rw [hstep.bridgeBroadcast_eq, decide_eq_false hbridge, Bool.not_false, Bool.and_true]
  · rw [hplugins, hplugin, addTo_none]
  · rw [htransports, htransport, addTo_none]
  · rw [hchannels, hchannel, addTo_none]
  · rw [hroutes, hroute, addTo_none]

theorem foldl_of_not_interpreted {lines : List (List UInt8)}
    (h : ∀ line ∈ lines, ¬ Interpreted line) (cfg : BcConfig) :
    lines.foldl processLine cfg = cfg := by
  induction lines with
  | nil => rfl
  | cons line lines ih =>
    rw [List.foldl_cons, processLine_of_not_interpreted (h line List.mem_cons_self)]
    exact ih fun l hl => h l (List.mem_cons_of_mem _ hl)

/-- A text that sets another path and another node than the defaults. -/
def otherText : List UInt8 :=
  word ['s', 'o', 'c', 'k', 'e', 't', ' ', '/', 'b', '\n'] ++
    word ['n', 'o', 'd', 'e', '_', 'i', 'd', ' ', '2', '\n']

end Effects

section Unchanged

variable {β : Type*} {lines : List (List UInt8)} {cfg cfg' : BcConfig}

/-- A setting that keeps two different values is set by no line. -/
theorem none_of_kept {get : BcConfig → β} {scan : List UInt8 → Option β}
    (hstep : ∀ cfg line, get (processLine cfg line) = (scan line).getD (get cfg))
    (hne : get cfg ≠ get cfg') (h : lines.foldl processLine cfg = cfg)
    (h' : lines.foldl processLine cfg' = cfg') : ∀ line ∈ lines, scan line = none := by
  rw [← List.filterMap_eq_nil_iff]
  by_contra hsome
  obtain ⟨v, hv⟩ := Option.ne_none_iff_exists'.mp (mt List.getLast?_eq_none_iff.mp hsome)
  have hlast := foldl_lastOf hstep lines cfg
  have hlast' := foldl_lastOf hstep lines cfg'
  rw [h, lastOf, hv, Option.getD_some] at hlast
  rw [h', lastOf, hv, Option.getD_some] at hlast'
  exact hne (hlast.trans hlast'.symm)

/-- A list that stays empty is given nothing. -/
theorem none_of_empty {get : BcConfig → List β} {cap : ℕ} {scan : List UInt8 → Option β}
    (hstep : ∀ cfg line, get (processLine cfg line) = addTo cap (get cfg) (scan line))
    (hcap : cap ≠ 0) (hnil : get cfg = []) (h : lines.foldl processLine cfg = cfg) :
    ∀ line ∈ lines, scan line = none := by
  have hle : (get cfg).length ≤ cap := by
    rw [hnil]
    exact Nat.zero_le cap
  have htake := foldl_addTo hstep lines hle
  rw [h, hnil, List.nil_append, eq_comm, List.take_eq_nil_iff] at htake
  exact List.filterMap_eq_nil_iff.mp (htake.resolve_left hcap)

/-- Lines that change neither the empty configuration nor another have no effect. -/
theorem not_interpreted_of_unchanged
    (hempty : lines.foldl processLine (bcConfigLoad (.text [])).2 = (bcConfigLoad (.text [])).2)
    (hother : lines.foldl processLine (bcConfigLoad (.text otherText)).2 =
      (bcConfigLoad (.text otherText)).2) : ∀ line ∈ lines, ¬ Interpreted line := by
  have hnodes : (bcConfigLoad (.text [])).2.nodeId ≠
      (bcConfigLoad (.text otherText)).2.nodeId := by
    decide +kernel
  have hpaths : (bcConfigLoad (.text [])).2.socketPath ≠
      (bcConfigLoad (.text otherText)).2.socketPath := by
    decide +kernel
  have hnodeId := none_of_kept (fun cfg line => (processLine_step cfg line).nodeId_eq) hnodes
    hempty hother
  have hsocket := none_of_kept (fun cfg line => (processLine_step cfg line).socketPath_eq) hpaths
    hempty hother
  have hplugin := none_of_empty (fun cfg line => (processLine_lists cfg line).1)
    (by decide) rfl hempty
  have htransport := none_of_empty (fun cfg line => (processLine_lists cfg line).2.1)
    (by decide) rfl hempty
  have hchannel := none_of_empty (fun cfg line => (processLine_lists cfg line).2.2.1)
    (by decide) rfl hempty
  have hroute := none_of_empty (fun cfg line => (processLine_lists cfg line).2.2.2)
    (by decide) rfl hempty
  have hrequire := foldl_flag (fun cfg line => (processLine_step cfg line).requireRoute_eq) lines
    (bcConfigLoad (.text [])).2
  have hbridge := foldl_bridgeBroadcast lines (bcConfigLoad (.text [])).2
  rw [hempty] at hrequire hbridge
  have hnotRequire : (lines.any fun line => decide (requireRoute <+: line)) = false :=
    hrequire.symm
  have hnotBridge : (lines.any fun line => decide (noBridge <+: line)) = false := hbridge.symm
  simp only [List.any_eq_false, decide_eq_true_eq] at hnotRequire hnotBridge
  intro line hline
  simp only [Interpreted, not_or, Option.not_isSome_iff_eq_none]
  exact ⟨hnodeId line hline, hsocket line hline, hnotRequire line hline, hnotBridge line hline,
    hplugin line hline, htransport line hline, hchannel line hline, hroute line hline⟩

end Unchanged

/-- A comment may be taken out of every text in which it stands exactly when nothing is
made of any of its pieces behind the first 255 bytes. -/
theorem comment_harmless_iff (c : Comment) :
    (∀ front rest, c.Within front rest →
      bcConfigLoad (.text (front ++ c.line ++ rest)) = bcConfigLoad (.text (front ++ rest))) ↔
      ∀ piece ∈ Scan.cut 255 (c.line.drop 255), ¬ Interpreted (CBuffer.cstr piece) := by
  constructor
  · intro h
    have hbehind : ∀ front, front = [] ∨ front.getLast? = some 10 →
        c.behind.foldl processLine (bcConfigLoad (.text front)).2 =
          (bcConfigLoad (.text front)).2 := by
      intro front hfront
      have hwithin : c.Within front [] := ⟨hfront, .inr rfl⟩
      have hsame := congrArg Prod.snd (h front [] hwithin)
      rw [hwithin.load_eq, hwithin.load_without] at hsame
      exact hsame
    intro piece hpiece
    have hempty := hbehind [] (.inl rfl)
    have hother := hbehind otherText (.inr (by decide))
    exact not_interpreted_of_unchanged hempty hother _ (List.mem_map_of_mem hpiece)
  · intro hbehind front rest hwithin
    have hskip : ∀ cfg, c.behind.foldl processLine cfg = cfg := by
      apply foldl_of_not_interpreted
      intro line hline
      obtain ⟨piece, hpiece, rfl⟩ := List.mem_map.mp hline
      exact hbehind piece hpiece
    have hsame : (bcConfigLoad (.text (front ++ c.line ++ rest))).2 =
        (bcConfigLoad (.text (front ++ rest))).2 := by
      rw [hwithin.load_eq, hwithin.load_without, hskip]
    exact Prod.ext (congrArg bcConfigValidate hsame) hsame

/-- A comment of more than 255 bytes, of which the last ten look like a directive. -/
def longComment : Comment where
  line := 35 :: List.replicate 254 32 ++ word ['n', 'o', 'd', 'e', '_', 'i', 'd', ' ', '7', '\n']
  hash := rfl
  one := by decide +kernel

/-- The node of a long comment is taken. -/
theorem long_comment_sets_node :
    ¬ ∀ (c : Comment) (front rest : List UInt8), c.Within front rest →
      bcConfigLoad (.text (front ++ c.line ++ rest)) = bcConfigLoad (.text (front ++ rest)) := by
  intro h
  have hsame := h longComment [] [] ⟨.inl rfl, .inr rfl⟩
  have hnode := congrArg (fun r => r.2.nodeId) hsame
  revert hnode
  decide +kernel

end BoardComm.Config
