import BoardComm.Config
import BoardComm.SubscriptionTable

/-!
# The directives of the configuration

A line belongs to the directive with the longest keyword that it begins with. Every
setting is to follow from the lines of its own directive.
-/
namespace BoardComm.Config

open Scan (word literal token Starts)

/-- The directives. -/
inductive Directive
  | nodeId
  | socket
  | socketUid
  | requireRoute
  | noBridge
  | plugin
  | transport
  | channel
  | route
  deriving DecidableEq, Repr

def Directive.keyword : Directive → List UInt8
  | .nodeId => Config.nodeId
  | .socket => Config.socket
  | .socketUid => Config.socketUid
  | .requireRoute => Config.requireRoute
  | .noBridge => Config.noBridge
  | .plugin => Config.plugin
  | .transport => Config.transport
  | .channel => Config.channel
  | .route => Config.route

/-- The directives, with `socket_uid` before `socket`, whose keyword is a prefix of it. -/
def directives : List Directive :=
  [.nodeId, .socketUid, .socket, .requireRoute, .noBridge, .plugin, .transport, .channel, .route]

/-- The directive of a line. -/
def directiveOf (line : List UInt8) : Option Directive :=
  directives.find? fun d => d.keyword <+: line

/-- The lines of a directive. -/
def own (d : Directive) (lines : List (List UInt8)) : List (List UInt8) :=
  lines.filter fun line => directiveOf line = some d

section Settings

variable {β : Type*}

/-- What the last of the lines gives that give anything. -/
def lastOf (scan : List UInt8 → Option β) (default : β) (lines : List (List UInt8)) : β :=
  (lines.filterMap scan).getLast?.getD default

/-- A line whose first word is the keyword, scanned. -/
def ofKind (kind : List UInt8) (scan : List UInt8 → Option β) (line : List UInt8) : Option β :=
  if scanKind line = some kind then scan line else none

end Settings

/-- The configuration in which every setting follows from its own lines. -/
def ownConfig (lines : List (List UInt8)) : BcConfig :=
  { nodeId := lastOf scanNodeId 1 (own .nodeId lines)
    socketPath := lastOf scanSocket bcDefaultSocketPath (own .socket lines)
    socketUid := lastOf scanSocketUid 0 (own .socketUid lines)
    requireRoute := decide (own .requireRoute lines ≠ [])
    bridgeBroadcast := decide (own .noBridge lines = [])
    plugins := ((own .plugin lines).filterMap (ofKind plugin scanPlugin)).take bcMaxTransports
    transports :=
      ((own .transport lines).filterMap (ofKind transport scanTransport)).take bcMaxTransports
    channels := ((own .channel lines).filterMap (ofKind channel scanChannel)).take bcMaxChannels
    routes := ((own .route lines).filterMap (ofKind route scanRoute)).take bcMaxRoutes }

/-- The lines of a text as C strings. -/
def lineStrings (text : List UInt8) : List (List UInt8) := (Scan.lines text).map CBuffer.cstr

/-- The C strings that `bc_config_load` reads of a text: its lines, in pieces that fit the array. -/
def pieceStrings (text : List UInt8) : List (List UInt8) :=
  ((Scan.lines text).flatMap (Scan.cut 255)).map CBuffer.cstr

/-- No line asks for a user, and the last line that begins with `socket` and goes on is
none of `socket_uid`, or else goes on with the path that is asked for. -/
structure SocketApart (lines : List (List UInt8)) : Prop where
  uid : lastOf scanSocketUid 0 (own .socketUid lines) = 0
  path : ∀ line ∈ (lines.filter fun line => (scanSocket line).isSome).getLast?,
    directiveOf line = some .socketUid →
      scanSocket line = some (lastOf scanSocket bcDefaultSocketPath (own .socket lines))

section Lines

variable {cfg cfg' : BcConfig} {line : List UInt8}

theorem scanNodeId_starts : Starts nodeId scanNodeId := Scan.starts_bind _ _

theorem scanSocket_starts : Starts socket scanSocket := Scan.starts_bind _ _

theorem scanSocketUid_starts : Starts socketUid scanSocketUid := Scan.starts_bind _ _

theorem scanPlugin_starts : Starts plugin scanPlugin := Scan.starts_bind _ _

theorem scanTransport_starts : Starts transport scanTransport := Scan.starts_bind _ _

theorem scanChannel_starts : Starts channel scanChannel := Scan.starts_bind _ _

theorem scanRoute_starts : Starts route scanRoute := Scan.starts_bind _ _

/-- A line of `socket_uid` matches the pattern of `socket`. -/
theorem scanSocket_socketUid (h : socketUid <+: line) : ∃ path, scanSocket line = some path := by
  obtain ⟨rest, rfl⟩ := h
  have hsplit : socketUid ++ rest = socket ++ (95 :: 117 :: 105 :: 100 :: rest) := rfl
  have hspace : Scan.isSpace 95 = false := by decide
  obtain ⟨t, rest', htoken⟩ := Scan.token_cons 126 hspace (117 :: 105 :: 100 :: rest)
  refine ⟨95 :: t, ?_⟩
  simp only [scanSocket, Scan.literal_eq_some.mpr hsplit, Option.bind_eq_bind, Option.bind_some,
    htoken]

/-- What is done with a line. No line gets to the pattern of `socket_uid`. -/
inductive LineStep (cfg : BcConfig) (line : List UInt8) : BcConfig → Prop
  | skipped (h : line.head? = some 35 ∨ line.head? = some 10) : LineStep cfg line cfg
  | setNodeId (n : UInt32) (h : scanNodeId line = some n) :
      LineStep cfg line { cfg with nodeId := n }
  | setSocketPath (path : List UInt8) (h : scanSocket line = some path) :
      LineStep cfg line { cfg with socketPath := path }
  | setRequireRoute (h : requireRoute <+: line) :
      LineStep cfg line { cfg with requireRoute := true }
  | setNoBridge (h : noBridge <+: line) :
      LineStep cfg line { cfg with bridgeBroadcast := false }
  | byKind (hnodeId : scanNodeId line = none) (hsocket : scanSocket line = none)
      (hrequire : ¬ requireRoute <+: line) (hbridge : ¬ noBridge <+: line) :
      LineStep cfg line (processKind cfg line)

theorem processLine_step (cfg : BcConfig) (line : List UInt8) :
    LineStep cfg line (processLine cfg line) := by
  unfold processLine
  by_cases hskip : line.head? = some 35 ∨ line.head? = some 10
  · rw [if_pos hskip]
    exact .skipped hskip
  rw [if_neg hskip]
  cases hnodeId : scanNodeId line with
  | some n => exact .setNodeId n hnodeId
  | none =>
    cases hsocket : scanSocket line with
    | some path => exact .setSocketPath path hsocket
    | none =>
      cases huid : scanSocketUid line with
      | some uid =>
        obtain ⟨path, hpath⟩ := scanSocket_socketUid (scanSocketUid_starts _ _ huid)
        rw [hsocket] at hpath
        cases hpath
      | none =>
        by_cases hrequire : requireRoute <+: line
        · simp only [if_pos hrequire]
          exact .setRequireRoute hrequire
        by_cases hbridge : noBridge <+: line
        · simp only [if_neg hrequire, if_pos hbridge]
          exact .setNoBridge hbridge
        simp only [if_neg hrequire, if_neg hbridge]
        exact .byKind hnodeId hsocket hrequire hbridge

/-- A pattern matches no line that begins with a keyword that is apart from its own. -/
theorem scan_none {β : Type*} {k k' : List UInt8} {scan : List UInt8 → Option β}
    (hscan : Starts k' scan) (hapart : ¬ k <+: k' ∧ ¬ k' <+: k)
    (hline : k <+: line) : scan line = none :=
  hscan.eq_none (Scan.not_prefix_both hapart.1 hapart.2 hline)

/-- A line that is skipped begins with no keyword. -/
theorem skipped_not_isPrefix {k : List UInt8} (hk : k.head? ≠ some 35 ∧ k.head? ≠ some 10 ∧ k ≠ [])
    (hskip : line.head? = some 35 ∨ line.head? = some 10) : ¬ k <+: line := by
  rintro ⟨rest, rfl⟩
  rw [List.head?_append_of_ne_nil _ hk.2.2] at hskip
  rcases hskip with hhash | hfeed
  · exact hk.1 hhash
  · exact hk.2.1 hfeed

theorem skipped_none {β : Type*} {k : List UInt8} {scan : List UInt8 → Option β}
    (hscan : Starts k scan)
    (hk : k.head? ≠ some 35 ∧ k.head? ≠ some 10 ∧ k ≠ [])
    (hskip : line.head? = some 35 ∨ line.head? = some 10) : scan line = none :=
  hscan.eq_none (skipped_not_isPrefix hk hskip)

theorem processKind_others (cfg : BcConfig) (line : List UInt8) :
    (processKind cfg line).nodeId = cfg.nodeId ∧
      (processKind cfg line).socketPath = cfg.socketPath ∧
      (processKind cfg line).socketUid = cfg.socketUid ∧
      (processKind cfg line).requireRoute = cfg.requireRoute ∧
      (processKind cfg line).bridgeBroadcast = cfg.bridgeBroadcast := by
  unfold processKind
  cases scanKind line with
  | none => exact ⟨rfl, rfl, rfl, rfl, rfl⟩
  | some kind =>
    simp only
    split_ifs <;> exact ⟨rfl, rfl, rfl, rfl, rfl⟩

theorem LineStep.nodeId_eq (hstep : LineStep cfg line cfg') :
    cfg'.nodeId = (scanNodeId line).getD cfg.nodeId := by
  cases hstep with
  | skipped h => rw [skipped_none scanNodeId_starts (by decide) h, Option.getD_none]
  | setNodeId n h => rw [h, Option.getD_some]
  | setSocketPath path h =>
    rw [scan_none scanNodeId_starts (by decide) (scanSocket_starts _ _ h), Option.getD_none]
  | setRequireRoute h => rw [scan_none scanNodeId_starts (by decide) h, Option.getD_none]
  | setNoBridge h => rw [scan_none scanNodeId_starts (by decide) h, Option.getD_none]
  | byKind hnodeId _ _ _ => rw [hnodeId, (processKind_others cfg line).1, Option.getD_none]

theorem LineStep.socketPath_eq (hstep : LineStep cfg line cfg') :
    cfg'.socketPath = (scanSocket line).getD cfg.socketPath := by
  cases hstep with
  | skipped h => rw [skipped_none scanSocket_starts (by decide) h, Option.getD_none]
  | setNodeId n h =>
    rw [scan_none scanSocket_starts (by decide) (scanNodeId_starts _ _ h), Option.getD_none]
  | setSocketPath path h => rw [h, Option.getD_some]
  | setRequireRoute h => rw [scan_none scanSocket_starts (by decide) h, Option.getD_none]
  | setNoBridge h => rw [scan_none scanSocket_starts (by decide) h, Option.getD_none]
  | byKind _ hsocket _ _ => rw [hsocket, (processKind_others cfg line).2.1, Option.getD_none]

/-- The user is never set. -/
theorem LineStep.socketUid_eq (hstep : LineStep cfg line cfg') :
    cfg'.socketUid = cfg.socketUid := by
  cases hstep with
  | skipped h => rfl
  | setNodeId n h => rfl
  | setSocketPath path h => rfl
  | setRequireRoute h => rfl
  | setNoBridge h => rfl
  | byKind _ _ _ _ => exact (processKind_others cfg line).2.2.1

theorem LineStep.requireRoute_eq (hstep : LineStep cfg line cfg') :
    cfg'.requireRoute = (cfg.requireRoute || decide (requireRoute <+: line)) := by
  have hapart : ∀ k ∈ [nodeId, socket, noBridge],
      ¬ k <+: requireRoute ∧ ¬ requireRoute <+: k := by
    decide
  have hother : ∀ k ∈ [nodeId, socket, noBridge], k <+: line → ¬ requireRoute <+: line :=
    fun k hk => Scan.not_prefix_both (hapart k hk).1 (hapart k hk).2
  have hhead : requireRoute.head? ≠ some 35 ∧ requireRoute.head? ≠ some 10 ∧
      requireRoute ≠ [] := by
    decide
  cases hstep with
  | skipped h => simp [skipped_not_isPrefix hhead h]
  | setNodeId n h => simp [hother nodeId (by simp) (scanNodeId_starts _ _ h)]
  | setSocketPath path h => simp [hother socket (by simp) (scanSocket_starts _ _ h)]
  | setRequireRoute h => simp [h]
  | setNoBridge h => simp [hother noBridge (by simp) h]
  | byKind _ _ hrequire _ => simp [(processKind_others cfg line).2.2.2.1, hrequire]

theorem LineStep.bridgeBroadcast_eq (hstep : LineStep cfg line cfg') :
    cfg'.bridgeBroadcast = (cfg.bridgeBroadcast && !decide (noBridge <+: line)) := by
  have hapart : ∀ k ∈ [nodeId, socket, requireRoute], ¬ k <+: noBridge ∧ ¬ noBridge <+: k := by
    decide
  have hother : ∀ k ∈ [nodeId, socket, requireRoute], k <+: line → ¬ noBridge <+: line :=
    fun k hk => Scan.not_prefix_both (hapart k hk).1 (hapart k hk).2
  have hhead : noBridge.head? ≠ some 35 ∧ noBridge.head? ≠ some 10 ∧ noBridge ≠ [] := by
    decide
  cases hstep with
  | skipped h => simp [skipped_not_isPrefix hhead h]
  | setNodeId n h => simp [hother nodeId (by simp) (scanNodeId_starts _ _ h)]
  | setSocketPath path h => simp [hother socket (by simp) (scanSocket_starts _ _ h)]
  | setRequireRoute h => simp [hother requireRoute (by simp) h]
  | setNoBridge h => simp [h]
  | byKind _ _ _ hbridge => simp [(processKind_others cfg line).2.2.2.2, hbridge]

/-- What the first patterns match is no line of a directive that is told by its first
word, and leaves the settings of those alone. -/
theorem LineStep.told (hstep : LineStep cfg line cfg') :
    cfg' = processKind cfg line ∨
      (∀ k ∈ [plugin, transport, channel, route], ¬ k <+: line) ∧ cfg'.plugins = cfg.plugins ∧
        cfg'.transports = cfg.transports ∧ cfg'.channels = cfg.channels ∧
        cfg'.routes = cfg.routes := by
  have hapart : ∀ k ∈ [plugin, transport, channel, route],
      ∀ k' ∈ [nodeId, socket, requireRoute, noBridge], ¬ k' <+: k ∧ ¬ k <+: k' := by
    decide
  have hhead : ∀ k ∈ [plugin, transport, channel, route],
      k.head? ≠ some 35 ∧ k.head? ≠ some 10 ∧ k ≠ [] := by
    decide
  have hother : ∀ k' ∈ [nodeId, socket, requireRoute, noBridge], k' <+: line →
      ∀ k ∈ [plugin, transport, channel, route], ¬ k <+: line := fun k' hk' hline k hk =>
    Scan.not_prefix_both (hapart k hk k' hk').1 (hapart k hk k' hk').2 hline
  cases hstep with
  | skipped h => exact .inr ⟨fun k hk => skipped_not_isPrefix (hhead k hk) h, rfl, rfl, rfl, rfl⟩
  | setNodeId n h =>
    exact .inr ⟨hother nodeId (by simp) (scanNodeId_starts _ _ h), rfl, rfl, rfl, rfl⟩
  | setSocketPath path h =>
    exact .inr ⟨hother socket (by simp) (scanSocket_starts _ _ h), rfl, rfl, rfl, rfl⟩
  | setRequireRoute h => exact .inr ⟨hother requireRoute (by simp) h, rfl, rfl, rfl, rfl⟩
  | setNoBridge h => exact .inr ⟨hother noBridge (by simp) h, rfl, rfl, rfl, rfl⟩
  | byKind _ _ _ _ => exact .inl rfl

end Lines

section Kinds

variable {β : Type*} {k : List UInt8} {scan : List UInt8 → Option β} {line : List UInt8}

/-- A list that takes what the line gives, while there is room. -/
def addTo (cap : ℕ) (xs : List β) (new : Option β) : List β :=
  if xs.length < cap then xs ++ new.toList else xs

theorem addTo_none (cap : ℕ) (xs : List β) : addTo cap xs none = xs := by
  simp [addTo]

theorem ofKind_none (hscan : Starts k scan) (hline : ¬ k <+: line) :
    ofKind k scan line = none := by
  unfold ofKind
  split_ifs
  · exact hscan.eq_none hline
  · rfl

theorem processKind_lists (cfg : BcConfig) (line : List UInt8) :
    (processKind cfg line).plugins =
        addTo bcMaxTransports cfg.plugins (ofKind plugin scanPlugin line) ∧
      (processKind cfg line).transports =
        addTo bcMaxTransports cfg.transports (ofKind transport scanTransport line) ∧
      (processKind cfg line).channels =
        addTo bcMaxChannels cfg.channels (ofKind channel scanChannel line) ∧
      (processKind cfg line).routes =
        addTo bcMaxRoutes cfg.routes (ofKind route scanRoute line) := by
  have hdistinct : [plugin, transport, channel, route].Nodup := by decide
  simp only [List.nodup_cons, List.mem_cons, List.not_mem_nil, or_false, not_or] at hdistinct
  obtain ⟨⟨hpt, hpc, hpr⟩, ⟨htc, htr⟩, hcr, -⟩ := hdistinct
  unfold processKind ofKind addTo
  cases scanKind line with
  | none => simp
  | some kind =>
    simp only [Option.some.injEq]
    by_cases hplugin : kind = plugin
    · subst hplugin
      simp only [hpt, hpc, hpr, true_and, false_and, if_true, if_false]
      split_ifs <;> simp
    by_cases htransport : kind = transport
    · subst htransport
      simp only [Ne.symm hpt, htc, htr, true_and, false_and, if_true, if_false]
      split_ifs <;> simp
    by_cases hchannel : kind = channel
    · subst hchannel
      simp only [Ne.symm hpc, Ne.symm htc, hcr, true_and, false_and, if_true, if_false]
      split_ifs <;> simp
    by_cases hroute : kind = route
    · subst hroute
      simp only [Ne.symm hpr, Ne.symm htr, Ne.symm hcr, true_and, false_and, if_true, if_false]
      split_ifs <;> simp
    · simp [hplugin, htransport, hchannel, hroute]

/-- A list of the settings takes what its own lines give. -/
theorem processLine_lists (cfg : BcConfig) (line : List UInt8) :
    (processLine cfg line).plugins =
        addTo bcMaxTransports cfg.plugins (ofKind plugin scanPlugin line) ∧
      (processLine cfg line).transports =
        addTo bcMaxTransports cfg.transports (ofKind transport scanTransport line) ∧
      (processLine cfg line).channels =
        addTo bcMaxChannels cfg.channels (ofKind channel scanChannel line) ∧
      (processLine cfg line).routes =
        addTo bcMaxRoutes cfg.routes (ofKind route scanRoute line) := by
  obtain hkind | ⟨hnone, hplugins, htransports, hchannels, hroutes⟩ :=
    (processLine_step cfg line).told
  · rw [hkind]
    exact processKind_lists cfg line
  · have hplugin : ofKind plugin scanPlugin line = none :=
      ofKind_none scanPlugin_starts (hnone plugin (by simp))
    have htransport : ofKind transport scanTransport line = none :=
      ofKind_none scanTransport_starts (hnone transport (by simp))
    have hchannel : ofKind channel scanChannel line = none :=
      ofKind_none scanChannel_starts (hnone channel (by simp))
    have hroute : ofKind route scanRoute line = none :=
      ofKind_none scanRoute_starts (hnone route (by simp))
    rw [hplugins, htransports, hchannels, hroutes, hplugin, htransport, hchannel, hroute]
    simp only [addTo_none, and_self]

end Kinds

section Loop

variable {β : Type*} {lines : List (List UInt8)}

/-- A setting that a line sets when it gives anything. -/
theorem foldl_lastOf {get : BcConfig → β} {scan : List UInt8 → Option β}
    (hstep : ∀ cfg line, get (processLine cfg line) = (scan line).getD (get cfg))
    (lines : List (List UInt8)) (cfg : BcConfig) :
    get (lines.foldl processLine cfg) = lastOf scan (get cfg) lines := by
  induction lines generalizing cfg with
  | nil => rfl
  | cons line lines ih =>
    rw [List.foldl_cons, ih, hstep, lastOf, lastOf]
    cases hscan : scan line with
    | none => rw [List.filterMap_cons_none hscan, Option.getD_none]
    | some v =>
      rw [List.filterMap_cons_some hscan, Option.getD_some, List.getLast?_cons, Option.getD_some]

/-- A setting that a line appends to, while there is room. -/
theorem foldl_addTo {get : BcConfig → List β} {cap : ℕ} {scan : List UInt8 → Option β}
    (hstep : ∀ cfg line, get (processLine cfg line) = addTo cap (get cfg) (scan line))
    (lines : List (List UInt8)) {cfg : BcConfig} (hcap : (get cfg).length ≤ cap) :
    get (lines.foldl processLine cfg) = (get cfg ++ lines.filterMap scan).take cap := by
  induction lines generalizing cfg with
  | nil => rw [List.foldl_nil, List.filterMap_nil, List.append_nil, List.take_of_length_le hcap]
  | cons line lines ih =>
    have hline := hstep cfg line
    unfold addTo at hline
    rw [List.foldl_cons]
    cases hscan : scan line with
    | none =>
      rw [hscan, Option.toList_none, List.append_nil, ite_self] at hline
      rw [ih (by rw [hline]; exact hcap), hline, List.filterMap_cons_none hscan]
    | some v =>
      rw [hscan, Option.toList_some] at hline
      split_ifs at hline with hroom
      · rw [ih (by rw [hline, List.length_append]; exact hroom), hline,
          List.filterMap_cons_some hscan, List.append_assoc, List.singleton_append]
      · -- The list is full: nothing behind it counts.
        have hfull : (get cfg).length = cap := by omega
        rw [ih (by rw [hline]; exact hcap), hline, List.take_append_of_le_length hfull.ge,
          List.take_append_of_le_length hfull.ge]

/-- A flag that a line changes when it has the keyword. -/
theorem foldl_flag {get : BcConfig → Bool} {k : List UInt8}
    (hstep : ∀ cfg line, get (processLine cfg line) = (get cfg || decide (k <+: line)))
    (lines : List (List UInt8)) (cfg : BcConfig) :
    get (lines.foldl processLine cfg) = (get cfg || lines.any fun line => decide (k <+: line)) := by
  induction lines generalizing cfg with
  | nil => simp
  | cons line lines ih => rw [List.foldl_cons, ih, hstep, List.any_cons, Bool.or_assoc]

/-- The bridge is a flag that is turned off. -/
theorem foldl_bridgeBroadcast (lines : List (List UInt8)) (cfg : BcConfig) :
    (!(lines.foldl processLine cfg).bridgeBroadcast) =
      (!cfg.bridgeBroadcast || lines.any fun line => decide (noBridge <+: line)) := by
  refine @foldl_flag (fun cfg => !cfg.bridgeBroadcast) noBridge (fun cfg line => ?_) lines cfg
  rw [(processLine_step cfg line).bridgeBroadcast_eq, Bool.not_and, Bool.not_not]

/-- Other lines give nothing. -/
theorem filterMap_own {d : Directive} {scan : List UInt8 → Option β}
    (hscan : ∀ line v, scan line = some v → directiveOf line = some d)
    (lines : List (List UInt8)) : (own d lines).filterMap scan = lines.filterMap scan := by
  rw [own, List.filterMap_filter]
  congr
  funext line
  split_ifs with hline
  · rfl
  · by_contra hsome
    obtain ⟨v, hv⟩ := Option.ne_none_iff_exists'.mp (Ne.symm hsome)
    exact hline (by simpa using hscan line v hv)

theorem directiveOf_of_isPrefix {d : Directive} (hd : d ≠ .socket) {line : List UInt8}
    (hline : d.keyword <+: line) : directiveOf line = some d := by
  have hsplit : directives =
      directives.takeWhile (· ≠ d) ++ d :: (directives.dropWhile (· ≠ d)).tail := by
    cases d <;> rfl
  have hapart : ∀ d' ∈ directives.takeWhile (· ≠ d),
      ¬ d.keyword <+: d'.keyword ∧ ¬ d'.keyword <+: d.keyword := by
    revert hd
    cases d <;> decide
  rw [directiveOf, hsplit, List.find?_eq_some_iff_append]
  refine ⟨by simpa using hline, _, _, rfl, fun d' hd' => ?_⟩
  simpa using Scan.not_prefix_both (hapart d' hd').1 (hapart d' hd').2 hline

/-- A line that begins with `socket` is one of the two directives. -/
theorem directiveOf_socket {line : List UInt8} (hline : socket <+: line) :
    directiveOf line = some .socket ∨ directiveOf line = some .socketUid := by
  by_cases huid : socketUid <+: line
  · exact .inr (directiveOf_of_isPrefix (d := .socketUid) (by decide) huid)
  · refine .inl ?_
    have hnode : ¬ nodeId <+: line := Scan.not_prefix_both (by decide) (by decide) hline
    have hkeyword : Directive.socket.keyword <+: line := hline
    rw [directiveOf, List.find?_eq_some_iff_append]
    refine ⟨by simpa using hkeyword, [.nodeId, .socketUid], _, rfl, fun d hd => ?_⟩
    simp only [List.mem_cons, List.not_mem_nil, or_false] at hd
    rcases hd with rfl | rfl
    · exact (Bool.not_eq_true' _).mpr (decide_eq_false hnode)
    · exact (Bool.not_eq_true' _).mpr (decide_eq_false huid)

end Loop

section Result

/-- A text is read piece by piece. -/
theorem loadLoop_pieces (rounds : ℕ) {text : List UInt8} (hrounds : text.length ≤ rounds)
    (cfg : BcConfig) : loadLoop rounds text cfg = (pieceStrings text).foldl processLine cfg := by
  induction rounds generalizing text cfg with
  | zero =>
    rw [List.length_eq_zero_iff.mp (Nat.le_zero.mp hrounds)]
    rfl
  | succ rounds ih =>
    rw [loadLoop]
    by_cases hempty : text = []
    · rw [if_pos hempty, hempty]
      rfl
    rw [if_neg hempty]
    obtain ⟨line, rest, hsplit⟩ := List.exists_cons_of_ne_nil (Scan.lines_ne_nil hempty)
    have hpos := Scan.lines_pos line (by rw [hsplit]; exact List.mem_cons_self)
    obtain ⟨hfirst, hleft⟩ := @Scan.fgets_cut 255 _ _ _ hsplit
    have hlength := congrArg List.length (Scan.fgets_append 255 text)
    rw [hfirst, List.length_append, List.length_take] at hlength
    -- What is left of the line is cut in the rounds that follow.
    have hpieces : pieceStrings text =
        CBuffer.cstr (line.take 255) :: pieceStrings (Scan.fgets 255 text).2 := by
      have hcut := @Scan.cut_cons _ 255 (by decide) _ (List.length_pos_iff.mp hpos)
      rw [pieceStrings, pieceStrings, hsplit, hleft, List.flatMap_cons, hcut]
      split_ifs with hroom
      · rw [List.drop_of_length_le hroom, Scan.cut_nil]
        rfl
      · rfl
    simp only
    rw [ih (by omega), hpieces, hfirst, List.foldl_cons]

/-- A text whose lines fit is read line by line. -/
theorem loadLoop_eq (rounds : ℕ) {text : List UInt8} (hrounds : text.length ≤ rounds)
    (hlines : ∀ line ∈ Scan.lines text, line.length ≤ 255) (cfg : BcConfig) :
    loadLoop rounds text cfg = (lineStrings text).foldl processLine cfg := by
  have hpieces : (Scan.lines text).flatMap (Scan.cut 255) = Scan.lines text := by
    have hone : ∀ line ∈ Scan.lines text, Scan.cut 255 line = [line] := fun line hline =>
      Scan.cut_of_le (List.length_pos_iff.mp (Scan.lines_pos line hline)) (hlines line hline)
    rw [List.flatMap_congr hone, List.flatMap_singleton']
  rw [loadLoop_pieces rounds hrounds, pieceStrings, hpieces, lineStrings]

/-- The lines of a directive whose keyword is found in the pattern of the setting. -/
theorem filterMap_directive {β : Type*} {d : Directive} (hd : d ≠ .socket)
    {scan : List UInt8 → Option β} (hscan : Starts d.keyword scan)
    (lines : List (List UInt8)) : (own d lines).filterMap scan = lines.filterMap scan :=
  filterMap_own (fun line v h => directiveOf_of_isPrefix hd (hscan line v h)) lines

theorem ofKind_starts {β : Type*} {k : List UInt8} {scan : List UInt8 → Option β}
    (hscan : Starts k scan) : Starts k (ofKind k scan) := by
  intro line v h
  by_contra hline
  rw [ofKind_none hscan hline] at h
  cases h

/-- There is a line of a directive if some line begins with its keyword. -/
theorem own_ne_nil {d : Directive} (hd : d ≠ .socket) (lines : List (List UInt8)) :
    own d lines ≠ [] ↔ lines.any (fun line => decide (d.keyword <+: line)) = true := by
  rw [List.any_eq_true, own, ne_eq, List.filter_eq_nil_iff]
  push Not
  refine exists_congr fun line => and_congr_right fun _ => ?_
  rw [decide_eq_true_eq, decide_eq_true_eq]
  constructor
  · intro h
    have hfound := List.find?_some h
    exact of_decide_eq_true hfound
  · exact directiveOf_of_isPrefix hd

/-- What is asked for, by all lines: those of other directives ask for nothing. -/
theorem ownConfig_eq (lines : List (List UInt8)) :
    ownConfig lines =
      { nodeId := lastOf scanNodeId 1 lines
        socketPath := lastOf scanSocket bcDefaultSocketPath (own .socket lines)
        socketUid := lastOf scanSocketUid 0 lines
        requireRoute := lines.any fun line => decide (requireRoute <+: line)
        bridgeBroadcast := !(lines.any fun line => decide (noBridge <+: line))
        plugins := (lines.filterMap (ofKind plugin scanPlugin)).take bcMaxTransports
        transports := (lines.filterMap (ofKind transport scanTransport)).take bcMaxTransports
        channels := (lines.filterMap (ofKind channel scanChannel)).take bcMaxChannels
        routes := (lines.filterMap (ofKind route scanRoute)).take bcMaxRoutes } := by
  have hnodeId := filterMap_directive (d := .nodeId) (by decide) scanNodeId_starts lines
  have huid := filterMap_directive (d := .socketUid) (by decide) scanSocketUid_starts lines
  have hplugins : (own .plugin lines).filterMap (ofKind plugin scanPlugin) =
      lines.filterMap (ofKind plugin scanPlugin) :=
    filterMap_directive (d := .plugin) (by decide) (ofKind_starts scanPlugin_starts) lines
  have htransports : (own .transport lines).filterMap (ofKind transport scanTransport) =
      lines.filterMap (ofKind transport scanTransport) :=
    filterMap_directive (d := .transport) (by decide) (ofKind_starts scanTransport_starts) lines
  have hchannels : (own .channel lines).filterMap (ofKind channel scanChannel) =
      lines.filterMap (ofKind channel scanChannel) :=
    filterMap_directive (d := .channel) (by decide) (ofKind_starts scanChannel_starts) lines
  have hroutes : (own .route lines).filterMap (ofKind route scanRoute) =
      lines.filterMap (ofKind route scanRoute) :=
    filterMap_directive (d := .route) (by decide) (ofKind_starts scanRoute_starts) lines
  have hrequire := own_ne_nil (d := .requireRoute) (by decide) lines
  have hbridge := own_ne_nil (d := .noBridge) (by decide) lines
  apply BcConfig.ext
  · simp only [ownConfig, lastOf, hnodeId]
  · rfl
  · simp only [ownConfig, lastOf, huid]
  · rw [Bool.eq_iff_iff, ownConfig, decide_eq_true_iff]
    exact hrequire
  · rw [ownConfig, Bool.eq_iff_iff, decide_eq_true_iff, Bool.not_eq_true', ← Bool.not_eq_true]
    exact not_not.symm.trans (not_congr hbridge)
  · simp only [ownConfig, hplugins]
  · simp only [ownConfig, htransports]
  · simp only [ownConfig, hchannels]
  · simp only [ownConfig, hroutes]

/-- Every setting but the two of the socket follows from its own lines. The path follows
from all lines that begin with `socket`, and the user stays as it was. -/
theorem load_config {text : List UInt8} (hlines : ∀ line ∈ Scan.lines text, line.length ≤ 255) :
    (bcConfigLoad (.text text)).2 =
      { ownConfig (lineStrings text) with
        socketPath := lastOf scanSocket bcDefaultSocketPath (lineStrings text)
        socketUid := 0 } := by
  let cfg : BcConfig := { bcConfigLoadDefaults with
    plugins := [], transports := [], channels := [], routes := [] }
  have hload : (bcConfigLoad (.text text)).2 = (lineStrings text).foldl processLine cfg :=
    loadLoop_eq _ le_rfl hlines cfg
  rw [hload, ownConfig_eq]
  generalize lineStrings text = lines
  have huid : (lines.foldl processLine cfg).socketUid = lastOf (fun _ => none) 0 lines :=
    foldl_lastOf (fun cfg line => (processLine_step cfg line).socketUid_eq) lines cfg
  have hbridge := foldl_bridgeBroadcast lines cfg
  apply BcConfig.ext
  · exact foldl_lastOf (fun cfg line => (processLine_step cfg line).nodeId_eq) lines cfg
  · exact foldl_lastOf (fun cfg line => (processLine_step cfg line).socketPath_eq) lines cfg
  · rw [huid, lastOf, List.filterMap_none]
    rfl
  · exact foldl_flag (fun cfg line => (processLine_step cfg line).requireRoute_eq) lines cfg
  · rw [Bool.not_eq_eq_eq_not] at hbridge
    exact hbridge
  · exact foldl_addTo (fun cfg line => (processLine_lists cfg line).1) lines (Nat.zero_le _)
  · exact foldl_addTo (fun cfg line => (processLine_lists cfg line).2.1) lines (Nat.zero_le _)
  · exact foldl_addTo (fun cfg line => (processLine_lists cfg line).2.2.1) lines (Nat.zero_le _)
  · exact foldl_addTo (fun cfg line => (processLine_lists cfg line).2.2.2) lines (Nat.zero_le _)

/-- The last line that gives anything. -/
theorem lastOf_eq {β : Type*} {scan : List UInt8 → Option β} {default : β}
    {lines : List (List UInt8)} {line : List UInt8} {v : β}
    (hline : (lines.filter fun line => (scan line).isSome).getLast? = some line)
    (hv : scan line = some v) : lastOf scan default lines = v := by
  have hgiven : (lines.filter fun line => (scan line).isSome).filterMap scan =
      lines.filterMap scan := by
    rw [List.filterMap_filter]
    congr
    funext line
    cases scan line <;> rfl
  obtain ⟨front, hfront⟩ := List.getLast?_eq_some_iff.mp hline
  rw [lastOf, ← hgiven, hfront, List.filterMap_append, List.filterMap_cons_some hv,
    List.filterMap_nil, List.getLast?_append_of_ne_nil _ (List.cons_ne_nil _ _),
    List.getLast?_singleton, Option.getD_some]

/-- The path is the one that is asked for, unless a line of `socket_uid` is taken for it. -/
theorem socketPath_iff (lines : List (List UInt8)) :
    lastOf scanSocket bcDefaultSocketPath lines =
        lastOf scanSocket bcDefaultSocketPath (own .socket lines) ↔
      ∀ line ∈ (lines.filter fun line => (scanSocket line).isSome).getLast?,
        directiveOf line = some .socketUid →
          scanSocket line = some (lastOf scanSocket bcDefaultSocketPath (own .socket lines)) := by
  have hswap : (own .socket lines).filter (fun line => (scanSocket line).isSome) =
      (lines.filter fun line => (scanSocket line).isSome).filter
        fun line => directiveOf line = some .socket := by
    rw [own, List.filter_filter, List.filter_filter]
    exact List.filter_congr fun line _ => Bool.and_comm _ _
  cases hlast : (lines.filter fun line => (scanSocket line).isSome).getLast? with
  | none =>
    have hnone : ∀ line ∈ lines, scanSocket line = none := by
      simpa [List.getLast?_eq_none_iff] using hlast
    have hown : ∀ line ∈ own .socket lines, scanSocket line = none :=
      fun line hline => hnone line (List.mem_of_mem_filter hline)
    rw [lastOf, lastOf, List.filterMap_eq_nil_iff.mpr hnone, List.filterMap_eq_nil_iff.mpr hown]
    simp
  | some line =>
    obtain ⟨front, hfront⟩ := List.getLast?_eq_some_iff.mp hlast
    have hmem : line ∈ lines.filter fun line => (scanSocket line).isSome :=
      List.mem_of_getLast? hlast
    obtain ⟨path, hpath⟩ := Option.isSome_iff_exists.mp (List.mem_filter.mp hmem).2
    rw [lastOf_eq hlast hpath]
    simp only [Option.mem_def, Option.some.injEq, forall_eq', hpath]
    constructor
    · exact fun h _ => h
    · intro h
      rcases directiveOf_socket (scanSocket_starts line path hpath) with hdir | hdir
      · -- The line is one of `socket`, and so the last of those.
        refine (lastOf_eq ?_ hpath).symm
        rw [hswap, hfront, List.filter_append, List.filter_singleton, hdir]
        simp
      · exact h hdir

/-- Every setting follows from the lines of its own directive exactly when no line of
`socket_uid` asks for a user, and none of them is taken for the path. -/
theorem settings_apart_iff {text : List UInt8}
    (hlines : ∀ line ∈ Scan.lines text, line.length ≤ 255) :
    (bcConfigLoad (.text text)).2 = ownConfig (lineStrings text) ↔
      SocketApart (lineStrings text) := by
  rw [load_config hlines, BcConfig.ext_iff]
  simp only [true_and, and_true]
  constructor
  · rintro ⟨hpath, huid⟩
    exact ⟨huid.symm, (socketPath_iff _).mp hpath⟩
  · rintro ⟨huid, hpath⟩
    exact ⟨(socketPath_iff _).mpr hpath, huid.symm⟩

/-- No text sets the user. -/
theorem loadLoop_socketUid (rounds : ℕ) (text : List UInt8) (cfg : BcConfig) :
    (loadLoop rounds text cfg).socketUid = cfg.socketUid := by
  induction rounds generalizing text cfg with
  | zero => rfl
  | succ rounds ih =>
    rw [loadLoop]
    split_ifs
    · rfl
    · exact (ih _ _).trans (processLine_step cfg _).socketUid_eq

/-- Whatever user the file asks for, every peer is accepted. -/
theorem load_accepts (file : ConfigFile) (cred : Option UInt32) :
    acceptClientAuth (bcConfigLoad file).2.socketUid cred = .ok := by
  have huid : (bcConfigLoad file).2.socketUid = 0 := by
    cases file with
    | noPath => rfl
    | missing => rfl
    | text bytes => exact loadLoop_socketUid _ bytes _
  simp [acceptClientAuth, huid]

/-- A text that asks for a path and a node. -/
def apartText : List UInt8 :=
  word ['s', 'o', 'c', 'k', 'e', 't', ' ', '/', 'r', 'u', 'n', '/', 'b', '\n'] ++
    word ['n', 'o', 'd', 'e', '_', 'i', 'd', ' ', '7', '\n']

/-- A text that asks for a user and for nothing else. -/
def uidText : List UInt8 :=
  word ['s', 'o', 'c', 'k', 'e', 't', '_', 'u', 'i', 'd', ' ', '5', '\n']

theorem settings_apart_iff_socket :
    (bcConfigLoad (.text apartText)).2 = ownConfig (lineStrings apartText) ↔
      SocketApart (lineStrings apartText) :=
  settings_apart_iff (by decide +kernel)

/-- What follows `socket` in the keyword of the user is taken for the path. -/
theorem uid_taken_for_path :
    ¬ ∀ text, (∀ line ∈ Scan.lines text, line.length ≤ 255) →
      (bcConfigLoad (.text text)).2 = ownConfig (lineStrings text) := by
  intro h
  have hload := h uidText (by decide +kernel)
  have hpath : (bcConfigLoad (.text uidText)).2.socketPath = word ['_', 'u', 'i', 'd'] := by
    decide +kernel
  have hown : (ownConfig (lineStrings uidText)).socketPath = bcDefaultSocketPath := by
    decide +kernel
  rw [hload, hown] at hpath
  revert hpath
  decide +kernel

end Result

end BoardComm.Config
