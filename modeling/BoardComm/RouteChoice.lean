import BoardComm.Config

/-!
# The choice of a route

The validator checks that every transport that is named exists. The router takes the
first channel of the name, or else the first route that matches, and remembers the last
`*` on its way.
-/
namespace BoardComm

open Config (bcConfigValidate transportExists bcConfigLoadDefaults)

section Manager

/-- What the system makes of a configuration: whether a transport is initialised and
opened, and how the transport of a plugin is named if it is. -/
structure OpenIo where
  opens : TransportConfig → Bool
  plugin : List UInt8 → TransportConfig → Option (List UInt8)

/-- `load_plugin_transport`, on the names of the open transports. -/
def loadPluginTransport (io : OpenIo) (cfg : TransportConfig) (names : List (List UInt8))
    (path : List UInt8) : List (List UInt8) :=
  if names.length ≥ bcMaxTransports then names else names ++ (io.plugin path cfg).toList

/-- `bc_transport_manager_init`, with the names of the open transports. -/
def bcTransportManagerInit (io : OpenIo) (cfg : BcConfig) : BcStatus × List (List UInt8) :=
  let opened := ((cfg.transports.take bcMaxTransports).filter io.opens).map (·.name)
  let names := match cfg.transports with
    | [] => opened
    | first :: _ => cfg.plugins.foldl (loadPluginTransport io first) opened
  (if names.length > 0 then .ok else .notFound, names)

/-- `bc_router_init`. -/
def bcRouterInit (cfg : BcConfig) (names : List (List UInt8)) : BcRouter :=
  ⟨cfg.channels, cfg.routes, names⟩

/-- Every transport of the configuration is open, in its place. -/
def AllOpened (io : OpenIo) (cfg : BcConfig) : Prop :=
  cfg.transports.map (·.name) <+: (bcTransportManagerInit io cfg).2

instance (io : OpenIo) (cfg : BcConfig) : Decidable (AllOpened io cfg) :=
  inferInstanceAs (Decidable (_ <+: _))

theorem loadPluginTransport_isPrefix (io : OpenIo) (cfg : TransportConfig)
    (names : List (List UInt8)) (paths : List (List UInt8)) :
    names <+: paths.foldl (loadPluginTransport io cfg) names := by
  induction paths generalizing names with
  | nil => exact List.prefix_rfl
  | cons path paths ih =>
    refine List.IsPrefix.trans ?_ (ih _)
    unfold loadPluginTransport
    split_ifs
    · exact List.prefix_rfl
    · exact List.prefix_append _ _

/-- The arrays hold no more than eight transports, and plugins come behind them. -/
theorem allOpened_of_opens {io : OpenIo} {cfg : BcConfig}
    (hfit : cfg.transports.length ≤ bcMaxTransports)
    (hopen : ∀ t ∈ cfg.transports, io.opens t = true) : AllOpened io cfg := by
  have hopened : (cfg.transports.take bcMaxTransports).filter io.opens = cfg.transports := by
    rw [List.take_of_length_le hfit, List.filter_eq_self]
    exact hopen
  unfold AllOpened bcTransportManagerInit
  rw [hopened]
  cases cfg.transports with
  | nil => exact List.prefix_rfl
  | cons first rest => exact loadPluginTransport_isPrefix io first _ cfg.plugins

end Manager

section Choice

/-- The route for a topic: the first that is no `*` and matches, or else the last `*`. -/
def chosenRoute (topic : List UInt8) (routes : List RouteConfig) : Option RouteConfig :=
  ((routes.filter (·.topic ≠ anyTopic)).find? fun route => bcTopicMatches route.topic topic).or
    (routes.filter (·.topic = anyTopic)).getLast?

/-- The name of the transport that the configuration asks for. -/
def askedTransport (cfg : BcConfig) (msg : BcMessage) : Option (List UInt8) :=
  if msg.channel.str ≠ [] then
    (cfg.channels.find? fun channel => channel.name = msg.channel.str).map (·.transport)
  else (chosenRoute msg.topic.str cfg.routes).map (·.transport)

/-- The `*` lines are moved among the others, and neither change their order. -/
structure StarsMoved (routes routes' : List RouteConfig) : Prop where
  stars : routes'.filter (·.topic = anyTopic) = routes.filter (·.topic = anyTopic)
  others : routes'.filter (·.topic ≠ anyTopic) = routes.filter (·.topic ≠ anyTopic)

variable {router : BcRouter} {topic : List UInt8}

/-- The loop over the routes comes to the chosen one, or to the `*` that it has seen. -/
theorem routeTopic_eq (routes : List RouteConfig) (fallback : Option RouteConfig) :
    routeTopic router topic routes
        (fallback.bind fun route => findTransport router route.transport) =
      ((chosenRoute topic routes).or fallback).bind
        fun route => findTransport router route.transport := by
  induction routes generalizing fallback with
  | nil => rfl
  | cons route routes ih =>
    unfold routeTopic
    by_cases hstar : route.topic = anyTopic
    · -- the `*` takes the place of the one before
      have hnext := ih (some route)
      rw [if_pos hstar]
      refine hnext.trans ?_
      have hother : (decide (route.topic ≠ anyTopic)) = false := by simp [hstar]
      have hlast : chosenRoute topic (route :: routes) =
          (chosenRoute topic routes).or (some route) := by
        unfold chosenRoute
        rw [List.filter_cons_of_neg (by simp [hstar]), List.filter_cons_of_pos (by simp [hstar]),
          List.getLast?_cons, Option.or_assoc]
        cases (routes.filter (·.topic = anyTopic)).getLast? <;> rfl
      rw [hlast, Option.or_assoc]
      rfl
    · have hrest : (route :: routes).filter (·.topic = anyTopic) =
          routes.filter (·.topic = anyTopic) := List.filter_cons_of_neg (by simp [hstar])
      have hothers : (route :: routes).filter (·.topic ≠ anyTopic) =
          route :: routes.filter (·.topic ≠ anyTopic) := List.filter_cons_of_pos (by simp [hstar])
      rw [if_neg hstar]
      split_ifs with hmatch
      · have hfirst : chosenRoute topic (route :: routes) = some route := by
          simp only [chosenRoute, hothers, List.find?_cons, hmatch, Option.some_or]
        rw [hfirst]
        rfl
      · have hsame : chosenRoute topic (route :: routes) = chosenRoute topic routes := by
          simp only [chosenRoute, hothers, hrest, List.find?_cons, hmatch]
        rw [hsame]
        exact ih fallback

/-- What the router does with a message is to look up the transport that is asked for. -/
theorem bcRouterRoute_eq (cfg : BcConfig) (names : List (List UInt8)) (msg : BcMessage) :
    bcRouterRoute (bcRouterInit cfg names) msg =
      (askedTransport cfg msg).bind (findTransport (bcRouterInit cfg names)) := by
  unfold bcRouterRoute askedTransport
  split_ifs with hchannel
  · have hchannels : (bcRouterInit cfg names).channels = cfg.channels := rfl
    rw [hchannels]
    cases cfg.channels.find? fun channel => channel.name = msg.channel.str <;> rfl
  · have hroute := @routeTopic_eq (bcRouterInit cfg names) msg.topic.str cfg.routes none
    rw [Option.or_none] at hroute
    rw [Option.bind_map]
    exact hroute

theorem StarsMoved.chosenRoute_eq {routes routes' : List RouteConfig}
    (h : StarsMoved routes routes') (topic : List UInt8) : chosenRoute topic routes' = chosenRoute topic routes := by
  rw [chosenRoute, chosenRoute, h.stars, h.others]

end Choice

section Validated

variable {cfg : BcConfig}

/-- What the validator makes sure of. -/
theorem transportExists_of_validate (h : bcConfigValidate cfg = .ok) :
    (∀ channel ∈ cfg.channels, transportExists cfg channel.transport = true) ∧
      ∀ route ∈ cfg.routes, transportExists cfg route.transport = true := by
  unfold bcConfigValidate at h
  split_ifs at h with h₁ h₂ h₃ h₄ h₅
  exact ⟨h₄, h₅⟩

/-- Whatever is asked for exists. -/
theorem transportExists_of_asked (h : bcConfigValidate cfg = .ok) {msg : BcMessage}
    {name : List UInt8} (hname : askedTransport cfg msg = some name) :
    transportExists cfg name = true := by
  obtain ⟨hchannels, hroutes⟩ := transportExists_of_validate h
  unfold askedTransport at hname
  split_ifs at hname with hchannel
  · obtain ⟨channel, hfind, rfl⟩ := Option.map_eq_some_iff.mp hname
    exact hchannels channel (List.mem_of_find?_eq_some hfind)
  · obtain ⟨route, hfind, rfl⟩ := Option.map_eq_some_iff.mp hname
    apply hroutes
    rw [chosenRoute, Option.or_eq_some_iff] at hfind
    rcases hfind with hfirst | ⟨-, hlast⟩
    · exact List.mem_of_mem_filter (List.mem_of_find?_eq_some hfirst)
    · exact List.mem_of_mem_filter (List.mem_of_getLast? hlast)

/-- A transport that exists is found where the configuration has it. -/
theorem findTransport_of_exists {names : List (List UInt8)}
    (hopen : cfg.transports.map (·.name) <+: names) {name : List UInt8}
    (h : transportExists cfg name = true) :
    findTransport (bcRouterInit cfg names) name =
      cfg.transports.findIdx? (·.name = name) ∧
      (cfg.transports.findIdx? (·.name = name)).isSome = true := by
  have hfound : (cfg.transports.findIdx? (·.name = name)).isSome = true := by
    rw [List.findIdx?_isSome]
    exact h
  obtain ⟨rest, rfl⟩ := hopen
  obtain ⟨i, hi⟩ := Option.isSome_iff_exists.mp hfound
  refine ⟨?_, hfound⟩
  have hnames : (cfg.transports.map (·.name)).findIdx? (· = name) = some i := by
    rw [List.findIdx?_map]
    exact hi
  rw [findTransport, bcRouterInit, List.findIdx?_append, hnames, hi]
  rfl

end Validated

/-- With every transport open, an accepted configuration routes every message to the
transport that it asks for, at the place where the configuration has it. Nothing is
found only if nothing is asked for. Moving the `*` lines changes nothing. -/
theorem routing_agrees_with_validation (io : OpenIo) (cfg : BcConfig)
    (hvalid : bcConfigValidate cfg = .ok) (hopen : AllOpened io cfg) (msg : BcMessage) :
    let route := fun cfg => bcRouterRoute (bcRouterInit cfg (bcTransportManagerInit io cfg).2) msg
    route cfg = (askedTransport cfg msg).bind (fun name =>
        cfg.transports.findIdx? (·.name = name)) ∧
      (route cfg = none ↔ askedTransport cfg msg = none) ∧
      ∀ routes', StarsMoved cfg.routes routes' →
        route { cfg with routes := routes' } = route cfg := by
  have hroute := bcRouterRoute_eq cfg (bcTransportManagerInit io cfg).2 msg
  have hfound : ∀ name, askedTransport cfg msg = some name → _ := fun name hname =>
    findTransport_of_exists hopen (transportExists_of_asked hvalid hname)
  dsimp only
  rw [hroute]
  refine ⟨?_, ?_, ?_⟩
  · cases hasked : askedTransport cfg msg with
    | none => rfl
    | some name => exact (hfound name hasked).1
  · cases hasked : askedTransport cfg msg with
    | none => simp
    | some name =>
      obtain ⟨heq, hsome⟩ := hfound name hasked
      rw [Option.bind_some, heq]
      simp only [reduceCtorEq, iff_false]
      intro hnone
      rw [hnone] at hsome
      cases hsome
  · intro routes' hmoved
    have hasked : askedTransport { cfg with routes := routes' } msg = askedTransport cfg msg := by
      unfold askedTransport
      rw [hmoved.chosenRoute_eq]
    rw [bcRouterRoute_eq, hasked]
    rfl

/-- A message on the channel `default`. -/
def defaultChannelMessage : BcMessage :=
  { BcMessage.zero with
    channel := .ofPrefix _ [0x64, 0x65, 0x66, 0x61, 0x75, 0x6c, 0x74]
    topic := .ofPrefix _ [0x74] }

theorem routing_agrees_with_validation_default :
    let io : OpenIo := ⟨fun _ => true, fun _ _ => none⟩
    let route := fun cfg => bcRouterRoute (bcRouterInit cfg (bcTransportManagerInit io cfg).2)
      defaultChannelMessage
    (route bcConfigLoadDefaults = none ↔
      askedTransport bcConfigLoadDefaults defaultChannelMessage = none) ∧
    route bcConfigLoadDefaults = some 0 :=
  ⟨(routing_agrees_with_validation ⟨fun _ => true, fun _ _ => none⟩ bcConfigLoadDefaults
    (by decide +kernel) (allOpened_of_opens (by decide) fun _ _ => rfl) defaultChannelMessage).2.1,
    by decide +kernel⟩

end BoardComm
