import BoardComm.Types

/-!
# Topics and routes

Patterns, topics and names are C strings, given by the bytes before their end.
A transport is known by its position in the table of transports.
-/
namespace BoardComm

/-- The pattern `*`. -/
abbrev anyTopic : List UInt8 := [0x2a]

/-- `bc_topic_matches`. -/
def bcTopicMatches (pattern topic : List UInt8) : Bool :=
  if pattern = anyTopic then true
  else if pattern.getLast? = some 0x2a then pattern.dropLast.isPrefixOf topic
  else pattern = topic

/-- `bc_channel_config_t`. -/
structure ChannelConfig where
  name : List UInt8
  transport : List UInt8
  deriving DecidableEq, Repr

/-- `bc_route_config_t`. -/
structure RouteConfig where
  topic : List UInt8
  transport : List UInt8
  deriving DecidableEq, Repr

/-- `bc_router_t`, with the lists of its configuration and the names of the
transports. -/
structure BcRouter where
  channels : List ChannelConfig
  routes : List RouteConfig
  transports : List (List UInt8)
  deriving DecidableEq, Repr

/-- `find_transport`. -/
def findTransport (router : BcRouter) (name : List UInt8) : Option ℕ :=
  router.transports.findIdx? (· = name)

/-- The loop of `bc_router_route` over the routes, with the transport of the last
`*` route seen so far. -/
def routeTopic (router : BcRouter) (topic : List UInt8) : List RouteConfig → Option ℕ → Option ℕ
  | [], fallback => fallback
  | route :: routes, fallback =>
    if route.topic = anyTopic then
      routeTopic router topic routes (findTransport router route.transport)
    else if bcTopicMatches route.topic topic = true then findTransport router route.transport
    else routeTopic router topic routes fallback

/-- `bc_router_route`; nothing stands for `BC_ERR_NOT_FOUND`. -/
def bcRouterRoute (router : BcRouter) (msg : BcMessage) : Option ℕ :=
  if msg.channel.str ≠ [] then
    match router.channels.find? fun channel => channel.name = msg.channel.str with
    | some channel => findTransport router channel.transport
    | none => none
  else routeTopic router msg.topic.str router.routes none

end BoardComm
