import BoardComm.CBuffer
import BoardComm.Router
import BoardComm.Scan

/-!
# The configuration file

Every line is tried against the patterns of the directives in a fixed order, and
the first one that it matches decides what is done with it.
-/
namespace BoardComm

open Scan (word literal token)

/-- `bc_transport_type_t`. -/
inductive BcTransportType
  | udp
  | udpKcp
  | tcp
  | uart
  deriving DecidableEq, Repr

abbrev bcMaxTransports : ℕ := 8
abbrev bcMaxRoutes : ℕ := 32
abbrev bcMaxChannels : ℕ := 32

abbrev bcTcpRoleAuto : ℤ := -1
abbrev bcUartMode232 : ℤ := 0
abbrev bcUartMode485 : ℤ := 1
abbrev bcUartGpioNone : ℤ := -1

/-- `bc_transport_config_t`. -/
structure TransportConfig where
  name : List UInt8
  type : BcTransportType
  endpoint : List UInt8
  localPort : ℤ
  baudrate : ℤ
  tcpListen : ℤ
  kcpConv : ℤ
  uartMode : ℤ
  rs485DeGpio : ℤ
  deriving DecidableEq, Repr

/-- `bc_config_t`. -/
@[ext] structure BcConfig where
  nodeId : UInt32
  socketPath : List UInt8
  socketUid : UInt32
  requireRoute : Bool
  bridgeBroadcast : Bool
  plugins : List (List UInt8)
  transports : List TransportConfig
  channels : List ChannelConfig
  routes : List RouteConfig
  deriving DecidableEq, Repr

namespace Config

section Words

def tcp := word ['t', 'c', 'p']
def uart := word ['u', 'a', 'r', 't']
def uart232 := word ['u', 'a', 'r', 't', '2', '3', '2']
def uart485 := word ['u', 'a', 'r', 't', '4', '8', '5']
def rs485 := word ['r', 's', '4', '8', '5']
def udpkcp := word ['u', 'd', 'p', 'k', 'c', 'p']
def udp0 := word ['u', 'd', 'p', '0']
def mode485 := word ['4', '8', '5']
def mode485Gpio := word ['4', '8', '5', ':']
def mode232 := word ['2', '3', '2']
def server := word ['s', 'e', 'r', 'v', 'e', 'r']
def listen := word ['l', 'i', 's', 't', 'e', 'n']
def client := word ['c', 'l', 'i', 'e', 'n', 't']
def connect := word ['c', 'o', 'n', 'n', 'e', 'c', 't']

def nodeId := word ['n', 'o', 'd', 'e', '_', 'i', 'd']
def socket := word ['s', 'o', 'c', 'k', 'e', 't']
def socketUid := word ['s', 'o', 'c', 'k', 'e', 't', '_', 'u', 'i', 'd']
def requireRoute := word ['r', 'e', 'q', 'u', 'i', 'r', 'e', '_', 'r', 'o', 'u', 't', 'e']
def noBridge := word ['n', 'o', '_', 'b', 'r', 'i', 'd', 'g', 'e']
def plugin := word ['p', 'l', 'u', 'g', 'i', 'n']
def transport := word ['t', 'r', 'a', 'n', 's', 'p', 'o', 'r', 't']
def channel := word ['c', 'h', 'a', 'n', 'n', 'e', 'l']
def route := word ['r', 'o', 'u', 't', 'e']

/-- `BC_DEFAULT_SOCKET_PATH`. -/
def bcDefaultSocketPath := word ['/', 't', 'm', 'p', '/', 'b', 'o', 'a', 'r', 'd', 'c', 'o', 'm',
  'm', 'd', '.', 's', 'o', 'c', 'k']

end Words

section Transports

/-- `parse_transport_type`. -/
def parseTransportType (value : List UInt8) : BcTransportType :=
  if value = tcp then .tcp
  else if value = uart ∨ value = uart232 ∨ value = uart485 ∨ value = rs485 then .uart
  else if value = udpkcp then .udpKcp
  else .udp

/-- `parse_kcp_conv`. No `extra` is an empty one. -/
def parseKcpConv (transport : TransportConfig) (extra : List UInt8) : TransportConfig :=
  let transport := { transport with kcpConv := 0 }
  if extra = [] then transport
  else if Scan.atoi extra > 0 then { transport with kcpConv := Scan.atoi extra }
  else transport

/-- `parse_uart_options`. -/
def parseUartOptions (transport : TransportConfig) (type extra : List UInt8) : TransportConfig :=
  let transport := { transport with
    uartMode := if type = uart485 ∨ type = rs485 then bcUartMode485 else bcUartMode232
    rs485DeGpio := bcUartGpioNone }
  if extra = [] then transport
  else if mode485Gpio <+: extra then
    { transport with uartMode := bcUartMode485, rs485DeGpio := Scan.atoi (extra.drop 4) }
  else if extra = mode485 then { transport with uartMode := bcUartMode485 }
  else if extra = mode232 then { transport with uartMode := bcUartMode232 }
  else if transport.uartMode = bcUartMode485 ∧ Scan.atoi extra ≥ 0 then
    { transport with rs485DeGpio := Scan.atoi extra }
  else transport

/-- `parse_tcp_role`. -/
def parseTcpRole (transport : TransportConfig) (role : List UInt8) : TransportConfig :=
  let transport := { transport with tcpListen := bcTcpRoleAuto }
  if role = [] then transport
  else if role = server ∨ role = listen then { transport with tcpListen := 1 }
  else if role = client ∨ role = connect then { transport with tcpListen := 0 }
  else transport

end Transports

section Patterns

/-- `"node_id %u"`. -/
def scanNodeId (line : List UInt8) : Option UInt32 := do
  let s ← literal nodeId line
  let (n, _) ← Scan.unsigned s
  some n

/-- `"socket %127s"`. -/
def scanSocket (line : List UInt8) : Option (List UInt8) := do
  let s ← literal socket line
  let (path, _) ← token 127 s
  some path

/-- `"socket_uid %u"`. -/
def scanSocketUid (line : List UInt8) : Option UInt32 := do
  let s ← literal socketUid line
  let (n, _) ← Scan.unsigned s
  some n

/-- `"%31s"`. -/
def scanKind (line : List UInt8) : Option (List UInt8) := (token 31 line).map Prod.fst

/-- `"plugin %127s"`. -/
def scanPlugin (line : List UInt8) : Option (List UInt8) := do
  let s ← literal plugin line
  let (path, _) ← token 127 s
  some path

/-- `"transport %31s %15s %127s %d %d %15s"`, with the transport that is made of at
least four fields. -/
def scanTransport (line : List UInt8) : Option TransportConfig := do
  let s ← literal transport line
  let (name, s) ← token 31 s
  let (type, s) ← token 15 s
  let (endpoint, s) ← token 127 s
  let (localPort, s) ← Scan.int s
  let baudrate := Scan.int s
  let role := baudrate.bind fun r => (token 15 r.2).map Prod.fst
  let config : TransportConfig :=
    { name := name, type := parseTransportType type, endpoint := endpoint, localPort := localPort
      baudrate := (baudrate.map Prod.fst).getD 0, tcpListen := bcTcpRoleAuto, kcpConv := 0
      uartMode := bcUartMode232, rs485DeGpio := bcUartGpioNone }
  match config.type, role with
  | .tcp, some role => some (parseTcpRole config role)
  | .udpKcp, some role => some (parseKcpConv config role)
  | .uart, role => some (parseUartOptions config type (role.getD []))
  | _, _ => some config

/-- `"channel %31s %31s"`. -/
def scanChannel (line : List UInt8) : Option ChannelConfig := do
  let s ← literal channel line
  let (name, s) ← token 31 s
  let (transport, _) ← token 31 s
  some ⟨name, transport⟩

/-- `"route %63s %31s"`. -/
def scanRoute (line : List UInt8) : Option RouteConfig := do
  let s ← literal route line
  let (topic, s) ← token 63 s
  let (transport, _) ← token 31 s
  some ⟨topic, transport⟩

end Patterns

/-- `bc_config_load_defaults`. -/
def bcConfigLoadDefaults : BcConfig :=
  { nodeId := 1, socketPath := bcDefaultSocketPath, socketUid := 0, requireRoute := false
    bridgeBroadcast := true, plugins := []
    transports := [{ name := udp0, type := .udp
                     endpoint := word ['1', '2', '7', '.', '0', '.', '0', '.', '1', ':', '9', '1',
                       '0', '1']
                     localPort := 9100, baudrate := 0, tcpListen := 0, kcpConv := 0, uartMode := 0
                     rs485DeGpio := 0 }]
    channels := [⟨word ['d', 'e', 'f', 'a', 'u', 'l', 't'], udp0⟩]
    routes := [⟨anyTopic, udp0⟩] }

/-- `transport_exists`. -/
def transportExists (cfg : BcConfig) (name : List UInt8) : Bool :=
  cfg.transports.any fun transport => transport.name = name

/-- `bc_config_validate`. -/
def bcConfigValidate (cfg : BcConfig) : BcStatus :=
  if cfg.nodeId = 0 then .invalid
  else if cfg.transports = [] then .notFound
  else if ¬ (cfg.transports.map (·.name)).Nodup then .invalid
  else if ¬ ∀ channel ∈ cfg.channels, transportExists cfg channel.transport = true then .notFound
  else if ¬ ∀ route ∈ cfg.routes, transportExists cfg route.transport = true then .notFound
  else .ok

/-- The directives that are told by the first word of their lines. -/
def processKind (cfg : BcConfig) (line : List UInt8) : BcConfig :=
  match scanKind line with
  | none => cfg
  | some kind =>
    if kind = plugin ∧ cfg.plugins.length < bcMaxTransports then
      { cfg with plugins := cfg.plugins ++ (scanPlugin line).toList }
    else if kind = transport ∧ cfg.transports.length < bcMaxTransports then
      { cfg with transports := cfg.transports ++ (scanTransport line).toList }
    else if kind = channel ∧ cfg.channels.length < bcMaxChannels then
      { cfg with channels := cfg.channels ++ (scanChannel line).toList }
    else if kind = route ∧ cfg.routes.length < bcMaxRoutes then
      { cfg with routes := cfg.routes ++ (scanRoute line).toList }
    else cfg

/-- The body of the loop of `bc_config_load`. -/
def processLine (cfg : BcConfig) (line : List UInt8) : BcConfig :=
  if line.head? = some 35 ∨ line.head? = some 10 then cfg
  else
    match scanNodeId line with
    | some n => { cfg with nodeId := n }
    | none =>
      match scanSocket line with
      | some path => { cfg with socketPath := path }
      | none =>
        match scanSocketUid line with
        | some uid => { cfg with socketUid := uid }
        | none =>
          if requireRoute <+: line then { cfg with requireRoute := true }
          else if noBridge <+: line then { cfg with bridgeBroadcast := false }
          else processKind cfg line

/-- The loop of `bc_config_load`. A line that is read has at least one byte. -/
def loadLoop : ℕ → List UInt8 → BcConfig → BcConfig
  | 0, _, cfg => cfg
  | rounds + 1, text, cfg =>
    if text = [] then cfg
    else
      let r := Scan.fgets 255 text
      loadLoop rounds r.2 (processLine cfg (CBuffer.cstr r.1))

/-- What stands behind the path of the configuration. -/
inductive ConfigFile
  | noPath
  | missing
  | text (bytes : List UInt8)
  deriving DecidableEq, Repr

/-- `bc_config_load`. -/
def bcConfigLoad : ConfigFile → BcStatus × BcConfig
  | .noPath => (bcConfigValidate bcConfigLoadDefaults, bcConfigLoadDefaults)
  | .missing => (.notFound, bcConfigLoadDefaults)
  | .text bytes =>
    let cfg := loadLoop bytes.length bytes { bcConfigLoadDefaults with
      plugins := [], transports := [], channels := [], routes := [] }
    (bcConfigValidate cfg, cfg)

end Config

end BoardComm
