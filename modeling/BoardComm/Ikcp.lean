import BoardComm.ByteLayout
import BoardComm.SerialNumbers

/-!
# The KCP session

`ikcp.c` sends messages over datagrams that may be lost, doubled and reordered. Messages
are cut into numbered segments, which are kept until they are acknowledged, and put in
order again at the other end. No congestion module is installed, messages are not
joined to a stream, and allocations succeed. Signed arithmetic wraps around.
-/
namespace BoardComm.Ikcp

abbrev ikcpRtoNdl : UInt32 := 30
abbrev ikcpRtoMin : UInt32 := 100
abbrev ikcpRtoDef : UInt32 := 200
abbrev ikcpRtoMax : UInt32 := 60000
abbrev ikcpCmdPush : UInt32 := 81
abbrev ikcpCmdAck : UInt32 := 82
abbrev ikcpCmdWask : UInt32 := 83
abbrev ikcpCmdWins : UInt32 := 84
abbrev ikcpWndSnd : UInt32 := 32
abbrev ikcpWndRcv : UInt32 := 128
abbrev ikcpMtuDef : UInt32 := 1400
abbrev ikcpInterval : UInt32 := 100
abbrev ikcpOverhead : ℕ := 24
abbrev ikcpDeadlink : UInt32 := 20
abbrev ikcpThreshInit : UInt32 := 2
abbrev ikcpThreshMin : UInt32 := 2
abbrev ikcpProbeInit : UInt32 := 5000
abbrev ikcpProbeLimit : UInt32 := 120000
abbrev ikcpFastackLimit : Int32 := 5

/-- `_imin_`. -/
def imin (a b : UInt32) : UInt32 := if a ≤ b then a else b

/-- `_imax_`. -/
def imax (a b : UInt32) : UInt32 := if a ≥ b then a else b

/-- `_ibound_`. -/
def ibound (lower middle upper : UInt32) : UInt32 := imin (imax lower middle) upper

/-- `_itimediff`. -/
def itimediff (later earlier : UInt32) : ℤ := Serial.diff later.toBitVec earlier.toBitVec

/-- `IKCPSEG`. Its `len` is the length of the data; what is not assigned yet is zero. -/
structure IkcpSeg where
  conv : UInt32 := 0
  cmd : UInt32 := 0
  frg : UInt32 := 0
  wnd : UInt32 := 0
  ts : UInt32 := 0
  sn : UInt32 := 0
  una : UInt32 := 0
  resendts : UInt32 := 0
  rto : UInt32 := 0
  fastack : UInt32 := 0
  xmit : UInt32 := 0
  data : List UInt8 := []
  deriving DecidableEq, Repr

/-- `IKCPCB`. The acknowledgements that wait are a list of `sn` and `ts`. -/
structure Ikcpcb where
  conv : UInt32
  mtu : UInt32
  mss : UInt32
  state : UInt32
  sndUna : UInt32
  sndNxt : UInt32
  rcvNxt : UInt32
  ssthresh : UInt32
  rxRttval : Int32
  rxSrtt : Int32
  rxRto : Int32
  rxMinrto : Int32
  sndWnd : UInt32
  rcvWnd : UInt32
  rmtWnd : UInt32
  cwnd : UInt32
  askSend : Bool
  askTell : Bool
  current : UInt32
  interval : UInt32
  tsFlush : UInt32
  xmit : UInt32
  nrcvBuf : UInt32
  nsndBuf : UInt32
  nrcvQue : UInt32
  nsndQue : UInt32
  nodelay : UInt32
  updated : Bool
  tsProbe : UInt32
  probeWait : UInt32
  deadLink : UInt32
  incr : UInt32
  sndQueue : List IkcpSeg
  rcvQueue : List IkcpSeg
  sndBuf : List IkcpSeg
  rcvBuf : List IkcpSeg
  acklist : List (UInt32 × UInt32)
  fastresend : Int32
  fastlimit : Int32
  nocwnd : Int32
  deriving DecidableEq, Repr

/-- `ikcp_create`. -/
def ikcpCreate (conv : UInt32) : Ikcpcb where
  conv := conv
  mtu := ikcpMtuDef
  mss := ikcpMtuDef - UInt32.ofNat ikcpOverhead
  state := 0
  sndUna := 0
  sndNxt := 0
  rcvNxt := 0
  ssthresh := ikcpThreshInit
  rxRttval := 0
  rxSrtt := 0
  rxRto := ikcpRtoDef.toInt32
  rxMinrto := ikcpRtoMin.toInt32
  sndWnd := ikcpWndSnd
  rcvWnd := ikcpWndRcv
  rmtWnd := ikcpWndRcv
  cwnd := 0
  askSend := false
  askTell := false
  current := 0
  interval := ikcpInterval
  tsFlush := ikcpInterval
  xmit := 0
  nrcvBuf := 0
  nsndBuf := 0
  nrcvQue := 0
  nsndQue := 0
  nodelay := 0
  updated := false
  tsProbe := 0
  probeWait := 0
  deadLink := ikcpDeadlink
  incr := 0
  sndQueue := []
  rcvQueue := []
  sndBuf := []
  rcvBuf := []
  acklist := []
  fastresend := 0
  fastlimit := ikcpFastackLimit
  nocwnd := 0

/-- `ikcp_nodelay`. -/
def ikcpNodelay (kcp : Ikcpcb) (nodelay interval resend nc : Int32) : Ikcpcb :=
  let kcp :=
    if nodelay ≥ 0 then
      { kcp with
        nodelay := nodelay.toUInt32
        rxMinrto := if nodelay ≠ 0 then ikcpRtoNdl.toInt32 else ikcpRtoMin.toInt32 }
    else kcp
  let kcp :=
    if interval ≥ 0 then
      let interval := if interval > 5000 then 5000 else if interval < 10 then 10 else interval
      { kcp with interval := interval.toUInt32 }
    else kcp
  let kcp := if resend ≥ 0 then { kcp with fastresend := resend } else kcp
  if nc ≥ 0 then { kcp with nocwnd := nc } else kcp

/-- `ikcp_wndsize`. -/
def ikcpWndsize (kcp : Ikcpcb) (sndwnd rcvwnd : Int32) : Ikcpcb :=
  let kcp := if sndwnd > 0 then { kcp with sndWnd := sndwnd.toUInt32 } else kcp
  if rcvwnd > 0 then { kcp with rcvWnd := imax rcvwnd.toUInt32 ikcpWndRcv } else kcp

section Receiving

/-- The loop that moves available data from `rcv_buf` to `rcv_queue`, over the segments
of the buffer. -/
def moveReady : List IkcpSeg → Ikcpcb → Ikcpcb
  | [], kcp => { kcp with rcvBuf := [] }
  | seg :: segs, kcp =>
    if seg.sn = kcp.rcvNxt ∧ kcp.nrcvQue < kcp.rcvWnd then
      moveReady segs { kcp with
        nrcvBuf := kcp.nrcvBuf - 1
        rcvQueue := kcp.rcvQueue ++ [seg]
        nrcvQue := kcp.nrcvQue + 1
        rcvNxt := kcp.rcvNxt + 1 }
    else { kcp with rcvBuf := seg :: segs }

/-- The loop of `ikcp_peeksize`. -/
def peekLoop : List IkcpSeg → ℕ
  | [] => 0
  | seg :: segs => if seg.frg = 0 then seg.data.length else seg.data.length + peekLoop segs

/-- `ikcp_peeksize`, or none for its error. -/
def ikcpPeeksize (kcp : Ikcpcb) : Option ℕ :=
  match kcp.rcvQueue with
  | [] => none
  | seg :: _ =>
    if seg.frg = 0 then some seg.data.length
    else if kcp.nrcvQue < seg.frg + 1 then none
    else some (peekLoop kcp.rcvQueue)

/-- The loop of `ikcp_recv` that merges the pieces of a message, over the segments of the
queue. -/
def mergeLoop : List IkcpSeg → Ikcpcb → List UInt8 × Ikcpcb
  | [], kcp => ([], { kcp with rcvQueue := [] })
  | seg :: segs, kcp =>
    let kcp := { kcp with nrcvQue := kcp.nrcvQue - 1 }
    if seg.frg = 0 then (seg.data, { kcp with rcvQueue := segs })
    else
      let r := mergeLoop segs kcp
      (seg.data ++ r.1, r.2)

/-- `ikcp_recv` into an array of so many bytes. -/
def ikcpRecv (kcp : Ikcpcb) (len : ℕ) : Except ℤ (List UInt8) × Ikcpcb :=
  if kcp.rcvQueue = [] then (.error (-1), kcp)
  else
    match ikcpPeeksize kcp with
    | none => (.error (-2), kcp)
    | some peeksize =>
      if peeksize > len then (.error (-3), kcp)
      else
        let recover := kcp.nrcvQue ≥ kcp.rcvWnd
        let r := mergeLoop kcp.rcvQueue kcp
        let kcp := moveReady r.2.rcvBuf r.2
        let kcp :=
          if kcp.nrcvQue < kcp.rcvWnd ∧ recover then { kcp with askTell := true } else kcp
        (.ok r.1, kcp)

end Receiving

section Sending

/-- The loop of `ikcp_send` that makes so many segments of a message. -/
def pieceLoop (mss : ℕ) : ℕ → List UInt8 → List IkcpSeg
  | 0, _ => []
  | n + 1, buffer =>
    { frg := .ofNat n, data := buffer.take mss } :: pieceLoop mss n (buffer.drop mss)

/-- How many segments `ikcp_send` makes of a message. -/
def pieceCount (mss len : ℕ) : ℕ := if len ≤ mss then 1 else (len + mss - 1) / mss

/-- `ikcp_send`. -/
def ikcpSend (kcp : Ikcpcb) (buffer : List UInt8) : ℤ × Ikcpcb :=
  let count := pieceCount kcp.mss.toNat buffer.length
  if count ≥ ikcpWndRcv.toNat then (-2, kcp)
  else
    (buffer.length, { kcp with
      sndQueue := kcp.sndQueue ++ pieceLoop kcp.mss.toNat count buffer
      nsndQue := kcp.nsndQue + .ofNat count })

/-- `ikcp_waitsnd`. -/
def ikcpWaitsnd (kcp : Ikcpcb) : UInt32 := kcp.nsndBuf + kcp.nsndQue

end Sending

section Input

/-- `ikcp_update_ack`. -/
def ikcpUpdateAck (kcp : Ikcpcb) (rtt : Int32) : Ikcpcb :=
  let delta := (rtt - kcp.rxSrtt).toInt.natAbs
  let rttval :=
    if kcp.rxSrtt = 0 then rtt / 2
    else Int32.ofInt (((3 * kcp.rxRttval).toInt + delta).tdiv 4)
  let srtt :=
    if kcp.rxSrtt = 0 then rtt
    else
      let srtt := (7 * kcp.rxSrtt + rtt) / 8
      if srtt < 1 then 1 else srtt
  let rto := srtt.toUInt32 + imax kcp.interval (4 * rttval).toUInt32
  { kcp with
    rxRttval := rttval
    rxSrtt := srtt
    rxRto := (ibound kcp.rxMinrto.toUInt32 rto ikcpRtoMax).toInt32 }

/-- `ikcp_shrink_buf`. -/
def ikcpShrinkBuf (kcp : Ikcpcb) : Ikcpcb :=
  { kcp with
    sndUna :=
      match kcp.sndBuf with
      | seg :: _ => seg.sn
      | [] => kcp.sndNxt }

/-- The loop of `ikcp_parse_ack`: the segments without the one that is acknowledged, if
it is among them. -/
def parseAckLoop (sn : UInt32) : List IkcpSeg → Option (List IkcpSeg)
  | [] => none
  | seg :: segs =>
    if sn = seg.sn then some segs
    else if itimediff sn seg.sn < 0 then none
    else (parseAckLoop sn segs).map (seg :: ·)

/-- `ikcp_parse_ack`. -/
def ikcpParseAck (kcp : Ikcpcb) (sn : UInt32) : Ikcpcb :=
  if itimediff sn kcp.sndUna < 0 ∨ itimediff sn kcp.sndNxt ≥ 0 then kcp
  else
    match parseAckLoop sn kcp.sndBuf with
    | some segs => { kcp with sndBuf := segs, nsndBuf := kcp.nsndBuf - 1 }
    | none => kcp

/-- The loop of `ikcp_parse_una`, over the segments of the buffer. -/
def parseUnaLoop (una : UInt32) : List IkcpSeg → Ikcpcb → Ikcpcb
  | [], kcp => { kcp with sndBuf := [] }
  | seg :: segs, kcp =>
    if itimediff una seg.sn > 0 then parseUnaLoop una segs { kcp with nsndBuf := kcp.nsndBuf - 1 }
    else { kcp with sndBuf := seg :: segs }

/-- `ikcp_parse_una`. -/
def ikcpParseUna (kcp : Ikcpcb) (una : UInt32) : Ikcpcb := parseUnaLoop una kcp.sndBuf kcp

/-- The loop of `ikcp_parse_fastack`. -/
def parseFastackLoop (sn ts : UInt32) : List IkcpSeg → List IkcpSeg
  | [] => []
  | seg :: segs =>
    if itimediff sn seg.sn < 0 then seg :: segs
    else if sn ≠ seg.sn ∧ itimediff ts seg.ts ≥ 0 then
      { seg with fastack := seg.fastack + 1 } :: parseFastackLoop sn ts segs
    else seg :: parseFastackLoop sn ts segs

/-- `ikcp_parse_fastack`. -/
def ikcpParseFastack (kcp : Ikcpcb) (sn ts : UInt32) : Ikcpcb :=
  if itimediff sn kcp.sndUna < 0 ∨ itimediff sn kcp.sndNxt ≥ 0 then kcp
  else { kcp with sndBuf := parseFastackLoop sn ts kcp.sndBuf }

/-- `ikcp_ack_push`. -/
def ikcpAckPush (kcp : Ikcpcb) (sn ts : UInt32) : Ikcpcb :=
  { kcp with acklist := kcp.acklist ++ [(sn, ts)] }

/-- The search of `ikcp_parse_data` for the place of a segment, from the back of the
buffer; none if the buffer has the segment already. -/
def placeLoop (newseg : IkcpSeg) : List IkcpSeg → Option (List IkcpSeg)
  | [] => some [newseg]
  | seg :: segs =>
    if seg.sn = newseg.sn then none
    else if itimediff newseg.sn seg.sn > 0 then some (newseg :: seg :: segs)
    else (placeLoop newseg segs).map (seg :: ·)

/-- A segment is put into `rcv_buf`, unless it is there already. -/
def placeSegment (kcp : Ikcpcb) (newseg : IkcpSeg) : Ikcpcb :=
  match placeLoop newseg kcp.rcvBuf.reverse with
  | some segs => { kcp with rcvBuf := segs.reverse, nrcvBuf := kcp.nrcvBuf + 1 }
  | none => kcp

/-- `ikcp_parse_data`. -/
def ikcpParseData (kcp : Ikcpcb) (newseg : IkcpSeg) : Ikcpcb :=
  if itimediff newseg.sn (kcp.rcvNxt + kcp.rcvWnd) ≥ 0 ∨ itimediff newseg.sn kcp.rcvNxt < 0 then
    kcp
  else
    let kcp := placeSegment kcp newseg
    moveReady kcp.rcvBuf kcp

/-- The header of a segment in a datagram. -/
structure IkcpHead where
  conv : UInt32
  cmd : UInt8
  frg : UInt8
  wnd : UInt16
  ts : UInt32
  sn : UInt32
  una : UInt32
  len : UInt32
  deriving DecidableEq, Repr

/-- The acknowledgement with the highest number in a datagram: `maxack` and `latest_ts`
if `flag` is set. -/
abbrev Acked := Option (UInt32 × UInt32)

/-- What an acknowledgement makes of `maxack` and `latest_ts`. -/
def noteAck (acked : Acked) (sn ts : UInt32) : Acked :=
  match acked with
  | none => some (sn, ts)
  | some (maxack, latestTs) =>
    if itimediff sn maxack > 0 ∧ itimediff ts latestTs > 0 then some (sn, ts)
    else some (maxack, latestTs)

/-- What `ikcp_input` does with an acknowledgement. -/
def inputAck (kcp : Ikcpcb) (head : IkcpHead) : Ikcpcb :=
  let kcp :=
    if itimediff kcp.current head.ts ≥ 0 then
      ikcpUpdateAck kcp (kcp.current - head.ts).toInt32
    else kcp
  ikcpShrinkBuf (ikcpParseAck kcp head.sn)

/-- What `ikcp_input` does with data. -/
def inputPush (kcp : Ikcpcb) (head : IkcpHead) (data : List UInt8) : Ikcpcb :=
  if itimediff head.sn (kcp.rcvNxt + kcp.rcvWnd) < 0 then
    let kcp := ikcpAckPush kcp head.sn head.ts
    if itimediff head.sn kcp.rcvNxt ≥ 0 then
      let seg : IkcpSeg :=
        { conv := head.conv, cmd := head.cmd.toUInt32, frg := head.frg.toUInt32,
          wnd := head.wnd.toUInt32, ts := head.ts, sn := head.sn, una := head.una, data := data }
      ikcpParseData kcp seg
    else kcp
  else kcp

/-- The rest of the loop of `ikcp_input`, behind the checks of a segment. -/
def inputSegment (kcp : Ikcpcb) (acked : Acked) (head : IkcpHead) (data : List UInt8) :
    Ikcpcb × Acked :=
  let kcp := ikcpShrinkBuf (ikcpParseUna { kcp with rmtWnd := head.wnd.toUInt32 } head.una)
  if head.cmd.toUInt32 = ikcpCmdAck then (inputAck kcp head, noteAck acked head.sn head.ts)
  else if head.cmd.toUInt32 = ikcpCmdPush then (inputPush kcp head data, acked)
  else if head.cmd.toUInt32 = ikcpCmdWask then ({ kcp with askTell := true }, acked)
  else (kcp, acked)

namespace IkcpHead

/-- Widths of the fields, in the order in which they are written. -/
def widths : List ℕ := [4, 1, 1, 2, 4, 4, 4, 4]

def fields (head : IkcpHead) : List ℕ :=
  [head.conv.toNat, head.cmd.toNat, head.frg.toNat, head.wnd.toNat, head.ts.toNat,
    head.sn.toNat, head.una.toNat, head.len.toNat]

/-- What the functions `ikcp_encode32u`, `ikcp_encode8u` and `ikcp_encode16u` write. -/
def toBytes (head : IkcpHead) : List UInt8 := ByteLayout.pack (widths.zip head.fields)

def ofFields : List ℕ → IkcpHead
  | [conv, cmd, frg, wnd, ts, sn, una, len] =>
    ⟨.ofNat conv, .ofNat cmd, .ofNat frg, .ofNat wnd, .ofNat ts, .ofNat sn, .ofNat una, .ofNat len⟩
  | _ => ⟨0, 0, 0, 0, 0, 0, 0, 0⟩

/-- What the functions `ikcp_decode32u`, `ikcp_decode8u` and `ikcp_decode16u` read. -/
def ofBytes (data : List UInt8) : IkcpHead := ofFields (ByteLayout.unpack widths data)

/-- The command is one of the four that there are. -/
def Known (head : IkcpHead) : Prop :=
  head.cmd.toUInt32 = ikcpCmdPush ∨ head.cmd.toUInt32 = ikcpCmdAck ∨
    head.cmd.toUInt32 = ikcpCmdWask ∨ head.cmd.toUInt32 = ikcpCmdWins

instance (head : IkcpHead) : Decidable head.Known := inferInstanceAs (Decidable (_ ∨ _ ∨ _ ∨ _))

end IkcpHead

/-- The loop of `ikcp_input`, over what is left of the datagram. Every round takes a
header away, so that the length of the datagram is enough for the rounds. -/
def inputLoop : ℕ → List UInt8 → Ikcpcb → Acked → Except ℤ Acked × Ikcpcb
  | 0, _, kcp, acked => (.ok acked, kcp)
  | fuel + 1, data, kcp, acked =>
    if data.length < ikcpOverhead then (.ok acked, kcp)
    else
      let head := IkcpHead.ofBytes data
      let rest := data.drop ikcpOverhead
      if head.conv ≠ kcp.conv then (.error (-1), kcp)
      else if rest.length < head.len.toNat ∨ head.len.toInt32 < 0 then (.error (-2), kcp)
      else if ¬ head.Known then (.error (-3), kcp)
      else
        let r := inputSegment kcp acked head (rest.take head.len.toNat)
        inputLoop fuel (rest.drop head.len.toNat) r.1 r.2

/-- How the congestion window grows when segments were acknowledged. -/
def growCwnd (kcp : Ikcpcb) : Ikcpcb :=
  if kcp.cwnd < kcp.rmtWnd then
    let mss := kcp.mss
    let kcp : Ikcpcb :=
      if kcp.cwnd < kcp.ssthresh then { kcp with cwnd := kcp.cwnd + 1, incr := kcp.incr + mss }
      else
        let incr := if kcp.incr < mss then mss else kcp.incr
        let incr := incr + (mss * mss / incr + mss / 16)
        if (kcp.cwnd + 1) * mss ≤ incr then
          { kcp with cwnd := (incr + mss - 1) / (if mss > 0 then mss else 1), incr := incr }
        else { kcp with incr := incr }
    if kcp.cwnd > kcp.rmtWnd then { kcp with cwnd := kcp.rmtWnd, incr := kcp.rmtWnd * mss }
    else kcp
  else kcp

/-- The end of `ikcp_input`: the segments that later ones have overtaken are counted, and
the congestion window grows if `snd_una` has moved on from where it was. -/
def inputEnd (prevUna : UInt32) (kcp : Ikcpcb) (acked : Acked) : Ikcpcb :=
  let kcp :=
    match acked with
    | some (maxack, latestTs) => ikcpParseFastack kcp maxack latestTs
    | none => kcp
  if itimediff kcp.sndUna prevUna > 0 then growCwnd kcp else kcp

/-- `ikcp_input`. -/
def ikcpInput (kcp : Ikcpcb) (data : List UInt8) : ℤ × Ikcpcb :=
  if data.length < ikcpOverhead then (-1, kcp)
  else
    match inputLoop data.length data kcp none with
    | (.error rc, kcp') => (rc, kcp')
    | (.ok acked, kcp') => (0, inputEnd kcp.sndUna kcp' acked)

end Input

section Flush

/-- `ikcp_encode_seg`. -/
def ikcpEncodeSeg (seg : IkcpSeg) : List UInt8 :=
  IkcpHead.toBytes ⟨seg.conv, seg.cmd.toUInt8, seg.frg.toUInt8, seg.wnd.toUInt16, seg.ts, seg.sn,
    seg.una, .ofNat seg.data.length⟩

/-- `ikcp_wnd_unused`. -/
def ikcpWndUnused (kcp : Ikcpcb) : UInt32 :=
  if kcp.nrcvQue < kcp.rcvWnd then kcp.rcvWnd - kcp.nrcvQue else 0

/-- The bytes that stand in `kcp->buffer`, and the datagrams that were given to the
output function. -/
structure Flushing where
  buffer : List UInt8 := []
  output : List (List UInt8) := []
  deriving DecidableEq, Repr

/-- `ikcp_output` of the buffer, which is empty after it. -/
def Flushing.emit (f : Flushing) : Flushing :=
  if f.buffer.length = 0 then f else ⟨[], f.output ++ [f.buffer]⟩

/-- A segment is written behind the others, or into an empty buffer if it does not fit. -/
def Flushing.put (f : Flushing) (mtu : ℕ) (seg : IkcpSeg) : Flushing :=
  let f := if f.buffer.length + (ikcpOverhead + seg.data.length) > mtu then f.emit else f
  { f with buffer := f.buffer ++ (ikcpEncodeSeg seg ++ seg.data) }

/-- The loop of `ikcp_flush` over the acknowledgements. The segment keeps what the last
of them wrote to it. -/
def ackLoop (mtu : ℕ) : List (UInt32 × UInt32) → IkcpSeg → Flushing → IkcpSeg × Flushing
  | [], seg, f => (seg, f)
  | (sn, ts) :: acks, seg, f =>
    let seg := { seg with sn := sn, ts := ts }
    ackLoop mtu acks seg (f.put mtu seg)

/-- How `ikcp_flush` probes a remote window of size zero. -/
def probeWindow (kcp : Ikcpcb) : Ikcpcb :=
  if kcp.rmtWnd = 0 then
    if kcp.probeWait = 0 then
      { kcp with probeWait := ikcpProbeInit, tsProbe := kcp.current + ikcpProbeInit }
    else if itimediff kcp.current kcp.tsProbe ≥ 0 then
      let wait := if kcp.probeWait < ikcpProbeInit then ikcpProbeInit else kcp.probeWait
      let wait := wait + wait / 2
      let wait := if wait > ikcpProbeLimit then ikcpProbeLimit else wait
      { kcp with probeWait := wait, tsProbe := kcp.current + wait, askSend := true }
    else kcp
  else { kcp with tsProbe := 0, probeWait := 0 }

/-- The loop of `ikcp_flush` that moves data from `snd_queue` to `snd_buf`, over the
segments of the queue. -/
def fillLoop (cwnd wnd : UInt32) : List IkcpSeg → Ikcpcb → Ikcpcb
  | [], kcp => { kcp with sndQueue := [] }
  | newseg :: segs, kcp =>
    if itimediff kcp.sndNxt (kcp.sndUna + cwnd) < 0 then
      fillLoop cwnd wnd segs { kcp with
        sndBuf := kcp.sndBuf ++ [{ newseg with
          conv := kcp.conv, cmd := ikcpCmdPush, wnd := wnd, ts := kcp.current, sn := kcp.sndNxt,
          una := kcp.rcvNxt, resendts := kcp.current, rto := kcp.rxRto.toUInt32, fastack := 0,
          xmit := 0 }]
        nsndQue := kcp.nsndQue - 1
        nsndBuf := kcp.nsndBuf + 1
        sndNxt := kcp.sndNxt + 1 }
    else { kcp with sndQueue := newseg :: segs }

/-- What `ikcp_flush` does with a segment of `snd_buf`: it is sent for the first time, or
again because its time is over, or again because later ones were acknowledged. -/
inductive Sending
  | first
  | timeout
  | fast
  deriving DecidableEq, Repr

/-- Why a segment is to be sent, if it is. -/
def needsend (kcp : Ikcpcb) (resent : UInt32) (seg : IkcpSeg) : Option Sending :=
  if seg.xmit = 0 then some .first
  else if itimediff kcp.current seg.resendts ≥ 0 then some .timeout
  else if seg.fastack ≥ resent ∧ (seg.xmit.toInt32 ≤ kcp.fastlimit ∨ kcp.fastlimit ≤ 0) then
    some .fast
  else none

/-- The segment with the time of its next transmission. -/
def rescheduled (kcp : Ikcpcb) (rtomin : UInt32) (seg : IkcpSeg) : Sending → IkcpSeg
  | .first =>
    { seg with
      xmit := seg.xmit + 1, rto := kcp.rxRto.toUInt32,
      resendts := kcp.current + kcp.rxRto.toUInt32 + rtomin }
  | .timeout =>
    let rto :=
      if kcp.nodelay = 0 then seg.rto + imax seg.rto kcp.rxRto.toUInt32
      else
        let step := if kcp.nodelay < 2 then seg.rto.toInt32 else kcp.rxRto
        seg.rto + (step / 2).toUInt32
    { seg with xmit := seg.xmit + 1, rto := rto, resendts := kcp.current + rto }
  | .fast =>
    { seg with xmit := seg.xmit + 1, fastack := 0, resendts := kcp.current + seg.rto }

/-- What the loop over `snd_buf` carries along. -/
structure Resending where
  flushing : Flushing
  xmit : UInt32
  state : UInt32
  change : ℕ := 0
  lost : Bool := false
  deriving DecidableEq, Repr

/-- The round of the loop over `snd_buf` for a segment that is sent. -/
def resend (kcp : Ikcpcb) (wnd rtomin : UInt32) (r : Resending) (seg : IkcpSeg) (why : Sending) :
    Resending × IkcpSeg :=
  let seg :=
    { rescheduled kcp rtomin seg why with ts := kcp.current, wnd := wnd, una := kcp.rcvNxt }
  ({ flushing := r.flushing.put kcp.mtu.toNat seg
     xmit := if why = .timeout then r.xmit + 1 else r.xmit
     state := if seg.xmit ≥ kcp.deadLink then 0xffffffff else r.state
     change := if why = .fast then r.change + 1 else r.change
     lost := if why = .timeout then true else r.lost }, seg)

/-- The loop of `ikcp_flush` over `snd_buf`. -/
def resendLoop (kcp : Ikcpcb) (wnd resent rtomin : UInt32) :
    List IkcpSeg → Resending → Resending × List IkcpSeg
  | [], r => (r, [])
  | seg :: segs, r =>
    match needsend kcp resent seg with
    | some why =>
      let sent := resend kcp wnd rtomin r seg why
      let rest := resendLoop kcp wnd resent rtomin segs sent.1
      (rest.1, sent.2 :: rest.2)
    | none =>
      let rest := resendLoop kcp wnd resent rtomin segs r
      (rest.1, seg :: rest.2)

/-- `ssthresh`, `cwnd` and `incr` at the end of `ikcp_flush`. -/
def adjustCwnd (kcp : Ikcpcb) (priorCwnd resent : UInt32) (change : ℕ) (lost : Bool) : Ikcpcb :=
  let kcp :=
    if change ≠ 0 then
      let inflight := kcp.sndNxt - kcp.sndUna
      let ssthresh := if inflight / 2 < ikcpThreshMin then ikcpThreshMin else inflight / 2
      { kcp with
        ssthresh := ssthresh, cwnd := ssthresh + resent, incr := (ssthresh + resent) * kcp.mss }
    else kcp
  let kcp :=
    if lost = true then
      let ssthresh := if priorCwnd / 2 < ikcpThreshMin then ikcpThreshMin else priorCwnd / 2
      { kcp with ssthresh := ssthresh, cwnd := 1, incr := kcp.mss }
    else kcp
  if kcp.cwnd < 1 then { kcp with cwnd := 1, incr := kcp.mss } else kcp

/-- The window that `ikcp_flush` sends in. -/
def sendWindow (kcp : Ikcpcb) : UInt32 :=
  let cwnd := imin kcp.sndWnd kcp.rmtWnd
  if kcp.nocwnd = 0 then imin kcp.cwnd cwnd else cwnd

/-- The segment of the acknowledgements, as `ikcp_flush` fills it in. -/
def ackSegment (kcp : Ikcpcb) : IkcpSeg :=
  { conv := kcp.conv, cmd := ikcpCmdAck, wnd := ikcpWndUnused kcp, una := kcp.rcvNxt }

/-- The first part of `ikcp_flush`: the acknowledgements, and the questions and answers
about the window, which stand in the same segment. -/
def flushControl (kcp : Ikcpcb) : Ikcpcb × Flushing :=
  let mtu := kcp.mtu.toNat
  let acks := ackLoop mtu kcp.acklist (ackSegment kcp) {}
  let kcp := probeWindow { kcp with acklist := [] }
  let f := if kcp.askSend = true then acks.2.put mtu { acks.1 with cmd := ikcpCmdWask } else acks.2
  let f := if kcp.askTell = true then f.put mtu { acks.1 with cmd := ikcpCmdWins } else f
  ({ kcp with askSend := false, askTell := false }, f)

/-- What `ikcp_flush` takes for `resent`. -/
def flushResent (kcp : Ikcpcb) : UInt32 :=
  if kcp.fastresend > 0 then kcp.fastresend.toUInt32 else 0xffffffff

/-- The second part of `ikcp_flush`: the segments of `snd_buf` that are due, with what is
left in the buffer. -/
def flushData (kcp : Ikcpcb) (wnd priorCwnd : UInt32) (f : Flushing) :
    Ikcpcb × List (List UInt8) :=
  let resent := flushResent kcp
  let rtomin := if kcp.nodelay = 0 then (kcp.rxRto >>> 3).toUInt32 else 0
  let r := resendLoop kcp wnd resent rtomin kcp.sndBuf ⟨f, kcp.xmit, kcp.state, 0, false⟩
  let kcp := { kcp with sndBuf := r.2, xmit := r.1.xmit, state := r.1.state }
  (adjustCwnd kcp priorCwnd resent r.1.change r.1.lost, r.1.flushing.emit.output)

/-- `ikcp_flush`, with the datagrams that it puts out. -/
def ikcpFlush (kcp : Ikcpcb) : Ikcpcb × List (List UInt8) :=
  if kcp.updated = false then (kcp, [])
  else
    let control := flushControl kcp
    let wnd := ikcpWndUnused kcp
    let filled := fillLoop (sendWindow control.1) wnd control.1.sndQueue control.1
    flushData filled wnd kcp.cwnd control.2

/-- `ikcp_update`, with the datagrams that it puts out. -/
def ikcpUpdate (kcp : Ikcpcb) (current : UInt32) : Ikcpcb × List (List UInt8) :=
  let kcp := { kcp with current := current }
  let kcp := if kcp.updated = false then { kcp with updated := true, tsFlush := current } else kcp
  let slap := itimediff current kcp.tsFlush
  let far := slap ≥ 10000 ∨ slap < -10000
  let kcp := if far then { kcp with tsFlush := current } else kcp
  if far ∨ slap ≥ 0 then
    let tsFlush := kcp.tsFlush + kcp.interval
    let tsFlush := if itimediff current tsFlush ≥ 0 then current + kcp.interval else tsFlush
    ikcpFlush { kcp with tsFlush := tsFlush }
  else (kcp, [])

end Flush

end BoardComm.Ikcp
