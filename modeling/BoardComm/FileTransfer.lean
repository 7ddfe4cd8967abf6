import BoardComm.ByteLayout
import BoardComm.Crc32
import BoardComm.Types

/-!
# File transfer

The sender and the receiver of `bc_file.c`, each as a state and a step for every
answer of the client library. Both write through `send_file_packet`; what they
write is listed with the step. Packets are bytes, parsed on arrival as in the
program. Files of version 1 are still understood by the receiver.
-/
namespace BoardComm

abbrev bcFilePktMagic : UInt16 := 0xBCF1
abbrev bcFilePktStart : UInt8 := 1
abbrev bcFilePktData : UInt8 := 2
abbrev bcFilePktEnd : UInt8 := 3
abbrev bcFilePktNack : UInt8 := 4
abbrev bcFilePktDone : UInt8 := 5
abbrev bcFilePktFlagV2 : UInt8 := 1
abbrev bcFileMetaV2Version : UInt8 := 2
abbrev bcFileNameMax : ℕ := 255
abbrev bcFileDataBodyMax : ℕ := bcMaxPayloadLen - 8
abbrev bcFileRetxWindow : ℕ := 256
abbrev bcFileEndWaitRounds : ℕ := 200

/-- `bc_file_pkt_hdr_t`. -/
structure FilePktHdr where
  magic : UInt16
  type : UInt8
  reserved : UInt8
  value : UInt32
  deriving DecidableEq, Repr

namespace FilePktHdr

/-- Widths of the fields in declaration order. -/
def widths : List ℕ := [2, 1, 1, 4]

/-- `sizeof(bc_file_pkt_hdr_t)`. -/
abbrev size : ℕ := 8

def toBytes (h : FilePktHdr) : List UInt8 :=
  ByteLayout.pack
    (widths.zip [h.magic.toNat, h.type.toNat, h.reserved.toNat, h.value.toNat])

def ofFields : List ℕ → FilePktHdr
  | [magic, type, reserved, value] => ⟨.ofNat magic, .ofNat type, .ofNat reserved, .ofNat value⟩
  | _ => ⟨0, 0, 0, 0⟩

def ofBytes (data : List UInt8) : FilePktHdr := ofFields (ByteLayout.unpack widths data)

/-- The version 2 flag. -/
def v2 (hdr : FilePktHdr) : Bool := hdr.reserved &&& bcFilePktFlagV2 != 0

@[simp] theorem v2_flag (magic : UInt16) (type : UInt8) (value : UInt32) :
    (⟨magic, type, bcFilePktFlagV2, value⟩ : FilePktHdr).v2 = true := by
  show (bcFilePktFlagV2 &&& bcFilePktFlagV2 != 0) = true
  decide

@[simp] theorem toBytes_length (h : FilePktHdr) : h.toBytes.length = size := by
  simp [toBytes, widths]

/-- A written header is read back, whatever follows it. -/
theorem ofBytes_toBytes_append (h : FilePktHdr) (rest : List UInt8) :
    ofBytes (h.toBytes ++ rest) = h := by
  have hfields := ByteLayout.unpack_pack_append
    (widths.zip [h.magic.toNat, h.type.toNat, h.reserved.toNat, h.value.toNat]) rest (by
      have h₁ := h.magic.toNat_lt
      have h₂ := h.type.toNat_lt
      have h₃ := h.reserved.toNat_lt
      have h₄ := h.value.toNat_lt
      intro f hf
      simp only [widths, List.zip_cons_cons, List.zip_nil_left, List.mem_cons, List.not_mem_nil,
        or_false] at hf
      rcases hf with rfl | rfl | rfl | rfl <;> assumption)
  change ofFields (ByteLayout.unpack widths _) = h
  rw [show widths = (widths.zip [h.magic.toNat, h.type.toNat, h.reserved.toNat,
    h.value.toNat]).map Prod.fst from rfl, toBytes, hfields]
  simp [widths, ofFields]

end FilePktHdr

/-- The bytes `send_file_packet` hands to `bc_write_ex`. What the two parties
send always fits, so the length check of the function never refuses. -/
def filePacket (type reserved : UInt8) (value : UInt32) (extra : List UInt8) : List UInt8 :=
  (⟨bcFilePktMagic, type, reserved, value⟩ : FilePktHdr).toBytes ++ extra

/-- `parse_file_packet`. -/
def parseFilePacket (payload : List UInt8) : Option (FilePktHdr × List UInt8) :=
  if payload.length < FilePktHdr.size then none
  else if (FilePktHdr.ofBytes payload).magic ≠ bcFilePktMagic then none
  else some (FilePktHdr.ofBytes payload, payload.drop FilePktHdr.size)

@[simp] theorem parseFilePacket_filePacket (type reserved : UInt8) (value : UInt32)
    (extra : List UInt8) :
    parseFilePacket (filePacket type reserved value extra) =
      some (⟨bcFilePktMagic, type, reserved, value⟩, extra) := by
  have hlen : ¬ (filePacket type reserved value extra).length < FilePktHdr.size := by
    simp [filePacket]
  rw [parseFilePacket, if_neg hlen]
  simp only [filePacket, FilePktHdr.ofBytes_toBytes_append]
  rw [if_neg (by simp), ← FilePktHdr.toBytes_length, List.drop_left]

/-- A 32-bit transfer id as it stands in a packet. -/
def idBytes (transferId : UInt32) : List UInt8 := ByteLayout.toLE 4 transferId.toNat

@[simp] theorem idBytes_length (transferId : UInt32) : (idBytes transferId).length = 4 := by
  simp [idBytes]

@[simp] theorem ofLE_idBytes (transferId : UInt32) :
    ByteLayout.ofLE (idBytes transferId) = transferId.toNat := by
  apply ByteLayout.ofLE_toLE
  exact transferId.toNat_lt

/-- The packet of `send_file_v2_control`. -/
def fileV2Control (type : UInt8) (value transferId : UInt32) : List UInt8 :=
  filePacket type bcFilePktFlagV2 value (idBytes transferId)

/-- `parse_file_v2_control`. -/
def parseFileV2Control (hdr : FilePktHdr) (extra : List UInt8) (expectType : UInt8)
    (expectTransferId : UInt32) : BcStatus :=
  if hdr.type ≠ expectType ∨ hdr.v2 = false ∨ extra.length ≠ 4 then .invalid
  else if ByteLayout.ofLE extra = expectTransferId.toNat then .ok
  else .notFound

/-- A control packet of the transfer passes exactly the test for its own type. -/
theorem parseFileV2Control_fileV2Control (type expectType : UInt8) (value transferId : UInt32) :
    parseFileV2Control ⟨bcFilePktMagic, type, bcFilePktFlagV2, value⟩ (idBytes transferId)
      expectType transferId = if type = expectType then .ok else .invalid := by
  by_cases h : type = expectType
  · simp [parseFileV2Control, h]
  · simp [parseFileV2Control, h]

/-- The results of `bc_read` that end a transfer. -/
abbrev ReadError : Type := { rc : BcStatus // rc ≠ .ok ∧ rc ≠ .timeout ∧ rc ≠ .notFound }

section Sender

/-- What one transfer is about: the file, as the pieces in which `read` returns
it, its name, the channel, and the transfer id drawn for it. -/
structure FileTransfer where
  transferId : UInt32
  name : List UInt8
  channel : List UInt8
  chunks : List (List UInt8)
  name_ne : name ≠ []
  name_le : name.length ≤ bcFileNameMax
  channel_lt : channel.length < bcMaxChannelLen
  chunk_ne : ∀ c ∈ chunks, c ≠ []
  chunk_le : ∀ c ∈ chunks, c.length ≤ bcFileDataBodyMax
  size_lt : chunks.flatten.length < 2 ^ 32

/-- The bytes of the file. -/
def FileTransfer.content (t : FileTransfer) : List UInt8 := t.chunks.flatten

/-- The meta data block of a START packet. -/
def FileTransfer.startMeta (t : FileTransfer) : List UInt8 :=
  bcFileMetaV2Version :: (idBytes t.transferId ++ ByteLayout.toLE 2 t.name.length ++ t.name
    ++ ByteLayout.toLE 2 t.channel.length ++ t.channel)

def FileTransfer.startPacket (t : FileTransfer) : List UInt8 :=
  filePacket bcFilePktStart bcFilePktFlagV2 (.ofNat t.content.length) t.startMeta

def fileDataPacket (seq : UInt32) (chunk : List UInt8) : List UInt8 :=
  filePacket bcFilePktData bcFilePktFlagV2 seq chunk

/-- The END packet for a running checksum. -/
def FileTransfer.endPacket (t : FileTransfer) (crc : UInt32) : List UInt8 :=
  fileV2Control bcFilePktEnd (~~~crc) t.transferId

/-- `bc_file_cache_slot_t`, where it is valid. -/
structure FileCacheSlot where
  seq : UInt32
  data : List UInt8
  deriving DecidableEq, Repr

abbrev FileCache : Type := Fin bcFileRetxWindow → Option FileCacheSlot

/-- `find_cache_slot`. -/
def findCacheSlot (cache : FileCache) (seq : UInt32) : Option FileCacheSlot :=
  ((List.finRange bcFileRetxWindow).filterMap cache).find? fun slot => slot.seq = seq

/-- `store_cache_slot`. -/
def storeCacheSlot (cache : FileCache) (seq : UInt32) (data : List UInt8) : FileCache :=
  Function.update cache (Fin.ofNat bcFileRetxWindow seq.toNat) (some ⟨seq, data⟩)

/-- Where `send_file_path` stands. While it waits it is inside
`sender_handle_controls`, in the given round, with the flags of that round. -/
inductive SendPhase
  | start
  | data
  | wait (round : ℕ) (doneSeen resentAny : Bool)
  | returned (rc : BcStatus)
  deriving DecidableEq, Repr

/-- The variables of `send_file_path`. -/
structure FileSend where
  phase : SendPhase
  seq : UInt32
  rest : List (List UInt8)
  crc : UInt32
  cache : FileCache

/-- The sender before the START packet. -/
def FileTransfer.sendStart (t : FileTransfer) : FileSend :=
  ⟨.start, 0, t.chunks, 0xffffffff, fun _ => none⟩

/-- What the sender is answered: the status of a write, the end of the file read
with an error, and while the sender waits a packet, nothing in time, or an error.
The status next to a packet or a timeout is that of the write it leads to. -/
inductive SendAnswer
  | write (rc : BcStatus)
  | fileError
  | read (payload : List UInt8) (rc : BcStatus)
  | timeout (rc : BcStatus)
  | readError (rc : ReadError)
  deriving DecidableEq, Repr

/-- `end_wait_rounds`. -/
def endWaitRounds (t : FileTransfer) : ℕ :=
  max bcFileEndWaitRounds ((t.content.length + (1024 * 1024 - 1)) / (1024 * 1024) * 50)

/-- One packet read by `sender_handle_controls`. -/
def senderHandlePacket (t : FileTransfer) (s : FileSend) (round : ℕ) (doneSeen resentAny : Bool)
    (payload : List UInt8) (rc : BcStatus) : FileSend × List (List UInt8) :=
  match parseFilePacket payload with
  | none => (s, [])
  | some (hdr, extra) =>
    if parseFileV2Control hdr extra bcFilePktDone t.transferId = .ok then
      ({ s with phase := .wait round true resentAny }, [])
    else if hdr.type = bcFilePktStart ∨ hdr.type = bcFilePktData ∨ hdr.type = bcFilePktEnd then
      (s, [])
    else if parseFileV2Control hdr extra bcFilePktNack t.transferId = .ok then
      if hdr.value ≥ s.seq then (s, [])
      else
        match findCacheSlot s.cache hdr.value with
        | none => ({ s with phase := .returned .io }, [])
        | some slot =>
          if rc = .ok then
            ({ s with phase := .wait round doneSeen true }, [fileDataPacket slot.seq slot.data])
          else ({ s with phase := .returned rc }, [])
    else (s, [])

/-- The end of a round of waiting: the transfer is done, or END is sent again
after a retransmission, and the next round begins if there is one. -/
def senderEndRound (t : FileTransfer) (s : FileSend) (round : ℕ) (doneSeen resentAny : Bool)
    (rc : BcStatus) : FileSend × List (List UInt8) :=
  if doneSeen = true then ({ s with phase := .returned .ok }, [])
  else if resentAny = true ∧ rc ≠ .ok then ({ s with phase := .returned rc }, [])
  else
    let phase := if round + 1 < endWaitRounds t then SendPhase.wait (round + 1) false false
      else .returned .timeout
    ({ s with phase := phase }, if resentAny = true then [t.endPacket s.crc] else [])

/-- One step of `send_file_path`, with the packets it writes. There is none for an
answer to a call that the sender has not made. -/
def sendFileStep (t : FileTransfer) (s : FileSend) (answer : SendAnswer) :
    Option (FileSend × List (List UInt8)) :=
  match s.phase, answer with
  | .start, .write rc =>
    if rc = .ok then some ({ s with phase := .data }, [t.startPacket])
    else some ({ s with phase := .returned rc }, [])
  | .data, .fileError => some ({ s with phase := .returned .io }, [])
  | .data, .write rc =>
    match s.rest with
    | chunk :: rest =>
      if rc = .ok then
        some ({ s with seq := s.seq + 1, rest := rest, crc := bcFileCrc32Update s.crc chunk,
                       cache := storeCacheSlot s.cache s.seq chunk },
          [fileDataPacket s.seq chunk])
      else some ({ s with phase := .returned rc }, [])
    | [] =>
      if rc = .ok then some ({ s with phase := .wait 0 false false }, [t.endPacket s.crc])
      else some ({ s with phase := .returned rc }, [])
  | .wait round doneSeen resentAny, .read payload rc =>
    some (senderHandlePacket t s round doneSeen resentAny payload rc)
  | .wait round doneSeen resentAny, .timeout rc =>
    some (senderEndRound t s round doneSeen resentAny rc)
  | .wait _ _ _, .readError rc => some ({ s with phase := .returned rc }, [])
  | _, _ => none

end Sender

section Receiver

/-- The variables of `recv_file_path` and the file at the destination. `exit` is
the value the function returned. -/
structure FileRecv where
  fp : Bool
  file : Option (List UInt8)
  expectedSize : UInt32
  received : UInt32
  expectedSeq : UInt32
  transferId : UInt32
  crc : UInt32
  endCrc : UInt32
  gotStart : Bool
  gotEnd : Bool
  v2Mode : Bool
  exit : Option BcStatus
  deriving DecidableEq, Repr

/-- The receiver before any packet. -/
def recvFileStart : FileRecv :=
  ⟨false, none, 0, 0, 0, 0, 0xffffffff, 0, false, false, false, none⟩

/-- Whether the C library opens the file and writes to it. -/
structure RecvIo where
  fopen : Bool
  fwrite : Bool
  deriving DecidableEq, Repr

/-- `parse_start_meta`, with the transfer id it leaves behind. The second
version stores the id before it checks the rest. -/
def parseStartMeta (extra expectChannel : List UInt8) (expectV2 : Bool) (transferId : UInt32) :
    BcStatus × UInt32 :=
  if expectV2 = true ∧ (extra.length < 9 ∨ extra.head? ≠ some bcFileMetaV2Version) then
    (.invalid, transferId)
  else if expectV2 = false ∧ extra.length < 4 then (.invalid, transferId)
  else
    let transferId := if expectV2 = true then .ofNat (ByteLayout.ofLE ((extra.drop 1).take 4))
      else transferId
    let off := if expectV2 = true then 5 else 0
    let nameLen := ByteLayout.ofLE ((extra.drop off).take 2)
    if nameLen = 0 ∨ nameLen > bcFileNameMax ∨ off + 2 + nameLen + 2 > extra.length then
      (.invalid, transferId)
    else
      let channelLen := ByteLayout.ofLE ((extra.drop (off + 2 + nameLen)).take 2)
      if channelLen ≥ bcMaxChannelLen ∨ off + 2 + nameLen + 2 + channelLen ≠ extra.length then
        (.invalid, transferId)
      else if expectChannel ≠ [] ∧
          (channelLen ≠ expectChannel.length ∨
            extra.drop (off + 2 + nameLen + 2) ≠ expectChannel) then
        (.invalid, transferId)
      else if expectChannel = [] ∧ channelLen ≠ 0 then (.invalid, transferId)
      else (.ok, transferId)

namespace FileRecv

/-- The request for the chunk that is missing. -/
def nack (r : FileRecv) : List (List UInt8) :=
  if r.v2Mode = true then [fileV2Control bcFilePktNack r.expectedSeq r.transferId] else []

/-- The receiver gives up and removes the file. -/
def fail (r : FileRecv) : FileRecv :=
  { r with fp := false, file := none, exit := some .io }

/-- All bytes are there: the checksum decides. -/
def finish (r : FileRecv) : FileRecv × List (List UInt8) :=
  if r.endCrc ≠ ~~~r.crc then (r.fail, [])
  else
    ({ r with fp := false, exit := some .ok },
      if r.v2Mode = true then [fileV2Control bcFilePktDone r.expectedSeq r.transferId] else [])

/-- A START packet. -/
def onStart (channel : List UInt8) (io : RecvIo) (r : FileRecv) (hdr : FilePktHdr)
    (extra : List UInt8) : FileRecv × List (List UInt8) :=
  if r.gotStart = true then (r, [])
  else
    match parseStartMeta extra channel hdr.v2 r.transferId with
    | (.ok, transferId) =>
      if io.fopen = false then
        ({ r with transferId := transferId, expectedSize := hdr.value, exit := some .io }, [])
      else
        ({ r with transferId := transferId, expectedSize := hdr.value, fp := true,
                  file := some [], gotStart := true, v2Mode := hdr.v2 }, [])
    | (_, transferId) => ({ r with transferId := transferId }, [])

/-- The bytes that a DATA packet is taken to carry: a leading transfer id is cut off. -/
def dataOf (r : FileRecv) (extra : List UInt8) : List UInt8 :=
  if r.v2Mode = true ∧ extra.length > 4 ∧ ByteLayout.ofLE (extra.take 4) = r.transferId.toNat then
    extra.drop 4
  else extra

/-- A chunk in its turn. -/
def accept (io : RecvIo) (r : FileRecv) (data : List UInt8) : FileRecv × List (List UInt8) :=
  if io.fwrite = false then (r.fail, [])
  else
    let r := { r with file := r.file.map (· ++ data), crc := bcFileCrc32Update r.crc data,
                      received := r.received + .ofNat data.length,
                      expectedSeq := r.expectedSeq + 1 }
    if r.gotEnd = true ∧ r.received = r.expectedSize then r.finish else (r, [])

/-- A DATA packet. -/
def onData (io : RecvIo) (r : FileRecv) (hdr : FilePktHdr) (extra : List UInt8) :
    FileRecv × List (List UInt8) :=
  if r.v2Mode = true ∧ (hdr.v2 = false ∨ extra.length = 0) then (r, [])
  else if (r.dataOf extra).length = 0 then (r, [])
  else if hdr.value < r.expectedSeq then (r, [])
  else if hdr.value > r.expectedSeq then (r, r.nack)
  else r.accept io (r.dataOf extra)

/-- The first END packet, when its checksum is stored. -/
def checkEnd (r : FileRecv) (hdr : FilePktHdr) (extra : List UInt8) :
    FileRecv × List (List UInt8) :=
  if r.v2Mode = true ∧ (hdr.v2 = false ∨ extra.length ≠ 4) then (r.fail, [])
  else if r.v2Mode = true ∧ ByteLayout.ofLE extra ≠ r.transferId.toNat then (r.fail, [])
  else if r.received ≠ r.expectedSize then (r, r.nack)
  else r.finish

/-- An END packet. -/
def onEnd (r : FileRecv) (hdr : FilePktHdr) (extra : List UInt8) : FileRecv × List (List UInt8) :=
  if r.gotEnd = true then (r, [])
  else checkEnd { r with gotEnd := true, endCrc := hdr.value } hdr extra

end FileRecv

/-- One packet read by `recv_file_path`, with the packets it writes. -/
def recvFilePacket (channel : List UInt8) (io : RecvIo) (r : FileRecv) (payload : List UInt8) :
    FileRecv × List (List UInt8) :=
  match parseFilePacket payload with
  | none => (r, [])
  | some (hdr, extra) =>
    if hdr.type = bcFilePktStart then r.onStart channel io hdr extra
    else if r.gotStart = false ∨ r.fp = false then (r, [])
    else if hdr.type = bcFilePktData then r.onData io hdr extra
    else if hdr.type = bcFilePktEnd then r.onEnd hdr extra
    else (r, [])

/-- `recv_file_path` when no packet comes in time. -/
def recvFileTimeout (r : FileRecv) : FileRecv × List (List UInt8) :=
  if r.gotStart = false then ({ r with exit := some .timeout }, [])
  else (r.fail, r.nack)

/-- `recv_file_path` when reading fails. -/
def recvFileError (rc : ReadError) (r : FileRecv) : FileRecv :=
  { r with fp := false, file := if r.fp = true then none else r.file, exit := some rc.val }

/-- What the receiver is answered when it reads. -/
inductive RecvFileAnswer
  | read (payload : List UInt8) (io : RecvIo)
  | timeout
  | readError (rc : ReadError)
  deriving DecidableEq, Repr

/-- One step of `recv_file_path`, with the packets it writes, until it returns. -/
def recvFileStep (channel : List UInt8) (r : FileRecv) (answer : RecvFileAnswer) :
    Option (FileRecv × List (List UInt8)) :=
  match r.exit, answer with
  | some _, _ => none
  | none, .read payload io => some (recvFilePacket channel io r payload)
  | none, .timeout => some (recvFileTimeout r)
  | none, .readError rc => some (recvFileError rc r, [])

end Receiver

section System

/-- The two parties and the packets that are under way. -/
structure FileSystem where
  sender : FileSend
  receiver : FileRecv
  toRecv : List (List UInt8)
  toSend : List (List UInt8)

/-- A network says which packets can be read from those under way, with what is
left of them, and in which states what the sender writes is lost. -/
structure FileNetwork where
  take : List (List UInt8) → List UInt8 → Option (List (List UInt8))
  lost : FileSend → Bool

inductive FileEvent
  | sender (answer : SendAnswer)
  | receiver (answer : RecvFileAnswer)
  deriving DecidableEq, Repr

def SendAnswer.payload : SendAnswer → Option (List UInt8)
  | .read payload _ => some payload
  | _ => none

def RecvFileAnswer.payload : RecvFileAnswer → Option (List UInt8)
  | .read payload _ => some payload
  | _ => none

/-- What is left under way when a party reads the packet, if it can. -/
def FileNetwork.read (net : FileNetwork) (queue : List (List UInt8)) :
    Option (List UInt8) → Option (List (List UInt8))
  | none => some queue
  | some payload => net.take queue payload

/-- One step of a party. A packet that the network does not have is not read. -/
def FileSystem.step (net : FileNetwork) (t : FileTransfer) (sys : FileSystem) :
    FileEvent → FileSystem
  | .sender answer =>
    match net.read sys.toSend answer.payload, sendFileStep t sys.sender answer with
    | some toSend, some (sender, written) =>
      { sys with sender := sender, toSend := toSend,
                 toRecv := sys.toRecv ++ if net.lost sys.sender = true then [] else written }
    | _, _ => sys
  | .receiver answer =>
    match net.read sys.toRecv answer.payload, recvFileStep t.channel sys.receiver answer with
    | some toRecv, some (receiver, written) =>
      { sys with receiver := receiver, toRecv := toRecv, toSend := sys.toSend ++ written }
    | _, _ => sys

/-- Both parties before anything is sent. -/
def FileTransfer.system (t : FileTransfer) : FileSystem := ⟨t.sendStart, recvFileStart, [], []⟩

end System

end BoardComm
