import BoardComm.ByteLayout
import BoardComm.Types

/-!
# The protocol between the daemon and its clients

A frame is a header followed by channel, topic and payload. Version 1 clients
send the first 16 bytes of the header only.
-/
namespace BoardComm

abbrev bcIpcMagic : UInt32 := 0x42434950
abbrev bcIpcVersion : UInt16 := 2
abbrev bcIpcPublish : UInt16 := 1
abbrev bcIpcSubscribe : UInt16 := 2
abbrev bcIpcDeliver : UInt16 := 3
abbrev bcIpcStats : UInt16 := 4
abbrev bcIpcShmSetup : UInt16 := 5
abbrev bcIpcShmKick : UInt16 := 6

/-- `bc_ipc_header_t`. -/
structure IpcHeader where
  magic : UInt32
  version : UInt16
  type : UInt16
  topicLen : UInt16
  channelLen : UInt16
  payloadLen : UInt32
  dstNode : UInt32
  qos : UInt16
  flags : UInt16
  seq : UInt32
  deriving DecidableEq, Repr

namespace IpcHeader

/-- Widths of the fields in declaration order. -/
def widths : List ℕ := [4, 2, 2, 2, 2, 4, 4, 2, 2, 4]

/-- `sizeof(bc_ipc_header_t)`. -/
abbrev size : ℕ := 28

/-- `offsetof(bc_ipc_header_t, dst_node)`. -/
abbrev sizeV1 : ℕ := 16

def zero : IpcHeader := ⟨0, 0, 0, 0, 0, 0, 0, 0, 0, 0⟩

def fields (h : IpcHeader) : List ℕ :=
  [h.magic.toNat, h.version.toNat, h.type.toNat, h.topicLen.toNat, h.channelLen.toNat,
    h.payloadLen.toNat, h.dstNode.toNat, h.qos.toNat, h.flags.toNat, h.seq.toNat]

/-- `memcpy(data, &header, sizeof(header))`. -/
def toBytes (h : IpcHeader) : List UInt8 := ByteLayout.pack (widths.zip h.fields)

def ofFields : List ℕ → IpcHeader
  | [magic, version, type, topicLen, channelLen, payloadLen, dstNode, qos, flags, seq] =>
    { magic := .ofNat magic, version := .ofNat version, type := .ofNat type,
      topicLen := .ofNat topicLen, channelLen := .ofNat channelLen,
      payloadLen := .ofNat payloadLen, dstNode := .ofNat dstNode, qos := .ofNat qos,
      flags := .ofNat flags, seq := .ofNat seq }
  | _ => zero

/-- `memcpy(&header, data, sizeof(header))`. Fields behind a version 1 header are
read from whatever follows, and not used. -/
def ofBytes (data : List UInt8) : IpcHeader := ofFields (ByteLayout.unpack widths data)

/-- The fields of a version 1 header. -/
def firstFields (h : IpcHeader) : List ℕ :=
  [h.magic.toNat, h.version.toNat, h.type.toNat, h.topicLen.toNat, h.channelLen.toNat,
    h.payloadLen.toNat]

/-- Headers that a version 1 client cannot tell apart. -/
structure AgreesV1 (h h' : IpcHeader) : Prop where
  magic : h'.magic = h.magic
  version : h'.version = h.version
  type : h'.type = h.type
  topicLen : h'.topicLen = h.topicLen
  channelLen : h'.channelLen = h.channelLen
  payloadLen : h'.payloadLen = h.payloadLen

@[simp] theorem toBytes_length (h : IpcHeader) : h.toBytes.length = size := by
  simp [toBytes, widths, fields, size]

theorem fields_fit (h : IpcHeader) : ∀ f ∈ widths.zip h.fields, f.2 < 256 ^ f.1 := by
  intro f hf
  simp only [widths, fields, List.zip_cons_cons, List.zip_nil_left, List.mem_cons,
    List.not_mem_nil, or_false] at hf
  rcases hf with rfl | rfl | rfl | rfl | rfl | rfl | rfl | rfl | rfl | rfl <;>
    first
    | exact UInt32.toNat_lt _
    | exact UInt16.toNat_lt _

/-- Every field fits its width, so a stored header is read back unchanged. -/
theorem ofBytes_toBytes_append (h : IpcHeader) (rest : List UInt8) :
    ofBytes (h.toBytes ++ rest) = h := by
  have hread := ByteLayout.unpack_pack_append (widths.zip h.fields) rest h.fields_fit
  have hw : (widths.zip h.fields).map Prod.fst = widths := by simp [widths, fields]
  have hv : (widths.zip h.fields).map Prod.snd = h.fields := by simp [widths, fields]
  rw [hw, hv] at hread
  rw [ofBytes, toBytes, hread]
  simp only [fields, ofFields, UInt32.ofNat_toNat, UInt16.ofNat_toNat]

/-- The short header is the front of the long one. -/
theorem toBytes_take (h : IpcHeader) :
    h.toBytes.take sizeV1 = ByteLayout.pack ((widths.take 6).zip h.firstFields) := by
  have hsplit : widths.zip h.fields =
      (widths.take 6).zip h.firstFields ++ (widths.drop 6).zip (h.fields.drop 6) := rfl
  have hlen : (ByteLayout.pack ((widths.take 6).zip h.firstFields)).length = sizeV1 := by
    simp [widths, firstFields]
  rw [toBytes, hsplit, ByteLayout.pack_append, List.take_left' hlen]

/-- The fields of the short header do not depend on what follows it. -/
theorem ofBytes_take_append (h : IpcHeader) (rest : List UInt8) :
    h.AgreesV1 (ofBytes (h.toBytes.take sizeV1 ++ rest)) := by
  have hfits : ∀ f ∈ (widths.take 6).zip h.firstFields, f.2 < 256 ^ f.1 := by
    intro f hf
    refine h.fields_fit f ?_
    have hsplit : widths.zip h.fields =
        (widths.take 6).zip h.firstFields ++ (widths.drop 6).zip (h.fields.drop 6) := rfl
    rw [hsplit]
    exact List.mem_append_left _ hf
  have hread := ByteLayout.unpack_pack_append ((widths.take 6).zip h.firstFields) rest hfits
  have hw : ((widths.take 6).zip h.firstFields).map Prod.fst = widths.take 6 := by
    simp [widths, firstFields]
  have hv : ((widths.take 6).zip h.firstFields).map Prod.snd = h.firstFields := by
    simp [widths, firstFields]
  rw [hw, hv, ← toBytes_take] at hread
  have hsplit : widths = widths.take 6 ++ widths.drop 6 := (List.take_append_drop 6 widths).symm
  rw [ofBytes, hsplit, ByteLayout.unpack_append_widths, hread]
  simp only [firstFields, widths, List.drop_succ_cons, List.drop_zero, ByteLayout.unpack,
    List.cons_append, List.nil_append, ofFields]
  constructor <;> simp

/-- Storing a header that was read reproduces the bytes it was read from, as far as
they go. -/
theorem toBytes_ofBytes_take (data : List UInt8) (h : sizeV1 ≤ data.length) :
    (ofBytes data).toBytes.take sizeV1 = data.take sizeV1 := by
  have hfields : (ofBytes data).firstFields = ByteLayout.unpack (widths.take 6) data := by
    simp only [ofBytes, widths, ByteLayout.unpack, ofFields, firstFields, List.take_succ_cons,
      List.take_zero]
    simp only [UInt32.toNat_ofNat_of_lt' (ByteLayout.ofLE_take_lt 4 _),
      UInt16.toNat_ofNat_of_lt' (ByteLayout.ofLE_take_lt 2 _)]
  rw [toBytes_take, hfields, ByteLayout.pack_unpack (widths.take 6) data h]
  rfl

theorem toBytes_ofBytes (data : List UInt8) (h : size ≤ data.length) :
    (ofBytes data).toBytes = data.take size := by
  have hfields : (ofBytes data).fields = ByteLayout.unpack widths data := by
    simp only [ofBytes, widths, ByteLayout.unpack, ofFields, fields]
    simp only [UInt32.toNat_ofNat_of_lt' (ByteLayout.ofLE_take_lt 4 _),
      UInt16.toNat_ofNat_of_lt' (ByteLayout.ofLE_take_lt 2 _)]
  rw [toBytes, hfields, ByteLayout.pack_unpack widths data h]
  rfl

/-- Bytes behind the short header do not matter to its fields. -/
theorem ofBytes_append_agrees {data : List UInt8} (h : sizeV1 ≤ data.length)
    (rest : List UInt8) : (ofBytes data).AgreesV1 (ofBytes (data ++ rest)) := by
  have hfirst : data = (ofBytes data).toBytes.take sizeV1 ++ data.drop sizeV1 := by
    rw [toBytes_ofBytes_take data h, List.take_append_drop]
  have hagrees := (ofBytes data).ofBytes_take_append (data.drop sizeV1 ++ rest)
  rw [← List.append_assoc, ← hfirst] at hagrees
  exact hagrees

/-- The length of the frame that the header announces. -/
def total (h : IpcHeader) (headerSize : ℕ) : ℕ :=
  headerSize + h.channelLen.toNat + h.topicLen.toNat + h.payloadLen.toNat

end IpcHeader

/-- `bc_ipc_header_size`. -/
def bcIpcHeaderSize (version : UInt16) : ℕ :=
  if version ≥ bcIpcVersion then IpcHeader.size else IpcHeader.sizeV1

theorem sizeV1_le_bcIpcHeaderSize (version : UInt16) :
    IpcHeader.sizeV1 ≤ bcIpcHeaderSize version := by
  unfold bcIpcHeaderSize
  split
  · decide
  · exact le_refl _

end BoardComm
