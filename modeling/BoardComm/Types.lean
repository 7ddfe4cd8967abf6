import BoardComm.CBuffer

/-!
# Shared types of the daemon and the client library

Limits, status codes, frame flags and the in-memory message. The arrays of a
message keep their C sizes, so a channel or a topic without a terminating zero
is a value of the type, as it is in the program.
-/
namespace BoardComm

abbrev bcMaxChannelLen : ℕ := 32
abbrev bcMaxTopicLen : ℕ := 64
abbrev bcMaxPayloadLen : ℕ := 1400

abbrev bcFlagFragment : UInt16 := 0x0001
abbrev bcFlagAck : UInt16 := 0x0002
abbrev bcFlagNoBridge : UInt16 := 0x0004

abbrev bcQosAtMostOnce : UInt16 := 0
abbrev bcQosAtLeastOnce : UInt16 := 1

/-- `bc_status_t`. -/
inductive BcStatus
  | ok
  | err
  | invalid
  | io
  | nomem
  | notFound
  | timeout
  | auth
  deriving DecidableEq, Repr

/-- `bc_message_t`. Only the first `payloadLen` bytes of the payload are meant. -/
structure BcMessage where
  srcNode : UInt32
  dstNode : UInt32
  flags : UInt16
  qos : UInt16
  seq : UInt32
  channel : CBuffer bcMaxChannelLen
  topic : CBuffer bcMaxTopicLen
  payloadLen : ℕ
  payload : CBuffer bcMaxPayloadLen
  deriving DecidableEq, Repr

namespace BcMessage

/-- `memset(&msg, 0, sizeof(msg))`. -/
def zero : BcMessage :=
  ⟨0, 0, 0, 0, 0, CBuffer.zero _, CBuffer.zero _, 0, CBuffer.zero _⟩

/-- The bytes the message carries. -/
def body (m : BcMessage) : List UInt8 := m.payload.bytes.take m.payloadLen

/-- Two messages a receiver cannot tell apart: the same scalar fields, the same
C strings and the same payload bytes. Bytes behind a terminator do not count. -/
structure Same (a b : BcMessage) : Prop where
  srcNode : a.srcNode = b.srcNode
  dstNode : a.dstNode = b.dstNode
  flags : a.flags = b.flags
  qos : a.qos = b.qos
  seq : a.seq = b.seq
  channel : a.channel.str = b.channel.str
  topic : a.topic.str = b.topic.str
  payloadLen : a.payloadLen = b.payloadLen
  body : a.body = b.body

/-- What every part of the daemon demands of a message it puts on the wire: a
terminated channel, a terminated topic that is not empty, a payload that fits. -/
structure WellFormed (m : BcMessage) : Prop where
  channel : m.channel.Terminated
  topic : m.topic.Terminated
  topic_ne : m.topic.str ≠ []
  payloadLen : m.payloadLen ≤ bcMaxPayloadLen

instance (m : BcMessage) : Decidable m.WellFormed :=
  decidable_of_iff
    (m.channel.Terminated ∧ m.topic.Terminated ∧ m.topic.str ≠ [] ∧
      m.payloadLen ≤ bcMaxPayloadLen)
    ⟨fun ⟨h₁, h₂, h₃, h₄⟩ => ⟨h₁, h₂, h₃, h₄⟩, fun h => ⟨h.1, h.2, h.3, h.4⟩⟩

/-- The message as a receiver of its bytes rebuilds it: cleared arrays with the
strings and the payload at their front. -/
def canonical (m : BcMessage) : BcMessage :=
  { m with channel := .ofPrefix _ m.channel.str, topic := .ofPrefix _ m.topic.str,
           payload := .ofPrefix _ m.body }

theorem body_length {m : BcMessage} (h : m.payloadLen ≤ bcMaxPayloadLen) :
    m.body.length = m.payloadLen := by
  simp only [body, List.length_take, CBuffer.length_bytes]
  omega

theorem canonical_same {m : BcMessage} (h : m.WellFormed) : m.canonical.Same m := by
  have hlen := body_length h.payloadLen
  refine ⟨rfl, rfl, rfl, rfl, rfl, ?_, ?_, rfl, ?_⟩
  · rw [canonical, CBuffer.str_ofPrefix h.channel, CBuffer.str, CBuffer.cstr_cstr]
  · rw [canonical, CBuffer.str_ofPrefix h.topic, CBuffer.str, CBuffer.cstr_cstr]
  · have hle : m.body.length ≤ bcMaxPayloadLen := hlen ▸ h.payloadLen
    have htake := CBuffer.take_ofPrefix hle
    rw [hlen] at htake
    exact htake

end BcMessage

end BoardComm
