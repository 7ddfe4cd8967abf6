import BoardComm.Runs
import BoardComm.SendQueue
import BoardComm.TransportEvents

/-!
# What the system answers to a transport

The calls of the stream transports and the answers that the kernel, the
allocator and the reactor give to them. The registration of descriptors with the
reactor decides only which events arrive, and events are arbitrary here, so of a
registration just its result is kept.
-/
namespace BoardComm

open SendQueue (WriteOutcome Link Live writeAll)

/-- The answers to one call: to its writes, to the allocation of the send
buffer, to the registration with the reactor, and to setting the direction pin
of an RS-485 adapter. -/
structure IoAnswers where
  writes : List WriteOutcome
  alloc : Bool
  watch : Bool
  gpio : Bool
  deriving DecidableEq, Repr

/-- The result of a registration with the reactor. -/
def watchStatus (watch : Bool) : BcStatus := if watch = true then .ok else .io

/-- What a read answers; no bytes mean that the peer has closed. -/
inductive RecvAnswer
  | bytes (data : List UInt8)
  | eintr
  | again
  | error
  deriving DecidableEq, Repr

/-- A call on the sending side of a transport. -/
inductive SendCall
  | send (frame : List UInt8) (io : IoAnswers)
  | flush (io : IoAnswers)
  deriving DecidableEq, Repr

/-- Frames of the lengths that occur, on a link that stays alive. -/
def SendCall.Ok : SendCall → Prop
  | .send frame io => 1 ≤ frame.length ∧ frame.length ≤ bcMaxFrameLen ∧ Live io.writes
  | .flush io => Live io.writes

instance : DecidablePred SendCall.Ok
  | .send frame io =>
    inferInstanceAs (Decidable (1 ≤ frame.length ∧ frame.length ≤ bcMaxFrameLen ∧ Live io.writes))
  | .flush io => inferInstanceAs (Decidable (Live io.writes))

/-- A transport with the frames for which its send returned `BC_OK`. -/
structure SendRun (σ : Type*) where
  transport : σ
  accepted : List (List UInt8)

/-- One call on a transport with these operations. -/
def SendRun.call {σ : Type*} (send : IoAnswers → σ → List UInt8 → BcStatus × σ)
    (flush : IoAnswers → σ → BcStatus × σ) (r : SendRun σ) : SendCall → SendRun σ
  | .send frame io =>
    let (rc, t) := send io r.transport frame
    ⟨t, if rc = .ok then r.accepted ++ [frame] else r.accepted⟩
  | .flush io => ⟨(flush io r.transport).2, r.accepted⟩

end BoardComm
