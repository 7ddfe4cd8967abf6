import BoardComm.ByteLayout
import BoardComm.CyclicBuffer
import BoardComm.Runs
import BoardComm.Types

/-!
# The ring in shared memory

A ring has counters that run on and wrap around with their width, and a data area
that they address by their remainder. Messages stand in it with their length in
front. Every call is one step.
-/
namespace BoardComm

/-- `BC_SHM_RING_SIZE`. -/
abbrev bcShmRingSize : ℕ := 32 * 1024 * 1024

/-- `bc_shm_ring_t`, with the data area by index. -/
structure BcShmRing where
  head : UInt32
  tail : UInt32
  size : UInt32
  data : ℕ → UInt8

namespace ShmRing

/-- `init_ring`, as `bc_shm_create` calls it on memory that is zero. -/
def initRing : BcShmRing := ⟨0, 0, .ofNat bcShmRingSize, fun _ => 0⟩

/-- `ring_space`. -/
def ringSpace (ring : BcShmRing) : UInt32 := ring.size - (ring.head - ring.tail)

/-- `ring_data`. -/
def ringData (ring : BcShmRing) : UInt32 := ring.head - ring.tail

/-- A loop that copies bytes into the data area. -/
def copyIn (size start : UInt32) : UInt32 → List UInt8 → (ℕ → UInt8) → ℕ → UInt8
  | _, [], data => data
  | i, b :: bs, data =>
    copyIn size start (i + 1) bs (Function.update data ((start + i) % size).toNat b)

/-- A loop that copies so many bytes out of the data area. -/
def copyOut (size start : UInt32) (data : ℕ → UInt8) : UInt32 → ℕ → List UInt8
  | _, 0 => []
  | i, n + 1 => data ((start + i) % size).toNat :: copyOut size start data (i + 1) n

/-- `bc_shm_ring_write`. -/
def bcShmRingWrite (ring : BcShmRing) (data : List UInt8) : BcStatus × BcShmRing :=
  if data.length > bcShmRingSize - 4 then (.invalid, ring)
  else if (ringSpace ring).toNat < 4 + data.length then (.nomem, ring)
  else
    let head := ring.head % ring.size
    let cells := copyIn ring.size head 0 (ByteLayout.toLE 4 data.length) ring.data
    let head := (head + 4) % ring.size
    (.ok, { ring with
      head := ring.head + (4 + UInt32.ofNat data.length)
      data := copyIn ring.size head 0 data cells })

/-- `bc_shm_ring_peek_len`. -/
def bcShmRingPeekLen (ring : BcShmRing) : Except BcStatus ℕ :=
  let avail := ringData ring
  if avail < 4 then .error .notFound
  else
    let len := ByteLayout.ofLE (copyOut ring.size (ring.tail % ring.size) ring.data 0 4)
    if avail.toNat < 4 + len then .error .notFound else .ok len

/-- `bc_shm_ring_read` into an array of `cap` bytes. -/
def bcShmRingRead (ring : BcShmRing) (cap : ℕ) : Except BcStatus (List UInt8) × BcShmRing :=
  match bcShmRingPeekLen ring with
  | .error rc => (.error rc, ring)
  | .ok len =>
    if len > cap then (.error .invalid, ring)
    else
      let tail := (ring.tail + 4) % ring.size
      (.ok (copyOut ring.size tail ring.data 0 len),
        { ring with tail := ring.tail + (4 + UInt32.ofNat len) })

/-- A call on a ring. -/
inductive RingCall
  | write (data : List UInt8)
  | read (cap : ℕ)
  deriving DecidableEq, Repr

/-- What a call returns. -/
inductive RingAnswer
  | wrote (rc : BcStatus)
  | got (result : Except BcStatus (List UInt8))
  deriving DecidableEq

/-- The call had no error. -/
def RingAnswer.succeeds : RingAnswer → Bool
  | .wrote rc => rc = .ok
  | .got (.ok _) => true
  | .got (.error _) => false

def ringAnswer (ring : BcShmRing) : RingCall → RingAnswer
  | .write data => .wrote (bcShmRingWrite ring data).1
  | .read cap => .got (bcShmRingRead ring cap).1

def ringStep (ring : BcShmRing) : RingCall → BcShmRing
  | .write data => (bcShmRingWrite ring data).2
  | .read cap => (bcShmRingRead ring cap).2

section Fifo

/-- The room that a message takes. -/
def room (msg : List UInt8) : ℕ := 4 + msg.length

/-- What a ring is for: messages are taken in the order in which they were put, as
long as there is room for them. -/
def fifoAnswer (queue : List (List UInt8)) : RingCall → RingAnswer
  | .write data =>
    if data.length > bcShmRingSize - 4 then .wrote .invalid
    else if bcShmRingSize - (queue.map room).sum < room data then .wrote .nomem
    else .wrote .ok
  | .read cap =>
    match queue with
    | [] => .got (.error .notFound)
    | msg :: _ => if msg.length > cap then .got (.error .invalid) else .got (.ok msg)

def fifoStep (queue : List (List UInt8)) (call : RingCall) : List (List UInt8) :=
  if (fifoAnswer queue call).succeeds = true then
    match call with
    | .write data => queue ++ [data]
    | .read _ => queue.tail
  else queue

end Fifo

section Cells

variable {size start i : UInt32} {data : ℕ → UInt8} {p : ℕ}

/-- The counters wrap around at a multiple of the size. -/
theorem index_eq (hsize : size = .ofNat bcShmRingSize)
    (h : (start.toNat + i.toNat) % bcShmRingSize = p % bcShmRingSize) :
    ((start + i) % size).toNat = p % bcShmRingSize := by
  rw [hsize, UInt32.toNat_mod, UInt32.toNat_add, ← h]
  have hwidth : (UInt32.ofNat bcShmRingSize).toNat = bcShmRingSize := by decide
  rw [hwidth]
  exact Nat.mod_mod_of_dvd _ (by decide)

theorem next_index (h : (start.toNat + i.toNat) % bcShmRingSize = p % bcShmRingSize) :
    (start.toNat + (i + 1).toNat) % bcShmRingSize = (p + 1) % bcShmRingSize := by
  have hone : (i + 1).toNat = (i.toNat + 1) % 2 ^ 32 := UInt32.toNat_add i 1
  rw [hone]
  simp only [bcShmRingSize] at h ⊢
  omega

theorem copyIn_eq (hsize : size = .ofNat bcShmRingSize) (bs : List UInt8)
    (h : (start.toNat + i.toNat) % bcShmRingSize = p % bcShmRingSize) :
    copyIn size start i bs data = Cyclic.store bcShmRingSize data p bs := by
  induction bs generalizing i p data with
  | nil => rfl
  | cons b bs ih => rw [copyIn, Cyclic.store, index_eq hsize h, ih (next_index h)]

theorem copyOut_eq (hsize : size = .ofNat bcShmRingSize) (n : ℕ)
    (h : (start.toNat + i.toNat) % bcShmRingSize = p % bcShmRingSize) :
    copyOut size start data i n = Cyclic.window bcShmRingSize data p n := by
  induction n generalizing i p with
  | zero => rfl
  | succ n ih => rw [copyOut, Cyclic.window, index_eq hsize h, ih (next_index h)]

/-- The remainder of a counter of any number of rounds. -/
theorem start_eq (hsize : size = .ofNat bcShmRingSize) (p : ℕ) :
    ((UInt32.ofNat p % size).toNat + (0 : UInt32).toNat) % bcShmRingSize = p % bcShmRingSize := by
  have hwidth : (UInt32.ofNat bcShmRingSize).toNat = bcShmRingSize := by decide
  rw [hsize, UInt32.toNat_mod, hwidth, UInt32.toNat_ofNat', UInt32.toNat_zero, Nat.add_zero,
    Nat.mod_mod]
  exact Nat.mod_mod_of_dvd _ (by decide)

/-- The counter behind the length of a message. -/
theorem start_add_eq (hsize : size = .ofNat bcShmRingSize) (p : ℕ) :
    ((((UInt32.ofNat p % size) + 4) % size).toNat + (0 : UInt32).toNat) % bcShmRingSize =
      (p + 4) % bcShmRingSize := by
  have hstart := start_eq hsize p
  rw [UInt32.toNat_zero, Nat.add_zero] at hstart
  have hbehind : ((UInt32.ofNat p % size).toNat + (4 : UInt32).toNat) % bcShmRingSize =
      (p + 4) % bcShmRingSize := by
    rw [Nat.add_mod, hstart, ← Nat.add_mod]
    rfl
  rw [index_eq hsize hbehind, UInt32.toNat_zero, Nat.add_zero, Nat.mod_mod]

end Cells

section Messages

/-- A message as it stands in the ring. -/
def record (msg : List UInt8) : List UInt8 := ByteLayout.toLE 4 msg.length ++ msg

/-- What stands between the counters. -/
def stream (queue : List (List UInt8)) : List UInt8 := queue.flatMap record

@[simp] theorem record_length (msg : List UInt8) : (record msg).length = room msg := by
  rw [record, List.length_append, ByteLayout.toLE_length, room]

theorem stream_length (queue : List (List UInt8)) :
    (stream queue).length = (queue.map room).sum := by
  rw [stream, List.length_flatMap]
  simp only [record_length]

@[simp] theorem stream_cons (msg : List UInt8) (queue : List (List UInt8)) :
    stream (msg :: queue) = record msg ++ stream queue := rfl

@[simp] theorem stream_append (queue : List (List UInt8)) (msg : List UInt8) :
    stream (queue ++ [msg]) = stream queue ++ record msg := by
  simp [stream]

/-- The ring holds these messages. The byte behind the tail is byte `t` of all that
were ever written. -/
structure Holds (ring : BcShmRing) (t : ℕ) (queue : List (List UInt8)) : Prop where
  size : ring.size = .ofNat bcShmRingSize
  tail : ring.tail = .ofNat t
  head : ring.head = .ofNat (t + (stream queue).length)
  fits : (stream queue).length ≤ bcShmRingSize
  bytes : Cyclic.window bcShmRingSize ring.data t (stream queue).length = stream queue

variable {ring : BcShmRing} {t : ℕ} {queue : List (List UInt8)}

theorem holds_initRing : Holds initRing 0 [] := ⟨rfl, rfl, rfl, Nat.zero_le _, rfl⟩

/-- The counters are as far apart as the bytes between them are many. -/
theorem Holds.ringData_eq (h : Holds ring t queue) :
    (ringData ring).toNat = (stream queue).length := by
  have hfits := h.fits
  have hapart : ringData ring = .ofNat (stream queue).length := by
    rw [ringData, h.head, h.tail, UInt32.ofNat_add, UInt32.add_comm, UInt32.add_sub_cancel]
  rw [hapart]
  exact UInt32.toNat_ofNat_of_lt' (hfits.trans_lt (by decide))

theorem Holds.ringSpace_eq (h : Holds ring t queue) :
    (ringSpace ring).toNat = bcShmRingSize - (stream queue).length := by
  have hfits := h.fits
  have hdata := h.ringData_eq
  have hwidth : (UInt32.ofNat bcShmRingSize).toNat = bcShmRingSize := by decide
  have hle : ringData ring ≤ ring.size := by
    rw [UInt32.le_iff_toNat_le, hdata, h.size, hwidth]
    exact hfits
  have hspace : ringSpace ring = ring.size - ringData ring := rfl
  rw [hspace, UInt32.toNat_sub_of_le _ _ hle, hdata, h.size, hwidth]

/-- A message for which there is room is put behind the others. -/
theorem Holds.write (h : Holds ring t queue) {msg : List UInt8}
    (hroom : (stream queue).length + room msg ≤ bcShmRingSize) :
    bcShmRingWrite ring msg = (.ok, (bcShmRingWrite ring msg).2) ∧
      Holds (bcShmRingWrite ring msg).2 t (queue ++ [msg]) := by
  have hshort : ¬ msg.length > bcShmRingSize - 4 := by
    simp only [room] at hroom
    omega
  have henough : ¬ (ringSpace ring).toNat < 4 + msg.length := by
    rw [h.ringSpace_eq]
    simp only [room] at hroom
    omega
  have hcells : copyIn ring.size ((ring.head % ring.size + 4) % ring.size) 0 msg
      (copyIn ring.size (ring.head % ring.size) 0 (ByteLayout.toLE 4 msg.length) ring.data) =
        Cyclic.store bcShmRingSize ring.data (t + (stream queue).length) (record msg) := by
    rw [h.head, copyIn_eq h.size _ (start_eq h.size _), copyIn_eq h.size _ (start_add_eq h.size _),
      record, Cyclic.store_append, ByteLayout.toLE_length]
  have hwrite : bcShmRingWrite ring msg = (.ok, { ring with
      head := ring.head + (4 + UInt32.ofNat msg.length)
      data := Cyclic.store bcShmRingSize ring.data (t + (stream queue).length) (record msg) }) := by
    rw [← hcells]
    simp only [bcShmRingWrite, if_neg hshort, if_neg henough]
  rw [hwrite]
  refine ⟨rfl, h.size, h.tail, ?_, ?_, ?_⟩
  · have hfour : (4 : UInt32) = .ofNat 4 := rfl
    rw [stream_append, List.length_append, record_length, room, h.head, hfour, ← UInt32.ofNat_add,
      ← UInt32.ofNat_add, Nat.add_assoc]
  · rw [stream_append, List.length_append, record_length]
    exact hroom
  · have hbytes := @Cyclic.window_store_append _ bcShmRingSize ring.data t (stream queue).length
      (record msg) (by rw [record_length]; exact hroom)
    rw [h.bytes] at hbytes
    rw [stream_append, List.length_append]
    exact hbytes

/-- Messages are written one after the other. -/
def writeAll (ring : BcShmRing) (msgs : List (List UInt8)) : BcShmRing :=
  msgs.foldl (fun ring msg => (bcShmRingWrite ring msg).2) ring

/-- All of them are in if there is room for all. -/
theorem Holds.writeAll (h : Holds ring t queue) (msgs : List (List UInt8))
    (hroom : (stream queue).length + (msgs.map room).sum ≤ bcShmRingSize) :
    Holds (writeAll ring msgs) t (queue ++ msgs) := by
  induction msgs generalizing ring queue with
  | nil =>
    rw [List.append_nil]
    exact h
  | cons msg msgs ih =>
    rw [List.map_cons, List.sum_cons] at hroom
    have hnext : Holds (bcShmRingWrite ring msg).2 t (queue ++ [msg]) :=
      (h.write (by omega)).2
    have hrest : (stream (queue ++ [msg])).length + (msgs.map room).sum ≤ bcShmRingSize := by
      rw [stream_append, List.length_append, record_length]
      omega
    rw [List.append_cons]
    exact ih hnext hrest

/-- Nothing is found in an empty ring. -/
theorem Holds.peekLen_nil (h : Holds ring t []) : bcShmRingPeekLen ring = .error .notFound := by
  have hempty : ringData ring < 4 := by
    rw [UInt32.lt_iff_toNat_lt, h.ringData_eq]
    decide
  simp only [bcShmRingPeekLen, if_pos hempty]

/-- The bytes of the first message. -/
theorem Holds.window_first {msg : List UInt8} (h : Holds ring t (msg :: queue)) :
    Cyclic.window bcShmRingSize ring.data t 4 = ByteLayout.toLE 4 msg.length ∧
      Cyclic.window bcShmRingSize ring.data (t + 4) msg.length = msg ∧
      Cyclic.window bcShmRingSize ring.data (t + room msg) (stream queue).length =
        stream queue := by
  have hbytes := h.bytes
  have hsplit : (stream (msg :: queue)).length = 4 + (msg.length + (stream queue).length) := by
    rw [stream_cons, List.length_append, record_length, room, Nat.add_assoc]
  rw [hsplit, Cyclic.window_add, Cyclic.window_add, stream_cons, record, List.append_assoc]
    at hbytes
  obtain ⟨hlen, hrest⟩ := List.append_inj hbytes (by simp)
  obtain ⟨hmsg, hqueue⟩ := List.append_inj hrest (by simp)
  rw [Nat.add_assoc] at hqueue
  exact ⟨hlen, hmsg, hqueue⟩

theorem Holds.peekLen_cons {msg : List UInt8} (h : Holds ring t (msg :: queue)) :
    bcShmRingPeekLen ring = .ok msg.length := by
  have hfits := h.fits
  have hdata := h.ringData_eq
  simp only [stream_cons, List.length_append, record_length, room] at hfits hdata
  have hfound : ¬ ringData ring < 4 := by
    rw [UInt32.lt_iff_toNat_lt, hdata]
    have hfour : (4 : UInt32).toNat = 4 := rfl
    omega
  have hlen : ByteLayout.ofLE (copyOut ring.size (ring.tail % ring.size) ring.data 0 4) =
      msg.length := by
    rw [h.tail, copyOut_eq h.size _ (start_eq h.size _), h.window_first.1]
    exact ByteLayout.ofLE_toLE 4 _ (by simp only [bcShmRingSize] at hfits; omega)
  have hwhole : ¬ (ringData ring).toNat < 4 + msg.length := by omega
  simp only [bcShmRingPeekLen, if_neg hfound, hlen, if_neg hwhole]

/-- The first message is taken if the array is large enough. -/
theorem Holds.read {msg : List UInt8} (h : Holds ring t (msg :: queue)) {cap : ℕ}
    (hcap : msg.length ≤ cap) :
    bcShmRingRead ring cap = (.ok msg, (bcShmRingRead ring cap).2) ∧
      Holds (bcShmRingRead ring cap).2 (t + room msg) queue := by
  have hfits := h.fits
  rw [stream_cons, List.length_append, record_length] at hfits
  have hfour : (4 : UInt32) = .ofNat 4 := rfl
  have hread : bcShmRingRead ring cap =
      (.ok msg, { ring with tail := ring.tail + (4 + UInt32.ofNat msg.length) }) := by
    have hcells : copyOut ring.size ((ring.tail + 4) % ring.size) ring.data 0 msg.length = msg := by
      rw [h.tail, hfour, ← UInt32.ofNat_add, copyOut_eq h.size _ (start_eq h.size _)]
      exact h.window_first.2.1
    simp only [bcShmRingRead, h.peekLen_cons, if_neg (Nat.not_lt.mpr hcap), hcells]
  rw [hread]
  refine ⟨rfl, h.size, ?_, ?_, by omega, h.window_first.2.2⟩
  · simp only [h.tail, room, hfour, UInt32.ofNat_add]
  · rw [h.head, stream_cons, List.length_append, record_length, Nat.add_assoc]

end Messages

section Calls

variable {ring : BcShmRing} {t : ℕ} {queue : List (List UInt8)}

/-- The ring answers a call as the queue of its messages does. -/
theorem Holds.answer (h : Holds ring t queue) (call : RingCall) :
    ringAnswer ring call = fifoAnswer queue call ∧
      ((ringAnswer ring call).succeeds = false → ringStep ring call = ring) ∧
      ∃ t', Holds (ringStep ring call) t' (fifoStep queue call) := by
  cases call with
  | write msg =>
    by_cases hlong : msg.length > bcShmRingSize - 4
    · have hstep : fifoStep queue (.write msg) = queue := by
        simp [fifoStep, fifoAnswer, hlong, RingAnswer.succeeds]
      rw [hstep]
      simp only [ringAnswer, ringStep, bcShmRingWrite, fifoAnswer, if_pos hlong]
      exact ⟨trivial, fun _ => trivial, t, h⟩
    by_cases hfull : bcShmRingSize - (queue.map room).sum < room msg
    · have hstep : fifoStep queue (.write msg) = queue := by
        simp [fifoStep, fifoAnswer, hlong, hfull, RingAnswer.succeeds]
      have hspace : (ringSpace ring).toNat < 4 + msg.length := by
        rw [h.ringSpace_eq, stream_length]
        exact hfull
      rw [hstep]
      simp only [ringAnswer, ringStep, bcShmRingWrite, fifoAnswer, if_neg hlong, if_pos hspace,
        if_pos hfull]
      exact ⟨trivial, fun _ => trivial, t, h⟩
    · have hroom : (stream queue).length + room msg ≤ bcShmRingSize := by
        have hfits := h.fits
        rw [stream_length] at hfits ⊢
        omega
      obtain ⟨hok, hnext⟩ := h.write hroom
      have hstep : fifoStep queue (.write msg) = queue ++ [msg] := by
        simp [fifoStep, fifoAnswer, hlong, hfull, RingAnswer.succeeds]
      have hanswer : ringAnswer ring (.write msg) = .wrote .ok :=
        congrArg RingAnswer.wrote (congrArg Prod.fst hok)
      rw [hstep, hanswer]
      exact ⟨by simp only [fifoAnswer, if_neg hlong, if_neg hfull], by simp [RingAnswer.succeeds],
        t, hnext⟩
  | read cap =>
    cases queue with
    | nil =>
      simp only [ringAnswer, ringStep, bcShmRingRead, h.peekLen_nil, fifoAnswer]
      exact ⟨trivial, fun _ => trivial, t, h⟩
    | cons msg queue =>
      by_cases hcap : msg.length > cap
      · have hstep : fifoStep (msg :: queue) (.read cap) = msg :: queue := by
          simp [fifoStep, fifoAnswer, hcap, RingAnswer.succeeds]
        rw [hstep]
        simp only [ringAnswer, ringStep, bcShmRingRead, h.peekLen_cons, fifoAnswer, if_pos hcap]
        exact ⟨trivial, fun _ => trivial, t, h⟩
      · obtain ⟨hok, hnext⟩ := h.read (Nat.not_lt.mp hcap)
        have hstep : fifoStep (msg :: queue) (.read cap) = queue := by
          simp [fifoStep, fifoAnswer, hcap, RingAnswer.succeeds]
        have hanswer : ringAnswer ring (.read cap) = .got (.ok msg) :=
          congrArg RingAnswer.got (congrArg Prod.fst hok)
        rw [hstep, hanswer]
        exact ⟨by simp only [fifoAnswer, if_neg hcap], by simp [RingAnswer.succeeds], _, hnext⟩

/-- Whatever calls are made, the ring is a queue of messages with its size for a
capacity, the counters are never further apart than that, and a call with an error
leaves it as it was. -/
theorem shm_ring_is_fifo (calls : List RingCall) :
    Runs.collect ringStep (fun ring call => [ringAnswer ring call]) initRing calls =
        Runs.collect fifoStep (fun queue call => [fifoAnswer queue call]) [] calls ∧
      Runs.Along ringStep
        (fun ring => (ring.head - ring.tail).toNat ≤ ring.size.toNat) initRing calls ∧
      Runs.Meets ringStep
        (fun ring call => (ringAnswer ring call).succeeds = false → ringStep ring call = ring)
        initRing calls := by
  have hrun : ∀ is, Runs.collect ringStep (fun ring call => [ringAnswer ring call]) initRing is =
      Runs.collect fifoStep (fun queue call => [fifoAnswer queue call]) [] is ∧
        ∃ t, Holds (Runs.run ringStep initRing is) t (Runs.run fifoStep [] is) := fun is =>
    Runs.collect_eq_of_related ringStep (R := fun ring queue => ∃ t, Holds ring t queue)
      (fun ring queue call ⟨t, h⟩ => ⟨by rw [(h.answer call).1], (h.answer call).2.2⟩)
      ⟨0, holds_initRing⟩ is
  refine ⟨(hrun calls).1, fun pre _ => ?_, fun pre call _ => ?_⟩
  · obtain ⟨t, h⟩ := (hrun pre).2
    have hdata := h.ringData_eq
    have hwidth : (UInt32.ofNat bcShmRingSize).toNat = bcShmRingSize := by decide
    rw [h.size, hwidth]
    exact hdata.trans_le h.fits
  · obtain ⟨t, h⟩ := (hrun pre).2
    exact (h.answer call).2.1

end Calls

end ShmRing

end BoardComm
