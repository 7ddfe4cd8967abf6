import BoardComm.Linearization
import BoardComm.ShmRing

/-!
# Both sides of a ring at once

The two processes that share a ring do not wait for each other. One writes and the other
reads, and at every moment either may go on by one access to the memory. The accesses
take effect one at a time, each side's in the order in which its code makes them.
-/
namespace BoardComm.ShmRing

/-- The sides of a ring. -/
inductive Side
  | writer
  | reader
  deriving DecidableEq, Repr

/-- The side that makes a call. -/
def RingCall.side : RingCall → Side
  | .write _ => .writer
  | .read _ => .reader

/-- How far `bc_shm_ring_write` is. -/
inductive WriterAt
  | idle
  | entered (data : List UInt8)
  /-- In `ring_space`, with the head read. -/
  | spaceTail (data : List UInt8) (head : UInt32)
  | start (data : List UInt8)
  /-- In the first loop. -/
  | lengthByte (data : List UInt8) (head : UInt32) (i : ℕ)
  /-- In the second loop. -/
  | dataByte (data : List UInt8) (head : UInt32) (i : ℕ)
  | publish (data : List UInt8)
  /-- In `ring->head += ..`, with the head read. -/
  | publishTo (data : List UInt8) (head : UInt32)

/-- How far `bc_shm_ring_read` is. -/
inductive ReaderAt
  | idle
  | entered (cap : ℕ)
  /-- In `ring_data`, with the head read. -/
  | availTail (cap : ℕ) (head : UInt32)
  | start (cap : ℕ) (avail : UInt32)
  /-- In the loop of `bc_shm_ring_peek_len`. -/
  | lengthByte (cap : ℕ) (avail tail : UInt32) (got : List UInt8)
  | payload (cap len : ℕ)
  /-- In the loop of `bc_shm_ring_read`. -/
  | dataByte (cap len : ℕ) (tail : UInt32) (got : List UInt8)
  | publish (cap len : ℕ) (got : List UInt8)
  /-- In `ring->tail += ..`, with the tail read. -/
  | publishTo (cap len : ℕ) (got : List UInt8) (tail : UInt32)

/-- A ring and the two sides that use it. -/
structure SharedRing where
  ring : BcShmRing
  writer : WriterAt
  reader : ReaderAt

/-- The writer goes on by one access. With a result it returns. -/
def writerGo (ring : BcShmRing) : WriterAt → BcShmRing × WriterAt × Option BcStatus
  | .idle => (ring, .idle, none)
  | .entered data =>
    if data.length > bcShmRingSize - 4 then (ring, .idle, some .invalid)
    else (ring, .spaceTail data ring.head, none)
  | .spaceTail data head =>
    let space := ring.size - (head - ring.tail)
    if space.toNat < 4 + data.length then (ring, .idle, some .nomem)
    else (ring, .start data, none)
  | .start data => (ring, .lengthByte data (ring.head % ring.size) 0, none)
  | .lengthByte data head i =>
    match (ByteLayout.toLE 4 data.length)[i]? with
    | some b =>
      let cell := ((head + .ofNat i) % ring.size).toNat
      ({ ring with data := Function.update ring.data cell b }, .lengthByte data head (i + 1), none)
    | none => (ring, .dataByte data ((head + 4) % ring.size) 0, none)
  | .dataByte data head i =>
    match data[i]? with
    | some b =>
      let cell := ((head + .ofNat i) % ring.size).toNat
      ({ ring with data := Function.update ring.data cell b }, .dataByte data head (i + 1), none)
    | none => (ring, .publish data, none)
  | .publish data => (ring, .publishTo data ring.head, none)
  | .publishTo data head =>
    ({ ring with head := head + (4 + .ofNat data.length) }, .idle, some .ok)

/-- The reader goes on by one access. With a result it returns. -/
def readerGo (ring : BcShmRing) :
    ReaderAt → BcShmRing × ReaderAt × Option (Except BcStatus (List UInt8))
  | .idle => (ring, .idle, none)
  | .entered cap => (ring, .availTail cap ring.head, none)
  | .availTail cap head =>
    let avail := head - ring.tail
    if avail < 4 then (ring, .idle, some (.error .notFound))
    else (ring, .start cap avail, none)
  | .start cap avail => (ring, .lengthByte cap avail (ring.tail % ring.size) [], none)
  | .lengthByte cap avail tail got =>
    if got.length < 4 then
      let cell := ((tail + .ofNat got.length) % ring.size).toNat
      (ring, .lengthByte cap avail tail (got ++ [ring.data cell]), none)
    else
      let len := ByteLayout.ofLE got
      if avail.toNat < 4 + len then (ring, .idle, some (.error .notFound))
      else if len > cap then (ring, .idle, some (.error .invalid))
      else (ring, .payload cap len, none)
  | .payload cap len => (ring, .dataByte cap len ((ring.tail + 4) % ring.size) [], none)
  | .dataByte cap len tail got =>
    if got.length < len then
      let cell := ((tail + .ofNat got.length) % ring.size).toNat
      (ring, .dataByte cap len tail (got ++ [ring.data cell]), none)
    else (ring, .publish cap len got, none)
  | .publish cap len got => (ring, .publishTo cap len got ring.tail, none)
  | .publishTo _ len got tail =>
    ({ ring with tail := tail + (4 + .ofNat len) }, .idle, some (.ok got))

/-- What happens at a moment. -/
inductive Access
  /-- A side that is idle makes a call. -/
  | call (call : RingCall)
  /-- A side goes on. -/
  | go (side : Side)
  deriving DecidableEq, Repr

/-- A side is not in a call. -/
def SharedRing.isIdle (s : SharedRing) : Side → Bool
  | .writer => match s.writer with | .idle => true | _ => false
  | .reader => match s.reader with | .idle => true | _ => false

def sharedStep (s : SharedRing) : Access → SharedRing
  | .call call =>
    if s.isIdle call.side then
      match call with
      | .write data => { s with writer := .entered data }
      | .read cap => { s with reader := .entered cap }
    else s
  | .go .writer =>
    let (ring, writer, _) := writerGo s.ring s.writer
    { s with ring, writer }
  | .go .reader =>
    let (ring, reader, _) := readerGo s.ring s.reader
    { s with ring, reader }

/-- The calls and answers of a moment. -/
def sharedSeen (s : SharedRing) :
    Access → List (Linearization.Event Side RingCall RingAnswer)
  | .call call => if s.isIdle call.side then [.called call.side call] else []
  | .go .writer =>
    match (writerGo s.ring s.writer).2.2 with
    | none => []
    | some rc => [.answered .writer (.wrote rc)]
  | .go .reader =>
    match (readerGo s.ring s.reader).2.2 with
    | none => []
    | some result => [.answered .reader (.got result)]

/-- A new ring, before any call. -/
def newSharedRing : SharedRing := ⟨initRing, .idle, .idle⟩

section Queue

variable (queue : List (List UInt8)) {data msg : List UInt8} {cap : ℕ}

variable {queue} in
theorem fifo_write (hroom : (stream queue).length + room data ≤ bcShmRingSize) :
    fifoAnswer queue (.write data) = .wrote .ok ∧
      fifoStep queue (.write data) = queue ++ [data] := by
  have hshort : ¬ data.length > bcShmRingSize - 4 := by
    rw [room] at hroom
    omega
  have henough : ¬ bcShmRingSize - (queue.map room).sum < room data := by
    rw [stream_length] at hroom
    omega
  have hanswer : fifoAnswer queue (.write data) = .wrote .ok := by
    rw [fifoAnswer, if_neg hshort, if_neg henough]
  exact ⟨hanswer, by rw [fifoStep, hanswer]; rfl⟩

theorem fifo_write_long (hlong : data.length > bcShmRingSize - 4) :
    fifoAnswer queue (.write data) = .wrote .invalid ∧ fifoStep queue (.write data) = queue := by
  have hanswer : fifoAnswer queue (.write data) = .wrote .invalid := by
    rw [fifoAnswer, if_pos hlong]
  exact ⟨hanswer, by rw [fifoStep, hanswer]; rfl⟩

variable {queue} in
theorem fifo_write_full (hshort : data.length ≤ bcShmRingSize - 4)
    (hfull : bcShmRingSize - (stream queue).length < room data) :
    fifoAnswer queue (.write data) = .wrote .nomem ∧ fifoStep queue (.write data) = queue := by
  have hanswer : fifoAnswer queue (.write data) = .wrote .nomem := by
    rw [stream_length] at hfull
    rw [fifoAnswer, if_neg (Nat.not_lt.mpr hshort), if_pos hfull]
  exact ⟨hanswer, by rw [fifoStep, hanswer]; rfl⟩

theorem fifo_read_long (hlong : msg.length > cap) :
    fifoAnswer (msg :: queue) (.read cap) = .got (.error .invalid) ∧
      fifoStep (msg :: queue) (.read cap) = msg :: queue := by
  have hanswer : fifoAnswer (msg :: queue) (.read cap) = .got (.error .invalid) := by
    rw [fifoAnswer, if_pos hlong]
  exact ⟨hanswer, by rw [fifoStep, hanswer]; rfl⟩

theorem fifo_read (hcap : msg.length ≤ cap) :
    fifoAnswer (msg :: queue) (.read cap) = .got (.ok msg) ∧
      fifoStep (msg :: queue) (.read cap) = queue := by
  have hanswer : fifoAnswer (msg :: queue) (.read cap) = .got (.ok msg) := by
    rw [fifoAnswer, if_neg (Nat.not_lt.mpr hcap)]
  exact ⟨hanswer, by rw [fifoStep, hanswer]; rfl⟩

end Queue

section Cells

variable {ring : BcShmRing} {t : ℕ} {queue : List (List UInt8)} {msg got bytes : List UInt8}

/-- The cell at an index of a loop. -/
theorem cell_eq {start : UInt32} {p : ℕ} (hsize : ring.size = .ofNat bcShmRingSize)
    (hstart : (start.toNat + (0 : UInt32).toNat) % bcShmRingSize = p % bcShmRingSize) (i : ℕ) :
    ((start + .ofNat i) % ring.size).toNat = (p + i) % bcShmRingSize := by
  refine index_eq hsize ?_
  rw [UInt32.toNat_zero] at hstart
  rw [UInt32.toNat_ofNat']
  simp only [bcShmRingSize] at hstart ⊢
  omega

/-- A byte behind all that is in the ring is free. -/
theorem Holds.put (h : Holds ring t queue) {cell i : ℕ} (b : UInt8)
    (hcell : cell = (t + (stream queue).length + i) % bcShmRingSize)
    (hi : (stream queue).length + i < bcShmRingSize) :
    Holds { ring with data := Function.update ring.data cell b } t queue := by
  refine ⟨h.size, h.tail, h.head, h.fits, ?_⟩
  have hone : Function.update ring.data cell b =
      Cyclic.store bcShmRingSize ring.data (t + (stream queue).length + i) [b] := by
    rw [hcell]
    rfl
  rw [hone, Cyclic.window_store (by omega) (by rw [List.length_singleton]; omega)]
  exact h.bytes

/-- One more byte of a list is written. -/
theorem put_byte {cells : ℕ → UInt8} {p i cell : ℕ} {b : UInt8}
    (hcell : cell = (p + i) % bcShmRingSize) (hi : i < bcShmRingSize)
    (hput : Cyclic.window bcShmRingSize cells p i <+: bytes) (hb : bytes[i]? = some b) :
    Cyclic.window bcShmRingSize (Function.update cells cell b) p (i + 1) <+: bytes := by
  have hone : Function.update cells cell b = Cyclic.store bcShmRingSize cells (p + i) [b] := by
    rw [hcell]
    rfl
  have hlonger : Cyclic.window bcShmRingSize (Cyclic.store bcShmRingSize cells (p + i) [b]) p
      (i + [b].length) = Cyclic.window bcShmRingSize cells p i ++ [b] :=
    Cyclic.window_store_append (by rw [List.length_singleton]; omega)
  obtain ⟨hlt, rfl⟩ := List.getElem?_eq_some_iff.mp hb
  have hnext := List.concat_get_prefix hput (by rw [Cyclic.window_length]; exact hlt)
  rw [List.length_singleton] at hlonger
  rw [hone, hlonger]
  simpa only [List.get_eq_getElem, Cyclic.window_length] using hnext

/-- One more byte of a list is read. -/
theorem got_byte {b : UInt8} (hgot : got <+: bytes)
    (hb : bytes[got.length]? = some b) : got ++ [b] <+: bytes := by
  obtain ⟨hlt, rfl⟩ := List.getElem?_eq_some_iff.mp hb
  exact List.concat_get_prefix hgot hlt

/-- The bytes of the first message. -/
theorem Holds.byte (h : Holds ring t (msg :: queue)) {i : ℕ} (hi : i < room msg) :
    (record msg)[i]? = some (ring.data ((t + i) % bcShmRingSize)) := by
  have hlong : i < (stream (msg :: queue)).length := by
    rw [stream_cons, List.length_append, record_length]
    omega
  have hread : (stream (msg :: queue))[i]? = some (ring.data ((t + i) % bcShmRingSize)) := by
    rw [← h.bytes, Cyclic.window_getElem? hlong]
  rw [stream_cons, List.getElem?_append_left (by rw [record_length]; exact hi)] at hread
  exact hread

end Cells

section Sides

open Linearization (Stage)

/-- What is so while the writer is at a place in its call. Byte `h` of all that were ever
written is the next, and so many bytes are in the ring. -/
def WriterStands (cells : ℕ → UInt8) (h used : ℕ) (stage : Stage RingCall RingAnswer) :
    WriterAt → Prop
  | .idle => stage = .idle
  | .entered data => stage = .waiting (.write data)
  | .spaceTail data head =>
    stage = .waiting (.write data) ∧ data.length ≤ bcShmRingSize - 4 ∧ head = .ofNat h
  | .start data => stage = .waiting (.write data) ∧ used + room data ≤ bcShmRingSize
  | .lengthByte data head i =>
    stage = .waiting (.write data) ∧ used + room data ≤ bcShmRingSize ∧
      head = .ofNat h % .ofNat bcShmRingSize ∧ i ≤ 4 ∧
      Cyclic.window bcShmRingSize cells h i <+: record data
  | .dataByte data head i =>
    stage = .waiting (.write data) ∧ used + room data ≤ bcShmRingSize ∧
      head = (.ofNat h % .ofNat bcShmRingSize + 4) % .ofNat bcShmRingSize ∧ i ≤ data.length ∧
      Cyclic.window bcShmRingSize cells h (4 + i) <+: record data
  | .publish data =>
    stage = .waiting (.write data) ∧ used + room data ≤ bcShmRingSize ∧
      Cyclic.window bcShmRingSize cells h (room data) = record data
  | .publishTo data head =>
    stage = .waiting (.write data) ∧ used + room data ≤ bcShmRingSize ∧
      Cyclic.window bcShmRingSize cells h (room data) = record data ∧ head = .ofNat h

/-- What is so while the reader is at a place in its call. If it saw an empty ring, then its
call has taken effect. -/
def ReaderStands (t : ℕ) (queue : List (List UInt8)) (stage : Stage RingCall RingAnswer) :
    ReaderAt → Prop
  | .idle => stage = .idle
  | .entered cap => stage = .waiting (.read cap)
  | .availTail cap head =>
    ∃ old, old <+: queue ∧ head = .ofNat (t + (stream old).length) ∧
      stage = if old = [] then .done (.got (.error .notFound)) else .waiting (.read cap)
  | .start cap avail =>
    stage = .waiting (.read cap) ∧ ∃ msg, [msg] <+: queue ∧ room msg ≤ avail.toNat
  | .lengthByte cap avail tail got =>
    stage = .waiting (.read cap) ∧ tail = .ofNat t % .ofNat bcShmRingSize ∧
      ∃ msg, [msg] <+: queue ∧ room msg ≤ avail.toNat ∧ got <+: ByteLayout.toLE 4 msg.length
  | .payload cap len =>
    stage = .waiting (.read cap) ∧ ∃ msg, [msg] <+: queue ∧ msg.length = len ∧ len ≤ cap
  | .dataByte cap len tail got =>
    stage = .waiting (.read cap) ∧ tail = .ofNat (t + 4) % .ofNat bcShmRingSize ∧
      ∃ msg, [msg] <+: queue ∧ msg.length = len ∧ len ≤ cap ∧ got <+: msg
  | .publish cap len got =>
    stage = .waiting (.read cap) ∧ [got] <+: queue ∧ got.length = len ∧ len ≤ cap
  | .publishTo cap len got tail =>
    stage = .waiting (.read cap) ∧ [got] <+: queue ∧ got.length = len ∧ len ≤ cap ∧
      tail = .ofNat t

variable {ring : BcShmRing} {t h used : ℕ} {queue : List (List UInt8)} {cells : ℕ → UInt8}
  {stage : Stage RingCall RingAnswer} {writer : WriterAt} {reader : ReaderAt}

/-- The writer does not mind that messages are taken. -/
theorem WriterStands.mono (hw : WriterStands cells h used stage writer) {used' : ℕ}
    (hle : used' ≤ used) : WriterStands cells h used' stage writer := by
  cases writer with
  | idle => exact hw
  | entered data => exact hw
  | spaceTail data head => exact hw
  | start data => exact ⟨hw.1, by have := hw.2; omega⟩
  | lengthByte data head i => exact ⟨hw.1, by have := hw.2.1; omega, hw.2.2⟩
  | dataByte data head i => exact ⟨hw.1, by have := hw.2.1; omega, hw.2.2⟩
  | publish data => exact ⟨hw.1, by have := hw.2.1; omega, hw.2.2⟩
  | publishTo data head => exact ⟨hw.1, by have := hw.2.1; omega, hw.2.2⟩

/-- The reader does not mind that messages are put behind the others. -/
theorem ReaderStands.append (hr : ReaderStands t queue stage reader) (more : List (List UInt8)) :
    ReaderStands t (queue ++ more) stage reader := by
  have hbehind : queue <+: queue ++ more := List.prefix_append queue more
  cases reader with
  | idle => exact hr
  | entered cap => exact hr
  | availTail cap head =>
    obtain ⟨old, hold, hhead, hstage⟩ := hr
    exact ⟨old, hold.trans hbehind, hhead, hstage⟩
  | start cap avail =>
    obtain ⟨hstage, msg, hmsg, hrest⟩ := hr
    exact ⟨hstage, msg, hmsg.trans hbehind, hrest⟩
  | lengthByte cap avail tail got =>
    obtain ⟨hstage, htail, msg, hmsg, hrest⟩ := hr
    exact ⟨hstage, htail, msg, hmsg.trans hbehind, hrest⟩
  | payload cap len =>
    obtain ⟨hstage, msg, hmsg, hrest⟩ := hr
    exact ⟨hstage, msg, hmsg.trans hbehind, hrest⟩
  | dataByte cap len tail got =>
    obtain ⟨hstage, htail, msg, hmsg, hrest⟩ := hr
    exact ⟨hstage, htail, msg, hmsg.trans hbehind, hrest⟩
  | publish cap len got => exact ⟨hr.1, hr.2.1.trans hbehind, hr.2.2⟩
  | publishTo cap len got tail => exact ⟨hr.1, hr.2.1.trans hbehind, hr.2.2⟩

/-- A message whose bytes stand behind the others is put by the new head. -/
theorem Holds.publish (hholds : Holds ring t queue) {data : List UInt8}
    (hroom : (stream queue).length + room data ≤ bcShmRingSize)
    (hput : Cyclic.window bcShmRingSize ring.data (t + (stream queue).length) (room data) =
      record data) {head : UInt32} (hhead : head = .ofNat (t + (stream queue).length)) :
    Holds { ring with head := head + (4 + .ofNat data.length) } t (queue ++ [data]) := by
  have hfour : (4 : UInt32) = .ofNat 4 := rfl
  refine ⟨hholds.size, hholds.tail, ?_, ?_, ?_⟩
  · rw [hhead, stream_append, List.length_append, record_length, room, hfour, ← UInt32.ofNat_add,
      ← UInt32.ofNat_add, Nat.add_assoc]
  · rw [stream_append, List.length_append, record_length]
    exact hroom
  · rw [stream_append, List.length_append, record_length, Cyclic.window_add, hput, hholds.bytes]

/-- The first message is taken by the new tail. -/
theorem Holds.take {msg : List UInt8} (hholds : Holds ring t (msg :: queue)) {tail : UInt32}
    (htail : tail = .ofNat t) :
    Holds { ring with tail := tail + (4 + .ofNat msg.length) } (t + room msg) queue := by
  have hfour : (4 : UInt32) = .ofNat 4 := rfl
  have hfits := hholds.fits
  rw [stream_cons, List.length_append, record_length] at hfits
  refine ⟨hholds.size, ?_, ?_, by omega, hholds.window_first.2.2⟩
  · rw [htail, room, hfour, ← UInt32.ofNat_add, ← UInt32.ofNat_add]
  · rw [hholds.head, stream_cons, List.length_append, record_length, Nat.add_assoc]

/-- What one access of the writer does. A call that returns takes effect at this moment. -/
def WriterGoes (t : ℕ) (queue : List (List UInt8)) (stage : Stage RingCall RingAnswer) :
    BcShmRing × WriterAt × Option BcStatus → Prop
  | (ring, writer, none) =>
    Holds ring t queue ∧
      WriterStands ring.data (t + (stream queue).length) (stream queue).length stage writer
  | (ring, writer, some rc) =>
    writer = .idle ∧ ∃ data, stage = .waiting (.write data) ∧
      fifoAnswer queue (.write data) = .wrote rc ∧ Holds ring t (fifoStep queue (.write data))

theorem WriterStands.go (hholds : Holds ring t queue)
    (hw : WriterStands ring.data (t + (stream queue).length) (stream queue).length stage writer) :
    WriterGoes t queue stage (writerGo ring writer) := by
  cases writer with
  | idle => exact ⟨hholds, hw⟩
  | entered data =>
    by_cases hlong : data.length > bcShmRingSize - 4
    · obtain ⟨hanswer, hstep⟩ := fifo_write_long queue hlong
      rw [writerGo, if_pos hlong]
      exact ⟨rfl, data, hw, hanswer, by rw [hstep]; exact hholds⟩
    · rw [writerGo, if_neg hlong]
      exact ⟨hholds, hw, Nat.not_lt.mp hlong, hholds.head⟩
  | spaceTail data head =>
    obtain ⟨hstage, hshort, hhead⟩ := hw
    have hspace : (ring.size - (head - ring.tail)).toNat =
        bcShmRingSize - (stream queue).length := by
      rw [hhead, ← hholds.head]
      exact hholds.ringSpace_eq
    by_cases hfull : bcShmRingSize - (stream queue).length < 4 + data.length
    · obtain ⟨hanswer, hstep⟩ := fifo_write_full hshort hfull
      simp only [writerGo, hspace, if_pos hfull]
      exact ⟨rfl, data, hstage, hanswer, by rw [hstep]; exact hholds⟩
    · simp only [writerGo, hspace, if_neg hfull]
      refine ⟨hholds, hstage, ?_⟩
      rw [room]
      omega
  | start data =>
    obtain ⟨hstage, hroom⟩ := hw
    exact ⟨hholds, hstage, hroom, by rw [hholds.head, hholds.size], by omega, List.nil_prefix⟩
  | lengthByte data head i =>
    obtain ⟨hstage, hroom, hhead, hi, hput⟩ := hw
    rw [room] at hroom
    have hcell := cell_eq hholds.size (start_eq rfl (t + (stream queue).length)) i
    rw [← hhead] at hcell
    cases hb : (ByteLayout.toLE 4 data.length)[i]? with
    | some b =>
      have hlt : i < 4 := by
        have hlength := (List.getElem?_eq_some_iff.mp hb).choose
        rwa [ByteLayout.toLE_length] at hlength
      have hbyte : (record data)[i]? = some b := by
        rw [record, List.getElem?_append_left (by rw [ByteLayout.toLE_length]; exact hlt)]
        exact hb
      simp only [writerGo, hb]
      exact ⟨hholds.put b hcell (by omega), hstage, hroom, hhead, hlt,
        put_byte hcell (by omega) hput hbyte⟩
    | none =>
      have hend : i = 4 := by
        rw [List.getElem?_eq_none_iff, ByteLayout.toLE_length] at hb
        omega
      subst hend
      simp only [writerGo, hb]
      exact ⟨hholds, hstage, hroom, by rw [hhead, hholds.size], by omega, hput⟩
  | dataByte data head i =>
    obtain ⟨hstage, hroom, hhead, hi, hput⟩ := hw
    rw [room] at hroom
    have hcell := cell_eq hholds.size (start_add_eq rfl (t + (stream queue).length)) i
    rw [← hhead, Nat.add_assoc] at hcell
    cases hb : data[i]? with
    | some b =>
      have hlt : i < data.length := (List.getElem?_eq_some_iff.mp hb).choose
      have hbyte : (record data)[4 + i]? = some b := by
        rw [record, List.getElem?_append_right (by rw [ByteLayout.toLE_length]; omega),
          ByteLayout.toLE_length, Nat.add_sub_cancel_left]
        exact hb
      have hnext := put_byte hcell (by omega) hput hbyte
      simp only [writerGo, hb]
      exact ⟨hholds.put b hcell (by omega), hstage, hroom, hhead, hlt, hnext⟩
    | none =>
      have hend : i = data.length := by
        rw [List.getElem?_eq_none_iff] at hb
        omega
      subst hend
      simp only [writerGo, hb]
      exact ⟨hholds, hstage, hroom, hput.eq_of_length (by
        rw [Cyclic.window_length, record_length, room])⟩
  | publish data =>
    obtain ⟨hstage, hroom, hput⟩ := hw
    exact ⟨hholds, hstage, hroom, hput, hholds.head⟩
  | publishTo data head =>
    obtain ⟨hstage, hroom, hput, hhead⟩ := hw
    obtain ⟨hanswer, hstep⟩ := fifo_write hroom
    exact ⟨rfl, data, hstage, hanswer, by rw [hstep]; exact hholds.publish hroom hput hhead⟩

/-- What one access of the reader does. A call that finds no message takes effect when it
reads the head, every other call when it returns. -/
def ReaderGoes (ring : BcShmRing) (t : ℕ) (queue : List (List UInt8))
    (stage : Stage RingCall RingAnswer) :
    BcShmRing × ReaderAt × Option (Except BcStatus (List UInt8)) → Prop
  | (ring', reader, none) => ring' = ring ∧
    (ReaderStands t queue stage reader ∨
      ∃ cap, stage = .waiting (.read cap) ∧ fifoStep queue (.read cap) = queue ∧
        ReaderStands t queue (.done (fifoAnswer queue (.read cap))) reader)
  | (ring', reader, some result) => reader = .idle ∧
    (stage = .done (.got result) ∧ ring' = ring ∨
      ∃ cap t', stage = .waiting (.read cap) ∧ fifoAnswer queue (.read cap) = .got result ∧
        Holds ring' t' (fifoStep queue (.read cap)) ∧ ring'.data = ring.data ∧
        t' + (stream (fifoStep queue (.read cap))).length = t + (stream queue).length ∧ t ≤ t')

theorem ReaderStands.go (hholds : Holds ring t queue) (hr : ReaderStands t queue stage reader) :
    ReaderGoes ring t queue stage (readerGo ring reader) := by
  cases reader with
  | idle => exact ⟨rfl, .inl hr⟩
  | entered cap =>
    cases queue with
    | nil => exact ⟨rfl, .inr ⟨cap, hr, rfl, [], List.prefix_rfl, hholds.head, rfl⟩⟩
    | cons msg queue =>
      exact ⟨rfl, .inl ⟨msg :: queue, List.prefix_rfl, hholds.head, hr⟩⟩
  | availTail cap head =>
    obtain ⟨old, hold, hhead, hstage⟩ := hr
    have hshort : (stream old).length ≤ bcShmRingSize := by
      obtain ⟨more, rfl⟩ := hold
      have hfits := hholds.fits
      rw [stream, List.flatMap_append, List.length_append] at hfits
      exact (Nat.le_add_right _ _).trans hfits
    have havail : (head - ring.tail).toNat = (stream old).length := by
      have hapart : head - ring.tail = .ofNat (stream old).length := by
        rw [hhead, hholds.tail, UInt32.ofNat_add, UInt32.add_comm, UInt32.add_sub_cancel]
      rw [hapart]
      exact UInt32.toNat_ofNat_of_lt' (hshort.trans_lt (by decide))
    have hfour : (4 : UInt32).toNat = 4 := rfl
    cases old with
    | nil =>
      have hnone : head - ring.tail < 4 := by
        rw [UInt32.lt_iff_toNat_lt, havail, hfour]
        exact Nat.zero_lt_succ 3
      simp only [readerGo, if_pos hnone]
      exact ⟨rfl, .inl ⟨hstage, rfl⟩⟩
    | cons msg old =>
      rw [stream_cons, List.length_append, record_length] at havail
      have hsome : ¬ head - ring.tail < 4 := by
        rw [UInt32.lt_iff_toNat_lt, havail, hfour, room]
        omega
      have hfirst : [msg] <+: msg :: old := List.prefix_append [msg] old
      simp only [readerGo, if_neg hsome]
      exact ⟨rfl, .inl ⟨hstage, msg, hfirst.trans hold, by rw [havail]; omega⟩⟩
  | start cap avail =>
    obtain ⟨hstage, msg, hmsg, havail⟩ := hr
    refine ⟨rfl, .inl ⟨hstage, ?_, msg, hmsg, havail, List.nil_prefix⟩⟩
    rw [hholds.tail, hholds.size]
  | lengthByte cap avail tail got =>
    obtain ⟨hstage, htail, msg, ⟨rest, rfl⟩, havail, hgot⟩ := hr
    by_cases hmore : got.length < 4
    · have hbyte := hholds.byte (i := got.length) (by rw [room]; omega)
      have hcell := cell_eq hholds.size (start_eq rfl t) got.length
      rw [record, List.getElem?_append_left (by rw [ByteLayout.toLE_length]; exact hmore),
        ← hcell, ← htail] at hbyte
      simp only [readerGo, if_pos hmore]
      exact ⟨rfl, .inl ⟨hstage, htail, msg, List.prefix_append _ _, havail, got_byte hgot hbyte⟩⟩
    · have hwhole : got = ByteLayout.toLE 4 msg.length := by
        refine hgot.eq_of_length_le ?_
        rw [ByteLayout.toLE_length]
        exact Nat.not_lt.mp hmore
      have hfits := hholds.fits
      rw [List.singleton_append, stream_cons, List.length_append, record_length, room] at hfits
      have hlen : ByteLayout.ofLE got = msg.length := by
        rw [hwhole]
        exact ByteLayout.ofLE_toLE 4 _ (by simp only [bcShmRingSize] at hfits; omega)
      have henough : ¬ avail.toNat < 4 + msg.length := Nat.not_lt.mpr havail
      by_cases hlong : msg.length > cap
      · obtain ⟨hanswer, hstep⟩ := fifo_read_long rest hlong
        simp only [readerGo, if_neg hmore, hlen, if_neg henough, if_pos hlong]
        exact ⟨rfl, .inr ⟨cap, t, hstage, hanswer, by rw [List.singleton_append, hstep]; exact hholds,
          rfl, by rw [List.singleton_append, hstep], le_rfl⟩⟩
      · simp only [readerGo, if_neg hmore, hlen, if_neg henough, if_neg hlong]
        exact ⟨rfl, .inl ⟨hstage, msg, List.prefix_append _ _, rfl, Nat.not_lt.mp hlong⟩⟩
  | payload cap len =>
    obtain ⟨hstage, msg, hmsg, hlen, hcap⟩ := hr
    have hfour : (4 : UInt32) = .ofNat 4 := rfl
    refine ⟨rfl, .inl ⟨hstage, ?_, msg, hmsg, hlen, hcap, List.nil_prefix⟩⟩
    rw [hholds.tail, hholds.size, hfour, ← UInt32.ofNat_add]
  | dataByte cap len tail got =>
    obtain ⟨hstage, htail, msg, ⟨rest, rfl⟩, hlen, hcap, hgot⟩ := hr
    by_cases hmore : got.length < len
    · have hbyte := hholds.byte (i := 4 + got.length) (by rw [room]; omega)
      have hcell := cell_eq hholds.size (start_eq rfl (t + 4)) got.length
      rw [record, List.getElem?_append_right (by rw [ByteLayout.toLE_length]; omega),
        ByteLayout.toLE_length, Nat.add_sub_cancel_left, ← Nat.add_assoc, ← hcell, ← htail] at hbyte
      simp only [readerGo, if_pos hmore]
      exact ⟨rfl, .inl ⟨hstage, htail, msg, List.prefix_append _ _, hlen, hcap,
        got_byte hgot hbyte⟩⟩
    · have hwhole : got = msg := hgot.eq_of_length_le (by omega)
      subst hwhole
      simp only [readerGo, if_neg hmore]
      exact ⟨rfl, .inl ⟨hstage, List.prefix_append _ _, hlen, hcap⟩⟩
  | publish cap len got =>
    obtain ⟨hstage, hmsg, hlen, hcap⟩ := hr
    exact ⟨rfl, .inl ⟨hstage, hmsg, hlen, hcap, hholds.tail⟩⟩
  | publishTo cap len got tail =>
    obtain ⟨hstage, ⟨rest, rfl⟩, rfl, hcap, htail⟩ := hr
    obtain ⟨hanswer, hstep⟩ := fifo_read rest hcap
    refine ⟨rfl, .inr ⟨cap, t + room got, hstage, hanswer, ?_, rfl, ?_, Nat.le_add_right _ _⟩⟩
    · rw [List.singleton_append, hstep]
      exact hholds.take htail
    · rw [List.singleton_append, hstep, stream_cons, List.length_append, record_length,
        Nat.add_assoc]

end Sides

section Moments

open Linearization (Atomic Follows LinearizedBy)

/-- A ring in use and a queue on which every call takes effect in a step of its own. -/
structure Stands (s : SharedRing) (t : ℕ)
    (x : Atomic (List (List UInt8)) Side RingCall RingAnswer) : Prop where
  holds : Holds s.ring t x.object
  writer : WriterStands s.ring.data (t + (stream x.object).length) (stream x.object).length
    (x.stage .writer) s.writer
  reader : ReaderStands t x.object (x.stage .reader) s.reader

theorem stands_newSharedRing : Stands newSharedRing 0 (.fresh []) :=
  ⟨holds_initRing, rfl, rfl⟩

variable {s : SharedRing} {t : ℕ} {x : Atomic (List (List UInt8)) Side RingCall RingAnswer}

theorem Stands.call (h : Stands s t x) (call : RingCall) :
    ∃ y, Follows fifoAnswer fifoStep x (sharedSeen s (.call call)) y ∧
      Stands (sharedStep s (.call call)) t y := by
  obtain ⟨hholds, hwriter, hreader⟩ := h
  by_cases hidle : s.isIdle call.side = true
  · refine ⟨x.at call.side (.waiting call), ?_, ?_⟩
    · have hstage : x.stage call.side = .idle := by
        cases call with
        | write data =>
          cases hat : s.writer <;> simp [SharedRing.isIdle, RingCall.side, hat] at hidle
          rw [hat] at hwriter
          exact hwriter
        | read cap =>
          cases hat : s.reader <;> simp [SharedRing.isIdle, RingCall.side, hat] at hidle
          rw [hat] at hreader
          exact hreader
      rw [sharedSeen, if_pos hidle]
      exact .single (.call call hstage)
    · simp only [sharedStep, if_pos hidle]
      cases call with
      | write data => exact ⟨hholds, by simp [RingCall.side, WriterStands], by simpa [RingCall.side]⟩
      | read cap => exact ⟨hholds, by simpa [RingCall.side], by simp [RingCall.side, ReaderStands]⟩
  · simp only [sharedSeen, sharedStep, if_neg hidle]
    exact ⟨x, .refl x, hholds, hwriter, hreader⟩

/-- What is put is put behind the others. -/
theorem fifoStep_write (queue : List (List UInt8)) (data : List UInt8) :
    ∃ more, fifoStep queue (.write data) = queue ++ more := by
  by_cases hok : (fifoAnswer queue (.write data)).succeeds = true
  · exact ⟨[data], by rw [fifoStep, if_pos hok]⟩
  · exact ⟨[], by rw [fifoStep, if_neg hok, List.append_nil]⟩

theorem Stands.writerGo (h : Stands s t x) :
    ∃ y, Follows fifoAnswer fifoStep x (sharedSeen s (.go .writer)) y ∧
      Stands (sharedStep s (.go .writer)) t y := by
  obtain ⟨hholds, hwriter, hreader⟩ := h
  have hgo := hwriter.go hholds
  simp only [sharedSeen, sharedStep]
  generalize ShmRing.writerGo s.ring s.writer = result at hgo ⊢
  obtain ⟨ring, writer, _ | rc⟩ := result
  · exact ⟨x, .refl x, hgo.1, hgo.2, hreader⟩
  · obtain ⟨rfl, data, hstage, hanswer, hnext⟩ := hgo
    obtain ⟨more, hmore⟩ := fifoStep_write x.object data
    refine ⟨_, Follows.answer_now hstage hanswer, hnext, ?_, ?_⟩
    · simp [WriterStands]
    · simpa [Atomic.effect, hmore] using hreader.append more

theorem Stands.readerGo (h : Stands s t x) :
    ∃ t' y, Follows fifoAnswer fifoStep x (sharedSeen s (.go .reader)) y ∧
      Stands (sharedStep s (.go .reader)) t' y := by
  obtain ⟨hholds, hwriter, hreader⟩ := h
  have hgo := hreader.go hholds
  simp only [sharedSeen, sharedStep]
  generalize ShmRing.readerGo s.ring s.reader = result at hgo ⊢
  obtain ⟨ring, reader, _ | result⟩ := result
  · obtain ⟨rfl, hsame | ⟨cap, hstage, hstep, hdone⟩⟩ := hgo
    · exact ⟨t, x, .refl x, hholds, hwriter, hsame⟩
    · refine ⟨t, _, .single (.effect hstage), ?_, ?_, ?_⟩
      · simpa [Atomic.effect, hstep] using hholds
      · simpa [Atomic.effect, hstep] using hwriter
      · simpa [Atomic.effect, hstep] using hdone
  · obtain ⟨rfl, ⟨hstage, rfl⟩ | ⟨cap, t', hstage, hanswer, hnext, hdata, hhead, htail⟩⟩ := hgo
    · exact ⟨t, x.at .reader .idle, .single (.answer hstage), hholds, by simpa,
        by simp [ReaderStands]⟩
    · refine ⟨t', _, Follows.answer_now hstage hanswer, hnext, ?_, ?_⟩
      · have hless : (stream (fifoStep x.object (.read cap))).length ≤
            (stream x.object).length := by omega
        simpa [Atomic.effect, hdata, hhead] using hwriter.mono hless
      · simp [ReaderStands]

/-- The queue does what the ring does. -/
def Simulates (s : SharedRing) (x : Atomic (List (List UInt8)) Side RingCall RingAnswer) : Prop :=
  ∃ t, Stands s t x

theorem Stands.simulates (h : Stands s t x) : Simulates s x := ⟨t, h⟩

theorem Simulates.step (h : Simulates s x) (moment : Access) :
    ∃ y, Follows fifoAnswer fifoStep x (sharedSeen s moment) y ∧
      Simulates (sharedStep s moment) y := by
  obtain ⟨t, h⟩ := h
  match moment with
  | .call call =>
    obtain ⟨y, hfollows, hnext⟩ := h.call call
    exact ⟨y, hfollows, t, hnext⟩
  | .go .writer =>
    obtain ⟨y, hfollows, hnext⟩ := h.writerGo
    exact ⟨y, hfollows, t, hnext⟩
  | .go .reader =>
    obtain ⟨t', y, hfollows, hnext⟩ := h.readerGo
    exact ⟨y, hfollows, t', hnext⟩

/-- However the accesses of the two sides fall between each other, the calls could have been
made one at a time on a queue, each of them at one moment between its call and its answer. -/
theorem ring_is_linearizable (moments : List Access) :
    ∃ order, LinearizedBy fifoAnswer fifoStep []
      (Runs.collect sharedStep sharedSeen newSharedRing moments) order := by
  obtain ⟨x, hfollows, -⟩ := Linearization.follows_of_simulation (fun _ _ moment h => h.step moment)
    stands_newSharedRing.simulates moments
  obtain ⟨order, hlinear, -⟩ := hfollows.linearized rfl
  exact ⟨order, hlinear⟩

end Moments

section Ending

/-- How many accesses the writer makes at most until it returns. -/
def writerLeft : WriterAt → ℕ
  | .idle => 0
  | .entered data => data.length + 11
  | .spaceTail data _ => data.length + 10
  | .start data => data.length + 9
  | .lengthByte data _ i => (4 - i) + (data.length + 4)
  | .dataByte data _ i => (data.length - i) + 3
  | .publish _ => 2
  | .publishTo _ _ => 1

/-- How many accesses the reader makes at most until it returns. -/
def readerLeft : ReaderAt → ℕ
  | .idle => 0
  | .entered cap => cap + 12
  | .availTail cap _ => cap + 11
  | .start cap _ => cap + 10
  | .lengthByte cap _ _ got => (4 - got.length) + (cap + 5)
  | .payload _ len => len + 4
  | .dataByte _ len _ got => (len - got.length) + 3
  | .publish _ _ _ => 2
  | .publishTo _ _ _ _ => 1

/-- How many accesses a call takes at most. -/
def RingCall.accesses : RingCall → ℕ
  | .write data => data.length + 11
  | .read cap => cap + 12

def SharedRing.left (s : SharedRing) : Side → ℕ
  | .writer => writerLeft s.writer
  | .reader => readerLeft s.reader

variable {ring : BcShmRing} {s : SharedRing} {side : Side}

theorem writerGo_left (writer : WriterAt) (hnone : (writerGo ring writer).2.2 = none)
    (hbusy : 0 < writerLeft writer) :
    writerLeft (writerGo ring writer).2.1 + 1 ≤ writerLeft writer ∧
      0 < writerLeft (writerGo ring writer).2.1 := by
  cases writer with
  | idle => exact absurd hbusy (Nat.lt_irrefl 0)
  | entered data =>
    by_cases hlong : data.length > bcShmRingSize - 4
    · simp [writerGo, hlong] at hnone
    · simp only [writerGo, if_neg hlong, writerLeft]
      omega
  | spaceTail data head =>
    by_cases hfull : (ring.size - (head - ring.tail)).toNat < 4 + data.length
    · simp [writerGo, hfull] at hnone
    · simp only [writerGo, if_neg hfull, writerLeft]
      omega
  | start data =>
    simp only [writerGo, writerLeft]
    omega
  | lengthByte data head i =>
    cases hb : (ByteLayout.toLE 4 data.length)[i]? with
    | some b =>
      have hlt := (List.getElem?_eq_some_iff.mp hb).choose
      rw [ByteLayout.toLE_length] at hlt
      simp only [writerGo, hb, writerLeft]
      omega
    | none =>
      simp only [writerGo, hb, writerLeft]
      omega
  | dataByte data head i =>
    cases hb : data[i]? with
    | some b =>
      have hlt := (List.getElem?_eq_some_iff.mp hb).choose
      simp only [writerGo, hb, writerLeft]
      omega
    | none =>
      simp only [writerGo, hb, writerLeft]
      omega
  | publish data =>
    simp only [writerGo, writerLeft]
    omega
  | publishTo data head => simp [writerGo] at hnone

theorem readerGo_left (reader : ReaderAt) (hnone : (readerGo ring reader).2.2 = none)
    (hbusy : 0 < readerLeft reader) :
    readerLeft (readerGo ring reader).2.1 + 1 ≤ readerLeft reader ∧
      0 < readerLeft (readerGo ring reader).2.1 := by
  cases reader with
  | idle => exact absurd hbusy (Nat.lt_irrefl 0)
  | entered cap =>
    simp only [readerGo, readerLeft]
    omega
  | availTail cap head =>
    by_cases hshort : head - ring.tail < 4
    · simp [readerGo, hshort] at hnone
    · simp only [readerGo, if_neg hshort, readerLeft]
      omega
  | start cap avail =>
    simp only [readerGo, readerLeft, List.length_nil]
    omega
  | lengthByte cap avail tail got =>
    by_cases hmore : got.length < 4
    · simp only [readerGo, if_pos hmore, readerLeft, List.length_append, List.length_singleton]
      omega
    by_cases hshort : avail.toNat < 4 + ByteLayout.ofLE got
    · simp [readerGo, hmore, hshort] at hnone
    by_cases hlong : ByteLayout.ofLE got > cap
    · simp [readerGo, hmore, hshort, hlong] at hnone
    · simp only [readerGo, if_neg hmore, if_neg hshort, if_neg hlong, readerLeft]
      omega
  | payload cap len =>
    simp only [readerGo, readerLeft, List.length_nil]
    omega
  | dataByte cap len tail got =>
    by_cases hmore : got.length < len
    · simp only [readerGo, if_pos hmore, readerLeft, List.length_append, List.length_singleton]
      omega
    · simp only [readerGo, if_neg hmore, readerLeft]
      omega
  | publish cap len got =>
    simp only [readerGo, readerLeft]
    omega
  | publishTo cap len got tail => simp [readerGo] at hnone

theorem RingCall.accesses_pos (call : RingCall) : 0 < call.accesses := by
  cases call <;> exact Nat.zero_lt_succ _

theorem left_call {call : RingCall} (hidle : s.isIdle call.side = true) :
    (sharedStep s (.call call)).left call.side = call.accesses := by
  cases call with
  | write data =>
    simp only [sharedStep, if_pos hidle]
    rfl
  | read cap =>
    simp only [sharedStep, if_pos hidle]
    rfl

/-- A side in a call is nearer to its end after each access of its own, and no further after
any other. -/
theorem left_step (moment : Access) (hbusy : 0 < s.left side) :
    (∃ answer, .answered side answer ∈ sharedSeen s moment) ∨
      0 < (sharedStep s moment).left side ∧
        (sharedStep s moment).left side + [moment].count (.go side) ≤ s.left side := by
  match moment, side with
  | .call call, side =>
    have hcount : [Access.call call].count (.go side) = 0 := rfl
    refine .inr ?_
    rw [hcount]
    by_cases hidle : s.isIdle call.side = true
    · cases call with
      | write data =>
        cases side with
        | writer =>
          cases hat : s.writer <;>
            simp [SharedRing.isIdle, RingCall.side, SharedRing.left, writerLeft, hat] at hidle hbusy
        | reader =>
          simp only [sharedStep, if_pos hidle]
          exact ⟨hbusy, le_rfl⟩
      | read cap =>
        cases side with
        | writer =>
          simp only [sharedStep, if_pos hidle]
          exact ⟨hbusy, le_rfl⟩
        | reader =>
          cases hat : s.reader <;>
            simp [SharedRing.isIdle, RingCall.side, SharedRing.left, readerLeft, hat] at hidle hbusy
    · simp only [sharedStep, if_neg hidle]
      exact ⟨hbusy, le_rfl⟩
  | .go .writer, .reader => exact .inr ⟨hbusy, le_rfl⟩
  | .go .reader, .writer => exact .inr ⟨hbusy, le_rfl⟩
  | .go .writer, .writer =>
    cases hresult : (writerGo s.ring s.writer).2.2 with
    | some rc => exact .inl ⟨.wrote rc, by simp [sharedSeen, hresult]⟩
    | none =>
      have hleft := writerGo_left s.writer hresult hbusy
      exact .inr ⟨hleft.2, hleft.1⟩
  | .go .reader, .reader =>
    cases hresult : (readerGo s.ring s.reader).2.2 with
    | some result => exact .inl ⟨.got result, by simp [sharedSeen, hresult]⟩
    | none =>
      have hleft := readerGo_left s.reader hresult hbusy
      exact .inr ⟨hleft.2, hleft.1⟩

/-- A side that makes so many accesses returns. -/
theorem left_run (moments : List Access) (hbusy : 0 < s.left side)
    (henough : s.left side ≤ moments.count (.go side)) :
    ∃ answer, .answered side answer ∈ Runs.collect sharedStep sharedSeen s moments := by
  induction moments generalizing s with
  | nil => exact absurd (henough.trans_eq List.count_nil) (Nat.not_le.mpr hbusy)
  | cons moment moments ih =>
    rw [List.count_cons, ← List.count_singleton] at henough
    rcases left_step moment hbusy with ⟨answer, hanswer⟩ | ⟨hstill, hless⟩
    · exact ⟨answer, List.mem_append_left _ hanswer⟩
    · obtain ⟨answer, hanswer⟩ := ih hstill (by omega)
      exact ⟨answer, List.mem_append_right _ hanswer⟩

/-- A call returns after a number of accesses of its own side that only its arguments
decide, whatever the other side does meanwhile. -/
theorem ring_calls_end (moments more : List Access) (call : RingCall)
    (hidle : (Runs.run sharedStep newSharedRing moments).isIdle call.side = true)
    (henough : call.accesses ≤ more.count (.go call.side)) :
    ∃ answer, .answered call.side answer ∈ Runs.collect sharedStep sharedSeen
      (Runs.run sharedStep newSharedRing moments) (.call call :: more) := by
  have hleft := left_call hidle
  obtain ⟨answer, hanswer⟩ := left_run more (hleft ▸ call.accesses_pos) (hleft ▸ henough)
  exact ⟨answer, List.mem_append_right _ hanswer⟩

/-- A read that begins while a message is being written. -/
theorem ring_calls_end_read :
    ∃ answer, .answered .reader answer ∈ Runs.collect sharedStep sharedSeen
      (Runs.run sharedStep newSharedRing [.call (.write [7]), .go .writer])
      (.call (.read 2) :: List.replicate 14 (.go .reader)) :=
  ring_calls_end _ _ (.read 2) rfl (by decide)

end Ending

end BoardComm.ShmRing
