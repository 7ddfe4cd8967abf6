import BoardComm.StartMetadata

/-!
# The states of one transfer

The sender is described by the number of chunks it has sent, the receiver by the
pieces it has written. Each step of either party, on a packet of the transfer,
is computed on these descriptions once; agreement and recovery are argued about
the descriptions only.
-/
namespace BoardComm

/-- What the receiver makes of a chunk: the chunk, or what follows a leading id. -/
def Piece (chunk piece : List UInt8) : Prop :=
  piece = chunk ∨ 4 < chunk.length ∧ piece = chunk.drop 4

/-- The pieces are made of the first chunks, in order. -/
inductive Kept : List (List UInt8) → List (List UInt8) → Prop
  | nil (chunks : List (List UInt8)) : Kept chunks []
  | cons {chunk piece : List UInt8} {chunks pieces : List (List UInt8)} :
      Piece chunk piece → Kept chunks pieces → Kept (chunk :: chunks) (piece :: pieces)

theorem Piece.length_le {chunk piece : List UInt8} (h : Piece chunk piece) :
    piece.length ≤ chunk.length := by
  rcases h with rfl | ⟨-, rfl⟩
  · exact le_refl _
  · simp

theorem Piece.eq_of_length {chunk piece : List UInt8} (h : Piece chunk piece)
    (hlen : piece.length = chunk.length) : piece = chunk := by
  rcases h with rfl | ⟨hlong, rfl⟩
  · rfl
  · rw [List.length_drop] at hlen
    omega

namespace Kept

variable {chunks pieces : List (List UInt8)} {chunk piece : List UInt8}

theorem length_le (h : Kept chunks pieces) : pieces.length ≤ chunks.length := by
  induction h with
  | nil => simp
  | cons _ _ ih => simpa using ih

theorem flatten_length_le (h : Kept chunks pieces) :
    pieces.flatten.length ≤ chunks.flatten.length := by
  induction h with
  | nil => simp
  | cons hp _ ih =>
    have := hp.length_le
    simp only [List.flatten_cons, List.length_append]
    omega

/-- The next chunk continues the pieces. -/
theorem append (h : Kept chunks pieces) (hnext : chunks[pieces.length]? = some chunk)
    (hp : Piece chunk piece) : Kept chunks (pieces ++ [piece]) := by
  induction h with
  | nil chunks =>
    cases chunks with
    | nil => simp at hnext
    | cons c cs =>
      obtain rfl : c = chunk := by simpa using hnext
      exact .cons hp (.nil cs)
  | cons hp' _ ih => exact .cons hp' (ih (by simpa using hnext))

/-- Pieces as long as the file are the chunks: every chunk is there, and no piece
was cut. -/
theorem eq_of_flatten_length (h : Kept chunks pieces) (hne : ∀ c ∈ chunks, c ≠ [])
    (hlen : pieces.flatten.length = chunks.flatten.length) : pieces = chunks := by
  induction h with
  | nil chunks =>
    cases chunks with
    | nil => rfl
    | cons c cs =>
      have hc : 0 < c.length := List.length_pos_iff.mpr (hne c (by simp))
      simp only [List.flatten_nil, List.length_nil, List.flatten_cons, List.length_append] at hlen
      omega
  | @cons c p cs ps hp hps ih =>
    have hpc := hp.length_le
    have hrest := hps.flatten_length_le
    simp only [List.flatten_cons, List.length_append] at hlen
    have hhead : p = c := hp.eq_of_length (by omega)
    have htail := ih (fun d hd => hne d (List.mem_cons_of_mem _ hd)) (by omega)
    rw [hhead, htail]

/-- A prefix of the chunks is kept as it is. -/
theorem take (chunks : List (List UInt8)) (k : ℕ) : Kept chunks (chunks.take k) := by
  induction chunks generalizing k with
  | nil => simpa using Kept.nil []
  | cons c cs ih =>
    cases k with
    | zero => exact .nil _
    | succ k => exact .cons (.inl rfl) (ih k)

end Kept

/-- The running checksum over written pieces. -/
def crcOf (pieces : List (List UInt8)) : UInt32 := bcFileCrc32Update 0xffffffff pieces.flatten

theorem crcOf_append (pieces : List (List UInt8)) (piece : List UInt8) :
    crcOf (pieces ++ [piece]) = bcFileCrc32Update (crcOf pieces) piece := by
  simp [crcOf]

namespace FileTransfer

variable (t : FileTransfer)

/-- The number of chunks. -/
abbrev count : ℕ := t.chunks.length

theorem count_lt : t.count < 2 ^ 32 := by
  have hle : ∀ cs : List (List UInt8), (∀ c ∈ cs, c ≠ []) → cs.length ≤ cs.flatten.length := by
    intro cs hcs
    induction cs with
    | nil => simp
    | cons c cs ih =>
      have hc : 0 < c.length := List.length_pos_iff.mpr (hcs c (by simp))
      have := ih (fun d hd => hcs d (List.mem_cons_of_mem _ hd))
      simp only [List.length_cons, List.flatten_cons, List.length_append]
      omega
  exact (hle t.chunks t.chunk_ne).trans_lt t.size_lt

/-- The END packet of the whole file. -/
def finalEnd : List UInt8 := t.endPacket (crcOf t.chunks)

/-- The packets of the transfer. -/
inductive Emits : List UInt8 → Prop
  | start : Emits t.startPacket
  | data {i : ℕ} {chunk : List UInt8} (h : t.chunks[i]? = some chunk) :
      Emits (fileDataPacket (.ofNat i) chunk)
  | done : Emits t.finalEnd

/-- The cache after the first `k` chunks. -/
def cacheAfter : ℕ → FileCache
  | 0 => fun _ => none
  | k + 1 =>
    match t.chunks[k]? with
    | some chunk => storeCacheSlot (cacheAfter k) (.ofNat k) chunk
    | none => cacheAfter k

/-- The sender after the first `k` chunks. -/
def sender (k : ℕ) (phase : SendPhase) : FileSend :=
  ⟨phase, .ofNat k, t.chunks.drop k, crcOf (t.chunks.take k), t.cacheAfter k⟩

/-- The receiver that has written the pieces and, where `ended`, has seen END. -/
def receiver (pieces : List (List UInt8)) (ended : Bool) : FileRecv :=
  ⟨true, some pieces.flatten, .ofNat t.content.length, .ofNat pieces.flatten.length,
    .ofNat pieces.length, t.transferId, crcOf pieces, if ended then ~~~(crcOf t.chunks) else 0,
    true, ended, true, none⟩

/-- The receiver that has the whole file. -/
def complete : FileRecv := { t.receiver t.chunks true with fp := false, exit := some .ok }

/-- The request for chunk `k`. -/
def nackPacket (k : ℕ) : List UInt8 := fileV2Control bcFilePktNack (.ofNat k) t.transferId

def donePacket : List UInt8 := fileV2Control bcFilePktDone (.ofNat t.count) t.transferId

end FileTransfer

section Cache

variable {cache : FileCache} {seq : UInt32} {slot : FileCacheSlot}

theorem findCacheSlot_valid (h : findCacheSlot cache seq = some slot) :
    slot.seq = seq ∧ ∃ i, cache i = some slot := by
  have hmem := List.mem_of_find?_eq_some h
  have hseq := List.find?_some h
  obtain ⟨i, -, hi⟩ := List.mem_filterMap.mp hmem
  exact ⟨by simpa using hseq, i, hi⟩

theorem findCacheSlot_of_valid {i : Fin bcFileRetxWindow} (h : cache i = some slot) :
    ∃ found, findCacheSlot cache slot.seq = some found := by
  apply Option.isSome_iff_exists.mp
  rw [findCacheSlot, List.find?_isSome]
  exact ⟨slot, List.mem_filterMap.mpr ⟨i, List.mem_finRange i, h⟩, by simp⟩

namespace FileTransfer

variable {t : FileTransfer} {k j : ℕ} {chunk : List UInt8}

theorem cacheAfter_succ (h : t.chunks[k]? = some chunk) :
    t.cacheAfter (k + 1) = storeCacheSlot (t.cacheAfter k) (.ofNat k) chunk := by
  simp [cacheAfter, h]

theorem toNat_ofNat_of_le_count (h : k ≤ t.count) : (UInt32.ofNat k).toNat = k := by
  exact UInt32.toNat_ofNat_of_lt' (h.trans_lt t.count_lt)

theorem exists_chunk (h : k < t.count) : ∃ chunk, t.chunks[k]? = some chunk :=
  ⟨_, List.getElem?_eq_getElem h⟩

/-- A chunk that was sent lately is in the cache. -/
theorem cacheAfter_of_recent (hk : k ≤ t.count) (hj : j < k) (hrecent : k ≤ j + bcFileRetxWindow)
    (hchunk : t.chunks[j]? = some chunk) :
    t.cacheAfter k (Fin.ofNat bcFileRetxWindow j) = some ⟨.ofNat j, chunk⟩ := by
  induction k with
  | zero => omega
  | succ k ih =>
    obtain ⟨last, hlast⟩ := exists_chunk (t := t) (Nat.lt_of_succ_le hk)
    rw [cacheAfter_succ hlast, storeCacheSlot, toNat_ofNat_of_le_count (t := t) (by omega)]
    by_cases hjk : j = k
    · subst hjk
      obtain rfl : last = chunk := by simpa [hchunk] using hlast.symm
      exact Function.update_self ..
    · rw [Function.update_of_ne, ih (by omega) (by omega) (by omega)]
      intro h
      have hmod := congrArg Fin.val h
      simp only [Fin.ofNat] at hmod
      simp only [bcFileRetxWindow] at *
      omega

/-- What the cache holds was sent lately. -/
theorem recent_of_cacheAfter (hk : k ≤ t.count) {i : Fin bcFileRetxWindow} {slot : FileCacheSlot}
    (h : t.cacheAfter k i = some slot) :
    ∃ j < k, k ≤ j + bcFileRetxWindow ∧ slot.seq = .ofNat j ∧ t.chunks[j]? = some slot.data := by
  suffices hs : ∃ j < k, k ≤ j + bcFileRetxWindow ∧ i = Fin.ofNat bcFileRetxWindow j ∧
      slot.seq = .ofNat j ∧ t.chunks[j]? = some slot.data by
    obtain ⟨j, hj, hr, -, hseq, hdata⟩ := hs
    exact ⟨j, hj, hr, hseq, hdata⟩
  induction k with
  | zero => simp [cacheAfter] at h
  | succ k ih =>
    obtain ⟨last, hlast⟩ := exists_chunk (t := t) (Nat.lt_of_succ_le hk)
    rw [cacheAfter_succ hlast, storeCacheSlot, toNat_ofNat_of_le_count (t := t) (by omega)] at h
    by_cases hi : i = Fin.ofNat bcFileRetxWindow k
    · rw [hi, Function.update_self] at h
      obtain rfl : ⟨.ofNat k, last⟩ = slot := by simpa using h
      exact ⟨k, by omega, by simp only [bcFileRetxWindow]; omega, hi, rfl, hlast⟩
    · rw [Function.update_of_ne hi] at h
      obtain ⟨j, hj, hr, hij, hseq, hdata⟩ := ih (by omega) h
      have hne : j % 256 ≠ k % 256 := by
        intro hmod
        apply hi
        rw [hij]
        exact Fin.ext hmod
      refine ⟨j, by omega, ?_, hij, hseq, hdata⟩
      simp only [bcFileRetxWindow] at *
      omega

/-- The sender finds exactly the chunks it sent lately. -/
theorem find_cacheAfter (hk : k ≤ t.count) (hj : j < k) (hchunk : t.chunks[j]? = some chunk) :
    findCacheSlot (t.cacheAfter k) (.ofNat j) =
      if k ≤ j + bcFileRetxWindow then some ⟨.ofNat j, chunk⟩ else none := by
  have hfound : ∀ slot, findCacheSlot (t.cacheAfter k) (.ofNat j) = some slot →
      k ≤ j + bcFileRetxWindow ∧ slot = ⟨.ofNat j, chunk⟩ := by
    intro slot h
    obtain ⟨hseq, i, hi⟩ := findCacheSlot_valid h
    obtain ⟨j', hj', hr, hseq', hdata⟩ := recent_of_cacheAfter hk hi
    have hval := congrArg UInt32.toNat (hseq.symm.trans hseq')
    rw [toNat_ofNat_of_le_count (t := t) (by omega), toNat_ofNat_of_le_count (t := t) (by omega)]
      at hval
    subst hval
    obtain ⟨seq, data⟩ := slot
    simp_all
  split
  · next hr =>
    obtain ⟨slot, hslot⟩ := findCacheSlot_of_valid (cacheAfter_of_recent hk hj hr hchunk)
    rw [hslot, (hfound slot hslot).2]
  · next hr =>
    apply Option.eq_none_iff_forall_ne_some.mpr
    intro slot hslot
    exact hr (hfound slot hslot).1

end FileTransfer

end Cache

section SenderSteps

variable {t : FileTransfer}

/-- Where the sender of a transfer can stand. -/
inductive FileTransfer.SenderAt (t : FileTransfer) : FileSend → Prop
  | start : t.SenderAt (t.sender 0 .start)
  | data {k : ℕ} (h : k ≤ t.count) : t.SenderAt (t.sender k .data)
  | wait (round : ℕ) (doneSeen resentAny : Bool) :
      t.SenderAt (t.sender t.count (.wait round doneSeen resentAny))
  | returned {k : ℕ} (h : k ≤ t.count) (rc : BcStatus) : t.SenderAt (t.sender k (.returned rc))

/-- The sender has been told that the receiver is done. -/
def FileSend.DoneSeen (s : FileSend) : Prop :=
  (∃ round resentAny, s.phase = .wait round true resentAny) ∨ s.phase = .returned .ok

/-- A packet that the sender takes for DONE. -/
def FileTransfer.IsDone (t : FileTransfer) (payload : List UInt8) : Prop :=
  ∃ hdr extra, parseFilePacket payload = some (hdr, extra) ∧
    parseFileV2Control hdr extra bcFilePktDone t.transferId = .ok

/-- What a step of the sender may do: it stays in the transfer, writes packets of
the transfer, and learns that the receiver is done from a DONE packet only. -/
structure FileTransfer.SenderStep (t : FileTransfer) (s : FileSend) (answer : SendAnswer)
    (next : FileSend × List (List UInt8)) : Prop where
  stays : t.SenderAt next.1
  emits : ∀ p ∈ next.2, t.Emits p
  done : next.1.DoneSeen → s.DoneSeen ∨ ∃ payload rc, answer = .read payload rc ∧ t.IsDone payload

@[simp] theorem not_doneSeen_start {k : ℕ} : ¬ (t.sender k .start).DoneSeen := by
  simp [FileSend.DoneSeen, FileTransfer.sender]

@[simp] theorem not_doneSeen_data {k : ℕ} : ¬ (t.sender k .data).DoneSeen := by
  simp [FileSend.DoneSeen, FileTransfer.sender]

@[simp] theorem doneSeen_wait {k round : ℕ} {doneSeen resentAny : Bool} :
    (t.sender k (.wait round doneSeen resentAny)).DoneSeen ↔ doneSeen = true := by
  simp [FileSend.DoneSeen, FileTransfer.sender]

@[simp] theorem doneSeen_returned {k : ℕ} {rc : BcStatus} :
    (t.sender k (.returned rc)).DoneSeen ↔ rc = .ok := by
  simp [FileSend.DoneSeen, FileTransfer.sender]

theorem sendFileStep_start (t : FileTransfer) (rc : BcStatus) :
    sendFileStep t (t.sender 0 .start) (.write rc) =
      some (if rc = .ok then (t.sender 0 .data, [t.startPacket])
        else (t.sender 0 (.returned rc), [])) := by
  simp only [apply_ite some]
  rfl

theorem sendFileStep_data {k : ℕ} {chunk : List UInt8} (h : t.chunks[k]? = some chunk)
    (rc : BcStatus) :
    sendFileStep t (t.sender k .data) (.write rc) =
      some (if rc = .ok then (t.sender (k + 1) .data, [fileDataPacket (.ofNat k) chunk])
        else (t.sender k (.returned rc), [])) := by
  have hdrop : t.chunks.drop k = chunk :: t.chunks.drop (k + 1) := by
    obtain ⟨hk, rfl⟩ := List.getElem?_eq_some_iff.mp h
    exact List.drop_eq_getElem_cons hk
  have htake : t.chunks.take (k + 1) = t.chunks.take k ++ [chunk] := by
    rw [List.take_add_one, h]
    rfl
  simp [sendFileStep, FileTransfer.sender, hdrop, htake, crcOf_append,
    FileTransfer.cacheAfter_succ h, apply_ite some]

theorem sendFileStep_end (t : FileTransfer) (rc : BcStatus) :
    sendFileStep t (t.sender t.count .data) (.write rc) =
      some (if rc = .ok then (t.sender t.count (.wait 0 false false), [t.finalEnd])
        else (t.sender t.count (.returned rc), [])) := by
  simp [sendFileStep, FileTransfer.sender, FileTransfer.finalEnd, apply_ite some]

/-- A request for a chunk is answered while the cache still holds the chunk. -/
theorem senderHandlePacket_nack {n j : ℕ} {chunk : List UInt8} (hn : n ≤ t.count) (hj : j < n)
    (h : t.chunks[j]? = some chunk) (round : ℕ) (doneSeen resentAny : Bool) (rc : BcStatus) :
    senderHandlePacket t (t.sender n (.wait round doneSeen resentAny)) round doneSeen
      resentAny (t.nackPacket j) rc =
      if n ≤ j + bcFileRetxWindow then
        if rc = .ok then
          (t.sender n (.wait round doneSeen true), [fileDataPacket (.ofNat j) chunk])
        else (t.sender n (.returned rc), [])
      else (t.sender n (.returned .io), []) := by
  have hsent : ¬ UInt32.ofNat j ≥ (t.sender n (.wait round doneSeen resentAny)).seq := by
    rw [ge_iff_le, UInt32.le_iff_toNat_le, FileTransfer.sender,
      FileTransfer.toNat_ofNat_of_le_count hn,
      FileTransfer.toNat_ofNat_of_le_count (hj.le.trans hn)]
    omega
  have hfind := FileTransfer.find_cacheAfter hn hj h
  have htype : ¬ (bcFilePktNack = bcFilePktStart ∨ bcFilePktNack = bcFilePktData ∨
      bcFilePktNack = bcFilePktEnd) := by decide
  simp only [senderHandlePacket, FileTransfer.nackPacket, fileV2Control,
    parseFilePacket_filePacket, parseFileV2Control_fileV2Control, if_neg htype, if_neg hsent]
  rw [if_neg (by decide), if_pos (by simp)]
  have hcache : (t.sender n (.wait round doneSeen resentAny)).cache = t.cacheAfter n := rfl
  rw [hcache, hfind]
  by_cases hrecent : n ≤ j + bcFileRetxWindow
  · simp only [if_pos hrecent]
    rfl
  · simp only [if_neg hrecent]
    rfl

theorem senderHandlePacket_step (t : FileTransfer) (round : ℕ) (doneSeen resentAny : Bool)
    (payload : List UInt8) (rc : BcStatus) :
    t.SenderStep (t.sender t.count (.wait round doneSeen resentAny)) (.read payload rc)
      (senderHandlePacket t (t.sender t.count (.wait round doneSeen resentAny)) round doneSeen
        resentAny payload rc) := by
  have hkept : t.SenderStep (t.sender t.count (.wait round doneSeen resentAny))
      (.read payload rc) (t.sender t.count (.wait round doneSeen resentAny), []) :=
    ⟨.wait .., by simp, fun h => .inl h⟩
  have hfailed : ∀ x, x ≠ .ok →
      t.SenderStep (t.sender t.count (.wait round doneSeen resentAny)) (.read payload rc)
        (t.sender t.count (.returned x), []) :=
    fun x hx => ⟨.returned (le_refl _) x, by simp, fun h => absurd (doneSeen_returned.mp h) hx⟩
  unfold senderHandlePacket
  split
  · exact hkept
  · next hdr extra hparse =>
    split
    · next hdone =>
      refine ⟨.wait round true resentAny, by simp, fun _ => ?_⟩
      exact .inr ⟨payload, rc, rfl, hdr, extra, hparse, hdone⟩
    · split
      · exact hkept
      · split
        · split
          · exact hkept
          · split
            · exact hfailed .io (by decide)
            · next slot hslot =>
              split
              · obtain ⟨-, i, hi⟩ := findCacheSlot_valid hslot
                obtain ⟨j, -, -, hseq, hchunk⟩ := FileTransfer.recent_of_cacheAfter (le_refl _) hi
                refine ⟨.wait round doneSeen true, ?_, fun h => .inl ?_⟩
                · simp only [List.forall_mem_singleton, hseq]
                  exact .data hchunk
                · exact doneSeen_wait.mpr (doneSeen_wait.mp h)
              · next hrc => exact hfailed rc hrc
        · exact hkept

theorem senderEndRound_step (t : FileTransfer) (round : ℕ) (doneSeen resentAny : Bool)
    (rc : BcStatus) :
    t.SenderStep (t.sender t.count (.wait round doneSeen resentAny)) (.timeout rc)
      (senderEndRound t (t.sender t.count (.wait round doneSeen resentAny)) round doneSeen
        resentAny rc) := by
  have hend : t.endPacket (t.sender t.count (.wait round doneSeen resentAny)).crc = t.finalEnd := by
    simp [FileTransfer.sender, FileTransfer.finalEnd]
  have hemits : ∀ p ∈ if resentAny = true then
      [t.endPacket (t.sender t.count (.wait round doneSeen resentAny)).crc] else [], t.Emits p := by
    rw [hend]
    split
    · simpa using FileTransfer.Emits.done
    · simp
  unfold senderEndRound
  split
  · next hdone => exact ⟨.returned (le_refl _) .ok, by simp, fun _ => .inl (doneSeen_wait.mpr hdone)⟩
  · split
    · next hrc =>
      exact ⟨.returned (le_refl _) rc, by simp, fun h => absurd (doneSeen_returned.mp h) hrc.2⟩
    · by_cases hround : round + 1 < endWaitRounds t
      · simp only [if_pos hround]
        exact ⟨.wait (round + 1) false false, hemits, fun h => by simpa using doneSeen_wait.mp h⟩
      · simp only [if_neg hround]
        exact ⟨.returned (le_refl _) .timeout, hemits, fun h => by simpa using doneSeen_returned.mp h⟩

/-- Every step of the sender, whatever it is answered. -/
theorem sendFileStep_step {s : FileSend} {answer : SendAnswer}
    {next : FileSend × List (List UInt8)} (h : t.SenderAt s)
    (hnext : sendFileStep t s answer = some next) : t.SenderStep s answer next := by
  cases h with
  | start =>
    cases answer with
    | write rc =>
      rw [sendFileStep_start] at hnext
      obtain rfl := Option.some.inj hnext
      split
      · exact ⟨.data (Nat.zero_le _), by simpa using FileTransfer.Emits.start, by simp⟩
      · next hrc =>
        exact ⟨.returned (Nat.zero_le _) rc, by simp, fun h => absurd (doneSeen_returned.mp h) hrc⟩
    | fileError | read | timeout | readError => cases hnext
  | @data k hk =>
    cases answer with
    | write rc =>
      have hfailed : rc ≠ .ok →
          t.SenderStep (t.sender k .data) (.write rc) (t.sender k (.returned rc), []) :=
        fun hrc => ⟨.returned hk rc, by simp, fun h => absurd (doneSeen_returned.mp h) hrc⟩
      rcases hk.lt_or_eq with hlt | rfl
      · obtain ⟨chunk, hchunk⟩ := FileTransfer.exists_chunk hlt
        rw [sendFileStep_data hchunk] at hnext
        obtain rfl := Option.some.inj hnext
        split
        · refine ⟨.data hlt, ?_, by simp⟩
          simpa using FileTransfer.Emits.data hchunk
        · next hrc => exact hfailed hrc
      · rw [sendFileStep_end] at hnext
        obtain rfl := Option.some.inj hnext
        split
        · refine ⟨.wait 0 false false, ?_, by simp⟩
          simpa using FileTransfer.Emits.done
        · next hrc => exact hfailed hrc
    | fileError =>
      obtain rfl := Option.some.inj hnext
      exact ⟨.returned hk .io, by simp, fun h => by simpa using doneSeen_returned.mp h⟩
    | read | timeout | readError => cases hnext
  | wait round doneSeen resentAny =>
    cases answer with
    | write | fileError => cases hnext
    | read payload rc =>
      obtain rfl := Option.some.inj hnext
      exact senderHandlePacket_step t round doneSeen resentAny payload rc
    | timeout rc =>
      obtain rfl := Option.some.inj hnext
      exact senderEndRound_step t round doneSeen resentAny rc
    | readError rc =>
      obtain rfl := Option.some.inj hnext
      exact ⟨.returned (le_refl _) rc, by simp, fun h => absurd (doneSeen_returned.mp h) rc.2.1⟩
  | returned hk rc => cases answer <;> cases hnext

end SenderSteps

section ReceiverSteps

namespace FileTransfer

variable (t : FileTransfer) (pieces : List (List UInt8)) (ended : Bool)

theorem receiver_fp : (t.receiver pieces ended).fp = true := rfl

@[simp] theorem receiver_gotStart : (t.receiver pieces ended).gotStart = true := rfl

@[simp] theorem receiver_gotEnd : (t.receiver pieces ended).gotEnd = ended := rfl

@[simp] theorem receiver_v2Mode : (t.receiver pieces ended).v2Mode = true := rfl

@[simp] theorem receiver_exit : (t.receiver pieces ended).exit = none := rfl

@[simp] theorem receiver_transferId : (t.receiver pieces ended).transferId = t.transferId := rfl

@[simp] theorem receiver_expectedSize :
    (t.receiver pieces ended).expectedSize = .ofNat t.content.length := rfl

theorem receiver_received :
    (t.receiver pieces ended).received = .ofNat pieces.flatten.length := rfl

@[simp] theorem receiver_expectedSeq :
    (t.receiver pieces ended).expectedSeq = .ofNat pieces.length := rfl

end FileTransfer

variable {t : FileTransfer} {pieces : List (List UInt8)} {chunk : List UInt8} {io : RecvIo}

/-- What the receiver of the transfer takes a chunk for. -/
def FileTransfer.pieceOf (t : FileTransfer) (chunk : List UInt8) : List UInt8 :=
  if 4 < chunk.length ∧ chunk.take 4 = idBytes t.transferId then chunk.drop 4 else chunk

theorem dataOf_receiver (t : FileTransfer) (pieces : List (List UInt8)) (ended : Bool)
    (chunk : List UInt8) : (t.receiver pieces ended).dataOf chunk = t.pieceOf chunk := by
  have hid : 4 < chunk.length →
      (ByteLayout.ofLE (chunk.take 4) = t.transferId.toNat ↔
        chunk.take 4 = idBytes t.transferId) := by
    intro hlong
    have hlen : (chunk.take 4).length = 4 := by rw [List.length_take]; omega
    constructor
    · intro h
      exact (ByteLayout.toLE_ofLE_of_length hlen).symm.trans (congrArg _ h)
    · intro h
      rw [h, ofLE_idBytes]
  rw [FileRecv.dataOf, FileTransfer.pieceOf]
  by_cases hlong : 4 < chunk.length
  · simp only [FileTransfer.receiver_v2Mode, gt_iff_lt, hlong, true_and,
      FileTransfer.receiver_transferId, hid hlong]
  · simp only [gt_iff_lt, hlong, false_and, and_false, if_false]

theorem piece_pieceOf (t : FileTransfer) (chunk : List UInt8) : Piece chunk (t.pieceOf chunk) := by
  unfold FileTransfer.pieceOf
  split
  · next h => exact .inr ⟨h.1, rfl⟩
  · exact .inl rfl

/-- START opens the transfer. -/
theorem recvFilePacket_start (t : FileTransfer) (io : RecvIo) :
    recvFilePacket t.channel io recvFileStart t.startPacket =
      if io.fopen = true then (t.receiver [] false, [])
      else
        ({ recvFileStart with transferId := t.transferId, expectedSize := .ofNat t.content.length,
                              exit := some .io }, []) := by
  simp only [recvFilePacket, FileTransfer.startPacket, parseFilePacket_filePacket, if_true,
    FileRecv.onStart, FilePktHdr.v2_flag, parseStartMeta_startMeta]
  cases io.fopen <;> rfl

/-- Nothing but START is understood before START. -/
theorem recvFilePacket_early (channel : List UInt8) (io : RecvIo) {type reserved : UInt8}
    (value : UInt32) (extra : List UInt8) (h : type ≠ bcFilePktStart) :
    recvFilePacket channel io recvFileStart (filePacket type reserved value extra) =
      (recvFileStart, []) := by
  simp only [recvFilePacket, parseFilePacket_filePacket, if_neg h, recvFileStart, true_or, if_true]

theorem recvFilePacket_start_again (t : FileTransfer) (channel : List UInt8) (io : RecvIo)
    (pieces : List (List UInt8)) (ended : Bool) :
    recvFilePacket channel io (t.receiver pieces ended) t.startPacket =
      (t.receiver pieces ended, []) := by
  simp only [recvFilePacket, FileTransfer.startPacket, parseFilePacket_filePacket, if_true,
    FileRecv.onStart]
  rfl

/-- A request by the receiver is for the first chunk it lacks. -/
theorem nack_receiver (t : FileTransfer) (pieces : List (List UInt8)) (ended : Bool) :
    (t.receiver pieces ended).nack = [t.nackPacket pieces.length] := rfl

theorem recvFilePacket_data (t : FileTransfer) (channel : List UInt8) (io : RecvIo)
    {ended : Bool} {i : ℕ} (hi : i < t.count) (hpieces : pieces.length ≤ t.count)
    (hchunk : chunk ≠ []) :
    recvFilePacket channel io (t.receiver pieces ended) (fileDataPacket (.ofNat i) chunk) =
      if i < pieces.length then (t.receiver pieces ended, [])
      else if pieces.length < i then
        (t.receiver pieces ended, [t.nackPacket pieces.length])
      else (t.receiver pieces ended).accept io (t.pieceOf chunk) := by
  have hle := piece_pieceOf t chunk
  have hlen : (chunk.length = 0) = False := by simpa using hchunk
  have hdata : ((t.pieceOf chunk).length = 0) = False := by
    rcases hle with h | ⟨hlong, h⟩
    · rw [h]; exact hlen
    · rw [h, List.length_drop]
      simp only [eq_iff_iff, iff_false]
      omega
  have hseq : (t.receiver pieces ended).expectedSeq.toNat = pieces.length :=
    FileTransfer.toNat_ofNat_of_le_count hpieces
  have hlt : UInt32.ofNat i < (t.receiver pieces ended).expectedSeq ↔ i < pieces.length := by
    rw [UInt32.lt_iff_toNat_lt, hseq, FileTransfer.toNat_ofNat_of_le_count hi.le]
  have hgt : (t.receiver pieces ended).expectedSeq < UInt32.ofNat i ↔ pieces.length < i := by
    rw [UInt32.lt_iff_toNat_lt, hseq, FileTransfer.toNat_ofNat_of_le_count hi.le]
  simp only [recvFilePacket, fileDataPacket, parseFilePacket_filePacket, FileRecv.onData,
    FilePktHdr.v2_flag, dataOf_receiver, hlen, hdata, hlt, hgt, nack_receiver]
  rw [if_neg (by decide), if_neg (by simp [FileTransfer.receiver_fp])]
  simp

theorem accept_receiver (t : FileTransfer) (io : RecvIo) (pieces : List (List UInt8))
    (ended : Bool) (piece : List UInt8) :
    (t.receiver pieces ended).accept io piece =
      if io.fwrite = false then ((t.receiver pieces ended).fail, [])
      else if ended = true ∧
          UInt32.ofNat (pieces ++ [piece]).flatten.length = .ofNat t.content.length then
        (t.receiver (pieces ++ [piece]) ended).finish
      else (t.receiver (pieces ++ [piece]) ended, []) := by
  have hnext : { t.receiver pieces ended with
      file := (t.receiver pieces ended).file.map (· ++ piece),
      crc := bcFileCrc32Update (t.receiver pieces ended).crc piece,
      received := (t.receiver pieces ended).received + .ofNat piece.length,
      expectedSeq := (t.receiver pieces ended).expectedSeq + 1 } =
        t.receiver (pieces ++ [piece]) ended := by
    simp [FileTransfer.receiver, crcOf_append]
  have hreceived : (t.receiver pieces ended).received + .ofNat piece.length =
      .ofNat (pieces ++ [piece]).flatten.length := by
    simp [FileTransfer.receiver_received]
  simp only [FileRecv.accept, hnext]
  simp only [hreceived, FileTransfer.receiver_gotEnd, FileTransfer.receiver_expectedSize]

theorem recvFilePacket_end (t : FileTransfer) (channel : List UInt8) (io : RecvIo)
    (pieces : List (List UInt8)) (ended : Bool) :
    recvFilePacket channel io (t.receiver pieces ended) t.finalEnd =
      if ended = true then (t.receiver pieces ended, [])
      else if UInt32.ofNat pieces.flatten.length ≠ .ofNat t.content.length then
        (t.receiver pieces true, [t.nackPacket pieces.length])
      else (t.receiver pieces true).finish := by
  have hnext : { t.receiver pieces ended with gotEnd := true, endCrc := ~~~(crcOf t.chunks) } =
      t.receiver pieces true := by
    simp [FileTransfer.receiver]
  simp only [recvFilePacket, FileTransfer.finalEnd, FileTransfer.endPacket, fileV2Control,
    parseFilePacket_filePacket, FileRecv.onEnd, hnext, FileRecv.checkEnd, FilePktHdr.v2_flag,
    idBytes_length, ofLE_idBytes, nack_receiver]
  rw [if_neg (by decide), if_neg (by simp [FileTransfer.receiver_fp]), if_neg (by decide)]
  simp [FileTransfer.receiver_received]

theorem finish_receiver (t : FileTransfer) :
    (t.receiver t.chunks true).finish = (t.complete, [t.donePacket]) := by
  simp [FileRecv.finish, FileTransfer.receiver, FileTransfer.complete, FileTransfer.donePacket]

end ReceiverSteps

end BoardComm
