import BoardComm.FileRecovery

/-!
# Which chunks the sender can send again

The sender keeps the last chunks in a ring of fixed size. A request for an older
one finds its slot taken by a younger chunk, and the sender gives the transfer up.
-/
namespace BoardComm

namespace FileTransfer

variable {t : FileTransfer}

/-- The sender after answers to its calls. -/
def senderAfter (t : FileTransfer) (answers : List SendAnswer) : Option FileSend :=
  answers.foldlM (fun s answer => (sendFileStep t s answer).map Prod.fst) t.sendStart

/-- The answers to the START packet and to the first `n` DATA packets. -/
def firstWrites (n : ℕ) : List SendAnswer := List.replicate (n + 1) (.write .ok)

/-- The sender that has sent the first `n` chunks. -/
theorem senderAfter_firstWrites {n : ℕ} (hn : n ≤ t.count) :
    t.senderAfter (firstWrites n) = some (t.sender n .data) := by
  induction n with
  | zero =>
    have hstart := sendFileStep_start t .ok
    rw [if_pos rfl] at hstart
    have hbegin : t.sendStart = t.sender 0 .start := by
      simp [sendStart, sender, cacheAfter, crcOf]
    simp only [senderAfter, firstWrites, List.replicate, List.foldlM, hbegin, hstart]
    rfl
  | succ n ih =>
    obtain ⟨chunk, hchunk⟩ := exists_chunk (t := t) (Nat.lt_of_succ_le hn)
    have hdata := sendFileStep_data hchunk .ok
    rw [if_pos rfl] at hdata
    have hbefore := ih (by omega)
    unfold senderAfter firstWrites at hbefore ⊢
    rw [List.replicate_succ', List.foldlM_append, hbefore]
    simp [hdata]

/-- `sender_handle_controls` reads a request for chunk `k` in the state and sends the
bytes of the file at that chunk; whether it goes on then is up to the library only. -/
def Serves (t : FileTransfer) (s : FileSend) (k : ℕ) : Prop :=
  ∀ (round : ℕ) (doneSeen resentAny : Bool) (rc : BcStatus),
    senderHandlePacket t { s with phase := .wait round doneSeen resentAny } round doneSeen resentAny
        (t.nackPacket k) rc =
      if rc = .ok then
        ({ s with phase := .wait round doneSeen true },
          [fileDataPacket (.ofNat k) (t.chunks.getD k [])])
      else ({ s with phase := .returned rc }, [])

theorem serves_sender_iff {n k : ℕ} (hn : n ≤ t.count) (hk : k < n) :
    t.Serves (t.sender n .data) k ↔ n ≤ k + bcFileRetxWindow := by
  obtain ⟨chunk, hchunk⟩ := exists_chunk (t := t) (hk.trans_le hn)
  have hnack := senderHandlePacket_nack hn hk hchunk
  have hget : t.chunks.getD k [] = chunk := by
    rw [List.getD_eq_getElem?_getD, hchunk]
    rfl
  constructor
  · intro h
    by_contra hold
    have hserved := h 0 false false .ok
    have hgiven := hnack 0 false false .ok
    rw [if_neg hold] at hgiven
    rw [if_pos rfl] at hserved
    have hpackets := congrArg Prod.snd (hserved.symm.trans hgiven)
    cases hpackets
  · intro hrecent round doneSeen resentAny rc
    have hanswer := hnack round doneSeen resentAny rc
    rw [if_pos hrecent] at hanswer
    rw [hget]
    exact hanswer

/-- After `n` chunks exactly the last ones can be sent again. -/
theorem nack_served_iff (t : FileTransfer) (n k : ℕ) (s : FileSend) (hn : n ≤ t.count)
    (hk : k < n) (hs : t.senderAfter (firstWrites n) = some s) :
    t.Serves s k ↔ n ≤ k + bcFileRetxWindow := by
  rw [senderAfter_firstWrites hn, Option.some.injEq] at hs
  subst hs
  exact serves_sender_iff hn hk

end FileTransfer

/-- A file of more chunks than the sender keeps. -/
def manyChunks : List (List UInt8) :=
  List.replicate (bcFileRetxWindow + 1) (List.replicate bcFileDataBodyMax 0)

theorem manyChunks_ne : ∀ c ∈ manyChunks, c ≠ [] := by
  intro c hc
  rw [List.eq_of_mem_replicate hc]
  intro hnil
  have hlength := congrArg List.length hnil
  rw [List.length_replicate] at hlength
  exact absurd hlength (by decide)

theorem manyChunks_le : ∀ c ∈ manyChunks, c.length ≤ bcFileDataBodyMax := by
  intro c hc
  rw [List.eq_of_mem_replicate hc, List.length_replicate]

theorem manyChunks_size_lt : manyChunks.flatten.length < 2 ^ 32 := by
  rw [manyChunks, List.length_flatten, List.map_replicate, List.sum_replicate,
    List.length_replicate]
  decide

/-- The transfer of that file. -/
def manyChunkFile : FileTransfer :=
  { oneByteFile with chunks := manyChunks, chunk_ne := manyChunks_ne, chunk_le := manyChunks_le,
                     size_lt := manyChunks_size_lt }

theorem manyChunkFile_count : manyChunkFile.count = bcFileRetxWindow + 1 := List.length_replicate

/-- The last of the chunks before a second round of the ring. -/
theorem nack_served_iff_recent :
    manyChunkFile.Serves (manyChunkFile.sender bcFileRetxWindow .data) 0 := by
  have hn : bcFileRetxWindow ≤ manyChunkFile.count := by
    rw [manyChunkFile_count]
    exact Nat.le_succ _
  exact (manyChunkFile.nack_served_iff bcFileRetxWindow 0 _ hn (by decide)
    (FileTransfer.senderAfter_firstWrites hn)).mpr (by decide)

/-- After one chunk more the first is gone, and the request for it ends the transfer. -/
theorem nack_out_of_window :
    (sendFileStep manyChunkFile (manyChunkFile.sender manyChunkFile.count (.wait 0 false false))
        (.read (manyChunkFile.nackPacket 0) .ok)) =
          some (manyChunkFile.sender manyChunkFile.count (.returned .io), []) ∧
      ¬ manyChunkFile.Serves (manyChunkFile.sender manyChunkFile.count .data) 0 := by
  have hpos : 0 < manyChunkFile.count := by
    rw [manyChunkFile_count]
    exact Nat.succ_pos _
  have hold : ¬ manyChunkFile.count ≤ 0 + bcFileRetxWindow := by
    rw [manyChunkFile_count, Nat.zero_add]
    exact Nat.not_succ_le_self _
  obtain ⟨chunk, hchunk⟩ := FileTransfer.exists_chunk hpos
  have hnack := senderHandlePacket_nack (le_refl _) hpos hchunk 0 false false .ok
  rw [if_neg hold] at hnack
  exact ⟨congrArg some hnack,
    fun h => hold ((FileTransfer.serves_sender_iff (le_refl _) hpos).mp h)⟩

end BoardComm
