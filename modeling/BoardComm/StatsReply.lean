import BoardComm.ClientReading

/-!
# The reply to a call for the counters

`send_stats_reply` puts a header in front of its eleven counters. `bc_get_stats`
expects nine counters and nothing else.
-/
namespace BoardComm

/-- `bc_client_stats_t`. -/
structure BcClientStats where
  pubLocal : UInt64
  pubNetwork : UInt64
  pubFailed : UInt64
  rxNetwork : UInt64
  rxLocal : UInt64
  rxForward : UInt64
  rxDrop : UInt64
  ackSent : UInt64
  ackRecv : UInt64
  deriving DecidableEq, Repr

namespace BcClientStats

/-- `sizeof(bc_client_stats_t)`. -/
abbrev size : ℕ := 72

/-- Bytes as they come to lie in the structure. -/
def ofBytes (data : List UInt8) : BcClientStats :=
  let counter := fun i => UInt64.ofNat (ByteLayout.ofLE ((data.drop (8 * i)).take 8))
  ⟨counter 0, counter 1, counter 2, counter 3, counter 4, counter 5, counter 6, counter 7,
    counter 8⟩

end BcClientStats

/-- The fields of the same names. -/
def BcStats.forClient (stats : BcStats) : BcClientStats :=
  ⟨stats.pubLocal, stats.pubNetwork, stats.pubFailed, stats.rxNetwork, stats.rxLocal,
    stats.rxForward, stats.rxDrop, stats.ackSent, stats.ackRecv⟩

namespace ClientLink

/-- `send_stats_reply`, for the client of the link. -/
def sendStats (watch : Bool) (stats : BcStats) (l : ClientLink) : BcStatus × ClientLink :=
  let r := sendStatsReply watch stats l.client
  (r.1, { l with client := r.2 })

/-- `bc_get_stats`, behind its request. -/
def bcGetStats (l : ClientLink) : Except BcStatus BcClientStats × ClientLink :=
  match l.readAll BcClientStats.size with
  | (none, l) => (.error .io, l)
  | (some data, l) => (.ok (.ofBytes data), l)

/-- The call returns the counters, and what is left are the other messages. -/
structure StatsArrive (stats : BcStats) (ahead behind : List BcMessage) (l : ClientLink) :
    Prop where
  counters : l.bcGetStats.1 = .ok stats.forClient
  boundary : l.bcGetStats.2.coming = (ahead ++ behind).flatMap deliverFrame

theorem stats_toBytes_length (stats : BcStats) : stats.toBytes.length = 88 := by
  simp [BcStats.toBytes]

/-- A reply that was sent stands behind what was queued. -/
theorem sendStats_coming {watch : Bool} {stats : BcStats} {l : ClientLink}
    (hsent : (l.sendStats watch stats).1 = .ok) :
    (l.sendStats watch stats).2.coming =
      l.coming ++ (statsHeader.toBytes ++ stats.toBytes) := by
  have hcap : statsHeader.toBytes.length ≤ bcClientTxCap := by
    rw [IpcHeader.toBytes_length]
    decide
  have hcap' : stats.toBytes.length ≤ bcClientTxCap := by
    rw [stats_toBytes_length]
    decide
  obtain ⟨hheader, htx⟩ := enqueueClientTx_eq watch l.client hcap
  obtain ⟨hbody, htx'⟩ :=
    enqueueClientTx_eq watch (enqueueClientTx watch l.client statsHeader.toBytes).2 hcap'
  unfold sendStats sendStatsReply at hsent
  simp only at hsent
  split_ifs at hsent with hfirst hsecond
  have hroom : l.client.tx.length + statsHeader.toBytes.length ≤ bcClientTxCap := by
    by_contra hfull
    rw [if_neg hfull] at hheader
    rw [hheader] at hfirst
    simp at hfirst
  rw [if_pos hroom] at htx
  have hroom' : (enqueueClientTx watch l.client statsHeader.toBytes).2.tx.length +
      stats.toBytes.length ≤ bcClientTxCap := by
    by_contra hfull
    rw [if_neg hfull] at hbody
    rw [hbody] at hsecond
    simp at hsecond
  rw [if_pos hroom', htx] at htx'
  unfold sendStats sendStatsReply coming
  simp only [if_neg hfirst, htx', List.append_assoc]

/-- The call takes the first bytes of the stream, whatever they are. -/
theorem bcGetStats_coming {l : ClientLink} (h : BcClientStats.size ≤ l.coming.length) :
    l.bcGetStats.1 = .ok (.ofBytes (l.coming.take BcClientStats.size)) ∧
      l.bcGetStats.2.coming = l.coming.drop BcClientStats.size := by
  obtain ⟨-, ⟨-, hread, hrest⟩ | ⟨hshort, -⟩⟩ := readAll_cases BcClientStats.size l
  · have hpair : l.readAll BcClientStats.size =
        (some (l.coming.take BcClientStats.size), (l.readAll BcClientStats.size).2) :=
      Prod.ext hread rfl
    unfold bcGetStats
    rw [hpair]
    exact ⟨rfl, hrest⟩
  · omega

/-- The counters never arrive: of the bytes of the reply 44 stay in the stream. -/
theorem stats_never_arrive {watch : Bool} {stats : BcStats} {ahead behind : List BcMessage}
    {l l' : ClientLink} (hahead : l.coming = ahead.flatMap deliverFrame)
    (hsent : (l.sendStats watch stats).1 = .ok)
    (hbehind : l'.coming = (l.sendStats watch stats).2.coming ++ behind.flatMap deliverFrame) :
    ¬ StatsArrive stats ahead behind l' := by
  intro h
  rw [sendStats_coming hsent, hahead] at hbehind
  have hlen := congrArg List.length hbehind
  simp only [List.length_append, IpcHeader.toBytes_length, stats_toBytes_length] at hlen
  have hrest := congrArg List.length h.boundary
  have hsize : BcClientStats.size ≤ l'.coming.length := by
    simp only [BcClientStats.size]
    omega
  rw [(bcGetStats_coming hsize).2, List.length_drop, List.flatMap_append, List.length_append]
    at hrest
  simp only [BcClientStats.size, IpcHeader.size] at hrest hlen
  omega

/-- A client to which nothing was sent. -/
def quietLink : ClientLink := ⟨idleClient 4, [], none⟩

/-- A client with a message in its socket and one in its queue. -/
def busyLink : ClientLink :=
  ⟨{ idleClient 4 with tx := deliverFrame (tMessage 1) }, deliverFrame (tMessage 2), none⟩

def busyStats : BcStats := ⟨1, 2, 3, 4, 5, 6, 7, 8, 9, 10, 11⟩

/-- A message is delivered behind the reply. -/
def busyAfter : ClientLink :=
  let sent := (busyLink.sendStats true busyStats).2
  { sent with client := { sent.client with tx := sent.client.tx ++ deliverFrame (tMessage 3) } }

theorem stats_never_arrive_busy :
    ¬ StatsArrive busyStats [tMessage 2, tMessage 1] [tMessage 3] busyAfter := by
  have hahead : busyLink.coming = [tMessage 2, tMessage 1].flatMap deliverFrame := by
    simp [coming, busyLink]
  have hsent : (busyLink.sendStats true busyStats).1 = .ok := by decide +kernel
  exact stats_never_arrive hahead hsent (by simp [coming, busyAfter])

/-- The first counter is the header of the reply. -/
theorem stats_misread :
    ¬ ∀ watch stats ahead behind, ∀ l l' : ClientLink, l.coming = ahead.flatMap deliverFrame →
      (l.sendStats watch stats).1 = .ok →
      l'.coming = (l.sendStats watch stats).2.coming ++ behind.flatMap deliverFrame →
      StatsArrive stats ahead behind l' := by
  intro h
  have hcounters := (h true bcStatsReset [] [] quietLink (quietLink.sendStats true bcStatsReset).2
    rfl (by decide +kernel) (List.append_nil _).symm).counters
  revert hcounters
  decide +kernel

end ClientLink

end BoardComm
