import BoardComm.CheckedAccess
import BoardComm.FileTransfer

/-!
# The meta data of a START packet

`send_file_path` writes the record and `parse_start_meta` reads it, moving an offset
through two strings that stand behind their lengths. A channel that is absent is an
empty one on both sides.
-/
namespace BoardComm

open ByteLayout (counted toLE ofLE)
open Checked

/-- What the sender makes of a name and a channel: its checks, and the array
`start_meta` as far as it is filled. -/
def sendFileStartMeta (transferId : UInt32) (name : List UInt8) (channel : Option (List UInt8)) :
    Except BcStatus (List UInt8) :=
  let channel := channel.getD []
  if name.length = 0 ∨ name.length > bcFileNameMax then .error .invalid
  else if channel ≠ [] ∧ (channel.length = 0 ∨ channel.length ≥ bcMaxChannelLen) then
    .error .invalid
  else if 1 + 4 + 2 * 2 + name.length + channel.length > bcMaxPayloadLen - FilePktHdr.size then
    .error .invalid
  else
    .ok (bcFileMetaV2Version :: (idBytes transferId ++ toLE 2 name.length ++ name
      ++ toLE 2 channel.length ++ if channel.length > 0 then channel else []))

/-- The bytes that come with the packet, and the channel of the receiver with its end. -/
inductive StartMetaArea
  | extra
  | expectChannel
  deriving DecidableEq, Repr

section Calls

/-- The first half of `parse_start_meta`, access by access: the transfer id, unless the
record is refused. -/
def startMetaIdChecked (extra : List UInt8) (extraLen : ℕ) (expectV2 : Bool)
    (transferId : UInt32) : Run StartMetaArea (Option UInt32) :=
  if expectV2 = true then
    if extraLen < 1 + 4 + 2 * 2 then .ok none
    else do
      access .extra extraLen 0
      if extra.head? ≠ some bcFileMetaV2Version then .ok none
      else do
        span .extra extraLen 1 4
        .ok (some (.ofNat (ofLE ((extra.drop 1).take 4))))
  else if extraLen < 2 * 2 then .ok none
  else .ok (some transferId)

/-- The comparison with the channel of the receiver, access by access. Only a channel
that is there and not empty is measured. -/
def startMetaChannelChecked (extra : List UInt8) (extraLen : ℕ)
    (expectChannel : Option (List UInt8)) (off channelLen : ℕ) : Run StartMetaArea BcStatus :=
  match expectChannel with
  | none | some [] => .ok (if channelLen ≠ 0 then .invalid else .ok)
  | some (b :: expect) => do
    let expectLen := (b :: expect).length
    span .expectChannel (expectLen + 1) 0 (expectLen + 1)
    if channelLen ≠ expectLen then .ok .invalid
    else do
      span .extra extraLen off channelLen
      span .expectChannel (expectLen + 1) 0 channelLen
      .ok (if (extra.drop off).take channelLen ≠ b :: expect then .invalid else .ok)

/-- `parse_start_meta`, access by access. -/
def parseStartMetaChecked (extra : List UInt8) (extraLen : ℕ) (expectChannel : Option (List UInt8))
    (expectV2 : Bool) (transferId : UInt32) : Run StartMetaArea (BcStatus × UInt32) := do
  match ← startMetaIdChecked extra extraLen expectV2 transferId with
  | none => .ok (.invalid, transferId)
  | some transferId => do
    let off := if expectV2 = true then 1 + 4 else 0
    span .extra extraLen off 2
    let nameLen := ofLE ((extra.drop off).take 2)
    if nameLen = 0 ∨ nameLen > bcFileNameMax ∨ off + 2 + nameLen + 2 > extraLen then
      .ok (.invalid, transferId)
    else do
      span .extra extraLen (off + 2 + nameLen) 2
      let channelLen := ofLE ((extra.drop (off + 2 + nameLen)).take 2)
      if channelLen ≥ bcMaxChannelLen ∨ off + 2 + nameLen + 2 + channelLen ≠ extraLen then
        .ok (.invalid, transferId)
      else do
        let rc ← startMetaChannelChecked extra extraLen expectChannel (off + 2 + nameLen + 2)
          channelLen
        .ok (rc, transferId)

end Calls

/-- A name and a channel, each behind its length. -/
def startMetaFields (name channel : List UInt8) : List UInt8 := counted 2 name ++ counted 2 channel

/-- A record of meta data. In the second version its version and the transfer id come first. -/
def startMetaRecord (transferId : Option UInt32) (name channel : List UInt8) : List UInt8 :=
  (transferId.elim [] fun id => bcFileMetaV2Version :: idBytes id) ++ startMetaFields name channel

/-- A name and a channel that can be sent. -/
structure StartMetaFits (name channel : List UInt8) : Prop where
  name_pos : 0 < name.length
  name_le : name.length ≤ bcFileNameMax
  channel_lt : channel.length < bcMaxChannelLen

section Records

variable {name channel extra : List UInt8} {transferId : UInt32}

/-- The checks of the sender pass what fits, and the array has room for it. -/
theorem sendFileStartMeta_eq_ok {channel : Option (List UInt8)}
    (h : StartMetaFits name (channel.getD [])) :
    sendFileStartMeta transferId name channel =
      .ok (startMetaRecord (some transferId) name (channel.getD [])) := by
  obtain ⟨hpos, hname, hchannel⟩ := h
  unfold sendFileStartMeta
  generalize channel.getD [] = channel at *
  simp only [bcFileNameMax, bcMaxChannelLen, bcMaxPayloadLen, FilePktHdr.size] at *
  have hcopied : (if channel.length > 0 then channel else []) = channel := by
    cases channel <;> simp
  rw [if_neg (by omega), if_neg, if_neg (by omega), hcopied]
  · simp only [startMetaRecord, startMetaFields, counted, Option.elim_some, List.cons_append,
      List.append_assoc]
  · rintro ⟨hne, hzero | hlong⟩
    · exact hne (List.length_eq_zero_iff.mp hzero)
    · omega

theorem FileTransfer.startMeta_fits (t : FileTransfer) : StartMetaFits t.name t.channel :=
  ⟨List.length_pos_iff.mpr t.name_ne, t.name_le, t.channel_lt⟩

theorem FileTransfer.startMeta_record (t : FileTransfer) :
    t.startMeta = startMetaRecord (some t.transferId) t.name t.channel := by
  simp only [startMetaRecord, startMetaFields, counted, Option.elim_some, List.cons_append,
    List.append_assoc, FileTransfer.startMeta]

/-- The sender writes the record of its transfer. -/
theorem FileTransfer.startMeta_sent (t : FileTransfer) :
    sendFileStartMeta t.transferId t.name (some t.channel) = .ok t.startMeta := by
  rw [t.startMeta_record]
  exact sendFileStartMeta_eq_ok t.startMeta_fits

/-- The conditions that `parse_start_meta` puts on the two fields. -/
structure FieldsRead (rest channel : List UInt8) (nameLen channelLen : ℕ) : Prop where
  nameLen_eq : nameLen = ofLE (rest.take 2)
  name_pos : nameLen ≠ 0
  name_le : nameLen ≤ bcFileNameMax
  name_fits : 2 + nameLen + 2 ≤ rest.length
  channelLen_eq : channelLen = ofLE ((rest.drop (2 + nameLen)).take 2)
  channel_lt : channelLen < bcMaxChannelLen
  whole : 2 + nameLen + 2 + channelLen = rest.length
  channel_eq : rest.drop (2 + nameLen + 2) = channel

/-- They hold exactly of the two fields of a name and of the channel. -/
theorem fieldsRead_iff {rest : List UInt8} :
    (∃ nameLen channelLen, FieldsRead rest channel nameLen channelLen) ↔
      ∃ name, StartMetaFits name channel ∧ rest = startMetaFields name channel := by
  have hwidth : (256 : ℕ) ^ 2 = 65536 := by norm_num
  constructor
  · rintro ⟨nameLen, channelLen, h⟩
    have hname := h.name_le
    have hchannel := h.channel_lt
    have hwhole := h.whole
    have hchannelLen : channelLen = channel.length := by
      rw [← h.channel_eq, List.length_drop]
      omega
    have hnameLen : ((rest.drop 2).take nameLen).length = nameLen := by
      rw [List.length_take, List.length_drop]
      omega
    simp only [bcFileNameMax, bcMaxChannelLen] at *
    refine ⟨(rest.drop 2).take nameLen, ⟨?_, ?_, hchannelLen ▸ h.channel_lt⟩, ?_⟩
    · rw [hnameLen]
      exact Nat.pos_of_ne_zero h.name_pos
    · rw [hnameLen]
      exact hname
    · have hsecond : rest.drop (2 + nameLen) = counted 2 channel ++ [] := by
        rw [ByteLayout.eq_counted_append (by omega), ← h.channelLen_eq, List.drop_drop,
          List.length_drop, h.channel_eq, List.append_nil]
        exact ⟨by omega, hchannelLen, rfl⟩
      rw [List.append_nil] at hsecond
      rw [startMetaFields, ByteLayout.eq_counted_append (by omega), ← h.nameLen_eq, hnameLen,
        ← hsecond, ← List.drop_drop, List.take_append_drop]
      exact ⟨by omega, rfl, rfl⟩
  · rintro ⟨name, ⟨hpos, hname, hchannel⟩, hrest⟩
    have hlength := congrArg List.length hrest
    simp only [startMetaFields, List.length_append, ByteLayout.counted_length, bcFileNameMax,
      bcMaxChannelLen] at *
    obtain ⟨-, hnameLen, hbehind⟩ := (ByteLayout.eq_counted_append (by omega) _ _).mp hrest
    have hsecond : rest.drop (2 + name.length) = counted 2 channel ++ [] := by
      rw [← List.drop_drop, hbehind, List.drop_left, List.append_nil]
    obtain ⟨-, hchannelLen, hend⟩ := (ByteLayout.eq_counted_append (by omega) _ _).mp hsecond
    rw [List.drop_drop, List.append_nil] at hend
    exact ⟨name.length, channel.length, hnameLen.symm, by omega, hname, by omega,
      hchannelLen.symm, hchannel, by omega, hend⟩

/-- A check is passed by what is accepted. -/
theorem ite_invalid_eq_ok {α : Type} {p : Prop} [Decidable p] {x : BcStatus × α} {a b : α} :
    (if p then (.invalid, a) else x) = (.ok, b) ↔ ¬ p ∧ x = (.ok, b) := by
  split_ifs with h
  · simp [h]
  · simp [h]

/-- What `parse_start_meta` demands, in either version. -/
theorem parseStartMeta_ok_iff {expectV2 : Bool} {old : UInt32} :
    parseStartMeta extra channel expectV2 old = (.ok, transferId) ↔
      let off := if expectV2 = true then 5 else 0
      off + 4 ≤ extra.length ∧ (expectV2 = true → extra.head? = some bcFileMetaV2Version) ∧
        transferId = (if expectV2 = true then .ofNat (ofLE ((extra.drop 1).take 4)) else old) ∧
        ∃ nameLen channelLen, FieldsRead (extra.drop off) channel nameLen channelLen := by
  unfold parseStartMeta
  dsimp only
  generalize hoff : (if expectV2 = true then 5 else 0) = off
  generalize (if expectV2 = true then UInt32.ofNat (ofLE ((extra.drop 1).take 4)) else old) = id
  have hshort : (¬ (expectV2 = true ∧
      (extra.length < 9 ∨ extra.head? ≠ some bcFileMetaV2Version)) ∧
        ¬ (expectV2 = false ∧ extra.length < 4)) ↔
      off + 4 ≤ extra.length ∧ (expectV2 = true → extra.head? = some bcFileMetaV2Version) := by
    rw [← hoff]
    cases expectV2 <;> simp
  simp only [ite_invalid_eq_ok, Prod.mk.injEq, true_and]
  rw [← and_assoc, hshort, and_assoc]
  apply and_congr_right
  intro hlen
  apply and_congr_right
  intro _
  generalize hnameLen : ofLE ((extra.drop off).take 2) = nameLen
  generalize hchannelLen : ofLE ((extra.drop (off + 2 + nameLen)).take 2) = channelLen
  have hrest : (extra.drop off).length = extra.length - off := List.length_drop
  constructor
  · rintro ⟨hname, hchannel, hequal, hempty, rfl⟩
    push Not at hname hchannel
    have hends : extra.drop (off + 2 + nameLen + 2) = channel := by
      by_cases hnone : channel = []
      · have hzero := not_and_not_right.mp hempty hnone
        rw [hnone, List.drop_eq_nil_iff]
        omega
      · push Not at hequal
        exact (hequal hnone).2
    refine ⟨rfl, nameLen, channelLen, hnameLen.symm, hname.1, hname.2.1, by omega, ?_, hchannel.1,
      by omega, ?_⟩
    · rw [List.drop_drop, ← Nat.add_assoc, hchannelLen]
    · rw [List.drop_drop, ← Nat.add_assoc, ← Nat.add_assoc, hends]
  · rintro ⟨rfl, nameLen', channelLen', h⟩
    obtain rfl : nameLen' = nameLen := h.nameLen_eq.trans hnameLen
    have hchannelLen' := h.channelLen_eq
    rw [List.drop_drop, ← Nat.add_assoc, hchannelLen] at hchannelLen'
    subst hchannelLen'
    have hends := h.channel_eq
    rw [List.drop_drop, ← Nat.add_assoc, ← Nat.add_assoc] at hends
    have hlength := congrArg List.length hends
    rw [List.length_drop] at hlength
    have hpos := h.name_pos
    have hname := h.name_le
    have hfits := h.name_fits
    have hchannel := h.channel_lt
    have hwhole := h.whole
    refine ⟨by omega, by omega, ?_, ?_, rfl⟩
    · rintro ⟨-, hlen | hbytes⟩
      · omega
      · exact hbytes hends
    · rintro ⟨rfl, hne⟩
      rw [List.length_nil] at hlength
      omega

/-- What is read of four bytes is the transfer id that they are made of. -/
theorem idBytes_ofLE {bs : List UInt8} (h : bs.length = 4) :
    idBytes (.ofNat (ofLE bs)) = bs := by
  have hlt : ofLE bs < UInt32.size := by
    have hle := ByteLayout.ofLE_lt bs
    rw [h] at hle
    exact hle
  rw [idBytes, UInt32.toNat_ofNat_of_lt' hlt, ByteLayout.toLE_ofLE_of_length h]

/-- `parse_start_meta` accepts exactly one record, with a name that can be sent and the
channel of the receiver. -/
theorem parseStartMeta_record_iff {expectV2 : Bool} {old : UInt32} :
    parseStartMeta extra channel expectV2 old = (.ok, transferId) ↔
      (expectV2 = false → transferId = old) ∧ ∃ name, StartMetaFits name channel ∧
        extra =
          startMetaRecord (if expectV2 = true then some transferId else none) name channel := by
  rw [parseStartMeta_ok_iff]
  dsimp only
  rw [fieldsRead_iff]
  cases expectV2 with
  | false =>
    simp only [Bool.false_eq_true, if_false, false_imp_iff, true_and, List.drop_zero,
      true_imp_iff, startMetaRecord, Option.elim_none, List.nil_append]
    constructor
    · rintro ⟨-, hid, hfields⟩
      exact ⟨hid, hfields⟩
    · rintro ⟨hid, name, hfits, hextra⟩
      refine ⟨?_, hid, name, hfits, hextra⟩
      rw [hextra]
      simp only [startMetaFields, List.length_append, ByteLayout.counted_length]
      omega
  | true =>
    simp only [if_true, true_imp_iff, Bool.true_eq_false, false_imp_iff, true_and,
      startMetaRecord, Option.elim_some]
    constructor
    · rintro ⟨hlen, hversion, rfl, name, hfits, hfields⟩
      refine ⟨name, hfits, ?_⟩
      obtain ⟨rest, rfl⟩ := List.head?_eq_some_iff.mp hversion
      rw [List.length_cons] at hlen
      simp only [List.drop_succ_cons, List.drop_zero] at hfields ⊢
      have hid : (rest.take 4).length = 4 := List.length_take_of_le (by omega)
      rw [idBytes_ofLE hid, ← hfields, List.cons_append, List.take_append_drop]
    · rintro ⟨name, hfits, rfl⟩
      have hid : (idBytes transferId).length = 4 := idBytes_length transferId
      simp only [List.cons_append, List.length_cons, List.length_append, hid, List.head?_cons,
        List.drop_succ_cons, List.drop_zero, List.take_left' hid, List.drop_left' hid,
        ofLE_idBytes, UInt32.ofNat_toNat, true_and]
      refine ⟨?_, name, hfits, rfl⟩
      simp only [startMetaFields, List.length_append, ByteLayout.counted_length]
      omega

/-- Records that are alike have the same transfer id, the same name and the same channel. -/
theorem startMetaRecord_inj {id id' : UInt32} {name' channel' : List UInt8}
    (h : StartMetaFits name channel) (h' : StartMetaFits name' channel') :
    startMetaRecord (some id) name channel = startMetaRecord (some id') name' channel' ↔
      id = id' ∧ name = name' ∧ channel = channel' := by
  obtain ⟨-, hname, hchannel⟩ := h
  obtain ⟨-, hname', hchannel'⟩ := h'
  simp only [bcFileNameMax, bcMaxChannelLen] at *
  have hwidth : (256 : ℕ) ^ 2 = 65536 := by norm_num
  simp only [startMetaRecord, startMetaFields, Option.elim_some, List.cons_append,
    List.cons.injEq, true_and]
  constructor
  · intro heq
    have hlen : (idBytes id).length = (idBytes id').length := by simp
    obtain ⟨hid, hfields⟩ := List.append_inj heq hlen
    obtain ⟨hnames, hrest⟩ :=
      (ByteLayout.counted_append_inj (by omega) (by omega)).mp hfields
    rw [← List.append_nil (counted 2 channel), ← List.append_nil (counted 2 channel'),
      ByteLayout.counted_append_inj (by omega) (by omega)] at hrest
    have hvalue := congrArg ofLE hid
    rw [ofLE_idBytes, ofLE_idBytes] at hvalue
    exact ⟨UInt32.toNat_inj.mp hvalue, hnames, hrest.1⟩
  · rintro ⟨rfl, rfl, rfl⟩
    rfl

/-- The record of a transfer is taken by the receivers of its channel, and the transfer
id is found in it. -/
theorem parseStartMeta_of_record {old id : UInt32} {receiver : List UInt8}
    (h : StartMetaFits name channel) :
    parseStartMeta (startMetaRecord (some transferId) name channel) receiver true old =
        (.ok, id) ↔
      id = transferId ∧ channel = receiver := by
  rw [parseStartMeta_record_iff]
  simp only [Bool.true_eq_false, false_imp_iff, true_and, if_true]
  constructor
  · rintro ⟨name', h', heq⟩
    obtain ⟨hid, -, hchannel⟩ := (startMetaRecord_inj h h').mp heq
    exact ⟨hid.symm, hchannel⟩
  · rintro ⟨rfl, rfl⟩
    exact ⟨name, h, rfl⟩

/-- The receiver of the channel takes the meta data that the sender writes. -/
theorem parseStartMeta_startMeta (t : FileTransfer) (transferId : UInt32) :
    parseStartMeta t.startMeta t.channel true transferId = (.ok, t.transferId) := by
  rw [t.startMeta_record]
  exact (parseStartMeta_of_record t.startMeta_fits).mpr ⟨rfl, rfl⟩

end Records

section Accesses

variable {extra : List UInt8} (behind : List UInt8) (expectChannel : Option (List UInt8))

theorem startMetaIdChecked_append (expectV2 : Bool) (old : UInt32) :
    startMetaIdChecked (extra ++ behind) extra.length expectV2 old =
      .ok (if expectV2 = true ∧ (extra.length < 9 ∨ extra.head? ≠ some bcFileMetaV2Version) then
          none
        else if expectV2 = false ∧ extra.length < 4 then none
        else some (if expectV2 = true then .ofNat (ofLE ((extra.drop 1).take 4)) else old)) := by
  unfold startMetaIdChecked
  cases expectV2 with
  | false => simp [apply_ite]
  | true =>
    simp only [if_true, true_and, Bool.true_eq_false, false_and, if_false]
    by_cases hshort : extra.length < 9
    · simp [hshort]
    have hfirst : (extra ++ behind).head? = extra.head? := by
      apply List.head?_append_of_ne_nil
      intro hnil
      rw [hnil] at hshort
      exact hshort (by decide)
    have hid : ((extra ++ behind).drop 1).take 4 = (extra.drop 1).take 4 :=
      take_drop_append behind (by omega)
    rw [if_neg hshort, access_of_lt (by omega), ok_bind, span_of_le (by omega), ok_bind, hfirst,
      hid]
    simp only [hshort, false_or]
    apply ite_ok_eq_ok
    intro _
    rfl

/-- The channel in the record is compared with the channel of the receiver. -/
theorem startMetaChannelChecked_append {off channelLen : ℕ}
    (hlen : off + channelLen = extra.length) :
    startMetaChannelChecked (extra ++ behind) extra.length expectChannel off channelLen =
      .ok (if extra.drop off = expectChannel.getD [] then .ok else .invalid) := by
  have hread : ((extra ++ behind).drop off).take channelLen = extra.drop off := by
    rw [take_drop_append behind hlen.le, List.take_of_length_le]
    rw [List.length_drop]
    omega
  have hempty : extra.drop off = [] ↔ channelLen = 0 := by
    rw [List.drop_eq_nil_iff]
    omega
  match expectChannel with
  | none | some [] =>
    simp only [startMetaChannelChecked, Option.getD_none, Option.getD_some, hempty, ite_not]
  | some (b :: expect) =>
    simp only [startMetaChannelChecked, Option.getD_some]
    rw [span_of_le (by omega), ok_bind]
    by_cases hequal : channelLen = (b :: expect).length
    · rw [if_neg (not_not.mpr hequal), span_of_le hlen.le, span_of_le (by omega), ok_bind, ok_bind,
        hread, ite_not]
    · have hother : extra.drop off ≠ b :: expect := by
        intro h
        have hlength := congrArg List.length h
        rw [List.length_drop] at hlength
        omega
      rw [if_pos hequal, if_neg hother]

/-- `parse_start_meta` reads only the bytes of the packet, and of its own channel no more
than that. -/
theorem parseStartMetaChecked_eq_ok (expectV2 : Bool) (old : UInt32) :
    parseStartMetaChecked (extra ++ behind) extra.length expectChannel expectV2 old =
      .ok (parseStartMeta extra (expectChannel.getD []) expectV2 old) := by
  unfold parseStartMetaChecked parseStartMeta
  rw [startMetaIdChecked_append, ok_bind]
  by_cases hversion : expectV2 = true ∧
      (extra.length < 9 ∨ extra.head? ≠ some bcFileMetaV2Version)
  · rw [if_pos hversion, if_pos hversion]
  by_cases hshort : expectV2 = false ∧ extra.length < 4
  · rw [if_neg hversion, if_neg hversion, if_pos hshort, if_pos hshort]
  rw [if_neg hversion, if_neg hversion, if_neg hshort, if_neg hshort]
  dsimp only
  have hstart : (if expectV2 = true then 1 + 4 else 0) + 4 ≤ extra.length := by
    cases expectV2 with
    | false => simpa using hshort
    | true =>
      simp only [true_and, not_or, not_lt] at hversion
      simpa using hversion.1
  generalize (if expectV2 = true then 1 + 4 else 0) = off at hstart
  generalize (if expectV2 = true then UInt32.ofNat (ofLE ((extra.drop 1).take 4)) else old) = id
  have hnameLen : ((extra ++ behind).drop off).take 2 = (extra.drop off).take 2 :=
    take_drop_append behind (by omega)
  rw [span_of_le (by omega), ok_bind, hnameLen]
  apply ite_ok_eq_ok
  intro hname
  have hchannelLen : ((extra ++ behind).drop (off + 2 + ofLE ((extra.drop off).take 2))).take 2 =
      (extra.drop (off + 2 + ofLE ((extra.drop off).take 2))).take 2 :=
    take_drop_append behind (by omega)
  rw [span_of_le (by omega), ok_bind, hchannelLen]
  apply ite_ok_eq_ok
  intro hchannel
  push Not at hchannel
  rw [startMetaChannelChecked_append behind expectChannel hchannel.2, ok_bind]
  have hlength := List.length_drop (i := off + 2 + ofLE ((extra.drop off).take 2) + 2) (l := extra)
  generalize extra.drop (off + 2 + ofLE ((extra.drop off).take 2) + 2) = rest at *
  generalize expectChannel.getD [] = channel
  by_cases hequal : rest = channel
  · subst hequal
    rw [if_pos rfl, if_neg, if_neg]
    · rintro ⟨rfl, hne⟩
      rw [List.length_nil] at hlength
      omega
    · rintro ⟨-, hlen | hne⟩
      · omega
      · exact hne rfl
  · by_cases hempty : channel = []
    · have hrest := List.length_pos_iff.mpr (hempty ▸ hequal)
      rw [if_neg hequal, if_neg (fun h => h.1 hempty), if_pos ⟨hempty, by omega⟩]
    · rw [if_neg hequal, if_pos ⟨hempty, .inr hequal⟩]

end Accesses

/-- The meta data of a START packet. What the sender writes is taken, with its transfer
id, exactly by a receiver of the same channel. Of any bytes in either version only those
of the packet are read, and only what is one record is taken. -/
theorem start_meta_round_trip :
    (∀ (transferId old : UInt32) (name : List UInt8) (sender receiver : Option (List UInt8)),
      1 ≤ name.length → name.length ≤ 255 → (sender.getD []).length ≤ 31 →
      (receiver.getD []).length ≤ 31 → ∃ record,
        sendFileStartMeta transferId name sender = .ok record ∧
        ((parseStartMeta record (receiver.getD []) true old).1 = .ok ↔
          sender.getD [] = receiver.getD []) ∧
        (parseStartMeta record (receiver.getD []) true old = (.ok, transferId) ↔
          sender.getD [] = receiver.getD [])) ∧
    ∀ (extra behind : List UInt8) (channel : Option (List UInt8)) (expectV2 : Bool)
      (old transferId : UInt32),
      parseStartMetaChecked (extra ++ behind) extra.length channel expectV2 old =
        .ok (parseStartMeta extra (channel.getD []) expectV2 old) ∧
      (parseStartMeta extra (channel.getD []) expectV2 old = (.ok, transferId) →
        ∃ name, 1 ≤ name.length ∧ name.length ≤ 255 ∧ (channel.getD []).length ≤ 31 ∧
          extra = startMetaRecord (if expectV2 = true then some transferId else none) name
            (channel.getD [])) := by
  constructor
  · intro transferId old name sender receiver hpos hname hsender hreceiver
    have hfits : StartMetaFits name (sender.getD []) := ⟨hpos, hname, Nat.lt_succ_of_le hsender⟩
    refine ⟨_, sendFileStartMeta_eq_ok hfits, ?_, ?_⟩
    · constructor
      · intro hok
        have htaken := Prod.eta (parseStartMeta
          (startMetaRecord (some transferId) name (sender.getD [])) (receiver.getD []) true old)
        rw [hok] at htaken
        exact ((parseStartMeta_of_record hfits).mp htaken.symm).2
      · intro hequal
        have htaken : parseStartMeta (startMetaRecord (some transferId) name (sender.getD []))
            (receiver.getD []) true old = (.ok, transferId) :=
          (parseStartMeta_of_record hfits).mpr ⟨rfl, hequal⟩
        rw [htaken]
    · rw [parseStartMeta_of_record hfits]
      exact and_iff_right rfl
  · intro extra behind channel expectV2 old transferId
    refine ⟨parseStartMetaChecked_eq_ok behind channel expectV2 old, fun hok => ?_⟩
    obtain ⟨-, name, hfits, hextra⟩ := parseStartMeta_record_iff.mp hok
    exact ⟨name, hfits.name_pos, hfits.name_le, Nat.le_of_lt_succ hfits.channel_lt, hextra⟩

/-- The file "a.b" on a channel: a receiver of the channel takes its id, one of another does
not, and the packet is read within its bytes when others stand behind it. -/
theorem start_meta_round_trip_file :
    (∃ record, sendFileStartMeta 7 [0x61, 0x2e, 0x62] (some [0x63]) = .ok record ∧
      parseStartMeta record [0x63] true 0 = (.ok, 7)) ∧
    (∃ record, sendFileStartMeta 7 [0x61, 0x2e, 0x62] (some [0x63]) = .ok record ∧
      parseStartMeta record [] true 0 ≠ (.ok, 7)) ∧
    parseStartMetaChecked (startMetaRecord (some 7) [0x61, 0x2e, 0x62] [0x63] ++ [1, 2])
      (startMetaRecord (some 7) [0x61, 0x2e, 0x62] [0x63]).length (some [0x63]) true 0 =
        .ok (.ok, 7) := by
  obtain ⟨hwritten, hread⟩ := start_meta_round_trip
  refine ⟨?_, ?_, ?_⟩
  · obtain ⟨record, hrecord, -, htaken⟩ := hwritten 7 0 [0x61, 0x2e, 0x62] (some [0x63])
      (some [0x63]) (by decide) (by decide) (by decide) (by decide)
    exact ⟨record, hrecord, htaken.mpr rfl⟩
  · obtain ⟨record, hrecord, -, htaken⟩ := hwritten 7 0 [0x61, 0x2e, 0x62] (some [0x63]) none
      (by decide) (by decide) (by decide) (by decide)
    exact ⟨record, hrecord, fun hok => absurd (htaken.mp hok) (by decide)⟩
  · rw [(hread _ [1, 2] (some [0x63]) true 0 7).1]
    decide +kernel

end BoardComm
