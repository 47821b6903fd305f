import VeloxMatch.Crc32
import VeloxMatch.WalRecord

namespace VeloxMatch

def walAlign : Nat := 4096
def walHeaderSize : Nat := 8
def walCrc32Size : Nat := 4
def walInsertSize : Nat := 56
def walCancelSize : Nat := 24
def walMatchSize : Nat := 48

def walTypeInsert : Nat := 1
def walTypeCancel : Nat := 2
def walTypeMatch : Nat := 3
def walTypeDeactivate : Nat := 5
def walTypeActivate : Nat := 6
def walUserBase : Nat := 0x80

def crc32Poly : BitVec 32 := 0xEDB88320#32

def crc32Compute (bytes : List UInt8) : BitVec 32 :=
  crcFold crc32Poly 0xFFFFFFFF#32 bytes ^^^ 0xFFFFFFFF#32

/-- `om_wal_pack_header`: the fields do not overlap. The type and the length are cut to 8 and 16
bits by the parameters. -/
def omWalPackHeader (seq type len : Nat) : Nat :=
  (seq * 2 ^ 24 + type % 2 ^ 8 * 2 ^ 16 + len % 2 ^ 16) % 2 ^ 64

def omWalHeaderSeq (packed : Nat) : Nat := packed / 2 ^ 24

def omWalHeaderType (packed : Nat) : Nat := packed / 2 ^ 16 % 2 ^ 8

def omWalHeaderLen (packed : Nat) : Nat := packed % 2 ^ 16

/-- The bytes of an INSERT record with the user and aux bytes that follow it. -/
def insertPayload (rec : OmWalInsert) : List UInt8 :=
  leBytes 8 rec.orderId ++ leBytes 8 rec.price ++ leBytes 8 rec.volume ++ leBytes 8 rec.volRemain ++
    leBytes 2 rec.org ++ leBytes 2 rec.flags.toNat ++ leBytes 2 rec.productId ++ leBytes 2 0 ++
    leBytes 4 rec.userDataSize ++ leBytes 4 rec.auxDataSize ++ leBytes 8 rec.timestampNs ++
    rec.userData ++ rec.auxData

def cancelPayload (rec : OmWalCancel) : List UInt8 :=
  leBytes 8 rec.orderId ++ leBytes 8 rec.timestampNs ++ leBytes 4 rec.slotIdx ++
    leBytes 2 rec.productId ++ leBytes 2 0

def matchPayload (rec : OmWalMatch) : List UInt8 :=
  leBytes 8 rec.makerId ++ leBytes 8 rec.takerId ++ leBytes 8 rec.price ++ leBytes 8 rec.volume ++
    leBytes 8 rec.timestampNs ++ leBytes 2 rec.productId ++ leBytes 6 0

/-- The type and the bytes that are appended for a record. -/
def walTypeOf : OmWalRecord → Nat
  | .insert _ => walTypeInsert
  | .cancel _ => walTypeCancel
  | .matched _ => walTypeMatch
  | .deactivate _ => walTypeDeactivate
  | .activate _ => walTypeActivate
  | .other type _ => type

def walPayloadOf : OmWalRecord → List UInt8
  | .insert rec => insertPayload rec
  | .cancel rec | .deactivate rec | .activate rec => cancelPayload rec
  | .matched rec => matchPayload rec
  | .other _ payload => payload

def walFrame (crc : Bool) (seq type : Nat) (payload : List UInt8) : List UInt8 :=
  let head := leBytes 8 (omWalPackHeader seq type payload.length) ++ payload
  if crc then head ++ leBytes 4 (crc32Compute head).toNat else head

def walCrcSize (crc : Bool) : Nat := if crc then walCrc32Size else 0

/-- The `user_data_size` and `aux_data_size` fields of an INSERT payload. -/
def payloadUserSize (payload : List UInt8) : Nat := leNat ((payload.drop 40).take 4)

def payloadAuxSize (payload : List UInt8) : Nat := leNat ((payload.drop 44).take 4)

section Header

variable {seq type len : Nat}

theorem packHeader_lt (seq type len : Nat) : omWalPackHeader seq type len < 2 ^ 64 :=
  Nat.mod_lt _ (by decide)

theorem packHeader_eq (hseq : seq < 2 ^ 40) (htype : type < 2 ^ 8) (hlen : len < 2 ^ 16) :
    omWalPackHeader seq type len = seq * 2 ^ 24 + type * 2 ^ 16 + len := by
  unfold omWalPackHeader
  omega

theorem headerSeq_pack (hseq : seq < 2 ^ 40) (htype : type < 2 ^ 8) (hlen : len < 2 ^ 16) :
    omWalHeaderSeq (omWalPackHeader seq type len) = seq := by
  rw [packHeader_eq hseq htype hlen, omWalHeaderSeq]
  omega

theorem headerType_pack (hseq : seq < 2 ^ 40) (htype : type < 2 ^ 8) (hlen : len < 2 ^ 16) :
    omWalHeaderType (omWalPackHeader seq type len) = type := by
  rw [packHeader_eq hseq htype hlen, omWalHeaderType]
  omega

theorem headerLen_pack (hseq : seq < 2 ^ 40) (htype : type < 2 ^ 8) (hlen : len < 2 ^ 16) :
    omWalHeaderLen (omWalPackHeader seq type len) = len := by
  rw [packHeader_eq hseq htype hlen, omWalHeaderLen]
  omega

theorem packHeader_ne_zero (hpos : 0 < seq) (hseq : seq < 2 ^ 40) (htype : type < 2 ^ 8)
    (hlen : len < 2 ^ 16) : omWalPackHeader seq type len ≠ 0 := by
  rw [packHeader_eq hseq htype hlen]
  omega

end Header

section Frame

variable (crc : Bool) (seq type : Nat) (payload : List UInt8)

theorem walFrame_length :
    (walFrame crc seq type payload).length = walHeaderSize + payload.length + walCrcSize crc := by
  cases crc
  · simp [walFrame, walCrcSize, walHeaderSize]
  · simp [walFrame, walCrcSize, walHeaderSize, walCrc32Size, Nat.add_assoc]

theorem take_walFrame :
    (walFrame crc seq type payload).take 8 =
      leBytes 8 (omWalPackHeader seq type payload.length) := by
  cases crc <;> simp [walFrame]

theorem leNat_take_walFrame :
    leNat ((walFrame crc seq type payload).take 8) =
      omWalPackHeader seq type payload.length := by
  rw [take_walFrame, leNat_leBytes_of_lt]
  exact packHeader_lt ..

theorem payload_walFrame :
    ((walFrame crc seq type payload).drop 8).take payload.length = payload := by
  cases crc <;> simp [walFrame]

end Frame

@[simp] theorem insertPayload_length (rec : OmWalInsert) :
    (insertPayload rec).length = walInsertSize + rec.userData.length + rec.auxData.length := by
  simp only [insertPayload, walInsertSize, List.length_append, leBytes_length]

@[simp] theorem cancelPayload_length (rec : OmWalCancel) :
    (cancelPayload rec).length = walCancelSize := by
  simp [cancelPayload, walCancelSize]

@[simp] theorem matchPayload_length (rec : OmWalMatch) :
    (matchPayload rec).length = walMatchSize := by
  simp [matchPayload, walMatchSize]

theorem take_drop_of_append {as bs cs : List UInt8} {m n : Nat} (hm : as.length = m)
    (hn : bs.length = n) : ((as ++ (bs ++ cs)).drop m).take n = bs := by
  rw [List.drop_left' hm, List.take_left' hn]

variable {rec : OmWalInsert}

theorem payloadUserSize_insert (h : rec.userDataSize < 2 ^ 32) :
    payloadUserSize (insertPayload rec) = rec.userDataSize := by
  have hbytes : ((insertPayload rec).drop 40).take 4 = leBytes 4 rec.userDataSize := by
    simp only [insertPayload, List.append_assoc]
    simp only [← List.append_assoc _ _ (leBytes 4 rec.userDataSize ++ _)]
    exact take_drop_of_append (by simp) (by simp)
  rw [payloadUserSize, hbytes, leNat_leBytes_of_lt (by omega)]

theorem payloadAuxSize_insert (h : rec.auxDataSize < 2 ^ 32) :
    payloadAuxSize (insertPayload rec) = rec.auxDataSize := by
  have hbytes : ((insertPayload rec).drop 44).take 4 = leBytes 4 rec.auxDataSize := by
    simp only [insertPayload, List.append_assoc]
    simp only [← List.append_assoc _ _ (leBytes 4 rec.auxDataSize ++ _)]
    exact take_drop_of_append (by simp) (by simp)
  rw [payloadAuxSize, hbytes, leNat_leBytes_of_lt (by omega)]

open List

def fieldAt (data : List UInt8) (offset size : Nat) : Nat := leNat ((data.drop offset).take size)

def decodeInsert (data : List UInt8) : OmWalInsert :=
  { orderId := fieldAt data 0 8
    price := fieldAt data 8 8
    volume := fieldAt data 16 8
    volRemain := fieldAt data 24 8
    org := fieldAt data 32 2
    flags := UInt16.ofNat (fieldAt data 34 2)
    productId := fieldAt data 36 2
    userDataSize := fieldAt data 40 4
    auxDataSize := fieldAt data 44 4
    timestampNs := fieldAt data 48 8
    userData := (data.drop walInsertSize).take (fieldAt data 40 4)
    auxData := (data.drop (walInsertSize + fieldAt data 40 4)).take (fieldAt data 44 4) }

def decodeCancel (data : List UInt8) : OmWalCancel :=
  ⟨fieldAt data 0 8, fieldAt data 8 8, fieldAt data 16 4, fieldAt data 20 2⟩

def decodeMatch (data : List UInt8) : OmWalMatch :=
  ⟨fieldAt data 0 8, fieldAt data 8 8, fieldAt data 16 8, fieldAt data 24 8, fieldAt data 32 8,
    fieldAt data 40 2⟩

/-- The record that a type and a pointer to its bytes stand for. -/
def decodeRecord (type : Nat) (data : List UInt8) : OmWalRecord :=
  if type = walTypeInsert then .insert (decodeInsert data)
  else if type = walTypeCancel then .cancel (decodeCancel data)
  else if type = walTypeMatch then .matched (decodeMatch data)
  else if type = walTypeDeactivate then .deactivate (decodeCancel data)
  else if type = walTypeActivate then .activate (decodeCancel data)
  else .other type data

def OmWalInsert.Fits (rec : OmWalInsert) : Prop :=
  rec.orderId < 2 ^ 64 ∧ rec.price < 2 ^ 64 ∧ rec.volume < 2 ^ 64 ∧ rec.volRemain < 2 ^ 64 ∧
    rec.org < 2 ^ 16 ∧ rec.productId < 2 ^ 16 ∧ rec.userDataSize < 2 ^ 32 ∧
    rec.auxDataSize < 2 ^ 32 ∧ rec.timestampNs < 2 ^ 64 ∧
    rec.userData.length = rec.userDataSize ∧ rec.auxData.length = rec.auxDataSize

def OmWalCancel.Fits (rec : OmWalCancel) : Prop :=
  rec.orderId < 2 ^ 64 ∧ rec.timestampNs < 2 ^ 64 ∧ rec.slotIdx < 2 ^ 32 ∧ rec.productId < 2 ^ 16

def OmWalMatch.Fits (rec : OmWalMatch) : Prop :=
  rec.makerId < 2 ^ 64 ∧ rec.takerId < 2 ^ 64 ∧ rec.price < 2 ^ 64 ∧ rec.volume < 2 ^ 64 ∧
    rec.timestampNs < 2 ^ 64 ∧ rec.productId < 2 ^ 16

def OmWalRecord.Fits : OmWalRecord → Prop
  | .insert rec => rec.Fits
  | .cancel rec | .deactivate rec | .activate rec => rec.Fits
  | .matched rec => rec.Fits
  | .other type _ => walUserBase ≤ type

section Fields

variable {w n offset size : Nat} {more : List UInt8}

theorem fieldAt_here (hn : n < 256 ^ w) : fieldAt (leBytes w n ++ more) 0 w = n := by
  rw [fieldAt, drop_zero, take_left' (leBytes_length ..), leNat_leBytes_of_lt hn]

theorem fieldAt_skip (h : w ≤ offset) :
    fieldAt (leBytes w n ++ more) offset size = fieldAt more (offset - w) size := by
  rw [fieldAt, fieldAt, drop_append, drop_eq_nil_of_le (by rwa [leBytes_length]),
    leBytes_length, nil_append]

theorem drop_skip (h : w ≤ offset) :
    (leBytes w n ++ more).drop offset = more.drop (offset - w) := by
  rw [drop_append, drop_eq_nil_of_le (by rwa [leBytes_length]), leBytes_length,
    nil_append]

end Fields

theorem decodeCancel_payload {rec : OmWalCancel} (h : rec.Fits) :
    decodeCancel (cancelPayload rec) = rec := by
  obtain ⟨hid, htime, hslot, hproduct⟩ := h
  simp (disch := omega) only [decodeCancel, cancelPayload, append_assoc, fieldAt_skip,
    Nat.reduceSub, fieldAt_here]

theorem decodeMatch_payload {rec : OmWalMatch} (h : rec.Fits) :
    decodeMatch (matchPayload rec) = rec := by
  obtain ⟨hmaker, htaker, hprice, hvolume, htime, hproduct⟩ := h
  simp (disch := omega) only [decodeMatch, matchPayload, append_assoc, fieldAt_skip,
    Nat.reduceSub, fieldAt_here]

theorem decodeInsert_payload (h : rec.Fits) : decodeInsert (insertPayload rec) = rec := by
  obtain ⟨hid, hprice, hvolume, hremain, horg, hproduct, huser, haux, htime, huserLen, hauxLen⟩ := h
  have hflags := rec.flags.toNat_lt
  have hdata : ∀ n, (insertPayload rec).drop (walInsertSize + n) =
      (rec.userData ++ rec.auxData).drop n := by
    intro n
    simp (disch := omega) only [insertPayload, append_assoc, walInsertSize, drop_skip]
    congr 1
    omega
  have huserSize : fieldAt (insertPayload rec) 40 4 = rec.userDataSize := by
    simp (disch := omega) only [insertPayload, append_assoc, fieldAt_skip, Nat.reduceSub,
      fieldAt_here]
  have hfirst := hdata 0
  rw [Nat.add_zero, drop_zero] at hfirst
  rw [decodeInsert, huserSize, hdata, hfirst, drop_left' huserLen,
    take_left' huserLen]
  simp (disch := omega) only [insertPayload, append_assoc, fieldAt_skip, Nat.reduceSub,
    fieldAt_here]
  rw [take_of_length_le hauxLen.le, UInt16.ofNat_toNat]

theorem decodeRecord_payload {rec : OmWalRecord} (h : rec.Fits) :
    decodeRecord (walTypeOf rec) (walPayloadOf rec) = rec := by
  cases rec with
  | insert rec => exact congrArg _ (decodeInsert_payload h)
  | cancel rec => exact congrArg _ (decodeCancel_payload h)
  | matched rec => exact congrArg _ (decodeMatch_payload h)
  | deactivate rec => exact congrArg _ (decodeCancel_payload h)
  | activate rec => exact congrArg _ (decodeCancel_payload h)
  | other type payload =>
    have hne : ∀ t < walUserBase, ¬type = t := fun t ht => (Nat.lt_of_lt_of_le ht h).ne'
    rw [walTypeOf, walPayloadOf, decodeRecord, if_neg (hne walTypeInsert (by decide)),
      if_neg (hne walTypeCancel (by decide)), if_neg (hne walTypeMatch (by decide)),
      if_neg (hne walTypeDeactivate (by decide)), if_neg (hne walTypeActivate (by decide))]

end VeloxMatch
