import VeloxMatch.WalFormat

namespace VeloxMatch

def replayBufferSize : Nat := 1024 * 1024

/-- A record as `om_wal_replay_next` hands it out; `data_len` is the length of the bytes. -/
structure WalReplayRecord where
  type : Nat
  seq : Nat
  data : List UInt8
  deriving DecidableEq, Repr

/-- The result of `om_wal_replay_next`: 1 with a record, 0, or an error. -/
inductive ReplayResult where
  | record (rec : WalReplayRecord)
  | eof
  | error (err : OmError)
  deriving DecidableEq, Repr

/-- A replay of the open file `file`. `buffer` holds the valid bytes of the window. With a file
name pattern, `files` are the files by their index. -/
structure OmWalReplay where
  file : List UInt8
  fdOpen : Bool
  buffer : List UInt8
  bufferPos : Nat
  fileOffset : Nat
  fileIndex : Nat
  files : Option (Nat → Option (List UInt8))
  lastSequence : Nat
  enableCrc32 : Bool
  lastStoredCrc : BitVec 32
  lastComputedCrc : BitVec 32
  lastRecordOffset : Nat
  reads : Nat

/-- `om_wal_replay_init` of an existing file, with the settings of
`om_wal_replay_init_with_config`. -/
def omWalReplayInit (file : List UInt8) (crc : Bool) : OmWalReplay where
  file := file
  fdOpen := true
  buffer := []
  bufferPos := 0
  fileOffset := 0
  fileIndex := 0
  files := none
  lastSequence := 0
  enableCrc32 := crc
  lastStoredCrc := 0
  lastComputedCrc := 0
  lastRecordOffset := 0
  reads := 0

/-- The user handler of records of its own types; the result tells if it failed. -/
abbrev WalUserHandler := Nat → List UInt8 → Bool

def noHandler : WalUserHandler := fun _ _ => false

namespace OmWalReplay

variable (short : Nat → Nat → Nat)

/-- What a read call returns for `n` bytes of those that are there: at least one of them. -/
def readCount (k n : Nat) : Nat := max 1 (min n (short k n))

variable (r : OmWalReplay)

def window : List UInt8 := r.buffer.drop r.bufferPos

def available : Nat := r.buffer.length - r.bufferPos

def position : Nat := r.fileOffset - r.buffer.length + r.bufferPos

/-- `replay_fill_buffer`; `none` if it does not return 1. -/
def replayFillBuffer : Option OmWalReplay :=
  if r.file.length ≤ r.fileOffset then none
  else
    let toRead := min (replayBufferSize - r.available) (r.file.length - r.fileOffset)
    if toRead = 0 then none
    else
      let n := readCount short r.reads toRead
      some
        { r with
          buffer := r.window ++ (r.file.drop r.fileOffset).take n
          bufferPos := 0
          fileOffset := r.fileOffset + n
          reads := r.reads + 1 }

theorem fileOffset_lt_of_fill {r r' : OmWalReplay} (h : replayFillBuffer short r = some r') :
    r'.file.length = r.file.length ∧ r.fileOffset < r.file.length ∧ r.fileOffset < r'.fileOffset := by
  unfold replayFillBuffer at h
  split at h
  · cases h
  dsimp only at h
  split at h
  · cases h
  cases h
  refine ⟨rfl, by omega, ?_⟩
  unfold readCount
  dsimp only
  omega

/-- The loops that fill the buffer until it has `need` bytes or the file is read. -/
def fillUntil (need : Nat) (r : OmWalReplay) : Except OmError OmWalReplay :=
  if r.available < need ∧ r.fileOffset < r.file.length then
    match _h : replayFillBuffer short r with
    | none => .error .walRead
    | some r' => fillUntil need r'
  else .ok r
termination_by r.file.length - r.fileOffset
decreasing_by
  obtain ⟨hfile, _, hmore⟩ := fileOffset_lt_of_fill short _h
  omega

/-- What becomes of one turn of the loop. -/
inductive Turn where
  | again (r : OmWalReplay)
  | done (result : ReplayResult) (r : OmWalReplay)

/-- `replay_advance_file`; a file fails to open only if it does not exist. -/
def replayAdvanceFile (files : Nat → Option (List UInt8)) : Turn :=
  if !r.fdOpen then .done (.error .nullParam) r
  else
    match files (r.fileIndex + 1) with
    | none => .done .eof { r with fdOpen := false, fileIndex := r.fileIndex + 1 }
    | some file =>
      .again { r with
        file := file
        fileIndex := r.fileIndex + 1
        fileOffset := 0
        buffer := []
        bufferPos := 0 }

/-- Bytes that are no record must be zero up to the next block boundary. -/
def replayPadding : Turn :=
  let pad := walAlign - r.position % walAlign
  match fillUntil short pad r with
  | .error err => .done (.error err) r
  | .ok r =>
    if r.available < pad then .done (.error .walTruncated) r
    else if (r.window.take pad).any (· != 0) then .done (.error .walRead) r
    else .again { r with bufferPos := r.bufferPos + pad }

def tagAllowed (tag : Nat) : Bool :=
  (walTypeInsert ≤ tag && tag ≤ walTypeActivate) || walUserBase ≤ tag

def lengthAllowed (tag : Nat) (data : List UInt8) : Bool :=
  if tag = walTypeInsert then
    walInsertSize ≤ data.length &&
      walInsertSize + payloadUserSize data + payloadAuxSize data == data.length
  else if tag = walTypeCancel ∨ tag = walTypeDeactivate ∨ tag = walTypeActivate then
    data.length == walCancelSize
  else if tag = walTypeMatch then data.length == walMatchSize
  else true

/-- The fields that tell where a record was and what its CRC is. -/
def noteRecord (offset : Nat) (stored computed : BitVec 32) : OmWalReplay :=
  { r with
    lastRecordOffset := offset
    lastStoredCrc := if r.enableCrc32 then stored else r.lastStoredCrc
    lastComputedCrc := if r.enableCrc32 then computed else r.lastComputedCrc }

def replayWhole (handler : WalUserHandler) (tag len seq offset : Nat) : Turn :=
  let data := (r.window.drop walHeaderSize).take len
  if !lengthAllowed tag data then .done (.error .walRead) r
  else
    let stored := BitVec.ofNat 32 (leNat ((r.window.drop (walHeaderSize + len)).take walCrc32Size))
    let computed := crc32Compute (r.window.take (walHeaderSize + len))
    let r := r.noteRecord offset stored computed
    if r.enableCrc32 && stored != computed then .done (.error .walCrcMismatch) r
    else
      let total := walHeaderSize + len + walCrcSize r.enableCrc32
      let r := { r with bufferPos := r.bufferPos + total, lastSequence := seq }
      if walUserBase ≤ tag && handler tag data then .done (.error .walRead) r
      else .done (.record ⟨tag, seq, data⟩) r

def replayRecord (handler : WalUserHandler) (packed : Nat) : Turn :=
  let tag := omWalHeaderType packed
  let len := omWalHeaderLen packed
  let seq := omWalHeaderSeq packed
  if !tagAllowed tag || seq == 0 || (r.lastSequence != 0 && seq != r.lastSequence + 1) then
    .done (.error .walRead) r
  else
    let total := walHeaderSize + len + walCrcSize r.enableCrc32
    if replayBufferSize < total then .done (.error .walTruncated) r
    else
      let offset := r.position
      match fillUntil short total r with
      | .error err => .done (.error err) r
      | .ok r =>
        if r.available < total then .done (.error .walTruncated) r
        else replayWhole r handler tag len seq offset

/-- The part of a turn after the file was advanced. -/
def replayTurn (handler : WalUserHandler) : Turn :=
  match fillUntil short walHeaderSize r with
  | .error err => .done (.error err) r
  | .ok r =>
    if r.available = 0 then .again r
    else
      let packed := leNat (r.window.take 8)
      if r.available < walHeaderSize ∨ packed = 0 then replayPadding short r
      else replayRecord short r handler packed

/-- One turn of the loop of `om_wal_replay_next`. -/
def replayStep (handler : WalUserHandler) : Turn :=
  if r.available = 0 ∧ r.file.length ≤ r.fileOffset then
    match r.files with
    | none => .done .eof r
    | some files =>
      match replayAdvanceFile r files with
      | .done result r => .done result r
      | .again r => replayTurn short r handler
  else replayTurn short r handler

end OmWalReplay

/-- `om_wal_replay_next` with a bound on the turns of its loop; `none` if they do not suffice. -/
def omWalReplayNext (short : Nat → Nat → Nat) (handler : WalUserHandler) :
    Nat → OmWalReplay → Option (ReplayResult × OmWalReplay)
  | 0, _ => none
  | fuel + 1, r =>
    match r.replayStep short handler with
    | .done result r => some (result, r)
    | .again r => omWalReplayNext short handler fuel r

open OmWalReplay

inductive WalItem where
  | eof
  | error (err : OmError)
  | padding (n : Nat)
  | record (rec : WalReplayRecord)
  deriving DecidableEq, Repr

section Parser

variable (crc : Bool)

def recordSize (len : Nat) : Nat := walHeaderSize + len + walCrcSize crc

/-- The padding at `offset`, if all of it is there and zero. -/
def parsePadding (offset : Nat) (rest : List UInt8) : WalItem :=
  let pad := walAlign - offset % walAlign
  if rest.length < pad then .error .walTruncated
  else if (rest.take pad).any (· != 0) then .error .walRead
  else .padding pad

def crcMatches (len : Nat) (rest : List UInt8) : Bool :=
  BitVec.ofNat 32 (leNat ((rest.drop (walHeaderSize + len)).take walCrc32Size)) ==
    crc32Compute (rest.take (walHeaderSize + len))

def parseWhole (tag len seq : Nat) (rest : List UInt8) : WalItem :=
  let data := (rest.drop walHeaderSize).take len
  if !lengthAllowed tag data then .error .walRead
  else if crc && !crcMatches len rest then .error .walCrcMismatch
  else .record ⟨tag, seq, data⟩

def parseRecord (last packed : Nat) (rest : List UInt8) : WalItem :=
  let tag := omWalHeaderType packed
  let len := omWalHeaderLen packed
  let seq := omWalHeaderSeq packed
  if !tagAllowed tag || seq == 0 || (last != 0 && seq != last + 1) then .error .walRead
  else if rest.length < recordSize crc len then .error .walTruncated
  else parseWhole crc tag len seq rest

/-- What the bytes `rest` from `offset` on begin with, after a record with the number `last`. -/
def parseItem (last offset : Nat) (rest : List UInt8) : WalItem :=
  if rest = [] then .eof
  else
    let packed := leNat (rest.take 8)
    if rest.length < walHeaderSize ∨ packed = 0 then parsePadding offset rest
    else parseRecord crc last packed rest

theorem parsePadding_cases {offset : Nat} {rest : List UInt8} {item : WalItem}
    (h : parsePadding offset rest = item) :
    item = .error .walTruncated ∨ item = .error .walRead ∨
      item = .padding (walAlign - offset % walAlign) ∧ walAlign - offset % walAlign ≤ rest.length ∧
        ∀ b ∈ rest.take (walAlign - offset % walAlign), b = 0 := by
  unfold parsePadding at h
  dsimp only at h
  split at h
  · exact .inl h.symm
  split at h
  · exact .inr (.inl h.symm)
  · next hlen hany =>
    refine .inr (.inr ⟨h.symm, by omega, fun b hb => ?_⟩)
    by_contra hne
    exact hany (List.any_eq_true.mpr ⟨b, hb, by simpa using hne⟩)

theorem parsePadding_ne_eof (offset : Nat) (rest : List UInt8) :
    parsePadding offset rest ≠ .eof := by
  intro h
  rcases parsePadding_cases h with h | h | ⟨h, -⟩ <;> cases h

theorem parseWhole_ne_eof (tag len seq : Nat) (rest : List UInt8) :
    parseWhole crc tag len seq rest ≠ .eof := by
  unfold parseWhole
  dsimp only
  split
  · nofun
  · split <;> nofun

theorem parseRecord_ne_eof (last packed : Nat) (rest : List UInt8) :
    parseRecord crc last packed rest ≠ .eof := by
  unfold parseRecord
  dsimp only
  split
  · nofun
  · split
    · nofun
    · exact parseWhole_ne_eof crc _ _ _ _

theorem nil_of_parseItem_eof {last offset : Nat} {rest : List UInt8}
    (h : parseItem crc last offset rest = .eof) : rest = [] := by
  by_contra hne
  rw [parseItem, if_neg hne] at h
  dsimp only at h
  split at h
  · exact parsePadding_ne_eof _ _ h
  · exact parseRecord_ne_eof _ _ _ _ h

/-- A record that the reader accepts, but for the width of its type. -/
structure WalReplayRecord.Sound (rec : WalReplayRecord) : Prop where
  tag : tagAllowed rec.type = true
  length : lengthAllowed rec.type rec.data = true
  lenLt : rec.data.length < 2 ^ 16
  seqLt : rec.seq < 2 ^ 40
  seqPos : 0 < rec.seq

/-- A record that the reader accepts and that its header can hold. -/
structure WalReplayRecord.Readable (rec : WalReplayRecord) : Prop extends rec.Sound where
  typeLt : rec.type < 2 ^ 8

/-- What is known of a record that was found. -/
structure WalRecordAt (last : Nat) (rest : List UInt8) (rec : WalReplayRecord) : Prop
    extends rec.Readable where
  whole : recordSize crc rec.data.length ≤ rest.length
  header : leNat (rest.take 8) = omWalPackHeader rec.seq rec.type rec.data.length
  data : (rest.drop walHeaderSize).take rec.data.length = rec.data
  next : last ≠ 0 → rec.seq = last + 1
  checksum : crc = true → crcMatches rec.data.length rest = true

variable {crc} {last offset : Nat} {rest : List UInt8} {rec : WalReplayRecord}

theorem packHeader_fields {packed : Nat} (h : packed < 2 ^ 64) :
    omWalPackHeader (omWalHeaderSeq packed) (omWalHeaderType packed) (omWalHeaderLen packed) =
      packed := by
  unfold omWalPackHeader omWalHeaderSeq omWalHeaderType omWalHeaderLen
  omega

theorem leNat_take_lt (rest : List UInt8) : leNat (rest.take 8) < 2 ^ 64 := by
  have hlt := leNat_lt (rest.take 8)
  have hle : 256 ^ (rest.take 8).length ≤ 256 ^ 8 :=
    Nat.pow_le_pow_right (by omega) (List.length_take_le ..)
  omega

theorem walRecordAt_of_parseRecord (hlong : walHeaderSize ≤ rest.length)
    (h : parseRecord crc last (leNat (rest.take 8)) rest = .record rec) :
    WalRecordAt crc last rest rec := by
  have hlt := leNat_take_lt rest
  have hpack := packHeader_fields hlt
  unfold parseRecord parseWhole at h
  dsimp only at h
  generalize hpacked : leNat (rest.take 8) = packed at h hlt hpack
  split at h
  · cases h
  next hbad =>
  split at h
  · cases h
  next hwhole =>
  split at h
  · cases h
  next hlength =>
  split at h
  · cases h
  next hcrc =>
  cases h
  simp only [Bool.or_eq_true, Bool.and_eq_true, bne_iff_ne, beq_iff_eq, Bool.not_eq_true',
    not_or, not_and, Bool.not_eq_false] at hbad hlength hcrc
  have hlen : ((rest.drop walHeaderSize).take (omWalHeaderLen packed)).length =
      omWalHeaderLen packed := by
    unfold recordSize at hwhole
    rw [List.length_take, List.length_drop]
    omega
  exact {
    whole := by
      dsimp only
      rw [hlen]
      omega
    header := by
      dsimp only
      rw [hlen, hpack, hpacked]
    data := by
      dsimp only
      rw [hlen]
    tag := hbad.1.1
    length := hlength
    typeLt := Nat.mod_lt _ (by decide)
    lenLt := by
      dsimp only
      rw [hlen]
      exact Nat.mod_lt _ (by decide)
    seqLt := by
      dsimp only [omWalHeaderSeq]
      omega
    seqPos := Nat.pos_of_ne_zero hbad.1.2
    next := fun hlast => not_not.mp (hbad.2 hlast)
    checksum := fun hon => by
      dsimp only
      rw [hlen]
      exact hcrc hon }

section Header

variable {seq type len : Nat} (hheader : leNat (rest.take 8) = omWalPackHeader seq type len)
  (htag : tagAllowed type = true) (htype : type < 2 ^ 8) (hlen : len < 2 ^ 16)
  (hseq : seq < 2 ^ 40) (hpos : 0 < seq) (hnext : last ≠ 0 → seq = last + 1)
include hheader htag htype hlen hseq hpos hnext

theorem parseItem_of_header (hlong : walHeaderSize ≤ rest.length) :
    parseItem crc last offset rest =
      if rest.length < recordSize crc len then .error .walTruncated
      else parseWhole crc type len seq rest := by
  have hne : rest ≠ [] := by
    rintro rfl
    simp [walHeaderSize] at hlong
  have hpacked := packHeader_ne_zero hpos hseq htype hlen
  have hnumber : (last != 0 && seq != last + 1) = false := by
    by_cases hlast : last = 0
    · simp [hlast]
    · simp [hnext hlast]
  have hzero : (seq == 0) = false := by simpa using hpos.ne'
  rw [parseItem, if_neg hne, hheader, if_neg (by omega), parseRecord, headerType_pack hseq htype hlen,
    headerSeq_pack hseq htype hlen, headerLen_pack hseq htype hlen, htag, hnumber, hzero,
    if_neg (by simp)]

theorem parseItem_eq_parseWhole (hwhole : recordSize crc len ≤ rest.length) :
    parseItem crc last offset rest = parseWhole crc type len seq rest := by
  have hlong : walHeaderSize ≤ rest.length := by
    unfold recordSize at hwhole
    omega
  rw [parseItem_of_header hheader htag htype hlen hseq hpos hnext hlong, if_neg (by omega)]

theorem parseItem_short_record (hlong : walHeaderSize ≤ rest.length)
    (hshort : rest.length < recordSize crc len) :
    parseItem crc last offset rest = .error .walTruncated := by
  rw [parseItem_of_header hheader htag htype hlen hseq hpos hnext hlong, if_pos hshort]

end Header

theorem parseItem_record_iff :
    parseItem crc last offset rest = .record rec ↔ WalRecordAt crc last rest rec := by
  constructor
  · intro h
    unfold parseItem at h
    split at h
    · cases h
    dsimp only at h
    split at h
    · rcases parsePadding_cases h with h | h | ⟨h, -⟩ <;> cases h
    · next hhead => exact walRecordAt_of_parseRecord (by omega) h
  · intro h
    have hcheck : (crc && !crcMatches rec.data.length rest) = false := by
      cases crc with
      | false => rfl
      | true => simp [h.checksum rfl]
    rw [parseItem_eq_parseWhole h.header h.tag h.typeLt h.lenLt h.seqLt h.seqPos h.next h.whole,
      parseWhole, h.data, h.length, hcheck, if_neg (by simp), if_neg (by simp)]

theorem padding_pos {n : Nat} (h : parseItem crc last offset rest = .padding n) :
    0 < n ∧ n ≤ rest.length := by
  unfold parseItem at h
  split at h
  · cases h
  dsimp only at h
  split at h
  · rcases parsePadding_cases h with h | h | ⟨h, hle, -⟩
    · cases h
    · cases h
    · cases h
      have hlt : offset % walAlign < walAlign := Nat.mod_lt _ (by decide)
      omega
  · unfold parseRecord parseWhole at h
    dsimp only at h
    repeat (split at h; · cases h)
    cases h

end Parser

/-- The records of a log and how it ends: `none` where `om_wal_replay_next` returns 0. -/
def parseWal (crc : Bool) (last offset : Nat) (rest : List UInt8) :
    List WalReplayRecord × Option OmError :=
  match _h : parseItem crc last offset rest with
  | .eof => ([], none)
  | .error err => ([], some err)
  | .padding n => parseWal crc last (offset + n) (rest.drop n)
  | .record rec =>
    let out := parseWal crc rec.seq (offset + recordSize crc rec.data.length)
      (rest.drop (recordSize crc rec.data.length))
    (rec :: out.1, out.2)
termination_by rest.length
decreasing_by
  · have hpos := padding_pos _h
    rw [List.length_drop]
    omega
  · have hwhole := (parseItem_record_iff.mp _h).whole
    rw [List.length_drop]
    unfold recordSize walHeaderSize at hwhole ⊢
    omega

section Parse

variable {crc : Bool} {last offset : Nat} {rest : List UInt8}

theorem parseWal_of_eof (h : parseItem crc last offset rest = .eof) :
    parseWal crc last offset rest = ([], none) := by
  rw [parseWal]
  split <;> simp_all

theorem parseWal_of_error {err : OmError} (h : parseItem crc last offset rest = .error err) :
    parseWal crc last offset rest = ([], some err) := by
  rw [parseWal]
  split <;> simp_all

theorem parseWal_of_padding {n : Nat} (h : parseItem crc last offset rest = .padding n) :
    parseWal crc last offset rest = parseWal crc last (offset + n) (rest.drop n) := by
  rw [parseWal]
  split <;> simp_all

theorem parseWal_of_record {rec : WalReplayRecord}
    (h : parseItem crc last offset rest = .record rec) :
    parseWal crc last offset rest =
      (rec :: (parseWal crc rec.seq (offset + recordSize crc rec.data.length)
          (rest.drop (recordSize crc rec.data.length))).1,
        (parseWal crc rec.seq (offset + recordSize crc rec.data.length)
          (rest.drop (recordSize crc rec.data.length))).2) := by
  rw [parseWal]
  split <;> simp_all

end Parse

end VeloxMatch
