import VeloxMatch.WalBurst

namespace VeloxMatch

open OmWalReplay

/-- What the tools show: a record, or where a record is whose CRC fails, with its two CRCs. -/
inductive WalEvent where
  | record (rec : WalReplayRecord)
  | mismatch (offset : Nat) (stored computed : BitVec 32)
  deriving DecidableEq, Repr

def OmWalReplay.mismatch (r : OmWalReplay) : WalEvent :=
  .mismatch r.lastRecordOffset r.lastStoredCrc r.lastComputedCrc

/-- The loop of `wal_reader` over one file, with a bound on its calls; `none` if they do not
suffice. -/
def walReader (short : Nat → Nat → Nat) (strict : Bool) (wanted : WalReplayRecord → Bool)
    (turns : Nat) : Nat → OmWalReplay → Option (List WalEvent)
  | 0, _ => none
  | calls + 1, r =>
    match omWalReplayNext short noHandler turns r with
    | none => none
    | some (.eof, _) => some []
    | some (.error .walCrcMismatch, r) =>
      if strict then some [r.mismatch]
      else (walReader short strict wanted turns calls r).map (r.mismatch :: ·)
    | some (.error _, _) => some []
    | some (.record rec, r) =>
      if wanted rec then (walReader short strict wanted turns calls r).map (.record rec :: ·)
      else walReader short strict wanted turns calls r

/-- A row of `wal_query`; the columns of a record whose CRC fails are not set. -/
structure WalQueryRow where
  record : Option WalReplayRecord
  fileOffset : Nat
  storedCrc : BitVec 32
  computedCrc : BitVec 32
  crcOk : Bool

/-- The cursor; its replay is absent before `wal_query_filter` opened it. -/
structure WalQueryCursor where
  replay : Option OmWalReplay
  eof : Bool
  row : Option WalQueryRow

/-- `wal_query_next`; the result tells if it is `SQLITE_OK`. -/
def walQueryNext (short : Nat → Nat → Nat) (turns : Nat) (cur : WalQueryCursor) :
    Option (Bool × WalQueryCursor) :=
  match cur.replay with
  | none => some (true, { cur with eof := true })
  | some r =>
    match omWalReplayNext short noHandler turns r with
    | none => none
    | some (.record rec, r) =>
      let stored := if r.enableCrc32 then r.lastStoredCrc else 0
      let computed := if r.enableCrc32 then r.lastComputedCrc else 0
      some (true, ⟨some r, false, some ⟨some rec, r.lastRecordOffset, stored, computed, true⟩⟩)
    | some (.error .walCrcMismatch, r) =>
      some (true, ⟨some r, false,
        some ⟨none, r.lastRecordOffset, r.lastStoredCrc, r.lastComputedCrc, false⟩⟩)
    | some (.eof, r) => some (true, { cur with replay := some r, eof := true })
    | some (.error _, r) => some (false, { cur with replay := some r, eof := true })

/-- The rows of a query: `wal_query_next` until its cursor is at the end. -/
def walQueryRows (short : Nat → Nat → Nat) (turns : Nat) :
    Nat → WalQueryCursor → Option (List WalQueryRow)
  | 0, _ => none
  | calls + 1, cur =>
    match walQueryNext short turns cur with
    | none => none
    | some (_, cur) =>
      if cur.eof then some [] else (walQueryRows short turns calls cur).map (cur.row.toList ++ ·)

def WalQueryRow.event (row : WalQueryRow) : WalEvent :=
  match row.record with
  | some rec => .record rec
  | none => .mismatch row.fileOffset row.storedCrc row.computedCrc

theorem walQueryRows_events (short : Nat → Nat → Nat) (turns calls : Nat) (r : OmWalReplay)
    (eof : Bool) (row : Option WalQueryRow) :
    (walQueryRows short turns calls ⟨some r, eof, row⟩).map (·.map WalQueryRow.event) =
      walReader short false (fun _ => true) turns calls r := by
  induction calls generalizing r eof row with
  | zero => rfl
  | succ calls ih =>
    rw [walQueryRows, walReader, walQueryNext]
    dsimp only
    cases omWalReplayNext short noHandler turns r with
    | none => rfl
    | some out =>
      obtain ⟨result, r'⟩ := out
      cases result with
      | eof => rfl
      | record rec =>
        dsimp only
        rw [if_neg Bool.false_ne_true, if_pos rfl, Option.map_map, ← ih, Option.map_map]
        rfl
      | error err =>
        cases err with
        | walCrcMismatch =>
          dsimp only
          rw [if_neg Bool.false_ne_true, if_neg Bool.false_ne_true, Option.map_map, ← ih,
            Option.map_map]
          rfl
        | _ => rfl

section Reader

variable {short : Nat → Nat → Nat} {r : OmWalReplay} {recs : List WalReplayRecord}
  {turns calls : Nat}

theorem walReader_of_parse (h : r.WindowOk) (hfiles : r.FilesAre [])
    (hparse : r.parseAll [] = (recs, none)) (hturns : r.turnsLeft [] < turns)
    (hcalls : r.turnsLeft [] < calls) :
    walReader short false (fun _ => true) turns calls r = some (recs.map .record) := by
  induction calls generalizing r recs with
  | zero => exact absurd hcalls (Nat.not_lt_zero _)
  | succ calls ih =>
    obtain ⟨result, r', hcall, hnext⟩ := @omWalReplayNext_files r short [] h hfiles turns hturns
    rw [walReader, hcall]
    cases hnext with
    | eof _ hempty =>
      cases hparse.symm.trans hempty
      rfl
    | error _ _ _ _ _ herr => cases hparse.symm.trans herr
    | record hok hleft hless hsuffix hindex hrec =>
      cases List.eq_nil_of_suffix_nil hsuffix
      have hparts := hparse.symm.trans hrec
      have hend : (r'.parseAll []).2 = none := (congrArg Prod.snd hparts).symm
      have hrecs := congrArg Prod.fst hparts
      dsimp only at hrecs ⊢
      rw [if_pos rfl, ih hok hleft (Prod.ext rfl hend) (Nat.lt_trans hless hturns)
        (Nat.lt_of_lt_of_le hless (Nat.le_of_lt_succ hcalls)), hrecs]
      rfl

/-- At a record whose CRC fails the reader does not get on: each call returns it again. -/
theorem walReader_stuck (h : r.WindowOk) (hfiles : r.FilesAre [])
    (hparse : r.parseAll [] = (recs, some .walCrcMismatch)) (hturns : r.turnsLeft [] < turns)
    (calls : Nat) : walReader short false (fun _ => true) turns calls r = none := by
  induction calls generalizing r recs with
  | zero => rfl
  | succ calls ih =>
    obtain ⟨result, r', hcall, hnext⟩ := @omWalReplayNext_files r short [] h hfiles turns hturns
    rw [walReader, hcall]
    cases hnext with
    | eof _ hempty => cases hparse.symm.trans hempty
    | error hok hleft hitem hle hsuffix herr =>
      cases List.eq_nil_of_suffix_nil hsuffix
      cases hparse.symm.trans herr
      dsimp only
      rw [if_neg Bool.false_ne_true,
        ih hok hleft (parseFiles_of_error hitem) (Nat.lt_of_le_of_lt hle hturns)]
      rfl
    | record hok hleft hless hsuffix hindex hrec =>
      cases List.eq_nil_of_suffix_nil hsuffix
      have hend := (congrArg Prod.snd (hparse.symm.trans hrec)).symm
      dsimp only
      rw [if_pos rfl, ih hok hleft (Prod.ext rfl hend) (Nat.lt_trans hless hturns)]
      rfl

end Reader

/-- A record as it lies in a file, with the payload that it has there if that was changed. -/
structure LoggedRecord where
  written : WalReplayRecord
  changed : Option (List UInt8)

namespace LoggedRecord

def head (e : LoggedRecord) : List UInt8 :=
  leBytes 8 (omWalPackHeader e.written.seq e.written.type e.written.data.length) ++
    e.changed.getD e.written.data

def bytes (e : LoggedRecord) : List UInt8 :=
  e.head ++ leBytes 4 (crc32Compute (e.written.frame false)).toNat

/-- A change keeps the length and the length fields of an INSERT, and the CRC then fails. -/
structure Ok (e : LoggedRecord) : Prop where
  readable : e.written.Readable
  length : ∀ data, e.changed = some data → data.length = e.written.data.length
  sizes : ∀ data, e.changed = some data → e.written.type = walTypeInsert →
    (data.drop 40).take 8 = (e.written.data.drop 40).take 8
  crc : e.changed ≠ none → crc32Compute e.head ≠ crc32Compute (e.written.frame false)

def event (offset : Nat) (e : LoggedRecord) : WalEvent :=
  match e.changed with
  | none => .record e.written
  | some _ => .mismatch offset (crc32Compute (e.written.frame false)) (crc32Compute e.head)

def fileBytes (entries : List LoggedRecord) : List UInt8 := walPadded (entries.flatMap bytes)

def events : Nat → List LoggedRecord → List WalEvent
  | _, [] => []
  | offset, e :: entries => e.event offset :: events (offset + e.bytes.length) entries

end LoggedRecord

open LoggedRecord

section Damage

variable {last offset : Nat} {e : LoggedRecord} {entries : List LoggedRecord}

theorem bytes_of_unchanged (h : e.changed = none) : e.bytes = e.written.frame true := by
  rw [bytes, head, h, frame_true]
  rfl

theorem fileBytes_of_unchanged (h : ∀ e ∈ entries, e.changed = none) :
    fileBytes entries = walPadded (framesOf true (entries.map (·.written))) := by
  rw [fileBytes, framesOf, List.flatMap_map]
  exact congrArg walPadded (List.flatMap_congr fun e he => bytes_of_unchanged (h e he))

theorem events_of_unchanged (h : ∀ e ∈ entries, e.changed = none) :
    events offset entries = (entries.map (·.written)).map .record := by
  induction entries generalizing offset with
  | nil => rfl
  | cons e entries ih =>
    have he : e.event offset = .record e.written := by
      rw [event, h e List.mem_cons_self]
    rw [events, he, ih fun e he => h e (List.mem_cons_of_mem _ he)]
    rfl

theorem lengthAllowed_congr {tag : Nat} {data data' : List UInt8}
    (hlen : data'.length = data.length)
    (hsizes : tag = walTypeInsert → (data'.drop 40).take 8 = (data.drop 40).take 8) :
    lengthAllowed tag data' = lengthAllowed tag data := by
  unfold lengthAllowed
  rw [hlen]
  split
  · next htag =>
    have huser : payloadUserSize data' = payloadUserSize data :=
      congrArg leNat (take_congr (hsizes htag) (by decide))
    have haux : payloadAuxSize data' = payloadAuxSize data := by
      have h := take_drop_congr (n := 4) (m := 4) (hsizes htag) (by decide)
      rw [List.drop_drop, List.drop_drop] at h
      exact congrArg leNat h
    rw [huser, haux]
  · rfl

theorem parseItem_changed (h : e.Ok) (hnext : last ≠ 0 → e.written.seq = last + 1)
    (hchanged : e.changed ≠ none) (more : List UInt8) :
    parseItem true last offset (e.bytes ++ more) = .error .walCrcMismatch := by
  obtain ⟨data, hdata⟩ := Option.ne_none_iff_exists'.mp hchanged
  have hlen := h.length data hdata
  have hheadEq : e.head =
      leBytes 8 (omWalPackHeader e.written.seq e.written.type e.written.data.length) ++ data := by
    rw [head, hdata]
    rfl
  have hheadLen : e.head.length = walHeaderSize + e.written.data.length := by
    rw [hheadEq, List.length_append, leBytes_length, hlen]
    rfl
  have hheader : leNat ((e.bytes ++ more).take 8) =
      omWalPackHeader e.written.seq e.written.type e.written.data.length := by
    rw [bytes, hheadEq, List.append_assoc, List.append_assoc, List.take_left' (leBytes_length ..),
      leNat_leBytes_of_lt (packHeader_lt ..)]
  have hpayload : ((e.bytes ++ more).drop walHeaderSize).take e.written.data.length = data := by
    rw [bytes, hheadEq, List.append_assoc, List.append_assoc, show walHeaderSize = 8 from rfl,
      List.drop_left' (leBytes_length ..), List.take_left' hlen]
  have hbad : crcMatches e.written.data.length (e.bytes ++ more) = false := by
    have hword : (crc32Compute (e.written.frame false)).toNat < 256 ^ 4 :=
      (crc32Compute (e.written.frame false)).isLt
    have hfield := @List.take_left' _ (leBytes 4 (crc32Compute (e.written.frame false)).toNat) more
      walCrc32Size (leBytes_length ..)
    rw [crcMatches, bytes, List.append_assoc, List.drop_left' hheadLen, List.take_left' hheadLen,
      hfield, leNat_leBytes_of_lt hword, BitVec.ofNat_toNat, BitVec.setWidth_eq]
    exact beq_eq_false_iff_ne.mpr (h.crc hchanged).symm
  have hallowed : lengthAllowed e.written.type data = true :=
    (lengthAllowed_congr hlen (h.sizes data hdata)).trans h.readable.length
  have hwhole : recordSize true e.written.data.length ≤ (e.bytes ++ more).length := by
    rw [bytes, List.length_append, List.length_append, hheadLen, leBytes_length]
    exact Nat.le_add_right ..
  rw [parseItem_eq_parseWhole hheader h.readable.tag h.readable.typeLt h.readable.lenLt
    h.readable.seqLt h.readable.seqPos hnext hwhole, parseWhole, hpayload,
    hallowed, hbad]
  rfl

theorem parseWal_changed (h : ∀ e ∈ entries, e.Ok)
    (hseq : NumberedFrom last (entries.map (·.written)))
    (hchanged : ∃ e ∈ entries, e.changed ≠ none) (more : List UInt8) :
    ∃ recs, parseWal true last offset (entries.flatMap bytes ++ more) =
      (recs, some .walCrcMismatch) := by
  induction entries generalizing last offset with
  | nil => exact absurd hchanged (by simp)
  | cons e entries ih =>
    have he := h e List.mem_cons_self
    obtain ⟨hnext, hrest⟩ := hseq
    rw [List.flatMap_cons, List.append_assoc]
    by_cases hone : e.changed = none
    · have hlater : ∃ e ∈ entries, e.changed ≠ none := by
        obtain ⟨e', hmem, hne⟩ := hchanged
        rcases List.mem_cons.mp hmem with rfl | hmem
        · exact absurd hone hne
        · exact ⟨e', hmem, hne⟩
      rw [bytes_of_unchanged hone,
        parseWal_of_record (parseItem_record_iff.mpr (he.readable.recordAt hnext _)),
        ← frame_length, List.drop_left]
      obtain ⟨recs, hparse⟩ := ih (fun e hmem => h e (List.mem_cons_of_mem _ hmem)) hrest hlater
      rw [hparse]
      exact ⟨_, rfl⟩
    · exact ⟨_, parseWal_of_error (parseItem_changed he hnext hone _)⟩

theorem walReader_changed {short : Nat → Nat → Nat} {turns : Nat} (h : ∀ e ∈ entries, e.Ok)
    (hseq : NumberedFrom 0 (entries.map (·.written))) (hchanged : ∃ e ∈ entries, e.changed ≠ none)
    (hturns : (fileBytes entries).length < turns) (calls : Nat) :
    walReader short false (fun _ => true) turns calls
      (omWalReplayInit (fileBytes entries) true) = none := by
  obtain ⟨recs, hparse⟩ := @parseWal_changed 0 0 entries h hseq hchanged
    (walPadding (entries.flatMap bytes).length)
  exact walReader_stuck (omWalReplayInit_windowOk ..) rfl hparse hturns calls

end Damage

/-- Both tools come to an end and show every record once, the changed ones as mismatches. -/
def ReadsThrough (short : Nat → Nat → Nat) (entries : List LoggedRecord) : Prop :=
  ∃ bound, ∀ turns calls, bound < turns → bound < calls →
    walReader short false (fun _ => true) turns calls (omWalReplayInit (fileBytes entries) true) =
      some (events 0 entries) ∧
    (walQueryRows short turns calls ⟨some (omWalReplayInit (fileBytes entries) true), false, none⟩).map
      (·.map WalQueryRow.event) = some (events 0 entries)

/-- The tools read through a file from one flush exactly if no record of it was changed. -/
theorem reads_through_iff (short : Nat → Nat → Nat) (entries : List LoggedRecord)
    (h : ∀ e ∈ entries, e.Ok) (hseq : NumberedFrom 0 (entries.map (·.written))) :
    ReadsThrough short entries ↔ ∀ e ∈ entries, e.changed = none := by
  constructor
  · rintro ⟨bound, hall⟩
    by_contra hchanged
    -- enough turns for a call to reach the changed record
    let turns := max bound (fileBytes entries).length + 1
    have hstuck := @walReader_changed entries short turns h hseq (by simpa using hchanged)
      (Nat.lt_succ_of_le (Nat.le_max_right ..)) (bound + 1)
    have hread := (hall turns (bound + 1) (Nat.lt_succ_of_le (Nat.le_max_left ..))
      (Nat.lt_succ_self _)).1
    cases hstuck.symm.trans hread
  · intro hunchanged
    refine ⟨(fileBytes entries).length, fun turns calls hturns hcalls => ?_⟩
    have hread : ∀ rec ∈ entries.map (·.written), rec.Readable := by
      intro rec hrec
      obtain ⟨e, he, rfl⟩ := List.mem_map.mp hrec
      exact (h e he).readable
    have hparse : (omWalReplayInit (fileBytes entries) true).parseAll [] =
        (entries.map (·.written), none) := by
      have hblock := @parseWal_walPadded true 0 0 _ hread hseq rfl
      rwa [← fileBytes_of_unchanged hunchanged] at hblock
    have hshown := @walReader_of_parse short _ _ turns calls
      (omWalReplayInit_windowOk ..) rfl hparse hturns hcalls
    rw [walQueryRows_events, hshown, events_of_unchanged hunchanged]
    exact ⟨rfl, rfl⟩

def changedByte : LoggedRecord := ⟨oneByteRecord, some [8]⟩

theorem changedByte_ok : changedByte.Ok where
  readable := oneByteRecord_readable
  length := by
    rintro data ⟨⟩
    rfl
  sizes := by
    rintro data ⟨⟩ htype
    exact absurd htype (by decide)
  crc := fun _ => by decide +kernel

theorem reads_through_iff_unchanged :
    ReadsThrough (fun _ n => n) [⟨oneByteRecord, none⟩] ↔
      ∀ e ∈ [LoggedRecord.mk oneByteRecord none], e.changed = none :=
  reads_through_iff (fun _ n => n) [⟨oneByteRecord, none⟩]
    (fun e he => by
      cases List.eq_of_mem_singleton he
      exact ⟨oneByteRecord_readable, by simp, by simp, fun hne => absurd rfl hne⟩)
    ⟨by simp, trivial⟩

theorem changed_byte_never_ends :
    (∀ turns calls, (fileBytes [changedByte]).length < turns →
      walReader (fun _ n => n) false (fun _ => true) turns calls
        (omWalReplayInit (fileBytes [changedByte]) true) = none) ∧
      ¬ReadsThrough (fun _ n => n) [changedByte] := by
  have hstuck : ∀ turns calls, (fileBytes [changedByte]).length < turns →
      walReader (fun _ n => n) false (fun _ => true) turns calls
        (omWalReplayInit (fileBytes [changedByte]) true) = none := fun turns calls hturns =>
    walReader_changed (fun e he => List.eq_of_mem_singleton he ▸ changedByte_ok)
      ⟨by simp, trivial⟩ ⟨changedByte, by simp, by simp [changedByte]⟩ hturns calls
  refine ⟨hstuck, fun ⟨bound, hall⟩ => ?_⟩
  have hread := (hall (max bound (fileBytes [changedByte]).length + 1) (bound + 1)
    (Nat.lt_succ_of_le (Nat.le_max_left ..)) (Nat.lt_succ_self _)).1
  cases (hstuck _ _ (Nat.lt_succ_of_le (Nat.le_max_right ..))).symm.trans hread

end VeloxMatch
