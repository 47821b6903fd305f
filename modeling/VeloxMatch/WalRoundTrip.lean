import VeloxMatch.WalCodec
import VeloxMatch.WalReject

namespace VeloxMatch

open OmWal OmWalConfig List

theorem zero_of_parseWal {crc : Bool} {last offset : Nat} {rest : List UInt8}
    (h : parseWal crc last offset rest = ([], none)) : ∀ b ∈ rest, b = 0 := by
  induction hlen : rest.length using Nat.strong_induction_on generalizing rest offset with
  | _ len ih =>
    cases hitem : parseItem crc last offset rest with
    | eof => simp [nil_of_parseItem_eof _ hitem]
    | error err => rw [parseWal_of_error hitem] at h; cases h
    | record rec => rw [parseWal_of_record hitem] at h; cases h
    | padding n =>
      obtain ⟨-, hle, hzero, -⟩ := parseItem_padding_iff.mp hitem
      have hpos := (padding_pos hitem).1
      rw [parseWal_of_padding hitem] at h
      have hrest := ih (rest.drop n).length (by rw [length_drop]; omega) h rfl
      intro b hb
      rw [← take_append_drop n rest] at hb
      rcases mem_append.mp hb with hb | hb
      · exact hzero b hb
      · exact hrest b hb

/-- Between a record and the next one, the field is taken for the start of a header; the number
in it is at least the type of the next record, times 2^24. -/
theorem leNat_field_frame (c : Nat) (rec : WalReplayRecord) (htype : rec.type < 2 ^ 8)
    (hlen : rec.data.length < 2 ^ 16) (hseq : rec.seq < 2 ^ 40) (more : List UInt8) :
    rec.type * 2 ^ 48 ≤ leNat ((leBytes 4 c ++ (rec.frame true ++ more)).take 8) := by
  have hhead : (rec.frame true ++ more).take 4 =
      (leBytes 8 (omWalPackHeader rec.seq rec.type rec.data.length)).take 4 := by
    rw [← take_walFrame true rec.seq rec.type rec.data, take_take]
    refine take_append_of_le_length ?_
    rw [frame_length]
    unfold recordSize walHeaderSize
    omega
  have hbytes : (leBytes 4 c ++ (rec.frame true ++ more)).take 8 =
      leBytes 4 c ++ leBytes 4 (omWalPackHeader rec.seq rec.type rec.data.length) := by
    rw [show 8 = (leBytes 4 c).length + 4 by rw [leBytes_length], take_length_add_append, hhead]
    simp [leBytes]
  rw [hbytes, leNat_append, leBytes_length, leNat_leBytes 4 (omWalPackHeader ..),
    packHeader_eq hseq htype hlen]
  omega

section Block

variable {recs : List WalReplayRecord} {rec : WalReplayRecord} {err : Option OmError}

theorem parseWal_frame_field (h : rec.Readable) (more : List UInt8) :
    parseWal false 0 0 (rec.frame true ++ more) = (rec :: recs, err) ↔
      parseWal false rec.seq (rec.frame false).length
        (leBytes 4 (crc32Compute (rec.frame false)).toNat ++ more) = (recs, err) := by
  have hitem : parseItem false 0 0 (rec.frame false ++
      (leBytes 4 (crc32Compute (rec.frame false)).toNat ++ more)) = .record rec :=
    parseItem_record_iff.mpr (h.recordAt nofun _)
  rw [frame_true, append_assoc, parseWal_of_record hitem, Nat.zero_add, ← frame_length,
    drop_left]
  constructor
  · intro heq
    obtain ⟨hrecs, herr⟩ := Prod.mk.inj heq
    exact Prod.ext (cons.inj hrecs).2 herr
  · intro heq
    rw [heq]

theorem not_parseWal_field {rec' : WalReplayRecord} {c last offset : Nat} (h : rec'.Sound)
    (htype : rec'.type < 2 ^ 8) (hseq : rec'.seq < 2 ^ 24) (more : List UInt8) :
    parseWal false last offset (leBytes 4 c ++ (rec'.frame true ++ more)) ≠ (rec' :: recs, err) := by
  intro hparse
  have htag : rec'.type ≠ 0 := by
    intro hzero
    have htag := h.tag
    rw [hzero] at htag
    exact absurd htag (by decide)
  have hpacked := leNat_field_frame c rec' htype h.lenLt h.seqLt more
  cases hitem : parseItem false last offset (leBytes 4 c ++ (rec'.frame true ++ more)) with
  | eof => rw [parseWal_of_eof hitem] at hparse; cases hparse
  | error err => rw [parseWal_of_error hitem] at hparse; cases hparse
  | padding n =>
    obtain ⟨-, -, -, hhead⟩ := parseItem_padding_iff.mp hitem
    rcases hhead with hshort | hzero
    · rw [length_append, length_append, frame_length, leBytes_length] at hshort
      unfold recordSize walHeaderSize at hshort
      omega
    · omega
  | record found =>
    rw [parseWal_of_record hitem] at hparse
    cases (cons.inj (congrArg Prod.fst hparse)).1
    have hheader := (parseItem_record_iff.mp hitem).header
    rw [packHeader_eq h.seqLt htype h.lenLt] at hheader
    have hlen := h.lenLt
    omega

/-- What the reader makes of one flush, if it expects no more CRC fields than were written. -/
theorem parseWal_block_iff {crcW crcR : Bool} (hcrc : crcR = true → crcW = true)
    (hsound : ∀ rec ∈ recs, rec.Sound) (hnumbers : NumberedFrom 0 recs)
    (hfirst : ∀ rec ∈ recs.head?, rec.seq = 1) :
    parseWal crcR 0 0 (walPadded (framesOf crcW recs)) = (recs, none) ↔
      (∀ rec ∈ recs, rec.type < 2 ^ 8) ∧
        (crcW = crcR ∨ recs = [] ∨
          ∃ rec, recs = [rec] ∧ crc32Compute (rec.frame false) = 0) := by
  constructor
  · intro hparse
    have htypes : ∀ rec ∈ recs, rec.type < 2 ^ 8 := by
      have hlaid := parseWal_laidOut crcR 0 0 (walPadded (framesOf crcW recs))
      rw [hparse] at hlaid
      exact hlaid.typeLt
    refine ⟨htypes, ?_⟩
    by_cases hsame : crcW = crcR
    · exact .inl hsame
    obtain ⟨rfl, rfl⟩ : crcW = true ∧ crcR = false := by
      cases crcW <;> cases crcR <;> simp_all
    right
    cases recs with
    | nil => exact .inl rfl
    | cons rec recs =>
      right
      have hread : rec.Readable := ⟨hsound rec (by simp), htypes rec (by simp)⟩
      rw [walPadded, framesOf, flatMap_cons, append_assoc, parseWal_frame_field hread]
        at hparse
      cases recs with
      | nil =>
        -- The only field is skipped as padding, so it is zero.
        refine ⟨rec, rfl, ?_⟩
        have hzero := zero_of_parseWal hparse
        have hfield : leBytes 4 (crc32Compute (rec.frame false)).toNat = replicate 4 0 := by
          refine eq_replicate_iff.mpr ⟨leBytes_length .., fun b hb => ?_⟩
          exact hzero b (mem_append_left _ hb)
        have hnat := congrArg leNat hfield
        rw [leNat_leBytes_of_lt (crc32Compute (rec.frame false)).isLt] at hnat
        exact BitVec.eq_of_toNat_eq hnat
      | cons rec' recs =>
        exfalso
        have hseq : rec'.seq = 2 := by
          rw [hnumbers.2.1 hread.seqPos.ne', hfirst rec rfl]
        rw [flatMap_cons, append_assoc] at hparse
        exact not_parseWal_field (hsound rec' (by simp)) (htypes rec' (by simp))
          (by rw [hseq]; decide) _ hparse
  · rintro ⟨htypes, hcases⟩
    have hread : ∀ rec ∈ recs, rec.Readable := fun rec hrec =>
      ⟨hsound rec hrec, htypes rec hrec⟩
    rcases hcases with rfl | rfl | ⟨rec, rfl, hzero⟩
    · exact parseWal_walPadded hread hnumbers (Nat.zero_mod _)
    · exact parseWal_walPadded hread hnumbers (Nat.zero_mod _)
    · cases crcR with
      | true =>
        rw [hcrc rfl]
        exact parseWal_walPadded hread hnumbers (Nat.zero_mod _)
      | false =>
        cases crcW with
        | false => exact parseWal_walPadded hread hnumbers (Nat.zero_mod _)
        | true =>
          have hge := alignUp_ge (rec.frame true).length
          have hlen : (rec.frame true).length = (rec.frame false).length + 4 := by
            rw [frame_true, length_append, leBytes_length]
          rw [walPadded, framesOf, flatMap_singleton,
            parseWal_frame_field (hread rec (by simp)), hzero, walPadding,
            show leBytes 4 (0 : BitVec 32).toNat = replicate 4 0 by decide,
            replicate_append_replicate]
          refine parseWal_zeros ?_
          rw [← Nat.add_assoc, ← hlen, Nat.add_sub_cancel' hge]
          exact alignUp_mod _

end Block

variable (config : OmWalConfig)

def filledWal (slabSet : Bool) (reqs : List WalRequest) : OmWal :=
  appendAll (omWalSetSlab (freshWal config) slabSet) reqs

def filledRecords (slabSet : Bool) (reqs : List WalRequest) : List WalReplayRecord :=
  recordsOf (omWalSetSlab (freshWal config) slabSet) reqs

theorem freshWal_opened (slabSet : Bool) : Opened [] (omWalSetSlab (freshWal config) slabSet) where
  lastError := rfl
  buffer := rfl
  fd := rfl
  file := Function.update_self ..
  later := by
    intro hpattern i hi
    refine Function.update_of_ne ?_ ..
    rw [@path_pattern config hpattern]
    exact fun he => Nat.ne_of_gt hi (WalPath.indexed.inj he)
  sequence := Nat.one_pos

variable {slabSet : Bool} {reqs : List WalRequest}

theorem filledWal_logInv {config : OmWalConfig}
    (h : OneBuffer (omWalSetSlab (freshWal config) slabSet) reqs) :
    LogInv [] config.fileIndex (filledWal config slabSet reqs)
        ⟨[], [], filledRecords config slabSet reqs, []⟩ ∧
      (filledWal config slabSet reqs).lastError = none ∧
      (filledWal config slabSet reqs).config = config.completed := by
  have hinv := (freshWal_opened config slabSet).logInv
  rw [filledWal, appendAll_eq rfl h]
  exact ⟨⟨rfl, hinv.past, hinv.cur, hinv.later, hinv.single, hinv.fd, hinv.fileIndex, hinv.torn,
    nil_prefix, hinv.synced⟩, rfl, rfl⟩

theorem filledWal_close {config : OmWalConfig}
    (h : OneBuffer (omWalSetSlab (freshWal config) slabSet) reqs) :
    ∃ file files, FilesOn config ((filledWal config slabSet reqs).omWalClose completeEnv)
        (file :: files) ∧
      ∀ crc, parseFiles crc 0 0 file files = parseWal crc 0 0
        (walPadded (framesOf config.completed.enableCrc32 (filledRecords config slabSet reqs))) := by
  obtain ⟨hinv, herr, hconfig⟩ := filledWal_logInv h
  generalize filledWal config slabSet reqs = w at hinv herr hconfig ⊢
  generalize filledRecords config slabSet reqs = recs at hinv ⊢
  obtain ⟨g, hflush⟩ := hinv.flush completeEnv
  have hok := @omWalFlush_complete completeEnv w (fun _ => rfl) herr (hinv.fd herr)
  have hfiles := omWalClose_files completeEnv w
  generalize w.omWalFlush completeEnv = out at hflush hok hfiles
  cases hflush with
  | failed => cases hok
  | done hinv' hsame herr' herr'' hghost =>
    have hon := @LogInv.filesOn config _ _ _ hinv' (by rw [hsame.config, hconfig]; rfl) hfiles
    rw [hsame.config, hconfig] at hon
    cases hghost with
    | here =>
      refine ⟨_, _, hon, fun crc => ?_⟩
      simp [parseFiles, WalGhost.flushHere, fileOf]
    | next =>
      refine ⟨_, _, hon, fun crc => ?_⟩
      simp [parseFiles_nil_cons, parseFiles, WalGhost.flushNext, fileOf]
    | same hpending =>
      refine ⟨_, _, hon, fun crc => ?_⟩
      cases hpending
      simp [parseFiles, fileOf, framesOf, walPadded, walPadding, alignUp, walAlign]

/-- The flags that let the writer add CRC fields which the reader does not expect. -/
def CrcSplit : Prop :=
  config.enableCrc32 = true ∧ config.disableCrc32 = true

/-- The INSERT payload of an order ends with its user and aux bytes. -/
def CarriesBytes (slabSet : Bool) : WalRequest → Prop
  | .insert order aux productId timestampNs =>
    order.data.length = config.userDataSize → aux.length = config.auxDataSize →
      slabSet = true →
      let payload := (omWalSetSlab (freshWal config) slabSet).payloadOf
        (.insert order aux productId timestampNs)
      (payload.drop walInsertSize).take config.userDataSize = order.data ∧
        (payload.drop (walInsertSize + config.userDataSize)).take config.auxDataSize = aux
  | _ => True

theorem drop_insertPayload (rec : OmWalInsert) :
    (insertPayload rec).drop walInsertSize = rec.userData ++ rec.auxData := by
  unfold insertPayload
  rw [append_assoc _ rec.userData]
  exact drop_left' (by simp [walInsertSize])

theorem carriesBytes (slabSet : Bool) (req : WalRequest) : CarriesBytes config slabSet req := by
  cases req with
  | insert order aux productId timestampNs =>
    intro huser haux hslab
    dsimp only
    have huserData : order.data.takeD config.userDataSize 0 = order.data := by
      rw [takeD_eq_take _ huser.ge, take_of_length_le huser.le]
    have hauxData : aux.takeD config.auxDataSize 0 = aux := by
      rw [takeD_eq_take _ haux.ge, take_of_length_le haux.le]
    have htail : ((omWalSetSlab (freshWal config) slabSet).payloadOf
        (.insert order aux productId timestampNs)).drop walInsertSize = order.data ++ aux := by
      rw [payloadOf, drop_insertPayload]
      simp only [insertOf, omWalSetSlab, freshWal, completed, hslab, if_true,
        huserData, hauxData]
    rw [← drop_drop, htail]
    exact ⟨take_left' huser, by rw [drop_left' huser, take_of_length_le haux.le]⟩
  | _ => trivial

theorem recordsOf_types (w : OmWal) (reqs : List WalRequest) :
    (recordsOf w reqs).map WalReplayRecord.type = reqs.map typeOf := by
  induction reqs generalizing w with
  | nil => rfl
  | cons req reqs ih => rw [recordsOf, map_cons, map_cons, ih]; rfl

section RoundTrip

variable {config : OmWalConfig} {slabSet : Bool} {reqs : List WalRequest}

theorem filledRecords_types :
    (∀ rec ∈ filledRecords config slabSet reqs, rec.type < 2 ^ 8) ↔
      ∀ req ∈ reqs, typeOf req ≤ 0xFF := by
  have hleft : (∀ rec ∈ filledRecords config slabSet reqs, rec.type < 2 ^ 8) ↔
      ∀ t ∈ (filledRecords config slabSet reqs).map WalReplayRecord.type, t < 2 ^ 8 := by
    rw [forall_mem_map]
  rw [hleft, filledRecords, recordsOf_types, forall_mem_map]
  exact forall₂_congr fun req _ => Nat.lt_succ_iff

theorem filledRecords_single {P : WalReplayRecord → Prop} :
    (∃ rec, filledRecords config slabSet reqs = [rec] ∧ P rec) ↔
      ∃ req, reqs = [req] ∧ P (recordOf (omWalSetSlab (freshWal config) slabSet) req) := by
  cases reqs with
  | nil => simp [filledRecords, recordsOf]
  | cons req reqs => cases reqs <;> simp [filledRecords, recordsOf]

theorem filledRecords_eq_nil : filledRecords config slabSet reqs = [] ↔ reqs = [] := by
  cases reqs <;> simp [filledRecords, recordsOf]

theorem crcSplit_iff :
    config.completed.enableCrc32 = (!config.disableCrc32) ↔ ¬CrcSplit config := by
  unfold CrcSplit completed
  cases config.enableCrc32 <;> cases config.disableCrc32 <;> simp

theorem replays_filled_iff (short : Nat → Nat → Nat)
    (h : OneBuffer (omWalSetSlab (freshWal config) slabSet) reqs) :
    Replays short config ((filledWal config slabSet reqs).omWalClose completeEnv)
        (filledRecords config slabSet reqs, none) ↔
      (∀ req ∈ reqs, typeOf req ≤ 0xFF) ∧
        (¬CrcSplit config ∨ reqs = [] ∨
          ∃ req, reqs = [req] ∧ crc32Compute
            ((recordOf (omWalSetSlab (freshWal config) slabSet) req).frame false) = 0) := by
  obtain ⟨file, files, hon, hparse⟩ := filledWal_close h
  have hcrc : (!config.disableCrc32) = true → config.completed.enableCrc32 = true := by
    intro hon
    simp only [completed, hon, Bool.or_true]
  have hsound : ∀ rec ∈ filledRecords config slabSet reqs, rec.Sound :=
    recordsOf_sound rfl Nat.one_pos h
  have hnumbers : NumberedFrom 0 (filledRecords config slabSet reqs) :=
    recordsOf_numbered rfl nofun h
  have hfirst : ∀ rec ∈ (filledRecords config slabSet reqs).head?, rec.seq = 1 := by
    cases reqs with
    | nil => nofun
    | cons req reqs =>
      intro rec hrec
      cases hrec
      rfl
  rw [hon.replays_iff, hparse, parseWal_block_iff hcrc hsound hnumbers hfirst, crcSplit_iff,
    filledRecords_types, filledRecords_eq_nil,
    filledRecords_single (P := fun rec => crc32Compute (rec.frame false) = 0)]

end RoundTrip

/-- Records that a new log acknowledges and writes by one flush are read back as they are, with
the same settings, iff each type fits into its field and the CRC flags do not split; with the
flags split, only where there is at most one record and its CRC is zero. -/
theorem codec_round_trip_iff (short : Nat → Nat → Nat) (config : OmWalConfig) (slabSet : Bool)
    (reqs : List WalRequest) (h : OneBuffer (omWalSetSlab (freshWal config) slabSet) reqs) :
    (∀ req ∈ reqs, CarriesBytes config slabSet req) ∧
      (Replays short config ((filledWal config slabSet reqs).omWalClose completeEnv)
          (filledRecords config slabSet reqs, none) ↔
        (∀ req ∈ reqs, typeOf req ≤ 0xFF) ∧
          (¬CrcSplit config ∨ reqs = [] ∨
            ∃ req, reqs = [req] ∧ crc32Compute
              ((recordOf (omWalSetSlab (freshWal config) slabSet) req).frame false) = 0)) :=
  ⟨fun req _ => carriesBytes config slabSet req, replays_filled_iff short h⟩

def splitConfig : OmWalConfig := { blockConfig with disableCrc32 := true }

def wideRequest : WalRequest := .custom 0x180 []

theorem codec_round_trip_short_records :
    OneBuffer (omWalSetSlab (freshWal blockConfig) false) [shortRequest, shortRequest] ∧
      Replays (fun _ n => n) blockConfig
        ((filledWal blockConfig false [shortRequest, shortRequest]).omWalClose completeEnv)
        (filledRecords blockConfig false [shortRequest, shortRequest], none) := by
  have h : OneBuffer (omWalSetSlab (freshWal blockConfig) false) [shortRequest, shortRequest] :=
    ⟨by decide +kernel, by decide +kernel, by decide +kernel, by decide +kernel, trivial⟩
  refine ⟨h, ((codec_round_trip_iff (fun _ n => n) blockConfig false _ h).2).mpr ⟨?_, .inl ?_⟩⟩
  · decide
  · rintro ⟨-, hdisable⟩
    cases hdisable

/-- A type that is cut off, and two records whose CRC fields are taken for headers. -/
theorem codec_round_trip_fails :
    (OneBuffer (omWalSetSlab (freshWal blockConfig) false) [wideRequest] ∧
      ¬Replays (fun _ n => n) blockConfig
        ((filledWal blockConfig false [wideRequest]).omWalClose completeEnv)
        (filledRecords blockConfig false [wideRequest], none)) ∧
    (OneBuffer (omWalSetSlab (freshWal splitConfig) false) [shortRequest, shortRequest] ∧
      ¬Replays (fun _ n => n) splitConfig
        ((filledWal splitConfig false [shortRequest, shortRequest]).omWalClose completeEnv)
        (filledRecords splitConfig false [shortRequest, shortRequest], none)) := by
  have hwide : OneBuffer (omWalSetSlab (freshWal blockConfig) false) [wideRequest] :=
    ⟨by decide +kernel, by decide +kernel, trivial⟩
  have hsplit : OneBuffer (omWalSetSlab (freshWal splitConfig) false)
      [shortRequest, shortRequest] :=
    ⟨by decide +kernel, by decide +kernel, by decide +kernel, by decide +kernel, trivial⟩
  refine ⟨⟨hwide, ?_⟩, hsplit, ?_⟩
  · rw [replays_filled_iff _ hwide]
    rintro ⟨htypes, -⟩
    exact absurd (htypes wideRequest (by simp)) (by decide)
  · rw [replays_filled_iff _ hsplit]
    rintro ⟨-, hflags | hnil | ⟨req, hone, -⟩⟩
    · exact hflags ⟨rfl, rfl⟩
    · cases hnil
    · cases hone

end VeloxMatch
