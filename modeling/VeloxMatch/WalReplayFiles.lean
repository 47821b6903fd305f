import VeloxMatch.WalReader

namespace VeloxMatch

open List

def lastNumber : Nat → List WalReplayRecord → Nat
  | last, [] => last
  | _, rec :: recs => lastNumber rec.seq recs

/-- The records of the rest of a file and of the files that follow it. -/
def parseFiles (crc : Bool) (last offset : Nat) (rest : List UInt8) :
    List (List UInt8) → List WalReplayRecord × Option OmError
  | [] => parseWal crc last offset rest
  | file :: files =>
    let out := parseWal crc last offset rest
    match out.2 with
    | some err => (out.1, some err)
    | none =>
      let more := parseFiles crc (lastNumber last out.1) 0 file files
      (out.1 ++ more.1, more.2)

section Parse

variable {crc : Bool} {last offset : Nat} {rest : List UInt8} {files : List (List UInt8)}

theorem parseFiles_of_error {err : OmError} (h : parseItem crc last offset rest = .error err) :
    parseFiles crc last offset rest files = ([], some err) := by
  cases files with
  | nil => exact parseWal_of_error h
  | cons file files => rw [parseFiles, parseWal_of_error h]

theorem parseFiles_of_padding {n : Nat} (h : parseItem crc last offset rest = .padding n) :
    parseFiles crc last offset rest files =
      parseFiles crc last (offset + n) (rest.drop n) files := by
  cases files with
  | nil => exact parseWal_of_padding h
  | cons file files => rw [parseFiles, parseFiles, parseWal_of_padding h]

theorem parseFiles_of_record {rec : WalReplayRecord}
    (h : parseItem crc last offset rest = .record rec) :
    parseFiles crc last offset rest files =
      (rec :: (parseFiles crc rec.seq (offset + recordSize crc rec.data.length)
          (rest.drop (recordSize crc rec.data.length)) files).1,
        (parseFiles crc rec.seq (offset + recordSize crc rec.data.length)
          (rest.drop (recordSize crc rec.data.length)) files).2) := by
  cases files with
  | nil => exact parseWal_of_record h
  | cons file files =>
    rw [parseFiles, parseFiles, parseWal_of_record h]
    dsimp only
    split <;> rfl

theorem parseFiles_nil_cons (file : List UInt8) :
    parseFiles crc last offset [] (file :: files) = parseFiles crc last 0 file files := by
  rw [parseFiles, parseWal_of_eof (if_pos rfl)]
  rfl

end Parse

namespace OmWalReplay

def FilesAre (r : OmWalReplay) (files : List (List UInt8)) : Prop :=
  match r.files with
  | none => files = []
  | some f => r.fdOpen = true ∧ ∀ j, f (r.fileIndex + 1 + j) = files[j]?

def parseAll (r : OmWalReplay) (files : List (List UInt8)) :
    List WalReplayRecord × Option OmError :=
  parseFiles r.enableCrc32 r.lastSequence r.position r.rest files

def turnsLeft (r : OmWalReplay) (files : List (List UInt8)) : Nat :=
  r.rest.length + (files.map (·.length + 1)).sum

section Files

variable {r r' : OmWalReplay} {short : Nat → Nat → Nat} {files : List (List UInt8)}

theorem After.filesAre {n last : Nat} (h : After r r' n last) (hfiles : FilesAre r files) :
    FilesAre r' files := by
  unfold FilesAre at hfiles ⊢
  rw [h.files, h.fdOpen, h.fileIndex]
  exact hfiles

theorem After.parseAll_eq {n last : Nat} (h : After r r' n last) :
    r'.parseAll files =
      parseFiles r.enableCrc32 last (r.position + n) (r.rest.drop n) files := by
  rw [parseAll, h.crc, h.last, h.position, h.rest_eq]

def advanced (r : OmWalReplay) (file : List UInt8) : OmWalReplay :=
  { r with
    file := file
    fileIndex := r.fileIndex + 1
    fileOffset := 0
    buffer := []
    bufferPos := 0 }

theorem advanced_windowOk (r : OmWalReplay) (file : List UInt8) : (r.advanced file).WindowOk :=
  ⟨Nat.le_refl _, Nat.le_refl _, Nat.zero_le _, rfl⟩

theorem replayAdvanceFile_of_some {f : Nat → Option (List UInt8)} {file : List UInt8}
    (hopen : r.fdOpen = true) (h : f (r.fileIndex + 1) = some file) :
    replayAdvanceFile r f = .again (r.advanced file) := by
  rw [replayAdvanceFile, if_neg (by simp [hopen]), h]
  rfl

theorem replayStep_of_end (h : r.WindowOk) (hend : r.rest = []) (hfiles : FilesAre r files) :
    (files = [] ∧ ∃ r', r.replayStep short noHandler = .done .eof r' ∧
      (r.files = none → r' = r)) ∨
      ∃ file more, files = file :: more ∧ FilesAre (r.advanced file) more ∧
        r.replayStep short noHandler = replayTurn short (r.advanced file) noHandler := by
  have hlen := h.rest_length
  rw [hend, length_nil] at hlen
  unfold replayStep
  rw [if_pos (by omega)]
  unfold FilesAre at hfiles
  cases hf : r.files with
  | none =>
    rw [hf] at hfiles
    exact .inl ⟨hfiles, r, rfl, fun _ => rfl⟩
  | some f =>
    rw [hf] at hfiles
    obtain ⟨hopen, hfiles⟩ := hfiles
    have hnext := hfiles 0
    rw [Nat.add_zero] at hnext
    dsimp only
    cases files with
    | nil =>
      rw [replayAdvanceFile, if_neg (by simp [hopen]), hnext]
      exact .inl ⟨rfl, _, rfl, fun h => by cases h⟩
    | cons file more =>
      rw [replayAdvanceFile_of_some hopen hnext]
      refine .inr ⟨file, more, rfl, ?_, rfl⟩
      unfold FilesAre
      rw [show (r.advanced file).files = some f from hf]
      refine ⟨hopen, fun j => ?_⟩
      have hj := hfiles (j + 1)
      rw [getElem?_cons_succ] at hj
      rw [← hj]
      exact congrArg f (by simp only [advanced]; omega)

theorem replayTurn_of_empty (h : r.WindowOk) (hend : r.rest = []) :
    replayTurn short r noHandler = .again r := by
  have hlen := h.rest_length
  have hle := h.offset_le
  rw [hend, length_nil] at hlen
  unfold replayTurn fillUntil
  rw [if_neg (by omega)]
  dsimp only
  rw [if_pos (by omega)]

inductive FilesNext (r : OmWalReplay) (files : List (List UInt8)) :
    ReplayResult → OmWalReplay → Prop where
  | eof {r' : OmWalReplay} (hend : r.files = none → r'.files = none ∧ r'.WindowOk ∧ r'.rest = [])
      (hparse : r.parseAll files = ([], none)) : FilesNext r files .eof r'
  | error {r' : OmWalReplay} {err : OmError} {left : List (List UInt8)}
      (hok : r'.WindowOk) (hfiles : FilesAre r' left) (hitem : r'.item = .error err)
      (hle : r'.turnsLeft left ≤ r.turnsLeft files) (hsuffix : left <:+ files)
      (hparse : r.parseAll files = ([], some err)) : FilesNext r files (.error err) r'
  | record {r' : OmWalReplay} {rec : WalReplayRecord} {left : List (List UInt8)}
      (hok : r'.WindowOk) (hfiles : FilesAre r' left)
      (hless : r'.turnsLeft left < r.turnsLeft files)
      (hsuffix : left <:+ files)
      (hindex : r'.fileIndex + left.length = r.fileIndex + files.length)
      (hparse : r.parseAll files = (rec :: (r'.parseAll left).1, (r'.parseAll left).2)) :
      FilesNext r files (.record rec) r'

theorem FilesNext.of_again {r'' : OmWalReplay} {left : List (List UInt8)} {result : ReplayResult}
    (h : FilesNext r' left result r'') (hsame : r'.files = r.files)
    (hparse : r.parseAll files = r'.parseAll left) (hless : r'.turnsLeft left ≤ r.turnsLeft files)
    (hsuffix : left <:+ files) (hindex : r'.fileIndex + left.length = r.fileIndex + files.length) :
    FilesNext r files result r'' := by
  cases h with
  | eof hend h => exact .eof (hsame ▸ hend) (hparse.trans h)
  | error hok hfiles hitem hle hsuffix' h =>
    exact .error hok hfiles hitem (Nat.le_trans hle hless) (hsuffix'.trans hsuffix)
      (hparse.trans h)
  | record hok hfiles hless' hsuffix' hindex' hparse' =>
    exact .record hok hfiles (Nat.lt_of_lt_of_le hless' hless) (hsuffix'.trans hsuffix)
      (hindex'.trans hindex) (hparse.trans hparse')

theorem filesNext_of_turn {turn : Turn} (hfiles : FilesAre r files) (hne : r.rest ≠ [])
    (hturn : TurnMeets r turn (parseItem r.enableCrc32 r.lastSequence r.position r.rest)) :
    (∃ result r', turn = .done result r' ∧ FilesNext r files result r') ∨
      ∃ r', turn = .again r' ∧ r'.WindowOk ∧ FilesAre r' files ∧
        r'.turnsLeft files < r.turnsLeft files ∧ r'.fileIndex = r.fileIndex ∧
        r'.files = r.files ∧ r.parseAll files = r'.parseAll files := by
  cases hitem : parseItem r.enableCrc32 r.lastSequence r.position r.rest with
  | eof => exact absurd (nil_of_parseItem_eof _ hitem) hne
  | error err =>
    rw [hitem] at hturn
    obtain ⟨r', hturn, hafter⟩ := hturn
    refine .inl ⟨_, r', hturn, .error hafter.ok (hafter.filesAre hfiles) ?_ ?_
      suffix_rfl (parseFiles_of_error hitem)⟩
    · rw [hafter.item_eq]
      exact hitem
    · rw [turnsLeft, turnsLeft, hafter.rest_eq, length_drop]
      exact Nat.le_refl _
  | padding n =>
    rw [hitem] at hturn
    obtain ⟨r', hturn, hafter⟩ := hturn
    obtain ⟨hpos, hle⟩ := padding_pos hitem
    refine .inr ⟨r', hturn, hafter.ok, hafter.filesAre hfiles, ?_, hafter.fileIndex,
      hafter.files, ?_⟩
    · rw [turnsLeft, turnsLeft, hafter.rest_eq, length_drop]
      omega
    · rw [hafter.parseAll_eq]
      exact parseFiles_of_padding hitem
  | record rec =>
    rw [hitem] at hturn
    obtain ⟨r', hturn, hafter⟩ := hturn
    have hwhole := (parseItem_record_iff.mp hitem).whole
    refine .inl ⟨_, r', hturn, .record hafter.ok (hafter.filesAre hfiles) ?_ suffix_rfl
      (by rw [hafter.fileIndex]) ?_⟩
    · rw [turnsLeft, turnsLeft, hafter.rest_eq, length_drop]
      unfold recordSize walHeaderSize at hwhole ⊢
      omega
    · rw [hafter.parseAll_eq]
      exact parseFiles_of_record hitem

/-- A turn returns what is next in the files or leaves less of them. -/
theorem replayStep_files (h : r.WindowOk) (hfiles : FilesAre r files) :
    (∃ result r', r.replayStep short noHandler = .done result r' ∧
      FilesNext r files result r') ∨
      ∃ r' left, r.replayStep short noHandler = .again r' ∧ r'.WindowOk ∧ FilesAre r' left ∧
        r'.turnsLeft left < r.turnsLeft files ∧ left <:+ files ∧
        r'.fileIndex + left.length = r.fileIndex + files.length ∧ r'.files = r.files ∧
        r.parseAll files = r'.parseAll left := by
  have hlen := h.rest_length
  by_cases hend : r.rest = []
  · have hparse : ∀ file more, files = file :: more →
        r.parseAll files = (r.advanced file).parseAll more := by
      rintro file more rfl
      rw [parseAll, hend, parseFiles_nil_cons]
      rfl
    rcases @replayStep_of_end r short files h hend hfiles with
      ⟨rfl, r', hstep, hsame⟩ | ⟨file, more, rfl, hmore, hstep⟩
    · refine .inl ⟨_, r', hstep, .eof (fun hnone => ?_) ?_⟩
      · rw [hsame hnone]
        exact ⟨hnone, h, hend⟩
      · rw [parseAll, hend]
        exact parseWal_of_eof (if_pos rfl)
    · rw [hstep, hparse _ _ rfl]
      have hok := advanced_windowOk r file
      have hless : (r.advanced file).turnsLeft more < r.turnsLeft (file :: more) := by
        have hrest : (r.advanced file).rest = file := rfl
        rw [turnsLeft, turnsLeft, hrest, hend, map_cons, sum_cons, length_nil]
        omega
      have hsuffix : more <:+ file :: more := suffix_cons ..
      have hindex : (r.advanced file).fileIndex + more.length =
          r.fileIndex + (file :: more).length := by
        rw [length_cons]
        simp only [advanced]
        omega
      by_cases hempty : file = []
      · exact .inr ⟨r.advanced file, more, replayTurn_of_empty hok hempty, hok, hmore, hless,
          hsuffix, hindex, rfl, rfl⟩
      · rcases filesNext_of_turn hmore hempty
          (@replayTurn_meets (r.advanced file) short hok hempty) with
          ⟨result, r', hturn, hnext⟩ | ⟨r', hturn, hok', hfiles', hless', hindex', hsame, hparse'⟩
        · exact .inl ⟨result, r', hturn,
            hnext.of_again rfl (hparse _ _ rfl) hless.le hsuffix hindex⟩
        · exact .inr ⟨r', more, hturn, hok', hfiles', Nat.lt_trans hless' hless, hsuffix,
            by rw [hindex', hindex], hsame, hparse'⟩
  · have hpos := length_pos_iff.mpr hend
    have hstep : r.replayStep short noHandler = replayTurn short r noHandler := by
      rw [replayStep, if_neg (by omega)]
    rw [hstep]
    rcases filesNext_of_turn hfiles hend (@replayTurn_meets r short h hend) with
      hdone | ⟨r', hturn, hok, hfiles', hless, hindex, hsame, hparse⟩
    · exact .inl hdone
    · exact .inr ⟨r', files, hturn, hok, hfiles', hless, suffix_rfl, by rw [hindex], hsame,
        hparse⟩

theorem omWalReplayNext_files (h : r.WindowOk) (hfiles : FilesAre r files) {fuel : Nat}
    (hfuel : r.turnsLeft files < fuel) :
    ∃ result r', omWalReplayNext short noHandler fuel r = some (result, r') ∧
      FilesNext r files result r' := by
  induction fuel generalizing r files with
  | zero => exact absurd hfuel (Nat.not_lt_zero _)
  | succ fuel ih =>
    rw [omWalReplayNext]
    rcases @replayStep_files r short files h hfiles with
      ⟨result, r', hstep, hnext⟩ |
      ⟨r', left, hstep, hok, hleft, hless, hsuffix, hindex, hsame, hparse⟩
    · rw [hstep]
      exact ⟨result, r', rfl, hnext⟩
    · rw [hstep]
      obtain ⟨result, r'', hcall, hnext⟩ :=
        ih hok hleft (Nat.lt_of_lt_of_le hless (Nat.le_of_lt_succ hfuel))
      exact ⟨result, r'', hcall, hnext.of_again hsame hparse hless.le hsuffix hindex⟩

end Files

end OmWalReplay

/-- `om_wal_replay_next` until its result is not 1: the records and the final result. -/
def replayAll (short : Nat → Nat → Nat) (handler : WalUserHandler) (turns : Nat) :
    Nat → OmWalReplay → Option (List WalReplayRecord × Option OmError)
  | 0, _ => none
  | calls + 1, r =>
    match omWalReplayNext short handler turns r with
    | none => none
    | some (.record rec, r) =>
      (replayAll short handler turns calls r).map fun out => (rec :: out.1, out.2)
    | some (.eof, _) => some ([], none)
    | some (.error err, _) => some ([], some err)

theorem replayAll_files {short : Nat → Nat → Nat} {r : OmWalReplay} {files : List (List UInt8)}
    {turns calls : Nat} (h : r.WindowOk) (hfiles : r.FilesAre files)
    (hturns : r.turnsLeft files < turns) (hcalls : r.turnsLeft files < calls) :
    replayAll short noHandler turns calls r = some (r.parseAll files) := by
  induction calls generalizing r files with
  | zero => exact absurd hcalls (Nat.not_lt_zero _)
  | succ calls ih =>
    obtain ⟨result, r', hcall, hnext⟩ :=
      @OmWalReplay.omWalReplayNext_files r short files h hfiles _ hturns
    rw [replayAll, hcall]
    cases hnext with
    | eof _ hparse => rw [hparse]
    | error hok hleft hitem hle hsuffix hparse => rw [hparse]
    | record hok hleft hless hsuffix hindex hparse =>
      dsimp only
      rw [ih hok hleft (Nat.lt_trans hless hturns)
        (Nat.lt_of_lt_of_le hless (Nat.le_of_lt_succ hcalls)), hparse]
      rfl

theorem omWalReplayInit_windowOk (file : List UInt8) (crc : Bool) :
    (omWalReplayInit file crc).WindowOk :=
  ⟨Nat.le_refl _, Nat.le_refl _, Nat.zero_le _, rfl⟩

theorem replayAll_single (short : Nat → Nat → Nat) {file : List UInt8} {crc : Bool}
    {turns calls : Nat} (hturns : file.length < turns) (hcalls : file.length < calls) :
    replayAll short noHandler turns calls (omWalReplayInit file crc) =
      some (parseWal crc 0 0 file) :=
  @replayAll_files short (omWalReplayInit file crc) [] turns calls
    (omWalReplayInit_windowOk file crc) rfl hturns hcalls

/-- The records `recs` lie in the bytes `rest`, one behind the other. -/
inductive LaidOut (crc : Bool) : Nat → List UInt8 → List WalReplayRecord → Prop where
  | nil {last : Nat} {rest : List UInt8} : LaidOut crc last rest []
  | cons {last : Nat} {rest : List UInt8} {rec : WalReplayRecord} {recs : List WalReplayRecord}
      (gap : Nat) (hrec : WalRecordAt crc last (rest.drop gap) rec)
      (hrecs : LaidOut crc rec.seq (rest.drop (gap + recordSize crc rec.data.length)) recs) :
      LaidOut crc last rest (rec :: recs)

theorem LaidOut.of_drop {crc : Bool} {last : Nat} {rest : List UInt8} {recs : List WalReplayRecord}
    {n : Nat} (h : LaidOut crc last (rest.drop n) recs) : LaidOut crc last rest recs := by
  cases h with
  | nil => exact .nil
  | cons gap hrec hrecs =>
    rw [drop_drop] at hrec hrecs
    refine .cons (n + gap) hrec ?_
    rwa [Nat.add_assoc]

theorem LaidOut.typeLt {crc : Bool} {last : Nat} {rest : List UInt8} {recs : List WalReplayRecord}
    (h : LaidOut crc last rest recs) : ∀ rec ∈ recs, rec.type < 2 ^ 8 := by
  induction h with
  | nil => simp
  | cons gap hrec _ ih => exact forall_mem_cons.mpr ⟨hrec.typeLt, ih⟩

theorem parseWal_laidOut (crc : Bool) (last offset : Nat) (rest : List UInt8) :
    LaidOut crc last rest (parseWal crc last offset rest).1 := by
  induction hlen : rest.length using Nat.strong_induction_on generalizing rest last offset with
  | _ len ih =>
    cases hitem : parseItem crc last offset rest with
    | eof =>
      rw [parseWal_of_eof hitem]
      exact .nil
    | error err =>
      rw [parseWal_of_error hitem]
      exact .nil
    | padding n =>
      obtain ⟨hpos, hle⟩ := padding_pos hitem
      rw [parseWal_of_padding hitem]
      refine (ih (rest.drop n).length ?_ last (offset + n) (rest.drop n) rfl).of_drop
      rw [length_drop]
      omega
    | record rec =>
      have hrec := parseItem_record_iff.mp hitem
      have hwhole := hrec.whole
      rw [parseWal_of_record hitem]
      refine .cons 0 hrec ?_
      rw [Nat.zero_add]
      refine ih _ ?_ _ _ _ rfl
      rw [length_drop]
      unfold recordSize walHeaderSize at hwhole ⊢
      omega

/-- Whatever bytes a file has and however its reads are cut, calling `om_wal_replay_next` until
its result is not 1 ends with the records and the final code that the parser finds in the whole
byte string. -/
theorem replay_eq_parse (short : Nat → Nat → Nat) (file : List UInt8) (crc : Bool) :
    (∀ turns calls, file.length < turns → file.length < calls →
      replayAll short noHandler turns calls (omWalReplayInit file crc) =
        some (parseWal crc 0 0 file)) ∧
      LaidOut crc 0 file (parseWal crc 0 0 file).1 := by
  refine ⟨fun turns calls hturns hcalls => ?_, parseWal_laidOut crc 0 0 file⟩
  exact replayAll_single short hturns hcalls

end VeloxMatch
