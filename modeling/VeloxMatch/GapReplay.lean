import VeloxMatch.MarketPublic
import VeloxMatch.WalBurst

namespace VeloxMatch

open OmWalReplay

/-- What a replay into a worker comes to: its result, the records that were processed, and the
worker. -/
structure GapRun (W : Type) where
  result : Except OmError Nat
  fed : List WalReplayRecord
  worker : W

/-- A number in the range of the replay; `toSeq` is 0 if the range has no end. -/
def InRange (fromSeq toSeq seq : Nat) : Prop := fromSeq ≤ seq ∧ (toSeq = 0 ∨ seq < toSeq)

instance (fromSeq toSeq seq : Nat) : Decidable (InRange fromSeq toSeq seq) :=
  inferInstanceAs (Decidable (_ ∧ _))

section Worker

variable {W : Type} (process : W → OmWalRecord → OmError × W)

def processRecord (w : W) (rec : WalReplayRecord) : OmError × W :=
  process w (decodeRecord rec.type rec.data)

/-- The loop of the replay helpers, with a bound on its calls; `none` if they do not suffice. It
goes on as long as the replay returns 0, and then `vars` still holds what the variables for the
type, the number and the bytes held before the loop, which is nothing that the program set. -/
def gapLoop (short : Nat → Nat → Nat) (turns fromSeq toSeq : Nat) (vars : WalReplayRecord) :
    Nat → OmWalReplay → List WalReplayRecord → W → Option (GapRun W)
  | 0, _, _, _ => none
  | calls + 1, r, fed, w =>
    match omWalReplayNext short noHandler turns r with
    | none => none
    | some (.eof, r) =>
      if vars.seq < fromSeq then gapLoop short turns fromSeq toSeq vars calls r fed w
      else if 0 < toSeq ∧ toSeq ≤ vars.seq then some ⟨.ok fed.length, fed, w⟩
      else
        match processRecord process w vars with
        | (.ok, w) => gapLoop short turns fromSeq toSeq vars calls r (fed ++ [vars]) w
        | (err, w) => some ⟨.error err, fed ++ [vars], w⟩
    | some _ => some ⟨.ok fed.length, fed, w⟩

/-- The helpers; the file is absent if it cannot be opened. -/
def replayGapWith (short : Nat → Nat → Nat) (turns calls : Nat) (vars : WalReplayRecord)
    (file : Option (List UInt8)) (fromSeq toSeq : Nat) (w : W) : Option (GapRun W) :=
  match file with
  | none => some ⟨.error .walOpen, [], w⟩
  | some file =>
    gapLoop process short turns fromSeq toSeq vars calls (omWalReplayInit file true) [] w

def feedRecords : List WalReplayRecord → List WalReplayRecord → W → GapRun W
  | [], fed, w => ⟨.ok fed.length, fed, w⟩
  | rec :: recs, fed, w =>
    match processRecord process w rec with
    | (.ok, w) => feedRecords recs (fed ++ [rec]) w
    | (err, w) => ⟨.error err, fed ++ [rec], w⟩

/-- What the helpers are for: to process the records of the range. -/
def feedRange (fromSeq toSeq : Nat) (recs : List WalReplayRecord) (w : W) : GapRun W :=
  feedRecords process (recs.filter fun rec => InRange fromSeq toSeq rec.seq) [] w

/-- The helper ends and has processed the records of the range, whatever its variables held. -/
def FeedsRange (short : Nat → Nat → Nat) (file : List UInt8) (recs : List WalReplayRecord)
    (fromSeq toSeq : Nat) (w : W) : Prop :=
  ∀ vars, ∃ bound, ∀ turns calls, bound < turns → bound < calls →
    replayGapWith process short turns calls vars (some file) fromSeq toSeq w =
      some (feedRange process fromSeq toSeq recs w)

end Worker

def omBusReplayGap (short : Nat → Nat → Nat) (turns calls : Nat) (vars : WalReplayRecord)
    (file : Option (List UInt8)) (fromSeq toSeq : Nat) (w : OmMarketWorker) :
    Option (GapRun OmMarketWorker) :=
  replayGapWith omMarketWorkerProcess short turns calls vars file fromSeq toSeq w

def omBusReplayGapPublic (short : Nat → Nat → Nat) (turns calls : Nat) (vars : WalReplayRecord)
    (file : Option (List UInt8)) (fromSeq toSeq : Nat) (w : OmMarketPublicWorker) :
    Option (GapRun OmMarketPublicWorker) :=
  replayGapWith omMarketPublicProcess short turns calls vars file fromSeq toSeq w

section Feed

variable {W : Type} {process : W → OmWalRecord → OmError × W} {short : Nat → Nat → Nat}
  {r : OmWalReplay} {recs fed : List WalReplayRecord} {vars : WalReplayRecord}
  {turns fromSeq toSeq : Nat} {w : W} {file : List UInt8}

theorem feedRecords_fed :
    ∃ more, (feedRecords process recs fed w).fed = fed ++ more ∧ (recs ≠ [] → more ≠ []) := by
  induction recs generalizing fed w with
  | nil => exact ⟨[], (List.append_nil _).symm, fun h => absurd rfl h⟩
  | cons rec recs ih =>
    rw [feedRecords]
    split
    · next w' _ =>
      obtain ⟨more, hmore, -⟩ := @ih (fed ++ [rec]) w'
      exact ⟨rec :: more, by rw [hmore, List.append_assoc]; rfl, fun _ => List.cons_ne_nil _ _⟩
    · exact ⟨[rec], rfl, fun _ => List.cons_ne_nil _ _⟩

theorem feedRange_fed_iff :
    (feedRange process fromSeq toSeq recs w).fed = [] ↔
      ∀ rec ∈ recs, ¬InRange fromSeq toSeq rec.seq := by
  have hnone : (recs.filter fun rec => InRange fromSeq toSeq rec.seq) = [] ↔
      ∀ rec ∈ recs, ¬InRange fromSeq toSeq rec.seq := by
    simp [List.filter_eq_nil_iff]
  rw [← hnone, feedRange]
  constructor
  · intro hfed
    by_contra hsome
    obtain ⟨more, hmore, hne⟩ := @feedRecords_fed W process
      (recs.filter fun rec => InRange fromSeq toSeq rec.seq) [] w
    exact hne hsome (hmore.symm.trans hfed)
  · intro hempty
    rw [hempty]
    rfl

theorem feedRange_of_none (h : ∀ rec ∈ recs, ¬InRange fromSeq toSeq rec.seq) :
    feedRange process fromSeq toSeq recs w = ⟨.ok 0, [], w⟩ := by
  have hempty : (recs.filter fun rec => InRange fromSeq toSeq rec.seq) = [] := by
    simpa [List.filter_eq_nil_iff] using h
  rw [feedRange, hempty]
  rfl

theorem gapLoop_of_record (h : r.WindowOk) (hfiles : r.FilesAre [])
    (hparse : r.parseAll [] = (recs, none)) (hrecs : recs ≠ []) (hturns : r.turnsLeft [] < turns)
    (calls : Nat) :
    gapLoop process short turns fromSeq toSeq vars (calls + 1) r fed w =
      some ⟨.ok fed.length, fed, w⟩ := by
  obtain ⟨result, r', hcall, hnext⟩ := @omWalReplayNext_files r short [] h hfiles turns hturns
  rw [gapLoop, hcall]
  cases hnext with
  | eof _ hempty =>
    cases hparse.symm.trans hempty
    exact absurd rfl hrecs
  | error _ _ _ _ _ herr => rfl
  | record _ _ _ _ _ _ => rfl

theorem replayGapWith_of_records (hfile : replayFile short file true = some (recs, none))
    (hrecs : recs ≠ []) (hturns : file.length < turns) {calls : Nat} (hcalls : 0 < calls) :
    replayGapWith process short turns calls vars (some file) fromSeq toSeq w =
      some ⟨.ok 0, [], w⟩ := by
  obtain ⟨calls, rfl⟩ : ∃ k, calls = k + 1 := ⟨calls - 1, by omega⟩
  rw [replayFile_eq] at hfile
  exact gapLoop_of_record (omWalReplayInit_windowOk ..) rfl (Option.some.inj hfile) hrecs hturns
    calls

/-- At the end of the file the loop does not return, unless it processes something: with a number
of 0, nothing in it breaks the loop. -/
theorem gapLoop_of_end (h : r.WindowOk) (hnone : r.files = none)
    (hparse : r.parseAll [] = ([], none)) (hseq : vars.seq = 0) (hturns : r.turnsLeft [] < turns)
    (calls : Nat) {run : GapRun W}
    (hrun : gapLoop process short turns fromSeq toSeq vars calls r fed w = some run) :
    run.fed ≠ [] := by
  induction calls generalizing r fed w with
  | zero => cases hrun
  | succ calls ih =>
    have hfiles : r.FilesAre [] := by
      rw [FilesAre, hnone]
    obtain ⟨result, r', hcall, hnext⟩ := @omWalReplayNext_files r short [] h hfiles turns hturns
    rw [gapLoop, hcall] at hrun
    cases hnext with
    | eof hend hempty =>
      obtain ⟨hnone', hok', hrest'⟩ := hend hnone
      have hparse' : r'.parseAll [] = ([], none) := by
        rw [parseAll, hrest']
        exact parseWal_of_eof (if_pos rfl)
      have hturns' : r'.turnsLeft [] < turns := by
        rw [turnsLeft, hrest']
        exact Nat.lt_of_le_of_lt (Nat.zero_le _) hturns
      dsimp only at hrun
      split at hrun
      · exact ih hok' hnone' hparse' hturns' hrun
      · rw [if_neg (by omega)] at hrun
        split at hrun
        · exact ih hok' hnone' hparse' hturns' hrun
        · cases hrun
          exact List.append_ne_nil_of_right_ne_nil _ (List.cons_ne_nil _ _)
    | error _ _ _ _ _ herr => cases hparse.symm.trans herr
    | record _ _ _ _ _ hrec => cases (hparse.symm.trans hrec)

theorem feedsRange_iff (hfile : replayFile short file true = some (recs, none)) :
    FeedsRange process short file recs fromSeq toSeq w ↔
      recs ≠ [] ∧ ∀ rec ∈ recs, ¬InRange fromSeq toSeq rec.seq := by
  constructor
  · intro hfeeds
    obtain ⟨bound, hall⟩ := hfeeds ⟨0, 0, []⟩
    let turns := max bound file.length + 1
    have hturns : file.length < turns := Nat.lt_succ_of_le (Nat.le_max_right ..)
    have hrun := hall turns (bound + 1) (Nat.lt_succ_of_le (Nat.le_max_left ..))
      (Nat.lt_succ_self _)
    have hrecs : recs ≠ [] := by
      rintro rfl
      rw [replayFile_eq] at hfile
      exact gapLoop_of_end (omWalReplayInit_windowOk ..) rfl (Option.some.inj hfile) rfl hturns _
        hrun rfl
    rw [replayGapWith_of_records hfile hrecs hturns (Nat.succ_pos _)] at hrun
    have hfed := congrArg GapRun.fed (Option.some.inj hrun)
    exact ⟨hrecs, feedRange_fed_iff.mp hfed.symm⟩
  · rintro ⟨hrecs, hrange⟩ vars
    refine ⟨file.length, fun turns calls hturns hcalls => ?_⟩
    rw [feedRange_of_none hrange]
    exact replayGapWith_of_records hfile hrecs hturns (Nat.zero_lt_of_lt hcalls)

end Feed

/-- The replay helpers process the requested range exactly if the file has records, of which none
is in the range. -/
theorem replay_gap_iff (short : Nat → Nat → Nat) (file : List UInt8) (recs : List WalReplayRecord)
    (hfile : replayFile short file true = some (recs, none)) (fromSeq toSeq : Nat)
    (w : OmMarketWorker) (pw : OmMarketPublicWorker) :
    ((∀ vars, ∃ bound, ∀ turns calls, bound < turns → bound < calls →
        omBusReplayGap short turns calls vars (some file) fromSeq toSeq w =
          some (feedRange omMarketWorkerProcess fromSeq toSeq recs w)) ↔
      recs ≠ [] ∧ ∀ rec ∈ recs, ¬InRange fromSeq toSeq rec.seq) ∧
    ((∀ vars, ∃ bound, ∀ turns calls, bound < turns → bound < calls →
        omBusReplayGapPublic short turns calls vars (some file) fromSeq toSeq pw =
          some (feedRange omMarketPublicProcess fromSeq toSeq recs pw)) ↔
      recs ≠ [] ∧ ∀ rec ∈ recs, ¬InRange fromSeq toSeq rec.seq) :=
  ⟨feedsRange_iff hfile, feedsRange_iff hfile⟩

def oneByteFile : List UInt8 := walPadded (framesOf true [oneByteRecord])

theorem replayFile_oneByte (short : Nat → Nat → Nat) :
    replayFile short oneByteFile true = some ([oneByteRecord], none) := by
  have hread : ∀ rec ∈ [oneByteRecord], rec.Readable := fun rec hrec =>
    List.eq_of_mem_singleton hrec ▸ oneByteRecord_readable
  rw [replayFile_eq, oneByteFile, parseWal_walPadded hread ⟨nofun, trivial⟩ (Nat.zero_mod _)]

def idleWorker : OmMarketWorker := (omMarketWorkerInit 1 [⟨0, 0⟩] 64 fun _ _ => 0).get rfl

def idlePublicWorker : OmMarketPublicWorker := omMarketPublicWorkerInit 1 64 fun _ => false

theorem replay_gap_iff_behind_end :
    ((∀ vars, ∃ bound, ∀ turns calls, bound < turns → bound < calls →
        omBusReplayGap (fun _ n => n) turns calls vars (some oneByteFile) 2 0 idleWorker =
          some (feedRange omMarketWorkerProcess 2 0 [oneByteRecord] idleWorker)) ↔
      [oneByteRecord] ≠ [] ∧ ∀ rec ∈ [oneByteRecord], ¬InRange 2 0 rec.seq) ∧
    ((∀ vars, ∃ bound, ∀ turns calls, bound < turns → bound < calls →
        omBusReplayGapPublic (fun _ n => n) turns calls vars (some oneByteFile) 2 0
          idlePublicWorker =
          some (feedRange omMarketPublicProcess 2 0 [oneByteRecord] idlePublicWorker)) ↔
      [oneByteRecord] ≠ [] ∧ ∀ rec ∈ [oneByteRecord], ¬InRange 2 0 rec.seq) :=
  replay_gap_iff (fun _ n => n) oneByteFile [oneByteRecord] (replayFile_oneByte _) 2 0 idleWorker
    idlePublicWorker

/-- The record is in the range, and nothing is processed. -/
theorem replay_gap_skips_record :
    replayFile (fun _ n => n) oneByteFile true = some ([oneByteRecord], none) ∧
      (∀ vars turns calls, oneByteFile.length < turns → 0 < calls →
        omBusReplayGap (fun _ n => n) turns calls vars (some oneByteFile) 1 0 idleWorker =
            some ⟨.ok 0, [], idleWorker⟩ ∧
          omBusReplayGapPublic (fun _ n => n) turns calls vars (some oneByteFile) 1 0
            idlePublicWorker = some ⟨.ok 0, [], idlePublicWorker⟩) ∧
      feedRange omMarketWorkerProcess 1 0 [oneByteRecord] idleWorker =
        ⟨.ok 1, [oneByteRecord], idleWorker⟩ ∧
      feedRange omMarketPublicProcess 1 0 [oneByteRecord] idlePublicWorker =
        ⟨.ok 1, [oneByteRecord], idlePublicWorker⟩ := by
  refine ⟨replayFile_oneByte _, fun vars turns calls hturns hcalls => ?_, rfl, rfl⟩
  exact ⟨replayGapWith_of_records (replayFile_oneByte _) (List.cons_ne_nil _ _) hturns hcalls,
    replayGapWith_of_records (replayFile_oneByte _) (List.cons_ne_nil _ _) hturns hcalls⟩

end VeloxMatch
