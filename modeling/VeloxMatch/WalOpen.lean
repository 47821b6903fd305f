import VeloxMatch.WalSession

namespace VeloxMatch

open OmWalReplay Function List

section Scan

variable {config : OmWalConfig} {disk : WalDisk} {file : List UInt8} {files : List (List UInt8)}

theorem configReplay_windowOk (config : OmWalConfig) (disk : WalDisk) (file : List UInt8) :
    (configReplay config disk file).WindowOk :=
  ⟨Nat.le_refl _, Nat.le_refl _, Nat.zero_le _, rfl⟩

theorem configReplay_filesAre (hsingle : config.pattern = false → files = [])
    (hfiles : config.pattern = true →
      ∀ j, disk.files (.indexed (config.fileIndex + 1 + j)) = files[j]?) :
    (configReplay config disk file).FilesAre files := by
  unfold FilesAre
  cases hpattern : config.pattern with
  | false =>
    simp only [configReplay, hpattern]
    exact hsingle hpattern
  | true =>
    simp only [configReplay, hpattern, if_true]
    exact ⟨rfl, hfiles hpattern⟩

/-- The scan of files that are read to their end finds the last number, and the file of the last
record: behind it nothing is found. -/
theorem walScan_ok {turns calls : Nat} {r : OmWalReplay} {recs : List WalReplayRecord}
    (h : r.WindowOk) (hfiles : r.FilesAre files) (hparse : r.parseAll files = (recs, none))
    (lastSeq lastFile : Nat) (hturns : r.turnsLeft files < turns)
    (hcalls : r.turnsLeft files < calls) :
    ∃ f, walScan turns calls r lastSeq lastFile = some (.ok (lastNumber lastSeq recs, f)) ∧
      (recs = [] ∧ f = lastFile ∨ recs ≠ [] ∧ ∃ left, left <:+ files ∧
        f + left.length = r.fileIndex + files.length ∧
        ∃ crc last offset rest, parseFiles crc last offset rest left = ([], none)) := by
  induction calls generalizing r files recs lastSeq lastFile with
  | zero => exact absurd hcalls (Nat.not_lt_zero _)
  | succ calls ih =>
    obtain ⟨result, r', hcall, hnext⟩ :=
      @omWalReplayNext_files r (fun _ n => n) files h hfiles turns hturns
    rw [walScan, hcall]
    cases hnext with
    | eof _ hempty =>
      cases hparse.symm.trans hempty
      exact ⟨lastFile, rfl, .inl ⟨rfl, rfl⟩⟩
    | error _ _ _ _ _ herr => cases hparse.symm.trans herr
    | @record _ rec left hok hleft hless hsuffix hindex hrec =>
      have hparts := hparse.symm.trans hrec
      have hend : (r'.parseAll left).2 = none := (congrArg Prod.snd hparts).symm
      have hrecs : recs = rec :: (r'.parseAll left).1 := congrArg Prod.fst hparts
      obtain ⟨f, hscan, hlast⟩ := ih hok hleft (Prod.ext rfl hend) rec.seq r'.fileIndex
        (Nat.lt_trans hless hturns) (Nat.lt_of_lt_of_le hless (Nat.le_of_lt_succ hcalls))
      refine ⟨f, ?_, .inr ⟨by rw [hrecs]; nofun, ?_⟩⟩
      · rw [hrecs]
        exact hscan
      · rcases hlast with ⟨hnone, rfl⟩ | ⟨-, left', hsuffix', hindex', hrest⟩
        · exact ⟨left, hsuffix, hindex, r'.enableCrc32, r'.lastSequence, r'.position, r'.rest,
            Prod.ext hnone hend⟩
        · exact ⟨left', hsuffix'.trans hsuffix, hindex'.trans hindex, hrest⟩

end Scan

section Init

variable {env : Nat → OpOutcome} {turns calls : Nat} {config : OmWalConfig} {disk disk' : WalDisk}
  {w : OmWal}

theorem openFile_files {path : WalPath} (h : disk.openFile env path = (true, disk')) :
    disk'.files = update disk.files path (some (disk.content path)) := by
  unfold WalDisk.openFile at h
  split at h <;> cases h
  rfl

/-- What `om_wal_init` leaves if it succeeds, where no later file exists. -/
theorem opened_of_init (hinit : omWalInit env turns calls config disk = some (.ok w))
    (hlater : w.config.pattern = true → ∀ i, w.fileIndex < i → w.disk.files (.indexed i) = none) :
    Opened (w.disk.content (w.config.path w.fileIndex)) w := by
  have hcontent : ∀ {d : WalDisk} {path : WalPath} {file : List UInt8},
      d.files path = some file → d.files path = some (d.content path) := fun h => by
    rw [WalDisk.content, h, Option.getD_some]
  unfold omWalInit at hinit
  dsimp only at hinit
  split at hinit
  · cases hinit
  next disk₁ hopen =>
  split at hinit
  · cases hinit
  · cases hinit
  next lastSeq lastFile hscan =>
  split at hinit
  · cases hinit
  next hpattern =>
  split at hinit
  · cases hinit
  next disk₂ hopened =>
  cases hinit
  refine ⟨rfl, rfl, rfl, ?_, hlater, Nat.succ_pos _⟩
  dsimp only
  by_cases hlast : lastFile = config.completed.fileIndex
  · rw [if_neg (not_not.mpr hlast)] at hopened
    cases hopened
    rw [hlast]
    exact hcontent (by rw [openFile_files hopen, update_self])
  · rw [if_pos hlast] at hopened
    exact hcontent (by rw [openFile_files hopened, update_self])

def completeEnv : Nat → OpOutcome := fun _ => .complete

def freshDisk : WalDisk := ⟨fun _ => none, fun _ => 0, 0⟩

def freshWal (config : OmWalConfig) : OmWal where
  config := config.completed
  fd := some (config.path config.fileIndex)
  lastError := none
  buffer := []
  bufferSize := config.completed.bufferSize
  sequence := 1
  fileOffset := 0
  fileIndex := config.fileIndex
  slabSet := false
  disk := (freshDisk.openFile completeEnv (config.path config.fileIndex)).2

theorem omWalInit_fresh (config : OmWalConfig) (hturns : 0 < turns) (hcalls : 0 < calls) :
    omWalInit completeEnv turns calls config freshDisk = some (.ok (freshWal config)) := by
  let disk := (freshDisk.openFile completeEnv (config.path config.fileIndex)).2
  have hempty : disk.files (config.path config.fileIndex) = some [] := update_self ..
  have hcontent : disk.content (config.path config.fileIndex) = [] := by
    rw [WalDisk.content, hempty]
    rfl
  have hscan : config.pattern = true →
      walScanForLastSequence turns calls config.completed disk =
        some (.ok (0, config.fileIndex)) := by
    intro hpattern
    have hfiles : (configReplay config.completed disk []).FilesAre [] := by
      refine configReplay_filesAre (fun hno => rfl) fun _ j => ?_
      refine update_of_ne ?_ ..
      rw [path_pattern hpattern]
      intro he
      have hindex : config.fileIndex + 1 + j = config.fileIndex := WalPath.indexed.inj he
      omega
    obtain ⟨f, hscan, hlast⟩ := walScan_ok (configReplay_windowOk ..) hfiles
      (parseWal_of_eof (if_pos rfl)) 0 config.fileIndex hturns hcalls
    rcases hlast with ⟨-, rfl⟩ | ⟨hne, -⟩
    · rw [walScanForLastSequence, omWalReplayInitWithConfig]
      rw [show disk.files (config.completed.path config.completed.fileIndex) = some [] from hempty]
      exact hscan
    · exact absurd rfl hne
  have hopen : freshDisk.openFile completeEnv
      (config.completed.path config.completed.fileIndex) = (true, disk) := rfl
  have hfound : (if disk.content (config.completed.path config.completed.fileIndex) ≠ [] ∨
      config.completed.pattern = true then
        walScanForLastSequence turns calls config.completed disk
      else some (.ok (0, config.completed.fileIndex))) = some (.ok (0, config.fileIndex)) := by
    cases hpattern : config.pattern with
    | true =>
      rw [if_pos (.inr hpattern)]
      exact hscan hpattern
    | false =>
      rw [if_neg]
      · rfl
      · rintro (hne | hp)
        · exact hne hcontent
        · exact Bool.false_ne_true (hpattern.symm.trans hp)
  unfold omWalInit
  dsimp only
  rw [hopen]
  dsimp only
  rw [hfound]
  dsimp only
  rw [if_neg (fun h => h.1 rfl), if_neg (fun h => h rfl)]
  dsimp only
  rw [show disk.content (config.completed.path config.fileIndex) = [] from hcontent]
  rfl

end Init

/-- Replaying the log on a disk from its first file gives `out`, with enough turns and calls. -/
def Replays (short : Nat → Nat → Nat) (config : OmWalConfig) (disk : WalDisk)
    (out : List WalReplayRecord × Option OmError) : Prop :=
  ∃ r, omWalReplayInitWithConfig config disk = .ok r ∧
    ∃ bound, ∀ turns calls, bound < turns → bound < calls →
      replayAll short noHandler turns calls r = some out

def WalGhost.contents (crc : Bool) (g : WalGhost) : List (List UInt8) :=
  g.past.map (fileOf crc) ++ [fileOf crc g.cur ++ g.torn]

section Replays

variable {short : Nat → Nat → Nat} {config : OmWalConfig} {disk : WalDisk} {file : List UInt8}
  {files : List (List UInt8)} {out : List WalReplayRecord × Option OmError}

theorem replays_iff (hfile : disk.files (config.path config.fileIndex) = some file)
    (hfiles : (configReplay config disk file).FilesAre files) :
    Replays short config disk out ↔ parseFiles (!config.disableCrc32) 0 0 file files = out := by
  have hinit : omWalReplayInitWithConfig config disk = .ok (configReplay config disk file) := by
    rw [omWalReplayInitWithConfig, hfile]
  have hall := fun turns calls => @replayAll_files short (configReplay config disk file) files
    turns calls (configReplay_windowOk ..) hfiles
  constructor
  · rintro ⟨r, hr, bound, hbound⟩
    cases hinit.symm.trans hr
    let n := bound + (configReplay config disk file).turnsLeft files + 1
    have hout := hbound n n (by omega) (by omega)
    rw [hall n n (by omega) (by omega)] at hout
    exact Option.some.inj hout
  · rintro rfl
    exact ⟨_, hinit, _, hall⟩

structure FilesOn (config : OmWalConfig) (disk : WalDisk) (contents : List (List UInt8)) : Prop where
  files : ∀ (j : Nat) file, contents[j]? = some file →
    disk.files (config.path (config.fileIndex + j)) = some file
  later : config.pattern = true → ∀ j, contents.length ≤ j →
    disk.files (.indexed (config.fileIndex + j)) = none
  single : config.pattern = false → contents.length = 1

theorem FilesOn.replays_iff (h : FilesOn config disk (file :: files)) :
    Replays short config disk out ↔ parseFiles (!config.disableCrc32) 0 0 file files = out := by
  refine VeloxMatch.replays_iff (h.files 0 file rfl) (configReplay_filesAre ?_ ?_)
  · intro hsingle
    exact length_eq_zero_iff.mp (Nat.succ.inj (h.single hsingle))
  · intro hpattern j
    rw [Nat.add_assoc, Nat.add_comm 1]
    by_cases hj : j < files.length
    · rw [getElem?_eq_getElem hj, ← h.files (j + 1) files[j]
        (by rw [getElem?_cons_succ, getElem?_eq_getElem hj]), path_pattern hpattern]
    · rw [getElem?_eq_none (by omega)]
      exact h.later hpattern (j + 1) (by rw [length_cons]; omega)

theorem LogInv.filesOn {w : OmWal} {g : WalGhost} (h : LogInv [] config.fileIndex w g)
    (hpattern : w.config.pattern = config.pattern) (hdisk : disk.files = w.disk.files) :
    FilesOn config disk (g.contents w.config.enableCrc32) := by
  have hpath : ∀ i, config.path i = w.config.path i := by
    intro i
    unfold OmWalConfig.path
    rw [hpattern]
  have hbase : ∀ j, baseAt [] j = [] := fun j => by cases j <;> rfl
  refine ⟨fun j file hj => ?_, fun hp j hj => ?_, fun hp => ?_⟩
  · rw [hdisk, hpath]
    unfold WalGhost.contents at hj
    by_cases hlt : j < g.past.length
    · rw [getElem?_append_left (by rw [length_map]; exact hlt), getElem?_map,
        getElem?_eq_getElem hlt] at hj
      rw [h.past j g.past[j] (getElem?_eq_getElem hlt), hbase]
      exact hj
    · rw [getElem?_append_right (by rw [length_map]; omega), length_map] at hj
      have hzero := (List.getElem?_eq_some_iff.mp hj).1
      rw [length_singleton] at hzero
      obtain rfl : j = g.past.length := by omega
      rw [Nat.sub_self] at hj
      rw [h.cur, hbase]
      exact hj
  · rw [hdisk]
    unfold WalGhost.contents at hj
    rw [length_append, length_map, length_singleton] at hj
    exact h.later (hpattern.trans hp) _ (by omega)
  · rw [WalGhost.contents, h.single (hpattern.trans hp)]
    rfl

end Replays

end VeloxMatch
