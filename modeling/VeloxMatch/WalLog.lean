import VeloxMatch.WalFrames

namespace VeloxMatch

open WalDisk Function

namespace OmWal

/-- The log `w'` is `w` with `bytes` added to the file `i`: the open one, or the next one after
the open one was synced. -/
structure WroteTo (w w' : OmWal) (i : Nat) (bytes : List UInt8) : Prop where
  target : i = w.fileIndex ∨ i = w.fileIndex + 1 ∧ w.config.pattern = true
  files : w'.disk.files = update w.disk.files (w.config.path i)
    (some (w.disk.content (w.config.path i) ++ bytes))
  synced : w'.disk.synced = if i = w.fileIndex then w.disk.synced
    else update w.disk.synced (w.config.path w.fileIndex)
      (w.disk.content (w.config.path w.fileIndex)).length
  fileIndex : w'.fileIndex = i
  fd : w'.fd = some (w.config.path i)

structure SameSettings (w w' : OmWal) : Prop where
  config : w'.config = w.config
  bufferSize : w'.bufferSize = w.bufferSize
  sequence : w'.sequence = w.sequence
  slabSet : w'.slabSet = w.slabSet

/-- What a flush of a buffer that is not empty can do to a log without an error. -/
inductive FlushDone (w : OmWal) : Option OmError × OmWal → Prop where
  | wrote {w' : OmWal} {i : Nat} (hto : WroteTo w w' i (walPadded w.buffer))
      (hsame : SameSettings w w') (herr : w'.lastError = none) (hbuffer : w'.buffer = []) :
      FlushDone w (none, w')
  | torn {w' : OmWal} {i n : Nat} {err : OmError} (hn : n < (walPadded w.buffer).length)
      (hto : WroteTo w w' i ((walPadded w.buffer).take n)) (hsame : SameSettings w w')
      (herr : w'.lastError = some err) (hbuffer : w'.buffer = w.buffer) :
      FlushDone w (some err, w')
  | stopped {w' : OmWal} {err : OmError} (hfiles : w'.disk.files = w.disk.files)
      (hsame : SameSettings w w') (herr : w'.lastError = some err)
      (hbuffer : w'.buffer = w.buffer) : FlushDone w (some err, w')

section Flush

variable {env : Nat → OpOutcome} {w w' w'' : OmWal} {i : Nat}

inductive Rotated (w : OmWal) : Option OmError × OmWal → Prop where
  | stay : Rotated w (none, w)
  | next {w' : OmWal} (hto : WroteTo w w' (w.fileIndex + 1) []) (hsame : SameSettings w w')
      (herr : w'.lastError = w.lastError) (hbuffer : w'.buffer = w.buffer) : Rotated w (none, w')
  | stopped {w' : OmWal} {err : OmError} (hfiles : w'.disk.files = w.disk.files)
      (hsame : SameSettings w w') (herr : w'.lastError = some err)
      (hbuffer : w'.buffer = w.buffer) : Rotated w (some err, w')

theorem rotate_cases (hfd : w.fd = some (w.config.path w.fileIndex)) (size : Nat) :
    Rotated w (w.rotate env size) := by
  unfold rotate
  split
  · next hrotate =>
    rw [hfd]
    unfold fsync
    cases henv : env w.disk.ops with
    | complete =>
      dsimp only
      unfold openFile
      dsimp only
      cases henv' : env (w.disk.ops + 1) with
      | complete =>
        refine .next ⟨.inr ⟨rfl, hrotate.1⟩, ?_, ?_, rfl, rfl⟩ ⟨rfl, rfl, rfl, rfl⟩ rfl rfl
        · rw [List.append_nil]
          rfl
        · rw [if_neg (Nat.succ_ne_self _)]
      | short n => exact .stopped rfl ⟨rfl, rfl, rfl, rfl⟩ rfl rfl
      | failed => exact .stopped rfl ⟨rfl, rfl, rfl, rfl⟩ rfl rfl
    | short n => exact .stopped rfl ⟨rfl, rfl, rfl, rfl⟩ rfl rfl
    | failed => exact .stopped rfl ⟨rfl, rfl, rfl, rfl⟩ rfl rfl
  · exact .stay

theorem WroteTo.nil (hfd : w.fd = some (w.config.path w.fileIndex))
    (hfiles : w.disk.files (w.config.path w.fileIndex) ≠ none) : WroteTo w w w.fileIndex [] where
  target := .inl rfl
  files := by
    obtain ⟨file, hfile⟩ := Option.ne_none_iff_exists'.mp hfiles
    rw [List.append_nil, content, hfile, Option.getD_some, ← hfile,
      update_eq_self]
  synced := by rw [if_pos rfl]
  fileIndex := rfl
  fd := hfd

theorem WroteTo.write {bytes : List UInt8} (h : WroteTo w w' i [])
    (hfiles : w''.disk.files = update w'.disk.files (w.config.path i)
      (some (w'.disk.content (w.config.path i) ++ bytes)))
    (hsynced : w''.disk.synced = w'.disk.synced) (hindex : w''.fileIndex = w'.fileIndex)
    (hfd : w''.fd = w'.fd) : WroteTo w w'' i bytes where
  target := h.target
  files := by
    rw [hfiles, content, h.files, update_idem, update_self,
      Option.getD_some, List.append_nil]
  synced := hsynced.trans h.synced
  fileIndex := hindex.trans h.fileIndex
  fd := hfd.trans h.fd

theorem SameSettings.trans (h : SameSettings w w') (h' : SameSettings w' w'') :
    SameSettings w w'' :=
  ⟨h'.config.trans h.config, h'.bufferSize.trans h.bufferSize, h'.sequence.trans h.sequence,
    h'.slabSet.trans h.slabSet⟩

theorem flushDone_of_wroteTo (hto : WroteTo w w' i []) (hsame : SameSettings w w')
    (herr : w'.lastError = none) (hbuffer : w'.buffer = w.buffer) (hne : w.buffer ≠ []) :
    FlushDone w
      (match w'.disk.write env w'.fd (walPadded w.buffer) with
      | (false, disk) => (some .walWrite, { w' with lastError := some .walWrite, disk := disk })
      | (true, disk) =>
        (none,
          { w' with
            buffer := []
            fileOffset := w'.fileOffset + (walPadded w.buffer).length
            disk := disk })) := by
  have hpos : 0 < (walPadded w.buffer).length := by
    rw [walPadded, List.length_append]
    have := List.length_pos_iff.mpr hne
    omega
  have hsame' : ∀ w'' : OmWal, w''.config = w'.config → w''.bufferSize = w'.bufferSize →
      w''.sequence = w'.sequence → w''.slabSet = w'.slabSet → SameSettings w w'' :=
    fun w'' h1 h2 h3 h4 => hsame.trans ⟨h1, h2, h3, h4⟩
  unfold write
  rw [hto.fd]
  cases henv : env w'.disk.ops with
  | complete =>
    refine .wrote (hto.write ?_ rfl rfl hto.fd.symm) (hsame' _ rfl rfl rfl rfl) herr
      rfl
    dsimp only
    rw [List.take_length]
  | short n =>
    exact .torn (Nat.lt_of_le_of_lt (Nat.min_le_right ..) (Nat.sub_lt hpos Nat.one_pos))
      (hto.write rfl rfl rfl hto.fd.symm) (hsame' _ rfl rfl rfl rfl) rfl hbuffer
  | failed =>
    exact .torn hpos (hto.write rfl rfl rfl hto.fd.symm)
      (hsame' _ rfl rfl rfl rfl) rfl hbuffer

theorem omWalFlush_cases (herr : w.lastError = none) (hfd : w.fd = some (w.config.path w.fileIndex))
    (hfiles : w.disk.files (w.config.path w.fileIndex) ≠ none) (hne : w.buffer ≠ []) :
    FlushDone w (w.omWalFlush env) := by
  unfold omWalFlush
  rw [herr]
  dsimp only
  rw [if_neg hne]
  have hrotate := @rotate_cases env w hfd (walPadded w.buffer).length
  generalize w.rotate env (walPadded w.buffer).length = out at hrotate
  cases hrotate with
  | stay => exact flushDone_of_wroteTo (.nil hfd hfiles) ⟨rfl, rfl, rfl, rfl⟩ herr rfl hne
  | next hto hsame herr' hbuffer =>
    exact flushDone_of_wroteTo hto hsame (herr'.trans herr) hbuffer hne
  | stopped hfiles' hsame herr' hbuffer => exact .stopped hfiles' hsame herr' hbuffer

theorem omWalFlush_of_error {err : OmError} (h : w.lastError = some err) :
    w.omWalFlush env = (some err, w) := by
  rw [omWalFlush, h]

theorem omWalFlush_of_empty (herr : w.lastError = none) (h : w.buffer = []) :
    w.omWalFlush env = (none, w) := by
  rw [omWalFlush, herr]
  dsimp only
  rw [if_pos h]

theorem omWalFlush_complete (henv : ∀ k, env k = .complete) (herr : w.lastError = none)
    (hfd : w.fd = some (w.config.path w.fileIndex)) : (w.omWalFlush env).1 = none := by
  have hrotate : ∀ size, ∃ w' path, w.rotate env size = (none, w') ∧ w'.fd = some path := by
    intro size
    unfold rotate
    split
    · rw [hfd]
      unfold fsync openFile
      rw [henv]
      dsimp only
      rw [henv]
      exact ⟨_, _, rfl, rfl⟩
    · exact ⟨_, _, rfl, hfd⟩
  unfold omWalFlush
  rw [herr]
  dsimp only
  split
  · rfl
  · obtain ⟨w', path, hrot, hfd'⟩ := hrotate (walPadded w.buffer).length
    rw [hrot]
    dsimp only
    unfold write
    rw [hfd', henv]

theorem omWalClose_files (env : Nat → OpOutcome) (w : OmWal) :
    (w.omWalClose env).files = (w.omWalFlush env).2.disk.files := by
  unfold omWalClose fsync
  dsimp only
  split
  · split <;> rfl
  · rfl

end Flush

end OmWal

open OmWal List

/-- The bytes of a file that was written in flushes of these records. -/
def fileOf (crc : Bool) (groups : List (List WalReplayRecord)) : List UInt8 :=
  groups.flatMap fun group => walPadded (framesOf crc group)

theorem fileOf_append (crc : Bool) (groups groups' : List (List WalReplayRecord)) :
    fileOf crc (groups ++ groups') = fileOf crc groups ++ fileOf crc groups' :=
  flatMap_append

theorem fileOf_singleton (crc : Bool) (group : List WalReplayRecord) :
    fileOf crc [group] = walPadded (framesOf crc group) := flatMap_singleton ..

/-- Where the acknowledged records of a log are: in flushes to earlier files and to the last one,
and in the buffer. `torn` are the bytes of a write that failed. -/
structure WalGhost where
  past : List (List (List WalReplayRecord))
  cur : List (List WalReplayRecord)
  pending : List WalReplayRecord
  torn : List UInt8

namespace WalGhost

variable (g : WalGhost)

def records : List WalReplayRecord :=
  g.past.flatten.flatten ++ g.cur.flatten ++ g.pending

def groups : List (List WalReplayRecord) := g.past.flatten ++ g.cur

def flushHere : WalGhost := { g with cur := g.cur ++ [g.pending], pending := [] }

def flushNext : WalGhost :=
  { g with past := g.past ++ [g.cur], cur := [g.pending], pending := [] }

def tearHere (bytes : List UInt8) : WalGhost := { g with torn := bytes }

def tearNext (bytes : List UInt8) : WalGhost :=
  { g with past := g.past ++ [g.cur], cur := [], torn := bytes }

def push (rec : WalReplayRecord) : WalGhost :=
  { g with pending := g.pending ++ [rec] }

variable (g : WalGhost)

@[simp] theorem records_flushHere : g.flushHere.records = g.records := by
  simp [records, flushHere]

@[simp] theorem records_flushNext : g.flushNext.records = g.records := by
  simp [records, flushNext]

@[simp] theorem records_tearNext (bytes : List UInt8) : (g.tearNext bytes).records = g.records := by
  simp [records, tearNext]

@[simp] theorem records_push (rec : WalReplayRecord) :
    (g.push rec).records = g.records ++ [rec] := by
  simp [records, push]

end WalGhost

def baseAt (base : List UInt8) : Nat → List UInt8
  | 0 => base
  | _ + 1 => []

/-- The files `start`, `start + 1`, … and the buffer hold the records as the ghost tells, the
first file behind the bytes `base`. -/
structure LogInv (base : List UInt8) (start : Nat) (w : OmWal) (g : WalGhost) : Prop where
  buffer : w.buffer = framesOf w.config.enableCrc32 g.pending
  past : ∀ j groups, g.past[j]? = some groups →
    w.disk.files (w.config.path (start + j)) =
      some (baseAt base j ++ fileOf w.config.enableCrc32 groups)
  cur : w.disk.files (w.config.path (start + g.past.length)) =
    some (baseAt base g.past.length ++ (fileOf w.config.enableCrc32 g.cur ++ g.torn))
  later : w.config.pattern = true → ∀ i, start + g.past.length < i →
    w.disk.files (.indexed i) = none
  single : w.config.pattern = false → g.past = []
  fd : w.lastError = none → w.fd = some (w.config.path w.fileIndex)
  fileIndex : w.lastError = none → w.fileIndex = start + g.past.length
  torn : w.lastError = none → g.torn = []
  tornOf : g.torn <+: walPadded w.buffer
  synced : w.lastError = none → ∀ j groups, g.past[j]? = some groups →
    w.disk.synced (w.config.path (start + j)) =
      (baseAt base j ++ fileOf w.config.enableCrc32 groups).length

section Paths

variable {config : OmWalConfig} {i j : Nat}

theorem path_ne (h : config.pattern = true) (hij : i ≠ j) : config.path i ≠ config.path j := by
  unfold OmWalConfig.path
  rw [if_pos h, if_pos h]
  exact fun he => hij (WalPath.indexed.inj he)

theorem path_pattern (h : config.pattern = true) (i : Nat) : config.path i = .indexed i :=
  if_pos h

end Paths

section Step

variable {base : List UInt8} {start i : Nat} {w w' : OmWal} {g g' : WalGhost} {bytes : List UInt8}
  {err : OmError}

theorem LogInv.content_cur (h : LogInv base start w g) (herr : w.lastError = none) :
    w.disk.content (w.config.path w.fileIndex) =
      baseAt base g.past.length ++ fileOf w.config.enableCrc32 g.cur := by
  rw [WalDisk.content, h.fileIndex herr, h.cur, h.torn herr, append_nil, Option.getD_some]

theorem LogInv.content_next (h : LogInv base start w g) (herr : w.lastError = none)
    (hpattern : w.config.pattern = true) :
    w.disk.content (w.config.path (w.fileIndex + 1)) = [] := by
  rw [WalDisk.content, path_pattern hpattern, h.later hpattern _ (by rw [h.fileIndex herr]; omega)]
  rfl

section Wrote

variable (h : LogInv base start w g) (herr : w.lastError = none) (hsame : SameSettings w w')
  (hbuffer : w'.buffer = framesOf w.config.enableCrc32 g'.pending)
  (htorn : w'.lastError = none → g'.torn = []) (htornOf : g'.torn <+: walPadded w'.buffer)

include h herr hsame hbuffer htorn htornOf

theorem LogInv.wroteHere (hto : WroteTo w w' w.fileIndex bytes) (hpast : g'.past = g.past)
    (hcur : fileOf w.config.enableCrc32 g'.cur ++ g'.torn =
      fileOf w.config.enableCrc32 g.cur ++ bytes) : LogInv base start w' g' := by
  have hindex := h.fileIndex herr
  have hfiles := hto.files
  rw [h.content_cur herr] at hfiles
  have hother : ∀ i, w.config.pattern = true → i ≠ w.fileIndex →
      w'.disk.files (w.config.path i) = w.disk.files (w.config.path i) := by
    intro i hpattern hi
    rw [hfiles, update_of_ne (path_ne hpattern hi)]
  have hpattern : ∀ (j : Nat) groups, g.past[j]? = some groups → w.config.pattern = true := by
    intro j groups hj
    by_contra hsingle
    rw [h.single (by simpa using hsingle)] at hj
    simp at hj
  refine
    { buffer := by rw [hsame.config, hbuffer]
      past := fun j groups hj => ?_
      cur := ?_
      later := fun hp i hi => ?_
      single := fun hp => by rw [hpast]; exact h.single (by rw [← hsame.config]; exact hp)
      fd := fun _ => by rw [hto.fd, hsame.config, hto.fileIndex]
      fileIndex := fun _ => by rw [hto.fileIndex, hpast, hindex]
      torn := htorn
      tornOf := htornOf
      synced := fun _ j groups hj => ?_ }
  · rw [hpast] at hj
    have hlt := (List.getElem?_eq_some_iff.mp hj).1
    rw [hsame.config, hother _ (hpattern j groups hj) (by omega)]
    exact h.past j groups hj
  · rw [hsame.config, hpast, ← hindex, hfiles, update_self, hcur, append_assoc]
  · rw [hsame.config] at hp
    rw [hpast] at hi
    rw [← path_pattern hp, hother i hp (by omega), path_pattern hp]
    exact h.later hp i hi
  · rw [hpast] at hj
    rw [hsame.config, hto.synced, if_pos rfl]
    exact h.synced herr j groups hj

theorem LogInv.wroteNext (hpattern : w.config.pattern = true)
    (hto : WroteTo w w' (w.fileIndex + 1) bytes) (hpast : g'.past = g.past ++ [g.cur])
    (hcur : fileOf w.config.enableCrc32 g'.cur ++ g'.torn = bytes) : LogInv base start w' g' := by
  have hindex := h.fileIndex herr
  have hfiles := hto.files
  rw [h.content_next herr hpattern, nil_append] at hfiles
  have hother : ∀ i, i ≠ w.fileIndex + 1 →
      w'.disk.files (w.config.path i) = w.disk.files (w.config.path i) := by
    intro i hi
    rw [hfiles, update_of_ne (path_ne hpattern hi)]
  have hlen : g'.past.length = g.past.length + 1 := by rw [hpast, length_append]; rfl
  have hcases : ∀ (j : Nat) groups, g'.past[j]? = some groups →
      g.past[j]? = some groups ∨ j = g.past.length ∧ groups = g.cur := by
    intro j groups hj
    rw [hpast] at hj
    by_cases hlt : j < g.past.length
    · rw [getElem?_append_left hlt] at hj
      exact .inl hj
    · rw [getElem?_append_right (by omega)] at hj
      obtain ⟨hzero, rfl⟩ := List.getElem?_eq_some_iff.mp hj
      simp only [length_singleton] at hzero
      refine .inr ⟨by omega, ?_⟩
      simp
  refine
    { buffer := by rw [hsame.config, hbuffer]
      past := fun j groups hj => ?_
      cur := ?_
      later := fun hp i hi => ?_
      single := fun hp => by rw [hsame.config, hpattern] at hp; cases hp
      fd := fun _ => by rw [hto.fd, hsame.config, hto.fileIndex]
      fileIndex := fun _ => by rw [hto.fileIndex, hlen, hindex]; omega
      torn := htorn
      tornOf := htornOf
      synced := fun _ j groups hj => ?_ }
  · rw [hsame.config]
    rcases hcases j groups hj with hj | ⟨rfl, rfl⟩
    · have hlt := (List.getElem?_eq_some_iff.mp hj).1
      rw [hother _ (by omega)]
      exact h.past j groups hj
    · rw [hother _ (by omega), h.cur, h.torn herr, append_nil]
  · rw [hsame.config, hlen, show start + (g.past.length + 1) = w.fileIndex + 1 by omega, hfiles,
      update_self, hcur]
    rfl
  · rw [hlen] at hi
    rw [← path_pattern hpattern, hother i (by omega), path_pattern hpattern]
    exact h.later hpattern i (by omega)
  · rw [hsame.config, hto.synced, if_neg (Nat.succ_ne_self _)]
    rcases hcases j groups hj with hj | ⟨rfl, rfl⟩
    · have hlt := (List.getElem?_eq_some_iff.mp hj).1
      rw [update_of_ne (path_ne hpattern (by omega))]
      exact h.synced herr j groups hj
    · rw [hindex, update_self, ← hindex, h.content_cur herr]

end Wrote

theorem framesOf_ne_nil {crc : Bool} {recs : List WalReplayRecord} (h : recs ≠ []) :
    framesOf crc recs ≠ [] := by
  obtain ⟨rec, more, rfl⟩ := exists_cons_of_ne_nil h
  refine ne_nil_of_length_pos ?_
  rw [framesOf, flatMap_cons, length_append, frame_length]
  unfold recordSize walHeaderSize
  omega

/-- The ghost after a flush that succeeded. -/
inductive Emptied (g : WalGhost) : WalGhost → Prop where
  | here : Emptied g g.flushHere
  | next : Emptied g g.flushNext
  | same (h : g.pending = []) : Emptied g g

theorem Emptied.records (h : Emptied g g') : g'.records = g.records := by
  cases h with
  | here => exact g.records_flushHere
  | next => exact g.records_flushNext
  | same => rfl

theorem Emptied.pending (h : Emptied g g') : g'.pending = [] := by
  cases h with
  | here => rfl
  | next => rfl
  | same h => exact h

/-- The ghost after a flush that failed. -/
structure Stuck (g g' : WalGhost) : Prop where
  records : g'.records = g.records
  pending : g'.pending = g.pending

theorem LogInv.wrote (h : LogInv base start w g) (herr : w.lastError = none)
    (hto : WroteTo w w' i (walPadded w.buffer)) (hsame : SameSettings w w')
    (hbuffer : w'.buffer = []) : ∃ g', LogInv base start w' g' ∧ Emptied g g' := by
  have htorn := h.torn herr
  have hblock : walPadded w.buffer = fileOf w.config.enableCrc32 [g.pending] := by
    rw [fileOf_singleton, h.buffer]
  rcases hto.target with rfl | ⟨rfl, hpattern⟩
  · refine ⟨g.flushHere, h.wroteHere herr hsame hbuffer (fun _ => htorn) ?_ hto rfl ?_, .here⟩
    · rw [WalGhost.flushHere, htorn]
      exact nil_prefix
    · rw [hblock, WalGhost.flushHere, htorn, append_nil]
      exact fileOf_append ..
  · refine ⟨g.flushNext, h.wroteNext herr hsame hbuffer (fun _ => htorn) ?_ hpattern hto rfl ?_,
      .next⟩
    · rw [WalGhost.flushNext, htorn]
      exact nil_prefix
    · rw [hblock, WalGhost.flushNext, htorn, append_nil]

theorem LogInv.tore {n : Nat} (h : LogInv base start w g) (herr : w.lastError = none)
    (hto : WroteTo w w' i ((walPadded w.buffer).take n)) (hsame : SameSettings w w')
    (herr' : w'.lastError = some err)
    (hbuffer : w'.buffer = w.buffer) : ∃ g', LogInv base start w' g' ∧ Stuck g g' := by
  have htorn := h.torn herr
  have hframes := hbuffer.trans h.buffer
  have hno : ∀ bytes : List UInt8, w'.lastError = none → bytes = [] := by
    intro _ hnone
    rw [herr'] at hnone
    cases hnone
  have hpre : (walPadded w.buffer).take n <+: walPadded w'.buffer := by
    rw [hbuffer]
    exact take_prefix ..
  rcases hto.target with rfl | ⟨rfl, hpattern⟩
  · exact ⟨g.tearHere ((walPadded w.buffer).take n),
      h.wroteHere herr hsame hframes (hno _) hpre hto rfl rfl, rfl, rfl⟩
  · exact ⟨g.tearNext ((walPadded w.buffer).take n),
      h.wroteNext herr hsame hframes (hno _) hpre hpattern hto rfl rfl,
      g.records_tearNext _, rfl⟩

theorem LogInv.stop (h : LogInv base start w g) (hfiles : w'.disk.files = w.disk.files)
    (hconfig : w'.config = w.config) (herr' : w'.lastError = some err)
    (hbuffer : w'.buffer = w.buffer) : LogInv base start w' g := by
  have hno : ∀ {P : Prop}, w'.lastError = none → P := by
    intro _ hnone
    rw [herr'] at hnone
    cases hnone
  refine ⟨?_, ?_, ?_, ?_, ?_, hno, hno, hno, ?_, hno⟩
  · rw [hbuffer, hconfig]
    exact h.buffer
  · rw [hfiles, hconfig]
    exact h.past
  · rw [hfiles, hconfig]
    exact h.cur
  · rw [hfiles, hconfig]
    exact h.later
  · rw [hconfig]
    exact h.single
  · rw [hbuffer]
    exact h.tornOf

inductive LogFlushed (base : List UInt8) (start : Nat) (w : OmWal) (g : WalGhost) :
    Option OmError × OmWal → WalGhost → Prop where
  | done {w' : OmWal} {g' : WalGhost} (hinv : LogInv base start w' g') (hsame : SameSettings w w')
      (herr : w.lastError = none) (herr' : w'.lastError = none) (hghost : Emptied g g') :
      LogFlushed base start w g (none, w') g'
  | failed {w' : OmWal} {g' : WalGhost} {err : OmError} (hinv : LogInv base start w' g')
      (hsame : SameSettings w w') (herr' : w'.lastError = some err) (hghost : Stuck g g') :
      LogFlushed base start w g (some err, w') g'

theorem LogInv.flush (h : LogInv base start w g) (env : Nat → OpOutcome) :
    ∃ g', LogFlushed base start w g (w.omWalFlush env) g' := by
  cases herr : w.lastError with
  | some err =>
    rw [omWalFlush_of_error herr]
    exact ⟨g, .failed h ⟨rfl, rfl, rfl, rfl⟩ herr ⟨rfl, rfl⟩⟩
  | none =>
    by_cases hempty : w.buffer = []
    · rw [omWalFlush_of_empty herr hempty]
      have hpending : g.pending = [] := by
        by_contra hne
        exact framesOf_ne_nil hne (h.buffer.symm.trans hempty)
      exact ⟨g, .done h ⟨rfl, rfl, rfl, rfl⟩ herr herr (.same hpending)⟩
    · have hfiles : w.disk.files (w.config.path w.fileIndex) ≠ none := by
        rw [h.fileIndex herr, h.cur]
        exact Option.some_ne_none _
      have hcases := @omWalFlush_cases env w herr (h.fd herr) hfiles hempty
      generalize w.omWalFlush env = out at hcases
      cases hcases with
      | wrote hto hsame herr' hbuffer =>
        obtain ⟨g', hinv, hghost⟩ := h.wrote herr hto hsame hbuffer
        exact ⟨g', .done hinv hsame herr herr' hghost⟩
      | torn hn hto hsame herr' hbuffer =>
        obtain ⟨g', hinv, hghost⟩ := h.tore herr hto hsame herr' hbuffer
        exact ⟨g', .failed hinv hsame herr' hghost⟩
      | stopped hfiles' hsame herr' hbuffer =>
        exact ⟨g, .failed (h.stop hfiles' hsame.config herr' hbuffer) hsame herr' ⟨rfl, rfl⟩⟩

theorem LogInv.push (h : LogInv base start w g) (herr : w.lastError = none) {type seq : Nat}
    {data : List UInt8} (hconfig : w'.config = w.config) (hdisk : w'.disk = w.disk)
    (hfd : w'.fd = w.fd) (hindex : w'.fileIndex = w.fileIndex)
    (hbuffer : w'.buffer = w.buffer ++ walFrame w.config.enableCrc32 seq type data) :
    LogInv base start w' (g.push ⟨type, seq, data⟩) := by
  refine ⟨?_, ?_, ?_, ?_, ?_, ?_, ?_, fun _ => h.torn herr, ?_, ?_⟩
  · rw [hbuffer, h.buffer, hconfig, WalGhost.push, framesOf_append]
    simp [framesOf, WalReplayRecord.frame]
  · rw [hdisk, hconfig]
    exact h.past
  · rw [hdisk, hconfig]
    exact h.cur
  · rw [hdisk, hconfig]
    exact h.later
  · rw [hconfig]
    exact h.single
  · rw [hfd, hconfig, hindex]
    exact fun _ => h.fd herr
  · rw [hindex]
    exact fun _ => h.fileIndex herr
  · rw [WalGhost.push, h.torn herr]
    exact nil_prefix
  · rw [hdisk, hconfig]
    exact fun _ => h.synced herr

inductive LogAppended (env : Nat → OpOutcome) (base : List UInt8) (start : Nat) (w : OmWal)
    (g : WalGhost) (type : Nat) (data : List UInt8) : Nat × OmWal → WalGhost → Prop where
  | acked {w' : OmWal} {g' : WalGhost}
      (hinv : LogInv base start w' (g'.push ⟨type, w.sequence, data⟩))
      (herr : w.lastError = none) (herr' : w'.lastError = none) (hfits : ¬w.Refuses data.length)
      (hghost : g' = g ∨ Emptied g g' ∧ w.bufferSize < w.buffer.length +
        (walHeaderSize + data.length + walCrcSize w.config.enableCrc32))
      (hconfig : w'.config = w.config) (hsize : w'.bufferSize = w.bufferSize)
      (hslab : w'.slabSet = w.slabSet) (hseq : w'.sequence = w.sequence + 1) :
      LogAppended env base start w g type data (w.sequence, w') (g'.push ⟨type, w.sequence, data⟩)
  | refused {w' : OmWal} {err : OmError} (hinv : LogInv base start w' g) (hsame : SameSettings w w')
      (herr' : w'.lastError = some err)
      (hwhy : w.lastError = some err ∨ w.Refuses data.length) :
      LogAppended env base start w g type data (0, w') g
  | failed {w' : OmWal} {g' : WalGhost} {err : OmError} (hinv : LogInv base start w' g')
      (hsame : SameSettings w w') (herr : w.lastError = none) (herr' : w'.lastError = some err)
      (hghost : Stuck g g') (hwhy : (w.omWalFlush env).1 = some err) :
      LogAppended env base start w g type data (0, w') g'

theorem LogInv.append (h : LogInv base start w g) (env : Nat → OpOutcome) (type : Nat)
    (data : List UInt8) :
    ∃ g', LogAppended env base start w g type data (w.walAppend env type data) g' := by
  unfold walAppend
  cases herr : w.lastError with
  | some err => exact ⟨g, .refused h ⟨rfl, rfl, rfl, rfl⟩ herr (.inl herr)⟩
  | none =>
    dsimp only
    split
    · next hrefuse =>
      exact ⟨g, .refused (h.stop rfl rfl rfl rfl) ⟨rfl, rfl, rfl, rfl⟩ rfl (.inr hrefuse)⟩
    · next hfits =>
      by_cases hfull : w.bufferSize < w.buffer.length +
          (walHeaderSize + data.length + walCrcSize w.config.enableCrc32)
      · rw [if_pos hfull]
        obtain ⟨g', hflush⟩ := h.flush env
        generalize hout : w.omWalFlush env = out at hflush
        cases hflush with
        | done hinv hsame herr' herr'' hghost =>
          dsimp only
          rw [hsame.sequence]
          exact ⟨_, .acked (hinv.push herr'' rfl rfl rfl rfl rfl) herr herr'' hfits
            (.inr ⟨hghost, hfull⟩) hsame.config hsame.bufferSize hsame.slabSet rfl⟩
        | failed hinv hsame herr' hghost =>
          exact ⟨g', .failed hinv hsame herr herr' hghost (by rw [hout])⟩
      · rw [if_neg hfull]
        exact ⟨_, .acked (h.push herr rfl rfl rfl rfl rfl) herr herr hfits (.inl rfl)
          rfl rfl rfl rfl⟩

end Step

end VeloxMatch
