import VeloxMatch.WalOpen

namespace VeloxMatch

open OmWal List

/-- The pieces stand in the bytes one behind the other, with gaps between them. -/
inductive ContainsInOrder : List UInt8 → List (List UInt8) → Prop where
  | nil {bytes : List UInt8} : ContainsInOrder bytes []
  | cons {gap piece rest : List UInt8} {pieces : List (List UInt8)}
      (h : ContainsInOrder rest pieces) : ContainsInOrder (gap ++ (piece ++ rest)) (piece :: pieces)

section Contains

variable {as bs : List UInt8} {ps qs : List (List UInt8)}

theorem ContainsInOrder.append_left (h : ContainsInOrder bs ps) :
    ContainsInOrder (as ++ bs) ps := by
  cases h with
  | nil => exact .nil
  | cons h =>
    rw [← append_assoc]
    exact .cons h

theorem ContainsInOrder.append (h : ContainsInOrder as ps) (h' : ContainsInOrder bs qs) :
    ContainsInOrder (as ++ bs) (ps ++ qs) := by
  induction h with
  | nil => exact h'.append_left
  | cons h ih =>
    rw [append_assoc, append_assoc]
    exact .cons ih

theorem ContainsInOrder.append_right (h : ContainsInOrder as ps) :
    ContainsInOrder (as ++ bs) ps := by
  have happend := h.append (@ContainsInOrder.nil bs)
  rwa [append_nil] at happend

theorem containsInOrder_flatten (ps : List (List UInt8)) : ContainsInOrder ps.flatten ps := by
  induction ps with
  | nil => exact .nil
  | cons p ps ih => exact @ContainsInOrder.cons [] _ _ _ ih

theorem ContainsInOrder.length_le (h : ContainsInOrder as ps) : ps.flatten.length ≤ as.length := by
  induction h with
  | nil => exact Nat.zero_le _
  | cons h ih =>
    simp only [flatten_cons, length_append]
    omega

theorem fileOf_contains (crc : Bool) (groups : List (List WalReplayRecord)) :
    ContainsInOrder (fileOf crc groups) (groups.flatten.map (·.frame crc)) := by
  induction groups with
  | nil => exact .nil
  | cons group groups ih =>
    have hgroup : ContainsInOrder (walPadded (framesOf crc group)) (group.map (·.frame crc)) := by
      rw [walPadded, framesOf, flatMap_def]
      exact (containsInOrder_flatten _).append_right
    rw [flatten_cons, map_append]
    exact hgroup.append ih

end Contains

def logBytes (disk : WalDisk) (config : OmWalConfig) (start n : Nat) : List UInt8 :=
  (range (n + 1)).flatMap fun j => disk.content (config.path (start + j))

theorem flatten_mapIdx_baseAt {α : Type} (base : List UInt8) (f : α → List UInt8) (x : α)
    (xs : List α) :
    ((x :: xs).mapIdx fun j a => baseAt base j ++ f a).flatten =
      base ++ ((x :: xs).map f).flatten := by
  have htail : (xs.mapIdx fun j a => baseAt base (j + 1) ++ f a) = xs.map f := by
    simp [baseAt, mapIdx_eq_iff]
  rw [mapIdx_cons, flatten_cons, htail, map_cons, flatten_cons,
    append_assoc]
  rfl

theorem fileOf_flatten (crc : Bool) (files : List (List (List WalReplayRecord))) :
    (files.map (fileOf crc)).flatten = fileOf crc files.flatten := by
  induction files with
  | nil => rfl
  | cons groups files ih => rw [map_cons, flatten_cons, ih, flatten_cons,
      fileOf_append]

theorem LogInv.logBytes_eq {base : List UInt8} {start : Nat} {w : OmWal} {g : WalGhost}
    (h : LogInv base start w g) :
    logBytes w.disk w.config start g.past.length =
      base ++ fileOf w.config.enableCrc32 g.groups ++ g.torn := by
  have hpast : (range g.past.length).map
      (fun j => w.disk.content (w.config.path (start + j))) =
      g.past.mapIdx fun j groups => baseAt base j ++ fileOf w.config.enableCrc32 groups := by
    refine ext_getElem? fun j => ?_
    by_cases hlt : j < g.past.length
    · rw [getElem?_map, getElem?_range hlt, Option.map_some, WalDisk.content,
        h.past j g.past[j] (getElem?_eq_getElem hlt), getElem?_mapIdx,
        getElem?_eq_getElem hlt]
      rfl
    · simp [hlt]
  have hcur : w.disk.content (w.config.path (start + g.past.length)) =
      baseAt base g.past.length ++ (fileOf w.config.enableCrc32 g.cur ++ g.torn) := by
    rw [WalDisk.content, h.cur, Option.getD_some]
  have hall : (g.past ++ [g.cur]).mapIdx
      (fun j groups => baseAt base j ++ fileOf w.config.enableCrc32 groups) =
      (g.past.mapIdx fun j groups => baseAt base j ++ fileOf w.config.enableCrc32 groups) ++
        [baseAt base g.past.length ++ fileOf w.config.enableCrc32 g.cur] := by
    rw [mapIdx_append]
    simp
  obtain ⟨x, xs, hcons⟩ := exists_cons_of_ne_nil (l := g.past ++ [g.cur]) (by simp)
  have hbytes := congrArg flatten hall
  rw [hcons, flatten_mapIdx_baseAt, ← hcons, flatten_append, flatten_singleton] at hbytes
  have hgroups : ((g.past ++ [g.cur]).map (fileOf w.config.enableCrc32)).flatten =
      fileOf w.config.enableCrc32 g.groups := by
    rw [fileOf_flatten, flatten_append, flatten_singleton]
    rfl
  rw [logBytes, range_succ, flatMap_append, flatMap_def, hpast,
    flatMap_singleton, hcur, ← append_assoc (baseAt ..), ← append_assoc, ← hbytes,
    hgroups]

/-- An append that the log refuses comes when the buffer is empty. -/
def RejectsEmpty (s : WalRun) (c : WalCall) : Prop :=
  s.wal.lastError = none → RefusedBy s.wal c → s.wal.buffer = []

instance (s : WalRun) (c : WalCall) : Decidable (RejectsEmpty s c) :=
  inferInstanceAs (Decidable (_ → _ → _))

structure KeptInv (base : List UInt8) (start : Nat) (config : OmWalConfig) (s : WalRun)
    (g : WalGhost) : Prop where
  log : LogInv base start s.wal g
  config : s.wal.config = config
  acked : s.acked = g.records
  sequence : 0 < s.wal.sequence
  kept : s.wal.lastError ≠ none → g.pending = []

section Kept

variable {env : Nat → OpOutcome} {base : List UInt8} {start : Nat} {config : OmWalConfig}
  {s s' : WalRun} {g : WalGhost}

theorem KeptInv.step (henv : ∀ k, env k = .complete) (h : KeptInv base start config s g)
    {c : WalCall} (hok : RejectsEmpty s c) (hcall : walCall env s c = some s') :
    ∃ g', KeptInv base start config s' g' := by
  obtain ⟨g', hdone⟩ := callDone h.log h.sequence hcall
  cases hdone with
  | quiet hinv hsame hacked herr hghost =>
    have hrecords : g'.records = g.records := by
      rcases hghost with rfl | ⟨hempty, -⟩
      · rfl
      · exact hempty.records
    refine ⟨g', hinv, hsame.config.trans h.config, by rw [hacked, hrecords, h.acked],
      by rw [hsame.sequence]; exact h.sequence, fun hno => ?_⟩
    rcases hghost with rfl | ⟨hempty, -⟩
    · exact h.kept (herr ▸ hno)
    · exact hempty.pending
  | stuck hinv hsame hacked herr hghost hwhy =>
    have hrecords : g'.records = g.records := hghost.elim (·.records) (·.1.records)
    refine ⟨g', hinv, hsame.config.trans h.config, by rw [hacked, hrecords, h.acked],
      by rw [hsame.sequence]; exact h.sequence, fun _ => ?_⟩
    rcases hghost with hstuck | ⟨hempty, -⟩
    · -- The error was there, or the buffer is empty; a file operation does not fail.
      rw [hstuck.pending]
      by_cases hwas : s.wal.lastError = none
      · rcases hwhy with hno | hrefused | ⟨k, hk⟩
        · exact absurd hwas hno
        · by_contra hne
          exact framesOf_ne_nil hne (h.log.buffer.symm.trans (hok hwas hrefused))
        · exact absurd (henv k) hk
      · exact h.kept hwas
    · exact hempty.pending
  | acked hinv herr herr' hacked happends hfits hghost hconfig hsize hslab hseq =>
    refine ⟨_, hinv, hconfig.trans h.config, ?_, by rw [hseq]; exact Nat.succ_pos _,
      fun hno => absurd herr' hno⟩
    rw [hacked, WalGhost.records_push, h.acked]
    rcases hghost with rfl | ⟨hempty, -⟩
    · rfl
    · rw [hempty.records]

theorem KeptInv.close (henv : ∀ k, env k = .complete) (h : KeptInv base start config s g) :
    ∃ n, (config.pattern = false → n = 0) ∧
      ContainsInOrder (logBytes (s.wal.omWalClose env) config start n)
        (s.acked.map (·.frame config.enableCrc32)) := by
  obtain ⟨g', hflush⟩ := h.log.flush env
  have hclose : ∀ w : OmWal, LogInv base start w g' → w.config = config →
      g'.records = s.acked → g'.pending = [] → (s.wal.omWalClose env).files = w.disk.files →
      ∃ n, (config.pattern = false → n = 0) ∧
        ContainsInOrder (logBytes (s.wal.omWalClose env) config start n)
          (s.acked.map (·.frame config.enableCrc32)) := by
    intro w hinv hconfig hrecords hpending hfiles
    refine ⟨g'.past.length, fun hsingle => ?_, ?_⟩
    · rw [hinv.single (hconfig ▸ hsingle)]
      rfl
    · have hbytes : logBytes (s.wal.omWalClose env) config start g'.past.length =
          logBytes w.disk w.config start g'.past.length := by
        simp only [logBytes, WalDisk.content, hfiles, hconfig]
      have hall : g'.groups.flatten = s.acked := by
        rw [← hrecords, WalGhost.records, hpending, append_nil, WalGhost.groups,
          flatten_append]
      rw [hbytes, hinv.logBytes_eq, ← hall, hconfig]
      exact (fileOf_contains ..).append_left.append_right
  have hfsync := omWalClose_files env s.wal
  generalize hout : s.wal.omWalFlush env = out at hflush hfsync
  cases hflush with
  | done hinv hsame herr herr' hghost =>
    exact hclose _ hinv (hsame.config.trans h.config) (hghost.records.trans h.acked.symm)
      hghost.pending hfsync
  | failed hinv hsame herr' hghost =>
    refine hclose _ hinv (hsame.config.trans h.config) (hghost.records.trans h.acked.symm) ?_ hfsync
    rw [hghost.pending]
    by_cases hwas : s.wal.lastError = none
    · have hok := omWalFlush_complete henv hwas (h.log.fd hwas)
      rw [hout] at hok
      cases hok
    · exact h.kept hwas

end Kept

/-- Where every file operation succeeds and no append is refused while records are in the buffer,
the files of a log that was closed hold the frames of all acknowledged records, in order. -/
theorem close_keeps_acked {env : Nat → OpOutcome} (henv : ∀ k, env k = .complete)
    {turns calls : Nat} {config : OmWalConfig} {disk : WalDisk} {w : OmWal}
    (hinit : omWalInit env turns calls config disk = some (.ok w))
    (hlater : w.config.pattern = true → ∀ i, w.fileIndex < i → w.disk.files (.indexed i) = none)
    (slabSet : Bool) {s : WalRun}
    (hrun : Runs (walCall env) RejectsEmpty ⟨omWalSetSlab w slabSet, []⟩ s) :
    ∃ n, (w.config.pattern = false → n = 0) ∧
      ContainsInOrder (logBytes (s.wal.omWalClose env) w.config w.fileIndex n)
        (s.acked.map (·.frame w.config.enableCrc32)) := by
  have hopened := opened_of_init hinit hlater
  have hslab : Opened (w.disk.content (w.config.path w.fileIndex)) (omWalSetSlab w slabSet) :=
    ⟨hopened.lastError, hopened.buffer, hopened.fd, hopened.file, hopened.later, hopened.sequence⟩
  have hinv : ∃ g, KeptInv (w.disk.content (w.config.path w.fileIndex)) w.fileIndex w.config s g := by
    refine hrun.invariant (P := fun s =>
      ∃ g, KeptInv (w.disk.content (w.config.path w.fileIndex)) w.fileIndex w.config s g) ?_ ?_
    · exact ⟨.empty, hslab.logInv, rfl, rfl, hopened.sequence,
        fun hno => absurd hopened.lastError hno⟩
    · rintro s c s' ⟨g, hg⟩ hok hcall
      exact hg.step henv hok hcall
  obtain ⟨g, hg⟩ := hinv
  exact hg.close henv

def blockConfig : OmWalConfig where
  pattern := false
  fileIndex := 0
  bufferSize := 4096
  enableCrc32 := true
  disableCrc32 := false
  userDataSize := 0
  auxDataSize := 0
  walMaxFileSize := 0

def shortRequest : WalRequest := .custom walUserBase [1]

def longRequest : WalRequest := .custom walUserBase (replicate 5000 0)

theorem close_keeps_acked_after_flush :
    ∃ s, Runs (walCall completeEnv) RejectsEmpty ⟨omWalSetSlab (freshWal blockConfig) false, []⟩ s ∧
      s.acked.length = 1 ∧ s.wal.lastError = some .walWrite ∧
      ∃ n, ((freshWal blockConfig).config.pattern = false → n = 0) ∧
        ContainsInOrder (logBytes (s.wal.omWalClose completeEnv) (freshWal blockConfig).config
          (freshWal blockConfig).fileIndex n)
          (s.acked.map (·.frame (freshWal blockConfig).config.enableCrc32)) := by
  obtain ⟨s, hrun, hlen, herr⟩ := exists_runs (walCall completeEnv) RejectsEmpty
    ⟨omWalSetSlab (freshWal blockConfig) false, []⟩
    [.append shortRequest, .flush, .append longRequest]
    (fun s => s.acked.length = 1 ∧ s.wal.lastError = some .walWrite)
    (by decide +kernel) (by decide +kernel)
  exact ⟨s, hrun, hlen, herr, close_keeps_acked (fun _ => rfl)
    (omWalInit_fresh blockConfig Nat.one_pos Nat.one_pos) nofun false hrun⟩

/-- An append that is too long is refused while a record is in the buffer: the record is lost. -/
theorem close_loses_acked :
    ∃ s, Runs (walCall completeEnv) anyAction ⟨omWalSetSlab (freshWal blockConfig) false, []⟩ s ∧
      ¬∃ n, ((freshWal blockConfig).config.pattern = false → n = 0) ∧
        ContainsInOrder (logBytes (s.wal.omWalClose completeEnv) (freshWal blockConfig).config
          (freshWal blockConfig).fileIndex n)
          (s.acked.map (·.frame (freshWal blockConfig).config.enableCrc32)) := by
  obtain ⟨s, hrun, hbytes, hlen⟩ := exists_runs (walCall completeEnv) anyAction
    ⟨omWalSetSlab (freshWal blockConfig) false, []⟩ [.append shortRequest, .append longRequest]
    (fun s => logBytes (s.wal.omWalClose completeEnv) (freshWal blockConfig).config 0 0 = [] ∧
      s.acked.length = 1) (by decide +kernel) (by decide +kernel)
  refine ⟨s, hrun, ?_⟩
  rintro ⟨n, hn, hcontains⟩
  have hle := hcontains.length_le
  rw [hn rfl, show (freshWal blockConfig).fileIndex = 0 from rfl, hbytes, length_nil,
    ← flatMap_def] at hle
  have hacked : s.acked ≠ [] := ne_nil_of_length_pos (by rw [hlen]; exact Nat.one_pos)
  exact framesOf_ne_nil hacked (eq_nil_of_length_eq_zero (Nat.le_zero.mp hle))

end VeloxMatch
