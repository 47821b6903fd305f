import VeloxMatch.Runs
import VeloxMatch.WalLog

namespace VeloxMatch

open OmWal

inductive WalCall where
  | append (req : WalRequest)
  | flush
  | fsync
  deriving DecidableEq, Repr

structure WalRun where
  wal : OmWal
  acked : List WalReplayRecord

def walCall (env : Nat → OpOutcome) (s : WalRun) : WalCall → Option WalRun
  | .append req =>
    let out := s.wal.request env req
    some
      { wal := out.2
        acked :=
          if out.1 = 0 then s.acked
          else s.acked ++ [⟨typeOf req, out.1, s.wal.payloadOf req⟩] }
  | .flush => some { s with wal := (s.wal.omWalFlush env).2 }
  | .fsync => some { s with wal := (s.wal.omWalFsync env).2 }

/-- A request that gets to `wal_append`: own records must have a type of their own. -/
def WalRequest.appends : WalRequest → Bool
  | .custom type _ => walUserBase ≤ type
  | _ => true

theorem request_of_appends {req : WalRequest} (h : req.appends = true) (env : Nat → OpOutcome)
    (w : OmWal) : w.request env req = w.walAppend env (typeOf req) (w.payloadOf req) := by
  cases req with
  | custom type data =>
    rw [request, omWalAppendCustom, if_neg (Nat.not_lt.mpr (by simpa [WalRequest.appends] using h))]
    rfl
  | _ => rfl

theorem request_of_not_appends {req : WalRequest} (h : req.appends = false) (env : Nat → OpOutcome)
    (w : OmWal) : w.request env req = (0, w) := by
  cases req with
  | custom type data =>
    rw [request, omWalAppendCustom, if_pos (by simpa [WalRequest.appends] using h)]
  | _ => cases h

/-- A log as `om_wal_init` leaves it, on a file with the bytes `base`. -/
structure Opened (base : List UInt8) (w : OmWal) : Prop where
  lastError : w.lastError = none
  buffer : w.buffer = []
  fd : w.fd = some (w.config.path w.fileIndex)
  file : w.disk.files (w.config.path w.fileIndex) = some base
  later : w.config.pattern = true → ∀ i, w.fileIndex < i → w.disk.files (.indexed i) = none
  sequence : 0 < w.sequence

def WalGhost.empty : WalGhost := ⟨[], [], [], []⟩

theorem Opened.logInv {base : List UInt8} {w : OmWal} (h : Opened base w) :
    LogInv base w.fileIndex w .empty where
  buffer := h.buffer
  past := fun j groups hj => by simp [WalGhost.empty] at hj
  cur := by
    rw [show w.fileIndex + WalGhost.empty.past.length = w.fileIndex from rfl, h.file]
    exact congrArg some (List.append_nil _).symm
  later := h.later
  single := fun _ => rfl
  fd := fun _ => h.fd
  fileIndex := fun _ => rfl
  torn := fun _ => rfl
  tornOf := List.nil_prefix
  synced := fun _ j groups hj => by simp [WalGhost.empty] at hj

def Flushes (w : OmWal) : WalCall → Prop
  | .append req => w.bufferSize < w.buffer.length +
      (walHeaderSize + (w.payloadOf req).length + walCrcSize w.config.enableCrc32)
  | .flush | .fsync => True

/-- The call is an append of a record that the log can never hold. -/
def RefusedBy (w : OmWal) : WalCall → Prop
  | .append req => req.appends = true ∧ w.Refuses (w.payloadOf req).length
  | .flush | .fsync => False

instance (w : OmWal) : (c : WalCall) → Decidable (RefusedBy w c)
  | .append _ => inferInstanceAs (Decidable (_ ∧ _))
  | .flush | .fsync => instDecidableFalse

def recordOf (w : OmWal) (req : WalRequest) : WalReplayRecord :=
  ⟨typeOf req, w.sequence, w.payloadOf req⟩

inductive CallDone (env : Nat → OpOutcome) (base : List UInt8) (start : Nat) (s : WalRun)
    (g : WalGhost) : WalCall → WalRun → WalGhost → Prop where
  | quiet {c : WalCall} {s' : WalRun} {g' : WalGhost} (hinv : LogInv base start s'.wal g')
      (hsame : SameSettings s.wal s'.wal) (hacked : s'.acked = s.acked)
      (herr : s'.wal.lastError = s.wal.lastError)
      (hghost : g' = g ∨ Emptied g g' ∧ Flushes s.wal c) : CallDone env base start s g c s' g'
  | stuck {c : WalCall} {s' : WalRun} {g' : WalGhost} (hinv : LogInv base start s'.wal g')
      (hsame : SameSettings s.wal s'.wal) (hacked : s'.acked = s.acked)
      (herr : s'.wal.lastError ≠ none) (hghost : Stuck g g' ∨ Emptied g g' ∧ Flushes s.wal c)
      (hwhy : s.wal.lastError ≠ none ∨ RefusedBy s.wal c ∨ ∃ k, env k ≠ .complete) :
      CallDone env base start s g c s' g'
  | acked {req : WalRequest} {s' : WalRun} {g' : WalGhost}
      (hinv : LogInv base start s'.wal (g'.push (recordOf s.wal req)))
      (herr : s.wal.lastError = none) (herr' : s'.wal.lastError = none)
      (hacked : s'.acked = s.acked ++ [recordOf s.wal req]) (happends : req.appends = true)
      (hfits : ¬s.wal.Refuses (s.wal.payloadOf req).length)
      (hghost : g' = g ∨ Emptied g g' ∧ Flushes s.wal (.append req))
      (hconfig : s'.wal.config = s.wal.config) (hsize : s'.wal.bufferSize = s.wal.bufferSize)
      (hslab : s'.wal.slabSet = s.wal.slabSet) (hseq : s'.wal.sequence = s.wal.sequence + 1) :
      CallDone env base start s g (.append req) s' (g'.push (recordOf s.wal req))

section Calls

variable {env : Nat → OpOutcome} {base : List UInt8} {start : Nat} {s s' : WalRun} {g : WalGhost}

theorem not_complete_of_flush {w : OmWal} {err : OmError} (herr : w.lastError = none)
    (hfd : w.fd = some (w.config.path w.fileIndex)) (h : (w.omWalFlush env).1 = some err) :
    ∃ k, env k ≠ .complete := by
  by_contra hno
  rw [omWalFlush_complete (fun k => not_not.mp fun hk => hno ⟨k, hk⟩) herr hfd] at h
  cases h

theorem callDone_append (h : LogInv base start s.wal g) (hpos : 0 < s.wal.sequence)
    {req : WalRequest} (hcall : walCall env s (.append req) = some s') :
    ∃ g', CallDone env base start s g (.append req) s' g' := by
  cases happends : req.appends with
  | false =>
    simp only [walCall, request_of_not_appends happends, if_true] at hcall
    cases hcall
    exact ⟨g, .quiet h ⟨rfl, rfl, rfl, rfl⟩ rfl rfl (.inl rfl)⟩
  | true =>
    simp only [walCall, request_of_appends happends] at hcall
    cases hcall
    obtain ⟨g', happend⟩ := h.append env (typeOf req) (s.wal.payloadOf req)
    generalize hout : s.wal.walAppend env (typeOf req) (s.wal.payloadOf req) = out at happend
    cases happend with
    | acked hinv herr herr' hfits hghost hconfig hsize hslab hseq =>
      exact ⟨_, .acked hinv herr herr' (if_neg hpos.ne') happends hfits hghost hconfig hsize hslab
        hseq⟩
    | refused hinv hsame herr' hwhy =>
      refine ⟨g, .stuck hinv hsame rfl (by rw [herr']; nofun) (.inl ⟨rfl, rfl⟩) ?_⟩
      rcases hwhy with hwas | hrefuses
      · exact .inl (by rw [hwas]; nofun)
      · exact .inr (.inl ⟨happends, hrefuses⟩)
    | failed hinv hsame herr herr' hghost hwhy =>
      exact ⟨g', .stuck hinv hsame rfl (by rw [herr']; nofun) (.inl hghost)
        (.inr (.inr (not_complete_of_flush herr (h.fd herr) hwhy)))⟩

theorem callDone_flush (h : LogInv base start s.wal g) (hcall : walCall env s .flush = some s') :
    ∃ g', CallDone env base start s g .flush s' g' := by
  cases hcall
  obtain ⟨g', hflush⟩ := h.flush env
  generalize hout : s.wal.omWalFlush env = out at hflush
  cases hflush with
  | done hinv hsame herr herr' hghost =>
    exact ⟨g', .quiet hinv hsame rfl (herr'.trans herr.symm) (.inr ⟨hghost, trivial⟩)⟩
  | failed hinv hsame herr' hghost =>
    refine ⟨g', .stuck hinv hsame rfl (by rw [herr']; nofun) (.inl hghost) ?_⟩
    cases herr : s.wal.lastError with
    | some err => exact .inl nofun
    | none => exact .inr (.inr (not_complete_of_flush herr (h.fd herr) (by rw [hout])))

theorem LogInv.synced_more {w w' : OmWal} (h : LogInv base start w g)
    (hfiles : w'.disk.files = w.disk.files) (hconfig : w'.config = w.config)
    (hbuffer : w'.buffer = w.buffer) (herr : w'.lastError = w.lastError) (hfd : w'.fd = w.fd)
    (hindex : w'.fileIndex = w.fileIndex)
    (hsynced : ∀ i < w.fileIndex, w.config.pattern = true →
      w'.disk.synced (w.config.path i) = w.disk.synced (w.config.path i)) :
    LogInv base start w' g where
  buffer := by rw [hbuffer, hconfig]; exact h.buffer
  past := by rw [hfiles, hconfig]; exact h.past
  cur := by rw [hfiles, hconfig]; exact h.cur
  later := by rw [hfiles, hconfig]; exact h.later
  single := by rw [hconfig]; exact h.single
  fd := by rw [herr, hfd, hconfig, hindex]; exact h.fd
  fileIndex := by rw [herr, hindex]; exact h.fileIndex
  torn := by rw [herr]; exact h.torn
  tornOf := by rw [hbuffer]; exact h.tornOf
  synced := by
    rw [herr, hconfig]
    intro hnone j groups hj
    have hlt := (List.getElem?_eq_some_iff.mp hj).1
    have hpattern : w.config.pattern = true := by
      by_contra hno
      rw [h.single (by simpa using hno)] at hj
      simp at hj
    rw [hsynced _ (by rw [h.fileIndex hnone]; omega) hpattern]
    exact h.synced hnone j groups hj

theorem callDone_fsync (h : LogInv base start s.wal g) (hcall : walCall env s .fsync = some s') :
    ∃ g', CallDone env base start s g .fsync s' g' := by
  cases hcall
  obtain ⟨g', hflush⟩ := h.flush env
  unfold omWalFsync
  cases herr : s.wal.lastError with
  | some err =>
    exact ⟨g, .stuck h ⟨rfl, rfl, rfl, rfl⟩ rfl (by dsimp only; rw [herr]; nofun)
      (.inl ⟨rfl, rfl⟩) (.inl (by rw [herr]; nofun))⟩
  | none =>
    dsimp only
    generalize hout : s.wal.omWalFlush env = out at hflush
    cases hflush with
    | failed hinv hsame herr' hghost =>
      exact ⟨g', .stuck hinv hsame rfl (by dsimp only; rw [herr']; nofun) (.inl hghost)
        (.inr (.inr (not_complete_of_flush herr (h.fd herr) (by rw [hout]))))⟩
    | @done w' g' hinv hsame herr' herr'' hghost =>
      have hfd := hinv.fd herr''
      dsimp only
      unfold WalDisk.fsync
      rw [hfd]
      cases henv : env w'.disk.ops with
      | complete =>
        refine ⟨g', .quiet (hinv.synced_more rfl rfl rfl rfl hfd.symm rfl ?_)
          ⟨hsame.config, hsame.bufferSize, hsame.sequence, hsame.slabSet⟩ rfl
          (herr''.trans herr.symm) (.inr ⟨hghost, trivial⟩)⟩
        intro i hi hpattern
        dsimp only
        rw [Function.update_of_ne (path_ne hpattern (Nat.ne_of_lt hi))]
      | _ =>
        refine ⟨g', .stuck (hinv.stop rfl rfl rfl rfl)
          ⟨hsame.config, hsame.bufferSize, hsame.sequence, hsame.slabSet⟩ rfl nofun
          (.inr ⟨hghost, trivial⟩) (.inr (.inr ⟨w'.disk.ops, by rw [henv]; nofun⟩))⟩

theorem callDone (h : LogInv base start s.wal g) (hpos : 0 < s.wal.sequence) {c : WalCall}
    (hcall : walCall env s c = some s') : ∃ g', CallDone env base start s g c s' g' := by
  cases c with
  | append req => exact callDone_append h hpos hcall
  | flush => exact callDone_flush h hcall
  | fsync => exact callDone_fsync h hcall

end Calls

end VeloxMatch
