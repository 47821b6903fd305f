import VeloxMatch.WalOpen

namespace VeloxMatch

open OmWal OmWalReplay

variable {w : OmWal} {req : WalRequest} {reqs : List WalRequest}

/-- Every append is acknowledged, and none of them has to write to a file. -/
def OneBuffer : OmWal → List WalRequest → Prop
  | _, [] => True
  | w, req :: reqs =>
    (w.request completeEnv req).1 ≠ 0 ∧
      (w.request completeEnv req).2.disk.ops = w.disk.ops ∧
      OneBuffer (w.request completeEnv req).2 reqs

def appendAll (w : OmWal) (reqs : List WalRequest) : OmWal :=
  reqs.foldl (fun w req => (w.request completeEnv req).2) w

def recordsOf : OmWal → List WalRequest → List WalReplayRecord
  | _, [] => []
  | w, req :: reqs => recordOf w req :: recordsOf (w.request completeEnv req).2 reqs

section Flush

variable {env : Nat → OpOutcome} {w : OmWal}

theorem rotate_ops (size : Nat) : w.disk.ops ≤ (w.rotate env size).2.disk.ops := by
  have hfsync : ∀ fd, (w.disk.fsync env fd).2.ops = w.disk.ops + 1 := by
    intro fd
    unfold WalDisk.fsync
    split <;> rfl
  have hopen : ∀ (d : WalDisk) path, (d.openFile env path).2.ops = d.ops + 1 := by
    intro d path
    unfold WalDisk.openFile
    split <;> rfl
  unfold rotate
  split
  · have hops := hfsync w.fd
    generalize w.disk.fsync env w.fd = out at hops
    obtain ⟨ok, disk⟩ := out
    cases ok with
    | false => exact Nat.le_of_lt (hops ▸ Nat.lt_succ_self _)
    | true =>
      have hops' := hopen disk (w.config.path (w.fileIndex + 1))
      dsimp only at hops ⊢
      generalize disk.openFile env (w.config.path (w.fileIndex + 1)) = out at hops'
      obtain ⟨ok, disk'⟩ := out
      cases ok <;>
      · dsimp only at hops' ⊢
        omega
  · exact Nat.le_refl _

theorem flush_ops (herr : w.lastError = none) (hne : w.buffer ≠ []) :
    (w.omWalFlush env).1 = none → w.disk.ops < (w.omWalFlush env).2.disk.ops := by
  have hrotate := @rotate_ops env w (walPadded w.buffer).length
  have hwrite : ∀ (d : WalDisk) fd bytes, (d.write env fd bytes).2.ops = d.ops + 1 := by
    intro d fd bytes
    unfold WalDisk.write
    split <;> rfl
  unfold omWalFlush
  rw [herr]
  dsimp only
  rw [if_neg hne]
  generalize w.rotate env (walPadded w.buffer).length = out at hrotate
  obtain ⟨err, w'⟩ := out
  cases err with
  | some err => nofun
  | none =>
    have hops := hwrite w'.disk w'.fd (walPadded w.buffer)
    dsimp only at hrotate ⊢
    generalize w'.disk.write env w'.fd (walPadded w.buffer) = out at hops
    obtain ⟨ok, disk⟩ := out
    intro _
    cases ok <;>
    · dsimp only at hops ⊢
      omega

end Flush

theorem request_in_buffer (herr : w.lastError = none) (hack : (w.request completeEnv req).1 ≠ 0)
    (hops : (w.request completeEnv req).2.disk.ops = w.disk.ops) :
    req.appends = true ∧ ¬w.Refuses (w.payloadOf req).length ∧
      w.request completeEnv req =
        (w.sequence,
          { w with
            sequence := w.sequence + 1
            buffer := w.buffer ++ (recordOf w req).frame w.config.enableCrc32 }) := by
  cases happends : req.appends with
  | false => exact absurd (congrArg Prod.fst (request_of_not_appends happends ..)) hack
  | true =>
    rw [request_of_appends happends] at hack hops ⊢
    unfold walAppend at hack hops ⊢
    rw [herr] at hack hops ⊢
    dsimp only at hack hops ⊢
    by_cases hrefuses : w.Refuses (w.payloadOf req).length
    · rw [if_pos hrefuses] at hack
      exact absurd rfl hack
    · rw [if_neg hrefuses] at hack hops ⊢
      refine ⟨rfl, hrefuses, ?_⟩
      by_cases hfull : w.bufferSize < w.buffer.length +
          (walHeaderSize + (w.payloadOf req).length + walCrcSize w.config.enableCrc32)
      · exfalso
        rw [if_pos hfull] at hack hops
        have hne : w.buffer ≠ [] := by
          intro hempty
          rw [hempty, List.length_nil, Nat.zero_add] at hfull
          exact hrefuses (.inr (.inl hfull))
        have hflush := @flush_ops completeEnv w herr hne
        generalize w.omWalFlush completeEnv = out at hack hops hflush
        obtain ⟨err, w'⟩ := out
        cases err with
        | some err => exact hack rfl
        | none => exact Nat.ne_of_gt (hflush rfl) hops
      · rw [if_neg hfull]
        cases w
        cases herr
        rfl

theorem appendAll_eq (herr : w.lastError = none) (h : OneBuffer w reqs) :
    appendAll w reqs =
      { w with
        sequence := w.sequence + reqs.length
        buffer := w.buffer ++ framesOf w.config.enableCrc32 (recordsOf w reqs) } := by
  induction reqs generalizing w with
  | nil => simp [appendAll, recordsOf, framesOf]
  | cons req reqs ih =>
    obtain ⟨hack, hops, hmore⟩ := h
    obtain ⟨-, -, hreq⟩ := request_in_buffer herr hack hops
    rw [appendAll, List.foldl_cons, ← appendAll, recordsOf]
    rw [hreq] at hmore ⊢
    rw [ih (by exact herr) hmore]
    simp [framesOf, Nat.add_assoc, Nat.add_comm 1]

theorem lengthAllowed_payloadOf (w : OmWal) (happends : req.appends = true)
    (hlen : (w.payloadOf req).length < 2 ^ 16) :
    lengthAllowed (typeOf req) (w.payloadOf req) = true := by
  cases req with
  | insert order aux productId timestampNs =>
    have hsizes : (w.payloadOf (.insert order aux productId timestampNs)).length =
        walInsertSize + w.config.userDataSize + w.config.auxDataSize := by
      rw [payloadOf, insertPayload_length, insertOf, List.takeD_length, List.takeD_length]
    have huser : payloadUserSize (w.payloadOf (.insert order aux productId timestampNs)) =
        w.config.userDataSize := by
      rw [payloadOf, payloadUserSize_insert (Nat.mod_lt _ (by decide))]
      exact Nat.mod_eq_of_lt (by unfold walInsertSize at hsizes; omega)
    have haux : payloadAuxSize (w.payloadOf (.insert order aux productId timestampNs)) =
        w.config.auxDataSize := by
      rw [payloadOf, payloadAuxSize_insert (Nat.mod_lt _ (by decide))]
      exact Nat.mod_eq_of_lt (by unfold walInsertSize at hsizes; omega)
    rw [lengthAllowed, typeOf, if_pos rfl, huser, haux, hsizes]
    simp [Nat.add_assoc]
  | cancel rec => simp [lengthAllowed, typeOf, payloadOf, walTypeInsert, walTypeCancel]
  | deactivate rec =>
    simp [lengthAllowed, typeOf, payloadOf, walTypeInsert, walTypeCancel, walTypeDeactivate]
  | activate rec =>
    simp [lengthAllowed, typeOf, payloadOf, walTypeInsert, walTypeCancel, walTypeDeactivate,
      walTypeActivate]
  | matched rec =>
    simp [lengthAllowed, typeOf, payloadOf, walTypeInsert, walTypeCancel, walTypeDeactivate,
      walTypeActivate, walTypeMatch]
  | custom type data =>
    have htype : walUserBase ≤ type := by simpa [WalRequest.appends] using happends
    unfold walUserBase at htype
    rw [lengthAllowed, typeOf, if_neg, if_neg, if_neg] <;>
    · simp only [walTypeInsert, walTypeCancel, walTypeDeactivate, walTypeActivate, walTypeMatch]
      omega

theorem tagAllowed_typeOf (happends : req.appends = true) : tagAllowed (typeOf req) = true := by
  cases req with
  | custom type data =>
    have htype : walUserBase ≤ type := by simpa [WalRequest.appends] using happends
    simp [tagAllowed, typeOf, htype]
  | _ => rfl

theorem recordOf_sound (happends : req.appends = true) (hfits : ¬w.Refuses (w.payloadOf req).length)
    (hpos : 0 < w.sequence) : (recordOf w req).Sound := by
  unfold Refuses at hfits
  have hlen : (w.payloadOf req).length < 2 ^ 16 := by omega
  exact ⟨tagAllowed_typeOf happends, lengthAllowed_payloadOf w happends hlen, hlen,
    by dsimp only [recordOf]; omega, hpos⟩

theorem recordsOf_sound (herr : w.lastError = none) (hpos : 0 < w.sequence)
    (h : OneBuffer w reqs) : ∀ rec ∈ recordsOf w reqs, rec.Sound := by
  induction reqs generalizing w with
  | nil => simp [recordsOf]
  | cons req reqs ih =>
    obtain ⟨hack, hops, hmore⟩ := h
    obtain ⟨happends, hfits, hreq⟩ := request_in_buffer herr hack hops
    intro rec hrec
    rcases List.mem_cons.mp hrec with rfl | hrec
    · exact recordOf_sound happends hfits hpos
    · refine ih ?_ ?_ hmore rec hrec
      · rw [hreq]
        exact herr
      · rw [hreq]
        exact Nat.succ_pos _

theorem recordsOf_numbered {last : Nat} (herr : w.lastError = none)
    (hlast : last ≠ 0 → w.sequence = last + 1)
    (h : OneBuffer w reqs) : NumberedFrom last (recordsOf w reqs) := by
  induction reqs generalizing w last with
  | nil => trivial
  | cons req reqs ih =>
    obtain ⟨hack, hops, hmore⟩ := h
    obtain ⟨-, -, hreq⟩ := request_in_buffer herr hack hops
    refine ⟨hlast, ih ?_ (fun _ => ?_) hmore⟩
    · rw [hreq]
      exact herr
    · rw [hreq]
      rfl

end VeloxMatch
