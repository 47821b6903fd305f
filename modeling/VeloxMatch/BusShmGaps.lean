import VeloxMatch.BusShmDelivery

namespace VeloxMatch

open StreamState Function

def Gapless (recs : List OmBusRecord) : Prop :=
  recs.IsChain fun a b => b.walSeq.toNat ≤ a.walSeq.toNat + 1

instance (recs : List OmBusRecord) : Decidable (Gapless recs) :=
  inferInstanceAs (Decidable (List.IsChain _ recs))

/-- The records a call delivers to endpoint `i`, after the one delivered before it. -/
def callRecords (i : Nat) (s s' : StreamState) : List OmBusRecord :=
  (s.received i).getLast?.toList ++ (s'.received i).drop (s.received i).length

/-- The call returns `OM_ERR_BUS_GAP_DETECTED`. A batch returns the number of its records. -/
def returnsGap (i : Nat) (s : StreamState) : StreamAction → Prop
  | .poll _ _ _ => ∃ expected ∈ s.endpoints i, s.pollResult i expected = .gapDetected
  | _ => False

def StreamAction.isPoll (i : Nat) : StreamAction → Bool
  | .poll j _ _ => j == i
  | _ => false

def StreamAction.isBatch : StreamAction → Bool
  | .pollBatch _ _ _ _ => true
  | _ => false

def nextPollGap (i : Nat) : StreamState → List StreamAction → Prop
  | _, [] => False
  | s, a :: as =>
    if a.isPoll i then returnsGap i s a else ∃ s' ∈ s.step a, nextPollGap i s' as

/-- Whenever a call delivers a record that skips a sequence number, it says so, or, if it is a
batch, the next poll does. -/
def ReportsGaps (i : Nat) : StreamState → List StreamAction → Prop
  | _, [] => True
  | s, a :: as => ∀ s' ∈ s.step a,
    (a.Polls i → ¬Gapless (callRecords i s s') →
      returnsGap i s a ∨ a.isBatch = true ∧ nextPollGap i s' as) ∧ ReportsGaps i s' as

instance (i : Nat) (s : StreamState) (a : StreamAction) : Decidable (returnsGap i s a) := by
  induction a using StreamAction.casesOn <;> dsimp only [returnsGap] <;> infer_instance

instance decidableNextPollGap (i : Nat) :
    (s : StreamState) → (as : List StreamAction) → Decidable (nextPollGap i s as)
  | _, [] => inferInstanceAs (Decidable False)
  | s, a :: as =>
    have := fun s' => decidableNextPollGap i s' as
    inferInstanceAs (Decidable (if a.isPoll i then returnsGap i s a
      else ∃ s' ∈ s.step a, nextPollGap i s' as))

instance (i : Nat) (a : StreamAction) : Decidable (a.Polls i) := by
  induction a using StreamAction.casesOn <;> dsimp only [StreamAction.Polls] <;> infer_instance

instance decidableReportsGaps (i : Nat) :
    (s : StreamState) → (as : List StreamAction) → Decidable (ReportsGaps i s as)
  | _, [] => inferInstanceAs (Decidable True)
  | s, a :: as =>
    have := fun s' => decidableReportsGaps i s' as
    inferInstanceAs (Decidable (∀ s' ∈ s.step a, (_ → _ → _) ∧ ReportsGaps i s' as))

/-- Where endpoint `i` is not overrun, what its batches find in the ring goes on from the record
before without a gap. -/
def batchesGapless (i : Nat) (s : StreamState) : StreamAction → Prop
  | .pollBatch j maxCount _ _ => j = i → s.published.length ≤ s.tail i + s.shm.capacity →
    Gapless ((s.received i).getLast?.toList ++ (s.published.drop (s.tail i)).take maxCount)
  | _ => True

instance (i : Nat) (s : StreamState) (a : StreamAction) : Decidable (batchesGapless i s a) := by
  induction a using StreamAction.casesOn <;> dsimp only [batchesGapless] <;> infer_instance

/-- The sequence number an endpoint expects is the one after the last it got. -/
def ExpectsNext (i : Nat) (s : StreamState) : Prop :=
  ∀ expected, s.endpoints i = some expected →
    ∀ last, (s.received i).getLast? = some last → expected = last.walSeq + 1

section Expects

variable {s s' : StreamState} {i j : Nat} {now now' : UInt64} {recs : List OmBusRecord}

theorem ExpectsNext.congr (h : ExpectsNext j s) (hends : s'.endpoints j = s.endpoints j)
    (hreceived : s'.received j = s.received j) : ExpectsNext j s' := by
  intro expected hopen last hlast
  exact h expected (hends ▸ hopen) last (hreceived ▸ hlast)

theorem ExpectsNext.deliver (h : ExpectsNext j s) {rec : OmBusRecord}
    (hlast : recs.getLast? = some rec) (now now' : UInt64) :
    ExpectsNext j (s.deliver i recs rec.walSeq now now') := by
  rcases eq_or_ne j i with rfl | hne
  · intro expected hopen last hlast'
    have hopen : update s.endpoints j (some (rec.walSeq + 1)) j = some expected := hopen
    have hlast' : (update s.received j (s.received j ++ recs) j).getLast? = some last :=
      hlast'
    rw [update_self] at hopen hlast'
    rw [List.getLast?_append, hlast, Option.some_or] at hlast'
    cases hopen
    cases hlast'
    rfl
  · exact h.congr (update_of_ne hne ..) (update_of_ne hne ..)

theorem ExpectsNext.poll (h : ExpectsNext j s)
    (hs : s.poll i now now' = some s') : ExpectsNext j s' := by
  unfold StreamState.poll at hs
  split at hs
  · cases hs
  dsimp only at hs
  split at hs
  case h_5 | h_6 | h_7 =>
    cases hs
    exact ExpectsNext.deliver (h.congr rfl rfl) rfl now now'
  all_goals
    cases hs
    exact h.congr rfl rfl

theorem ExpectsNext.pollBatch (h : ExpectsNext j s) {maxCount : Nat}
    (hs : s.pollBatch i maxCount now now' = some s') : ExpectsNext j s' := by
  unfold StreamState.pollBatch at hs
  split at hs
  · cases hs
  dsimp only at hs
  split at hs
  · cases hs
    exact h.congr rfl rfl
  · next rec hlast =>
    cases hs
    exact ExpectsNext.deliver (h.congr rfl rfl) hlast now now'

theorem ExpectsNext.openEndpoint (h : ExpectsNext j s)
    (hs : s.openEndpoint i now = some s') : ExpectsNext j s' := by
  unfold StreamState.openEndpoint at hs
  split at hs
  · cases hs
  split at hs
  · cases hs
    exact h
  cases hs
  rcases eq_or_ne j i with rfl | hne
  · intro expected _ last hlast
    have hlast : (update s.received j [] j).getLast? = some last := hlast
    rw [update_self] at hlast
    cases hlast
  · exact h.congr (update_of_ne hne ..) (update_of_ne hne ..)

theorem ExpectsNext.closeEndpoint (h : ExpectsNext j s) (hs : s.closeEndpoint i = some s') :
    ExpectsNext j s' := by
  unfold StreamState.closeEndpoint at hs
  split at hs
  · cases hs
  cases hs
  rcases eq_or_ne j i with rfl | hne
  · intro expected hopen
    have hopen : update s.endpoints j none j = some expected := hopen
    rw [update_self] at hopen
    cases hopen
  · exact h.congr (update_of_ne hne ..) rfl

theorem startPublish_endpoints (hs : s.startPublish recs = some s') :
    s'.endpoints = s.endpoints ∧ s'.received = s.received := by
  unfold startPublish at hs
  split at hs
  · split at hs
    · cases hs
      exact ⟨rfl, rfl⟩
    · cases hs
      exact ⟨rfl, rfl⟩
  · cases hs

theorem producerStep_endpoints (hs : s.producerStep now = some s') :
    s'.endpoints = s.endpoints ∧ s'.received = s.received := by
  unfold producerStep at hs
  split at hs
  · cases hs
  split at hs
  · dsimp only at hs
    split at hs
    · cases hs
      exact ⟨rfl, rfl⟩
    · cases hs
      exact ⟨rfl, rfl⟩
  · dsimp only at hs
    split at hs
    · cases hs
      exact ⟨rfl, rfl⟩
    · cases hs
      exact ⟨rfl, rfl⟩

theorem ExpectsNext.step (h : ExpectsNext j s) {a : StreamAction} (hs : s.step a = some s') :
    ExpectsNext j s' := by
  cases a with
  | publish rec =>
    obtain ⟨hends, hreceived⟩ := startPublish_endpoints hs
    exact h.congr (congrFun hends j) (congrFun hreceived j)
  | publishBatch recs =>
    obtain ⟨hends, hreceived⟩ := startPublish_endpoints hs
    exact h.congr (congrFun hends j) (congrFun hreceived j)
  | producer now =>
    obtain ⟨-, hs⟩ := Option.ite_none_right_eq_some.mp hs
    obtain ⟨hends, hreceived⟩ := producerStep_endpoints hs
    exact h.congr (congrFun hends j) (congrFun hreceived j)
  | «open» i now => exact h.openEndpoint (Option.ite_none_right_eq_some.mp hs).2
  | poll i now now' => exact h.poll (Option.ite_none_right_eq_some.mp hs).2
  | pollBatch i maxCount now now' => exact h.pollBatch (Option.ite_none_right_eq_some.mp hs).2
  | close i => exact h.closeEndpoint hs

end Expects

section Reports

variable {s s' : StreamState} {i : Nat} {now now' : UInt64}

theorem callRecords_append {recs : List OmBusRecord} (h : s'.received i = s.received i ++ recs) :
    callRecords i s s' = (s.received i).getLast?.toList ++ recs := by
  rw [callRecords, h, List.drop_left]

theorem callRecords_none (h : s'.received i = s.received i) : Gapless (callRecords i s s') := by
  rw [callRecords_append (h.trans (List.append_nil _).symm), List.append_nil]
  cases (s.received i).getLast? with
  | none => exact .nil
  | some last => exact .singleton last

theorem poll_received (h : StreamInv s) {expected : UInt64} (hopen : s.endpoints i = some expected)
    (hs : s.poll i now now' = some s') :
    s'.received i = s.received i ∨ ∃ rec, s'.received i = s.received i ++ [rec] ∧
      s.pollResult i expected = omBusGapResult s.shm.flags expected rec.walSeq := by
  unfold poll at hs
  rw [hopen] at hs
  by_cases hempty : s.pollResult i expected = .empty
  · simp only [hempty, Option.some.injEq] at hs
    subst hs
    exact .inl rfl
  · obtain ⟨rec, -, hslot, hresult⟩ := h.pollResult_delivers hempty
    dsimp only at hs
    rw [hslot] at hs
    split at hs
    case h_5 | h_6 | h_7 =>
      cases hs
      exact .inr ⟨rec, update_self .., hresult⟩
    all_goals
      cases hs
      exact .inl rfl

theorem poll_reports (h : StreamInv s) (hexpects : ExpectsNext i s)
    (hs : s.poll i now now' = some s') (hgap : ¬Gapless (callRecords i s s')) :
    returnsGap i s (.poll i now now') := by
  cases hopen : s.endpoints i with
  | none => simp [poll, hopen] at hs
  | some expected =>
    refine ⟨expected, hopen, ?_⟩
    rcases poll_received h hopen hs with hsame | ⟨rec, hreceived, hresult⟩
    · exact absurd (callRecords_none hsame) hgap
    rw [callRecords_append hreceived] at hgap
    cases hlast : (s.received i).getLast? with
    | none =>
      rw [hlast] at hgap
      exact absurd (List.IsChain.singleton rec) hgap
    | some last =>
      rw [hlast] at hgap
      have hskip : last.walSeq.toNat + 1 < rec.walSeq.toNat := by
        by_contra hle
        exact hgap (.cons_cons (Nat.le_of_not_lt hle) (.singleton rec))
      rw [hresult, hexpects expected hopen last hlast]
      exact omBusGapResult_of_skip _ hskip

theorem batch_gapless (h : StreamInv s) {maxCount : Nat}
    (hok : batchesGapless i s (.pollBatch i maxCount now now'))
    (hs : s.pollBatch i maxCount now now' = some s') : Gapless (callRecords i s s') := by
  unfold pollBatch at hs
  split at hs
  · cases hs
  dsimp only at hs
  split at hs
  · cases hs
    exact callRecords_none rfl
  · next rec hlast =>
    cases hs
    have hrecs := h.batchLoop_eq (s.tail i) maxCount
    split at hrecs
    · next hretained =>
      rw [callRecords_append (update_self ..), hrecs]
      exact hok rfl hretained
    · rw [hrecs] at hlast
      cases hlast

theorem reportsGaps_of_ok (h : StreamInv s) (hexpects : ExpectsNext i s) {as : List StreamAction}
    (hok : ActionsOk step (batchesGapless i) s as) : ReportsGaps i s as := by
  induction as generalizing s with
  | nil => trivial
  | cons a as ih =>
    intro s' hs
    have hs : s.step a = some s' := hs
    refine ⟨fun hpolls hgap => ?_, ih (h.step hs) (hexpects.step hs) (hok.2 s' hs)⟩
    cases a with
    | poll j now now' =>
      obtain rfl : j = i := hpolls
      exact .inl (poll_reports h hexpects (Option.ite_none_right_eq_some.mp hs).2 hgap)
    | pollBatch j maxCount now now' =>
      obtain rfl : j = i := hpolls
      exact absurd (batch_gapless h hok.1 (Option.ite_none_right_eq_some.mp hs).2) hgap
    | _ => exact hpolls.elim

end Reports

/-- On a stream that is not broadcast, no gap is swallowed as long as the batches find none. -/
theorem stream_gaps_reported {config : OmBusStreamConfig} {shm : OmBusShm} {i : Nat}
    {as : List StreamAction} (hcreate : omBusStreamCreate config = .ok shm)
    (hflags : config.flags.broadcast = false)
    (hok : ActionsOk step (batchesGapless i) (.start shm) as) : ReportsGaps i (.start shm) as :=
  reportsGaps_of_ok (StreamInv.start hcreate hflags) nofun hok

/-- Record 5 comes after record 1 and is polled; records 6 and 7 come in a batch. -/
def polledGap : List StreamAction :=
  [.open 0 1, .publishBatch [busRecord 1, busRecord 5, busRecord 6, busRecord 7], .producer 1,
    .poll 0 1 1, .poll 0 1 1, .pollBatch 0 4 1 1]

theorem stream_gaps_reported_polled :
    omBusStreamCreate (smallStreamConfig 4 1 0) = .ok (smallShm 4 1 0) ∧
    ActionsOk step (batchesGapless 0) (.start (smallShm 4 1 0)) polledGap ∧
    ReportsGaps 0 (.start (smallShm 4 1 0)) polledGap ∧
    (runActions step (.start (smallShm 4 1 0)) polledGap).map (fun s => s.received 0) =
      some [busRecord 1, busRecord 5, busRecord 6, busRecord 7] := by
  have hcreate : omBusStreamCreate (smallStreamConfig 4 1 0) = .ok (smallShm 4 1 0) := rfl
  have hok : ActionsOk step (batchesGapless 0) (.start (smallShm 4 1 0)) polledGap := by
    decide +kernel
  exact ⟨hcreate, hok, stream_gaps_reported hcreate rfl hok, by decide +kernel⟩

/-- The same records in one batch: it returns 4, and the poll after it finds nothing to report. -/
def batchedGap : List StreamAction :=
  [.open 0 1, .publishBatch [busRecord 1, busRecord 5, busRecord 6, busRecord 7], .producer 1,
    .pollBatch 0 4 1 1, .poll 0 1 1]

theorem stream_gap_swallowed :
    omBusStreamCreate (smallStreamConfig 4 1 0) = .ok (smallShm 4 1 0) ∧
    (runActions step (.start (smallShm 4 1 0)) batchedGap).map (fun s => s.received 0) =
      some [busRecord 1, busRecord 5, busRecord 6, busRecord 7] ∧
    ¬ReportsGaps 0 (.start (smallShm 4 1 0)) batchedGap :=
  ⟨rfl, by decide +kernel, by decide +kernel⟩

end VeloxMatch
