import VeloxMatch.BusShmStep

namespace VeloxMatch

open StreamState

section Runs

variable {config : OmBusStreamConfig} {shm : OmBusShm} {s s' : StreamState}

theorem StreamMove.stalenessNs {a : StreamAction} (h : StreamMove s a s') :
    s'.shm.stalenessNs = s.shm.stalenessNs := by
  cases h with
  | publish hsizes hroom hpc => rw [publishSlots_eq]
  | delivers hd hnow hpoint clock lastCall =>
    unfold deliver
    rw [advance_eq]
    rfl
  | stay clock lastCall | begin hidle hsizes | spin spins' hpc | refresh spins' now hpc hpoint
  | opens ha hnone hnow hi | closes i => rfl

variable (hcreate : omBusStreamCreate config = .ok shm) (hflags : config.flags.broadcast = false)
include hcreate hflags

theorem streamInv_of_runs {ok : StreamState → StreamAction → Prop}
    (hrun : Runs step ok (.start shm) s) : StreamInv s :=
  hrun.invariant (P := StreamInv) (StreamInv.start hcreate hflags) fun _ _ _ h _ hs => h.step hs

theorem follows_of_runs {i : Nat} (hrun : Runs step (countsAlways i) (.start shm) s) :
    StreamInv s ∧ (s.endpoints i ≠ none → Follows s i) :=
  hrun.invariant (P := fun s => StreamInv s ∧ (s.endpoints i ≠ none → Follows s i))
    ⟨StreamInv.start hcreate hflags, fun hopen => absurd rfl hopen⟩
    fun _ _ _ h hok hs => ⟨h.1.step hs, Follows.step h.1 h.2 hok hs⟩

theorem countsAlways_of_no_staleness (hstale : shm.stalenessNs = 0)
    (hrun : Runs step opensAnnounced (.start shm) s) (i : Nat) :
    Runs step (countsAlways i) (.start shm) s := by
  have hboth := hrun.invariant
    (P := fun s => (StreamInv s ∧ s.shm.stalenessNs = 0) ∧
      Runs step (countsAlways i) (.start shm) s)
    ⟨⟨StreamInv.start hcreate hflags, hstale⟩, .start⟩
    fun s a s' ⟨⟨hinv, hzero⟩, hr⟩ hok hs =>
      ⟨⟨hinv.step hs, (hinv.move hs).stalenessNs.trans hzero⟩,
        hr.step a ⟨hok, fun _ _ _ => Or.inl hzero⟩ hs⟩
  exact hboth.2

end Runs

/-- Every record that endpoint `i` has not got is still in its slot. -/
def StreamState.Unread (s : StreamState) (i : Nat) : Prop :=
  ∀ p rec, s.tail i ≤ p → s.published[p]? = some rec →
    s.shm.slot p = ⟨p + 1, s.shm.slotData rec⟩

theorem StreamInv.unread {s : StreamState} (h : StreamInv s) {i : Nat}
    (hretained : s.published.length ≤ s.tail i + s.shm.capacity) : s.Unread i := by
  intro p rec hp hrec
  have hcell := h.stamped.retained p (s.shm.slotData rec)
    (by rw [List.getElem?_map, hrec, Option.map_some]) (by rw [List.length_map]; omega)
  simpa only [OmBusShm.slot, h.mask, land_mask h.pow] using hcell

theorem StreamInv.batchLoop_nil_iff {s : StreamState} (h : StreamInv s) {i maxCount : Nat}
    (hmax : maxCount ≠ 0) : batchLoop s.shm (s.tail i) maxCount = [] ↔
      s.published.length ≤ s.tail i ∨ s.tail i + s.shm.capacity < s.published.length := by
  rw [h.batchLoop_eq]
  split
  · next hle =>
    rw [List.take_eq_nil_iff, List.drop_eq_nil_iff]
    omega
  · next hle =>
    simp only [true_iff]
    omega

/-- If endpoints are opened only when everything written is announced, each gets the records
from its opening on, one by one, none is written over before, and it is told that there is
nothing only when there is nothing. -/
theorem stream_delivers_in_order {config : OmBusStreamConfig} {shm : OmBusShm} {s : StreamState}
    (hcreate : omBusStreamCreate config = .ok shm) (hflags : config.flags.broadcast = false)
    (hstale : shm.stalenessNs = 0) (hrun : Runs step opensAnnounced (.start shm) s) {i : Nat}
    {e : UInt64} (hopen : s.endpoints i = some e) :
    s.tail i = s.opening i + (s.received i).length ∧
    (∀ k rec, (s.received i)[k]? = some rec → s.published[s.opening i + k]? = some rec) ∧
    s.Unread i ∧
    (s.pollResult i e = .empty → s.published.length ≤ s.tail i) ∧
    ∀ maxCount, maxCount ≠ 0 → batchLoop s.shm (s.tail i) maxCount = [] →
      s.published.length ≤ s.tail i := by
  obtain ⟨hinv, hfollows⟩ := follows_of_runs hcreate hflags
    (countsAlways_of_no_staleness hcreate hflags hstale hrun i)
  have h := hfollows (by simp [hopen])
  have htail := (hinv.opened i e hopen).1
  have hopening := h.opening
  have hretained := h.retained
  refine ⟨?_, ?_, hinv.unread hretained, ?_, ?_⟩
  · rw [h.received, List.length_drop, List.length_take]
    omega
  · intro k rec hk
    rw [h.received, List.getElem?_drop, List.getElem?_take] at hk
    split at hk
    · exact hk
    · cases hk
  · intro hempty
    have := (hinv.pollResult_empty_iff i e).mp hempty
    omega
  · intro maxCount hmax hnil
    have := (hinv.batchLoop_nil_iff hmax).mp hnil
    omega

def smallShm (capacity maxConsumers : Nat) (stalenessNs : UInt64) : OmBusShm where
  capacity := capacity
  mask := capacity - 1
  maxPayload := 40
  maxConsumers := maxConsumers
  flags := ⟨true, false, false⟩
  stalenessNs := stalenessNs
  slots := fun i => ⟨i, ⟨⟨0, 0, []⟩, 0⟩⟩
  buffers := fun _ => List.replicate 40 0
  head := 0
  minTail := 0
  tails := fun _ => ⟨0, 0, 0⟩

def smallStreamConfig (capacity maxConsumers : Nat) (stalenessNs : UInt64) : OmBusStreamConfig :=
  ⟨capacity, 64, maxConsumers, ⟨true, false, false⟩, stalenessNs⟩

def busRecord (walSeq : UInt64) : OmBusRecord := ⟨walSeq, 1, [walSeq.toUInt8]⟩

theorem stream_delivers_in_order_small :
    omBusStreamCreate (smallStreamConfig 2 2 0) = .ok (smallShm 2 2 0) ∧
    ∃ s, Runs step opensAnnounced (.start (smallShm 2 2 0)) s ∧
      s.endpoints 0 = some 3 ∧ s.received 0 = [busRecord 1, busRecord 2] ∧
      s.tail 0 = s.opening 0 + 2 ∧ s.Unread 0 := by
  have hcreate : omBusStreamCreate (smallStreamConfig 2 2 0) = .ok (smallShm 2 2 0) := rfl
  obtain ⟨s, hrun, hopen, hreceived⟩ := exists_runs step opensAnnounced
    (.start (smallShm 2 2 0))
    [.open 0 1, .publish (busRecord 1), .producer 1, .poll 0 1 1,
      .publishBatch [busRecord 2, busRecord 3], .producer 2, .poll 0 2 2]
    (fun s => s.endpoints 0 = some 3 ∧ s.received 0 = [busRecord 1, busRecord 2])
    (by decide +kernel) (by decide +kernel)
  obtain ⟨htail, -, hunread, -⟩ := stream_delivers_in_order hcreate rfl rfl hrun hopen
  rw [hreceived] at htail
  exact ⟨hcreate, s, hrun, hopen, hreceived, htail, hunread⟩

/-- A batch of four waits for space after two records, the first endpoint takes them, the second
is opened at the head that is still announced, and the rest of the batch is written over what it
has not read. It is then told that there is nothing. -/
theorem stream_open_during_batch_loses :
    omBusStreamCreate (smallStreamConfig 2 2 0) = .ok (smallShm 2 2 0) ∧
    ∃ s, Runs step anyAction (.start (smallShm 2 2 0)) s ∧
      s.endpoints 1 = some 0 ∧ s.producer = .idle ∧ s.tail 1 = 0 ∧ s.opening 1 = 0 ∧
      s.published.length = 4 ∧ (s.shm.slot 0).seq = 3 ∧ s.pollResult 1 0 = .empty ∧
      batchLoop s.shm (s.tail 1) 4 = [] := by
  refine ⟨rfl, ?_⟩
  exact exists_runs step anyAction (.start (smallShm 2 2 0))
    [.open 0 1, .publishBatch [busRecord 1, busRecord 2, busRecord 3, busRecord 4], .producer 1,
      .pollBatch 0 2 1 1, .open 1 1, .producer 1]
    (fun s => s.endpoints 1 = some 0 ∧ s.producer = .idle ∧ s.tail 1 = 0 ∧ s.opening 1 = 0 ∧
      s.published.length = 4 ∧ (s.shm.slot 0).seq = 3 ∧ s.pollResult 1 0 = .empty ∧
      batchLoop s.shm (s.tail 1) 4 = [])
    (by decide +kernel) (by decide +kernel)

/-- An endpoint is told truthfully that there is nothing exactly if what it has not read is
still in the ring. -/
theorem stream_empty_truthful_iff {config : OmBusStreamConfig} {shm : OmBusShm} {s : StreamState}
    (hcreate : omBusStreamCreate config = .ok shm) (hflags : config.flags.broadcast = false)
    (hrun : Runs step anyAction (.start shm) s) {i : Nat} {e : UInt64}
    (hopen : s.endpoints i = some e) :
    s.tail i ≤ s.published.length ∧
    ((s.pollResult i e = .empty → s.published.length ≤ s.tail i) ↔
      s.published.length ≤ s.tail i + s.shm.capacity) ∧
    ∀ maxCount, maxCount ≠ 0 →
      ((batchLoop s.shm (s.tail i) maxCount = [] → s.published.length ≤ s.tail i) ↔
        s.published.length ≤ s.tail i + s.shm.capacity) := by
  have hinv := streamInv_of_runs hcreate hflags hrun
  refine ⟨(hinv.opened i e hopen).1, ?_, fun maxCount hmax => ?_⟩
  · rw [hinv.pollResult_empty_iff]
    omega
  · rw [hinv.batchLoop_nil_iff hmax]
    omega

theorem stream_empty_truthful_small :
    omBusStreamCreate (smallStreamConfig 1 1 5) = .ok (smallShm 1 1 5) ∧
    ∃ s, Runs step anyAction (.start (smallShm 1 1 5)) s ∧
      s.endpoints 0 = some 0 ∧ s.published.length = 1 ∧ s.pollResult 0 0 ≠ .empty := by
  have hcreate : omBusStreamCreate (smallStreamConfig 1 1 5) = .ok (smallShm 1 1 5) := rfl
  obtain ⟨s, hrun, hopen, hlen, htail, hcap⟩ := exists_runs step anyAction
    (.start (smallShm 1 1 5)) [.open 0 1, .publish (busRecord 1), .producer 1]
    (fun s => s.endpoints 0 = some 0 ∧ s.published.length = 1 ∧ s.tail 0 = 0 ∧
      s.shm.capacity = 1)
    (by decide +kernel) (by decide +kernel)
  obtain ⟨-, htruthful, -⟩ := stream_empty_truthful_iff hcreate rfl hrun hopen
  refine ⟨hcreate, s, hrun, hopen, hlen, fun hempty => ?_⟩
  have := htruthful.mpr (by omega) hempty
  omega

/-- A consumer that was dropped as stale has its unread record written over and is told that
there is nothing, also by later polls. -/
theorem stream_stale_consumer_silent :
    omBusStreamCreate (smallStreamConfig 1 1 5) = .ok (smallShm 1 1 5) ∧
    ∃ s, Runs step anyAction (.start (smallShm 1 1 5)) s ∧
      s.endpoints 0 = some 0 ∧ s.tail 0 = 0 ∧ s.published.length = 2 ∧ s.received 0 = [] ∧
      s.pollResult 0 0 = .empty ∧ batchLoop s.shm (s.tail 0) 4 = [] := by
  refine ⟨rfl, ?_⟩
  exact exists_runs step anyAction (.start (smallShm 1 1 5))
    [.open 0 1, .publish (busRecord 1), .producer 1, .publish (busRecord 2), .producer 100,
      .producer 100, .poll 0 100 100, .pollBatch 0 4 101 101]
    (fun s => s.endpoints 0 = some 0 ∧ s.tail 0 = 0 ∧ s.published.length = 2 ∧
      s.received 0 = [] ∧ s.pollResult 0 0 = .empty ∧ batchLoop s.shm (s.tail 0) 4 = [])
    (by decide +kernel) (by decide +kernel)

/-- An endpoint whose last delivery, or opening, is recent wherever the minimum is evaluated is
never overrun. -/
theorem stream_recent_consumer_kept {config : OmBusStreamConfig} {shm : OmBusShm} {s : StreamState}
    (hcreate : omBusStreamCreate config = .ok shm) (hflags : config.flags.broadcast = false)
    {i : Nat} (hrun : Runs step (countsAlways i) (.start shm) s) (hopen : s.endpoints i ≠ none) :
    s.Unread i ∧ s.published.length ≤ s.tail i + s.shm.capacity := by
  obtain ⟨hinv, hfollows⟩ := follows_of_runs hcreate hflags hrun
  have hretained := (hfollows hopen).retained
  exact ⟨hinv.unread hretained, hretained⟩

/-- The second record waits for the first to be delivered. -/
theorem stream_recent_consumer_kept_small :
    omBusStreamCreate (smallStreamConfig 1 1 5) = .ok (smallShm 1 1 5) ∧
    ∃ s, Runs step (countsAlways 0) (.start (smallShm 1 1 5)) s ∧
      s.endpoints 0 ≠ none ∧ s.published.length = 2 ∧ s.received 0 = [busRecord 1] ∧
      s.Unread 0 := by
  have hcreate : omBusStreamCreate (smallStreamConfig 1 1 5) = .ok (smallShm 1 1 5) := rfl
  obtain ⟨s, hrun, hopen, hlen, hreceived⟩ := exists_runs step (countsAlways 0)
    (.start (smallShm 1 1 5))
    [.open 0 1, .publish (busRecord 1), .producer 1, .publish (busRecord 2), .producer 6,
      .poll 0 9 9, .producer 9]
    (fun s => s.endpoints 0 ≠ none ∧ s.published.length = 2 ∧ s.received 0 = [busRecord 1])
    (by decide +kernel) (by decide +kernel)
  exact ⟨hcreate, s, hrun, hopen, hlen, hreceived,
    (stream_recent_consumer_kept hcreate rfl hrun hopen).1⟩

/-- Wherever the minimum is evaluated, the last poll of endpoint `i`, whatever it returned, or
its opening, is recent. -/
def polledRecently (i : Nat) (s : StreamState) (a : StreamAction) : Prop :=
  ∀ p ∈ refreshPoint s a, s.endpoints i ≠ none → p.2 - s.lastCall i ≤ s.shm.stalenessNs

instance (i : Nat) (s : StreamState) (a : StreamAction) : Decidable (polledRecently i s a) :=
  inferInstanceAs (Decidable (∀ p ∈ refreshPoint s a, _ → _))

/-- A poll that finds nothing leaves no time behind: an endpoint that polls all the time is
dropped when a record comes at last, and the next record is written over it. -/
theorem stream_polling_consumer_overrun :
    omBusStreamCreate (smallStreamConfig 1 1 5) = .ok (smallShm 1 1 5) ∧
    ∃ s, Runs step (polledRecently 0) (.start (smallShm 1 1 5)) s ∧
      s.endpoints 0 = some 0 ∧ s.tail 0 = 0 ∧ s.received 0 = [] ∧ s.published.length = 2 ∧
      (s.shm.slot 0).seq = 2 := by
  refine ⟨rfl, ?_⟩
  exact exists_runs step (polledRecently 0) (.start (smallShm 1 1 5))
    [.open 0 1, .poll 0 5 5, .poll 0 10 10, .publish (busRecord 1), .producer 10,
      .publish (busRecord 2), .producer 11, .producer 11]
    (fun s => s.endpoints 0 = some 0 ∧ s.tail 0 = 0 ∧ s.received 0 = [] ∧
      s.published.length = 2 ∧ (s.shm.slot 0).seq = 2)
    (by decide +kernel) (by decide +kernel)

end VeloxMatch
