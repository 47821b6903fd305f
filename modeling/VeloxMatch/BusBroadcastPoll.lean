import VeloxMatch.BusBroadcastStep

namespace VeloxMatch

open BroadcastState BroadcastReport List

variable {s : BroadcastState} {i : Nat} {ep : OmBusEndpoint}

section Endpoint

variable {s : BroadcastState} {i : Nat} {ep ep' : OmBusEndpoint}

@[simp] theorem setEndpoint_endpoints : (s.setEndpoint i ep).endpoints i = some ep := by
  simp [setEndpoint]

@[simp] theorem setEndpoint_slot (pos : Nat) : (s.setEndpoint i ep).slot pos = s.slot pos := rfl

@[simp] theorem setEndpoint_flags : (s.setEndpoint i ep).flags = s.flags := rfl

@[simp] theorem setEndpoint_maxPayload : (s.setEndpoint i ep).maxPayload = s.maxPayload := rfl

@[simp] theorem setEndpoint_setEndpoint :
    (s.setEndpoint i ep).setEndpoint i ep' = s.setEndpoint i ep' := by
  simp [setEndpoint]

@[simp] theorem setEndpoint_fail (result : OmBusPollResult) :
    (s.setEndpoint i ep).fail i ep' result = s.fail i ep' result := by
  simp [fail]

@[simp] theorem setEndpoint_deliver (call : BroadcastCall) (rec : OmBusRecord) :
    (s.setEndpoint i ep).deliver i ep' call rec = s.deliver i ep' call rec := by
  simp [deliver, setEndpoint]

end Endpoint

theorem step_reader (s : BroadcastState) (i : Nat) : s.step (.reader i) = s.readerStep i := rfl

def callAction (i : Nat) : BroadcastCall → BroadcastAction
  | .poll => .poll i
  | .pollBatch => .pollBatch i 1

theorem step_callAction (he : s.endpoints i = some ep) (hidle : ep.pc = .idle)
    (call : BroadcastCall) :
    s.step (callAction i call) = some (s.setEndpoint i { ep with pc := .loadSeq call }) := by
  cases call <;>
    simp [callAction, step, withIdle, he, hidle]

def shortCall (i : Nat) (call : BroadcastCall) : List BroadcastAction :=
  [callAction i call, .reader i]

def fullCall (i : Nat) (call : BroadcastCall) : List BroadcastAction :=
  callAction i call :: replicate 4 (.reader i)

section Quiet

variable {s : BroadcastState} {i : Nat} {ep : OmBusEndpoint}

theorem shortCall_empty (h : BroadcastInv s) (he : s.endpoints i = some ep) (hidle : ep.pc = .idle)
    (hpub : s.publisher = .idle) (call : BroadcastCall) (hle : s.published.length ≤ ep.tail) :
    runActions step s (shortCall i call) = some (s.fail i ep .empty) := by
  have hcases := h.seq_cases (by rw [hpub]; rfl) ep.tail
  have hseq : (s.slot ep.tail).seq < ep.tail + 1 := by omega
  have hload : (s.setEndpoint i { ep with pc := .loadSeq call }).readerStep i =
      some (s.fail i ep .empty) := by
    simp [readerStep, hseq, fail]
  simp only [shortCall, runActions, step_callAction he hidle, Option.bind_some, step_reader, hload]

theorem shortCall_lapped (h : BroadcastInv s) (he : s.endpoints i = some ep) (hidle : ep.pc = .idle)
    (hpub : s.publisher = .idle) (call : BroadcastCall)
    (hlt : ep.tail + s.capacity < s.published.length) :
    runActions step s (shortCall i call) = some (s.fail i ep .lapped) := by
  have hcases := h.seq_cases (by rw [hpub]; rfl) ep.tail
  have hseq : ep.tail + 1 < (s.slot ep.tail).seq := by omega
  have hlow : ¬ ((s.slot ep.tail).seq = 0 ∨ (s.slot ep.tail).seq < ep.tail + 1) := by omega
  have hload : (s.setEndpoint i { ep with pc := .loadSeq call }).readerStep i =
      some (s.fail i ep .lapped) := by
    simp only [readerStep, setEndpoint_endpoints, setEndpoint_slot, if_neg hlow, if_pos hseq,
      setEndpoint_fail]
    rfl
  simp only [shortCall, runActions, step_callAction he hidle, Option.bind_some, step_reader, hload]

theorem fullCall_delivers (h : BroadcastInv s) (he : s.endpoints i = some ep)
    (hidle : ep.pc = .idle) (hpub : s.publisher = .idle) (call : BroadcastCall) {rec : OmBusRecord}
    (hrec : s.published[ep.tail]? = some rec) (hle : s.published.length ≤ ep.tail + s.capacity) :
    runActions step s (fullCall i call) = some (s.deliver i ep call rec) := by
  have hlt := (List.getElem?_eq_some_iff.mp hrec).1
  have hcases := h.seq_cases (by rw [hpub]; rfl) ep.tail
  have hseq : (s.slot ep.tail).seq = ep.tail + 1 := by omega
  obtain ⟨rec', hrec', -, hheader, hbytes⟩ := h.view_of_seq hseq
  cases hrec.symm.trans hrec'
  have hsize : ¬ s.maxPayload < rec.payload.length :=
    Nat.not_lt.mpr (h.sizes rec (mem_of_getElem? hrec))
  have hcrc : ¬ (s.flags.crc = true ∧
      omBusCrc32 rec.payload ≠ (headerOf s.flags rec).crc32) := by
    rintro ⟨hflag, hne⟩
    simp [headerOf, hflag] at hne
  have hload : (s.setEndpoint i { ep with pc := .loadSeq call }).readerStep i =
      some (s.setEndpoint i { ep with pc := .header call }) := by
    simp [readerStep, hseq]
  have hread : (s.setEndpoint i { ep with pc := .header call }).readerStep i =
      some (s.setEndpoint i { ep with pc := .copy call (headerOf s.flags rec) }) := by
    simp [readerStep, hheader, headerOf, hsize]
  have hcopy : (s.setEndpoint i { ep with pc := .copy call (headerOf s.flags rec) }).readerStep i =
      some (s.setEndpoint i
        { ep with pc := .reload call (headerOf s.flags rec) rec.payload }) := by
    simp [readerStep, headerOf, hbytes]
  have hreload : (s.setEndpoint i
      { ep with pc := .reload call (headerOf s.flags rec) rec.payload }).readerStep i =
      some (s.deliver i ep call rec) := by
    simp only [readerStep, setEndpoint_endpoints, setEndpoint_slot, hseq, ne_eq,
      not_true_eq_false, if_false, setEndpoint_flags, if_neg hcrc, setEndpoint_deliver]
    rfl
  simp only [fullCall, replicate, runActions, step_callAction he hidle, Option.bind_some,
    step_reader, hload, hread, hcopy, hreload]

end Quiet

def fullCalls (i : Nat) (call : BroadcastCall) (n : Nat) : List BroadcastAction :=
  (replicate n (fullCall i call)).flatten

theorem fullCalls_deliver (call : BroadcastCall) (n : Nat) (h : BroadcastInv s)
    (he : s.endpoints i = some ep) (hidle : ep.pc = .idle) (hpub : s.publisher = .idle)
    (hn : ep.tail + n ≤ s.published.length) (hle : s.published.length ≤ ep.tail + s.capacity) :
    ∃ s' ep', runActions step s (fullCalls i call n) = some s' ∧ BroadcastInv s' ∧
      s'.endpoints i = some ep' ∧ ep'.pc = .idle ∧ ep'.tail = ep.tail + n ∧
      s'.publisher = .idle ∧ s'.published = s.published ∧
      (s'.reports i).map record =
        (s.reports i).map record ++ (s.published.drop ep.tail).take n := by
  induction n generalizing s ep with
  | zero => exact ⟨s, ep, rfl, h, he, hidle, rfl, hpub, rfl, by simp⟩
  | succ n ih =>
    have hlt : ep.tail < s.published.length := by omega
    have hrec := getElem?_eq_getElem hlt
    have hfirst := fullCall_delivers h he hidle hpub call hrec hle
    have hinv : BroadcastInv (s.deliver i ep call s.published[ep.tail]) :=
      h.deliver (h.endpoints i ep he) hrec
    have hnext : (s.deliver i ep call s.published[ep.tail]).endpoints i = some
        ⟨ep.tail + 1, s.published[ep.tail].walSeq + 1, .idle, callResult s.flags call
          ep.expectedWalSeq s.published[ep.tail].walSeq, some ep.tail⟩ := by
      simp [deliver, setEndpoint]
    obtain ⟨s', ep', hrest, hinv', he', hidle', htail', hpub', hpublished, hreports⟩ :=
      ih hinv hnext rfl hpub (by simp only [deliver, setEndpoint]; omega)
        (by simp only [deliver, setEndpoint]; omega)
    have htail' : ep'.tail = ep.tail + 1 + n := htail'
    refine ⟨s', ep', ?_, hinv', he', hidle', by omega, hpub', hpublished, ?_⟩
    · rw [fullCalls, replicate_succ, flatten_cons, runActions_append, hfirst]
      exact hrest
    · rw [hreports, drop_eq_getElem_cons hlt, take_succ_cons]
      simp [deliver, setEndpoint]

theorem rewind_delivers (h : BroadcastInv s) (he : s.endpoints i = some ep) (hidle : ep.pc = .idle)
    (hpub : s.publisher = .idle) (call : BroadcastCall) :
    ∃ s' ep', runActions step s (.rewindRetained i ::
        (fullCalls i call (min s.headPos s.capacity) ++ shortCall i call)) = some s' ∧
      s'.endpoints i = some ep' ∧ ep'.result = .empty ∧
      (s'.reports i).map record = (s.reports i).map record ++
        s.published.drop (s.published.length - min s.headPos s.capacity) := by
  have hhead := h.publisher
  rw [hpub] at hhead
  have hhead : s.headPos = s.published.length := hhead
  have hstart : s.retainedStart + min s.headPos s.capacity = s.published.length := by
    unfold retainedStart
    split <;> omega
  have hrewind : s.step (.rewindRetained i) = some (s.setEndpoint i
      { ep with tail := s.retainedStart, expectedWalSeq := 0, since := none }) := by
    simp [step, withIdle, he, hidle]
  obtain ⟨s', ep', hcalls, hinv', he', hidle', htail', hpub', hpublished, hreports⟩ :=
    fullCalls_deliver call (min s.headPos s.capacity) (h.step hrewind) setEndpoint_endpoints hidle
      hpub (Nat.le_of_eq hstart) (by simp only [setEndpoint]; omega)
  have hdone : s'.published.length ≤ ep'.tail := by
    rw [hpublished, htail']
    exact Nat.le_of_eq hstart.symm
  have hend := shortCall_empty hinv' he' hidle' hpub' call hdone
  refine ⟨s'.fail i ep' .empty, { ep' with pc := .idle, result := .empty }, ?_, ?_, rfl, ?_⟩
  · rw [runActions, hrewind, Option.bind_some, runActions_append, hcalls]
    exact hend
  · exact setEndpoint_endpoints
  · refine Eq.trans ?_ (hreports.trans ?_)
    · rfl
    · have htake : (s.published.drop s.retainedStart).take (min s.headPos s.capacity) =
          s.published.drop s.retainedStart := take_of_length_le (by
        rw [length_drop]
        omega)
      rw [show s.published.length - min s.headPos s.capacity = s.retainedStart by omega]
      exact congrArg ((s.reports i).map record ++ ·) htake

def Consecutive (base : Nat) (published : List OmBusRecord) : Prop :=
  ∀ p rec, published[p]? = some rec → rec.walSeq.toNat = base + p

theorem gapDetected_of_skipped (h : BroadcastInv s) {base : Nat}
    (hseq : Consecutive base s.published) {r : BroadcastReport} (hr : r ∈ s.reports i) {p : Nat}
    (hsince : r.since = some p) (hskip : p + 1 < r.position) (hcall : r.call = .poll) :
    r.result = .gapDetected := by
  have hok := h.reports i r hr
  have hpos := (List.getElem?_eq_some_iff.mp hok.record).1
  have hp : p < s.published.length := by omega
  have hget := List.getElem?_eq_getElem hp
  have hlast := hseq p _ hget
  have hthis := hseq r.position _ hok.record
  have hresult := hok.result
  rw [hcall, hsince] at hresult
  simp only [callResult, expectedAfter, Option.bind_some, hget] at hresult
  rw [hresult]
  exact omBusGapResult_of_skip _ (by omega)

/-- A broadcast stream delivers what was published at the tail; while nothing is published, a
record that is gone is reported and one that is held is delivered; a rewind yields the last lap;
and records that were skipped are reported, if the first one behind them comes from a poll. -/
theorem broadcast_delivers_published {config : OmBusStreamConfig} {shm : OmBusShm}
    {s : BroadcastState} (hcreate : omBusStreamCreate config = .ok shm)
    (hrun : Runs step anyAction (.start shm) s) (i : Nat) :
    (∀ r ∈ s.reports i, s.published[r.position]? = some r.record) ∧
    (∀ base, Consecutive base s.published → ∀ r ∈ s.reports i, ∀ p, r.since = some p →
      p + 1 < r.position → r.call = .poll → r.result = .gapDetected) ∧
    ∀ ep, s.endpoints i = some ep → ep.pc = .idle → s.publisher = .idle → ∀ call,
      (ep.tail + s.capacity < s.published.length →
        runActions step s (shortCall i call) = some (s.fail i ep .lapped)) ∧
      (s.published.length ≤ ep.tail + s.capacity → ∀ rec, s.published[ep.tail]? = some rec →
        runActions step s (fullCall i call) = some (s.deliver i ep call rec)) ∧
      ∃ s' ep', runActions step s (.rewindRetained i ::
          (fullCalls i call (min s.headPos s.capacity) ++ shortCall i call)) = some s' ∧
        s'.endpoints i = some ep' ∧ ep'.result = .empty ∧
        (s'.reports i).map record = (s.reports i).map record ++
          s.published.drop (s.published.length - min s.headPos s.capacity) := by
  have h := broadcastInv_of_runs hcreate hrun
  refine ⟨fun r hr => (h.reports i r hr).record,
    fun base hseq r hr p hsince hskip hcall => gapDetected_of_skipped h hseq hr hsince hskip hcall,
    fun ep he hidle hpub call => ⟨fun hlt => shortCall_lapped h he hidle hpub call hlt,
      fun hle rec hrec => fullCall_delivers h he hidle hpub call hrec hle,
      rewind_delivers h he hidle hpub call⟩⟩

def smallBroadcast (capacity : Nat) : OmBusShm where
  capacity := capacity
  mask := capacity - 1
  maxPayload := 40
  maxConsumers := 1
  flags := ⟨true, false, true⟩
  stalenessNs := 0
  slots := fun i => ⟨i, ⟨⟨0, 0, []⟩, 0⟩⟩
  buffers := fun _ => replicate 40 0
  head := 0
  minTail := 0
  tails := fun _ => ⟨0, 0, 0⟩

def publishOne (walSeq : UInt64) : List BroadcastAction :=
  .publish ⟨walSeq, 1, [walSeq.toUInt8]⟩ :: replicate 5 .publisher

/-- A record is delivered, two are skipped by a seek to the head, and one more is published. -/
def skipActions : List BroadcastAction :=
  [.open 0] ++ publishOne 1 ++ fullCall 0 .poll ++ publishOne 2 ++ publishOne 3 ++
    [.seekHead 0] ++ publishOne 4

theorem broadcast_delivers_published_skip :
    omBusStreamCreate ⟨2, 64, 1, ⟨true, false, true⟩, 0⟩ = .ok (smallBroadcast 2) ∧
    ∃ s, Runs step anyAction (.start (smallBroadcast 2)) s ∧
      (s.reports 0).map position = [0, 3] ∧
      (s.reports 0).map result = [.delivered, .gapDetected] ∧
      ∀ r ∈ s.reports 0, s.published[r.position]? = some r.record := by
  have hcreate : omBusStreamCreate ⟨2, 64, 1, ⟨true, false, true⟩, 0⟩ = .ok (smallBroadcast 2) :=
    rfl
  obtain ⟨s, hrun, hreports, hresults⟩ := exists_runs step anyAction
    (.start (smallBroadcast 2)) (skipActions ++ fullCall 0 .poll)
    (fun s => (s.reports 0).map position = [0, 3] ∧
      (s.reports 0).map result = [.delivered, .gapDetected])
    (by decide +kernel) (by decide +kernel)
  exact ⟨hcreate, s, hrun, hreports, hresults, (broadcast_delivers_published hcreate hrun 0).1⟩

/-- A batch poll delivers the record behind the skipped ones like any other. -/
theorem broadcast_batch_hides_gap :
    omBusStreamCreate ⟨2, 64, 1, ⟨true, false, true⟩, 0⟩ = .ok (smallBroadcast 2) ∧
    ∃ s, Runs step anyAction (.start (smallBroadcast 2)) s ∧
      s.published.map OmBusRecord.walSeq = [1, 2, 3, 4] ∧
      s.reports 0 = [⟨none, 0, .poll, .delivered, ⟨1, 1, [1]⟩⟩,
        ⟨some 0, 3, .pollBatch, .delivered, ⟨4, 1, [4]⟩⟩] := by
  refine ⟨rfl, ?_⟩
  exact exists_runs step anyAction (.start (smallBroadcast 2))
    (skipActions ++ fullCall 0 .pollBatch)
    (fun s => s.published.map OmBusRecord.walSeq = [1, 2, 3, 4] ∧
      s.reports 0 = [⟨none, 0, .poll, .delivered, ⟨1, 1, [1]⟩⟩,
        ⟨some 0, 3, .pollBatch, .delivered, ⟨4, 1, [4]⟩⟩])
    (by decide +kernel) (by decide +kernel)

end VeloxMatch
