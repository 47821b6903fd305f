import VeloxMatch.BusShm

namespace VeloxMatch

open Function

structure OmBusSlotHeader where
  walSeq : UInt64
  walType : UInt8
  payloadLen : Nat
  crc32 : UInt32
  deriving DecidableEq, Repr

/-- A slot with its stamp, the other fields of its header, and its payload bytes. -/
structure OmBusSlot where
  seq : Nat
  header : OmBusSlotHeader
  buffer : List UInt8
  deriving DecidableEq, Repr

/-- Where the publisher of a broadcast stream stands: before the store of 0 to the stamp, the
copy of the payload, the stores to the header, the store of the new stamp, and the store of the
head that follows the last record. -/
inductive WritePc where
  | idle
  | clear (pos : Nat) (rec : OmBusRecord) (rest : List OmBusRecord)
  | payload (pos : Nat) (rec : OmBusRecord) (rest : List OmBusRecord)
  | header (pos : Nat) (rec : OmBusRecord) (rest : List OmBusRecord)
  | stamp (pos : Nat) (rec : OmBusRecord) (rest : List OmBusRecord)
  | head (pos : Nat)
  deriving DecidableEq, Repr

inductive BroadcastCall where
  | poll
  | pollBatch
  deriving DecidableEq, Repr

/-- Where a reader stands: before the load of the stamp, the loads of the header, the copy of the
payload, and the second load of the stamp, with which the call ends. -/
inductive ReadPc where
  | idle
  | loadSeq (call : BroadcastCall)
  | header (call : BroadcastCall)
  | copy (call : BroadcastCall) (header : OmBusSlotHeader)
  | reload (call : BroadcastCall) (header : OmBusSlotHeader) (bytes : List UInt8)
  deriving DecidableEq, Repr

/-- An endpoint of a broadcast stream. `result` is what its last poll returned; `since` is the
position it last got a record for, since it was opened or rewound. -/
structure OmBusEndpoint where
  tail : Nat
  expectedWalSeq : UInt64
  pc : ReadPc
  result : OmBusPollResult
  since : Option Nat
  deriving DecidableEq, Repr

structure BroadcastReport where
  since : Option Nat
  position : Nat
  call : BroadcastCall
  result : OmBusPollResult
  record : OmBusRecord
  deriving DecidableEq, Repr

/-- A broadcast stream, its publisher and its endpoints. The producer does not look at the
consumers, so their lines in shared memory hold only what the endpoints themselves read.
`published` are the records in the order of their positions. -/
structure BroadcastState where
  capacity : Nat
  mask : Nat
  maxPayload : Nat
  flags : OmBusFlags
  slots : Nat → OmBusSlot
  headPos : Nat
  publisher : WritePc
  endpoints : Nat → Option OmBusEndpoint
  published : List OmBusRecord
  reports : Nat → List BroadcastReport

inductive BroadcastAction where
  | publish (rec : OmBusRecord)
  | publishBatch (recs : List OmBusRecord)
  | publisher
  | open (i : Nat)
  | poll (i : Nat)
  | pollBatch (i maxCount : Nat)
  | reader (i : Nat)
  | seekHead (i : Nat)
  | rewindRetained (i : Nat)
  deriving DecidableEq, Repr

namespace BroadcastState

def start (shm : OmBusShm) : BroadcastState where
  capacity := shm.capacity
  mask := shm.mask
  maxPayload := shm.maxPayload
  flags := shm.flags
  slots := fun i => ⟨i, ⟨0, 0, 0, 0⟩, List.replicate shm.maxPayload 0⟩
  headPos := 0
  publisher := .idle
  endpoints := fun _ => none
  published := []
  reports := fun _ => []

variable (s : BroadcastState)

def slot (pos : Nat) : OmBusSlot := s.slots (pos &&& s.mask)

def setSlot (pos : Nat) (slot : OmBusSlot) : BroadcastState :=
  { s with slots := update s.slots (pos &&& s.mask) slot }

def headerOf (flags : OmBusFlags) (rec : OmBusRecord) : OmBusSlotHeader :=
  ⟨rec.walSeq, rec.walType, rec.payload.length, if flags.crc then omBusCrc32 rec.payload else 0⟩

def startPublish (recs : List OmBusRecord) : Option BroadcastState :=
  match s.publisher with
  | .idle =>
    if recs.any (fun rec => s.maxPayload < rec.payload.length) then some s
    else
      match recs with
      | [] => some s
      | rec :: rest => some { s with publisher := .clear s.headPos rec rest }
  | _ => none

/-- The next step of `_om_bus_publish_slot`, or the store of the head. -/
def publisherStep : Option BroadcastState :=
  match s.publisher with
  | .idle => none
  | .clear pos rec rest =>
    some { s.setSlot pos { s.slot pos with seq := 0 } with publisher := .payload pos rec rest }
  | .payload pos rec rest =>
    let slot := { s.slot pos with buffer := overwrite (s.slot pos).buffer rec.payload }
    some { s.setSlot pos slot with publisher := .header pos rec rest }
  | .header pos rec rest =>
    some { s.setSlot pos { s.slot pos with header := headerOf s.flags rec } with
      publisher := .stamp pos rec rest }
  | .stamp pos rec rest =>
    some { s.setSlot pos { s.slot pos with seq := pos + 1 } with
      publisher :=
        match rest with
        | [] => .head (pos + 1)
        | next :: rest => .clear (pos + 1) next rest
      published := s.published ++ [rec] }
  | .head pos => some { s with headPos := pos, publisher := .idle }

def setEndpoint (i : Nat) (ep : OmBusEndpoint) : BroadcastState :=
  { s with endpoints := update s.endpoints i (some ep) }

def fail (i : Nat) (ep : OmBusEndpoint) (result : OmBusPollResult) : BroadcastState :=
  s.setEndpoint i { ep with pc := .idle, result := result }

/-- Only `om_bus_endpoint_poll` compares with the expected sequence number. -/
def callResult (flags : OmBusFlags) (call : BroadcastCall) (expected walSeq : UInt64) :
    OmBusPollResult :=
  match call with
  | .poll => omBusGapResult flags expected walSeq
  | .pollBatch => .delivered

def deliver (i : Nat) (ep : OmBusEndpoint) (call : BroadcastCall)
    (rec : OmBusRecord) : BroadcastState :=
  let result := callResult s.flags call ep.expectedWalSeq rec.walSeq
  { s.setEndpoint i
      { tail := ep.tail + 1
        expectedWalSeq := rec.walSeq + 1
        pc := .idle
        result := result
        since := some ep.tail } with
    reports := update s.reports i
      (s.reports i ++ [⟨ep.since, ep.tail, call, result, rec⟩]) }

/-- The next step of a poll. A batch takes one record at most in this mode. -/
def readerStep (i : Nat) : Option BroadcastState :=
  match s.endpoints i with
  | none => none
  | some ep =>
    let slot := s.slot ep.tail
    match ep.pc with
    | .idle => none
    | .loadSeq call =>
      if slot.seq = 0 ∨ slot.seq < ep.tail + 1 then some (s.fail i ep .empty)
      else if ep.tail + 1 < slot.seq then some (s.fail i ep .lapped)
      else some (s.setEndpoint i { ep with pc := .header call })
    | .header call =>
      if call = .poll ∧ s.maxPayload < slot.header.payloadLen then
        some (s.fail i ep .recordTooLarge)
      else some (s.setEndpoint i { ep with pc := .copy call slot.header })
    | .copy call header =>
      some (s.setEndpoint i
        { ep with pc := .reload call header (slot.buffer.take header.payloadLen) })
    | .reload call header bytes =>
      if slot.seq ≠ ep.tail + 1 then some (s.fail i ep .lapped)
      else if s.flags.crc ∧ omBusCrc32 bytes ≠ header.crc32 then
        some (s.fail i ep (if call = .poll then .crcMismatch else .empty))
      else some (s.deliver i ep call ⟨header.walSeq, header.walType, bytes⟩)

def withIdle (i : Nat) (f : OmBusEndpoint → OmBusEndpoint) : Option BroadcastState :=
  match s.endpoints i with
  | none => none
  | some ep => if ep.pc = .idle then some (s.setEndpoint i (f ep)) else none

def openEndpoint (i : Nat) : Option BroadcastState :=
  match s.endpoints i with
  | none =>
    some { s.setEndpoint i ⟨s.headPos, 0, .idle, .empty, none⟩ with
      reports := update s.reports i [] }
  | some _ => none

/-- Where `om_bus_endpoint_rewind_retained` puts the tail. -/
def retainedStart : Nat :=
  if s.capacity < s.headPos then s.headPos - s.capacity else 0

def step : BroadcastAction → Option BroadcastState
  | .publish rec => s.startPublish [rec]
  | .publishBatch recs => s.startPublish recs
  | .publisher => s.publisherStep
  | .open i => s.openEndpoint i
  | .poll i => s.withIdle i fun ep => { ep with pc := .loadSeq .poll }
  | .pollBatch i maxCount =>
    s.withIdle i fun ep => if maxCount = 0 then ep else { ep with pc := .loadSeq .pollBatch }
  | .reader i => s.readerStep i
  | .seekHead i => s.withIdle i fun ep => { ep with tail := s.headPos }
  | .rewindRetained i =>
    s.withIdle i fun ep =>
      { ep with tail := s.retainedStart, expectedWalSeq := 0, since := none }

end BroadcastState

open BroadcastState

def OmBusSlot.view (slot : OmBusSlot) : Cell (OmBusSlotHeader × List UInt8) :=
  ⟨slot.seq, slot.header, slot.buffer.take slot.header.payloadLen⟩

def slotImage (flags : OmBusFlags) (rec : OmBusRecord) : OmBusSlotHeader × List UInt8 :=
  (headerOf flags rec, rec.payload)

/-- The stamp of the slot at `pos` is 0. -/
def WritePc.busy : WritePc → Bool
  | .payload _ _ _ | .header _ _ _ | .stamp _ _ _ => true
  | .idle | .clear _ _ _ | .head _ => false

def WritePcOk (flags : OmBusFlags) (maxPayload headPos count : Nat) (slot : OmBusSlot) :
    WritePc → Prop
  | .idle => headPos = count
  | .clear pos rec rest => pos = count ∧ headPos ≤ count ∧
      ∀ r ∈ rec :: rest, r.payload.length ≤ maxPayload
  | .payload pos rec rest => pos = count ∧ headPos ≤ count ∧
      ∀ r ∈ rec :: rest, r.payload.length ≤ maxPayload
  | .header pos rec rest => pos = count ∧ headPos ≤ count ∧
      (∀ r ∈ rec :: rest, r.payload.length ≤ maxPayload) ∧
      slot.buffer.take rec.payload.length = rec.payload
  | .stamp pos rec rest => pos = count ∧ headPos ≤ count ∧
      (∀ r ∈ rec :: rest, r.payload.length ≤ maxPayload) ∧
      slot.buffer.take rec.payload.length = rec.payload ∧ slot.header = headerOf flags rec
  | .head pos => pos = count ∧ headPos ≤ count

/-- The slots as the published records left them, but for one that is being written. -/
def BroadcastSlots (s : BroadcastState) : Prop :=
  ∃ cells, Stamped s.capacity (s.published.map (slotImage s.flags)) cells ∧
    (∀ j, ¬ (s.publisher.busy = true ∧ j = s.published.length % s.capacity) →
      (s.slots j).view = cells j) ∧
    (s.publisher.busy = true → (s.slots (s.published.length % s.capacity)).seq = 0)

/-- What a reader relies on: what it has read is right if the stamp is still the same. -/
def ReadPcOk (count tail : Nat) (slot : OmBusSlot) : ReadPc → Prop
  | .idle | .loadSeq _ => True
  | .header _ => tail < count
  | .copy _ header => tail < count ∧ (slot.seq = tail + 1 → header = slot.header)
  | .reload _ header bytes => tail < count ∧ (slot.seq = tail + 1 →
      header = slot.header ∧ bytes = slot.buffer.take slot.header.payloadLen)

def expectedAfter (published : List OmBusRecord) (since : Option Nat) : UInt64 :=
  match since.bind (published[·]?) with
  | none => 0
  | some rec => rec.walSeq + 1

def Known (published : List OmBusRecord) (since : Option Nat) : Prop :=
  ∀ p ∈ since, p < published.length

structure EndpointOk (published : List OmBusRecord) (slot : OmBusSlot) (ep : OmBusEndpoint) :
    Prop where
  pc : ReadPcOk published.length ep.tail slot ep.pc
  known : Known published ep.since
  expected : ep.expectedWalSeq = expectedAfter published ep.since

structure BroadcastReportOk (flags : OmBusFlags) (published : List OmBusRecord)
    (r : BroadcastReport) : Prop where
  record : published[r.position]? = some r.record
  known : Known published r.since
  result : r.result =
    callResult flags r.call (expectedAfter published r.since) r.record.walSeq

structure BroadcastInv (s : BroadcastState) : Prop where
  pow : isPowerOfTwo s.capacity = true
  mask : s.mask = s.capacity - 1
  slots : BroadcastSlots s
  buffers : ∀ j, (s.slots j).buffer.length = s.maxPayload
  sizes : ∀ rec ∈ s.published, rec.payload.length ≤ s.maxPayload
  publisher : WritePcOk s.flags s.maxPayload s.headPos s.published.length
    (s.slot s.published.length) s.publisher
  endpoints : ∀ i ep, s.endpoints i = some ep →
    EndpointOk s.published (s.slot ep.tail) ep
  reports : ∀ i, ∀ r ∈ s.reports i, BroadcastReportOk s.flags s.published r

section Grow

variable {flags : OmBusFlags} {published : List OmBusRecord} {since : Option Nat}

theorem Known.grow (h : Known published since) (rec : OmBusRecord) :
    Known (published ++ [rec]) since := fun p hp => by
  have := h p hp
  rw [List.length_append]
  omega

theorem expectedAfter_grow (h : Known published since) (rec : OmBusRecord) :
    expectedAfter (published ++ [rec]) since = expectedAfter published since := by
  cases since with
  | none => rfl
  | some p =>
    have hp := h p rfl
    simp only [expectedAfter, Option.bind_some, List.getElem?_append_left hp]

theorem BroadcastReportOk.grow {r : BroadcastReport} (h : BroadcastReportOk flags published r)
    (rec : OmBusRecord) : BroadcastReportOk flags (published ++ [rec]) r where
  record := by
    rw [List.getElem?_append_left (List.getElem?_eq_some_iff.mp h.record).1]
    exact h.record
  known := h.known.grow rec
  result := by
    rw [expectedAfter_grow h.known]
    exact h.result

end Grow

namespace BroadcastInv

variable {s s' : BroadcastState}

theorem start {config : OmBusStreamConfig} {shm : OmBusShm}
    (hcreate : omBusStreamCreate config = .ok shm) : BroadcastInv (start shm) := by
  obtain ⟨hpow, hshm⟩ := omBusStreamCreate_ok hcreate
  exact
    { pow := hpow
      mask := congrArg OmBusShm.mask hshm
      slots := ⟨fun j => ((BroadcastState.start shm).slots j).view,
        Stamped.nil fun _ _ => rfl, fun _ _ => rfl, fun hbusy => by cases hbusy⟩
      buffers := fun _ => List.length_replicate
      sizes := by simp [BroadcastState.start]
      publisher := rfl
      endpoints := by simp [BroadcastState.start]
      reports := by simp [BroadcastState.start] }

theorem slot_eq (h : BroadcastInv s) (pos : Nat) : s.slot pos = s.slots (pos % s.capacity) := by
  simp only [slot, h.mask, land_mask h.pow]

theorem view_of_seq (h : BroadcastInv s) {t : Nat} (hseq : (s.slot t).seq = t + 1) :
    ∃ rec, s.published[t]? = some rec ∧ s.published.length ≤ t + s.capacity ∧
      (s.slot t).header = headerOf s.flags rec ∧
      (s.slot t).buffer.take rec.payload.length = rec.payload := by
  obtain ⟨cells, hstamped, hview, hzero⟩ := h.slots
  rw [h.slot_eq] at hseq ⊢
  have hfree : ¬ (s.publisher.busy = true ∧
      t % s.capacity = s.published.length % s.capacity) := by
    rintro ⟨hbusy, hidx⟩
    have h0 := hzero hbusy
    rw [← hidx, hseq] at h0
    cases h0
  have hcell := hview _ hfree
  have hcseq : (cells (t % s.capacity)).seq = t + 1 := by rw [← hcell]; exact hseq
  obtain ⟨hlt, hle⟩ := (hstamped.seq_eq_iff (isPowerOfTwo_pos h.pow)).mp hcseq
  rw [List.length_map] at hlt hle
  have hget := List.getElem?_eq_getElem hlt
  have hvalue := hstamped.value_eq (t := t) (v := slotImage s.flags s.published[t])
    (by rw [List.getElem?_map, hget, Option.map_some]) (by rwa [List.length_map])
  rw [← hcell] at hvalue
  have hheader : (s.slots (t % s.capacity)).header = headerOf s.flags s.published[t] :=
    congrArg Prod.fst hvalue
  have hbytes : (s.slots (t % s.capacity)).buffer.take
      (s.slots (t % s.capacity)).header.payloadLen = s.published[t].payload :=
    congrArg Prod.snd hvalue
  rw [hheader] at hbytes
  exact ⟨_, hget, hle, hheader, hbytes⟩

/-- With no write in progress the stamp tells whether the record is still to come, is held, or
was written over. -/
theorem seq_cases (h : BroadcastInv s) (hidle : s.publisher.busy = false) (t : Nat) :
    (s.published.length ≤ t ∧ (s.slot t).seq ≤ t) ∨
    (t < s.published.length ∧ s.published.length ≤ t + s.capacity ∧ (s.slot t).seq = t + 1) ∨
    (t + s.capacity < s.published.length ∧ t + 1 < (s.slot t).seq) := by
  obtain ⟨cells, hstamped, hview, -⟩ := h.slots
  have hcell := hview (t % s.capacity) (by simp [hidle])
  have hcases := hstamped.seq_cases (isPowerOfTwo_pos h.pow) t
  rw [List.length_map, ← hcell] at hcases
  rw [h.slot_eq]
  exact hcases

end BroadcastInv

end VeloxMatch
