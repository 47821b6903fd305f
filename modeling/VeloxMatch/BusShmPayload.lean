import VeloxMatch.BusShmDelivery

namespace VeloxMatch

open StreamState OmBusShm Function List

def leavesAlone (i : Nat) (_ : StreamState) : StreamAction → Prop
  | .poll j _ _ => j ≠ i
  | .pollBatch j _ _ _ => j ≠ i
  | .close j => j ≠ i
  | _ => True

instance (i : Nat) (s : StreamState) (a : StreamAction) : Decidable (leavesAlone i s a) := by
  induction a using StreamAction.casesOn <;> dsimp only [leavesAlone] <;> infer_instance

/-- The buffers of the slots hold what was published to the positions from `first` to `last`. -/
def StreamState.HoldsPayloads (s : StreamState) (first last : Nat) : Prop :=
  ∀ pos rec, first ≤ pos → pos < last → s.published[pos]? = some rec →
    (s.shm.buffer pos).take rec.payload.length = rec.payload

/-- A record that was published after one of these into the same slot has the same bytes, as far
as both payloads go. -/
def StreamState.LaterAgree (s : StreamState) (first last : Nat) : Prop :=
  ∀ pos rec, first ≤ pos → pos < last → s.published[pos]? = some rec →
    ∀ q later, pos < q → q % s.shm.capacity = pos % s.shm.capacity →
      s.published[q]? = some later →
        later.payload.take rec.payload.length = rec.payload.take later.payload.length

theorem take_overwrite_iff {old new kept : List UInt8} (h : old.take kept.length = kept) :
    (overwrite old new).take kept.length = kept ↔
      new.take kept.length = kept.take new.length := by
  have hlen : kept.length ≤ old.length := by
    rw [← h, length_take]
    exact Nat.min_le_right ..
  rcases Nat.le_total kept.length new.length with hle | hle
  · rw [overwrite, take_append_of_le_length (by rw [length_take]; omega),
      take_take, Nat.min_eq_left hlen, take_of_length_le hle]
  · have hrest : (old.drop new.length).take (kept.length - new.length) =
        kept.drop new.length := by
      rw [← drop_take, h]
    have hall : new.take old.length = new := take_of_length_le (by omega)
    rw [overwrite, hall, take_append, take_of_length_le hle, hrest]
    constructor
    · intro heq
      have hfront := congrArg (take new.length) heq
      rwa [take_left] at hfront
    · intro heq
      exact (congrArg (· ++ kept.drop new.length) heq).trans (take_append_drop ..)

/-- The bytes of slot `k` after the records are written from `pos` on. -/
def overwrites (capacity k : Nat) (bytes : List UInt8) (pos : Nat) : List OmBusRecord → List UInt8
  | [] => bytes
  | r :: recs =>
    overwrites capacity k (if pos % capacity = k then overwrite bytes r.payload else bytes)
      (pos + 1) recs

section Overwrites

variable {capacity k pos : Nat} {bytes kept : List UInt8} {rec : OmBusRecord}
  {recs : List OmBusRecord}

theorem overwrites_append (recs more : List OmBusRecord) :
    overwrites capacity k bytes pos (recs ++ more) =
      overwrites capacity k (overwrites capacity k bytes pos recs) (pos + recs.length) more := by
  induction recs generalizing bytes pos with
  | nil => rfl
  | cons rec recs ih =>
    rw [cons_append, overwrites, ih, overwrites, length_cons, Nat.add_right_comm]
    rfl

theorem overwrites_length : (overwrites capacity k bytes pos recs).length = bytes.length := by
  induction recs generalizing bytes pos with
  | nil => rfl
  | cons rec recs ih =>
    rw [overwrites, ih]
    split
    · exact overwrite_length ..
    · rfl

theorem overwrites_miss (h : ∀ q, pos ≤ q → q < pos + recs.length → q % capacity ≠ k) :
    overwrites capacity k bytes pos recs = bytes := by
  induction recs generalizing pos with
  | nil => rfl
  | cons rec recs ih =>
    rw [length_cons] at h
    rw [overwrites, if_neg (h pos (Nat.le_refl _) (by omega))]
    exact ih fun q hq hlt => h q (by omega) (by omega)

theorem overwrites_hit (hlen : recs.length < capacity) :
    overwrites capacity (pos % capacity) bytes pos (rec :: recs) = overwrite bytes rec.payload := by
  rw [overwrites, if_pos rfl]
  refine overwrites_miss fun q hq hlt hmod => ?_
  have := eq_of_mod_eq hmod (by omega) (by omega)
  omega

theorem overwrites_at {log : List OmBusRecord} (hrec : log[pos]? = some rec)
    (hle : log.length ≤ pos + capacity) : ∃ old, old.length = bytes.length ∧
      overwrites capacity (pos % capacity) bytes 0 log = overwrite old rec.payload := by
  obtain ⟨hlt, rfl⟩ := List.getElem?_eq_some_iff.mp hrec
  have hsplit : log.take pos ++ log[pos] :: log.drop (pos + 1) = log := by
    rw [getElem_cons_drop, take_append_drop]
  have happend := @overwrites_append capacity (pos % capacity) 0 bytes (log.take pos)
    (log[pos] :: log.drop (pos + 1))
  rw [hsplit, length_take, Nat.min_eq_left hlt.le, Nat.zero_add] at happend
  refine ⟨_, overwrites_length, happend.trans (overwrites_hit ?_)⟩
  rw [length_drop]
  omega

/-- As many records as there are slots: one of them at most is written to slot `k`. -/
theorem overwrites_held_iff (hlen : recs.length ≤ capacity)
    (hheld : bytes.take kept.length = kept) :
    (overwrites capacity k bytes pos recs).take kept.length = kept ↔
      ∀ j later, recs[j]? = some later → (pos + j) % capacity = k →
        later.payload.take kept.length = kept.take later.payload.length := by
  induction recs generalizing pos with
  | nil => simp [overwrites, hheld]
  | cons rec recs ih =>
    rw [length_cons] at hlen
    by_cases hhit : pos % capacity = k
    · subst hhit
      rw [overwrites_hit (by omega), take_overwrite_iff hheld]
      refine ⟨fun hagree j later hlater hmod => ?_, fun hagree => hagree 0 rec rfl rfl⟩
      have hlt := (List.getElem?_eq_some_iff.mp hlater).1
      rw [List.length_cons] at hlt
      obtain rfl : j = 0 := by
        have := eq_of_mod_eq hmod (by omega) (by omega)
        omega
      cases hlater
      exact hagree
    · rw [overwrites, if_neg hhit, ih (by omega)]
      have hshift : ∀ j, pos + 1 + j = pos + (j + 1) := fun j => by omega
      constructor
      · intro hagree j later hlater hmod
        cases j with
        | zero => exact absurd hmod hhit
        | succ j => exact hagree j later hlater (hshift j ▸ hmod)
      · exact fun hagree j later hlater hmod => hagree (j + 1) later hlater (hshift j ▸ hmod)

end Overwrites

theorem publishSlots_buffers {shm : OmBusShm} (hpow : isPowerOfTwo shm.capacity = true)
    (hmask : shm.mask = shm.capacity - 1) (recs : List OmBusRecord) (pos k : Nat) :
    (shm.publishSlots pos recs).buffers k =
      overwrites shm.capacity k (shm.buffers k) pos recs := by
  induction recs generalizing shm pos with
  | nil => rfl
  | cons rec recs ih =>
    have hfirst : (shm.publishSlot pos rec).buffers k =
        if pos % shm.capacity = k then overwrite (shm.buffers k) rec.payload
        else shm.buffers k := by
      simp only [publishSlot, buffer, hmask, land_mask hpow]
      split
      · next heq => rw [heq, update_self]
      · next hne => exact update_of_ne (Ne.symm hne) ..
    have hrest := @ih (shm.publishSlot pos rec) hpow hmask (pos + 1)
    rw [publishSlots, hrest, hfirst]
    rfl

section Payload

variable {s s' : StreamState} {a : StreamAction} {i : Nat}

/-- What a step does to the memory behind the payload pointers. -/
theorem StreamInv.writes (h : StreamInv s) (hmove : StreamMove s a s') :
    ∃ chunk, chunk.length ≤ s.shm.capacity ∧ s'.published = s.published ++ chunk ∧
      s'.shm.capacity = s.shm.capacity ∧ s'.shm.maxPayload = s.shm.maxPayload ∧
      s'.shm.buffers = (s.shm.publishSlots s.published.length chunk).buffers := by
  have hmin := h.minTail
  cases hmove with
  | @publish chunk rest head pc hsizes hroom hpc =>
    refine ⟨chunk, by omega, rfl, ?_⟩
    rw [publishSlots_eq]
    exact ⟨rfl, rfl, rfl⟩
  | delivers hd hnow hpoint clock lastCall =>
    refine ⟨[], Nat.zero_le _, (append_nil _).symm, ?_⟩
    unfold StreamState.deliver
    rw [advance_eq]
    exact ⟨rfl, rfl, rfl⟩
  | stay clock lastCall | begin hidle hsizes | spin spins' hpc | refresh spins' now hpc hpoint
  | opens ha hnone hnow hi | closes i =>
    exact ⟨[], Nat.zero_le _, (append_nil _).symm, rfl, rfl, rfl⟩

theorem StreamInv.buffer_eq (h : StreamInv s) (pos : Nat) :
    s.shm.buffer pos = s.shm.buffers (pos % s.shm.capacity) := by
  rw [buffer, h.mask, land_mask h.pow]

theorem StreamInv.held_iff (h : StreamInv s) (h' : StreamInv s') (hmove : StreamMove s a s')
    {pos : Nat} {kept : List UInt8} (hheld : (s.shm.buffer pos).take kept.length = kept) :
    (s'.shm.buffer pos).take kept.length = kept ↔
      ∀ q later, s.published.length ≤ q → q % s.shm.capacity = pos % s.shm.capacity →
        s'.published[q]? = some later →
          later.payload.take kept.length = kept.take later.payload.length := by
  obtain ⟨chunk, hlen, hpublished, hcap, -, hbuffers⟩ := h.writes hmove
  rw [h.buffer_eq] at hheld
  rw [h'.buffer_eq, hcap, hbuffers, publishSlots_buffers h.pow h.mask,
    overwrites_held_iff hlen hheld, hpublished]
  constructor
  · intro hagree q later hq hmod hlater
    rw [getElem?_append_right hq] at hlater
    exact hagree _ later hlater (by rw [Nat.add_sub_cancel' hq]; exact hmod)
  · intro hagree j later hlater hmod
    refine hagree _ later (Nat.le_add_right ..) hmod ?_
    rw [getElem?_append_right (Nat.le_add_right ..), Nat.add_sub_cancel_left]
    exact hlater

/-- The slots' bytes are what the records published so far have left there. -/
structure BuffersInv (s : StreamState) : Prop where
  inv : StreamInv s
  buffers : ∀ k, s.shm.buffers k =
    overwrites s.shm.capacity k (replicate s.shm.maxPayload 0) 0 s.published

theorem BuffersInv.start {config : OmBusStreamConfig} {shm : OmBusShm}
    (hcreate : omBusStreamCreate config = .ok shm) (hflags : config.flags.broadcast = false) :
    BuffersInv (.start shm) where
  inv := StreamInv.start hcreate hflags
  buffers := fun k => by
    rw [(omBusStreamCreate_ok hcreate).2]
    rfl

theorem BuffersInv.step (h : BuffersInv s) (hs : s.step a = some s') : BuffersInv s' := by
  obtain ⟨chunk, -, hpublished, hcap, hmax, hbuffers⟩ := h.inv.writes (h.inv.move hs)
  refine ⟨h.inv.step hs, fun k => ?_⟩
  rw [hbuffers, publishSlots_buffers h.inv.pow h.inv.mask, h.buffers, hcap, hmax, hpublished,
    overwrites_append, Nat.zero_add]

/-- The payload of a record that is still in the ring is at the front of its slot's buffer. -/
theorem BuffersInv.held (h : BuffersInv s) {pos : Nat} {rec : OmBusRecord}
    (hrec : s.published[pos]? = some rec) (hle : s.published.length ≤ pos + s.shm.capacity) :
    (s.shm.buffer pos).take rec.payload.length = rec.payload := by
  obtain ⟨old, hlen, hold⟩ := overwrites_at hrec hle
  rw [h.inv.buffer_eq, h.buffers, hold]
  refine take_overwrite ?_
  rw [hlen, length_replicate]
  exact h.inv.sizes rec (mem_of_getElem? hrec)

theorem StreamInv.call_returns (h : StreamInv s) (hcall : EndpointCall s i a s') :
    s'.published = s.published ∧ s'.tail i ≤ s.published.length ∧
      (∀ pos, s.tail i ≤ pos → pos < s'.tail i →
        s.published.length ≤ pos + s.shm.capacity) ∧
      s'.received i = s.received i ++ (s.published.take (s'.tail i)).drop (s.tail i) := by
  cases hcall with
  | stay hopen clock lastCall =>
    obtain ⟨e, he⟩ := Option.ne_none_iff_exists'.mp hopen
    have htail := (h.opened i e he).1
    have hnone : s.received i ++ (s.published.take (s.tail i)).drop (s.tail i) = s.received i := by
      rw [drop_eq_nil_of_le (length_take_le ..), append_nil]
    exact ⟨rfl, htail, fun pos hfrom hto => absurd hfrom (Nat.not_le_of_lt hto), hnone.symm⟩
  | @delivers recs walSeq now now' hd hnow hpoint clock lastCall =>
    obtain ⟨e, he⟩ := Option.ne_none_iff_exists'.mp hd.opened
    have hle := hd.le (h.opened i e he).1
    have htail : (s.deliver i recs walSeq now now').tail i = s.tail i + recs.length := by
      unfold StreamState.deliver
      rw [advance_eq]
      simp [StreamState.tail, storeTail]
    have hreceived : (s.deliver i recs walSeq now now').received i = s.received i ++ recs := by
      simp [StreamState.deliver]
    have hretained := hd.retained
    refine ⟨rfl, Nat.le_trans (Nat.le_of_eq htail) hle, fun pos _ _ => by omega,
      hreceived.trans ?_⟩
    refine congrArg (s.received i ++ ·) ?_
    calc recs = (s.published.drop (s.tail i)).take recs.length := hd.next
      _ = (s.published.take (s.tail i + recs.length)).drop (s.tail i) := by
        rw [drop_take, Nat.add_sub_cancel_left]
      _ = (s.published.take ((s.deliver i recs walSeq now now').tail i)).drop (s.tail i) := by
        rw [htail]

section Later

variable {t : StreamState} {ok : StreamState → StreamAction → Prop} {first last : Nat}

theorem BuffersInv.runs (h : BuffersInv s) (hrun : Runs StreamState.step ok s t) :
    BuffersInv t ∧ s.published <+: t.published ∧ t.shm.capacity = s.shm.capacity :=
  hrun.invariant
    (P := fun t => BuffersInv t ∧ s.published <+: t.published ∧ t.shm.capacity = s.shm.capacity)
    ⟨h, prefix_rfl, rfl⟩ fun _ _ _ ⟨hinv, hgrown, hcap⟩ _ hs => by
      obtain ⟨chunk, -, hpublished, hcap', -⟩ := hinv.inv.writes (hinv.inv.move hs)
      exact ⟨hinv.step hs, hgrown.trans (hpublished ▸ prefix_append ..), hcap'.trans hcap⟩

theorem getElem?_of_grown {log log' : List OmBusRecord} (h : log <+: log') {pos : Nat}
    (hpos : pos < log.length) : log'[pos]? = log[pos]? := by
  obtain ⟨more, rfl⟩ := h
  exact getElem?_append_left hpos

theorem StreamState.LaterAgree.earlier (h : t.LaterAgree first last)
    (hgrown : s.published <+: t.published) (hcap : t.shm.capacity = s.shm.capacity) :
    s.LaterAgree first last := by
  intro pos rec hfrom hto hrec q later hlt hmod hlater
  have hpos := (List.getElem?_eq_some_iff.mp hrec).1
  have hq := (List.getElem?_eq_some_iff.mp hlater).1
  exact h pos rec hfrom hto ((getElem?_of_grown hgrown hpos).trans hrec) q later hlt
    (by rw [hcap]; exact hmod) ((getElem?_of_grown hgrown hq).trans hlater)

variable (h : BuffersInv s) (hlast : last ≤ s.published.length)
  (hretained : ∀ pos, first ≤ pos → pos < last → s.published.length ≤ pos + s.shm.capacity)

include h hlast hretained

theorem BuffersInv.holds_of_laterAgree (hrun : Runs StreamState.step ok s t)
    (hagree : t.LaterAgree first last) : t.HoldsPayloads first last := by
  induction hrun with
  | start => exact fun pos rec hfrom hto hrec => h.held hrec (hretained pos hfrom hto)
  | @step t t' a hrun hok hs ih =>
    obtain ⟨hinv, hgrown, -⟩ := h.runs hrun
    obtain ⟨hinv', hgrown', hcap⟩ := hinv.runs (.step a .start hok hs)
    have hlen := hgrown.length_le
    have hheld := ih (hagree.earlier hgrown' hcap)
    intro pos rec hfrom hto hrec
    have hrec' := (getElem?_of_grown hgrown' (by omega)).symm.trans hrec
    refine (hinv.inv.held_iff hinv'.inv (hinv.inv.move hs)
      (hheld pos rec hfrom hto hrec')).mpr fun q later hq hmod hlater => ?_
    exact hagree pos rec hfrom hto hrec q later (by omega) (by rw [hcap]; exact hmod) hlater

theorem BuffersInv.laterAgree_of_holds (hrun : Runs StreamState.step ok s t)
    (hheld : ∀ u, Runs StreamState.step ok s u → Runs StreamState.step ok u t →
      u.HoldsPayloads first last) : t.LaterAgree first last := by
  induction hrun with
  | start =>
    intro pos rec hfrom hto hrec q later hlt hmod hlater
    have hq := (List.getElem?_eq_some_iff.mp hlater).1
    have := hretained pos hfrom hto
    have := eq_of_mod_eq hmod (by omega) (by omega)
    omega
  | @step t t' a hrun hok hs ih =>
    obtain ⟨hinv, hgrown, hcap⟩ := h.runs hrun
    obtain ⟨hinv', hgrown', hcap'⟩ := hinv.runs (.step a .start hok hs)
    have hlen := hgrown.length_le
    have hlast' : Runs StreamState.step ok t t' := .step a .start hok hs
    have hbefore := ih fun u hu hut => hheld u hu (hut.trans hlast')
    intro pos rec hfrom hto hrec q later hlt hmod hlater
    have hrec' := (getElem?_of_grown hgrown' (by omega)).symm.trans hrec
    rw [hcap'] at hmod
    rcases Nat.lt_or_ge q t.published.length with hq | hq
    · exact hbefore pos rec hfrom hto hrec' q later hlt hmod
        ((getElem?_of_grown hgrown' hq).symm.trans hlater)
    · exact (hinv.inv.held_iff hinv'.inv (hinv.inv.move hs)
        (hheld t hrun hlast' pos rec hfrom hto hrec')).mp
        (hheld t' (hrun.step a hok hs) .start pos rec hfrom hto hrec) q later hq hmod hlater

end Later

end Payload

/-- A poll of endpoint `i` returns the records published from its old tail to its new one. The
bytes behind their payload pointers stay as published, up to a later state before its next call,
iff every record that is published into the slot of one of them until then has the same bytes as
far as both payloads go. -/
theorem payload_pointer_valid_iff {config : OmBusStreamConfig} {shm : OmBusShm}
    {s s₁ s₂ : StreamState} (hcreate : omBusStreamCreate config = .ok shm)
    (hflags : config.flags.broadcast = false) (hrun : Runs step anyAction (.start shm) s)
    {i : Nat} {a : StreamAction} (ha : a.Polls i) (hcall : s.step a = some s₁)
    (hlater : Runs step (leavesAlone i) s₁ s₂) :
    s₁.received i = s.received i ++ (s₁.published.take (s₁.tail i)).drop (s.tail i) ∧
      ((∀ t, Runs step (leavesAlone i) s₁ t →
          Runs step (leavesAlone i) t s₂ →
          t.HoldsPayloads (s.tail i) (s₁.tail i)) ↔
        s₂.LaterAgree (s.tail i) (s₁.tail i)) := by
  have hinv := ((BuffersInv.start hcreate hflags).runs hrun).1
  obtain ⟨hsame, htail, hretained, hreceived⟩ := hinv.inv.call_returns (hinv.inv.call ha hcall)
  have hstep : Runs StreamState.step anyAction s s₁ := .step a .start trivial hcall
  obtain ⟨hinv₁, -, hcap⟩ := hinv.runs hstep
  have hretained₁ : ∀ pos, s.tail i ≤ pos → pos < s₁.tail i →
      s₁.published.length ≤ pos + s₁.shm.capacity := fun pos hfrom hto => by
    rw [hsame, hcap]
    exact hretained pos hfrom hto
  rw [← hsame] at htail hreceived
  refine ⟨hreceived, hinv₁.laterAgree_of_holds htail hretained₁ hlater,
    fun hagree t ht hrest => ?_⟩
  obtain ⟨-, hgrown, hcap₂⟩ := (hinv₁.runs ht).1.runs hrest
  exact hinv₁.holds_of_laterAgree htail hretained₁ ht (hagree.earlier hgrown hcap₂)

/-- A ring of one slot: a shorter record is written over the front of the first, with the same
byte. -/
theorem payload_pointer_valid_iff_shorter :
    omBusStreamCreate (smallStreamConfig 1 1 0) = .ok (smallShm 1 1 0) ∧
    ∃ s s₁ s₂, Runs step anyAction (.start (smallShm 1 1 0)) s ∧
      s.step (.poll 0 1 1) = some s₁ ∧ Runs step (leavesAlone 0) s₁ s₂ ∧
      s.tail 0 = 0 ∧ s₁.tail 0 = 1 ∧ s₂.published = [⟨1, 1, [1, 2]⟩, busRecord 1] ∧
      s₂.HoldsPayloads 0 1 := by
  have hcreate : omBusStreamCreate (smallStreamConfig 1 1 0) = .ok (smallShm 1 1 0) := rfl
  obtain ⟨s, hrun, htail, s₁, hcall, htail₁, hlater⟩ := exists_runs step anyAction
    (.start (smallShm 1 1 0)) [.open 0 1, .publish ⟨1, 1, [1, 2]⟩, .producer 1]
    (fun s => s.tail 0 = 0 ∧ ∃ s₁ ∈ s.step (.poll 0 1 1), s₁.tail 0 = 1 ∧
      ActionsOk step (leavesAlone 0) s₁ [.publish (busRecord 1), .producer 1] ∧
      ∃ s₂ ∈ runActions step s₁ [.publish (busRecord 1), .producer 1],
        s₂.published = [⟨1, 1, [1, 2]⟩, busRecord 1])
    (by decide +kernel) (by decide +kernel)
  obtain ⟨hok, s₂, hacts, hpublished⟩ := hlater
  have hlater := runs_of_runActions hok hacts
  refine ⟨hcreate, s, s₁, s₂, hrun, hcall, hlater, htail, htail₁, hpublished, ?_⟩
  obtain ⟨-, hiff⟩ := payload_pointer_valid_iff hcreate rfl hrun
    (show StreamAction.Polls 0 (.poll 0 1 1) from rfl) hcall hlater
  rw [htail, htail₁] at hiff
  refine hiff.mpr (fun pos rec _ hpos hrec q later hq _ hat => ?_) s₂ hlater .start
  rw [hpublished] at hrec hat
  have hlt := (List.getElem?_eq_some_iff.mp hat).1
  obtain rfl : pos = 0 := by omega
  obtain rfl : q = 1 := by simp only [length_cons, length_nil] at hlt; omega
  cases hrec
  cases hat
  rfl

/-- A ring of one slot: the second record is written over the first while the endpoint still has
the pointer to its payload. -/
theorem payload_pointer_overwritten :
    omBusStreamCreate (smallStreamConfig 1 1 0) = .ok (smallShm 1 1 0) ∧
    ∃ s s₁ s₂, Runs step anyAction (.start (smallShm 1 1 0)) s ∧
      s.step (.poll 0 1 1) = some s₁ ∧ Runs step (leavesAlone 0) s₁ s₂ ∧
      s.tail 0 = 0 ∧ s₁.tail 0 = 1 ∧ s₁.published = [busRecord 1] ∧
      (s₁.shm.buffer 0).take 1 = [1] ∧ (s₂.shm.buffer 0).take 1 = [2] := by
  obtain ⟨s, hrun, htail, s₁, hcall, htail₁, hpayload, hbefore, hlater⟩ :=
    exists_runs step anyAction
    (.start (smallShm 1 1 0)) [.open 0 1, .publish (busRecord 1), .producer 1]
    (fun s => s.tail 0 = 0 ∧ ∃ s₁ ∈ s.step (.poll 0 1 1), s₁.tail 0 = 1 ∧
      s₁.published = [busRecord 1] ∧ (s₁.shm.buffer 0).take 1 = [1] ∧
      ActionsOk step (leavesAlone 0) s₁ [.publish (busRecord 2), .producer 1] ∧
      ∃ s₂ ∈ runActions step s₁ [.publish (busRecord 2), .producer 1],
        (s₂.shm.buffer 0).take 1 = [2])
    (by decide +kernel) (by decide +kernel)
  obtain ⟨hok, s₂, hacts, hbytes⟩ := hlater
  exact ⟨rfl, s, s₁, s₂, hrun, hcall, runs_of_runActions hok hacts, htail, htail₁, hpayload,
    hbefore, hbytes⟩

end VeloxMatch
