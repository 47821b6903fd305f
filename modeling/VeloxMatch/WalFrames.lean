import VeloxMatch.WalReplayFiles
import VeloxMatch.WalWriter

namespace VeloxMatch

open List

/-- Replaying a single file from its start, with a turn and a call for each byte and one more. -/
def replayFile (short : Nat → Nat → Nat) (file : List UInt8) (crc : Bool) :
    Option (List WalReplayRecord × Option OmError) :=
  replayAll short noHandler (file.length + 1) (file.length + 1) (omWalReplayInit file crc)

theorem replayFile_eq (short : Nat → Nat → Nat) (file : List UInt8) (crc : Bool) :
    replayFile short file crc = some (parseWal crc 0 0 file) :=
  replayAll_single short (Nat.lt_succ_self _) (Nat.lt_succ_self _)

section Items

variable {crc : Bool} {last offset n m s : Nat} {rest rest' : List UInt8}

theorem parseItem_padding_iff :
    parseItem crc last offset rest = .padding n ↔
      n = walAlign - offset % walAlign ∧ n ≤ rest.length ∧ (∀ b ∈ rest.take n, b = 0) ∧
        (rest.length < walHeaderSize ∨ leNat (rest.take 8) = 0) := by
  constructor
  · intro h
    unfold parseItem at h
    split at h
    · cases h
    dsimp only at h
    split at h
    · next hhead =>
      rcases parsePadding_cases h with h | h | ⟨h, hle, hzero⟩
      · cases h
      · cases h
      · cases h
        exact ⟨rfl, hle, hzero, hhead⟩
    · unfold parseRecord parseWhole at h
      dsimp only at h
      repeat (split at h; · cases h)
      cases h
  · rintro ⟨rfl, hle, hzero, hhead⟩
    have hpos : offset % walAlign < walAlign := Nat.mod_lt _ (by decide)
    have hne : rest ≠ [] := ne_nil_of_length_pos (by omega)
    have hany : ¬(rest.take (walAlign - offset % walAlign)).any (· != 0) = true := by
      simpa using hzero
    rw [parseItem, if_neg hne, if_pos hhead, parsePadding, if_neg (by omega), if_neg hany]

theorem take_drop_congr (h : rest'.take s = rest.take s) (hs : n + m ≤ s) :
    (rest'.drop n).take m = (rest.drop n).take m := by
  have htake : rest'.take (n + m) = rest.take (n + m) := by
    have hcut := congrArg (take (n + m)) h
    rwa [take_take, take_take, Nat.min_eq_left hs] at hcut
  rw [take_drop, take_drop, htake]

theorem take_congr (h : rest'.take s = rest.take s) (hs : m ≤ s) : rest'.take m = rest.take m := by
  simpa using take_drop_congr (n := 0) h (by omega)

theorem WalRecordAt.congr {rec : WalReplayRecord} (h : WalRecordAt crc last rest rec)
    (hlen : recordSize crc rec.data.length ≤ rest'.length)
    (htake : rest'.take (recordSize crc rec.data.length) =
      rest.take (recordSize crc rec.data.length)) : WalRecordAt crc last rest' rec where
  toReadable := h.toReadable
  whole := hlen
  header := by
    rw [take_congr htake (by unfold recordSize walHeaderSize; omega)]
    exact h.header
  data := by
    rw [take_drop_congr htake (by unfold recordSize; omega)]
    exact h.data
  next := h.next
  checksum := by
    rintro rfl
    rw [crcMatches, take_drop_congr (m := walCrc32Size) htake (Nat.le_refl _),
      take_congr htake (Nat.le_add_right ..)]
    exact h.checksum rfl

theorem parseItem_padding_congr (h : parseItem crc last offset rest = .padding n)
    (hlen : n ≤ rest'.length) (htake : rest'.take n = rest.take n)
    (hhead : rest'.length < 8 ∨ rest'.take 8 = rest.take 8) :
    parseItem crc last offset rest' = .padding n := by
  obtain ⟨hn, -, hzero, hor⟩ := parseItem_padding_iff.mp h
  refine parseItem_padding_iff.mpr ⟨hn, hlen, htake ▸ hzero, ?_⟩
  rcases hhead with hshort | hhead
  · exact .inl hshort
  · rw [hhead]
    refine hor.imp_left fun hshort => ?_
    have hlength := congrArg length hhead
    rw [length_take, length_take] at hlength
    unfold walHeaderSize at hshort ⊢
    omega

end Items

/-- Reading the log passes the records `recs` and comes to the byte `n` behind the start, where
the last record has the number `last'`. -/
inductive WalReaches (crc : Bool) (last offset : Nat) (rest : List UInt8) :
    List WalReplayRecord → Nat → Nat → Prop where
  | start : WalReaches crc last offset rest [] last 0
  | padding {recs : List WalReplayRecord} {last' n k : Nat}
      (h : WalReaches crc last offset rest recs last' n)
      (hitem : parseItem crc last' (offset + n) (rest.drop n) = .padding k) :
      WalReaches crc last offset rest recs last' (n + k)
  | record {recs : List WalReplayRecord} {last' n : Nat} {rec : WalReplayRecord}
      (h : WalReaches crc last offset rest recs last' n)
      (hitem : parseItem crc last' (offset + n) (rest.drop n) = .record rec) :
      WalReaches crc last offset rest (recs ++ [rec]) rec.seq
        (n + recordSize crc rec.data.length)

section Reaches

variable {crc : Bool} {last offset : Nat} {rest rest' : List UInt8}
  {recs : List WalReplayRecord} {last' n : Nat} (h : WalReaches crc last offset rest recs last' n)
include h

theorem WalReaches.parse_eq :
    parseWal crc last offset rest =
      (recs ++ (parseWal crc last' (offset + n) (rest.drop n)).1,
        (parseWal crc last' (offset + n) (rest.drop n)).2) := by
  induction h with
  | start => rfl
  | padding h hitem ih =>
    rw [ih, parseWal_of_padding hitem, drop_drop, Nat.add_assoc]
  | record h hitem ih =>
    rw [ih, parseWal_of_record hitem, drop_drop, Nat.add_assoc, append_assoc]
    rfl

theorem WalReaches.le_length : n ≤ rest.length := by
  induction h with
  | start => exact Nat.zero_le _
  | padding h hitem ih =>
    have hle := (padding_pos hitem).2
    rw [length_drop] at hle
    omega
  | record h hitem ih =>
    have hle := (parseItem_record_iff.mp hitem).whole
    rw [length_drop] at hle
    omega

/-- Another log with the same bytes so far is read in the same way. -/
theorem WalReaches.transport (hle : n ≤ rest'.length) (htake : rest'.take n = rest.take n)
    (hhead : ∀ m < n, rest'.length < m + 8 ∨ (rest'.drop m).take 8 = (rest.drop m).take 8) :
    WalReaches crc last offset rest' recs last' n := by
  induction h with
  | start => exact .start
  | @padding recs last' n k h hitem ih =>
    have hpos := (padding_pos hitem).1
    refine .padding (ih (by omega) (take_congr htake (by omega)) fun m hm => hhead m (by omega)) ?_
    refine parseItem_padding_congr hitem ?_ (take_drop_congr htake (Nat.le_refl _)) ?_
    · rw [length_drop]
      omega
    · refine (hhead n (by omega)).imp_left fun hshort => ?_
      rw [length_drop]
      omega
  | @record recs last' n rec h hitem ih =>
    refine .record (ih (by omega) (take_congr htake (by omega)) fun m hm => hhead m (by omega)) ?_
    refine parseItem_record_iff.mpr ((parseItem_record_iff.mp hitem).congr ?_
      (take_drop_congr htake (Nat.le_refl _)))
    rw [length_drop]
    omega

theorem WalReaches.congr (htake : rest'.take (n + 8) = rest.take (n + 8)) :
    WalReaches crc last offset rest' recs last' n := by
  refine h.transport ?_ (take_congr htake (by omega)) fun m hm =>
    .inr (take_drop_congr htake (by omega))
  have hlen := congrArg length htake
  have hle := h.le_length
  rw [length_take, length_take] at hlen
  omega

theorem WalReaches.cut {c : Nat} (hc : n ≤ c) :
    WalReaches crc last offset (rest.take c) recs last' n := by
  have hle := h.le_length
  refine h.transport (by rw [length_take]; omega) ?_ fun m hm => ?_
  · rw [take_take, Nat.min_eq_left hc]
  · by_cases hshort : c < m + 8
    · left
      rw [length_take]
      omega
    · right
      rw [drop_take, take_take, Nat.min_eq_left (by omega)]

end Reaches

/-- The record `rec` stands at `offset` in the file, behind the records `before`. -/
def StandsAt (crc : Bool) (file : List UInt8) (before : List WalReplayRecord) (offset : Nat)
    (rec : WalReplayRecord) : Prop :=
  ∃ last, WalReaches crc 0 0 file before last offset ∧
    parseItem crc last offset (file.drop offset) = .record rec

def WalReplayRecord.frame (crc : Bool) (rec : WalReplayRecord) : List UInt8 :=
  walFrame crc rec.seq rec.type rec.data

def framesOf (crc : Bool) (recs : List WalReplayRecord) : List UInt8 :=
  recs.flatMap (·.frame crc)

/-- The records have consecutive numbers, after a record with the number `last`, if any. -/
def NumberedFrom : Nat → List WalReplayRecord → Prop
  | _, [] => True
  | last, r :: rs => (last ≠ 0 → r.seq = last + 1) ∧ NumberedFrom r.seq rs

section Frames

variable {crc : Bool} {last offset : Nat} {recs : List WalReplayRecord}

theorem frame_length (rec : WalReplayRecord) :
    (rec.frame crc).length = recordSize crc rec.data.length := walFrame_length ..

theorem frame_true (rec : WalReplayRecord) :
    rec.frame true = rec.frame false ++ leBytes 4 (crc32Compute (rec.frame false)).toNat := rfl

theorem framesOf_append (recs recs' : List WalReplayRecord) :
    framesOf crc (recs ++ recs') = framesOf crc recs ++ framesOf crc recs' :=
  flatMap_append

theorem lastNumber_append (last : Nat) (recs recs' : List WalReplayRecord) :
    lastNumber last (recs ++ recs') = lastNumber (lastNumber last recs) recs' := by
  induction recs generalizing last with
  | nil => rfl
  | cons rec recs ih => exact ih rec.seq

theorem numbered_append {recs' : List WalReplayRecord} :
    NumberedFrom last (recs ++ recs') ↔
      NumberedFrom last recs ∧ NumberedFrom (lastNumber last recs) recs' := by
  induction recs generalizing last with
  | nil => exact ⟨fun h => ⟨trivial, h⟩, And.right⟩
  | cons rec recs ih =>
    rw [cons_append, NumberedFrom, NumberedFrom, ih, and_assoc]
    rfl

theorem crcMatches_frame (seq type : Nat) (data more : List UInt8) :
    crcMatches data.length (walFrame true seq type data ++ more) = true := by
  let head := leBytes 8 (omWalPackHeader seq type data.length) ++ data
  have hlen : head.length = walHeaderSize + data.length := by
    simp [head, walHeaderSize]
  have hframe : walFrame true seq type data ++ more =
      head ++ (leBytes 4 (crc32Compute head).toNat ++ more) := append_assoc ..
  have hword : (crc32Compute head).toNat < 256 ^ 4 := (crc32Compute head).isLt
  have hfield : (leBytes 4 (crc32Compute head).toNat ++ more).take walCrc32Size =
      leBytes 4 (crc32Compute head).toNat := take_left' (leBytes_length ..)
  rw [crcMatches, hframe, drop_left' hlen, take_left' hlen, hfield,
    leNat_leBytes_of_lt hword]
  simp

theorem WalReplayRecord.Readable.recordAt {rec : WalReplayRecord} (h : rec.Readable)
    (hnext : last ≠ 0 → rec.seq = last + 1) (more : List UInt8) :
    WalRecordAt crc last (rec.frame crc ++ more) rec where
  toReadable := h
  whole := by
    rw [length_append, frame_length]
    exact Nat.le_add_right ..
  header := by
    have hlen : 8 ≤ (rec.frame crc).length := by
      rw [frame_length]
      unfold recordSize walHeaderSize
      omega
    rw [take_append_of_le_length hlen]
    exact leNat_take_walFrame ..
  data := by
    have hframe := payload_walFrame crc rec.seq rec.type rec.data
    have hlen : walHeaderSize + rec.data.length ≤ (rec.frame crc).length := by
      rw [frame_length]
      exact Nat.le_add_right ..
    rw [drop_append_of_le_length (by omega), take_append_of_le_length]
    · exact hframe
    · rw [length_drop]
      omega
  next := hnext
  checksum := by
    rintro rfl
    exact crcMatches_frame ..

theorem reaches_frames (hread : ∀ rec ∈ recs, rec.Readable) (hseq : NumberedFrom last recs)
    (more : List UInt8) :
    WalReaches crc last offset (framesOf crc recs ++ more) recs (lastNumber last recs)
      (framesOf crc recs).length := by
  induction recs using reverseRecOn generalizing more with
  | nil => exact .start
  | append_singleton recs rec ih =>
    have hsplit : framesOf crc (recs ++ [rec]) = framesOf crc recs ++ rec.frame crc := by
      rw [framesOf_append]
      simp [framesOf]
    obtain ⟨hbefore, hnext, -⟩ := numbered_append.mp hseq
    have hreach := ih (fun r hr => hread r (mem_append_left _ hr)) hbefore
      (rec.frame crc ++ more)
    rw [hsplit, append_assoc, lastNumber_append, length_append, frame_length]
    refine .record hreach ?_
    rw [drop_left]
    exact parseItem_record_iff.mpr ((hread rec (by simp)).recordAt hnext more)

end Frames

theorem parseWal_zeros {crc : Bool} {last offset n : Nat} (h : (offset + n) % walAlign = 0) :
    parseWal crc last offset (replicate n 0) = ([], none) := by
  induction n using Nat.strong_induction_on generalizing offset with
  | _ n ih =>
    by_cases hn : n = 0
    · subst hn
      exact parseWal_of_eof (if_pos rfl)
    · have hlt : offset % walAlign < walAlign := Nat.mod_lt _ (by decide)
      have hpad : walAlign - offset % walAlign ≤ n := by
        by_contra hshort
        have hmod : (offset + n) % walAlign = offset % walAlign + n := by
          rw [Nat.add_mod, Nat.mod_eq_of_lt (a := n) (by omega), Nat.mod_eq_of_lt (by omega)]
        omega
      have hitem : parseItem crc last offset (replicate n 0) =
          .padding (walAlign - offset % walAlign) := by
        refine parseItem_padding_iff.mpr ⟨rfl, by simpa using hpad, ?_, .inr ?_⟩
        · intro b hb
          exact eq_of_mem_replicate (mem_of_mem_take hb)
        · have hzero : ∀ m, leNat (replicate m 0) = 0 := fun m => by
            induction m with
            | zero => rfl
            | succ m ih => simp [replicate_succ, leNat, ih]
          rw [take_replicate]
          exact hzero _
      rw [parseWal_of_padding hitem, drop_replicate]
      refine ih _ (by omega) ?_
      rw [Nat.add_assoc, Nat.add_sub_cancel' hpad]
      exact h

theorem alignUp_ge (n : Nat) : n ≤ alignUp n walAlign := by
  unfold alignUp walAlign
  omega

theorem alignUp_mod (n : Nat) : alignUp n walAlign % walAlign = 0 := Nat.mul_mod_left ..

theorem parseWal_walPadded {crc : Bool} {last offset : Nat} {recs : List WalReplayRecord}
    (hread : ∀ rec ∈ recs, rec.Readable) (hseq : NumberedFrom last recs)
    (hoffset : offset % walAlign = 0) :
    parseWal crc last offset (walPadded (framesOf crc recs)) = (recs, none) := by
  have hge := alignUp_ge (framesOf crc recs).length
  rw [walPadded, (reaches_frames hread hseq _).parse_eq, drop_left, walPadding,
    parseWal_zeros, append_nil]
  rw [Nat.add_assoc, Nat.add_sub_cancel' hge, Nat.add_mod, hoffset, alignUp_mod, Nat.zero_mod]

end VeloxMatch
