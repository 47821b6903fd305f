import VeloxMatch.WalFrames

namespace VeloxMatch

open List

theorem crc32Poly_top : crc32Poly.getLsbD 31 = true := by decide

theorem crcFold_of_crcMatches {len : Nat} {rest : List UInt8}
    (hwhole : recordSize true len ≤ rest.length) (h : crcMatches len rest = true) :
    crcFold crc32Poly 0xFFFFFFFF#32 (rest.take (recordSize true len)) =
      crcShifts crc32Poly 32 0xFFFFFFFF#32 := by
  have hsplit : rest.take (recordSize true len) =
      rest.take (walHeaderSize + len) ++ (rest.drop (walHeaderSize + len)).take walCrc32Size :=
    take_add
  have htrailer : ((rest.drop (walHeaderSize + len)).take walCrc32Size).length = 4 := by
    rw [length_take, length_drop]
    unfold recordSize walCrcSize at hwhole
    unfold walCrc32Size
    simp only [if_true, walCrc32Size] at hwhole
    omega
  rw [hsplit]
  refine crcFold_trailer _ _ htrailer ?_
  rw [bytesWord_eq]
  exact eq_of_beq h

theorem burst_split {as bs : List UInt8} {p : Nat}
    (hout : ∀ i, i < p ∨ p + 4 ≤ i → as[i]? = bs[i]?) :
    as = bs.take p ++ (as.drop p).take 4 ++ bs.drop (p + 4) := by
  have hbefore : as.take p = bs.take p := by
    refine ext_getElem? fun i => ?_
    rw [getElem?_take, getElem?_take]
    split
    · next hi => exact hout i (.inl hi)
    · rfl
  have hafter : as.drop (p + 4) = bs.drop (p + 4) := by
    refine ext_getElem? fun i => ?_
    rw [getElem?_drop, getElem?_drop]
    exact hout _ (.inr (Nat.le_add_right ..))
  rw [← hbefore, ← hafter, append_assoc, ← drop_drop, take_append_drop,
    take_append_drop]

theorem eq_of_crcMatches {len p : Nat} {rest rest' : List UInt8}
    (hlength : rest'.length = rest.length) (hwhole : recordSize true len ≤ rest.length)
    (hp : p + 4 ≤ recordSize true len) (hout : ∀ i, i < p ∨ p + 4 ≤ i → rest'[i]? = rest[i]?)
    (h : crcMatches len rest = true) (h' : crcMatches len rest' = true) : rest' = rest := by
  have hfold := (crcFold_of_crcMatches (hlength ▸ hwhole) h').trans
    (crcFold_of_crcMatches hwhole h).symm
  generalize hbs : rest.take (recordSize true len) = bs at hfold
  generalize has : rest'.take (recordSize true len) = as at hfold
  have hagree : ∀ i, i < p ∨ p + 4 ≤ i → as[i]? = bs[i]? := by
    intro i hi
    rw [← has, ← hbs, getElem?_take, getElem?_take, hout i hi]
  have hburst : (as.drop p).take 4 = (bs.drop p).take 4 := by
    have hself : bs = bs.take p ++ (bs.drop p).take 4 ++ bs.drop (p + 4) :=
      burst_split fun _ _ => rfl
    rw [burst_split hagree, congrArg (crcFold crc32Poly 0xFFFFFFFF#32) hself] at hfold
    refine eq_of_crcFold_eq crc32Poly_top ?_ ?_ hfold
    · rw [length_take, length_take, length_drop, length_drop, ← has, ← hbs,
        length_take, length_take, hlength]
    · exact length_take_le ..
  refine ext_getElem? fun i => ?_
  by_cases hi : i < p ∨ p + 4 ≤ i
  · exact hout i hi
  · have hin := congrArg (·[i - p]?) hburst
    simp only [getElem?_take, getElem?_drop, ← has, ← hbs] at hin
    rwa [if_pos (by omega), if_pos (by omega), if_pos (by omega), if_pos (by omega),
      show p + (i - p) = i by omega] at hin

/-- A record whose payload or CRC field is damaged in four places is not read. -/
theorem parseItem_burst {last offset p : Nat} {rest rest' : List UInt8} {rec : WalReplayRecord}
    (h : WalRecordAt true last rest rec) (hlength : rest'.length = rest.length)
    (hfrom : walHeaderSize ≤ p) (hto : p + 4 ≤ recordSize true rec.data.length)
    (hout : ∀ i, i < p ∨ p + 4 ≤ i → rest'[i]? = rest[i]?) (hne : rest' ≠ rest) :
    ∃ err, parseItem true last offset rest' = .error err := by
  have hhead : rest'.take 8 = rest.take 8 := by
    refine ext_getElem? fun i => ?_
    rw [getElem?_take, getElem?_take]
    split
    · next hi => exact hout i (.inl (Nat.lt_of_lt_of_le hi hfrom))
    · rfl
  have hbad : crcMatches rec.data.length rest' = false := by
    refine Bool.eq_false_iff.mpr fun hmatch => hne ?_
    exact eq_of_crcMatches hlength h.whole hto hout (h.checksum rfl) hmatch
  rw [parseItem_eq_parseWhole (hhead ▸ h.header) h.tag h.typeLt h.lenLt h.seqLt h.seqPos h.next
    (hlength ▸ h.whole), parseWhole, hbad]
  split
  · exact ⟨_, rfl⟩
  · exact ⟨_, rfl⟩

/-- A file that replays completely and is then damaged within four bytes of the payload and the
CRC field of one record replays up to that record and fails there. -/
theorem burst_detected (short : Nat → Nat → Nat) {file file' : List UInt8}
    {recs before : List WalReplayRecord} {rec : WalReplayRecord} {offset p : Nat}
    (hfile : replayFile short file true = some (recs, none))
    (hrec : StandsAt true file before offset rec) (hfrom : offset + walHeaderSize ≤ p)
    (hto : p + 4 ≤ offset + recordSize true rec.data.length) (hlength : file'.length = file.length)
    (hout : ∀ i, i < p ∨ p + 4 ≤ i → file'[i]? = file[i]?) (hne : file' ≠ file) :
    (∃ after, recs = before ++ rec :: after) ∧
      ∃ err, replayFile short file' true = some (before, some err) := by
  obtain ⟨last, hreach, hitem⟩ := hrec
  rw [replayFile_eq, hreach.parse_eq, Nat.zero_add, parseWal_of_record hitem] at hfile
  refine ⟨⟨_, (congrArg Prod.fst (Option.some.inj hfile)).symm⟩, ?_⟩
  have htake : file'.take (offset + 8) = file.take (offset + 8) := by
    refine ext_getElem? fun i => ?_
    rw [getElem?_take, getElem?_take]
    split
    · next hi => exact hout i (.inl (Nat.lt_of_lt_of_le hi hfrom))
    · rfl
  have hbefore : file'.take offset = file.take offset := take_congr htake (Nat.le_add_right ..)
  obtain ⟨err, herr⟩ := @parseItem_burst last offset (p - offset) (file.drop offset)
    (file'.drop offset) rec (parseItem_record_iff.mp hitem)
    (by rw [length_drop, length_drop, hlength]) (by omega) (by omega)
    (fun i hi => by
      rw [getElem?_drop, getElem?_drop]
      exact hout _ (by omega))
    (fun hsame => hne (by
      rw [← take_append_drop offset file', hbefore, hsame, take_append_drop]))
  refine ⟨err, ?_⟩
  rw [replayFile_eq, (hreach.congr htake).parse_eq, Nat.zero_add, parseWal_of_error herr,
    append_nil]

def oneByteRecord : WalReplayRecord := ⟨walUserBase, 1, [7]⟩

theorem oneByteRecord_readable : oneByteRecord.Readable :=
  ⟨⟨by decide, by decide, by decide, by decide, by decide⟩, by decide⟩

theorem burst_detected_payload_byte :
    (∃ after, [oneByteRecord] = [] ++ oneByteRecord :: after) ∧
      ∃ err, replayFile (fun _ n => n) ((walPadded (framesOf true [oneByteRecord])).set 8 0) true =
        some ([], some err) := by
  have hread : ∀ rec ∈ [oneByteRecord], rec.Readable := fun rec hrec =>
    eq_of_mem_singleton hrec ▸ oneByteRecord_readable
  have hnumbers : NumberedFrom 0 [oneByteRecord] := ⟨nofun, trivial⟩
  have hat : WalRecordAt true 0 (walPadded (framesOf true [oneByteRecord])) oneByteRecord := by
    rw [walPadded, framesOf, flatMap_singleton]
    exact oneByteRecord_readable.recordAt nofun _
  have hbyte : (walPadded (framesOf true [oneByteRecord]))[8]? = some 7 := by
    have hdata := congrArg (·[0]?) hat.data
    simpa [walHeaderSize, oneByteRecord] using hdata
  refine burst_detected (p := 8) (fun _ n => n) ?_
    ⟨0, .start, parseItem_record_iff.mpr hat⟩ (by decide) (by decide) (length_set ..) ?_ ?_
  · exact (replayFile_eq ..).trans
      (congrArg some (parseWal_walPadded hread hnumbers (Nat.zero_mod _)))
  · intro i hi
    exact getElem?_set_ne (by omega)
  · intro hsame
    have hset : ((walPadded (framesOf true [oneByteRecord])).set 8 0)[8]? = some 7 := hsame ▸ hbyte
    rw [getElem?_set_self] at hset
    · cases hset
    · exact (List.getElem?_eq_some_iff.mp hbyte).1

end VeloxMatch
