import VeloxMatch.WalFrames

namespace VeloxMatch

open List

def padAt (offset : Nat) : Nat := walAlign - offset % walAlign

/-- A cut inside the header of a record that crosses a block boundary, behind the boundary, where
the part of the header before the boundary is not zero. -/
def CutsHeader (offset cut : Nat) (rest : List UInt8) : Prop :=
  padAt offset ≤ cut ∧ cut < 8 ∧ ∃ b ∈ rest.take (padAt offset), b ≠ 0

section Cut

variable {crc : Bool} {last offset cut : Nat} {rest : List UInt8}

theorem parseWal_short (hcut : 0 < cut) (hlen : rest.length = cut) (hpad : cut < padAt offset)
    (hhead : cut < 8 ∨ leNat (rest.take 8) = 0) :
    parseWal crc last offset rest = ([], some .walTruncated) := by
  have hne : rest ≠ [] := ne_nil_of_length_pos (by omega)
  refine parseWal_of_error ?_
  rw [parseItem, if_neg hne, if_pos (by rw [hlen]; exact hhead), parsePadding]
  exact if_pos (by unfold padAt at hpad; omega)

theorem parseWal_cut_padding {n : Nat} (h : parseItem crc last offset rest = .padding n)
    (hcut : cut < n) :
    parseWal crc last offset (rest.take cut) = ([], none) ∨
      parseWal crc last offset (rest.take cut) = ([], some .walTruncated) := by
  obtain ⟨hn, hle, -, hhead⟩ := parseItem_padding_iff.mp h
  by_cases hzero : cut = 0
  · left
    rw [hzero]
    exact parseWal_of_eof (if_pos rfl)
  · right
    have hpad : cut < padAt offset := Nat.lt_of_lt_of_eq hcut hn
    refine parseWal_short (Nat.pos_of_ne_zero hzero) (by rw [length_take]; omega) hpad ?_
    by_cases hshort : cut < 8
    · exact .inl hshort
    · right
      rw [take_take, Nat.min_eq_left (by omega)]
      refine hhead.resolve_left ?_
      unfold walHeaderSize
      omega

theorem parseWal_cut_payload {rec : WalReplayRecord} (h : WalRecordAt crc last rest rec)
    (hhead : 8 ≤ cut) (hcut : cut < recordSize crc rec.data.length) :
    parseWal crc last offset (rest.take cut) = ([], some .walTruncated) := by
  have hwhole := h.whole
  have hlen : (rest.take cut).length = cut := by rw [length_take]; omega
  have hheader : leNat ((rest.take cut).take 8) =
      omWalPackHeader rec.seq rec.type rec.data.length := by
    rw [take_take, Nat.min_eq_left hhead]
    exact h.header
  refine parseWal_of_error ?_
  exact parseItem_short_record hheader h.tag h.typeLt h.lenLt h.seqLt h.seqPos h.next
    (by rw [hlen]; exact hhead) (by rw [hlen]; exact hcut)

/-- A record that is cut inside its header is torn, unless the bytes before a block boundary are
taken for padding. -/
theorem parseWal_cut_header (hlen : 8 ≤ rest.length) (hcut : cut < 8) :
    (CutsHeader offset cut rest →
      parseWal crc last offset (rest.take cut) = ([], some .walRead)) ∧
    (¬CutsHeader offset cut rest →
      parseWal crc last offset (rest.take cut) = ([], none) ∨
        parseWal crc last offset (rest.take cut) = ([], some .walTruncated)) := by
  have hpos : 0 < padAt offset := Nat.sub_pos_of_lt (Nat.mod_lt _ (by decide))
  have hlength : (rest.take cut).length = cut := by rw [length_take]; omega
  by_cases hzero : cut = 0
  · refine ⟨fun hbad => absurd hbad.1 (by omega), fun _ => .inl ?_⟩
    rw [hzero]
    exact parseWal_of_eof (if_pos rfl)
  by_cases hpad : cut < padAt offset
  · exact ⟨fun hbad => absurd hbad.1 (by omega),
      fun _ => .inr (parseWal_short (Nat.pos_of_ne_zero hzero) hlength hpad (.inl hcut))⟩
  have htake : (rest.take cut).take (padAt offset) = rest.take (padAt offset) := by
    rw [take_take, Nat.min_eq_left (by omega)]
  have hitem : parseItem crc last offset (rest.take cut) =
      if (rest.take (padAt offset)).any (· != 0) then .error .walRead
      else .padding (padAt offset) := by
    rw [parseItem, if_neg (ne_nil_of_length_pos (by omega)),
      if_pos (.inl (by rw [hlength]; exact hcut)), parsePadding]
    rw [← htake]
    exact if_neg (by rw [hlength]; exact hpad)
  by_cases hany : (rest.take (padAt offset)).any (· != 0) = true
  · rw [if_pos hany] at hitem
    obtain ⟨b, hb, hne⟩ := any_eq_true.mp hany
    refine ⟨fun _ => parseWal_of_error hitem, fun hgood => absurd ?_ hgood⟩
    exact ⟨Nat.not_lt.mp hpad, hcut, b, hb, by simpa using hne⟩
  · rw [if_neg hany] at hitem
    refine ⟨?_, fun _ => ?_⟩
    · rintro ⟨_, _, b, hb, hne⟩
      refine absurd ?_ hany
      exact any_eq_true.mpr ⟨b, hb, by simpa using hne⟩
    · rw [parseWal_of_padding hitem]
      by_cases hend : cut = padAt offset
      · left
        rw [drop_eq_nil_of_le (by rw [hlength]; omega)]
        exact parseWal_of_eof (if_pos rfl)
      · right
        have hnext : padAt (offset + padAt offset) = walAlign := by
          unfold padAt walAlign
          omega
        refine @parseWal_short crc last _ (cut - padAt offset) _ (by omega)
          (by rw [length_drop, hlength]) ?_ (.inl (by omega))
        rw [hnext]
        unfold walAlign
        omega

end Cut

inductive CutAt (crc : Bool) (last offset : Nat) (rest : List UInt8) (cut : Nat) : Prop where
  | padding {n : Nat} (hitem : parseItem crc last offset rest = .padding n) (hcut : cut < n)
  | record {rec : WalReplayRecord} (hitem : parseItem crc last offset rest = .record rec)
      (hcut : cut < recordSize crc rec.data.length)

section Crossing

variable {crc : Bool} {last offset : Nat} {rest : List UInt8} {recs before : List WalReplayRecord}
  {last' n cut : Nat}

/-- Reading a file to its end comes to the item that a cut falls into. -/
theorem exists_cutAt (hparse : parseWal crc last offset rest = (recs, none))
    (hreach : WalReaches crc last offset rest before last' n) (hn : n ≤ cut)
    (hcut : cut < rest.length) :
    ∃ before last' n, WalReaches crc last offset rest before last' n ∧ n ≤ cut ∧
      CutAt crc last' (offset + n) (rest.drop n) (cut - n) := by
  induction hleft : rest.length - n using Nat.strong_induction_on generalizing before last' n with
  | _ left ih =>
    have hrest := hreach.parse_eq
    rw [hparse] at hrest
    cases hitem : parseItem crc last' (offset + n) (rest.drop n) with
    | eof =>
      have hlen := drop_eq_nil_iff.mp (nil_of_parseItem_eof _ hitem)
      omega
    | error err =>
      rw [parseWal_of_error hitem] at hrest
      cases congrArg Prod.snd hrest
    | padding k =>
      by_cases hin : cut < n + k
      · exact ⟨before, last', n, hreach, hn, .padding hitem (by omega)⟩
      · have hpos := (padding_pos hitem).1
        exact ih (rest.length - (n + k)) (by omega) (hreach.padding hitem) (by omega) rfl
    | record rec =>
      by_cases hin : cut < n + recordSize crc rec.data.length
      · exact ⟨before, last', n, hreach, hn, .record hitem (by omega)⟩
      · have hpos : 0 < recordSize crc rec.data.length := by
          unfold recordSize walHeaderSize
          omega
        exact ih (rest.length - (n + recordSize crc rec.data.length)) (by omega)
          (hreach.record hitem) (by omega) rfl

theorem parseWal_take_of_reaches (hreach : WalReaches crc last offset rest before last' n)
    (hn : n ≤ cut) {err : Option OmError}
    (hend : parseWal crc last' (offset + n) ((rest.drop n).take (cut - n)) = ([], err)) :
    parseWal crc last offset (rest.take cut) = (before, err) := by
  rw [(hreach.cut hn).parse_eq, drop_take, hend, append_nil]

end Crossing

/-- A cut that makes the reader see corruption. -/
def BadCut (crc : Bool) (file : List UInt8) (cut : Nat) : Prop :=
  ∃ before offset rec, StandsAt crc file before offset rec ∧ offset ≤ cut ∧
    CutsHeader offset (cut - offset) (file.drop offset)

/-- Replaying gives a start of the records and then 0 or the code of a torn record. -/
def SeenAsTorn (recs : List WalReplayRecord) (out : Option (List WalReplayRecord × Option OmError)) :
    Prop :=
  ∃ before err, out = some (before, err) ∧ before <+: recs ∧
    (err = none ∨ err = some .walTruncated)

section Torn

variable {crc : Bool} {file : List UInt8} {recs : List WalReplayRecord} {cut : Nat}

theorem parseWal_of_badCut (h : BadCut crc file cut) :
    ∃ before, parseWal crc 0 0 (file.take cut) = (before, some .walRead) := by
  obtain ⟨before, offset, rec, ⟨last, hreach, hitem⟩, hle, hcuts⟩ := h
  have hlen : 8 ≤ (file.drop offset).length := by
    have hwhole := (parseItem_record_iff.mp hitem).whole
    unfold recordSize walHeaderSize at hwhole
    omega
  refine ⟨before, parseWal_take_of_reaches hreach hle ?_⟩
  rw [Nat.zero_add]
  exact (parseWal_cut_header hlen hcuts.2.1).1 hcuts

theorem parseWal_of_not_badCut (hfile : parseWal crc 0 0 file = (recs, none))
    (h : ¬BadCut crc file cut) :
    ∃ before err, parseWal crc 0 0 (file.take cut) = (before, err) ∧ before <+: recs ∧
      (err = none ∨ err = some .walTruncated) := by
  by_cases hcut : cut < file.length
  · obtain ⟨before, last, n, hreach, hn, hat⟩ := exists_cutAt hfile .start (Nat.zero_le _) hcut
    have hbefore : before <+: recs := by
      have hparse := hreach.parse_eq
      rw [hfile] at hparse
      exact ⟨_, (congrArg Prod.fst hparse).symm⟩
    have hdone : ∀ err, parseWal crc last (0 + n) ((file.drop n).take (cut - n)) = ([], err) →
        err = none ∨ err = some .walTruncated →
        ∃ before err, parseWal crc 0 0 (file.take cut) = (before, err) ∧ before <+: recs ∧
          (err = none ∨ err = some .walTruncated) := fun err hend herr =>
      ⟨before, err, parseWal_take_of_reaches hreach hn hend, hbefore, herr⟩
    cases hat with
    | padding hitem hin =>
      rcases parseWal_cut_padding hitem hin with hend | hend
      · exact hdone _ hend (.inl rfl)
      · exact hdone _ hend (.inr rfl)
    | @record rec hitem hin =>
      have hrec := parseItem_record_iff.mp hitem
      by_cases hhead : cut - n < 8
      · have hlen : 8 ≤ (file.drop n).length := by
          have hwhole := hrec.whole
          unfold recordSize walHeaderSize at hwhole
          omega
        have hgood : ¬CutsHeader (0 + n) (cut - n) (file.drop n) := fun hbad =>
          h ⟨before, n, rec, ⟨last, hreach, by rwa [Nat.zero_add] at hitem⟩, hn,
            by rwa [Nat.zero_add] at hbad⟩
        rcases (parseWal_cut_header hlen hhead).2 hgood with hend | hend
        · exact hdone _ hend (.inl rfl)
        · exact hdone _ hend (.inr rfl)
      · exact hdone _ (parseWal_cut_payload hrec (by omega) hin) (.inr rfl)
  · rw [take_of_length_le (by omega), hfile]
    exact ⟨recs, none, rfl, prefix_rfl, .inl rfl⟩

end Torn

/-- A file that replays to its end and is cut is seen as torn, unless the cut is in the header of a
record that crosses a block boundary and is taken for padding that is not zero. -/
theorem torn_tail_iff (short : Nat → Nat → Nat) {file : List UInt8} {recs : List WalReplayRecord}
    (hfile : replayFile short file true = some (recs, none)) (cut : Nat) :
    SeenAsTorn recs (replayFile short (file.take cut) true) ↔ ¬BadCut true file cut := by
  rw [replayFile_eq] at hfile
  rw [replayFile_eq]
  constructor
  · rintro ⟨before, err, hparse, -, herr⟩ hbad
    obtain ⟨before', hread⟩ := parseWal_of_badCut hbad
    rw [hread] at hparse
    cases hparse
    rcases herr with herr | herr <;> cases herr
  · intro hgood
    obtain ⟨before, err, hparse, hbefore, herr⟩ :=
      parseWal_of_not_badCut (Option.some.inj hfile) hgood
    exact ⟨before, err, congrArg some hparse, hbefore, herr⟩

/-- A record that ends four bytes before a block boundary, and one behind it. -/
def blockRecord : WalReplayRecord := ⟨walUserBase, 1, replicate 4080 0⟩

def nextRecord : WalReplayRecord := ⟨walUserBase, 2, []⟩

theorem blockRecord_length : blockRecord.data.length = 4080 := length_replicate ..

theorem blockRecord_readable : blockRecord.Readable :=
  ⟨⟨by decide, rfl, by rw [blockRecord_length]; decide, by decide, by decide⟩, by decide⟩

theorem nextRecord_readable : nextRecord.Readable :=
  ⟨⟨by decide, rfl, by decide, by decide, by decide⟩, by decide⟩

def blockFile : List UInt8 := walPadded (framesOf true [blockRecord, nextRecord])

theorem blockFile_parse : parseWal true 0 0 blockFile = ([blockRecord, nextRecord], none) := by
  refine parseWal_walPadded ?_ ⟨nofun, fun _ => rfl, trivial⟩ (Nat.zero_mod _)
  intro rec hrec
  rcases mem_pair.mp hrec with rfl | rfl
  · exact blockRecord_readable
  · exact nextRecord_readable

theorem torn_tail_iff_block_file :
    replayFile (fun _ n => n) blockFile true = some ([blockRecord, nextRecord], none) ∧
      (SeenAsTorn [blockRecord, nextRecord] (replayFile (fun _ n => n) (blockFile.take 100) true) ↔
        ¬BadCut true blockFile 100) := by
  have hfile : replayFile (fun _ n => n) blockFile true = some ([blockRecord, nextRecord], none) :=
    (replayFile_eq ..).trans (congrArg some blockFile_parse)
  exact ⟨hfile, torn_tail_iff (fun _ n => n) hfile 100⟩

theorem blockFile_badCut : BadCut true blockFile 4096 := by
  let more := walPadding (framesOf true [blockRecord, nextRecord]).length
  have hfile : blockFile = framesOf true [blockRecord] ++ (nextRecord.frame true ++ more) := by
    simp [blockFile, walPadded, framesOf, more]
  have hlen : (framesOf true [blockRecord]).length = 4092 := by
    rw [framesOf, flatMap_singleton, frame_length, blockRecord_length]
    decide
  have hreach : WalReaches true 0 0 blockFile [blockRecord] 1 4092 := by
    have hnumbers : NumberedFrom 0 [blockRecord] := ⟨by simp, trivial⟩
    rw [hfile, ← hlen]
    refine reaches_frames ?_ hnumbers _
    intro rec hrec
    exact eq_of_mem_singleton hrec ▸ blockRecord_readable
  have hdrop : blockFile.drop 4092 = nextRecord.frame true ++ more := by
    rw [hfile]
    exact drop_left' hlen
  refine ⟨[blockRecord], 4092, nextRecord, ⟨1, hreach, ?_⟩, by decide, ?_, by decide, 0x80, ?_,
    by decide⟩
  · rw [hdrop]
    exact parseItem_record_iff.mpr (nextRecord_readable.recordAt (fun _ => rfl) _)
  · decide
  · have hhead : (nextRecord.frame true ++ more).take 4 = [0, 0, 0x80, 2] := by
      have htake := take_walFrame true nextRecord.seq nextRecord.type nextRecord.data
      rw [take_append_of_le_length (by rw [frame_length]; decide)]
      have hfour := congrArg (take 4) htake
      rw [take_take] at hfour
      refine hfour.trans ?_
      decide
    rw [hdrop, show padAt 4092 = 4 by decide, hhead]
    decide

/-- A file that is cut at a block boundary, with the header of a record across it. -/
theorem torn_tail_seen_as_corrupt :
    replayFile (fun _ n => n) blockFile true = some ([blockRecord, nextRecord], none) ∧
      ¬SeenAsTorn [blockRecord, nextRecord]
        (replayFile (fun _ n => n) (blockFile.take 4096) true) := by
  refine ⟨(replayFile_eq ..).trans (congrArg some blockFile_parse), ?_⟩
  rintro ⟨before, err, hparse, -, herr⟩
  obtain ⟨before', hread⟩ := parseWal_of_badCut blockFile_badCut
  rw [replayFile_eq, hread] at hparse
  cases hparse
  rcases herr with herr | herr <;> cases herr

end VeloxMatch
