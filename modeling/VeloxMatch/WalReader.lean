import VeloxMatch.WalReplay

namespace VeloxMatch

open List

namespace OmWalReplay

def rest (r : OmWalReplay) : List UInt8 := r.file.drop r.position

structure WindowOk (r : OmWalReplay) : Prop where
  pos_le : r.bufferPos ≤ r.buffer.length
  len_le : r.buffer.length ≤ r.fileOffset
  offset_le : r.fileOffset ≤ r.file.length
  buffer : r.buffer = (r.file.drop (r.fileOffset - r.buffer.length)).take r.buffer.length

def Moved (r r' : OmWalReplay) : Prop :=
  r' = { r with
    buffer := r'.buffer
    bufferPos := r'.bufferPos
    fileOffset := r'.fileOffset
    reads := r'.reads }

section Window

variable {r r' r'' : OmWalReplay} {short : Nat → Nat → Nat} {n last : Nat}

theorem Moved.refl (r : OmWalReplay) : Moved r r := rfl

theorem Moved.trans (h : Moved r r') (h' : Moved r' r'') : Moved r r'' := by
  unfold Moved at h h' ⊢
  rw [h', h]

theorem WindowOk.position_add (h : r.WindowOk) : r.position + r.available = r.fileOffset := by
  have hpos := h.pos_le
  have hlen := h.len_le
  unfold position available
  omega

theorem WindowOk.rest_length (h : r.WindowOk) :
    r.rest.length = r.available + (r.file.length - r.fileOffset) := by
  have hadd := h.position_add
  have hle := h.offset_le
  rw [rest, length_drop]
  omega

theorem WindowOk.window_eq (h : r.WindowOk) : r.window = r.rest.take r.available := by
  have hpos := h.pos_le
  rw [window, h.buffer, drop_take, drop_drop]
  rfl

theorem window_length (r : OmWalReplay) : r.window.length = r.available := by
  rw [window, length_drop]
  rfl

theorem WindowOk.fill (h : r.WindowOk) (hmore : r.fileOffset < r.file.length)
    (hroom : r.available < replayBufferSize) :
    ∃ r', replayFillBuffer short r = some r' ∧ r'.WindowOk ∧ Moved r r' ∧
      r'.position = r.position ∧ r.fileOffset < r'.fileOffset := by
  have hadd := h.position_add
  have hread : 0 < min (replayBufferSize - r.available) (r.file.length - r.fileOffset) := by omega
  generalize hn : readCount short r.reads
    (min (replayBufferSize - r.available) (r.file.length - r.fileOffset)) = n
  have hpos : 0 < n := by
    rw [← hn, readCount]
    omega
  have hle : n ≤ r.file.length - r.fileOffset := by
    rw [← hn, readCount]
    omega
  refine ⟨{ r with
      buffer := r.window ++ (r.file.drop r.fileOffset).take n
      bufferPos := 0
      fileOffset := r.fileOffset + n
      reads := r.reads + 1 }, ?_, ?_, rfl, ?_, by dsimp only; omega⟩
  · rw [replayFillBuffer, if_neg (by omega)]
    dsimp only
    rw [if_neg (by omega), hn]
  · have hlen : (r.window ++ (r.file.drop r.fileOffset).take n).length = r.available + n := by
      rw [length_append, window_length, length_take, length_drop]
      omega
    refine ⟨Nat.zero_le _, ?_, ?_, ?_⟩
    · dsimp only
      omega
    · dsimp only
      omega
    · dsimp only
      rw [hlen, show r.fileOffset + n - (r.available + n) = r.position by omega, take_add,
        drop_drop, hadd, h.window_eq]
      rfl
  · have hlen : (r.window ++ (r.file.drop r.fileOffset).take n).length = r.available + n := by
      rw [length_append, window_length, length_take, length_drop]
      omega
    simp only [position] at hadd ⊢
    omega

theorem WindowOk.fillUntil (h : r.WindowOk) {need : Nat} (hneed : need ≤ replayBufferSize) :
    ∃ r', OmWalReplay.fillUntil short need r = .ok r' ∧ r'.WindowOk ∧ Moved r r' ∧
      r'.position = r.position ∧ (r'.rest.length < need ↔ r'.available < need) ∧
      min need r'.rest.length ≤ r'.available := by
  induction hleft : r.file.length - r.fileOffset using Nat.strong_induction_on generalizing r with
  | _ left ih =>
    rw [OmWalReplay.fillUntil]
    have hrest := h.rest_length
    split
    · next hmore =>
      obtain ⟨r', hfill, hok, hmoved, hposition, hlt⟩ :=
        @WindowOk.fill r short h hmore.2 (by omega)
      have hfile : r'.file.length = r.file.length := by rw [hmoved]
      obtain ⟨r'', hloop, hok', hmoved', hposition', hrest'⟩ :=
        ih (r'.file.length - r'.fileOffset) (by omega) hok rfl
      refine ⟨r'', ?_, hok', hmoved.trans hmoved', hposition'.trans hposition, hrest'⟩
      split
      · next hnone => rw [hfill] at hnone; cases hnone
      · next hsome =>
        rw [hfill] at hsome
        cases hsome
        exact hloop
    · next henough =>
      have hle := h.offset_le
      exact ⟨r, rfl, h, .refl r, rfl, by omega, by omega⟩

theorem WindowOk.consume (h : r.WindowOk) (hn : n ≤ r.available) :
    ({ r with bufferPos := r.bufferPos + n, lastSequence := last } : OmWalReplay).WindowOk ∧
      ({ r with bufferPos := r.bufferPos + n, lastSequence := last } : OmWalReplay).position =
        r.position + n := by
  have hpos := h.pos_le
  unfold available at hn
  refine ⟨⟨by dsimp only; omega, h.len_le, h.offset_le, h.buffer⟩, ?_⟩
  simp only [position]
  omega

/-- The replay `r` after `n` bytes, with the number of the last record. -/
structure After (r r' : OmWalReplay) (n last : Nat) : Prop where
  ok : r'.WindowOk
  file : r'.file = r.file
  files : r'.files = r.files
  fdOpen : r'.fdOpen = r.fdOpen
  fileIndex : r'.fileIndex = r.fileIndex
  crc : r'.enableCrc32 = r.enableCrc32
  position : r'.position = r.position + n
  last : r'.lastSequence = last

theorem After.rest_eq (h : After r r' n last) : r'.rest = r.rest.drop n := by
  rw [rest, rest, h.file, h.position, drop_drop]

theorem Moved.after (h : Moved r r') (hok : r'.WindowOk) (hposition : r'.position = r.position) :
    After r r' 0 r.lastSequence := by
  refine ⟨hok, ?_, ?_, ?_, ?_, ?_, hposition, ?_⟩ <;> rw [h]

def TurnMeets (r : OmWalReplay) (turn : Turn) : WalItem → Prop
  | .eof => turn = .done .eof r
  | .error err => ∃ r', turn = .done (.error err) r' ∧ After r r' 0 r.lastSequence
  | .padding n => ∃ r', turn = .again r' ∧ After r r' n r.lastSequence
  | .record rec => ∃ r', turn = .done (.record rec) r' ∧
      After r r' (recordSize r.enableCrc32 rec.data.length) rec.seq

theorem TurnMeets.of_after {turn : Turn} {item : WalItem} (h : After r r' 0 r.lastSequence)
    (hne : item ≠ .eof) (hmeets : TurnMeets r' turn item) : TurnMeets r turn item := by
  have htrans : ∀ {r'' : OmWalReplay} {n last : Nat}, After r' r'' n last → After r r'' n last :=
    fun h' => ⟨h'.ok, h'.file.trans h.file, h'.files.trans h.files, h'.fdOpen.trans h.fdOpen,
      h'.fileIndex.trans h.fileIndex, h'.crc.trans h.crc,
      h'.position.trans (by rw [h.position, Nat.add_zero]), h'.last⟩
  cases item with
  | eof => exact absurd rfl hne
  | error err =>
    obtain ⟨r'', hturn, hafter⟩ := hmeets
    exact ⟨r'', hturn, h.last ▸ htrans hafter⟩
  | padding n =>
    obtain ⟨r'', hturn, hafter⟩ := hmeets
    exact ⟨r'', hturn, h.last ▸ htrans hafter⟩
  | record rec =>
    obtain ⟨r'', hturn, hafter⟩ := hmeets
    exact ⟨r'', hturn, h.crc ▸ htrans hafter⟩

theorem WindowOk.window_take (h : r.WindowOk) (hn : n ≤ r.available) :
    r.window.take n = r.rest.take n := by
  rw [h.window_eq, take_take, Nat.min_eq_left hn]

theorem replayPadding_meets (h : r.WindowOk) :
    TurnMeets r (replayPadding short r) (parsePadding r.position r.rest) := by
  have hpad : walAlign - r.position % walAlign ≤ replayBufferSize := by
    unfold walAlign replayBufferSize
    omega
  obtain ⟨r', hfill, hok, hmoved, hposition, hiff, hmin⟩ :=
    @WindowOk.fillUntil r short h _ hpad
  have hrest : r'.rest = r.rest := by rw [rest, rest, hposition, hmoved]
  have hafter := hmoved.after hok hposition
  unfold replayPadding parsePadding
  dsimp only
  rw [hfill]
  dsimp only
  generalize hpadEq : walAlign - r.position % walAlign = pad at hiff hmin
  rw [← hrest]
  by_cases hshort : r'.available < pad
  · rw [if_pos hshort, if_pos (hiff.mpr hshort)]
    exact ⟨r', rfl, hafter⟩
  · rw [if_neg hshort, if_neg (mt hiff.mp hshort), hok.window_take (Nat.not_lt.mp hshort)]
    split
    · exact ⟨r', rfl, hafter⟩
    · obtain ⟨hok', hposition'⟩ :=
        @WindowOk.consume r' pad r'.lastSequence hok (Nat.not_lt.mp hshort)
      refine ⟨_, rfl, hok', hafter.file, hafter.files, hafter.fdOpen, hafter.fileIndex, hafter.crc,
        ?_, hafter.last⟩
      exact hposition'.trans (by rw [hposition])

theorem replayWhole_meets (h : r.WindowOk) {tag len seq offset : Nat}
    (htotal : recordSize r.enableCrc32 len ≤ r.available) :
    TurnMeets r (replayWhole r noHandler tag len seq offset)
      (parseWhole r.enableCrc32 tag len seq r.rest) := by
  have hpart : ∀ n m, n + m ≤ recordSize r.enableCrc32 len →
      (r.window.drop n).take m = (r.rest.drop n).take m := by
    intro n m hnm
    rw [take_drop, take_drop, h.window_take (by omega)]
  have hdata : (r.window.drop walHeaderSize).take len = (r.rest.drop walHeaderSize).take len :=
    hpart _ _ (Nat.le_add_right ..)
  have hlength : ((r.rest.drop walHeaderSize).take len).length = len := by
    have hrest := h.rest_length
    unfold recordSize at htotal
    rw [length_take, length_drop]
    omega
  have hcheck : ∀ a b, ((r.noteRecord offset a b).enableCrc32 &&
      BitVec.ofNat 32 (leNat ((r.window.drop (walHeaderSize + len)).take walCrc32Size)) !=
        crc32Compute (r.window.take (walHeaderSize + len))) =
      (r.enableCrc32 && !crcMatches len r.rest) := by
    intro a b
    change (r.enableCrc32 && _) = _
    cases hcrc : r.enableCrc32 with
    | false => rfl
    | true =>
      rw [hcrc] at hpart htotal
      rw [crcMatches, hpart (walHeaderSize + len) walCrc32Size (Nat.le_refl _),
        h.window_take (Nat.le_trans (Nat.le_add_right ..) htotal)]
      rfl
  unfold replayWhole parseWhole
  dsimp only
  rw [hdata]
  split
  · exact ⟨r, rfl, (Moved.refl r).after h rfl⟩
  by_cases hbad : (r.enableCrc32 && !crcMatches len r.rest) = true
  · rw [if_pos hbad, if_pos ((hcheck _ _).trans hbad)]
    exact ⟨_, rfl, ⟨h.pos_le, h.len_le, h.offset_le, h.buffer⟩, rfl, rfl, rfl, rfl, rfl, rfl, rfl⟩
  · rw [if_neg hbad, if_neg (mt (hcheck _ _).symm.trans hbad)]
    obtain ⟨hok, hposition⟩ := @WindowOk.consume r _ seq h htotal
    rw [noHandler, Bool.and_false, if_neg Bool.false_ne_true]
    refine ⟨_, rfl, ⟨hok.pos_le, hok.len_le, hok.offset_le, hok.buffer⟩, rfl, rfl, rfl, rfl, rfl,
      ?_, rfl⟩
    rw [hlength]
    exact hposition

theorem replayRecord_meets (h : r.WindowOk) :
    TurnMeets r (replayRecord short r noHandler (leNat (r.rest.take 8)))
      (parseRecord r.enableCrc32 r.lastSequence (leNat (r.rest.take 8)) r.rest) := by
  generalize leNat (r.rest.take 8) = packed
  have hlen : omWalHeaderLen packed < 2 ^ 16 := Nat.mod_lt _ (by decide)
  have htotal : recordSize r.enableCrc32 (omWalHeaderLen packed) ≤ replayBufferSize := by
    have hcrc : walCrcSize r.enableCrc32 ≤ 4 := by cases r.enableCrc32 <;> decide
    unfold recordSize walHeaderSize replayBufferSize
    omega
  obtain ⟨r', hfill, hok, hmoved, hposition, hiff, -⟩ :=
    @WindowOk.fillUntil r short h _ htotal
  have hrest : r'.rest = r.rest := by rw [rest, rest, hposition, hmoved]
  have hafter := hmoved.after hok hposition
  unfold replayRecord parseRecord
  dsimp only
  split
  · exact ⟨r, rfl, (Moved.refl r).after h rfl⟩
  unfold recordSize at hfill htotal hiff ⊢
  rw [if_neg (Nat.not_lt.mpr htotal), hfill]
  dsimp only
  rw [← hrest]
  by_cases hshort : r'.available <
      walHeaderSize + omWalHeaderLen packed + walCrcSize r.enableCrc32
  · rw [if_pos hshort, if_pos (hiff.mpr hshort)]
    exact ⟨r', rfl, hafter⟩
  · rw [if_neg hshort, if_neg (mt hiff.mp hshort)]
    have hwhole := @replayWhole_meets r' hok (omWalHeaderType packed) (omWalHeaderLen packed)
      (omWalHeaderSeq packed) r.position (by rw [hafter.crc]; exact Nat.not_lt.mp hshort)
    rw [hafter.crc] at hwhole
    exact TurnMeets.of_after hafter (parseWhole_ne_eof _ _ _ _ _) hwhole

theorem replayTurn_meets (h : r.WindowOk) (hne : r.rest ≠ []) :
    TurnMeets r (replayTurn short r noHandler)
      (parseItem r.enableCrc32 r.lastSequence r.position r.rest) := by
  obtain ⟨r', hfill, hok, hmoved, hposition, hiff, hmin⟩ :=
    @WindowOk.fillUntil r short h walHeaderSize (by decide)
  have hrest : r'.rest = r.rest := by rw [rest, rest, hposition, hmoved]
  have hafter := hmoved.after hok hposition
  have hpos : 0 < r'.rest.length := by
    rw [hrest]
    exact length_pos_iff.mpr hne
  have hsome : r'.available ≠ 0 := by
    unfold walHeaderSize at hmin
    omega
  unfold replayTurn parseItem
  rw [hfill, if_neg hne]
  dsimp only
  rw [if_neg hsome, ← hrest, ← hposition]
  by_cases hshort : r'.available < walHeaderSize
  · rw [if_pos (.inl hshort), if_pos (.inl (hiff.mpr hshort))]
    exact TurnMeets.of_after hafter (parsePadding_ne_eof _ _) (replayPadding_meets hok)
  · have htake : r'.window.take 8 = r'.rest.take 8 := hok.window_take (Nat.not_lt.mp hshort)
    have hlong : ¬r'.rest.length < walHeaderSize := mt hiff.mp hshort
    rw [htake]
    by_cases hzero : leNat (r'.rest.take 8) = 0
    · rw [if_pos (.inr hzero), if_pos (.inr hzero)]
      exact TurnMeets.of_after hafter (parsePadding_ne_eof _ _) (replayPadding_meets hok)
    · rw [if_neg (by omega), if_neg (by omega), ← hafter.crc]
      have hmeets := @replayRecord_meets r' short hok
      rw [hafter.last] at hmeets
      exact TurnMeets.of_after hafter (parseRecord_ne_eof _ _ _ _) hmeets

def item (r : OmWalReplay) : WalItem :=
  parseItem r.enableCrc32 r.lastSequence r.position r.rest

theorem After.item_eq (h : After r r' n last) :
    r'.item = parseItem r.enableCrc32 last (r.position + n) (r.rest.drop n) := by
  rw [item, h.crc, h.last, h.position, h.rest_eq]

end Window

end OmWalReplay

end VeloxMatch
