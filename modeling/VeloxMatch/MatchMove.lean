import VeloxMatch.SameBook

namespace VeloxMatch

def OnlyEvents (e e' : OmEngine) : Prop := ∃ events, e' = { e with events := events }

theorem OnlyEvents.refl (e : OmEngine) : OnlyEvents e e := ⟨e.events, rfl⟩

theorem OnlyEvents.emit {e e' : OmEngine} (h : OnlyEvents e e') (registered : Bool)
    (event : OmEvent) : OnlyEvents e (e'.emit registered event) := by
  obtain ⟨v, rfl⟩ := h
  unfold OmEngine.emit
  split
  next => exact ⟨_, rfl⟩
  next => exact ⟨v, rfl⟩

theorem onlyEvents_emit (e : OmEngine) (registered : Bool) (event : OmEvent) :
    OnlyEvents e (e.emit registered event) :=
  (OnlyEvents.refl e).emit registered event

/-- Moves of the loops that leave the book alone. -/
inductive Walk (e : OmEngine) (f : MatchFrame) : MatchPc → MatchPc → Prop where
  | exhausted {idx : Option Nat} : f.takerRemaining ≠ 0 → omSlotFromIdx e.slab idx = none →
      Walk e f (.levels idx) .book
  | limit {idx : Option Nat} {level : Nat} : f.takerRemaining ≠ 0 →
      omSlotFromIdx e.slab idx = some level → f.beyondLimit (e.order level).price →
      Walk e f (.levels idx) .book
  | enter {idx : Option Nat} {level : Nat} : omSlotFromIdx e.slab idx = some level →
      ¬ f.beyondLimit (e.order level).price → Walk e f (.levels idx)
        (.makers (e.order level).price (e.slab.next .priceLadder level) (some level))
  | shut {idx : Option Nat} {level : Nat} : omSlotFromIdx e.slab idx = some level →
      ¬ f.beyondLimit (e.order level).price → f.excludeSameOrg = true →
      Walk e f (.levels idx) (.makers (e.order level).price (e.slab.next .priceLadder level) none)
  | search {idx : Option Nat} {level : Nat} : omSlotFromIdx e.slab idx = some level →
      ¬ f.beyondLimit (e.order level).price → f.excludeSameOrg = true → Walk e f (.levels idx)
        (.scan (e.order level).price (e.slab.next .priceLadder level) level (some level))
  | found {levelPrice head i : Nat} {nextLevelIdx : Option Nat} :
      Walk e f (.scan levelPrice nextLevelIdx head (some i))
        (.makers levelPrice nextLevelIdx (some i))
  | seek {levelPrice head i : Nat} {nextLevelIdx : Option Nat} :
      omSlotFromIdx e.slab (some i) = some i → (e.order i).org = (e.order f.taker).org →
      Walk e f (.scan levelPrice nextLevelIdx head (some i))
        (.scan levelPrice nextLevelIdx head (e.slab.next .timeFifo i))
  | leave {levelPrice : Nat} {nextLevelIdx makerIdx : Option Nat} :
      omSlotFromIdx e.slab makerIdx = none →
      Walk e f (.makers levelPrice nextLevelIdx makerIdx) (.levels nextLevelIdx)
  | pass {levelPrice maker : Nat} {nextLevelIdx makerIdx : Option Nat} :
      omSlotFromIdx e.slab makerIdx = some maker →
      f.excludeSameOrg = true ∨ e.callbacks.canMatch ≠ none →
      Walk e f (.makers levelPrice nextLevelIdx makerIdx)
        (.makers levelPrice nextLevelIdx (e.slab.next .timeFifo maker))
  | empty {levelPrice maker : Nat} {nextLevelIdx makerIdx : Option Nat} :
      omSlotFromIdx e.slab makerIdx = some maker → (e.order maker).volumeRemain = 0 →
      Walk e f (.makers levelPrice nextLevelIdx makerIdx)
        (.remove levelPrice nextLevelIdx maker (e.slab.next .timeFifo maker) false)

/-- The loop stands at a maker with volume that the taker may trade with. -/
structure AtMaker (e : OmEngine) (f : MatchFrame) (levelPrice : Nat)
    (nextLevelIdx makerIdx : Option Nat) (maker : Nat) : Prop where
  pc : f.pc = .makers levelPrice nextLevelIdx makerIdx
  slot : omSlotFromIdx e.slab makerIdx = some maker
  remaining : f.takerRemaining ≠ 0
  volume : (e.order maker).volumeRemain ≠ 0

/-- Everything one step of `engine_match` can do. -/
inductive MatchMove (K : Kavl) (e : OmEngine) (f : MatchFrame) : OmEngine → MatchNext → Prop where
  | walk {e' : OmEngine} {pc : MatchPc} : OnlyEvents e e' → Walk e f f.pc pc →
      MatchMove K e f e' (f.goto pc)
  | learn {levelPrice head : Nat} {nextLevelIdx : Option Nat} :
      f.pc = .scan levelPrice nextLevelIdx head none →
      MatchMove K e f { e with
        orderbook := { e.orderbook with
          knownOrg := Function.update e.orderbook.knownOrg head (some (e.order f.taker).org) } }
        (f.goto (.makers levelPrice nextLevelIdx none))
  | used : f.takerRemaining = 0 → ((∃ idx, f.pc = .levels idx) ∨
      ∃ levelPrice nextLevelIdx makerIdx, f.pc = .makers levelPrice nextLevelIdx makerIdx) →
      MatchMove K e f e (.returned .ok)
  | refused {e1 e' : OmEngine} {append : OmWalHandle → Bool × OmWalHandle}
      {levelPrice maker : Nat} {nextLevelIdx makerIdx : Option Nat} :
      AtMaker e f levelPrice nextLevelIdx makerIdx maker → OnlyEvents e e1 →
      e1.log append = (false, e') → (∃ r : OmWalHandle → OmWalRecord, append = fun w => w.append (r w)) →
      MatchMove K e f e' (.returned .walWrite)
  | cancelMaker {e1 e2 e' : OmEngine} {levelPrice maker : Nat} {nextLevelIdx makerIdx : Option Nat}
      {both : Bool} : AtMaker e f levelPrice nextLevelIdx makerIdx maker → OnlyEvents e e1 →
      e1.log (fun w => omWalCancel w (e.order maker).orderId maker f.productId) = (true, e2) →
      OnlyEvents e2 e' → MatchMove K e f e'
        (f.goto (.remove levelPrice nextLevelIdx maker (e.slab.next .timeFifo maker) both))
  | reduce {e1 e2 e' : OmEngine} {levelPrice maker qty : Nat} {nextLevelIdx makerIdx : Option Nat} :
      AtMaker e f levelPrice nextLevelIdx makerIdx maker → OnlyEvents e e1 → 0 < qty →
      qty ≤ f.takerRemaining → qty ≤ (e.order maker).volumeRemain →
      e1.log (fun w => omWalMatch w (matchRecord e f levelPrice maker qty)) = (true, e2) →
      OnlyEvents (reduceBoth e2 f maker qty).1 e' →
      MatchMove K e f e' ((reduceBoth e2 f maker qty).2.goto
        (if ((reduceBoth e2 f maker qty).1.order maker).volumeRemain = 0 then
          .remove levelPrice nextLevelIdx maker (e.slab.next .timeFifo maker) false
        else .makers levelPrice nextLevelIdx (some maker)))
  | remove {levelPrice maker : Nat} {nextLevelIdx nextMakerIdx : Option Nat} {both : Bool} :
      f.pc = .remove levelPrice nextLevelIdx maker nextMakerIdx both →
      MatchMove K e f (removeStep K e f levelPrice nextLevelIdx maker nextMakerIdx both).1
        (removeStep K e f levelPrice nextLevelIdx maker nextMakerIdx both).2
  | decline {e' : OmEngine} : f.pc = .book → OnlyEvents e e' → MatchMove K e f e' (.returned .ok)
  | book {e1 e' : OmEngine} {ctx : OmOrderbookContext} : f.pc = .book → OnlyEvents e e1 →
      omOrderbookInsert K e.orderbook f.productId f.taker = (.ok, ctx) →
      OnlyEvents { e1 with orderbook := ctx, bookings := f.taker :: e1.bookings } e' →
      MatchMove K e f e' (.returned .ok)
  | bookFailed {e1 : OmEngine} {rc : OmError} {ctx : OmOrderbookContext} : f.pc = .book →
      OnlyEvents e e1 → rc ≠ .ok →
      omOrderbookInsert K e.orderbook f.productId f.taker = (rc, ctx) →
      MatchMove K e f { e1 with orderbook := ctx } (.returned rc)

abbrev MatchMoves (K : Kavl) (e : OmEngine) (f : MatchFrame) (r : OmEngine × MatchNext) : Prop :=
  MatchMove K e f r.1 r.2

section Inversion

variable (K : Kavl) {e e1 : OmEngine} {f : MatchFrame} {levelPrice maker qty : Nat}
  {nextLevelIdx makerIdx idx : Option Nat}

theorem levelsStep_move (hpc : f.pc = .levels idx) : MatchMove K e f e (levelsStep e f idx) := by
  unfold levelsStep
  split
  next h0 => exact .used h0 (Or.inl ⟨_, hpc⟩)
  next h0 =>
    split
    next hs => exact .walk (.refl e) (hpc ▸ .exhausted h0 hs)
    next level hs =>
      dsimp only
      split
      next hb => exact .walk (.refl e) (hpc ▸ .limit h0 hs hb)
      next hb =>
        split
        next hx =>
          split
          next =>
            split
            next => exact .walk (.refl e) (hpc ▸ .shut hs hb hx.1)
            next => exact .walk (.refl e) (hpc ▸ .enter hs hb)
          next => exact .walk (.refl e) (hpc ▸ .search hs hb hx.1)
        next => exact .walk (.refl e) (hpc ▸ .enter hs hb)

theorem scanStep_move {head : Nat} (hpc : f.pc = .scan levelPrice nextLevelIdx head idx) :
    MatchMoves K e f (scanStep e f levelPrice nextLevelIdx head idx) := by
  unfold scanStep
  cases idx with
  | none => exact .learn hpc
  | some i =>
    dsimp only
    split
    next => exact .walk (.refl e) (hpc ▸ .found)
    next j hs =>
      obtain rfl := eq_of_omSlotFromIdx hs
      split
      next => exact .walk (.refl e) (hpc ▸ .found)
      next horg => exact .walk (.refl e) (hpc ▸ .seek hs (not_not.mp horg))

theorem dealEffect_onlyEvents (e : OmEngine) (f : MatchFrame) (levelPrice maker qty : Nat) :
    OnlyEvents (reduceBoth e f maker qty).1 (dealEffect e f levelPrice maker qty).1 := by
  simp only [dealEffect]
  split
  next => exact (((onlyEvents_emit _ _ _).emit _ _).emit _ _).emit _ _
  next => exact ((onlyEvents_emit _ _ _).emit _ _).emit _ _

theorem order_onlyEvents {e e' : OmEngine} (h : OnlyEvents e e') (i : Nat) :
    e'.order i = e.order i := by
  obtain ⟨v, rfl⟩ := h
  rfl

theorem matchRecord_onlyEvents (hev : OnlyEvents e e1) :
    matchRecord e1 f levelPrice maker qty = matchRecord e f levelPrice maker qty := by
  simp [matchRecord, order_onlyEvents hev]

section Maker

variable (hat : AtMaker e f levelPrice nextLevelIdx makerIdx maker)
include hat

theorem decrementStep_move (hev : OnlyEvents e e1) (hpos : 0 < qty) (hle : qty ≤ f.takerRemaining)
    (hvol : qty ≤ (e.order maker).volumeRemain) :
    MatchMoves K e f
      (decrementStep e1 f levelPrice nextLevelIdx maker (e.slab.next .timeFifo maker) qty) := by
  unfold decrementStep
  rw [matchRecord_onlyEvents hev]
  split
  next e' hlog => exact .refused hat hev hlog ⟨_, rfl⟩
  next e2 hlog =>
    have hev2 : OnlyEvents (reduceBoth e2 f maker qty).1 (decrementEffect e2 f maker qty).1 :=
      onlyEvents_emit _ _ _
    have hmove := MatchMove.reduce (K := K) hat hev hpos hle hvol hlog hev2
    have hframe : (decrementEffect e2 f maker qty).2 = (reduceBoth e2 f maker qty).2 := rfl
    simpa only [afterReduce, order_onlyEvents hev2, hframe] using hmove

theorem dealStep_move (hev : OnlyEvents e e1) (hpos : qty = 0 → e.callbacks.canMatch ≠ none)
    (hle : qty ≤ f.takerRemaining) (hvol : qty ≤ (e.order maker).volumeRemain) :
    MatchMoves K e f
      (dealStep e1 f levelPrice nextLevelIdx maker (e.slab.next .timeFifo maker) qty) := by
  unfold dealStep
  rw [matchRecord_onlyEvents hev]
  split
  next h0 => exact .walk hev (hat.pc ▸ .pass hat.slot (Or.inr (hpos h0)))
  next h0 =>
    split
    next e' hlog => exact .refused hat hev hlog ⟨_, rfl⟩
    next e2 hlog =>
      have hev2 := dealEffect_onlyEvents e2 f levelPrice maker qty
      have hmove := MatchMove.reduce (K := K) hat hev (Nat.pos_of_ne_zero h0) hle hvol hlog hev2
      have hframe : (dealEffect e2 f levelPrice maker qty).2 = (reduceBoth e2 f maker qty).2 := rfl
      simpa only [afterReduce, order_onlyEvents hev2, hframe] using hmove

theorem cancelMakerStep_move (hev : OnlyEvents e e1) (both : Bool) :
    MatchMoves K e f
      (cancelMakerStep e1 f levelPrice nextLevelIdx maker (e.slab.next .timeFifo maker) both) := by
  unfold cancelMakerStep
  rw [order_onlyEvents hev]
  split
  next e' hlog => exact .refused hat hev hlog ⟨_, rfl⟩
  next e2 hlog => exact .cancelMaker hat hev hlog (onlyEvents_emit _ _ _)

theorem askStep_move : MatchMoves K e f
      (askStep e f levelPrice nextLevelIdx maker (e.slab.next .timeFifo maker)) := by
  have h0 := hat.remaining
  have hv := hat.volume
  have hpos : 0 < min f.takerRemaining (e.order maker).volumeRemain := by omega
  unfold askStep
  split
  next =>
    exact dealStep_move K hat (.refl e) (fun hz => absurd hz (by omega)) (Nat.min_le_left _ _)
      (Nat.min_le_right _ _)
  next canMatch hcan =>
    have hne : e.callbacks.canMatch ≠ none := by simp [hcan]
    dsimp only
    split
    next => exact cancelMakerStep_move K hat (onlyEvents_emit _ _ _) _
    next =>
      split
      next =>
        exact decrementStep_move K hat (onlyEvents_emit _ _ _) hpos (Nat.min_le_left _ _)
          (Nat.min_le_right _ _)
      next =>
        split
        next =>
          dsimp only [MatchMoves]
          exact .walk (onlyEvents_emit _ _ _) (hat.pc ▸ .pass hat.slot (Or.inr hne))
        next =>
          exact dealStep_move K hat (onlyEvents_emit _ _ _) (fun _ => hne)
            ((Nat.min_le_right _ _).trans (Nat.min_le_left _ _))
            ((Nat.min_le_right _ _).trans (Nat.min_le_right _ _))

end Maker

theorem makersStep_move (hpc : f.pc = .makers levelPrice nextLevelIdx makerIdx) :
    MatchMoves K e f (makersStep e f levelPrice nextLevelIdx makerIdx) := by
  unfold makersStep
  split
  next h0 => exact .used h0 (Or.inr ⟨_, _, _, hpc⟩)
  next h0 =>
    split
    next hs => exact .walk (.refl e) (hpc ▸ .leave hs)
    next maker hs =>
      dsimp only
      split
      next hx => exact .walk (.refl e) (hpc ▸ .pass hs (Or.inl hx.1))
      next =>
        split
        next hv => exact .walk (.refl e) (hpc ▸ .empty hs hv)
        next hv => exact askStep_move K ⟨hpc, hs, h0, hv⟩

theorem insertTaker_move (hpc : f.pc = .book) (hev : OnlyEvents e e1) :
    MatchMoves K e f (insertTaker K e1 f) := by
  have hbook : e1.orderbook = e.orderbook := by
    obtain ⟨v, rfl⟩ := hev
    rfl
  unfold insertTaker
  rw [hbook]
  split
  next ctx hins => exact .book hpc hev hins (onlyEvents_emit _ _ _)
  next rc ctx hne hins =>
    exact .bookFailed hpc hev hne hins

theorem bookStep_move (hpc : f.pc = .book) :
    MatchMoves K e f (bookStep K e f) := by
  unfold bookStep
  split
  next => exact insertTaker_move K hpc (.refl e)
  next =>
    dsimp only
    split
    next => exact insertTaker_move K hpc (onlyEvents_emit _ _ _)
    next => exact .decline hpc ((onlyEvents_emit _ _ _).emit _ _)

theorem matchStep_move (e : OmEngine) (f : MatchFrame) :
    MatchMove K e f (matchStep K e f).1 (matchStep K e f).2 := by
  unfold matchStep
  split
  next hpc => exact levelsStep_move K hpc
  next hpc => exact scanStep_move K hpc
  next hpc => exact makersStep_move K hpc
  next hpc => exact .remove hpc
  next hpc => exact bookStep_move K hpc

end Inversion

end VeloxMatch
