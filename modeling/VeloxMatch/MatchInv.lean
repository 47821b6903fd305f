import VeloxMatch.LevelCursor
import VeloxMatch.MatchMove

namespace VeloxMatch

open List

variable {p x : Nat} {ctx ctx' : OmOrderbookContext} {free : List Nat}

theorem better_not {isBid : Bool} {q : Nat} : better (!isBid) p q ↔ better isBid q p := by
  cases isBid <;> simp [better]

theorem beyondLimit_iff {f : MatchFrame} :
    f.beyondLimit p ↔ better f.takerIsBid p f.takerPrice := Iff.rfl

/-- A slot outside the book and outside the free list. -/
structure Spare (ctx : OmOrderbookContext) (free : List Nat) (x : Nat) : Prop where
  unbooked : Unbooked ctx x
  not_free : x ∉ free
  lt_capacity : x < ctx.slab.capacity

theorem Spare.frame (h : Spare ctx free x) (hcap : ctx'.slab.capacity = ctx.slab.capacity)
    (hhash : ∀ id entry, ctx'.orderHashmap id = some entry → ctx.orderHashmap id = some entry) :
    Spare ctx' free x where
  unbooked := fun id entry he => h.unbooked id entry (hhash id entry he)
  not_free := h.not_free
  lt_capacity := hcap ▸ h.lt_capacity

theorem Spare.sameBook (h : Spare ctx free x) (hs : SameBook ctx ctx') : Spare ctx' free x :=
  h.frame hs.store.capacity fun _ _ he => hs.orderHashmap ▸ he

structure TakerOk (ctx : OmOrderbookContext) (free : List Nat) (f : MatchFrame) : Prop where
  spare : Spare ctx free f.taker
  active : ¬ Deactivated ctx f.taker
  remaining : (ctx.slab.order f.taker).volumeRemain = f.takerRemaining
  isBid : omIsBid (ctx.slab.order f.taker).flags = f.takerIsBid
  price : (ctx.slab.order f.taker).price = f.takerPrice

def Position (s : OmDualSlab) (f : MatchFrame) (levels pre : List Level) (visited todo : List Nat)
    (post : List Level) : MatchPc → Prop
  | .levels idx => levels = pre ++ post ∧ visited = [] ∧ todo = [] ∧
      idx = front (post.map Level.head) none
  | .scan levelPrice nextLevelIdx _ idx => Cursor levels pre visited todo post nextLevelIdx idx ∧
      (∀ i ∈ visited ++ todo, (s.order i).price = levelPrice) ∧ f.excludeSameOrg = true
  | .makers levelPrice nextLevelIdx idx => Cursor levels pre visited todo post nextLevelIdx idx ∧
      ∀ i ∈ visited ++ todo, (s.order i).price = levelPrice
  | .remove levelPrice nextLevelIdx maker nextMakerIdx _ =>
      Cursor levels pre visited todo post nextLevelIdx (some maker) ∧
      (∀ i ∈ visited ++ todo, (s.order i).price = levelPrice) ∧
      ∃ todo', todo = maker :: todo' ∧ nextMakerIdx = front todo' none
  | .book => levels = pre ++ post ∧ visited = [] ∧ todo = [] ∧ f.takerRemaining ≠ 0 ∧
      ∀ l ∈ post, better f.takerIsBid (s.order l.head).price f.takerPrice

def Plain (e : OmEngine) (f : MatchFrame) : Prop :=
  f.excludeSameOrg = false ∧ e.callbacks.canMatch = none

/-- A position in which a plain match has left nothing behind it. -/
def Standing (e : OmEngine) (f : MatchFrame) (levels : List Level) (pc : MatchPc) : Prop :=
  ∃ pre visited todo post, Position e.slab f levels pre visited todo post pc ∧
    (Plain e f → pre = [] ∧ visited = [])

structure MatchInv (e : OmEngine) (f : MatchFrame) (levels : Levels) (free : List Nat) : Prop where
  book : BookInv e.orderbook levels free
  taker : TakerOk e.orderbook free f
  standing : Standing e f (levels f.productId (!f.takerIsBid)) f.pc

section Position

variable {e : OmEngine} {f : MatchFrame} {levels pre post : List Level} {head : Option Nat}
  {tree : PriceTree} {pc pc' : MatchPc} {s : OmDualSlab} {visited todo : List Nat}

theorem Position.congr {s' : OmDualSlab} (hp : ∀ i, (s'.order i).price = (s.order i).price)
    (h : Position s f levels pre visited todo post pc) :
    Position s' f levels pre visited todo post pc := by
  cases pc with
  | levels => exact h
  | scan => exact ⟨h.1, fun i hi => (hp i).trans (h.2.1 i hi), h.2.2⟩
  | makers => exact ⟨h.1, fun i hi => (hp i).trans (h.2 i hi)⟩
  | remove => exact ⟨h.1, fun i hi => (hp i).trans (h.2.1 i hi), h.2.2⟩
  | book =>
    obtain ⟨h1, h2, h3, h4, h5⟩ := h
    exact ⟨h1, h2, h3, h4, fun l hl => by rw [hp]; exact h5 l hl⟩

theorem SideShape.level_price {isBid : Bool} {l : Level} (h : SideShape s head tree isBid levels)
    (hl : l ∈ levels) : ∀ i ∈ [] ++ l.slots, (s.order i).price = (s.order l.head).price := by
  intro i hi
  exact h.prices l hl i (by simpa using hi)

def stepsLeft (f : MatchFrame) (todo : List Nat) (post : List Level) (pc : MatchPc) : Nat :=
  4 * (f.takerRemaining + todo.length + (queueOf post).length + post.length) +
    match pc with
    | .book => 0
    | .levels _ | .remove _ _ _ _ _ => 1
    | .makers _ _ _ => 2
    | .scan _ _ _ _ => 3

theorem Walk.position (hw : Walk e f pc pc')
    (hside : SideShape e.slab head tree (!f.takerIsBid) levels)
    (hpos : Position e.slab f levels pre visited todo post pc) :
    ∃ pre' visited' todo' post', Position e.slab f levels pre' visited' todo' post' pc' ∧
      stepsLeft f todo' post' pc' < stepsLeft f todo post pc ∧
      (Plain e f → pre = [] ∧ visited = [] → pre' = [] ∧ visited' = []) := by
  cases hw with
  | exhausted h0 hs =>
    obtain ⟨rfl, rfl, rfl, rfl⟩ := hpos
    obtain rfl := hside.no_level hs
    exact ⟨pre, [], [], [], ⟨rfl, rfl, rfl, h0, by simp⟩, Nat.lt_succ_self _, fun _ h => h⟩
  | limit h0 hs hb =>
    obtain ⟨rfl, rfl, rfl, rfl⟩ := hpos
    obtain ⟨l, post', rfl, rfl, -⟩ := hside.some_level hs
    refine ⟨pre, [], [], l :: post', ⟨rfl, rfl, rfl, h0, ?_⟩, Nat.lt_succ_self _, fun _ h => h⟩
    -- the levels behind the first one that is out of reach are farther away still
    have hsorted := pairwise_cons.mp (pairwise_append.mp hside.sorted).2.1
    intro m hm
    rcases mem_cons.mp hm with rfl | hm
    · exact hb
    · exact better_trans (better_not.mp (hsorted.1 m hm)) hb
  | enter hs hb =>
    obtain ⟨rfl, rfl, rfl, rfl⟩ := hpos
    obtain ⟨l, post', rfl, rfl, hnext⟩ := hside.some_level hs
    refine ⟨pre, [], l.slots, post', ⟨?_, hside.level_price (by simp)⟩, ?_, fun _ h => h⟩
    · rw [hnext]
      exact Cursor.start _ l rfl
    · simp only [stepsLeft, queueOf_cons, length_append, length_cons, length_nil]
      omega
  | shut hs hb hx =>
    obtain ⟨rfl, rfl, rfl, rfl⟩ := hpos
    obtain ⟨l, post', rfl, rfl, hnext⟩ := hside.some_level hs
    refine ⟨pre, l.slots, [], post', ⟨?_, fun i hi => ?_⟩, ?_,
      fun hp => absurd hp.1 (by simp [hx])⟩
    · rw [hnext]
      exact (Cursor.start _ l rfl).finish
    · exact hside.level_price (l := l) (by simp) i (by simpa using hi)
    · simp only [stepsLeft, queueOf_cons, length_append, length_cons, length_nil]
      omega
  | search hs hb hx =>
    obtain ⟨rfl, rfl, rfl, rfl⟩ := hpos
    obtain ⟨l, post', rfl, rfl, hnext⟩ := hside.some_level hs
    refine ⟨pre, [], l.slots, post', ⟨?_, hside.level_price (by simp), hx⟩, ?_, fun _ h => h⟩
    · rw [hnext]
      exact Cursor.start _ l rfl
    · simp only [stepsLeft, queueOf_cons, length_append, length_cons, length_nil]
      omega
  | found =>
    exact ⟨pre, visited, todo, post, ⟨hpos.1, hpos.2.1⟩, Nat.lt_succ_self _, fun _ h => h⟩
  | seek hs _ =>
    obtain ⟨hcur, hprice, hx⟩ := hpos
    obtain ⟨todo', rfl, hnext⟩ := hcur.some_slot hside hs
    refine ⟨pre, visited ++ [_], todo', post, ⟨?_, by simpa using hprice, hx⟩, ?_,
      fun hp => absurd hp.1 (by simp [hx])⟩
    · rw [hnext]
      exact hcur.advance
    · simp only [stepsLeft, length_cons]
      omega
  | leave hs =>
    obtain ⟨hcur, hprice⟩ := hpos
    obtain rfl := hcur.no_slot hside hs
    refine ⟨pre ++ Level.ofSlots visited, [], [], post, ⟨hcur.leave.1, rfl, rfl, hcur.leave.2⟩,
      Nat.lt_succ_self _, ?_⟩
    rintro - ⟨rfl, rfl⟩
    exact ⟨rfl, rfl⟩
  | pass hs hwhy =>
    obtain ⟨hcur, hprice⟩ := hpos
    obtain ⟨todo', rfl, hnext⟩ := hcur.some_slot hside hs
    refine ⟨pre, visited ++ [_], todo', post, ⟨?_, by simpa using hprice⟩, ?_, fun hp => ?_⟩
    · rw [hnext]
      exact hcur.advance
    · simp only [stepsLeft, length_cons]
      omega
    · rcases hwhy with hx | hc
      · exact absurd hp.1 (by simp [hx])
      · exact absurd hp.2 hc
  | empty hs hv =>
    obtain ⟨hcur, hprice⟩ := hpos
    obtain ⟨todo', rfl, hnext⟩ := hcur.some_slot hside hs
    exact ⟨pre, visited, _ :: todo', post, ⟨⟨hcur.levels_eq, hcur.nextLevel_eq, rfl⟩, hprice,
      todo', rfl, hnext⟩, Nat.lt_succ_self _, fun _ h => h⟩

theorem Walk.standing (hw : Walk e f pc pc')
    (hside : SideShape e.slab head tree (!f.takerIsBid) levels) (h : Standing e f levels pc) :
    Standing e f levels pc' := by
  obtain ⟨pre, visited, todo, post, hpos, hplain⟩ := h
  obtain ⟨pre', visited', todo', post', hpos', -, hplain'⟩ := hw.position hside hpos
  exact ⟨pre', visited', todo', post', hpos', fun hp => hplain' hp (hplain hp)⟩

end Position

section Steps

variable {e e' e1 e2 : OmEngine} {f : MatchFrame} {levels : Levels} {free : List Nat}
  {levelPrice : Nat} {nextLevelIdx makerIdx : Option Nat}
  {append : OmWalHandle → Bool × OmWalHandle}

theorem MatchInv.side (h : MatchInv e f levels free) :
    SideShape e.slab (e.orderbook.head f.productId (!f.takerIsBid))
      (e.orderbook.priceRoots (priceRoot f.productId (!f.takerIsBid))) (!f.takerIsBid)
      (levels f.productId (!f.takerIsBid)) :=
  h.book.sides _ _

theorem TakerOk.sameBook {ctx ctx' : OmOrderbookContext} (h : TakerOk ctx free f)
    (hs : SameBook ctx ctx')
    (hv : (ctx'.slab.order f.taker).volumeRemain = (ctx.slab.order f.taker).volumeRemain) :
    TakerOk ctx' free f where
  spare := h.spare.sameBook hs
  active := by
    rw [Deactivated, hs.flags]
    exact h.active
  remaining := hv.trans h.remaining
  isBid := by rw [hs.flags, h.isBid]
  price := by rw [hs.price, h.price]

theorem Standing.congr {L : List Level} {pc : MatchPc} (h : Standing e f L pc)
    (hp : ∀ i, (e'.slab.order i).price = (e.slab.order i).price)
    (hc : e'.callbacks = e.callbacks) : Standing e' f L pc := by
  obtain ⟨pre, visited, todo, post, hpos, hplain⟩ := h
  refine ⟨pre, visited, todo, post, hpos.congr hp, fun hpl => hplain ⟨hpl.1, ?_⟩⟩
  rw [← hc]
  exact hpl.2

theorem MatchInv.goto {pc : MatchPc} (h : MatchInv e f levels free)
    (hs : SameBook e.orderbook e'.orderbook)
    (hv : (e'.order f.taker).volumeRemain = (e.order f.taker).volumeRemain)
    (hc : e'.callbacks = e.callbacks)
    (hpos : Standing e f (levels f.productId (!f.takerIsBid)) pc) :
    MatchInv e' { f with pc := pc } levels free where
  book := h.book.sameBook hs
  taker := by
    have ht := h.taker.sameBook hs hv
    exact ⟨ht.spare, ht.active, ht.remaining, ht.isBid, ht.price⟩
  standing := by
    obtain ⟨pre, visited, todo, post, hpos, hplain⟩ := hpos.congr hs.price hc
    refine ⟨pre, visited, todo, post, ?_, hplain⟩
    cases pc <;> exact hpos

theorem MatchInv.learn {head : Nat} (h : MatchInv e f levels free)
    (hpc : f.pc = .scan levelPrice nextLevelIdx head none) (known : Nat → Option Nat) :
    MatchInv { e with orderbook := { e.orderbook with knownOrg := known } }
      { f with pc := .makers levelPrice nextLevelIdx none } levels free := by
  refine h.goto (SameBook.setKnownOrg e.orderbook known) rfl rfl ?_
  obtain ⟨pre, visited, todo, post, hpos, hplain⟩ := h.standing
  rw [hpc] at hpos
  exact ⟨pre, visited, todo, post, ⟨hpos.1, hpos.2.1⟩, hplain⟩

theorem AtMaker.position {maker : Nat} {head : Option Nat} {tree : PriceTree}
    {L pre post : List Level} {visited todo : List Nat}
    (hat : AtMaker e f levelPrice nextLevelIdx makerIdx maker)
    (hside : SideShape e.slab head tree (!f.takerIsBid) L)
    (hpos : Position e.slab f L pre visited todo post f.pc) :
    ∃ todo', todo = maker :: todo' ∧
      Cursor L pre visited (maker :: todo') post nextLevelIdx (some maker) ∧
      (∀ i ∈ visited ++ maker :: todo', (e.slab.order i).price = levelPrice) ∧
      e.slab.next .timeFifo maker = front todo' none := by
  rw [hat.pc] at hpos
  obtain ⟨hcur, hprice⟩ := hpos
  obtain ⟨todo', rfl, hnext⟩ := hcur.some_slot hside hat.slot
  exact ⟨todo', rfl, ⟨hcur.levels_eq, hcur.nextLevel_eq, rfl⟩, hprice, hnext⟩

theorem MatchInv.maker {maker : Nat} (h : MatchInv e f levels free)
    (hat : AtMaker e f levelPrice nextLevelIdx makerIdx maker) :
    ∃ pre visited todo post, Cursor (levels f.productId (!f.takerIsBid)) pre visited
        (maker :: todo) post nextLevelIdx (some maker) ∧
      (∀ i ∈ visited ++ maker :: todo, (e.slab.order i).price = levelPrice) ∧
      e.slab.next .timeFifo maker = front todo none ∧ (Plain e f → pre = [] ∧ visited = []) := by
  obtain ⟨pre, visited, todo, post, hpos, hplain⟩ := h.standing
  obtain ⟨todo', rfl, hcur, hprice, hnext⟩ := hat.position h.side hpos
  exact ⟨pre, visited, todo', post, hcur, hprice, hnext, hplain⟩

theorem MatchInv.maker_resting {maker : Nat} (h : MatchInv e f levels free)
    (hat : AtMaker e f levelPrice nextLevelIdx makerIdx maker) :
    maker ∈ queueOf (levels f.productId (!f.takerIsBid)) := by
  obtain ⟨pre, visited, todo, post, hcur, -, -, -⟩ := h.maker hat
  exact hcur.mem_queueOf (by simp)

theorem MatchInv.resting_ne_taker {p i : Nat} {b : Bool} (h : MatchInv e f levels free)
    (hi : i ∈ queueOf (levels p b)) : i ≠ f.taker :=
  fun he => h.book.not_resting h.taker.spare.unbooked p b (he ▸ hi)

theorem order_reduceBoth (e : OmEngine) (f : MatchFrame) {maker : Nat} (hne : maker ≠ f.taker)
    (qty j : Nat) : (reduceBoth e f maker qty).1.order j =
      if j = f.taker then { e.order f.taker with volumeRemain := f.takerRemaining - qty }
      else if j = maker then
        { e.order maker with volumeRemain := (e.order maker).volumeRemain - qty }
      else e.order j := by
  have h : (reduceBoth e f maker qty).1.order j =
      ((e.setVolumeRemain maker ((e.order maker).volumeRemain - qty)).setVolumeRemain f.taker
        (f.takerRemaining - qty)).order j := rfl
  rw [h, order_setVolumeRemain, order_setVolumeRemain, order_setVolumeRemain, if_neg hne.symm]

theorem reduceBoth_sameBook (e : OmEngine) (f : MatchFrame) (maker qty : Nat) :
    SameBook e.orderbook (reduceBoth e f maker qty).1.orderbook :=
  (setVolumeRemain_sameBook e maker _).trans (setVolumeRemain_sameBook _ f.taker _)

theorem sameBook_of_log {ok : Bool} (hev : OnlyEvents e e1) (hlog : e1.log append = (ok, e2)) :
    SameBook e.orderbook e2.orderbook ∧ (∀ i, e2.order i = e.order i) ∧
      e2.callbacks = e.callbacks := by
  obtain ⟨v, rfl⟩ := hev
  obtain ⟨w, rfl⟩ := engine_log_eq hlog
  exact ⟨SameBook.setWal _ w, fun _ => rfl, rfl⟩

theorem sameBook_onlyEvents (h : OnlyEvents e e') : SameBook e.orderbook e'.orderbook := by
  obtain ⟨v, rfl⟩ := h
  exact SameBook.refl _

theorem callbacks_onlyEvents (h : OnlyEvents e e') : e'.callbacks = e.callbacks := by
  obtain ⟨v, rfl⟩ := h
  rfl

theorem MatchInv.cancelMaker {maker : Nat} (h : MatchInv e f levels free)
    (hat : AtMaker e f levelPrice nextLevelIdx makerIdx maker) (hev : OnlyEvents e e1)
    (hlog : e1.log append = (true, e2)) (hev' : OnlyEvents e2 e') (both : Bool) :
    MatchInv e' { f with
      pc := .remove levelPrice nextLevelIdx maker (e.slab.next .timeFifo maker) both }
      levels free := by
  obtain ⟨hs, ho, hc⟩ := sameBook_of_log hev hlog
  obtain ⟨pre, visited, todo, post, hcur, hprice, hnext, hplain⟩ := h.maker hat
  apply h.goto (hs.trans (sameBook_onlyEvents hev'))
  · rw [order_onlyEvents hev', ho]
  · rw [callbacks_onlyEvents hev', hc]
  · exact ⟨pre, visited, maker :: todo, post, ⟨hcur, hprice, todo, rfl, hnext⟩, hplain⟩

theorem MatchInv.reduce {maker qty : Nat} (h : MatchInv e f levels free)
    (hat : AtMaker e f levelPrice nextLevelIdx makerIdx maker) (hev : OnlyEvents e e1)
    (hlog : e1.log append = (true, e2)) (hev' : OnlyEvents (reduceBoth e2 f maker qty).1 e') :
    MatchInv e' { f with
      takerRemaining := f.takerRemaining - qty
      pc := if ((reduceBoth e2 f maker qty).1.order maker).volumeRemain = 0 then
          .remove levelPrice nextLevelIdx maker (e.slab.next .timeFifo maker) false
        else .makers levelPrice nextLevelIdx (some maker) } levels free := by
  obtain ⟨hs, ho, hc⟩ := sameBook_of_log hev hlog
  obtain ⟨pre, visited, todo, post, hcur, hprice, hnext, hplain⟩ := h.maker hat
  have hne := h.resting_ne_taker (h.maker_resting hat)
  have hall := (hs.trans (reduceBoth_sameBook e2 f maker qty)).trans (sameBook_onlyEvents hev')
  have hcall : e'.callbacks = e.callbacks := (callbacks_onlyEvents hev').trans hc
  have hplain' : Plain e' f → pre = [] ∧ visited = [] :=
    fun hp => hplain ⟨hp.1, hcall ▸ hp.2⟩
  refine
    { book := h.book.sameBook hall
      taker :=
        { spare := h.taker.spare.sameBook hall
          active := ?_
          remaining := ?_
          isBid := by rw [hall.flags, h.taker.isBid]
          price := by rw [hall.price, h.taker.price] }
      standing := ?_ }
  · rw [Deactivated, hall.flags]
    exact h.taker.active
  · change (e'.order f.taker).volumeRemain = _
    rw [order_onlyEvents hev', order_reduceBoth _ _ hne, if_pos rfl]
  · have hprice' : ∀ i ∈ visited ++ maker :: todo, (e'.slab.order i).price = levelPrice :=
      fun i hi => (hall.price i).trans (hprice i hi)
    dsimp only
    split
    next => exact ⟨pre, visited, maker :: todo, post, ⟨hcur, hprice', todo, rfl, hnext⟩, hplain'⟩
    next => exact ⟨pre, visited, maker :: todo, post, ⟨hcur, hprice'⟩, hplain'⟩

end Steps

end VeloxMatch
