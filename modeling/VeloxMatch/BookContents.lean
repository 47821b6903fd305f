import VeloxMatch.SameBook

namespace VeloxMatch

open Function List

/-- An order without its user and aux bytes. -/
structure StoredOrder where
  productId : Nat
  price : Nat
  volume : Nat
  remaining : Nat
  org : Nat
  flags : UInt16

def OmOrderFields.stored (o : OmOrderFields) (productId : Nat) : StoredOrder :=
  ⟨productId, o.price, o.volume, o.volumeRemain, o.org, o.flags⟩

/-- What an order book is for: the orders it knows by their ids, and the ids of those that rest on
a side of a product, in the order in which they are matched. -/
@[ext]
structure Contents where
  known : Nat → Option StoredOrder
  queue : Nat → Bool → List Nat

namespace Contents

def empty : Contents := ⟨fun _ => none, fun _ _ => []⟩

variable (c : Contents)

def set (id : Nat) (o : Option StoredOrder) : Contents :=
  { c with known := update c.known id o }

def unqueue (id : Nat) : Contents :=
  { c with queue := fun p b => (c.queue p b).filter (· ≠ id) }

def priceOf (id : Nat) : Nat := (c.known id).elim 0 (·.price)

/-- An order goes behind those of its side that have its price or a better one. -/
def enqueue (id p : Nat) (b : Bool) : Contents :=
  { c with queue := fun p' b' =>
      if p' = p ∧ b' = b then
        (c.queue p b).orderedInsert (fun i j => better b (c.priceOf i) (c.priceOf j)) id
      else c.queue p' b' }

def leave (id : Nat) : Contents := (c.unqueue id).set id none

theorem leave_set (id : Nat) (o : Option StoredOrder) : (c.set id o).leave id = c.leave id := by
  simp [leave, set, unqueue]

/-- What a record of the log says. -/
def step : OmWalRecord → Contents
  | .insert rec =>
    (c.set rec.orderId
      (some ⟨rec.productId, rec.price, rec.volume, rec.volRemain, rec.org, rec.flags⟩)).enqueue
        rec.orderId rec.productId (omIsBid rec.flags)
  | .cancel rec => c.leave rec.orderId
  | .matched rec =>
    match c.known rec.makerId with
    | none => c
    | some o =>
      if o.remaining ≤ rec.volume then c.leave rec.makerId
      else c.set rec.makerId (some { o with remaining := o.remaining - rec.volume })
  | .deactivate rec =>
    (c.unqueue rec.orderId).set rec.orderId ((c.known rec.orderId).map fun o =>
      { o with flags := omSetStatus o.flags omStatusDeactivated })
  | .activate rec => c.set rec.orderId none
  | .other _ _ => c

end Contents

/-- The orders that a book knows once the one in slot `out`, if there is one, has left. -/
def knownIn (ctx : OmOrderbookContext) (out : Option Nat) (id : Nat) : Option StoredOrder :=
  ((ctx.orderHashmap id).filter (out ≠ some ·.slotIdx)).map fun e =>
    (ctx.slab.order e.slotIdx).stored e.productId

def contentsOf (ctx : OmOrderbookContext) (levels : Levels) (out : Option Nat) : Contents where
  known := knownIn ctx out
  queue p b := ((queueOf (levels p b)).filter (out ≠ some ·)).map fun i => (ctx.slab.order i).orderId

section Contents

variable {ctx ctx' : OmOrderbookContext} {levels : Levels} {free : List Nat} {p x id : Nat}
  {b : Bool} {out out' : Option Nat}

theorem known_of_entry {e : OmOrderEntry} (he : ctx.orderHashmap id = some e) :
    knownIn ctx out id =
      if out = some e.slotIdx then none else some ((ctx.slab.order e.slotIdx).stored e.productId) := by
  by_cases hout : out = some e.slotIdx <;> simp [knownIn, he, hout]

theorem known_of_none (he : ctx.orderHashmap id = none) : knownIn ctx out id = none := by
  simp [knownIn, he]

theorem known_congr (hhash : ctx'.orderHashmap id = ctx.orderHashmap id)
    (horder : ∀ e, ctx.orderHashmap id = some e →
      ctx'.slab.order e.slotIdx = ctx.slab.order e.slotIdx ∧
        (out' = some e.slotIdx ↔ out = some e.slotIdx)) :
    knownIn ctx' out' id = knownIn ctx out id := by
  cases he : ctx.orderHashmap id with
  | none => rw [known_of_none he, known_of_none (hhash.trans he)]
  | some e =>
    obtain ⟨ho, hout⟩ := horder e he
    rw [known_of_entry he, known_of_entry (hhash.trans he), ho]
    exact if_congr hout rfl rfl

theorem known_update {o : Option StoredOrder} (hid : knownIn ctx' out' id = o)
    (hother : ∀ id', id' ≠ id → ctx'.orderHashmap id' = ctx.orderHashmap id' ∧
      ∀ e, ctx.orderHashmap id' = some e → ctx'.slab.order e.slotIdx = ctx.slab.order e.slotIdx ∧
        (out' = some e.slotIdx ↔ out = some e.slotIdx)) :
    knownIn ctx' out' = update (knownIn ctx out) id o := by
  funext id'
  rcases eq_or_ne id' id with rfl | hne
  · rw [update_self, hid]
  · rw [update_of_ne hne, known_congr (hother id' hne).1 (hother id' hne).2]

theorem queue_contents : (contentsOf ctx levels none).queue p b =
    (queueOf (levels p b)).map fun i => (ctx.slab.order i).orderId := by
  simp [contentsOf]

variable (h : BookInv ctx levels free)
include h

theorem BookInv.slot_ne {id' : Nat} {e e' : OmOrderEntry} (he : ctx.orderHashmap id = some e)
    (he' : ctx.orderHashmap id' = some e') (hne : id' ≠ id) : e'.slotIdx ≠ e.slotIdx :=
  fun hs => hne (h.entry_unique he' he hs)

theorem BookInv.ids_leave (hx : x ∈ queueOf (levels p b)) (p' : Nat) (b' : Bool) :
    ((queueOf (levels p' b')).filter (· ≠ x)).map (fun i => (ctx.slab.order i).orderId) =
      ((queueOf (levels p' b')).map fun i => (ctx.slab.order i).orderId).filter
        (· ≠ (ctx.slab.order x).orderId) := by
  rw [filter_map]
  refine congrArg _ (filter_congr fun i hi => decide_eq_decide.mpr (not_congr ?_))
  refine ⟨fun hix => by rw [hix], fun hid => ?_⟩
  have hentry := (h.resting hi).1
  rw [show (ctx.slab.order i).orderId = _ from hid, (h.resting hx).1] at hentry
  cases hentry
  rfl

theorem contentsOf_congr (hhash : ctx'.orderHashmap = ctx.orderHashmap)
    (horder : ∀ id e, ctx.orderHashmap id = some e →
      ctx'.slab.order e.slotIdx = ctx.slab.order e.slotIdx) :
    contentsOf ctx' levels out = contentsOf ctx levels out := by
  refine Contents.ext (funext fun id => ?_) (funext₂ fun p b => map_congr_left fun i hi => ?_)
  · exact known_congr (congrFun hhash id) fun e he => ⟨horder id e he, Iff.rfl⟩
  · rw [horder _ _ (h.resting (mem_of_mem_filter hi)).1]

theorem contentsOf_out (hx : x ∈ queueOf (levels p b)) :
    contentsOf ctx levels (some x) =
      (contentsOf ctx levels none).leave (ctx.slab.order x).orderId := by
  have hentry := (h.resting hx).1
  refine Contents.ext (known_update ?_ fun id hne => ⟨rfl, fun e he => ⟨rfl, ?_⟩⟩)
    (funext₂ fun p' b' => ?_)
  · rw [known_of_entry hentry, if_pos rfl]
  · have hslot := h.slot_ne hentry he hne
    simp [hslot.symm]
  · dsimp only [Contents.leave, Contents.set, Contents.unqueue]
    rw [queue_contents, ← h.ids_leave hx]
    exact congrArg _ (filter_congr fun i _ => by simp [eq_comm])

theorem contentsOf_drop (hx : x ∈ queueOf (levels p b))
    (horder : ∀ id e, ctx.orderHashmap id = some e →
      ctx'.slab.order e.slotIdx = ctx.slab.order e.slotIdx)
    (hhash : ctx'.orderHashmap =
      update ctx.orderHashmap (ctx.slab.order x).orderId none) :
    contentsOf ctx' (levels.drop p b x) none =
      (contentsOf ctx levels none).leave (ctx.slab.order x).orderId := by
  refine Contents.ext (known_update ?_ fun id hne => ⟨?_, fun e he => ⟨horder id e he, Iff.rfl⟩⟩)
    (funext₂ fun p' b' => ?_)
  · exact known_of_none (by rw [hhash, update_self])
  · rw [hhash, update_of_ne hne]
  · dsimp only [Contents.leave, Contents.set, Contents.unqueue]
    rw [queue_contents, queue_contents, queueOf_drop h hx, ← h.ids_leave hx]
    refine map_congr_left fun i hi => ?_
    rw [horder _ _ (h.resting (mem_of_mem_filter hi)).1]

theorem contentsOf_park (hx : x ∈ queueOf (levels p b))
    (horder : ∀ j, ctx'.slab.order j = ctx.slab.order j)
    (hhash : ctx'.orderHashmap = ctx.orderHashmap) {rec : OmWalCancel}
    (hid : rec.orderId = (ctx.slab.order x).orderId) :
    contentsOf (setStatus ctx' x omStatusDeactivated) (levels.drop p b x) none =
      (contentsOf ctx levels none).step (.deactivate rec) := by
  have hentry := (h.resting hx).1
  rw [Contents.step, hid]
  refine Contents.ext (known_update ?_ fun id hne => ⟨congrFun hhash id, fun e he => ⟨?_, Iff.rfl⟩⟩)
    (funext₂ fun p' b' => ?_)
  · change _ = Option.map _ (knownIn ctx none _)
    rw [known_of_entry hentry, known_of_entry (by exact (congrFun hhash _).trans hentry),
      order_setStatus, if_pos rfl, horder]
    rfl
  · rw [order_setStatus, if_neg (h.slot_ne hentry he hne), horder]
  · dsimp only [Contents.set, Contents.unqueue]
    rw [queue_contents, queue_contents, queueOf_drop h hx, ← h.ids_leave hx]
    refine map_congr_left fun i hi => ?_
    have hne : i ≠ x := by simpa using (mem_filter.mp hi).2
    rw [order_setStatus, if_neg hne, horder]

theorem contentsOf_withoutEntry (he : ctx.orderHashmap id = some ⟨x, p⟩) (hx : Deactivated ctx x)
    (hhash : ctx'.orderHashmap = update ctx.orderHashmap id none)
    (horder : ∀ j, j ≠ x → ctx'.slab.order j = ctx.slab.order j) :
    contentsOf ctx' levels none = (contentsOf ctx levels none).set id none := by
  refine Contents.ext (known_update ?_ fun id' hne => ⟨?_, fun e he' => ⟨?_, Iff.rfl⟩⟩)
    (funext₂ fun p' b' => ?_)
  · exact known_of_none (by rw [hhash, update_self])
  · rw [hhash, update_of_ne hne]
  · exact horder _ (h.slot_ne he he' hne)
  · dsimp only [Contents.set]
    rw [queue_contents, queue_contents]
    refine map_congr_left fun i hi => ?_
    rw [horder i fun hix => (h.resting hi).2 (hix ▸ hx)]

theorem contentsOf_withVolume (hx : x ∈ queueOf (levels p b)) (v : Nat) :
    contentsOf (withVolume ctx x v) levels none =
      (contentsOf ctx levels none).set (ctx.slab.order x).orderId
        (some { (ctx.slab.order x).stored p with remaining := v }) := by
  have hentry := (h.resting hx).1
  refine Contents.ext (known_update ?_ fun id hne => ⟨rfl, fun e he => ⟨?_, Iff.rfl⟩⟩)
    (funext₂ fun p' b' => ?_)
  · rw [known_of_entry (show (withVolume ctx x v).orderHashmap _ = _ from hentry), order_withVolume,
      if_pos rfl]
    rfl
  · rw [order_withVolume, if_neg (h.slot_ne hentry he hne)]
  · dsimp only [Contents.set]
    rw [queue_contents, queue_contents]
    refine map_congr_left fun i _ => ?_
    rw [(withVolume_sameBook ctx x v).orderId]

theorem contentsOf_matched (hx : x ∈ queueOf (levels p b)) {rec : OmWalMatch}
    (hid : rec.makerId = (ctx.slab.order x).orderId)
    (hle : rec.volume ≤ (ctx.slab.order x).volumeRemain) :
    (contentsOf ctx levels none).step (.matched rec) =
      let c := contentsOf (withVolume ctx x ((ctx.slab.order x).volumeRemain - rec.volume)) levels none
      if (ctx.slab.order x).volumeRemain = rec.volume then c.leave rec.makerId else c := by
  have hknown : (contentsOf ctx levels none).known rec.makerId =
      some ((ctx.slab.order x).stored p) := by
    rw [hid]
    exact known_of_entry (h.resting hx).1
  rw [contentsOf_withVolume h hx, ← hid, Contents.step, hknown]
  dsimp only
  rw [Contents.leave_set]
  exact if_congr hle.ge_iff_eq' rfl rfl

theorem contentsOf_place (hfresh : ctx.orderHashmap (ctx.slab.order x).orderId = none)
    (horder : ∀ j, ctx'.slab.order j = ctx.slab.order j)
    (hhash : ctx'.orderHashmap =
      update ctx.orderHashmap (ctx.slab.order x).orderId (some ⟨x, p⟩)) :
    contentsOf ctx' (levels.place ctx p x) none =
      ((contentsOf ctx levels none).set (ctx.slab.order x).orderId
        (some ((ctx.slab.order x).stored p))).enqueue (ctx.slab.order x).orderId p
          (omIsBid (ctx.slab.order x).flags) := by
  set b := omIsBid (ctx.slab.order x).flags
  set c := (contentsOf ctx levels none).set (ctx.slab.order x).orderId
    (some ((ctx.slab.order x).stored p)) with hc
  have hknown : knownIn ctx' none = c.known := by
    refine known_update ?_ fun id hne => ⟨?_, fun e he => ⟨horder _, Iff.rfl⟩⟩
    · rw [known_of_entry (by rw [hhash, update_self]), horder]
      rfl
    · rw [hhash, update_of_ne hne]
  have hpriceX : c.priceOf (ctx.slab.order x).orderId = (ctx.slab.order x).price := by
    simp [hc, Contents.priceOf, Contents.set, OmOrderFields.stored]
  have hprice : ∀ i ∈ queueOf (levels p b),
      c.priceOf (ctx.slab.order i).orderId = (ctx.slab.order i).price := by
    intro i hi
    have hentry := (h.resting hi).1
    have hne : (ctx.slab.order i).orderId ≠ (ctx.slab.order x).orderId := fun he => by
      rw [he, hfresh] at hentry
      cases hentry
    rw [Contents.priceOf, ← hknown,
      known_of_entry (by rw [hhash, update_of_ne hne, hentry]), horder]
    rfl
  refine Contents.ext hknown (funext₂ fun p' b' => ?_)
  rw [queue_contents, Levels.place]
  dsimp only [Contents.enqueue]
  simp only [horder]
  by_cases hpb : p' = p ∧ b' = b
  · obtain ⟨rfl, rfl⟩ := hpb
    have hside := h.sides p' b
    rw [if_pos ⟨rfl, rfl⟩, Levels.set_self, queueOf_placeInto hside.sorted hside.prices]
    change _ = orderedInsert _ _ ((contentsOf ctx levels none).queue p' b)
    rw [queue_contents]
    refine map_orderedInsert _ _ _ _ _ (fun i hi => ?_) fun i hi => ?_
    · rw [hprice i hi, hpriceX]
    · rw [hprice i hi, hpriceX]
  · rw [if_neg hpb, Levels.set_other hpb]
    exact queue_contents.symm

end Contents

end VeloxMatch
