import VeloxMatch.MarketLadder
import Mathlib.Data.List.AList
import VeloxMatch.IntrusiveList

namespace VeloxMatch

/-- What is kept for a price of one side of a ladder: its place in the list of prices touched
since the last clear (`none` is `UINT64_MAX`), the change since then and, in private ladders, the
quantity. -/
structure OmMarketDeltaEntry where
  nextDirty : Option Nat
  dirty : Bool
  delta : Int
  absQty : Nat
  deriving DecidableEq, Repr

abbrev OmMarketDeltaMap := AList fun _ : Nat => OmMarketDeltaEntry

/-- A delta map with the head of its list; the public workers keep no such list. -/
structure DeltaSide where
  map : OmMarketDeltaMap
  head : Option Nat

def DeltaSide.empty : DeltaSide := ⟨∅, none⟩

structure OmMarketDelta where
  price : Nat
  delta : Int
  absQty : Nat
  deriving DecidableEq, Repr

namespace DeltaSide

def entry (side : DeltaSide) (price : Nat) : OmMarketDeltaEntry :=
  (side.map.lookup price).getD ⟨some 0, false, 0, 0⟩

def set (side : DeltaSide) (price : Nat) (entry : OmMarketDeltaEntry) : DeltaSide :=
  { side with map := side.map.insert price entry }

end DeltaSide

def deltaOverflows (entry : OmMarketDeltaEntry) (delta : Int) : Prop :=
  (0 < delta ∧ (int64Max : Int) - delta < entry.delta) ∨
    (delta < 0 ∧ entry.delta < -(int64Max : Int) - 1 - delta)

instance (entry : OmMarketDeltaEntry) (delta : Int) : Decidable (deltaOverflows entry delta) :=
  inferInstanceAs (Decidable (_ ∨ _))

def changedQty (absQty : Nat) (change : Int) : Option Nat :=
  if change < 0 then if absQty < change.natAbs then none else some (absQty - change.natAbs)
  else if uint64Max - absQty < change.natAbs then none
  else some (absQty + change.natAbs)

/-- `om_market_delta_add`; `keepsQty` if it is given a head. -/
def omMarketDeltaAdd (side : DeltaSide) (price : Nat) (delta absQtyDelta : Int)
    (keepsQty : Bool) : OmError × DeltaSide :=
  if price = uint64Max then (.invalidParam, side)
  else if delta = 0 ∧ absQtyDelta = 0 then (.ok, side)
  else
    let entry := side.entry price
    if deltaOverflows entry delta then (.outOfRange, side.set price entry)
    else if keepsQty then
      match changedQty entry.absQty absQtyDelta with
      | none => (.outOfRange, side.set price entry)
      | some absQty =>
        if entry.dirty then
          (.ok, side.set price { entry with absQty := absQty, delta := entry.delta + delta })
        else
          (.ok, { side.set price ⟨side.head, true, entry.delta + delta, absQty⟩ with
            head := some price })
    else (.ok, side.set price { entry with delta := entry.delta + delta })

def copyDirty (map : OmMarketDeltaMap) : Nat → Option Nat → Except OmError (List OmMarketDelta)
  | _, none => .ok []
  | 0, some _ => .error .outOfRange
  | max + 1, some price =>
    match map.lookup price with
    | none => .error .notFound
    | some entry =>
      (copyDirty map max entry.nextDirty).map (⟨price, entry.delta, entry.absQty⟩ :: ·)

/-- Reset the entries of the list from `price` on and drop those without a quantity; `none` if
the list does not end. -/
def clearDirty : Nat → OmMarketDeltaMap → Option Nat → Option (OmError × OmMarketDeltaMap)
  | _, map, none => some (.ok, map)
  | 0, _, some _ => none
  | fuel + 1, map, some price =>
    match map.lookup price with
    | none => some (.notFound, map)
    | some entry =>
      let map :=
        if entry.absQty = 0 then map.erase price
        else map.insert price { entry with delta := 0, dirty := false }
      clearDirty fuel map entry.nextDirty

open DeltaSide OmMarketDeltaEntry Function List

section Entry

variable {side : DeltaSide} {x y : Nat} {e : OmMarketDeltaEntry}

@[simp] theorem entry_set_self : (side.set x e).entry x = e := by
  simp [DeltaSide.entry, DeltaSide.set]

theorem entry_set_ne (h : y ≠ x) : (side.set x e).entry y = side.entry y := by
  simp [DeltaSide.entry, DeltaSide.set, AList.lookup_insert_ne h]

theorem lookup_set_ne (h : y ≠ x) : (side.set x e).map.lookup y = side.map.lookup y :=
  AList.lookup_insert_ne h

theorem entry_of_lookup (h : side.map.lookup x = some e) : side.entry x = e := by
  simp [entry, h]

end Entry

theorem forall_update_update {β : Type} {f : Nat → Bool → β} {P : Nat → Bool → β → Prop} {k : Nat}
    {b : Bool} {v : β} (hv : P k b v) (h : ∀ k' b', P k' b' (f k' b')) (k' : Nat) (b' : Bool) :
    P k' b' (update f k (update (f k) b v) k' b') := by
  rcases eq_or_ne k' k with rfl | hk
  · rw [update_self]
    rcases eq_or_ne b' b with rfl | hb
    · rwa [update_self]
    · rw [update_of_ne hb]
      exact h k' b'
  · rw [update_of_ne hk]
    exact h k' b'

theorem changedQty_eq {absQty qty : Nat} {change : Int} (h : changedQty absQty change = some qty) :
    (qty : Int) = absQty + change := by
  unfold changedQty at h
  split at h
  · split at h
    · cases h
    · cases h
      omega
  · split at h
    · cases h
    · cases h
      omega

theorem changedQty_le {absQty qty : Nat} {change : Int} (habs : absQty ≤ uint64Max)
    (h : changedQty absQty change = some qty) : qty ≤ uint64Max := by
  unfold changedQty at h
  split at h
  · split at h
    · cases h
    · cases h
      omega
  · split at h
    · cases h
    · cases h
      omega

/-- The side of a ladder has the quantities `qty`, which were `base` at the last clear; `ds` are
the prices touched since then. -/
structure Tracks (side : DeltaSide) (qty base : Nat → Nat) (ds : List Nat) : Prop where
  nodup : ds.Nodup
  head : side.head = front ds none
  links : SSeg (fun x => (side.entry x).nextDirty) ds
  listed : ∀ x ∈ ds, ∃ e, side.map.lookup x = some e ∧ e.dirty = true
  unlisted : ∀ x, x ∉ ds → (side.entry x).dirty = false ∧ qty x = base x
  absQty : ∀ x, (side.entry x).absQty = qty x
  delta : ∀ x, (side.entry x).delta = qty x - base x

theorem Tracks.empty : Tracks .empty (fun _ => 0) (fun _ => 0) [] where
  nodup := nodup_nil
  head := rfl
  links := trivial
  listed := nofun
  unlisted _ _ := ⟨rfl, rfl⟩
  absQty _ := rfl
  delta _ := rfl

section Add

variable {side side' : DeltaSide} {qty base : Nat → Nat} {ds : List Nat} {x : Nat} {d : Int}
  (h : Tracks side qty base ds)
include h

theorem Tracks.dirty_iff : (side.entry x).dirty = true ↔ x ∈ ds := by
  refine ⟨fun hd => ?_, fun hx => ?_⟩
  · by_contra hx
    rw [(h.unlisted x hx).1] at hd
    cases hd
  · obtain ⟨e, he, hdirty⟩ := h.listed x hx
    rw [entry_of_lookup he, hdirty]

theorem Tracks.change_listed (hx : x ∈ ds) {q : Nat} (hq : (q : Int) = qty x + d) :
    Tracks (side.set x
        { side.entry x with absQty := q, delta := (side.entry x).delta + d })
      (update qty x q) base ds where
  nodup := h.nodup
  head := h.head
  links := by
    refine h.links.congr fun y _ => ?_
    rcases eq_or_ne y x with rfl | hne
    · rw [entry_set_self]
    · rw [entry_set_ne hne]
  listed y hy := by
    rcases eq_or_ne y x with rfl | hne
    · exact ⟨_, AList.lookup_insert _, h.dirty_iff.mpr hy⟩
    · rw [lookup_set_ne hne]
      exact h.listed y hy
  unlisted y hy := by
    have hne : y ≠ x := fun he => hy (he ▸ hx)
    rw [entry_set_ne hne, update_of_ne hne]
    exact h.unlisted y hy
  absQty y := by
    rcases eq_or_ne y x with rfl | hne
    · rw [entry_set_self, update_self]
    · rw [entry_set_ne hne, update_of_ne hne]
      exact h.absQty y
  delta y := by
    rcases eq_or_ne y x with rfl | hne
    · rw [entry_set_self, update_self, hq]
      dsimp only
      rw [h.delta]
      omega
    · rw [entry_set_ne hne, update_of_ne hne]
      exact h.delta y

theorem Tracks.change_unlisted (hx : x ∉ ds) {q : Nat} (hq : (q : Int) = qty x + d) :
    Tracks { side.set x ⟨side.head, true, (side.entry x).delta + d, q⟩ with head := some x }
      (update qty x q) base (x :: ds) where
  nodup := nodup_cons.mpr ⟨hx, h.nodup⟩
  head := rfl
  links := by
    refine ⟨?_, h.links.congr fun y hy => ?_⟩
    · have hself := @entry_set_self side x ⟨side.head, true, (side.entry x).delta + d, q⟩
      exact (congrArg nextDirty hself).trans h.head
    · have hne : y ≠ x := fun he => hx (he ▸ hy)
      exact congrArg nextDirty (entry_set_ne hne)
  listed y hy := by
    rcases mem_cons.mp hy with rfl | hy
    · exact ⟨_, AList.lookup_insert _, rfl⟩
    · have hne : y ≠ x := fun he => hx (he ▸ hy)
      obtain ⟨e, he, hdirty⟩ := h.listed y hy
      exact ⟨e, (lookup_set_ne hne).trans he, hdirty⟩
  unlisted y hy := by
    obtain ⟨hne, hy⟩ := not_or.mp (mt mem_cons.mpr hy)
    rw [update_of_ne hne]
    exact ⟨(congrArg dirty (entry_set_ne hne)).trans (h.unlisted y hy).1,
      (h.unlisted y hy).2⟩
  absQty y := by
    rcases eq_or_ne y x with rfl | hne
    · rw [update_self]
      exact congrArg OmMarketDeltaEntry.absQty entry_set_self
    · rw [update_of_ne hne]
      exact (congrArg OmMarketDeltaEntry.absQty (entry_set_ne hne)).trans (h.absQty y)
  delta y := by
    rcases eq_or_ne y x with rfl | hne
    · rw [update_self, hq]
      refine (congrArg OmMarketDeltaEntry.delta entry_set_self).trans ?_
      dsimp only
      rw [h.delta]
      omega
    · rw [update_of_ne hne]
      exact (congrArg OmMarketDeltaEntry.delta (entry_set_ne hne)).trans (h.delta y)

theorem Tracks.add (hadd : omMarketDeltaAdd side x d d true = (.ok, side')) :
    ∃ (q : Nat) (ds' : List Nat), (q : Int) = qty x + d ∧ (qty x ≤ uint64Max → q ≤ uint64Max) ∧
      Tracks side' (update qty x q) base ds' := by
  unfold omMarketDeltaAdd at hadd
  split at hadd
  · cases hadd
  split at hadd
  · next hzero =>
    cases hadd
    refine ⟨qty x, ds, by omega, id, ?_⟩
    rw [update_eq_self]
    exact h
  dsimp only at hadd
  split at hadd
  · cases hadd
  rw [if_pos rfl, h.absQty x] at hadd
  split at hadd
  · cases hadd
  next q hchanged =>
  have hq : (q : Int) = qty x + d := changedQty_eq hchanged
  have hle : qty x ≤ uint64Max → q ≤ uint64Max := fun habs => changedQty_le habs hchanged
  split at hadd
  · next hdirty =>
    cases hadd
    exact ⟨q, ds, hq, hle, h.change_listed (h.dirty_iff.mp hdirty) hq⟩
  · next hclean =>
    cases hadd
    exact ⟨q, x :: ds, hq, hle, h.change_unlisted (fun hx => hclean (h.dirty_iff.mpr hx)) hq⟩

end Add

def deltaEntries (delta : Nat → Int) (qty : Nat → Nat) (ds : List Nat) : List OmMarketDelta :=
  ds.map fun x => ⟨x, delta x, qty x⟩

theorem map_price_deltaEntries (delta : Nat → Int) (qty : Nat → Nat) (ds : List Nat) :
    (deltaEntries delta qty ds).map (·.price) = ds := by
  rw [deltaEntries, map_map]
  exact map_id ds

theorem copyDirty_eq {side : DeltaSide} {ds : List Nat}
    (hlinks : SSeg (fun x => (side.entry x).nextDirty) ds)
    (hlisted : ∀ x ∈ ds, ∃ e, side.map.lookup x = some e ∧ e.dirty = true) (max : Nat) :
    copyDirty side.map max (front ds none) =
      if ds.length ≤ max then
        .ok (deltaEntries (fun x => (side.entry x).delta) (fun x => (side.entry x).absQty) ds)
      else .error .outOfRange := by
  induction ds generalizing max with
  | nil => cases max <;> rfl
  | cons x ds ih =>
    cases max with
    | zero => rfl
    | succ max =>
      obtain ⟨e, he, -⟩ := hlisted x mem_cons_self
      have hentry := entry_of_lookup he
      have hnext : e.nextDirty = front ds none := by
        rw [← hentry]
        exact hlinks.1
      have hrest := ih hlinks.2 (fun y hy => hlisted y (mem_cons_of_mem _ hy)) max
      simp only [front_cons, copyDirty, he, hnext, hrest, length_cons,
        Nat.add_le_add_iff_right]
      split
      · simp [Except.map, deltaEntries, hentry]
      · rfl

def clearEntry (map : OmMarketDeltaMap) (x : Nat) (e : OmMarketDeltaEntry) : OmMarketDeltaMap :=
  if e.absQty = 0 then map.erase x else map.insert x { e with delta := 0, dirty := false }

section Clear

variable {map : OmMarketDeltaMap} {head : Option Nat} {x y : Nat} {e : OmMarketDeltaEntry}

theorem lookup_clearEntry_ne (h : y ≠ x) : (clearEntry map x e).lookup y = map.lookup y := by
  unfold clearEntry
  split
  · exact AList.lookup_erase_ne h
  · exact AList.lookup_insert_ne h

theorem entry_clearEntry_ne (h : y ≠ x) :
    entry ⟨clearEntry map x e, head⟩ y = entry ⟨map, head⟩ y := by
  simp only [entry, lookup_clearEntry_ne h]

theorem entry_clearEntry_self :
    (entry ⟨clearEntry map x e, head⟩ x).dirty = false ∧
      (entry ⟨clearEntry map x e, head⟩ x).delta = 0 ∧
      (entry ⟨clearEntry map x e, head⟩ x).absQty = e.absQty := by
  unfold clearEntry
  split
  · next h => simp [entry, h]
  · simp [entry]

theorem clearDirty_eq {ds : List Nat} (hnodup : ds.Nodup)
    (hlinks : SSeg (fun x => (entry ⟨map, head⟩ x).nextDirty) ds)
    (hlisted : ∀ x ∈ ds, ∃ e, map.lookup x = some e ∧ e.dirty = true) {fuel : Nat}
    (hfuel : ds.length ≤ fuel) :
    ∃ map', clearDirty fuel map (front ds none) = some (.ok, map') ∧
      (∀ x ∈ ds, (entry ⟨map', head⟩ x).dirty = false ∧
        (entry ⟨map', head⟩ x).delta = 0 ∧
        (entry ⟨map', head⟩ x).absQty = (entry ⟨map, head⟩ x).absQty) ∧
      ∀ x, x ∉ ds → entry ⟨map', head⟩ x = entry ⟨map, head⟩ x := by
  induction ds generalizing map fuel with
  | nil => exact ⟨map, by cases fuel <;> rfl, nofun, fun _ _ => rfl⟩
  | cons x ds ih =>
    obtain ⟨hx, hnodup⟩ := nodup_cons.mp hnodup
    have hne : ∀ y ∈ ds, y ≠ x := fun y hy he => hx (he ▸ hy)
    obtain ⟨fuel, rfl⟩ : ∃ n, fuel = n + 1 := Nat.exists_eq_succ_of_ne_zero (by grind)
    obtain ⟨e, he, -⟩ := hlisted x mem_cons_self
    have hentry : entry ⟨map, head⟩ x = e := entry_of_lookup he
    have hnext : e.nextDirty = front ds none := by
      rw [← hentry]
      exact hlinks.1
    have hlinks' : SSeg (fun y => (entry ⟨clearEntry map x e, head⟩ y).nextDirty) ds :=
      hlinks.2.congr fun y hy => by rw [entry_clearEntry_ne (hne y hy)]
    have hlisted' : ∀ y ∈ ds, ∃ e', (clearEntry map x e).lookup y = some e' ∧ e'.dirty = true :=
      fun y hy => by
        rw [lookup_clearEntry_ne (hne y hy)]
        exact hlisted y (mem_cons_of_mem _ hy)
    obtain ⟨map', hclear, hin, hout⟩ :=
      ih hnodup hlinks' hlisted' (Nat.le_of_succ_le_succ hfuel)
    refine ⟨map', ?_, fun y hy => ?_, fun y hy => ?_⟩
    · rw [← hnext] at hclear
      simp only [front_cons, clearDirty, he]
      exact hclear
    · rcases mem_cons.mp hy with rfl | hy
      · rw [hout y hx, hentry]
        exact entry_clearEntry_self
      · rw [← @entry_clearEntry_ne map head x y e (hne y hy)]
        exact hin y hy
    · obtain ⟨hyx, hy⟩ := not_or.mp (mt mem_cons.mpr hy)
      rw [hout y hy, entry_clearEntry_ne hyx]

end Clear

section Walks

variable {side : DeltaSide} {qty base : Nat → Nat} {ds : List Nat} (h : Tracks side qty base ds)
include h

theorem Tracks.length_le : ds.length ≤ side.map.entries.length := by
  have hsub : ds ⊆ side.map.keys := by
    intro x hx
    obtain ⟨e, he, -⟩ := h.listed x hx
    exact AList.mem_keys.mpr (AList.lookup_isSome.mp (he ▸ rfl))
  have hlen := (subperm_of_subset h.nodup hsub).length_le
  rwa [AList.keys, keys, length_map] at hlen

theorem Tracks.copy (max : Nat) :
    copyDirty side.map max side.head =
      if ds.length ≤ max then .ok (deltaEntries (fun x => qty x - base x) qty ds)
      else .error .outOfRange := by
  rw [h.head, copyDirty_eq h.links h.listed]
  simp only [h.delta, h.absQty]

theorem Tracks.clear :
    ∃ map, clearDirty side.map.entries.length side.map side.head = some (.ok, map) ∧
      Tracks ⟨map, none⟩ qty qty [] := by
  obtain ⟨map, hclear, hin, hout⟩ := clearDirty_eq h.nodup h.links h.listed h.length_le
  rw [h.head]
  refine ⟨map, hclear, nodup_nil, rfl, trivial, nofun, fun x _ => ⟨?_, rfl⟩, fun x => ?_,
    fun x => ?_⟩
  · by_cases hx : x ∈ ds
    · exact (hin x hx).1
    · exact (congrArg dirty (hout x hx)).trans (h.unlisted x hx).1
  · by_cases hx : x ∈ ds
    · exact (hin x hx).2.2.trans (h.absQty x)
    · exact (congrArg OmMarketDeltaEntry.absQty (hout x hx)).trans (h.absQty x)
  · rw [Int.sub_self]
    by_cases hx : x ∈ ds
    · exact (hin x hx).2.1
    · have hdelta := congrArg OmMarketDeltaEntry.delta (hout x hx)
      refine hdelta.trans ((h.delta x).trans ?_)
      rw [(h.unlisted x hx).2, Int.sub_self]

end Walks

end VeloxMatch
