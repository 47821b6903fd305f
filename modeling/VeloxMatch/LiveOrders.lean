import VeloxMatch.WalRecord
import Mathlib.Algebra.GroupWithZero.Nat
import Mathlib.Algebra.BigOperators.Group.List.Basic
import Mathlib.Data.List.Nodup

namespace VeloxMatch

open Function List

structure LiveOrder where
  orderId : Nat
  productId : Nat
  isBid : Bool
  price : Nat
  remaining : Nat
  deriving DecidableEq, Repr

def atPlace (p x : Nat) (b : Bool) (q p' : Nat) (b' : Bool) (x' : Nat) : Nat :=
  if p' = p ∧ b' = b ∧ x' = x then q else 0

namespace LiveOrder

def ofInsert (rec : OmWalInsert) : LiveOrder :=
  ⟨rec.orderId, rec.productId, omIsBid rec.flags, rec.price, rec.volRemain⟩

def fill (o : LiveOrder) (volume : Nat) : Option LiveOrder :=
  if o.remaining ≠ 0 ∧ o.remaining ≤ volume then none
  else some { o with remaining := o.remaining - volume }

def volumeAt (o : LiveOrder) : Nat → Bool → Nat → Nat :=
  atPlace o.productId o.price o.isBid o.remaining

end LiveOrder

def fillLive (live : List LiveOrder) (id volume : Nat) : List LiveOrder :=
  live.filterMap fun o => if o.orderId = id then o.fill volume else some o

/-- What a record does to the live orders. A deactivated order has left: it comes back with an
INSERT. -/
def liveStep (live : List LiveOrder) : OmWalRecord → List LiveOrder
  | .insert rec => .ofInsert rec :: live
  | .cancel rec | .deactivate rec => live.filter (·.orderId ≠ rec.orderId)
  | .matched rec => fillLive live rec.makerId rec.volume
  | .activate _ | .other _ _ => live

def liveAt (live : List LiveOrder) (id : Nat) : Option LiveOrder := live.find? (·.orderId = id)

def liveTotal (live : List LiveOrder) (p : Nat) (b : Bool) (x : Nat) : Nat :=
  (live.map (·.volumeAt p b x)).sum

/-- No product has orders with volume at one price on both sides. -/
def Unlocked (live : List LiveOrder) : Prop :=
  ∀ o ∈ live, ∀ o' ∈ live, o.productId = o'.productId → o.price = o'.price → o.isBid = true →
    o'.isBid = false → o.remaining = 0 ∨ o'.remaining = 0

instance (live : List LiveOrder) : Decidable (Unlocked live) :=
  inferInstanceAs (Decidable (∀ o ∈ live, ∀ o' ∈ live, _))

def FreshInsert (live : List LiveOrder) : OmWalRecord → Prop
  | .insert rec => liveAt live rec.orderId = none
  | _ => True

instance (live : List LiveOrder) (rec : OmWalRecord) : Decidable (FreshInsert live rec) := by
  induction rec using OmWalRecord.casesOn <;> dsimp only [FreshInsert] <;> infer_instance

/-- A record may follow the records behind `live`. -/
def StreamOk (live : List LiveOrder) (rec : OmWalRecord) : Prop :=
  FreshInsert live rec ∧ Unlocked (liveStep live rec)

instance (live : List LiveOrder) (rec : OmWalRecord) : Decidable (StreamOk live rec) :=
  inferInstanceAs (Decidable (_ ∧ _))

section Place

variable {p x q p' x' : Nat} {b b' : Bool}

@[simp] theorem atPlace_self : atPlace p x b q p b x = q := if_pos ⟨rfl, rfl, rfl⟩

theorem atPlace_ne (h : ¬(p' = p ∧ b' = b ∧ x' = x)) : atPlace p x b q p' b' x' = 0 := if_neg h

@[simp] theorem atPlace_zero : atPlace p x b 0 p' b' x' = 0 := ite_self 0

theorem atPlace_add (q₁ q₂ : Nat) :
    atPlace p x b (q₁ + q₂) p' b' x' = atPlace p x b q₁ p' b' x' + atPlace p x b q₂ p' b' x' := by
  unfold atPlace
  split <;> rfl

end Place

section Totals

variable {live l l' : List LiveOrder} {o : LiveOrder} {p x id volume : Nat} {b : Bool}

theorem liveTotal_cons : liveTotal (o :: live) p b x = o.volumeAt p b x + liveTotal live p b x :=
  sum_cons

theorem liveTotal_append (l l' : List LiveOrder) :
    liveTotal (l ++ l') p b x = liveTotal l p b x + liveTotal l' p b x := by
  rw [liveTotal, map_append, sum_append]
  rfl

theorem exists_of_liveTotal (h : liveTotal live p b x ≠ 0) :
    ∃ o ∈ live, o.productId = p ∧ o.isBid = b ∧ o.price = x ∧ o.remaining ≠ 0 := by
  by_contra hnone
  refine h (sum_eq_zero fun q hq => ?_)
  obtain ⟨o, ho, rfl⟩ := mem_map.mp hq
  by_cases hplace : p = o.productId ∧ b = o.isBid ∧ x = o.price
  · have hzero : o.remaining = 0 := by_contra fun hne =>
      hnone ⟨o, ho, hplace.1.symm, hplace.2.1.symm, hplace.2.2.symm, hne⟩
    rw [LiveOrder.volumeAt, hzero, atPlace_zero]
  · exact atPlace_ne hplace

theorem Unlocked.total (h : Unlocked live) (p x : Nat) :
    liveTotal live p true x = 0 ∨ liveTotal live p false x = 0 := by
  by_contra hboth
  obtain ⟨hbid, hask⟩ := not_or.mp hboth
  obtain ⟨o, ho, hp, hb, hx, hne⟩ := exists_of_liveTotal hbid
  obtain ⟨o', ho', hp', hb', hx', hne'⟩ := exists_of_liveTotal hask
  rcases h o ho o' ho' (hp.trans hp'.symm) (hx.trans hx'.symm) hb hb' with hzero | hzero
  · exact hne hzero
  · exact hne' hzero

theorem exists_split (hids : (live.map (·.orderId)).Nodup) (ho : o ∈ live) :
    ∃ l l', live = l ++ o :: l' ∧ ∀ o' ∈ l ++ l', o'.orderId ≠ o.orderId := by
  obtain ⟨l, l', rfl⟩ := append_of_mem ho
  refine ⟨l, l', rfl, fun o' ho' he => ?_⟩
  rw [map_append, map_cons] at hids
  have hnot := (nodup_cons.mp (nodup_middle.mp hids)).1
  rw [← map_append] at hnot
  exact hnot (he ▸ mem_map_of_mem ho')

theorem filter_other (h : ∀ o ∈ l, o.orderId ≠ id) : l.filter (·.orderId ≠ id) = l :=
  filter_eq_self.mpr fun o ho => by simpa using h o ho

theorem filterMap_other (h : ∀ o ∈ l, o.orderId ≠ id) (f : LiveOrder → Option LiveOrder) :
    l.filterMap (fun o => if o.orderId = id then f o else some o) = l := by
  rw [filterMap_congr fun o ho => if_neg (h o ho), filterMap_some]

theorem filter_split (h : ∀ o' ∈ l ++ l', o'.orderId ≠ o.orderId) :
    (l ++ o :: l').filter (·.orderId ≠ o.orderId) = l ++ l' := by
  rw [filter_append, filter_cons_of_neg (by simp), ← filter_append, filter_other h]

theorem filterMap_split (h : ∀ o' ∈ l ++ l', o'.orderId ≠ o.orderId)
    (f : LiveOrder → Option LiveOrder) :
    (l ++ o :: l').filterMap (fun o' => if o'.orderId = o.orderId then f o' else some o') =
      l ++ (f o).toList ++ l' := by
  have hl := filterMap_other (fun o' ho' => h o' (mem_append_left _ ho')) f
  have hl' := filterMap_other (fun o' ho' => h o' (mem_append_right _ ho')) f
  rw [filterMap_append, filterMap_cons, if_pos rfl, hl, hl']
  cases f o <;> simp

theorem liveAt_mem (h : liveAt live id = some o) : o ∈ live ∧ o.orderId = id :=
  ⟨mem_of_find?_eq_some h, by simpa using find?_some h⟩

theorem liveAt_none (h : liveAt live id = none) : ∀ o ∈ live, o.orderId ≠ id := by
  simpa [liveAt] using h

theorem liveAt_cons : liveAt (o :: live) = update (liveAt live) o.orderId (some o) := by
  funext id
  unfold liveAt
  rcases eq_or_ne id o.orderId with rfl | hne
  · rw [update_self, find?_cons_of_pos (by simp)]
  · rw [update_of_ne hne, find?_cons_of_neg (by simpa using hne.symm)]

theorem liveAt_leave : liveAt (live.filter (·.orderId ≠ id)) = update (liveAt live) id none := by
  funext id'
  unfold liveAt
  rcases eq_or_ne id' id with rfl | hne
  · rw [update_self, find?_eq_none]
    intro o ho
    simpa using (mem_filter.mp ho).2
  · rw [update_of_ne hne, find?_filter]
    congr 1
    funext o
    by_cases ho : o.orderId = id'
    · simp [ho, hne]
    · simp [ho]

theorem liveTotal_leave (hids : (live.map (·.orderId)).Nodup) (id : Nat) :
    liveTotal live p b x = liveTotal (live.filter (·.orderId ≠ id)) p b x +
      (liveAt live id).elim 0 (·.volumeAt p b x) := by
  cases hat : liveAt live id with
  | none =>
    rw [filter_other (liveAt_none hat)]
    rfl
  | some o =>
    obtain ⟨ho, rfl⟩ := liveAt_mem hat
    obtain ⟨l, l', rfl, hother⟩ := exists_split hids ho
    rw [filter_split hother, liveTotal_append, liveTotal_append, liveTotal_cons, Option.elim_some]
    omega

theorem fill_volumeAt (o : LiveOrder) (volume : Nat) :
    o.volumeAt p b x = liveTotal (o.fill volume).toList p b x +
      atPlace o.productId o.price o.isBid (min volume o.remaining) p b x := by
  have hsplit : o.remaining = (o.remaining - volume) + min volume o.remaining := by omega
  rw [LiveOrder.volumeAt]
  nth_rewrite 1 [hsplit]
  rw [atPlace_add]
  refine congrArg (· + _) ?_
  unfold LiveOrder.fill
  split
  · next hfilled =>
    rw [Nat.sub_eq_zero_of_le hfilled.2]
    exact atPlace_zero
  · exact (Nat.add_zero _).symm

theorem liveTotal_fill (hids : (live.map (·.orderId)).Nodup) (id volume : Nat) :
    liveTotal live p b x = liveTotal (fillLive live id volume) p b x +
      (liveAt live id).elim 0 fun o =>
        atPlace o.productId o.price o.isBid (min volume o.remaining) p b x := by
  unfold fillLive
  cases hat : liveAt live id with
  | none =>
    rw [filterMap_other (liveAt_none hat)]
    rfl
  | some o =>
    obtain ⟨ho, rfl⟩ := liveAt_mem hat
    obtain ⟨l, l', rfl, hother⟩ := exists_split hids ho
    have hfill := fill_volumeAt (p := p) (x := x) (b := b) o volume
    rw [filterMap_split hother (·.fill volume), liveTotal_append, liveTotal_append,
      liveTotal_append, liveTotal_cons, Option.elim_some]
    omega

end Totals

section Step

variable {live : List LiveOrder} {o o' : LiveOrder} {rec : OmWalRecord} {id volume : Nat}

theorem fill_orderId (h : o.fill volume = some o') : o'.orderId = o.orderId := by
  unfold LiveOrder.fill at h
  split at h
  · cases h
  · cases h
    rfl

theorem fill_productId (h : o.fill volume = some o') : o'.productId = o.productId := by
  unfold LiveOrder.fill at h
  split at h
  · cases h
  · cases h
    rfl

theorem kept_orderId
    (h : (if o.orderId = id then o.fill volume else some o) = some o') : o'.orderId = o.orderId := by
  split at h
  · exact fill_orderId h
  · cases h
    rfl

theorem fillLive_ids (hids : (live.map (·.orderId)).Nodup) (id volume : Nat) :
    ((fillLive live id volume).map (·.orderId)).Nodup := by
  refine pairwise_map.mpr ((pairwise_map.mp hids).filterMap _ ?_)
  intro o o' hne kept hkept kept' hkept'
  rw [kept_orderId hkept, kept_orderId hkept']
  exact hne

theorem liveAt_fill (hids : (live.map (·.orderId)).Nodup) (id volume : Nat) :
    liveAt (fillLive live id volume) =
      update (liveAt live) id ((liveAt live id).bind (·.fill volume)) := by
  funext id'
  rcases eq_or_ne id' id with rfl | hne
  · rw [update_self]
    cases hat : liveAt live id' with
    | none =>
      rw [fillLive, filterMap_other (liveAt_none hat), hat]
      rfl
    | some o =>
      obtain ⟨ho, rfl⟩ := liveAt_mem hat
      obtain ⟨l, l', rfl, hother⟩ := exists_split hids ho
      rw [fillLive, filterMap_split hother (·.fill volume), Option.bind_some, liveAt]
      have hnone : ∀ l'' : List LiveOrder, (∀ o' ∈ l'', o' ∈ l ++ l') →
          l''.find? (·.orderId = o.orderId) = none := fun l'' hsub =>
        find?_eq_none.mpr fun o' ho' => by simpa using hother o' (hsub o' ho')
      rw [append_assoc, find?_append, hnone l fun o' => mem_append_left _]
      cases hfill : o.fill volume with
      | none => exact hnone l' fun o' => mem_append_right _
      | some o' => simp [fill_orderId hfill]
  · rw [update_of_ne hne]
    unfold liveAt fillLive
    induction live with
    | nil => rfl
    | cons o live ih =>
      have ih := ih (nodup_cons.mp hids).2
      by_cases ho : o.orderId = id
      · rw [filterMap_cons, if_pos ho, find?_cons_of_neg (by simp [ho, hne.symm])]
        cases hfill : o.fill volume with
        | none => exact ih
        | some o' =>
          dsimp only
          rw [find?_cons_of_neg (by simp [fill_orderId hfill, ho, hne.symm]), ih]
      · rw [filterMap_cons, if_neg ho]
        dsimp only
        by_cases ho' : o.orderId = id'
        · rw [find?_cons_of_pos (by simpa using ho'), find?_cons_of_pos (by simpa using ho')]
        · rw [find?_cons_of_neg (by simpa using ho'), ih,
            find?_cons_of_neg (by simpa using ho')]

theorem liveTotal_insert (live : List LiveOrder) (rec : OmWalInsert) (p : Nat) (b : Bool) (x : Nat) :
    liveTotal (liveStep live (.insert rec)) p b x = liveTotal live p b x +
      atPlace rec.productId rec.price (omIsBid rec.flags) rec.volRemain p b x :=
  liveTotal_cons.trans (Nat.add_comm ..)

theorem opposite_empty {rec : OmWalInsert} (h : Unlocked (liveStep live (.insert rec)))
    (hne : rec.volRemain ≠ 0) :
    liveTotal live rec.productId (!omIsBid rec.flags) rec.price = 0 := by
  have hself := liveTotal_insert live rec rec.productId (omIsBid rec.flags) rec.price
  have hother := liveTotal_insert live rec rec.productId (!omIsBid rec.flags) rec.price
  rw [atPlace_self] at hself
  have htotal := h.total rec.productId rec.price
  cases hb : omIsBid rec.flags with
  | true =>
    rw [hb] at hself hother
    exact Nat.eq_zero_of_add_eq_zero_right (hother ▸ htotal.resolve_left (by omega))
  | false =>
    rw [hb] at hself hother
    exact Nat.eq_zero_of_add_eq_zero_right (hother ▸ htotal.resolve_right (by omega))

theorem liveStep_ids (hids : (live.map (·.orderId)).Nodup)
    (hnew : FreshInsert live rec) : ((liveStep live rec).map (·.orderId)).Nodup := by
  cases rec with
  | insert r =>
    refine nodup_cons.mpr ⟨fun hmem => ?_, hids⟩
    obtain ⟨o, ho, he⟩ := mem_map.mp hmem
    exact liveAt_none hnew o ho he
  | cancel r | deactivate r => exact hids.sublist (filter_sublist.map _)
  | matched r => exact fillLive_ids hids r.makerId r.volume
  | activate r => exact hids
  | other => exact hids

end Step

end VeloxMatch
