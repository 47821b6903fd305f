import VeloxMatch.BookContents
import VeloxMatch.EffectFacts
import VeloxMatch.VolumeAccount
import Mathlib.Data.Finset.Card

namespace VeloxMatch

open EngineState

def StoredOrder.Active (o : StoredOrder) : Prop := omGetStatus o.flags ≠ omStatusDeactivated

instance (o : StoredOrder) : Decidable o.Active := inferInstanceAs (Decidable (_ ≠ _))

/-- The record may follow those behind `c`, in a book with these limits. -/
def Contents.Admits (c : Contents) (limits : BookLimits) : OmWalRecord → Prop
  | .insert rec => c.known rec.orderId = none ∧ omGetStatus rec.flags ≠ omStatusDeactivated ∧
      0 < rec.volRemain ∧ rec.productId < limits.products ∧ rec.org < limits.orgs ∧
      ∃ ids : Finset Nat, (∀ id, c.known id ≠ none → id ∈ ids) ∧ ids.card < limits.slots
  | .cancel rec | .deactivate rec => ∃ o, c.known rec.orderId = some o ∧ o.Active
  | .matched rec => 0 < rec.volume ∧
      ∃ o, c.known rec.makerId = some o ∧ o.Active ∧ rec.volume ≤ o.remaining
  | .activate rec => ∃ o, c.known rec.orderId = some o ∧ ¬o.Active
  | .other _ _ => True

def EngineState.contents (s : EngineState) (levels : Levels) : Contents :=
  contentsOf s.book levels s.view.pending

/-- Every order the book knows has volume left, the maker on its way out excepted. -/
def Stocked (s : EngineState) : Prop :=
  ∀ id entry, s.book.orderHashmap id = some entry →
    0 < s.volume entry.slotIdx ∨ s.view.pending = some entry.slotIdx

/-- A step leaves the contents of the book, or it logs the record that says how they change. -/
inductive LogStep (s : EngineState) (c : Contents) (wal : Option OmWalHandle) (c' : Contents) :
    Prop where
  | silent : Unlogged s.book.wal wal → c' = c → LogStep s c wal c'
  | logs (r : OmWalHandle → OmWalRecord) : Appended s.book.wal wal r →
      (∀ w, c.Admits s.book.limits (r w) ∧ c' = c.step (r w)) → LogStep s c wal c'

section Step

variable {K : Kavl} {op : Op} {s : EngineState} {levels levels' : Levels} {free free' : List Nat}
  {call : Option Call} {v : View}

theorem EngineInv.pending_resting (K : Kavl) (h : EngineInv s levels free) {x : Nat}
    (hpend : s.view.pending = some x) : ∃ p b, x ∈ queueOf (levels p b) := by
  obtain ⟨call, hcall, hpc⟩ := Option.bind_eq_some_iff.mp hpend
  cases call with
  | cancelSide f => cases hpc
  | matching f activating =>
    obtain ⟨hmatch, -⟩ := h.matching hcall
    cases hcase : f.pc with
    | remove levelPrice nextLevelIdx maker nextMakerIdx both =>
      rw [Call.pending, hcase] at hpc
      cases hpc
      obtain ⟨hmem, -⟩ := hmatch.remove (K := K) hcase
      exact ⟨_, _, hmem⟩
    | _ =>
      rw [Call.pending, hcase] at hpc
      cases hpc

theorem LogStep.same (h : BookInv s.book levels free) (hw : Unlogged s.book.wal v.book.wal)
    (hpend : v.pending = s.view.pending) (hhash : v.book.orderHashmap = s.book.orderHashmap)
    (horder : ∀ id e, s.book.orderHashmap id = some e →
      v.book.slab.order e.slotIdx = s.book.slab.order e.slotIdx) :
    LogStep s (s.contents levels) v.book.wal (contentsOf v.book levels v.pending) := by
  refine .silent hw ?_
  rw [hpend]
  exact contentsOf_congr h hhash horder

theorem BookInv.active (h : BookInv s.book levels free) {p x : Nat} {b : Bool}
    (hx : x ∈ queueOf (levels p b)) :
    ∃ o, (contentsOf s.book levels none).known (s.book.slab.order x).orderId = some o ∧ o.Active := by
  obtain ⟨hentry, hactive⟩ := h.resting hx
  exact ⟨_, known_of_entry hentry, hactive⟩

theorem LogStep.of {w wal : Option OmWalHandle} {r : OmWalHandle → OmWalRecord} {c : Contents}
    (hw : Appended s.book.wal w r) (hwal : wal = w) (hpend : s.view.pending = none)
    (h : ∀ w, (contentsOf s.book levels none).Admits s.book.limits (r w) ∧
      c = (contentsOf s.book levels none).step (r w)) : LogStep s (s.contents levels) wal c := by
  rw [contents, hpend]
  exact .logs r (hwal ▸ hw) h

theorem Effect.logStep (he : Effect K op s levels free call v levels' free')
    (hinv : EngineInv s levels free) (hop : EngineOk s op) (hstocked : Stocked s) :
    LogStep s (s.contents levels) v.book.wal (contentsOf v.book levels' v.pending) := by
  have hbook := hinv.book
  cases he with
  | quiet w known hw => exact .same hbook hw rfl rfl fun _ _ _ => rfl
  | submit => exact .same hbook (.inl rfl) rfl rfl fun _ _ _ => rfl
  | @alloc x rest slab hx hspec =>
    refine .same hbook (.inl rfl) rfl rfl fun id entry hentry => ?_
    have hne : entry.slotIdx ≠ x := fun hi => (hbook.entry hentry).2.2.1 (by simp [hi, hx])
    exact hspec.order_same _ hne
  | @release x =>
    exact .same hbook (.inl rfl) rfl rfl fun _ _ _ => (omSlabFree_spec s.book.slab x).order_same _
  | @write x order hx =>
    refine .same hbook (.inl rfl) rfl rfl fun id entry hentry => ?_
    have hne : entry.slotIdx ≠ x := (hinv.held.spare x hx).unbooked id entry hentry
    change (s.book.slab.setOrder x order.order).order _ = _
    simp [hne]
  | @empty p maker b hm hpend hv =>
    have hentry := hstocked _ _ (hbook.resting hm).1
    simp [hpend, volume, hv] at hentry
  | @note p maker b w hm hpend hw =>
    exact .of hw rfl hpend fun _ => ⟨hbook.active hm, contentsOf_out (hbook.setWal w) hm⟩
  | @reduce f _ levelPrice maker qty w hcall hm _ hpend hq hqm hqt hw =>
    obtain ⟨hmaker, hactive⟩ := hbook.resting hm
    refine .of hw rfl hpend fun _ => ⟨⟨hq, _, known_of_entry hmaker, hactive, hqm⟩, ?_⟩
    have hbook' := (hbook.setWal w).sameBook (withVolume_sameBook _ maker
      ((s.book.slab.order maker).volumeRemain - qty))
    -- the taker has no entry
    refine Eq.trans (contentsOf_congr hbook' rfl fun id e he => ?_) ?_
    · rw [order_withVolume, if_neg ((hinv.matching hcall).1.taker.spare.unbooked id e he)]
    refine .trans ?_ (contentsOf_matched (hbook.setWal w) hm rfl hqm).symm
    change _ = if (s.book.slab.order maker).volumeRemain = qty then _ else _
    by_cases hfilled : (s.book.slab.order maker).volumeRemain = qty
    · rw [if_pos hfilled, if_pos hfilled, contentsOf_out hbook' hm,
        (withVolume_sameBook ..).orderId]
      rfl
    · rw [if_neg hfilled, if_neg hfilled]
      rfl
  | @remove f _ p maker b ctx both hcall hm hpend _ hleft =>
    refine .silent (.inl ?_) ?_
    · rw [← hleft.kept.wal]
      cases both <;> rfl
    · rw [contents, hpend, contentsOf_out hbook hm]
      refine contentsOf_drop hbook hm (fun id e he => ?_) ?_
      · rw [← hleft.kept.order]
        cases both with
        | false => rfl
        | true =>
          have htaker := (hinv.matching hcall).1.taker.spare.unbooked id e he
          exact (order_withVolume ..).trans (if_neg htaker)
      · rw [← hleft.hash]
        cases both <;> rfl
  | @place p x w ctx hunbooked hnot hlt hactive hfrom _ hbooked =>
    rcases hfrom with ⟨-, rfl⟩ | ⟨f, activating, hcall, hpc, rfl, rfl⟩
    · exact False.elim hop
    have hpend : s.view.pending = none := by
      simp [view, hcall, Call.pending, hpc, MatchPc.pending]
    refine .of hbooked.logged hbooked.kept.wal hpend fun _ =>
      ⟨⟨?_, hactive, ?_, hbooked.product, hbooked.org, ?_⟩, ?_⟩
    · exact known_of_none hbooked.fresh
    · exact Nat.pos_of_ne_zero ((hinv.matching hcall).1.volume_of_book hpc)
    · refine ⟨((Finset.range s.book.slab.capacity).erase f.taker).image
        fun i => (s.book.slab.order i).orderId, fun id hid => ?_, ?_⟩
      · obtain ⟨e, he⟩ : ∃ e, s.book.orderHashmap id = some e :=
          Option.ne_none_iff_exists'.mp fun hnone => hid (known_of_none hnone)
        obtain ⟨hslot, hcap, -⟩ := hbook.entry he
        refine Finset.mem_image.mpr ⟨e.slotIdx, ?_, hslot⟩
        exact Finset.mem_erase.mpr ⟨hunbooked id e he, Finset.mem_range.mpr hcap⟩
      · refine Finset.card_image_le.trans_lt ?_
        exact (Finset.card_erase_lt_of_mem (Finset.mem_range.mpr hlt)).trans_eq
          (Finset.card_range _)
    · rw [hpend]
      exact contentsOf_place hbook hbooked.fresh hbooked.kept.order hbooked.hash
  | @cancel p x b w ctx hx hpend hw _ hleft =>
    refine .of hw hleft.kept.wal hpend fun _ => ⟨hbook.active hx, ?_⟩
    rw [hpend]
    exact contentsOf_drop hbook hx (fun _ _ _ => hleft.kept.order _) hleft.hash
  | @park p x b w ctx hx hpend hw _ hkept hhash =>
    refine .of hw hkept.wal hpend fun _ => ⟨hbook.active hx, ?_⟩
    rw [hpend]
    exact contentsOf_park hbook hx hkept.order hhash rfl
  | @unpark id p x w f hentry hd hpend hw =>
    refine .of hw rfl hpend fun _ => ⟨⟨_, known_of_entry hentry, not_not.mpr hd⟩, ?_⟩
    rw [hpend]
    refine contentsOf_withoutEntry hbook hentry hd rfl fun j hj => ?_
    rw [order_setStatus, if_neg hj]
    rfl
  | @unparkUsed id p x w ctx hentry hd hzero =>
    rcases hstocked id _ hentry with hpos | hpend
    · exact absurd hzero hpos.ne'
    · obtain ⟨q, b, hx⟩ := hinv.pending_resting K hpend
      exact absurd hd (hbook.resting hx).2
  | noteDead hcancels hentry hd | cancelDead hcancels hentry hd =>
    rcases hcancels with rfl | rfl
    · exact absurd hd (hop _ hentry)
    · exact False.elim hop

theorem Stocked.of_idle (h : Stocked s) (hcall : s.call = none) (id : Nat) (entry : OmOrderEntry)
    (he : s.book.orderHashmap id = some entry) : 0 < s.volume entry.slotIdx :=
  (h id entry he).resolve_right (by simp [view, hcall])

end Step

def Contents.Positive (c : Contents) : Prop := ∀ id o, c.known id = some o → 0 < o.remaining

section Positive

variable {c : Contents} {limits : BookLimits} {rec : OmWalRecord}

theorem Contents.Positive.set (h : c.Positive) (id : Nat) {o : Option StoredOrder}
    (ho : ∀ o', o = some o' → 0 < o'.remaining) : (c.set id o).Positive := by
  intro id' o' hid
  dsimp only [Contents.set] at hid
  rcases eq_or_ne id' id with rfl | hne
  · exact ho o' (by rwa [Function.update_self] at hid)
  · exact h id' o' (by rwa [Function.update_of_ne hne] at hid)

theorem Contents.Positive.step (h : c.Positive) (ha : c.Admits limits rec) :
    (c.step rec).Positive := by
  cases rec with
  | insert rec =>
    refine h.set rec.orderId ?_
    rintro _ ⟨⟩
    exact ha.2.2.1
  | cancel rec | activate rec => exact h.set rec.orderId nofun
  | matched rec =>
    obtain ⟨-, o, ho, -, hle⟩ := ha
    dsimp only [Contents.step]
    rw [ho]
    dsimp only
    split
    · exact h.set rec.makerId nofun
    · next hlt =>
      refine h.set rec.makerId ?_
      rintro _ ⟨⟩
      exact Nat.sub_pos_of_lt (Nat.not_le.mp hlt)
  | deactivate rec =>
    refine h.set rec.orderId fun o' ho => ?_
    obtain ⟨o, hknown, rfl⟩ := Option.map_eq_some_iff.mp ho
    exact h rec.orderId o hknown
  | other => exact h

theorem stocked_iff {s : EngineState} (levels : Levels) :
    Stocked s ↔ (s.contents levels).Positive := by
  constructor
  · intro h id o ho
    cases he : s.book.orderHashmap id with
    | none => cases ho.symm.trans (known_of_none he)
    | some e =>
      have hknown := ho.symm.trans (known_of_entry he)
      split at hknown
      · cases hknown
      · next hout =>
        cases hknown
        exact (h id e he).resolve_right hout
  · intro h id e he
    by_cases hout : s.view.pending = some e.slotIdx
    · exact .inr hout
    · exact .inl (h id _ ((known_of_entry he).trans (if_neg hout)))

theorem Effect.stocked {K : Kavl} {op : Op} {s s' : EngineState} {levels levels' : Levels}
    {free free' : List Nat} (he : Effect K op s levels free s'.call s'.view levels' free')
    (hinv : EngineInv s levels free) (hop : EngineOk s op) (h : Stocked s) : Stocked s' := by
  have hpos := (stocked_iff levels).mp h
  refine (stocked_iff levels').mpr ?_
  change (contentsOf s'.view.book levels' s'.view.pending).Positive
  cases he.logStep hinv hop h with
  | silent _ hc => exact hc ▸ hpos
  | logs r _ hstep =>
    obtain ⟨ha, hc⟩ := hstep ⟨[], 0, fun _ => true, fun _ => 0, 0, 0⟩
    exact hc ▸ hpos.step ha

end Positive

end VeloxMatch
