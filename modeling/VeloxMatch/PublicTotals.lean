import VeloxMatch.PublicLadder

namespace VeloxMatch

open OmMarketPublicWorker Function

section Steps

variable {worker worker' : OmMarketPublicWorker} {live live' : List LiveOrder}
  {base : Nat → Bool → Nat → Nat} {p x q p' x' t t' id : Nat} {serves : Nat → Bool} {b b' : Bool}

theorem servedTotal_of_served (h : serves p = true) (b : Bool)
    (x : Nat) : servedTotal serves live p b x = liveTotal live p b x :=
  if_pos h

theorem servedTotal_nil (serves : Nat → Bool) : servedTotal serves [] = fun _ _ _ => 0 := by
  funext p b x
  exact ite_self 0

theorem servedTotal_congr
    (h : ∀ p b x, serves p = true → liveTotal live' p b x = liveTotal live p b x) :
    servedTotal serves live' = servedTotal serves live := by
  funext p b x
  unfold servedTotal
  split
  · next hp => exact h p b x hp
  · rfl

theorem servedTotal_add (hp : serves p = true)
    (h : ∀ p' b' x', liveTotal live' p' b' x' = liveTotal live p' b' x' + atPlace p x b q p' b' x')
    (p' : Nat) (b' : Bool) (x' : Nat) :
    servedTotal serves live' p' b' x' =
      servedTotal serves live p' b' x' + atPlace p x b q p' b' x' := by
  unfold servedTotal
  split
  · exact h p' b' x'
  · next hp' =>
    rw [atPlace_ne, Nat.add_zero]
    rintro ⟨rfl, -⟩
    exact hp' hp

theorem total_grows (h : t' = t + atPlace p x b q p' b' x') :
    (t' : Int) = t + if p' = p ∧ b' = b ∧ x' = x then (q : Int) else 0 := by
  unfold atPlace at h
  split at h <;> simp_all

theorem total_shrinks (h : t = t' + atPlace p x b q p' b' x') :
    (t' : Int) = t + if p' = p ∧ b' = b ∧ x' = x then -(q : Int) else 0 := by
  unfold atPlace at h
  split at h <;> simp_all

theorem elim_idle {o? : Option LiveOrder} {g : Nat → Nat} (hg : g 0 = 0)
    (h : ∀ o, o? = some o → serves o.productId = true → o.remaining = 0) (hp : serves p = true)
    (b : Bool) (x : Nat) :
    o?.elim 0 (fun o => atPlace o.productId o.price o.isBid (g o.remaining) p b x) = 0 := by
  cases o? with
  | none => rfl
  | some o =>
    rw [Option.elim_some]
    by_cases hplace : p = o.productId ∧ b = o.isBid ∧ x = o.price
    · rw [h o rfl (hplace.1 ▸ hp), hg, atPlace_zero]
    · exact atPlace_ne hplace

theorem PublicInv.move {d : Int} {out : OmMarketLevelSlab × OmMarketLadder}
    {state' : Option OmMarketOrderState} (h : PublicInv worker live base)
    (hmove : PublicMove worker worker' p x b d out id state') (hids : (live'.map (·.orderId)).Nodup)
    (hlive : liveAt live' = update (liveAt live) id (state'.map (·.toLive id)))
    (hserved : ∀ state, state' = some state →
      worker.productHasSubs state.productId = true ∧ state.active = true)
    (hshow : LaddersShow out.1 (update worker.ladders p out.2)
      (servedTotal worker.productHasSubs live'))
    (htotal : ∀ p' b' x', (liveTotal live' p' b' x' : Int) =
      liveTotal live p' b' x' + if p' = p ∧ b' = b ∧ x' = x then d else 0) :
    PublicInv worker' live' base where
  orders := h.orders.update hmove.serves hmove.orders hlive
    (view_toLive fun state hstate => (hserved state hstate).1)
    fun state hstate _ => (hserved state hstate).2
  ids := hids
  ladders := by
    rw [hmove.slab, hmove.ladders, hmove.serves]
    exact hshow
  deltas b' x' hserved := by
    rw [hmove.deltas, h.deltas b' x' (hmove.serves ▸ hserved), htotal]
    omega
  inRange hserved := hmove.products ▸ h.inRange (hmove.serves ▸ hserved)

theorem PublicInv.pass {o' : Option LiveOrder} (h : PublicInv worker live base)
    (hids : (live'.map (·.orderId)).Nodup) (hlive : liveAt live' = update (liveAt live) id o')
    (hold : ∀ o, liveAt live id = some o → worker.productHasSubs o.productId = true →
      o.remaining = 0)
    (hnew : ∀ o, o' = some o → worker.productHasSubs o.productId = true → o.remaining = 0)
    (htotal : ∀ p b x, worker.productHasSubs p = true →
      liveTotal live' p b x = liveTotal live p b x) : PublicInv worker live' base where
  orders := by
    have hnone : ∀ o'' : Option LiveOrder, (∀ o, o'' = some o →
        worker.productHasSubs o.productId = true → o.remaining = 0) →
        o''.filter (fun o => worker.productHasSubs o.productId = true ∧ o.remaining ≠ 0) = none := by
      intro o'' hzero
      refine Option.filter_eq_none_iff.mpr fun o ho => ?_
      simpa using hzero o ho
    have hview := h.orders.view id
    rw [hnone _ hold, ← hnone _ hnew] at hview
    exact h.orders.update rfl (update_eq_self ..).symm hlive hview
      fun state hstate => h.orders.active hstate
  ids := hids
  ladders := by
    rw [servedTotal_congr htotal]
    exact h.ladders
  deltas b x hserved := by
    rw [h.deltas b x hserved, htotal _ b x hserved]
  inRange := h.inRange

theorem PublicInv.insert {rec : OmWalInsert} (h : PublicInv worker live base)
    (hok : worker.processInsert rec = (.ok, worker')) (hnew : liveAt live rec.orderId = none)
    (hunlocked : Unlocked (liveStep live (.insert rec))) (hfits : worker.SlabFits (.insert rec)) :
    PublicInv worker' (liveStep live (.insert rec)) base := by
  have hids : ((liveStep live (.insert rec)).map (·.orderId)).Nodup :=
    liveStep_ids h.ids hnew
  have hlive : liveAt (liveStep live (.insert rec)) =
      update (liveAt live) rec.orderId (some (.ofInsert rec)) := liveAt_cons
  have htotal := liveTotal_insert live rec
  rcases processInsert_move hok with ⟨hsubs, rfl⟩ | ⟨hsubs, out, hadd, hmove⟩
  · refine h.pass hids hlive (by simp [hnew]) ?_ fun p b x hp => ?_
    · rintro o ⟨rfl⟩ hserved
      cases hsubs.symm.trans hserved
    · rw [htotal, atPlace_ne, Nat.add_zero]
      rintro ⟨rfl, -⟩
      cases hsubs.symm.trans hp
  · refine h.move hmove hids hlive ?_ ?_ fun p b x => ?_
    · rintro state ⟨rfl⟩
      exact ⟨hsubs, rfl⟩
    · refine h.ladders.add (hfits hsubs) (fun hq => ?_) (servedTotal_add hsubs htotal) hadd
      rw [servedTotal_of_served hsubs]
      exact opposite_empty hunlocked hq
    · exact total_grows (htotal p b x)

theorem PublicInv.cancel {rec : OmWalCancel} (h : PublicInv worker live base)
    (hok : worker.processCancel rec = (.ok, worker')) :
    PublicInv worker' (live.filter (·.orderId ≠ rec.orderId)) base := by
  have hids : ((live.filter (·.orderId ≠ rec.orderId)).map (·.orderId)).Nodup :=
    h.ids.sublist (List.filter_sublist.map _)
  have htotal : ∀ p b x, liveTotal live p b x =
      liveTotal (live.filter (·.orderId ≠ rec.orderId)) p b x +
        (liveAt live rec.orderId).elim 0 (fun o =>
          atPlace o.productId o.price o.isBid o.remaining p b x) :=
    fun p b x => liveTotal_leave h.ids rec.orderId
  rcases h.orders.cases rec.orderId with ⟨state, hstate, hactive, hne, hat, hserved⟩ | ⟨hzero, hidle⟩
  · have hmove := processCancel_move hstate hactive hne hok
    rw [hat] at htotal
    refine h.move hmove hids liveAt_leave nofun ?_ fun p b x => total_shrinks (htotal p b x)
    exact h.ladders.sub (servedTotal_add hserved htotal)
  · rw [processCancel_idle hzero] at hok
    cases hok
    refine h.pass hids liveAt_leave hidle nofun fun p b x hp => ?_
    have hnone := elim_idle (g := id) rfl hidle hp b x
    exact ((htotal p b x).trans (congrArg (_ + ·) hnone)).symm

theorem fill_toLive {state : OmMarketOrderState} (hne : state.remaining ≠ 0) (id volume : Nat) :
    (state.toLive id).fill volume =
      (if state.remaining - min volume state.remaining = 0 then none
        else some { state with remaining := state.remaining - min volume state.remaining }).map
        (·.toLive id) := by
  unfold LiveOrder.fill OmMarketOrderState.toLive
  dsimp only
  by_cases hle : state.remaining ≤ volume
  · rw [if_pos ⟨hne, hle⟩, if_pos (by omega)]
    rfl
  · rw [if_neg fun hfilled => hle hfilled.2, if_neg (by omega), Option.map_some,
      Nat.min_eq_left (Nat.le_of_not_le hle)]
    rfl

theorem PublicInv.matched {rec : OmWalMatch} (h : PublicInv worker live base)
    (hok : worker.processMatch rec = (.ok, worker')) :
    PublicInv worker' (fillLive live rec.makerId rec.volume) base := by
  have hids := fillLive_ids h.ids rec.makerId rec.volume
  have hlive := liveAt_fill h.ids rec.makerId rec.volume
  have htotal := fun p b x =>
    liveTotal_fill (p := p) (b := b) (x := x) h.ids rec.makerId rec.volume
  rcases h.orders.cases rec.makerId with ⟨state, hstate, hactive, hne, hat, hserved⟩ | ⟨hzero, hidle⟩
  · have hmove := processMatch_move hstate hactive hne hok
    rw [hat] at htotal
    rw [hat, Option.bind_some, fill_toLive hne] at hlive
    refine h.move hmove hids hlive ?_ ?_ fun p b x => total_shrinks (htotal p b x)
    · intro state' hstate'
      split at hstate'
      · cases hstate'
      · cases hstate'
        exact ⟨hserved, hactive⟩
    · exact h.ladders.sub (servedTotal_add hserved htotal)
  · rw [processMatch_idle hzero hok]
    refine h.pass hids hlive hidle (fun o ho hserved => ?_) fun p b x hp => ?_
    · obtain ⟨o', ho', hfill⟩ := Option.bind_eq_some_iff.mp ho
      unfold LiveOrder.fill at hfill
      split at hfill
      · cases hfill
      · cases hfill
        have hzero := hidle o' ho' hserved
        dsimp only
        omega
    · rw [htotal p b x, elim_idle (g := min rec.volume) (Nat.min_zero _) hidle hp, Nat.add_zero]

theorem PublicInv.process {rec : OmWalRecord} (h : PublicInv worker live base)
    (hok : omMarketPublicProcess worker rec = (.ok, worker')) (hstream : StreamOk live rec)
    (hfits : worker.SlabFits rec) : PublicInv worker' (liveStep live rec) base := by
  cases rec with
  | insert r => exact h.insert hok hstream.1 hstream.2 hfits
  | cancel r | deactivate r => exact h.cancel hok
  | matched r => exact h.matched hok
  | activate r =>
    cases (processActivate_idle h.orders).symm.trans hok
    exact h
  | other =>
    cases hok
    exact h

end Steps

/-- A public worker, the live orders of the records it has processed, and the totals of each
product's side at its last clear. -/
structure PublicRun where
  worker : OmMarketPublicWorker
  live : List LiveOrder
  base : Nat → Bool → Nat → Nat

inductive PublicAction where
  | process (rec : OmWalRecord)
  | clear (productId : Nat) (side : UInt16)

variable (s : PublicRun)

def publicRunStep : PublicAction → Option PublicRun
  | .process rec =>
    some ⟨(omMarketPublicProcess s.worker rec).2, liveStep s.live rec, s.base⟩
  | .clear productId side =>
    match omMarketPublicClearDeltas s.worker productId side with
    | (.ok, worker) =>
      some ⟨worker, s.live, update s.base productId (update (s.base productId)
        (sideIsBid side) (liveTotal s.live productId (sideIsBid side)))⟩
    | (_, worker) => some { s with worker := worker }

def publicRunOk : PublicAction → Prop
  | .process rec => (omMarketPublicProcess s.worker rec).1 = .ok ∧ StreamOk s.live rec
  | .clear _ _ => True

instance : (a : PublicAction) → Decidable (publicRunOk s a)
  | .process _ => inferInstanceAs (Decidable (_ ∧ _))
  | .clear .. => instDecidableTrue

def publicRunFits : PublicAction → Prop
  | .process rec => s.worker.SlabFits rec
  | .clear _ _ => True

instance : (a : PublicAction) → Decidable (publicRunFits s a)
  | .process rec => inferInstanceAs (Decidable (s.worker.SlabFits rec))
  | .clear .. => instDecidableTrue

section Run

variable {s s' : PublicRun} {worker : OmMarketPublicWorker} {p : Nat} {err : OmError}
  {side : UInt16}

theorem PublicInv.clear {live : List LiveOrder} {base : Nat → Bool → Nat → Nat}
    (h : PublicInv worker live base) (p : Nat) (b : Bool) :
    PublicInv { worker with
        deltas := update worker.deltas p (update (worker.deltas p) b .empty) }
      live (update base p (update (base p) b (liveTotal live p b))) where
  orders := ⟨h.orders.view, h.orders.active⟩
  ids := h.ids
  ladders := h.ladders
  deltas {p'} b' x hserved := by
    dsimp only
    rcases eq_or_ne p' p with rfl | hp
    · rw [update_self, update_self]
      rcases eq_or_ne b' b with rfl | hb
      · rw [update_self, update_self, Int.sub_self]
        rfl
      · rw [update_of_ne hb, update_of_ne hb]
        exact h.deltas b' x hserved
    · rw [update_of_ne hp, update_of_ne hp]
      exact h.deltas b' x hserved
  inRange := h.inRange

theorem served_error (h : worker.served p = .error err) : err ≠ .ok := by
  unfold served at h
  split at h
  · cases h
    nofun
  · split at h
    · cases h
      nofun
    · cases h

theorem served_hasSubs (h : worker.served p = .ok ()) : worker.productHasSubs p = true := by
  unfold served at h
  split at h
  · cases h
  · split at h
    · cases h
    · next hsubs => simpa using hsubs

theorem clearDeltas_served
    (h : worker.served p = .ok ()) : omMarketPublicClearDeltas worker p side =
      (.ok, { worker with
        deltas := update worker.deltas p
          (update (worker.deltas p) (sideIsBid side) .empty) }) := by
  rw [omMarketPublicClearDeltas, h]

theorem clearDeltas_refused
    (h : worker.served p = .error err) : omMarketPublicClearDeltas worker p side = (err, worker) := by
  rw [omMarketPublicClearDeltas, h]

theorem PublicInv.step {a : PublicAction} (h : PublicInv s.worker s.live s.base)
    (hok : publicRunOk s a) (hfits : publicRunFits s a) (hs : publicRunStep s a = some s') :
    PublicInv s'.worker s'.live s'.base := by
  cases a with
  | process rec =>
    cases hs
    exact h.process (Prod.ext hok.1 rfl) hok.2 hfits
  | clear productId side =>
    dsimp only [publicRunStep] at hs
    cases hserved : s.worker.served productId with
    | ok _ =>
      rw [clearDeltas_served hserved] at hs
      cases hs
      exact h.clear productId (sideIsBid side)
    | error err =>
      rw [clearDeltas_refused hserved] at hs
      split at hs
      · next herr => exact absurd (congrArg Prod.fst herr) (served_error hserved)
      · next herr =>
        cases herr
        cases hs
        exact h

theorem publicInv_init {maxProducts slabCapacity : Nat} (serves : Nat → Bool)
    (h : 0 < slabCapacity) :
    PublicInv (omMarketPublicWorkerInit maxProducts slabCapacity serves) [] fun _ _ _ => 0 where
  orders := ⟨fun _ => rfl, nofun⟩
  ids := List.nodup_nil
  ladders := by
    rw [servedTotal_nil]
    exact laddersShow_init h
  deltas _ _ _ := rfl
  inRange hserved := by
    simp only [omMarketPublicWorkerInit, Bool.and_eq_true, decide_eq_true_eq] at hserved
    exact hserved.1

end Run

section Entries

variable (map : OmMarketDeltaMap)

def publicEntries : Finset OmMarketDelta :=
  (map.entries.map fun entry => ⟨entry.1, entry.2.delta, 0⟩).toFinset

theorem mem_publicEntries {e : OmMarketDelta} : e ∈ publicEntries map ↔
    ∃ entry, map.lookup e.price = some entry ∧ e = ⟨e.price, entry.delta, 0⟩ := by
  rw [publicEntries, List.mem_toFinset, List.mem_map]
  constructor
  · rintro ⟨⟨price, entry⟩, hmem, rfl⟩
    exact ⟨entry, AList.mem_lookup_iff.mpr hmem, rfl⟩
  · rintro ⟨entry, hlookup, he⟩
    exact ⟨⟨e.price, entry⟩, AList.mem_lookup_iff.mp hlookup, he.symm⟩

theorem card_publicEntries : (publicEntries map).card = map.entries.length := by
  have hnodup : (map.entries.map fun entry =>
      (⟨entry.1, entry.2.delta, 0⟩ : OmMarketDelta)).Nodup := by
    refine List.Nodup.of_map OmMarketDelta.price ?_
    rw [List.map_map]
    exact map.keys_nodup
  rw [publicEntries, List.toFinset_card_of_nodup hnodup, List.length_map]

theorem sum_publicEntries (head : Option Nat) (price : Nat) :
    ∑ e ∈ publicEntries map with e.price = price, e.delta =
      ((DeltaSide.mk map head).entry price).delta := by
  unfold DeltaSide.entry
  cases hlookup : map.lookup price with
  | none =>
    refine Finset.sum_eq_zero fun e he => ?_
    obtain ⟨hmem, rfl⟩ := Finset.mem_filter.mp he
    obtain ⟨entry, hentry, -⟩ := (mem_publicEntries map).mp hmem
    rw [hlookup] at hentry
    cases hentry
  | some entry =>
    have hfilter : (publicEntries map).filter (·.price = price) = {⟨price, entry.delta, 0⟩} := by
      ext e
      rw [Finset.mem_filter, mem_publicEntries, Finset.mem_singleton]
      constructor
      · rintro ⟨⟨entry', hentry', he⟩, rfl⟩
        cases hlookup.symm.trans hentry'
        exact he
      · rintro rfl
        exact ⟨⟨entry, hlookup, rfl⟩, rfl⟩
    rw [hfilter, Finset.sum_singleton]
    rfl

end Entries

def bidsAndMatch : List PublicAction :=
  [.process (.insert ⟨1, 100, 5, 5, 2, 0, 0, 0, 0, 0, [], []⟩),
    .process (.insert ⟨2, 101, 7, 7, 2, 0, 0, 0, 0, 0, [], []⟩), .clear 0 omSideBid,
    .process (.matched ⟨1, 9, 100, 2, 0, 0⟩)]

section Wrap

/-- A bid of its own at the price `n` of product 0. -/
def fillRecord (n : Nat) : OmWalInsert := ⟨n, n, 1, 1, 0, 0, 0, 0, 0, 0, [], []⟩

theorem fillRecord_isBid (n : Nat) : omIsBid (fillRecord n).flags = true :=
  show omIsBid 0 = true by decide

structure FillStream (n : Nat) (live : List LiveOrder) : Prop where
  ids : ∀ o ∈ live, o.orderId < n
  bids : ∀ o ∈ live, o.isBid = true

theorem FillStream.insert {n : Nat} {live : List LiveOrder} (h : FillStream n live) :
    StreamOk live (.insert (fillRecord n)) ∧
      FillStream (n + 1) (liveStep live (.insert (fillRecord n))) := by
  have hbids : ∀ o ∈ liveStep live (.insert (fillRecord n)), o.isBid = true :=
    List.forall_mem_cons.mpr ⟨fillRecord_isBid n, h.bids⟩
  have hids : ∀ o ∈ liveStep live (.insert (fillRecord n)), o.orderId < n + 1 :=
    List.forall_mem_cons.mpr ⟨Nat.lt_succ_self n, fun o ho => Nat.lt_succ_of_lt (h.ids o ho)⟩
  refine ⟨⟨?_, fun o ho o' ho' _ _ _ hask => ?_⟩, hids, hbids⟩
  · exact List.find?_eq_none.mpr fun o ho he => (h.ids o ho).ne (of_decide_eq_true he)
  · cases (hbids o' ho').symm.trans hask

/-- A public worker after the bids at the prices below `n`. -/
structure PublicFill (n : Nat) (s : PublicRun) : Prop where
  stream : FillStream n s.live
  hasSubs : s.worker.productHasSubs 0 = true
  products : 0 < s.worker.maxProducts
  untouched : ∀ x, n ≤ x → ((s.worker.deltas 0 true).entry x).delta = 0

theorem PublicFill.insert {n : Nat} {s : PublicRun} (h : PublicFill n s) (hn : n < 2 ^ 32)
    {out : OmMarketLevelSlab × OmMarketLadder}
    (hadd : omLadderAddQty s.worker.slab (s.worker.ladders 0) n 1 true = (.ok, out)) :
    ∃ s', publicRunOk s (.process (.insert (fillRecord n))) ∧
      publicRunStep s (.process (.insert (fillRecord n))) = some s' ∧ PublicFill (n + 1) s' ∧
      s'.worker.slab = out.1 ∧ s'.worker.ladders 0 = out.2 := by
  obtain ⟨hstream, hnext⟩ := h.stream.insert
  have hbid := fillRecord_isBid n
  have hprice : n ≤ int64Max := hn.le.trans (by decide)
  have hroom : ¬deltaOverflows ((s.worker.deltas 0 true).entry n) 1 := by
    simp [deltaOverflows, h.untouched n (Nat.le_refl n), int64Max]
  have hok : (s.worker.processInsert (fillRecord n)).1 = .ok :=
    processInsert_takes hprice (show 1 ≤ int64Max by decide) h.products (hbid ▸ hadd) (hbid ▸ hroom)
  refine ⟨_, ⟨hok, hstream⟩, rfl, ?_⟩
  rcases processInsert_move (Prod.ext hok rfl) with ⟨hsubs, -⟩ | ⟨-, out', hadd', hmove⟩
  · cases hsubs.symm.trans h.hasSubs
  rw [hbid] at hadd' hmove
  cases hadd.symm.trans hadd'
  refine ⟨⟨hnext, hmove.serves ▸ h.hasSubs, hmove.products ▸ h.products, fun x hx => ?_⟩,
    hmove.slab, ?_⟩
  · refine (hmove.deltas 0 true x).trans ?_
    rw [if_neg (by simp [fillRecord]; omega), h.untouched x (by omega), Int.add_zero]
  · exact hmove.ladders ▸ update_self ..

end Wrap

end VeloxMatch
