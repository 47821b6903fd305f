import VeloxMatch.BookQueries
import VeloxMatch.CancelEffects
import VeloxMatch.LoggedOrders
import VeloxMatch.NeverCrossed
import VeloxMatch.QtyAgree

namespace VeloxMatch

open EngineState SearchTree List

variable {worker worker' : OmMarketPublicWorker} {s : EngineState} {levels : Levels}
  {free : List Nat}

/-- The worker after the records of a log, if it accepts each of them and its slab has room for
each. -/
def publicFeed (worker : OmMarketPublicWorker) (recs : List OmWalRecord) :
    Option OmMarketPublicWorker :=
  recs.foldlM (fun worker rec =>
    if (omMarketPublicProcess worker rec).1 = .ok ∧ worker.SlabFits rec then
      some (omMarketPublicProcess worker rec).2
    else none) worker

theorem publicFeed_snoc {recs : List OmWalRecord} {rec : OmWalRecord}
    (h : publicFeed worker (recs ++ [rec]) = some worker') :
    ∃ fed, publicFeed worker recs = some fed ∧ omMarketPublicProcess fed rec = (.ok, worker') ∧
      fed.SlabFits rec := by
  rw [publicFeed, foldlM_append] at h
  obtain ⟨fed, hfed, h⟩ := Option.bind_eq_some_iff.mp h
  refine ⟨fed, hfed, ?_⟩
  simp only [foldlM_cons, foldlM_nil] at h
  split at h
  next hok =>
    cases h
    exact ⟨Prod.ext hok.1 rfl, hok.2⟩
  next => cases h

def OmOrderbookContext.live (ctx : OmOrderbookContext) (p : Nat) (b : Bool) (i : Nat) : LiveOrder :=
  ⟨(ctx.order i).orderId, p, b, (ctx.order i).price, (ctx.order i).volumeRemain⟩

section Resting

variable {id : Nat} {o : LiveOrder} {live : List LiveOrder} (h : BookInv s.book levels free)
include h

theorem liveEntry_iff : s.liveEntry id = some o ↔
    ∃ p b i, i ∈ queueOf (levels p b) ∧ s.view.pending ≠ some i ∧ o = s.book.live p b i ∧
      id = (s.book.order i).orderId := by
  unfold liveEntry
  constructor
  · intro ho
    obtain ⟨e, he, ho⟩ := Option.bind_eq_some_iff.mp ho
    obtain ⟨hid, -, -, hrest⟩ := h.entry he
    dsimp only at ho
    split at ho
    next => cases ho
    next hnot =>
      cases ho
      obtain ⟨b, hi⟩ := hrest.resolve_right fun hparked => hnot (.inl hparked.deactivated)
      have hb := (h.sides _ b).side _ hi
      exact ⟨_, b, _, hi, fun hp => hnot (.inr hp), by rw [hb, ← hid]; rfl, hid.symm⟩
  · rintro ⟨p, b, i, hi, hpend, rfl, rfl⟩
    obtain ⟨he, hd⟩ := h.resting hi
    have hb := (h.sides p b).side i hi
    refine Option.bind_eq_some_iff.mpr ⟨_, he, (if_neg (not_or.mpr ⟨hd, hpend⟩)).trans ?_⟩
    rw [hb]
    rfl

variable (hids : (live.map (·.orderId)).Nodup) (hlive : liveAt live = s.liveEntry)
include hids hlive

theorem unlocked_of_uncrossed (huncrossed : Uncrossed s.book levels) : Unlocked live := by
  intro o ho o' ho' hp hx hb hb'
  obtain ⟨p, b, i, hi, -, rfl, -⟩ := (liveEntry_iff h).mp (hlive ▸ liveAt_of_mem hids ho)
  obtain ⟨p', b', j, hj, -, rfl, -⟩ := (liveEntry_iff h).mp (hlive ▸ liveAt_of_mem hids ho')
  cases hp
  cases hb
  cases hb'
  exact absurd hx (huncrossed p i j hi hj).ne

theorem liveTotal_eq_restingVolume (hpend : s.view.pending = none) (p : Nat) (b : Bool) (x : Nat) :
    liveTotal live p b x = restingVolume s.book.slab (queueOf (levels p b)) x := by
  have hat : ∀ i ∈ queueOf (levels p b),
      liveAt live (s.book.order i).orderId = some (s.book.live p b i) := by
    intro i hi
    rw [hlive]
    exact (liveEntry_iff h).mpr ⟨p, b, i, hi, by rw [hpend]; nofun, rfl, rfl⟩
  have hslots : ((queueOf (levels p b)).map fun i => (s.book.order i).orderId).Nodup := by
    refine (nodup_map_iff_inj_on (h.sides p b).nodup).mpr fun i hi j hj he => ?_
    cases (h.resting hi).1.symm.trans (he ▸ (h.resting hj).1)
    rfl
  calc liveTotal live p b x
      = ∑ id ∈ ((queueOf (levels p b)).map fun i => (s.book.order i).orderId).toFinset,
          (liveAt live id).elim 0 (·.volumeAt p b x) := by
        rw [liveTotal_eq_sum hids]
        refine (Finset.sum_subset (fun id hid => ?_) fun id _ hid => ?_).symm
        · obtain ⟨i, hi, rfl⟩ := mem_map.mp (mem_toFinset.mp hid)
          exact mem_toFinset.mpr (mem_map.mpr ⟨_, (liveAt_mem (hat i hi)).1, rfl⟩)
        · -- an order of this side stands in its queue
          cases ho : liveAt live id with
          | none => rfl
          | some o =>
            obtain ⟨p', b', i, hi, -, rfl, rfl⟩ := (liveEntry_iff h).mp (hlive ▸ ho)
            refine atPlace_ne fun hplace => hid ?_
            obtain ⟨rfl, rfl, -⟩ := hplace
            exact mem_toFinset.mpr (mem_map_of_mem hi)
    _ = restingVolume s.book.slab (queueOf (levels p b)) x := by
        rw [sum_toFinset _ hslots, map_map]
        refine congrArg sum (map_congr_left fun i hi => ?_)
        rw [Function.comp_apply, hat i hi]
        exact if_congr ⟨fun hx => hx.2.2.symm, fun hx => ⟨rfl, rfl, hx.symm⟩⟩ rfl rfl

end Resting

/-- What holds along a run of an engine whose log feeds a public worker. -/
structure PublicFeedInv (limits : BookLimits) (worker : OmMarketPublicWorker) (s : EngineState)
    (levels : Levels) : Prop where
  plain : PlainRun s levels
  log : LogAgrees limits s levels
  feed : ∀ fed, publicFeed worker (loggedRecords s.book.wal) = some fed →
    PublicInv fed (loggedLive s.book.wal) fun _ _ _ => 0

theorem PublicFeedInv.step {K : Kavl} {op : Op} {limits : BookLimits} {levels' : Levels}
    {free' : List Nat} (h : PublicFeedInv limits worker s levels) (hop : PlainOk s op)
    (hinv : EngineInv s levels free) (hinv' : EngineInv (engineStep K s op) levels' free')
    (he : Effect K op s levels free (engineStep K s op).call (engineStep K s op).view levels' free') :
    PublicFeedInv limits worker (engineStep K s op) levels' := by
  have hplain := h.plain.step hinv hop he
  obtain ⟨hlog, hrecords⟩ := h.log.step hinv hop.1 he
  refine ⟨hplain, hlog, fun fed hfed => ?_⟩
  have hbook := hlog.logBook
  have hunlocked := unlocked_of_uncrossed hinv'.book hbook.ids hbook.live hplain.uncrossed
  rcases hrecords with hsame | ⟨rec, hrec⟩
  · rw [loggedLive, hsame]
    exact h.feed fed (hsame ▸ hfed)
  · obtain ⟨before, hbefore, hprocess, hfits⟩ := publicFeed_snoc (hrec ▸ hfed)
    have hfresh := freshInserts_append.mp (hrec ▸ hbook.fresh)
    rw [loggedLive, hrec, foldl_append] at hunlocked ⊢
    exact (h.feed before hbefore).process hprocess ⟨hfresh.2.1, hunlocked⟩ hfits

end VeloxMatch
