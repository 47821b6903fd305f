import VeloxMatch.MarketPublic
import VeloxMatch.Runs

namespace VeloxMatch

open OmMarketWorker

def flushLadder (worker : OmMarketWorker) (ladder : Nat) : Option OmMarketWorker := do
  let bids ← omMarketWorkerClearDeltasByLadder worker ladder omSideBid
  let asks ← omMarketWorkerClearDeltasByLadder bids.2 ladder omSideAsk
  some (omMarketWorkerClearDirtyByLadder asks.2 ladder).2

/-- A flush pass of a private worker: compact, and flush every ladder listed then. -/
def flushWorker (worker : OmMarketWorker) : Option OmMarketWorker :=
  let worker := omMarketWorkerCompactDirty worker
  worker.dirty.list.foldlM flushLadder worker

variable (worker : OmMarketPublicWorker)

def flushProduct (productId : Nat) : OmMarketPublicWorker :=
  let bids := omMarketPublicClearDeltas worker productId omSideBid
  let asks := omMarketPublicClearDeltas bids.2 productId omSideAsk
  (omMarketPublicClearDirty asks.2 productId).2

def flushPublic : OmMarketPublicWorker :=
  let worker := omMarketPublicCompactDirty worker
  worker.dirty.list.foldl flushProduct worker

inductive MarketAction where
  | process (rec : OmWalRecord)
  | flush

def workerStep (worker : OmMarketWorker) : MarketAction → Option OmMarketWorker
  | .process rec => some (omMarketWorkerProcess worker rec).2
  | .flush => flushWorker worker

def publicStep : MarketAction → Option OmMarketPublicWorker
  | .process rec => some (omMarketPublicProcess worker rec).2
  | .flush => some (flushPublic worker)

/-- The ladders of the viewers of a product whose quantity changes. -/
def OmMarketWorker.viewers (worker : OmMarketWorker) (change : Nat → Option Int)
    (idxs : List Nat) : List Nat :=
  idxs.filterMap fun idx =>
    if change (worker.productOrgs idx) = none then none else worker.productLadderIndices idx

/-- The ladders that a record is about to change. -/
def OmMarketWorker.changes (worker : OmMarketWorker) : OmWalRecord → List Nat
  | .insert rec =>
    if int64Max < rec.price ∨ int64Max < rec.volRemain then []
    else
      worker.viewers (insertChange worker.dealable rec) (worker.fanOutRange rec.productId)
  | .cancel rec | .deactivate rec =>
    match worker.globalOrders rec.orderId with
    | none => []
    | some state =>
      if !state.active then []
      else
        worker.viewers (cancelChange worker.dealable state rec.orderId)
          (worker.fanOutRange state.productId)
  | .activate rec =>
    match worker.globalOrders rec.orderId with
    | none => []
    | some state =>
      if state.active || state.remaining == 0 then []
      else
        worker.viewers (activateChange worker.dealable state rec.orderId)
          (worker.fanOutRange state.productId)
  | .matched rec =>
    if int64Max < rec.volume then []
    else
      match worker.globalOrders rec.makerId with
      | none => []
      | some state =>
        if !state.active || state.remaining == 0 then []
        else
          let post := state.remaining - min rec.volume state.remaining
          worker.viewers (matchChange worker.dealable state rec.makerId post)
            (worker.fanOutRange state.productId)
  | .other _ _ => []

/-- The product that a record is about to change. -/
def OmMarketPublicWorker.changes : OmWalRecord → List Nat
  | .insert rec =>
    if int64Max < rec.price ∨ int64Max < rec.volRemain ∨ !worker.productHasSubs rec.productId
    then []
    else [rec.productId]
  | .cancel rec | .deactivate rec =>
    match worker.orders rec.orderId with
    | none => []
    | some state => if !state.active || state.remaining == 0 then [] else [state.productId]
  | .activate rec =>
    match worker.orders rec.orderId with
    | none => []
    | some state => if state.active || state.remaining == 0 then [] else [state.productId]
  | .matched rec =>
    if int64Max < rec.volume then []
    else
      match worker.orders rec.makerId with
      | none => []
      | some state => if !state.active || state.remaining == 0 then [] else [state.productId]
  | .other _ _ => []

/-- A record that is processed meets `ok` with the list before it and what it is about to change. -/
def MarksMeet (ok : DirtyList → List Nat → Prop) (d : DirtyList) (changes : OmWalRecord → List Nat) :
    MarketAction → Prop
  | .process rec => ok d (changes rec)
  | .flush => True

instance (ok : DirtyList → List Nat → Prop) [∀ d is, Decidable (ok d is)] (d : DirtyList)
    (changes : OmWalRecord → List Nat) : (a : MarketAction) → Decidable (MarksMeet ok d changes a)
  | .process _ => inferInstanceAs (Decidable (ok ..))
  | .flush => instDecidableTrue

abbrev workerListsAll (worker : OmMarketWorker) : MarketAction → Prop :=
  MarksMeet DirtyList.KeepsListed worker.dirty worker.changes

abbrev workerListsOnce (worker : OmMarketWorker) : MarketAction → Prop :=
  MarksMeet DirtyList.KeepsOnce worker.dirty worker.changes

abbrev publicListsAll : MarketAction → Prop :=
  MarksMeet DirtyList.KeepsListed worker.dirty worker.changes

abbrev publicListsOnce : MarketAction → Prop :=
  MarksMeet DirtyList.KeepsOnce worker.dirty worker.changes

/-- A record marks what it is about to change, up to an error. -/
def DirtyList.MarksUpTo (before after : DirtyList) (is : List Nat) : Prop :=
  ∃ js, js <+: is ∧ after = before.markAll js

/-- What a step of a worker does to its list. -/
inductive DirtyList.Steps (d : DirtyList) (changes : OmWalRecord → List Nat) :
    MarketAction → DirtyList → Prop where
  | process (rec : OmWalRecord) {d' : DirtyList} (h : d.MarksUpTo d' (changes rec)) :
    Steps d changes (.process rec) d'
  | flush (is : List Nat) : Steps d changes .flush (is.foldl clear d.compact)

theorem DirtyList.MarksUpTo.none (d : DirtyList) (is : List Nat) : d.MarksUpTo d is :=
  ⟨[], List.nil_prefix, rfl⟩

section Steps

variable {d d' : DirtyList} {changes : OmWalRecord → List Nat} {a : MarketAction}
  (h : d.Steps changes a d')
include h

theorem DirtyList.Steps.listed (hlisted : d.Listed) (hok : MarksMeet KeepsListed d changes a) :
    d'.Listed := by
  cases h with
  | process rec hmarks =>
    obtain ⟨js, hfront, rfl⟩ := hmarks
    exact hlisted.markAll (KeepsListed.of_front hok hfront)
  | flush is => exact is.foldlRecOn clear hlisted.compact fun _ h i _ => h.clear i

theorem DirtyList.Steps.sound (hsound : d.Sound) (hok : MarksMeet KeepsOnce d changes a) :
    d'.Sound := by
  cases h with
  | process rec hmarks =>
    obtain ⟨js, hfront, rfl⟩ := hmarks
    exact hsound.markAll (KeepsOnce.of_front hok hfront)
  | flush is => exact is.foldlRecOn clear hsound.compact fun _ h i _ => h.clear i

end Steps

theorem thenDo_marks {σ : Type} {dirty : σ → DirtyList} {out : OmError × σ} {f : σ → σ}
    {d : DirtyList} {is : List Nat} (hf : ∀ w, dirty (f w) = dirty w)
    (h : d.MarksUpTo (dirty out.2) is) : d.MarksUpTo (dirty (thenDo out f).2) is := by
  unfold thenDo
  split
  · exact (hf _).symm ▸ h
  · exact h

section Private

variable {worker worker' : OmMarketWorker}

theorem recordChange_marks (worker : OmMarketWorker) (price : Nat) (isBid : Bool) (ladder : Nat)
    (delta : Int) :
    (worker.recordChange price isBid ladder delta).2.viewers = worker.viewers ∧
      (worker.recordChange price isBid ladder delta).2.dirty =
        if (worker.recordChange price isBid ladder delta).1 = .ok then worker.dirty.mark ladder
        else worker.dirty := by
  unfold recordChange
  split
  · split
    · exact ⟨rfl, rfl⟩
    · next hnot _ => exact ⟨rfl, (if_neg hnot).symm⟩
  · exact ⟨rfl, rfl⟩

theorem fanOut_marks (price : Nat) (isBid : Bool) (change : Nat → Option Int) (idxs : List Nat)
    (worker : OmMarketWorker) :
    worker.dirty.MarksUpTo (fanOut price isBid change idxs worker).2.dirty
      (worker.viewers change idxs) := by
  induction idxs generalizing worker with
  | nil => exact .none ..
  | cons idx rest ih =>
    unfold fanOut
    split
    · next ladder delta hladder hdelta =>
      have hviewers : worker.viewers change (idx :: rest) = ladder :: worker.viewers change rest :=
        List.filterMap_cons_some (by simp [hladder, hdelta])
      obtain ⟨hsame, hdirty⟩ := recordChange_marks worker price isBid ladder delta
      rw [hviewers]
      split
      · next worker' heq =>
        rw [heq] at hsame hdirty
        obtain ⟨js, hfront, hjs⟩ := ih worker'
        refine ⟨ladder :: js, ?_, hjs.trans (congrArg (·.markAll js) hdirty)⟩
        rw [← hsame]
        exact (List.prefix_cons_inj ladder).mpr hfront
      · next err worker' hnot heq =>
        rw [heq] at hdirty
        exact ⟨[], List.nil_prefix, hdirty.trans (if_neg hnot)⟩
    · next hnot =>
      have hviewers : worker.viewers change (idx :: rest) = worker.viewers change rest := by
        refine List.filterMap_cons_none ?_
        split
        · rfl
        · next hdelta =>
          obtain ⟨delta, hdelta⟩ := Option.ne_none_iff_exists'.mp hdelta
          exact Option.eq_none_iff_forall_ne_some.mpr fun ladder hladder =>
            hnot ladder delta hladder hdelta
      rw [hviewers]
      exact ih worker

theorem reduceOrder_dirty (state : OmMarketOrderState) (orderId post : Nat) :
    (worker.reduceOrder state orderId post).dirty = worker.dirty := by
  unfold reduceOrder
  split <;> rfl

theorem process_marks (worker : OmMarketWorker) (rec : OmWalRecord) :
    worker.dirty.MarksUpTo (omMarketWorkerProcess worker rec).2.dirty (worker.changes rec) := by
  cases rec with
  | insert rec =>
    simp only [omMarketWorkerProcess, processInsert, changes]
    split
    · exact .none ..
    split
    · exact .none ..
    split
    · next out _ =>
      exact fanOut_marks _ _ _ _ ((worker.setLadder rec.productId out).addOrder rec)
    · exact .none ..
  | cancel rec | deactivate rec =>
    simp only [omMarketWorkerProcess, processCancel, changes]
    cases worker.globalOrders rec.orderId with
    | none => exact .none ..
    | some state =>
      dsimp only
      split
      · exact .none ..
      · exact thenDo_marks (fun _ => rfl) (fanOut_marks ..)
  | matched rec =>
    simp only [omMarketWorkerProcess, processMatch, changes]
    split
    · exact .none ..
    cases worker.globalOrders rec.makerId with
    | none => exact .none ..
    | some state =>
      dsimp only
      split
      · exact .none ..
      · exact thenDo_marks (fun _ => reduceOrder_dirty ..) (fanOut_marks ..)
  | activate rec =>
    simp only [omMarketWorkerProcess, processActivate, changes]
    cases worker.globalOrders rec.orderId with
    | none => exact .none ..
    | some state =>
      dsimp only
      split
      · exact .none ..
      split
      · next out _ =>
        exact fanOut_marks _ _ _ _ ((worker.setOrder rec.orderId
          (some { state with active := true })).setLadder state.productId out)
      · exact .none ..
  | other => exact .none ..

theorem clearDeltas_dirty {out : OmError × OmMarketWorker} {ladder : Nat} {side : UInt16}
    (h : omMarketWorkerClearDeltasByLadder worker ladder side = some out) :
    out.2.dirty = worker.dirty := by
  unfold omMarketWorkerClearDeltasByLadder at h
  split at h
  · cases h
    rfl
  · obtain ⟨res, -, rfl⟩ := Option.map_eq_some_iff.mp h
    split <;> rfl

theorem flushLadder_dirty {ladder : Nat} (hs : flushLadder worker ladder = some worker') :
    worker'.dirty = worker.dirty ∨ worker'.dirty = worker.dirty.clear ladder := by
  obtain ⟨bids, hbids, hs⟩ := Option.bind_eq_some_iff.mp hs
  obtain ⟨asks, hasks, hs⟩ := Option.bind_eq_some_iff.mp hs
  cases hs
  have heq := (clearDeltas_dirty hasks).trans (clearDeltas_dirty hbids)
  unfold omMarketWorkerClearDirtyByLadder
  split
  · exact .inl heq
  · exact .inr (congrArg (DirtyList.clear · ladder) heq)

theorem flushLadders_dirty {ladders : List Nat} (hs : ladders.foldlM flushLadder worker = some worker') :
    ∃ is : List Nat, worker'.dirty = is.foldl DirtyList.clear worker.dirty := by
  induction ladders generalizing worker with
  | nil =>
    cases hs
    exact ⟨[], rfl⟩
  | cons l ladders ih =>
    rw [List.foldlM_cons] at hs
    obtain ⟨next, hnext, hs⟩ := Option.bind_eq_some_iff.mp hs
    obtain ⟨is, his⟩ := ih hs
    rcases flushLadder_dirty hnext with heq | heq <;> rw [his, heq]
    · exact ⟨is, rfl⟩
    · exact ⟨l :: is, rfl⟩

theorem workerStep_dirty {a : MarketAction} (hs : workerStep worker a = some worker') :
    worker.dirty.Steps worker.changes a worker'.dirty := by
  cases a with
  | process rec =>
    cases hs
    exact .process rec (process_marks worker rec)
  | flush =>
    obtain ⟨is, his⟩ := flushLadders_dirty hs
    exact his ▸ .flush is

theorem dirty_init {maxProducts slabCapacity : Nat} {subs : List OmMarketSubscription}
    {dealable : OmMarketDealableFn}
    (hinit : omMarketWorkerInit maxProducts subs slabCapacity dealable = some worker) :
    worker.dirty = .empty subs.length := by
  cases (Option.ite_none_left_eq_some.mp hinit).2
  rfl

end Private

section Public

variable {worker : OmMarketPublicWorker}

theorem publicRecordChange_marks (worker : OmMarketPublicWorker) (productId price : Nat)
    (isBid : Bool) (delta : Int) :
    worker.dirty.MarksUpTo (worker.recordChange productId price isBid delta).2.dirty
      [productId] := by
  unfold OmMarketPublicWorker.recordChange
  split
  · dsimp only
    split
    · exact ⟨[productId], List.prefix_rfl, rfl⟩
    · exact .none ..
  · exact .none ..

theorem publicProcess_marks (worker : OmMarketPublicWorker) (rec : OmWalRecord) :
    worker.dirty.MarksUpTo (omMarketPublicProcess worker rec).2.dirty (worker.changes rec) := by
  cases rec with
  | insert rec =>
    simp only [omMarketPublicProcess, OmMarketPublicWorker.processInsert]
    split
    · exact .none ..
    split
    · exact .none ..
    · next hrange hsubs =>
      have hchanges : worker.changes (.insert rec) = [rec.productId] :=
        if_neg fun h => h.elim (fun h => hrange (.inl h)) fun h =>
          h.elim (fun h => hrange (.inr h)) hsubs
      rw [hchanges]
      split
      · next out _ =>
        exact publicRecordChange_marks ((worker.setOrder rec.orderId _).setLadder rec.productId out)
          ..
      · exact .none ..
  | cancel rec | deactivate rec =>
    simp only [omMarketPublicProcess, OmMarketPublicWorker.processCancel,
      OmMarketPublicWorker.changes]
    cases worker.orders rec.orderId with
    | none => exact .none ..
    | some state =>
      dsimp only
      split
      · exact .none ..
      · exact thenDo_marks (fun _ => rfl) (publicRecordChange_marks
          ((worker.subLevel state state.remaining).setOrder rec.orderId _) ..)
  | matched rec =>
    simp only [omMarketPublicProcess, OmMarketPublicWorker.processMatch,
      OmMarketPublicWorker.changes]
    split
    · exact .none ..
    cases worker.orders rec.makerId with
    | none => exact .none ..
    | some state =>
      dsimp only
      split
      · exact .none ..
      · refine thenDo_marks (fun _ => ?_) (publicRecordChange_marks
          ((worker.subLevel state (min rec.volume state.remaining)).setOrder rec.makerId _) ..)
        split <;> rfl
  | activate rec =>
    simp only [omMarketPublicProcess, OmMarketPublicWorker.processActivate,
      OmMarketPublicWorker.changes]
    cases worker.orders rec.orderId with
    | none => exact .none ..
    | some state =>
      dsimp only
      split
      · exact .none ..
      split
      · next out _ =>
        exact publicRecordChange_marks
          ((worker.setLadder state.productId out).setOrder rec.orderId _) ..
      · exact .none ..
  | other => exact .none ..

theorem publicClearDeltas_dirty (productId : Nat) (side : UInt16) :
    (omMarketPublicClearDeltas worker productId side).2.dirty = worker.dirty := by
  unfold omMarketPublicClearDeltas
  split <;> rfl

theorem flushProduct_dirty (productId : Nat) :
    (flushProduct worker productId).dirty = worker.dirty ∨
      (flushProduct worker productId).dirty = worker.dirty.clear productId := by
  unfold flushProduct omMarketPublicClearDirty
  dsimp only
  split
  · left
    rw [publicClearDeltas_dirty, publicClearDeltas_dirty]
  · right
    simp only [publicClearDeltas_dirty]

theorem flushProducts_dirty (products : List Nat) :
    ∃ is : List Nat,
      (products.foldl flushProduct worker).dirty = is.foldl DirtyList.clear worker.dirty := by
  induction products generalizing worker with
  | nil => exact ⟨[], rfl⟩
  | cons p products ih =>
    obtain ⟨is, his⟩ := @ih (flushProduct worker p)
    rw [List.foldl_cons, his]
    rcases @flushProduct_dirty worker p with heq | heq <;> rw [heq]
    · exact ⟨is, rfl⟩
    · exact ⟨p :: is, rfl⟩

theorem publicStep_dirty {worker' : OmMarketPublicWorker} {a : MarketAction}
    (hs : publicStep worker a = some worker') :
    worker.dirty.Steps worker.changes a worker'.dirty := by
  cases a <;> cases hs
  case process rec => exact .process rec (publicProcess_marks worker rec)
  case flush =>
    obtain ⟨is, his⟩ := @flushProducts_dirty (omMarketPublicCompactDirty worker) _
    exact his ▸ .flush is

end Public

/-- Every dirty ladder is listed, and compaction leaves exactly the dirty ones. -/
def OmMarketWorker.ListsDirty (worker : OmMarketWorker) : Prop :=
  (∀ orgId productId ladder, omMarketWorkerFindLadder worker orgId productId = some ladder →
    omMarketWorkerIsDirty worker orgId productId = .ok true → ladder ∈ worker.dirty.list) ∧
  ∀ ladder, ladder ∈ (omMarketWorkerCompactDirty worker).dirty.list ↔
    worker.dirty.flag ladder = true

def OmMarketPublicWorker.ListsDirty : Prop :=
  (∀ productId, omMarketPublicIsDirty worker productId = .ok true →
    productId ∈ worker.dirty.list) ∧
  ∀ productId, productId ∈ (omMarketPublicCompactDirty worker).dirty.list ↔
    worker.dirty.flag productId = true

theorem listsDirty_of_listed {worker : OmMarketWorker} (h : worker.dirty.Listed) :
    worker.ListsDirty := by
  refine ⟨fun orgId productId ladder hfind hdirty => ?_, fun _ => h.mem_compact⟩
  rw [omMarketWorkerIsDirty, hfind] at hdirty
  exact h.listed ladder (Except.ok.inj hdirty)

theorem publicListsDirty_of_listed {worker : OmMarketPublicWorker} (h : worker.dirty.Listed) :
    worker.ListsDirty := by
  refine ⟨fun productId hdirty => ?_, fun _ => h.mem_compact⟩
  cases hserved : worker.served productId with
  | error err =>
    rw [omMarketPublicIsDirty, hserved] at hdirty
    cases hdirty
  | ok _ =>
    rw [omMarketPublicIsDirty, hserved] at hdirty
    exact h.listed productId (Except.ok.inj hdirty)

/-- As long as every changed ladder that finds the list full has an old entry there, no dirty
ladder is lost. As long as none that finds room has an old entry, each of them is there once after
compaction. The same holds for the products of a public worker. -/
theorem dirty_list_complete {maxProducts slabCapacity : Nat} {subs : List OmMarketSubscription}
    {dealable : OmMarketDealableFn} {start : OmMarketWorker}
    (hinit : omMarketWorkerInit maxProducts subs slabCapacity dealable = some start)
    (serves : Nat → Bool) :
    ((∀ worker, Runs workerStep workerListsAll start worker → worker.ListsDirty) ∧
      ∀ worker, Runs workerStep workerListsOnce start worker → worker.ListsDirty ∧
        (omMarketWorkerCompactDirty worker).dirty.list.Nodup) ∧
    (∀ worker, Runs publicStep publicListsAll
        (omMarketPublicWorkerInit maxProducts slabCapacity serves) worker → worker.ListsDirty) ∧
      ∀ worker, Runs publicStep publicListsOnce
        (omMarketPublicWorkerInit maxProducts slabCapacity serves) worker → worker.ListsDirty ∧
          (omMarketPublicCompactDirty worker).dirty.list.Nodup := by
  have hempty := DirtyList.Sound.empty
  have hstart := dirty_init hinit
  refine ⟨⟨fun worker hrun => ?_, fun worker hrun => ?_⟩, fun worker hrun => ?_,
    fun worker hrun => ?_⟩
  · exact listsDirty_of_listed (hrun.invariant (P := (·.dirty.Listed)) (hstart ▸ (hempty _).toListed)
      fun _ _ _ h hok hs => (workerStep_dirty hs).listed h hok)
  · have h := hrun.invariant (P := (·.dirty.Sound)) (hstart ▸ hempty _)
      fun _ _ _ h hok hs => (workerStep_dirty hs).sound h hok
    exact ⟨listsDirty_of_listed h.toListed, h.compact.nodup⟩
  · exact publicListsDirty_of_listed (hrun.invariant (P := (·.dirty.Listed)) (hempty _).toListed
      fun _ _ _ h hok hs => (publicStep_dirty hs).listed h hok)
  · have h := hrun.invariant (P := (·.dirty.Sound)) (hempty _)
      fun _ _ _ h hok hs => (publicStep_dirty hs).sound h hok
    exact ⟨publicListsDirty_of_listed h.toListed, h.compact.nodup⟩

def bidRecord (orderId productId : Nat) : OmWalRecord :=
  .insert ⟨orderId, 100, 5, 5, 2, 0, productId, 0, 0, 0, [], []⟩

def twoSubs : List OmMarketSubscription := [⟨1, 0⟩, ⟨1, 1⟩]

def dealAll : OmMarketDealableFn := fun rec _ => rec.volRemain

def twoLadders : OmMarketWorker := (omMarketWorkerInit 2 twoSubs 64 dealAll).get rfl

def twoProducts : OmMarketPublicWorker := omMarketPublicWorkerInit 2 64 fun _ => true

def flushFirst : List MarketAction :=
  [.process (bidRecord 1 0), .flush, .process (bidRecord 2 1)]

/-- The first product changes in two intervals. -/
def changeTwice : List MarketAction :=
  [.process (bidRecord 1 0), .flush, .process (bidRecord 2 0)]

/-- The first product is flushed and changes again before the second one changes. -/
def changeAgain : List MarketAction := changeTwice ++ [.process (bidRecord 3 1)]

theorem dirty_list_complete_flushed :
    omMarketWorkerInit 2 twoSubs 64 dealAll = some twoLadders ∧
    ((∃ worker, Runs workerStep workerListsAll twoLadders worker ∧
        worker.dirty.list = [0, 0] ∧ worker.ListsDirty) ∧
      ∃ worker, Runs workerStep workerListsOnce twoLadders worker ∧
        worker.dirty.list = [0, 1] ∧ worker.ListsDirty) ∧
    (∃ worker, Runs publicStep publicListsAll twoProducts worker ∧
        worker.dirty.list = [0, 0] ∧ worker.ListsDirty) ∧
      ∃ worker, Runs publicStep publicListsOnce twoProducts worker ∧
        worker.dirty.list = [0, 1] ∧ worker.ListsDirty := by
  have hinit : omMarketWorkerInit 2 twoSubs 64 dealAll = some twoLadders := rfl
  obtain ⟨⟨hall, honce⟩, hpublicAll, hpublicOnce⟩ := dirty_list_complete hinit fun _ => true
  obtain ⟨worker, hrun, hlist⟩ := exists_runs workerStep workerListsAll twoLadders changeTwice
    (fun worker => worker.dirty.list = [0, 0]) (by decide +kernel) (by decide +kernel)
  obtain ⟨worker', hrun', hlist'⟩ := exists_runs workerStep workerListsOnce twoLadders flushFirst
    (fun worker => worker.dirty.list = [0, 1]) (by decide +kernel) (by decide +kernel)
  obtain ⟨served, hpublic, hserved⟩ := exists_runs publicStep publicListsAll twoProducts
    changeTwice (fun worker => worker.dirty.list = [0, 0]) (by decide +kernel) (by decide +kernel)
  obtain ⟨served', hpublic', hserved'⟩ := exists_runs publicStep publicListsOnce twoProducts
    flushFirst (fun worker => worker.dirty.list = [0, 1]) (by decide +kernel) (by decide +kernel)
  exact ⟨hinit, ⟨⟨worker, hrun, hlist, hall worker hrun⟩,
    worker', hrun', hlist', (honce worker' hrun').1⟩,
    ⟨served, hpublic, hserved, hpublicAll served hpublic⟩,
    served', hpublic', hserved', (hpublicOnce served' hpublic').1⟩

/-- The second product is dirty and not listed, and compaction keeps the first one twice. -/
theorem dirty_list_drops_ladder :
    (∃ worker, Runs workerStep anyAction twoLadders worker ∧
      omMarketWorkerFindLadder worker 1 1 = some 1 ∧ worker.dirty.flag 1 = true ∧
      worker.dirty.list = [0, 0] ∧ (omMarketWorkerCompactDirty worker).dirty.list = [0, 0]) ∧
    ∃ worker, Runs publicStep anyAction twoProducts worker ∧
      worker.productHasSubs 1 = true ∧ worker.dirty.flag 1 = true ∧
      worker.dirty.list = [0, 0] ∧ (omMarketPublicCompactDirty worker).dirty.list = [0, 0] := by
  constructor
  · exact exists_runs workerStep anyAction twoLadders changeAgain
      (fun worker => omMarketWorkerFindLadder worker 1 1 = some 1 ∧ worker.dirty.flag 1 = true ∧
        worker.dirty.list = [0, 0] ∧ (omMarketWorkerCompactDirty worker).dirty.list = [0, 0])
      (by decide +kernel) (by decide +kernel)
  · exact exists_runs publicStep anyAction twoProducts changeAgain
      (fun worker => worker.productHasSubs 1 = true ∧ worker.dirty.flag 1 = true ∧
        worker.dirty.list = [0, 0] ∧ (omMarketPublicCompactDirty worker).dirty.list = [0, 0])
      (by decide +kernel) (by decide +kernel)

end VeloxMatch
