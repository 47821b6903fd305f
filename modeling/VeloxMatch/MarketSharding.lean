import VeloxMatch.MarketPublic
import VeloxMatch.MarketView

namespace VeloxMatch

open List

/-- A configuration; the callback and the tables are there. -/
structure OmMarketConfig where
  maxProducts : Nat
  workerCount : Nat
  publicWorkerCount : Nat
  orgToWorker : Nat → Nat
  productToPublicWorker : Nat → Nat
  subs : List OmMarketSubscription
  expectedPriceLevels : Nat
  dealable : OmMarketDealableFn

structure OmMarket where
  workers : List OmMarketWorker
  publicWorkers : List OmMarketPublicWorker

namespace OmMarketConfig

variable (config : OmMarketConfig)

def workerOf (sub : OmMarketSubscription) : Nat := config.orgToWorker sub.orgId

def countWorker (counts : Nat → Nat) (sub : OmMarketSubscription) : Except OmError (Nat → Nat) :=
  if config.workerCount ≤ config.workerOf sub then .error .workerIdRange
  else
    .ok (Function.update counts (config.workerOf sub) (counts (config.workerOf sub) + 1))

def bucketStart (counts : Nat → Nat) : Nat → Nat
  | 0 => 0
  | w + 1 => bucketStart counts w + counts w

def buckets (counts : Nat → Nat) : Buckets OmMarketSubscription :=
  config.subs.foldl (Buckets.put config.workerOf id) ⟨bucketStart counts, fun _ => ⟨0, 0⟩⟩

def bucket (counts : Nat → Nat) (w : Nat) : List OmMarketSubscription :=
  (range' (bucketStart counts w) (counts w)).map (config.buckets counts).table

def slabCapacity : Nat :=
  let levels := if 0 < config.expectedPriceLevels then config.expectedPriceLevels % 2 ^ 32 else 50
  max 64 (config.maxProducts * levels * 2 * 15 % 2 ^ 32 / 10)

def initWorker (counts : Nat → Nat) (w : Nat) : Except OmError OmMarketWorker :=
  match omMarketWorkerInit config.maxProducts (config.bucket counts w) config.slabCapacity
    config.dealable with
  | none => .error .ladderDirty
  | some worker => .ok worker

def publicProduct (p : Nat) : Bool := config.subs.any (·.productId == p)

def servesPublic (w p : Nat) : Bool :=
  config.publicProduct p && config.productToPublicWorker p == w

end OmMarketConfig

def omMarketInit (config : OmMarketConfig) : Except OmError OmMarket :=
  if config.subs = [] then .error .nullParam
  else if config.workerCount = 0 ∨ config.maxProducts = 0 then .error .invalidParam
  else do
    let counts ← config.subs.foldlM config.countWorker fun _ => 0
    let workers ← (range config.workerCount).mapM (config.initWorker counts)
    if config.publicWorkerCount = 0 then .error .noPublicMap
    else if (range config.maxProducts).any fun p => config.publicProduct p &&
        decide (config.publicWorkerCount ≤ config.productToPublicWorker p) then
      .error .workerIdRange
    else
      .ok ⟨workers, (range config.publicWorkerCount).map fun w =>
        omMarketPublicWorkerInit config.maxProducts config.slabCapacity (config.servesPublic w)⟩

section Init

variable {config : OmMarketConfig} {counts : Nat → Nat} {w : Nat} {market : OmMarket}

theorem foldlM_countWorker {subs : List OmMarketSubscription} {start : Nat → Nat}
    (h : subs.foldlM config.countWorker start = .ok counts) :
    (∀ sub ∈ subs, config.workerOf sub < config.workerCount) ∧
      ∀ w, counts w = start w + subs.countP (config.workerOf · = w) := by
  induction subs generalizing start with
  | nil =>
    cases h
    exact ⟨nofun, fun w => rfl⟩
  | cons sub subs ih =>
    rw [foldlM_cons] at h
    unfold OmMarketConfig.countWorker at h
    split at h
    · cases h
    next hlt =>
    obtain ⟨hall, hcounts⟩ := ih h
    refine ⟨forall_mem_cons.mpr ⟨Nat.not_le.mp hlt, hall⟩, fun w => ?_⟩
    rw [hcounts, countP_cons]
    rcases eq_or_ne w (config.workerOf sub) with rfl | hne
    · rw [Function.update_self, if_pos (by simp)]
      omega
    · rw [Function.update_of_ne hne, if_neg (by simpa using hne.symm), Nat.add_zero]

theorem bucket_eq (h : config.subs.foldlM config.countWorker (fun _ => 0) = .ok counts)
    (hw : w < config.workerCount) :
    config.bucket counts w = config.subs.filter (config.workerOf · = w) := by
  obtain ⟨hall, hcounts⟩ := foldlM_countWorker h
  have hcount : ∀ k, counts k = config.subs.countP (config.workerOf · = k) := fun k => by
    rw [hcounts, Nat.zero_add]
  have hroom : Buckets.HasRoom config.workerOf (OmMarketConfig.bucketStart counts)
      config.workerCount config.subs := fun k _ => by
    rw [← hcount]
    exact Nat.le_refl _
  have htable := @Buckets.map_table_foldl_put _ _ config.workerOf id _ _ _ (fun _ => ⟨0, 0⟩)
    hroom hall w hw
  rw [map_id] at htable
  rw [OmMarketConfig.bucket, hcount]
  exact htable

theorem getElem_of_mapM_ok {α β ε : Type} {f : α → Except ε β} {l : List α} {ys : List β}
    (h : l.mapM f = .ok ys) {i : Nat} {a : α} (hi : l[i]? = some a) :
    ∃ b, ys[i]? = some b ∧ f a = .ok b := by
  induction l generalizing ys i with
  | nil => cases hi
  | cons x l ih =>
    rw [mapM_cons] at h
    cases hx : f x with
    | error err =>
      rw [hx] at h
      cases h
    | ok y =>
      cases hl : l.mapM f with
      | error err =>
        rw [hx, hl] at h
        cases h
      | ok zs =>
        rw [hx, hl] at h
        cases h
        cases i with
        | zero =>
          cases hi
          exact ⟨y, rfl, hx⟩
        | succ i => exact ih hl hi

theorem omMarketInit_workers (h : omMarketInit config = .ok market) (hw : w < config.workerCount) :
    ∃ worker, market.workers[w]? = some worker ∧
      omMarketWorkerInit config.maxProducts (config.subs.filter (config.workerOf · = w))
        config.slabCapacity config.dealable = some worker := by
  unfold omMarketInit at h
  split at h
  · cases h
  split at h
  · cases h
  cases hcounts : config.subs.foldlM config.countWorker (fun _ => 0) with
  | error err =>
    rw [hcounts] at h
    cases h
  | ok counts =>
    cases hworkers : (range config.workerCount).mapM (config.initWorker counts) with
    | error err =>
      simp only [hcounts, hworkers, bind, Except.bind] at h
      cases h
    | ok workers =>
      simp only [hcounts, hworkers, bind, Except.bind] at h
      split at h
      · cases h
      split at h
      · cases h
      cases h
      obtain ⟨worker, hget, hinit⟩ := getElem_of_mapM_ok hworkers (getElem?_range hw)
      refine ⟨worker, hget, ?_⟩
      unfold OmMarketConfig.initWorker at hinit
      rw [bucket_eq hcounts hw] at hinit
      split at hinit
      · cases hinit
      · next hsome =>
        cases hinit
        exact hsome

theorem workerOf_lt (h : omMarketInit config = .ok market) {sub : OmMarketSubscription}
    (hsub : sub ∈ config.subs) : config.workerOf sub < config.workerCount := by
  unfold omMarketInit at h
  split at h
  · cases h
  split at h
  · cases h
  cases hcounts : config.subs.foldlM config.countWorker (fun _ => 0) with
  | error err =>
    rw [hcounts] at h
    cases h
  | ok counts => exact (foldlM_countWorker hcounts).1 sub hsub

end Init

open ViewerState

section Reads

variable {worker worker' : OmMarketWorker} {o p l l' : Nat}

theorem sets_eq_of_viewOf_eq (h : OrdersOk worker) (h' : OrdersOk worker')
    (hview : viewOf worker l p = viewOf worker' l' p) :
    worker.productOrderSets p = worker'.productOrderSets p := by
  have hmem : ∀ {w : OmMarketWorker} {k : Nat} (_ : OrdersOk w) (id : Nat),
      id ∈ w.productOrderSets p ↔ ((viewOf w k p).orders id).isSome = true := by
    intro w k hw id
    cases hstate : w.globalOrders id with
    | none =>
      refine iff_of_false (fun hid => ?_) (by simp [viewOf, hstate])
      obtain ⟨s, hs, -⟩ := hw.listed hid
      cases hstate.symm.trans hs
    | some s =>
      rw [hw.mem_iff hstate]
      by_cases hp : s.productId = p <;> simp [viewOf, hstate, hp]
  ext id
  rw [@hmem worker l h, @hmem worker' l' h', hview]

theorem getQty_eq_of_viewOf_eq (h : OrdersOk worker) (h' : OrdersOk worker')
    (hfind : omMarketWorkerFindLadder worker o p = some l)
    (hfind' : omMarketWorkerFindLadder worker' o p = some l')
    (hdealable : worker.dealable = worker'.dealable)
    (hview : viewOf worker l p = viewOf worker' l' p) (side : UInt16) (price : Nat) :
    omMarketWorkerGetQty worker o p side price = omMarketWorkerGetQty worker' o p side price := by
  have hsum : viewerQty worker o p side price = viewerQty worker' o p side price := by
    unfold viewerQty
    rw [sets_eq_of_viewOf_eq h h' hview, hdealable]
    refine Finset.sum_congr rfl fun id hid => ?_
    obtain ⟨s', hs', hp'⟩ := h'.listed hid
    rw [← sets_eq_of_viewOf_eq h h' hview] at hid
    obtain ⟨s, hs, hp⟩ := h.listed hid
    have hsame := congrFun (congrArg orders hview) id
    rw [viewOf_orders_of_product hs hp, viewOf_orders_of_product hs' hp'] at hsame
    rw [hs, hs', hsame]
  rw [getQty_eq h hfind, getQty_eq h' hfind', hsum]

theorem copyDeltas_eq_of_viewOf_eq (hfind : omMarketWorkerFindLadder worker o p = some l)
    (hfind' : omMarketWorkerFindLadder worker' o p = some l') (hl : l < worker.subscriptionCount)
    (hl' : l' < worker'.subscriptionCount) (hview : viewOf worker l p = viewOf worker' l' p)
    (side : UInt16) (max : Nat) :
    omMarketWorkerCopyDeltas worker o p side max = omMarketWorkerCopyDeltas worker' o p side max := by
  have hdeltas : worker.ladderDeltas l = worker'.ladderDeltas l' :=
    congrArg deltas hview
  unfold omMarketWorkerCopyDeltas
  rw [hfind, hfind']
  dsimp only
  unfold omMarketWorkerCopyDeltasByLadder
  rw [hdeltas]
  split
  · rfl
  · rw [if_neg (by omega), if_neg (by omega)]

end Reads

theorem viewOf_market {config : OmMarketConfig} {market : OmMarket} {stream : List OmWalRecord}
    (hinit : omMarketInit config = .ok market) (hnodup : config.subs.Nodup)
    (hrange : SubsInRange config.maxProducts config.subs)
    (hids : ∀ worker ∈ market.workers, IdsApart worker stream)
    (hrun : ∀ worker ∈ market.workers, (processStream worker stream).isSome) {o p : Nat}
    (hsub : ⟨o, p⟩ ∈ config.subs) :
    ∃ worker final l, market.workers[config.orgToWorker o]? = some worker ∧
      processStream worker stream = some final ∧ OrdersOk final ∧
      omMarketWorkerFindLadder final o p = some l ∧ l < final.subscriptionCount ∧
      final.dealable = config.dealable ∧
      viewOf final l p = stream.foldl (process config.dealable o p) .empty := by
  obtain ⟨worker, hworker, hstart⟩ := omMarketInit_workers hinit (workerOf_lt hinit hsub)
  have hmem := List.mem_of_getElem? hworker
  obtain ⟨final, hfinal⟩ := Option.isSome_iff_exists.mp (hrun worker hmem)
  have hmine : ⟨o, p⟩ ∈ config.subs.filter (config.workerOf · = config.workerOf ⟨o, p⟩) :=
    List.mem_filter.mpr ⟨hsub, by simp⟩
  obtain ⟨l, hl⟩ := List.mem_iff_getElem?.mp hmine
  have hindex := omMarketWorkerInit_index
    (fun sub hsub => hrange sub (List.mem_of_mem_filter hsub)) (hnodup.filter _) hstart
  have hempty : OrdersOk worker ∧ viewOf worker l p = .empty ∧
      worker.dealable = config.dealable := by
    cases (Option.ite_none_left_eq_some.mp hstart).2
    exact ⟨⟨nofun, nofun⟩, rfl, rfl⟩
  obtain ⟨horders, hview, hdealable⟩ := hempty
  obtain ⟨htables, horders', hview'⟩ :=
    viewOf_processStream hindex (hnodup.filter _) horders (hids worker hmem) hfinal hl
  have hindex' := hindex.of_sameTables htables
  refine ⟨worker, final, l, hworker, hfinal, horders', hindex'.ladder hl, ?_, ?_, ?_⟩
  · rw [hindex'.count]
    exact (List.getElem?_eq_some_iff.mp hl).1
  · rw [htables]
    exact hdealable
  · rw [hview', hview, hdealable]

/-- Three organisations, two workers; organisations 1 and 3 follow product 0, organisation 2
follows product 1. -/
def threeOrgs (orgToWorker : Nat → Nat) : OmMarketConfig where
  maxProducts := 2
  workerCount := 2
  publicWorkerCount := 1
  orgToWorker := orgToWorker
  productToPublicWorker := fun _ => 0
  subs := [⟨1, 0⟩, ⟨2, 1⟩, ⟨3, 0⟩]
  expectedPriceLevels := 1
  dealable := fun rec _ => rec.volRemain

def withFirst (org : Nat) : Nat := if org = 3 then 1 else 0

def onItsOwn (org : Nat) : Nat := if org = 2 then 1 else 0

def marketOf (config : OmMarketConfig) : OmMarket :=
  match omMarketInit config with
  | .ok market => market
  | .error _ => ⟨[], []⟩

def bidFor (orderId productId volume : Nat) : OmWalRecord :=
  .insert ⟨orderId, 100, volume, volume, 9, 0, productId, 0, 0, 0, [], []⟩

def qtyAfter (config : OmMarketConfig) (stream : List OmWalRecord) (orgId productId : Nat)
    (side : UInt16) (price : Nat) : Option (Except OmError Nat) := do
  let worker ← (marketOf config).workers[config.orgToWorker orgId]?
  let final ← processStream worker stream
  some (omMarketWorkerGetQty final orgId productId side price)

theorem threeOrgs_init :
    omMarketInit (threeOrgs withFirst) = .ok (marketOf (threeOrgs withFirst)) ∧
      omMarketInit (threeOrgs onItsOwn) = .ok (marketOf (threeOrgs onItsOwn)) := ⟨rfl, rfl⟩

end VeloxMatch
