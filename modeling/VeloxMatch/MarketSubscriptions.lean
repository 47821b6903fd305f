import VeloxMatch.MarketIndex

namespace VeloxMatch

open List

variable (worker : OmMarketWorker)

def omMarketWorkerLadderIndex (orgId productId : Nat) : Option Nat :=
  omMarketWorkerFindLadder worker orgId productId

def omMarketWorkerIsSubscribed (orgId productId : Nat) : Bool :=
  (omMarketWorkerFindLadder worker orgId productId).isSome

/-- What the ladders that the range of a product visits are for. -/
def OmMarketWorker.visits (productId : Nat) : List (Option OmMarketSubscription) :=
  (worker.fanOutRange productId).map fun idx =>
    (worker.productLadderIndices idx).map fun i => ⟨worker.ladderOrg i, worker.ladderProduct i⟩

def tablesAfter (n : Nat) (subs before : List OmMarketSubscription) : SubsTables :=
  subsTables n (sumTable n (countProducts n subs)) before

/-- The accesses of `om_market_worker_init` whose index is data: `product_orgs` and `org_ids`,
which have an entry per subscription, and `ladder_index`, which has a row per organisation. -/
structure InitInBounds (n : Nat) (subs : List OmMarketSubscription) : Prop where
  fill : ∀ {before sub after}, subs = before ++ sub :: after → sub.productId < n →
    (tablesAfter n subs before).cursor sub.productId < subs.length ∧
      (tablesAfter n subs before).orgCount < subs.length
  ladders : ∀ sub ∈ subs, ∀ a ∈ (tablesAfter n subs subs).orgIndexMap sub.orgId,
    a * n + sub.productId < (tablesAfter n subs subs).orgCount * n
  indices : ∀ p < n, ∀ idx < sumTable n (countProducts n subs) (p + 1), idx < subs.length ∧
    ∀ a ∈ (tablesAfter n subs subs).orgIndexMap ((tablesAfter n subs subs).productOrgs idx),
      a * n + p < (tablesAfter n subs subs).orgCount * n

/-- The index says of an organisation and a product what the subscriptions say, and the range of
every product visits the ladder of each organisation that subscribes to it once. -/
structure IndexExact (worker : OmMarketWorker) (subs : List OmMarketSubscription) (o p : Nat) :
    Prop where
  init : InitInBounds worker.maxProducts subs
  lookup : ∀ a ∈ worker.orgIndexMap o,
    a * worker.maxProducts + p <
      (tablesAfter worker.maxProducts subs subs).orgCount * worker.maxProducts
  subscribed : omMarketWorkerIsSubscribed worker o p = true ↔
    ⟨o, p⟩ ∈ subs ∧ p < worker.maxProducts
  owner : ∀ i ∈ omMarketWorkerLadderIndex worker o p,
    worker.ladderOrg i = o ∧ worker.ladderProduct i = p
  fanOut : ∀ q < worker.maxProducts, (worker.visits q).Nodup ∧
    ∀ v, v ∈ worker.visits q ↔ ∃ org, v = some ⟨org, q⟩ ∧ ⟨org, q⟩ ∈ subs

/-- The place of an organisation and a product in a table with a row for each organisation that
has a product in range. A product out of range runs on into the rows below. -/
def ladderCell (n : Nat) (subs : List OmMarketSubscription) (sub : OmMarketSubscription) :
    Option Nat :=
  if sub.orgId ∈ listedOrgs n subs then
    some ((listedOrgs n subs).idxOf sub.orgId * n + sub.productId)
  else none

/-- No later subscription takes the place of one in range. -/
def KeepsPlaces (n : Nat) (subs : List OmMarketSubscription) : Prop :=
  subs.Pairwise fun sub later =>
    sub.productId < n → ladderCell n subs later ≠ ladderCell n subs sub

instance (n : Nat) (subs : List OmMarketSubscription) : Decidable (KeepsPlaces n subs) :=
  inferInstanceAs (Decidable (List.Pairwise _ subs))

/-- No subscription and no query runs out of the table, no subscription in range has its place
taken by a later one, and the query finds its own place or an empty one. -/
structure IndexSound (n : Nat) (subs : List OmMarketSubscription) (o p : Nat) : Prop where
  inTable : ∀ sub ∈ subs, ∀ c ∈ ladderCell n subs sub, c < (listedOrgs n subs).length * n
  own : KeepsPlaces n subs
  query : ∀ c ∈ ladderCell n subs ⟨o, p⟩, c < (listedOrgs n subs).length * n ∧
    (⟨o, p⟩ ∈ subs ∧ p < n ∨ ∀ sub ∈ subs, ladderCell n subs sub ≠ some c)

section Cells

variable {n : Nat} {subs : List OmMarketSubscription} {sub : OmMarketSubscription}

theorem orgIndexMap_tables (before : List OmMarketSubscription) (o : Nat) :
    (tablesAfter n subs before).orgIndexMap o =
      if o ∈ listedOrgs n before then some ((listedOrgs n before).idxOf o) else none :=
  (subsTables_orgs ..).2 o

theorem orgCount_tables (before : List OmMarketSubscription) :
    (tablesAfter n subs before).orgCount = (listedOrgs n before).length :=
  (subsTables_orgs ..).1

theorem ladderKey_tables (sub : OmMarketSubscription) :
    ladderKey (tablesAfter n subs subs) n sub = ladderCell n subs sub := by
  unfold ladderKey ladderCell
  rw [orgIndexMap_tables]
  split <;> rfl

theorem ladderCell_ranged (hsub : sub ∈ subs) (hlt : sub.productId < n) :
    ladderCell n subs sub = some ((listedOrgs n subs).idxOf sub.orgId * n + sub.productId) :=
  if_pos (mem_listedOrgs.mpr ⟨sub, hsub, hlt, rfl⟩)

theorem length_listedOrgs_le (n : Nat) (before : List OmMarketSubscription) :
    (listedOrgs n before).length ≤ before.length := by
  unfold listedOrgs
  rw [length_reverse]
  refine (dedup_sublist _).length_le.trans ?_
  rw [length_reverse, length_map]
  exact length_filter_le ..

theorem row_lt {o p : Nat} (ho : o ∈ listedOrgs n subs) (hp : p < n) :
    (listedOrgs n subs).idxOf o * n + p < (listedOrgs n subs).length * n := by
  have hrow : (listedOrgs n subs).idxOf o + 1 ≤ (listedOrgs n subs).length :=
    idxOf_lt_length_of_mem ho
  have hrows := Nat.mul_le_mul_right n hrow
  rw [Nat.add_one_mul] at hrows
  omega

theorem countP_succ (p : Nat) : subs.countP (·.productId < p + 1) =
    subs.countP (·.productId < p) + subs.countP (·.productId = p) := by
  induction subs with
  | nil => rfl
  | cons sub subs ih =>
    simp only [countP_cons, ih, decide_eq_true_eq]
    split <;> split <;> split <;> omega

theorem sumTable_zero (n : Nat) (table : Nat → Nat) : sumTable n table 0 = table 0 := by
  induction n with
  | zero => rfl
  | succ n ih => rw [sumTable_succ, Function.update_of_ne (Nat.succ_ne_zero n).symm, ih]

theorem countProducts_zero (n : Nat) (subs : List OmMarketSubscription) :
    countProducts n subs 0 = 0 := by
  induction subs using reverseRecOn with
  | nil => rfl
  | append_singleton subs sub ih =>
    unfold countProducts at ih ⊢
    rw [foldl_concat]
    split
    · rw [Function.update_of_ne (Nat.succ_ne_zero _).symm, ih]
    · exact ih

theorem offsets_eq {p : Nat} (hp : p ≤ n) :
    sumTable n (countProducts n subs) p = subs.countP (·.productId < p) := by
  induction p with
  | zero =>
    rw [sumTable_zero, countProducts_zero]
    simp
  | succ p ih => rw [offsets_succ hp, ih (Nat.le_of_succ_le hp), countP_succ]

theorem initInBounds_iff : InitInBounds n subs ↔
    ∀ sub ∈ subs, ∀ c ∈ ladderCell n subs sub, c < (listedOrgs n subs).length * n := by
  have hend : ∀ p < n, sumTable n (countProducts n subs) (p + 1) ≤ subs.length := by
    intro p hp
    rw [offsets_eq hp]
    exact countP_le_length
  constructor
  · intro h sub hsub c hc
    rw [← ladderKey_tables] at hc
    obtain ⟨a, ha, rfl⟩ := Option.map_eq_some_iff.mp hc
    rw [← @orgCount_tables n subs subs]
    exact h.ladders sub hsub a ha
  · intro h
    refine ⟨fun {before sub after} heq hlt => ⟨?_, ?_⟩, fun sub hsub a ha => ?_,
      fun p hp idx hidx => ⟨Nat.lt_of_lt_of_le hidx (hend p hp), fun a ha => ?_⟩⟩
    · have hcursor := congrArg (Buckets.cursor · sub.productId)
        (subsTables_buckets n (sumTable n (countProducts n subs)) before)
      dsimp only at hcursor
      rw [Buckets.cursor_foldl_put, countP_eq_length_filter, filter_ranged hlt,
        ← countP_eq_length_filter] at hcursor
      have hnext := hend sub.productId hlt
      have hmore : before.countP (·.productId = sub.productId) <
          subs.countP (·.productId = sub.productId) := by
        rw [heq, countP_append, countP_cons, if_pos (by simp)]
        omega
      rw [offsets_succ hlt] at hnext
      rw [tablesAfter, hcursor]
      omega
    · have hle := length_listedOrgs_le n before
      rw [orgCount_tables, heq, length_append, length_cons]
      omega
    · rw [orgCount_tables]
      exact h sub hsub _ (by rw [← ladderKey_tables, ladderKey, ha]; rfl)
    · rw [orgIndexMap_tables] at ha
      rw [orgCount_tables]
      split at ha
      · next hmem =>
        cases ha
        exact row_lt hmem hp
      · cases ha

theorem ladderTable_own (hown : KeepsPlaces n subs) (hsub : sub ∈ subs) (hlt : sub.productId < n)
    {c : Nat} (hc : ladderCell n subs sub = some c) :
    ∃ i, ladderTable n (tablesAfter n subs subs).orgIndexMap subs c = some i ∧
      subs[i]? = some sub := by
  rcases ladderTable_last n (tablesAfter n subs subs) subs c with
    ⟨hnone, -⟩ | ⟨before, last, after, i, heq, hi, hlast, hafter, hfound⟩
  · exact absurd ((ladderKey_tables sub).trans hc) (hnone sub hsub)
  refine ⟨i, hfound, ?_⟩
  obtain rfl : sub = last := by
    rw [ladderKey_tables] at hlast
    have hmem := hsub
    rw [heq, mem_append, mem_cons] at hmem
    rcases hmem with hbefore | rfl | hlater
    · have hpair : [sub, last].Sublist subs := by
        rw [heq]
        exact (singleton_sublist.mpr hbefore).append (singleton_sublist.mpr
          mem_cons_self)
      exact absurd (hlast.trans hc.symm) (pairwise_iff_forall_sublist.mp hown hpair hlt)
    · rfl
    · exact absurd ((ladderKey_tables sub).trans hc) (hafter sub hlater)
  exact hi

theorem two_le_count {before after : List OmMarketSubscription} {later : OmMarketSubscription}
    (hpair : [sub, later].Sublist (before ++ sub :: after)) (hafter : later ∉ after) :
    2 ≤ (before ++ sub :: after).count sub := by
  have hbefore : sub ∈ before := by
    obtain ⟨l, l', heq, hl, hl'⟩ := sublist_append_iff.mp hpair
    cases l with
    | cons a l =>
      obtain ⟨rfl, -⟩ := cons_eq_cons.mp heq
      exact hl.subset mem_cons_self
    | nil =>
      obtain rfl : [sub, later] = l' := heq
      exact absurd (singleton_sublist.mp (cons_sublist_cons.mp hl')) hafter
  rw [count_append, count_cons_self]
  have := count_pos_iff.mpr hbefore
  omega

end Cells

section Init

variable {n slabCapacity i p : Nat} {dealable : OmMarketDealableFn}
  {subs : List OmMarketSubscription} {worker : OmMarketWorker} {sub : OmMarketSubscription}
  (hinit : omMarketWorkerInit n subs slabCapacity dealable = some worker)
include hinit

theorem findLadder_init (o p : Nat) : omMarketWorkerFindLadder worker o p =
      (ladderCell n subs ⟨o, p⟩).bind (ladderTable n (tablesAfter n subs subs).orgIndexMap subs) := by
  cases (Option.ite_none_left_eq_some.mp hinit).2
  rw [← ladderKey_tables, ladderKey, Option.bind_map]
  rfl

theorem owner_init (hi : subs[i]? = some sub) :
    (⟨worker.ladderOrg i, worker.ladderProduct i⟩ : OmMarketSubscription) = sub := by
  cases (Option.ite_none_left_eq_some.mp hinit).2
  simp [getD, hi]

theorem tables_init :
    worker.maxProducts = n ∧ worker.orgIndexMap = (tablesAfter n subs subs).orgIndexMap := by
  cases (Option.ite_none_left_eq_some.mp hinit).2
  exact ⟨rfl, rfl⟩

/-- The range of a product visits, for each subscription to it, the ladder of its place. -/
theorem visits_init (hp : p < n) : worker.visits p = (subs.filter (·.productId = p)).map fun sub =>
      (omMarketWorkerFindLadder worker sub.orgId p).map fun i =>
        ⟨worker.ladderOrg i, worker.ladderProduct i⟩ := by
  have hindices := (omMarketWorkerInit_viewers hinit).indices p ((tables_init hinit).1 ▸ hp)
  have horgs := omMarketWorkerInit_orgs hinit hp
  have hmap := congrArg (map fun o => (omMarketWorkerFindLadder worker o p).map fun i =>
    (⟨worker.ladderOrg i, worker.ladderProduct i⟩ : OmMarketSubscription)) horgs
  rw [map_map, map_map] at hmap
  refine Eq.trans (map_congr_left fun idx hidx => ?_) hmap
  rw [hindices idx hidx]
  rfl

theorem findLadder_some {o : Nat} (hfind : omMarketWorkerFindLadder worker o p = some i) :
    ∃ c before sub after, ladderCell n subs ⟨o, p⟩ = some c ∧ subs = before ++ sub :: after ∧
      ladderCell n subs sub = some c ∧ (∀ later ∈ after, ladderCell n subs later ≠ some c) ∧
      (⟨worker.ladderOrg i, worker.ladderProduct i⟩ : OmMarketSubscription) = sub := by
  rw [findLadder_init hinit] at hfind
  obtain ⟨c, hc, hi⟩ := Option.bind_eq_some_iff.mp hfind
  rcases ladderTable_last n (tablesAfter n subs subs) subs c with
    ⟨-, hnone⟩ | ⟨before, sub, after, j, heq, hj, hsub, hafter, hfound⟩
  · cases hnone.symm.trans hi
  cases hfound.symm.trans hi
  rw [ladderKey_tables] at hsub
  exact ⟨c, before, sub, after, hc, heq, hsub,
    fun later hlater => ladderKey_tables (n := n) later ▸ hafter later hlater, owner_init hinit hj⟩

theorem findLadder_own (hown : KeepsPlaces n subs) (hsub : sub ∈ subs) (hlt : sub.productId < n) :
    ∃ i, omMarketWorkerFindLadder worker sub.orgId sub.productId = some i ∧
      (⟨worker.ladderOrg i, worker.ladderProduct i⟩ : OmMarketSubscription) = sub := by
  have hc := ladderCell_ranged hsub hlt
  obtain ⟨i, hfound, hi⟩ := ladderTable_own hown hsub hlt hc
  exact ⟨i, by rw [findLadder_init hinit, hc, Option.bind_some, hfound], owner_init hinit hi⟩

theorem isSubscribed_init (o p : Nat) : omMarketWorkerIsSubscribed worker o p = true ↔
      ∃ c, ladderCell n subs ⟨o, p⟩ = some c ∧ ∃ sub ∈ subs, ladderCell n subs sub = some c := by
  unfold omMarketWorkerIsSubscribed
  constructor
  · intro hsome
    obtain ⟨i, hfind⟩ := Option.isSome_iff_exists.mp hsome
    obtain ⟨c, before, sub, after, hc, heq, hsub, -⟩ := findLadder_some hinit hfind
    exact ⟨c, hc, sub, heq ▸ by simp, hsub⟩
  · rintro ⟨c, hc, sub, hmem, hsub⟩
    rw [findLadder_init hinit, hc, Option.bind_some]
    rcases ladderTable_last n (tablesAfter n subs subs) subs c with
      ⟨hnone, -⟩ | ⟨-, -, -, i, -, -, -, -, hfound⟩
    · exact absurd ((ladderKey_tables sub).trans hsub) (hnone sub hmem)
    · rw [hfound]
      rfl

theorem fanOut_of_own (hown : KeepsPlaces n subs) {q : Nat} (hq : q < n) :
    (worker.visits q).Nodup ∧
      ∀ v, v ∈ worker.visits q ↔ ∃ org, v = some ⟨org, q⟩ ∧ ⟨org, q⟩ ∈ subs := by
  have hvisits : worker.visits q = (subs.filter (·.productId = q)).map some := by
    rw [visits_init hinit hq]
    refine map_congr_left fun sub hsub => ?_
    obtain ⟨hmem, rfl⟩ : sub ∈ subs ∧ sub.productId = q := by simpa using hsub
    obtain ⟨i, hfind, howner⟩ := findLadder_own hinit hown hmem hq
    rw [hfind, Option.map_some, howner]
  rw [hvisits]
  constructor
  · refine List.Nodup.map (Option.some_injective _) ?_
    refine List.Pairwise.imp_of_mem ?_ (List.Pairwise.filter _ hown)
    intro sub later hsub _ hne heq
    obtain ⟨-, rfl⟩ : sub ∈ subs ∧ sub.productId = q := by simpa using hsub
    exact hne hq (congrArg (ladderCell n subs) heq.symm)
  · intro v
    simp only [mem_map, mem_filter, decide_eq_true_eq]
    constructor
    · rintro ⟨sub, ⟨hsub, rfl⟩, rfl⟩
      exact ⟨sub.orgId, rfl, hsub⟩
    · rintro ⟨org, rfl, hsub⟩
      exact ⟨_, ⟨hsub, rfl⟩, rfl⟩

/-- A place that a later subscription takes is not visited, or visited twice. -/
theorem own_of_fanOut (hfan : ∀ q < n, (worker.visits q).Nodup ∧
      ∀ v, v ∈ worker.visits q ↔ ∃ org, v = some ⟨org, q⟩ ∧ ⟨org, q⟩ ∈ subs) :
    KeepsPlaces n subs := by
  rw [KeepsPlaces, pairwise_iff_forall_sublist]
  intro sub later hpair hlt heq
  have hsub : sub ∈ subs := hpair.subset mem_cons_self
  obtain ⟨hnodup, hvisits⟩ := hfan sub.productId hlt
  have hvisited := (hvisits (some sub)).mpr ⟨sub.orgId, rfl, hsub⟩
  rw [visits_init hinit hlt] at hnodup hvisited
  obtain ⟨other, -, hfound⟩ := mem_map.mp hvisited
  obtain ⟨i, hfind, howner⟩ := Option.map_eq_some_iff.mp hfound
  obtain ⟨c, before, last, after, -, hsplit, hc, hafter, howner'⟩ := findLadder_some hinit hfind
  obtain rfl : sub = last := howner.symm.trans howner'
  have hlater : later ∉ after := fun hmem => hafter later hmem (heq.trans hc)
  have hcount := two_le_count (hsplit ▸ hpair) hlater
  rw [← hsplit] at hcount
  have hkept : (subs.filter (·.productId = sub.productId)).count sub = subs.count sub :=
    count_filter (by simp)
  have hle := nodup_iff_count_le_one.mp (List.Nodup.of_map _ hnodup) sub
  omega

end Init

/-- The subscription index is exact for an organisation and a product exactly if no subscription
and no query of a product out of range gets into the way. -/
theorem subscription_index_iff {n slabCapacity : Nat} {dealable : OmMarketDealableFn}
    {subs : List OmMarketSubscription} {worker : OmMarketWorker}
    (hinit : omMarketWorkerInit n subs slabCapacity dealable = some worker) (o p : Nat) :
    IndexExact worker subs o p ↔ IndexSound n subs o p := by
  obtain ⟨rfl, horgs⟩ := tables_init hinit
  have hcell : ladderCell worker.maxProducts subs ⟨o, p⟩ =
      (worker.orgIndexMap o).map (· * worker.maxProducts + p) := by
    rw [horgs]
    exact (ladderKey_tables ⟨o, p⟩).symm
  constructor
  · intro h
    refine ⟨initInBounds_iff.mp h.init, own_of_fanOut hinit h.fanOut, fun c hc => ⟨?_, ?_⟩⟩
    · rw [hcell] at hc
      obtain ⟨a, ha, rfl⟩ := Option.map_eq_some_iff.mp hc
      rw [← @orgCount_tables worker.maxProducts subs subs]
      exact h.lookup a ha
    · by_cases hsub : ⟨o, p⟩ ∈ subs ∧ p < worker.maxProducts
      · exact .inl hsub
      · refine .inr fun sub hmem heq => hsub (h.subscribed.mp ?_)
        exact (isSubscribed_init hinit o p).mpr ⟨c, hc, sub, hmem, heq⟩
  · intro h
    refine ⟨initInBounds_iff.mpr h.inTable, fun a ha => ?_, ⟨fun hsome => ?_, fun hsub => ?_⟩,
      fun i hi => ?_, fun q hq => fanOut_of_own hinit h.own hq⟩
    · rw [orgCount_tables]
      exact (h.query _ (by rw [hcell, ha]; rfl)).1
    · obtain ⟨c, hc, sub, hmem, hsub⟩ := (isSubscribed_init hinit o p).mp hsome
      exact (h.query c hc).2.resolve_right fun hnone => hnone sub hmem hsub
    · have hc := ladderCell_ranged hsub.1 hsub.2
      exact (isSubscribed_init hinit o p).mpr ⟨_, hc, _, hsub.1, hc⟩
    · obtain ⟨c, before, sub, after, hc, heq, hsub, -⟩ := findLadder_some hinit hi
      obtain ⟨hmem, hlt⟩ := (h.query c hc).2.resolve_right fun hnone =>
        hnone sub (heq ▸ by simp) hsub
      obtain ⟨j, hj, howner⟩ := findLadder_own hinit h.own hmem hlt
      cases hj.symm.trans hi
      exact OmMarketSubscription.mk.inj howner

def strayedSubs : List OmMarketSubscription := [⟨1, 0⟩, ⟨2, 1⟩, ⟨3, 5⟩, ⟨1, 1⟩]

theorem subscription_index_strayed :
    ∃ worker, omMarketWorkerInit 2 strayedSubs 64 (fun rec _ => rec.volRemain) = some worker ∧
      IndexExact worker strayedSubs 2 1 ∧ omMarketWorkerLadderIndex worker 2 1 = some 1 := by
  refine ⟨_, rfl, (subscription_index_iff rfl 2 1).mpr ⟨by decide, by decide, by decide⟩, ?_⟩
  decide

/-- Product 2 of organisation 1 has the place of product 0 of organisation 2. -/
def overlapSubs : List OmMarketSubscription := [⟨1, 0⟩, ⟨2, 1⟩, ⟨1, 2⟩]

/-- Organisation 2 is found to subscribe to product 0, and the ladder is that of organisation 1.
Product 5 is written behind the table. -/
theorem subscription_index_overlaps :
    (∃ worker, omMarketWorkerInit 2 overlapSubs 64 (fun rec _ => rec.volRemain) = some worker ∧
      omMarketWorkerLadderIndex worker 2 0 = some 2 ∧ worker.ladderOrg 2 = 1 ∧
      ¬IndexExact worker overlapSubs 2 0) ∧ ¬InitInBounds 2 [⟨1, 0⟩, ⟨1, 5⟩] := by
  refine ⟨⟨_, rfl, by decide, rfl, fun h => ?_⟩, fun h => ?_⟩
  · exact absurd (h.subscribed.mp (by decide)).1 (by decide)
  · exact absurd (initInBounds_iff.mp h) (by decide)

end VeloxMatch
