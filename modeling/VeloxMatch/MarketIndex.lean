import VeloxMatch.MarketWorker
import VeloxMatch.TableFill

namespace VeloxMatch

open Function SubsTables Buckets List

def SubsInRange (maxProducts : Nat) (subs : List OmMarketSubscription) : Prop :=
  ∀ sub ∈ subs, sub.productId < maxProducts

instance (maxProducts : Nat) (subs : List OmMarketSubscription) :
    Decidable (SubsInRange maxProducts subs) :=
  inferInstanceAs (Decidable (∀ sub ∈ subs, sub.productId < maxProducts))

section Offsets

variable {n p k : Nat} {subs : List OmMarketSubscription} {table : Nat → Nat}

theorem countProducts_succ (hp : p < n) :
    countProducts n subs (p + 1) = subs.countP (·.productId = p) := by
  induction subs using reverseRecOn with
  | nil => rfl
  | append_singleton subs sub ih =>
    unfold countProducts at ih ⊢
    rw [foldl_concat, countP_append, countP_singleton]
    by_cases hlt : sub.productId < n
    · rw [if_pos hlt]
      rcases eq_or_ne p sub.productId with rfl | hne
      · rw [update_self, ih, if_pos (by simp)]
      · rw [update_of_ne (by omega), ih, if_neg (by simpa using hne.symm), Nat.add_zero]
    · have hne : sub.productId ≠ p := by omega
      rw [if_neg hlt, ih, if_neg (by simpa using hne), Nat.add_zero]

theorem sumTable_succ (n : Nat) (table : Nat → Nat) :
    sumTable (n + 1) table =
      update (sumTable n table) (n + 1) (sumTable n table (n + 1) + sumTable n table n) := by
  rw [sumTable, range_succ, foldl_concat]
  rfl

theorem sumTable_above (h : n < k) : sumTable n table k = table k := by
  induction n with
  | zero => rfl
  | succ n ih => rw [sumTable_succ, update_of_ne (by omega), ih (by omega)]

theorem sumTable_step (h : k < n) :
    sumTable n table (k + 1) = sumTable n table k + table (k + 1) := by
  induction n with
  | zero => omega
  | succ n ih =>
    rw [sumTable_succ]
    rcases Nat.lt_or_eq_of_le (Nat.le_of_lt_succ h) with hlt | rfl
    · rw [update_of_ne (by omega), update_of_ne (by omega), ih hlt]
    · rw [update_self, update_of_ne (by omega), sumTable_above (by omega),
        Nat.add_comm]

theorem offsets_succ (hp : p < n) :
    sumTable n (countProducts n subs) (p + 1) =
      sumTable n (countProducts n subs) p + subs.countP (·.productId = p) := by
  rw [sumTable_step hp, countProducts_succ hp]

theorem filter_ranged (hp : p < n) :
    (subs.filter (·.productId < n)).filter (·.productId = p) = subs.filter (·.productId = p) := by
  rw [filter_filter]
  refine filter_congr fun sub _ => ?_
  by_cases he : sub.productId = p
  · simp [he, hp]
  · simp [he]

theorem offsets_hasRoom :
    Buckets.HasRoom (·.productId) (sumTable n (countProducts n subs)) n
      (subs.filter (·.productId < n)) := by
  intro p hp
  rw [offsets_succ hp, countP_eq_length_filter, countP_eq_length_filter, filter_ranged hp]

end Offsets

section Tables

variable {n : Nat} {t : SubsTables} {sub : OmMarketSubscription} {subs : List OmMarketSubscription}
  {offsets : Nat → Nat}

theorem add_buckets (h : sub.productId < n) :
    (⟨(t.add n sub).cursor, (t.add n sub).productOrgs⟩ : Buckets Nat) =
      put (·.productId) (·.orgId) ⟨t.cursor, t.productOrgs⟩ sub := by
  rw [add, if_neg (Nat.not_le.mpr h)]
  dsimp only
  split <;> rfl

theorem subsTables_concat :
    subsTables n offsets (subs ++ [sub]) = (subsTables n offsets subs).add n sub :=
  foldl_concat ..

theorem subsTables_buckets (n : Nat) (offsets : Nat → Nat) (subs : List OmMarketSubscription) :
    (⟨(subsTables n offsets subs).cursor, (subsTables n offsets subs).productOrgs⟩ : Buckets Nat) =
      (subs.filter (·.productId < n)).foldl (put (·.productId) (·.orgId))
        ⟨offsets, fun _ => 0⟩ := by
  induction subs using reverseRecOn with
  | nil => rfl
  | append_singleton subs sub ih =>
    rw [subsTables_concat, filter_append, foldl_append, ← ih]
    by_cases hlt : sub.productId < n
    · rw [add_buckets hlt]
      simp [hlt]
    · rw [add, if_pos (Nat.not_lt.mp hlt)]
      simp [hlt]

theorem productHasSubs_add {p : Nat} : (t.add n sub).productHasSubs p = true ↔
    t.productHasSubs p = true ∨ sub.productId < n ∧ sub.productId = p := by
  rw [add]
  by_cases hlt : n ≤ sub.productId
  · rw [if_pos hlt]
    simp [Nat.not_lt.mpr hlt]
  have hput : update t.productHasSubs sub.productId true p = true ↔
      t.productHasSubs p = true ∨ sub.productId < n ∧ sub.productId = p := by
    rcases eq_or_ne p sub.productId with rfl | hne
    · simp [Nat.not_le.mp hlt]
    · simp [hne, hne.symm]
  rw [if_neg hlt]
  dsimp only
  split <;> exact hput

theorem productHasSubs_iff {p : Nat} :
    (subsTables n offsets subs).productHasSubs p = true ↔
      ∃ sub ∈ subs, sub.productId < n ∧ sub.productId = p := by
  induction subs using reverseRecOn with
  | nil => exact iff_of_false nofun nofun
  | append_singleton subs sub ih =>
    rw [subsTables_concat, productHasSubs_add, ih]
    simp only [mem_append, mem_singleton, or_and_right, exists_or, exists_eq_left]

/-- The organisations that have a product in range, in the order in which they first occur. -/
def listedOrgs (n : Nat) (subs : List OmMarketSubscription) : List Nat :=
  ((subs.filter (·.productId < n)).map (·.orgId)).reverse.dedup.reverse

theorem mem_listedOrgs {o : Nat} :
    o ∈ listedOrgs n subs ↔ ∃ sub ∈ subs, sub.productId < n ∧ sub.orgId = o := by
  simp [listedOrgs, and_assoc]

theorem listedOrgs_concat (hlt : sub.productId < n) :
    listedOrgs n (subs ++ [sub]) =
      if sub.orgId ∈ listedOrgs n subs then listedOrgs n subs
      else listedOrgs n subs ++ [sub.orgId] := by
  have hlast : [sub].filter (·.productId < n) = [sub] := by simp [hlt]
  unfold listedOrgs
  rw [filter_append, hlast, map_append, reverse_append]
  simp only [map_cons, map_nil, reverse_singleton, singleton_append,
    mem_reverse, mem_dedup]
  split
  · next hmem => rw [dedup_cons_of_mem (mem_reverse.mpr hmem)]
  · next hmem => rw [dedup_cons_of_notMem (mt mem_reverse.mp hmem), reverse_cons]

theorem subsTables_orgs (n : Nat) (offsets : Nat → Nat) (subs : List OmMarketSubscription) :
    (subsTables n offsets subs).orgCount = (listedOrgs n subs).length ∧
      ∀ o, (subsTables n offsets subs).orgIndexMap o =
        if o ∈ listedOrgs n subs then some ((listedOrgs n subs).idxOf o) else none := by
  induction subs using reverseRecOn with
  | nil => exact ⟨rfl, fun _ => rfl⟩
  | append_singleton subs sub ih =>
    obtain ⟨hcount, hmap⟩ := ih
    rw [subsTables_concat, add]
    by_cases hlt : n ≤ sub.productId
    · have hsame : listedOrgs n (subs ++ [sub]) = listedOrgs n subs := by
        simp [listedOrgs, Nat.not_lt.mpr hlt]
      rw [if_pos hlt, hsame]
      exact ⟨hcount, hmap⟩
    rw [if_neg hlt, listedOrgs_concat (Nat.not_le.mp hlt)]
    dsimp only
    by_cases hmem : sub.orgId ∈ listedOrgs n subs
    · rw [hmap, if_pos hmem, if_pos hmem]
      exact ⟨hcount, hmap⟩
    · rw [hmap, if_neg hmem, if_neg hmem]
      refine ⟨by simp [hcount], fun o => ?_⟩
      dsimp only
      rcases eq_or_ne o sub.orgId with rfl | hne
      · rw [update_self, if_pos (by simp), idxOf_append_of_notMem hmem, hcount]
        simp
      · rw [update_of_ne hne, hmap]
        simp only [mem_append, mem_singleton, hne, or_false]
        split
        · next ho => rw [idxOf_append_of_mem ho]
        · rfl

/-- The organisations of the subscriptions are numbered apart. -/
structure SubsTables.Numbers (t : SubsTables) (subs : List OmMarketSubscription) : Prop where
  mapped : ∀ sub ∈ subs, ∃ a, t.orgIndexMap sub.orgId = some a
  bound : ∀ {o a}, t.orgIndexMap o = some a → a < t.orgCount
  injective : ∀ {o o' a}, t.orgIndexMap o = some a → t.orgIndexMap o' = some a → o = o'

theorem subsTables_numbers (h : SubsInRange n subs) : (subsTables n offsets subs).Numbers subs := by
  obtain ⟨hcount, hmap⟩ := subsTables_orgs n offsets subs
  have hsome : ∀ {o a}, (subsTables n offsets subs).orgIndexMap o = some a →
      o ∈ listedOrgs n subs ∧ (listedOrgs n subs).idxOf o = a := by
    intro o a ho
    rw [hmap] at ho
    split at ho
    · next hmem => exact ⟨hmem, Option.some.inj ho⟩
    · cases ho
  refine ⟨fun sub hsub => ?_, fun {o a} ho => ?_, fun {o o' a} ho ho' => ?_⟩
  · rw [hmap, if_pos (mem_listedOrgs.mpr ⟨sub, hsub, h sub hsub, rfl⟩)]
    exact ⟨_, rfl⟩
  · obtain ⟨hmem, rfl⟩ := hsome ho
    exact hcount ▸ idxOf_lt_length_of_mem hmem
  · obtain ⟨hmem, rfl⟩ := hsome ho
    exact (idxOf_inj hmem).mp (hsome ho').2.symm

end Tables

section Ladders

variable {n : Nat} {t : SubsTables} {subs : List OmMarketSubscription}

theorem ladder_key_inj {a a' p p' : Nat} (hp : p < n) (hp' : p' < n)
    (h : a * n + p = a' * n + p') : a = a' ∧ p = p' := by
  have hn : 0 < n := by omega
  have hdiv : ∀ {b q : Nat}, q < n → (b * n + q) / n = b := fun {b q} hq => by
    rw [Nat.add_comm, Nat.add_mul_div_right _ _ hn, Nat.div_eq_of_lt hq, Nat.zero_add]
  obtain rfl : a = a' := by rw [← @hdiv a p hp, h, hdiv hp']
  exact ⟨rfl, by omega⟩

def ladderKey (t : SubsTables) (n : Nat) (sub : OmMarketSubscription) : Option Nat :=
  (t.orgIndexMap sub.orgId).map (· * n + sub.productId)

theorem ladderTable_eq (n : Nat) (t : SubsTables) (subs : List OmMarketSubscription) :
    ladderTable n t.orgIndexMap subs =
      subs.zipIdx.foldl (writeKeys (fun entry => ladderKey t n entry.1) (·.2)) fun _ => none := by
  unfold ladderTable
  congr 1
  funext table entry
  unfold writeKeys ladderKey
  dsimp only
  cases t.orgIndexMap entry.1.orgId <;> rfl

theorem ladderTable_last (n : Nat) (t : SubsTables) (subs : List OmMarketSubscription) (k : Nat) :
    (∀ sub ∈ subs, ladderKey t n sub ≠ some k) ∧ ladderTable n t.orgIndexMap subs k = none ∨
      ∃ before sub after i, subs = before ++ sub :: after ∧ subs[i]? = some sub ∧
        ladderKey t n sub = some k ∧ (∀ later ∈ after, ladderKey t n later ≠ some k) ∧
        ladderTable n t.orgIndexMap subs k = some i := by
  rw [ladderTable_eq]
  rcases foldl_writeKeys_last (fun entry => ladderKey t n entry.1) (·.2) subs.zipIdx
    (fun _ => none) k with ⟨hnone, hkept⟩ | ⟨before, ⟨sub, i⟩, after, heq, hkey, hafter, hfound⟩
  · refine .inl ⟨fun sub hsub => ?_, hkept⟩
    obtain ⟨i, hi⟩ := mem_iff_getElem?.mp hsub
    exact hnone (sub, i) (mem_zipIdx_iff_getElem?.mpr hi)
  · have hsubs := congrArg (map Prod.fst) heq
    rw [zipIdx_map_fst, map_append, map_cons] at hsubs
    have hmem : (sub, i) ∈ subs.zipIdx := by
      rw [heq]
      simp
    have hi := mem_zipIdx_iff_getElem?.mp hmem
    refine .inr ⟨_, sub, _, i, hsubs, hi, hkey, fun later hlater => ?_, hfound⟩
    obtain ⟨entry, hentry, rfl⟩ := mem_map.mp hlater
    exact hafter entry hentry

theorem ladderKey_inj (ht : t.Numbers subs) (h : SubsInRange n subs) {k : Nat}
    {sub sub' : OmMarketSubscription} (hsub : sub ∈ subs) (hsub' : sub' ∈ subs)
    (hk : ladderKey t n sub = some k) (hk' : ladderKey t n sub' = some k) : sub = sub' := by
  obtain ⟨a, ha, hak⟩ := Option.map_eq_some_iff.mp hk
  obtain ⟨a', ha', hak'⟩ := Option.map_eq_some_iff.mp hk'
  obtain ⟨rfl, hp⟩ := ladder_key_inj (h sub hsub) (h sub' hsub') (hak.trans hak'.symm)
  have ho := ht.injective ha ha'
  cases sub
  cases sub'
  cases hp
  cases ho
  rfl

theorem ladderTable_of_getElem (ht : t.Numbers subs) (h : SubsInRange n subs) (hnodup : subs.Nodup)
    {i k : Nat} {sub : OmMarketSubscription} (hi : subs[i]? = some sub)
    (hk : ladderKey t n sub = some k) : ladderTable n t.orgIndexMap subs k = some i := by
  rcases ladderTable_last n t subs k with ⟨hnone, -⟩ | ⟨before, last, after, j, -, hj, hkey, -, hfound⟩
  · exact absurd hk (hnone sub (mem_of_getElem? hi))
  · have hsub := ladderKey_inj ht h (mem_of_getElem? hj) (mem_of_getElem? hi) hkey hk
    rw [hsub, ← hi] at hj
    rw [hfound, (List.getElem?_inj (List.getElem?_eq_some_iff.mp (hj.trans hi)).1 hnodup).mp hj]

theorem fillLadderIndices_foldl {ladderIndex init : Nat → Option Nat} {offsets : Nat → Nat}
    (hroom : Buckets.HasRoom (·.productId) offsets n subs) {m p idx : Nat} (hm : m ≤ n) (hp : p < m)
    (hidx : idx ∈ range' (offsets p) (offsets (p + 1) - offsets p)) :
    (range m).foldl (fillLadderIndices t ladderIndex n offsets) init idx =
      (t.orgIndexMap (t.productOrgs idx)).bind fun orgIndex => ladderIndex (orgIndex * n + p) := by
  induction m with
  | zero => omega
  | succ m ih =>
    rw [range_succ, foldl_concat]
    unfold fillLadderIndices
    rw [foldl_update_apply]
    rcases Nat.lt_or_eq_of_le (Nat.le_of_lt_succ hp) with hlt | rfl
    · have hout : idx ∉ range' (offsets m) (offsets (m + 1) - offsets m) := by
        rw [mem_range'_1] at hidx ⊢
        have hle : offsets (p + 1) ≤ offsets m := hroom.mono hlt (Nat.le_of_succ_le hm)
        omega
      rw [if_neg hout]
      exact ih (Nat.le_of_succ_le hm) hlt
    · rw [if_pos hidx]

end Ladders

/-- What the tables of a worker say of the viewers of its products, also if some subscriptions are
the same. -/
structure ViewerTables (worker : OmMarketWorker) : Prop where
  indices : ∀ p < worker.maxProducts, ∀ idx ∈ worker.fanOutRange p,
    worker.productLadderIndices idx =
      omMarketWorkerFindLadder worker (worker.productOrgs idx) p
  found : ∀ {o p l}, omMarketWorkerFindLadder worker o p = some l → l < worker.subscriptionCount
  hasSubs : ∀ {p}, worker.productHasSubs p = true → p < worker.maxProducts

section Init

variable {n slabCapacity : Nat} {dealable : OmMarketDealableFn} {subs : List OmMarketSubscription}
  {worker : OmMarketWorker}

theorem omMarketWorkerInit_orgs (hinit : omMarketWorkerInit n subs slabCapacity dealable = some worker)
    {p : Nat} (hp : p < n) : (worker.fanOutRange p).map worker.productOrgs =
      (subs.filter (·.productId = p)).map (·.orgId) := by
  cases (Option.ite_none_left_eq_some.mp hinit).2
  have hbuckets := congrArg table
    (subsTables_buckets n (sumTable n (countProducts n subs)) subs)
  have hlen : sumTable n (countProducts n subs) (p + 1) - sumTable n (countProducts n subs) p =
      (subs.filter (·.productId < n)).countP (·.productId = p) := by
    rw [offsets_succ hp, Nat.add_sub_cancel_left, countP_eq_length_filter,
      countP_eq_length_filter, filter_ranged hp]
  unfold OmMarketWorker.fanOutRange
  dsimp only at hbuckets ⊢
  rw [hbuckets, hlen, ← filter_ranged hp]
  exact map_table_foldl_put offsets_hasRoom (fun sub hsub => by simpa using
    (mem_filter.mp hsub).2) hp

theorem omMarketWorkerInit_viewers
    (hinit : omMarketWorkerInit n subs slabCapacity dealable = some worker) :
    ViewerTables worker := by
  cases (Option.ite_none_left_eq_some.mp hinit).2
  refine ⟨fun p hp idx hidx => ?_, fun {o p l} hfind => ?_, fun {p} hp => ?_⟩
  · exact fillLadderIndices_foldl offsets_hasRoom (Nat.le_refl _) hp hidx
  · obtain ⟨a, -, hl⟩ := Option.bind_eq_some_iff.mp hfind
    rcases ladderTable_last _ _ _ _ with ⟨-, hnone⟩ | ⟨-, sub, -, i, -, hi, -, -, hfound⟩
    · cases hnone.symm.trans hl
    · cases hfound.symm.trans hl
      exact (List.getElem?_eq_some_iff.mp hi).1
  · obtain ⟨sub, -, hlt, rfl⟩ := productHasSubs_iff.mp hp
    exact hlt

end Init

structure SubsIndex (worker : OmMarketWorker) (subs : List OmMarketSubscription) : Prop where
  count : worker.subscriptionCount = subs.length
  viewers : ∀ p < worker.maxProducts, (worker.fanOutRange p).map worker.productOrgs =
    (subs.filter (·.productId = p)).map (·.orgId)
  indices : ∀ p < worker.maxProducts, ∀ idx ∈ worker.fanOutRange p,
    worker.productLadderIndices idx =
      omMarketWorkerFindLadder worker (worker.productOrgs idx) p
  ladder : ∀ {i o p}, subs[i]? = some ⟨o, p⟩ → omMarketWorkerFindLadder worker o p = some i
  hasSubs : ∀ {p}, worker.productHasSubs p = true → p < worker.maxProducts
  subscribed : ∀ {i o p : Nat}, subs[i]? = some ⟨o, p⟩ → worker.productHasSubs p = true
  owner : ∀ {i o p}, subs[i]? = some ⟨o, p⟩ →
    worker.ladderOrg i = o ∧ worker.ladderProduct i = p

theorem omMarketWorkerInit_index {maxProducts slabCapacity : Nat} {dealable : OmMarketDealableFn}
    {subs : List OmMarketSubscription} {worker : OmMarketWorker} (h : SubsInRange maxProducts subs)
    (hnodup : subs.Nodup)
    (hinit : omMarketWorkerInit maxProducts subs slabCapacity dealable = some worker) :
    SubsIndex worker subs := by
  obtain ⟨hindices, -, hhas⟩ := omMarketWorkerInit_viewers hinit
  have horgs := fun p => @omMarketWorkerInit_orgs _ _ _ _ _ hinit p
  cases (Option.ite_none_left_eq_some.mp hinit).2
  have hnum := @subsTables_numbers maxProducts subs
    (sumTable maxProducts (countProducts maxProducts subs)) h
  refine ⟨rfl, horgs, hindices, fun {i o p} hi => ?_, hhas, fun {i o p} hi => ?_,
    fun {i o p} hi => ?_⟩
  · obtain ⟨a, ha⟩ := hnum.mapped _ (mem_of_getElem? hi)
    unfold omMarketWorkerFindLadder
    dsimp only at ha ⊢
    rw [ha, Option.bind_some]
    exact ladderTable_of_getElem hnum h hnodup hi (by rw [ladderKey, ha]; rfl)
  · have hmem := mem_of_getElem? hi
    exact productHasSubs_iff.mpr ⟨_, hmem, h _ hmem, rfl⟩
  · simp [getD, hi]

end VeloxMatch
