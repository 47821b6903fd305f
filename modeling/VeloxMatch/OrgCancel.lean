import VeloxMatch.MatchTurn
import VeloxMatch.OrgRun

namespace VeloxMatch

open SearchTree

section Cancel

variable (K : Kavl)

/-- The loop of `om_orderbook_cancel_org_product`. -/
def cancelOrgLoop : Nat → OmOrderbookContext → Option Nat → Nat → Option (Nat × OmOrderbookContext)
  | 0, _, _, _ => none
  | fuel + 1, ctx, headIdx, cancelled =>
    match omSlotFromIdx ctx.slab headIdx with
    | none => some (cancelled, ctx)
    | some order =>
      let nextIdx := ctx.slab.next .orgQueue order
      let r := omOrderbookCancel K ctx (ctx.order order).orderId
      cancelOrgLoop fuel r.2 nextIdx (if r.1 then cancelled + 1 else cancelled)

def omOrderbookCancelOrgProduct (fuel : Nat) (ctx : OmOrderbookContext) (productId orgId : Nat) :
    Option (Nat × OmOrderbookContext) :=
  if ctx.maxProducts ≤ productId ∨ ctx.maxOrg ≤ orgId then some (0, ctx)
  else cancelOrgLoop K fuel ctx (ctx.orgHeads (orgIdx ctx productId orgId)) 0

end Cancel

/-- The book without the orders of the slots in `gone`, and otherwise as it was. -/
structure Without (ctx : OmOrderbookContext) (levels : Levels) (gone : List Nat)
    (ctx' : OmOrderbookContext) (levels' : Levels) : Prop where
  queues : ∀ p b, queueOf (levels' p b) = (queueOf (levels p b)).filter (· ∉ gone)
  order : ∀ i, ctx'.slab.order i = ctx.slab.order i
  hash : ∀ id entry, ctx'.orderHashmap id = some entry ↔
    ctx.orderHashmap id = some entry ∧ entry.slotIdx ∉ gone

section Spec

variable {K : Kavl} {ctx ctx' ctx'' : OmOrderbookContext} {levels levels' levels'' : Levels}
  {free gone gone' : List Nat} {queues : Nat → Nat → List Nat} {x p o : Nat} {b : Bool}

theorem Without.refl (ctx : OmOrderbookContext) (levels : Levels) :
    Without ctx levels [] ctx levels :=
  ⟨fun _ _ => by simp, fun _ => rfl, fun _ _ => by simp⟩

theorem Without.trans (h : Without ctx levels gone ctx' levels')
    (h' : Without ctx' levels' gone' ctx'' levels'') :
    Without ctx levels (gone ++ gone') ctx'' levels'' where
  queues := fun p b => by
    rw [h'.queues, h.queues, List.filter_filter]
    exact List.filter_congr fun i _ => by simp [Bool.and_comm]
  order := fun i => (h'.order i).trans (h.order i)
  hash := fun id entry => by
    rw [h'.hash, h.hash, List.mem_append, not_or, and_assoc]

variable (h : BookInv ctx levels free)
include h

theorem without_cancel (hx : x ∈ queueOf (levels p b))
    (horder : ∀ i, ctx'.slab.order i = ctx.slab.order i)
    (hhash : ctx'.orderHashmap =
      Function.update ctx.orderHashmap (ctx.slab.order x).orderId none) :
    Without ctx levels [x] ctx' (levels.drop p b x) where
  queues := fun p' b' => by
    rw [queueOf_drop h hx]
    exact List.filter_congr fun i _ => by simp
  order := horder
  hash := fun id entry => by
    rw [hhash, List.mem_singleton]
    by_cases hid : id = (ctx.slab.order x).orderId
    · subst hid
      rw [Function.update_self]
      refine ⟨nofun, fun ⟨he, hne⟩ => ?_⟩
      cases he.symm.trans (h.resting hx).1
      exact absurd rfl hne
    · rw [Function.update_of_ne hid]
      refine ⟨fun he => ⟨he, fun hs => hid ?_⟩, And.left⟩
      rw [← hs, (h.entry he).1]

theorem cancel_orgHead {rest : List Nat}
    (ho : OrgInv ctx levels queues) (hwrap : ctx.maxProducts * ctx.maxOrg < 2 ^ 32)
    (hwal : Working ctx.wal) (hq : queues p o = x :: rest) :
    ∃ ctx' levels' queues', omOrderbookCancel K ctx (ctx.slab.order x).orderId = (true, ctx') ∧
      BookInv ctx' levels' (x :: free) ∧ OrgInv ctx' levels' queues' ∧ queues' p o = rest ∧
      Working ctx'.wal ∧ ctx'.maxProducts = ctx.maxProducts ∧ ctx'.maxOrg = ctx.maxOrg ∧
      Without ctx levels [x] ctx' levels' := by
  obtain ⟨b, hx, horg⟩ := ho.mem.mp (show x ∈ queues p o by simp [hq])
  obtain ⟨w, hlog, hw⟩ := book_log_working hwal
    (fun h => .cancel ⟨(ctx.slab.order x).orderId, h.now, x, p⟩)
  obtain ⟨ctx', hrun, hbook, hkept, hhash⟩ := omOrderbookCancel_spec K h hx hlog
  have hleave := ho.leave h hwrap hx (omOrderbookCancel_org ho h hx hrun)
  refine ⟨ctx', _, _, hrun, hbook, hleave, ?_, hkept.wal ▸ hw, hkept.maxProducts, hkept.maxOrg,
    without_cancel h hx hkept.order hhash⟩
  rw [horg, setQueue_self, hq, List.erase_cons_head]

theorem cancelOrgLoop_spec {todo : List Nat}
    (ho : OrgInv ctx levels queues) (hwrap : ctx.maxProducts * ctx.maxOrg < 2 ^ 32)
    (hwal : Working ctx.wal) (hq : queues p o = todo) (count : Nat) :
    ∃ ctx' levels' free',
      (∀ fuel, todo.length < fuel →
        cancelOrgLoop K fuel ctx (front todo none) count = some (count + todo.length, ctx')) ∧
      BookInv ctx' levels' free' ∧ Without ctx levels todo ctx' levels' := by
  induction todo generalizing ctx levels free queues count with
  | nil =>
    refine ⟨ctx, levels, free, fun fuel hfuel => ?_, h, Without.refl ctx levels⟩
    obtain ⟨n, rfl⟩ := Nat.exists_eq_succ_of_ne_zero (Nat.ne_of_gt hfuel)
    rfl
  | cons x rest ih =>
    obtain ⟨ctx₁, levels₁, queues₁, hrun, h₁, ho₁, hq₁, hwal₁, hp₁, hm₁, hw₁⟩ :=
      cancel_orgHead (K := K) h ho hwrap hwal hq
    obtain ⟨ctx', levels', free', hloop, h', hw'⟩ :=
      ih h₁ ho₁ (by rw [hp₁, hm₁]; exact hwrap) hwal₁ hq₁ (count + 1)
    refine ⟨ctx', levels', free', fun fuel hfuel => ?_, h', hw₁.trans hw'⟩
    have hlt : x < ctx.slab.capacity := ho.lt_capacity h (show x ∈ queues p o by simp [hq])
    have hnext : ctx.slab.next .orgQueue x = front rest none := by
      have hchain := ho.chain p o
      rw [hq] at hchain
      exact hchain.2.1
    have hrun' : omOrderbookCancel K ctx (ctx.order x).orderId = (true, ctx₁) := hrun
    cases fuel with
    | zero => cases hfuel
    | succ n =>
      simp only [cancelOrgLoop, front_cons, omSlotFromIdx_some hlt, hrun', hnext, ↓reduceIte,
        hloop n (Nat.lt_of_succ_lt_succ hfuel), List.length_cons, Nat.add_assoc, Nat.add_comm 1]

end Spec

/-- In every run that takes no head of an organisation queue out by
`om_orderbook_remove_slot`, the queues hold exactly the resting orders of each product and
organisation, and `om_orderbook_cancel_org_product` cancels exactly those. -/
theorem cancelOrgProduct_exact {K : Kavl} {config : OmSlabConfig} {wal : Option OmWalHandle}
    {maxProducts maxOrg : Nat} {ctx : OmOrderbookContext} {callbacks : OmEngineCallbacks}
    {s : EngineState} (hinit : omOrderbookInit config wal maxProducts maxOrg = (.ok, some ctx))
    (hwrap : maxProducts * maxOrg < 2 ^ 32) (h : Reach K OrgOk (.start ctx callbacks) s) :
    ∃ levels free queues, BookInv s.book levels free ∧ OrgInv s.book levels queues ∧
      ∀ p o, p < maxProducts → o < maxOrg → Working s.book.wal →
        ∃ ctx' levels' free',
          (∀ fuel, (queues p o).length < fuel →
            omOrderbookCancelOrgProduct K fuel s.book p o = some ((queues p o).length, ctx')) ∧
          BookInv ctx' levels' free' ∧ Without s.book levels (queues p o) ctx' levels' := by
  obtain ⟨hproducts, horgs, levels, free, queues, hbook, horg⟩ := Reach.orgInv hinit hwrap h
  refine ⟨levels, free, queues, hbook, horg, fun p o hp ho hwal => ?_⟩
  rw [← hproducts] at hp
  rw [← horgs] at ho
  obtain ⟨ctx', levels', free', hloop, hbook', hwithout⟩ := cancelOrgLoop_spec (K := K) hbook horg
    (by rw [hproducts, horgs]; exact hwrap) hwal (rfl : queues p o = _) 0
  refine ⟨ctx', levels', free', fun fuel hfuel => ?_, hbook', hwithout⟩
  rw [omOrderbookCancelOrgProduct, if_neg (by omega), horg.heads p o hp ho, hloop fuel hfuel,
    Nat.zero_add]

def twoOrgEngine : EngineState :=
  .start (freshBook (freshSlab smallConfig) none 1 2) noCallbacks

def orgOrder (id price org : Nat) (isBid : Bool) : Submission :=
  { unitOrder id price isBid with order := { (unitOrder id price isBid).order with org := org } }

/-- Two bids of organisation 0 and one of organisation 1; the older one of the first
organisation is cancelled. -/
def orgOps : List Op :=
  [.alloc, .write 2 (orgOrder 1 10 0 true), .insert 0 2,
    .alloc, .write 1 (orgOrder 2 11 0 true), .insert 0 1,
    .alloc, .write 0 (orgOrder 3 12 1 true), .insert 0 0, .cancel 1]

theorem cancelOrgProduct_exact_small :
    omOrderbookInit smallConfig none 1 2 =
      (.ok, some (freshBook (freshSlab smallConfig) none 1 2)) ∧
    Reach plainOps OrgOk twoOrgEngine
      (runOps plainOps twoOrgEngine orgOps) ∧
    (omOrderbookCancelOrgProduct plainOps 4
      (runOps plainOps twoOrgEngine orgOps).book 0 0).map Prod.fst = some 1 ∧
    ∃ levels queues, OrgInv (runOps plainOps twoOrgEngine orgOps).book levels queues ∧
      ∃ ctx' levels', Without (runOps plainOps twoOrgEngine orgOps).book levels
        (queues 0 0) ctx' levels' ∧
        omOrderbookCancelOrgProduct plainOps ((queues 0 0).length + 1)
          (runOps plainOps twoOrgEngine orgOps).book 0 0 =
            some ((queues 0 0).length, ctx') := by
  have hreach : Reach plainOps OrgOk twoOrgEngine
      (runOps plainOps twoOrgEngine orgOps) :=
    Allowed.reach _ (by decide +kernel) .start
  have hwal : (runOps plainOps twoOrgEngine orgOps).book.wal = none :=
    Option.isNone_iff_eq_none.mp (by decide +kernel)
  obtain ⟨levels, free, queues, -, horg, hcancel⟩ :=
    cancelOrgProduct_exact smallEngine_init (by decide) hreach
  obtain ⟨ctx', levels', free', hrun, -, hwithout⟩ :=
    hcancel 0 0 (by decide) (by decide) (by rw [hwal]; nofun)
  exact ⟨smallEngine_init, hreach, by decide +kernel, levels, queues, horg, ctx', levels', hwithout,
    hrun _ (Nat.lt_succ_self _)⟩

/-- The only order of organisation 0 is cancelled by `om_engine_cancel` and its slot serves an
order of organisation 1. -/
def staleHeadOps : List Op :=
  [.alloc, .write 2 (orgOrder 1 10 0 true), .insert 0 2, .cancel 1,
    .alloc, .write 2 (orgOrder 2 10 1 true), .insert 0 2]

/-- The head of organisation 0 still names the slot, so the order of organisation 1 goes. -/
theorem cancelOrgProduct_stale :
    omOrderbookInit smallConfig none 1 2 =
      (.ok, some (freshBook (freshSlab smallConfig) none 1 2)) ∧
    Reach plainOps (fun s op => ClientOk s op ∧ LiveCancel s op) twoOrgEngine
      (runOps plainOps twoOrgEngine staleHeadOps) ∧
    (runOps plainOps twoOrgEngine staleHeadOps).book.orderHashmap 2 = some ⟨2, 0⟩ ∧
    ((runOps plainOps twoOrgEngine staleHeadOps).book.slab.order 2).org = 1 ∧
    (omOrderbookCancelOrgProduct plainOps 4
      (runOps plainOps twoOrgEngine staleHeadOps).book 0 0).map
        (fun r => (r.1, r.2.orderHashmap 2)) = some (1, none) ∧
    ¬ ∃ levels queues,
      OrgInv (runOps plainOps twoOrgEngine staleHeadOps).book levels queues := by
  have horg : ((runOps plainOps twoOrgEngine staleHeadOps).book.slab.order 2).org = 1 := by
    decide +kernel
  have hhead : (runOps plainOps twoOrgEngine staleHeadOps).book.orgHeads 0 = some 2 := by
    decide +kernel
  refine ⟨rfl, Allowed.reach _ (by decide +kernel) .start, by decide +kernel, horg,
    by decide +kernel, ?_⟩
  rintro ⟨levels, queues, hinv⟩
  have hfront := hinv.heads 0 0 (by decide +kernel) (by decide +kernel)
  obtain ⟨b, -, hzero⟩ := hinv.mem.mp (front_mem (hfront.symm.trans hhead))
  cases hzero.symm.trans horg

end VeloxMatch
