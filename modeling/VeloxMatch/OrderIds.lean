import VeloxMatch.Recovery
import VeloxMatch.Representation

namespace VeloxMatch

open OmDualSlab

section Store

variable (K : Kavl) (ctx : OmOrderbookContext) (p x : Nat)

theorem linkIntoLevel_store : SameStore ctx.slab (linkIntoLevel K ctx p x).slab := by
  unfold linkIntoLevel
  dsimp only
  split
  next after _ =>
    exact (insertOrderAt_links ctx p _ x after).store.trans ⟨rfl, rfl, rfl, rfl, rfl, rfl, rfl⟩
  next head _ _ =>
    have happend : SameStore ctx.slab (appendToTimeQueue ctx head x).slab :=
      (omQueueLinkAfter_links ..).store.trans (sameStore_setPrev ..)
    split <;> exact happend

theorem promoteNext_store (isBid : Bool) (next : Nat) :
    SameStore ctx.slab (promoteNext K ctx p isBid x next).slab := by
  have hframe : LevelFrame ctx (promoteNext K ctx p isBid x next) p isBid fun _ => True :=
    promoteNext_frame K trivial trivial (fun _ _ => trivial) (fun _ _ => trivial) fun _ _ => trivial
  exact hframe.store

theorem unlinkFromLevel_store {ctx' : OmOrderbookContext}
    (h : unlinkFromLevel K ctx p x = some ctx') : SameStore ctx.slab ctx'.slab := by
  unfold unlinkFromLevel at h
  dsimp only at h
  split at h
  next => cases h
  next head _ =>
    split at h
    next heq =>
      split at h
      next =>
        cases h
        rw [removePriceLevel_slab]
        exact (omQueueUnlink_links ..).store
      next =>
        cases h
        exact promoteNext_store ..
    next =>
      cases h
      exact (removeFromQueue_links ..).store

end Store

def OmOrderbookContext.nextId (ctx : OmOrderbookContext) : Nat := ctx.slab.nextOrderId

section Counter

variable (K : Kavl) (ctx : OmOrderbookContext) (p x id : Nat)

theorem nextId_log (append : OmWalHandle → Bool × OmWalHandle) :
    (ctx.log append).2.nextId = ctx.nextId := by
  unfold OmOrderbookContext.log
  split <;> rfl

theorem nextId_omSlabAlloc (s : OmDualSlab) : (omSlabAlloc s).2.nextOrderId = s.nextOrderId := by
  unfold omSlabAlloc
  split
  next => rfl
  next => split <;> rfl

theorem nextId_omOrderbookInsert : (omOrderbookInsert K ctx p x).2.nextId = ctx.nextId := by
  have hlog := nextId_log ctx fun w => omWalInsert w ctx.slab x p
  unfold omOrderbookInsert
  dsimp only
  split
  next => rfl
  next =>
    split
    next => rfl
    next =>
      generalize ctx.log (fun w => omWalInsert w ctx.slab x p) = r at hlog
      obtain ⟨ok, c⟩ := r
      cases ok with
      | false => exact hlog
      | true =>
        refine Eq.trans ?_ hlog
        exact ((linkIntoOrg_frame _ _ _).store.nextOrderId).trans
          (linkIntoLevel_store K _ _ _).nextOrderId

theorem nextId_omOrderbookCancel : (omOrderbookCancel K ctx id).2.nextId = ctx.nextId := by
  unfold omOrderbookCancel
  split
  next => rfl
  next entry _ =>
    have hlog := nextId_log ctx fun w => omWalCancel w id entry.slotIdx entry.productId
    generalize ctx.log (fun w => omWalCancel w id entry.slotIdx entry.productId) = r at hlog
    obtain ⟨ok, c⟩ := r
    cases ok with
    | false => exact hlog
    | true =>
      dsimp only
      split
      next => exact hlog
      next c' hunlink =>
        refine Eq.trans ?_ hlog
        exact ((unlinkFromOrg_frame _ _).store.nextOrderId.trans
          (advanceOrgHead_frame _ _ _).store.nextOrderId).trans
          (unlinkFromLevel_store K _ _ _ hunlink).nextOrderId

theorem nextId_omOrderbookRemoveSlot : (omOrderbookRemoveSlot K ctx p x).2.nextId = ctx.nextId := by
  unfold omOrderbookRemoveSlot
  split
  next => rfl
  next c' hunlink =>
    exact (unlinkFromOrg_frame _ _).store.nextOrderId.trans
      (unlinkFromLevel_store K _ _ _ hunlink).nextOrderId

theorem nextId_omOrderbookUnlinkSlot : (omOrderbookUnlinkSlot K ctx p x).2.nextId = ctx.nextId := by
  unfold omOrderbookUnlinkSlot
  split
  next => rfl
  next c' hunlink =>
    exact ((unlinkFromOrg_frame _ _).store.nextOrderId.trans
      (advanceOrgHead_frame _ _ _).store.nextOrderId).trans
      (unlinkFromLevel_store K _ _ _ hunlink).nextOrderId

end Counter

section Engine

variable {K : Kavl} {e e' : OmEngine} {s : EngineState}

theorem nextId_engine_log {ok : Bool} {append : OmWalHandle → Bool × OmWalHandle}
    (h : e.log append = (ok, e')) : e'.orderbook.nextId = e.orderbook.nextId := by
  cases h
  exact nextId_log ..

theorem nextId_onlyEvents (h : OnlyEvents e e') : e'.orderbook.nextId = e.orderbook.nextId := by
  obtain ⟨v, rfl⟩ := h
  rfl

theorem nextId_matchStep (f : MatchFrame) :
    (matchStep K e f).1.orderbook.nextId = e.orderbook.nextId := by
  have hmove := matchStep_move K e f
  generalize (matchStep K e f).1 = e' at hmove ⊢
  generalize (matchStep K e f).2 = next at hmove
  cases hmove with
  | walk hev _ => exact nextId_onlyEvents hev
  | learn _ => rfl
  | used _ _ => rfl
  | refused _ hev hlog _ => exact (nextId_engine_log hlog).trans (nextId_onlyEvents hev)
  | cancelMaker _ hev hlog hev' =>
    exact (nextId_onlyEvents hev').trans ((nextId_engine_log hlog).trans (nextId_onlyEvents hev))
  | reduce _ hev _ _ _ hlog hev' =>
    exact (nextId_onlyEvents hev').trans ((nextId_engine_log hlog).trans (nextId_onlyEvents hev))
  | @remove _ maker _ _ both _ =>
    have hremove := nextId_omOrderbookRemoveSlot K e.orderbook f.productId maker
    cases both <;> exact hremove
  | decline _ hev => exact nextId_onlyEvents hev
  | book _ hev hins hev' =>
    have hbook := nextId_omOrderbookInsert K e.orderbook f.productId f.taker
    rw [hins] at hbook
    exact (nextId_onlyEvents hev').trans hbook
  | bookFailed _ hev _ hins =>
    have hbook := nextId_omOrderbookInsert K e.orderbook f.productId f.taker
    rw [hins] at hbook
    exact hbook

theorem nextId_afterMatch (f : MatchFrame) (activating : Bool) (next : MatchNext) :
    (afterMatch s f activating next).book.nextId = s.book.nextId := by
  cases next with
  | running => rfl
  | returned rc =>
    simp only [afterMatch, finishMatch, handOver]
    split <;> split <;> rfl

theorem nextId_tickSide (f : SideFrame) : (tickSide K s f).book.nextId = s.book.nextId := by
  unfold tickSide
  split
  next =>
    split
    next => split <;> rfl
    next => rfl
  next =>
    split
    next => rfl
    next order _ =>
      refine (nextId_omOrderbookCancel K _ _).trans ?_
      rw [orderbook_emit]
      rfl

theorem nextId_startMatch (p x : Nat) (excludeSameOrg activating : Bool) :
    (startMatch s p x excludeSameOrg activating).book.nextId = s.book.nextId := by
  unfold startMatch
  split
  next => rfl
  next => split <;> rfl

theorem nextId_omEngineCancel (id : Nat) :
    (omEngineCancel K e id).2.orderbook.nextId = e.orderbook.nextId := by
  unfold omEngineCancel
  split
  next => rfl
  next entry _ =>
    split
    next => rfl
    next order _ =>
      split
      next e1 hlog => exact nextId_engine_log hlog
      next e1 hlog =>
        refine (nextId_omOrderbookRemoveSlot K _ _ _).trans ?_
        rw [orderbook_emit]
        exact nextId_engine_log hlog

theorem nextId_omEngineDeactivate (id : Nat) :
    (omEngineDeactivate K e id).2.orderbook.nextId = e.orderbook.nextId := by
  unfold omEngineDeactivate
  split
  next => rfl
  next entry _ =>
    split
    next => rfl
    next order _ =>
      split
      next => rfl
      next =>
        split
        next e1 hlog => exact nextId_engine_log hlog
        next e1 hlog =>
          have hunlink := nextId_omOrderbookUnlinkSlot K e1.orderbook entry.productId order
          split
          next c hrun =>
            rw [hrun] at hunlink
            exact hunlink.trans (nextId_engine_log hlog)
          next c hrun =>
            rw [hrun] at hunlink
            exact hunlink.trans (nextId_engine_log hlog)

theorem nextId_activatePrepare (id : Nat) :
    (activatePrepare e id).2.orderbook.nextId = e.orderbook.nextId := by
  unfold activatePrepare
  split
  next => rfl
  next entry _ =>
    split
    next => rfl
    next order _ =>
      split
      next => rfl
      next =>
        split
        next e1 hlog => exact nextId_engine_log hlog
        next e1 hlog =>
          have hkept := nextId_engine_log hlog
          exact hkept

theorem nextId_engineStep (op : Op) : (engineStep K s op).book.nextId = s.book.nextId := by
  unfold engineStep
  split
  next f activating _ => exact (nextId_afterMatch ..).trans (nextId_matchStep f)
  next f _ => exact nextId_tickSide f
  next => rfl
  next => rfl
  next =>
    have halloc := nextId_omSlabAlloc s.book.slab
    split
    next => rfl
    next slot slab hrun =>
      rw [hrun] at halloc
      exact halloc
  next => split <;> rfl
  next => split <;> rfl
  next =>
    split
    next => exact nextId_startMatch ..
    next => rfl
  next p slot _ =>
    have hinsert := nextId_omOrderbookInsert K s.book p slot
    split
    next =>
      split
      next ctx hrun =>
        rw [hrun] at hinsert
        exact hinsert
      next ctx _ hrun =>
        rw [hrun] at hinsert
        exact hinsert
    next => rfl
  next => exact nextId_omEngineCancel ..
  next => exact nextId_omOrderbookCancel ..
  next => exact nextId_omEngineDeactivate ..
  next id _ =>
    have hprepare := nextId_activatePrepare (e := s.engine) id
    split
    next e hrun =>
      rw [hrun] at hprepare
      exact hprepare
    next p slot e hrun =>
      rw [hrun] at hprepare
      exact (nextId_startMatch ..).trans hprepare
  next => split <;> rfl
  next => split <;> rfl

end Engine

open SearchTree WalReplayRecord List

def OmWalRecord.orderIds : OmWalRecord → List Nat
  | .insert rec => [rec.orderId]
  | .matched rec => [rec.makerId, rec.takerId]
  | _ => []

def WalReplayRecord.orderIds (r : WalReplayRecord) : List Nat :=
  if r.passedOver then [] else (decodeRecord r.type r.data).orderIds

def WalReplayRecord.Narrow (r : WalReplayRecord) : Prop := ∀ id ∈ r.orderIds, id < 2 ^ 32

/-- The counter went from `next` to `next'` past these ids; zero is for ever. -/
structure Passes (next next' : Nat) (ids : List Nat) : Prop where
  lt : next' < 2 ^ 32
  exhausted : next = 0 → next' = 0
  le : next' ≠ 0 → next ≤ next'
  ids_lt : next' ≠ 0 → ∀ id ∈ ids, id < next'

section Passes

variable {a b c id : Nat} {ids ids' : List Nat}

theorem Passes.same (h : a < 2 ^ 32) : Passes a a [] :=
  ⟨h, id, fun _ => Nat.le_refl a, by simp⟩

theorem Passes.trans (h : Passes a b ids) (h' : Passes b c ids') : Passes a c (ids ++ ids') := by
  have hb : c ≠ 0 → b ≠ 0 := fun hc hb => hc (h'.exhausted hb)
  refine ⟨h'.lt, fun ha => h'.exhausted (h.exhausted ha), fun hc => ?_, fun hc i hi => ?_⟩
  · exact (h.le (hb hc)).trans (h'.le hc)
  · rcases mem_append.mp hi with hi | hi
    · exact (h.ids_lt (hb hc) i hi).trans_le (h'.le hc)
    · exact h'.ids_lt hc i hi

theorem Passes.subset (h : Passes a b ids) (hsub : ids' ⊆ ids) : Passes a b ids' :=
  ⟨h.lt, h.exhausted, h.le, fun hb i hi => h.ids_lt hb i (hsub hi)⟩

theorem passes_passOrderId {s : OmDualSlab} (hs : s.nextOrderId < 2 ^ 32) (hid : id < 2 ^ 32) :
    Passes s.nextOrderId (passOrderId s id).nextOrderId [id] := by
  unfold passOrderId
  split
  next hpass =>
    dsimp only
    split
    next => exact ⟨by decide, fun _ => rfl, by simp, by simp⟩
    next hmax =>
      have hmod : (id + 1) % 2 ^ 32 = id + 1 := Nat.mod_eq_of_lt (by omega)
      rw [hmod]
      refine ⟨by omega, fun h0 => absurd h0 hpass.1, fun _ => by omega, fun _ i hi => ?_⟩
      rw [mem_singleton.mp hi]
      exact Nat.lt_succ_self id
  next hpass =>
    refine ⟨hs, fun h0 => h0, fun _ => Nat.le_refl _, fun hne i hi => ?_⟩
    rw [mem_singleton.mp hi]
    exact Nat.lt_of_not_le fun hle => hpass ⟨hne, hle⟩

end Passes

section Recover

variable {K : Kavl} {ctx : OmOrderbookContext}

theorem nextId_recoverInsert (rec : OmWalInsert) :
    ((recoverInsert K ctx rec).1 ≠ .ok ∧ (recoverInsert K ctx rec).2.nextId = ctx.nextId) ∨
      (recoverInsert K ctx rec).2.nextId = (passOrderId ctx.slab rec.orderId).nextOrderId := by
  unfold recoverInsert
  split
  next => exact Or.inl ⟨nofun, rfl⟩
  next =>
    refine Or.inr ?_
    have halloc := nextId_omSlabAlloc (passOrderId ctx.slab rec.orderId)
    dsimp only
    generalize omSlabAlloc (passOrderId ctx.slab rec.orderId) = r at halloc
    obtain ⟨found, slab⟩ := r
    cases found with
    | none => exact halloc
    | some slot =>
      have hinsert := nextId_omOrderbookInsert K
        { ctx with slab := restoreSlot slab slot rec } rec.productId slot
      dsimp only
      generalize omOrderbookInsert K { ctx with slab := restoreSlot slab slot rec } rec.productId
        slot = r at hinsert
      obtain ⟨rc, c⟩ := r
      cases rc <;> exact hinsert.trans halloc

theorem nextId_recoverMatch (rec : OmWalMatch) :
    ((recoverMatch K ctx rec).1 ≠ .ok ∧ (recoverMatch K ctx rec).2.nextId = ctx.nextId) ∨
      (recoverMatch K ctx rec).2.nextId = (passOrderId ctx.slab rec.highest).nextOrderId := by
  unfold recoverMatch
  split
  next => exact Or.inl ⟨nofun, rfl⟩
  next =>
    refine Or.inr ?_
    dsimp only
    split
    next => rfl
    next =>
      split
      next => rfl
      next =>
        split
        next => exact nextId_omOrderbookCancel ..
        next => rfl

theorem nextId_recoverDeactivate (rec : OmWalCancel) :
    (recoverDeactivate K ctx rec).nextId = ctx.nextId := by
  unfold recoverDeactivate
  split
  next => rfl
  next =>
    split
    next => rfl
    next => exact nextId_omOrderbookUnlinkSlot ..

theorem nextId_recoverActivate (rec : OmWalCancel) :
    (recoverActivate ctx rec).nextId = ctx.nextId := by
  unfold recoverActivate
  repeat' split
  all_goals rfl

theorem passes_recoverRecord (hnext : ctx.nextId < 2 ^ 32) {rec : OmWalRecord}
    (hids : ∀ id ∈ rec.orderIds, id < 2 ^ 32) :
    Passes ctx.nextId (recoverRecord K ctx rec).2.nextId [] ∧
      ((recoverRecord K ctx rec).1 = .ok →
        Passes ctx.nextId (recoverRecord K ctx rec).2.nextId rec.orderIds) := by
  have hkept : ∀ (rc : OmError) (c : OmOrderbookContext) (ids : List Nat),
      (rc ≠ .ok ∧ c.nextId = ctx.nextId) ∨ Passes ctx.nextId c.nextId ids →
      Passes ctx.nextId c.nextId [] ∧ (rc = .ok → Passes ctx.nextId c.nextId ids) := by
    rintro rc c ids (⟨hrc, hc⟩ | hpass)
    · rw [hc]
      exact ⟨.same hnext, fun h => absurd h hrc⟩
    · exact ⟨hpass.subset (by simp), fun _ => hpass⟩
  cases rec with
  | insert rec =>
    refine hkept _ _ _ ((nextId_recoverInsert rec).imp_right fun h => ?_)
    change Passes _ (recoverInsert K ctx rec).2.nextId [rec.orderId]
    rw [h]
    exact passes_passOrderId hnext (hids _ (by simp [OmWalRecord.orderIds]))
  | matched rec =>
    refine hkept _ _ _ ((nextId_recoverMatch rec).imp_right fun h => ?_)
    have hmaker : rec.makerId < 2 ^ 32 := hids _ (by simp [OmWalRecord.orderIds])
    have htaker : rec.takerId < 2 ^ 32 := hids _ (by simp [OmWalRecord.orderIds])
    change Passes _ (recoverMatch K ctx rec).2.nextId [rec.makerId, rec.takerId]
    have hhighest : rec.highest = max rec.makerId rec.takerId := by
      unfold OmWalMatch.highest
      split <;> omega
    have hpass := passes_passOrderId (s := ctx.slab) hnext (show rec.highest < 2 ^ 32 by omega)
    rw [h]
    refine ⟨hpass.lt, hpass.exhausted, hpass.le, fun hne id hid => ?_⟩
    have hlt := hpass.ids_lt hne _ (mem_singleton.mpr rfl)
    simp only [mem_cons, not_mem_nil, or_false] at hid
    omega
  | cancel rec =>
    refine hkept _ _ _ (Or.inr ?_)
    change Passes _ (omOrderbookCancel K ctx (rec.orderId % 2 ^ 32)).2.nextId []
    rw [nextId_omOrderbookCancel]
    exact .same hnext
  | deactivate rec =>
    refine hkept _ _ _ (Or.inr ?_)
    change Passes _ (recoverDeactivate K ctx rec).nextId []
    rw [nextId_recoverDeactivate]
    exact .same hnext
  | activate rec =>
    refine hkept _ _ _ (Or.inr ?_)
    change Passes _ (recoverActivate ctx rec).nextId []
    rw [nextId_recoverActivate]
    exact .same hnext
  | other => exact hkept _ _ _ (Or.inr (.same hnext))

theorem passes_recoverLoop (failure : Option OmError) (stats : OmWalReplayStats)
    {records : List WalReplayRecord} (hnarrow : ∀ r ∈ records, r.Narrow)
    (hnext : ctx.nextId < 2 ^ 32) :
    Passes ctx.nextId (recoverLoop K failure ctx stats records).2.1.nextId [] ∧
      ((recoverLoop K failure ctx stats records).1 = .ok →
        Passes ctx.nextId (recoverLoop K failure ctx stats records).2.1.nextId
          (records.flatMap orderIds)) := by
  induction records generalizing ctx stats with
  | nil => exact ⟨.same hnext, fun _ => .same hnext⟩
  | cons r records ih =>
    have hr := hnarrow r (by simp)
    have hrest : ∀ r ∈ records, r.Narrow := fun r hr => hnarrow r (by simp [hr])
    unfold recoverLoop
    rw [flatMap_cons]
    by_cases hpassed : r.passedOver = true
    · have hids : r.orderIds = [] := if_pos hpassed
      rw [if_pos hpassed, hids]
      exact ih stats hrest hnext
    · have hids : r.orderIds = (decodeRecord r.type r.data).orderIds := if_neg hpassed
      rw [if_neg hpassed, hids]
      rw [WalReplayRecord.Narrow, hids] at hr
      obtain ⟨hsome, hall⟩ := passes_recoverRecord (K := K) hnext hr
      generalize recoverRecord K ctx (decodeRecord r.type r.data) = out at hsome hall
      obtain ⟨rc, c⟩ := out
      cases rc with
      | ok =>
        obtain ⟨hsome', hall'⟩ := ih (stats.count r) hrest hsome.lt
        exact ⟨hsome.trans hsome', fun hok => (hall rfl).trans (hall' hok)⟩
      | _ => exact ⟨hsome, nofun⟩

end Recover

/-- Recoveries, calls of `om_slab_next_order_id` and operations of the engine in any order.
`returned` are the results of those calls and `seen` the ids of the logs that were accepted. -/
inductive IdRun (K : Kavl) (ok : WalReplayRecord → Prop) (start : EngineState) :
    EngineState → List Nat → List Nat → Prop where
  | start : IdRun K ok start start [] []
  | recover {s : EngineState} {returned seen : List Nat} (records : List WalReplayRecord)
      (failure : Option OmError) : IdRun K ok start s returned seen → (∀ r ∈ records, ok r) →
      IdRun K ok start (s.setBook (omOrderbookRecoverFromWal K s.book records failure).2.1) returned
        (if (omOrderbookRecoverFromWal K s.book records failure).1 = .ok then
          seen ++ records.flatMap orderIds else seen)
  | nextId {s : EngineState} {returned seen : List Nat} : IdRun K ok start s returned seen →
      IdRun K ok start
        (s.setBook { s.book with slab := (omSlabNextOrderId s.book.slab).2 })
        (returned ++ [(omSlabNextOrderId s.book.slab).1]) seen
  | engine {s : EngineState} {returned seen : List Nat} (op : Op) :
      IdRun K ok start s returned seen → IdRun K ok start (engineStep K s op) returned seen

/-- The counter is past every id that was seen or returned; once a call returned zero it is
zero. -/
structure IdInv (next : Nat) (returned seen : List Nat) : Prop where
  lt : next < 2 ^ 32
  past : next ≠ 0 → ∀ id ∈ seen ++ returned, id < next
  exhausted : 0 ∈ returned → next = 0
  increasing : (returned.filter (· ≠ 0)).Pairwise (· < ·)

section Run

variable {next next' : Nat} {returned seen ids : List Nat}

theorem IdInv.passes (h : IdInv next returned seen) (hp : Passes next next' ids) :
    IdInv next' returned (seen ++ ids) := by
  have hne : next' ≠ 0 → next ≠ 0 := fun hne h0 => hne (hp.exhausted h0)
  refine ⟨hp.lt, fun h0 id hid => ?_, fun h0 => hp.exhausted (h.exhausted h0), h.increasing⟩
  have hold : id ∈ seen ++ returned → id < next' :=
    fun hid => (h.past (hne h0) id hid).trans_le (hp.le h0)
  simp only [mem_append] at hid hold
  rcases hid with (hid | hid) | hid
  · exact hold (Or.inl hid)
  · exact hp.ids_lt h0 id hid
  · exact hold (Or.inr hid)

theorem IdInv.returns {s : OmDualSlab} (h : IdInv s.nextOrderId returned seen) :
    IdInv (omSlabNextOrderId s).2.nextOrderId (returned ++ [(omSlabNextOrderId s).1]) seen := by
  unfold omSlabNextOrderId
  split
  next h0 =>
    refine ⟨h.lt, fun hne => absurd h0 hne, fun _ => h0, ?_⟩
    rw [filter_append]
    simpa using h.increasing
  next h0 =>
    have hmod : (s.nextOrderId + 1) % 2 ^ 32 ≠ 0 → (s.nextOrderId + 1) % 2 ^ 32 =
        s.nextOrderId + 1 := by
      have := h.lt
      omega
    refine ⟨Nat.mod_lt _ (by decide), fun hne id hid => ?_, fun hzero => ?_, ?_⟩
    · dsimp only at hne ⊢
      rw [hmod hne]
      simp only [mem_append, mem_singleton] at hid
      rcases hid with hid | hid | hid
      · exact (h.past h0 id (by simp [hid])).trans (Nat.lt_succ_self _)
      · exact (h.past h0 id (by simp [hid])).trans (Nat.lt_succ_self _)
      · omega
    · simp only [mem_append, mem_singleton] at hzero
      rcases hzero with hzero | hzero
      · exact absurd (h.exhausted hzero) h0
      · exact absurd hzero.symm h0
    · rw [filter_append, pairwise_append]
      refine ⟨h.increasing, ?_, fun a ha b hb => ?_⟩
      · simp [h0]
      · simp only [mem_filter, mem_singleton] at ha hb
        rw [hb.1]
        exact h.past h0 a (by simp [ha.1])

theorem IdRun.inv {K : Kavl} {start s : EngineState}
    (h : IdRun K WalReplayRecord.Narrow start s returned seen) (hstart : start.book.nextId = 1) :
    IdInv s.book.nextId returned seen := by
  induction h with
  | start =>
    rw [hstart]
    exact ⟨by decide, by simp, by simp, by simp⟩
  | @recover s returned seen records failure _ hnarrow ih =>
    have hnext : ({ s.book with wal := none } : OmOrderbookContext).nextId < 2 ^ 32 := ih.lt
    obtain ⟨hsome, hall⟩ :=
      passes_recoverLoop (K := K) failure ⟨0, 0, 0, 0, 0, 0⟩ hnarrow hnext
    split
    next hok => exact ih.passes (hall hok)
    next =>
      have hkept := ih.passes hsome
      rwa [append_nil] at hkept
  | nextId _ ih => exact ih.returns
  | engine op _ ih =>
    rw [nextId_engineStep]
    exact ih

end Run

/-- While the ids of every recovered log have 32 bits, an id that `om_slab_next_order_id` returns
is above all ids recovered and returned before, and once the ids are used up it returns zero. -/
theorem order_ids_fresh {K : Kavl} {config : OmSlabConfig} {wal : Option OmWalHandle}
    {maxProducts maxOrg : Nat} {ctx : OmOrderbookContext} {callbacks : OmEngineCallbacks}
    {s : EngineState} {returned seen : List Nat}
    (hinit : omOrderbookInit config wal maxProducts maxOrg = (.ok, some ctx))
    (h : IdRun K WalReplayRecord.Narrow (.start ctx callbacks) s returned seen) :
    ((omSlabNextOrderId s.book.slab).1 ≠ 0 →
      ∀ id ∈ seen ++ returned, id < (omSlabNextOrderId s.book.slab).1) ∧
    (returned.filter (· ≠ 0)).Pairwise (· < ·) ∧
    (2 ^ 32 - 1 ∈ seen ++ returned ∨ 0 ∈ returned → (omSlabNextOrderId s.book.slab).1 = 0) := by
  obtain ⟨h0, rfl⟩ := omOrderbookInit_ok hinit
  have hinv := h.inv (omSlabInit_spec h0).2.nextOrderId
  have hfirst : (omSlabNextOrderId s.book.slab).1 = s.book.nextId := by
    unfold omSlabNextOrderId
    split
    next hzero => exact hzero.symm
    next => rfl
  rw [hfirst]
  refine ⟨hinv.past, hinv.increasing, fun hused => ?_⟩
  rcases hused with hmax | hzero
  · by_contra hne
    have := hinv.past hne _ hmax
    have := hinv.lt
    omega
  · exact hinv.exhausted hzero

def loggedBid (seq id : Nat) : WalReplayRecord where
  type := walTypeInsert
  seq := seq
  data := insertPayload
    { orderId := id, price := 10, volume := 1, volRemain := 1, org := 0, flags := omSideBid
      productId := 0, userDataSize := 0, auxDataSize := 0, timestampNs := 0, userData := []
      auxData := [] }

def recoveredBook (records : List WalReplayRecord) : OmOrderbookContext :=
  (omOrderbookRecoverFromWal plainOps smallEngine.book records none).2.1

theorem order_ids_fresh_small :
    (omOrderbookRecoverFromWal plainOps smallEngine.book [loggedBid 1 10] none).1 = .ok ∧
    (omSlabNextOrderId (recoveredBook [loggedBid 1 10]).slab).1 = 11 ∧
    ∀ id ∈ [10], id < (omSlabNextOrderId (recoveredBook [loggedBid 1 10]).slab).1 := by
  have hok : (omOrderbookRecoverFromWal plainOps smallEngine.book
      [loggedBid 1 10] none).1 = .ok := by decide +kernel
  have hids : [loggedBid 1 10].flatMap orderIds = [10] := by decide +kernel
  have hnarrow : ∀ r ∈ [loggedBid 1 10], r.Narrow := by
    intro r hr id hid
    have hid' := hids ▸ mem_flatMap.mpr ⟨r, hr, hid⟩
    rw [mem_singleton.mp hid']
    decide
  have hrun : IdRun plainOps WalReplayRecord.Narrow smallEngine
      (smallEngine.setBook (recoveredBook [loggedBid 1 10])) [] [10] := by
    have hrecover : IdRun plainOps WalReplayRecord.Narrow smallEngine _ [] _ :=
      .recover [loggedBid 1 10] none .start hnarrow
    rw [if_pos hok, hids] at hrecover
    exact hrecover
  have hnext : (omSlabNextOrderId (recoveredBook [loggedBid 1 10]).slab).1 = 11 := by
    decide +kernel
  refine ⟨hok, hnext, ?_⟩
  exact (order_ids_fresh smallEngine_init hrun).1 (hnext.trans_ne (by decide))

/-- An accepted log brings the counter back below an id that it holds itself. -/
theorem order_id_behind :
    ∃ s seen, IdRun plainOps (fun _ => True) smallEngine s [] seen ∧ 10 ∈ seen ∧
      (omSlabNextOrderId s.book.slab).1 = 5 := by
  have hok : (omOrderbookRecoverFromWal plainOps smallEngine.book
      [loggedBid 1 10, loggedBid 2 (2 ^ 32 + 4)] none).1 = .ok := by decide +kernel
  have hids : [loggedBid 1 10, loggedBid 2 (2 ^ 32 + 4)].flatMap orderIds =
      [10, 2 ^ 32 + 4] := by decide +kernel
  refine ⟨smallEngine.setBook (recoveredBook [loggedBid 1 10, loggedBid 2 (2 ^ 32 + 4)]),
    [10, 2 ^ 32 + 4], ?_, by simp, by decide +kernel⟩
  have hrecover : IdRun plainOps (fun _ => True) smallEngine _ [] _ :=
    .recover [loggedBid 1 10, loggedBid 2 (2 ^ 32 + 4)] none .start (by simp)
  rw [if_pos hok, hids] at hrecover
  exact hrecover

end VeloxMatch
