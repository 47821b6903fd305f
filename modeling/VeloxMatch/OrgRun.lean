import VeloxMatch.OrgQueue
import VeloxMatch.Representation

namespace VeloxMatch

open OmDualSlab

def HeadsOrgQueue (ctx : OmOrderbookContext) (p x : Nat) : Prop :=
  ctx.orgHeads (orgIdx ctx p (ctx.slab.order x).org) = some x

instance (ctx : OmOrderbookContext) (p x : Nat) : Decidable (HeadsOrgQueue ctx p x) :=
  inferInstanceAs (Decidable (_ = _))

section Specs

variable {K : Kavl} {ctx ctx' c : OmOrderbookContext} {levels : Levels} {free : List Nat}
  {queues : Nat → Nat → List Nat} {x p id : Nat} {b : Bool} {touched : Nat → Prop}

theorem OrgInv.links_valid (h : OrgInv ctx levels queues) (hinv : BookInv ctx levels free)
    (hx : x ∈ queueOf (levels p b)) :
    (∀ y, ctx.slab.prev .orgQueue x = some y → y < ctx.slab.capacity) ∧
      ∀ y, ctx.slab.next .orgQueue x = some y → y < ctx.slab.capacity := by
  obtain ⟨a, d, hsplit⟩ := List.append_of_mem (h.mem.mpr ⟨b, hx, rfl⟩)
  have hchain := h.chain p (ctx.slab.order x).org
  rw [hsplit] at hchain
  obtain ⟨hprev, hnext⟩ := hchain.links_of_split
  constructor
  · intro y hy
    rw [hprev] at hy
    exact h.lt_capacity hinv (hsplit ▸ List.mem_append_left _ (back_none_mem hy))
  · intro y hy
    rw [hnext] at hy
    exact h.lt_capacity hinv
      (hsplit ▸ List.mem_append_right _ (List.mem_cons_of_mem _ (front_mem hy)))

theorem unlinkFromOrg_unlinked (hp : ∀ y, c.slab.prev .orgQueue x = some y → y < c.slab.capacity)
    (hn : ∀ y, c.slab.next .orgQueue x = some y → y < c.slab.capacity)
    (hhead : ¬ HeadsOrgQueue c p x) : OrgUnlinked c (unlinkFromOrg c x) p x where
  heads := fun i => by
    rw [if_neg]
    · rfl
    · rintro ⟨rfl, he⟩
      exact hhead he
  next := fun j hj => by
    change (omQueueUnlink c.slab x .orgQueue).next .orgQueue j = _
    rw [next_omQueueUnlink hp, if_neg hj]
  prev := fun j hj => by
    change (omQueueUnlink c.slab x .orgQueue).prev .orgQueue j = _
    rw [prev_omQueueUnlink hn, if_neg hj]
  org := fun j => by rw [(unlinkFromOrg_frame c x).order]
  maxProducts := rfl
  maxOrg := rfl

theorem advanceOrgHead_unlinked (hp : ∀ y, c.slab.prev .orgQueue x = some y → y < c.slab.capacity)
    (hn : ∀ y, c.slab.next .orgQueue x = some y → y < c.slab.capacity)
    (hproduct : p < c.maxProducts) (horg : (c.slab.order x).org < c.maxOrg) :
    OrgUnlinked c (unlinkFromOrg (advanceOrgHead c p x) x) p x := by
  by_cases hhead : HeadsOrgQueue c p x
  · have hadv : advanceOrgHead c p x = { c with
        orgHeads := Function.update c.orgHeads (orgIdx c p (c.slab.order x).org)
          (c.slab.next .orgQueue x) } := by
      have hin : p < c.maxProducts ∧ (c.order x).org < c.maxOrg := ⟨hproduct, horg⟩
      simp only [advanceOrgHead, if_pos hin]
      exact if_pos hhead
    rw [hadv]
    refine ⟨fun i => ?_, fun j hj => ?_, fun j hj => ?_, fun j => ?_, rfl, rfl⟩
    · by_cases hi : i = orgIdx c p (c.slab.order x).org
      · subst hi
        rw [if_pos ⟨rfl, hhead⟩]
        exact Function.update_self ..
      · rw [if_neg fun h => hi h.1]
        exact Function.update_of_ne hi ..
    · change (omQueueUnlink c.slab x .orgQueue).next .orgQueue j = _
      rw [next_omQueueUnlink hp, if_neg hj]
    · change (omQueueUnlink c.slab x .orgQueue).prev .orgQueue j = _
      rw [prev_omQueueUnlink hn, if_neg hj]
    · exact congrArg OmOrderFields.org (order_omQueueUnlink j)
  · have hadv : advanceOrgHead c p x = c := by
      simp only [advanceOrgHead]
      split
      next => exact if_neg hhead
      next => rfl
    rw [hadv]
    exact unlinkFromOrg_unlinked hp hn hhead

theorem LevelFrame.orgUnlinked (hf : LevelFrame ctx c p b touched)
    (hu : OrgUnlinked c ctx' p x) : OrgUnlinked ctx ctx' p x := by
  have hnext : ∀ j, c.slab.next .orgQueue j = ctx.slab.next .orgQueue j :=
    fun j => hf.next _ j (by simp)
  have hprev : ∀ j, c.slab.prev .orgQueue j = ctx.slab.prev .orgQueue j :=
    fun j => hf.prev _ j (by simp)
  refine ⟨fun i => ?_, fun j hj => ?_, fun j hj => ?_, fun j => ?_, ?_, ?_⟩
  · rw [hu.heads, orgIdx_congr hf.maxOrg, hf.order, hf.orgHeads, hnext]
  · rw [hu.next j hj, hprev, hnext, hnext]
  · rw [hu.prev j hj, hprev, hprev, hnext]
  · rw [hu.org, hf.order]
  · rw [hu.maxProducts, hf.maxProducts]
  · rw [hu.maxOrg, hf.maxOrg]

theorem OrgUnlinked.release (hu : OrgUnlinked ctx c p x) (id : Nat) :
    OrgUnlinked ctx (releaseOrder c id x) p x where
  heads := hu.heads
  next := fun j hj => ((omSlabFree_spec c.slab x).next_same _ j hj).trans (hu.next j hj)
  prev := fun j hj => ((omSlabFree_spec c.slab x).prev_same _ j hj).trans (hu.prev j hj)
  org := fun j => by
    change ((omSlabFree c.slab x).order j).org = _
    rw [(omSlabFree_spec c.slab x).order_same, hu.org]
  maxProducts := hu.maxProducts
  maxOrg := hu.maxOrg

theorem omOrderbookRemoveSlot_org (ho : OrgInv ctx levels queues) (h : BookInv ctx levels free)
    (hx : x ∈ queueOf (levels p b)) (hhead : ¬ HeadsOrgQueue ctx p x)
    (hrun : omOrderbookRemoveSlot K ctx p x = (true, ctx')) : OrgUnlinked ctx ctx' p x := by
  obtain ⟨c, hlevel, -, hframe, -, -⟩ := h.unlinkLevel K hx
  simp only [omOrderbookRemoveSlot, hlevel] at hrun
  cases hrun
  obtain ⟨hp, hn⟩ := ho.links_valid h hx
  refine hframe.orgUnlinked (OrgUnlinked.release (unlinkFromOrg_unlinked ?_ ?_ ?_) _)
  · rw [hframe.prev _ x (by simp), hframe.store.capacity]
    exact hp
  · rw [hframe.next _ x (by simp), hframe.store.capacity]
    exact hn
  · rw [HeadsOrgQueue, hframe.orgHeads, orgIdx_congr hframe.maxOrg, hframe.order]
    exact hhead

theorem unlinkLevel_org (ho : OrgInv ctx levels queues) (h : BookInv ctx levels free)
    (hx : x ∈ queueOf (levels p b)) (hlevel : unlinkFromLevel K ctx p x = some c) :
    OrgUnlinked ctx (unlinkFromOrg (advanceOrgHead c p x) x) p x := by
  obtain ⟨c', hrun, -, hframe, -, -⟩ := h.unlinkLevel K hx
  cases hlevel.symm.trans hrun
  obtain ⟨hp, hn⟩ := ho.links_valid h hx
  obtain ⟨hproduct, horg⟩ := ho.inRange hx
  refine hframe.orgUnlinked (advanceOrgHead_unlinked ?_ ?_ ?_ ?_)
  · rw [hframe.prev _ x (by simp), hframe.store.capacity]
    exact hp
  · rw [hframe.next _ x (by simp), hframe.store.capacity]
    exact hn
  · rw [hframe.maxProducts]
    exact hproduct
  · rw [hframe.maxOrg, hframe.order]
    exact horg

theorem OrgInv.setWal (h : OrgInv ctx levels queues) (w : Option OmWalHandle) :
    OrgInv { ctx with wal := w } levels queues :=
  h.frame rfl rfl rfl fun _ => ⟨rfl, rfl, rfl⟩

theorem OrgUnlinked.of_setWal {w : Option OmWalHandle}
    (h : OrgUnlinked { ctx with wal := w } ctx' p x) : OrgUnlinked ctx ctx' p x :=
  ⟨h.heads, h.next, h.prev, h.org, h.maxProducts, h.maxOrg⟩

theorem omOrderbookCancel_org (ho : OrgInv ctx levels queues) (h : BookInv ctx levels free)
    (hx : x ∈ queueOf (levels p b))
    (hrun : omOrderbookCancel K ctx (ctx.slab.order x).orderId = (true, ctx')) :
    OrgUnlinked ctx ctx' p x := by
  obtain ⟨w, c, hlevel, rfl⟩ := omOrderbookCancel_accepted K h hx hrun
  exact ((unlinkLevel_org (ho.setWal w) (h.setWal w) hx hlevel).release _).of_setWal

theorem omOrderbookUnlinkSlot_org (ho : OrgInv ctx levels queues) (h : BookInv ctx levels free)
    (hx : x ∈ queueOf (levels p b)) (hrun : omOrderbookUnlinkSlot K ctx p x = (true, ctx')) :
    OrgUnlinked ctx ctx' p x := by
  obtain ⟨c, hlevel, -⟩ := h.unlinkLevel K hx
  simp only [omOrderbookUnlinkSlot, hlevel] at hrun
  cases hrun
  exact unlinkLevel_org ho h hx hlevel

theorem linkIntoOrg_linked (hproduct : p < c.maxProducts) (horg : (c.slab.order x).org < c.maxOrg)
    (hfirst : ∀ head, c.orgHeads (orgIdx c p (c.slab.order x).org) = some head →
      c.slab.prev .orgQueue head = none ∧ head ≠ x) : OrgLinked c (linkIntoOrg c p x) p x := by
  have hin : p < c.maxProducts ∧ (c.order x).org < c.maxOrg := ⟨hproduct, horg⟩
  have hidx : orgIdx c p (c.order x).org = orgIdx c p (c.slab.order x).org := rfl
  simp only [linkIntoOrg, if_pos hin, hidx]
  cases hhead : c.orgHeads (orgIdx c p (c.slab.order x).org) with
  | none =>
    refine ⟨rfl, fun j => ?_, fun j => ?_, fun j => ?_, rfl, rfl⟩
    · simp [hhead]
    · simp [hhead]
    · simp
  | some head =>
    obtain ⟨hprev, hne⟩ := hfirst head hhead
    refine ⟨rfl, fun j => ?_, fun j => ?_, fun j => ?_, rfl, rfl⟩
    · rw [hhead, next_omQueueLinkBefore (by simp [hprev]), hprev]
      simp
    · rw [hhead, prev_omQueueLinkBefore, hprev]
      by_cases hj : j = x
      · simp [hj, hne.symm]
      · by_cases hjh : j = head
        · simp [hjh, hne]
        · have hh : ¬ head = j := fun he => hjh he.symm
          simp [hj, hjh, hh]
    · exact congrArg OmOrderFields.org ((omQueueLinkBefore_links c.slab head x .orgQueue).order j)

theorem LevelFrame.orgLinked (hf : LevelFrame ctx c p b touched)
    (hl : OrgLinked c ctx' p x) : OrgLinked ctx ctx' p x := by
  have hhead : c.orgHeads (orgIdx c p (c.slab.order x).org) =
      ctx.orgHeads (orgIdx ctx p (ctx.slab.order x).org) := by
    rw [hf.orgHeads, orgIdx_congr hf.maxOrg, hf.order]
  refine ⟨?_, fun j => ?_, fun j => ?_, fun j => ?_, ?_, ?_⟩
  · rw [hl.heads, orgIdx_congr hf.maxOrg, hf.order, hf.orgHeads]
  · rw [hl.next, hhead, hf.next _ j (by simp)]
  · rw [hl.prev, hhead, hf.prev _ j (by simp)]
  · rw [hl.org, hf.order]
  · rw [hl.maxProducts, hf.maxProducts]
  · rw [hl.maxOrg, hf.maxOrg]

theorem OrgInv.head_first {o head : Nat} (ho : OrgInv ctx levels queues)
    (h : BookInv ctx levels free) (hx : Unbooked ctx x) (hp : p < ctx.maxProducts)
    (hor : o < ctx.maxOrg) (hhead : ctx.orgHeads (orgIdx ctx p o) = some head) :
    ctx.slab.prev .orgQueue head = none ∧ head ≠ x := by
  have hchain := ho.chain p o
  rw [ho.heads p o hp hor] at hhead
  have hmem := front_mem hhead
  cases hq : queues p o with
  | nil => simp [hq] at hhead
  | cons y l =>
    rw [hq] at hchain hhead
    cases hhead
    refine ⟨hchain.1, fun he => ?_⟩
    obtain ⟨b, hb⟩ := ho.resting hmem
    exact h.not_resting hx p b (he ▸ hb)

theorem omOrderbookInsert_org (ho : OrgInv ctx levels queues) (h : BookInv ctx levels free)
    (hx : Unbooked ctx x) (hfree : x ∉ free) (hcap : x < ctx.slab.capacity)
    (hact : ¬ Deactivated ctx x) (hrun : omOrderbookInsert K ctx p x = (.ok, ctx')) :
    OrgLinked ctx ctx' p x := by
  obtain ⟨⟨hp, hor, h0, hid⟩, w, -, rfl⟩ := omOrderbookInsert_accepted hrun
  have hframe : LevelFrame (withEntry { ctx with wal := w } p x) _ p _ _ :=
    ((h.setWal w).linkLevel K hx hfree hcap hact hid).2
  have hlinked : OrgLinked (withEntry { ctx with wal := w } p x)
      (linkIntoOrg (linkIntoLevel K (withEntry { ctx with wal := w } p x) p x) p x) p x := by
    refine hframe.orgLinked (linkIntoOrg_linked ?_ ?_ fun head hhead => ?_)
    · rw [hframe.maxProducts]
      exact hp
    · rw [hframe.maxOrg, hframe.order]
      exact hor
    · rw [hframe.orgHeads, orgIdx_congr hframe.maxOrg, hframe.order] at hhead
      rw [hframe.prev _ head (by simp)]
      exact ho.head_first h hx hp hor hhead
  exact ⟨hlinked.heads, hlinked.next, hlinked.prev, hlinked.org, hlinked.maxProducts,
    hlinked.maxOrg⟩

end Specs

variable (s : EngineState)

/-- The order that `om_orderbook_remove_slot` takes out next, and its product. -/
def removedNext (op : Op) : Option (Nat × Nat) :=
  match s.call, op with
  | some (.matching f _), _ => f.pc.pending.map (f.productId, ·)
  | none, .cancel id => (s.book.orderHashmap id).bind fun entry =>
      if (s.book.log fun w => omWalCancel w id entry.slotIdx entry.productId).1 then
        some (entry.productId, entry.slotIdx)
      else none
  | _, _ => none

/-- No order that heads its organisation's queue is taken out by `om_orderbook_remove_slot`. -/
def KeepsOrgHeads (op : Op) : Prop :=
  ∀ r ∈ removedNext s op, ¬ HeadsOrgQueue s.book r.1 r.2

instance (op : Op) : Decidable (KeepsOrgHeads s op) :=
  inferInstanceAs (Decidable (∀ r ∈ removedNext s op, ¬ _))

def LiveCancel : Op → Prop
  | .cancel id => ∀ entry ∈ s.book.orderHashmap id, ¬ Deactivated s.book entry.slotIdx
  | .bookCancel id => ∀ entry ∈ s.book.orderHashmap id, ¬ Deactivated s.book entry.slotIdx
  | _ => True

instance (op : Op) : Decidable (LiveCancel s op) := by
  induction op using Op.casesOn <;> dsimp only [LiveCancel] <;> infer_instance

def OrgOk (op : Op) : Prop :=
  ClientOk s op ∧ LiveCancel s op ∧ KeepsOrgHeads s op

instance (op : Op) : Decidable (OrgOk s op) :=
  inferInstanceAs (Decidable (_ ∧ _ ∧ _))

section Run

variable {K : Kavl} {op : Op} {s s' : EngineState} {levels levels' : Levels} {free free' : List Nat}
  {queues : Nat → Nat → List Nat} {ctx ctx' : OmOrderbookContext} {p x maker : Nat} {f : MatchFrame}
  {b : Bool} {call : Option Call} {v : View}

theorem LiveCancel.loneCancel (h : LiveCancel s op) : LoneCancel s op := by
  cases op with
  | cancel | bookCancel => exact fun entry hentry hd => absurd hd (h entry hentry)
  | alloc | release | write | submit | insert | deactivate | activate | cancelProductSide
  | cancelProduct | tick => trivial

theorem OrgOk.opOk (h : OrgOk s op) : OpOk s op := ⟨h.1, h.2.1.loneCancel⟩

theorem LiveCancel.not_dead {id : Nat} (h : LiveCancel s op) (hop : op.Cancels id)
    (hentry : s.book.orderHashmap id = some ⟨x, p⟩) : ¬ Deactivated s.book x := by
  rcases hop with rfl | rfl
  · exact h ⟨x, p⟩ hentry
  · exact h ⟨x, p⟩ hentry

theorem OrgUnlinked.setStatus {c : OmOrderbookContext} {i : Nat} {status : UInt16}
    (h : OrgUnlinked ctx c p x) : OrgUnlinked ctx (setStatus c i status) p x where
  heads := h.heads
  next := fun j hj => (next_setOrder ..).trans (h.next j hj)
  prev := fun j hj => (prev_setOrder ..).trans (h.prev j hj)
  org := fun j => (org_setStatus c i status j).trans (h.org j)
  maxProducts := h.maxProducts
  maxOrg := h.maxOrg

theorem OrgInv.setStatus (h : OrgInv ctx levels queues) (i : Nat)
    (status : UInt16) : OrgInv (setStatus ctx i status) levels queues :=
  h.frame rfl rfl rfl fun {_ _ j} _ =>
    ⟨next_setOrder .., prev_setOrder .., org_setStatus ctx i status j⟩

theorem OrgInv.withoutEntry (h : OrgInv ctx levels queues) (w : Option OmWalHandle) (id : Nat) :
    OrgInv (withoutEntry { ctx with wal := w } id) levels queues :=
  h.frame rfl rfl rfl fun _ => ⟨rfl, rfl, rfl⟩

theorem SameBook.orgHeads (h : SameBook ctx ctx') : ctx'.orgHeads = ctx.orgHeads := by rw [h.rest]

theorem OrgInv.sameBook (h : OrgInv ctx levels queues)
    (hs : SameBook ctx ctx') : OrgInv ctx' levels queues :=
  h.frame hs.orgHeads hs.maxProducts hs.maxOrg fun {_ _ i} _ => ⟨hs.next _ i, hs.prev _ i, hs.org i⟩

theorem MatchInv.pending_resting {e : OmEngine} (h : MatchInv e f levels free)
    (hp : f.pc.pending = some maker) : maker ∈ queueOf (levels f.productId (!f.takerIsBid)) := by
  obtain ⟨pre, visited, todo, post, hpos, -⟩ := h.standing
  cases hpc : f.pc with
  | remove levelPrice nextLevelIdx m nextMakerIdx both =>
    rw [hpc] at hpos hp
    cases hp
    obtain ⟨hcur, -, todo', rfl, -⟩ := hpos
    exact hcur.mem_queueOf (by simp)
  | levels | scan | makers | book =>
    rw [hpc] at hp
    cases hp

theorem EngineInv.pending_not_head {activating : Bool} (h : EngineInv s levels free)
    (hop : KeepsOrgHeads s op) (hcall : s.call = some (.matching f activating))
    (hm : maker ∈ queueOf (levels p b))
    (hp : s.view.pending = some maker) : ¬ HeadsOrgQueue s.book p maker := by
  rw [EngineInv.pending_eq hcall] at hp
  have hproduct := (h.book.disjoint ((h.matching hcall).1.pending_resting hp) hm).1
  have hnext : removedNext s op = some (f.productId, maker) := by
    simp only [removedNext, hcall, hp, Option.map_some]
  rw [← hproduct]
  exact hop _ hnext

theorem EngineInv.cancel_not_head {w : Option OmWalHandle} (h : EngineInv s levels free)
    (hop : KeepsOrgHeads s (.cancel (s.book.slab.order x).orderId)) (hcall : s.call = none)
    (hx : x ∈ queueOf (levels p b))
    (hlog : Appended s.book.wal w
      (fun h => .cancel ⟨(s.book.slab.order x).orderId, h.now, x, p⟩)) :
    ¬ HeadsOrgQueue s.book p x := by
  have hacc : (s.book.log fun w => omWalCancel w (s.book.slab.order x).orderId x p).1 = true :=
    hlog.log
  have hnext : removedNext s (.cancel (s.book.slab.order x).orderId) = some (p, x) := by
    simp only [removedNext, hcall, (h.book.resting hx).1, Option.bind_some, hacc, ↓reduceIte]
  exact hop _ hnext

theorem Effect.orgInv (he : Effect K op s levels free call v levels' free')
    (hinv : EngineInv s levels free) (hop : OrgOk s op)
    (hwrap : s.book.maxProducts * s.book.maxOrg < 2 ^ 32) (h : OrgInv s.book levels queues) :
    ∃ queues', OrgInv v.book levels' queues' := by
  obtain ⟨-, hlive, hheads⟩ := hop
  cases he with
  | quiet | submit | empty | note =>
    exact ⟨queues, h.frame rfl rfl rfl fun _ => ⟨rfl, rfl, rfl⟩⟩
  | @alloc x rest slab hx hspec =>
    refine ⟨queues, h.frame rfl rfl rfl fun {_ _ i} hi => ?_⟩
    have hne : i ≠ x := fun he => (hinv.resting_not_spare hi).1 (by simp [hx, he])
    exact ⟨hspec.next_same _ i hne, hspec.prev_same _ i hne, by rw [hspec.order_same i hne]⟩
  | @release x hun =>
    refine ⟨queues, h.frame rfl rfl rfl fun {p b i} hi => ?_⟩
    have hne : i ≠ x := fun he => hinv.book.not_resting hun p b (he ▸ hi)
    have hspec := omSlabFree_spec s.book.slab x
    exact ⟨hspec.next_same _ i hne, hspec.prev_same _ i hne, by rw [hspec.order_same i]⟩
  | @write x order hx =>
    refine ⟨queues, h.frame rfl rfl rfl fun {_ _ i} hi =>
      ⟨next_setOrder .., prev_setOrder .., ?_⟩⟩
    have hne : i ≠ x := fun he => (hinv.resting_not_spare hi).2 (he ▸ hx)
    change ((s.book.slab.setOrder x order.order).order i).org = _
    simp [hne]
  | reduce =>
    exact ⟨queues, (h.sameBook (SameBook.setWal _ _)).sameBook
      ((withVolume_sameBook _ _ _).trans (withVolume_sameBook _ _ _))⟩
  | @remove f _ p maker b ctx both hcall hm hpending hrun hleft =>
    have hu := omOrderbookRemoveSlot_org h hinv.book hm
      (hinv.pending_not_head hheads hcall hm hpending) hrun
    have hctx := h.leave hinv.book hwrap hm hu
    cases both
    · exact ⟨_, hctx⟩
    · exact ⟨_, hctx.sameBook (withVolume_sameBook _ _ _)⟩
  | place hun hnot hlt hact _ hrun hbooked =>
    have hl := omOrderbookInsert_org h hinv.book hun hnot hlt hact hrun
    exact ⟨_, h.join hinv.book hwrap hun hbooked.product hbooked.org hl⟩
  | @cancel p x b w ctx hm _ hlog hrun hleft =>
    have hu : OrgUnlinked s.book ctx p x := by
      rcases hrun with ⟨hcall, rfl, hrun⟩ | hrun
      · exact (omOrderbookRemoveSlot_org (h.setWal w) (hinv.book.setWal w) hm
          (hinv.cancel_not_head hheads hcall hm hlog) hrun).of_setWal
      · exact omOrderbookCancel_org h hinv.book hm hrun
    exact ⟨_, h.leave hinv.book hwrap hm hu⟩
  | @park p x b w ctx hm _ _ hrun =>
    have hu := (omOrderbookUnlinkSlot_org (h.setWal w) (hinv.book.setWal w) hm hrun).of_setWal
    exact ⟨_, h.leave hinv.book hwrap hm hu.setStatus⟩
  | @unpark id p x w =>
    exact ⟨queues, (h.withoutEntry w id).setStatus x omStatusNew⟩
  | @unparkUsed id p x w ctx hentry hd _ hctx =>
    rw [hctx]
    refine ⟨queues, ((h.withoutEntry w id).setStatus x omStatusNew).frame rfl rfl rfl
      fun {p b i} hi => ?_⟩
    have hne : i ≠ x := fun he => (hinv.book.resting hi).2 (he ▸ hd)
    have hspec := omSlabFree_spec (setStatus (withoutEntry { s.book with wal := w } id) x
      omStatusNew).slab x
    exact ⟨hspec.next_same _ i hne, hspec.prev_same _ i hne, by rw [hspec.order_same i]⟩
  | noteDead hc hentry hd | cancelDead hc hentry hd => exact absurd hd (hlive.not_dead hc hentry)

/-- In a run that takes no head of an organisation queue out by `om_orderbook_remove_slot`,
the organisation queues hold exactly the resting orders. -/
theorem Reach.orgInv {config : OmSlabConfig} {wal : Option OmWalHandle} {maxProducts maxOrg : Nat}
    {callbacks : OmEngineCallbacks}
    (hinit : omOrderbookInit config wal maxProducts maxOrg = (.ok, some ctx))
    (hwrap : maxProducts * maxOrg < 2 ^ 32) (h : Reach K OrgOk (.start ctx callbacks) s) :
    s.book.maxProducts = maxProducts ∧ s.book.maxOrg = maxOrg ∧
      ∃ levels free queues, BookInv s.book levels free ∧ OrgInv s.book levels queues := by
  have hstart : OrgInv (freshBook (freshSlab config) wal maxProducts maxOrg) (fun _ _ => [])
      (fun _ _ => []) := by
    refine ⟨fun p o hp ho => ?_, fun _ _ => trivial, fun _ _ => List.nodup_nil, by simp [queueOf],
      by simp [queueOf]⟩
    rw [orgIdx_eq hwrap hp ho]
    exact if_pos (by rw [Nat.mod_eq_of_lt hwrap]; exact org_index_lt hp ho)
  obtain ⟨levels, free, hinv, hp, ho, queues, hq⟩ := Reach.effects
    (Q := fun s levels _ => s.book.maxProducts = maxProducts ∧ s.book.maxOrg = maxOrg ∧
      ∃ queues, OrgInv s.book levels queues)
    hinit h (fun _ _ hok => hok.opOk) ⟨rfl, rfl, _, hstart⟩ (by
      rintro s op levels free levels' free' hop hinv _ he ⟨hp, ho, queues, hq⟩
      exact ⟨he.limits.1.trans hp, he.limits.2.trans ho,
        he.orgInv hinv hop (by rw [hp, ho]; exact hwrap) hq⟩)
  exact ⟨hp, ho, levels, free, queues, hinv.book, hq⟩

end Run

end VeloxMatch
