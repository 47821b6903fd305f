import VeloxMatch.NeverCrossed
import VeloxMatch.VolumeLedger

namespace VeloxMatch

open Function Levels

/-- Where the organisation of a level is known, all its orders are of that organisation. -/
def SideKnown (ctx : OmOrderbookContext) (levels : List Level) : Prop :=
  ∀ l ∈ levels, ∀ org, ctx.knownOrg l.head = some org → ∀ i ∈ l.slots, (ctx.slab.order i).org = org

def OrgsKnown (ctx : OmOrderbookContext) (levels : Levels) : Prop :=
  ∀ p b, SideKnown ctx (levels p b)

section Side

variable {ctx c : OmOrderbookContext} {productId x : Nat} {isBid : Bool} {levels : List Level}
  {K : Kavl}

theorem SideKnown.frame (h : SideKnown ctx levels)
    (hknown : ∀ l ∈ levels, c.knownOrg l.head = ctx.knownOrg l.head)
    (horg : ∀ i ∈ queueOf levels, (c.slab.order i).org = (ctx.slab.order i).org) :
    SideKnown c levels := by
  intro l hl org hk i hi
  rw [horg i (mem_queueOf.mpr ⟨l, hl, hi⟩)]
  exact h l hl org ((hknown l hl).symm.trans hk) i hi

theorem knownOrg_promoteNext (ctx : OmOrderbookContext) (productId : Nat) (isBid : Bool)
    (head next : Nat) : (promoteNext K ctx productId isBid head next).knownOrg =
      update ctx.knownOrg next (ctx.knownOrg head) := by
  simp only [promoteNext]
  split <;> simp [pricePromote, priceAdd, priceRemove, OmOrderbookContext.setHead]

theorem knownOrg_removePriceLevel (ctx : OmOrderbookContext) (productId level : Nat)
    (isBid : Bool) : (removePriceLevel K ctx productId level isBid).knownOrg = ctx.knownOrg := by
  simp only [removePriceLevel]
  split <;> rfl

theorem unlinkFromLevel_known (h : ctx.Side productId isBid levels) (hx : x ∈ queueOf levels)
    (hrun : unlinkFromLevel K ctx productId x = some c) (hk : SideKnown ctx levels) :
    SideKnown c (dropFrom x levels) ∧ ∀ j ∉ queueOf levels, c.knownOrg j = ctx.knownOrg j := by
  obtain ⟨c', hrun', -, hframe, -⟩ := unlinkFromLevel_spec K h hx
  cases hrun'.symm.trans hrun
  obtain ⟨⟨head, rest⟩, hl, hxl⟩ := mem_queueOf.mp hx
  have hbid : omIsBid (ctx.slab.order x).flags = isBid := h.side x hx
  simp only [unlinkFromLevel, OmOrderbookContext.order, hbid, findPriceLevel_resting h hl hxl]
    at hrun
  obtain ⟨pre, post, rfl⟩ := List.append_of_mem hl
  have hpre : x ∉ queueOf pre := by
    intro hm
    obtain ⟨m, hm, hxm⟩ := mem_queueOf.mp hm
    exact h.slots_disjoint (List.mem_append_left _ hm) hxm hxl
  -- the levels to both sides of the one that changes
  have hother : ∀ m ∈ pre ++ post, c.knownOrg m.head = ctx.knownOrg m.head → ∀ org,
      c.knownOrg m.head = some org → ∀ i ∈ m.slots, (c.slab.order i).org = org := by
    intro m hm hsame org hm' i hi
    rw [hframe.order]
    refine hk m ?_ org (hsame ▸ hm') i hi
    rcases List.mem_append.mp hm with hm | hm <;> simp [hm]
  rw [dropFrom_append hpre]
  by_cases hhead : x = head
  · subst hhead
    cases rest with
    | nil =>
      have hnext : ctx.slab.next .timeFifo x = none := (h.queues _ hl).2.1
      simp only [hnext, ↓reduceIte, Option.some.injEq] at hrun
      have hknown : c.knownOrg = ctx.knownOrg := hrun ▸ knownOrg_removePriceLevel ..
      refine ⟨fun m hm => hother m ?_ (by rw [hknown]), fun j _ => by rw [hknown]⟩
      simpa only [dropFrom, ↓reduceIte] using hm
    | cons y r =>
      have hnext : ctx.slab.next .timeFifo x = some y := (h.queues _ hl).2.1
      simp only [hnext, ↓reduceIte, Option.some.injEq] at hrun
      have hknown : c.knownOrg = update ctx.knownOrg y (ctx.knownOrg x) :=
        hrun ▸ knownOrg_promoteNext ..
      refine ⟨fun m hm => ?_, fun j hj => ?_⟩
      · simp only [dropFrom, ↓reduceIte] at hm
        rcases List.mem_cons.mp (List.perm_middle.mem_iff.mp hm) with rfl | hm
        · intro org hm' i hi
          rw [hknown, update_self] at hm'
          rw [hframe.order]
          exact hk ⟨x, y :: r⟩ hl org hm' i (List.mem_cons_of_mem x hi)
        · refine hother m hm ?_
          rw [hknown, update_of_ne]
          exact fun he => h.slots_disjoint hm m.head_mem_slots (by simp [Level.slots, he])
      · rw [hknown, update_of_ne]
        rintro rfl
        exact hj (mem_queueOf.mpr ⟨_, hl, by simp [Level.slots]⟩)
  · have hrest : x ∈ rest := (List.mem_cons.mp hxl).resolve_left hhead
    simp only [hhead, ↓reduceIte, Option.some.injEq] at hrun
    have hknown : c.knownOrg = ctx.knownOrg := hrun ▸ rfl
    refine ⟨fun m hm => ?_, fun j _ => by rw [hknown]⟩
    simp only [dropFrom, Ne.symm hhead, hrest, ↓reduceIte] at hm
    rcases List.mem_cons.mp (List.perm_middle.mem_iff.mp hm) with rfl | hm
    · intro org hm' i hi
      rw [hknown] at hm'
      rw [hframe.order]
      refine hk ⟨head, rest⟩ hl org hm' i ?_
      rcases List.mem_cons.mp hi with hi | hi
      · exact List.mem_cons.mpr (Or.inl hi)
      · exact List.mem_cons_of_mem _ (List.mem_of_mem_erase hi)
    · exact hother m hm (by rw [hknown])

theorem knownOrg_insertOrderAt (ctx : OmOrderbookContext) (productId : Nat) (isBid : Bool)
    (order : Nat) (after : Option Nat) :
    (insertOrderAt ctx productId isBid order after).knownOrg = ctx.knownOrg := by
  simp only [insertOrderAt]
  split
  next => split <;> rfl
  next => rfl

theorem knownOrg_linkIntoLevel {head : Nat} (hbid : omIsBid (ctx.slab.order x).flags = isBid)
    (hfind : (findPriceLevelWithInsertionPoint ctx productId (ctx.order x).price isBid).1 =
      some head) :
    (linkIntoLevel K ctx productId x).knownOrg =
      if ctx.knownOrg head ≠ none ∧ ctx.knownOrg head ≠ some (ctx.slab.order x).org then
        update ctx.knownOrg head none
      else ctx.knownOrg := by
  have horder : (appendToTimeQueue ctx head x).order x = ctx.slab.order x := by
    simp [appendToTimeQueue, OmOrderbookContext.order]
  simp only [linkIntoLevel, OmOrderbookContext.order, hbid]
  simp only [OmOrderbookContext.order] at hfind horder
  generalize findPriceLevelWithInsertionPoint ctx productId (ctx.slab.order x).price isBid =
    found at hfind
  obtain ⟨level, after⟩ := found
  cases hfind
  have hsame : (appendToTimeQueue ctx head x).knownOrg = ctx.knownOrg := rfl
  simp only [horder, hsame]
  split <;> rfl

/-- A new level is of its first order's organisation; an order of another one makes the
organisation of a level unknown. -/
theorem linkIntoLevel_known (h : ctx.Side productId isBid levels) (hx : x ∉ queueOf levels)
    (hcap : x < ctx.slab.capacity) (hbid : omIsBid (ctx.slab.order x).flags = isBid)
    (hk : SideKnown ctx levels) :
    SideKnown (linkIntoLevel K ctx productId x)
      (placeInto (fun i => (ctx.slab.order i).price) isBid x levels) ∧
    ∀ j ∉ queueOf levels, j ≠ x → (linkIntoLevel K ctx productId x).knownOrg j = ctx.knownOrg j := by
  have horder := (linkIntoLevel_spec K h hx hcap hbid).2.order
  rcases findPriceLevel_cases h (ctx.order x).price with
    ⟨pre, l, post, rfl, hprice, hfind⟩ | ⟨pre, post, rfl, hpre, hpost, hfind⟩
  · have hbetter : ∀ m ∈ pre, better isBid
        (ctx.slab.order m.head).price (ctx.slab.order x).price :=
      fun m hm => hprice ▸ (List.pairwise_append.mp h.sorted).2.2 m hm l (by simp)
    have hplace : placeInto (fun i => (ctx.slab.order i).price) isBid x (pre ++ l :: post) =
        pre ++ ⟨l.head, l.rest ++ [x]⟩ :: post := placeInto_found hbetter hprice
    have hknown := knownOrg_linkIntoLevel (K := K) hbid hfind
    have hsame : ∀ j, j ≠ l.head → (linkIntoLevel K ctx productId x).knownOrg j = ctx.knownOrg j := by
      intro j hj
      rw [hknown]
      split
      next => exact update_of_ne hj ..
      next => rfl
    rw [hplace]
    refine ⟨fun m hm org hm' i hi => ?_, fun j hj _ => hsame j ?_⟩
    · rw [horder]
      rcases List.mem_cons.mp (List.perm_middle.mem_iff.mp hm) with rfl | hm
      · rw [hknown] at hm'
        split at hm'
        next => simp at hm'
        next hmixed =>
          have hi : i ∈ l.slots ++ [x] := hi
          rcases List.mem_append.mp hi with hi | hi
          · exact hk l (by simp) org hm' i hi
          · obtain rfl := List.mem_singleton.mp hi
            simpa [hm', eq_comm] using hmixed
      · have hne : m.head ≠ l.head := fun he =>
          h.slots_disjoint hm m.head_mem_slots (by simp [Level.slots, he])
        refine hk m ?_ org ((hsame _ hne).symm.trans hm') i hi
        exact List.perm_middle.mem_iff.mpr (List.mem_cons_of_mem _ hm)
    · rintro rfl
      exact hj (head_mem_queueOf (by simp))
  · have hplace : placeInto (fun i => (ctx.slab.order i).price) isBid x (pre ++ post) =
        pre ++ ⟨x, []⟩ :: post := placeInto_absent hpre hpost
    have hxorg : ((insertOrderAt ctx productId isBid x (back none (pre.map Level.head))).order x) =
        ctx.slab.order x := (insertOrderAt_frame (x := x) h).order x
    have hknown : (linkIntoLevel K ctx productId x).knownOrg =
        update ctx.knownOrg x (some (ctx.slab.order x).org) := by
      rw [linkIntoLevel_absent K hbid hfind]
      simp only [priceAdd, hxorg, knownOrg_insertOrderAt]
    rw [hplace]
    refine ⟨fun m hm org hm' i hi => ?_, fun j _ hne => by rw [hknown, update_of_ne hne]⟩
    rw [horder]
    rw [hknown] at hm'
    rcases List.mem_cons.mp (List.perm_middle.mem_iff.mp hm) with rfl | hm
    · obtain rfl := List.mem_singleton.mp hi
      simpa using hm'
    · have hne : m.head ≠ x := fun he => hx (he ▸ head_mem_queueOf hm)
      rw [update_of_ne hne] at hm'
      exact hk m hm org hm' i hi

end Side

section Book

variable {ctx c ctx' : OmOrderbookContext} {p x : Nat} {b : Bool} {levels : Levels}
  {free : List Nat} {K : Kavl}

theorem OrgsKnown.frame (h : OrgsKnown ctx levels)
    (hkept : ∀ q b, ∀ i ∈ queueOf (levels q b), c.knownOrg i = ctx.knownOrg i ∧
      (c.slab.order i).org = (ctx.slab.order i).org) : OrgsKnown c levels :=
  fun q b => (h q b).frame (fun _ hl => (hkept q b _ (head_mem_queueOf hl)).1)
    fun i hi => (hkept q b i hi).2

theorem knownOrg_advanceOrgHead (ctx : OmOrderbookContext) (p x : Nat) :
    (advanceOrgHead ctx p x).knownOrg = ctx.knownOrg := by
  simp only [advanceOrgHead]
  split
  next => split <;> rfl
  next => rfl

theorem knownOrg_linkIntoOrg (ctx : OmOrderbookContext) (p x : Nat) :
    (linkIntoOrg ctx p x).knownOrg = ctx.knownOrg := by
  simp only [linkIntoOrg]
  split <;> rfl

theorem OrgsKnown.setWal (h : OrgsKnown ctx levels) (w : Option OmWalHandle) :
    OrgsKnown { ctx with wal := w } levels := h

variable (h : OrgsKnown ctx levels) (hinv : BookInv ctx levels free)
  (horg : ∀ i, (ctx'.slab.order i).org = (ctx.slab.order i).org)
include h hinv horg

section Leave

variable (hx : x ∈ queueOf (levels p b))
include hx

theorem OrgsKnown.leave (hrun : unlinkFromLevel K ctx p x = some c)
    (hknown : ctx'.knownOrg = c.knownOrg) : OrgsKnown ctx' (levels.drop p b x) := by
  obtain ⟨c', hrun', -, hframe, -⟩ := hinv.unlinkLevel K hx
  cases hrun'.symm.trans hrun
  obtain ⟨hside, hother⟩ := unlinkFromLevel_known (hinv.sides p b) hx hrun (h p b)
  intro q d
  by_cases hpb : q = p ∧ d = b
  · obtain ⟨rfl, rfl⟩ := hpb
    rw [drop, set_self]
    refine hside.frame (fun l _ => by rw [hknown]) fun i _ => ?_
    rw [horg, hframe.order]
  · rw [drop, set_other hpb]
    refine (h q d).frame (fun l hl => ?_) fun i _ => horg i
    rw [hknown]
    exact hother _ fun hm => hpb (hinv.disjoint (head_mem_queueOf hl) hm)

theorem omOrderbookRemoveSlot_known (hrun : omOrderbookRemoveSlot K ctx p x = (true, ctx')) :
    OrgsKnown ctx' (levels.drop p b x) := by
  obtain ⟨c, hlevel, -⟩ := hinv.unlinkLevel K hx
  refine h.leave hinv horg hx hlevel ?_
  simp only [omOrderbookRemoveSlot, hlevel] at hrun
  cases hrun
  rfl

theorem omOrderbookUnlinkSlot_known (hrun : omOrderbookUnlinkSlot K ctx p x = (true, ctx')) :
    OrgsKnown ctx' (levels.drop p b x) := by
  obtain ⟨c, hlevel, -⟩ := hinv.unlinkLevel K hx
  refine h.leave hinv horg hx hlevel ?_
  simp only [omOrderbookUnlinkSlot, hlevel] at hrun
  cases hrun
  exact knownOrg_advanceOrgHead ..

theorem omOrderbookCancel_known
    (hrun : omOrderbookCancel K ctx (ctx.slab.order x).orderId = (true, ctx')) :
    OrgsKnown ctx' (levels.drop p b x) := by
  obtain ⟨w, c, hlevel, rfl⟩ := omOrderbookCancel_accepted K hinv hx hrun
  exact (h.setWal w).leave (hinv.setWal w) horg hx hlevel (knownOrg_advanceOrgHead ..)

end Leave

theorem omOrderbookInsert_known (hx : Unbooked ctx x) (hcap : x < ctx.slab.capacity)
    (hrun : omOrderbookInsert K ctx p x = (.ok, ctx')) : OrgsKnown ctx' (levels.place ctx p x) := by
  obtain ⟨-, w, -, rfl⟩ := omOrderbookInsert_accepted hrun
  have hnot := hinv.not_resting hx
  have hbook : SideShape (withEntry { ctx with wal := w } p x).slab _ _ _ _ :=
    hinv.sides p (omIsBid (ctx.slab.order x).flags)
  obtain ⟨hside, hother⟩ := linkIntoLevel_known (K := K) hbook (hnot p _) hcap rfl
    (h p (omIsBid (ctx.slab.order x).flags))
  have hframe := (linkIntoLevel_spec K hbook (hnot p _) hcap rfl).2
  intro q d
  by_cases hpb : q = p ∧ d = omIsBid (ctx.slab.order x).flags
  · obtain ⟨rfl, rfl⟩ := hpb
    rw [place, set_self]
    refine hside.frame (fun l _ => by rw [knownOrg_linkIntoOrg]) fun i _ => ?_
    rw [horg, hframe.order]
    rfl
  · rw [place, set_other hpb]
    refine (h q d).frame (fun l hl => ?_) fun i _ => horg i
    rw [knownOrg_linkIntoOrg]
    refine hother _ (fun hm => hpb (hinv.disjoint (head_mem_queueOf hl) hm)) fun he => ?_
    exact hnot q d (he ▸ head_mem_queueOf hl)

end Book

/-- A walk along Q2 over orders that meet `P`. -/
inductive Chain (s : OmDualSlab) (P : OmOrderFields → Prop) : Option Nat → Option Nat → Prop where
  | refl (idx : Option Nat) : Chain s P idx idx
  | step {i : Nat} {idx : Option Nat} : i < s.capacity → P (s.order i) →
      Chain s P (s.next .timeFifo i) idx → Chain s P (some i) idx

section Chain

variable {s : OmDualSlab} {P : OmOrderFields → Prop} {idx before : Option Nat} {slots : List Nat}

theorem Chain.snoc {i : Nat} (h : Chain s P idx (some i)) (hi : i < s.capacity)
    (hp : P (s.order i)) : Chain s P idx (s.next .timeFifo i) := by
  generalize hto : some i = stop at h
  induction h with
  | refl => exact hto ▸ .step hi hp (.refl _)
  | step hj hpj _ ih => exact .step hj hpj (ih hto)

theorem Chain.all (hq : DSeg (s.next .timeFifo) (s.prev .timeFifo) before slots none)
    (h : Chain s P (front slots none) none) : ∀ i ∈ slots, P (s.order i) := by
  induction slots generalizing before with
  | nil => simp
  | cons j slots ih =>
    obtain ⟨-, hnext, hq⟩ := hq
    cases h with
    | step _ hp h =>
      intro i hi
      rcases List.mem_cons.mp hi with rfl | hi
      · exact hp
      · exact ih hq (hnext ▸ h) i hi

theorem Chain.of_all (hq : DSeg (s.next .timeFifo) (s.prev .timeFifo) before slots none)
    (hcap : ∀ i ∈ slots, i < s.capacity) (h : ∀ i ∈ slots, P (s.order i)) :
    Chain s P (front slots none) none := by
  induction slots generalizing before with
  | nil => exact .refl _
  | cons j slots ih =>
    obtain ⟨-, hnext, hq⟩ := hq
    refine .step (hcap j (by simp)) (h j (by simp)) ?_
    rw [hnext]
    exact ih hq (fun i hi => hcap i (by simp [hi])) fun i hi => h i (by simp [hi])

end Chain

/-- What `om_orderbook_first_other_org` has passed is of the taker's organisation. -/
def ScanOk (s : EngineState) : Prop :=
  ∀ f activating levelPrice nextLevelIdx head idx, s.call = some (.matching f activating) →
    f.pc = .scan levelPrice nextLevelIdx head idx →
    Chain s.book.slab (fun o => o.org = (s.book.slab.order f.taker).org) (some head) idx

section Run

variable {K : Kavl} {op : Op} {s s' : EngineState} {levels levels' : Levels} {free free' : List Nat}

theorem MatchMove.scan {e e' : OmEngine} {f f' : MatchFrame} {levelPrice head : Nat}
    {nextLevelIdx idx : Option Nat} (h : MatchMove K e f e' (.running f'))
    (hpc : f'.pc = .scan levelPrice nextLevelIdx head idx) :
    OnlyEvents e e' ∧ f'.taker = f.taker ∧ ((∃ i, f.pc = .levels i) ∧ idx = some head ∨
      ∃ i, f.pc = .scan levelPrice nextLevelIdx head (some i) ∧ i < e.slab.capacity ∧
        (e.order i).org = (e.order f.taker).org ∧ idx = e.slab.next .timeFifo i) := by
  generalize hn : MatchNext.running f' = next at h
  cases h with
  | walk hev hw =>
    cases hn
    refine ⟨hev, rfl, ?_⟩
    subst hpc
    generalize hfrom : f.pc = pc at hw
    cases hw with
    | search => exact Or.inl ⟨⟨_, rfl⟩, rfl⟩
    | seek hs horg => exact Or.inr ⟨_, rfl, (omSlotFromIdx_eq_some.mp hs).2, horg, rfl⟩
  | learn | cancelMaker =>
    cases hn
    cases hpc
  | reduce =>
    cases hn
    simp only at hpc
    split at hpc <;> cases hpc
  | remove =>
    unfold removeStep at hn
    split at hn
    all_goals
      cases hn
      cases hpc
  | used | refused | decline | book | bookFailed => cases hn

theorem engineStep_scanOk (h : ScanOk s) : ScanOk (engineStep K s op) := by
  intro f' activating levelPrice nextLevelIdx head idx hcall hpc
  rcases matching_cases hcall with hsame | ⟨f, hf, hmove⟩ | ⟨e, p, x, b, hstart, -⟩
  · rw [hsame] at hcall ⊢
    exact h f' activating _ _ _ _ hcall hpc
  · obtain ⟨⟨v, hev⟩, htaker, hfrom⟩ := hmove.scan hpc
    have hslab : (engineStep K s op).book.slab = s.book.slab := by rw [EngineState.book, hev]; rfl
    rw [hslab, htaker]
    rcases hfrom with ⟨-, rfl⟩ | ⟨i, hpc', hi, horg, rfl⟩
    · exact .refl _
    · exact (h f activating _ _ _ _ hf hpc').snoc hi horg
  · simp only [matchStart] at hstart
    split at hstart
    next => cases hstart
    next =>
      cases hstart
      cases hpc

theorem EngineOk.not_dead {id p x : Nat} (h : EngineOk s op) (hop : op.Cancels id)
    (hentry : s.book.orderHashmap id = some ⟨x, p⟩) : ¬ Deactivated s.book x := by
  rcases hop with rfl | rfl
  · exact h ⟨x, p⟩ hentry
  · exact h.elim

theorem Effect.orgsKnown (he : Effect K op s levels free s'.call s'.view levels' free')
    (hinv : EngineInv s levels free) (hop : EngineOk s op) (hscan : ScanOk s)
    (h : OrgsKnown s.book levels) : OrgsKnown s'.view.book levels' := by
  have horg : ∀ {p b i}, i ∈ queueOf (levels p b) →
      (s'.view.book.slab.order i).org = (s.book.slab.order i).org := fun hi =>
    (he.sameOrder (hinv.resting_not_spare hi).1 (hinv.resting_not_spare hi).2).org
  generalize s'.view = v at he horg ⊢
  cases he with
  | quiet w known _ hlearn =>
    rcases hlearn with rfl | ⟨f, activating, levelPrice, nextLevelIdx, head, hcall, hpc, rfl⟩
    · exact h
    · -- the traversal went from the head of the level to its end
      intro p b l hl org hk i hi
      by_cases hhead : l.head = head
      · subst hhead
        have hchain : Chain s.book.slab (fun o => o.org = (s.book.slab.order f.taker).org)
            (front l.slots none) none := hscan f activating _ _ _ _ hcall hpc
        have hall := hchain.all ((hinv.book.sides p b).queues l hl) i hi
        simp only [Function.update_self, Option.some.injEq] at hk
        exact hall.trans hk
      · simp only [Function.update_of_ne hhead] at hk
        exact h p b l hl org hk i hi
  | alloc | release | write | submit | empty | note | reduce | unpark | noteDead =>
    exact h.frame fun q b i hi => ⟨rfl, horg hi⟩
  | unparkUsed w ctx _ _ _ hctx =>
    refine h.frame fun q b i hi => ⟨?_, horg hi⟩
    rw [hctx]
    rfl
  | @remove f _ p maker b ctx both hcall hm hpending hrun hleft =>
    have hctx := omOrderbookRemoveSlot_known h hinv.book (fun i => by rw [hleft.kept.order]) hm hrun
    cases both with
    | false => exact hctx
    | true =>
      refine hctx.frame fun q b i _ => ⟨rfl, ?_⟩
      exact (withVolume_sameBook ctx f.taker 0).org i
  | place hun _ hlt _ _ hrun hbooked =>
    exact omOrderbookInsert_known h hinv.book (fun i => by rw [hbooked.kept.order]) hun hlt hrun
  | @cancel p x b w ctx hm _ hlog hrun hleft =>
    have hkept : ∀ i, (ctx.slab.order i).org = (s.book.slab.order i).org := fun i => by
      rw [hleft.kept.order]
    rcases hrun with ⟨-, -, hrun⟩ | hrun
    · exact omOrderbookRemoveSlot_known (h.setWal w) (hinv.book.setWal w) hkept hm hrun
    · exact omOrderbookCancel_known h hinv.book hkept hm hrun
  | @park p x b w ctx hm _ _ hrun hkept =>
    have hctx := omOrderbookUnlinkSlot_known (h.setWal w) (hinv.book.setWal w)
      (fun i => by rw [hkept.order]) hm hrun
    exact hctx.frame fun q b i _ => ⟨rfl, org_setStatus ctx x omStatusDeactivated i⟩
  | cancelDead hc hentry hd => exact absurd hd (hop.not_dead hc hentry)

/-- The part of the engine's state that the exclusion of an organisation relies on. -/
structure OrgSound (s : EngineState) (levels : Levels) : Prop where
  known : OrgsKnown s.book levels
  scan : ScanOk s
  stocked : Stocked s

theorem OrgSound.effect (h : OrgSound s levels) (hinv : EngineInv s levels free)
    (hop : EngineOk s op)
    (he : Effect K op s levels free (engineStep K s op).call (engineStep K s op).view levels' free') :
    OrgSound (engineStep K s op) levels' :=
  ⟨he.orgsKnown hinv hop h.scan h.known, engineStep_scanOk h.scan, he.stocked hinv hop h.stocked⟩

/-- Through any run of the engine, what is known of a level's organisation is true. -/
theorem Reach.orgSound {config : OmSlabConfig} {wal : Option OmWalHandle} {maxProducts maxOrg : Nat}
    {ctx : OmOrderbookContext} {callbacks : OmEngineCallbacks}
    (hinit : omOrderbookInit config wal maxProducts maxOrg = (.ok, some ctx))
    (h : Reach K EngineOk (.start ctx callbacks) s) :
    ∃ levels free, EngineInv s levels free ∧ OrgSound s levels := by
  refine Reach.effects (Q := fun s levels _ => OrgSound s levels) hinit h
    (fun _ _ hok => hok.opOk) ⟨?_, ?_, ?_⟩ fun s op levels free levels' free' hop hinv _ he hq =>
      hq.effect hinv hop he
  · exact fun _ _ l hl => absurd hl (by simp)
  · exact fun _ _ _ _ _ _ hcall => absurd hcall (by simp [EngineState.start])
  · exact fun _ _ he => absurd he (by simp [EngineState.start, EngineState.book, freshBook])

end Run

end VeloxMatch
