import VeloxMatch.EngineEffect

namespace VeloxMatch

open Function MatchPc

structure HeldOk (ctx : OmOrderbookContext) (free held : List Nat) : Prop where
  nodup : held.Nodup
  spare : ∀ x ∈ held, Spare ctx free x

def SideStanding (levels : List Level) : SidePc → Prop
  | .levels idx => ∃ pre post, levels = pre ++ post ∧ idx = front (post.map Level.head) none
  | .orders nextLevelIdx idx =>
    ∃ pre visited todo post, Cursor levels pre visited todo post nextLevelIdx idx

def CallOk (s : EngineState) (levels : Levels) (free : List Nat) : Option Call → Prop
  | none => True
  | some (.matching f activating) =>
    MatchInv s.engine f levels free ∧ (f.taker ∈ s.held ↔ activating = false)
  | some (.cancelSide f) => SideStanding (levels f.productId f.isBid) f.pc

structure EngineInv (s : EngineState) (levels : Levels) (free : List Nat) : Prop where
  book : BookInv s.book levels free
  held : HeldOk s.book free s.held
  call : CallOk s levels free s.call

def Stepped (K : Kavl) (op : Op) (s : EngineState) (levels : Levels) (free : List Nat)
    (s' : EngineState) : Prop :=
  ∃ levels' free', EngineInv s' levels' free' ∧
    Effect K op s levels free s'.call s'.view levels' free'

section Held

variable {ctx ctx' : OmOrderbookContext} {free held : List Nat} {x id p : Nat}

theorem HeldOk.frame (h : HeldOk ctx free held) (hcap : ctx'.slab.capacity = ctx.slab.capacity)
    (hhash : ∀ id entry, ctx'.orderHashmap id = some entry → ctx.orderHashmap id = some entry) :
    HeldOk ctx' free held :=
  ⟨h.nodup, fun x hx => (h.spare x hx).frame hcap hhash⟩

theorem HeldOk.sameBook (h : HeldOk ctx free held) (hs : SameBook ctx ctx') :
    HeldOk ctx' free held :=
  ⟨h.nodup, fun x hx => (h.spare x hx).sameBook hs⟩

theorem Spare.freed {i : Nat} (h : Spare ctx free x) (hx : x ≠ i) : Spare ctx (i :: free) x :=
  ⟨h.unbooked, by simp [hx, h.not_free], h.lt_capacity⟩

theorem HeldOk.removed (h : HeldOk ctx free held)
    (hx : ctx.orderHashmap id = some ⟨x, p⟩) : HeldOk ctx (x :: free) held := by
  refine ⟨h.nodup, fun y hy => (h.spare y hy).freed ?_⟩
  exact fun he => (h.spare y hy).unbooked id _ hx he.symm

theorem Spare.booked {y : Nat} (h : Spare ctx free y) (hne : y ≠ x)
    (hcap : ctx'.slab.capacity = ctx.slab.capacity)
    (hhash : ctx'.orderHashmap = update ctx.orderHashmap id (some ⟨x, p⟩)) : Spare ctx' free y where
  unbooked := fun id' entry he => by
    rw [hhash] at he
    by_cases heq : id' = id
    · rw [heq, update_self] at he
      cases he
      exact hne.symm
    · rw [update_of_ne heq] at he
      exact h.unbooked id' entry he
  not_free := h.not_free
  lt_capacity := hcap ▸ h.lt_capacity

theorem HeldOk.booked (h : HeldOk ctx free held) (hcap : ctx'.slab.capacity = ctx.slab.capacity)
    (hhash : ctx'.orderHashmap = update ctx.orderHashmap id (some ⟨x, p⟩)) :
    HeldOk ctx' free (held.erase x) := by
  refine ⟨h.nodup.erase x, fun y hy => ?_⟩
  obtain ⟨hne, hy⟩ := h.nodup.mem_erase_iff.mp hy
  exact (h.spare y hy).booked hne hcap hhash

theorem update_none_some {hash : Nat → Option OmOrderEntry} {id' : Nat} {entry : OmOrderEntry}
    (h : update hash id none id' = some entry) : hash id' = some entry := by
  by_cases heq : id' = id
  · simp [heq] at h
  · rwa [update_of_ne heq] at h

end Held

section Match

variable {K : Kavl} {op : Op} {s s' : EngineState} {f : MatchFrame} {activating : Bool}
  {levels : Levels} {free : List Nat} {e' e e1 e2 : OmEngine} {levelPrice maker qty : Nat}
  {nextLevelIdx makerIdx : Option Nat} {pc : MatchPc}

theorem EngineInv.pending_eq (hcall : s.call = some (.matching f activating)) :
    s.view.pending = f.pc.pending := by
  simp [EngineState.view, hcall, Call.pending]

theorem EngineInv.quit (h : EngineInv s levels free) (hs : SameBook s.book s'.book)
    (hheld : s'.held = s.held) (hcall : s'.call = none) : EngineInv s' levels free :=
  ⟨h.book.sameBook hs, hheld ▸ h.held.sameBook hs, hcall ▸ trivial⟩

theorem Effect.unchanged (h : s'.view = s.view) :
    Effect K op s levels free s'.call s'.view levels free :=
  (Effect.quiet s.book.wal s.book.knownOrg (Or.inl rfl) (Or.inl rfl)).at h

theorem Walk.pending {pc' : MatchPc} (hw : Walk e f pc pc') :
    pc.pending = none ∧ (pc'.pending = none ∨ ∃ levelPrice nextLevelIdx makerIdx maker,
      pc = .makers levelPrice nextLevelIdx makerIdx ∧ omSlotFromIdx e.slab makerIdx = some maker ∧
      (e.order maker).volumeRemain = 0 ∧ pc'.pending = some maker) := by
  cases hw with
  | empty hs hv => exact ⟨rfl, Or.inr ⟨_, _, _, _, rfl, hs, hv, rfl⟩⟩
  | _ => exact ⟨rfl, Or.inl rfl⟩

theorem pending_reduceBoth {nextMakerIdx : Option Nat} (hne : maker ≠ f.taker)
    (hvol : qty ≤ (e.order maker).volumeRemain) :
    pending (if ((reduceBoth e f maker qty).1.order maker).volumeRemain = 0 then
        .remove levelPrice nextLevelIdx maker nextMakerIdx false
      else .makers levelPrice nextLevelIdx (some maker)) =
    if (e.order maker).volumeRemain = qty then some maker else none := by
  rw [order_reduceBoth e f hne, if_neg hne, if_pos rfl]
  by_cases hq : (e.order maker).volumeRemain = qty
  · simp [hq, pending]
  · have hlt : (e.order maker).volumeRemain - qty ≠ 0 := by omega
    simp [hq, hlt, pending]

variable (h : EngineInv s levels free) (hcall : s.call = some (.matching f activating))
include h hcall

theorem EngineInv.matching :
    MatchInv s.engine f levels free ∧ (f.taker ∈ s.held ↔ activating = false) := by
  have hc := h.call
  rw [hcall] at hc
  exact hc

theorem EngineInv.running {f' : MatchFrame} {levels' : Levels} {free' : List Nat}
    (hinv : MatchInv e' f' levels' free') (htaker : f'.taker = f.taker)
    (hheld : HeldOk e'.orderbook free' s.held) :
    EngineInv { s with engine := e', call := some (.matching f' activating) } levels' free' :=
  ⟨hinv.book, hheld, hinv, htaker ▸ (h.matching hcall).2⟩

theorem EngineInv.walk (hev : OnlyEvents s.engine e') (hw : Walk s.engine f f.pc pc) :
    Stepped K op s levels free
      { s with engine := e', call := some (.matching { f with pc := pc } activating) } := by
  have hm := (h.matching hcall).1
  have hs := sameBook_onlyEvents hev
  refine ⟨levels, free, h.running hcall ?_ rfl (h.held.sameBook hs), ?_⟩
  · exact hm.goto hs (by rw [order_onlyEvents hev]) (callbacks_onlyEvents hev)
      (hw.standing hm.side hm.standing)
  · obtain ⟨v, rfl⟩ := hev
    obtain ⟨hpc, hpc' | ⟨lp, nl, mi, maker, hmakers, hslot, hv, hpc'⟩⟩ := hw.pending
    · apply Effect.unchanged
      simp [EngineState.view, hcall, Call.pending, hpc, hpc', EngineState.book]
    · obtain ⟨pre, visited, todo, post, hpos, -⟩ := hm.standing
      rw [hmakers] at hpos
      obtain ⟨todo', rfl, -⟩ := hpos.1.some_slot hm.side hslot
      refine (Effect.empty (hpos.1.mem_queueOf (by simp)) ?_ hv).at ?_
      · rw [EngineInv.pending_eq hcall, hpc]
      · simp [EngineState.view, Call.pending, hpc', EngineState.book]

theorem EngineInv.learn {head : Nat} (hpc : f.pc = .scan levelPrice nextLevelIdx head none) :
    Stepped K op s levels free { s with
      engine := { s.engine with
        orderbook := { s.engine.orderbook with
          knownOrg := update s.engine.orderbook.knownOrg head
            (some (s.engine.order f.taker).org) } }
      call := some (.matching { f with pc := .makers levelPrice nextLevelIdx none } activating) } := by
  have hm := (h.matching hcall).1
  have hs := SameBook.setKnownOrg s.engine.orderbook
    (update s.engine.orderbook.knownOrg head (some (s.engine.order f.taker).org))
  refine ⟨levels, free, h.running hcall (hm.learn hpc _) rfl (h.held.sameBook hs), ?_⟩
  refine (Effect.quiet s.book.wal _ (Or.inl rfl)
    (Or.inr ⟨f, activating, _, _, _, hcall, hpc, rfl⟩)).at ?_
  simp [EngineState.view, hcall, Call.pending, pending, hpc, EngineState.book,
    OmEngine.order]

theorem EngineInv.cancelMaker (hat : AtMaker s.engine f levelPrice nextLevelIdx makerIdx maker)
    (hev : OnlyEvents s.engine e1)
    (hlog : e1.log (fun w => omWalCancel w (s.engine.order maker).orderId maker f.productId) =
      (true, e2)) (hev' : OnlyEvents e2 e') (both : Bool) :
    Stepped K op s levels free { s with
      engine := e'
      call := some (.matching { f with
        pc := .remove levelPrice nextLevelIdx maker (s.engine.slab.next .timeFifo maker) both }
        activating) } := by
  have hm := (h.matching hcall).1
  have hs := (sameBook_of_log hev hlog).1.trans (sameBook_onlyEvents hev')
  refine ⟨levels, free, h.running hcall (hm.cancelMaker hat hev hlog hev' both) rfl
    (h.held.sameBook hs), ?_⟩
  obtain ⟨v, rfl⟩ := hev
  obtain ⟨w, he2, happ⟩ := engine_log_accepted hlog
  obtain ⟨v', rfl⟩ := hev'
  refine (Effect.note (hm.maker_resting hat) ?_ happ).at ?_
  · rw [EngineInv.pending_eq hcall, hat.pc]
    rfl
  · rw [he2]
    rfl

theorem EngineInv.reduce (hat : AtMaker s.engine f levelPrice nextLevelIdx makerIdx maker)
    (hev : OnlyEvents s.engine e1) (hpos : 0 < qty) (hle : qty ≤ f.takerRemaining)
    (hvol : qty ≤ (s.engine.order maker).volumeRemain)
    (hlog : e1.log (fun w => omWalMatch w (matchRecord s.engine f levelPrice maker qty)) =
      (true, e2)) (hev' : OnlyEvents (reduceBoth e2 f maker qty).1 e') :
    Stepped K op s levels free { s with
      engine := e'
      call := some (.matching { f with
        takerRemaining := f.takerRemaining - qty
        pc := if ((reduceBoth e2 f maker qty).1.order maker).volumeRemain = 0 then
            .remove levelPrice nextLevelIdx maker (s.engine.slab.next .timeFifo maker) false
          else .makers levelPrice nextLevelIdx (some maker) } activating) } := by
  have hm := (h.matching hcall).1
  have hs := ((sameBook_of_log hev hlog).1.trans (reduceBoth_sameBook e2 f maker qty)).trans
    (sameBook_onlyEvents hev')
  refine ⟨levels, free, h.running hcall (hm.reduce hat hev hlog hev') rfl (h.held.sameBook hs), ?_⟩
  have hresting := hm.maker_resting hat
  have hne := hm.resting_ne_taker hresting
  have hremaining := hm.taker.remaining
  obtain ⟨pre, visited, todo, post, -, hprice, -, -⟩ := hm.maker hat
  obtain ⟨v, rfl⟩ := hev
  obtain ⟨w, rfl, happ⟩ := engine_log_accepted hlog
  obtain ⟨v', rfl⟩ := hev'
  refine (Effect.reduce hcall hresting (hprice maker (by simp)) ?_ hpos hvol (hremaining ▸ hle)
    happ).at ?_
  · rw [EngineInv.pending_eq hcall, hat.pc]
    rfl
  · refine View.ext ?_ rfl rfl rfl rfl (pending_reduceBoth hne hvol)
    exact congrArg (fun v => withVolume (withVolume { s.book with wal := w } maker
      ((s.book.slab.order maker).volumeRemain - qty)) f.taker (v - qty)) hremaining.symm

end Match

end VeloxMatch
