import VeloxMatch.EngineInv

namespace VeloxMatch

section Remove

variable {K : Kavl} {e : OmEngine} {f : MatchFrame} {levels : Levels} {free : List Nat}
  {levelPrice maker : Nat} {nextLevelIdx nextMakerIdx : Option Nat} {both : Bool}

theorem removeStep_eq {ctx : OmOrderbookContext}
    (hrun : omOrderbookRemoveSlot K e.orderbook f.productId maker = (true, ctx)) :
    removeStep K e f levelPrice nextLevelIdx maker nextMakerIdx both =
      ({ e with
          orderbook := if both then withVolume ctx f.taker 0 else ctx
          trace := if both then e.trace ++ [.forfeited f.taker] else e.trace },
        .running { f with
          takerRemaining := if both then 0 else f.takerRemaining
          pc := .makers levelPrice nextLevelIdx nextMakerIdx }) := by
  cases both <;> simp [removeStep, hrun, MatchFrame.goto, OmEngine.setVolumeRemain]

theorem MatchInv.remove (h : MatchInv e f levels free)
    (hpc : f.pc = .remove levelPrice nextLevelIdx maker nextMakerIdx both) :
    maker ∈ queueOf (levels f.productId (!f.takerIsBid)) ∧
      ∃ ctx, omOrderbookRemoveSlot K e.orderbook f.productId maker = (true, ctx) ∧
        Kept e.orderbook ctx maker ∧
        ctx.orderHashmap =
          Function.update e.orderbook.orderHashmap (e.orderbook.slab.order maker).orderId none ∧
        MatchInv { e with
            orderbook := if both then withVolume ctx f.taker 0 else ctx
            trace := if both then e.trace ++ [.forfeited f.taker] else e.trace }
          { f with
            takerRemaining := if both then 0 else f.takerRemaining
            pc := .makers levelPrice nextLevelIdx nextMakerIdx }
          (levels.drop f.productId (!f.takerIsBid) maker) (maker :: free) := by
  obtain ⟨pre, visited, todo, post, hpos, hplain⟩ := h.standing
  rw [hpc] at hpos
  obtain ⟨hcur, hprice, todo', rfl, rfl⟩ := hpos
  have hmem := hcur.mem_queueOf (i := maker) (by simp)
  obtain ⟨ctx, hrun, hbook, hkept, hhash⟩ := omOrderbookRemoveSlot_spec K h.book hmem
  refine ⟨hmem, ctx, hrun, hkept, hhash, ?_⟩
  have hs := forfeit_sameBook ctx f.taker both
  have hspare : Spare ctx (maker :: free) f.taker :=
    (h.taker.spare.frame hkept.capacity fun id entry he =>
      update_none_some (hhash ▸ he)).freed (h.resting_ne_taker hmem).symm
  refine
    { book := hbook.sameBook hs
      taker :=
        { spare := hspare.sameBook hs
          active := ?_
          remaining := ?_
          isBid := by rw [hs.flags, hkept.order, h.taker.isBid]
          price := by rw [hs.price, hkept.order, h.taker.price] }
      standing := ?_ }
  · rw [Deactivated, hs.flags, hkept.order]
    exact h.taker.active
  · cases both
    · exact (congrArg _ (hkept.order _)).trans h.taker.remaining
    · simp [order_withVolume]
  · refine ⟨pre, visited, todo', post, ⟨?_, fun i hi => ?_⟩, hplain⟩
    · rw [Levels.drop, Levels.set_self]
      exact hcur.drop (h.side).nodup
    · refine ((hs.price i).trans (congrArg _ (hkept.order i))).trans (hprice i ?_)
      simp only [List.mem_append, List.mem_cons] at hi ⊢
      exact hi.imp_right Or.inr

theorem MatchInv.volume_of_book (h : MatchInv e f levels free) (hpc : f.pc = .book) :
    (e.order f.taker).volumeRemain ≠ 0 := by
  obtain ⟨pre, visited, todo, post, hpos, -⟩ := h.standing
  rw [hpc] at hpos
  exact fun hv => hpos.2.2.2.1 (h.taker.remaining.symm.trans hv)

end Remove

section Tick

variable {K : Kavl} {op : Op} {s : EngineState} {f : MatchFrame} {activating : Bool}
  {levels : Levels} {free : List Nat} {e' : OmEngine} {rc : OmError}

theorem EngineInv.remove {levelPrice maker : Nat} {nextLevelIdx nextMakerIdx : Option Nat}
    {both : Bool} (h : EngineInv s levels free) (hcall : s.call = some (.matching f activating))
    (hpc : f.pc = .remove levelPrice nextLevelIdx maker nextMakerIdx both) :
    Stepped K op s levels free
      (afterMatch
        { s with engine :=
          (removeStep K s.engine f levelPrice nextLevelIdx maker nextMakerIdx both).1 } f activating
        (removeStep K s.engine f levelPrice nextLevelIdx maker nextMakerIdx both).2) := by
  obtain ⟨hm, htaker⟩ := h.matching hcall
  obtain ⟨hmem, ctx, hrun, hkept, hhash, hinv⟩ := hm.remove (K := K) hpc
  rw [removeStep_eq hrun]
  have hs := forfeit_sameBook ctx f.taker both
  refine ⟨_, _, h.running hcall hinv rfl ?_, ?_⟩
  · have hheld := h.held.removed (h.book.resting hmem).1
    exact (hheld.frame hkept.capacity fun id entry he => update_none_some (hhash ▸ he)).sameBook hs
  · refine .remove both hcall hmem ?_ hrun ⟨hkept, hhash⟩
    rw [pending_eq hcall, hpc]
    rfl

theorem handOver_of_pc (hpc : f.pc ≠ .book) : handOver s f rc = s := by
  simp [handOver, hpc]

theorem handOver_of_rc (hrc : rc ≠ .ok) : handOver s f rc = s := by
  simp [handOver, hrc]

theorem finishMatch_of_rc (hrc : rc ≠ .ok) :
    finishMatch s f activating rc = { s with call := none } := by
  simp [finishMatch, hrc]

theorem finishMatch_of_volume (hv : (s.engine.order f.taker).volumeRemain ≠ 0) :
    finishMatch s f activating rc = { s with call := none } := by
  simp [finishMatch, hv]

variable (h : EngineInv s levels free) (hcall : s.call = some (.matching f activating))
include h hcall

theorem EngineInv.quitQuiet {w : Option OmWalHandle} (hpc : f.pc.pending = none)
    (hbook : e'.orderbook = { s.engine.orderbook with wal := w })
    (hw : Unlogged s.engine.orderbook.wal w) (htrace : e'.trace = s.engine.trace)
    (hbookings : e'.bookings = s.engine.bookings) (hcb : e'.callbacks = s.engine.callbacks) :
    Stepped K op s levels free { s with engine := e', call := none } := by
  refine ⟨levels, free, h.quit ?_ rfl rfl,
    (Effect.quiet w s.book.knownOrg hw (Or.inl rfl)).at ?_⟩
  · change SameBook s.engine.orderbook e'.orderbook
    rw [hbook]
    exact SameBook.setWal _ w
  · refine View.ext hbook hcb htrace hbookings rfl ?_
    exact (pending_eq hcall).symm ▸ hpc.symm

theorem EngineInv.used (h0 : f.takerRemaining = 0) (hpc : f.pc ≠ .book)
    (hpending : f.pc.pending = none) :
    Stepped K op s levels free (afterMatch s f activating (.returned .ok)) := by
  obtain ⟨hm, htaker⟩ := h.matching hcall
  have hvol : (s.engine.order f.taker).volumeRemain = 0 := hm.taker.remaining.trans h0
  rw [afterMatch, handOver_of_pc hpc]
  cases activating with
  | false =>
    have hfin : finishMatch s f false .ok = { s with call := none } := by simp [finishMatch]
    rw [hfin]
    exact h.quitQuiet hcall hpending rfl (Or.inl rfl) rfl rfl rfl
  | true =>
    have hheld : f.taker ∉ s.held := fun hx => absurd (htaker.mp hx) (by simp)
    have hspare := hm.taker.spare
    have hfin : finishMatch s f true .ok =
        { s.setBook { s.book with slab := omSlabFree s.book.slab f.taker } with call := none } := by
      simp [finishMatch, hvol, EngineState.setBook, EngineState.book]
    rw [hfin]
    refine ⟨levels, f.taker :: free, ⟨?_, ?_, trivial⟩, ?_⟩
    · exact h.book.freeSlot hspare.unbooked hspare.lt_capacity hspare.not_free
    · refine ⟨h.held.nodup, fun x hx => ?_⟩
      have hx' := (h.held.spare x hx).freed (i := f.taker) fun he => hheld (he ▸ hx)
      exact ⟨hx'.unbooked, hx'.not_free, hx'.lt_capacity⟩
    · refine (Effect.release hspare.unbooked hspare.not_free hspare.lt_capacity).at ?_
      refine View.ext rfl rfl rfl rfl ?_ ?_
      · exact (List.erase_of_not_mem hheld).symm
      · exact (pending_eq hcall).symm ▸ hpending.symm

theorem EngineInv.book_taker {e1 : OmEngine} {ctx : OmOrderbookContext} (hpc : f.pc = .book)
    (hev : OnlyEvents s.engine e1)
    (hins : omOrderbookInsert K s.engine.orderbook f.productId f.taker = (.ok, ctx))
    (hev' : OnlyEvents { e1 with orderbook := ctx, bookings := f.taker :: e1.bookings } e') :
    Stepped K op s levels free (afterMatch { s with engine := e' } f activating (.returned .ok)) := by
  obtain ⟨hm, htaker⟩ := h.matching hcall
  have hspare := hm.taker.spare
  obtain ⟨w, hbooked, hbook⟩ := omOrderbookInsert_booked h.book hspare hm.taker.active hins
  have hvol := hm.volume_of_book hpc
  obtain ⟨v, rfl⟩ := hev
  obtain ⟨v', rfl⟩ := hev'
  have horder : ctx.slab.order f.taker = s.book.slab.order f.taker := hbooked.kept.order _
  have hhand : ctx.orderHashmap (ctx.slab.order f.taker).orderId =
      some ⟨f.taker, f.productId⟩ := by
    rw [hbooked.hash, horder, Function.update_self]
  have hfin : afterMatch { s with engine := { s.engine with
        orderbook := ctx, bookings := f.taker :: s.engine.bookings, events := v' } }
        f activating (.returned .ok) =
      { s with
        engine := { s.engine with
          orderbook := ctx, bookings := f.taker :: s.engine.bookings, events := v' }
        held := s.held.erase f.taker
        call := none } := by
    have hvol' : (ctx.slab.order f.taker).volumeRemain ≠ 0 := by
      rw [horder]
      exact hvol
    simp [afterMatch, handOver, finishMatch, hpc, EngineState.book, OmEngine.order, hhand, hvol']
  refine hfin ▸ ⟨_, _, ⟨hbook, ?_, trivial⟩, ?_⟩
  · exact h.held.booked hbooked.kept.capacity hbooked.hash
  · refine (Effect.place hspare.unbooked hspare.not_free hspare.lt_capacity hm.taker.active
      (Or.inr ⟨f, activating, hcall, hpc, rfl, rfl⟩) hins hbooked).at ?_
    refine View.ext rfl rfl rfl rfl rfl ?_
    exact (pending_eq hcall).symm ▸ hpc.symm ▸ rfl

theorem EngineInv.tickMatch : Stepped K op s levels free (tickMatch K s f activating) := by
  obtain ⟨hm, htaker⟩ := h.matching hcall
  have hmove := matchStep_move K s.engine f
  change Stepped K op s levels free (afterMatch { s with engine := (matchStep K s.engine f).1 } f
    activating (matchStep K s.engine f).2)
  generalize (matchStep K s.engine f).1 = e' at hmove ⊢
  generalize (matchStep K s.engine f).2 = next at hmove ⊢
  cases hmove with
  | walk hev hw => exact h.walk hcall hev hw
  | learn hpc => exact h.learn hcall hpc
  | used h0 hpc =>
    rcases hpc with ⟨idx, hpc⟩ | ⟨levelPrice, nextLevelIdx, makerIdx, hpc⟩
    · exact h.used hcall h0 (by simp [hpc]) (by simp [hpc, MatchPc.pending])
    · exact h.used hcall h0 (by simp [hpc]) (by simp [hpc, MatchPc.pending])
  | refused hat hev hlog hr =>
    obtain ⟨r, rfl⟩ := hr
    obtain ⟨v, rfl⟩ := hev
    obtain ⟨w, rfl, hw⟩ := engine_log_refused hlog
    rw [afterMatch, handOver_of_rc (by decide), finishMatch_of_rc (by decide)]
    exact h.quitQuiet hcall (by rw [hat.pc]; rfl) rfl hw rfl rfl rfl
  | cancelMaker hat hev hlog hev' => exact h.cancelMaker hcall hat hev hlog hev' _
  | reduce hat hev hpos hle hvol hlog hev' =>
    exact h.reduce hcall hat hev hpos hle hvol hlog hev'
  | remove hpc => exact h.remove hcall hpc
  | decline hpc hev =>
    -- the hash map has no entry for the taker's slot, so the client keeps it
    obtain ⟨v, rfl⟩ := hev
    have hhand : s.engine.orderbook.orderHashmap (s.engine.order f.taker).orderId ≠
        some ⟨f.taker, f.productId⟩ := fun he => hm.taker.spare.unbooked _ _ he rfl
    have hstay : handOver { s with engine := { s.engine with events := v } } f .ok =
        { s with engine := { s.engine with events := v } } := by
      simp only [handOver]
      exact if_neg fun hc => hhand hc.2.2
    rw [afterMatch, hstay, finishMatch_of_volume]
    · exact h.quitQuiet hcall (by rw [hpc]; rfl) rfl (Or.inl rfl) rfl rfl rfl
    · exact hm.volume_of_book hpc
  | book hpc hev hins hev' => exact h.book_taker hcall hpc hev hins hev'
  | bookFailed hpc hev hrc hins =>
    obtain ⟨v, rfl⟩ := hev
    obtain ⟨w, rfl, hw⟩ := omOrderbookInsert_failed hrc hins
    rw [afterMatch, handOver_of_rc hrc, finishMatch_of_rc hrc]
    exact h.quitQuiet hcall (by rw [hpc]; rfl) rfl hw rfl rfl rfl

end Tick

end VeloxMatch
