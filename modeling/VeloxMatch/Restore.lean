import VeloxMatch.LoggedOrders
import VeloxMatch.Recovery
import VeloxMatch.SlotActivation

namespace VeloxMatch

open OmDualSlab SearchTree BookLimits Function

/-- The fields of a record fit the log and the slots of a book. -/
def OmWalRecord.Restorable (config : OmSlabConfig) : OmWalRecord → Prop
  | .insert rec => rec.Fits ∧ rec.orderId ≠ 0 ∧ rec.orderId < 2 ^ 32 ∧
      rec.userDataSize ≤ config.userDataSize ∧ rec.auxDataSize ≤ config.auxDataSize
  | .matched rec => rec.Fits ∧ rec.makerId ≠ 0 ∧ rec.takerId ≠ 0
  | .cancel rec | .deactivate rec | .activate rec => rec.Fits
  | .other _ _ => False

/-- A book that a recovery has brought to the contents `c`. -/
structure Restored (config : OmSlabConfig) (limits : BookLimits) (ctx : OmOrderbookContext)
    (levels : Levels) (free : List Nat) (c : Contents) : Prop where
  book : BookInv ctx levels free
  contents : contentsOf ctx levels none = c
  wal : ctx.wal = none
  config : ctx.slab.config = config
  limits : ctx.limits = limits
  used : ∀ i < ctx.slab.capacity, i ∉ free → Referenced ctx i
  narrow : ∀ id, ctx.orderHashmap id ≠ none → id < 2 ^ 32

section Restore

variable {K : Kavl} {config : OmSlabConfig} {limits : BookLimits} {ctx ctx' : OmOrderbookContext}
  {levels levels' : Levels} {free free' : List Nat} {c c' : Contents} {id x p : Nat} {b : Bool}
  {o : StoredOrder} {rec : OmWalCancel}

section Steps

variable (h : Restored config limits ctx levels free c)
include h

theorem Restored.entry (ho : c.known id = some o) : ∃ x p, ctx.orderHashmap id = some ⟨x, p⟩ ∧
      (ctx.slab.order x).stored p = o ∧ x < ctx.slab.capacity ∧ id % 2 ^ 32 = id := by
  rw [← h.contents] at ho
  cases he : ctx.orderHashmap id with
  | none => cases ho.symm.trans (known_of_none he)
  | some e =>
    refine ⟨e.slotIdx, e.productId, rfl, ?_, (h.book.entry he).2.1, ?_⟩
    · exact Option.some.inj ((known_of_entry he).symm.trans ho)
    · exact Nat.mod_eq_of_lt (h.narrow id (by simp [he]))

theorem Restored.resting
    (ho : c.known id = some o) (hactive : o.Active) : ∃ x p b, x ∈ queueOf (levels p b) ∧
      ctx.orderHashmap id = some ⟨x, p⟩ ∧ id = (ctx.slab.order x).orderId ∧
      (ctx.slab.order x).stored p = o ∧ x < ctx.slab.capacity ∧ id % 2 ^ 32 = id := by
  obtain ⟨x, p, he, rfl, hlt, hid⟩ := h.entry ho
  obtain ⟨horder, -, -, ⟨b, hb⟩ | hparked⟩ := h.book.entry he
  · exact ⟨x, p, b, hb, he, horder.symm, rfl, hlt, hid⟩
  · exact absurd hparked.deactivated hactive

theorem Restored.loses
    (he : ctx.orderHashmap id = some ⟨x, p⟩) (hbook : BookInv ctx' levels' (x :: free))
    (hkept : Kept ctx ctx' x) (hhash : ctx'.orderHashmap = update ctx.orderHashmap id none)
    (hcontents : contentsOf ctx' levels' none = c') :
    Restored config limits ctx' levels' (x :: free) c' where
  book := hbook
  contents := hcontents
  wal := hkept.wal.trans h.wal
  config := hkept.config.trans h.config
  limits := hkept.limits.trans h.limits
  used i hi hfree := by
    simp only [List.mem_cons, not_or] at hfree
    obtain ⟨id', q, he'⟩ := h.used i (hkept.capacity ▸ hi) hfree.2
    refine ⟨id', q, ?_⟩
    rw [hhash, update_of_ne, he']
    rintro rfl
    cases he.symm.trans he'
    exact hfree.1 rfl
  narrow id' hid := by
    rw [hhash] at hid
    obtain ⟨e, he'⟩ := Option.ne_none_iff_exists'.mp hid
    have hold := update_none_some he'
    exact h.narrow id' (by simp [hold])

theorem Restored.cancel (hx : x ∈ queueOf (levels p b)) : ∃ levels' free',
      Restored config limits (omOrderbookCancel K ctx (ctx.slab.order x).orderId).2 levels' free'
        (c.leave (ctx.slab.order x).orderId) := by
  have hlog : ctx.log (fun w => omWalCancel w (ctx.slab.order x).orderId x p) = (true, ctx) := by
    rw [OmOrderbookContext.log, h.wal]
  obtain ⟨ctx', hrun, hbook, hkept, hhash⟩ := omOrderbookCancel_spec K h.book hx hlog
  rw [hrun, ← h.contents]
  exact ⟨_, _, h.loses (h.book.resting hx).1 hbook hkept hhash
    (contentsOf_drop h.book hx (fun _ _ _ => hkept.order _) hhash)⟩

theorem Restored.passOrderId (id : Nat) :
    Restored config limits { ctx with slab := passOrderId ctx.slab id } levels free c := by
  unfold VeloxMatch.passOrderId
  split
  · refine ⟨?_, h.contents, h.wal, h.config, h.limits, h.used, h.narrow⟩
    refine h.book.slabFrame (h.book.freeList.frame rfl rfl rfl rfl (fun _ _ => rfl)
      (fun _ _ => rfl) fun _ => rfl) rfl ?_ fun _ _ he => (h.book.entry he).2.2.1
    exact fun _ _ _ => ⟨fun _ _ => rfl, fun _ _ => rfl, rfl, rfl, rfl⟩
  · exact h

theorem Restored.matched {rec : OmWalMatch}
    (ha : c.Admits limits (.matched rec)) (hrec : (OmWalRecord.matched rec).Restorable config) :
    ∃ ctx' levels' free', recoverMatch K ctx rec = (.ok, ctx') ∧
      Restored config limits ctx' levels' free' (c.step (.matched rec)) := by
  obtain ⟨hpos, o, ho, hactive, hle⟩ := ha
  obtain ⟨-, hmaker, htaker⟩ := hrec
  have h := h.passOrderId rec.highest
  obtain ⟨x, p, b, hx, he, hid, rfl, hlt, hmod⟩ := h.resting ho hactive
  set ctx₁ : OmOrderbookContext := { ctx with slab := VeloxMatch.passOrderId ctx.slab rec.highest }
  have hguard : ¬(rec.makerId = 0 ∨ rec.takerId = 0 ∨ rec.volume = 0) := by omega
  have hfits : ¬(ctx₁.slab.order x).volumeRemain < rec.volume := Nat.not_lt.mpr hle
  have hsame := withVolume_sameBook ctx₁ x ((ctx₁.slab.order x).volumeRemain - rec.volume)
  have hrest : Restored config limits (withVolume ctx₁ x _) levels free _ :=
    ⟨h.book.sameBook hsame, rfl, h.wal, h.config, h.limits, h.used, h.narrow⟩
  have hstep := contentsOf_matched h.book hx hid hle
  rw [h.contents] at hstep
  have hrun : recoverMatch K ctx rec = (.ok,
      if (ctx₁.slab.order x).volumeRemain - rec.volume = 0 then
        (omOrderbookCancel K (withVolume ctx₁ x ((ctx₁.slab.order x).volumeRemain - rec.volume))
          (rec.makerId % 2 ^ 32)).2
      else withVolume ctx₁ x ((ctx₁.slab.order x).volumeRemain - rec.volume)) := by
    have hslot : (ctx₁.orderHashmap rec.makerId).bind
        (fun entry => omSlotFromIdx ctx₁.slab (some entry.slotIdx)) = some x := by
      rw [he]
      exact omSlotFromIdx_some hlt
    unfold recoverMatch
    rw [if_neg hguard]
    dsimp only
    rw [hslot]
    exact if_neg hfits
  rw [hrun, hstep, hmod]
  by_cases hfilled : (ctx₁.slab.order x).volumeRemain = rec.volume
  · rw [if_pos hfilled, if_pos (by omega)]
    have hcancel := hrest.cancel (K := K) hx
    rw [hsame.orderId, ← hid] at hcancel
    exact ⟨_, hcancel.imp fun _ => Exists.imp fun _ hr => ⟨rfl, hr⟩⟩
  · rw [if_neg hfilled, if_neg (by omega)]
    exact ⟨_, _, _, rfl, hrest⟩

theorem Restored.deactivate
    (ha : c.Admits limits (.deactivate rec)) : ∃ levels' free', Restored config limits
      (recoverDeactivate K ctx rec) levels' free' (c.step (.deactivate rec)) := by
  obtain ⟨o, ho, hactive⟩ := ha
  obtain ⟨x, p, b, hx, he, hid, -, hlt, -⟩ := h.resting ho hactive
  obtain ⟨ctx', hrun, hbook, hkept, -, hhash⟩ := omOrderbookUnlinkSlot_spec K h.book hx
  have hstep : recoverDeactivate K ctx rec = setStatus ctx' x omStatusDeactivated := by
    unfold recoverDeactivate
    rw [he]
    dsimp only
    rw [omSlotFromIdx_some hlt]
    dsimp only
    rw [hrun]
  rw [hstep, ← h.contents]
  refine ⟨_, _, hbook, ?_, hkept.wal.trans h.wal, hkept.config.trans h.config,
    hkept.limits.trans h.limits, fun i hi hfree => ?_, fun id hknown => ?_⟩
  · exact contentsOf_park h.book hx hkept.order hhash hid
  · obtain ⟨id, q, he⟩ := h.used i (hkept.capacity ▸ hi) hfree
    exact ⟨id, q, (congrFun hhash id).trans he⟩
  · exact h.narrow id ((congrFun hhash id) ▸ hknown)

theorem Restored.activate
    (ha : c.Admits limits (.activate rec)) : ∃ levels' free', Restored config limits
      (recoverActivate ctx rec) levels' free' (c.step (.activate rec)) := by
  obtain ⟨o, ho, hactive⟩ := ha
  obtain ⟨x, p, he, rfl, hlt, -⟩ := h.entry ho
  have hd : Deactivated ctx x := not_not.mp hactive
  have hstep : recoverActivate ctx rec = releaseOrder ctx rec.orderId x := by
    unfold recoverActivate
    rw [he]
    dsimp only
    rw [omSlotFromIdx_some hlt]
    exact if_pos hd
  have hkept := releaseOrder_kept ctx rec.orderId x
  have hbook : BookInv (releaseOrder ctx rec.orderId x) levels (x :: free) :=
    (h.book.unpark he hd).freeSlot (unbooked_withoutEntry h.book he) hlt (h.book.entry he).2.2.1
  rw [hstep, ← h.contents]
  exact ⟨_, _, h.loses he hbook hkept rfl
    (contentsOf_withoutEntry h.book he hd rfl fun j _ => hkept.order j)⟩

/-- There is a free slot for every order that the log brings. -/
theorem Restored.exists_free {rec : OmWalInsert}
    (ha : c.Admits limits (.insert rec)) : ∃ x rest, free = x :: rest := by
  obtain ⟨-, -, -, -, -, ids, hids, hcard⟩ := ha
  refine List.exists_cons_of_ne_nil fun hnil => Nat.not_le.mpr hcard ?_
  have hentry : ∀ i < ctx.slab.capacity,
      ∃ p, ctx.orderHashmap (ctx.slab.order i).orderId = some ⟨i, p⟩ := by
    intro i hi
    obtain ⟨id, p, he⟩ := h.used i hi (by simp [hnil])
    exact ⟨p, (h.book.entry he).1 ▸ he⟩
  have hle := Finset.card_le_card_of_injOn (s := Finset.range ctx.slab.capacity) (t := ids)
    (fun i => (ctx.slab.order i).orderId) (fun i hi => ?_) fun i hi j hj hij => ?_
  · rwa [Finset.card_range, show ctx.slab.capacity = limits.slots from
      congrArg BookLimits.slots h.limits] at hle
  · obtain ⟨p, he⟩ := hentry i (Finset.mem_range.mp hi)
    refine hids _ ?_
    rw [← h.contents]
    exact (known_of_entry he).trans_ne (by simp)
  · obtain ⟨p, he⟩ := hentry i (Finset.mem_range.mp hi)
    obtain ⟨q, he'⟩ := hentry j (Finset.mem_range.mp hj)
    rw [show (ctx.slab.order i).orderId = _ from hij, he'] at he
    cases he
    rfl

theorem Restored.insert {rec : OmWalInsert}
    (ha : c.Admits limits (.insert rec)) (hrec : (OmWalRecord.insert rec).Restorable config) :
    ∃ ctx' levels' free', recoverInsert K ctx rec = (.ok, ctx') ∧
      Restored config limits ctx' levels' free' (c.step (.insert rec)) := by
  obtain ⟨-, hzero, hnarrow, huser, haux⟩ := hrec
  obtain ⟨hnew, hactive, -, hproduct, horg, -⟩ := id ha
  have hproducts : ctx.maxProducts = limits.products := congrArg products h.limits
  have horgs : ctx.maxOrg = limits.orgs := congrArg orgs h.limits
  have hguard : ¬(ctx.slab.config.userDataSize < rec.userDataSize ∨
      ctx.slab.config.auxDataSize < rec.auxDataSize ∨ ctx.maxProducts ≤ rec.productId ∨
      ctx.maxOrg ≤ rec.org ∨ rec.orderId = 0) := by
    rw [h.config]
    omega
  have h := h.passOrderId rec.orderId
  set ctx₁ : OmOrderbookContext := { ctx with slab := VeloxMatch.passOrderId ctx.slab rec.orderId }
  obtain ⟨x, free, rfl⟩ := h.exists_free ha
  obtain ⟨slab, halloc, hspec, hbook, hun, hlt, hnot⟩ := h.book.allocSlot
  set ctx₂ : OmOrderbookContext := { ctx₁ with slab := restoreSlot slab x rec }
  have hbook₂ : BookInv ctx₂ levels free :=
    hbook.writeSlot ⟨hun, hnot, hspec.capacity ▸ hlt⟩ ⟨_, overwrite (slab.auxMemory x) rec.auxData⟩
  have hslot : ctx₂.slab.order x = ⟨rec.price, rec.volume, rec.volRemain, rec.org, rec.flags,
      rec.orderId, overwrite (slab.order x).data rec.userData⟩ := by
    rw [← Nat.mod_eq_of_lt hnarrow]
    exact (order_setOrder ..).trans (if_pos rfl)
  have hcontents : contentsOf ctx₂ levels none = c := by
    rw [← h.contents]
    refine contentsOf_congr h.book rfl fun id e he => ?_
    have hne := hun id e he
    exact (order_setOrder ..).trans ((if_neg hne).trans (hspec.order_same _ hne))
  have hfresh : ctx₂.orderHashmap rec.orderId = none := by
    by_contra hsome
    obtain ⟨e, he⟩ := Option.ne_none_iff_exists'.mp hsome
    rw [← hcontents] at hnew
    cases hnew.symm.trans (known_of_entry he)
  have hlog : ctx₂.log (fun w => omWalInsert w ctx₂.slab x rec.productId) = (true, ctx₂) := by
    rw [OmOrderbookContext.log, show ctx₂.wal = none from h.wal]
  obtain ⟨ctx', hrun, hbook', hkept, -, hhash⟩ := omOrderbookInsert_spec K hbook₂ hun hnot
    (hspec.capacity ▸ hlt) (by rw [Deactivated, hslot]; exact hactive)
    (show rec.productId < ctx₂.maxProducts from hproducts ▸ hproduct)
    (by rw [hslot]; exact horgs ▸ horg) (by rw [hslot]; exact hzero)
    (by rw [hslot]; exact hfresh) hlog
  have hstep := contentsOf_place hbook₂ (by rw [hslot]; exact hfresh) hkept.order hhash
  rw [hcontents, hslot] at hstep
  rw [hslot] at hhash
  refine ⟨ctx', _, free, ?_, hbook', hstep, hkept.wal.trans h.wal, ?_, ?_, fun i hi hfree => ?_,
    fun id hid => ?_⟩
  · unfold recoverInsert
    rw [if_neg hguard]
    dsimp only
    rw [halloc]
    dsimp only
    rw [hrun]
  · exact hkept.config.trans (hspec.config.trans h.config)
  · rw [hkept.limits, ← h.limits]
    exact congrArg (BookLimits.mk _ _) hspec.capacity
  · rcases eq_or_ne i x with rfl | hne
    · exact ⟨rec.orderId, rec.productId, by rw [hhash, update_self]⟩
    · have hcap : ctx'.slab.capacity = ctx₁.slab.capacity := hkept.capacity.trans hspec.capacity
      obtain ⟨id, q, he⟩ := h.used i (hcap ▸ hi) (by simp [hne, hfree])
      refine ⟨id, q, ?_⟩
      rw [hhash, update_of_ne]
      · exact he
      · rintro rfl
        cases hfresh.symm.trans he
  · rcases eq_or_ne id rec.orderId with rfl | hne
    · exact hnarrow
    · exact h.narrow id (by rwa [hhash, update_of_ne hne] at hid)

theorem Restored.record {rec : OmWalRecord}
    (ha : c.Admits limits rec) (hrec : rec.Restorable config) :
    ∃ ctx' levels' free', recoverRecord K ctx rec = (.ok, ctx') ∧
      Restored config limits ctx' levels' free' (c.step rec) := by
  cases rec with
  | insert rec => exact h.insert ha hrec
  | matched rec => exact h.matched ha hrec
  | cancel rec =>
    obtain ⟨o, ho, hactive⟩ := ha
    obtain ⟨x, p, b, hx, -, hid, -, -, hmod⟩ := h.resting ho hactive
    obtain ⟨levels', free', hcancel⟩ := h.cancel (K := K) hx
    rw [← hid] at hcancel
    exact ⟨_, levels', free', by rw [recoverRecord, hmod], hcancel⟩
  | deactivate rec =>
    obtain ⟨levels', free', hrest⟩ := h.deactivate (K := K) ha
    exact ⟨_, levels', free', rfl, hrest⟩
  | activate rec =>
    obtain ⟨levels', free', hrest⟩ := h.activate ha
    exact ⟨_, levels', free', rfl, hrest⟩
  | other => exact False.elim hrec

end Steps

theorem decode_restorable {rec : OmWalRecord} (hrec : rec.Restorable config) {r : WalReplayRecord}
    (htype : r.type = walTypeOf rec) (hdata : r.data = walPayloadOf rec) :
    r.passedOver = false ∧ decodeRecord r.type r.data = rec := by
  rw [WalReplayRecord.passedOver, htype, hdata]
  cases rec with
  | insert rec =>
    refine ⟨?_, decodeRecord_payload hrec.1⟩
    simp only [walTypeOf, walPayloadOf, insertPayload_length, ↓reduceIte, decide_eq_false_iff_not]
    omega
  | matched rec =>
    exact ⟨by simp [walTypeOf, walPayloadOf, walTypeMatch, walTypeInsert, walTypeCancel,
      walTypeDeactivate, walTypeActivate], decodeRecord_payload hrec.1⟩
  | cancel rec | deactivate rec | activate rec =>
    exact ⟨by simp [walTypeOf, walPayloadOf, walTypeInsert, walTypeCancel, walTypeDeactivate,
      walTypeActivate], decodeRecord_payload hrec⟩
  | other => exact False.elim hrec

theorem recoverLoop_append {stats stats' : OmWalReplayStats} {records more : List WalReplayRecord}
    (h : recoverLoop K none ctx stats records = (.ok, ctx', stats')) :
    recoverLoop K none ctx stats (records ++ more) = recoverLoop K none ctx' stats' more := by
  induction records generalizing ctx stats with
  | nil =>
    cases h
    rfl
  | cons r records ih =>
    rw [List.cons_append, recoverLoop]
    rw [recoverLoop] at h
    by_cases hpassed : r.passedOver = true
    · rw [if_pos hpassed] at h ⊢
      exact ih h
    · rw [if_neg hpassed] at h ⊢
      generalize recoverRecord K ctx (decodeRecord r.type r.data) = out at h
      obtain ⟨rc, ctx⟩ := out
      cases rc with
      | ok => exact ih h
      | _ => cases h

/-- The recovery takes a book that has been brought to the contents of a log on to those of a
longer one. -/
theorem Logged.restored {recs : List OmWalRecord} (h : Logged limits recs c)
    (hstart : Restored config limits ctx levels free .empty)
    (hrec : ∀ rec ∈ recs, rec.Restorable config) (stats : OmWalReplayStats)
    {replayed : List WalReplayRecord} (hreplayed : replayed.map (fun r => (r.type, r.data)) =
      recs.map fun rec => (walTypeOf rec, walPayloadOf rec)) :
    ∃ ctx' levels' free' stats', recoverLoop K none ctx stats replayed = (.ok, ctx', stats') ∧
      Restored config limits ctx' levels' free' c := by
  induction h generalizing replayed with
  | nil =>
    obtain rfl := List.map_eq_nil_iff.mp hreplayed
    exact ⟨ctx, levels, free, stats, rfl, hstart⟩
  | @snoc recs c rec _ ha ih =>
    rw [List.map_append] at hreplayed
    obtain ⟨replayed, last, rfl, hinit, hlast⟩ := List.map_eq_append_iff.mp hreplayed
    obtain ⟨r, rfl, hr⟩ := List.map_eq_singleton_iff.mp hlast
    obtain ⟨ctx₁, levels₁, free₁, stats₁, hloop, h₁⟩ :=
      ih (fun rec hmem => hrec rec (by simp [hmem])) hinit
    have hrec := hrec rec (by simp)
    obtain ⟨hpassed, hdecode⟩ := decode_restorable hrec (congrArg Prod.fst hr) (congrArg Prod.snd hr)
    obtain ⟨ctx', levels', free', hrun, h'⟩ := h₁.record (K := K) ha hrec
    refine ⟨ctx', levels', free', stats₁.count r, ?_, h'⟩
    rw [recoverLoop_append hloop, recoverLoop, if_neg (by simp [hpassed]), hdecode, hrun]
    rfl

end Restore

/-- Wherever a run of the engine is interrupted, recovery from what it has logged succeeds and gives
the orders of its book in the same queues, without a maker whose end has been logged. -/
theorem recovery_restores_book {K : Kavl} {config : OmSlabConfig} {handle : OmWalHandle}
    {maxProducts maxOrg : Nat} {ctx : OmOrderbookContext} {callbacks : OmEngineCallbacks}
    {s : EngineState}
    (hinit : omOrderbookInit config (some handle) maxProducts maxOrg = (.ok, some ctx))
    (hempty : handle.records = []) (h : Reach K EngineOk (.start ctx callbacks) s)
    (hrec : ∀ rec ∈ loggedRecords s.book.wal, rec.Restorable config)
    {replayed : List WalReplayRecord} (hreplayed : replayed.map (fun r => (r.type, r.data)) =
      (loggedRecords s.book.wal).map fun rec => (walTypeOf rec, walPayloadOf rec))
    (wal : Option OmWalHandle) :
    ∃ levels free ctx' levels' free' stats, BookInv s.book levels free ∧
      omOrderbookRecoverFromWal K (freshBook (freshSlab config) wal maxProducts maxOrg) replayed none =
        (.ok, ctx', stats) ∧
      BookInv ctx' levels' free' ∧
      contentsOf ctx' levels' none = contentsOf s.book levels s.view.pending := by
  obtain ⟨levels, free, hinv, hlog⟩ := Reach.logged hinit hempty h
  have h0 := (omOrderbookInit_ok hinit).1
  have hspec := (omSlabInit_spec h0).2
  have hstart : Restored config ⟨maxProducts, maxOrg, config.totalSlots⟩
      (freshBook (freshSlab config) none maxProducts maxOrg) (fun _ _ => [])
      (List.range config.totalSlots).reverse .empty := by
    refine ⟨bookInv_freshBook h0, rfl, rfl, hspec.config_eq, ?_, fun i hi hfree => ?_, nofun⟩
    · exact congrArg (BookLimits.mk _ _) hspec.capacity
    · exact absurd (by simpa using hspec.capacity ▸ hi) hfree
  obtain ⟨ctx', levels', free', stats, hloop, h'⟩ := hlog.logged.restored (K := K) hstart hrec
    ⟨0, 0, 0, 0, 0, 0⟩ hreplayed
  refine ⟨levels, free, { ctx' with wal := wal }, levels', free', stats, hinv.book, ?_,
    h'.book.setWal wal, h'.contents⟩
  exact congrArg (fun out => (out.1, { out.2.1 with wal := wal }, out.2.2)) hloop

/-- Of two bids at one price the older one is deactivated. -/
def restoredOps : List Op :=
  restOps ++ [.alloc, .write 1 (unitOrder 2 10 true), .submit 0 1 false, .tick, .tick, .deactivate 1]

theorem recovery_restores_book_small :
    Reach plainOps EngineOk loggedEngine
      (runOps plainOps loggedEngine restoredOps) ∧
    (loggedRecords (runOps plainOps loggedEngine restoredOps).book.wal).map walTypeOf =
      [walTypeInsert, walTypeInsert, walTypeDeactivate] ∧
    ∃ levels ctx' levels' stats,
      omOrderbookRecoverFromWal plainOps (freshBook (freshSlab smallConfig) none 1 1)
        ((loggedRecords (runOps plainOps loggedEngine restoredOps).book.wal).map
          fun rec => ⟨walTypeOf rec, 0, walPayloadOf rec⟩) none = (.ok, ctx', stats) ∧
      contentsOf ctx' levels' none =
        contentsOf (runOps plainOps loggedEngine restoredOps).book levels none := by
  have hreach : Reach plainOps EngineOk loggedEngine
      (runOps plainOps loggedEngine restoredOps) :=
    Allowed.reach _ (by decide +kernel) .start
  have hpend : (runOps plainOps loggedEngine restoredOps).view.pending = none := by
    decide +kernel
  have hlog : loggedRecords (runOps plainOps loggedEngine restoredOps).book.wal =
      [.insert ⟨1, 10, 1, 1, 0, omSideBid, 0, 0, 0, 0, [], []⟩,
        .insert ⟨2, 10, 1, 1, 0, omSideBid, 0, 0, 0, 1, [], []⟩, .deactivate ⟨1, 2, 2, 0⟩] := by
    decide +kernel
  refine ⟨hreach, by rw [hlog]; rfl, ?_⟩
  obtain ⟨levels, -, ctx', levels', -, stats, -, hrun, -, hcontents⟩ :=
    @recovery_restores_book plainOps smallConfig openLog 1 1 _ _ _ rfl rfl hreach
      (by simp [hlog, OmWalRecord.Restorable, OmWalInsert.Fits, OmWalCancel.Fits])
      (((loggedRecords (runOps plainOps loggedEngine restoredOps).book.wal).map
          fun rec => ⟨walTypeOf rec, 0, walPayloadOf rec⟩)) (List.map_map ..) none
  exact ⟨levels, ctx', levels', stats, hrun, hpend ▸ hcontents⟩

end VeloxMatch
