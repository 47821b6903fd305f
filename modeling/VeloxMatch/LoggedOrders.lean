import VeloxMatch.LiveOrders
import VeloxMatch.VolumeLedger

namespace VeloxMatch

open Function

variable {s : EngineState} {config : OmSlabConfig} {handle : OmWalHandle} {maxProducts maxOrg : Nat}
  {ctx : OmOrderbookContext} {K : Kavl} {limits : BookLimits} {levels : Levels}
  {callbacks : OmEngineCallbacks}

def liveAfter (rec : OmWalRecord) (live : Nat → Option LiveOrder) : Nat → Option LiveOrder :=
  match rec with
  | .insert rec => update live rec.orderId (some (.ofInsert rec))
  | .cancel rec | .deactivate rec => update live rec.orderId none
  | .matched rec => update live rec.makerId ((live rec.makerId).bind (·.fill rec.volume))
  | .activate _ | .other _ _ => live

theorem liveAt_liveStep {live : List LiveOrder} (hids : (live.map (·.orderId)).Nodup)
    (rec : OmWalRecord) : liveAt (liveStep live rec) = liveAfter rec (liveAt live) := by
  cases rec with
  | insert rec => exact liveAt_cons
  | cancel rec | deactivate rec => exact liveAt_leave
  | matched rec => exact liveAt_fill hids rec.makerId rec.volume
  | activate rec => rfl
  | other => rfl

def FreshInserts : List LiveOrder → List OmWalRecord → Prop
  | _, [] => True
  | live, rec :: recs => FreshInsert live rec ∧ FreshInserts (liveStep live rec) recs

theorem freshInserts_append {live : List LiveOrder} {recs recs' : List OmWalRecord} :
    FreshInserts live (recs ++ recs') ↔
      FreshInserts live recs ∧ FreshInserts (recs.foldl liveStep live) recs' := by
  induction recs generalizing live with
  | nil => exact (and_iff_right trivial).symm
  | cons rec recs ih =>
    rw [List.cons_append, FreshInserts, FreshInserts, ih, and_assoc]
    rfl

def loggedRecords : Option OmWalHandle → List OmWalRecord
  | none => []
  | some h => h.records

def loggedLive (w : Option OmWalHandle) : List LiveOrder := (loggedRecords w).foldl liveStep []

/-- The order that the book has under an id, unless it is deactivated or on its way out. -/
def EngineState.liveEntry (s : EngineState) (id : Nat) : Option LiveOrder :=
  (s.book.orderHashmap id).bind fun entry =>
    let o := s.book.slab.order entry.slotIdx
    if Deactivated s.book entry.slotIdx ∨ s.view.pending = some entry.slotIdx then none
    else some ⟨id, entry.productId, omIsBid o.flags, o.price, o.volumeRemain⟩

structure LogBook (s : EngineState) : Prop where
  logs : s.book.wal ≠ none
  fresh : FreshInserts [] (loggedRecords s.book.wal)
  ids : ((loggedLive s.book.wal).map (·.orderId)).Nodup
  live : liveAt (loggedLive s.book.wal) = s.liveEntry

section Log

variable {w w' : Option OmWalHandle} {r : OmWalHandle → OmWalRecord}

theorem Unlogged.records (h : Unlogged w w') (hlogs : w ≠ none) :
    w' ≠ none ∧ loggedRecords w' = loggedRecords w := by
  rcases h with rfl | ⟨h, rfl, rfl⟩
  · exact ⟨hlogs, rfl⟩
  · exact ⟨nofun, rfl⟩

theorem Appended.records (h : Appended w w' r) (hlogs : w ≠ none) :
    w' ≠ none ∧ ∃ h, loggedRecords w' = loggedRecords w ++ [r h] := by
  rcases h with ⟨hnone, -⟩ | ⟨h, rfl, -, rfl⟩
  · exact absurd hnone hlogs
  · exact ⟨nofun, h, rfl⟩

end Log

/-- The order of a book that the live orders have under its id. -/
def StoredOrder.toLive (o : StoredOrder) (id : Nat) : Option LiveOrder :=
  if o.Active then some ⟨id, o.productId, omIsBid o.flags, o.price, o.remaining⟩ else none

def Contents.live (c : Contents) (id : Nat) : Option LiveOrder :=
  (c.known id).bind fun o => o.toLive id

/-- A log that an engine can have written, and the contents that it leads to. -/
inductive Logged (limits : BookLimits) : List OmWalRecord → Contents → Prop where
  | nil : Logged limits [] .empty
  | snoc {recs : List OmWalRecord} {c : Contents} {rec : OmWalRecord} : Logged limits recs c →
      c.Admits limits rec → Logged limits (recs ++ [rec]) (c.step rec)

section Live

variable {c : Contents} {limits : BookLimits} {recs : List OmWalRecord} {rec : OmWalRecord}

theorem Contents.live_set (c : Contents) (id : Nat) (o : Option StoredOrder) :
    (c.set id o).live = update c.live id (o.bind fun o => o.toLive id) := by
  funext id'
  rcases eq_or_ne id' id with rfl | hne
  · simp [live, set]
  · simp [live, set, hne]

theorem Contents.live_step (ha : c.Admits limits rec) :
    (c.step rec).live = liveAfter rec c.live := by
  cases rec with
  | insert rec =>
    refine (c.live_set ..).trans (congrArg _ ?_)
    exact if_pos ha.2.1
  | cancel rec => exact c.live_set ..
  | matched rec =>
    obtain ⟨hpos, o, ho, hactive, hle⟩ := ha
    have hlive : c.live rec.makerId = some ⟨rec.makerId, o.productId, omIsBid o.flags, o.price,
        o.remaining⟩ := by
      rw [live, ho]
      exact if_pos hactive
    dsimp only [step, liveAfter]
    rw [ho, hlive, Option.bind_some, LiveOrder.fill]
    dsimp only
    by_cases hfilled : o.remaining ≤ rec.volume
    · rw [if_pos hfilled, if_pos ⟨by omega, hfilled⟩]
      exact live_set ..
    · rw [if_neg hfilled, if_neg fun h => hfilled h.2]
      exact (live_set ..).trans (congrArg _ (if_pos hactive))
  | deactivate rec =>
    obtain ⟨o, ho, -⟩ := ha
    refine (live_set ..).trans (congrArg _ ?_)
    rw [ho]
    refine if_neg (not_not.mpr ?_)
    rw [omGetStatus_omSetStatus]
    decide
  | activate rec =>
    obtain ⟨o, ho, hactive⟩ := ha
    refine (live_set ..).trans ?_
    have hlive : c.live rec.orderId = none := by
      rw [live, ho]
      exact if_neg hactive
    exact update_eq_self_iff.mpr hlive.symm
  | other => rfl

theorem Logged.live (h : Logged limits recs c) : FreshInserts [] recs ∧
    ((recs.foldl liveStep []).map (·.orderId)).Nodup ∧
      liveAt (recs.foldl liveStep []) = c.live := by
  induction h with
  | nil => exact ⟨trivial, List.nodup_nil, rfl⟩
  | @snoc recs c rec h ha ih =>
    obtain ⟨hfresh, hids, hlive⟩ := ih
    have hnew : FreshInsert (recs.foldl liveStep []) rec := by
      cases rec with
      | insert rec =>
        rw [FreshInsert, hlive, Contents.live, ha.1]
        rfl
      | _ => trivial
    rw [List.foldl_append]
    refine ⟨freshInserts_append.mpr ⟨hfresh, hnew, trivial⟩, liveStep_ids hids hnew, ?_⟩
    rw [Contents.live_step ha, ← hlive]
    exact liveAt_liveStep hids rec

theorem liveEntry_eq (s : EngineState) (levels : Levels) :
    s.liveEntry = (s.contents levels).live := by
  funext id
  change _ = (knownIn s.book s.view.pending id).bind _
  unfold EngineState.liveEntry
  cases he : s.book.orderHashmap id with
  | none => rw [known_of_none he, Option.bind_none, Option.bind_none]
  | some e =>
    rw [known_of_entry he, Option.bind_some]
    by_cases hout : s.view.pending = some e.slotIdx
    · rw [if_pos hout, if_pos (.inr hout), Option.bind_none]
    · rw [if_neg hout, Option.bind_some, StoredOrder.toLive]
      by_cases hd : Deactivated s.book e.slotIdx
      · exact (if_pos (.inl hd)).trans (if_neg (not_not.mpr hd)).symm
      · exact (if_neg fun h => h.elim hd hout).trans (if_pos hd).symm

end Live

structure LogAgrees (limits : BookLimits) (s : EngineState) (levels : Levels) : Prop where
  stocked : Stocked s
  logs : s.book.wal ≠ none
  limits_eq : s.book.limits = limits
  logged : Logged limits (loggedRecords s.book.wal) (s.contents levels)

theorem LogAgrees.logBook (h : LogAgrees limits s levels) : LogBook s := by
  obtain ⟨hfresh, hids, hlive⟩ := h.logged.live
  exact ⟨h.logs, hfresh, hids, hlive.trans (liveEntry_eq s levels).symm⟩

/-- A step logs at most one record. -/
theorem LogAgrees.step {op : Op} {s' : EngineState} {levels' : Levels} {free free' : List Nat}
    (h : LogAgrees limits s levels) (hinv : EngineInv s levels free) (hop : EngineOk s op)
    (he : Effect K op s levels free s'.call s'.view levels' free') :
    LogAgrees limits s' levels' ∧ (loggedRecords s'.book.wal = loggedRecords s.book.wal ∨
      ∃ rec, loggedRecords s'.book.wal = loggedRecords s.book.wal ++ [rec]) := by
  obtain ⟨hstocked, hwal, hlimits, hlogged⟩ := h
  have hlimits' := he.sameLimits.trans hlimits
  have hstep : LogStep s (s.contents levels) s'.book.wal (s'.contents levels') :=
    he.logStep hinv hop hstocked
  cases hstep with
  | silent hw hc =>
    obtain ⟨hwal', hrecords⟩ := hw.records hwal
    refine ⟨⟨he.stocked hinv hop hstocked, hwal', hlimits', ?_⟩, .inl hrecords⟩
    rw [hrecords, hc]
    exact hlogged
  | logs r hw hstep =>
    obtain ⟨hwal', w, hrecords⟩ := hw.records hwal
    refine ⟨⟨he.stocked hinv hop hstocked, hwal', hlimits', ?_⟩, .inr ⟨_, hrecords⟩⟩
    rw [hrecords, (hstep w).2]
    exact hlogged.snoc (hlimits ▸ (hstep w).1)

variable (hinit : omOrderbookInit config (some handle) maxProducts maxOrg = (.ok, some ctx))
  (hempty : handle.records = [])
include hinit hempty

theorem logAgrees_start (callbacks : OmEngineCallbacks) :
    LogAgrees ⟨maxProducts, maxOrg, config.totalSlots⟩
      (.start (freshBook (freshSlab config) (some handle) maxProducts maxOrg) callbacks)
      fun _ _ => [] where
  stocked := (ledger_start _ _ _ _ _).stocked
  logs := nofun
  limits_eq :=
    congrArg (BookLimits.mk _ _) (omSlabInit_spec (omOrderbookInit_ok hinit).1).2.capacity
  logged := by
    change Logged _ handle.records _
    rw [hempty]
    exact .nil

variable (h : Reach K EngineOk (.start ctx callbacks) s)
include h

/-- In every run of an engine with a log that was empty, the log leads to the contents of the
book. -/
theorem Reach.logged : ∃ levels free, EngineInv s levels free ∧
    LogAgrees ⟨maxProducts, maxOrg, config.totalSlots⟩ s levels :=
  Reach.effects (Q := fun s levels _ => LogAgrees _ s levels) hinit h (fun _ _ hok => hok.opOk)
    (logAgrees_start hinit hempty callbacks)
    fun _ _ _ _ _ _ hop hinv _ he hlog => (hlog.step hinv hop he).1

/-- In every run of an engine with a log that was empty, the log says which orders the book
has. -/
theorem Reach.logBook : ∃ levels free, EngineInv s levels free ∧ Stocked s ∧ LogBook s := by
  obtain ⟨levels, free, hinv, hlog⟩ := Reach.logged hinit hempty h
  exact ⟨levels, free, hinv, hlog.stocked, hlog.logBook⟩

end VeloxMatch
