import VeloxMatch.Representation
import VeloxMatch.EngineContents

namespace VeloxMatch

open EngineState SearchTree

section Ledger

variable {K : Kavl} {op : Op} {s : EngineState} {levels levels' : Levels} {free free' : List Nat}
  {call : Option Call} {v : View}

theorem Effect.posting (he : Effect K op s levels free call v levels' free')
    (hinv : EngineInv s levels free) :
    Posting s v.trace fun i => (v.book.slab.order i).volumeRemain := by
  cases he with
  | quiet | noteDead | empty | note => exact .none rfl rfl
  | @alloc x rest slab _ hspec =>
    exact .cleared x rfl fun i hi => congrArg OmOrderFields.volumeRemain (hspec.order_same i hi)
  | @release x =>
    exact .none rfl (funext fun i =>
      congrArg OmOrderFields.volumeRemain ((omSlabFree_spec s.book.slab x).order_same i))
  | @write x order =>
    refine .cleared x rfl fun i hi => ?_
    change ((s.book.slab.setOrder x order.order).order i).volumeRemain = _
    simp [hi, volume]
  | @submit p x => exact .submitted x rfl rfl
  | @reduce f _ levelPrice maker qty w hcall hm _ _ hq hqm hqt =>
    have hne : maker ≠ f.taker := (hinv.matching hcall).1.resting_ne_taker hm
    refine .traded maker f.taker qty hne hq hqm hqt rfl ?_ ?_ fun i him hit => ?_
    · simp [order_withVolume, hne, volume]
    · simp [order_withVolume, volume]
    · simp [order_withVolume, him, hit, volume]
  | @remove f _ p maker b ctx both _ _ _ _ hleft =>
    have hkept : ∀ i, (ctx.slab.order i).volumeRemain = s.volume i := fun i =>
      congrArg OmOrderFields.volumeRemain (hleft.kept.order i)
    cases both with
    | false => exact .none rfl (funext hkept)
    | true =>
      refine .forfeited f.taker rfl ?_ fun i hi => ?_
      · simp [order_withVolume]
      · simp only [↓reduceIte, order_withVolume, if_neg hi]
        exact hkept i
  | place _ _ _ _ _ _ hbooked =>
    exact .none rfl (funext fun i => congrArg OmOrderFields.volumeRemain (hbooked.kept.order i))
  | cancel _ _ _ _ hleft | cancelDead _ _ _ _ hleft =>
    exact .none rfl (funext fun i => congrArg OmOrderFields.volumeRemain (hleft.kept.order i))
  | park _ _ _ _ hkept =>
    exact .none rfl (funext fun i => (volumeRemain_setStatus _ _ _ i).trans
      (congrArg OmOrderFields.volumeRemain (hkept.order i)))
  | unpark => exact .none rfl (funext (volumeRemain_setStatus _ _ _))
  | @unparkUsed id p x w ctx _ _ _ hctx =>
    refine .none rfl (funext fun i => ?_)
    rw [hctx, (omSlabFree_spec _ x).order_same]
    exact volumeRemain_setStatus _ _ _ i

/-- A `traded` event stands for a deal or a decrement, for which a MATCH record is logged. -/
theorem Effect.traded_logged (he : Effect K op s levels free call v levels' free')
    {maker taker qty : Nat} (htrace : v.trace = s.engine.trace ++ [.traded maker taker qty]) :
    ∃ f activating levelPrice, s.call = some (.matching f activating) ∧ f.taker = taker ∧
      Appended s.book.wal v.book.wal
        (fun _ => .matched (matchRecord s.engine f levelPrice maker qty)) := by
  cases he with
  | @reduce f activating levelPrice _ _ w hcall _ _ _ _ _ _ happended =>
    cases List.append_cancel_left htrace
    exact ⟨f, activating, levelPrice, hcall, rfl, happended⟩
  | remove both => cases both <;> simp at htrace
  | alloc | write | submit => cases List.append_cancel_left htrace
  | quiet | release | empty | note | noteDead | place | cancel | cancelDead | park | unpark
  | unparkUsed => simp [view] at htrace

structure Ledger (s : EngineState) : Prop where
  balanced : Balanced s
  stocked : Stocked s

theorem ledger_start (slab : OmDualSlab) (wal : Option OmWalHandle) (maxProducts maxOrg : Nat)
    (callbacks : OmEngineCallbacks) :
    Ledger (.start (freshBook slab wal maxProducts maxOrg) callbacks) where
  balanced := fun i a ha => by simp [start, accountOf] at ha
  stocked := fun id entry he => by cases he

end Ledger

section Run

variable {K : Kavl} {config : OmSlabConfig} {wal : Option OmWalHandle}
  {maxProducts maxOrg : Nat} {ctx : OmOrderbookContext} {callbacks : OmEngineCallbacks}
  {s : EngineState} (hinit : omOrderbookInit config wal maxProducts maxOrg = (.ok, some ctx))
  (h : Reach K EngineOk (.start ctx callbacks) s)
include hinit h

theorem Reach.ledger : ∃ levels free, EngineInv s levels free ∧ Ledger s :=
  Reach.effects (Q := fun s _ _ => Ledger s) hinit h (fun _ _ hok => hok.opOk)
    (ledger_start _ _ _ _ _)
    fun _ _ _ _ _ _ hop hinv _ he hq =>
      ⟨(he.posting hinv).balanced hq.balanced, he.stocked hinv hop hq.stocked⟩

/-- Through any run of the engine, with any callbacks and any refused appends: what an order
was submitted with is what it has traded plus what is left, until its slot serves another
order; every event takes the same volume from maker and taker, and its MATCH record is logged; and
between calls every order the book knows has volume left. -/
theorem volume_conserved :
    (∀ before x v life, s.engine.trace = before ++ .submitted x v :: life →
      (∀ e ∈ life, e.renews x = false) →
      if .forfeited x ∈ life then s.volume x = 0 ∧ tradedIn life x ≤ v
      else v = tradedIn life x + s.volume x) ∧
    (s.call = none → ∀ id entry, s.book.orderHashmap id = some entry →
      0 < s.volume entry.slotIdx) ∧
    (∀ op, EngineOk s op → ∀ maker taker qty,
      (engineStep K s op).engine.trace = s.engine.trace ++ [.traded maker taker qty] →
      maker ≠ taker ∧ 0 < qty ∧
      s.volume maker = (engineStep K s op).volume maker + qty ∧
      s.volume taker = (engineStep K s op).volume taker + qty ∧
      ∃ f activating levelPrice, s.call = some (.matching f activating) ∧ f.taker = taker ∧
        Appended s.book.wal (engineStep K s op).book.wal
          (fun _ => .matched (matchRecord s.engine f levelPrice maker qty))) := by
  obtain ⟨levels, free, hinv, hledger⟩ := Reach.ledger hinit h
  refine ⟨?_, ?_, ?_⟩
  · intro before x v life htrace hlife
    have hbal := hledger.balanced x _ (htrace ▸ accountOf_of_life hlife)
    simpa [Account.Balanced] using hbal
  · exact hledger.stocked.of_idle
  · intro op hop maker taker qty htrace
    obtain ⟨levels', free', -, he⟩ := engineStep_stepped (K := K) hinv hop.opOk
    obtain ⟨hne, hpos, hmaker, htaker⟩ := (he.posting hinv).of_traded htrace
    exact ⟨hne, hpos, hmaker, htaker, he.traded_logged htrace⟩

end Run

def crossOps : List Op :=
  [.alloc, .write 2 (unitOrder 1 10 true), .submit 0 2 false, .tick, .tick,
    .alloc, .write 1 (unitOrder 2 10 false), .submit 0 1 false, .tick, .tick, .tick, .tick]

theorem volume_conserved_small :
    Reach plainOps EngineOk smallEngine
      (runOps plainOps smallEngine crossOps) ∧
    (runOps plainOps smallEngine crossOps).engine.trace =
      [.cleared 2, .cleared 2] ++ .submitted 2 1 ::
        [.cleared 1, .cleared 1, .submitted 1 1, .traded 2 1 1] ∧
    1 = tradedIn [.cleared 1, .cleared 1, .submitted 1 1, .traded 2 1 1] 2 +
      (runOps plainOps smallEngine crossOps).volume 2 := by
  have hreach : Reach plainOps EngineOk smallEngine
      (runOps plainOps smallEngine crossOps) :=
    Allowed.reach _ (by decide +kernel) .start
  have htrace : (runOps plainOps smallEngine crossOps).engine.trace =
      [.cleared 2, .cleared 2] ++ .submitted 2 1 ::
        [.cleared 1, .cleared 1, .submitted 1 1, .traded 2 1 1] := by decide +kernel
  exact ⟨hreach, htrace, (volume_conserved smallEngine_init hreach).1 _ _ _ _ htrace (by decide)⟩

end VeloxMatch
