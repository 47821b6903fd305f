import VeloxMatch.EngineRun
import Mathlib.Algebra.GroupWithZero.Nat

namespace VeloxMatch

open LifeEvent

variable {slot : Nat} {life : List LifeEvent} {s s' : EngineState}

/-- What has become of the volume an order was submitted with. -/
structure Account where
  submitted : Nat
  traded : Nat
  forfeited : Bool
  deriving DecidableEq, Repr

def LifeEvent.tradedBy (slot : Nat) : LifeEvent → Nat
  | .traded maker taker qty => if maker = slot ∨ taker = slot then qty else 0
  | _ => 0

def LifeEvent.renews (slot : Nat) : LifeEvent → Bool
  | .cleared x | .submitted x _ => x = slot
  | _ => false

def LifeEvent.post (slot : Nat) (event : LifeEvent) (account : Option Account) : Option Account :=
  match event with
  | .cleared x => if x = slot then none else account
  | .submitted x volume => if x = slot then some ⟨volume, 0, false⟩ else account
  | .traded _ _ _ => account.map fun a => { a with traded := a.traded + event.tradedBy slot }
  | .forfeited x => if x = slot then account.map ({ · with forfeited := true }) else account

def accountOf (trace : List LifeEvent) (slot : Nat) : Option Account :=
  trace.foldl (fun account event => event.post slot account) none

def tradedIn (trace : List LifeEvent) (slot : Nat) : Nat :=
  (trace.map (tradedBy slot)).sum

/-- The traded and the remaining volume make up the submitted one, unless the rest was
cancelled together with a maker. -/
def Account.Balanced (a : Account) (remain : Nat) : Prop :=
  if a.forfeited then remain = 0 ∧ a.traded ≤ a.submitted else a.submitted = a.traded + remain

theorem accountOf_concat (trace : List LifeEvent) (event : LifeEvent) (slot : Nat) :
    accountOf (trace ++ [event]) slot = event.post slot (accountOf trace slot) := by
  simp [accountOf]

theorem post_of_life {e : LifeEvent} (h : e.renews slot = false) (a : Account) :
    e.post slot (some a) = some ⟨a.submitted, a.traded + e.tradedBy slot,
      a.forfeited || decide (e = .forfeited slot)⟩ := by
  cases e with
  | cleared x | submitted x volume =>
    have hx : x ≠ slot := by simpa [renews] using h
    simp [post, tradedBy, hx]
  | traded maker taker qty => simp [post, tradedBy]
  | forfeited x =>
    by_cases hx : x = slot
    · simp [post, tradedBy, hx]
    · simp [post, tradedBy, hx]

theorem foldl_post_of_life {a : Account} (hlife : ∀ e ∈ life, e.renews slot = false) :
    life.foldl (fun account event => event.post slot account) (some a) =
      some ⟨a.submitted, a.traded + tradedIn life slot,
        a.forfeited || decide (.forfeited slot ∈ life)⟩ := by
  induction life generalizing a with
  | nil => simp [tradedIn]
  | cons e life ih =>
    rw [List.foldl_cons, post_of_life (hlife e (by simp)), ih fun e h => hlife e (by simp [h])]
    simp [tradedIn, Nat.add_assoc, Bool.or_assoc, eq_comm]

theorem accountOf_of_life {volume : Nat} {before : List LifeEvent}
    (hlife : ∀ e ∈ life, e.renews slot = false) :
    accountOf (before ++ .submitted slot volume :: life) slot =
      some ⟨volume, tradedIn life slot, decide (.forfeited slot ∈ life)⟩ := by
  have hrun := foldl_post_of_life (a := ⟨volume, 0, false⟩) hlife
  simpa [accountOf, post] using hrun

def EngineState.volume (s : EngineState) (i : Nat) : Nat := (s.book.slab.order i).volumeRemain

/-- One step posts at most one event, and the volumes follow it. -/
inductive Posting (s : EngineState) (trace : List LifeEvent) (volume : Nat → Nat) : Prop where
  | none : trace = s.engine.trace → volume = s.volume → Posting s trace volume
  | cleared (x : Nat) : trace = s.engine.trace ++ [.cleared x] →
      (∀ i, i ≠ x → volume i = s.volume i) → Posting s trace volume
  | submitted (x : Nat) : trace = s.engine.trace ++ [.submitted x (s.volume x)] →
      volume = s.volume → Posting s trace volume
  | traded (maker taker qty : Nat) : maker ≠ taker → 0 < qty → qty ≤ s.volume maker →
      qty ≤ s.volume taker → trace = s.engine.trace ++ [.traded maker taker qty] →
      volume maker = s.volume maker - qty → volume taker = s.volume taker - qty →
      (∀ i, i ≠ maker → i ≠ taker → volume i = s.volume i) → Posting s trace volume
  | forfeited (x : Nat) : trace = s.engine.trace ++ [.forfeited x] →
      volume x = 0 → (∀ i, i ≠ x → volume i = s.volume i) → Posting s trace volume

def Balanced (s : EngineState) : Prop :=
  ∀ i, ∀ a ∈ accountOf s.engine.trace i, a.Balanced (s.volume i)

theorem Posting.balanced (hp : Posting s s'.engine.trace s'.volume) (h : Balanced s) : Balanced s' := by
  intro i a ha
  cases hp with
  | none ht hv =>
    rw [ht] at ha
    rw [hv]
    exact h i a ha
  | cleared x ht hv =>
    rw [ht, accountOf_concat, post] at ha
    by_cases hx : x = i
    · simp [hx] at ha
    · rw [if_neg hx] at ha
      rw [hv i fun he => hx he.symm]
      exact h i a ha
  | submitted x ht hv =>
    rw [ht, accountOf_concat, post] at ha
    rw [hv]
    by_cases hx : x = i
    · rw [if_pos hx] at ha
      cases ha
      simp [Account.Balanced, hx]
    · rw [if_neg hx] at ha
      exact h i a ha
  | traded maker taker qty hne hq hm hk ht hvm hvt hv =>
    rw [ht, accountOf_concat, post, Option.mem_def, Option.map_eq_some_iff] at ha
    obtain ⟨b, hb, rfl⟩ := ha
    have hbal := h i b hb
    simp only [Account.Balanced, tradedBy] at hbal ⊢
    by_cases him : i = maker
    · subst him
      simp only [true_or, ↓reduceIte, hvm]
      by_cases hf : b.forfeited = true
      · rw [if_pos hf] at hbal
        omega
      · rw [if_neg hf] at hbal ⊢
        omega
    · by_cases hit : i = taker
      · subst hit
        simp only [or_true, ↓reduceIte, hvt]
        by_cases hf : b.forfeited = true
        · rw [if_pos hf] at hbal
          omega
        · rw [if_neg hf] at hbal ⊢
          omega
      · have hnot : ¬ (maker = i ∨ taker = i) := by
          rintro (he | he)
          · exact him he.symm
          · exact hit he.symm
        rw [if_neg hnot, hv i him hit]
        exact hbal
  | forfeited x ht hx hv =>
    rw [ht, accountOf_concat, post] at ha
    by_cases hxi : x = i
    · rw [if_pos hxi, Option.mem_def, Option.map_eq_some_iff] at ha
      obtain ⟨b, hb, rfl⟩ := ha
      have hbal := h i b hb
      simp only [Account.Balanced, ↓reduceIte] at hbal ⊢
      refine ⟨hxi ▸ hx, ?_⟩
      split at hbal
      · exact hbal.2
      · omega
    · rw [if_neg hxi] at ha
      rw [hv i fun he => hxi he.symm]
      exact h i a ha

theorem Posting.of_traded (hp : Posting s s'.engine.trace s'.volume) {maker taker qty : Nat}
    (ht : s'.engine.trace = s.engine.trace ++ [.traded maker taker qty]) :
    maker ≠ taker ∧ 0 < qty ∧ s.volume maker = s'.volume maker + qty ∧
      s.volume taker = s'.volume taker + qty := by
  cases hp with
  | none h _ | cleared _ h _ | submitted _ h _ | forfeited _ h _ _ =>
    rw [ht] at h
    simp at h
  | traded maker' taker' qty' hne hq hm hk h hvm hvt _ =>
    rw [ht, List.append_cancel_left_eq] at h
    cases h
    exact ⟨hne, hq, by omega, by omega⟩

end VeloxMatch
