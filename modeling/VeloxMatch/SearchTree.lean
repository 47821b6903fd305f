import Mathlib.Order.Lattice
import Mathlib.Data.List.Basic

namespace VeloxMatch

open List

/-- A binary tree whose nodes carry a key and a value. -/
inductive SearchTree (κ α : Type) where
  | leaf
  | node (left : SearchTree κ α) (key : κ) (value : α) (right : SearchTree κ α)

namespace SearchTree

variable {κ α : Type}

def toList : SearchTree κ α → List (κ × α)
  | leaf => []
  | node l k v r => l.toList ++ (k, v) :: r.toList

/-- Hang `s` below the rightmost node of `t`. -/
def joinRight (t s : SearchTree κ α) : SearchTree κ α :=
  match t with
  | leaf => s
  | node l k v r => node l k v (r.joinRight s)

theorem toList_joinRight (t s : SearchTree κ α) :
    (t.joinRight s).toList = t.toList ++ s.toList := by
  induction t with
  | leaf => rfl
  | node l k v r _ ihr => simp [joinRight, toList, ihr]

variable [LinearOrder κ]

def Ordered (t : SearchTree κ α) : Prop := t.toList.Pairwise (fun a b => a.1 < b.1)

theorem ordered_leaf : (leaf : SearchTree κ α).Ordered := List.Pairwise.nil

variable {k : κ} {v : α} {t : SearchTree κ α}

theorem ordered_node_iff {l r : SearchTree κ α} :
    (node l k v r).Ordered ↔ l.Ordered ∧ r.Ordered ∧
      (∀ a ∈ l.toList, a.1 < k) ∧ (∀ b ∈ r.toList, k < b.1) := by
  simp only [Ordered, toList, pairwise_append, pairwise_cons, mem_cons]
  constructor
  · rintro ⟨hl, ⟨hk, hr⟩, h⟩
    exact ⟨hl, hr, fun a ha => h a ha _ (Or.inl rfl), hk⟩
  · rintro ⟨hl, hr, ha, hb⟩
    refine ⟨hl, ⟨hb, hr⟩, ?_⟩
    rintro a hm b (rfl | hb')
    · exact ha a hm
    · exact lt_trans (ha a hm) (hb b hb')

theorem Ordered.value_unique (h : t.Ordered) {w : α} (hv : (k, v) ∈ t.toList)
    (hw : (k, w) ∈ t.toList) : v = w := by
  by_contra hne
  have hne' : (k, v) ≠ (k, w) := fun he => hne (Prod.mk.inj he).2
  rcases List.Pairwise.forall_of_forall_of_flip (R := fun a b => a = b ∨ a.1 ≠ b.1)
    (fun x _ => Or.inl rfl) (List.Pairwise.imp (fun h => Or.inr h.ne) h)
    (List.Pairwise.imp (fun h => Or.inr h.ne') h) hv hw with he | he
  · exact hne' he
  · exact he rfl

/-- What a balanced search tree's own insertion and erasure do to the nodes it holds. -/
structure Ops (κ α : Type) [LinearOrder κ] where
  insert : SearchTree κ α → κ → α → SearchTree κ α
  erase : SearchTree κ α → κ → SearchTree κ α
  ordered_insert : ∀ {t : SearchTree κ α} {k : κ} {v : α}, t.Ordered →
    (∀ w, (k, w) ∉ t.toList) → (insert t k v).Ordered
  mem_insert : ∀ {t : SearchTree κ α} {k : κ} {v : α}, t.Ordered →
    (∀ w, (k, w) ∉ t.toList) → ∀ x, x ∈ (insert t k v).toList ↔ x = (k, v) ∨ x ∈ t.toList
  ordered_erase : ∀ {t : SearchTree κ α} {k : κ}, t.Ordered → (erase t k).Ordered
  mem_erase : ∀ {t : SearchTree κ α} {k : κ}, t.Ordered →
    ∀ x, x ∈ (erase t k).toList ↔ x ∈ t.toList ∧ x.1 ≠ k

def insertPlain (t : SearchTree κ α) (k : κ) (v : α) : SearchTree κ α :=
  match t with
  | leaf => node leaf k v leaf
  | node l k' v' r =>
    if k < k' then node (l.insertPlain k v) k' v' r
    else if k' < k then node l k' v' (r.insertPlain k v)
    else node l k' v' r

/-- Erasure that joins the two subtrees, without rebalancing. -/
def erasePlain (t : SearchTree κ α) (k : κ) : SearchTree κ α :=
  match t with
  | leaf => leaf
  | node l k' v' r =>
    if k < k' then node (l.erasePlain k) k' v' r
    else if k' < k then node l k' v' (r.erasePlain k)
    else l.joinRight r

theorem mem_insertPlain (hk : ∀ w, (k, w) ∉ t.toList)
    (x : κ × α) : x ∈ (t.insertPlain k v).toList ↔ x = (k, v) ∨ x ∈ t.toList := by
  induction t with
  | leaf => simp [insertPlain, toList]
  | node l k' v' r ihl ihr =>
    simp only [toList, mem_append, mem_cons, not_or] at hk
    have hl := ihl (fun w => (hk w).1)
    have hr := ihr (fun w => (hk w).2.2)
    unfold insertPlain
    split
    next => simp only [toList, mem_append, mem_cons, hl, or_assoc]
    next h1 =>
      split
      next =>
        simp only [toList, mem_append, mem_cons, hr]
        constructor
        · rintro (h | h | h | h) <;> simp [h]
        · rintro (h | h | h | h) <;> simp [h]
      next h2 =>
        have he : k = k' := le_antisymm (not_lt.mp h2) (not_lt.mp h1)
        subst he
        exact absurd rfl (hk v').2.1

theorem ordered_insertPlain (h : t.Ordered)
    (hk : ∀ w, (k, w) ∉ t.toList) : (t.insertPlain k v).Ordered := by
  induction t with
  | leaf => simp [insertPlain, Ordered, toList]
  | node l k' v' r ihl ihr =>
    obtain ⟨hl, hr, ha, hb⟩ := ordered_node_iff.mp h
    simp only [toList, mem_append, mem_cons, not_or] at hk
    unfold insertPlain
    split
    next hlt =>
      refine ordered_node_iff.mpr ⟨ihl hl (fun w => (hk w).1), hr, ?_, hb⟩
      intro a hm
      rcases (mem_insertPlain (fun w => (hk w).1) a).mp hm with rfl | hm
      · exact hlt
      · exact ha a hm
    next =>
      split
      next hlt =>
        refine ordered_node_iff.mpr ⟨hl, ihr hr (fun w => (hk w).2.2), ha, ?_⟩
        intro b hm
        rcases (mem_insertPlain (fun w => (hk w).2.2) b).mp hm with rfl | hm
        · exact hlt
        · exact hb b hm
      next => exact h

theorem mem_erasePlain (h : t.Ordered) (x : κ × α) :
    x ∈ (t.erasePlain k).toList ↔ x ∈ t.toList ∧ x.1 ≠ k := by
  induction t with
  | leaf => simp [erasePlain, toList]
  | node l k' v' r ihl ihr =>
    obtain ⟨hl, hr, ha, hb⟩ := ordered_node_iff.mp h
    have hne : ∀ y ∈ l.toList, k' < k ∨ k' = k → y.1 ≠ k := by
      rintro y hy (hlt | rfl)
      · exact (lt_trans (ha y hy) hlt).ne
      · exact (ha y hy).ne
    have hne' : ∀ y ∈ r.toList, k < k' ∨ k' = k → y.1 ≠ k := by
      rintro y hy (hlt | rfl)
      · exact (lt_trans hlt (hb y hy)).ne'
      · exact (hb y hy).ne'
    unfold erasePlain
    split
    next hlt =>
      simp only [toList, mem_append, mem_cons, ihl hl]
      constructor
      · rintro (⟨hm, hx⟩ | rfl | hm)
        · exact ⟨Or.inl hm, hx⟩
        · exact ⟨Or.inr (Or.inl rfl), hlt.ne'⟩
        · exact ⟨Or.inr (Or.inr hm), hne' x hm (Or.inl hlt)⟩
      · rintro ⟨hm | rfl | hm, hx⟩
        · exact Or.inl ⟨hm, hx⟩
        · exact Or.inr (Or.inl rfl)
        · exact Or.inr (Or.inr hm)
    next h1 =>
      split
      next hlt =>
        simp only [toList, mem_append, mem_cons, ihr hr]
        constructor
        · rintro (hm | rfl | ⟨hm, hx⟩)
          · exact ⟨Or.inl hm, hne x hm (Or.inl hlt)⟩
          · exact ⟨Or.inr (Or.inl rfl), hlt.ne⟩
          · exact ⟨Or.inr (Or.inr hm), hx⟩
        · rintro ⟨hm | rfl | hm, hx⟩
          · exact Or.inl hm
          · exact Or.inr (Or.inl rfl)
          · exact Or.inr (Or.inr ⟨hm, hx⟩)
      next h2 =>
        have he : k' = k := le_antisymm (not_lt.mp h1) (not_lt.mp h2)
        simp only [toList_joinRight, toList, mem_append, mem_cons]
        constructor
        · rintro (hm | hm)
          · exact ⟨Or.inl hm, hne x hm (Or.inr he)⟩
          · exact ⟨Or.inr (Or.inr hm), hne' x hm (Or.inr he)⟩
        · rintro ⟨hm | rfl | hm, hx⟩
          · exact Or.inl hm
          · exact absurd he hx
          · exact Or.inr hm

theorem ordered_erasePlain (h : t.Ordered) : (t.erasePlain k).Ordered := by
  induction t with
  | leaf => exact ordered_leaf
  | node l k' v' r ihl ihr =>
    obtain ⟨hl, hr, ha, hb⟩ := ordered_node_iff.mp h
    unfold erasePlain
    split
    next =>
      exact ordered_node_iff.mpr ⟨ihl hl, hr, fun a hm => ha a ((mem_erasePlain hl a).mp hm).1, hb⟩
    next =>
      split
      next =>
        exact ordered_node_iff.mpr ⟨hl, ihr hr, ha, fun b hm => hb b ((mem_erasePlain hr b).mp hm).1⟩
      next =>
        unfold Ordered
        rw [toList_joinRight]
        exact pairwise_append.mpr ⟨hl, hr, fun a hm b hm' => lt_trans (ha a hm) (hb b hm')⟩

def plainOps : Ops κ α where
  insert := insertPlain
  erase := erasePlain
  ordered_insert := ordered_insertPlain
  mem_insert := fun _ hk => mem_insertPlain hk
  ordered_erase := ordered_erasePlain
  mem_erase := mem_erasePlain

end SearchTree

end VeloxMatch
