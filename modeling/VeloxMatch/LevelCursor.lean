import VeloxMatch.BookPark

namespace VeloxMatch

open Level List

/-- The level that a queue of slots makes; no slots make no level. -/
def Level.ofSlots : List Nat → List Level
  | [] => []
  | i :: rest => [⟨i, rest⟩]

@[simp] theorem queueOf_ofSlots (slots : List Nat) : queueOf (Level.ofSlots slots) = slots := by
  cases slots <;> simp [Level.ofSlots, queueOf, Level.slots]

@[simp] theorem ofSlots_slots (l : Level) : ofSlots l.slots = [l] := rfl

theorem slots_of_mem_ofSlots {slots : List Nat} {l : Level} (h : l ∈ ofSlots slots) :
    l.slots = slots := by
  cases slots with
  | nil => simp [ofSlots] at h
  | cons i rest =>
    simp only [ofSlots, mem_singleton] at h
    rw [h, Level.slots]

/-- A nested traversal of a side. The levels `pre` were passed and `post` are to come; of the
level in between, which may have been emptied, `visited` was passed and `todo` is to come. -/
structure Cursor (levels pre : List Level) (visited todo : List Nat) (post : List Level)
    (nextLevelIdx idx : Option Nat) : Prop where
  levels_eq : levels = pre ++ ofSlots (visited ++ todo) ++ post
  nextLevel_eq : nextLevelIdx = front (post.map head) none
  idx_eq : idx = front todo none

section Cursor

variable {s : OmDualSlab} {head : Option Nat} {tree : PriceTree} {isBid : Bool}
  {levels pre post : List Level} {visited todo : List Nat} {nextLevelIdx idx : Option Nat} {i : Nat}

theorem SideShape.no_level (h : SideShape s head tree isBid (pre ++ post))
    (hs : omSlotFromIdx s (front (post.map Level.head) none) = none) : post = [] := by
  cases post with
  | nil => rfl
  | cons l post' =>
    have hl : l.head < s.capacity := h.lt_capacity _ (head_mem_queueOf (by simp))
    simp [omSlotFromIdx_some hl] at hs

theorem SideShape.some_level (h : SideShape s head tree isBid (pre ++ post))
    (hs : omSlotFromIdx s (front (post.map Level.head) none) = some i) :
    ∃ l post', post = l :: post' ∧ l.head = i ∧
      s.next .priceLadder l.head = front (post'.map Level.head) none := by
  cases post with
  | nil => simp at hs
  | cons l post' =>
    have hl : l.head < s.capacity := h.lt_capacity _ (head_mem_queueOf (by simp))
    simp only [map_cons, front_cons, omSlotFromIdx_some hl] at hs
    refine ⟨l, post', rfl, Option.some.inj hs, ?_⟩
    have hladder := h.ladder
    rw [map_append, map_cons] at hladder
    exact hladder.links_of_split.2

theorem Cursor.mem_queueOf (h : Cursor levels pre visited todo post nextLevelIdx idx)
    (hi : i ∈ visited ++ todo) : i ∈ queueOf levels := by
  rw [h.levels_eq]
  simp only [queueOf_append, queueOf_ofSlots, mem_append] at hi ⊢
  exact Or.inl (Or.inr hi)

theorem Cursor.no_slot (hc : Cursor levels pre visited todo post nextLevelIdx idx)
    (h : SideShape s head tree isBid levels) (hs : omSlotFromIdx s idx = none) : todo = [] := by
  cases todo with
  | nil => rfl
  | cons i todo' =>
    have hi : i < s.capacity := h.lt_capacity _ (hc.mem_queueOf (by simp))
    simp [hc.idx_eq, omSlotFromIdx_some hi] at hs

theorem Cursor.some_slot (hc : Cursor levels pre visited todo post nextLevelIdx idx)
    (h : SideShape s head tree isBid levels) (hs : omSlotFromIdx s idx = some i) :
    ∃ todo', todo = i :: todo' ∧ s.next .timeFifo i = front todo' none := by
  cases todo with
  | nil => simp [hc.idx_eq] at hs
  | cons j todo' =>
    have hj : j < s.capacity := h.lt_capacity _ (hc.mem_queueOf (by simp))
    simp only [hc.idx_eq, front_cons, omSlotFromIdx_some hj] at hs
    cases hs
    obtain ⟨l, hl⟩ : ∃ l : Level, ofSlots (visited ++ i :: todo') = [l] := by
      cases visited <;> exact ⟨_, rfl⟩
    have hslots : l.slots = visited ++ i :: todo' := slots_of_mem_ofSlots (by simp [hl])
    have hq := h.queues l (by simp [hc.levels_eq, hl])
    rw [hslots] at hq
    exact ⟨todo', rfl, hq.links_of_split.2⟩

theorem dropFrom_cursor (h : (queueOf (pre ++ ofSlots (visited ++ i :: todo) ++ post)).Nodup) :
    dropFrom i (pre ++ ofSlots (visited ++ i :: todo) ++ post) =
      pre ++ ofSlots (visited ++ todo) ++ post := by
  simp only [queueOf_append, queueOf_ofSlots] at h
  have hsplit := nodup_append.mp (nodup_append.mp h).1
  have hpre : i ∉ queueOf pre := fun hm => hsplit.2.2 i hm i (by simp) rfl
  have hvisited : i ∉ visited :=
    fun hm => (nodup_append.mp hsplit.2.1).2.2 i hm i (by simp) rfl
  rw [append_assoc, dropFrom_append hpre, append_assoc]
  congr 1
  cases visited with
  | nil => cases todo <;> simp [ofSlots, dropFrom]
  | cons j visited =>
    simp only [mem_cons, not_or] at hvisited
    have hne : j ≠ i := fun he => hvisited.1 he.symm
    simp [ofSlots, dropFrom, hne, erase_append_right _ hvisited.2]

theorem Cursor.start (levels : List Level) (l : Level) (h : levels = pre ++ l :: post) :
    Cursor levels pre [] l.slots post (front (post.map Level.head) none) (some l.head) where
  levels_eq := by simp [h]
  nextLevel_eq := rfl
  idx_eq := rfl

theorem Cursor.leave (h : Cursor levels pre visited [] post nextLevelIdx idx) :
    levels = (pre ++ ofSlots visited) ++ post ∧
      nextLevelIdx = front (post.map Level.head) none :=
  ⟨by simpa using h.levels_eq, h.nextLevel_eq⟩

theorem Cursor.advance (h : Cursor levels pre visited (i :: todo) post nextLevelIdx idx) :
    Cursor levels pre (visited ++ [i]) todo post nextLevelIdx (front todo none) where
  levels_eq := by simp [h.levels_eq]
  nextLevel_eq := h.nextLevel_eq
  idx_eq := rfl

theorem Cursor.finish (h : Cursor levels pre visited todo post nextLevelIdx idx) :
    Cursor levels pre (visited ++ todo) [] post nextLevelIdx none where
  levels_eq := by simp [h.levels_eq]
  nextLevel_eq := h.nextLevel_eq
  idx_eq := rfl

theorem Cursor.drop (h : Cursor levels pre visited (i :: todo) post nextLevelIdx idx)
    (hnd : (queueOf levels).Nodup) :
    Cursor (dropFrom i levels) pre visited todo post nextLevelIdx (front todo none) where
  levels_eq := by
    rw [h.levels_eq] at hnd ⊢
    exact dropFrom_cursor hnd
  nextLevel_eq := h.nextLevel_eq
  idx_eq := rfl

end Cursor

end VeloxMatch
