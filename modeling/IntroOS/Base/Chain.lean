import Mathlib.Data.List.Basic
import Mathlib.Logic.Function.Basic

/-! # Singly linked lists on a heap

A heap maps addresses to nodes; a freed or unused address maps to `none`. `Chain heap p cells`
says that the pointer `p` leads through exactly the cells `cells` (address and item) to NULL.

* `Chain.det`, `Chain.nodup`: a pointer leads through one list of cells only, and through no
  address twice;
* `Chain.frame`: changes elsewhere do not matter;
* `Chain.free_head`, `Chain.link_last`: the two ends of a queue;
* `Chain.rotate`: the first node becomes the last one.
-/

namespace IntroOS

universe u v

variable {A : Type u} {I : Type v}

/-- A list node: its item, and the next node or NULL. -/
structure Node (A : Type u) (I : Type v) where
  item : I
  next : Option A
deriving DecidableEq, Repr

/-- The list that starts at `p`. -/
def Chain (heap : A → Option (Node A I)) : Option A → List (A × I) → Prop
  | p, [] => p = none
  | p, c :: cells => p = some c.1 ∧ ∃ next, heap c.1 = some ⟨c.2, next⟩ ∧ Chain heap next cells

section Chain

variable {heap heap' : A → Option (Node A I)} {p : Option A} {cells : List (A × I)}

theorem Chain.head (h : Chain heap p cells) : p = cells.head?.map Prod.fst := by
  cases cells with
  | nil => exact h
  | cons c cells => exact h.1

/-- A fresh node in front of a chain. -/
theorem Chain.cons (h : Chain heap p cells) {a : A} {i : I} (ha : heap a = some ⟨i, p⟩) :
    Chain heap (some a) ((a, i) :: cells) := ⟨rfl, p, ha, h⟩

/-- Every cell is a node of the heap. -/
theorem Chain.allocated (h : Chain heap p cells) :
    ∀ c ∈ cells, ∃ next, heap c.1 = some ⟨c.2, next⟩ := by
  induction cells generalizing p with
  | nil =>
    intro c hc
    cases hc
  | cons c cells ih =>
    obtain ⟨_, next, hnode, hrest⟩ := h
    intro c' hc'
    rcases List.mem_cons.mp hc' with rfl | hmem
    · exact ⟨next, hnode⟩
    · exact ih hrest c' hmem

theorem Chain.frame (h : Chain heap p cells) (hsame : ∀ c ∈ cells, heap' c.1 = heap c.1) :
    Chain heap' p cells := by
  induction cells generalizing p with
  | nil => exact h
  | cons c cells ih =>
    obtain ⟨hp, next, hnode, hrest⟩ := h
    refine ⟨hp, next, ?_, ih hrest fun c' hc' => hsame c' (by simp [hc'])⟩
    rw [hsame c List.mem_cons_self]
    exact hnode

/-- A pointer leads through one list of cells only. -/
theorem Chain.det {cells' : List (A × I)} (h : Chain heap p cells) (h' : Chain heap p cells') :
    cells = cells' := by
  induction cells generalizing p cells' with
  | nil =>
    have hp : p = none := h
    cases cells' with
    | nil => rfl
    | cons c' cells' =>
      have := h'.1
      rw [hp] at this
      cases this
  | cons c cells ih =>
    obtain ⟨hp, next, hnode, hrest⟩ := h
    cases cells' with
    | nil =>
      have hnone : p = none := h'
      rw [hp] at hnone
      cases hnone
    | cons c' cells' =>
      obtain ⟨hp', next', hnode', hrest'⟩ := h'
      have haddr : c.1 = c'.1 := by
        rw [hp] at hp'
        exact Option.some.inj hp'
      rw [haddr, hnode', Option.some.injEq, Node.mk.injEq] at hnode
      obtain ⟨hitem, rfl⟩ := hnode
      rw [ih hrest hrest', Prod.ext haddr hitem.symm]

/-- What is left of a chain from one of its cells on. -/
theorem Chain.suffix {front back : List (A × I)} (h : Chain heap p (front ++ back)) :
    ∃ q, Chain heap q back := by
  induction front generalizing p with
  | nil => exact ⟨p, h⟩
  | cons c front ih =>
    obtain ⟨_, next, _, hrest⟩ := h
    exact ih hrest

/-- A chain passes no address twice: from there on it would be the same list again, and
shorter. -/
theorem Chain.nodup (h : Chain heap p cells) : (cells.map Prod.fst).Nodup := by
  induction cells generalizing p with
  | nil => exact List.nodup_nil
  | cons c cells ih =>
    obtain ⟨hp, next, hnode, hrest⟩ := h
    rw [List.map_cons, List.nodup_cons]
    refine ⟨?_, ih hrest⟩
    intro hmem
    obtain ⟨c', hc', haddr⟩ := List.mem_map.mp hmem
    obtain ⟨front, back, rfl⟩ := List.append_of_mem hc'
    obtain ⟨q, hq⟩ := Chain.suffix hrest
    have hagain : Chain heap (some c.1) (c' :: back) := by
      rw [← haddr]
      exact ⟨rfl, hq.2⟩
    have hwhole : Chain heap (some c.1) (c :: (front ++ c' :: back)) := ⟨rfl, next, hnode, hrest⟩
    have hlen := congrArg List.length (Chain.det hagain hwhole)
    simp only [List.length_cons, List.length_append] at hlen
    omega

variable [DecidableEq A]

/-- A change of a heap address that is not in the chain. -/
theorem Chain.update (h : Chain heap p cells) {a : A} (ha : a ∉ cells.map Prod.fst)
    (n : Option (Node A I)) : Chain (Function.update heap a n) p cells := by
  apply h.frame
  intro c hc
  apply Function.update_of_ne
  intro heq
  exact ha (heq ▸ List.mem_map_of_mem hc)

/-- The head of a chain is freed. -/
theorem Chain.free_head {c : A × I} (h : Chain heap p (c :: cells)) :
    ∃ next, heap c.1 = some ⟨c.2, next⟩ ∧ Chain (Function.update heap c.1 none) next cells := by
  have hnodup := h.nodup
  obtain ⟨_, next, hnode, hrest⟩ := h
  rw [List.map_cons, List.nodup_cons] at hnodup
  exact ⟨next, hnode, hrest.update hnodup.1 none⟩

/-- A node is linked behind the last cell of a chain. -/
theorem Chain.link_last {front : List (A × I)} {last : A × I}
    (h : Chain heap p (front ++ [last])) {a : A} {i : I} (hnode : heap a = some ⟨i, none⟩)
    (ha : a ∉ (front ++ [last]).map Prod.fst) :
    heap last.1 = some ⟨last.2, none⟩ ∧
      Chain (Function.update heap last.1 (some ⟨last.2, some a⟩)) p (front ++ [last, (a, i)]) := by
  have hne : last.1 ≠ a := by
    intro heq
    exact ha (by simp [heq])
  have hnew : Chain (Function.update heap last.1 (some ⟨last.2, some a⟩)) (some a) [(a, i)] := by
    refine ⟨rfl, none, ?_, rfl⟩
    show Function.update heap last.1 (some ⟨last.2, some a⟩) a = _
    rw [Function.update_of_ne (Ne.symm hne)]
    exact hnode
  have hnodup := h.nodup
  clear ha hnode
  induction front generalizing p with
  | nil =>
    obtain ⟨hp, next, hlast, hnil⟩ := h
    have hnext : next = none := hnil
    rw [hnext] at hlast
    refine ⟨hlast, hp, some a, ?_, hnew⟩
    exact Function.update_self _ _ _
  | cons c front ih =>
    obtain ⟨hp, next, hc, hrest⟩ := h
    rw [List.cons_append, List.map_cons, List.nodup_cons] at hnodup
    obtain ⟨hlast, hchain⟩ := ih hrest hnodup.2
    refine ⟨hlast, hp, next, ?_, hchain⟩
    have hcl : c.1 ≠ last.1 := by
      intro heq
      exact hnodup.1 (by simp [heq])
    show Function.update heap last.1 (some ⟨last.2, some a⟩) c.1 = _
    rw [Function.update_of_ne hcl]
    exact hc

/-- The last node is linked to the first one, and the first one becomes the end. -/
theorem Chain.rotate {c last : A × I} {mid : List (A × I)}
    (h : Chain heap p (c :: (mid ++ [last]))) :
    ∃ next, heap c.1 = some ⟨c.2, next⟩ ∧ heap last.1 = some ⟨last.2, none⟩ ∧ last.1 ≠ c.1 ∧
      Chain (Function.update (Function.update heap last.1 (some ⟨last.2, some c.1⟩)) c.1
        (some ⟨c.2, none⟩)) next (mid ++ [last, c]) := by
  have hnodup := h.nodup
  rw [List.map_cons, List.nodup_cons] at hnodup
  have hout : c.1 ∉ (mid ++ [last]).map Prod.fst := hnodup.1
  have hne : last.1 ≠ c.1 := by
    intro heq
    exact hout (by simp [heq])
  obtain ⟨_, next, hnode, hrest⟩ := h
  -- the end is made first: it is not on the rest of the chain
  have hend := hrest.update hout (some ⟨c.2, none⟩)
  have hself : Function.update heap c.1 (some (Node.mk c.2 none)) c.1 = some ⟨c.2, none⟩ :=
    Function.update_self _ _ _
  obtain ⟨hlast, hchain⟩ := hend.link_last hself hout
  rw [Function.update_of_ne hne] at hlast
  rw [Function.update_comm hne.symm] at hchain
  exact ⟨next, hnode, hlast, hne, hchain⟩

end Chain

end IntroOS
