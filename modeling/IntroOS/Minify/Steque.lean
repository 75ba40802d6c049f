import IntroOS.Base.CStr
import IntroOS.Base.Chain
import IntroOS.Base.Loop

/-! # `steque.c`

The linked queue of the multithreaded programs, on an explicit heap: `steque_enqueue` and
`steque_push` with a node that `malloc` returned, and `steque_pop` with its `free`. Following a
pointer to freed memory and `steque_pop` or `steque_front` on an empty chain are faults.

`Steque.Linked` is the representation: the chain from `front`, the last node in `back`, the
length in `N`, which wraps around. `Steque.Rep` is that of a queue whose length fits an `int`.
-/

namespace IntroOS.Minify

variable {A I : Type*}

/-- `steque_t`. -/
structure Steque (A : Type*) where
  front : Option A
  back : Option A
  N : Int
deriving DecidableEq, Repr

/-- The nodes that were allocated and not freed. -/
abbrev Heap (A I : Type*) := A → Option (Node A I)

/-- What ends the program. -/
inductive Fault where
  /-- `exit(EXIT_FAILURE)` in `steque_pop` and `steque_front` -/
  | underflow
  /-- NULL or freed memory is followed -/
  | badPointer
deriving DecidableEq, Repr

/-- `steque_init`. -/
def stequeInit : Steque A := ⟨none, none, 0⟩

/-- `steque_isempty`. -/
def stequeIsempty (q : Steque A) : Bool := q.N == 0

/-- `steque_size`. -/
def stequeSize (q : Steque A) : Int := q.N

/-- `steque_front`. -/
def stequeFront (heap : Heap A I) (q : Steque A) : Except Fault I :=
  match q.front with
  | none => .error .underflow
  | some a =>
    match heap a with
    | none => .error .badPointer
    | some n => .ok n.item

section Steque

variable [DecidableEq A]

/-- `steque_enqueue`, with `node` the address that `malloc` returned. -/
def stequeEnqueue (heap : Heap A I) (q : Steque A) (node : A) (item : I) :
    Except Fault (Heap A I × Steque A) :=
  let heap := Function.update heap node (some ⟨item, none⟩)
  match q.back with
  | none => .ok (heap, ⟨some node, some node, toInt32 (q.N + 1)⟩)
  | some b =>
    match heap b with
    | none => .error .badPointer
    | some n =>
      .ok (Function.update heap b (some ⟨n.item, some node⟩),
        ⟨q.front, some node, toInt32 (q.N + 1)⟩)

/-- `steque_pop`. -/
def stequePop (heap : Heap A I) (q : Steque A) : Except Fault (I × Heap A I × Steque A) :=
  match q.front with
  | none => .error .underflow
  | some a =>
    match heap a with
    | none => .error .badPointer
    | some n =>
      .ok (n.item, Function.update heap a none,
        ⟨n.next, if n.next = none then none else q.back, toInt32 (q.N - 1)⟩)

/-- `steque_push`, with `node` the address that `malloc` returned. -/
def stequePush (heap : Heap A I) (q : Steque A) (node : A) (item : I) : Heap A I × Steque A :=
  (Function.update heap node (some ⟨item, q.front⟩),
    ⟨some node, if q.back = none then some node else q.back, toInt32 (q.N + 1)⟩)

/-- `steque_cycle`. -/
def stequeCycle (heap : Heap A I) (q : Steque A) : Except Fault (Heap A I × Steque A) :=
  match q.back with
  | none => .ok (heap, q)
  | some b =>
    match heap b with
    | none => .error .badPointer
    | some last =>
      -- the last node leads to the first one
      let heap := Function.update heap b (some ⟨last.item, q.front⟩)
      match q.front with
      | none => .error .badPointer
      | some f =>
        match heap f with
        | none => .error .badPointer
        | some first =>
          .ok (Function.update heap f (some ⟨first.item, none⟩), ⟨first.next, some f, q.N⟩)

/-- A round of the loop of `steque_destroy`, with the nodes that were freed. -/
def stequeDestroyRound : (Heap A I × Steque A) × List A →
    ((Heap A I × Steque A) × List A) ⊕ Except Fault ((Heap A I × Steque A) × List A)
  | ((heap, q), freed) =>
    if stequeIsempty q then .inr (.ok ((heap, q), freed))
    else
      match stequePop heap q with
      | .error fault => .inr (.error fault)
      | .ok (_, heap, q') => .inl ((heap, q'), freed ++ q.front.toList)

/-- `steque_destroy` comes to an end with `r`. -/
def StequeDestroy (heap : Heap A I) (q : Steque A)
    (r : Except Fault ((Heap A I × Steque A) × List A)) : Prop :=
  Returns stequeDestroyRound ((heap, q), []) r

/-! ## Representation -/

/-- The chain of the cells `cells`, front to back, with its last node, and its length as an
`int`. -/
structure Steque.Linked (heap : Heap A I) (q : Steque A) (cells : List (A × I)) : Prop where
  chain : Chain heap q.front cells
  back : q.back = cells.getLast?.map Prod.fst
  size : q.N = toInt32 cells.length

/-- The queue represents the cells `cells`, front to back. -/
structure Steque.Rep (heap : Heap A I) (q : Steque A) (cells : List (A × I)) : Prop where
  chain : Chain heap q.front cells
  back : q.back = cells.getLast?.map Prod.fst
  size : q.N = cells.length
  small : cells.length < 2 ^ 31

omit [DecidableEq A] in
theorem rep_init (heap : Heap A I) : Steque.Rep heap stequeInit [] :=
  ⟨rfl, rfl, rfl, by simp⟩

/-- `steque_pop` takes the first cell of the chain and frees it; `back` becomes NULL with the
last one. -/
theorem stequePop_chain {heap : Heap A I} {q : Steque A} {c : A × I} {cells : List (A × I)}
    (h : Chain heap q.front (c :: cells)) :
    ∃ next, Chain (Function.update heap c.1 none) next cells ∧
      stequePop heap q = .ok (c.2, Function.update heap c.1 none,
        ⟨next, if cells = [] then none else q.back, toInt32 (q.N - 1)⟩) := by
  obtain ⟨next, hnode, hrest⟩ := h.free_head
  have hfront : q.front = some c.1 := h.1
  have hnext : next = none ↔ cells = [] := by
    rw [hrest.head]
    cases cells with
    | nil => simp
    | cons c' cells => simp
  refine ⟨next, hrest, ?_⟩
  unfold stequePop
  simp only [hfront, hnode]
  by_cases hnil : cells = []
  · rw [if_pos hnil, if_pos (hnext.mpr hnil)]
  · rw [if_neg hnil, if_neg (fun h => hnil (hnext.mp h))]

theorem toInt32_pred {n : Nat} (hn : 0 < n) (h : n ≤ 2 ^ 31) :
    toInt32 ((n : Int) - 1) = ((n - 1 : Nat) : Int) := by
  unfold toInt32
  omega

theorem toInt32_succ {n : Nat} (h : n + 1 < 2 ^ 31) : toInt32 ((n : Int) + 1) = ((n + 1 : Nat) : Int) := by
  unfold toInt32
  omega

omit [DecidableEq A] in
theorem Steque.Rep.linked {heap : Heap A I} {q : Steque A} {cells : List (A × I)}
    (h : Steque.Rep heap q cells) : Steque.Linked heap q cells :=
  ⟨h.chain, h.back, by rw [h.size, toInt32_of_lt h.small]⟩

omit [DecidableEq A] in
theorem linked_init (heap : Heap A I) : Steque.Linked heap stequeInit [] :=
  (rep_init heap).linked

/-- A pop of a queue that is not empty. -/
theorem Steque.Linked.pop {heap : Heap A I} {q : Steque A} {c : A × I} {cells : List (A × I)}
    (h : Steque.Linked heap q (c :: cells)) :
    ∃ q', stequePop heap q = .ok (c.2, Function.update heap c.1 none, q') ∧
      Steque.Linked (Function.update heap c.1 none) q' cells := by
  rcases stequePop_chain h.chain with ⟨next, hchain, hpop⟩
  refine ⟨_, hpop, hchain, ?_, ?_⟩
  · show (if cells = [] then none else q.back) = _
    cases cells with
    | nil => rfl
    | cons c' cells =>
      rw [if_neg (by simp), h.back, List.getLast?_cons_cons]
  · show toInt32 (q.N - 1) = _
    rw [h.size, List.length_cons]
    unfold toInt32
    omega

/-- A pop of a represented queue. -/
theorem Steque.Rep.pop {heap : Heap A I} {q : Steque A} {c : A × I} {cells : List (A × I)}
    (h : Steque.Rep heap q (c :: cells)) :
    ∃ q', stequePop heap q = .ok (c.2, Function.update heap c.1 none, q') ∧
      Steque.Rep (Function.update heap c.1 none) q' cells := by
  have hsmall := h.small
  rw [List.length_cons] at hsmall
  rcases h.linked.pop with ⟨q', hpop, hlinked⟩
  refine ⟨q', hpop, hlinked.chain, hlinked.back, ?_, by omega⟩
  rw [hlinked.size, toInt32_of_lt (by omega)]

omit [DecidableEq A] in
/-- A node that is not allocated is not in the chain. -/
theorem Steque.Linked.not_mem {heap : Heap A I} {q : Steque A} {cells : List (A × I)}
    (h : Steque.Linked heap q cells) {node : A} (hfree : heap node = none) :
    node ∉ cells.map Prod.fst := by
  intro hmem
  rcases List.mem_map.mp hmem with ⟨c, hc, rfl⟩
  rcases h.chain.allocated c hc with ⟨next, hnode⟩
  rw [hfree] at hnode
  cases hnode

omit [DecidableEq A] in
theorem Steque.Rep.not_mem {heap : Heap A I} {q : Steque A} {cells : List (A × I)}
    (h : Steque.Rep heap q cells) {node : A} (hfree : heap node = none) :
    node ∉ cells.map Prod.fst :=
  h.linked.not_mem hfree

/-- An enqueue, with a node that was not allocated. Nothing else on the heap is allocated or
freed. -/
theorem Steque.Linked.enqueue {heap : Heap A I} {q : Steque A} {cells : List (A × I)}
    (h : Steque.Linked heap q cells) {node : A} (hfree : heap node = none) (item : I) :
    ∃ heap' q', stequeEnqueue heap q node item = .ok (heap', q') ∧
      Steque.Linked heap' q' (cells ++ [(node, item)]) ∧
      ∀ a ≠ node, heap a = none → heap' a = none := by
  have hnew : node ∉ cells.map Prod.fst := h.not_mem hfree
  have hchain := h.chain.update hnew (some ⟨item, none⟩)
  have hself : Function.update heap node (some ⟨item, none⟩) node = some ⟨item, none⟩ :=
    Function.update_self _ _ _
  have hsize : toInt32 (q.N + 1) = toInt32 (cells ++ [(node, item)]).length := by
    rw [h.size, List.length_append, List.length_singleton]
    unfold toInt32
    omega
  have hrest : ∀ a ≠ node, heap a = none →
      Function.update heap node (some ⟨item, none⟩) a = none := by
    intro a ha hnone
    rw [Function.update_of_ne ha, hnone]
  rcases List.eq_nil_or_concat cells with rfl | ⟨front, last, rfl⟩
  · -- the first node
    have hback : q.back = none := h.back
    refine ⟨_, _, by unfold stequeEnqueue; simp only [hback]; rfl, ⟨?_, rfl, hsize⟩, hrest⟩
    exact Chain.cons (show Chain _ none [] from rfl) hself
  · have hback : q.back = some last.1 := by
      rw [h.back]
      simp
    rw [List.concat_eq_append] at hchain hnew
    rcases hchain.link_last hself hnew with ⟨hlast, hlinked⟩
    refine ⟨_, _, by unfold stequeEnqueue; simp only [hback, hlast]; rfl, ⟨?_, ?_, hsize⟩, ?_⟩
    · simpa using hlinked
    · simp
    · intro a ha hnone
      have hne : a ≠ last.1 := by
        rintro rfl
        rw [Function.update_of_ne ha, hnone] at hlast
        cases hlast
      rw [Function.update_of_ne hne]
      exact hrest a ha hnone

/-- A push, with a node that was not allocated. -/
theorem Steque.Linked.push {heap : Heap A I} {q : Steque A} {cells : List (A × I)}
    (h : Steque.Linked heap q cells) {node : A} (hfree : heap node = none) (item : I) :
    Steque.Linked (stequePush heap q node item).1 (stequePush heap q node item).2
      ((node, item) :: cells) := by
  have hchain := h.chain.update (h.not_mem hfree) (some ⟨item, q.front⟩)
  refine ⟨hchain.cons (Function.update_self _ _ _), ?_, ?_⟩
  · show (if q.back = none then some node else q.back) = _
    rw [h.back]
    cases cells with
    | nil => rfl
    | cons c cells =>
      rw [List.getLast?_cons_cons, if_neg (by simp)]
  · show toInt32 (q.N + 1) = _
    rw [h.size, List.length_cons]
    unfold toInt32
    omega

theorem stequeCycle_eq {heap : Heap A I} {q : Steque A} {b f : A} {last first : Node A I}
    (hback : q.back = some b) (hfront : q.front = some f) (hlast : heap b = some last)
    (hfirst : Function.update heap b (some ⟨last.item, some f⟩) f = some first) :
    stequeCycle heap q =
      .ok (Function.update (Function.update heap b (some ⟨last.item, some f⟩)) f
        (some ⟨first.item, none⟩), ⟨first.next, some f, q.N⟩) := by
  unfold stequeCycle
  simp only [hback, hlast, hfront, hfirst]

/-- A cycle of a queue that is not empty. -/
theorem Steque.Linked.cycle {heap : Heap A I} {q : Steque A} {c : A × I} {cells : List (A × I)}
    (h : Steque.Linked heap q (c :: cells)) :
    ∃ heap' q', stequeCycle heap q = .ok (heap', q') ∧ Steque.Linked heap' q' (cells ++ [c]) := by
  have hchain := h.chain
  have hfront : q.front = some c.1 := hchain.1
  have hsize : q.N = toInt32 (cells ++ [c]).length := by
    rw [h.size]
    simp
  rcases List.eq_nil_or_concat cells with rfl | ⟨mid, last, rfl⟩
  · -- the only node is linked to itself and released again
    have hback : q.back = some c.1 := h.back
    obtain ⟨_, next, hnode, _⟩ := hchain
    have hself : Function.update heap c.1 (some (Node.mk c.2 (some c.1))) c.1 =
        some ⟨c.2, some c.1⟩ := Function.update_self _ _ _
    refine ⟨_, _, stequeCycle_eq hback hfront hnode hself, ?_, rfl, hsize⟩
    exact ⟨rfl, none, Function.update_self _ _ _, rfl⟩
  · rw [List.concat_eq_append] at h hchain hsize ⊢
    have hback : q.back = some last.1 := by
      rw [h.back, ← List.cons_append, List.getLast?_concat]
      rfl
    rcases hchain.rotate with ⟨next, hnode, hlast, hne, hrotated⟩
    have hfirst : Function.update heap last.1 (some ⟨last.2, some c.1⟩) c.1 = some ⟨c.2, next⟩ := by
      rw [Function.update_of_ne hne.symm, hnode]
    refine ⟨_, _, stequeCycle_eq hback hfront hlast hfirst, ?_, ?_, hsize⟩
    · rw [List.append_assoc]
      exact hrotated
    · rw [List.getLast?_concat]
      rfl

omit [DecidableEq A] in
/-- The front of a queue that is not empty. -/
theorem Steque.Linked.front {heap : Heap A I} {q : Steque A} {c : A × I} {cells : List (A × I)}
    (h : Steque.Linked heap q (c :: cells)) : stequeFront heap q = .ok c.2 := by
  obtain ⟨hfront, next, hnode, _⟩ := h.chain
  unfold stequeFront
  simp only [hfront, hnode]

/-! ## What the operations leave alone -/

section Frame

variable {heap heap' : Heap A I} {q q' : Steque A} {a node : A} {item : I}

theorem stequeEnqueue_frame (h : stequeEnqueue heap q node item = .ok (heap', q')) (hnode : a ≠ node)
    (hback : q.back ≠ some a) : heap' a = heap a := by
  unfold stequeEnqueue at h
  cases hb : q.back with
  | none =>
    simp only [hb, Except.ok.injEq, Prod.mk.injEq] at h
    rw [← h.1, Function.update_of_ne hnode]
  | some b =>
    have hne : a ≠ b := fun heq => hback (by rw [hb, heq])
    simp only [hb] at h
    split at h
    · cases h
    · simp only [Except.ok.injEq, Prod.mk.injEq] at h
      rw [← h.1, Function.update_of_ne hne, Function.update_of_ne hnode]

theorem stequeCycle_frame (h : stequeCycle heap q = .ok (heap', q')) (hback : q.back ≠ some a)
    (hfront : q.front ≠ some a) : heap' a = heap a := by
  unfold stequeCycle at h
  cases hb : q.back with
  | none =>
    simp only [hb, Except.ok.injEq, Prod.mk.injEq] at h
    rw [← h.1]
  | some b =>
    have hne : a ≠ b := fun heq => hback (by rw [hb, heq])
    cases hf : q.front with
    | none =>
      simp only [hb, hf] at h
      split at h
      · cases h
      · cases h
    | some f =>
      have hne' : a ≠ f := fun heq => hfront (by rw [hf, heq])
      simp only [hb, hf] at h
      split at h
      · cases h
      · split at h
        · cases h
        · simp only [Except.ok.injEq, Prod.mk.injEq] at h
          rw [← h.1, Function.update_of_ne hne', Function.update_of_ne hne]

end Frame

end Steque

end IntroOS.Minify
