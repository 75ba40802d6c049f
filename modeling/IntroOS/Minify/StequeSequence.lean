import IntroOS.Base.Refinement
import IntroOS.Minify.Steque

/-! # The steque as a sequence

`seqStep` is the machine that a steque implements: a list under cons, append, tail and
rotation by one. `stequeStep` is `steque.c` on a heap.

* `IsSequence`: what the heap looks like when a steque holds a list of items;
* `steque_simulates`: one call keeps that, and is answered as the list answers it;
* `steque_destroys`: `steque_destroy` frees every node once;
* `steque_refines_sequence`: both, for every list of calls from `steque_init` on.
-/

namespace IntroOS.Minify

variable {A I : Type*}

/-! ## Calls -/

/-- A call, with the address that `malloc` returns in it. -/
inductive StequeCall (A I : Type*) where
  | push (node : A) (item : I)
  | enqueue (node : A) (item : I)
  | pop
  | cycle
  | front
  | size
  | isempty
deriving DecidableEq, Repr

/-- What a call returns. -/
inductive StequeReply (I : Type*) where
  | done
  | item (i : I)
  | number (n : Int)
  | flag (b : Bool)
deriving DecidableEq, Repr

/-- The list that the steque stands for. -/
def seqStep (items : List I) : StequeCall A I → Except Fault (StequeReply I × List I)
  | .push _ i => .ok (.done, i :: items)
  | .enqueue _ i => .ok (.done, items ++ [i])
  | .pop =>
    match items with
    | [] => .error .underflow
    | i :: items => .ok (.item i, items)
  | .cycle => .ok (.done, items.rotate 1)
  | .front =>
    match items with
    | [] => .error .underflow
    | i :: _ => .ok (.item i, items)
  | .size => .ok (.number items.length, items)
  | .isempty => .ok (.flag items.isEmpty, items)

/-- `malloc` returns memory that is not in use, and a steque gets no longer than an `int` counts. -/
def StequeCall.Allowed (p : Heap A I × Steque A) (items : List I) : StequeCall A I → Prop
  | .push node _ | .enqueue node _ => p.1 node = none ∧ items.length + 1 < 2 ^ 31
  | .pop | .cycle | .front | .size | .isempty => True

instance (p : Heap A I × Steque A) (items : List I) (call : StequeCall A I) :
    Decidable (call.Allowed p items) :=
  match call with
  | .push node _ | .enqueue node _ =>
    inferInstanceAs (Decidable (p.1 node = none ∧ items.length + 1 < 2 ^ 31))
  | .pop | .cycle | .front | .size | .isempty => inferInstanceAs (Decidable True)

variable [DecidableEq A]

/-- `steque.c`. -/
def stequeStep (p : Heap A I × Steque A) :
    StequeCall A I → Except Fault (StequeReply I × (Heap A I × Steque A))
  | .push node i => .ok (.done, stequePush p.1 p.2 node i)
  | .enqueue node i => (stequeEnqueue p.1 p.2 node i).map fun p' => (.done, p')
  | .pop => (stequePop p.1 p.2).map fun r => (.item r.1, r.2)
  | .cycle => (stequeCycle p.1 p.2).map fun p' => (.done, p')
  | .front => (stequeFront p.1 p.2).map fun i => (.item i, p)
  | .size => .ok (.number (stequeSize p.2), p)
  | .isempty => .ok (.flag (stequeIsempty p.2), p)

/-! ## One call -/

/-- A steque that holds `items`, in the nodes `cells`, on a heap that was `heap₀` before
`steque_init`. -/
structure IsSequence (heap₀ : Heap A I) (p : Heap A I × Steque A) (items : List I)
    (cells : List (A × I)) : Prop where
  chain : Chain p.1 p.2.front cells
  acyclic : (cells.map Prod.fst).Nodup
  back : p.2.back = cells.getLast?.map Prod.fst
  front_null : p.2.front = none ↔ cells = []
  back_null : p.2.back = none ↔ cells = []
  size : p.2.N = cells.length
  small : cells.length < 2 ^ 31
  items : items = cells.map Prod.snd
  -- the nodes are the only memory the steque uses
  fresh : ∀ a ∈ cells.map Prod.fst, heap₀ a = none
  elsewhere : ∀ a ∉ cells.map Prod.fst, p.1 a = heap₀ a

variable {heap₀ : Heap A I} {p : Heap A I × Steque A} {items : List I} {cells : List (A × I)}

omit [DecidableEq A] in
/-- The representation says everything about the pointers. -/
theorem isSequence_of_linked (h : Steque.Linked p.1 p.2 cells) (hsmall : cells.length < 2 ^ 31)
    (hitems : items = cells.map Prod.snd) (hfresh : ∀ a ∈ cells.map Prod.fst, heap₀ a = none)
    (helse : ∀ a ∉ cells.map Prod.fst, p.1 a = heap₀ a) : IsSequence heap₀ p items cells where
  chain := h.chain
  acyclic := h.chain.nodup
  back := h.back
  front_null := by rw [h.chain.head, Option.map_eq_none_iff, List.head?_eq_none_iff]
  back_null := by rw [h.back, Option.map_eq_none_iff, List.getLast?_eq_none_iff]
  size := by rw [h.size, toInt32_of_lt hsmall]
  small := hsmall
  items := hitems
  fresh := hfresh
  elsewhere := helse

omit [DecidableEq A] in
theorem IsSequence.linked (h : IsSequence heap₀ p items cells) : Steque.Linked p.1 p.2 cells :=
  ⟨h.chain, h.back, by rw [h.size, toInt32_of_lt h.small]⟩

omit [DecidableEq A] in
theorem IsSequence.length (h : IsSequence heap₀ p items cells) : items.length = cells.length := by
  rw [h.items, List.length_map]

omit [DecidableEq A] in
/-- `malloc` returns memory that was free at the beginning as well. -/
theorem IsSequence.free (h : IsSequence heap₀ p items cells) {node : A} (hnode : p.1 node = none) :
    heap₀ node = none := by
  by_cases hmem : node ∈ cells.map Prod.fst
  · exact h.fresh node hmem
  · rw [← h.elsewhere node hmem, hnode]

omit [DecidableEq A] in
theorem isSequence_init (heap : Heap A I) : IsSequence heap (heap, stequeInit) [] [] :=
  isSequence_of_linked (linked_init heap) (by simp) rfl (by simp) fun _ _ => rfl

omit [DecidableEq A] in
/-- The front of the chain is not a node outside of it. -/
theorem IsSequence.front_ne (h : IsSequence heap₀ p items cells) {a : A}
    (ha : a ∉ cells.map Prod.fst) : p.2.front ≠ some a := by
  intro heq
  rw [h.chain.head, Option.map_eq_some_iff] at heq
  rcases heq with ⟨c, hc, rfl⟩
  exact ha (List.mem_map_of_mem (List.mem_of_mem_head? hc))

omit [DecidableEq A] in
theorem IsSequence.back_ne (h : IsSequence heap₀ p items cells) {a : A}
    (ha : a ∉ cells.map Prod.fst) : p.2.back ≠ some a := by
  intro heq
  rw [h.back, Option.map_eq_some_iff] at heq
  rcases heq with ⟨c, hc, rfl⟩
  exact ha (List.mem_map_of_mem (List.mem_of_getLast? hc))

/-- The steque holds the items. -/
def Holds (heap₀ : Heap A I) (p : Heap A I × Steque A) (items : List I) : Prop :=
  ∃ cells, IsSequence heap₀ p items cells

theorem IsSequence.push (h : IsSequence heap₀ p items cells) {node : A} (hnode : p.1 node = none)
    (hlen : items.length + 1 < 2 ^ 31) (i : I) :
    IsSequence heap₀ (stequePush p.1 p.2 node i) (i :: items) ((node, i) :: cells) := by
  have hsmall : ((node, i) :: cells).length < 2 ^ 31 := by
    rw [List.length_cons, ← h.length]
    exact hlen
  apply isSequence_of_linked (h.linked.push hnode i) hsmall
  · rw [h.items, List.map_cons]
  · intro a ha
    rcases List.mem_cons.mp ha with rfl | hmem
    · exact h.free hnode
    · exact h.fresh a hmem
  · intro a ha
    rw [List.map_cons, List.mem_cons, not_or] at ha
    show Function.update p.1 node _ a = heap₀ a
    rw [Function.update_of_ne ha.1, h.elsewhere a ha.2]

theorem IsSequence.enqueue (h : IsSequence heap₀ p items cells) {node : A}
    (hnode : p.1 node = none) (hlen : items.length + 1 < 2 ^ 31) (i : I) :
    ∃ p', stequeEnqueue p.1 p.2 node i = .ok p' ∧
      IsSequence heap₀ p' (items ++ [i]) (cells ++ [(node, i)]) := by
  rcases h.linked.enqueue hnode i with ⟨heap', q', henq, hlinked, _⟩
  have hsmall : (cells ++ [(node, i)]).length < 2 ^ 31 := by
    rw [List.length_append, List.length_singleton, ← h.length]
    exact hlen
  refine ⟨(heap', q'), henq, isSequence_of_linked hlinked hsmall ?_ ?_ ?_⟩
  · rw [h.items, List.map_append]
    rfl
  · intro a ha
    rw [List.map_append, List.mem_append] at ha
    rcases ha with hmem | hnew
    · exact h.fresh a hmem
    · rw [List.mem_singleton.mp hnew]
      exact h.free hnode
  · intro a ha
    rw [List.map_append, List.mem_append, not_or] at ha
    have hne : a ≠ node := fun heq => ha.2 (by rw [heq]; exact List.mem_singleton_self _)
    show heap' a = heap₀ a
    rw [stequeEnqueue_frame henq hne (h.back_ne ha.1), h.elsewhere a ha.1]

theorem IsSequence.pop {c : A × I} (h : IsSequence heap₀ p items (c :: cells)) :
    ∃ p', stequePop p.1 p.2 = .ok (c.2, p') ∧ IsSequence heap₀ p' (cells.map Prod.snd) cells := by
  rcases h.linked.pop with ⟨q', hpop, hlinked⟩
  have hsmall := h.small
  rw [List.length_cons] at hsmall
  refine ⟨(_, q'), hpop, isSequence_of_linked hlinked (by omega) rfl ?_ ?_⟩
  · intro a ha
    exact h.fresh a (List.mem_cons_of_mem _ ha)
  · intro a ha
    show Function.update p.1 c.1 none a = heap₀ a
    by_cases hfirst : a = c.1
    · -- the node that was freed
      rw [hfirst, Function.update_self, h.fresh c.1 List.mem_cons_self]
    · rw [Function.update_of_ne hfirst]
      apply h.elsewhere
      rw [List.map_cons, List.mem_cons, not_or]
      exact ⟨hfirst, ha⟩

theorem IsSequence.cycle {c : A × I} (h : IsSequence heap₀ p items (c :: cells)) :
    ∃ p', stequeCycle p.1 p.2 = .ok p' ∧
      IsSequence heap₀ p' (cells.map Prod.snd ++ [c.2]) (cells ++ [c]) := by
  rcases h.linked.cycle with ⟨heap', q', hcycle, hlinked⟩
  have hmem : ∀ a, a ∈ (cells ++ [c]).map Prod.fst ↔ a ∈ (c :: cells).map Prod.fst := by
    intro a
    simp [or_comm]
  have hsmall : (cells ++ [c]).length < 2 ^ 31 := by
    rw [List.length_append, List.length_singleton, ← List.length_cons (a := c)]
    exact h.small
  refine ⟨(heap', q'), hcycle, isSequence_of_linked hlinked hsmall ?_ ?_ ?_⟩
  · rw [List.map_append, List.map_singleton]
  · intro a ha
    exact h.fresh a ((hmem a).mp ha)
  · intro a ha
    rw [hmem] at ha
    show heap' a = heap₀ a
    rw [stequeCycle_frame hcycle (h.back_ne ha) (h.front_ne ha), h.elsewhere a ha]

theorem IsSequence.pop_nil (h : IsSequence heap₀ p items []) :
    stequePop p.1 p.2 = .error .underflow := by
  have hfront := h.front_null.mpr rfl
  unfold stequePop
  rw [hfront]

omit [DecidableEq A] in
theorem IsSequence.front_nil (h : IsSequence heap₀ p items []) :
    stequeFront p.1 p.2 = .error .underflow := by
  have hfront := h.front_null.mpr rfl
  unfold stequeFront
  rw [hfront]

theorem IsSequence.cycle_nil (h : IsSequence heap₀ p items []) :
    stequeCycle p.1 p.2 = .ok p := by
  have hback := h.back_null.mpr rfl
  unfold stequeCycle
  rw [hback]

omit [DecidableEq A] in
theorem IsSequence.isempty (h : IsSequence heap₀ p items cells) :
    stequeIsempty p.2 = items.isEmpty := by
  unfold stequeIsempty
  rw [h.size, h.items]
  cases cells with
  | nil => rfl
  | cons c cells =>
    have hlen : ((c :: cells).length : Int) ≠ 0 := by
      rw [List.length_cons]
      omega
    exact beq_false_of_ne hlen

/-- **One call.** `steque.c` answers a call as the list does. -/
theorem steque_simulates (heap₀ : Heap A I) :
    Simulates stequeStep seqStep StequeCall.Allowed (Holds heap₀) := by
  rintro p items call ⟨cells, h⟩ hallowed
  have hitems := h.items
  cases call with
  | push node i => exact .of_answer rfl rfl ⟨_, h.push hallowed.1 hallowed.2 i⟩
  | enqueue node i =>
    rcases h.enqueue hallowed.1 hallowed.2 i with ⟨p', henq, h'⟩
    exact .of_answer (congrArg (Except.map _) henq) rfl ⟨_, h'⟩
  | pop =>
    cases cells with
    | nil =>
      rw [hitems]
      exact .of_fault (congrArg (Except.map _) h.pop_nil) rfl
    | cons c cells =>
      rcases h.pop with ⟨p', hpop, h'⟩
      rw [hitems]
      exact .of_answer (congrArg (Except.map _) hpop) rfl ⟨_, h'⟩
  | cycle =>
    cases cells with
    | nil =>
      rw [hitems] at h ⊢
      exact .of_answer (congrArg (Except.map _) h.cycle_nil) rfl ⟨_, h⟩
    | cons c cells =>
      rcases h.cycle with ⟨p', hcycle, h'⟩
      have hrotate : ((c :: cells).map Prod.snd).rotate 1 = cells.map Prod.snd ++ [c.2] := by
        rw [List.map_cons, List.rotate_cons_succ, List.rotate_zero]
      rw [← hrotate] at h'
      rw [hitems]
      exact .of_answer (congrArg (Except.map _) hcycle) rfl ⟨_, h'⟩
  | front =>
    cases cells with
    | nil =>
      rw [hitems]
      exact .of_fault (congrArg (Except.map _) h.front_nil) rfl
    | cons c cells =>
      have hfront := h.linked.front
      rw [hitems] at h ⊢
      exact .of_answer (congrArg (Except.map _) hfront) rfl ⟨_, h⟩
  | size =>
    have hsize : stequeSize p.2 = items.length := by
      rw [h.length]
      exact h.size
    exact .of_answer (congrArg (fun n => Except.ok (StequeReply.number n, p)) hsize) rfl ⟨_, h⟩
  | isempty =>
    exact .of_answer (congrArg (fun b => Except.ok (StequeReply.flag b, p)) h.isempty) rfl ⟨_, h⟩

/-! ## `steque_destroy` -/

/-- **Destroy.** `steque_destroy` pops every node once, and nothing of the steque is left. -/
theorem steque_destroys (h : IsSequence heap₀ p items cells) :
    StequeDestroy p.1 p.2 (.ok ((heap₀, stequeInit), cells.map Prod.fst)) := by
  have hfrom : ∀ (cells : List (A × I)) (p : Heap A I × Steque A) (items : List I) (freed : List A),
      IsSequence heap₀ p items cells →
      Returns stequeDestroyRound (p, freed) (.ok ((heap₀, stequeInit), freed ++ cells.map Prod.fst)) := by
    intro cells
    induction cells with
    | nil =>
      rintro ⟨heap, q⟩ items freed h
      have hq : q = stequeInit := by
        have hfront : q.front = none := h.front_null.mpr rfl
        have hback : q.back = none := h.back_null.mpr rfl
        have hsize : q.N = 0 := h.size
        cases q
        simp_all [stequeInit]
      have hheap : heap = heap₀ := funext fun a => h.elsewhere a (by simp)
      have hround : stequeDestroyRound ((heap, q), freed) = .inr (.ok ((heap, q), freed)) := by
        rw [hq]
        rfl
      rw [Returns.exit_iff hround, hq, hheap, List.map_nil, List.append_nil]
    | cons c cells ih =>
      rintro ⟨heap, q⟩ items freed h
      rcases h.pop with ⟨⟨heap', q'⟩, hpop, h'⟩
      have hfront : q.front = some c.1 := h.chain.1
      have hempty : stequeIsempty q = false := by
        rw [show q = (heap, q).2 from rfl, h.isempty, h.items]
        rfl
      have hround : stequeDestroyRound ((heap, q), freed) = .inl ((heap', q'), freed ++ [c.1]) := by
        unfold stequeDestroyRound
        simp only [hempty, Bool.false_eq_true, if_false, hpop, hfront, Option.toList_some]
      have hrest := ih (heap', q') _ (freed ++ [c.1]) h'
      rw [List.append_assoc, List.singleton_append] at hrest
      exact (Returns.round_iff hround).mpr hrest
  have hall := hfrom cells p items [] h
  rwa [List.nil_append] at hall

/-! ## Any number of calls -/

/-- A steque that holds the items, and that `steque_destroy` empties. -/
def HoldsAndDestroys (heap₀ : Heap A I) (p : Heap A I × Steque A) (items : List I) : Prop :=
  ∃ cells, IsSequence heap₀ p items cells ∧
    StequeDestroy p.1 p.2 (.ok ((heap₀, stequeInit), cells.map Prod.fst))

/-- **Sequence.** Whatever is called from `steque_init` on, the steque gives the answers of the
list and holds its items, in nodes that `steque_destroy` frees one by one. -/
theorem steque_refines_sequence (heap : Heap A I) (calls : List (StequeCall A I))
    (hallowed : Guarded stequeStep seqStep StequeCall.Allowed (heap, stequeInit) [] calls) :
    Agree (HoldsAndDestroys heap) (Machine.answers stequeStep (heap, stequeInit) calls)
      (Machine.answers seqStep [] calls) := by
  have hinit : Holds heap (heap, stequeInit) [] := ⟨[], isSequence_init heap⟩
  apply ((steque_simulates heap).answers hinit hallowed).mono
  rintro p items ⟨cells, h⟩
  exact ⟨cells, h, steque_destroys h⟩

/-- Two items, of which the first one is cycled to the back. -/
theorem steque_refines_sequence_two :
    ∃ p : Heap Nat Nat × Steque Nat,
      Machine.answers stequeStep (fun _ => none, stequeInit)
          [.enqueue 7 1, .push 8 2, .cycle, .front, .size, .isempty] =
        .ok ([.done, .done, .done, .item 1, .number 2, .flag false], p) ∧
      HoldsAndDestroys (fun _ => none) p [1, 2] := by
  have hagree := steque_refines_sequence (A := Nat) (I := Nat) (fun _ => none)
    [.enqueue 7 1, .push 8 2, .cycle, .front, .size, .isempty] (by decide)
  cases hagree with
  | answer _ hholds => exact ⟨_, rfl, hholds⟩

end IntroOS.Minify
