import Mathlib.Data.Set.Card
import IntroOS.Minify.WorkQueue

/-! # Servers on the `steque_t`

The servers are modelled with a list for their work queue, and one step for `steque_enqueue`. In
`rpc_mt/minifyjpeg_svc.c` the boss calls it without the mutex, and the workers pop with it.

1. **A server with a list** (`Queued`): which of its actions are those of the boss, and which one
   is a worker's pop; what waits does not matter to the others;
2. **Steps** (`onSteque`): the same server, with the loads and stores of the boss and the pops of
   the workers on the queue;
3. **Refinement** (`reach_list`): where no pop cuts into the accesses of the boss, the server with
   the list reaches what is reached here;
4. **Inevitability** (`list_inevitable`): every such schedule comes to what those with the list
   come to.

A worker that finds the queue empty tests it again; this is no step.
-/

namespace IntroOS.Minify.OnSteque

variable {A I W : Type*}

/-- A load or a store of `steque_enqueue`. -/
def inEnqueue : WorkQueue.Act A I W → Bool
  | .testBack | .loadBack | .link | .storeBack | .loadN | .storeN => true
  | .enqueue _ _ | .pop _ => false

/-! ## The work queue -/

section Queue

variable {q q' : WorkQueue.St A I W}

/-- What the boss was given and is not counted yet. -/
def pending : WorkQueue.Boss A I → List I
  | .idle => []
  | .allocated _ item | .sawEmpty _ item | .sawBack _ item | .loadedBack _ item _
  | .linked _ item | .storedBack _ item | .loadedN _ item _ => [item]

/-- The loads and stores that the boss has before it. -/
def stage : WorkQueue.Boss A I → Nat
  | .idle => 0
  | .loadedN _ _ _ => 1
  | .storedBack _ _ => 2
  | .linked _ _ => 3
  | .sawEmpty _ _ | .loadedBack _ _ _ => 4
  | .sawBack _ _ => 5
  | .allocated _ _ => 6

/-- What was given to the queue was popped, or waits behind that. -/
theorem held_given {cells : List (A × I)} {place : WorkQueue.Boss A I}
    (h : WorkQueue.Held q cells place) :
    q.given = q.popped.map Prod.snd ++ (WorkQueue.items cells ++ pending place) := by
  cases place with
  | idle =>
    rw [pending, List.append_nil]
    exact h.2
  | allocated node item | linked node item => exact h.2.2.2
  | sawEmpty node item | sawBack node item | loadedBack node item back
  | storedBack node item | loadedN node item n => exact h.1.2.2.2

theorem inv_given (h : WorkQueue.Inv q) : ∃ rest, q.given = q.popped.map Prod.snd ++ rest := by
  rcases h with ⟨_, cells, hheld⟩
  exact ⟨_, held_given hheld⟩

variable [DecidableEq A] {b : WorkQueue.Act A I W}

/-- A load or a store goes wrong, or brings the boss on. The nodes stay the same. -/
inductive BossCase (q : WorkQueue.St A I W) : WorkQueue.St A I W → Prop where
  | fault (f : Fault) : BossCase q { q with fault := some f }
  | move (place : WorkQueue.Boss A I) (heap : Heap A I) (queue : Steque A)
      (hlt : stage place < stage q.boss) (hheap : ∀ a, heap a ≠ none ↔ q.heap a ≠ none) :
      BossCase q { q with boss := place, heap := heap, queue := queue }

theorem boss_cases (hb : inEnqueue b = true) (hstep : WorkQueue.step q b = some q') :
    BossCase q q' := by
  cases b with
  | enqueue item node | pop w => cases hb
  | testBack =>
    simp only [WorkQueue.step] at hstep
    split at hstep
    · rename_i node item hboss
      split at hstep
      · cases hstep
        exact .move _ _ _ (by rw [hboss]; show 4 < 6; omega) fun _ => Iff.rfl
      · cases hstep
        exact .move _ _ _ (by rw [hboss]; show 5 < 6; omega) fun _ => Iff.rfl
    · cases hstep
  | loadBack =>
    simp only [WorkQueue.step] at hstep
    split at hstep
    · rename_i node item hboss
      split at hstep
      · cases hstep
        exact .fault _
      · cases hstep
        exact .move _ _ _ (by rw [hboss]; exact Nat.lt_succ_self _) fun _ => Iff.rfl
    · cases hstep
  | link =>
    simp only [WorkQueue.step] at hstep
    split at hstep
    · rename_i node item hboss
      cases hstep
      exact .move _ _ _ (by rw [hboss]; exact Nat.lt_succ_self _) fun _ => Iff.rfl
    · rename_i node item back hboss
      split at hstep
      · cases hstep
        exact .fault _
      · rename_i n hn
        cases hstep
        refine .move _ _ _ (by rw [hboss]; exact Nat.lt_succ_self _) ?_
        intro a
        -- the node at `back` was there before
        by_cases hself : a = back
        · rw [hself, Function.update_self, hn]
          exact iff_of_true (Option.some_ne_none _) (Option.some_ne_none n)
        · rw [Function.update_of_ne hself]
    · cases hstep
  | storeBack | loadN =>
    simp only [WorkQueue.step] at hstep
    split at hstep
    · rename_i node item hboss
      cases hstep
      exact .move _ _ _ (by rw [hboss]; exact Nat.lt_succ_self _) fun _ => Iff.rfl
    · cases hstep
  | storeN =>
    simp only [WorkQueue.step] at hstep
    split at hstep
    · rename_i node item n hboss
      cases hstep
      exact .move _ _ _ (by rw [hboss]; exact Nat.lt_succ_self _) fun _ => Iff.rfl
    · cases hstep

/-- The call of `steque_enqueue`. -/
theorem enqueue_eq {item : I} {node : A} (hstep : WorkQueue.step q (.enqueue item node) = some q') :
    q.heap node = none ∧ q' = { q with
      boss := .allocated node item
      heap := Function.update q.heap node (some ⟨item, none⟩)
      given := q.given ++ [item] } := by
  simp only [WorkQueue.step] at hstep
  split at hstep
  · rename_i hfree
    cases hstep
    exact ⟨hfree, rfl⟩
  · cases hstep

/-- In the middle of `steque_enqueue`, the boss can go on. -/
theorem boss_goesOn (h : WorkQueue.Inv q) (hboss : q.boss ≠ .idle)
    (hsmall : q.given.length < 2 ^ 31) :
    ∃ b q', inEnqueue b = true ∧ WorkQueue.Unraced q b ∧ WorkQueue.step q b = some q' := by
  rcases h with ⟨_, cells, hheld⟩
  have hgiven := congrArg List.length (held_given hheld)
  cases hplace : q.boss with
  | idle => exact absurd hplace hboss
  | allocated node item =>
    refine ⟨.testBack, ?_⟩
    simp only [WorkQueue.step, hplace]
    split
    · exact ⟨_, rfl, trivial, rfl⟩
    · exact ⟨_, rfl, trivial, rfl⟩
  | sawBack node item =>
    refine ⟨.loadBack, ?_⟩
    simp only [WorkQueue.step, hplace]
    split
    · exact ⟨_, rfl, trivial, rfl⟩
    · exact ⟨_, rfl, trivial, rfl⟩
  | sawEmpty node item =>
    refine ⟨.link, ?_⟩
    simp only [WorkQueue.step, hplace]
    exact ⟨_, rfl, trivial, rfl⟩
  | loadedBack node item back =>
    refine ⟨.link, ?_⟩
    simp only [WorkQueue.step, hplace]
    split
    · exact ⟨_, rfl, trivial, rfl⟩
    · exact ⟨_, rfl, trivial, rfl⟩
  | linked node item =>
    refine ⟨.storeBack, ?_⟩
    simp only [WorkQueue.step, hplace]
    exact ⟨_, rfl, trivial, rfl⟩
  | storedBack node item =>
    refine ⟨.loadN, ?_⟩
    simp only [WorkQueue.step, hplace]
    exact ⟨_, rfl, trivial, rfl⟩
  | loadedN node item n =>
    -- `N` is less than what was given
    rw [hplace] at hheld hgiven
    obtain ⟨⟨_, hN, _⟩, _, hn⟩ := hheld
    simp only [List.length_append, List.length_map, WorkQueue.items, pending,
      List.length_singleton] at hgiven
    have hunraced : WorkQueue.Unraced q .storeN := by
      intro n' hn'
      rw [hplace] at hn'
      cases hn'
      omega
    refine ⟨.storeN, ?_⟩
    simp only [WorkQueue.step, hplace]
    exact ⟨_, rfl, hunraced, rfl⟩

omit [DecidableEq A] in
/-- What waits in the queue, or is on its way into it. -/
def waiting (q : WorkQueue.St A I W) : List I := q.given.drop q.popped.length

omit [DecidableEq A] in
/-- Between two calls of `steque_enqueue`, the chain has what waits. -/
theorem idle_waiting (h : WorkQueue.Inv q) (hboss : q.boss = .idle) :
    ∃ cells, q.queue.Rep q.heap cells ∧ waiting q = WorkQueue.items cells := by
  rcases h with ⟨_, cells, hheld⟩
  have hgiven := held_given hheld
  rw [hboss] at hheld hgiven
  have hlen : (q.popped.map Prod.snd).length = q.popped.length := List.length_map _
  refine ⟨cells, hheld.1, ?_⟩
  rw [waiting, hgiven, ← hlen, List.drop_left]
  exact List.append_nil _

omit [DecidableEq A] in
theorem waiting_of_empty (h : WorkQueue.Inv q) (hboss : q.boss = .idle)
    (hempty : stequeIsempty q.queue = true) : waiting q = [] := by
  rcases idle_waiting h hboss with ⟨cells, hrep, hwaiting⟩
  cases cells with
  | nil => exact hwaiting
  | cons c cells =>
    have hsize := hrep.size
    rw [List.length_cons] at hsize
    unfold stequeIsempty at hempty
    have hzero := beq_iff_eq.mp hempty
    omega

theorem work_step (h : WorkQueue.Inv q) (hok : WorkQueue.Unraced q b)
    (hstep : WorkQueue.step q b = some q') : WorkQueue.Inv q' := by
  refine WorkQueue.step_inv q b q' hok ?_ h
  show (if q.fault = none then WorkQueue.step q b else none) = some q'
  rw [if_pos h.1]
  exact hstep

/-! ### Nodes -/

/-- There is a node for each item that waits, and no other. -/
def Allocated (q : WorkQueue.St A I W) : Prop :=
  ∃ used : List A, used.Nodup ∧ (∀ a, q.heap a ≠ none ↔ a ∈ used) ∧
    q.given.length = q.popped.length + used.length

theorem stequePop_eq {heap heap' : Heap A I} {p p' : Steque A} {item : I}
    (h : stequePop heap p = .ok (item, heap', p')) :
    ∃ a, heap a ≠ none ∧ heap' = Function.update heap a none := by
  unfold stequePop at h
  split at h
  · cases h
  · rename_i a _
    split at h
    · cases h
    · rename_i n hn
      cases h
      refine ⟨a, ?_, rfl⟩
      rw [hn]
      exact Option.some_ne_none n

theorem Allocated.enqueue (h : Allocated q) {item : I} {node : A}
    (hstep : WorkQueue.step q (.enqueue item node) = some q') : Allocated q' := by
  obtain ⟨used, hnodup, hused, hlen⟩ := h
  obtain ⟨hfree, rfl⟩ := enqueue_eq hstep
  have hnew : node ∉ used := fun hmem => (hused node).mpr hmem hfree
  refine ⟨node :: used, List.nodup_cons.mpr ⟨hnew, hnodup⟩, ?_, ?_⟩
  · intro a
    show Function.update q.heap node (some ⟨item, none⟩) a ≠ none ↔ _
    rw [List.mem_cons]
    by_cases hself : a = node
    · rw [hself, Function.update_self]
      exact iff_of_true (Option.some_ne_none _) (Or.inl rfl)
    · rw [Function.update_of_ne hself, hused]
      exact (or_iff_right hself).symm
  · rw [List.length_append, List.length_singleton, List.length_cons, hlen]
    rfl

theorem Allocated.boss (h : Allocated q) (hb : inEnqueue b = true)
    (hstep : WorkQueue.step q b = some q') : Allocated q' := by
  cases boss_cases hb hstep with
  | fault f => exact h
  | move place heap queue hlt hheap =>
    obtain ⟨used, hnodup, hused, hlen⟩ := h
    exact ⟨used, hnodup, fun a => (hheap a).trans (hused a), hlen⟩

/-- The node of the popped item is given back. -/
theorem Allocated.pop (h : Allocated q) {w : W} {item : I} {heap : Heap A I} {queue : Steque A}
    (hpop : stequePop q.heap q.queue = .ok (item, heap, queue)) :
    Allocated { q with heap := heap, queue := queue, popped := q.popped ++ [(w, item)] } := by
  obtain ⟨used, hnodup, hused, hlen⟩ := h
  obtain ⟨p, hp, rfl⟩ := stequePop_eq hpop
  have hmem := (hused p).mp hp
  refine ⟨used.erase p, hnodup.erase p, ?_, ?_⟩
  · intro a
    show Function.update q.heap p none a ≠ none ↔ _
    rw [hnodup.mem_erase_iff]
    by_cases hself : a = p
    · rw [hself, Function.update_self]
      exact iff_of_false (fun hne => hne rfl) fun hboth => hboth.1 rfl
    · rw [Function.update_of_ne hself, hused]
      exact (and_iff_right hself).symm
  · have hpos := List.length_pos_of_mem hmem
    show q.given.length = (q.popped ++ [(w, item)]).length + _
    rw [List.length_append, List.length_singleton, List.length_erase_of_mem hmem, hlen]
    omega

omit [DecidableEq A] in
/-- How many nodes there are. -/
theorem Allocated.ncard (h : Allocated q) :
    {a | q.heap a ≠ none}.ncard = (waiting q).length := by
  classical
  obtain ⟨used, hnodup, hused, hlen⟩ := h
  have hset : {a | q.heap a ≠ none} = (used.toFinset : Set A) := by
    ext a
    rw [Set.mem_ofPred_eq, hused, Finset.mem_coe, List.mem_toFinset]
  rw [hset, Set.ncard_coe_finset, List.toFinset_card_of_nodup hnodup, waiting, List.length_drop,
    hlen, Nat.add_sub_cancel_left]

omit [DecidableEq A] in
/-- `malloc` has another address. -/
theorem Allocated.exists_free [Infinite A] (h : Allocated q) : ∃ node, q.heap node = none := by
  obtain ⟨used, _, hused, _⟩ := h
  rcases Infinite.exists_notMem_finset (Set.Finite.toFinset (List.finite_toSet used)) with
    ⟨node, hnode⟩
  refine ⟨node, ?_⟩
  by_contra hne
  exact hnode ((Set.Finite.mem_toFinset _).mpr ((hused node).mp hne))

end Queue

/-! ## A server with a list -/

/-- Whose action it is. -/
inductive Actor (W : Type*) where
  /-- the thread of `svc_run` -/
  | boss
  /-- a worker's `steque_isempty` and `steque_pop` -/
  | pop (w : W)
  /-- anything else that a worker does -/
  | worker
deriving DecidableEq, Repr

theorem Actor.ne_pop {a : Actor W} (h : a = .boss ∨ a = .worker) (w : W) : a ≠ .pop w := by
  rintro rfl
  rcases h with hboss | hworker
  · cases hboss
  · cases hworker

/-- A server whose boss puts items at the end of a list, and whose workers take the first one. -/
structure Queued (σ α I W : Type*) where
  sys : Sys σ α
  queue : σ → List I
  setQueue : σ → List I → σ
  actor : α → Actor W
  /-- the worker is at `steque_isempty` -/
  atPop : σ → W → Bool
  /-- the process is over -/
  ended : σ → Bool
  /-- a bound on the items that were put into the list -/
  count : σ → Nat
  queue_setQueue : ∀ s l, queue (setQueue s l) = l
  setQueue_setQueue : ∀ s l l', setQueue (setQueue s l) l' = setQueue s l'
  setQueue_queue : ∀ s, setQueue s (queue s) = s
  atPop_setQueue : ∀ s l w, atPop (setQueue s l) w = atPop s w
  ended_setQueue : ∀ s l, ended (setQueue s l) = ended s
  count_setQueue : ∀ s l, count (setQueue s l) = count s
  init_queue : ∀ s, sys.Init s → queue s = []
  step_ended : ∀ s a, ended s = true → sys.step s a = none
  /-- What waits is not looked at, and what is put comes behind it. -/
  step_put : ∀ s a l, (∀ w, actor a ≠ .pop w) → sys.step (setQueue s l) a =
    (sys.step (setQueue s []) a).map fun s' => setQueue s' (l ++ queue s')
  /-- The first item is taken, and what waits behind it is not looked at. -/
  step_pop : ∀ s a w j l, actor a = .pop w → sys.step (setQueue s (j :: l)) a =
    (sys.step (setQueue s [j]) a).map fun s' => setQueue s' l
  step_pop_nil : ∀ s a w, actor a = .pop w → sys.step (setQueue s []) a = none
  step_pop_queue : ∀ s a w j s', actor a = .pop w → sys.step (setQueue s [j]) a = some s' →
    atPop s w = true ∧ queue s' = [] ∧ count s ≤ count s'
  /-- Only the boss puts items, one at a time. -/
  step_put_queue : ∀ s a s', (∀ w, actor a ≠ .pop w) → sys.step (setQueue s []) a = some s' →
    count s + (queue s').length ≤ count s' ∧ (queue s').length ≤ 1 ∧
      (actor a = .worker → queue s' = [])

variable {σ α : Type*}

/-! ## Steps -/

/-- The server's own list is empty between its steps: what waits is in `work`. -/
structure St (A σ I W : Type*) where
  base : σ
  work : WorkQueue.St A I W

inductive Act (A α I W : Type*) where
  /-- an action of the server; `malloc` returns `node` if something is put into the queue -/
  | act (a : α) (node : A)
  /-- the boss: a load or a store of `steque_enqueue` -/
  | boss (b : WorkQueue.Act A I W)
deriving DecidableEq, Repr

namespace Queued

variable (U : Queued σ α I W)

section Step

variable [DecidableEq A]

/-- A step of the running server. -/
def step (s : St A σ I W) : Act A α I W → Option (St A σ I W)
  | .act a node =>
    match U.actor a with
    | .boss =>
      -- the boss is back in `svc_run`
      match s.work.boss, U.sys.step s.base a with
      | .idle, some b =>
        match U.queue b with
        | [] => some { s with base := b }
        | item :: _ =>
          (WorkQueue.step s.work (.enqueue item node)).map fun work =>
            { base := U.setQueue b [], work := work }
      | _, _ => none
    | .pop w =>
      if U.atPop s.base w then
        if stequeIsempty s.work.queue then none
        else
          match stequePop s.work.heap s.work.queue with
          | .error f => some { s with work := { s.work with fault := some f } }
          | .ok (item, heap, queue) =>
            (U.sys.step (U.setQueue s.base [item]) a).map fun b =>
              { base := b
                work := { s.work with
                  heap := heap
                  queue := queue
                  popped := s.work.popped ++ [(w, item)] } }
      else none
    | .worker => (U.sys.step s.base a).map fun b => { s with base := b }
  | .boss b =>
    if inEnqueue b then (WorkQueue.step s.work b).map fun work => { s with work := work }
    else none

/-- The server on the `steque_t`. -/
def onSteque : Sys (St A σ I W) (Act A α I W) where
  Init s := U.sys.Init s.base ∧ (WorkQueue.sys : Sys (WorkQueue.St A I W) _).Init s.work
  step s a := if U.ended s.base || s.work.fault.isSome then none else U.step s a

end Step

/-- The state of the server with the list. -/
def list (s : St A σ I W) : σ := U.setQueue s.base (waiting s.work)

/-- No pop cuts into the accesses of the boss, and the server's own steps are as `ok` says. -/
def Allowed (ok : σ → α → Prop) (s : St A σ I W) : Act A α I W → Prop
  | .act a _ =>
    ok (U.list s) a ∧
      match U.actor a with
      | .pop w => WorkQueue.Unraced s.work (.pop w)
      | .boss | .worker => True
  | .boss b => WorkQueue.Unraced s.work b

/-- No pop cuts into the accesses of the boss. -/
abbrev Undisturbed (s : St A σ I W) (a : Act A α I W) : Prop := U.Allowed (fun _ _ => True) s a

instance (ok : σ → α → Prop) [∀ s a, Decidable (ok s a)] (s : St A σ I W) :
    (a : Act A α I W) → Decidable (U.Allowed ok s a)
  | .act a _ =>
    have : Decidable (match U.actor a with
        | .pop w => WorkQueue.Unraced s.work (.pop w)
        | .boss | .worker => True) :=
      match U.actor a with
      | .pop w => inferInstanceAs (Decidable (WorkQueue.Unraced s.work (.pop w)))
      | .boss | .worker => .isTrue trivial
    inferInstanceAs (Decidable (_ ∧ _))
  | .boss b => inferInstanceAs (Decidable (WorkQueue.Unraced s.work b))

/-! ## What a step does -/

section Cases

variable [DecidableEq A] {U} {s s' : St A σ I W} {a : Act A α I W}

/-- The steps, one case for each way through `step`. -/
inductive StepCase (U : Queued σ α I W) (s : St A σ I W) : Act A α I W → St A σ I W → Prop where
  | put (a : α) (node : A) (b : σ) (item : I) (rest : List I) (work : WorkQueue.St A I W)
      (hactor : U.actor a = .boss) (hboss : s.work.boss = .idle)
      (hstep : U.sys.step s.base a = some b) (hitem : U.queue b = item :: rest)
      (hwork : WorkQueue.step s.work (.enqueue item node) = some work) :
      StepCase U s (.act a node) { base := U.setQueue b [], work := work }
  | quiet (a : α) (node : A) (b : σ) (hactor : ∀ w, U.actor a ≠ .pop w)
      (hstep : U.sys.step s.base a = some b) (hnone : U.queue b = []) :
      StepCase U s (.act a node) { s with base := b }
  | underflow (a : α) (node : A) (w : W) (f : Fault) (hactor : U.actor a = .pop w)
      (hwork : WorkQueue.step s.work (.pop w) = some { s.work with fault := some f }) :
      StepCase U s (.act a node) { s with work := { s.work with fault := some f } }
  | pop (a : α) (node : A) (w : W) (item : I) (heap : Heap A I) (queue : Steque A) (b : σ)
      (hactor : U.actor a = .pop w)
      (hpop : stequePop s.work.heap s.work.queue = .ok (item, heap, queue))
      (hwork : WorkQueue.step s.work (.pop w) = some { s.work with
        heap := heap, queue := queue, popped := s.work.popped ++ [(w, item)] })
      (hstep : U.sys.step (U.setQueue s.base [item]) a = some b) :
      StepCase U s (.act a node) { base := b, work := { s.work with
        heap := heap, queue := queue, popped := s.work.popped ++ [(w, item)] } }
  | boss (b : WorkQueue.Act A I W) (work : WorkQueue.St A I W) (hb : inEnqueue b = true)
      (hwork : WorkQueue.step s.work b = some work) :
      StepCase U s (.boss b) { s with work := work }

omit [DecidableEq A] in
/-- What a worker's step leaves is no item. -/
theorem queue_of_worker {x : α} {b : σ} (hbase : U.queue s.base = []) (hactor : U.actor x = .worker)
    (hstep : U.sys.step s.base x = some b) : U.queue b = [] := by
  have hother : ∀ w, U.actor x ≠ .pop w := Actor.ne_pop (Or.inr hactor)
  rw [← U.setQueue_queue s.base, hbase] at hstep
  exact (U.step_put_queue s.base x b hother hstep).2.2 hactor

theorem step_cases (hbase : U.queue s.base = []) (h : U.step s a = some s') :
    StepCase U s a s' := by
  cases a with
  | act x node =>
    simp only [step] at h
    split at h
    · rename_i hactor
      have hother : ∀ w, U.actor x ≠ .pop w := Actor.ne_pop (Or.inl hactor)
      split at h
      · rename_i b hboss hstep
        split at h
        · rename_i hnone
          cases h
          exact .quiet x node b hother hstep hnone
        · rename_i item rest hitem
          rcases Option.map_eq_some_iff.mp h with ⟨work, hwork, rfl⟩
          exact .put x node b item rest work hactor hboss hstep hitem hwork
      · cases h
    · rename_i w hactor
      split at h
      · split at h
        · cases h
        · rename_i hempty
          split at h
          · rename_i f hpop
            cases h
            refine .underflow x node w f hactor ?_
            simp only [WorkQueue.step, hempty, hpop]
            rfl
          · rename_i item heap queue hpop
            rcases Option.map_eq_some_iff.mp h with ⟨b, hstep, rfl⟩
            refine .pop x node w item heap queue b hactor hpop ?_ hstep
            simp only [WorkQueue.step, hempty, hpop]
            rfl
      · cases h
    · rename_i hactor
      rcases Option.map_eq_some_iff.mp h with ⟨b, hstep, rfl⟩
      have hother : ∀ w, U.actor x ≠ .pop w := Actor.ne_pop (Or.inr hactor)
      exact .quiet x node b hother hstep (queue_of_worker hbase hactor hstep)
  | boss b =>
    simp only [step] at h
    split at h
    · rename_i hb
      rcases Option.map_eq_some_iff.mp h with ⟨work, hwork, rfl⟩
      exact .boss b work hb hwork
    · cases h

theorem onSteque_step_cases (hbase : U.queue s.base = []) (h : U.onSteque.step s a = some s') :
    StepCase U s a s' := by
  have hstep : (if U.ended s.base || s.work.fault.isSome then none else U.step s a) = some s' := h
  split at hstep
  · cases hstep
  · exact step_cases hbase hstep

end Cases

/-! ## Refinement -/

section Refinement

variable [DecidableEq A] {U} {ok : σ → α → Prop} {s s' : St A σ I W} {a : Act A α I W}

/-- The queue is sound and has a node for each item, and the server's own list is empty. -/
structure Serving (U : Queued σ α I W) (s : St A σ I W) : Prop where
  base : U.queue s.base = []
  queue : WorkQueue.Inv s.work
  nodes : Allocated s.work
  given : s.work.given.length ≤ U.count s.base

omit [DecidableEq A] in
theorem Serving.setQueue_nil (h : Serving U s) : U.setQueue s.base [] = s.base := by
  rw [← h.base]
  exact U.setQueue_queue s.base

omit [DecidableEq A] in
theorem allowed_pop {x : α} {node : A} {w : W} (hok : U.Allowed ok s (.act x node))
    (hactor : U.actor x = .pop w) : WorkQueue.Unraced s.work (.pop w) := by
  have hpop := hok.2
  rw [hactor] at hpop
  exact hpop

/-- The popped item was the first of those that wait. -/
theorem waiting_pop (h : WorkQueue.Inv s.work) {w : W} {item : I} {heap : Heap A I}
    {queue : Steque A} (hok : WorkQueue.Unraced s.work (.pop w))
    (hwork : WorkQueue.step s.work (.pop w) = some { s.work with
      heap := heap, queue := queue, popped := s.work.popped ++ [(w, item)] }) :
    waiting s.work = item :: waiting { s.work with
      heap := heap, queue := queue, popped := s.work.popped ++ [(w, item)] } := by
  rcases inv_given (work_step h hok hwork) with ⟨rest, hgiven⟩
  have hgiven : s.work.given = (s.work.popped ++ [(w, item)]).map Prod.snd ++ rest := hgiven
  rw [List.map_append, List.append_assoc] at hgiven
  have hlen : (s.work.popped.map Prod.snd).length = s.work.popped.length := List.length_map _
  have hold : s.work.given.drop s.work.popped.length = item :: rest := by
    rw [hgiven, ← hlen, List.drop_left]
    rfl
  show s.work.given.drop s.work.popped.length =
    item :: s.work.given.drop (s.work.popped ++ [(w, item)]).length
  rw [List.length_append, List.length_singleton, ← List.drop_drop, hold]
  rfl

/-- What is given to the queue waits behind the rest. -/
theorem waiting_put (h : WorkQueue.Inv s.work) {item : I} {node : A} {work : WorkQueue.St A I W}
    (hwork : WorkQueue.step s.work (.enqueue item node) = some work) :
    waiting work = waiting s.work ++ [item] := by
  rcases inv_given h with ⟨rest, hgiven⟩
  have hle : s.work.popped.length ≤ s.work.given.length := by
    rw [hgiven, List.length_append, List.length_map]
    exact Nat.le_add_right _ _
  obtain ⟨_, rfl⟩ := enqueue_eq hwork
  exact List.drop_append_of_le_length hle

theorem step_serving (hcase : StepCase U s a s') (hok : U.Allowed ok s a) (h : Serving U s) :
    Serving U s' := by
  cases hcase with
  | put x node b item rest work hactor hboss hstep hitem hwork =>
    have hother : ∀ w, U.actor x ≠ .pop w := Actor.ne_pop (Or.inl hactor)
    rw [← h.setQueue_nil] at hstep
    have hcount := (U.step_put_queue s.base x b hother hstep).1
    have hinv := work_step (b := .enqueue item node) h.queue trivial hwork
    refine ⟨U.queue_setQueue _ _, hinv, h.nodes.enqueue hwork, ?_⟩
    obtain ⟨_, rfl⟩ := enqueue_eq hwork
    -- `given` grows by the item that the server counted
    have hgiven := h.given
    rw [hitem, List.length_cons] at hcount
    show (s.work.given ++ [item]).length ≤ U.count (U.setQueue b [])
    rw [U.count_setQueue, List.length_append, List.length_singleton]
    omega
  | quiet x node b hactor hstep hnone =>
    rw [← h.setQueue_nil] at hstep
    have hcount := (U.step_put_queue s.base x b hactor hstep).1
    refine ⟨hnone, h.queue, h.nodes, ?_⟩
    exact Nat.le_trans h.given (Nat.le_trans (Nat.le_add_right _ _) hcount)
  | underflow x node w f hactor hwork =>
    have hinv := work_step h.queue (allowed_pop hok hactor) hwork
    exact ⟨h.base, hinv, h.nodes, h.given⟩
  | pop x node w item heap queue b hactor hpop hwork hstep =>
    obtain ⟨_, hnone, hcount⟩ := U.step_pop_queue s.base x w item b hactor hstep
    exact ⟨hnone, work_step h.queue (allowed_pop hok hactor) hwork, h.nodes.pop hpop,
      Nat.le_trans h.given hcount⟩
  | boss b work hb hwork =>
    refine ⟨h.base, work_step h.queue hok hwork, h.nodes.boss hb hwork, ?_⟩
    cases boss_cases hb hwork with
    | fault f => exact h.given
    | move place heap queue hlt hheap => exact h.given

/-- A load or a store is no step of the server with the list. All others are its steps. -/
theorem list_step (hcase : StepCase U s a s') (hok : U.Allowed ok s a) (h : Serving U s) :
    (∃ x, ok (U.list s) x ∧ U.sys.step (U.list s) x = some (U.list s')) ∨
      (U.list s' = U.list s ∧ stage s'.work.boss < stage s.work.boss) := by
  have h' := step_serving hcase hok h
  unfold list
  cases hcase with
  | put x node b item rest work hactor hboss hstep hitem hwork =>
    have hother : ∀ w, U.actor x ≠ .pop w := Actor.ne_pop (Or.inl hactor)
    rw [← h.setQueue_nil] at hstep
    -- there is one item
    have hlen := (U.step_put_queue s.base x b hother hstep).2.1
    rw [hitem, List.length_cons] at hlen
    have hrest : rest = [] := List.eq_nil_of_length_eq_zero (by omega)
    refine Or.inl ⟨x, hok.1, ?_⟩
    rw [U.step_put s.base x _ hother, hstep, Option.map_some, U.setQueue_setQueue,
      waiting_put h.queue hwork, hitem, hrest]
  | quiet x node b hactor hstep hnone =>
    rw [← h.setQueue_nil] at hstep
    refine Or.inl ⟨x, hok.1, ?_⟩
    rw [U.step_put s.base x _ hactor, hstep, Option.map_some, hnone, List.append_nil]
  | underflow x node w f hactor hwork =>
    -- only a pop in the middle of `steque_enqueue` fails
    have hfault : some f = none := h'.queue.1
    cases hfault
  | pop x node w item heap queue b hactor hpop hwork hstep =>
    refine Or.inl ⟨x, hok.1, ?_⟩
    rw [waiting_pop h.queue (allowed_pop hok hactor) hwork, U.step_pop s.base x w item _ hactor,
      hstep, Option.map_some]
  | boss b work hb hwork =>
    right
    have hfault : work.fault = none := h'.queue.1
    cases boss_cases hb hwork with
    | fault f => cases hfault
    | move place heap queue hlt hheap => exact ⟨rfl, hlt⟩

theorem init_serving (h : U.onSteque.Init s) : Serving U s ∧ U.list s = s.base := by
  obtain ⟨hbase, hwork⟩ := h
  have hinv := WorkQueue.init_inv s.work hwork
  obtain ⟨_, hheap, _, _, hgiven, hpopped⟩ := hwork
  have hqueue := U.init_queue s.base hbase
  refine ⟨⟨hqueue, hinv, ⟨[], List.nodup_nil, ?_, ?_⟩, ?_⟩, ?_⟩
  · intro a
    rw [hheap a]
    exact iff_of_false (fun hne => hne rfl) List.not_mem_nil
  · rw [hgiven, hpopped]
    rfl
  · rw [hgiven]
    exact Nat.zero_le _
  · have hnone : waiting s.work = [] := by
      rw [waiting, hgiven]
      exact List.drop_nil
    rw [list, hnone, ← hqueue]
    exact U.setQueue_queue s.base

/-- What is reached on the queue is reached with the list. -/
theorem reach_list (hs : U.onSteque.Reach (U.Allowed ok) s) :
    U.sys.Reach ok (U.list s) ∧ Serving U s := by
  have hall : ∃ t, U.sys.Reach ok t ∧ U.list s = t ∧ Serving U s := by
    apply Sys.Reach.simulated _ _ s hs
    · intro s hinit
      obtain ⟨h, hlist⟩ := init_serving hinit
      exact ⟨s.base, hinit.1, hlist, h⟩
    · rintro s t a s' ⟨rfl, h⟩ hok hstep
      have hcase := onSteque_step_cases h.base hstep
      refine ⟨U.list s', ?_, rfl, step_serving hcase hok h⟩
      rcases list_step hcase hok h with ⟨x, hx, hnext⟩ | ⟨hsame, _⟩
      · exact Or.inr ⟨x, hx, hnext⟩
      · exact Or.inl hsame
  obtain ⟨t, ht, rfl, h⟩ := hall
  exact ⟨ht, h⟩

end Refinement

/-! ## Inevitability -/

section Inevitability

variable [DecidableEq A] {U} {ok : σ → α → Prop} {s : St A σ I W}

/-- Some allowed step can be taken. -/
def GoesOn (U : Queued σ α I W) (ok : σ → α → Prop) (s : St A σ I W) : Prop :=
  ∃ a s', U.Allowed ok s a ∧ U.onSteque.step s a = some s'

theorem Serving.goesOn (h : Serving U s) (hended : U.ended s.base = false) {a : Act A α I W}
    (hok : U.Allowed ok s a) (hstep : (U.step s a).isSome = true) : GoesOn U ok s := by
  rcases Option.isSome_iff_exists.mp hstep with ⟨s', hs'⟩
  refine ⟨a, s', hok, ?_⟩
  show (if U.ended s.base || s.work.fault.isSome then none else U.step s a) = some s'
  rw [hended, h.queue.1]
  exact hs'

/-- The boss can go on with a request when it is back in `svc_run`. -/
theorem Serving.boss_goesOn [Infinite A] (h : Serving U s) (hended : U.ended s.base = false)
    (hboss : s.work.boss = .idle) {x : α} {t : σ} (hactor : U.actor x = .boss)
    (hx : ok (U.list s) x) (hstep : U.sys.step (U.list s) x = some t) : GoesOn U ok s := by
  have hother : ∀ w, U.actor x ≠ .pop w := Actor.ne_pop (Or.inl hactor)
  rw [list, U.step_put s.base x _ hother, h.setQueue_nil] at hstep
  rcases Option.map_eq_some_iff.mp hstep with ⟨b, hb, _⟩
  rcases h.nodes.exists_free with ⟨node, hnode⟩
  have hok : U.Allowed ok s (.act x node) := by
    refine ⟨hx, ?_⟩
    rw [hactor]
    trivial
  refine h.goesOn hended hok ?_
  simp only [step, hactor, hboss, hb]
  split
  · rfl
  · simp only [WorkQueue.step, hboss, hnode, Option.map_some, Option.isSome_some]

/-- A worker can take what waits when the boss is not in `steque_enqueue`. -/
theorem Serving.pop_goesOn [Infinite A] (h : Serving U s) (hended : U.ended s.base = false)
    (hboss : s.work.boss = .idle) {x : α} {w : W} {t : σ} (hactor : U.actor x = .pop w)
    (hx : ok (U.list s) x) (hstep : U.sys.step (U.list s) x = some t) : GoesOn U ok s := by
  rcases idle_waiting h.queue hboss with ⟨cells, hrep, hwaiting⟩
  rw [list, hwaiting] at hstep
  cases cells with
  | nil =>
    have hnone := U.step_pop_nil s.base x w hactor
    rw [show WorkQueue.items ([] : List (A × I)) = [] from rfl, hnone] at hstep
    cases hstep
  | cons c cells =>
    have hone : U.sys.step (U.setQueue s.base (c.2 :: WorkQueue.items cells)) x = some t := hstep
    rw [U.step_pop s.base x w _ _ hactor] at hone
    rcases Option.map_eq_some_iff.mp hone with ⟨b, hb, _⟩
    rcases hrep.pop with ⟨q', hpop, _⟩
    have hempty : stequeIsempty s.work.queue = false := by
      unfold stequeIsempty
      rw [hrep.size, List.length_cons]
      exact beq_false_of_ne (by omega)
    have hatPop := (U.step_pop_queue s.base x w _ b hactor hb).1
    rcases h.nodes.exists_free with ⟨node, _⟩
    have hok : U.Allowed ok s (.act x node) := by
      refine ⟨hx, ?_⟩
      rw [hactor]
      show WorkQueue.Unraced s.work (.pop w)
      unfold WorkQueue.Unraced
      rw [hboss]
      refine ⟨?_, fun hcount => absurd rfl hcount⟩
      intro hholds
      cases hholds
    refine h.goesOn hended hok ?_
    simp only [step, hactor, hatPop, if_pos, hempty, hpop, hb]
    rfl

/-- Somebody can go on if the server with the list can. -/
theorem Serving.progress [Infinite A] (h : Serving U s) (hsmall : U.count s.base < 2 ^ 31) {x : α}
    {t : σ} (hx : ok (U.list s) x) (hstep : U.sys.step (U.list s) x = some t) : GoesOn U ok s := by
  have hended : U.ended s.base = false := by
    cases hended : U.ended s.base with
    | false => rfl
    | true =>
      have hnone := U.step_ended (U.list s) x (by rw [list, U.ended_setQueue, hended])
      rw [hnone] at hstep
      cases hstep
  by_cases hboss : s.work.boss = .idle
  · -- in `svc_run`: whoever could go on in the list does so here
    cases hactor : U.actor x with
    | boss => exact h.boss_goesOn hended hboss hactor hx hstep
    | pop w => exact h.pop_goesOn hended hboss hactor hx hstep
    | worker =>
      rcases h.nodes.exists_free with ⟨node, _⟩
      have hother : ∀ w, U.actor x ≠ .pop w := Actor.ne_pop (Or.inr hactor)
      rw [list, U.step_put s.base x _ hother, h.setQueue_nil] at hstep
      rcases Option.map_eq_some_iff.mp hstep with ⟨b, hb, _⟩
      have hok : U.Allowed ok s (.act x node) := by
        refine ⟨hx, ?_⟩
        rw [hactor]
        trivial
      refine h.goesOn hended hok ?_
      simp only [step, hactor, hb, Option.map_some, Option.isSome_some]
  · -- the boss comes first
    have hgiven := Nat.lt_of_le_of_lt h.given hsmall
    rcases OnSteque.boss_goesOn h.queue hboss hgiven with ⟨b, work, hb, hok, hwork⟩
    refine h.goesOn hended (a := .boss b) hok ?_
    simp only [step, hb, hwork, if_pos, Option.map_some, Option.isSome_some]

/-- Every schedule on the queue comes to what those with the list come to, as long as the queue's
`int` does for all that is put into it. -/
theorem list_inevitable [Infinite A] {P : σ → Prop}
    (hsmall : ∀ t, U.sys.Reach ok t → U.count t < 2 ^ 31)
    (hs : U.onSteque.Reach (U.Allowed ok) s) (h : U.sys.Inevitable ok P (U.list s)) :
    U.onSteque.Inevitable (U.Allowed ok) (fun s => P (U.list s)) s := by
  obtain ⟨hlist, hserving⟩ := reach_list hs
  have hall : U.onSteque.Inevitable (U.Allowed ok)
      (fun s => ∃ t, (U.list s = t ∧ Serving U s ∧ U.sys.Reach ok t) ∧ P t) s := by
    refine Sys.Inevitable.simulated (fun s => stage s.work.boss) ?_ ?_ h s ⟨rfl, hserving, hlist⟩
    · rintro s t x t' ⟨rfl, h, ht⟩ hx hstep
      have hcount := hsmall _ ht
      rw [list, U.count_setQueue] at hcount
      exact h.progress hcount hx hstep
    · rintro s t a s' ⟨rfl, h, ht⟩ _ hok hstep
      have hcase := onSteque_step_cases h.base hstep
      have h' := step_serving hcase hok h
      rcases list_step hcase hok h with ⟨x, hx, hnext⟩ | ⟨hsame, hlt⟩
      · exact Or.inl ⟨x, U.list s', hx, hnext, rfl, h', .step x ht hx hnext⟩
      · exact Or.inr ⟨⟨hsame, h', ht⟩, hlt⟩
  refine hall.mono ?_
  rintro s ⟨t, ⟨rfl, _⟩, hP⟩
  exact hP

end Inevitability

end Queued

end IntroOS.Minify.OnSteque
