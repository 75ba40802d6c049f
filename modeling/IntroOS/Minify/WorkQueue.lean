import IntroOS.Base.Sys
import IntroOS.Minify.Steque

/-! # The work queue of `rpc_mt/minifyjpeg_svc.c`

Workers test and pop `workqueue` under `mylock`; the boss thread calls `steque_enqueue`
without it. A worker's locked test-and-pop is one step, every load and store of the boss is
a step of its own.

1. **Boss**: `malloc`, the test of `back`, the second load of `back` behind `else`, the store
   of `front` or `back->next`, the store of `back`, and `N++` as a load and a store.
2. **Property** (`QueueOk`): between two enqueues the queue is represented, and the requests
   given to it are those popped, then those in the chain.
3. **Condition** (`Unraced`): no pop of the only node between the boss's test of `back` and
   its store behind it, no pop between its load and its store of `N`, and `N` fits an `int`.

`given` and `popped` are history.
-/

namespace IntroOS.Minify.WorkQueue

variable {A I W : Type*}

/-! ## State -/

/-- Where the boss stands in `steque_enqueue`. -/
inductive Boss (A I : Type*) where
  /-- not in a call -/
  | idle
  /-- at `if(this->back == NULL)` -/
  | allocated (node : A) (item : I)
  /-- `back` was NULL; at the store of `front` -/
  | sawEmpty (node : A) (item : I)
  /-- `back` was not NULL; at its second load -/
  | sawBack (node : A) (item : I)
  /-- at the store of `back->next` -/
  | loadedBack (node : A) (item : I) (back : A)
  /-- at the store of `back` -/
  | linked (node : A) (item : I)
  /-- at the load of `N` -/
  | storedBack (node : A) (item : I)
  /-- at the store of `N` -/
  | loadedN (node : A) (item : I) (n : Int)
deriving DecidableEq, Repr

structure St (A I W : Type*) where
  heap : Heap A I
  queue : Steque A
  boss : Boss A I
  /-- the process is over -/
  fault : Option Fault
  /-- requests given to `steque_enqueue` -/
  given : List I
  /-- what the workers popped -/
  popped : List (W × I)

/-! ## Steps -/

inductive Act (A I W : Type*) where
  /-- `minifyjpeg_prog_1` calls `steque_enqueue`; `malloc` returns `node` -/
  | enqueue (item : I) (node : A)
  | testBack
  | loadBack
  | link
  | storeBack
  | loadN
  | storeN
  /-- a worker's `steque_isempty` and `steque_pop` -/
  | pop (w : W)
deriving DecidableEq, Repr

section Step

variable [DecidableEq A]

/-- A step of the running process. -/
def step (s : St A I W) : Act A I W → Option (St A I W)
  | .enqueue item node =>
    match s.boss, s.heap node with
    | .idle, none =>
      some { s with
        boss := .allocated node item
        heap := Function.update s.heap node (some ⟨item, none⟩)
        given := s.given ++ [item] }
    | _, _ => none
  | .testBack =>
    match s.boss with
    | .allocated node item =>
      match s.queue.back with
      | none => some { s with boss := .sawEmpty node item }
      | some _ => some { s with boss := .sawBack node item }
    | _ => none
  | .loadBack =>
    match s.boss with
    | .sawBack node item =>
      match s.queue.back with
      | none => some { s with fault := some .badPointer }
      | some b => some { s with boss := .loadedBack node item b }
    | _ => none
  | .link =>
    match s.boss with
    | .sawEmpty node item =>
      some { s with boss := .linked node item, queue := { s.queue with front := some node } }
    | .loadedBack node item b =>
      match s.heap b with
      | none => some { s with fault := some .badPointer }
      | some n =>
        some { s with
          boss := .linked node item
          heap := Function.update s.heap b (some ⟨n.item, some node⟩) }
    | _ => none
  | .storeBack =>
    match s.boss with
    | .linked node item =>
      some { s with boss := .storedBack node item, queue := { s.queue with back := some node } }
    | _ => none
  | .loadN =>
    match s.boss with
    | .storedBack node item => some { s with boss := .loadedN node item s.queue.N }
    | _ => none
  | .storeN =>
    match s.boss with
    | .loadedN _ _ n =>
      some { s with boss := .idle, queue := { s.queue with N := toInt32 (n + 1) } }
    | _ => none
  | .pop w =>
    if stequeIsempty s.queue then some s
    else match stequePop s.heap s.queue with
      | .error f => some { s with fault := some f }
      | .ok (item, heap, queue) =>
        some { s with heap := heap, queue := queue, popped := s.popped ++ [(w, item)] }

/-- The boss and the workers in any interleaving, from `steque_init` on. -/
def sys : Sys (St A I W) (Act A I W) where
  Init s :=
    s.queue = stequeInit ∧ (∀ a, s.heap a = none) ∧ s.boss = .idle ∧ s.fault = none ∧
      s.given = [] ∧ s.popped = []
  step s a := if s.fault = none then step s a else none

def St.start : St A I W where
  heap := fun _ => none
  queue := stequeInit
  boss := .idle
  fault := none
  given := []
  popped := []

theorem start_init : (sys : Sys (St A I W) (Act A I W)).Init St.start :=
  ⟨rfl, fun _ => rfl, rfl, rfl, rfl, rfl⟩

/-! ## The boss alone

Without a step of a worker in between, the boss's loads and stores are `steque_enqueue`. -/

/-- The boss's steps on a queue with or without a node. -/
def bossActs (back : Option A) (item : I) (node : A) : List (Act A I W) :=
  match back with
  | none => [.enqueue item node, .testBack, .link, .storeBack, .loadN, .storeN]
  | some _ => [.enqueue item node, .testBack, .loadBack, .link, .storeBack, .loadN, .storeN]

theorem run_bossActs {s : St A I W} (hboss : s.boss = .idle) (hfault : s.fault = none) {node : A}
    (hfree : s.heap node = none) (item : I) {heap : Heap A I} {queue : Steque A}
    (henq : stequeEnqueue s.heap s.queue node item = .ok (heap, queue)) :
    sys.run s (bossActs s.queue.back item node) =
      some { s with heap := heap, queue := queue, given := s.given ++ [item] } := by
  obtain ⟨sheap, ⟨front, back, N⟩, boss, fault, given, popped⟩ := s
  simp only at hboss hfault hfree henq
  subst hboss hfault
  cases back with
  | none =>
    unfold stequeEnqueue at henq
    simp only [Except.ok.injEq, Prod.mk.injEq] at henq
    obtain ⟨rfl, rfl⟩ := henq
    simp [bossActs, Sys.run, List.foldlM, sys, step, hfree]
  | some b =>
    unfold stequeEnqueue at henq
    simp only at henq
    split at henq
    · cases henq
    · rename_i n hn
      simp only [Except.ok.injEq, Prod.mk.injEq] at henq
      obtain ⟨rfl, rfl⟩ := henq
      simp [bossActs, Sys.run, List.foldlM, sys, step, hfree, hn]

/-! ## Property and condition -/

/-- The items of cells. -/
def items (cells : List (A × I)) : List I := cells.map Prod.snd

/-- No worker popped an empty chain and no freed node was used; between two enqueues the queue
is represented, and every request given to it was popped by one worker or is in the chain, in
the order they were given. -/
def QueueOk (s : St A I W) : Prop :=
  s.fault = none ∧
  (s.boss = .idle → ∃ cells, s.queue.Rep s.heap cells ∧
    s.given = s.popped.map Prod.snd ++ items cells)

/-- The boss is between its test of `back` and its store behind it. -/
def Boss.holdsBack : Boss A I → Bool
  | .sawBack _ _ | .loadedBack _ _ _ => true
  | _ => false

/-- The value the boss is about to increment. -/
def Boss.counting : Boss A I → Option Int
  | .loadedN _ _ n => some n
  | _ => none

/-- The step does not cut into the boss's accesses: no pop of the only node while the boss holds
`back`, no pop while it holds `N`, and `N` does not overflow. -/
def Unraced (s : St A I W) : Act A I W → Prop
  | .pop _ => (s.boss.holdsBack = true → s.queue.N ≠ 1) ∧ (s.boss.counting ≠ none → s.queue.N = 0)
  | .storeN => ∀ n ∈ s.boss.counting, n + 1 < 2 ^ 31
  | _ => True

instance (s : St A I W) : (a : Act A I W) → Decidable (Unraced s a)
  | .pop _ => inferInstanceAs (Decidable ((_ → _) ∧ (_ → _)))
  | .storeN => inferInstanceAs (Decidable (∀ n ∈ s.boss.counting, n + 1 < 2 ^ 31))
  | .enqueue _ _ | .testBack | .loadBack | .link | .storeBack | .loadN => .isTrue trivial

/-! ## The invariant -/

/-- The node of the boss is allocated, not yet linked. -/
def Fresh (s : St A I W) (cells : List (A × I)) (node : A) (item : I) : Prop :=
  s.queue.Rep s.heap cells ∧ s.heap node = some ⟨item, none⟩ ∧ node ∉ cells.map Prod.fst ∧
    s.given = s.popped.map Prod.snd ++ (items cells ++ [item])

/-- The node of the boss is the last of the chain, not yet counted. -/
def Uncounted (s : St A I W) (cells : List (A × I)) (node : A) (item : I) : Prop :=
  Chain s.heap s.queue.front (cells ++ [(node, item)]) ∧ s.queue.N = cells.length ∧
    cells.length < 2 ^ 31 ∧
    s.given = s.popped.map Prod.snd ++ (items cells ++ [item])

/-- What holds of the queue, by the place of the boss. -/
def Held (s : St A I W) (cells : List (A × I)) : Boss A I → Prop
  | .idle => s.queue.Rep s.heap cells ∧ s.given = s.popped.map Prod.snd ++ items cells
  | .allocated node item => Fresh s cells node item
  | .sawEmpty node item => Fresh s cells node item ∧ cells = []
  | .sawBack node item => Fresh s cells node item ∧ cells ≠ []
  | .loadedBack node item b => Fresh s cells node item ∧ cells.getLast?.map Prod.fst = some b
  | .linked node item => Uncounted s cells node item
  | .storedBack node item => Uncounted s cells node item ∧ s.queue.back = some node
  | .loadedN node item n => Uncounted s cells node item ∧ s.queue.back = some node ∧ s.queue.N = n

def Inv (s : St A I W) : Prop := s.fault = none ∧ ∃ cells, Held s cells s.boss

theorem init_inv : ∀ s : St A I W, (sys : Sys (St A I W) (Act A I W)).Init s → Inv s := by
  rintro s ⟨hqueue, _, hboss, hfault, hgiven, hpopped⟩
  refine ⟨hfault, [], ?_⟩
  rw [hboss]
  refine ⟨?_, ?_⟩
  · rw [hqueue]
    exact rep_init s.heap
  · rw [hgiven, hpopped]
    rfl

/-! ### Steps of the boss -/

omit [DecidableEq A] in
/-- The last cell of a chain that `back` points to. -/
theorem eq_append_of_getLast? {cells : List (A × I)} {b : A}
    (h : cells.getLast?.map Prod.fst = some b) :
    ∃ front last, cells = front ++ [last] ∧ last.1 = b := by
  rcases List.eq_nil_or_concat cells with rfl | ⟨front, last, rfl⟩
  · cases h
  · refine ⟨front, last, List.concat_eq_append .., ?_⟩
    simpa using h

theorem enqueue_inv {s s' : St A I W} {item : I} {node : A}
    (hstep : step s (.enqueue item node) = some s') (hinv : Inv s) : Inv s' := by
  obtain ⟨hfault, cells, hheld⟩ := hinv
  simp only [step] at hstep
  split at hstep
  · rename_i hboss hfree
    cases hstep
    rw [hboss] at hheld
    obtain ⟨hrep, hgiven⟩ := hheld
    have hnew := hrep.not_mem hfree
    refine ⟨hfault, cells, ⟨?_, hrep.back, hrep.size, hrep.small⟩, Function.update_self _ _ _, hnew,
      ?_⟩
    · exact hrep.chain.update hnew _
    · show s.given ++ [item] = _
      rw [hgiven, List.append_assoc]
  · cases hstep

/-- `back` is NULL exactly when the chain is empty. -/
theorem testBack_inv {s s' : St A I W} (hstep : step s .testBack = some s') (hinv : Inv s) :
    Inv s' := by
  obtain ⟨hfault, cells, hheld⟩ := hinv
  simp only [step] at hstep
  split at hstep
  · rename_i node item hboss
    rw [hboss] at hheld
    have hrep := hheld.1
    split at hstep
    · rename_i hback
      cases hstep
      refine ⟨hfault, cells, hheld, ?_⟩
      rw [hrep.back] at hback
      simpa using hback
    · rename_i b hback
      cases hstep
      refine ⟨hfault, cells, hheld, ?_⟩
      intro hnil
      rw [hrep.back, hnil] at hback
      cases hback
  · cases hstep

/-- The chain is still not empty, so the second load of `back` is not NULL. -/
theorem loadBack_inv {s s' : St A I W} (hstep : step s .loadBack = some s') (hinv : Inv s) :
    Inv s' := by
  obtain ⟨hfault, cells, hheld⟩ := hinv
  simp only [step] at hstep
  split at hstep
  · rename_i node item hboss
    rw [hboss] at hheld
    obtain ⟨hfresh, hne⟩ := hheld
    split at hstep
    · rename_i hback
      rw [hfresh.1.back] at hback
      exact absurd (by simpa using hback) hne
    · rename_i b hback
      cases hstep
      refine ⟨hfault, cells, hfresh, ?_⟩
      rw [← hfresh.1.back]
      exact hback
  · cases hstep

omit [DecidableEq A] in
/-- The first node: `front` is stored, the chain is this node. -/
theorem link_first_inv {s : St A I W} (hinv : Inv s) {node : A} {item : I}
    (hboss : s.boss = .sawEmpty node item) :
    Inv { s with boss := .linked node item, queue := { s.queue with front := some node } } := by
  obtain ⟨hfault, cells, hheld⟩ := hinv
  rw [hboss] at hheld
  obtain ⟨⟨hrep, hnode, _, hgiven⟩, rfl⟩ := hheld
  refine ⟨hfault, [], ?_, hrep.size, hrep.small, hgiven⟩
  exact Chain.cons (show Chain s.heap none [] from rfl) hnode

/-- A further node: the last node is still there, and gets the new one behind it. -/
theorem link_last_inv {s : St A I W} (hinv : Inv s) {node b : A} {item : I}
    (hboss : s.boss = .loadedBack node item b) :
    ∃ n, s.heap b = some n ∧
      Inv { s with
        boss := .linked node item
        heap := Function.update s.heap b (some ⟨n.item, some node⟩) } := by
  obtain ⟨hfault, cells, hheld⟩ := hinv
  rw [hboss] at hheld
  obtain ⟨⟨hrep, hnode, hnew, hgiven⟩, hback⟩ := hheld
  obtain ⟨front, last, rfl, rfl⟩ := eq_append_of_getLast? hback
  obtain ⟨hlast, hchain⟩ := hrep.chain.link_last hnode hnew
  refine ⟨⟨last.2, none⟩, hlast, hfault, front ++ [last], ?_, hrep.size, hrep.small, hgiven⟩
  simpa using hchain

theorem link_inv {s s' : St A I W} (hstep : step s .link = some s') (hinv : Inv s) : Inv s' := by
  simp only [step] at hstep
  split at hstep
  · rename_i node item hboss
    cases hstep
    exact link_first_inv hinv hboss
  · rename_i node item b hboss
    obtain ⟨n, hn, hnext⟩ := link_last_inv hinv hboss
    rw [hn] at hstep
    cases hstep
    exact hnext
  · cases hstep

theorem storeBack_inv {s s' : St A I W} (hstep : step s .storeBack = some s') (hinv : Inv s) :
    Inv s' := by
  obtain ⟨hfault, cells, hheld⟩ := hinv
  simp only [step] at hstep
  split at hstep
  · rename_i node item hboss
    rw [hboss] at hheld
    cases hstep
    exact ⟨hfault, cells, hheld, rfl⟩
  · cases hstep

theorem loadN_inv {s s' : St A I W} (hstep : step s .loadN = some s') (hinv : Inv s) :
    Inv s' := by
  obtain ⟨hfault, cells, hheld⟩ := hinv
  simp only [step] at hstep
  split at hstep
  · rename_i node item hboss
    rw [hboss] at hheld
    cases hstep
    exact ⟨hfault, cells, hheld.1, hheld.2, rfl⟩
  · cases hstep

/-- `N` counts the last node again. -/
theorem storeN_inv {s s' : St A I W} (hok : Unraced s .storeN) (hstep : step s .storeN = some s')
    (hinv : Inv s) : Inv s' := by
  obtain ⟨hfault, cells, hheld⟩ := hinv
  simp only [step] at hstep
  split at hstep
  · rename_i node item n hboss
    cases hstep
    rw [hboss] at hheld
    obtain ⟨⟨hchain, hsize, _, hgiven⟩, hback, hN⟩ := hheld
    have hn : n + 1 < 2 ^ 31 := by
      apply hok
      rw [hboss]
      rfl
    have hlen : n = cells.length := by
      rw [← hN]
      exact hsize
    have hsmall : cells.length + 1 < 2 ^ 31 := by omega
    refine ⟨hfault, cells ++ [(node, item)], ⟨hchain, ?_, ?_, by simpa using hsmall⟩, ?_⟩
    · show s.queue.back = _
      rw [hback]
      simp
    · show toInt32 (n + 1) = _
      rw [hlen, toInt32_succ hsmall]
      simp
    · show s.given = _
      rw [hgiven]
      simp [items]
  · cases hstep

/-! ### Steps of the workers -/

/-- The state after the pop of `c` by `w`. -/
def St.popping (s : St A I W) (w : W) (c : A × I) (q' : Steque A) : St A I W :=
  { s with
    heap := Function.update s.heap c.1 none
    queue := q'
    popped := s.popped ++ [(w, c.2)] }

/-- The popped item moves from the front of the queue to the end of what was popped. -/
theorem popping_given {s : St A I W} {w : W} {c : A × I} {rest : List (A × I)} {q' : Steque A}
    {new : List I} (h : s.given = s.popped.map Prod.snd ++ (items (c :: rest) ++ new)) :
    (s.popping w c q').given = (s.popping w c q').popped.map Prod.snd ++ (items rest ++ new) := by
  show s.given = (s.popped ++ [(w, c.2)]).map Prod.snd ++ _
  rw [h]
  simp [items]

/-- A pop while the queue is represented. -/
theorem pop_rep {s : St A I W} {cells : List (A × I)} (hrep : s.queue.Rep s.heap cells)
    (hN : s.queue.N ≠ 0) :
    ∃ c rest q', cells = c :: rest ∧
      stequePop s.heap s.queue = .ok (c.2, Function.update s.heap c.1 none, q') ∧
      q'.Rep (Function.update s.heap c.1 none) rest := by
  cases cells with
  | nil => exact absurd hrep.size hN
  | cons c rest =>
    obtain ⟨q', hpop, hrep'⟩ := hrep.pop
    exact ⟨c, rest, q', rfl, hpop, hrep'⟩

/-- A pop while the boss has a node that is not linked: the node stays fresh. -/
theorem pop_fresh {s : St A I W} {cells : List (A × I)} {node : A} {item : I}
    (h : Fresh s cells node item) (hN : s.queue.N ≠ 0) (w : W) :
    ∃ c rest q', cells = c :: rest ∧
      stequePop s.heap s.queue = .ok (c.2, Function.update s.heap c.1 none, q') ∧
      Fresh (s.popping w c q') rest node item := by
  obtain ⟨hrep, hnode, hnew, hgiven⟩ := h
  obtain ⟨c, rest, q', rfl, hpop, hrep'⟩ := pop_rep hrep hN
  rw [List.map_cons, List.mem_cons, not_or] at hnew
  refine ⟨c, rest, q', rfl, hpop, hrep', ?_, hnew.2, popping_given hgiven⟩
  show Function.update s.heap c.1 none node = _
  rw [Function.update_of_ne hnew.1]
  exact hnode

/-- A pop while the last node is linked and not counted: another node is popped. -/
theorem pop_uncounted {s : St A I W} {cells : List (A × I)} {node : A} {item : I}
    (h : Uncounted s cells node item) (hN : s.queue.N ≠ 0) (w : W) :
    ∃ (c : A × I) (rest : List (A × I)) (q' : Steque A),
      stequePop s.heap s.queue = .ok (c.2, Function.update s.heap c.1 none, q') ∧
      q'.back = s.queue.back ∧ Uncounted (s.popping w c q') rest node item := by
  obtain ⟨hchain, hsize, hsmall, hgiven⟩ := h
  cases cells with
  | nil => exact absurd hsize hN
  | cons c rest =>
    obtain ⟨next, hrest, hpop⟩ := stequePop_chain hchain
    rw [List.length_cons] at hsize hsmall
    refine ⟨c, rest, _, hpop, if_neg (by simp), hrest, ?_, by omega, popping_given hgiven⟩
    show toInt32 (s.queue.N - 1) = _
    rw [hsize, toInt32_pred (by omega) (by omega)]
    simp

/-- What holds of the queue survives a pop, wherever the boss is. -/
theorem Held.pop {s : St A I W} {w : W} {cells : List (A × I)} (hok : Unraced s (.pop w))
    (hN : s.queue.N ≠ 0) (hheld : Held s cells s.boss) :
    ∃ (c : A × I) (rest : List (A × I)) (q' : Steque A),
      stequePop s.heap s.queue = .ok (c.2, Function.update s.heap c.1 none, q') ∧
      Held (s.popping w c q') rest s.boss := by
  obtain ⟨hback, hcount⟩ := hok
  cases hboss : s.boss with
  | idle =>
    rw [hboss] at hheld
    obtain ⟨hrep, hgiven⟩ := hheld
    obtain ⟨c, rest, q', rfl, hpop, hrep'⟩ := pop_rep hrep hN
    have hmoved : (s.popping w c q').given =
        (s.popping w c q').popped.map Prod.snd ++ (items rest ++ []) :=
      popping_given (by rw [List.append_nil, hgiven])
    rw [List.append_nil] at hmoved
    exact ⟨c, rest, q', hpop, hrep', hmoved⟩
  | allocated node item =>
    rw [hboss] at hheld
    obtain ⟨c, rest, q', rfl, hpop, hfresh⟩ := pop_fresh hheld hN w
    exact ⟨c, rest, q', hpop, hfresh⟩
  | sawEmpty node item =>
    -- the chain is empty, so nothing is popped
    rw [hboss] at hheld
    obtain ⟨⟨hrep, _⟩, rfl⟩ := hheld
    exact absurd hrep.size hN
  | sawBack node item =>
    rw [hboss] at hheld hback
    obtain ⟨hfresh, _⟩ := hheld
    have hsize := hfresh.1.size
    obtain ⟨c, rest, q', rfl, hpop, hfresh'⟩ := pop_fresh hfresh hN w
    refine ⟨c, rest, q', hpop, hfresh', ?_⟩
    -- it was not the only node
    rintro rfl
    exact hback rfl hsize
  | loadedBack node item b =>
    rw [hboss] at hheld hback
    obtain ⟨hfresh, hlast⟩ := hheld
    have hsize := hfresh.1.size
    obtain ⟨c, rest, q', rfl, hpop, hfresh'⟩ := pop_fresh hfresh hN w
    refine ⟨c, rest, q', hpop, hfresh', ?_⟩
    cases rest with
    | nil => exact absurd hsize (hback rfl)
    | cons c' rest =>
      rw [List.getLast?_cons_cons] at hlast
      exact hlast
  | linked node item =>
    rw [hboss] at hheld
    obtain ⟨c, rest, q', hpop, _, hun⟩ := pop_uncounted hheld hN w
    exact ⟨c, rest, q', hpop, hun⟩
  | storedBack node item =>
    rw [hboss] at hheld
    obtain ⟨hun, hb⟩ := hheld
    obtain ⟨c, rest, q', hpop, hsame, hun'⟩ := pop_uncounted hun hN w
    exact ⟨c, rest, q', hpop, hun', hsame.trans hb⟩
  | loadedN node item n =>
    rw [hboss] at hcount
    exact absurd (hcount (by simp [Boss.counting])) hN

theorem pop_inv {s s' : St A I W} {w : W} (hok : Unraced s (.pop w))
    (hstep : step s (.pop w) = some s') (hinv : Inv s) : Inv s' := by
  simp only [step] at hstep
  by_cases hN : s.queue.N = 0
  · -- nothing to pop
    have hempty : stequeIsempty s.queue = true := by simp [stequeIsempty, hN]
    rw [if_pos hempty] at hstep
    cases hstep
    exact hinv
  · have hempty : ¬ stequeIsempty s.queue = true := by simp [stequeIsempty, hN]
    obtain ⟨hfault, cells, hheld⟩ := hinv
    obtain ⟨c, rest, q', hpop, hheld'⟩ := hheld.pop hok hN
    rw [if_neg hempty, hpop] at hstep
    cases hstep
    exact ⟨hfault, rest, hheld'⟩

theorem step_inv : ∀ (s : St A I W) a s', Unraced s a → sys.step s a = some s' → Inv s → Inv s' := by
  intro s a s' hok hstep hinv
  have hif : (if s.fault = none then step s a else none) = some s' := hstep
  rw [if_pos hinv.1] at hif
  cases a with
  | pop w => exact pop_inv hok hif hinv
  | enqueue item node => exact enqueue_inv hif hinv
  | testBack => exact testBack_inv hif hinv
  | loadBack => exact loadBack_inv hif hinv
  | link => exact link_inv hif hinv
  | storeBack => exact storeBack_inv hif hinv
  | loadN => exact loadN_inv hif hinv
  | storeN => exact storeN_inv hok hif hinv

/-- **The work queue.** In every run in which no pop cuts into the boss's accesses, the queue is
represented between two enqueues and no request is lost or served twice. -/
theorem workqueue_ok (s : St A I W) (hs : (sys : Sys (St A I W) (Act A I W)).Reach Unraced s) :
    QueueOk s := by
  obtain ⟨hfault, cells, hheld⟩ := Sys.Reach.inv init_inv step_inv s hs
  refine ⟨hfault, ?_⟩
  intro hboss
  rw [hboss] at hheld
  exact ⟨cells, hheld⟩

/-! ## Two runs -/

/-- The first item is popped when the second one is linked behind it, and that by the other worker. -/
theorem workqueue_ok_interrupted :
    ∃ s : St (Fin 2) Nat (Fin 2), QueueOk s ∧ s.given = [5, 6] ∧ s.popped = [(0, 5), (1, 6)] := by
  have hrun : (sys.run (St.start : St (Fin 2) Nat (Fin 2))
      [.enqueue 5 0, .testBack, .link, .storeBack, .loadN, .storeN,
        .enqueue 6 1, .testBack, .loadBack, .link, .pop 0, .storeBack, .loadN, .storeN, .pop 1]).map
      (fun s => (s.given, s.popped)) = some ([5, 6], [(0, 5), (1, 6)]) := by decide
  obtain ⟨s, hs, hout⟩ := Option.map_eq_some_iff.mp hrun
  rw [Prod.mk.injEq] at hout
  exact ⟨s, workqueue_ok s (Sys.reach_of_run (.init start_init) (by decide) hs), hout⟩

/-- A pop between the boss's load and its store of `N` leaves `N` one too large: the queue counts
two requests where the chain has one, and the pop after the last one finds `front` NULL. -/
theorem workqueue_race :
    ¬ ∀ s : St (Fin 2) Nat (Fin 1),
      (sys : Sys (St (Fin 2) Nat (Fin 1)) (Act (Fin 2) Nat (Fin 1))).Reach (fun _ _ => True) s →
        QueueOk s := by
  intro h
  have hrun : (sys.run (St.start : St (Fin 2) Nat (Fin 1))
      [.enqueue 5 0, .testBack, .link, .storeBack, .loadN, .storeN,
        .enqueue 6 1, .testBack, .loadBack, .link, .storeBack, .loadN, .pop 0, .storeN,
        .pop 0, .pop 0]).map (fun s => (s.boss, s.fault)) =
      some (.idle, some .underflow) := by decide
  obtain ⟨s, hs, hout⟩ := Option.map_eq_some_iff.mp hrun
  rw [Prod.mk.injEq] at hout
  have hok := h s (Sys.reach_of_run (.init start_init) (Sys.runOk_of_all (fun _ _ => trivial)) hs)
  rw [hok.1] at hout
  cases hout.2

end Step

end IntroOS.Minify.WorkQueue
