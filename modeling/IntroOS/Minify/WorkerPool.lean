import IntroOS.Base.Sys
import IntroOS.Base.Threads
import IntroOS.Minify.Steque

/-! # The worker pool of `rpc_mt/minifyjpeg_main.c`

`main` loads the requests of the workload file into `queue` and starts the threads, all in
`worker_main`: they test and pop the queue under `mutex` and process what they popped outside
it.

1. **Workers**: a place for every statement that touches the queue or the mutex. The lock is
   taken before the loop and at the end of its body; it is released in the middle of the body
   and behind the loop.
2. **Property** (`Safe`): the entries are popped in the order of the file, each worker processes
   what it popped, and the queue is empty when all of them have returned.
3. **Progress**: every schedule comes to this end.

`N` is an `int`, so a queue of 2^32 entries counts as empty. `read_from_file` ends the program
if it cannot open its file. `pops` and `processed` are history.
-/

namespace IntroOS.Minify.WorkerPool

variable {A R W : Type*}

/-! ## State -/

/-- Where a worker stands in `worker_main`. -/
inductive Worker (R : Type*) where
  /-- at `pthread_mutex_lock` -/
  | unlocked
  /-- at the test of the loop -/
  | locked
  /-- the queue was not empty; at `steque_pop` -/
  | nonempty
  /-- at the `pthread_mutex_unlock` of the body -/
  | popped (request : R)
  /-- between the two calls: the request is processed -/
  | working (request : R)
  /-- the queue was empty; at the `pthread_mutex_unlock` behind the loop -/
  | empty
  | returned
deriving DecidableEq, Repr

/-- What ended the program. -/
inductive Ended where
  /-- `exit` in `read_from_file` -/
  | unreadable
  | fault (f : Fault)
deriving DecidableEq, Repr

structure St (A R W : Type*) where
  heap : Heap A R
  queue : Steque A
  /-- the thread that holds `mutex` -/
  mutex : Option W
  worker : W → Worker R
  ended : Option Ended
  /-- what was popped, by which worker -/
  pops : List (W × R)
  /-- what a worker processed -/
  processed : W → List R

/-! ## Steps -/

inductive Act (W : Type*) where
  | lock (w : W)
  | test (w : W)
  | pop (w : W)
  | unlock (w : W)
  | process (w : W)
  /-- `read_from_file` cannot open its file -/
  | exit (w : W)
deriving DecidableEq, Repr

section Step

variable [DecidableEq A] [DecidableEq W]

/-- The `steque_enqueue` calls of `load_requests`. `malloc` returned the nodes. -/
def enqueueAll (heap : Heap A R) (q : Steque A) :
    List (A × R) → Except Fault (Heap A R × Steque A)
  | [] => .ok (heap, q)
  | (node, request) :: rest =>
    match stequeEnqueue heap q node request with
    | .error f => .error f
    | .ok (heap, q) => enqueueAll heap q rest

def St.move (s : St A R W) (w : W) (v : Worker R) : St A R W :=
  { s with worker := Function.update s.worker w v }

/-- A step of the running program. -/
def step (s : St A R W) : Act W → Option (St A R W)
  | .lock w =>
    match s.worker w, s.mutex with
    | .unlocked, none => some { s.move w .locked with mutex := some w }
    | _, _ => none
  | .test w =>
    match s.worker w with
    | .locked => some (s.move w (if stequeIsempty s.queue then .empty else .nonempty))
    | _ => none
  | .pop w =>
    match s.worker w with
    | .nonempty =>
      match stequePop s.heap s.queue with
      | .error f => some { s with ended := some (.fault f) }
      | .ok (request, heap, queue) =>
        some { s.move w (.popped request) with
          heap := heap, queue := queue, pops := s.pops ++ [(w, request)] }
    | _ => none
  | .unlock w =>
    match s.worker w with
    | .popped request => some { s.move w (.working request) with mutex := none }
    | .empty => some { s.move w .returned with mutex := none }
    | _ => none
  | .process w =>
    match s.worker w with
    | .working request =>
      some { s.move w .unlocked with
        processed := Function.update s.processed w (s.processed w ++ [request]) }
    | _ => none
  | .exit w =>
    match s.worker w with
    | .working _ => some { s with ended := some .unreadable }
    | _ => none

/-- The workers in any interleaving, from the loaded queue on. -/
def sys (requests : List R) : Sys (St A R W) (Act W) where
  Init s :=
    (∃ cells : List (A × R), (cells.map Prod.fst).Nodup ∧ cells.map Prod.snd = requests ∧
      enqueueAll (fun _ => none) stequeInit cells = .ok (s.heap, s.queue)) ∧
    s.mutex = none ∧ (∀ w, s.worker w = .unlocked) ∧ s.ended = none ∧ s.pops = [] ∧
      ∀ w, s.processed w = []
  step s a := if s.ended = none then step s a else none

end Step

/-! ## Property -/

/-- In the critical section. -/
def Worker.inside : Worker R → Bool
  | .locked | .nonempty | .popped _ | .empty => true
  | .unlocked | .working _ | .returned => false

/-- The request a worker popped and did not process yet. -/
def Worker.held : Worker R → List R
  | .popped request | .working request => [request]
  | .unlocked | .locked | .nonempty | .empty | .returned => []

/-- What a worker popped. -/
def popsOf [DecidableEq W] (w : W) (pops : List (W × R)) : List R :=
  (pops.filter fun p => p.1 = w).map Prod.snd

/-- Every entry of `requests` that is not in the queue was popped once, in the order of the
list; each worker processed what it popped, but for the entry it holds; nothing was popped
from an empty queue; without a worker in the critical section the mutex is free; and when all
workers have returned, the queue is empty and every entry was processed. -/
structure Safe [DecidableEq W] (requests : List R) (s : St A R W) : Prop where
  order : ∃ cells : List (A × R), s.queue.Linked s.heap cells ∧
    requests = s.pops.map Prod.snd ++ cells.map Prod.snd
  own : ∀ w, popsOf w s.pops = s.processed w ++ (s.worker w).held
  noFault : ∀ f, s.ended ≠ some (.fault f)
  mutex : (∀ w, (s.worker w).inside = false) → s.mutex = none
  returned : (∀ w, s.worker w = .returned) → s.queue.front = none ∧
    requests = s.pops.map Prod.snd ∧ ∀ w, s.processed w = popsOf w s.pops

/-- All workers have returned. -/
def Returned (s : St A R W) : Prop := ∀ w, s.worker w = .returned

/-- Every file can be opened. -/
def Act.readable : Act W → Bool
  | .exit _ => false
  | .lock _ | .test _ | .pop _ | .unlock _ | .process _ => true

/-! ## What a step does -/

section Cases

variable [DecidableEq A] [DecidableEq W]

/-- The steps, one case for each way through `step`. -/
inductive StepCase (s : St A R W) : Act W → St A R W → Prop where
  | lock (w : W) (hw : s.worker w = .unlocked) (hfree : s.mutex = none) :
      StepCase s (.lock w) { s.move w .locked with mutex := some w }
  | test (w : W) (hw : s.worker w = .locked) :
      StepCase s (.test w) (s.move w (if stequeIsempty s.queue then .empty else .nonempty))
  | pop (w : W) (hw : s.worker w = .nonempty) (request : R) (heap : Heap A R) (queue : Steque A)
      (hpop : stequePop s.heap s.queue = .ok (request, heap, queue)) :
      StepCase s (.pop w) { s.move w (.popped request) with
        heap := heap, queue := queue, pops := s.pops ++ [(w, request)] }
  | popFails (w : W) (hw : s.worker w = .nonempty) (f : Fault)
      (hpop : stequePop s.heap s.queue = .error f) :
      StepCase s (.pop w) { s with ended := some (.fault f) }
  | unlockPopped (w : W) (request : R) (hw : s.worker w = .popped request) :
      StepCase s (.unlock w) { s.move w (.working request) with mutex := none }
  | unlockEmpty (w : W) (hw : s.worker w = .empty) :
      StepCase s (.unlock w) { s.move w .returned with mutex := none }
  | process (w : W) (request : R) (hw : s.worker w = .working request) :
      StepCase s (.process w) { s.move w .unlocked with
        processed := Function.update s.processed w (s.processed w ++ [request]) }
  | exit (w : W) (request : R) (hw : s.worker w = .working request) :
      StepCase s (.exit w) { s with ended := some .unreadable }

theorem step_cases {s s' : St A R W} {a : Act W} (h : step s a = some s') : StepCase s a s' := by
  cases a with
  | lock w =>
    simp only [step] at h
    split at h
    · rename_i hw hfree
      cases h
      exact .lock w hw hfree
    · cases h
  | test w =>
    simp only [step] at h
    split at h
    · rename_i hw
      cases h
      exact .test w hw
    · cases h
  | pop w =>
    simp only [step] at h
    split at h
    · rename_i hw
      split at h
      · rename_i f hpop
        cases h
        exact .popFails w hw f hpop
      · rename_i request heap queue hpop
        cases h
        exact .pop w hw request heap queue hpop
    · cases h
  | unlock w =>
    simp only [step] at h
    split at h
    · rename_i request hw
      cases h
      exact .unlockPopped w request hw
    · rename_i hw
      cases h
      exact .unlockEmpty w hw
    · cases h
  | process w =>
    simp only [step] at h
    split at h
    · rename_i request hw
      cases h
      exact .process w request hw
    · cases h
  | exit w =>
    simp only [step] at h
    split at h
    · rename_i request hw
      cases h
      exact .exit w request hw
    · cases h

theorem sys_step_cases {requests : List R} {s s' : St A R W} {a : Act W}
    (h : (sys requests).step s a = some s') : s.ended = none ∧ StepCase s a s' := by
  have hstep : (if s.ended = none then step s a else none) = some s' := h
  split at hstep
  · rename_i hended
    exact ⟨hended, step_cases hstep⟩
  · cases hstep

end Cases

/-! ## The invariant -/

/-- A worker that saw the empty queue. -/
def Worker.drained : Worker R → Bool
  | .empty | .returned => true
  | .unlocked | .locked | .nonempty | .popped _ | .working _ => false

/-- The cells `cells` are in the queue. The worker inside holds the mutex, so what it saw of the
queue is still true. -/
structure Inv [DecidableEq W] (requests : List R) (s : St A R W) (cells : List (A × R)) : Prop where
  linked : s.queue.Linked s.heap cells
  order : requests = s.pops.map Prod.snd ++ cells.map Prod.snd
  own : ∀ w, popsOf w s.pops = s.processed w ++ (s.worker w).held
  holder : ∀ w, (s.worker w).inside = true ↔ s.mutex = some w
  full : ∀ w, s.worker w = .nonempty → cells ≠ []
  drained : ∀ w, (s.worker w).drained = true → cells = []
  noFault : ∀ f, s.ended ≠ some (.fault f)

/-- The same for a list of any length, where a worker only saw whether `N` was 0. `N` is 0 for the
last time when a multiple of 2^32 entries is left. -/
structure Counted [DecidableEq W] (requests : List R) (s : St A R W) (cells : List (A × R)) :
    Prop where
  linked : s.queue.Linked s.heap cells
  order : requests = s.pops.map Prod.snd ++ cells.map Prod.snd
  own : ∀ w, popsOf w s.pops = s.processed w ++ (s.worker w).held
  holder : ∀ w, (s.worker w).inside = true ↔ s.mutex = some w
  full : ∀ w, s.worker w = .nonempty → cells.length % 2 ^ 32 ≠ 0
  drained : ∀ w, (s.worker w).drained = true → cells.length % 2 ^ 32 = 0
  kept : requests.length / 2 ^ 32 * 2 ^ 32 ≤ cells.length
  noFault : ∀ f, s.ended ≠ some (.fault f)

section Invariant

variable [DecidableEq W] {requests : List R} {s s' : St A R W} {cells : List (A × R)} {a : Act W}

theorem Counted.length (h : Counted requests s cells) :
    requests.length = s.pops.length + cells.length := by
  rw [h.order, List.length_append, List.length_map, List.length_map]

theorem Counted.cons_of_ne_zero (h : cells.length % 2 ^ 32 ≠ 0) : ∃ c rest, cells = c :: rest := by
  refine List.exists_cons_of_ne_nil ?_
  rintro rfl
  exact h rfl

/-- A list that `N` can count. -/
theorem Counted.inv (h : Counted requests s cells) (hlt : requests.length < 2 ^ 32) :
    Inv requests s cells := by
  refine ⟨h.linked, h.order, h.own, h.holder, ?_, ?_, h.noFault⟩
  · intro w hw
    rcases Counted.cons_of_ne_zero (h.full w hw) with ⟨c, rest, rfl⟩
    exact List.cons_ne_nil c rest
  · intro w hw
    have hzero := h.drained w hw
    have hlen := h.length
    rw [← List.length_eq_zero_iff]
    omega

/-- When all workers have returned, `N` could count the list, or else entries are left. -/
theorem Counted.returned_iff [Nonempty W] (h : Counted requests s cells) (hall : Returned s) :
    cells = [] ↔ requests.length < 2 ^ 32 := by
  rcases ‹Nonempty W› with ⟨w⟩
  have hdrained : (s.worker w).drained = true := by
    rw [hall w]
    rfl
  -- what is left is a multiple of 2^32, and not less than there was of these
  have hzero := h.drained w hdrained
  have hkept := h.kept
  have hsplit := h.length
  rw [← List.length_eq_zero_iff]
  omega

/-- A worker moves, and takes or gives back the mutex. -/
theorem Counted.move (h : Counted requests s cells) {w : W} {v : Worker R} {m : Option W}
    (hheld : v.held = (s.worker w).held) (hself : v.inside = true ↔ m = some w)
    (hothers : ∀ w' ≠ w, s.mutex = some w' ↔ m = some w')
    (hfull : v = .nonempty → cells.length % 2 ^ 32 ≠ 0)
    (hdrained : v.drained = true → cells.length % 2 ^ 32 = 0) :
    Counted requests { s.move w v with mutex := m } cells := by
  refine ⟨h.linked, h.order, ?_, ?_, ?_, ?_, h.kept, h.noFault⟩
  · refine (Function.forall_update_iff s.worker
      fun w' x => popsOf w' s.pops = s.processed w' ++ x.held).mpr ⟨?_, fun w' _ => h.own w'⟩
    rw [hheld]
    exact h.own w
  · refine (Function.forall_update_iff s.worker
      fun w' x => x.inside = true ↔ m = some w').mpr ⟨hself, ?_⟩
    intro w' hw
    rw [← hothers w' hw]
    exact h.holder w'
  · exact forall_update (P := fun x : Worker R => x = .nonempty → cells.length % 2 ^ 32 ≠ 0)
      h.full w hfull
  · exact forall_update (P := fun x : Worker R => x.drained = true → cells.length % 2 ^ 32 = 0)
      h.drained w hdrained

/-- Nobody else is inside with the holder of the mutex. -/
theorem Counted.alone (h : Counted requests s cells) {w w' : W} (hw : (s.worker w).inside = true)
    (hw' : (s.worker w').inside = true) : w' = w := by
  have hmutex := (h.holder w).mp hw
  rw [(h.holder w').mp hw'] at hmutex
  exact Option.some.inj hmutex

/-- The holder gives the mutex back. -/
theorem Counted.release (h : Counted requests s cells) {w : W} (hw : (s.worker w).inside = true) :
    ∀ w' ≠ w, s.mutex = some w' ↔ none = some w' := by
  intro w' hne
  rw [(h.holder w).mp hw]
  constructor
  · intro heq
    exact absurd (Option.some.inj heq).symm hne
  · intro heq
    cases heq

/-- `steque_isempty` tests `N`. -/
theorem Counted.isempty_iff (h : Counted requests s cells) :
    stequeIsempty s.queue = true ↔ cells.length % 2 ^ 32 = 0 := by
  unfold stequeIsempty
  rw [h.linked.size, beq_iff_eq]
  unfold toInt32
  omega

theorem popsOf_append_self (w : W) (pops : List (W × R)) (r : R) :
    popsOf w (pops ++ [(w, r)]) = popsOf w pops ++ [r] := by
  simp [popsOf]

theorem popsOf_append_of_ne {w w' : W} (hw : w' ≠ w) (pops : List (W × R)) (r : R) :
    popsOf w' (pops ++ [(w, r)]) = popsOf w' pops := by
  simp [popsOf, Ne.symm hw]

/-- A worker is through with its request. -/
theorem Counted.process (h : Counted requests s cells) {w : W} {request : R}
    (hw : s.worker w = .working request) :
    Counted requests { s.move w .unlocked with
      processed := Function.update s.processed w (s.processed w ++ [request]) } cells := by
  have hfree : ∀ w', s.mutex = some w' → w' ≠ w := by
    rintro w' hmutex rfl
    have hinside := (h.holder w').mpr hmutex
    rw [hw] at hinside
    cases hinside
  refine ⟨h.linked, h.order, ?_, ?_, ?_, ?_, h.kept, h.noFault⟩
  · intro w'
    show popsOf w' s.pops = Function.update s.processed w (s.processed w ++ [request]) w' ++
      (Function.update s.worker w .unlocked w').held
    by_cases hne : w' = w
    · rw [hne, Function.update_self, Function.update_self, h.own w, hw]
      show s.processed w ++ [request] = s.processed w ++ [request] ++ []
      rw [List.append_nil]
    · rw [Function.update_of_ne hne, Function.update_of_ne hne]
      exact h.own w'
  · refine (Function.forall_update_iff s.worker
      fun w' x => x.inside = true ↔ s.mutex = some w').mpr ⟨?_, fun w' _ => h.holder w'⟩
    exact iff_of_false Bool.false_ne_true fun hmutex => hfree w hmutex rfl
  · exact forall_update (P := fun x : Worker R => x = .nonempty → cells.length % 2 ^ 32 ≠ 0)
      h.full w nofun
  · exact forall_update (P := fun x : Worker R => x.drained = true → cells.length % 2 ^ 32 = 0)
      h.drained w nofun

theorem Inv.safe [Nonempty W] (h : Inv requests s cells) : Safe requests s := by
  refine ⟨⟨cells, h.linked, h.order⟩, h.own, h.noFault, ?_, ?_⟩
  · intro hout
    by_contra hsome
    rcases Option.ne_none_iff_exists'.mp hsome with ⟨w, hw⟩
    have hinside := (h.holder w).mpr hw
    rw [hout w] at hinside
    cases hinside
  · intro hall
    rcases ‹Nonempty W› with ⟨w₀⟩
    have hnil : cells = [] := by
      apply h.drained w₀
      rw [hall w₀]
      rfl
    refine ⟨?_, ?_, ?_⟩
    · rw [h.linked.chain.head, hnil]
      rfl
    · rw [h.order, hnil, List.map_nil, List.append_nil]
    · intro w
      rw [h.own w, hall w]
      exact (List.append_nil _).symm

variable [DecidableEq A]

omit [DecidableEq W] in
theorem enqueueAll_linked {heap : Heap A R} {q : Steque A} (h : q.Linked heap cells)
    {more : List (A × R)} (hnodup : (more.map Prod.fst).Nodup)
    (hfree : ∀ c ∈ more, heap c.1 = none) :
    ∃ heap' q', enqueueAll heap q more = .ok (heap', q') ∧ q'.Linked heap' (cells ++ more) := by
  induction more generalizing heap q cells with
  | nil =>
    rw [List.append_nil]
    exact ⟨heap, q, rfl, h⟩
  | cons c more ih =>
    rcases c with ⟨node, request⟩
    rw [List.map_cons, List.nodup_cons] at hnodup
    rcases h.enqueue (hfree (node, request) List.mem_cons_self) request with
      ⟨heap₁, q₁, henq, hlinked, hrest⟩
    have hfree₁ : ∀ c ∈ more, heap₁ c.1 = none := by
      intro c hc
      apply hrest c.1
      · intro heq
        exact hnodup.1 (heq ▸ List.mem_map_of_mem hc)
      · exact hfree c (List.mem_cons_of_mem _ hc)
    rcases ih hlinked hnodup.2 hfree₁ with ⟨heap', q', hall, hlinked'⟩
    refine ⟨heap', q', ?_, ?_⟩
    · unfold enqueueAll
      rw [henq]
      exact hall
    · rw [List.append_assoc, List.singleton_append] at hlinked'
      exact hlinked'

theorem init_counted (hs : (sys requests).Init s) : ∃ cells, Counted requests s cells := by
  rcases hs with ⟨⟨cells, hnodup, hrequests, hload⟩, hmutex, hworker, hended, hpops, hprocessed⟩
  have hlinked : s.queue.Linked s.heap cells := by
    rcases enqueueAll_linked (linked_init fun _ => none) hnodup (fun _ _ => rfl) with
      ⟨heap', q', hall, hlinked⟩
    rw [hload] at hall
    cases hall
    exact hlinked
  refine ⟨cells, hlinked, ?_, ?_, ?_, ?_, ?_, ?_, ?_⟩
  · rw [hpops, hrequests]
    rfl
  · intro w
    rw [hpops, hprocessed w, hworker w]
    rfl
  · intro w
    rw [hworker w, hmutex]
    exact iff_of_false Bool.false_ne_true (Option.some_ne_none w).symm
  · intro w hw
    rw [hworker w] at hw
    cases hw
  · intro w hw
    rw [hworker w] at hw
    cases hw
  · rw [← hrequests, List.length_map]
    exact Nat.div_mul_le_self _ _
  · intro f hf
    rw [hended] at hf
    cases hf

/-- The pop takes the next entry of the list. -/
theorem Counted.pop (h : Counted requests s cells) {w : W} (hw : s.worker w = .nonempty) {request : R}
    {heap : Heap A R} {queue : Steque A}
    (hpop : stequePop s.heap s.queue = .ok (request, heap, queue)) :
    ∃ c rest, cells = c :: rest ∧
      Counted requests { s.move w (.popped request) with
        heap := heap, queue := queue, pops := s.pops ++ [(w, request)] } rest := by
  have hinside : (s.worker w).inside = true := by
    rw [hw]
    rfl
  rcases Counted.cons_of_ne_zero (h.full w hw) with ⟨c, rest, rfl⟩
  rcases h.linked.pop with ⟨q', hpop', hlinked⟩
  rw [hpop] at hpop'
  cases hpop'
  refine ⟨c, rest, rfl, hlinked, ?_, ?_, ?_, ?_, ?_, ?_, h.noFault⟩
  · show requests = (s.pops ++ [(w, c.2)]).map Prod.snd ++ rest.map Prod.snd
    rw [h.order, List.map_append, List.append_assoc]
    rfl
  · intro w'
    show popsOf w' (s.pops ++ [(w, c.2)]) =
      s.processed w' ++ (Function.update s.worker w (.popped c.2) w').held
    by_cases hne : w' = w
    · have hown := h.own w
      rw [hw] at hown
      rw [hne, Function.update_self, popsOf_append_self, hown]
      show s.processed w ++ [] ++ [c.2] = s.processed w ++ [c.2]
      rw [List.append_nil]
    · rw [Function.update_of_ne hne, popsOf_append_of_ne hne]
      exact h.own w'
  · refine (Function.forall_update_iff s.worker
      fun w' x => x.inside = true ↔ s.mutex = some w').mpr ⟨?_, fun w' _ => h.holder w'⟩
    rw [← h.holder w, hinside]
    exact ⟨fun _ => rfl, fun _ => rfl⟩
  · refine (Function.forall_update_iff s.worker fun _ x =>
      x = .nonempty → rest.length % 2 ^ 32 ≠ 0).mpr ⟨nofun, ?_⟩
    -- only the worker inside could have seen an entry
    intro w' hne hw'
    have hinside' : (s.worker w').inside = true := by
      rw [hw']
      rfl
    exact absurd (h.alone hinside hinside') hne
  · refine (Function.forall_update_iff s.worker
      fun _ x => x.drained = true → rest.length % 2 ^ 32 = 0).mpr ⟨nofun, ?_⟩
    intro w' _ hw'
    exact absurd (h.drained w' hw') (h.full w hw)
  · have hfull := h.full w hw
    have hkept := h.kept
    rw [List.length_cons] at hfull hkept
    omega

theorem step_counted (hstep : StepCase s a s') (h : ∃ cells, Counted requests s cells) :
    ∃ cells, Counted requests s' cells := by
  rcases h with ⟨cells, h⟩
  cases hstep with
  | lock w hw hfree =>
    refine ⟨cells, h.move ?_ ?_ ?_ ?_ ?_⟩
    · rw [hw]
      rfl
    · exact ⟨fun _ => rfl, fun _ => rfl⟩
    · intro w' hne
      rw [hfree]
      exact iff_of_false (Option.some_ne_none w').symm fun heq => hne (Option.some.inj heq).symm
    · intro hv
      cases hv
    · intro hv
      cases hv
  | test w hw =>
    have hinside : (s.worker w).inside = true := by
      rw [hw]
      rfl
    refine ⟨cells, h.move (m := s.mutex) ?_ ?_ ?_ ?_ ?_⟩
    · rw [hw]
      split <;> rfl
    · rw [(h.holder w).mp hinside]
      split <;> exact ⟨fun _ => rfl, fun _ => rfl⟩
    · intro w' _
      exact Iff.rfl
    · intro hv hzero
      rw [if_pos (h.isempty_iff.mpr hzero)] at hv
      cases hv
    · intro hv
      by_contra hne
      rw [if_neg (fun hempty => hne (h.isempty_iff.mp hempty))] at hv
      cases hv
  | pop w hw request heap queue hpop =>
    rcases h.pop hw hpop with ⟨c, rest, _, hinv⟩
    exact ⟨rest, hinv⟩
  | popFails w hw f hpop =>
    -- the queue is still as the test found it
    rcases Counted.cons_of_ne_zero (h.full w hw) with ⟨c, rest, rfl⟩
    rcases h.linked.pop with ⟨q', hpop', _⟩
    rw [hpop] at hpop'
    cases hpop'
  | unlockPopped w request hw =>
    have hinside : (s.worker w).inside = true := by
      rw [hw]
      rfl
    refine ⟨cells, h.move ?_ ?_ (h.release hinside) ?_ ?_⟩
    · rw [hw]
      rfl
    · exact iff_of_false Bool.false_ne_true (Option.some_ne_none w).symm
    · intro hv
      cases hv
    · intro hv
      cases hv
  | unlockEmpty w hw =>
    have hinside : (s.worker w).inside = true := by
      rw [hw]
      rfl
    refine ⟨cells, h.move ?_ ?_ (h.release hinside) ?_ ?_⟩
    · rw [hw]
      rfl
    · exact iff_of_false Bool.false_ne_true (Option.some_ne_none w).symm
    · intro hv
      cases hv
    · intro _
      apply h.drained w
      rw [hw]
      rfl
  | process w request hw => exact ⟨cells, h.process hw⟩
  | exit w request hw =>
    refine ⟨cells, h.linked, h.order, h.own, h.holder, h.full, h.drained, h.kept, ?_⟩
    intro f hf
    cases hf

/-- Every state of a run, for a list of any length. -/
theorem reach_counted (hs : (sys requests).Reach (fun _ _ => True) s) :
    ∃ cells, Counted requests s cells := by
  apply Sys.Reach.inv (fun s hs => init_counted hs) _ s hs
  intro s a s' _ hstep h
  exact step_counted (sys_step_cases hstep).2 h

end Invariant

/-! ## Progress -/

section Progress

variable [DecidableEq A] [DecidableEq W] {requests : List R} {s s' : St A R W}
  {cells : List (A × R)} {a : Act W}

theorem canStep (hended : s.ended = none) (hread : a.readable = true)
    (hstep : (step s a).isSome = true) :
    ∃ a s', a.readable = true ∧ (sys requests).step s a = some s' := by
  rcases Option.isSome_iff_exists.mp hstep with ⟨s', hs'⟩
  refine ⟨a, s', hread, ?_⟩
  show (if s.ended = none then step s a else none) = some s'
  rw [if_pos hended, hs']

/-- Somebody can go on: the holder of the mutex, or else any worker that has not returned. -/
theorem Inv.progress (h : Inv requests s cells) (hended : s.ended = none)
    (hmore : ¬ Returned s) :
    ∃ a s', a.readable = true ∧ (sys requests).step s a = some s' := by
  cases hmutex : s.mutex with
  | some w =>
    have hinside := (h.holder w).mpr hmutex
    cases hw : s.worker w with
    | unlocked | working _ | returned =>
      rw [hw] at hinside
      cases hinside
    | locked =>
      refine canStep (a := .test w) hended rfl ?_
      simp only [step, hw, Option.isSome_some]
    | nonempty =>
      rcases List.exists_cons_of_ne_nil (h.full w hw) with ⟨c, rest, rfl⟩
      rcases h.linked.pop with ⟨q', hpop, _⟩
      refine canStep (a := .pop w) hended rfl ?_
      simp only [step, hw, hpop, Option.isSome_some]
    | popped request =>
      refine canStep (a := .unlock w) hended rfl ?_
      simp only [step, hw, Option.isSome_some]
    | empty =>
      refine canStep (a := .unlock w) hended rfl ?_
      simp only [step, hw, Option.isSome_some]
  | none =>
    have hout : ∀ w, ¬ (s.worker w).inside = true := by
      intro w hinside
      rw [h.holder w, hmutex] at hinside
      cases hinside
    rcases not_forall.mp hmore with ⟨w, hne⟩
    cases hw : s.worker w with
    | returned => exact absurd hw hne
    | locked | nonempty | popped _ | empty =>
      have hnot := hout w
      rw [hw] at hnot
      exact absurd rfl hnot
    | unlocked =>
      refine canStep (a := .lock w) hended rfl ?_
      simp only [step, hw, hmutex, Option.isSome_some]
    | working request =>
      refine canStep (a := .process w) hended rfl ?_
      simp only [step, hw, Option.isSome_some]

/-- Steps a worker has before it until it needs another entry. -/
def Worker.stage : Worker R → Nat
  | .popped _ => 5
  | .working _ => 4
  | .unlocked => 3
  | .locked => 2
  | .nonempty | .empty => 1
  | .returned => 0

/-- How many steps there are at most: a round for every entry of the queue, and what is left of
the rounds the workers are in. -/
def rank [Fintype W] (requests : List R) (s : St A R W) : Nat :=
  5 * (requests.length - s.pops.length) + ∑ w, (s.worker w).stage

variable [Fintype W]

omit [DecidableEq A] in
theorem rank_move {w : W} {v : Worker R} (hworker : s'.worker = Function.update s.worker w v)
    (hpops : s'.pops = s.pops) (hlt : v.stage < (s.worker w).stage) :
    rank requests s' < rank requests s := by
  have hstage := sum_update Worker.stage s.worker w v
  unfold rank
  rw [hworker, hpops]
  omega

theorem rank_step (h : Inv requests s cells) (hread : a.readable = true)
    (hended : s'.ended = none) (hstep : StepCase s a s') :
    rank requests s' < rank requests s := by
  cases hstep with
  | lock w hw | unlockPopped w _ hw | unlockEmpty w hw | process w _ hw =>
    refine rank_move rfl rfl ?_
    rw [hw]
    exact Nat.lt_succ_self _
  | test w hw =>
    refine rank_move rfl rfl ?_
    rw [hw]
    split
    · exact Nat.lt_succ_self 1
    · exact Nat.lt_succ_self 1
  | pop w hw request heap queue hpop =>
    -- one entry less, and a new round for the worker
    have hne : cells.length ≠ 0 := fun hzero => h.full w hw (List.length_eq_zero_iff.mp hzero)
    have hlen : requests.length = s.pops.length + cells.length := by
      rw [h.order, List.length_append, List.length_map, List.length_map]
    have hstage := sum_update Worker.stage s.worker w (.popped request)
    rw [hw] at hstage
    have hstage : ∑ j, (Function.update s.worker w (.popped request) j).stage + 1 =
        ∑ j, (s.worker j).stage + 5 := hstage
    show 5 * (requests.length - (s.pops ++ [(w, request)]).length) +
      ∑ j, (Function.update s.worker w (.popped request) j).stage < _
    rw [List.length_append, List.length_singleton]
    unfold rank
    omega
  | popFails => cases hended
  | exit => cases hread

omit [Fintype W] in
/-- A program without unreadable files goes on. -/
theorem running_step (hinv' : Inv requests s' cells) (hended : s.ended = none)
    (hread : a.readable = true) (hstep : StepCase s a s') : s'.ended = none := by
  cases hstep with
  | lock | test | pop | unlockPopped | unlockEmpty | process => exact hended
  | popFails w hw f => exact absurd rfl (hinv'.noFault f)
  | exit => cases hread

theorem returned_inevitable (hlt : requests.length < 2 ^ 32) (h : Counted requests s cells)
    (hended : s.ended = none) :
    (sys requests).Inevitable (fun _ a => a.readable = true) Returned s := by
  have hall : ∀ s : St A R W, (s.ended = none ∧ ∃ cells, Counted requests s cells) →
      (sys requests).Inevitable (fun _ a => a.readable = true) Returned s := by
    refine Sys.Inevitable.of_rank (rank requests) ?_ ?_
    · rintro s ⟨hended, cells, h⟩ hmore
      exact (h.inv hlt).progress hended hmore
    · rintro s a s' ⟨hended, cells, h⟩ _ hread hstep
      have hcase := (sys_step_cases hstep).2
      rcases step_counted hcase ⟨cells, h⟩ with ⟨cells', h'⟩
      have hended' := running_step (h'.inv hlt) hended hread hcase
      exact ⟨⟨hended', cells', h'⟩, rank_step (h.inv hlt) hread hended' hcase⟩
  exact hall s ⟨hended, cells, h⟩

end Progress

/-! ## Every entry once -/

section Once

variable [DecidableEq A] [DecidableEq W]

/-- What the pool does in a state of a run: nothing wrong so far, and unless the program ended,
every schedule without unreadable files lets all workers return. -/
def ProcessesOnce (requests : List R) (s : St A R W) : Prop :=
  Safe requests s ∧
    (s.ended = none → (sys requests).Inevitable (fun _ a => a.readable = true) Returned s)

/-- **Every entry once.** Fewer than 2^32 entries are popped in their order and processed, each by
one worker, in any interleaving of any number of workers. -/
theorem worker_pool_once [Fintype W] [Nonempty W] (requests : List R)
    (hlt : requests.length < 2 ^ 32) (s : St A R W)
    (hs : (sys requests).Reach (fun _ _ => True) s) : ProcessesOnce requests s := by
  rcases reach_counted hs with ⟨cells, h⟩
  exact ⟨(h.inv hlt).safe, returned_inevitable hlt h⟩

/-- The state in which the threads are started. -/
def St.load (cells : List (A × R)) : Option (St A R W) :=
  match enqueueAll (fun _ => none) stequeInit cells with
  | .error _ => none
  | .ok (heap, queue) => some {
      heap := heap
      queue := queue
      mutex := none
      worker := fun _ => .unlocked
      ended := none
      pops := []
      processed := fun _ => [] }

theorem load_init {cells : List (A × R)} (hnodup : (cells.map Prod.fst).Nodup) {s : St A R W}
    (h : St.load cells = some s) : (sys (cells.map Prod.snd)).Init s := by
  unfold St.load at h
  split at h
  · cases h
  · rename_i heap queue hload
    cases h
    exact ⟨⟨cells, hnodup, rfl, hload⟩, rfl, fun _ => rfl, rfl, rfl, fun _ => rfl⟩

end Once

/-- Two workers with two entries, to the end. -/
theorem worker_pool_once_each :
    ∃ s : St Nat Nat (Fin 2), ProcessesOnce [7, 8] s ∧
      (s.pops, s.processed 0, s.processed 1) = ([(0, 7), (1, 8)], [7], [8]) := by
  have hrun : ((St.load [(0, 7), (1, 8)]).bind fun s : St Nat Nat (Fin 2) => (sys [7, 8]).run s
      [.lock 0, .test 0, .pop 0, .unlock 0, .lock 1, .test 1, .pop 1, .unlock 1, .process 1,
        .process 0]).map (fun s => (s.pops, s.processed 0, s.processed 1)) =
      some ([(0, 7), (1, 8)], [7], [8]) := by decide
  rcases Option.map_eq_some_iff.mp hrun with ⟨s, hs, hout⟩
  rcases Option.bind_eq_some_iff.mp hs with ⟨s₀, hload, hs⟩
  refine ⟨s, ?_, hout⟩
  apply worker_pool_once [7, 8] (by decide)
  exact Sys.reach_of_run (.init (load_init (by decide) hload))
    (Sys.runOk_of_all fun _ _ => trivial) hs

/-- A loaded queue of any length. -/
theorem exists_load [DecidableEq A] {cells : List (A × R)} (hnodup : (cells.map Prod.fst).Nodup) :
    ∃ s : St A R W, St.load cells = some s ∧ s.queue.Linked s.heap cells := by
  rcases enqueueAll_linked (linked_init fun _ => none) hnodup (fun _ _ => rfl) with
    ⟨heap, queue, hall, hlinked⟩
  unfold St.load
  rw [hall]
  exact ⟨_, rfl, hlinked⟩

/-- A single worker that finds `N` to be 0 returns at once. -/
theorem run_uncounted (requests : List Nat) {cells : List (Nat × Nat)} {s : St Nat Nat (Fin 1)}
    (hload : St.load cells = some s) (hN : s.queue.N = 0) :
    ∃ s', (sys requests).run s [.lock 0, .test 0, .unlock 0] = some s' ∧
      Returned s' ∧ s'.pops = [] := by
  have hempty : stequeIsempty s.queue = true := by
    unfold stequeIsempty
    rw [hN]
    rfl
  have hrun : ((sys requests).run s [.lock 0, .test 0, .unlock 0]).map
      (fun s' => (s'.worker 0, s'.pops)) = some (.returned, []) := by
    unfold St.load at hload
    split at hload
    · cases hload
    · cases hload
      simp [Sys.run, List.foldlM, sys, step, St.move, hempty]
  rcases Option.map_eq_some_iff.mp hrun with ⟨s', hs', hout⟩
  rw [Prod.mk.injEq] at hout
  refine ⟨s', hs', ?_, hout.2⟩
  intro w
  rw [Subsingleton.elim w 0]
  exact hout.1

/-- 2^32 entries: the counter is 0, and no entry is processed. -/
theorem worker_pool_uncounted :
    ¬ ∀ (requests : List Nat) (s : St Nat Nat (Fin 1)),
      (sys requests).Reach (fun _ _ => True) s → ProcessesOnce requests s := by
  intro h
  obtain ⟨n, hn⟩ : ∃ n, n = 2 ^ 32 := ⟨_, rfl⟩
  obtain ⟨cells, hcells⟩ : ∃ cells, cells = (List.range n).map fun i => (i, i) := ⟨_, rfl⟩
  have hfst : cells.map Prod.fst = List.range n := by
    rw [hcells, List.map_map]
    exact List.map_id _
  have hsnd : cells.map Prod.snd = List.range n := by
    rw [hcells, List.map_map]
    exact List.map_id _
  have hnodup : (cells.map Prod.fst).Nodup := by
    rw [hfst]
    exact List.nodup_range
  rcases exists_load (W := Fin 1) hnodup with ⟨s, hload, hlinked⟩
  have hN : s.queue.N = 0 := by
    rw [hlinked.size, hcells, List.length_map, List.length_range, hn]
    rfl
  rcases run_uncounted (cells.map Prod.snd) hload hN with ⟨s', hrun, hreturned, hpops⟩
  have hreach : (sys (cells.map Prod.snd)).Reach (fun _ _ => True) s' :=
    Sys.reach_of_run (.init (load_init hnodup hload)) (Sys.runOk_of_all fun _ _ => trivial) hrun
  have hall := ((h _ s' hreach).1.returned hreturned).2.1
  rw [hpops, hsnd] at hall
  have hlen : (List.range n).length = 0 := by
    rw [hall]
    rfl
  rw [List.length_range] at hlen
  omega

end IntroOS.Minify.WorkerPool
