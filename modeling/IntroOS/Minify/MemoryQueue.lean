import IntroOS.Minify.Memory
import IntroOS.Minify.OnSteque

/-! # The memory of `rpc_mt` with its work queue

`Memory.sys` has a list of addresses for the work queue. On the `steque_t` there is a node from
`steque_enqueue` for each address in it, which `steque_pop` gives back.

1. **The queue** (`queued`): who puts addresses into the list, and who takes them;
2. **Steps** (`onQueue`): the same server on the `steque_t`. `malloc` gives out no address of a
   node for a block, or of a block for a node.
-/

namespace IntroOS.Minify.Dispatch.Memory

variable {A W : Type*}

/-! ## Addresses in the list -/

def actor : Act A W → OnSteque.Actor W
  | .receive _ _ => .boss
  | .take w => .pop w
  | .compute _ _ | .sendreply _ | .freeresult _ | .free _ => .worker

def Worker.isIdle : Worker A → Bool
  | .idle => true
  | .working _ | .replying _ _ | .freeing _ _ | .releasing _ => false

def setQueue (s : St A W) (l : List A) : St A W := { s with workqueue := l }

theorem isSome_setQueue (s : St A W) (l : List A) :
    (setQueue s l).ended.isSome = s.ended.isSome := rfl

section Laws

variable [DecidableEq A] [DecidableEq W] {minify : Bytes → Option Bytes} {left : Bytes → Bytes}
  {requests : List Request} {s s' : St A W} {a : Act A W} {w : W} {p : A}

theorem step_ended (h : s.ended.isSome = true) : (sys minify left requests).step s a = none := by
  show (if s.ended.isSome then none else step minify left requests s a) = none
  rw [h]
  rfl

/-- What waits matters to a pop only. -/
theorem step_put (l : List A) (ha : ∀ w, actor a ≠ .pop w) :
    (sys minify left requests).step (setQueue s l) a =
      ((sys minify left requests).step (setQueue s []) a).map fun s' =>
        setQueue s' (l ++ s'.workqueue) := by
  cases hended : s.ended.isSome with
  | true => simp only [sys, isSome_setQueue, hended, if_true, Option.map_none]
  | false =>
    simp only [sys, isSome_setQueue, hended, Bool.false_eq_true, if_false]
    cases a with
    | take w => exact absurd rfl (ha w)
    | receive a b =>
      simp only [setQueue, step]
      cases requests[s.received]? with
      | none => rfl
      | some r =>
        dsimp only
        by_cases hused : a ∈ s.blocks ∨ b ∈ s.blocks ∨ a = b
        · simp [hused]
        · cases xdrImageIn r.args with
          | none => simp [hused]
          | some arg => simp [hused]
    | compute w c =>
      simp only [setQueue, step]
      cases s.worker w with
      | idle | replying | freeing | releasing => rfl
      | working p =>
        dsimp only
        cases argument s.blocks p with
        | none => simp
        | some arg =>
          dsimp only
          cases minifyjpegProc1Svc minify arg with
          | none => simp
          | some dst =>
            by_cases hused : c ∈ s.blocks
            · simp [hused]
            · simp [hused]
    | sendreply w =>
      simp only [setQueue, step]
      cases s.worker w with
      | idle | working | freeing | releasing => rfl
      | replying p res =>
        dsimp only
        cases response s.blocks p res with
        | none => simp
        | some r => simp
    | freeresult w =>
      simp only [setQueue, step]
      cases s.worker w with
      | idle | working | replying | releasing => rfl
      | freeing p res =>
        dsimp only
        cases s.blocks.free res.dstVal with
        | none => simp
        | some m => simp
    | free w =>
      simp only [setQueue, step]
      cases s.worker w with
      | idle | working | replying | freeing => rfl
      | releasing p =>
        dsimp only
        cases s.blocks.free (some p) with
        | none => simp
        | some m => simp

theorem step_pop (l : List A) (ha : actor a = .pop w) :
    (sys minify left requests).step (setQueue s (p :: l)) a =
      ((sys minify left requests).step (setQueue s [p]) a).map fun s' => setQueue s' l := by
  cases hended : s.ended.isSome with
  | true => simp only [sys, isSome_setQueue, hended, if_true, Option.map_none]
  | false =>
    simp only [sys, isSome_setQueue, hended, Bool.false_eq_true, if_false]
    cases a with
    | receive | compute | sendreply | freeresult | free => cases ha
    | take w =>
      simp only [setQueue, step]
      cases s.worker w with
      | working | replying | freeing | releasing => rfl
      | idle => simp

theorem step_pop_nil (ha : actor a = .pop w) :
    (sys minify left requests).step (setQueue s []) a = none := by
  cases hended : s.ended.isSome with
  | true => exact step_ended hended
  | false =>
    simp only [sys, isSome_setQueue, hended, Bool.false_eq_true, if_false]
    cases a with
    | receive | compute | sendreply | freeresult | free => cases ha
    | take w =>
      simp only [setQueue, step]
      cases s.worker w <;> rfl

theorem step_pop_queue (ha : actor a = .pop w)
    (hstep : (sys minify left requests).step (setQueue s [p]) a = some s') :
    (s.worker w).isIdle = true ∧ s'.workqueue = [] ∧ s.received ≤ s'.received := by
  cases (sys_step_cases hstep).2 with
  | take w' p' rest hw hq =>
    -- the list has one item
    cases ha
    cases hq
    have hw : s.worker w = .idle := hw
    rw [hw]
    exact ⟨rfl, rfl, Nat.le_refl _⟩
  | refuse | enqueue | noArgument | exit | compute | noResponse | sendreply | noResult
  | freeresult | noData | free => cases ha

theorem step_put_queue (ha : ∀ w, actor a ≠ .pop w)
    (hstep : (sys minify left requests).step (setQueue s []) a = some s') :
    s.received + s'.workqueue.length ≤ s'.received ∧ s'.workqueue.length ≤ 1 ∧
      (actor a = .worker → s'.workqueue = []) := by
  cases (sys_step_cases hstep).2 with
  | take w p rest hw hq => exact absurd rfl (ha w)
  -- a request counts also when its arguments are refused
  | refuse => exact ⟨Nat.le_succ _, Nat.zero_le _, fun _ => rfl⟩
  | enqueue =>
    refine ⟨Nat.le_refl _, Nat.le_refl _, ?_⟩
    intro hworker
    cases hworker
  | noArgument | exit | compute | noResponse | sendreply | noResult | freeresult | noData | free =>
    exact ⟨Nat.le_refl _, Nat.zero_le _, fun _ => rfl⟩

end Laws

/-! ## On the queue -/

section Queue

variable [DecidableEq A] [DecidableEq W] (minify : Bytes → Option Bytes) (left : Bytes → Bytes)
  (requests : List Request)

/-- The server: the boss puts the address of a `thread_data` into the list. -/
def queued : OnSteque.Queued (St A W) (Act A W) A W where
  sys := sys minify left requests
  queue := St.workqueue
  setQueue := setQueue
  actor := actor
  atPop s w := (s.worker w).isIdle
  ended s := s.ended.isSome
  count := St.received
  queue_setQueue _ _ := rfl
  setQueue_setQueue _ _ _ := rfl
  setQueue_queue _ := rfl
  atPop_setQueue _ _ _ := rfl
  ended_setQueue _ _ := rfl
  count_setQueue _ _ := rfl
  init_queue _ h := h.2.1
  step_ended _ _ h := step_ended h
  step_put _ _ l ha := step_put l ha
  step_pop _ _ _ _ l ha := step_pop l ha
  step_pop_nil _ _ _ ha := step_pop_nil ha
  step_pop_queue _ _ _ _ _ ha hstep := step_pop_queue ha hstep
  step_put_queue _ _ _ ha hstep := step_put_queue ha hstep

/-- The state of the server on the `steque_t`: `base.workqueue` is empty between its steps. -/
abbrev QSt (A W : Type*) := OnSteque.St A (St A W) A W

abbrev QAct (A W : Type*) := OnSteque.Act A (Act A W) A W

/-- The blocks of a step are no nodes, and its node is none of the blocks. -/
def Apart (s : QSt A W) : QAct A W → Prop
  | .act (.receive a b) node =>
    s.work.heap a = none ∧ s.work.heap b = none ∧ node ∉ s.base.blocks ∧ node ≠ a ∧ node ≠ b
  | .act (.compute _ c) _ => s.work.heap c = none
  | .act (.take _) _ | .act (.sendreply _) _ | .act (.freeresult _) _ | .act (.free _) _
  | .boss _ => True

instance (s : QSt A W) : (a : QAct A W) → Decidable (Apart s a)
  | .act (.receive a b) node => inferInstanceAs (Decidable (s.work.heap a = none ∧
      s.work.heap b = none ∧ node ∉ s.base.blocks ∧ node ≠ a ∧ node ≠ b))
  | .act (.compute _ c) _ => inferInstanceAs (Decidable (s.work.heap c = none))
  | .act (.take _) _ | .act (.sendreply _) _ | .act (.freeresult _) _ | .act (.free _) _
  | .boss _ => .isTrue trivial

/-- The server on a sequence of requests, each on its own connection, and on the `steque_t`. -/
def onQueue : Sys (QSt A W) (QAct A W) where
  Init s := (queued minify left requests).onSteque.Init s
  step s a := if Apart s a then (queued minify left requests).onSteque.step s a else none

/-- No pop cuts into the boss's `steque_enqueue`. -/
abbrev Undisturbed (s : QSt A W) (a : QAct A W) : Prop :=
  (queued minify left requests).Undisturbed s a

end Queue

def QSt.start : QSt A W := ⟨.start, .start⟩

section Reached

variable [DecidableEq A] [DecidableEq W] {minify : Bytes → Option Bytes} {left : Bytes → Bytes}
  {requests : List Request} {s : QSt A W}

theorem qstart_init : (onQueue minify left requests).Init (QSt.start : QSt A W) :=
  ⟨start_init, WorkQueue.start_init⟩

theorem reach_onSteque {ok : QSt A W → QAct A W → Prop}
    (hs : (onQueue minify left requests).Reach ok s) :
    (queued minify left requests).onSteque.Reach ok s := by
  induction hs with
  | init h0 => exact .init h0
  | step a _ hok hstep ih =>
    have hif := hstep
    unfold onQueue at hif
    dsimp only at hif
    split at hif
    · exact .step a ih hok hif
    · cases hif

/-- The server with the list, and how many nodes there are. -/
theorem reach_list
    (hs : (onQueue minify left requests).Reach (Undisturbed minify left requests) s) :
    (sys minify left requests).Reach (fun _ _ => True) ((queued minify left requests).list s) ∧
      OnSteque.Queued.Serving (queued minify left requests) s :=
  OnSteque.Queued.reach_list (reach_onSteque hs)

end Reached

end IntroOS.Minify.Dispatch.Memory
