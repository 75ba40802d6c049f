import IntroOS.Minify.OnSteque
import IntroOS.Minify.Server

/-! # The workers of `rpc_mt` on their work queue

`Server.sys` has a list for the work queue. The boss puts the jobs into it, and sees that a client
has gone only between two calls of `steque_enqueue`; both are in `svc_run`.

1. **The queue** (`queued`): who puts jobs into the list, and who takes them;
2. **Steps** (`onQueue`): the same server on the `steque_t`.
-/

namespace IntroOS.Minify.Server

variable {A C W Image : Type*}

/-! ## Jobs in the list -/

def actor : Act C W → OnSteque.Actor W
  | .receive | .disconnect _ => .boss
  | .take w => .pop w
  | .start _ | .finish _ | .sendreply _ _ | .systemerr _ | .freeresult _ => .worker

def Worker.isIdle : Worker C → Bool
  | .idle => true
  | .calling _ | .minifying _ | .replying _ _ | .failing _ | .freeing => false

def setQueue (s : St C W) (l : List (Job C)) : St C W := { s with workqueue := l }

theorem isSome_setQueue (s : St C W) (l : List (Job C)) :
    (setQueue s l).fault.isSome = s.fault.isSome := rfl

section Laws

variable [DecidableEq C] [DecidableEq W] {m : Magick Image} {requests : List (Request C)}
  {s s' : St C W} {a : Act C W} {w : W} {j : Job C}

theorem step_ended (h : s.fault.isSome = true) : (sys m requests).step s a = none := by
  show (if s.fault.isSome then none else step m requests s a) = none
  rw [h]
  rfl

/-- What waits matters to a pop only. -/
theorem step_put (l : List (Job C)) (ha : ∀ w, actor a ≠ .pop w) :
    (sys m requests).step (setQueue s l) a =
      ((sys m requests).step (setQueue s []) a).map fun s' => setQueue s' (l ++ s'.workqueue) := by
  cases hfault : s.fault.isSome with
  | true => simp only [sys, isSome_setQueue, hfault, if_true, Option.map_none]
  | false =>
    simp only [sys, isSome_setQueue, hfault, Bool.false_eq_true, if_false]
    cases a with
    | take w => exact absurd rfl (ha w)
    | receive =>
      simp only [setQueue, step]
      cases requests[s.received]? with
      | none => rfl
      | some r =>
        dsimp only
        by_cases hclosed : s.destroyed r.conn = true
        · simp [hclosed]
        · simp [hclosed]
    | disconnect c =>
      simp only [setQueue, step]
      by_cases hclosed : s.destroyed c = true
      · simp [hclosed]
      · simp [hclosed]
    | start w =>
      simp only [setQueue, step]
      cases s.worker w with
      | calling j => simp
      | idle | minifying | replying | failing | freeing => rfl
    | finish w =>
      simp only [setQueue, step]
      cases s.worker w with
      | idle | calling | replying | failing | freeing => rfl
      | minifying j =>
        dsimp only
        cases magickminify m j.src with
        | error f => simp
        | ok dst => simp
    | sendreply w sent =>
      simp only [setQueue, step]
      cases s.worker w with
      | idle | calling | minifying | failing | freeing => rfl
      | replying j dst =>
        cases sent with
        | true => simp
        | false => simp
    | systemerr w =>
      simp only [setQueue, step]
      cases s.worker w with
      | idle | calling | minifying | replying | freeing => rfl
      | failing j => simp
    | freeresult w =>
      simp only [setQueue, step]
      cases s.worker w with
      | idle | calling | minifying | replying | failing => rfl
      | freeing => simp

theorem step_pop (l : List (Job C)) (ha : actor a = .pop w) :
    (sys m requests).step (setQueue s (j :: l)) a =
      ((sys m requests).step (setQueue s [j]) a).map fun s' => setQueue s' l := by
  cases hfault : s.fault.isSome with
  | true => simp only [sys, isSome_setQueue, hfault, if_true, Option.map_none]
  | false =>
    simp only [sys, isSome_setQueue, hfault, Bool.false_eq_true, if_false]
    cases a with
    | receive | disconnect | start | finish | sendreply | systemerr | freeresult => cases ha
    | take w =>
      simp only [setQueue, step]
      cases s.worker w with
      | calling | minifying | replying | failing | freeing => rfl
      | idle => simp

theorem step_pop_nil (ha : actor a = .pop w) : (sys m requests).step (setQueue s []) a = none := by
  cases hfault : s.fault.isSome with
  | true => exact step_ended hfault
  | false =>
    simp only [sys, isSome_setQueue, hfault, Bool.false_eq_true, if_false]
    cases a with
    | receive | disconnect | start | finish | sendreply | systemerr | freeresult => cases ha
    | take w =>
      simp only [setQueue, step]
      cases s.worker w <;> rfl

theorem step_pop_queue (ha : actor a = .pop w)
    (hstep : (sys m requests).step (setQueue s [j]) a = some s') :
    (s.worker w).isIdle = true ∧ s'.workqueue = [] ∧ s.received ≤ s'.received := by
  cases sys_step_cases hstep with
  | take w' j' rest hw hq =>
    -- the list has one item
    cases ha
    cases hq
    have hw : s.worker w = .idle := hw
    rw [hw]
    exact ⟨rfl, rfl, Nat.le_refl _⟩
  | lost | enqueue | disconnect | start | fault | finish | sent | unsent | systemerr
  | freeresult => cases ha

theorem step_put_queue (ha : ∀ w, actor a ≠ .pop w)
    (hstep : (sys m requests).step (setQueue s []) a = some s') :
    s.received + s'.workqueue.length ≤ s'.received ∧ s'.workqueue.length ≤ 1 ∧
      (actor a = .worker → s'.workqueue = []) := by
  cases sys_step_cases hstep with
  | take w j rest hw hq => exact absurd rfl (ha w)
  | enqueue r hr hopen =>
    refine ⟨Nat.le_refl _, Nat.le_refl _, ?_⟩
    intro hworker
    cases hworker
  -- a request counts also when it is lost
  | lost r hr hclosed => exact ⟨Nat.le_succ _, Nat.zero_le _, fun _ => rfl⟩
  | disconnect | start | fault | finish | sent | unsent | systemerr | freeresult =>
    exact ⟨Nat.le_refl _, Nat.zero_le _, fun _ => rfl⟩

end Laws

section Queue

variable [DecidableEq C] [DecidableEq W] (m : Magick Image) (requests : List (Request C))

/-- The server: the boss puts a job into the list for each request on an open connection. -/
def queued : OnSteque.Queued (St C W) (Act C W) (Job C) W where
  sys := sys m requests
  queue := St.workqueue
  setQueue := setQueue
  actor := actor
  atPop s w := (s.worker w).isIdle
  ended s := s.fault.isSome
  count := St.received
  queue_setQueue _ _ := rfl
  setQueue_setQueue _ _ _ := rfl
  setQueue_queue _ := rfl
  atPop_setQueue _ _ _ := rfl
  ended_setQueue _ _ := rfl
  count_setQueue _ _ := rfl
  init_queue _ h := h.2.1
  step_ended _ _ h := step_ended h
  step_put _ _ l ha := step_put l ha
  step_pop _ _ _ _ l ha := step_pop l ha
  step_pop_nil _ _ _ ha := step_pop_nil ha
  step_pop_queue _ _ _ _ _ ha hstep := step_pop_queue ha hstep
  step_put_queue _ _ _ ha hstep := step_put_queue ha hstep

/-- The state of the server on the `steque_t`: `base.workqueue` is empty between its steps. -/
abbrev QSt (A C W : Type*) := OnSteque.St A (St C W) (Job C) W

abbrev QAct (A C W : Type*) := OnSteque.Act A (Act C W) (Job C) W

/-- The server on a sequence of requests and on the `steque_t`. -/
abbrev onQueue [DecidableEq A] : Sys (QSt A C W) (QAct A C W) := (queued m requests).onSteque

end Queue

def QSt.start : QSt A C W := ⟨.start, .start⟩

section Reached

variable [DecidableEq A] [DecidableEq C] [DecidableEq W] {m : Magick Image}
  {requests : List (Request C)}

theorem qstart_init : (onQueue m requests).Init (QSt.start : QSt A C W) :=
  ⟨start_init m requests, WorkQueue.start_init⟩

omit [DecidableEq A] in
theorem reach_received {ok : St C W → Act C W → Prop} {t : St C W}
    (ht : (sys m requests).Reach ok t) : t.received ≤ requests.length := by
  apply Sys.Reach.inv _ _ t ht
  · rintro s ⟨hreceived, _⟩
    rw [hreceived]
    exact Nat.zero_le _
  · intro s a s' _ hstep h
    cases sys_step_cases hstep with
    | lost r hr | enqueue r hr => exact (List.getElem?_eq_some_iff.mp hr).1
    | disconnect | take | start | fault | finish | sent | unsent | systemerr | freeresult => exact h

end Reached

end IntroOS.Minify.Server
