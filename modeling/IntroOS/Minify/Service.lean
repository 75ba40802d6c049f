import IntroOS.Minify.Dispatch
import IntroOS.Minify.OnSteque

/-! # The service on its work queue

`Dispatch.sys` has a list for the work queue. Here its boss and its workers are on the `steque_t`.

1. **The queue** (`queued`): who puts jobs into the list of the dispatcher, and who takes them;
2. **Steps** (`sys`): the dispatcher on the `steque_t`, where the boss enqueues without the mutex;
3. **Every request** (`service_on_queue`): what is replied, and that all schedules come to it;
4. **Refinement** (`dispatch_refines_iff`): when every request gets the reply of the
   single-threaded server.
-/

namespace IntroOS.Minify.Dispatch.Service

variable {A W : Type*}

/-! ## Jobs in the list -/

def actor : Act W → OnSteque.Actor W
  | .receive => .boss
  | .take w => .pop w
  | .compute _ | .sendreply _ => .worker

def isIdle : Worker → Bool
  | .idle => true
  | .working _ | .replying _ _ => false

def setQueue (s : St W) (l : List Job) : St W := { s with workqueue := l }

section Laws

variable [DecidableEq W] {minify : Bytes → Option Bytes} {requests : List Request} {s s' : St W}
  {a : Act W} {w : W} {j : Job}

theorem step_ended (h : s.exited = true) : (Dispatch.sys minify requests).step s a = none := by
  show (if s.exited then none else step minify requests s a) = none
  rw [h]
  rfl

/-- What waits matters to a pop only. -/
theorem step_put (l : List Job) (ha : ∀ w, actor a ≠ .pop w) :
    (Dispatch.sys minify requests).step (setQueue s l) a =
      ((Dispatch.sys minify requests).step (setQueue s []) a).map fun s' =>
        setQueue s' (l ++ s'.workqueue) := by
  cases hexited : s.exited with
  | true => simp only [Dispatch.sys, setQueue, hexited, if_true, Option.map_none]
  | false =>
    unfold Dispatch.sys
    cases a with
    | take w => exact absurd rfl (ha w)
    | receive =>
      simp only [setQueue, hexited, step]
      cases requests[s.received]? with
      | none => rfl
      | some r =>
        dsimp only
        cases xdrImageIn r.args with
        | none => simp
        | some arg => simp
    | compute w =>
      simp only [setQueue, hexited, step]
      cases s.worker w with
      | idle | replying conn dst => rfl
      | working j =>
        dsimp only
        cases minifyjpegProc1Svc minify j.arg with
        | none => simp
        | some dst => simp
    | sendreply w =>
      simp only [setQueue, hexited, step]
      cases s.worker w with
      | idle | working j => rfl
      | replying conn dst => simp

theorem step_pop (l : List Job) (ha : actor a = .pop w) :
    (Dispatch.sys minify requests).step (setQueue s (j :: l)) a =
      ((Dispatch.sys minify requests).step (setQueue s [j]) a).map fun s' => setQueue s' l := by
  cases hexited : s.exited with
  | true => simp only [Dispatch.sys, setQueue, hexited, if_true, Option.map_none]
  | false =>
    unfold Dispatch.sys
    cases a with
    | receive | compute w | sendreply w => cases ha
    | take w =>
      simp only [setQueue, hexited, step]
      cases s.worker w with
      | working j | replying conn dst => rfl
      | idle => simp

theorem step_pop_nil (ha : actor a = .pop w) :
    (Dispatch.sys minify requests).step (setQueue s []) a = none := by
  cases hexited : s.exited with
  | true => exact step_ended hexited
  | false =>
    unfold Dispatch.sys
    cases a with
    | receive | compute w | sendreply w => cases ha
    | take w =>
      simp only [setQueue, hexited, step]
      cases s.worker w <;> rfl

theorem step_pop_queue (ha : actor a = .pop w)
    (hstep : (Dispatch.sys minify requests).step (setQueue s [j]) a = some s') :
    isIdle (s.worker w) = true ∧ s'.workqueue = [] ∧ s.received ≤ s'.received := by
  cases Dispatch.sys_step_cases hstep with
  | take w' j' rest hw hq =>
    cases ha
    cases hq
    have hw : s.worker w = .idle := hw
    rw [hw]
    exact ⟨rfl, rfl, Nat.le_refl _⟩
  | decodeError | enqueue | exit | compute | sendreply => cases ha

theorem step_put_queue (ha : ∀ w, actor a ≠ .pop w)
    (hstep : (Dispatch.sys minify requests).step (setQueue s []) a = some s') :
    s.received + s'.workqueue.length ≤ s'.received ∧ s'.workqueue.length ≤ 1 ∧
      (actor a = .worker → s'.workqueue = []) := by
  cases Dispatch.sys_step_cases hstep with
  | take w j rest hw hq => exact absurd rfl (ha w)
  | decodeError r hr hargs => exact ⟨Nat.le_succ _, Nat.zero_le _, fun _ => rfl⟩
  | enqueue r arg hr hargs =>
    refine ⟨Nat.le_refl _, Nat.le_refl _, ?_⟩
    intro hworker
    cases hworker
  | exit | compute | sendreply => exact ⟨Nat.le_refl _, Nat.zero_le _, fun _ => rfl⟩

end Laws

/-- The dispatcher: the boss puts a job into the list for each request that it decodes. -/
def queued [DecidableEq W] (minify : Bytes → Option Bytes) (requests : List Request) :
    OnSteque.Queued (St W) (Act W) Job W where
  sys := Dispatch.sys minify requests
  queue := St.workqueue
  setQueue := setQueue
  actor := actor
  atPop s w := isIdle (s.worker w)
  ended := St.exited
  count := St.received
  queue_setQueue _ _ := rfl
  setQueue_setQueue _ _ _ := rfl
  setQueue_queue _ := rfl
  atPop_setQueue _ _ _ := rfl
  ended_setQueue _ _ := rfl
  count_setQueue _ _ := rfl
  init_queue _ h := h.2.1
  step_ended _ _ h := step_ended h
  step_put _ _ l ha := step_put l ha
  step_pop _ _ _ _ l ha := step_pop l ha
  step_pop_nil _ _ _ ha := step_pop_nil ha
  step_pop_queue _ _ _ _ _ ha hstep := step_pop_queue ha hstep
  step_put_queue _ _ _ ha hstep := step_put_queue ha hstep

/-! ## On the queue -/

/-- The state of the server: `base.workqueue` is empty between its steps. -/
abbrev QSt (A W : Type*) := OnSteque.St A (St W) Job W

section Service

variable [DecidableEq A] [DecidableEq W] (minify : Bytes → Option Bytes) (requests : List Request)

/-- The server on a sequence of requests, each on its own connection. -/
abbrev sys : Sys (QSt A W) (OnSteque.Act A (Act W) Job W) := (queued minify requests).onSteque

/-- No pop cuts into the accesses of the boss. -/
abbrev Undisturbed (s : QSt A W) (a : OnSteque.Act A (Act W) Job W) : Prop :=
  (queued minify requests).Undisturbed s a

/-- The replies so far are those of the single-threaded server, and every schedule of the boss
and the workers comes to replies for all requests. -/
def Refines (s : QSt A W) : Prop :=
  (∀ i x, s.base.reply i = some x → ∃ r, requests[i]? = some r ∧ answer minify r = some x) ∧
    (sys minify requests).Inevitable (Undisturbed minify requests)
      (fun s => Replied requests s.base) s

end Service

def start : QSt A W := ⟨.start, .start⟩

section Every

variable [DecidableEq A] [DecidableEq W] {minify : Bytes → Option Bytes} {requests : List Request}
  {s : QSt A W}

theorem start_init : (sys minify requests).Init (start : QSt A W) :=
  ⟨Dispatch.start_init, WorkQueue.start_init⟩

theorem reach_received {ok : St W → Act W → Prop} {t : St W}
    (ht : (Dispatch.sys minify requests).Reach ok t) : t.received ≤ requests.length := by
  apply Sys.Reach.inv _ _ t ht
  · rintro s ⟨hreceived, _⟩
    rw [hreceived]
    exact Nat.zero_le _
  · intro s a s' _ hstep h
    cases Dispatch.sys_step_cases hstep with
    | decodeError r hr | enqueue r arg hr => exact (List.getElem?_eq_some_iff.mp hr).1
    | take | exit | compute | sendreply => exact h

/-- Every schedule comes to replies for all requests, as those of the dispatcher do. -/
theorem replied_inevitable [Infinite A] [Fintype W] (hstaffed : Staffed W requests)
    (hlen : requests.length < 2 ^ 31) (hreadable : ∀ r ∈ requests, answerMt minify r ≠ none)
    (hs : (sys minify requests).Reach (Undisturbed minify requests) s) :
    (sys minify requests).Inevitable (Undisturbed minify requests)
      (fun s => Replied requests s.base) s := by
  obtain ⟨hlist, _⟩ := OnSteque.Queued.reach_list hs
  refine OnSteque.Queued.list_inevitable ?_ hs
    (Dispatch.replied_inevitable hstaffed hreadable (reach_inv hlist) (reach_running hreadable hlist))
  intro t ht
  exact Nat.lt_of_le_of_lt (reach_received ht) hlen

/-- **The service on its queue.** For any number of workers and any interleaving with the loads
and stores of the boss in which no pop cuts into these: the queue never goes wrong, what is
reached is reached by the dispatcher, and every reply is the answer to its request. If all images
can be read and there is a worker for them, every such schedule comes to replies for all
requests. -/
theorem service_on_queue [Infinite A] [Fintype W] (minify : Bytes → Option Bytes)
    (requests : List Request) (hlen : requests.length < 2 ^ 31) (s : QSt A W)
    (hs : (sys minify requests).Reach (Undisturbed minify requests) s) :
    s.work.fault = none ∧
      (Dispatch.sys minify requests).Reach (fun _ _ => True) ((queued minify requests).list s) ∧
      (∀ i x, s.base.reply i = some x → ∃ r, requests[i]? = some r ∧ answerMt minify r = some x) ∧
      ((∀ r ∈ requests, answerMt minify r ≠ none) → Staffed W requests →
        (sys minify requests).Inevitable (Undisturbed minify requests)
          (fun s => Replied requests s.base) s) := by
  obtain ⟨hlist, hserving⟩ := OnSteque.Queued.reach_list hs
  exact ⟨hserving.queue.1, hlist, (reach_inv hlist).replies,
    fun hreadable hstaffed => replied_inevitable hstaffed hlen hreadable hs⟩

/-! ## Refinement -/

/-- Requests for `MINIFYJPEG_PROC` with images that can be read get the right replies. -/
theorem refines_of_minifies [Infinite A] [Fintype W] (hlen : requests.length < 2 ^ 31)
    (hall : ∀ r ∈ requests, r.Minifies minify) (hstaffed : Staffed W requests)
    (hs : (sys minify requests).Reach (Undisturbed minify requests) s) :
    Refines minify requests s := by
  have hreadable : ∀ r ∈ requests, answerMt minify r ≠ none := by
    intro r hr
    exact (minifies_iff.mp (hall r hr)).2
  refine ⟨?_, replied_inevitable hstaffed hlen hreadable hs⟩
  obtain ⟨hlist, _⟩ := OnSteque.Queued.reach_list hs
  intro i x hx
  rcases (reach_inv hlist).replies i x hx with ⟨r, hr, hanswer⟩
  refine ⟨r, hr, ?_⟩
  rw [answer_minifyjpeg (hall r (List.mem_of_getElem? hr)).1]
  exact hanswer

/-- Another request never gets its reply. -/
theorem minifies_of_refines
    (hall : ∀ s : QSt A W, (sys minify requests).Reach (Undisturbed minify requests) s →
      Refines minify requests s) {r : Request} (hr : r ∈ requests) : r.Minifies minify := by
  have hstart : (sys minify requests).Reach (Undisturbed minify requests) (start : QSt A W) :=
    .init start_init
  rcases (hall _ hstart).2.exists_reach hstart with ⟨s, hs, hreplied⟩
  obtain ⟨hlist, _⟩ := OnSteque.Queued.reach_list hs
  rcases List.mem_iff_getElem?.mp hr with ⟨i, hi⟩
  have hlt := (List.getElem?_eq_some_iff.mp hi).1
  rcases Option.ne_none_iff_exists'.mp (hreplied i hlt) with ⟨x, hx⟩
  -- the reply is an answer of both servers
  rcases (reach_inv hlist).replies i x hx with ⟨r₁, hr₁, hmt⟩
  rcases (hall s hs).1 i x hx with ⟨r₂, hr₂, hst⟩
  rw [hi] at hr₁ hr₂
  cases hr₁
  cases hr₂
  have hsame : answerMt minify r = answer minify r := by rw [hmt, hst]
  rw [minifies_iff, hmt]
  exact ⟨answerMt_eq_iff.mp hsame, Option.some_ne_none x⟩

/-- And all of them need somebody to serve them. -/
theorem staffed_of_refines
    (hall : ∀ s : QSt A W, (sys minify requests).Reach (Undisturbed minify requests) s →
      Refines minify requests s) : Staffed W requests := by
  have hstart : (sys minify requests).Reach (Undisturbed minify requests) (start : QSt A W) :=
    .init start_init
  rcases (hall _ hstart).2.exists_reach hstart with ⟨s, hs, hreplied⟩
  obtain ⟨hlist, _⟩ := OnSteque.Queued.reach_list hs
  exact (reach_inv hlist).staffed hlist hreplied

/-- **Refinement.** In every interleaving in which no pop cuts into the accesses of the boss, the
multithreaded server gives every request the reply of the single-threaded one, exactly if all
requests are for `MINIFYJPEG_PROC`, their images can be read and there is a worker for them. -/
theorem dispatch_refines_iff [Infinite A] [Fintype W] (minify : Bytes → Option Bytes)
    (requests : List Request) (hlen : requests.length < 2 ^ 31) :
    (∀ s : QSt A W, (sys minify requests).Reach (Undisturbed minify requests) s →
      Refines minify requests s) ↔
        (∀ r ∈ requests, r.Minifies minify) ∧ Staffed W requests := by
  constructor
  · intro hall
    exact ⟨fun r hr => minifies_of_refines hall hr, staffed_of_refines hall⟩
  · rintro ⟨hall, hstaffed⟩ s hs
    exact refines_of_minifies hlen hall hstaffed hs

end Every

/-! ## Two images -/

def twoImages : List Request := [oneByte, oneByte]

/-- The second image is on its way into the queue when the first one is taken. -/
theorem overlapping_reach : ∃ s : QSt Nat (Fin 2),
    (sys some twoImages).Reach (Undisturbed some twoImages) s ∧
      s.base.reply 0 = some (.image [120]) ∧ s.base.received = 2 := by
  have hrun : ((sys some twoImages).run (start : QSt Nat (Fin 2)) [.act .receive 0, .boss .testBack,
      .boss .link, .boss .storeBack, .boss .loadN, .boss .storeN, .act .receive 1, .act (.take 1) 0,
      .boss .testBack, .act (.compute 1) 0, .boss .link, .act (.sendreply 1) 0]).map
      (fun s => (s.base.reply 0, s.base.received)) = some (some (.image [120]), 2) := by decide
  rcases Option.map_eq_some_iff.mp hrun with ⟨s, hs, hout⟩
  rw [Prod.mk.injEq] at hout
  exact ⟨s, Sys.reach_of_run (.init start_init) (by decide) hs, hout⟩

theorem service_on_queue_two : ∃ s : QSt Nat (Fin 2),
    (s.work.fault = none ∧
      (Dispatch.sys some twoImages).Reach (fun _ _ => True) ((queued some twoImages).list s) ∧
      (∀ i x, s.base.reply i = some x → ∃ r, twoImages[i]? = some r ∧ answerMt some r = some x) ∧
      ((∀ r ∈ twoImages, answerMt some r ≠ none) → Staffed (Fin 2) twoImages →
        (sys some twoImages).Inevitable (Undisturbed some twoImages)
          (fun s => Replied twoImages s.base) s)) ∧
    s.base.reply 0 = some (.image [120]) ∧ s.base.received = 2 := by
  rcases overlapping_reach with ⟨s, hs, hout⟩
  exact ⟨s, service_on_queue some twoImages (by decide) s hs, hout⟩

theorem dispatch_refines_two : ∃ s : QSt Nat (Fin 2),
    Refines some twoImages s ∧ s.base.reply 0 = some (.image [120]) ∧ s.base.received = 2 := by
  rcases overlapping_reach with ⟨s, hs, hout⟩
  refine ⟨s, ?_, hout⟩
  apply (dispatch_refines_iff some twoImages (by decide)).mpr
  · refine ⟨?_, Or.inl inferInstance⟩
    intro r hr
    have hone : r = oneByte := by simpa [twoImages] using hr
    rw [hone]
    exact ⟨rfl, fun arg _ => Option.some_ne_none arg.src⟩
  · exact hs

/-- The single-threaded server answers a call of `NULLPROC`; the multithreaded one tries to decode
its arguments. -/
theorem dispatch_null_undecodable :
    ¬ ∀ (minify : Bytes → Option Bytes) (requests : List Request) (s : QSt Nat (Fin 1)),
      (sys minify requests).Reach (Undisturbed minify requests) s → Refines minify requests s := by
  intro h
  have hproc := (minifies_of_refines (h some [nullCall]) List.mem_cons_self).1
  exact absurd hproc (by decide)

end IntroOS.Minify.Dispatch.Service
