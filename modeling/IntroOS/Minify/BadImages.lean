import IntroOS.Minify.ServerQueue

/-! # Bad images

The bytes of a request may be no image, or one that cannot be shrunk. `magickminify` then ends the
server, or goes on with NULL; the procedure has nothing to report.

1. **Single-threaded** (`serve`): one request after the other, up to the fault;
2. **Multithreaded** (`Isolates`): safety in every run on the work queue in which no pop cuts into
   the boss's `steque_enqueue`, the right outcomes in the calm ones, in which clients wait for their
   replies;
3. **Result** (`bad_images_iff`): only good images leave the servers up.

The jobs and the calm runs are looked at on the server with a list for its queue.
-/

namespace IntroOS.Minify.Server

variable {A C W Image : Type*}

/-- The outcome a request should have: its minified image, or else an error. -/
def RightOutcome (m : Magick Image) (src : Bytes) : Outcome → Prop
  | .image dst => minified m src = some dst
  | .error => minified m src = none

/-! ## The single-threaded server -/

section Single

variable (m : Magick Image)

/-- `minifyjpeg_proc_1_svc`: what it returns, and its result. -/
def minifyjpegProc1Svc (src : Bytes) : Except Fault (Int × Bytes) :=
  match magickminify m src with
  | .error f => .error f
  | .ok dst => .ok (1, dst)

/-- `minifyjpeg_prog_1` from the call of the procedure on. `sent` is what `svc_sendreply`
returns. -/
def minifyjpegProg1 (src : Bytes) (sent : Bool) : Except Fault (Option Outcome) :=
  match minifyjpegProc1Svc m src with
  | .error f => .error f
  | .ok (retval, result) =>
    if 0 < retval then
      if sent then .ok (some (.image result)) else .ok (some .error)
    else .ok none

/-- A request, and whether its client gets what is sent to it. -/
structure Call where
  src : Bytes
  sent : Bool
deriving DecidableEq, Repr

/-- The outcomes of the requests, and the fault that ended the server. -/
def serve : List Call → List (Option Outcome) × Option Fault
  | [] => ([], none)
  | c :: rest =>
    match minifyjpegProg1 m c.src c.sent with
    | .error f => ([], some f)
    | .ok o => (o :: (serve rest).1, (serve rest).2)

/-- There is no fault, and whoever can be replied to gets the right outcome. -/
def ServesAll (calls : List Call) : Prop :=
  (serve m calls).2 = none ∧
    List.Forall₂ (fun c o => c.sent = true → ∃ x, o = some x ∧ RightOutcome m c.src x) calls
      (serve m calls).1

variable {m}

theorem minifyjpegProg1_good {src dst : Bytes} (h : minified m src = some dst) (sent : Bool) :
    minifyjpegProg1 m src sent = .ok (some (if sent then .image dst else .error)) := by
  have hmagick := magickminify_eq_ok_iff.mpr h
  unfold minifyjpegProg1 minifyjpegProc1Svc
  rw [hmagick]
  cases sent with
  | true => rfl
  | false => rfl

theorem minifyjpegProg1_bad {src : Bytes} (h : minified m src = none) (sent : Bool) :
    ∃ f, minifyjpegProg1 m src sent = .error f := by
  rcases magickminify_eq_error_iff.mpr h with ⟨f, hf⟩
  refine ⟨f, ?_⟩
  unfold minifyjpegProg1 minifyjpegProc1Svc
  rw [hf]

theorem servesAll_cons_good {c : Call} {dst : Bytes} (h : minified m c.src = some dst)
    (calls : List Call) : ServesAll m (c :: calls) ↔ ServesAll m calls := by
  have hserve : serve m (c :: calls) =
      (some (if c.sent then .image dst else .error) :: (serve m calls).1, (serve m calls).2) := by
    rw [serve, minifyjpegProg1_good h]
  unfold ServesAll
  rw [hserve, List.forall₂_cons]
  constructor
  · rintro ⟨hfault, _, hrest⟩
    exact ⟨hfault, hrest⟩
  · rintro ⟨hfault, hrest⟩
    refine ⟨hfault, ?_, hrest⟩
    intro hsent
    refine ⟨.image dst, ?_, h⟩
    rw [if_pos hsent]

/-- The server gets through a sequence of requests exactly if all their images are good. -/
theorem servesAll_iff (calls : List Call) :
    ServesAll m calls ↔ ∀ c ∈ calls, minified m c.src ≠ none := by
  induction calls with
  | nil => exact ⟨fun _ c hc => absurd hc List.not_mem_nil, fun _ => ⟨rfl, .nil⟩⟩
  | cons c calls ih =>
    rw [List.forall_mem_cons]
    cases hmin : minified m c.src with
    | some dst =>
      rw [servesAll_cons_good hmin, ih]
      exact ⟨fun h => ⟨Option.some_ne_none dst, h⟩, fun h => h.2⟩
    | none =>
      rcases minifyjpegProg1_bad hmin c.sent with ⟨f, hf⟩
      constructor
      · rintro ⟨hfault, _⟩
        rw [serve, hf] at hfault
        cases hfault
      · rintro ⟨hne, _⟩
        exact absurd rfl hne

end Single

/-! ## The multithreaded server -/

/-- Clients wait for their replies. -/
def Calm (_ : St C W) : Act C W → Prop
  | .disconnect _ | .sendreply _ false => False
  | _ => True

/-- Every request has an outcome. -/
def Answered (requests : List (Request C)) (s : St C W) : Prop :=
  ∀ i < requests.length, s.outcome i ≠ none

section OnQueue

variable [DecidableEq A] [DecidableEq C] [DecidableEq W] (m : Magick Image)
  (requests : List (Request C))

/-- No pop cuts into the boss's `steque_enqueue`. -/
abbrev Undisturbed (s : QSt A C W) (a : QAct A C W) : Prop := (queued m requests).Undisturbed s a

/-- Nor do clients leave before their replies. -/
abbrev UndisturbedCalm (s : QSt A C W) (a : QAct A C W) : Prop :=
  (queued m requests).Allowed Calm s a

/-- No fault in any run without a pop that cuts into the boss's `steque_enqueue`, and in every calm
one the right outcomes for all requests. -/
structure Isolates (A : Type*) [DecidableEq A] (W : Type*) [DecidableEq W] (m : Magick Image)
    (requests : List (Request C)) : Prop where
  running : ∀ s : QSt A C W, (onQueue m requests).Reach (Undisturbed m requests) s →
    s.base.fault = none ∧ s.work.fault = none
  right : ∀ s : QSt A C W, (onQueue m requests).Reach (UndisturbedCalm m requests) s →
    ∀ i x, s.base.outcome i = some x → ∃ r, requests[i]? = some r ∧ RightOutcome m r.src x
  answered : ∀ s : QSt A C W, (onQueue m requests).Reach (UndisturbedCalm m requests) s →
    (onQueue m requests).Inevitable (UndisturbedCalm m requests)
      (fun s => Answered requests s.base) s

end OnQueue

/-! ### Jobs -/

/-- The job is that of its request. -/
def Job.Came (requests : List (Request C)) (j : Job C) : Prop :=
  requests[j.num]? = some ⟨j.transp, j.src⟩

/-- A worker has the job of a request, and replies with the minified image. -/
def Worker.Sound (m : Magick Image) (requests : List (Request C)) : Worker C → Prop
  | .idle | .freeing => True
  | .calling j | .minifying j | .failing j => j.Came requests
  | .replying j dst => j.Came requests ∧ minified m j.src = some dst

/-- The request a worker has. -/
def Worker.num : Worker C → Option Nat
  | .idle | .freeing => none
  | .calling j | .minifying j | .replying j _ | .failing j => some j.num

/-- No reply of the worker failed. -/
def Worker.Replies : Worker C → Prop
  | .failing _ => False
  | _ => True

structure Jobs (m : Magick Image) (requests : List (Request C)) (s : St C W) : Prop where
  queued : ∀ j ∈ s.workqueue, j.Came requests
  workers : ∀ w, (s.worker w).Sound m requests

section Multi

variable [DecidableEq C] [DecidableEq W] {m : Magick Image} {requests : List (Request C)}
  {s s' : St C W} {a : Act C W}

theorem step_jobs (hstep : StepCase m requests s a s') (h : Jobs m requests s) :
    Jobs m requests s' := by
  cases hstep with
  | lost r hr hclosed => exact ⟨h.queued, h.workers⟩
  | enqueue r hr hopen =>
    refine ⟨?_, h.workers⟩
    intro j hj
    rcases List.mem_append.mp hj with hold | hnew
    · exact h.queued j hold
    · rw [List.mem_singleton.mp hnew]
      exact hr
  | disconnect c hopen => exact ⟨h.queued, h.workers⟩
  | take w j rest hw hq =>
    have hqueued := h.queued
    rw [hq, List.forall_mem_cons] at hqueued
    exact ⟨hqueued.2, forall_update h.workers w hqueued.1⟩
  | start w j hw =>
    have hcame := h.workers w
    rw [hw] at hcame
    exact ⟨h.queued, forall_update h.workers w hcame⟩
  | fault w j f hw hmagick => exact ⟨h.queued, h.workers⟩
  | finish w j dst hw hmagick =>
    have hcame := h.workers w
    rw [hw] at hcame
    exact ⟨h.queued, forall_update h.workers w ⟨hcame, magickminify_eq_ok_iff.mp hmagick⟩⟩
  | unsent w j dst hw =>
    have hsound := h.workers w
    rw [hw] at hsound
    exact ⟨h.queued, forall_update h.workers w hsound.1⟩
  | sent w | systemerr w | freeresult w => exact ⟨h.queued, forall_update h.workers w trivial⟩

theorem reach_jobs {ok : St C W → Act C W → Prop} (hs : (sys m requests).Reach ok s) :
    Jobs m requests s := by
  apply Sys.Reach.inv _ _ s hs
  · rintro s ⟨_, hqueue, hidle, _⟩
    refine ⟨?_, ?_⟩
    · intro j hj
      rw [hqueue] at hj
      cases hj
    · intro w
      rw [hidle w]
      trivial
  · intro s a s' _ hstep h
    exact step_jobs (sys_step_cases hstep) h

/-- A worker with the job of a good image has no fault. -/
theorem reach_running {ok : St C W → Act C W → Prop}
    (hgood : ∀ r ∈ requests, minified m r.src ≠ none) (hs : (sys m requests).Reach ok s) :
    s.fault = none := by
  induction hs with
  | init h0 =>
    rcases h0 with ⟨_, _, _, _, _, _, hfault⟩
    exact hfault
  | step a hs _ hstep ih =>
    cases sys_step_cases hstep with
    | fault w j f hw hmagick =>
      have hcame := (reach_jobs hs).workers w
      rw [hw] at hcame
      have hnone := magickminify_eq_error_iff.mp ⟨f, hmagick⟩
      exact absurd hnone (hgood _ (List.mem_of_getElem? hcame))
    | lost | enqueue | disconnect | take | start | finish | sent | unsent | systemerr
    | freeresult => exact ih

/-! ### Calm runs -/

/-- In a calm run transports stay, no reply fails, and a request that was received has its
minified image, or is in the queue or with a worker. -/
structure CalmInv (m : Magick Image) (requests : List (Request C)) (s : St C W) : Prop where
  alive : ∀ c, s.destroyed c = false
  replies : ∀ w, (s.worker w).Replies
  images : ∀ i x, s.outcome i = some x →
    ∃ r dst, requests[i]? = some r ∧ x = .image dst ∧ minified m r.src = some dst
  pending : ∀ i < s.received,
    s.outcome i ≠ none ∨ InHand Job.num Worker.num s.workqueue s.worker i

omit [DecidableEq C] in
/-- A worker goes on with the request it has. -/
theorem CalmInv.move (h : CalmInv m requests s) {w : W} {v : Worker C}
    (hdestroyed : s'.destroyed = s.destroyed) (hreceived : s'.received = s.received)
    (hqueue : s'.workqueue = s.workqueue) (houtcome : s'.outcome = s.outcome)
    (hworker : s'.worker = Function.update s.worker w v) (hreplies : v.Replies)
    (hnum : v.num = (s.worker w).num) : CalmInv m requests s' := by
  refine ⟨?_, ?_, ?_, ?_⟩
  · rw [hdestroyed]
    exact h.alive
  · rw [hworker]
    exact forall_update h.replies w hreplies
  · rw [houtcome]
    exact h.images
  · rw [hreceived, houtcome, hqueue, hworker]
    intro i hi
    rcases h.pending i hi with hdone | hhand
    · exact Or.inl hdone
    · exact Or.inr ((inHand_move hnum).mpr hhand)

omit [DecidableEq C] [DecidableEq W] in
/-- A worker replied. -/
theorem CalmInv.images_update (h : CalmInv m requests s) {j : Job C} {dst : Bytes}
    (hcame : j.Came requests) (hdst : minified m j.src = some dst) :
    ∀ i x, Function.update s.outcome j.num (some (.image dst)) i = some x →
      ∃ r dst, requests[i]? = some r ∧ x = .image dst ∧ minified m r.src = some dst := by
  intro i x hx
  by_cases hi : i = j.num
  · rw [hi, Function.update_self] at hx
    rw [hi]
    exact ⟨_, dst, hcame, (Option.some.inj hx).symm, hdst⟩
  · rw [Function.update_of_ne hi] at hx
    exact h.images i x hx

theorem step_calmInv (hstep : StepCase m requests s a s') (hcalm : Calm s a)
    (hjobs : Jobs m requests s) (h : CalmInv m requests s) : CalmInv m requests s' := by
  cases hstep with
  | lost r hr hclosed =>
    rw [h.alive] at hclosed
    cases hclosed
  | enqueue r hr hopen =>
    refine ⟨h.alive, h.replies, h.images, ?_⟩
    intro i hi
    by_cases hnew : i = s.received
    · exact Or.inr (inHand_append.mpr (Or.inr hnew.symm))
    · have hi : i < s.received + 1 := hi
      rcases h.pending i (by omega) with houtcome | hhand
      · exact Or.inl houtcome
      · exact Or.inr (inHand_append.mpr (Or.inl hhand))
  | disconnect c hopen => exact hcalm.elim
  | take w j rest hw hq =>
    have hnone : (s.worker w).num = none := by
      rw [hw]
      rfl
    refine ⟨h.alive, ?_, h.images, ?_⟩
    · exact forall_update h.replies w trivial
    · intro i hi
      rcases h.pending i hi with houtcome | hhand
      · exact Or.inl houtcome
      · rw [hq] at hhand
        exact Or.inr ((inHand_take hnone rfl).mpr hhand)
  | start w j hw | finish w j dst hw =>
    refine h.move rfl rfl rfl rfl rfl trivial ?_
    rw [hw]
    rfl
  | fault w j f hw hmagick => exact ⟨h.alive, h.replies, h.images, h.pending⟩
  | sent w j dst hw =>
    have hsound := hjobs.workers w
    rw [hw] at hsound
    refine ⟨h.alive, ?_, ?_, ?_⟩
    · exact forall_update h.replies w trivial
    · exact h.images_update hsound.1 hsound.2
    · intro i hi
      by_cases hnum : i = j.num
      · exact Or.inl (update_some_ne_none _ (Or.inl hnum))
      · rcases h.pending i hi with houtcome | hhand
        · exact Or.inl (update_some_ne_none _ (Or.inr houtcome))
        · refine Or.inr (hhand.clear ?_)
          rw [hw]
          intro hsame
          exact hnum (Option.some.inj hsame).symm
  | unsent w j dst hw => exact hcalm.elim
  | systemerr w j hw =>
    have hreplies := h.replies w
    rw [hw] at hreplies
    exact hreplies.elim
  | freeresult w hw =>
    refine h.move rfl rfl rfl rfl rfl trivial ?_
    rw [hw]
    rfl

theorem reach_calmInv (hs : (sys m requests).Reach Calm s) : CalmInv m requests s := by
  induction hs with
  | init h0 =>
    rcases h0 with ⟨hreceived, _, hidle, hopen, _, houtcome, _⟩
    refine ⟨hopen, ?_, ?_, ?_⟩
    · intro w
      rw [hidle w]
      trivial
    · intro i x hx
      rw [houtcome i] at hx
      cases hx
    · intro i hi
      omega
  | step a hs hcalm hstep ih => exact step_calmInv (sys_step_cases hstep) hcalm (reach_jobs hs) ih

/-! ### Progress -/

omit [DecidableEq C] [DecidableEq W] in
theorem exists_request (h : ¬ Answered requests s) :
    ∃ i < requests.length, s.outcome i = none := by
  rcases not_forall.mp h with ⟨i, hi⟩
  rw [Classical.not_imp, not_not] at hi
  exact ⟨i, hi.1, hi.2⟩

theorem calm_step (hfault : s.fault = none) (hcalm : Calm s a)
    (h : (step m requests s a).isSome = true) :
    ∃ a s', Calm s a ∧ (sys m requests).step s a = some s' := by
  rcases Option.isSome_iff_exists.mp h with ⟨s', hs'⟩
  exact ⟨a, s', hcalm, sys_step_of hfault hs'⟩

/-- A worker with a request can go on. Otherwise the boss has a request to receive, or any worker
a job to take. -/
theorem CalmInv.progress (h : CalmInv m requests s) (hfault : s.fault = none)
    (hworkers : requests = [] ∨ Nonempty W) (hmore : ¬ Answered requests s) :
    ∃ a s', Calm s a ∧ (sys m requests).step s a = some s' := by
  rcases exists_request hmore with ⟨i, hlen, hnone⟩
  by_cases hidle : ∀ w, s.worker w = .idle
  · by_cases hall : s.received < requests.length
    · apply calm_step (a := .receive) hfault trivial
      simp only [step, List.getElem?_eq_getElem hall, h.alive, Bool.false_eq_true, if_false,
        Option.isSome_some]
    · -- a request without an outcome can only be in the queue
      rcases h.pending i (by omega) with hdone | ⟨j, hj, _⟩ | ⟨w, hw⟩
      · exact absurd hnone hdone
      · have hworker : Nonempty W := by
          refine hworkers.resolve_left ?_
          rintro rfl
          cases hlen
        rcases hworker with ⟨w⟩
        rcases List.exists_cons_of_ne_nil (List.ne_nil_of_mem hj) with ⟨j', rest, hq⟩
        apply calm_step (a := .take w) hfault trivial
        simp only [step, hidle w, hq, Option.isSome_some]
      · rw [hidle w] at hw
        cases hw
  · rcases not_forall.mp hidle with ⟨w, hbusy⟩
    cases hw : s.worker w with
    | idle => exact absurd hw hbusy
    | calling j =>
      apply calm_step (a := .start w) hfault trivial
      simp only [step, hw, Option.isSome_some]
    | minifying j =>
      apply calm_step (a := .finish w) hfault trivial
      simp only [step, hw]
      split
      · rfl
      · rfl
    | replying j dst =>
      apply calm_step (a := .sendreply w true) hfault trivial
      simp only [step, hw, if_true, Option.isSome_some]
    | failing j =>
      apply calm_step (a := .systemerr w) hfault trivial
      simp only [step, hw, Option.isSome_some]
    | freeing =>
      apply calm_step (a := .freeresult w) hfault trivial
      simp only [step, hw, Option.isSome_some]

end Multi

/-- Steps a worker has before it. -/
def Worker.stage : Worker C → Nat
  | .idle => 0
  | .calling _ => 4
  | .minifying _ => 3
  | .replying _ _ | .failing _ => 2
  | .freeing => 1

/-- How many steps there are at most. -/
def rank [Fintype W] (requests : List (Request C)) (s : St C W) : Nat :=
  6 * (requests.length - s.received) + 5 * s.workqueue.length + ∑ w, (s.worker w).stage

section Rank

variable [DecidableEq C] [DecidableEq W] [Fintype W] {m : Magick Image}
  {requests : List (Request C)} {s s' : St C W} {a : Act C W}

omit [DecidableEq C] [DecidableEq W] in
/-- The boss received a request. -/
theorem rank_receive (hmore : s.received < requests.length)
    (hreceived : s'.received = s.received + 1) (hworker : s'.worker = s.worker)
    (hqueue : s'.workqueue.length = s.workqueue.length + 1) :
    rank requests s' < rank requests s := by
  unfold rank
  rw [hreceived, hworker, hqueue]
  omega

omit [DecidableEq C] in
/-- A worker went on, and may have taken a job. -/
theorem rank_worker {w : W} {v : Worker C} (hreceived : s'.received = s.received)
    (hworker : s'.worker = Function.update s.worker w v)
    (hlt : 5 * s'.workqueue.length + v.stage < 5 * s.workqueue.length + (s.worker w).stage) :
    rank requests s' < rank requests s := by
  have hstage := sum_update Worker.stage s.worker w v
  unfold rank
  rw [hreceived, hworker]
  omega

/-- Every step of a calm run brings the server nearer to the end. -/
theorem rank_step (hstep : StepCase m requests s a s') (hcalm : Calm s a) (h : CalmInv m requests s)
    (hfault : s'.fault = none) : rank requests s' < rank requests s := by
  cases hstep with
  | lost r hr hclosed =>
    rw [h.alive] at hclosed
    cases hclosed
  | enqueue r hr hopen =>
    have hmore := (List.getElem?_eq_some_iff.mp hr).1
    refine rank_receive hmore rfl rfl ?_
    rw [List.length_append, List.length_singleton]
  | disconnect c hopen => exact hcalm.elim
  | take w j rest hw hq =>
    refine rank_worker rfl rfl ?_
    rw [hw, hq, List.length_cons]
    show 5 * rest.length + 4 < 5 * (rest.length + 1) + 0
    omega
  | fault w j f hw hmagick => cases hfault
  | start w j hw | finish w j dst hw | sent w j dst hw | systemerr w j hw | freeresult w hw =>
    refine rank_worker rfl rfl ?_
    rw [hw]
    exact Nat.lt_succ_self _
  | unsent w j dst hw => exact hcalm.elim

theorem answered_inevitable (hgood : ∀ r ∈ requests, minified m r.src ≠ none)
    (hworkers : requests = [] ∨ Nonempty W) (hs : (sys m requests).Reach Calm s) :
    (sys m requests).Inevitable Calm (Answered requests) s := by
  have hall : ∀ s : St C W, (sys m requests).Reach Calm s →
      (sys m requests).Inevitable Calm (Answered requests) s := by
    refine Sys.Inevitable.of_rank (rank requests) ?_ ?_
    · intro s hs hmore
      exact (reach_calmInv hs).progress (reach_running hgood hs) hworkers hmore
    · intro s a s' hs _ hcalm hstep
      have hs' := Sys.Reach.step a hs hcalm hstep
      exact ⟨hs', rank_step (sys_step_cases hstep) hcalm (reach_calmInv hs) (reach_running hgood hs')⟩
  exact hall s hs

end Rank

/-! ## The result -/

section Result

variable [DecidableEq A] [DecidableEq C] [DecidableEq W] {m : Magick Image} {requests : List (Request C)}

/-- Without workers there are no outcomes. -/
theorem worker_of_outcome {ok : St C W → Act C W → Prop} :
    ∀ s, (sys m requests).Reach ok s → ∀ i, s.outcome i ≠ none → Nonempty W := by
  apply Sys.Reach.inv
  · rintro s ⟨_, _, _, _, _, houtcome, _⟩ i hi
    exact absurd (houtcome i) hi
  · intro s a s' _ hstep h
    cases sys_step_cases hstep with
    | sent w | systemerr w => exact fun _ _ => ⟨w⟩
    | lost | enqueue | disconnect | take | start | fault | finish | unsent | freeresult => exact h

theorem isolates_of_good [Infinite A] [Fintype W] (hlen : requests.length < 2 ^ 31)
    (hgood : ∀ r ∈ requests, minified m r.src ≠ none) (hworkers : requests = [] ∨ Nonempty W) :
    Isolates A W m requests := by
  refine ⟨?_, ?_, ?_⟩
  · intro s hs
    obtain ⟨hlist, hserving⟩ := OnSteque.Queued.reach_list hs
    have hrunning : ((queued m requests).list s).fault = none := reach_running hgood hlist
    exact ⟨hrunning, hserving.queue.1⟩
  · intro s hs i x hx
    obtain ⟨hlist, _⟩ := OnSteque.Queued.reach_list hs
    rcases (reach_calmInv hlist).images i x hx with ⟨r, dst, hr, rfl, hdst⟩
    exact ⟨r, hr, hdst⟩
  · intro s hs
    obtain ⟨hlist, _⟩ := OnSteque.Queued.reach_list hs
    refine OnSteque.Queued.list_inevitable ?_ hs (answered_inevitable hgood hworkers hlist)
    intro t ht
    exact Nat.lt_of_le_of_lt (reach_received ht) hlen

/-- Where all requests are answered, all images are good, as a calm run replies with images only. -/
theorem Isolates.good (h : Isolates A W m requests) :
    (∀ r ∈ requests, minified m r.src ≠ none) ∧ (requests = [] ∨ Nonempty W) := by
  have hstart : (onQueue m requests).Reach (UndisturbedCalm m requests) (QSt.start : QSt A C W) :=
    .init qstart_init
  rcases (h.answered _ hstart).exists_reach hstart with ⟨s, hs, hall⟩
  obtain ⟨hlist, _⟩ := OnSteque.Queued.reach_list hs
  constructor
  · intro r hr
    rcases List.mem_iff_getElem?.mp hr with ⟨i, hi⟩
    have hlt := (List.getElem?_eq_some_iff.mp hi).1
    rcases Option.ne_none_iff_exists'.mp (hall i hlt) with ⟨x, hx⟩
    rcases (reach_calmInv hlist).images i x hx with ⟨r', dst, hr', _, hdst⟩
    rw [hi] at hr'
    cases hr'
    rw [hdst]
    exact Option.some_ne_none dst
  · cases requests with
    | nil => exact Or.inl rfl
    | cons r rest => exact Or.inr (worker_of_outcome _ hlist 0 (hall 0 (Nat.succ_pos _)))

omit [DecidableEq C] in
/-- The single-threaded server gets through the images of the requests, whatever becomes of its
replies, exactly if they are good. -/
theorem serves_requests_iff :
    (∀ calls, calls.map Call.src = requests.map Request.src → ServesAll m calls) ↔
      ∀ r ∈ requests, minified m r.src ≠ none := by
  constructor
  · intro hall r hr
    have hserved := hall (requests.map fun r => ⟨r.src, true⟩) (by rw [List.map_map]; rfl)
    exact (servesAll_iff _).mp hserved ⟨r.src, true⟩ (List.mem_map_of_mem hr)
  · intro hgood calls hsrc
    rw [servesAll_iff]
    intro c hc
    have hmem := List.mem_map_of_mem (f := Call.src) hc
    rw [hsrc] at hmem
    rcases List.mem_map.mp hmem with ⟨r, hr, hsame⟩
    rw [← hsame]
    exact hgood r hr

end Result

/-- An ImageMagick that cannot read an empty image. -/
def emptyUnreadable : Magick Bytes := ⟨fun src => if src = [] then none else some src, some, id⟩

/-- Two good images. -/
def twoImages : List (Request Unit) := [⟨(), ascii "a"⟩, ⟨(), ascii "b"⟩]

/-- A bad image between two good ones. -/
def threeImages : List (Request Unit) := [⟨(), ascii "a"⟩, ⟨(), []⟩, ⟨(), ascii "b"⟩]

end IntroOS.Minify.Server
