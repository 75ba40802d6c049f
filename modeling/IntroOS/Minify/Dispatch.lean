import IntroOS.Base.CStr
import IntroOS.Base.Sys
import IntroOS.Base.Threads

/-! # The two dispatchers of the minify service

`minifyjpeg_prog_1` is generated by `rpcgen`: it looks at the procedure number of a request,
decodes the arguments, calls the procedure and replies. In `rpc_mt` it was split by hand: the
boss thread decodes and queues, and a worker calls the procedure and replies. The switch on
`rq_proc` is not in either half.

1. **Arguments**: `xdr_image_in` on the bytes of a request.
2. **Single-threaded** (`answer`): the reply to a request, or the exit of the server.
3. **Multithreaded** (`sys`): the boss and the workers in any interleaving. Every request has a
   connection of its own, so a reply is known by the place of its request.
4. **Progress** (`replied_inevitable`): every schedule comes to replies for all requests.

`minify` is what ImageMagick makes of the bytes of an image, and `none` where it cannot read
them. The work queue is a list here; `Service.lean` puts the server on the `steque_t`.
-/

namespace IntroOS.Minify.Dispatch

/-! ## Requests and replies -/

/-- `rq_proc` and the bytes of the arguments. -/
structure Request where
  proc : Nat
  args : Bytes
deriving DecidableEq, Repr

inductive Reply where
  /-- `svc_sendreply` with `xdr_void` -/
  | void
  /-- `svcerr_noproc` -/
  | noProc
  /-- `svcerr_decode` -/
  | decodeError
  /-- `svc_sendreply` with `xdr_image_out` -/
  | image (dst : Bytes)
deriving DecidableEq, Repr

/-- `NULLPROC`. -/
def nullProc : Nat := 0

/-- `MINIFYJPEG_PROC`. -/
def minifyjpegProc : Nat := 1

/-- `image_in`. -/
structure ImageIn where
  src : Bytes
  srcLen : Int
  dstLen : Int
deriving DecidableEq, Repr

/-- A number of four bytes, big-endian, and what follows it. -/
def xdrUInt : Bytes → Option (Nat × Bytes)
  | a :: b :: c :: d :: rest =>
    some (((a.toNat * 256 + b.toNat) * 256 + c.toNat) * 256 + d.toNat, rest)
  | _ => none

/-- `xdr_int`. -/
def xdrInt (s : Bytes) : Option (Int × Bytes) := (xdrUInt s).map fun p => (toInt32 p.1, p.2)

/-- `xdr_bytes`: a length, so many bytes, and the bytes that fill them up to a multiple of four. -/
def xdrBytes (s : Bytes) : Option (Bytes × Bytes) :=
  match xdrUInt s with
  | none => none
  | some (len, rest) =>
    let padded := len + (4 - len % 4) % 4
    if padded ≤ rest.length then some (rest.take len, rest.drop padded) else none

/-- `xdr_image_in`. -/
def xdrImageIn (s : Bytes) : Option ImageIn :=
  match xdrBytes s with
  | none => none
  | some (src, s) =>
    match xdrInt s with
    | none => none
    | some (srcLen, s) =>
      match xdrInt s with
      | none => none
      | some (dstLen, _) => some ⟨src, srcLen, dstLen⟩

section Answer

variable (minify : Bytes → Option Bytes)

/-- `minifyjpeg_proc_1_svc`; `none` is the `exit(1)` in `magickminify`. -/
def minifyjpegProc1Svc (arg : ImageIn) : Option Bytes := minify arg.src

/-- `minifyjpeg_prog_1` of the single-threaded server; `none` if it exits. -/
def answer (r : Request) : Option Reply :=
  if r.proc = nullProc then some .void
  else if r.proc = minifyjpegProc then
    match xdrImageIn r.args with
    | none => some .decodeError
    | some arg => (minifyjpegProc1Svc minify arg).map .image
  else some .noProc

/-- What the boss and a worker of the multithreaded server make of a request together. -/
def answerMt (r : Request) : Option Reply :=
  match xdrImageIn r.args with
  | none => some .decodeError
  | some arg => (minifyjpegProc1Svc minify arg).map .image

/-- A request that the single-threaded server minifies or refuses to decode. -/
def Request.Minifies (r : Request) : Prop :=
  r.proc = minifyjpegProc ∧ ∀ arg, xdrImageIn r.args = some arg → minifyjpegProc1Svc minify arg ≠ none

end Answer

/-! ## The multithreaded server -/

/-- `thread_data`: the connection of a request and its arguments. -/
structure Job where
  conn : Nat
  arg : ImageIn
deriving DecidableEq, Repr

/-- Where a worker stands. -/
inductive Worker where
  /-- at the test of `workqueue` -/
  | idle
  /-- at `_minifyjpeg_proc_1` -/
  | working (j : Job)
  /-- at `svc_sendreply` -/
  | replying (conn : Nat) (dst : Bytes)
deriving DecidableEq, Repr

variable {W : Type*}

structure St (W : Type*) where
  /-- how many requests the boss received -/
  received : Nat
  workqueue : List Job
  worker : W → Worker
  /-- the reply on each connection -/
  reply : Nat → Option Reply
  /-- `exit(1)` was called -/
  exited : Bool

inductive Act (W : Type*) where
  /-- the boss: `svc_run` and `minifyjpeg_prog_1` -/
  | receive
  /-- a worker's `steque_isempty` and `steque_pop` -/
  | take (w : W)
  | compute (w : W)
  | sendreply (w : W)
deriving DecidableEq, Repr

section Step

variable [DecidableEq W] (minify : Bytes → Option Bytes) (requests : List Request)

/-- A step of the running server. -/
def step (s : St W) : Act W → Option (St W)
  | .receive =>
    match requests[s.received]? with
    | none => none
    | some r =>
      -- `rqstp->rq_proc` is not looked at
      match xdrImageIn r.args with
      | none => some { s with
          received := s.received + 1
          reply := Function.update s.reply s.received (some .decodeError) }
      | some arg => some { s with
          received := s.received + 1
          workqueue := s.workqueue ++ [⟨s.received, arg⟩] }
  | .take w =>
    match s.worker w, s.workqueue with
    | .idle, j :: rest =>
      some { s with worker := Function.update s.worker w (.working j), workqueue := rest }
    | _, _ => none
  | .compute w =>
    match s.worker w with
    | .working j =>
      match minifyjpegProc1Svc minify j.arg with
      -- `exit(1)` in `magickminify`
      | none => some { s with exited := true }
      | some dst => some { s with worker := Function.update s.worker w (.replying j.conn dst) }
    | _ => none
  | .sendreply w =>
    match s.worker w with
    | .replying conn dst => some { s with
        worker := Function.update s.worker w .idle
        reply := Function.update s.reply conn (some (.image dst)) }
    | _ => none

/-- The server on a sequence of requests, each on its own connection. -/
def sys : Sys (St W) (Act W) where
  Init s :=
    s.received = 0 ∧ s.workqueue = [] ∧ (∀ w, s.worker w = .idle) ∧ (∀ i, s.reply i = none) ∧
      s.exited = false
  step s a := if s.exited then none else step minify requests s a

end Step

def St.start : St W where
  received := 0
  workqueue := []
  worker := fun _ => .idle
  reply := fun _ => none
  exited := false

/-- Every request has a reply. -/
def Replied (requests : List Request) (s : St W) : Prop := ∀ i < requests.length, s.reply i ≠ none

/-! ## The two answers -/

section Answers

variable {minify : Bytes → Option Bytes} {r : Request}

theorem answer_minifyjpeg (h : r.proc = minifyjpegProc) : answer minify r = answerMt minify r := by
  have hne : r.proc ≠ nullProc := by
    rw [h]
    decide
  unfold answer answerMt
  rw [if_neg hne, if_pos h]

/-- The boss and the worker do not know any other answer than an image or a decode error. -/
theorem answerMt_cases {x : Reply} (h : answerMt minify r = some x) :
    x = .decodeError ∨ ∃ dst, x = .image dst := by
  unfold answerMt at h
  split at h
  · cases h
    exact Or.inl rfl
  · rcases Option.map_eq_some_iff.mp h with ⟨dst, _, rfl⟩
    exact Or.inr ⟨dst, rfl⟩

/-- Without the switch the answers agree only for `MINIFYJPEG_PROC`. -/
theorem answerMt_eq_iff : answerMt minify r = answer minify r ↔ r.proc = minifyjpegProc := by
  constructor
  · intro heq
    by_contra hproc
    have hother : answer minify r = some .void ∨ answer minify r = some .noProc := by
      unfold answer
      split
      · exact Or.inl rfl
      · exact Or.inr rfl
    rcases hother with hvoid | hnoProc
    · rw [hvoid] at heq
      rcases answerMt_cases heq with hx | ⟨dst, hx⟩
      · cases hx
      · cases hx
    · rw [hnoProc] at heq
      rcases answerMt_cases heq with hx | ⟨dst, hx⟩
      · cases hx
      · cases hx
  · intro hproc
    exact (answer_minifyjpeg hproc).symm

theorem answerMt_ne_none_iff :
    answerMt minify r ≠ none ↔
      ∀ arg, xdrImageIn r.args = some arg → minifyjpegProc1Svc minify arg ≠ none := by
  unfold answerMt
  cases hargs : xdrImageIn r.args with
  | none =>
    constructor
    · intro _ arg harg
      cases harg
    · intro _ h
      cases h
  | some arg =>
    simp only [ne_eq, Option.map_eq_none_iff, Option.some.injEq, forall_eq']

end Answers

/-! ## What a step does -/

section Cases

variable [DecidableEq W] {minify : Bytes → Option Bytes} {requests : List Request}

/-- The steps, one case for each way through `step`. -/
inductive StepCase (minify : Bytes → Option Bytes) (requests : List Request) (s : St W) :
    Act W → St W → Prop where
  | decodeError (r : Request) (hr : requests[s.received]? = some r)
      (hargs : xdrImageIn r.args = none) :
      StepCase minify requests s .receive { s with
        received := s.received + 1
        reply := Function.update s.reply s.received (some .decodeError) }
  | enqueue (r : Request) (arg : ImageIn) (hr : requests[s.received]? = some r)
      (hargs : xdrImageIn r.args = some arg) :
      StepCase minify requests s .receive { s with
        received := s.received + 1
        workqueue := s.workqueue ++ [⟨s.received, arg⟩] }
  | take (w : W) (j : Job) (rest : List Job) (hw : s.worker w = .idle)
      (hq : s.workqueue = j :: rest) :
      StepCase minify requests s (.take w)
        { s with worker := Function.update s.worker w (.working j), workqueue := rest }
  | exit (w : W) (j : Job) (hw : s.worker w = .working j)
      (hminify : minifyjpegProc1Svc minify j.arg = none) :
      StepCase minify requests s (.compute w) { s with exited := true }
  | compute (w : W) (j : Job) (dst : Bytes) (hw : s.worker w = .working j)
      (hminify : minifyjpegProc1Svc minify j.arg = some dst) :
      StepCase minify requests s (.compute w)
        { s with worker := Function.update s.worker w (.replying j.conn dst) }
  | sendreply (w : W) (conn : Nat) (dst : Bytes) (hw : s.worker w = .replying conn dst) :
      StepCase minify requests s (.sendreply w) { s with
        worker := Function.update s.worker w .idle
        reply := Function.update s.reply conn (some (.image dst)) }

theorem step_cases {s s' : St W} {a : Act W} (h : step minify requests s a = some s') :
    StepCase minify requests s a s' := by
  cases a with
  | receive =>
    simp only [step] at h
    split at h
    · cases h
    · rename_i r hr
      split at h
      · rename_i hargs
        cases h
        exact .decodeError r hr hargs
      · rename_i arg hargs
        cases h
        exact .enqueue r arg hr hargs
  | take w =>
    simp only [step] at h
    split at h
    · rename_i j rest hw hq
      cases h
      exact .take w j rest hw hq
    · cases h
  | compute w =>
    simp only [step] at h
    split at h
    · rename_i j hw
      split at h
      · rename_i hminify
        cases h
        exact .exit w j hw hminify
      · rename_i dst hminify
        cases h
        exact .compute w j dst hw hminify
    · cases h
  | sendreply w =>
    simp only [step] at h
    split at h
    · rename_i conn dst hw
      cases h
      exact .sendreply w conn dst hw
    · cases h

theorem sys_step_cases {s s' : St W} {a : Act W} (h : (sys minify requests).step s a = some s') :
    StepCase minify requests s a s' := by
  have hstep : (if s.exited then none else step minify requests s a) = some s' := h
  split at hstep
  · cases hstep
  · exact step_cases hstep

end Cases

/-! ## The invariant -/

/-- The job is that of its request. -/
def Job.Came (requests : List Request) (j : Job) : Prop :=
  ∃ r, requests[j.conn]? = some r ∧ xdrImageIn r.args = some j.arg

/-- A worker's result is the answer to the request it has. -/
def Worker.Sound (minify : Bytes → Option Bytes) (requests : List Request) : Worker → Prop
  | .idle => True
  | .working j => j.Came requests
  | .replying conn dst => ∃ r, requests[conn]? = some r ∧ answerMt minify r = some (.image dst)

/-- The connection a worker will reply on. -/
def Worker.conn : Worker → Option Nat
  | .idle => none
  | .working j => some j.conn
  | .replying conn _ => some conn

/-- A request that was received and has no reply is in the queue or with a worker. -/
structure Inv (minify : Bytes → Option Bytes) (requests : List Request) (s : St W) : Prop where
  replies : ∀ i x, s.reply i = some x → ∃ r, requests[i]? = some r ∧ answerMt minify r = some x
  queued : ∀ j ∈ s.workqueue, j.Came requests
  workers : ∀ w, (s.worker w).Sound minify requests
  pending : ∀ i < s.received, s.reply i ≠ none ∨ (∃ j ∈ s.workqueue, j.conn = i) ∨
    ∃ w, (s.worker w).conn = some i

section Invariant

variable [DecidableEq W] {minify : Bytes → Option Bytes} {requests : List Request} {s s' : St W}
  {a : Act W}

omit [DecidableEq W] in
theorem init_inv (hreceived : s.received = 0) (hqueue : s.workqueue = [])
    (hidle : ∀ w, s.worker w = .idle) (hreply : ∀ i, s.reply i = none) : Inv minify requests s := by
  refine ⟨?_, ?_, ?_, ?_⟩
  · intro i x hx
    rw [hreply i] at hx
    cases hx
  · intro j hj
    rw [hqueue] at hj
    cases hj
  · intro w
    rw [hidle w]
    trivial
  · intro i hi
    omega

omit [DecidableEq W] in
/-- A reply to the request it belongs to. -/
theorem Inv.replies_update (h : Inv minify requests s) {i : Nat} {r : Request} {x : Reply}
    (hr : requests[i]? = some r) (hx : answerMt minify r = some x) :
    ∀ i' x', Function.update s.reply i (some x) i' = some x' →
      ∃ r, requests[i']? = some r ∧ answerMt minify r = some x' := by
  intro i' x' hx'
  by_cases hi : i' = i
  · rw [hi, Function.update_self] at hx'
    cases hx'
    rw [hi]
    exact ⟨r, hr, hx⟩
  · rw [Function.update_of_ne hi] at hx'
    exact h.replies i' x' hx'

theorem step_inv (hstep : StepCase minify requests s a s') (h : Inv minify requests s) :
    Inv minify requests s' := by
  cases hstep with
  | decodeError r hr hargs =>
    have hanswer : answerMt minify r = some .decodeError := by
      unfold answerMt
      rw [hargs]
    refine ⟨h.replies_update hr hanswer, h.queued, h.workers, ?_⟩
    intro i hi
    by_cases hnew : i = s.received
    · exact Or.inl (update_some_ne_none _ (Or.inl hnew))
    · have hi : i < s.received + 1 := hi
      rcases h.pending i (by omega) with hreply | hrest
      · exact Or.inl (update_some_ne_none _ (Or.inr hreply))
      · exact Or.inr hrest
  | enqueue r arg hr hargs =>
    refine ⟨h.replies, ?_, h.workers, ?_⟩
    · intro j hj
      rcases List.mem_append.mp hj with hold | hnew
      · exact h.queued j hold
      · rw [List.mem_singleton.mp hnew]
        exact ⟨r, hr, hargs⟩
    · intro i hi
      by_cases hnew : i = s.received
      · exact Or.inr (inHand_append.mpr (Or.inr hnew.symm))
      · have hi : i < s.received + 1 := hi
        rcases h.pending i (by omega) with hreply | hhand
        · exact Or.inl hreply
        · exact Or.inr (inHand_append.mpr (Or.inl hhand))
  | take w j rest hw hq =>
    have hnone : (s.worker w).conn = none := by
      rw [hw]
      rfl
    have hqueued := h.queued
    rw [hq, List.forall_mem_cons] at hqueued
    refine ⟨h.replies, hqueued.2, forall_update h.workers w hqueued.1, ?_⟩
    intro i hi
    rcases h.pending i hi with hreply | hhand
    · exact Or.inl hreply
    · rw [hq] at hhand
      exact Or.inr ((inHand_take hnone rfl).mpr hhand)
  | exit w j hw hminify => exact ⟨h.replies, h.queued, h.workers, h.pending⟩
  | compute w j dst hw hminify =>
    have hsound : Worker.Sound minify requests (.replying j.conn dst) := by
      have hcame := h.workers w
      rw [hw] at hcame
      rcases hcame with ⟨r, hr, hargs⟩
      refine ⟨r, hr, ?_⟩
      unfold answerMt
      rw [hargs]
      show (minifyjpegProc1Svc minify j.arg).map Reply.image = _
      rw [hminify, Option.map_some]
    have hsame : Worker.conn (.replying j.conn dst) = (s.worker w).conn := by
      rw [hw]
      rfl
    refine ⟨h.replies, h.queued, forall_update h.workers w hsound, ?_⟩
    intro i hi
    rcases h.pending i hi with hreply | hhand
    · exact Or.inl hreply
    · exact Or.inr ((inHand_move hsame).mpr hhand)
  | sendreply w conn dst hw =>
    have hsound := h.workers w
    rw [hw] at hsound
    rcases hsound with ⟨r, hr, hanswer⟩
    refine ⟨h.replies_update hr hanswer, h.queued, forall_update h.workers w trivial, ?_⟩
    intro i hi
    by_cases hconn : i = conn
    · exact Or.inl (update_some_ne_none _ (Or.inl hconn))
    · rcases h.pending i hi with hreply | hhand
      · exact Or.inl (update_some_ne_none _ (Or.inr hreply))
      · have hother : (s.worker w).conn ≠ some i := by
          rw [hw]
          intro hsame
          exact hconn (Option.some.inj hsame).symm
        exact Or.inr (InHand.clear hhand hother)

theorem reach_inv {ok : St W → Act W → Prop} (hs : (sys minify requests).Reach ok s) :
    Inv minify requests s := by
  apply Sys.Reach.inv _ _ s hs
  · rintro s ⟨hreceived, hqueue, hidle, hreply, _⟩
    exact init_inv hreceived hqueue hidle hreply
  · intro s a s' _ hstep h
    exact step_inv (sys_step_cases hstep) h

end Invariant

/-! ## Progress -/

section Progress

variable [DecidableEq W] {minify : Bytes → Option Bytes} {requests : List Request} {s s' : St W}
  {a : Act W}

theorem canStep (hexited : s.exited = false) (h : (step minify requests s a).isSome = true) :
    ∃ a s', True ∧ (sys minify requests).step s a = some s' := by
  rcases Option.isSome_iff_exists.mp h with ⟨s', hs'⟩
  refine ⟨a, s', trivial, ?_⟩
  show (if s.exited then none else step minify requests s a) = some s'
  rw [hexited]
  exact hs'

/-- There is a worker, or nothing to do for one. -/
def Staffed (W : Type*) (requests : List Request) : Prop :=
  Nonempty W ∨ ∀ r ∈ requests, xdrImageIn r.args = none

omit [DecidableEq W] in
/-- A job in the queue is there for somebody. -/
theorem Inv.worker_of_job (h : Inv minify requests s) (hstaffed : Staffed W requests) {j : Job}
    (hj : j ∈ s.workqueue) : Nonempty W := by
  rcases hstaffed with hworker | hnone
  · exact hworker
  · rcases h.queued j hj with ⟨r, hr, hargs⟩
    rw [hnone r (List.mem_of_getElem? hr)] at hargs
    cases hargs

/-- A worker with a job can go on. Otherwise the boss has a request to receive, or any worker a
job to take. -/
theorem Inv.progress (h : Inv minify requests s) (hstaffed : Staffed W requests)
    (hexited : s.exited = false) (hmore : ¬ Replied requests s) :
    ∃ a s', True ∧ (sys minify requests).step s a = some s' := by
  by_cases hidle : ∀ w, s.worker w = .idle
  · by_cases hall : s.received < requests.length
    · apply canStep (a := .receive) hexited
      simp only [step, List.getElem?_eq_getElem hall]
      split
      · rfl
      · rfl
    · -- a request without a reply can only be in the queue
      rcases not_forall.mp hmore with ⟨i, hi⟩
      rw [Classical.not_imp] at hi
      rcases h.pending i (by omega) with hreply | ⟨j, hj, _⟩ | ⟨w', hw'⟩
      · exact absurd hreply hi.2
      · rcases h.worker_of_job hstaffed hj with ⟨w⟩
        rcases List.exists_cons_of_ne_nil (List.ne_nil_of_mem hj) with ⟨j', rest, hq⟩
        apply canStep (a := .take w) hexited
        simp only [step, hidle w, hq, Option.isSome_some]
      · rw [hidle w'] at hw'
        cases hw'
  · rcases not_forall.mp hidle with ⟨w, hbusy⟩
    cases hw : s.worker w with
    | idle => exact absurd hw hbusy
    | working j =>
      apply canStep (a := .compute w) hexited
      simp only [step, hw]
      split
      · rfl
      · rfl
    | replying conn dst =>
      apply canStep (a := .sendreply w) hexited
      simp only [step, hw, Option.isSome_some]

/-- Steps a worker has before it. -/
def Worker.stage : Worker → Nat
  | .idle => 0
  | .working _ => 2
  | .replying _ _ => 1

/-- How many steps there are at most. -/
def rank [Fintype W] (requests : List Request) (s : St W) : Nat :=
  4 * (requests.length - s.received) + 3 * s.workqueue.length + ∑ w, (s.worker w).stage

omit [DecidableEq W] in
/-- The boss received a request. -/
theorem rank_receive [Fintype W] (hmore : s.received < requests.length)
    (hreceived : s'.received = s.received + 1) (hworker : s'.worker = s.worker)
    (hqueue : s'.workqueue.length ≤ s.workqueue.length + 1) :
    rank requests s' < rank requests s := by
  unfold rank
  rw [hreceived, hworker]
  omega

/-- A worker went on, and may have taken a job. -/
theorem rank_worker [Fintype W] {w : W} {v : Worker} (hreceived : s'.received = s.received)
    (hworker : s'.worker = Function.update s.worker w v)
    (hlt : 3 * s'.workqueue.length + v.stage < 3 * s.workqueue.length + (s.worker w).stage) :
    rank requests s' < rank requests s := by
  have hstage := sum_update Worker.stage s.worker w v
  unfold rank
  rw [hreceived, hworker]
  omega

/-- The server does not exit, and every step brings it nearer to the end. -/
theorem running_step [Fintype W] (h : Inv minify requests s) (hexited : s.exited = false)
    (hreadable : ∀ r ∈ requests, answerMt minify r ≠ none)
    (hstep : StepCase minify requests s a s') :
    s'.exited = false ∧ rank requests s' < rank requests s := by
  cases hstep with
  | decodeError r hr hargs =>
    have hmore := (List.getElem?_eq_some_iff.mp hr).1
    exact ⟨hexited, rank_receive hmore rfl rfl (Nat.le_succ _)⟩
  | enqueue r arg hr hargs =>
    have hmore := (List.getElem?_eq_some_iff.mp hr).1
    refine ⟨hexited, rank_receive hmore rfl rfl ?_⟩
    rw [List.length_append, List.length_singleton]
  | take w j rest hw hq =>
    refine ⟨hexited, rank_worker rfl rfl ?_⟩
    rw [hw, hq, List.length_cons]
    show 3 * rest.length + 2 < 3 * (rest.length + 1) + 0
    omega
  | exit w j hw hminify =>
    -- the image of a request can be read
    have hcame := h.workers w
    rw [hw] at hcame
    rcases hcame with ⟨r, hr, hargs⟩
    have hne := answerMt_ne_none_iff.mp (hreadable r (List.mem_of_getElem? hr)) j.arg hargs
    exact absurd hminify hne
  | compute w _ _ hw | sendreply w _ _ hw =>
    refine ⟨hexited, rank_worker rfl rfl ?_⟩
    rw [hw]
    exact Nat.lt_succ_self _

theorem replied_inevitable [Fintype W] (hstaffed : Staffed W requests)
    (hreadable : ∀ r ∈ requests, answerMt minify r ≠ none) (h : Inv minify requests s)
    (hexited : s.exited = false) :
    (sys minify requests).Inevitable (fun _ _ => True) (Replied requests) s := by
  have hall : ∀ s : St W, (Inv minify requests s ∧ s.exited = false) →
      (sys minify requests).Inevitable (fun _ _ => True) (Replied requests) s := by
    refine Sys.Inevitable.of_rank (rank requests) ?_ ?_
    · rintro s ⟨h, hexited⟩ hmore
      exact h.progress hstaffed hexited hmore
    · rintro s a s' ⟨h, hexited⟩ _ _ hstep
      have hcase := sys_step_cases hstep
      rcases running_step h hexited hreadable hcase with ⟨hexited', hlt⟩
      exact ⟨⟨step_inv hcase h, hexited'⟩, hlt⟩
  exact hall s ⟨h, hexited⟩

theorem reach_running [Fintype W] (hreadable : ∀ r ∈ requests, answerMt minify r ≠ none)
    (hs : (sys minify requests).Reach (fun _ _ => True) s) : s.exited = false := by
  have hinv : Inv minify requests s ∧ s.exited = false := by
    apply Sys.Reach.inv _ _ s hs
    · rintro s ⟨hreceived, hqueue, hidle, hreply, hexited⟩
      exact ⟨init_inv hreceived hqueue hidle hreply, hexited⟩
    · rintro s a s' _ hstep ⟨h, hexited⟩
      have hcase := sys_step_cases hstep
      exact ⟨step_inv hcase h, (running_step h hexited hreadable hcase).1⟩
  exact hinv.2

/-- Without workers there are no images. -/
theorem worker_of_image {ok : St W → Act W → Prop} :
    ∀ s, (sys minify requests).Reach ok s → ∀ i x, s.reply i = some x →
      x = .decodeError ∨ Nonempty W := by
  apply Sys.Reach.inv
  · rintro s ⟨_, _, _, hreply, _⟩ i x hx
    rw [hreply i] at hx
    cases hx
  · intro s a s' _ hstep h
    cases sys_step_cases hstep with
    | decodeError r hr hargs =>
      intro i x hx
      by_cases hi : i = s.received
      · subst hi
        simp only [Function.update_self] at hx
        cases hx
        exact Or.inl rfl
      · simp only [Function.update_of_ne hi] at hx
        exact h i x hx
    | take w | compute w | sendreply w | exit w => exact fun _ _ _ => Or.inr ⟨w⟩
    | enqueue => exact h

/-- Where all requests have replies, there was somebody for them. -/
theorem Inv.staffed {ok : St W → Act W → Prop} (h : Inv minify requests s)
    (hs : (sys minify requests).Reach ok s) (hreplied : Replied requests s) :
    Staffed W requests := by
  by_contra hnot
  rcases not_or.mp hnot with ⟨hnobody, hsome⟩
  apply hsome
  intro r hr
  rcases List.mem_iff_getElem?.mp hr with ⟨i, hi⟩
  have hlt := (List.getElem?_eq_some_iff.mp hi).1
  rcases Option.ne_none_iff_exists'.mp (hreplied i hlt) with ⟨x, hx⟩
  obtain rfl := (worker_of_image s hs i x hx).resolve_right hnobody
  rcases h.replies i _ hx with ⟨r', hr', hanswer⟩
  rw [hi] at hr'
  cases hr'
  -- a decode error says that the arguments could not be decoded
  cases hargs : xdrImageIn r.args with
  | none => rfl
  | some arg =>
    simp only [answerMt, hargs] at hanswer
    rcases Option.map_eq_some_iff.mp hanswer with ⟨dst, _, himage⟩
    cases himage

end Progress

theorem start_init [DecidableEq W] {minify : Bytes → Option Bytes} {requests : List Request} :
    (sys minify requests : Sys (St W) (Act W)).Init St.start :=
  ⟨rfl, rfl, fun _ => rfl, fun _ => rfl, rfl⟩

theorem minifies_iff {minify : Bytes → Option Bytes} {r : Request} :
    r.Minifies minify ↔ r.proc = minifyjpegProc ∧ answerMt minify r ≠ none := by
  unfold Request.Minifies
  rw [answerMt_ne_none_iff]

/-- An image of one byte. -/
def oneByte : Request := ⟨1, [0, 0, 0, 1, 120, 0, 0, 0, 0, 0, 0, 1, 0, 0, 0, 1]⟩

/-- A call of `NULLPROC`, which has no arguments. -/
def nullCall : Request := ⟨0, []⟩

end IntroOS.Minify.Dispatch
