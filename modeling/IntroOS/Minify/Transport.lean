import IntroOS.Base.CStr
import IntroOS.Base.Sys
import Mathlib.Data.Fintype.Defs
import Mathlib.Logic.Function.Basic

/-! # Replies of the multithreaded minify service

Clients that call the service one request at a time (`minify_via_rpc`), the boss thread of
`rpc_mt/minifyjpeg_svc.c` that receives and queues requests, and workers that compute and
reply.

1. **Library**: what Sun RPC documents. A transport remembers the transaction id and the
   caller of the last request it received, and stamps every `svc_sendreply` with them. A
   client takes the first reply with the id of its current call. UDP may repeat, reorder and
   lose messages; TCP keeps them in order.
2. **Service**: the boss queues the transport with the image and returns to `svc_run`; a
   worker replies on the transport it finds in the job.
3. **Condition**: `AnsweredFirst`. The boss receives a request on a transport only when
   nothing else that came over it is still unanswered, as it is in the single-threaded
   service.

`minify` is the computation of `minifyjpeg_proc_1_svc` on the bytes of an image. `calls`, the
`origin` of a job and `accepted` are history.
-/

namespace IntroOS.Minify

variable {C X W : Type*}

/-! ## State -/

/-- A call: which client, its transaction id, the image. It is also the request message. -/
structure Call (C X : Type*) where
  client : C
  xid : X
  image : Bytes
deriving DecidableEq

/-- A reply message. -/
structure Reply (C X : Type*) where
  client : C
  xid : X
  result : Bytes
deriving DecidableEq

/-- The server's transports: the one UDP socket, and one for each TCP connection. -/
inductive Transport (C : Type*) where
  | udp
  | tcp (c : C)
deriving DecidableEq

/-- `thread_data`. `origin` is history: the call the image came with. -/
structure Job (C X : Type*) where
  transp : Transport C
  image : Bytes
  origin : C × X
deriving DecidableEq

/-- Where a worker stands. -/
inductive Worker (C X : Type*) where
  /-- at the test of `workqueue` -/
  | idle
  /-- at `minifyjpeg_proc_1_svc` -/
  | working (j : Job C X)
  /-- at `svc_sendreply` -/
  | replying (j : Job C X) (result : Bytes)
deriving DecidableEq

/-- A reply that a client took, with the image it had sent. -/
structure Accepted (C : Type*) where
  client : C
  image : Bytes
  result : Bytes
deriving DecidableEq

structure St (C X W : Type*) where
  /-- the call a client is in -/
  call : C → Option (X × Bytes)
  requests : List (Call C X)
  replies : List (Reply C X)
  /-- what a transport remembers of its last request -/
  last : Transport C → Option (C × X)
  workqueue : List (Job C X)
  worker : W → Worker C X
  calls : List (Call C X)
  accepted : List (Accepted C)

/-! ## Steps -/

inductive Act (C X W : Type*) where
  | call (c : C) (xid : X) (image : Bytes)
  /-- a UDP client repeats its request -/
  | resend (c : C)
  | loseRequest (q : Call C X)
  | loseReply (r : Reply C X)
  /-- the boss: `svc_run` and `minifyjpeg_prog_1` -/
  | receive (q : Call C X)
  | take (w : W)
  | compute (w : W)
  | reply (w : W)
  | deliver (r : Reply C X)
  /-- `RPC_TIMEDOUT`: the call returns, the connection stays open -/
  | timeout (c : C)

/-- The transport that a client's requests come over. -/
def transportOf (udp : C → Bool) (c : C) : Transport C := if udp c then .udp else .tcp c

section Step

variable [DecidableEq C] [DecidableEq X] [DecidableEq W] (udp : C → Bool) (minify : Bytes → Bytes)

/-- One step. Transaction ids of a client are fresh. -/
def step (s : St C X W) : Act C X W → Option (St C X W)
  | .call c xid image =>
    if s.call c = none ∧ ∀ e ∈ s.calls, ¬ (e.client = c ∧ e.xid = xid) then
      some { s with
        call := Function.update s.call c (some (xid, image))
        requests := s.requests ++ [⟨c, xid, image⟩]
        calls := s.calls ++ [⟨c, xid, image⟩] }
    else none
  | .resend c =>
    match udp c, s.call c with
    | true, some (xid, image) => some { s with requests := s.requests ++ [⟨c, xid, image⟩] }
    | _, _ => none
  | .loseRequest q =>
    if udp q.client = true ∧ q ∈ s.requests then some { s with requests := s.requests.erase q }
    else none
  | .loseReply r =>
    if udp r.client = true ∧ r ∈ s.replies then some { s with replies := s.replies.erase r }
    else none
  | .receive q =>
    if q ∈ s.requests ∧ (udp q.client = true ∨
        s.requests.find? (fun e => e.client = q.client) = some q) then
      some { s with
        requests := s.requests.erase q
        last := Function.update s.last (transportOf udp q.client) (some (q.client, q.xid))
        workqueue := s.workqueue ++ [⟨transportOf udp q.client, q.image, (q.client, q.xid)⟩] }
    else none
  | .take w =>
    match s.worker w, s.workqueue with
    | .idle, j :: rest =>
      some { s with worker := Function.update s.worker w (.working j), workqueue := rest }
    | _, _ => none
  | .compute w =>
    match s.worker w with
    | .working j =>
      some { s with worker := Function.update s.worker w (.replying j (minify j.image)) }
    | _ => none
  | .reply w =>
    match s.worker w with
    | .replying j result =>
      match s.last j.transp with
      | none => none
      | some (c, xid) =>
        some { s with
          worker := Function.update s.worker w .idle
          replies := s.replies ++ [⟨c, xid, result⟩] }
    | _ => none
  | .deliver r =>
    if r ∈ s.replies ∧ (udp r.client = true ∨
        s.replies.find? (fun e => e.client = r.client) = some r) then
      match s.call r.client with
      | none => none
      | some (xid, image) =>
        if xid = r.xid then
          some { s with
            call := Function.update s.call r.client none
            replies := s.replies.erase r
            accepted := s.accepted ++ [⟨r.client, image, r.result⟩] }
        -- the reply of another call is skipped
        else some { s with replies := s.replies.erase r }
    else none
  | .timeout c =>
    match s.call c with
    | none => none
    | some _ => some { s with call := Function.update s.call c none }

/-- The service with its clients, from when it is started. -/
def sys : Sys (St C X W) (Act C X W) where
  Init s :=
    (∀ c, s.call c = none) ∧ s.requests = [] ∧ s.replies = [] ∧ (∀ t, s.last t = none) ∧
    s.workqueue = [] ∧ (∀ w, s.worker w = .idle) ∧ s.calls = [] ∧ s.accepted = []
  step := step udp minify

def St.start : St C X W where
  call := fun _ => none
  requests := []
  replies := []
  last := fun _ => none
  workqueue := []
  worker := fun _ => .idle
  calls := []
  accepted := []

theorem start_init : (sys udp minify).Init (St.start : St C X W) :=
  ⟨fun _ => rfl, rfl, rfl, fun _ => rfl, rfl, fun _ => rfl, rfl, rfl⟩

/-! ## The condition -/

/-- The job of a worker. -/
def Worker.job : Worker C X → Option (Job C X)
  | .idle => none
  | .working j | .replying j _ => some j

/-- A job that was received and not replied to. -/
def St.Unanswered (s : St C X W) (j : Job C X) : Prop :=
  j ∈ s.workqueue ∨ ∃ w, (s.worker w).job = some j

/-- Nothing that came over a transport is unanswered when the next request is received on it,
but for a repetition of the same one. -/
def AnsweredFirst (s : St C X W) : Act C X W → Prop
  | .receive q => ∀ j, s.Unanswered j → j.transp = transportOf udp q.client →
      j.origin = (q.client, q.xid)
  | _ => True

instance [Fintype W] (s : St C X W) : (a : Act C X W) → Decidable (AnsweredFirst udp s a)
  | .receive q =>
    decidable_of_iff
      ((∀ j ∈ s.workqueue, j.transp = transportOf udp q.client → j.origin = (q.client, q.xid)) ∧
        ∀ w, ∀ j ∈ (s.worker w).job, j.transp = transportOf udp q.client →
          j.origin = (q.client, q.xid))
      ⟨fun h j hj => hj.elim (h.1 j) (fun ⟨w, hw⟩ => h.2 w j hw),
        fun h => ⟨fun j hj => h j (Or.inl hj), fun w j hj => h j (Or.inr ⟨w, hj⟩)⟩⟩
  | .call _ _ _ | .resend _ | .loseRequest _ | .loseReply _ | .take _ | .compute _ | .reply _
  | .deliver _ | .timeout _ => .isTrue trivial

/-! ## The invariant -/

/-- A job carries the image of a call, and the transport it came over still remembers that
call. -/
structure JobOk (s : St C X W) (j : Job C X) : Prop where
  known : ⟨j.origin.1, j.origin.2, j.image⟩ ∈ s.calls
  transp : j.transp = transportOf udp j.origin.1
  last : s.last j.transp = some j.origin

structure Inv (s : St C X W) : Prop where
  /-- one image for each client and transaction id -/
  functional : ∀ e ∈ s.calls, ∀ e' ∈ s.calls, e.client = e'.client → e.xid = e'.xid →
    e.image = e'.image
  current : ∀ c xid image, s.call c = some (xid, image) → ⟨c, xid, image⟩ ∈ s.calls
  requests : ∀ q ∈ s.requests, q ∈ s.calls
  jobs : ∀ j, s.Unanswered j → JobOk udp s j
  results : ∀ w j result, s.worker w = .replying j result → result = minify j.image
  replies : ∀ r ∈ s.replies, ∃ image, ⟨r.client, r.xid, image⟩ ∈ s.calls ∧ r.result = minify image
  accepted : ∀ a ∈ s.accepted, a.result = minify a.image

variable {udp minify}

theorem init_inv : ∀ s : St C X W, (sys udp minify).Init s → Inv udp minify s := by
  rintro s ⟨hcall, hreq, hrep, _, hqueue, hworker, hcalls, hacc⟩
  refine ⟨?_, ?_, ?_, ?_, ?_, ?_, ?_⟩
  · intro e he
    rw [hcalls] at he
    cases he
  · intro c xid image h
    rw [hcall c] at h
    cases h
  · intro q hq
    rw [hreq] at hq
    cases hq
  · rintro j (hj | ⟨w, hw⟩)
    · rw [hqueue] at hj
      cases hj
    · rw [hworker w] at hw
      cases hw
  · intro w j result h
    rw [hworker w] at h
    cases h
  · intro r hr
    rw [hrep] at hr
    cases hr
  · intro a ha
    rw [hacc] at ha
    cases ha

omit [DecidableEq C] [DecidableEq X] [DecidableEq W] in
/-- A job stays right as long as no call is forgotten and its transport remembers the same. -/
theorem JobOk.frame {s s' : St C X W} {j : Job C X} (h : JobOk udp s j)
    (hcalls : ∀ e ∈ s.calls, e ∈ s'.calls) (hlast : s'.last j.transp = s.last j.transp) :
    JobOk udp s' j := by
  refine ⟨hcalls _ h.known, h.transp, ?_⟩
  rw [hlast]
  exact h.last

omit [DecidableEq X] [DecidableEq W] in
/-- A client that is no longer in a call. -/
theorem Inv.current_of_hangup {s : St C X W} (hinv : Inv udp minify s) (c : C) :
    ∀ c' xid image, Function.update s.call c none c' = some (xid, image) →
      ⟨c', xid, image⟩ ∈ s.calls := by
  intro c' xid image h
  by_cases heq : c' = c
  · rw [heq, Function.update_self] at h
    cases h
  · rw [Function.update_of_ne heq] at h
    exact hinv.current c' xid image h

omit [DecidableEq C] [DecidableEq X] in
/-- A worker moves on: what it holds was unanswered before, what it is about to send is the
image of its job, and replies are sent to calls. -/
theorem Inv.worker_moves {s : St C X W} (hinv : Inv udp minify s) (w : W) {v : Worker C X}
    {queue : List (Job C X)} {replies : List (Reply C X)}
    (hqueue : ∀ j ∈ queue, s.Unanswered j) (hv : ∀ j, v.job = some j → s.Unanswered j)
    (hresult : ∀ j result, v = .replying j result → result = minify j.image)
    (hreplies : ∀ r ∈ replies, ∃ image, ⟨r.client, r.xid, image⟩ ∈ s.calls ∧
      r.result = minify image) :
    Inv udp minify { s with
      worker := Function.update s.worker w v
      workqueue := queue
      replies := replies } := by
  refine ⟨hinv.functional, hinv.current, hinv.requests, ?_, ?_, hreplies, hinv.accepted⟩
  · intro j hj
    have hold : s.Unanswered j := by
      rcases hj with hj | ⟨w', hw'⟩
      · exact hqueue j hj
      · have hw' : (Function.update s.worker w v w').job = some j := hw'
        by_cases heq : w' = w
        · rw [heq, Function.update_self] at hw'
          exact hv j hw'
        · rw [Function.update_of_ne heq] at hw'
          exact Or.inr ⟨w', hw'⟩
    exact (hinv.jobs j hold).frame (fun _ he => he) rfl
  · intro w' j result hw'
    have hw' : Function.update s.worker w v w' = .replying j result := hw'
    by_cases heq : w' = w
    · rw [heq, Function.update_self] at hw'
      exact hresult j result hw'
    · rw [Function.update_of_ne heq] at hw'
      exact hinv.results w' j result hw'

theorem call_inv {s s' : St C X W} {c : C} {xid : X} {image : Bytes}
    (hstep : step udp minify s (.call c xid image) = some s') (hinv : Inv udp minify s) :
    Inv udp minify s' := by
  simp only [step] at hstep
  split at hstep
  · rename_i hcond
    cases hstep
    obtain ⟨_, hfresh⟩ := hcond
    have hold : ∀ e ∈ s.calls, e ∈ s.calls ++ [⟨c, xid, image⟩] := by
      intro e he
      exact List.mem_append_left _ he
    refine ⟨?_, ?_, ?_, ?_, hinv.results, ?_, hinv.accepted⟩
    · -- the new call has an id of its own
      intro e he e' he' hc hx
      rcases List.mem_append.mp he with h | h <;> rcases List.mem_append.mp he' with h' | h'
      · exact hinv.functional e h e' h' hc hx
      · rw [List.mem_singleton.mp h'] at hc hx
        exact absurd ⟨hc, hx⟩ (hfresh e h)
      · rw [List.mem_singleton.mp h] at hc hx
        exact absurd ⟨hc.symm, hx.symm⟩ (hfresh e' h')
      · rw [List.mem_singleton.mp h, List.mem_singleton.mp h']
    · intro c' xid' image' h
      by_cases heq : c' = c
      · subst heq
        have hnew : Function.update s.call c' (some (xid, image)) c' = some (xid', image') := h
        rw [Function.update_self, Option.some.injEq, Prod.mk.injEq] at hnew
        obtain ⟨rfl, rfl⟩ := hnew
        exact List.mem_append_right _ List.mem_cons_self
      · have hsame : Function.update s.call c (some (xid, image)) c' = some (xid', image') := h
        rw [Function.update_of_ne heq] at hsame
        exact hold _ (hinv.current c' xid' image' hsame)
    · intro q hq
      rcases List.mem_append.mp hq with h | h
      · exact hold q (hinv.requests q h)
      · exact List.mem_append_right _ h
    · intro j hj
      exact (hinv.jobs j hj).frame hold rfl
    · intro r hr
      obtain ⟨image', hmem, hres⟩ := hinv.replies r hr
      exact ⟨image', hold _ hmem, hres⟩
  · cases hstep

omit [DecidableEq C] [DecidableEq X] [DecidableEq W] in
/-- A message repeated or lost. -/
theorem network_inv {s : St C X W} (hinv : Inv udp minify s) {requests : List (Call C X)}
    {replies : List (Reply C X)} (hreq : ∀ q ∈ requests, q ∈ s.calls)
    (hrep : ∀ r ∈ replies, r ∈ s.replies) :
    Inv udp minify { s with requests := requests, replies := replies } :=
  ⟨hinv.functional, hinv.current, hreq, fun j hj => (hinv.jobs j hj).frame (fun _ he => he) rfl,
    hinv.results, fun r hr => hinv.replies r (hrep r hr), hinv.accepted⟩

theorem receive_inv {s s' : St C X W} {q : Call C X} (hok : AnsweredFirst udp s (.receive q))
    (hstep : step udp minify s (.receive q) = some s') (hinv : Inv udp minify s) :
    Inv udp minify s' := by
  simp only [step] at hstep
  split at hstep
  · rename_i hcond
    cases hstep
    have hknown : q ∈ s.calls := hinv.requests q hcond.1
    refine ⟨hinv.functional, hinv.current, ?_, ?_, hinv.results, hinv.replies, hinv.accepted⟩
    · intro e he
      exact hinv.requests e (List.mem_of_mem_erase he)
    · intro j hj
      have hcase : s.Unanswered j ∨
          j = ⟨transportOf udp q.client, q.image, (q.client, q.xid)⟩ := by
        rcases hj with hj | hj
        · rcases List.mem_append.mp hj with h | h
          · exact Or.inl (Or.inl h)
          · exact Or.inr (List.mem_singleton.mp h)
        · exact Or.inl (Or.inr hj)
      rcases hcase with hold | rfl
      · by_cases ht : j.transp = transportOf udp q.client
        · -- the transport forgets the job's call, which is the new one
          refine ⟨(hinv.jobs j hold).known, (hinv.jobs j hold).transp, ?_⟩
          show Function.update s.last (transportOf udp q.client) (some (q.client, q.xid)) j.transp
            = some j.origin
          rw [ht, Function.update_self, hok j hold ht]
        · exact (hinv.jobs j hold).frame (fun _ he => he) (Function.update_of_ne ht _ _)
      · refine ⟨hknown, rfl, ?_⟩
        show Function.update s.last (transportOf udp q.client) (some (q.client, q.xid))
          (transportOf udp q.client) = _
        rw [Function.update_self]
  · cases hstep

theorem take_inv {s s' : St C X W} {w : W} (hstep : step udp minify s (.take w) = some s')
    (hinv : Inv udp minify s) : Inv udp minify s' := by
  simp only [step] at hstep
  split at hstep
  · rename_i j rest hw hq
    cases hstep
    apply hinv.worker_moves w _ _ _ hinv.replies
    · intro j' hj'
      exact Or.inl (by rw [hq]; exact List.mem_cons_of_mem j hj')
    · intro j' hj'
      have heq : j = j' := by simpa [Worker.job] using hj'
      exact Or.inl (by rw [hq, ← heq]; exact List.mem_cons_self)
    · intro j' result h
      cases h
  · cases hstep

theorem compute_inv {s s' : St C X W} {w : W} (hstep : step udp minify s (.compute w) = some s')
    (hinv : Inv udp minify s) : Inv udp minify s' := by
  simp only [step] at hstep
  split at hstep
  · rename_i j hw
    cases hstep
    apply hinv.worker_moves w _ _ _ hinv.replies
    · intro j' hj'
      exact Or.inl hj'
    · intro j' hj'
      exact Or.inr ⟨w, by rw [hw]; exact hj'⟩
    · intro j' result h
      cases h
      rfl
  · cases hstep

/-- The reply is stamped with what the transport remembers, which is the job's call. -/
theorem reply_inv {s s' : St C X W} {w : W} (hstep : step udp minify s (.reply w) = some s')
    (hinv : Inv udp minify s) : Inv udp minify s' := by
  simp only [step] at hstep
  split at hstep
  · rename_i j result hw
    split at hstep
    · cases hstep
    · rename_i c xid hlast
      cases hstep
      have hjob := hinv.jobs j (Or.inr ⟨w, by rw [hw]; rfl⟩)
      have horigin : j.origin = (c, xid) := by
        have hremembered := hjob.last
        rw [hlast, Option.some.injEq] at hremembered
        exact hremembered.symm
      apply hinv.worker_moves w
      · intro j' hj'
        exact Or.inl hj'
      · intro j' hj'
        cases hj'
      · intro j' result' h
        cases h
      · intro r hr
        rcases List.mem_append.mp hr with h | h
        · exact hinv.replies r h
        · rw [List.mem_singleton.mp h]
          refine ⟨j.image, ?_, hinv.results w j result hw⟩
          have hknown := hjob.known
          rw [horigin] at hknown
          exact hknown
  · cases hstep

theorem deliver_inv {s s' : St C X W} {r : Reply C X}
    (hstep : step udp minify s (.deliver r) = some s') (hinv : Inv udp minify s) :
    Inv udp minify s' := by
  simp only [step] at hstep
  split at hstep
  · rename_i hcond
    have hmem : r ∈ s.replies := hcond.1
    have herase : ∀ r' ∈ s.replies.erase r, r' ∈ s.replies := fun r' h => List.mem_of_mem_erase h
    split at hstep
    · cases hstep
    · rename_i xid image hcall
      by_cases hx : xid = r.xid
      · rw [if_pos hx] at hstep
        cases hstep
        refine ⟨hinv.functional, hinv.current_of_hangup r.client, hinv.requests, ?_, hinv.results,
          fun r' h => hinv.replies r' (herase r' h), ?_⟩
        · intro j hj
          exact (hinv.jobs j hj).frame (fun _ he => he) rfl
        · intro a ha
          rcases List.mem_append.mp ha with h | h
          · exact hinv.accepted a h
          · rw [List.mem_singleton.mp h]
            -- client and id determine the image
            obtain ⟨image', hknown, hres⟩ := hinv.replies r hmem
            have hcur := hinv.current r.client xid image hcall
            have himage : image = image' :=
              hinv.functional _ hcur _ hknown rfl hx
            show r.result = minify image
            rw [himage]
            exact hres
      · rw [if_neg hx] at hstep
        cases hstep
        exact network_inv hinv hinv.requests herase
  · cases hstep

theorem step_inv : ∀ (s : St C X W) a s', AnsweredFirst udp s a →
    (sys udp minify).step s a = some s' → Inv udp minify s → Inv udp minify s' := by
  intro s a s' hok hstep hinv
  have hstep : step udp minify s a = some s' := hstep
  cases a with
  | call c xid image => exact call_inv hstep hinv
  | resend c =>
    simp only [step] at hstep
    split at hstep
    · rename_i xid image _ hcall
      cases hstep
      apply network_inv hinv _ (fun r hr => hr)
      intro q hq
      rcases List.mem_append.mp hq with h | h
      · exact hinv.requests q h
      · rw [List.mem_singleton.mp h]
        exact hinv.current c xid image hcall
    · cases hstep
  | loseRequest q =>
    simp only [step] at hstep
    split at hstep
    · cases hstep
      exact network_inv hinv (fun e he => hinv.requests e (List.mem_of_mem_erase he)) (fun r hr => hr)
    · cases hstep
  | loseReply r =>
    simp only [step] at hstep
    split at hstep
    · cases hstep
      exact network_inv hinv hinv.requests (fun r' hr => List.mem_of_mem_erase hr)
    · cases hstep
  | receive q => exact receive_inv hok hstep hinv
  | take w => exact take_inv hstep hinv
  | compute w => exact compute_inv hstep hinv
  | reply w => exact reply_inv hstep hinv
  | deliver r => exact deliver_inv hstep hinv
  | timeout c =>
    simp only [step] at hstep
    split at hstep
    · cases hstep
    · rename_i p hcall
      cases hstep
      refine ⟨hinv.functional, hinv.current_of_hangup c, hinv.requests, ?_, hinv.results,
        hinv.replies, hinv.accepted⟩
      intro j hj
      exact (hinv.jobs j hj).frame (fun _ he => he) rfl

/-- **Replies.** In every run in which the boss receives on a transport only when what came
over it before is answered, every reply that a client takes is the minified image of the
request it takes it for. -/
theorem minify_replies_match (udp : C → Bool) (minify : Bytes → Bytes) (s : St C X W)
    (hs : (sys udp minify).Reach (AnsweredFirst udp) s) :
    ∀ a ∈ s.accepted, a.result = minify a.image :=
  (Sys.Reach.inv init_inv step_inv s hs).accepted

/-! ## Two runs -/

/-- A stand-in for the image library: it drops the last byte. -/
def demoMinify (image : Bytes) : Bytes := image.dropLast

/-- Two TCP clients and two workers, whose calls overlap: the second one is replied to first. -/
theorem minify_replies_match_overlapping :
    ∃ s : St (Fin 2) Nat (Fin 2),
      s.accepted = [⟨1, ascii "bbb", ascii "bb"⟩, ⟨0, ascii "aa", ascii "a"⟩] ∧
      ∀ a ∈ s.accepted, a.result = demoMinify a.image := by
  have hrun : ((sys (fun _ => false) demoMinify).run (St.start : St (Fin 2) Nat (Fin 2))
      [.call 0 7 (ascii "aa"), .call 1 7 (ascii "bbb"), .receive ⟨0, 7, ascii "aa"⟩, .take 0,
        .receive ⟨1, 7, ascii "bbb"⟩, .take 1, .compute 0, .compute 1, .reply 1, .reply 0,
        .deliver ⟨1, 7, ascii "bb"⟩, .deliver ⟨0, 7, ascii "a"⟩]).map (fun s => s.accepted) =
      some [⟨1, ascii "bbb", ascii "bb"⟩, ⟨0, ascii "aa", ascii "a"⟩] := by decide
  obtain ⟨s, hs, hacc⟩ := Option.map_eq_some_iff.mp hrun
  exact ⟨s, hacc, minify_replies_match (fun _ => false) demoMinify s
    (Sys.reach_of_run (.init (start_init _ _)) (by decide) hs)⟩

/-- One TCP client, one worker: the first call times out, the second is received before the
first is replied to, and the client takes the first image for the second. -/
theorem minify_replies_mixed_up :
    ¬ ∀ s : St (Fin 1) Nat (Fin 1),
      (sys (fun _ => false) demoMinify).Reach (fun _ _ => True) s →
        ∀ a ∈ s.accepted, a.result = demoMinify a.image := by
  intro h
  have hrun : ((sys (fun _ => false) demoMinify).run (St.start : St (Fin 1) Nat (Fin 1))
      [.call 0 7 (ascii "aa"), .receive ⟨0, 7, ascii "aa"⟩, .timeout 0, .call 0 8 (ascii "bb"),
        .receive ⟨0, 8, ascii "bb"⟩, .take 0, .compute 0, .reply 0,
        .deliver ⟨0, 8, ascii "a"⟩]).map (fun s => s.accepted) =
      some [⟨0, ascii "bb", ascii "a"⟩] := by decide
  obtain ⟨s, hs, hacc⟩ := Option.map_eq_some_iff.mp hrun
  have hreach := Sys.reach_of_run (.init (start_init (fun _ => false) demoMinify))
    (Sys.runOk_of_all (fun _ _ => trivial)) hs
  have hres := h s hreach ⟨0, ascii "bb", ascii "a"⟩ (by rw [hacc]; exact List.mem_cons_self)
  exact absurd hres (by decide)

end Step

end IntroOS.Minify
