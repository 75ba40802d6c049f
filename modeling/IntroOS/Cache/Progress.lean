import IntroOS.Cache.Completion

/-! # The cache does not get stuck

Any number of handlers and workers, in any interleaving, over queues of `qbytes` bytes: `msgsnd`
(with no flags) waits as long as its message does not fit. The workers' calls succeed and the
files can be read. A handler's calls may fail at any point, except for the `msgrcv` of its
response: nobody takes a response that its handler gave up, and when the queue is full of those
every worker waits for ever.

* `bounded`: the protocol over such queues;
* `LiveInv`: what keeps the workers going. Whoever waits for a response has a request, a worker
  or a response somewhere, and for each of these somebody waits;
* `live_progress`: as long as there is something to do, somebody can do it without a failing
  call;
* `cache_never_stuck`: when no new request is sent, every schedule ends with all handlers free,
  no request under way and all workers back at their first two calls.
-/

namespace IntroOS.Cache

variable {H W : Type*}

/-! ## Queues of so many bytes -/

/-- What the messages of a queue take: each its text and a NUL (`len+1`). -/
def cbytes (texts : List Bytes) : Nat := (texts.map fun text => text.length + 1).sum

/-- The `msgsnd` of the step has room in its queue. -/
def hasRoom (qbytes : Nat) (s : St H W) : Act H W → Bool
  | .handler _ (.request p) => decide (cbytes s.reqQ + ((requestText p.bytes).length + 1) ≤ qbytes)
  | .worker w .msgsnd =>
    (s.worker w).answer.all fun (r, _) =>
      decide (cbytes (s.respQ.map Response.text) + (r.text.length + 1) ≤ qbytes)
  | .handler _ _ | .worker _ _ => true

/-- The protocol with a `msgsnd` that waits for room. -/
def bounded [DecidableEq H] [DecidableEq W] (qbytes : Nat) (files : Bytes → Option Bytes) :
    Sys (St H W) (Act H W) where
  Init := (sys files).Init
  step s a := if hasRoom qbytes s a then (sys files).step s a else none

theorem bounded_step [DecidableEq H] [DecidableEq W] {qbytes : Nat}
    {files : Bytes → Option Bytes} {s s' : St H W} {a : Act H W} :
    (bounded qbytes files).step s a = some s' ↔
      hasRoom qbytes s a = true ∧ (sys files).step s a = some s' := by
  show (if hasRoom qbytes s a then (sys files).step s a else none) = some s' ↔ _
  rw [Option.ite_none_right_eq_some]

theorem notFound_length : notFound.length = 9 := by decide

theorem lengthText_length_le (fileLen : Nat) : (lengthText fileLen).length ≤ 12 := by
  have hint : (toInt32 (fileLen : Int)).natAbs < 10 ^ 10 := by
    unfold toInt32
    omega
  have hdigits := (decimal_length_le (by decide)).mpr hint
  have hline : (ascii "\n").length = 1 := by decide
  unfold lengthText signedDecimal
  rw [List.length_append, hline]
  split
  · rw [List.length_cons]
    omega
  · omega

/-- Every answer fits a buffer. -/
theorem Worker.answer_fits {x next : Worker} {r : Response} (ha : x.answer = some (r, next)) :
    r.text.length + 1 ≤ bufSize := by
  have hbuf : bufSize = 6200 := rfl
  rcases Worker.answer_cases ha with ⟨path, rfl, _⟩ | ⟨path, content, _, _, _, rfl, _⟩
  · show notFound.length + 1 ≤ bufSize
    rw [notFound_length]
    omega
  · have hlength := lengthText_length_le content.length
    show (lengthText content.length).length + 1 ≤ bufSize
    omega

/-! ## Which calls succeed -/

/-- The worker's call succeeds, on a file that can be read, and no handler gives up its
response. What the handlers' other calls do is free. -/
def Act.serves : Act H W → Bool
  | .handler _ .msgrcvFails => false
  | .handler _ (.request _) | .handler _ (.requestFails _) | .handler _ .msgrcv
  | .handler _ (.chunk _ _) | .handler _ .finish => true
  | .worker w a => (Act.worker w a : Act H W).succeeds

/-- A new call of `handle_with_cache`. -/
def Act.begins : Act H W → Bool
  | .handler _ (.request _) | .handler _ (.requestFails _) => true
  | .handler _ .msgrcv | .handler _ .msgrcvFails | .handler _ (.chunk _ _) | .handler _ .finish
  | .worker _ _ => false

/-- `bytes_transferred`. -/
def Handler.transferred : Handler → Nat
  | .sending _ _ _ sent => sent.length
  | .idle | .waiting _ | .finished _ _ _ => 0

/-- No call fails: a `pread` that returns nothing does so at the end of the segment. -/
def Unfailing (s : St H W) : Act H W → Prop
  | .handler h (.chunk 0 _) => s.seg.length ≤ (s.handler h).transferred
  | a => a.succeeds = true

/-- Nothing is left to do but to wait for a request. -/
structure Settled (s : St H W) : Prop where
  handlers : ∀ h, (s.handler h).free = true
  requests : s.reqQ = []
  workers : ∀ w, s.worker w = .idle ∨ s.worker w = .receiving

/-! ## The invariant -/

structure LiveInv [Fintype H] [Fintype W] (s : St H W) : Prop where
  usable : UsableInv s
  balanced : Balanced s
  command : s.commandMutex + countThreads Worker.commanding s.worker = 1
  requests : ∀ msg ∈ s.reqQ, requestPath msg ≠ none
  readable : ∀ w, (s.worker w).Readable

variable [DecidableEq H] [DecidableEq W] [Fintype H] [Fintype W] {files : Bytes → Option Bytes}
  {qbytes : Nat}

theorem live_init : ∀ s : St H W, (bounded qbytes files).Init s → LiveInv s := by
  intro s hinit
  have husable := usable_init s (show (sys files).Init s from hinit)
  have hbalanced := balanced_init s (show (sys files).Init s from hinit)
  rcases hinit with ⟨hreq, _, _, _, hcommand, _, _, hw, _, _⟩
  refine ⟨husable, hbalanced, ?_, ?_, ?_⟩
  · have hnone : countThreads Worker.commanding s.worker = 0 := by
      rw [countThreads_eq_zero]
      intro w
      rw [hw w]
      rfl
    rw [hcommand, hnone]
  · intro msg hmsg
    rw [hreq] at hmsg
    cases hmsg
  · intro w hhold
    rw [hw w] at hhold
    cases hhold

omit [DecidableEq H] [Fintype H] in
theorem command_step {s s' : St H W} {w : W} {a : WorkerAct}
    (hok : (Act.worker w a : Act H W).serves = true) (hstep : WorkerCase files s w a s')
    (hinv : UsableInv s)
    (hcommand : s.commandMutex + countThreads Worker.commanding s.worker = 1) :
    s'.commandMutex + countThreads Worker.commanding s'.worker = 1 := by
  cases hstep with
  | takeCommand hw hm =>
    -- the permit goes to the worker
    have hupd := countThreads_update Worker.commanding s.worker w .receiving
    rw [hw] at hupd
    simp only [Worker.commanding, Bool.toNat_true, Bool.toNat_false] at hupd
    simp only []
    omega
  | postCommand msg hw =>
    -- and comes back
    have hupd := countThreads_update Worker.commanding s.worker w (.lookup msg)
    rw [hw] at hupd
    simp only [Worker.commanding, Bool.toNat_true, Bool.toNat_false] at hupd
    simp only []
    omega
  | msgrcv _ _ hw | missing _ _ hw | found _ _ _ hw | takeResponse _ _ hw | truncate _ _ hw
  | copy _ _ _ _ hw | postResponse hw =>
    rw [← hcommand]
    simp only []
    rw [countThreads_same (by rw [hw]; rfl)]
  | msgsnd r next ha =>
    rw [← hcommand]
    simp only []
    rw [countThreads_same (Worker.answer_commanding ha)]
  | crash => exact hcommand
  | msgrcvFails | fstatFails | msgsndFails | removeFails | preadFails => cases hok
  | remove hw =>
    have hin := hinv.workers w
    rw [hw] at hin
    cases hin

omit [DecidableEq H] in
theorem readable_step {s s' : St H W} {w : W} {a : WorkerAct}
    (hok : (Act.worker w a : Act H W).serves = true) (hstep : WorkerCase files s w a s')
    (hinv : LiveInv s) : ∀ w, (s'.worker w).Readable := by
  have hold := hinv.readable w
  have hpath : ∀ path : Bytes, some path ≠ none := Option.some_ne_none
  cases hstep with
  | takeCommand hw | postResponse hw =>
    exact forall_update hinv.readable w (by intro h; cases h)
  | msgrcv msg rest hw hq =>
    apply forall_update hinv.readable w
    intro _
    exact hinv.requests msg (by rw [hq]; exact List.mem_cons_self)
  | postCommand msg hw =>
    apply forall_update hinv.readable w
    rw [hw] at hold
    exact hold
  | missing _ path | found _ path | takeResponse path | truncate path | copy _ path =>
    exact forall_update hinv.readable w fun _ => hpath path
  | msgsnd r next ha =>
    apply forall_update hinv.readable w
    intro hhold
    rw [(Worker.answer_holding ha).2] at hhold
    cases hhold
  | crash => exact hinv.readable
  | msgrcvFails | fstatFails | msgsndFails | removeFails | preadFails => cases hok
  | remove hw =>
    have hin := hinv.usable.workers w
    rw [hw] at hin
    cases hin

theorem live_step : ∀ (s : St H W) a s', a.serves = true →
    (bounded qbytes files).step s a = some s' → LiveInv s → LiveInv s' := by
  intro s a s' hok hstep hinv
  rcases sys_step_cases (bounded_step.mp hstep).2 with ⟨h, b, rfl, hcase⟩ | ⟨w, b, rfl, _, hcase⟩
  · have husable := usable_step s (.handler h b) s' ⟨rfl, rfl⟩ (bounded_step.mp hstep).2 hinv.usable
    have hbalanced : Balanced s' := by
      refine handler_balanced ?_ hcase hinv.balanced
      -- the one call that would leave a response behind
      rintro rfl
      cases hok
    have hrequests := handler_requests hcase hinv.requests
    cases hcase with
    | request | requestFails | msgrcv | msgrcvFails | preadFails | chunk | shortSend | finish =>
      exact ⟨husable, hbalanced, hinv.command, hrequests, hinv.readable⟩
  · obtain ⟨hfiles, hread⟩ := Act.onlyFilesFail_of_succeeds hok
    refine ⟨worker_usable hfiles hread hcase hinv.usable, worker_balanced hok hcase hinv.balanced,
      command_step hok hcase hinv.usable hinv.command, ?_, readable_step hok hcase hinv⟩
    intro msg hmsg
    exact hinv.requests msg (hcase.reqQ_subset msg hmsg)

/-! ## Progress -/

/-- Somebody can go on with his call, and no call fails. -/
def GoesOn (qbytes : Nat) (files : Bytes → Option Bytes) (s : St H W) : Prop :=
  ∃ a s', Unfailing s a ∧ a.serves = true ∧ a.begins = false ∧
    (bounded qbytes files).step s a = some s'

omit [Fintype H] [Fintype W] in
theorem goesOn_worker {s s' : St H W} {w : W} {a : WorkerAct} (hup : s.cacheUp = true)
    (hok : (Act.worker w a : Act H W).succeeds = true)
    (hroom : hasRoom qbytes s (.worker w a) = true) (hstep : workerStep files s w a = some s') :
    GoesOn qbytes files s := by
  refine ⟨.worker w a, s', hok, hok, rfl, bounded_step.mpr ⟨hroom, ?_⟩⟩
  show (if s.cacheUp then workerStep files s w a else none) = some s'
  rw [if_pos hup, hstep]

omit [Fintype H] [Fintype W] in
theorem goesOn_handler {s s' : St H W} {h : H} {a : HandlerAct}
    (hok : Unfailing s (.handler h a)) (hserves : (Act.handler h a : Act H W).serves = true)
    (hbegins : (Act.handler h a : Act H W).begins = false)
    (hroom : hasRoom qbytes s (.handler h a) = true) (hstep : handlerStep s h a = some s') :
    GoesOn qbytes files s :=
  ⟨.handler h a, s', hok, hserves, hbegins, bounded_step.mpr ⟨hroom, hstep⟩⟩

/-- A response in the queue is there for somebody. -/
theorem LiveInv.response_goesOn {s : St H W} (hinv : LiveInv s) (hresp : s.respQ ≠ []) :
    GoesOn qbytes files s := by
  have hopen := hinv.usable.respOpen
  have hcount := hinv.balanced.count
  obtain ⟨r, rest, hq⟩ := List.exists_cons_of_ne_nil hresp
  rw [hq, List.length_cons] at hcount
  -- there are as many that wait as there are requests, workers and responses for them
  obtain ⟨h, hwaits⟩ := exists_of_countThreads_pos (p := Handler.waits) (f := s.handler) (by omega)
  cases hx : s.handler h with
  | waiting path =>
    apply goesOn_handler (h := h) (a := .msgrcv) rfl rfl rfl rfl
    simp only [handlerStep, hx, hopen, hq]
    rfl
  | idle | sending | finished =>
    rw [hx] at hwaits
    cases hwaits

/-- A worker posts its answer; when that has no room, somebody can take one out of the queue. -/
theorem LiveInv.answer_goesOn {s : St H W} (hinv : LiveInv s) (hbuf : bufSize ≤ qbytes) {w : W}
    {r : Response} {next : Worker} (ha : (s.worker w).answer = some (r, next)) :
    GoesOn qbytes files s := by
  have hfits := Worker.answer_fits ha
  by_cases hroom : cbytes (s.respQ.map Response.text) + (r.text.length + 1) ≤ qbytes
  · apply goesOn_worker (w := w) (a := .msgsnd) hinv.usable.cacheUp rfl
    · simp only [hasRoom, ha, Option.all_some, hroom, decide_true]
    · simp only [workerStep, ha, hinv.usable.respOpen]
      rfl
  · apply hinv.response_goesOn
    intro hempty
    -- an empty queue has room for it
    apply hroom
    rw [hempty]
    show 0 + (r.text.length + 1) ≤ qbytes
    omega

/-- A worker inside can go on: to the next chunk, to its answer, or out. -/
theorem LiveInv.inside_goesOn {s : St H W} (hinv : LiveInv s) (hbuf : bufSize ≤ qbytes) {w : W}
    (hw : (s.worker w).inside = true) : GoesOn qbytes files s := by
  have hup := hinv.usable.cacheUp
  have hsized := hinv.usable.sized w
  cases hx : s.worker w with
  | truncating path content =>
    exact goesOn_worker (w := w) (a := .truncate) hup rfl rfl
      (by simp only [workerStep, hx]; rfl)
  | copying path content transferred =>
    rw [hx] at hsized
    have hsize : s.seg.length = content.length := hsized
    by_cases hlt : transferred < content.length
    · have hchunk : ¬ (bufSize < 1 ∨ content.length < transferred + 1) := by
        unfold bufSize
        omega
      have hseg : ¬ s.seg.length < transferred + 1 := by omega
      apply goesOn_worker (w := w) (a := .copy 1) hup rfl rfl
      simp only [workerStep, hx, hlt, hchunk, hseg, not_true_eq_false, if_false, one_ne_zero]
      rfl
    · -- the file is in the segment
      apply hinv.answer_goesOn hbuf (w := w)
      simp only [hx, Worker.answer, hlt, if_false]
      rfl
  | posted =>
    exact goesOn_worker (w := w) (a := .postResponse) hup rfl rfl
      (by simp only [workerStep, hx]; rfl)
  | idle | receiving | received | lookup | missing | statFailed | removing | found | returned =>
    rw [hx] at hw
    cases hw

/-- A worker with a request can go on, or waits for the one inside. -/
theorem LiveInv.holding_goesOn {s : St H W} (hinv : LiveInv s) (hbuf : bufSize ≤ qbytes) {w : W}
    (hw : (s.worker w).holding = true) : GoesOn qbytes files s := by
  have hup := hinv.usable.cacheUp
  have hreadable := hinv.readable w hw
  have hloop := hinv.usable.workers w
  cases hx : s.worker w with
  | received msg =>
    exact goesOn_worker (w := w) (a := .postCommand) hup rfl rfl
      (by simp only [workerStep, hx]; rfl)
  | lookup msg =>
    rw [hx] at hreadable
    obtain ⟨path, hpath⟩ := Option.ne_none_iff_exists'.mp hreadable
    have hpath : requestPath msg = some path := hpath
    cases hfile : files path with
    | none =>
      apply goesOn_worker (w := w) (a := .lookup) hup rfl rfl
      simp only [workerStep, hx, hpath, hfile]
      rfl
    | some content =>
      apply goesOn_worker (w := w) (a := .lookup) hup rfl rfl
      simp only [workerStep, hx, hpath, hfile]
      rfl
  | missing path =>
    apply hinv.answer_goesOn hbuf (w := w)
    rw [hx]
    rfl
  | found path content =>
    by_cases hm : 0 < s.responseMutex
    · apply goesOn_worker (w := w) (a := .takeResponse) hup rfl rfl
      simp only [workerStep, hx, hm, if_true]
      rfl
    · -- the permit is with a worker inside
      have hpermit := hinv.usable.permit
      obtain ⟨w', hw'⟩ := exists_of_countThreads_pos (p := Worker.inside) (f := s.worker) (by omega)
      exact hinv.inside_goesOn hbuf hw'
  | truncating | copying => exact hinv.inside_goesOn hbuf (w := w) (by rw [hx]; rfl)
  | statFailed =>
    rw [hx] at hloop
    cases hloop
  | idle | receiving | removing | posted | returned =>
    rw [hx] at hw
    cases hw

/-- A request in the queue is taken by any worker there is. -/
theorem LiveInv.request_goesOn {s : St H W} (hinv : LiveInv s) (hbuf : bufSize ≤ qbytes)
    (hreq : s.reqQ ≠ []) (w : W) : GoesOn qbytes files s := by
  have hup := hinv.usable.cacheUp
  have hloop := hinv.usable.workers w
  obtain ⟨msg, rest, hq⟩ := List.exists_cons_of_ne_nil hreq
  have hreceive : ∀ w, s.worker w = .receiving → GoesOn qbytes files s := by
    intro w hx
    apply goesOn_worker (w := w) (a := .msgrcv) hup rfl rfl
    simp only [workerStep, hx, hq]
    rfl
  cases hx : s.worker w with
  | idle =>
    by_cases hm : 0 < s.commandMutex
    · apply goesOn_worker (w := w) (a := .takeCommand) hup rfl rfl
      simp only [workerStep, hx, hm, and_self, if_true]
      rfl
    · -- somebody else is about to take it
      have hcommand := hinv.command
      obtain ⟨w', hw'⟩ := exists_of_countThreads_pos (p := Worker.commanding) (f := s.worker)
        (by omega)
      cases hx' : s.worker w' with
      | receiving => exact hreceive w' hx'
      | received msg' => exact hinv.holding_goesOn hbuf (w := w') (by rw [hx']; rfl)
      | idle | lookup | missing | statFailed | removing | found | truncating | copying | posted
      | returned =>
        rw [hx'] at hw'
        cases hw'
  | receiving => exact hreceive w hx
  | received | lookup | missing | found | truncating | copying =>
    exact hinv.holding_goesOn hbuf (w := w) (by rw [hx]; rfl)
  | posted => exact hinv.inside_goesOn hbuf (w := w) (by rw [hx]; rfl)
  | statFailed | removing | returned =>
    rw [hx] at hloop
    cases hloop

/-- A handler in its call can go on, or waits for what is under way. -/
theorem LiveInv.busy_goesOn [Nonempty W] {s : St H W} (hinv : LiveInv s) (hbuf : bufSize ≤ qbytes)
    {h : H} (hh : ¬ (s.handler h).free = true) : GoesOn qbytes files s := by
  cases hx : s.handler h with
  | sending path r fileLen sent =>
    by_cases hlt : sent.length < fileLen
    · by_cases hend : s.seg.length ≤ sent.length
      · -- the segment ends before the announced length
        apply goesOn_handler (h := h) (a := .chunk 0 0) ?_ rfl rfl rfl
        · simp only [handlerStep, hx, hlt, not_true_eq_false, if_false, if_true]
          rfl
        · show s.seg.length ≤ (s.handler h).transferred
          rw [hx]
          exact hend
      · -- the next byte
        have hbad : ¬ (bufSize < 1 ∨ s.seg.length < sent.length + 1 ∨ 1 < 1) := by
          unfold bufSize
          omega
        apply goesOn_handler (h := h) (a := .chunk 1 1) rfl rfl rfl rfl
        simp only [handlerStep, hx, hlt, hbad, not_true_eq_false, if_false, if_true, one_ne_zero]
        rfl
    · apply goesOn_handler (h := h) (a := .finish) rfl rfl rfl rfl
      simp only [handlerStep, hx, hlt, if_false]
      rfl
  | waiting path =>
    -- its request or its response is in one of three places
    have hcount := hinv.balanced.count
    have hpos : 0 < countThreads Handler.waits s.handler :=
      countThreads_pos (i := h) (by rw [hx]; rfl)
    by_cases hreq : s.reqQ = []
    · by_cases hresp : s.respQ = []
      · rw [hreq, hresp] at hcount
        simp only [List.length_nil] at hcount
        obtain ⟨w, hw⟩ := exists_of_countThreads_pos (p := Worker.holding) (f := s.worker)
          (by omega)
        exact hinv.holding_goesOn hbuf hw
      · exact hinv.response_goesOn hresp
    · obtain ⟨w⟩ := (inferInstance : Nonempty W)
      exact hinv.request_goesOn hbuf hreq w
  | idle | finished =>
    rw [hx] at hh
    exact absurd rfl hh

theorem live_progress [Nonempty W] (hbuf : bufSize ≤ qbytes) :
    ∀ s : St H W, LiveInv s → ¬ Settled s → GoesOn qbytes files s := by
  intro s hinv hleft
  by_cases hfree : ∀ h, (s.handler h).free = true
  · by_cases hreq : s.reqQ = []
    · -- a worker is not back yet
      have hworker : ¬ ∀ w, s.worker w = .idle ∨ s.worker w = .receiving := by
        intro hback
        exact hleft ⟨hfree, hreq, hback⟩
      rw [not_forall] at hworker
      rcases hworker with ⟨w, hw⟩
      have hloop := hinv.usable.workers w
      cases hx : s.worker w with
      | idle => exact absurd (Or.inl hx) hw
      | receiving => exact absurd (Or.inr hx) hw
      | received | lookup | missing | found | truncating | copying =>
        exact hinv.holding_goesOn hbuf (w := w) (by rw [hx]; rfl)
      | posted => exact hinv.inside_goesOn hbuf (w := w) (by rw [hx]; rfl)
      | statFailed | removing | returned =>
        rw [hx] at hloop
        cases hloop
    · obtain ⟨w⟩ := (inferInstance : Nonempty W)
      exact hinv.request_goesOn hbuf hreq w
  · rw [not_forall] at hfree
    rcases hfree with ⟨h, hh⟩
    exact hinv.busy_goesOn hbuf hh

/-! ## The rank -/

omit [DecidableEq W] in
/-- Every step of a handler in its call ends the call, or leaves fewer bytes to send. -/
theorem call_rank {s s' : St H W} {h : H} {a : HandlerAct}
    (hbegins : (Act.handler h a : Act H W).begins = false) (hstep : HandlerCase s h a s') :
    rank s' < rank s := by
  cases hstep with
  | request | requestFails => cases hbegins
  | msgrcv path r rest hh hq =>
    refine rank_handler rfl rfl (Or.inl ?_)
    have hconsume := Handler.consume_stage path r
    rw [hh]
    show 10 * s.reqQ.length + rest.length + _ < 10 * s.reqQ.length + s.respQ.length + 2
    rw [hq, List.length_cons]
    omega
  | msgrcvFails path hh =>
    refine rank_handler rfl rfl (Or.inl ?_)
    rw [hh]
    apply Nat.add_lt_add_left
    show 0 < 2
    omega
  | chunk n path r fileLen sent hh hlt hn hle =>
    refine rank_handler rfl rfl (Or.inr ?_)
    rw [hh]
    refine ⟨rfl, ?_⟩
    show fileLen - (sent ++ (s.seg.drop sent.length).take n).length < fileLen - sent.length
    rw [List.length_append, List.length_take, List.length_drop]
    omega
  | preadFails _ path r fileLen sent hh | shortSend _ _ path r fileLen sent hh
  | finish path r fileLen sent hh =>
    refine rank_handler rfl rfl (Or.inl ?_)
    rw [hh]
    exact Nat.lt_succ_self _

omit [DecidableEq H] in
theorem serve_rank {s s' : St H W} {w : W} {a : WorkerAct}
    (hok : (Act.worker w a : Act H W).serves = true) (hstep : WorkerCase files s w a s')
    (hinv : UsableInv s) : rank s' < rank s := by
  cases hstep with
  | takeCommand hw | postCommand _ hw | missing _ _ hw | found _ _ _ hw | takeResponse _ _ hw
  | truncate _ _ hw | postResponse hw =>
    -- the next stage
    refine rank_worker rfl rfl (Or.inl ?_)
    rw [hw]
    apply Nat.add_lt_add_left
    simp [Worker.stage]
  | msgrcv msg rest hw hq =>
    refine rank_worker rfl rfl (Or.inl ?_)
    rw [hw]
    show 10 * rest.length + s.respQ.length + 9 < 10 * s.reqQ.length + s.respQ.length + 0
    rw [hq, List.length_cons]
    omega
  | msgsnd r next ha =>
    have hstage := Worker.answer_stage ha (hinv.workers w)
    refine rank_worker rfl rfl (Or.inl ?_)
    show 10 * s.reqQ.length + (s.respQ ++ [r]).length + next.stage <
      10 * s.reqQ.length + s.respQ.length + (s.worker w).stage
    rw [List.length_append, List.length_singleton]
    omega
  | copy n path content transferred hw hn hle hseg =>
    refine rank_worker rfl rfl (Or.inr ?_)
    rw [hw]
    refine ⟨rfl, ?_⟩
    show content.length - (transferred + n) < content.length - transferred
    omega
  | crash n path content transferred hw hle hshort =>
    -- the segment has the size of the file
    have hsized := hinv.sized w
    rw [hw] at hsized
    have hsize : s.seg.length = content.length := hsized
    omega
  | msgrcvFails | fstatFails | msgsndFails | removeFails | preadFails => cases hok
  | remove hw =>
    have hin := hinv.workers w
    rw [hw] at hin
    cases hin

theorem live_rank : ∀ (s : St H W) a s', LiveInv s → a.serves = true → a.begins = false →
    (bounded qbytes files).step s a = some s' → rank s' < rank s := by
  intro s a s' hinv hok hbegins hstep
  rcases sys_step_cases (bounded_step.mp hstep).2 with ⟨h, b, rfl, hcase⟩ | ⟨w, b, rfl, _, hcase⟩
  · exact call_rank hbegins hcase
  · exact serve_rank hok hcase hinv.usable

omit [Fintype H] [Fintype W] in
/-- A call that waits with its request for room has it at the end. -/
theorem Settled.takes_request {s : St H W} (hbuf : bufSize ≤ qbytes) (hend : Settled s) (h : H)
    (p : ReqPath) : ∃ s', (bounded qbytes files).step s (.handler h (.request p)) = some s' := by
  have hfits := p.fits
  refine ⟨_, bounded_step.mpr ⟨?_, if_pos (hend.handlers h)⟩⟩
  unfold hasRoom
  rw [hend.requests, decide_eq_true_iff]
  show 0 + ((requestText p.bytes).length + 1) ≤ qbytes
  omega

/-- **No deadlock.** Over queues with room for at least one buffer, in every run in which the
workers' calls succeed and no handler gives up its response, for any number of handlers, at least
one worker and whatever the handlers' other calls do: as long as something is left to do somebody
can do it without a failing call; if no new request is sent, every schedule settles; and then
the queue has room for any request. -/
theorem cache_never_stuck [Nonempty W] (qbytes : Nat) (hbuf : bufSize ≤ qbytes)
    (files : Bytes → Option Bytes) (s : St H W)
    (hs : (bounded qbytes files).Reach (fun _ a => a.serves = true) s) :
    (¬ Settled s → GoesOn qbytes files s) ∧
      (bounded qbytes files).Inevitable (fun _ a => a.serves = true ∧ a.begins = false) Settled s ∧
      (Settled s → ∀ h p, ∃ s', (bounded qbytes files).step s (.handler h (.request p)) =
        some s') := by
  have hinv := Sys.Reach.inv live_init live_step s hs
  refine ⟨live_progress hbuf s hinv, ?_, Settled.takes_request hbuf⟩
  refine Sys.Inevitable.of_rank rank ?_ ?_ s hinv
  · intro s hinv hleft
    obtain ⟨a, s', _, hserves, hbegins, hstep⟩ := live_progress hbuf s hinv hleft
    exact ⟨a, s', ⟨hserves, hbegins⟩, hstep⟩
  · intro s a s' hinv _ hok hstep
    exact ⟨live_step s a s' hok.1 hstep hinv, live_rank s a s' hinv hok.1 hok.2 hstep⟩

/-- Two requests under way, one of them with a worker, and a third handler whose own `msgsnd`
failed. -/
theorem cache_never_stuck_midway :
    ∃ s : St (Fin 3) (Fin 2), ¬ Settled s ∧
      ((¬ Settled s → GoesOn bufSize twoFiles s) ∧ (bounded bufSize twoFiles).Inevitable
        (fun _ a => a.serves = true ∧ a.begins = false) Settled s ∧
        (Settled s → ∀ h p, ∃ s', (bounded bufSize twoFiles).step s (.handler h (.request p)) =
          some s')) := by
  have hrun : ((bounded bufSize twoFiles).run (St.start [] : St (Fin 3) (Fin 2))
      [.handler 0 (.request pathA), .handler 1 (.request pathB), .handler 2 (.requestFails pathA),
        .worker 1 .takeCommand, .worker 1 .msgrcv]).map
      (fun s => ((s.handler 0).free, s.reqQ.length)) = some (false, 1) := by decide
  rcases Option.map_eq_some_iff.mp hrun with ⟨s, hs, hout⟩
  rw [Prod.mk.injEq] at hout
  refine ⟨s, ?_, ?_⟩
  · intro hsettled
    have hfree := hsettled.handlers 0
    rw [hout.1] at hfree
    cases hfree
  · apply cache_never_stuck bufSize le_rfl twoFiles
    exact Sys.reach_of_run (.init (start_init twoFiles _)) (Sys.runOk_of_all (by decide)) hs

end IntroOS.Cache
