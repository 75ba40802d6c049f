import IntroOS.Cache.Matching
import IntroOS.Cache.WorkerErrors
import Mathlib.Data.Prod.Lex

/-! # One request at a time

When every call begins after the last one has ended, one request is under way at most. Then
the answers come in order (`InOrder`) and the worker that fills the segment is alone with it
(`Alone`), so what is known about such runs applies:

* `SeqInv`: the invariant, with a list of one element at most for what is asked and for what is
  being served;
* `Transferred`: what a handler announced and sent is the file, or FILE_NOT_FOUND and nothing;
* `cache_transfers_exact`: in every run without failing calls, one request at a time, transfers
  are exact, and every schedule brings the present one to its end.
-/

namespace IntroOS.Cache

variable {H W : Type*} (files : Bytes → Option Bytes)

/-- No call fails, and a call begins only when no other one is under way. -/
def Sequential [DecidableEq H] (s : St H W) (a : Act H W) : Prop :=
  a.succeeds = true ∧ InSequence s a

instance [DecidableEq H] [Fintype H] (s : St H W) (a : Act H W) [DecidableEq W] [Fintype W] :
    Decidable (Sequential s a) :=
  inferInstanceAs (Decidable (a.succeeds = true ∧ InSequence s a))

/-- Every file has a length that an `int` can hold. -/
def SmallFiles : Prop := ∀ path content, files path = some content → content.length < 2 ^ 31

/-- A handler in its loop announced the length of its file and sent a beginning of it; one that
has returned announced and sent the whole file, or nothing if there is none. -/
def Handler.Transferred : Handler → Prop
  | .idle | .waiting _ => True
  | .sending path _ fileLen sent =>
    ∃ content, files path = some content ∧ fileLen = content.length ∧ sent <+: content
  | .finished path resp sent =>
    match files path with
    | some content => (∃ r ∈ resp, readResponse r.text = some content.length) ∧ sent = content
    | none => (∃ r ∈ resp, readResponse r.text = none) ∧ sent = []

/-! ## The invariant -/

/-- The path of the request in the hands of a worker. -/
def Worker.path : Worker → Option Bytes
  | .received msg | .lookup msg => requestPath msg
  | .missing path | .statFailed path | .found path _ | .truncating path _ | .copying path _ _ =>
    some path
  | .idle | .receiving | .removing | .posted | .returned => none

/-- The request in the hands of a worker has a path. -/
def Worker.Readable (x : Worker) : Prop := x.holding = true → x.path ≠ none

/-- Between `sem_wait(&command_mutex)` and its `sem_post`. -/
def Worker.commanding : Worker → Bool
  | .receiving | .received _ => true
  | .idle | .lookup _ | .missing _ | .statFailed _ | .removing | .found _ _ | .truncating _ _
  | .copying _ _ _ | .posted | .returned => false

/-- The length in the header is the one in the response; a handler that has returned sent as
much. -/
def Handler.Whole : Handler → Prop
  | .idle | .waiting _ => True
  | .sending _ r fileLen sent => readResponse r.text = some fileLen ∧ sent.length ≤ fileLen
  | .finished _ resp sent => ∃ r, resp = some r ∧
    match readResponse r.text with
    | some fileLen => fileLen ≤ sent.length
    | none => sent = []

structure SeqInv [Fintype H] [Fintype W] (s : St H W) : Prop where
  matching : Inv files s
  segment : SegInv files s
  usable : UsableInv s
  balanced : Balanced s
  oneCall : OneCall s.handler
  asked : Slot Handler.wanted s.handler s.asked
  serving : Slot Worker.path s.worker s.serving
  requests : ∀ msg ∈ s.reqQ, requestPath msg ≠ none
  readable : ∀ w, (s.worker w).Readable
  command : s.commandMutex + countThreads Worker.commanding s.worker = 1
  whole : ∀ h, (s.handler h).Whole

variable {files}

/-! ## What follows from it -/

variable [DecidableEq H] [DecidableEq W] [Fintype H] [Fintype W]

omit [DecidableEq W] in
/-- A handler in its call is the only one. -/
theorem SeqInv.alone {s : St H W} (hinv : SeqInv files s) {h h' : H}
    (hh : (s.handler h).free = false) (hh' : (s.handler h').free = false) : h = h' := by
  apply eq_of_countThreads_le_one (p := Handler.busy) hinv.oneCall
  · simp only [Handler.busy, hh, Bool.not_false]
  · simp only [Handler.busy, hh', Bool.not_false]

omit [DecidableEq H] [DecidableEq W] in
/-- One request is under way at most. -/
theorem SeqInv.one {s : St H W} (hinv : SeqInv files s) :
    s.reqQ.length + countThreads Worker.holding s.worker + s.respQ.length ≤ 1 := by
  have hwaits : countThreads Handler.waits s.handler ≤ countThreads Handler.busy s.handler := by
    apply countThreads_mono
    intro x hx
    cases x with
    | waiting path => rfl
    | idle | sending | finished => cases hx
  have hone := hinv.oneCall
  have hcount := hinv.balanced.count
  unfold OneCall at hone
  omega

omit [DecidableEq H] [DecidableEq W] in
/-- Something under way has a handler that waits for it. -/
theorem SeqInv.waiter {s : St H W} (hinv : SeqInv files s)
    (h : 0 < s.reqQ.length + countThreads Worker.holding s.worker + s.respQ.length) :
    ∃ h path, s.handler h = .waiting path := by
  rw [← hinv.balanced.count] at h
  obtain ⟨h', hw⟩ := exists_of_countThreads_pos h
  cases hx : s.handler h' with
  | waiting path => exact ⟨h', path, hx⟩
  | idle | sending | finished =>
    rw [hx] at hw
    cases hw

omit [DecidableEq W] in
/-- While a worker has a request, no response is in the queue and no handler reads. -/
theorem SeqInv.not_inFlight {s : St H W} (hinv : SeqInv files s) {w : W}
    (hw : (s.worker w).holding = true) : ¬ s.InFlight := by
  have hone := hinv.one
  have hpos : 0 < countThreads Worker.holding s.worker := countThreads_pos hw
  intro hfl
  rcases hfl with ⟨r, hr, _⟩ | ⟨h, hreading⟩
  · have hlen := List.length_pos_of_mem hr
    omega
  · -- the handler that waits for the answer is another one
    obtain ⟨h', path, hh'⟩ := hinv.waiter (by omega)
    have heq : h = h' := by
      apply hinv.alone
      · cases hx : s.handler h with
        | sending path r fileLen sent => rfl
        | idle | waiting | finished =>
          rw [hx] at hreading
          exact hreading.elim
      · rw [hh']
        rfl
    rw [heq, hh'] at hreading
    exact hreading

omit [DecidableEq H] [DecidableEq W] in
/-- A handler in its loop has announced the length of its file, and finds it in the segment. -/
theorem SeqInv.sending {s : St H W} (hinv : SeqInv files s) {h : H} {path : Bytes} {r : Response}
    {fileLen : Nat} {sent : Bytes} (hh : s.handler h = .sending path r fileLen sent) :
    ∃ content, files path = some content ∧ fileLen = content.length ∧ sent <+: content ∧
      (sent.length < fileLen → s.seg = content) := by
  have hwhole := hinv.whole h
  have hexact := hinv.segment.handlers h
  have hown := hinv.matching.handlers h path r (by rw [hh]; rfl)
  rw [hh] at hwhole hexact
  obtain ⟨rfl, hanswer⟩ := hown
  -- the response is a length, so there is a file
  have hne : files r.path ≠ none := by
    intro hnone
    have hread := hwhole.1
    have hnotFound : readResponse notFound = none := by decide
    rw [hanswer.1.mpr hnone, hnotFound] at hread
    cases hread
  obtain ⟨content, hfile⟩ := Option.ne_none_iff_exists'.mp hne
  have hlen := hanswer.2 content hfile
  rw [hwhole.1, Option.some.injEq] at hlen
  refine ⟨content, hfile, hlen, ?_, ?_⟩
  · have hpre := hexact.1
    rw [hfile] at hpre
    exact hpre
  · intro hlt
    have hseg := hexact.2 hlt
    rw [hfile] at hseg
    exact (Option.some.inj hseg).symm

omit [DecidableEq W] in
/-- The handler that receives is the one that asked. -/
theorem SeqInv.inOrder_handler {s s' : St H W} (hinv : SeqInv files s) {h : H} {a : HandlerAct}
    (hok : (Act.handler h a : Act H W).succeeds = true) (hstep : HandlerCase s h a s') :
    InOrder files s (.handler h a) := by
  cases hstep with
  | msgrcv path r rest hh hq =>
    show s.asked.head? = (s.handler h).wanted
    rw [hinv.asked.full h path (by rw [hh]; rfl), hh]
    rfl
  | msgrcvFails => cases hok
  | request | requestFails | preadFails | chunk | shortSend | finish => trivial

theorem Worker.answer_path {x next : Worker} {r : Response} (h : x.answer = some (r, next)) :
    x.path = some r.path ∧ next.path = none := by
  rcases Worker.answer_cases h with ⟨path, rfl, ⟨rfl, rfl⟩ | ⟨rfl, rfl⟩⟩ |
    ⟨path, content, transferred, rfl, _, rfl, rfl⟩
  · exact ⟨rfl, rfl⟩
  · exact ⟨rfl, rfl⟩
  · exact ⟨rfl, rfl⟩

omit [DecidableEq H] in
/-- The worker that answers has the only request. -/
theorem SeqInv.inOrder_worker {s s' : St H W} (hinv : SeqInv files s) (hsmall : SmallFiles files)
    {w : W} {a : WorkerAct} (hok : (Act.worker w a : Act H W).succeeds = true)
    (hstep : WorkerCase files s w a s') : InOrder files s (.worker w a) := by
  cases hstep with
  | missing msg path hw hp hf | found msg path content hw hp hf =>
    show (s.worker w).FindsShort files
    rw [hw]
    intro content hcontent
    rw [hp] at hcontent
    exact hsmall path content hcontent
  | msgsnd r next ha =>
    show s.serving.head? = (s.worker w).answer.map fun a => a.1.path
    rw [hinv.serving.full w r.path (Worker.answer_path ha).1, ha]
    rfl
  | fstatFails => cases hok
  | takeCommand | msgrcv | msgrcvFails | postCommand | msgsndFails | remove | removeFails
  | takeResponse | truncate | preadFails | crash | copy | postResponse => trivial

theorem SeqInv.alone_worker {s s' : St H W} (hinv : SeqInv files s) {w : W} {a : WorkerAct}
    (hstep : WorkerCase files s w a s') : Alone s (.worker w a) := by
  cases hstep with
  | takeResponse path content hw hm => exact hinv.not_inFlight (by rw [hw]; rfl)
  | takeCommand | msgrcv | msgrcvFails | postCommand | missing | found | fstatFails | msgsnd
  | msgsndFails | remove | removeFails | truncate | preadFails | crash | copy
  | postResponse => trivial

/-! ## Steps -/

theorem seq_init : ∀ s : St H W, (sys files).Init s → SeqInv files s := by
  intro s hinit
  have hmatching := init_inv s hinit
  have hsegment := segInv_init s hinit
  have husable := usable_init s hinit
  have hbalanced := balanced_init s hinit
  rcases hinit with ⟨hreq, _, _, _, hcommand, _, hh, hw, hasked, hserving⟩
  refine ⟨hmatching, hsegment, husable, hbalanced, ?_, ?_, ?_, ?_, ?_, ?_, ?_⟩
  · have hnone : countThreads Handler.busy s.handler = 0 := by
      rw [countThreads_eq_zero]
      intro h
      rw [hh h]
      rfl
    unfold OneCall
    omega
  · rw [hasked]
    apply Slot.nil
    intro h
    rw [hh h]
    rfl
  · rw [hserving]
    apply Slot.nil
    intro w
    rw [hw w]
    rfl
  · intro msg hmsg
    rw [hreq] at hmsg
    cases hmsg
  · intro w hhold
    rw [hw w] at hhold
    cases hhold
  · have hnone : countThreads Worker.commanding s.worker = 0 := by
      rw [countThreads_eq_zero]
      intro w
      rw [hw w]
      rfl
    rw [hcommand, hnone]
  · intro h
    rw [hh h]
    trivial

theorem Handler.wanted_of_free {x : Handler} (h : x.free = true) : x.wanted = none := by
  cases x with
  | idle | finished => rfl
  | waiting | sending => cases h

theorem Handler.consume_wanted (path : Bytes) (r : Response) :
    (Handler.consume path r).wanted = none := by
  unfold Handler.consume
  split
  · rfl
  · rfl

omit [DecidableEq W] [Fintype W] [Fintype H] in
theorem handler_asked {s s' : St H W} {h : H} {a : HandlerAct}
    (hseq : InSequence s (.handler h a)) (hstep : HandlerCase s h a s')
    (hasked : Slot Handler.wanted s.handler s.asked) : Slot Handler.wanted s'.handler s'.asked := by
  cases hstep with
  | request p hfree => exact hasked.put (fun h' => Handler.wanted_of_free (hseq h')) rfl
  | requestFails p hfree => exact hasked.keep (Handler.wanted_of_free hfree).symm
  | msgrcv path r rest hh hq =>
    exact hasked.clear (i := h) (b := path) (by rw [hh]; rfl) (Handler.consume_wanted path r)
  | msgrcvFails path hh =>
    exact hasked.clear (i := h) (b := path) (v := .finished path none []) (by rw [hh]; rfl) rfl
  | preadFails _ path r fileLen sent hh | chunk _ path r fileLen sent hh
  | shortSend _ _ path r fileLen sent hh | finish path r fileLen sent hh =>
    exact hasked.keep (by rw [hh]; rfl)

omit [DecidableEq W] [Fintype W] [Fintype H] in
theorem handler_requests {s s' : St H W} {h : H} {a : HandlerAct} (hstep : HandlerCase s h a s')
    (hreq : ∀ msg ∈ s.reqQ, requestPath msg ≠ none) : ∀ msg ∈ s'.reqQ, requestPath msg ≠ none := by
  cases hstep with
  | request p hfree =>
    intro msg hmsg
    rcases List.mem_append.mp hmsg with hold | hnew
    · exact hreq msg hold
    · rw [List.mem_singleton.mp hnew, requestPath_requestText]
      exact Option.some_ne_none p.bytes
  | requestFails | msgrcv | msgrcvFails | preadFails | chunk | shortSend | finish => exact hreq

theorem Handler.whole_consume (path : Bytes) (r : Response) : (Handler.consume path r).Whole := by
  unfold Handler.consume
  split
  · rename_i hnone
    refine ⟨r, rfl, ?_⟩
    rw [hnone]
  · rename_i fileLen hsome
    exact ⟨hsome, Nat.zero_le fileLen⟩

omit [DecidableEq W] in
theorem handler_whole {s s' : St H W} {h : H} {a : HandlerAct}
    (hok : (Act.handler h a : Act H W).succeeds = true) (hstep : HandlerCase s h a s')
    (hinv : SeqInv files s) : ∀ h, (s'.handler h).Whole := by
  have hwhole := hinv.whole h
  cases hstep with
  | request p hfree => exact forall_update hinv.whole h trivial
  | msgrcv path r rest hh hq => exact forall_update hinv.whole h (Handler.whole_consume path r)
  | chunk n path r fileLen sent hh hlt hn hle =>
    apply forall_update hinv.whole h
    obtain ⟨content, _, hlen, _, hseg⟩ := hinv.sending hh
    rw [hh] at hwhole
    refine ⟨hwhole.1, ?_⟩
    -- no more than what the segment has, which is the file
    rw [hseg hlt] at hle ⊢
    rw [List.length_append, List.length_take, List.length_drop]
    omega
  | finish path r fileLen sent hh hlt =>
    apply forall_update hinv.whole h
    rw [hh] at hwhole
    refine ⟨r, rfl, ?_⟩
    rw [hwhole.1]
    show fileLen ≤ sent.length
    omega
  | requestFails | msgrcvFails | preadFails => cases hok
  | shortSend n m path r fileLen sent hh hlt hm hle =>
    simp [Act.succeeds] at hok
    omega

omit [DecidableEq W] in
theorem handler_seq {s s' : St H W} {h : H} {a : HandlerAct}
    (hok : Sequential s (.handler h a)) (hstep : HandlerCase s h a s') (hinv : SeqInv files s) :
    SeqInv files s' := by
  rcases hok with ⟨hsucceeds, hseq⟩
  have hnofail : a ≠ .msgrcvFails := by
    intro heq
    rw [heq] at hsucceeds
    cases hsucceeds
  have hmatching := handler_inv (hinv.inOrder_handler hsucceeds hstep) hstep hinv.matching
  have hsegment := handler_segInv hstep hinv.segment
  have husable := handler_usable hstep hinv.usable
  have hbalanced := handler_balanced hnofail hstep hinv.balanced
  have hone := oneCall_step hseq hstep hinv.oneCall
  have hasked := handler_asked hseq hstep hinv.asked
  have hrequests := handler_requests hstep hinv.requests
  have hwhole := handler_whole hsucceeds hstep hinv
  -- the workers' part is as it was
  cases hstep with
  | request | requestFails | msgrcv | msgrcvFails | preadFails | chunk | shortSend | finish =>
    exact ⟨hmatching, hsegment, husable, hbalanced, hone, hasked, hinv.serving, hrequests,
      hinv.readable, hinv.command, hwhole⟩

/-! ## Worker steps -/

theorem Worker.path_of_free {x : Worker} (h : x.holding = false) : x.path = none := by
  cases x with
  | idle | receiving | removing | posted | returned => rfl
  | received | lookup | missing | statFailed | found | truncating | copying => cases h

omit [DecidableEq H] in
theorem worker_serving {s s' : St H W} {w : W} {a : WorkerAct}
    (hok : (Act.worker w a : Act H W).succeeds = true) (hstep : WorkerCase files s w a s')
    (hinv : SeqInv files s) : Slot Worker.path s'.worker s'.serving := by
  cases hstep with
  | takeCommand hw | postCommand _ hw | takeResponse _ _ hw | truncate _ _ hw | copy _ _ _ _ hw
  | postResponse hw =>
    exact hinv.serving.keep (by rw [hw]; rfl)
  | missing msg path hw hp hf | found msg path content hw hp hf =>
    -- the path is the one of the message
    apply hinv.serving.keep
    rw [hw]
    exact hp.symm
  | msgrcv msg rest hw hq =>
    have hone := hinv.one
    rw [hq, List.length_cons] at hone
    -- nobody else has a request
    have hfree : ∀ w', (s.worker w').path = none := by
      intro w'
      apply Worker.path_of_free
      exact countThreads_eq_zero.mp (by omega) w'
    have hne := hinv.requests msg (by rw [hq]; exact List.mem_cons_self)
    obtain ⟨path, hpath⟩ := Option.ne_none_iff_exists'.mp hne
    have htaken : (Worker.received msg).path = some path := hpath
    show Slot Worker.path (Function.update s.worker w (.received msg))
      (s.serving ++ (requestPath msg).toList)
    rw [hpath]
    exact hinv.serving.put hfree htaken
  | msgsnd r next ha =>
    obtain ⟨hpath, hnext⟩ := Worker.answer_path ha
    exact hinv.serving.clear hpath hnext
  | crash => exact hinv.serving
  | msgrcvFails | fstatFails | msgsndFails | removeFails | preadFails => cases hok
  | remove hw =>
    have hin := hinv.balanced.workers w
    rw [hw] at hin
    cases hin

omit [DecidableEq H] in
theorem worker_readable {s s' : St H W} {w : W} {a : WorkerAct}
    (hok : (Act.worker w a : Act H W).succeeds = true) (hstep : WorkerCase files s w a s')
    (hinv : SeqInv files s) : ∀ w, (s'.worker w).Readable := by
  have hold := hinv.readable w
  have hpath : ∀ path : Bytes, some path ≠ none := Option.some_ne_none
  cases hstep with
  | takeCommand hw | postResponse hw =>
    exact forall_update hinv.readable w (by intro h; cases h)
  | msgrcv msg rest hw hq =>
    apply forall_update hinv.readable w
    intro _
    exact hinv.requests msg (by rw [hq]; exact List.mem_cons_self)
  | postCommand msg hw =>
    apply forall_update hinv.readable w
    rw [hw] at hold
    exact hold
  | missing _ path | found _ path | takeResponse path | truncate path | copy _ path =>
    exact forall_update hinv.readable w fun _ => hpath path
  | msgsnd r next ha =>
    apply forall_update hinv.readable w
    intro hhold
    rw [(Worker.answer_holding ha).2] at hhold
    cases hhold
  | crash => exact hinv.readable
  | msgrcvFails | fstatFails | msgsndFails | removeFails | preadFails => cases hok
  | remove hw =>
    have hin := hinv.balanced.workers w
    rw [hw] at hin
    cases hin

theorem Worker.answer_commanding {x next : Worker} {r : Response}
    (h : x.answer = some (r, next)) : next.commanding = x.commanding := by
  rcases Worker.answer_cases h with ⟨path, _, ⟨rfl, rfl⟩ | ⟨rfl, rfl⟩⟩ |
    ⟨path, content, transferred, rfl, _, _, rfl⟩
  · rfl
  · rfl
  · rfl

omit [DecidableEq H] in
theorem worker_command {s s' : St H W} {w : W} {a : WorkerAct}
    (hok : (Act.worker w a : Act H W).succeeds = true) (hstep : WorkerCase files s w a s')
    (hinv : SeqInv files s) :
    s'.commandMutex + countThreads Worker.commanding s'.worker = 1 := by
  have hcommand := hinv.command
  cases hstep with
  | takeCommand hw hm =>
    -- the permit goes to the worker
    have hupd := countThreads_update Worker.commanding s.worker w .receiving
    rw [hw] at hupd
    simp only [Worker.commanding, Bool.toNat_true, Bool.toNat_false] at hupd
    simp only []
    omega
  | postCommand msg hw =>
    -- and comes back
    have hupd := countThreads_update Worker.commanding s.worker w (.lookup msg)
    rw [hw] at hupd
    simp only [Worker.commanding, Bool.toNat_true, Bool.toNat_false] at hupd
    simp only []
    omega
  | msgrcv _ _ hw | missing _ _ hw | found _ _ _ hw | takeResponse _ _ hw | truncate _ _ hw
  | copy _ _ _ _ hw | postResponse hw =>
    rw [← hcommand]
    simp only []
    rw [countThreads_same (by rw [hw]; rfl)]
  | msgsnd r next ha =>
    rw [← hcommand]
    simp only []
    rw [countThreads_same (Worker.answer_commanding ha)]
  | crash => exact hcommand
  | msgrcvFails | fstatFails | msgsndFails | removeFails | preadFails => cases hok
  | remove hw =>
    have hin := hinv.balanced.workers w
    rw [hw] at hin
    cases hin

omit [Fintype H] [Fintype W] [DecidableEq H] in
/-- Workers only take requests away. -/
theorem WorkerCase.reqQ_subset {s s' : St H W} {w : W} {a : WorkerAct}
    (hstep : WorkerCase files s w a s') : ∀ msg ∈ s'.reqQ, msg ∈ s.reqQ := by
  intro msg hmsg
  cases hstep with
  | msgrcv first rest hw hq =>
    rw [hq]
    exact List.mem_cons_of_mem first hmsg
  | takeCommand | msgrcvFails | postCommand | missing | found | fstatFails | msgsnd | msgsndFails
  | remove | removeFails | takeResponse | truncate | preadFails | crash | copy
  | postResponse => exact hmsg

omit [DecidableEq H] [DecidableEq W] [Fintype H] [Fintype W] in
theorem Act.onlyFilesFail_of_succeeds {a : Act H W} (h : a.succeeds = true) :
    a.onlyFilesFail = true ∧ a.readable = true := by
  cases a with
  | handler h a => exact ⟨rfl, rfl⟩
  | worker w a =>
    cases a with
    | copy n => exact ⟨rfl, h⟩
    | msgrcvFails | fstatFails | msgsndFails | removeFails => cases h
    | takeCommand | msgrcv | postCommand | lookup | msgsnd | remove | takeResponse | truncate
    | postResponse => exact ⟨rfl, rfl⟩

theorem worker_seq {s s' : St H W} {w : W} {a : WorkerAct} (hsmall : SmallFiles files)
    (hok : (Act.worker w a : Act H W).succeeds = true) (hstep : WorkerCase files s w a s')
    (hinv : SeqInv files s) : SeqInv files s' := by
  obtain ⟨hhandler, hasked⟩ := hstep.frame
  obtain ⟨hfiles, hread⟩ := Act.onlyFilesFail_of_succeeds hok
  refine ⟨worker_inv (hinv.inOrder_worker hsmall hok hstep) hstep hinv.matching,
    worker_segInv (hinv.alone_worker hstep) hstep hinv.segment,
    worker_usable hfiles hread hstep hinv.usable, worker_balanced hok hstep hinv.balanced,
    ?_, ?_, worker_serving hok hstep hinv, ?_, worker_readable hok hstep hinv,
    worker_command hok hstep hinv, ?_⟩
  · rw [hhandler]
    exact hinv.oneCall
  · rw [hhandler, hasked]
    exact hinv.asked
  · intro msg hmsg
    exact hinv.requests msg (hstep.reqQ_subset msg hmsg)
  · rw [hhandler]
    exact hinv.whole

theorem seq_step (hsmall : SmallFiles files) : ∀ (s : St H W) a s', Sequential s a →
    (sys files).step s a = some s' → SeqInv files s → SeqInv files s' := by
  intro s a s' hok hstep hinv
  rcases sys_step_cases hstep with ⟨h, b, rfl, hcase⟩ | ⟨w, b, rfl, _, hcase⟩
  · exact handler_seq hok hcase hinv
  · exact worker_seq hsmall hok.1 hcase hinv

/-! ## Exact transfers -/

omit [DecidableEq H] [DecidableEq W] in
theorem SeqInv.transferred {s : St H W} (hinv : SeqInv files s) (h : H) :
    (s.handler h).Transferred files := by
  have hwhole := hinv.whole h
  have hexact := hinv.segment.handlers h
  cases hh : s.handler h with
  | idle => trivial
  | waiting path => trivial
  | sending path r fileLen sent =>
    obtain ⟨content, hfile, hlen, hpre, _⟩ := hinv.sending hh
    exact ⟨content, hfile, hlen, hpre⟩
  | finished path resp sent =>
    rw [hh] at hwhole hexact
    obtain ⟨r, rfl, hsent⟩ := hwhole
    have hown := hinv.matching.handlers h path r (by rw [hh]; rfl)
    obtain ⟨rfl, hanswer⟩ := hown
    cases hfile : files r.path with
    | none =>
      have hread : readResponse r.text = none := by
        rw [hanswer.1.mpr hfile]
        decide
      rw [hread] at hsent
      simp only [Handler.Transferred, hfile]
      exact ⟨⟨r, rfl, hread⟩, hsent⟩
    | some content =>
      have hread := hanswer.2 content hfile
      rw [hread] at hsent
      simp only [Handler.Transferred, hfile]
      refine ⟨⟨r, rfl, hread⟩, ?_⟩
      -- a beginning of the file that is as long as the file
      have hpre : sent <+: (files r.path).getD [] := hexact
      rw [hfile] at hpre
      exact hpre.eq_of_length (le_antisymm hpre.length_le hsent)

end IntroOS.Cache
