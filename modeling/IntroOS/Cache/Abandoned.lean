import IntroOS.Cache.Conservation

/-! # Abandoned calls

A handler whose `msgrcv` fails, or whose process ends, has sent its request all the same. The
queues outlive it: `webproxy` does not remove them when it stops, and a handler does not look
into the queue of responses before it sends its own request.

* `proxySys`: the protocol with restarts of the proxy;
* `CleanAnswers`: between calls no response is left, and every response that was consumed is
  the one to the request of its consumer;
* `proxy_answers_clean`: runs without such a call keep this, one request at a time;
* `proxy_answers_shifted`: one failing `msgrcv`, and the next call gets the wrong answer.
-/

namespace IntroOS.Cache

variable {H W : Type*}

/-! ## Restarts -/

inductive ProxyAct (H W : Type*) where
  | base (a : Act H W)
  /-- `webproxy` ends and is started again, with a segment of `total` bytes -/
  | restart (total : Nat)

/-- The handlers are gone; queues, semaphores and workers are not. -/
def restartProxy (s : St H W) (total : Nat) : St H W :=
  { s with
    handler := fun _ => .idle
    asked := []
    seg := ftruncate s.seg total }

/-- The protocol with restarts, and the record of its tickets. -/
def proxySys [DecidableEq H] [DecidableEq W] (files : Bytes → Option Bytes) :
    Sys (St H W × Tickets H W) (ProxyAct H W) where
  Init := (ticketSys files).Init
  step p
    | .base a => (ticketSys files).step p a
    | .restart total => some (restartProxy p.1 total, { p.2 with mine := fun _ => none })

/-- One request at a time, and workers that answer: none of their calls fails. -/
def WorkersAnswer (s : St H W) : ProxyAct H W → Prop
  | .base (.worker w b) => (Act.worker w b : Act H W).succeeds = true
  | .base a => InSequence s a
  | .restart _ => True

/-- No `msgrcv` of a handler fails, and the proxy is not stopped in the middle of one. -/
def CallsEnd (s : St H W) : ProxyAct H W → Prop
  | .base (.handler _ .msgrcvFails) => False
  | .base _ => True
  | .restart _ => ∀ h, (s.handler h).waits = false

section Decide

variable [Fintype H] (s : St H W)

instance : (a : ProxyAct H W) → Decidable (WorkersAnswer s a)
  | .base (.worker w b) => inferInstanceAs (Decidable ((Act.worker w b : Act H W).succeeds = true))
  | .base (.handler h b) => inferInstanceAs (Decidable (InSequence s (.handler h b)))
  | .restart _ => .isTrue trivial

instance : (a : ProxyAct H W) → Decidable (CallsEnd s a)
  | .base (.handler _ .msgrcvFails) => .isFalse id
  | .base (.handler _ (.request _)) | .base (.handler _ (.requestFails _))
  | .base (.handler _ .msgrcv) | .base (.handler _ (.chunk _ _)) | .base (.handler _ .finish)
  | .base (.worker _ _) => .isTrue trivial
  | .restart _ => inferInstanceAs (Decidable (∀ h, (s.handler h).waits = false))

end Decide

/-- Between calls no response is left, and consumed responses are one's own. -/
structure CleanAnswers (s : St H W) (t : Tickets H W) : Prop where
  clean : (∀ h, (s.handler h).free = true) → s.respQ = []
  own : ∀ p ∈ t.got, p.1 = p.2

/-! ## The invariant -/

/-- All tickets under way are that of the last request. -/
structure Tickets.Latest (t : Tickets H W) : Prop where
  requests : ∀ i ∈ t.reqIds, i + 1 = t.next
  responses : ∀ i ∈ t.respIds, i + 1 = t.next
  held : ∀ w, ∀ i ∈ t.held w, i + 1 = t.next

/-- A waiting handler sent the last request. -/
def SentLast (handler : H → Handler) (t : Tickets H W) : Prop :=
  ∀ h, (handler h).waits = true → ∃ i, t.mine h = some i ∧ i + 1 = t.next

structure CleanInv [Fintype H] [Fintype W] (s : St H W) (t : Tickets H W) : Prop where
  balanced : Balanced s
  recorded : Recorded s t
  latest : t.Latest
  sentLast : SentLast s.handler t
  own : ∀ p ∈ t.got, p.1 = p.2

variable [DecidableEq H] [DecidableEq W] [Fintype H] [Fintype W] {files : Bytes → Option Bytes}

theorem clean_init : ∀ p : St H W × Tickets H W, (proxySys files).Init p → CleanInv p.1 p.2 := by
  intro p hinit
  have hrec := recorded_init p hinit
  have hbal := balanced_init p.1 hinit.1
  rcases p with ⟨s, t⟩
  rcases hinit with ⟨⟨_, _, _, _, _, _, hh, _, _, _⟩, ht⟩
  have ht : t = Tickets.start := ht
  rw [ht] at hrec ⊢
  refine ⟨hbal, hrec, ?_, ?_, ?_⟩
  · refine ⟨?_, ?_, ?_⟩
    · intro i hi
      cases hi
    · intro i hi
      cases hi
    · intro w i hi
      cases hi
  · intro h hwaits
    rw [hh h] at hwaits
    cases hwaits
  · intro p hp
    cases hp

/-! ## Handler steps -/

omit [DecidableEq H] [DecidableEq W] in
/-- Between calls no ticket is under way. -/
theorem CleanInv.quiet {s : St H W} {t : Tickets H W} (hinv : CleanInv s t)
    (hfree : ∀ h, (s.handler h).free = true) :
    t.reqIds = [] ∧ t.respIds = [] ∧ ∀ w, t.held w = none := by
  obtain ⟨hreq, hresp, hidle⟩ := hinv.balanced.quiet fun h => Handler.waits_of_free (hfree h)
  have hrec := hinv.recorded
  refine ⟨?_, ?_, ?_⟩
  · apply List.eq_nil_of_length_eq_zero
    rw [hrec.requests, hreq]
    rfl
  · apply List.eq_nil_of_length_eq_zero
    rw [hrec.responses, hresp]
    rfl
  · intro w
    apply hrec.held_none _ (hidle w)
    intro hreturned
    have hin := hinv.balanced.workers w
    rw [hreturned] at hin
    cases hin

omit [DecidableEq W] [Fintype H] [Fintype W] in
/-- A handler that leaves `msgrcv`, or was not there. -/
theorem SentLast.update {handler : H → Handler} {t t' : Tickets H W} (h : SentLast handler t)
    {h₀ : H} {x : Handler} (hx : x.waits = false) (hnext : t'.next = t.next)
    (hmine : ∀ h, h ≠ h₀ → t'.mine h = t.mine h) :
    SentLast (Function.update handler h₀ x) t' := by
  refine (Function.forall_update_iff handler fun h' x => x.waits = true →
    ∃ i, t'.mine h' = some i ∧ i + 1 = t'.next).mpr ⟨?_, ?_⟩
  · intro hwaits
    rw [hx] at hwaits
    cases hwaits
  · intro h' hne hwaits
    rw [hmine h' hne, hnext]
    exact h h' hwaits

/-- The first request after a quiet state is the only one. -/
theorem CleanInv.request {s : St H W} {t : Tickets H W} (hinv : CleanInv s t)
    (hfree : ∀ h, (s.handler h).free = true) (h : H) (p : ReqPath) :
    (t.log (.handler h (.request p))).Latest ∧
      SentLast (Function.update s.handler h (.waiting p.bytes)) (t.log (.handler h (.request p))) := by
  obtain ⟨hreq, hresp, hheld⟩ := hinv.quiet hfree
  refine ⟨⟨?_, ?_, ?_⟩, ?_⟩
  · intro i hi
    have hi : i ∈ t.reqIds ++ [t.next] := hi
    rw [hreq, List.nil_append, List.mem_singleton] at hi
    rw [hi]
    rfl
  · intro i hi
    have hi : i ∈ t.respIds := hi
    rw [hresp] at hi
    cases hi
  · intro w i hi
    have hi : i ∈ t.held w := hi
    rw [hheld w] at hi
    cases hi
  · intro h' hwaits
    by_cases heq : h' = h
    · refine ⟨t.next, ?_, rfl⟩
      show Function.update t.mine h (some t.next) h' = some t.next
      rw [heq, Function.update_self]
    · rw [Function.update_of_ne heq, Handler.waits_of_free (hfree h')] at hwaits
      cases hwaits

/-- The response that is consumed is the one to the last request, which is the handler's own. -/
theorem CleanInv.msgrcv {s : St H W} {t : Tickets H W} (hinv : CleanInv s t) {h : H}
    {path : Bytes} (hh : s.handler h = .waiting path) (hresp : s.respQ ≠ []) :
    (t.log (.handler h .msgrcv)).Latest ∧ ∀ p ∈ (t.log (.handler h .msgrcv)).got, p.1 = p.2 := by
  have hne : t.respIds ≠ [] := by
    intro hnil
    have hlen := hinv.recorded.responses
    rw [hnil] at hlen
    exact hresp (List.eq_nil_of_length_eq_zero hlen.symm)
  obtain ⟨j, rest, hids⟩ := List.exists_cons_of_ne_nil hne
  refine ⟨⟨hinv.latest.requests, ?_, hinv.latest.held⟩, ?_⟩
  · intro i hi
    exact hinv.latest.responses i (List.mem_of_mem_tail hi)
  · intro p hp
    have hp : p ∈ t.got ++ [(t.mine h, t.respIds.head?)] := hp
    rcases List.mem_append.mp hp with hold | hnew
    · exact hinv.own p hold
    · obtain ⟨i, hmine, hi⟩ := hinv.sentLast h (by rw [hh]; rfl)
      have hj := hinv.latest.responses j (by rw [hids]; exact List.mem_cons_self)
      rw [List.mem_singleton.mp hnew, hmine, hids]
      show some i = some j
      congr 1
      omega

theorem handler_clean {s s' : St H W} {t : Tickets H W} {h : H} {a : HandlerAct}
    (hseq : InSequence s (.handler h a)) (hok : a ≠ .msgrcvFails) (hstep : HandlerCase s h a s')
    (hinv : CleanInv s t) : CleanInv s' (t.log (.handler h a)) := by
  have hbal := handler_balanced hok hstep hinv.balanced
  have hrec := handler_recorded hstep hinv.recorded
  cases hstep with
  | request p hfree =>
    obtain ⟨hlatest, hlast⟩ := hinv.request hseq h p
    exact ⟨hbal, hrec, hlatest, hlast, hinv.own⟩
  | msgrcv path r rest hh hq =>
    obtain ⟨hlatest, hown⟩ := hinv.msgrcv hh (by rw [hq]; exact List.cons_ne_nil r rest)
    refine ⟨hbal, hrec, hlatest, ?_, hown⟩
    refine hinv.sentLast.update (Handler.consume_waits path r) rfl ?_
    intro h' heq
    exact Function.update_of_ne heq none t.mine
  | msgrcvFails path hh => exact absurd rfl hok
  | requestFails | preadFails | chunk | shortSend | finish =>
    exact ⟨hbal, hrec, hinv.latest, hinv.sentLast.update rfl rfl fun _ _ => rfl, hinv.own⟩

/-! ## Worker steps -/

omit [Fintype H] [Fintype W] in
theorem worker_latest {s s' : St H W} {t : Tickets H W} {w : W} {a : WorkerAct}
    (hstep : WorkerCase files s w a s') (h : t.Latest) : (t.log (.worker w a)).Latest := by
  cases hstep with
  | msgrcv msg rest hw hq =>
    refine ⟨?_, h.responses, ?_⟩
    · intro i hi
      exact h.requests i (List.mem_of_mem_tail hi)
    · apply forall_update (P := fun x : Option Nat => ∀ i ∈ x, i + 1 = t.next) h.held w
      intro i hi
      exact h.requests i (List.mem_of_mem_head? hi)
  | msgsnd r next ha =>
    refine ⟨h.requests, ?_, ?_⟩
    · intro i hi
      have hi : i ∈ t.respIds ++ (t.held w).toList := hi
      rcases List.mem_append.mp hi with hold | hnew
      · exact h.responses i hold
      · exact h.held w i (Option.mem_toList.mp hnew)
    · apply forall_update (P := fun x : Option Nat => ∀ i ∈ x, i + 1 = t.next) h.held w
      intro i hi
      cases hi
  | remove hw =>
    refine ⟨h.requests, ?_, h.held⟩
    intro i hi
    cases hi
  | takeCommand | msgrcvFails | postCommand | missing | found | fstatFails | msgsndFails
  | removeFails | takeResponse | truncate | preadFails | crash | copy | postResponse => exact h

omit [Fintype H] [Fintype W] in
/-- Workers do not send requests. -/
theorem Tickets.log_worker (t : Tickets H W) (w : W) (a : WorkerAct) :
    (t.log (.worker w a)).next = t.next ∧ (t.log (.worker w a)).mine = t.mine ∧
      (t.log (.worker w a)).got = t.got := by
  cases a <;> exact ⟨rfl, rfl, rfl⟩

theorem worker_clean {s s' : St H W} {t : Tickets H W} {w : W} {a : WorkerAct}
    (hok : (Act.worker w a : Act H W).succeeds = true) (hstep : WorkerCase files s w a s')
    (hinv : CleanInv s t) : CleanInv s' (t.log (.worker w a)) := by
  obtain ⟨hnext, hmine, hgot⟩ := t.log_worker w a
  refine ⟨worker_balanced hok hstep hinv.balanced, worker_recorded hstep hinv.recorded,
    worker_latest hstep hinv.latest, ?_, ?_⟩
  · intro h hwaits
    rw [hstep.frame.1] at hwaits
    rw [hmine, hnext]
    exact hinv.sentLast h hwaits
  · rw [hgot]
    exact hinv.own

/-! ## Whole runs -/

omit [DecidableEq H] [DecidableEq W] in
/-- A restart between two calls loses nothing: nobody waits before, nobody waits after. -/
theorem restart_clean {s : St H W} {t : Tickets H W} (hwaits : ∀ h, (s.handler h).waits = false)
    (hinv : CleanInv s t) (total : Nat) :
    CleanInv (restartProxy s total) { t with mine := fun _ => none } := by
  have hnone : countThreads Handler.waits (restartProxy s total).handler = 0 :=
    countThreads_eq_zero.mpr fun _ => rfl
  have hrec := hinv.recorded
  refine ⟨⟨?_, hinv.balanced.workers⟩, ?_, ?_, ?_, hinv.own⟩
  · have hcount := hinv.balanced.count
    rw [countThreads_eq_zero.mpr hwaits] at hcount
    rw [hnone]
    exact hcount
  · exact ⟨hrec.requests, hrec.responses, hrec.taken, hrec.held, hrec.held_taken, hrec.answered,
      hrec.answered_taken⟩
  · exact ⟨hinv.latest.requests, hinv.latest.responses, hinv.latest.held⟩
  · intro h hwaiting
    cases hwaiting

theorem clean_step : ∀ (p : St H W × Tickets H W) a p', (WorkersAnswer p.1 a ∧ CallsEnd p.1 a) →
    (proxySys files).step p a = some p' → CleanInv p.1 p.2 → CleanInv p'.1 p'.2 := by
  intro p a p' hok hstep hinv
  cases a with
  | restart total =>
    cases hstep
    exact restart_clean hok.2 hinv total
  | base a =>
    have hstep : (ticketSys files).step p a = some p' := hstep
    obtain ⟨hs, ht⟩ := Sys.withLog_step.mp hstep
    rw [ht]
    rcases sys_step_cases hs with ⟨h, b, rfl, hcase⟩ | ⟨w, b, rfl, _, hcase⟩
    · refine handler_clean hok.1 ?_ hcase hinv
      intro heq
      rw [heq] at hok
      exact hok.2
    · exact worker_clean hok.1 hcase hinv

/-- **Clean answers.** In every run, one request at a time, in which workers answer, no
`msgrcv` of a handler fails and the proxy is not stopped in the middle of one, no response is
left between calls, and every consumed response is the one to the consumer's request. -/
theorem proxy_answers_clean (files : Bytes → Option Bytes) (s : St H W) (t : Tickets H W)
    (hs : (proxySys files).Reach (fun p a => WorkersAnswer p.1 a ∧ CallsEnd p.1 a) (s, t)) :
    CleanAnswers s t := by
  have hinv := Sys.Reach.inv clean_init clean_step (s, t) hs
  refine ⟨?_, hinv.own⟩
  intro hfree
  exact (hinv.balanced.quiet fun h => Handler.waits_of_free (hfree h)).2.1

/-! ## Two runs -/

/-- What a worker does for a request for a file that is not in the cache. -/
def serveMissing (w : W) : List (Act H W) :=
  [.worker w .takeCommand, .worker w .msgrcv, .worker w .postCommand, .worker w .lookup,
    .worker w .msgsnd]

/-- The proxy is restarted between two calls, and each call gets its own answer. -/
theorem proxy_answers_clean_restarted :
    ∃ (s : St (Fin 1) (Fin 1)) (t : Tickets (Fin 1) (Fin 1)), CleanAnswers s t ∧
      t.got = [(some 0, some 0), (some 1, some 1)] := by
  have hrun : ((proxySys fun _ => none).run
      ((St.start [], Tickets.start) : St (Fin 1) (Fin 1) × Tickets (Fin 1) (Fin 1))
      ((.base (.handler 0 (.request pathB)) :: (serveMissing 0).map .base ++
        [.base (.handler 0 .msgrcv), .restart 128]) ++
        (.base (.handler 0 (.request pathA)) :: (serveMissing 0).map .base ++
        [.base (.handler 0 .msgrcv)]))).map
      (fun p => p.2.got) = some [(some 0, some 0), (some 1, some 1)] := by decide
  rcases Option.map_eq_some_iff.mp hrun with ⟨⟨s, t⟩, hs, hout⟩
  refine ⟨s, t, ?_, hout⟩
  apply proxy_answers_clean (fun _ => none)
  exact Sys.reach_of_run (.init ⟨start_init _ _, rfl⟩) (by decide) hs

/-- One `msgrcv` fails, and the next call consumes the answer to the request before it. -/
theorem proxy_answers_shifted :
    ¬ ∀ (s : St (Fin 1) (Fin 1)) t,
      (proxySys fun _ => none).Reach (fun p a => WorkersAnswer p.1 a) (s, t) → CleanAnswers s t := by
  intro h
  have hrun : ((proxySys fun _ => none).run
      ((St.start [], Tickets.start) : St (Fin 1) (Fin 1) × Tickets (Fin 1) (Fin 1))
      ((.base (.handler 0 (.request pathB)) :: (serveMissing 0).map .base ++
        [.base (.handler 0 .msgrcvFails)]) ++
        (.base (.handler 0 (.request pathA)) :: (serveMissing 0).map .base ++
        [.base (.handler 0 .msgrcv)]))).map
      (fun p => p.2.got) = some [(some 1, some 0)] := by decide
  rcases Option.map_eq_some_iff.mp hrun with ⟨⟨s, t⟩, hs, hout⟩
  have hown := (h s t (Sys.reach_of_run (.init ⟨start_init _ _, rfl⟩) (by decide) hs)).own
  rw [hout] at hown
  exact absurd (hown _ List.mem_cons_self) (by decide)

end IntroOS.Cache
