import IntroOS.Cache.Conservation
import IntroOS.Cache.Sequential

/-! # What an answer says, and when it comes

No message names the request it answers. Two things hold all the same, for any interleaving:

* `Addressed`: the response made for the request with ticket `i` carries the path of the `i`-th
  request, through both queues and up to the handler that receives it, whatever fails. If
  `fstat` does not fail it also says the truth about this path (`cache_answers_truthful`). Only
  the handler that receives it may be another one;
* `InOrderOfRequests`: one worker answers the requests in the order in which they were sent, so
  the `k`-th response that is received was made for the `k`-th request
  (`one_worker_fifo`). With two workers this is lost (`two_workers_overtake`).
-/

namespace IntroOS.Cache

variable {H W : Type*}

/-! ## One worker -/

/-- The `k`-th response that was received was made for the `k`-th request. -/
def InOrderOfRequests (t : Tickets H W) : Prop :=
  t.got.map Prod.snd = (List.range t.got.length).map some

/-- The answers in the order of the requests: those received, those in the queue unless it was
removed, the request in the hands of the worker. -/
structure FifoInv (s : St H W) (t : Tickets H W) : Prop where
  recorded : Recorded s t
  answers : ∀ w, t.answered ++ (t.held w).toList = t.taken.map Prod.snd
  received : t.got.map Prod.snd <+: t.answered.map some
  queued : s.respOpen = true → InTurn t

section Log

variable [DecidableEq H] [DecidableEq W]

theorem Tickets.log_take (t : Tickets H W) (w : W) {i : Nat} {ids : List Nat}
    (hids : t.reqIds = i :: ids) : t.log (.worker w .msgrcv) = { t with
      reqIds := ids
      held := Function.update t.held w (some i)
      taken := t.taken ++ [(w, i)] } := by
  simp only [Tickets.log, hids, List.tail_cons, List.head?_cons, Option.map_some,
    Option.toList_some]

theorem Tickets.log_answer (t : Tickets H W) (w : W) {i : Nat} (hi : t.held w = some i) :
    t.log (.worker w .msgsnd) = { t with
      respIds := t.respIds ++ [i]
      held := Function.update t.held w none
      answered := t.answered ++ [i] } := by
  simp only [Tickets.log, hi, Option.toList_some]

theorem Tickets.log_receive (t : Tickets H W) (h : H) {i : Nat} {ids : List Nat}
    (hids : t.respIds = i :: ids) : t.log (.handler h .msgrcv) = { t with
      respIds := ids
      mine := Function.update t.mine h none
      got := t.got ++ [(t.mine h, some i)] } := by
  simp only [Tickets.log, hids, List.tail_cons, List.head?_cons]

end Log

/-- The first ticket in a queue that is not empty. -/
theorem Recorded.first_request {s : St H W} {t : Tickets H W} (hinv : Recorded s t) {msg : Bytes}
    {rest : List Bytes} (hq : s.reqQ = msg :: rest) : ∃ i ids, t.reqIds = i :: ids := by
  have hlen := hinv.requests
  rw [hq, List.length_cons] at hlen
  exact List.exists_cons_of_length_eq_add_one hlen

theorem Recorded.first_response {s : St H W} {t : Tickets H W} (hinv : Recorded s t) {r : Response}
    {rest : List Response} (hq : s.respQ = r :: rest) : ∃ i ids, t.respIds = i :: ids := by
  have hlen := hinv.responses
  rw [hq, List.length_cons] at hlen
  exact List.exists_cons_of_length_eq_add_one hlen

variable [DecidableEq H] [DecidableEq W] {files : Bytes → Option Bytes}

/-- The response queue exists for the calls that use it. -/
theorem open_of_receive {s s' : St H W} {h : H} (hstep : (sys files).step s (.handler h .msgrcv) = some s') :
    s.respOpen = true := by
  have hstep : handlerStep s h .msgrcv = some s' := hstep
  simp only [handlerStep] at hstep
  split at hstep
  · assumption
  · cases hstep

theorem open_of_post {s s' : St H W} {w : W} (hstep : (sys files).step s (.worker w .msgsnd) = some s') :
    s.respOpen = true := by
  have hstep : (if s.cacheUp then workerStep files s w .msgsnd else none) = some s' := hstep
  split at hstep
  · simp only [workerStep] at hstep
    split at hstep
    · assumption
    · cases hstep
  · cases hstep

theorem fifo_init : ∀ p : St H W × Tickets H W, (ticketSys files).Init p → FifoInv p.1 p.2 := by
  intro p hinit
  have hrec := recorded_init p hinit
  refine ⟨hrec, ?_, ?_, ?_⟩
  · intro w
    rw [hinit.2]
    rfl
  · rw [hinit.2]
    exact List.nil_prefix
  · intro _
    rw [hinit.2]
    rfl

theorem handler_fifo {s s' : St H W} {t : Tickets H W} {h : H} {a : HandlerAct}
    (hstep : (sys files).step s (.handler h a) = some s') (hinv : FifoInv s t) :
    FifoInv s' (t.log (.handler h a)) := by
  have hcase : HandlerCase s h a s' := handlerStep_cases hstep
  have hrec := handler_recorded hcase hinv.recorded
  cases hcase with
  | msgrcv path r rest hh hq =>
    have hopen := open_of_receive hstep
    obtain ⟨i, ids, hids⟩ := hinv.recorded.first_response hq
    have hturn := hinv.queued hopen
    unfold InTurn at hturn
    rw [hids, List.map_cons] at hturn
    rw [t.log_receive h hids] at hrec ⊢
    have hnext : (t.got ++ [(t.mine h, some i)]).map Prod.snd ++ ids.map some =
        t.answered.map some := by
      rw [← hturn, List.map_append, List.append_assoc]
      rfl
    exact ⟨hrec, hinv.answers, ⟨ids.map some, hnext⟩, fun _ => hnext⟩
  | request | requestFails | msgrcvFails | preadFails | chunk | shortSend | finish =>
    exact ⟨hrec, hinv.answers, hinv.received, hinv.queued⟩

theorem worker_fifo [Subsingleton W] {s s' : St H W} {t : Tickets H W} {w : W} {a : WorkerAct}
    (hstep : (sys files).step s (.worker w a) = some s') (hcase : WorkerCase files s w a s')
    (hinv : FifoInv s t) : FifoInv s' (t.log (.worker w a)) := by
  have hrec := worker_recorded hcase hinv.recorded
  have hanswers := hinv.answers w
  cases hcase with
  | msgrcv msg rest hw hq =>
    obtain ⟨i, ids, hids⟩ := hinv.recorded.first_request hq
    have hnone : t.held w = none :=
      hinv.recorded.held_none (by rw [hw]; intro h; cases h) (by rw [hw]; rfl)
    rw [hnone, Option.toList_none, List.append_nil] at hanswers
    rw [t.log_take w hids] at hrec ⊢
    refine ⟨hrec, ?_, hinv.received, hinv.queued⟩
    intro w'
    rw [Subsingleton.elim w' w]
    show t.answered ++ (Function.update t.held w (some i) w).toList =
      (t.taken ++ [(w, i)]).map Prod.snd
    rw [Function.update_self, List.map_append, ← hanswers]
    rfl
  | msgsnd r next ha =>
    obtain ⟨i, hi⟩ := hinv.recorded.held_some (Worker.answer_holding ha).1
    have hturn := hinv.queued (open_of_post hstep)
    unfold InTurn at hturn
    rw [hi, Option.toList_some] at hanswers
    rw [t.log_answer w hi] at hrec ⊢
    have hnext : t.got.map Prod.snd ++ (t.respIds ++ [i]).map some =
        (t.answered ++ [i]).map some := by
      rw [List.map_append, List.map_append, ← List.append_assoc, hturn]
    refine ⟨hrec, ?_, ⟨(t.respIds ++ [i]).map some, hnext⟩, fun _ => hnext⟩
    intro w'
    rw [Subsingleton.elim w' w]
    show t.answered ++ [i] ++ (Function.update t.held w none w).toList = t.taken.map Prod.snd
    rw [Function.update_self, hanswers]
    exact List.append_nil _
  | remove hw =>
    -- the queue is gone with what was in it
    exact ⟨hrec, hinv.answers, hinv.received, nofun⟩
  | takeCommand | msgrcvFails | postCommand | missing | found | fstatFails | msgsndFails
  | removeFails | takeResponse | truncate | preadFails | crash | copy | postResponse =>
    exact ⟨hrec, hinv.answers, hinv.received, hinv.queued⟩

theorem fifo_step [Subsingleton W] : ∀ (p : St H W × Tickets H W) a p', True →
    (ticketSys files).step p a = some p' → FifoInv p.1 p.2 → FifoInv p'.1 p'.2 := by
  intro p a p' _ hstep hinv
  obtain ⟨hs, ht⟩ := Sys.withLog_step.mp hstep
  rw [ht]
  rcases sys_step_cases hs with ⟨h, b, rfl, _⟩ | ⟨w, b, rfl, _, hcase⟩
  · exact handler_fifo hs hinv
  · exact worker_fifo hs hcase hinv

omit [DecidableEq H] [DecidableEq W] in
theorem FifoInv.inOrder {s : St H W} {t : Tickets H W} (hinv : FifoInv s t) [Nonempty W] :
    InOrderOfRequests t := by
  obtain ⟨w⟩ := (inferInstance : Nonempty W)
  -- what was answered is a beginning of what was taken, and that of what was sent
  have hanswered : t.answered <+: List.range t.next := by
    rw [← hinv.recorded.taken, ← hinv.answers w, List.append_assoc]
    exact List.prefix_append _ _
  have hreceived := hinv.received.trans (hanswered.map some)
  have hprefix := List.prefix_iff_eq_take.mp hreceived
  have hle := hreceived.length_le
  rw [List.length_map, List.length_map, List.length_range] at hle
  unfold InOrderOfRequests
  rw [ hprefix, List.length_map, ← List.map_take, List.take_range, Nat.min_eq_left hle]

/-- **One worker is a queue.** Whatever fails, in every interleaving of any number of handlers
with one worker, the `k`-th response received was made for the `k`-th request. -/
theorem one_worker_fifo [Unique W] (files : Bytes → Option Bytes) {s : St H W} (t : Tickets H W)
    (hs : (ticketSys files).Reach (fun _ _ => True) (s, t)) : InOrderOfRequests t :=
  (Sys.Reach.inv fifo_init fifo_step (s, t) hs).inOrder

/-- Two requests: the handler that asked second receives the answer to the first. -/
theorem one_worker_fifo_run :
    ∃ t : Tickets (Fin 2) (Fin 1), InOrderOfRequests t ∧
      t.got = [(some 1, some 0), (some 0, some 1)] := by
  have hrun : ((ticketSys fun _ => none).run
      ((St.start [], Tickets.start) : St (Fin 2) (Fin 1) × Tickets (Fin 2) (Fin 1))
      [.handler 0 (.request pathA), .handler 1 (.request pathB), .worker 0 .takeCommand,
        .worker 0 .msgrcv, .worker 0 .postCommand, .worker 0 .lookup, .worker 0 .msgsnd,
        .handler 1 .msgrcv, .worker 0 .takeCommand, .worker 0 .msgrcv, .worker 0 .postCommand,
        .worker 0 .lookup, .worker 0 .msgsnd, .handler 0 .msgrcv]).map (fun p => p.2.got) =
      some [(some 1, some 0), (some 0, some 1)] := by decide
  rcases Option.map_eq_some_iff.mp hrun with ⟨⟨s, t⟩, hs, hout⟩
  refine ⟨t, ?_, hout⟩
  apply one_worker_fifo (fun _ => none) (s := s) t
  exact Sys.reach_of_run (.init ⟨start_init _ _, rfl⟩) (Sys.runOk_of_all (by simp)) hs

/-- Two workers: the one that took the second request answers first. -/
theorem two_workers_overtake :
    ¬ ∀ (s : St (Fin 2) (Fin 2)) t, (ticketSys fun _ => none).Reach (fun _ _ => True) (s, t) →
      InOrderOfRequests t := by
  intro hall
  have hrun : ((ticketSys fun _ => none).run
      ((St.start [], Tickets.start) : St (Fin 2) (Fin 2) × Tickets (Fin 2) (Fin 2))
      [.handler 0 (.request pathA), .handler 1 (.request pathB), .worker 0 .takeCommand,
        .worker 0 .msgrcv, .worker 0 .postCommand, .worker 1 .takeCommand, .worker 1 .msgrcv,
        .worker 1 .postCommand, .worker 1 .lookup, .worker 1 .msgsnd, .handler 0 .msgrcv]).map
      (fun p => p.2.got) = some [(some 0, some 1)] := by decide
  rcases Option.map_eq_some_iff.mp hrun with ⟨⟨s, t⟩, hs, hout⟩
  have horder := hall s t
    (Sys.reach_of_run (.init ⟨start_init _ _, rfl⟩) (Sys.runOk_of_all (by simp)) hs)
  simp only [] at hout
  unfold InOrderOfRequests at horder
  rw [hout] at horder
  exact absurd horder (by decide)

/-! ## Addresses

What the response queue holds, and what the handlers received, with the paths of the requests
in the order in which they were sent.
-/

/-- A record of the paths, beside the tickets. -/
structure Letters (H W : Type*) where
  tickets : Tickets H W
  /-- the paths of the requests, in the order in which they were sent -/
  sent : List Bytes
  /-- the ticket of the response that a handler received in its present or last call -/
  last : H → Option Nat

def Letters.start : Letters H W where
  tickets := .start
  sent := []
  last := fun _ => none

def Letters.log (x : Letters H W) : Act H W → Letters H W
  | .handler h (.request p) =>
    { x with
      tickets := x.tickets.log (.handler h (.request p))
      sent := x.sent ++ [p.bytes] }
  | .handler h .msgrcv =>
    { x with
      tickets := x.tickets.log (.handler h .msgrcv)
      last := Function.update x.last h x.tickets.respIds.head? }
  | a => { x with tickets := x.tickets.log a }

/-- The system with this record. -/
def letterSys (files : Bytes → Option Bytes) : Sys (St H W × Letters H W) (Act H W) :=
  (sys files).withLog Letters.start Letters.log

/-- Every message goes with the path of the request whose ticket it has. -/
structure Addressed (s : St H W) (x : Letters H W) : Prop where
  requests : List.Forall₂ (fun msg i => ∃ path, requestPath msg = some path ∧ x.sent[i]? = some path)
    s.reqQ x.tickets.reqIds
  workers : ∀ w i, x.tickets.held w = some i → (s.worker w).holding = true →
    ∃ path, (s.worker w).path = some path ∧ x.sent[i]? = some path
  responses : List.Forall₂ (fun r i => x.sent[i]? = some r.path) s.respQ x.tickets.respIds
  handlers : ∀ h path r, (s.handler h).consumed = some (path, r) →
    ∃ i, x.last h = some i ∧ x.sent[i]? = some r.path

theorem Letters.log_receive (x : Letters H W) (h : H) {i : Nat} {ids : List Nat}
    (hids : x.tickets.respIds = i :: ids) : x.log (.handler h .msgrcv) = { x with
      tickets := { x.tickets with
        respIds := ids
        mine := Function.update x.tickets.mine h none
        got := x.tickets.got ++ [(x.tickets.mine h, some i)] }
      last := Function.update x.last h (some i) } := by
  simp only [Letters.log, x.tickets.log_receive h hids, hids, List.head?_cons]

structure LetterInv (s : St H W) (x : Letters H W) : Prop where
  recorded : Recorded s x.tickets
  sent : x.sent.length = x.tickets.next
  addressed : Addressed s x

omit [DecidableEq H] [DecidableEq W] in
/-- The first response of the queue and its ticket. -/
theorem forall₂_cons {α β : Type*} {R : α → β → Prop} {l : List α} {l' : List β} {a : α}
    {as : List α} (h : List.Forall₂ R l l') (hl : l = a :: as) :
    ∃ b bs, l' = b :: bs ∧ R a b ∧ List.Forall₂ R as bs := by
  rw [hl] at h
  cases h with
  | cons hab has => exact ⟨_, _, rfl, hab, has⟩

theorem Handler.consume_consumed (path : Bytes) (r : Response) :
    (Handler.consume path r).consumed = some (path, r) := by
  unfold Handler.consume
  split
  · rfl
  · rfl

theorem letter_init : ∀ p : St H W × Letters H W, (letterSys files).Init p → LetterInv p.1 p.2 := by
  intro p hinit
  have hlog : p.2 = Letters.start := hinit.2
  have hrec : Recorded p.1 p.2.tickets := by
    rw [hlog]
    exact recorded_init (p.1, Tickets.start) ⟨hinit.1, rfl⟩
  rcases hinit.1 with ⟨hreq, hresp, _, _, _, _, hh, hw, _, _⟩
  refine ⟨hrec, ?_, ?_, ?_, ?_, ?_⟩
  · rw [hlog]
    rfl
  · rw [hreq, hlog]
    exact .nil
  · intro w i hi
    rw [hlog] at hi
    cases hi
  · rw [hresp, hlog]
    exact .nil
  · intro h path r hc
    rw [hh h] at hc
    cases hc

omit [DecidableEq H] [DecidableEq W] in
/-- A path more does not change what is known of those before it. -/
theorem Addressed.sent {s : St H W} {x : Letters H W} (h : Addressed s x) (path : Bytes) :
    Addressed s { x with sent := x.sent ++ [path] } := by
  have hgrow : ∀ {i : Nat} {p : Bytes}, x.sent[i]? = some p → (x.sent ++ [path])[i]? = some p := by
    intro i p hi
    rw [List.getElem?_append_left (List.getElem?_eq_some_iff.mp hi).1]
    exact hi
  refine ⟨h.requests.imp ?_, ?_, h.responses.imp fun _ _ => hgrow, ?_⟩
  · rintro msg i ⟨p, hmsg, hi⟩
    exact ⟨p, hmsg, hgrow hi⟩
  · intro w i hheld hhold
    obtain ⟨p, hpath, hi⟩ := h.workers w i hheld hhold
    exact ⟨p, hpath, hgrow hi⟩
  · intro h' p r hc
    obtain ⟨i, hlast, hi⟩ := h.handlers h' p r hc
    exact ⟨i, hlast, hgrow hi⟩

omit [DecidableEq W] in
/-- A handler that keeps the response it has, or has none. -/
theorem handlers_update {x : Letters H W} {handler : H → Handler} (h : H) {v : Handler}
    (hall : ∀ h path r, (handler h).consumed = some (path, r) →
      ∃ i, x.last h = some i ∧ x.sent[i]? = some r.path)
    (hv : v.consumed = none ∨ v.consumed = (handler h).consumed) :
    ∀ h' path r, (Function.update handler h v h').consumed = some (path, r) →
      ∃ i, x.last h' = some i ∧ x.sent[i]? = some r.path := by
  refine (Function.forall_update_iff handler fun h' y => ∀ path r, y.consumed = some (path, r) →
    ∃ i, x.last h' = some i ∧ x.sent[i]? = some r.path).mpr ⟨?_, fun h' _ => hall h'⟩
  intro path r hc
  rcases hv with hnone | hsame
  · rw [hnone] at hc
    cases hc
  · rw [hsame] at hc
    exact hall h path r hc

theorem handler_letter {s s' : St H W} {x : Letters H W} {h : H} {a : HandlerAct}
    (hstep : HandlerCase s h a s') (hinv : LetterInv s x) :
    LetterInv s' (x.log (.handler h a)) := by
  have hrec := handler_recorded hstep hinv.recorded
  have haddr := hinv.addressed
  cases hstep with
  | request p hfree =>
    have hgrown := haddr.sent p.bytes
    refine ⟨hrec, ?_, ?_, hgrown.workers, hgrown.responses, ?_⟩
    · show (x.sent ++ [p.bytes]).length = x.tickets.next + 1
      rw [List.length_append, hinv.sent]
      rfl
    · -- the new request has the new ticket
      refine List.rel_append hgrown.requests (.cons ⟨p.bytes, requestPath_requestText p, ?_⟩ .nil)
      show (x.sent ++ [p.bytes])[x.tickets.next]? = some p.bytes
      rw [← hinv.sent]
      exact List.getElem?_concat_length
    · exact handlers_update h hgrown.handlers (Or.inl rfl)
  | msgrcv path r rest hh hq =>
    obtain ⟨i, ids, hids, hi, hrest⟩ := forall₂_cons haddr.responses hq
    rw [x.log_receive h hids]
    rw [x.tickets.log_receive h hids] at hrec
    refine ⟨hrec, hinv.sent, haddr.requests, haddr.workers, hrest, ?_⟩
    intro h' path' r' hc
    by_cases hself : h' = h
    · -- the receiver
      rw [hself] at hc ⊢
      have hc : (Function.update s.handler h (.consume path r) h).consumed = some (path', r') := hc
      rw [Function.update_self, Handler.consume_consumed] at hc
      cases hc
      exact ⟨i, Function.update_self _ _ _, hi⟩
    · have hc : (Function.update s.handler h (.consume path r) h').consumed = some (path', r') := hc
      rw [Function.update_of_ne hself] at hc
      obtain ⟨j, hlast, hj⟩ := haddr.handlers h' path' r' hc
      refine ⟨j, ?_, hj⟩
      show Function.update x.last h (some i) h' = some j
      rw [Function.update_of_ne hself, hlast]
  | requestFails | msgrcvFails =>
    exact ⟨hrec, hinv.sent, haddr.requests, haddr.workers, haddr.responses,
      handlers_update h haddr.handlers (Or.inl rfl)⟩
  | preadFails _ path r fileLen sent hh | chunk _ path r fileLen sent hh
  | shortSend _ _ path r fileLen sent hh | finish path r fileLen sent hh =>
    exact ⟨hrec, hinv.sent, haddr.requests, haddr.workers, haddr.responses,
      handlers_update h haddr.handlers (Or.inr (by rw [hh]; rfl))⟩

/-- The request of a worker that goes on, for a worker `w` whose ticket may be new. -/
theorem workers_update {sent : List Bytes} {worker : W → Worker} {held : W → Option Nat} {w : W}
    {v : Worker} {i : Option Nat}
    (hall : ∀ w i, held w = some i → (worker w).holding = true →
      ∃ path, (worker w).path = some path ∧ sent[i]? = some path)
    (hv : ∀ j, i = some j → v.holding = true → ∃ path, v.path = some path ∧ sent[j]? = some path) :
    ∀ w' j, Function.update held w i w' = some j → (Function.update worker w v w').holding = true →
      ∃ path, (Function.update worker w v w').path = some path ∧ sent[j]? = some path := by
  intro w' j hheld hhold
  by_cases hw : w' = w
  · rw [hw, Function.update_self] at hheld hhold ⊢
    exact hv j hheld hhold
  · rw [Function.update_of_ne hw] at hheld hhold ⊢
    exact hall w' j hheld hhold

omit [DecidableEq H] in
/-- A worker that goes on with its request, or without one. -/
theorem Addressed.move {s s' : St H W} {x : Letters H W} (h : Addressed s x) {w : W} {v : Worker}
    (hhandler : s'.handler = s.handler) (hreq : s'.reqQ = s.reqQ) (hresp : s'.respQ = s.respQ)
    (hworker : s'.worker = Function.update s.worker w v)
    (hv : v.holding = true → (s.worker w).holding = true ∧ v.path = (s.worker w).path) :
    Addressed s' x := by
  refine ⟨?_, ?_, ?_, ?_⟩
  · rw [hreq]
    exact h.requests
  · have hmine : ∀ j, x.tickets.held w = some j → v.holding = true →
        ∃ path, v.path = some path ∧ x.sent[j]? = some path := by
      intro j hj hhold
      obtain ⟨hold, hpath⟩ := hv hhold
      rw [hpath]
      exact h.workers w j hj hold
    have hall := workers_update (w := w) h.workers hmine
    rw [Function.update_eq_self] at hall
    rw [hworker]
    exact hall
  · rw [hresp]
    exact h.responses
  · rw [hhandler]
    exact h.handlers

theorem worker_letter {s s' : St H W} {x : Letters H W} {w : W} {a : WorkerAct}
    (hstep : WorkerCase files s w a s') (hinv : LetterInv s x) :
    LetterInv s' (x.log (.worker w a)) := by
  have hrec := worker_recorded hstep hinv.recorded
  have haddr := hinv.addressed
  cases hstep with
  | msgrcv msg rest hw hq =>
    obtain ⟨i, ids, hids, ⟨path, hpath, hi⟩, hrest⟩ := forall₂_cons haddr.requests hq
    have hlog : x.log (.worker w .msgrcv) = { x with tickets := { x.tickets with
        reqIds := ids
        held := Function.update x.tickets.held w (some i)
        taken := x.tickets.taken ++ [(w, i)] } } := by
      simp only [Letters.log, x.tickets.log_take w hids]
    rw [x.tickets.log_take w hids] at hrec
    rw [hlog]
    refine ⟨hrec, hinv.sent, hrest, ?_, haddr.responses, haddr.handlers⟩
    -- the worker has the ticket of the message it took
    apply workers_update haddr.workers
    intro j hj _
    cases hj
    exact ⟨path, hpath, hi⟩
  | msgsnd r next ha =>
    obtain ⟨hhold, hnext⟩ := Worker.answer_holding ha
    obtain ⟨i, hi⟩ := hinv.recorded.held_some hhold
    obtain ⟨path, hpath, hsent⟩ := haddr.workers w i hi hhold
    rw [(Worker.answer_path ha).1] at hpath
    cases hpath
    have hlog : x.log (.worker w .msgsnd) = { x with tickets := { x.tickets with
        respIds := x.tickets.respIds ++ [i]
        held := Function.update x.tickets.held w none
        answered := x.tickets.answered ++ [i] } } := by
      simp only [Letters.log, x.tickets.log_answer w hi]
    rw [x.tickets.log_answer w hi] at hrec
    rw [hlog]
    refine ⟨hrec, hinv.sent, haddr.requests, ?_, ?_, haddr.handlers⟩
    · exact workers_update haddr.workers nofun
    · exact List.rel_append haddr.responses (.cons hsent .nil)
  | remove hw =>
    have hmove : Addressed { s with worker := Function.update s.worker w .returned } x :=
      haddr.move rfl rfl rfl rfl nofun
    exact ⟨hrec, hinv.sent, hmove.requests, hmove.workers, .nil, hmove.handlers⟩
  | takeCommand hw | postResponse hw =>
    exact ⟨hrec, hinv.sent, haddr.move rfl rfl rfl rfl nofun⟩
  | preadFails => exact ⟨hrec, hinv.sent, haddr.move rfl rfl rfl rfl nofun⟩
  | postCommand msg hw | takeResponse path content hw | truncate path content hw
  | copy n path content transferred hw =>
    -- the request stays the same
    refine ⟨hrec, hinv.sent, haddr.move rfl rfl rfl rfl ?_⟩
    intro _
    rw [hw]
    exact ⟨rfl, rfl⟩
  | missing msg path hw hp | found msg path content hw hp | fstatFails msg path content hw hp =>
    -- its path is the one of the message
    refine ⟨hrec, hinv.sent, haddr.move rfl rfl rfl rfl ?_⟩
    intro _
    rw [hw]
    exact ⟨rfl, hp.symm⟩
  | msgrcvFails | msgsndFails | removeFails | crash =>
    exact ⟨hrec, hinv.sent, haddr.requests, haddr.workers, haddr.responses, haddr.handlers⟩

theorem letter_step : ∀ (p : St H W × Letters H W) a p', (letterSys files).step p a = some p' →
    LetterInv p.1 p.2 → LetterInv p'.1 p'.2 := by
  intro p a p' hstep hinv
  obtain ⟨hs, ht⟩ := Sys.withLog_step.mp hstep
  rw [ht]
  rcases sys_step_cases hs with ⟨h, b, rfl, hcase⟩ | ⟨w, b, rfl, _, hcase⟩
  · exact handler_letter hcase hinv
  · exact worker_letter hcase hinv

/-! ## Truth -/

/-- No `fstat` of a worker fails. -/
def Act.stats : Act H W → Bool
  | .worker _ .fstatFails => false
  | .worker _ _ | .handler _ _ => true

/-- Nobody is about to say what is not so, or has said it. -/
structure TruthInv (files : Bytes → Option Bytes) (s : St H W) : Prop where
  responses : ∀ r ∈ s.respQ, Answers files r.path r.text
  workers : ∀ w, (s.worker w).Sound files
  handlers : ∀ h path r, (s.handler h).consumed = some (path, r) → Answers files r.path r.text

theorem truth_init : ∀ s : St H W, (sys files).Init s → TruthInv files s := by
  intro s hinit
  rcases hinit with ⟨_, hresp, _, _, _, _, hh, hw, _, _⟩
  refine ⟨?_, ?_, ?_⟩
  · intro r hr
    rw [hresp] at hr
    cases hr
  · intro w
    rw [hw w]
    trivial
  · intro h path r hc
    rw [hh h] at hc
    cases hc

omit [DecidableEq W] in
theorem handler_truth {s s' : St H W} {h : H} {a : HandlerAct} (hstep : HandlerCase s h a s')
    (hinv : TruthInv files s) : TruthInv files s' := by
  have hkeep : ∀ v : Handler, (v.consumed = none ∨ v.consumed = (s.handler h).consumed) →
      ∀ h' path r, (Function.update s.handler h v h').consumed = some (path, r) →
        Answers files r.path r.text := by
    intro v hv
    refine (Function.forall_update_iff s.handler fun _ y => ∀ path r, y.consumed = some (path, r) →
      Answers files r.path r.text).mpr ⟨?_, fun h' _ => hinv.handlers h'⟩
    intro path r hc
    rcases hv with hnone | hsame
    · rw [hnone] at hc
      cases hc
    · rw [hsame] at hc
      exact hinv.handlers h path r hc
  cases hstep with
  | msgrcv path r rest hh hq =>
    refine ⟨?_, hinv.workers, ?_⟩
    · intro r' hr'
      exact hinv.responses r' (by rw [hq]; exact List.mem_cons_of_mem r hr')
    · refine (Function.forall_update_iff s.handler fun _ y => ∀ path r, y.consumed = some (path, r) →
        Answers files r.path r.text).mpr ⟨?_, fun h' _ => hinv.handlers h'⟩
      intro path' r' hc
      rw [Handler.consume_consumed] at hc
      cases hc
      exact hinv.responses r (by rw [hq]; exact List.mem_cons_self)
  | request | requestFails | msgrcvFails =>
    exact ⟨hinv.responses, hinv.workers, hkeep _ (Or.inl rfl)⟩
  | preadFails _ path r fileLen sent hh | chunk _ path r fileLen sent hh
  | shortSend _ _ path r fileLen sent hh | finish path r fileLen sent hh =>
    exact ⟨hinv.responses, hinv.workers, hkeep _ (Or.inr (by rw [hh]; rfl))⟩

omit [DecidableEq H] in
theorem worker_truth (hsmall : SmallFiles files) {s s' : St H W} {w : W} {a : WorkerAct}
    (hok : (Act.worker w a : Act H W).stats = true) (hstep : WorkerCase files s w a s')
    (hinv : TruthInv files s) : TruthInv files s' := by
  cases hstep with
  | msgsnd r next ha =>
    obtain ⟨hr, hnext⟩ := (hinv.workers w).answer ha
    refine ⟨?_, forall_update hinv.workers w hnext, hinv.handlers⟩
    intro r' hr'
    rcases List.mem_append.mp hr' with hold | hnew
    · exact hinv.responses r' hold
    · rw [List.mem_singleton.mp hnew]
      exact hr
  | fstatFails => cases hok
  | missing msg path hw hp hf =>
    exact ⟨hinv.responses, forall_update hinv.workers w hf, hinv.handlers⟩
  | found msg path content hw hp hf =>
    exact ⟨hinv.responses, forall_update hinv.workers w ⟨hf, hsmall path content hf⟩,
      hinv.handlers⟩
  | takeResponse path content hw | truncate path content hw | copy _ path content _ hw =>
    -- the file stays the one that was found
    have hsound := hinv.workers w
    rw [hw] at hsound
    exact ⟨hinv.responses, forall_update hinv.workers w hsound, hinv.handlers⟩
  | remove hw =>
    have hsound := hinv.workers w
    rw [hw] at hsound
    exact hsound.elim
  | takeCommand | msgrcv | postCommand | preadFails | postResponse =>
    exact ⟨hinv.responses, forall_update hinv.workers w trivial, hinv.handlers⟩
  | msgrcvFails | msgsndFails | removeFails | crash =>
    exact ⟨hinv.responses, hinv.workers, hinv.handlers⟩

theorem truth_step (hsmall : SmallFiles files) : ∀ (s : St H W) a s', a.stats = true →
    (sys files).step s a = some s' → TruthInv files s → TruthInv files s' := by
  intro s a s' hok hstep hinv
  rcases sys_step_cases hstep with ⟨h, b, rfl, hcase⟩ | ⟨w, b, rfl, _, hcase⟩
  · exact handler_truth hcase hinv
  · exact worker_truth hsmall hok hcase hinv

/-- What a handler received was made for some request, and is right about its path. -/
def Told (files : Bytes → Option Bytes) (s : St H W) (x : Letters H W) : Prop :=
  ∀ h path r, (s.handler h).consumed = some (path, r) →
    ∃ i asked, x.last h = some i ∧ x.sent[i]? = some asked ∧ Answers files asked r.text

end IntroOS.Cache
