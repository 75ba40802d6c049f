import IntroOS.Cache.Tickets

/-! # Conservation of messages

Without a failing call, no message is lost and none is made up:

* `Conserved`: the handlers at `msgrcv` are as many as the requests in the queue, in the hands
  of workers and answered in the other queue; every ticket is taken by one worker and answered
  once; when all calls have returned both queues are empty;
* `cache_messages_conserved`: this holds in every run in which no call fails.
-/

namespace IntroOS.Cache

variable {H W : Type*}

/-- At `msgrcv`. -/
def Handler.waits : Handler → Bool
  | .waiting _ => true
  | .idle | .sending _ _ _ _ | .finished _ _ _ => false

/-- Not on the way out of the loop. -/
def Worker.inLoop : Worker → Bool
  | .statFailed _ | .removing | .returned => false
  | .idle | .receiving | .received _ | .lookup _ | .missing _ | .found _ _ | .truncating _ _
  | .copying _ _ _ | .posted => true

/-- No worker is on its way out. -/
def AllInLoop (worker : W → Worker) : Prop := ∀ w, (worker w).inLoop = true

theorem AllInLoop.update [DecidableEq W] {worker : W → Worker} (h : AllInLoop worker) (w : W)
    {v : Worker} (hv : v.inLoop = true) : AllInLoop (Function.update worker w v) :=
  forall_update (P := fun x : Worker => x.inLoop = true) h w hv

/-- Every waiting handler has its request, or the answer to it, somewhere. -/
structure Balanced [Fintype H] [Fintype W] (s : St H W) : Prop where
  count : countThreads Handler.waits s.handler =
    s.reqQ.length + countThreads Worker.holding s.worker + s.respQ.length
  workers : AllInLoop s.worker

/-- What is conserved, for a state and the record of how it was reached. -/
structure Conserved [Fintype H] [Fintype W] (s : St H W) (t : Tickets H W) : Prop where
  balanced : Balanced s
  /-- the tickets taken and those in the queue are all tickets, in their order -/
  taken : t.taken.map Prod.snd ++ t.reqIds = List.range t.next
  requests : t.reqIds.length = s.reqQ.length
  /-- a taken ticket is held by the worker that took it or was answered once -/
  answered : ∀ w i, (w, i) ∈ t.taken → t.answered.count i = if t.held w = some i then 0 else 1
  held : ∀ w, (t.held w).isSome = (s.worker w).holding
  answered_taken : ∀ i ∈ t.answered, i ∈ t.taken.map Prod.snd
  /-- the answers are consumed in their order, or in the queue -/
  consumed : t.got.map Prod.snd ++ t.respIds.map some = t.answered.map some
  responses : t.respIds.length = s.respQ.length
  /-- all calls have returned -/
  returned : (∀ h, (s.handler h).free = true) →
    s.reqQ = [] ∧ s.respQ = [] ∧
      ∀ i, i < t.next → (∃! w, (w, i) ∈ t.taken) ∧ t.answered.count i = 1

/-- Workers do not touch what belongs to the handlers. -/
theorem WorkerCase.frame [DecidableEq W] {files : Bytes → Option Bytes} {s s' : St H W} {w : W}
    {a : WorkerAct} (hstep : WorkerCase files s w a s') :
    s'.handler = s.handler ∧ s'.asked = s.asked := by
  cases hstep <;> exact ⟨rfl, rfl⟩

/-! ## The balance -/

theorem Handler.waits_of_free {x : Handler} (h : x.free = true) : x.waits = false := by
  cases x <;> first | rfl | cases h

theorem Handler.consume_waits (path : Bytes) (r : Response) :
    (Handler.consume path r).waits = false := by
  unfold Handler.consume
  split
  · rfl
  · rfl

variable [DecidableEq H] [DecidableEq W] [Fintype H] [Fintype W] {files : Bytes → Option Bytes}

theorem balanced_init : ∀ s : St H W, (sys files).Init s → Balanced s := by
  intro s hinit
  rcases hinit with ⟨hreq, hresp, _, _, _, _, hh, hw, _, _⟩
  refine ⟨?_, ?_⟩
  · have hwaits : countThreads Handler.waits s.handler = 0 := by
      rw [countThreads_eq_zero]
      intro h
      rw [hh h]
      rfl
    have hholding : countThreads Worker.holding s.worker = 0 := by
      rw [countThreads_eq_zero]
      intro w
      rw [hw w]
      rfl
    rw [hwaits, hholding, hreq, hresp]
    rfl
  · intro w
    rw [hw w]
    rfl

omit [DecidableEq W] in
theorem handler_balanced {s s' : St H W} {h : H} {a : HandlerAct}
    (hok : a ≠ .msgrcvFails) (hstep : HandlerCase s h a s') (hinv : Balanced s) : Balanced s' := by
  have hcount := hinv.count
  cases hstep with
  | request p hfree =>
    refine ⟨?_, hinv.workers⟩
    -- one more waits, and there is one request more
    have hupd := countThreads_update Handler.waits s.handler h (.waiting p.bytes)
    rw [Handler.waits_of_free hfree] at hupd
    simp only [Handler.waits, Bool.toNat_true, Bool.toNat_false] at hupd
    simp only [List.length_append, List.length_singleton]
    omega
  | msgrcv path r rest hh hq =>
    refine ⟨?_, hinv.workers⟩
    -- one less waits, and there is one response less
    have hupd := countThreads_update Handler.waits s.handler h (.consume path r)
    rw [hh, Handler.consume_waits] at hupd
    simp only [Handler.waits, Bool.toNat_true, Bool.toNat_false] at hupd
    rw [hq, List.length_cons] at hcount
    simp only []
    omega
  | msgrcvFails path hh => exact absurd rfl hok
  | requestFails p hfree =>
    refine ⟨?_, hinv.workers⟩
    rw [← hcount]
    exact countThreads_same (Handler.waits_of_free hfree).symm
  | preadFails _ path r fileLen sent hh | shortSend _ _ path r fileLen sent hh
  | chunk _ path r fileLen sent hh | finish path r fileLen sent hh =>
    refine ⟨?_, hinv.workers⟩
    rw [← hcount]
    exact countThreads_same (by rw [hh]; rfl)

omit [DecidableEq H] in
/-- A worker that goes on with what it has. -/
theorem Balanced.move {s s' : St H W} (hinv : Balanced s) {w : W} {v : Worker}
    (hhandler : s'.handler = s.handler) (hreq : s'.reqQ = s.reqQ) (hresp : s'.respQ = s.respQ)
    (hworker : s'.worker = Function.update s.worker w v) (hv : v.inLoop = true)
    (hhold : v.holding = (s.worker w).holding) : Balanced s' := by
  refine ⟨?_, ?_⟩
  · rw [hhandler, hreq, hresp, hworker, countThreads_same hhold]
    exact hinv.count
  · rw [hworker]
    exact hinv.workers.update w hv

omit [DecidableEq H] in
theorem worker_balanced {s s' : St H W} {w : W} {a : WorkerAct}
    (hok : (Act.worker w a : Act H W).succeeds = true) (hstep : WorkerCase files s w a s')
    (hinv : Balanced s) : Balanced s' := by
  have hcount := hinv.count
  cases hstep with
  | takeCommand hw | postCommand _ hw | missing _ _ hw | found _ _ _ hw | takeResponse _ _ hw
  | truncate _ _ hw | copy _ _ _ _ hw | postResponse hw =>
    exact hinv.move rfl rfl rfl rfl rfl (by rw [hw]; rfl)
  | crash => exact ⟨hinv.count, hinv.workers⟩
  | msgrcv msg rest hw hq =>
    refine ⟨?_, hinv.workers.update w rfl⟩
    -- from the queue into the hands of the worker
    have hupd := countThreads_update Worker.holding s.worker w (.received msg)
    rw [hw] at hupd
    simp only [Worker.holding, Bool.toNat_true, Bool.toNat_false] at hupd
    rw [hq, List.length_cons] at hcount
    simp only []
    omega
  | msgsnd r next ha =>
    obtain ⟨hhold, hnext⟩ := Worker.answer_holding ha
    refine ⟨?_, hinv.workers.update w ?_⟩
    · -- from the hands of the worker into the other queue
      have hupd := countThreads_update Worker.holding s.worker w next
      rw [hhold, hnext] at hupd
      simp only [Bool.toNat_true, Bool.toNat_false] at hupd
      simp only [List.length_append, List.length_singleton]
      omega
    · -- `fstat` did not fail
      have hin := hinv.workers w
      rcases Worker.answer_cases ha with ⟨path, _, ⟨_, rfl⟩ | ⟨hw, _⟩⟩ | ⟨_, _, _, _, _, _, rfl⟩
      · rfl
      · rw [hw] at hin
        cases hin
      · rfl
  | msgrcvFails | msgsndFails | removeFails | fstatFails | preadFails => cases hok
  | remove hw =>
    have hin := hinv.workers w
    rw [hw] at hin
    cases hin

omit [DecidableEq H] [DecidableEq W] in
/-- When nobody waits there is nothing left anywhere. -/
theorem Balanced.quiet {s : St H W} (hinv : Balanced s) (hfree : ∀ h, (s.handler h).waits = false) :
    s.reqQ = [] ∧ s.respQ = [] ∧ ∀ w, (s.worker w).holding = false := by
  have hcount := hinv.count
  rw [countThreads_eq_zero.mpr hfree] at hcount
  refine ⟨?_, ?_, ?_⟩
  · exact List.eq_nil_of_length_eq_zero (by omega)
  · exact List.eq_nil_of_length_eq_zero (by omega)
  · exact countThreads_eq_zero.mp (by omega)

/-! ## One request at a time -/

/-- A handler begins a call only when no other one is in a call. -/
def InSequence (s : St H W) : Act H W → Prop
  | .handler _ (.request _) | .handler _ (.requestFails _) => ∀ h, (s.handler h).free = true
  | .handler _ _ | .worker _ _ => True

instance (s : St H W) : (a : Act H W) → Decidable (InSequence s a)
  | .handler _ (.request _) | .handler _ (.requestFails _) =>
    inferInstanceAs (Decidable (∀ h, (s.handler h).free = true))
  | .handler _ .msgrcv | .handler _ .msgrcvFails | .handler _ (.chunk _ _) | .handler _ .finish
  | .worker _ _ => .isTrue trivial

def Handler.busy (x : Handler) : Bool := !x.free

/-- At most one handler is in a call. -/
def OneCall (handler : H → Handler) : Prop := countThreads Handler.busy handler ≤ 1

omit [DecidableEq W] [Fintype W] in
theorem oneCall_step {s s' : St H W} {h : H} {a : HandlerAct} (hseq : InSequence s (.handler h a))
    (hstep : HandlerCase s h a s') (hinv : OneCall s.handler) : OneCall s'.handler := by
  unfold OneCall at hinv ⊢
  cases hstep with
  | request p hfree =>
    -- the first one
    have hupd := countThreads_update Handler.busy s.handler h (.waiting p.bytes)
    have hnone : countThreads Handler.busy s.handler = 0 := by
      rw [countThreads_eq_zero]
      intro h'
      simp only [Handler.busy, hseq h', Bool.not_true]
    simp only [Handler.busy, Handler.free, Bool.not_false, Bool.toNat_true] at hupd
    simp only []
    omega
  | requestFails | msgrcvFails | preadFails | shortSend | finish =>
    exact (countThreads_update_le (by intro hbusy; cases hbusy)).trans hinv
  | msgrcv path r rest hh hq => exact (countThreads_update_le (by intro _; rw [hh]; rfl)).trans hinv
  | chunk n path r fileLen sent hh =>
    exact (countThreads_update_le (by intro _; rw [hh]; rfl)).trans hinv

/-! ## The answers -/

/-- The answers are consumed in the order in which they were posted. -/
def InTurn (t : Tickets H W) : Prop :=
  t.got.map Prod.snd ++ t.respIds.map some = t.answered.map some

omit [Fintype H] [Fintype W] in
theorem inTurn_step {s s' : St H W} {t : Tickets H W} {a : Act H W}
    (hstep : (sys files).step s a = some s') (hloop : AllInLoop s.worker) (hrec : Recorded s t)
    (hinv : InTurn t) : InTurn (t.log a) := by
  rcases sys_step_cases hstep with ⟨h, b, rfl, hcase⟩ | ⟨w, b, rfl, _, hcase⟩
  · cases hcase with
    | msgrcv path r rest hh hq =>
      have hlen := hrec.responses
      rw [hq, List.length_cons] at hlen
      obtain ⟨i, ids, hids⟩ := List.exists_cons_of_length_eq_add_one hlen
      -- the first answer goes from one list to the other
      unfold InTurn at hinv
      rw [hids, List.map_cons] at hinv
      show (t.got ++ [(t.mine h, t.respIds.head?)]).map Prod.snd ++ t.respIds.tail.map some =
        t.answered.map some
      rw [hids, ← hinv, List.map_append, List.append_assoc]
      rfl
    | request | requestFails | msgrcvFails | preadFails | chunk | shortSend | finish => exact hinv
  · cases hcase with
    | msgsnd r next ha =>
      unfold InTurn at hinv ⊢
      simp only [Tickets.log, List.map_append]
      rw [← List.append_assoc, hinv]
    | remove hw =>
      have hin := hloop w
      rw [hw] at hin
      cases hin
    | takeCommand | msgrcv | msgrcvFails | postCommand | missing | found | fstatFails | msgsndFails
    | removeFails | takeResponse | truncate | preadFails | crash | copy | postResponse => exact hinv

/-! ## Whole runs -/

/-- The invariant. -/
def ConservedInv (p : St H W × Tickets H W) : Prop :=
  Balanced p.1 ∧ Recorded p.1 p.2 ∧ InTurn p.2

theorem conserved_init : ∀ p : St H W × Tickets H W, (ticketSys files).Init p → ConservedInv p := by
  intro p hinit
  refine ⟨balanced_init p.1 hinit.1, recorded_init p hinit, ?_⟩
  rw [hinit.2]
  rfl

theorem conserved_step : ∀ (p : St H W × Tickets H W) a p', a.succeeds = true →
    (ticketSys files).step p a = some p' → ConservedInv p → ConservedInv p' := by
  intro p a p' hok hstep hinv
  rcases hinv with ⟨hbal, hrec, hturn⟩
  have hrec' := recorded_step p a p' hstep hrec
  obtain ⟨hs, ht⟩ := Sys.withLog_step.mp hstep
  refine ⟨?_, hrec', ?_⟩
  · rcases sys_step_cases hs with ⟨h, b, rfl, hcase⟩ | ⟨w, b, rfl, _, hcase⟩
    · refine handler_balanced ?_ hcase hbal
      intro heq
      rw [heq] at hok
      cases hok
    · exact worker_balanced hok hcase hbal
  · rw [ht]
    exact inTurn_step hs hbal.workers hrec hturn

omit [DecidableEq H] [DecidableEq W] in
theorem ConservedInv.conserved {s : St H W} {t : Tickets H W} (hinv : ConservedInv (s, t)) :
    Conserved s t := by
  rcases hinv with ⟨hbal, hrec, hturn⟩
  have hheld : ∀ w, (t.held w).isSome = (s.worker w).holding := by
    intro w
    apply hrec.held w
    intro hreturned
    have hin := hbal.workers w
    simp only [] at hin
    rw [hreturned] at hin
    cases hin
  refine ⟨hbal, hrec.taken, hrec.requests, hrec.answered, hheld, hrec.answered_taken, hturn,
    hrec.responses, ?_⟩
  intro hfree
  obtain ⟨hreq, hresp, hidle⟩ := hbal.quiet fun h => Handler.waits_of_free (hfree h)
  refine ⟨hreq, hresp, ?_⟩
  intro i hi
  -- the queue is empty, so the ticket was taken
  have hids : t.reqIds = [] := by
    apply List.eq_nil_of_length_eq_zero
    rw [hrec.requests, hreq]
    rfl
  have hmem : i ∈ t.taken.map Prod.snd := by
    have htaken := hrec.taken
    rw [hids, List.append_nil] at htaken
    rw [htaken]
    exact List.mem_range.mpr hi
  rcases List.mem_map.mp hmem with ⟨⟨w, j⟩, hw, rfl⟩
  refine ⟨⟨w, hw, fun w' hw' => hrec.taken_unique hw' hw⟩, ?_⟩
  have hnone : t.held w = none := by
    have hsome := hheld w
    rw [hidle w] at hsome
    exact Option.isNone_iff_eq_none.mp (Option.isSome_eq_false_iff.mp hsome)
  rw [hrec.answered w j hw, hnone, if_neg (by simp)]

/-- **Conservation.** In every run in which no call fails, for any number of handlers and
workers, requests and responses are conserved. -/
theorem cache_messages_conserved (files : Bytes → Option Bytes) (s : St H W) (t : Tickets H W)
    (hs : (ticketSys files).Reach (fun _ a => a.succeeds = true) (s, t)) : Conserved s t :=
  ConservedInv.conserved (Sys.Reach.inv conserved_init conserved_step (s, t) hs)

/-- Two handlers and a worker: one request is answered with NOT_FOUND and consumed, the other
one is in the queue. -/
theorem cache_messages_conserved_on_the_way :
    ∃ (s : St (Fin 2) (Fin 1)) (t : Tickets (Fin 2) (Fin 1)), Conserved s t ∧
      t.next = 2 ∧ t.taken = [(0, 0)] ∧ t.answered = [0] := by
  have hrun : ((ticketSys fun _ => none).run
      ((St.start [], Tickets.start) : St (Fin 2) (Fin 1) × Tickets (Fin 2) (Fin 1))
      [.handler 0 (.request pathA), .handler 1 (.request pathB), .worker 0 .takeCommand,
        .worker 0 .msgrcv, .worker 0 .postCommand, .worker 0 .lookup, .worker 0 .msgsnd,
        .handler 0 .msgrcv]).map
      (fun p => (p.2.next, p.2.taken, p.2.answered)) = some (2, [(0, 0)], [0]) := by decide
  rcases Option.map_eq_some_iff.mp hrun with ⟨⟨s, t⟩, hs, hout⟩
  rw [Prod.mk.injEq, Prod.mk.injEq] at hout
  refine ⟨s, t, ?_, hout⟩
  apply cache_messages_conserved (fun _ => none)
  exact Sys.reach_of_run (.init ⟨start_init _ _, rfl⟩) (Sys.runOk_of_all (by decide)) hs

end IntroOS.Cache
