import IntroOS.Cache.Protocol

/-! # Tickets

A record of a run: requests are numbered in the order in which they are sent, and the number
of a request, its ticket, goes with it from queue to worker to response. Nothing in the code
knows these numbers.

* `Tickets`: where the tickets are, and who took, answered and received which;
* `Tickets.log`: what an action does to them;
* `Recorded`: in every run, whatever fails, a ticket is taken by one worker at most and
  answered once at most (`recorded_step`).
-/

namespace IntroOS.Cache

variable {H W : Type*}

structure Tickets (H W : Type*) where
  /-- the ticket of the next request -/
  next : Nat
  /-- the tickets in the request queue -/
  reqIds : List Nat
  /-- the tickets in the response queue -/
  respIds : List Nat
  /-- the ticket a worker took and did not answer -/
  held : W → Option Nat
  /-- the ticket of a handler's present call -/
  mine : H → Option Nat
  /-- who took which ticket -/
  taken : List (W × Nat)
  /-- the tickets of the responses, in the order they were posted -/
  answered : List Nat
  /-- the own and the consumed ticket of every successful `msgrcv` of a handler -/
  got : List (Option Nat × Option Nat)

def Tickets.start : Tickets H W where
  next := 0
  reqIds := []
  respIds := []
  held := fun _ => none
  mine := fun _ => none
  taken := []
  answered := []
  got := []

/-- What the successful action does to the tickets. -/
def Tickets.log [DecidableEq H] [DecidableEq W] (t : Tickets H W) : Act H W → Tickets H W
  | .handler h (.request _) =>
    { t with
      next := t.next + 1
      reqIds := t.reqIds ++ [t.next]
      mine := Function.update t.mine h (some t.next) }
  | .handler h .msgrcv =>
    { t with
      respIds := t.respIds.tail
      mine := Function.update t.mine h none
      got := t.got ++ [(t.mine h, t.respIds.head?)] }
  | .handler h .msgrcvFails => { t with mine := Function.update t.mine h none }
  | .worker w .msgrcv =>
    { t with
      reqIds := t.reqIds.tail
      held := Function.update t.held w t.reqIds.head?
      taken := t.taken ++ (t.reqIds.head?.map (w, ·)).toList }
  | .worker w .msgsnd =>
    { t with
      respIds := t.respIds ++ (t.held w).toList
      held := Function.update t.held w none
      answered := t.answered ++ (t.held w).toList }
  | .worker _ .remove => { t with respIds := [] }
  | _ => t

/-- The system with the record. -/
def ticketSys [DecidableEq H] [DecidableEq W] (files : Bytes → Option Bytes) :
    Sys (St H W × Tickets H W) (Act H W) :=
  (sys files).withLog Tickets.start Tickets.log

/-- The record changes nothing: the runs with it are the runs of the cache. -/
theorem reach_iff_ticketSys [DecidableEq H] [DecidableEq W] {files : Bytes → Option Bytes}
    {ok : St H W → Act H W → Prop} {s : St H W} :
    (sys files).Reach ok s ↔ ∃ t, (ticketSys files).Reach (fun p a => ok p.1 a) (s, t) := by
  constructor
  · intro hs
    exact Sys.exists_log s hs
  · rintro ⟨t, hs⟩
    exact Sys.Reach.forget (s, t) hs

/-- The worker took a request and did not answer it. -/
def Worker.holding : Worker → Bool
  | .received _ | .lookup _ | .missing _ | .statFailed _ | .found _ _ | .truncating _ _
  | .copying _ _ _ => true
  | .idle | .receiving | .removing | .posted | .returned => false

/-- The tickets follow the messages, and none is taken or answered twice. -/
structure Recorded (s : St H W) (t : Tickets H W) : Prop where
  requests : t.reqIds.length = s.reqQ.length
  responses : t.respIds.length = s.respQ.length
  taken : t.taken.map Prod.snd ++ t.reqIds = List.range t.next
  held : ∀ w, s.worker w ≠ .returned → (t.held w).isSome = (s.worker w).holding
  held_taken : ∀ w i, t.held w = some i → (w, i) ∈ t.taken
  answered : ∀ w i, (w, i) ∈ t.taken → t.answered.count i = if t.held w = some i then 0 else 1
  answered_taken : ∀ i ∈ t.answered, i ∈ t.taken.map Prod.snd

/-! ## Distinct tickets -/

theorem Recorded.nodup {s : St H W} {t : Tickets H W} (h : Recorded s t) :
    (t.taken.map Prod.snd ++ t.reqIds).Nodup := by
  rw [h.taken]
  exact List.nodup_range

/-- A ticket was taken by one worker. -/
theorem Recorded.taken_unique {s : St H W} {t : Tickets H W} (h : Recorded s t) {w w' : W} {i : Nat}
    (hw : (w, i) ∈ t.taken) (hw' : (w', i) ∈ t.taken) : w = w' := by
  have hnodup := (List.nodup_append.mp h.nodup).1
  have heq := List.inj_on_of_nodup_map hnodup hw hw' rfl
  exact congrArg Prod.fst heq

/-- A ticket in the queue was not taken. -/
theorem Recorded.not_taken {s : St H W} {t : Tickets H W} (h : Recorded s t) {i : Nat}
    (hi : i ∈ t.reqIds) : i ∉ t.taken.map Prod.snd := by
  intro hmem
  exact (List.nodup_append.mp h.nodup).2.2 i hmem i hi rfl

/-! ## Steps -/

variable [DecidableEq H] [DecidableEq W] {files : Bytes → Option Bytes}

theorem recorded_init : ∀ p : St H W × Tickets H W, (ticketSys files).Init p →
    Recorded p.1 p.2 := by
  intro p hinit
  rcases hinit with ⟨⟨hreq, hresp, _, _, _, _, _, hw, _, _⟩, ht⟩
  rw [ht]
  refine ⟨?_, ?_, rfl, ?_, ?_, ?_, ?_⟩
  · rw [hreq]
    rfl
  · rw [hresp]
    rfl
  · intro w _
    rw [hw w]
    rfl
  · intro w i hi
    cases hi
  · intro w i hi
    cases hi
  · intro i hi
    cases hi

omit [DecidableEq H] [DecidableEq W] in
/-- A step that moves neither a request nor a response. -/
theorem Recorded.frame {s s' : St H W} {t : Tickets H W} (h : Recorded s t)
    (hreq : s'.reqQ = s.reqQ) (hresp : s'.respQ = s.respQ)
    (hworker : ∀ w, s'.worker w ≠ .returned → (t.held w).isSome = (s'.worker w).holding) :
    Recorded s' t := by
  refine ⟨?_, ?_, h.taken, hworker, h.held_taken, h.answered, h.answered_taken⟩
  · rw [hreq]
    exact h.requests
  · rw [hresp]
    exact h.responses

omit [DecidableEq H] in
/-- A worker that goes on with the request it has, or returns. -/
theorem Recorded.move {s s' : St H W} {t : Tickets H W} (h : Recorded s t)
    (hreq : s'.reqQ = s.reqQ) (hresp : s'.respQ = s.respQ) {w : W} {v : Worker}
    (hworker : s'.worker = Function.update s.worker w v)
    (hv : v = .returned ∨ s.worker w ≠ .returned ∧ v.holding = (s.worker w).holding) :
    Recorded s' t := by
  apply h.frame hreq hresp
  rw [hworker]
  refine (Function.forall_update_iff s.worker
    fun w' x => x ≠ .returned → (t.held w').isSome = x.holding).mpr ⟨?_, fun w' _ => h.held w'⟩
  intro hw
  rcases hv with hv | ⟨hlive, hhold⟩
  · exact absurd hv hw
  · rw [hhold]
    exact h.held w hlive

theorem handler_recorded {s s' : St H W} {t : Tickets H W} {h : H} {a : HandlerAct}
    (hstep : HandlerCase s h a s') (hinv : Recorded s t) :
    Recorded s' (t.log (.handler h a)) := by
  cases hstep with
  | request p hfree =>
    refine ⟨?_, hinv.responses, ?_, hinv.held, hinv.held_taken, hinv.answered, hinv.answered_taken⟩
    · show (t.reqIds ++ [t.next]).length = (s.reqQ ++ [requestText p.bytes]).length
      rw [List.length_append, List.length_append, hinv.requests]
      rfl
    · show t.taken.map Prod.snd ++ (t.reqIds ++ [t.next]) = List.range (t.next + 1)
      rw [← List.append_assoc, hinv.taken, List.range_succ]
  | msgrcv path r rest hh hq =>
    refine ⟨hinv.requests, ?_, hinv.taken, hinv.held, hinv.held_taken, hinv.answered,
      hinv.answered_taken⟩
    show t.respIds.tail.length = rest.length
    rw [List.length_tail, hinv.responses, hq]
    rfl
  | requestFails | msgrcvFails | preadFails | chunk | shortSend | finish =>
    exact ⟨hinv.requests, hinv.responses, hinv.taken, hinv.held, hinv.held_taken, hinv.answered,
      hinv.answered_taken⟩

omit [DecidableEq H] [DecidableEq W] in
/-- A worker that holds no request has no ticket. -/
theorem Recorded.held_none {s : St H W} {t : Tickets H W} (hinv : Recorded s t) {w : W}
    (hw : s.worker w ≠ .returned) (hfree : (s.worker w).holding = false) : t.held w = none := by
  have hheld := hinv.held w hw
  rw [hfree] at hheld
  exact Option.isNone_iff_eq_none.mp (Option.isSome_eq_false_iff.mp hheld)

omit [DecidableEq H] in
/-- A worker goes on with a request and its ticket, or with neither. -/
theorem Recorded.held_update {s : St H W} {t : Tickets H W} (hinv : Recorded s t) (w : W)
    {v : Worker} {i : Option Nat} (hv : i.isSome = v.holding) :
    ∀ w', Function.update s.worker w v w' ≠ .returned →
      (Function.update t.held w i w').isSome = (Function.update s.worker w v w').holding := by
  intro w' hw'
  by_cases heq : w' = w
  · rw [heq, Function.update_self, Function.update_self]
    exact hv
  · rw [Function.update_of_ne heq] at hw'
    rw [Function.update_of_ne heq, Function.update_of_ne heq]
    exact hinv.held w' hw'

/-- A request is taken. -/
theorem Recorded.take {s : St H W} {t : Tickets H W} (hinv : Recorded s t) {w : W} {msg : Bytes}
    {rest : List Bytes} (hw : s.worker w = .receiving) (hq : s.reqQ = msg :: rest)
    (serving : List Bytes) :
    Recorded { s with
      worker := Function.update s.worker w (.received msg)
      reqQ := rest
      serving := serving } (t.log (.worker w .msgrcv)) := by
  have hlen := hinv.requests
  rw [hq, List.length_cons] at hlen
  obtain ⟨i, ids, hids⟩ : ∃ i ids, t.reqIds = i :: ids := List.exists_cons_of_length_eq_add_one hlen
  have hnone : t.held w = none := hinv.held_none (by rw [hw]; intro h; cases h) (by rw [hw]; rfl)
  have hfresh : i ∉ t.taken.map Prod.snd := hinv.not_taken (by rw [hids]; exact List.mem_cons_self)
  have hlog : t.log (.worker w .msgrcv) = { t with
      reqIds := ids
      held := Function.update t.held w (some i)
      taken := t.taken ++ [(w, i)] } := by
    simp only [Tickets.log, hids, List.tail_cons, List.head?_cons, Option.map_some,
      Option.toList_some]
  rw [hlog]
  refine ⟨?_, hinv.responses, ?_, hinv.held_update w rfl, ?_, ?_, ?_⟩
  · rw [hids, List.length_cons] at hlen
    show ids.length = rest.length
    omega
  · have htaken := hinv.taken
    rw [hids] at htaken
    show (t.taken ++ [(w, i)]).map Prod.snd ++ ids = List.range t.next
    rw [← htaken, List.map_append, List.append_assoc]
    rfl
  · refine (Function.forall_update_iff t.held
      fun w' x => ∀ j, x = some j → (w', j) ∈ t.taken ++ [(w, i)]).mpr ⟨?_, ?_⟩
    · intro j hj
      cases hj
      exact List.mem_append_right _ List.mem_cons_self
    · intro w' _ j hj
      exact List.mem_append_left _ (hinv.held_taken w' j hj)
  · intro w' j hj
    show t.answered.count j = if Function.update t.held w (some i) w' = some j then 0 else 1
    rcases List.mem_append.mp hj with hold | hnew
    · -- a ticket taken before
      have hcount := hinv.answered w' j hold
      by_cases heq : w' = w
      · have hne : j ≠ i := by
          intro h
          rw [h] at hold
          exact hfresh (List.mem_map_of_mem hold)
        rw [heq, hnone, if_neg (by simp)] at hcount
        rw [heq, Function.update_self, if_neg (by simpa using Ne.symm hne), hcount]
      · rw [Function.update_of_ne heq, hcount]
    · -- the new one was not answered
      obtain ⟨rfl, rfl⟩ : w' = w ∧ j = i := by simpa using hnew
      rw [Function.update_self, if_pos rfl, List.count_eq_zero]
      intro hmem
      exact hfresh (hinv.answered_taken j hmem)
  · intro j hj
    show j ∈ (t.taken ++ [(w, i)]).map Prod.snd
    rw [List.map_append]
    exact List.mem_append_left _ (hinv.answered_taken j hj)

omit [DecidableEq H] [DecidableEq W] in
/-- The worker that posts an answer had a request, and has none after it. -/
theorem Worker.answer_holding {x next : Worker} {r : Response} (h : x.answer = some (r, next)) :
    x.holding = true ∧ next.holding = false := by
  rcases Worker.answer_cases h with ⟨path, _, ⟨rfl, rfl⟩ | ⟨rfl, rfl⟩⟩ |
    ⟨path, content, transferred, rfl, _, _, rfl⟩
  · exact ⟨rfl, rfl⟩
  · exact ⟨rfl, rfl⟩
  · exact ⟨rfl, rfl⟩

theorem Worker.ne_returned_of_holding {x : Worker} (h : x.holding = true) : x ≠ .returned := by
  intro heq
  rw [heq] at h
  cases h

omit [DecidableEq H] [DecidableEq W] in
theorem Recorded.held_some {s : St H W} {t : Tickets H W} (hinv : Recorded s t) {w : W}
    (hw : (s.worker w).holding = true) : ∃ i, t.held w = some i := by
  have hheld := hinv.held w (Worker.ne_returned_of_holding hw)
  rw [hw] at hheld
  exact Option.isSome_iff_exists.mp hheld

/-- A request is answered. -/
theorem Recorded.answer {s : St H W} {t : Tickets H W} (hinv : Recorded s t) {w : W} {r : Response}
    {next : Worker} (ha : (s.worker w).answer = some (r, next)) (serving : List Bytes) :
    Recorded { s with
      worker := Function.update s.worker w next
      respQ := s.respQ ++ [r]
      serving := serving } (t.log (.worker w .msgsnd)) := by
  obtain ⟨hhold, hnext⟩ := Worker.answer_holding ha
  obtain ⟨i, hi⟩ := hinv.held_some hhold
  have htaken := hinv.held_taken w i hi
  have hlog : t.log (.worker w .msgsnd) = { t with
      respIds := t.respIds ++ [i]
      held := Function.update t.held w none
      answered := t.answered ++ [i] } := by
    simp only [Tickets.log, hi, Option.toList_some]
  rw [hlog]
  refine ⟨hinv.requests, ?_, hinv.taken, hinv.held_update w hnext.symm, ?_, ?_, ?_⟩
  · show (t.respIds ++ [i]).length = (s.respQ ++ [r]).length
    rw [List.length_append, List.length_append, hinv.responses]
    rfl
  · exact (Function.forall_update_iff t.held fun w' x => ∀ j, x = some j → (w', j) ∈ t.taken).mpr
      ⟨nofun, fun w' _ => hinv.held_taken w'⟩
  · intro w' j hj
    show (t.answered ++ [i]).count j = if Function.update t.held w none w' = some j then 0 else 1
    have hcount := hinv.answered w' j hj
    rw [List.count_append, List.count_singleton]
    by_cases hji : j = i
    · -- the ticket that is answered now
      rw [hji] at hj hcount ⊢
      have heq : w' = w := hinv.taken_unique hj htaken
      rw [heq, hi, if_pos rfl] at hcount
      rw [heq, Function.update_self, hcount]
      simp
    · have hbeq : (i == j) = false := by simpa using Ne.symm hji
      by_cases heq : w' = w
      · rw [heq, hi, if_neg (by simpa using Ne.symm hji)] at hcount
        rw [heq, Function.update_self, hcount, hbeq]
        simp
      · rw [Function.update_of_ne heq, hcount, hbeq]
        simp
  · intro j hj
    rcases List.mem_append.mp hj with hold | hnew
    · exact hinv.answered_taken j hold
    · rw [List.mem_singleton.mp hnew]
      exact List.mem_map_of_mem htaken

theorem worker_recorded {s s' : St H W} {t : Tickets H W} {w : W} {a : WorkerAct}
    (hstep : WorkerCase files s w a s') (hinv : Recorded s t) :
    Recorded s' (t.log (.worker w a)) := by
  cases hstep with
  | takeCommand hw | postCommand _ hw | missing _ _ hw | found _ _ _ hw | fstatFails _ _ _ hw
  | takeResponse _ _ hw | truncate _ _ hw | copy _ _ _ _ hw | postResponse hw =>
    -- with the request it has, or with none as before
    exact hinv.move rfl rfl rfl (Or.inr ⟨(by rw [hw]; intro h; cases h), (by rw [hw]; rfl)⟩)
  | preadFails path content transferred hw =>
    -- the request is lost
    exact hinv.move rfl rfl rfl (Or.inl rfl)
  | msgrcvFails hw | msgsndFails | removeFails hw | crash _ _ _ _ hw =>
    exact hinv.frame rfl rfl hinv.held
  | msgrcv msg rest hw hq => exact hinv.take hw hq _
  | msgsnd r next ha => exact hinv.answer ha _
  | remove hw =>
    have hmove : Recorded { s with worker := Function.update s.worker w .returned } t :=
      hinv.move rfl rfl rfl (Or.inl rfl)
    exact ⟨hmove.requests, rfl, hmove.taken, hmove.held, hmove.held_taken, hmove.answered,
      hmove.answered_taken⟩

/-- Whatever fails, no ticket is taken or answered twice. -/
theorem recorded_step : ∀ (p : St H W × Tickets H W) a p', (ticketSys files).step p a = some p' →
    Recorded p.1 p.2 → Recorded p'.1 p'.2 := by
  intro p a p' hstep hinv
  obtain ⟨hs, ht⟩ := Sys.withLog_step.mp hstep
  rw [ht]
  rcases sys_step_cases hs with ⟨h, b, rfl, hcase⟩ | ⟨w, b, rfl, _, hcase⟩
  · exact handler_recorded hcase hinv
  · exact worker_recorded hcase hinv

end IntroOS.Cache
