import IntroOS.Cache.Sequential

/-! # Transfers come to their end

One request at a time and without failing calls, every schedule of handlers and workers
brings the present transfer to its end:

* `seq_progress`: as long as a handler is in its call, somebody can take a step;
* `rank_step`: every step brings a message or a thread forward, or bytes of the file;
* `cache_transfers_exact`: what such runs do, from any number of them in a row.
-/

namespace IntroOS.Cache

variable {H W : Type*} [DecidableEq H] [DecidableEq W] [Fintype H] [Fintype W]
  {files : Bytes → Option Bytes}

/-! ## Progress -/

/-- A step that is allowed is possible. -/
def CanStep (files : Bytes → Option Bytes) (s : St H W) : Prop :=
  ∃ a s', Sequential s a ∧ (sys files).step s a = some s'

omit [Fintype H] [Fintype W] in
theorem canStep_worker {s s' : St H W} {w : W} {a : WorkerAct} (hup : s.cacheUp = true)
    (hok : (Act.worker w a : Act H W).succeeds = true) (hstep : workerStep files s w a = some s') :
    CanStep files s := by
  refine ⟨.worker w a, s', ⟨hok, trivial⟩, ?_⟩
  show (if s.cacheUp then workerStep files s w a else none) = some s'
  rw [if_pos hup, hstep]

omit [DecidableEq W] [Fintype H] [Fintype W] in
theorem canStep_handler [DecidableEq W] {s s' : St H W} {h : H} {a : HandlerAct}
    (hok : Sequential s (.handler h a)) (hstep : handlerStep s h a = some s') :
    CanStep files s := ⟨.handler h a, s', hok, hstep⟩

/-- A worker inside can go on: to the next chunk, to its answer, or out. -/
theorem SeqInv.inside_canStep {s : St H W} (hinv : SeqInv files s) {w : W}
    (hw : (s.worker w).inside = true) : CanStep files s := by
  have hup := hinv.usable.cacheUp
  have hopen := hinv.usable.respOpen
  have hsized := hinv.usable.sized w
  cases hx : s.worker w with
  | truncating path content =>
    exact canStep_worker (w := w) (a := .truncate) hup rfl (by simp only [workerStep, hx]; rfl)
  | copying path content transferred =>
    rw [hx] at hsized
    have hsize : s.seg.length = content.length := hsized
    by_cases hlt : transferred < content.length
    · have hbuf : ¬ (bufSize < 1 ∨ content.length < transferred + 1) := by
        unfold bufSize
        omega
      have hseg : ¬ s.seg.length < transferred + 1 := by omega
      apply canStep_worker (w := w) (a := .copy 1) hup rfl
      simp only [workerStep, hx, hlt, hbuf, hseg, not_true_eq_false, if_false, one_ne_zero]
      rfl
    · apply canStep_worker (w := w) (a := .msgsnd) hup rfl
      simp only [workerStep, hx, Worker.answer, hlt, hopen, if_false]
      rfl
  | posted =>
    exact canStep_worker (w := w) (a := .postResponse) hup rfl (by simp only [workerStep, hx]; rfl)
  | idle | receiving | received | lookup | missing | statFailed | removing | found | returned =>
    rw [hx] at hw
    cases hw

/-- A worker with a request can go on, or waits for the one inside. -/
theorem SeqInv.holding_canStep {s : St H W} (hinv : SeqInv files s) {w : W}
    (hw : (s.worker w).holding = true) : CanStep files s := by
  have hup := hinv.usable.cacheUp
  have hopen := hinv.usable.respOpen
  have hreadable := hinv.readable w hw
  have hloop := hinv.balanced.workers w
  cases hx : s.worker w with
  | received msg =>
    exact canStep_worker (w := w) (a := .postCommand) hup rfl (by simp only [workerStep, hx]; rfl)
  | lookup msg =>
    rw [hx] at hreadable
    obtain ⟨path, hpath⟩ := Option.ne_none_iff_exists'.mp hreadable
    have hpath : requestPath msg = some path := hpath
    cases hfile : files path with
    | none =>
      apply canStep_worker (w := w) (a := .lookup) hup rfl
      simp only [workerStep, hx, hpath, hfile]
      rfl
    | some content =>
      apply canStep_worker (w := w) (a := .lookup) hup rfl
      simp only [workerStep, hx, hpath, hfile]
      rfl
  | missing path =>
    apply canStep_worker (w := w) (a := .msgsnd) hup rfl
    simp only [workerStep, hx, Worker.answer, hopen]
    rfl
  | found path content =>
    by_cases hm : 0 < s.responseMutex
    · apply canStep_worker (w := w) (a := .takeResponse) hup rfl
      simp only [workerStep, hx, hm, if_true]
      rfl
    · have hpermit := hinv.usable.permit
      obtain ⟨w', hw'⟩ := exists_of_countThreads_pos (p := Worker.inside) (f := s.worker) (by omega)
      exact hinv.inside_canStep hw'
  | truncating | copying => exact hinv.inside_canStep (w := w) (by rw [hx]; rfl)
  | statFailed =>
    rw [hx] at hloop
    cases hloop
  | idle | receiving | removing | posted | returned =>
    rw [hx] at hw
    cases hw

/-- A request in the queue is taken by any worker there is. -/
theorem SeqInv.request_canStep {s : St H W} (hinv : SeqInv files s) (hreq : s.reqQ ≠ []) (w : W) :
    CanStep files s := by
  have hup := hinv.usable.cacheUp
  have hloop := hinv.balanced.workers w
  obtain ⟨msg, rest, hq⟩ := List.exists_cons_of_ne_nil hreq
  have hreceive : ∀ w, s.worker w = .receiving → CanStep files s := by
    intro w hx
    apply canStep_worker (w := w) (a := .msgrcv) hup rfl
    simp only [workerStep, hx, hq]
    rfl
  cases hx : s.worker w with
  | idle =>
    by_cases hm : 0 < s.commandMutex
    · apply canStep_worker (w := w) (a := .takeCommand) hup rfl
      simp only [workerStep, hx, hm, and_self, if_true]
      rfl
    · -- somebody else is about to take it
      have hcommand := hinv.command
      obtain ⟨w', hw'⟩ := exists_of_countThreads_pos (p := Worker.commanding) (f := s.worker)
        (by omega)
      cases hx' : s.worker w' with
      | receiving => exact hreceive w' hx'
      | received msg' => exact hinv.holding_canStep (w := w') (by rw [hx']; rfl)
      | idle | lookup | missing | statFailed | removing | found | truncating | copying | posted
      | returned =>
        rw [hx'] at hw'
        cases hw'
  | receiving => exact hreceive w hx
  | received | lookup | missing | found | truncating | copying =>
    exact hinv.holding_canStep (w := w) (by rw [hx]; rfl)
  | posted => exact hinv.inside_canStep (w := w) (by rw [hx]; rfl)
  | statFailed | removing | returned =>
    rw [hx] at hloop
    cases hloop

theorem seq_progress [Nonempty W] : ∀ s : St H W, SeqInv files s →
    ¬ (∀ h, (s.handler h).free = true) → CanStep files s := by
  intro s hinv hbusy
  have hopen := hinv.usable.respOpen
  rw [not_forall] at hbusy
  rcases hbusy with ⟨h, hh⟩
  cases hx : s.handler h with
  | sending path r fileLen sent =>
    obtain ⟨content, _, hlen, _, hseg⟩ := hinv.sending hx
    by_cases hlt : sent.length < fileLen
    · -- the next byte
      have hbad : ¬ (bufSize < 1 ∨ s.seg.length < sent.length + 1 ∨ 1 < 1) := by
        rw [hseg hlt]
        unfold bufSize
        omega
      apply canStep_handler (h := h) (a := .chunk 1 1) ⟨rfl, trivial⟩
      simp only [handlerStep, hx, hlt, hbad, not_true_eq_false, if_false, if_true, one_ne_zero]
      rfl
    · apply canStep_handler (h := h) (a := .finish) ⟨rfl, trivial⟩
      simp only [handlerStep, hx, hlt, if_false]
      rfl
  | waiting path =>
    -- its request is in one of three places
    have hcount := hinv.balanced.count
    have hpos : 0 < countThreads Handler.waits s.handler := countThreads_pos (i := h) (by rw [hx]; rfl)
    by_cases hreq : s.reqQ = []
    · by_cases hresp : s.respQ = []
      · rw [hreq, hresp] at hcount
        simp only [List.length_nil] at hcount
        obtain ⟨w, hw⟩ := exists_of_countThreads_pos (p := Worker.holding) (f := s.worker) (by omega)
        exact hinv.holding_canStep hw
      · obtain ⟨r, rest, hq⟩ := List.exists_cons_of_ne_nil hresp
        apply canStep_handler (h := h) (a := .msgrcv) ⟨rfl, trivial⟩
        simp only [handlerStep, hx, hopen, hq]
        rfl
    · obtain ⟨w⟩ := (inferInstance : Nonempty W)
      exact hinv.request_canStep hreq w
  | idle | finished =>
    rw [hx] at hh
    exact absurd rfl hh

/-! ## The rank -/

/-- How far a worker is from `msgrcv`, at least. -/
def Worker.stage : Worker → Nat
  | .received _ => 9
  | .lookup _ => 8
  | .missing _ | .found _ _ => 7
  | .truncating _ _ => 6
  | .copying _ _ _ => 5
  | .posted => 3
  | .idle => 1
  | .receiving | .statFailed _ | .removing | .returned => 0

/-- The bytes a worker has to copy. -/
def Worker.left : Worker → Nat
  | .copying _ content transferred => content.length - transferred
  | _ => 0

def Handler.stage : Handler → Nat
  | .waiting _ => 2
  | .sending _ _ _ _ => 1
  | .idle | .finished _ _ _ => 0

/-- The bytes a handler has to send. -/
def Handler.left : Handler → Nat
  | .sending _ _ fileLen sent => fileLen - sent.length
  | _ => 0

/-- A message weighs more than what becomes of it. -/
def St.stages (s : St H W) : Nat :=
  10 * s.reqQ.length + s.respQ.length + ∑ h, (s.handler h).stage + ∑ w, (s.worker w).stage

def St.left (s : St H W) : Nat := ∑ h, (s.handler h).left + ∑ w, (s.worker w).left

def rank (s : St H W) : Nat ×ₗ Nat := toLex (s.stages, s.left)

/-- What a thread at stage `stage` and the messages weigh. -/
def weight (s : St H W) (stage : Nat) : Nat := 10 * s.reqQ.length + s.respQ.length + stage

omit [DecidableEq W] in
/-- A step of a handler, by what changes. -/
theorem rank_handler {s s' : St H W} {h : H} {x : Handler}
    (hhandler : s'.handler = Function.update s.handler h x) (hworker : s'.worker = s.worker)
    (hlt : weight s' x.stage < weight s (s.handler h).stage ∨
      weight s' x.stage = weight s (s.handler h).stage ∧ x.left < (s.handler h).left) :
    rank s' < rank s := by
  have hstage := sum_update Handler.stage s.handler h x
  have hleft := sum_update Handler.left s.handler h x
  unfold weight at hlt
  unfold rank
  rw [Prod.Lex.toLex_lt_toLex]
  unfold St.stages St.left
  simp only [hhandler, hworker]
  omega

omit [DecidableEq H] in
/-- A step of a worker, by what changes. -/
theorem rank_worker {s s' : St H W} {w : W} {x : Worker}
    (hworker : s'.worker = Function.update s.worker w x) (hhandler : s'.handler = s.handler)
    (hlt : weight s' x.stage < weight s (s.worker w).stage ∨
      weight s' x.stage = weight s (s.worker w).stage ∧ x.left < (s.worker w).left) :
    rank s' < rank s := by
  have hstage := sum_update Worker.stage s.worker w x
  have hleft := sum_update Worker.left s.worker w x
  unfold weight at hlt
  unfold rank
  rw [Prod.Lex.toLex_lt_toLex]
  unfold St.stages St.left
  simp only [hhandler, hworker]
  omega

theorem Handler.consume_stage (path : Bytes) (r : Response) : (Handler.consume path r).stage ≤ 1 := by
  unfold Handler.consume
  split
  · exact Nat.zero_le 1
  · exact Nat.le_refl 1

omit [DecidableEq W] in
theorem handler_rank {s s' : St H W} {h : H} {a : HandlerAct}
    (hok : Sequential s (.handler h a)) (hbusy : ¬ ∀ h, (s.handler h).free = true)
    (hstep : HandlerCase s h a s') : rank s' < rank s := by
  rcases hok with ⟨hsucceeds, hseq⟩
  cases hstep with
  | request | requestFails => exact absurd hseq hbusy
  | msgrcv path r rest hh hq =>
    refine rank_handler rfl rfl (Or.inl ?_)
    have hconsume := Handler.consume_stage path r
    rw [hh]
    show 10 * s.reqQ.length + rest.length + _ < 10 * s.reqQ.length + s.respQ.length + 2
    rw [hq, List.length_cons]
    omega
  | chunk n path r fileLen sent hh hlt hn hle =>
    -- fewer bytes to send
    refine rank_handler rfl rfl (Or.inr ?_)
    rw [hh]
    refine ⟨rfl, ?_⟩
    show fileLen - (sent ++ (s.seg.drop sent.length).take n).length < fileLen - sent.length
    rw [List.length_append, List.length_take, List.length_drop]
    omega
  | finish path r fileLen sent hh hlt =>
    refine rank_handler rfl rfl (Or.inl ?_)
    rw [hh]
    exact Nat.lt_succ_self _
  | msgrcvFails | preadFails => cases hsucceeds
  | shortSend n m path r fileLen sent hh hlt hm hle =>
    simp [Act.succeeds] at hsucceeds
    omega

/-- The post of an answer weighs less than what is left of the request. -/
theorem Worker.answer_stage {x next : Worker} {r : Response} (h : x.answer = some (r, next))
    (hx : x.inLoop = true) : next.stage + 1 < x.stage := by
  rcases Worker.answer_cases h with ⟨path, _, ⟨rfl, rfl⟩ | ⟨rfl, rfl⟩⟩ |
    ⟨path, content, transferred, rfl, _, _, rfl⟩
  · show 1 + 1 < 7
    omega
  · cases hx
  · show 3 + 1 < 5
    omega

omit [DecidableEq H] in
theorem worker_rank {s s' : St H W} {w : W} {a : WorkerAct}
    (hok : (Act.worker w a : Act H W).succeeds = true) (hstep : WorkerCase files s w a s')
    (hinv : SeqInv files s) : rank s' < rank s := by
  cases hstep with
  | takeCommand hw | postCommand _ hw | missing _ _ hw | found _ _ _ hw | takeResponse _ _ hw
  | truncate _ _ hw | postResponse hw =>
    -- the next stage
    refine rank_worker rfl rfl (Or.inl ?_)
    rw [hw]
    apply Nat.add_lt_add_left
    simp [Worker.stage]
  | msgrcv msg rest hw hq =>
    refine rank_worker rfl rfl (Or.inl ?_)
    rw [hw]
    show 10 * rest.length + s.respQ.length + 9 < 10 * s.reqQ.length + s.respQ.length + 0
    rw [hq, List.length_cons]
    omega
  | msgsnd r next ha =>
    have hstage := Worker.answer_stage ha (hinv.balanced.workers w)
    refine rank_worker rfl rfl (Or.inl ?_)
    show 10 * s.reqQ.length + (s.respQ ++ [r]).length + next.stage <
      10 * s.reqQ.length + s.respQ.length + (s.worker w).stage
    rw [List.length_append, List.length_singleton]
    omega
  | copy n path content transferred hw hn hle hseg =>
    -- fewer bytes to copy
    refine rank_worker rfl rfl (Or.inr ?_)
    rw [hw]
    refine ⟨rfl, ?_⟩
    show content.length - (transferred + n) < content.length - transferred
    omega
  | crash n path content transferred hw hle hshort =>
    have hsized := hinv.usable.sized w
    rw [hw] at hsized
    have hsize : s.seg.length = content.length := hsized
    omega
  | msgrcvFails | fstatFails | msgsndFails | removeFails | preadFails => cases hok
  | remove hw =>
    have hin := hinv.balanced.workers w
    rw [hw] at hin
    cases hin

theorem rank_step : ∀ (s : St H W) a s', SeqInv files s → ¬ (∀ h, (s.handler h).free = true) →
    Sequential s a → (sys files).step s a = some s' → rank s' < rank s := by
  intro s a s' hinv hbusy hok hstep
  rcases sys_step_cases hstep with ⟨h, b, rfl, hcase⟩ | ⟨w, b, rfl, _, hcase⟩
  · exact handler_rank hok hbusy hcase
  · exact worker_rank hok.1 hcase hinv

/-- **Exact transfers.** In every run without failing calls, one request at a time, every
handler announces and sends its file, or FILE_NOT_FOUND and nothing; and from every state of
such a run, every schedule ends the present call. -/
theorem cache_transfers_exact [Nonempty W] (files : Bytes → Option Bytes)
    (hsmall : SmallFiles files) (s : St H W) (hs : (sys files).Reach Sequential s) :
    (∀ h, (s.handler h).Transferred files) ∧
      (sys files).Inevitable Sequential (fun s => ∀ h, (s.handler h).free = true) s := by
  have hinv := Sys.Reach.inv seq_init (seq_step hsmall) s hs
  refine ⟨hinv.transferred, ?_⟩
  refine Sys.Inevitable.of_rank rank seq_progress ?_ s hinv
  intro s a s' hinv hbusy hok hstep
  exact ⟨seq_step hsmall s a s' hok hstep hinv, rank_step s a s' hinv hbusy hok hstep⟩

theorem twoFiles_small : SmallFiles twoFiles := by
  intro path content hfile
  unfold twoFiles at hfile
  split at hfile
  · cases hfile
    decide
  · split at hfile
    · cases hfile
      decide
    · cases hfile

/-- Two transfers, one after the other. -/
theorem cache_transfers_exact_twice :
    ∃ s : St (Fin 2) (Fin 1),
      ((∀ h, (s.handler h).Transferred twoFiles) ∧
        (sys twoFiles).Inevitable Sequential (fun s => ∀ h, (s.handler h).free = true) s) ∧
      (s.handler 0).output = some (⟨ascii "1\n", ascii "/a"⟩, ascii "x") ∧
      (s.handler 1).output = some (⟨ascii "1\n", ascii "/b"⟩, ascii "y") := by
  have hrun : ((sys twoFiles).run (St.start [] : St (Fin 2) (Fin 1))
      (.handler 0 (.request pathA) :: serveOne ++
        [.handler 0 .msgrcv, .handler 0 (.chunk 1 1), .handler 0 .finish,
          .handler 1 (.request pathB)] ++ serveOne ++
        [.handler 1 .msgrcv, .handler 1 (.chunk 1 1)])).map
      (fun s => ((s.handler 0).output, (s.handler 1).output)) =
      some (some (⟨ascii "1\n", ascii "/a"⟩, ascii "x"),
        some (⟨ascii "1\n", ascii "/b"⟩, ascii "y")) := by decide
  rcases Option.map_eq_some_iff.mp hrun with ⟨s, hs, hout⟩
  rw [Prod.mk.injEq] at hout
  refine ⟨s, ?_, hout⟩
  apply cache_transfers_exact twoFiles twoFiles_small
  exact Sys.reach_of_run (.init (start_init _ _)) (by decide) hs

end IntroOS.Cache
