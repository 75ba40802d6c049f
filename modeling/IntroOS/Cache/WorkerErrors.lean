import IntroOS.Cache.Conservation
import IntroOS.Cache.Segment

/-! # Failing files

`fstat` and `pread` on a cached file may fail, and a worker then leaves its loop: after a
failed `pread` with `response_mutex` taken and its request unanswered, after a failed `fstat`
having removed the response queue of all.

* `Usable`: `response_mutex` is free when no worker is inside, every request that was taken is
  answered once or still in the hands of a worker, the response queue exists;
* `cache_usable`: runs in which the files are readable keep the cache usable;
* `cache_unusable`: one failing `pread`, or one failing `fstat`, is enough to lose it.
-/

namespace IntroOS.Cache

variable {H W : Type*}

/-- Of the calls of a worker, only `fstat` and `pread` on the file fail. -/
def Act.onlyFilesFail : Act H W → Bool
  | .worker _ .msgrcvFails | .worker _ .msgsndFails | .worker _ .removeFails => false
  | .worker _ _ | .handler _ _ => true

/-- `fstat` succeeds and `pread` returns something. -/
def Act.readable : Act H W → Bool
  | .worker _ .fstatFails => false
  | .worker _ (.copy n) => n != 0
  | .worker _ _ | .handler _ _ => true

structure Usable (s : St H W) (t : Tickets H W) : Prop where
  cacheUp : s.cacheUp = true
  mutex : (∀ w, (s.worker w).inside = false) → s.responseMutex = 1
  /-- answered once, or not yet -/
  answered : ∀ w i, (w, i) ∈ t.taken → t.answered.count i = 1 ∨
    t.answered.count i = 0 ∧ t.held w = some i ∧ (s.worker w).holding = true
  respOpen : s.respOpen = true

/-! ## The invariant -/

/-- The segment of a worker that copies has the size of its file. -/
def Worker.Sized (size : Nat) : Worker → Prop
  | .copying _ content _ => size = content.length
  | _ => True

/-- `response_mutex` has one permit: in the semaphore, or with the worker inside. -/
structure UsableInv [Fintype W] (s : St H W) : Prop where
  cacheUp : s.cacheUp = true
  respOpen : s.respOpen = true
  permit : s.responseMutex + countThreads Worker.inside s.worker = 1
  sized : ∀ w, (s.worker w).Sized s.seg.length
  workers : AllInLoop s.worker

theorem Worker.sized_of_outside {x : Worker} (h : x.inside = false) (size : Nat) : x.Sized size := by
  cases x with
  | copying path content transferred => cases h
  | idle | receiving | received | lookup | missing | statFailed | removing | found | truncating
  | posted | returned => trivial

variable [DecidableEq H] [DecidableEq W] [Fintype W] {files : Bytes → Option Bytes}

theorem usable_init : ∀ s : St H W, (sys files).Init s → UsableInv s := by
  intro s hinit
  rcases hinit with ⟨_, _, hopen, hup, _, hmutex, _, hw, _, _⟩
  refine ⟨hup, hopen, ?_, ?_, ?_⟩
  · have hinside : countThreads Worker.inside s.worker = 0 := by
      rw [countThreads_eq_zero]
      intro w
      rw [hw w]
      rfl
    rw [hmutex, hinside]
  · intro w
    rw [hw w]
    trivial
  · intro w
    rw [hw w]
    rfl

omit [DecidableEq W] in
/-- Handlers touch nothing of it. -/
theorem handler_usable {s s' : St H W} {h : H} {a : HandlerAct} (hstep : HandlerCase s h a s')
    (hinv : UsableInv s) : UsableInv s' := by
  cases hstep with
  | request | requestFails | msgrcv | msgrcvFails | preadFails | chunk | shortSend | finish =>
    exact ⟨hinv.cacheUp, hinv.respOpen, hinv.permit, hinv.sized, hinv.workers⟩

omit [DecidableEq H] in
/-- A worker that goes on, outside or inside as before, with the segment as it was. -/
theorem UsableInv.move {s s' : St H W} (hinv : UsableInv s) {w : W} {v : Worker}
    (hup : s'.cacheUp = s.cacheUp) (hopen : s'.respOpen = s.respOpen)
    (hmutex : s'.responseMutex = s.responseMutex) (hseg : s'.seg = s.seg)
    (hworker : s'.worker = Function.update s.worker w v)
    (hinside : v.inside = (s.worker w).inside) (hsized : v.Sized s.seg.length)
    (hv : v.inLoop = true) : UsableInv s' := by
  refine ⟨hup.trans hinv.cacheUp, hopen.trans hinv.respOpen, ?_, ?_, ?_⟩
  · rw [hmutex, hworker, countThreads_same hinside]
    exact hinv.permit
  · rw [hseg, hworker]
    exact forall_update hinv.sized w hsized
  · rw [hworker]
    exact hinv.workers.update w hv

omit [DecidableEq H] in
/-- The worker inside may change the segment: the others are outside. -/
theorem UsableInv.write {s : St H W} (hinv : UsableInv s) {w : W} {v : Worker} {seg : Bytes}
    (hw : (s.worker w).inside = true) (hinside : v.inside = true) (hsized : v.Sized seg.length)
    (hv : v.inLoop = true) :
    UsableInv { s with worker := Function.update s.worker w v, seg := seg } := by
  have hpermit := hinv.permit
  refine ⟨hinv.cacheUp, hinv.respOpen, ?_, ?_, hinv.workers.update w hv⟩
  · show s.responseMutex + countThreads Worker.inside (Function.update s.worker w v) = 1
    rw [countThreads_same (hinside.trans hw.symm)]
    exact hpermit
  · refine (Function.forall_update_iff s.worker fun _ x => x.Sized seg.length).mpr ⟨hsized, ?_⟩
    intro w' heq
    apply Worker.sized_of_outside
    by_contra hin
    have hin' : (s.worker w').inside = true := by simpa using hin
    exact heq (eq_of_countThreads_le_one (p := Worker.inside) (by omega) hin' hw)

omit [DecidableEq H] in
theorem worker_usable {s s' : St H W} {w : W} {a : WorkerAct}
    (hfiles : (Act.worker w a : Act H W).onlyFilesFail = true)
    (hread : (Act.worker w a : Act H W).readable = true) (hstep : WorkerCase files s w a s')
    (hinv : UsableInv s) : UsableInv s' := by
  have hpermit := hinv.permit
  cases hstep with
  | takeCommand hw | msgrcv _ _ hw | postCommand _ hw | missing _ _ hw | found _ _ _ hw =>
    -- outside before and after
    exact hinv.move rfl rfl rfl rfl rfl (by rw [hw]; rfl) trivial rfl
  | fstatFails | preadFails => cases hread
  | msgrcvFails | msgsndFails | removeFails => cases hfiles
  | msgsnd r next ha =>
    rcases Worker.answer_cases ha with ⟨path, _, ⟨hw, rfl⟩ | ⟨hw, _⟩⟩ | ⟨_, _, _, hw, _, _, rfl⟩
    · exact hinv.move rfl rfl rfl rfl rfl (by rw [hw]; rfl) trivial rfl
    · -- only after a failed `fstat`
      have hin := hinv.workers w
      rw [hw] at hin
      cases hin
    · exact hinv.move rfl rfl rfl rfl rfl (by rw [hw]; rfl) trivial rfl
  | remove hw =>
    have hin := hinv.workers w
    rw [hw] at hin
    cases hin
  | takeResponse path content hw hm =>
    -- the permit goes to the worker
    refine ⟨hinv.cacheUp, hinv.respOpen, ?_, forall_update hinv.sized w trivial,
      hinv.workers.update w rfl⟩
    have hupd := countThreads_update Worker.inside s.worker w (.truncating path content)
    rw [hw] at hupd
    simp only [Worker.inside, Bool.toNat_true, Bool.toNat_false] at hupd
    simp only []
    omega
  | truncate path content hw =>
    exact hinv.write (by rw [hw]; rfl) rfl (ftruncate_length _ _) rfl
  | crash n path content transferred hw hle hshort =>
    -- the segment has the size of the file
    have hsized := hinv.sized w
    rw [hw] at hsized
    have hsize : s.seg.length = content.length := hsized
    omega
  | copy n path content transferred hw hn hle hseg =>
    have hsized := hinv.sized w
    rw [hw] at hsized
    refine hinv.write (by rw [hw]; rfl) rfl ?_ rfl
    show (overwrite s.seg transferred ((content.drop transferred).take n)).length = content.length
    rw [overwrite_length, hsized]
    rw [List.length_take, List.length_drop]
    omega
  | postResponse hw =>
    -- and comes back
    refine ⟨hinv.cacheUp, hinv.respOpen, ?_, forall_update hinv.sized w trivial,
      hinv.workers.update w rfl⟩
    have hupd := countThreads_update Worker.inside s.worker w .idle
    rw [hw] at hupd
    simp only [Worker.inside, Bool.toNat_true, Bool.toNat_false] at hupd
    simp only []
    omega

theorem usable_step : ∀ (s : St H W) a s', (a.onlyFilesFail = true ∧ a.readable = true) →
    (sys files).step s a = some s' → UsableInv s → UsableInv s' := by
  intro s a s' hok hstep hinv
  rcases sys_step_cases hstep with ⟨h, b, rfl, hcase⟩ | ⟨w, b, rfl, _, hcase⟩
  · exact handler_usable hcase hinv
  · exact worker_usable hok.1 hok.2 hcase hinv

/-! ## Whole runs -/

omit [DecidableEq H] [DecidableEq W] in
theorem UsableInv.usable {s : St H W} {t : Tickets H W} (hinv : UsableInv s) (hrec : Recorded s t) :
    Usable s t := by
  refine ⟨hinv.cacheUp, ?_, ?_, hinv.respOpen⟩
  · intro houtside
    have hpermit := hinv.permit
    rw [countThreads_eq_zero.mpr houtside] at hpermit
    exact hpermit
  · intro w i hi
    have hcount := hrec.answered w i hi
    by_cases hheld : t.held w = some i
    · rw [if_pos hheld] at hcount
      refine Or.inr ⟨hcount, hheld, ?_⟩
      -- a worker with a ticket has its request, unless it returned
      rw [← hrec.held w, hheld]
      · rfl
      · intro hreturned
        have hin := hinv.workers w
        rw [hreturned] at hin
        cases hin
    · rw [if_neg hheld] at hcount
      exact Or.inl hcount

/-- **Readable files.** In every run in which the files can be read, the cache stays usable.
The other calls of the workers succeed; those of the handlers may fail. -/
theorem cache_usable (files : Bytes → Option Bytes) (s : St H W) (t : Tickets H W)
    (hs : (ticketSys files).Reach (fun _ a => a.onlyFilesFail = true ∧ a.readable = true) (s, t)) :
    Usable s t := by
  have hinit : ∀ p : St H W × Tickets H W, (ticketSys files).Init p →
      UsableInv p.1 ∧ Recorded p.1 p.2 := by
    intro p hinit
    exact ⟨usable_init p.1 hinit.1, recorded_init p hinit⟩
  have hstep : ∀ (p : St H W × Tickets H W) a p', (a.onlyFilesFail = true ∧ a.readable = true) →
      (ticketSys files).step p a = some p' → UsableInv p.1 ∧ Recorded p.1 p.2 →
      UsableInv p'.1 ∧ Recorded p'.1 p'.2 := by
    intro p a p' hok hstep hinv
    exact ⟨usable_step _ _ _ hok (Sys.withLog_step.mp hstep).1 hinv.1,
      recorded_step p a p' hstep hinv.2⟩
  have hinv := Sys.Reach.inv hinit hstep (s, t) hs
  exact hinv.1.usable hinv.2

/-- A request for a file of one byte, served and consumed while the next one is taken. -/
theorem cache_usable_served :
    ∃ (s : St (Fin 2) (Fin 1)) (t : Tickets (Fin 2) (Fin 1)), Usable s t ∧
      t.taken = [(0, 0), (0, 1)] ∧ t.answered = [0] ∧ s.responseMutex = 1 := by
  have hrun : ((ticketSys twoFiles).run
      ((St.start [], Tickets.start) : St (Fin 2) (Fin 1) × Tickets (Fin 2) (Fin 1))
      (.handler 0 (.request pathA) :: serveOne ++
        [.handler 0 .msgrcv, .handler 0 (.chunk 1 1), .handler 1 (.request pathB),
          .worker 0 .takeCommand, .worker 0 .msgrcv])).map
      (fun p => (p.2.taken, p.2.answered, p.1.responseMutex)) =
      some ([(0, 0), (0, 1)], [0], 1) := by decide
  rcases Option.map_eq_some_iff.mp hrun with ⟨⟨s, t⟩, hs, hout⟩
  rw [Prod.mk.injEq, Prod.mk.injEq] at hout
  refine ⟨s, t, ?_, hout⟩
  apply cache_usable twoFiles
  exact Sys.reach_of_run (.init ⟨start_init _ _, rfl⟩) (Sys.runOk_of_all (by decide)) hs

/-- What a worker does before it reads the file. -/
def beforeRead (h : H) (w : W) : List (Act H W) :=
  [.handler h (.request pathA), .worker w .takeCommand, .worker w .msgrcv, .worker w .postCommand]

/-- A worker whose `pread` fails keeps `response_mutex`; one whose `fstat` fails removes the
response queue. -/
theorem cache_unusable :
    (¬ ∀ (s : St (Fin 1) (Fin 2)) t,
      (ticketSys twoFiles).Reach (fun _ a => a.onlyFilesFail = true) (s, t) →
        (∀ w, (s.worker w).inside = false) → s.responseMutex = 1) ∧
    ¬ ∀ (s : St (Fin 1) (Fin 2)) t,
      (ticketSys twoFiles).Reach (fun _ a => a.onlyFilesFail = true) (s, t) →
        s.respOpen = true := by
  refine ⟨?_, ?_⟩
  · intro h
    have hrun : ((ticketSys twoFiles).run
        ((St.start [], Tickets.start) : St (Fin 1) (Fin 2) × Tickets (Fin 1) (Fin 2))
        (beforeRead 0 0 ++ [.worker 0 .lookup, .worker 0 .takeResponse, .worker 0 .truncate,
          .worker 0 (.copy 0)])).map
        (fun p => (p.1.responseMutex, (p.1.worker 0).inside, (p.1.worker 1).inside)) =
        some (0, false, false) := by decide
    rcases Option.map_eq_some_iff.mp hrun with ⟨⟨s, t⟩, hs, hout⟩
    rw [Prod.mk.injEq, Prod.mk.injEq] at hout
    have hmutex := h s t
      (Sys.reach_of_run (.init ⟨start_init _ _, rfl⟩) (Sys.runOk_of_all (by decide)) hs)
      (Fin.forall_fin_two.mpr hout.2)
    rw [hout.1] at hmutex
    cases hmutex
  · intro h
    have hrun : ((ticketSys twoFiles).run
        ((St.start [], Tickets.start) : St (Fin 1) (Fin 2) × Tickets (Fin 1) (Fin 2))
        (beforeRead 0 0 ++ [.worker 0 .fstatFails, .worker 0 .msgsnd, .worker 0 .remove])).map
        (fun p => p.1.respOpen) = some false := by decide
    rcases Option.map_eq_some_iff.mp hrun with ⟨⟨s, t⟩, hs, hout⟩
    have hopen := h s t
      (Sys.reach_of_run (.init ⟨start_init _ _, rfl⟩) (Sys.runOk_of_all (by decide)) hs)
    rw [hout] at hopen
    cases hopen

end IntroOS.Cache
