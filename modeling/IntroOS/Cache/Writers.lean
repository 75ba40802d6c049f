import IntroOS.Cache.Conservation
import IntroOS.Cache.Sequential

/-! # The workers and what they share

Every interleaving of any number of workers, as long as they get the segment: `shm_open`, `ftruncate`
and `mmap` succeed, whatever else fails.

1. **Semaphores** (`cache_exclusive`): one worker at most is between `sem_wait` and `sem_post` of
   either semaphore, `command_mutex` is never lost, and no write goes past the end of the
   segment;
2. **The segment** (`cache_segment_announced`): from the post of a length to the next
   `ftruncate`, the segment is the file that was announced. It is the handlers that may come
   too late.
-/

namespace IntroOS.Cache

variable {H W : Type*} [DecidableEq H] [DecidableEq W] {files : Bytes → Option Bytes}

/-- The worker has its part of the file in the segment, and it is alone there. -/
structure WriteInv (files : Bytes → Option Bytes) (s : St H W) : Prop where
  mutex : MutexInv s.worker s.responseMutex
  workers : ∀ w, (s.worker w).Filled files s.seg

theorem write_init : ∀ s : St H W, (sys files).Init s → WriteInv files s := by
  intro s hinit
  have hsegment : SegInv files s := segInv_init s hinit
  exact ⟨hsegment.mutex, hsegment.workers⟩

omit [DecidableEq H] in
/-- The worker that fills the segment may write it. -/
theorem WriteInv.write {s : St H W} (hinv : WriteInv files s) {w : W}
    (hfill : (s.worker w).filling = true) {v : Worker} {seg : Bytes} (hv : v.Filled files seg)
    (hmutex : MutexInv (Function.update s.worker w v) s.responseMutex) :
    WriteInv files { s with worker := Function.update s.worker w v, seg := seg } := by
  refine ⟨hmutex, ?_⟩
  refine (Function.forall_update_iff s.worker fun _ x => x.Filled files seg).mpr ⟨hv, ?_⟩
  intro w' hne
  apply (hinv.workers w').of_not_filling
  intro hfill'
  exact hne (hinv.mutex.unique w' w (Worker.inside_of_filling hfill')
    (Worker.inside_of_filling hfill))

omit [DecidableEq H] in
theorem worker_write {s s' : St H W} {w : W} {a : WorkerAct} (hstep : WorkerCase files s w a s')
    (hinv : WriteInv files s) : WriteInv files s' := by
  have hm := hstep.mutex hinv.mutex
  have hfilled := hinv.workers w
  cases hstep with
  | takeCommand | msgrcv | postCommand | missing | fstatFails | preadFails | postResponse
  | remove =>
    exact ⟨hm, forall_update hinv.workers w trivial⟩
  | found msg path content hw hp hf => exact ⟨hm, forall_update hinv.workers w hf⟩
  | msgrcvFails | msgsndFails | removeFails | crash => exact ⟨hm, hinv.workers⟩
  | msgsnd r next ha =>
    refine ⟨hm, forall_update hinv.workers w ?_⟩
    rcases Worker.answer_cases ha with ⟨_, _, ⟨_, rfl⟩ | ⟨_, rfl⟩⟩ | ⟨_, _, _, _, _, _, rfl⟩
    · trivial
    · trivial
    · trivial
  | takeResponse path content hw =>
    rw [hw] at hfilled
    exact ⟨hm, forall_update hinv.workers w hfilled⟩
  | truncate path content hw =>
    rw [hw] at hfilled
    exact hinv.write (by rw [hw]; rfl) ⟨hfilled, ftruncate_length _ _, Nat.zero_le _, rfl⟩ hm
  | copy n path content transferred hw hn hle hseg =>
    rw [hw] at hfilled
    obtain ⟨hfiles, hlen, _, htake⟩ := hfilled
    have hdata : transferred + ((content.drop transferred).take n).length ≤ s.seg.length := by
      rw [List.length_take, List.length_drop]
      omega
    refine hinv.write (by rw [hw]; rfl) ⟨hfiles, ?_, hle, ?_⟩ hm
    · rw [overwrite_length hdata, hlen]
    · exact take_overwrite hlen hle htake

theorem write_step : ∀ (s : St H W) a s', True → (sys files).step s a = some s' →
    WriteInv files s → WriteInv files s' := by
  intro s a s' _ hstep hinv
  rcases sys_step_cases hstep with ⟨h, b, rfl, hcase⟩ | ⟨w, b, rfl, _, hcase⟩
  · obtain ⟨hworker, hmutex, hseg⟩ := hcase.frame
    refine ⟨?_, ?_⟩
    · rw [hworker, hmutex]
      exact hinv.mutex
    · rw [hworker, hseg]
      exact hinv.workers
  · exact worker_write hcase hinv

/-! ## Semaphores -/

/-- `command_mutex` has one permit: in the semaphore, or with the worker between the calls. -/
def CommandPermit [Fintype W] (s : St H W) : Prop :=
  s.commandMutex + countThreads Worker.commanding s.worker = 1

omit [DecidableEq H] in
theorem commandPermit_worker [Fintype W] {s s' : St H W} {w : W} {a : WorkerAct}
    (hstep : WorkerCase files s w a s') (hinv : CommandPermit s) : CommandPermit s' := by
  unfold CommandPermit at hinv ⊢
  cases hstep with
  | takeCommand hw hm =>
    have hupd := countThreads_update Worker.commanding s.worker w .receiving
    rw [hw] at hupd
    simp only [Worker.commanding, Bool.toNat_true, Bool.toNat_false] at hupd
    simp only []
    omega
  | postCommand msg hw =>
    have hupd := countThreads_update Worker.commanding s.worker w (.lookup msg)
    rw [hw] at hupd
    simp only [Worker.commanding, Bool.toNat_true, Bool.toNat_false] at hupd
    simp only []
    omega
  | msgrcv _ _ hw | missing _ _ hw | found _ _ _ hw | takeResponse _ _ hw | truncate _ _ hw
  | copy _ _ _ _ hw | postResponse hw | fstatFails _ _ _ hw | preadFails _ _ _ hw | remove hw =>
    rw [← hinv]
    simp only []
    rw [countThreads_same (by rw [hw]; rfl)]
  | msgsnd r next ha =>
    rw [← hinv]
    simp only []
    rw [countThreads_same (Worker.answer_commanding ha)]
  | msgrcvFails | msgsndFails | removeFails | crash => exact hinv

theorem commandPermit_step [Fintype W] : ∀ (s : St H W) a s', True →
    (sys files).step s a = some s' → CommandPermit s → CommandPermit s' := by
  intro s a s' _ hstep hinv
  rcases sys_step_cases hstep with ⟨h, b, rfl, hcase⟩ | ⟨w, b, rfl, _, hcase⟩
  · cases hcase <;> exact hinv
  · exact commandPermit_worker hcase hinv

/-- Between the calls of one semaphore there is one worker at most, with the permit. -/
structure Exclusive [Fintype W] (s : St H W) : Prop where
  command : CommandPermit s
  response : s.responseMutex + countThreads Worker.inside s.worker ≤ 1
  /-- the chunk that a worker is about to write fits the segment -/
  fits : ∀ w path content transferred n, s.worker w = .copying path content transferred →
    transferred + n ≤ content.length → transferred + n ≤ s.seg.length

omit [DecidableEq W] in
theorem MutexInv.count_le [DecidableEq W] [Fintype W] {worker : W → Worker} {m : Nat}
    (h : MutexInv worker m) : m + countThreads Worker.inside worker ≤ 1 := by
  by_cases hnone : countThreads Worker.inside worker = 0
  · have hle := h.le_one
    omega
  · obtain ⟨w, hw⟩ := exists_of_countThreads_pos (Nat.pos_of_ne_zero hnone)
    have hm := h.held w hw
    -- without this worker nobody is inside
    have hupd := countThreads_update Worker.inside worker w .idle
    have hothers : countThreads Worker.inside (Function.update worker w .idle) = 0 := by
      rw [countThreads_eq_zero]
      intro w'
      by_cases hself : w' = w
      · rw [hself, Function.update_self]
        rfl
      · rw [Function.update_of_ne hself]
        by_contra hin
        have hin' : (worker w').inside = true := by simpa using hin
        exact hself (h.unique w' w hin' hw)
    rw [hothers, hw] at hupd
    simp only [Worker.inside, Bool.toNat_true, Bool.toNat_false] at hupd
    omega

/-- **The semaphores exclude.** For any number of handlers and workers, in every run in which the
workers get the segment, whatever else fails. -/
theorem cache_exclusive [Fintype W] (files : Bytes → Option Bytes) (s : St H W)
    (hs : (sys files).Reach (fun _ _ => True) s) : Exclusive s := by
  have hwrite := Sys.Reach.inv write_init write_step s hs
  have hcommand : CommandPermit s := by
    refine Sys.Reach.inv ?_ commandPermit_step s hs
    intro s hinit
    rcases hinit with ⟨_, _, _, _, hcommand, _, _, hw, _, _⟩
    have hnone : countThreads Worker.commanding s.worker = 0 := by
      rw [countThreads_eq_zero]
      intro w
      rw [hw w]
      rfl
    unfold CommandPermit
    rw [hcommand, hnone]
  refine ⟨hcommand, hwrite.mutex.count_le, ?_⟩
  intro w path content transferred n hw hle
  have hfilled := hwrite.workers w
  rw [hw] at hfilled
  rw [hfilled.2.1]
  exact hle

/-- A worker whose `pread` failed has left with the permit; the other one waits for ever. -/
theorem cache_exclusive_lost :
    ∃ s : St (Fin 1) (Fin 2), Exclusive s ∧ s.responseMutex = 0 ∧
      countThreads Worker.inside s.worker = 0 := by
  have hrun : ((sys twoFiles).run (St.start [] : St (Fin 1) (Fin 2))
      (beforeRead 0 0 ++ [.worker 0 .lookup, .worker 0 .takeResponse, .worker 0 .truncate,
        .worker 0 (.copy 0)])).map
      (fun s => (s.responseMutex, countThreads Worker.inside s.worker)) = some (0, 0) := by decide
  rcases Option.map_eq_some_iff.mp hrun with ⟨s, hs, hout⟩
  rw [Prod.mk.injEq] at hout
  refine ⟨s, ?_, hout⟩
  apply cache_exclusive twoFiles
  exact Sys.reach_of_run (.init (start_init _ _)) (Sys.runOk_of_all fun _ _ => trivial) hs

/-! ## The segment -/

/-- The worker is at `ftruncate`. -/
def Act.truncates : Act H W → Bool
  | .worker _ .truncate => true
  | .worker _ _ | .handler _ _ => false

/-- In the copy loop. -/
def Worker.copies : Worker → Bool
  | .copying _ _ _ => true
  | .idle | .receiving | .received _ | .lookup _ | .missing _ | .statFailed _ | .removing
  | .found _ _ | .truncating _ _ | .posted | .returned => false

/-- Nobody writes, and the segment is `content`. -/
structure Still (content : Bytes) (s : St H W) : Prop where
  seg : s.seg = content
  quiet : ∀ w, (s.worker w).copies = false

theorem still_step {content : Bytes} : ∀ (s : St H W) a s', a.truncates = false →
    (sys files).step s a = some s' → Still content s → Still content s' := by
  intro s a s' hok hstep hinv
  rcases sys_step_cases hstep with ⟨h, b, rfl, hcase⟩ | ⟨w, b, rfl, _, hcase⟩
  · obtain ⟨hworker, _, hseg⟩ := hcase.frame
    refine ⟨hseg.trans hinv.seg, ?_⟩
    rw [hworker]
    exact hinv.quiet
  · have hquiet := hinv.quiet w
    cases hcase with
    | truncate => cases hok
    | copy n path content transferred hw =>
      rw [hw] at hquiet
      cases hquiet
    | msgsnd r next ha =>
      refine ⟨hinv.seg, forall_update (P := fun x : Worker => x.copies = false) hinv.quiet w ?_⟩
      rcases Worker.answer_cases ha with ⟨_, _, ⟨_, rfl⟩ | ⟨_, rfl⟩⟩ | ⟨_, _, _, _, _, _, rfl⟩
      · rfl
      · rfl
      · rfl
    | takeCommand | msgrcv | postCommand | missing | found | fstatFails | remove | takeResponse
    | preadFails | postResponse =>
      exact ⟨hinv.seg, forall_update (P := fun x : Worker => x.copies = false) hinv.quiet w rfl⟩
    | msgrcvFails | msgsndFails | removeFails | crash => exact ⟨hinv.seg, hinv.quiet⟩

omit [DecidableEq H] in
/-- At the post of a length the file is in the segment, and nobody else writes. -/
theorem WriteInv.posted {s : St H W} (hinv : WriteInv files s) {w : W} {path content : Bytes}
    {transferred : Nat} (hw : s.worker w = .copying path content transferred)
    (hdone : ¬ transferred < content.length) (respQ : List Response) (serving : List Bytes) :
    files path = some content ∧ Still content { s with
      worker := Function.update s.worker w .posted
      respQ := respQ
      serving := serving } := by
  have hfilled := hinv.workers w
  rw [hw] at hfilled
  obtain ⟨hfiles, hlen, hle, htake⟩ := hfilled
  have hseg : s.seg = content := by
    rw [List.take_of_length_le (by omega), List.take_of_length_le (by omega)] at htake
    exact htake
  refine ⟨hfiles, hseg, ?_⟩
  refine (Function.forall_update_iff s.worker fun _ x => x.copies = false).mpr ⟨rfl, ?_⟩
  intro w' hne
  by_contra hcopies
  have hinside : (s.worker w').inside = true := by
    cases hx : s.worker w' with
    | copying => rfl
    | idle | receiving | received | lookup | missing | statFailed | removing | found | truncating
    | posted | returned =>
      rw [hx] at hcopies
      exact absurd rfl hcopies
  exact hne (hinv.mutex.unique w' w hinside (by rw [hw]; rfl))

/-- **What is announced is there.** When a worker posts the length of a file, in any run in which the
workers get the segment, whatever else failed before, the segment is this file, and stays it as
long as no worker comes to `ftruncate`, whatever else happens. -/
theorem cache_segment_announced (files : Bytes → Option Bytes) (s s₁ s₂ : St H W) (w : W)
    (path content : Bytes) (transferred : Nat) (acts : List (Act H W))
    (hs : (sys files).Reach (fun _ _ => True) s)
    (hw : s.worker w = .copying path content transferred)
    (hpost : (sys files).step s (.worker w .msgsnd) = some s₁)
    (hacts : ∀ a ∈ acts, a.truncates = false) (hrun : (sys files).run s₁ acts = some s₂) :
    s₁.respQ = s.respQ ++ [⟨lengthText content.length, path⟩] ∧ files path = some content ∧
      s₂.seg = content := by
  have hinv := Sys.Reach.inv write_init write_step s hs
  rcases sys_step_cases hpost with ⟨_, _, heq, _⟩ | ⟨_, _, heq, _, hcase⟩
  · cases heq
  · cases heq
    cases hcase with
    | msgsnd r next ha =>
      rcases Worker.answer_cases ha with ⟨_, _, ⟨hw', _⟩ | ⟨hw', _⟩⟩ |
        ⟨path', content', transferred', hw', hdone, rfl, rfl⟩
      · rw [hw] at hw'
        cases hw'
      · rw [hw] at hw'
        cases hw'
      · rw [hw] at hw'
        cases hw'
        obtain ⟨hfiles, hstill⟩ := hinv.posted hw hdone
          (s.respQ ++ [⟨lengthText content.length, path⟩]) (s.serving.erase path)
        exact ⟨rfl, hfiles, (Sys.run_inv still_step hstill hacts hrun).seg⟩

/-- The other worker takes the next request and its semaphore, and the file is still there. -/
theorem cache_segment_announced_next :
    ∃ s s₁ s₂ : St (Fin 2) (Fin 2),
      (sys twoFiles).step s (.worker 0 .msgsnd) = some s₁ ∧
      (s₁.respQ = s.respQ ++ [⟨lengthText (ascii "x").length, ascii "/a"⟩] ∧
        twoFiles (ascii "/a") = some (ascii "x") ∧ s₂.seg = ascii "x") ∧
      (s₂.worker 1) = .truncating (ascii "/b") (ascii "y") := by
  have hrun : ((sys twoFiles).run (St.start [] : St (Fin 2) (Fin 2))
      [.handler 0 (.request pathA), .worker 0 .takeCommand, .worker 0 .msgrcv,
        .worker 0 .postCommand, .worker 0 .lookup, .worker 0 .takeResponse, .worker 0 .truncate,
        .worker 0 (.copy 1)]).map
      (fun s => (s.worker 0, ((sys twoFiles).step s (.worker 0 .msgsnd)).isSome,
        ((((sys twoFiles).step s (.worker 0 .msgsnd)).bind fun s₁ => (sys twoFiles).run s₁
          [.handler 1 (.request pathB), .worker 1 .takeCommand, .worker 1 .msgrcv,
            .worker 1 .postCommand, .worker 1 .lookup, .worker 0 .postResponse,
            .worker 1 .takeResponse]).map fun s₂ => s₂.worker 1))) =
      some (.copying (ascii "/a") (ascii "x") 1, true,
        some (.truncating (ascii "/b") (ascii "y"))) := by decide
  rcases Option.map_eq_some_iff.mp hrun with ⟨s, hs, hout⟩
  rw [Prod.mk.injEq, Prod.mk.injEq] at hout
  obtain ⟨hw, hpost, hnext⟩ := hout
  obtain ⟨s₁, hs₁⟩ := Option.isSome_iff_exists.mp hpost
  rw [hs₁, Option.bind_some] at hnext
  rcases Option.map_eq_some_iff.mp hnext with ⟨s₂, hs₂, hw₂⟩
  refine ⟨s, s₁, s₂, hs₁, ?_, hw₂⟩
  apply cache_segment_announced twoFiles s s₁ s₂ 0 (ascii "/a") (ascii "x") 1 _ _ hw hs₁ ?_ hs₂
  · exact Sys.reach_of_run (.init (start_init _ _)) (Sys.runOk_of_all fun _ _ => trivial) hs
  · decide

end IntroOS.Cache
