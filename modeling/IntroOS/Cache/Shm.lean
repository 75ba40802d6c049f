import IntroOS.Cache.Conservation
import IntroOS.Cache.Segment

/-! # `shm_open`

In the protocol the segment is there. In the programs both sides call `shm_open` for each transfer,
and do not look at what it returns. In the daemon `ftruncate` and `mmap` fail after it, and the first
`memcpy` goes to MAP_FAILED; in the proxy `pread` fails, behind the OK header.

* `workerShm`, `handlerShm`: the steps of the protocol, where `shm_open` succeeds or not;
* `Attached`: whoever uses the segment has it, which is so as long as no `shm_open` fails
  (`workerShm_attached`, `handlerShm_attached`), and then the steps are those of the protocol
  (`workerShm_base`, `handlerShm_base`);
* `Untouched`: a worker without the segment has copied nothing, in any case.
-/

namespace IntroOS.Cache.Shm

variable {H W : Type*}

/-! ## The program -/

/-- The protocol, and what the last `shm_open` of each thread returned. -/
structure St (H W : Type*) where
  base : Cache.St H W
  /-- the worker has the segment -/
  mapped : W → Bool
  /-- the handler has the segment -/
  opened : H → Bool

/-- A handler that was given a length. -/
def Handler.isSending : Handler → Bool
  | .sending _ _ _ _ => true
  | .idle | .waiting _ | .finished _ _ _ => false

/-- A worker in its copy loop. -/
def Worker.isCopying : Worker → Bool
  | .copying _ _ _ => true
  | _ => false

section Step

variable [DecidableEq H] [DecidableEq W]

/-- A step of a worker, as long as the process runs. `found` is whether `shm_open` succeeds. -/
def workerShm (files : Bytes → Option Bytes) (found : Bool) (s : St H W) (w : W) :
    WorkerAct → Option (St H W)
  | .truncate =>
    if found then
      (workerStep files s.base w .truncate).map fun base =>
        { s with base := base, mapped := Function.update s.mapped w true }
    else
      match s.base.worker w with
      | .truncating path content => some { s with
          base := { s.base with worker := Function.update s.base.worker w (.copying path content 0) }
          mapped := Function.update s.mapped w false }
      | _ => none
  | .copy n =>
    (workerStep files s.base w (.copy n)).map fun base =>
      -- `memcpy` to MAP_FAILED
      if ¬ s.mapped w ∧ n ≠ 0 then { s with base := { s.base with cacheUp := false } }
      else { s with base := base }
  | a => (workerStep files s.base w a).map fun base => { s with base := base }

/-- A step of a handler. -/
def handlerShm (found : Bool) (s : St H W) (h : H) : HandlerAct → Option (St H W)
  | .msgrcv =>
    (handlerStep s.base h .msgrcv).map fun base =>
      if Handler.isSending (base.handler h) then
        { s with base := base, opened := Function.update s.opened h found }
      else { s with base := base }
  | .chunk n m =>
    -- `pread` on -1
    if ¬ s.opened h ∧ n ≠ 0 then none
    else (handlerStep s.base h (.chunk n m)).map fun base => { s with base := base }
  | a => (handlerStep s.base h a).map fun base => { s with base := base }

end Step

/-! ## What a step does -/

section Cases

variable [DecidableEq H] [DecidableEq W] {files : Bytes → Option Bytes} {found : Bool}
  {s s' : St H W}

/-- The ways through `workerShm`. -/
inductive WorkerShmCase (files : Bytes → Option Bytes) (found : Bool) (s : St H W) (w : W) :
    WorkerAct → St H W → Prop where
  | mapped (base : Cache.St H W) (hfound : found = true)
      (hbase : WorkerCase files s.base w .truncate base) :
      WorkerShmCase files found s w .truncate
        { s with base := base, mapped := Function.update s.mapped w true }
  | unmapped (path content : Bytes) (hfound : found = false)
      (hw : s.base.worker w = .truncating path content) :
      WorkerShmCase files found s w .truncate { s with
        base := { s.base with worker := Function.update s.base.worker w (.copying path content 0) }
        mapped := Function.update s.mapped w false }
  | copy (n : Nat) (base : Cache.St H W) (hmapped : s.mapped w = true ∨ n = 0)
      (hbase : WorkerCase files s.base w (.copy n) base) :
      WorkerShmCase files found s w (.copy n) { s with base := base }
  | killed (n : Nat) (hmapped : s.mapped w = false) (hn : n ≠ 0)
      (hw : Worker.isCopying (s.base.worker w) = true) :
      WorkerShmCase files found s w (.copy n)
        { s with base := { s.base with cacheUp := false } }
  | other (a : WorkerAct) (base : Cache.St H W) (htruncate : a ≠ .truncate)
      (hcopy : ∀ n, a ≠ .copy n) (hbase : WorkerCase files s.base w a base) :
      WorkerShmCase files found s w a { s with base := base }

/-- The ways through `handlerShm`. -/
inductive HandlerShmCase (found : Bool) (s : St H W) (h : H) : HandlerAct → St H W → Prop where
  | attach (base : Cache.St H W) (hsending : Handler.isSending (base.handler h) = true)
      (hbase : HandlerCase s.base h .msgrcv base) :
      HandlerShmCase found s h .msgrcv
        { s with base := base, opened := Function.update s.opened h found }
  | msgrcv (base : Cache.St H W) (hsending : ¬ Handler.isSending (base.handler h) = true)
      (hbase : HandlerCase s.base h .msgrcv base) :
      HandlerShmCase found s h .msgrcv { s with base := base }
  | chunk (n m : Nat) (base : Cache.St H W) (hopened : s.opened h = true ∨ n = 0)
      (hbase : HandlerCase s.base h (.chunk n m) base) :
      HandlerShmCase found s h (.chunk n m) { s with base := base }
  | other (a : HandlerAct) (base : Cache.St H W) (hmsgrcv : a ≠ .msgrcv)
      (hchunk : ∀ n m, a ≠ .chunk n m) (hbase : HandlerCase s.base h a base) :
      HandlerShmCase found s h a { s with base := base }

omit [DecidableEq H] in
theorem copy_isCopying {base base' : Cache.St H W} {w : W} {n : Nat}
    (hbase : WorkerCase files base w (.copy n) base') :
    Worker.isCopying (base.worker w) = true := by
  cases hbase with
  | preadFails _ _ _ hw | crash _ _ _ _ hw | copy _ _ _ _ hw =>
    rw [hw]
    rfl

omit [DecidableEq H] in
theorem workerShm_cases {w : W} {a : WorkerAct} (h : workerShm files found s w a = some s') :
    WorkerShmCase files found s w a s' := by
  cases a with
  | truncate =>
    simp only [workerShm] at h
    split at h
    · rename_i hfound
      rcases Option.map_eq_some_iff.mp h with ⟨base, hbase, rfl⟩
      exact .mapped base hfound (workerStep_cases hbase)
    · rename_i hfound
      split at h
      · rename_i path content hw
        cases h
        exact .unmapped path content (by simpa using hfound) hw
      · cases h
  | copy n =>
    simp only [workerShm] at h
    rcases Option.map_eq_some_iff.mp h with ⟨base, hbase, heq⟩
    have hcase := workerStep_cases hbase
    split at heq
    · rename_i hkill
      cases heq
      exact .killed n (by simpa using hkill.1) hkill.2 (copy_isCopying hcase)
    · rename_i hkill
      cases heq
      refine .copy n base ?_ hcase
      by_contra hnot
      exact hkill ⟨fun hm => hnot (Or.inl hm), fun hn => hnot (Or.inr hn)⟩
  | takeCommand | msgrcv | msgrcvFails | postCommand | lookup | fstatFails | msgsnd | msgsndFails
  | remove | removeFails | takeResponse | postResponse =>
    rcases Option.map_eq_some_iff.mp h with ⟨base, hbase, rfl⟩
    exact .other _ base nofun nofun (workerStep_cases hbase)

omit [DecidableEq W] in
theorem handlerShm_cases {h : H} {a : HandlerAct} (hstep : handlerShm found s h a = some s') :
    HandlerShmCase found s h a s' := by
  cases a with
  | msgrcv =>
    rcases Option.map_eq_some_iff.mp hstep with ⟨base, hbase, heq⟩
    split at heq
    · rename_i hsending
      cases heq
      exact .attach base hsending (handlerStep_cases hbase)
    · rename_i hsending
      cases heq
      exact .msgrcv base hsending (handlerStep_cases hbase)
  | chunk n m =>
    simp only [handlerShm] at hstep
    split at hstep
    · cases hstep
    · rename_i hopened
      rcases Option.map_eq_some_iff.mp hstep with ⟨base, hbase, rfl⟩
      refine .chunk n m base ?_ (handlerStep_cases hbase)
      by_contra hnot
      exact hopened ⟨fun ho => hnot (Or.inl ho), fun hn => hnot (Or.inr hn)⟩
  | request | requestFails | msgrcvFails | finish =>
    rcases Option.map_eq_some_iff.mp hstep with ⟨base, hbase, rfl⟩
    exact .other _ base nofun nofun (handlerStep_cases hbase)

omit [DecidableEq W] in
/-- A handler's step is one of the protocol. -/
theorem handlerShm_base {h : H} {a : HandlerAct} (hstep : handlerShm found s h a = some s') :
    handlerStep s.base h a = some s'.base := by
  cases a with
  | msgrcv =>
    rcases Option.map_eq_some_iff.mp hstep with ⟨base, hbase, heq⟩
    rw [hbase, ← heq]
    split
    · rfl
    · rfl
  | chunk n m =>
    simp only [handlerShm] at hstep
    split at hstep
    · cases hstep
    · rcases Option.map_eq_some_iff.mp hstep with ⟨base, hbase, rfl⟩
      exact hbase
  | request | requestFails | msgrcvFails | finish =>
    rcases Option.map_eq_some_iff.mp hstep with ⟨base, hbase, rfl⟩
    exact hbase

end Cases

/-! ## The protocol around a thread -/

section Base

variable {files : Bytes → Option Bytes} {base base' : Cache.St H W}

/-- Another handler is where it was. -/
theorem handler_other [DecidableEq H] {h h' : H} {a : HandlerAct}
    (hbase : HandlerCase base h a base') (hne : h' ≠ h) : base'.handler h' = base.handler h' := by
  cases hbase <;> exact Function.update_of_ne hne _ _

theorem worker_other [DecidableEq W] {w w' : W} {a : WorkerAct}
    (hbase : WorkerCase files base w a base') (hne : w' ≠ w) : base'.worker w' = base.worker w' := by
  cases hbase <;> first | exact Function.update_of_ne hne _ _ | rfl

/-- A worker comes to its copy loop by `ftruncate`, and to a place in it by copying. -/
theorem worker_copying [DecidableEq W] {w : W} {a : WorkerAct}
    (hbase : WorkerCase files base w a base') {path content : Bytes} {transferred : Nat}
    (hw : base'.worker w = .copying path content transferred) :
    (a = .truncate ∧ base.worker w = .truncating path content ∧ transferred = 0) ∨
    (∃ n, a = .copy n ∧ 0 < n ∧ n ≤ transferred ∧ transferred ≤ content.length ∧
      base.worker w = .copying path content (transferred - n)) ∨
    base.worker w = .copying path content transferred := by
  cases hbase with
  | takeCommand | msgrcv | postCommand | missing | found | fstatFails | remove | takeResponse
  | preadFails | postResponse =>
    simp only [Function.update_self] at hw
    cases hw
  | msgrcvFails | msgsndFails | removeFails | crash => exact Or.inr (Or.inr hw)
  | msgsnd r next hanswer =>
    simp only [Function.update_self] at hw
    rcases Worker.answer_cases hanswer with ⟨_, _, ⟨_, rfl⟩ | ⟨_, rfl⟩⟩ | ⟨_, _, _, _, _, _, rfl⟩
    · cases hw
    · cases hw
    · cases hw
  | truncate path' content' hbefore =>
    simp only [Function.update_self] at hw
    cases hw
    exact Or.inl ⟨rfl, hbefore, rfl⟩
  | copy n path' content' transferred' hbefore hn hle =>
    simp only [Function.update_self] at hw
    cases hw
    refine Or.inr (Or.inl ⟨n, rfl, hn, by omega, hle, ?_⟩)
    rw [hbefore, Nat.add_sub_cancel]

theorem isCopying_before [DecidableEq W] {w w' : W} {a : WorkerAct}
    (hbase : WorkerCase files base w a base') (ha : a ≠ .truncate)
    (hcopying : Worker.isCopying (base'.worker w') = true) :
    Worker.isCopying (base.worker w') = true := by
  by_cases hne : w' = w
  · cases hw : base'.worker w' with
    | copying path content transferred =>
      rw [hne] at hw ⊢
      rcases worker_copying hbase hw with ⟨htruncate, _⟩ | ⟨_, _, _, _, _, hbefore⟩ | hbefore
      · exact absurd htruncate ha
      · rw [hbefore]
        rfl
      · rw [hbefore]
        rfl
    | idle | receiving | received | lookup | missing | statFailed | removing | found | truncating
    | posted | returned =>
      rw [hw] at hcopying
      cases hcopying
  · rwa [worker_other hbase hne] at hcopying

theorem isSending_before [DecidableEq H] {h h' : H} {a : HandlerAct}
    (hbase : HandlerCase base h a base') (ha : a ≠ .msgrcv)
    (hsending : Handler.isSending (base'.handler h') = true) :
    Handler.isSending (base.handler h') = true := by
  by_cases hne : h' = h
  · rw [hne] at hsending ⊢
    cases hbase with
    | request | requestFails | msgrcvFails | preadFails | shortSend | finish =>
      simp only [Function.update_self] at hsending
      cases hsending
    | msgrcv => exact absurd rfl ha
    | chunk n path r fileLen sent hh =>
      rw [hh]
      rfl
  · rwa [handler_other hbase hne] at hsending

end Base

/-! ## With the segment -/

/-- Whoever uses the segment has it. -/
structure Attached (s : St H W) : Prop where
  workers : ∀ w, Worker.isCopying (s.base.worker w) = true → s.mapped w = true
  handlers : ∀ h, Handler.isSending (s.base.handler h) = true → s.opened h = true

section Attached

variable {files : Bytes → Option Bytes} {found : Bool} {s s' : St H W}

theorem workerShm_attached [DecidableEq W] {w : W} {a : WorkerAct}
    (hcase : WorkerShmCase files found s w a s') (hfound : found = true) (h : Attached s) :
    Attached s' := by
  have hframe : ∀ {b : WorkerAct} {base : Cache.St H W}, WorkerCase files s.base w b base →
      b ≠ .truncate → Attached { s with base := base } := by
    intro b base hbase hb
    refine ⟨fun w' hcopying => h.workers w' (isCopying_before hbase hb hcopying), ?_⟩
    intro h' hsending
    simp only [hbase.frame.1] at hsending
    exact h.handlers h' hsending
  cases hcase with
  | mapped base _ hbase =>
    refine ⟨?_, ?_⟩
    · intro w' hcopying
      show Function.update s.mapped w true w' = true
      by_cases hne : w' = w
      · rw [hne, Function.update_self]
      · rw [Function.update_of_ne hne]
        simp only [worker_other hbase hne] at hcopying
        exact h.workers w' hcopying
    · intro h' hsending
      simp only [hbase.frame.1] at hsending
      exact h.handlers h' hsending
  | unmapped path content hnot =>
    rw [hfound] at hnot
    cases hnot
  | copy n base _ hbase => exact hframe hbase nofun
  | killed n hmapped hn hw => exact ⟨h.workers, h.handlers⟩
  | other a base htruncate _ hbase => exact hframe hbase htruncate

theorem handlerShm_attached [DecidableEq H] {x : H} {a : HandlerAct}
    (hcase : HandlerShmCase found s x a s') (hfound : found = true) (h : Attached s) :
    Attached s' := by
  have hframe : ∀ {b : HandlerAct} {base : Cache.St H W}, HandlerCase s.base x b base →
      b ≠ .msgrcv → Attached { s with base := base } := by
    intro b base hbase hb
    refine ⟨?_, fun h' hsending => h.handlers h' (isSending_before hbase hb hsending)⟩
    intro w hcopying
    simp only [hbase.frame.1] at hcopying
    exact h.workers w hcopying
  cases hcase with
  | attach base hsending hbase =>
    refine ⟨?_, ?_⟩
    · intro w hcopying
      simp only [hbase.frame.1] at hcopying
      exact h.workers w hcopying
    · intro h' hsending'
      show Function.update s.opened x found h' = true
      by_cases hne : h' = x
      · rw [hne, Function.update_self, hfound]
      · rw [Function.update_of_ne hne]
        simp only [handler_other hbase hne] at hsending'
        exact h.handlers h' hsending'
  | msgrcv base hsending hbase =>
    refine ⟨?_, ?_⟩
    · intro w hcopying
      simp only [hbase.frame.1] at hcopying
      exact h.workers w hcopying
    · intro h' hsending'
      by_cases hne : h' = x
      · rw [hne] at hsending'
        exact absurd hsending' hsending
      · simp only [handler_other hbase hne] at hsending'
        exact h.handlers h' hsending'
  | chunk n m base _ hbase => exact hframe hbase nofun
  | other a base hmsgrcv _ hbase => exact hframe hbase hmsgrcv

/-- With the segment a worker's step is one of the protocol. -/
theorem workerShm_base [DecidableEq W] {w : W} {a : WorkerAct} (h : Attached s)
    (hfound : found = true) (hstep : workerShm files found s w a = some s') :
    workerStep files s.base w a = some s'.base := by
  cases a with
  | truncate =>
    simp only [workerShm, hfound, if_true] at hstep
    rcases Option.map_eq_some_iff.mp hstep with ⟨base, hbase, rfl⟩
    exact hbase
  | copy n =>
    rcases Option.map_eq_some_iff.mp hstep with ⟨base, hbase, heq⟩
    have hcopying := copy_isCopying (workerStep_cases hbase)
    rw [if_neg (fun hkill => hkill.1 (h.workers w hcopying))] at heq
    rw [hbase, ← heq]
  | takeCommand | msgrcv | msgrcvFails | postCommand | lookup | fstatFails | msgsnd | msgsndFails
  | remove | removeFails | takeResponse | postResponse =>
    rcases Option.map_eq_some_iff.mp hstep with ⟨base, hbase, rfl⟩
    exact hbase

end Attached

/-! ## Without it -/

/-- A worker without the segment has copied nothing. -/
def Untouched (s : St H W) : Prop :=
  ∀ w path content transferred,
    s.base.worker w = .copying path content transferred → s.mapped w = false → transferred = 0

section Untouched

variable {files : Bytes → Option Bytes} {found : Bool} {s s' : St H W}

theorem workerShm_untouched [DecidableEq W] {w : W} {a : WorkerAct}
    (hcase : WorkerShmCase files found s w a s') (h : Untouched s) : Untouched s' := by
  have hframe : ∀ {b : WorkerAct} {base : Cache.St H W}, WorkerCase files s.base w b base →
      b ≠ .truncate → (∀ n, b = .copy n → s.mapped w = true ∨ n = 0) →
        Untouched { s with base := base } := by
    intro b base hbase hb hcopy w' path content transferred hw hm
    by_cases hne : w' = w
    · rw [hne] at hw hm
      rcases worker_copying hbase hw with ⟨htruncate, _⟩ | ⟨n, hn, hpos, _⟩ | hbefore
      · exact absurd htruncate hb
      · rcases hcopy n hn with hmapped | hzero
        · rw [hm] at hmapped
          cases hmapped
        · omega
      · exact h w path content transferred hbefore hm
    · simp only [worker_other hbase hne] at hw
      exact h w' path content transferred hw hm
  cases hcase with
  | mapped base _ hbase =>
    intro w' path content transferred hw hm
    by_cases hne : w' = w
    · simp only [hne, Function.update_self] at hm
      cases hm
    · simp only [worker_other hbase hne] at hw
      simp only [Function.update_of_ne hne] at hm
      exact h w' path content transferred hw hm
  | unmapped path content _ _ =>
    intro w' path' content' transferred hw hm
    by_cases hne : w' = w
    · simp only [hne, Function.update_self] at hw
      cases hw
      rfl
    · simp only [Function.update_of_ne hne] at hw hm
      exact h w' path' content' transferred hw hm
  | copy n base hmapped hbase =>
    refine hframe hbase nofun ?_
    intro m hm
    cases hm
    exact hmapped
  | killed n hmapped hn hw => exact h
  | other a base htruncate hcopy hbase =>
    exact hframe hbase htruncate fun n hn => absurd hn (hcopy n)

theorem handlerShm_untouched [DecidableEq H] {x : H} {a : HandlerAct}
    (hcase : HandlerShmCase found s x a s') (h : Untouched s) : Untouched s' := by
  cases hcase with
  | attach base _ hbase | msgrcv base _ hbase | chunk _ _ base _ hbase | other _ base _ _ hbase =>
    intro w path content transferred hw hm
    simp only [hbase.frame.1] at hw
    exact h w path content transferred hw hm

end Untouched

end IntroOS.Cache.Shm
