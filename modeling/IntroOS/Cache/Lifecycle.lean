import IntroOS.Cache.Matching
import IntroOS.Cache.Shm

/-! # Starts and stops

`webproxy` makes the name `temp` and the queue of requests, `simplecached` the queue of responses.
All three outlive the processes: `webproxy` removes nothing when it stops, and the signal handler
of `simplecached` removes everything, also what `webproxy` made. A handler makes a new queue of
requests, but only the next `webproxy` makes a new `temp`.

* `sys`: the protocol with the starts and stops of both processes, in any order;
* `unsignalled_protocol`: without a signal to the daemon `shm_open` finds the name, and succeeds as
  long as the table of descriptors has room;
* `signal_silences`: after a signal no file is answered for, until `webproxy` starts again.

There is one process of each at a time. How the tables fill is the subject of
`IntroOS.Cache.Descriptors`; here a step says whether the table of its process has room.
-/

namespace IntroOS.Cache.Lifecycle

open Shm

variable {H W : Type*}

/-! ## The program -/

/-- Where `webproxy` stands. -/
inductive Proxy where
  | down
  /-- between `shm_open` and `msgget` -/
  | starting
  | up
deriving DecidableEq, Repr

/-- The two processes and what outlives them. The daemon runs as long as `cacheUp`. -/
structure St (H W : Type*) where
  shm : Shm.St H W
  /-- the name `temp` is there -/
  linked : Bool
  /-- the queue of requests is there -/
  reqOpen : Bool
  proxy : Proxy
  /-- a daemon is on its way to its first `msgget` that succeeds -/
  waiting : Bool

inductive Act (H W : Type*) where
  /-- `webproxy` starts: `shm_open` with O_CREAT, and `ftruncate` -/
  | startProxy (total : Nat)
  /-- `msgget` with IPC_CREAT, in `main` of `webproxy` or in a handler -/
  | msgget
  | stopProxy
  | startDaemon
  /-- the daemon finds the queue of requests, makes that of responses, and starts its threads -/
  | connect
  /-- `_sig_handler` of the daemon. Before it has connected, the identifiers it removes may be
  those of the two queues or not -/
  | signal (req resp : Bool)
  /-- the daemon ends in another way -/
  | stopDaemon
  /-- a step of a thread; `room` is whether its process has a descriptor left -/
  | thread (room : Bool) (a : Cache.Act H W)

def Act.startsProxy : Act H W → Bool
  | .startProxy _ => true
  | _ => false

def Act.signals : Act H W → Bool
  | .signal _ _ => true
  | _ => false

/-- A step of a thread whose process has no descriptor left. -/
def Act.cramped : Act H W → Bool
  | .thread room _ => !room
  | _ => false

/-- A `msgsnd` of a handler. -/
def HandlerAct.sends : HandlerAct → Bool
  | .request _ => true
  | _ => false

section Step

variable [DecidableEq H] [DecidableEq W]

/-- `webproxy` up to its `ftruncate`. -/
def startProxy (s : St H W) (total : Nat) : St H W :=
  { s with
    proxy := .starting
    linked := true
    shm := { s.shm with
      base := { s.shm.base with
        -- a segment that is there is kept, in its new length
        seg := ftruncate (if s.linked then s.shm.base.seg else []) total } } }

/-- The handlers are gone. -/
def stopProxy (s : St H W) : St H W :=
  { s with
    proxy := .down
    shm := { s.shm with
      base := { s.shm.base with handler := fun _ => .idle, asked := [] } } }

/-- `simplecached` from its `msgget` on. -/
def connect (s : St H W) : St H W :=
  { s with
    waiting := false
    shm := { s.shm with
      base := { s.shm.base with
        respOpen := true
        cacheUp := true
        commandMutex := 1
        responseMutex := 1
        worker := fun _ => .idle
        serving := [] } } }

/-- `_sig_handler` of `simplecached`, which removes `temp` in any case. -/
def signal (s : St H W) (req resp : Bool) : St H W :=
  { s with
    linked := false
    reqOpen := s.reqOpen && !req
    waiting := false
    shm := { s.shm with
      base := { s.shm.base with
        reqQ := if req then [] else s.shm.base.reqQ
        respQ := if resp then [] else s.shm.base.respQ
        respOpen := s.shm.base.respOpen && !resp
        cacheUp := false } } }

def stopDaemon (s : St H W) : St H W :=
  { s with
    waiting := false
    shm := { s.shm with base := { s.shm.base with cacheUp := false } } }

/-- Both processes, in any interleaving. -/
def sys (files : Bytes → Option Bytes) : Sys (St H W) (Act H W) where
  Init s :=
    s.linked = false ∧ s.reqOpen = false ∧ s.proxy = .down ∧ s.waiting = false ∧
    s.shm.base.cacheUp = false ∧ s.shm.base.respOpen = false ∧
    s.shm.base.reqQ = [] ∧ s.shm.base.respQ = [] ∧
    (∀ h, s.shm.base.handler h = .idle) ∧ ∀ w, s.shm.base.worker w = .idle
  step s
    | .startProxy total => if s.proxy = .down then some (startProxy s total) else none
    | .msgget => if s.proxy = .down then none else some { s with proxy := .up, reqOpen := true }
    | .stopProxy => if s.proxy = .down then none else some (stopProxy s)
    | .startDaemon =>
      if s.waiting ∨ s.shm.base.cacheUp then none else some { s with waiting := true }
    -- `while ((msqid = msgget(key, 0440)) == -1)`
    | .connect => if s.waiting ∧ s.reqOpen then some (connect s) else none
    | .signal req resp =>
      if s.shm.base.cacheUp then some (signal s true true)
      else if s.waiting then some (signal s req resp)
      else none
    | .stopDaemon => if s.waiting ∨ s.shm.base.cacheUp then some (stopDaemon s) else none
    | .thread room (.handler h a) =>
      -- `shm_open` needs the name and a descriptor
      if s.proxy = .up ∧ (HandlerAct.sends a → s.reqOpen) then
        (handlerShm (s.linked && room) s.shm h a).map fun shm => { s with shm := shm }
      else none
    | .thread room (.worker w a) =>
      if s.shm.base.cacheUp then
        (workerShm files (s.linked && room) s.shm w a).map fun shm => { s with shm := shm }
      else none

/-- Nothing was started yet. -/
def St.start : St H W where
  shm := {
    base := { Cache.St.start [] with respOpen := false, cacheUp := false }
    mapped := fun _ => false
    opened := fun _ => false }
  linked := false
  reqOpen := false
  proxy := .down
  waiting := false

theorem start_init (files : Bytes → Option Bytes) : (sys files).Init (St.start : St H W) :=
  ⟨rfl, rfl, rfl, rfl, rfl, rfl, rfl, rfl, fun _ => rfl, fun _ => rfl⟩

/-- The ways through `step`. -/
inductive StepCase (files : Bytes → Option Bytes) (s : St H W) : Act H W → St H W → Prop where
  | startProxy (total : Nat) (hdown : s.proxy = .down) :
      StepCase files s (.startProxy total) (startProxy s total)
  | msgget (hproxy : s.proxy ≠ .down) :
      StepCase files s .msgget { s with proxy := .up, reqOpen := true }
  | stopProxy : StepCase files s .stopProxy (stopProxy s)
  | startDaemon : StepCase files s .startDaemon { s with waiting := true }
  | connect (hreq : s.reqOpen = true) : StepCase files s .connect (connect s)
  | signal (req resp req' resp' : Bool) : StepCase files s (.signal req resp) (signal s req' resp')
  | stopDaemon : StepCase files s .stopDaemon (stopDaemon s)
  | handler (room : Bool) (h : H) (a : HandlerAct) (shm : Shm.St H W) (hproxy : s.proxy = .up)
      (hshm : handlerShm (s.linked && room) s.shm h a = some shm) :
      StepCase files s (.thread room (.handler h a)) { s with shm := shm }
  | worker (room : Bool) (w : W) (a : WorkerAct) (shm : Shm.St H W)
      (hup : s.shm.base.cacheUp = true)
      (hshm : workerShm files (s.linked && room) s.shm w a = some shm) :
      StepCase files s (.thread room (.worker w a)) { s with shm := shm }

theorem step_cases {files : Bytes → Option Bytes} {s s' : St H W} {a : Act H W}
    (hstep : (sys files).step s a = some s') : StepCase files s a s' := by
  cases a with
  | startProxy total =>
    simp only [sys] at hstep
    split at hstep
    · rename_i hdown
      cases hstep
      exact .startProxy total hdown
    · cases hstep
  | msgget =>
    simp only [sys] at hstep
    split at hstep
    · cases hstep
    · rename_i hproxy
      cases hstep
      exact .msgget hproxy
  | stopProxy =>
    simp only [sys] at hstep
    split at hstep
    · cases hstep
    · cases hstep
      exact .stopProxy
  | startDaemon =>
    simp only [sys] at hstep
    split at hstep
    · cases hstep
    · cases hstep
      exact .startDaemon
  | connect =>
    simp only [sys] at hstep
    split at hstep
    · rename_i hcond
      cases hstep
      exact .connect hcond.2
    · cases hstep
  | signal req resp =>
    simp only [sys] at hstep
    split at hstep
    · cases hstep
      exact .signal req resp true true
    · split at hstep
      · cases hstep
        exact .signal req resp req resp
      · cases hstep
  | stopDaemon =>
    simp only [sys] at hstep
    split at hstep
    · cases hstep
      exact .stopDaemon
    · cases hstep
  | thread room b =>
    cases b with
    | handler h b =>
      simp only [sys] at hstep
      split at hstep
      · rename_i hcond
        rcases Option.map_eq_some_iff.mp hstep with ⟨shm, hshm, rfl⟩
        exact .handler room h b shm hcond.1 hshm
      · cases hstep
    | worker w b =>
      simp only [sys] at hstep
      split at hstep
      · rename_i hup
        rcases Option.map_eq_some_iff.mp hstep with ⟨shm, hshm, rfl⟩
        exact .worker room w b shm hup hshm
      · cases hstep

end Step

/-! ## Without a signal -/

section Unsignalled

variable [DecidableEq H] [DecidableEq W] {files : Bytes → Option Bytes}

/-- The name is there for everybody who looks for it. -/
structure Linked (s : St H W) : Prop where
  proxy : s.proxy ≠ .down → s.linked = true
  requests : s.reqOpen = true → s.linked = true
  daemon : s.shm.base.cacheUp = true → s.linked = true
  attached : Attached s.shm

theorem linked_init : ∀ s : St H W, (sys files).Init s → Linked s := by
  rintro s ⟨_, hreq, hproxy, _, hup, _, _, _, hhandler, hworker⟩
  refine ⟨fun hne => absurd hproxy hne, ?_, ?_, ?_, ?_⟩
  · intro hopen
    rw [hreq] at hopen
    cases hopen
  · intro hcache
    rw [hup] at hcache
    cases hcache
  · intro w hcopying
    rw [hworker w] at hcopying
    cases hcopying
  · intro h hsending
    rw [hhandler h] at hsending
    cases hsending

omit [DecidableEq H] [DecidableEq W] in
/-- `shm_open` succeeds. -/
theorem found_of_linked {s : St H W} {room : Bool} {a : Cache.Act H W} (hlinked : s.linked = true)
    (hroom : (Act.thread room a : Act H W).cramped = false) : (s.linked && room) = true := by
  have hleft : (!room) = false := hroom
  rw [hlinked, Bool.true_and]
  rwa [Bool.not_eq_false'] at hleft

theorem linked_step : ∀ (s : St H W) (a : Act H W) (s' : St H W),
    (a.signals = false ∧ a.cramped = false) →
    (sys files).step s a = some s' → Linked s → Linked s' := by
  intro s a s' hok hstep hinv
  cases step_cases hstep with
  | startProxy total hdown =>
    exact ⟨fun _ => rfl, fun _ => rfl, fun _ => rfl, hinv.attached.workers, hinv.attached.handlers⟩
  | msgget hproxy =>
    exact ⟨fun _ => hinv.proxy hproxy, fun _ => hinv.proxy hproxy, hinv.daemon, hinv.attached⟩
  | stopProxy =>
    exact ⟨fun hne => absurd rfl hne, hinv.requests, hinv.daemon, hinv.attached.workers, nofun⟩
  | startDaemon => exact ⟨hinv.proxy, hinv.requests, hinv.daemon, hinv.attached⟩
  | connect hreq =>
    exact ⟨hinv.proxy, hinv.requests, fun _ => hinv.requests hreq, nofun, hinv.attached.handlers⟩
  | signal => cases hok.1
  | stopDaemon =>
    exact ⟨hinv.proxy, hinv.requests, nofun, hinv.attached.workers, hinv.attached.handlers⟩
  | handler room h a shm hproxy hshm =>
    have hlinked := hinv.proxy (by rw [hproxy]; exact nofun)
    have hfound := found_of_linked hlinked hok.2
    exact ⟨fun _ => hlinked, fun _ => hlinked, fun _ => hlinked,
      handlerShm_attached (handlerShm_cases hshm) hfound hinv.attached⟩
  | worker room w a shm hup hshm =>
    have hlinked := hinv.daemon hup
    have hfound := found_of_linked hlinked hok.2
    exact ⟨fun _ => hlinked, fun _ => hlinked, fun _ => hlinked,
      workerShm_attached (workerShm_cases hshm) hfound hinv.attached⟩

end Unsignalled

/-- An answer without content: NOT_FOUND, or the length of an empty file. -/
def Vacant (r : Response) : Prop := r.text = notFound ∨ r.text = lengthText 0

/-- A handler that has sent nothing and will send nothing. -/
def Quiet : Handler → Prop
  | .idle | .waiting _ => True
  | .sending _ _ fileLen sent => fileLen = 0 ∧ sent = []
  | .finished _ _ sent => sent = []

theorem Quiet.consume (path : Bytes) {r : Response} (hr : Vacant r) :
    Quiet (Handler.consume path r) := by
  have hnone : readResponse notFound = none := by decide
  have hzero : readResponse (lengthText 0) = some 0 := by decide
  unfold Handler.consume
  rcases hr with htext | htext
  · rw [htext, hnone]
    rfl
  · rw [htext, hzero]
    exact ⟨rfl, rfl⟩

/-- No worker has a file in the segment. -/
structure Bare (shm : Shm.St H W) : Prop where
  untouched : Untouched shm
  unmapped : ∀ w path content transferred,
    shm.base.worker w = .copying path content transferred → content ≠ [] → shm.mapped w = false

/-- Without the name nobody gets a file, but for the calls that had their answer in `s₀`. -/
structure Silent (s₀ s : St H W) : Prop where
  unlinked : s.linked = false
  workers : s.shm.base.cacheUp = true → Bare s.shm
  responses : ∀ r ∈ s.shm.base.respQ, Vacant r
  handlers : ∀ h, Quiet (s.shm.base.handler h) ∨ ∃ c,
    (s.shm.base.handler h).consumed = some c ∧ (s₀.shm.base.handler h).consumed = some c

section Silent

variable {files : Bytes → Option Bytes}

theorem bare_step [DecidableEq W] {s s' : Shm.St H W} {w : W} {a : WorkerAct}
    (hcase : WorkerShmCase files false s w a s') (hbare : Bare s) : Bare s' := by
  have hframe : ∀ {b : WorkerAct} {base : Cache.St H W}, WorkerCase files s.base w b base →
      b ≠ .truncate → ∀ w' path content transferred,
        base.worker w' = .copying path content transferred → content ≠ [] →
          s.mapped w' = false := by
    intro b base hbase hb w' path content transferred hw hne
    by_cases hw' : w' = w
    · rw [hw'] at hw ⊢
      rcases worker_copying hbase hw with ⟨htruncate, _⟩ | ⟨_, _, _, _, _, hbefore⟩ | hbefore
      · exact absurd htruncate hb
      · exact hbare.unmapped w path content _ hbefore hne
      · exact hbare.unmapped w path content _ hbefore hne
    · rw [worker_other hbase hw'] at hw
      exact hbare.unmapped w' path content transferred hw hne
  refine ⟨workerShm_untouched hcase hbare.untouched, ?_⟩
  cases hcase with
  | mapped base hfound => cases hfound
  | unmapped path content hfound hw =>
    intro w' path' content' transferred hcopying hne
    show Function.update s.mapped w false w' = false
    by_cases hw' : w' = w
    · rw [hw', Function.update_self]
    · rw [Function.update_of_ne hw']
      simp only [Function.update_of_ne hw'] at hcopying
      exact hbare.unmapped w' path' content' transferred hcopying hne
  | copy n base hmapped hbase => exact hframe hbase nofun
  | killed => exact hbare.unmapped
  | other a base htruncate _ hbase => exact hframe hbase htruncate

/-- Such workers answer for empty files only. -/
theorem bare_responses [DecidableEq W] {s s' : Shm.St H W} {w : W} {a : WorkerAct}
    (hcase : WorkerShmCase files false s w a s') (hbare : Bare s)
    (hresp : ∀ r ∈ s.base.respQ, Vacant r) : ∀ r ∈ s'.base.respQ, Vacant r := by
  cases hcase with
  | mapped base hfound => cases hfound
  | unmapped | killed => exact hresp
  | copy n base _ hbase => cases hbase <;> exact hresp
  | other a base _ _ hbase =>
    cases hbase with
    | msgsnd r next hanswer =>
      intro r' hr'
      rcases List.mem_append.mp hr' with hold | hnew
      · exact hresp r' hold
      · rw [List.mem_singleton.mp hnew]
        rcases Worker.answer_cases hanswer with ⟨_, rfl, _⟩ |
          ⟨path, content, transferred, hw, hdone, rfl, _⟩
        · exact Or.inl rfl
        · by_cases hnil : content = []
          · rw [hnil]
            exact Or.inr rfl
          · -- nothing of it is copied, so the loop is not over
            have hunmapped := hbare.unmapped w path content transferred hw hnil
            have hzero := hbare.untouched w path content transferred hw hunmapped
            have hpos := List.length_pos_iff.mpr hnil
            omega
    | remove => exact nofun
    | takeCommand | msgrcv | msgrcvFails | postCommand | missing | found | fstatFails | msgsndFails
    | removeFails | takeResponse | truncate | preadFails | crash | copy | postResponse =>
      exact hresp

/-- A handler stays quiet, or goes on with the answer it has. -/
theorem handler_quiet [DecidableEq H] {base base' : Cache.St H W} {h : H} {a : HandlerAct}
    (hbase : HandlerCase base h a base') (hresp : ∀ r ∈ base.respQ, Vacant r) :
    Quiet (base'.handler h) ∨ (base'.handler h).consumed = (base.handler h).consumed ∧
      ¬ Quiet (base.handler h) := by
  cases hbase with
  | request | requestFails | msgrcvFails =>
    simp only [Function.update_self]
    exact Or.inl (by trivial)
  | msgrcv path r rest hh hq =>
    simp only [Function.update_self]
    exact Or.inl (Quiet.consume path (hresp r (by rw [hq]; exact List.mem_cons_self)))
  | preadFails m path r fileLen sent hh hlt =>
    simp only [Function.update_self]
    rw [hh]
    exact Or.inr ⟨rfl, fun hquiet => by rw [hquiet.1] at hlt; omega⟩
  | chunk n path r fileLen sent hh hlt =>
    simp only [Function.update_self]
    rw [hh]
    exact Or.inr ⟨rfl, fun hquiet => by rw [hquiet.1] at hlt; omega⟩
  | shortSend n m path r fileLen sent hh hlt =>
    simp only [Function.update_self]
    rw [hh]
    exact Or.inr ⟨rfl, fun hquiet => by rw [hquiet.1] at hlt; omega⟩
  | finish path r fileLen sent hh =>
    simp only [Function.update_self]
    rw [hh]
    -- the file is through, or it was empty
    by_cases hquiet : Quiet (.sending path r fileLen sent)
    · exact Or.inl hquiet.2
    · exact Or.inr ⟨rfl, hquiet⟩

variable [DecidableEq H] [DecidableEq W]

omit [DecidableEq W] in
theorem handlerShm_case {found : Bool} {s s' : Shm.St H W} {h : H} {a : HandlerAct}
    (hcase : HandlerShmCase found s h a s') : HandlerCase s.base h a s'.base := by
  cases hcase with
  | attach base _ hbase | msgrcv base _ hbase | chunk _ _ base _ hbase | other _ base _ _ hbase =>
    exact hbase

omit [DecidableEq H] in
theorem workerShm_handler {found : Bool} {s s' : Shm.St H W} {w : W} {a : WorkerAct}
    (hcase : WorkerShmCase files found s w a s') : s'.base.handler = s.base.handler := by
  cases hcase with
  | mapped base _ hbase | copy _ base _ hbase | other _ base _ _ hbase => exact hbase.frame.1
  | unmapped | killed => rfl

omit [DecidableEq W] in
theorem handlerShm_mapped {found : Bool} {s s' : Shm.St H W} {h : H} {a : HandlerAct}
    (hcase : HandlerShmCase found s h a s') : s'.mapped = s.mapped := by
  cases hcase <;> rfl

omit [DecidableEq W] in
theorem handler_cacheUp {base base' : Cache.St H W} {h : H} {a : HandlerAct}
    (hbase : HandlerCase base h a base') : base'.cacheUp = base.cacheUp := by
  cases hbase <;> rfl

omit [DecidableEq W] in
theorem handler_unasked {base base' : Cache.St H W} {h : H} {a : HandlerAct}
    (hbase : HandlerCase base h a base') {path sent : Bytes}
    (hh : base'.handler h = .finished path none sent) : sent = [] := by
  cases hbase with
  | request | preadFails | chunk | shortSend | finish =>
    simp only [Function.update_self] at hh
    cases hh
  | requestFails | msgrcvFails =>
    simp only [Function.update_self] at hh
    cases hh
    rfl
  | msgrcv =>
    simp only [Function.update_self, Handler.consume] at hh
    split at hh
    · cases hh
    · cases hh

/-- Without an answer nothing is sent. -/
def NothingUnasked (s : St H W) : Prop :=
  ∀ h path sent, s.shm.base.handler h = .finished path none sent → sent = []

theorem nothingUnasked_init : ∀ s : St H W, (sys files).Init s → NothingUnasked s := by
  rintro s ⟨_, _, _, _, _, _, _, _, hhandler, _⟩ h path sent hh
  rw [hhandler h] at hh
  cases hh

theorem nothingUnasked_step : ∀ (s : St H W) (a : Act H W) (s' : St H W), True →
    (sys files).step s a = some s' → NothingUnasked s → NothingUnasked s' := by
  intro s a s' _ hstep hinv
  cases step_cases hstep with
  | startProxy | msgget | startDaemon | connect | signal | stopDaemon => exact hinv
  | stopProxy => exact nofun
  | handler _ h a shm hproxy hshm =>
    have hbase := handlerShm_case (handlerShm_cases hshm)
    intro h' path sent hh'
    by_cases hne : h' = h
    · rw [hne] at hh'
      exact handler_unasked hbase hh'
    · simp only [handler_other hbase hne] at hh'
      exact hinv h' path sent hh'
  | worker _ w a shm hup hshm =>
    have hhandler := workerShm_handler (workerShm_cases hshm)
    intro h path sent hh
    simp only [hhandler] at hh
    exact hinv h path sent hh

theorem silent_step {s₀ : St H W} : ∀ (s : St H W) (a : Act H W) (s' : St H W),
    a.startsProxy = false → (sys files).step s a = some s' → Silent s₀ s → Silent s₀ s' := by
  intro s a s' hok hstep hinv
  cases step_cases hstep with
  | startProxy => cases hok
  | msgget => exact ⟨hinv.unlinked, hinv.workers, hinv.responses, hinv.handlers⟩
  | stopProxy =>
    -- its handlers are gone
    refine ⟨hinv.unlinked, ?_, hinv.responses, fun _ => Or.inl trivial⟩
    intro hup
    exact ⟨(hinv.workers hup).untouched, (hinv.workers hup).unmapped⟩
  | startDaemon => exact ⟨hinv.unlinked, hinv.workers, hinv.responses, hinv.handlers⟩
  -- the workers are new
  | connect => exact ⟨hinv.unlinked, fun _ => ⟨nofun, nofun⟩, hinv.responses, hinv.handlers⟩
  | signal req resp req' resp' =>
    refine ⟨rfl, nofun, ?_, hinv.handlers⟩
    intro r hr
    have hmem : r ∈ (if resp' then [] else s.shm.base.respQ) := hr
    split at hmem
    · cases hmem
    · exact hinv.responses r hmem
  | stopDaemon => exact ⟨hinv.unlinked, nofun, hinv.responses, hinv.handlers⟩
  | handler _ h a shm hproxy hshm =>
    have hcase := handlerShm_cases hshm
    have hbase := handlerShm_case hcase
    refine ⟨hinv.unlinked, ?_, ?_, ?_⟩
    · intro hup
      have hsame : shm.base.cacheUp = s.shm.base.cacheUp := handler_cacheUp hbase
      have hbare := hinv.workers (hsame.symm.trans hup)
      refine ⟨handlerShm_untouched hcase hbare.untouched, ?_⟩
      intro w path content transferred hw hne
      have hmapped : shm.mapped = s.shm.mapped := handlerShm_mapped hcase
      simp only [hbase.frame.1] at hw
      simp only [hmapped]
      exact hbare.unmapped w path content transferred hw hne
    · intro r hr
      exact hinv.responses r (hbase.respQ_subset r hr)
    · intro h'
      by_cases hne : h' = h
      · rw [hne]
        rcases handler_quiet hbase hinv.responses with hquiet | ⟨hsame, hnot⟩
        · exact Or.inl hquiet
        · rcases hinv.handlers h with hquiet | ⟨c, hc, hc₀⟩
          · exact absurd hquiet hnot
          · exact Or.inr ⟨c, hsame.trans hc, hc₀⟩
      · simp only [handler_other hbase hne]
        exact hinv.handlers h'
  | worker _ w a shm hup hshm =>
    -- without the name `shm_open` fails, with room for a descriptor or not
    rw [hinv.unlinked, Bool.false_and] at hshm
    have hcase := workerShm_cases hshm
    have hbare := hinv.workers hup
    refine ⟨hinv.unlinked, fun _ => bare_step hcase hbare,
      bare_responses hcase hbare hinv.responses, ?_⟩
    simp only [workerShm_handler hcase]
    exact hinv.handlers

end Silent

end IntroOS.Cache.Lifecycle
