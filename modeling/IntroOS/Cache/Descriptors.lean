import IntroOS.Base.Descriptors
import IntroOS.Cache.Shm
import IntroOS.Content.Descriptors

/-! # The descriptors of the segment

Every answer with a length costs the daemon a descriptor for the segment, and every call that reads
it costs one of the proxy: `shm_open` is called each time, and `close` never. When a table is full
`shm_open` fails.

* `step`: the protocol with the two tables;
* `limited_refines`: as long as there is room, this is the protocol;
* `descriptors_bound`: in any run, the answers and the calls that there were descriptors for.

`answered` and `began` are history.
-/

namespace IntroOS.Cache.Limited

open Shm

variable {H W : Type*} {d p : Nat}

/-! ## The program -/

/-- The system with the descriptors of `simplecached` and of `webproxy`. -/
structure St (H W : Type*) (d p : Nat) where
  shm : Shm.St H W
  cache : Table d
  proxy : Table p
  /-- how often the daemon answered with the length of a file that is not empty -/
  answered : Nat
  /-- how many calls of `handle_with_cache` read from the segment -/
  began : Nat

/-- What a worker in its copy loop is about to answer. -/
def contentOf : Worker → Bytes
  | .copying _ content _ => content
  | _ => []

/-- A handler that has sent nothing of its file. -/
def Handler.isFresh : Handler → Bool
  | .sending _ _ _ sent => sent.isEmpty
  | .idle | .waiting _ | .finished _ _ _ => false

/-- At `msgrcv`. -/
def HandlerAct.receives : HandlerAct → Bool
  | .msgrcv => true
  | _ => false

/-- A `pread` that returns something. -/
def HandlerAct.reads : HandlerAct → Bool
  | .chunk n _ => n != 0
  | _ => false

/-- The table after a call of `shm_open`. -/
def afterOpen {n : Nat} (t : Table n) : Table n := (t.openFd.map Prod.snd).getD t

section Step

variable [DecidableEq H] [DecidableEq W]

/-- A step of a worker, as long as the process runs. -/
def workerLimited (files : Bytes → Option Bytes) (s : St H W d p) (w : W) (a : WorkerAct) :
    Option (St H W d p) :=
  (workerShm files s.cache.openFd.isSome s.shm w a).map fun shm =>
    { s with
      shm := shm
      cache := if a = .truncate then afterOpen s.cache else s.cache
      answered :=
        if a = .msgsnd ∧ contentOf (s.shm.base.worker w) ≠ [] then s.answered + 1 else s.answered }

/-- A step of a handler. -/
def handlerLimited (s : St H W d p) (h : H) (a : HandlerAct) : Option (St H W d p) :=
  (handlerShm s.proxy.openFd.isSome s.shm h a).map fun shm =>
    { s with
      shm := shm
      proxy := if HandlerAct.receives a ∧ Handler.isSending (shm.base.handler h) then
        afterOpen s.proxy else s.proxy
      began := if HandlerAct.reads a ∧ Handler.isFresh (s.shm.base.handler h) then
        s.began + 1 else s.began }

/-- Handlers and workers in any interleaving. The two processes may have other descriptors. -/
def sys (files : Bytes → Option Bytes) (cache₀ : Table d) (proxy₀ : Table p) :
    Sys (St H W d p) (Act H W) where
  Init s := (Cache.sys files).Init s.shm.base ∧ s.cache = cache₀ ∧ s.proxy = proxy₀ ∧
    s.answered = 0 ∧ s.began = 0
  step s
    | .handler h a => handlerLimited s h a
    | .worker w a => if s.shm.base.cacheUp then workerLimited files s w a else none

/-- All threads between two calls. -/
def St.start (cache₀ : Table d) (proxy₀ : Table p) : St H W d p where
  shm := { base := Cache.St.start [], mapped := fun _ => false, opened := fun _ => false }
  cache := cache₀
  proxy := proxy₀
  answered := 0
  began := 0

theorem start_init {files : Bytes → Option Bytes} {cache₀ : Table d} {proxy₀ : Table p} :
    (sys files cache₀ proxy₀).Init (St.start cache₀ proxy₀ : St H W d p) :=
  ⟨Cache.start_init files [], rfl, rfl, rfl, rfl⟩

end Step

/-! ## As long as there is room -/

section Refinement

variable [DecidableEq H] [DecidableEq W] {files : Bytes → Option Bytes} {cache₀ : Table d}
  {proxy₀ : Table p}

/-- Both tables have room. -/
def HasRoom (s : St H W d p) (_ : Act H W) : Prop := 0 < s.cache.room ∧ 0 < s.proxy.room

instance (s : St H W d p) (a : Act H W) : Decidable (HasRoom s a) :=
  inferInstanceAs (Decidable (_ ∧ _))

theorem isSome_openFd {n : Nat} {t : Table n} (h : 0 < t.room) : t.openFd.isSome = true := by
  rcases Table.exists_openFd h with ⟨fd, t', hopen⟩
  rw [hopen]
  rfl

/-- With room for descriptors a step is a step of the protocol. -/
theorem room_step {s s' : St H W d p} {a : Act H W} (hroom : HasRoom s a)
    (hstep : (sys files cache₀ proxy₀).step s a = some s') (h : Attached s.shm) :
    (Cache.sys files).step s.shm.base a = some s'.shm.base ∧ Attached s'.shm := by
  cases a with
  | handler x b =>
    rcases Option.map_eq_some_iff.mp hstep with ⟨shm, hshm, rfl⟩
    exact ⟨handlerShm_base hshm,
      handlerShm_attached (handlerShm_cases hshm) (isSome_openFd hroom.2) h⟩
  | worker w b =>
    have hif : (if s.shm.base.cacheUp then workerLimited files s w b else none) = some s' := hstep
    show (if s.shm.base.cacheUp then workerStep files s.shm.base w b else none) = _ ∧ _
    split at hif
    · rename_i hup
      rcases Option.map_eq_some_iff.mp hif with ⟨shm, hshm, rfl⟩
      have hfound := isSome_openFd hroom.1
      rw [if_pos hup]
      exact ⟨workerShm_base h hfound hshm, workerShm_attached (workerShm_cases hshm) hfound h⟩
    · cases hif

/-- **With room it is the protocol.** As long as both tables have room, whatever is reached with
the descriptors is reached without them. -/
theorem limited_refines {s : St H W d p} (hs : (sys files cache₀ proxy₀).Reach HasRoom s) :
    (Cache.sys files).Reach (fun _ _ => True) s.shm.base := by
  have hinit : ∀ s : St H W d p, (sys files cache₀ proxy₀).Init s →
      (Cache.sys files).Reach (fun _ _ => True) s.shm.base ∧ Attached s.shm := by
    rintro s ⟨hinit, _⟩
    have hidle := hinit
    rcases hidle with ⟨_, _, _, _, _, _, hhandler, hworker, _⟩
    refine ⟨.init hinit, ?_, ?_⟩
    · intro w hcopying
      rw [hworker w] at hcopying
      cases hcopying
    · intro h hsending
      rw [hhandler h] at hsending
      cases hsending
  refine (Sys.Reach.inv hinit ?_ s hs).1
  intro s a s' hroom hstep hinv
  obtain ⟨hbase, hattached⟩ := room_step hroom hstep hinv.2
  exact ⟨.step a hinv.1 trivial hbase, hattached⟩

/-- A file of one byte, with two descriptors for each process. -/
theorem limited_refines_two : ∃ s : St (Fin 2) (Fin 1) 5 5,
    (Cache.sys twoFiles).Reach (fun _ _ => True) s.shm.base ∧ s.shm.base.seg = ascii "x" ∧
      s.cache.room = 1 ∧ s.proxy.room = 1 := by
  have hrun : ((sys twoFiles (Table.standard 2) (Table.standard 2)).run
      (St.start (Table.standard 2) (Table.standard 2) : St (Fin 2) (Fin 1) 5 5)
      (.handler 0 (.request pathA) :: serveOne ++ [.handler 0 .msgrcv])).map
      (fun s => (s.shm.base.seg, s.cache.room, s.proxy.room)) = some (ascii "x", 1, 1) := by decide
  rcases Option.map_eq_some_iff.mp hrun with ⟨s, hs, hout⟩
  rw [Prod.mk.injEq, Prod.mk.injEq] at hout
  exact ⟨s, limited_refines (Sys.reach_of_run (.init start_init) (by decide) hs), hout⟩

end Refinement

/-! ## In any run -/

/-- A worker with a descriptor for an answer that is not sent. -/
def unanswered (x : Worker × Bool) : Bool := x.2 && !(contentOf x.1).isEmpty

/-- A handler with a descriptor that it has not read from. -/
def unread (x : Handler × Bool) : Bool := x.2 && Handler.isFresh x.1

section Threads

variable {files : Bytes → Option Bytes} {base base' : Cache.St H W}

theorem unanswered_of_nil {x : Worker} {m : Bool} (h : contentOf x = []) :
    unanswered (x, m) = false := by
  unfold unanswered
  rw [h]
  exact Bool.and_false m

theorem unread_of_not_fresh {x : Handler} {o : Bool} (h : ¬ Handler.isFresh x = true) :
    unread (x, o) = false := by
  unfold unread
  rw [Bool.not_eq_true] at h
  rw [h]
  exact Bool.and_false o

theorem afterOpen_room {n : Nat} (t : Table n) :
    (afterOpen t).room + t.openFd.isSome.toNat = t.room := by
  unfold afterOpen
  cases hopen : t.openFd with
  | none => rfl
  | some found => exact (Table.openFd_spec hopen).2.2

/-- What a worker owes does not grow. -/
theorem unanswered_le [DecidableEq W] {w : W} {a : WorkerAct}
    (hbase : WorkerCase files base w a base') (ha : a ≠ .truncate) (m : Bool) :
    (unanswered (base'.worker w, m)).toNat ≤ (unanswered (base.worker w, m)).toNat := by
  cases hw : base'.worker w with
  | copying path content transferred =>
    rcases worker_copying hbase hw with ⟨htruncate, _⟩ | ⟨_, _, _, _, _, hbefore⟩ | hbefore
    · exact absurd htruncate ha
    · rw [hbefore]
      exact Nat.le_refl _
    · rw [hbefore]
  | idle | receiving | received | lookup | missing | statFailed | removing | found | truncating
  | posted | returned =>
    rw [unanswered_of_nil rfl]
    exact Nat.zero_le _

/-- A worker answers for a file that is not empty when some of it is copied. -/
theorem answer_contentOf {x next : Worker} {r : Response} (h : x.answer = some (r, next))
    (hne : contentOf x ≠ []) :
    contentOf next = [] ∧
      ∃ path content transferred, x = .copying path content transferred ∧ 0 < transferred := by
  rcases Worker.answer_cases h with ⟨_, _, ⟨rfl, _⟩ | ⟨rfl, _⟩⟩ |
    ⟨path, content, transferred, rfl, hdone, _, rfl⟩
  · exact absurd rfl hne
  · exact absurd rfl hne
  · have hpos : 0 < content.length := List.length_pos_iff.mpr hne
    exact ⟨rfl, path, content, transferred, rfl, by omega⟩

/-- A handler comes to its first read by `msgrcv` only, and leaves it with the first bytes. -/
theorem handler_isFresh [DecidableEq H] {h : H} {a : HandlerAct}
    (hbase : HandlerCase base h a base') (ha : a ≠ .msgrcv) :
    ¬ Handler.isFresh (base'.handler h) = true := by
  cases hbase with
  | request | requestFails | msgrcvFails | preadFails | shortSend | finish =>
    simp only [Function.update_self]
    exact nofun
  | msgrcv => exact absurd rfl ha
  | chunk n path r fileLen sent hh hlt hn hle =>
    simp only [Function.update_self]
    intro hfresh
    have hnil : sent ++ (base.seg.drop sent.length).take n = [] := List.isEmpty_iff.mp hfresh
    have hlen := congrArg List.length hnil
    rw [List.length_append, List.length_take, List.length_drop, List.length_nil] at hlen
    omega

theorem isSending_of_isFresh {x : Handler} (h : Handler.isFresh x = true) :
    Handler.isSending x = true := by
  cases x with
  | sending => rfl
  | idle | waiting | finished => cases h

end Threads

section Bound

variable [Fintype H] [Fintype W] {files : Bytes → Option Bytes} {cache₀ : Table d}
  {proxy₀ : Table p} {s : St H W d p} {shm : Shm.St H W}

/-- Every descriptor is used for one answer and one call at most. -/
structure Ledger (cache₀ : Table d) (proxy₀ : Table p) (s : St H W d p) : Prop where
  cache : s.answered + countThreads unanswered (fun w => (s.shm.base.worker w, s.shm.mapped w)) +
    s.cache.room ≤ cache₀.room
  proxy : s.began + countThreads unread (fun h => (s.shm.base.handler h, s.shm.opened h)) +
    s.proxy.room ≤ proxy₀.room
  untouched : Untouched s.shm

/-- A handler goes on, and nothing of the proxy's descriptors is used twice. -/
theorem Ledger.handler_move [DecidableEq H] (hledger : Ledger cache₀ proxy₀ s) {h : H}
    {proxy : Table p} {began : Nat} (hworker : shm.base.worker = s.shm.base.worker)
    (hmapped : shm.mapped = s.shm.mapped)
    (hother : ∀ h', h' ≠ h → shm.base.handler h' = s.shm.base.handler h')
    (hopened : ∀ h', h' ≠ h → shm.opened h' = s.shm.opened h')
    (hbalance : began + (unread (shm.base.handler h, shm.opened h)).toNat + proxy.room ≤
      s.began + (unread (s.shm.base.handler h, s.shm.opened h)).toNat + s.proxy.room)
    (huntouched : Untouched shm) :
    Ledger cache₀ proxy₀ { s with shm := shm, proxy := proxy, began := began } := by
  refine ⟨?_, ?_, huntouched⟩
  · simp only [hworker, hmapped]
    exact hledger.cache
  · have hothers : ∀ h', h' ≠ h →
        (shm.base.handler h', shm.opened h') = (s.shm.base.handler h', s.shm.opened h') := by
      intro h' hne
      rw [hother h' hne, hopened h' hne]
    have hcount : countThreads unread (fun h' => (shm.base.handler h', shm.opened h')) +
        (unread (s.shm.base.handler h, s.shm.opened h)).toNat =
        countThreads unread (fun h' => (s.shm.base.handler h', s.shm.opened h')) +
          (unread (shm.base.handler h, shm.opened h)).toNat := countThreads_of_others hothers
    have hproxy := hledger.proxy
    simp only
    omega

/-- The same for a worker and the descriptors of the daemon. -/
theorem Ledger.worker_move [DecidableEq W] (hledger : Ledger cache₀ proxy₀ s) {w : W}
    {cache : Table d} {answered : Nat} (hhandler : shm.base.handler = s.shm.base.handler)
    (hopened : shm.opened = s.shm.opened)
    (hother : ∀ w', w' ≠ w → shm.base.worker w' = s.shm.base.worker w')
    (hmapped : ∀ w', w' ≠ w → shm.mapped w' = s.shm.mapped w')
    (hbalance : answered + (unanswered (shm.base.worker w, shm.mapped w)).toNat + cache.room ≤
      s.answered + (unanswered (s.shm.base.worker w, s.shm.mapped w)).toNat + s.cache.room)
    (huntouched : Untouched shm) :
    Ledger cache₀ proxy₀ { s with shm := shm, cache := cache, answered := answered } := by
  refine ⟨?_, ?_, huntouched⟩
  · have hothers : ∀ w', w' ≠ w →
        (shm.base.worker w', shm.mapped w') = (s.shm.base.worker w', s.shm.mapped w') := by
      intro w' hne
      rw [hother w' hne, hmapped w' hne]
    have hcount : countThreads unanswered (fun w' => (shm.base.worker w', shm.mapped w')) +
        (unanswered (s.shm.base.worker w, s.shm.mapped w)).toNat =
        countThreads unanswered (fun w' => (s.shm.base.worker w', s.shm.mapped w')) +
          (unanswered (shm.base.worker w, shm.mapped w)).toNat := countThreads_of_others hothers
    have hcache := hledger.cache
    simp only
    omega
  · simp only [hhandler, hopened]
    exact hledger.proxy

theorem worker_ledger [DecidableEq W] {s' : St H W d p} {w : W} {a : WorkerAct}
    (hstep : workerLimited files s w a = some s') (hledger : Ledger cache₀ proxy₀ s) :
    Ledger cache₀ proxy₀ s' := by
  rcases Option.map_eq_some_iff.mp hstep with ⟨shm, hshm, rfl⟩
  have hcase := workerShm_cases hshm
  have huntouched := workerShm_untouched hcase hledger.untouched
  have hroom := afterOpen_room s.cache
  cases hcase with
  | mapped base hfound hbase =>
    refine hledger.worker_move hbase.frame.1 rfl (fun w' hne => worker_other hbase hne)
      (fun w' hne => Function.update_of_ne hne _ _) ?_ huntouched
    have hone := Bool.toNat_le (unanswered (base.worker w, Function.update s.shm.mapped w true w))
    rw [hfound, Bool.toNat_true] at hroom
    rw [if_pos rfl, if_neg (fun h => nomatch h.1)]
    simp only
    omega
  | unmapped path content hfound hw =>
    refine hledger.worker_move (w := w) rfl rfl (fun w' hne => Function.update_of_ne hne _ _)
      (fun w' hne => Function.update_of_ne hne _ _) ?_ huntouched
    rw [if_pos rfl, if_neg (fun h => nomatch h.1)]
    simp only [Function.update_self, unanswered, Bool.false_and, Bool.toNat_false]
    omega
  | copy n base hmapped hbase =>
    refine hledger.worker_move hbase.frame.1 rfl (fun w' hne => worker_other hbase hne)
      (fun _ _ => rfl) ?_ huntouched
    have hle := unanswered_le hbase nofun (s.shm.mapped w)
    rw [if_neg (fun h => nomatch h.1), if_neg nofun]
    simp only
    omega
  | killed n hmapped hn hw =>
    refine hledger.worker_move (w := w) rfl rfl (fun _ _ => rfl) (fun _ _ => rfl) ?_ huntouched
    rw [if_neg (fun h => nomatch h.1), if_neg nofun]
  | other a base htruncate hcopy hbase =>
    refine hledger.worker_move hbase.frame.1 rfl (fun w' hne => worker_other hbase hne)
      (fun _ _ => rfl) ?_ huntouched
    rw [if_neg htruncate]
    split
    · rename_i hsnd
      obtain ⟨rfl, hne⟩ := hsnd
      cases hbase with
      | msgsnd r next hanswer =>
        obtain ⟨hnext, path, content, transferred, hw, hpos⟩ := answer_contentOf hanswer hne
        -- something is copied, so the answer has its descriptor
        have hmapped : s.shm.mapped w = true := by
          by_contra hnot
          have hzero := hledger.untouched w path content transferred hw (by simpa using hnot)
          omega
        have hbefore : unanswered (s.shm.base.worker w, s.shm.mapped w) = true := by
          simp [unanswered, hmapped, hne]
        simp only [Function.update_self]
        rw [unanswered_of_nil hnext, hbefore]
        exact Nat.le_refl _
    · have hle := unanswered_le hbase htruncate (s.shm.mapped w)
      simp only
      omega

theorem handler_ledger [DecidableEq H] {s' : St H W d p} {h : H} {a : HandlerAct}
    (hstep : handlerLimited s h a = some s') (hledger : Ledger cache₀ proxy₀ s) :
    Ledger cache₀ proxy₀ s' := by
  rcases Option.map_eq_some_iff.mp hstep with ⟨shm, hshm, rfl⟩
  have hcase := handlerShm_cases hshm
  have huntouched := handlerShm_untouched hcase hledger.untouched
  have hroom := afterOpen_room s.proxy
  cases hcase with
  | attach base hsending hbase =>
    refine hledger.handler_move hbase.frame.1 rfl (fun h' hne => handler_other hbase hne)
      (fun h' hne => Function.update_of_ne hne _ _) ?_ huntouched
    rw [if_neg (fun h => nomatch h.1), if_pos ⟨rfl, hsending⟩]
    simp only [Function.update_self]
    have hle : (unread (base.handler h, s.proxy.openFd.isSome)).toNat ≤
        s.proxy.openFd.isSome.toNat := by
      unfold unread
      exact Bool.toNat_le_toNat Bool.and_elim_left
    omega
  | msgrcv base hsending hbase =>
    refine hledger.handler_move hbase.frame.1 rfl (fun h' hne => handler_other hbase hne)
      (fun _ _ => rfl) ?_ huntouched
    rw [if_neg (fun h => nomatch h.1), if_neg (fun h => hsending h.2),
      unread_of_not_fresh fun hfresh => hsending (isSending_of_isFresh hfresh), Bool.toNat_false]
    omega
  | chunk n m base hopened hbase =>
    refine hledger.handler_move hbase.frame.1 rfl (fun h' hne => handler_other hbase hne)
      (fun _ _ => rfl) ?_ huntouched
    have hreceives : ¬ (HandlerAct.receives (.chunk n m) = true ∧
        Handler.isSending (base.handler h) = true) := fun h => nomatch h.1
    rw [if_neg hreceives, unread_of_not_fresh (handler_isFresh hbase nofun), Bool.toNat_false]
    split
    · rename_i hfirst
      have hunread : unread (s.shm.base.handler h, s.shm.opened h) = true := by
        have hopen := hopened.resolve_right (by simpa [HandlerAct.reads] using hfirst.1)
        simp [unread, hopen, hfirst.2]
      rw [hunread, Bool.toNat_true]
    · omega
  | other a base hmsgrcv hchunk hbase =>
    refine hledger.handler_move hbase.frame.1 rfl (fun h' hne => handler_other hbase hne)
      (fun _ _ => rfl) ?_ huntouched
    have hreceives : ¬ HandlerAct.receives a = true := by
      cases a with
      | msgrcv => exact absurd rfl hmsgrcv
      | request | requestFails | msgrcvFails | chunk | finish => exact nofun
    have hreads : ¬ HandlerAct.reads a = true := by
      cases a with
      | chunk n m => exact absurd rfl (hchunk n m)
      | request | requestFails | msgrcvFails | msgrcv | finish => exact nofun
    rw [if_neg (fun h => hreads h.1), if_neg (fun h => hreceives h.1),
      unread_of_not_fresh (handler_isFresh hbase hmsgrcv), Bool.toNat_false]
    omega

variable [DecidableEq H] [DecidableEq W]

theorem ledger_reach (hs : (sys files cache₀ proxy₀).Reach (fun _ _ => True) s) :
    Ledger cache₀ proxy₀ s := by
  have hinit : ∀ s : St H W d p, (sys files cache₀ proxy₀).Init s → Ledger cache₀ proxy₀ s := by
    rintro s ⟨⟨_, _, _, _, _, _, hhandler, hworker, _⟩, hcache, hproxy, hanswered, hbegan⟩
    refine ⟨?_, ?_, ?_⟩
    · have hnone : countThreads unanswered
          (fun w => (s.shm.base.worker w, s.shm.mapped w)) = 0 := by
        refine countThreads_eq_zero.mpr fun w => unanswered_of_nil ?_
        rw [hworker w]
        rfl
      rw [hanswered, hnone, hcache]
      omega
    · have hnone : countThreads unread (fun h => (s.shm.base.handler h, s.shm.opened h)) = 0 := by
        refine countThreads_eq_zero.mpr fun h => unread_of_not_fresh ?_
        rw [hhandler h]
        exact nofun
      rw [hbegan, hnone, hproxy]
      omega
    · intro w path content transferred hw
      rw [hworker w] at hw
      cases hw
  have hstep : ∀ (s : St H W d p) (a : Act H W) (s' : St H W d p), True →
      (sys files cache₀ proxy₀).step s a = some s' → Ledger cache₀ proxy₀ s →
        Ledger cache₀ proxy₀ s' := by
    intro s a s' _ hstep hledger
    cases a with
    | handler h b => exact handler_ledger hstep hledger
    | worker w b =>
      have hif : (if s.shm.base.cacheUp then workerLimited files s w b else none) = some s' := hstep
      split at hif
      · exact worker_ledger hif hledger
      · cases hif
  exact Sys.Reach.inv hinit hstep s hs

/-- **The segment's descriptors.** For any number of handlers and workers, in any run and whatever
fails: the daemon answers for no more files that are not empty than it had descriptors free when
it started, and no more calls of `handle_with_cache` read from the segment than the proxy had. -/
theorem descriptors_bound (hs : (sys files cache₀ proxy₀).Reach (fun _ _ => True) s) :
    s.answered ≤ cache₀.room ∧ s.began ≤ proxy₀.room := by
  have hledger := ledger_reach hs
  have hcache := hledger.cache
  have hproxy := hledger.proxy
  omega

/-- One descriptor left: the second file ends the daemon. -/
theorem descriptors_bound_last : ∃ s : St (Fin 2) (Fin 1) 4 4,
    (s.answered ≤ (Table.standard 1).room ∧ s.began ≤ (Table.standard 1).room) ∧
      s.answered = 1 ∧ s.shm.base.asked = [ascii "/a", ascii "/b"] ∧
      s.shm.base.cacheUp = false := by
  have hrun : ((sys twoFiles (Table.standard 1) (Table.standard 1)).run
      (St.start (Table.standard 1) (Table.standard 1) : St (Fin 2) (Fin 1) 4 4)
      ([.handler 0 (.request pathA), .handler 1 (.request pathB)] ++ serveOne ++
        serveOne.take 7)).map
      (fun s => (s.answered, s.shm.base.asked, s.shm.base.cacheUp)) =
      some (1, [ascii "/a", ascii "/b"], false) := by decide
  rcases Option.map_eq_some_iff.mp hrun with ⟨s, hs, hout⟩
  rw [Prod.mk.injEq, Prod.mk.injEq] at hout
  refine ⟨s, ?_, hout⟩
  apply descriptors_bound
  exact Sys.reach_of_run (.init start_init) (Sys.runOk_of_all fun _ _ => trivial) hs

/-- The rows of the index and the answers share the descriptors of the daemon. -/
theorem daemon_descriptors {qsort : List Content.Item → List Content.Item} {junk : Nat → Bytes}
    {rows : List Content.Row} {there : Bytes → Bool} {t t' : Table d} {items : List Content.Item}
    (hsort : Content.Sorts qsort) (hok : ∀ row ∈ rows, row.Ok Content.Simplecache.maxKeylen)
    (hlen : rows.length < 2 ^ 30)
    (hinit : Content.IndexInitFrom Content.Simplecache.maxKeylen qsort junk there t
      (some (Content.fileOf rows)) (.ok (items, t')))
    (hs : (sys files t' proxy₀).Reach (fun _ _ => True) s) :
    rows.length + s.answered ≤ t.room := by
  have hcache := (ledger_reach hs).cache
  have hroom := Content.indexInitFrom_room hsort hok hlen hinit
  omega

end Bound

end IntroOS.Cache.Limited
