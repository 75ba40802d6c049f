import IntroOS.Minify.WorkerPool

/-! # The exit value of `minifyjpeg_main.c`

Each thread of the pool has an `int` that every call of `minify_via_rpc` overwrites and that the
thread returns; `main` joins the threads in order and returns the first of these values that is
not 0. The two copies of the program differ in what the `int` is before the first call.

1. **Threads**: the worker pool with the calls of `minify_via_rpc`.
2. **Main**: the two join loops.
3. **Property**: `Succeeded` says that every request returned `RPC_SUCCESS`.

`get_minify_client` ends the program if it cannot connect; here every thread has its client.
`calls` is history.
-/

namespace IntroOS.Minify.ExitValue

open WorkerPool

variable {A R W : Type*}

/-! ## Threads -/

/-- `enum clnt_stat`, in the order of the values. -/
inductive ClntStat where
  | success
  | cantEncodeArgs
  | cantDecodeRes
  | cantSend
  | cantRecv
  | timedOut
  | versMismatch
  | authError
  | progUnavail
  | progVersMismatch
  | procUnavail
  | cantDecodeArgs
  | systemError
  | unknownHost
  | rpcbFailure
  | progNotRegistered
  | failed
  | unknownProto
  | intr
  | unknownAddr
  | tliError
  | noBroadcast
  | n2axlateFailure
  | udError
  | inProgress
  | staleRacHandle
deriving DecidableEq, Repr

/-- The result of `minify_via_rpc`, `(int) clnt_stat`. -/
def ClntStat.toInt (stat : ClntStat) : Int := stat.ctorIdx

/-- A call of `minify_via_rpc` that returned. -/
structure Call (R W : Type*) where
  thread : W
  request : R
  stat : ClntStat
deriving DecidableEq, Repr

structure St (A R W : Type*) where
  pool : WorkerPool.St A R W
  /-- `*code` of each thread -/
  code : W → Int
  calls : List (Call R W)

/-- An action of the pool. If it is a `process`, `stat` is what the call returns. -/
structure Act (W : Type*) where
  pool : WorkerPool.Act W
  stat : ClntStat
deriving DecidableEq, Repr

section Step

variable [DecidableEq A] [DecidableEq W]

/-- `*code = minify_via_rpc(..)`. -/
def St.call (s : St A R W) (w : W) (request : R) (stat : ClntStat) : St A R W :=
  { s with
    code := Function.update s.code w stat.toInt
    calls := s.calls ++ [⟨w, request, stat⟩] }

/-- What an action does beside the pool. -/
def St.record (s : St A R W) (a : Act W) : St A R W :=
  match a.pool with
  | .process w =>
    match s.pool.worker w with
    | .working request => s.call w request a.stat
    | _ => s
  | _ => s

/-- The threads in any interleaving, with any outcome of the calls. `*code` is `fresh w` before
the first call of `w`. -/
def sys (fresh : W → Int) (requests : List R) : Sys (St A R W) (Act W) where
  Init s := (WorkerPool.sys requests).Init s.pool ∧ s.code = fresh ∧ s.calls = []
  step s a := ((WorkerPool.sys requests).step s.pool a.pool).map fun pool =>
    { s.record a with pool := pool }

end Step

/-! ## Main -/

/-- The threads `main` has joined, and its `code`. -/
structure Joins (W : Type*) where
  joined : List W
  code : Option Int
deriving DecidableEq, Repr

/-- The inner loop: the results are freed. -/
def joinRest (m : Joins W) : List W → Joins W
  | [] => m
  | w :: rest => joinRest { m with joined := m.joined ++ [w] } rest

/-- The outer loop, which ends behind the inner one. -/
def joinLoop (result : W → Int) (m : Joins W) : List W → Joins W
  | [] => m
  | w :: rest =>
    let m := { joined := m.joined ++ [w], code := some (result w) }
    -- behind the inner loop `i` is past the last thread
    if result w ≠ 0 then joinRest m rest else joinLoop result m rest

/-- All of `pthreads`. -/
def joinAll {n : Nat} (result : Fin n → Int) : Joins (Fin n) :=
  joinLoop result { joined := [], code := none } (List.finRange n)

/-- The exit value of a program that has come to its end: `EXIT_FAILURE` from `read_from_file`,
or else the low byte of what `main` returns. -/
def exitValue {n : Nat} (s : St A R (Fin n)) : Option Int :=
  match s.pool.ended with
  | some .unreadable => some 1
  | some (.fault _) => none
  | none => (joinAll s.code).code.map (· % 256)

/-- The two copies of the program. -/
inductive Copy where
  | rpcMt
  | single
deriving DecidableEq, Repr

/-- What `calloc` or `malloc` leave in the `int`. -/
def Copy.fresh (junk : W → Int) : Copy → W → Int
  | .rpcMt => fun _ => 0
  | .single => junk

/-! ## Property -/

/-- Every request of the workload returned `RPC_SUCCESS`. -/
structure Succeeded (requests : List R) (calls : List (Call R W)) : Prop where
  each : (calls.map Call.request).Perm requests
  success : ∀ c ∈ calls, c.stat = .success

section Condition

variable [DecidableEq W]

def callsOf (w : W) (calls : List (Call R W)) : List (Call R W) :=
  calls.filter fun c => c.thread = w

/-- The outcome of the last call of a thread. -/
def lastStat (w : W) (calls : List (Call R W)) : Option ClntStat :=
  (callsOf w calls).getLast?.map Call.stat

/-- The last call of some thread failed. -/
def LastFails (calls : List (Call R W)) : Prop :=
  ∃ w stat, lastStat w calls = some stat ∧ stat ≠ .success

/-- The last call of the thread succeeded; without a call its `int` happens to be 0. -/
def Quiet (junk : W → Int) (calls : List (Call R W)) (w : W) : Prop :=
  match lastStat w calls with
  | some stat => stat = .success
  | none => junk w = 0

/-- The last call of the thread failed; without a call the low byte of its `int` is not 0. -/
def Shows (junk : W → Int) (calls : List (Call R W)) (w : W) : Prop :=
  match lastStat w calls with
  | some stat => stat ≠ .success
  | none => junk w % 256 ≠ 0

/-- Fewer than 2^32 requests, and no call failed. -/
def NoneFails (requests : List R) (calls : List (Call R W)) : Prop :=
  requests.length < 2 ^ 32 ∧ ∀ c ∈ calls, c.stat = .success

/-- The threads before `w` that got no request have 0 in their `int`. -/
def ZeroBefore {n : Nat} (junk : Fin n → Int) (calls : List (Call R (Fin n))) (w : Fin n) : Prop :=
  ∀ w' < w, callsOf w' calls = [] → junk w' = 0

/-- The last call of a thread failed, and no thread before it reports what was in its `int`. -/
def FailsFirst {n : Nat} (junk : Fin n → Int) (calls : List (Call R (Fin n))) : Prop :=
  ∃ w, (∃ stat, lastStat w calls = some stat ∧ stat ≠ .success) ∧ ZeroBefore junk calls w

/-- Of the threads that got no request, the first one whose `int` is not 0 has a low byte that is
not 0. -/
def JunkShows {n : Nat} (junk : Fin n → Int) (calls : List (Call R (Fin n))) : Prop :=
  ∃ w, callsOf w calls = [] ∧ junk w % 256 ≠ 0 ∧ ZeroBefore junk calls w

/-- A file could not be opened, no call failed, or the last call of a thread did. In the copy with
`malloc`, a thread that got no request returns what is in its `int`: this has to be silent if no
call failed, and may stand in for a failure. -/
def HoldsWhen {n : Nat} (junk : Fin n → Int) (requests : List R) (s : St A R (Fin n)) :
    Copy → Prop
  | .rpcMt => s.pool.ended = some .unreadable ∨ NoneFails requests s.calls ∨ LastFails s.calls
  | .single => s.pool.ended = some .unreadable ∨
      (NoneFails requests s.calls ∧ ¬ JunkShows junk s.calls) ∨ FailsFirst junk s.calls ∨
      (¬ NoneFails requests s.calls ∧ JunkShows junk s.calls)

end Condition

/-! ## The join loops -/

theorem joinRest_eq (m : Joins W) (l : List W) :
    joinRest m l = { m with joined := m.joined ++ l } := by
  induction l generalizing m with
  | nil =>
    rw [List.append_nil]
    rfl
  | cons w l ih =>
    unfold joinRest
    rw [ih, List.append_assoc]
    rfl

/-- Every thread is joined once. -/
theorem joinLoop_joined (result : W → Int) (m : Joins W) (l : List W) :
    (joinLoop result m l).joined = m.joined ++ l := by
  induction l generalizing m with
  | nil => exact (List.append_nil _).symm
  | cons w l ih =>
    unfold joinLoop
    split
    · rw [joinRest_eq]
      exact List.append_assoc _ _ _
    · rw [ih]
      exact List.append_assoc _ _ _

/-- The first result that is not 0. -/
theorem joinLoop_code (result : W → Int) (m : Joins W) {l : List W} (hl : l ≠ []) :
    (joinLoop result m l).code =
      some (((l.find? fun w => result w ≠ 0).map result).getD 0) := by
  induction l generalizing m with
  | nil => exact absurd rfl hl
  | cons w l ih =>
    unfold joinLoop
    -- `code` is overwritten until it is not 0
    by_cases hw : result w = 0
    · rw [if_neg (not_not.mpr hw), List.find?_cons_of_neg (by simpa using hw)]
      by_cases hrest : l = []
      · rw [hrest]
        exact congrArg some hw
      · exact ih _ hrest
    · rw [if_pos hw, joinRest_eq, List.find?_cons_of_pos (by simpa using hw)]
      rfl

theorem joinAll_joined {n : Nat} (result : Fin n → Int) :
    (joinAll result).joined = List.finRange n :=
  joinLoop_joined result _ _

/-- The first thread that does not return 0. -/
theorem find_finRange {n : Nat} {result : Fin n → Int} {w : Fin n}
    (h : (List.finRange n).find? (fun w => result w ≠ 0) = some w) :
    result w ≠ 0 ∧ ∀ w' < w, result w' = 0 := by
  rw [List.find?_eq_some_iff_getElem] at h
  rcases h with ⟨hw, i, hi, hget, hbefore⟩
  rw [List.getElem_finRange] at hget
  refine ⟨by simpa using hw, ?_⟩
  intro w' hlt
  have hlt' : w'.val < i := by
    rw [← hget] at hlt
    exact hlt
  have hzero := hbefore w'.val hlt'
  rw [List.getElem_finRange] at hzero
  simpa using hzero

/-- The low byte of what `main` returns. -/
theorem joinAll_code {n : Nat} (hn : 0 < n) (result : Fin n → Int) :
    ∃ code, (joinAll result).code = some code ∧
      (code % 256 ≠ 0 ↔ ∃ w, (∀ w' < w, result w' = 0) ∧ result w % 256 ≠ 0) := by
  have hne : List.finRange n ≠ [] := by
    intro hnil
    have hlen := List.length_finRange (n := n)
    rw [hnil] at hlen
    exact absurd hlen (Nat.ne_of_lt hn)
  refine ⟨_, joinLoop_code result _ hne, ?_⟩
  cases hfind : (List.finRange n).find? fun w => result w ≠ 0 with
  | none =>
    rw [List.find?_eq_none] at hfind
    refine iff_of_false (not_not.mpr rfl) ?_
    rintro ⟨w, _, hw⟩
    have hzero : result w = 0 := by simpa using hfind w (List.mem_finRange w)
    rw [hzero] at hw
    exact hw rfl
  | some w =>
    have hfirst := find_finRange hfind
    constructor
    · intro hcode
      exact ⟨w, hfirst.2, hcode⟩
    · rintro ⟨w₁, hbefore, hw₁⟩
      have hne₁ : result w₁ ≠ 0 := by
        intro hzero
        rw [hzero] at hw₁
        exact hw₁ rfl
      rcases lt_trichotomy w w₁ with hlt | heq | hgt
      · exact absurd (hbefore w hlt) hfirst.1
      · rw [heq]
        exact hw₁
      · exact absurd (hfirst.2 w₁ hgt) hne₁

/-! ## The calls of a thread -/

section Threads

variable [DecidableEq W] {requests : List R} {fresh : W → Int} {s s' : St A R W}
  {cells : List (A × R)} {a : Act W}

theorem callsOf_append_self (w : W) (calls : List (Call R W)) (request : R) (stat : ClntStat) :
    callsOf w (calls ++ [⟨w, request, stat⟩]) = callsOf w calls ++ [⟨w, request, stat⟩] := by
  simp [callsOf]

theorem callsOf_append_of_ne {w w' : W} (hw : w' ≠ w) (calls : List (Call R W)) (request : R)
    (stat : ClntStat) : callsOf w' (calls ++ [⟨w, request, stat⟩]) = callsOf w' calls := by
  simp [callsOf, Ne.symm hw]

theorem lastStat_append_self (w : W) (calls : List (Call R W)) (request : R) (stat : ClntStat) :
    lastStat w (calls ++ [⟨w, request, stat⟩]) = some stat := by
  unfold lastStat
  rw [callsOf_append_self, List.getLast?_concat]
  rfl

theorem lastStat_append_of_ne {w w' : W} (hw : w' ≠ w) (calls : List (Call R W)) (request : R)
    (stat : ClntStat) : lastStat w' (calls ++ [⟨w, request, stat⟩]) = lastStat w' calls := by
  unfold lastStat
  rw [callsOf_append_of_ne hw]

/-- A last call is a call. -/
theorem mem_of_lastStat {w : W} {calls : List (Call R W)} {stat : ClntStat}
    (h : lastStat w calls = some stat) : ∃ c ∈ calls, c.stat = stat := by
  rcases Option.map_eq_some_iff.mp h with ⟨c, hc, hstat⟩
  exact ⟨c, List.mem_of_mem_filter (List.mem_of_getLast? hc), hstat⟩

/-- What a thread has called `minify_via_rpc` for is what it processed, its `*code` is the last
outcome, and `read_from_file` ends the program in the hands of a thread with a request. -/
structure Recorded (fresh : W → Int) (s : St A R W) : Prop where
  own : ∀ w, (callsOf w s.calls).map Call.request = s.pool.processed w
  code : ∀ w, s.code w = ((lastStat w s.calls).map ClntStat.toInt).getD (fresh w)
  unreadable : s.pool.ended = some .unreadable → ∃ w request, s.pool.worker w = .working request

/-- A step of the pool that is no call. -/
theorem Recorded.keep (h : Recorded fresh s) {pool : WorkerPool.St A R W}
    (hprocessed : pool.processed = s.pool.processed)
    (hunreadable : pool.ended = some .unreadable → ∃ w request, pool.worker w = .working request) :
    Recorded fresh { s with pool := pool } := by
  refine ⟨?_, h.code, hunreadable⟩
  intro w
  show (callsOf w s.calls).map Call.request = pool.processed w
  rw [hprocessed]
  exact h.own w

/-- A call that returned. -/
theorem Recorded.call (h : Recorded fresh s) {w : W} {request : R} {stat : ClntStat}
    {pool : WorkerPool.St A R W}
    (hprocessed : pool.processed =
      Function.update s.pool.processed w (s.pool.processed w ++ [request]))
    (hended : pool.ended ≠ some .unreadable) :
    Recorded fresh { s.call w request stat with pool := pool } := by
  refine ⟨?_, ?_, fun hun => absurd hun hended⟩
  · intro w'
    show (callsOf w' (s.calls ++ [⟨w, request, stat⟩])).map Call.request = pool.processed w'
    rw [hprocessed]
    by_cases hne : w' = w
    · rw [hne, Function.update_self, callsOf_append_self, List.map_append, h.own w]
      rfl
    · rw [Function.update_of_ne hne, callsOf_append_of_ne hne]
      exact h.own w'
  · intro w'
    show Function.update s.code w stat.toInt w' =
      ((lastStat w' (s.calls ++ [⟨w, request, stat⟩])).map ClntStat.toInt).getD (fresh w')
    by_cases hne : w' = w
    · rw [hne, Function.update_self, lastStat_append_self]
      rfl
    · rw [Function.update_of_ne hne, lastStat_append_of_ne hne]
      exact h.code w'

variable [DecidableEq A]

theorem step_recorded (hstep : (sys fresh requests).step s a = some s') (h : Recorded fresh s) :
    Recorded fresh s' := by
  rcases a with ⟨act, stat⟩
  rcases Option.map_eq_some_iff.mp hstep with ⟨pool, hpool, rfl⟩
  rcases sys_step_cases hpool with ⟨hended, hcase⟩
  have hrunning : s.pool.ended ≠ some .unreadable := by
    rw [hended]
    exact (Option.some_ne_none _).symm
  cases hcase with
  | lock | test | pop | unlockPopped | unlockEmpty =>
    exact h.keep rfl fun hun => absurd hun hrunning
  | popFails => exact h.keep rfl fun hun => nomatch hun
  | process w request hw =>
    have hrecord : s.record ⟨.process w, stat⟩ = s.call w request stat := by
      unfold St.record
      simp only [hw]
    rw [hrecord]
    exact h.call rfl hrunning
  | exit w request hw => exact h.keep rfl fun _ => ⟨w, request, hw⟩

theorem reach_recorded (hs : (sys fresh requests).Reach (fun _ _ => True) s) :
    Recorded fresh s := by
  refine Sys.Reach.inv ?_ (fun _ _ _ _ => step_recorded) s hs
  rintro s ⟨⟨_, _, _, hended, _, hprocessed⟩, hcode, hcalls⟩
  refine ⟨?_, ?_, ?_⟩
  · intro w
    rw [hcalls, hprocessed w]
    rfl
  · intro w
    rw [hcalls, hcode]
    rfl
  · intro hun
    rw [hended] at hun
    cases hun

/-- The pool of a run is in a run of the pool. -/
theorem reach_pool (hs : (sys fresh requests).Reach (fun _ _ => True) s) :
    (WorkerPool.sys requests).Reach (fun _ _ => True) s.pool := by
  induction hs with
  | init h => exact .init h.1
  | step a _ _ hstep ih =>
    rcases Option.map_eq_some_iff.mp hstep with ⟨pool, hpool, rfl⟩
    exact .step a.pool ih trivial hpool

end Threads

/-! ## Every request -/

section Requests

variable [DecidableEq W] {requests : List R} {fresh : W → Int} {s : St A R W}
  {cells : List (A × R)}

theorem count_popsOf [DecidableEq R] (w : W) (r : R) (l : List (W × R)) :
    (popsOf w l).count r = l.count (w, r) := by
  induction l with
  | nil => rfl
  | cons p l ih =>
    rcases p with ⟨w', r'⟩
    by_cases hw : w' = w
    · have hpops : popsOf w ((w', r') :: l) = r' :: popsOf w l := by simp [popsOf, hw]
      rw [hpops, List.count_cons, List.count_cons, ih, hw]
      simp
    · have hpops : popsOf w ((w', r') :: l) = popsOf w l := by simp [popsOf, hw]
      rw [hpops, ih, List.count_cons_of_ne]
      intro heq
      exact hw (Prod.mk.inj heq).1

/-- Who has all that the threads have. -/
theorem subperm_of_popsOf {l l' : List (W × R)}
    (h : ∀ w, (popsOf w l).Sublist (popsOf w l')) : l.Subperm l' := by
  classical
  rw [List.subperm_ext_iff]
  rintro ⟨w, r⟩ _
  rw [← count_popsOf, ← count_popsOf]
  exact (h w).count_le r

/-- The thread and the request of a call. -/
def Call.pop (c : Call R W) : W × R := (c.thread, c.request)

theorem popsOf_calls (w : W) (calls : List (Call R W)) :
    popsOf w (calls.map Call.pop) = (callsOf w calls).map Call.request := by
  unfold popsOf callsOf
  rw [List.filter_map, List.map_map]
  rfl

/-- The calls are for all requests when everything was popped and nobody holds a request. -/
theorem calls_perm_iff (h : Recorded fresh s) (hpool : Counted requests s.pool cells) :
    (s.calls.map Call.request).Perm requests ↔
      cells = [] ∧ ∀ w, (s.pool.worker w).held = [] := by
  have hown : ∀ w, popsOf w s.pool.pops =
      popsOf w (s.calls.map Call.pop) ++ (s.pool.worker w).held := by
    intro w
    rw [popsOf_calls, h.own w]
    exact hpool.own w
  have hsub : (s.calls.map Call.pop).Subperm s.pool.pops := by
    refine subperm_of_popsOf fun w => ?_
    rw [hown w]
    exact List.sublist_append_left _ _
  have hrequests : (s.calls.map Call.pop).map Prod.snd = s.calls.map Call.request := List.map_map
  constructor
  · intro hperm
    have hlen := hperm.length_eq
    have hle := hsub.length_le
    have hsplit := hpool.length
    rw [List.length_map] at hlen hle
    -- as many calls as requests, so everything was popped and has its call
    have hsame : (s.calls.map Call.pop).Perm s.pool.pops := by
      refine hsub.perm_of_length_le ?_
      rw [List.length_map]
      omega
    refine ⟨List.length_eq_zero_iff.mp (by omega), ?_⟩
    intro w
    have hpart : (popsOf w (s.calls.map Call.pop)).length = (popsOf w s.pool.pops).length :=
      ((hsame.filter _).map _).length_eq
    rw [hown w, List.length_append] at hpart
    exact List.length_eq_zero_iff.mp (by omega)
  · rintro ⟨hcells, hheld⟩
    have hsame : (s.calls.map Call.pop).Perm s.pool.pops := by
      refine hsub.antisymm (subperm_of_popsOf fun w => ?_)
      rw [hown w, hheld w, List.append_nil]
    have hall := hsame.map Prod.snd
    rw [hrequests] at hall
    rw [hpool.order, hcells, List.map_nil, List.append_nil]
    exact hall

/-- A thread ended the program: its request has no call. -/
theorem not_succeeded_of_unreadable (h : Recorded fresh s) (hpool : Counted requests s.pool cells)
    (hended : s.pool.ended = some .unreadable) : ¬ Succeeded requests s.calls := by
  intro hsucc
  rcases h.unreadable hended with ⟨w, request, hw⟩
  have hheld := ((calls_perm_iff h hpool).mp hsucc.each).2 w
  rw [hw] at hheld
  cases hheld

/-- All threads have returned: `N` could count the requests, or else some are left. -/
theorem succeeded_iff_of_returned [Nonempty W] (h : Recorded fresh s)
    (hpool : Counted requests s.pool cells) (hreturned : Returned s.pool) :
    Succeeded requests s.calls ↔ NoneFails requests s.calls := by
  have hheld : ∀ w, (s.pool.worker w).held = [] := by
    intro w
    rw [hreturned w]
    rfl
  have hcells := hpool.returned_iff hreturned
  constructor
  · rintro ⟨heach, hsucc⟩
    exact ⟨hcells.mp ((calls_perm_iff h hpool).mp heach).1, hsucc⟩
  · rintro ⟨hlt, hsucc⟩
    exact ⟨(calls_perm_iff h hpool).mpr ⟨hcells.mpr hlt, hheld⟩, hsucc⟩

end Requests

/-! ## The exit value -/

section Exit

variable {n : Nat} {junk : Fin n → Int} {requests : List R} {s : St A R (Fin n)}
  {calls : List (Call R (Fin n))} {w : Fin n}

theorem toInt_eq_zero {stat : ClntStat} : stat.toInt = 0 ↔ stat = .success := by
  cases stat <;> decide

theorem toInt_byte {stat : ClntStat} : stat.toInt % 256 ≠ 0 ↔ stat ≠ .success := by
  cases stat <;> decide

/-- What a thread returns, in the words of the calls. -/
theorem quiet_iff (h : Recorded junk s) : s.code w = 0 ↔ Quiet junk s.calls w := by
  rw [h.code w]
  unfold Quiet
  cases lastStat w s.calls with
  | none => exact Iff.rfl
  | some stat => exact toInt_eq_zero

theorem shows_iff (h : Recorded junk s) : s.code w % 256 ≠ 0 ↔ Shows junk s.calls w := by
  rw [h.code w]
  unfold Shows
  cases lastStat w s.calls with
  | none => exact Iff.rfl
  | some stat => exact toInt_byte

theorem lastStat_eq_none : lastStat w calls = none ↔ callsOf w calls = [] := by
  unfold lastStat
  rw [Option.map_eq_none_iff, List.getLast?_eq_none_iff]

/-- A thread that is quiet or failed, with junk 0 before it: some thread shows an error behind
quiet threads only. -/
theorem exists_shows_of (hw : Shows junk calls w) (hzero : ZeroBefore junk calls w) :
    ∃ w, (∀ w' < w, Quiet junk calls w') ∧ Shows junk calls w := by
  have hsome : ∃ w, Shows junk calls w ∧ ZeroBefore junk calls w := ⟨w, hw, hzero⟩
  -- the threads before the least such one are quiet
  rcases exists_minimal_of_wellFoundedLT _ hsome with ⟨w₀, hmin⟩
  refine ⟨w₀, fun w' hlt => ?_, hmin.prop.1⟩
  have hbefore : ZeroBefore junk calls w' := fun w'' hlt' => hmin.prop.2 w'' (hlt'.trans hlt)
  have hnot : ¬ Shows junk calls w' := fun hshows => hmin.not_prop_of_lt hlt ⟨hshows, hbefore⟩
  unfold Shows at hnot
  unfold Quiet
  cases hlast : lastStat w' calls with
  | none => exact hmin.prop.2 w' hlt (lastStat_eq_none.mp hlast)
  | some stat =>
    rw [hlast] at hnot
    exact not_not.mp hnot

theorem exists_shows_iff : (∃ w, (∀ w' < w, Quiet junk calls w') ∧ Shows junk calls w) ↔
    FailsFirst junk calls ∨ JunkShows junk calls := by
  constructor
  · rintro ⟨w, hquiet, hw⟩
    have hzero : ZeroBefore junk calls w := by
      intro w' hlt hnone
      have hjunk := hquiet w' hlt
      unfold Quiet at hjunk
      rw [lastStat_eq_none.mpr hnone] at hjunk
      exact hjunk
    unfold Shows at hw
    cases hlast : lastStat w calls with
    | none =>
      rw [hlast] at hw
      exact Or.inr ⟨w, lastStat_eq_none.mp hlast, hw, hzero⟩
    | some stat =>
      rw [hlast] at hw
      exact Or.inl ⟨w, ⟨stat, hlast, hw⟩, hzero⟩
  · rintro (⟨w, ⟨stat, hlast, hne⟩, hzero⟩ | ⟨w, hnone, hbyte, hzero⟩)
    · refine exists_shows_of (w := w) ?_ hzero
      unfold Shows
      rw [hlast]
      exact hne
    · refine exists_shows_of (w := w) ?_ hzero
      unfold Shows
      rw [lastStat_eq_none.mpr hnone]
      exact hbyte

theorem NoneFails.not_lastFails (h : NoneFails requests calls) : ¬ LastFails calls := by
  rintro ⟨w, stat, hlast, hne⟩
  rcases mem_of_lastStat hlast with ⟨c, hc, hstat⟩
  exact hne (hstat ▸ h.2 c hc)

theorem FailsFirst.lastFails (h : FailsFirst junk calls) : LastFails calls := by
  rcases h with ⟨w, ⟨stat, hlast, hne⟩, _⟩
  exact ⟨w, stat, hlast, hne⟩

/-- With `calloc` there is no junk. -/
theorem failsFirst_calloc : FailsFirst (fun _ => 0) calls ↔ LastFails calls := by
  constructor
  · exact FailsFirst.lastFails
  · rintro ⟨w, stat, hlast, hne⟩
    exact ⟨w, ⟨stat, hlast, hne⟩, fun _ _ _ => rfl⟩

theorem not_junkShows_calloc : ¬ JunkShows (fun _ => 0) calls := by
  rintro ⟨_, _, hbyte, _⟩
  exact hbyte rfl

/-- The condition, in the words of what the threads return. -/
theorem holdsWhen_iff {copy : Copy} : HoldsWhen junk requests s copy ↔
    s.pool.ended = some .unreadable ∨ (NoneFails requests s.calls ↔
      ¬ ∃ w, (∀ w' < w, Quiet (copy.fresh junk) s.calls w') ∧
        Shows (copy.fresh junk) s.calls w) := by
  have hnot : NoneFails requests s.calls → ¬ LastFails s.calls := NoneFails.not_lastFails
  rw [exists_shows_iff]
  cases copy with
  | single =>
    have hfirst : FailsFirst junk s.calls → LastFails s.calls := FailsFirst.lastFails
    unfold HoldsWhen Copy.fresh
    tauto
  | rpcMt =>
    have hjunk : ¬ JunkShows (fun _ => 0) s.calls := not_junkShows_calloc
    unfold HoldsWhen Copy.fresh
    rw [failsFirst_calloc]
    tauto

/-- The byte that a program without unreadable files returns. -/
theorem exitValue_returned (hn : 0 < n) (h : Recorded junk s) (hended : s.pool.ended = none) :
    ∃ status, exitValue s = some status ∧ (status = 0 ↔
      ¬ ∃ w, (∀ w' < w, Quiet junk s.calls w') ∧ Shows junk s.calls w) := by
  rcases joinAll_code hn s.code with ⟨code, hcode, hbyte⟩
  refine ⟨code % 256, ?_, ?_⟩
  · unfold exitValue
    rw [hended, hcode]
    rfl
  · have hthreads : (∃ w, (∀ w' < w, s.code w' = 0) ∧ s.code w % 256 ≠ 0) ↔
        ∃ w, (∀ w' < w, Quiet junk s.calls w') ∧ Shows junk s.calls w :=
      exists_congr fun w => and_congr (forall₂_congr fun w' _ => quiet_iff h) (shows_iff h)
    rw [← hthreads, ← hbyte, not_not]

/-- **Exit value.** In any interleaving, the program that has come to its end reports just the
workloads with a failure exactly if no call failed, a file could not be opened, or the last call
of some thread failed, where the copy with `malloc` has its junk besides. -/
theorem exit_value_iff [DecidableEq A] (hn : 0 < n) (copy : Copy) (junk : Fin n → Int) (requests : List R)
    (s : St A R (Fin n)) (hs : (sys (copy.fresh junk) requests).Reach (fun _ _ => True) s)
    (hend : s.pool.ended ≠ none ∨ Returned s.pool) :
    ∃ status, exitValue s = some status ∧
      ((status = 0 ↔ Succeeded requests s.calls) ↔ HoldsWhen junk requests s copy) := by
  have : Nonempty (Fin n) := ⟨⟨0, hn⟩⟩
  rcases reach_counted (reach_pool hs) with ⟨cells, hpool⟩
  have hrec := reach_recorded hs
  rw [holdsWhen_iff]
  cases hended : s.pool.ended with
  | some how =>
    cases how with
    | fault f => exact absurd hended (hpool.noFault f)
    | unreadable =>
      refine ⟨1, ?_, iff_of_true (iff_of_false one_ne_zero ?_) (Or.inl rfl)⟩
      · unfold exitValue
        rw [hended]
      · exact not_succeeded_of_unreadable hrec hpool hended
  | none =>
    have hreturned := hend.resolve_left (not_not.mpr hended)
    rcases exitValue_returned hn hrec hended with ⟨status, hstatus, hzero⟩
    refine ⟨status, hstatus, ?_⟩
    rw [hzero, succeeded_iff_of_returned hrec hpool hreturned]
    constructor
    · intro hiff
      exact Or.inr hiff.symm
    · rintro (hun | hiff)
      · cases hun
      · exact hiff.symm

end Exit

/-! ## Runs -/

section Runs

variable [DecidableEq A] [DecidableEq W]

/-- The state in which the threads are started. -/
def St.start (fresh : W → Int) (cells : List (A × R)) : Option (St A R W) :=
  (WorkerPool.St.load cells).map fun pool => { pool := pool, code := fresh, calls := [] }

theorem exists_reach_of_run {β : Type*} {fresh : W → Int} {cells : List (A × R)}
    (hnodup : (cells.map Prod.fst).Nodup) {acts : List (Act W)} {f : St A R W → β} {out : β}
    (hrun : ((St.start fresh cells).bind fun s =>
      (sys fresh (cells.map Prod.snd)).run s acts).map f = some out) :
    ∃ s, (sys fresh (cells.map Prod.snd)).Reach (fun _ _ => True) s ∧ f s = out := by
  rcases Option.map_eq_some_iff.mp hrun with ⟨s, hs, hout⟩
  rcases Option.bind_eq_some_iff.mp hs with ⟨s₀, hstart, hs⟩
  rcases Option.map_eq_some_iff.mp hstart with ⟨pool, hload, rfl⟩
  refine ⟨s, ?_, hout⟩
  exact Sys.reach_of_run (.init ⟨load_init hnodup hload, rfl, rfl⟩)
    (Sys.runOk_of_all fun _ _ => trivial) hs

end Runs

/-- Thread `w` takes a request and calls `minify_via_rpc`. -/
def takeOne (w : W) (stat : ClntStat) : List (Act W) :=
  [⟨.lock w, stat⟩, ⟨.test w, stat⟩, ⟨.pop w, stat⟩, ⟨.unlock w, stat⟩, ⟨.process w, stat⟩]

/-- Thread `w` finds the queue empty and returns. -/
def leave (w : W) : List (Act W) :=
  [⟨.lock w, .success⟩, ⟨.test w, .success⟩, ⟨.unlock w, .success⟩]

/-- Two threads, and the second call times out. -/
theorem exit_value_timedOut : ∃ s : St Nat Nat (Fin 2),
    s.calls = [⟨0, 7, .success⟩, ⟨1, 8, .timedOut⟩] ∧ exitValue s = some 5 ∧
      ∃ status, exitValue s = some status ∧
        ((status = 0 ↔ Succeeded [7, 8] s.calls) ↔ HoldsWhen (fun _ => 0) [7, 8] s .rpcMt) := by
  have hrun : ((St.start (fun _ => 0) [(0, 7), (1, 8)]).bind fun s : St Nat Nat (Fin 2) =>
      (sys (fun _ => 0) ([(0, 7), (1, 8)].map Prod.snd)).run s
        (takeOne 0 .success ++ takeOne 1 .timedOut ++ leave 0 ++ leave 1)).map
      (fun s => (s.calls, exitValue s, s.pool.worker 0, s.pool.worker 1)) =
      some ([⟨0, 7, .success⟩, ⟨1, 8, .timedOut⟩], some 5, .returned, .returned) := by decide
  rcases exists_reach_of_run (by decide) hrun with ⟨s, hs, hout⟩
  rw [Prod.mk.injEq, Prod.mk.injEq, Prod.mk.injEq] at hout
  rcases hout with ⟨hcalls, hexit, h0, h1⟩
  refine ⟨s, hcalls, hexit, ?_⟩
  exact exit_value_iff (by decide) .rpcMt (fun _ => 0) [7, 8] s hs
    (Or.inr (Fin.forall_fin_two.mpr ⟨h0, h1⟩))

/-- One thread: the first call times out, and the second one overwrites this. -/
theorem exit_value_overwritten :
    ¬ ∀ (n : Nat) (requests : List Nat) (s : St Nat Nat (Fin n)), 0 < n →
      (sys (fun _ => 0) requests).Reach (fun _ _ => True) s → Returned s.pool →
        ∃ status, exitValue s = some status ∧ (status = 0 ↔ Succeeded requests s.calls) := by
  intro h
  have hrun : ((St.start (fun _ => 0) [(0, 7), (1, 8)]).bind fun s : St Nat Nat (Fin 1) =>
      (sys (fun _ => 0) ([(0, 7), (1, 8)].map Prod.snd)).run s
        (takeOne 0 .timedOut ++ takeOne 0 .success ++ leave 0)).map
      (fun s => (s.calls, exitValue s, s.pool.worker 0)) =
      some ([⟨0, 7, .timedOut⟩, ⟨0, 8, .success⟩], some 0, .returned) := by decide
  rcases exists_reach_of_run (by decide) hrun with ⟨s, hs, hout⟩
  rw [Prod.mk.injEq, Prod.mk.injEq] at hout
  rcases hout with ⟨hcalls, hexit, h0⟩
  have hreturned : Returned s.pool := by
    intro w
    rw [Subsingleton.elim w 0]
    exact h0
  rcases h 1 _ s (by decide) hs hreturned with ⟨status, hstatus, hiff⟩
  rw [hexit] at hstatus
  cases hstatus
  have hfirst : ⟨0, 7, .timedOut⟩ ∈ s.calls := by
    rw [hcalls]
    exact List.mem_cons_self
  have hsucc := (hiff.mp rfl).success _ hfirst
  cases hsucc

end IntroOS.Minify.ExitValue
