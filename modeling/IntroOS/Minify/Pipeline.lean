import IntroOS.Base.Disk
import IntroOS.Minify.ExitValue
import IntroOS.Minify.MinifyViaRpc
import Mathlib.Data.Prod.Lex
import Mathlib.Order.WellFounded

/-! # The files of `minifyjpeg_main.c`

The threads of the pool share the files: `worker_main` reads the input of its request, has it
minified, and then creates the output and writes it. Between these steps, and in the middle of the
`fwrite`, the other threads go on.

* `step`: the statements of the loop body between the two locks, over the worker pool;
* `sequential`: one thread, with the same answers;
* `pipeline_sequential`: if the outputs are distinct and none of them is the input of another
  request, every schedule leaves the files of the sequential program. Where an input is missing,
  `read_from_file` ends the program, and an output may have the first part of its image. Where a
  reply is longer than its image, it goes past the end of the buffer, and what follows is undefined;
* `pipeline_minifies`: the same over `minify_via_rpc` and the server behind it.

`reply` is what becomes of the call for a request, and whether its output can be opened. It is
fixed beforehand, but it may be anything.
-/

namespace IntroOS.Minify.Pipeline

open WorkerPool ExitValue

variable {A W Name : Type*}

/-! ## State -/

/-- `request_t`. -/
structure Request (Name : Type*) where
  input : Name
  output : Name
deriving DecidableEq, Repr

/-- What a call of `minify_via_rpc` comes to, and whether `write_to_file` can open its file. -/
structure Reply where
  stat : ClntStat
  /-- the bytes of the image that come with the answer, which are stored in `malloc(src_len)` -/
  dst : Bytes
  opens : Bool
deriving DecidableEq, Repr

/-- The buffer has room for what comes. -/
def Reply.fits (r : Reply) (src : Bytes) : Bool := decide (r.dst.length ≤ src.length)

/-- The image is written. -/
def Reply.saved (r : Reply) : Bool := decide (r.stat = .success) && r.opens

/-- Where a thread stands between the two locks. -/
inductive Job where
  /-- at `read_from_file`, or without a request -/
  | waiting
  /-- at `minify_via_rpc` -/
  | calling (src : Bytes)
  /-- at the test of `*code` -/
  | answered (r : Reply)
  /-- in `write_to_file`, with this much to write -/
  | writing (rest : Bytes)
  /-- at the calls of `free`, with nothing written -/
  | skipped
deriving DecidableEq, Repr

structure St (A W Name : Type*) where
  pool : WorkerPool.St A (Request Name) W
  job : W → Job
  disk : Disk Name
  /-- a reply went past the end of its buffer -/
  overrun : Bool

/-! ## Steps -/

inductive Act (W : Type*) where
  /-- what concerns the queue and the mutex -/
  | pool (a : WorkerPool.Act W)
  | read (w : W)
  | call (w : W)
  /-- the test of `*code`, and `fopen` -/
  | save (w : W)
  /-- the next `n` bytes of the image reach the file -/
  | write (w : W) (n : Nat)
  | free (w : W)
deriving DecidableEq, Repr

/-- The actions of the pool outside the requests. -/
def Queueing : WorkerPool.Act W → Prop
  | .lock _ | .test _ | .pop _ | .unlock _ => True
  | .process _ | .exit _ => False

instance (a : WorkerPool.Act W) : Decidable (Queueing a) := by
  cases a <;> unfold Queueing <;> infer_instance

section Step

variable [DecidableEq A] [DecidableEq W] [DecidableEq Name]
  (reply : Request Name → Bytes → Reply) (requests : List (Request Name))

def St.turn (s : St A W Name) (w : W) (job : Job) : St A W Name :=
  { s with job := Function.update s.job w job }

/-- A step of the running program. -/
def step (s : St A W Name) : Act W → Option (St A W Name)
  | .pool a =>
    if Queueing a then ((WorkerPool.sys requests).step s.pool a).map fun pool => { s with pool := pool }
    else none
  | .read w =>
    match s.pool.worker w, s.job w with
    | .working q, .waiting =>
      match s.disk q.input with
      | some src => some (s.turn w (.calling src))
      | none =>
        -- "Unable to open the file" ends all threads
        ((WorkerPool.sys requests).step s.pool (.exit w)).map fun pool => { s with pool := pool }
    | _, _ => none
  | .call w =>
    match s.pool.worker w, s.job w with
    | .working q, .calling src =>
      if (reply q src).fits src then some (s.turn w (.answered (reply q src)))
      -- past the end of `malloc(src_len)`
      else some { s with overrun := true }
    | _, _ => none
  | .save w =>
    match s.pool.worker w, s.job w with
    | .working q, .answered r =>
      if r.saved then some { s.turn w (.writing r.dst) with disk := s.disk.create q.output }
      -- `*code` is not 0, or `write_to_file` returns 1
      else some (s.turn w .skipped)
    | _, _ => none
  | .write w n =>
    match s.pool.worker w, s.job w with
    | .working q, .writing rest =>
      if 0 < n ∧ rest ≠ [] then
        some { s.turn w (.writing (rest.drop n)) with
          disk := s.disk.append q.output (rest.take n) }
      else none
    | _, _ => none
  | .free w =>
    match s.job w with
    | .skipped | .writing [] =>
      ((WorkerPool.sys requests).step s.pool (.process w)).map fun pool =>
        { s.turn w .waiting with pool := pool }
    | _ => none

/-- The program goes on, and what it does is defined. -/
def Running (s : St A W Name) : Prop := s.pool.ended = none ∧ s.overrun = false

instance (s : St A W Name) : Decidable (Running s) := inferInstanceAs (Decidable (_ ∧ _))

/-- The threads in any interleaving. -/
def sys (disk₀ : Disk Name) : Sys (St A W Name) (Act W) where
  Init s :=
    (WorkerPool.sys requests).Init s.pool ∧ (∀ w, s.job w = .waiting) ∧ s.disk = disk₀ ∧
    s.overrun = false
  step s a := if Running s then step reply requests s a else none

end Step

section Sequential

variable [DecidableEq Name] (reply : Request Name → Bytes → Reply)

/-- What the request does to the files when its input is `src`. -/
def Request.apply (q : Request Name) (disk : Disk Name) (src : Bytes) : Disk Name :=
  let r := reply q src
  if r.saved then (disk.create q.output).append q.output r.dst else disk

/-- One thread; `none` if a file cannot be read or a reply does not fit its buffer. -/
def sequential : List (Request Name) → Disk Name → Option (Disk Name)
  | [], disk => some disk
  | q :: rest, disk =>
    match disk q.input with
    | none => none
    | some src =>
      if (reply q src).fits src then sequential rest (q.apply reply disk src) else none

end Sequential

/-! ## What a step does -/

section Cases

variable [DecidableEq A] [DecidableEq W] [DecidableEq Name]
  {reply : Request Name → Bytes → Reply} {requests : List (Request Name)}

/-- The steps, one case for each way through `step`. -/
inductive StepCase (reply : Request Name → Bytes → Reply) (s : St A W Name) :
    Act W → St A W Name → Prop where
  | pool (a : WorkerPool.Act W) (hqueueing : Queueing a) (pool : WorkerPool.St A (Request Name) W)
      (hpool : WorkerPool.StepCase s.pool a pool) :
      StepCase reply s (.pool a) { s with pool := pool }
  | read (w : W) (q : Request Name) (src : Bytes) (hw : s.pool.worker w = .working q)
      (hjob : s.job w = .waiting) (hsrc : s.disk q.input = some src) :
      StepCase reply s (.read w) (s.turn w (.calling src))
  | missing (w : W) (q : Request Name) (hw : s.pool.worker w = .working q)
      (hjob : s.job w = .waiting) (hsrc : s.disk q.input = none) :
      StepCase reply s (.read w) { s with pool := { s.pool with ended := some .unreadable } }
  | call (w : W) (q : Request Name) (src : Bytes) (hw : s.pool.worker w = .working q)
      (hjob : s.job w = .calling src) (hfit : (reply q src).fits src = true) :
      StepCase reply s (.call w) (s.turn w (.answered (reply q src)))
  | overrun (w : W) (q : Request Name) (src : Bytes) (hw : s.pool.worker w = .working q)
      (hjob : s.job w = .calling src) (hfit : ¬ (reply q src).fits src = true) :
      StepCase reply s (.call w) { s with overrun := true }
  | save (w : W) (q : Request Name) (r : Reply) (hw : s.pool.worker w = .working q)
      (hjob : s.job w = .answered r) (hsaved : r.saved = true) :
      StepCase reply s (.save w)
        { s.turn w (.writing r.dst) with disk := s.disk.create q.output }
  | skip (w : W) (q : Request Name) (r : Reply) (hw : s.pool.worker w = .working q)
      (hjob : s.job w = .answered r) (hsaved : ¬ r.saved = true) :
      StepCase reply s (.save w) (s.turn w .skipped)
  | write (w : W) (n : Nat) (q : Request Name) (rest : Bytes) (hw : s.pool.worker w = .working q)
      (hjob : s.job w = .writing rest) (hn : 0 < n) (hrest : rest ≠ []) :
      StepCase reply s (.write w n) { s.turn w (.writing (rest.drop n)) with
        disk := s.disk.append q.output (rest.take n) }
  | free (w : W) (q : Request Name) (hw : s.pool.worker w = .working q)
      (hjob : s.job w = .skipped ∨ s.job w = .writing []) (pool : WorkerPool.St A (Request Name) W)
      (hpool : WorkerPool.StepCase s.pool (.process w) pool) :
      StepCase reply s (.free w) { s.turn w .waiting with pool := pool }

theorem step_cases {s s' : St A W Name} {a : Act W} (h : step reply requests s a = some s') :
    StepCase reply s a s' := by
  cases a with
  | pool a =>
    simp only [step] at h
    split at h
    · rename_i hqueueing
      rcases Option.map_eq_some_iff.mp h with ⟨pool, hpool, rfl⟩
      exact .pool a hqueueing pool (sys_step_cases hpool).2
    · cases h
  | read w =>
    simp only [step] at h
    split at h
    · rename_i q hw hjob
      split at h
      · rename_i src hsrc
        cases h
        exact .read w q src hw hjob hsrc
      · rename_i hsrc
        rcases Option.map_eq_some_iff.mp h with ⟨pool, hpool, rfl⟩
        cases (sys_step_cases hpool).2
        exact .missing w q hw hjob hsrc
    · cases h
  | call w =>
    simp only [step] at h
    split at h
    · rename_i q src hw hjob
      split at h
      · rename_i hfit
        cases h
        exact .call w q src hw hjob hfit
      · rename_i hfit
        cases h
        exact .overrun w q src hw hjob hfit
    · cases h
  | save w =>
    simp only [step] at h
    split at h
    · rename_i q r hw hjob
      split at h
      · rename_i hsaved
        cases h
        exact .save w q r hw hjob hsaved
      · rename_i hsaved
        cases h
        exact .skip w q r hw hjob hsaved
    · cases h
  | write w n =>
    simp only [step] at h
    split at h
    · rename_i q rest hw hjob
      split at h
      · rename_i hboth
        cases h
        exact .write w n q rest hw hjob hboth.1 hboth.2
      · cases h
    · cases h
  | free w =>
    simp only [step] at h
    split at h
    · rename_i hjob
      rcases Option.map_eq_some_iff.mp h with ⟨pool, hpool, rfl⟩
      have hcase := (sys_step_cases hpool).2
      have hprocess := hcase
      cases hprocess with
      | process _ q hw => exact .free w q hw (Or.inl hjob) _ hcase
    · rename_i hjob
      rcases Option.map_eq_some_iff.mp h with ⟨pool, hpool, rfl⟩
      have hcase := (sys_step_cases hpool).2
      have hprocess := hcase
      cases hprocess with
      | process _ q hw => exact .free w q hw (Or.inr hjob) _ hcase
    · cases h

theorem sys_step_cases {disk₀ : Disk Name} {s s' : St A W Name} {a : Act W}
    (h : (sys reply requests disk₀).step s a = some s') :
    Running s ∧ StepCase reply s a s' := by
  have hstep : (if Running s then step reply requests s a else none) = some s' := h
  split at hstep
  · rename_i hrunning
    exact ⟨hrunning, step_cases hstep⟩
  · cases hstep

end Cases

/-! ## The files of a request -/

section Files

variable (reply : Request Name → Bytes → Reply) (disk₀ disk : Disk Name) (q : Request Name)

/-- What a thread in the middle of its request has made of the output. -/
def Job.Fits : Job → Prop
  | .waiting => disk q.output = disk₀ q.output
  | .calling src => disk₀ q.input = some src ∧ disk q.output = disk₀ q.output
  | .answered r => ∃ src, disk₀ q.input = some src ∧ (reply q src).fits src = true ∧
      reply q src = r ∧ disk q.output = disk₀ q.output
  | .writing rest => ∃ src written, disk₀ q.input = some src ∧ (reply q src).fits src = true ∧
      (reply q src).saved = true ∧ (reply q src).dst = written ++ rest ∧
      disk q.output = some written
  | .skipped => ∃ src, disk₀ q.input = some src ∧ (reply q src).fits src = true ∧
      ¬ (reply q src).saved = true ∧ disk q.output = disk₀ q.output

/-- The reply to the request is longer than its image. -/
def Overruns : Prop := ∃ src, disk₀ q.input = some src ∧ ¬ (reply q src).fits src = true

/-- The request is through. -/
def Done : Prop :=
  ∃ src, disk₀ q.input = some src ∧ (reply q src).fits src = true ∧
    disk q.output = if (reply q src).saved then some (reply q src).dst else disk₀ q.output

variable {reply disk₀ disk q} {disk' : Disk Name} {job : Job}

theorem Job.Fits.congr (h : job.Fits reply disk₀ disk q) (heq : disk' q.output = disk q.output) :
    job.Fits reply disk₀ disk' q := by
  unfold Job.Fits at h ⊢
  rw [heq]
  exact h

theorem Done.congr (h : Done reply disk₀ disk q) (heq : disk' q.output = disk q.output) :
    Done reply disk₀ disk' q := by
  unfold Done at h ⊢
  rw [heq]
  exact h

/-- A thread that has written everything, or had nothing to write. -/
theorem Job.Fits.done (h : job.Fits reply disk₀ disk q) (hjob : job = .skipped ∨ job = .writing []) :
    Done reply disk₀ disk q := by
  rcases hjob with rfl | rfl
  · rcases h with ⟨src, hsrc, hfit, hsaved, hfile⟩
    refine ⟨src, hsrc, hfit, ?_⟩
    rw [if_neg hsaved, hfile]
  · rcases h with ⟨src, written, hsrc, hfit, hsaved, hdst, hfile⟩
    refine ⟨src, hsrc, hfit, ?_⟩
    rw [if_pos hsaved, hfile, hdst, List.append_nil]

/-- What is through had its input, and room for its reply. -/
theorem Done.not_bad (h : Done reply disk₀ disk q) :
    ¬ (disk₀ q.input = none ∨ Overruns reply disk₀ q) := by
  rcases h with ⟨src, hsrc, hfit, _⟩
  rintro (hmissing | ⟨src', hsrc', hlong⟩)
  · rw [hmissing] at hsrc
    cases hsrc
  · rw [hsrc] at hsrc'
    cases hsrc'
    exact hlong hfit

end Files

/-! ## The invariant -/

/-- No two requests have the same output, and none reads what another one writes. -/
structure Separate (requests : List (Request Name)) : Prop where
  outputs : (requests.map Request.output).Nodup
  inputs : ∀ q ∈ requests, ∀ q' ∈ requests, q.output = q'.input → q = q'

/-- What has become of the files of the requests that were popped. The others are as they were. -/
structure Inv [DecidableEq W] (reply : Request Name → Bytes → Reply)
    (requests : List (Request Name)) (disk₀ : Disk Name) (s : St A W Name) : Prop where
  counted : ∃ cells, Counted requests s.pool cells
  busy : ∀ w, s.job w ≠ .waiting → ∃ q, s.pool.worker w = .working q
  held : ∀ w, ∀ q ∈ (s.pool.worker w).held, (s.job w).Fits reply disk₀ s.disk q
  processed : ∀ w, ∀ q ∈ s.pool.processed w, Done reply disk₀ s.disk q
  others : ∀ name, (∀ p ∈ s.pool.pops, p.2.output ≠ name) → s.disk name = disk₀ name
  missing : s.pool.ended = some .unreadable → ∃ q ∈ requests, disk₀ q.input = none
  overran : s.overrun = true → ∃ q ∈ requests, Overruns reply disk₀ q

section Invariant

variable [DecidableEq W] {reply : Request Name → Bytes → Reply} {requests : List (Request Name)}
  {disk₀ : Disk Name} {s s' : St A W Name} {a : Act W}

/-- What is popped is of the workload. -/
theorem Inv.mem (h : Inv reply requests disk₀ s) {p : W × Request Name} (hp : p ∈ s.pool.pops) :
    p.2 ∈ requests := by
  rcases h.counted with ⟨cells, hcounted⟩
  rw [hcounted.order]
  exact List.mem_append_left _ (List.mem_map_of_mem hp)

/-- What a worker holds or has processed, it popped. -/
theorem Inv.popped (h : Inv reply requests disk₀ s) {w : W} {q : Request Name}
    (hq : q ∈ s.pool.processed w ++ (s.pool.worker w).held) : (w, q) ∈ s.pool.pops := by
  rcases h.counted with ⟨cells, hcounted⟩
  rw [← hcounted.own w] at hq
  unfold popsOf at hq
  simpa using hq

theorem Inv.outputs_nodup (hsep : Separate requests) (h : Inv reply requests disk₀ s) :
    (s.pool.pops.map fun p => p.2.output).Nodup := by
  rcases h.counted with ⟨cells, hcounted⟩
  have hnodup := hsep.outputs
  rw [hcounted.order, List.map_append, List.map_map] at hnodup
  exact hnodup.of_append_left

/-- An output belongs to one request, popped by one worker. -/
theorem Inv.owner (hsep : Separate requests) (h : Inv reply requests disk₀ s)
    {p p' : W × Request Name} (hp : p ∈ s.pool.pops) (hp' : p' ∈ s.pool.pops)
    (heq : p.2.output = p'.2.output) : p = p' :=
  List.inj_on_of_nodup_map (h.outputs_nodup hsep) hp hp' heq

/-- A worker has not processed what it holds. -/
theorem Inv.held_not_processed (hsep : Separate requests) (h : Inv reply requests disk₀ s) {w : W}
    {q : Request Name} (hq : q ∈ (s.pool.worker w).held) : q ∉ s.pool.processed w := by
  rcases h.counted with ⟨cells, hcounted⟩
  have hsub : (popsOf w s.pool.pops).Sublist (s.pool.pops.map Prod.snd) := by
    unfold popsOf
    exact List.filter_sublist.map _
  have hnodup : ((s.pool.pops.map Prod.snd).map Request.output).Nodup := by
    rw [List.map_map]
    exact h.outputs_nodup hsep
  -- no request is popped twice
  have hown := (hnodup.of_map _).sublist hsub
  rw [hcounted.own w] at hown
  intro hprocessed
  exact List.disjoint_of_nodup_append hown hprocessed hq

/-- The output of a request in hand is no output of another one that was popped. -/
theorem Inv.output_ne (hsep : Separate requests) (h : Inv reply requests disk₀ s) {w w' : W}
    {q q' : Request Name} (hq : q ∈ (s.pool.worker w).held)
    (hq' : (w' ≠ w ∧ q' ∈ (s.pool.worker w').held) ∨ q' ∈ s.pool.processed w') :
    q'.output ≠ q.output := by
  intro heq
  have hpop := h.popped (List.mem_append_right _ hq)
  rcases hq' with ⟨hne, hheld⟩ | hprocessed
  · have howner := h.owner hsep (h.popped (List.mem_append_right _ hheld)) hpop heq
    exact hne (Prod.ext_iff.mp howner).1
  · have howner := h.owner hsep (h.popped (List.mem_append_left _ hprocessed)) hpop heq
    obtain ⟨rfl, rfl⟩ := Prod.ext_iff.mp howner
    exact h.held_not_processed hsep hq hprocessed

/-- The thread of a request goes on with it, and touches nothing but its output. -/
theorem Inv.turn (hsep : Separate requests) (h : Inv reply requests disk₀ s) {w : W}
    {q : Request Name} (hw : s.pool.worker w = .working q) {disk : Disk Name}
    (hdisk : ∀ name ≠ q.output, disk name = s.disk name) {job : Job}
    (hfits : job.Fits reply disk₀ disk q) :
    Inv reply requests disk₀ { s.turn w job with disk := disk } := by
  have hheld : q ∈ (s.pool.worker w).held := by
    rw [hw]
    exact List.mem_singleton_self q
  refine ⟨h.counted, ?_, ?_, ?_, ?_, h.missing, h.overran⟩
  · refine (Function.forall_update_iff s.job
      fun w' x => x ≠ .waiting → ∃ q, s.pool.worker w' = .working q).mpr ⟨?_, fun w' _ => h.busy w'⟩
    intro _
    exact ⟨q, hw⟩
  · refine (Function.forall_update_iff s.job
      fun w' x => ∀ q ∈ (s.pool.worker w').held, x.Fits reply disk₀ disk q).mpr ⟨?_, ?_⟩
    · intro q' hq'
      rw [hw] at hq'
      rw [List.mem_singleton.mp hq']
      exact hfits
    · -- what the others write is another file
      intro w' hne q' hq'
      have hother := h.output_ne hsep hheld (Or.inl ⟨hne, hq'⟩)
      exact (h.held w' q' hq').congr (hdisk _ hother)
  · intro w' q' hq'
    have hother := h.output_ne hsep hheld (Or.inr hq')
    exact (h.processed w' q' hq').congr (hdisk _ hother)
  · intro name hname
    have hne : name ≠ q.output := by
      intro heq
      exact hname (w, q) (h.popped (List.mem_append_right _ hheld)) heq.symm
    show disk name = disk₀ name
    rw [hdisk name hne, h.others name hname]

/-- The input of a request that is about to be read is as it was. -/
theorem Inv.input_eq (hsep : Separate requests) (h : Inv reply requests disk₀ s) {w : W}
    {q : Request Name} (hw : s.pool.worker w = .working q) (hjob : s.job w = .waiting) :
    s.disk q.input = disk₀ q.input := by
  have hheld : q ∈ (s.pool.worker w).held := by
    rw [hw]
    exact List.mem_singleton_self q
  have hmem := h.mem (h.popped (List.mem_append_right _ hheld))
  by_cases hself : q.output = q.input
  · -- its own output is not open yet
    have hfits := h.held w q hheld
    rw [hjob] at hfits
    rw [← hself]
    exact hfits
  · apply h.others
    rintro p hp heq
    have hsame := hsep.inputs p.2 (h.mem hp) q hmem heq
    rw [hsame] at heq
    exact hself heq

/-- A step of the pool that pops nothing. -/
theorem Inv.move (h : Inv reply requests disk₀ s) {pool : WorkerPool.St A (Request Name) W}
    (hcounted : ∃ cells, Counted requests pool cells)
    (hheld : ∀ w, (pool.worker w).held = (s.pool.worker w).held)
    (hworking : ∀ w q, s.pool.worker w = .working q → pool.worker w = .working q)
    (hpops : pool.pops = s.pool.pops) (hprocessed : pool.processed = s.pool.processed)
    (hmissing : pool.ended = some .unreadable → ∃ q ∈ requests, disk₀ q.input = none) :
    Inv reply requests disk₀ { s with pool := pool } := by
  refine ⟨hcounted, ?_, ?_, ?_, ?_, hmissing, h.overran⟩
  · intro w hjob
    rcases h.busy w hjob with ⟨q, hw⟩
    exact ⟨q, hworking w q hw⟩
  · intro w q hq
    rw [hheld w] at hq
    exact h.held w q hq
  · intro w q hq
    rw [hprocessed] at hq
    exact h.processed w q hq
  · intro name hname
    rw [hpops] at hname
    exact h.others name hname

/-- A worker moves outside its requests. -/
theorem Inv.moveWorker (h : Inv reply requests disk₀ s) {w : W} {v : WorkerPool.Worker (Request Name)}
    {pool : WorkerPool.St A (Request Name) W} (hcounted : ∃ cells, Counted requests pool cells)
    (hworker : pool.worker = Function.update s.pool.worker w v)
    (hheld : v.held = (s.pool.worker w).held) (hidle : ∀ q, s.pool.worker w ≠ .working q)
    (hpops : pool.pops = s.pool.pops) (hprocessed : pool.processed = s.pool.processed)
    (hended : pool.ended = s.pool.ended) : Inv reply requests disk₀ { s with pool := pool } := by
  have hmissing : pool.ended = some .unreadable → ∃ q ∈ requests, disk₀ q.input = none := by
    rw [hended]
    exact h.missing
  apply h.move hcounted _ _ hpops hprocessed hmissing
  · intro w'
    rw [hworker]
    by_cases hne : w' = w
    · rw [hne, Function.update_self, hheld]
    · rw [Function.update_of_ne hne]
  · intro w' q hw'
    have hne : w' ≠ w := by
      rintro rfl
      exact hidle q hw'
    rw [hworker, Function.update_of_ne hne, hw']

variable [DecidableEq A]

/-- The output of the next request was not touched. -/
theorem Inv.pop (hsep : Separate requests) (h : Inv reply requests disk₀ s) {w : W}
    (hw : s.pool.worker w = .nonempty) {q : Request Name} {heap : Heap A (Request Name)}
    {queue : Steque A} (hpop : stequePop s.pool.heap s.pool.queue = .ok (q, heap, queue)) :
    Inv reply requests disk₀ { s with
      pool := { s.pool.move w (.popped q) with
        heap := heap, queue := queue, pops := s.pool.pops ++ [(w, q)] } } := by
  have hcounted' := step_counted (.pop w hw q heap queue hpop) h.counted
  have hwaiting : s.job w = .waiting := by
    by_contra hjob
    rcases h.busy w hjob with ⟨q', hw'⟩
    rw [hw] at hw'
    cases hw'
  have hfresh : s.disk q.output = disk₀ q.output := by
    apply h.others
    rcases hcounted' with ⟨cells, hcounted⟩
    have hnodup := hsep.outputs
    rw [hcounted.order, List.map_append, List.map_append, List.map_append] at hnodup
    have hpops := List.disjoint_of_nodup_append hnodup.of_append_left
    intro p hp heq
    refine hpops (a := p.2.output) (List.mem_map_of_mem (List.mem_map_of_mem hp)) ?_
    rw [heq]
    exact List.mem_singleton_self _
  refine ⟨hcounted', ?_, ?_, h.processed, ?_, h.missing, h.overran⟩
  · intro w' hjob
    have hne : w' ≠ w := by
      rintro rfl
      exact hjob hwaiting
    rcases h.busy w' hjob with ⟨q', hw'⟩
    refine ⟨q', ?_⟩
    show Function.update s.pool.worker w _ w' = _
    rw [Function.update_of_ne hne, hw']
  · refine (Function.forall_update_iff s.pool.worker
      fun w' x => ∀ q ∈ x.held, (s.job w').Fits reply disk₀ s.disk q).mpr ⟨?_, fun w' _ => h.held w'⟩
    intro q' hq'
    rw [hwaiting, List.mem_singleton.mp hq']
    exact hfresh
  · intro name hname
    apply h.others
    intro p hp
    exact hname p (List.mem_append_left _ hp)

/-- A request is through. -/
theorem Inv.free (h : Inv reply requests disk₀ s) {w : W} {q : Request Name}
    (hw : s.pool.worker w = .working q) (hjob : s.job w = .skipped ∨ s.job w = .writing []) :
    Inv reply requests disk₀ { s.turn w .waiting with
      pool := { s.pool.move w .unlocked with
        processed := Function.update s.pool.processed w (s.pool.processed w ++ [q]) } } := by
  have hdone : Done reply disk₀ s.disk q := by
    apply Job.Fits.done _ hjob
    apply h.held w
    rw [hw]
    exact List.mem_singleton_self q
  refine ⟨step_counted (.process w q hw) h.counted, ?_, ?_, ?_, h.others, h.missing, h.overran⟩
  · intro w'
    show Function.update s.job w .waiting w' ≠ .waiting →
      ∃ q, Function.update s.pool.worker w .unlocked w' = .working q
    by_cases hne : w' = w
    · intro hbusy
      rw [hne, Function.update_self] at hbusy
      exact absurd rfl hbusy
    · rw [Function.update_of_ne hne, Function.update_of_ne hne]
      exact h.busy w'
  · intro w'
    by_cases hne : w' = w
    · intro q' hq'
      rw [hne] at hq'
      have hnone : q' ∈ (Function.update s.pool.worker w .unlocked w).held := hq'
      rw [Function.update_self] at hnone
      cases hnone
    · show ∀ q ∈ (Function.update s.pool.worker w .unlocked w').held,
        (Function.update s.job w .waiting w').Fits reply disk₀ s.disk q
      rw [Function.update_of_ne hne, Function.update_of_ne hne]
      exact h.held w'
  · refine (Function.forall_update_iff s.pool.processed
      fun _ x => ∀ q ∈ x, Done reply disk₀ s.disk q).mpr ⟨?_, fun w' _ => h.processed w'⟩
    intro q' hq'
    rcases List.mem_append.mp hq' with hold | hnew
    · exact h.processed w q' hold
    · rw [List.mem_singleton.mp hnew]
      exact hdone

/-- A step of the queue. -/
theorem Inv.queueing (hsep : Separate requests) (h : Inv reply requests disk₀ s)
    {pool : WorkerPool.St A (Request Name) W} {a : WorkerPool.Act W} (hqueueing : Queueing a)
    (hpool : WorkerPool.StepCase s.pool a pool) : Inv reply requests disk₀ { s with pool := pool } := by
  have hcounted := step_counted hpool h.counted
  cases hpool with
  | lock w hw | unlockEmpty w hw | unlockPopped w q hw =>
    refine h.moveWorker hcounted rfl ?_ ?_ rfl rfl rfl
    · rw [hw]
      rfl
    · intro q hq
      rw [hw] at hq
      cases hq
  | test w hw =>
    refine h.moveWorker hcounted rfl ?_ ?_ rfl rfl rfl
    · rw [hw]
      split <;> rfl
    · intro q hq
      rw [hw] at hq
      cases hq
  | pop w hw q heap queue hpop => exact h.pop hsep hw hpop
  | popFails w hw f hpop => exact h.move hcounted (fun _ => rfl) (fun _ _ hw' => hw') rfl rfl nofun
  | process | exit => exact hqueueing.elim

variable [DecidableEq Name]

theorem step_inv (hsep : Separate requests) (hstep : StepCase reply s a s')
    (h : Inv reply requests disk₀ s) : Inv reply requests disk₀ s' := by
  cases hstep with
  | pool a hqueueing pool hpool => exact h.queueing hsep hqueueing hpool
  | read w q src hw hjob hsrc =>
    refine h.turn hsep hw (fun _ _ => rfl) ⟨?_, ?_⟩
    · rw [← h.input_eq hsep hw hjob, hsrc]
    · have hfits := h.held w q (by rw [hw]; exact List.mem_singleton_self q)
      rw [hjob] at hfits
      exact hfits
  | missing w q hw hjob hsrc =>
    have hpop := h.popped (w := w) (q := q) (by rw [hw]; exact List.mem_append_right _ (List.mem_singleton_self q))
    refine h.move (step_counted (.exit w q hw) h.counted) (fun _ => rfl) (fun _ _ hw' => hw') rfl rfl ?_
    intro _
    exact ⟨q, h.mem hpop, by rw [← h.input_eq hsep hw hjob, hsrc]⟩
  | call w q src hw hjob hfit =>
    have hfits := h.held w q (by rw [hw]; exact List.mem_singleton_self q)
    rw [hjob] at hfits
    exact h.turn hsep hw (fun _ _ => rfl) ⟨src, hfits.1, hfit, rfl, hfits.2⟩
  | overrun w q src hw hjob hfit =>
    have hheld : q ∈ (s.pool.worker w).held := by
      rw [hw]
      exact List.mem_singleton_self q
    have hfits := h.held w q hheld
    rw [hjob] at hfits
    refine ⟨h.counted, h.busy, h.held, h.processed, h.others, h.missing, ?_⟩
    intro _
    exact ⟨q, h.mem (h.popped (List.mem_append_right _ hheld)), src, hfits.1, hfit⟩
  | save w q r hw hjob hsaved =>
    have hfits := h.held w q (by rw [hw]; exact List.mem_singleton_self q)
    rw [hjob] at hfits
    rcases hfits with ⟨src, hsrc, hfit, rfl, _⟩
    refine h.turn hsep hw (fun _ hne => Disk.create_other hne) ?_
    exact ⟨src, [], hsrc, hfit, hsaved, rfl, Disk.create_self⟩
  | skip w q r hw hjob hsaved =>
    have hfits := h.held w q (by rw [hw]; exact List.mem_singleton_self q)
    rw [hjob] at hfits
    rcases hfits with ⟨src, hsrc, hfit, rfl, hfile⟩
    exact h.turn hsep hw (fun _ _ => rfl) ⟨src, hsrc, hfit, hsaved, hfile⟩
  | write w n q rest hw hjob hn hrest =>
    have hfits := h.held w q (by rw [hw]; exact List.mem_singleton_self q)
    rw [hjob] at hfits
    rcases hfits with ⟨src, written, hsrc, hfit, hsaved, hdst, hfile⟩
    refine h.turn hsep hw (fun _ hne => Disk.append_other hne _) ?_
    refine ⟨src, written ++ rest.take n, hsrc, hfit, hsaved, ?_, Disk.append_self hfile _⟩
    rw [hdst, List.append_assoc, List.take_append_drop]
  | free w q hw hjob pool hpool =>
    cases hpool with
    | process _ q' hw' =>
      rw [hw] at hw'
      cases hw'
      exact h.free hw hjob

theorem init_inv (h0 : (sys reply requests disk₀).Init s) : Inv reply requests disk₀ s := by
  rcases h0 with ⟨hpool, hjob, hdisk, hoverrun⟩
  have hcounted := init_counted hpool
  rcases hpool with ⟨_, _, hworker, hended, hpops, hprocessed⟩
  refine ⟨hcounted, ?_, ?_, ?_, ?_, ?_, ?_⟩
  · intro w hne
    exact absurd (hjob w) hne
  · intro w q hq
    rw [hworker w] at hq
    cases hq
  · intro w q hq
    rw [hprocessed w] at hq
    cases hq
  · intro name _
    rw [hdisk]
  · intro hunreadable
    rw [hended] at hunreadable
    cases hunreadable
  · intro hoverran
    rw [hoverrun] at hoverran
    cases hoverran

end Invariant

/-! ## The sequential program -/

section Sequential

variable {reply : Request Name → Bytes → Reply} {requests before after : List (Request Name)}
  {disk₀ disk disk' : Disk Name}

/-- The requests `requests` are through, and nothing else has happened. -/
structure Finished (reply : Request Name → Bytes → Reply) (disk₀ : Disk Name)
    (requests : List (Request Name)) (disk : Disk Name) : Prop where
  done : ∀ q ∈ requests, Done reply disk₀ disk q
  others : ∀ name, (∀ q ∈ requests, q.output ≠ name) → disk name = disk₀ name

/-- This says what is in every file. -/
theorem Finished.unique (h : Finished reply disk₀ requests disk)
    (h' : Finished reply disk₀ requests disk') : disk = disk' := by
  funext name
  by_cases hname : ∀ q ∈ requests, q.output ≠ name
  · rw [h.others name hname, h'.others name hname]
  · push Not at hname
    rcases hname with ⟨q, hq, rfl⟩
    rcases h.done q hq with ⟨src, hsrc, _, hfile⟩
    rcases h'.done q hq with ⟨src', hsrc', _, hfile'⟩
    rw [hsrc] at hsrc'
    cases hsrc'
    rw [hfile, hfile']

theorem Finished.start (reply : Request Name → Bytes → Reply) (disk₀ : Disk Name) :
    Finished reply disk₀ [] disk₀ := ⟨nofun, fun _ _ => rfl⟩

variable [DecidableEq Name]

theorem apply_other {q : Request Name} {name : Name} (hne : name ≠ q.output) (src : Bytes) :
    q.apply reply disk src name = disk name := by
  unfold Request.apply
  split
  · rw [Disk.append_other hne, Disk.create_other hne]
  · rfl

theorem apply_self (q : Request Name) (src : Bytes) :
    q.apply reply disk src q.output =
      if (reply q src).saved then some (reply q src).dst else disk q.output := by
  unfold Request.apply
  split
  · rw [Disk.append_self Disk.create_self, List.nil_append]
  · rfl

/-- The next request. -/
theorem Finished.next {q : Request Name} (hsep : Separate (before ++ q :: after))
    (h : Finished reply disk₀ before disk) {src : Bytes} (hsrc : disk₀ q.input = some src)
    (hfit : (reply q src).fits src = true) :
    Finished reply disk₀ (before ++ [q]) (q.apply reply disk src) := by
  have hfresh : ∀ q' ∈ before, q'.output ≠ q.output := by
    intro q' hq' heq
    have hnodup := hsep.outputs
    rw [List.map_append, List.map_cons] at hnodup
    refine List.disjoint_of_nodup_append hnodup (List.mem_map_of_mem hq') ?_
    rw [heq]
    exact List.mem_cons_self
  refine ⟨?_, ?_⟩
  · intro q' hq'
    rcases List.mem_append.mp hq' with hold | hnew
    · exact (h.done q' hold).congr (apply_other (hfresh q' hold) src)
    · rw [List.mem_singleton.mp hnew]
      refine ⟨src, hsrc, hfit, ?_⟩
      rw [apply_self, h.others q.output hfresh]
  · intro name hname
    have hne : name ≠ q.output := by
      intro heq
      exact hname q (List.mem_append_right _ (List.mem_singleton_self q)) heq.symm
    rw [apply_other hne]
    exact h.others name fun q' hq' => hname q' (List.mem_append_left _ hq')

/-- The sequential program comes through, unless an input is missing or a reply does not fit. -/
theorem sequential_cases (hsep : Separate (before ++ after)) (h : Finished reply disk₀ before disk) :
    (∃ disk', sequential reply after disk = some disk' ∧
      Finished reply disk₀ (before ++ after) disk') ∨
    (sequential reply after disk = none ∧
      ∃ q ∈ after, disk₀ q.input = none ∨ Overruns reply disk₀ q) := by
  induction after generalizing before disk with
  | nil =>
    rw [List.append_nil]
    exact Or.inl ⟨disk, rfl, h⟩
  | cons q after ih =>
    have hinput : disk q.input = disk₀ q.input := by
      apply h.others
      intro q' hq' heq
      have hmem : q' ∈ before ++ q :: after := List.mem_append_left _ hq'
      have hsame := hsep.inputs q' hmem q (List.mem_append_right _ List.mem_cons_self) heq
      have hnodup := hsep.outputs
      rw [List.map_append, List.map_cons] at hnodup
      refine List.disjoint_of_nodup_append hnodup (List.mem_map_of_mem hq') ?_
      rw [hsame]
      exact List.mem_cons_self
    unfold sequential
    cases hsrc : disk₀ q.input with
    | none =>
      rw [hinput, hsrc]
      exact Or.inr ⟨rfl, q, List.mem_cons_self, Or.inl hsrc⟩
    | some src =>
      rw [hinput, hsrc]
      simp only []
      by_cases hfit : (reply q src).fits src = true
      · have hnext := h.next hsep hsrc hfit
        have happend : before ++ q :: after = before ++ [q] ++ after := by
          rw [List.append_assoc, List.singleton_append]
        rw [if_pos hfit]
        rw [happend] at hsep ⊢
        rcases ih hsep hnext with hthrough | ⟨hnone, q', hq', hbad⟩
        · exact Or.inl hthrough
        · exact Or.inr ⟨hnone, q', List.mem_cons_of_mem _ hq', hbad⟩
      · rw [if_neg hfit]
        exact Or.inr ⟨rfl, q, List.mem_cons_self, Or.inr ⟨src, hsrc, hfit⟩⟩

theorem sequential_start (reply : Request Name → Bytes → Reply) (disk₀ : Disk Name)
    (hsep : Separate requests) :
    (∃ disk', sequential reply requests disk₀ = some disk' ∧
      Finished reply disk₀ requests disk') ∨
    (sequential reply requests disk₀ = none ∧
      ∃ q ∈ requests, disk₀ q.input = none ∨ Overruns reply disk₀ q) := by
  have hwhole : Separate ([] ++ requests) := hsep
  exact sequential_cases hwhole (Finished.start reply disk₀)

/-- It leaves what has to be there at the end. -/
theorem Finished.sequential_eq (hsep : Separate requests) (h : Finished reply disk₀ requests disk) :
    sequential reply requests disk₀ = some disk := by
  rcases sequential_start reply disk₀ hsep with
    ⟨disk', hrun, hfinished⟩ | ⟨_, q, hq, hbad⟩
  · rw [hrun, hfinished.unique h]
  · exact absurd hbad (h.done q hq).not_bad

theorem sequential_none (hsep : Separate requests) {q : Request Name} (hq : q ∈ requests)
    (hbad : disk₀ q.input = none ∨ Overruns reply disk₀ q) :
    sequential reply requests disk₀ = none := by
  rcases sequential_start reply disk₀ hsep with ⟨disk', _, hfinished⟩ | ⟨hnone, _⟩
  · exact absurd hbad (hfinished.done q hq).not_bad
  · exact hnone

end Sequential

/-! ## The end of a run -/

section End

variable [DecidableEq W] {reply : Request Name → Bytes → Reply} {requests : List (Request Name)}
  {disk₀ : Disk Name} {s s' : St A W Name}

/-- When all workers have returned, every request is through. -/
theorem Inv.finished [Nonempty W] (hlt : requests.length < 2 ^ 32)
    (h : Inv reply requests disk₀ s) (hreturned : Returned s.pool) :
    Finished reply disk₀ requests s.disk := by
  rcases h.counted with ⟨cells, hcounted⟩
  obtain ⟨_, hall, hown⟩ := (hcounted.inv hlt).safe.returned hreturned
  refine ⟨?_, ?_⟩
  · intro q hq
    rw [hall] at hq
    rcases List.mem_map.mp hq with ⟨⟨w, q⟩, hpop, rfl⟩
    apply h.processed w
    rw [hown w]
    unfold popsOf
    simpa using hpop
  · intro name hname
    apply h.others
    intro p hp
    exact hname p.2 (h.mem hp)

/-- A file that is as it was, or the output of a request with the first part of its image. -/
def Begun (reply : Request Name → Bytes → Reply) (requests : List (Request Name))
    (disk₀ disk : Disk Name) (name : Name) : Prop :=
  disk name = disk₀ name ∨
    ∃ q ∈ requests, q.output = name ∧ ∃ src, disk₀ q.input = some src ∧
      (reply q src).saved = true ∧ ∃ written, written <+: (reply q src).dst ∧
        disk name = some written

/-- A thread leaves nothing else in its output, wherever it stands. -/
theorem Job.Fits.begun {disk : Disk Name} {q : Request Name} {job : Job} (hq : q ∈ requests)
    (h : job.Fits reply disk₀ disk q) : Begun reply requests disk₀ disk q.output := by
  cases job with
  | waiting => exact Or.inl h
  | calling src => exact Or.inl h.2
  | answered r =>
    rcases h with ⟨_, _, _, _, hfile⟩
    exact Or.inl hfile
  | writing rest =>
    rcases h with ⟨src, written, hsrc, _, hsaved, hdst, hfile⟩
    exact Or.inr ⟨q, hq, rfl, src, hsrc, hsaved, written, ⟨rest, hdst.symm⟩, hfile⟩
  | skipped =>
    rcases h with ⟨_, _, _, _, hfile⟩
    exact Or.inl hfile

theorem Done.begun {disk : Disk Name} {q : Request Name} (hq : q ∈ requests)
    (h : Done reply disk₀ disk q) : Begun reply requests disk₀ disk q.output := by
  rcases h with ⟨src, hsrc, _, hfile⟩
  by_cases hsaved : (reply q src).saved = true
  · rw [if_pos hsaved] at hfile
    exact Or.inr ⟨q, hq, rfl, src, hsrc, hsaved, _, List.prefix_rfl, hfile⟩
  · rw [if_neg hsaved] at hfile
    exact Or.inl hfile

theorem Inv.begun (h : Inv reply requests disk₀ s) (name : Name) :
    Begun reply requests disk₀ s.disk name := by
  by_cases hname : ∀ p ∈ s.pool.pops, p.2.output ≠ name
  · exact Or.inl (h.others name hname)
  · push Not at hname
    rcases hname with ⟨⟨w, q⟩, hp, rfl⟩
    have hmem := h.mem hp
    have hown : q ∈ s.pool.processed w ++ (s.pool.worker w).held := by
      rcases h.counted with ⟨cells, hcounted⟩
      rw [← hcounted.own w]
      unfold popsOf
      simpa using hp
    rcases List.mem_append.mp hown with hprocessed | hheld
    · exact (h.processed w q hprocessed).begun hmem
    · exact (h.held w q hheld).begun hmem

end End

/-! ## Progress -/

section Progress

variable [DecidableEq A] [DecidableEq W] [DecidableEq Name]
  {reply : Request Name → Bytes → Reply} {requests : List (Request Name)}
  {disk₀ : Disk Name} {s s' : St A W Name} {a : Act W}

theorem canStep (hrunning : Running s) (hstep : (step reply requests s a).isSome = true) :
    ∃ a s', (sys reply requests disk₀).step s a = some s' := by
  rcases Option.isSome_iff_exists.mp hstep with ⟨s', hs'⟩
  refine ⟨a, s', ?_⟩
  show (if Running s then step reply requests s a else none) = some s'
  rw [if_pos hrunning, hs']

/-- A thread with a request goes on with it. -/
theorem progress_working (hrunning : Running s) {w : W} {q : Request Name}
    (hw : s.pool.worker w = .working q) :
    ∃ a s', (sys reply requests disk₀).step s a = some s' := by
  have hpool : ∀ a, (WorkerPool.step s.pool a).isSome = true →
      ∃ pool, (WorkerPool.sys requests).step s.pool a = some pool := by
    intro a hsome
    rcases Option.isSome_iff_exists.mp hsome with ⟨pool, hpool⟩
    refine ⟨pool, ?_⟩
    show (if s.pool.ended = none then WorkerPool.step s.pool a else none) = some pool
    rw [if_pos hrunning.1, hpool]
  rcases hpool (.process w) (by simp only [WorkerPool.step, hw, Option.isSome_some]) with
    ⟨_, hprocess⟩
  rcases hpool (.exit w) (by simp only [WorkerPool.step, hw, Option.isSome_some]) with ⟨_, hexit⟩
  cases hjob : s.job w with
  | waiting =>
    refine canStep (a := .read w) hrunning ?_
    simp only [step, hw, hjob]
    cases hsrc : s.disk q.input with
    | some src => rfl
    | none =>
      simp only []
      rw [hexit]
      rfl
  | calling src =>
    refine canStep (a := .call w) hrunning ?_
    simp only [step, hw, hjob]
    split <;> rfl
  | answered r =>
    refine canStep (a := .save w) hrunning ?_
    simp only [step, hw, hjob]
    split <;> rfl
  | writing rest =>
    cases rest with
    | nil =>
      refine canStep (a := .free w) hrunning ?_
      simp only [step, hjob, hprocess, Option.map_some, Option.isSome_some]
    | cons b rest =>
      refine canStep (a := .write w 1) hrunning ?_
      have hmore : 0 < 1 ∧ b :: rest ≠ [] := ⟨Nat.one_pos, List.cons_ne_nil b rest⟩
      simp only [step, hw, hjob, if_pos hmore, Option.isSome_some]
  | skipped =>
    refine canStep (a := .free w) hrunning ?_
    simp only [step, hjob, hprocess, Option.map_some, Option.isSome_some]

theorem Inv.progress (hlt : requests.length < 2 ^ 32) (h : Inv reply requests disk₀ s)
    (hrunning : Running s) (hmore : ¬ Returned s.pool) :
    ∃ a s', (sys reply requests disk₀).step s a = some s' := by
  rcases h.counted with ⟨cells, hcounted⟩
  rcases (hcounted.inv hlt).progress hrunning.1 hmore with ⟨a, pool, hread, hpool⟩
  have hqueueing : Queueing a → ∃ a s', (sys reply requests disk₀).step s a = some s' := by
    intro hqueueing
    refine canStep (a := .pool a) hrunning ?_
    simp only [step, if_pos hqueueing, hpool, Option.map_some, Option.isSome_some]
  cases a with
  | lock w | test w | pop w | unlock w => exact hqueueing trivial
  | process w =>
    cases (WorkerPool.sys_step_cases hpool).2 with
    | process _ q hw => exact progress_working hrunning hw
  | exit w => cases hread

/-- The statements between `read_from_file` and the output. -/
def Job.level : Job → Nat
  | .waiting => 3
  | .calling _ => 2
  | .answered _ => 1
  | .writing _ | .skipped => 0

/-- The bytes that are to be written. -/
def Job.left : Job → Nat
  | .writing rest => rest.length
  | .waiting | .calling _ | .answered _ | .skipped => 0

/-- What is left: of the queue, then of the requests in hand, then of the images. -/
def rank [Fintype W] (requests : List (Request Name)) (s : St A W Name) : ℕ ×ₗ (ℕ ×ₗ ℕ) :=
  toLex (WorkerPool.rank requests s.pool + (if Running s then 1 else 0),
    toLex (∑ w, (s.job w).level, ∑ w, (s.job w).left))

variable [Fintype W]

omit [DecidableEq A] [DecidableEq W] [DecidableEq Name] in
theorem rank_pool (hlt : WorkerPool.rank requests s'.pool < WorkerPool.rank requests s.pool)
    (hrunning : Running s) : rank requests s' < rank requests s := by
  unfold rank
  rw [Prod.Lex.toLex_lt_toLex, if_pos hrunning]
  refine Or.inl ?_
  show _ + _ < _ + 1
  split <;> omega

omit [DecidableEq A] [DecidableEq W] [DecidableEq Name] in
/-- The last step. -/
theorem rank_last (hrunning : Running s)
    (hpool : WorkerPool.rank requests s'.pool = WorkerPool.rank requests s.pool)
    (hstops : ¬ Running s') : rank requests s' < rank requests s := by
  unfold rank
  rw [Prod.Lex.toLex_lt_toLex, if_pos hrunning, if_neg hstops, hpool]
  exact Or.inl (Nat.lt_succ_self _)

omit [DecidableEq A] [DecidableEq Name] in
/-- A thread goes on with its request. -/
theorem rank_turn {w : W} {job : Job} {disk : Disk Name}
    (hlt : job.level < (s.job w).level ∨ (job.level = (s.job w).level ∧ job.left < (s.job w).left)) :
    rank requests { s.turn w job with disk := disk } < rank requests s := by
  have hlevel := sum_update Job.level s.job w job
  have hleft := sum_update Job.left s.job w job
  unfold rank
  rw [Prod.Lex.toLex_lt_toLex, Prod.Lex.toLex_lt_toLex]
  refine Or.inr ⟨rfl, ?_⟩
  show ∑ j, (Function.update s.job w job j).level < ∑ j, (s.job j).level ∨
    ∑ j, (Function.update s.job w job j).level = ∑ j, (s.job j).level ∧
      ∑ j, (Function.update s.job w job j).left < ∑ j, (s.job j).left
  omega

theorem rank_step (hlt : requests.length < 2 ^ 32) (h : Inv reply requests disk₀ s)
    (hrunning : Running s) (hstep : StepCase reply s a s') :
    rank requests s' < rank requests s := by
  rcases h.counted with ⟨cells, hcounted⟩
  cases hstep with
  | pool a hqueueing pool hpool =>
    have hread : a.readable = true := by
      cases a with
      | lock | test | pop | unlock => rfl
      | process | exit => exact hqueueing.elim
    rcases step_counted hpool h.counted with ⟨cells', hcounted'⟩
    have hnext := running_step (hcounted'.inv hlt) hrunning.1 hread hpool
    exact rank_pool (WorkerPool.rank_step (hcounted.inv hlt) hread hnext hpool) hrunning
  | read w q src hw hjob =>
    refine rank_turn (Or.inl ?_)
    rw [hjob]
    exact Nat.lt_succ_self 2
  | missing => exact rank_last hrunning rfl fun hnext => nomatch hnext.1
  | overrun => exact rank_last hrunning rfl fun hnext => nomatch hnext.2
  | call w q src hw hjob =>
    refine rank_turn (Or.inl ?_)
    rw [hjob]
    exact Nat.lt_succ_self 1
  | save w q r hw hjob | skip w q r hw hjob =>
    refine rank_turn (Or.inl ?_)
    rw [hjob]
    exact Nat.lt_succ_self 0
  | write w n q rest hw hjob hn hrest =>
    refine rank_turn (Or.inr ⟨?_, ?_⟩)
    · rw [hjob]
      rfl
    · have hlen : rest.length ≠ 0 := fun hzero => hrest (List.length_eq_zero_iff.mp hzero)
      rw [hjob]
      show (rest.drop n).length < rest.length
      rw [List.length_drop]
      omega
  | free w q hw hjob pool hpool =>
    rcases step_counted hpool h.counted with ⟨cells', hcounted'⟩
    have hnext := running_step (hcounted'.inv hlt) hrunning.1 rfl hpool
    exact rank_pool (WorkerPool.rank_step (hcounted.inv hlt) rfl hnext hpool) hrunning

end Progress

/-! ## Every schedule -/

section Every

variable [DecidableEq A] [DecidableEq W] [DecidableEq Name] [Fintype W] [Nonempty W]

/-- The threads do no more, or what they do is undefined. -/
def Over (s : St A W Name) : Prop :=
  Returned s.pool ∨ s.pool.ended = some .unreadable ∨ s.overrun = true

omit [Nonempty W] in
/-- Every schedule comes to an end, and the files are then as the invariant says. -/
theorem settles {reply : Request Name → Bytes → Reply} {requests : List (Request Name)}
    {disk₀ : Disk Name} {s : St A W Name} (hlt : requests.length < 2 ^ 32)
    (hsep : Separate requests) (h0 : (sys reply requests disk₀).Init s) :
    (sys reply requests disk₀).Inevitable (fun _ _ => True)
      (fun s => Inv reply requests disk₀ s ∧ Over s) s := by
  have hall : ∀ s : St A W Name, Inv reply requests disk₀ s →
      (sys reply requests disk₀).Inevitable (fun _ _ => True)
        (fun s => Inv reply requests disk₀ s ∧ Over s) s := by
    refine Sys.Inevitable.of_rank (rank requests) ?_ ?_
    · intro s h hmore
      have hended : s.pool.ended = none := by
        rcases h.counted with ⟨cells, hcounted⟩
        by_contra hne
        rcases Option.ne_none_iff_exists'.mp hne with ⟨e, he⟩
        cases e with
        | unreadable => exact hmore ⟨h, Or.inr (Or.inl he)⟩
        | fault f => exact hcounted.noFault f he
      have hoverrun : s.overrun = false := by
        by_contra hne
        exact hmore ⟨h, Or.inr (Or.inr (Bool.eq_true_of_not_eq_false hne))⟩
      rcases h.progress hlt ⟨hended, hoverrun⟩ (fun hreturned => hmore ⟨h, Or.inl hreturned⟩) with
        ⟨a, s', hs'⟩
      exact ⟨a, s', trivial, hs'⟩
    · intro s a s' h _ _ hstep
      obtain ⟨hrunning, hcase⟩ := sys_step_cases hstep
      exact ⟨step_inv hsep hcase h, rank_step hlt h hrunning hcase⟩
  exact hall s (init_inv h0)

/-- How the program ends: with all threads returned and the files of the sequential program; or,
where that cannot read an input either, in `read_from_file`; or with a reply that is longer than its
image, which the sequential program has no room for either. -/
def Ends (reply : Request Name → Bytes → Reply) (requests : List (Request Name))
    (disk₀ : Disk Name) (s : St A W Name) : Prop :=
  (Returned s.pool ∧ sequential reply requests disk₀ = some s.disk) ∨
    (s.pool.ended = some .unreadable ∧ sequential reply requests disk₀ = none ∧
      (∃ q ∈ requests, disk₀ q.input = none) ∧ ∀ name, Begun reply requests disk₀ s.disk name) ∨
    (s.overrun = true ∧ sequential reply requests disk₀ = none ∧
      ∃ q ∈ requests, Overruns reply disk₀ q)

end Every

/-- Two images that are there, and the names 2 and 3 for what becomes of them. -/
def twoRequests : List (Request Nat) := [⟨0, 2⟩, ⟨1, 3⟩]

def twoImages (name : Nat) : Option Bytes := if name < 2 then some [UInt8.ofNat name, 7] else none

/-- The second call fails. -/
def oneAnswer (q : Request Nat) (src : Bytes) : Reply :=
  ⟨if q.input = 0 then .success else .timedOut, src.take 1, true⟩

theorem twoRequests_separate : Separate twoRequests := ⟨by decide, by decide⟩

theorem exists_started (reply : Request Nat → Bytes → Reply) (disk : Disk Nat) :
    ∃ s : St Nat (Fin 2) Nat, (sys reply twoRequests disk).Init s := by
  have hnodup : ((twoRequests.zipIdx.map Prod.swap).map Prod.fst).Nodup := by decide
  rcases exists_load hnodup with ⟨pool, hload, _⟩
  exact ⟨⟨pool, fun _ => .waiting, disk, false⟩, load_init hnodup hload, fun _ => rfl, rfl, rfl⟩

example : (sequential oneAnswer twoRequests twoImages).map (fun disk => (disk 2, disk 3)) =
    some (some [0], none) := by decide

/-! ## With the server -/

section Server

open ViaRpc

variable [DecidableEq A] [DecidableEq W] [DecidableEq Name] [Fintype W] [Nonempty W]

/-- The call for an input goes through `minify_via_rpc` to a server that answers, and the output can be
opened. -/
structure Served (minify : Bytes → Bytes) (src : Bytes) (r : Reply) : Prop where
  opens : r.opens = true
  rpc : ∃ (call : Bytes → ViaRpc.Answer) (junk : Junk src.length) (out : ImageOut src.length),
    (∀ request results, minifyjpegProc1Svc minify request = some results →
      call request = .results results) ∧
    minifyViaRpc call src junk = .ok (r.stat, out) ∧ r.dst = out.dstVal.bytes.take out.dstLen

/-- Then an image that does not grow is saved. -/
theorem Served.saved {minify : Bytes → Bytes} {src : Bytes} {r : Reply} (h : Served minify src r)
    (hnarrow : src.length < 2 ^ 32) (hshrinks : (minify src).length ≤ src.length) :
    r.saved = true ∧ r.dst = minify src := by
  rcases h.rpc with ⟨call, junk, out, hcall, hrun, hdst⟩
  rcases minifyViaRpc_shrinking minify junk hnarrow hshrinks hcall with ⟨out', hrun', hlen, htake⟩
  rw [hrun', Except.ok.injEq, Prod.mk.injEq] at hrun
  obtain ⟨hstat, rfl⟩ := hrun
  refine ⟨?_, ?_⟩
  · unfold Reply.saved
    rw [h.opens, ← hstat]
    rfl
  · rw [hdst, hlen, htake]

end Server

/-- The images keep their first byte. -/
def firstByte (src : Bytes) : Bytes := src.take 1

def firstByteReply (_ : Request Nat) (src : Bytes) : Reply := ⟨.success, firstByte src, true⟩

theorem firstByteReply_served (q : Request Nat) {src : Bytes} (hnarrow : src.length < 2 ^ 32) :
    Served firstByte src (firstByteReply q src) := by
  obtain ⟨junk⟩ : Nonempty (ViaRpc.Junk src.length) := ⟨⟨0, 0, 0, Block.filled _ 7⟩⟩
  obtain ⟨call, hcall⟩ : ∃ call : Bytes → ViaRpc.Answer, ∀ request results,
      ViaRpc.minifyjpegProc1Svc firstByte request = some results →
        call request = .results results := by
    refine ⟨fun request => .results ((ViaRpc.minifyjpegProc1Svc firstByte request).getD []), ?_⟩
    intro request results hresults
    simp only [hresults, Option.getD_some]
  have hshrinks : (firstByte src).length ≤ src.length := List.length_take_le' 1 src
  rcases ViaRpc.minifyViaRpc_shrinking firstByte junk hnarrow hshrinks hcall with
    ⟨out, hrun, hlen, htake⟩
  refine ⟨rfl, call, junk, out, hcall, hrun, ?_⟩
  rw [hlen, htake]
  rfl

end IntroOS.Minify.Pipeline
