import IntroOS.Base.Blocks
import IntroOS.Minify.Dispatch

/-! # The memory of `rpc_mt`

The server gets the bytes of an image from `svc_getargs` and those of the smaller one from
ImageMagick. A request goes to a worker by the address of its `thread_data`.

1. **Blocks** and **Steps** (`sys`): the boss and the workers on pointers;
2. **Pointers** (`JobAt`, `WorkerAt`): what they stand for, and what does not change it;
3. **It is the dispatcher** (`reach_mirrors`): what is reached with pointers is reached in
   `Dispatch.sys`, where a job is a value.

The addresses that `malloc` returns are part of the actions. `left` is what an `svc_getargs` that
fails has put into memory by then. Nothing of no size is put into memory.
-/

namespace IntroOS.Minify.Dispatch.Memory

/-! ## Blocks -/

variable {A W : Type*}

/-- `thread_data`, once it is filled in: `transp`, and `minifyjpeg_proc_1_arg` with a pointer to
the bytes. -/
structure ThreadData (A : Type*) where
  transp : Nat
  src : Option A
  srcLen : Int
  dstLen : Int
deriving DecidableEq, Repr

/-- What is in a block. -/
inductive Cell (A : Type*) where
  /-- `thread_data`, before and after it is filled in -/
  | threadData (d : Option (ThreadData A))
  /-- from `svc_getargs` -/
  | src (bytes : Bytes)
  /-- from `ImageToBlob` -/
  | dst (bytes : Bytes)
deriving DecidableEq, Repr

/-- `sizeof(thread_data)`. -/
def sizeofThreadData : Nat := 40

def Cell.size : Cell A → Nat
  | .threadData _ => sizeofThreadData
  | .src bytes | .dst bytes => bytes.length

/-- What is put into memory for some bytes. -/
def blockOf (mk : Bytes → Cell A) (bytes : Bytes) : Option (Cell A) :=
  if bytes = [] then none else some (mk bytes)

theorem size_blockOf {bytes : Bytes} {mk : Bytes → Cell A} (hmk : (mk bytes).size = bytes.length) :
    (blockOf mk bytes).elim 0 Cell.size = bytes.length := by
  unfold blockOf
  by_cases hnil : bytes = []
  · rw [if_pos hnil, hnil]
    rfl
  · rw [if_neg hnil]
    exact hmk

theorem blockOf_ne {bytes : Bytes} {mk : Bytes → Cell A} {x : Cell A} (hmk : ∀ bytes, mk bytes ≠ x) :
    blockOf mk bytes ≠ some x := by
  unfold blockOf
  split
  · exact fun h => by cases h
  · exact fun h => hmk bytes (Option.some.inj h)

/-! ## State -/

/-- `image_out`, with the length that `magickminify` gives. -/
structure ImageOut (A : Type*) where
  dstVal : Option A
  dstLen : Nat
deriving DecidableEq, Repr

/-- Where a worker stands, with its `data_ptr` and its `result`. -/
inductive Worker (A : Type*) where
  /-- at the test of `workqueue` -/
  | idle
  /-- at `_minifyjpeg_proc_1` -/
  | working (p : A)
  /-- at `svc_sendreply` -/
  | replying (p : A) (res : ImageOut A)
  /-- at `minifyjpeg_prog_1_freeresult` -/
  | freeing (p : A) (res : ImageOut A)
  /-- at `free(data_ptr)` -/
  | releasing (p : A)
deriving DecidableEq, Repr

/-- What ends the server. -/
inductive Ended where
  /-- `exit(1)` in `magickminify` -/
  | exit
  /-- an address that is not in use is read or freed, or has something else -/
  | dangling
deriving DecidableEq, Repr

structure St (A W : Type*) where
  /-- how many requests the boss received -/
  received : Nat
  workqueue : List A
  worker : W → Worker A
  blocks : Blocks A (Cell A)
  /-- the reply on each connection -/
  reply : Nat → Option Reply
  ended : Option Ended

inductive Act (A W : Type*) where
  /-- the boss: `svc_run` and `minifyjpeg_prog_1`, with the addresses of `thread_data` and of the
  bytes -/
  | receive (a b : A)
  /-- a worker's `steque_isempty` and `steque_pop` -/
  | take (w : W)
  /-- `minifyjpeg_proc_1_svc`, with the address of its result -/
  | compute (w : W) (c : A)
  | sendreply (w : W)
  | freeresult (w : W)
  | free (w : W)
deriving DecidableEq, Repr

/-! ## Steps -/

section Step

variable [DecidableEq A]

/-- `data_ptr->...`. -/
def threadData (m : Blocks A (Cell A)) (p : A) : Option (ThreadData A) :=
  match m.lookup p with
  | some (.threadData d) => d
  | _ => none

/-- The bytes at a pointer from `svc_getargs`. -/
def srcAt (m : Blocks A (Cell A)) : Option A → Option Bytes
  | none => some []
  | some a =>
    match m.lookup a with
    | some (.src bytes) => some bytes
    | _ => none

/-- The bytes at a pointer from `ImageToBlob`. -/
def dstAt (m : Blocks A (Cell A)) : Option A → Option Bytes
  | none => some []
  | some a =>
    match m.lookup a with
    | some (.dst bytes) => some bytes
    | _ => none

/-- `data_ptr->minifyjpeg_proc_1_arg`, with its bytes. -/
def argument (m : Blocks A (Cell A)) (p : A) : Option ImageIn :=
  (threadData m p).bind fun d => (srcAt m d.src).map fun src => ⟨src, d.srcLen, d.dstLen⟩

/-- What `svc_sendreply` reads: `data_ptr->transp` and the bytes of the result. -/
def response (m : Blocks A (Cell A)) (p : A) (res : ImageOut A) : Option (Nat × Bytes) :=
  (threadData m p).bind fun d => (dstAt m res.dstVal).map fun dst => (d.transp, dst)

variable [DecidableEq W] (minify : Bytes → Option Bytes) (left : Bytes → Bytes)
  (requests : List Request)

/-- A step of the running server. -/
def step (s : St A W) : Act A W → Option (St A W)
  | .receive a b =>
    match requests[s.received]? with
    | none => none
    | some r =>
      -- `malloc` returns what is not in use
      if a ∈ s.blocks ∨ b ∈ s.blocks ∨ a = b then none
      else
        match xdrImageIn r.args with
        -- `svcerr_decode` and `return`: both blocks stay
        | none => some { s with
            received := s.received + 1
            blocks := (s.blocks.give b (blockOf .src (left r.args))).2.insert a (.threadData none)
            reply := Function.update s.reply s.received (some .decodeError) }
        | some arg =>
          let got := s.blocks.give b (blockOf .src arg.src)
          some { s with
            received := s.received + 1
            blocks := got.2.insert a
              (.threadData (some ⟨s.received, got.1, arg.srcLen, arg.dstLen⟩))
            workqueue := s.workqueue ++ [a] }
  | .take w =>
    match s.worker w, s.workqueue with
    | .idle, p :: rest =>
      some { s with worker := Function.update s.worker w (.working p), workqueue := rest }
    | _, _ => none
  | .compute w c =>
    match s.worker w with
    | .working p =>
      match argument s.blocks p with
      | none => some { s with ended := some .dangling }
      | some arg =>
        match minifyjpegProc1Svc minify arg with
        | none => some { s with ended := some .exit }
        | some dst =>
          if c ∈ s.blocks then none
          else
            -- `ImageToBlob` mallocs what it returns
            let made := s.blocks.give c (blockOf .dst dst)
            some { s with
              worker := Function.update s.worker w (.replying p ⟨made.1, dst.length⟩)
              blocks := made.2 }
    | _ => none
  | .sendreply w =>
    match s.worker w with
    | .replying p res =>
      match response s.blocks p res with
      | none => some { s with ended := some .dangling }
      | some (transp, dst) => some { s with
          worker := Function.update s.worker w (.freeing p res)
          reply := Function.update s.reply transp (some (.image dst)) }
    | _ => none
  | .freeresult w =>
    match s.worker w with
    | .freeing p res =>
      match s.blocks.free res.dstVal with
      | none => some { s with ended := some .dangling }
      | some m => some { s with
          worker := Function.update s.worker w (.releasing p)
          blocks := m }
    | _ => none
  | .free w =>
    match s.worker w with
    | .releasing p =>
      match s.blocks.free (some p) with
      | none => some { s with ended := some .dangling }
      | some m => some { s with
          worker := Function.update s.worker w .idle
          blocks := m }
    | _ => none

/-- The server on a sequence of requests, each on its own connection. -/
def sys : Sys (St A W) (Act A W) where
  Init s :=
    s.received = 0 ∧ s.workqueue = [] ∧ (∀ w, s.worker w = .idle) ∧ s.blocks = ∅ ∧
      (∀ i, s.reply i = none) ∧ s.ended = none
  step s a := if s.ended.isSome then none else step minify left requests s a

end Step

def St.start : St A W where
  received := 0
  workqueue := []
  worker := fun _ => .idle
  blocks := ∅
  reply := fun _ => none
  ended := none

theorem start_init [DecidableEq A] [DecidableEq W] {minify : Bytes → Option Bytes}
    {left : Bytes → Bytes} {requests : List Request} :
    (sys minify left requests).Init (St.start : St A W) :=
  ⟨rfl, rfl, fun _ => rfl, rfl, fun _ => rfl, rfl⟩

/-! ## What a step does -/

section Cases

variable [DecidableEq A] [DecidableEq W] {minify : Bytes → Option Bytes} {left : Bytes → Bytes}
  {requests : List Request}

/-- The steps, one case for each way through `step`. -/
inductive StepCase (minify : Bytes → Option Bytes) (left : Bytes → Bytes)
    (requests : List Request) (s : St A W) : Act A W → St A W → Prop where
  | refuse (a b : A) (r : Request) (hr : requests[s.received]? = some r)
      (ha : a ∉ s.blocks) (hb : b ∉ s.blocks) (hab : a ≠ b) (hargs : xdrImageIn r.args = none) :
      StepCase minify left requests s (.receive a b) { s with
        received := s.received + 1
        blocks := (s.blocks.give b (blockOf .src (left r.args))).2.insert a (.threadData none)
        reply := Function.update s.reply s.received (some .decodeError) }
  | enqueue (a b : A) (r : Request) (arg : ImageIn) (hr : requests[s.received]? = some r)
      (ha : a ∉ s.blocks) (hb : b ∉ s.blocks) (hab : a ≠ b) (hargs : xdrImageIn r.args = some arg) :
      StepCase minify left requests s (.receive a b) { s with
        received := s.received + 1
        blocks := (s.blocks.give b (blockOf .src arg.src)).2.insert a (.threadData
          (some ⟨s.received, (s.blocks.give b (blockOf .src arg.src)).1, arg.srcLen, arg.dstLen⟩))
        workqueue := s.workqueue ++ [a] }
  | take (w : W) (p : A) (rest : List A) (hw : s.worker w = .idle) (hq : s.workqueue = p :: rest) :
      StepCase minify left requests s (.take w)
        { s with worker := Function.update s.worker w (.working p), workqueue := rest }
  | noArgument (w : W) (p c : A) (hw : s.worker w = .working p)
      (harg : argument s.blocks p = none) :
      StepCase minify left requests s (.compute w c) { s with ended := some .dangling }
  | exit (w : W) (p c : A) (arg : ImageIn) (hw : s.worker w = .working p)
      (harg : argument s.blocks p = some arg) (hdst : minifyjpegProc1Svc minify arg = none) :
      StepCase minify left requests s (.compute w c) { s with ended := some .exit }
  | compute (w : W) (p c : A) (arg : ImageIn) (dst : Bytes) (hw : s.worker w = .working p)
      (harg : argument s.blocks p = some arg) (hdst : minifyjpegProc1Svc minify arg = some dst)
      (hc : c ∉ s.blocks) :
      StepCase minify left requests s (.compute w c) { s with
        worker := Function.update s.worker w
          (.replying p ⟨(s.blocks.give c (blockOf .dst dst)).1, dst.length⟩)
        blocks := (s.blocks.give c (blockOf .dst dst)).2 }
  | noResponse (w : W) (p : A) (res : ImageOut A) (hw : s.worker w = .replying p res)
      (hresp : response s.blocks p res = none) :
      StepCase minify left requests s (.sendreply w) { s with ended := some .dangling }
  | sendreply (w : W) (p : A) (res : ImageOut A) (transp : Nat) (dst : Bytes)
      (hw : s.worker w = .replying p res) (hresp : response s.blocks p res = some (transp, dst)) :
      StepCase minify left requests s (.sendreply w) { s with
        worker := Function.update s.worker w (.freeing p res)
        reply := Function.update s.reply transp (some (.image dst)) }
  | noResult (w : W) (p : A) (res : ImageOut A) (hw : s.worker w = .freeing p res)
      (hfree : s.blocks.free res.dstVal = none) :
      StepCase minify left requests s (.freeresult w) { s with ended := some .dangling }
  | freeresult (w : W) (p : A) (res : ImageOut A) (m : Blocks A (Cell A))
      (hw : s.worker w = .freeing p res) (hfree : s.blocks.free res.dstVal = some m) :
      StepCase minify left requests s (.freeresult w)
        { s with worker := Function.update s.worker w (.releasing p), blocks := m }
  | noData (w : W) (p : A) (hw : s.worker w = .releasing p)
      (hfree : s.blocks.free (some p) = none) :
      StepCase minify left requests s (.free w) { s with ended := some .dangling }
  | free (w : W) (p : A) (m : Blocks A (Cell A)) (hw : s.worker w = .releasing p)
      (hfree : s.blocks.free (some p) = some m) :
      StepCase minify left requests s (.free w)
        { s with worker := Function.update s.worker w .idle, blocks := m }

theorem step_cases {s s' : St A W} {a : Act A W} (h : step minify left requests s a = some s') :
    StepCase minify left requests s a s' := by
  cases a with
  | receive a b =>
    simp only [step] at h
    split at h
    · cases h
    · rename_i r hr
      split at h
      · cases h
      · rename_i hfresh
        rw [not_or, not_or] at hfresh
        obtain ⟨ha, hb, hab⟩ := hfresh
        split at h
        · rename_i hargs
          cases h
          exact .refuse a b r hr ha hb hab hargs
        · rename_i arg hargs
          cases h
          exact .enqueue a b r arg hr ha hb hab hargs
  | take w =>
    simp only [step] at h
    split at h
    · rename_i p rest hw hq
      cases h
      exact .take w p rest hw hq
    · cases h
  | compute w c =>
    simp only [step] at h
    split at h
    · rename_i p hw
      split at h
      · rename_i harg
        cases h
        exact .noArgument w p c hw harg
      · rename_i arg harg
        split at h
        · rename_i hdst
          cases h
          exact .exit w p c arg hw harg hdst
        · rename_i dst hdst
          split at h
          · cases h
          · rename_i hc
            cases h
            exact .compute w p c arg dst hw harg hdst hc
    · cases h
  | sendreply w =>
    simp only [step] at h
    split at h
    · rename_i p res hw
      split at h
      · rename_i hresp
        cases h
        exact .noResponse w p res hw hresp
      · rename_i transp dst hresp
        cases h
        exact .sendreply w p res transp dst hw hresp
    · cases h
  | freeresult w =>
    simp only [step] at h
    split at h
    · rename_i p res hw
      split at h
      · rename_i hfree
        cases h
        exact .noResult w p res hw hfree
      · rename_i m hfree
        cases h
        exact .freeresult w p res m hw hfree
    · cases h
  | free w =>
    simp only [step] at h
    split at h
    · rename_i p hw
      split at h
      · rename_i hfree
        cases h
        exact .noData w p hw hfree
      · rename_i m hfree
        cases h
        exact .free w p m hw hfree
    · cases h

theorem sys_step_cases {s s' : St A W} {a : Act A W}
    (h : (sys minify left requests).step s a = some s') :
    s.ended = none ∧ StepCase minify left requests s a s' := by
  have hstep : (if s.ended.isSome then none else step minify left requests s a) = some s' := h
  split at hstep
  · cases hstep
  · rename_i hrun
    exact ⟨by simpa using hrun, step_cases hstep⟩

end Cases

/-! ## Pointers and what they stand for -/

/-- `data_ptr`. -/
def Worker.ptr : Worker A → Option A
  | .idle => none
  | .working p | .replying p _ | .freeing p _ | .releasing p => some p

/-- `result.dst.dst_val`. -/
def Worker.result : Worker A → Option A
  | .idle | .working _ | .releasing _ => none
  | .replying _ res | .freeing _ res => res.dstVal

section Pointers

variable [DecidableEq A] {m m' : Blocks A (Cell A)} {p a : A} {q : Option A} {v : Option (Cell A)}
  {j : Job} {bytes : Bytes}

/-- The `thread_data` at `p` is the job `j`. -/
def JobAt (m : Blocks A (Cell A)) (p : A) (j : Job) : Prop :=
  ∃ src, m.Holds (some p) (some (.threadData (some ⟨j.conn, src, j.arg.srcLen, j.arg.dstLen⟩))) ∧
    m.Holds src (blockOf .src j.arg.src)

/-- The worker is where that of the dispatcher is, or has replied and gives back its blocks. -/
inductive WorkerAt (m : Blocks A (Cell A)) : Worker A → Dispatch.Worker → Prop where
  | idle : WorkerAt m .idle .idle
  | working {p : A} {j : Job} (hjob : JobAt m p j) : WorkerAt m (.working p) (.working j)
  | replying {p : A} {j : Job} {res : ImageOut A} {dst : Bytes} (hjob : JobAt m p j)
      (hdst : m.Holds res.dstVal (blockOf .dst dst)) (hlen : res.dstLen = dst.length) :
      WorkerAt m (.replying p res) (.replying j.conn dst)
  | freeing {p : A} {j : Job} {res : ImageOut A} {dst : Bytes} (hjob : JobAt m p j)
      (hdst : m.Holds res.dstVal (blockOf .dst dst)) (hlen : res.dstLen = dst.length) :
      WorkerAt m (.freeing p res) .idle
  | releasing {p : A} {j : Job} (hjob : JobAt m p j) : WorkerAt m (.releasing p) .idle

theorem srcAt_of_holds (h : m.Holds q (blockOf .src bytes)) : srcAt m q = some bytes := by
  unfold blockOf at h
  cases q with
  | none =>
    split at h
    · rename_i hnil
      rw [hnil]
      rfl
    · exact False.elim h
  | some a =>
    split at h
    · exact False.elim h
    · have hlookup : m.lookup a = some (.src bytes) := h
      simp only [srcAt, hlookup]

theorem dstAt_of_holds (h : m.Holds q (blockOf .dst bytes)) : dstAt m q = some bytes := by
  unfold blockOf at h
  cases q with
  | none =>
    split at h
    · rename_i hnil
      rw [hnil]
      rfl
    · exact False.elim h
  | some a =>
    split at h
    · exact False.elim h
    · have hlookup : m.lookup a = some (.dst bytes) := h
      simp only [dstAt, hlookup]

theorem JobAt.argument (h : JobAt m p j) : argument m p = some j.arg := by
  obtain ⟨src, hdata, hsrc⟩ := h
  have hlookup : m.lookup p =
      some (.threadData (some ⟨j.conn, src, j.arg.srcLen, j.arg.dstLen⟩)) := hdata
  unfold Memory.argument threadData
  rw [hlookup, Option.bind_some, srcAt_of_holds hsrc]
  rfl

theorem JobAt.response (h : JobAt m p j) {res : ImageOut A}
    (hdst : m.Holds res.dstVal (blockOf .dst bytes)) :
    response m p res = some (j.conn, bytes) := by
  obtain ⟨src, hdata, _⟩ := h
  have hlookup : m.lookup p =
      some (.threadData (some ⟨j.conn, src, j.arg.srcLen, j.arg.dstLen⟩)) := hdata
  unfold Memory.response threadData
  rw [hlookup, Option.bind_some, dstAt_of_holds hdst]
  rfl

theorem JobAt.mem (h : JobAt m p j) : p ∈ m := by
  obtain ⟨src, hdata, _⟩ := h
  exact Blocks.mem_of_lookup hdata

/-! ### What does not change it -/

theorem JobAt.grow (h : JobAt m p j) (hgrow : ∀ q v, m.Holds q v → m'.Holds q v) :
    JobAt m' p j := by
  obtain ⟨src, hdata, hsrc⟩ := h
  exact ⟨src, hgrow _ _ hdata, hgrow _ _ hsrc⟩

theorem WorkerAt.grow {x : Worker A} {d : Dispatch.Worker} (h : WorkerAt m x d)
    (hgrow : ∀ q v, m.Holds q v → m'.Holds q v) : WorkerAt m' x d := by
  cases h with
  | idle => exact .idle
  | working hjob => exact .working (hjob.grow hgrow)
  | replying hjob hdst hlen => exact .replying (hjob.grow hgrow) (hgrow _ _ hdst) hlen
  | freeing hjob hdst hlen => exact .freeing (hjob.grow hgrow) (hgrow _ _ hdst) hlen
  | releasing hjob => exact .releasing (hjob.grow hgrow)

/-- A block of another kind than the bytes of the arguments is given back. -/
theorem JobAt.of_free (h : JobAt m p j) (hq : m.Holds q v) (hv : ∀ bytes, v ≠ some (.src bytes))
    (hfree : m.free q = some m') (hp : q = none ∨ some p ≠ q) : JobAt m' p j := by
  obtain ⟨src, hdata, hsrc⟩ := h
  refine ⟨src, hdata.of_free hp hfree, hsrc.of_free ?_ hfree⟩
  by_cases hnull : q = none
  · exact Or.inl hnull
  · refine Or.inr (hsrc.ne hq ?_)
    intro hsame
    unfold blockOf at hsame
    split at hsame
    · -- nothing was there to be given back
      rw [← hsame] at hq
      cases q with
      | none => exact hnull rfl
      | some a => exact hq
    · exact hv _ hsame.symm

theorem WorkerAt.of_free {x : Worker A} {d : Dispatch.Worker} (h : WorkerAt m x d)
    (hq : m.Holds q v) (hv : ∀ bytes, v ≠ some (.src bytes)) (hfree : m.free q = some m')
    (hptr : q = none ∨ x.ptr ≠ q) (hres : q = none ∨ x.result ≠ q) : WorkerAt m' x d := by
  cases h with
  | idle => exact .idle
  | working hjob => exact .working (hjob.of_free hq hv hfree hptr)
  | replying hjob hdst hlen =>
    exact .replying (hjob.of_free hq hv hfree hptr) (hdst.of_free hres hfree) hlen
  | freeing hjob hdst hlen =>
    exact .freeing (hjob.of_free hq hv hfree hptr) (hdst.of_free hres hfree) hlen
  | releasing hjob => exact .releasing (hjob.of_free hq hv hfree hptr)

/-- A worker's `data_ptr` leads to a job. -/
theorem WorkerAt.job {x : Worker A} {d : Dispatch.Worker} (h : WorkerAt m x d)
    (hp : x.ptr = some p) : ∃ j, JobAt m p j := by
  cases h with
  | idle => cases hp
  | working hjob | replying hjob _ _ | freeing hjob _ _ | releasing hjob =>
    cases hp
    exact ⟨_, hjob⟩

/-- And its `dst_val` to a result. -/
theorem WorkerAt.dst {x : Worker A} {d : Dispatch.Worker} (h : WorkerAt m x d) :
    ∃ dst, m.Holds x.result (blockOf .dst dst) := by
  cases h with
  | idle | working _ | releasing _ => exact ⟨[], trivial⟩
  | replying _ hdst _ | freeing _ hdst _ => exact ⟨_, hdst⟩

/-! ### Where a worker stands -/

theorem WorkerAt.of_idle {d : Dispatch.Worker} (h : WorkerAt m .idle d) : d = .idle := by
  cases h
  rfl

theorem WorkerAt.of_working {d : Dispatch.Worker} (h : WorkerAt m (.working p) d) :
    ∃ j, d = .working j ∧ JobAt m p j := by
  cases h with
  | working hjob => exact ⟨_, rfl, hjob⟩

theorem WorkerAt.of_replying {d : Dispatch.Worker} {res : ImageOut A}
    (h : WorkerAt m (.replying p res) d) : ∃ j dst, d = .replying j.conn dst ∧ JobAt m p j ∧
      m.Holds res.dstVal (blockOf .dst dst) ∧ res.dstLen = dst.length := by
  cases h with
  | replying hjob hdst hlen => exact ⟨_, _, rfl, hjob, hdst, hlen⟩

theorem WorkerAt.of_freeing {d : Dispatch.Worker} {res : ImageOut A}
    (h : WorkerAt m (.freeing p res) d) : d = .idle ∧ ∃ j dst, JobAt m p j ∧
      m.Holds res.dstVal (blockOf .dst dst) ∧ res.dstLen = dst.length := by
  cases h with
  | freeing hjob hdst hlen => exact ⟨rfl, _, _, hjob, hdst, hlen⟩

theorem WorkerAt.of_releasing {d : Dispatch.Worker} (h : WorkerAt m (.releasing p) d) :
    d = .idle ∧ ∃ j, JobAt m p j := by
  cases h with
  | releasing hjob => exact ⟨rfl, _, hjob⟩

/-- A pointer to a `thread_data` is none to a result. -/
theorem JobAt.ne_dst (h : JobAt m p j) (hq : m.Holds q (blockOf .dst bytes)) : some p ≠ q := by
  obtain ⟨src, hdata, _⟩ := h
  refine hdata.ne hq fun hsame => ?_
  exact blockOf_ne (fun _ hsame => by cases hsame) hsame.symm

end Pointers

/-! ## It is the dispatcher -/

section Mirrors

variable [DecidableEq A] [DecidableEq W] {minify : Bytes → Option Bytes} {left : Bytes → Bytes}
  {requests : List Request} {s s' : St A W} {d : Dispatch.St W} {a : Act A W}

/-- With its pointers followed, the state is that of the dispatcher. Each `thread_data` is in the
queue once or with one worker, and each result with one worker. -/
structure Mirrors (s : St A W) (d : Dispatch.St W) : Prop where
  received : d.received = s.received
  queue : List.Forall₂ (JobAt s.blocks) s.workqueue d.workqueue
  workers : ∀ w, WorkerAt s.blocks (s.worker w) (d.worker w)
  reply : d.reply = s.reply
  ended : s.ended = if d.exited then some .exit else none
  pointers : Owned Worker.ptr s.workqueue s.worker
  results : Owned Worker.result [] s.worker

/-- A step of the dispatcher, if it has not exited. -/
theorem follows_step {d' : Dispatch.St W} (hexited : d.exited = false) (b : Dispatch.Act W)
    (h : Dispatch.step minify requests d b = some d') :
    (Dispatch.sys minify requests).Follows (fun _ _ => True) d d' := by
  refine Or.inr ⟨b, trivial, ?_⟩
  show (if d.exited then none else Dispatch.step minify requests d b) = some d'
  rw [hexited]
  exact h

omit [DecidableEq W] in
theorem Mirrors.running (h : Mirrors s d) (hrun : s.ended = none) : d.exited = false := by
  have hended := h.ended
  rw [hrun] at hended
  cases hexited : d.exited with
  | false => rfl
  | true =>
    rw [hexited] at hended
    cases hended

omit [DecidableEq W] in
theorem Mirrors.worker_at (h : Mirrors s d) {w : W} {x : Worker A} (hw : s.worker w = x) :
    WorkerAt s.blocks x (d.worker w) := by
  rw [← hw]
  exact h.workers w

omit [DecidableEq W] in
theorem Mirrors.queued (h : Mirrors s d) {p : A} (hp : p ∈ s.workqueue) :
    ∃ j, JobAt s.blocks p j := by
  rcases List.forall₂_iff_get.mp h.queue with ⟨hlen, hall⟩
  rcases List.mem_iff_get.mp hp with ⟨⟨i, hi⟩, hget⟩
  have hjob := hall i hi (hlen ▸ hi)
  rw [hget] at hjob
  exact ⟨_, hjob⟩

omit [DecidableEq W] in
/-- A new address is none of those in the queue or with a worker. -/
theorem Mirrors.fresh (h : Mirrors s d) {p : A} (hp : p ∉ s.blocks) :
    p ∉ s.workqueue ∧ ∀ w, (s.worker w).ptr ≠ some p := by
  constructor
  · intro hmem
    rcases h.queued hmem with ⟨j, hjob⟩
    exact hp hjob.mem
  · intro w hw
    rcases (h.workers w).job hw with ⟨j, hjob⟩
    exact hp hjob.mem

omit [DecidableEq W] in
/-- Only blocks are added, and nobody has another pointer. -/
theorem Mirrors.grow (h : Mirrors s d) {m : Blocks A (Cell A)}
    (hgrow : ∀ q v, s.blocks.Holds q v → m.Holds q v) : Mirrors { s with blocks := m } d :=
  ⟨h.received, h.queue.imp fun _ _ hjob => hjob.grow hgrow, fun w => (h.workers w).grow hgrow,
    h.reply, h.ended, h.pointers, h.results⟩

/-- A worker goes on, and so does that of the dispatcher. -/
theorem Mirrors.move (h : Mirrors s d) {w : W} {v : Worker A} {x : Dispatch.Worker}
    (hat : WorkerAt s.blocks v x) (hptr : v.ptr = (s.worker w).ptr)
    (hres : ∀ c, v.result = some c → ∀ w', (s.worker w').result = some c → w' = w) :
    Mirrors { s with worker := Function.update s.worker w v }
      { d with worker := Function.update d.worker w x } := by
  refine ⟨h.received, h.queue, ?_, h.reply, h.ended, h.pointers.keep hptr,
    h.results.update fun c hc => ⟨List.not_mem_nil, hres c hc⟩⟩
  intro w'
  show WorkerAt s.blocks (Function.update s.worker w v w') (Function.update d.worker w x w')
  by_cases hw : w' = w
  · rw [hw, Function.update_self, Function.update_self]
    exact hat
  · rw [Function.update_of_ne hw, Function.update_of_ne hw]
    exact h.workers w'

/-- A worker that has replied gives a block back that is its own. -/
theorem Mirrors.give_back (h : Mirrors s d) {w : W} {v : Worker A} {q : Option A}
    {x : Option (Cell A)} {m : Blocks A (Cell A)} (hidle : d.worker w = .idle)
    (hat : WorkerAt m v .idle) (hq : s.blocks.Holds q x) (hx : ∀ bytes, x ≠ some (.src bytes))
    (hfree : s.blocks.free q = some m) (hqueue : ∀ p ∈ s.workqueue, q = none ∨ some p ≠ q)
    (hothers : ∀ w' ≠ w, q = none ∨ ((s.worker w').ptr ≠ q ∧ (s.worker w').result ≠ q))
    (hptr : v.ptr = none ∨ v.ptr = (s.worker w).ptr) (hres : v.result = none) :
    Mirrors { s with worker := Function.update s.worker w v, blocks := m } d := by
  refine ⟨h.received, ?_, ?_, h.reply, h.ended, ?_, h.results.clear hres⟩
  · have hqueue' := (List.forall₂_and_left _ _).mpr ⟨hqueue, h.queue⟩
    exact hqueue'.imp fun p j hpj => hpj.2.of_free hq hx hfree hpj.1
  · intro w'
    show WorkerAt m (Function.update s.worker w v w') (d.worker w')
    by_cases hw : w' = w
    · rw [hw, Function.update_self, hidle]
      exact hat
    · rw [Function.update_of_ne hw]
      rcases hothers w' hw with hnull | ⟨hother, hother'⟩
      · exact (h.workers w').of_free hq hx hfree (Or.inl hnull) (Or.inl hnull)
      · exact (h.workers w').of_free hq hx hfree (Or.inr hother) (Or.inr hother')
  · rcases hptr with hnone | hsame
    · exact h.pointers.clear hnone
    · exact h.pointers.keep hsame

theorem refuse_mirrors (h : Mirrors s d) (hrun : s.ended = none) {p b : A} {r : Request}
    (hr : requests[s.received]? = some r) (hp : p ∉ s.blocks) (hb : b ∉ s.blocks) (hpb : p ≠ b)
    (hargs : xdrImageIn r.args = none) :
    ∃ d', (Dispatch.sys minify requests).Follows (fun _ _ => True) d d' ∧ Mirrors { s with
      received := s.received + 1
      blocks := (s.blocks.give b (blockOf .src (left r.args))).2.insert p (.threadData none)
      reply := Function.update s.reply s.received (some .decodeError) } d' := by
  refine ⟨{ d with
    received := s.received + 1
    reply := Function.update s.reply s.received (some .decodeError) },
    follows_step (h.running hrun) .receive ?_, ?_⟩
  · simp only [Dispatch.step, h.received, h.reply, hr, hargs]
  · have hgrown := h.grow (m := (s.blocks.give b (blockOf .src (left r.args))).2.insert p
      (.threadData none)) fun q v hq => (hq.give hb _).insert (Blocks.notMem_give hp hpb _) _
    exact ⟨rfl, hgrown.queue, hgrown.workers, rfl, h.ended, h.pointers, h.results⟩

theorem enqueue_mirrors (h : Mirrors s d) (hrun : s.ended = none) {p b : A} {r : Request}
    {arg : ImageIn} (hr : requests[s.received]? = some r) (hp : p ∉ s.blocks) (hb : b ∉ s.blocks)
    (hpb : p ≠ b) (hargs : xdrImageIn r.args = some arg) :
    ∃ d', (Dispatch.sys minify requests).Follows (fun _ _ => True) d d' ∧ Mirrors { s with
      received := s.received + 1
      blocks := (s.blocks.give b (blockOf .src arg.src)).2.insert p (.threadData
        (some ⟨s.received, (s.blocks.give b (blockOf .src arg.src)).1, arg.srcLen, arg.dstLen⟩))
      workqueue := s.workqueue ++ [p] } d' := by
  refine ⟨{ d with
    received := s.received + 1
    workqueue := d.workqueue ++ [⟨s.received, arg⟩] },
    follows_step (h.running hrun) .receive ?_, ?_⟩
  · simp only [Dispatch.step, h.received, hr, hargs]
  · have hnew := Blocks.notMem_give hp hpb (blockOf .src arg.src)
    have hgrown := h.grow (m := (s.blocks.give b (blockOf .src arg.src)).2.insert p (.threadData
      (some ⟨s.received, (s.blocks.give b (blockOf .src arg.src)).1, arg.srcLen, arg.dstLen⟩)))
      fun q v hq => (hq.give hb _).insert hnew _
    obtain ⟨hqueue, hworkers⟩ := h.fresh hp
    have hjob : JobAt ((s.blocks.give b (blockOf .src arg.src)).2.insert p (.threadData
        (some ⟨s.received, (s.blocks.give b (blockOf .src arg.src)).1, arg.srcLen, arg.dstLen⟩)))
        p ⟨s.received, arg⟩ :=
      ⟨_, AList.lookup_insert _, (Blocks.holds_give _ _ _).insert hnew _⟩
    exact ⟨rfl, List.rel_append hgrown.queue (.cons hjob .nil), hgrown.workers, h.reply, h.ended,
      h.pointers.append hqueue hworkers, h.results⟩

theorem take_mirrors (h : Mirrors s d) (hrun : s.ended = none) {w : W} {p : A} {rest : List A}
    (hw : s.worker w = .idle) (hq : s.workqueue = p :: rest) :
    ∃ d', (Dispatch.sys minify requests).Follows (fun _ _ => True) d d' ∧ Mirrors
      { s with worker := Function.update s.worker w (.working p), workqueue := rest } d' := by
  have hidle := (h.worker_at hw).of_idle
  have hqueue := h.queue
  have hpointers := h.pointers
  rw [hq] at hqueue hpointers
  cases hdq : d.workqueue with
  | nil =>
    rw [hdq] at hqueue
    cases hqueue
  | cons j jobs =>
    rw [hdq] at hqueue
    cases hqueue with
    | cons hjob hrest =>
      refine ⟨{ d with
        worker := Function.update d.worker w (.working j)
        workqueue := jobs }, follows_step (h.running hrun) (.take w) ?_, ?_⟩
      · simp only [Dispatch.step, hidle, hdq]
      · refine ⟨h.received, hrest, ?_, h.reply, h.ended, hpointers.take rfl, h.results.clear rfl⟩
        intro w'
        show WorkerAt s.blocks (Function.update s.worker w (.working p) w')
          (Function.update d.worker w (.working j) w')
        by_cases hw' : w' = w
        · rw [hw', Function.update_self, Function.update_self]
          exact .working hjob
        · rw [Function.update_of_ne hw', Function.update_of_ne hw']
          exact h.workers w'

theorem exit_mirrors (h : Mirrors s d) (hrun : s.ended = none) {w : W} {p : A} {arg : ImageIn}
    (hw : s.worker w = .working p) (harg : argument s.blocks p = some arg)
    (hdst : minifyjpegProc1Svc minify arg = none) :
    ∃ d', (Dispatch.sys minify requests).Follows (fun _ _ => True) d d' ∧ Mirrors { s with ended := some .exit } d' := by
  rcases (h.worker_at hw).of_working with ⟨j, hx, hjob⟩
  rw [hjob.argument] at harg
  cases harg
  refine ⟨{ d with exited := true }, follows_step (h.running hrun) (.compute w) ?_, ?_⟩
  · simp only [Dispatch.step, hx, hdst]
  · exact ⟨h.received, h.queue, h.workers, h.reply, rfl, h.pointers, h.results⟩

theorem compute_mirrors (h : Mirrors s d) (hrun : s.ended = none) {w : W} {p c : A} {arg : ImageIn}
    {dst : Bytes} (hw : s.worker w = .working p) (harg : argument s.blocks p = some arg)
    (hdst : minifyjpegProc1Svc minify arg = some dst) (hc : c ∉ s.blocks) :
    ∃ d', (Dispatch.sys minify requests).Follows (fun _ _ => True) d d' ∧ Mirrors { s with
      worker := Function.update s.worker w
        (.replying p ⟨(s.blocks.give c (blockOf .dst dst)).1, dst.length⟩)
      blocks := (s.blocks.give c (blockOf .dst dst)).2 } d' := by
  rcases (h.worker_at hw).of_working with ⟨j, hx, hjob⟩
  rw [hjob.argument] at harg
  cases harg
  refine ⟨{ d with worker := Function.update d.worker w (.replying j.conn dst) },
    follows_step (h.running hrun) (.compute w) ?_, ?_⟩
  · simp only [Dispatch.step, hx, hdst]
  · have hgrow : ∀ q v, s.blocks.Holds q v →
        (s.blocks.give c (blockOf .dst dst)).2.Holds q v := fun q v hq => hq.give hc _
    refine (h.grow hgrow).move (.replying (hjob.grow hgrow) (Blocks.holds_give _ _ _) rfl) ?_ ?_
    · rw [hw]
      rfl
    · -- nobody has the new address
      intro c' hc' w' hw'
      rcases (h.workers w').dst with ⟨dst', hold⟩
      rw [hw'] at hold
      exact absurd (Blocks.give_eq_some hc') (hold.ne_new hc)

theorem sendreply_mirrors (h : Mirrors s d) (hrun : s.ended = none) {w : W} {p : A}
    {res : ImageOut A} {transp : Nat} {dst : Bytes} (hw : s.worker w = .replying p res)
    (hresp : response s.blocks p res = some (transp, dst)) :
    ∃ d', (Dispatch.sys minify requests).Follows (fun _ _ => True) d d' ∧ Mirrors { s with
      worker := Function.update s.worker w (.freeing p res)
      reply := Function.update s.reply transp (some (.image dst)) } d' := by
  rcases (h.worker_at hw).of_replying with ⟨j, dst', hx, hjob, hdst, hlen⟩
  rw [hjob.response hdst] at hresp
  cases hresp
  refine ⟨{ d with
    worker := Function.update d.worker w .idle
    reply := Function.update d.reply j.conn (some (.image dst)) },
    follows_step (h.running hrun) (.sendreply w) ?_, ?_⟩
  · simp only [Dispatch.step, hx]
  · have hptr : (Worker.freeing p res).ptr = (s.worker w).ptr := by
      rw [hw]
      rfl
    have hmoved := h.move (.freeing hjob hdst hlen) hptr fun c hc w' hw' => by
      refine h.results.unique w' w c hw' ?_
      rw [hw]
      exact hc
    refine ⟨hmoved.received, hmoved.queue, hmoved.workers, ?_, hmoved.ended, hmoved.pointers,
      hmoved.results⟩
    show Function.update d.reply j.conn (some (Reply.image dst)) = _
    rw [h.reply]

theorem freeresult_mirrors (h : Mirrors s d) {w : W} {p : A} {res : ImageOut A}
    {m : Blocks A (Cell A)} (hw : s.worker w = .freeing p res)
    (hfree : s.blocks.free res.dstVal = some m) :
    Mirrors { s with worker := Function.update s.worker w (.releasing p), blocks := m } d := by
  rcases (h.worker_at hw).of_freeing with ⟨hx, j, dst, hjob, hdst, _⟩
  have hkind : ∀ bytes, blockOf Cell.dst dst ≠ some (Cell.src bytes : Cell A) :=
    fun bytes => blockOf_ne fun _ hsame => by cases hsame
  have hptr : (Worker.releasing p).ptr = (s.worker w).ptr := by
    rw [hw]
    rfl
  refine h.give_back hx (.releasing (hjob.of_free hdst hkind hfree (Or.inr (hjob.ne_dst hdst))))
    hdst hkind hfree ?_ ?_ (Or.inr hptr) rfl
  · intro p' hp'
    rcases h.queued hp' with ⟨j', hjob'⟩
    exact Or.inr (hjob'.ne_dst hdst)
  · intro w' hw'
    by_cases hnull : res.dstVal = none
    · exact Or.inl hnull
    · rcases Option.ne_none_iff_exists'.mp hnull with ⟨c, hc⟩
      refine Or.inr ⟨?_, ?_⟩
      · intro hsame
        rw [hc] at hsame
        rcases (h.workers w').job hsame with ⟨j', hjob'⟩
        exact hjob'.ne_dst hdst hc.symm
      · -- the result is this worker's own
        intro hsame
        have hmine : (s.worker w).result = some c := by
          rw [hw]
          exact hc
        exact hw' (h.results.unique w' w c (hsame.trans hc) hmine)

theorem free_mirrors (h : Mirrors s d) {w : W} {p : A} {m : Blocks A (Cell A)}
    (hw : s.worker w = .releasing p) (hfree : s.blocks.free (some p) = some m) :
    Mirrors { s with worker := Function.update s.worker w .idle, blocks := m } d := by
  rcases (h.worker_at hw).of_releasing with ⟨hx, j, hjob⟩
  have hmine : (s.worker w).ptr = some p := by
    rw [hw]
    rfl
  rcases id hjob with ⟨src, hdata, _⟩
  refine h.give_back hx .idle hdata (fun bytes hsame => by cases hsame) hfree ?_ ?_ (Or.inl rfl) rfl
  · intro p' hp'
    refine Or.inr fun hsame => ?_
    cases hsame
    exact h.pointers.apart w p hmine hp'
  · intro w' hw'
    refine Or.inr ⟨fun hsame => hw' (h.pointers.unique w' w p hsame hmine), ?_⟩
    rcases (h.workers w').dst with ⟨dst, hdst⟩
    exact (hjob.ne_dst hdst).symm

/-- A step of the server, if nothing has ended it. -/
theorem step_mirrors (hstep : StepCase minify left requests s a s') (hrun : s.ended = none)
    (h : Mirrors s d) : ∃ d', (Dispatch.sys minify requests).Follows (fun _ _ => True) d d' ∧ Mirrors s' d' := by
  cases hstep with
  | refuse p b r hr hp hb hpb hargs => exact refuse_mirrors h hrun hr hp hb hpb hargs
  | enqueue p b r arg hr hp hb hpb hargs => exact enqueue_mirrors h hrun hr hp hb hpb hargs
  | take w p rest hw hq => exact take_mirrors h hrun hw hq
  | exit w p c arg hw harg hdst => exact exit_mirrors h hrun hw harg hdst
  | compute w p c arg dst hw harg hdst hc => exact compute_mirrors h hrun hw harg hdst hc
  | sendreply w p res transp dst hw hresp => exact sendreply_mirrors h hrun hw hresp
  | freeresult w p res m hw hfree => exact ⟨d, Or.inl rfl, freeresult_mirrors h hw hfree⟩
  | free w p m hw hfree => exact ⟨d, Or.inl rfl, free_mirrors h hw hfree⟩
  -- every pointer leads to what it should
  | noArgument w p c hw harg =>
    rcases (h.worker_at hw).of_working with ⟨j, _, hjob⟩
    rw [hjob.argument] at harg
    cases harg
  | noResponse w p res hw hresp =>
    rcases (h.worker_at hw).of_replying with ⟨j, dst, _, hjob, hdst, _⟩
    rw [hjob.response hdst] at hresp
    cases hresp
  | noResult w p res hw hfree =>
    rcases (h.worker_at hw).of_freeing with ⟨_, j, dst, _, hdst, _⟩
    rcases hdst.free (f := Cell.size) with ⟨m, hm, _⟩
    rw [hm] at hfree
    cases hfree
  | noData w p hw hfree =>
    rcases (h.worker_at hw).of_releasing with ⟨_, j, src, hdata, _⟩
    rcases hdata.free (f := Cell.size) with ⟨m, hm, _⟩
    rw [hm] at hfree
    cases hfree

theorem init_mirrors (h : (sys minify left requests).Init s) :
    ∃ d, (Dispatch.sys minify requests).Init d ∧ Mirrors s d := by
  rcases h with ⟨hreceived, hqueue, hidle, _, hreply, hended⟩
  refine ⟨Dispatch.St.start, Dispatch.start_init, ?_⟩
  refine ⟨hreceived.symm, ?_, ?_, (funext hreply).symm, hended, ?_, ?_⟩
  · rw [hqueue]
    exact .nil
  · intro w
    rw [hidle w]
    exact .idle
  · rw [hqueue]
    exact .nil fun w => by rw [hidle w]; rfl
  · exact .nil fun w => by rw [hidle w]; rfl

/-- Whatever is reached with pointers is reached by the dispatcher. -/
theorem reach_mirrors (hs : (sys minify left requests).Reach (fun _ _ => True) s) :
    ∃ d, (Dispatch.sys minify requests).Reach (fun _ _ => True) d ∧ Mirrors s d := by
  apply Sys.Reach.simulated _ _ s hs
  · intro s h0
    exact init_mirrors h0
  · intro s d a s' h _ hstep
    obtain ⟨hrun, hcase⟩ := sys_step_cases hstep
    exact step_mirrors hcase hrun h

end Mirrors

end IntroOS.Minify.Dispatch.Memory
