import IntroOS.Base.CStr
import IntroOS.Base.Sys
import IntroOS.Base.Threads

/-! # What the workers of `rpc_mt` use

A worker takes a job off the queue, calls `magickminify`, replies on the transport in the job, and
calls `minifyjpeg_prog_1_freeresult`. Meanwhile the boss receives further requests, and destroys
the transports of clients that have gone.

1. **ImageMagick**: `magickminify` over the three library calls that may return NULL;
2. **Steps** (`sys`): the boss and the workers in any interleaving;
3. **Cases** (`StepCase`): what a step can do.

A request is one whose arguments `svc_getargs` could decode. The work queue is a list here;
`ServerQueue.lean` puts the server on the `steque_t`. A transport that is never destroyed, such as
that of UDP, is a connection that never closes.
-/

namespace IntroOS.Minify.Server

/-! ## ImageMagick -/

/-- The calls on images. `none` is NULL. -/
structure Magick (Image : Type*) where
  blobToImage : Bytes → Option Image
  minifyImage : Image → Option Image
  imageToBlob : Image → Bytes

/-- A stand-in for ImageMagick: an image is its bytes. -/
def copyMagick : Magick Bytes := ⟨some, some, id⟩

/-- What ends the server. -/
inductive Fault where
  /-- `exit(1)` -/
  | exit
  /-- `ImageToBlob` of NULL -/
  | nullImage
deriving DecidableEq, Repr

section Magickminify

variable {Image : Type*} (m : Magick Image)

/-- `magickminify`, on `src` and its length. -/
def magickminify (src : Bytes) : Except Fault Bytes :=
  let image := m.blobToImage src
  match image with
  | none => .error .exit
  | some im =>
    let resize := m.minifyImage im
    -- the second test is one of `image` as well
    if image.isNone then .error .exit
    else
      match resize with
      | none => .error .nullImage
      | some re => .ok (m.imageToBlob re)

/-- What `magickminify` makes of an image that can be read and shrunk. -/
def minified (src : Bytes) : Option Bytes :=
  ((m.blobToImage src).bind m.minifyImage).map m.imageToBlob

theorem magickminify_eq_ok_iff {m : Magick Image} {src dst : Bytes} :
    magickminify m src = .ok dst ↔ minified m src = some dst := by
  unfold magickminify minified
  cases hblob : m.blobToImage src with
  | none => simp
  | some image =>
    cases hresize : m.minifyImage image with
    | none => simp [hresize]
    | some resize => simp [hresize]

/-- It fails exactly for the images that cannot be read or shrunk. -/
theorem magickminify_eq_error_iff {m : Magick Image} {src : Bytes} :
    (∃ f, magickminify m src = .error f) ↔ minified m src = none := by
  cases hres : magickminify m src with
  | error f =>
    have hnone : minified m src = none := by
      by_contra hsome
      rcases Option.ne_none_iff_exists'.mp hsome with ⟨dst, hdst⟩
      rw [magickminify_eq_ok_iff.mpr hdst] at hres
      cases hres
    exact ⟨fun _ => hnone, fun _ => ⟨f, rfl⟩⟩
  | ok dst =>
    have hsome := magickminify_eq_ok_iff.mp hres
    constructor
    · rintro ⟨f, hf⟩
      cases hf
    · intro hnone
      rw [hsome] at hnone
      cases hnone

end Magickminify

/-! ## State -/

variable {C W Image : Type*}

structure Request (C : Type*) where
  conn : C
  src : Bytes
deriving DecidableEq, Repr

/-- `thread_data`, with the number of its request. -/
structure Job (C : Type*) where
  num : Nat
  transp : C
  src : Bytes
deriving DecidableEq, Repr

/-- Where a worker stands. -/
inductive Worker (C : Type*) where
  /-- at the test of `workqueue` -/
  | idle
  /-- at `_minifyjpeg_proc_1` -/
  | calling (j : Job C)
  /-- in `magickminify` -/
  | minifying (j : Job C)
  /-- at `svc_sendreply` -/
  | replying (j : Job C) (dst : Bytes)
  /-- at `svcerr_systemerr` -/
  | failing (j : Job C)
  /-- at `minifyjpeg_prog_1_freeresult` -/
  | freeing
deriving DecidableEq, Repr

/-- What a client gets. -/
inductive Outcome where
  | image (dst : Bytes)
  | error
deriving DecidableEq, Repr

structure St (C W : Type*) where
  /-- how many requests the boss has come to -/
  received : Nat
  workqueue : List (Job C)
  worker : W → Worker C
  /-- the transports that were destroyed -/
  destroyed : C → Bool
  /-- ImageMagick is initialised -/
  initialised : Bool
  /-- the outcome of each request -/
  outcome : Nat → Option Outcome
  fault : Option Fault

/-! ## Steps -/

inductive Act (C W : Type*) where
  /-- the boss: `svc_run` and `minifyjpeg_prog_1` -/
  | receive
  /-- the boss: `svc_run` sees that a client has closed its connection -/
  | disconnect (c : C)
  /-- a worker's `steque_isempty` and `steque_pop` -/
  | take (w : W)
  /-- `magickminify` is called, and returns -/
  | start (w : W)
  | finish (w : W)
  /-- `svc_sendreply`, and what it returns -/
  | sendreply (w : W) (sent : Bool)
  | systemerr (w : W)
  /-- `magickminify_cleanup` -/
  | freeresult (w : W)
deriving DecidableEq, Repr

section Step

variable [DecidableEq C] [DecidableEq W] (m : Magick Image) (requests : List (Request C))

/-- A step of the running server. There is no call of `magickminify_init`. -/
def step (s : St C W) : Act C W → Option (St C W)
  | .receive =>
    match requests[s.received]? with
    | none => none
    | some r =>
      -- what was sent on a closed connection is lost
      if s.destroyed r.conn then some { s with received := s.received + 1 }
      else some { s with
        received := s.received + 1
        workqueue := s.workqueue ++ [⟨s.received, r.conn, r.src⟩] }
  | .disconnect c =>
    -- `svc_run` destroys the transport, whoever still has it
    if s.destroyed c then none
    else some { s with destroyed := Function.update s.destroyed c true }
  | .take w =>
    match s.worker w, s.workqueue with
    | .idle, j :: rest =>
      some { s with worker := Function.update s.worker w (.calling j), workqueue := rest }
    | _, _ => none
  | .start w =>
    match s.worker w with
    | .calling j => some { s with worker := Function.update s.worker w (.minifying j) }
    | _ => none
  | .finish w =>
    match s.worker w with
    | .minifying j =>
      match magickminify m j.src with
      | .error f => some { s with fault := some f }
      | .ok dst => some { s with worker := Function.update s.worker w (.replying j dst) }
    | _ => none
  | .sendreply w sent =>
    match s.worker w with
    | .replying j dst =>
      if sent then some { s with
        worker := Function.update s.worker w .freeing
        outcome := Function.update s.outcome j.num (some (.image dst)) }
      -- then `svcerr_systemerr` on the same transport
      else some { s with worker := Function.update s.worker w (.failing j) }
    | _ => none
  | .systemerr w =>
    match s.worker w with
    | .failing j => some { s with
        worker := Function.update s.worker w .freeing
        outcome := Function.update s.outcome j.num (some .error) }
    | _ => none
  | .freeresult w =>
    match s.worker w with
    | .freeing => some { s with
        worker := Function.update s.worker w .idle
        initialised := false }
    | _ => none

/-- The server on a sequence of requests, in the order in which the boss comes to them. -/
def sys : Sys (St C W) (Act C W) where
  Init s :=
    s.received = 0 ∧ s.workqueue = [] ∧ (∀ w, s.worker w = .idle) ∧ (∀ c, s.destroyed c = false) ∧
      s.initialised = false ∧ (∀ i, s.outcome i = none) ∧ s.fault = none
  step s a := if s.fault.isSome then none else step m requests s a

def St.start : St C W where
  received := 0
  workqueue := []
  worker := fun _ => .idle
  destroyed := fun _ => false
  initialised := false
  outcome := fun _ => none
  fault := none

theorem start_init : (sys m requests).Init (St.start : St C W) :=
  ⟨rfl, rfl, fun _ => rfl, fun _ => rfl, rfl, fun _ => rfl, rfl⟩

end Step

/-! ## What a step does -/

section Cases

variable [DecidableEq C] [DecidableEq W] {m : Magick Image} {requests : List (Request C)}

/-- The steps, one case for each way through `step`. -/
inductive StepCase (m : Magick Image) (requests : List (Request C)) (s : St C W) :
    Act C W → St C W → Prop where
  | lost (r : Request C) (hr : requests[s.received]? = some r) (hclosed : s.destroyed r.conn = true) :
      StepCase m requests s .receive { s with received := s.received + 1 }
  | enqueue (r : Request C) (hr : requests[s.received]? = some r)
      (hopen : s.destroyed r.conn = false) :
      StepCase m requests s .receive { s with
        received := s.received + 1
        workqueue := s.workqueue ++ [⟨s.received, r.conn, r.src⟩] }
  | disconnect (c : C) (hopen : s.destroyed c = false) :
      StepCase m requests s (.disconnect c)
        { s with destroyed := Function.update s.destroyed c true }
  | take (w : W) (j : Job C) (rest : List (Job C)) (hw : s.worker w = .idle)
      (hq : s.workqueue = j :: rest) :
      StepCase m requests s (.take w)
        { s with worker := Function.update s.worker w (.calling j), workqueue := rest }
  | start (w : W) (j : Job C) (hw : s.worker w = .calling j) :
      StepCase m requests s (.start w)
        { s with worker := Function.update s.worker w (.minifying j) }
  | fault (w : W) (j : Job C) (f : Fault) (hw : s.worker w = .minifying j)
      (hmagick : magickminify m j.src = .error f) :
      StepCase m requests s (.finish w) { s with fault := some f }
  | finish (w : W) (j : Job C) (dst : Bytes) (hw : s.worker w = .minifying j)
      (hmagick : magickminify m j.src = .ok dst) :
      StepCase m requests s (.finish w)
        { s with worker := Function.update s.worker w (.replying j dst) }
  | sent (w : W) (j : Job C) (dst : Bytes) (hw : s.worker w = .replying j dst) :
      StepCase m requests s (.sendreply w true) { s with
        worker := Function.update s.worker w .freeing
        outcome := Function.update s.outcome j.num (some (.image dst)) }
  | unsent (w : W) (j : Job C) (dst : Bytes) (hw : s.worker w = .replying j dst) :
      StepCase m requests s (.sendreply w false)
        { s with worker := Function.update s.worker w (.failing j) }
  | systemerr (w : W) (j : Job C) (hw : s.worker w = .failing j) :
      StepCase m requests s (.systemerr w) { s with
        worker := Function.update s.worker w .freeing
        outcome := Function.update s.outcome j.num (some .error) }
  | freeresult (w : W) (hw : s.worker w = .freeing) :
      StepCase m requests s (.freeresult w) { s with
        worker := Function.update s.worker w .idle
        initialised := false }

theorem step_cases {s s' : St C W} {a : Act C W} (h : step m requests s a = some s') :
    StepCase m requests s a s' := by
  cases a with
  | receive =>
    simp only [step] at h
    split at h
    · cases h
    · rename_i r hr
      split at h
      · rename_i hclosed
        cases h
        exact .lost r hr hclosed
      · rename_i hopen
        cases h
        exact .enqueue r hr (Bool.eq_false_iff.mpr hopen)
  | disconnect c =>
    simp only [step] at h
    split at h
    · cases h
    · rename_i hopen
      cases h
      exact .disconnect c (Bool.eq_false_iff.mpr hopen)
  | take w =>
    simp only [step] at h
    split at h
    · rename_i j rest hw hq
      cases h
      exact .take w j rest hw hq
    · cases h
  | start w =>
    simp only [step] at h
    split at h
    · rename_i j hw
      cases h
      exact .start w j hw
    · cases h
  | finish w =>
    simp only [step] at h
    split at h
    · rename_i j hw
      split at h
      · rename_i f hmagick
        cases h
        exact .fault w j f hw hmagick
      · rename_i dst hmagick
        cases h
        exact .finish w j dst hw hmagick
    · cases h
  | sendreply w sent =>
    simp only [step] at h
    split at h
    · rename_i j dst hw
      cases sent with
      | true =>
        cases h
        exact .sent w j dst hw
      | false =>
        cases h
        exact .unsent w j dst hw
    · cases h
  | systemerr w =>
    simp only [step] at h
    split at h
    · rename_i j hw
      cases h
      exact .systemerr w j hw
    · cases h
  | freeresult w =>
    simp only [step] at h
    split at h
    · rename_i hw
      cases h
      exact .freeresult w hw
    · cases h

theorem sys_step_cases {s s' : St C W} {a : Act C W} (h : (sys m requests).step s a = some s') :
    StepCase m requests s a s' := by
  have hstep : (if s.fault.isSome then none else step m requests s a) = some s' := h
  split at hstep
  · cases hstep
  · exact step_cases hstep

/-- A step that `step` allows is one of the running server. -/
theorem sys_step_of {s s' : St C W} {a : Act C W} (hfault : s.fault = none)
    (h : step m requests s a = some s') : (sys m requests).step s a = some s' := by
  show (if s.fault.isSome then none else step m requests s a) = some s'
  rw [hfault]
  exact h

end Cases

end IntroOS.Minify.Server
