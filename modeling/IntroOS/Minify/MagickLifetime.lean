import IntroOS.Minify.Server

/-! # The lifetime of ImageMagick

`magickminify_init` makes ImageMagick ready, `magickminify_cleanup` ends that. In the
single-threaded server the procedure calls the first for every request and
`minifyjpeg_prog_1_freeresult` the second. In `rpc_mt` the first call is gone.

* `InLifetime`: whatever step comes next uses ImageMagick as it should be used;
* `never_initialised`: nothing in `rpc_mt` initialises it;
* `magick_lifetime_iff`: so it is used well only if it is not used.
-/

namespace IntroOS.Minify.Server

variable {C W Image : Type*}

/-- Between the start and the end of a `magickminify` call. -/
def Worker.InCall : Worker C → Prop
  | .minifying _ => True
  | _ => False

/-- A call starts and ends in the initialised state, and there is no cleanup during another
worker's call. -/
def UsesMagickWell (s : St C W) : Act C W → Prop
  | .start _ | .finish _ => s.initialised = true
  | .freeresult w => ∀ w', w' ≠ w → ¬ (s.worker w').InCall
  | _ => True

section Lifetime

variable [DecidableEq C] [DecidableEq W] {m : Magick Image} {requests : List (Request C)}
  {s s' : St C W} {a : Act C W}

/-- The next step, whichever it is, uses ImageMagick well. -/
def InLifetime (m : Magick Image) (requests : List (Request C)) (s : St C W) : Prop :=
  ∀ a s', (sys m requests).step s a = some s' → UsesMagickWell s a

/-- No step initialises ImageMagick. -/
theorem never_initialised {ok : St C W → Act C W → Prop} :
    ∀ s, (sys m requests).Reach ok s → s.initialised = false := by
  apply Sys.Reach.inv
  · rintro s ⟨_, _, _, _, hinit, _⟩
    exact hinit
  · intro s a s' _ hstep h
    cases sys_step_cases hstep with
    | freeresult w hw => rfl
    | lost | enqueue | disconnect | take | start | fault | finish | sent | unsent | systemerr => exact h

/-- Without requests no worker leaves the test of the queue. -/
theorem idle_of_no_requests {ok : St C W → Act C W → Prop} :
    ∀ s, (sys m ([] : List (Request C))).Reach ok s →
      s.workqueue = [] ∧ ∀ w, s.worker w = .idle := by
  apply Sys.Reach.inv
  · rintro s ⟨_, hqueue, hidle, _⟩
    exact ⟨hqueue, hidle⟩
  · rintro s a s' _ hstep ⟨hqueue, hidle⟩
    cases sys_step_cases hstep with
    | lost r hr | enqueue r hr => cases hr
    | disconnect c hopen => exact ⟨hqueue, hidle⟩
    | take w j rest hw hq =>
      rw [hqueue] at hq
      cases hq
    | start w j hw | fault w j f hw | finish w j dst hw | sent w j dst hw | unsent w j dst hw
    | systemerr w j hw | freeresult w hw =>
      rw [hidle w] at hw
      cases hw

/-- The first request gets to a worker. -/
theorem reach_calling (m : Magick Image) (r : Request C) (rest : List (Request C)) (w : W) :
    ∃ s : St C W, (sys m (r :: rest)).Reach (fun _ _ => True) s ∧ s.fault = none ∧
      s.worker w = .calling ⟨0, r.conn, r.src⟩ := by
  have hreceive : (sys m (r :: rest)).step (St.start : St C W) .receive =
      some { St.start with received := 1, workqueue := [⟨0, r.conn, r.src⟩] } := rfl
  have htake : (sys m (r :: rest)).step
      ({ St.start with received := 1, workqueue := [⟨0, r.conn, r.src⟩] } : St C W) (.take w) =
      some { (St.start : St C W) with
        received := 1
        worker := Function.update (fun _ => .idle) w (.calling ⟨0, r.conn, r.src⟩) } := rfl
  have hreach : (sys m (r :: rest)).Reach (fun _ _ => True)
      ({ St.start with received := 1, workqueue := [⟨0, r.conn, r.src⟩] } : St C W) :=
    .step _ (.init (start_init m (r :: rest))) trivial hreceive
  refine ⟨_, .step _ hreach trivial htake, rfl, ?_⟩
  show Function.update (fun _ => Worker.idle) w _ w = _
  rw [Function.update_self]

/-- **Lifetime.** ImageMagick is used well in every run exactly if there are no requests or no
workers. -/
theorem magick_lifetime_iff (m : Magick Image) (requests : List (Request C)) :
    (∀ s : St C W, (sys m requests).Reach (fun _ _ => True) s → InLifetime m requests s) ↔
      requests = [] ∨ IsEmpty W := by
  constructor
  · intro hall
    cases requests with
    | nil => exact Or.inl rfl
    | cons r rest =>
      right
      by_contra hworker
      rcases not_isEmpty_iff.mp hworker with ⟨w⟩
      rcases reach_calling m r rest w with ⟨s, hs, hfault, hw⟩
      have hstart : step m (r :: rest) s (.start w) = some { s with
          worker := Function.update s.worker w (.minifying ⟨0, r.conn, r.src⟩) } := by
        simp only [step, hw]
      have hinit : s.initialised = true := hall s hs _ _ (sys_step_of hfault hstart)
      rw [never_initialised s hs] at hinit
      cases hinit
  · rintro (rfl | hnone) s hs a s' hstep
    · have hidle := (idle_of_no_requests s hs).2
      cases sys_step_cases hstep with
      | start w j hw | fault w j f hw | finish w j dst hw | freeresult w hw =>
        rw [hidle w] at hw
        cases hw
      | lost | enqueue | disconnect | take | sent | unsent | systemerr => trivial
    · cases a with
      | start w | finish w | freeresult w => exact hnone.elim w
      | receive | disconnect c | take w | sendreply w sent | systemerr w => trivial

end Lifetime

/-- One request and one worker: its call starts in the uninitialised state. -/
theorem magick_uninitialised :
    ¬ ∀ s : St Unit Unit, (sys copyMagick [⟨(), ascii "a"⟩]).Reach (fun _ _ => True) s →
      InLifetime copyMagick [⟨(), ascii "a"⟩] s := by
  intro h
  have hrun : ((sys copyMagick [⟨(), ascii "a"⟩]).run (St.start : St Unit Unit)
      [.receive, .take ()]).map (fun s => (s.worker (), s.initialised, s.fault)) =
      some (.calling ⟨0, (), ascii "a"⟩, false, none) := by decide
  rcases Option.map_eq_some_iff.mp hrun with ⟨s, hs, heq⟩
  rw [Prod.mk.injEq, Prod.mk.injEq] at heq
  rcases heq with ⟨hw, hinit, hfault⟩
  have hreach := Sys.reach_of_run (.init (start_init _ _)) (Sys.runOk_of_all (fun _ _ => trivial)) hs
  have hstart : step copyMagick [⟨(), ascii "a"⟩] s (.start ()) = some { s with
      worker := Function.update s.worker () (.minifying ⟨0, (), ascii "a"⟩) } := by
    simp only [step, hw]
  have hused : s.initialised = true := h s hreach _ _ (sys_step_of hfault hstart)
  rw [hinit] at hused
  cases hused

end IntroOS.Minify.Server
