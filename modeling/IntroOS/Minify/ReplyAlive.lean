import IntroOS.Minify.Server

/-! # Replies on destroyed transports

A job holds the transport of its request, from the queue up to the reply. The boss destroys a
transport when the client has gone, whoever holds it.

* `St.InUse`: a transport that some job holds;
* `UnusedDisconnects`: the boss destroys no transport that is in use;
* `worker_replies_alive`: in such runs no worker replies on a destroyed transport.
-/

namespace IntroOS.Minify.Server

variable {C W Image : Type*}

/-- The transport a worker has yet to reply on. -/
def Worker.transp : Worker C → Option C
  | .calling j | .minifying j | .replying j _ | .failing j => some j.transp
  | .idle | .freeing => none

/-- A request that came over `c` has no reply yet. -/
def St.InUse (s : St C W) (c : C) : Prop :=
  InHand Job.transp Worker.transp s.workqueue s.worker c

/-- A transport is destroyed only when nothing that came over it is unanswered. -/
def UnusedDisconnects (s : St C W) : Act C W → Prop
  | .disconnect c => ¬ s.InUse c
  | _ => True

instance [DecidableEq C] [Fintype W] (s : St C W) : (a : Act C W) → Decidable (UnusedDisconnects s a)
  | .disconnect c =>
    inferInstanceAs (Decidable
      (¬ ((∃ j ∈ s.workqueue, j.transp = c) ∨ ∃ w, (s.worker w).transp = some c)))
  | .receive | .take _ | .start _ | .finish _ | .sendreply _ _ | .systemerr _ | .freeresult _ =>
    .isTrue trivial

/-- Whoever is at `svc_sendreply` or at `svcerr_systemerr` has a transport that was not
destroyed. -/
def RepliesAlive (s : St C W) : Prop :=
  ∀ w j, ((∃ dst, s.worker w = .replying j dst) ∨ s.worker w = .failing j) →
    s.destroyed j.transp = false

section Invariant

variable [DecidableEq C] [DecidableEq W] {m : Magick Image} {requests : List (Request C)}
  {s s' : St C W} {a : Act C W}

/-- What is in use was not destroyed. -/
def UseAlive (s : St C W) : Prop := ∀ c, s.InUse c → s.destroyed c = false

omit [DecidableEq C] [DecidableEq W] in
theorem UseAlive.repliesAlive (h : UseAlive s) : RepliesAlive s := by
  rintro w j (⟨dst, hw⟩ | hw)
  · apply h
    exact Or.inr ⟨w, by rw [hw]; rfl⟩
  · apply h
    exact Or.inr ⟨w, by rw [hw]; rfl⟩

theorem step_useAlive (hstep : StepCase m requests s a s') (hok : UnusedDisconnects s a)
    (h : UseAlive s) : UseAlive s' := by
  intro c hc
  cases hstep with
  | lost r hr hclosed => exact h c hc
  | enqueue r hr hopen =>
    rcases inHand_append.mp hc with hold | hconn
    · exact h c hold
    · -- the request came over a connection that is open
      rw [← hconn]
      exact hopen
  | disconnect c' hopen =>
    have hne : c ≠ c' := by
      rintro rfl
      exact hok hc
    show Function.update s.destroyed c' true c = false
    rw [Function.update_of_ne hne]
    exact h c hc
  | take w j rest hw hq =>
    have hnone : (s.worker w).transp = none := by
      rw [hw]
      rfl
    apply h c
    unfold St.InUse
    rw [hq]
    exact (inHand_take hnone rfl).mp hc
  | fault w j f hw hmagick => exact h c hc
  | start w j hw | finish w j dst hw | unsent w j dst hw =>
    apply h c
    refine (inHand_move ?_).mp hc
    rw [hw]
    rfl
  | sent w j dst hw | systemerr w j hw | freeresult w hw => exact h c (InHand.of_clear rfl hc)

/-- **Replies.** In every run in which transports are destroyed only when nothing that came over
them is unanswered, no worker replies on a destroyed transport. -/
theorem worker_replies_alive (m : Magick Image) (requests : List (Request C)) (s : St C W)
    (hs : (sys m requests).Reach UnusedDisconnects s) : RepliesAlive s := by
  have halive : UseAlive s := by
    apply Sys.Reach.inv _ _ s hs
    · rintro s ⟨_, _, _, hopen, _⟩ c _
      exact hopen c
    · intro s a s' hok hstep h
      exact step_useAlive (sys_step_cases hstep) hok h
  exact halive.repliesAlive

end Invariant

/-- One client, which goes when it has its reply, and another one whose reply is due. -/
theorem worker_replies_alive_two :
    ∃ s : St Bool Unit, s.worker () = .replying ⟨1, true, ascii "b"⟩ (ascii "b") ∧
      s.destroyed false = true ∧ RepliesAlive s := by
  have hrun : ((sys copyMagick [⟨false, ascii "a"⟩, ⟨true, ascii "b"⟩]).run
      (St.start : St Bool Unit)
      [.receive, .receive, .take (), .start (), .finish (), .sendreply () true, .disconnect false,
        .freeresult (), .take (), .start (), .finish ()]).map
        (fun s => (s.worker (), s.destroyed false)) =
      some (.replying ⟨1, true, ascii "b"⟩ (ascii "b"), true) := by decide
  rcases Option.map_eq_some_iff.mp hrun with ⟨s, hs, heq⟩
  rw [Prod.mk.injEq] at heq
  exact ⟨s, heq.1, heq.2, worker_replies_alive copyMagick _ s
    (Sys.reach_of_run (.init (start_init _ _)) (by decide) hs)⟩

/-- The client goes (after its five seconds) while its image is minified. -/
theorem worker_replies_dead :
    ¬ ∀ s : St Unit Unit, (sys copyMagick [⟨(), ascii "a"⟩]).Reach (fun _ _ => True) s →
      RepliesAlive s := by
  intro h
  have hrun : ((sys copyMagick [⟨(), ascii "a"⟩]).run (St.start : St Unit Unit)
      [.receive, .take (), .start (), .disconnect (), .finish ()]).map
        (fun s => (s.worker (), s.destroyed ())) =
      some (.replying ⟨0, (), ascii "a"⟩ (ascii "a"), true) := by decide
  rcases Option.map_eq_some_iff.mp hrun with ⟨s, hs, heq⟩
  rw [Prod.mk.injEq] at heq
  have hreach := Sys.reach_of_run (.init (start_init _ _)) (Sys.runOk_of_all (fun _ _ => trivial)) hs
  have halive := h s hreach () ⟨0, (), ascii "a"⟩ (Or.inl ⟨_, heq.1⟩)
  rw [heq.2] at halive
  cases halive

end IntroOS.Minify.Server
