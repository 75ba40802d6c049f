import Mathlib.Data.List.Basic
import Mathlib.Order.WellFounded

/-! # Step systems and their invariants

A system is a set of initial states and a partial step function: `step s a` is
`none` where action `a` is blocked in `s`. Every actor of a concurrent program
(a thread, a process, the operating system answering a call) contributes its own
actions, so a list of actions is one interleaving.

`Sys.Reach ok` is reachability through steps that all satisfy `ok`. With
`ok := fun _ _ => True` it is plain reachability. The rules proved here are the
ones the models use:

1. **Invariants** (`Reach.inv`), and the bridge from an executable run to
   reachability (`reach_of_run`);
2. **Inevitability** (`Inevitable.of_rank`): every schedule comes to `P`;
3. **Simulation** (`Reach.simulated`, `Inevitable.simulated`): what another system reaches, and
   what it comes to, where some of the steps are none of its own;
4. **Histories** (`withLog`): a record beside the state that never blocks a step.
-/

namespace IntroOS

universe u v w x

/-- Initial states and a partial step function. -/
structure Sys (σ : Type u) (α : Type v) where
  Init : σ → Prop
  step : σ → α → Option σ

namespace Sys

variable {σ : Type u} {α : Type v}

/-- States reached from an initial state by steps that all satisfy `ok`. -/
inductive Reach (S : Sys σ α) (ok : σ → α → Prop) : σ → Prop where
  | init {s : σ} : S.Init s → Reach S ok s
  | step {s s' : σ} (a : α) : Reach S ok s → ok s a → S.step s a = some s' → Reach S ok s'

/-- Run a list of actions; `none` if one of them is blocked. -/
def run (S : Sys σ α) (s : σ) (acts : List α) : Option σ :=
  acts.foldlM S.step s

/-- Every action of the list satisfies `ok` in the state it is taken in. -/
def RunOk (S : Sys σ α) (ok : σ → α → Prop) : σ → List α → Prop
  | _, [] => True
  | s, a :: acts => ok s a ∧ ∀ s', S.step s a = some s' → RunOk S ok s' acts

instance RunOk.decidable {S : Sys σ α} {ok : σ → α → Prop} [∀ s a, Decidable (ok s a)] :
    (s : σ) → (acts : List α) → Decidable (S.RunOk ok s acts)
  | _, [] => .isTrue trivial
  | s, a :: acts =>
    have : DecidablePred fun s' => S.RunOk ok s' acts := fun s' => RunOk.decidable s' acts
    inferInstanceAs (Decidable (ok s a ∧ ∀ s' ∈ S.step s a, S.RunOk ok s' acts))

/-- Invariant induction. -/
theorem Reach.inv {S : Sys σ α} {ok : σ → α → Prop} {Inv : σ → Prop}
    (hinit : ∀ s, S.Init s → Inv s)
    (hstep : ∀ s a s', ok s a → S.step s a = some s' → Inv s → Inv s') :
    ∀ s, S.Reach ok s → Inv s := by
  intro s h
  induction h with
  | init h0 => exact hinit _ h0
  | step a _ hok hs ih => exact hstep _ a _ hok hs ih

theorem run_nil (S : Sys σ α) (s : σ) : S.run s [] = some s := rfl

theorem run_cons (S : Sys σ α) (s : σ) (a : α) (acts : List α) :
    S.run s (a :: acts) = (S.step s a).bind fun s' => S.run s' acts := rfl

/-- An invariant of the steps that satisfy `ok`, along a run of such steps. -/
theorem runOk_inv {S : Sys σ α} {ok : σ → α → Prop} {Inv : σ → Prop}
    (hstep : ∀ s a s', ok s a → S.step s a = some s' → Inv s → Inv s') {s s' : σ} {acts : List α}
    (hinv : Inv s) (hok : S.RunOk ok s acts) (hrun : S.run s acts = some s') : Inv s' := by
  induction acts generalizing s with
  | nil =>
    rw [run_nil] at hrun
    cases hrun
    exact hinv
  | cons a acts ih =>
    rw [run_cons] at hrun
    cases hst : S.step s a with
    | none => simp [hst] at hrun
    | some s₁ =>
      rw [hst, Option.bind_some] at hrun
      exact ih (hstep s a s₁ hok.1 hst hinv) (hok.2 s₁ hst) hrun

/-- A run whose steps all satisfy `ok` ends in a state reached under `ok`. -/
theorem reach_of_run {S : Sys σ α} {ok : σ → α → Prop} {s s' : σ} {acts : List α}
    (h0 : S.Reach ok s) (hok : S.RunOk ok s acts) (hrun : S.run s acts = some s') :
    S.Reach ok s' :=
  runOk_inv (fun _ a _ hok hstep hreach => .step a hreach hok hstep) h0 hok hrun

/-- A `RunOk` fact for a condition on actions only is checked action by action. -/
theorem runOk_of_all {S : Sys σ α} {p : α → Prop} {s : σ} {acts : List α}
    (h : ∀ a ∈ acts, p a) : S.RunOk (fun _ a => p a) s acts := by
  induction acts generalizing s with
  | nil => trivial
  | cons a acts ih =>
    exact ⟨h a (by simp), fun s' _ => ih fun b hb => h b (by simp [hb])⟩

/-- An invariant along a run whose actions satisfy `ok`. -/
theorem run_inv {S : Sys σ α} {ok : α → Prop} {Inv : σ → Prop}
    (hstep : ∀ s a s', ok a → S.step s a = some s' → Inv s → Inv s') {s s' : σ} {acts : List α}
    (hinv : Inv s) (hok : ∀ a ∈ acts, ok a) (hrun : S.run s acts = some s') : Inv s' :=
  runOk_inv hstep hinv (runOk_of_all hok) hrun

/-! ## Inevitability -/

/-- Every schedule of steps that satisfy `ok` comes to `P`: as long as `P` does not hold there
is such a step, and none of them leads out of here. -/
inductive Inevitable (S : Sys σ α) (ok : σ → α → Prop) (P : σ → Prop) : σ → Prop where
  | now {s : σ} : P s → Inevitable S ok P s
  | later {s : σ} : (∃ a s', ok s a ∧ S.step s a = some s') →
      (∀ a s', ok s a → S.step s a = some s' → Inevitable S ok P s') → Inevitable S ok P s

/-- Progress and a rank that falls with every step. -/
theorem Inevitable.of_rank {S : Sys σ α} {ok : σ → α → Prop} {P Inv : σ → Prop} {β : Type w}
    [Preorder β] [WellFoundedLT β] (rank : σ → β)
    (hprogress : ∀ s, Inv s → ¬ P s → ∃ a s', ok s a ∧ S.step s a = some s')
    (hstep : ∀ s a s', Inv s → ¬ P s → ok s a → S.step s a = some s' →
      Inv s' ∧ rank s' < rank s) :
    ∀ s, Inv s → S.Inevitable ok P s := by
  intro s
  -- induction on the rank
  induction s using (InvImage.wf rank (wellFounded_lt : WellFounded fun x y : β => x < y)).induction with
  | _ s ih =>
    intro hinv
    by_cases hP : P s
    · exact .now hP
    · refine .later (hprogress s hinv hP) ?_
      intro a s' hok hs
      obtain ⟨hinv', hlt⟩ := hstep s a s' hinv hP hok hs
      exact ih s' hlt hinv'

theorem Inevitable.mono {S : Sys σ α} {ok : σ → α → Prop} {P Q : σ → Prop} (hPQ : ∀ s, P s → Q s)
    {s : σ} (h : S.Inevitable ok P s) : S.Inevitable ok Q s := by
  induction h with
  | now hP => exact .now (hPQ _ hP)
  | later hnext _ ih => exact .later hnext ih

/-- What is inevitable happens in some run. -/
theorem Inevitable.exists_reach {S : Sys σ α} {ok : σ → α → Prop} {P : σ → Prop} {s : σ}
    (h : S.Inevitable ok P s) (hs : S.Reach ok s) : ∃ s', S.Reach ok s' ∧ P s' := by
  induction h with
  | now hP => exact ⟨_, hs, hP⟩
  | later hnext _ ih =>
    rcases hnext with ⟨a, s', hok, hstep⟩
    exact ih a s' hok hstep (.step a hs hok hstep)

/-- One step on. -/
theorem Inevitable.next {S : Sys σ α} {ok : σ → α → Prop} {P : σ → Prop} {s s' : σ} {a : α}
    (h : S.Inevitable ok P s) (hnot : ¬ P s) (hok : ok s a) (hstep : S.step s a = some s') :
    S.Inevitable ok P s' := by
  cases h with
  | now hP => exact absurd hP hnot
  | later _ hall => exact hall a s' hok hstep

/-- A set of states without `P` that no step leaves. -/
theorem Inevitable.not_of_trap {S : Sys σ α} {ok : σ → α → Prop} {P Trap : σ → Prop}
    (hnot : ∀ s, Trap s → ¬ P s)
    (hstep : ∀ s a s', ok s a → S.step s a = some s' → Trap s → Trap s') {s : σ} (hs : Trap s) :
    ¬ S.Inevitable ok P s := by
  intro h
  induction h with
  | now hP => exact hnot _ hs hP
  | later hnext _ ih =>
    rcases hnext with ⟨a, s', hok, hnext⟩
    exact ih a s' hok hnext (hstep _ a s' hok hnext hs)

/-! ## Simulation -/

/-- Nothing, or one step. -/
def Follows (S : Sys σ α) (ok : σ → α → Prop) (s s' : σ) : Prop :=
  s' = s ∨ ∃ a, ok s a ∧ S.step s a = some s'

section Simulation

variable {τ : Type w} {β : Type x} {S : Sys σ α} {T : Sys τ β} {ok : σ → α → Prop}
  {okT : τ → β → Prop} {R : σ → τ → Prop}

/-- What runs reach is related to what the other system reaches. -/
theorem Reach.simulated (hinit : ∀ s, S.Init s → ∃ t, T.Init t ∧ R s t)
    (hstep : ∀ s t a s', R s t → ok s a → S.step s a = some s' →
      ∃ t', T.Follows okT t t' ∧ R s' t') :
    ∀ s, S.Reach ok s → ∃ t, T.Reach okT t ∧ R s t := by
  intro s h
  induction h with
  | init h0 =>
    rcases hinit _ h0 with ⟨t, ht, hR⟩
    exact ⟨t, .init ht, hR⟩
  | step a _ hok hs ih =>
    obtain ⟨t, ht, hR⟩ := ih
    rcases hstep _ t a _ hR hok hs with ⟨t', rfl | ⟨b, hb, hnext⟩, hR'⟩
    · exact ⟨t', ht, hR'⟩
    · exact ⟨t', .step b ht hb hnext, hR'⟩

/-- What is inevitable in the other system is so here, if there is a step where that one has one,
and only finitely many steps in a row are none of the other system. -/
theorem Inevitable.simulated {P : τ → Prop} {γ : Type*} [Preorder γ] [WellFoundedLT γ]
    (rank : σ → γ)
    (hprogress : ∀ s t b t', R s t → okT t b → T.step t b = some t' →
      ∃ a s', ok s a ∧ S.step s a = some s')
    (hstep : ∀ s t a s', R s t → ¬ P t → ok s a → S.step s a = some s' →
      (∃ b t', okT t b ∧ T.step t b = some t' ∧ R s' t') ∨ (R s' t ∧ rank s' < rank s))
    {t : τ} (h : T.Inevitable okT P t) :
    ∀ s, R s t → S.Inevitable ok (fun s => ∃ t, R s t ∧ P t) s := by
  induction h with
  | now hP =>
    intro s hR
    exact .now ⟨_, hR, hP⟩
  | @later t hnext hall ih =>
    by_cases hP : P t
    · intro s hR
      exact .now ⟨t, hR, hP⟩
    -- induction on the rank, while the other system stays where it is
    · intro s
      induction s using (InvImage.wf rank (wellFounded_lt : WellFounded fun x y : γ => x < y)).induction with
      | _ s ihs =>
        intro hR
        rcases hnext with ⟨b, t', hb, ht'⟩
        refine .later (hprogress s t b t' hR hb ht') ?_
        intro a s' hok hs
        rcases hstep s t a s' hR hP hok hs with ⟨b, t', hb, ht', hR'⟩ | ⟨hR', hlt⟩
        · exact ih b t' hb ht' s' hR'
        · exact ihs s' hlt hR'

end Simulation

/-! ## Histories -/

variable {τ : Type w}

/-- The system with a record beside its state. -/
def withLog (S : Sys σ α) (start : τ) (log : τ → α → τ) : Sys (σ × τ) α where
  Init p := S.Init p.1 ∧ p.2 = start
  step p a := (S.step p.1 a).map fun s' => (s', log p.2 a)

theorem withLog_step {S : Sys σ α} {start : τ} {log : τ → α → τ} {p p' : σ × τ} {a : α} :
    (S.withLog start log).step p a = some p' ↔ S.step p.1 a = some p'.1 ∧ p'.2 = log p.2 a := by
  unfold withLog
  rw [Option.map_eq_some_iff]
  constructor
  · rintro ⟨s', hs, rfl⟩
    exact ⟨hs, rfl⟩
  · rintro ⟨hs, hl⟩
    exact ⟨p'.1, hs, by rw [← hl]⟩

/-- Every run of the system has a record. -/
theorem exists_log {S : Sys σ α} {ok : σ → α → Prop} {start : τ} {log : τ → α → τ} :
    ∀ s, S.Reach ok s → ∃ l, (S.withLog start log).Reach (fun p a => ok p.1 a) (s, l) := by
  intro s h
  induction h with
  | init h0 => exact ⟨start, .init ⟨h0, rfl⟩⟩
  | step a _ hok hs ih =>
    obtain ⟨l, hl⟩ := ih
    exact ⟨log l a, .step a hl hok (withLog_step.mpr ⟨hs, rfl⟩)⟩

/-- What runs with a record reach, runs without reach. -/
theorem Reach.forget {S : Sys σ α} {ok : σ → α → Prop} {start : τ} {log : τ → α → τ} :
    ∀ p, (S.withLog start log).Reach (fun p a => ok p.1 a) p → S.Reach ok p.1 := by
  intro p h
  induction h with
  | init h0 => exact .init h0.1
  | step a _ hok hs ih => exact .step a ih hok (withLog_step.mp hs).1

end Sys

end IntroOS
