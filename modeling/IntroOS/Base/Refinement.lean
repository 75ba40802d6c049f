import Mathlib.Data.List.Basic

/-! # Refinement between machines that answer calls

A machine takes one call after the other. It answers a call and goes on in a new state, or it
ends with a fault. A machine implements another one if it gives the same answers and ends with
the same faults.

1. `Machine.answers`: the answers to a list of calls;
2. `Guarded`: calls that are allowed in the states in which they come;
3. `Simulates.answers`: from a relation that every allowed call keeps to whole lists of calls.
-/

namespace IntroOS

universe u v w x y

variable {σ : Type u} {τ : Type v} {ε : Type w} {φ : Type x} {ω : Type y}

/-- The answer to a call and the state after it, or a fault. -/
abbrev Machine (σ : Type u) (ε : Type w) (φ : Type x) (ω : Type y) := σ → ε → Except φ (ω × σ)

/-- The answers to a list of calls, up to a fault. -/
def Machine.answers (m : Machine σ ε φ ω) : σ → List ε → Except φ (List ω × σ)
  | s, [] => .ok ([], s)
  | s, e :: es =>
    match m s e with
    | .error f => .error f
    | .ok (o, s') =>
      match m.answers s' es with
      | .error f => .error f
      | .ok (os, s'') => .ok (o :: os, s'')

section

variable (m : Machine σ ε φ ω) (a : Machine τ ε φ ω)

/-- Every call is allowed in the states that the two machines have come to. -/
def Guarded (guard : σ → τ → ε → Prop) : σ → τ → List ε → Prop
  | _, _, [] => True
  | s, t, e :: es => guard s t e ∧
    match m s e, a t e with
    | .ok (_, s'), .ok (_, t') => Guarded guard s' t' es
    | _, _ => True

instance Guarded.decidable {guard : σ → τ → ε → Prop} [∀ s t e, Decidable (guard s t e)] :
    (s : σ) → (t : τ) → (es : List ε) → Decidable (Guarded m a guard s t es)
  | _, _, [] => .isTrue trivial
  | s, t, e :: es =>
    have : Decidable (match m s e, a t e with
        | .ok (_, s'), .ok (_, t') => Guarded m a guard s' t' es
        | _, _ => True) :=
      match m s e, a t e with
      | .ok (_, s'), .ok (_, t') => Guarded.decidable s' t' es
      | .ok _, .error _ | .error _, _ => .isTrue trivial
    inferInstanceAs (Decidable (guard s t e ∧ _))

/-- The same answer, with related states behind it, or the same fault. -/
inductive Agree (R : σ → τ → Prop) : Except φ (ω × σ) → Except φ (ω × τ) → Prop where
  | fault (f : φ) : Agree R (.error f) (.error f)
  | answer (o : ω) {s : σ} {t : τ} : R s t → Agree R (.ok (o, s)) (.ok (o, t))

/-- In related states the machines agree on every allowed call. -/
def Simulates (guard : σ → τ → ε → Prop) (R : σ → τ → Prop) : Prop :=
  ∀ s t e, R s t → guard s t e → Agree R (m s e) (a t e)

end

variable {m : Machine σ ε φ ω} {a : Machine τ ε φ ω} {guard : σ → τ → ε → Prop} {R : σ → τ → Prop}

theorem Agree.mono {R' : σ → τ → Prop} (hR : ∀ s t, R s t → R' s t) {r : Except φ (ω × σ)}
    {r' : Except φ (ω × τ)} (h : Agree R r r') : Agree R' r r' := by
  cases h with
  | fault f => exact .fault f
  | answer o hst => exact .answer o (hR _ _ hst)

theorem Agree.of_fault {r : Except φ (ω × σ)} {r' : Except φ (ω × τ)} {f : φ} (h : r = .error f)
    (h' : r' = .error f) : Agree R r r' := by
  rw [h, h']
  exact .fault f

theorem Agree.of_answer {r : Except φ (ω × σ)} {r' : Except φ (ω × τ)} {o : ω} {s : σ} {t : τ}
    (h : r = .ok (o, s)) (h' : r' = .ok (o, t)) (hst : R s t) : Agree R r r' := by
  rw [h, h']
  exact .answer o hst

/-- Forward simulation: the machines agree on every list of allowed calls. -/
theorem Simulates.answers (h : Simulates m a guard R) {s : σ} {t : τ} (hst : R s t) {es : List ε}
    (hguard : Guarded m a guard s t es) : Agree R (m.answers s es) (a.answers t es) := by
  induction es generalizing s t with
  | nil => exact .answer [] hst
  | cons e es ih =>
    obtain ⟨he, hes⟩ := hguard
    have hcall := h s t e hst he
    unfold Machine.answers
    generalize m s e = r at hcall hes ⊢
    generalize a t e = r' at hcall hes ⊢
    cases hcall with
    | fault f => exact .fault f
    | answer o hst' =>
      rename_i s' t'
      have hrest := ih hst' hes
      simp only []
      generalize m.answers s' es = q at hrest ⊢
      generalize a.answers t' es = q' at hrest ⊢
      cases hrest with
      | fault f => exact .fault f
      | answer os hend => exact .answer (o :: os) hend

end IntroOS
