import Mathlib.Order.Basic

/-! # Loops

A `while` loop is a body that either goes on with a new state or leaves with a result.
`loop body fuel` runs it for a bounded number of rounds, and `Returns body s r` says that it
comes to an end from `s`, with `r`.

1. **Unfolding** (`Returns.exit_iff`, `Returns.round_iff`) and uniqueness of the result;
2. **Partial correctness** (`Returns.post`): an invariant of the rounds;
3. **Total correctness** (`exists_returns`): an invariant, and a number that falls;
4. **Loop heads** (`Visits.inv`): an invariant holds whenever the loop tests its condition;
5. **Traces** (`returns_iff_of_trace`): a loop whose state after every round is known.
-/

namespace IntroOS

variable {σ ρ : Type*} {body : σ → σ ⊕ ρ}

/-- At most `fuel` rounds of the loop. -/
def loop (body : σ → σ ⊕ ρ) : Nat → σ → Option ρ
  | 0, _ => none
  | fuel + 1, s =>
    match body s with
    | .inl s' => loop body fuel s'
    | .inr r => some r

/-- The loop comes to an end from `s`, with `r`. -/
def Returns (body : σ → σ ⊕ ρ) (s : σ) (r : ρ) : Prop := ∃ fuel, loop body fuel s = some r

theorem loop_exit {s : σ} {r : ρ} (h : body s = .inr r) (fuel : Nat) :
    loop body (fuel + 1) s = some r := by
  rw [loop, h]

theorem loop_round {s s' : σ} (h : body s = .inl s') (fuel : Nat) :
    loop body (fuel + 1) s = loop body fuel s' := by
  rw [loop, h]

/-- More rounds change nothing about a loop that has ended. -/
theorem loop_mono {s : σ} {r : ρ} {m n : Nat} (h : loop body m s = some r) (hle : m ≤ n) :
    loop body n s = some r := by
  induction m generalizing s n with
  | zero => cases h
  | succ m ih =>
    obtain ⟨n, rfl⟩ : ∃ k, n = k + 1 := ⟨n - 1, by omega⟩
    cases hb : body s with
    | inl s' =>
      rw [loop_round hb] at h ⊢
      exact ih h (by omega)
    | inr r' =>
      rw [loop_exit hb] at h ⊢
      exact h

theorem Returns.unique {s : σ} {r r' : ρ} (h : Returns body s r) (h' : Returns body s r') :
    r = r' := by
  rcases h with ⟨m, hm⟩
  rcases h' with ⟨n, hn⟩
  have hr := loop_mono hm (Nat.le_max_left m n)
  have hr' := loop_mono hn (Nat.le_max_right m n)
  rw [hr] at hr'
  exact Option.some.inj hr'

theorem Returns.exit_iff {s : σ} {r r' : ρ} (h : body s = .inr r') :
    Returns body s r ↔ r = r' := by
  have hexit : Returns body s r' := ⟨1, loop_exit h 0⟩
  constructor
  · intro hr
    exact hr.unique hexit
  · intro heq
    rw [heq]
    exact hexit

theorem Returns.round_iff {s s' : σ} {r : ρ} (h : body s = .inl s') :
    Returns body s r ↔ Returns body s' r := by
  constructor
  · rintro ⟨fuel, hr⟩
    cases fuel with
    | zero => cases hr
    | succ fuel =>
      rw [loop_round h] at hr
      exact ⟨fuel, hr⟩
  · rintro ⟨fuel, hr⟩
    exact ⟨fuel + 1, by rw [loop_round h, hr]⟩

/-- What every round keeps and every exit turns into `Post` holds of the result. -/
theorem Returns.post {Inv : σ → Prop} {Post : ρ → Prop}
    (hround : ∀ s s', Inv s → body s = .inl s' → Inv s')
    (hexit : ∀ s r, Inv s → body s = .inr r → Post r) {s : σ} {r : ρ} (hs : Inv s)
    (hr : Returns body s r) : Post r := by
  rcases hr with ⟨fuel, hr⟩
  induction fuel generalizing s with
  | zero => cases hr
  | succ fuel ih =>
    cases hb : body s with
    | inl s' =>
      rw [loop_round hb] at hr
      exact ih (hround s s' hs hb) hr
    | inr r' =>
      rw [loop_exit hb] at hr
      cases hr
      exact hexit s r hs hb

/-- With a number that falls in every round the loop ends, after at most so many rounds. -/
theorem loop_ends {Inv : σ → Prop} {Post : ρ → Prop} (variant : σ → Nat)
    (hround : ∀ s s', Inv s → body s = .inl s' → Inv s' ∧ variant s' < variant s)
    (hexit : ∀ s r, Inv s → body s = .inr r → Post r) {s : σ} (hs : Inv s) {fuel : Nat}
    (hfuel : variant s < fuel) : ∃ r, loop body fuel s = some r ∧ Post r := by
  induction fuel generalizing s with
  | zero => omega
  | succ fuel ih =>
    cases hb : body s with
    | inl s' =>
      obtain ⟨hs', hlt⟩ := hround s s' hs hb
      rw [loop_round hb]
      exact ih hs' (by omega)
    | inr r =>
      exact ⟨r, loop_exit hb fuel, hexit s r hs hb⟩

/-! ## Loop heads -/

/-- Some rounds lead from `s` to the head of the loop in another state. -/
inductive Visits (body : σ → σ ⊕ ρ) (s : σ) : σ → Prop where
  | here : Visits body s s
  | round {s₁ s₂ : σ} : Visits body s s₁ → body s₁ = .inl s₂ → Visits body s s₂

theorem Visits.inv {Inv : σ → Prop} (hround : ∀ s s', Inv s → body s = .inl s' → Inv s') {s s' : σ}
    (hs : Inv s) (h : Visits body s s') : Inv s' := by
  induction h with
  | here => exact hs
  | round _ hbody ih => exact hround _ _ ih hbody

/-! ## Traces -/

section Trace

variable {f : Nat → σ} {g : Nat → ρ} {Goes : Nat → Prop}

theorem returns_trace (hround : ∀ k, (∀ i < k, Goes i) → Goes k → body (f k) = .inl (f (k + 1)))
    {r : ρ} {k : Nat} (hgoes : ∀ i < k, Goes i) : Returns body (f 0) r ↔ Returns body (f k) r := by
  induction k with
  | zero => exact Iff.rfl
  | succ k ih =>
    have hbefore : ∀ i < k, Goes i := fun i hi => hgoes i (Nat.lt_succ_of_lt hi)
    have hbody := hround k hbefore (hgoes k (Nat.lt_succ_self k))
    rw [ih hbefore, Returns.round_iff hbody]

/-- A loop that is at `f k` after `k` rounds, and goes on there as long as `Goes k`: it returns
exactly if it stops somewhere. -/
theorem returns_iff_of_trace
    (hround : ∀ k, (∀ i < k, Goes i) → Goes k → body (f k) = .inl (f (k + 1)))
    (hexit : ∀ k, (∀ i < k, Goes i) → ¬ Goes k → body (f k) = .inr (g k)) {r : ρ} :
    Returns body (f 0) r ↔ ∃ k, (∀ i < k, Goes i) ∧ ¬ Goes k ∧ r = g k := by
  constructor
  · rintro ⟨fuel, hr⟩
    have hfrom : ∀ fuel k, (∀ i < k, Goes i) → loop body fuel (f k) = some r →
        ∃ k, (∀ i < k, Goes i) ∧ ¬ Goes k ∧ r = g k := by
      intro fuel
      induction fuel with
      | zero =>
        intro k _ hloop
        cases hloop
      | succ fuel ih =>
        intro k hgoes hloop
        by_cases hk : Goes k
        · rw [loop_round (hround k hgoes hk)] at hloop
          apply ih (k + 1) _ hloop
          intro i hi
          rcases Nat.lt_succ_iff_lt_or_eq.mp hi with hlt | rfl
          · exact hgoes i hlt
          · exact hk
        · rw [loop_exit (hexit k hgoes hk)] at hloop
          exact ⟨k, hgoes, hk, (Option.some.inj hloop).symm⟩
    exact hfrom fuel 0 (fun i hi => absurd hi (Nat.not_lt_zero i)) hr
  · rintro ⟨k, hgoes, hk, heq⟩
    rw [returns_trace hround hgoes]
    exact (Returns.exit_iff (hexit k hgoes hk)).mpr heq

end Trace

end IntroOS
