import Mathlib.Algebra.Order.Ring.Int
import Mathlib.Tactic.Common

/-! # Bisection

A table of `n` entries is searched between two bounds. `cmp i` is negative if what is looked
for comes before entry `i`, positive if it comes after it, and 0 if entry `i` is it.

* `Falling`: the table is sorted;
* `Bracket`: nothing outside of the bounds is looked for;
* `Bracket.middle`, `Bracket.left`, `Bracket.right`: one step;
* `Bracket.absent`: when the bounds have crossed, it is not in the table.
-/

namespace IntroOS

/-- What comes before an entry comes before the later ones, what comes after an entry comes after
the earlier ones. -/
structure Falling (cmp : Nat → Int) (n : Nat) : Prop where
  neg : ∀ i j, i ≤ j → j < n → cmp i < 0 → cmp j < 0
  pos : ∀ i j, i ≤ j → j < n → 0 < cmp j → 0 < cmp i

/-- Every entry in front of `lo` is too small, every one behind `hi` too large. The bounds cross by
one at most. -/
structure Bracket (cmp : Nat → Int) (n : Nat) (lo hi : Int) : Prop where
  lo_nonneg : 0 ≤ lo
  hi_lt : hi < n
  below : ∀ i : Nat, i < n → (i : Int) < lo → 0 < cmp i
  above : ∀ i : Nat, i < n → hi < (i : Int) → cmp i < 0

variable {cmp : Nat → Int} {n : Nat} {lo hi : Int}

theorem Bracket.init (cmp : Nat → Int) (n : Nat) : Bracket cmp n 0 ((n : Int) - 1) := by
  refine ⟨le_refl 0, by omega, ?_, ?_⟩
  · intro i _ hlo
    omega
  · intro i hi hhi
    omega

/-- The entry in the middle. -/
theorem Bracket.middle (h : Bracket cmp n lo hi) (hle : lo ≤ hi) :
    ∃ m : Nat, lo + (hi - lo) / 2 = m ∧ m < n ∧ lo ≤ m ∧ (m : Int) ≤ hi := by
  have hlo := h.lo_nonneg
  have hhi := h.hi_lt
  refine ⟨(lo + (hi - lo) / 2).toNat, ?_, ?_, ?_, ?_⟩ <;> omega

/-- On with the entries in front of the middle. -/
theorem Bracket.left (h : Bracket cmp n lo hi) (hcmp : Falling cmp n) {m : Nat} (hm : m < n)
    (hneg : cmp m < 0) : Bracket cmp n lo ((m : Int) - 1) := by
  refine ⟨h.lo_nonneg, by omega, h.below, ?_⟩
  intro i hi hlt
  exact hcmp.neg m i (by omega) hi hneg

/-- On with the entries behind the middle. -/
theorem Bracket.right (h : Bracket cmp n lo hi) (hcmp : Falling cmp n) {m : Nat} (hm : m < n)
    (hpos : 0 < cmp m) : Bracket cmp n ((m : Int) + 1) hi := by
  refine ⟨by omega, h.hi_lt, ?_, h.above⟩
  intro i hi hlt
  exact hcmp.pos i m (by omega) hm hpos

theorem Bracket.absent (h : Bracket cmp n lo hi) (hcross : hi < lo) : ∀ i < n, cmp i ≠ 0 := by
  intro i hi
  rcases lt_or_ge (i : Int) lo with hlt | hge
  · exact (h.below i hi hlt).ne'
  · exact (h.above i hi (by omega)).ne

end IntroOS
