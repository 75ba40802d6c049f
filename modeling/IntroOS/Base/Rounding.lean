import Mathlib.Algebra.Order.Ring.Nat

/-! # Rounding to significant bits

The conversion of an unsigned integer to a floating-point format keeps a number of
significant bits; of the two neighbours it takes the nearest one, and of two equally near
ones the even one.

1. `roundMultiple d`: rounding to the multiples of `d`;
2. `roundBits p`: rounding to `p` significant bits, and that it is monotone;
3. `toDouble`: the case of a `double`.
-/

namespace IntroOS

/-- The multiple of `d` nearest to `n`, the even one of two. -/
def roundMultiple (d n : Nat) : Nat :=
  if d < 2 * (n % d) ∨ (2 * (n % d) = d ∧ n / d % 2 = 1) then (n / d + 1) * d else n / d * d

theorem le_roundMultiple {d k n : Nat} (hd : 0 < d) (h : k * d ≤ n) :
    k * d ≤ roundMultiple d n := by
  have hk : k ≤ n / d := (Nat.le_div_iff_mul_le hd).mpr h
  unfold roundMultiple
  split
  · exact Nat.mul_le_mul_right d (by omega)
  · exact Nat.mul_le_mul_right d hk

theorem roundMultiple_le {d k n : Nat} (hd : 0 < d) (h : n ≤ k * d) :
    roundMultiple d n ≤ k * d := by
  have hk : n / d ≤ k := Nat.div_le_of_le_mul (by rw [Nat.mul_comm]; exact h)
  unfold roundMultiple
  split
  · rename_i hup
    -- something is left over, so `n` is not the multiple itself
    have hlt : n / d < k := by
      by_contra hge
      have heq : n / d = k := by omega
      have hdiv := Nat.div_add_mod n d
      rw [heq, Nat.mul_comm] at hdiv
      omega
    exact Nat.mul_le_mul_right d hlt
  · exact Nat.mul_le_mul_right d hk

theorem roundMultiple_mono {d m n : Nat} (hd : 0 < d) (h : m ≤ n) :
    roundMultiple d m ≤ roundMultiple d n := by
  have hdiv : m / d ≤ n / d := Nat.div_le_div_right h
  by_cases heq : m / d = n / d
  · -- between the same multiples: what is left over decides
    have hm := Nat.div_add_mod m d
    have hn := Nat.div_add_mod n d
    rw [heq] at hm
    have hmod : m % d ≤ n % d := by omega
    unfold roundMultiple
    rw [heq]
    split
    · rename_i hup
      have hup' : d < 2 * (n % d) ∨ (2 * (n % d) = d ∧ n / d % 2 = 1) := by omega
      rw [if_pos hup']
    · split
      · exact Nat.mul_le_mul_right d (by omega)
      · exact le_refl _
  · have hle : roundMultiple d m ≤ (m / d + 1) * d := by
      apply roundMultiple_le hd
      have hm := Nat.div_add_mod m d
      have hlt := Nat.mod_lt m hd
      rw [Nat.add_mul, Nat.mul_comm (m / d) d]
      omega
    have hge : (m / d + 1) * d ≤ roundMultiple d n := by
      apply le_roundMultiple hd
      calc (m / d + 1) * d ≤ n / d * d := Nat.mul_le_mul_right d (by omega)
        _ ≤ n := Nat.div_mul_le_self n d
    exact le_trans hle hge

/-- `n` rounded to `p` significant bits. -/
def roundBits (p n : Nat) : Nat := roundMultiple (2 ^ (n.log2 + 1 - p)) n

section Bits

variable {p : Nat}

/-- Powers of two are not crossed from below. -/
theorem roundBits_le_pow (hp : 0 < p) {k n : Nat} (h : n ≤ 2 ^ k) : roundBits p n ≤ 2 ^ k := by
  have hlog : n.log2 ≤ k := by
    by_cases hn : n = 0
    · rw [hn, Nat.log2_zero]
      omega
    · rw [← Nat.pow_le_pow_iff_right (Nat.lt_succ_self 1)]
      exact le_trans (Nat.log2_self_le hn) h
  have hpow : 2 ^ (k - (n.log2 + 1 - p)) * 2 ^ (n.log2 + 1 - p) = 2 ^ k := by
    rw [← Nat.pow_add]
    congr 1
    omega
  unfold roundBits
  rw [← hpow] at h ⊢
  exact roundMultiple_le (Nat.two_pow_pos _) h

/-- Nor from above. -/
theorem pow_le_roundBits (hp : 0 < p) {k n : Nat} (h : 2 ^ k ≤ n) : 2 ^ k ≤ roundBits p n := by
  have hn : n ≠ 0 := by
    have := Nat.two_pow_pos k
    omega
  have hlog : k ≤ n.log2 := (Nat.le_log2 hn).mpr h
  have hpow : 2 ^ (n.log2 - (n.log2 + 1 - p)) * 2 ^ (n.log2 + 1 - p) = 2 ^ n.log2 := by
    rw [← Nat.pow_add]
    congr 1
    omega
  have hround : 2 ^ n.log2 ≤ roundBits p n := by
    unfold roundBits
    have hself := Nat.log2_self_le hn
    rw [← hpow] at hself ⊢
    exact le_roundMultiple (Nat.two_pow_pos _) hself
  exact le_trans (Nat.pow_le_pow_right (by omega) hlog) hround

theorem roundBits_zero : roundBits p 0 = 0 := by
  have h : roundBits p 0 ≤ 0 * 2 ^ (Nat.log2 0 + 1 - p) :=
    roundMultiple_le (Nat.two_pow_pos _) (Nat.zero_le _)
  omega

theorem roundBits_mono (hp : 0 < p) {m n : Nat} (h : m ≤ n) : roundBits p m ≤ roundBits p n := by
  by_cases hlog : m.log2 = n.log2
  · unfold roundBits
    rw [hlog]
    exact roundMultiple_mono (Nat.two_pow_pos _) h
  · -- a power of two is in between
    by_cases hm : m = 0
    · rw [hm, roundBits_zero]
      exact Nat.zero_le _
    · have hn : n ≠ 0 := by omega
      have hle : m.log2 ≤ n.log2 := (Nat.le_log2 hn).mpr (le_trans (Nat.log2_self_le hm) h)
      have hlow : roundBits p m ≤ 2 ^ (m.log2 + 1) :=
        roundBits_le_pow hp (le_of_lt Nat.lt_log2_self)
      have hmid : 2 ^ (m.log2 + 1) ≤ 2 ^ n.log2 := Nat.pow_le_pow_right (by omega) (by omega)
      have hhigh : 2 ^ n.log2 ≤ roundBits p n := pow_le_roundBits hp (Nat.log2_self_le hn)
      exact le_trans hlow (le_trans hmid hhigh)

theorem roundBits_pow (hp : 0 < p) (k : Nat) : roundBits p (2 ^ k) = 2 ^ k :=
  le_antisymm (roundBits_le_pow hp (le_refl _)) (pow_le_roundBits hp (le_refl _))

end Bits

/-- The conversion to `double`, which has 53 significant bits. -/
def toDouble (n : Nat) : Nat := roundBits 53 n

theorem toDouble_mono {m n : Nat} (h : m ≤ n) : toDouble m ≤ toDouble n :=
  roundBits_mono (by omega) h

theorem toDouble_pow (k : Nat) : toDouble (2 ^ k) = 2 ^ k := roundBits_pow (by omega) k

/-- `2^53 + 1` is between two doubles, and the even one is below it. -/
example : toDouble (2 ^ 53 + 1) = 2 ^ 53 ∧ toDouble (2 ^ 53 + 3) = 2 ^ 53 + 4 := by decide

end IntroOS
