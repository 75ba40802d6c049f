import IntroOS.Base.CStr
import Mathlib.Data.List.Lex

/-! # Rows of text: `fgets`, `strsep`, `strcmp`

1. `fgets`: a line of a stream, with its newline, into memory;
2. `strsep`: a token that ends at the next separator, which is overwritten;
3. `strcmp`: the sign is that of the lexicographic order of the bytes.
-/

namespace IntroOS

/-! ## Lines -/

/-- At most `n` bytes of the stream, up to the first newline, and what is left. -/
def takeLine : Nat → Bytes → Bytes × Bytes
  | 0, s => ([], s)
  | _ + 1, [] => ([], [])
  | n + 1, b :: s =>
    if b = 10 then ([b], s)
    else (b :: (takeLine n s).1, (takeLine n s).2)

/-- `fgets(mem, size, stream)`: the memory and the stream after it. `none` is the NULL result. -/
def fgets (mem : Bytes) (size : Nat) (stream : Bytes) : Option (Bytes × Bytes) :=
  if stream = [] then none
  else
    let (line, rest) := takeLine (size - 1) stream
    some (line ++ 0 :: mem.drop (line.length + 1), rest)

theorem takeLine_append {line : Bytes} (h : 10 ∉ line) {n : Nat} (hn : line.length < n) (rest : Bytes) :
    takeLine n (line ++ 10 :: rest) = (line ++ [10], rest) := by
  induction line generalizing n with
  | nil =>
    obtain ⟨n, rfl⟩ : ∃ k, n = k + 1 := ⟨n - 1, by simp at hn; omega⟩
    rw [List.nil_append, takeLine, if_pos rfl]
    rfl
  | cons b line ih =>
    rw [List.mem_cons, not_or] at h
    rw [List.length_cons] at hn
    obtain ⟨n, rfl⟩ : ∃ k, n = k + 1 := ⟨n - 1, by omega⟩
    rw [List.cons_append, takeLine, if_neg (Ne.symm h.1), ih h.2 (by omega)]
    rfl

/-- A line that fits is read as it is. -/
theorem fgets_line {line : Bytes} (h : 10 ∉ line) {size : Nat} (hsize : line.length + 1 < size)
    (mem rest : Bytes) :
    fgets mem size (line ++ 10 :: rest) =
      some (line ++ 10 :: 0 :: mem.drop (line.length + 2), rest) := by
  unfold fgets
  rw [if_neg (by simp), takeLine_append h (by omega)]
  simp [List.append_assoc]

/-! ## Tokens that may be empty -/

/-- `strsep(&ptr, sep)` on the string at `ptr`: the memory, the new `ptr` and the token, which
begins where `ptr` was. -/
def strsep (sep : UInt8 → Bool) (mem : Bytes) : Option Nat → Bytes × Option Nat × Option Nat
  | none => (mem, none, none)
  | some p =>
    match (text (mem.drop p)).findIdx? sep with
    | none => (mem, none, some p)
    | some i => (mem.set (p + i) 0, some (p + i + 1), some p)

/-- The token that is cut off. -/
theorem strsep_cut {sep : UInt8 → Bool} {tok : Bytes} {x : UInt8} (htok : Clean sep tok)
    (hnul : 0 ∉ tok) (hx : sep x = true) (hx0 : x ≠ 0) (before rest : Bytes) :
    strsep sep (before ++ (tok ++ x :: rest)) (some before.length) =
      (before ++ (tok ++ 0 :: rest), some (before.length + tok.length + 1), some before.length) := by
  have htext : text (tok ++ x :: rest) = tok ++ x :: text rest := by
    have hnul' : 0 ∉ tok ++ [x] := by simp [hnul, Ne.symm hx0]
    have := text_append hnul' rest
    simpa using this
  have hfind : (tok ++ x :: text rest).findIdx? sep = some tok.length := by
    rw [List.findIdx?_append, List.findIdx?_eq_none_iff.mpr htok, List.findIdx?_cons, if_pos hx]
    simp
  unfold strsep
  simp only [List.drop_left, htext, hfind]
  rw [List.set_append_right _ _ (by omega), Nat.add_sub_cancel_left,
    List.set_append_right _ _ (le_refl _), Nat.sub_self]
  rfl

/-- The last token. -/
theorem strsep_last {sep : UInt8 → Bool} {tok : Bytes} (htok : Clean sep tok) (hnul : 0 ∉ tok)
    (before rest : Bytes) :
    strsep sep (before ++ (tok ++ 0 :: rest)) (some before.length) =
      (before ++ (tok ++ 0 :: rest), none, some before.length) := by
  unfold strsep
  simp only [List.drop_left, text_append_nul hnul, List.findIdx?_eq_none_iff.mpr htok]

/-! ## Comparison -/

/-- `strcmp` of two strings. -/
def strcmp : Bytes → Bytes → Int
  | [], [] => 0
  | [], b :: _ => -b.toNat
  | a :: _, [] => a.toNat
  | a :: s, b :: t => if a = b then strcmp s t else (a.toNat : Int) - b.toNat

/-- The bytes as numbers, which is how they are compared. -/
def codes (s : Bytes) : List Nat := s.map UInt8.toNat

theorem codes_inj {s t : Bytes} : codes s = codes t ↔ s = t := by
  unfold codes
  exact (List.map_injective_iff.mpr fun a b h => UInt8.toNat_inj.mp h).eq_iff

theorem toNat_pos {b : UInt8} (h : b ≠ 0) : 0 < b.toNat := by
  rw [Nat.pos_iff_ne_zero]
  intro h0
  exact h (UInt8.toNat_inj.mp h0)

theorem strcmp_zero_iff {s t : Bytes} (hs : 0 ∉ s) (ht : 0 ∉ t) : strcmp s t = 0 ↔ s = t := by
  induction s generalizing t with
  | nil =>
    cases t with
    | nil => simp [strcmp]
    | cons b t =>
      have hb := toNat_pos (fun h => ht (by simp [h]) : b ≠ 0)
      simp only [strcmp, reduceCtorEq, iff_false]
      omega
  | cons a s ih =>
    cases t with
    | nil =>
      have ha := toNat_pos (fun h => hs (by simp [h]) : a ≠ 0)
      simp only [strcmp, reduceCtorEq, iff_false]
      omega
    | cons b t =>
      rw [List.mem_cons, not_or] at hs ht
      unfold strcmp
      by_cases hab : a = b
      · rw [if_pos hab, ih hs.2 ht.2, hab, List.cons.injEq, and_iff_right rfl]
      · have hne : a.toNat ≠ b.toNat := fun h => hab (UInt8.toNat_inj.mp h)
        rw [if_neg hab, List.cons.injEq]
        constructor
        · intro h
          omega
        · rintro ⟨h, _⟩
          exact absurd h hab

theorem strcmp_neg_iff {s t : Bytes} (hs : 0 ∉ s) (ht : 0 ∉ t) :
    strcmp s t < 0 ↔ codes s < codes t := by
  induction s generalizing t with
  | nil =>
    cases t with
    | nil => simp [strcmp]
    | cons b t =>
      have hb := toNat_pos (fun h => ht (by simp [h]) : b ≠ 0)
      have hlt : codes [] < codes (b :: t) := List.nil_lt_cons _ _
      simp only [strcmp, hlt, iff_true]
      omega
  | cons a s ih =>
    cases t with
    | nil =>
      simp only [strcmp, codes, List.map_nil, List.not_lt_nil, iff_false]
      omega
    | cons b t =>
      rw [List.mem_cons, not_or] at hs ht
      unfold strcmp
      show _ ↔ a.toNat :: codes s < b.toNat :: codes t
      rw [List.cons_lt_cons_iff]
      by_cases hab : a = b
      · rw [if_pos hab, ih hs.2 ht.2, hab]
        simp
      · have hne : a.toNat ≠ b.toNat := fun h => hab (UInt8.toNat_inj.mp h)
        rw [if_neg hab]
        simp only [hne, false_and, or_false]
        omega

theorem strcmp_pos_iff {s t : Bytes} (hs : 0 ∉ s) (ht : 0 ∉ t) :
    0 < strcmp s t ↔ codes t < codes s := by
  have hneg := strcmp_neg_iff hs ht
  have hzero := strcmp_zero_iff hs ht
  rw [← codes_inj] at hzero
  rcases lt_trichotomy (codes s) (codes t) with hlt | heq | hgt
  · have h := hneg.mpr hlt
    have hno := lt_asymm hlt
    constructor
    · intro hpos
      omega
    · intro hpos
      exact absurd hpos hno
  · have h := hzero.mpr heq
    rw [heq]
    simp only [lt_irrefl, iff_false]
    omega
  · have hnot : ¬ strcmp s t < 0 := fun h => lt_asymm hgt (hneg.mp h)
    have hne : strcmp s t ≠ 0 := fun h => absurd (hzero.mp h) hgt.ne'
    simp only [hgt, iff_true]
    omega

end IntroOS
