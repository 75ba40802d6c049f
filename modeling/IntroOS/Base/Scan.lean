import IntroOS.Base.CStr
import Mathlib.Data.List.Induction

/-! # Scanning words

`scanWord` is a `%s` conversion: it skips separators and takes what comes up to the next one,
which stays in the stream. `words` are all tokens of a text, and `pairs` takes them two by two.
`EndsFirst` says where a pattern comes to its end for the first time.
-/

namespace IntroOS

variable {α : Type*} {sep : α → Bool}

/-- A `%s` conversion: the token, and the stream behind it. `none` is an input failure. -/
def scanWord (sep : α → Bool) (s : List α) : Option (List α × List α) :=
  match s.dropWhile sep with
  | [] => none
  | x :: t => some ((x :: t).takeWhile (fun b => !sep b), (x :: t).dropWhile (fun b => !sep b))

/-- The pieces of a text between separators, but for the empty ones. -/
def words (sep : α → Bool) (s : List α) : List (List α) :=
  (s.splitOnP sep).filter fun piece => !piece.isEmpty

/-- Consecutive pairs. What is left over at the end is in no pair. -/
def pairs {β : Type*} : List β → List (β × β)
  | a :: b :: rest => (a, b) :: pairs rest
  | _ => []

theorem words_nil (sep : α → Bool) : words sep [] = [] := by
  unfold words
  rw [List.splitOnP_nil]
  rfl

theorem words_sep {x : α} (hx : sep x = true) (s : List α) : words sep (x :: s) = words sep s := by
  unfold words
  rw [List.splitOnP_cons_eq_if_modifyHead, if_pos hx]
  rfl

theorem words_dropWhile (sep : α → Bool) (s : List α) :
    words sep (s.dropWhile sep) = words sep s := by
  induction s with
  | nil => rfl
  | cons x s ih =>
    by_cases hx : sep x = true
    · rw [List.dropWhile_cons_of_pos hx, words_sep hx, ih]
    · rw [List.dropWhile_cons_of_neg hx]

/-- A token in front of the end or of a separator. -/
theorem words_append {tok rest : List α} (hne : tok ≠ []) (htok : Clean sep tok)
    (hrest : rest = [] ∨ ∃ x t, rest = x :: t ∧ sep x = true) :
    words sep (tok ++ rest) = tok :: words sep rest := by
  have hfilter : ∀ l : List (List α),
      (tok :: l).filter (fun piece => !piece.isEmpty) =
        tok :: l.filter fun piece => !piece.isEmpty := by
    intro l
    refine List.filter_cons_of_pos ?_
    simpa using hne
  rcases hrest with rfl | ⟨x, t, rfl, hx⟩
  · rw [List.append_nil, words_nil]
    unfold words
    rw [List.splitOnP_eq_singleton htok, hfilter]
    rfl
  · rw [words_sep hx]
    unfold words
    rw [List.splitOnP_append_cons_of_forall_mem htok x hx t, hfilter]

theorem scanWord_none {s : List α} (h : scanWord sep s = none) : words sep s = [] := by
  unfold scanWord at h
  split at h
  · rename_i hdrop
    rw [← words_dropWhile, hdrop, words_nil]
  · cases h

theorem scanWord_some {s tok rest : List α} (h : scanWord sep s = some (tok, rest)) :
    words sep s = tok :: words sep rest := by
  unfold scanWord at h
  split at h
  · cases h
  · rename_i x t hdrop
    have hx : sep x = false := by
      have hhead := List.head?_dropWhile_not sep s
      rw [hdrop] at hhead
      simpa using hhead
    cases h
    rw [← words_dropWhile, hdrop]
    have hsplit : x :: t = (x :: t).takeWhile (fun b => !sep b) ++
        (x :: t).dropWhile (fun b => !sep b) := List.takeWhile_append_dropWhile.symm
    have htok : Clean sep ((x :: t).takeWhile fun b => !sep b) := by
      intro b hb
      simpa using List.mem_takeWhile_imp hb
    have hne : (x :: t).takeWhile (fun b => !sep b) ≠ [] := by
      rw [List.takeWhile_cons_of_pos (by rw [hx]; rfl)]
      exact List.cons_ne_nil _ _
    have hrest : (x :: t).dropWhile (fun b => !sep b) = [] ∨
        ∃ y u, (x :: t).dropWhile (fun b => !sep b) = y :: u ∧ sep y = true := by
      cases hend : (x :: t).dropWhile fun b => !sep b with
      | nil => exact Or.inl rfl
      | cons y u =>
        have hhead := List.head?_dropWhile_not (fun b => !sep b) (x :: t)
        rw [hend] at hhead
        exact Or.inr ⟨y, u, rfl, by simpa using hhead⟩
    have happend := words_append hne htok hrest
    rw [← hsplit] at happend
    exact happend

theorem scanWord_of_nil {s : List α} (h : words sep s = []) : scanWord sep s = none := by
  cases hscan : scanWord sep s with
  | none => rfl
  | some found =>
    rw [scanWord_some hscan] at h
    cases h

/-- The conversion takes the words one after the other. -/
theorem scanWord_of_cons {s tok : List α} {toks : List (List α)} (h : words sep s = tok :: toks) :
    ∃ rest, scanWord sep s = some (tok, rest) ∧ words sep rest = toks := by
  cases hscan : scanWord sep s with
  | none =>
    rw [scanWord_none hscan] at h
    cases h
  | some found =>
    rw [scanWord_some hscan] at h
    rcases List.cons.inj h with ⟨rfl, hrest⟩
    exact ⟨found.2, rfl, hrest⟩

theorem pairs_length {β : Type*} (l : List β) : (pairs l).length = l.length / 2 := by
  induction l using List.twoStepInduction with
  | nil => simp [pairs]
  | singleton a => simp [pairs]
  | cons_cons a b l ih _ =>
    rw [pairs, List.length_cons, ih, List.length_cons, List.length_cons]
    omega

/-- In a list of even length everything has a partner. -/
theorem exists_mem_pairs {β : Type*} {l : List β} (heven : l.length % 2 = 0) {a : β} (ha : a ∈ l) :
    ∃ p ∈ pairs l, a = p.1 ∨ a = p.2 := by
  induction l using List.twoStepInduction with
  | nil => cases ha
  | singleton b => cases heven
  | cons_cons b c l ih _ =>
    rw [pairs]
    rcases List.mem_cons.mp ha with rfl | ha
    · exact ⟨(a, c), List.mem_cons_self, Or.inl rfl⟩
    rcases List.mem_cons.mp ha with rfl | ha
    · exact ⟨(b, a), List.mem_cons_self, Or.inr rfl⟩
    · rw [List.length_cons, List.length_cons] at heven
      rcases ih (by omega) ha with ⟨p, hp, heq⟩
      exact ⟨p, List.mem_cons_of_mem _ hp, heq⟩

/-! ## The first place of a pattern -/

section Pattern

variable {pat s u v w : List α} {n : Nat}

/-- `n` is the index just behind the first `pat` in `s`. -/
structure EndsFirst (pat s : List α) (n : Nat) : Prop where
  here : pat <:+ s.take n
  before : ∀ m < n, ¬ pat <:+ s.take m

theorem EndsFirst.le (h : EndsFirst pat s n) : n ≤ s.length := by
  by_contra hlt
  have hall : s.take n = s.take s.length := by
    rw [List.take_length, List.take_of_length_le (by omega)]
  exact h.before s.length (by omega) (hall ▸ h.here)

/-- What follows does not matter. -/
theorem EndsFirst.append (h : EndsFirst pat s n) (v : List α) : EndsFirst pat (s ++ v) n := by
  have hle := h.le
  constructor
  · rw [List.take_append_of_le_length hle]
    exact h.here
  · intro m hm
    rw [List.take_append_of_le_length (by omega)]
    exact h.before m hm

theorem EndsFirst.of_append (h : EndsFirst pat (s ++ v) n) (hle : n ≤ s.length) :
    EndsFirst pat s n := by
  constructor
  · have hhere := h.here
    rw [List.take_append_of_le_length hle] at hhere
    exact hhere
  · intro m hm
    have hbefore := h.before m hm
    rw [List.take_append_of_le_length (by omega)] at hbefore
    exact hbefore

/-- There is no `pat` in front of the first one. -/
theorem EndsFirst.not_infix (h : EndsFirst pat (u ++ (w ++ v)) n) (hlt : u.length + w.length < n) :
    ¬ pat <:+: w := by
  rintro ⟨w₁, w₂, rfl⟩
  have hsplit : u ++ (w₁ ++ pat ++ w₂ ++ v) = (u ++ w₁ ++ pat) ++ (w₂ ++ v) := by
    simp only [List.append_assoc]
  refine h.before (u ++ w₁ ++ pat).length ?_ ?_
  · simp only [List.length_append] at hlt ⊢
    omega
  · rw [hsplit, List.take_left]
    exact List.suffix_append _ _

/-- A `pat` that comes to its end nowhere earlier. -/
theorem endsFirst_of_not_infix (h : ¬ pat <:+: s ++ pat.dropLast) (hne : pat ≠ []) (v : List α) :
    EndsFirst pat (s ++ (pat ++ v)) (s.length + pat.length) := by
  have hlast : pat = pat.dropLast ++ [pat.getLast hne] := (List.dropLast_append_getLast hne).symm
  have hlen : pat.length = pat.dropLast.length + 1 := by
    conv_lhs => rw [hlast]
    rw [List.length_append, List.length_singleton]
  constructor
  · rw [← List.append_assoc, ← List.length_append, List.take_left]
    exact List.suffix_append _ _
  · intro m hm hsuffix
    have hsplit : s ++ (pat ++ v) = (s ++ pat.dropLast) ++ (pat.getLast hne :: v) := by
      conv_lhs => rw [hlast]
      simp only [List.append_assoc, List.singleton_append]
    rw [hsplit, List.take_append_of_le_length (by rw [List.length_append]; omega)] at hsuffix
    exact h (hsuffix.isInfix.trans (List.take_prefix m _).isInfix)

/-- A `pat` does not reach across what is not in it. -/
theorem infix_append_cons {x : α} (hx : x ∉ pat) (h : pat <:+: u ++ x :: v) :
    pat <:+: u ∨ pat <:+: v := by
  have hnil : ∀ l, l <+: pat → l <+: x :: v → l = [] := by
    intro l hpat hl
    cases l with
    | nil => rfl
    | cons y l =>
      rw [List.cons_prefix_cons] at hl
      exact absurd (hpat.subset List.mem_cons_self) (hl.1 ▸ hx)
  rcases List.infix_append_iff.mp h with hu | hv | ⟨l₁, l₂, rfl, hu, hv⟩
  · exact Or.inl hu
  · rcases List.infix_cons_iff.mp hv with hv | hv
    · rw [hnil pat List.prefix_rfl hv]
      exact Or.inl List.nil_infix
    · exact Or.inr hv
  · cases l₂ with
    | nil =>
      rw [List.append_nil]
      exact Or.inl hu.isInfix
    | cons y l₂ =>
      rw [List.cons_prefix_cons] at hv
      exact absurd (List.mem_append_right _ List.mem_cons_self) (hv.1 ▸ hx)

end Pattern

end IntroOS
