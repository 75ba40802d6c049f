import Mathlib.Data.List.Basic

/-! # Framing

A decoder reads a value off the front of a string and leaves the rest. `Frames dec Enc` says that it
takes just the strings of a format. The format is a relation, since a value may have more than one
string.

1. **Uniqueness** (`Frames.unique`, `Frames.reads`): a format with a decoder is self-delimiting;
2. **Rules**: a fixed number of symbols (`frames_takeN`), a value made of another (`Frames.map`),
   and one format after the other (`Frames.bind`), where the second may depend on what came first.
-/

namespace IntroOS

variable {σ α β : Type*}

/-- `dec` reads the strings of `Enc`, and nothing else, off the front of its input. -/
structure Frames (dec : List σ → Option (α × List σ)) (Enc : α → List σ → Prop) : Prop where
  sound : ∀ s a rest, dec s = some (a, rest) → ∃ b, Enc a b ∧ s = b ++ rest
  complete : ∀ a b rest, Enc a b → dec (b ++ rest) = some (a, rest)

/-- A decoder of whole inputs: it takes an input for the value of the string it begins with, and no
string of the format begins another one. -/
structure Reads (dec : List σ → Option α) (Enc : α → List σ → Prop) : Prop where
  accepts : ∀ s a, dec s = some a ↔ ∃ b, Enc a b ∧ b <+: s
  unambiguous : ∀ a a' b b', Enc a b → Enc a' b' → b <+: b' → a = a' ∧ b = b'

namespace Frames

variable {dec : List σ → Option (α × List σ)} {Enc : α → List σ → Prop}

/-- No string of the format begins another one, and none stands for two values. -/
theorem unique (h : Frames dec Enc) {a a' : α} {b b' r r' : List σ} (ha : Enc a b)
    (ha' : Enc a' b') (heq : b ++ r = b' ++ r') : a = a' ∧ b = b' ∧ r = r' := by
  have hdec : some (a, r) = some (a', r') := by
    rw [← h.complete a b r ha, heq]
    exact h.complete a' b' r' ha'
  rw [Option.some.injEq, Prod.mk.injEq] at hdec
  obtain ⟨hval, hrest⟩ := hdec
  rw [hrest] at heq
  exact ⟨hval, List.append_cancel_right heq, hrest⟩

/-- Without what follows. -/
theorem reads (h : Frames dec Enc) : Reads (fun s => (dec s).map Prod.fst) Enc := by
  constructor
  · intro s a
    constructor
    · intro hfst
      rcases Option.map_eq_some_iff.mp hfst with ⟨⟨a', rest⟩, hdec, rfl⟩
      rcases h.sound s a' rest hdec with ⟨b, hb, hs⟩
      exact ⟨b, hb, rest, hs.symm⟩
    · rintro ⟨b, hb, rest, rfl⟩
      rw [h.complete a b rest hb]
      rfl
  · rintro a a' b b' ha ha' ⟨rest, heq⟩
    obtain ⟨hval, hb, _⟩ := h.unique ha ha' (heq.trans (List.append_nil b').symm)
    exact ⟨hval, hb⟩

theorem congr {dec' : List σ → Option (α × List σ)} {Enc' : α → List σ → Prop}
    (h : Frames dec Enc) (hdec : ∀ s, dec' s = dec s) (henc : ∀ a b, Enc' a b ↔ Enc a b) :
    Frames dec' Enc' := by
  constructor
  · intro s a rest hs
    rw [hdec] at hs
    rcases h.sound s a rest hs with ⟨b, hb, heq⟩
    exact ⟨b, (henc a b).mpr hb, heq⟩
  · intro a b rest hb
    rw [hdec]
    exact h.complete a b rest ((henc a b).mp hb)

/-- A value made of the one that is read. -/
theorem map (h : Frames dec Enc) (f : α → β) :
    Frames (fun s => (dec s).map fun p => (f p.1, p.2)) (fun y b => ∃ a, f a = y ∧ Enc a b) := by
  constructor
  · intro s y rest hs
    rcases Option.map_eq_some_iff.mp hs with ⟨⟨a, rest'⟩, hdec, heq⟩
    cases heq
    rcases h.sound s a rest' hdec with ⟨b, hb, heq⟩
    exact ⟨b, ⟨a, rfl, hb⟩, heq⟩
  · rintro y b rest ⟨a, rfl, hb⟩
    rw [h.complete a b rest hb]
    rfl

/-- One format, and behind it another. -/
theorem bind {dec' : α → List σ → Option (β × List σ)} {Enc' : α → β → List σ → Prop}
    (h : Frames dec Enc) (h' : ∀ a, Frames (dec' a) (Enc' a)) :
    Frames (fun s => (dec s).bind fun p => dec' p.1 p.2)
      (fun y b => ∃ a u v, Enc a u ∧ Enc' a y v ∧ b = u ++ v) := by
  constructor
  · intro s y rest hs
    rcases Option.bind_eq_some_iff.mp hs with ⟨⟨a, s'⟩, hdec, hdec'⟩
    rcases h.sound s a s' hdec with ⟨u, hu, rfl⟩
    rcases (h' a).sound s' y rest hdec' with ⟨v, hv, rfl⟩
    exact ⟨u ++ v, ⟨a, u, v, hu, hv, rfl⟩, (List.append_assoc u v rest).symm⟩
  · rintro y b rest ⟨a, u, v, hu, hv, rfl⟩
    rw [List.append_assoc, h.complete a u _ hu]
    exact (h' a).complete y v rest hv

end Frames

/-- `n` symbols. -/
def takeN (n : Nat) (s : List σ) : Option (List σ × List σ) :=
  if n ≤ s.length then some (s.take n, s.drop n) else none

theorem frames_takeN (n : Nat) :
    Frames (takeN n : List σ → Option (List σ × List σ)) (fun a b => a = b ∧ b.length = n) := by
  constructor
  · intro s a rest hs
    unfold takeN at hs
    split at hs
    · rename_i hle
      cases hs
      exact ⟨s.take n, ⟨rfl, List.length_take_of_le hle⟩, (List.take_append_drop n s).symm⟩
    · cases hs
  · rintro a b rest ⟨rfl, rfl⟩
    unfold takeN
    rw [if_pos (by rw [List.length_append]; exact Nat.le_add_right _ _), List.take_left' rfl,
      List.drop_left' rfl]

end IntroOS
