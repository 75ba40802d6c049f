import Mathlib.Algebra.Ring.Nat
import Mathlib.Data.List.AList

/-! # Blocks of memory

The blocks that a program has in use, by their addresses, with what is in them. A pointer is NULL
or an address. Something of no size needs no block, and its pointer is NULL.

1. **One call**: `give` makes a block, `free` gives it back and fails on an address that is not in
   use;
2. **Pointers** (`Holds`): what a pointer leads to, and that the calls on other blocks do not
   change it;
3. **Sizes** (`size_give`, `Holds.free`): how much is in use;
4. **Allocators**: where the new blocks are put.
-/

namespace IntroOS

universe u v

variable {A : Type u} {V : Type v}

/-- The blocks in use. -/
abbrev Blocks (A : Type u) (V : Type v) := AList fun _ : A => V

namespace Blocks

/-- What the blocks need together. -/
def size (f : V → Nat) (m : Blocks A V) : Nat := (m.entries.map fun e => f e.2).sum

variable [DecidableEq A]

/-- A block at `a` for `v`, if there is something to put into it. -/
def give (m : Blocks A V) (a : A) : Option V → Option A × Blocks A V
  | none => (none, m)
  | some v => (some a, m.insert a v)

/-- `free`. It does nothing for NULL. -/
def free (m : Blocks A V) : Option A → Option (Blocks A V)
  | none => some m
  | some a => if a ∈ m then some (m.erase a) else none

/-- The pointer leads to `v`, or is NULL where there is nothing. -/
def Holds (m : Blocks A V) : Option A → Option V → Prop
  | none, none => True
  | some a, some v => m.lookup a = some v
  | none, some _ | some _, none => False

variable {m m' : Blocks A V} {a : A} {p q : Option A} {v w : Option V} {f : V → Nat}

/-! ## Pointers -/

theorem mem_of_lookup {x : V} (h : m.lookup a = some x) : a ∈ m :=
  AList.lookup_isSome.mp (by rw [h]; rfl)

/-- A pointer to a block does not lead to an address that is not in use. -/
theorem Holds.ne_new (h : Holds m p v) (ha : a ∉ m) : p ≠ some a := by
  rintro rfl
  cases v with
  | none => exact h
  | some x => exact ha (mem_of_lookup h)

/-- Pointers to different things are different. -/
theorem Holds.ne (h : Holds m p v) (h' : Holds m q w) (hvw : v ≠ w) : p ≠ q := by
  rintro rfl
  cases p with
  | none =>
    cases v <;> cases w <;> first | exact hvw rfl | exact h | exact h'
  | some a =>
    cases v with
    | none => exact h
    | some x =>
      cases w with
      | none => exact h'
      | some y =>
        have hsame : some x = some y := h.symm.trans h'
        exact hvw hsame

theorem Holds.insert (h : Holds m p v) (ha : a ∉ m) (x : V) : Holds (m.insert a x) p v := by
  cases p with
  | none =>
    cases v with
    | none => trivial
    | some y => exact False.elim h
  | some b =>
    cases v with
    | none => exact False.elim h
    | some y =>
      have hne : b ≠ a := by
        rintro rfl
        exact ha (mem_of_lookup h)
      show (m.insert a x).lookup b = some y
      rw [AList.lookup_insert_ne hne]
      exact h

/-- A new block changes no other one. -/
theorem Holds.give (h : Holds m p v) (ha : a ∉ m) (w : Option V) : Holds (m.give a w).2 p v := by
  cases w with
  | none => exact h
  | some x => exact h.insert ha x

/-- The new pointer leads to what was put there. -/
theorem holds_give (m : Blocks A V) (a : A) (v : Option V) :
    Holds (m.give a v).2 (m.give a v).1 v := by
  cases v with
  | none => trivial
  | some x => exact AList.lookup_insert m

theorem give_eq_some {b : A} (h : (m.give a v).1 = some b) : some b = some a := by
  cases v with
  | none => cases h
  | some x => exact h.symm

theorem notMem_give (ha : a ∉ m) {b : A} (hne : a ≠ b) (v : Option V) : a ∉ (m.give b v).2 := by
  cases v with
  | none => exact ha
  | some x =>
    intro hmem
    rcases (AList.mem_insert m).mp hmem with heq | hold
    · exact hne heq
    · exact ha hold

theorem free_some (m : Blocks A V) (a : A) :
    m.free (some a) = if a ∈ m then some (m.erase a) else none := rfl

theorem Holds.erase (h : Holds m q w) (hne : q ≠ some a) : Holds (m.erase a) q w := by
  cases q with
  | none =>
    cases w with
    | none => trivial
    | some y => exact False.elim h
  | some b =>
    cases w with
    | none => exact False.elim h
    | some y =>
      have hba : b ≠ a := by
        rintro rfl
        exact hne rfl
      show (m.erase a).lookup b = some y
      rw [AList.lookup_erase_ne hba]
      exact h

/-- A block that is given back is not another one. -/
theorem Holds.of_free (h : Holds m q w) (hne : p = none ∨ q ≠ p) (hfree : m.free p = some m') :
    Holds m' q w := by
  cases p with
  | none =>
    cases hfree
    exact h
  | some a =>
    rw [free_some] at hfree
    split at hfree
    · cases hfree
      exact h.erase (hne.resolve_left (Option.some_ne_none a))
    · cases hfree

/-! ## Sizes -/

theorem size_insert (ha : a ∉ m) (x : V) : size f (m.insert a x) = size f m + f x := by
  unfold size
  rw [AList.entries_insert_of_notMem ha, List.map_cons, List.sum_cons, Nat.add_comm]

theorem size_give (ha : a ∉ m) (v : Option V) :
    size f (m.give a v).2 = size f m + v.elim 0 f := by
  cases v with
  | none => rfl
  | some x => exact size_insert ha x

theorem size_erase {x : V} (h : m.lookup a = some x) : size f (m.erase a) + f x = size f m := by
  rcases List.exists_of_kerase (mem_of_lookup h) with ⟨y, front, back, _, hentries, hrest⟩
  have hmem : Sigma.mk a y ∈ m.entries := by
    rw [hentries]
    exact List.mem_append_right _ List.mem_cons_self
  have hsame : m.lookup a = some y := AList.mem_lookup_iff.mpr hmem
  rw [h] at hsame
  cases hsame
  unfold size
  show ((m.entries.kerase a).map fun e => f e.2).sum + f x = _
  rw [hrest, hentries]
  simp only [List.map_append, List.map_cons, List.sum_append, List.sum_cons]
  omega

/-- A block that is in use can be given back, and its room is free again. -/
theorem Holds.free (h : Holds m p v) :
    ∃ m', m.free p = some m' ∧ size f m' + v.elim 0 f = size f m := by
  cases p with
  | none =>
    cases v with
    | none => exact ⟨m, rfl, rfl⟩
    | some x => exact False.elim h
  | some a =>
    cases v with
    | none => exact False.elim h
    | some x =>
      refine ⟨m.erase a, ?_, size_erase h⟩
      rw [free_some, if_pos (mem_of_lookup h)]

end Blocks

/-! ## Allocators -/

/-- Where `malloc` puts a block: at an address that is not in use. -/
structure Allocator (A : Type u) (V : Type v) where
  place : Blocks A V → A
  fresh : ∀ m, place m ∉ m

theorem le_foldr_max {keys : List Nat} {k : Nat} (h : k ∈ keys) : k ≤ keys.foldr max 0 := by
  induction keys with
  | nil => exact absurd h List.not_mem_nil
  | cons key keys ih =>
    rw [List.foldr_cons]
    rcases List.mem_cons.mp h with heq | hrest
    · rw [heq]
      exact Nat.le_max_left key _
    · exact Nat.le_trans (ih hrest) (Nat.le_max_right key _)

/-- The address behind all that are in use. -/
def Allocator.behind (V : Type v) : Allocator Nat V where
  place m := m.keys.foldr max 0 + 1
  fresh m := by
    intro hmem
    have hle := le_foldr_max (AList.mem_keys.mp hmem)
    omega

end IntroOS
