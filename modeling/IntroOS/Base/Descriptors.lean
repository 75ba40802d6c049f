import Mathlib.Data.Finset.Card
import Mathlib.Data.Finset.Range
import Mathlib.Order.Interval.Finset.Nat

/-! # File descriptors

The descriptors that a process has in use, out of a limited number of them. `open` takes the lowest
one that is free, and fails if there is none; `close` gives one back.

1. **One call** (`openFd_spec`, `openFd_eq_none_iff`, `closeFd_openFd`);
2. **A number of calls** (`openMany_iff`): as many as there is room for;
3. **Round trip** (`Opened.closeAll`): closing what was opened, in any order, leads back.
-/

namespace IntroOS

/-- The descriptors of a process that may have `limit` of them. -/
structure Table (limit : Nat) where
  used : Finset Nat
  lt : used ⊆ Finset.range limit

namespace Table

variable {limit : Nat} {t t' : Table limit} {fd : Nat}

theorem ext_used (h : t.used = t'.used) : t = t' := by
  cases t
  cases t'
  cases h
  rfl

/-- How many descriptors are free. -/
def room (t : Table limit) : Nat := limit - t.used.card

theorem card_add_room (t : Table limit) : t.used.card + t.room = limit := by
  have hle := Finset.card_le_card t.lt
  rw [Finset.card_range] at hle
  unfold room
  omega

/-- The lowest descriptor that is free. -/
def free? (t : Table limit) : Option Nat := (List.range limit).find? fun fd => decide (fd ∉ t.used)

/-- A system call that makes a descriptor. -/
def openFd (t : Table limit) : Option (Nat × Table limit) :=
  match h : t.free? with
  | none => none
  | some fd => some (fd, {
      used := insert fd t.used
      lt := Finset.insert_subset
        (Finset.mem_range.mpr (List.mem_range.mp (List.mem_of_find?_eq_some h))) t.lt })

/-- `close`. -/
def closeFd (t : Table limit) (fd : Nat) : Table limit where
  used := t.used.erase fd
  lt := (Finset.erase_subset fd t.used).trans t.lt

/-- The standard streams are in use, and `n` descriptors more are allowed. -/
def standard (n : Nat) : Table (n + 3) where
  used := Finset.range 3
  lt := Finset.range_subset_range.mpr (Nat.le_add_left 3 n)

/-! ## One call -/

/-- A new descriptor was not in use before, and takes up room. -/
theorem openFd_spec (h : t.openFd = some (fd, t')) :
    fd ∉ t.used ∧ t'.used = insert fd t.used ∧ t'.room + 1 = t.room := by
  unfold openFd at h
  split at h
  · cases h
  · rename_i hfree
    cases h
    have hnot : fd ∉ t.used := by simpa using List.find?_some hfree
    have hmem := Finset.mem_range.mpr (List.mem_range.mp (List.mem_of_find?_eq_some hfree))
    refine ⟨hnot, rfl, ?_⟩
    have hold := t.card_add_room
    have hnew := card_add_room ⟨insert fd t.used, Finset.insert_subset hmem t.lt⟩
    simp only [Finset.card_insert_of_notMem hnot] at hnew
    omega

/-- It fails only where no descriptor is free. -/
theorem openFd_eq_none_iff : t.openFd = none ↔ t.room = 0 := by
  constructor
  · intro h
    have hall : Finset.range limit ⊆ t.used := by
      unfold openFd at h
      split at h
      · rename_i hfree
        intro fd hfd
        have hnone := List.find?_eq_none.mp hfree fd (List.mem_range.mpr (Finset.mem_range.mp hfd))
        simpa using hnone
      · cases h
    have hle := Finset.card_le_card hall
    rw [Finset.card_range] at hle
    unfold room
    omega
  · intro h
    by_contra hsome
    rcases Option.ne_none_iff_exists'.mp hsome with ⟨⟨fd, t'⟩, hopen⟩
    have hroom := (openFd_spec hopen).2.2
    omega

theorem exists_openFd (h : 0 < t.room) : ∃ fd t', t.openFd = some (fd, t') := by
  cases hopen : t.openFd with
  | none =>
    have hroom := openFd_eq_none_iff.mp hopen
    omega
  | some r => exact ⟨r.1, r.2, rfl⟩

theorem closeFd_openFd (h : t.openFd = some (fd, t')) : t'.closeFd fd = t := by
  obtain ⟨hnot, hused, _⟩ := openFd_spec h
  apply ext_used
  show t'.used.erase fd = t.used
  rw [hused, Finset.erase_insert hnot]

/-! ## A number of calls -/

/-- `n` descriptors, in the order in which they are opened. -/
def openMany (t : Table limit) : Nat → Option (List Nat × Table limit)
  | 0 => some ([], t)
  | n + 1 =>
    match t.openMany n with
    | none => none
    | some (fds, t) => t.openFd.map fun r => (fds ++ [r.1], r.2)

def closeAll (t : Table limit) (fds : List Nat) : Table limit := fds.foldl closeFd t

/-- What is known after `n` calls. -/
structure Opened (t : Table limit) (n : Nat) (fds : List Nat) (t' : Table limit) : Prop where
  length : fds.length = n
  nodup : fds.Nodup
  fresh : ∀ fd ∈ fds, fd ∉ t.used
  used : t'.used = t.used ∪ fds.toFinset
  room : t'.room + n = t.room

theorem openMany_spec {n : Nat} {fds : List Nat} (h : t.openMany n = some (fds, t')) :
    Opened t n fds t' := by
  induction n generalizing fds t' with
  | zero =>
    cases h
    exact ⟨rfl, List.nodup_nil, nofun, by simp, rfl⟩
  | succ n ih =>
    unfold openMany at h
    split at h
    · cases h
    · rename_i before t₁ hbefore
      rcases Option.map_eq_some_iff.mp h with ⟨⟨fd, t₂⟩, hopen, heq⟩
      cases heq
      have hn := ih hbefore
      obtain ⟨hnot, hused, hroom⟩ := openFd_spec hopen
      rw [hn.used, Finset.mem_union, not_or, List.mem_toFinset] at hnot
      refine ⟨?_, ?_, ?_, ?_, ?_⟩
      · rw [List.length_append, hn.length]
        rfl
      · rw [List.nodup_append_comm]
        exact List.nodup_cons.mpr ⟨hnot.2, hn.nodup⟩
      · intro fd' hfd'
        rcases List.mem_append.mp hfd' with hold | hnew
        · exact hn.fresh fd' hold
        · rw [List.mem_singleton.mp hnew]
          exact hnot.1
      · rw [hused, hn.used, List.toFinset_append, ← Finset.union_assoc, Finset.insert_eq,
          Finset.union_comm]
        rfl
      · have hroom' := hn.room
        show t₂.room + (n + 1) = t.room
        omega

/-- There is room for `n` calls, or one of them fails. -/
theorem openMany_iff {n : Nat} : (∃ fds t', t.openMany n = some (fds, t')) ↔ n ≤ t.room := by
  constructor
  · rintro ⟨fds, t', h⟩
    have hroom := (openMany_spec h).room
    omega
  · intro hle
    induction n with
    | zero => exact ⟨[], t, rfl⟩
    | succ n ih =>
      rcases ih (by omega) with ⟨fds, t₁, hn⟩
      have hroom := (openMany_spec hn).room
      rcases exists_openFd (show 0 < t₁.room by omega) with ⟨fd, t₂, hopen⟩
      refine ⟨fds ++ [fd], t₂, ?_⟩
      unfold openMany
      rw [hn]
      simp only [hopen, Option.map_some]

/-- The descriptor that the `n`-th of such calls returns. -/
def openNth (t : Table limit) (n : Nat) : Option Nat :=
  (t.openMany n).bind fun r => r.2.openFd.map Prod.fst

theorem openNth_eq_none_iff {n : Nat} : t.openNth n = none ↔ t.room ≤ n := by
  constructor
  · intro hnone
    by_contra hlt
    rcases openMany_iff.mpr (show n + 1 ≤ t.room by omega) with ⟨fds, t', hopen⟩
    unfold openMany at hopen
    split at hopen
    · cases hopen
    · rename_i before t₁ hbefore
      rcases Option.map_eq_some_iff.mp hopen with ⟨r, hr, _⟩
      unfold openNth at hnone
      rw [hbefore, Option.bind_some, hr] at hnone
      cases hnone
  · intro hle
    cases hopen : t.openMany n with
    | none =>
      unfold openNth
      rw [hopen]
      rfl
    | some found =>
      have hroom := (openMany_spec hopen).room
      unfold openNth
      rw [hopen, Option.bind_some, openFd_eq_none_iff.mpr (by omega)]
      rfl

theorem openMany_get {n : Nat} {fds : List Nat} (h : t.openMany n = some (fds, t')) {i : Nat}
    (hi : i < n) : t.openNth i = fds[i]? := by
  induction n generalizing fds t' with
  | zero => omega
  | succ n ih =>
    unfold openMany at h
    split at h
    · cases h
    · rename_i before t₁ hbefore
      rcases Option.map_eq_some_iff.mp h with ⟨r, hr, heq⟩
      cases heq
      have hlen := (openMany_spec hbefore).length
      by_cases hlast : i = n
      · rw [hlast, List.getElem?_append_right (by omega), hlen, Nat.sub_self]
        unfold openNth
        rw [hbefore, Option.bind_some, hr]
        rfl
      · rw [List.getElem?_append_left (by omega)]
        exact ih hbefore (by omega)

/-! ## Round trip -/

theorem closeAll_used (t : Table limit) (fds : List Nat) :
    (t.closeAll fds).used = t.used \ fds.toFinset := by
  unfold closeAll
  induction fds generalizing t with
  | nil => simp
  | cons fd fds ih =>
    rw [List.foldl_cons, ih, List.toFinset_cons, Finset.sdiff_insert]
    exact Finset.erase_sdiff_comm t.used fds.toFinset fd

/-- Closing what was opened, in any order, leads back. -/
theorem Opened.closeAll {n : Nat} {fds fds' : List Nat} (h : Opened t n fds t')
    (hperm : fds'.Perm fds) : t'.closeAll fds' = t := by
  apply ext_used
  rw [closeAll_used, h.used, List.toFinset_eq_of_perm _ _ hperm]
  apply Finset.union_sdiff_cancel_right
  rw [Finset.disjoint_right]
  intro fd hfd
  exact h.fresh fd (List.mem_toFinset.mp hfd)

/-- A descriptor that was in use meanwhile leaves no trace. -/
theorem Opened.closeFd {n : Nat} {fds : List Nat} {t₁ : Table limit}
    (hopen : t.openFd = some (fd, t₁)) (h : Opened t₁ n fds t') : Opened t n fds (t'.closeFd fd) := by
  obtain ⟨hnot, hused, hroom⟩ := openFd_spec hopen
  have hother : fd ∉ fds := by
    intro hmem
    apply h.fresh fd hmem
    rw [hused]
    exact Finset.mem_insert_self fd t.used
  have hmem : fd ∈ t'.used := by
    rw [h.used, hused]
    exact Finset.mem_union_left _ (Finset.mem_insert_self fd t.used)
  refine ⟨h.length, h.nodup, ?_, ?_, ?_⟩
  · intro fd' hfd' hold
    apply h.fresh fd' hfd'
    rw [hused]
    exact Finset.mem_insert_of_mem hold
  · show t'.used.erase fd = _
    rw [h.used, hused, Finset.insert_union, Finset.erase_insert]
    rw [Finset.mem_union, not_or, List.mem_toFinset]
    exact ⟨hnot, hother⟩
  · have hcard : (t'.closeFd fd).used.card + 1 = t'.used.card := Finset.card_erase_add_one hmem
    have hbefore := t'.card_add_room
    have hafter := (t'.closeFd fd).card_add_room
    have hmany := h.room
    omega

end Table

end IntroOS
