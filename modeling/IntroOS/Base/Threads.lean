import Mathlib.Algebra.Order.BigOperators.Group.Finset
import Mathlib.Logic.Function.Basic

/-! # Families of thread states

The threads of a program are a family of states, and a step changes one of them with
`Function.update`. What holds of every thread, of some thread, and of the number of threads
with a property follows such a change as stated here.
-/

namespace IntroOS

variable {ι α : Type*} [DecidableEq ι]

/-- A property of every thread survives a change of one thread. -/
theorem forall_update {P : α → Prop} {f : ι → α}
    (hf : ∀ i, P (f i)) (i : ι) {v : α} (hv : P v) : ∀ j, P (Function.update f i v j) :=
  (Function.forall_update_iff f fun _ x => P x).mpr ⟨hv, fun j _ => hf j⟩

/-- A thread with a property after a change of one thread is the changed one or another. -/
theorem exists_of_update {P : α → Prop} {f : ι → α} {i : ι} {v : α}
    (h : ∃ j, P (Function.update f i v j)) : P v ∨ ∃ j, P (f j) := by
  rcases (Function.exists_update_iff f fun _ x => P x).mp h with hv | ⟨j, _, hj⟩
  · exact Or.inl hv
  · exact Or.inr ⟨j, hj⟩

/-- There still is a thread with a property, unless the changed one was it and gave it up. -/
theorem exists_update {P : α → Prop} {f : ι → α} {i : ι} {v : α} (h : ∃ j, P (f j))
    (hv : P (f i) → P v) : ∃ j, P (Function.update f i v j) := by
  rcases h with ⟨j, hj⟩
  rw [Function.exists_update_iff f fun _ x => P x]
  by_cases hji : j = i
  · rw [hji] at hj
    exact Or.inl (hv hj)
  · exact Or.inr ⟨j, hji, hj⟩

/-- What has a value keeps one. -/
theorem update_some_ne_none {β : Type*} {f : ι → Option β} {i j : ι} (b : β)
    (h : j = i ∨ f j ≠ none) : Function.update f i (some b) j ≠ none := by
  by_cases hj : j = i
  · rw [hj, Function.update_self]
    exact Option.some_ne_none b
  · rw [Function.update_of_ne hj]
    exact h.resolve_left hj

/-! ## At most one thread -/

section Slot

variable {β : Type*}

/-- At most one thread has a value of `g`, and the list holds just this value. -/
structure Slot (g : α → Option β) (f : ι → α) (l : List β) : Prop where
  unique : ∀ i j, g (f i) ≠ none → g (f j) ≠ none → i = j
  full : ∀ i b, g (f i) = some b → l = [b]
  empty : (∀ i, g (f i) = none) → l = []

variable {g : α → Option β} {f : ι → α} {l : List β} {i : ι} {v : α}

omit [DecidableEq ι] in
theorem Slot.nil (h : ∀ i, g (f i) = none) : Slot g f [] := by
  refine ⟨?_, ?_, ?_⟩
  · intro i _ hi
    exact absurd (h i) hi
  · intro i b hb
    rw [h i] at hb
    cases hb
  · intro _
    rfl

/-- A change that `g` does not see. -/
theorem Slot.keep (h : Slot g f l) (hv : g v = g (f i)) : Slot g (Function.update f i v) l := by
  have hsame : ∀ j, g (Function.update f i v j) = g (f j) := by
    intro j
    by_cases hj : j = i
    · rw [hj, Function.update_self, hv]
    · rw [Function.update_of_ne hj]
  refine ⟨?_, ?_, ?_⟩
  · intro j k
    rw [hsame j, hsame k]
    exact h.unique j k
  · intro j b
    rw [hsame j]
    exact h.full j b
  · intro hnone
    apply h.empty
    intro j
    rw [← hsame j]
    exact hnone j

/-- The first thread with a value. -/
theorem Slot.put (h : Slot g f l) (hnone : ∀ j, g (f j) = none) {b : β} (hv : g v = some b) :
    Slot g (Function.update f i v) (l ++ [b]) := by
  have honly : ∀ j, g (Function.update f i v j) ≠ none → j = i := by
    intro j hj
    by_contra hne
    rw [Function.update_of_ne hne] at hj
    exact hj (hnone j)
  refine ⟨?_, ?_, ?_⟩
  · intro j k hj hk
    exact (honly j hj).trans (honly k hk).symm
  · intro j c hc
    have hj := honly j (by rw [hc]; exact Option.some_ne_none c)
    rw [hj, Function.update_self, hv] at hc
    rw [h.empty hnone, Option.some.inj hc, List.nil_append]
  · intro hall
    have hi := hall i
    rw [Function.update_self, hv] at hi
    cases hi

/-- The thread gives its value up. -/
theorem Slot.clear [BEq β] [LawfulBEq β] (h : Slot g f l) {b : β} (hb : g (f i) = some b) (hv : g v = none) :
    Slot g (Function.update f i v) (l.erase b) := by
  have hnone : ∀ j, g (Function.update f i v j) = none := by
    intro j
    by_cases hj : j = i
    · rw [hj, Function.update_self, hv]
    · rw [Function.update_of_ne hj]
      by_contra hne
      exact hj (h.unique j i hne (by rw [hb]; exact Option.some_ne_none b))
  refine ⟨?_, ?_, ?_⟩
  · intro j k hj
    exact absurd (hnone j) hj
  · intro j c hc
    rw [hnone j] at hc
    cases hc
  · intro _
    rw [h.full i b hb, List.erase_cons_head]

end Slot

/-! ## A queue and its threads -/

section InHand

variable {β κ : Type*} {key : κ → β} {g : α → Option β} {q : List κ} {f : ι → α} {i : ι} {v : α}
  {j : κ} {b : β}

/-- `b` waits in the queue, or a thread has it. -/
def InHand (key : κ → β) (g : α → Option β) (q : List κ) (f : ι → α) (b : β) : Prop :=
  (∃ j ∈ q, key j = b) ∨ ∃ i, g (f i) = some b

omit [DecidableEq ι] in
theorem inHand_append : InHand key g (q ++ [j]) f b ↔ InHand key g q f b ∨ key j = b := by
  constructor
  · rintro (⟨k, hk, hb⟩ | hthread)
    · rcases List.mem_append.mp hk with hold | hnew
      · exact Or.inl (Or.inl ⟨k, hold, hb⟩)
      · rw [List.mem_singleton.mp hnew] at hb
        exact Or.inr hb
    · exact Or.inl (Or.inr hthread)
  · rintro ((⟨k, hk, hb⟩ | hthread) | hb)
    · exact Or.inl ⟨k, List.mem_append_left _ hk, hb⟩
    · exact Or.inr hthread
    · exact Or.inl ⟨j, List.mem_append_right _ List.mem_cons_self, hb⟩

/-- A thread goes on, and has what it had. -/
theorem inHand_move (hv : g v = g (f i)) :
    InHand key g q (Function.update f i v) b ↔ InHand key g q f b := by
  constructor
  · rintro (hqueue | hthread)
    · exact Or.inl hqueue
    · rcases exists_of_update (P := fun x => g x = some b) hthread with hnew | hold
      · exact Or.inr ⟨i, hv.symm.trans hnew⟩
      · exact Or.inr hold
  · rintro (hqueue | hthread)
    · exact Or.inl hqueue
    · exact Or.inr (exists_update (P := fun x => g x = some b) hthread hv.trans)

/-- A thread without anything takes the first of the queue. -/
theorem inHand_take (hi : g (f i) = none) (hv : g v = some (key j)) :
    InHand key g q (Function.update f i v) b ↔ InHand key g (j :: q) f b := by
  constructor
  · rintro (⟨k, hk, hb⟩ | hthread)
    · exact Or.inl ⟨k, List.mem_cons_of_mem _ hk, hb⟩
    · rcases exists_of_update (P := fun x => g x = some b) hthread with hnew | hold
      · exact Or.inl ⟨j, List.mem_cons_self, Option.some.inj (hv.symm.trans hnew)⟩
      · exact Or.inr hold
  · rintro (⟨k, hk, hb⟩ | hthread)
    · rcases List.mem_cons.mp hk with rfl | hrest
      · refine Or.inr ⟨i, ?_⟩
        rw [Function.update_self, hv, hb]
      · exact Or.inl ⟨k, hrest, hb⟩
    · refine Or.inr (exists_update (P := fun x => g x = some b) hthread ?_)
      intro hsome
      rw [hi] at hsome
      cases hsome

/-- A thread gives up what it has. -/
theorem InHand.of_clear (hv : g v = none) (h : InHand key g q (Function.update f i v) b) :
    InHand key g q f b := by
  rcases h with hqueue | hthread
  · exact Or.inl hqueue
  · rcases exists_of_update (P := fun x => g x = some b) hthread with hnew | hold
    · rw [hv] at hnew
      cases hnew
    · exact Or.inr hold

theorem InHand.clear (h : InHand key g q f b) (hi : g (f i) ≠ some b) :
    InHand key g q (Function.update f i v) b := by
  rcases h with hqueue | hthread
  · exact Or.inl hqueue
  · exact Or.inr (exists_update (P := fun x => g x = some b) hthread fun hb => absurd hb hi)

end InHand

/-! ## Owners -/

section Owned

variable {β : Type*} {g : α → Option β} {q : List β} {f : ι → α} {i : ι} {v : α} {b : β}

/-- What waits in the queue waits there once, and what a thread has is its own. -/
structure Owned (g : α → Option β) (q : List β) (f : ι → α) : Prop where
  queue : q.Nodup
  apart : ∀ i b, g (f i) = some b → b ∉ q
  unique : ∀ i j b, g (f i) = some b → g (f j) = some b → i = j

omit [DecidableEq ι] in
theorem Owned.nil (h : ∀ i, g (f i) = none) : Owned g [] f := by
  refine ⟨List.nodup_nil, ?_, ?_⟩
  · intro i b hb
    rw [h i] at hb
    cases hb
  · intro i _ b hb
    rw [h i] at hb
    cases hb

/-- A thread goes on with something that nobody else has. -/
theorem Owned.update (h : Owned g q f)
    (hv : ∀ b, g v = some b → b ∉ q ∧ ∀ j, g (f j) = some b → j = i) :
    Owned g q (Function.update f i v) := by
  refine ⟨h.queue, ?_, ?_⟩
  · intro j b hb
    by_cases hj : j = i
    · rw [hj, Function.update_self] at hb
      exact (hv b hb).1
    · rw [Function.update_of_ne hj] at hb
      exact h.apart j b hb
  · intro j k b hj hk
    by_cases hji : j = i
    · rw [hji, Function.update_self] at hj
      by_cases hki : k = i
      · rw [hji, hki]
      · rw [Function.update_of_ne hki] at hk
        rw [hji, (hv b hj).2 k hk]
    · rw [Function.update_of_ne hji] at hj
      by_cases hki : k = i
      · rw [hki, Function.update_self] at hk
        rw [hki, (hv b hk).2 j hj]
      · rw [Function.update_of_ne hki] at hk
        exact h.unique j k b hj hk

/-- With what it had. -/
theorem Owned.keep (h : Owned g q f) (hv : g v = g (f i)) : Owned g q (Function.update f i v) := by
  apply h.update
  intro b hb
  rw [hv] at hb
  exact ⟨h.apart i b hb, fun j hj => h.unique j i b hj hb⟩

theorem Owned.clear (h : Owned g q f) (hv : g v = none) : Owned g q (Function.update f i v) := by
  apply h.update
  intro b hb
  rw [hv] at hb
  cases hb

/-- A thread takes the first of the queue. -/
theorem Owned.take (h : Owned g (b :: q) f) (hv : g v = some b) :
    Owned g q (Function.update f i v) := by
  obtain ⟨hnot, hqueue⟩ := List.nodup_cons.mp h.queue
  have hrest : Owned g q f :=
    ⟨hqueue, fun j c hc hmem => h.apart j c hc (List.mem_cons_of_mem b hmem), h.unique⟩
  apply hrest.update
  intro c hc
  rw [hv] at hc
  cases hc
  exact ⟨hnot, fun j hj => absurd List.mem_cons_self (h.apart j b hj)⟩

omit [DecidableEq ι] in
/-- Something new. -/
theorem Owned.append (h : Owned g q f) (hq : b ∉ q) (hf : ∀ i, g (f i) ≠ some b) :
    Owned g (q ++ [b]) f := by
  refine ⟨?_, ?_, h.unique⟩
  · rw [List.nodup_append_comm]
    exact List.nodup_cons.mpr ⟨hq, h.queue⟩
  · intro i c hc hmem
    rcases List.mem_append.mp hmem with hold | hnew
    · exact h.apart i c hc hold
    · rw [List.mem_singleton.mp hnew] at hc
      exact hf i hc

end Owned

/-! ## Counting threads -/

section Count

variable [Fintype ι]

/-- A sum over the threads changes by what the changed thread contributes. -/
theorem sum_update (g : α → Nat) (f : ι → α) (i : ι) (v : α) :
    ∑ j, g (Function.update f i v j) + g (f i) = ∑ j, g (f j) + g v := by
  have hnew := Finset.add_sum_erase Finset.univ (fun j => g (Function.update f i v j))
    (Finset.mem_univ i)
  have hold := Finset.add_sum_erase Finset.univ (fun j => g (f j)) (Finset.mem_univ i)
  have hsame : ∑ j ∈ Finset.univ.erase i, g (Function.update f i v j) =
      ∑ j ∈ Finset.univ.erase i, g (f j) := by
    apply Finset.sum_congr rfl
    intro j hj
    rw [Function.update_of_ne (Finset.ne_of_mem_erase hj)]
  simp only [Function.update_self] at hnew
  omega

/-- The number of threads with a property. -/
def countThreads (p : α → Bool) (f : ι → α) : Nat := ∑ j, (p (f j)).toNat

theorem countThreads_update (p : α → Bool) (f : ι → α) (i : ι) (v : α) :
    countThreads p (Function.update f i v) + (p (f i)).toNat = countThreads p f + (p v).toNat :=
  sum_update (fun x => (p x).toNat) f i v

/-- A step that leaves the other threads where they are. -/
theorem countThreads_of_others {p : α → Bool} {f f' : ι → α} {i : ι}
    (h : ∀ j, j ≠ i → f' j = f j) :
    countThreads p f' + (p (f i)).toNat = countThreads p f + (p (f' i)).toNat := by
  rw [Function.eq_update_iff.mpr ⟨rfl, h⟩, Function.update_self]
  exact countThreads_update p f i (f' i)

/-- A change that the property does not see. -/
theorem countThreads_same {p : α → Bool} {f : ι → α} {i : ι} {v : α} (h : p v = p (f i)) :
    countThreads p (Function.update f i v) = countThreads p f := by
  have hupd := countThreads_update p f i v
  rw [h] at hupd
  omega

/-- A change that does not bring in the property. -/
theorem countThreads_update_le {p : α → Bool} {f : ι → α} {i : ι} {v : α}
    (h : p v = true → p (f i) = true) :
    countThreads p (Function.update f i v) ≤ countThreads p f := by
  have hupd := countThreads_update p f i v
  cases hv : p v with
  | false =>
    rw [hv] at hupd
    simp only [Bool.toNat_false] at hupd
    omega
  | true =>
    rw [h hv, hv] at hupd
    omega

omit [DecidableEq ι] in
theorem countThreads_eq_zero {p : α → Bool} {f : ι → α} :
    countThreads p f = 0 ↔ ∀ i, p (f i) = false := by
  simp [countThreads, Finset.sum_eq_zero_iff]

omit [DecidableEq ι] in
theorem countThreads_pos {p : α → Bool} {f : ι → α} {i : ι} (h : p (f i) = true) :
    0 < countThreads p f := by
  by_contra hzero
  have hall := countThreads_eq_zero.mp (Nat.eq_zero_of_not_pos hzero)
  rw [hall i] at h
  cases h

omit [DecidableEq ι] in
theorem exists_of_countThreads_pos {p : α → Bool} {f : ι → α} (h : 0 < countThreads p f) :
    ∃ i, p (f i) = true := by
  by_contra hno
  have hall : ∀ i, p (f i) = false := by
    intro i
    by_contra hi
    exact hno ⟨i, by simpa using hi⟩
  rw [countThreads_eq_zero.mpr hall] at h
  exact absurd h (Nat.lt_irrefl 0)

omit [DecidableEq ι] in
theorem countThreads_mono {p q : α → Bool} (f : ι → α) (h : ∀ x, p x = true → q x = true) :
    countThreads p f ≤ countThreads q f := by
  unfold countThreads
  apply Finset.sum_le_sum
  intro i _
  have hi := h (f i)
  cases hp : p (f i) with
  | false => exact Nat.zero_le _
  | true => rw [hi hp]

/-- Two threads with the property make the number two at least. -/
theorem eq_of_countThreads_le_one {p : α → Bool} {f : ι → α} (h : countThreads p f ≤ 1) {i j : ι}
    (hi : p (f i) = true) (hj : p (f j) = true) : i = j := by
  by_contra hne
  have hsum := Finset.add_sum_erase Finset.univ (fun k => (p (f k)).toNat) (Finset.mem_univ i)
  have hle : (p (f j)).toNat ≤ ∑ k ∈ Finset.univ.erase i, (p (f k)).toNat := by
    have hmem : j ∈ Finset.univ.erase i := Finset.mem_erase.mpr ⟨Ne.symm hne, Finset.mem_univ j⟩
    exact Finset.single_le_sum (f := fun k => (p (f k)).toNat) (fun _ _ => Nat.zero_le _) hmem
  unfold countThreads at h
  simp only [hi, hj, Bool.toNat_true] at hsum hle
  omega

end Count

end IntroOS
