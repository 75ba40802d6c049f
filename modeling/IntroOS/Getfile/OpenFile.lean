import IntroOS.Base.Block
import IntroOS.Base.Loop

/-! # The directories of a local file

`openFile` of `gfclient_download.c` makes the directories in front of a file. It cuts the path in
place at every `/`, calls `mkdir`, and puts the `/` back.

1. **Loop**: the memory of the path, and the position of `prev`;
2. **Directories** (`parents`): the starts of the path in front of a `/`;
3. at the head of the loop the path is whole again (`Ready`).
-/

namespace IntroOS.Getfile.OpenFile

/-! ## Loop -/

/-- The result of `mkdir`. -/
inductive Mkdir where
  | ok
  | eexist
  /-- any other error -/
  | failed
deriving DecidableEq, Repr

/-- What ends the program. -/
inductive Stop where
  /-- `exit(EXIT_FAILURE)` -/
  | unableToCreate
  | damage (d : Damage)
deriving DecidableEq, Repr

/-- `strchr(mem + start, c)`, as an index of `mem`. -/
def strchr (mem : Bytes) (start : Nat) (c : UInt8) : Except Damage (Option Nat) :=
  match cString (mem.drop start) with
  | none => .error .unterminated
  | some s => .ok ((s.findIdx? (· == c)).map (start + ·))

/-- The memory at `path`, and the index of `prev` in it. `made` is history: what `mkdir` was called
with. -/
structure St where
  mem : Bytes
  prev : Nat
  made : List Bytes
deriving DecidableEq, Repr

/-- In front of the loop. -/
def St.start (mem : Bytes) : St := ⟨mem, 0, []⟩

/-- A round of the loop. `mkdir k` is the result of the `k`-th call. The loop ends in front of
`fopen`. -/
def openRound (mkdir : Nat → Mkdir) (s : St) : St ⊕ Except Stop St :=
  match strchr s.mem (s.prev + 1) 47 with
  | .error d => .inr (.error (.damage d))
  | .ok none => .inr (.ok s)
  | .ok (some cur) =>
    let mem := s.mem.set cur 0
    if mkdir s.made.length = .failed then .inr (.error .unableToCreate)
    else .inl ⟨mem.set cur 47, cur, s.made ++ [text mem]⟩

/-! ## Directories -/

/-- A `/` that is not the first byte. -/
def isSlash (path : Bytes) (i : Nat) : Bool := 1 ≤ i && path[i]? == some 47

/-- The starts of `path` that end in front of a `/` at one of the indices `1, .., m - 1`. -/
def parentsBelow (path : Bytes) (m : Nat) : List Bytes :=
  ((List.range m).filter (isSlash path)).map fun i => path.take i

/-- All of them, the shorter ones first. -/
def parents (path : Bytes) : List Bytes := parentsBelow path path.length

example : parents (ascii "a//b/") = [ascii "a", ascii "a/", ascii "a//b"] := by decide

theorem parentsBelow_skip {path : Bytes} {m k : Nat} (hle : m ≤ k)
    (hnone : ∀ i, m ≤ i → i < k → path[i]? ≠ some 47) :
    parentsBelow path k = parentsBelow path m := by
  induction k, hle using Nat.le_induction with
  | base => rfl
  | succ k hle ih =>
    have hk : ¬ isSlash path k = true := by
      unfold isSlash
      simp only [Bool.and_eq_true, beq_iff_eq, not_and]
      exact fun _ => hnone k hle (Nat.lt_succ_self k)
    have hrest := ih fun i hi hlt => hnone i hi (Nat.lt_succ_of_lt hlt)
    unfold parentsBelow at hrest ⊢
    rw [List.range_succ, List.filter_append, List.filter_cons_of_neg hk, List.filter_nil,
      List.append_nil, hrest]

theorem parentsBelow_slash {path : Bytes} {m : Nat} (hpos : 1 ≤ m) (hm : path[m]? = some 47) :
    parentsBelow path (m + 1) = parentsBelow path m ++ [path.take m] := by
  have hslash : isSlash path m = true := by
    unfold isSlash
    simp [hpos, hm]
  unfold parentsBelow
  rw [List.range_succ, List.filter_append, List.filter_cons_of_pos hslash, List.filter_nil,
    List.map_append]
  rfl

/-! ## Rounds -/

section Rounds

variable {path rest : Bytes}

/-- The first `/` from `start` on. -/
theorem strchr_cases (h0 : 0 ∉ path) (rest : Bytes) {start : Nat} (hstart : start ≤ path.length) :
    (strchr (path ++ 0 :: rest) start 47 = .ok none ∧ ∀ i ≥ start, path[i]? ≠ some 47) ∨
    ∃ cur, strchr (path ++ 0 :: rest) start 47 = .ok (some cur) ∧ start ≤ cur ∧
      path[cur]? = some 47 ∧ ∀ i, start ≤ i → i < cur → path[i]? ≠ some 47 := by
  have hfree : 0 ∉ path.drop start := fun h => h0 (List.mem_of_mem_drop h)
  have hstring : cString ((path ++ 0 :: rest).drop start) = some (path.drop start) := by
    rw [List.drop_append_of_le_length hstart]
    exact cString_nul hfree rest
  have hindex : ∀ i ≥ start, path[i]? = (path.drop start)[i - start]? := by
    intro i hi
    rw [List.getElem?_drop, Nat.add_sub_cancel' hi]
  unfold strchr
  simp only [hstring]
  cases hfind : (path.drop start).findIdx? (· == 47) with
  | none =>
    refine Or.inl ⟨rfl, ?_⟩
    intro i hi hslash
    rw [hindex i hi] at hslash
    have hmem := List.mem_of_getElem? hslash
    have hno := List.findIdx?_eq_none_iff.mp hfind 47 hmem
    exact absurd hno (by decide)
  | some j =>
    rcases List.findIdx?_eq_some_iff_getElem.mp hfind with ⟨hj, hslash, hbefore⟩
    refine Or.inr ⟨start + j, rfl, Nat.le_add_right start j, ?_, ?_⟩
    · rw [hindex _ (Nat.le_add_right start j), Nat.add_sub_cancel_left,
        List.getElem?_eq_getElem hj, eq_of_beq hslash]
    · intro i hi hlt hslash'
      have hij : i - start < j := by omega
      rw [hindex i hi, List.getElem?_eq_getElem (by omega)] at hslash'
      have hno := hbefore (i - start) hij
      rw [Option.some.inj hslash'] at hno
      exact absurd hno (by decide)

/-- The path, cut at `cur`. -/
theorem text_cut (h0 : 0 ∉ path) (rest : Bytes) {cur : Nat} (hcur : cur < path.length) :
    text ((path ++ 0 :: rest).set cur 0) = path.take cur := by
  have hfree : 0 ∉ path.take cur := fun h => h0 (List.mem_of_mem_take h)
  rw [List.set_append_left _ _ hcur, List.set_eq_take_append_cons_drop, if_pos hcur,
    List.append_assoc, List.cons_append, text_append_nul hfree]

/-- What was cut is put back. -/
theorem set_restore (rest : Bytes) {cur : Nat} (hcur : path[cur]? = some 47) :
    ((path ++ 0 :: rest).set cur 0).set cur 47 = path ++ 0 :: rest := by
  rcases List.getElem?_eq_some_iff.mp hcur with ⟨hlt, hslash⟩
  have hself : path.set cur 47 = path := by
    rw [← hslash]
    exact List.set_getElem_self hlt
  rw [List.set_set, List.set_append_left _ _ hlt, hself]

/-- At the head of the loop. -/
structure Ready (path rest : Bytes) (s : St) : Prop where
  mem : s.mem = path ++ 0 :: rest
  prev : s.prev < path.length
  made : s.made = parentsBelow path (s.prev + 1)

theorem ready_start (hne : path ≠ []) (rest : Bytes) :
    Ready path rest (St.start (path ++ 0 :: rest)) where
  mem := rfl
  prev := List.length_pos_iff.mpr hne
  made := rfl

/-- A round goes on to the next `/`, or there is none. -/
theorem Ready.cases {s : St} (h : Ready path rest s) (h0 : 0 ∉ path) {mkdir : Nat → Mkdir}
    (hmkdir : ∀ k, mkdir k ≠ .failed) :
    (openRound mkdir s = .inr (.ok s) ∧ s.made = parents path) ∨
    ∃ s', openRound mkdir s = .inl s' ∧ Ready path rest s' ∧ s.prev < s'.prev := by
  have hprev : s.prev + 1 ≤ path.length := h.prev
  rcases strchr_cases h0 rest hprev with
    ⟨hnone, hno⟩ | ⟨cur, hsome, hle, hcur, hno⟩
  · left
    constructor
    · unfold openRound
      rw [h.mem, hnone]
    · -- no `/` is left, so these were all
      rw [h.made]
      exact (parentsBelow_skip hprev fun i hi _ => hno i hi).symm
  · right
    rcases List.getElem?_eq_some_iff.mp hcur with ⟨hlt, _⟩
    refine ⟨⟨path ++ 0 :: rest, cur, s.made ++ [path.take cur]⟩, ?_, ⟨rfl, hlt, ?_⟩, hle⟩
    · unfold openRound
      rw [h.mem, hsome]
      simp only [if_neg (hmkdir _), text_cut h0 rest hlt, set_restore rest hcur]
    · rw [h.made]
      dsimp only
      rw [parentsBelow_slash (by omega) hcur, parentsBelow_skip hle hno]

end Rounds

/-- **`openFile`.** If every `mkdir` succeeds or finds the directory there, the loop ends, `mkdir`
was called for every directory in front of the file and the shorter ones first, and the path is
what it was. -/
theorem openFile_makes_parents (path : Str) (hne : path.bytes ≠ []) (rest : Bytes)
    (mkdir : Nat → Mkdir) (hmkdir : ∀ k, mkdir k ≠ .failed) :
    ∃ s, Returns (openRound mkdir) (St.start (path.bytes ++ 0 :: rest)) (.ok s) ∧
      s.made = parents path.bytes ∧ s.mem = path.bytes ++ 0 :: rest := by
  -- `prev` comes closer to the end in every round
  have hround : ∀ s s', Ready path.bytes rest s → openRound mkdir s = .inl s' →
      Ready path.bytes rest s' ∧ path.bytes.length - s'.prev < path.bytes.length - s.prev := by
    intro s s' hready hround
    rcases hready.cases path.nul_free hmkdir with ⟨hexit, _⟩ | ⟨s₁, hround₁, hready₁, hlt⟩
    · rw [hexit] at hround
      cases hround
    · rw [hround₁] at hround
      cases hround
      have hprev := hready₁.prev
      exact ⟨hready₁, by omega⟩
  have hexit : ∀ s r, Ready path.bytes rest s → openRound mkdir s = .inr r →
      ∃ s, r = .ok s ∧ s.made = parents path.bytes ∧ s.mem = path.bytes ++ 0 :: rest := by
    intro s r hready hexit
    rcases hready.cases path.nul_free hmkdir with ⟨hexit₁, hmade⟩ | ⟨s₁, hround, _, _⟩
    · rw [hexit₁] at hexit
      cases hexit
      exact ⟨s, rfl, hmade, hready.mem⟩
    · rw [hround] at hexit
      cases hexit
  rcases loop_ends (fun s => path.bytes.length - s.prev) hround hexit (ready_start hne rest)
    (Nat.lt_succ_self _) with ⟨r, hloop, s, rfl, hmade, hmem⟩
  exact ⟨s, ⟨_, hloop⟩, hmade, hmem⟩

theorem openFile_makes_parents_nested : ∃ s,
    Returns (openRound fun _ => .eexist) (St.start (ascii "/a//b" ++ 0 :: [7])) (.ok s) ∧
      s.made = parents (ascii "/a//b") ∧ s.mem = ascii "/a//b" ++ 0 :: [7] :=
  openFile_makes_parents ⟨ascii "/a//b", by decide⟩ (by decide) [7] (fun _ => .eexist)
    fun _ => by decide

end IntroOS.Getfile.OpenFile
