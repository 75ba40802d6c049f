import IntroOS.Content.Index
import Mathlib.Algebra.Order.Ring.Nat

/-! # Loading the index

A file of rows, each with a key, a blank and a path.

* `indexRound_row`: a round reads the next row;
* `capacityAfter`: how the array grows;
* `indexInit_returns_iff`: the array has room for every row, up to 2^30 of them.
-/

namespace IntroOS.Content

/-! ## Rows -/

structure Row where
  key : Bytes
  blank : UInt8
  path : Bytes
deriving DecidableEq, Repr

/-- The row as it stands in the file. -/
def Row.bytes (row : Row) : Bytes := row.key ++ row.blank :: (row.path ++ [10])

/-- Neither a blank nor a NUL nor a newline. -/
def Plain (s : Bytes) : Prop := ∀ b ∈ s, b ≠ 32 ∧ b ≠ 9 ∧ b ≠ 0 ∧ b ≠ 10

instance (s : Bytes) : Decidable (Plain s) :=
  List.decidableBAll (fun b => b ≠ 32 ∧ b ≠ 9 ∧ b ≠ 0 ∧ b ≠ 10) s

/-- A key and a path with a space or a tab between them, in a row that fits. -/
structure Row.Ok (maxKeylen : Nat) (row : Row) : Prop where
  blank : row.blank = 32 ∨ row.blank = 9
  key : Plain row.key
  path : Plain row.path
  length : row.bytes.length < maxKeylen

/-- The file. -/
def fileOf (rows : List Row) : Bytes := rows.flatMap Row.bytes

/-- The memory of the key when its row has been read. -/
def rowKey (junk : Bytes) (row : Row) : Bytes :=
  row.key ++ 0 :: (row.path ++ 0 :: 0 :: junk.drop (row.bytes.length + 1))

/-- The item of the `n`-th row. -/
def rowItem (junk : Nat → Bytes) (opens : Nat → Bytes → Int) (n : Nat) (row : Row) : Item :=
  ⟨opens n row.path, rowKey (junk n) row⟩

theorem Plain.nul_free {s : Bytes} (h : Plain s) : 0 ∉ s := fun hmem => (h 0 hmem).2.2.1 rfl

theorem Plain.newline_free {s : Bytes} (h : Plain s) : 10 ∉ s := fun hmem => (h 10 hmem).2.2.2 rfl

theorem Plain.clean {s : Bytes} (h : Plain s) : Clean isBlank s := by
  intro b hb
  obtain ⟨h32, h9, _⟩ := h b hb
  simp [isBlank, h32, h9]

theorem text_rowKey {row : Row} (h : Plain row.key) (junk : Bytes) :
    text (rowKey junk row) = row.key :=
  text_append_nul h.nul_free _

/-! ## One row -/

/-- The newline is taken off. -/
theorem chop_line {line : Bytes} (h : 0 ∉ line) (rest : Bytes) :
    chop (line ++ 10 :: 0 :: rest) = some (line ++ 0 :: 0 :: rest) := by
  have htext : text (line ++ 10 :: 0 :: rest) = line ++ [10] := by
    have hnul : 0 ∉ line ++ [10] := by simp [h]
    have := text_append_nul hnul rest
    simpa using this
  unfold chop
  rw [htext, if_neg (by simp), List.length_append, List.length_singleton, Nat.add_sub_cancel,
    List.set_append_right _ _ (le_refl _), Nat.sub_self]
  rfl

/-- The key and the path. -/
theorem splitRow_row {row : Row} {maxKeylen : Nat} (h : row.Ok maxKeylen) (rest : Bytes) :
    splitRow (row.key ++ row.blank :: (row.path ++ 0 :: 0 :: rest)) =
      (row.key ++ 0 :: (row.path ++ 0 :: 0 :: rest), some row.path) := by
  have hblank : isBlank row.blank = true ∧ row.blank ≠ 0 := by
    rcases h.blank with hb | hb <;> rw [hb] <;> decide
  have hkey : strsep isBlank (row.key ++ row.blank :: (row.path ++ 0 :: 0 :: rest)) (some 0) =
      (row.key ++ 0 :: (row.path ++ 0 :: 0 :: rest), some (0 + row.key.length + 1), some 0) :=
    strsep_cut h.key.clean h.key.nul_free hblank.1 hblank.2 [] _
  have hbefore : row.key ++ 0 :: (row.path ++ 0 :: 0 :: rest) =
      (row.key ++ [0]) ++ (row.path ++ 0 :: 0 :: rest) := by simp
  have hptr : 0 + row.key.length + 1 = (row.key ++ [0]).length := by simp
  have hpath := strsep_last h.path.clean h.path.nul_free (row.key ++ [0]) (0 :: rest)
  unfold splitRow
  rw [hkey]
  simp only []
  rw [hbefore, hptr, hpath]
  simp only [Option.map_some, List.drop_left, text_append_nul h.path.nul_free]

variable {maxKeylen : Nat} {junk : Nat → Bytes} {opens : Nat → Bytes → Int} {rows : List Row}

/-- A round reads the next row. -/
theorem indexRound_row {row : Row} (h : row.Ok maxKeylen) {s : Loading} {rest : Bytes}
    (hstream : s.stream = row.bytes ++ rest) (hroom : s.items.length < s.capacity)
    (hopen : 0 ≤ opens s.items.length row.path) :
    indexRound maxKeylen junk opens s =
      let items := s.items ++ [rowItem junk opens s.items.length row]
      if items.length = s.capacity then
        if 2 ^ 31 ≤ s.capacity * 2 then .inr (.error .overflow)
        else .inl ⟨rest, items, s.capacity * 2⟩
      else .inl ⟨rest, items, s.capacity⟩ := by
  obtain ⟨line, hline⟩ : ∃ line, line = row.key ++ row.blank :: row.path := ⟨_, rfl⟩
  have hbytes : row.bytes = line ++ [10] := by
    rw [hline]
    simp [Row.bytes]
  have hblank : row.blank ≠ 0 ∧ row.blank ≠ 10 := by
    rcases h.blank with hb | hb <;> rw [hb] <;> decide
  have hnul : 0 ∉ line := by
    rw [hline]
    simp [h.key.nul_free, h.path.nul_free, Ne.symm hblank.1]
  have hnewline : 10 ∉ line := by
    rw [hline]
    simp [h.key.newline_free, h.path.newline_free, Ne.symm hblank.2]
  have hsize : line.length + 1 < maxKeylen := by
    have hlen := h.length
    rw [hbytes] at hlen
    simpa using hlen
  have hgets : fgets (junk s.items.length) maxKeylen s.stream =
      some (line ++ 10 :: 0 :: (junk s.items.length).drop (line.length + 2), rest) := by
    rw [hstream, hbytes, List.append_assoc]
    exact fgets_line hnewline hsize _ rest
  have hsplit := splitRow_row h ((junk s.items.length).drop (line.length + 2))
  have hassoc : ∀ r, line ++ 0 :: 0 :: r = row.key ++ row.blank :: (row.path ++ 0 :: 0 :: r) := by
    intro r
    rw [hline]
    simp
  have hkey : row.key ++ 0 :: (row.path ++ 0 :: 0 :: (junk s.items.length).drop (line.length + 2)) =
      rowKey (junk s.items.length) row := by
    unfold rowKey
    rw [hbytes, List.length_append, List.length_singleton]
  unfold indexRound
  simp only [hroom, hgets, chop_line hnul, hassoc, hsplit, openPath, not_true_eq_false, if_false,
    if_neg (not_lt.mpr hopen), hkey]
  rfl

/-! ## The array -/

/-- The size of the array after `k` rows. -/
def capacityAfter : Nat → Nat
  | 0 => 16
  | k + 1 => if k + 1 = capacityAfter k then capacityAfter k * 2 else capacityAfter k

/-- There is room for the next row. -/
theorem lt_capacityAfter (k : Nat) : k < capacityAfter k := by
  induction k with
  | zero => decide
  | succ k ih =>
    rw [capacityAfter]
    split <;> omega

theorem capacityAfter_eq_pow (k : Nat) : ∃ j, capacityAfter k = 2 ^ j := by
  induction k with
  | zero => exact ⟨4, rfl⟩
  | succ k ih =>
    rcases ih with ⟨j, hj⟩
    rw [capacityAfter]
    split
    · exact ⟨j + 1, by rw [hj, Nat.pow_succ]⟩
    · exact ⟨j, hj⟩

theorem capacityAfter_le (k : Nat) : capacityAfter k ≤ max 16 (2 * k) := by
  induction k with
  | zero => decide
  | succ k ih =>
    rw [capacityAfter]
    split <;> omega

/-- The last size that an `int` can hold is reached with row 2^30. -/
theorem capacityAfter_last : capacityAfter (2 ^ 30 - 1) = 2 ^ 30 := by
  have hgt := lt_capacityAfter (2 ^ 30 - 1)
  have hle := capacityAfter_le (2 ^ 30 - 1)
  rcases capacityAfter_eq_pow (2 ^ 30 - 1) with ⟨j, hj⟩
  have hlt : 2 ^ j < 2 ^ 31 := by
    rw [← hj]
    omega
  have hj31 : j < 31 := (Nat.pow_lt_pow_iff_right (by omega)).mp hlt
  have hpow : 2 ^ j ≤ 2 ^ 30 := Nat.pow_le_pow_right (by omega) (by omega)
  rw [hj] at hgt ⊢
  omega

/-- So the size overflows after row 2^30, and not before. -/
theorem overflows_iff {k : Nat} (hk : k < 2 ^ 30) :
    (k + 1 = capacityAfter k ∧ 2 ^ 31 ≤ capacityAfter k * 2) ↔ k + 1 = 2 ^ 30 := by
  constructor
  · rintro ⟨hfull, hover⟩
    omega
  · intro hlast
    obtain rfl : k = 2 ^ 30 - 1 := by omega
    rw [capacityAfter_last]
    omega

/-! ## All rows -/

/-- After `k` rows. -/
def loadedRows (junk : Nat → Bytes) (opens : Nat → Bytes → Int) (rows : List Row) (k : Nat) :
    Loading :=
  ⟨fileOf (rows.drop k), (rows.mapIdx (rowItem junk opens)).take k, capacityAfter k⟩

/-- What is opened for the rows is there. -/
def Openable (opens : Nat → Bytes → Int) (rows : List Row) : Prop :=
  ∀ n, ∀ row ∈ rows[n]?, 0 ≤ opens n row.path

theorem loadedRows_length (junk : Nat → Bytes) (opens : Nat → Bytes → Int) {k : Nat}
    (hk : k ≤ rows.length) :
    (loadedRows junk opens rows k).items.length = k := by
  show ((rows.mapIdx (rowItem junk opens)).take k).length = k
  rw [List.length_take, List.length_mapIdx, Nat.min_eq_left hk]

theorem loadedRows_stream (junk : Nat → Bytes) (opens : Nat → Bytes → Int) {k : Nat}
    (hk : k < rows.length) :
    (loadedRows junk opens rows k).stream = rows[k].bytes ++ fileOf (rows.drop (k + 1)) := by
  show fileOf (rows.drop k) = _
  rw [List.drop_eq_getElem_cons hk]
  exact List.flatMap_cons

theorem loadedRows_items_succ (junk : Nat → Bytes) (opens : Nat → Bytes → Int) {k : Nat}
    (hk : k < rows.length) :
    (loadedRows junk opens rows k).items ++ [rowItem junk opens k rows[k]] =
      (loadedRows junk opens rows (k + 1)).items := by
  show (rows.mapIdx (rowItem junk opens)).take k ++ _ = (rows.mapIdx (rowItem junk opens)).take (k + 1)
  rw [List.take_add_one, List.getElem?_mapIdx, List.getElem?_eq_getElem hk]
  rfl

/-- A round that reads a row when `k` rows are in the array. -/
theorem indexRound_next {row : Row} (hok : row.Ok maxKeylen) {s : Loading} {rest : Bytes} {k : Nat}
    (hstream : s.stream = row.bytes ++ rest) (hlen : s.items.length = k)
    (hcapacity : s.capacity = capacityAfter k) (hopen : 0 ≤ opens k row.path) :
    indexRound maxKeylen junk opens s =
      if k + 1 = capacityAfter k ∧ 2 ^ 31 ≤ capacityAfter k * 2 then .inr (.error .overflow)
      else .inl ⟨rest, s.items ++ [rowItem junk opens k row], capacityAfter (k + 1)⟩ := by
  subst hlen
  have hroom : s.items.length < s.capacity := by
    rw [hcapacity]
    exact lt_capacityAfter _
  have hround : indexRound maxKeylen junk opens s = _ := indexRound_row hok hstream hroom hopen
  have hnext : (s.items ++ [rowItem junk opens s.items.length row]).length = s.items.length + 1 :=
    List.length_append
  simp only [hnext, hcapacity] at hround
  rw [hround]
  by_cases hfull : s.items.length + 1 = capacityAfter s.items.length
  · by_cases hover : 2 ^ 31 ≤ capacityAfter s.items.length * 2
    · rw [if_pos hfull, if_pos hover, if_pos ⟨hfull, hover⟩]
    · rw [if_pos hfull, if_neg hover, if_neg (fun h => hover h.2), capacityAfter, if_pos hfull]
  · rw [if_neg hfull, if_neg (fun h => hfull h.1), capacityAfter, if_neg hfull]

/-- A round in the middle of the file. -/
theorem indexRound_loaded (hok : ∀ row ∈ rows, row.Ok maxKeylen) (hopen : Openable opens rows)
    {k : Nat} (hk : k < rows.length) :
    indexRound maxKeylen junk opens (loadedRows junk opens rows k) =
      if k + 1 = capacityAfter k ∧ 2 ^ 31 ≤ capacityAfter k * 2 then .inr (.error .overflow)
      else .inl (loadedRows junk opens rows (k + 1)) := by
  rw [indexRound_next (hok rows[k] (List.getElem_mem hk)) (loadedRows_stream junk opens hk)
    (loadedRows_length junk opens hk.le) rfl (hopen k rows[k] (List.getElem?_eq_getElem hk)),
    loadedRows_items_succ junk opens hk]
  rfl

/-- The end of the file. -/
theorem indexRound_eof {s : Loading} (hstream : s.stream = [])
    (hroom : s.items.length < s.capacity) :
    indexRound maxKeylen junk opens s = .inr (.ok s.items) := by
  unfold indexRound
  simp only [hroom, hstream, fgets, not_true_eq_false, if_false, if_true]

theorem indexRound_end :
    indexRound maxKeylen junk opens (loadedRows junk opens rows rows.length) =
      .inr (.ok (rows.mapIdx (rowItem junk opens))) := by
  have hstream : (loadedRows junk opens rows rows.length).stream = [] := by
    show fileOf (rows.drop rows.length) = []
    rw [List.drop_length]
    rfl
  have hitems : (loadedRows junk opens rows rows.length).items = rows.mapIdx (rowItem junk opens) := by
    apply List.take_of_length_le
    rw [List.length_mapIdx]
  rw [indexRound_eof hstream, hitems]
  rw [loadedRows_length junk opens (le_refl _)]
  exact lt_capacityAfter rows.length

/-- **Loading.** Fewer than 2^30 rows are loaded; with row 2^30 the capacity does not fit an
`int` any more. -/
theorem indexRound_returns_iff (hok : ∀ row ∈ rows, row.Ok maxKeylen) (hopen : Openable opens rows)
    {r : Except Fault (List Item)} :
    Returns (indexRound maxKeylen junk opens) (Loading.start (fileOf rows)) r ↔
      r = if rows.length < 2 ^ 30 then .ok (rows.mapIdx (rowItem junk opens)) else .error .overflow := by
  have hround : ∀ k, (∀ i < k, i < rows.length ∧ i + 1 < 2 ^ 30) →
      (k < rows.length ∧ k + 1 < 2 ^ 30) →
      indexRound maxKeylen junk opens (loadedRows junk opens rows k) =
        .inl (loadedRows junk opens rows (k + 1)) := by
    intro k _ hk
    have hno := (overflows_iff (k := k) (by omega)).not.mpr (by omega)
    rw [indexRound_loaded hok hopen hk.1, if_neg hno]
  have hexit : ∀ k, (∀ i < k, i < rows.length ∧ i + 1 < 2 ^ 30) →
      ¬ (k < rows.length ∧ k + 1 < 2 ^ 30) →
      indexRound maxKeylen junk opens (loadedRows junk opens rows k) =
        .inr (if rows.length < 2 ^ 30 then .ok (rows.mapIdx (rowItem junk opens))
          else .error .overflow) := by
    intro k hbefore hk
    have hle : k ≤ rows.length ∧ k < 2 ^ 30 := by
      rcases Nat.eq_zero_or_pos k with rfl | hpos
      · omega
      · have hlast := hbefore (k - 1) (by omega)
        omega
    by_cases hend : k = rows.length
    · rw [hend, indexRound_end, if_pos (by omega)]
    · have hfull := (overflows_iff hle.2).mpr (by omega)
      rw [indexRound_loaded hok hopen (by omega), if_pos hfull, if_neg (by omega)]
  have htrace := returns_iff_of_trace (f := loadedRows junk opens rows)
    (g := fun _ => if rows.length < 2 ^ 30 then .ok (rows.mapIdx (rowItem junk opens))
      else .error .overflow) hround hexit (r := r)
  have hstart : loadedRows junk opens rows 0 = Loading.start (fileOf rows) := rfl
  rw [hstart] at htrace
  rw [htrace]
  constructor
  · rintro ⟨_, _, _, h⟩
    exact h
  · intro h
    -- the first round that is not another one
    refine ⟨min rows.length (2 ^ 30 - 1), ?_, by omega, h⟩
    intro i hi
    omega

/-- No row is written behind the array. -/
theorem visits_room (hok : ∀ row ∈ rows, row.Ok maxKeylen) (hopen : Openable opens rows)
    {s : Loading} (h : Visits (indexRound maxKeylen junk opens) (Loading.start (fileOf rows)) s) :
    s.items.length < s.capacity := by
  have hround : ∀ s s', (∃ k, k ≤ rows.length ∧ s = loadedRows junk opens rows k) →
      indexRound maxKeylen junk opens s = .inl s' →
      ∃ k, k ≤ rows.length ∧ s' = loadedRows junk opens rows k := by
    rintro s s' ⟨k, hk, rfl⟩ hround
    rcases Nat.lt_or_eq_of_le hk with hlt | rfl
    · rw [indexRound_loaded hok hopen hlt] at hround
      split at hround
      · cases hround
      · exact ⟨k + 1, hlt, (Sum.inl.inj hround).symm⟩
    · rw [indexRound_end] at hround
      cases hround
  have hinv := h.inv hround ⟨0, Nat.zero_le _, rfl⟩
  rcases hinv with ⟨k, hk, rfl⟩
  rw [loadedRows_length junk opens hk]
  exact lt_capacityAfter k

end IntroOS.Content
