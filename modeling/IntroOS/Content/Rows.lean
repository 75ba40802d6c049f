import IntroOS.Content.Lookup

/-! # Rows of any length

The reader takes `MAX_KEYLEN - 1` bytes at most for a row, and drops the last of them for the
newline that it expects there.

* `textOf`: a file of rows, with or without a newline behind the last of them;
* `KeepsRows`: one item for each row, with its key and its path;
* `indexRound_cut`: a row without a newline in what was read loses the end of its path;
* `map_rows_iff`: the files that both readers keep.
-/

namespace IntroOS.Content

/-- A key and a path with a space or a tab between them. -/
structure Row.Shaped (row : Row) : Prop where
  blank : row.blank = 32 ∨ row.blank = 9
  key : Plain row.key
  path : Plain row.path

/-- The row without its newline. -/
def Row.line (row : Row) : Bytes := row.key ++ row.blank :: row.path

/-- Rows separated by newlines, and one more newline behind the last of them if `final`. -/
def textOf (final : Bool) : List Row → Bytes
  | [] => []
  | [row] => row.line ++ if final then [10] else []
  | row :: rows => row.line ++ 10 :: textOf final rows

/-- Wherever the paths of the rows can be opened, the reader ends with one item for each row, which
has the key of the row and what its path was opened as. -/
def KeepsRows (init : (List Item → List Item) → (Nat → Bytes) → (Nat → Bytes → Int) →
    Option Bytes → Except Fault (List Item) → Prop) (rows : List Row) (final : Bool) : Prop :=
  ∀ qsort junk opens, Sorts qsort → Openable opens rows →
    ∃ items, init qsort junk opens (some (textOf final rows)) (.ok items) ∧
      (items.map Item.entry).Perm (rowEntries opens rows)

/-- Every row fits with its newline, which the last one has too, and there are fewer than 2^30. -/
structure ReadWhole (maxKeylen : Nat) (rows : List Row) (final : Bool) : Prop where
  fits : ∀ row ∈ rows, row.line.length + 1 < maxKeylen
  final : rows = [] ∨ final = true
  room : rows.length < 2 ^ 30

theorem Row.bytes_eq (row : Row) : row.bytes = row.line ++ [10] := by
  rw [Row.bytes, Row.line, List.append_assoc, List.cons_append]

/-- With the last newline the text is the file of whole rows. -/
theorem textOf_true (rows : List Row) : textOf true rows = fileOf rows := by
  induction rows with
  | nil => rfl
  | cons row rows ih =>
    show _ = row.bytes ++ fileOf rows
    rw [row.bytes_eq, ← ih]
    cases rows with
    | nil =>
      show row.line ++ [10] = row.line ++ [10] ++ []
      rw [List.append_nil]
    | cons row' rows =>
      show row.line ++ 10 :: textOf true (row' :: rows) = _
      rw [List.append_assoc]
      rfl

/-! ## A row that is cut -/

/-- The first bytes of a line, if they end before its newline or there is none. -/
theorem takeLine_cut {line : Bytes} (h : 10 ∉ line) {n : Nat} {rest : Bytes}
    (hn : n ≤ line.length ∨ rest = []) : (takeLine n (line ++ rest)).1 = line.take n := by
  induction line generalizing n with
  | nil =>
    rcases hn with hn | hn
    · obtain rfl : n = 0 := Nat.le_zero.mp hn
      rfl
    · rw [hn]
      cases n with
      | zero => rfl
      | succ n => rfl
  | cons b line ih =>
    rw [List.mem_cons, not_or] at h
    cases n with
    | zero => rfl
    | succ n =>
      have hn' : n ≤ line.length ∨ rest = [] := by
        rw [List.length_cons] at hn
        rcases hn with hn | hn
        · exact Or.inl (Nat.le_of_succ_le_succ hn)
        · exact Or.inr hn
      rw [List.cons_append, takeLine, if_neg (Ne.symm h.1), List.take_succ_cons, ih h.2 hn']

/-- What `chop` takes off is the last byte that was read. -/
theorem chop_cut {line : Bytes} (h : 0 ∉ line) (hne : line ≠ []) (rest : Bytes) :
    chop (line ++ 0 :: rest) = some (line.dropLast ++ 0 :: 0 :: rest) := by
  have htext := text_append_nul h rest
  rcases List.eq_nil_or_concat line with rfl | ⟨front, b, rfl⟩
  · exact absurd rfl hne
  · unfold chop
    rw [List.concat_eq_append] at htext hne ⊢
    rw [htext, if_neg hne, List.length_append, List.length_singleton, Nat.add_sub_cancel,
      List.append_assoc, List.set_append_right _ _ (le_refl _), Nat.sub_self, List.dropLast_concat]
    rfl

/-- A part of a line has another path, or none. -/
theorem splitRow_cut {row : Row} (h : row.Shaped) {part : Bytes} (hpart : part <+: row.line)
    (hlt : part.length < row.line.length) (rest : Bytes) :
    (splitRow (part ++ 0 :: 0 :: rest)).2 ≠ some row.path := by
  by_cases hin : part.length ≤ row.key.length
  · -- there is no blank
    have hkey : part <+: row.key :=
      List.prefix_of_prefix_length_le hpart (List.prefix_append _ _) hin
    have hclean : Clean isBlank part := fun b hb => h.key.clean b (hkey.subset hb)
    have hnul : 0 ∉ part := fun h0 => h.key.nul_free (hkey.subset h0)
    have hlast : strsep isBlank (part ++ 0 :: 0 :: rest) (some 0) =
        (part ++ 0 :: 0 :: rest, none, some 0) := strsep_last hclean hnul [] (0 :: rest)
    unfold splitRow
    rw [hlast]
    exact nofun
  · -- the path is cut
    rcases List.prefix_of_prefix_length_le (List.prefix_append row.key (row.blank :: row.path)) hpart
      (Nat.le_of_not_le hin) with ⟨behind, rfl⟩
    rw [Row.line, List.prefix_append_right_inj] at hpart
    cases behind with
    | nil =>
      rw [List.append_nil] at hin
      exact absurd (Nat.le_refl _) hin
    | cons b path =>
      rcases List.cons_prefix_cons.mp hpart with ⟨rfl, hpath⟩
      have hshort : path.length < row.path.length := by
        rw [Row.line, List.length_append, List.length_append, List.length_cons,
          List.length_cons] at hlt
        omega
      have hplain : Plain path := fun b hb => h.path b (hpath.subset hb)
      have hok : Row.Ok ((Row.mk row.key row.blank path).bytes.length + 1)
          ⟨row.key, row.blank, path⟩ := ⟨h.blank, h.key, hplain, Nat.lt_succ_self _⟩
      have hsplit := splitRow_row hok rest
      rw [List.append_assoc, List.cons_append, hsplit]
      intro heq
      have hsame : path = row.path := Option.some.inj heq
      rw [hsame] at hshort
      exact absurd hshort (Nat.lt_irrefl _)

variable {maxKeylen : Nat} {junk : Nat → Bytes} {opens : Nat → Bytes → Int}

/-- A row whose newline is not among the bytes that are read ends the program, unless the wrong
path can be opened too. -/
theorem indexRound_cut {row : Row} (h : row.Shaped) (hkeylen : 2 ≤ maxKeylen) {s : Loading}
    {rest : Bytes} (hstream : s.stream = row.line ++ rest)
    (hcut : maxKeylen - 1 ≤ row.line.length ∨ rest = []) (hroom : s.items.length < s.capacity)
    (hopens : ∀ path ≠ row.path, opens s.items.length path < 0) :
    indexRound maxKeylen junk opens s = .inr (.error .exit) := by
  have hblank : row.blank ≠ 0 ∧ row.blank ≠ 10 := by
    rcases h.blank with hb | hb <;> rw [hb] <;> decide
  have hnul : 0 ∉ row.line := by
    simp [Row.line, h.key.nul_free, h.path.nul_free, Ne.symm hblank.1]
  have hnewline : 10 ∉ row.line := by
    simp [Row.line, h.key.newline_free, h.path.newline_free, Ne.symm hblank.2]
  have hpos : 0 < row.line.length := by
    rw [Row.line, List.length_append, List.length_cons]
    omega
  obtain ⟨got, hgot⟩ : ∃ got, got = row.line.take (maxKeylen - 1) := ⟨_, rfl⟩
  have hline := takeLine_cut hnewline hcut
  rw [← hstream, ← hgot] at hline
  have hpart : got <+: row.line := hgot ▸ List.take_prefix _ _
  have hgotpos : 0 < got.length := by
    rw [hgot, List.length_take]
    omega
  have hgets : fgets (junk s.items.length) maxKeylen s.stream =
      some (got ++ 0 :: (junk s.items.length).drop (got.length + 1),
        (takeLine (maxKeylen - 1) s.stream).2) := by
    have hne : s.stream ≠ [] := by
      rw [hstream]
      exact List.append_ne_nil_of_left_ne_nil (List.length_pos_iff.mp hpos) rest
    unfold fgets
    rw [if_neg hne]
    dsimp only
    rw [hline]
  have hchop := chop_cut (fun h0 => hnul (hpart.subset h0)) (List.length_pos_iff.mp hgotpos)
    ((junk s.items.length).drop (got.length + 1))
  have hsplit := splitRow_cut h ((List.dropLast_prefix got).trans hpart)
    (by
      have hle := hpart.length_le
      rw [List.length_dropLast]
      omega) ((junk s.items.length).drop (got.length + 1))
  have hopen : ∀ path ≠ some row.path, openPath opens s.items.length path < 0 := by
    intro path hpath
    cases path with
    | none => exact Int.negSucc_lt_zero 0
    | some path => exact hopens path fun heq => hpath (congrArg some heq)
  unfold indexRound
  simp only [hroom, hgets, hchop, not_true_eq_false, if_false, hopen _ hsplit, if_true]

/-! ## Rows that fit -/

theorem Openable.left {rows more : List Row} (h : Openable opens (rows ++ more)) :
    Openable opens rows := by
  intro n row hrow
  refine h n row ?_
  rw [List.getElem?_append_left (List.getElem?_eq_some_iff.mp hrow).1]
  exact hrow

theorem Openable.row {rows more : List Row} {row : Row} (h : Openable opens (rows ++ row :: more)) :
    0 ≤ opens rows.length row.path := by
  refine h rows.length row ?_
  rw [List.getElem?_append_right (Nat.le_refl _), Nat.sub_self]
  rfl

theorem fileOf_append (rows more : List Row) : fileOf (rows ++ more) = fileOf rows ++ fileOf more :=
  List.flatMap_append

/-- Rows that fit are in the array when the reader comes to what is behind them. -/
theorem returns_rows {rows : List Row} (hok : ∀ row ∈ rows, row.Ok maxKeylen)
    (hopen : Openable opens rows) (hlt : rows.length < 2 ^ 30) (rest : Bytes)
    {r : Except Fault (List Item)} :
    Returns (indexRound maxKeylen junk opens) (Loading.start (fileOf rows ++ rest)) r ↔
      Returns (indexRound maxKeylen junk opens)
        ⟨rest, rows.mapIdx (rowItem junk opens), capacityAfter rows.length⟩ r := by
  induction rows using List.reverseRecOn generalizing rest with
  | nil => exact Iff.rfl
  | append_singleton rows row ih =>
    rw [List.length_append, List.length_singleton] at hlt
    have hfile : fileOf (rows ++ [row]) ++ rest = fileOf rows ++ (row.bytes ++ rest) := by
      rw [fileOf_append, List.append_assoc]
      show fileOf rows ++ (row.bytes ++ [] ++ rest) = _
      rw [List.append_nil]
    have hno := (overflows_iff (k := rows.length) (by omega)).not.mpr (by omega)
    have hround : indexRound maxKeylen junk opens ⟨row.bytes ++ rest, rows.mapIdx (rowItem junk opens),
        capacityAfter rows.length⟩ = _ :=
      indexRound_next (hok row (by simp)) rfl List.length_mapIdx rfl hopen.row
    rw [if_neg hno] at hround
    rw [hfile, ih (fun row' hrow' => hok row' (List.mem_append_left _ hrow')) hopen.left (by omega),
      Returns.round_iff hround, List.mapIdx_concat, List.length_append, List.length_singleton]

/-- Row 2^30 is one too many, whatever is behind it. -/
theorem returns_overflow {rows : List Row} (hok : ∀ row ∈ rows, row.Ok maxKeylen)
    (hopen : Openable opens rows) (hge : 2 ^ 30 ≤ rows.length) (rest : Bytes)
    {r : Except Fault (List Item)} :
    Returns (indexRound maxKeylen junk opens) (Loading.start (fileOf rows ++ rest)) r ↔
      r = .error .overflow := by
  have hlast : 2 ^ 30 - 1 < rows.length := by omega
  obtain ⟨front, row, more, hrows, hfront⟩ : ∃ front row more, rows = front ++ row :: more ∧
      front.length = 2 ^ 30 - 1 := by
    refine ⟨rows.take (2 ^ 30 - 1), rows[2 ^ 30 - 1], rows.drop (2 ^ 30 - 1 + 1), ?_, ?_⟩
    · rw [← List.drop_eq_getElem_cons hlast, List.take_append_drop]
    · rw [List.length_take]
      omega
  subst hrows
  have hfile : fileOf (front ++ row :: more) ++ rest =
      fileOf front ++ (row.bytes ++ (fileOf more ++ rest)) := by
    rw [fileOf_append, List.append_assoc]
    show fileOf front ++ (row.bytes ++ fileOf more ++ rest) = _
    rw [List.append_assoc]
  have hover := (overflows_iff (k := front.length) (by omega)).mpr (by omega)
  have hround : indexRound maxKeylen junk opens ⟨row.bytes ++ (fileOf more ++ rest),
      front.mapIdx (rowItem junk opens), capacityAfter front.length⟩ = _ :=
    indexRound_next (hok row (by simp)) rfl List.length_mapIdx rfl hopen.row
  rw [if_pos hover] at hround
  rw [hfile, returns_rows (fun row' hrow' => hok row' (List.mem_append_left _ hrow')) hopen.left
    (by omega), Returns.exit_iff hround]

/-! ## The first row that is not kept -/

theorem textOf_append (final : Bool) (rows : List Row) (row : Row) (more : List Row) :
    textOf final (rows ++ row :: more) = fileOf rows ++ textOf final (row :: more) := by
  induction rows with
  | nil => rfl
  | cons first rows ih =>
    have hcons : textOf final (first :: (rows ++ row :: more)) =
        first.line ++ 10 :: textOf final (rows ++ row :: more) := by
      cases rows with
      | nil => rfl
      | cons second rows => rfl
    show textOf final (first :: (rows ++ row :: more)) = first.bytes ++ fileOf rows ++ _
    rw [hcons, ih, first.bytes_eq, List.append_assoc, List.append_assoc]
    rfl

/-- Some row is the first that does not fit, or the last one has no newline, or all are kept. -/
theorem rows_cases (maxKeylen : Nat) (rows : List Row) (final : Bool) :
    (∃ good row more rest, rows = good ++ row :: more ∧ (∀ r ∈ good, r.line.length + 1 < maxKeylen) ∧
      textOf final (row :: more) = row.line ++ rest ∧
      (maxKeylen - 1 ≤ row.line.length ∨ rest = [])) ∨
    ((∀ r ∈ rows, r.line.length + 1 < maxKeylen) ∧ (rows = [] ∨ final = true)) := by
  induction rows with
  | nil => exact Or.inr ⟨List.forall_mem_nil _, Or.inl rfl⟩
  | cons row rows ih =>
    by_cases hfits : row.line.length + 1 < maxKeylen
    · rcases ih with ⟨good, bad, more, rest, hrows, hgood, htext, hcut⟩ | ⟨hall, hfinal⟩
      · refine Or.inl ⟨row :: good, bad, more, rest, by rw [hrows, List.cons_append], ?_, htext, hcut⟩
        exact List.forall_mem_cons.mpr ⟨hfits, hgood⟩
      · cases final with
        | true => exact Or.inr ⟨List.forall_mem_cons.mpr ⟨hfits, hall⟩, Or.inr rfl⟩
        | false =>
          have hnil : rows = [] := hfinal.resolve_right (by decide)
          subst hnil
          exact Or.inl ⟨[], row, [], [], rfl, List.forall_mem_nil _, rfl, Or.inr rfl⟩
    · obtain ⟨rest, hrest⟩ : ∃ rest, textOf final (row :: rows) = row.line ++ rest := by
        cases rows with
        | nil => exact ⟨_, rfl⟩
        | cons second rows => exact ⟨_, rfl⟩
      exact Or.inl ⟨[], row, rows, rest, rfl, List.forall_mem_nil _, hrest, Or.inl (by omega)⟩

/-- Only the paths of the rows can be opened, each when it is its turn. -/
def opensRows (rows : List Row) (n : Nat) (path : Bytes) : Int :=
  if (rows[n]?).map Row.path = some path then 0 else -1

theorem openable_opensRows (rows : List Row) : Openable (opensRows rows) rows := by
  intro n row hrow
  unfold opensRows
  rw [hrow, Option.map_some, if_pos rfl]

theorem opensRows_other {good more : List Row} {row : Row} {path : Bytes} (h : path ≠ row.path) :
    opensRows (good ++ row :: more) good.length path < 0 := by
  have hrow : (good ++ row :: more)[good.length]? = some row := by
    rw [List.getElem?_append_right (Nat.le_refl _), Nat.sub_self]
    rfl
  unfold opensRows
  rw [hrow, Option.map_some, if_neg (fun heq => h (Option.some.inj heq).symm)]
  decide

theorem Row.Shaped.ok {row : Row} (h : row.Shaped) (hfits : row.line.length + 1 < maxKeylen) :
    row.Ok maxKeylen := by
  refine ⟨h.blank, h.key, h.path, ?_⟩
  rw [row.bytes_eq, List.length_append]
  exact hfits

/-- Without all rows the reader does not come to a good end. -/
theorem not_returns_ok {rows : List Row} (hrows : ∀ row ∈ rows, row.Shaped) (hkeylen : 2 ≤ maxKeylen)
    {final : Bool} (hnot : ¬ ReadWhole maxKeylen rows final) (items : List Item) :
    ¬ Returns (indexRound maxKeylen junk (opensRows rows)) (Loading.start (textOf final rows))
      (.ok items) := by
  have hopen := openable_opensRows rows
  rcases rows_cases maxKeylen rows final with ⟨good, row, more, rest, rfl, hgood, htext, hcut⟩ |
    ⟨hall, hfinal⟩
  · have hok : ∀ r ∈ good, r.Ok maxKeylen := fun r hr =>
      (hrows r (List.mem_append_left _ hr)).ok (hgood r hr)
    rw [textOf_append, htext]
    intro hreturns
    by_cases hlt : good.length < 2 ^ 30
    · rw [returns_rows hok hopen.left hlt] at hreturns
      have hround : indexRound maxKeylen junk (opensRows (good ++ row :: more)) ⟨row.line ++ rest,
          good.mapIdx (rowItem junk (opensRows (good ++ row :: more))),
            capacityAfter good.length⟩ = .inr (.error .exit) := by
        refine indexRound_cut (hrows row (by simp)) hkeylen rfl hcut ?_ ?_
        · show (good.mapIdx _).length < _
          rw [List.length_mapIdx]
          exact lt_capacityAfter _
        · intro path hpath
          show opensRows _ (good.mapIdx _).length path < 0
          rw [List.length_mapIdx]
          exact opensRows_other hpath
      have heq := (Returns.exit_iff hround).mp hreturns
      cases heq
    · have heq := (returns_overflow hok hopen.left (Nat.le_of_not_lt hlt) _).mp hreturns
      cases heq
  · have hok : ∀ r ∈ rows, r.Ok maxKeylen := fun r hr => (hrows r hr).ok (hall r hr)
    have hge : 2 ^ 30 ≤ rows.length := by
      by_contra hlt
      exact hnot ⟨hall, hfinal, Nat.lt_of_not_le hlt⟩
    have hwhole : textOf final rows = fileOf rows ++ [] := by
      rw [List.append_nil]
      rcases hfinal with rfl | rfl
      · rfl
      · exact textOf_true rows
    rw [hwhole]
    intro hreturns
    have heq := (returns_overflow hok hopen hge []).mp hreturns
    cases heq

/-! ## The readers -/

theorem keepsRows_iff {rows : List Row} (hrows : ∀ row ∈ rows, row.Shaped) (hkeylen : 2 ≤ maxKeylen)
    (final : Bool) : KeepsRows (IndexInit maxKeylen) rows final ↔ ReadWhole maxKeylen rows final := by
  constructor
  · intro hkeeps
    by_contra hnot
    rcases hkeeps sortItems (fun _ => []) (opensRows rows) sorts_sortItems (openable_opensRows rows) with
      ⟨items, ⟨loaded, hreturns, hitems⟩, _⟩
    cases loaded with
    | error fault => cases hitems
    | ok loaded => exact not_returns_ok hrows hkeylen hnot loaded hreturns
  · intro hwhole qsort junk opens hsort hopen
    have hok : ∀ r ∈ rows, r.Ok maxKeylen := fun r hr => (hrows r hr).ok (hwhole.fits r hr)
    have htext : textOf final rows = fileOf rows := by
      rcases hwhole.final with rfl | rfl
      · rfl
      · exact textOf_true rows
    have hreturns : Returns (indexRound maxKeylen junk opens) (Loading.start (fileOf rows))
        (.ok (rows.mapIdx (rowItem junk opens))) :=
      (indexRound_returns_iff hok hopen).mpr (if_pos hwhole.room).symm
    refine ⟨qsort (rows.mapIdx (rowItem junk opens)), ⟨_, htext ▸ hreturns, rfl⟩, ?_⟩
    rw [← rowItem_entries hok]
    exact (hsort.perm _).map Item.entry

/-- **Rows.** Both readers keep every row exactly if each of them fits with its newline, the last
one has a newline, and there are fewer than 2^30. -/
theorem map_rows_iff {rows : List Row} (hrows : ∀ row ∈ rows, row.Shaped) (final : Bool) :
    (KeepsRows GfContent.ContentInit rows final ↔ ReadWhole GfContent.maxKeylen rows final) ∧
    (KeepsRows Simplecache.SimplecacheInit rows final ↔
      ReadWhole Simplecache.maxKeylen rows final) :=
  ⟨keepsRows_iff hrows (by decide) final, keepsRows_iff hrows (by decide) final⟩

/-- Two rows with their newlines. -/
theorem map_rows_two :
    KeepsRows Simplecache.SimplecacheInit [⟨ascii "k", 32, ascii "p"⟩, ⟨ascii "j", 9, ascii "qr"⟩]
      true := by
  refine ((map_rows_iff ?_ true).2).mpr ⟨?_, Or.inr rfl, by decide⟩
  · exact List.forall_mem_cons.mpr ⟨⟨by decide, by decide, by decide⟩,
      List.forall_mem_singleton.mpr ⟨by decide, by decide, by decide⟩⟩
  · exact List.forall_mem_cons.mpr ⟨by decide, List.forall_mem_singleton.mpr (by decide)⟩

/-- Without the newline the path loses its last letter. -/
theorem map_rows_unterminated :
    ¬ ∀ (rows : List Row) (final : Bool), (∀ row ∈ rows, row.Shaped) →
      KeepsRows GfContent.ContentInit rows final ∧ KeepsRows Simplecache.SimplecacheInit rows final := by
  intro h
  have hshaped : ∀ row ∈ [(⟨ascii "k", 32, ascii "p"⟩ : Row)], row.Shaped :=
    List.forall_mem_singleton.mpr ⟨by decide, by decide, by decide⟩
  have hkeeps := (h [⟨ascii "k", 32, ascii "p"⟩] false hshaped).1
  have hwhole := (keepsRows_iff hshaped (by decide) false).mp hkeeps
  rcases hwhole.final with hnil | hfinal
  · cases hnil
  · cases hfinal

end IntroOS.Content
