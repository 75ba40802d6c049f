import IntroOS.Base.Descriptors
import IntroOS.Content.Rows

/-! # The descriptors of the index

`content_init` and `simplecache_init` keep a descriptor for every row, beside the one for the file
of rows while they read it; `content_destroy` and `simplecache_destroy` close them, in the order
into which `qsort` has brought them.

* `IndexInitFrom`, `indexDestroy`: both on the table of the process;
* `index_descriptors`: when the rows are loaded, what the items own then, and the round trip.
-/

namespace IntroOS.Content

variable {limit maxKeylen : Nat} {qsort : List Item → List Item} {junk : Nat → Bytes}

/-! ## The program -/

/-- The result of the `n`-th `open` in the loop. `there` are the paths that can be opened. -/
def opensFrom (t : Table limit) (there : Bytes → Bool) (n : Nat) (path : Bytes) : Int :=
  if there path then
    match t.openNth n with
    | some fd => fd
    | none => -1
  else -1

/-- The table after `n` calls of `open`. -/
def afterOpens (t : Table limit) (n : Nat) : Table limit := ((t.openMany n).map Prod.snd).getD t

/-- `IndexInit` between its `fopen` and its `fclose`, with the table that it leaves. -/
def IndexInitFrom (maxKeylen : Nat) (qsort : List Item → List Item) (junk : Nat → Bytes)
    (there : Bytes → Bool) (t : Table limit) (file : Option Bytes)
    (r : Except Fault (List Item × Table limit)) : Prop :=
  match t.openFd with
  | none => r = .error .exit
  | some (filelist, t) => ∃ items, IndexInit maxKeylen qsort junk (opensFrom t there) file items ∧
      r = items.map fun items => (items, (afterOpens t items.length).closeFd filelist)

/-- `content_destroy` and `simplecache_destroy`. -/
def indexDestroy (t : Table limit) (items : List Item) : Table limit :=
  t.closeAll (items.map fun item => item.fildes.toNat)

/-! ## A path that cannot be opened -/

section Refused

variable {opens : Nat → Bytes → Int}

theorem indexRound_refused {row : Row} (h : row.Ok maxKeylen) {s : Loading} {rest : Bytes}
    (hstream : s.stream = row.bytes ++ rest) (hroom : s.items.length < s.capacity)
    (hopen : opens s.items.length row.path < 0) :
    indexRound maxKeylen junk opens s = .inr (.error .exit) := by
  -- the same round, where the path of the row is the only one that can be opened
  have hother : ∀ r, indexRound maxKeylen junk (fun _ path => if path = row.path then 0 else -1) s =
      .inr r → r = .error .overflow := by
    intro r hr
    rw [indexRound_row h hstream hroom (by rw [if_pos rfl])] at hr
    dsimp only at hr
    split at hr
    · split at hr
      · exact (Sum.inr.inj hr).symm
      · cases hr
    · cases hr
  unfold indexRound at hother ⊢
  simp only [hroom, not_true_eq_false, if_false] at hother ⊢
  split
  · rename_i hgets
    rw [hgets] at hother
    cases hother _ rfl
  · rename_i key stream hgets
    rw [hgets] at hother
    dsimp only at hother
    split
    · rename_i hchop
      rw [hchop] at hother
      cases hother _ rfl
    · rename_i cut hchop
      rw [hchop] at hother
      dsimp only at hother
      have hpath : (splitRow cut).2 = some row.path := by
        by_contra hne
        have hclosed : openPath (fun _ path => if path = row.path then 0 else -1) s.items.length
            (splitRow cut).2 < 0 := by
          cases hsplit : (splitRow cut).2 with
          | none => exact (by decide : (-1 : Int) < 0)
          | some path =>
            rw [hsplit] at hne
            show (if path = row.path then (0 : Int) else -1) < 0
            rw [if_neg (fun heq => hne (congrArg some heq))]
            decide
        rw [if_pos hclosed] at hother
        cases hother _ rfl
      rw [if_pos]
      rw [hpath]
      exact hopen

/-- Some row is the first that cannot be opened. -/
theorem first_refused {rows : List Row} (h : ¬ Openable opens rows) :
    ∃ good row more, rows = good ++ row :: more ∧ Openable opens good ∧
      opens good.length row.path < 0 := by
  induction rows using List.reverseRecOn with
  | nil => exact absurd nofun h
  | append_singleton rows last ih =>
    by_cases hrows : Openable opens rows
    · refine ⟨rows, last, [], rfl, hrows, ?_⟩
      by_contra hlast
      apply h
      intro n row hrow
      by_cases hn : n < rows.length
      · rw [List.getElem?_append_left hn] at hrow
        exact hrows n row hrow
      · have hlen := (List.getElem?_eq_some_iff.mp hrow).1
        rw [List.length_append, List.length_singleton] at hlen
        have heq : n = rows.length := by omega
        rw [heq, List.getElem?_append_right (Nat.le_refl _), Nat.sub_self] at hrow
        cases hrow
        rw [heq]
        exact not_lt.mp hlast
    · rcases ih hrows with ⟨good, row, more, rfl, hgood, hopen⟩
      exact ⟨good, row, more ++ [last], by simp, hgood, hopen⟩

/-- A row that cannot be opened ends the program. -/
theorem returns_refused {rows : List Row} (hok : ∀ row ∈ rows, row.Ok maxKeylen)
    (hlen : rows.length < 2 ^ 30) (h : ¬ Openable opens rows) {r : Except Fault (List Item)} :
    Returns (indexRound maxKeylen junk opens) (Loading.start (fileOf rows)) r ↔
      r = .error .exit := by
  rcases first_refused h with ⟨good, row, more, rfl, hgood, hopen⟩
  have hfile : fileOf (good ++ row :: more) = fileOf good ++ (row.bytes ++ fileOf more) :=
    fileOf_append good (row :: more)
  rw [List.length_append] at hlen
  have hround : indexRound maxKeylen junk opens ⟨row.bytes ++ fileOf more,
      good.mapIdx (rowItem junk opens), capacityAfter good.length⟩ = .inr (.error .exit) := by
    refine indexRound_refused (hok row (by simp)) rfl ?_ ?_
    · show (good.mapIdx _).length < _
      rw [List.length_mapIdx]
      exact lt_capacityAfter _
    · show opens (good.mapIdx _).length row.path < 0
      rw [List.length_mapIdx]
      exact hopen
  rw [hfile, returns_rows (fun row' hrow' => hok row' (List.mem_append_left _ hrow')) hgood
    (by omega), Returns.exit_iff hround]

end Refused

/-! ## The descriptors of the rows -/

variable {there : Bytes → Bool} {t : Table limit} {rows : List Row}

/-- Every path can be opened, and there is a descriptor for each. -/
theorem openable_opensFrom :
    Openable (opensFrom t there) rows ↔
      (∀ row ∈ rows, there row.path = true) ∧ rows.length ≤ t.room := by
  have hopens : ∀ n row, 0 ≤ opensFrom t there n row ↔ there row = true ∧ n < t.room := by
    intro n path
    unfold opensFrom
    by_cases hthere : there path = true
    · rw [if_pos hthere]
      cases hnth : t.openNth n with
      | none =>
        have hfull := Table.openNth_eq_none_iff.mp hnth
        dsimp only
        omega
      | some fd =>
        have hfull := (Table.openNth_eq_none_iff (t := t) (n := n)).not.mp (by rw [hnth]; exact nofun)
        simp only [hthere, true_and]
        omega
    · rw [if_neg hthere]
      constructor
      · intro h
        omega
      · intro h
        exact absurd h.1 hthere
  unfold Openable
  simp only [hopens]
  constructor
  · intro h
    refine ⟨?_, ?_⟩
    · intro row hrow
      obtain ⟨n, hn, rfl⟩ := List.getElem_of_mem hrow
      exact (h n rows[n] (List.getElem?_eq_getElem hn)).1
    · by_contra hlt
      have hlast : t.room < rows.length := by omega
      have hfull := (h t.room rows[t.room] (List.getElem?_eq_getElem hlast)).2
      omega
  · rintro ⟨hthere, hle⟩ n row hrow
    have hn := (List.getElem?_eq_some_iff.mp hrow).1
    exact ⟨hthere row (List.mem_of_getElem? hrow), by omega⟩

theorem rowItem_fildes (hthere : ∀ row ∈ rows, there row.path = true) {fds : List Nat}
    {t' : Table limit} (hopen : t.openMany rows.length = some (fds, t')) :
    (rows.mapIdx (rowItem junk (opensFrom t there))).map Item.fildes = fds.map Nat.cast := by
  have hlen := (Table.openMany_spec hopen).length
  apply List.ext_getElem?
  intro n
  rw [List.getElem?_map, List.getElem?_mapIdx, List.getElem?_map]
  cases hrow : rows[n]? with
  | none =>
    have hn := List.getElem?_eq_none_iff.mp hrow
    rw [List.getElem?_eq_none (by omega)]
    rfl
  | some row =>
    have hn := (List.getElem?_eq_some_iff.mp hrow).1
    have hnth := Table.openMany_get hopen hn
    have hfd : fds[n]? = some fds[n] := List.getElem?_eq_getElem (by omega)
    rw [hfd] at hnth
    show some (opensFrom t there n row.path) = _
    unfold opensFrom
    rw [if_pos (hthere row (List.mem_of_getElem? hrow)), hnth, hfd]
    rfl

/-- What the items own beside what was in use before. -/
structure Owns (t t' : Table limit) (items : List Item) (n : Nat) : Prop where
  distinct : (items.map Item.fildes).Nodup
  fresh : ∀ item ∈ items, ∃ fd : Nat, item.fildes = fd ∧ fd ∉ t.used ∧ fd ∈ t'.used
  room : t'.room + n = t.room
  destroy : indexDestroy t' items = t

theorem owns_of_opened {t' : Table limit} {items : List Item} {n : Nat} {fds : List Nat}
    (h : Table.Opened t n fds t') (hperm : (items.map Item.fildes).Perm (fds.map Nat.cast)) :
    Owns t t' items n := by
  refine ⟨?_, ?_, h.room, ?_⟩
  · rw [hperm.nodup_iff]
    exact h.nodup.map Nat.cast_injective
  · intro item hitem
    have hmem : item.fildes ∈ fds.map Nat.cast := hperm.mem_iff.mp (List.mem_map_of_mem hitem)
    rcases List.mem_map.mp hmem with ⟨fd, hfd, heq⟩
    refine ⟨fd, heq.symm, h.fresh fd hfd, ?_⟩
    rw [h.used]
    exact Finset.mem_union_right _ (List.mem_toFinset.mpr hfd)
  · apply h.closeAll
    have hnat := hperm.map Int.toNat
    rw [List.map_map, List.map_map] at hnat
    have hid : fds.map (Int.toNat ∘ Nat.cast) = fds := by
      conv_rhs => rw [← List.map_id fds]
      exact List.map_congr_left fun fd _ => Int.toNat_natCast fd
    rw [hid] at hnat
    exact hnat

/-- With room for one descriptor more than there are rows. -/
theorem indexInitFrom_loaded (hsort : Sorts qsort) (hok : ∀ row ∈ rows, row.Ok maxKeylen)
    (hlen : rows.length < 2 ^ 30) (hthere : ∀ row ∈ rows, there row.path = true)
    (hlt : rows.length < t.room) :
    ∃ items t', (∀ r, IndexInitFrom maxKeylen qsort junk there t (some (fileOf rows)) r ↔
      r = .ok (items, t')) ∧ Owns t t' items rows.length := by
  rcases Table.exists_openFd (show 0 < t.room by omega) with ⟨filelist, t₁, hopen⟩
  have hroom := (Table.openFd_spec hopen).2.2
  have hfits : Openable (opensFrom t₁ there) rows := openable_opensFrom.mpr ⟨hthere, by omega⟩
  rcases Table.openMany_iff.mpr (show rows.length ≤ t₁.room by omega) with ⟨fds, t₂, hmany⟩
  have hperm := hsort.perm (rows.mapIdx (rowItem junk (opensFrom t₁ there)))
  have hcount := hperm.length_eq
  rw [List.length_mapIdx] at hcount
  have hafter : afterOpens t₁ (qsort (rows.mapIdx (rowItem junk (opensFrom t₁ there)))).length =
      t₂ := by
    unfold afterOpens
    rw [hcount, hmany]
    rfl
  refine ⟨qsort (rows.mapIdx (rowItem junk (opensFrom t₁ there))), t₂.closeFd filelist, ?_,
    owns_of_opened ((Table.openMany_spec hmany).closeFd hopen) ?_⟩
  · intro r
    rw [← hafter]
    unfold IndexInitFrom
    rw [hopen]
    constructor
    · rintro ⟨items, ⟨loaded, hloaded, rfl⟩, rfl⟩
      rw [indexRound_returns_iff hok hfits, if_pos hlen] at hloaded
      cases hloaded
      rfl
    · rintro rfl
      exact ⟨_, ⟨_, (indexRound_returns_iff hok hfits).mpr (if_pos hlen).symm, rfl⟩, rfl⟩
  · rw [← rowItem_fildes hthere hmany]
    exact hperm.map Item.fildes

theorem indexInitFrom_refused (hok : ∀ row ∈ rows, row.Ok maxKeylen) (hlen : rows.length < 2 ^ 30)
    (hnot : ¬ ((∀ row ∈ rows, there row.path = true) ∧ rows.length < t.room))
    (r : Except Fault (List Item × Table limit)) :
    IndexInitFrom maxKeylen qsort junk there t (some (fileOf rows)) r ↔ r = .error .exit := by
  unfold IndexInitFrom
  cases hopen : t.openFd with
  | none => exact Iff.rfl
  | some found =>
    obtain ⟨filelist, t₁⟩ := found
    have hroom := (Table.openFd_spec hopen).2.2
    have hfits : ¬ Openable (opensFrom t₁ there) rows := by
      intro hfits
      obtain ⟨hthere, hle⟩ := openable_opensFrom.mp hfits
      exact hnot ⟨hthere, by omega⟩
    constructor
    · rintro ⟨items, ⟨loaded, hloaded, rfl⟩, rfl⟩
      rw [(returns_refused hok hlen hfits).mp hloaded]
      rfl
    · rintro rfl
      exact ⟨_, ⟨_, (returns_refused hok hlen hfits).mpr rfl, rfl⟩, rfl⟩

/-- What is loaded has taken a descriptor for every row. -/
theorem indexInitFrom_room (hsort : Sorts qsort) (hok : ∀ row ∈ rows, row.Ok maxKeylen)
    (hlen : rows.length < 2 ^ 30) {items : List Item} {t' : Table limit}
    (h : IndexInitFrom maxKeylen qsort junk there t (some (fileOf rows)) (.ok (items, t'))) :
    t'.room + rows.length = t.room := by
  by_cases hfits : (∀ row ∈ rows, there row.path = true) ∧ rows.length < t.room
  · rcases indexInitFrom_loaded hsort hok hlen hfits.1 hfits.2 with
      ⟨items', t'', hloaded, howns⟩
    have heq := (hloaded _).mp h
    cases heq
    exact howns.room
  · have heq := (indexInitFrom_refused hok hlen hfits _).mp h
    cases heq

/-- **The descriptors of the index.** The rows are loaded exactly if all their paths can be opened
and there is one descriptor more than they need; the program ends otherwise. Then every item has a
descriptor of its own, nothing else is kept, and closing them leads back to the table before. -/
theorem index_descriptors (hsort : Sorts qsort) (junk : Nat → Bytes)
    (hok : ∀ row ∈ rows, row.Ok maxKeylen) (hlen : rows.length < 2 ^ 30) (there : Bytes → Bool)
    (t : Table limit) :
    if (∀ row ∈ rows, there row.path = true) ∧ rows.length < t.room then
      ∃ items t', (∀ r, IndexInitFrom maxKeylen qsort junk there t (some (fileOf rows)) r ↔
        r = .ok (items, t')) ∧ Owns t t' items rows.length
    else
      ∀ r, IndexInitFrom maxKeylen qsort junk there t (some (fileOf rows)) r ↔
        r = .error .exit := by
  split
  · rename_i hfits
    exact indexInitFrom_loaded hsort hok hlen hfits.1 hfits.2
  · rename_i hnot
    exact indexInitFrom_refused hok hlen hnot

/-- Two rows, and a descriptor for the file of rows. -/
def twoRows : List Row := [⟨ascii "b", 32, ascii "x"⟩, ⟨ascii "a", 9, ascii "x"⟩]

theorem index_descriptors_two :
    ∃ items t', (∀ r, IndexInitFrom Simplecache.maxKeylen sortItems (fun _ => [])
      (fun path => path == ascii "x") (Table.standard 3) (some (fileOf twoRows)) r ↔
        r = .ok (items, t')) ∧ Owns (Table.standard 3) t' items 2 := by
  have hok : ∀ row ∈ twoRows, row.Ok Simplecache.maxKeylen := by
    intro row hrow
    rcases List.mem_cons.mp hrow with rfl | hrow
    · exact ⟨by decide, by decide, by decide, by decide⟩
    · rw [List.mem_singleton.mp hrow]
      exact ⟨by decide, by decide, by decide, by decide⟩
  have htwo := index_descriptors sorts_sortItems (fun _ => []) hok (by decide)
    (fun path => path == ascii "x") (Table.standard 3)
  rw [if_pos (by decide)] at htwo
  exact htwo

end IntroOS.Content
