import IntroOS.Base.Search
import IntroOS.Content.Load
import Mathlib.Data.List.Sort

/-! # The index as a map

* `indexGet_finds`: the search ends, with an item of the key if there is one;
* `index_is_map`: what is loaded, sorted and looked up are the rows of the file;
* `index_too_long`: not so with 2^30 rows.
-/

namespace IntroOS.Content

/-! ## The order of the items -/

/-- The items are in the order of their keys. -/
def SortedItems (items : List Item) : Prop := items.Pairwise fun a b => itemcmp a b ≤ 0

/-- What is relied on of `qsort`. -/
structure Sorts (qsort : List Item → List Item) : Prop where
  perm : ∀ items, (qsort items).Perm items
  sorted : ∀ items, SortedItems (qsort items)

theorem itemcmp_le_iff {a b : Item} :
    itemcmp a b ≤ 0 ↔ codes (text a.key) ≤ codes (text b.key) := by
  have hpos := strcmp_pos_iff (text_nul_free a.key) (text_nul_free b.key)
  rw [← not_lt, ← not_lt, ← hpos]
  rfl

/-- The key against an item. -/
def cmpAt (items : List Item) (key : Bytes) (i : Nat) : Int :=
  match items[i]? with
  | none => 0
  | some item => strcmp key (text item.key)

theorem cmpAt_get {items : List Item} {key : Bytes} {i : Nat} {item : Item}
    (h : items[i]? = some item) : cmpAt items key i = strcmp key (text item.key) := by
  unfold cmpAt
  rw [h]

/-- The table that is searched is sorted. -/
theorem falling_cmpAt {items : List Item} (h : SortedItems items) {key : Bytes} (hkey : 0 ∉ key) :
    Falling (cmpAt items key) items.length := by
  have horder : ∀ i j (hi : i < items.length) (hj : j < items.length), i ≤ j →
      codes (text items[i].key) ≤ codes (text items[j].key) := by
    intro i j hi hj hle
    rcases Nat.lt_or_eq_of_le hle with hlt | rfl
    · exact itemcmp_le_iff.mp (List.pairwise_iff_getElem.mp h i j hi hj hlt)
    · exact le_refl _
  have hcmp : ∀ i (hi : i < items.length),
      cmpAt items key i = strcmp key (text items[i].key) := by
    intro i hi
    exact cmpAt_get (List.getElem?_eq_getElem hi)
  constructor
  · intro i j hle hj hneg
    have hi : i < items.length := by omega
    rw [hcmp i hi, strcmp_neg_iff hkey (text_nul_free _)] at hneg
    rw [hcmp j hj, strcmp_neg_iff hkey (text_nul_free _)]
    exact lt_of_lt_of_le hneg (horder i j hi hj hle)
  · intro i j hle hj hpos
    have hi : i < items.length := by omega
    rw [hcmp j hj, strcmp_pos_iff hkey (text_nul_free _)] at hpos
    rw [hcmp i hi, strcmp_pos_iff hkey (text_nul_free _)]
    exact lt_of_le_of_lt (horder i j hi hj hle) hpos

/-! ## Looking up -/

/-- An item of the key, or no item if there is none. -/
def Found (items : List Item) (key : Bytes) (r : Except Fault (Option Item)) : Prop :=
  (∃ item ∈ items, text item.key = key ∧ r = .ok (some item)) ∨
    (r = .ok none ∧ ∀ item ∈ items, text item.key ≠ key)

variable {items : List Item} {key : Bytes}

/-- A round looks at the item in the middle. -/
theorem getRound_middle {lo hi : Int} (hle : lo ≤ hi) {m : Nat} (hm : lo + (hi - lo) / 2 = m)
    {item : Item} (hitem : items[m]? = some item) :
    getRound items key (lo, hi) =
      if cmpAt items key m < 0 then .inl (lo, (m : Int) - 1)
      else if 0 < cmpAt items key m then .inl ((m : Int) + 1, hi)
      else .inr (.ok (some item)) := by
  have hneg : ¬ ((m : Int) < 0) := by omega
  unfold getRound
  simp only [hle, hm, hneg, Int.toNat_natCast, hitem, cmpAt_get hitem, not_true_eq_false, if_false]

/-- A round keeps the bracket and narrows it, or finds the item. -/
theorem getRound_cases (hsorted : SortedItems items) (hkey : 0 ∉ key) {lo hi : Int}
    (h : Bracket (cmpAt items key) items.length lo hi) :
    (∃ lo' hi', getRound items key (lo, hi) = .inl (lo', hi') ∧
      Bracket (cmpAt items key) items.length lo' hi' ∧
      (hi' + 1 - lo').toNat < (hi + 1 - lo).toNat) ∨
    (∃ r, getRound items key (lo, hi) = .inr r ∧ Found items key r) := by
  have hfalling := falling_cmpAt hsorted hkey
  by_cases hle : lo ≤ hi
  · rcases h.middle hle with ⟨m, hm, hlt, hlo, hhi⟩
    have hitem : items[m]? = some items[m] := List.getElem?_eq_getElem hlt
    rw [getRound_middle hle hm hitem]
    rcases lt_trichotomy (cmpAt items key m) 0 with hneg | hzero | hpos
    · left
      exact ⟨_, _, if_pos hneg, h.left hfalling hlt hneg, by omega⟩
    · right
      refine ⟨.ok (some items[m]), ?_, Or.inl ⟨items[m], List.getElem_mem hlt, ?_, rfl⟩⟩
      · rw [if_neg (by omega), if_neg (by omega)]
      · rw [cmpAt_get hitem, strcmp_zero_iff hkey (text_nul_free _)] at hzero
        exact hzero.symm
    · left
      refine ⟨_, _, ?_, h.right hfalling hlt hpos, by omega⟩
      rw [if_neg (by omega), if_pos hpos]
  · right
    refine ⟨.ok none, if_pos hle, Or.inr ⟨rfl, ?_⟩⟩
    intro item hmem heq
    obtain ⟨i, hi, rfl⟩ := List.getElem_of_mem hmem
    have hne := h.absent (by omega) i hi
    rw [cmpAt_get (List.getElem?_eq_getElem hi)] at hne
    exact hne ((strcmp_zero_iff hkey (text_nul_free _)).mpr heq.symm)

/-- **Search.** It ends, and with an item of the key if there is one. -/
theorem indexGet_finds (hsorted : SortedItems items) (hkey : 0 ∉ key) :
    ∃ r, IndexGet items key r ∧ Found items key r := by
  have hround : ∀ p p' : Int × Int, Bracket (cmpAt items key) items.length p.1 p.2 →
      getRound items key p = .inl p' → Bracket (cmpAt items key) items.length p'.1 p'.2 ∧
        (p'.2 + 1 - p'.1).toNat < (p.2 + 1 - p.1).toNat := by
    rintro ⟨lo, hi⟩ p' h hround
    rcases getRound_cases hsorted hkey h with ⟨lo', hi', hnext, h', hlt⟩ | ⟨r, hend, _⟩
    · rw [hround] at hnext
      cases hnext
      exact ⟨h', hlt⟩
    · rw [hround] at hend
      cases hend
  have hexit : ∀ p r, Bracket (cmpAt items key) items.length p.1 p.2 →
      getRound items key p = .inr r → Found items key r := by
    rintro ⟨lo, hi⟩ r h hround
    rcases getRound_cases hsorted hkey h with ⟨lo', hi', hnext, _⟩ | ⟨r', hend, hfound⟩
    · rw [hround] at hnext
      cases hnext
    · rw [hround] at hend
      cases hend
      exact hfound
  have hinit : Bracket (cmpAt items key) items.length (0, (items.length : Int) - 1).1
      (0, (items.length : Int) - 1).2 := Bracket.init _ _
  rcases loop_ends (fun p : Int × Int => (p.2 + 1 - p.1).toNat) hround hexit hinit
    (Nat.lt_succ_self _) with ⟨r, hr, hfound⟩
  exact ⟨r, ⟨_, hr⟩, hfound⟩

/-! ## The map -/

/-- Descriptor and key of an item. -/
def Item.entry (item : Item) : Int × Bytes := (item.fildes, text item.key)

/-- The descriptors that were opened for the rows, with their keys. -/
def rowEntries (opens : Nat → Bytes → Int) (rows : List Row) : List (Int × Bytes) :=
  rows.mapIdx fun n row => (opens n row.path, row.key)

/-- The descriptor opened for a row with the key, or -1 if no row has it. -/
def Maps (opens : Nat → Bytes → Int) (rows : List Row) (key : Bytes) (fildes : Int) : Prop :=
  (fildes, key) ∈ rowEntries opens rows ∨ (fildes = -1 ∧ ∀ row ∈ rows, row.key ≠ key)

/-- The index is a map from the keys of the rows to what was opened for their paths. `room` is
about every row that is read, and the attempt to read one more. -/
structure IndexIsMap (maxKeylen : Nat) (junk : Nat → Bytes) (opens : Nat → Bytes → Int)
    (rows : List Row) (init : Option Bytes → Except Fault (List Item) → Prop)
    (get : List Item → Bytes → Except Fault Int → Prop) : Prop where
  room : ∀ s, Visits (indexRound maxKeylen junk opens) (Loading.start (fileOf rows)) s →
    s.items.length < s.capacity
  loaded : ∃ items, init (some (fileOf rows)) (.ok items) ∧ SortedItems items ∧
    (items.map Item.entry).Perm (rowEntries opens rows) ∧
    ∀ key, 0 ∉ key → ∃ fildes, get items key (.ok fildes) ∧ Maps opens rows key fildes

variable {maxKeylen : Nat} {qsort : List Item → List Item} {junk : Nat → Bytes}
  {opens : Nat → Bytes → Int} {rows : List Row}

theorem rowItem_entries (hok : ∀ row ∈ rows, row.Ok maxKeylen) :
    (rows.mapIdx (rowItem junk opens)).map Item.entry = rowEntries opens rows := by
  unfold rowEntries
  apply List.ext_getElem?
  intro n
  rw [List.getElem?_map, List.getElem?_mapIdx, List.getElem?_mapIdx]
  cases hrow : rows[n]? with
  | none => rfl
  | some row =>
    have hkey := (hok row (List.mem_of_getElem? hrow)).key
    show some (opens n row.path, text (rowKey (junk n) row)) = some (opens n row.path, row.key)
    rw [text_rowKey hkey]

/-- The search result, in terms of the rows. -/
theorem maps_of_found (hperm : (items.map Item.entry).Perm (rowEntries opens rows))
    {r : Except Fault (Option Item)} (h : Found items key r) :
    ∃ found : Option Item, r = .ok found ∧
      Maps opens rows key (match found with | none => -1 | some item => item.fildes) := by
  rcases h with ⟨item, hmem, hkey, rfl⟩ | ⟨rfl, hnone⟩
  · refine ⟨some item, rfl, Or.inl ?_⟩
    rw [← hkey, ← hperm.mem_iff]
    exact List.mem_map_of_mem hmem
  · refine ⟨none, rfl, Or.inr ⟨rfl, ?_⟩⟩
    intro row hrow hkey
    obtain ⟨n, hn, rfl⟩ := List.getElem_of_mem hrow
    have hentry : (opens n rows[n].path, rows[n].key) ∈ rowEntries opens rows := by
      unfold rowEntries
      rw [List.mem_mapIdx]
      exact ⟨n, hn, rfl⟩
    rw [← hperm.mem_iff, List.mem_map] at hentry
    rcases hentry with ⟨item, hmem, heq⟩
    have htext : text item.key = rows[n].key := congrArg Prod.snd heq
    exact hnone item hmem (htext.trans hkey)

theorem indexIsMap_of_get {get : List Item → Bytes → Except Fault Int → Prop}
    (hsort : Sorts qsort) (hok : ∀ row ∈ rows, row.Ok maxKeylen) (hopen : Openable opens rows)
    (hlen : rows.length < 2 ^ 30)
    (hget : ∀ items key found, IndexGet items key (.ok found) →
      get items key (.ok (match found with | none => -1 | some item => item.fildes))) :
    IndexIsMap maxKeylen junk opens rows (IndexInit maxKeylen qsort junk opens) get := by
  refine ⟨fun s hs => visits_room hok hopen hs, ?_⟩
  have hloaded : Returns (indexRound maxKeylen junk opens) (Loading.start (fileOf rows))
      (.ok (rows.mapIdx (rowItem junk opens))) :=
    (indexRound_returns_iff hok hopen).mpr (if_pos hlen).symm
  have hsorted := hsort.sorted (rows.mapIdx (rowItem junk opens))
  have hperm : ((qsort (rows.mapIdx (rowItem junk opens))).map Item.entry).Perm
      (rowEntries opens rows) := by
    rw [← rowItem_entries hok]
    exact (hsort.perm _).map _
  refine ⟨_, ⟨_, hloaded, rfl⟩, hsorted, hperm, ?_⟩
  intro key hkey
  rcases indexGet_finds hsorted hkey with ⟨r, hr, hfound⟩
  rcases maps_of_found hperm hfound with ⟨found, rfl, hmaps⟩
  exact ⟨_, hget _ _ _ hr, hmaps⟩

/-- **The index.** With fewer than 2^30 rows, both indexes are maps. -/
theorem index_is_map (hsort : Sorts qsort) (junk : Nat → Bytes) (hopen : Openable opens rows)
    (hlen : rows.length < 2 ^ 30) :
    ((∀ row ∈ rows, row.Ok GfContent.maxKeylen) →
      IndexIsMap GfContent.maxKeylen junk opens rows (GfContent.ContentInit qsort junk opens)
        fun items key r => ∃ p, GfContent.ContentGet items key p ∧ r = p.map Prod.fst) ∧
    ((∀ row ∈ rows, row.Ok Simplecache.maxKeylen) →
      IndexIsMap Simplecache.maxKeylen junk opens rows (Simplecache.SimplecacheInit qsort junk opens)
        Simplecache.SimplecacheGet) := by
  constructor
  · intro hok
    apply indexIsMap_of_get hsort hok hopen hlen
    intro items key found h
    cases found with
    | none => exact ⟨_, ⟨_, h, rfl⟩, rfl⟩
    | some item => exact ⟨_, ⟨_, h, rfl⟩, rfl⟩
  · intro hok
    apply indexIsMap_of_get hsort hok hopen hlen
    intro items key found h
    cases found with
    | none => exact ⟨_, h, rfl⟩
    | some item => exact ⟨_, h, rfl⟩

/-- A sort by `_itemcmp`. -/
def sortItems : List Item → List Item := List.insertionSort fun a b => itemcmp a b ≤ 0

theorem sorts_sortItems : Sorts sortItems := by
  have htotal : Std.Total fun a b : Item => itemcmp a b ≤ 0 := by
    constructor
    intro a b
    rw [itemcmp_le_iff, itemcmp_le_iff]
    exact le_total _ _
  have htrans : IsTrans Item fun a b => itemcmp a b ≤ 0 := by
    constructor
    intro a b c hab hbc
    rw [itemcmp_le_iff] at hab hbc ⊢
    exact le_trans hab hbc
  constructor
  · intro items
    exact List.perm_insertionSort _ items
  · intro items
    exact List.pairwise_insertionSort _ items

/-- Two rows of one path. -/
theorem index_is_map_two :
    IndexIsMap Simplecache.maxKeylen (fun _ => []) (fun n _ => n + 3)
      [⟨ascii "b", 32, ascii "x"⟩, ⟨ascii "a", 9, ascii "x"⟩]
      (Simplecache.SimplecacheInit sortItems (fun _ => []) fun n _ => n + 3)
      Simplecache.SimplecacheGet := by
  refine (index_is_map sorts_sortItems (fun _ => []) ?_ (by decide)).2 ?_
  · intro n row _
    show (0 : Int) ≤ n + 3
    omega
  · intro row hrow
    rcases List.mem_cons.mp hrow with rfl | hrow
    · exact ⟨by decide, by decide, by decide, by decide⟩
    · rw [List.mem_singleton.mp hrow]
      exact ⟨by decide, by decide, by decide, by decide⟩

/-- With 2^30 rows the capacity overflows. -/
theorem index_too_long :
    ¬ ∀ (qsort : List Item → List Item) (junk : Nat → Bytes) (opens : Nat → Bytes → Int)
      (rows : List Row), Sorts qsort → Openable opens rows →
      (∀ row ∈ rows, row.Ok Simplecache.maxKeylen) →
      IndexIsMap Simplecache.maxKeylen junk opens rows
        (Simplecache.SimplecacheInit qsort junk opens) Simplecache.SimplecacheGet := by
  intro h
  obtain ⟨rows, hrows⟩ : ∃ rows : List Row,
    rows = List.replicate (2 ^ 30) ⟨ascii "a", 32, ascii "b"⟩ := ⟨_, rfl⟩
  have hlen : rows.length = 2 ^ 30 := by rw [hrows, List.length_replicate]
  have hopen : Openable (fun _ _ => 3) rows := by
    intro _ _ _
    show (0 : Int) ≤ 3
    decide
  have hok : ∀ row ∈ rows, row.Ok Simplecache.maxKeylen := by
    intro row hrow
    rw [hrows] at hrow
    rw [List.eq_of_mem_replicate hrow]
    exact ⟨by decide, by decide, by decide, by decide⟩
  rcases (h sortItems (fun _ => []) _ rows sorts_sortItems hopen hok).loaded with ⟨items, hinit, _⟩
  rcases hinit with ⟨loaded, hreturns, hitems⟩
  rw [(indexRound_returns_iff hok hopen).mp hreturns, if_neg (by omega)] at hitems
  cases hitems

end IntroOS.Content
