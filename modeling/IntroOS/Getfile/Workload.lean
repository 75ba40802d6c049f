import IntroOS.Base.Block
import IntroOS.Base.Loop
import IntroOS.Base.Scan

/-! # `workload.c`

`workload_init` reads the paths of a workload file into a table, and `workload_get_path` hands
them out in turn. Both copies of the file are the same. `mode` is always `WORKLOAD_SEQ`, since
nothing sets it.

1. **Loading**: `fscanf` into `temp_buf`, and `strdup` into the table;
2. **Serving**: a counter of 32 bits, reduced modulo the number of paths;
3. **Property** (`RoundRobin`), and when it holds (`Manageable`).

The workload file can be opened. Concurrent calls of `workload_get_path` are numbered in the order
of their `__sync_fetch_and_add`.
-/

namespace IntroOS.Getfile.Workload

/-! ## Loading -/

inductive Fault where
  /-- in `temp_buf` -/
  | damage (d : Damage)
  /-- `gWorkloadPathArray` is used outside its bounds -/
  | outOfTable
  | divisionByZero
deriving DecidableEq, Repr

/-- `gWorkloadPathArray`. `none` is NULL. -/
structure Table where
  entries : List (Option Bytes)
  size : entries.length = 100
deriving DecidableEq, Repr

/-- A static variable begins with zeros. -/
def Table.null : Table := ⟨List.replicate 100 none, List.length_replicate⟩

/-- `gWorkloadPathArray[i] = path`. -/
def Table.store (table : Table) (i : Nat) (path : Bytes) : Except Fault Table :=
  if i < 100 then
    .ok ⟨table.entries.set i (some path), List.length_set.trans table.size⟩
  else .error .outOfTable

/-- `gWorkloadPathArray[index]`. -/
def Table.load (table : Table) (index : Int) : Except Fault (Option Bytes) :=
  if 0 ≤ index then
    match table.entries[index.toNat]? with
    | none => .error .outOfTable
    | some path => .ok path
  else .error .outOfTable

/-- The variables of `workload_init`. -/
structure Loading where
  stream : Bytes
  tempBuf : Block 256
  table : Table
  i : Nat
deriving DecidableEq, Repr

/-- A round of the `fscanf` loop. -/
def loadRound (s : Loading) : Loading ⊕ Except Fault Loading :=
  match scanWord isSpace s.stream with
  | none => .inr (.ok s)
  | some (tok, rest) =>
    match s.tempBuf.store tok with
    | .error d => .inr (.error (.damage d))
    | .ok tempBuf =>
      match tempBuf.string with
      | .error d => .inr (.error (.damage d))
      | .ok path =>
        match s.table.store s.i path with
        | .error f => .inr (.error f)
        | .ok table => .inl ⟨rest, tempBuf, table, s.i + 1⟩

/-! ## Serving -/

/-- `gWorkloadPathArray`, `gUniqueWorkloadPaths` and `counter`. -/
structure St where
  table : Table
  unique : Nat
  counter : Int
deriving DecidableEq, Repr

/-- Behind the loop. `gUniqueWorkloadPaths` is an `unsigned short`. -/
def Loading.done (s : Loading) : St := ⟨s.table, s.i % 2 ^ 16, 0⟩

/-- `workload_init` on a file with `text` in it. -/
def WorkloadInit (junk : Block 256) (text : Bytes) (r : Except Fault St) : Prop :=
  ∃ r', Returns loadRound ⟨text, junk, .null, 0⟩ r' ∧ r = r'.map Loading.done

/-- `workload_get_path`. -/
def workloadGetPath (s : St) : Except Fault (Option Bytes × St) :=
  let entry := s.counter
  let s : St := { s with counter := toInt32 (s.counter + 1) }
  if s.unique = 0 then .error .divisionByZero
  -- `%` takes the sign of `entry`
  else (s.table.load (entry.tmod s.unique)).map fun path => (path, s)

/-- What a number of calls return. -/
def getPaths : Nat → St → Except Fault (List (Option Bytes))
  | 0, _ => .ok []
  | calls + 1, s =>
    match workloadGetPath s with
    | .error f => .error f
    | .ok (path, s) => (getPaths calls s).map fun paths => path :: paths

/-! ## Property -/

/-- The tokens of a workload file. -/
def tokens (text : Bytes) : List Bytes := words isSpace text

/-- The table holds the tokens, and the `k`-th call returns the token with index `k` modulo their
number. -/
structure Serves (text : Bytes) (calls : Nat) (s : St) : Prop where
  stored : s.table.entries.take (tokens text).length = (tokens text).map some
  served : getPaths calls s =
    .ok ((List.range calls).map fun k => (tokens text)[k % (tokens text).length]?)

/-- `workload_init` returns, and the calls are served. -/
def RoundRobin (junk : Block 256) (text : Bytes) (calls : Nat) : Prop :=
  ∃ s, WorkloadInit junk text (.ok s) ∧ Serves text calls s

/-- The tokens fit, and the counter does not become negative. With one token this does not matter,
and in the first call behind the end of the counter it may not. -/
structure Manageable (text : Bytes) (calls : Nat) : Prop where
  fits : ∀ tok ∈ tokens text, tok.length < 256 ∧ 0 ∉ tok
  room : (tokens text).length ≤ 100
  some_token : calls = 0 ∨ tokens text ≠ []
  counter : calls ≤ 2 ^ 31 ∨ (tokens text).length = 1 ∨
    (calls = 2 ^ 31 + 1 ∧ (tokens text).length ∣ 2 ^ 31)

/-! ## The table -/

section Tables

variable {stored : List Bytes} {table : Table}

/-- The first entries of the table, and NULL behind them. -/
def Holds (table : Table) (stored : List Bytes) : Prop :=
  table.entries = stored.map some ++ List.replicate (100 - stored.length) none

theorem Holds.store (h : Holds table stored) (hroom : stored.length < 100) (path : Bytes) :
    ∃ table', table.store stored.length path = .ok table' ∧ Holds table' (stored ++ [path]) := by
  have hnext : 100 - stored.length = (100 - (stored.length + 1)) + 1 := by omega
  refine ⟨_, if_pos hroom, ?_⟩
  unfold Holds at h ⊢
  dsimp only
  rw [h, List.set_append_right _ _ (by rw [List.length_map]), List.length_map, Nat.sub_self, hnext,
    List.replicate_succ, List.set_cons_zero, List.map_append, List.length_append,
    List.append_assoc]
  rfl

theorem Holds.load (h : Holds table stored) {index : Nat} (hlt : index < stored.length) :
    table.load index = .ok stored[index]? := by
  have hpos : (0 : Int) ≤ index := Int.natCast_nonneg index
  have hentry : table.entries[index]? = some stored[index]? := by
    unfold Holds at h
    rw [h, List.getElem?_append_left (by rw [List.length_map]; exact hlt), List.getElem?_map,
      List.getElem?_eq_getElem hlt]
    rfl
  unfold Table.load
  rw [if_pos hpos, Int.toNat_natCast, hentry]

theorem load_negative {index : Int} (h : index < 0) : table.load index = .error .outOfTable :=
  if_neg (Int.not_le.mpr h)

theorem Holds.take (h : Holds table stored) :
    table.entries.take stored.length = stored.map some := by
  unfold Holds at h
  rw [h]
  exact List.take_left' (List.length_map _)

end Tables

/-! ## All rounds -/

section Rounds

variable {s : Loading} {stored toks : List Bytes}

/-- At the head of the loop. -/
structure Ready (s : Loading) (stored : List Bytes) : Prop where
  i : s.i = stored.length
  le : stored.length ≤ 100
  holds : Holds s.table stored

/-- A round that reads a token. -/
theorem Ready.round (h : Ready s stored) {tok rest : Bytes}
    (hscan : scanWord isSpace s.stream = some (tok, rest)) :
    (tok.length < 256 ∧ stored.length < 100 ∧ ∃ s', loadRound s = .inl s' ∧ s'.stream = rest ∧
      Ready s' (stored ++ [text tok])) ∨
    (¬ (tok.length < 256 ∧ stored.length < 100) ∧ ∃ f, loadRound s = .inr (.error f)) := by
  unfold loadRound
  simp only [hscan]
  by_cases hlen : tok.length < 256
  · rcases s.tempBuf.store_text hlen with ⟨tempBuf, hstore, hstring⟩
    simp only [hstore, hstring, h.i]
    by_cases hroom : stored.length < 100
    · rcases h.holds.store hroom (text tok) with ⟨table, htable, hholds⟩
      left
      simp only [htable]
      refine ⟨hlen, hroom, _, rfl, rfl, ?_, ?_, hholds⟩
      · rw [List.length_append]
        rfl
      · rw [List.length_append]
        exact hroom
    · right
      have hfull : s.table.store stored.length (text tok) = .error .outOfTable := if_neg hroom
      simp only [hfull]
      exact ⟨fun hboth => hroom hboth.2, _, rfl⟩
  · right
    simp only [s.tempBuf.store_overrun hlen]
    exact ⟨fun hboth => hlen hboth.1, _, rfl⟩

/-- The loop on a stream with the tokens `toks`. -/
theorem Ready.loads (h : Ready s stored) (hwords : words isSpace s.stream = toks) :
    ((∀ tok ∈ toks, tok.length < 256) ∧ stored.length + toks.length ≤ 100 ∧
      ∃ s', Returns loadRound s (.ok s') ∧ Ready s' (stored ++ toks.map text)) ∨
    (¬ ((∀ tok ∈ toks, tok.length < 256) ∧ stored.length + toks.length ≤ 100) ∧
      ∃ f, Returns loadRound s (.error f)) := by
  induction toks generalizing s stored with
  | nil =>
    left
    have hexit : loadRound s = .inr (.ok s) := by
      unfold loadRound
      rw [scanWord_of_nil hwords]
    refine ⟨List.forall_mem_nil _, h.le, s, (Returns.exit_iff hexit).mpr rfl, ?_⟩
    rw [List.map_nil, List.append_nil]
    exact h
  | cons tok toks ih =>
    rcases scanWord_of_cons hwords with ⟨rest, hscan, hrest⟩
    rw [List.forall_mem_cons, List.length_cons]
    rcases h.round hscan with ⟨hlen, hroom, s₁, hround, hstream, hready⟩ | ⟨hnot, f, hexit⟩
    · rcases ih hready (hstream ▸ hrest) with ⟨hall, hle, s', hreturns, hready'⟩ | ⟨hnot, f, hf⟩
      · rw [List.length_append, List.length_singleton] at hle
        rw [List.append_assoc] at hready'
        exact Or.inl ⟨⟨hlen, hall⟩, by omega, s', (Returns.round_iff hround).mpr hreturns,
          hready'⟩
      · -- a later token does not fit
        refine Or.inr ⟨?_, f, (Returns.round_iff hround).mpr hf⟩
        rintro ⟨⟨_, hall⟩, hle⟩
        refine hnot ⟨hall, ?_⟩
        rw [List.length_append, List.length_singleton]
        omega
    · -- this one does not
      refine Or.inr ⟨?_, f, (Returns.exit_iff hexit).mpr rfl⟩
      rintro ⟨⟨hlen, _⟩, hle⟩
      exact hnot ⟨hlen, by omega⟩

theorem ready_start (junk : Block 256) (text : Bytes) : Ready ⟨text, junk, .null, 0⟩ [] :=
  ⟨rfl, Nat.zero_le _, rfl⟩

end Rounds

/-! ## The counter -/

section Counter

variable {n calls k : Nat}

/-- `entry % gUniqueWorkloadPaths` in the `k`-th call. -/
def place (n k : Nat) : Int := (toInt32 k).tmod n

theorem place_of_lt (h : k < 2 ^ 31) (n : Nat) : place n k = ((k % n : Nat) : Int) := by
  unfold place
  rw [toInt32_of_lt h]
  exact (Int.ofNat_tmod k n).symm

/-- The first negative entries. -/
theorem place_of_ge (hge : 2 ^ 31 ≤ k) (hlt : k < 2 ^ 32) (n : Nat) :
    place n k = -(((2 ^ 32 - k) % n : Nat) : Int) := by
  have hentry : toInt32 k = -((2 ^ 32 - k : Nat) : Int) := by
    unfold toInt32
    omega
  unfold place
  rw [hentry, Int.neg_tmod]
  exact congrArg Neg.neg (Int.ofNat_tmod _ _).symm

theorem dvd_of_place (hge : 2 ^ 31 ≤ k) (hlt : k < 2 ^ 32) (h : 0 ≤ place n k) :
    n ∣ 2 ^ 32 - k := by
  rw [place_of_ge hge hlt] at h
  exact Nat.dvd_of_mod_eq_zero (by omega)

/-- The calls whose entries are no longer in order. -/
theorem counter_of_places (h : ∀ k < calls, 0 ≤ place n k) :
    calls ≤ 2 ^ 31 ∨ n = 1 ∨ (calls = 2 ^ 31 + 1 ∧ n ∣ 2 ^ 31) := by
  by_cases hshort : calls ≤ 2 ^ 31
  · exact Or.inl hshort
  · have hfirst : n ∣ 2 ^ 32 - 2 ^ 31 :=
      dvd_of_place (Nat.le_refl _) (by omega) (h (2 ^ 31) (by omega))
    have hhalf : 2 ^ 32 - 2 ^ 31 = 2 ^ 31 := by norm_num
    rw [hhalf] at hfirst
    by_cases hone : calls = 2 ^ 31 + 1
    · exact Or.inr (Or.inr ⟨hone, hfirst⟩)
    · -- `n` divides two numbers that follow each other
      have hsecond : n ∣ 2 ^ 32 - (2 ^ 31 + 1) :=
        dvd_of_place (by omega) (by omega) (h (2 ^ 31 + 1) (by omega))
      have hdiff : n ∣ 2 ^ 31 - (2 ^ 32 - (2 ^ 31 + 1)) := Nat.dvd_sub hfirst hsecond
      have hunit : 2 ^ 31 - (2 ^ 32 - (2 ^ 31 + 1)) = 1 := by norm_num
      rw [hunit] at hdiff
      exact Or.inr (Or.inl (Nat.dvd_one.mp hdiff))

theorem places_of_counter (h : calls ≤ 2 ^ 31 ∨ n = 1 ∨ (calls = 2 ^ 31 + 1 ∧ n ∣ 2 ^ 31))
    (hk : k < calls) : place n k = ((k % n : Nat) : Int) := by
  by_cases hlt : k < 2 ^ 31
  · exact place_of_lt hlt n
  · rcases h with hshort | rfl | ⟨hone, hdvd⟩
    · omega
    · unfold place
      rw [Nat.mod_one]
      exact Int.tmod_one _
    · have hlast : k = 2 ^ 31 := by omega
      have hhalf : 2 ^ 32 - 2 ^ 31 = 2 ^ 31 := by norm_num
      rw [hlast, place_of_ge (Nat.le_refl _) (by norm_num), hhalf, Nat.mod_eq_zero_of_dvd hdvd]
      rfl

theorem toInt32_succ (z : Int) : toInt32 (toInt32 z + 1) = toInt32 (z + 1) := by
  unfold toInt32
  omega

end Counter

/-! ## The calls -/

section Calls

variable {s : St} {stored : List Bytes} {k : Nat}

/-- In front of the `k`-th call. -/
structure Serving (s : St) (stored : List Bytes) (k : Nat) : Prop where
  unique : s.unique = stored.length
  holds : Holds s.table stored
  counter : s.counter = toInt32 k

/-- The statements of a call. -/
theorem Serving.call (h : Serving s stored k) (hne : stored ≠ []) :
    ∃ s', Serving s' stored (k + 1) ∧
      workloadGetPath s = (s.table.load (place stored.length k)).map fun path => (path, s') := by
  have hpos : ¬ s.unique = 0 := by
    rw [h.unique]
    exact fun hzero => hne (List.length_eq_zero_iff.mp hzero)
  refine ⟨{ s with counter := toInt32 (s.counter + 1) }, ⟨h.unique, h.holds, ?_⟩, ?_⟩
  · dsimp only
    rw [h.counter, toInt32_succ, Int.natCast_succ]
  · unfold workloadGetPath place
    dsimp only
    rw [if_neg hpos, h.counter, h.unique]

/-- Calls that look where they should. -/
theorem Serving.getPaths_ok (h : Serving s stored k) (hne : stored ≠ []) {calls : Nat}
    (hall : ∀ j < k + calls, place stored.length j = ((j % stored.length : Nat) : Int)) :
    getPaths calls s = .ok ((List.range' k calls).map fun j => stored[j % stored.length]?) := by
  induction calls generalizing s k with
  | zero => rfl
  | succ calls ih =>
    rcases h.call hne with ⟨s', hserving, hcall⟩
    have hlt : k % stored.length < stored.length := Nat.mod_lt _ (List.length_pos_iff.mpr hne)
    rw [hall k (by omega), h.holds.load hlt] at hcall
    have hrest := ih hserving fun j hj => hall j (by omega)
    rw [getPaths, hcall]
    simp only [Except.map, hrest]
    rfl

/-- Calls that return do not look in front of the table. -/
theorem Serving.places (h : Serving s stored k) (hne : stored ≠ []) {calls : Nat}
    {paths : List (Option Bytes)} (hpaths : getPaths calls s = .ok paths) :
    ∀ j, k ≤ j → j < k + calls → 0 ≤ place stored.length j := by
  induction calls generalizing s k paths with
  | zero =>
    intro j hle hlt
    omega
  | succ calls ih =>
    rcases h.call hne with ⟨s', hserving, hcall⟩
    intro j hle hlt
    by_cases hneg : place stored.length k < 0
    · -- the run would have ended here
      rw [load_negative hneg] at hcall
      rw [getPaths, hcall] at hpaths
      cases hpaths
    · rcases Nat.eq_or_lt_of_le hle with rfl | hlt'
      · omega
      · rw [getPaths, hcall] at hpaths
        cases hload : s.table.load (place stored.length k) with
        | error f =>
          rw [hload] at hpaths
          cases hpaths
        | ok path =>
          rw [hload] at hpaths
          cases hmore : getPaths calls s' with
          | error f =>
            simp only [Except.map, hmore] at hpaths
            cases hpaths
          | ok more => exact ih hserving hmore j hlt' (by omega)

/-- Without a token there is no call. -/
theorem getPaths_empty (hunique : s.unique = 0) {calls : Nat} {paths : List (Option Bytes)}
    (hpaths : getPaths calls s = .ok paths) : calls = 0 := by
  cases calls with
  | zero => rfl
  | succ calls =>
    have hcall : workloadGetPath s = .error .divisionByZero := if_pos hunique
    rw [getPaths, hcall] at hpaths
    cases hpaths

end Calls

/-! ## The generator -/

section Generator

variable {junk : Block 256} {text : Bytes} {calls : Nat}

/-- `workload_init` returns if the tokens fit. It stores them up to their first NUL. -/
theorem workloadInit_cases (junk : Block 256) (text : Bytes) :
    ((∀ tok ∈ tokens text, tok.length < 256) ∧ (tokens text).length ≤ 100 ∧
      ∃ s, WorkloadInit junk text (.ok s) ∧ Serving s ((tokens text).map IntroOS.text) 0) ∨
    (¬ ((∀ tok ∈ tokens text, tok.length < 256) ∧ (tokens text).length ≤ 100) ∧
      ∀ s, ¬ WorkloadInit junk text (.ok s)) := by
  rcases (ready_start junk text).loads rfl with ⟨hall, hle, s', hreturns, hready⟩ | ⟨hnot, f, hf⟩
  · rw [List.length_nil, Nat.zero_add] at hle
    rw [List.nil_append] at hready
    refine Or.inl ⟨hall, hle, s'.done, ⟨_, hreturns, rfl⟩, ?_, hready.holds, rfl⟩
    have hi := hready.i
    rw [List.length_map] at hi ⊢
    unfold Loading.done
    dsimp only
    rw [hi]
    exact Nat.mod_eq_of_lt (Nat.lt_of_le_of_lt hle (by norm_num))
  · rw [List.length_nil, Nat.zero_add] at hnot
    refine Or.inr ⟨hnot, ?_⟩
    rintro s ⟨r, hr, heq⟩
    rw [hr.unique hf] at heq
    cases heq

theorem map_text_eq {toks : List Bytes} :
    toks.map IntroOS.text = toks ↔ ∀ tok ∈ toks, 0 ∉ tok := by
  constructor
  · intro h tok htok
    have hself : IntroOS.text tok = tok := by
      have hmap : toks.map IntroOS.text = toks.map id := by rw [h, List.map_id]
      exact List.map_inj_left.mp hmap tok htok
    rw [← hself]
    exact text_nul_free tok
  · intro h
    have hmap : toks.map IntroOS.text = toks.map id :=
      List.map_congr_left fun tok htok => text_of_nul_free (h tok htok)
    rw [hmap, List.map_id]

theorem RoundRobin.manageable (h : RoundRobin junk text calls) : Manageable text calls := by
  rcases h with ⟨s, ⟨r, hr, heq⟩, hstored, hserved⟩
  rcases workloadInit_cases junk text with ⟨hlen, hroom, s', hinit, hserving⟩ | ⟨_, hnone⟩
  · -- there is only one state that `workload_init` leaves
    rcases hinit with ⟨r', hr', heq'⟩
    rw [hr.unique hr', ← heq'] at heq
    cases heq
    have htake := hserving.holds.take
    rw [List.length_map, hstored] at htake
    have htext := (List.map_injective_iff.mpr (Option.some_injective Bytes)) htake
    rw [← htext] at hserving
    have hempty : tokens text = [] → calls = 0 := by
      intro hnil
      have hunique := hserving.unique
      rw [hnil] at hunique
      exact getPaths_empty hunique hserved
    refine ⟨fun tok htok => ⟨hlen tok htok, map_text_eq.mp htext.symm tok htok⟩, hroom, ?_, ?_⟩
    · exact or_iff_not_imp_right.mpr fun hnil => hempty (not_not.mp hnil)
    · -- every call that returned had a place in the table
      by_cases hnil : tokens text = []
      · rw [hempty hnil]
        exact Or.inl (Nat.zero_le _)
      · have hplaces := hserving.places hnil hserved
        exact counter_of_places fun k hk => hplaces k (Nat.zero_le k) (by omega)
  · exact absurd ⟨r, hr, heq⟩ (hnone s)

theorem Manageable.roundRobin (h : Manageable text calls) (junk : Block 256) :
    RoundRobin junk text calls := by
  rcases workloadInit_cases junk text with ⟨_, _, s, hinit, hserving⟩ | ⟨hnot, _⟩
  · have htext := map_text_eq.mpr fun tok htok => (h.fits tok htok).2
    rw [htext] at hserving
    refine ⟨s, hinit, hserving.holds.take, ?_⟩
    rcases h.some_token with rfl | hne
    · rfl
    · rw [List.range_eq_range']
      refine hserving.getPaths_ok hne fun j hj => ?_
      exact places_of_counter h.counter (by omega)
  · exact absurd ⟨fun tok htok => (h.fits tok htok).1, h.room⟩ hnot

/-- **Workload generator.** The paths are stored, and returned in turn, exactly if the workload is
manageable. -/
theorem round_robin_iff (junk : Block 256) (text : Bytes) (calls : Nat) :
    RoundRobin junk text calls ↔ Manageable text calls := by
  constructor
  · exact RoundRobin.manageable
  · intro h
    exact h.roundRobin junk

/-- A file without tokens. -/
theorem round_robin_empty : ¬ ∀ (junk : Block 256) (text : Bytes) (calls : Nat),
    RoundRobin junk text calls := by
  intro h
  rcases (h (Block.filled 256 7) (ascii "\n") 1).manageable.some_token with hcalls | hne
  · cases hcalls
  · exact absurd rfl hne

end Generator

end IntroOS.Getfile.Workload
