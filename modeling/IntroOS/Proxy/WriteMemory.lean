import IntroOS.Proxy.Announced

/-! # `WriteMemoryCallback` when memory runs out

libcurl hands the body over in chunks, and the callback appends them to a buffer that it grows with
`realloc`. It never returns less than it was given, so libcurl sees no error.

* `BufferStruct.writeMemoryCallback`: the callback with the memory it works on;
* `Accumulates`: the buffer ends as the body and a NUL, whatever is in fresh memory;
* `accumulates_iff`: this is when.
-/

namespace IntroOS.Proxy

/-- `struct BufferStruct`: the allocated bytes, if `buffer` is not NULL. -/
structure BufferStruct where
  buffer : Option Bytes
  size : Nat
deriving DecidableEq, Repr

/-- A call of the callback, and whether its `realloc` succeeds. -/
structure Delivery where
  data : Bytes
  grown : Bool
deriving DecidableEq, Repr

/-- The block of `n` bytes that a `realloc` of `old` returns: `old` as far as it reaches, and then
what was in the memory. -/
def realloc (old : Option Bytes) (n : Nat) (junk : Nat → UInt8) : Bytes :=
  (List.range n).map fun i => ((old.getD [])[i]?).getD (junk i)

namespace BufferStruct

/-- `output` before the transfer. -/
def empty : BufferStruct := ⟨none, 0⟩

/-- `WriteMemoryCallback`, with the value it returns; `none` is a write beyond the block. -/
def writeMemoryCallback (mem : BufferStruct) (c : Delivery) (junk : Nat → UInt8) :
    Option (BufferStruct × Nat) :=
  let realsize := c.data.length
  let allocated := (mem.size + realsize + 1) % 2 ^ 64
  if c.grown then
    if mem.size + realsize < allocated then
      let block := Cache.overwrite (realloc mem.buffer allocated junk) mem.size (c.data ++ [0])
      some (⟨some block, mem.size + realsize⟩, realsize)
    else none
  else some (⟨none, mem.size⟩, realsize)

/-- The calls of a transfer: `output` after them, and whether libcurl saw an error. -/
def perform : BufferStruct → (Nat → Nat → UInt8) → List Delivery → Option (BufferStruct × Bool)
  | mem, _, [] => some (mem, true)
  | mem, junk, c :: calls =>
    match mem.writeMemoryCallback c (junk 0) with
    | none => none
    | some (mem, returned) =>
      if returned = c.data.length then mem.perform (fun k => junk (k + 1)) calls
      else some (mem, false)

end BufferStruct

/-- The bytes that libcurl delivers. -/
def delivered (calls : List Delivery) : Bytes := (calls.map Delivery.data).flatten

/-- Unless libcurl sees an error, `output` is the body followed by a NUL, with its length. -/
def Accumulates (calls : List Delivery) : Prop :=
  ∀ junk, ∃ mem ok, BufferStruct.empty.perform junk calls = some (mem, ok) ∧
    (ok = true → mem = ⟨some (delivered calls ++ [0]), (delivered calls).length⟩)

/-- From the first byte on every `realloc` succeeds, and the last one does. -/
def Grows (calls : List Delivery) : Prop :=
  ∃ before after, calls = before ++ after ∧ after ≠ [] ∧ (∀ c ∈ before, c.data = []) ∧
    ∀ c ∈ after, c.grown = true

theorem not_grows_nil : ¬ Grows [] := by
  rintro ⟨before, after, heq, hne, _⟩
  exact hne (List.append_eq_nil_iff.mp heq.symm).2

/-- With the first byte it begins to matter. -/
theorem grows_cons_first {c : Delivery} (hdata : c.data ≠ []) {calls : List Delivery} :
    Grows (c :: calls) ↔ c.grown = true ∧ ∀ c' ∈ calls, c'.grown = true := by
  constructor
  · rintro ⟨before, after, heq, hne, hbefore, hafter⟩
    cases before with
    | nil =>
      cases heq
      exact List.forall_mem_cons.mp hafter
    | cons b before =>
      cases heq
      exact absurd (hbefore c List.mem_cons_self) hdata
  · intro hall
    exact ⟨[], c :: calls, rfl, List.cons_ne_nil c calls, List.forall_mem_nil _,
      List.forall_mem_cons.mpr hall⟩

/-- Until then only the last call matters. -/
theorem grows_cons_empty {c : Delivery} (hdata : c.data = []) {calls : List Delivery} :
    Grows (c :: calls) ↔ (calls = [] ∧ c.grown = true) ∨ Grows calls := by
  constructor
  · rintro ⟨before, after, heq, hne, hbefore, hafter⟩
    cases before with
    | nil =>
      cases heq
      rcases List.forall_mem_cons.mp hafter with ⟨hc, hrest⟩
      by_cases hnil : calls = []
      · exact Or.inl ⟨hnil, hc⟩
      · exact Or.inr ⟨[], calls, rfl, hnil, List.forall_mem_nil _, hrest⟩
    | cons b before =>
      cases heq
      exact Or.inr ⟨before, after, rfl, hne, (List.forall_mem_cons.mp hbefore).2, hafter⟩
  · rintro (⟨rfl, hc⟩ | ⟨before, after, rfl, hne, hbefore, hafter⟩)
    · exact ⟨[], [c], rfl, List.cons_ne_nil c [], List.forall_mem_nil _,
        List.forall_mem_singleton.mpr hc⟩
    · exact ⟨c :: before, after, rfl, hne, List.forall_mem_cons.mpr ⟨hdata, hbefore⟩, hafter⟩

/-! ## One call -/

namespace BufferStruct

/-- A `realloc` that fails loses the buffer and keeps the size. -/
theorem writeMemoryCallback_failed (mem : BufferStruct) {c : Delivery} (h : c.grown = false)
    (junk : Nat → UInt8) :
    mem.writeMemoryCallback c junk = some (⟨none, mem.size⟩, c.data.length) := by
  unfold writeMemoryCallback
  simp only [h, Bool.false_eq_true, if_false]

/-- A `realloc` that succeeds, unless the size wraps around. -/
theorem writeMemoryCallback_grown (mem : BufferStruct) {c : Delivery} (h : c.grown = true)
    (junk : Nat → UInt8) :
    mem.writeMemoryCallback c junk =
      if mem.size + c.data.length + 1 < 2 ^ 64 then
        some (⟨some (Cache.overwrite (realloc mem.buffer (mem.size + c.data.length + 1) junk) mem.size
          (c.data ++ [0])), mem.size + c.data.length⟩, c.data.length)
      else none := by
  unfold writeMemoryCallback
  simp only [h, if_true]
  by_cases hlt : mem.size + c.data.length + 1 < 2 ^ 64
  · rw [Nat.mod_eq_of_lt hlt, if_pos hlt, if_pos (Nat.lt_succ_self _)]
  · have hwrap : ¬ mem.size + c.data.length < (mem.size + c.data.length + 1) % 2 ^ 64 := by omega
    rw [if_neg hlt, if_neg hwrap]

/-- libcurl sees no error. -/
theorem perform_cons {mem mem' : BufferStruct} {junk : Nat → Nat → UInt8} {c : Delivery} {n : Nat}
    (h : mem.writeMemoryCallback c (junk 0) = some (mem', n)) (calls : List Delivery) :
    mem.perform junk (c :: calls) = mem'.perform (fun k => junk (k + 1)) calls := by
  have hreturned : n = c.data.length := by
    cases hg : c.grown with
    | false =>
      rw [writeMemoryCallback_failed mem hg] at h
      cases h
      rfl
    | true =>
      rw [writeMemoryCallback_grown mem hg] at h
      split at h
      · cases h
        rfl
      · cases h
  rw [perform, h]
  dsimp only
  rw [if_pos hreturned]

/-- What a transfer with a result did in its first call. -/
theorem perform_cons_some {mem : BufferStruct} {junk : Nat → Nat → UInt8} {c : Delivery}
    {calls : List Delivery} {r : BufferStruct × Bool} (h : mem.perform junk (c :: calls) = some r) :
    ∃ mem₁ n, mem.writeMemoryCallback c (junk 0) = some (mem₁, n) ∧
      mem₁.perform (fun k => junk (k + 1)) calls = some r := by
  cases hcall : mem.writeMemoryCallback c (junk 0) with
  | none =>
    rw [perform, hcall] at h
    cases h
  | some p =>
    rcases p with ⟨mem₁, n⟩
    rw [perform_cons hcall] at h
    exact ⟨mem₁, n, rfl, h⟩

theorem perform_ok {mem mem' : BufferStruct} {junk : Nat → Nat → UInt8} {calls : List Delivery}
    {ok : Bool} (h : mem.perform junk calls = some (mem', ok)) : ok = true := by
  induction calls generalizing mem junk with
  | nil =>
    cases h
    rfl
  | cons c calls ih =>
    rcases perform_cons_some h with ⟨mem₁, n, _, hrest⟩
    exact ih hrest

theorem writeMemoryCallback_size_le {mem mem' : BufferStruct} {c : Delivery} {junk : Nat → UInt8}
    {n : Nat} (h : mem.writeMemoryCallback c junk = some (mem', n)) :
    mem'.size ≤ mem.size + c.data.length := by
  cases hg : c.grown with
  | false =>
    rw [writeMemoryCallback_failed mem hg] at h
    cases h
    exact Nat.le_add_right _ _
  | true =>
    rw [writeMemoryCallback_grown mem hg] at h
    split at h
    · cases h
      exact Nat.le_refl _
    · cases h

/-- The size grows by no more than what is delivered. -/
theorem perform_size_le {mem mem' : BufferStruct} {junk : Nat → Nat → UInt8}
    {calls : List Delivery} {ok : Bool} (h : mem.perform junk calls = some (mem', ok)) :
    mem'.size ≤ mem.size + (delivered calls).length := by
  induction calls generalizing mem junk with
  | nil =>
    cases h
    exact Nat.le_refl _
  | cons c calls ih =>
    have hlength : (delivered (c :: calls)).length = c.data.length + (delivered calls).length :=
      List.length_append
    rcases perform_cons_some h with ⟨mem₁, n, hcall, hrest⟩
    have hfirst := writeMemoryCallback_size_le hcall
    have hle := ih hrest
    omega

end BufferStruct

/-! ## The block -/

theorem realloc_length (old : Option Bytes) (n : Nat) (junk : Nat → UInt8) :
    (realloc old n junk).length = n := by
  rw [realloc, List.length_map, List.length_range]

theorem realloc_zero {old : Option Bytes} {n : Nat} (hn : 0 < n) (junk : Nat → UInt8) :
    (realloc old n junk)[0]? = some (((old.getD [])[0]?).getD (junk 0)) := by
  rw [realloc, List.getElem?_map, List.getElem?_range hn, Option.map_some]

/-- `realloc` keeps what was there. -/
theorem take_realloc {old : Bytes} {m n : Nat} (hm : m ≤ old.length) (hn : m ≤ n)
    (junk : Nat → UInt8) : (realloc (some old) n junk).take m = old.take m := by
  apply List.ext_getElem
  · rw [List.length_take, List.length_take, realloc_length]
    omega
  · intro i hi _
    have hlt : i < old.length := by
      rw [List.length_take] at hi
      omega
    simp [realloc, hlt]

/-- The chunk is appended to what the buffer has, and the NUL moves behind it. -/
theorem overwrite_realloc {old : Option Bytes} (acc : Bytes) {data : Bytes} {n : Nat} {junk : Nat → UInt8}
    (hn : n = acc.length + data.length + 1)
    (hacc : (realloc old n junk).take acc.length = acc) :
    Cache.overwrite (realloc old n junk) acc.length (data ++ [0]) = acc ++ data ++ [0] := by
  have hdrop : (realloc old n junk).drop (acc.length + (data ++ [0]).length) = [] := by
    rw [List.drop_eq_nil_iff, realloc_length, List.length_append, List.length_singleton]
    omega
  rw [Cache.overwrite, hacc, hdrop, List.append_nil, List.append_assoc]

namespace BufferStruct

/-- `output` with the bytes `acc` in it. -/
def holding (acc : Bytes) : BufferStruct := ⟨some (acc ++ [0]), acc.length⟩

theorem writeMemoryCallback_holding {acc : Bytes} {c : Delivery} (hg : c.grown = true)
    (hfits : (acc ++ c.data).length + 1 < 2 ^ 64) (junk : Nat → UInt8) :
    (holding acc).writeMemoryCallback c junk = some (holding (acc ++ c.data), c.data.length) := by
  rw [List.length_append] at hfits
  have hkeeps : (realloc (some (acc ++ [0])) (acc.length + c.data.length + 1) junk).take acc.length =
      acc := by
    rw [take_realloc (by simp) (by omega), List.take_left]
  rw [writeMemoryCallback_grown _ hg, holding, if_pos hfits, overwrite_realloc acc rfl hkeeps, holding,
    List.length_append]

/-- Before the first byte the buffer may be anything. -/
theorem writeMemoryCallback_start {buffer : Option Bytes} {c : Delivery} (hg : c.grown = true)
    (hfits : c.data.length + 1 < 2 ^ 64) (junk : Nat → UInt8) :
    (BufferStruct.mk buffer 0).writeMemoryCallback c junk =
      some (holding c.data, c.data.length) := by
  have hblock : Cache.overwrite (realloc buffer (0 + c.data.length + 1) junk) 0 (c.data ++ [0]) =
      c.data ++ [0] := overwrite_realloc [] rfl List.take_zero
  have hfits' : 0 + c.data.length + 1 < 2 ^ 64 := by omega
  rw [writeMemoryCallback_grown _ hg, if_pos hfits', hblock, holding, Nat.zero_add]

/-! ## What is lost -/

/-- The bytes counted so far are gone, or replaced by one that was in fresh memory. -/
def Lost (b : UInt8) (mem : BufferStruct) : Prop :=
  0 < mem.size ∧ ((mem.buffer.getD [])[0]?).getD b = b

theorem Lost.call {b : UInt8} {mem mem' : BufferStruct} (h : mem.Lost b) {c : Delivery} {n : Nat}
    (hcall : mem.writeMemoryCallback c (fun _ => b) = some (mem', n)) : mem'.Lost b := by
  rcases h with ⟨hpos, hfirst⟩
  cases hg : c.grown with
  | false =>
    rw [writeMemoryCallback_failed mem hg] at hcall
    cases hcall
    exact ⟨hpos, rfl⟩
  | true =>
    rw [writeMemoryCallback_grown mem hg] at hcall
    split at hcall
    · cases hcall
      have hlength := realloc_length mem.buffer (mem.size + c.data.length + 1) fun _ => b
      have hzero : (Cache.overwrite (realloc mem.buffer (mem.size + c.data.length + 1) fun _ => b)
          mem.size (c.data ++ [0]))[0]? = some b := by
        rw [Cache.overwrite, List.getElem?_append_left (by rw [List.length_take]; omega),
          List.getElem?_take_of_lt hpos, realloc_zero (Nat.succ_pos _), hfirst]
      refine ⟨Nat.lt_of_lt_of_le hpos (Nat.le_add_right _ _), ?_⟩
      show ((Cache.overwrite _ _ _)[0]?).getD b = b
      rw [hzero, Option.getD_some]
    · cases hcall

theorem Lost.run {b : UInt8} {mem mem' : BufferStruct} (h : mem.Lost b)
    {calls : List Delivery} {ok : Bool}
    (hrun : mem.perform (fun _ _ => b) calls = some (mem', ok)) : mem'.Lost b := by
  induction calls generalizing mem with
  | nil =>
    cases hrun
    exact h
  | cons c calls ih =>
    rcases perform_cons_some hrun with ⟨mem₁, n, hcall, hrest⟩
    exact ih (h.call hcall) hrest

/-- A buffer that lost its first byte does not hold it, whatever it was. -/
theorem Lost.ne_holding {b x : UInt8} {mem : BufferStruct} (h : mem.Lost b) (hx : x ≠ b)
    (rest : Bytes) : mem ≠ holding (x :: rest) := by
  intro heq
  have hfirst := h.2
  rw [heq] at hfirst
  exact hx hfirst

/-- Whatever is in fresh memory, the calls lead to `acc`. -/
def LeadsTo (mem : BufferStruct) (calls : List Delivery) (acc : Bytes) : Prop :=
  ∀ junk, mem.perform junk calls = some (holding acc, true)

/-- A call whose result does not depend on fresh memory. -/
theorem leadsTo_cons {mem mem' : BufferStruct} {c : Delivery} {n : Nat}
    (hcall : ∀ junk, mem.writeMemoryCallback c junk = some (mem', n)) {calls : List Delivery}
    {acc : Bytes} : mem.LeadsTo (c :: calls) acc ↔ mem'.LeadsTo calls acc := by
  constructor
  · intro h junk
    have hrun := h fun k => junk (k - 1)
    rw [perform_cons (hcall _)] at hrun
    exact hrun
  · intro h junk
    rw [perform_cons (hcall _)]
    exact h _

/-- A size that wraps around. -/
theorem not_leadsTo_wrap {mem : BufferStruct} {c : Delivery} (hg : c.grown = true)
    (h : ¬ mem.size + c.data.length + 1 < 2 ^ 64) (calls : List Delivery) (acc : Bytes) :
    ¬ mem.LeadsTo (c :: calls) acc := by
  intro hleads
  have hrun := hleads fun _ _ => 0
  rw [perform, writeMemoryCallback_grown mem hg, if_neg h] at hrun
  cases hrun

/-- From a first byte on every `realloc` must succeed, and nothing wraps around. -/
theorem leadsTo_holding {acc : Bytes} (hne : acc ≠ []) (hfits : acc.length + 1 < 2 ^ 64)
    (calls : List Delivery) :
    (holding acc).LeadsTo calls (acc ++ delivered calls) ↔
      (∀ c ∈ calls, c.grown = true) ∧ (acc ++ delivered calls).length + 1 < 2 ^ 64 := by
  induction calls generalizing acc with
  | nil =>
    rw [show delivered [] = [] from rfl, List.append_nil]
    exact ⟨fun _ => ⟨List.forall_mem_nil _, hfits⟩, fun _ _ => rfl⟩
  | cons c calls ih =>
    have happend : acc ++ delivered (c :: calls) = acc ++ c.data ++ delivered calls :=
      (List.append_assoc _ _ _).symm
    rw [List.forall_mem_cons, happend]
    cases hg : c.grown with
    | false =>
      constructor
      · intro hleads
        -- the first byte is lost, and fresh memory may have another one
        rcases List.exists_cons_of_ne_nil hne with ⟨x, rest, rfl⟩
        have hrun := hleads fun _ _ => x + 1
        rw [perform_cons (writeMemoryCallback_failed _ hg _)] at hrun
        have hlost : Lost (x + 1) ⟨none, (x :: rest).length⟩ := ⟨Nat.succ_pos _, rfl⟩
        exact absurd rfl ((hlost.run hrun).ne_holding (by simp) _)
      · rintro ⟨⟨h, _⟩, _⟩
        cases h
    | true =>
      by_cases hstep : (acc ++ c.data).length + 1 < 2 ^ 64
      · have hne' : acc ++ c.data ≠ [] := List.append_ne_nil_of_left_ne_nil hne _
        rw [leadsTo_cons (writeMemoryCallback_holding hg hstep), ih hne' hstep]
        constructor
        · rintro ⟨hall, hlt⟩
          exact ⟨⟨rfl, hall⟩, hlt⟩
        · rintro ⟨⟨_, hall⟩, hlt⟩
          exact ⟨hall, hlt⟩
      · rw [List.length_append] at hstep
        constructor
        · intro hleads
          exact absurd hleads (not_leadsTo_wrap hg hstep calls _)
        · rintro ⟨_, hlt⟩
          rw [List.length_append, List.length_append] at hlt
          omega

theorem leadsTo_nil {mem : BufferStruct} {acc : Bytes} : mem.LeadsTo [] acc ↔ mem = holding acc := by
  constructor
  · intro h
    exact congrArg Prod.fst (Option.some.inj (h fun _ _ => 0))
  · rintro rfl junk
    rfl

/-- A first chunk that is not stored is missing in the end. -/
theorem not_leadsTo_missed {buffer : Option Bytes} {c : Delivery} (hg : c.grown = false)
    (hdata : c.data ≠ []) (calls : List Delivery) :
    ¬ (BufferStruct.mk buffer 0).LeadsTo (c :: calls) (c.data ++ delivered calls) := by
  intro hleads
  have hpos := List.length_pos_iff.mpr hdata
  have hrun := hleads fun _ _ => 0
  rw [perform_cons (writeMemoryCallback_failed _ hg _)] at hrun
  have hle := perform_size_le hrun
  simp only [holding, List.length_append] at hle
  omega

/-- From the first byte on, none may fail. -/
theorem leadsTo_first {buffer : Option Bytes} {c : Delivery} (hdata : c.data ≠ [])
    (calls : List Delivery) :
    (BufferStruct.mk buffer 0).LeadsTo (c :: calls) (c.data ++ delivered calls) ↔
      (c.grown = true ∧ ∀ c' ∈ calls, c'.grown = true) ∧
        (c.data ++ delivered calls).length + 1 < 2 ^ 64 := by
  cases hg : c.grown with
  | false =>
    constructor
    · intro hleads
      exact absurd hleads (not_leadsTo_missed hg hdata calls)
    · rintro ⟨⟨h, _⟩, _⟩
      cases h
  | true =>
    by_cases hfits : c.data.length + 1 < 2 ^ 64
    · rw [leadsTo_cons (writeMemoryCallback_start hg hfits), leadsTo_holding hdata hfits]
      constructor
      · rintro ⟨hall, hlt⟩
        exact ⟨⟨rfl, hall⟩, hlt⟩
      · rintro ⟨⟨_, hall⟩, hlt⟩
        exact ⟨hall, hlt⟩
    · constructor
      · intro hleads
        have hwrap : ¬ 0 + c.data.length + 1 < 2 ^ 64 := by omega
        exact absurd hleads (not_leadsTo_wrap hg hwrap calls _)
      · rintro ⟨_, hlt⟩
        rw [List.length_append] at hlt
        omega

/-- Before the first byte a `realloc` may fail, unless it is the last. -/
theorem leadsTo_start {buffer : Option Bytes} (calls : List Delivery) :
    (BufferStruct.mk buffer 0).LeadsTo calls (delivered calls) ↔
      (calls = [] ∧ buffer = some [0]) ∨
        (Grows calls ∧ (delivered calls).length + 1 < 2 ^ 64) := by
  induction calls generalizing buffer with
  | nil =>
    have hnot : ¬ Grows [] := not_grows_nil
    rw [show delivered [] = [] from rfl, leadsTo_nil]
    constructor
    · intro heq
      exact Or.inl ⟨rfl, congrArg BufferStruct.buffer heq⟩
    · rintro (⟨_, hbuffer⟩ | ⟨h, _⟩)
      · rw [hbuffer]
        rfl
      · exact absurd h hnot
  | cons c calls ih =>
    have hsplit : delivered (c :: calls) = c.data ++ delivered calls := rfl
    by_cases hdata : c.data = []
    · rw [hsplit, hdata, List.nil_append, grows_cons_empty hdata]
      cases hg : c.grown with
      | false =>
        rw [leadsTo_cons (writeMemoryCallback_failed _ hg), ih]
        constructor
        · rintro (⟨_, h⟩ | ⟨hgrows, hlt⟩)
          · cases h
          · exact Or.inr ⟨Or.inr hgrows, hlt⟩
        · rintro (⟨h, _⟩ | ⟨⟨_, h⟩ | hgrows, hlt⟩)
          · cases h
          · cases h
          · exact Or.inr ⟨hgrows, hlt⟩
      | true =>
        have hfits : c.data.length + 1 < 2 ^ 64 := by
          rw [hdata]
          decide
        rw [leadsTo_cons (writeMemoryCallback_start hg hfits), hdata,
          show holding [] = ⟨some [0], 0⟩ from rfl, ih]
        constructor
        · rintro (⟨rfl, _⟩ | ⟨hgrows, hlt⟩)
          · exact Or.inr ⟨Or.inl ⟨rfl, rfl⟩, by decide⟩
          · exact Or.inr ⟨Or.inr hgrows, hlt⟩
        · rintro (⟨h, _⟩ | ⟨⟨rfl, _⟩ | hgrows, hlt⟩)
          · cases h
          · exact Or.inl ⟨rfl, rfl⟩
          · exact Or.inr ⟨hgrows, hlt⟩
    · rw [hsplit, grows_cons_first hdata, or_iff_right (fun h => List.cons_ne_nil c calls h.1)]
      exact leadsTo_first hdata calls

end BufferStruct

/-- As long as no `realloc` fails, this is the buffer of `handle_with_curl`. -/
theorem Download.leadsTo_output (d : Download) (hne : d.chunks ≠ []) :
    BufferStruct.empty.LeadsTo (d.chunks.map fun data => ⟨data, true⟩) d.output := by
  have hbody : delivered (d.chunks.map fun data => ⟨data, true⟩) = d.output := by
    rw [d.output_eq, delivered, List.map_map]
    exact congrArg List.flatten (List.map_id d.chunks)
  have hgrows : Grows (d.chunks.map fun data => ⟨data, true⟩) := by
    refine ⟨[], _, rfl, mt List.map_eq_nil_iff.mp hne, List.forall_mem_nil _, ?_⟩
    intro c hc
    rcases List.mem_map.mp hc with ⟨data, _, rfl⟩
    rfl
  have hfits := d.fits
  rw [← hbody, BufferStruct.empty, BufferStruct.leadsTo_start]
  refine Or.inr ⟨hgrows, ?_⟩
  rw [hbody, d.output_eq]
  unfold Download.body
  omega

/-- **The body in memory.** `output` ends as the body with a NUL, unless libcurl sees an error, if
and only if the last `realloc` succeeds, none fails from the first byte on, and the body with its
NUL has fewer than 2^64 bytes. -/
theorem accumulates_iff (calls : List Delivery) :
    Accumulates calls ↔ Grows calls ∧ (delivered calls).length + 1 < 2 ^ 64 := by
  have hstart : Accumulates calls ↔ BufferStruct.empty.LeadsTo calls (delivered calls) := by
    constructor
    · intro h junk
      rcases h junk with ⟨mem, ok, hrun, hmem⟩
      have hok := BufferStruct.perform_ok hrun
      rw [hrun, hok, hmem hok]
      rfl
    · intro h junk
      exact ⟨_, true, h junk, fun _ => rfl⟩
  rw [hstart, BufferStruct.empty, BufferStruct.leadsTo_start]
  constructor
  · rintro (⟨_, h⟩ | h)
    · cases h
    · exact h
  · intro h
    exact Or.inr h

/-- The second of two chunks finds no memory: the first one is lost too, and no call reports it. -/
theorem accumulates_not_failed : ¬ ∀ calls : List Delivery, Accumulates calls := by
  intro h
  rcases h [⟨ascii "ab", true⟩, ⟨ascii "cd", false⟩] fun _ _ => 0 with ⟨mem, ok, hrun, hmem⟩
  have hend : BufferStruct.empty.perform (fun _ _ => 0)
      [⟨ascii "ab", true⟩, ⟨ascii "cd", false⟩] = some (⟨none, 2⟩, true) := by decide
  rw [hend] at hrun
  cases hrun
  exact absurd (hmem rfl) (by decide)

end IntroOS.Proxy
