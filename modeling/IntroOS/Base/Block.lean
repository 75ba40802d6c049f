import IntroOS.Base.CStr

/-! # Blocks of memory

An array or the result of a `malloc` is a block of so many bytes. A write into it either stays
inside or goes past its end, and a string function that looks for a NUL may not find one.

1. **Writes** (`Block.write`);
2. **Strings**: what `strcpy`, `sprintf`, `snprintf`, `strncpy` and `strncat` do to a block, and
   the string that is in it afterwards.
-/

namespace IntroOS

/-- A string of C, without the NUL that ends it. -/
structure Str where
  bytes : Bytes
  nul_free : 0 ∉ bytes

/-- How a string function leaves a block. -/
inductive Damage where
  /-- it looks for a NUL behind the block -/
  | unterminated
  /-- it writes behind the block -/
  | overrun
deriving DecidableEq, Repr

/-- `n` bytes of memory. -/
structure Block (n : Nat) where
  bytes : Bytes
  size : bytes.length = n
deriving DecidableEq, Repr

namespace Block

variable {n : Nat}

/-- A block with `b` everywhere. -/
def filled (n : Nat) (b : UInt8) : Block n := ⟨List.replicate n b, List.length_replicate⟩

/-- `data` goes to `off`. -/
def write (b : Block n) (off : Nat) (data : Bytes) : Except Damage (Block n) :=
  if h : off + data.length ≤ n then
    .ok {
      bytes := b.bytes.take off ++ (data ++ b.bytes.drop (off + data.length))
      size := by
        have hsize := b.size
        simp only [List.length_append, List.length_take, List.length_drop]
        omega }
  else .error .overrun

/-- The string at the start of the block. -/
def string (b : Block n) : Except Damage Bytes :=
  match cString b.bytes with
  | none => .error .unterminated
  | some s => .ok s

/-- `strcpy`, `sprintf` and a `%s` of `fscanf`: the bytes and a NUL. -/
def store (b : Block n) (s : Bytes) : Except Damage (Block n) := b.write 0 (s ++ [0])

/-- `snprintf(b, size, ..)`, where `s` is what the format makes. -/
def snprintf (b : Block n) (size : Nat) (s : Bytes) : Except Damage (Block n) :=
  if size = 0 then .ok b else b.write 0 (s.take (size - 1) ++ [0])

/-- `strncpy(b, s, size)`, which fills up with NULs. -/
def strncpy (b : Block n) (s : Bytes) (size : Nat) : Except Damage (Block n) :=
  b.write 0 (s.take size ++ List.replicate (size - s.length) 0)

/-- `strncat(b, s, size)`, which appends at most `size` bytes, and a NUL. -/
def strncat (b : Block n) (s : Bytes) (size : Nat) : Except Damage (Block n) :=
  match b.string with
  | .error damage => .error damage
  | .ok t => b.write t.length (s.take size ++ [0])

/-! ## Writes -/

theorem write_ok (b : Block n) {off : Nat} {data : Bytes} (h : off + data.length ≤ n) :
    ∃ b', b.write off data = .ok b' ∧
      b'.bytes = b.bytes.take off ++ (data ++ b.bytes.drop (off + data.length)) :=
  ⟨_, dif_pos h, rfl⟩

theorem write_overrun (b : Block n) {off : Nat} {data : Bytes} (h : ¬ off + data.length ≤ n) :
    b.write off data = .error .overrun := dif_neg h

/-! ## Strings -/

theorem string_eq_text {b : Block n} {s rest : Bytes} (h : b.bytes = s ++ 0 :: rest) :
    b.string = .ok (text s) := by
  have hmem : 0 ∈ s ++ 0 :: rest := List.mem_append_right _ List.mem_cons_self
  unfold string
  rw [h, cString_of_mem hmem]
  by_cases hs : 0 ∈ s
  · rw [text_append_of_mem hs]
  · rw [text_append_nul hs, text_of_nul_free hs]

theorem string_eq_ok {b : Block n} {s rest : Bytes} (hs : 0 ∉ s) (h : b.bytes = s ++ 0 :: rest) :
    b.string = .ok s := by
  rw [string_eq_text h, text_of_nul_free hs]

/-- The string in a block, and what stands behind it. -/
theorem bytes_of_string {b : Block n} {s : Bytes} (h : b.string = .ok s) :
    0 ∉ s ∧ ∃ rest, b.bytes = s ++ 0 :: rest := by
  unfold string at h
  by_cases hmem : 0 ∈ b.bytes
  · rw [cString_of_mem hmem] at h
    cases h
    exact ⟨text_nul_free _, text_split hmem⟩
  · rw [cString_eq_none.mpr hmem] at h
    cases h

theorem string_unterminated {b : Block n} (h : 0 ∉ b.bytes) :
    b.string = .error .unterminated := by
  unfold string
  rw [cString_eq_none.mpr h]

/-- What is stored ends at its first NUL. -/
theorem store_text (b : Block n) {s : Bytes} (h : s.length < n) :
    ∃ b', b.store s = .ok b' ∧ b'.string = .ok (text s) := by
  have hfits : 0 + (s ++ [0]).length ≤ n := by
    rw [List.length_append, List.length_singleton]
    omega
  rcases b.write_ok hfits with ⟨b', hwrite, hbytes⟩
  rw [List.take_zero, List.nil_append, List.append_assoc, List.singleton_append] at hbytes
  exact ⟨b', hwrite, string_eq_text hbytes⟩

theorem store_ok (b : Block n) {s : Bytes} (h0 : 0 ∉ s) (h : s.length < n) :
    ∃ b', b.store s = .ok b' ∧ b'.string = .ok s := by
  rcases b.store_text h with ⟨b', hstore, hstring⟩
  rw [text_of_nul_free h0] at hstring
  exact ⟨b', hstore, hstring⟩

theorem store_overrun (b : Block n) {s : Bytes} (h : ¬ s.length < n) :
    b.store s = .error .overrun := by
  refine b.write_overrun ?_
  rw [List.length_append, List.length_singleton]
  omega

/-- `snprintf` cuts what it prints where its size ends. -/
theorem snprintf_ok (b : Block n) {size : Nat} {s : Bytes} (h0 : 0 ∉ s) (hpos : 0 < size)
    (hsize : size ≤ n) :
    ∃ b', b.snprintf size s = .ok b' ∧ b'.string = .ok (s.take (size - 1)) := by
  have hcut : 0 ∉ s.take (size - 1) := fun hmem => h0 (List.mem_of_mem_take hmem)
  have hlen : (s.take (size - 1)).length < n := by
    rw [List.length_take]
    omega
  unfold snprintf
  rw [if_neg (Nat.ne_of_gt hpos)]
  exact b.store_ok hcut hlen

/-- A string that leaves room for a NUL. -/
theorem strncpy_ok (b : Block n) {s : Bytes} (h0 : 0 ∉ s) (h : s.length < n) :
    ∃ b', b.strncpy s n = .ok b' ∧ b'.string = .ok s := by
  have hfill : List.replicate (n - s.length) (0 : UInt8) =
      0 :: List.replicate (n - s.length - 1) 0 := by
    rw [← List.replicate_succ]
    congr 1
    omega
  have hfits : 0 + (s.take n ++ List.replicate (n - s.length) (0 : UInt8)).length ≤ n := by
    rw [List.length_append, List.length_take, List.length_replicate]
    omega
  rcases b.write_ok hfits with ⟨b', hwrite, hbytes⟩
  rw [List.take_zero, List.nil_append, List.take_of_length_le (Nat.le_of_lt h), hfill,
    List.append_assoc, List.cons_append] at hbytes
  exact ⟨b', hwrite, string_eq_ok h0 hbytes⟩

/-- A string that does not gets none. -/
theorem strncpy_full (b : Block n) {s : Bytes} (h0 : 0 ∉ s) (h : n ≤ s.length) :
    ∃ b', b.strncpy s n = .ok b' ∧ b'.string = .error .unterminated := by
  have hnone : n - s.length = 0 := by omega
  have hlen : (s.take n).length = n := List.length_take_of_le h
  have hfits : 0 + (s.take n ++ List.replicate (n - s.length) (0 : UInt8)).length ≤ n := by
    rw [hnone, List.replicate_zero, List.append_nil, hlen, Nat.zero_add]
  rcases b.write_ok hfits with ⟨b', hwrite, hbytes⟩
  refine ⟨b', hwrite, string_unterminated ?_⟩
  rw [hnone, List.replicate_zero, List.append_nil, List.take_zero, List.nil_append, hlen,
    Nat.zero_add, List.drop_of_length_le (Nat.le_of_eq b.size), List.append_nil] at hbytes
  rw [hbytes]
  exact fun hmem => h0 (List.mem_of_mem_take hmem)

theorem strncat_ok {b : Block n} {s t : Bytes} {size : Nat} (ht : b.string = .ok t) (h0 : 0 ∉ s)
    (h : t.length + (s.take size).length < n) :
    ∃ b', b.strncat s size = .ok b' ∧ b'.string = .ok (t ++ s.take size) := by
  rcases bytes_of_string ht with ⟨ht0, rest, hrest⟩
  have hfits : t.length + (s.take size ++ [0]).length ≤ n := by
    rw [List.length_append, List.length_singleton]
    omega
  rcases b.write_ok hfits with ⟨b', hwrite, hbytes⟩
  have h0' : 0 ∉ t ++ s.take size := by
    intro hmem
    rcases List.mem_append.mp hmem with hmem | hmem
    · exact ht0 hmem
    · exact h0 (List.mem_of_mem_take hmem)
  have htake : b.bytes.take t.length = t := by
    rw [hrest]
    exact List.take_left
  rw [htake, ← List.append_assoc, ← List.append_assoc, List.append_assoc (t ++ s.take size),
    List.singleton_append] at hbytes
  refine ⟨b', ?_, string_eq_ok h0' hbytes⟩
  unfold strncat
  rw [ht]
  exact hwrite

/-- `size` bounds what is appended, not where it ends. -/
theorem strncat_overrun {b : Block n} {s t : Bytes} {size : Nat} (ht : b.string = .ok t)
    (h : ¬ t.length + (s.take size).length < n) : b.strncat s size = .error .overrun := by
  have hfits : ¬ t.length + (s.take size ++ [0]).length ≤ n := by
    rw [List.length_append, List.length_singleton]
    omega
  unfold strncat
  rw [ht]
  exact b.write_overrun hfits

theorem strncat_unterminated {b : Block n} (hb : b.string = .error .unterminated) (s : Bytes)
    (size : Nat) : b.strncat s size = .error .unterminated := by
  unfold strncat
  rw [hb]

end Block

end IntroOS
