import IntroOS.Getfile.HeaderBuffers

/-! # The local files of `gfclient_download.c`

Every request of a run is downloaded into a file of its own: `localPath` appends a counter to the
path of the request. The two copies of the program have different formats and buffers, and only
one of them bounds what it writes.

1. **Names**: the formats, and `localPath`;
2. **Main**: the loop over the requests, up to the call of `openFile`;
3. the counter can be read off a name (`counterOf_format`), so names do not repeat.
-/

namespace IntroOS.Getfile.Download

/-! ## Names -/

/-- The two copies of the program. -/
inductive Copy where
  | gflib
  | mtgf
deriving DecidableEq, Repr

/-- The longest path that `main` requests. -/
def Copy.limit : Copy → Nat
  | .gflib => 256
  | .mtgf => 512

/-- The size of `local_path`. -/
def Copy.size : Copy → Nat
  | .gflib => 5120
  | .mtgf => 1024

/-- What stands before the counter: `_` or `-`. -/
def Copy.separator : Copy → UInt8
  | .gflib => 95
  | .mtgf => 45

/-- What `%06d` prints. -/
def padded (z : Int) : Bytes :=
  let digits := decimal z.natAbs
  if z < 0 then 45 :: (List.replicate (5 - digits.length) 48 ++ digits)
  else List.replicate (6 - digits.length) 48 ++ digits

/-- `"%s_%06d"` and `"%s-%06d"`. -/
def Copy.format (copy : Copy) (name : Bytes) (counter : Int) : Bytes :=
  name ++ copy.separator :: padded counter

/-- `localPath`: the buffer and the counter after it. -/
def localPath (copy : Copy) (counter : Int) (reqPath : Bytes) (buffer : Block copy.size) :
    Except Damage (Block copy.size × Int) :=
  let text := copy.format (reqPath.drop 1) counter
  let printed :=
    match copy with
    | .gflib => buffer.snprintf (Copy.size .gflib) text
    | .mtgf => buffer.store text
  printed.map fun buffer => (buffer, toInt32 (counter + 1))

/-! ## Main -/

/-- What ends the program. -/
inductive Stop where
  /-- `exit(EXIT_FAILURE)` -/
  | tooLong
  | damage (d : Damage)
deriving DecidableEq, Repr

/-- `names` is history: what `openFile` was called with. -/
structure St (copy : Copy) where
  counter : Int
  buffer : Block copy.size
  names : List Bytes

/-- Before the loop. -/
def St.start {copy : Copy} (junk : Block copy.size) : St copy := ⟨0, junk, []⟩

/-- A round of the loop, up to `openFile(local_path)`. -/
def request {copy : Copy} (s : St copy) (reqPath : Bytes) : Except Stop (St copy) :=
  if copy.limit < reqPath.length then .error .tooLong
  else
    match localPath copy s.counter reqPath s.buffer with
    | .error d => .error (.damage d)
    | .ok (buffer, counter) =>
      match buffer.string with
      | .error d => .error (.damage d)
      | .ok name => .ok ⟨counter, buffer, s.names ++ [name]⟩

/-- The loop, on the paths that `workload_get_path` returns. -/
def requests {copy : Copy} : St copy → List Bytes → Except Stop (St copy)
  | s, [] => .ok s
  | s, reqPath :: rest =>
    match request s reqPath with
    | .error stop => .error stop
    | .ok s => requests s rest

/-- A path that the program requests. -/
structure RequestPath (limit : Nat) where
  bytes : Bytes
  nul_free : 0 ∉ bytes
  slash : bytes.head? = some 47
  le : bytes.length ≤ limit

/-! ## Reading the counter -/

/-- The number at the end of a name. -/
def counterOf (name : Bytes) : Nat := digitsValue (name.reverse.takeWhile isDigit).reverse

theorem padded_natCast (k : Nat) :
    padded k = List.replicate (6 - (decimal k).length) 48 ++ decimal k := by
  have hpos : ¬ (k : Int) < 0 := by omega
  unfold padded
  rw [if_neg hpos, Int.natAbs_natCast]

theorem padded_isDigit (k : Nat) : ∀ b ∈ padded k, isDigit b = true := by
  intro b hb
  rw [padded_natCast] at hb
  rcases List.mem_append.mp hb with hzero | hdigit
  · rw [List.eq_of_mem_replicate hzero]
    decide
  · exact decimal_isDigit k b hdigit

/-- Leading zeros do not count. -/
theorem digitsValue_padded (k : Nat) : digitsValue (padded k) = k := by
  have hzeros : ∀ n, digitsValue (List.replicate n 48) = 0 := by
    intro n
    induction n with
    | zero => rfl
    | succ n ih =>
      rw [List.replicate_succ', digitsValue_append, ih]
      rfl
  rw [padded_natCast, digitsValue_append, hzeros]
  exact digitsValue_decimal k

theorem padded_length {k : Nat} (h : k < 2 ^ 31) : (padded k).length ≤ 10 := by
  have hdigits : (decimal k).length ≤ 10 :=
    (decimal_length_le (by omega)).mpr (Nat.lt_trans h (by decide))
  rw [padded_natCast, List.length_append, List.length_replicate]
  omega

theorem separator_not_digit (copy : Copy) : isDigit copy.separator = false := by
  cases copy <;> rfl

/-- No byte in front of the separator is taken for a digit of the counter. -/
theorem counterOf_format (copy : Copy) (name : Bytes) (k : Nat) :
    counterOf (copy.format name k) = k := by
  have hdigits : ∀ b ∈ (padded k).reverse, isDigit b = true := fun b hb =>
    padded_isDigit k b (List.mem_reverse.mp hb)
  have hsep : ∀ b ∈ (copy.separator :: name.reverse).head?, isDigit b = false := by
    intro b hb
    cases hb
    exact separator_not_digit copy
  have hreverse : (copy.format name k).reverse =
      (padded k).reverse ++ copy.separator :: name.reverse := by
    unfold Copy.format
    rw [List.reverse_append, List.reverse_cons, List.append_assoc, List.singleton_append]
  unfold counterOf
  rw [hreverse, takeWhile_digits hdigits hsep, List.reverse_reverse, digitsValue_padded]

/-! ## One request -/

section Request

variable {copy : Copy} {s : St copy} {k : Nat}

theorem format_nul_free (p : RequestPath copy.limit) (k : Nat) :
    0 ∉ copy.format (p.bytes.drop 1) k := by
  have hname : 0 ∉ p.bytes.drop 1 := fun h => p.nul_free (List.mem_of_mem_drop h)
  have hsep : (0 : UInt8) ≠ copy.separator := by cases copy <;> decide
  have hdigits : 0 ∉ padded k := by
    intro h
    exact absurd (padded_isDigit k 0 h) (by decide)
  unfold Copy.format
  simp only [List.mem_append, List.mem_cons, not_or]
  exact ⟨hname, hsep, hdigits⟩

theorem format_length (p : RequestPath copy.limit) (hk : k < 2 ^ 31) :
    (copy.format (p.bytes.drop 1) k).length < copy.size := by
  have hle := p.le
  have hpad := padded_length hk
  unfold Copy.format
  rw [List.length_append, List.length_cons, List.length_drop]
  -- the name without its `/`, the separator, and at most ten digits
  cases copy with
  | gflib =>
    have hlimit : Copy.limit .gflib = 256 := rfl
    have hsize : Copy.size .gflib = 5120 := rfl
    omega
  | mtgf =>
    have hlimit : Copy.limit .mtgf = 512 := rfl
    have hsize : Copy.size .mtgf = 1024 := rfl
    omega

/-- Both ways of printing give the whole name. -/
theorem localPath_ok (p : RequestPath copy.limit) (hk : k + 1 < 2 ^ 31) (buffer : Block copy.size) :
    ∃ buffer', localPath copy k p.bytes buffer = .ok (buffer', ((k + 1 : Nat) : Int)) ∧
      buffer'.string = .ok (copy.format (p.bytes.drop 1) k) := by
  have h0 := format_nul_free p k
  have hlt := format_length (k := k) p (by omega)
  have hnext : toInt32 ((k : Int) + 1) = ((k + 1 : Nat) : Int) := toInt32_of_lt hk
  cases copy with
  | gflib =>
    rcases buffer.snprintf_ok h0 (by decide) (Nat.le_refl _) with ⟨buffer', hprint, hstring⟩
    rw [List.take_of_length_le (by omega)] at hstring
    refine ⟨buffer', ?_, hstring⟩
    unfold localPath
    simp only [hprint, hnext]
    rfl
  | mtgf =>
    rcases buffer.store_ok h0 hlt with ⟨buffer', hprint, hstring⟩
    refine ⟨buffer', ?_, hstring⟩
    unfold localPath
    simp only [hprint, hnext]
    rfl

theorem request_ok (hcounter : s.counter = k) (p : RequestPath copy.limit) (hk : k + 1 < 2 ^ 31) :
    ∃ s', request s p.bytes = .ok s' ∧ s'.counter = ((k + 1 : Nat) : Int) ∧
      s'.names = s.names ++ [copy.format (p.bytes.drop 1) k] := by
  rcases localPath_ok p hk s.buffer with ⟨buffer, hlocal, hstring⟩
  have hle : ¬ copy.limit < p.bytes.length := Nat.not_lt.mpr p.le
  refine ⟨⟨_, buffer, _⟩, ?_, rfl, rfl⟩
  unfold request
  rw [if_neg hle, hcounter, hlocal]
  simp only [hstring]

end Request

/-! ## A run -/

/-- The names of the requests, from counter `k` on. -/
def namesFrom (copy : Copy) (k : Nat) (paths : List Bytes) : List Bytes :=
  (paths.zipIdx k).map fun p => copy.format (p.1.drop 1) p.2

theorem requests_ok {copy : Copy} {s : St copy} {k : Nat} (hcounter : s.counter = k)
    (paths : List (RequestPath copy.limit)) (hk : k + paths.length < 2 ^ 31) :
    ∃ s', requests s (paths.map RequestPath.bytes) = .ok s' ∧
      s'.names = s.names ++ namesFrom copy k (paths.map RequestPath.bytes) := by
  induction paths generalizing s k with
  | nil => exact ⟨s, rfl, (List.append_nil _).symm⟩
  | cons p paths ih =>
    rw [List.length_cons] at hk
    rcases request_ok hcounter p (by omega) with ⟨s₁, hfirst, hcounter₁, hnames₁⟩
    rcases ih hcounter₁ (by omega) with ⟨s', hrest, hnames⟩
    refine ⟨s', ?_, ?_⟩
    · rw [List.map_cons, requests, hfirst]
      exact hrest
    · rw [hnames, hnames₁, List.append_assoc]
      rfl

theorem namesFrom_counters (copy : Copy) (k : Nat) (paths : List Bytes) :
    (namesFrom copy k paths).map counterOf = List.range' k paths.length := by
  induction paths generalizing k with
  | nil => rfl
  | cons path paths ih =>
    have hrest := ih (k + 1)
    unfold namesFrom at hrest ⊢
    rw [List.zipIdx_cons, List.map_cons, List.map_cons, hrest, counterOf_format, List.length_cons,
      List.range'_succ]

theorem namesFrom_nodup (copy : Copy) (k : Nat) (paths : List Bytes) :
    (namesFrom copy k paths).Nodup := by
  -- the names differ in their counters already
  refine List.Nodup.of_map counterOf ?_
  rw [namesFrom_counters]
  exact List.nodup_range'

/-- **Local files.** In a run of fewer than `2^31` requests no two of them get the same name, and
every name is in the buffer as a whole, with a NUL behind it. -/
theorem local_paths_distinct (copy : Copy) (junk : Block copy.size)
    (paths : List (RequestPath copy.limit)) (hlen : paths.length < 2 ^ 31) :
    ∃ s, requests (St.start junk) (paths.map RequestPath.bytes) = .ok s ∧
      s.names = namesFrom copy 0 (paths.map RequestPath.bytes) ∧
      s.names.Nodup ∧ ∀ name ∈ s.names, name.length < copy.size := by
  have hcounter : (St.start junk).counter = ((0 : Nat) : Int) := rfl
  rcases requests_ok hcounter paths (by omega) with ⟨s, hrun, hnames⟩
  have hnames : s.names = namesFrom copy 0 (paths.map RequestPath.bytes) := hnames
  refine ⟨s, hrun, hnames, hnames ▸ namesFrom_nodup copy 0 _, ?_⟩
  intro name hname
  rw [hnames] at hname
  rcases List.mem_map.mp hname with ⟨⟨bytes, k⟩, hmem, rfl⟩
  have hk := List.snd_lt_of_mem_zipIdx hmem
  rw [List.length_map] at hk
  rcases List.mem_map.mp (List.fst_mem_of_mem_zipIdx hmem) with ⟨p, _, rfl⟩
  exact format_length p (by omega)

/-- The path of the second request ends like the name of the first. -/
theorem local_paths_distinct_alike : ∃ s : St .mtgf,
    requests (St.start (Block.filled _ 7)) [ascii "/a", ascii "/a-000000", ascii "/a"] = .ok s ∧
      s.names = namesFrom .mtgf 0 [ascii "/a", ascii "/a-000000", ascii "/a"] ∧
      s.names.Nodup ∧ ∀ name ∈ s.names, name.length < Copy.size .mtgf :=
  local_paths_distinct .mtgf (Block.filled _ 7)
    [⟨ascii "/a", by decide, by decide, by decide⟩,
      ⟨ascii "/a-000000", by decide, by decide, by decide⟩,
      ⟨ascii "/a", by decide, by decide, by decide⟩] (by decide)

end IntroOS.Getfile.Download
