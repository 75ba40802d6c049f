import IntroOS.Base.CStr

/-! # Numeric options

The cache version of `webproxy` and the `rpc_mt` service take numbers from the command line. `atoi`
makes an `int` of them, an assignment makes that an `unsigned short`, an `unsigned int` or a
`size_t`, and only then the range is checked. A negative size comes through the checks, but
`ftruncate` refuses it.

1. **Command lines**: what `getopt_long` returns;
2. **Programs**: `main` of `webproxy.c` up to the mapped shared memory, and of `minifyjpeg_svc.c`
   up to the threads;
3. **Property** (`Validates`, `ServiceValidates`): the ranges of the usage texts, and the numbers
   that are used;
4. **Condition** (`Harmless`, `ServiceHarmless`): numbers that their type can hold, or that are
   refused after all.

What the system grants is a parameter.
-/

namespace IntroOS.Proxy.Options

/-! ## Command lines -/

/-- The options with a number. -/
inductive Num where
  /-- `-n`, `--segment-count` -/
  | segmentCount
  /-- `-p`, `--port` -/
  | listenPort
  /-- `-t`, `--thread-count` -/
  | threadCount
  /-- `-z`, `--segment-size` -/
  | segmentSize
deriving DecidableEq, Repr

/-- A result of `getopt_long`. A number is an `A`: a text in the program, an integer where it is
given. -/
inductive Opt (A : Type) where
  | number (num : Num) (arg : A)
  /-- `-s`, `--server` -/
  | source (arg : Bytes)
  /-- `-i` and `-x` -/
  | ignored
  | help
  | unknown
deriving DecidableEq, Repr

def Opt.map {A B : Type} (f : A → B) : Opt A → Opt B
  | .number num arg => .number num (f arg)
  | .source arg => .source arg
  | .ignored => .ignored
  | .help => .help
  | .unknown => .unknown

/-- How the program ends before it starts. -/
inductive Exit where
  /-- `exit(status)` behind the usage text -/
  | usage (status : Nat)
  /-- `exit(__LINE__)` behind a message and the usage text -/
  | invalid (message : Bytes)
  /-- `exit(1)` behind a message and the text for `errno` -/
  | failed (message : Bytes)
deriving DecidableEq, Repr

/-! ## Programs -/

/-- Conversion to an `unsigned short`. -/
def toUShort (z : Int) : Nat := (z % 2 ^ 16).toNat

/-- Conversion to an `unsigned int`. -/
def toUInt (z : Int) : Nat := (z % 2 ^ 32).toNat

/-- The variables of `main` in `webproxy.c`. -/
structure Settings where
  port : Nat
  nworkerthreads : Nat
  nsegments : Nat
  segsize : Nat
  source : Option Bytes
deriving DecidableEq, Repr

def Settings.default : Settings where
  port := 6200
  nworkerthreads := 3
  nsegments := 3
  segsize := 6200
  source := some (ascii "s3.amazonaws.com/content.udacity-data.com")

/-- The assignment of `atoi(optarg)`. -/
def Settings.assign (s : Settings) : Num → Int → Settings
  | .segmentCount, z => { s with nsegments := toUInt z }
  | .listenPort, z => { s with port := toUShort z }
  | .threadCount, z => { s with nworkerthreads := toUShort z }
  | .segmentSize, z => { s with segsize := toSize z }

/-- The `getopt_long` loop. -/
def parse : Settings → List (Opt Bytes) → Except Exit Settings
  | s, [] => .ok s
  | s, .number num arg :: opts => parse (s.assign num (atoi arg)) opts
  | s, .source arg :: opts => parse { s with source := some arg } opts
  | s, .ignored :: opts => parse s opts
  | _, .help :: _ => .error (.usage 0)
  | _, .unknown :: _ => .error (.usage 1)

/-- The checks behind the loop. -/
def check (s : Settings) : Except Exit Settings :=
  -- on what the variables have made of the numbers
  if s.nworkerthreads < 1 ∨ s.nworkerthreads > 1024 then
    .error (.invalid (ascii "Worker thread count is invalid " ++ decimal s.nworkerthreads ++
      ascii "\n"))
  else if s.port < 1024 then
    .error (.invalid (ascii "Port number is invalid " ++ decimal s.port ++ ascii "\n"))
  else if s.source = none then .error (.invalid (ascii "Invalid (null) source name\n"))
  else if s.segsize < 128 then
    .error (.invalid (ascii "Segment size is invalid (" ++ decimal s.segsize ++ ascii ")\n"))
  else if s.nsegments < 1 then
    .error (.invalid (ascii "Must have a positive number of segments (" ++ decimal s.nsegments ++
      ascii ")\n"))
  else .ok s

/-- `total_mm_size = nsegments * segsize`, in a `size_t`. -/
def Settings.totalMmSize (s : Settings) : Nat := s.nsegments * s.segsize % 2 ^ 64

/-- Conversion of a `size_t` to an `off_t`. -/
def toOff (n : Nat) : Int := if n < 2 ^ 63 then n else n - 2 ^ 64

/-- What the system grants. -/
structure Grants where
  /-- `shm_open` gives a descriptor -/
  shmOpen : Bool
  /-- `ftruncate` to so many bytes -/
  ftruncate : Nat → Bool
  /-- `mmap` of so many bytes -/
  mmap : Nat → Bool

/-- The shared memory. A negative length is `EINVAL` for `ftruncate`. -/
def initMemory (g : Grants) (s : Settings) : Except Exit Settings :=
  if g.shmOpen = false then .error (.failed (ascii "Open failed: "))
  else if toOff s.totalMmSize < 0 ∨ g.ftruncate s.totalMmSize = false then
    .error (.failed (ascii "ftruncate: "))
  else if g.mmap s.totalMmSize = false then .error (.failed (ascii "mmap failed: "))
  else .ok s

/-- `main` of `webproxy.c` up to the mapped shared memory. -/
def webproxy (g : Grants) (opts : List (Opt Bytes)) : Except Exit Settings :=
  match parse .default opts with
  | .error exit => .error exit
  | .ok s =>
    match check s with
    | .error exit => .error exit
    | .ok s => initMemory g s

/-- The `getopt_long` loop of `minifyjpeg_svc.c`, which knows `-t` and `-h`. -/
def serviceParse : Nat → List (Opt Bytes) → Except Exit Nat
  | nworkerthreads, [] => .ok nworkerthreads
  | _, .number .threadCount arg :: opts => serviceParse (toUShort (atoi arg)) opts
  | _, .help :: _ => .error (.usage 0)
  | _, _ :: _ => .error (.usage 1)

/-- `main` of `minifyjpeg_svc.c` up to the threads: how many it creates. -/
def service (opts : List (Opt Bytes)) : Except Exit Nat :=
  match serviceParse 2 opts with
  | .error exit => .error exit
  | .ok nworkerthreads =>
    -- 0 is not refused
    if nworkerthreads > 1024 then
      .error (.invalid (ascii "Worker thread count is invalid: " ++ decimal nworkerthreads ++
        ascii "\n"))
    else .ok nworkerthreads

/-! ## Property -/

/-- The argument, if this is the option `num`. -/
def Opt.arg {A : Type} (num : Num) : Opt A → Option A
  | .number num' arg => if num' = num then some arg else none
  | _ => none

/-- What is given for `num`: the last one counts. -/
def given {A : Type} (num : Num) (opts : List (Opt A)) : Option A :=
  (opts.filterMap (Opt.arg num)).getLast?

/-- The command line with the integers in decimal. -/
def print (opts : List (Opt Int)) : List (Opt Bytes) := opts.map (Opt.map signedDecimal)

/-- The documented range. -/
def Num.InRange : Num → Int → Prop
  | .segmentCount, z => 1 ≤ z
  | .listenPort, z => 1024 ≤ z ∧ z ≤ 65535
  | .threadCount, z => 1 ≤ z ∧ z ≤ 1024
  | .segmentSize, z => 128 ≤ z

/-- The variable of `num`. -/
def Settings.value (s : Settings) : Num → Nat
  | .segmentCount => s.nsegments
  | .listenPort => s.port
  | .threadCount => s.nworkerthreads
  | .segmentSize => s.segsize

/-- If `webproxy` starts, the given numbers are in range, they are used as they are, and the shared
memory has the size of all segments. -/
def Validates (g : Grants) (opts : List (Opt Int)) : Prop :=
  ∀ s, webproxy g (print opts) = .ok s →
    (∀ num z, given num opts = some z → num.InRange z ∧ s.value num = z) ∧
    s.totalMmSize = s.nsegments * s.segsize

/-- If the service starts, the given number of threads is in range, and so many are created. -/
def ServiceValidates (opts : List (Opt Int)) : Prop :=
  ∀ nworkerthreads, service (print opts) = .ok nworkerthreads →
    ∀ z, given .threadCount opts = some z → (1 ≤ z ∧ z ≤ 1024) ∧ nworkerthreads = z

/-! ## Condition -/

/-- The conversions on the way of an integer to its variable: `strtol` stops at the bounds of a
`long`, `atoi` takes 32 bits of that, and the variable as many as it has. -/
def Num.narrow (num : Num) (z : Int) : Nat :=
  let int := toInt32 (max (min z (2 ^ 63 - 1)) (-2 ^ 63))
  match num with
  | .segmentCount => toUInt int
  | .listenPort => toUShort int
  | .threadCount => toUShort int
  | .segmentSize => toSize int

/-- What the checks accept. -/
def Num.Accepts : Num → Nat → Prop
  | .segmentCount, n => 1 ≤ n
  | .listenPort, n => 1024 ≤ n
  | .threadCount, n => 1 ≤ n ∧ n ≤ 1024
  | .segmentSize, n => 128 ≤ n

instance : (num : Num) → (n : Nat) → Decidable (num.Accepts n)
  | .segmentCount, n => inferInstanceAs (Decidable (1 ≤ n))
  | .listenPort, n => inferInstanceAs (Decidable (1024 ≤ n))
  | .threadCount, n => inferInstanceAs (Decidable (1 ≤ n ∧ n ≤ 1024))
  | .segmentSize, n => inferInstanceAs (Decidable (128 ≤ n))

/-- The integers that are used as they are. -/
def Num.Fits : Num → Int → Prop
  | .segmentCount, z => 0 ≤ z ∧ z < 2 ^ 32
  | .listenPort, z => 0 ≤ z ∧ z < 2 ^ 16
  | .threadCount, z => 0 ≤ z ∧ z < 2 ^ 16
  | .segmentSize, z => 0 ≤ z ∧ z < 2 ^ 31

/-- The program shows its usage text, or a narrowed number is out of range. -/
def Refused (opts : List (Opt Int)) : Prop :=
  .help ∈ opts ∨ .unknown ∈ opts ∨
    ∃ num z, given num opts = some z ∧ ¬ num.Accepts (num.narrow z)

/-- The number for `num` after narrowing, or its default. -/
def narrowed (num : Num) (opts : List (Opt Int)) : Nat :=
  ((given num opts).map num.narrow).getD (Settings.default.value num)

/-- The size of the shared memory, from the narrowed numbers. -/
def memory (opts : List (Opt Int)) : Nat :=
  narrowed .segmentCount opts * narrowed .segmentSize opts % 2 ^ 64

/-- The system gives the shared memory. It does not for what is a negative `off_t`. -/
def Granted (g : Grants) (opts : List (Opt Int)) : Prop :=
  g.shmOpen = true ∧ memory opts < 2 ^ 63 ∧ g.ftruncate (memory opts) = true ∧
    g.mmap (memory opts) = true

/-- The command line is refused, there is no shared memory for it, or every number fits its
variable. -/
def Harmless (g : Grants) (opts : List (Opt Int)) : Prop :=
  Refused opts ∨ ¬ Granted g opts ∨ ∀ num z, given num opts = some z → num.Fits z

/-- The command line is refused, or the number of threads is in range: the check has no lower
bound. -/
def ServiceHarmless (opts : List (Opt Int)) : Prop :=
  (∃ o ∈ opts, o.arg .threadCount = none) ∨
    ∀ z, given .threadCount opts = some z → 1024 < Num.threadCount.narrow z ∨ (1 ≤ z ∧ z ≤ 1024)

/-! ## The conversions -/

section Conversions

variable {num : Num} {z : Int}

theorem atoi_print (z : Int) :
    atoi (signedDecimal z) = toInt32 (max (min z (2 ^ 63 - 1)) (-2 ^ 63)) := by
  have hnil : ∀ b ∈ ([] : Bytes).head?, isDigit b = false := by
    intro b hb
    cases hb
  have hread := strtol_signedDecimal z hnil
  rw [List.append_nil] at hread
  unfold atoi
  rw [hread]

theorem value_assign (s : Settings) (num num' : Num) (z : Int) :
    (s.assign num (atoi (signedDecimal z))).value num' =
      if num = num' then num'.narrow z else s.value num' := by
  rw [atoi_print]
  cases num <;> cases num' <;> rfl

theorem narrow_eq (h : num.Fits z) : (num.narrow z : Int) = z := by
  cases num <;> simp only [Num.narrow, Num.Fits, toUInt, toUShort, toSize, toInt32] at h ⊢ <;> omega

/-- Only the largest `size_t` comes through without fitting, since -1 is read in its place. -/
theorem fits_of_narrow_eq (h : (num.narrow z : Int) = z) (hsmall : num.narrow z < 2 ^ 63) :
    num.Fits z := by
  cases num <;> simp only [Num.narrow, Num.Fits, toUInt, toUShort, toSize, toInt32] at h hsmall ⊢ <;>
    omega

/-- A size is an `int` that is not negative, or one of the largest of its type. -/
theorem narrow_segmentSize (z : Int) :
    Num.segmentSize.narrow z < 2 ^ 31 ∨
      (2 ^ 64 - 2 ^ 31 ≤ Num.segmentSize.narrow z ∧ Num.segmentSize.narrow z < 2 ^ 64) := by
  simp only [Num.narrow, toSize, toInt32]
  omega

theorem narrow_segmentCount (z : Int) : Num.segmentCount.narrow z < 2 ^ 32 := by
  simp only [Num.narrow, toUInt, toInt32]
  omega

theorem inRange_of_accepts (haccepts : num.Accepts (num.narrow z)) (hfits : num.Fits z) :
    num.InRange z := by
  have heq := narrow_eq hfits
  cases num <;> simp only [Num.Accepts, Num.InRange, Num.Fits] at haccepts hfits ⊢ <;> omega

end Conversions

/-! ## The programs -/

section Programs

variable {opts : List (Opt Int)} {s s' : Settings} {num : Num}

theorem given_cons {A : Type} (num : Num) (o : Opt A) (opts : List (Opt A)) :
    given num (o :: opts) = (given num opts).or (o.arg num) := by
  unfold given
  cases harg : o.arg num with
  | none => rw [List.filterMap_cons_none harg, Option.or_none]
  | some arg =>
    rw [List.filterMap_cons_some harg, List.getLast?_cons]
    cases (opts.filterMap (Opt.arg num)).getLast? <;> rfl

theorem value_assign_given (s : Settings) (num num' : Num) (z : Int) (opts : List (Opt Int)) :
    ((given num' opts).map num'.narrow).getD ((s.assign num (atoi (signedDecimal z))).value num') =
      ((given num' (.number num z :: opts)).map num'.narrow).getD (s.value num') := by
  rw [given_cons, value_assign]
  cases given num' opts with
  | some z' => rfl
  | none =>
    by_cases hnum : num = num'
    · simp [Opt.arg, hnum]
    · simp [Opt.arg, hnum]

theorem given_other (num : Num) {o : Opt Int} (ho : o.arg num = none) (opts : List (Opt Int)) :
    given num (o :: opts) = given num opts := by
  rw [given_cons, ho, Option.or_none]

/-- What the loop leaves in the variables. -/
theorem parse_cases (s : Settings) (opts : List (Opt Int)) :
    ((.help ∈ opts ∨ .unknown ∈ opts) ∧ ∃ exit, parse s (print opts) = .error exit) ∨
    (¬ (.help ∈ opts ∨ .unknown ∈ opts) ∧ ∃ s', parse s (print opts) = .ok s' ∧
      (s.source ≠ none → s'.source ≠ none) ∧
      ∀ num, s'.value num = ((given num opts).map num.narrow).getD (s.value num)) := by
  induction opts generalizing s with
  | nil => exact Or.inr ⟨by simp, s, rfl, id, fun _ => rfl⟩
  | cons o opts ih =>
    cases o with
    | number num z =>
      simp only [List.mem_cons, reduceCtorEq, false_or]
      rcases ih (s.assign num (atoi (signedDecimal z))) with hleft | ⟨hno, s', hparse, hsource, hvalue⟩
      · exact Or.inl hleft
      · refine Or.inr ⟨hno, s', hparse, ?_, ?_⟩
        · intro hsome
          refine hsource ?_
          cases num <;> exact hsome
        · -- the number counts unless it is given again
          intro num'
          rw [hvalue num', value_assign_given]
    | source arg =>
      have hgiven : ∀ num, given num (.source arg :: opts) = given num opts := fun num =>
        given_other num rfl opts
      simp only [List.mem_cons, reduceCtorEq, false_or, hgiven]
      rcases ih { s with source := some arg } with hleft | ⟨hno, s', hparse, hsource, hvalue⟩
      · exact Or.inl hleft
      · refine Or.inr ⟨hno, s', hparse, fun _ => hsource (Option.some_ne_none arg), ?_⟩
        intro num
        rw [hvalue num]
        cases num <;> rfl
    | ignored =>
      have hgiven : ∀ num, given num (.ignored :: opts) = given num opts := fun num =>
        given_other num rfl opts
      simp only [List.mem_cons, reduceCtorEq, false_or, hgiven]
      exact ih s
    | help => exact Or.inl ⟨Or.inl List.mem_cons_self, _, rfl⟩
    | unknown => exact Or.inl ⟨Or.inr List.mem_cons_self, _, rfl⟩

theorem if_error_eq_ok {α β : Type} {p : Prop} [Decidable p] {e : α} {x : Except α β} {b : β} :
    (if p then .error e else x) = .ok b ↔ ¬ p ∧ x = .ok b := by
  by_cases hp : p
  · simp [hp]
  · simp [hp]

/-- The checks are those of the four numbers, since `source` is never NULL. -/
theorem check_eq_ok (hsource : s.source ≠ none) :
    check s = .ok s' ↔ s = s' ∧ ∀ num : Num, num.Accepts (s.value num) := by
  have haccepts : (∀ num : Num, num.Accepts (s.value num)) ↔
      (1 ≤ s.nworkerthreads ∧ s.nworkerthreads ≤ 1024) ∧ 1024 ≤ s.port ∧ 128 ≤ s.segsize ∧
        1 ≤ s.nsegments := by
    constructor
    · intro h
      exact ⟨h .threadCount, h .listenPort, h .segmentSize, h .segmentCount⟩
    · rintro ⟨hthreads, hport, hsize, hcount⟩ num
      cases num <;> assumption
  rw [haccepts]
  unfold check
  rw [if_error_eq_ok, if_error_eq_ok, if_error_eq_ok, if_error_eq_ok, if_error_eq_ok,
    Except.ok.injEq]
  constructor
  · rintro ⟨hthreads, hport, _, hsize, hcount, rfl⟩
    exact ⟨rfl, by omega⟩
  · rintro ⟨rfl, haccepts⟩
    exact ⟨by omega, by omega, hsource, by omega, by omega, rfl⟩

/-- The checks are passed with these variables. -/
def Passes (opts : List (Opt Int)) (s : Settings) : Prop :=
  (∃ s₀, parse .default (print opts) = .ok s₀ ∧ check s₀ = .ok s) ∧
    ∀ num, s.value num = narrowed num opts

theorem accepts_default (num : Num) : num.Accepts (Settings.default.value num) := by
  cases num <;> decide

/-- The checks are passed exactly if the command line is not refused. -/
theorem passes_cases (g : Grants) (opts : List (Opt Int)) :
    (Refused opts ∧ ∀ s, webproxy g (print opts) ≠ .ok s) ∨
    (¬ Refused opts ∧ ∃ s, Passes opts s) := by
  unfold Refused Passes webproxy
  rcases parse_cases .default opts with ⟨husage, exit, hparse⟩ | ⟨husage, s, hparse, hsource, hvalue⟩
  · left
    rw [hparse]
    refine ⟨?_, fun s h => by cases h⟩
    rcases husage with hhelp | hunknown
    · exact Or.inl hhelp
    · exact Or.inr (Or.inl hunknown)
  · rw [hparse]
    dsimp only
    have hnull : s.source ≠ none := hsource (Option.some_ne_none _)
    by_cases hall : ∀ num : Num, num.Accepts (s.value num)
    · right
      refine ⟨?_, s, ⟨s, rfl, (check_eq_ok hnull).mpr ⟨rfl, hall⟩⟩, hvalue⟩
      rintro (hhelp | hunknown | ⟨num, z, hgiven, hnot⟩)
      · exact husage (Or.inl hhelp)
      · exact husage (Or.inr hunknown)
      · refine hnot ?_
        have haccepts := hall num
        rw [hvalue, hgiven] at haccepts
        exact haccepts
    · left
      refine ⟨?_, ?_⟩
      · rcases not_forall.mp hall with ⟨num, hnot⟩
        rw [hvalue] at hnot
        cases hgiven : given num opts with
        | none =>
          -- the defaults pass
          rw [hgiven] at hnot
          exact absurd (accepts_default num) hnot
        | some z =>
          rw [hgiven] at hnot
          exact Or.inr (Or.inr ⟨num, z, hgiven, hnot⟩)
      · intro s' h
        cases hcheck : check s with
        | error exit =>
          rw [hcheck] at h
          cases h
        | ok s₁ => exact hall ((check_eq_ok hnull).mp hcheck).2

end Programs

/-! ## The shared memory -/

section Memory

variable {g : Grants} {opts : List (Opt Int)} {s s' : Settings}

theorem initMemory_eq_ok : initMemory g s = .ok s' ↔ s = s' ∧ g.shmOpen = true ∧
    s.totalMmSize < 2 ^ 63 ∧ g.ftruncate s.totalMmSize = true ∧ g.mmap s.totalMmSize = true := by
  have hoff : toOff s.totalMmSize < 0 ↔ ¬ s.totalMmSize < 2 ^ 63 := by
    have hlt : s.totalMmSize < 2 ^ 64 := Nat.mod_lt _ (by norm_num)
    unfold toOff
    split
    · omega
    · omega
  unfold initMemory
  rw [if_error_eq_ok, if_error_eq_ok, if_error_eq_ok, hoff, Except.ok.injEq]
  simp only [Bool.not_eq_false, not_or, not_not]
  tauto

theorem Passes.totalMmSize (h : Passes opts s) : s.totalMmSize = memory opts := by
  have hcount := h.2 .segmentCount
  have hsize := h.2 .segmentSize
  simp only [Settings.value] at hcount hsize
  unfold Settings.totalMmSize memory
  rw [hcount, hsize]

/-- `webproxy` starts when the checks are passed and the memory is there. -/
theorem Passes.starts_iff (h : Passes opts s) :
    webproxy g (print opts) = .ok s' ↔ s = s' ∧ Granted g opts := by
  obtain ⟨⟨s₀, hparse, hcheck⟩, _⟩ := id h
  unfold webproxy
  rw [hparse]
  simp only [hcheck]
  rw [initMemory_eq_ok, h.totalMmSize]
  rfl

theorem narrowed_segmentCount (opts : List (Opt Int)) : narrowed .segmentCount opts < 2 ^ 32 := by
  unfold narrowed
  cases given .segmentCount opts with
  | none => decide
  | some z => exact narrow_segmentCount z

theorem narrowed_segmentSize (opts : List (Opt Int)) :
    narrowed .segmentSize opts < 2 ^ 31 ∨
      (2 ^ 64 - 2 ^ 31 ≤ narrowed .segmentSize opts ∧ narrowed .segmentSize opts < 2 ^ 64) := by
  unfold narrowed
  cases given .segmentSize opts with
  | none =>
    left
    decide
  | some z => exact narrow_segmentSize z

/-- A size that was negative leaves a negative `off_t`: it is too little below 2^64. -/
theorem wrapped_large {count size : Nat} (hcount : count < 2 ^ 32) (hpos : 1 ≤ count)
    (hlow : 2 ^ 64 - 2 ^ 31 ≤ size) (hhigh : size < 2 ^ 64) :
    2 ^ 63 ≤ count * size % 2 ^ 64 := by
  obtain ⟨k, hk, hkpos, hksmall⟩ : ∃ k, size + k = 2 ^ 64 ∧ 1 ≤ k ∧ k ≤ 2 ^ 31 :=
    ⟨2 ^ 64 - size, by omega, by omega, by omega⟩
  have hsmall : count * k < 2 ^ 63 := by
    calc
      count * k ≤ count * 2 ^ 31 := Nat.mul_le_mul_left _ hksmall
      _ < 2 ^ 32 * 2 ^ 31 := Nat.mul_lt_mul_of_pos_right hcount (by norm_num)
      _ = 2 ^ 63 := by norm_num
  have hkcount : 1 ≤ count * k := Nat.mul_pos hpos hkpos
  have hsum : count * size + count * k = count * 2 ^ 64 := by rw [← Nat.mul_add, hk]
  -- `count * size` is `count * k` below a multiple of 2^64
  have hrest : count * size = (count - 1) * 2 ^ 64 + (2 ^ 64 - count * k) := by
    have hsplit : count * 2 ^ 64 = (count - 1) * 2 ^ 64 + 2 ^ 64 := by
      rw [← Nat.succ_mul, Nat.succ_eq_add_one, Nat.sub_add_cancel hpos]
    omega
  rw [hrest, Nat.mul_add_mod_of_lt (by omega)]
  omega

end Memory

/-! ## The cache version of `webproxy` -/

section Webproxy

variable {g : Grants} {opts : List (Opt Int)} {s : Settings} {num : Num} {z : Int}

theorem Passes.value_given (h : Passes opts s) (hgiven : given num opts = some z) :
    s.value num = num.narrow z := by
  rw [h.2, narrowed, hgiven]
  rfl

theorem accepts_of_not_refused (h : ¬ Refused opts) (hgiven : given num opts = some z) :
    num.Accepts (num.narrow z) := by
  by_contra hnot
  exact h (Or.inr (Or.inr ⟨num, z, hgiven, hnot⟩))

theorem one_le_narrowed (h : ¬ Refused opts) : 1 ≤ narrowed .segmentCount opts := by
  unfold narrowed
  cases hgiven : given .segmentCount opts with
  | none => decide
  | some z => exact accepts_of_not_refused h hgiven

/-- Where the memory is granted, the size was not negative. -/
theorem Granted.segmentSize_lt (h : Granted g opts) (hnot : ¬ Refused opts) :
    narrowed .segmentSize opts < 2 ^ 31 := by
  rcases narrowed_segmentSize opts with hlt | ⟨hlow, hhigh⟩
  · exact hlt
  · have hlarge := wrapped_large (narrowed_segmentCount opts) (one_le_narrowed hnot) hlow hhigh
    exact absurd h.2.1 (Nat.not_lt.mpr hlarge)

theorem Granted.narrow_lt (h : Granted g opts) (hnot : ¬ Refused opts)
    (hgiven : given num opts = some z) : num.narrow z < 2 ^ 63 := by
  cases num with
  | segmentSize =>
    have hlt := h.segmentSize_lt hnot
    unfold narrowed at hlt
    rw [hgiven] at hlt
    exact Nat.lt_trans hlt (by norm_num)
  | segmentCount => exact Nat.lt_trans (narrow_segmentCount z) (by norm_num)
  | listenPort | threadCount =>
    simp only [Num.narrow, toUShort, toInt32]
    omega

/-- The product does not wrap around. -/
theorem Granted.totalMmSize_eq (h : Granted g opts) (hnot : ¬ Refused opts) (hs : Passes opts s) :
    s.totalMmSize = s.nsegments * s.segsize := by
  have hcount : s.nsegments = narrowed .segmentCount opts := hs.2 .segmentCount
  have hsize : s.segsize = narrowed .segmentSize opts := hs.2 .segmentSize
  have hlt := h.segmentSize_lt hnot
  have hle := Nat.le_of_lt (narrowed_segmentCount opts)
  unfold Settings.totalMmSize
  rw [hcount, hsize]
  refine Nat.mod_eq_of_lt ?_
  calc
    narrowed .segmentCount opts * narrowed .segmentSize opts ≤ 2 ^ 32 * 2 ^ 31 :=
      Nat.mul_le_mul hle (Nat.le_of_lt hlt)
    _ < 2 ^ 64 := by norm_num

theorem Validates.harmless (h : Validates g opts) : Harmless g opts := by
  rcases passes_cases g opts with ⟨hrefused, _⟩ | ⟨hnot, s, hs⟩
  · exact Or.inl hrefused
  · by_cases hgranted : Granted g opts
    · refine Or.inr (Or.inr ?_)
      intro num z hz
      have hused := ((h s (hs.starts_iff.mpr ⟨rfl, hgranted⟩)).1 num z hz).2
      rw [hs.value_given hz] at hused
      exact fits_of_narrow_eq hused (hgranted.narrow_lt hnot hz)
    · exact Or.inr (Or.inl hgranted)

theorem Harmless.validates (h : Harmless g opts) : Validates g opts := by
  intro s hstarts
  rcases passes_cases g opts with ⟨_, hnone⟩ | ⟨hnot, s', hs⟩
  · exact absurd hstarts (hnone s)
  · obtain ⟨rfl, hgranted⟩ := hs.starts_iff.mp hstarts
    have hfits := (h.resolve_left hnot).resolve_left (not_not.mpr hgranted)
    refine ⟨?_, hgranted.totalMmSize_eq hnot hs⟩
    intro num z hz
    refine ⟨inRange_of_accepts (accepts_of_not_refused hnot hz) (hfits num z hz), ?_⟩
    rw [hs.value_given hz]
    exact narrow_eq (hfits num z hz)

end Webproxy

/-! ## The service -/

section Service

variable {opts : List (Opt Int)}

/-- Everything but `-t` ends the service. -/
theorem serviceParse_other (n : Nat) {o : Opt Int} (ho : o.arg .threadCount = none)
    (opts : List (Opt Int)) : ∃ exit, serviceParse n (print (o :: opts)) = .error exit := by
  cases o with
  | number num z =>
    cases num with
    | threadCount => cases ho
    | segmentCount => exact ⟨_, rfl⟩
    | listenPort => exact ⟨_, rfl⟩
    | segmentSize => exact ⟨_, rfl⟩
  | source arg => exact ⟨_, rfl⟩
  | ignored => exact ⟨_, rfl⟩
  | help => exact ⟨_, rfl⟩
  | unknown => exact ⟨_, rfl⟩

theorem number_of_arg {num : Num} {o : Opt Int} {z : Int} (h : o.arg num = some z) :
    o = .number num z := by
  cases o with
  | number num' z' =>
    by_cases hnum : num' = num
    · simp only [Opt.arg, if_pos hnum, Option.some.injEq] at h
      rw [hnum, h]
    · simp only [Opt.arg, if_neg hnum, reduceCtorEq] at h
  | source arg => cases h
  | ignored => cases h
  | help => cases h
  | unknown => cases h

theorem serviceParse_cases (n : Nat) (opts : List (Opt Int)) :
    ((∃ o ∈ opts, o.arg .threadCount = none) ∧ ∃ exit, serviceParse n (print opts) = .error exit) ∨
    (¬ (∃ o ∈ opts, o.arg .threadCount = none) ∧ serviceParse n (print opts) =
      .ok (((given .threadCount opts).map Num.threadCount.narrow).getD n)) := by
  induction opts generalizing n with
  | nil => exact Or.inr ⟨by simp, rfl⟩
  | cons o opts ih =>
    by_cases ho : o.arg .threadCount = none
    · exact Or.inl ⟨⟨o, List.mem_cons_self, ho⟩, serviceParse_other n ho opts⟩
    · rcases Option.ne_none_iff_exists'.mp ho with ⟨z, hz⟩
      have hopt := number_of_arg hz
      rcases ih (toUShort (atoi (signedDecimal z))) with ⟨⟨o', hmem, ho'⟩, hexit⟩ | ⟨hno, hparse⟩
      · refine Or.inl ⟨⟨o', List.mem_cons_of_mem _ hmem, ho'⟩, ?_⟩
        rw [hopt]
        exact hexit
      · refine Or.inr ⟨?_, ?_⟩
        · rintro ⟨o', hmem, ho'⟩
          rcases List.mem_cons.mp hmem with rfl | hmem
          · exact ho ho'
          · exact hno ⟨o', hmem, ho'⟩
        · -- a later `-t` takes the place of this one
          rw [given_cons, hopt]
          refine hparse.trans ?_
          rw [atoi_print]
          cases given .threadCount opts <;> rfl

/-- The service starts with the narrowed number, unless that is above 1024. -/
theorem service_validates_iff (opts : List (Opt Int)) :
    ServiceValidates opts ↔ ServiceHarmless opts := by
  unfold ServiceValidates ServiceHarmless service
  rcases serviceParse_cases 2 opts with ⟨husage, exit, hparse⟩ | ⟨hno, hparse⟩
  · rw [hparse]
    exact ⟨fun _ => Or.inl husage, fun _ n h => by cases h⟩
  · rw [hparse, or_iff_right hno]
    simp only [if_error_eq_ok, Except.ok.injEq]
    constructor
    · intro h z hz
      rw [hz] at h
      by_cases hlarge : 1024 < Num.threadCount.narrow z
      · exact Or.inl hlarge
      · exact Or.inr (h _ ⟨hlarge, rfl⟩ z rfl).1
    · rintro h n ⟨hsmall, rfl⟩ z hz
      rw [hz] at hsmall ⊢
      rcases h z hz with hlarge | hrange
      · exact absurd hlarge hsmall
      · have hfits : Num.threadCount.Fits z := ⟨by omega, by omega⟩
        exact ⟨hrange, narrow_eq hfits⟩

end Service

/-- **Numeric options.** Whatever the system grants, the programs validate exactly the harmless
command lines. -/
theorem options_validated_iff (g : Grants) (webproxyOpts serviceOpts : List (Opt Int)) :
    (Validates g webproxyOpts ↔ Harmless g webproxyOpts) ∧
      (ServiceValidates serviceOpts ↔ ServiceHarmless serviceOpts) := by
  refine ⟨⟨?_, ?_⟩, service_validates_iff serviceOpts⟩
  · exact Validates.harmless
  · exact Harmless.validates

/-- `-t 65537` starts one thread. -/
theorem options_wrapped :
    ¬ ∀ g webproxyOpts serviceOpts, Validates g webproxyOpts ∧ ServiceValidates serviceOpts := by
  intro h
  have hgiven : ∀ num z, given num [Opt.number .threadCount 65537] = some z →
      num = .threadCount ∧ z = (65537 : Int) := by
    intro num z hz
    cases num <;> cases hz
    exact ⟨rfl, rfl⟩
  have hvalidates := (h ⟨true, fun _ => true, fun _ => true⟩ [.number .threadCount 65537] []).1
  rcases hvalidates.harmless with (hhelp | hunknown | hnot) | hdenied | hfits
  · simp at hhelp
  · simp at hunknown
  · rcases hnot with ⟨num, z, hz, hnot⟩
    rcases hgiven num z hz with ⟨rfl, rfl⟩
    refine hnot ?_
    simp [Num.narrow, Num.Accepts, toUShort, toInt32]
  · exact hdenied ⟨rfl, by decide, rfl, rfl⟩
  · have hwide := hfits .threadCount 65537 rfl
    simp only [Num.Fits] at hwide
    omega

end IntroOS.Proxy.Options
