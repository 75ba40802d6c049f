import Mathlib.Data.Nat.Digits.Defs
import Mathlib.Data.Nat.Digits.Lemmas
import Mathlib.Data.List.TakeWhile
import Mathlib.Tactic.IntervalCases

/-! # C strings: cutting memory at NUL, `strtok`, decimal numerals

Memory is a list of bytes. A C string is what stands before the first NUL; a
region without one makes every string function read past its end, which the
models treat as undefined behaviour (`cString` is `none` there).

1. `token`: one `strtok`/`strtok_r` call over any alphabet and any separator set,
   with the shapes of text on which it succeeds;
2. `cString`: the string in a region of memory;
3. `decimal`, `strtoul`, `strtol`, `atoi`: printing and reading of numbers.
-/

namespace IntroOS

/-- Bytes of memory, of a socket or of a message. -/
abbrev Bytes := List UInt8

/-! ## Tokens -/

section Token

variable {α : Type*}

/-- One `strtok` call on the text left by the previous one: skip separators, return
the token and what follows the separator that ends it. `none` is the NULL result. -/
def token (sep : α → Bool) (s : List α) : Option (List α × List α) :=
  match s.dropWhile sep with
  | [] => none
  | x :: t => some (x :: t.takeWhile (fun b => !sep b), (t.dropWhile (fun b => !sep b)).tail)

/-- `tok` has no separator in it. -/
def Clean (sep : α → Bool) (tok : List α) : Prop := ∀ b ∈ tok, sep b = false

/-- `pre` consists of separators only. -/
def Seps (sep : α → Bool) (pre : List α) : Prop := ∀ b ∈ pre, sep b = true

instance (sep : α → Bool) (tok : List α) : Decidable (Clean sep tok) :=
  inferInstanceAs (Decidable (∀ b ∈ tok, sep b = false))

instance (sep : α → Bool) (pre : List α) : Decidable (Seps sep pre) :=
  inferInstanceAs (Decidable (∀ b ∈ pre, sep b = true))

theorem Seps.nil (sep : α → Bool) : Seps sep [] := by
  intro b hb
  cases hb

theorem Clean.append {sep : α → Bool} {s t : List α} (hs : Clean sep s) (ht : Clean sep t) :
    Clean sep (s ++ t) := by
  intro b hb
  rcases List.mem_append.mp hb with h | h
  · exact hs b h
  · exact ht b h

theorem dropWhile_seps_append {sep : α → Bool} {pre : List α} (h : Seps sep pre) (s : List α) :
    (pre ++ s).dropWhile sep = s.dropWhile sep :=
  List.dropWhile_append_of_pos h

/-- Leading separators are skipped. -/
theorem token_skip {sep : α → Bool} {pre : List α} (h : Seps sep pre) (s : List α) :
    token sep (pre ++ s) = token sep s := by
  simp only [token, dropWhile_seps_append h]

theorem token_none_of_seps {sep : α → Bool} {s : List α} (h : Seps sep s) :
    token sep s = none := by
  have hd : s.dropWhile sep = [] := by
    simpa using dropWhile_seps_append h []
  simp only [token, hd]

/-- A token that reaches a separator is cut there. -/
theorem token_cut {sep : α → Bool} {tok : List α} (hne : tok ≠ []) (hc : Clean sep tok) {x : α}
    (hx : sep x = true) (rest : List α) :
    token sep (tok ++ x :: rest) = some (tok, rest) := by
  cases tok with
  | nil => exact absurd rfl hne
  | cons y tok =>
    have hy : sep y = false := hc y (by simp)
    have ht : ∀ b ∈ tok, (!sep b) = true := fun b hb => by simp [hc b (by simp [hb])]
    have hd : (y :: tok ++ x :: rest).dropWhile sep = y :: (tok ++ x :: rest) := by
      simp [hy]
    simp only [token, hd, List.takeWhile_append_of_pos ht, List.dropWhile_append_of_pos ht]
    simp [hx]

/-- A token that reaches the end of the text is the whole text. -/
theorem token_whole {sep : α → Bool} {tok : List α} (hne : tok ≠ []) (hc : Clean sep tok) :
    token sep tok = some (tok, []) := by
  cases tok with
  | nil => exact absurd rfl hne
  | cons y tok =>
    have hy : sep y = false := hc y (by simp)
    have ht : ∀ b ∈ tok, (!sep b) = true := fun b hb => by simp [hc b (by simp [hb])]
    have hd : (y :: tok).dropWhile sep = y :: tok := by simp [hy]
    have h1 : tok.takeWhile (fun b => !sep b) = tok := List.takeWhile_eq_self_iff.mpr ht
    have h2 : tok.dropWhile (fun b => !sep b) = [] := List.dropWhile_eq_nil_iff.mpr ht
    simp only [token, hd, h1, h2, List.tail_nil]

/-- The three shapes of a text: separators only, a token up to the end, or a token cut by
a separator. -/
theorem token_shape (sep : α → Bool) (s : List α) :
    Seps sep s ∨
    (∃ pre tok, Seps sep pre ∧ tok ≠ [] ∧ Clean sep tok ∧ s = pre ++ tok) ∨
    (∃ pre tok x rest, Seps sep pre ∧ tok ≠ [] ∧ Clean sep tok ∧ sep x = true ∧
      s = pre ++ (tok ++ x :: rest)) := by
  have hpre : Seps sep (s.takeWhile sep) := fun b hb => List.mem_takeWhile_imp hb
  have hs : s = s.takeWhile sep ++ s.dropWhile sep := List.takeWhile_append_dropWhile.symm
  cases hd : s.dropWhile sep with
  | nil =>
    left
    rw [hs, hd, List.append_nil]
    exact hpre
  | cons y t =>
    right
    have hy : sep y = false := by
      have := List.head?_dropWhile_not sep s
      rw [hd] at this
      simpa using this
    have htok : Clean sep ((y :: t).takeWhile fun b => !sep b) := fun b hb => by
      simpa using List.mem_takeWhile_imp hb
    have hne : (y :: t).takeWhile (fun b => !sep b) ≠ [] := by simp [hy]
    have hsplit : y :: t = (y :: t).takeWhile (fun b => !sep b) ++
        (y :: t).dropWhile (fun b => !sep b) := List.takeWhile_append_dropWhile.symm
    cases hr : (y :: t).dropWhile fun b => !sep b with
    | nil =>
      left
      refine ⟨s.takeWhile sep, _, hpre, hne, htok, ?_⟩
      rw [hr, List.append_nil] at hsplit
      rw [← hsplit, ← hd]
      exact hs
    | cons x rest =>
      right
      have hx : sep x = true := by
        have := List.head?_dropWhile_not (fun b => !sep b) (y :: t)
        rw [hr] at this
        simpa using this
      refine ⟨s.takeWhile sep, _, x, rest, hpre, hne, htok, hx, ?_⟩
      rw [← hr, ← hsplit, ← hd]
      exact hs

/-- What a `strtok` result says about the text it was taken from. -/
theorem token_eq_some_iff {sep : α → Bool} {s tok rest : List α} :
    token sep s = some (tok, rest) ↔
      ∃ pre, Seps sep pre ∧ tok ≠ [] ∧ Clean sep tok ∧
        ((s = pre ++ tok ∧ rest = []) ∨ ∃ x, sep x = true ∧ s = pre ++ (tok ++ x :: rest)) := by
  constructor
  · intro h
    rcases token_shape sep s with hs | ⟨pre, tok', hp, hne, hc, rfl⟩ |
      ⟨pre, tok', x, rest', hp, hne, hc, hx, rfl⟩
    · rw [token_none_of_seps hs] at h
      cases h
    · rw [token_skip hp, token_whole hne hc] at h
      cases h
      exact ⟨pre, hp, hne, hc, Or.inl ⟨rfl, rfl⟩⟩
    · rw [token_skip hp, token_cut hne hc hx] at h
      cases h
      exact ⟨pre, hp, hne, hc, Or.inr ⟨x, hx, rfl⟩⟩
  · rintro ⟨pre, hp, hne, hc, ⟨rfl, rfl⟩ | ⟨x, hx, rfl⟩⟩
    · rw [token_skip hp, token_whole hne hc]
    · rw [token_skip hp, token_cut hne hc hx]

end Token

/-- The separator set of `strtok(.., " ")`. -/
def isSp (b : UInt8) : Bool := b == 32

theorem isSp_iff {b : UInt8} : isSp b = true ↔ b = 32 := by
  simp [isSp]

/-! ## Copies in chunks -/

/-- A chunk read where the last one ended continues the copy. -/
theorem prefix_read {sent content : List α} (h : sent <+: content) (n : Nat) :
    sent ++ (content.drop sent.length).take n <+: content := by
  have htake : sent = content.take sent.length := List.prefix_iff_eq_take.mp h
  have hsum : content.take (sent.length + n) = sent ++ (content.drop sent.length).take n := by
    rw [List.take_add, ← htake]
  rw [← hsum]
  exact List.take_prefix _ _

/-! ## Strings in memory -/

/-- The bytes of an ASCII literal of the source. -/
def ascii (s : String) : Bytes := s.toList.map Char.toUInt8

/-- A property of the bytes of a literal, from evaluation along the literal. -/
theorem forall_of_all {p : UInt8 → Prop} [DecidablePred p] {s : Bytes}
    (h : s.all (fun b => decide (p b)) = true) : ∀ b ∈ s, p b := by
  intro b hb
  exact of_decide_eq_true (List.all_eq_true.mp h b hb)

/-- The bytes before the first NUL, which is what string functions see. -/
def text (mem : Bytes) : Bytes := mem.takeWhile (· ≠ 0)

/-- The C string that starts a region of memory; `none` if no NUL ends it there. -/
def cString (mem : Bytes) : Option Bytes :=
  if 0 ∈ mem then some (text mem) else none

theorem text_nul_free (mem : Bytes) : 0 ∉ text mem := by
  intro h
  have := List.mem_takeWhile_imp h
  simp at this

theorem text_prefix_mem (mem : Bytes) : text mem <+: mem := List.takeWhile_prefix _

/-- A NUL-free start of the memory is part of the string. -/
theorem text_append {u : Bytes} (hu : 0 ∉ u) (v : Bytes) : text (u ++ v) = u ++ text v := by
  apply List.takeWhile_append_of_pos
  intro b hb
  have hb0 : b ≠ 0 := fun h0 => hu (h0 ▸ hb)
  simpa using hb0

@[simp] theorem text_nil : text [] = [] := rfl

@[simp] theorem text_nul (rest : Bytes) : text (0 :: rest) = [] := rfl

theorem text_of_nul_free {s : Bytes} (hs : 0 ∉ s) : text s = s := by
  simpa using text_append hs []

theorem text_append_nul {s : Bytes} (hs : 0 ∉ s) (rest : Bytes) : text (s ++ 0 :: rest) = s := by
  simp [text_append hs]

/-- The string of a region that holds a NUL, and the NUL that ends it. -/
theorem text_split {mem : Bytes} (h : 0 ∈ mem) : ∃ rest, mem = text mem ++ 0 :: rest := by
  have hsplit : mem = text mem ++ mem.dropWhile (· ≠ 0) := List.takeWhile_append_dropWhile.symm
  cases hd : mem.dropWhile (· ≠ 0) with
  | nil =>
    rw [hd, List.append_nil] at hsplit
    exact absurd (hsplit ▸ h) (text_nul_free mem)
  | cons x rest =>
    have hx := List.head?_dropWhile_not (fun b : UInt8 => decide (b ≠ 0)) mem
    rw [hd] at hx
    have hx0 : x = 0 := by simpa using hx
    rw [hd, hx0] at hsplit
    exact ⟨rest, hsplit⟩

/-- What stands after a NUL is not seen. -/
theorem text_append_of_mem {r : Bytes} (h : 0 ∈ r) (v : Bytes) : text (r ++ v) = text r := by
  obtain ⟨rest, hr⟩ := text_split h
  have hv : r ++ v = text r ++ 0 :: (rest ++ v) := by
    conv_lhs => rw [hr]
    simp
  rw [hv, text_append_nul (text_nul_free r)]

theorem cString_nul {s : Bytes} (hs : 0 ∉ s) (rest : Bytes) :
    cString (s ++ 0 :: rest) = some s := by
  unfold cString
  rw [if_pos (by simp), text_append_nul hs]

theorem cString_eq_none {mem : Bytes} : cString mem = none ↔ 0 ∉ mem := by
  simp [cString]

theorem cString_of_mem {mem : Bytes} (h : 0 ∈ mem) : cString mem = some (text mem) := if_pos h

/-! ## Decimal numerals -/

/-- What `%zu`, `%u` and `%lu` print. -/
def decimal (n : Nat) : Bytes :=
  if n = 0 then [48] else (Nat.digits 10 n).reverse.map fun d => UInt8.ofNat (48 + d)

/-- What `%d` prints. -/
def signedDecimal (z : Int) : Bytes :=
  if z < 0 then 45 :: decimal z.natAbs else decimal z.natAbs

/-- `isdigit`. -/
def isDigit (b : UInt8) : Bool := 48 ≤ b && b ≤ 57

/-- `isspace`: space, `\t`, `\n`, `\v`, `\f`, `\r`. -/
def isSpace (b : UInt8) : Bool := b == 32 || (9 ≤ b && b ≤ 13)

/-- The number a string of digits denotes. -/
def digitsValue (ds : Bytes) : Nat :=
  ds.foldl (fun n b => 10 * n + (b.toNat - 48)) 0

/-- Sign and digits of a number, after leading white space: `(negative, magnitude)`. -/
def scanNumber (s : Bytes) : Bool × Nat :=
  match s.dropWhile isSpace with
  | [] => (false, 0)
  | b :: t =>
    if b = 45 then (true, digitsValue (t.takeWhile isDigit))
    else if b = 43 then (false, digitsValue (t.takeWhile isDigit))
    else (false, digitsValue ((b :: t).takeWhile isDigit))

/-- `strtoul(s, NULL, 10)` for a 64-bit `unsigned long`: out of range gives `ULONG_MAX`, a
minus sign negates modulo `2^64`. -/
def strtoul (s : Bytes) : Nat :=
  let (neg, v) := scanNumber s
  if 2 ^ 64 ≤ v then 2 ^ 64 - 1 else if neg then (2 ^ 64 - v) % 2 ^ 64 else v

/-- `strtol(s, NULL, 10)` for a 64-bit `long`: saturates at `LONG_MIN` and `LONG_MAX`. -/
def strtol (s : Bytes) : Int :=
  let (neg, v) := scanNumber s
  if neg then max (-(v : Int)) (-2 ^ 63) else min (v : Int) (2 ^ 63 - 1)

/-- Conversion to a 32-bit `int`. -/
def toInt32 (z : Int) : Int := (z + 2 ^ 31) % 2 ^ 32 - 2 ^ 31

/-- Conversion to a 64-bit `ssize_t`. -/
def toInt64 (z : Int) : Int := (z + 2 ^ 63) % 2 ^ 64 - 2 ^ 63

/-- `atoi(s)`, which is `(int) strtol(s, NULL, 10)`. -/
def atoi (s : Bytes) : Int := toInt32 (strtol s)

/-- Conversion to a 64-bit `size_t`. -/
def toSize (z : Int) : Nat := (z % 2 ^ 64).toNat

theorem digitsValue_append (ds es : Bytes) :
    digitsValue (ds ++ es) = es.foldl (fun n b => 10 * n + (b.toNat - 48)) (digitsValue ds) := by
  simp [digitsValue, List.foldl_append]

theorem digit_toNat {d : Nat} (h : d < 10) : (UInt8.ofNat (48 + d)).toNat - 48 = d := by
  interval_cases d <;> rfl

theorem digit_isDigit {d : Nat} (h : d < 10) : isDigit (UInt8.ofNat (48 + d)) = true := by
  interval_cases d <;> rfl

/-- Reading the printed digits of a number gives it back; the digits are least
significant first, as `Nat.digits` lists them. -/
theorem digitsValue_reverse {ds : List Nat} (h : ∀ d ∈ ds, d < 10) :
    digitsValue (ds.reverse.map fun d => UInt8.ofNat (48 + d)) = Nat.ofDigits 10 ds := by
  induction ds with
  | nil => rfl
  | cons d ds ih =>
    have hd : d < 10 := h d (by simp)
    have ih' := ih fun e he => h e (by simp [he])
    rw [List.reverse_cons, List.map_append, digitsValue_append, ih', Nat.ofDigits_cons]
    simp only [List.map_cons, List.map_nil, List.foldl_cons, List.foldl_nil, digit_toNat hd]
    omega

theorem digits_lt_ten (n : Nat) : ∀ d ∈ Nat.digits 10 n, d < 10 :=
  fun _ hd => Nat.digits_lt_base (by omega) hd

theorem digitsValue_decimal (n : Nat) : digitsValue (decimal n) = n := by
  rw [decimal]
  split
  · rename_i h
    rw [h]
    rfl
  · rw [digitsValue_reverse (digits_lt_ten n), Nat.ofDigits_digits]

theorem decimal_isDigit (n : Nat) : ∀ b ∈ decimal n, isDigit b = true := by
  intro b hb
  rw [decimal] at hb
  split at hb
  · rw [List.mem_singleton.mp hb]
    rfl
  · obtain ⟨d, hd, rfl⟩ := List.mem_map.mp hb
    exact digit_isDigit (digits_lt_ten n d (List.mem_reverse.mp hd))

theorem decimal_ne_nil (n : Nat) : decimal n ≠ [] := by
  rw [decimal]
  split
  · simp
  · rename_i h
    simpa [Nat.digits_eq_nil_iff_eq_zero] using h

theorem digit_ne {b c : UInt8} (hb : isDigit b = true) (hc : isDigit c = false) : b ≠ c := by
  intro h
  rw [h, hc] at hb
  cases hb

/-- Digits end where the text behind them does not begin with one. -/
theorem takeWhile_digits {ds rest : Bytes} (hd : ∀ b ∈ ds, isDigit b = true)
    (hrest : ∀ b ∈ rest.head?, isDigit b = false) : (ds ++ rest).takeWhile isDigit = ds := by
  rw [List.takeWhile_append_of_pos hd]
  cases rest with
  | nil => simp
  | cons b rest =>
    have hb := hrest b rfl
    simp [hb]

/-- A text that begins with digits is read as their value. -/
theorem scanNumber_digits {ds rest : Bytes} (hne : ds ≠ []) (hd : ∀ b ∈ ds, isDigit b = true)
    (hrest : ∀ b ∈ rest.head?, isDigit b = false) :
    scanNumber (ds ++ rest) = (false, digitsValue ds) := by
  have htake := takeWhile_digits hd hrest
  obtain ⟨b, t, rfl⟩ := List.exists_cons_of_ne_nil hne
  have hb := hd b (by simp)
  have h45 : b ≠ 45 := digit_ne hb rfl
  have h43 : b ≠ 43 := digit_ne hb rfl
  -- a digit is no white space
  have hws : isSpace b = false := by
    have h3 : b ≠ 32 := digit_ne hb rfl
    simp only [isDigit, Bool.and_eq_true, decide_eq_true_eq] at hb
    have h1 : (48 : UInt8).toNat ≤ b.toNat := UInt8.le_iff_toNat_le.mp hb.1
    have h2 : ¬ b ≤ 13 := by
      rw [UInt8.le_iff_toNat_le]
      simp at h1 ⊢
      omega
    simp [isSpace, h2, h3]
  simp only [List.cons_append] at htake ⊢
  unfold scanNumber
  rw [List.dropWhile_cons_of_neg (by simp [hws])]
  simp only [h45, h43, if_false, htake]

theorem toInt32_of_lt {n : Nat} (h : n < 2 ^ 31) : toInt32 n = n := by
  unfold toInt32
  omega

/-- `atoi` of a number that fits an `int`. -/
theorem atoi_digits {ds rest : Bytes} (hne : ds ≠ []) (hd : ∀ b ∈ ds, isDigit b = true)
    (hrest : ∀ b ∈ rest.head?, isDigit b = false) (hlt : digitsValue ds < 2 ^ 31) :
    atoi (ds ++ rest) = digitsValue ds := by
  have hmin : min (digitsValue ds : Int) (2 ^ 63 - 1) = digitsValue ds := by omega
  unfold atoi strtol
  simp only [scanNumber_digits hne hd hrest]
  simp only [Bool.false_eq_true, if_false, hmin]
  exact toInt32_of_lt hlt

/-- A minus sign and digits are read as the negative number. -/
theorem scanNumber_minus {ds rest : Bytes} (hd : ∀ b ∈ ds, isDigit b = true)
    (hrest : ∀ b ∈ rest.head?, isDigit b = false) :
    scanNumber (45 :: ds ++ rest) = (true, digitsValue ds) := by
  have hws : ¬ isSpace 45 = true := by decide
  unfold scanNumber
  rw [List.cons_append, List.dropWhile_cons_of_neg hws]
  simp only [if_true, takeWhile_digits hd hrest]

/-- `strtol` reads what `%d` prints, up to the bounds of a `long`. -/
theorem strtol_signedDecimal (z : Int) {rest : Bytes}
    (hrest : ∀ b ∈ rest.head?, isDigit b = false) :
    strtol (signedDecimal z ++ rest) = max (min z (2 ^ 63 - 1)) (-2 ^ 63) := by
  have hdigits := decimal_isDigit z.natAbs
  have hvalue := digitsValue_decimal z.natAbs
  unfold strtol signedDecimal
  by_cases hneg : z < 0
  · simp only [if_pos hneg, scanNumber_minus hdigits hrest, hvalue, if_true]
    omega
  · simp only [if_neg hneg, scanNumber_digits (decimal_ne_nil _) hdigits hrest, hvalue,
      Bool.false_eq_true, if_false]
    omega

/-- The length of a printed number in terms of its size. -/
theorem decimal_length_le {n k : Nat} (hk : 0 < k) : (decimal n).length ≤ k ↔ n < 10 ^ k := by
  rw [decimal]
  split
  · rename_i h
    rw [h]
    simp only [List.length_singleton]
    exact ⟨fun _ => by positivity, fun _ => hk⟩
  · rw [List.length_map, List.length_reverse]
    exact Nat.digits_length_le_iff (by omega) n

end IntroOS
