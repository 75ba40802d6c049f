import IntroOS.Base.CStr

/-! # The Getfile wire format

Two views of a header, kept apart:

* **documented**: the grammar of requests and responses (`IsRequest`, `HasHeader`,
  `Complete`), with the optional space before the terminator;
* **as split by the code**: client and server both cut a header with
  `strtok(buf, " ")`, `strtok(NULL, " ")`, `strtok(NULL, "\r\n\r\n")`
  (`splitHeader`), and `splitHeader_eq_three` says on exactly which texts the three
  calls succeed.
-/

namespace IntroOS.Getfile

/-! ## Separators -/

/-- The separator set of `strtok(.., "\r\n\r\n")`: a set of two characters. -/
def isCrLf (b : UInt8) : Bool := b == 13 || b == 10

/-- `\r\n\r\n`. -/
def terminator : Bytes := ascii "\r\n\r\n"

/-! ## The three `strtok` calls -/

/-- Results of the three calls; a call that returns NULL leaves the text at its end, so
the calls after it return NULL too. -/
inductive Tokens where
  | none
  | one (first : Bytes)
  | two (first second : Bytes)
  | three (first second third : Bytes)
deriving DecidableEq, Repr

/-- `strtok(s, " ")`, `strtok(NULL, " ")`, `strtok(NULL, "\r\n\r\n")`. -/
def splitHeader (s : Bytes) : Tokens :=
  match token isSp s with
  | .none => .none
  | .some (a, s₁) =>
    match token isSp s₁ with
    | .none => .one a
    | .some (b, s₂) =>
      match token isCrLf s₂ with
      | .none => .two a b
      | .some (c, _) => .three a b c

/-- The text `s` splits into the tokens `a`, `b`, `c`, and `tail` is what is left of it:
empty, or a text that begins with CR or LF. -/
structure Splits (s a b c tail : Bytes) : Prop where
  first_ne : a ≠ []
  first_clean : Clean isSp a
  second_ne : b ≠ []
  second_clean : Clean isSp b
  third_ne : c ≠ []
  third_clean : Clean isCrLf c
  tail_cut : tail = [] ∨ ∃ x rest, isCrLf x = true ∧ tail = x :: rest
  shape : ∃ p q r, Seps isSp p ∧ Seps isSp q ∧ Seps isCrLf r ∧
    s = p ++ (a ++ 32 :: (q ++ (b ++ 32 :: (r ++ (c ++ tail)))))

/-- The last token of a text, whether or not a separator follows it. -/
theorem token_head {sep : UInt8 → Bool} {c tail : Bytes} (hne : c ≠ []) (hc : Clean sep c)
    (ht : tail = [] ∨ ∃ x rest, sep x = true ∧ tail = x :: rest) :
    ∃ rest, token sep (c ++ tail) = some (c, rest) := by
  rcases ht with rfl | ⟨x, rest, hx, rfl⟩
  · exact ⟨[], by rw [List.append_nil, token_whole hne hc]⟩
  · exact ⟨rest, token_cut hne hc hx rest⟩

/-- The three calls return `a`, `b`, `c` exactly on the texts that split so. -/
theorem splitHeader_eq_three {s a b c : Bytes} :
    splitHeader s = .three a b c ↔ ∃ tail, Splits s a b c tail := by
  constructor
  · intro h
    rw [splitHeader] at h
    split at h
    · cases h
    rename_i a' s₁ h1
    split at h
    · cases h
    rename_i b' s₂ h2
    split at h
    · cases h
    rename_i c' s₃ h3
    cases h
    obtain ⟨p, hp, hane, hac, hs⟩ := token_eq_some_iff.mp h1
    obtain ⟨q, hq, hbne, hbc, hs₁⟩ := token_eq_some_iff.mp h2
    obtain ⟨r, hr, hcne, hcc, hs₂⟩ := token_eq_some_iff.mp h3
    -- the first two tokens end at a space: text is left after each of them
    rcases hs with ⟨_, rfl⟩ | ⟨x, hx, hs⟩
    · simp [token] at h2
    rcases hs₁ with ⟨_, rfl⟩ | ⟨y, hy, hs₁⟩
    · simp [token] at h3
    rw [isSp_iff] at hx hy
    subst hx hy
    rcases hs₂ with ⟨hs₂, _⟩ | ⟨z, hz, hs₂⟩
    · refine ⟨[], hane, hac, hbne, hbc, hcne, hcc, Or.inl rfl, p, q, r, hp, hq, hr, ?_⟩
      rw [hs, hs₁, hs₂, List.append_nil]
    · exact ⟨z :: s₃, hane, hac, hbne, hbc, hcne, hcc, Or.inr ⟨z, s₃, hz, rfl⟩, p, q, r, hp, hq,
        hr, by rw [hs, hs₁, hs₂]⟩
  · rintro ⟨tail, hane, hac, hbne, hbc, hcne, hcc, ht, p, q, r, hp, hq, hr, rfl⟩
    obtain ⟨rest, hc⟩ := token_head hcne hcc ht
    rw [splitHeader, token_skip hp, token_cut hane hac (isSp_iff.mpr rfl)]
    simp only [token_skip hq, token_cut hbne hbc (isSp_iff.mpr rfl), token_skip hr, hc]

/-! ## Documented grammar: requests -/

/-- What may stand as a path: it begins with `/`, has no CR, LF or NUL and does not end in
a space. -/
structure IsPath (p : Bytes) : Prop where
  slash : p.head? = some 47
  clean : ∀ b ∈ p, b ≠ 13 ∧ b ≠ 10 ∧ b ≠ 0
  no_space : p.getLast? ≠ some 32

/-- The optional space before the terminator. -/
def optSpace (sp : Bool) : Bytes := if sp then [32] else []

theorem optSpace_clean (sp : Bool) : Clean isCrLf (optSpace sp) := by
  cases sp <;> decide

/-- `GETFILE GET <path>[ ]\r\n\r\n`. -/
def requestHeader (p : Bytes) (sp : Bool) : Bytes :=
  ascii "GETFILE GET " ++ (p ++ (optSpace sp ++ terminator))

/-- The stream starts with a grammatical request for `p`. -/
def IsRequest (stream p : Bytes) : Prop :=
  IsPath p ∧ ∃ sp rest, stream = requestHeader p sp ++ rest

/-! ## Documented grammar: responses -/

/-- Response statuses (`gfstatus_t`). -/
inductive GfStatus where
  | ok
  | fileNotFound
  | error
  | invalid
deriving DecidableEq, Repr

/-- The name of a status on the wire. -/
def statusName : GfStatus → Bytes
  | .ok => ascii "OK"
  | .fileNotFound => ascii "FILE_NOT_FOUND"
  | .error => ascii "ERROR"
  | .invalid => ascii "INVALID"

/-- `ds` is a length: decimal digits of a number that fits 64 bits. -/
structure IsLength (ds : Bytes) : Prop where
  ne : ds ≠ []
  digits : ∀ b ∈ ds, isDigit b = true
  lt : digitsValue ds < 2 ^ 64

/-- `GETFILE OK <length>[ ]\r\n\r\n`. -/
def okHeader (ds : Bytes) (sp : Bool) : Bytes :=
  ascii "GETFILE OK " ++ (ds ++ (optSpace sp ++ terminator))

/-- `GETFILE <status>\r\n\r\n`, for the statuses that have no length. -/
def statusHeader (st : GfStatus) : Bytes :=
  ascii "GETFILE " ++ (statusName st ++ terminator)

/-- The stream starts with a complete grammatical response header. -/
inductive HasHeader : Bytes → Prop where
  | ok {ds : Bytes} (sp : Bool) (rest : Bytes) : IsLength ds → HasHeader (okHeader ds sp ++ rest)
  | status {st : GfStatus} (rest : Bytes) : st ≠ .ok → HasHeader (statusHeader st ++ rest)

/-- The stream is a complete grammatical response of the given status: an OK header and as
many content bytes as it announces, or a FILE_NOT_FOUND or ERROR header alone. -/
inductive Complete : Bytes → GfStatus → Prop where
  | ok {ds content : Bytes} (sp : Bool) : IsLength ds → digitsValue ds = content.length →
      Complete (okHeader ds sp ++ content) .ok
  | fileNotFound : Complete (statusHeader .fileNotFound) .fileNotFound
  | error : Complete (statusHeader .error) .error

theorem Complete.hasHeader {stream : Bytes} {st : GfStatus} (h : Complete stream st) :
    HasHeader stream := by
  cases h with
  | ok sp hds _ => exact .ok sp _ hds
  | fileNotFound =>
    have h : HasHeader (statusHeader .fileNotFound ++ []) := .status [] (by decide)
    simpa using h
  | error =>
    have h : HasHeader (statusHeader .error ++ []) := .status [] (by decide)
    simpa using h

/-! ## Streams and the pieces `recv` returns -/

/-- `segs` are the successive non-empty `recv` results on `stream`, before the close. -/
structure Segmentation (bufSize : Nat) (stream : Bytes) (segs : List Bytes) : Prop where
  flatten : segs.flatten = stream
  ne : ∀ r ∈ segs, r ≠ []
  le : ∀ r ∈ segs, r.length ≤ bufSize

/-- What the first `recv` returns: the first piece, or nothing on a stream closed at once. -/
def firstRecv (segs : List Bytes) : Bytes := segs.head?.getD []

theorem firstRecv_prefix_stream {bufSize : Nat} {stream : Bytes} {segs : List Bytes}
    (h : Segmentation bufSize stream segs) : firstRecv segs <+: stream := by
  rw [← h.flatten]
  cases segs with
  | nil => exact List.prefix_rfl
  | cons r rest => exact ⟨rest.flatten, rfl⟩

theorem firstRecv_le {bufSize : Nat} {stream : Bytes} {segs : List Bytes}
    (h : Segmentation bufSize stream segs) : (firstRecv segs).length ≤ bufSize := by
  cases segs with
  | nil => exact Nat.zero_le _
  | cons r rest => exact h.le r (by simp)

end IntroOS.Getfile
