import IntroOS.Getfile.Client

/-! # `gfc_perform` on OK responses

The client parses the header out of the first `recv` result alone and then has two body
paths. `gfcPerform_delivers_iff` says exactly on which segmentations of a well-formed OK
response the transfer is right; the lemmas before it follow the code:

1. the C string in `recvbuf` and the tokens of a whole header;
2. `performOk`, with the `size_t` subtraction resolved both ways (`performOk_eq`,
   `performOk_underflow`);
3. the `recv` loop on a stream that holds at most `filelen` bytes;
4. a header cut by the end of the first `recv` result.
-/

namespace IntroOS.Getfile

/-! ## The string in `recvbuf` -/

/-- `recvbuf` holds a NUL after a `recv` that returned `r`. -/
def Readable (r : Bytes) : Prop := r.length < bufSize ∨ 0 ∈ r

instance (r : Bytes) : Decidable (Readable r) := inferInstanceAs (Decidable (_ ∨ _))

theorem cString_recvbuf {r : Bytes} (h : Readable r) : cString (recvbuf r) = some (text r) := by
  unfold recvbuf
  by_cases h0 : 0 ∈ r
  · rw [cString_of_mem (by simp [h0]), text_append_of_mem h0]
  · have hlt : r.length < bufSize := h.resolve_right h0
    obtain ⟨n, hn⟩ : ∃ n, bufSize - r.length = n + 1 := ⟨bufSize - r.length - 1, by omega⟩
    rw [hn, List.replicate_succ, cString_nul h0, text_of_nul_free h0]

theorem cString_recvbuf_full {r : Bytes} (h : ¬ Readable r) : cString (recvbuf r) = none := by
  unfold Readable at h
  rw [not_or] at h
  have hn : bufSize - r.length = 0 := by omega
  unfold recvbuf
  rw [cString_eq_none, hn]
  simpa using h.2

/-! ## The tokens of a whole OK header -/

theorem ascii_ok_header (ds : Bytes) (sp : Bool) (v : Bytes) :
    okHeader ds sp ++ v = ascii "GETFILE" ++ 32 :: (ascii "OK" ++ 32 ::
      ((ds ++ optSpace sp) ++ 13 :: 10 :: 13 :: 10 :: v)) := by
  have h1 : ascii "GETFILE OK " = ascii "GETFILE" ++ 32 :: (ascii "OK" ++ [32]) := by decide
  have h2 : terminator = [13, 10, 13, 10] := by decide
  simp [okHeader, h1, h2]

theorem length_clean {ds : Bytes} (hds : IsLength ds) (sp : Bool) :
    Clean isCrLf (ds ++ optSpace sp) := by
  apply Clean.append _ (optSpace_clean sp)
  intro b hb
  have hd := hds.digits b hb
  have h13 : b ≠ 13 := digit_ne hd rfl
  have h10 : b ≠ 10 := digit_ne hd rfl
  simp [isCrLf, h13, h10]

theorem okHeader_splits {ds : Bytes} (hds : IsLength ds) (sp : Bool) (v : Bytes) :
    Splits (okHeader ds sp ++ v) (ascii "GETFILE") (ascii "OK") (ds ++ optSpace sp)
      (13 :: 10 :: 13 :: 10 :: v) where
  first_ne := by decide
  first_clean := by decide
  second_ne := by decide
  second_clean := by decide
  third_ne := by simp [hds.ne]
  third_clean := length_clean hds sp
  tail_cut := Or.inr ⟨13, 10 :: 13 :: 10 :: v, rfl, rfl⟩
  shape := ⟨[], [], [], Seps.nil _, Seps.nil _, Seps.nil _, ascii_ok_header ds sp v⟩

theorem okHeader_nul_free {ds : Bytes} (hds : IsLength ds) (sp : Bool) : 0 ∉ okHeader ds sp := by
  have h := ascii_ok_header ds sp []
  rw [List.append_nil] at h
  rw [h]
  have hd : (0 : UInt8) ∉ ds := fun h0 => by
    have := hds.digits 0 h0
    simp [isDigit] at this
  have hsp : (0 : UInt8) ∉ optSpace sp := by cases sp <;> decide
  have hg : (0 : UInt8) ∉ ascii "GETFILE" := by decide
  have ho : (0 : UInt8) ∉ ascii "OK" := by decide
  simp [hd, hsp, hg, ho]

theorem bodyOffset_ok_length (c : Bytes) :
    bodyOffset (ascii "GETFILE") (ascii "OK") c = 15 + c.length := by
  have hg : (ascii "GETFILE").length = 7 := by decide
  have ho : (ascii "OK").length = 2 := by decide
  have ht : (ascii "\r\n\r\n").length = 4 := by decide
  unfold bodyOffset
  omega

/-- The offset the code computes is the length of the header. -/
theorem bodyOffset_ok (ds : Bytes) (sp : Bool) :
    bodyOffset (ascii "GETFILE") (ascii "OK") (ds ++ optSpace sp) = (okHeader ds sp).length := by
  have h := ascii_ok_header ds sp []
  rw [List.append_nil] at h
  have hg : (ascii "GETFILE").length = 7 := by decide
  have ho : (ascii "OK").length = 2 := by decide
  rw [bodyOffset_ok_length, h]
  simp only [List.length_append, List.length_cons, List.length_nil, hg, ho]
  omega

/-! ## Reading the length -/

theorem optSpace_head (sp : Bool) : ∀ b ∈ (optSpace sp).head?, isDigit b = false := by
  intro b hb
  cases sp with
  | false => cases hb
  | true =>
    cases hb
    decide

/-- `strtoul` reads a length, with or without the optional space behind it. -/
theorem strtoul_length {ds : Bytes} (hds : IsLength ds) (sp : Bool) :
    strtoul (ds ++ optSpace sp) = digitsValue ds := by
  have hlt := hds.lt
  simp only [strtoul, scanNumber_digits hds.ne hds.digits (optSpace_head sp)]
  simp only [Nat.not_le.mpr hlt, if_false]
  simp

/-! ## The OK branch -/

section OkBranch

variable (gfr : GfcRequest) (r : Bytes) (rest : List (Option Bytes)) (a b c : Bytes)

/-- The request record after the OK branch has stored `filelen` and `bytesreceived`. -/
def okResult (gfr : GfcRequest) (filelen received : Nat) : GfcRequest :=
  { gfr with status := some .ok, filelen := some filelen, bytesreceived := some received }

theorem size_sub_of_le {n off : Nat} (h : off ≤ n) (hn : n ≤ bufSize) :
    (n + 2 ^ 64 - off) % 2 ^ 64 = n - off := by
  have : n ≤ 4096 := hn
  omega

theorem size_sub_of_lt {n off : Nat} (h : n < off) (ho : off ≤ n + 4) :
    (n + 2 ^ 64 - off) % 2 ^ 64 = 2 ^ 64 - (off - n) := by
  omega

theorem drop_recvbuf {off : Nat} (h : off ≤ r.length) :
    ((recvbuf r).drop off).take (r.length - off) = r.drop off := by
  unfold recvbuf
  rw [List.drop_append_of_le_length h, List.take_append_of_le_length (by simp),
    List.take_of_length_le (by simp)]

theorem take_drop_recvbuf {off n : Nat} (h : off + n ≤ r.length) :
    ((recvbuf r).drop off).take n = (r.drop off).take n := by
  unfold recvbuf
  rw [List.drop_append_of_le_length (by omega), List.take_append_of_le_length (by simp; omega)]

/-- Short file, too little content in the first `recv` result: the transfer is given up. -/
theorem performOk_short (hr : r.length ≤ bufSize) (ho : bodyOffset a b c ≤ r.length)
    (hF : strtoul c < bufSize) (hlt : r.length - bodyOffset a b c < strtoul c) :
    performOk gfr r rest a b c =
      some (okResult gfr (strtoul c) (r.length - bodyOffset a b c), [], -1) := by
  unfold performOk
  simp only [size_sub_of_le ho hr, hF, hlt, if_true, okResult]

/-- Short file, content present: one chunk as long as all the bytes that came with it. -/
theorem performOk_whole (hr : r.length ≤ bufSize) (ho : bodyOffset a b c ≤ r.length)
    (hF : strtoul c < bufSize) (hle : strtoul c ≤ r.length - bodyOffset a b c) :
    performOk gfr r rest a b c =
      some (okResult gfr (strtoul c) (r.length - bodyOffset a b c),
        [((r.drop (bodyOffset a b c)).take (strtoul c)).map some ++
          List.replicate (r.length - bodyOffset a b c - strtoul c) none], 0) := by
  have h1 : ¬ (r.length - bodyOffset a b c < strtoul c) := by omega
  have h2 : ¬ (bufSize < r.length - bodyOffset a b c ∨ bufSize < bodyOffset a b c + strtoul c) := by
    omega
  unfold performOk
  simp only [size_sub_of_le ho hr, hF, h1, h2, if_true, if_false, okResult]
  rw [take_drop_recvbuf r (by omega)]

/-- Long file: the bytes behind the header, then the loop. -/
theorem performOk_long (hr : r.length ≤ bufSize) (ho : bodyOffset a b c ≤ r.length)
    (hF : bufSize ≤ strtoul c) {n : Nat} {calls : List (List Cell)}
    (hloop : recvLoop (strtoul c) rest r.length (r.length - bodyOffset a b c) = (n, calls, false)) :
    performOk gfr r rest a b c =
      some (okResult gfr (strtoul c) n, (r.drop (bodyOffset a b c)).map some :: calls,
        if strtoul c = n then 0 else -1) := by
  have h1 : ¬ (strtoul c < bufSize) := by omega
  have h2 : ¬ (bufSize < bodyOffset a b c + (r.length - bodyOffset a b c)) := by omega
  unfold performOk
  simp only [size_sub_of_le ho hr, h1, h2, if_false, hloop, drop_recvbuf r ho, okResult]
  by_cases hn : strtoul c = n
  · simp [hn]
  · simp [hn]

/-- Tokens that end behind the received bytes: the subtraction wraps, and either the
array or the copy leaves memory. -/
theorem performOk_underflow (hr : r.length ≤ bufSize) (hlt : r.length < bodyOffset a b c)
    (ho : bodyOffset a b c ≤ r.length + 4) : performOk gfr r rest a b c = none := by
  have hr' : r.length ≤ 4096 := hr
  have hb : bufSize = 4096 := rfl
  unfold performOk
  simp only [size_sub_of_lt hlt ho]
  by_cases hF : strtoul c < bufSize
  · have h1 : ¬ (2 ^ 64 - (bodyOffset a b c - r.length) < strtoul c) := by omega
    have h2 : bufSize < 2 ^ 64 - (bodyOffset a b c - r.length) := by omega
    simp only [hF, h1, h2, true_or, if_true, if_false]
  · have h2 : bufSize < bodyOffset a b c + (2 ^ 64 - (bodyOffset a b c - r.length)) := by omega
    simp only [hF, h2, if_true, if_false]

end OkBranch

/-! ## The `recv` loop -/

/-- On pieces that hold no more than is still missing, the loop takes all of them. -/
theorem recvLoop_all {filelen : Nat} (hF : filelen < 2 ^ 64) (segs : List Bytes)
    (hne : ∀ r ∈ segs, r ≠ []) {numbytes received : Nat} (hn : 0 < numbytes)
    (hle : received + segs.flatten.length ≤ filelen) :
    ∃ calls : List (List Cell), recvLoop filelen (segs.map some) numbytes received =
        (received + segs.flatten.length, calls, false) ∧
      calls.flatten = segs.flatten.map some := by
  induction segs generalizing numbytes received with
  | nil =>
    unfold recvLoop
    by_cases hlt : received < filelen
    · exact ⟨[[]], by simp [hn, hlt], rfl⟩
    · exact ⟨[], by simp [hlt], rfl⟩
  | cons r segs ih =>
    have hr : 0 < r.length := List.length_pos_iff.mpr (hne r (by simp))
    simp only [List.flatten_cons, List.length_append] at hle
    have hmod : (received + r.length) % 2 ^ 64 = received + r.length :=
      Nat.mod_eq_of_lt (by omega)
    have hle' : received + r.length + segs.flatten.length ≤ filelen := by omega
    obtain ⟨calls, hcalls, hflat⟩ := ih (fun q hq => hne q (by simp [hq])) hr hle'
    refine ⟨r.map some :: calls, ?_, by simp [hflat]⟩
    unfold recvLoop
    simp only [List.map_cons, hn, show received < filelen by omega, and_self, if_true, hmod,
      hcalls, List.flatten_cons, List.length_append]
    rw [Nat.add_assoc]

/-! ## Headers cut by the end of the first `recv` result -/

/-- The tokens on which the code answers GF_INVALID. -/
def ReadAsInvalid : Tokens → Prop
  | .none | .one _ => True
  | .two _ status =>
    status ≠ ascii "FILE_NOT_FOUND\r\n\r\n" ∧ status ≠ ascii "ERROR\r\n\r\n"
  | .three _ status _ => status = ascii "INVALID\r\n\r\n"

instance : DecidablePred ReadAsInvalid
  | .none | .one _ => inferInstanceAs (Decidable True)
  | .two _ _ => inferInstanceAs (Decidable (_ ∧ _))
  | .three _ _ _ => inferInstanceAs (Decidable (_ = _))

theorem performTokens_invalid (gfr : GfcRequest) (r : Bytes) (rest : List (Option Bytes))
    {t : Tokens} (h : ReadAsInvalid t) :
    performTokens gfr r rest t = some ({ gfr with status := some .invalid }, [], -1) := by
  cases t with
  | none => rfl
  | one a => rfl
  | two a b =>
    unfold performTokens performTokens.classify
    by_cases hi : b = ascii "INVALID\r\n\r\n"
    · simp [hi]
    · simp [hi, h.1, h.2]
  | three a b c =>
    have hb : b = ascii "INVALID\r\n\r\n" := h
    unfold performTokens performTokens.classify
    simp [hb]

theorem performTokens_ok (gfr : GfcRequest) (r : Bytes) (rest : List (Option Bytes))
    (a c : Bytes) :
    performTokens gfr r rest (.three a (ascii "OK") c) = performOk gfr r rest a (ascii "OK") c := by
  have h1 : ascii "OK" ≠ ascii "INVALID\r\n\r\n" := by decide
  have h2 : ascii "OK" ≠ ascii "FILE_NOT_FOUND\r\n\r\n" := by decide
  have h3 : ascii "OK" ≠ ascii "ERROR\r\n\r\n" := by decide
  unfold performTokens performTokens.classify
  simp [h1, h2, h3]

/-- A text `GETFILE OK ` with a piece of the length behind it: three tokens, and an offset
behind the end of the text. -/
theorem splitHeader_ok_piece {u v : Bytes} (hu : u ≠ []) (huc : Clean isCrLf u)
    (hv : v = [] ∨ ∃ x w, isCrLf x = true ∧ v = x :: w) :
    splitHeader (ascii "GETFILE OK " ++ (u ++ v)) = .three (ascii "GETFILE") (ascii "OK") u := by
  have h1 : ascii "GETFILE OK " = ascii "GETFILE" ++ 32 :: (ascii "OK" ++ [32]) := by decide
  refine splitHeader_eq_three.mpr ⟨v, by decide, by decide, by decide, by decide, hu, huc, hv,
    [], [], [], Seps.nil _, Seps.nil _, Seps.nil _, ?_⟩
  simp [h1]

/-- A cut inside `GETFILE OK `: the text lacks the third token. -/
theorem okHeader_cut_literal {ds : Bytes} {sp : Bool} {r : Bytes} (hr : r <+: okHeader ds sp)
    (h11 : r.length ≤ 11) : ReadAsInvalid (splitHeader r) := by
  have hlit : (ascii "GETFILE OK ").length = 11 := by decide
  have htake : r = (ascii "GETFILE OK ").take r.length := by
    have hpre := List.prefix_iff_eq_take.mp hr
    rw [okHeader, List.take_append_of_le_length (by omega)] at hpre
    exact hpre
  have hall : ∀ n ≤ 11, ReadAsInvalid (splitHeader ((ascii "GETFILE OK ").take n)) := by decide
  rw [htake]
  exact hall _ h11

/-- A cut inside the length or inside the terminator: the third token is what there is of the
length. -/
theorem okHeader_cut_length {ds : Bytes} (hds : IsLength ds) {sp : Bool} {u : Bytes}
    (hu : u <+: (ds ++ optSpace sp) ++ terminator) (hne : u ≠ [])
    (hlt : u.length < ((ds ++ optSpace sp) ++ terminator).length) :
    ∃ c, splitHeader (ascii "GETFILE OK " ++ u) = .three (ascii "GETFILE") (ascii "OK") c ∧
      c.length ≤ u.length ∧ u.length < c.length + 4 := by
  have hterm : terminator.length = 4 := by decide
  have hclean := length_clean hds sp
  by_cases hin : u.length ≤ (ds ++ optSpace sp).length
  · -- inside the length
    have hup : u <+: ds ++ optSpace sp :=
      List.prefix_of_prefix_length_le hu (List.prefix_append _ _) hin
    have huc : Clean isCrLf u := fun b hb => hclean b (hup.subset hb)
    have hsplit := splitHeader_ok_piece hne huc (Or.inl rfl)
    rw [List.append_nil] at hsplit
    exact ⟨u, hsplit, Nat.le_refl _, by omega⟩
  · -- inside the terminator
    obtain ⟨v, rfl⟩ : ∃ v, u = (ds ++ optSpace sp) ++ v := by
      obtain ⟨v, hv⟩ := List.prefix_of_prefix_length_le
        (List.prefix_append (ds ++ optSpace sp) terminator) hu (by omega)
      exact ⟨v, hv.symm⟩
    rw [List.prefix_append_right_inj] at hu
    have hv : v = [] ∨ ∃ x w, isCrLf x = true ∧ v = x :: w := by
      cases v with
      | nil => exact Or.inl rfl
      | cons x w =>
        have hmem : x ∈ terminator := hu.subset (by simp)
        have hall : ∀ x ∈ terminator, isCrLf x = true := forall_of_all (by decide)
        exact Or.inr ⟨x, w, hall x hmem, rfl⟩
    have hdne : ds ++ optSpace sp ≠ [] := by simp [hds.ne]
    simp only [List.length_append] at hlt ⊢
    refine ⟨ds ++ optSpace sp, splitHeader_ok_piece hdne hclean hv, ?_, ?_⟩
    · rw [List.length_append]
      omega
    · rw [List.length_append]
      omega

theorem okHeader_cut {ds : Bytes} (hds : IsLength ds) {sp : Bool} {r : Bytes}
    (hr : r <+: okHeader ds sp) (hlt : r.length < (okHeader ds sp).length) :
    ReadAsInvalid (splitHeader r) ∨
    ∃ c, splitHeader r = .three (ascii "GETFILE") (ascii "OK") c ∧
      r.length < bodyOffset (ascii "GETFILE") (ascii "OK") c ∧
      bodyOffset (ascii "GETFILE") (ascii "OK") c ≤ r.length + 4 := by
  have hlit : (ascii "GETFILE OK ").length = 11 := by decide
  have hshape : okHeader ds sp = ascii "GETFILE OK " ++ ((ds ++ optSpace sp) ++ terminator) := by
    simp [okHeader]
  by_cases h11 : r.length ≤ 11
  · exact Or.inl (okHeader_cut_literal hr h11)
  · right
    rw [hshape] at hr hlt
    obtain ⟨u, rfl⟩ := List.prefix_of_prefix_length_le (List.prefix_append _ _) hr
      (show (ascii "GETFILE OK ").length ≤ r.length by omega)
    rw [List.prefix_append_right_inj] at hr
    rw [List.length_append, hlit] at hlt h11
    rw [List.length_append, hlit] at hlt
    have hne : u ≠ [] := by
      rintro rfl
      exact h11 (Nat.le_refl _)
    obtain ⟨c, hc, hle, hge⟩ := okHeader_cut_length hds hr hne (by omega)
    refine ⟨c, hc, ?_, ?_⟩
    · rw [bodyOffset_ok_length, List.length_append, hlit]
      omega
    · rw [bodyOffset_ok_length, List.length_append, hlit]
      omega

/-! ## The transfer -/

/-- The call with the request sent whole and the stream arriving in the pieces `segs`. -/
def transfer (gfr : GfcRequest) (segs : List Bytes) : Option Performed :=
  gfcPerform gfr (requestString gfr.path).length (segs.map some)

/-- The transfer is what the first `recv` result and the pieces after it make of it. -/
theorem transfer_eq {gfr : GfcRequest} (hh : gfr.headerfunc = true) (segs : List Bytes) :
    transfer gfr segs =
      (performResponse gfr (firstRecv segs) (segs.tail.map some)).map fun (gfr', calls, ret) =>
        ⟨gfr', [requestString gfr.path], calls, ret⟩ := by
  unfold transfer gfcPerform
  cases segs with
  | nil => simp [hh, firstRecv]
  | cons r segs => simp [hh, firstRecv]

theorem transfer_no_headerfunc {gfr : GfcRequest} (hh : gfr.headerfunc = false)
    (segs : List Bytes) : transfer gfr segs = none := by
  unfold transfer gfcPerform
  simp [hh]

theorem performResponse_unreadable {gfr : GfcRequest} {r : Bytes} (h : ¬ Readable r)
    (rest : List (Option Bytes)) : performResponse gfr r rest = none := by
  unfold performResponse
  rw [cString_recvbuf_full h]

theorem performResponse_eq {gfr : GfcRequest} {r : Bytes} (h : Readable r)
    (rest : List (Option Bytes)) :
    performResponse gfr r rest = performTokens gfr r rest (splitHeader (text r)) := by
  unfold performResponse
  rw [cString_recvbuf h]

/-- A first `recv` result with the whole header reaches the OK branch, at the right offset. -/
theorem performResponse_okHeader {gfr : GfcRequest} {ds : Bytes} (hds : IsLength ds) {sp : Bool}
    {first : Bytes} (h : Readable (okHeader ds sp ++ first)) (rest : List (Option Bytes)) :
    performResponse gfr (okHeader ds sp ++ first) rest =
      performOk gfr (okHeader ds sp ++ first) rest (ascii "GETFILE") (ascii "OK")
        (ds ++ optSpace sp) := by
  rw [performResponse_eq h, text_append (okHeader_nul_free hds sp),
    splitHeader_eq_three.mpr ⟨_, okHeader_splits hds sp (text first)⟩, performTokens_ok]

/-! ### The body paths behind a whole header -/

section WholeHeader

variable (ds : Bytes) (sp : Bool) (first : Bytes)

theorem bodyOffset_okHeader_le :
    bodyOffset (ascii "GETFILE") (ascii "OK") (ds ++ optSpace sp) ≤
      (okHeader ds sp ++ first).length := by
  rw [bodyOffset_ok, List.length_append]
  omega

theorem length_behind_okHeader :
    (okHeader ds sp ++ first).length -
      bodyOffset (ascii "GETFILE") (ascii "OK") (ds ++ optSpace sp) = first.length := by
  rw [bodyOffset_ok, List.length_append]
  omega

theorem drop_okHeader :
    (okHeader ds sp ++ first).drop
      (bodyOffset (ascii "GETFILE") (ascii "OK") (ds ++ optSpace sp)) = first := by
  rw [bodyOffset_ok, List.drop_left]

variable {ds sp first} (gfr : GfcRequest) (hds : IsLength ds)
  (hread : Readable (okHeader ds sp ++ first))
  (hle : (okHeader ds sp ++ first).length ≤ bufSize) (rest : List (Option Bytes))

include hds hread hle

/-- A short file of which something is missing in the first `recv` result. -/
theorem performResponse_short (hF : digitsValue ds < bufSize)
    (hlt : first.length < digitsValue ds) :
    performResponse gfr (okHeader ds sp ++ first) rest =
      some (okResult gfr (digitsValue ds) first.length, [], -1) := by
  have ho := bodyOffset_okHeader_le ds sp first
  have hsub := length_behind_okHeader ds sp first
  have hval := strtoul_length hds sp
  rw [performResponse_okHeader hds hread,
    performOk_short gfr _ rest _ _ _ hle ho (by rw [hval]; exact hF) (by rw [hval, hsub]; exact hlt),
    hval, hsub]

/-- A short file that came along with the header. -/
theorem performResponse_whole (hF : digitsValue ds < bufSize)
    (hfull : first.length = digitsValue ds) :
    performResponse gfr (okHeader ds sp ++ first) rest =
      some (okResult gfr (digitsValue ds) first.length, [first.map some], 0) := by
  have ho := bodyOffset_okHeader_le ds sp first
  have hsub := length_behind_okHeader ds sp first
  have hval := strtoul_length hds sp
  rw [performResponse_okHeader hds hread,
    performOk_whole gfr _ rest _ _ _ hle ho (by rw [hval]; exact hF) (by rw [hval, hsub, hfull]),
    hval, hsub, drop_okHeader, ← hfull]
  simp

/-- A long file: the loop goes on behind what came with the header. -/
theorem performResponse_long (hF : bufSize ≤ digitsValue ds) {n : Nat} {calls : List (List Cell)}
    (hloop : recvLoop (digitsValue ds) rest (okHeader ds sp ++ first).length first.length =
      (n, calls, false)) :
    performResponse gfr (okHeader ds sp ++ first) rest =
      some (okResult gfr (digitsValue ds) n, first.map some :: calls,
        if digitsValue ds = n then 0 else -1) := by
  have ho := bodyOffset_okHeader_le ds sp first
  have hsub := length_behind_okHeader ds sp first
  have hval := strtoul_length hds sp
  rw [performResponse_okHeader hds hread,
    performOk_long gfr _ rest _ _ _ hle ho (by rw [hval]; exact hF)
      (by rw [hval, hsub]; exact hloop), hval, drop_okHeader]

end WholeHeader

/-- A header cut by the end of the first `recv` result: GF_INVALID, or undefined. -/
theorem performResponse_cut {gfr : GfcRequest} {ds : Bytes} (hds : IsLength ds) {sp : Bool}
    {r : Bytes} (hr : r <+: okHeader ds sp) (hlt : r.length < (okHeader ds sp).length)
    (hle : r.length ≤ bufSize) (rest : List (Option Bytes)) :
    performResponse gfr r rest = some ({ gfr with status := some .invalid }, [], -1) ∨
      performResponse gfr r rest = none := by
  by_cases hread : Readable r
  · have h0 : 0 ∉ r := fun h => okHeader_nul_free hds sp (hr.subset h)
    rw [performResponse_eq hread, text_of_nul_free h0]
    rcases okHeader_cut hds hr hlt with hinv | ⟨c, hc, h1, h2⟩
    · exact Or.inl (performTokens_invalid gfr r rest hinv)
    · right
      rw [hc, performTokens_ok]
      exact performOk_underflow gfr r rest _ _ _ hle h1 h2
  · exact Or.inr (performResponse_unreadable hread rest)

/-- What a caller may expect of an OK response of length `digitsValue ds` of which `content`
arrives before the connection closes. -/
def DeliversOk (gfr : GfcRequest) (ds content : Bytes) (segs : List Bytes) : Prop :=
  ∃ p, transfer gfr segs = some p ∧
    p.gfr.status = some .ok ∧
    p.gfr.filelen = some (digitsValue ds) ∧
    p.gfr.bytesreceived = some content.length ∧
    p.writeCalls.flatten = content.map some ∧
    (if content.length = digitsValue ds then p.ret = 0 else p.ret < 0)

/-- The header is whole in the first `recv` result, that result leaves a NUL in the buffer,
and a file shorter than the buffer comes along completely (or nothing of it does). -/
def ArrivesWhole (ds : Bytes) (sp : Bool) (content : Bytes) (segs : List Bytes) : Prop :=
  ∃ first, firstRecv segs = okHeader ds sp ++ first ∧ Readable (okHeader ds sp ++ first) ∧
    (bufSize ≤ digitsValue ds ∨ first.length = digitsValue ds ∨ content = [])

/-- The first piece either holds the whole header or is a proper part of it. -/
theorem firstRecv_header {h content : Bytes} {segs : List Bytes}
    (hseg : Segmentation bufSize (h ++ content) segs) :
    (∃ first, firstRecv segs = h ++ first ∧ first ++ segs.tail.flatten = content) ∨
    (firstRecv segs <+: h ∧ (firstRecv segs).length < h.length) := by
  have hflat : firstRecv segs ++ segs.tail.flatten = h ++ content := by
    rw [← hseg.flatten]
    cases segs <;> simp [firstRecv]
  rcases List.append_eq_append_iff.mp hflat with ⟨a, ha, _⟩ | ⟨c, hc, hcont⟩
  · by_cases hnil : a = []
    · left
      subst hnil
      rw [List.append_nil] at ha
      refine ⟨[], by rw [ha, List.append_nil], ?_⟩
      rw [ha] at hflat
      simpa using List.append_cancel_left hflat
    · right
      refine ⟨⟨a, ha.symm⟩, ?_⟩
      have hpos := List.length_pos_iff.mpr hnil
      rw [ha, List.length_append]
      omega
  · exact Or.inl ⟨c, hc, hcont.symm⟩

section Delivery

variable {gfr : GfcRequest} (hh : gfr.headerfunc = true) {ds : Bytes} (hds : IsLength ds)
  {sp : Bool} {content first : Bytes} {segs : List Bytes} (hk : content.length ≤ digitsValue ds)
  (hseg : Segmentation bufSize (okHeader ds sp ++ content) segs)
  (hfirst : firstRecv segs = okHeader ds sp ++ first) (hcont : first ++ segs.tail.flatten = content)
  (hread : Readable (okHeader ds sp ++ first))

include hh hds hk hseg hfirst hcont hread

/-- A long file: the loop receives whatever is left of the stream. -/
theorem deliversOk_long (hlong : bufSize ≤ digitsValue ds) : DeliversOk gfr ds content segs := by
  have hle : (okHeader ds sp ++ first).length ≤ bufSize := hfirst ▸ firstRecv_le hseg
  have hflen : first.length + segs.tail.flatten.length = content.length := by
    rw [← hcont, List.length_append]
  have hpos : 0 < (okHeader ds sp ++ first).length := by
    simp [okHeader, terminator, ascii]
  have hne : ∀ r ∈ segs.tail, r ≠ [] := fun r hr => hseg.ne r (List.mem_of_mem_tail hr)
  obtain ⟨calls, hcalls, hflat⟩ := recvLoop_all hds.lt segs.tail hne hpos
    (show first.length + segs.tail.flatten.length ≤ digitsValue ds by omega)
  unfold DeliversOk
  rw [transfer_eq hh, hfirst, performResponse_long gfr hds hread hle _ hlong hcalls]
  refine ⟨_, rfl, rfl, rfl, ?_, ?_, ?_⟩
  · show some (first.length + segs.tail.flatten.length) = some content.length
    rw [hflen]
  · simp [hflat, ← hcont]
  · rw [hflen]
    by_cases hall : content.length = digitsValue ds
    · simp [hall]
    · simp [hall, Ne.symm hall]

/-- A short file with content still missing: nothing is delivered. -/
theorem deliversOk_short (hF : digitsValue ds < bufSize) (hlt : first.length < digitsValue ds) :
    DeliversOk gfr ds content segs ↔ content = [] := by
  have hle : (okHeader ds sp ++ first).length ≤ bufSize := hfirst ▸ firstRecv_le hseg
  unfold DeliversOk
  rw [transfer_eq hh, hfirst, performResponse_short gfr hds hread hle _ hF hlt]
  constructor
  · rintro ⟨p, hp, _, _, _, hwrite, _⟩
    cases hp
    simpa using hwrite.symm
  · intro hnil
    subst hnil
    have hf0 : first = [] := (List.append_eq_nil_iff.mp hcont).1
    subst hf0
    refine ⟨_, rfl, rfl, rfl, rfl, rfl, ?_⟩
    simp only [List.length_nil] at hlt
    simp [Nat.ne_of_lt hlt]

/-- A short file with all of it behind the header. -/
theorem deliversOk_full (hF : digitsValue ds < bufSize) (hfull : first.length = digitsValue ds) :
    DeliversOk gfr ds content segs := by
  have hle : (okHeader ds sp ++ first).length ≤ bufSize := hfirst ▸ firstRecv_le hseg
  have hfc : first = content := by
    have hflen := congrArg List.length hcont
    rw [List.length_append] at hflen
    have htail : segs.tail.flatten = [] := List.length_eq_zero_iff.mp (by omega)
    rw [← hcont, htail, List.append_nil]
  unfold DeliversOk
  rw [transfer_eq hh, hfirst, performResponse_whole gfr hds hread hle _ hF hfull, hfc]
  rw [hfc] at hfull
  exact ⟨_, rfl, rfl, rfl, rfl, by simp, by simp [hfull]⟩

/-- A transfer whose header arrives whole, case by case of the two body paths. -/
theorem deliversOk_whole :
    DeliversOk gfr ds content segs ↔
      (bufSize ≤ digitsValue ds ∨ first.length = digitsValue ds ∨ content = []) := by
  by_cases hlong : bufSize ≤ digitsValue ds
  · have hok := deliversOk_long hh hds hk hseg hfirst hcont hread hlong
    exact ⟨fun _ => Or.inl hlong, fun _ => hok⟩
  · have hF : digitsValue ds < bufSize := by omega
    by_cases hfull : first.length = digitsValue ds
    · have hok := deliversOk_full hh hds hk hseg hfirst hcont hread hF hfull
      exact ⟨fun _ => Or.inr (Or.inl hfull), fun _ => hok⟩
    · have hlt : first.length < digitsValue ds := by
        have hflen := congrArg List.length hcont
        rw [List.length_append] at hflen
        omega
      rw [deliversOk_short hh hds hk hseg hfirst hcont hread hF hlt]
      constructor
      · exact fun h => Or.inr (Or.inr h)
      · rintro (h | h | h)
        · exact absurd h hlong
        · exact absurd h hfull
        · exact h

end Delivery

/-- **Delivery of OK responses.** For every length, every amount of content up to it and
every segmentation, the transfer is right exactly when a header function is registered and
the response arrives in the one way the code can take. -/
theorem gfcPerform_delivers_iff (gfr : GfcRequest) {ds : Bytes} (hds : IsLength ds) (sp : Bool)
    (content : Bytes) (hk : content.length ≤ digitsValue ds) (segs : List Bytes)
    (hseg : Segmentation bufSize (okHeader ds sp ++ content) segs) :
    DeliversOk gfr ds content segs ↔
      gfr.headerfunc = true ∧ ArrivesWhole ds sp content segs := by
  by_cases hh : gfr.headerfunc = true
  · simp only [hh, true_and]
    rcases firstRecv_header hseg with ⟨first, hfirst, hcont⟩ | ⟨hcut, hlt⟩
    · by_cases hread : Readable (okHeader ds sp ++ first)
      · rw [deliversOk_whole hh hds hk hseg hfirst hcont hread]
        constructor
        · exact fun h => ⟨first, hfirst, hread, h⟩
        · rintro ⟨first', hfirst', _, h⟩
          rw [hfirst, List.append_cancel_left_eq] at hfirst'
          rw [hfirst']
          exact h
      · -- the buffer is full and has no NUL: `strcpy` runs out of it
        constructor
        · rintro ⟨p, hp, _⟩
          rw [transfer_eq hh, hfirst, performResponse_unreadable hread] at hp
          cases hp
        · rintro ⟨first', hfirst', hread', _⟩
          rw [hfirst, List.append_cancel_left_eq] at hfirst'
          exact absurd (hfirst' ▸ hread') hread
    · constructor
      · rintro ⟨p, hp, hst, _⟩
        have hle := firstRecv_le hseg
        rw [transfer_eq hh] at hp
        rcases performResponse_cut hds hcut hlt hle (segs.tail.map some) with h | h
        · rw [h] at hp
          cases hp
          cases hst
        · rw [h] at hp
          cases hp
      · rintro ⟨first, hfirst, _⟩
        rw [hfirst, List.length_append] at hlt
        omega
  · have hf : gfr.headerfunc = false := by simpa using hh
    constructor
    · rintro ⟨p, hp, _⟩
      rw [transfer_no_headerfunc hf] at hp
      cases hp
    · exact fun h => absurd h.1 hh

/-- A request as the callers build it, with a header function registered. -/
def demoRequest : GfcRequest := ⟨ascii "/a.txt", true, none, none, none⟩

/-- `GETFILE OK 3 \r\n\r\nabc` in one piece. -/
theorem gfcPerform_delivers_three_bytes :
    DeliversOk demoRequest (ascii "3") (ascii "abc") [okHeader (ascii "3") true ++ ascii "abc"] :=
  (gfcPerform_delivers_iff demoRequest ⟨by decide, forall_of_all (by decide), by decide⟩ true
    (ascii "abc") (by decide) _ ⟨by decide, by decide, by decide⟩).mpr
    ⟨rfl, ascii "abc", rfl, by decide, by decide⟩

/-- The same response with the content in a second `recv` result: the call gives up on it
and delivers nothing. -/
theorem gfcPerform_drops_late_content :
    Segmentation bufSize (okHeader (ascii "3") true ++ ascii "abc")
      [okHeader (ascii "3") true, ascii "abc"] ∧
    ¬ DeliversOk demoRequest (ascii "3") (ascii "abc")
      [okHeader (ascii "3") true, ascii "abc"] := by
  refine ⟨⟨by decide, by decide, by decide⟩, ?_⟩
  have hrun : (transfer demoRequest [okHeader (ascii "3") true, ascii "abc"]).map
      Performed.writeCalls = some [] := by decide
  rintro ⟨p, hp, _, _, _, hwrite, _⟩
  rw [hp, Option.map_some, Option.some.injEq] at hrun
  rw [hrun] at hwrite
  exact absurd hwrite (by decide)

end IntroOS.Getfile
