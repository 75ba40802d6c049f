import IntroOS.Getfile.ClientVerdict
import IntroOS.Getfile.Server

/-! # Response headers, from `gfs_sendheader` to `gfc_perform`

The two ends of the header codec composed: what the server library puts on the wire, read
by the client library out of its first `recv` result.

* `gfsHeader_ok`: an OK header is grammatical, with at most seven digits of the length;
* `gfsHeader_status_tokens`: a FILE_NOT_FOUND or ERROR header carries a length too, which
  leads the client into its OK branch.
-/

namespace IntroOS.Getfile

/-! ## The bytes of a header -/

@[simp] theorem gfsAbort_wire (ctx : GfContext) : (gfsAbort ctx).wire = ctx.wire := rfl

/-- Closing the socket takes nothing back: what `send` took is on the wire. -/
theorem gfsSend_wire (ctx : GfContext) (data : Bytes) (sent : Int) :
    (gfsSend ctx data sent).1.wire = ctx.wire ++ data.take sent.toNat := by
  unfold gfsSend gfsAbort GfContext.touch
  dsimp only
  split <;> split <;> rfl

/-- As much of the header is on the wire as `send` took. -/
theorem gfsSendheader_wire_take (ctx : GfContext) (status : GfStatus) (fileLen : Nat) (sent : Int) :
    (gfsSendheader ctx status fileLen sent).1.wire =
      ctx.wire ++ (gfsHeader status fileLen).take sent.toNat := by
  have h := gfsSend_wire { ctx.touch with filelen := fileLen, bytessent := 0 }
    (gfsHeader status fileLen) sent
  unfold gfsSendheader
  dsimp only
  split
  · rw [gfsAbort_wire]
    exact h
  · exact h

/-- A `send` that takes everything puts the whole header on the wire. -/
theorem gfsSendheader_wire (ctx : GfContext) (status : GfStatus) (fileLen : Nat) :
    (gfsSendheader ctx status fileLen (gfsHeader status fileLen).length).1.wire =
      ctx.wire ++ gfsHeader status fileLen := by
  rw [gfsSendheader_wire_take, Int.toNat_natCast, List.take_length]

/-- The digits that fit `file_length`. -/
def sentDigits (fileLen : Nat) : Bytes := (decimal fileLen).take 7

theorem sentDigits_isDigit (fileLen : Nat) : ∀ b ∈ sentDigits fileLen, isDigit b = true := by
  intro b hb
  exact decimal_isDigit fileLen b (List.mem_of_mem_take hb)

theorem sentDigits_ne_nil (fileLen : Nat) : sentDigits fileLen ≠ [] := by
  intro h
  rcases List.take_eq_nil_iff.mp h with h | h
  · cases h
  · exact decimal_ne_nil fileLen h

/-- A number written in `k` digits is below `10 ^ k`. -/
theorem digitsValue_lt {ds : Bytes} (h : ∀ b ∈ ds, isDigit b = true) :
    digitsValue ds < 10 ^ ds.length := by
  induction ds using List.reverseRecOn with
  | nil => decide
  | append_singleton ds b ih =>
    have hb : b.toNat - 48 < 10 := by
      have hdig := h b (by simp)
      simp only [isDigit, Bool.and_eq_true, decide_eq_true_eq] at hdig
      have h57 : b.toNat ≤ (57 : UInt8).toNat := UInt8.le_iff_toNat_le.mp hdig.2
      have : (57 : UInt8).toNat = 57 := rfl
      omega
    have ih' := ih fun c hc => h c (by simp [hc])
    rw [digitsValue_append, List.length_append, List.length_singleton, Nat.pow_succ]
    simp only [List.foldl_cons, List.foldl_nil]
    omega

theorem digitsValue_sentDigits_lt (fileLen : Nat) : digitsValue (sentDigits fileLen) < 10 ^ 7 := by
  have h := digitsValue_lt (sentDigits_isDigit fileLen)
  have hlen : (sentDigits fileLen).length ≤ 7 := List.length_take_le 7 _
  exact Nat.lt_of_lt_of_le h (Nat.pow_le_pow_right (by omega) hlen)

/-- Seven digits carry exactly the lengths below ten million. -/
theorem digitsValue_sentDigits_iff (fileLen : Nat) :
    digitsValue (sentDigits fileLen) = fileLen ↔ fileLen < 10 ^ 7 := by
  constructor
  · intro h
    rw [← h]
    exact digitsValue_sentDigits_lt fileLen
  · intro h
    have hlen : (decimal fileLen).length ≤ 7 := (decimal_length_le (by omega)).mpr h
    unfold sentDigits
    rw [List.take_of_length_le hlen, digitsValue_decimal]

theorem sentDigits_isLength (fileLen : Nat) : IsLength (sentDigits fileLen) where
  ne := sentDigits_ne_nil fileLen
  digits := sentDigits_isDigit fileLen
  lt := Nat.lt_of_lt_of_le (digitsValue_sentDigits_lt fileLen) (by decide)

theorem gfsHeader_ok (fileLen : Nat) : gfsHeader .ok fileLen = okHeader (sentDigits fileLen) false := by
  have hlit : ascii "GETFILE OK " = ascii "GETFILE" ++ (ascii " " ++ (ascii "OK" ++ ascii " ")) := by
    decide
  simp [gfsHeader, okHeader, sentDigits, statusName, optSpace, terminator, hlit]

/-- The second token of the header is the bare status name, and the third the length. -/
theorem gfsHeader_status_tokens {st : GfStatus} (hst : st = .fileNotFound ∨ st = .error)
    (fileLen : Nat) :
    splitHeader (text (gfsHeader st fileLen)) =
      .three (ascii "GETFILE") (statusName st) (sentDigits fileLen) := by
  have hterm : ascii "\r\n\r\n" = [13, 10, 13, 10] := by decide
  have hsp : ascii " " = [32] := by decide
  have hshape : gfsHeader st fileLen = ascii "GETFILE" ++ 32 :: (statusName st ++ 32 ::
      (sentDigits fileLen ++ [13, 10, 13, 10])) := by
    rcases hst with rfl | rfl <;> simp [gfsHeader, sentDigits, hterm, hsp]
  have hname : statusName st ≠ [] ∧ Clean isSp (statusName st) ∧ (0 : UInt8) ∉ statusName st := by
    rcases hst with rfl | rfl <;> decide
  obtain ⟨hne, hclean, hfree⟩ := hname
  have hdigits : Clean isCrLf (sentDigits fileLen) := by
    have h := length_clean (sentDigits_isLength fileLen) false
    simpa [optSpace] using h
  have hnul : 0 ∉ gfsHeader st fileLen := by
    have hd : (0 : UInt8) ∉ sentDigits fileLen := by
      intro h0
      have := sentDigits_isDigit fileLen 0 h0
      simp [isDigit] at this
    have hg : (0 : UInt8) ∉ ascii "GETFILE" := by decide
    rw [hshape]
    simp [hg, hfree, hd]
  rw [text_of_nul_free hnul, splitHeader_eq_three]
  exact ⟨[13, 10, 13, 10], by decide, by decide, hne, hclean, sentDigits_ne_nil fileLen, hdigits,
    Or.inr ⟨13, [10, 13, 10], rfl, rfl⟩, [], [], [], Seps.nil _, Seps.nil _, Seps.nil _, hshape⟩

/-! ## The round trip -/

/-- The client ends with the server's status, and for OK with its length. -/
def Agrees (gfr : GfcRequest) (st : GfStatus) (fileLen : Nat) (segs : List Bytes) : Prop :=
  ∃ p, transfer gfr segs = some p ∧ p.gfr.status = some st ∧
    (st = .ok → p.gfr.filelen = some fileLen)

/-- A header without content arrives alone. -/
theorem firstRecv_alone {h : Bytes} {segs : List Bytes} (hseg : Segmentation bufSize h segs)
    (hwhole : h <+: firstRecv segs) : firstRecv segs = h :=
  ((firstRecv_prefix_stream hseg).eq_of_length_le hwhole.length_le)

/-- INVALID: the tokens stop after the status, which the client reads as invalid. -/
theorem agrees_invalid {gfr : GfcRequest} (hh : gfr.headerfunc = true) {fileLen : Nat}
    {segs : List Bytes} (hfirst : firstRecv segs = gfsHeader .invalid fileLen) :
    Agrees gfr .invalid fileLen segs := by
  have hhead : gfsHeader .invalid fileLen = ascii "GETFILE INVALID" := by
    show ascii "GETFILE" ++ (ascii " " ++ ascii "INVALID") = _
    decide
  have hread : Readable (firstRecv segs) := by
    rw [hfirst, hhead]
    decide
  have hinv : ReadAsInvalid (splitHeader (text (firstRecv segs))) := by
    rw [hfirst, hhead]
    decide
  refine ⟨_, by rw [transfer_eq hh, performResponse_eq hread, performTokens_invalid gfr _ _ hinv]; rfl,
    rfl, ?_⟩
  intro h
  cases h

/-- FILE_NOT_FOUND and ERROR: the client takes the header for OK. -/
theorem not_agrees_status {gfr : GfcRequest} (hh : gfr.headerfunc = true) {st : GfStatus}
    (hst : st = .fileNotFound ∨ st = .error) {fileLen : Nat} {segs : List Bytes}
    (hseg : Segmentation bufSize (gfsHeader st fileLen) segs)
    (hfirst : firstRecv segs = gfsHeader st fileLen) : ¬ Agrees gfr st fileLen segs := by
  have htok : splitHeader (text (firstRecv segs)) =
      .three (ascii "GETFILE") (statusName st) (sentDigits fileLen) := by
    rw [hfirst]
    exact gfsHeader_status_tokens hst fileLen
  have hother : OtherStatus (statusName st) := by
    rcases hst with rfl | rfl <;> exact ⟨by decide, by decide, by decide⟩
  rintro ⟨p, hp, hstatus, _⟩
  by_cases hread : Readable (firstRecv segs)
  · rcases transfer_cases hh hseg hread with ⟨hinv, _⟩ | ⟨st', hst', h, _⟩ |
      ⟨a, b, c, _, _, ⟨_, p', hp', hok, _⟩ | ⟨_, hp'⟩⟩
    · exact not_invalid_of_other hother (htok ▸ hinv)
    · rw [htok] at h
      have hb : statusName st = statusToken st' := Option.some.inj h
      rcases hst' with rfl | rfl
      · exact hother.2.1 hb
      · exact hother.2.2 hb
    · rw [hp, Option.some.injEq] at hp'
      rw [← hp', hstatus] at hok
      rcases hst with rfl | rfl <;> simp at hok
    · rw [hp] at hp'
      cases hp'
  · rw [transfer_eq hh, performResponse_unreadable hread] at hp
    cases hp

/-- OK: the status comes through, and the length if it has at most seven digits. -/
theorem agrees_ok_iff {gfr : GfcRequest} (hh : gfr.headerfunc = true) {fileLen : Nat}
    {content : Bytes} {segs : List Bytes}
    (hseg : Segmentation bufSize (gfsHeader .ok fileLen ++ content) segs)
    (hwhole : gfsHeader .ok fileLen <+: firstRecv segs) :
    Agrees gfr .ok fileLen segs ↔ fileLen < 10 ^ 7 ∧ Readable (firstRecv segs) := by
  obtain ⟨first, hfirst⟩ := hwhole
  rw [gfsHeader_ok] at hfirst
  by_cases hread : Readable (firstRecv segs)
  · have hle : (firstRecv segs).length ≤ bufSize := firstRecv_le hseg
    have hne : ∀ q ∈ segs.tail, q ≠ [] := fun q hq => hseg.ne q (List.mem_of_mem_tail hq)
    have ho : bodyOffset (ascii "GETFILE") (ascii "OK") (sentDigits fileLen ++ optSpace false) ≤
        (firstRecv segs).length := by
      rw [bodyOffset_ok, ← hfirst, List.length_append]
      omega
    obtain ⟨gfr', calls, ret, hperf, hst, hlen, _⟩ := performOk_verdict gfr hne hle ho
    rw [strtoul_length (sentDigits_isLength fileLen)] at hlen
    have htransfer : transfer gfr segs = some ⟨gfr', [requestString gfr.path], calls, ret⟩ := by
      have hread' : Readable (okHeader (sentDigits fileLen) false ++ first) := hfirst.symm ▸ hread
      rw [transfer_eq hh, ← hfirst, performResponse_okHeader (sentDigits_isLength fileLen) hread',
        hfirst, hperf]
      rfl
    constructor
    · rintro ⟨p, hp, _, hfile⟩
      rw [htransfer, Option.some.injEq] at hp
      have heq := hfile rfl
      rw [← hp, hlen, Option.some.injEq] at heq
      exact ⟨(digitsValue_sentDigits_iff fileLen).mp heq, hread⟩
    · rintro ⟨hlt, _⟩
      refine ⟨_, htransfer, hst, fun _ => ?_⟩
      rw [hlen, (digitsValue_sentDigits_iff fileLen).mpr hlt]
  · constructor
    · rintro ⟨p, hp, _⟩
      rw [transfer_eq hh, performResponse_unreadable hread] at hp
      cases hp
    · exact fun h => absurd h.2 hread

/-- **The header codec.** A header that arrives whole in the first `recv` result gives the
client the server's status and length exactly for INVALID, and for OK with a length of at
most seven digits in a `recv` result that leaves a NUL in the buffer. -/
theorem gfsSendheader_codec_iff (gfr : GfcRequest) (ctx : GfContext) (hctx : ctx.wire = [])
    (st : GfStatus) (fileLen : Nat) (content : Bytes)
    (hcontent : content.length = if st = .ok then fileLen else 0) (segs : List Bytes)
    (hseg : Segmentation bufSize
      ((gfsSendheader ctx st fileLen (gfsHeader st fileLen).length).1.wire ++ content) segs)
    (hwhole : (gfsSendheader ctx st fileLen (gfsHeader st fileLen).length).1.wire <+:
      firstRecv segs) :
    Agrees gfr st fileLen segs ↔
      gfr.headerfunc = true ∧
        (st = .invalid ∨ (st = .ok ∧ fileLen < 10 ^ 7 ∧ Readable (firstRecv segs))) := by
  rw [gfsSendheader_wire, hctx, List.nil_append] at hseg hwhole
  by_cases hh : gfr.headerfunc = true
  · by_cases hok : st = .ok
    · subst hok
      rw [agrees_ok_iff hh hseg hwhole]
      simp [hh]
    · -- the other statuses are sent without content
      have hnil : content = [] := by
        rw [if_neg hok] at hcontent
        exact List.length_eq_zero_iff.mp hcontent
      rw [hnil, List.append_nil] at hseg
      have hfirst := firstRecv_alone hseg hwhole
      by_cases hinv : st = .invalid
      · subst hinv
        have hagrees := agrees_invalid hh hfirst
        simp [hh, hagrees]
      · have hst : st = .fileNotFound ∨ st = .error := by
          cases st with
          | ok => exact absurd rfl hok
          | fileNotFound => exact Or.inl rfl
          | error => exact Or.inr rfl
          | invalid => exact absurd rfl hinv
        have hno := not_agrees_status hh hst hseg hfirst
        simp [hok, hinv, hno]
  · constructor
    · rintro ⟨p, hp, _⟩
      rw [transfer_no_headerfunc (by simpa using hh)] at hp
      cases hp
    · exact fun h => absurd h.1 hh

/-- The header of a file of three bytes, of which the first one comes with it. -/
theorem gfsSendheader_codec_split :
    Agrees demoRequest .ok 3 [ascii "GETFILE OK 3\r\n\r\na", ascii "bc"] := by
  apply (gfsSendheader_codec_iff demoRequest ⟨0, 0, [], 0, false⟩ rfl .ok 3 (ascii "abc")
    (by decide) _ ⟨by decide, by decide, by decide⟩ (by decide)).mpr
  exact ⟨rfl, Or.inr ⟨rfl, by decide, by decide⟩⟩

/-- A FILE_NOT_FOUND header ends as GF_OK at the client. -/
theorem gfsSendheader_codec_not_found :
    (gfsSendheader ⟨0, 0, [], 0, false⟩ .fileNotFound 0 32).1.wire =
      ascii "GETFILE FILE_NOT_FOUND 0\r\n\r\n" ∧
    ¬ Agrees demoRequest .fileNotFound 0 [ascii "GETFILE FILE_NOT_FOUND 0\r\n\r\n"] := by
  refine ⟨by decide, ?_⟩
  have hrun : (transfer demoRequest [ascii "GETFILE FILE_NOT_FOUND 0\r\n\r\n"]).map
      (fun p => p.gfr.status) = some (some .ok) := by decide
  rintro ⟨p, hp, hst, _⟩
  rw [hp, Option.map_some, hst] at hrun
  exact absurd hrun (by decide)

end IntroOS.Getfile
