import IntroOS.Getfile.HeaderCodec

/-! # What `gfs_send` and `gfs_sendheader` put on the wire

1. **Headers** (`gfsSendheader_documented_iff`): for which statuses and lengths is the header
   the documented one?
2. **Whole sends** (`gfs_send_whole_iff`): `gfs_send` makes one call of `send` and returns its
   result in an `int`. For which results has it sent everything, or reported a failure?
-/

namespace IntroOS.Getfile

/-! ## Headers -/

/-- The documented header of a response: the length stands only after OK. -/
def documentedHeader (status : GfStatus) (fileLen : Nat) : Bytes :=
  ascii "GETFILE" ++ (ascii " " ++ (statusName status ++
    ((if status = .ok then ascii " " ++ decimal fileLen else []) ++ ascii "\r\n\r\n")))

/-- An OK header has the length as far as it fits seven digits. -/
theorem gfsHeader_ok_documented_iff (fileLen : Nat) :
    gfsHeader .ok fileLen = documentedHeader .ok fileLen ↔ fileLen < 10 ^ 7 := by
  have hshape : gfsHeader .ok fileLen = documentedHeader .ok fileLen ↔
      (decimal fileLen).take 7 = decimal fileLen := by
    unfold gfsHeader documentedHeader
    rw [if_neg (by decide), if_pos rfl, List.append_cancel_left_eq, List.append_cancel_left_eq,
      List.append_cancel_left_eq, List.append_assoc, List.append_cancel_left_eq,
      List.append_cancel_right_eq]
  rw [hshape, List.take_eq_self_iff, decimal_length_le (by omega)]

/-- The header of another status has a length that should not be there, or no terminator. -/
theorem gfsHeader_ne_documented {status : GfStatus} (h : status ≠ .ok) (fileLen : Nat) :
    gfsHeader status fileLen ≠ documentedHeader status fileLen := by
  intro heq
  unfold gfsHeader documentedHeader at heq
  rw [if_neg h] at heq
  split at heq
  · have hlen := congrArg List.length heq
    have hterm : (ascii "\r\n\r\n").length = 4 := by decide
    simp only [List.length_append, List.length_nil, hterm] at hlen
    omega
  · rw [List.append_cancel_left_eq, List.append_cancel_left_eq, List.append_cancel_left_eq] at heq
    -- a space where the terminator should begin
    have hhead : some (32 : UInt8) = some 13 := congrArg List.head? heq
    exact absurd hhead (by decide)

/-- **Headers.** The header that is sent is the documented one exactly for OK with a length of at
most seven digits. -/
theorem gfsSendheader_documented_iff (ctx : GfContext) (status : GfStatus) (fileLen : Nat) :
    (gfsSendheader ctx status fileLen (gfsHeader status fileLen).length).1.wire =
        ctx.wire ++ documentedHeader status fileLen ↔
      status = .ok ∧ fileLen < 10 ^ 7 := by
  rw [gfsSendheader_wire, List.append_cancel_left_eq]
  by_cases hok : status = .ok
  · rw [hok, gfsHeader_ok_documented_iff, and_iff_right rfl]
  · constructor
    · intro heq
      exact absurd heq (gfsHeader_ne_documented hok fileLen)
    · rintro ⟨h, _⟩
      exact absurd h hok

/-- Ten million bytes are announced as a million, and FILE_NOT_FOUND comes with a length. -/
theorem gfsSendheader_undocumented :
    ¬ ∀ (ctx : GfContext) (status : GfStatus) (fileLen : Nat), fileLen < 2 ^ 64 →
      (gfsSendheader ctx status fileLen (gfsHeader status fileLen).length).1.wire =
        ctx.wire ++ documentedHeader status fileLen := by
  intro h
  have hok := (gfsSendheader_documented_iff _ _ _).mp
    (h ⟨0, 0, [], 0, false⟩ .ok 10000000 (by decide))
  exact absurd hok.2 (by decide)

/-! ## Whole sends -/

/-- A call of `gfs_send` with `sent` the result of `send`: either all of the data is handed to
the socket and its length returned, or -1 is returned; and what is returned is the result of
`send`. -/
structure SendsWhole (ctx : GfContext) (data : Bytes) (sent : Int) : Prop where
  whole : ((gfsSend ctx data sent).1.wire = ctx.wire ++ data ∧
      (gfsSend ctx data sent).2 = data.length) ∨ (gfsSend ctx data sent).2 = -1
  unaltered : (gfsSend ctx data sent).2 = sent

/-- A call of `gfs_sendheader` reports a failure, or the whole header is sent. -/
def SendsHeader (ctx : GfContext) (status : GfStatus) (fileLen : Nat) (sent : Int) : Prop :=
  (gfsSendheader ctx status fileLen sent).1.wire = ctx.wire ++ gfsHeader status fileLen ∨
    (gfsSendheader ctx status fileLen sent).2 = -1

/-- The result of a `send` of `len` bytes. -/
structure IsSendResult (len : Nat) (sent : Int) : Prop where
  ge : -1 ≤ sent
  le : sent ≤ len

theorem gfsSend_result (ctx : GfContext) (data : Bytes) (sent : Int) :
    (gfsSend ctx data sent).2 = toInt32 sent := rfl

theorem gfsSendheader_result (ctx : GfContext) (status : GfStatus) (fileLen : Nat) (sent : Int) :
    (gfsSendheader ctx status fileLen sent).2 = toInt32 sent := rfl

/-- An `int` holds the result of a `send` if it is below 2^31. -/
theorem toInt32_eq_self_iff {len : Nat} {sent : Int} (h : IsSendResult len sent) (hlen : len < 2 ^ 64) :
    toInt32 sent = sent ↔ sent < 2 ^ 31 := by
  have hge := h.ge
  have hle := h.le
  unfold toInt32
  omega

/-- A part of the data is not the data. -/
theorem take_eq_iff {data : Bytes} {sent : Int} (h : IsSendResult data.length sent) (hne : sent ≠ -1) :
    data.take sent.toNat = data ↔ sent = data.length := by
  have hge := h.ge
  have hle := h.le
  rw [List.take_eq_self_iff]
  omega

theorem gfsSend_whole_iff (ctx : GfContext) (data : Bytes) {sent : Int}
    (h : IsSendResult data.length sent) (hlen : data.length < 2 ^ 64) :
    SendsWhole ctx data sent ↔ sent = -1 ∨ (sent = data.length ∧ data.length < 2 ^ 31) := by
  have hself := toInt32_eq_self_iff h hlen
  constructor
  · rintro ⟨hwhole, hsame⟩
    rw [gfsSend_result] at hwhole hsame
    rw [hsame] at hwhole
    have hsmall := hself.mp hsame
    rcases hwhole with ⟨_, hall⟩ | hfailed
    · exact Or.inr ⟨hall, by omega⟩
    · exact Or.inl hfailed
  · rintro (hfailed | ⟨hall, hsmall⟩)
    · have hsame := hself.mpr (by omega)
      refine ⟨Or.inr ?_, hsame⟩
      rw [gfsSend_result, hsame]
      exact hfailed
    · have hsame := hself.mpr (by omega)
      refine ⟨Or.inl ⟨?_, ?_⟩, hsame⟩
      · rw [gfsSend_wire, (take_eq_iff h (by omega)).mpr hall]
      · rw [gfsSend_result, hsame]
        exact hall

theorem statusName_length_le (status : GfStatus) : (statusName status).length ≤ 14 := by
  cases status with
  | ok | fileNotFound | error | invalid => decide

/-- A header fits into the memory it is built in. -/
theorem gfsHeader_length_le (status : GfStatus) (fileLen : Nat) :
    (gfsHeader status fileLen).length ≤ 34 := by
  have hname := statusName_length_le status
  have hdigits : ((decimal fileLen).take 7).length ≤ 7 := List.length_take_le 7 _
  have hscheme : (ascii "GETFILE").length = 7 := by decide
  have hspace : (ascii " ").length = 1 := by decide
  have hterm : (ascii "\r\n\r\n").length = 4 := by decide
  unfold gfsHeader
  split
  · simp only [List.length_append, hscheme, hspace]
    omega
  · simp only [List.length_append, hscheme, hspace, hterm]
    omega

theorem gfsSendheader_whole_iff (ctx : GfContext) {status : GfStatus} {fileLen : Nat} {sent : Int}
    (h : IsSendResult (gfsHeader status fileLen).length sent) :
    SendsHeader ctx status fileLen sent ↔
      sent = -1 ∨ sent = (gfsHeader status fileLen).length := by
  have hle := h.le
  have hlen := gfsHeader_length_le status fileLen
  have hself := (toInt32_eq_self_iff h (by omega)).mpr (by omega)
  unfold SendsHeader
  rw [gfsSendheader_wire_take, gfsSendheader_result, hself, List.append_cancel_left_eq]
  by_cases hfailed : sent = -1
  · exact ⟨fun _ => Or.inl hfailed, fun _ => Or.inr hfailed⟩
  · rw [take_eq_iff h hfailed, or_comm]

/-- **Whole sends.** `gfs_send` has sent everything and returns so, or reports a failure, exactly
if `send` takes everything, and less than 2^31 bytes, or fails; `gfs_sendheader` exactly if
`send` takes the whole header or fails. -/
theorem gfs_send_whole_iff (ctx : GfContext) (data : Bytes) (sent : Int)
    (hdata : IsSendResult data.length sent) (hlen : data.length < 2 ^ 64)
    (status : GfStatus) (fileLen : Nat) (sentHeader : Int)
    (hheader : IsSendResult (gfsHeader status fileLen).length sentHeader) :
    (SendsWhole ctx data sent ↔ sent = -1 ∨ (sent = data.length ∧ data.length < 2 ^ 31)) ∧
    (SendsHeader ctx status fileLen sentHeader ↔
      sentHeader = -1 ∨ sentHeader = (gfsHeader status fileLen).length) :=
  ⟨gfsSend_whole_iff ctx data hdata hlen, gfsSendheader_whole_iff ctx hheader⟩

/-- Three bytes sent at once, and a header whose `send` fails. -/
theorem gfs_send_whole_three :
    SendsWhole ⟨3, 0, [], 0, false⟩ (ascii "abc") 3 ∧
      SendsHeader ⟨3, 0, [], 0, false⟩ .ok 3 (-1) := by
  have hiff := gfs_send_whole_iff ⟨3, 0, [], 0, false⟩ (ascii "abc") 3 ⟨by decide, by decide⟩
    (by decide) .ok 3 (-1) ⟨by decide, by decide⟩
  exact ⟨hiff.1.mpr (Or.inr ⟨by decide, by decide⟩), hiff.2.mpr (Or.inl rfl)⟩

/-- One byte of three is taken: neither all of them are sent nor is a failure reported. -/
theorem gfs_send_partial :
    ¬ ∀ (ctx : GfContext) (data : Bytes) (sent : Int), IsSendResult data.length sent →
      data.length < 2 ^ 64 → SendsWhole ctx data sent := by
  intro h
  have hshort := h ⟨3, 0, [], 0, false⟩ (ascii "abc") 1 ⟨by decide, by decide⟩ (by decide)
  rcases hshort.whole with ⟨_, hall⟩ | hfailed
  · exact absurd hall (by decide)
  · exact absurd hfailed (by decide)

end IntroOS.Getfile
