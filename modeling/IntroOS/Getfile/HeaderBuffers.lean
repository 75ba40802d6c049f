import IntroOS.Base.Block
import IntroOS.Getfile.HeaderCodec

/-! # The blocks that `gfs_sendheader` builds a header in

The sizes that are passed to `malloc` are those of pointers and of a `size_t`, whatever the
strings are. `headerBlock` is the part of `gfs_sendheader` in front of `gfs_send`, and
`gfsHeader` the text it is meant to build. `malloc` returns the blocks, with anything in them.
-/

namespace IntroOS.Getfile

/-- `sizeof(file_len)`. -/
def sizeofSize : Nat := 8

/-- The `sizeof` of a pointer. -/
def sizeofPtr : Nat := 8

/-- The size of `header`. The INVALID header has no length. -/
def headerSize (status : GfStatus) : Nat :=
  if statusName status ≠ ascii "INVALID" then
    sizeofPtr + sizeofPtr + sizeofPtr + sizeofPtr + 3
  else sizeofPtr + sizeofPtr + sizeofPtr + 2

/-- `file_length` and `header`. A new block of `n` bytes has `junk n` in it. -/
def headerBlock (junk : (n : Nat) → Block n) (status : GfStatus) (fileLen : Nat) :
    Except Damage (Block (headerSize status)) :=
  if statusName status ≠ ascii "INVALID" then
    match (junk sizeofSize).snprintf sizeofSize (decimal fileLen) with
    | .error damage => .error damage
    | .ok block =>
      match block.string with
      | .error damage => .error damage
      | .ok fileLength =>
        (junk (headerSize status)).store (ascii "GETFILE" ++ (ascii " " ++
          (statusName status ++ (ascii " " ++ (fileLength ++ ascii "\r\n\r\n")))))
  else (junk (headerSize status)).store (ascii "GETFILE" ++ (ascii " " ++ statusName status))

/-! ## The texts -/

theorem decimal_nul_free (n : Nat) : 0 ∉ decimal n := by
  intro h
  have hdigit := decimal_isDigit n 0 h
  exact absurd hdigit (by decide)

theorem statusName_nul_free (status : GfStatus) : 0 ∉ statusName status := by
  cases status <;> decide

theorem gfsHeader_nul_free (status : GfStatus) (fileLen : Nat) :
    0 ∉ gfsHeader status fileLen := by
  have hlength : 0 ∉ (decimal fileLen).take 7 := fun h =>
    decimal_nul_free fileLen (List.mem_of_mem_take h)
  have hstatus := statusName_nul_free status
  have hscheme : (0 : UInt8) ∉ ascii "GETFILE" := by decide
  have hspace : (0 : UInt8) ∉ ascii " " := by decide
  have hend : (0 : UInt8) ∉ ascii "\r\n\r\n" := by decide
  unfold gfsHeader
  split
  · simp only [List.mem_append, not_or]
    exact ⟨hscheme, hspace, hstatus⟩
  · simp only [List.mem_append, not_or]
    exact ⟨hscheme, hspace, hstatus, hspace, hlength, hend⟩

theorem statusName_eq_invalid {status : GfStatus} :
    statusName status = ascii "INVALID" ↔ status = .invalid := by
  cases status <;> decide

theorem headerSize_of_ne {status : GfStatus} (h : status ≠ .invalid) : headerSize status = 35 := by
  unfold headerSize
  rw [if_pos fun hname => h (statusName_eq_invalid.mp hname)]
  rfl

/-- A FILE_NOT_FOUND header with seven digits fills its block, NUL included. -/
theorem gfsHeader_length_lt (status : GfStatus) (fileLen : Nat) :
    (gfsHeader status fileLen).length < headerSize status := by
  by_cases hinvalid : status = .invalid
  · rw [hinvalid]
    unfold gfsHeader
    rw [if_pos rfl]
    decide
  · have hlength : ((decimal fileLen).take 7).length ≤ 7 := List.length_take_le 7 _
    have hname : (statusName status).length ≤ 14 := by cases status <;> decide
    have hscheme : (ascii "GETFILE").length = 7 := by decide
    have hspace : (ascii " ").length = 1 := by decide
    have hend : (ascii "\r\n\r\n").length = 4 := by decide
    unfold gfsHeader
    rw [headerSize_of_ne hinvalid, if_neg hinvalid]
    simp only [List.length_append]
    -- 7 + 1 + 14 + 1 + 7 + 4
    omega

/-! ## The blocks -/

/-- **Header buffers.** For every status and every length, `snprintf` and `sprintf` stay in their
blocks, and the block has the header in it. -/
theorem header_buffers_fit (junk : (n : Nat) → Block n) (status : GfStatus) (fileLen : Nat) :
    ∃ header, headerBlock junk status fileLen = .ok header ∧
      header.string = .ok (gfsHeader status fileLen) := by
  have h0 := gfsHeader_nul_free status fileLen
  have hlt := gfsHeader_length_lt status fileLen
  rcases (junk (headerSize status)).store_ok h0 hlt with ⟨header, hstore, hstring⟩
  refine ⟨header, ?_, hstring⟩
  unfold headerBlock
  by_cases hinvalid : status = .invalid
  · have hname := statusName_eq_invalid.mpr hinvalid
    rw [if_neg (not_not_intro hname)]
    unfold gfsHeader at hstore
    rw [if_pos hinvalid] at hstore
    exact hstore
  · have hname : statusName status ≠ ascii "INVALID" := fun h =>
      hinvalid (statusName_eq_invalid.mp h)
    rcases (junk sizeofSize).snprintf_ok (decimal_nul_free fileLen) (by decide)
      (Nat.le_refl sizeofSize) with ⟨block, hprint, hlength⟩
    rw [if_pos hname, hprint]
    simp only [hlength]
    unfold gfsHeader at hstore
    rw [if_neg hinvalid] at hstore
    exact hstore

end IntroOS.Getfile
