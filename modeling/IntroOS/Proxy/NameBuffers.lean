import IntroOS.Base.Block
import IntroOS.Proxy.Handlers

/-! # The names that the handlers build

`handle_with_curl` and `handle_with_file` put the source of the data and the path of a request
together in a buffer on the stack. `strncpy` gives no NUL to a source that fills the buffer, and
the bound of `strncat` is what may be appended, not what is left.

1. **Handlers** up to the use of the name (`Handler.prepare`);
2. **Property** (`NameExact`), and when it holds;
3. the damage on the two sides of the bound, and the names of `Handlers`.

The source is what `main` takes from `-s`, of any length.
-/

namespace IntroOS.Proxy.NameBuffers

/-! ## Handlers -/

inductive Handler where
  /-- `handle_with_curl` -/
  | curl
  /-- `handle_with_file` -/
  | file
deriving DecidableEq, Repr

/-- `BUFSIZE`. -/
def Handler.bufSize : Handler → Nat
  | .curl => curlBufSize
  | .file => fileBufSize

/-- How a handler comes to the use of its buffer. -/
inductive Prepared (n : Nat) where
  /-- it returns an error instead -/
  | report (ret : Int)
  /-- the call of `open`, or the URL for libcurl -/
  | use (buffer : Block n)
deriving DecidableEq, Repr

/-- `strncpy(buffer, data_dir, BUFSIZE)` and `strncat(buffer, path, BUFSIZE)`. There is no check. -/
def prepare {n : Nat} (buffer : Block n) (dataDir path : Bytes) : Except Damage (Prepared n) :=
  match buffer.strncpy dataDir n with
  | .error d => .error d
  | .ok buffer =>
    match buffer.strncat path n with
    | .error d => .error d
    | .ok buffer => .ok (.use buffer)

/-- The start of a handler, with anything in the buffer. -/
def Handler.prepare (h : Handler) (buffer : Block h.bufSize) (dataDir path : Bytes) :
    Except Damage (Prepared h.bufSize) := NameBuffers.prepare buffer dataDir path

/-- Nothing is written or read outside of the buffer, and what is used is `name`. -/
def NameExact {n : Nat} (r : Except Damage (Prepared n)) (name : Bytes) : Prop :=
  ∃ p, r = .ok p ∧ ∀ buffer, p = .use buffer → buffer.string = .ok name

/-! ## The bound -/

section Prepare

variable {n : Nat} (buffer : Block n) {dataDir path : Str}

theorem prepare_ok (hfits : dataDir.bytes.length + path.bytes.length < n) :
    ∃ buffer', prepare buffer dataDir.bytes path.bytes = .ok (.use buffer') ∧
      buffer'.string = .ok (dataDir.bytes ++ path.bytes) := by
  have hpath : path.bytes.take n = path.bytes := List.take_of_length_le (by omega)
  rcases buffer.strncpy_ok dataDir.nul_free (by omega) with ⟨copied, hcopy, hstring⟩
  rcases Block.strncat_ok hstring path.nul_free (by rw [hpath]; exact hfits) with
    ⟨buffer', hcat, hname⟩
  rw [hpath] at hname
  refine ⟨buffer', ?_, hname⟩
  unfold prepare
  simp only [hcopy, hcat]

/-- A source that fills the buffer: `strncat` looks for its end behind it. -/
theorem prepare_unterminated (path : Bytes) (hlong : n ≤ dataDir.bytes.length) :
    prepare buffer dataDir.bytes path = .error .unterminated := by
  rcases buffer.strncpy_full dataDir.nul_free hlong with ⟨copied, hcopy, hstring⟩
  unfold prepare
  simp only [hcopy, Block.strncat_unterminated hstring]

/-- A shorter source with a path that does not fit behind it. -/
theorem prepare_overrun (hdir : dataDir.bytes.length < n)
    (hlong : n ≤ dataDir.bytes.length + path.bytes.length) :
    prepare buffer dataDir.bytes path.bytes = .error .overrun := by
  rcases buffer.strncpy_ok dataDir.nul_free hdir with ⟨copied, hcopy, hstring⟩
  have hover : ¬ dataDir.bytes.length + (path.bytes.take n).length < n := by
    rw [List.length_take]
    omega
  unfold prepare
  simp only [hcopy, Block.strncat_overrun hstring hover]

/-- Without damage the two fit. -/
theorem prepare_fits_of_ok {p : Prepared n}
    (h : prepare buffer dataDir.bytes path.bytes = .ok p) :
    dataDir.bytes.length + path.bytes.length < n := by
  by_contra hlong
  by_cases hdir : dataDir.bytes.length < n
  · rw [prepare_overrun buffer hdir (Nat.le_of_not_lt hlong)] at h
    cases h
  · rw [prepare_unterminated buffer path.bytes (Nat.le_of_not_lt hdir)] at h
    cases h

/-- The handlers as functions of strings see the name that is in the buffer. -/
theorem strncat_eq_some_iff {name : Bytes} :
    strncat n dataDir.bytes path.bytes = some name ↔
      ∃ buffer', prepare buffer dataDir.bytes path.bytes = .ok (.use buffer') ∧
        buffer'.string = .ok name := by
  unfold strncat
  constructor
  · intro h
    by_cases hfits : dataDir.bytes.length + path.bytes.length < n
    · rw [if_pos hfits] at h
      cases h
      exact prepare_ok buffer hfits
    · rw [if_neg hfits] at h
      cases h
  · rintro ⟨buffer', hprepare, hstring⟩
    have hfits := prepare_fits_of_ok buffer hprepare
    rcases prepare_ok buffer hfits with ⟨buffer'', hprepare', hstring'⟩
    rw [hprepare] at hprepare'
    cases hprepare'
    rw [hstring] at hstring'
    cases hstring'
    exact if_pos hfits

end Prepare

/-- **Names.** For every source and path, a handler uses the exact name and stays in its buffer
exactly if the two together leave room for a NUL. -/
theorem name_exact_iff (h : Handler) (buffer : Block h.bufSize) (dataDir path : Str) :
    NameExact (h.prepare buffer dataDir.bytes path.bytes) (dataDir.bytes ++ path.bytes) ↔
      dataDir.bytes.length + path.bytes.length < h.bufSize := by
  constructor
  · rintro ⟨p, hprepare, _⟩
    exact prepare_fits_of_ok buffer hprepare
  · intro hfits
    rcases prepare_ok buffer hfits with ⟨buffer', hprepare, hname⟩
    refine ⟨_, hprepare, ?_⟩
    intro used hused
    cases hused
    exact hname

/-- A source of 6200 bytes. -/
theorem name_unterminated :
    ¬ ∀ (h : Handler) (buffer : Block h.bufSize) (dataDir path : Str),
      NameExact (h.prepare buffer dataDir.bytes path.bytes) (dataDir.bytes ++ path.bytes) := by
  intro h
  have hfree : (0 : UInt8) ∉ List.replicate 6200 97 := fun hmem =>
    absurd (List.eq_of_mem_replicate hmem) (by decide)
  rcases h .curl (Block.filled _ 7) ⟨List.replicate 6200 97, hfree⟩ ⟨ascii "/a", by decide⟩ with
    ⟨p, hprepare, _⟩
  have hfits := prepare_fits_of_ok _ hprepare
  rw [List.length_replicate] at hfits
  have hsize : Handler.bufSize .curl = 6200 := rfl
  omega

end IntroOS.Proxy.NameBuffers
