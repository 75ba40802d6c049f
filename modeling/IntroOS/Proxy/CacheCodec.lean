import IntroOS.Cache.Matching
import IntroOS.Proxy.OneHeader

/-! # The two codecs between the proxy and the cache

A worker of the cache takes a request apart that `handle_with_cache` has put together, and
`handle_with_cache` reads a length that the worker has printed.

1. **Lengths** (`length_codec_iff`): the worker prints an `int`, and the handler reads an `int`
   twice, once for the header and once for its loop. Which sizes come through?
2. **Requests** (`request_codec_iff`): the path and the segment name, joined by a space and cut at
   the first one. Which come through, in a buffer of `BUFSIZE` bytes?
-/

namespace IntroOS.Proxy

/-! ## Lengths -/

/-- The calls of a handler succeed up to the `msgrcv` of its answer. -/
structure Ipc.Connects (ipc : Ipc) (name path : Bytes) : Prop where
  ftok : ipc.ftok = true
  msgget : ipc.msgget = true
  fits : path.length + 1 + name.length < Cache.bufSize
  msgsnd : ipc.msgsnd (Ipc.request name path) = true
  ftokBack : ipc.ftokBack = true
  msggetBack : ∃ k, ipc.msggetBack k = true

/-- What the cache worker answers about a file of `fileLen` bytes is neither taken for NOT_FOUND nor
for an error, and the handler announces and copies `fileLen` bytes. -/
structure KeepsLength (fileLen : Nat) : Prop where
  found : Cache.lengthText fileLen ≠ Cache.notFound
  valid : atoi (Cache.lengthText fileLen) ≠ -1
  copies : ∀ (ipc : Ipc) (sendheader : Int) (name path : Bytes), ipc.Connects name path →
    ipc.msgrcv (Ipc.request name path) = some (Cache.lengthText fileLen) →
    ∀ P, Ends (handleWithCache ipc sendheader name path) P ↔ Ends (copyFile fileLen ipc.chunk) P

/-- What a handler does with an answer that it takes for the length `n`. -/
theorem ends_connects {ipc : Ipc} {name path : Bytes} {n : Nat} (h : ipc.Connects name path)
    (hread : (ipc.msgrcv (Ipc.request name path)).bind Cache.readResponse = some n)
    {sendheader : Int} {P : Outcome UInt8 → Prop} :
    Ends (handleWithCache ipc sendheader name path) P ↔ Ends (copyFile n ipc.chunk) P := by
  rw [ends_cache, if_neg (not_not_intro h.ftok), if_neg (not_not_intro h.msgget),
    and_iff_right h.fits, if_neg (not_not_intro h.msgsnd), if_neg (not_not_intro h.ftokBack),
    and_iff_right h.msggetBack, hread]

/-- `atoi` undoes `%d`. -/
theorem atoi_signedDecimal {z : Int} (hlo : -2 ^ 31 ≤ z) (hhi : z < 2 ^ 31) {rest : Bytes}
    (hrest : ∀ b ∈ rest.head?, isDigit b = false) : atoi (signedDecimal z ++ rest) = z := by
  unfold atoi toInt32
  rw [strtol_signedDecimal z hrest]
  omega

theorem atoi_lengthText (fileLen : Nat) : atoi (Cache.lengthText fileLen) = toInt32 fileLen := by
  apply atoi_signedDecimal
  · unfold toInt32
    omega
  · unfold toInt32
    omega
  · exact Cache.newline_head

/-- No size from 2^31 on comes back out of an `int`. -/
theorem toSize_toInt32_ne {n : Nat} (hlt : n < 2 ^ 63) (hlarge : ¬ n < 2 ^ 31) :
    toSize (toInt32 n) ≠ n := by
  unfold toSize toInt32
  omega

/-- A loop whose first read fails has announced its length. -/
theorem ends_copyFile_failed (size fileLen : Nat) (P : Outcome UInt8 → Prop) :
    Ends (copyFile fileLen fun _ => (⟨[], 0, Nat.zero_le _⟩ : Chunk size)) P ↔
      P ⟨[.ok fileLen], [], if fileLen = 0 then 0 else serverFailure⟩ := by
  have hbody : copyRound fileLen (fun _ => (⟨[], 0, Nat.zero_le _⟩ : Chunk size)) ⟨0, 0, []⟩ =
      .inr ([], if fileLen = 0 then 0 else serverFailure) := by
    unfold copyRound
    by_cases hzero : fileLen = 0
    · rw [hzero]
      rfl
    · have hpos : 0 < fileLen := Nat.pos_of_ne_zero hzero
      rw [if_neg (not_not_intro hpos), if_neg hzero]
      rfl
  unfold copyFile
  rw [ends_loop]
  constructor
  · rintro ⟨r, hr, hP⟩
    rw [(Returns.exit_iff hbody).mp hr] at hP
    exact hP
  · intro hP
    exact ⟨_, (Returns.exit_iff hbody).mpr rfl, hP⟩

/-- A cache that answers and then has nothing to read. -/
def answerOnly (answer : Bytes) : Ipc where
  ftok := true
  msgget := true
  msgsnd _ := true
  ftokBack := true
  msggetBack _ := true
  msgrcv _ := some answer
  chunk _ := ⟨[], 0, Nat.zero_le _⟩

theorem msgrcv_answerOnly (answer msg : Bytes) : (answerOnly answer).msgrcv msg = some answer := rfl

theorem connects_answerOnly (answer : Bytes) :
    (answerOnly answer).Connects (ascii "temp") (ascii "/f") where
  ftok := rfl
  msgget := rfl
  fits := by decide
  msgsnd := rfl
  ftokBack := rfl
  msggetBack := ⟨0, rfl⟩

/-- **Lengths.** Of the sizes that `fstat` can report, those below 2^31 come through. -/
theorem length_codec_iff {fileLen : Nat} (hlt : fileLen < 2 ^ 63) :
    KeepsLength fileLen ↔ fileLen < 2 ^ 31 := by
  constructor
  · intro hkeeps
    by_contra hlarge
    have hread : Cache.readResponse (Cache.lengthText fileLen) = some (toSize (toInt32 fileLen)) := by
      unfold Cache.readResponse
      rw [if_neg hkeeps.found, if_neg hkeeps.valid, atoi_lengthText]
    have hconnects := connects_answerOnly (Cache.lengthText fileLen)
    have hsame := hkeeps.copies _ 0 _ _ hconnects (msgrcv_answerOnly _ _)
      fun o => o.headers = [.ok fileLen]
    have hanswer : ((answerOnly (Cache.lengthText fileLen)).msgrcv
        (Ipc.request (ascii "temp") (ascii "/f"))).bind Cache.readResponse =
          some (toSize (toInt32 fileLen)) := by
      rw [msgrcv_answerOnly, Option.bind_some, hread]
    have hchunk : (answerOnly (Cache.lengthText fileLen)).chunk = fun _ => ⟨[], 0, Nat.zero_le _⟩ := rfl
    rw [ends_connects hconnects hanswer, hchunk, ends_copyFile_failed, ends_copyFile_failed] at hsame
    -- the header has the length of the answer
    have hhead := (List.cons.inj (hsame.mpr rfl)).1
    exact toSize_toInt32_ne hlt hlarge (Header.ok.inj hhead)
  · intro hsmall
    have hread := Cache.readResponse_lengthText hsmall
    refine ⟨Cache.lengthText_ne_notFound hsmall, ?_, ?_⟩
    · rw [atoi_lengthText, toInt32_of_lt hsmall]
      omega
    · intro ipc sendheader name path hconnects htold P
      apply ends_connects hconnects
      rw [htold, Option.bind_some, hread]

theorem length_codec_924 : KeepsLength 924 :=
  (length_codec_iff (by decide)).mpr (by decide)

/-- The length of a file of 4 GiB - 1 bytes is read as the error value. -/
theorem length_codec_narrow : ¬ ∀ fileLen < 2 ^ 63, KeepsLength fileLen := by
  intro h
  refine (h 4294967295 (by decide)).valid ?_
  rw [atoi_lengthText]
  decide

/-! ## Requests -/

/-- What `strncpy` and the two calls of `strncat` leave in `mybuf.buffer`: `none` if they write
beyond it. -/
def requestBuffer (name path : Bytes) : Option Bytes :=
  (strncat Cache.bufSize path (ascii " ")).bind (strncat Cache.bufSize · name)

/-- What a worker finds in a message: `strtok_r(path, " ", &path)`, and then
`strtok_r(NULL, "", &path)`, which takes all that is left. `none` is NULL. -/
def requestFields (msg : Bytes) : Option Bytes × Option Bytes :=
  match token isSp msg with
  | none => (none, none)
  | some (pathName, rest) => (some pathName, (token (fun _ => false) rest).map Prod.fst)

/-- A request that is not rejected is written within the buffer, and if it is sent the worker finds
the path and the name in it. -/
def KeepsRequest (ipc : Ipc) (name path : Bytes) : Prop :=
  ipc.ftok = true → ipc.msgget = true → ∃ msg, requestBuffer name path = some msg ∧
    (ipc.msgsnd msg = true → requestFields msg = (some path, some name))

theorem requestBuffer_eq (name path : Bytes) :
    requestBuffer name path =
      if path.length + 1 + name.length < Cache.bufSize then some (Ipc.request name path) else none :=
  strncat_twice

/-- The worker finds what was joined if the first field is a token and the second is not empty. -/
theorem requestFields_request_iff (name : Bytes) {path : Bytes} (hne : path ≠ []) :
    requestFields (Ipc.request name path) = (some path, some name) ↔ Clean isSp path ∧ name ≠ [] := by
  have hsp : ascii " " = [32] := by decide
  have htext : Ipc.request name path = path ++ 32 :: name := by
    rw [Ipc.request, hsp, List.append_assoc, List.singleton_append]
  constructor
  · intro hfields
    unfold requestFields at hfields
    split at hfields
    · cases hfields
    · rename_i pathName rest htoken
      rcases token_eq_some_iff.mp htoken with ⟨_, _, _, hclean, _⟩
      have hpath : pathName = path := Option.some.inj (congrArg Prod.fst hfields)
      subst hpath
      refine ⟨hclean, ?_⟩
      -- the second token is not empty, if there is one
      rcases Option.map_eq_some_iff.mp (congrArg Prod.snd hfields) with ⟨⟨shmName, _⟩, hsecond, heq⟩
      rcases token_eq_some_iff.mp hsecond with ⟨_, _, hshm, _⟩
      rw [← heq]
      exact hshm
  · rintro ⟨hclean, hname⟩
    have hfirst := token_cut hne hclean (isSp_iff.mpr rfl) name
    have hall : Clean (fun _ : UInt8 => false) name := fun _ _ => rfl
    unfold requestFields
    rw [htext, hfirst]
    dsimp only
    rw [token_whole hname hall]
    rfl

/-- **Requests.** The path and the name come through exactly if the handler fails before it writes
them, or they fit with a space and a NUL and either are not sent or have no space in the path and
a name that is not empty. -/
theorem request_codec_iff (ipc : Ipc) (name : Bytes) {path : Bytes} (hne : path ≠ []) :
    KeepsRequest ipc name path ↔
      ipc.ftok = false ∨ ipc.msgget = false ∨ (path.length + 1 + name.length < Cache.bufSize ∧
        (ipc.msgsnd (Ipc.request name path) = false ∨ ((32 : UInt8) ∉ path ∧ name ≠ []))) := by
  have hclean : Clean isSp path ↔ (32 : UInt8) ∉ path := by
    constructor
    · intro h hmem
      exact absurd (h 32 hmem) (by decide)
    · intro h b hb
      cases hsep : isSp b with
      | false => rfl
      | true => exact absurd (isSp_iff.mp hsep ▸ hb) h
  have hfields := requestFields_request_iff name hne
  rw [hclean] at hfields
  unfold KeepsRequest
  rw [requestBuffer_eq]
  cases hftok : ipc.ftok with
  | false => exact ⟨fun _ => Or.inl rfl, fun _ h => nomatch h⟩
  | true =>
    cases hget : ipc.msgget with
    | false => exact ⟨fun _ => Or.inr (Or.inl rfl), fun _ _ h => nomatch h⟩
    | true =>
      constructor
      · intro hkeeps
        rcases hkeeps rfl rfl with ⟨msg, hmsg, hsent⟩
        refine Or.inr (Or.inr ?_)
        split at hmsg
        · rename_i hfits
          cases hmsg
          refine ⟨hfits, ?_⟩
          cases hsnd : ipc.msgsnd (Ipc.request name path) with
          | false => exact Or.inl rfl
          | true => exact Or.inr (hfields.mp (hsent hsnd))
        · cases hmsg
      · rintro (h | h | ⟨hfits, hsent⟩) _ _
        · cases h
        · cases h
        · rw [if_pos hfits]
          refine ⟨_, rfl, ?_⟩
          intro hsnd
          rcases hsent with hnot | hboth
          · rw [hsnd] at hnot
            cases hnot
          · exact hfields.mpr hboth

theorem request_codec_temp : KeepsRequest (answerOnly []) (ascii "temp") (ascii "/f") :=
  (request_codec_iff (answerOnly []) (ascii "temp") (by decide)).mpr
    (Or.inr (Or.inr ⟨by decide, Or.inr ⟨by decide, by decide⟩⟩))

/-- A path with a space in it is cut there, and its rest goes to the name. -/
theorem request_codec_space :
    ¬ ∀ (ipc : Ipc) (name path : Bytes), path.head? = some 47 → 0 ∉ path →
      (∀ b ∈ name, b ≠ 32 ∧ b ≠ 0) → KeepsRequest ipc name path := by
  intro h
  have hkeeps := h (answerOnly []) (ascii "temp") (ascii "/a b") (by decide) (by decide)
    (forall_of_all (by decide))
  rcases hkeeps rfl rfl with ⟨msg, hmsg, hsent⟩
  have hread := hsent rfl
  rw [requestBuffer_eq, if_pos (by decide)] at hmsg
  cases hmsg
  exact absurd hread (by decide)

end IntroOS.Proxy
