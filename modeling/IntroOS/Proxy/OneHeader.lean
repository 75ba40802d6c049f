import IntroOS.Proxy.Announced

/-! # One response header for a request

A worker function that returns a negative number leaves the response to the library, which then
sends an error header. So a handler must return one exactly if it sent no header itself. After
the OK header there is no way back: a failure of the copy loop returns -1 as well.

* `copyFile_oneHeader_iff`: when the copy loop of `handle_with_file` and `handle_with_cache`
  comes to its end;
* `sendLoop_oneHeader_iff`: the same for the loop of `handle_with_curl`;
* `one_header_iff`: when each of the handlers leaves its client with one header.
-/

namespace IntroOS.Proxy

/-- The headers the library sends for a returned value. -/
def libraryHeaders (ret : Int) : Nat := if ret < 0 then 1 else 0

/-- One header, of the handler or of the library. -/
def Outcome.OneHeader {α : Type*} (o : Outcome α) : Prop :=
  o.headers.length + libraryHeaders o.ret = 1

/-- One call of `gfs_sendheader` and a value that is not negative, or no call and a negative
value. -/
theorem oneHeader_iff {α : Type*} {o : Outcome α} :
    o.OneHeader ↔ (o.headers.length = 1 ∧ 0 ≤ o.ret) ∨ (o.headers.length = 0 ∧ o.ret < 0) := by
  unfold Outcome.OneHeader libraryHeaders
  split <;> omega

@[simp] theorem oneHeader_silent {α : Type*} {sent : List α} {ret : Int} :
    Outcome.OneHeader ⟨[], sent, ret⟩ ↔ ret < 0 := by
  simp [oneHeader_iff]

@[simp] theorem oneHeader_one {α : Type*} {h : Header} {sent : List α} {ret : Int} :
    Outcome.OneHeader ⟨[h], sent, ret⟩ ↔ 0 ≤ ret := by
  simp [oneHeader_iff]

/-! ## The copy loop -/

section Copy

variable {size fileLen : Nat} {chunk : Nat → Chunk size}

/-- Something was read, and `gfs_send` took all of it. -/
def Chunk.Full (c : Chunk size) : Prop := c.data ≠ [] ∧ c.written = c.data.length

/-- The length of the first `k` chunks. -/
def copied (chunk : Nat → Chunk size) : Nat → Nat
  | 0 => 0
  | k + 1 => copied chunk k + (chunk k).data.length

/-- The content of the first `k` chunks. -/
def gathered (chunk : Nat → Chunk size) : Nat → Bytes
  | 0 => []
  | k + 1 => gathered chunk k ++ (chunk k).data

/-- The announced length was not reached before the `k`-th chunk, which is full. -/
def CopyGoes (fileLen : Nat) (chunk : Nat → Chunk size) (k : Nat) : Prop :=
  copied chunk k < fileLen ∧ (chunk k).Full

/-- What the loop leaves with at the `k`-th chunk. -/
def copyEnd (fileLen : Nat) (chunk : Nat → Chunk size) (k : Nat) : Bytes × Int :=
  if fileLen ≤ copied chunk k then (gathered chunk k, toInt64 (copied chunk k))
  else (gathered chunk k ++ (chunk k).data.take (chunk k).written.toNat, serverFailure)

/-- There are full chunks up to the announced length. -/
def Copies (fileLen : Nat) (chunk : Nat → Chunk size) : Prop :=
  ∃ k, (∀ i < k, CopyGoes fileLen chunk i) ∧ fileLen ≤ copied chunk k ∧ copied chunk k < 2 ^ 63

theorem copied_lt (hsize : size < 2 ^ 63) (hlen : fileLen < 2 ^ 63) {k : Nat}
    (h : ∀ i < k, CopyGoes fileLen chunk i) : copied chunk k < 2 ^ 64 := by
  cases k with
  | zero => exact Nat.two_pow_pos 64
  | succ k =>
    have hlt := (h k (Nat.lt_succ_self k)).1
    have hfits := (chunk k).fits
    show copied chunk k + (chunk k).data.length < 2 ^ 64
    omega

/-- An announced length beyond what an `ssize_t` holds: no way out leads to a number that is not
negative. -/
theorem copyRound_large (hlarge : 2 ^ 63 ≤ fileLen) {r : Bytes × Int}
    (hr : Returns (copyRound fileLen chunk) ⟨0, 0, []⟩ r) : r.2 < 0 := by
  have hround : ∀ s s' : Copy, s.transferred < 2 ^ 64 → copyRound fileLen chunk s = .inl s' →
      s'.transferred < 2 ^ 64 := by
    intro s s' _ hstep
    unfold copyRound at hstep
    split at hstep
    · cases hstep
    · dsimp only at hstep
      split at hstep
      · cases hstep
      · split at hstep
        · cases hstep
        · cases hstep
          exact Nat.mod_lt _ (Nat.two_pow_pos 64)
  have hexit : ∀ (s : Copy) (r : Bytes × Int), s.transferred < 2 ^ 64 →
      copyRound fileLen chunk s = .inr r → r.2 < 0 := by
    intro s r hs hstep
    have hneg : serverFailure < 0 := by decide
    unfold copyRound at hstep
    split at hstep
    · rename_i hstop
      cases hstep
      show toInt64 s.transferred < 0
      unfold toInt64
      omega
    · dsimp only at hstep
      split at hstep
      · cases hstep
        exact hneg
      · split at hstep
        · cases hstep
          exact hneg
        · cases hstep
  exact Returns.post hround hexit (Nat.two_pow_pos 64) hr

/-- A full chunk below the announced length. -/
theorem copyRound_goes {k : Nat} (h : CopyGoes fileLen chunk k) (hlt : copied chunk (k + 1) < 2 ^ 64) :
    copyRound fileLen chunk ⟨copied chunk k, k, gathered chunk k⟩ =
      .inl ⟨copied chunk (k + 1), k + 1, gathered chunk (k + 1)⟩ := by
  obtain ⟨hmore, hne, hfull⟩ := h
  have hmod : (copied chunk k + (chunk k).data.length) % 2 ^ 64 = copied chunk (k + 1) :=
    Nat.mod_eq_of_lt hlt
  have hall : (chunk k).data.take (chunk k).written.toNat = (chunk k).data := by
    rw [hfull, Int.toNat_natCast, List.take_length]
  unfold copyRound
  dsimp only
  rw [if_neg (not_not_intro hmore), if_neg hne, if_neg (not_not_intro hfull), hmod, hall]
  rfl

/-- The announced length is reached, or the chunk is not full. -/
theorem copyRound_stops {k : Nat} (h : ¬ CopyGoes fileLen chunk k) :
    copyRound fileLen chunk ⟨copied chunk k, k, gathered chunk k⟩ =
      .inr (copyEnd fileLen chunk k) := by
  unfold copyRound copyEnd
  dsimp only
  by_cases hdone : fileLen ≤ copied chunk k
  · rw [if_pos (not_lt.mpr hdone), if_pos hdone]
  · have hlt : copied chunk k < fileLen := by omega
    rw [if_neg (not_not_intro hlt), if_neg hdone]
    by_cases hnil : (chunk k).data = []
    · rw [if_pos hnil, hnil, List.take_nil, List.append_nil]
    · have hshort : (chunk k).written ≠ (chunk k).data.length := fun hfull => h ⟨hlt, hnil, hfull⟩
      rw [if_neg hnil, if_pos hshort]

/-- The loop stops at the first chunk that is not full, or when it has the announced length. -/
theorem returns_copyRound (hsize : size < 2 ^ 63) (hlen : fileLen < 2 ^ 63) {r : Bytes × Int} :
    Returns (copyRound fileLen chunk) ⟨0, 0, []⟩ r ↔
      ∃ k, (∀ i < k, CopyGoes fileLen chunk i) ∧ ¬ CopyGoes fileLen chunk k ∧
        r = copyEnd fileLen chunk k := by
  have hround : ∀ k, (∀ i < k, CopyGoes fileLen chunk i) → CopyGoes fileLen chunk k →
      copyRound fileLen chunk ⟨copied chunk k, k, gathered chunk k⟩ =
        .inl ⟨copied chunk (k + 1), k + 1, gathered chunk (k + 1)⟩ := by
    intro k _ hk
    have hmore := hk.1
    have hfits := (chunk k).fits
    refine copyRound_goes hk ?_
    show copied chunk k + (chunk k).data.length < 2 ^ 64
    omega
  have hexit : ∀ k, (∀ i < k, CopyGoes fileLen chunk i) → ¬ CopyGoes fileLen chunk k →
      copyRound fileLen chunk ⟨copied chunk k, k, gathered chunk k⟩ =
        .inr (copyEnd fileLen chunk k) := fun k _ hk => copyRound_stops hk
  exact returns_iff_of_trace (f := fun k => Copy.mk (copied chunk k) k (gathered chunk k))
    hround hexit

theorem toInt64_nonneg_iff {n : Nat} (h : n < 2 ^ 64) : 0 ≤ toInt64 n ↔ n < 2 ^ 63 := by
  unfold toInt64
  omega

theorem copyFile_oneHeader_iff (hsize : size < 2 ^ 63) :
    Ends (copyFile fileLen chunk) Outcome.OneHeader ↔ Copies fileLen chunk := by
  unfold copyFile
  rw [ends_loop]
  simp only [oneHeader_one]
  constructor
  · rintro ⟨r, hr, hret⟩
    have hlen : fileLen < 2 ^ 63 := by
      by_contra hlarge
      have hneg := copyRound_large (by omega) hr
      omega
    rcases (returns_copyRound hsize hlen).mp hr with ⟨k, hbefore, hstop, rfl⟩
    unfold copyEnd at hret
    by_cases hdone : fileLen ≤ copied chunk k
    · rw [if_pos hdone] at hret
      exact ⟨k, hbefore, hdone, (toInt64_nonneg_iff (copied_lt hsize hlen hbefore)).mp hret⟩
    · rw [if_neg hdone] at hret
      have hneg : ¬ 0 ≤ serverFailure := by decide
      exact absurd hret hneg
  · rintro ⟨k, hbefore, hdone, hlt⟩
    have hlen : fileLen < 2 ^ 63 := lt_of_le_of_lt hdone hlt
    have hstop : ¬ CopyGoes fileLen chunk k := by
      rintro ⟨hmore, _⟩
      omega
    refine ⟨_, (returns_copyRound hsize hlen).mpr ⟨k, hbefore, hstop, rfl⟩, ?_⟩
    unfold copyEnd
    rw [if_pos hdone]
    exact (toInt64_nonneg_iff (by omega)).mpr hlt

end Copy

/-! ## The send loop of `handle_with_curl` -/

/-- The results of `gfs_send` add up to the content length. -/
def Download.Arrives (d : Download) (cl : Int) : Prop :=
  ∃ k, (∀ i < k, d.Goes cl i) ∧ cl ≤ toDouble (d.total k).toNat ∧
    0 ≤ d.total k ∧ d.total k < 2 ^ 63

theorem sendLoop_oneHeader_iff {d : Download} {cl : Int} (hle : cl ≤ 2 ^ 63) :
    (∃ s, Returns (d.sendRound cl) ⟨0, 0, []⟩ s ∧ 0 ≤ toInt64 s.transferred) ↔ d.Arrives cl := by
  constructor
  · rintro ⟨s, hs, hret⟩
    rcases (returns_sendRound hle).mp hs with ⟨k, hbefore, hstop, rfl⟩
    have hsum := (ret_nonneg_iff hle hbefore).mp hret
    refine ⟨k, hbefore, ?_, hsum⟩
    by_contra hlt
    exact hstop ⟨hsum.1, by omega⟩
  · rintro ⟨k, hbefore, hdone, hsum⟩
    have hstop : ¬ d.Goes cl k := by
      rintro ⟨_, hlt⟩
      omega
    refine ⟨_, (returns_sendRound hle).mpr ⟨k, hbefore, hstop, rfl⟩, ?_⟩
    exact (ret_nonneg_iff hle hbefore).mpr hsum

/-! ## The handlers -/

/-- What must hold of the file: if it is opened, it is copied. -/
def Opened.Answered : Opened → Prop
  | .enoent | .failed | .file none _ => True
  | .file (some size) chunk => Copies size chunk

/-- What must hold of the calls of `handle_with_cache`: a request that goes out fits into its
buffer, the queue back comes up, and a length that comes back is copied. -/
def Ipc.Answered (ipc : Ipc) (name path : Bytes) : Prop :=
  if ¬ ipc.ftok then True
  else if ¬ ipc.msgget then True
  else path.length + 1 + name.length < Cache.bufSize ∧
    if ¬ ipc.msgsnd (Ipc.request name path) then True
    else if ¬ ipc.ftokBack then True
    else (∃ k, ipc.msggetBack k = true) ∧
      match (ipc.msgrcv (Ipc.request name path)).bind Cache.readResponse with
      | none => True
      | some fileLen => Copies fileLen ipc.chunk

/-- What must hold of the transfer: a failure without a header is one that the handler returns
as a negative number, and a length that is announced is reached. -/
def Download.Answered (d : Download) : Prop :=
  if ¬ d.handle then toInt64 d.junkTransferred < 0
  else if ¬ d.performed then d.junkPositive = true
  else
    match d.contentLength with
    | none => True
    | some cl => cl.val < 0 ∨ d.Arrives cl.val

theorem file_oneHeader_iff {openFile : Bytes → Opened} {sendheader : Int} {dataDir path : Bytes}
    (hheader : 0 ≤ sendheader) :
    Ends (handleWithFile openFile sendheader dataDir path) Outcome.OneHeader ↔
      dataDir.length + path.length < fileBufSize ∧ (openFile (dataDir ++ path)).Answered := by
  have hfail : serverFailure < 0 := by decide
  have hsize : fileBufSize < 2 ^ 63 := by decide
  by_cases hfits : dataDir.length + path.length < fileBufSize
  · rw [ends_file hfits, and_iff_right hfits]
    unfold Opened.Answered
    cases openFile (dataDir ++ path) with
    | enoent => simp only [oneHeader_one, hheader]
    | failed => simp only [oneHeader_silent, hfail]
    | file size chunk =>
      cases size with
      | none => simp only [oneHeader_silent, hfail]
      | some size => exact copyFile_oneHeader_iff hsize
  · constructor
    · intro hends
      exact absurd hends (not_ends_file hfits)
    · rintro ⟨hlt, _⟩
      exact absurd hlt hfits

theorem cache_oneHeader_iff {ipc : Ipc} {sendheader : Int} {name path : Bytes}
    (hheader : 0 ≤ sendheader) :
    Ends (handleWithCache ipc sendheader name path) Outcome.OneHeader ↔
      ipc.Answered name path := by
  have hsize : Cache.bufSize < 2 ^ 63 := by decide
  rw [ends_cache]
  unfold Ipc.Answered
  simp only [oneHeader_one, hheader]
  cases (ipc.msgrcv (Ipc.request name path)).bind Cache.readResponse with
  | none => exact Iff.rfl
  | some fileLen => simp only [copyFile_oneHeader_iff hsize]

theorem curl_oneHeader_iff {curl : Bytes → Download} {sendheader : Int} {dataDir path : Bytes}
    (hheader : 0 ≤ sendheader) :
    Ends (handleWithCurl curl sendheader dataDir path) Outcome.OneHeader ↔
      dataDir.length + path.length < curlBufSize ∧ (curl (dataDir ++ path)).Answered := by
  have hfail : serverFailure < 0 := by decide
  by_cases hfits : dataDir.length + path.length < curlBufSize
  · rw [ends_curl hfits rfl, and_iff_right hfits]
    unfold Download.Answered
    split
    · exact oneHeader_silent
    · split
      · rw [oneHeader_silent]
        cases (curl (dataDir ++ path)).junkPositive
        · decide
        · decide
      · cases (curl (dataDir ++ path)).contentLength with
        | none => simp only [oneHeader_silent, hfail]
        | some cl =>
          dsimp only
          split
          · rename_i hneg
            simp only [oneHeader_one, hheader, hneg, true_or]
          · rename_i hneg
            simp only [oneHeader_one]
            rw [or_iff_right hneg]
            exact sendLoop_oneHeader_iff cl.le
  · constructor
    · intro hends
      exact absurd hends (not_ends_curl hfits)
    · rintro ⟨hlt, _⟩
      exact absurd hlt hfits

/-- **One header.** With a `gfs_sendheader` that succeeds, each of the three handlers ends with
one header for its client exactly if its calls do what the conditions say. -/
theorem one_header_iff (openFile : Bytes → Opened) (ipc : Ipc) (curl : Bytes → Download)
    (sendheader : Int) (hheader : 0 ≤ sendheader) (dataDir name path : Bytes) :
    (Ends (handleWithFile openFile sendheader dataDir path) Outcome.OneHeader ↔
      dataDir.length + path.length < fileBufSize ∧ (openFile (dataDir ++ path)).Answered) ∧
    (Ends (handleWithCache ipc sendheader name path) Outcome.OneHeader ↔
      ipc.Answered name path) ∧
    (Ends (handleWithCurl curl sendheader dataDir path) Outcome.OneHeader ↔
      dataDir.length + path.length < curlBufSize ∧ (curl (dataDir ++ path)).Answered) := by
  refine ⟨?_, ?_, ?_⟩
  · exact file_oneHeader_iff hheader
  · exact cache_oneHeader_iff hheader
  · exact curl_oneHeader_iff hheader

/-- A chunk of one byte, sent. -/
def oneByte {size : Nat} (h : 1 ≤ size) : Chunk size := ⟨ascii "x", 1, h⟩

theorem copies_oneByte {size : Nat} (h : 1 ≤ size) : Copies 1 (fun _ => oneByte h) := by
  refine ⟨1, ?_, le_refl 1, Nat.one_lt_two_pow (by decide)⟩
  intro i hi
  obtain rfl : i = 0 := by omega
  have hne : ascii "x" ≠ [] := by decide
  exact ⟨Nat.zero_lt_one, hne, rfl⟩

/-- A file of one byte. -/
def smallFile (_ : Bytes) : Opened := .file (some ⟨1, by decide⟩) fun _ => oneByte (by decide)

/-- A cache that has such a file. -/
def smallCache : Ipc where
  ftok := true
  msgget := true
  msgsnd _ := true
  ftokBack := true
  msggetBack _ := true
  msgrcv _ := some (ascii "1\n")
  chunk _ := oneByte (by decide)

/-- A server of which nothing is known but that it has no content length. -/
def unknownLength (_ : Bytes) : Download where
  handle := true
  junkTransferred := 0
  chunks := []
  performed := true
  junkPositive := false
  contentLength := some ⟨-1, by decide, fun n hn => absurd hn (by omega)⟩
  send _ := 0
  fits := by decide
  send_ge _ := by decide
  send_le _ := by decide

theorem one_header_each :
    Ends (handleWithFile smallFile 20 (ascii "d") (ascii "/f")) Outcome.OneHeader ∧
    Ends (handleWithCache smallCache 20 (ascii "temp") (ascii "/f")) Outcome.OneHeader ∧
    Ends (handleWithCurl unknownLength 20 (ascii "d") (ascii "/f")) Outcome.OneHeader := by
  rcases one_header_iff smallFile smallCache unknownLength 20 (by decide) (ascii "d") (ascii "temp")
    (ascii "/f") with ⟨hfile, hcache, hcurl⟩
  refine ⟨hfile.mpr ⟨by decide, ?_⟩, hcache.mpr ⟨by decide, ⟨0, rfl⟩, ?_⟩, hcurl.mpr ⟨by decide, ?_⟩⟩
  · exact copies_oneByte (by decide)
  · exact copies_oneByte (by decide)
  · exact Or.inl (by decide)

/-- A file that is shorter than its `st_size` when it is read. -/
def truncatedFile (_ : Bytes) : Opened :=
  .file (some ⟨1, by decide⟩) fun _ => ⟨[], 0, Nat.zero_le _⟩

/-- The read fails after the OK header: the handler returns -1, and the library sends another
header. -/
theorem second_header :
    ¬ ∀ (openFile : Bytes → Opened) (ipc : Ipc) (curl : Bytes → Download) (sendheader : Int)
      (dataDir name path : Bytes), 0 ≤ sendheader → dataDir.length + path.length < curlBufSize →
      path.length + 1 + name.length < Cache.bufSize →
      Ends (handleWithFile openFile sendheader dataDir path) Outcome.OneHeader ∧
      Ends (handleWithCache ipc sendheader name path) Outcome.OneHeader ∧
      Ends (handleWithCurl curl sendheader dataDir path) Outcome.OneHeader := by
  intro h
  have hfile := (h truncatedFile smallCache unknownLength 20 (ascii "d") (ascii "temp") (ascii "/f")
    (by decide) (by decide) (by decide)).1
  have hcopies : Copies 1 fun _ => (⟨[], 0, Nat.zero_le _⟩ : Chunk fileBufSize) :=
    ((file_oneHeader_iff (by decide)).mp hfile).2
  rcases hcopies with ⟨k, hbefore, hdone, _⟩
  cases k with
  | zero => exact absurd hdone (by decide)
  | succ k => exact (hbefore 0 (Nat.succ_pos k)).2.1 rfl

end IntroOS.Proxy
