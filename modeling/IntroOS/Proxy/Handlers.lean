import IntroOS.Base.Loop
import IntroOS.Base.Rounding
import IntroOS.Cache.Protocol

/-! # The handlers of the proxy

The worker functions that `webproxy` registers with the Getfile server library:
`handle_with_file`, `handle_with_curl` and `handle_with_cache`.

1. **Outcomes**: the headers and content bytes of a request, and the value returned to the
   library.
2. **The copy loop** of the first and the last of them: chunks that are read and sent.
3. **The handlers**, on the results of the calls they make.

A run has a bound on the rounds of its loops. `none` is undefined behaviour (a write beyond the
buffer), or more rounds than the bound. The results of `gfs_send` and `gfs_sendheader` are
parameters, as are those of the operating system, of libcurl and of the cache.
-/

namespace IntroOS.Proxy

/-! ## Outcomes -/

/-- A call of `gfs_sendheader`. -/
inductive Header where
  /-- `GF_OK` -/
  | ok (fileLen : Nat)
  /-- `GF_FILE_NOT_FOUND`, with length 0 -/
  | fileNotFound
deriving DecidableEq, Repr

/-- What a handler did: its headers, the content it sent, and the value it returned. -/
structure Outcome (α : Type*) where
  headers : List Header
  sent : List α
  ret : Int
deriving DecidableEq, Repr

/-- `SERVER_FAILURE`. -/
def serverFailure : Int := -1

/-- The handler ends, with an outcome that satisfies `P`. -/
def Ends {α : Type*} (run : Nat → Option (Outcome α)) (P : Outcome α → Prop) : Prop :=
  ∃ fuel o, run fuel = some o ∧ P o

theorem ends_none {α : Type*} {P : Outcome α → Prop} : ¬ Ends (fun _ => none) P := by
  rintro ⟨fuel, o, hrun, _⟩
  cases hrun

theorem ends_some {α : Type*} {o : Outcome α} {P : Outcome α → Prop} :
    Ends (fun _ => some o) P ↔ P o := by
  constructor
  · rintro ⟨fuel, o', hrun, hP⟩
    cases hrun
    exact hP
  · intro hP
    exact ⟨0, o, rfl, hP⟩

/-- A handler that ends in a loop. -/
theorem ends_loop {α σ ρ : Type*} {body : σ → σ ⊕ ρ} {s : σ} {f : ρ → Outcome α}
    {P : Outcome α → Prop} :
    Ends (fun fuel => (loop body fuel s).map f) P ↔ ∃ r, Returns body s r ∧ P (f r) := by
  constructor
  · rintro ⟨fuel, o, hrun, hP⟩
    rcases Option.map_eq_some_iff.mp hrun with ⟨r, hr, rfl⟩
    exact ⟨r, ⟨fuel, hr⟩, hP⟩
  · rintro ⟨r, ⟨fuel, hr⟩, hP⟩
    have hrun : (loop body fuel s).map f = some (f r) := by rw [hr, Option.map_some]
    exact ⟨fuel, f r, hrun, hP⟩

/-- `strncat(s, t, size)` on a buffer of `size` bytes, where the bound does not protect it. -/
def strncat (size : Nat) (s t : Bytes) : Option Bytes :=
  if s.length + t.length < size then some (s ++ t) else none

theorem strncat_twice {size : Nat} {s t u : Bytes} :
    (strncat size s t).bind (strncat size · u) =
      if s.length + t.length + u.length < size then some (s ++ t ++ u) else none := by
  unfold strncat
  by_cases hfits : s.length + t.length < size
  · rw [if_pos hfits, Option.bind_some, List.length_append]
  · have hnot : ¬ s.length + t.length + u.length < size := by omega
    rw [if_neg hfits, if_neg hnot, Option.bind_none]

/-! ## The copy loop -/

/-- A `read` or `pread` into a buffer of `size` bytes, and the result of the `gfs_send` after it.
No bytes: the end of the file or an error. -/
structure Chunk (size : Nat) where
  data : Bytes
  written : Int
  fits : data.length ≤ size

/-- The variables of the loop. -/
structure Copy where
  transferred : Nat
  /-- how many chunks were read -/
  chunks : Nat
  sent : Bytes

/-- A round of `while(bytes_transferred < file_len)`. -/
def copyRound {size : Nat} (fileLen : Nat) (chunk : Nat → Chunk size) (s : Copy) :
    Copy ⊕ (Bytes × Int) :=
  if ¬ s.transferred < fileLen then .inr (s.sent, toInt64 s.transferred)
  else
    let c := chunk s.chunks
    if c.data = [] then .inr (s.sent, serverFailure)
    else
      let sent := s.sent ++ c.data.take c.written.toNat
      if c.written ≠ c.data.length then .inr (sent, serverFailure)
      else .inl ⟨(s.transferred + c.data.length) % 2 ^ 64, s.chunks + 1, sent⟩

/-- The OK header and the loop after it. -/
def copyFile {size : Nat} (fileLen : Nat) (chunk : Nat → Chunk size) (fuel : Nat) :
    Option (Outcome UInt8) :=
  (loop (copyRound fileLen chunk) fuel ⟨0, 0, []⟩).map fun r => ⟨[.ok fileLen], r.1, r.2⟩

/-! ## `handle_with_file` -/

/-- `BUFSIZE` of `handle_with_file.c`. -/
def fileBufSize : Nat := 8803

/-- The result of `open`. -/
inductive Opened where
  /-- it failed with `ENOENT` -/
  | enoent
  /-- it failed with another error -/
  | failed
  /-- `st_size`, if `fstat` succeeds, and what comes from the file then -/
  | file (size : Option (Fin (2 ^ 63))) (chunk : Nat → Chunk fileBufSize)

/-- `handle_with_file`. `sendheader` is the result of `gfs_sendheader`. -/
def handleWithFile (openFile : Bytes → Opened) (sendheader : Int) (dataDir path : Bytes)
    (fuel : Nat) : Option (Outcome UInt8) :=
  match strncat fileBufSize dataDir path with
  | none => none
  | some name =>
    match openFile name with
    | .enoent => some ⟨[.fileNotFound], [], sendheader⟩
    | .failed => some ⟨[], [], serverFailure⟩
    | .file none _ => some ⟨[], [], serverFailure⟩
    | .file (some size) chunk => copyFile size chunk fuel

/-- How `handle_with_file` ends, exit by exit. -/
theorem ends_file {openFile : Bytes → Opened} {sendheader : Int} {dataDir path : Bytes}
    {P : Outcome UInt8 → Prop} (hfits : dataDir.length + path.length < fileBufSize) :
    Ends (handleWithFile openFile sendheader dataDir path) P ↔
      match openFile (dataDir ++ path) with
      | .enoent => P ⟨[.fileNotFound], [], sendheader⟩
      | .failed => P ⟨[], [], serverFailure⟩
      | .file none _ => P ⟨[], [], serverFailure⟩
      | .file (some size) chunk => Ends (copyFile size chunk) P := by
  unfold handleWithFile strncat
  rw [if_pos hfits]
  dsimp only
  split
  · exact ends_some
  · exact ends_some
  · exact ends_some
  · exact Iff.rfl

theorem not_ends_file {openFile : Bytes → Opened} {sendheader : Int} {dataDir path : Bytes}
    {P : Outcome UInt8 → Prop} (hfits : ¬ dataDir.length + path.length < fileBufSize) :
    ¬ Ends (handleWithFile openFile sendheader dataDir path) P := by
  unfold handleWithFile strncat
  rw [if_neg hfits]
  exact ends_none

theorem copyFile_mono {size fileLen : Nat} {chunk : Nat → Chunk size} {m n : Nat}
    {o : Outcome UInt8} (h : copyFile fileLen chunk m = some o) (hle : m ≤ n) :
    copyFile fileLen chunk n = some o := by
  unfold copyFile at h ⊢
  rcases Option.map_eq_some_iff.mp h with ⟨r, hr, heq⟩
  rw [loop_mono hr hle, Option.map_some, heq]

/-! ## `handle_with_cache` -/

/-- The calls of `handle_with_cache` and their results: whether they succeed, where nothing
else is used of them. -/
structure Ipc where
  ftok : Bool
  msgget : Bool
  msgsnd : Bytes → Bool
  /-- the `ftok` of the queue back -/
  ftokBack : Bool
  /-- the tries of `msgget` for it -/
  msggetBack : Nat → Bool
  /-- the string in the buffer after `msgrcv`, in answer to a request -/
  msgrcv : Bytes → Option Bytes
  chunk : Nat → Chunk Cache.bufSize

/-- A round of `while((msqid_cache_to_proxy = msgget(..)) == -1)`. -/
def Ipc.connectRound (ipc : Ipc) (tries : Nat) : Nat ⊕ Unit :=
  if ipc.msggetBack tries then .inr () else .inl (tries + 1)

/-- `handle_with_cache`. `name` is the segment name it was registered with. -/
def handleWithCache (ipc : Ipc) (sendheader : Int) (name path : Bytes) (fuel : Nat) :
    Option (Outcome UInt8) :=
  let notFound : Outcome UInt8 := ⟨[.fileNotFound], [], sendheader⟩
  if ¬ ipc.ftok then some notFound
  else if ¬ ipc.msgget then some notFound
  else
    match (strncat Cache.bufSize path (ascii " ")).bind (strncat Cache.bufSize · name) with
    | none => none
    | some text =>
      if ¬ ipc.msgsnd text then some notFound
      else if ¬ ipc.ftokBack then some notFound
      else
        match loop ipc.connectRound fuel 0 with
        | none => none
        | some () =>
          match (ipc.msgrcv text).bind Cache.readResponse with
          | none => some notFound
          | some fileLen => copyFile fileLen ipc.chunk fuel

/-- The request. -/
def Ipc.request (name path : Bytes) : Bytes := path ++ ascii " " ++ name

theorem connect_iff {ipc : Ipc} : Returns ipc.connectRound 0 () ↔ ∃ k, ipc.msggetBack k = true := by
  have hround : ∀ k, (∀ i < k, ¬ ipc.msggetBack i = true) → ¬ ipc.msggetBack k = true →
      ipc.connectRound k = .inl (k + 1) := by
    intro k _ hk
    unfold Ipc.connectRound
    rw [if_neg hk]
  have hexit : ∀ k, (∀ i < k, ¬ ipc.msggetBack i = true) → ¬ ¬ ipc.msggetBack k = true →
      ipc.connectRound k = .inr () := by
    intro k _ hk
    unfold Ipc.connectRound
    rw [if_pos (not_not.mp hk)]
  refine (returns_iff_of_trace (f := id) (g := fun _ => ()) hround hexit).trans ?_
  constructor
  · rintro ⟨k, _, hk, _⟩
    exact ⟨k, not_not.mp hk⟩
  · intro hsome
    -- the first try that succeeds
    refine ⟨Nat.find hsome, ?_, not_not_intro (Nat.find_spec hsome), rfl⟩
    intro i hi
    exact Nat.find_min hsome hi

/-- The polling loop, and what follows it. -/
theorem ends_connect {ipc : Ipc} {α : Type*} {P : Outcome α → Prop}
    (rest : Nat → Option (Outcome α))
    (hmono : ∀ {m n o}, rest m = some o → m ≤ n → rest n = some o) :
    Ends (fun fuel =>
        match loop ipc.connectRound fuel 0 with
        | none => none
        | some () => rest fuel) P ↔
      (∃ k, ipc.msggetBack k = true) ∧ Ends rest P := by
  rw [← connect_iff]
  constructor
  · rintro ⟨fuel, o, hrun, hP⟩
    dsimp only at hrun
    split at hrun
    · cases hrun
    · rename_i hconnect
      exact ⟨⟨fuel, hconnect⟩, fuel, o, hrun, hP⟩
  · rintro ⟨⟨m, hm⟩, n, o, hn, hP⟩
    refine ⟨max m n, o, ?_, hP⟩
    dsimp only
    rw [loop_mono hm (Nat.le_max_left m n)]
    exact hmono hn (Nat.le_max_right m n)

/-- How `handle_with_cache` ends, exit by exit. -/
theorem ends_cache {ipc : Ipc} {sendheader : Int} {name path : Bytes} {P : Outcome UInt8 → Prop} :
    Ends (handleWithCache ipc sendheader name path) P ↔
      if ¬ ipc.ftok then P ⟨[.fileNotFound], [], sendheader⟩
      else if ¬ ipc.msgget then P ⟨[.fileNotFound], [], sendheader⟩
      else path.length + 1 + name.length < Cache.bufSize ∧
        if ¬ ipc.msgsnd (Ipc.request name path) then P ⟨[.fileNotFound], [], sendheader⟩
        else if ¬ ipc.ftokBack then P ⟨[.fileNotFound], [], sendheader⟩
        else (∃ k, ipc.msggetBack k = true) ∧
          match (ipc.msgrcv (Ipc.request name path)).bind Cache.readResponse with
          | none => P ⟨[.fileNotFound], [], sendheader⟩
          | some fileLen => Ends (copyFile fileLen ipc.chunk) P := by
  unfold handleWithCache
  rw [strncat_twice]
  split
  · exact ends_some
  · split
    · exact ends_some
    · by_cases hfits : path.length + 1 + name.length < Cache.bufSize
      · have hlen : path.length + (ascii " ").length + name.length < Cache.bufSize := hfits
        rw [if_pos hlen, and_iff_right hfits]
        unfold Ipc.request
        dsimp only
        split
        · exact ends_some
        · split
          · exact ends_some
          · cases (ipc.msgrcv (path ++ ascii " " ++ name)).bind Cache.readResponse with
            | none =>
              refine (ends_connect (fun _ => some _) fun h _ => h).trans ?_
              rw [ends_some]
            | some fileLen => exact ends_connect (copyFile fileLen ipc.chunk) copyFile_mono
      · have hlen : ¬ path.length + (ascii " ").length + name.length < Cache.bufSize := hfits
        rw [if_neg hlen]
        exact ⟨fun hends => absurd hends ends_none, fun h => absurd h.1 hfits⟩

/-! ## `handle_with_curl` -/

/-- `BUFSIZE` of `handle_with_curl.c`. -/
def curlBufSize : Nat := 6200

/-- A content length as `curl_easy_getinfo` reports it: a double, negative if it is not known.
It comes from a 64-bit integer. -/
structure ContentLength where
  val : Int
  le : val ≤ 2 ^ 63
  double : ∀ n : Nat, val = n → toDouble n = n

/-- `WriteMemoryCallback`. -/
def writeMemoryCallback (mem data : Bytes) : Bytes := mem ++ data

/-- What libcurl and `gfs_send` do in a request. -/
structure Download where
  /-- `curl_easy_init` succeeds -/
  handle : Bool
  /-- what `bytes_transferred` holds before it is set -/
  junkTransferred : Nat
  /-- the data that `WriteMemoryCallback` is called with -/
  chunks : List Bytes
  /-- `curl_easy_perform` succeeds -/
  performed : Bool
  /-- what `cl` holds before it is set is above 0 -/
  junkPositive : Bool
  /-- the result of `curl_easy_getinfo`, if it succeeds -/
  contentLength : Option ContentLength
  /-- the results of `gfs_send` -/
  send : Nat → Int
  fits : chunks.flatten.length < 2 ^ 63
  send_ge : ∀ k, -1 ≤ send k
  send_le : ∀ k, send k ≤ chunks.flatten.length

/-- `output.buffer`. -/
def Download.output (d : Download) : Bytes := d.chunks.foldl writeMemoryCallback []

/-- A byte of the buffer that was sent, with its place. -/
abbrev Placed := UInt8 × Nat

/-- The variables of the send loop. -/
structure Sending where
  transferred : Nat
  /-- how often `gfs_send` was called -/
  sends : Nat
  sent : List Placed
deriving DecidableEq, Repr

/-- A round of `while(bytes_transferred < cl)`. Every `gfs_send` has the whole buffer. -/
def Download.sendRound (d : Download) (cl : Int) (s : Sending) : Sending ⊕ Sending :=
  if ¬ (toDouble s.transferred : Int) < cl then .inr s
  else
    let writeLen := d.send s.sends
    .inl ⟨(s.transferred + toSize writeLen) % 2 ^ 64, s.sends + 1,
      s.sent ++ d.output.zipIdx.take writeLen.toNat⟩

/-- `handle_with_curl`. -/
def handleWithCurl (curl : Bytes → Download) (sendheader : Int) (dataDir path : Bytes)
    (fuel : Nat) : Option (Outcome Placed) :=
  match strncat curlBufSize dataDir path with
  | none => none
  | some url =>
    let d := curl url
    if ¬ d.handle then some ⟨[], [], toInt64 d.junkTransferred⟩
    else if ¬ d.performed then
      -- the first round of the loop reports the failure, if there is one
      some ⟨[], [], if d.junkPositive then serverFailure else 0⟩
    else
      match d.contentLength with
      | none => some ⟨[], [], serverFailure⟩
      | some cl =>
        if cl.val < 0 then some ⟨[.fileNotFound], [], sendheader⟩
        else
          (loop (d.sendRound cl.val) fuel ⟨0, 0, []⟩).map fun s =>
            ⟨[.ok (toSize cl.val)], s.sent, toInt64 s.transferred⟩

/-- How `handle_with_curl` ends, exit by exit. -/
theorem ends_curl {curl : Bytes → Download} {sendheader : Int} {dataDir path : Bytes}
    {P : Outcome Placed → Prop} (hfits : dataDir.length + path.length < curlBufSize) {d : Download}
    (hd : curl (dataDir ++ path) = d) :
    Ends (handleWithCurl curl sendheader dataDir path) P ↔
      if ¬ d.handle then P ⟨[], [], toInt64 d.junkTransferred⟩
      else if ¬ d.performed then P ⟨[], [], if d.junkPositive then serverFailure else 0⟩
      else
        match d.contentLength with
        | none => P ⟨[], [], serverFailure⟩
        | some cl =>
          if cl.val < 0 then P ⟨[.fileNotFound], [], sendheader⟩
          else ∃ s, Returns (d.sendRound cl.val) ⟨0, 0, []⟩ s ∧
            P ⟨[.ok (toSize cl.val)], s.sent, toInt64 s.transferred⟩ := by
  unfold handleWithCurl strncat
  rw [if_pos hfits]
  simp only [hd]
  split
  · exact ends_some
  · split
    · exact ends_some
    · cases d.contentLength with
      | none => exact ends_some
      | some cl =>
        dsimp only
        split
        · exact ends_some
        · exact ends_loop

theorem not_ends_curl {curl : Bytes → Download} {sendheader : Int} {dataDir path : Bytes}
    {P : Outcome Placed → Prop} (hfits : ¬ dataDir.length + path.length < curlBufSize) :
    ¬ Ends (handleWithCurl curl sendheader dataDir path) P := by
  unfold handleWithCurl strncat
  rw [if_neg hfits]
  exact ends_none

end IntroOS.Proxy
