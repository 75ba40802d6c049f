import IntroOS.Proxy.Announced
import IntroOS.Proxy.ChunkLoops

/-! # The three handlers against one service

`webproxy` may answer a request from its own disk (`handle_with_file`), from the cache
(`handle_with_cache`) or from a web server (`handle_with_curl`). What all of them are for is the
same: the file behind a path, or that there is none.

* `service`: what the library is to be told about a file;
* `copyFile_delivers`: the loop of the first two, on chunks of any sizes;
* `ends_fetches`: the download, which goes by the content length and not by the status;
* `handlers_agree`: the first two are the service, and the third one is it exactly where the web
  server announces a length for the files there are, and for nothing else.
-/

namespace IntroOS.Proxy

/-- The answer to a request for a file that is there, or not. `sendheader` is the result of
`gfs_sendheader`. -/
def service (sendheader : Int) : Option Bytes → Outcome UInt8
  | none => ⟨[.fileNotFound], [], sendheader⟩
  | some content => ⟨[.ok content.length], content, content.length⟩

/-- The handler ends, and gives the library this answer. -/
def Gives {α : Type*} (run : Nat → Option (Outcome α)) (byte : α → UInt8) (o : Outcome UInt8) :
    Prop :=
  Ends run fun o' => Outcome.mk o'.headers (o'.sent.map byte) o'.ret = o

/-! ## From chunks -/

/-- The chunks are the bytes of `content`, and each of them is sent whole. -/
def Delivers (content : Bytes) {size : Nat} (chunk : Nat → Chunk size) : Prop :=
  ∀ k, copied chunk k < content.length → (chunk k).Full ∧ gathered chunk (k + 1) <+: content

section Chunks

variable {content : Bytes} {size : Nat} {chunk : Nat → Chunk size}

/-- No round takes more than is left. -/
theorem Delivers.staysWithin (h : Delivers content chunk) : StaysWithin content.length chunk := by
  intro k _ hlt
  obtain ⟨hfull, hprefix⟩ := h k hlt
  have hle := hprefix.length_le
  rw [gathered_length] at hle
  rw [hfull.taken]
  exact hle

/-- There is a round before which everything was read. -/
theorem Delivers.last (h : Delivers content chunk) :
    ∃ k, (∀ i < k, GoesWithin content.length chunk i) ∧ copied chunk k = content.length ∧
      gathered chunk k = content := by
  rcases h.staysWithin.last with ⟨k, hbefore, hall | ⟨_, hlt, hnot⟩⟩
  · refine ⟨k, hbefore, hall, ?_⟩
    have hlen : (gathered chunk k).length = content.length := by rw [gathered_length, hall]
    cases k with
    | zero => exact (List.length_eq_zero_iff.mp hlen.symm).symm
    | succ k =>
      have hprefix := (h k (hbefore k (Nat.lt_succ_self k)).1.1).2
      exact hprefix.eq_of_length hlen
  · -- a round that is reached is not short
    exact absurd (h k hlt).1 hnot

/-- The loop sends the file, whatever the sizes of its chunks are. -/
theorem copyFile_delivers (hlen : content.length < 2 ^ 63) (h : Delivers content chunk)
    {P : Outcome UInt8 → Prop} :
    Ends (copyFile content.length chunk) P ↔
      P ⟨[.ok content.length], content, content.length⟩ := by
  rcases h.last with ⟨k, hbefore, hall, hgathered⟩
  have hret : toInt64 content.length = content.length := by
    unfold toInt64
    omega
  have hexit : copyRound content.length chunk (copyAt chunk k) =
      .inr (content, (content.length : Int)) := by
    unfold copyRound copyAt
    rw [hall, hgathered, if_pos (Nat.lt_irrefl _)]
    show Sum.inr (content, toInt64 content.length) = _
    rw [hret]
  have hreturns : ∀ r, Returns (copyRound content.length chunk) ⟨0, 0, []⟩ r ↔
      r = (content, (content.length : Int)) := fun r =>
    (returns_copyAt (by omega) hbefore).trans (Returns.exit_iff hexit)
  unfold copyFile
  rw [ends_loop]
  constructor
  · rintro ⟨r, hr, hP⟩
    rw [(hreturns r).mp hr] at hP
    exact hP
  · intro hP
    exact ⟨_, (hreturns _).mpr rfl, hP⟩

end Chunks

/-! ## From the disk and from the cache -/

/-- The result of `open` and of the calls after it, on a disk where the file is `file`. -/
def Opened.Shows (opened : Opened) : Option Bytes → Prop
  | none => opened = .enoent
  | some content => ∃ size chunk, opened = .file (some size) chunk ∧ size.val = content.length ∧
      Delivers content chunk

theorem ends_shows {openFile : Bytes → Opened} {dataDir path : Bytes} {file : Option Bytes}
    (hfits : dataDir.length + path.length < fileBufSize)
    (h : (openFile (dataDir ++ path)).Shows file) {sendheader : Int} {P : Outcome UInt8 → Prop} :
    Ends (handleWithFile openFile sendheader dataDir path) P ↔ P (service sendheader file) := by
  rw [ends_file hfits]
  cases file with
  | none =>
    rw [show openFile (dataDir ++ path) = .enoent from h]
    exact Iff.rfl
  | some content =>
    rcases h with ⟨size, chunk, hopened, hsize, hdelivers⟩
    rw [hopened]
    dsimp only
    rw [hsize]
    exact copyFile_delivers (hsize ▸ size.isLt) hdelivers

/-- What the cache answers about `file`. -/
def cacheAnswer : Option Bytes → Bytes
  | none => Cache.notFound
  | some content => Cache.lengthText content.length

/-- A cache that answers for `file`, and has it in the segment then. -/
structure Ipc.Shows (ipc : Ipc) (name path : Bytes) (file : Option Bytes) : Prop where
  connects : ipc.Connects name path
  answer : ipc.msgrcv (Ipc.request name path) = some (cacheAnswer file)
  segment : ∀ content, file = some content → Delivers content ipc.chunk

theorem ends_cached {ipc : Ipc} {name path : Bytes} {file : Option Bytes}
    (hsmall : ∀ content, file = some content → content.length < 2 ^ 31)
    (h : ipc.Shows name path file) {sendheader : Int} {P : Outcome UInt8 → Prop} :
    Ends (handleWithCache ipc sendheader name path) P ↔ P (service sendheader file) := by
  have hconnects := h.connects
  cases file with
  | none =>
    have hread : (ipc.msgrcv (Ipc.request name path)).bind Cache.readResponse = none := by
      rw [h.answer, Option.bind_some]
      decide
    rw [ends_cache, if_neg (not_not_intro hconnects.ftok),
      if_neg (not_not_intro hconnects.msgget), and_iff_right hconnects.fits,
      if_neg (not_not_intro hconnects.msgsnd), if_neg (not_not_intro hconnects.ftokBack),
      and_iff_right hconnects.msggetBack, hread]
    exact Iff.rfl
  | some content =>
    have hlt := hsmall content rfl
    have hread : (ipc.msgrcv (Ipc.request name path)).bind Cache.readResponse =
        some content.length := by
      rw [h.answer, Option.bind_some, cacheAnswer, Cache.readResponse_lengthText hlt]
    have hlt' : content.length < 2 ^ 63 := by omega
    rw [ends_connects hconnects hread]
    exact copyFile_delivers hlt' (h.segment content rfl)

/-! ## From a web server -/

/-- What a web server sends for a URL, with whatever status: a body, and its length before it or
not. -/
structure WebReply where
  body : Bytes
  announced : Bool

/-- A download of the reply, with a `gfs_send` that takes the whole body. -/
structure Download.Fetches (d : Download) (reply : WebReply) : Prop where
  handle : d.handle = true
  performed : d.performed = true
  body : d.body = reply.body
  contentLength : ∃ cl, d.contentLength = some cl ∧
    cl.val = if reply.announced then (reply.body.length : Int) else -1
  send : ∀ k, d.send k = reply.body.length

section Web

variable {d : Download} {reply : WebReply}

/-- The loop sends the body once, if there is anything to send. -/
theorem Download.Fetches.returns (h : d.Fetches reply) (hlen : reply.body.length < 2 ^ 63)
    (hdouble : toDouble reply.body.length = reply.body.length) {s : Sending} :
    Returns (d.sendRound reply.body.length) ⟨0, 0, []⟩ s ↔
      s = d.after (if reply.body = [] then 0 else 1) := by
  have hle : (reply.body.length : Int) ≤ 2 ^ 63 := by omega
  have hstart : d.Goes reply.body.length 0 ↔ reply.body ≠ [] := by
    have htotal : d.total 0 = 0 := rfl
    have hzero : toDouble 0 = 0 := by decide
    unfold Download.Goes
    rw [htotal, Int.toNat_zero, hzero, and_iff_right (le_refl 0), ← List.length_pos_iff]
    omega
  have hover : ¬ d.Goes reply.body.length 1 := by
    have htotal : d.total 1 = reply.body.length := by
      show (0 : Int) + d.send 0 = _
      rw [h.send, Int.zero_add]
    rintro ⟨_, hlt⟩
    rw [htotal, Int.toNat_natCast, hdouble] at hlt
    exact lt_irrefl _ hlt
  rw [returns_sendRound hle]
  constructor
  · rintro ⟨k, hgoes, hstop, rfl⟩
    match k with
    | 0 =>
      rw [if_pos (not_not.mp fun hne => hstop (hstart.mpr hne))]
    | 1 =>
      rw [if_neg (hstart.mp (hgoes 0 Nat.zero_lt_one))]
    | k + 2 => exact absurd (hgoes 1 (by omega)) hover
  · rintro rfl
    split
    · rename_i hempty
      exact ⟨0, fun i hi => absurd hi (Nat.not_lt_zero i), fun hgo => hstart.mp hgo hempty, rfl⟩
    · rename_i hne
      refine ⟨1, ?_, hover, rfl⟩
      intro i hi
      obtain rfl : i = 0 := by omega
      exact hstart.mpr hne

/-- What was sent then, and how much. -/
theorem Download.Fetches.after (h : d.Fetches reply) :
    (d.after (if reply.body = [] then 0 else 1)).sent = reply.body.zipIdx ∧
      (d.after (if reply.body = [] then 0 else 1)).transferred = toSize reply.body.length := by
  have houtput : d.output = reply.body := d.output_eq.trans h.body
  split
  · rename_i hempty
    rw [hempty]
    exact ⟨rfl, rfl⟩
  · refine ⟨?_, ?_⟩
    · show [] ++ d.output.zipIdx.take (d.send 0).toNat = _
      rw [h.send, houtput, Int.toNat_natCast, List.nil_append]
      exact List.take_of_length_le (Nat.le_of_eq List.length_zipIdx)
    · show toSize (0 + d.send 0) = _
      rw [h.send, Int.zero_add]

/-- A download is judged by whether its length was announced. -/
theorem ends_fetches {curl : Bytes → Download} {url path : Bytes}
    (hfits : url.length + path.length < curlBufSize) (h : (curl (url ++ path)).Fetches reply)
    (hlen : reply.body.length < 2 ^ 63) {sendheader : Int} {P : Outcome Placed → Prop} :
    Ends (handleWithCurl curl sendheader url path) P ↔
      P (if reply.announced then
          ⟨[.ok reply.body.length], reply.body.zipIdx, reply.body.length⟩
        else ⟨[.fileNotFound], [], sendheader⟩) := by
  rcases h.contentLength with ⟨cl, hcl, hval⟩
  rw [ends_curl hfits rfl, if_neg (not_not_intro h.handle), if_neg (not_not_intro h.performed), hcl]
  dsimp only
  by_cases hannounced : reply.announced = true
  · rw [if_pos hannounced] at hval
    have hneg : ¬ cl.val < 0 := by omega
    obtain ⟨hsent, htransferred⟩ := h.after
    have hret : toInt64 (toSize (reply.body.length : Int)) = reply.body.length := by
      rw [toInt64_toSize]
      unfold toInt64
      omega
    have hsize : toSize (reply.body.length : Int) = reply.body.length := by
      unfold toSize
      omega
    rw [if_neg hneg, if_pos hannounced, hval]
    simp only [h.returns hlen (cl.double _ hval), exists_eq_left]
    rw [hsent, htransferred, hret, hsize]
  · rw [if_neg hannounced] at hval
    have hneg : cl.val < 0 := by omega
    rw [if_pos hneg, if_neg hannounced]

end Web

/-! ## One service -/

/-- **One service.** For a file of any size below 2^31, or none, and chunks of any sizes: the
handlers for the disk and for the cache give the same answer. The handler for a web server that
sends this file gives it too exactly if the length is announced for a file and for nothing else:
an error page with a length goes out as a file, and a file without one as not there. -/
theorem handlers_agree (file : Option Bytes) (reply : WebReply) (sendheader : Int)
    (hsmall : ∀ content, file = some content → content.length < 2 ^ 31)
    (hlen : reply.body.length < 2 ^ 63)
    (hbody : ∀ content, file = some content → reply.body = content)
    (openFile : Bytes → Opened) (dataDir path : Bytes)
    (hdisk : dataDir.length + path.length < fileBufSize)
    (hopened : (openFile (dataDir ++ path)).Shows file)
    (ipc : Ipc) (name : Bytes) (hcached : ipc.Shows name path file)
    (curl : Bytes → Download) (url : Bytes) (hurl : url.length + path.length < curlBufSize)
    (hfetched : (curl (url ++ path)).Fetches reply) :
    Gives (handleWithFile openFile sendheader dataDir path) id (service sendheader file) ∧
      Gives (handleWithCache ipc sendheader name path) id (service sendheader file) ∧
      (Gives (handleWithCurl curl sendheader url path) Prod.fst (service sendheader file) ↔
        reply.announced = file.isSome) := by
  have hsent : (service sendheader file).sent.map id = (service sendheader file).sent := List.map_id _
  unfold Gives
  refine ⟨?_, ?_, ?_⟩
  · rw [ends_shows hdisk hopened, hsent]
  · rw [ends_cached hsmall hcached, hsent]
  · rw [ends_fetches hurl hfetched hlen]
    cases file with
    | none =>
      cases reply.announced with
      | false => exact ⟨fun _ => rfl, fun _ => rfl⟩
      | true => exact ⟨nofun, nofun⟩
    | some content =>
      cases reply.announced with
      | false => exact ⟨nofun, nofun⟩
      | true =>
        have hmap : reply.body.zipIdx.map Prod.fst = reply.body := List.zipIdx_map_fst 0 _
        rw [hbody content rfl] at hmap ⊢
        refine ⟨fun _ => rfl, fun _ => ?_⟩
        rw [if_pos rfl, hmap]
        rfl

/-- A web server that has an error page of one byte, with its length. -/
def errorPage (_ : Bytes) : Download where
  handle := true
  junkTransferred := 0
  chunks := [ascii "x"]
  performed := true
  junkPositive := false
  contentLength := some ⟨1, by decide, fun n hn => by
    obtain rfl : n = 1 := by omega
    decide⟩
  send _ := 1
  fits := by decide
  send_ge _ := by decide
  send_le _ := by decide

theorem fetches_errorPage (url : Bytes) : (errorPage url).Fetches ⟨ascii "x", true⟩ where
  handle := rfl
  performed := rfl
  body := rfl
  contentLength := ⟨_, rfl, rfl⟩
  send _ := rfl

/-- There is no such file, and the page goes out in its place. -/
theorem handlers_agree_page :
    (Gives (handleWithFile (fun _ => .enoent) 0 (ascii "d") (ascii "/f")) id (service 0 none) ∧
      Gives (handleWithCache (answerOnly Cache.notFound) 0 (ascii "temp") (ascii "/f")) id
        (service 0 none) ∧
      (Gives (handleWithCurl errorPage 0 (ascii "u") (ascii "/f")) Prod.fst (service 0 none) ↔
        true = false)) ∧
    handleWithCurl errorPage 0 (ascii "u") (ascii "/f") 2 = some ⟨[.ok 1], [(120, 0)], 1⟩ := by
  refine ⟨?_, by decide⟩
  exact handlers_agree none ⟨ascii "x", true⟩ 0 nofun (by decide) nofun (fun _ => .enoent)
    (ascii "d") (ascii "/f") (by decide) rfl (answerOnly Cache.notFound) (ascii "temp")
    ⟨connects_answerOnly _, rfl, nofun⟩ errorPage (ascii "u") (by decide) (fetches_errorPage _)

end IntroOS.Proxy
