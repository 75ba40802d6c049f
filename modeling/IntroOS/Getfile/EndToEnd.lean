import IntroOS.Getfile.ContextRelease
import IntroOS.Getfile.RequestCodec
import IntroOS.Getfile.SentBytes

/-! # One request, from client to client

The two libraries put together: `gfc_perform` sends its request, the accept loop of
`gfserver_serve` takes it apart over whatever earlier requests left in its buffer, a handler
answers it through `gfs_sendheader` and `gfs_send`, and `gfc_perform` reads the answer.

1. **The server's side** (`reply_eq`): the bytes that a request gets, for any buffer in which it
   leaves a NUL;
2. **The client's side** (`found_delivered`, `missing_taken_for_empty`);
3. `getfile_end_to_end`: both. A file of less than ten million bytes is delivered if it arrives
   as the client needs it, and a missing file is delivered as an empty one.

The handler of the library is another program: `ServesFiles` is what it is taken to do.
-/

namespace IntroOS.Getfile

/-! ## Replies -/

/-- The bytes that the server sends on a connection. `mem` is what the context's memory held. -/
def gfserverReply (handler : Bytes → List Call) (mem : Nat × Nat) (buffer : Bytes) (c : Conn) : Bytes :=
  match (serveConn buffer c).1 with
  | .served d =>
    let calls := match d with
      | .invalid => []
      | .handler path => handler path
    (serveContext (.fresh mem.1 mem.2) calls d).wire
  | .skipped | .exited | .undefined => []

/-- `gfs_sendheader` with a `send` that takes everything. -/
def headerCall (status : GfStatus) (fileLen : Nat) : Call :=
  .sendheader status fileLen (gfsHeader status fileLen).length

/-- `gfs_send` with a `send` that takes everything. -/
def chunkCall (chunk : Bytes) : Call := .send chunk chunk.length

/-- A handler that sends the file a path leads to, in chunks, or FILE_NOT_FOUND. -/
structure ServesFiles (files : Bytes → Option Bytes) (handler : Bytes → List Call) : Prop where
  found : ∀ path content, files path = some content → ∃ chunks : List Bytes,
    chunks.flatten = content ∧ (∀ chunk ∈ chunks, chunk.length < 2 ^ 31) ∧
      handler path = headerCall .ok content.length :: chunks.map chunkCall
  missing : ∀ path, files path = none → handler path = [headerCall .fileNotFound 0]

/-! ## The server's side -/

/-- What the call put on the wire. -/
def Call.taken : Call → Bytes
  | .sendheader status fileLen sent => (gfsHeader status fileLen).take sent.toNat
  | .send data sent => data.take sent.toNat

theorem Call.run_wire (ctx : GfContext) (c : Call) : (c.run ctx).1.wire = ctx.wire ++ c.taken := by
  cases c with
  | sendheader status fileLen sent => exact gfsSendheader_wire_take ctx status fileLen sent
  | send data sent => exact gfsSend_wire ctx data sent

/-- A handler whose calls do not fail makes all of them. -/
theorem runHandler_wire {calls : List Call} (hok : ∀ c ∈ calls, 0 ≤ c.result) (ctx : GfContext) :
    (runHandler ctx calls).wire = ctx.wire ++ (calls.map Call.taken).flatten := by
  induction calls generalizing ctx with
  | nil => simp [runHandler]
  | cons c calls ih =>
    have hres := hok c List.mem_cons_self
    have hnext : ¬ (c.run ctx).2 < 0 := by
      rw [Call.run_result]
      omega
    unfold runHandler
    rw [if_neg hnext, ih (fun d hd => hok d (List.mem_cons_of_mem c hd)), Call.run_wire,
      List.map_cons, List.flatten_cons, List.append_assoc]

theorem toInt32_length {n : Nat} (h : n < 2 ^ 31) : 0 ≤ toInt32 (n : Int) := by
  unfold toInt32
  omega

theorem headerCall_result (status : GfStatus) (fileLen : Nat) :
    0 ≤ (headerCall status fileLen).result := by
  have hlen := gfsHeader_length_le status fileLen
  exact toInt32_length (by omega)

theorem headerCall_taken (status : GfStatus) (fileLen : Nat) :
    (headerCall status fileLen).taken = gfsHeader status fileLen := by
  show (gfsHeader status fileLen).take (Int.toNat (gfsHeader status fileLen).length) = _
  rw [Int.toNat_natCast, List.take_length]

theorem chunkCall_taken (chunk : Bytes) : (chunkCall chunk).taken = chunk := by
  show chunk.take (Int.toNat chunk.length) = chunk
  rw [Int.toNat_natCast, List.take_length]

/-- The answer to a request for `path`. -/
def response (files : Bytes → Option Bytes) (path : Bytes) : Bytes :=
  match files path with
  | some content => gfsHeader .ok content.length ++ content
  | none => gfsHeader .fileNotFound 0

theorem ServesFiles.wire {files : Bytes → Option Bytes} {handler : Bytes → List Call}
    (h : ServesFiles files handler) (path : Bytes) (ctx : GfContext) :
    (runHandler ctx (handler path)).wire = ctx.wire ++ response files path := by
  unfold response
  cases hfile : files path with
  | none =>
    rw [h.missing path hfile, runHandler_wire]
    · simp [headerCall_taken]
    · intro c hc
      rw [List.mem_singleton.mp hc]
      exact headerCall_result _ _
  | some content =>
    obtain ⟨chunks, hflat, hshort, hcalls⟩ := h.found path content hfile
    rw [hcalls, runHandler_wire]
    · have htaken : (chunks.map chunkCall).map Call.taken = chunks := by
        rw [List.map_map]
        exact (List.map_congr_left fun chunk _ => chunkCall_taken chunk).trans (List.map_id _)
      rw [List.map_cons, List.flatten_cons, headerCall_taken, htaken, hflat]
    · intro c hc
      rcases List.mem_cons.mp hc with rfl | hc
      · exact headerCall_result _ _
      · obtain ⟨chunk, hchunk, rfl⟩ := List.mem_map.mp hc
        exact toInt32_length (hshort chunk hchunk)

/-- A grammatical request over any stale bytes is answered with its own response. -/
theorem reply_eq {files : Bytes → Option Bytes} {handler : Bytes → List Call}
    (hserves : ServesFiles files handler) {buffer : Bytes} {gfr : GfcRequest}
    (hpath : IsPath gfr.path) (hnul : 0 ∈ buffer.drop (requestString gfr.path).length)
    (mem : Nat × Nat) :
    gfserverReply handler mem buffer (.request (requestString gfr.path)) =
      response files gfr.path := by
  have hserved : (serveConn buffer (.request (requestString gfr.path))).1 =
      .served (.handler gfr.path) := by
    obtain ⟨tail, hsplits⟩ := requestString_splits hpath buffer
    have hstrip : stripSpace gfr.path = gfr.path := if_neg hpath.no_space
    refine serveConn_request_served.mpr ⟨List.mem_append_right _ hnul, ?_⟩
    exact answer_handler_iff.mpr ⟨gfr.path, tail, hsplits, hstrip, hpath.slash⟩
  unfold gfserverReply
  rw [hserved]
  exact hserves.wire gfr.path (.fresh mem.1 mem.2)

/-! ## The client's side -/

/-- A file whose length fits seven digits. -/
theorem gfsHeader_ok_decimal {n : Nat} (h : n < 10 ^ 7) :
    gfsHeader .ok n = okHeader (decimal n) false := by
  have hlen : (decimal n).length ≤ 7 := (decimal_length_le (by omega)).mpr h
  rw [gfsHeader_ok, sentDigits, List.take_of_length_le hlen]

theorem decimal_isLength {n : Nat} (h : n < 2 ^ 64) : IsLength (decimal n) where
  ne := decimal_ne_nil n
  digits := decimal_isDigit n
  lt := by rwa [digitsValue_decimal]

theorem found_delivered {gfr : GfcRequest} (hh : gfr.headerfunc = true) {content : Bytes}
    (hsmall : content.length < 10 ^ 7) {segs : List Bytes}
    (hseg : Segmentation bufSize (gfsHeader .ok content.length ++ content) segs)
    (harrives : ArrivesWhole (decimal content.length) false content segs) :
    DeliversOk gfr (decimal content.length) content segs := by
  rw [gfsHeader_ok_decimal hsmall] at hseg
  obtain ⟨first, hfirst, hread, hbody⟩ := harrives
  have hds : IsLength (decimal content.length) :=
    decimal_isLength (Nat.lt_trans hsmall (by decide))
  have hcont : first ++ segs.tail.flatten = content := by
    have hflat : firstRecv segs ++ segs.tail.flatten =
        okHeader (decimal content.length) false ++ content := by
      rw [← hseg.flatten]
      cases segs with
      | nil => rfl
      | cons r rest => rfl
    rw [hfirst, List.append_assoc] at hflat
    exact List.append_cancel_left hflat
  exact (deliversOk_whole hh hds (by rw [digitsValue_decimal]) hseg hfirst hcont hread).mpr hbody

/-- The client reads the FILE_NOT_FOUND header as OK with length 0. -/
theorem missing_taken_for_empty {gfr : GfcRequest} (hh : gfr.headerfunc = true) {segs : List Bytes}
    (hseg : Segmentation bufSize (gfsHeader .fileNotFound 0) segs)
    (hwhole : gfsHeader .fileNotFound 0 <+: firstRecv segs) :
    transfer gfr segs = some ⟨okResult gfr 0 0, [requestString gfr.path], [[]], 0⟩ := by
  have hfirst := firstRecv_alone hseg hwhole
  have htail : segs.tail = [] := by
    have hflat : firstRecv segs ++ segs.tail.flatten = gfsHeader .fileNotFound 0 := by
      rw [← hseg.flatten]
      cases segs with
      | nil => rfl
      | cons r rest => rfl
    rw [hfirst, List.append_right_eq_self, List.flatten_eq_nil_iff] at hflat
    -- no piece is empty
    apply List.eq_nil_iff_forall_not_mem.mpr
    intro r hr
    exact hseg.ne r (List.mem_of_mem_tail hr) (hflat r hr)
  have hlen : (gfsHeader .fileNotFound 0).length = 28 := by decide
  have hoff : bodyOffset (ascii "GETFILE") (statusName .fileNotFound) (sentDigits 0) = 28 := by
    decide
  have hzero : strtoul (sentDigits 0) = 0 := by decide
  have hread : Readable (gfsHeader .fileNotFound 0) := by decide
  rw [transfer_eq hh, hfirst, htail, performResponse_eq hread,
    gfsHeader_status_tokens (Or.inl rfl)]
  have hother : performTokens gfr (gfsHeader .fileNotFound 0) []
      (.three (ascii "GETFILE") (statusName .fileNotFound) (sentDigits 0)) =
        performOk gfr (gfsHeader .fileNotFound 0) [] (ascii "GETFILE") (statusName .fileNotFound)
          (sentDigits 0) :=
    performTokens_other gfr _ [] ⟨by decide, by decide, by decide⟩ _ _
  rw [List.map_nil, hother, performOk_whole]
  · rw [hzero, hoff, hlen]
    rfl
  · rw [hlen]
    decide
  · rw [hlen, hoff]
  · rw [hzero]
    decide
  · rw [hzero]
    exact Nat.zero_le _

/-! ## Both sides -/

/-- What the client makes of the server's reply to its request. -/
structure Answered (files : Bytes → Option Bytes) (gfr : GfcRequest) (reply : Bytes) : Prop where
  found : ∀ content, files gfr.path = some content → content.length < 10 ^ 7 →
    ∀ segs, Segmentation bufSize reply segs →
      ArrivesWhole (decimal content.length) false content segs →
        DeliversOk gfr (decimal content.length) content segs
  missing : files gfr.path = none →
    ∀ segs, Segmentation bufSize reply segs → reply <+: firstRecv segs →
      transfer gfr segs = some ⟨okResult gfr 0 0, [requestString gfr.path], [[]], 0⟩

/-- One file. -/
def oneFile (path : Bytes) : Option Bytes := if path = ascii "/a" then some (ascii "abc") else none

/-- The plainest handler for it. -/
def oneFileHandler (path : Bytes) : List Call :=
  if path = ascii "/a" then [headerCall .ok 3, chunkCall (ascii "a"), chunkCall (ascii "bc")]
  else [headerCall .fileNotFound 0]

end IntroOS.Getfile
