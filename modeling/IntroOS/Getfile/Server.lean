import IntroOS.Getfile.Wire

/-! # `gfserver.c`

The server library: `gfs_abort`, `gfs_send` and `gfs_sendheader` on a context, and the
accept loop of `gfserver_serve` from a listening socket on.

`buffer` is declared outside the accept loop, is never cleared and is not terminated at
`numBytes_read`, so it is the state that one connection hands to the next. Its first
content is indeterminate. The operating system's answers (`accept`, `recv`, `send`) are
arguments. `undefined` is undefined behaviour: a string function that leaves the buffer,
or `strlen(NULL)`.
-/

namespace IntroOS.Getfile

/-- `BUFSIZE` of `gfserver.c`. -/
def srvBufSize : Nat := 16384

/-! ## Contexts -/

/-- `gfcontext_t` with what has happened to it: the bytes its socket accepted, how often it
was closed and freed, and whether it was used after that. -/
structure GfContext where
  filelen : Nat
  bytessent : Nat
  wire : Bytes
  aborts : Nat
  usedAfterFree : Bool
deriving DecidableEq, Repr

/-- A read or write of a field. -/
def GfContext.touch (ctx : GfContext) : GfContext :=
  { ctx with usedAfterFree := ctx.usedAfterFree || decide (0 < ctx.aborts) }

/-- `gfs_abort`: close the socket, free the context. -/
def gfsAbort (ctx : GfContext) : GfContext :=
  { ctx.touch with aborts := ctx.aborts + 1 }

/-- `gfs_send`. `sent` is the result of `send`, stored in an `int`. -/
def gfsSend (ctx : GfContext) (data : Bytes) (sent : Int) : GfContext × Int :=
  let bytesSent := toInt32 sent
  let ctx : GfContext := { ctx.touch with wire := ctx.wire ++ data.take sent.toNat }
  let ctx : GfContext := if bytesSent = -1 then gfsAbort ctx else ctx
  let ctx : GfContext :=
    { ctx.touch with bytessent := (ctx.bytessent + toSize bytesSent) % 2 ^ 64 }
  let ctx : GfContext := if ctx.filelen ≤ ctx.bytessent ∧ bytesSent ≤ 0 then gfsAbort ctx else ctx
  (ctx, bytesSent)

/-- The header text. `file_length` has room for `sizeof(size_t)` bytes, so `snprintf` keeps
seven digits; the INVALID header has no length and no terminator. -/
def gfsHeader (status : GfStatus) (fileLen : Nat) : Bytes :=
  if status = .invalid then ascii "GETFILE" ++ (ascii " " ++ statusName status)
  else ascii "GETFILE" ++ (ascii " " ++ (statusName status ++ (ascii " " ++
    ((decimal fileLen).take 7 ++ ascii "\r\n\r\n"))))

/-- `gfs_sendheader`. -/
def gfsSendheader (ctx : GfContext) (status : GfStatus) (fileLen : Nat) (sent : Int) :
    GfContext × Int :=
  let ctx : GfContext := { ctx.touch with filelen := fileLen, bytessent := 0 }
  let (ctx, retval) := gfsSend ctx (gfsHeader status fileLen) sent
  (if retval = -1 then gfsAbort ctx else ctx, retval)

/-! ## The accept loop -/

/-- What the operating system delivers for one turn of the accept loop. -/
inductive Conn where
  | acceptError
  | recvError
  | request (r : Bytes)
deriving DecidableEq, Repr

/-- A `recv` into `buffer` returns at most its size. -/
def Conn.Fits : Conn → Prop
  | .request r => r.length ≤ srvBufSize
  | _ => True

/-- What the server does with a request it has taken apart. -/
inductive Decision where
  | invalid
  | handler (path : Bytes)
deriving DecidableEq, Repr

/-- The bytes the loop itself sends: `strlen(message)+1` bytes of the INVALID message. -/
def Decision.sent : Decision → Bytes
  | .invalid => ascii "GETFILE INVALID\r\n\r\n" ++ [0]
  | .handler _ => []

/-- How a turn of the loop ends. -/
inductive Outcome where
  /-- `accept` failed; the loop goes on. -/
  | skipped
  /-- The connection got its answer; the loop goes on. -/
  | served (d : Decision)
  /-- `exit(1)`. -/
  | exited
  | undefined
deriving DecidableEq, Repr

/-- `if(request_path[strlen(request_path)-1]==' ')`: drop one trailing space. -/
def stripSpace (path : Bytes) : Bytes :=
  if path.getLast? = some 32 then path.dropLast else path

/-- The decision on the C string `s` in the buffer. -/
def answer (s : Bytes) : Outcome :=
  match splitHeader s with
  | .three scheme method path =>
    if scheme ≠ ascii "GETFILE" then .served .invalid
    else if method ≠ ascii "GET" then .served .invalid
    else if (stripSpace path).head? ≠ some 47 then .served .invalid
    else .served (.handler (stripSpace path))
  -- `request_path` is NULL
  | _ => .undefined

/-- `buffer` after a `recv` that returned `r`. -/
def recvInto (buffer r : Bytes) : Bytes := r ++ buffer.drop r.length

/-- One turn of the accept loop, with the buffer it leaves. -/
def serveConn (buffer : Bytes) : Conn → Outcome × Bytes
  | .acceptError => (.skipped, buffer)
  | .recvError => (.exited, buffer)
  | .request r =>
    let buffer := recvInto buffer r
    if buffer.head? = some 0 then (.exited, buffer)
    else match cString buffer with
      | none => (.undefined, buffer)
      | some s => (answer s, buffer)

/-- The turn ended and the loop goes on. -/
def Outcome.goesOn : Outcome → Bool
  | .skipped | .served _ => true
  | .exited | .undefined => false

/-- `gfserver_serve` on a sequence of connections: the buffer after them, if the loop still
runs. -/
def gfserverServe : Bytes → List Conn → Option Bytes
  | buffer, [] => some buffer
  | buffer, c :: conns =>
    if (serveConn buffer c).1.goesOn then gfserverServe (serveConn buffer c).2 conns else none

/-! ## The buffer -/

/-- A request with a NUL in it hides what earlier connections left. -/
theorem text_recvInto_of_mem {r : Bytes} (h : 0 ∈ r) (buffer : Bytes) :
    text (recvInto buffer r) = text r := text_append_of_mem h _

/-- A request without a NUL is continued by what earlier connections left. -/
theorem text_recvInto {r : Bytes} (h : 0 ∉ r) (buffer : Bytes) :
    text (recvInto buffer r) = r ++ text (buffer.drop r.length) := text_append h _

/-- Whatever the decision, the received bytes stay in the buffer. -/
theorem serveConn_buffer (buffer r : Bytes) :
    (serveConn buffer (.request r)).2 = recvInto buffer r := by
  simp only [serveConn]
  by_cases h0 : (recvInto buffer r).head? = some 0
  · simp only [h0, if_true]
  · simp only [h0, if_false]
    cases cString (recvInto buffer r) with
    | none => rfl
    | some s => rfl

theorem serveConn_request_of_mem {buffer r : Bytes} (h : 0 ∈ r) (h0 : r.head? ≠ some 0) :
    serveConn buffer (.request r) = (answer (text r), recvInto buffer r) := by
  have hhead : (recvInto buffer r).head? ≠ some 0 := by
    cases r with
    | nil => cases h
    | cons b r => simpa [recvInto] using h0
  have hm : 0 ∈ recvInto buffer r := List.mem_append_left _ h
  have hc : cString (recvInto buffer r) = some (text r) := by
    rw [cString_of_mem hm, text_recvInto_of_mem h]
  simp only [serveConn, hhead, if_false, hc]

theorem serveConn_request_nul {buffer r : Bytes} (h0 : r.head? = some 0) :
    serveConn buffer (.request r) = (.exited, recvInto buffer r) := by
  have hhead : (recvInto buffer r).head? = some 0 := by
    cases r with
    | nil => cases h0
    | cons b r => simpa [recvInto] using h0
  simp only [serveConn, hhead, if_true]

/-- Without a NUL anywhere in the buffer, `strcpy` leaves it. -/
theorem serveConn_unterminated {buffer r : Bytes} (h : 0 ∉ recvInto buffer r) :
    serveConn buffer (.request r) = (.undefined, recvInto buffer r) := by
  have hhead : (recvInto buffer r).head? ≠ some 0 := fun h0 => h (List.mem_of_mem_head? h0)
  simp only [serveConn, hhead, if_false, cString_eq_none.mpr h]

/-- The loop answers whenever the string in the buffer has three tokens, and only then. -/
theorem answer_eq {s a m c tail : Bytes} (h : Splits s a m c tail) :
    answer s = .served (if a = ascii "GETFILE" ∧ m = ascii "GET" ∧ (stripSpace c).head? = some 47
      then .handler (stripSpace c) else .invalid) := by
  unfold answer
  rw [splitHeader_eq_three.mpr ⟨tail, h⟩]
  by_cases h1 : a = ascii "GETFILE" <;> by_cases h2 : m = ascii "GET" <;>
    by_cases h3 : (stripSpace c).head? = some 47 <;> simp [h1, h2, h3]

theorem answer_undefined {s : Bytes} (h : ¬ ∃ a m c tail, Splits s a m c tail) :
    answer s = .undefined := by
  unfold answer
  split
  · rename_i a m c heq
    obtain ⟨tail, hs⟩ := splitHeader_eq_three.mp heq
    exact absurd ⟨a, m, c, tail, hs⟩ h
  · rfl

end IntroOS.Getfile
