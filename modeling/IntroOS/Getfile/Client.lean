import IntroOS.Getfile.Wire

/-! # `gfc_perform`

The client library's transfer function, from the point where `sockfd` is connected:
build and send the request, take the first `recv` result apart with `strtok`, pass the
content to `writefunc`, loop over further `recv` results.

The operating system's answers are arguments: the result of `send` and the list of
`recv` results (`none` is `-1`; past the end of the list the peer has closed and `recv`
returns 0). `none` as a result of the model is undefined behaviour: a call through an
unset `headerfunc`, a string function that leaves `recvbuf`, an array of nearly `2^64`
bytes. `printf("%s", NULL)` prints `(null)`, as glibc documents it.
-/

namespace IntroOS.Getfile

/-- `BUFSIZE` of `gfclient.c`. -/
def bufSize : Nat := 4096

/-- A byte handed to a callback; `none` is memory nothing was stored in. -/
abbrev Cell := Option UInt8

/-- `gfcrequest_t`, without the fields only the connection set-up reads. `gfc_create`
leaves the fields uninitialised: an unset header function, and `none` for the results. -/
structure GfcRequest where
  path : Bytes
  headerfunc : Bool
  status : Option GfStatus
  filelen : Option Nat
  bytesreceived : Option Nat
deriving DecidableEq, Repr

/-- What a call of `gfc_perform` leaves behind: the request, the chunks given to
`headerfunc` and to `writefunc` in order, and the return value. -/
structure Performed where
  gfr : GfcRequest
  headerCalls : List Bytes
  writeCalls : List (List Cell)
  ret : Int
deriving DecidableEq, Repr

/-- `sprintf(header, "%s %s %s%s", ..)`. -/
def requestString (path : Bytes) : Bytes :=
  ascii "GETFILE" ++ (ascii " " ++ (ascii "GET" ++ (ascii " " ++ (path ++ ascii "\r\n\r\n"))))

/-- `recvbuf` after `memset(recvbuf, 0, BUFSIZE)` and a `recv` that returned `r`. -/
def recvbuf (r : Bytes) : Bytes := r ++ List.replicate (bufSize - r.length) 0

/-- Where the code takes the content to begin. -/
def bodyOffset (scheme status length : Bytes) : Nat :=
  scheme.length + status.length + length.length + (ascii "\r\n\r\n").length + 2

/-- The `while` loop over `recv`, on a request whose `filelen` is `filelen`: `numbytes` is the
last `recv` result, `received` the `size_t` count so far. Returns the count, the further
chunks for `writefunc`, and whether a `recv` failed. -/
def recvLoop (filelen : Nat) : List (Option Bytes) → Nat → Nat → Nat × List (List Cell) × Bool
  | recvs, numbytes, received =>
    if 0 < numbytes ∧ received < filelen then
      match recvs with
      | [] => (received, [[]], false)
      | none :: _ => (received, [], true)
      | some r :: rest =>
        let (n, calls, failed) := recvLoop filelen rest r.length ((received + r.length) % 2 ^ 64)
        (n, r.map some :: calls, failed)
    else (received, [], false)

/-- The OK branch, with `r` the first `recv` result and `length` the third token. -/
def performOk (gfr : GfcRequest) (r : Bytes) (rest : List (Option Bytes))
    (scheme status length : Bytes) : Option (GfcRequest × List (List Cell) × Int) :=
  let off := bodyOffset scheme status length
  let filelen := strtoul length
  -- `numbytes - (..)` is a `size_t` subtraction
  let received := (r.length + 2 ^ 64 - off) % 2 ^ 64
  let gfr := { gfr with status := some .ok, filelen := some filelen, bytesreceived := some received }
  if filelen < bufSize then
    if received < filelen then some (gfr, [], -1)
    -- `char subbuf[bytesreceived]`, of which `memcpy` fills `filelen` bytes
    else if bufSize < received ∨ bufSize < off + filelen then none
    else
      let subbuf := (((recvbuf r).drop off).take filelen).map some ++
        List.replicate (received - filelen) none
      some (gfr, [subbuf], 0)
  else if bufSize < off + received then none
  else
    let first := (((recvbuf r).drop off).take received).map some
    let (n, calls, failed) := recvLoop filelen rest r.length received
    let gfr := { gfr with bytesreceived := some n }
    if failed then some ({ gfr with status := some .error }, first :: calls, -1)
    else if filelen ≠ n then some (gfr, first :: calls, -1)
    else some (gfr, first :: calls, 0)

/-- What the code does with the tokens of the first `recv` result `r`. -/
def performTokens (gfr : GfcRequest) (r : Bytes) (rest : List (Option Bytes)) :
    Tokens → Option (GfcRequest × List (List Cell) × Int)
  | .none | .one _ => some ({ gfr with status := some .invalid }, [], -1)
  | .two scheme status => classify scheme status none
  | .three scheme status length => classify scheme status (some length)
where
  classify (scheme status : Bytes) (length : Option Bytes) :=
    if status = ascii "INVALID\r\n\r\n" then
      some ({ gfr with status := some .invalid }, [], -1)
    else if status = ascii "FILE_NOT_FOUND\r\n\r\n" then
      some ({ gfr with status := some .fileNotFound }, [], 0)
    else if status = ascii "ERROR\r\n\r\n" then
      some ({ gfr with status := some .error }, [], 0)
    else match length with
      | none => some ({ gfr with status := some .invalid }, [], -1)
      | some length => performOk gfr r rest scheme status length

/-- From the first `recv` result on: `strcpy(not_buf, recvbuf)` needs a NUL in `recvbuf`. -/
def performResponse (gfr : GfcRequest) (r : Bytes) (rest : List (Option Bytes)) :
    Option (GfcRequest × List (List Cell) × Int) :=
  match cString (recvbuf r) with
  | none => none
  | some s => performTokens gfr r rest (splitHeader s)

/-- `gfc_perform` on a connected socket. `bytesSent` is the result of `send`. -/
def gfcPerform (gfr : GfcRequest) (bytesSent : Int) (recvs : List (Option Bytes)) :
    Option Performed :=
  let header := requestString gfr.path
  if gfr.headerfunc = false then none
  else if bytesSent ≠ header.length then some ⟨gfr, [header], [], -1⟩
  else match recvs with
    | none :: _ => some ⟨gfr, [header], [], -1⟩
    | [] => (performResponse gfr [] []).map fun (gfr, calls, ret) => ⟨gfr, [header], calls, ret⟩
    | some r :: rest =>
      (performResponse gfr r rest).map fun (gfr, calls, ret) => ⟨gfr, [header], calls, ret⟩

end IntroOS.Getfile
