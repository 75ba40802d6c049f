import IntroOS.Getfile.Client
import IntroOS.Getfile.ServerVerdict

/-! # Requests, from `gfc_perform` to the handler

The string that the client library builds for a path, taken apart by the accept loop of the
server library out of a buffer with whatever earlier connections left in it.

* `requestString_splits`: the three `strtok` calls find the scheme, the method and the path;
* `request_reaches_handler`: the handler is called with the path.
-/

namespace IntroOS.Getfile

/-- The client's request is the documented one, without the optional space. -/
theorem requestString_eq (path : Bytes) :
    requestString path = ascii "GETFILE GET " ++ (path ++ (optSpace false ++ 13 :: [10, 13, 10])) := by
  have hterm : ascii "\r\n\r\n" = [13, 10, 13, 10] := by decide
  have hlit : ascii "GETFILE GET " =
      ascii "GETFILE" ++ (ascii " " ++ (ascii "GET" ++ ascii " ")) := by decide
  simp [requestString, optSpace, hterm, hlit]

/-- What the string functions see after a request: its first CR, and anything behind it. -/
theorem text_recvInto_requestString {path : Bytes} (hpath : IsPath path) (buffer : Bytes) :
    ∃ v, text (recvInto buffer (requestString path)) =
      ascii "GETFILE GET " ++ (path ++ (optSpace false ++ 13 :: v)) := by
  have hbuf : recvInto buffer (requestString path) =
      ascii "GETFILE GET " ++ (path ++ (optSpace false ++ 13 :: ([10, 13, 10] ++
        buffer.drop (requestString path).length))) := by
    unfold recvInto
    rw [requestString_eq]
    simp
  rw [hbuf, text_request hpath]
  exact ⟨_, rfl⟩

theorem requestString_splits {path : Bytes} (hpath : IsPath path) (buffer : Bytes) :
    ∃ tail, Splits (text (recvInto buffer (requestString path)))
      (ascii "GETFILE") (ascii "GET") path tail := by
  rcases text_recvInto_requestString hpath buffer with ⟨v, htext⟩
  have hlit : ascii "GETFILE GET " = ascii "GETFILE" ++ 32 :: (ascii "GET" ++ [32]) := by decide
  have hne : path ≠ [] := by
    intro hnil
    have hslash := hpath.slash
    rw [hnil] at hslash
    cases hslash
  have hclean : Clean isCrLf path := by
    have h := path_clean hpath false
    rwa [optSpace, if_neg Bool.false_ne_true, List.append_nil] at h
  rw [htext]
  -- the third token ends at the CR, so it is the path itself
  exact ⟨13 :: v, by decide, by decide, by decide, by decide, hne, hclean,
    Or.inr ⟨13, v, rfl, rfl⟩, [], [], [], Seps.nil _, Seps.nil _, Seps.nil _,
    by simp [hlit, optSpace]⟩

/-- **Requests.** The request of the client library for a path arrives whole, and there is a NUL
behind it in the buffer: the server library finds `GETFILE`, `GET` and the path in it, and calls
the handler with the path. -/
theorem request_reaches_handler (gfr : GfcRequest) (hpath : IsPath gfr.path) (buffer : Bytes)
    (hnul : 0 ∈ buffer.drop (requestString gfr.path).length) :
    splitHeader (text (recvInto buffer (requestString gfr.path))) =
      .three (ascii "GETFILE") (ascii "GET") gfr.path ∧
    (serveConn buffer (.request (requestString gfr.path))).1 = .served (.handler gfr.path) := by
  have hsplits := requestString_splits hpath buffer
  refine ⟨splitHeader_eq_three.mpr hsplits, serveConn_request_served.mpr ⟨?_, ?_⟩⟩
  · exact List.mem_append_right _ hnul
  · rcases hsplits with ⟨tail, hsplits⟩
    have hstrip : stripSpace gfr.path = gfr.path := if_neg hpath.no_space
    exact answer_handler_iff.mpr ⟨gfr.path, tail, hsplits, hstrip, hpath.slash⟩

/-- A path with a space in it, after a longer request for another one. -/
theorem request_reaches_handler_again :
    (serveConn (recvInto zeroBuffer (ascii "GETFILE GET /secret\r\n\r\n"))
      (.request (ascii "GETFILE GET /a b\r\n\r\n"))).1 = .served (.handler (ascii "/a b")) := by
  have hpath : IsPath (ascii "/a b") := ⟨by decide, forall_of_all (by decide), by decide⟩
  have hlen : (ascii "GETFILE GET /secret\r\n\r\n").length < srvBufSize := by decide
  refine (request_reaches_handler ⟨ascii "/a b", true, none, none, none⟩ hpath _ ?_).2
  -- the zeros behind the longer request
  rw [recvInto_zeroBuffer hlen, List.drop_append_of_le_length (by decide)]
  exact List.mem_append_right _ List.mem_cons_self

end IntroOS.Getfile
