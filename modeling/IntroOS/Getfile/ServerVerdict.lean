import IntroOS.Getfile.Server

/-! # What `gfserver_serve` makes of the bytes it receives

Three questions about the accept loop, each answered by the exact condition on what is
received:

1. **Isolation** (`gfserverServe_independent_iff`): for which requests is the decision a
   function of the bytes of this connection alone?
2. **Survival** (`gfserverServe_survives_iff`): over which sequences of connections does the
   loop answer every one of them and come back to `accept`?
3. **Grammar** (`gfserverServe_parses_iff`): for which streams and segmentations is the
   decision the documented one?

All three go through the string that `strcpy` finds in the buffer and its three tokens.
-/

namespace IntroOS.Getfile

/-! ## Turns of the loop -/

/-- The text splits into three tokens. -/
def HasTokens (s : Bytes) : Prop := ∃ a m c tail, Splits s a m c tail

/-- The tokens of `s` are those of a request that the code gives to the handler, for `p`. -/
def ReadAs (s p : Bytes) : Prop :=
  ∃ c tail, Splits s (ascii "GETFILE") (ascii "GET") c tail ∧ stripSpace c = p ∧ p.head? = some 47

/-- The text has three tokens, and one of the three checks fails on them. -/
def Refused (s : Bytes) : Prop :=
  ∃ a m c tail, Splits s a m c tail ∧
    (a ≠ ascii "GETFILE" ∨ m ≠ ascii "GET" ∨ (stripSpace c).head? ≠ some 47)

/-- The tokens of a text are determined. -/
theorem splits_unique {s a m c tail a' m' c' tail' : Bytes} (h : Splits s a m c tail)
    (h' : Splits s a' m' c' tail') : a = a' ∧ m = m' ∧ c = c' := by
  have heq := (splitHeader_eq_three.mpr ⟨tail, h⟩).symm.trans
    (splitHeader_eq_three.mpr ⟨tail', h'⟩)
  rwa [Tokens.three.injEq] at heq

theorem answer_handler_iff {s p : Bytes} : answer s = .served (.handler p) ↔ ReadAs s p := by
  by_cases ht : HasTokens s
  · obtain ⟨a, m, c, tail, hs⟩ := ht
    rw [answer_eq hs]
    constructor
    · intro h
      split at h
      · rename_i hcond
        obtain ⟨rfl, rfl, hslash⟩ := hcond
        have hp : stripSpace c = p := by simpa using h
        exact ⟨c, tail, hs, hp, hp ▸ hslash⟩
      · simp at h
    · rintro ⟨c', tail', hs', hp, hslash⟩
      obtain ⟨rfl, rfl, rfl⟩ := splits_unique hs hs'
      rw [hp]
      simp [hslash]
  · rw [answer_undefined ht]
    constructor
    · intro h
      cases h
    · rintro ⟨c, tail, hs, _⟩
      exact absurd ⟨_, _, c, tail, hs⟩ ht

theorem answer_invalid_iff {s : Bytes} : answer s = .served .invalid ↔ Refused s := by
  by_cases ht : HasTokens s
  · obtain ⟨a, m, c, tail, hs⟩ := ht
    rw [answer_eq hs]
    constructor
    · intro h
      refine ⟨a, m, c, tail, hs, ?_⟩
      by_contra hno
      rw [not_or, not_or, not_not, not_not, not_not] at hno
      rw [if_pos hno] at h
      simp at h
    · rintro ⟨a', m', c', tail', hs', hbad⟩
      obtain ⟨rfl, rfl, rfl⟩ := splits_unique hs hs'
      rw [if_neg]
      rintro ⟨h1, h2, h3⟩
      rcases hbad with h | h | h
      · exact h h1
      · exact h h2
      · exact h h3
  · rw [answer_undefined ht]
    constructor
    · intro h
      cases h
    · rintro ⟨a, m, c, tail, hs, _⟩
      exact absurd ⟨a, m, c, tail, hs⟩ ht

/-- A request is answered iff there is a string in the buffer and it has three tokens. -/
theorem answer_served_iff {s : Bytes} : (∃ d, answer s = .served d) ↔ HasTokens s := by
  constructor
  · rintro ⟨d, h⟩
    by_contra ht
    rw [answer_undefined ht] at h
    cases h
  · rintro ⟨a, m, c, tail, hs⟩
    exact ⟨_, answer_eq hs⟩

/-- The string that the string functions find in the buffer. -/
theorem serveConn_of_text {buffer r s rest : Bytes} (h : recvInto buffer r = s ++ 0 :: rest)
    (hs : 0 ∉ s) (hne : s ≠ []) : (serveConn buffer (.request r)).1 = answer s := by
  have hhead : (recvInto buffer r).head? ≠ some 0 := by
    obtain ⟨b, t, rfl⟩ := List.exists_cons_of_ne_nil hne
    rw [h]
    intro h0
    have : b = 0 := by simpa using h0
    exact hs (this ▸ List.mem_cons_self)
  have hc : cString (recvInto buffer r) = some s := by
    rw [h, cString_nul hs]
  simp only [serveConn, hhead, if_false, hc]

/-- A turn ends with an answer iff the string in the buffer has three tokens. -/
theorem serveConn_request_served {buffer r : Bytes} {d : Decision} :
    (serveConn buffer (.request r)).1 = .served d ↔
      0 ∈ recvInto buffer r ∧ answer (text (recvInto buffer r)) = .served d := by
  by_cases hm : 0 ∈ recvInto buffer r
  · obtain ⟨rest, hrest⟩ := text_split hm
    by_cases hnil : text (recvInto buffer r) = []
    · -- the string is empty: `exit(1)`
      have hhead : (recvInto buffer r).head? = some 0 := by
        rw [hrest, hnil]
        rfl
      have hans : answer (text (recvInto buffer r)) = .undefined := by
        rw [hnil]
        rfl
      simp [serveConn, hhead, hans]
    · rw [serveConn_of_text hrest (text_nul_free _) hnil]
      simp [hm]
  · rw [serveConn_unterminated hm]
    simp [hm]

/-! ## Isolation -/

/-- The decision on `r` is the same after any two histories, whatever the buffer held when the
server started, and it is a defined one. -/
def Independent (r : Bytes) : Prop :=
  ∀ start₁ start₂ : Bytes, start₁.length = srvBufSize → start₂.length = srvBufSize →
    ∀ conns₁ conns₂ : List Conn, (∀ c ∈ conns₁, c.Fits) → (∀ c ∈ conns₂, c.Fits) →
      ∀ buf₁ buf₂, gfserverServe start₁ conns₁ = some buf₁ →
        gfserverServe start₂ conns₂ = some buf₂ →
        (serveConn buf₁ (.request r)).1 = (serveConn buf₂ (.request r)).1 ∧
        (serveConn buf₁ (.request r)).1 ≠ .undefined

/-- A buffer without a NUL. -/
def fullBuffer : Bytes := List.replicate srvBufSize 65

theorem fullBuffer_length : fullBuffer.length = srvBufSize := List.length_replicate

theorem fullBuffer_nul_free : 0 ∉ fullBuffer := by
  intro h
  have := List.eq_of_mem_replicate h
  exact absurd this (by decide)

/-- **Isolation.** The decision on a request depends on this request alone exactly when it
brings its own NUL, and either begins with it (the server exits) or has three tokens before
it. -/
theorem gfserverServe_independent_iff (r : Bytes) :
    Independent r ↔ 0 ∈ r ∧ (r.head? = some 0 ∨ HasTokens (text r)) := by
  constructor
  · intro h
    -- already the first connection of a server tells
    have hfirst := (h fullBuffer fullBuffer fullBuffer_length fullBuffer_length [] []
      (by simp) (by simp) fullBuffer fullBuffer rfl rfl).2
    by_cases hm : 0 ∈ r
    · refine ⟨hm, ?_⟩
      by_cases h0 : r.head? = some 0
      · exact Or.inl h0
      · right
        rw [serveConn_request_of_mem hm h0] at hfirst
        by_contra ht
        exact hfirst (answer_undefined ht)
    · exfalso
      have hfree : 0 ∉ recvInto fullBuffer r := by
        unfold recvInto
        intro hin
        rcases List.mem_append.mp hin with hin | hin
        · exact hm hin
        · exact fullBuffer_nul_free (List.mem_of_mem_drop hin)
      rw [serveConn_unterminated hfree] at hfirst
      exact hfirst rfl
  · rintro ⟨hm, hcase⟩ start₁ start₂ _ _ conns₁ conns₂ _ _ buf₁ buf₂ _ _
    by_cases h0 : r.head? = some 0
    · rw [serveConn_request_nul h0, serveConn_request_nul h0]
      exact ⟨rfl, by simp⟩
    · have ht : HasTokens (text r) := hcase.resolve_left h0
      rw [serveConn_request_of_mem hm h0, serveConn_request_of_mem hm h0]
      obtain ⟨d, hd⟩ := answer_served_iff.mpr ht
      refine ⟨rfl, ?_⟩
      show answer (text r) ≠ .undefined
      rw [hd]
      simp

/-- A request that ends in a NUL is decided on its own. -/
theorem gfserverServe_independent_terminated :
    Independent (ascii "GETFILE GET /a\r\n\r\n" ++ [0]) := by
  apply (gfserverServe_independent_iff _).mpr
  refine ⟨by decide, Or.inr ⟨ascii "GETFILE", ascii "GET", ascii "/a", terminator, ?_⟩⟩
  exact ⟨by decide, by decide, by decide, by decide, by decide, by decide,
    Or.inr ⟨13, ascii "\n\r\n", rfl, rfl⟩, [], [], [], Seps.nil _, Seps.nil _, Seps.nil _, rfl⟩

/-- A buffer of zeros. -/
def zeroBuffer : Bytes := List.replicate srvBufSize 0

theorem recvInto_zeroBuffer {r : Bytes} (h : r.length < srvBufSize) :
    recvInto zeroBuffer r = r ++ 0 :: List.replicate (srvBufSize - r.length - 1) 0 := by
  unfold recvInto zeroBuffer
  rw [List.drop_replicate, ← List.replicate_succ,
    show srvBufSize - r.length - 1 + 1 = srvBufSize - r.length by omega]

/-- A first request is found in a buffer of zeros as it was sent. -/
theorem serveConn_zeroBuffer {r : Bytes} (h : r.length < srvBufSize) (h0 : 0 ∉ r) (hne : r ≠ []) :
    (serveConn zeroBuffer (.request r)).1 = answer r :=
  serveConn_of_text (recvInto_zeroBuffer h) h0 hne

/-- The server is asked for `/a`, without a terminator: on its own, and after a request for
`/secret`. -/
theorem gfserverServe_leaks_previous_path : ¬ Independent (ascii "GETFILE GET /a") := by
  intro h
  have hshort : (ascii "GETFILE GET /secret\r\n\r\n").length < srvBufSize := by decide
  -- the history of one connection
  have hhist : gfserverServe zeroBuffer [.request (ascii "GETFILE GET /secret\r\n\r\n")] =
      some (recvInto zeroBuffer (ascii "GETFILE GET /secret\r\n\r\n")) := by
    have hgo : (answer (ascii "GETFILE GET /secret\r\n\r\n")).goesOn = true := by decide
    unfold gfserverServe
    rw [serveConn_zeroBuffer hshort (by decide) (by decide), if_pos hgo, serveConn_buffer]
    rfl
  have hfits : ∀ c ∈ [Conn.request (ascii "GETFILE GET /secret\r\n\r\n")], c.Fits := by
    intro c hc
    rw [List.mem_singleton.mp hc]
    exact Nat.le_of_lt hshort
  have hlen : zeroBuffer.length = srvBufSize := List.length_replicate
  have heq := (h zeroBuffer zeroBuffer hlen hlen [] _ (by simp) hfits _ _ rfl hhist).1
  rw [serveConn_zeroBuffer (by decide) (by decide) (by decide)] at heq
  -- what the second run finds in its buffer
  have hleft : recvInto (recvInto zeroBuffer (ascii "GETFILE GET /secret\r\n\r\n"))
      (ascii "GETFILE GET /a") =
      ascii "GETFILE GET /aecret\r\n\r\n" ++ 0 :: List.replicate (srvBufSize - 23 - 1) 0 := by
    rw [recvInto_zeroBuffer hshort]
    rfl
  rw [serveConn_of_text hleft (by decide) (by decide)] at heq
  exact absurd heq (by decide)

/-! ## Survival -/

/-- What may be expected of one turn of the loop, on a buffer `buffer`: no string function
reads past the received bytes, the request gets an answer and the loop goes on, a malformed
request gets INVALID, and the handler is called only where scheme, method and path are there. -/
def ServedSafely (buffer : Bytes) (c : Conn) : Prop :=
  (serveConn buffer c).1.goesOn = true ∧
  ∀ r, c = .request r →
    (text (recvInto buffer r)).length < r.length ∧
    ∃ d, (serveConn buffer c).1 = .served d ∧
      ((¬ ∃ p, IsRequest r p) → d = .invalid) ∧
      ∀ p, d = .handler p → HasTokens (text r)

/-- Every turn of the loop is served safely. -/
def ServesAll : Bytes → List Conn → Prop
  | _, [] => True
  | buffer, c :: conns => ServedSafely buffer c ∧ ServesAll (serveConn buffer c).2 conns

/-- The connections the loop takes safely: it may fail in `accept`; a request brings its own
NUL and three tokens before it, and is not taken for a grammatical one when it is none. A
connection without bytes is not among them. -/
def Answerable : Conn → Prop
  | .acceptError => True
  | .recvError => False
  | .request r => 0 ∈ r ∧ HasTokens (text r) ∧ ((∃ p, ReadAs (text r) p) → ∃ p, IsRequest r p)

/-- The string that the code reads ends inside the received bytes, so they hold its NUL. -/
theorem answerable_of_servedSafely {buffer r : Bytes} (h : ServedSafely buffer (.request r)) :
    Answerable (.request r) := by
  obtain ⟨hread, d, hd, hinv, _⟩ := h.2 r rfl
  have hm : 0 ∈ r := by
    by_contra hm
    rw [text_recvInto hm, List.length_append] at hread
    omega
  obtain ⟨_, hans⟩ := serveConn_request_served.mp hd
  rw [text_recvInto_of_mem hm] at hans
  refine ⟨hm, answer_served_iff.mp ⟨d, hans⟩, ?_⟩
  rintro ⟨p, hp⟩
  by_contra hno
  rw [hinv hno] at hans
  rw [answer_handler_iff.mpr hp] at hans
  simp at hans

theorem servedSafely_of_answerable (buffer : Bytes) {r : Bytes} (h : Answerable (.request r)) :
    ServedSafely buffer (.request r) := by
  rcases h with ⟨hm, ht, hgram⟩
  obtain ⟨d, hans⟩ := answer_served_iff.mpr ht
  have hd : (serveConn buffer (.request r)).1 = .served d := by
    apply serveConn_request_served.mpr
    rw [text_recvInto_of_mem hm]
    exact ⟨List.mem_append_left _ hm, hans⟩
  refine ⟨by rw [hd]; rfl, ?_⟩
  intro r' hr'
  cases hr'
  refine ⟨?_, d, hd, ?_, fun _ _ => ht⟩
  · obtain ⟨rest, hrest⟩ := text_split hm
    have hlen := congrArg List.length hrest
    rw [List.length_append, List.length_cons] at hlen
    rw [text_recvInto_of_mem hm]
    omega
  · intro hno
    cases d with
    | invalid => rfl
    | handler p => exact absurd (hgram ⟨p, answer_handler_iff.mp hans⟩) hno

theorem servedSafely_iff (buffer : Bytes) (c : Conn) : ServedSafely buffer c ↔ Answerable c := by
  cases c with
  | acceptError =>
    exact ⟨fun _ => trivial, fun _ => ⟨rfl, fun r hr => by cases hr⟩⟩
  | recvError =>
    constructor
    · intro h
      exact absurd h.1 (by simp [serveConn, Outcome.goesOn])
    · intro h
      exact h.elim
  | request r =>
    constructor
    · exact answerable_of_servedSafely
    · exact servedSafely_of_answerable buffer

/-- **Survival.** A sequence of connections is served safely to its end exactly when each of
them is one that the loop takes. -/
theorem gfserverServe_survives_iff (buffer : Bytes) (conns : List Conn) :
    ServesAll buffer conns ↔ ∀ c ∈ conns, Answerable c := by
  induction conns generalizing buffer with
  | nil =>
    constructor
    · intro _ c hc
      cases hc
    · intro _
      trivial
  | cons c conns ih =>
    show ServedSafely buffer c ∧ ServesAll (serveConn buffer c).2 conns ↔ _
    rw [servedSafely_iff buffer c, ih, List.forall_mem_cons]

/-- Two letters without a space stop the server: the path is NULL. -/
theorem gfserverServe_stopped_by_short_request :
    ¬ ServesAll zeroBuffer [.acceptError, .request (ascii "hi" ++ [0])] := by
  intro h
  have hsafe := h.2.1.1
  have hzero : (serveConn zeroBuffer .acceptError).2 = zeroBuffer := rfl
  rw [hzero, serveConn_request_of_mem (by decide) (by decide)] at hsafe
  exact absurd hsafe (by decide)

/-! ## Grammar -/

theorem path_clean {p : Bytes} (hp : IsPath p) (sp : Bool) : Clean isCrLf (p ++ optSpace sp) := by
  apply Clean.append _ (optSpace_clean sp)
  intro b hb
  have h := hp.clean b hb
  simp [isCrLf, h.1, h.2.1]

/-- A trailing space is the optional one, so dropping it leaves the path. -/
theorem stripSpace_path {p : Bytes} (hp : IsPath p) (sp : Bool) :
    stripSpace (p ++ optSpace sp) = p := by
  unfold stripSpace
  cases sp with
  | true => simp [optSpace]
  | false =>
    have h : (p ++ optSpace false).getLast? ≠ some 32 := by
      simpa [optSpace] using hp.no_space
    rw [if_neg h]
    simp [optSpace]

/-- A request is taken apart as the grammar says, from its first CR on. -/
theorem requestHeader_readAs {p : Bytes} (hp : IsPath p) (sp : Bool) (v : Bytes) :
    ReadAs (ascii "GETFILE GET " ++ (p ++ (optSpace sp ++ 13 :: v))) p := by
  have hlit : ascii "GETFILE GET " = ascii "GETFILE" ++ 32 :: (ascii "GET" ++ [32]) := by decide
  have hne : p ≠ [] := by
    intro h
    have := hp.slash
    simp [h] at this
  refine ⟨p ++ optSpace sp, 13 :: v, ?_, stripSpace_path hp sp, hp.slash⟩
  exact ⟨by decide, by decide, by decide, by decide, by simp [hne], path_clean hp sp,
    Or.inr ⟨13, v, rfl, rfl⟩, [], [], [], Seps.nil _, Seps.nil _, Seps.nil _, by simp [hlit]⟩

theorem ReadAs.unique {s p q : Bytes} (hp : ReadAs s p) (hq : ReadAs s q) : p = q := by
  have h := (answer_handler_iff.mpr hp).symm.trans (answer_handler_iff.mpr hq)
  simpa using h

theorem ReadAs.not_refused {s p : Bytes} (hp : ReadAs s p) : ¬ Refused s := by
  intro hr
  have h := (answer_handler_iff.mpr hp).symm.trans (answer_invalid_iff.mpr hr)
  simp at h

/-- The part of a request up to its first CR has no NUL. -/
theorem request_nul_free {p : Bytes} (hp : IsPath p) (sp : Bool) :
    0 ∉ ascii "GETFILE GET " ++ (p ++ (optSpace sp ++ [13])) := by
  have hlit : (0 : UInt8) ∉ ascii "GETFILE GET " := by decide
  have hpath : (0 : UInt8) ∉ p := fun h => (hp.clean 0 h).2.2 rfl
  have hsp : (0 : UInt8) ∉ optSpace sp := by cases sp <;> decide
  simp [hlit, hpath, hsp]

theorem text_request {p : Bytes} (hp : IsPath p) (sp : Bool) (v : Bytes) :
    text (ascii "GETFILE GET " ++ (p ++ (optSpace sp ++ 13 :: v))) =
      ascii "GETFILE GET " ++ (p ++ (optSpace sp ++ 13 :: text v)) := by
  have h := text_append (request_nul_free hp sp) v
  simpa using h

/-- A stream is a request for one path at most. -/
theorem IsRequest.unique {stream p q : Bytes} (hp : IsRequest stream p) (hq : IsRequest stream q) :
    p = q := by
  have key : ∀ p, IsRequest stream p → ReadAs (text stream) p := by
    rintro p ⟨hpath, sp, rest, rfl⟩
    have hterm : terminator = [13, 10, 13, 10] := by decide
    have h := text_request hpath sp ([10, 13, 10] ++ rest)
    have hs : requestHeader p sp ++ rest =
        ascii "GETFILE GET " ++ (p ++ (optSpace sp ++ 13 :: ([10, 13, 10] ++ rest))) := by
      simp [requestHeader, hterm]
    rw [hs, h]
    exact requestHeader_readAs hpath sp _
  exact (key p hp).unique (key q hq)

/-- The decision on a connection is the documented one. -/
def ParsesRight (buffer stream : Bytes) (segs : List Bytes) : Prop :=
  (∀ p, (serveConn buffer (.request (firstRecv segs))).1 = .served (.handler p) ↔
    IsRequest stream p) ∧
  ((¬ ∃ p, IsRequest stream p) →
    (serveConn buffer (.request (firstRecv segs))).1 = .served .invalid)

/-- The first `recv` result holds a request for `p` up to its first CR. -/
def ReachesCr (r p : Bytes) : Prop :=
  ∃ sp v, r = ascii "GETFILE GET " ++ (p ++ (optSpace sp ++ 13 :: v))

/-- What stands behind the CR does not matter. -/
theorem ReachesCr.readAs {r p : Bytes} (h : ReachesCr r p) (hp : IsPath p) (buffer : Bytes) :
    ReadAs (text (recvInto buffer r)) p := by
  obtain ⟨sp, v, rfl⟩ := h
  have hs : recvInto buffer (ascii "GETFILE GET " ++ (p ++ (optSpace sp ++ 13 :: v))) =
      ascii "GETFILE GET " ++ (p ++ (optSpace sp ++ 13 :: (v ++ buffer.drop
        (ascii "GETFILE GET " ++ (p ++ (optSpace sp ++ 13 :: v))).length))) := by
    simp [recvInto]
  rw [hs, text_request hp]
  exact requestHeader_readAs hp sp _

/-- The streams, segmentations and buffers on which the single `recv` and the three `strtok`
calls decide as documented. -/
structure ReadRight (buffer stream : Bytes) (segs : List Bytes) : Prop where
  /-- there is a NUL in the buffer -/
  terminated : 0 ∈ recvInto buffer (firstRecv segs)
  /-- a request arrives up to its first CR, or what was left in the buffer completes it -/
  grammatical : ∀ p, IsRequest stream p →
    ReachesCr (firstRecv segs) p ∨ ReadAs (text (recvInto buffer (firstRecv segs))) p
  /-- any other stream leads to three tokens, of which one fails its check -/
  malformed : (¬ ∃ p, IsRequest stream p) → Refused (text (recvInto buffer (firstRecv segs)))

/-- **Grammar.** On any buffer and any segmentation of any stream, the decision is the
documented one exactly when the string in the buffer happens to be one that is read right. -/
theorem gfserverServe_parses_iff (buffer stream : Bytes) (segs : List Bytes) :
    ParsesRight buffer stream segs ↔ ReadRight buffer stream segs := by
  have hhandler : ∀ p, (serveConn buffer (.request (firstRecv segs))).1 = .served (.handler p) ↔
      0 ∈ recvInto buffer (firstRecv segs) ∧
        ReadAs (text (recvInto buffer (firstRecv segs))) p := by
    intro p
    rw [serveConn_request_served, answer_handler_iff]
  have hinvalid : (serveConn buffer (.request (firstRecv segs))).1 = .served .invalid ↔
      0 ∈ recvInto buffer (firstRecv segs) ∧
        Refused (text (recvInto buffer (firstRecv segs))) := by
    rw [serveConn_request_served, answer_invalid_iff]
  unfold ParsesRight
  constructor
  · rintro ⟨hiff, hother⟩
    by_cases hreq : ∃ p, IsRequest stream p
    · obtain ⟨p, hp⟩ := hreq
      obtain ⟨hm, hread⟩ := (hhandler p).mp ((hiff p).mpr hp)
      refine ⟨hm, ?_, fun hno => absurd ⟨p, hp⟩ hno⟩
      intro q hq
      rw [hq.unique hp]
      exact Or.inr hread
    · obtain ⟨hm, hrefused⟩ := hinvalid.mp (hother hreq)
      exact ⟨hm, fun p hp => absurd ⟨p, hp⟩ hreq, fun _ => hrefused⟩
  · intro h
    by_cases hreq : ∃ p, IsRequest stream p
    · obtain ⟨p, hp⟩ := hreq
      have hread : ReadAs (text (recvInto buffer (firstRecv segs))) p := by
        rcases h.grammatical p hp with hreach | hread
        · exact hreach.readAs hp.1 buffer
        · exact hread
      refine ⟨?_, fun hno => absurd ⟨p, hp⟩ hno⟩
      intro q
      rw [hhandler q]
      constructor
      · rintro ⟨_, hq⟩
        rw [hq.unique hread]
        exact hp
      · intro hq
        rw [hq.unique hp]
        exact ⟨h.terminated, hread⟩
    · have hrefused := h.malformed hreq
      refine ⟨?_, fun _ => hinvalid.mpr ⟨h.terminated, hrefused⟩⟩
      intro q
      rw [hhandler q]
      constructor
      · rintro ⟨_, hq⟩
        exact absurd hrefused hq.not_refused
      · intro hq
        exact absurd ⟨q, hq⟩ hreq

/-- A request without any terminator is given to the handler. -/
theorem gfserverServe_accepts_unterminated :
    Segmentation srvBufSize (ascii "GETFILE GET /a") [ascii "GETFILE GET /a"] ∧
    ¬ ParsesRight zeroBuffer (ascii "GETFILE GET /a") [ascii "GETFILE GET /a"] := by
  refine ⟨⟨by decide, by decide, by decide⟩, ?_⟩
  rintro ⟨hiff, _⟩
  have hans : answer (ascii "GETFILE GET /a") = .served (.handler (ascii "/a")) := by decide
  have hserved : (serveConn zeroBuffer (.request (firstRecv [ascii "GETFILE GET /a"]))).1 =
      .served (.handler (ascii "/a")) :=
    (serveConn_zeroBuffer (by decide) (by decide) (by decide)).trans hans
  obtain ⟨_, sp, rest, hstream⟩ := (hiff _).mp hserved
  -- a grammatical request for `/a` is longer
  have hlen := congrArg List.length hstream
  have h14 : (ascii "GETFILE GET /a").length = 14 := by decide
  have h2 : (ascii "/a").length = 2 := by decide
  have h12 : (ascii "GETFILE GET ").length = 12 := by decide
  have h4 : terminator.length = 4 := by decide
  simp only [requestHeader, List.length_append, h14, h2, h12, h4] at hlen
  omega

end IntroOS.Getfile
