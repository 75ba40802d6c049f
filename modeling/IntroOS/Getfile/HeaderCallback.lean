import IntroOS.Getfile.ClientVerdict

/-! # The header callback of `gfc_perform`

`gfclient.h` promises the registered function the header of the response. The code calls it with
the request that it is about to send, before there is a response, and without a look at whether a
function was registered.

* `HeaderLaw`: what the documentation promises for one response;
* `header_callback_iff`: the promise is kept where it says nothing, and nowhere else.
-/

namespace IntroOS.Getfile

/-- A grammatical response header, up to and including its terminator. -/
inductive IsHeader : Bytes → Prop where
  | ok {ds : Bytes} (sp : Bool) : IsLength ds → IsHeader (okHeader ds sp)
  | status {st : GfStatus} : st ≠ .ok → IsHeader (statusHeader st)

theorem hasHeader_iff {stream : Bytes} : HasHeader stream ↔ ∃ h, IsHeader h ∧ h <+: stream := by
  constructor
  · intro h
    cases h with
    | ok sp rest hds => exact ⟨_, .ok sp hds, List.prefix_append _ rest⟩
    | status rest hst => exact ⟨_, .status hst, List.prefix_append _ rest⟩
  · rintro ⟨h, hheader, rest, rfl⟩
    cases hheader with
    | ok sp hds => exact .ok sp rest hds
    | status hst => exact .status rest hst

/-- The calls of `headerfunc` and of `writefunc` in their order: the first are made before the
request is sent, the others when the response is there. -/
def Performed.callbacks (p : Performed) : List (Bytes ⊕ List Cell) :=
  p.headerCalls.map .inl ++ p.writeCalls.map .inr

/-- A registered function is called once, with the header of the response, before any content is
written; without one there is no such call. -/
structure HeaderLaw (gfr : GfcRequest) (stream : Bytes) (segs : List Bytes) : Prop where
  registered : gfr.headerfunc = true → ∀ h, IsHeader h → h <+: stream →
    ∃ p, transfer gfr segs = some p ∧ ∃ writes, p.callbacks = .inl h :: List.map .inr writes
  unregistered : gfr.headerfunc = false → ∃ p, transfer gfr segs = some p ∧ p.headerCalls = []

/-- Whatever the response is, the function gets the request. -/
theorem transfer_headerCalls {gfr : GfcRequest} {segs : List Bytes} {p : Performed}
    (h : transfer gfr segs = some p) : p.headerCalls = [requestString gfr.path] := by
  have hh : gfr.headerfunc = true := by
    by_contra hoff
    rw [transfer_no_headerfunc (by simpa using hoff)] at h
    cases h
  rw [transfer_eq hh, Option.map_eq_some_iff] at h
  rcases h with ⟨_, _, rfl⟩
  rfl

theorem transfer_callbacks {gfr : GfcRequest} {segs : List Bytes} {p : Performed}
    (h : transfer gfr segs = some p) :
    p.callbacks = .inl (requestString gfr.path) :: p.writeCalls.map .inr := by
  unfold Performed.callbacks
  rw [transfer_headerCalls h]
  rfl

/-- A request differs from every response header in its ninth byte. -/
theorem requestString_ne_header (path : Bytes) {h : Bytes} (hheader : IsHeader h) :
    requestString path ≠ h := by
  have hscheme : ascii "GETFILE" = [71, 69, 84, 70, 73, 76, 69] := by decide
  have hspace : ascii " " = [32] := by decide
  have hget : ascii "GET" = [71, 69, 84] := by decide
  have hrequest : (requestString path)[8]? = some 71 := by
    simp [requestString, hscheme, hspace, hget]
  intro heq
  rw [heq] at hrequest
  cases hheader with
  | ok sp hds =>
    have hok : ascii "GETFILE OK " = [71, 69, 84, 70, 73, 76, 69, 32, 79, 75, 32] := by decide
    simp [okHeader, hok] at hrequest
  | @status st hst =>
    revert hrequest hst
    cases st with
    | ok | fileNotFound | error | invalid => decide

/-- **The header callback.** The promise is kept exactly if a function is registered and the response
has no header. -/
theorem header_callback_iff (gfr : GfcRequest) (stream : Bytes) (segs : List Bytes) :
    HeaderLaw gfr stream segs ↔ gfr.headerfunc = true ∧ ¬ HasHeader stream := by
  constructor
  · intro hlaw
    cases hh : gfr.headerfunc with
    | false =>
      rcases hlaw.unregistered hh with ⟨p, hp, _⟩
      rw [transfer_no_headerfunc hh] at hp
      cases hp
    | true =>
      refine ⟨rfl, ?_⟩
      intro hhas
      rcases hasHeader_iff.mp hhas with ⟨h, hheader, hprefix⟩
      rcases hlaw.registered hh h hheader hprefix with ⟨p, hp, writes, hcalls⟩
      rw [transfer_callbacks hp] at hcalls
      exact requestString_ne_header gfr.path hheader (Sum.inl.inj (List.cons.inj hcalls).1)
  · rintro ⟨hh, hnone⟩
    refine ⟨?_, ?_⟩
    · intro _ h hheader hprefix
      exact absurd (hasHeader_iff.mpr ⟨h, hheader, hprefix⟩) hnone
    · intro hoff
      rw [hh] at hoff
      cases hoff

/-- A FILE_NOT_FOUND response: the registered function has seen `GETFILE GET /a.txt`. -/
theorem header_callback_request :
    ¬ ∀ (gfr : GfcRequest) (stream : Bytes) (segs : List Bytes),
      Segmentation bufSize stream segs → HeaderLaw gfr stream segs := by
  intro h
  have hlaw := h demoRequest (statusHeader .fileNotFound) [statusHeader .fileNotFound]
    ⟨by decide, by decide, by decide⟩
  have hheader : IsHeader (statusHeader .fileNotFound) := .status (by decide)
  rcases hlaw.registered rfl _ hheader List.prefix_rfl with ⟨p, hp, writes, hcalls⟩
  rw [transfer_callbacks hp] at hcalls
  exact requestString_ne_header _ hheader (Sum.inl.inj (List.cons.inj hcalls).1)

end IntroOS.Getfile
