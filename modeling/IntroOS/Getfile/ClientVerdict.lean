import IntroOS.Getfile.ClientOk

/-! # The verdict of `gfc_perform` on any stream

`Classifies` is what the documentation promises about the return value and the status;
`TakesRight` is the exact set of streams and segmentations on which the code keeps the
promise. The proof goes by what the tokens of the first `recv` result look like:

* tokens the code answers GF_INVALID on (`ReadAsInvalid`),
* a second token that is a status together with its terminator,
* any other second token, which falls through to the OK branch.
-/

namespace IntroOS.Getfile

/-! ## The loop count -/

/-- `bytesreceived` after `j` further pieces, as a `size_t`. -/
def countAfter (received : Nat) (segs : List Bytes) (j : Nat) : Nat :=
  (received + (segs.take j).flatten.length) % 2 ^ 64

/-- The pieces add up to exactly `filelen` before any of them takes the count past it. -/
def ReachesExactly (filelen received : Nat) (segs : List Bytes) : Prop :=
  ∃ j ≤ segs.length, countAfter received segs j = filelen ∧
    ∀ i < j, countAfter received segs i < filelen

theorem countAfter_zero {received : Nat} (h : received < 2 ^ 64) (segs : List Bytes) :
    countAfter received segs 0 = received := by
  show (received + 0) % 2 ^ 64 = received
  rw [Nat.add_zero, Nat.mod_eq_of_lt h]

theorem countAfter_succ (received : Nat) (r : Bytes) (segs : List Bytes) (j : Nat) :
    countAfter received (r :: segs) (j + 1) =
      countAfter ((received + r.length) % 2 ^ 64) segs j := by
  unfold countAfter
  rw [List.take_succ_cons, List.flatten_cons, List.length_append, Nat.mod_add_mod, Nat.add_assoc]

theorem reachesExactly_nil {filelen received : Nat} (h : received < 2 ^ 64) :
    ReachesExactly filelen received [] ↔ received = filelen := by
  constructor
  · rintro ⟨j, hj, hc, _⟩
    have hj0 : j = 0 := by simpa using hj
    rw [hj0, countAfter_zero h] at hc
    exact hc
  · rintro rfl
    exact ⟨0, Nat.zero_le _, countAfter_zero h [], fun i hi => absurd hi (Nat.not_lt_zero i)⟩

theorem reachesExactly_cons {filelen received : Nat} (h : received < 2 ^ 64) (r : Bytes)
    (segs : List Bytes) :
    ReachesExactly filelen received (r :: segs) ↔
      received = filelen ∨
      (received < filelen ∧ ReachesExactly filelen ((received + r.length) % 2 ^ 64) segs) := by
  constructor
  · rintro ⟨j, hj, hc, hlt⟩
    cases j with
    | zero =>
      rw [countAfter_zero h] at hc
      exact Or.inl hc
    | succ j =>
      right
      have h0 := hlt 0 (Nat.succ_pos j)
      rw [countAfter_zero h] at h0
      rw [countAfter_succ] at hc
      refine ⟨h0, j, by simpa using hj, hc, fun i hi => ?_⟩
      have := hlt (i + 1) (by omega)
      rwa [countAfter_succ] at this
  · rintro (rfl | ⟨h0, j, hj, hc, hlt⟩)
    · exact ⟨0, Nat.zero_le _, countAfter_zero h _, fun i hi => absurd hi (Nat.not_lt_zero i)⟩
    · refine ⟨j + 1, by simpa using hj, by rw [countAfter_succ, hc], fun i hi => ?_⟩
      cases i with
      | zero => rwa [countAfter_zero h]
      | succ i =>
        rw [countAfter_succ]
        exact hlt i (by omega)

/-- On a stream without `recv` errors the loop ends with exactly `filelen` bytes counted
iff the pieces reach it exactly. -/
theorem recvLoop_exact (filelen : Nat) (segs : List Bytes) (hne : ∀ r ∈ segs, r ≠ [])
    {numbytes received : Nat} (hn : 0 < numbytes) (hr : received < 2 ^ 64) :
    ∃ n, ∃ calls : List (List Cell),
      recvLoop filelen (segs.map some) numbytes received = (n, calls, false) ∧
      (filelen = n ↔ ReachesExactly filelen received segs) := by
  induction segs generalizing numbytes received with
  | nil =>
    unfold recvLoop
    rw [reachesExactly_nil hr]
    by_cases hlt : received < filelen
    · exact ⟨received, [[]], by simp [hn, hlt], by omega⟩
    · exact ⟨received, [], by simp [hlt], by omega⟩
  | cons r segs ih =>
    have hrl : 0 < r.length := List.length_pos_iff.mpr (hne r (by simp))
    unfold recvLoop
    rw [reachesExactly_cons hr]
    by_cases hlt : received < filelen
    · have hmod : (received + r.length) % 2 ^ 64 < 2 ^ 64 := Nat.mod_lt _ (by omega)
      obtain ⟨n, calls, hcalls, hiff⟩ := ih (fun q hq => hne q (by simp [hq])) hrl hmod
      refine ⟨n, r.map some :: calls, ?_, ?_⟩
      · simp only [List.map_cons, hn, hlt, and_self, if_true, hcalls]
      · rw [hiff]
        constructor
        · exact fun h => Or.inr ⟨hlt, h⟩
        · rintro (h | ⟨_, h⟩)
          · omega
          · exact h
    · refine ⟨received, [], by simp [hlt], ?_⟩
      omega

/-! ## The three kinds of token results -/

/-- The second token, if there is one. -/
def secondToken : Tokens → Option Bytes
  | .none | .one _ => none
  | .two _ b | .three _ b _ => some b

/-- A status name with the terminator, as the code compares it. -/
def statusToken (st : GfStatus) : Bytes := statusName st ++ terminator

theorem statusToken_eq :
    statusToken .invalid = ascii "INVALID\r\n\r\n" ∧
    statusToken .fileNotFound = ascii "FILE_NOT_FOUND\r\n\r\n" ∧
    statusToken .error = ascii "ERROR\r\n\r\n" := by decide

/-- The second token is not one of the three the code compares with. -/
def OtherStatus (b : Bytes) : Prop :=
  b ≠ statusToken .invalid ∧ b ≠ statusToken .fileNotFound ∧ b ≠ statusToken .error

theorem tokens_cases (t : Tokens) :
    ReadAsInvalid t ∨
    (∃ st, (st = .fileNotFound ∨ st = .error) ∧ secondToken t = some (statusToken st)) ∨
    (∃ a b c, t = .three a b c ∧ OtherStatus b) := by
  obtain ⟨hi, hf, he⟩ := statusToken_eq
  unfold OtherStatus
  cases t with
  | none => exact Or.inl trivial
  | one a => exact Or.inl trivial
  | two a b =>
    by_cases h1 : b = statusToken .fileNotFound
    · exact Or.inr (Or.inl ⟨_, Or.inl rfl, by rw [h1]; rfl⟩)
    by_cases h2 : b = statusToken .error
    · exact Or.inr (Or.inl ⟨_, Or.inr rfl, by rw [h2]; rfl⟩)
    exact Or.inl ⟨hf ▸ h1, he ▸ h2⟩
  | three a b c =>
    by_cases h0 : b = statusToken .invalid
    · exact Or.inl (h0.trans hi)
    by_cases h1 : b = statusToken .fileNotFound
    · exact Or.inr (Or.inl ⟨_, Or.inl rfl, by rw [h1]; rfl⟩)
    by_cases h2 : b = statusToken .error
    · exact Or.inr (Or.inl ⟨_, Or.inr rfl, by rw [h2]; rfl⟩)
    exact Or.inr (Or.inr ⟨a, b, c, rfl, h0, h1, h2⟩)

theorem not_invalid_of_status {t : Tokens} {st : GfStatus} (hst : st = .fileNotFound ∨ st = .error)
    (h : secondToken t = some (statusToken st)) : ¬ ReadAsInvalid t := by
  obtain ⟨hi, hf, he⟩ := statusToken_eq
  intro hinv
  cases t with
  | none => cases h
  | one => cases h
  | two a b =>
    have hb : b = statusToken st := Option.some.inj h
    rcases hst with rfl | rfl
    · exact hinv.1 (hb.trans hf)
    · exact hinv.2 (hb.trans he)
  | three a b c =>
    have hb : statusToken st = statusToken .invalid :=
      (Option.some.inj h).symm.trans (hinv.trans hi.symm)
    revert hb
    rcases hst with rfl | rfl <;> decide

theorem not_invalid_of_other {a b c : Bytes} (h : OtherStatus b) :
    ¬ ReadAsInvalid (.three a b c) :=
  fun hinv => h.1 (hinv.trans statusToken_eq.1.symm)

section Branches

variable (gfr : GfcRequest) (r : Bytes) (rest : List (Option Bytes))

theorem performTokens_status {t : Tokens} {st : GfStatus} (hst : st = .fileNotFound ∨ st = .error)
    (h : secondToken t = some (statusToken st)) :
    performTokens gfr r rest t = some ({ gfr with status := some st }, [], 0) := by
  obtain ⟨hi, hf, he⟩ := statusToken_eq
  have hfi : ascii "FILE_NOT_FOUND\r\n\r\n" ≠ ascii "INVALID\r\n\r\n" := by decide
  have hei : ascii "ERROR\r\n\r\n" ≠ ascii "INVALID\r\n\r\n" := by decide
  have hef : ascii "ERROR\r\n\r\n" ≠ ascii "FILE_NOT_FOUND\r\n\r\n" := by decide
  cases t with
  | none => cases h
  | one a => cases h
  | two a b =>
    have hb : b = statusToken st := Option.some.inj h
    unfold performTokens performTokens.classify
    rcases hst with rfl | rfl
    · simp [hb, hf, hfi]
    · simp [hb, he, hei, hef]
  | three a b c =>
    have hb : b = statusToken st := Option.some.inj h
    unfold performTokens performTokens.classify
    rcases hst with rfl | rfl
    · simp [hb, hf, hfi]
    · simp [hb, he, hei, hef]

theorem performTokens_other {b : Bytes} (h : OtherStatus b) (a c : Bytes) :
    performTokens gfr r rest (.three a b c) = performOk gfr r rest a b c := by
  obtain ⟨hi, hf, he⟩ := statusToken_eq
  obtain ⟨h1, h2, h3⟩ := h
  rw [hi] at h1
  rw [hf] at h2
  rw [he] at h3
  unfold performTokens performTokens.classify
  simp [h1, h2, h3]

end Branches

/-- Tokens do not reach more than the terminator past the text they come from. -/
theorem bodyOffset_le {r a b c : Bytes} (h : splitHeader (text r) = .three a b c) :
    bodyOffset a b c ≤ r.length + 4 := by
  obtain ⟨tail, hs⟩ := splitHeader_eq_three.mp h
  obtain ⟨p, q, w, _, _, _, hshape⟩ := hs.shape
  have hlen := congrArg List.length hshape
  have htext := (text_prefix_mem r).length_le
  have ht : (ascii "\r\n\r\n").length = 4 := by decide
  simp only [List.length_append, List.length_cons] at hlen
  unfold bodyOffset
  omega

/-- The OK branch returns 0: a short file is complete in the first `recv` result, or the
pieces of a long one add up exactly. -/
def TakenAsComplete (filelen received : Nat) (segs : List Bytes) : Prop :=
  (filelen < bufSize → filelen ≤ received) ∧
  (bufSize ≤ filelen → ReachesExactly filelen received segs)

/-- The OK branch on tokens that end inside the received bytes: GF_OK, and 0 or -1. -/
theorem performOk_verdict (gfr : GfcRequest) {r a b c : Bytes} {segs : List Bytes}
    (hne : ∀ q ∈ segs, q ≠ []) (hr : r.length ≤ bufSize) (ho : bodyOffset a b c ≤ r.length) :
    ∃ gfr' calls ret, performOk gfr r (segs.map some) a b c = some (gfr', calls, ret) ∧
      gfr'.status = some .ok ∧ gfr'.filelen = some (strtoul c) ∧
      (ret = 0 ↔ TakenAsComplete (strtoul c) (r.length - bodyOffset a b c) segs) := by
  unfold TakenAsComplete
  by_cases hF : strtoul c < bufSize
  · by_cases hlt : r.length - bodyOffset a b c < strtoul c
    · refine ⟨_, _, _, performOk_short gfr r (segs.map some) a b c hr ho hF hlt, rfl, rfl, ?_⟩
      constructor
      · intro h
        cases h
      · rintro ⟨h, _⟩
        have := h hF
        omega
    · refine ⟨_, _, _, performOk_whole gfr r (segs.map some) a b c hr ho hF (by omega), rfl, rfl, ?_⟩
      exact ⟨fun _ => ⟨fun _ => by omega, fun h => by omega⟩, fun _ => rfl⟩
  · have hpos : 0 < r.length := by
      have : 0 < bodyOffset a b c := by
        unfold bodyOffset
        omega
      omega
    have hb : bufSize = 4096 := rfl
    obtain ⟨n, calls, hcalls, hiff⟩ := recvLoop_exact (strtoul c) segs hne hpos
      (show r.length - bodyOffset a b c < 2 ^ 64 by omega)
    refine ⟨_, _, _, performOk_long gfr r (segs.map some) a b c hr ho (by omega) hcalls, rfl, rfl, ?_⟩
    constructor
    · intro h
      refine ⟨fun h' => absurd h' hF, fun _ => hiff.mp ?_⟩
      by_contra hne'
      rw [if_neg hne'] at h
      cases h
    · rintro ⟨_, h⟩
      rw [if_pos (hiff.mpr (h (by omega)))]

/-! ## Headers are read in one way -/

theorem statusHeader_ne_okHeader {st : GfStatus} (hst : st ≠ .ok) (u ds : Bytes) (sp : Bool)
    (v : Bytes) : statusHeader st ++ u ≠ okHeader ds sp ++ v := by
  intro h
  -- the ninth byte already differs
  have h8 := congrArg (fun l : Bytes => l[8]?) h
  have hok : (okHeader ds sp ++ v)[8]? = some 79 := by
    have : ascii "GETFILE OK " = [71, 69, 84, 70, 73, 76, 69, 32, 79, 75, 32] := by decide
    simp [okHeader, this]
  rw [hok] at h8
  have hlen : (statusHeader st).length > 8 := by cases st <;> decide
  rw [List.getElem?_append_left hlen] at h8
  revert h8 hst
  cases st <;> decide

/-- The digits and the content of an OK response are determined by the stream. -/
theorem okHeader_inj {ds ds' u u' : Bytes} (hds : IsLength ds) (hds' : IsLength ds')
    {sp sp' : Bool} (h : okHeader ds sp ++ u = okHeader ds' sp' ++ u') :
    ds = ds' ∧ sp = sp' ∧ u = u' := by
  have htok := congrArg (fun l => splitHeader (text l)) h
  simp only [text_append (okHeader_nul_free hds sp), text_append (okHeader_nul_free hds' sp'),
    splitHeader_eq_three.mpr ⟨_, okHeader_splits hds sp _⟩,
    splitHeader_eq_three.mpr ⟨_, okHeader_splits hds' sp' _⟩, Tokens.three.injEq] at htok
  have hthird := htok.2.2
  have hd : ds = ds' := by
    rw [← takeWhile_digits hds.digits (optSpace_head sp), hthird,
      takeWhile_digits hds'.digits (optSpace_head sp')]
  subst hd
  have hsp : sp = sp' := by
    have := List.append_cancel_left hthird
    revert this
    cases sp <;> cases sp' <;> decide
  subst hsp
  exact ⟨rfl, rfl, List.append_cancel_left h⟩

/-- A stream is a complete response of one status at most. -/
theorem Complete.unique {stream : Bytes} {st st' : GfStatus} (h : Complete stream st)
    (h' : Complete stream st') : st' = st := by
  have key : ∀ {st st' : GfStatus}, Complete stream st → Complete stream st' → st = .ok →
      st' = .ok := by
    intro st st' hs hs' hok
    cases hs with
    | ok sp _ _ =>
      generalize hgen : okHeader _ sp ++ _ = w at hs'
      cases hs' with
      | ok => rfl
      | fileNotFound =>
        have hne := statusHeader_ne_okHeader (by decide : GfStatus.fileNotFound ≠ .ok) []
        simp only [List.append_nil] at hne
        exact absurd hgen.symm (hne _ _ _)
      | error =>
        have hne := statusHeader_ne_okHeader (by decide : GfStatus.error ≠ .ok) []
        simp only [List.append_nil] at hne
        exact absurd hgen.symm (hne _ _ _)
    | fileNotFound => cases hok
    | error => cases hok
  by_cases h1 : st = .ok
  · rw [key h h' h1, h1]
  · by_cases h2 : st' = .ok
    · exact absurd (key h' h h2) h1
    · have hcase : ∀ {st : GfStatus}, Complete stream st → st ≠ .ok →
          stream = statusHeader st ∧ (st = .fileNotFound ∨ st = .error) := by
        intro st hs hne
        cases hs with
        | ok => exact absurd rfl hne
        | fileNotFound => exact ⟨rfl, Or.inl rfl⟩
        | error => exact ⟨rfl, Or.inr rfl⟩
      obtain ⟨hs, hc⟩ := hcase h h1
      obtain ⟨hs', hc'⟩ := hcase h' h2
      rw [hs] at hs'
      revert hs'
      rcases hc with rfl | rfl <;> rcases hc' with rfl | rfl <;> decide

/-! ## The verdict -/

/-- What the documentation promises about the return value and the status. -/
def Classifies (gfr : GfcRequest) (stream : Bytes) (segs : List Bytes) : Prop :=
  ∃ p, transfer gfr segs = some p ∧
    (p.ret = 0 ↔ ∃ st, Complete stream st) ∧
    (∀ st, Complete stream st → p.gfr.status = some st) ∧
    (¬ HasHeader stream → p.ret < 0 ∧ p.gfr.status = some .invalid)

/-- A complete response is recognised: it came whole in the first `recv` result, or its
header did and the announced length is at least the buffer size. -/
def ComesComplete (stream first : Bytes) : Prop :=
  first = stream ∨ ∃ ds sp u v, IsLength ds ∧ bufSize ≤ digitsValue ds ∧
    first = okHeader ds sp ++ u ∧ stream = okHeader ds sp ++ v

/-- A response that is not complete is not taken for one: the tokens read as invalid, or they
reach the OK branch inside the received bytes and the byte count does not come out. -/
def NotTaken (first : Bytes) (segs : List Bytes) : Prop :=
  ReadAsInvalid (splitHeader (text first)) ∨
  ∃ a b c, splitHeader (text first) = .three a b c ∧ OtherStatus b ∧
    bodyOffset a b c ≤ first.length ∧
    ¬ TakenAsComplete (strtoul c) (first.length - bodyOffset a b c) segs

/-- The streams and segmentations on which the verdict is right. What `incomplete` says of an OK
response whose header came whole is `notTaken_okHeader_iff`. -/
structure TakesRight (stream : Bytes) (segs : List Bytes) : Prop where
  readable : Readable (firstRecv segs)
  complete : (∃ st, Complete stream st) → ComesComplete stream (firstRecv segs)
  incomplete : HasHeader stream → (¬ ∃ st, Complete stream st) →
    NotTaken (firstRecv segs) segs.tail
  malformed : ¬ HasHeader stream → ReadAsInvalid (splitHeader (text (firstRecv segs)))

/-! ### An OK response that is not complete -/

/-- Where nothing wraps around, the loop counts to `filelen` exactly if a piece ends there. -/
theorem reachesExactly_iff {filelen received : Nat} {segs : List Bytes}
    (hne : ∀ r ∈ segs, r ≠ []) (hlt : received + segs.flatten.length < 2 ^ 64) :
    ReachesExactly filelen received segs ↔
      ∃ j, received + (segs.take j).flatten.length = filelen := by
  induction segs generalizing received with
  | nil =>
    rw [reachesExactly_nil (by omega)]
    simp only [List.take_nil, List.flatten_nil, List.length_nil, Nat.add_zero, exists_const]
  | cons r segs ih =>
    have hr : 0 < r.length := List.length_pos_iff.mpr (hne r List.mem_cons_self)
    rw [List.flatten_cons, List.length_append] at hlt
    have hmod : (received + r.length) % 2 ^ 64 = received + r.length := Nat.mod_eq_of_lt (by omega)
    rw [reachesExactly_cons (by omega), hmod,
      ih (fun q hq => hne q (List.mem_cons_of_mem r hq)) (by omega)]
    constructor
    · rintro (heq | ⟨_, j, hj⟩)
      · exact ⟨0, heq⟩
      · refine ⟨j + 1, ?_⟩
        rw [List.take_succ_cons, List.flatten_cons, List.length_append]
        omega
    · rintro ⟨j, hj⟩
      cases j with
      | zero => exact Or.inl hj
      | succ j =>
        rw [List.take_succ_cons, List.flatten_cons, List.length_append] at hj
        exact Or.inr ⟨by omega, j, by omega⟩

section Incomplete

variable {ds content first : Bytes} {sp : Bool} {segs : List Bytes}

/-- Behind a whole header it is the byte count that decides. -/
theorem notTaken_whole_iff (hds : IsLength ds) (hfirst : firstRecv segs = okHeader ds sp ++ first) :
    NotTaken (firstRecv segs) segs.tail ↔
      ¬ TakenAsComplete (digitsValue ds) first.length segs.tail := by
  have hsplit : splitHeader (text (firstRecv segs)) =
      .three (ascii "GETFILE") (ascii "OK") (ds ++ optSpace sp) := by
    rw [hfirst, text_append (okHeader_nul_free hds sp)]
    exact splitHeader_eq_three.mpr ⟨_, okHeader_splits hds sp (text first)⟩
  have hother : OtherStatus (ascii "OK") := by
    unfold OtherStatus
    decide
  have hval := strtoul_length hds sp
  have hbehind := length_behind_okHeader ds sp first
  unfold NotTaken
  rw [hsplit]
  constructor
  · rintro (hinvalid | ⟨a, b, c, htokens, _, _, hnot⟩)
    · exact absurd hinvalid (not_invalid_of_other hother)
    · cases htokens
      rw [hfirst, hval, hbehind] at hnot
      exact hnot
  · intro hnot
    refine Or.inr ⟨_, _, _, rfl, hother, ?_, ?_⟩
    · rw [hfirst]
      exact bodyOffset_okHeader_le ds sp first
    · rw [hfirst, hval, hbehind]
      exact hnot

variable (hds : IsLength ds) (hseg : Segmentation bufSize (okHeader ds sp ++ content) segs)
  (hfirst : firstRecv segs = okHeader ds sp ++ first) (hlt : content.length < 2 ^ 64)

include hds hseg hfirst hlt

/-- A response whose header came whole is not taken for a complete one exactly if the last byte
that it announces is not in the first `recv` result, and no `recv` result of a long one ends with
this byte. -/
theorem notTaken_okHeader_iff :
    NotTaken (firstRecv segs) segs.tail ↔
      first.length < digitsValue ds ∧ (bufSize ≤ digitsValue ds →
        ∀ j, (segs.take j).flatten.length ≠ (okHeader ds sp).length + digitsValue ds) := by
  have hheader : 0 < (okHeader ds sp).length := by
    rw [← bodyOffset_ok ds sp, bodyOffset_ok_length]
    omega
  have hle := firstRecv_le hseg
  have hflat := congrArg List.length hseg.flatten
  have hne := hseg.ne
  rw [notTaken_whole_iff hds hfirst]
  unfold TakenAsComplete
  cases segs with
  | nil =>
    have hnone := congrArg List.length hfirst
    rw [List.length_append] at hnone
    have hzero : 0 = (okHeader ds sp).length + first.length := hnone
    omega
  | cons r segs =>
    have hr : r = okHeader ds sp ++ first := hfirst
    subst hr
    rw [hfirst, List.length_append] at hle
    rw [List.flatten_cons, List.length_append, List.length_append, List.length_append] at hflat
    have hnext : ∀ r ∈ segs, r ≠ [] := fun r hr => hne r (List.mem_cons_of_mem _ hr)
    rw [List.tail_cons, reachesExactly_iff hnext (by omega)]
    by_cases hshort : digitsValue ds < bufSize
    · constructor
      · intro hnot
        refine ⟨?_, fun hlong => by omega⟩
        by_contra hfull
        exact hnot ⟨fun _ => by omega, fun hlong => by omega⟩
      · rintro ⟨hmissing, _⟩ ⟨hfull, _⟩
        have hall := hfull hshort
        omega
    · constructor
      · intro hnot
        refine ⟨by omega, ?_⟩
        intro _ j hj
        apply hnot
        refine ⟨fun hlt => absurd hlt hshort, fun _ => ?_⟩
        -- no piece ends inside the header
        cases j with
        | zero =>
          rw [List.take_zero, List.flatten_nil, List.length_nil] at hj
          omega
        | succ j =>
          rw [List.take_succ_cons, List.flatten_cons, List.length_append, List.length_append] at hj
          exact ⟨j, by omega⟩
      · rintro ⟨_, hends⟩ ⟨_, hreaches⟩
        obtain ⟨j, hj⟩ := hreaches (by omega)
        apply hends (by omega) (j + 1)
        rw [List.take_succ_cons, List.flatten_cons, List.length_append, List.length_append]
        omega

/-- A response that was cut short is never taken for a complete one. -/
theorem notTaken_of_cut (hcut : content.length < digitsValue ds) :
    NotTaken (firstRecv segs) segs.tail := by
  have hflat := congrArg List.length hseg.flatten
  rw [List.length_append] at hflat
  rw [notTaken_okHeader_iff hds hseg hfirst hlt]
  refine ⟨?_, ?_⟩
  · have hfront := (firstRecv_prefix_stream hseg).length_le
    rw [hfirst, List.length_append, List.length_append] at hfront
    omega
  · intro _ j hj
    have hpart := ((List.take_prefix j segs).flatten).length_le
    omega

end Incomplete

section Verdict

variable {gfr : GfcRequest} {stream : Bytes} {segs : List Bytes}

/-- Result, status and return value for each kind of tokens in the first `recv` result. -/
theorem transfer_cases (hh : gfr.headerfunc = true) (hseg : Segmentation bufSize stream segs)
    (hread : Readable (firstRecv segs)) :
    (ReadAsInvalid (splitHeader (text (firstRecv segs))) ∧
      ∃ p, transfer gfr segs = some p ∧ p.gfr.status = some .invalid ∧ p.ret = -1) ∨
    (∃ st, (st = .fileNotFound ∨ st = .error) ∧
      secondToken (splitHeader (text (firstRecv segs))) = some (statusToken st) ∧
      ∃ p, transfer gfr segs = some p ∧ p.gfr.status = some st ∧ p.ret = 0) ∨
    (∃ a b c, splitHeader (text (firstRecv segs)) = .three a b c ∧ OtherStatus b ∧
      ((bodyOffset a b c ≤ (firstRecv segs).length ∧
        ∃ p, transfer gfr segs = some p ∧ p.gfr.status = some .ok ∧
          (p.ret = 0 ↔ TakenAsComplete (strtoul c)
            ((firstRecv segs).length - bodyOffset a b c) segs.tail)) ∨
      ((firstRecv segs).length < bodyOffset a b c ∧ transfer gfr segs = none))) := by
  rw [transfer_eq hh, performResponse_eq hread]
  have hle := firstRecv_le hseg
  rcases tokens_cases (splitHeader (text (firstRecv segs))) with h | ⟨st, hst, h⟩ |
    ⟨a, b, c, h, hb⟩
  · left
    rw [performTokens_invalid gfr _ _ h]
    exact ⟨h, _, rfl, rfl, rfl⟩
  · right
    left
    rw [performTokens_status gfr _ _ hst h]
    exact ⟨st, hst, h, _, rfl, rfl, rfl⟩
  · right
    right
    refine ⟨a, b, c, h, hb, ?_⟩
    rw [h, performTokens_other gfr _ _ hb]
    by_cases ho : bodyOffset a b c ≤ (firstRecv segs).length
    · have hne : ∀ q ∈ segs.tail, q ≠ [] := fun q hq => hseg.ne q (List.mem_of_mem_tail hq)
      obtain ⟨gfr', calls, ret, hp, hst, _, hiff⟩ := performOk_verdict gfr hne hle ho
      rw [hp]
      exact Or.inl ⟨ho, _, rfl, hst, hiff⟩
    · right
      rw [performOk_underflow gfr _ _ a b c hle (by omega) (bodyOffset_le h)]
      exact ⟨by omega, rfl⟩

/-- No header: the verdict is right iff the tokens read as invalid. -/
theorem classifies_malformed (hh : gfr.headerfunc = true)
    (hseg : Segmentation bufSize stream segs) (hread : Readable (firstRecv segs))
    (hno : ¬ HasHeader stream) :
    Classifies gfr stream segs ↔ ReadAsInvalid (splitHeader (text (firstRecv segs))) := by
  have hnc : ¬ ∃ st, Complete stream st := fun ⟨st, h⟩ => hno h.hasHeader
  rcases transfer_cases hh hseg hread with ⟨h, p, hp, hst, hret⟩ | ⟨st, hst, h, p, hp, hps, hret⟩ |
    ⟨a, b, c, h, hb, ⟨ho, p, hp, hps, _⟩ | ⟨_, hp⟩⟩
  · refine ⟨fun _ => h, fun _ => ⟨p, hp, ?_, fun st hs => absurd ⟨st, hs⟩ hnc, fun _ => ?_⟩⟩
    · rw [hret]
      exact ⟨fun h0 => absurd h0 (by decide), fun hs => absurd hs hnc⟩
    · rw [hret, hst]
      exact ⟨by decide, rfl⟩
  · -- FILE_NOT_FOUND or ERROR: the call returns 0
    constructor
    · rintro ⟨p', hp', h0, _⟩
      rw [hp, Option.some.injEq] at hp'
      subst hp'
      exact absurd (h0.mp hret) hnc
    · exact fun hinv => absurd hinv (not_invalid_of_status hst h)
  · -- the fall-through to GF_OK
    constructor
    · rintro ⟨p', hp', _, _, hbad⟩
      rw [hp, Option.some.injEq] at hp'
      subst hp'
      have := (hbad hno).2
      rw [hps] at this
      cases this
    · exact fun hinv => absurd (h ▸ hinv) (not_invalid_of_other hb)
  · constructor
    · rintro ⟨p', hp', _⟩
      rw [hp] at hp'
      cases hp'
    · exact fun hinv => absurd (h ▸ hinv) (not_invalid_of_other hb)

/-- A header without a complete response: the verdict is right iff the call does not return 0
(and does not leave its buffers). -/
theorem classifies_incomplete (hh : gfr.headerfunc = true)
    (hseg : Segmentation bufSize stream segs) (hread : Readable (firstRecv segs))
    (hhead : HasHeader stream) (hnc : ¬ ∃ st, Complete stream st) :
    Classifies gfr stream segs ↔ NotTaken (firstRecv segs) segs.tail := by
  have hcl : Classifies gfr stream segs ↔ ∃ p, transfer gfr segs = some p ∧ p.ret ≠ 0 := by
    constructor
    · rintro ⟨p, hp, h0, _⟩
      exact ⟨p, hp, fun hz => hnc (h0.mp hz)⟩
    · rintro ⟨p, hp, hne⟩
      exact ⟨p, hp, ⟨fun hz => absurd hz hne, fun hs => absurd hs hnc⟩,
        fun st hs => absurd ⟨st, hs⟩ hnc, fun hno => absurd hhead hno⟩
  rw [hcl]
  unfold NotTaken
  rcases transfer_cases hh hseg hread with ⟨h, p, hp, _, hret⟩ | ⟨st, hst, h, p, hp, _, hret⟩ |
    ⟨a, b, c, h, hb, ⟨ho, p, hp, _, hiff⟩ | ⟨hlt, hp⟩⟩
  · exact ⟨fun _ => Or.inl h, fun _ => ⟨p, hp, by rw [hret]; decide⟩⟩
  · constructor
    · rintro ⟨p', hp', hne⟩
      rw [hp, Option.some.injEq] at hp'
      exact absurd (hp' ▸ hret) hne
    · rintro (hinv | ⟨a, b, c, h3, hb, _⟩)
      · exact absurd hinv (not_invalid_of_status hst h)
      · rw [h3] at h
        have hbs : b = statusToken st := Option.some.inj h
        rcases hst with rfl | rfl
        · exact absurd hbs hb.2.1
        · exact absurd hbs hb.2.2
  · constructor
    · rintro ⟨p', hp', hne⟩
      rw [hp, Option.some.injEq] at hp'
      subst hp'
      exact Or.inr ⟨a, b, c, h, hb, ho, fun ht => hne (hiff.mpr ht)⟩
    · rintro (hinv | ⟨a', b', c', h', _, _, hnt⟩)
      · exact absurd (h ▸ hinv) (not_invalid_of_other hb)
      · rw [h, Tokens.three.injEq] at h'
        obtain ⟨rfl, rfl, rfl⟩ := h'
        exact ⟨p, hp, fun hz => hnt (hiff.mp hz)⟩
  · constructor
    · rintro ⟨p', hp', _⟩
      rw [hp] at hp'
      cases hp'
    · rintro (hinv | ⟨a', b', c', h', _, ho, _⟩)
      · exact absurd (h ▸ hinv) (not_invalid_of_other hb)
      · rw [h, Tokens.three.injEq] at h'
        obtain ⟨rfl, rfl, rfl⟩ := h'
        omega

/-- A FILE_NOT_FOUND or ERROR response: right iff it came in one piece. -/
theorem classifies_statusHeader {st : GfStatus} (hst : st = .fileNotFound ∨ st = .error)
    (hh : gfr.headerfunc = true) (hseg : Segmentation bufSize (statusHeader st) segs)
    (hread : Readable (firstRecv segs)) (hc : Complete (statusHeader st) st) :
    Classifies gfr (statusHeader st) segs ↔ firstRecv segs = statusHeader st := by
  have hpre := firstRecv_prefix_stream hseg
  constructor
  · rintro ⟨p, hp, h0, _⟩
    by_contra hne
    -- a proper part of the header reads as invalid
    have hlt : (firstRecv segs).length < (statusHeader st).length := by
      rcases Nat.lt_or_ge (firstRecv segs).length (statusHeader st).length with h | h
      · exact h
      · exact absurd (hpre.eq_of_length_le h) hne
    have htake : firstRecv segs = (statusHeader st).take (firstRecv segs).length :=
      List.prefix_iff_eq_take.mp hpre
    have hall : ∀ n < (statusHeader st).length,
        ReadAsInvalid (splitHeader (text ((statusHeader st).take n))) := by
      rcases hst with rfl | rfl <;> decide
    have hinv := hall _ hlt
    rw [← htake] at hinv
    rcases transfer_cases hh hseg hread with ⟨_, p', hp', _, hret⟩ | ⟨st', hst', h', _⟩ |
      ⟨a, b, c, h', hb, _⟩
    · rw [hp, Option.some.injEq] at hp'
      subst hp'
      rw [h0.mpr ⟨st, hc⟩] at hret
      cases hret
    · exact not_invalid_of_status hst' h' hinv
    · exact not_invalid_of_other hb (h' ▸ hinv)
  · intro hfirst
    have htok : secondToken (splitHeader (text (firstRecv segs))) = some (statusToken st) := by
      rw [hfirst]
      rcases hst with rfl | rfl <;> decide
    have hresp : performResponse gfr (firstRecv segs) (segs.tail.map some) =
        some ({ gfr with status := some st }, [], 0) := by
      rw [performResponse_eq hread, performTokens_status gfr _ _ hst htok]
    refine ⟨_, by rw [transfer_eq hh, hresp]; rfl, ⟨fun _ => ⟨st, hc⟩, fun _ => rfl⟩, ?_, ?_⟩
    · intro st' hc'
      rw [hc.unique hc']
    · exact fun hno => absurd hc.hasHeader hno

section OkHeader

variable {ds content : Bytes} {sp : Bool} (hds : IsLength ds)
  (hlen : digitsValue ds = content.length)

include hds hlen

/-- What `ComesComplete` says when the header is whole in the first `recv` result. -/
theorem comesComplete_okHeader {first : Bytes} (hfirst : firstRecv segs = okHeader ds sp ++ first)
    (hcont : first ++ segs.tail.flatten = content) :
    ComesComplete (okHeader ds sp ++ content) (firstRecv segs) ↔
      (bufSize ≤ digitsValue ds ∨ first.length = digitsValue ds ∨ content = []) := by
  unfold ComesComplete
  rw [hfirst]
  constructor
  · rintro (h | ⟨ds', sp', u, v, hds', hbig, _, h⟩)
    · rw [List.append_cancel_left h, hlen]
      exact Or.inr (Or.inl rfl)
    · rw [(okHeader_inj hds hds' h).1]
      exact Or.inl hbig
  · rintro (h | h | h)
    · exact Or.inr ⟨ds, sp, first, content, hds, h, rfl, rfl⟩
    · left
      have htail : segs.tail.flatten = [] := by
        have hflen := congrArg List.length hcont
        rw [List.length_append, h, hlen] at hflen
        exact List.length_eq_zero_iff.mp (by omega)
      rw [← hcont, htail, List.append_nil]
    · left
      rw [h] at hcont ⊢
      rw [(List.append_eq_nil_iff.mp hcont).1]

variable (hh : gfr.headerfunc = true)
  (hseg : Segmentation bufSize (okHeader ds sp ++ content) segs)

include hh hseg

/-- The header came whole: right iff the response is delivered. -/
theorem classifies_okHeader_whole {first : Bytes}
    (hfirst : firstRecv segs = okHeader ds sp ++ first)
    (hcont : first ++ segs.tail.flatten = content) (hread : Readable (okHeader ds sp ++ first)) :
    Classifies gfr (okHeader ds sp ++ content) segs ↔ DeliversOk gfr ds content segs := by
  have hc : Complete (okHeader ds sp ++ content) .ok := .ok sp hds hlen
  have hle : (okHeader ds sp ++ first).length ≤ bufSize := hfirst ▸ firstRecv_le hseg
  constructor
  · rintro ⟨p, hp, h0, _⟩
    rw [deliversOk_whole hh hds (by omega) hseg hfirst hcont hread]
    by_contra hno
    rw [not_or, not_or] at hno
    -- a short file of which something is missing is given up
    have hlt : first.length < digitsValue ds := by
      have hflen := congrArg List.length hcont
      rw [List.length_append] at hflen
      omega
    have hret : p.ret = -1 := by
      rw [transfer_eq hh, hfirst,
        performResponse_short gfr hds hread hle _ (by omega) hlt] at hp
      cases hp
      rfl
    rw [h0.mpr ⟨_, hc⟩] at hret
    cases hret
  · rintro ⟨p, hp, hst, _, _, _, hret⟩
    rw [if_pos hlen.symm] at hret
    refine ⟨p, hp, ⟨fun _ => ⟨_, hc⟩, fun _ => hret⟩, ?_, fun hno => absurd hc.hasHeader hno⟩
    intro st' hc'
    rw [hc.unique hc', hst]

/-- The header is cut by the end of the first `recv` result: GF_INVALID, or undefined. -/
theorem not_classifies_okHeader_cut (hcut : firstRecv segs <+: okHeader ds sp)
    (hlt : (firstRecv segs).length < (okHeader ds sp).length) :
    ¬ Classifies gfr (okHeader ds sp ++ content) segs := by
  rintro ⟨p, hp, _, hst, _⟩
  rw [transfer_eq hh] at hp
  rcases performResponse_cut hds hcut hlt (firstRecv_le hseg) (segs.tail.map some) with h | h
  · rw [h] at hp
    cases hp
    cases hst _ (.ok sp hds hlen)
  · rw [h] at hp
    cases hp

/-- A complete OK response: right iff the header came whole and either the file is long or
all of it came along. -/
theorem classifies_okHeader (hread : Readable (firstRecv segs)) :
    Classifies gfr (okHeader ds sp ++ content) segs ↔
      ComesComplete (okHeader ds sp ++ content) (firstRecv segs) := by
  rcases firstRecv_header hseg with ⟨first, hfirst, hcont⟩ | ⟨hcut, hlt⟩
  · have hread' : Readable (okHeader ds sp ++ first) := hfirst ▸ hread
    rw [classifies_okHeader_whole hds hlen hh hseg hfirst hcont hread',
      deliversOk_whole hh hds (by omega) hseg hfirst hcont hread',
      comesComplete_okHeader hds hlen hfirst hcont]
  · constructor
    · exact fun h => absurd h (not_classifies_okHeader_cut hds hlen hh hseg hcut hlt)
    · rintro (h | ⟨ds', sp', u, v, hds', _, h, h'⟩)
      · rw [h, List.length_append] at hlt
        omega
      · obtain ⟨rfl, rfl, _⟩ := okHeader_inj hds hds' h'
        rw [h, List.length_append] at hlt
        omega

end OkHeader

/-- A complete response of any kind. -/
theorem classifies_complete (hh : gfr.headerfunc = true)
    (hseg : Segmentation bufSize stream segs) (hread : Readable (firstRecv segs))
    {st : GfStatus} (hc : Complete stream st) :
    Classifies gfr stream segs ↔ ComesComplete stream (firstRecv segs) := by
  have hstatus : ∀ {st : GfStatus}, st ≠ .ok →
      (ComesComplete (statusHeader st) (firstRecv segs) ↔ firstRecv segs = statusHeader st) := by
    intro st hst
    constructor
    · rintro (h | ⟨ds, sp, u, v, _, _, _, h⟩)
      · exact h
      · have hne := statusHeader_ne_okHeader hst [] ds sp v
        rw [List.append_nil] at hne
        exact absurd h hne
    · exact Or.inl
  cases hc with
  | ok sp hds hlen => exact classifies_okHeader hds hlen hh hseg hread
  | fileNotFound =>
    rw [hstatus (by decide)]
    exact classifies_statusHeader (Or.inl rfl) hh hseg hread .fileNotFound
  | error =>
    rw [hstatus (by decide)]
    exact classifies_statusHeader (Or.inr rfl) hh hseg hread .error

end Verdict

/-- **The client's verdict.** For every stream and every segmentation of it, the return value
and the status are the documented ones exactly when a header function is registered and the
first `recv` result is one the parser takes right. -/
theorem gfcPerform_classifies_iff (gfr : GfcRequest) (stream : Bytes) (segs : List Bytes)
    (hseg : Segmentation bufSize stream segs) :
    Classifies gfr stream segs ↔ gfr.headerfunc = true ∧ TakesRight stream segs := by
  by_cases hh : gfr.headerfunc = true
  · simp only [hh, true_and]
    by_cases hread : Readable (firstRecv segs)
    · by_cases hc : ∃ st, Complete stream st
      · obtain ⟨st, hc⟩ := hc
        rw [classifies_complete hh hseg hread hc]
        constructor
        · exact fun h => ⟨hread, fun _ => h, fun _ hno => absurd ⟨st, hc⟩ hno,
            fun hno => absurd hc.hasHeader hno⟩
        · exact fun h => h.complete ⟨st, hc⟩
      · by_cases hhead : HasHeader stream
        · rw [classifies_incomplete hh hseg hread hhead hc]
          constructor
          · exact fun h => ⟨hread, fun hc' => absurd hc' hc, fun _ _ => h,
              fun hno => absurd hhead hno⟩
          · exact fun h => h.incomplete hhead hc
        · rw [classifies_malformed hh hseg hread hhead]
          constructor
          · exact fun h => ⟨hread, fun hc' => absurd hc' hc, fun hyes => absurd hyes hhead,
              fun _ => h⟩
          · exact fun h => h.malformed hhead
    · constructor
      · rintro ⟨p, hp, _⟩
        rw [transfer_eq hh, performResponse_unreadable hread] at hp
        cases hp
      · exact fun h => absurd h.readable hread
  · have hf : gfr.headerfunc = false := by simpa using hh
    constructor
    · rintro ⟨p, hp, _⟩
      rw [transfer_no_headerfunc hf] at hp
      cases hp
    · exact fun h => absurd h.1 hh

/-- A FILE_NOT_FOUND response in one piece gets its verdict. -/
theorem gfcPerform_classifies_not_found :
    Classifies demoRequest (statusHeader .fileNotFound) [statusHeader .fileNotFound] :=
  (gfcPerform_classifies_iff demoRequest _ _ ⟨by decide, by decide, by decide⟩).mpr
    ⟨rfl, by decide, fun _ => Or.inl rfl, fun _ h => absurd ⟨_, .fileNotFound⟩ h,
      fun h => absurd Complete.fileNotFound.hasHeader h⟩

/-- `HTTP OK 3\r\n\r\nabc` has no Getfile header, and the call returns 0 with GF_OK. -/
theorem gfcPerform_accepts_wrong_scheme :
    Segmentation bufSize (ascii "HTTP OK 3\r\n\r\nabc") [ascii "HTTP OK 3\r\n\r\nabc"] ∧
    ¬ Classifies demoRequest (ascii "HTTP OK 3\r\n\r\nabc")
      [ascii "HTTP OK 3\r\n\r\nabc"] := by
  refine ⟨⟨by decide, by decide, by decide⟩, ?_⟩
  have hrun : (transfer demoRequest [ascii "HTTP OK 3\r\n\r\nabc"]).map Performed.ret =
      some 0 := by decide
  have hhead : ¬ HasHeader (ascii "HTTP OK 3\r\n\r\nabc") := by
    have hH : (ascii "HTTP OK 3\r\n\r\nabc").head? = some 72 := by decide
    have hG : ascii "GETFILE OK " = 71 :: ascii "ETFILE OK " := by decide
    have hS : ascii "GETFILE " = 71 :: ascii "ETFILE " := by decide
    intro h
    generalize ascii "HTTP OK 3\r\n\r\nabc" = stream at h hH
    cases h with
    | ok sp rest _ => simp [okHeader, hG] at hH
    | status rest _ => simp [statusHeader, hS] at hH
  rintro ⟨p, hp, _, _, hbad⟩
  rw [hp, Option.map_some, Option.some.injEq] at hrun
  have hneg := (hbad hhead).1
  rw [hrun] at hneg
  exact absurd hneg (by decide)

end IntroOS.Getfile
