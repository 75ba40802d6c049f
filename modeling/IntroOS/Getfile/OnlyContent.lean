import IntroOS.Getfile.ClientVerdict

/-! # What `gfc_perform` writes is content

`writefunc` is called in two places. A short file is passed on with as many bytes as came behind the
header, of which only the announced ones are copied; a long one with whatever the last `recv`
returned.

* `OnlyContent`: what is written is a prefix of the content, of at most `filelen` bytes;
* `recvLoop_within`, `recvLoop_beyond`: the loop, by whether a piece straddles the end;
* `gfcPerform_only_content_iff`: the streams and segmentations without a wrong byte.
-/

namespace IntroOS.Getfile

/-- The stream begins with a grammatical OK header. -/
def HasOkHeader (stream : Bytes) : Prop :=
  ∃ ds sp content, IsLength ds ∧ stream = okHeader ds sp ++ content

/-- The content of a stream is what is behind its OK header. -/
inductive Content : Bytes → Bytes → Prop where
  | ok {ds : Bytes} (sp : Bool) (content : Bytes) : IsLength ds → Content (okHeader ds sp ++ content) content
  | none {stream : Bytes} : ¬ HasOkHeader stream → Content stream []

/-- Nothing but content is written, byte for byte as it was received, and no more than `filelen`. -/
def OnlyContent (gfr : GfcRequest) (stream : Bytes) (segs : List Bytes) : Prop :=
  ∃ p content, transfer gfr segs = some p ∧ Content stream content ∧
    p.writeCalls.flatten <+: content.map some ∧
    ∀ n, p.gfr.filelen = some n → p.writeCalls.flatten.length ≤ n

/-- No piece begins before the end of the announced content and ends behind it. -/
def NoneStraddles (filelen received : Nat) (segs : List Bytes) : Prop :=
  ∀ before q after, segs = before ++ q :: after → received + before.flatten.length < filelen →
    received + before.flatten.length + q.length ≤ filelen

/-- What must hold of tokens that are taken for an OK response of `filelen` bytes and end at `off`
in the first `recv` result `r`: a short file is given up or came along exactly, a long one has no
piece across its end. Without a grammatical header there may be no byte to write at all. -/
structure TakesContent (stream r : Bytes) (tail : List Bytes) (off filelen : Nat) : Prop where
  inside : off ≤ r.length
  short : filelen < bufSize → r.length - off < filelen ∨
    (r.length - off = filelen ∧ (HasOkHeader stream ∨ filelen = 0))
  long : bufSize ≤ filelen → (HasOkHeader stream ∧ NoneStraddles filelen (r.length - off) tail) ∨
    (r.length = off ∧ tail = [])

/-! ## The loop -/

theorem noneStraddles_nil (filelen received : Nat) : NoneStraddles filelen received [] := by
  intro before q after heq
  exact absurd heq.symm (List.append_ne_nil_of_right_ne_nil before (List.cons_ne_nil q after))

theorem noneStraddles_cons {filelen received : Nat} {q : Bytes} {segs : List Bytes} :
    NoneStraddles filelen received (q :: segs) ↔
      (received < filelen → received + q.length ≤ filelen) ∧
        NoneStraddles filelen (received + q.length) segs := by
  constructor
  · intro h
    refine ⟨fun hlt => h [] q segs rfl hlt, ?_⟩
    intro before q' after heq hlt
    have hmore : received + (q :: before).flatten.length =
        received + q.length + before.flatten.length := by
      rw [List.flatten_cons, List.length_append, Nat.add_assoc]
    rw [← hmore] at hlt ⊢
    exact h (q :: before) q' after (by rw [heq, List.cons_append]) hlt
  · rintro ⟨hhead, htail⟩ before q' after heq hlt
    cases before with
    | nil =>
      cases heq
      exact hhead hlt
    | cons b before =>
      cases heq
      rw [List.flatten_cons, List.length_append, ← Nat.add_assoc] at hlt ⊢
      exact htail before q' after rfl hlt

/-- Once everything announced is there, no piece can straddle. -/
theorem noneStraddles_of_le {filelen received : Nat} (h : filelen ≤ received) (segs : List Bytes) :
    NoneStraddles filelen received segs := by
  intro before q after _ hlt
  omega

/-- One more round of the loop. -/
theorem recvLoop_cons {filelen numbytes received : Nat} (hn : 0 < numbytes)
    (hlt : received < filelen) {q : Bytes} {rest : List (Option Bytes)} {n : Nat}
    {calls : List (List Cell)} {failed : Bool}
    (h : recvLoop filelen rest q.length ((received + q.length) % 2 ^ 64) = (n, calls, failed)) :
    recvLoop filelen (some q :: rest) numbytes received = (n, q.map some :: calls, failed) := by
  rw [recvLoop]
  simp only [hn, hlt, and_self, if_true, h]

/-- Without a straddling piece the loop passes on content only, and at most what was announced. -/
theorem recvLoop_within {filelen : Nat} (hF : filelen < 2 ^ 64) (segs : List Bytes)
    (hne : ∀ q ∈ segs, q ≠ []) {numbytes received : Nat} (hn : 0 < numbytes)
    (hle : received ≤ filelen) (h : NoneStraddles filelen received segs) :
    ∃ n, ∃ calls : List (List Cell),
      recvLoop filelen (segs.map some) numbytes received = (n, calls, false) ∧
      calls.flatten <+: segs.flatten.map some ∧ received + calls.flatten.length ≤ filelen := by
  induction segs generalizing numbytes received with
  | nil =>
    rw [List.map_nil, recvLoop]
    by_cases hlt : received < filelen
    · exact ⟨received, [[]], by simp [hn, hlt], List.prefix_rfl, hle⟩
    · exact ⟨received, [], by simp [hlt], List.prefix_rfl, hle⟩
  | cons q segs ih =>
    by_cases hlt : received < filelen
    · rcases noneStraddles_cons.mp h with ⟨hhead, htail⟩
      have hq : 0 < q.length := List.length_pos_iff.mpr (hne q List.mem_cons_self)
      have hle' := hhead hlt
      have hmod : (received + q.length) % 2 ^ 64 = received + q.length :=
        Nat.mod_eq_of_lt (lt_of_le_of_lt hle' hF)
      rcases ih (fun p hp => hne p (List.mem_cons_of_mem q hp)) hq hle' htail with
        ⟨n, calls, hloop, hprefix, hbound⟩
      rw [← hmod] at hloop
      refine ⟨n, q.map some :: calls, recvLoop_cons hn hlt hloop, ?_, ?_⟩
      · rw [List.flatten_cons, List.flatten_cons, List.map_append, List.prefix_append_right_inj]
        exact hprefix
      · rw [List.flatten_cons, List.length_append, List.length_map, ← Nat.add_assoc]
        exact hbound
    · rw [List.map_cons, recvLoop]
      exact ⟨received, [], by simp [hlt], List.nil_prefix, hle⟩

/-- With one the loop passes on more than was announced. -/
theorem recvLoop_beyond {filelen : Nat} (hF : filelen < 2 ^ 64) (segs : List Bytes)
    (hne : ∀ q ∈ segs, q ≠ []) {numbytes received : Nat} (hn : 0 < numbytes)
    (hle : received ≤ filelen) (h : ¬ NoneStraddles filelen received segs) :
    ∃ n, ∃ calls : List (List Cell),
      recvLoop filelen (segs.map some) numbytes received = (n, calls, false) ∧
      filelen < received + calls.flatten.length := by
  induction segs generalizing numbytes received with
  | nil => exact absurd (noneStraddles_nil filelen received) h
  | cons q segs ih =>
    have hlt : received < filelen := by
      by_contra hge
      exact h (noneStraddles_of_le (Nat.le_of_not_lt hge) _)
    have hq : 0 < q.length := List.length_pos_iff.mpr (hne q List.mem_cons_self)
    have hne' : ∀ p ∈ segs, p ≠ [] := fun p hp => hne p (List.mem_cons_of_mem q hp)
    by_cases hle' : received + q.length ≤ filelen
    · have hmod : (received + q.length) % 2 ^ 64 = received + q.length :=
        Nat.mod_eq_of_lt (lt_of_le_of_lt hle' hF)
      have htail : ¬ NoneStraddles filelen (received + q.length) segs := by
        intro htail
        exact h (noneStraddles_cons.mpr ⟨fun _ => hle', htail⟩)
      rcases ih hne' hq hle' htail with ⟨n, calls, hloop, hbound⟩
      rw [← hmod] at hloop
      refine ⟨n, q.map some :: calls, recvLoop_cons hn hlt hloop, ?_⟩
      rw [List.flatten_cons, List.length_append, List.length_map, ← Nat.add_assoc]
      exact hbound
    · -- this piece is the one
      have hmod : (received + q.length) % 2 ^ 64 < 2 ^ 64 := Nat.mod_lt _ (Nat.two_pow_pos 64)
      rcases recvLoop_exact filelen segs hne' hq hmod with ⟨n, calls, hloop, _⟩
      refine ⟨n, q.map some :: calls, recvLoop_cons hn hlt hloop, ?_⟩
      rw [List.flatten_cons, List.length_append, List.length_map]
      omega

/-- Behind a first piece the loop passes something on as soon as there is another one. -/
theorem recvLoop_some {filelen : Nat} {q : Bytes} {segs : List Bytes}
    (hne : ∀ p ∈ q :: segs, p ≠ []) {numbytes received : Nat} (hn : 0 < numbytes)
    (hlt : received < filelen) :
    ∃ n, ∃ calls : List (List Cell),
      recvLoop filelen ((q :: segs).map some) numbytes received = (n, q.map some :: calls, false) := by
  have hq : 0 < q.length := List.length_pos_iff.mpr (hne q List.mem_cons_self)
  have hmod : (received + q.length) % 2 ^ 64 < 2 ^ 64 := Nat.mod_lt _ (Nat.two_pow_pos 64)
  rcases recvLoop_exact filelen segs (fun p hp => hne p (List.mem_cons_of_mem q hp)) hq hmod with
    ⟨n, calls, hloop, _⟩
  exact ⟨n, calls, recvLoop_cons hn hlt hloop⟩

/-! ## The two paths -/

theorem strtoul_lt (s : Bytes) : strtoul s < 2 ^ 64 := by
  unfold strtoul
  split
  split
  · omega
  · split
    · exact Nat.mod_lt _ (Nat.two_pow_pos 64)
    · omega

theorem exists_content (stream : Bytes) : ∃ content, Content stream content := by
  by_cases h : HasOkHeader stream
  · rcases h with ⟨ds, sp, content, hds, rfl⟩
    exact ⟨content, .ok sp content hds⟩
  · exact ⟨[], .none h⟩

/-- The content of a stream without a header. -/
theorem Content.eq_nil {stream content : Bytes} (h : Content stream content)
    (hno : ¬ HasOkHeader stream) : content = [] := by
  cases h with
  | ok sp content hds => exact absurd ⟨_, sp, content, hds, rfl⟩ hno
  | none => rfl

section Paths

variable {gfr : GfcRequest} {stream : Bytes} {segs : List Bytes} {a b c : Bytes}
  (hh : gfr.headerfunc = true) (hseg : Segmentation bufSize stream segs)
  (hread : Readable (firstRecv segs))
  (htok : splitHeader (text (firstRecv segs)) = .three a b c) (hb : OtherStatus b)

include hh hread in
/-- The property in terms of what the code makes of the tokens. -/
theorem onlyContent_iff :
    OnlyContent gfr stream segs ↔ ∃ gfr' calls ret content,
      performTokens gfr (firstRecv segs) (segs.tail.map some)
        (splitHeader (text (firstRecv segs))) = some (gfr', calls, ret) ∧
      Content stream content ∧ calls.flatten <+: content.map some ∧
      ∀ n, gfr'.filelen = some n → calls.flatten.length ≤ n := by
  unfold OnlyContent
  rw [transfer_eq hh, performResponse_eq hread]
  constructor
  · rintro ⟨p, content, hp, hrest⟩
    rcases Option.map_eq_some_iff.mp hp with ⟨⟨gfr', calls, ret⟩, hrun, rfl⟩
    exact ⟨gfr', calls, ret, content, hrun, hrest⟩
  · rintro ⟨gfr', calls, ret, content, hrun, hrest⟩
    refine ⟨⟨gfr', [requestString gfr.path], calls, ret⟩, content, ?_, hrest⟩
    rw [hrun, Option.map_some]

include hh hread in
/-- Tokens on which the code answers without content. -/
theorem onlyContent_nothing {gfr' : GfcRequest} {ret : Int}
    (h : performTokens gfr (firstRecv segs) (segs.tail.map some)
      (splitHeader (text (firstRecv segs))) = some (gfr', [], ret)) :
    OnlyContent gfr stream segs := by
  rw [onlyContent_iff hh hread]
  rcases exists_content stream with ⟨content, hcontent⟩
  exact ⟨gfr', [], ret, content, h, hcontent, List.nil_prefix, fun n _ => Nat.zero_le n⟩

include hseg htok hb in
/-- With a grammatical header, tokens that end inside the first `recv` result end where it does. -/
theorem content_eq (hin : bodyOffset a b c ≤ (firstRecv segs).length) {content : Bytes}
    (hcontent : Content stream content) (hok : HasOkHeader stream) :
    content = (firstRecv segs).drop (bodyOffset a b c) ++ segs.tail.flatten := by
  cases hcontent with
  | none hno => exact absurd hok hno
  | @ok ds sp content hds =>
    rcases firstRecv_header hseg with ⟨first, hfirst, hcont⟩ | ⟨hcut, hlt⟩
    · rw [hfirst, text_append (okHeader_nul_free hds sp),
        splitHeader_eq_three.mpr ⟨_, okHeader_splits hds sp (text first)⟩, Tokens.three.injEq] at htok
      rcases htok with ⟨rfl, rfl, rfl⟩
      rw [hfirst, drop_okHeader, hcont]
    · have h0 : 0 ∉ firstRecv segs := fun h => okHeader_nul_free hds sp (hcut.subset h)
      rw [text_of_nul_free h0] at htok
      rcases okHeader_cut hds hcut hlt with hinv | ⟨c', hc', hbehind, _⟩
      · rw [htok] at hinv
        exact absurd hinv (not_invalid_of_other hb)
      · rw [htok, Tokens.three.injEq] at hc'
        rcases hc' with ⟨rfl, rfl, rfl⟩
        omega

include hseg htok hb in
theorem content_hasOk (hin : bodyOffset a b c ≤ (firstRecv segs).length)
    (hok : HasOkHeader stream) :
    Content stream ((firstRecv segs).drop (bodyOffset a b c) ++ segs.tail.flatten) := by
  rcases exists_content stream with ⟨content, hcontent⟩
  rw [← content_eq hseg htok hb hin hcontent hok]
  exact hcontent

variable (hin : bodyOffset a b c ≤ (firstRecv segs).length)

include hh hseg hread htok hb hin

/-- A short file that came along as a whole: nothing came behind it, and it is content. -/
theorem onlyContent_whole (hF : strtoul c < bufSize)
    (hge : strtoul c ≤ (firstRecv segs).length - bodyOffset a b c) :
    OnlyContent gfr stream segs ↔
      (firstRecv segs).length - bodyOffset a b c = strtoul c ∧
        (HasOkHeader stream ∨ strtoul c = 0) := by
  have hle := firstRecv_le hseg
  rw [onlyContent_iff hh hread, htok, performTokens_other gfr _ _ hb,
    performOk_whole gfr _ _ a b c hle hin hF hge]
  constructor
  · rintro ⟨gfr', calls, ret, content, hrun, hcontent, hprefix, hbound⟩
    cases hrun
    have hlength := hbound _ rfl
    rw [List.flatten_singleton, List.length_append, List.length_map, List.length_take,
      List.length_drop, List.length_replicate] at hlength
    have hall : (firstRecv segs).length - bodyOffset a b c = strtoul c := by omega
    refine ⟨hall, ?_⟩
    by_contra hno
    rw [not_or] at hno
    rw [hcontent.eq_nil hno.1, List.map_nil, List.prefix_nil, List.flatten_singleton] at hprefix
    have hzero := congrArg List.length hprefix
    rw [List.length_append, List.length_map, List.length_take, List.length_drop,
      List.length_nil] at hzero
    omega
  · rintro ⟨hall, hok⟩
    have htake : ((firstRecv segs).drop (bodyOffset a b c)).take (strtoul c) =
        (firstRecv segs).drop (bodyOffset a b c) := by
      rw [List.take_eq_self_iff, List.length_drop]
      omega
    have hlength : ((firstRecv segs).drop (bodyOffset a b c)).length ≤ strtoul c := by
      rw [List.length_drop]
      omega
    rw [htake, hall, Nat.sub_self, List.replicate_zero, List.append_nil]
    rcases hok with hok | hzero
    · refine ⟨_, _, _, _, rfl, content_hasOk hseg htok hb hin hok, ?_, ?_⟩
      · rw [List.flatten_singleton, List.map_append]
        exact List.prefix_append _ _
      · intro n hn
        cases hn
        rw [List.flatten_singleton, List.length_map]
        exact hlength
    · have hnil : (firstRecv segs).drop (bodyOffset a b c) = [] :=
        List.length_eq_zero_iff.mp (by omega)
      rcases exists_content stream with ⟨content, hcontent⟩
      refine ⟨_, _, _, content, rfl, hcontent, ?_, ?_⟩
      · rw [hnil]
        exact List.nil_prefix
      · intro n _
        rw [hnil]
        exact Nat.zero_le n

/-- A short file: the bytes that came along are as many as announced, or too few. -/
theorem onlyContent_short (hF : strtoul c < bufSize) :
    OnlyContent gfr stream segs ↔
      (firstRecv segs).length - bodyOffset a b c < strtoul c ∨
        ((firstRecv segs).length - bodyOffset a b c = strtoul c ∧
          (HasOkHeader stream ∨ strtoul c = 0)) := by
  by_cases hlt : (firstRecv segs).length - bodyOffset a b c < strtoul c
  · rw [or_iff_left_of_imp fun h => absurd h.1 (Nat.ne_of_lt hlt), iff_true_right hlt]
    have hshort := performOk_short gfr _ (segs.tail.map some) a b c (firstRecv_le hseg) hin hF hlt
    rw [← performTokens_other gfr _ _ hb, ← htok] at hshort
    exact onlyContent_nothing hh hread hshort
  · rw [or_iff_right hlt]
    exact onlyContent_whole hh hseg hread htok hb hin hF (Nat.le_of_not_lt hlt)

omit hh hseg hread htok hb in
theorem firstRecv_pos : 0 < (firstRecv segs).length := by
  have hoff : 0 < bodyOffset a b c := by
    unfold bodyOffset
    omega
  omega

omit hh hread htok hb in
/-- Less than a buffer came along, so a long file has more to come. -/
theorem received_lt (hF : bufSize ≤ strtoul c) :
    (firstRecv segs).length - bodyOffset a b c < strtoul c := by
  have hle := firstRecv_le hseg
  have hterm : (ascii "\r\n\r\n").length = 4 := by decide
  unfold bodyOffset at hin ⊢
  omega

/-- A long file with a header: no piece straddles the end. -/
theorem onlyContent_long_header (hF : bufSize ≤ strtoul c) (hok : HasOkHeader stream) :
    OnlyContent gfr stream segs ↔
      NoneStraddles (strtoul c) ((firstRecv segs).length - bodyOffset a b c) segs.tail := by
  have hle := firstRecv_le hseg
  have hpos := firstRecv_pos hin
  have hreceived := received_lt hseg hin hF
  have hne : ∀ q ∈ segs.tail, q ≠ [] := fun q hq => hseg.ne q (List.mem_of_mem_tail hq)
  rw [onlyContent_iff hh hread, htok, performTokens_other gfr _ _ hb]
  by_cases hnone : NoneStraddles (strtoul c) ((firstRecv segs).length - bodyOffset a b c) segs.tail
  · rcases recvLoop_within (strtoul_lt c) segs.tail hne hpos (Nat.le_of_lt hreceived) hnone with
      ⟨n, calls, hloop, hprefix, hbound⟩
    rw [performOk_long gfr _ _ a b c hle hin hF hloop]
    refine ⟨fun _ => hnone, fun _ => ⟨_, _, _, _, rfl, content_hasOk hseg htok hb hin hok, ?_, ?_⟩⟩
    · rw [List.flatten_cons, List.map_append, List.prefix_append_right_inj]
      exact hprefix
    · intro m hm
      cases hm
      rw [List.flatten_cons, List.length_append, List.length_map, List.length_drop]
      exact hbound
  · rcases recvLoop_beyond (strtoul_lt c) segs.tail hne hpos (Nat.le_of_lt hreceived) hnone with
      ⟨n, calls, hloop, hbeyond⟩
    rw [performOk_long gfr _ _ a b c hle hin hF hloop]
    refine iff_of_false ?_ hnone
    rintro ⟨gfr', calls', ret, content, hrun, _, _, hbound⟩
    cases hrun
    have hlength := hbound _ rfl
    rw [List.flatten_cons, List.length_append, List.length_map, List.length_drop] at hlength
    omega

/-- A long file without a header: there is no byte to write. -/
theorem onlyContent_long_none (hF : bufSize ≤ strtoul c) (hno : ¬ HasOkHeader stream) :
    OnlyContent gfr stream segs ↔
      (firstRecv segs).length = bodyOffset a b c ∧ segs.tail = [] := by
  have hle := firstRecv_le hseg
  have hpos := firstRecv_pos hin
  have hreceived := received_lt hseg hin hF
  have hne : ∀ q ∈ segs.tail, q ≠ [] := fun q hq => hseg.ne q (List.mem_of_mem_tail hq)
  rw [onlyContent_iff hh hread, htok, performTokens_other gfr _ _ hb]
  cases htail : segs.tail with
  | nil =>
    rcases recvLoop_within (strtoul_lt c) [] (List.forall_mem_nil _) hpos (Nat.le_of_lt hreceived)
      (noneStraddles_nil _ _) with ⟨n, calls, hloop, hprefix, _⟩
    have hcalls : calls.flatten = [] := List.prefix_nil.mp hprefix
    rw [performOk_long gfr _ _ a b c hle hin hF hloop]
    constructor
    · rintro ⟨gfr', calls', ret, content, hrun, hcontent, hprefix', _⟩
      cases hrun
      rw [hcontent.eq_nil hno, List.map_nil, List.prefix_nil, List.flatten_cons, hcalls,
        List.append_nil, List.map_eq_nil_iff, List.drop_eq_nil_iff] at hprefix'
      exact ⟨by omega, rfl⟩
    · rintro ⟨hall, _⟩
      have hdrop : (firstRecv segs).drop (bodyOffset a b c) = [] :=
        List.drop_eq_nil_iff.mpr (Nat.le_of_eq hall)
      have hflat : (((firstRecv segs).drop (bodyOffset a b c)).map some :: calls).flatten = [] := by
        rw [List.flatten_cons, hcalls, hdrop]
        rfl
      refine ⟨_, _, _, _, rfl, .none hno, ?_, ?_⟩
      · rw [hflat]
        exact List.nil_prefix
      · intro m _
        rw [hflat]
        exact Nat.zero_le m
  | cons q rest =>
    rcases recvLoop_some (htail ▸ hne) hpos hreceived with ⟨n, calls, hloop⟩
    rw [performOk_long gfr _ _ a b c hle hin hF hloop]
    constructor
    · rintro ⟨gfr', calls', ret, content, hrun, hcontent, hprefix, _⟩
      cases hrun
      -- another piece was passed on
      rw [hcontent.eq_nil hno, List.map_nil, List.prefix_nil, List.flatten_cons, List.flatten_cons,
        List.append_eq_nil_iff, List.append_eq_nil_iff, List.map_eq_nil_iff] at hprefix
      exact absurd (List.map_eq_nil_iff.mp hprefix.2.1) (hne q (htail ▸ List.mem_cons_self))
    · rintro ⟨_, hnil⟩
      cases hnil

/-- A long file. -/
theorem onlyContent_long (hF : bufSize ≤ strtoul c) :
    OnlyContent gfr stream segs ↔
      (HasOkHeader stream ∧ NoneStraddles (strtoul c)
        ((firstRecv segs).length - bodyOffset a b c) segs.tail) ∨
      ((firstRecv segs).length = bodyOffset a b c ∧ segs.tail = []) := by
  by_cases hok : HasOkHeader stream
  · rw [onlyContent_long_header hh hseg hread htok hb hin hF hok, and_iff_right hok]
    constructor
    · intro hnone
      exact Or.inl hnone
    · rintro (hnone | ⟨_, hnil⟩)
      · exact hnone
      · rw [hnil]
        exact noneStraddles_nil _ _
  · rw [onlyContent_long_none hh hseg hread htok hb hin hF hok]
    exact (or_iff_right fun h => hok h.1).symm

omit hin in
/-- Tokens that are taken for an OK response. -/
theorem onlyContent_ok :
    OnlyContent gfr stream segs ↔
      TakesContent stream (firstRecv segs) segs.tail (bodyOffset a b c) (strtoul c) := by
  by_cases hin : bodyOffset a b c ≤ (firstRecv segs).length
  · by_cases hF : strtoul c < bufSize
    · rw [onlyContent_short hh hseg hread htok hb hin hF]
      constructor
      · intro h
        exact ⟨hin, fun _ => h, fun hlong => absurd hF (Nat.not_lt_of_le hlong)⟩
      · intro h
        exact h.short hF
    · have hlong : bufSize ≤ strtoul c := Nat.le_of_not_lt hF
      rw [onlyContent_long hh hseg hread htok hb hin hlong]
      constructor
      · intro h
        exact ⟨hin, fun hshort => absurd hshort hF, fun _ => h⟩
      · intro h
        exact h.long hlong
  · constructor
    · rw [onlyContent_iff hh hread, htok, performTokens_other gfr _ _ hb,
        performOk_underflow gfr _ _ a b c (firstRecv_le hseg) (Nat.lt_of_not_le hin)
          (bodyOffset_le htok)]
      rintro ⟨_, _, _, _, hrun, _⟩
      cases hrun
    · intro h
      exact absurd h.inside hin

end Paths

/-- **Only content.** For every stream and every segmentation of it: nothing but content is written,
and no more than `filelen`, exactly if a header function is registered, the first `recv` result
leaves a NUL in the buffer, and tokens of it that are taken for an OK response are ones that the
code takes right. -/
theorem gfcPerform_only_content_iff (gfr : GfcRequest) (stream : Bytes) (segs : List Bytes)
    (hseg : Segmentation bufSize stream segs) :
    OnlyContent gfr stream segs ↔
      gfr.headerfunc = true ∧ Readable (firstRecv segs) ∧
        ∀ a b c, splitHeader (text (firstRecv segs)) = .three a b c → OtherStatus b →
          TakesContent stream (firstRecv segs) segs.tail (bodyOffset a b c) (strtoul c) := by
  cases hh : gfr.headerfunc with
  | false =>
    constructor
    · rintro ⟨p, _, hp, _⟩
      rw [transfer_no_headerfunc hh] at hp
      cases hp
    · rintro ⟨h, _⟩
      cases h
  | true =>
    by_cases hread : Readable (firstRecv segs)
    · rw [and_iff_right rfl, and_iff_right hread]
      rcases tokens_cases (splitHeader (text (firstRecv segs))) with hinv | ⟨st, hst, hsecond⟩ |
        ⟨a, b, c, htok, hb⟩
      · refine ⟨fun _ a b c htok hb => ?_, fun _ =>
          onlyContent_nothing hh hread (performTokens_invalid gfr _ _ hinv)⟩
        rw [htok] at hinv
        exact absurd hinv (not_invalid_of_other hb)
      · refine ⟨fun _ a b c htok hb => ?_, fun _ =>
          onlyContent_nothing hh hread (performTokens_status gfr _ _ hst hsecond)⟩
        rw [htok] at hsecond
        have hstatus : b = statusToken st := Option.some.inj hsecond
        rcases hst with rfl | rfl
        · exact absurd hstatus hb.2.1
        · exact absurd hstatus hb.2.2
      · rw [onlyContent_ok hh hseg hread htok hb]
        constructor
        · intro h a' b' c' htok' _
          rw [htok, Tokens.three.injEq] at htok'
          rcases htok' with ⟨rfl, rfl, rfl⟩
          exact h
        · intro h
          exact h a b c htok hb
    · constructor
      · rintro ⟨p, _, hp, _⟩
        rw [transfer_eq hh, performResponse_unreadable hread] at hp
        cases hp
      · rintro ⟨_, h, _⟩
        exact absurd h hread

/-- Three bytes of three behind the header. -/
theorem gfcPerform_only_content_three :
    OnlyContent demoRequest (okHeader (ascii "3") true ++ ascii "abc")
      [okHeader (ascii "3") true ++ ascii "abc"] := by
  have hds : IsLength (ascii "3") := ⟨by decide, forall_of_all (by decide), by decide⟩
  refine (gfcPerform_only_content_iff demoRequest _ _ ⟨by decide, by decide, by decide⟩).mpr
    ⟨rfl, by decide, ?_⟩
  intro a b c htok _
  have hsplit : splitHeader (text (firstRecv [okHeader (ascii "3") true ++ ascii "abc"])) =
      .three (ascii "GETFILE") (ascii "OK") (ascii "3 ") := by decide
  rw [hsplit, Tokens.three.injEq] at htok
  rcases htok with ⟨rfl, rfl, rfl⟩
  refine ⟨by decide, fun _ => Or.inr ⟨by decide, Or.inl ?_⟩, fun hlong => ?_⟩
  · exact ⟨_, true, _, hds, rfl⟩
  · exact absurd hlong (by decide)

/-- A fourth byte behind three announced ones: a chunk of four is written, the last of them never
stored in it. -/
theorem gfcPerform_writes_surplus :
    ¬ ∀ (gfr : GfcRequest) (stream : Bytes) (segs : List Bytes), gfr.headerfunc = true →
      Segmentation bufSize stream segs → OnlyContent gfr stream segs := by
  intro h
  have hcontent := h demoRequest (okHeader (ascii "3") true ++ ascii "abcd")
    [okHeader (ascii "3") true ++ ascii "abcd"] rfl ⟨by decide, by decide, by decide⟩
  have hrun : (transfer demoRequest [okHeader (ascii "3") true ++ ascii "abcd"]).map
      (fun p => (p.gfr.filelen, p.writeCalls.flatten.length)) = some (some 3, 4) := by decide
  rcases hcontent with ⟨p, _, hp, _, _, hbound⟩
  rw [hp, Option.map_some, Option.some.injEq, Prod.mk.injEq] at hrun
  have hle := hbound 3 hrun.1
  rw [hrun.2] at hle
  exact absurd hle (by decide)

end IntroOS.Getfile
