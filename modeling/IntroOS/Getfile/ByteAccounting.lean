import IntroOS.Getfile.ContextRelease
import IntroOS.Getfile.SentBytes

/-! # What `bytessent` counts

The field is the server's counterpart of `gfc_get_bytesreceived`: the content that is out.
`gfs_sendheader` resets it, and then sends the header through `gfs_send`, which counts.

* `AllAccounted`: after each of a list of calls the count is the content the socket took, and
  the connection was only closed behind the last byte of it;
* `bytessent_counts_content_iff`: this is when.
-/

namespace IntroOS.Getfile

/-- A call of `gfs_send`, with the result of `send`, which is a `ssize_t`. -/
structure Send where
  data : Bytes
  sent : Int
  result : IsSendResult data.length sent
  ssize : sent < 2 ^ 63

namespace Send

def call (s : Send) : Call := .send s.data s.sent

/-- The bytes the socket accepted. -/
def accepted (s : Send) : Nat := (s.data.take s.sent.toNat).length

end Send

/-- The content the socket accepted in the calls. -/
def content (sends : List Send) : Nat := (sends.map Send.accepted).sum

/-- After a call: the context was not used after its release, its count is the content that was
accepted so far, and if it was released that content is all of the file. -/
structure Accounted (ctx : GfContext) (fileLen accepted : Nat) : Prop where
  intact : ctx.usedAfterFree = false
  counted : ctx.bytessent = accepted
  closed : 0 < ctx.aborts → fileLen ≤ accepted

/-- After each of the calls, the first of them with `accepted` bytes out. -/
def AllAccounted (fileLen : Nat) : GfContext → Nat → List Send → Prop
  | _, _, [] => True
  | ctx, accepted, s :: sends =>
    Accounted (s.call.run ctx).1 fileLen (accepted + s.accepted) ∧
      AllAccounted fileLen (s.call.run ctx).1 (accepted + s.accepted) sends

/-- `gfs_sendheader` with OK, and then the calls of `gfs_send`. -/
def TransferAccounted (ctx : GfContext) (fileLen : Nat) (headerSent : Int) (sends : List Send) :
    Prop :=
  Accounted (gfsSendheader ctx .ok fileLen headerSent).1 fileLen 0 ∧
    AllAccounted fileLen (gfsSendheader ctx .ok fileLen headerSent).1 0 sends

/-- Whenever a `send` takes nothing with all of the file out, it is the last one. `accepted` bytes
are out before the first. -/
def EndsWhenDone (fileLen accepted : Nat) (sends : List Send) : Prop :=
  ∀ before s after, sends = before ++ s :: after → fileLen ≤ accepted + content before →
    s.sent = 0 → after = []

/-! ## One call -/

theorem countSent_tally (ctx : GfContext) (bytesSent : Int) :
    (countSent ctx bytesSent).tally = ⟨ctx.filelen, (ctx.bytessent + toSize bytesSent) % 2 ^ 64⟩ := by
  unfold countSent
  simp only []
  split
  · rfl
  · rfl

/-- A call that does not fail counts its result, also when it then closes the connection. -/
theorem gfsSend_tally (ctx : GfContext) (data : Bytes) {sent : Int} (hok : toInt32 sent ≠ -1) :
    (gfsSend ctx data sent).1.tally = ctx.tally.count (.send data sent) := by
  rw [gfsSend_sent ctx data hok, countSent_tally]
  rfl

theorem gfsSendheader_tally (ctx : GfContext) (fileLen : Nat) {sent : Int}
    (hok : toInt32 sent ≠ -1) :
    (gfsSendheader ctx .ok fileLen sent).1.tally = ⟨fileLen, toSize (toInt32 sent) % 2 ^ 64⟩ := by
  rw [gfsSendheader_sent ctx .ok fileLen hok, gfsSend_tally _ _ hok]
  simp only [Tally.count, GfContext.tally, Nat.zero_add]

/-- A used context stays used. -/
theorem not_accounted_of_lost {ctx : GfContext} {c : Call} (h : ctx.Lost ∨ c.result = -1)
    (fileLen accepted : Nat) : ¬ Accounted (c.run ctx).1 fileLen accepted := by
  intro hacc
  have hused := c.run_lost h
  rw [hacc.intact] at hused
  cases hused

/-- After a call on a context in use the count is right exactly if it is the content. -/
theorem accounted_iff_count {ctx : GfContext} (hlive : ctx.Live) {c : Call} (hok : c.result ≠ -1)
    (htally : (c.run ctx).1.tally = ctx.tally.count c) {fileLen a : Nat}
    (hfile : (ctx.tally.count c).announced = fileLen) :
    Accounted (c.run ctx).1 fileLen a ↔ (ctx.tally.count c).counted = a := by
  have hcount : (c.run ctx).1.bytessent = (ctx.tally.count c).counted := congrArg Tally.counted htally
  rcases Call.run_settled hlive hok with ⟨hdone, hcounted⟩
  constructor
  · intro hacc
    rw [← hcount]
    exact hacc.counted
  · intro heq
    by_cases hd : Done ctx.tally c
    · refine ⟨(hdone hd).2, hcount.trans heq, ?_⟩
      intro _
      rw [← hfile, ← heq]
      exact hd.1
    · have hlive' := (hcounted hd).1
      refine ⟨hlive'.2, hcount.trans heq, ?_⟩
      intro hpos
      rw [hlive'.1] at hpos
      cases hpos

/-- The `int` and the `size_t` between them keep the numbers below 2^31, and no others. -/
theorem count_exact_iff {n : Nat} {sent : Int} (hn : n < 2 ^ 64) (hssize : sent < 2 ^ 63)
    (hge : -1 ≤ sent) :
    (n + toSize (toInt32 sent)) % 2 ^ 64 = n + sent.toNat ↔
      0 ≤ sent ∧ sent < 2 ^ 31 ∧ n + sent.toNat < 2 ^ 64 := by
  unfold toSize toInt32
  omega

theorem Send.accepted_eq (s : Send) : s.accepted = s.sent.toNat := by
  have hle := s.result.le
  rw [Send.accepted, List.length_take]
  omega

/-- A call that takes `r` bytes is accounted for if `r` passes through an `int` and the sum through
a `size_t`. -/
theorem accounted_send_iff {ctx : GfContext} (hlive : ctx.Live) {fileLen accepted : Nat}
    (hfile : ctx.filelen = fileLen) (hcount : ctx.bytessent = accepted) (hlt : accepted < 2 ^ 64)
    (s : Send) :
    Accounted (s.call.run ctx).1 fileLen (accepted + s.accepted) ↔
      0 ≤ s.sent ∧ s.sent < 2 ^ 31 ∧ accepted + s.accepted < 2 ^ 64 := by
  have hexact := count_exact_iff hlt s.ssize s.result.ge
  by_cases hfail : s.call.result = -1
  · constructor
    · intro hacc
      exact absurd hacc (not_accounted_of_lost (Or.inr hfail) _ _)
    · rintro ⟨hpos, hsmall, _⟩
      have hres : toInt32 s.sent = -1 := hfail
      unfold toInt32 at hres
      omega
  · rw [accounted_iff_count hlive hfail (gfsSend_tally ctx s.data hfail) hfile, s.accepted_eq,
      ← hexact, ← hcount]
    exact Iff.rfl

/-! ## A whole transfer -/

theorem content_cons (s : Send) (sends : List Send) :
    content (s :: sends) = s.accepted + content sends := by
  rw [content, List.map_cons, List.sum_cons]
  rfl

theorem endsWhenDone_nil (fileLen accepted : Nat) : EndsWhenDone fileLen accepted [] := by
  intro before s after heq
  exact absurd heq.symm (List.append_ne_nil_of_right_ne_nil before (List.cons_ne_nil s after))

theorem endsWhenDone_cons {fileLen accepted : Nat} {s : Send} {sends : List Send} :
    EndsWhenDone fileLen accepted (s :: sends) ↔
      (fileLen ≤ accepted → s.sent = 0 → sends = []) ∧
        EndsWhenDone fileLen (accepted + s.accepted) sends := by
  constructor
  · intro h
    refine ⟨fun hle => h [] s sends rfl hle, ?_⟩
    intro before s' after heq hle
    refine h (s :: before) s' after (by rw [heq, List.cons_append]) ?_
    rw [content_cons, ← Nat.add_assoc]
    exact hle
  · rintro ⟨hhead, htail⟩ before s' after heq hle
    cases before with
    | nil =>
      cases heq
      exact hhead hle
    | cons b before =>
      cases heq
      rw [content_cons, ← Nat.add_assoc] at hle
      exact htail before s' after rfl hle

/-- Calls on a released context are not accounted for. -/
theorem allAccounted_released {ctx : GfContext} (h : ctx.ReleasedOnce) (fileLen accepted : Nat)
    (sends : List Send) : AllAccounted fileLen ctx accepted sends ↔ sends = [] := by
  cases sends with
  | nil => exact ⟨fun _ => rfl, fun _ => trivial⟩
  | cons s sends =>
    constructor
    · intro hall
      exact absurd hall.1 (not_accounted_of_lost (Or.inl h.lost) _ _)
    · intro hnil
      cases hnil

/-- A call that is accounted for finds the file done if it takes nothing with everything out. -/
theorem done_send_iff {ctx : GfContext} {fileLen accepted : Nat} (hfile : ctx.filelen = fileLen)
    (hcount : ctx.bytessent = accepted) (hlt : accepted < 2 ^ 64) {s : Send} (hpos : 0 ≤ s.sent)
    (hsmall : s.sent < 2 ^ 31) (hfits : accepted + s.accepted < 2 ^ 64) :
    Done ctx.tally s.call ↔ fileLen ≤ accepted ∧ s.sent = 0 := by
  have hself : toInt32 s.sent = s.sent := by
    unfold toInt32
    omega
  have hres : s.call.result = s.sent := hself
  have hcounted : (ctx.tally.count s.call).counted = accepted + s.accepted := by
    rw [s.accepted_eq, ← hcount]
    rw [s.accepted_eq, ← hcount] at hfits
    rw [← hcount] at hlt
    exact (count_exact_iff hlt s.ssize s.result.ge).mpr ⟨hpos, hsmall, hfits⟩
  have hannounced : (ctx.tally.count s.call).announced = fileLen := hfile
  rw [Done, hcounted, hannounced, hres]
  have hacc := s.accepted_eq
  constructor
  · rintro ⟨hle, hzero⟩
    exact ⟨by omega, by omega⟩
  · rintro ⟨hle, hzero⟩
    exact ⟨by omega, by omega⟩

theorem allAccounted_iff {ctx : GfContext} (hlive : ctx.Live) {fileLen accepted : Nat}
    (hfile : ctx.filelen = fileLen) (hcount : ctx.bytessent = accepted) (hlt : accepted < 2 ^ 64)
    (sends : List Send) :
    AllAccounted fileLen ctx accepted sends ↔
      (∀ s ∈ sends, 0 ≤ s.sent ∧ s.sent < 2 ^ 31) ∧ accepted + content sends < 2 ^ 64 ∧
        EndsWhenDone fileLen accepted sends := by
  induction sends generalizing ctx accepted with
  | nil =>
    constructor
    · intro _
      exact ⟨List.forall_mem_nil _, hlt, endsWhenDone_nil fileLen accepted⟩
    · intro _
      trivial
  | cons s sends ih =>
    rw [List.forall_mem_cons, content_cons, endsWhenDone_cons, AllAccounted,
      accounted_send_iff hlive hfile hcount hlt]
    by_cases hgood : (0 ≤ s.sent ∧ s.sent < 2 ^ 31) ∧ accepted + s.accepted < 2 ^ 64
    · rcases hgood with ⟨⟨hpos, hsmall⟩, hfits⟩
      have hok : s.call.result ≠ -1 := by
        show toInt32 s.sent ≠ -1
        unfold toInt32
        omega
      have htally : (s.call.run ctx).1.tally = ctx.tally.count s.call := gfsSend_tally ctx s.data hok
      rcases Call.run_settled hlive hok with ⟨hdone, hcounted⟩
      have hdoneIff := done_send_iff hfile hcount hlt hpos hsmall hfits
      by_cases hd : fileLen ≤ accepted ∧ s.sent = 0
      · -- the connection is closed, and nothing may follow
        rw [allAccounted_released (hdone (hdoneIff.mpr hd))]
        constructor
        · rintro ⟨_, hnil⟩
          subst hnil
          exact ⟨⟨⟨hpos, hsmall⟩, List.forall_mem_nil _⟩, hfits, fun _ _ => rfl,
            endsWhenDone_nil _ _⟩
        · rintro ⟨_, _, hlast, _⟩
          exact ⟨⟨hpos, hsmall, hfits⟩, hlast hd.1 hd.2⟩
      · have hlive' := (hcounted (mt hdoneIff.mp hd)).1
        have hcount' : (s.call.run ctx).1.bytessent = accepted + s.accepted :=
          ((accounted_send_iff hlive hfile hcount hlt s).mpr ⟨hpos, hsmall, hfits⟩).counted
        have hfile' : (s.call.run ctx).1.filelen = fileLen :=
          (congrArg Tally.announced htally).trans hfile
        rw [ih hlive' hfile' hcount' hfits, ← Nat.add_assoc]
        constructor
        · rintro ⟨_, hall, hsum, hends⟩
          exact ⟨⟨⟨hpos, hsmall⟩, hall⟩, hsum, fun hle hz => absurd ⟨hle, hz⟩ hd, hends⟩
        · rintro ⟨⟨_, hall⟩, hsum, _, hends⟩
          exact ⟨⟨hpos, hsmall, hfits⟩, hall, hsum, hends⟩
    · constructor
      · rintro ⟨⟨hpos, hsmall, hfits⟩, _⟩
        exact absurd ⟨⟨hpos, hsmall⟩, hfits⟩ hgood
      · rintro ⟨⟨hhead, _⟩, hsum, _⟩
        exact absurd ⟨hhead, by omega⟩ hgood

/-- The header is accounted for if the socket takes nothing of it. -/
theorem accounted_sendheader_iff {ctx : GfContext} (hlive : ctx.Live) {fileLen : Nat}
    {headerSent : Int} (hheader : IsSendResult (gfsHeader .ok fileLen).length headerSent) :
    Accounted (gfsSendheader ctx .ok fileLen headerSent).1 fileLen 0 ↔ headerSent = 0 := by
  have hge := hheader.ge
  have hle := hheader.le
  have hlen := gfsHeader_length_le .ok fileLen
  by_cases hfail : toInt32 headerSent = -1
  · constructor
    · intro hacc
      exact absurd hacc
        (not_accounted_of_lost (c := .sendheader .ok fileLen headerSent) (Or.inr hfail) _ _)
    · intro hzero
      rw [hzero] at hfail
      cases hfail
  · have hcount := accounted_iff_count (c := .sendheader .ok fileLen headerSent) (a := 0) hlive hfail
      (gfsSendheader_tally ctx fileLen hfail) rfl
    refine hcount.trans ?_
    show toSize (toInt32 headerSent) % 2 ^ 64 = 0 ↔ headerSent = 0
    unfold toSize toInt32
    omega

/-- **Byte accounting.** The count is the content that was accepted, after every call, and the
connection is only closed behind all of it, exactly if the socket takes nothing of the header, no
later `send` fails or takes 2^31 bytes, all of them together stay below 2^64, and the first call
that finds the file done is the last. -/
theorem bytessent_counts_content_iff {ctx : GfContext} (hlive : ctx.Live) {fileLen : Nat}
    {headerSent : Int} (hheader : IsSendResult (gfsHeader .ok fileLen).length headerSent)
    (sends : List Send) :
    TransferAccounted ctx fileLen headerSent sends ↔
      headerSent = 0 ∧ (∀ s ∈ sends, 0 ≤ s.sent ∧ s.sent < 2 ^ 31) ∧ content sends < 2 ^ 64 ∧
        (fileLen = 0 → sends = []) ∧ EndsWhenDone fileLen 0 sends := by
  rw [TransferAccounted, accounted_sendheader_iff hlive hheader]
  by_cases hzero : headerSent = 0
  · subst hzero
    have hok : toInt32 0 ≠ -1 := by decide
    have hacc := (accounted_sendheader_iff hlive hheader).mpr rfl
    have hfile : (gfsSendheader ctx .ok fileLen 0).1.filelen = fileLen :=
      congrArg Tally.announced (gfsSendheader_tally ctx fileLen hok)
    rcases Call.run_settled (c := .sendheader .ok fileLen 0) hlive hok with ⟨hdone, hcounted⟩
    have hdoneIff : Done ctx.tally (.sendheader .ok fileLen 0) ↔ fileLen = 0 := by
      show fileLen ≤ 0 ∧ (0 : Int) ≤ 0 ↔ fileLen = 0
      omega
    by_cases hempty : fileLen = 0
    · have hreleased : (gfsSendheader ctx .ok fileLen 0).1.ReleasedOnce := hdone (hdoneIff.mpr hempty)
      rw [allAccounted_released hreleased]
      constructor
      · rintro ⟨_, hnil⟩
        subst hnil
        exact ⟨rfl, List.forall_mem_nil _, Nat.two_pow_pos 64, fun _ => rfl,
          endsWhenDone_nil fileLen 0⟩
      · rintro ⟨_, _, _, hnil, _⟩
        exact ⟨rfl, hnil hempty⟩
    · have hlive' : (gfsSendheader ctx .ok fileLen 0).1.Live :=
        (hcounted (mt hdoneIff.mp hempty)).1
      rw [allAccounted_iff hlive' hfile hacc.counted (by decide), Nat.zero_add]
      constructor
      · rintro ⟨_, hall, hsum, hends⟩
        exact ⟨rfl, hall, hsum, fun h => absurd h hempty, hends⟩
      · rintro ⟨_, hall, hsum, _, hends⟩
        exact ⟨rfl, hall, hsum, hends⟩
  · constructor
    · rintro ⟨h, _⟩
      exact absurd h hzero
    · rintro ⟨h, _⟩
      exact absurd h hzero

/-- A socket that takes three bytes of content and nothing of the header. -/
theorem bytessent_counts_content_three :
    TransferAccounted (.fresh 0 0) 3 0 [⟨ascii "abc", 3, ⟨by decide, by decide⟩, by decide⟩] := by
  refine (bytessent_counts_content_iff ⟨rfl, rfl⟩ ⟨by decide, by decide⟩ _).mpr
    ⟨rfl, ?_, by decide, ?_, ?_⟩
  · intro s hs
    rw [List.mem_singleton.mp hs]
    exact ⟨by decide, by decide⟩
  · intro hempty
    cases hempty
  · refine endsWhenDone_cons.mpr ⟨?_, endsWhenDone_nil 3 _⟩
    intro hle
    cases hle

/-- A header that is sent leaves its own 16 bytes in the count. -/
theorem bytessent_counts_header :
    ¬ ∀ (ctx : GfContext) (fileLen : Nat) (headerSent : Int) (sends : List Send), ctx.Live →
      IsSendResult (gfsHeader .ok fileLen).length headerSent →
      TransferAccounted ctx fileLen headerSent sends := by
  intro h
  have hheader : IsSendResult (gfsHeader .ok 3).length 16 := ⟨by decide, by decide⟩
  have hacc := h (.fresh 0 0) 3 16 [] ⟨rfl, rfl⟩ hheader
  have hlive : (GfContext.fresh 0 0).Live := ⟨rfl, rfl⟩
  exact absurd ((accounted_sendheader_iff hlive hheader).mp hacc.1) (by decide)

end IntroOS.Getfile
