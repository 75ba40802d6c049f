import IntroOS.Getfile.Server

/-! # The life of a context

`gfserver_serve` allocates a context for every request it accepts and never looks at it
again: whoever answers has to release it. The loop itself does so when it answers INVALID.
For a handler three places can: the two tests of `gfs_send`, and `gfs_sendheader` after it.

* `serveContext`: what happens to the context of one request;
* `EndsDone`: the calls of a handler end with the one that finds the file done;
* `context_released_once_iff`: this is when the context is released exactly once and left
  alone after that;
* `context_never_released`: a handler that sent everything leaves it open.
-/

namespace IntroOS.Getfile

/-! ## Handlers -/

/-- A call of a handler, with what `send` returned in it. -/
inductive Call where
  | sendheader (status : GfStatus) (fileLen : Nat) (sent : Int)
  | send (data : Bytes) (sent : Int)

/-- The result of the call: the one of `send` in an `int`. -/
def Call.result : Call → Int
  | .sendheader _ _ sent | .send _ sent => toInt32 sent

def Call.run (ctx : GfContext) : Call → GfContext × Int
  | .sendheader status fileLen sent => gfsSendheader ctx status fileLen sent
  | .send data sent => gfsSend ctx data sent

/-- A handler that stops at the first negative result. -/
def runHandler : GfContext → List Call → GfContext
  | ctx, [] => ctx
  | ctx, c :: calls =>
    if (c.run ctx).2 < 0 then (c.run ctx).1 else runHandler (c.run ctx).1 calls

/-- What `malloc` returned. The two numbers are whatever was in the memory. -/
def GfContext.fresh (filelen bytessent : Nat) : GfContext := ⟨filelen, bytessent, [], 0, false⟩

/-- What the loop does with the context of a request, once it has decided about it: send the
INVALID message and release the context, or leave everything to the handler. -/
def serveContext (ctx : GfContext) (calls : List Call) : Decision → GfContext
  | .invalid => gfsAbort { ctx.touch with wire := ctx.wire ++ (Decision.invalid).sent }
  | .handler _ => runHandler ctx calls

/-- The socket was closed and the memory freed once, and the context was not used after it. -/
def GfContext.ReleasedOnce (ctx : GfContext) : Prop := ctx.aborts = 1 ∧ ctx.usedAfterFree = false

/-- Not released yet. -/
def GfContext.Live (ctx : GfContext) : Prop := ctx.aborts = 0 ∧ ctx.usedAfterFree = false

/-! ## What the calls announce and count -/

/-- The length the last header announced, and the bytes counted since. -/
structure Tally where
  announced : Nat
  counted : Nat

/-- A header starts a new count, and is counted itself. -/
def Tally.count (t : Tally) : Call → Tally
  | .sendheader _ fileLen sent => ⟨fileLen, toSize (toInt32 sent) % 2 ^ 64⟩
  | .send _ sent => ⟨t.announced, (t.counted + toSize (toInt32 sent)) % 2 ^ 64⟩

/-- The call sends nothing more, and what was counted covers what was announced. -/
def Done (t : Tally) (c : Call) : Prop :=
  (t.count c).announced ≤ (t.count c).counted ∧ c.result ≤ 0

/-- No `send` of the calls fails, and the last one of them, and only this one, finds the file
done. -/
inductive EndsDone : Tally → List Call → Prop where
  | last {t : Tally} {c : Call} {calls : List Call} : c.result ≠ -1 → Done t c →
      c.result < 0 ∨ calls = [] → EndsDone t (c :: calls)
  | next {t : Tally} {c : Call} {calls : List Call} : 0 ≤ c.result → ¬ Done t c →
      EndsDone (t.count c) calls → EndsDone t (c :: calls)

def GfContext.tally (ctx : GfContext) : Tally := ⟨ctx.filelen, ctx.bytessent⟩

/-! ## One call -/

theorem Call.run_result (ctx : GfContext) (c : Call) : (c.run ctx).2 = c.result := by
  cases c with
  | sendheader status fileLen sent => rfl
  | send data sent => rfl

theorem GfContext.Live.touch {ctx : GfContext} (h : ctx.Live) : ctx.touch = ctx := by
  rcases ctx with ⟨filelen, bytessent, wire, aborts, used⟩
  have haborts : aborts = 0 := h.1
  have hused : used = false := h.2
  subst haborts hused
  rfl

theorem GfContext.Live.abort {ctx : GfContext} (h : ctx.Live) : (gfsAbort ctx).ReleasedOnce := by
  unfold gfsAbort
  rw [h.touch]
  exact ⟨by rw [h.1], h.2⟩

/-- Used after its release, or about to be. -/
def GfContext.Lost (ctx : GfContext) : Prop := 0 < ctx.aborts ∨ ctx.usedAfterFree = true

theorem GfContext.Lost.touch {ctx : GfContext} (h : ctx.Lost) : ctx.touch.usedAfterFree = true := by
  unfold GfContext.touch
  rcases h with h | h
  · simp [h]
  · simp [h]

/-- What `gfs_send` does after the call of `send` and its error branch. -/
def countSent (ctx : GfContext) (bytesSent : Int) : GfContext :=
  let ctx : GfContext :=
    { ctx.touch with bytessent := (ctx.bytessent + toSize bytesSent) % 2 ^ 64 }
  if ctx.filelen ≤ ctx.bytessent ∧ bytesSent ≤ 0 then gfsAbort ctx else ctx

theorem gfsSend_failed (ctx : GfContext) (data : Bytes) {sent : Int} (h : toInt32 sent = -1) :
    (gfsSend ctx data sent).1 =
      countSent (gfsAbort { ctx.touch with wire := ctx.wire ++ data.take sent.toNat })
        (toInt32 sent) := by
  unfold gfsSend countSent
  simp only [h, if_true]

theorem gfsSend_sent (ctx : GfContext) (data : Bytes) {sent : Int} (h : toInt32 sent ≠ -1) :
    (gfsSend ctx data sent).1 =
      countSent { ctx.touch with wire := ctx.wire ++ data.take sent.toNat } (toInt32 sent) := by
  unfold gfsSend countSent
  simp only [h, if_false]

/-- The addition to `bytessent` uses the context whatever happened to it before. -/
theorem countSent_lost {ctx : GfContext} (h : ctx.Lost) (bytesSent : Int) :
    (countSent ctx bytesSent).usedAfterFree = true := by
  unfold countSent
  simp only []
  split
  · exact GfContext.Lost.touch (Or.inr h.touch)
  · exact h.touch

theorem gfsSend_lost {ctx : GfContext} (data : Bytes) {sent : Int}
    (h : ctx.Lost ∨ toInt32 sent = -1) : (gfsSend ctx data sent).1.usedAfterFree = true := by
  by_cases hfail : toInt32 sent = -1
  · rw [gfsSend_failed ctx data hfail]
    -- `gfs_abort` was called, and the function goes on
    exact countSent_lost (Or.inl (Nat.succ_pos _)) _
  · have hused := (h.resolve_right hfail).touch
    rw [gfsSend_sent ctx data hfail]
    apply countSent_lost
    exact Or.inr hused

theorem countSent_done {ctx : GfContext} (hlive : ctx.Live) {bytesSent : Int}
    (h : ctx.filelen ≤ (ctx.bytessent + toSize bytesSent) % 2 ^ 64 ∧ bytesSent ≤ 0) :
    (countSent ctx bytesSent).ReleasedOnce := by
  have hcounted : GfContext.Live
      { ctx with bytessent := (ctx.bytessent + toSize bytesSent) % 2 ^ 64 } := hlive
  unfold countSent
  rw [hlive.touch]
  simp only [h, and_self, if_true]
  exact hcounted.abort

theorem countSent_counted {ctx : GfContext} (hlive : ctx.Live) {bytesSent : Int}
    (h : ¬ (ctx.filelen ≤ (ctx.bytessent + toSize bytesSent) % 2 ^ 64 ∧ bytesSent ≤ 0)) :
    countSent ctx bytesSent =
      { ctx with bytessent := (ctx.bytessent + toSize bytesSent) % 2 ^ 64 } := by
  unfold countSent
  rw [hlive.touch]
  simp only [h, if_false]

/-- After a call: released if the call finds the file done, else counted. -/
def Settled (t : Tally) (c : Call) (ctx : GfContext) : Prop :=
  (Done t c → ctx.ReleasedOnce) ∧ (¬ Done t c → ctx.Live ∧ ctx.tally = t.count c)

theorem gfsSend_settled {ctx : GfContext} (hlive : ctx.Live) (data : Bytes) {sent : Int}
    (hok : toInt32 sent ≠ -1) :
    Settled ctx.tally (.send data sent) (gfsSend ctx data sent).1 := by
  have hlive' : GfContext.Live { ctx with wire := ctx.wire ++ data.take sent.toNat } := hlive
  rw [gfsSend_sent ctx data hok, hlive.touch]
  refine ⟨?_, ?_⟩
  · intro hdone
    exact countSent_done hlive' hdone
  · intro hdone
    rw [countSent_counted hlive' hdone]
    exact ⟨hlive, rfl⟩

/-- A header is sent by `gfs_send` on a new count. -/
theorem gfsSendheader_sent (ctx : GfContext) (status : GfStatus) (fileLen : Nat) {sent : Int}
    (h : toInt32 sent ≠ -1) :
    (gfsSendheader ctx status fileLen sent).1 =
      (gfsSend { ctx.touch with filelen := fileLen, bytessent := 0 }
        (gfsHeader status fileLen) sent).1 := if_neg h

/-- After a failed header the context is released once more. -/
theorem gfsSendheader_failed (ctx : GfContext) (status : GfStatus) (fileLen : Nat) {sent : Int}
    (h : toInt32 sent = -1) :
    (gfsSendheader ctx status fileLen sent).1 =
      gfsAbort (gfsSend { ctx.touch with filelen := fileLen, bytessent := 0 }
        (gfsHeader status fileLen) sent).1 := if_pos h

theorem Call.run_lost {ctx : GfContext} (c : Call) (h : ctx.Lost ∨ c.result = -1) :
    (c.run ctx).1.usedAfterFree = true := by
  cases c with
  | send data sent => exact gfsSend_lost data h
  | sendheader status fileLen sent =>
    by_cases hfail : toInt32 sent = -1
    · show (gfsSendheader ctx status fileLen sent).1.usedAfterFree = true
      rw [gfsSendheader_failed ctx status fileLen hfail]
      exact GfContext.Lost.touch (Or.inr (gfsSend_lost _ (Or.inr hfail)))
    · have hused := (h.resolve_right hfail).touch
      show (gfsSendheader ctx status fileLen sent).1.usedAfterFree = true
      rw [gfsSendheader_sent ctx status fileLen hfail]
      exact gfsSend_lost _ (Or.inl (Or.inr hused))

theorem Call.run_settled {ctx : GfContext} (hlive : ctx.Live) {c : Call} (hok : c.result ≠ -1) :
    Settled ctx.tally c (c.run ctx).1 := by
  cases c with
  | send data sent => exact gfsSend_settled hlive data hok
  | sendheader status fileLen sent =>
    have hsent := gfsSendheader_sent ctx status fileLen hok
    have hnew : GfContext.Live { ctx with filelen := fileLen, bytessent := 0 } := hlive
    have hsettled := gfsSend_settled hnew (gfsHeader status fileLen) hok
    rw [hlive.touch] at hsent
    -- the count of a header does not depend on what was counted before
    simpa only [Settled, Done, Tally.count, GfContext.tally, Call.result, Nat.zero_add, Call.run,
      hsent] using hsettled

/-! ## A whole handler -/

theorem GfContext.Live.not_released {ctx : GfContext} (h : ctx.Live) : ¬ ctx.ReleasedOnce := by
  intro hr
  have hzero := h.1
  rw [hr.1] at hzero
  cases hzero

theorem GfContext.ReleasedOnce.lost {ctx : GfContext} (h : ctx.ReleasedOnce) : ctx.Lost := by
  refine Or.inl ?_
  rw [h.1]
  exact Nat.one_pos

theorem runHandler_stops (ctx : GfContext) {c : Call} (calls : List Call) (h : c.result < 0) :
    runHandler ctx (c :: calls) = (c.run ctx).1 := by
  rw [runHandler, c.run_result, if_pos h]

theorem runHandler_goesOn (ctx : GfContext) {c : Call} (calls : List Call) (h : ¬ c.result < 0) :
    runHandler ctx (c :: calls) = runHandler (c.run ctx).1 calls := by
  rw [runHandler, c.run_result, if_neg h]

theorem runHandler_lost {ctx : GfContext} (calls : List Call) (h : ctx.usedAfterFree = true) :
    (runHandler ctx calls).usedAfterFree = true := by
  induction calls generalizing ctx with
  | nil => exact h
  | cons c calls ih =>
    have hused := c.run_lost (Or.inl (Or.inr h))
    by_cases hneg : c.result < 0
    · rw [runHandler_stops ctx calls hneg]
      exact hused
    · rw [runHandler_goesOn ctx calls hneg]
      exact ih hused

theorem GfContext.not_releasedOnce_of_used {ctx : GfContext} (h : ctx.usedAfterFree = true) :
    ¬ ctx.ReleasedOnce := by
  intro hr
  rw [hr.2] at h
  cases h

/-- A call after the release uses the context. -/
theorem runHandler_released {ctx : GfContext} (calls : List Call) (h : ctx.ReleasedOnce) :
    (runHandler ctx calls).ReleasedOnce ↔ calls = [] := by
  cases calls with
  | nil => exact ⟨fun _ => rfl, fun _ => h⟩
  | cons c calls =>
    have hused := c.run_lost (Or.inl h.lost)
    have hend : (runHandler ctx (c :: calls)).usedAfterFree = true := by
      by_cases hneg : c.result < 0
      · rw [runHandler_stops ctx calls hneg]
        exact hused
      · rw [runHandler_goesOn ctx calls hneg]
        exact runHandler_lost calls hused
    constructor
    · intro hr
      exact absurd hr (GfContext.not_releasedOnce_of_used hend)
    · intro hnil
      cases hnil

/-- As long as every `send` takes something, nobody releases the context. -/
theorem runHandler_live {ctx : GfContext} (hlive : ctx.Live) {calls : List Call}
    (h : ∀ c ∈ calls, 0 < c.result) : (runHandler ctx calls).Live := by
  induction calls generalizing ctx with
  | nil => exact hlive
  | cons c calls ih =>
    have hpos : 0 < c.result := h c List.mem_cons_self
    have hnd : ¬ Done ctx.tally c := by
      intro hd
      have hle := hd.2
      omega
    have hlive' := ((Call.run_settled hlive (by omega)).2 hnd).1
    rw [runHandler_goesOn ctx calls (by omega)]
    exact ih hlive' fun c' hc' => h c' (List.mem_cons_of_mem c hc')

/-- The handler stops, with a context that was used after its release. -/
theorem runHandler_failed (ctx : GfContext) {c : Call} (calls : List Call) (h : c.result = -1) :
    ¬ (runHandler ctx (c :: calls)).ReleasedOnce := by
  rw [runHandler_stops ctx calls (by omega)]
  exact GfContext.not_releasedOnce_of_used (c.run_lost (Or.inr h))

/-- After the call that released the context there may be no other. -/
theorem runHandler_done {ctx : GfContext} {c : Call} (calls : List Call)
    (h : (c.run ctx).1.ReleasedOnce) :
    (runHandler ctx (c :: calls)).ReleasedOnce ↔ c.result < 0 ∨ calls = [] := by
  by_cases hneg : c.result < 0
  · rw [runHandler_stops ctx calls hneg]
    exact ⟨fun _ => Or.inl hneg, fun _ => h⟩
  · rw [runHandler_goesOn ctx calls hneg, runHandler_released calls h]
    constructor
    · intro hnil
      exact Or.inr hnil
    · intro hend
      exact hend.resolve_left hneg

/-- A call that only counts leaves the release to the others. -/
theorem runHandler_counted {ctx : GfContext} {c : Call} (calls : List Call)
    (h : (c.run ctx).1.Live) :
    (runHandler ctx (c :: calls)).ReleasedOnce ↔
      0 ≤ c.result ∧ (runHandler (c.run ctx).1 calls).ReleasedOnce := by
  by_cases hneg : c.result < 0
  · rw [runHandler_stops ctx calls hneg]
    constructor
    · intro hr
      exact absurd hr h.not_released
    · rintro ⟨hpos, _⟩
      omega
  · rw [runHandler_goesOn ctx calls hneg]
    constructor
    · intro hr
      exact ⟨by omega, hr⟩
    · rintro ⟨_, hr⟩
      exact hr

theorem EndsDone.cons_iff {t : Tally} {c : Call} {calls : List Call} :
    EndsDone t (c :: calls) ↔
      (c.result ≠ -1 ∧ Done t c ∧ (c.result < 0 ∨ calls = [])) ∨
      (0 ≤ c.result ∧ ¬ Done t c ∧ EndsDone (t.count c) calls) := by
  constructor
  · intro h
    cases h with
    | last hok hd hend => exact Or.inl ⟨hok, hd, hend⟩
    | next hpos hnd hrest => exact Or.inr ⟨hpos, hnd, hrest⟩
  · intro h
    rcases h with ⟨hok, hd, hend⟩ | ⟨hpos, hnd, hrest⟩
    · exact .last hok hd hend
    · exact .next hpos hnd hrest

theorem runHandler_releasedOnce {ctx : GfContext} (hlive : ctx.Live) (calls : List Call) :
    (runHandler ctx calls).ReleasedOnce ↔ EndsDone ctx.tally calls := by
  induction calls generalizing ctx with
  | nil =>
    constructor
    · intro hr
      exact absurd hr hlive.not_released
    · intro hends
      cases hends
  | cons c calls ih =>
    rw [EndsDone.cons_iff]
    by_cases hfail : c.result = -1
    · constructor
      · intro hr
        exact absurd hr (runHandler_failed ctx calls hfail)
      · intro h
        rcases h with ⟨hok, _, _⟩ | ⟨hpos, _, _⟩
        · exact absurd hfail hok
        · omega
    · rcases Call.run_settled hlive hfail with ⟨hdone, hcounted⟩
      by_cases hd : Done ctx.tally c
      · -- released by this call
        rw [runHandler_done calls (hdone hd)]
        constructor
        · intro hend
          exact Or.inl ⟨hfail, hd, hend⟩
        · intro h
          rcases h with ⟨_, _, hend⟩ | ⟨_, hnd, _⟩
          · exact hend
          · exact absurd hd hnd
      · -- only counted
        rcases hcounted hd with ⟨hlive', htally⟩
        rw [runHandler_counted calls hlive', ih hlive', htally]
        constructor
        · rintro ⟨hpos, hrest⟩
          exact Or.inr ⟨hpos, hd, hrest⟩
        · intro h
          rcases h with ⟨_, hd', _⟩ | ⟨hpos, _, hrest⟩
          · exact absurd hd' hd
          · exact ⟨hpos, hrest⟩

/-- **One release for each context.** Whatever the two numbers in the allocated memory, the
context of a request is released exactly once and left alone after that if and only if the
loop answers itself or the calls of the handler end with the one that finds the file done. -/
theorem context_released_once_iff (d : Decision) (filelen bytessent : Nat) (calls : List Call) :
    (serveContext (.fresh filelen bytessent) calls d).ReleasedOnce ↔
      d = .invalid ∨ EndsDone ⟨filelen, bytessent⟩ calls := by
  have hlive : (GfContext.fresh filelen bytessent).Live := ⟨rfl, rfl⟩
  cases d with
  | invalid => exact ⟨fun _ => Or.inl rfl, fun _ => ⟨rfl, rfl⟩⟩
  | handler path =>
    have hrun := runHandler_releasedOnce hlive calls
    constructor
    · intro hr
      exact Or.inr (hrun.mp hr)
    · intro h
      rcases h with h | h
      · cases h
      · exact hrun.mpr h

/-- A handler that sends a header and the three bytes it announced, and returns: the context
is never released. -/
theorem context_never_released :
    ¬ ∀ (d : Decision) (filelen bytessent : Nat) (calls : List Call),
      (serveContext (.fresh filelen bytessent) calls d).ReleasedOnce := by
  intro h
  have hopen := h (.handler (ascii "/a")) 0 0 [.sendheader .ok 3 16, .send (ascii "abc") 3]
  have hzero : (serveContext (.fresh 0 0) [.sendheader .ok 3 16, .send (ascii "abc") 3]
      (.handler (ascii "/a"))).aborts = 0 := by decide
  rw [hopen.1] at hzero
  cases hzero

end IntroOS.Getfile
