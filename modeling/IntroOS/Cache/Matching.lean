import IntroOS.Cache.Protocol

/-! # Which response a handler consumes

Responses carry no reference to their request, so a handler takes whatever is first in the
response queue. This module says when that is the answer to its own request:

* `OwnAnswers`: every response consumed so far answers the consuming handler's path;
* `InOrder`: the condition on one step. Answers are posted in the order in which the requests
  were taken, and received in the order in which the requests were sent, up to equal paths;
* `cache_answers_match`: runs of such steps keep `OwnAnswers`;
* `cache_answers_mixed_up`: without the condition, two handlers and one worker are enough to
  lose it.
-/

namespace IntroOS.Cache

/-! ## What a response says -/

theorem signedDecimal_natCast (n : Nat) : signedDecimal n = decimal n := by
  have hneg : ¬ ((n : Int) < 0) := by omega
  unfold signedDecimal
  rw [if_neg hneg, Int.natAbs_natCast]

theorem newline_head : ∀ b ∈ (ascii "\n").head?, isDigit b = false := by
  intro b hb
  have hhead : (ascii "\n").head? = some 10 := by decide
  rw [hhead] at hb
  cases hb
  decide

/-- A length that fits an `int` is read back as it was written. -/
theorem readResponse_lengthText {n : Nat} (h : n < 2 ^ 31) : readResponse (lengthText n) = some n := by
  have htext : lengthText n = decimal n ++ ascii "\n" := by
    unfold lengthText
    rw [toInt32_of_lt h, signedDecimal_natCast]
  have hatoi : atoi (lengthText n) = n := by
    have hlt : digitsValue (decimal n) < 2 ^ 31 := by rwa [digitsValue_decimal]
    rw [htext, atoi_digits (decimal_ne_nil n) (decimal_isDigit n) newline_head hlt,
      digitsValue_decimal]
  have hne : lengthText n ≠ notFound := by
    -- a length begins with a digit
    intro heq
    obtain ⟨b, t, hd⟩ := List.exists_cons_of_ne_nil (decimal_ne_nil n)
    have hb : isDigit b = true := decimal_isDigit n b (by simp [hd])
    have hN : notFound.head? = some 78 := by decide
    rw [← heq, htext, hd] at hN
    have hb78 : b = 78 := by simpa using hN
    rw [hb78] at hb
    exact absurd hb (by decide)
  have hneg : ¬ ((n : Int) = -1) := by omega
  have hsize : toSize (n : Int) = n := by
    unfold toSize
    omega
  unfold readResponse
  rw [if_neg hne, hatoi, if_neg hneg, hsize]

theorem lengthText_ne_notFound {n : Nat} (h : n < 2 ^ 31) : lengthText n ≠ notFound := by
  intro heq
  have hread := readResponse_lengthText h
  have hnone : readResponse notFound = none := by decide
  rw [heq, hnone] at hread
  cases hread

variable {H W : Type*} [DecidableEq H] [DecidableEq W] (files : Bytes → Option Bytes)

/-- The text is the right answer for `path`. -/
def Answers (path text : Bytes) : Prop :=
  (text = notFound ↔ files path = none) ∧
  ∀ content, files path = some content → readResponse text = some content.length

/-- The response a handler consumed in its present or last call, with its own path. -/
def Handler.consumed : Handler → Option (Bytes × Response)
  | .sending path r _ _ => some (path, r)
  | .finished path (some r) _ => some (path, r)
  | _ => none

/-- A consumed response is the one produced for the handler's own path, and says the truth
about it. -/
def Handler.Own (x : Handler) : Prop :=
  ∀ path r, x.consumed = some (path, r) → r.path = path ∧ Answers files path r.text

/-- Every handler that consumed a response consumed its own. -/
def OwnAnswers (s : St H W) : Prop := ∀ h, (s.handler h).Own files

/-! ## The condition on steps -/

/-- The path a handler waits for. -/
def Handler.wanted : Handler → Option Bytes
  | .waiting path => some path
  | _ => none

/-- The file a worker is about to find fits an `int`. -/
def Worker.FindsShort : Worker → Prop
  | .lookup msg => ∀ content ∈ (requestPath msg).bind files, content.length < 2 ^ 31
  | _ => True

instance : (x : Worker) → Decidable (x.FindsShort files)
  | .lookup msg => inferInstanceAs (Decidable (∀ content ∈ (requestPath msg).bind files, _))
  | .idle | .receiving | .received _ | .missing _ | .statFailed _ | .removing | .found _ _
  | .truncating _ _ | .copying _ _ _ | .posted | .returned => .isTrue trivial

/-- The step keeps to the order of the requests: the next answer to be posted is for the
request taken first, and the next handler to receive is the one that asked first. `fstat` and
the handler's `msgrcv` do not fail, and the length of a found file fits an `int`. -/
def InOrder (s : St H W) : Act H W → Prop
  | .handler h .msgrcv => s.asked.head? = (s.handler h).wanted
  | .handler _ .msgrcvFails => False
  | .worker w .msgsnd => s.serving.head? = (s.worker w).answer.map fun a => a.1.path
  | .worker w .lookup => (s.worker w).FindsShort files
  | .worker _ .fstatFails => False
  | _ => True

instance (s : St H W) : (a : Act H W) → Decidable (InOrder files s a)
  | .handler h .msgrcv => inferInstanceAs (Decidable (s.asked.head? = (s.handler h).wanted))
  | .handler _ .msgrcvFails => .isFalse id
  | .handler _ (.request _) | .handler _ (.requestFails _) | .handler _ (.chunk _ _)
  | .handler _ .finish => .isTrue trivial
  | .worker w .msgsnd =>
    inferInstanceAs (Decidable (s.serving.head? = (s.worker w).answer.map fun a => a.1.path))
  | .worker w .lookup => inferInstanceAs (Decidable ((s.worker w).FindsShort files))
  | .worker _ .fstatFails => .isFalse id
  | .worker _ .takeCommand | .worker _ .msgrcv | .worker _ .msgrcvFails | .worker _ .postCommand
  | .worker _ .msgsndFails | .worker _ .remove | .worker _ .removeFails | .worker _ .takeResponse
  | .worker _ .truncate | .worker _ (.copy _) | .worker _ .postResponse => .isTrue trivial

/-! ## The invariant -/

/-- What a worker knows about the path it took. -/
def Worker.Sound : Worker → Prop
  | .missing path => files path = none
  | .statFailed _ | .removing => False
  | .found path content | .truncating path content | .copying path content _ =>
    files path = some content ∧ content.length < 2 ^ 31
  | _ => True

/-- The paths asked for are those of the responses under way, of the requests being served and
of the requests under way, in this order. -/
structure Inv (s : St H W) : Prop where
  order : s.asked = s.respQ.map Response.path ++ (s.serving ++ s.reqQ.filterMap requestPath)
  responses : ∀ r ∈ s.respQ, Answers files r.path r.text
  workers : ∀ w, (s.worker w).Sound files
  handlers : OwnAnswers files s

variable {files}

theorem Handler.own_consume {path : Bytes} {r : Response} (hp : r.path = path)
    (hr : Answers files r.path r.text) : (Handler.consume path r).Own files := by
  intro path' r' hc
  have heq : path' = path ∧ r' = r := by
    unfold Handler.consume at hc
    split at hc
    · simpa [Handler.consumed, eq_comm] using hc
    · simpa [Handler.consumed, eq_comm] using hc
  obtain ⟨rfl, rfl⟩ := heq
  exact ⟨hp, hp ▸ hr⟩

/-- A handler that moves on with the response it has. -/
theorem Handler.Own.of_consumed {x y : Handler} (hx : x.Own files)
    (hxy : y.consumed = x.consumed) : y.Own files := by
  intro path r hc
  exact hx path r (hxy ▸ hc)

theorem Handler.own_of_none {x : Handler} (hx : x.consumed = none) : x.Own files := by
  intro path r hc
  rw [hx] at hc
  cases hc

/-- A sound worker posts a right answer. -/
theorem Worker.Sound.answer {x next : Worker} {r : Response} (hx : x.Sound files)
    (ha : x.answer = some (r, next)) : Answers files r.path r.text ∧ next.Sound files := by
  rcases Worker.answer_cases ha with ⟨path, rfl, ⟨rfl, rfl⟩ | ⟨rfl, rfl⟩⟩ |
    ⟨path, content, transferred, rfl, _, rfl, rfl⟩
  · -- NOT_FOUND
    have hnone : files path = none := hx
    refine ⟨⟨⟨fun _ => hnone, fun _ => rfl⟩, ?_⟩, trivial⟩
    intro content hc
    rw [hnone] at hc
    cases hc
  · exact hx.elim
  · -- the length of the file
    obtain ⟨hsome, hlt⟩ : files path = some content ∧ content.length < 2 ^ 31 := hx
    refine ⟨⟨⟨fun h => absurd h (lengthText_ne_notFound hlt), fun h => ?_⟩, ?_⟩, trivial⟩
    · rw [hsome] at h
      cases h
    · intro content' hc
      rw [hsome] at hc
      cases hc
      exact readResponse_lengthText hlt

theorem init_inv : ∀ s : St H W, (sys files).Init s → Inv files s := by
  rintro s ⟨hreq, hresp, _, _, _, _, hh, hw, hasked, hserving⟩
  refine ⟨?_, ?_, ?_, ?_⟩
  · rw [hreq, hresp, hasked, hserving]
    rfl
  · intro r hr
    rw [hresp] at hr
    cases hr
  · intro w
    rw [hw w]
    trivial
  · intro h
    rw [hh h]
    exact Handler.own_of_none rfl

omit [DecidableEq W] in
/-- Handler steps. -/
theorem handler_inv {s s' : St H W} {h : H} {a : HandlerAct} (hok : InOrder files s (.handler h a))
    (hstep : HandlerCase s h a s') (hinv : Inv files s) : Inv files s' := by
  cases hstep with
  | request p hfree =>
    refine ⟨?_, hinv.responses, hinv.workers, forall_update hinv.handlers h (Handler.own_of_none rfl)⟩
    -- the new path goes to the end on both sides
    show s.asked ++ [p.bytes] = _
    rw [hinv.order]
    simp [List.filterMap_append, requestPath_requestText]
  | requestFails p hfree =>
    exact ⟨hinv.order, hinv.responses, hinv.workers,
      forall_update hinv.handlers h (Handler.own_of_none rfl)⟩
  | msgrcv path r rest hh hq =>
    have horder := hinv.order
    have hfirst : s.asked.head? = some path := by
      have hhead : s.asked.head? = (s.handler h).wanted := hok
      rw [hhead, hh]
      rfl
    rw [hq, List.map_cons, List.cons_append] at horder
    -- the first response is for the path asked first
    have hpath : r.path = path := by
      rw [horder] at hfirst
      simpa using hfirst
    refine ⟨?_, ?_, hinv.workers, ?_⟩
    · show s.asked.erase path = _
      rw [horder, hpath, List.erase_cons_head]
    · intro r' hr'
      exact hinv.responses r' (by rw [hq]; exact List.mem_cons_of_mem r hr')
    · apply forall_update hinv.handlers h
      exact Handler.own_consume hpath (hinv.responses r (by rw [hq]; exact List.mem_cons_self))
  | msgrcvFails path hh => exact hok.elim
  | preadFails _ path r fileLen sent hh | chunk _ path r fileLen sent hh
  | shortSend _ _ path r fileLen sent hh | finish path r fileLen sent hh =>
    -- the handler keeps the response it has
    refine ⟨hinv.order, hinv.responses, hinv.workers, forall_update hinv.handlers h ?_⟩
    apply (hinv.handlers h).of_consumed
    rw [hh]
    rfl

omit [DecidableEq H] in
/-- Worker steps. -/
theorem worker_inv {s s' : St H W} {w : W} {a : WorkerAct} (hok : InOrder files s (.worker w a))
    (hstep : WorkerCase files s w a s') (hinv : Inv files s) : Inv files s' := by
  cases hstep with
  | takeCommand hw | postCommand msg hw | preadFails _ _ _ hw | postResponse hw =>
    exact ⟨hinv.order, hinv.responses, forall_update hinv.workers w trivial, hinv.handlers⟩
  | msgrcv msg rest hw hq =>
    refine ⟨?_, hinv.responses, forall_update hinv.workers w trivial, hinv.handlers⟩
    -- the request moves from the queue to those being served
    show s.asked = _
    rw [hinv.order, hq]
    cases hp : requestPath msg with
    | none => simp [hp]
    | some path => simp [hp]
  | msgrcvFails hw | msgsndFails | removeFails hw | crash _ _ _ _ hw =>
    exact ⟨hinv.order, hinv.responses, hinv.workers, hinv.handlers⟩
  | missing msg path hw hp hf =>
    exact ⟨hinv.order, hinv.responses, forall_update hinv.workers w hf, hinv.handlers⟩
  | found msg path content hw hp hf =>
    have hshort : (s.worker w).FindsShort files := hok
    rw [hw] at hshort
    have hlt : content.length < 2 ^ 31 := by
      apply hshort
      rw [hp]
      exact hf
    exact ⟨hinv.order, hinv.responses, forall_update hinv.workers w ⟨hf, hlt⟩, hinv.handlers⟩
  | fstatFails msg path content hw hp hf => exact hok.elim
  | msgsnd r next ha =>
    have hhead : s.serving.head? = (s.worker w).answer.map fun a => a.1.path := hok
    rw [ha, Option.map_some] at hhead
    obtain ⟨hr, hnext⟩ := (hinv.workers w).answer ha
    obtain ⟨rest, hserving⟩ : ∃ rest, s.serving = r.path :: rest :=
      List.head?_eq_some_iff.mp hhead
    refine ⟨?_, ?_, forall_update hinv.workers w hnext, hinv.handlers⟩
    · -- the first of those being served becomes the last response
      show s.asked = (s.respQ ++ [r]).map Response.path ++ (s.serving.erase r.path ++ _)
      rw [hinv.order, hserving, List.erase_cons_head]
      simp
    · intro r' hr'
      rcases List.mem_append.mp hr' with h | h
      · exact hinv.responses r' h
      · rw [List.mem_singleton.mp h]
        exact hr
  | remove hw =>
    -- a worker gets here only after a failed `fstat`
    have hsound := hinv.workers w
    rw [hw] at hsound
    exact hsound.elim
  | takeResponse path content hw | truncate path content hw | copy _ path content _ hw =>
    -- the file stays the one that was found
    have hsound := hinv.workers w
    rw [hw] at hsound
    exact ⟨hinv.order, hinv.responses, forall_update hinv.workers w hsound, hinv.handlers⟩

theorem step_inv : ∀ (s : St H W) a s', InOrder files s a → (sys files).step s a = some s' →
    Inv files s → Inv files s' := by
  intro s a s' hok hstep hinv
  rcases sys_step_cases hstep with ⟨h, b, rfl, hcase⟩ | ⟨w, b, rfl, _, hcase⟩
  · exact handler_inv hok hcase hinv
  · exact worker_inv hok hcase hinv

/-- **Matching.** In every run whose steps keep to the order of the requests, every response
consumed answers the path of the handler that consumed it. -/
theorem cache_answers_match (files : Bytes → Option Bytes) (s : St H W)
    (hs : (sys files).Reach (InOrder files) s) : OwnAnswers files s :=
  (Sys.Reach.inv init_inv step_inv s hs).handlers

/-! ## Two runs -/

/-- A cache with one file. -/
def demoFiles (path : Bytes) : Option Bytes := if path = ascii "/a" then some (ascii "x") else none

/-- Two handlers and two workers, whose calls overlap: the answers are posted and received in the
order of the requests. -/
theorem cache_answers_match_overlapping :
    ∃ s : St (Fin 2) (Fin 2), OwnAnswers demoFiles s ∧
      (s.handler 0).consumed = some (ascii "/a", ⟨ascii "1\n", ascii "/a"⟩) ∧
      (s.handler 1).consumed = some (ascii "/b", ⟨notFound, ascii "/b"⟩) := by
  have hrun : ((sys demoFiles).run (St.start [] : St (Fin 2) (Fin 2))
      [.handler 0 (.request pathA), .handler 1 (.request pathB), .worker 0 .takeCommand,
        .worker 0 .msgrcv, .worker 0 .postCommand, .worker 1 .takeCommand, .worker 1 .msgrcv,
        .worker 0 .lookup, .worker 1 .postCommand, .worker 0 .takeResponse, .worker 1 .lookup,
        .worker 0 .truncate, .worker 0 (.copy 1), .worker 0 .msgsnd, .worker 1 .msgsnd,
        .handler 0 .msgrcv, .handler 1 .msgrcv]).map
      (fun s => ((s.handler 0).consumed, (s.handler 1).consumed)) =
      some (some (ascii "/a", ⟨ascii "1\n", ascii "/a"⟩),
        some (ascii "/b", ⟨notFound, ascii "/b"⟩)) := by decide
  obtain ⟨s, hs, hc⟩ := Option.map_eq_some_iff.mp hrun
  rw [Prod.mk.injEq] at hc
  exact ⟨s, cache_answers_match demoFiles s
    (Sys.reach_of_run (.init (start_init _ _)) (by decide) hs), hc⟩

/-- Two handlers, one worker, no failing call: the handler that asked for `/a` consumes the
NOT_FOUND of the other one's `/b`. -/
theorem cache_answers_mixed_up :
    ¬ ∀ s : St (Fin 2) (Fin 1), (sys demoFiles).Reach (fun _ a => a.succeeds = true) s →
      OwnAnswers demoFiles s := by
  intro h
  have hrun : ((sys demoFiles).run (St.start [] : St (Fin 2) (Fin 1))
      [.handler 0 (.request pathB), .handler 1 (.request pathA), .worker 0 .takeCommand,
        .worker 0 .msgrcv, .worker 0 .postCommand, .worker 0 .lookup, .worker 0 .msgsnd,
        .handler 1 .msgrcv]).map (fun s => (s.handler 1).consumed) =
      some (some (ascii "/a", ⟨notFound, ascii "/b"⟩)) := by decide
  obtain ⟨s, hs, hc⟩ := Option.map_eq_some_iff.mp hrun
  have hown := h s (Sys.reach_of_run (.init (start_init _ _)) (Sys.runOk_of_all (by decide)) hs) 1
    _ _ hc
  exact absurd hown.1 (by decide)

end IntroOS.Cache
