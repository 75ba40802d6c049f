import IntroOS.Cache.Protocol
import Mathlib.Data.Fintype.Defs

/-! # Isolation of the shared segment

All workers copy into one segment and all handlers read from it. `response_mutex` keeps the
workers apart (`mutex_inv`), but it is released when the response is posted, before the
handler reads.

* `Isolated`: nobody is about to truncate or write the segment while a file is on its way to a
  client, and what a handler sent is the beginning of the file its response announced;
* `Alone`: the condition on one step. A worker takes `response_mutex` only when no file is on
  its way;
* `cache_segment_isolated`: runs of such steps keep `Isolated`;
* `cache_segment_overwritten`: without the condition it is lost.
-/

namespace IntroOS.Cache

variable {H W : Type*}

/-! ## Transfers on their way -/

/-- The handler has chunks to read. -/
def Handler.Reading : Handler → Prop
  | .sending _ _ fileLen sent => sent.length < fileLen
  | _ => False

/-- The posted response of a file is not consumed yet, or a handler reads it. -/
def St.InFlight (s : St H W) : Prop :=
  (∃ r ∈ s.respQ, r.text ≠ notFound) ∨ ∃ h, (s.handler h).Reading

instance : DecidablePred Handler.Reading
  | .sending _ _ fileLen sent => inferInstanceAs (Decidable (sent.length < fileLen))
  | .idle | .waiting _ | .finished _ _ _ => .isFalse id

instance [Fintype H] (s : St H W) : Decidable s.InFlight :=
  inferInstanceAs (Decidable ((∃ r ∈ s.respQ, r.text ≠ notFound) ∨ ∃ h, (s.handler h).Reading))

/-- The worker is at `ftruncate` or at a `memcpy`. -/
def Worker.AtWrite : Worker → Prop
  | .truncating _ _ => True
  | .copying _ content transferred => transferred < content.length
  | _ => False

/-- The response of a handler and the content bytes it sent. -/
def Handler.output : Handler → Option (Response × Bytes)
  | .sending _ r _ sent => some (r, sent)
  | .finished _ (some r) sent => some (r, sent)
  | _ => none

/-- The segment is left alone while a file is on its way, and handlers send the files that
their responses announced. -/
structure Isolated (files : Bytes → Option Bytes) (s : St H W) : Prop where
  untouched : ∀ w, (s.worker w).AtWrite → ¬ s.InFlight
  bytes : ∀ h r sent, (s.handler h).output = some (r, sent) → sent <+: (files r.path).getD []

/-- A worker takes `response_mutex` only when no file is on its way. -/
def Alone (s : St H W) : Act H W → Prop
  | .worker _ .takeResponse => ¬ s.InFlight
  | _ => True

instance [Fintype H] (s : St H W) : (a : Act H W) → Decidable (Alone s a)
  | .worker _ .takeResponse => inferInstanceAs (Decidable (¬ s.InFlight))
  | .handler _ _ => .isTrue trivial
  | .worker _ .takeCommand | .worker _ .msgrcv | .worker _ .msgrcvFails | .worker _ .postCommand
  | .worker _ .lookup | .worker _ .fstatFails | .worker _ .msgsnd | .worker _ .msgsndFails
  | .worker _ .remove | .worker _ .removeFails | .worker _ .truncate | .worker _ (.copy _)
  | .worker _ .postResponse => .isTrue trivial

/-! ## Mutual exclusion of the workers -/

/-- Between `sem_wait(&response_mutex)` and its `sem_post`. -/
def Worker.inside : Worker → Bool
  | .truncating _ _ | .copying _ _ _ | .posted => true
  | _ => false

/-- One worker at most is between the two calls, and the semaphore is 0 then. -/
structure MutexInv (worker : W → Worker) (responseMutex : Nat) : Prop where
  le_one : responseMutex ≤ 1
  held : ∀ w, (worker w).inside = true → responseMutex = 0
  unique : ∀ w w', (worker w).inside = true → (worker w').inside = true → w = w'

/-- A worker that does not enter. -/
theorem MutexInv.update [DecidableEq W] {worker : W → Worker} {m : Nat} (h : MutexInv worker m)
    (w : W) {v : Worker}
    (hv : v.inside = true → (worker w).inside = true) : MutexInv (Function.update worker w v) m := by
  have hback : ∀ w', (Function.update worker w v w').inside = true → (worker w').inside = true :=
    (Function.forall_update_iff worker
      fun w' x => x.inside = true → (worker w').inside = true).mpr ⟨hv, fun _ _ => id⟩
  exact ⟨h.le_one, fun w' hw' => h.held w' (hback w' hw'),
    fun w₁ w₂ h₁ h₂ => h.unique w₁ w₂ (hback w₁ h₁) (hback w₂ h₂)⟩

/-- A worker that enters when the semaphore allows it. -/
theorem MutexInv.enter [DecidableEq W] {worker : W → Worker} {m : Nat} (h : MutexInv worker m)
    (hm : 0 < m) (w : W) (v : Worker) : MutexInv (Function.update worker w v) (m - 1) := by
  have hnone : ∀ w', ¬ (worker w').inside = true := by
    intro w' hw'
    have := h.held w' hw'
    omega
  have honly : ∀ w', (Function.update worker w v w').inside = true → w' = w := by
    intro w' hw'
    by_contra hne
    rw [Function.update_of_ne hne] at hw'
    exact hnone w' hw'
  have hle := h.le_one
  exact ⟨by omega, fun _ _ => by omega, fun w₁ w₂ h₁ h₂ => (honly w₁ h₁).trans (honly w₂ h₂).symm⟩

/-- A worker that leaves with `sem_post`. -/
theorem MutexInv.leave [DecidableEq W] {worker : W → Worker} {m : Nat} (h : MutexInv worker m)
    {w : W}
    (hw : (worker w).inside = true) {v : Worker} (hv : v.inside = false) :
    MutexInv (Function.update worker w v) (m + 1) := by
  have hm := h.held w hw
  have hnone : ∀ w', ¬ (Function.update worker w v w').inside = true := by
    refine (Function.forall_update_iff worker fun _ x => ¬ x.inside = true).mpr ⟨?_, ?_⟩
    · rw [hv]
      exact Bool.false_ne_true
    · intro w' hne hw'
      exact hne (h.unique w' w hw' hw)
  exact ⟨by omega, fun w' hw' => absurd hw' (hnone w'), fun w₁ _ h₁ _ => absurd h₁ (hnone w₁)⟩

/-- What a worker does after posting an answer, it does not do inside, unless it was there. -/
theorem Worker.answer_inside {x next : Worker} {r : Response} (h : x.answer = some (r, next)) :
    next.inside = true → x.inside = true := by
  intro hn
  rcases Worker.answer_cases h with ⟨path, rfl, ⟨rfl, rfl⟩ | ⟨rfl, rfl⟩⟩ |
    ⟨path, content, transferred, rfl, _, rfl, rfl⟩
  · cases hn
  · cases hn
  · rfl

/-- Handlers do not touch what belongs to the workers, nor the segment. -/
theorem HandlerCase.frame [DecidableEq H] {s s' : St H W} {h : H} {a : HandlerAct}
    (hstep : HandlerCase s h a s') :
    s'.worker = s.worker ∧ s'.responseMutex = s.responseMutex ∧ s'.seg = s.seg := by
  cases hstep <;> exact ⟨rfl, rfl, rfl⟩

theorem WorkerCase.mutex [DecidableEq W] {files : Bytes → Option Bytes} {s s' : St H W} {w : W}
    {a : WorkerAct}
    (hstep : WorkerCase files s w a s') (hinv : MutexInv s.worker s.responseMutex) :
    MutexInv s'.worker s'.responseMutex := by
  cases hstep with
  | takeCommand hw | msgrcv _ _ hw | postCommand _ hw | missing _ _ hw | found _ _ _ hw
  | fstatFails _ _ _ hw | remove hw | preadFails _ _ _ hw =>
    -- outside after the step
    exact hinv.update w (by intro h; cases h)
  | msgrcvFails hw | msgsndFails | removeFails hw | crash _ _ _ _ hw => exact hinv
  | msgsnd r next ha => exact hinv.update w (Worker.answer_inside ha)
  | takeResponse path content hw hm => exact hinv.enter hm w _
  | truncate path content hw => exact hinv.update w (by intro _; rw [hw]; rfl)
  | copy n path content transferred hw hn hle hseg =>
    exact hinv.update w (by intro _; rw [hw]; rfl)
  | postResponse hw => exact hinv.leave (by rw [hw]; rfl) rfl

/-! ## The segment -/

variable (files : Bytes → Option Bytes)

/-- A handler that still reads, reads the file its response announced; what it sent is the
beginning of it. -/
def Handler.Exact (seg : Bytes) : Handler → Prop
  | .sending _ r fileLen sent =>
    sent <+: (files r.path).getD [] ∧ (sent.length < fileLen → files r.path = some seg)
  | .finished _ (some r) sent => sent <+: (files r.path).getD []
  | _ => True

/-- The part of the file that a worker copied is in the segment. -/
def Worker.Filled (seg : Bytes) : Worker → Prop
  | .found path content | .truncating path content => files path = some content
  | .copying path content transferred =>
    files path = some content ∧ seg.length = content.length ∧ transferred ≤ content.length ∧
      seg.take transferred = content.take transferred
  | _ => True

/-- Before the post. -/
def Worker.filling : Worker → Bool
  | .truncating _ _ | .copying _ _ _ => true
  | _ => false

/-- While a worker fills the segment nothing is on its way, and while a file is on its way the
segment holds it. -/
structure SegInv (s : St H W) : Prop where
  mutex : MutexInv s.worker s.responseMutex
  quiet : ∀ w, (s.worker w).filling = true → ¬ s.InFlight
  workers : ∀ w, (s.worker w).Filled files s.seg
  responses : ∀ r ∈ s.respQ, r.text ≠ notFound → files r.path = some s.seg
  handlers : ∀ h, (s.handler h).Exact files s.seg

variable {files}

theorem Worker.inside_of_filling {x : Worker} (h : x.filling = true) : x.inside = true := by
  cases x <;> first | rfl | cases h

/-- A handler that does not read does not care about the segment. -/
theorem Handler.Exact.of_not_reading {x : Handler} {seg : Bytes} (hx : x.Exact files seg)
    (hr : ¬ x.Reading) (seg' : Bytes) : x.Exact files seg' := by
  cases x with
  | idle => trivial
  | waiting path => trivial
  | sending path r fileLen sent => exact ⟨hx.1, fun hlt => absurd hlt hr⟩
  | finished path resp sent =>
    cases resp with
    | none => trivial
    | some r => exact hx

theorem Handler.exact_consume {path seg : Bytes} {r : Response}
    (hr : r.text ≠ notFound → files r.path = some seg) :
    (Handler.consume path r).Exact files seg := by
  unfold Handler.consume
  split
  · exact List.nil_prefix
  · rename_i fileLen hread
    refine ⟨List.nil_prefix, fun _ => hr ?_⟩
    -- NOT_FOUND is not read as a length
    intro heq
    have hnone : readResponse notFound = none := by decide
    rw [heq, hnone] at hread
    cases hread

/-- Handlers only take responses away. -/
theorem HandlerCase.respQ_subset [DecidableEq H] {s s' : St H W} {h : H} {a : HandlerAct}
    (hstep : HandlerCase s h a s') : ∀ r ∈ s'.respQ, r ∈ s.respQ := by
  intro r' hr'
  cases hstep with
  | msgrcv path r rest hh hq =>
    rw [hq]
    exact List.mem_cons_of_mem r hr'
  | request | requestFails | msgrcvFails | preadFails | chunk | shortSend | finish => exact hr'

/-- A handler puts nothing on its way: what is in flight after its step was so before. -/
theorem HandlerCase.inFlight [DecidableEq H] {s s' : St H W} {h : H} {a : HandlerAct}
    (hstep : HandlerCase s h a s') (hfl : s'.InFlight) : s.InFlight := by
  rcases hfl with ⟨r', hr', hne⟩ | hreading
  · exact Or.inl ⟨r', hstep.respQ_subset r' hr', hne⟩
  · cases hstep with
    | msgrcv path r rest hh hq =>
      rcases exists_of_update hreading with hnew | hold
      · -- the response it consumed was on its way
        refine Or.inl ⟨r, by rw [hq]; exact List.mem_cons_self, ?_⟩
        intro heq
        have hnone : readResponse r.text = none := by
          rw [heq]
          decide
        unfold Handler.consume at hnew
        rw [hnone] at hnew
        exact hnew
      · exact Or.inr hold
    | chunk n path r fileLen sent hh hlt hn hle =>
      refine Or.inr ⟨h, ?_⟩
      rw [hh]
      exact hlt
    | request | requestFails | msgrcvFails | preadFails | shortSend | finish =>
      -- the handler itself reads nothing after the step
      exact Or.inr ((exists_of_update hreading).resolve_left id)

/-! ## The copy loop -/

theorem ftruncate_length (seg : Bytes) (n : Nat) : (ftruncate seg n).length = n := by
  unfold ftruncate
  rw [List.length_append, List.length_take, List.length_replicate]
  omega

theorem overwrite_length {seg data : Bytes} {off : Nat} (h : off + data.length ≤ seg.length) :
    (overwrite seg off data).length = seg.length := by
  unfold overwrite
  simp only [List.length_append, List.length_take, List.length_drop]
  omega

/-- The chunk continues what was copied before. -/
theorem take_overwrite {seg content : Bytes} {t n : Nat} (hlen : seg.length = content.length)
    (hle : t + n ≤ content.length) (htake : seg.take t = content.take t) :
    (overwrite seg t ((content.drop t).take n)).take (t + n) = content.take (t + n) := by
  have hdata : ((content.drop t).take n).length = n := by
    rw [List.length_take, List.length_drop]
    omega
  have hfront : (seg.take t ++ (content.drop t).take n).length = t + n := by
    rw [List.length_append, List.length_take, hdata]
    omega
  unfold overwrite
  rw [← List.append_assoc, List.take_left' hfront, htake, List.take_add]

/-! ## The invariant -/

theorem segInv_init [DecidableEq H] [DecidableEq W] :
    ∀ s : St H W, (sys files).Init s → SegInv files s := by
  rintro s ⟨_, hresp, _, _, _, hmutex, hh, hw, _, _⟩
  refine ⟨⟨by omega, ?_, ?_⟩, ?_, ?_, ?_, ?_⟩
  · intro w hin
    rw [hw w] at hin
    cases hin
  · intro w w' hin
    rw [hw w] at hin
    cases hin
  · intro w hfill
    rw [hw w] at hfill
    cases hfill
  · intro w
    rw [hw w]
    trivial
  · intro r hr
    rw [hresp] at hr
    cases hr
  · intro h
    rw [hh h]
    trivial

/-- A step that leaves the segment and the queue of responses alone. -/
theorem SegInv.frame {s s' : St H W} (hinv : SegInv files s)
    (hmutex : MutexInv s'.worker s'.responseMutex)
    (hquiet : ∀ w, (s'.worker w).filling = true → (s.worker w).filling = true ∨ ¬ s.InFlight)
    (hfl : s'.InFlight → s.InFlight) (hseg : s'.seg = s.seg)
    (hresp : ∀ r ∈ s'.respQ, r ∈ s.respQ) (hworkers : ∀ w, (s'.worker w).Filled files s.seg)
    (hhandlers : ∀ h, (s'.handler h).Exact files s.seg) : SegInv files s' := by
  refine ⟨hmutex, ?_, ?_, ?_, ?_⟩
  · intro w hfill hfl'
    rcases hquiet w hfill with h | h
    · exact hinv.quiet w h (hfl hfl')
    · exact h (hfl hfl')
  · rw [hseg]
    exact hworkers
  · intro r hr hne
    rw [hseg]
    exact hinv.responses r (hresp r hr) hne
  · rw [hseg]
    exact hhandlers

/-- A handler that continues with bytes of the segment. -/
theorem SegInv.exact_chunk {s : St H W} (hinv : SegInv files s) {h : H} {path : Bytes}
    {r : Response} {fileLen : Nat} {sent : Bytes} (hh : s.handler h = .sending path r fileLen sent)
    (hlt : sent.length < fileLen) (n : Nat) :
    files r.path = some s.seg ∧ sent ++ (s.seg.drop sent.length).take n <+: (files r.path).getD [] := by
  have hex := hinv.handlers h
  rw [hh] at hex
  obtain ⟨hpre, hfile⟩ := hex
  have hseg := hfile hlt
  rw [hseg] at hpre ⊢
  exact ⟨rfl, prefix_read hpre n⟩

theorem handler_segInv [DecidableEq H] {s s' : St H W} {h : H} {a : HandlerAct}
    (hstep : HandlerCase s h a s') (hinv : SegInv files s) : SegInv files s' := by
  obtain ⟨hworker, hmutex, hseg⟩ := hstep.frame
  have hm : MutexInv s'.worker s'.responseMutex := by
    rw [hworker, hmutex]
    exact hinv.mutex
  have hquiet : ∀ w, (s'.worker w).filling = true → (s.worker w).filling = true ∨ ¬ s.InFlight := by
    intro w hfill
    rw [hworker] at hfill
    exact Or.inl hfill
  have hworkers : ∀ w, (s'.worker w).Filled files s.seg := by
    rw [hworker]
    exact hinv.workers
  have hhandlers : ∀ h', (s'.handler h').Exact files s.seg := by
    cases hstep with
    | request | requestFails | msgrcvFails => exact forall_update hinv.handlers h trivial
    | msgrcv path r rest hh hq =>
      apply forall_update hinv.handlers h
      exact Handler.exact_consume (hinv.responses r (by rw [hq]; exact List.mem_cons_self))
    | preadFails _ path r fileLen sent hh | finish path r fileLen sent hh =>
      have hex := hinv.handlers h
      rw [hh] at hex
      exact forall_update hinv.handlers h hex.1
    | chunk n path r fileLen sent hh hlt hn hle =>
      obtain ⟨hfile, hpre⟩ := hinv.exact_chunk hh hlt n
      exact forall_update hinv.handlers h ⟨hpre, fun _ => hfile⟩
    | shortSend n m path r fileLen sent hh hlt hm hle =>
      obtain ⟨_, hpre⟩ := hinv.exact_chunk hh hlt m
      have htake : ((s.seg.drop sent.length).take n).take m = (s.seg.drop sent.length).take m := by
        rw [List.take_take, Nat.min_eq_left (by omega)]
      apply forall_update hinv.handlers h
      show sent ++ ((s.seg.drop sent.length).take n).take m <+: (files r.path).getD []
      rw [htake]
      exact hpre
  exact hinv.frame hm hquiet hstep.inFlight hseg hstep.respQ_subset hworkers hhandlers

/-- A worker that is not filling the segment does not care about it. -/
theorem Worker.Filled.of_not_filling {x : Worker} {seg : Bytes} (hx : x.Filled files seg)
    (hf : ¬ x.filling = true) (seg' : Bytes) : x.Filled files seg' := by
  cases x with
  | copying path content transferred => exact absurd rfl hf
  | truncating path content => exact hx
  | found path content => exact hx
  | idle => trivial
  | receiving => trivial
  | received msg => trivial
  | lookup msg => trivial
  | missing path => trivial
  | statFailed path => trivial
  | removing => trivial
  | posted => trivial
  | returned => trivial

/-- The worker that fills the segment may write it: it is alone, and nothing is on its way. -/
theorem SegInv.write [DecidableEq W] {s : St H W} (hinv : SegInv files s) {w : W}
    (hfill : (s.worker w).filling = true) {v : Worker} {seg' : Bytes} (hv : v.Filled files seg')
    (hmutex : MutexInv (Function.update s.worker w v) s.responseMutex) :
    SegInv files { s with worker := Function.update s.worker w v, seg := seg' } := by
  have hfl : ¬ s.InFlight := hinv.quiet w hfill
  refine ⟨hmutex, fun _ _ => hfl, ?_, ?_, ?_⟩
  · refine (Function.forall_update_iff s.worker fun _ x => x.Filled files seg').mpr ⟨hv, ?_⟩
    intro w' hne
    apply (hinv.workers w').of_not_filling
    intro hfill'
    exact hne (hinv.mutex.unique w' w (Worker.inside_of_filling hfill')
      (Worker.inside_of_filling hfill))
  · intro r hr hne
    exact absurd (Or.inl ⟨r, hr, hne⟩) hfl
  · intro h
    exact (hinv.handlers h).of_not_reading (fun hr => hfl (Or.inr ⟨h, hr⟩)) seg'

/-- The post of an answer: with the file in the segment, or NOT_FOUND. -/
theorem SegInv.post [DecidableEq W] {s : St H W} (hinv : SegInv files s) {w : W} {r : Response}
    {next : Worker} (ha : (s.worker w).answer = some (r, next)) (serving : List Bytes)
    (hmutex : MutexInv (Function.update s.worker w next) s.responseMutex) :
    SegInv files { s with
      worker := Function.update s.worker w next
      respQ := s.respQ ++ [r]
      serving := serving } := by
  have hnext : ¬ next.filling = true ∧ next.Filled files s.seg := by
    rcases Worker.answer_cases ha with ⟨path, _, ⟨_, rfl⟩ | ⟨_, rfl⟩⟩ | ⟨_, _, _, _, _, _, rfl⟩
    · exact ⟨by simp [Worker.filling], trivial⟩
    · exact ⟨by simp [Worker.filling], trivial⟩
    · exact ⟨by simp [Worker.filling], trivial⟩
  -- the worker that posts a file is the one that fills the segment, and is done
  have hfile : r.text ≠ notFound → (s.worker w).filling = true ∧ files r.path = some s.seg := by
    intro hne
    rcases Worker.answer_cases ha with ⟨path, rfl, _⟩ | ⟨path, content, t, hw, hlt, rfl, _⟩
    · exact absurd rfl hne
    · have hfilled := hinv.workers w
      rw [hw] at hfilled
      obtain ⟨hfiles, hlen, hle, htake⟩ := hfilled
      have hall : s.seg = content := by
        rw [List.take_of_length_le (by omega), List.take_of_length_le (by omega)] at htake
        exact htake
      refine ⟨by rw [hw]; rfl, ?_⟩
      show files path = some s.seg
      rw [hfiles, hall]
  refine ⟨hmutex, ?_, forall_update hinv.workers w hnext.2, ?_, hinv.handlers⟩
  · intro w' hfill hfl
    have hfill : (Function.update s.worker w next w').filling = true := hfill
    have hne : w' ≠ w := by
      intro heq
      rw [heq, Function.update_self] at hfill
      exact hnext.1 hfill
    rw [Function.update_of_ne hne] at hfill
    rcases hfl with ⟨r', hr', hne'⟩ | hreading
    · rcases List.mem_append.mp hr' with h | h
      · exact hinv.quiet w' hfill (Or.inl ⟨r', h, hne'⟩)
      · rw [List.mem_singleton.mp h] at hne'
        exact hne (hinv.mutex.unique w' w (Worker.inside_of_filling hfill)
          (Worker.inside_of_filling (hfile hne').1))
    · exact hinv.quiet w' hfill (Or.inr hreading)
  · intro r' hr' hne'
    rcases List.mem_append.mp hr' with h | h
    · exact hinv.responses r' h hne'
    · rw [List.mem_singleton.mp h] at hne' ⊢
      exact (hfile hne').2

/-- The process is over. -/
theorem SegInv.stopped {s : St H W} (hinv : SegInv files s) :
    SegInv files { s with cacheUp := false } :=
  ⟨hinv.mutex, hinv.quiet, hinv.workers, hinv.responses, hinv.handlers⟩

/-- A worker that goes on without touching the segment, with at most the responses that were
there. It may be about to fill the segment if it was so before, or if nothing is on its way. -/
theorem SegInv.move [DecidableEq W] {s s' : St H W} (hinv : SegInv files s) {w : W} {v : Worker}
    (hmutex : MutexInv s'.worker s'.responseMutex)
    (hworker : s'.worker = Function.update s.worker w v) (hv : v.Filled files s.seg)
    (hfill : v.filling = true → (s.worker w).filling = true ∨ ¬ s.InFlight)
    (hhandler : s'.handler = s.handler) (hseg : s'.seg = s.seg)
    (hresp : ∀ r ∈ s'.respQ, r ∈ s.respQ) : SegInv files s' := by
  refine hinv.frame hmutex ?_ ?_ hseg hresp ?_ ?_
  · rw [hworker]
    exact (Function.forall_update_iff s.worker fun w' x => x.filling = true →
      (s.worker w').filling = true ∨ ¬ s.InFlight).mpr ⟨hfill, fun _ _ => Or.inl⟩
  · intro hfl
    unfold St.InFlight at hfl
    rw [hhandler] at hfl
    rcases hfl with ⟨r, hr, hne⟩ | hreading
    · exact Or.inl ⟨r, hresp r hr, hne⟩
    · exact Or.inr hreading
  · rw [hworker]
    exact forall_update hinv.workers w hv
  · rw [hhandler]
    exact hinv.handlers

theorem worker_segInv [DecidableEq W] {s s' : St H W} {w : W} {a : WorkerAct}
    (hok : Alone s (.worker w a)) (hstep : WorkerCase files s w a s') (hinv : SegInv files s) :
    SegInv files s' := by
  have hm := hstep.mutex hinv.mutex
  have hfilled := hinv.workers w
  cases hstep with
  | takeCommand hw | msgrcv _ _ hw | postCommand _ hw | missing _ _ hw | fstatFails _ _ _ hw
  | preadFails _ _ _ hw | postResponse hw =>
    exact hinv.move hm rfl trivial (by intro h; cases h) rfl rfl (fun _ hr => hr)
  | found msg path content hw hp hf =>
    exact hinv.move hm rfl hf (by intro h; cases h) rfl rfl (fun _ hr => hr)
  | remove hw =>
    -- the responses that were waiting are gone
    exact hinv.move hm rfl trivial (by intro h; cases h) rfl rfl (fun _ hr => by cases hr)
  | msgrcvFails hw | msgsndFails | removeFails hw | crash _ _ _ _ hw => exact hinv.stopped
  | msgsnd r next ha => exact hinv.post ha _ hm
  | takeResponse path content hw hlt =>
    -- here the condition on the step is needed
    rw [hw] at hfilled
    exact hinv.move hm rfl hfilled (fun _ => Or.inr hok) rfl rfl (fun _ hr => hr)
  | truncate path content hw =>
    rw [hw] at hfilled
    exact hinv.write (by rw [hw]; rfl) ⟨hfilled, ftruncate_length _ _, Nat.zero_le _, rfl⟩ hm
  | copy n path content transferred hw hn hle hseg =>
    rw [hw] at hfilled
    obtain ⟨hfiles, hlen, _, htake⟩ := hfilled
    have hdata : transferred + ((content.drop transferred).take n).length ≤ s.seg.length := by
      rw [List.length_take, List.length_drop]
      omega
    refine hinv.write (by rw [hw]; rfl) ⟨hfiles, ?_, hle, ?_⟩ hm
    · rw [overwrite_length hdata, hlen]
    · exact take_overwrite hlen hle htake

theorem segInv_step [DecidableEq H] [DecidableEq W] :
    ∀ (s : St H W) a s', Alone s a → (sys files).step s a = some s' → SegInv files s →
      SegInv files s' := by
  intro s a s' hok hstep hinv
  rcases sys_step_cases hstep with ⟨h, b, rfl, hcase⟩ | ⟨w, b, rfl, _, hcase⟩
  · exact handler_segInv hcase hinv
  · exact worker_segInv hok hcase hinv

theorem SegInv.isolated {s : St H W} (hinv : SegInv files s) : Isolated files s := by
  refine ⟨?_, ?_⟩
  · intro w hw
    apply hinv.quiet w
    cases hx : s.worker w <;> rw [hx] at hw <;> first | rfl | exact hw.elim
  · intro h r sent hout
    have hex := hinv.handlers h
    cases hx : s.handler h with
    | idle => rw [hx] at hout; cases hout
    | waiting path => rw [hx] at hout; cases hout
    | sending path r' fileLen sent' =>
      rw [hx] at hout hex
      cases hout
      exact hex.1
    | finished path resp sent' =>
      rw [hx] at hout hex
      cases resp with
      | none => cases hout
      | some r' =>
        cases hout
        exact hex

/-- **Isolation of the segment.** In every run in which a worker takes `response_mutex` only
when no file is on its way, the segment is left alone while one is, and every handler sends
the file its response announced. -/
theorem cache_segment_isolated [DecidableEq H] [DecidableEq W] (files : Bytes → Option Bytes)
    (s : St H W) (hs : (sys files).Reach Alone s) : Isolated files s :=
  (Sys.Reach.inv segInv_init segInv_step s hs).isolated

/-! ## Two runs -/

/-- A cache with two files. -/
def twoFiles (path : Bytes) : Option Bytes :=
  if path = ascii "/a" then some (ascii "x") else if path = ascii "/b" then some (ascii "y") else none

/-- What the worker does for one request for a file of one byte, up to its `sem_post`. -/
def serveOne : List (Act (Fin 2) (Fin 1)) :=
  [.worker 0 .takeCommand, .worker 0 .msgrcv, .worker 0 .postCommand, .worker 0 .lookup,
    .worker 0 .takeResponse, .worker 0 .truncate, .worker 0 (.copy 1), .worker 0 .msgsnd,
    .worker 0 .postResponse]

/-- One transfer after the other: each handler sends its file. -/
theorem cache_segment_isolated_in_turn :
    ∃ s : St (Fin 2) (Fin 1), Isolated twoFiles s ∧
      (s.handler 0).output = some (⟨ascii "1\n", ascii "/a"⟩, ascii "x") ∧
      (s.handler 1).output = some (⟨ascii "1\n", ascii "/b"⟩, ascii "y") := by
  have hrun : ((sys twoFiles).run (St.start [] : St (Fin 2) (Fin 1))
      (.handler 0 (.request pathA) :: serveOne ++
        [.handler 0 .msgrcv, .handler 0 (.chunk 1 1), .handler 1 (.request pathB)] ++ serveOne ++
        [.handler 1 .msgrcv, .handler 1 (.chunk 1 1)])).map
      (fun s => ((s.handler 0).output, (s.handler 1).output)) =
      some (some (⟨ascii "1\n", ascii "/a"⟩, ascii "x"),
        some (⟨ascii "1\n", ascii "/b"⟩, ascii "y")) := by decide
  obtain ⟨s, hs, hout⟩ := Option.map_eq_some_iff.mp hrun
  rw [Prod.mk.injEq] at hout
  exact ⟨s, cache_segment_isolated twoFiles s
    (Sys.reach_of_run (.init (start_init _ _)) (by decide) hs), hout⟩

/-- One worker and two handlers, no failing call, every response consumed by its own handler:
the second file is copied over the first before the first handler reads. -/
theorem cache_segment_overwritten :
    ¬ ∀ s : St (Fin 2) (Fin 1), (sys twoFiles).Reach (fun _ a => a.succeeds = true) s →
      Isolated twoFiles s := by
  intro h
  have hrun : ((sys twoFiles).run (St.start [] : St (Fin 2) (Fin 1))
      (.handler 0 (.request pathA) :: serveOne ++ [.handler 0 .msgrcv] ++
        .handler 1 (.request pathB) :: serveOne ++ [.handler 0 (.chunk 1 1)])).map
      (fun s => (s.handler 0).output) =
      some (some (⟨ascii "1\n", ascii "/a"⟩, ascii "y")) := by decide
  obtain ⟨s, hs, hout⟩ := Option.map_eq_some_iff.mp hrun
  have hsent := (h s (Sys.reach_of_run (.init (start_init _ _)) (Sys.runOk_of_all (by decide))
    hs)).bytes 0 _ _ hout
  exact absurd hsent (by decide)

end IntroOS.Cache
