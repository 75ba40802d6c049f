import IntroOS.Base.Scan
import IntroOS.Minify.WorkerPool

/-! # `load_requests` of `minifyjpeg_main.c`

The workload file is read with `fscanf(file_handle, "%s %s", ..)` until it returns `EOF`; both
conversions have no width, and write into a fresh `request_t`.

1. **Requests**: the struct, and what a conversion does to it.
2. **Loop**: the queue that `load_requests` fills.
3. **Property** (`LoadsExactly`): the pairs of tokens, each token in its field.

`malloc` returns the blocks, the nodes at new addresses. `writes` is history: where each
conversion wrote in its block.
-/

namespace IntroOS.Minify.Workload

open WorkerPool

variable {A : Type*}

/-! ## Requests -/

/-- `request_t`: `inputfilename` is at 0, `outputfilename` at 256. -/
structure Request where
  mem : Bytes
  size : mem.length = 512

/-- The string at `inputfilename`. -/
def Request.inputfilename (req : Request) : Option Bytes := cString req.mem

/-- The string at `outputfilename`. -/
def Request.outputfilename (req : Request) : Option Bytes := cString (req.mem.drop 256)

/-- A `%s` that stores the token and a NUL at `off`. `none` if this goes past the block. -/
def Request.store (req : Request) (off : Nat) (tok : Bytes) : Option Request :=
  if h : off + (tok.length + 1) ≤ 512 then
    some {
      mem := req.mem.take off ++ (tok ++ 0 :: req.mem.drop (off + (tok.length + 1)))
      size := by
        have hsize := req.size
        simp only [List.length_append, List.length_take, List.length_cons, List.length_drop]
        omega }
  else none

/-- What ends the program. -/
inductive Stop where
  /-- a conversion wrote past its block -/
  | overrun
  | fault (f : Fault)
deriving DecidableEq, Repr

/-! ## Loop -/

/-- One `fscanf`: its result, the stream behind it, the request, and the writes. -/
structure Scanned where
  ret : Int
  stream : Bytes
  req : Request
  writes : List (Nat × Bytes)

/-- `fscanf(file_handle, "%s %s", req->inputfilename, req->outputfilename)`, with `EOF` as -1. -/
def scanNames (stream : Bytes) (req : Request) : Option Scanned :=
  match scanWord isSpace stream with
  | none => some ⟨-1, [], req, []⟩
  | some (input, rest) =>
    match req.store 0 input with
    | none => none
    | some req =>
      match scanWord isSpace rest with
      -- one conversion was made, so this is not `EOF` yet
      | none => some ⟨1, [], req, [(0, input ++ [0])]⟩
      | some (output, rest) =>
        match req.store 256 output with
        | none => none
        | some req => some ⟨2, rest, req, [(0, input ++ [0]), (256, output ++ [0])]⟩

structure Loading (A : Type*) where
  stream : Bytes
  req : Request
  heap : Heap A Request
  queue : Steque A
  /-- how many requests are in the queue -/
  loaded : Nat
  writes : List (Nat × Bytes)

/-- Before the loop. -/
def Loading.start (junk : Nat → Request) (text : Bytes) : Loading A where
  stream := text
  req := junk 0
  heap := fun _ => none
  queue := stequeInit
  loaded := 0
  writes := []

/-- A round. The `k`-th request is a block with `junk k` in it, and its node is at `nodes k`. -/
def loadRound [DecidableEq A] (nodes : Nat → A) (junk : Nat → Request) (s : Loading A) :
    Loading A ⊕ Except Stop (Loading A) :=
  match scanNames s.stream s.req with
  | none => .inr (.error .overrun)
  | some scanned =>
    if scanned.ret ≠ -1 then
      match stequeEnqueue s.heap s.queue (nodes s.loaded) scanned.req with
      | .error f => .inr (.error (.fault f))
      | .ok (heap, queue) =>
        .inl {
          stream := scanned.stream
          req := junk (s.loaded + 1)
          heap := heap
          queue := queue
          loaded := s.loaded + 1
          writes := s.writes ++ scanned.writes }
    -- the last request is freed
    else .inr (.ok { s with stream := scanned.stream })

/-- `load_requests` on the file with `text` in it. -/
def LoadRequests [DecidableEq A] (nodes : Nat → A) (junk : Nat → Request) (text : Bytes)
    (r : Except Stop (Loading A)) : Prop :=
  Returns (loadRound nodes junk) (Loading.start junk text) r

/-! ## Property -/

/-- The queue has one request for each pair of tokens, in their order, with the tokens as its
names, and no write left its field of 256 bytes. -/
structure LoadsExactly (text : Bytes) (s : Loading A) : Prop where
  requests : ∃ cells, s.queue.Linked s.heap cells ∧
    cells.map (fun c => (c.2.inputfilename, c.2.outputfilename)) =
      (pairs (words isSpace text)).map fun p => (some p.1, some p.2)
  within : ∀ w ∈ s.writes, w.2.length ≤ 256

/-- `load_requests` returns with such a queue. -/
def ReadsWorkload [DecidableEq A] (nodes : Nat → A) (junk : Nat → Request) (text : Bytes) : Prop :=
  ∃ s, LoadRequests nodes junk text (.ok s) ∧ LoadsExactly text s

/-! ## The struct -/

section Store

variable {req req' req'' : Request} {input output tok : Bytes} {off : Nat}

theorem Request.store_mem (h : req.store off tok = some req') :
    req'.mem = req.mem.take off ++ (tok ++ 0 :: req.mem.drop (off + (tok.length + 1))) := by
  unfold Request.store at h
  split at h
  · cases h
    rfl
  · cases h

/-- Two names that fit their fields. -/
theorem names_of_store (hinput : input.length < 256) (hinput0 : 0 ∉ input) (houtput0 : 0 ∉ output)
    (h : req.store 0 input = some req') (h' : req'.store 256 output = some req'') :
    req''.inputfilename = some input ∧ req''.outputfilename = some output := by
  have hmem := Request.store_mem h
  have hmem' := Request.store_mem h'
  rw [List.take_zero, List.nil_append] at hmem
  have htake : req'.mem.take 256 =
      input ++ 0 :: (req.mem.drop (0 + (input.length + 1))).take (256 - (input.length + 1)) := by
    have hroom : 256 - input.length = (256 - (input.length + 1)) + 1 := by omega
    rw [hmem, List.take_append, List.take_of_length_le (Nat.le_of_lt hinput), hroom,
      List.take_succ_cons]
  have hlen : (req'.mem.take 256).length = 256 := by
    rw [List.length_take, req'.size]
    rfl
  constructor
  · unfold Request.inputfilename
    rw [hmem', htake, List.append_assoc, List.cons_append]
    exact cString_nul hinput0 _
  · unfold Request.outputfilename
    rw [hmem', List.drop_left' hlen]
    exact cString_nul houtput0 _

/-- An input name of 256 bytes or more runs on into the output name. -/
theorem inputfilename_overlong (hlong : 256 ≤ input.length) (hinput0 : 0 ∉ input)
    (houtput0 : 0 ∉ output) (h : req.store 0 input = some req')
    (h' : req'.store 256 output = some req'') :
    req''.inputfilename = some (input.take 256 ++ output) := by
  have hmem := Request.store_mem h
  have hmem' := Request.store_mem h'
  rw [List.take_zero, List.nil_append] at hmem
  rw [hmem, List.take_append_of_le_length hlong, ← List.append_assoc] at hmem'
  unfold Request.inputfilename
  rw [hmem']
  refine cString_nul ?_ _
  intro h0
  rcases List.mem_append.mp h0 with hin | hout
  · exact hinput0 (List.mem_of_mem_take hin)
  · exact houtput0 hout

/-- Without a second token the output name is what `malloc` left there. -/
theorem outputfilename_unpaired (hinput : input.length < 256) (h : req.store 0 input = some req') :
    req'.outputfilename = req.outputfilename := by
  have hmem := Request.store_mem h
  rw [List.take_zero, List.nil_append, ← List.singleton_append, ← List.append_assoc] at hmem
  have hlen : (input ++ [0]).length = input.length + 1 := List.length_append
  have hdrop : req'.mem.drop 256 = req.mem.drop 256 := by
    rw [hmem, List.drop_append, List.drop_of_length_le (by omega), List.nil_append, List.drop_drop,
      hlen]
    congr 1
    omega
  unfold Request.outputfilename
  rw [hdrop]

/-- A name is a C string. -/
theorem nul_free_of_cString {mem s : Bytes} (h : cString mem = some s) : 0 ∉ s := by
  unfold cString at h
  split at h
  · cases h
    exact text_nul_free mem
  · cases h

end Store

/-! ## The conversions -/

section Scan

variable {stream : Bytes} (req : Request) {input output : Bytes} {rest : List Bytes}

theorem scanNames_nil (h : words isSpace stream = []) :
    scanNames stream req = some ⟨-1, [], req, []⟩ := by
  unfold scanNames
  rw [scanWord_of_nil h]

theorem scanNames_one (h : words isSpace stream = [input]) :
    scanNames stream req =
      (req.store 0 input).map fun req => ⟨1, [], req, [(0, input ++ [0])]⟩ := by
  rcases scanWord_of_cons h with ⟨stream₁, hscan, hrest⟩
  have hend := scanWord_of_nil hrest
  unfold scanNames
  cases hstore : req.store 0 input with
  | none => simp only [hscan, hstore, Option.map_none]
  | some req' => simp only [hscan, hstore, hend, Option.map_some]

theorem scanNames_two (h : words isSpace stream = input :: output :: rest) :
    ∃ stream', words isSpace stream' = rest ∧ scanNames stream req =
      (req.store 0 input).bind fun req => (req.store 256 output).map fun req =>
        ⟨2, stream', req, [(0, input ++ [0]), (256, output ++ [0])]⟩ := by
  rcases scanWord_of_cons h with ⟨stream₁, hscan, hrest⟩
  rcases scanWord_of_cons hrest with ⟨stream₂, hscan', hrest'⟩
  refine ⟨stream₂, hrest', ?_⟩
  unfold scanNames
  cases hstore : req.store 0 input with
  | none => simp only [hscan, hstore, Option.bind_none]
  | some req' =>
    cases hstore' : req'.store 256 output with
    | none => simp only [hscan, hstore, hscan', hstore', Option.bind_some, Option.map_none]
    | some req'' => simp only [hscan, hstore, hscan', hstore', Option.bind_some, Option.map_some]

end Scan

/-! ## All rounds -/

/-- The requests for the tokens of a text, the `k`-th of them first. A token without a partner
makes a request that keeps what `malloc` left at `outputfilename`. -/
def entries (junk : Nat → Request) : Nat → List Bytes → Option (List Request)
  | _, [] => some []
  | k, [input] => ((junk k).store 0 input).map fun req => [req]
  | k, input :: output :: rest =>
    ((junk k).store 0 input).bind fun req => (req.store 256 output).bind fun req =>
      (entries junk (k + 1) rest).map fun more => req :: more

/-- Where the tokens are written. -/
def writesOf : List Bytes → List (Nat × Bytes)
  | [] => []
  | [input] => [(0, input ++ [0])]
  | input :: output :: rest => (0, input ++ [0]) :: (256, output ++ [0]) :: writesOf rest

/-- The requests with their nodes. -/
def cellsFrom (nodes : Nat → A) : Nat → List Request → List (A × Request)
  | _, [] => []
  | k, req :: rest => (nodes k, req) :: cellsFrom nodes (k + 1) rest

section Rounds

variable [DecidableEq A] {nodes : Nat → A} {junk : Nat → Request} {s : Loading A}
  {cells : List (A × Request)}

/-- In front of the test of the loop. -/
structure Ready (nodes : Nat → A) (junk : Nat → Request) (s : Loading A)
    (cells : List (A × Request)) : Prop where
  req : s.req = junk s.loaded
  linked : s.queue.Linked s.heap cells
  free : ∀ k ≥ s.loaded, s.heap (nodes k) = none

omit [DecidableEq A] in
theorem ready_start (nodes : Nat → A) (text : Bytes) :
    Ready nodes junk (Loading.start junk text) [] :=
  ⟨rfl, linked_init _, fun _ _ => rfl⟩

/-- A round that `fscanf` does not end with `EOF`, however many names it read. -/
theorem Ready.round (h : Ready nodes junk s cells) (hnodes : Function.Injective nodes)
    {scanned : Scanned} (hscan : scanNames s.stream s.req = some scanned)
    (hret : scanned.ret ≠ -1) :
    ∃ s', loadRound nodes junk s = .inl s' ∧ s'.stream = scanned.stream ∧
      s'.loaded = s.loaded + 1 ∧ s'.writes = s.writes ++ scanned.writes ∧
      stequeEnqueue s.heap s.queue (nodes s.loaded) scanned.req = .ok (s'.heap, s'.queue) ∧
      Ready nodes junk s' (cells ++ [(nodes s.loaded, scanned.req)]) := by
  rcases h.linked.enqueue (h.free s.loaded (le_refl _)) scanned.req with
    ⟨heap', queue', henq, hlinked, hrest⟩
  refine ⟨⟨scanned.stream, junk (s.loaded + 1), heap', queue', s.loaded + 1,
    s.writes ++ scanned.writes⟩, ?_, rfl, rfl, rfl, henq, ⟨rfl, hlinked, ?_⟩⟩
  · unfold loadRound
    simp only [hscan, if_pos hret, henq]
  · intro k hk
    have hk : s.loaded + 1 ≤ k := hk
    refine hrest (nodes k) ?_ (h.free k (by omega))
    intro heq
    have hsame := hnodes heq
    omega

/-- At the end of the file. -/
theorem returns_nil (h : words isSpace s.stream = []) :
    Returns (loadRound nodes junk) s (.ok { s with stream := [] }) := by
  refine (Returns.exit_iff ?_).mpr rfl
  unfold loadRound
  simp [scanNames_nil _ h]

theorem returns_overrun (h : scanNames s.stream s.req = none) :
    Returns (loadRound nodes junk) s (.error .overrun) := by
  refine (Returns.exit_iff ?_).mpr rfl
  unfold loadRound
  simp only [h]

/-- The loop on a stream with the tokens `toks`. -/
theorem Ready.loads (hnodes : Function.Injective nodes) {toks : List Bytes}
    (h : Ready nodes junk s cells) (hwords : words isSpace s.stream = toks) :
    (entries junk s.loaded toks = none ∧
      Returns (loadRound nodes junk) s (.error .overrun)) ∨
    ∃ reqs s', entries junk s.loaded toks = some reqs ∧
      Returns (loadRound nodes junk) s (.ok s') ∧
      enqueueAll s.heap s.queue (cellsFrom nodes s.loaded reqs) = .ok (s'.heap, s'.queue) ∧
      s'.writes = s.writes ++ writesOf toks := by
  -- a round takes two tokens, and the last one may find a single one
  induction toks using List.twoStepInduction generalizing s cells with
  | nil => exact Or.inr ⟨[], _, rfl, returns_nil hwords, rfl, (List.append_nil _).symm⟩
  | singleton input =>
    have hscan := scanNames_one s.req hwords
    rw [h.req] at hscan
    cases hstore : (junk s.loaded).store 0 input with
    | none =>
      rw [hstore] at hscan
      refine Or.inl ⟨?_, returns_overrun (h.req ▸ hscan)⟩
      simp only [entries, hstore, Option.map_none]
    | some req =>
      rw [hstore] at hscan
      have hread : (1 : Int) ≠ -1 := by decide
      rcases h.round hnodes (h.req ▸ hscan) hread with
        ⟨s', hround, hstream, hloaded, hwrites, henq, hready⟩
      refine Or.inr ⟨[req], { s' with stream := [] }, ?_, ?_, ?_, hwrites⟩
      · simp only [entries, hstore, Option.map_some]
      · rw [Returns.round_iff hround]
        exact returns_nil (hstream ▸ words_nil isSpace)
      · simp only [cellsFrom, enqueueAll, henq]
  | cons_cons input output rest ih _ =>
    rcases scanNames_two s.req hwords with ⟨stream', hrest, hscan⟩
    rw [h.req] at hscan
    cases hstore : (junk s.loaded).store 0 input with
    | none =>
      rw [hstore] at hscan
      refine Or.inl ⟨?_, returns_overrun (h.req ▸ hscan)⟩
      simp only [entries, hstore, Option.bind_none]
    | some req =>
      cases hstore' : req.store 256 output with
      | none =>
        rw [hstore, Option.bind_some, hstore'] at hscan
        refine Or.inl ⟨?_, returns_overrun (h.req ▸ hscan)⟩
        simp only [entries, hstore, hstore', Option.bind_some, Option.bind_none]
      | some req' =>
        rw [hstore, Option.bind_some, hstore', Option.map_some] at hscan
        have hread : (2 : Int) ≠ -1 := by decide
        rcases h.round hnodes (h.req ▸ hscan) hread with
          ⟨s', hround, hstream, hloaded, hwrites, henq, hready⟩
        rcases ih hready (hstream ▸ hrest) with
          ⟨hnone, hreturns⟩ | ⟨reqs, s'', hsome, hreturns, hall, hmore⟩
        · refine Or.inl ⟨?_, (Returns.round_iff hround).mpr hreturns⟩
          rw [hloaded] at hnone
          simp only [entries, hstore, hstore', hnone, Option.bind_some, Option.map_none]
        · rw [hloaded] at hsome hall
          refine Or.inr ⟨req' :: reqs, s'', ?_, (Returns.round_iff hround).mpr hreturns, ?_, ?_⟩
          · simp only [entries, hstore, hstore', hsome, Option.bind_some, Option.map_some]
          · simp only [cellsFrom, enqueueAll, henq, hall]
          · rw [hmore, hwrites, List.append_assoc]
            rfl

end Rounds

/-! ## The queue -/

section Queue

variable {nodes : Nat → A} {junk : Nat → Request} {toks : List Bytes} {reqs : List Request} {k : Nat}

theorem cellsFrom_snd (nodes : Nat → A) (k : Nat) (reqs : List Request) :
    (cellsFrom nodes k reqs).map Prod.snd = reqs := by
  induction reqs generalizing k with
  | nil => rfl
  | cons req reqs ih =>
    rw [cellsFrom, List.map_cons, ih]

theorem mem_cellsFrom {a : A} (h : a ∈ (cellsFrom nodes k reqs).map Prod.fst) :
    ∃ i ≥ k, a = nodes i := by
  induction reqs generalizing k with
  | nil => cases h
  | cons req reqs ih =>
    rw [cellsFrom, List.map_cons] at h
    rcases List.mem_cons.mp h with rfl | hrest
    · exact ⟨k, le_refl k, rfl⟩
    · rcases ih hrest with ⟨i, hi, rfl⟩
      exact ⟨i, by omega, rfl⟩

theorem cellsFrom_nodup (hnodes : Function.Injective nodes) (k : Nat) (reqs : List Request) :
    ((cellsFrom nodes k reqs).map Prod.fst).Nodup := by
  induction reqs generalizing k with
  | nil => exact List.nodup_nil
  | cons req reqs ih =>
    rw [cellsFrom, List.map_cons, List.nodup_cons]
    refine ⟨?_, ih (k + 1)⟩
    intro hmem
    rcases mem_cellsFrom hmem with ⟨i, hi, heq⟩
    have hsame := hnodes heq
    omega

/-- One request for two tokens, and one for a token without a partner. -/
theorem entries_length (h : entries junk k toks = some reqs) :
    reqs.length = (toks.length + 1) / 2 := by
  induction toks using List.twoStepInduction generalizing k reqs with
  | nil =>
    cases h
    simp
  | singleton input =>
    rcases Option.map_eq_some_iff.mp h with ⟨req, _, rfl⟩
    simp
  | cons_cons input output rest ih _ =>
    rcases Option.bind_eq_some_iff.mp h with ⟨req, _, h⟩
    rcases Option.bind_eq_some_iff.mp h with ⟨req', _, h⟩
    rcases Option.map_eq_some_iff.mp h with ⟨more, hmore, rfl⟩
    rw [List.length_cons, ih hmore, List.length_cons, List.length_cons]
    omega

theorem exists_store (req : Request) {off : Nat} {tok : Bytes}
    (h : off + (tok.length + 1) ≤ 512) : ∃ req', req.store off tok = some req' :=
  ⟨_, dif_pos h⟩

/-- Tokens in pairs that fit their fields. -/
theorem entries_exact (junk : Nat → Request) (k : Nat) (heven : toks.length % 2 = 0)
    (hfits : ∀ tok ∈ toks, tok.length < 256 ∧ 0 ∉ tok) :
    ∃ reqs, entries junk k toks = some reqs ∧
      reqs.map (fun req => (req.inputfilename, req.outputfilename)) =
        (pairs toks).map fun p => (some p.1, some p.2) := by
  induction toks using List.twoStepInduction generalizing k with
  | nil => exact ⟨[], rfl, rfl⟩
  | singleton input => cases heven
  | cons_cons input output rest ih _ =>
    have hinput := hfits input List.mem_cons_self
    have houtput := hfits output (List.mem_cons_of_mem _ List.mem_cons_self)
    rw [List.length_cons, List.length_cons] at heven
    rcases ih (k + 1) (by omega) fun tok htok =>
      hfits tok (List.mem_cons_of_mem _ (List.mem_cons_of_mem _ htok)) with ⟨more, hmore, hnames⟩
    have hroom : 0 + (input.length + 1) ≤ 512 := by omega
    have hroom' : 256 + (output.length + 1) ≤ 512 := by omega
    rcases exists_store (junk k) hroom with ⟨req, hreq⟩
    rcases exists_store req hroom' with ⟨req', hreq'⟩
    have hstored := names_of_store hinput.1 hinput.2 houtput.2 hreq hreq'
    refine ⟨req' :: more, ?_, ?_⟩
    · simp only [entries, hreq, hreq', hmore, Option.bind_some, Option.map_some]
    · rw [pairs, List.map_cons, List.map_cons, hnames, hstored.1, hstored.2]

/-- The writes stay in their fields. -/
theorem writesOf_within :
    (∀ w ∈ writesOf toks, w.2.length ≤ 256) ↔ ∀ tok ∈ toks, tok.length < 256 := by
  induction toks using List.twoStepInduction with
  | nil => simp [writesOf]
  | singleton input =>
    rw [writesOf, List.forall_mem_singleton, List.forall_mem_singleton, List.length_append]
    exact Iff.rfl
  | cons_cons input output rest ih _ =>
    rw [writesOf, List.forall_mem_cons, List.forall_mem_cons, ih, List.forall_mem_cons,
      List.forall_mem_cons, List.length_append, List.length_append]
    exact Iff.rfl

end Queue

/-! ## The workload -/

section Workload

variable [DecidableEq A] {nodes : Nat → A} {junk : Nat → Request} {text : Bytes} {s : Loading A}

/-- Every token has a partner, and fits its field as a C string. -/
structure Paired (text : Bytes) : Prop where
  even : (words isSpace text).length % 2 = 0
  fits : ∀ tok ∈ words isSpace text, tok.length < 256 ∧ 0 ∉ tok

/-- What `load_requests` leaves when it returns. -/
theorem LoadRequests.loaded (h : LoadRequests nodes junk text (.ok s))
    (hnodes : Function.Injective nodes) :
    ∃ reqs, entries junk 0 (words isSpace text) = some reqs ∧
      enqueueAll (fun _ => none) stequeInit (cellsFrom nodes 0 reqs) = .ok (s.heap, s.queue) ∧
      s.queue.Linked s.heap (cellsFrom nodes 0 reqs) ∧
      s.writes = writesOf (words isSpace text) := by
  rcases (ready_start nodes text).loads hnodes rfl with
    ⟨_, hreturns⟩ | ⟨reqs, s', hreqs, hreturns, hall, hwrites⟩
  · cases h.unique hreturns
  · cases h.unique hreturns
    refine ⟨reqs, hreqs, hall, ?_, hwrites⟩
    rcases enqueueAll_linked (linked_init fun _ => none) (cellsFrom_nodup hnodes 0 reqs)
      (fun _ _ => rfl) with ⟨heap, queue, hall', hlinked⟩
    have heq := hall.symm.trans hall'
    cases heq
    exact hlinked

/-- The pool of the worker threads on the loaded queue. -/
def Loading.pool {W : Type*} (s : Loading A) : WorkerPool.St A Request W where
  heap := s.heap
  queue := s.queue
  mutex := none
  worker := fun _ => .unlocked
  ended := none
  pops := []
  processed := fun _ => []

/-- The workers start with these requests. -/
theorem LoadRequests.pool_init {W : Type*} [DecidableEq W]
    (h : LoadRequests nodes junk text (.ok s)) (hnodes : Function.Injective nodes) :
    ∃ reqs, entries junk 0 (words isSpace text) = some reqs ∧
      (WorkerPool.sys (W := W) reqs).Init s.pool := by
  rcases h.loaded hnodes with ⟨reqs, hreqs, hall, _, _⟩
  exact ⟨reqs, hreqs, ⟨_, cellsFrom_nodup hnodes 0 reqs, cellsFrom_snd nodes 0 reqs, hall⟩, rfl,
    fun _ => rfl, rfl, rfl, fun _ => rfl⟩

/-- A token without a partner is in a request. -/
theorem ReadsWorkload.even (h : ReadsWorkload nodes junk text)
    (hnodes : Function.Injective nodes) : (words isSpace text).length % 2 = 0 := by
  rcases h with ⟨s, hload, ⟨cells, hlinked, hnames⟩, _⟩
  rcases hload.loaded hnodes with ⟨reqs, hreqs, _, hlinked', _⟩
  -- the heap has only one chain from `front`
  have hcells := hlinked.chain.det hlinked'.chain
  have hlen := congrArg List.length hnames
  have hreqlen := congrArg List.length (cellsFrom_snd nodes 0 reqs)
  rw [List.length_map, List.length_map, pairs_length, hcells] at hlen
  rw [List.length_map, entries_length hreqs] at hreqlen
  omega

theorem ReadsWorkload.fits (h : ReadsWorkload nodes junk text)
    (hnodes : Function.Injective nodes) :
    ∀ tok ∈ words isSpace text, tok.length < 256 ∧ 0 ∉ tok := by
  have heven := h.even hnodes
  rcases h with ⟨s, hload, ⟨cells, _, hnames⟩, hwithin⟩
  rcases hload.loaded hnodes with ⟨_, _, _, _, hwrites⟩
  rw [hwrites] at hwithin
  intro tok htok
  refine ⟨writesOf_within.mp hwithin tok htok, ?_⟩
  -- the token is a name of some request, and names have no NUL
  rcases exists_mem_pairs heven htok with ⟨p, hp, htok⟩
  have hmem : (some p.1, some p.2) ∈
      cells.map fun c => (c.2.inputfilename, c.2.outputfilename) := by
    rw [hnames]
    exact List.mem_map_of_mem hp
  rcases List.mem_map.mp hmem with ⟨c, _, hc⟩
  rw [Prod.mk.injEq] at hc
  rcases htok with rfl | rfl
  · exact nul_free_of_cString hc.1
  · exact nul_free_of_cString hc.2

/-- **Workload.** `load_requests` fills the queue with the pairs of tokens, each token in its
field, exactly if every token has a partner and fits. -/
theorem load_requests_iff (hnodes : Function.Injective nodes) (junk : Nat → Request)
    (text : Bytes) : ReadsWorkload nodes junk text ↔ Paired text := by
  constructor
  · intro h
    exact ⟨h.even hnodes, h.fits hnodes⟩
  · rintro ⟨heven, hfits⟩
    rcases entries_exact junk 0 heven hfits with ⟨reqs, hreqs, hnames⟩
    rcases (ready_start nodes text).loads hnodes rfl with
      ⟨hnone, _⟩ | ⟨reqs', s, hreqs', hreturns, _, hwrites⟩
    · cases hreqs.symm.trans hnone
    · cases hreqs.symm.trans hreqs'
      have hload : LoadRequests nodes junk text (.ok s) := hreturns
      rcases hload.loaded hnodes with ⟨reqs'', hreqs'', _, hlinked, _⟩
      cases hreqs.symm.trans hreqs''
      refine ⟨s, hload, ⟨_, hlinked, ?_⟩, ?_⟩
      · have hmap : (cellsFrom nodes 0 reqs).map
            (fun c => (c.2.inputfilename, c.2.outputfilename)) =
              ((cellsFrom nodes 0 reqs).map Prod.snd).map
                fun req => (req.inputfilename, req.outputfilename) := by
          rw [List.map_map]
          rfl
        rw [hmap, cellsFrom_snd, hnames]
      · rw [hwrites]
        exact writesOf_within.mpr fun tok htok => (hfits tok htok).1

end Workload

/-- Memory that `malloc` returned. -/
def scratch : Request := ⟨List.replicate 512 7, List.length_replicate⟩

/-- Two requests. -/
theorem load_requests_two :
    ReadsWorkload (fun k : Nat => k) (fun _ => scratch) (ascii "a.jpg b.jpg\nc.jpg d.jpg\n") := by
  refine (load_requests_iff Function.injective_id _ _).mpr ⟨by decide, ?_⟩
  have hwords : words isSpace (ascii "a.jpg b.jpg\nc.jpg d.jpg\n") =
      [ascii "a.jpg", ascii "b.jpg", ascii "c.jpg", ascii "d.jpg"] := by decide
  rw [hwords]
  decide

/-- The last of three tokens makes a request of its own. -/
theorem load_requests_unpaired :
    ¬ ∀ (nodes : Nat → Nat) (junk : Nat → Request) (text : Bytes), Function.Injective nodes →
      ReadsWorkload nodes junk text := by
  intro h
  have heven := (h (fun k => k) (fun _ => scratch) (ascii "a b c\n") Function.injective_id).even
    Function.injective_id
  exact absurd heven (by decide)

end IntroOS.Minify.Workload
