import IntroOS.Minify.MemoryQueue

/-! # What the two servers keep in memory

The single-threaded server gives back the bytes it got for a request, with `svc_freeargs` and
`minifyjpeg_prog_1_freeresult`. In `rpc_mt` the call of `svc_freeargs` is commented out, and the
boss returns without a `free` when it cannot decode the arguments.

1. **`rpc_mt`** (`service_memory`): how much is in use in every state the server comes to, the
   nodes of its work queue included;
2. **Single-threaded** (`Single.sys`): what is left after a number of requests;
3. **Compared** (`memory_kept`): what `rpc_mt` keeps beyond it.
-/

namespace IntroOS.Minify.Dispatch.Memory

variable {A W : Type*}

/-! ## In use

The blocks are counted on the server with a list for its queue. -/

/-- What is left of a request when it has its reply: the bytes of its arguments, or what there was
of them by then and the `thread_data`. -/
def kept (left : Bytes → Bytes) (r : Request) : Nat :=
  match xdrImageIn r.args with
  | none => sizeofThreadData + (left r.args).length
  | some arg => arg.src.length

theorem sum_map_take_succ {requests : List Request} {f : Request → Nat} {i : Nat} {r : Request}
    (hr : requests[i]? = some r) :
    ((requests.take (i + 1)).map f).sum = ((requests.take i).map f).sum + f r := by
  rw [List.take_add_one, hr, List.map_append, List.sum_append]
  simp

/-- What a worker has in use. -/
def Worker.size : Worker A → Nat
  | .idle => 0
  | .working _ | .releasing _ => sizeofThreadData
  | .replying _ res | .freeing _ res => sizeofThreadData + res.dstLen

/-- What the requests under way have in blocks beside the bytes of their arguments. -/
def St.underWay [Fintype W] (s : St A W) : Nat :=
  s.workqueue.length * sizeofThreadData + ∑ w, (s.worker w).size

/-- What is in blocks. -/
def St.inUse (s : St A W) : Nat := s.blocks.size Cell.size

section InUse

variable [DecidableEq A] [DecidableEq W] [Fintype W] {minify : Bytes → Option Bytes}
  {left : Bytes → Bytes} {requests : List Request} {s s' : St A W} {d : Dispatch.St W} {a : Act A W}

/-- The blocks are those of the requests so far and of those under way. -/
def Accounted (left : Bytes → Bytes) (requests : List Request) (s : St A W) : Prop :=
  s.inUse = ((requests.take s.received).map (kept left)).sum + s.underWay

omit [DecidableEq A] in
theorem size_srcBlock (bytes : Bytes) :
    (blockOf Cell.src bytes : Option (Cell A)).elim 0 Cell.size = bytes.length := size_blockOf rfl

omit [DecidableEq A] in
theorem size_dstBlock (bytes : Bytes) :
    (blockOf Cell.dst bytes : Option (Cell A)).elim 0 Cell.size = bytes.length := size_blockOf rfl

omit [DecidableEq A] in
/-- A worker goes on, and the blocks with it. -/
theorem Accounted.move (h : Accounted left requests s) {w : W} {v : Worker A}
    {m : Blocks A (Cell A)} (hsize : m.size Cell.size + (s.worker w).size = s.inUse + v.size) :
    Accounted left requests { s with worker := Function.update s.worker w v, blocks := m } := by
  unfold Accounted St.underWay at h ⊢
  have hsum := sum_update Worker.size s.worker w v
  simp only [St.inUse] at h hsize ⊢
  omega

theorem step_accounted (hstep : StepCase minify left requests s a s') (hm : Mirrors s d)
    (h : Accounted left requests s) : Accounted left requests s' := by
  cases hstep with
  | refuse p b r hr hp hb hpb hargs =>
    have hkept : kept left r = sizeofThreadData + (left r.args).length := by
      unfold kept
      rw [hargs]
    have hsize := Blocks.size_insert (f := Cell.size)
      (Blocks.notMem_give hp hpb (blockOf .src (left r.args))) (.threadData none)
    rw [Blocks.size_give hb, size_srcBlock] at hsize
    unfold Accounted at h ⊢
    simp only [St.inUse, St.underWay] at h ⊢
    rw [hsize, sum_map_take_succ hr, hkept, h]
    simp only [Cell.size]
    omega
  | enqueue p b r arg hr hp hb hpb hargs =>
    have hkept : kept left r = arg.src.length := by
      unfold kept
      rw [hargs]
    have hsize := Blocks.size_insert (f := Cell.size)
      (Blocks.notMem_give hp hpb (blockOf .src arg.src)) (.threadData
        (some ⟨s.received, (s.blocks.give b (blockOf .src arg.src)).1, arg.srcLen, arg.dstLen⟩))
    rw [Blocks.size_give hb, size_srcBlock] at hsize
    unfold Accounted at h ⊢
    simp only [St.inUse, St.underWay] at h ⊢
    rw [hsize, sum_map_take_succ hr, hkept, h, List.length_append, List.length_singleton,
      Nat.add_mul, Nat.one_mul]
    simp only [Cell.size]
    omega
  | take w p rest hw hq =>
    -- the `thread_data` is in the worker's hands now
    have hsum : ∑ w', (Function.update s.worker w (.working p) w').size + 0 =
        ∑ w', (s.worker w').size + sizeofThreadData := by
      have hupd := sum_update Worker.size s.worker w (.working p)
      rw [hw] at hupd
      exact hupd
    unfold Accounted at h ⊢
    simp only [St.inUse, St.underWay] at h ⊢
    rw [h, hq, List.length_cons, Nat.add_mul, Nat.one_mul]
    omega
  | exit | noArgument | noResponse | noResult | noData => exact h
  | compute w p c arg dst hw harg hdst hc =>
    apply h.move
    rw [hw, Blocks.size_give hc, size_dstBlock]
    simp only [Worker.size, St.inUse]
    omega
  | sendreply w p res transp dst hw hresp =>
    refine h.move (m := s.blocks) ?_
    rw [hw]
    rfl
  | freeresult w p res m hw hfree =>
    rcases (hm.worker_at hw).of_freeing with ⟨_, j, dst, _, hdst, hlen⟩
    rcases hdst.free (f := Cell.size) with ⟨m', hm', hsize⟩
    rw [hfree] at hm'
    cases hm'
    rw [size_dstBlock] at hsize
    apply h.move
    rw [hw]
    simp only [Worker.size, St.inUse]
    omega
  | free w p m hw hfree =>
    rcases (hm.worker_at hw).of_releasing with ⟨_, j, src, hdata, _⟩
    rcases hdata.free (f := Cell.size) with ⟨m', hm', hsize⟩
    rw [hfree] at hm'
    cases hm'
    apply h.move
    rw [hw]
    exact hsize

theorem reach_accounted (hs : (sys minify left requests).Reach (fun _ _ => True) s) :
    Accounted left requests s := by
  have hall : ∀ s : St A W, (sys minify left requests).Reach (fun _ _ => True) s →
      (∃ d, Mirrors s d) ∧ Accounted left requests s := by
    refine Sys.Reach.inv ?_ ?_
    · intro s h0
      rcases init_mirrors h0 with ⟨d, _, hm⟩
      rcases h0 with ⟨hreceived, hqueue, hidle, hblocks, _, _⟩
      refine ⟨⟨d, hm⟩, ?_⟩
      unfold Accounted St.inUse St.underWay
      rw [hreceived, hqueue, hblocks, Finset.sum_eq_zero fun w _ => by rw [hidle w]; rfl]
      rfl
    · rintro s a s' _ hstep ⟨⟨d, hm⟩, h⟩
      obtain ⟨hrun, hcase⟩ := sys_step_cases hstep
      rcases step_mirrors hcase hrun hm with ⟨d', _, hm'⟩
      exact ⟨⟨d', hm'⟩, step_accounted hcase hm h⟩
  exact (hall s hs).2

end InUse

/-! ### With the nodes of the queue -/

/-- `sizeof(steque_node_t)`. -/
def sizeofNode : Nat := 16

/-- What is in use, in blocks and in nodes. -/
noncomputable def bytesInUse (s : QSt A W) : Nat :=
  s.base.inUse + {a | s.work.heap a ≠ none}.ncard * sizeofNode

/-- What the requests under way have in use beside the bytes of their arguments. One that waits
has a node. -/
def bytesUnderWay [Fintype W] (s : QSt A W) : Nat :=
  (OnSteque.waiting s.work).length * (sizeofThreadData + sizeofNode) + ∑ w, (s.base.worker w).size

section Nodes

variable [DecidableEq A] [DecidableEq W] [Fintype W] {minify : Bytes → Option Bytes}
  {left : Bytes → Bytes} {requests : List Request} {s : QSt A W}

theorem bytes_accounted
    (hs : (onQueue minify left requests).Reach (Undisturbed minify left requests) s) :
    bytesInUse s = ((requests.take s.base.received).map (kept left)).sum + bytesUnderWay s := by
  obtain ⟨hlist, hserving⟩ := reach_list hs
  have hnodes := hserving.nodes.ncard
  have hblocks : s.base.inUse = ((requests.take s.base.received).map (kept left)).sum +
      ((OnSteque.waiting s.work).length * sizeofThreadData + ∑ w, (s.base.worker w).size) :=
    reach_accounted hlist
  unfold bytesInUse bytesUnderWay
  rw [hnodes, hblocks, Nat.mul_add]
  omega

/-- **Memory.** For any number of workers in any interleaving in which no pop cuts into the boss's
`steque_enqueue`, wherever `malloc` puts the blocks and the nodes: none of them is used or given
back after it was given back, the server replies what the dispatcher does, and beside what the
requests under way need it has all the arguments it ever received in use, and a `thread_data` for
each request it could not decode. -/
theorem service_memory
    (hs : (onQueue minify left requests).Reach (Undisturbed minify left requests) s) :
    s.base.ended ≠ some .dangling ∧ s.work.fault = none ∧
      (∃ d : Dispatch.St W, (Dispatch.sys minify requests).Reach (fun _ _ => True) d ∧
        d.received = s.base.received ∧ d.reply = s.base.reply) ∧
      bytesInUse s = ((requests.take s.base.received).map (kept left)).sum + bytesUnderWay s := by
  obtain ⟨hlist, hserving⟩ := reach_list hs
  rcases reach_mirrors hlist with ⟨d, hd, h⟩
  have hended : s.base.ended = if d.exited then some .exit else none := h.ended
  refine ⟨?_, hserving.queue.1, ⟨d, hd, h.received, h.reply⟩, bytes_accounted hs⟩
  rw [hended]
  split <;> exact fun hsame => by cases hsame

end Nodes

/-- Two images. -/
def twoImages : List Request := [Dispatch.oneByte, Dispatch.oneByte]

/-- A `svc_getargs` that has made room for the bytes by then. -/
def zeros (args : Bytes) : Bytes :=
  match Dispatch.xdrUInt args with
  | none => []
  | some (len, _) => List.replicate len 0

/-- The second image is on its way into the queue while the first one is minified, with its result
at the address of the node that it had. -/
theorem service_memory_two : ∃ s : QSt Nat (Fin 1),
    (s.base.ended ≠ some .dangling ∧ s.work.fault = none ∧
      (∃ d : Dispatch.St (Fin 1), (Dispatch.sys some twoImages).Reach (fun _ _ => True) d ∧
        d.received = s.base.received ∧ d.reply = s.base.reply) ∧
      bytesInUse s = ((twoImages.take s.base.received).map (kept zeros)).sum + bytesUnderWay s) ∧
    s.base.received = 2 ∧ bytesUnderWay s = 97 := by
  have hrun : ((onQueue some zeros twoImages).run .start [.act (.receive 0 1) 2, .boss .testBack,
      .boss .link, .boss .storeBack, .boss .loadN, .boss .storeN, .act (.receive 3 4) 5,
      .act (.take 0) 6, .boss .testBack, .act (.compute 0 2) 6, .boss .link]).map
      (fun s : QSt Nat (Fin 1) => (s.base.received, bytesUnderWay s)) = some (2, 97) := by decide
  rcases Option.map_eq_some_iff.mp hrun with ⟨s, hs, hout⟩
  rw [Prod.mk.injEq] at hout
  refine ⟨s, ?_, hout⟩
  apply service_memory
  exact Sys.reach_of_run (.init qstart_init) (by decide) hs

/-! ## The single-threaded server -/

namespace Single

structure St (A : Type*) where
  /-- how many requests it came to -/
  received : Nat
  blocks : Blocks A (Cell A)
  ended : Option Ended

section Step

variable [DecidableEq A] (minify : Bytes → Option Bytes) (left : Bytes → Bytes)
  (requests : List Request)

/-- `minifyjpeg_prog_1` on the next request, with the addresses of the bytes and of the result. -/
def step (s : St A) : A × A → Option (St A)
  | (b, c) =>
    match requests[s.received]? with
    | none => none
    | some r =>
      -- nothing is read for `NULLPROC` or an unknown procedure
      if r.proc ≠ minifyjpegProc then some { s with received := s.received + 1 }
      else if b ∈ s.blocks ∨ c ∈ s.blocks ∨ b = c then none
      else
        match xdrImageIn r.args with
        | none => some { s with
            received := s.received + 1
            blocks := (s.blocks.give b (blockOf .src (left r.args))).2 }
        | some arg =>
          let got := s.blocks.give b (blockOf .src arg.src)
          match minifyjpegProc1Svc minify arg with
          | none => some { s with ended := some .exit }
          | some dst =>
            let made := got.2.give c (blockOf .dst dst)
            -- `svc_freeargs`
            match made.2.free got.1 with
            | none => some { s with ended := some .dangling }
            | some m =>
              -- `minifyjpeg_prog_1_freeresult`
              match m.free made.1 with
              | none => some { s with ended := some .dangling }
              | some m => some { s with received := s.received + 1, blocks := m }

def sys : Sys (St A) (A × A) where
  Init s := s.received = 0 ∧ s.blocks = ∅ ∧ s.ended = none
  step s a := if s.ended.isSome then none else step minify left requests s a

end Step

def St.start : St A where
  received := 0
  blocks := ∅
  ended := none

def St.inUse (s : St A) : Nat := s.blocks.size Cell.size

/-- What is left of a request. -/
def kept (left : Bytes → Bytes) (r : Request) : Nat :=
  if r.proc = minifyjpegProc ∧ xdrImageIn r.args = none then (left r.args).length else 0

/-- Only arguments that could not be decoded are left. -/
structure Accounted (left : Bytes → Bytes) (requests : List Request) (s : St A) : Prop where
  sound : s.ended ≠ some .dangling
  inUse : s.inUse = ((requests.take s.received).map (kept left)).sum

section Accounted

variable [DecidableEq A] {minify : Bytes → Option Bytes} {left : Bytes → Bytes}
  {requests : List Request} {s s' : St A}

/-- Both blocks of a call can be given back, in this order. -/
theorem frees {m : Blocks A (Cell A)} {b c : A} (hb : b ∉ m) (hc : c ∉ m) (hbc : b ≠ c)
    (src dst : Bytes) :
    ∃ m₁ m₂, ((m.give b (blockOf .src src)).2.give c (blockOf .dst dst)).2.free
        (m.give b (blockOf .src src)).1 = some m₁ ∧
      m₁.free ((m.give b (blockOf .src src)).2.give c (blockOf .dst dst)).1 = some m₂ ∧
      m₂.size Cell.size = m.size Cell.size := by
  have hc' : c ∉ (m.give b (blockOf .src src)).2 := Blocks.notMem_give hc hbc.symm _
  have hgot := (Blocks.holds_give m b (blockOf .src src)).give hc' (blockOf .dst dst)
  have hmade := Blocks.holds_give (m.give b (blockOf .src src)).2 c (blockOf .dst dst)
  rcases hgot.free (f := Cell.size) with ⟨m₁, hm₁, hsize₁⟩
  have hne : (m.give b (blockOf .src src)).1 = none ∨
      ((m.give b (blockOf .src src)).2.give c (blockOf .dst dst)).1 ≠
        (m.give b (blockOf .src src)).1 := by
    cases hp : (m.give b (blockOf .src src)).1 with
    | none => exact Or.inl rfl
    | some b' =>
      refine Or.inr fun hsame => hbc ?_
      exact Option.some.inj ((Blocks.give_eq_some hp).symm.trans (Blocks.give_eq_some hsame))
  rcases (hmade.of_free hne hm₁).free (f := Cell.size) with ⟨m₂, hm₂, hsize₂⟩
  refine ⟨m₁, m₂, hm₁, hm₂, ?_⟩
  rw [Blocks.size_give hc', Blocks.size_give hb] at hsize₁
  omega

theorem step_accounted {a : A × A} (hstep : step minify left requests s a = some s') (h : Accounted left requests s) :
    Accounted left requests s' := by
  obtain ⟨b, c⟩ := a
  simp only [step] at hstep
  split at hstep
  · cases hstep
  · rename_i r hr
    have hsum : ((requests.take (s.received + 1)).map (kept left)).sum =
        s.inUse + kept left r := by
      rw [sum_map_take_succ hr, h.inUse]
    split at hstep
    · rename_i hproc
      cases hstep
      refine ⟨h.sound, ?_⟩
      rw [hsum]
      unfold kept
      rw [if_neg fun hboth => hproc hboth.1]
      rfl
    · rename_i hproc
      rw [not_not] at hproc
      split at hstep
      · cases hstep
      · rename_i hfresh
        rw [not_or, not_or] at hfresh
        obtain ⟨hb, hc, hbc⟩ := hfresh
        split at hstep
        · rename_i hargs
          cases hstep
          refine ⟨h.sound, ?_⟩
          rw [hsum]
          unfold kept
          rw [if_pos ⟨hproc, hargs⟩]
          show Blocks.size Cell.size _ = _
          rw [Blocks.size_give hb, size_srcBlock]
          rfl
        · rename_i arg hargs
          have hkept : kept left r = 0 := by
            unfold kept
            rw [if_neg]
            rintro ⟨_, hnone⟩
            rw [hargs] at hnone
            cases hnone
          split at hstep
          · cases hstep
            refine ⟨?_, h.inUse⟩
            exact fun hsame => by cases hsame
          · rename_i dst hdst
            rcases frees hb hc hbc arg.src dst with ⟨m₁, m₂, hm₁, hm₂, hsize⟩
            rw [hm₁] at hstep
            simp only [hm₂] at hstep
            cases hstep
            refine ⟨h.sound, ?_⟩
            rw [hsum, hkept]
            exact hsize

theorem reach_accounted (hs : (sys minify left requests).Reach (fun _ _ => True) s) :
    Accounted left requests s := by
  apply Sys.Reach.inv _ _ s hs
  · rintro s ⟨hreceived, hblocks, hended⟩
    refine ⟨?_, ?_⟩
    · rw [hended]
      exact fun hsame => by cases hsame
    · unfold St.inUse
      rw [hreceived, hblocks]
      rfl
  · intro s a s' _ hstep h
    have hstep' : (if s.ended.isSome then none else step minify left requests s a) = some s' :=
      hstep
    split at hstep'
    · cases hstep'
    · exact step_accounted hstep' h

end Accounted

theorem start_init [DecidableEq A] {minify : Bytes → Option Bytes} {left : Bytes → Bytes}
    {requests : List Request} : (sys minify left requests).Init (St.start : St A) :=
  ⟨rfl, rfl, rfl⟩

end Single

/-! ## Compared -/

section Compared

variable [DecidableEq A] [DecidableEq W] [Fintype W] {minify : Bytes → Option Bytes}
  {left : Bytes → Bytes} {requests : List Request}

/-- What `rpc_mt` keeps of a request and the single-threaded server does not. -/
def beyond (r : Request) : Nat :=
  match xdrImageIn r.args with
  | none => sizeofThreadData
  | some arg => arg.src.length

theorem kept_eq {r : Request} (hproc : r.proc = minifyjpegProc) :
    kept left r = Single.kept left r + beyond r := by
  unfold kept Single.kept beyond
  cases hargs : xdrImageIn r.args with
  | none =>
    rw [if_pos ⟨hproc, rfl⟩]
    exact Nat.add_comm _ _
  | some arg =>
    rw [if_neg (fun hboth => by cases hboth.2)]
    exact (Nat.zero_add _).symm

/-- **What is kept.** When both servers have come through the same calls of `MINIFYJPEG_PROC`, the
queue is empty and no worker is busy, `rpc_mt` has in use what the other one has, and beyond it
every image that it received and a `thread_data` for every request that it could not decode. -/
theorem memory_kept (hproc : ∀ r ∈ requests, r.proc = minifyjpegProc) {s : QSt A W}
    (hs : (onQueue minify left requests).Reach (Undisturbed minify left requests) s)
    {t : Single.St A} (ht : (Single.sys minify left requests).Reach (fun _ _ => True) t)
    (hsame : s.base.received = t.received) (hboss : s.work.boss = .idle)
    (hqueue : stequeIsempty s.work.queue = true) (hidle : ∀ w, s.base.worker w = .idle) :
    bytesInUse s = t.inUse + ((requests.take s.base.received).map beyond).sum := by
  have hunderWay : bytesUnderWay s = 0 := by
    obtain ⟨_, hserving⟩ := reach_list hs
    unfold bytesUnderWay
    rw [OnSteque.waiting_of_empty hserving.queue hboss hqueue,
      Finset.sum_eq_zero fun w _ => by rw [hidle w]; rfl]
    rfl
  have hkept : (requests.take s.base.received).map (kept left) =
      (requests.take s.base.received).map fun r => Single.kept left r + beyond r := by
    apply List.map_congr_left
    intro r hr
    exact kept_eq (hproc r (List.mem_of_mem_take hr))
  rw [bytes_accounted hs, hunderWay, (Single.reach_accounted ht).inUse, ← hsame, hkept,
    List.sum_map_add, Nat.add_zero]

end Compared

/-- An image, and arguments of which only the length came. -/
def twoRequests : List Request := [Dispatch.oneByte, ⟨1, [0, 0, 0, 2]⟩]

/-- Two bytes were on their way, and are left in both servers. The first request has not had its
reply when the second one comes. -/
theorem memory_kept_two : ∃ (s : QSt Nat (Fin 1)) (t : Single.St Nat),
    bytesInUse s = t.inUse + ((twoRequests.take s.base.received).map beyond).sum ∧
      s.base.received = 2 ∧ t.inUse = 2 := by
  have hmt : ((onQueue some zeros twoRequests).run .start [.act (.receive 0 1) 2, .boss .testBack,
      .boss .link, .boss .storeBack, .boss .loadN, .boss .storeN, .act (.take 0) 9,
      .act (.compute 0 2) 9, .act (.receive 3 4) 5, .act (.sendreply 0) 9, .act (.freeresult 0) 9,
      .act (.free 0) 9]).map
      (fun s : QSt Nat (Fin 1) => (s.base.received, s.work.boss, stequeIsempty s.work.queue,
        s.base.worker 0)) = some (2, .idle, true, .idle) := by decide
  have hone : ((Single.sys some zeros twoRequests).run .start [(0, 1), (1, 0)]).map
      (fun t : Single.St Nat => (t.inUse, t.received)) = some (2, 2) := by decide
  rcases Option.map_eq_some_iff.mp hmt with ⟨s, hs, hout⟩
  rcases Option.map_eq_some_iff.mp hone with ⟨t, ht, hout'⟩
  simp only [Prod.mk.injEq] at hout hout'
  obtain ⟨hreceived, hboss, hqueue, hidle⟩ := hout
  refine ⟨s, t, ?_, hreceived, hout'.1⟩
  have hproc : ∀ r ∈ twoRequests, r.proc = minifyjpegProc := by decide
  refine memory_kept hproc (Sys.reach_of_run (.init qstart_init) (by decide) hs)
    (Sys.reach_of_run (.init Single.start_init) (Sys.runOk_of_all fun _ _ => trivial) ht)
    (hreceived.trans hout'.2.symm) hboss hqueue fun w => ?_
  rw [Subsingleton.elim w 0]
  exact hidle

end IntroOS.Minify.Dispatch.Memory
