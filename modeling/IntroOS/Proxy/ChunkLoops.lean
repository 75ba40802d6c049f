import IntroOS.Proxy.CacheCodec

/-! # Chunk loops and the announced length

Three loops move a file chunk by chunk up to a length that was taken from it before:
`handle_with_file` and `handle_with_cache` send it, the worker of the cache puts it into its
mapping. Each of them asks for a whole buffer in every round, also in the last one, so its bound
rests on an object that others may grow or shrink in the meantime.

* `amount`: what the first rounds of a loop moved, and why such a loop ends;
* `copyFile_moves_iff`: the loop of the two handlers;
* `workerCopy`, `workerCopy_stays_iff`: the loop of the worker;
* `chunk_loops_iff`: all three.
-/

namespace IntroOS.Proxy

/-! ## Amounts -/

/-- What the first `k` rounds move. -/
def amount (n : Nat → Nat) : Nat → Nat
  | 0 => 0
  | k + 1 => amount n k + n k

theorem le_amount {n : Nat → Nat} {k : Nat} (h : ∀ i < k, 0 < n i) : k ≤ amount n k := by
  induction k with
  | zero => exact Nat.le_refl 0
  | succ k ih =>
    have hk := ih fun i hi => h i (Nat.lt_succ_of_lt hi)
    have hpos := h k (Nat.lt_succ_self k)
    show k + 1 ≤ amount n k + n k
    omega

/-- Rounds that all move something and stay below a bound come to an end. -/
theorem exists_last {n : Nat → Nat} {Goes : Nat → Prop} {bound : Nat}
    (hgoes : ∀ k, Goes k → 0 < n k ∧ amount n k < bound) :
    ∃ k, (∀ i < k, Goes i) ∧ ¬ Goes k := by
  classical
  have hstops : ∃ k, ¬ Goes k := by
    by_contra hall
    have hgoes' : ∀ k, Goes k := fun k => by_contra fun hk => hall ⟨k, hk⟩
    have hle := le_amount (n := n) (k := bound) fun i _ => (hgoes i (hgoes' i)).1
    have hlt := (hgoes bound (hgoes' bound)).2
    omega
  refine ⟨Nat.find hstops, ?_, Nat.find_spec hstops⟩
  intro i hi
  exact not_not.mp (Nat.find_min hstops hi)

/-! ## The loop of the handlers -/

section Handlers

variable {size fileLen : Nat} {chunk : Nat → Chunk size}

/-- The bytes that `gfs_send` took. -/
def Chunk.taken (c : Chunk size) : Nat := (c.data.take c.written.toNat).length

/-- Behind the OK header there are never more bytes than announced, and not fewer unless the
handler reports an error. -/
def Outcome.MovesExactly (fileLen : Nat) (o : Outcome UInt8) : Prop :=
  o.headers = [.ok fileLen] ∧ o.sent.length ≤ fileLen ∧
    ((o.sent.length = fileLen ∧ o.ret = toInt64 fileLen) ∨ o.ret = serverFailure)

/-- Wherever the loop comes to read, `gfs_send` takes at most what is left of the length. -/
def StaysWithin (fileLen : Nat) (chunk : Nat → Chunk size) : Prop :=
  ∀ k, (∀ i < k, (chunk i).Full) → copied chunk k < fileLen →
    copied chunk k + (chunk k).taken ≤ fileLen

theorem copied_eq_amount (chunk : Nat → Chunk size) (k : Nat) :
    copied chunk k = amount (fun i => (chunk i).data.length) k := by
  induction k with
  | zero => rfl
  | succ k ih =>
    show copied chunk k + _ = amount _ k + _
    rw [ih]

theorem gathered_length (chunk : Nat → Chunk size) (k : Nat) :
    (gathered chunk k).length = copied chunk k := by
  induction k with
  | zero => rfl
  | succ k ih =>
    show (gathered chunk k ++ (chunk k).data).length = copied chunk k + (chunk k).data.length
    rw [List.length_append, ih]

theorem Chunk.Full.taken {c : Chunk size} (h : c.Full) : c.taken = c.data.length := by
  rw [Chunk.taken, h.2, Int.toNat_natCast, List.take_length]

/-- A round of the loop that stays within the length. -/
def GoesWithin (fileLen : Nat) (chunk : Nat → Chunk size) (k : Nat) : Prop :=
  CopyGoes fileLen chunk k ∧ copied chunk (k + 1) ≤ fileLen

/-- The state of the loop after `k` rounds. -/
def copyAt (chunk : Nat → Chunk size) (k : Nat) : Copy := ⟨copied chunk k, k, gathered chunk k⟩

/-- What is sent stays sent. -/
theorem copyRound_sent {s : Copy} :
    (∀ s', copyRound fileLen chunk s = .inl s' → s.sent <+: s'.sent) ∧
      ∀ r, copyRound fileLen chunk s = .inr r → s.sent <+: r.1 := by
  unfold copyRound
  dsimp only
  refine ⟨?_, ?_⟩
  · intro s' hstep
    split at hstep
    · cases hstep
    · split at hstep
      · cases hstep
      · split at hstep
        · cases hstep
        · cases hstep
          exact List.prefix_append _ _
  · intro r hstep
    split at hstep
    · cases hstep
      exact List.prefix_rfl
    · split at hstep
      · cases hstep
        exact List.prefix_rfl
      · split at hstep
        · cases hstep
          exact List.prefix_append _ _
        · cases hstep

/-- A loop that has sent more than `n` bytes ends with more, if it ends. -/
theorem returns_sent_gt {s : Copy} {r : Bytes × Int} {n : Nat} (hn : n < s.sent.length)
    (hr : Returns (copyRound fileLen chunk) s r) : n < r.1.length := by
  have hround : ∀ s s' : Copy, n < s.sent.length → copyRound fileLen chunk s = .inl s' →
      n < s'.sent.length := fun s s' hs hstep =>
    lt_of_lt_of_le hs (copyRound_sent.1 s' hstep).length_le
  have hexit : ∀ (s : Copy) (r : Bytes × Int), n < s.sent.length →
      copyRound fileLen chunk s = .inr r → n < r.1.length := fun s r hs hstep =>
    lt_of_lt_of_le hs (copyRound_sent.2 r hstep).length_le
  exact Returns.post hround hexit hn hr

/-- A round that takes more than is left ends the bound. -/
theorem returns_beyond {k : Nat} (hlt : copied chunk k < fileLen)
    (hbeyond : fileLen < copied chunk k + (chunk k).taken) {r : Bytes × Int}
    (hr : Returns (copyRound fileLen chunk) (copyAt chunk k) r) : fileLen < r.1.length := by
  have hlonger : fileLen < (gathered chunk k ++
      (chunk k).data.take (chunk k).written.toNat).length := by
    rw [List.length_append, gathered_length]
    exact hbeyond
  have hne : (chunk k).data ≠ [] := by
    intro hnil
    rw [Chunk.taken, hnil, List.take_nil, List.length_nil] at hbeyond
    omega
  by_cases hfull : (chunk k).written = (chunk k).data.length
  · have hbody : copyRound fileLen chunk (copyAt chunk k) =
        .inl ⟨(copied chunk k + (chunk k).data.length) % 2 ^ 64, k + 1,
          gathered chunk k ++ (chunk k).data.take (chunk k).written.toNat⟩ := by
      unfold copyRound copyAt
      dsimp only
      rw [if_neg (not_not_intro hlt), if_neg hne, if_neg (not_not_intro hfull)]
    exact returns_sent_gt hlonger ((Returns.round_iff hbody).mp hr)
  · have hbody : copyRound fileLen chunk (copyAt chunk k) =
        .inr (gathered chunk k ++ (chunk k).data.take (chunk k).written.toNat, serverFailure) := by
      unfold copyRound copyAt
      dsimp only
      rw [if_neg (not_not_intro hlt), if_neg hne, if_pos hfull]
    rw [(Returns.exit_iff hbody).mp hr]
    exact hlonger

/-- The loop after `k` rounds that stay within the length. -/
theorem returns_copyAt (hlen : fileLen < 2 ^ 64) {k : Nat}
    (h : ∀ i < k, GoesWithin fileLen chunk i) {r : Bytes × Int} :
    Returns (copyRound fileLen chunk) ⟨0, 0, []⟩ r ↔
      Returns (copyRound fileLen chunk) (copyAt chunk k) r :=
  returns_trace (f := copyAt chunk)
    (fun _ _ hgoes => copyRound_goes hgoes.1 (lt_of_le_of_lt hgoes.2 hlen)) h

theorem copied_mono (chunk : Nat → Chunk size) : Monotone (copied chunk) :=
  monotone_nat_of_le_succ fun _ => Nat.le_add_right _ _

/-- Full chunks that have not reached the length have stayed within it. -/
theorem goesWithin_of_lt {k : Nat} (hfull : ∀ i < k, (chunk i).Full)
    (hlt : copied chunk k < fileLen) : ∀ i < k, GoesWithin fileLen chunk i := by
  intro i hi
  have hle := copied_mono chunk (Nat.le_of_lt hi)
  have hnext := copied_mono chunk (Nat.succ_le_of_lt hi)
  exact ⟨⟨lt_of_le_of_lt hle hlt, hfull i hi⟩, le_trans hnext (Nat.le_of_lt hlt)⟩

/-- Rounds within the length end at the length or at a chunk that is not full. -/
theorem StaysWithin.last (h : StaysWithin fileLen chunk) :
    ∃ k, (∀ i < k, GoesWithin fileLen chunk i) ∧ (copied chunk k = fileLen ∨
      (copied chunk k + (chunk k).taken ≤ fileLen ∧ copied chunk k < fileLen ∧
        ¬ (chunk k).Full)) := by
  have hgoes : ∀ k, GoesWithin fileLen chunk k →
      0 < (chunk k).data.length ∧ amount (fun i => (chunk i).data.length) k < fileLen := by
    rintro k ⟨⟨hlt, hne, _⟩, _⟩
    rw [← copied_eq_amount]
    exact ⟨List.length_pos_iff.mpr hne, hlt⟩
  rcases exists_last hgoes with ⟨k, hbefore, hstop⟩
  refine ⟨k, hbefore, ?_⟩
  have hfull : ∀ i < k, (chunk i).Full := fun i hi => (hbefore i hi).1.2
  by_cases hlt : copied chunk k < fileLen
  · have hle := h k hfull hlt
    refine Or.inr ⟨hle, hlt, ?_⟩
    intro hk
    rw [hk.taken] at hle
    exact hstop ⟨⟨hlt, hk⟩, hle⟩
  · left
    cases k with
    | zero =>
      have hzero : copied chunk 0 = 0 := rfl
      omega
    | succ k =>
      have hle := (hbefore k (Nat.lt_succ_self k)).2
      omega

/-- **The handlers.** The loop moves exactly the announced length, or reports an error, exactly if
no round takes more than is left. -/
theorem copyFile_moves_iff (hlen : fileLen < 2 ^ 64) :
    Ends (copyFile fileLen chunk) (Outcome.MovesExactly fileLen) ↔ StaysWithin fileLen chunk := by
  unfold copyFile
  rw [ends_loop]
  constructor
  · rintro ⟨r, hr, _, hbound, _⟩ k hfull hlt
    by_contra hbeyond
    rw [returns_copyAt hlen (goesWithin_of_lt hfull hlt)] at hr
    have hgt := returns_beyond hlt (Nat.lt_of_not_le hbeyond) hr
    exact absurd hbound (Nat.not_le_of_lt hgt)
  · intro hwithin
    rcases hwithin.last with ⟨k, hbefore, hend⟩
    have hstop : ¬ CopyGoes fileLen chunk k := by
      rintro ⟨hlt, hfull⟩
      rcases hend with hall | ⟨_, _, hnot⟩
      · omega
      · exact hnot hfull
    refine ⟨copyEnd fileLen chunk k, ?_, rfl, ?_⟩
    · rw [returns_copyAt hlen hbefore]
      exact (Returns.exit_iff (copyRound_stops hstop)).mpr rfl
    · unfold copyEnd
      rcases hend with hall | ⟨hle, hlt, _⟩
      · rw [if_pos (Nat.le_of_eq hall.symm), gathered_length, hall]
        exact ⟨Nat.le_refl fileLen, Or.inl ⟨rfl, rfl⟩⟩
      · rw [if_neg (Nat.not_le_of_lt hlt), List.length_append, gathered_length]
        exact ⟨hle, Or.inr rfl⟩

end Handlers

/-! ## The loop of the worker -/

/-- The variables of the loop, and what it wrote: each `memcpy` with its offset in the mapping. -/
structure WorkerCopy where
  transferred : Nat
  /-- how often `pread` was called -/
  reads : Nat
  writes : List (Nat × Bytes)

/-- How the loop ends: what it wrote, and `bytes_transferred` unless it reports an error. -/
structure WorkerEnd where
  writes : List (Nat × Bytes)
  transferred : Option Nat

/-- A round of `while(bytes_transferred < file_len)` in `worker`. A `pread` without data has
reached the end of the file or failed. -/
def workerRound (fileLen : Nat) (pread : Nat → Bytes) (s : WorkerCopy) : WorkerCopy ⊕ WorkerEnd :=
  if ¬ s.transferred < fileLen then .inr ⟨s.writes, some s.transferred⟩
  else if pread s.reads = [] then .inr ⟨s.writes, none⟩
  else .inl ⟨(s.transferred + (pread s.reads).length) % 2 ^ 64, s.reads + 1,
    s.writes ++ [(s.transferred, pread s.reads)]⟩

/-- The length of all that was written. -/
def written (writes : List (Nat × Bytes)) : Nat := (writes.map fun w => w.2.length).sum

/-- The loop ends; it never wrote at an offset at or past the length of the mapping, and it wrote
exactly that length unless it reports an error. -/
def WorkerMovesExactly (fileLen : Nat) (pread : Nat → Bytes) : Prop :=
  ∃ e, Returns (workerRound fileLen pread) ⟨0, 0, []⟩ e ∧
    (∀ w ∈ e.writes, w.1 + w.2.length ≤ fileLen) ∧
    ((e.transferred = some fileLen ∧ written e.writes = fileLen) ∨ e.transferred = none)

/-- Wherever the loop comes to read, `pread` returns at most what is left of the length. -/
def ReadsWithin (fileLen : Nat) (pread : Nat → Bytes) : Prop :=
  ∀ k, (∀ i < k, pread i ≠ []) → amount (fun i => (pread i).length) k < fileLen →
    amount (fun i => (pread i).length) k + (pread k).length ≤ fileLen

section Worker

variable {fileLen : Nat} {pread : Nat → Bytes}

/-- What the first `k` rounds wrote. -/
def writesAt (pread : Nat → Bytes) : Nat → List (Nat × Bytes)
  | 0 => []
  | k + 1 => writesAt pread k ++ [(amount (fun i => (pread i).length) k, pread k)]

/-- The state of the loop after `k` rounds. -/
def workerAt (pread : Nat → Bytes) (k : Nat) : WorkerCopy :=
  ⟨amount (fun i => (pread i).length) k, k, writesAt pread k⟩

/-- A round of the loop that stays within the length. -/
def WorkerGoes (fileLen : Nat) (pread : Nat → Bytes) (k : Nat) : Prop :=
  amount (fun i => (pread i).length) k < fileLen ∧ pread k ≠ [] ∧
    amount (fun i => (pread i).length) (k + 1) ≤ fileLen

theorem written_writesAt (pread : Nat → Bytes) (k : Nat) :
    written (writesAt pread k) = amount (fun i => (pread i).length) k := by
  induction k with
  | zero => rfl
  | succ k ih =>
    unfold written at ih ⊢
    rw [writesAt, List.map_append, List.sum_append, ih, List.map_singleton, List.sum_singleton]
    rfl

theorem workerRound_goes (hlen : fileLen < 2 ^ 64) {k : Nat} (h : WorkerGoes fileLen pread k) :
    workerRound fileLen pread (workerAt pread k) = .inl (workerAt pread (k + 1)) := by
  rcases h with ⟨hlt, hne, hle⟩
  have hmod : (amount (fun i => (pread i).length) k + (pread k).length) % 2 ^ 64 =
      amount (fun i => (pread i).length) (k + 1) := Nat.mod_eq_of_lt (lt_of_le_of_lt hle hlen)
  unfold workerRound workerAt
  dsimp only
  rw [if_neg (not_not_intro hlt), if_neg hne, hmod]
  rfl

theorem returns_workerAt (hlen : fileLen < 2 ^ 64) {k : Nat}
    (h : ∀ i < k, WorkerGoes fileLen pread i) {e : WorkerEnd} :
    Returns (workerRound fileLen pread) ⟨0, 0, []⟩ e ↔
      Returns (workerRound fileLen pread) (workerAt pread k) e :=
  returns_trace (f := workerAt pread) (fun _ _ hgoes => workerRound_goes hlen hgoes) h

/-- What is written stays written. -/
theorem returns_writes {s : WorkerCopy} {w : Nat × Bytes} (hw : w ∈ s.writes) {e : WorkerEnd}
    (he : Returns (workerRound fileLen pread) s e) : w ∈ e.writes := by
  have hround : ∀ s s' : WorkerCopy, w ∈ s.writes → workerRound fileLen pread s = .inl s' →
      w ∈ s'.writes := by
    intro s s' hs hstep
    unfold workerRound at hstep
    split at hstep
    · cases hstep
    · split at hstep
      · cases hstep
      · cases hstep
        exact List.mem_append_left _ hs
  have hexit : ∀ (s : WorkerCopy) (e : WorkerEnd), w ∈ s.writes →
      workerRound fileLen pread s = .inr e → w ∈ e.writes := by
    intro s e hs hstep
    unfold workerRound at hstep
    split at hstep
    · cases hstep
      exact hs
    · split at hstep
      · cases hstep
        exact hs
      · cases hstep
  exact Returns.post hround hexit hw he

/-- The writes of rounds that stay within the length. -/
theorem writesAt_within {k : Nat} (h : ∀ i < k, WorkerGoes fileLen pread i) :
    ∀ w ∈ writesAt pread k, w.1 + w.2.length ≤ fileLen := by
  induction k with
  | zero =>
    intro w hw
    cases hw
  | succ k ih =>
    intro w hw
    rcases List.mem_append.mp hw with hold | hnew
    · exact ih (fun i hi => h i (Nat.lt_succ_of_lt hi)) w hold
    · rw [List.mem_singleton.mp hnew]
      exact (h k (Nat.lt_succ_self k)).2.2

theorem amount_mono (n : Nat → Nat) : Monotone (amount n) :=
  monotone_nat_of_le_succ fun _ => Nat.le_add_right _ _

theorem workerGoes_of_lt {k : Nat} (hne : ∀ i < k, pread i ≠ [])
    (hlt : amount (fun i => (pread i).length) k < fileLen) :
    ∀ i < k, WorkerGoes fileLen pread i := by
  intro i hi
  have hle := amount_mono (fun i => (pread i).length) (Nat.le_of_lt hi)
  have hnext := amount_mono (fun i => (pread i).length) (Nat.succ_le_of_lt hi)
  exact ⟨lt_of_le_of_lt hle hlt, hne i hi, le_trans hnext (Nat.le_of_lt hlt)⟩

/-- Rounds within the length end at the length or at a `pread` without data. -/
theorem ReadsWithin.last (h : ReadsWithin fileLen pread) :
    ∃ k, (∀ i < k, WorkerGoes fileLen pread i) ∧
      (amount (fun i => (pread i).length) k = fileLen ∨
        (amount (fun i => (pread i).length) k < fileLen ∧ pread k = [])) := by
  have hgoes : ∀ k, WorkerGoes fileLen pread k →
      0 < (pread k).length ∧ amount (fun i => (pread i).length) k < fileLen :=
    fun k hk => ⟨List.length_pos_iff.mpr hk.2.1, hk.1⟩
  rcases exists_last hgoes with ⟨k, hbefore, hstop⟩
  refine ⟨k, hbefore, ?_⟩
  by_cases hlt : amount (fun i => (pread i).length) k < fileLen
  · have hle := h k (fun i hi => (hbefore i hi).2.1) hlt
    refine Or.inr ⟨hlt, ?_⟩
    by_contra hne
    exact hstop ⟨hlt, hne, hle⟩
  · left
    cases k with
    | zero =>
      have hzero : amount (fun i => (pread i).length) 0 = 0 := rfl
      omega
    | succ k =>
      have hle := (hbefore k (Nat.lt_succ_self k)).2.2
      omega

/-- **The worker.** The loop stays inside the mapping and fills it, or reports an error, exactly if
no `pread` returns more than is left. -/
theorem workerCopy_stays_iff (hlen : fileLen < 2 ^ 64) :
    WorkerMovesExactly fileLen pread ↔ ReadsWithin fileLen pread := by
  constructor
  · rintro ⟨e, he, hbound, _⟩ k hne hlt
    by_contra hbeyond
    rw [returns_workerAt hlen (workerGoes_of_lt hne hlt)] at he
    have hk : pread k ≠ [] := by
      intro hnil
      rw [hnil, List.length_nil] at hbeyond
      omega
    have hbody : workerRound fileLen pread (workerAt pread k) =
        .inl ⟨(amount (fun i => (pread i).length) k + (pread k).length) % 2 ^ 64, k + 1,
          writesAt pread k ++ [(amount (fun i => (pread i).length) k, pread k)]⟩ := by
      unfold workerRound workerAt
      dsimp only
      rw [if_neg (not_not_intro hlt), if_neg hk]
    rw [Returns.round_iff hbody] at he
    have hmem := returns_writes (List.mem_append_right _ (List.mem_singleton.mpr rfl)) he
    exact hbeyond (hbound _ hmem)
  · intro hwithin
    rcases hwithin.last with ⟨k, hbefore, hend⟩
    rcases hend with hall | ⟨hlt, hnil⟩
    · have hbody : workerRound fileLen pread (workerAt pread k) =
          .inr ⟨writesAt pread k, some fileLen⟩ := by
        unfold workerRound workerAt
        dsimp only
        rw [hall, if_pos (Nat.lt_irrefl fileLen)]
      refine ⟨_, (returns_workerAt hlen hbefore).mpr ((Returns.exit_iff hbody).mpr rfl),
        writesAt_within hbefore, Or.inl ⟨rfl, ?_⟩⟩
      rw [written_writesAt, hall]
    · have hbody : workerRound fileLen pread (workerAt pread k) = .inr ⟨writesAt pread k, none⟩ := by
        unfold workerRound workerAt
        dsimp only
        rw [if_neg (not_not_intro hlt), if_pos hnil]
      exact ⟨_, (returns_workerAt hlen hbefore).mpr ((Returns.exit_iff hbody).mpr rfl),
        writesAt_within hbefore, Or.inr rfl⟩

end Worker

/-! ## All three -/

theorem readResponse_lt {msg : Bytes} {n : Nat} (h : Cache.readResponse msg = some n) :
    n < 2 ^ 64 := by
  unfold Cache.readResponse at h
  split at h
  · cases h
  · split at h
    · cases h
    · cases h
      unfold toSize
      omega

/-- **Chunk loops.** Whatever happens to the file or the segment in the meantime: each of the loops
moves exactly the announced length or reports an error, and never more, if and only if no round of
it moves more than is left. For the worker that is what `pread` returns, for the handlers what
`gfs_send` takes of it. -/
theorem chunk_loops_iff {openFile : Bytes → Opened} {dataDir name path : Bytes}
    (hfits : dataDir.length + path.length < fileBufSize) {size : Fin (2 ^ 63)}
    {chunk : Nat → Chunk fileBufSize} (hopen : openFile (dataDir ++ path) = .file (some size) chunk)
    {ipc : Ipc} (hconnects : ipc.Connects name path) {announced : Nat}
    (hanswer : (ipc.msgrcv (Ipc.request name path)).bind Cache.readResponse = some announced)
    (sendheader : Int) (mapped : Fin (2 ^ 63)) (pread : Nat → Bytes) :
    (Ends (handleWithFile openFile sendheader dataDir path) (Outcome.MovesExactly size) ↔
      StaysWithin size chunk) ∧
    (Ends (handleWithCache ipc sendheader name path) (Outcome.MovesExactly announced) ↔
      StaysWithin announced ipc.chunk) ∧
    (WorkerMovesExactly mapped pread ↔ ReadsWithin mapped pread) := by
  have hsize : (size : Nat) < 2 ^ 64 := by omega
  have hmapped : (mapped : Nat) < 2 ^ 64 := by omega
  have hannounced : announced < 2 ^ 64 := by
    rcases Option.bind_eq_some_iff.mp hanswer with ⟨msg, _, hread⟩
    exact readResponse_lt hread
  refine ⟨?_, ?_, workerCopy_stays_iff hmapped⟩
  · rw [ends_file hfits, hopen]
    exact copyFile_moves_iff hsize
  · rw [ends_connects hconnects hanswer]
    exact copyFile_moves_iff hannounced

/-- One byte is all of one byte. -/
theorem staysWithin_oneByte {size : Nat} (h : 1 ≤ size) : StaysWithin 1 fun _ => oneByte h := by
  intro k hfull hlt
  have hle : k ≤ copied (fun _ => oneByte h) k := by
    rw [copied_eq_amount]
    exact le_amount fun i hi => List.length_pos_iff.mpr (hfull i hi).1
  obtain rfl : k = 0 := by omega
  exact Nat.le_refl 1

theorem chunk_loops_oneByte :
    Ends (handleWithFile smallFile 20 (ascii "d") (ascii "/f")) (Outcome.MovesExactly 1) ∧
    Ends (handleWithCache smallCache 20 (ascii "temp") (ascii "/f")) (Outcome.MovesExactly 1) ∧
    WorkerMovesExactly 1 fun _ => ascii "x" := by
  have hconnects : smallCache.Connects (ascii "temp") (ascii "/f") :=
    ⟨rfl, rfl, by decide, rfl, rfl, 0, rfl⟩
  have hloops := chunk_loops_iff (by decide) (rfl : smallFile (ascii "d" ++ ascii "/f") = _) hconnects
    (by decide : _ = some 1) 20 ⟨1, by decide⟩ fun _ => ascii "x"
  refine ⟨hloops.1.mpr (staysWithin_oneByte _), hloops.2.1.mpr (staysWithin_oneByte _),
    hloops.2.2.mpr ?_⟩
  intro k hne hlt
  have hlt' : amount (fun _ => (ascii "x").length) k < 1 := hlt
  have hle : k ≤ amount (fun _ => (ascii "x").length) k := le_amount fun _ _ => Nat.one_pos
  obtain rfl : k = 0 := by omega
  exact Nat.le_refl 1

/-- A buffer full of what a file has become. -/
def fullBuffer : Chunk fileBufSize where
  data := List.replicate fileBufSize 120
  written := fileBufSize
  fits := Nat.le_of_eq List.length_replicate

theorem taken_fullBuffer : fullBuffer.taken = fileBufSize := by
  have hall : fullBuffer.data.length = fileBufSize := List.length_replicate
  rw [Chunk.taken, List.length_take, hall]
  rfl

theorem StaysWithin.first {size fileLen : Nat} {chunk : Nat → Chunk size}
    (h : StaysWithin fileLen chunk) (hpos : 0 < fileLen) : (chunk 0).taken ≤ fileLen := by
  have hle : 0 + (chunk 0).taken ≤ fileLen := h 0 (fun i hi => absurd hi (Nat.not_lt_zero i)) hpos
  rwa [Nat.zero_add] at hle

/-- A file of 924 bytes was announced, and has grown when it is read: a whole buffer is sent. -/
theorem chunk_loops_grown :
    ¬ ∀ (openFile : Bytes → Opened) (size : Fin (2 ^ 63)) (chunk : Nat → Chunk fileBufSize)
      (sendheader : Int) (dataDir path : Bytes), dataDir.length + path.length < fileBufSize →
      openFile (dataDir ++ path) = .file (some size) chunk →
      Ends (handleWithFile openFile sendheader dataDir path) (Outcome.MovesExactly size) := by
  intro h
  have hends := h (fun _ => .file (some ⟨924, by decide⟩) fun _ => fullBuffer) ⟨924, by decide⟩
    (fun _ => fullBuffer) 20 (ascii "d") (ascii "/f") (by decide) rfl
  rw [ends_file (by decide)] at hends
  have hwithin := (copyFile_moves_iff (by decide)).mp hends
  have hle := hwithin.first (by decide)
  dsimp only at hle
  rw [taken_fullBuffer] at hle
  exact absurd hle (by decide)

end IntroOS.Proxy
