import IntroOS.Getfile.ContextRelease
import IntroOS.Getfile.HeaderBuffers
import IntroOS.Getfile.Resources

/-! # What requests cost the server

The accept loop of `gfserver_serve` with what it has in use. Every request gets a copy of the
buffer, `not_buf`, which nobody gives back, and a context with the socket of its connection, which
only `gfs_abort` gives back. A connection for which there is no descriptor is an error of `accept`,
and the loop goes on.

1. **Program** (`turn`): a turn of the loop on descriptors and memory;
2. **One request** (`takeRequest_spec`): its connection stays open unless somebody calls
   `gfs_abort`, and a handler whose `send`s all take something never does;
3. **Runs** (`server_resources`): what is in use after any run, and which requests were answered.
-/

namespace IntroOS.Getfile.ServerResources

open Resources (St)

variable {limit : Nat} {A : Type*} [DecidableEq A]

/-! ## Program -/

/-- `sizeof(gfcontext_t)+4` -/
def contextSize : Nat := 3 * sizeofSize + 4

/-- A connection, and what the handler does about it if it is called. `mem` is what was in the
memory of the context. -/
inductive Incoming where
  | acceptError
  | recvError
  | request (r : Bytes) (mem : Nat × Nat) (calls : List Call)

/-- A request that was taken apart. -/
structure Taken where
  decision : Decision
  mem : Nat × Nat
  calls : List Call

/-- The context of the request afterwards. -/
def Taken.context (q : Taken) : GfContext :=
  serveContext (.fresh q.mem.1 q.mem.2) q.calls q.decision

/-- The server in its accept loop. `taken` is history. -/
structure Server (limit : Nat) (A : Type*) where
  st : St limit A
  buffer : Bytes
  taken : List Taken

/-- From `malloc` of `not_buf` to the end of the turn. `none` is undefined behaviour. -/
def takeRequest (alloc : Allocator A Nat) (s : Server limit A) (connSockfd : Nat)
    (table : Table limit) (buffer : Bytes) (q : Taken) : Option (Server limit A) :=
  let st := { s.st with table := table }
  -- nothing keeps the address of `not_buf`
  let (_, st) := st.malloc alloc srvBufSize
  let (context, st) := st.malloc alloc contextSize
  if q.context.usedAfterFree then none
  else match q.context.aborts with
    | 0 => some ⟨st, buffer, s.taken ++ [q]⟩
    | 1 => (st.free context).map fun st => ⟨st.close connSockfd, buffer, s.taken ++ [q]⟩
    | _ => none

/-- A turn of the accept loop. `none` if the server exits, or its behaviour is undefined. -/
def turn (alloc : Allocator A Nat) (s : Server limit A) : Incoming → Option (Server limit A)
  | .acceptError => some s
  | .recvError =>
    match s.st.table.openFd with
    | none => some s
    | some _ => none
  | .request r mem calls =>
    match s.st.table.openFd with
    -- `accept` fails, and the connection waits
    | none => some s
    | some (connSockfd, table) =>
      match serveConn s.buffer (.request r) with
      | (.served d, buffer) => takeRequest alloc s connSockfd table buffer ⟨d, mem, calls⟩
      | _ => none

/-- The accept loop on a sequence of connections. -/
def serve (alloc : Allocator A Nat) : Server limit A → List Incoming → Option (Server limit A)
  | s, [] => some s
  | s, c :: conns => (turn alloc s c).bind fun s => serve alloc s conns

/-! ## One request -/

section Request

variable {alloc : Allocator A Nat} {s s' : Server limit A} {connSockfd : Nat} {table : Table limit}
  {buffer : Bytes} {q : Taken}

/-- Nobody called `gfs_abort`. -/
def Taken.leftOpen (q : Taken) : Bool := decide (q.context.aborts = 0)

/-- What a request changes. -/
structure Costs (s : Server limit A) (q : Taken) (s' : Server limit A) : Prop where
  log : s'.taken = s.taken ++ [q]
  room : s'.st.table.room + (if q.leftOpen then 1 else 0) = s.st.table.room
  inUse : s'.st.inUse = s.st.inUse + srvBufSize + if q.leftOpen then contextSize else 0
  defined : q.context.usedAfterFree = false ∧ q.context.aborts ≤ 1

theorem takeRequest_spec (hopen : s.st.table.openFd = some (connSockfd, table))
    (h : takeRequest alloc s connSockfd table buffer q = some s') :
    s'.buffer = buffer ∧ Costs s q s' := by
  obtain ⟨_, _, hroom⟩ := Table.openFd_spec hopen
  obtain ⟨_, htable₁, hsize₁⟩ := St.malloc_spec alloc { s.st with table := table } srvBufSize
  obtain ⟨hcontext, htable₂, hsize₂⟩ := St.malloc_spec alloc
    (({ s.st with table := table } : St limit A).malloc alloc srvBufSize).2 contextSize
  have hstart : ({ s.st with table := table } : St limit A).inUse = s.st.inUse := rfl
  unfold takeRequest at h
  simp only [] at h
  split at h
  · cases h
  · rename_i hused
    rw [Bool.not_eq_true] at hused
    split at h
    · -- the context and its connection stay
      rename_i habort
      cases h
      have hq : q.leftOpen = true := decide_eq_true habort
      refine ⟨rfl, rfl, ?_, ?_, hused, by omega⟩
      · rw [hq, if_pos rfl]
        exact (congrArg (Table.room · + 1) (htable₂.trans htable₁)).trans hroom
      · rw [hq, if_pos rfl]
        exact hsize₂.trans (by omega)
    · rename_i habort
      rcases St.free_some hcontext with ⟨st, hfree, htable, hsize⟩
      rw [hfree] at h
      cases h
      have hq : q.leftOpen = false := decide_eq_false (by omega)
      have hclosed : (st.close connSockfd).table = s.st.table := by
        show st.table.closeFd connSockfd = s.st.table
        rw [htable, htable₂, htable₁]
        exact Table.closeFd_openFd hopen
      refine ⟨rfl, rfl, ?_, ?_, hused, by omega⟩
      · rw [hq, if_neg Bool.false_ne_true]
        show (st.close connSockfd).table.room + 0 = _
        rw [hclosed]
        rfl
      · rw [hq, if_neg Bool.false_ne_true]
        show st.inUse = _
        omega
    · cases h

/-- A handler leaves its connection open unless its calls end with the one that finds the file
done. -/
theorem Taken.leftOpen_iff (hused : q.context.usedAfterFree = false) (haborts : q.context.aborts ≤ 1) :
    q.leftOpen = true ↔ q.decision ≠ .invalid ∧ ¬ EndsDone ⟨q.mem.1, q.mem.2⟩ q.calls := by
  have hreleased : q.leftOpen = true ↔ ¬ q.context.ReleasedOnce := by
    unfold Taken.leftOpen GfContext.ReleasedOnce
    rw [decide_eq_true_iff]
    constructor
    · rintro hzero ⟨hone, _⟩
      omega
    · intro hnot
      by_contra hne
      exact hnot ⟨by omega, hused⟩
  have hlive : (GfContext.fresh q.mem.1 q.mem.2).Live := ⟨rfl, rfl⟩
  rw [hreleased]
  unfold Taken.context
  cases hd : q.decision with
  | invalid =>
    constructor
    · intro hnot
      exact absurd ⟨rfl, rfl⟩ hnot
    · intro h
      exact absurd rfl h.1
  | handler path =>
    have hrun := runHandler_releasedOnce hlive q.calls
    constructor
    · intro hnot
      exact ⟨nofun, fun hends => hnot (hrun.mpr hends)⟩
    · intro h hreleased
      exact h.2 (hrun.mp hreleased)

/-- Whoever sends a file in full leaves its connection open. -/
theorem Taken.leftOpen_of_sends {path : Bytes} (hd : q.decision = .handler path)
    (hsends : ∀ c ∈ q.calls, 0 < c.result) : q.leftOpen = true := by
  have hfresh : (GfContext.fresh q.mem.1 q.mem.2).Live := ⟨rfl, rfl⟩
  unfold Taken.leftOpen Taken.context
  rw [hd]
  exact decide_eq_true (runHandler_live hfresh hsends).1

end Request

/-! ## Runs -/

/-- What is known of a request before it is taken apart. -/
def Incoming.given : Incoming → Option ((Nat × Nat) × List Call)
  | .acceptError | .recvError => none
  | .request _ mem calls => some (mem, calls)

def Taken.given (q : Taken) : (Nat × Nat) × List Call := (q.mem, q.calls)

section Runs

variable {alloc : Allocator A Nat} {s s' s₁ : Server limit A} {c : Incoming} {conns : List Incoming}
  {q : Taken} {taken : List Taken}

/-- What a run of the accept loop has done. -/
structure Served (s : Server limit A) (conns : List Incoming) (taken : List Taken)
    (s' : Server limit A) : Prop where
  log : s'.taken = s.taken ++ taken
  /-- they are the first ones -/
  first : taken.map Taken.given <+: conns.filterMap Incoming.given
  /-- and all of them if there still is a descriptor -/
  all : 0 < s'.st.table.room → taken.map Taken.given = conns.filterMap Incoming.given
  room : s'.st.table.room + taken.countP Taken.leftOpen = s.st.table.room
  inUse : s'.st.inUse = s.st.inUse +
    (taken.length * srvBufSize + taken.countP Taken.leftOpen * contextSize)
  open_iff : ∀ q ∈ taken, q.leftOpen = true ↔
    q.decision ≠ .invalid ∧ ¬ EndsDone ⟨q.mem.1, q.mem.2⟩ q.calls
  sends : ∀ q ∈ taken, q.decision ≠ .invalid → (∀ c ∈ q.calls, 0 < c.result) → q.leftOpen = true

/-- With no descriptor left no connection is accepted any more. -/
theorem serve_full (hroom : s.st.table.room = 0) : serve alloc s conns = some s := by
  have hnone := Table.openFd_eq_none_iff.mpr hroom
  induction conns with
  | nil => rfl
  | cons c conns ih =>
    have hturn : turn alloc s c = some s := by
      cases c with
      | acceptError => rfl
      | recvError | request r mem calls =>
        unfold turn
        rw [hnone]
    unfold serve
    rw [hturn, Option.bind_some, ih]

omit [DecidableEq A] in
theorem Served.none (hgiven : conns.filterMap Incoming.given = [] ∨ s.st.table.room = 0) :
    Served s conns [] s where
  log := (List.append_nil _).symm
  first := List.nil_prefix
  all hroom := by
    rcases hgiven with hnil | hfull
    · exact hnil.symm
    · omega
  room := rfl
  inUse := by simp
  open_iff := nofun
  sends := nofun

/-- A turn takes its request, or there is none that can be taken. -/
theorem turn_cases (h : turn alloc s c = some s₁) :
    (s₁ = s ∧ (c.given = none ∨ s.st.table.room = 0)) ∨
      ∃ q : Taken, c.given = some q.given ∧ Costs s q s₁ := by
  cases c with
  | acceptError =>
    cases h
    exact Or.inl ⟨rfl, Or.inl rfl⟩
  | recvError =>
    cases hopen : s.st.table.openFd with
    | none =>
      simp only [turn, hopen] at h
      cases h
      exact Or.inl ⟨rfl, Or.inl rfl⟩
    | some found =>
      simp only [turn, hopen] at h
      cases h
  | request r mem calls =>
    cases hopen : s.st.table.openFd with
    | none =>
      simp only [turn, hopen] at h
      cases h
      exact Or.inl ⟨rfl, Or.inr (Table.openFd_eq_none_iff.mp hopen)⟩
    | some found =>
      simp only [turn, hopen] at h
      split at h
      · rename_i d buffer _
        exact Or.inr ⟨⟨d, mem, calls⟩, rfl, (takeRequest_spec hopen h).2⟩
      · cases h

omit [DecidableEq A] in
theorem Served.cons (hgiven : c.given = some q.given) (hq : Costs s q s₁)
    (hrest : Served s₁ conns taken s') : Served s (c :: conns) (q :: taken) s' := by
  have hroom := hq.room
  have hroom' := hrest.room
  have hopen_iff := Taken.leftOpen_iff hq.defined.1 hq.defined.2
  have hlist : (c :: conns).filterMap Incoming.given =
      q.given :: conns.filterMap Incoming.given := List.filterMap_cons_some hgiven
  refine ⟨?_, ?_, ?_, ?_, ?_, ?_, ?_⟩
  · rw [hrest.log, hq.log, List.append_assoc]
    rfl
  · rw [hlist, List.map_cons]
    exact (List.prefix_cons_inj _).mpr hrest.first
  · intro hpos
    rw [hlist, List.map_cons, hrest.all hpos]
  · rw [List.countP_cons]
    omega
  · rw [hrest.inUse, hq.inUse, List.length_cons, List.countP_cons]
    split <;> ring
  · intro q' hq'
    rcases List.mem_cons.mp hq' with rfl | hq'
    · exact hopen_iff
    · exact hrest.open_iff q' hq'
  · intro q' hq'
    rcases List.mem_cons.mp hq' with rfl | hq'
    · intro hd hsends
      cases hdecision : q'.decision with
      | invalid => exact absurd hdecision hd
      | handler path => exact Taken.leftOpen_of_sends hdecision hsends
    · exact hrest.sends q' hq'

theorem serve_served (h : serve alloc s conns = some s') : ∃ taken, Served s conns taken s' := by
  induction conns generalizing s with
  | nil =>
    cases h
    exact ⟨[], .none (Or.inl rfl)⟩
  | cons c conns ih =>
    rcases Option.bind_eq_some_iff.mp h with ⟨s₁, hturn, hrest⟩
    rcases turn_cases hturn with ⟨rfl, hnone | hfull⟩ | ⟨q, hgiven, hq⟩
    · rcases ih hrest with ⟨taken, hserved⟩
      have hlist : (c :: conns).filterMap Incoming.given = conns.filterMap Incoming.given :=
        List.filterMap_cons_none hnone
      refine ⟨taken, hserved.log, ?_, ?_, hserved.room, hserved.inUse, hserved.open_iff,
        hserved.sends⟩
      · rw [hlist]
        exact hserved.first
      · rw [hlist]
        exact hserved.all
    · -- nothing is taken from here on
      rw [serve_full hfull] at hrest
      cases hrest
      exact ⟨[], .none (Or.inr hfull)⟩
    · rcases ih hrest with ⟨taken, hserved⟩
      exact ⟨q :: taken, hserved.cons hgiven hq⟩

end Runs

/-- **Server.** After any connections that the server survives: the requests that were answered are
the first ones, and all of them if there is a descriptor left. Each has cost a copy of the buffer.
Those that were left open, which are all whose handler sent something with every call, have cost a
descriptor and a context too, so that there are no more of them than there were descriptors; and
with none left no request is answered any more. -/
theorem server_resources (alloc : Allocator A Nat) (s : Server limit A) (conns : List Incoming) :
    (∀ s', serve alloc s conns = some s' → ∃ taken, Served s conns taken s') ∧
      (s.st.table.room = 0 → serve alloc s conns = some s) :=
  ⟨fun _ h => serve_served h, serve_full⟩

end IntroOS.Getfile.ServerResources
