import IntroOS.Base.Blocks
import IntroOS.Base.Descriptors
import IntroOS.Getfile.Client
import IntroOS.Transfer.Addresses

/-! # What calls of `gfc_perform` leave behind

`gfc_perform` closes its socket in one place, behind the loop that receives a long file, and gives
`not_buf` back in two, each behind a call of `writefunc`. All its other returns keep the socket,
and those behind the first `recv` keep `not_buf` too.

1. **Program**: the socket and the memory of a call, from `socket` to `return`;
2. **The connection** (`connectLoop_iff`): with no descriptor left the loop over the addresses goes
   round for ever;
3. **The exchange** (`exchange_spec`): what is kept, from the result of the call;
4. **Runs** (`resources_kept`): which calls of a run return, and what is in use then.

Left out: the memory of `getaddrinfo`, which `freeaddrinfo` gives back, and the request itself,
which its caller makes and gives back.
-/

namespace IntroOS.Getfile.Resources

variable {limit : Nat} {A α : Type*} [DecidableEq A]

/-! ## Program -/

/-- What the process has in use: descriptors, and blocks with their sizes. -/
structure St (limit : Nat) (A : Type*) where
  table : Table limit
  blocks : Blocks A Nat

/-- The loop over the addresses. -/
structure Connecting (limit : Nat) where
  table : Table limit
  p : Nat
  /-- how often `connect` or `socket` was tried -/
  attempts : Nat

/-- `p = servinfo`. -/
def Connecting.start (t : Table limit) : Connecting limit := ⟨t, 0, 0⟩

/-- A round of `while (p != NULL)`. `connect n entry` is what `connect` returns at the `n`-th
attempt, if it is made for `entry`. The loop leaves a socket, or NULL. -/
def connectRound (entries : List α) (connect : Nat → α → Int) (s : Connecting limit) :
    Connecting limit ⊕ Option (Nat × Table limit) :=
  match entries[s.p]? with
  | none => .inr none
  | some entry =>
    match s.table.openFd with
    -- `continue`, past `p = p->ai_next`
    | none => .inl { s with attempts := s.attempts + 1 }
    | some (sockfd, table) =>
      if connect s.attempts entry = -1 then
        .inl { s with table := table.closeFd sockfd, attempts := s.attempts + 1 }
      else .inr (some (sockfd, table))

def St.malloc (s : St limit A) (alloc : Allocator A Nat) (size : Nat) : A × St limit A :=
  (alloc.place s.blocks, { s with blocks := s.blocks.insert (alloc.place s.blocks) size })

def St.free (s : St limit A) (a : A) : Option (St limit A) :=
  (s.blocks.free (some a)).map fun blocks => { s with blocks := blocks }

def St.close (s : St limit A) (fd : Nat) : St limit A := { s with table := s.table.closeFd fd }

/-- From the tokens of the first `recv` result `r` to `return`. -/
def afterTokens (s : St limit A) (sockfd : Nat) (notBuf : A) (r : Bytes)
    (rest : List (Option Bytes)) : Tokens → Option (St limit A)
  -- without a third token every branch returns at once
  | .none | .one _ | .two _ _ => some s
  | .three scheme status length =>
    if status = ascii "INVALID\r\n\r\n" then some s
    else if status = ascii "FILE_NOT_FOUND\r\n\r\n" then some s
    else if status = ascii "ERROR\r\n\r\n" then some s
    else
      let filelen := strtoul length
      let received := (r.length + 2 ^ 64 - bodyOffset scheme status length) % 2 ^ 64
      if filelen < bufSize then
        if received < filelen then some s else s.free notBuf
      else
        match s.free notBuf with
        | none => none
        | some s =>
          -- a `recv` that fails in the loop returns past `close(sockfd)`
          if (recvLoop filelen rest r.length received).2.2 then some s else some (s.close sockfd)

/-- From the first `recv` result on. -/
def afterRecv (alloc : Allocator A Nat) (s : St limit A) (sockfd : Nat) (r : Bytes)
    (rest : List (Option Bytes)) : Option (St limit A) :=
  let (notBuf, s) := s.malloc alloc bufSize
  match cString (recvbuf r) with
  | none => none
  | some b => afterTokens s sockfd notBuf r rest (splitHeader b)

/-- From the connected socket to `return`. -/
def exchange (alloc : Allocator A Nat) (s : St limit A) (sockfd : Nat) (path : Bytes)
    (bytesSent : Int) (recvs : List (Option Bytes)) : Option (St limit A) :=
  let (header, s) := s.malloc alloc ((ascii "GETFILE").length + (ascii "GET").length +
    path.length + (ascii "\r\n\r\n").length + 3)
  match s.free header with
  | none => none
  | some s =>
    if bytesSent ≠ (requestString path).length then some s
    else match recvs with
      | none :: _ => some s
      | [] => afterRecv alloc s sockfd [] []
      | some r :: rest => afterRecv alloc s sockfd r rest

/-- What is answered to a call of `gfc_perform` on a new request. -/
structure Exchange where
  gfr : GfcRequest
  bytesSent : Int
  recvs : List (Option Bytes)
  fresh : gfr.status = none

/-- What comes of it, if this is defined: not without a header function, nor where no NUL ends the
first `recv` result. -/
def Exchange.out (x : Exchange) : Option Performed := gfcPerform x.gfr x.bytesSent x.recvs

/-- A call of `gfc_perform`: `getaddrinfo` fails, or it finds an address and maybe others. -/
inductive Call (α : Type*) where
  | unresolved
  | resolved (entry : α) (rest : List α) (connect : Nat → α → Int) (x : Exchange)

/-- A call that returns. `p` is not NULL behind the loop (`connectLoop_iff`). -/
inductive Performs (alloc : Allocator A Nat) : St limit A → Call α → St limit A → Prop where
  | unresolved {s : St limit A} : Performs alloc s .unresolved s
  | resolved {s s' : St limit A} {entry : α} {rest : List α} {connect : Nat → α → Int}
      {x : Exchange} {out : Performed} {sockfd : Nat} {table : Table limit} :
      Returns (connectRound (entry :: rest) connect) (.start s.table) (some (sockfd, table)) →
      x.out = some out →
      exchange alloc { s with table := table } sockfd x.gfr.path x.bytesSent x.recvs = some s' →
      Performs alloc s (.resolved entry rest connect x) s'

/-- Calls one after another, all of which return. -/
inductive Run (alloc : Allocator A Nat) : St limit A → List (Call α) → St limit A → Prop where
  | nil {s : St limit A} : Run alloc s [] s
  | cons {s s₁ s' : St limit A} {c : Call α} {calls : List (Call α)} :
      Performs alloc s c s₁ → Run alloc s₁ calls s' → Run alloc s (c :: calls) s'

/-! ## The connection -/

section Connection

variable {entries rest : List α} {entry : α} {connect : Nat → α → Int} {t : Table limit}

/-- What the calls of the loop return. -/
def connectCalls (t : Table limit) (connect : Nat → α → Int) (n : Nat) (entry : α) :
    Transfer.ConnectCalls where
  socket := match t.openFd with
    | none => -1
    | some (sockfd, _) => sockfd
  connect := connect n entry

theorem connectAttempt_again_iff {n : Nat} :
    Transfer.connectAttempt (connectCalls t connect n entry) = .again ↔
      t.openFd = none ∨ connect n entry = -1 := by
  unfold Transfer.connectAttempt connectCalls
  cases hopen : t.openFd with
  | none => simp
  | some found =>
    have hsocket : (found.1 : Int) ≠ -1 := by omega
    simp [hsocket]

/-- It is the loop of `GfcPerformSelect`, with the descriptor that its calls make. -/
theorem connectLoop_select {r : Option (Nat × Table limit)} :
    Returns (connectRound (entry :: rest) connect) (.start t) r ↔
      r = t.openFd ∧
        ∃ out, Transfer.GfcPerformSelect (entry :: rest) (connectCalls t connect) out := by
  -- a failed attempt gives its socket back, so every round finds the same descriptors
  have hround : ∀ k,
      (∀ i < k, Transfer.connectAttempt (connectCalls t connect i entry) = .again) →
      Transfer.connectAttempt (connectCalls t connect k entry) = .again →
      connectRound (entry :: rest) connect ⟨t, 0, k⟩ = .inl ⟨t, 0, k + 1⟩ := by
    intro k _ hagain
    have hgoes := connectAttempt_again_iff.mp hagain
    unfold connectRound
    simp only [List.getElem?_cons_zero]
    cases hopen : t.openFd with
    | none => rfl
    | some found =>
      have hfails : connect k entry = -1 := hgoes.resolve_left (by rw [hopen]; nofun)
      simp only [if_pos hfails, Table.closeFd_openFd hopen]
  have hexit : ∀ k,
      (∀ i < k, Transfer.connectAttempt (connectCalls t connect i entry) = .again) →
      ¬ Transfer.connectAttempt (connectCalls t connect k entry) = .again →
      connectRound (entry :: rest) connect ⟨t, 0, k⟩ = .inr t.openFd := by
    intro k _ hends
    rw [connectAttempt_again_iff, not_or] at hends
    unfold connectRound
    simp only [List.getElem?_cons_zero]
    cases hopen : t.openFd with
    | none => exact absurd hopen hends.1
    | some found => simp only [if_neg hends.2]
  have htrace := returns_iff_of_trace (f := fun k => Connecting.mk t 0 k)
    (g := fun _ => t.openFd) hround hexit (r := r)
  have hselect : ∀ out, Transfer.GfcPerformSelect (entry :: rest) (connectCalls t connect) out ↔ _ :=
    fun out => Transfer.addressLoop_returns_iff Transfer.connectAttempt_ne_goOn
  show Returns _ (Connecting.mk t 0 0) r ↔ _
  simp only [htrace, hselect]
  constructor
  · rintro ⟨k, hgoes, hends, hr⟩
    exact ⟨hr, _, k, hgoes, hends, rfl⟩
  · rintro ⟨hr, _, k, hgoes, hends, _⟩
    exact ⟨k, hgoes, hends, hr⟩

/-- **Connection.** The loop ends with a socket if there is a descriptor for it and `connect`
succeeds at some time, and else never. -/
theorem connectLoop_iff {r : Option (Nat × Table limit)} :
    Returns (connectRound (entry :: rest) connect) (.start t) r ↔
      r = t.openFd ∧ 0 < t.room ∧ ∃ n, connect n entry ≠ -1 := by
  rw [connectLoop_select]
  apply and_congr_right
  intro _
  have hends : ∀ n, Transfer.connectAttempt (connectCalls t connect n entry) ≠ .again ↔
      0 < t.room ∧ connect n entry ≠ -1 := by
    intro n
    rw [ne_eq, connectAttempt_again_iff, not_or, Table.openFd_eq_none_iff, Nat.pos_iff_ne_zero]
  constructor
  · rintro ⟨out, hselect⟩
    rcases (Transfer.addressLoop_returns_iff Transfer.connectAttempt_ne_goOn).mp hselect with
      ⟨k, _, hend, _⟩
    exact ⟨((hends k).mp hend).1, k, ((hends k).mp hend).2⟩
  · rintro ⟨hroom, hsome⟩
    -- the first `connect` that succeeds
    classical
    have hfirst : ∀ i < Nat.find hsome,
        Transfer.connectAttempt (connectCalls t connect i entry) = .again := fun i hi =>
      connectAttempt_again_iff.mpr (Or.inr (not_not.mp (Nat.find_min hsome hi)))
    exact ⟨_, (Transfer.addressLoop_returns_iff Transfer.connectAttempt_ne_goOn).mpr
      ⟨Nat.find hsome, hfirst, (hends _).mpr ⟨hroom, Nat.find_spec hsome⟩, rfl⟩⟩

end Connection

/-! ## The exchange -/

/-- GF_OK, and a length that does not fit into `recvbuf`: the call came to `close(sockfd)`. -/
def closesSocket (gfr : GfcRequest) : Bool :=
  decide (gfr.status = some .ok) && gfr.filelen.any fun n => decide (bufSize ≤ n)

/-- There is a status, but `writefunc` was not called: `not_buf` is kept. -/
def keepsBuffer (gfr : GfcRequest) (writeCalls : List (List Cell)) : Bool :=
  gfr.status.isSome && writeCalls.isEmpty

section Exchange

variable {alloc : Allocator A Nat} {s : St limit A} {sockfd : Nat} {notBuf : A}
  {gfr gfr' : GfcRequest} {r : Bytes} {recvs : List (Option Bytes)} {writeCalls : List (List Cell)}
  {ret : Int}

/-- The blocks that are in use, in bytes. -/
def St.inUse (s : St limit A) : Nat := s.blocks.size id

/-- A block that was made can be given back. -/
theorem St.free_some {n : Nat} (h : s.blocks.lookup notBuf = some n) :
    ∃ s', s.free notBuf = some s' ∧ s'.table = s.table ∧ s'.inUse + n = s.inUse := by
  have hholds : s.blocks.Holds (some notBuf) (some n) := h
  rcases hholds.free (f := id) with ⟨blocks, hfree, hsize⟩
  refine ⟨{ s with blocks := blocks }, ?_, rfl, hsize⟩
  unfold St.free
  rw [hfree]
  rfl

theorem St.malloc_spec (alloc : Allocator A Nat) (s : St limit A) (n : Nat) :
    (s.malloc alloc n).2.blocks.lookup (s.malloc alloc n).1 = some n ∧
      (s.malloc alloc n).2.table = s.table ∧ (s.malloc alloc n).2.inUse = s.inUse + n :=
  ⟨AList.lookup_insert s.blocks, rfl, Blocks.size_insert (alloc.fresh s.blocks) n⟩

/-- What a call does with its socket and with `not_buf`, from `s` on. -/
structure Settled (s : St limit A) (sockfd : Nat) (gfr : GfcRequest)
    (writeCalls : List (List Cell)) (s' : St limit A) : Prop where
  table : s'.table = if closesSocket gfr then s.table.closeFd sockfd else s.table
  inUse : s'.inUse = s.inUse + if keepsBuffer gfr writeCalls then bufSize else 0

/-- The OK branch. -/
theorem afterTokens_ok {before : St limit A} {scheme status length : Bytes}
    (hbuf : s.blocks.lookup notBuf = some bufSize) (htable : s.table = before.table)
    (hsize : s.inUse = before.inUse + bufSize)
    (hinvalid : status ≠ ascii "INVALID\r\n\r\n")
    (hnotFound : status ≠ ascii "FILE_NOT_FOUND\r\n\r\n")
    (herror : status ≠ ascii "ERROR\r\n\r\n")
    (h : performOk gfr r recvs scheme status length = some (gfr', writeCalls, ret)) :
    ∃ s', afterTokens s sockfd notBuf r recvs (.three scheme status length) = some s' ∧
      Settled before sockfd gfr' writeCalls s' := by
  rcases St.free_some hbuf with ⟨s₁, hfree, htable₁, hsize₁⟩
  unfold afterTokens
  unfold performOk at h
  simp only [if_neg hinvalid, if_neg hnotFound, if_neg herror]
  simp only [] at h
  split at h
  · rename_i hshort
    rw [if_pos hshort]
    split at h
    · -- not all of the content has come
      rename_i hless
      cases h
      rw [if_pos hless]
      refine ⟨s, rfl, ?_, ?_⟩
      · simp [closesSocket, htable, Nat.not_le.mpr hshort]
      · simp [keepsBuffer, hsize]
    · rename_i hall
      rw [if_neg hall]
      split at h
      · cases h
      · cases h
        refine ⟨s₁, hfree, ?_, ?_⟩
        · simp [closesSocket, htable₁, htable, Nat.not_le.mpr hshort]
        · simp [keepsBuffer]
          omega
  · rename_i hlong
    rw [if_neg hlong, hfree]
    split at h
    · cases h
    · -- `writefunc` has been called, and the loop follows
      split at h
      · rename_i hfailed
        cases h
        refine ⟨s₁, by simp only [if_pos hfailed], ?_, ?_⟩
        · simp [closesSocket, htable₁, htable]
        · simp [keepsBuffer]
          omega
      · rename_i hdone
        have hsettled : ∀ n first calls, Settled before sockfd
            { gfr with status := some .ok, filelen := some (strtoul length), bytesreceived := n }
            (first :: calls) (s₁.close sockfd) := by
          intro n first calls
          constructor
          · simp [closesSocket, Nat.not_lt.mp hlong, ← htable, ← htable₁, St.close]
          · have hsame : (s₁.close sockfd).inUse = s₁.inUse := rfl
            simp [keepsBuffer]
            omega
        refine ⟨s₁.close sockfd, by simp only [if_neg hdone], ?_⟩
        split at h
        · cases h
          exact hsettled _ _ _
        · cases h
          exact hsettled _ _ _

omit [DecidableEq A] in
/-- A return without a call of `writefunc`. -/
theorem settled_at_once {before : St limit A} (htable : s.table = before.table)
    (hsize : s.inUse = before.inUse + bufSize) {st : GfStatus} (hst : st ≠ .ok) :
    Settled before sockfd { gfr with status := some st } [] s := by
  constructor
  · simp [closesSocket, hst, htable]
  · simp [keepsBuffer, hsize]

theorem afterTokens_spec {before : St limit A} {tokens : Tokens}
    (hbuf : s.blocks.lookup notBuf = some bufSize) (htable : s.table = before.table)
    (hsize : s.inUse = before.inUse + bufSize)
    (h : performTokens gfr r recvs tokens = some (gfr', writeCalls, ret)) :
    ∃ s', afterTokens s sockfd notBuf r recvs tokens = some s' ∧
      Settled before sockfd gfr' writeCalls s' := by
  cases tokens with
  | none | one _ =>
    cases h
    exact ⟨s, rfl, settled_at_once htable hsize nofun⟩
  | two scheme status =>
    refine ⟨s, rfl, ?_⟩
    change performTokens.classify gfr r recvs scheme status none = _ at h
    unfold performTokens.classify at h
    split_ifs at h <;> cases h <;> exact settled_at_once htable hsize nofun
  | three scheme status length =>
    change performTokens.classify gfr r recvs scheme status (some length) = _ at h
    unfold performTokens.classify at h
    by_cases hinvalid : status = ascii "INVALID\r\n\r\n"
    · rw [if_pos hinvalid] at h
      cases h
      exact ⟨s, by simp [afterTokens, hinvalid], settled_at_once htable hsize nofun⟩
    by_cases hnotFound : status = ascii "FILE_NOT_FOUND\r\n\r\n"
    · rw [if_neg hinvalid, if_pos hnotFound] at h
      cases h
      exact ⟨s, by simp [afterTokens, hnotFound], settled_at_once htable hsize nofun⟩
    by_cases herror : status = ascii "ERROR\r\n\r\n"
    · rw [if_neg hinvalid, if_neg hnotFound, if_pos herror] at h
      cases h
      exact ⟨s, by simp [afterTokens, herror], settled_at_once htable hsize nofun⟩
    rw [if_neg hinvalid, if_neg hnotFound, if_neg herror] at h
    exact afterTokens_ok hbuf htable hsize hinvalid hnotFound herror h

theorem afterRecv_spec (h : performResponse gfr r recvs = some (gfr', writeCalls, ret)) :
    ∃ s', afterRecv alloc s sockfd r recvs = some s' ∧ Settled s sockfd gfr' writeCalls s' := by
  obtain ⟨hbuf, htable, hsize⟩ := St.malloc_spec alloc s bufSize
  unfold performResponse at h
  unfold afterRecv
  cases hb : cString (recvbuf r) with
  | none =>
    rw [hb] at h
    cases h
  | some b =>
    rw [hb] at h
    exact afterTokens_spec hbuf htable hsize h

/-- **Exchange.** From its socket on, a call keeps and gives back what its result says. -/
theorem exchange_spec (alloc : Allocator A Nat) (s : St limit A) (sockfd : Nat) {x : Exchange}
    {out : Performed} (h : x.out = some out) :
    ∃ s', exchange alloc s sockfd x.gfr.path x.bytesSent x.recvs = some s' ∧
      Settled s sockfd out.gfr out.writeCalls s' := by
  obtain ⟨gfr, bytesSent, recvs, hfresh⟩ := x
  obtain ⟨hheader, htable, hsize⟩ := St.malloc_spec alloc s ((ascii "GETFILE").length +
    (ascii "GET").length + gfr.path.length + (ascii "\r\n\r\n").length + 3)
  rcases St.free_some hheader with ⟨s₁, hfree, htable₁, hsize₁⟩
  have hsame : s₁.table = s.table ∧ s₁.inUse = s.inUse := ⟨htable₁.trans htable, by omega⟩
  -- the request stays as it was where the call returns in front of the response
  have hnothing : ∀ s', s' = s₁ → Settled s sockfd gfr [] s' := by
    rintro s' rfl
    constructor
    · simp [closesSocket, hfresh, hsame.1]
    · simp [keepsBuffer, hfresh, hsame.2]
  have hresponse : ∀ r rest out', performResponse gfr r rest = some out' →
      ∃ s', afterRecv alloc s₁ sockfd r rest = some s' ∧
        Settled s sockfd out'.1 out'.2.1 s' := by
    intro r rest out' hperform
    have hrecv : ∃ s', afterRecv alloc s₁ sockfd r rest = some s' ∧
        Settled s₁ sockfd out'.1 out'.2.1 s' := afterRecv_spec hperform
    rcases hrecv with ⟨s', hafter, hsettled⟩
    refine ⟨s', hafter, ?_, ?_⟩
    · rw [hsettled.table, hsame.1]
    · rw [hsettled.inUse, hsame.2]
  unfold Exchange.out gfcPerform at h
  unfold exchange
  simp only [hfree] at h ⊢
  split at h
  · cases h
  split at h
  · rename_i hshort
    cases h
    exact ⟨s₁, if_pos hshort, hnothing s₁ rfl⟩
  · rename_i hall
    rw [if_neg hall]
    split at h
    · cases h
      exact ⟨s₁, rfl, hnothing s₁ rfl⟩
    · rcases Option.map_eq_some_iff.mp h with ⟨out', hperform, hout⟩
      cases hout
      exact hresponse [] [] out' hperform
    · rename_i r rest
      rcases Option.map_eq_some_iff.mp h with ⟨out', hperform, hout⟩
      cases hout
      exact hresponse r rest out' hperform

end Exchange

/-! ## Runs -/

/-- There is a connection, and the socket is not closed. -/
def Call.keepsSocket : Call α → Bool
  | .unresolved => false
  | .resolved _ _ _ x => !x.out.any fun out => closesSocket out.gfr

def Call.keepsBuffer : Call α → Bool
  | .unresolved => false
  | .resolved _ _ _ x => x.out.any fun out => Resources.keepsBuffer out.gfr out.writeCalls

/-- With room for so many descriptors the call returns, and what it does is defined. -/
def Call.Returns (room : Nat) : Call α → Prop
  | .unresolved => True
  | .resolved entry _ connect x =>
    0 < room ∧ (∃ n, connect n entry ≠ -1) ∧ x.out.isSome = true

section Runs

variable {alloc : Allocator A Nat} {s s' s₁ : St limit A} {c : Call α} {calls : List (Call α)}

/-- What is in use behind calls, compared with before. -/
structure Left (s : St limit A) (calls : List (Call α)) (s' : St limit A) : Prop where
  room : s'.table.room + calls.countP Call.keepsSocket = s.table.room
  used : s.table.used ⊆ s'.table.used
  inUse : s'.inUse = s.inUse + bufSize * calls.countP Call.keepsBuffer

theorem performs_iff : (∃ s', Performs alloc s c s') ↔ c.Returns s.table.room := by
  constructor
  · rintro ⟨s', h⟩
    cases h with
    | unresolved => trivial
    | resolved hloop hout _ =>
      obtain ⟨_, hroom, hconnect⟩ := connectLoop_iff.mp hloop
      exact ⟨hroom, hconnect, by rw [hout]; rfl⟩
  · intro h
    cases c with
    | unresolved => exact ⟨s, .unresolved⟩
    | resolved entry rest connect x =>
      obtain ⟨hroom, hconnect, hdefined⟩ := h
      rcases Table.exists_openFd hroom with ⟨sockfd, table, hopen⟩
      rcases Option.isSome_iff_exists.mp hdefined with ⟨out, hout⟩
      rcases exchange_spec alloc { s with table := table } sockfd hout with ⟨s', hexchange, _⟩
      exact ⟨s', .resolved (connectLoop_iff.mpr ⟨hopen.symm, hroom, hconnect⟩) hout hexchange⟩

/-- One call. -/
theorem Performs.left (h : Performs alloc s c s') : Left s [c] s' := by
  cases h with
  | unresolved => exact ⟨rfl, Finset.Subset.refl _, rfl⟩
  | @resolved _ entry rest connect x out sockfd table hloop hout hexchange =>
    have hopen := (connectLoop_iff.mp hloop).1.symm
    obtain ⟨_, hused, hroom⟩ := Table.openFd_spec hopen
    rcases exchange_spec alloc { s with table := table } sockfd hout with ⟨s₂, hexchange₂, hsettled⟩
    rw [hexchange] at hexchange₂
    cases hexchange₂
    have hinUse : s'.inUse = s.inUse + _ := hsettled.inUse
    have htable : s'.table = _ := hsettled.table
    have hbuffer : bufSize * [Call.resolved entry rest connect x].countP Call.keepsBuffer =
        if keepsBuffer out.gfr out.writeCalls then bufSize else 0 := by
      rw [List.countP_singleton]
      simp only [Call.keepsBuffer, hout, Option.any_some]
      split
      · exact Nat.mul_one bufSize
      · exact Nat.mul_zero bufSize
    cases hclose : closesSocket out.gfr with
    | true =>
      -- the descriptors are those from before
      rw [hclose, if_pos rfl, Table.closeFd_openFd hopen] at htable
      refine ⟨?_, ?_, by rw [hinUse, hbuffer]⟩
      · rw [htable]
        simp [Call.keepsSocket, hout, hclose]
      · rw [htable]
    | false =>
      rw [hclose, if_neg Bool.false_ne_true] at htable
      refine ⟨?_, ?_, by rw [hinUse, hbuffer]⟩
      · rw [htable]
        simpa [Call.keepsSocket, hout, hclose] using hroom
      · rw [htable]
        show s.table.used ⊆ table.used
        rw [hused]
        exact Finset.subset_insert _ _

omit [DecidableEq A] in
theorem Left.cons (hfirst : Left s [c] s₁) (hrest : Left s₁ calls s') : Left s (c :: calls) s' := by
  have hroom := hfirst.room
  have hroom' := hrest.room
  have hinUse := hfirst.inUse
  have hinUse' := hrest.inUse
  rw [List.countP_singleton] at hroom hinUse
  refine ⟨?_, hfirst.used.trans hrest.used, ?_⟩
  · rw [List.countP_cons]
    omega
  · rw [List.countP_cons, hinUse', hinUse, Nat.mul_add]
    omega

theorem Run.left (h : Run alloc s calls s') : Left s calls s' := by
  induction h with
  | nil => exact ⟨rfl, Finset.Subset.refl _, rfl⟩
  | cons hfirst _ ih => exact hfirst.left.cons ih

/-- The calls return one after another if each does with the descriptors that are left to it. -/
theorem run_iff : (∃ s', Run alloc s calls s') ↔ ∀ (k : Nat) (c : Call α), calls[k]? = some c →
    c.Returns (s.table.room - (calls.take k).countP Call.keepsSocket) := by
  induction calls generalizing s with
  | nil =>
    constructor
    · intro _ k c hc
      cases hc
    · intro _
      exact ⟨s, .nil⟩
  | cons c calls ih =>
    have hshift : ∀ s₁, Left s [c] s₁ → ∀ k,
        s.table.room - ((c :: calls).take (k + 1)).countP Call.keepsSocket =
          s₁.table.room - (calls.take k).countP Call.keepsSocket := by
      intro s₁ hleft k
      have hroom := hleft.room
      rw [List.countP_singleton] at hroom
      rw [List.take_succ_cons, List.countP_cons]
      omega
    constructor
    · rintro ⟨s', h⟩ k c' hc'
      cases h with
      | @cons _ s₁ _ _ _ hfirst hrest =>
        cases k with
        | zero =>
          cases hc'
          exact performs_iff.mp ⟨s₁, hfirst⟩
        | succ k =>
          rw [hshift s₁ hfirst.left]
          exact ih.mp ⟨s', hrest⟩ k c' hc'
    · intro h
      have hreturns : ∃ s₁, Performs alloc s c s₁ := performs_iff.mpr (h 0 c rfl)
      rcases hreturns with ⟨s₁, hfirst⟩
      have hrest : ∃ s', Run alloc s₁ calls s' := by
        apply ih.mpr
        intro k c' hc'
        rw [← hshift s₁ hfirst.left]
        exact h (k + 1) c' hc'
      rcases hrest with ⟨s', hrest⟩
      exact ⟨s', .cons hfirst hrest⟩

end Runs

/-- The request cannot be sent. -/
def unsent : Exchange where
  gfr := ⟨ascii "/a", true, none, none, none⟩
  bytesSent := -1
  recvs := []
  fresh := rfl

/-- With one descriptor for sockets there is no second call. -/
example : ¬ ∃ s', Run (Allocator.behind Nat) ⟨Table.standard 1, ∅⟩
    (List.replicate 2 (.resolved 4 [] (fun _ _ => 0) unsent)) s' := by
  rw [run_iff]
  intro h
  have hroom := (h 1 _ rfl).1
  exact absurd hroom (by decide)

end IntroOS.Getfile.Resources
