import IntroOS.Base.Loop
import Mathlib.Data.List.Nodup
import Mathlib.Data.List.Range

/-! # The address-selection loops

`gfc_perform` and `transferclient` go through the results of `getaddrinfo` for one that they can
connect to, `gfserver_serve` and `transferserver` for one that they can bind.

* `addressRound`: a round of such a loop, over the calls that it makes for an entry;
* `addressLoop_returns_iff`: the first entry is tried again and again;
* `address_loops_iff`: the right entry is found if and only if it is the first one.

The entries are numbered. A number behind the last entry is the NULL at the end of the list.
-/

namespace IntroOS.Transfer

/-! ## The program -/

/-- How the body of the loop is left. -/
inductive Attempt where
  /-- `continue` -/
  | again
  /-- `break` -/
  | found
  /-- `exit(1)` -/
  | exit
  /-- on to the end of the body -/
  | goOn
deriving DecidableEq, Repr

/-- What the calls of a client return. -/
structure ConnectCalls where
  socket : Int
  connect : Int
deriving DecidableEq, Repr

/-- What the calls of a server return. -/
structure BindCalls where
  socket : Int
  setsockopt : Int
  bind : Int
deriving DecidableEq, Repr

/-- The body of the clients' loops, up to `p = p->ai_next`. -/
def connectAttempt (c : ConnectCalls) : Attempt :=
  if c.socket = -1 then .again
  else if c.connect = -1 then .again
  else .found

/-- The body of the servers' loops, up to `p = p->ai_next`. -/
def bindAttempt (c : BindCalls) : Attempt :=
  if c.socket = -1 then .again
  else if c.setsockopt = -1 then .exit
  else if c.bind = -1 then .again
  else .found

/-- What `p` is after the loop. -/
inductive Selected where
  | entry (p : Nat)
  | null
  | exited
deriving DecidableEq, Repr

/-- The loop: where `p` points, and the entries that were tried. -/
structure Selecting where
  p : Nat
  tried : List Nat
deriving DecidableEq, Repr

variable {α κ : Type*}

/-- A round of `while (p != NULL)`. `calls n entry` is what the calls of the `n`-th attempt
return, if it is made for `entry`. -/
def addressRound (attempt : κ → Attempt) (entries : List α) (calls : Nat → α → κ) (s : Selecting) :
    Selecting ⊕ (List Nat × Selected) :=
  match entries[s.p]? with
  | none => .inr (s.tried, .null)
  | some entry =>
    let tried := s.tried ++ [s.p]
    match attempt (calls s.tried.length entry) with
    | .again => .inl ⟨s.p, tried⟩
    | .found => .inr (tried, .entry s.p)
    | .exit => .inr (tried, .exited)
    | .goOn => .inl ⟨s.p + 1, tried⟩

/-- `p = servinfo`. -/
def Selecting.start : Selecting := ⟨0, []⟩

/-- The loop comes to an end with `r`. -/
def AddressLoop (attempt : κ → Attempt) (entries : List α) (calls : Nat → α → κ)
    (r : List Nat × Selected) : Prop :=
  Returns (addressRound attempt entries calls) Selecting.start r

/-- The loop of `gfc_perform`. -/
def GfcPerformSelect (entries : List α) (calls : Nat → α → ConnectCalls) :
    List Nat × Selected → Prop :=
  AddressLoop connectAttempt entries calls

/-- The loop of `transferclient`. -/
def TransferclientSelect (entries : List α) (calls : Nat → α → ConnectCalls) :
    List Nat × Selected → Prop :=
  AddressLoop connectAttempt entries calls

/-- The loop of `gfserver_serve`. -/
def GfserverServeSelect (entries : List α) (calls : Nat → α → BindCalls) :
    List Nat × Selected → Prop :=
  AddressLoop bindAttempt entries calls

/-- The loop of `transferserver`. -/
def TransferserverSelect (entries : List α) (calls : Nat → α → BindCalls) :
    List Nat × Selected → Prop :=
  AddressLoop bindAttempt entries calls

/-! ## The right address -/

/-- What the loop should come to: every entry is tried at most once, in order, up to the first
one whose attempt does not fail. -/
inductive Selects (attempt : κ → Attempt) (entries : List α) (calls : Nat → α → κ) :
    List Nat × Selected → Prop where
  | found {k : Nat} {entry : α} : entries[k]? = some entry →
      (∀ i < k, ∀ e ∈ entries[i]?, attempt (calls i e) = .again) →
      attempt (calls k entry) = .found →
      Selects attempt entries calls (List.range (k + 1), .entry k)
  | exited {k : Nat} {entry : α} : entries[k]? = some entry →
      (∀ i < k, ∀ e ∈ entries[i]?, attempt (calls i e) = .again) →
      attempt (calls k entry) = .exit →
      Selects attempt entries calls (List.range (k + 1), .exited)
  | null : (∀ i, ∀ e ∈ entries[i]?, attempt (calls i e) = .again) →
      Selects attempt entries calls (List.range entries.length, .null)

/-- The loop ends, and with the right entry. -/
def EndsRight (attempt : κ → Attempt) (entries : List α) (calls : Nat → α → κ)
    (ends : List Nat × Selected → Prop) : Prop :=
  ∃ r, ends r ∧ Selects attempt entries calls r

variable {attempt : κ → Attempt} {entries : List α} {calls : Nat → α → κ}

theorem Selects.nodup {r : List Nat × Selected} (h : Selects attempt entries calls r) :
    r.1.Nodup := by
  cases h with
  | found | exited | null => exact List.nodup_range

/-! ## The entry that is tried -/

/-- How a loop ends that is left at its first entry. -/
def Attempt.selected : Attempt → Selected
  | .exit => .exited
  | _ => .entry 0

/-- No branch of the body reaches `p = p->ai_next`. -/
theorem connectAttempt_ne_goOn (c : ConnectCalls) : connectAttempt c ≠ .goOn := by
  unfold connectAttempt
  split_ifs <;> simp

theorem bindAttempt_ne_goOn (c : BindCalls) : bindAttempt c ≠ .goOn := by
  unfold bindAttempt
  split_ifs <;> simp

theorem addressLoop_nil {r : List Nat × Selected} :
    AddressLoop attempt [] calls r ↔ r = ([], .null) :=
  Returns.exit_iff rfl

/-- **Retries.** The loop tries the first entry until an attempt does not fail, and no other. -/
theorem addressLoop_returns_iff (hgoOn : ∀ c, attempt c ≠ .goOn) {entry : α} {rest : List α}
    {r : List Nat × Selected} :
    AddressLoop attempt (entry :: rest) calls r ↔
      ∃ k, (∀ i < k, attempt (calls i entry) = .again) ∧ attempt (calls k entry) ≠ .again ∧
        r = (List.replicate (k + 1) 0, (attempt (calls k entry)).selected) := by
  have hround : ∀ k, addressRound attempt (entry :: rest) calls ⟨0, List.replicate k 0⟩ =
      match attempt (calls k entry) with
      | .again => .inl ⟨0, List.replicate (k + 1) 0⟩
      | .found => .inr (List.replicate (k + 1) 0, .entry 0)
      | .exit => .inr (List.replicate (k + 1) 0, .exited)
      | .goOn => .inl ⟨1, List.replicate (k + 1) 0⟩ := by
    intro k
    unfold addressRound
    simp only [List.getElem?_cons_zero, List.length_replicate, List.replicate_succ', Nat.zero_add]
  have hagain : ∀ k, (∀ i < k, attempt (calls i entry) = .again) →
      attempt (calls k entry) = .again →
      addressRound attempt (entry :: rest) calls ⟨0, List.replicate k 0⟩ =
        .inl ⟨0, List.replicate (k + 1) 0⟩ := by
    intro k _ hattempt
    rw [hround, hattempt]
  have hend : ∀ k, (∀ i < k, attempt (calls i entry) = .again) →
      ¬ attempt (calls k entry) = .again →
      addressRound attempt (entry :: rest) calls ⟨0, List.replicate k 0⟩ =
        .inr (List.replicate (k + 1) 0, (attempt (calls k entry)).selected) := by
    intro k _ hattempt
    rw [hround]
    cases hattempt' : attempt (calls k entry) with
    | again => exact absurd hattempt' hattempt
    | found => rfl
    | exit => rfl
    | goOn => exact absurd hattempt' (hgoOn _)
  exact returns_iff_of_trace (f := fun k => Selecting.mk 0 (List.replicate k 0))
    (g := fun k => (List.replicate (k + 1) 0, (attempt (calls k entry)).selected)) hagain hend

/-- The loop ends with the right entry exactly if there is none, or the first attempt is good. -/
theorem endsRight_iff (hgoOn : ∀ c, attempt c ≠ .goOn) :
    EndsRight attempt entries calls (AddressLoop attempt entries calls) ↔
      ∀ entry ∈ entries.head?, attempt (calls 0 entry) ≠ .again := by
  unfold EndsRight
  cases entries with
  | nil =>
    have hnull : Selects attempt [] calls ([], .null) := by
      apply Selects.null
      intro i e he
      simp at he
    have hend : ∃ r, AddressLoop attempt [] calls r ∧ Selects attempt [] calls r :=
      ⟨_, addressLoop_nil.mpr rfl, hnull⟩
    simpa using hend
  | cons entry rest =>
    have hhead : (∀ e ∈ (entry :: rest).head?, attempt (calls 0 e) ≠ .again) ↔
        attempt (calls 0 entry) ≠ .again := by simp
    rw [hhead]
    constructor
    · rintro ⟨r, hr, hselects⟩
      rcases (addressLoop_returns_iff hgoOn).mp hr with ⟨k, _, hend, rfl⟩
      -- an entry that is tried twice is tried too often
      have honce := List.nodup_replicate.mp hselects.nodup
      have hk : k = 0 := by omega
      rwa [hk] at hend
    · intro hend
      refine ⟨_, (addressLoop_returns_iff hgoOn).mpr ⟨0, ?_, hend, rfl⟩, ?_⟩
      · intro i hi
        omega
      · have hbefore : ∀ i < 0, ∀ e ∈ (entry :: rest)[i]?, attempt (calls i e) = .again := by
          intro i hi
          omega
        cases hattempt : attempt (calls 0 entry) with
        | again => exact absurd hattempt hend
        | found => exact Selects.found (k := 0) rfl hbefore hattempt
        | exit => exact Selects.exited (k := 0) rfl hbefore hattempt
        | goOn => exact absurd hattempt (hgoOn _)

/-- **Addresses.** Each of the four loops ends, with the right entry, exactly if the list is empty
or the attempt for its first entry does not fail. -/
theorem address_loops_iff (entries : List α) (connects : Nat → α → ConnectCalls)
    (binds : Nat → α → BindCalls) :
    (EndsRight connectAttempt entries connects (GfcPerformSelect entries connects) ↔
      ∀ e ∈ entries.head?, connectAttempt (connects 0 e) ≠ .again) ∧
    (EndsRight connectAttempt entries connects (TransferclientSelect entries connects) ↔
      ∀ e ∈ entries.head?, connectAttempt (connects 0 e) ≠ .again) ∧
    (EndsRight bindAttempt entries binds (GfserverServeSelect entries binds) ↔
      ∀ e ∈ entries.head?, bindAttempt (binds 0 e) ≠ .again) ∧
    (EndsRight bindAttempt entries binds (TransferserverSelect entries binds) ↔
      ∀ e ∈ entries.head?, bindAttempt (binds 0 e) ≠ .again) := by
  have hconnect : EndsRight connectAttempt entries connects
      (AddressLoop connectAttempt entries connects) ↔
        ∀ e ∈ entries.head?, connectAttempt (connects 0 e) ≠ .again :=
    endsRight_iff connectAttempt_ne_goOn
  have hbind : EndsRight bindAttempt entries binds (AddressLoop bindAttempt entries binds) ↔
      ∀ e ∈ entries.head?, bindAttempt (binds 0 e) ≠ .again :=
    endsRight_iff bindAttempt_ne_goOn
  exact ⟨hconnect, hconnect, hbind, hbind⟩

/-- Two addresses, of which the first one refuses and the second one would accept: none of the
loops ends. -/
theorem address_loops_stuck :
    (¬ ∀ (entries : List Nat) (connects : Nat → Nat → ConnectCalls),
      EndsRight connectAttempt entries connects (GfcPerformSelect entries connects) ∧
      EndsRight connectAttempt entries connects (TransferclientSelect entries connects)) ∧
    (¬ ∀ (entries : List Nat) (binds : Nat → Nat → BindCalls),
      EndsRight bindAttempt entries binds (GfserverServeSelect entries binds) ∧
      EndsRight bindAttempt entries binds (TransferserverSelect entries binds)) := by
  constructor
  · intro h
    have hright := (h [4, 6] fun _ e => ⟨3, if e = 4 then -1 else 0⟩).1
    exact (endsRight_iff connectAttempt_ne_goOn).mp hright 4 rfl rfl
  · intro h
    have hright := (h [4, 6] fun _ e => ⟨3, 0, if e = 4 then -1 else 0⟩).1
    exact (endsRight_iff bindAttempt_ne_goOn).mp hright 4 rfl rfl

end IntroOS.Transfer
