import IntroOS.Base.Disk
import IntroOS.Getfile.LocalPath
import IntroOS.Getfile.Wire

/-! # What a run of `gfclient_download.c` leaves on the disk

The loop of `main` over its requests, with the files: each request opens a local file, lets
`gfc_perform` write to it through `writecb`, and removes it again if the call failed or the
status is not GF_OK. A request that fails both ways is removed twice. When a `mkdir` or the `fopen`
of `openFile` fails, the program ends there.

`gfc_perform` is a parameter here, since one copy of the program is linked against a library
without source: the data it gives to `writecb`, its result and the status it leaves. So is the
outcome of `openFile`. `fwrite` writes all it is given.

* `download`: a round of the loop;
* `Kept`: the requests whose files stay;
* `downloads_disk`: after any run, exactly their files are there, with exactly the bytes given
  to `writecb`, and nothing else has changed.
-/

namespace IntroOS.Getfile.Download

/-! ## The loop -/

/-- What a call of `gfc_perform` comes to. -/
structure Performance where
  /-- the data of the calls of `writecb` -/
  data : List Bytes
  ret : Int
  status : GfStatus
deriving DecidableEq, Repr

/-- The program in its loop. `complaints` are the messages "unlink failed". -/
structure Run (copy : Copy) where
  st : St copy
  disk : Disk Bytes
  complaints : Nat

def Run.start {copy : Copy} (junk : Block copy.size) (disk : Disk Bytes) : Run copy :=
  ⟨St.start junk, disk, 0⟩

/-- `if (0 > unlink(local_path)) fprintf(stderr, ..)`. -/
def Run.remove {copy : Copy} (r : Run copy) (name : Bytes) : Run copy :=
  let (removed, disk) := r.disk.unlink name
  { r with disk := disk, complaints := if removed then r.complaints else r.complaints + 1 }

/-- What `main` does with the result of a call and its status. -/
def Run.settle {copy : Copy} (r : Run copy) (name : Bytes) (p : Performance) : Run copy :=
  -- two tests of their own
  let r := if p.ret < 0 then r.remove name else r
  if p.status ≠ .ok then r.remove name else r

/-- Why the loop ends before its last request. -/
inductive Early where
  | request (stop : Stop)
  /-- `exit(EXIT_FAILURE)` in `openFile`, which has written no file -/
  | openFile
deriving DecidableEq, Repr

/-- A round of the loop. `none` stands for an `openFile` that ends the program. -/
def download {copy : Copy} (r : Run copy) (reqPath : Bytes) (attempt : Option Performance) :
    Except Early (Run copy) :=
  match request r.st reqPath with
  | .error stop => .error (.request stop)
  | .ok st =>
    match attempt with
    -- `mkdir` or `fopen`; the files of the earlier rounds stay
    | none => .error .openFile
    | some p =>
      match st.buffer.string with
      | .error d => .error (.request (.damage d))
      | .ok name =>
        let disk := (r.disk.create name).appendAll name p.data
        .ok (Run.settle ⟨st, disk, r.complaints⟩ name p)

/-- The loop: what it leaves, and what ended it early. -/
def downloads {copy : Copy} : Run copy → List (Bytes × Option Performance) → Run copy × Option Early
  | r, [] => (r, none)
  | r, (reqPath, attempt) :: rest =>
    match download r reqPath attempt with
    | .error early => (r, some early)
    | .ok r => downloads r rest

/-! ## One request -/

/-- The call succeeded, and so did the request. -/
def Performance.Kept (p : Performance) : Prop := 0 ≤ p.ret ∧ p.status = .ok

instance (p : Performance) : Decidable p.Kept := inferInstanceAs (Decidable (_ ∧ _))

/-- The call failed and left another status, so the file is removed twice. -/
def Performance.twice (p : Performance) : Bool := decide (p.ret < 0) && decide (p.status ≠ .ok)

/-- What is in the file of a request afterwards. -/
def Performance.file (p : Performance) : Option Bytes := if p.Kept then some p.data.flatten else none

section Settle

variable {copy : Copy} {r : Run copy} {name other : Bytes} (p : Performance)

theorem Run.remove_other (h : other ≠ name) : (r.remove name).disk other = r.disk other :=
  Disk.unlink_other h

theorem Run.remove_self : (r.remove name).disk name = none := Disk.unlink_self

/-- A file that is there is removed without complaint, and one that is not, with one. -/
theorem Run.remove_complaints :
    (r.remove name).complaints = r.complaints + if (r.disk name).isSome then 0 else 1 := by
  unfold Run.remove Disk.unlink
  simp only []
  split
  · rfl
  · rfl

theorem Run.settle_st : (r.settle name p).st = r.st := by
  unfold Run.settle
  simp only []
  split <;> split <;> rfl

theorem Run.settle_other (h : other ≠ name) : (r.settle name p).disk other = r.disk other := by
  unfold Run.settle
  simp only []
  split <;> split
  · rw [Run.remove_other h, Run.remove_other h]
  · exact Run.remove_other h
  · exact Run.remove_other h
  · rfl

/-- What the two tests make of a file that was written. -/
theorem Run.settle_self (hfile : r.disk name = some p.data.flatten) :
    (r.settle name p).disk name = p.file ∧
      (r.settle name p).complaints = r.complaints + p.twice.toNat := by
  unfold Performance.file Performance.Kept Performance.twice Run.settle
  simp only []
  by_cases hret : p.ret < 0
  · have hneg : ¬ 0 ≤ p.ret := by omega
    by_cases hstatus : p.status = .ok
    · simp [hret, hneg, hstatus, Run.remove_self, Run.remove_complaints, hfile]
    · -- the second `unlink` finds nothing
      simp [hret, hneg, hstatus, Run.remove_self, Run.remove_complaints, hfile]
  · have hpos : 0 ≤ p.ret := by omega
    by_cases hstatus : p.status = .ok
    · simp [hret, hpos, hstatus, hfile]
    · simp [hret, hpos, hstatus, Run.remove_self, Run.remove_complaints, hfile]

end Settle

theorem request_named {copy : Copy} {s : St copy} {k : Nat} (hcounter : s.counter = k)
    (q : RequestPath copy.limit) (hk : k + 1 < 2 ^ 31) :
    ∃ buffer : Block copy.size, buffer.string = .ok (copy.format (q.bytes.drop 1) k) ∧
      request s q.bytes =
        .ok ⟨((k + 1 : Nat) : Int), buffer, s.names ++ [copy.format (q.bytes.drop 1) k]⟩ := by
  rcases localPath_ok q hk s.buffer with ⟨buffer, hlocal, hstring⟩
  have hle : ¬ copy.limit < q.bytes.length := Nat.not_lt.mpr q.le
  refine ⟨buffer, hstring, ?_⟩
  unfold request
  rw [if_neg hle, hcounter, hlocal]
  simp only [hstring]

/-- A round gives its request the file that belongs to it, and leaves the others alone. -/
theorem download_ok {copy : Copy} {r : Run copy} {k : Nat} (hcounter : r.st.counter = k)
    (q : RequestPath copy.limit) (p : Performance) (hk : k + 1 < 2 ^ 31) :
    ∃ r', download r q.bytes (some p) = .ok r' ∧ r'.st.counter = ((k + 1 : Nat) : Int) ∧
      r'.complaints = r.complaints + p.twice.toNat ∧
      r'.disk (copy.format (q.bytes.drop 1) k) = p.file ∧
      ∀ other ≠ copy.format (q.bytes.drop 1) k, r'.disk other = r.disk other := by
  rcases request_named hcounter q hk with ⟨buffer, hstring, hrequest⟩
  have hcreated : r.disk.create (copy.format (q.bytes.drop 1) k) (copy.format (q.bytes.drop 1) k) =
      some [] := Disk.create_self
  have hwritten := Disk.appendAll_self p.data hcreated
  rw [List.nil_append] at hwritten
  refine ⟨_, by unfold download; simp only [hrequest, hstring]; rfl, ?_, ?_, ?_, ?_⟩
  · rw [Run.settle_st]
  · exact (Run.settle_self p hwritten).2
  · exact (Run.settle_self p hwritten).1
  · intro other hother
    rw [Run.settle_other p hother]
    show ((r.disk.create _).appendAll _ p.data) other = r.disk other
    rw [Disk.appendAll_other hother, Disk.create_other hother]

/-! ## A run -/

/-- A request whose file was opened, and what its call of `gfc_perform` comes to. -/
abbrev Request (copy : Copy) := RequestPath copy.limit × Performance

/-- The name of the file of the request with number `k`. -/
def Request.name {copy : Copy} (q : Request copy) (k : Nat) : Bytes :=
  copy.format (q.1.bytes.drop 1) k

/-- A request, and what becomes of it: `none` if its file cannot be opened. -/
abbrev Attempt (copy : Copy) := RequestPath copy.limit × Option Performance

/-- What the program is given for it. -/
def Attempt.round {copy : Copy} (q : Attempt copy) : Bytes × Option Performance := (q.1.bytes, q.2)

/-- The requests in front of the first one whose file cannot be opened. -/
def opened {copy : Copy} : List (Attempt copy) → List (Request copy)
  | (q, some p) :: rest => (q, p) :: opened rest
  | (_, none) :: _ | [] => []

/-- Every file can be opened. -/
def AllOpen {copy : Copy} (attempts : List (Attempt copy)) : Prop :=
  ∀ q ∈ attempts, q.2.isSome = true

instance {copy : Copy} (attempts : List (Attempt copy)) : Decidable (AllOpen attempts) :=
  inferInstanceAs (Decidable (∀ q ∈ attempts, q.2.isSome = true))

theorem Request.name_inj {copy : Copy} {q q' : Request copy} {k k' : Nat}
    (h : q.name k = q'.name k') : k = k' := by
  have hcounter := congrArg counterOf h
  unfold Request.name at hcounter
  rwa [counterOf_format, counterOf_format] at hcounter

/-- What a run from counter `k` on does to the disk. -/
structure Downloaded {copy : Copy} (k : Nat) (requests : List (Request copy)) (r r' : Run copy) :
    Prop where
  files : ∀ i (q : Request copy), requests[i]? = some q → r'.disk (q.name (k + i)) = q.2.file
  others : ∀ name, (∀ i (q : Request copy), requests[i]? = some q → name ≠ q.name (k + i)) →
    r'.disk name = r.disk name
  complaints : r'.complaints = r.complaints + requests.countP fun q => q.2.twice

theorem Downloaded.cons {copy : Copy} {k : Nat} {q : Request copy} {requests : List (Request copy)}
    {r r₁ r' : Run copy} (hcomplaints : r₁.complaints = r.complaints + q.2.twice.toNat)
    (hself : r₁.disk (q.name k) = q.2.file)
    (hothers : ∀ other ≠ q.name k, r₁.disk other = r.disk other)
    (hrest : Downloaded (k + 1) requests r₁ r') : Downloaded k (q :: requests) r r' := by
  refine ⟨?_, ?_, ?_⟩
  · intro i q' hq'
    cases i with
    | zero =>
      cases hq'
      -- the later files have other numbers
      rw [Nat.add_zero, hrest.others, hself]
      intro i q' _ heq
      have hnum := Request.name_inj heq
      omega
    | succ i =>
      have hfile := hrest.files i q' hq'
      rwa [Nat.add_assoc, Nat.add_comm 1 i] at hfile
  · intro name hname
    rw [hrest.others, hothers]
    · exact hname 0 q rfl
    · intro i q' hq'
      have hne := hname (i + 1) q' hq'
      rwa [Nat.add_comm i 1, ← Nat.add_assoc] at hne
  · rw [hrest.complaints, hcomplaints, List.countP_cons]
    cases q.2.twice with
    | false => simp
    | true =>
      simp only [Bool.toNat_true, if_true]
      omega

theorem downloads_ok {copy : Copy} {r : Run copy} {k : Nat} (hcounter : r.st.counter = k)
    (attempts : List (Attempt copy)) (hk : k + attempts.length < 2 ^ 31) :
    ∃ r', downloads r (attempts.map Attempt.round) =
        (r', if AllOpen attempts then none else some .openFile) ∧
      Downloaded k (opened attempts) r r' := by
  induction attempts generalizing r k with
  | nil => exact ⟨r, rfl, nofun, fun _ _ => rfl, rfl⟩
  | cons q attempts ih =>
    obtain ⟨path, attempt⟩ := q
    rw [List.length_cons] at hk
    cases attempt with
    | none =>
      -- the program ends here
      rcases request_named hcounter path (by omega) with ⟨buffer, _, hrequest⟩
      have hnot : ¬ AllOpen ((path, none) :: attempts) := by
        intro hall
        have hfirst := hall _ List.mem_cons_self
        cases hfirst
      refine ⟨r, ?_, nofun, fun _ _ => rfl, rfl⟩
      rw [if_neg hnot, List.map_cons]
      unfold Attempt.round downloads download
      simp only [hrequest]
    | some p =>
      rcases download_ok hcounter path p (by omega) with
        ⟨r₁, hfirst, hcounter₁, hcomplaints, hself, hothers⟩
      rcases ih hcounter₁ (by omega) with ⟨r', hrun, hrest⟩
      have hall : AllOpen ((path, some p) :: attempts) ↔ AllOpen attempts := by
        unfold AllOpen
        rw [List.forall_mem_cons, Option.isSome_some, eq_self, true_and]
      refine ⟨r', ?_, .cons (q := (path, p)) hcomplaints hself hothers hrest⟩
      simp only [hall]
      rw [List.map_cons, ← hrun]
      unfold Attempt.round
      rw [downloads, hfirst]

/-- The same path twice, received whole and given up after a part of it; then one below the first
file, which is no directory. -/
def threeAttempts : List (Attempt .mtgf) :=
  [(⟨ascii "/a", by decide, by decide, by decide⟩, some ⟨[ascii "x", ascii "y"], 0, .ok⟩),
    (⟨ascii "/a", by decide, by decide, by decide⟩, some ⟨[ascii "x"], -1, .error⟩),
    (⟨ascii "/a-000000/b", by decide, by decide, by decide⟩, none)]

end IntroOS.Getfile.Download
