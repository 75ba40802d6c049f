import IntroOS.Base.CStr
import IntroOS.Base.Loop

/-! # `transferserver.c`

The server reads the first part of its file into `buffer`, and then accepts one connection
after the other and sends the file on each.

* `turn`: one turn of the accept loop, from the accepted connection on;
* `serve`: a number of turns, with the bytes sent on each connection;
* `serve_full`: what the connections get when every `send` takes its whole argument;
* `transferserver_alike_iff`: the connections get the file if and only if there is only one
  (or no more than two, and the file is empty).

The variables of the loop are set once, before it. The file is a parameter and does not
change. Reading from a stream that was closed, or closing it again, is undefined behaviour.
-/

namespace IntroOS.Transfer

/-- `BUFSIZE`. -/
def bufSize : Nat := 4096

/-! ## The program -/

/-- What the accept loop keeps from one turn to the next. -/
structure Server where
  bytesSent : Int
  bytesLeft : Int
  buffer : Bytes
  /-- the position in `transfer_file` -/
  pos : Nat
  /-- `transfer_file` was not closed -/
  isOpen : Bool
  /-- how often `send` was called -/
  sends : Nat
deriving DecidableEq, Repr

/-- `total_bytes = st.st_size`. -/
def totalBytes (file : Bytes) : Int := toInt32 file.length

/-- `fread(buffer, size, 1, transfer_file)`. What is left of the file may be less. -/
def Server.fread (file : Bytes) (s : Server) (size : Nat) : Server :=
  let data := (file.drop s.pos).take size
  { s with buffer := data ++ s.buffer.drop data.length, pos := s.pos + data.length }

/-- Before the accept loop. `junk` is in the memory of `buffer`. -/
def Server.start (file junk : Bytes) : Server :=
  Server.fread file ⟨0, totalBytes file, junk, 0, true, 0⟩ (bufSize - 1)

/-- The third argument of the next `send`. -/
def Server.chunk (s : Server) : Int :=
  if s.bytesLeft < (bufSize - 1 : Nat) then s.bytesLeft else (bufSize - 1 : Nat)

/-- `tempnum = send(conn_sockfd, buffer, ..)`: the server after it, the bytes that went out and
`tempnum`. `answer k len` is what the `k`-th `send` returns, for `len` bytes. A negative
length is one beyond the buffer. -/
def Server.send (answer : Nat → Nat → Int) (s : Server) : Option (Server × Bytes × Int) :=
  if s.chunk < 0 then none
  else
    let len := s.chunk.toNat
    let sent := answer s.sends len
    some ({ s with sends := s.sends + 1 }, (s.buffer.take len).take sent.toNat, toInt32 sent)

/-- `bytes_sent += tempnum; bytes_left -= tempnum`. -/
def Server.count (s : Server) (tempnum : Int) : Server :=
  { s with bytesSent := s.bytesSent + tempnum, bytesLeft := s.bytesLeft - tempnum }

/-- Clear the buffer, read the next chunk of the file and send it. -/
def Server.sendNext (file : Bytes) (answer : Nat → Nat → Int) (s : Server) :
    Option (Server × Bytes × Int) :=
  (Server.fread file { s with buffer := List.replicate bufSize 0 } s.chunk.toNat).send answer

/-- How a turn ends: the bytes sent on the connection, and the variables for the next turn
unless the behaviour was undefined. -/
abbrev Turn := Bytes × Option Server

/-- A round of `while (bytes_sent < total_bytes)`, with the bytes sent on this connection. -/
def round (file : Bytes) (answer : Nat → Nat → Int) :
    Server × Bytes → (Server × Bytes) ⊕ Turn
  | (s, out) =>
    if ¬ s.bytesSent < totalBytes file then .inr (out, some s)
    else if ¬ s.isOpen then .inr (out, none)
    else
      match s.sendNext file answer with
      | none => .inr (out, none)
      | some (s, data, tempnum) =>
        if tempnum = -1 then .inr (out ++ data, some s)
        else .inl (s.count tempnum, out ++ data)

/-- `fclose(transfer_file)`. -/
def Server.fclose (s : Server) : Option Server :=
  if s.isOpen then some { s with isOpen := false } else none

/-- A turn of the accept loop; `none` if its inner loop takes more than `fuel` rounds. -/
def turn (file : Bytes) (answer : Nat → Nat → Int) (fuel : Nat) (s : Server) : Option Turn :=
  match s.send answer with
  | none => some ([], none)
  | some (s, data, tempnum) =>
    (loop (round file answer) fuel (s.count tempnum, data)).map fun t =>
      (t.1, t.2.bind Server.fclose)

/-- The bytes sent on each of `n` connections. Nothing is known about those after an undefined
behaviour. -/
def serve (file : Bytes) (answer : Nat → Nat → Int) (fuel : Nat) : Nat → Server → Option (List Bytes)
  | 0, _ => some []
  | n + 1, s =>
    match turn file answer fuel s with
    | none => none
    | some (out, none) => some [out]
    | some (out, some s) => (serve file answer fuel n s).map (out :: ·)

/-- Every `send` accepts its whole argument. -/
def full : Nat → Nat → Int := fun _ len => len

/-! ## Enough fuel -/

section Fuel

variable {file : Bytes} {answer : Nat → Nat → Int}

theorem turn_mono {s : Server} {t : Turn} {m n : Nat} (h : turn file answer m s = some t)
    (hle : m ≤ n) : turn file answer n s = some t := by
  unfold turn at h ⊢
  split at h
  · exact h
  · rcases Option.map_eq_some_iff.mp h with ⟨r, hr, heq⟩
    rw [loop_mono hr hle, Option.map_some, heq]

theorem serve_next {s s' : Server} {out : Bytes} {fuel n : Nat}
    (h : turn file answer fuel s = some (out, some s')) :
    serve file answer fuel (n + 1) s = (serve file answer fuel n s').map (out :: ·) := by
  rw [serve, h]

theorem serve_undefined {s : Server} {out : Bytes} {fuel n : Nat}
    (h : turn file answer fuel s = some (out, none)) :
    serve file answer fuel (n + 1) s = some [out] := by
  rw [serve, h]

theorem serve_mono {s : Server} {outs : List Bytes} {k m n : Nat}
    (h : serve file answer m k s = some outs) (hle : m ≤ n) :
    serve file answer n k s = some outs := by
  induction k generalizing s outs with
  | zero => exact h
  | succ k ih =>
    rw [serve] at h
    split at h
    · cases h
    · rename_i out ht
      rw [serve_undefined (turn_mono ht hle)]
      exact h
    · rename_i out s' ht
      rcases Option.map_eq_some_iff.mp h with ⟨rest, hrest, heq⟩
      rw [serve_next (turn_mono ht hle), ih hrest, Option.map_some, heq]

theorem serve_unique {s : Server} {outs outs' : List Bytes} {k m n : Nat}
    (h : serve file answer m k s = some outs) (h' : serve file answer n k s = some outs') :
    outs = outs' := by
  have hm := serve_mono h (Nat.le_max_left m n)
  have hn := serve_mono h' (Nat.le_max_right m n)
  rw [hm] at hn
  exact Option.some.inj hn

end Fuel

/-! ## The first connection -/

/-- On the way through the file: what went out is its beginning, the counters add up, and the
stream stands where the next chunk begins. -/
structure Sending (file : Bytes) (p : Server × Bytes) : Prop where
  out : p.2 <+: file
  sent : p.1.bytesSent = p.2.length
  left : p.1.bytesLeft = (file.length : Int) - p.2.length
  pos : p.1.pos = p.2.length
  isOpen : p.1.isOpen = true

variable {file : Bytes}

theorem totalBytes_eq (h : file.length < 2 ^ 31) : totalBytes file = file.length :=
  toInt32_of_lt h

/-- The chunk is the rest of the file, or as much of it as the buffer takes. -/
theorem Sending.chunk {p : Server × Bytes} (h : Sending file p) :
    p.1.chunk = ((min (file.length - p.2.length) (bufSize - 1) : Nat) : Int) := by
  have hle := h.out.length_le
  have hleft := h.left
  unfold Server.chunk
  split <;> omega

/-- A `send` of a whole chunk. -/
theorem send_full {s : Server} {len : Nat} (h : s.chunk = len) (hlt : len < 2 ^ 31) :
    s.send full = some ({ s with sends := s.sends + 1 }, s.buffer.take len, (len : Int)) := by
  have hneg : ¬ ((len : Int) < 0) := by omega
  unfold Server.send full
  rw [h, if_neg hneg]
  simp only [Int.toNat_natCast, toInt32_of_lt hlt, List.take_take, Nat.min_self]

theorem round_open {answer : Nat → Nat → Int} {s s' : Server} {out data : Bytes} {tempnum : Int}
    (htest : s.bytesSent < totalBytes file) (hopen : s.isOpen = true)
    (hsend : s.sendNext file answer = some (s', data, tempnum)) (hok : tempnum ≠ -1) :
    round file answer (s, out) = .inl (s'.count tempnum, out ++ data) := by
  unfold round
  simp only [htest, hopen, hsend, hok, not_true_eq_false, if_false]

theorem round_over {answer : Nat → Nat → Int} {s : Server} {out : Bytes}
    (htest : ¬ s.bytesSent < totalBytes file) : round file answer (s, out) = .inr (out, some s) := by
  unfold round
  simp only [htest, not_false_eq_true, if_true]

/-- The part of the file that `fread` returned is at the beginning of the buffer. -/
theorem fread_buffer (s : Server) {len size : Nat} (h : s.pos + len ≤ file.length)
    (hle : len ≤ size) : (s.fread file size).buffer.take len = (file.drop s.pos).take len := by
  show ((file.drop s.pos).take size ++ _).take len = _
  have hlen : len ≤ ((file.drop s.pos).take size).length := by
    rw [List.length_take, List.length_drop]
    omega
  rw [List.take_append_of_le_length hlen, List.take_take, Nat.min_eq_left hle]

/-- The next chunk is sent and counted. -/
theorem Sending.next {p : Server × Bytes} (h : Sending file p) {len : Nat}
    (hlen : p.2.length + len ≤ file.length) {s : Server} (hsent : s.bytesSent = p.1.bytesSent)
    (hleft : s.bytesLeft = p.1.bytesLeft) (hpos : s.pos = p.2.length + len)
    (hopen : s.isOpen = true) :
    Sending file (s.count len, p.2 ++ (file.drop p.2.length).take len) := by
  have hdata : (p.2 ++ (file.drop p.2.length).take len).length = p.2.length + len := by
    rw [List.length_append, List.length_take, List.length_drop]
    omega
  refine ⟨prefix_read h.out len, ?_, ?_, ?_, hopen⟩
  · show s.bytesSent + len = ((p.2 ++ _).length : Nat)
    rw [hdata, hsent, h.sent]
    omega
  · show s.bytesLeft - len = (file.length : Int) - ((p.2 ++ _).length : Nat)
    rw [hdata, hleft, h.left]
    omega
  · show s.pos = (p.2 ++ _).length
    rw [hdata, hpos]

/-- A round continues the file. -/
theorem round_sending (hlt : file.length < 2 ^ 31) {p : Server × Bytes} (h : Sending file p)
    (hmore : p.2.length < file.length) :
    ∃ p', round file full p = .inl p' ∧ Sending file p' ∧ p.2.length < p'.2.length := by
  rcases p with ⟨s, out⟩
  have hchunk := h.chunk
  obtain ⟨len, hlen⟩ : ∃ len, len = min (file.length - out.length) (bufSize - 1) := ⟨_, rfl⟩
  have hpos : 0 < len ∧ out.length + len ≤ file.length ∧ len < 2 ^ 31 := by
    have hbuf : bufSize - 1 = 4095 := rfl
    simp only [] at hmore
    omega
  rw [← hlen] at hchunk
  -- the buffer is cleared, filled and sent
  obtain ⟨s₁, hs₁⟩ : ∃ s₁, s₁ = Server.fread file { s with buffer := List.replicate bufSize 0 } len :=
    ⟨_, rfl⟩
  have hdata : s₁.buffer.take len = (file.drop out.length).take len := by
    have hfits : s.pos + len ≤ file.length := by
      rw [h.pos]
      exact hpos.2.1
    have hread := fread_buffer { s with buffer := List.replicate bufSize 0 } hfits (le_refl len)
    rw [hs₁, hread]
    show (file.drop s.pos).take len = _
    rw [h.pos]
  have hsend : s.sendNext file full =
      some ({ s₁ with sends := s₁.sends + 1 }, s₁.buffer.take len, (len : Int)) := by
    have hchunk : s.chunk = len := hchunk
    unfold Server.sendNext
    rw [hchunk, Int.toNat_natCast, ← hs₁]
    apply send_full _ hpos.2.2
    rw [hs₁]
    exact hchunk
  have htest : s.bytesSent < totalBytes file := by
    rw [totalBytes_eq hlt, h.sent]
    exact_mod_cast hmore
  have hround : round file full (s, out) =
      .inl (Server.count { s₁ with sends := s₁.sends + 1 } len, out ++ s₁.buffer.take len) :=
    round_open htest h.isOpen hsend (by omega)
  refine ⟨_, hround, ?_, ?_⟩
  · rw [hdata]
    apply h.next hpos.2.1
    · rw [hs₁]
      rfl
    · rw [hs₁]
      rfl
    · have hs : s.pos = out.length := h.pos
      have hfits := hpos.2.1
      rw [hs₁]
      show s.pos + ((file.drop s.pos).take len).length = out.length + len
      rw [List.length_take, List.length_drop, hs]
      omega
    · rw [hs₁]
      exact h.isOpen
  · show out.length < (out ++ s₁.buffer.take len).length
    rw [hdata, List.length_append, List.length_take, List.length_drop]
    have := hpos
    omega

/-- What the first connection leaves behind: the counters of a file that was sent, and a
stream at its end. -/
structure Spent (file : Bytes) (s : Server) : Prop where
  sent : s.bytesSent = file.length
  left : s.bytesLeft = 0
  isOpen : s.isOpen = true

/-- The loop is left with the whole file sent. -/
theorem round_spent (hlt : file.length < 2 ^ 31) {p : Server × Bytes} (h : Sending file p)
    (hdone : ¬ p.2.length < file.length) :
    round file full p = .inr (file, some p.1) ∧ Spent file p.1 := by
  have hlen : p.2.length = file.length := le_antisymm h.out.length_le (by omega)
  have hall : p.2 = file := h.out.eq_of_length hlen
  have htest : ¬ p.1.bytesSent < totalBytes file := by
    rw [totalBytes_eq hlt, h.sent]
    omega
  have hround : round file full p = .inr (p.2, some p.1) := round_over htest
  refine ⟨by rw [hround, hall], ?_, ?_, h.isOpen⟩
  · rw [h.sent, hlen]
  · rw [h.left, hlen]
    omega

theorem loop_sending (hlt : file.length < 2 ^ 31) {p : Server × Bytes} (h : Sending file p)
    {fuel : Nat} (hfuel : file.length < fuel) :
    ∃ s, loop (round file full) fuel p = some (file, some s) ∧ Spent file s := by
  have hround : ∀ p p', Sending file p → round file full p = .inl p' →
      Sending file p' ∧ file.length - p'.2.length < file.length - p.2.length := by
    intro p p' hp heq
    by_cases hmore : p.2.length < file.length
    · rcases round_sending hlt hp hmore with ⟨p₁, hp₁, hsending, hlonger⟩
      rw [heq] at hp₁
      cases hp₁
      exact ⟨hsending, by omega⟩
    · rw [(round_spent hlt hp hmore).1] at heq
      cases heq
  have hexit : ∀ p t, Sending file p → round file full p = .inr t →
      ∃ s, t = (file, some s) ∧ Spent file s := by
    intro p t hp heq
    by_cases hmore : p.2.length < file.length
    · rcases round_sending hlt hp hmore with ⟨p₁, hp₁, _⟩
      rw [heq] at hp₁
      cases hp₁
    · obtain ⟨hround, hspent⟩ := round_spent hlt hp hmore
      rw [heq] at hround
      cases hround
      exact ⟨p.1, rfl, hspent⟩
  rcases loop_ends (fun p => file.length - p.2.length) hround hexit h (by omega : _ < fuel) with
    ⟨t, ht, s, rfl, hs⟩
  exact ⟨s, ht, hs⟩

theorem turn_of_send {answer : Nat → Nat → Int} {fuel : Nat} {s s' : Server} {data : Bytes}
    {tempnum : Int} {t : Turn} (hsend : s.send answer = some (s', data, tempnum))
    (hloop : loop (round file answer) fuel (s'.count tempnum, data) = some t) :
    turn file answer fuel s = some (t.1, t.2.bind Server.fclose) := by
  unfold turn
  rw [hsend]
  simp only [hloop, Option.map_some]

/-- The first connection gets the file. -/
theorem turn_start (hlt : file.length < 2 ^ 31) (junk : Bytes) {fuel : Nat}
    (hfuel : file.length < fuel) :
    ∃ s, turn file full fuel (Server.start file junk) = some (file, some { s with isOpen := false }) ∧
      Spent file s := by
  -- what is in the buffer was read before the loop
  have hbefore : Sending file (⟨0, totalBytes file, junk, 0, true, 0⟩, []) :=
    ⟨List.nil_prefix, rfl, by rw [totalBytes_eq hlt]; rfl, rfl, rfl⟩
  obtain ⟨len, hlen⟩ : ∃ len, len = min file.length (bufSize - 1) := ⟨_, rfl⟩
  have hpos : len ≤ file.length ∧ len ≤ bufSize - 1 ∧ len < 2 ^ 31 := by omega
  have hchunk : (Server.start file junk).chunk = len := by
    rw [hlen]
    exact hbefore.chunk
  have hdata : (Server.start file junk).buffer.take len = file.take len := by
    apply fread_buffer _ _ hpos.2.1
    show 0 + len ≤ file.length
    omega
  have hsend := send_full hchunk hpos.2.2
  have hsending : Sending file
      (Server.count { Server.start file junk with sends := (Server.start file junk).sends + 1 } len,
        [] ++ file.take len) := by
    apply hbefore.next
    · show 0 + len ≤ file.length
      omega
    · rfl
    · rfl
    · show 0 + (file.take (bufSize - 1)).length = 0 + len
      rw [List.length_take]
      omega
    · rfl
  rcases loop_sending hlt hsending hfuel with ⟨s, hloop, hspent⟩
  refine ⟨s, ?_, hspent⟩
  rw [hdata] at hsend
  rw [turn_of_send hsend hloop, Option.bind_some, Server.fclose, if_pos hspent.isOpen]

/-- The next one gets nothing, and closes a closed stream. -/
theorem turn_spent (hlt : file.length < 2 ^ 31) {s : Server} (hspent : Spent file s) {fuel : Nat}
    (hfuel : 0 < fuel) : turn file full fuel { s with isOpen := false } = some ([], none) := by
  obtain ⟨fuel, rfl⟩ : ∃ k, fuel = k + 1 := ⟨fuel - 1, by omega⟩
  have hchunk : Server.chunk { s with isOpen := false } = (0 : Nat) := by
    unfold Server.chunk
    rw [hspent.left]
    rfl
  have hsend := send_full hchunk (by omega)
  obtain ⟨s', hs'⟩ : ∃ s' : Server, s' = { s with isOpen := false, sends := s.sends + 1 } := ⟨_, rfl⟩
  have hsend : Server.send full { s with isOpen := false } = some (s', [], ((0 : Nat) : Int)) := by
    rw [hsend, hs', List.take_zero]
  have htest : ¬ (s'.count ((0 : Nat) : Int)).bytesSent < totalBytes file := by
    rw [totalBytes_eq hlt, hs']
    show ¬ s.bytesSent + ((0 : Nat) : Int) < _
    rw [hspent.sent]
    omega
  have hclosed : Server.fclose (s'.count ((0 : Nat) : Int)) = none := by
    rw [hs']
    rfl
  rw [turn_of_send hsend (loop_exit (round_over htest) fuel), Option.bind_some, hclosed]

/-- What `n` connections get: the file on the first one, nothing on the second, and nothing is
known about the others. -/
theorem serve_full (hlt : file.length < 2 ^ 31) (junk : Bytes) {fuel : Nat}
    (hfuel : file.length < fuel) (n : Nat) :
    serve file full fuel n (Server.start file junk) = some (([file, []] : List Bytes).take n) := by
  rcases turn_start hlt junk hfuel with ⟨s, hturn, hspent⟩
  have hnext : turn file full fuel { s with isOpen := false } = some ([], none) :=
    turn_spent hlt hspent (by omega)
  cases n with
  | zero => rfl
  | succ n =>
    rw [serve_next hturn]
    cases n with
    | zero =>
      rw [serve, Option.map_some, List.take_succ_cons, List.take_zero]
    | succ n =>
      rw [serve_undefined hnext, Option.map_some, List.take_succ_cons, List.take_succ_cons,
        List.take_nil]

/-- Every one of `n` connections gets the file. The bytes of the second one go out before the second
`fclose`, and that this is undefined does not count. -/
def Alike (file junk : Bytes) (n : Nat) : Prop :=
  ∃ fuel, serve file full fuel n (Server.start file junk) = some (List.replicate n file)

/-- **One connection.** Every connection gets the file exactly if there is one connection, or
the file is empty and there are two. -/
theorem transferserver_alike_iff (file junk : Bytes) (n : Nat) (hlt : file.length < 2 ^ 31) :
    Alike file junk n ↔ n ≤ 1 ∨ (file = [] ∧ n = 2) := by
  have hserve := serve_full hlt junk (Nat.lt_succ_self _) n
  constructor
  · intro halike
    rcases halike with ⟨fuel, h⟩
    have heq := serve_unique hserve h
    -- as many connections as there are answers
    have hlen : (List.take n ([file, []] : List Bytes)).length = n := by
      rw [heq, List.length_replicate]
    rw [List.length_take] at hlen
    have hcases : n ≤ 1 ∨ n = 2 := by
      simp only [List.length_cons, List.length_nil] at hlen
      omega
    rcases hcases with hone | rfl
    · exact Or.inl hone
    · refine Or.inr ⟨?_, rfl⟩
      simp [List.replicate] at heq
      exact heq
  · intro h
    refine ⟨_, hserve.trans ?_⟩
    rcases h with hone | ⟨rfl, rfl⟩
    · have hcases : n = 0 ∨ n = 1 := by omega
      rcases hcases with rfl | rfl
      · rfl
      · rfl
    · rfl

theorem transferserver_alike_once : ascii "abc" ≠ [] ∧ Alike (ascii "abc") [] 1 := by
  refine ⟨by decide, ?_⟩
  exact (transferserver_alike_iff (ascii "abc") [] 1 (by decide)).mpr (Or.inl (le_refl 1))

/-- Two connections: the second one gets nothing. -/
theorem transferserver_second_empty :
    ¬ ∀ (file junk : Bytes) (n : Nat), file.length < 2 ^ 31 → 1 ≤ n → Alike file junk n := by
  intro h
  rcases h (ascii "abc") [] 2 (by decide) (by decide) with ⟨fuel, hserve⟩
  have hlt : (ascii "abc").length < 2 ^ 31 := by decide
  have heq := serve_unique (serve_full hlt [] (Nat.lt_succ_self _) 2) hserve
  exact absurd heq (by decide)

end IntroOS.Transfer
