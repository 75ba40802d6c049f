import IntroOS.Transfer.TransferServer
import Mathlib.Data.List.GetD
import Mathlib.Order.Monotone.Basic
import Mathlib.Tactic.Push

/-! # `transferserver` and partial sends

The loop reads on by as much as it asks `send` to take, and counts what `send` took. After a
short `send` the file position is ahead of the count, and stays so.

* `Sources`: for every byte that went out, where it comes from;
* `loop_sources`: the loop keeps that, for all results of `send`;
* `partial_sends_iff`: the client gets the file if and only if what follows a short `send` is
  all zeros.

`request`, `sentBefore` and `readBefore` are the arithmetic of the results of `send`.
-/

namespace IntroOS.Transfer

variable {file junk : Bytes} {answer : Nat → Nat → Int}

/-! ## Results of `send` -/

/-- `send` takes something of what it is given, and no more than that. -/
structure TakesSome (answer : Nat → Nat → Int) : Prop where
  pos : ∀ k len, 0 < len → 1 ≤ answer k len
  nonneg : ∀ k len, 0 ≤ answer k len
  le : ∀ k len, answer k len ≤ len

/-- How much is given to `send` when `sent` of `total` bytes were taken before. -/
def request (total sent : Nat) : Nat := min (total - sent) (bufSize - 1)

/-- What the first `k` sends take. -/
def sentBefore (answer : Nat → Nat → Int) (total : Nat) : Nat → Nat
  | 0 => 0
  | k + 1 =>
    sentBefore answer total k + (answer k (request total (sentBefore answer total k))).toNat

/-- What the first `k` sends are given. -/
def readBefore (answer : Nat → Nat → Int) (total : Nat) : Nat → Nat
  | 0 => 0
  | k + 1 => readBefore answer total k + request total (sentBefore answer total k)

/-- The `k`-th `send` takes less than it is given. -/
def Short (answer : Nat → Nat → Int) (total k : Nat) : Prop :=
  answer k (request total (sentBefore answer total k)) < request total (sentBefore answer total k)

section Arithmetic

variable {total : Nat}

theorem taken_le (hans : TakesSome answer) (k len : Nat) : (answer k len).toNat ≤ len := by
  have hle := hans.le k len
  omega

theorem sentBefore_le (hans : TakesSome answer) (total k : Nat) : sentBefore answer total k ≤ total := by
  induction k with
  | zero => exact Nat.zero_le _
  | succ k ih =>
    have htaken := taken_le hans k (request total (sentBefore answer total k))
    rw [sentBefore]
    unfold request at htaken ⊢
    omega

theorem sentBefore_le_readBefore (hans : TakesSome answer) (total k : Nat) :
    sentBefore answer total k ≤ readBefore answer total k := by
  induction k with
  | zero => exact le_refl 0
  | succ k ih =>
    have htaken := taken_le hans k (request total (sentBefore answer total k))
    rw [sentBefore, readBefore]
    omega

/-- The two counts are the same as long as no `send` was short. -/
theorem readBefore_eq_iff (hans : TakesSome answer) (k : Nat) :
    readBefore answer total k = sentBefore answer total k ↔ ∀ i < k, ¬ Short answer total i := by
  induction k with
  | zero =>
    constructor
    · intro _ i hi
      omega
    · intro _
      rfl
  | succ k ih =>
    have hle := sentBefore_le_readBefore hans total k
    have hans' := hans.le k (request total (sentBefore answer total k))
    have hnonneg := hans.nonneg k (request total (sentBefore answer total k))
    rw [Nat.forall_lt_succ_right, ← ih]
    rw [sentBefore, readBefore]
    unfold Short
    omega

theorem sentBefore_mono (answer : Nat → Nat → Int) (total : Nat) :
    Monotone (sentBefore answer total) := by
  apply monotone_nat_of_le_succ
  intro k
  rw [sentBefore]
  omega

/-- While something is left to be sent, something is sent. -/
theorem sentBefore_lt (hans : TakesSome answer) {k : Nat} (h : sentBefore answer total k < total) :
    sentBefore answer total k < sentBefore answer total (k + 1) := by
  have hbuf : bufSize - 1 = 4095 := rfl
  have hlen : 0 < request total (sentBefore answer total k) := by
    unfold request
    omega
  have hpos := hans.pos k _ hlen
  rw [sentBefore]
  omega

end Arithmetic

/-! ## Where the bytes come from -/

/-- No short `send` had come to its end before byte `j` was sent. -/
def InOrder (answer : Nat → Nat → Int) (total j : Nat) : Prop :=
  ∀ i, Short answer total i → j < sentBefore answer total (i + 1)

/-- Every byte of `out` stands at its place in the file, or behind it (or is one of the zeros
behind the end). It stands at its place exactly if no short `send` had come before. -/
def Sources (file : Bytes) (answer : Nat → Nat → Int) (out : Bytes) : Prop :=
  ∀ j < out.length, ∃ e, j ≤ e ∧ out[j]? = some (file.getD e 0) ∧
    (e = j ↔ InOrder answer file.length j)

/-- The bytes of the `k`-th send. -/
theorem inOrder_iff (hans : TakesSome answer) {total k i : Nat}
    (hi : i < (answer k (request total (sentBefore answer total k))).toNat) :
    readBefore answer total k + i = sentBefore answer total k + i ↔
      InOrder answer total (sentBefore answer total k + i) := by
  have hnext : sentBefore answer total k + i < sentBefore answer total (k + 1) := by
    rw [sentBefore]
    omega
  rw [Nat.add_right_cancel_iff, readBefore_eq_iff hans]
  constructor
  · intro hnone i' hshort
    have hle : k + 1 ≤ i' + 1 := by
      by_contra hlt
      exact hnone i' (by omega) hshort
    exact lt_of_lt_of_le hnext (sentBefore_mono answer total hle)
  · intro horder i' hlt hshort
    have hle := sentBefore_mono answer total (show i' + 1 ≤ k from hlt)
    have hbefore := horder i' hshort
    omega

/-- What the `k`-th send adds. -/
theorem Sources.append (hans : TakesSome answer) {out data : Bytes} {k : Nat}
    (h : Sources file answer out) (hlen : out.length = sentBefore answer file.length k)
    (hdata : data.length ≤ (answer k (request file.length (sentBefore answer file.length k))).toNat)
    (hbytes : ∀ i < data.length,
      data[i]? = some (file.getD (readBefore answer file.length k + i) 0)) :
    Sources file answer (out ++ data) := by
  intro j hj
  rw [List.length_append] at hj
  by_cases hold : j < out.length
  · rw [List.getElem?_append_left hold]
    exact h j hold
  · obtain ⟨i, rfl⟩ : ∃ i, j = out.length + i := ⟨j - out.length, by omega⟩
    have hi : i < data.length := by omega
    have hle := sentBefore_le_readBefore hans file.length k
    rw [List.getElem?_append_right (by omega), Nat.add_sub_cancel_left, hlen]
    exact ⟨_, by omega, hbytes i hi, inOrder_iff hans (by omega)⟩

/-- The file has nothing but zeros from `m` on, seen byte by byte. -/
theorem drop_zeros_iff {m : Nat} :
    (∀ b ∈ file.drop m, b = 0) ↔ ∀ j, m ≤ j → file.getD j 0 = 0 := by
  constructor
  · intro hzeros j hj
    by_cases hlt : j < file.length
    · rw [List.getD_eq_getElem _ _ hlt]
      apply hzeros
      rw [List.mem_iff_getElem?]
      refine ⟨j - m, ?_⟩
      rw [List.getElem?_drop, Nat.add_sub_cancel' hj, List.getElem?_eq_getElem hlt]
    · exact List.getD_eq_default _ _ (by omega)
  · intro hzeros b hb
    obtain ⟨i, hi⟩ := List.mem_iff_getElem?.mp hb
    rw [List.getElem?_drop] at hi
    have hz := hzeros (m + i) (by omega)
    rwa [List.getD_eq_getElem?_getD, hi, Option.getD_some] at hz

/-- If the file goes out, every byte behind a short `send` comes from one behind itself, so there
are zeros up to the end. The induction goes downwards from there. -/
theorem Sources.zero_of_short (h : Sources file answer file) {k : Nat}
    (hshort : Short answer file.length k) {n j : Nat} (hend : file.length ≤ j + n)
    (hj : sentBefore answer file.length (k + 1) ≤ j) : file.getD j 0 = 0 := by
  induction n generalizing j with
  | zero => exact List.getD_eq_default _ _ hend
  | succ n ih =>
    by_cases hlt : j < file.length
    · obtain ⟨e, hle, hbyte, horder⟩ := h j hlt
      have hne : e ≠ j := by
        intro hej
        have hbefore := horder.mp hej k hshort
        omega
      rw [List.getD_eq_getElem?_getD, hbyte, Option.getD_some]
      exact ih (by omega) (by omega)
    · exact List.getD_eq_default _ _ (by omega)

/-- The file goes out exactly if nothing but zeros follows a short `send`. -/
theorem Sources.eq_file_iff {out : Bytes} (h : Sources file answer out)
    (hlen : out.length = file.length) :
    out = file ↔ ∀ k, Short answer file.length k →
      ∀ b ∈ file.drop (sentBefore answer file.length (k + 1)), b = 0 := by
  simp only [drop_zeros_iff]
  constructor
  · intro heq k hshort j hj
    rw [heq] at h
    exact h.zero_of_short hshort (Nat.le_add_left file.length j) hj
  · intro hzeros
    apply List.ext_getElem?
    intro j
    by_cases hj : j < out.length
    · obtain ⟨e, hle, hbyte, horder⟩ := h j hj
      have hlt : j < file.length := by omega
      rw [hbyte, List.getElem?_eq_getElem hlt, ← List.getD_eq_getElem _ 0 hlt]
      by_cases hej : e = j
      · rw [hej]
      · -- both are zeros that follow a short send
        have hnot : ¬ InOrder answer file.length j := fun hin => hej (horder.mpr hin)
        unfold InOrder at hnot
        push Not at hnot
        rcases hnot with ⟨k, hshort, hk⟩
        rw [hzeros k hshort e (by omega), hzeros k hshort j hk]
    · rw [List.getElem?_eq_none (by omega), List.getElem?_eq_none (by omega)]

/-! ## The loop -/

/-- The counters after a number of sends, and the bytes that went out. -/
structure Counted (file : Bytes) (answer : Nat → Nat → Int) (p : Server × Bytes) : Prop where
  sent : p.1.bytesSent = sentBefore answer file.length p.1.sends
  left : p.1.bytesLeft = (file.length : Int) - sentBefore answer file.length p.1.sends
  length : p.2.length = sentBefore answer file.length p.1.sends
  out : Sources file answer p.2
  isOpen : p.1.isOpen = true

/-- At the head of the loop. -/
structure AtHead (file : Bytes) (answer : Nat → Nat → Int) (p : Server × Bytes) : Prop
    extends Counted file answer p where
  pos : p.1.pos = min (readBefore answer file.length p.1.sends) file.length

/-- Before a `send`: the buffer has been filled. -/
structure Loaded (file : Bytes) (answer : Nat → Nat → Int) (p : Server × Bytes) : Prop
    extends Counted file answer p where
  pos : p.1.pos = min (readBefore answer file.length (p.1.sends + 1)) file.length
  buffer : ∀ i < request file.length (sentBefore answer file.length p.1.sends),
    p.1.buffer[i]? = some (file.getD (readBefore answer file.length p.1.sends + i) 0)

theorem request_lt (total sent : Nat) : request total sent < bufSize := by
  have hbuf : bufSize = 4096 := rfl
  unfold request
  omega

theorem Counted.chunk (hans : TakesSome answer) {p : Server × Bytes} (h : Counted file answer p) :
    p.1.chunk = request file.length (sentBefore answer file.length p.1.sends) := by
  have hle := sentBefore_le hans file.length p.1.sends
  have hleft := h.left
  have hbuf : bufSize - 1 = 4095 := rfl
  unfold Server.chunk request
  split <;> omega

/-- A `send` of `len` bytes. -/
theorem send_some (hans : TakesSome answer) {s : Server} {len : Nat} (h : s.chunk = len)
    (hlt : len < bufSize) :
    s.send answer = some ({ s with sends := s.sends + 1 },
      s.buffer.take (answer s.sends len).toNat, answer s.sends len) := by
  have hbuf : bufSize = 4096 := rfl
  have htaken := taken_le hans s.sends len
  have hnonneg := hans.nonneg s.sends len
  have hsame : toInt32 (answer s.sends len) = answer s.sends len := by
    unfold toInt32
    omega
  have hneg : ¬ ((len : Int) < 0) := by omega
  unfold Server.send
  rw [h, if_neg hneg]
  simp only [Int.toNat_natCast, List.take_take, Nat.min_eq_left htaken, hsame]

/-- A `send` out of a filled buffer. -/
theorem Loaded.send (hans : TakesSome answer) {p : Server × Bytes} (h : Loaded file answer p) :
    ∃ s data tempnum, p.1.send answer = some (s, data, tempnum) ∧ tempnum ≠ -1 ∧
      AtHead file answer (s.count tempnum, p.2 ++ data) ∧ s.sends = p.1.sends + 1 := by
  have hlt := request_lt file.length (sentBefore answer file.length p.1.sends)
  have hsend := send_some hans (h.toCounted.chunk hans) hlt
  obtain ⟨len, hlen⟩ : ∃ len, len = request file.length (sentBefore answer file.length p.1.sends) :=
    ⟨_, rfl⟩
  rw [← hlen] at hsend hlt
  have htaken := taken_le hans p.1.sends len
  have hnonneg := hans.nonneg p.1.sends len
  obtain ⟨r, hr⟩ : ∃ r, r = (answer p.1.sends len).toNat := ⟨_, rfl⟩
  have hcast : answer p.1.sends len = r := by omega
  have hnext : sentBefore answer file.length (p.1.sends + 1) =
      sentBefore answer file.length p.1.sends + r := by
    rw [sentBefore, ← hlen, ← hr]
  rw [← hr] at hsend htaken
  -- the buffer holds what is sent
  have hfilled : ∀ i < len, p.1.buffer[i]? =
      some (file.getD (readBefore answer file.length p.1.sends + i) 0) := by
    rw [hlen]
    exact h.buffer
  have hdata : (p.1.buffer.take r).length = r := by
    rw [List.length_take]
    apply Nat.min_eq_left
    by_contra hshort
    have hi : p.1.buffer.length < len := by omega
    have hget := hfilled _ hi
    rw [List.getElem?_eq_none (le_refl _)] at hget
    cases hget
  refine ⟨_, _, _, hsend, by omega, ⟨⟨?_, ?_, ?_, ?_, h.isOpen⟩, h.pos⟩, rfl⟩
  · show p.1.bytesSent + answer p.1.sends len = (sentBefore answer file.length (p.1.sends + 1) : Nat)
    rw [h.sent, hnext, hcast]
    omega
  · show p.1.bytesLeft - answer p.1.sends len =
      (file.length : Int) - (sentBefore answer file.length (p.1.sends + 1) : Nat)
    rw [h.left, hnext, hcast]
    omega
  · show (p.2 ++ p.1.buffer.take r).length = sentBefore answer file.length (p.1.sends + 1)
    rw [List.length_append, hdata, h.length, hnext]
  · apply h.out.append hans h.length
    · rw [hdata, ← hlen, ← hr]
    · intro i hi
      rw [hdata] at hi
      rw [List.getElem?_take_of_lt hi]
      exact hfilled i (by omega)

/-- What `fread` puts into the buffer, and what it leaves there. -/
theorem fread_getElem? (s : Server) {size i : Nat} (hi : i < size) (hlt : s.pos + i < file.length) :
    (s.fread file size).buffer[i]? = some (file.getD (s.pos + i) 0) := by
  show ((file.drop s.pos).take size ++ _)[i]? = _
  have hlen : i < ((file.drop s.pos).take size).length := by
    rw [List.length_take, List.length_drop]
    omega
  rw [List.getElem?_append_left hlen, List.getElem?_take_of_lt hi, List.getElem?_drop,
    List.getElem?_eq_getElem hlt, List.getD_eq_getElem _ _ hlt]

theorem fread_getElem?_rest (s : Server) {size i : Nat} (hle : file.length ≤ s.pos + i) :
    (s.fread file size).buffer[i]? = s.buffer[i]? := by
  show ((file.drop s.pos).take size ++ s.buffer.drop ((file.drop s.pos).take size).length)[i]? = _
  have hlen : ((file.drop s.pos).take size).length ≤ i := by
    rw [List.length_take, List.length_drop]
    omega
  rw [List.getElem?_append_right hlen, List.getElem?_drop, Nat.add_sub_cancel' hlen]

theorem fread_pos (s : Server) (size : Nat) :
    (s.fread file size).pos = s.pos + min size (file.length - s.pos) := by
  show s.pos + ((file.drop s.pos).take size).length = _
  rw [List.length_take, List.length_drop]

/-- The buffer is cleared and filled. -/
theorem AtHead.fread (hans : TakesSome answer) {p : Server × Bytes} (h : AtHead file answer p) :
    Loaded file answer (Server.fread file { p.1 with buffer := List.replicate bufSize 0 }
      p.1.chunk.toNat, p.2) := by
  have hchunk : p.1.chunk.toNat = request file.length (sentBefore answer file.length p.1.sends) := by
    rw [h.toCounted.chunk hans, Int.toNat_natCast]
  have hpos := h.pos
  obtain ⟨s, hs⟩ : ∃ s : Server, s = { p.1 with buffer := List.replicate bufSize 0 } := ⟨_, rfl⟩
  have hspos : s.pos = p.1.pos := by rw [hs]
  have hsends : s.sends = p.1.sends := by rw [hs]
  rw [hchunk, ← hs]
  refine ⟨⟨?_, ?_, ?_, h.out, ?_⟩, ?_, ?_⟩
  · rw [hs]
    exact h.sent
  · rw [hs]
    exact h.left
  · rw [hs]
    exact h.length
  · rw [hs]
    exact h.isOpen
  · rw [fread_pos, hspos]
    show _ = min (readBefore answer file.length (s.sends + 1)) _
    rw [hsends, readBefore]
    omega
  · intro i hi
    have hi : i < request file.length (sentBefore answer file.length p.1.sends) := by
      rw [← hsends]
      exact hi
    show (s.fread file _).buffer[i]? = some (file.getD (readBefore answer file.length s.sends + i) 0)
    rw [hsends]
    by_cases hlt : s.pos + i < file.length
    · have hread : s.pos = readBefore answer file.length p.1.sends := by omega
      rw [fread_getElem? _ hi hlt, hread]
    · -- behind the end of the file
      have hbuf := lt_trans hi (request_lt _ _)
      have hend : file.length ≤ readBefore answer file.length p.1.sends + i := by omega
      rw [fread_getElem?_rest _ (Nat.not_lt.mp hlt), List.getD_eq_default _ _ hend, hs,
        List.getElem?_replicate, if_pos hbuf]

/-- A round sends on. -/
theorem AtHead.round (hlt : file.length < 2 ^ 31) (hans : TakesSome answer) {p : Server × Bytes}
    (h : AtHead file answer p) (hmore : p.2.length < file.length) :
    ∃ p', round file answer p = .inl p' ∧ AtHead file answer p' ∧ p.2.length < p'.2.length := by
  rcases p with ⟨s, out⟩
  rcases (h.fread hans).send hans with ⟨s', data, tempnum, hsend, hok, hhead, hsends⟩
  have hlen := h.length
  have htest : s.bytesSent < totalBytes file := by
    have hsent := h.sent
    rw [totalBytes_eq hlt]
    simp only [] at hsent hlen hmore
    omega
  have hround : Transfer.round file answer (s, out) = .inl (s'.count tempnum, out ++ data) :=
    round_open htest h.isOpen hsend hok
  refine ⟨_, hround, hhead, ?_⟩
  have hnext := hhead.length
  have hgrows : sentBefore answer file.length s.sends < sentBefore answer file.length (s.sends + 1) := by
    apply sentBefore_lt hans
    simp only [] at hlen hmore
    omega
  have hcount : (s'.count tempnum).sends = s.sends + 1 := hsends
  simp only [hcount] at hnext hlen ⊢
  omega

/-- The loop is left with as many bytes sent as the file has. -/
theorem AtHead.exit (hlt : file.length < 2 ^ 31) (hans : TakesSome answer) {p : Server × Bytes}
    (h : AtHead file answer p) (hdone : ¬ p.2.length < file.length) :
    Transfer.round file answer p = .inr (p.2, some p.1) ∧ p.2.length = file.length := by
  have hle := sentBefore_le hans file.length p.1.sends
  have hlen := h.length
  have hsent := h.sent
  have htest : ¬ p.1.bytesSent < totalBytes file := by
    rw [totalBytes_eq hlt]
    omega
  exact ⟨round_over htest, by omega⟩

theorem start_loaded (hlt : file.length < 2 ^ 31) (junk : Bytes) :
    Loaded file answer (Server.start file junk, []) := by
  have hbuf : bufSize - 1 = 4095 := rfl
  refine ⟨⟨rfl, ?_, rfl, ?_, rfl⟩, ?_, ?_⟩
  · show totalBytes file = (file.length : Int) - (0 : Nat)
    rw [totalBytes_eq hlt]
    omega
  · intro j hj
    exact absurd hj (Nat.not_lt_zero j)
  · unfold Server.start
    rw [fread_pos]
    show 0 + min (bufSize - 1) (file.length - 0) = min (0 + request file.length 0) file.length
    unfold request
    omega
  · intro i hi
    have hreq : i < request file.length 0 := hi
    unfold request at hreq
    have hin : i < bufSize - 1 ∧ 0 + i < file.length := by omega
    exact fread_getElem? ⟨0, totalBytes file, junk, 0, true, 0⟩ hin.1 hin.2

/-- What a round leads to is known at its head again. -/
theorem AtHead.round_inv (hlt : file.length < 2 ^ 31) (hans : TakesSome answer)
    {p p' : Server × Bytes} (h : AtHead file answer p)
    (hround : Transfer.round file answer p = .inl p') :
    AtHead file answer p' ∧ file.length - p'.2.length < file.length - p.2.length := by
  by_cases hmore : p.2.length < file.length
  · rcases h.round hlt hans hmore with ⟨p₁, hp₁, hhead, hlonger⟩
    rw [hround] at hp₁
    cases hp₁
    exact ⟨hhead, by omega⟩
  · rw [(h.exit hlt hans hmore).1] at hround
    cases hround

/-- The loop ends, with as many bytes sent as the file has. -/
theorem loop_sources (hlt : file.length < 2 ^ 31) (hans : TakesSome answer) {p : Server × Bytes}
    (h : AtHead file answer p) {fuel : Nat} (hfuel : file.length < fuel) :
    ∃ out s, loop (round file answer) fuel p = some (out, some s) ∧ s.isOpen = true ∧
      Sources file answer out ∧ out.length = file.length := by
  have hexit : ∀ p t, AtHead file answer p → round file answer p = .inr t →
      ∃ out s, t = (out, some s) ∧ s.isOpen = true ∧ Sources file answer out ∧
        out.length = file.length := by
    intro p t hp heq
    by_cases hmore : p.2.length < file.length
    · rcases hp.round hlt hans hmore with ⟨p₁, hp₁, _⟩
      rw [heq] at hp₁
      cases hp₁
    · obtain ⟨hround, hlen⟩ := hp.exit hlt hans hmore
      rw [heq] at hround
      cases hround
      exact ⟨p.2, p.1, rfl, hp.isOpen, hp.out, hlen⟩
  have hround : ∀ p p', AtHead file answer p → round file answer p = .inl p' →
      AtHead file answer p' ∧ file.length - p'.2.length < file.length - p.2.length :=
    fun _ _ hp heq => hp.round_inv hlt hans heq
  rcases loop_ends (fun p => file.length - p.2.length) hround hexit h (by omega : _ < fuel) with
    ⟨t, ht, out, s, rfl, hopen, hsources, hlen⟩
  exact ⟨out, s, ht, hopen, hsources, hlen⟩

/-- What the first connection gets. -/
theorem turn_sources (hlt : file.length < 2 ^ 31) (hans : TakesSome answer) (junk : Bytes)
    {fuel : Nat} (hfuel : file.length < fuel) :
    ∃ out s, turn file answer fuel (Server.start file junk) = some (out, some s) ∧
      Sources file answer out ∧ out.length = file.length := by
  rcases (start_loaded hlt junk).send hans with ⟨s, data, tempnum, hsend, _, hhead, _⟩
  rcases loop_sources hlt hans hhead hfuel with ⟨out, s', hloop, hopen, hsources, hlen⟩
  refine ⟨out, { s' with isOpen := false }, ?_, hsources, hlen⟩
  rw [turn_of_send hsend hloop, Option.bind_some, Server.fclose, if_pos hopen]

/-! ## Files that an `int` cannot count -/

/-- No more bytes went out than were counted, and no more were counted than there are. -/
structure Bounded (file : Bytes) (p : Server × Bytes) : Prop where
  out : (p.2.length : Int) ≤ p.1.bytesSent
  sum : p.1.bytesSent + p.1.bytesLeft = totalBytes file
  left : 0 ≤ p.1.bytesLeft

/-- A `send` with a length that makes sense. -/
theorem send_bounded (hans : TakesSome answer) {s s' : Server} {data : Bytes} {tempnum : Int}
    (h : s.send answer = some (s', data, tempnum)) :
    s'.bytesSent = s.bytesSent ∧ s'.bytesLeft = s.bytesLeft ∧ (data.length : Int) ≤ tempnum ∧
      tempnum ≤ s.bytesLeft := by
  have hbuf : bufSize = 4096 := rfl
  have hchunk : ∃ len : Nat, s.chunk = len := by
    apply Int.eq_ofNat_of_zero_le
    by_contra hneg
    unfold Server.send at h
    rw [if_pos (by omega)] at h
    cases h
  rcases hchunk with ⟨len, hlen⟩
  have hle : (len : Int) ≤ s.bytesLeft ∧ len < bufSize := by
    unfold Server.chunk at hlen
    split at hlen <;> omega
  rw [send_some hans hlen hle.2] at h
  cases h
  have hnonneg := hans.nonneg s.sends len
  have htaken := hans.le s.sends len
  refine ⟨rfl, rfl, ?_, by omega⟩
  rw [List.length_take]
  omega

theorem Bounded.send (hans : TakesSome answer) {s s' : Server} {out data : Bytes} {tempnum : Int}
    (hout : (out.length : Int) ≤ s.bytesSent) (hsum : s.bytesSent + s.bytesLeft = totalBytes file)
    (h : s.send answer = some (s', data, tempnum)) :
    Bounded file (s'.count tempnum, out ++ data) := by
  obtain ⟨hsent, hleft, hdata, htaken⟩ := send_bounded hans h
  refine ⟨?_, ?_, ?_⟩
  · show ((out ++ data).length : Int) ≤ s'.bytesSent + tempnum
    rw [List.length_append, hsent]
    omega
  · show s'.bytesSent + tempnum + (s'.bytesLeft - tempnum) = totalBytes file
    omega
  · show 0 ≤ s'.bytesLeft - tempnum
    omega

/-- The ways out of a round, and the way on. -/
theorem round_cases (s : Server) (out : Bytes) :
    (∃ s', round file answer (s, out) = .inr (out, s')) ∨
      ∃ s' data tempnum, s.sendNext file answer = some (s', data, tempnum) ∧
        ((tempnum = -1 ∧ round file answer (s, out) = .inr (out ++ data, some s')) ∨
          round file answer (s, out) = .inl (s'.count tempnum, out ++ data)) := by
  unfold round
  simp only []
  by_cases htest : s.bytesSent < totalBytes file
  · by_cases hopen : s.isOpen = true
    · simp only [htest, hopen, not_true_eq_false, if_false]
      cases hsend : s.sendNext file answer with
      | none => exact Or.inl ⟨none, rfl⟩
      | some r =>
        rcases r with ⟨s', data, tempnum⟩
        refine Or.inr ⟨s', data, tempnum, rfl, ?_⟩
        by_cases hfailed : tempnum = -1
        · exact Or.inl ⟨hfailed, if_pos hfailed⟩
        · exact Or.inr (if_neg hfailed)
    · rw [if_neg (not_not_intro htest), if_pos hopen]
      exact Or.inl ⟨none, rfl⟩
  · rw [if_pos htest]
    exact Or.inl ⟨some s, rfl⟩

theorem Bounded.out_le {p : Server × Bytes} (h : Bounded file p) :
    (p.2.length : Int) ≤ totalBytes file := by
  have hout := h.out
  have hsum := h.sum
  have hleft := h.left
  omega

theorem totalBytes_lt (h : ¬ file.length < 2 ^ 31) : totalBytes file < file.length := by
  unfold totalBytes toInt32
  omega

/-- A turn in which something goes out has come through its first `send`. -/
theorem turn_eq_some {s : Server} {fuel : Nat} {out : Bytes} {s' : Option Server}
    (h : turn file answer fuel s = some (out, s')) (hne : [] ≠ out) :
    ∃ s₁ data tempnum t, s.send answer = some (s₁, data, tempnum) ∧
      loop (round file answer) fuel (s₁.count tempnum, data) = some t ∧ t.1 = out := by
  unfold turn at h
  split at h
  · rw [Option.some.injEq, Prod.mk.injEq] at h
    exact absurd h.1 hne
  · rename_i s₁ data tempnum hsend
    rcases Option.map_eq_some_iff.mp h with ⟨t, ht, heq⟩
    exact ⟨s₁, data, tempnum, t, hsend, ht, congrArg Prod.fst heq⟩

/-- From the first `send` on no more goes out than `total_bytes`. -/
theorem loop_out_le (hans : TakesSome answer) {p : Server × Bytes} (hp : Bounded file p) {t : Turn}
    (h : Returns (round file answer) p t) : (t.1.length : Int) ≤ totalBytes file := by
  have hround : ∀ p p', Bounded file p → round file answer p = .inl p' → Bounded file p' := by
    rintro ⟨s, out⟩ p' hp hround
    rcases round_cases s out with ⟨_, hout⟩ |
      ⟨_, _, _, hsend', ⟨_, hout⟩ | hnext⟩
    · rw [hout] at hround
      cases hround
    · rw [hout] at hround
      cases hround
    · rw [hnext] at hround
      cases hround
      unfold Server.sendNext at hsend'
      apply Bounded.send hans _ _ hsend'
      · exact hp.out
      · exact hp.sum
  have hexit : ∀ p t, Bounded file p → round file answer p = .inr t →
      (t.1.length : Int) ≤ totalBytes file := by
    rintro ⟨s, out⟩ t hp hround
    rcases round_cases s out with ⟨_, hout⟩ |
      ⟨_, _, _, hsend', ⟨hfailed, _⟩ | hnext⟩
    · rw [hout] at hround
      cases hround
      exact hp.out_le
    · -- `send` does not fail here
      have hdata := (send_bounded hans hsend').2.2.1
      omega
    · rw [hnext] at hround
      cases hround
  exact Returns.post hround hexit hp h

/-- The file does not go out if its size does not fit `total_bytes`. -/
theorem turn_too_long (hans : TakesSome answer) (hlong : ¬ file.length < 2 ^ 31) {fuel : Nat}
    {s : Option Server} : turn file answer fuel (Server.start file junk) ≠ some (file, s) := by
  intro hturn
  have hne : [] ≠ file := by
    intro heq
    rw [← heq, List.length_nil] at hlong
    omega
  rcases turn_eq_some hturn hne with ⟨s', data, tempnum, t, hsend, ht, hfile⟩
  have hfirst : Bounded file (s'.count tempnum, [] ++ data) := by
    apply Bounded.send hans _ _ hsend
    · show ((0 : Nat) : Int) ≤ 0
      omega
    · show (0 : Int) + totalBytes file = totalBytes file
      omega
  rw [List.nil_append] at hfirst
  have hle := loop_out_le hans hfirst ⟨fuel, ht⟩
  have hlt := totalBytes_lt hlong
  rw [hfile] at hle
  omega

/-! ## Partial sends -/

/-- On the first connection exactly the file goes out, and whenever the loop tests its condition
the counters add up to the size of the file. -/
structure CopesWithPartialSends (file junk : Bytes) (answer : Nat → Nat → Int) : Prop where
  sent : ∃ fuel s, turn file answer fuel (Server.start file junk) = some (file, some s)
  balance : ∀ s data tempnum, (Server.start file junk).send answer = some (s, data, tempnum) →
    ∀ p, Visits (round file answer) (s.count tempnum, data) p →
      p.1.bytesSent + p.1.bytesLeft = totalBytes file

/-- The counters add up, whatever goes out. -/
theorem balance (hlt : file.length < 2 ^ 31) (hans : TakesSome answer) {s : Server} {data : Bytes}
    {tempnum : Int} (hsend : (Server.start file junk).send answer = some (s, data, tempnum))
    {p : Server × Bytes} (h : Visits (round file answer) (s.count tempnum, data) p) :
    p.1.bytesSent + p.1.bytesLeft = totalBytes file := by
  rcases (start_loaded hlt junk).send hans with ⟨s', data', tempnum', hsend', _, hhead, _⟩
  rw [hsend] at hsend'
  cases hsend'
  have hp := h.inv (fun _ _ hp hround => (hp.round_inv hlt hans hround).1) hhead
  rw [hp.sent, hp.left, totalBytes_eq hlt]
  omega

/-- **Partial sends.** The first connection gets the file exactly if an `int` can count its bytes,
and only zeros are left of it whenever a `send` takes less than it is given. -/
theorem partial_sends_iff (file junk : Bytes) (answer : Nat → Nat → Int) (hans : TakesSome answer) :
    CopesWithPartialSends file junk answer ↔ file.length < 2 ^ 31 ∧
      ∀ k, Short answer file.length k →
        ∀ b ∈ file.drop (sentBefore answer file.length (k + 1)), b = 0 := by
  constructor
  · rintro ⟨⟨fuel, s, hturn⟩, _⟩
    have hlt : file.length < 2 ^ 31 := by
      by_contra hlong
      exact turn_too_long hans hlong hturn
    rcases turn_sources hlt hans junk (Nat.lt_succ_self _) with ⟨out, s', hturn', hsources, hlen⟩
    have hm := turn_mono hturn (Nat.le_max_left fuel (file.length + 1))
    have hm' := turn_mono hturn' (Nat.le_max_right fuel (file.length + 1))
    rw [hm] at hm'
    cases hm'
    exact ⟨hlt, (hsources.eq_file_iff hlen).mp rfl⟩
  · rintro ⟨hlt, hzeros⟩
    rcases turn_sources hlt hans junk (Nat.lt_succ_self _) with ⟨out, s, hturn, hsources, hlen⟩
    have hall := (hsources.eq_file_iff hlen).mpr hzeros
    rw [hall] at hturn
    exact ⟨⟨_, s, hturn⟩, fun _ _ _ hsend _ hp => balance hlt hans hsend hp⟩

/-- A `send` that takes one byte the first time it is called. -/
def firstByte : Nat → Nat → Int
  | 0, len => min len 1
  | _ + 1, len => len

theorem firstByte_takesSome : TakesSome firstByte := by
  refine ⟨?_, ?_, ?_⟩
  · intro k len hlen
    cases k with
    | zero =>
      show (1 : Int) ≤ min (len : Int) 1
      omega
    | succ k =>
      show (1 : Int) ≤ (len : Int)
      omega
  · intro k len
    cases k with
    | zero =>
      show (0 : Int) ≤ min (len : Int) 1
      omega
    | succ k =>
      show (0 : Int) ≤ (len : Int)
      omega
  · intro k len
    cases k with
    | zero =>
      show min (len : Int) 1 ≤ (len : Int)
      omega
    | succ k =>
      show (len : Int) ≤ (len : Int)
      omega

/-- A letter and two zeros are sent, whatever `send` takes. -/
theorem partial_sends_zeros : CopesWithPartialSends [97, 0, 0] [] firstByte := by
  refine (partial_sends_iff [97, 0, 0] [] firstByte firstByte_takesSome).mpr ⟨by decide, ?_⟩
  intro k _ b hb
  have hmono := sentBefore_mono firstByte 3 (show 1 ≤ k + 1 by omega)
  have hone : sentBefore firstByte 3 1 = 1 := by decide
  have hdrop := List.drop_subset_drop_left [97, 0, 0] (show 1 ≤ sentBefore firstByte 3 (k + 1) by omega) hb
  simpa using hdrop

/-- Three letters: after the first one, zeros go out in the place of the others. -/
theorem partial_sends_padded :
    ¬ ∀ (file junk : Bytes) (answer : Nat → Nat → Int), TakesSome answer →
      CopesWithPartialSends file junk answer := by
  intro h
  have hcopes := h (ascii "abc") [] firstByte firstByte_takesSome
  have hzeros := ((partial_sends_iff _ _ _ firstByte_takesSome).mp hcopes).2 0 (by
    unfold Short
    decide)
  exact absurd hzeros (by decide)

end IntroOS.Transfer
