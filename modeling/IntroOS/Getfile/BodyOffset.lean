import IntroOS.Base.Scan
import IntroOS.Getfile.ClientVerdict
import Mathlib.Data.List.ReduceOption

/-! # Where `gfc_perform` takes the content to begin

In the OK branch the offset of the content is the sum of the lengths of the three tokens, and of
what is between and behind them if no separator stands there twice. `strtok` skips separators, and
takes `\r` and `\n` for separators one by one, so the sum need not be where the header ends.

1. **Reads** of `recvbuf` in the OK branch (`okReads`), which make up the chunks of `performOk`;
2. **Property** (`OffsetRight`);
3. **Condition**: the usual response (`Plain`), or a terminator in front of the length (`Early`)
   and as many separators as make up for it.

`beyond` is the memory behind `recvbuf`, where `strcpy` goes on if there is no NUL before.
-/

namespace IntroOS.Getfile

/-! ## Reads -/

/-- A read of `len` bytes of `recvbuf`, when the last `recv` stored `received`. -/
structure BufRead where
  start : Nat
  len : Nat
  received : Nat
deriving DecidableEq, Repr

/-- The `writefunc`s of `recvLoop`. -/
def loopReads (filelen : Nat) : List (Option Bytes) → Nat → Nat → List BufRead
  | recvs, numbytes, received =>
    if 0 < numbytes ∧ received < filelen then
      match recvs with
      | [] => [⟨0, 0, 0⟩]
      | none :: _ => []
      | some r :: rest =>
        ⟨0, r.length, r.length⟩ :: loopReads filelen rest r.length ((received + r.length) % 2 ^ 64)
    else []

/-- `bytesreceived` behind the header, a `size_t`. -/
def bytesBehind (r a b c : Bytes) : Nat := (r.length + 2 ^ 64 - bodyOffset a b c) % 2 ^ 64

/-- The reads of `performOk`: the `memcpy` of a short file, or the `writefunc`s of a long one. -/
def okReads (r : Bytes) (rest : List (Option Bytes)) (a b c : Bytes) : List BufRead :=
  let received := bytesBehind r a b c
  if strtoul c < bufSize then
    if received < strtoul c then [] else [⟨bodyOffset a b c, strtoul c, r.length⟩]
  else ⟨bodyOffset a b c, received, r.length⟩ :: loopReads (strtoul c) rest r.length received

/-! ### The reads and the chunks for `writefunc` -/

theorem reduceOption_map_some (l : Bytes) : (l.map some).reduceOption = l := by
  unfold List.reduceOption
  rw [List.filterMap_map]
  exact List.filterMap_some

/-- How many bytes of a chunk were stored. -/
def stored (call : List Cell) : Nat := call.reduceOption.length

theorem stored_map_some (l : Bytes) : stored (l.map some) = l.length := by
  unfold stored
  rw [reduceOption_map_some]

theorem stored_append_none (call : List Cell) (n : Nat) :
    stored (call ++ List.replicate n none) = stored call := by
  unfold stored
  rw [List.reduceOption_append, List.reduceOption_replicate_none, List.append_nil]

theorem recvLoop_reads (filelen : Nat) (recvs : List (Option Bytes)) (numbytes received : Nat) :
    (recvLoop filelen recvs numbytes received).2.1.map stored =
      (loopReads filelen recvs numbytes received).map BufRead.len := by
  induction recvs generalizing numbytes received with
  | nil =>
    unfold recvLoop loopReads
    split <;> rfl
  | cons recv rest ih =>
    unfold recvLoop loopReads
    split
    · cases recv with
      | none => rfl
      | some q =>
        have htail := ih q.length ((received + q.length) % 2 ^ 64)
        dsimp only
        rw [List.map_cons, List.map_cons, htail, stored_map_some]
    · rfl

theorem length_take_recvbuf {r : Bytes} {off n : Nat} (hr : r.length ≤ bufSize)
    (h : off + n ≤ bufSize) : (((recvbuf r).drop off).take n).length = n := by
  have hlen : (recvbuf r).length = bufSize := by
    unfold recvbuf
    rw [List.length_append, List.length_replicate]
    omega
  rw [List.length_take, List.length_drop, hlen]
  omega

/-- Where `performOk` is defined, its chunks for `writefunc` have as many bytes in them as
`okReads` reads. -/
theorem performOk_reads {gfr gfr' : GfcRequest} {r a b c : Bytes} {rest : List (Option Bytes)}
    {calls : List (List Cell)} {ret : Int} (hr : r.length ≤ bufSize)
    (h : performOk gfr r rest a b c = some (gfr', calls, ret)) :
    calls.map stored = (okReads r rest a b c).map BufRead.len := by
  have hloop := recvLoop_reads (strtoul c) rest r.length (bytesBehind r a b c)
  unfold performOk at h
  unfold okReads
  dsimp only at h ⊢
  rw [← bytesBehind] at h
  by_cases hsmall : strtoul c < bufSize
  · rw [if_pos hsmall] at h ⊢
    by_cases hshort : bytesBehind r a b c < strtoul c
    · rw [if_pos hshort] at h ⊢
      cases h
      rfl
    · rw [if_neg hshort] at h ⊢
      by_cases hout : bufSize < bytesBehind r a b c ∨ bufSize < bodyOffset a b c + strtoul c
      · rw [if_pos hout] at h
        cases h
      · rw [if_neg hout] at h
        cases h
        have hin : bodyOffset a b c + strtoul c ≤ bufSize := by omega
        have hwhole := length_take_recvbuf hr hin
        rw [List.map_singleton, List.map_singleton, stored_append_none, stored_map_some, hwhole]
  · rw [if_neg hsmall] at h ⊢
    by_cases hout : bufSize < bodyOffset a b c + bytesBehind r a b c
    · rw [if_pos hout] at h
      cases h
    · rw [if_neg hout] at h
      have hwhole := length_take_recvbuf hr (Nat.le_of_not_lt hout)
      rw [List.map_cons, ← hloop]
      generalize recvLoop (strtoul c) rest r.length (bytesBehind r a b c) = p at h ⊢
      rcases p with ⟨n, further, failed⟩
      dsimp only at h ⊢
      -- the verdict does not change what was passed on
      have hcalls : calls = (((recvbuf r).drop (bodyOffset a b c)).take
          (bytesBehind r a b c)).map some :: further := by
        split at h
        · cases h; rfl
        · split at h <;> cases h <;> rfl
      rw [hcalls, List.map_cons, stored_map_some, hwhole]

/-! ## Property -/

/-- What `recv` stores first. -/
structure FirstRecv where
  bytes : Bytes
  le : bytes.length ≤ bufSize

/-- What `strcpy(not_buf, recvbuf)` copies. -/
def copied (r beyond : Bytes) : Bytes := text (recvbuf r ++ beyond)

/-- The tokens lead to the OK branch. -/
def LeadsToOk (s a b c : Bytes) : Prop := splitHeader s = .three a b c ∧ OtherStatus b

/-- The offset is right for the tokens `a`, `b`, `c`. -/
structure Aligned (r : Bytes) (rest : List (Option Bytes)) (a b c : Bytes) : Prop where
  terminated : Readable r
  offset : EndsFirst terminator r (bodyOffset a b c)
  le : bodyOffset a b c ≤ r.length
  no_underflow : bytesBehind r a b c = r.length - bodyOffset a b c
  inside : ∀ w ∈ okReads r rest a b c, w.start + w.len ≤ w.received

/-- If the OK branch is reached, the offset is right. -/
def OffsetRight (r beyond : Bytes) (rest : List (Option Bytes)) : Prop :=
  ∀ a b c, LeadsToOk (copied r beyond) a b c → Aligned r rest a b c

/-! ## Condition -/

/-- One separator in each place, the terminator behind the length, and none before. -/
def Plain (s a b c : Bytes) : Prop :=
  ¬ terminator <:+: a ∧ ¬ terminator <:+: b ∧
    ∃ tail, s = a ++ 32 :: (b ++ 32 :: (c ++ (terminator ++ tail)))

/-- What is in front of the length, with all its separators. -/
def front (p a q b t : Bytes) : Bytes := p ++ (a ++ 32 :: (q ++ (b ++ 32 :: t)))

/-- There is a terminator in front of the length already: the first one ends `head`, and `gap` is
between it and the length. There are as many separators, besides one behind `a` and one behind `b`,
as bytes in the length, in `gap` and in a terminator. -/
def Early (s a b c : Bytes) : Prop :=
  ∃ p q t tail head gap, Seps isSp p ∧ Seps isSp q ∧ Seps isCrLf t ∧
    s = front p a q b t ++ (c ++ tail) ∧
    front p a q b t = head ++ gap ∧ EndsFirst terminator head head.length ∧
    p.length + q.length + t.length = c.length + 4 + gap.length

/-- The received bytes hold a NUL or leave room for one, and the header is in one of the two
forms. -/
def HeaderInForm (r beyond : Bytes) : Prop :=
  ∀ a b c, LeadsToOk (copied r beyond) a b c →
    Readable r ∧ (Plain (text r) a b c ∨ Early (text r) a b c)

/-- The separators behind `OK` hold a terminator and one more: five, for a length of one byte. -/
example : Early (ascii "GETFILE OK \n\r\n\r\n5") (ascii "GETFILE") (ascii "OK") (ascii "5") :=
  ⟨[], [], ascii "\n\r\n\r\n", [], ascii "GETFILE OK \n\r\n\r\n", [], by decide, by decide,
    by decide, by decide, by decide, ⟨by decide, by decide⟩, by decide⟩

/-! ## The bytes -/

theorem terminator_eq : terminator = [13, 10, 13, 10] := by decide

theorem bodyOffset_eq (a b c : Bytes) :
    bodyOffset a b c = a.length + b.length + c.length + 6 := by
  have hterm : (ascii "\r\n\r\n").length = 4 := by decide
  unfold bodyOffset
  omega

theorem copied_eq {r : Bytes} (h : Readable r) (beyond : Bytes) : copied r beyond = text r := by
  have hstring := cString_recvbuf h
  by_cases hmem : 0 ∈ recvbuf r
  · rw [cString_of_mem hmem] at hstring
    unfold copied
    rw [text_append_of_mem hmem, Option.some.inj hstring]
  · rw [cString_eq_none.mpr hmem] at hstring
    cases hstring

/-- The received bytes are the text, and a NUL and more if that is not all. -/
theorem text_then_nul (r : Bytes) : ∃ more, r = text r ++ more ∧ ∀ x ∈ more.head?, x = 0 := by
  by_cases hmem : 0 ∈ r
  · rcases text_split hmem with ⟨rest, hrest⟩
    refine ⟨0 :: rest, hrest, ?_⟩
    intro x hx
    cases hx
    rfl
  · refine ⟨[], ?_, ?_⟩
    · rw [text_of_nul_free hmem, List.append_nil]
    · intro x hx
      cases hx

/-- A token without CR and LF is in front of no part of a terminator but its own. -/
theorem not_infix_length {c : Bytes} (hc : Clean isCrLf c) (hne : c ≠ []) :
    ¬ terminator <:+: c ++ terminator.dropLast := by
  have hlast : c = c.dropLast ++ [c.getLast hne] := (List.dropLast_append_getLast hne).symm
  have hclean : ∀ x ∈ c, x ∉ terminator := by
    intro x hx hmem
    have hall : ∀ x ∈ terminator, isCrLf x = true := forall_of_all (by decide)
    have hno := hc x hx
    rw [hall x hmem] at hno
    cases hno
  intro h
  rw [hlast, List.append_assoc, List.singleton_append] at h
  rcases infix_append_cons (hclean _ (List.getLast_mem hne)) h with h | h
  · have hmem : (13 : UInt8) ∈ c := (List.dropLast_subset c) (h.subset (by decide))
    exact hclean 13 hmem (by decide)
  · have hlen := h.length_le
    exact absurd hlen (by decide)

/-! ## The two directions -/

section Offset

variable {r a b c tail : Bytes}

/-- In the usual form the terminator ends at the sum. -/
theorem Plain.endsFirst (h : Plain (text r) a b c) (hc : Clean isCrLf c) (hne : c ≠ []) :
    EndsFirst terminator r (bodyOffset a b c) := by
  rcases h with ⟨ha, hb, tail, htext⟩
  rcases text_then_nul r with ⟨more, hr, _⟩
  have hspace : (32 : UInt8) ∉ terminator := by decide
  have hno : ¬ terminator <:+: (a ++ 32 :: (b ++ 32 :: c)) ++ terminator.dropLast := by
    intro h
    rw [List.append_assoc, List.cons_append, List.append_assoc, List.cons_append] at h
    rcases infix_append_cons hspace h with h | h
    · exact ha h
    rcases infix_append_cons hspace h with h | h
    · exact hb h
    · exact not_infix_length hc hne h
  have hfirst := endsFirst_of_not_infix hno (by decide) (tail ++ more)
  have hbytes : r = (a ++ 32 :: (b ++ 32 :: c)) ++ (terminator ++ (tail ++ more)) := by
    rw [hr, htext]
    simp only [List.append_assoc, List.cons_append]
  have hoffset : (a ++ 32 :: (b ++ 32 :: c)).length + terminator.length = bodyOffset a b c := by
    have hterm : terminator.length = 4 := by decide
    rw [bodyOffset_eq]
    simp only [List.length_append, List.length_cons]
    omega
  rw [← hbytes, hoffset] at hfirst
  exact hfirst

theorem length_front (p a q b t : Bytes) : (front p a q b t).length =
    p.length + q.length + t.length + (a.length + b.length + 2) := by
  unfold front
  simp only [List.length_append, List.length_cons]
  omega

theorem Early.endsFirst (h : Early (text r) a b c) :
    EndsFirst terminator r (bodyOffset a b c) := by
  rcases h with ⟨p, q, t, tail, head, gap, _, _, _, htext, hfront, hfirst, hcount⟩
  rcases text_then_nul r with ⟨more, hr, _⟩
  have hbytes : r = head ++ (gap ++ (c ++ tail ++ more)) := by
    rw [← List.append_assoc, ← hfront, hr, htext, List.append_assoc]
  -- the separators make up for what is behind the terminator
  have hoffset : head.length = bodyOffset a b c := by
    have hlen := length_front p a q b t
    rw [hfront, List.length_append] at hlen
    rw [bodyOffset_eq]
    omega
  rw [hbytes, ← hoffset]
  exact hfirst.append _

/-- The byte at an index of the terminator that ends at `n`. -/
theorem terminator_byte {n i : Nat} (h : EndsFirst terminator r n) (hi : i < 4) :
    4 ≤ n ∧ ∃ x, r[n - 4 + i]? = some x ∧ isCrLf x = true := by
  rcases h.here with ⟨u, hu⟩
  have hterm : terminator.length = 4 := by decide
  have hlen := congrArg List.length hu
  rw [List.length_append, List.length_take_of_le h.le, hterm] at hlen
  have hget : r[n - 4 + i]? = terminator[i]? := by
    have htake : r[n - 4 + i]? = (r.take n)[n - 4 + i]? := by
      rw [List.getElem?_take_of_lt (by omega)]
    rw [htake, ← hu, List.getElem?_append_right (by omega)]
    congr 1
    omega
  have hlt : i < terminator.length := by omega
  have hall : ∀ x ∈ terminator, isCrLf x = true := forall_of_all (by decide)
  refine ⟨by omega, terminator[i], ?_, hall _ (List.getElem_mem hlt)⟩
  rw [hget, List.getElem?_eq_getElem hlt]

/-- Behind the length there is only one place for the terminator, and then no separator stands
twice. -/
theorem behind_length {p q t : Bytes} (hfirst : EndsFirst terminator r (bodyOffset a b c))
    (hr : ∃ v, r = front p a q b t ++ (c ++ v)) (hc : Clean isCrLf c) (hne : c ≠ [])
    (hlt : (front p a q b t).length < bodyOffset a b c) :
    p = [] ∧ q = [] ∧ t = [] := by
  rcases hr with ⟨v, hr⟩
  have hpos := List.length_pos_iff.mpr hne
  have hlen := length_front p a q b t
  have hoffset := bodyOffset_eq a b c
  -- no byte of the terminator is one of the length
  have hout : ∀ i < 4, ¬ ((front p a q b t).length ≤ bodyOffset a b c - 4 + i ∧
      bodyOffset a b c - 4 + i < (front p a q b t).length + c.length) := by
    rintro i hi ⟨hge, hin⟩
    rcases terminator_byte hfirst hi with ⟨_, x, hx, hsep⟩
    rw [hr, List.getElem?_append_right hge, List.getElem?_append_left (by omega)] at hx
    have hno := hc x (List.mem_of_getElem? hx)
    rw [hno] at hsep
    cases hsep
  have h3 := hout 3 (by omega)
  have hend : (front p a q b t).length + c.length ≤ bodyOffset a b c - 4 := by
    by_contra hbefore
    have hlast := hout (((front p a q b t).length + c.length - 1) - (bodyOffset a b c - 4))
    omega
  refine ⟨List.length_eq_zero_iff.mp ?_, List.length_eq_zero_iff.mp ?_,
    List.length_eq_zero_iff.mp ?_⟩ <;> omega

theorem terminator_behind {n : Nat} {u v : Bytes} (hfirst : EndsFirst terminator r n)
    (hr : r = u ++ v) (hn : u.length + 4 = n) : terminator <+: v := by
  have hterm : terminator.length = 4 := by decide
  have hle := hfirst.le
  rw [hr, List.length_append] at hle
  have htake : r.take n = u ++ v.take 4 := by
    rw [hr, ← hn, List.take_append, List.take_of_length_le (Nat.le_add_right _ 4),
      Nat.add_sub_cancel_left]
  have hhere := hfirst.here
  rw [htake] at hhere
  have hlen : (v.take 4).length = 4 := List.length_take_of_le (by omega)
  have hsuffix := List.suffix_of_suffix_length_le hhere (List.suffix_append u (v.take 4))
    (by omega)
  rw [hsuffix.eq_of_length (by omega)]
  exact List.take_prefix 4 v

/-- A terminator has no NUL, so it is in the text. -/
theorem prefix_of_nul {more : Bytes} (h : terminator <+: tail ++ more)
    (hmore : ∀ x ∈ more.head?, x = 0) : terminator <+: tail := by
  rcases h with ⟨v, hv⟩
  rcases List.append_eq_append_iff.mp hv with ⟨u, htail, _⟩ | ⟨u, hterm, hmore'⟩
  · exact ⟨u, htail.symm⟩
  · cases u with
    | nil =>
      rw [hterm, List.append_nil]
    | cons x u =>
      have hx : x = 0 := hmore x (by rw [hmore']; rfl)
      have hmem : (0 : UInt8) ∈ terminator := by
        rw [hterm, hx]
        exact List.mem_append_right _ List.mem_cons_self
      exact absurd hmem (by decide)

/-- Where no separator stands twice, a terminator that ends at the sum is the one behind the
length. -/
theorem plain_of_endsFirst {more : Bytes} (hfirst : EndsFirst terminator r (bodyOffset a b c))
    (htext : text r = a ++ 32 :: (b ++ 32 :: (c ++ tail))) (hr : r = text r ++ more)
    (hmore : ∀ x ∈ more.head?, x = 0) : Plain (text r) a b c := by
  have hbytes : r = a ++ 32 :: (b ++ 32 :: (c ++ (tail ++ more))) := by
    conv_lhs => rw [hr, htext]
    simp only [List.append_assoc, List.cons_append]
  refine ⟨?_, ?_, ?_⟩
  · -- a terminator in `a` would end before the sum
    have hsplit : r = [] ++ (a ++ 32 :: (b ++ 32 :: (c ++ (tail ++ more)))) := by
      rw [List.nil_append]
      exact hbytes
    rw [hsplit] at hfirst
    refine hfirst.not_infix ?_
    rw [bodyOffset_eq, List.length_nil]
    omega
  · -- so would one in `b`
    have hsplit : r = (a ++ [32]) ++ (b ++ 32 :: (c ++ (tail ++ more))) := by
      rw [hbytes]
      simp only [List.nil_append, List.append_assoc, List.cons_append]
    rw [hsplit] at hfirst
    refine hfirst.not_infix ?_
    rw [bodyOffset_eq, List.length_append, List.length_singleton]
    omega
  · have hplain : r = (a ++ 32 :: (b ++ 32 :: c)) ++ (tail ++ more) := by
      rw [hbytes]
      simp only [List.append_assoc, List.cons_append]
    have hlen : (a ++ 32 :: (b ++ 32 :: c)).length + 4 = bodyOffset a b c := by
      rw [bodyOffset_eq]
      simp only [List.length_append, List.length_cons]
      omega
    rcases prefix_of_nul (terminator_behind hfirst hplain hlen) hmore with ⟨rest, hrest⟩
    exact ⟨rest, by rw [htext, hrest]⟩

/-- If the terminator ends at the sum, the header is in one of the two forms. -/
theorem form_of_endsFirst (hfirst : EndsFirst terminator r (bodyOffset a b c))
    (h : Splits (text r) a b c tail) : Plain (text r) a b c ∨ Early (text r) a b c := by
  rcases h.shape with ⟨p, q, t, hp, hq, ht, hshape⟩
  rcases text_then_nul r with ⟨more, hr, hmore⟩
  have htext : text r = front p a q b t ++ (c ++ tail) := by
    rw [hshape]
    unfold front
    simp only [List.append_assoc, List.cons_append]
  have hbytes : r = front p a q b t ++ (c ++ (tail ++ more)) := by
    conv_lhs => rw [hr]
    rw [htext, List.append_assoc, List.append_assoc]
  by_cases hle : bodyOffset a b c ≤ (front p a q b t).length
  · -- in front of the length
    right
    rw [hbytes] at hfirst
    have hsplit := List.take_append_drop (bodyOffset a b c) (front p a q b t)
    have hhead : ((front p a q b t).take (bodyOffset a b c)).length = bodyOffset a b c :=
      List.length_take_of_le hle
    have hlen := length_front p a q b t
    have hoffset := bodyOffset_eq a b c
    refine ⟨p, q, t, tail, _, _, hp, hq, ht, htext, hsplit.symm, ?_, ?_⟩
    · have hhere := hfirst.of_append hle
      rw [← hsplit] at hhere
      rw [hhead]
      exact hhere.of_append (Nat.le_of_eq hhead.symm)
    · rw [List.length_drop]
      omega
  · -- behind it
    rcases behind_length hfirst ⟨_, hbytes⟩ h.third_clean h.third_ne (Nat.not_le.mp hle) with
      ⟨rfl, rfl, rfl⟩
    have hsingle : text r = a ++ 32 :: (b ++ 32 :: (c ++ tail)) := by
      rw [htext]
      unfold front
      simp only [List.nil_append, List.append_assoc, List.cons_append]
    exact Or.inl (plain_of_endsFirst hfirst hsingle hr hmore)

end Offset

/-! ## The offset -/

section Reads

variable {r a b c : Bytes}

theorem loopReads_inside (filelen : Nat) (recvs : List (Option Bytes)) (numbytes received : Nat) :
    ∀ w ∈ loopReads filelen recvs numbytes received, w.start + w.len ≤ w.received := by
  induction recvs generalizing numbytes received with
  | nil =>
    intro w hw
    unfold loopReads at hw
    split at hw
    · rw [List.mem_singleton.mp hw]
      exact Nat.le_refl 0
    · cases hw
  | cons recv rest ih =>
    intro w hw
    unfold loopReads at hw
    split at hw
    · cases recv with
      | none => cases hw
      | some r =>
        rcases List.mem_cons.mp hw with rfl | hw
        · exact Nat.le_of_eq (Nat.zero_add _)
        · exact ih _ _ w hw
    · cases hw

/-- The code compares `filelen` with what is behind the offset, so it reads no further. -/
theorem okReads_inside (rest : List (Option Bytes)) (hle : bodyOffset a b c ≤ r.length)
    (hbehind : bytesBehind r a b c = r.length - bodyOffset a b c) :
    ∀ w ∈ okReads r rest a b c, w.start + w.len ≤ w.received := by
  intro w hw
  unfold okReads at hw
  dsimp only at hw
  rw [hbehind] at hw
  split at hw
  · split at hw
    · cases hw
    · rw [List.mem_singleton.mp hw]
      dsimp only
      omega
  · rcases List.mem_cons.mp hw with rfl | hw
    · dsimp only
      omega
    · exact loopReads_inside _ _ _ _ w hw

theorem aligned_of_endsFirst (rest : List (Option Bytes)) (hr : r.length ≤ bufSize)
    (hread : Readable r) (h : EndsFirst terminator r (bodyOffset a b c)) :
    Aligned r rest a b c := by
  have hbehind : bytesBehind r a b c = r.length - bodyOffset a b c := size_sub_of_le h.le hr
  exact ⟨hread, h, h.le, hbehind, okReads_inside rest h.le hbehind⟩

end Reads

/-- **Body offset.** For every first `recv` result, the offset of the OK branch is where the header
ends exactly if the header is in one of the two forms. -/
theorem body_offset_iff (r : FirstRecv) (beyond : Bytes) (rest : List (Option Bytes)) :
    OffsetRight r.bytes beyond rest ↔ HeaderInForm r.bytes beyond := by
  constructor
  · intro h a b c hok
    have haligned := h a b c hok
    have hread := haligned.terminated
    have htokens := hok.1
    rw [copied_eq hread] at htokens
    rcases splitHeader_eq_three.mp htokens with ⟨tail, hsplits⟩
    exact ⟨hread, form_of_endsFirst haligned.offset hsplits⟩
  · intro h a b c hok
    rcases h a b c hok with ⟨hread, hform⟩
    refine aligned_of_endsFirst rest r.le hread ?_
    have htokens := hok.1
    rw [copied_eq hread] at htokens
    rcases splitHeader_eq_three.mp htokens with ⟨tail, hsplits⟩
    rcases hform with hplain | hearly
    · exact hplain.endsFirst hsplits.third_clean hsplits.third_ne
    · exact hearly.endsFirst

/-- The first `recv` result ends inside the terminator. -/
theorem body_offset_cut :
    ¬ ∀ (r : FirstRecv) (beyond : Bytes) (rest : List (Option Bytes)),
      OffsetRight r.bytes beyond rest := by
  intro h
  have hright := h ⟨ascii "GETFILE OK 5\r\n", by decide⟩ [] [some (ascii "\r\nhello")]
    (ascii "GETFILE") (ascii "OK") (ascii "5") ⟨by decide, by decide, by decide, by decide⟩
  exact absurd hright.le (by decide)

/-- An OK header of the documented grammar is in the usual form. -/
theorem okHeader_plain (ds : Bytes) (sp : Bool) (v : Bytes) :
    Plain (okHeader ds sp ++ v) (ascii "GETFILE") (ascii "OK") (ds ++ optSpace sp) := by
  refine ⟨by decide, by decide, v, ?_⟩
  rw [ascii_ok_header, terminator_eq]
  rfl

end IntroOS.Getfile
