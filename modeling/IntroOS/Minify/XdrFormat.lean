import IntroOS.Base.Framing
import IntroOS.Minify.MinifyViaRpc

/-! # The format of `image_in` and `image_out`

What the generated decoders take for the arguments and the results of a call. The bytes that fill up
an image to a multiple of four may be anything, and so may what follows the arguments: neither is
looked at.

1. **Decoders**: each is the decoder of a format (`frames_xdrUInt`, `frames_xdrInt`,
   `frames_xdrBytes`, `frames_xdrImageIn`);
2. **Requests and replies** (`xdr_format`).
-/

namespace IntroOS.Minify.ViaRpc

open Dispatch

/-! ## Formats -/

/-- The values of an `int`. -/
def IsInt (z : Int) : Prop := -2 ^ 31 ≤ z ∧ z < 2 ^ 31

/-- `data` as `opaque<>`: its length, its bytes, and bytes that fill them up. -/
structure IsOpaque (data s : Bytes) : Prop where
  narrow : data.length < 2 ^ 32
  bytes : ∃ pad : Bytes, pad.length = padding data.length ∧
    s = encodeUInt data.length ++ (data ++ pad)

/-- `arg` as `image_in`. -/
structure IsImageIn (arg : ImageIn) (s : Bytes) : Prop where
  srcLen : IsInt arg.srcLen
  dstLen : IsInt arg.dstLen
  bytes : ∃ src, IsOpaque arg.src src ∧ s = src ++ (encodeInt arg.srcLen ++ encodeInt arg.dstLen)

theorem IsOpaque.encode {data : Bytes} (h : data.length < 2 ^ 32) :
    IsOpaque data (encodeBytes data) :=
  ⟨h, List.replicate (padding data.length) 0, List.length_replicate, rfl⟩

/-! ## Decoders -/

theorem encodeUInt_xdrUInt (a b c d : UInt8) :
    encodeUInt (((a.toNat * 256 + b.toNat) * 256 + c.toNat) * 256 + d.toNat) = [a, b, c, d] := by
  have ha := a.toNat_lt
  have hb := b.toNat_lt
  have hc := c.toNat_lt
  have hd := d.toNat_lt
  have hbyte : ∀ (x : UInt8) (n : Nat), n % 256 = x.toNat → UInt8.ofNat n = x := by
    intro x n hn
    apply UInt8.toNat_inj.mp
    rw [UInt8.toNat_ofNat', hn]
  unfold encodeUInt
  rw [hbyte a _ (by omega), hbyte b _ (by omega), hbyte c _ (by omega), hbyte d _ (by omega)]

theorem frames_xdrUInt : Frames xdrUInt (fun n s => n < 2 ^ 32 ∧ s = encodeUInt n) := by
  constructor
  · intro s n rest hs
    unfold xdrUInt at hs
    split at hs
    · rename_i a b c d rest'
      cases hs
      refine ⟨[a, b, c, d], ⟨?_, (encodeUInt_xdrUInt a b c d).symm⟩, rfl⟩
      have ha := a.toNat_lt
      have hb := b.toNat_lt
      have hc := c.toNat_lt
      have hd := d.toNat_lt
      omega
    · cases hs
  · rintro n s rest ⟨hn, rfl⟩
    rw [xdrUInt_encode, Nat.mod_eq_of_lt hn]

theorem frames_xdrInt : Frames xdrInt (fun z s => IsInt z ∧ s = encodeInt z) := by
  refine (frames_xdrUInt.map fun n : Nat => toInt32 n).congr (fun _ => rfl) ?_
  intro z s
  constructor
  · rintro ⟨hz, rfl⟩
    unfold IsInt at hz
    refine ⟨(z % 2 ^ 32).toNat, ?_, ?_, rfl⟩
    · unfold toInt32
      omega
    · omega
  · rintro ⟨n, rfl, hn, rfl⟩
    unfold IsInt encodeInt toInt32
    refine ⟨by omega, congrArg encodeUInt ?_⟩
    omega

/-- `xdr_bytes`: the number says how many bytes are taken. -/
theorem frames_xdrBytes : Frames xdrBytes IsOpaque := by
  have hparts := frames_xdrUInt.bind fun len =>
    (frames_takeN (len + padding len)).map (List.take len : Bytes → Bytes)
  refine hparts.congr ?_ ?_
  · intro s
    unfold xdrBytes
    cases hlen : xdrUInt s with
    | none => rfl
    | some found =>
      obtain ⟨len, rest⟩ := found
      simp only [Option.bind_some, takeN]
      change (if len + padding len ≤ rest.length then _ else _) = _
      split
      · rw [Option.map_some, List.take_take, Nat.min_eq_left (Nat.le_add_right _ _)]
        rfl
      · rfl
  · intro data s
    constructor
    · rintro ⟨hnarrow, pad, hpad, rfl⟩
      refine ⟨data.length, _, data ++ pad, ⟨hnarrow, rfl⟩, ⟨data ++ pad, ?_, rfl, ?_⟩, rfl⟩
      · exact List.take_left' rfl
      · rw [List.length_append, hpad]
    · rintro ⟨len, _, _, ⟨hnarrow, rfl⟩, ⟨v, rfl, rfl, hlen⟩, rfl⟩
      have htake : (v.take len).length = len := List.length_take_of_le (by omega)
      rw [← htake] at hnarrow
      refine ⟨hnarrow, v.drop len, ?_, ?_⟩
      · rw [htake, List.length_drop, hlen]
        omega
      · rw [htake, List.take_append_drop]

/-- `xdr_image_in` with what follows the arguments. -/
def imageIn (s : Bytes) : Option (ImageIn × Bytes) :=
  (xdrBytes s).bind fun src => (xdrInt src.2).bind fun srcLen =>
    (xdrInt srcLen.2).map fun dstLen => (⟨src.1, srcLen.1, dstLen.1⟩, dstLen.2)

theorem xdrImageIn_eq (s : Bytes) : xdrImageIn s = (imageIn s).map Prod.fst := by
  unfold xdrImageIn imageIn
  cases xdrBytes s with
  | none => rfl
  | some src =>
    dsimp only [Option.bind_some]
    cases xdrInt src.2 with
    | none => rfl
    | some srcLen =>
      dsimp only [Option.bind_some]
      cases xdrInt srcLen.2 with
      | none => rfl
      | some dstLen => rfl

theorem frames_imageIn : Frames imageIn IsImageIn := by
  have hparts := frames_xdrBytes.bind fun src => frames_xdrInt.bind fun srcLen =>
    frames_xdrInt.map fun dstLen => (⟨src, srcLen, dstLen⟩ : ImageIn)
  refine hparts.congr (fun _ => rfl) ?_
  intro arg s
  constructor
  · rintro ⟨hsrcLen, hdstLen, src, hsrc, rfl⟩
    exact ⟨arg.src, src, _, hsrc,
      ⟨arg.srcLen, _, _, ⟨hsrcLen, rfl⟩, ⟨arg.dstLen, rfl, hdstLen, rfl⟩, rfl⟩, rfl⟩
  · rintro ⟨_, src, _, hsrc, ⟨_, _, _, ⟨hsrcLen, rfl⟩, ⟨_, rfl, hdstLen, rfl⟩, rfl⟩, rfl⟩
    exact ⟨hsrcLen, hdstLen, src, hsrc, rfl⟩

/-! ## Requests and replies -/

theorem IsOpaque.length_eq {data s : Bytes} (h : IsOpaque data s) :
    (encodeBytes data).length = s.length := by
  rcases h.bytes with ⟨pad, hpad, rfl⟩
  unfold encodeBytes
  simp only [List.length_append, List.length_replicate, hpad]

theorem IsImageIn.length_eq {arg : ImageIn} {s : Bytes} (h : IsImageIn arg s) :
    (encodeImageIn arg).length = s.length := by
  rcases h.bytes with ⟨src, hsrc, rfl⟩
  unfold encodeImageIn
  simp only [List.length_append, hsrc.length_eq]

theorem IsImageIn.encode {arg : ImageIn} {s : Bytes} (h : IsImageIn arg s) :
    IsImageIn arg (encodeImageIn arg) := by
  rcases h.bytes with ⟨src, hsrc, _⟩
  exact ⟨h.srcLen, h.dstLen, encodeBytes arg.src, .encode hsrc.narrow, rfl⟩

/-- `xdr_image_out`: the decoded results. -/
def xdrImageOut (s : Bytes) : Option Bytes := (xdrBytes s).map Prod.fst

/-- What `decode` takes, it takes again from `encode`, in no more bytes. -/
def Reencodes {α : Type} (decode : Bytes → Option α) (encode : α → Bytes) : Prop :=
  ∀ s a, decode s = some a → decode (encode a) = some a ∧ (encode a).length ≤ s.length

/-- An encoder that writes the format, in as many bytes as any other way to write it. -/
theorem reencodes_of_reads {α : Type} {decode : Bytes → Option α} {encode : α → Bytes}
    {format : α → Bytes → Prop} (hreads : Reads decode format)
    (hencode : ∀ a s, format a s → format a (encode a) ∧ (encode a).length = s.length) :
    Reencodes decode encode := by
  intro s a hs
  rcases (hreads.accepts s a).mp hs with ⟨b, hb, hprefix⟩
  obtain ⟨hformat, hlen⟩ := hencode a b hb
  refine ⟨(hreads.accepts _ a).mpr ⟨_, hformat, List.prefix_rfl⟩, ?_⟩
  rw [hlen]
  exact hprefix.length_le

/-- **The format of the calls.** The server takes just the requests that begin with an `image_in`,
whatever fills up the image and follows the arguments; no request begins another one; and what it
takes, it takes again from the encoder, in no more bytes. The same goes for the client and the
results. -/
theorem xdr_format :
    (Reads xdrImageIn IsImageIn ∧ Reencodes xdrImageIn encodeImageIn) ∧
      Reads xdrImageOut IsOpaque ∧ Reencodes xdrImageOut encodeBytes := by
  have hrequest : Reads xdrImageIn IsImageIn := by
    have hreads := frames_imageIn.reads
    rw [← funext xdrImageIn_eq] at hreads
    exact hreads
  have hresult : Reads xdrImageOut IsOpaque := frames_xdrBytes.reads
  refine ⟨⟨hrequest, ?_⟩, hresult, ?_⟩
  · exact reencodes_of_reads hrequest fun arg s h => ⟨h.encode, h.length_eq⟩
  · exact reencodes_of_reads hresult fun data s h => ⟨.encode h.narrow, h.length_eq⟩

end IntroOS.Minify.ViaRpc
