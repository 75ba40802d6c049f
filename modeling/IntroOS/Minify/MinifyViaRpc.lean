import IntroOS.Base.Block
import IntroOS.Minify.Dispatch
import IntroOS.Minify.ExitValue

/-! # `minify_via_rpc`

A client sends an image with Sun RPC and gets the minified image back. Both lengths are `u_int`s on
the way, and the buffer for the reply is as long as the image that was sent.

1. **XDR**: the encoders of `image_in` and `image_out`, undone by the decoders of `Dispatch`; and
   `xdr_bytes` into a buffer that is there already, whose size it does not know;
2. **Client** (`minifyViaRpc`) and **server** (`minifyjpegProc1Svc`);
3. **Property** (`Transports`), and when it holds.

`malloc` returns the buffers. `image_in.src_len`, `image_in.dst_len` and `image_out.dst_len` are
not set before they are sent or read, so they are parameters.
-/

namespace IntroOS.Minify.ViaRpc

open Dispatch ExitValue

/-! ## XDR -/

/-- A number of four bytes, big-endian. -/
def encodeUInt (n : Nat) : Bytes :=
  [UInt8.ofNat (n / 2 ^ 24), UInt8.ofNat (n / 2 ^ 16), UInt8.ofNat (n / 2 ^ 8), UInt8.ofNat n]

def encodeInt (z : Int) : Bytes := encodeUInt (z % 2 ^ 32).toNat

/-- How many bytes fill up `n` bytes to a multiple of four. -/
def padding (n : Nat) : Nat := (4 - n % 4) % 4

def encodeBytes (data : Bytes) : Bytes :=
  encodeUInt data.length ++ (data ++ List.replicate (padding data.length) 0)

/-- `xdr_image_in`, to the server. -/
def encodeImageIn (arg : ImageIn) : Bytes :=
  encodeBytes arg.src ++ (encodeInt arg.srcLen ++ encodeInt arg.dstLen)

/-- What `xdr_bytes` makes of a buffer that is not NULL. -/
structure Decoded (n : Nat) where
  /-- its result -/
  ok : Bool
  /-- the length, if it was read -/
  len : Option Nat
  buffer : Block n
deriving DecidableEq, Repr

/-- `xdr_bytes` into `buffer`: as many of the bytes as are there are stored. -/
def xdrBytesInto {n : Nat} (buffer : Block n) (s : Bytes) : Except Damage (Decoded n) :=
  match xdrUInt s with
  | none => .ok ⟨false, none, buffer⟩
  | some (len, rest) =>
    (buffer.write 0 (rest.take len)).map fun buffer =>
      ⟨decide (len + padding len ≤ rest.length), some len, buffer⟩

/-! ## Client and server -/

/-- What the RPC library makes of a request. -/
inductive Answer where
  /-- the call fails before there is a reply -/
  | failed (stat : ClntStat) (h : stat ≠ .success)
  /-- an accepted reply with these results -/
  | results (s : Bytes)

/-- `image_out` on the side of the client. -/
structure ImageOut (n : Nat) where
  dstLen : Nat
  dstVal : Block n
deriving DecidableEq, Repr

/-- `minifyjpeg_proc_1`: `clnt_call` with `xdr_image_out`. -/
def minifyjpegProc1 {n : Nat} (out : ImageOut n) : Answer → Except Damage (ClntStat × ImageOut n)
  | .failed stat _ => .ok (stat, out)
  | .results s =>
    (xdrBytesInto out.dstVal s).map fun decoded =>
      (if decoded.ok then .success else .cantDecodeRes,
        ⟨decoded.len.getD out.dstLen, decoded.buffer⟩)

/-- `image_input`: the length is narrowed to a `u_int`. -/
def imageInput (src : Bytes) (srcLen dstLen : Int) : ImageIn :=
  ⟨src.take (src.length % 2 ^ 32), srcLen, dstLen⟩

/-- What `malloc` and the stack hold in `image_output` and `image_input`. -/
structure Junk (n : Nat) where
  srcLen : Int
  dstLen : Int
  out : ImageOut n

/-- The request that is sent for `src`. -/
def request (src : Bytes) (junk : Junk src.length) : Bytes :=
  encodeImageIn (imageInput src junk.srcLen junk.dstLen)

/-- `minify_via_rpc`: its result, `*dst_len` and `*dst_val`. `call` is what becomes of a request. -/
def minifyViaRpc (call : Bytes → Answer) (src : Bytes) (junk : Junk src.length) :
    Except Damage (ClntStat × ImageOut src.length) :=
  minifyjpegProc1 junk.out (call (request src junk))

/-- `minifyjpeg_proc_1_svc` on the bytes of a request, with `xdr_image_out`: `dst_len` is cast to a
`u_int`. `minify` is `magickminify`. -/
def minifyjpegProc1Svc (minify : Bytes → Bytes) (request : Bytes) : Option Bytes :=
  (xdrImageIn request).map fun arg =>
    let dst := minify arg.src
    encodeBytes (dst.take (dst.length % 2 ^ 32))

/-! ## Property -/

/-- The request carries the image. The call returns without damage, and if it is successful, with
the bytes of the reply and their number. -/
structure Transports (call : Bytes → Answer) (src : Bytes) (junk : Junk src.length) : Prop where
  carries : ∃ arg, xdrImageIn (request src junk) = some arg ∧ arg.src = src
  returns : ∃ stat out, minifyViaRpc call src junk = .ok (stat, out) ∧
    (stat = .success → ∃ s data rest, call (request src junk) = .results s ∧
      xdrBytes s = some (data, rest) ∧ out.dstLen = data.length ∧
        out.dstVal.bytes.take data.length = data)

/-- The bytes behind a length, as far as they are there. -/
def available (s : Bytes) : Bytes :=
  match xdrUInt s with
  | none => []
  | some (len, rest) => rest.take len

/-- The bytes of an image that come with the answer. -/
def Answer.carried : Answer → Bytes
  | .failed _ _ => []
  | .results s => available s

/-- The length of the image fits a `u_int`, and the reply has no more bytes. -/
structure Bounded (call : Bytes → Answer) (src : Bytes) (junk : Junk src.length) : Prop where
  narrow : src.length < 2 ^ 32
  reply : (call (request src junk)).carried.length ≤ src.length

/-! ## Round trips -/

section RoundTrip

variable {data rest : Bytes}

theorem xdrUInt_encode (n : Nat) (rest : Bytes) :
    xdrUInt (encodeUInt n ++ rest) = some (n % 2 ^ 32, rest) := by
  have hvalue : (((UInt8.ofNat (n / 2 ^ 24)).toNat * 256 + (UInt8.ofNat (n / 2 ^ 16)).toNat) * 256 +
      (UInt8.ofNat (n / 2 ^ 8)).toNat) * 256 + (UInt8.ofNat n).toNat = n % 2 ^ 32 := by
    simp only [UInt8.toNat_ofNat']
    omega
  unfold encodeUInt
  simp only [List.cons_append, List.nil_append, xdrUInt, hvalue]

theorem xdrInt_encode (z : Int) (rest : Bytes) :
    xdrInt (encodeInt z ++ rest) = some (toInt32 z, rest) := by
  have hvalue : toInt32 (((z % 2 ^ 32).toNat % 2 ^ 32 : Nat) : Int) = toInt32 z := by
    unfold toInt32
    omega
  unfold xdrInt encodeInt
  rw [xdrUInt_encode, Option.map_some, hvalue]

theorem xdrBytes_encode (h : data.length < 2 ^ 32) (rest : Bytes) :
    xdrBytes (encodeBytes data ++ rest) = some (data, rest) := by
  have hpad : (data ++ List.replicate (padding data.length) (0 : UInt8)).length =
      data.length + (4 - data.length % 4) % 4 := by
    rw [List.length_append, List.length_replicate]
    rfl
  have hle : data.length + (4 - data.length % 4) % 4 ≤
      (data ++ List.replicate (padding data.length) (0 : UInt8) ++ rest).length := by
    rw [List.length_append, hpad]
    exact Nat.le_add_right _ _
  unfold xdrBytes encodeBytes
  rw [List.append_assoc, xdrUInt_encode, Nat.mod_eq_of_lt h]
  dsimp only
  rw [if_pos hle, List.drop_left' hpad, List.append_assoc, List.take_left' rfl]

theorem xdrImageIn_encode (arg : ImageIn) (h : arg.src.length < 2 ^ 32) :
    xdrImageIn (encodeImageIn arg) = some ⟨arg.src, toInt32 arg.srcLen, toInt32 arg.dstLen⟩ := by
  have hlast := xdrInt_encode arg.dstLen []
  rw [List.append_nil] at hlast
  unfold xdrImageIn encodeImageIn
  simp only [xdrBytes_encode h, xdrInt_encode, hlast]

end RoundTrip

/-! ## The request and the reply -/

section Call

variable {call : Bytes → Answer} {src : Bytes} {junk : Junk src.length}

/-- The server gets as much of the image as the narrowed length says. -/
theorem xdrImageIn_request (src : Bytes) (junk : Junk src.length) :
    xdrImageIn (request src junk) =
      some ⟨src.take (src.length % 2 ^ 32), toInt32 junk.srcLen, toInt32 junk.dstLen⟩ := by
  refine xdrImageIn_encode _ ?_
  have hlt : src.length % 2 ^ 32 < 2 ^ 32 := Nat.mod_lt _ (by norm_num)
  exact Nat.lt_of_le_of_lt (List.length_take_le _ _) hlt

theorem carries_iff :
    (∃ arg, xdrImageIn (request src junk) = some arg ∧ arg.src = src) ↔ src.length < 2 ^ 32 := by
  rw [xdrImageIn_request]
  constructor
  · rintro ⟨arg, heq, hsrc⟩
    cases heq
    -- a narrowed length leaves bytes out
    have hlen := congrArg List.length hsrc
    rw [List.length_take] at hlen
    have hlt : src.length % 2 ^ 32 < 2 ^ 32 := Nat.mod_lt _ (by norm_num)
    omega
  · intro h
    refine ⟨_, rfl, ?_⟩
    dsimp only
    rw [Nat.mod_eq_of_lt h, List.take_length]

/-- The bytes that are there are stored, and if the results are complete, these are the image. -/
theorem xdrBytesInto_cases {n : Nat} (buffer : Block n) (s : Bytes) :
    ((available s).length ≤ n ∧ ∃ d, xdrBytesInto buffer s = .ok d ∧
      d.ok = (xdrBytes s).isSome ∧ ∀ data rest, xdrBytes s = some (data, rest) →
        d.len = some data.length ∧ d.buffer.bytes.take data.length = data) ∨
    (¬ (available s).length ≤ n ∧ xdrBytesInto buffer s = .error .overrun) := by
  unfold available xdrBytesInto xdrBytes
  cases hlen : xdrUInt s with
  | none =>
    refine Or.inl ⟨Nat.zero_le _, _, rfl, rfl, ?_⟩
    intro data rest hdata
    cases hdata
  | some found =>
    obtain ⟨len, rest⟩ := found
    dsimp only
    by_cases hfits : (rest.take len).length ≤ n
    · have hfits' : 0 + (rest.take len).length ≤ n := by omega
      rcases buffer.write_ok hfits' with ⟨buffer', hwrite, hbytes⟩
      rw [List.take_zero, List.nil_append] at hbytes
      rw [hwrite]
      refine Or.inl ⟨hfits, _, rfl, ?_⟩
      change decide (len + padding len ≤ rest.length) = (if len + padding len ≤ rest.length then
        some (rest.take len, rest.drop (len + padding len)) else none).isSome ∧ _
      -- the reply may end before its length does
      by_cases hwhole : len + padding len ≤ rest.length
      · have htake : (rest.take len).length = len := List.length_take_of_le (by omega)
        rw [if_pos hwhole]
        refine ⟨decide_eq_true hwhole, ?_⟩
        intro data rest' hdata
        cases (if_pos hwhole).symm.trans hdata
        dsimp only
        rw [htake, hbytes]
        exact ⟨rfl, List.take_left' htake⟩
      · rw [if_neg hwhole]
        refine ⟨decide_eq_false hwhole, ?_⟩
        intro data rest' hdata
        cases (if_neg hwhole).symm.trans hdata
    · have hover : ¬ 0 + (rest.take len).length ≤ n := by omega
      rw [buffer.write_overrun hover]
      exact Or.inr ⟨hfits, rfl⟩

/-- The reply is stored if it fits the buffer. -/
theorem minifyViaRpc_cases (call : Bytes → Answer) (src : Bytes) (junk : Junk src.length) :
    ((call (request src junk)).carried.length ≤ src.length ∧
      ∃ stat out, minifyViaRpc call src junk = .ok (stat, out) ∧
        (stat = .success → ∃ s data rest, call (request src junk) = .results s ∧
          xdrBytes s = some (data, rest) ∧ out.dstLen = data.length ∧
            out.dstVal.bytes.take data.length = data)) ∨
    (¬ (call (request src junk)).carried.length ≤ src.length ∧
      minifyViaRpc call src junk = .error .overrun) := by
  unfold minifyViaRpc
  cases call (request src junk) with
  | failed stat hstat =>
    refine Or.inl ⟨Nat.zero_le _, stat, junk.out, rfl, ?_⟩
    intro hsuccess
    exact absurd hsuccess hstat
  | results s =>
    unfold minifyjpegProc1 Answer.carried
    dsimp only
    rcases xdrBytesInto_cases junk.out.dstVal s with ⟨hfits, d, hd, hok, hdata⟩ | ⟨hnot, herror⟩
    · rw [hd]
      refine Or.inl ⟨hfits, _, _, rfl, ?_⟩
      cases hs : xdrBytes s with
      | none =>
        rw [hs] at hok
        rw [hok]
        intro hsuccess
        cases hsuccess
      | some found =>
        obtain ⟨data, rest⟩ := found
        rcases hdata data rest hs with ⟨hlen, htake⟩
        intro _
        refine ⟨s, data, rest, rfl, hs, ?_, htake⟩
        rw [hlen]
        rfl
    · rw [herror]
      exact Or.inr ⟨hnot, rfl⟩

theorem Transports.bounded (h : Transports call src junk) : Bounded call src junk := by
  refine ⟨carries_iff.mp h.carries, ?_⟩
  rcases h.returns with ⟨stat, out, hrun, _⟩
  rcases minifyViaRpc_cases call src junk with ⟨hle, _⟩ | ⟨_, herror⟩
  · exact hle
  · rw [hrun] at herror
    cases herror

end Call

/-- **Images over RPC.** An image and its reply come through exactly if the length of the image fits
32 bits and the reply is not longer than the image. -/
theorem minify_via_rpc_iff (call : Bytes → Answer) (src : Bytes) (junk : Junk src.length) :
    Transports call src junk ↔ Bounded call src junk := by
  constructor
  · exact Transports.bounded
  · rintro ⟨hnarrow, hreply⟩
    refine ⟨carries_iff.mpr hnarrow, ?_⟩
    rcases minifyViaRpc_cases call src junk with ⟨_, hreturns⟩ | ⟨hnot, _⟩
    · exact hreturns
    · exact absurd hreply hnot

/-- The minified image has two bytes, and the image one. -/
theorem minify_via_rpc_grown :
    ¬ ∀ (call : Bytes → Answer) (src : Bytes) (junk : Junk src.length),
      Transports call src junk := by
  intro h
  have hbounded := (h (fun _ => .results (encodeBytes [2, 3])) [1]
    ⟨0, 0, 0, Block.filled _ 7⟩).bounded
  exact absurd hbounded.reply (by decide)

/-! ## The two sides together -/

/-- The server replies with the minified image. -/
theorem minifyjpegProc1Svc_request (minify : Bytes → Bytes) {src : Bytes} (junk : Junk src.length)
    (hnarrow : src.length < 2 ^ 32) (hdst : (minify src).length < 2 ^ 32) :
    minifyjpegProc1Svc minify (request src junk) = some (encodeBytes (minify src)) := by
  unfold minifyjpegProc1Svc
  rw [xdrImageIn_request, Nat.mod_eq_of_lt hnarrow, List.take_length, Option.map_some]
  dsimp only
  rw [Nat.mod_eq_of_lt hdst, List.take_length]

/-- An image that does not grow comes back from a server that answers. -/
theorem minifyViaRpc_shrinking (minify : Bytes → Bytes) {call : Bytes → Answer} {src : Bytes}
    (junk : Junk src.length) (hnarrow : src.length < 2 ^ 32)
    (hshrinks : (minify src).length ≤ src.length)
    (hcall : ∀ request results, minifyjpegProc1Svc minify request = some results →
      call request = .results results) :
    ∃ out, minifyViaRpc call src junk = .ok (.success, out) ∧
      out.dstLen = (minify src).length ∧
      out.dstVal.bytes.take (minify src).length = minify src := by
  have hdst : (minify src).length < 2 ^ 32 := Nat.lt_of_le_of_lt hshrinks hnarrow
  have hreply := hcall _ _ (minifyjpegProc1Svc_request minify junk hnarrow hdst)
  have hdecode := xdrBytes_encode hdst []
  rw [List.append_nil] at hdecode
  have havailable : available (encodeBytes (minify src)) = minify src := by
    unfold available encodeBytes
    rw [xdrUInt_encode, Nat.mod_eq_of_lt hdst]
    exact List.take_left' rfl
  unfold minifyViaRpc minifyjpegProc1
  rw [hreply]
  dsimp only
  rcases xdrBytesInto_cases junk.out.dstVal (encodeBytes (minify src)) with
    ⟨_, d, hd, hok, hdata⟩ | ⟨hnot, _⟩
  · rcases hdata _ _ hdecode with ⟨hlen, htake⟩
    rw [hdecode] at hok
    rw [hd]
    refine ⟨⟨d.len.getD junk.out.dstLen, d.buffer⟩, ?_, ?_, htake⟩
    · rw [Except.map, hok]
      rfl
    · dsimp only
      rw [hlen]
      rfl
  · rw [havailable] at hnot
    exact absurd hshrinks hnot

end IntroOS.Minify.ViaRpc
