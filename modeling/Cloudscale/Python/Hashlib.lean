import Cloudscale.Lib.Digits
import Cloudscale.Python.Text
import Mathlib.Data.Nat.Bitwise

/-!
# `hashlib`

`sha256` and `sha1` on bytes, with 32-bit words as numbers below `2 ^ 32`, so
that a digest can be computed.  A `Digest` is the 256-bit integer of its 32
bytes; `Digest.hex` is `digest.hex()`, and `Digest.ofHex` is `bytes.fromhex`
followed by the check of the length.  `Digest.ofHex_hex` is the round trip.

Nothing is proved about the hash functions: where a result needs that two
payloads do not collide, it says so.
-/

namespace Python

open Digits

/-- The bytes of a text in UTF-8. -/
def utf8 (text : String) : List Nat := text.toUTF8.data.toList.map UInt8.toNat

theorem utf8_injective : Function.Injective utf8 := by
  intro s t h
  have hbytes := List.map_injective_iff.mpr (fun a b => UInt8.toNat_inj.mp) h
  exact String.toByteArray_inj.mp (ByteArray.ext (Array.toList_inj.mp hbytes))

namespace Hash

def add (x y : Nat) : Nat := (x + y) % 2 ^ 32

def rotr (n x : Nat) : Nat := ((x >>> n) ||| (x <<< (32 - n))) % 2 ^ 32

def rotl (n x : Nat) : Nat := rotr (32 - n) x

def not32 (x : Nat) : Nat := x ^^^ (2 ^ 32 - 1)

/-- The bytes of a number, most significant first. -/
def bigEndian : Nat → Nat → List Nat
  | 0, _ => []
  | k + 1, n => bigEndian k (n / 256) ++ [n % 256]

/-- The number a string of bytes writes. -/
def ofBytes (bytes : List Nat) : Nat := bytes.foldl (fun acc b => acc * 256 + b) 0

/-- The message with a one bit, zeros, and the length in bits. -/
def pad (message : List Nat) : List Nat :=
  message ++ 128 :: (List.replicate ((119 - message.length % 64) % 64) 0
    ++ bigEndian 8 (message.length * 8))

/-- `k` chunks of `n` elements. -/
def chunks {α : Type} (n : Nat) : Nat → List α → List (List α)
  | 0, _ => []
  | k + 1, xs => xs.take n :: chunks n k (xs.drop n)

/-- The blocks of a message, each of sixteen words. -/
def blocks (message : List Nat) : List (List Nat) :=
  let padded := pad message
  (chunks 64 (padded.length / 64) padded).map (fun block => (chunks 4 16 block).map ofBytes)

/-- Extend a message schedule, latest word first, by `k` words. -/
def extend (next : List Nat → Nat) : Nat → List Nat → List Nat
  | 0, ws => ws
  | k + 1, ws => extend next k (next ws :: ws)

def sha256Constants : List Nat :=
  [0x428a2f98, 0x71374491, 0xb5c0fbcf, 0xe9b5dba5, 0x3956c25b, 0x59f111f1, 0x923f82a4, 0xab1c5ed5,
    0xd807aa98, 0x12835b01, 0x243185be, 0x550c7dc3, 0x72be5d74, 0x80deb1fe, 0x9bdc06a7, 0xc19bf174,
    0xe49b69c1, 0xefbe4786, 0x0fc19dc6, 0x240ca1cc, 0x2de92c6f, 0x4a7484aa, 0x5cb0a9dc, 0x76f988da,
    0x983e5152, 0xa831c66d, 0xb00327c8, 0xbf597fc7, 0xc6e00bf3, 0xd5a79147, 0x06ca6351, 0x14292967,
    0x27b70a85, 0x2e1b2138, 0x4d2c6dfc, 0x53380d13, 0x650a7354, 0x766a0abb, 0x81c2c92e, 0x92722c85,
    0xa2bfe8a1, 0xa81a664b, 0xc24b8b70, 0xc76c51a3, 0xd192e819, 0xd6990624, 0xf40e3585, 0x106aa070,
    0x19a4c116, 0x1e376c08, 0x2748774c, 0x34b0bcb5, 0x391c0cb3, 0x4ed8aa4a, 0x5b9cca4f, 0x682e6ff3,
    0x748f82ee, 0x78a5636f, 0x84c87814, 0x8cc70208, 0x90befffa, 0xa4506ceb, 0xbef9a3f7, 0xc67178f2]

def sha256Schedule (ws : List Nat) : Nat :=
  let w15 := ws.getD 14 0
  let w2 := ws.getD 1 0
  let s0 := rotr 7 w15 ^^^ rotr 18 w15 ^^^ (w15 >>> 3)
  let s1 := rotr 17 w2 ^^^ rotr 19 w2 ^^^ (w2 >>> 10)
  add (add (ws.getD 15 0) s0) (add (ws.getD 6 0) s1)

structure Sha256State where
  a : Nat
  b : Nat
  c : Nat
  d : Nat
  e : Nat
  f : Nat
  g : Nat
  h : Nat

def sha256Round (v : Sha256State) (kw : Nat × Nat) : Sha256State :=
  let s1 := rotr 6 v.e ^^^ rotr 11 v.e ^^^ rotr 25 v.e
  let ch := (v.e &&& v.f) ^^^ (not32 v.e &&& v.g)
  let t1 := add (add v.h s1) (add ch (add kw.1 kw.2))
  let s0 := rotr 2 v.a ^^^ rotr 13 v.a ^^^ rotr 22 v.a
  let maj := (v.a &&& v.b) ^^^ (v.a &&& v.c) ^^^ (v.b &&& v.c)
  ⟨add t1 (add s0 maj), v.a, v.b, v.c, add v.d t1, v.e, v.f, v.g⟩

def sha256Block (v : Sha256State) (block : List Nat) : Sha256State :=
  let ws := (extend sha256Schedule 48 block.reverse).reverse
  let u := (sha256Constants.zip ws).foldl sha256Round v
  ⟨add v.a u.a, add v.b u.b, add v.c u.c, add v.d u.d, add v.e u.e, add v.f u.f, add v.g u.g,
    add v.h u.h⟩

def sha256Initial : Sha256State :=
  ⟨0x6a09e667, 0xbb67ae85, 0x3c6ef372, 0xa54ff53a, 0x510e527f, 0x9b05688c, 0x1f83d9ab, 0x5be0cd19⟩

structure Sha1State where
  a : Nat
  b : Nat
  c : Nat
  d : Nat
  e : Nat

def sha1Schedule (ws : List Nat) : Nat :=
  rotl 1 (ws.getD 2 0 ^^^ ws.getD 7 0 ^^^ ws.getD 13 0 ^^^ ws.getD 15 0)

/-- The constant and the function of a round of SHA-1. -/
def sha1Mix (round : Nat) (b c d : Nat) : Nat × Nat :=
  if round < 20 then (0x5a827999, (b &&& c) ||| (not32 b &&& d))
  else if round < 40 then (0x6ed9eba1, b ^^^ c ^^^ d)
  else if round < 60 then (0x8f1bbcdc, (b &&& c) ||| (b &&& d) ||| (c &&& d))
  else (0xca62c1d6, b ^^^ c ^^^ d)

def sha1Round (v : Sha1State) (iw : Nat × Nat) : Sha1State :=
  let (k, f) := sha1Mix iw.1 v.b v.c v.d
  ⟨add (add (rotl 5 v.a) f) (add v.e (add k iw.2)), v.a, rotl 30 v.b, v.c, v.d⟩

def sha1Block (v : Sha1State) (block : List Nat) : Sha1State :=
  let ws := (extend sha1Schedule 64 block.reverse).reverse
  let u := ((List.range 80).zip ws).foldl sha1Round v
  ⟨add v.a u.a, add v.b u.b, add v.c u.c, add v.d u.d, add v.e u.e⟩

def sha1Initial : Sha1State := ⟨0x67452301, 0xefcdab89, 0x98badcfe, 0x10325476, 0xc3d2e1f0⟩

end Hash

/-- `hashlib.sha1(message).digest()`. -/
def sha1 (message : List Nat) : List Nat :=
  let v := (Hash.blocks message).foldl Hash.sha1Block Hash.sha1Initial
  [v.a, v.b, v.c, v.d, v.e].flatMap (Hash.bigEndian 4)

/-! ### SHA-256 digests -/

/-- The 32 bytes of a SHA-256 digest, as their number. -/
structure Digest where
  int : Fin (2 ^ 256)
  deriving DecidableEq

instance Digest.neZero : NeZero (2 ^ 256) := ⟨by decide⟩

/-- `hashlib.sha256(message).digest()`. -/
def sha256 (message : List Nat) : Digest :=
  let v := (Hash.blocks message).foldl Hash.sha256Block Hash.sha256Initial
  let words := [v.a, v.b, v.c, v.d, v.e, v.f, v.g, v.h]
  ⟨Fin.ofNat (2 ^ 256) (words.foldl (fun acc w => acc * 2 ^ 32 + w) 0)⟩

namespace Digest

/-- `digest.hex()`. -/
def hex (d : Digest) : String := String.ofList (fixedDigits 16 64 d.int.val)

/-- `bytes.fromhex(text)`: two digits a byte, blanks between bytes. -/
def fromHex : List Char → Option (List Nat)
  | [] => some []
  | [c] => if isBlank c then some [] else none
  | c :: c' :: cs =>
    if isBlank c then fromHex (c' :: cs)
    else do
      let byte ← parseDigits 16 [c, c']
      let bytes ← fromHex cs
      some (byte :: bytes)

/-- The digest a text names: hexadecimal, 32 bytes. -/
def ofHex (text : String) : Option Digest := do
  let bytes ← fromHex text.toList
  if bytes.length = 32 then some ⟨Fin.ofNat (2 ^ 256) (Hash.ofBytes bytes)⟩ else none

theorem fromHex_append {c c' : Char} {byte : Nat} (hbyte : parseDigits 16 [c, c'] = some byte)
    (hblank : isBlank c = false) : ∀ {bytes : List Nat} {cs : List Char},
    (∀ x ∈ cs, isBlank x = false) → fromHex cs = some bytes →
      fromHex (cs ++ [c, c']) = some (bytes ++ [byte]) := by
  intro bytes cs
  induction cs using fromHex.induct generalizing bytes with
  | case1 =>
    intro _ h
    cases h
    simp [fromHex, hblank, hbyte]
  | case2 x hx =>
    intro hcs
    rw [hcs x List.mem_cons_self] at hx
    cases hx
  | case3 x hx =>
    intro _ h
    rw [fromHex, if_neg hx] at h
    cases h
  | case4 x x' cs hx ih =>
    intro hcs
    rw [hcs x List.mem_cons_self] at hx
    cases hx
  | case5 x x' cs hx ih =>
    intro hcs h
    rw [fromHex, if_neg hx] at h
    simp only [Option.bind_eq_bind, Option.bind_eq_some_iff, Option.some.injEq] at h
    obtain ⟨b, hb, rest, hrest, rfl⟩ := h
    have htail := ih (fun y hy => hcs y (List.mem_cons_of_mem _ (List.mem_cons_of_mem _ hy))) hrest
    simp [fromHex, hx, hb, htail]

theorem fromHex_fixedDigits : ∀ (k : Nat) {n : Nat}, n < 256 ^ k →
    ∃ bytes, fromHex (fixedDigits 16 (k * 2) n) = some bytes ∧ bytes.length = k ∧
      Hash.ofBytes bytes = n := by
  intro k
  induction k with
  | zero =>
    intro n hn
    refine ⟨[], rfl, rfl, ?_⟩
    simp at hn
    rw [hn]
    rfl
  | succ k ih =>
    intro n hn
    have hdiv : n / 16 / 16 < 256 ^ k := by
      rw [Nat.div_div_eq_div_mul, Nat.div_lt_iff_lt_mul (by decide), ← pow_succ]
      exact hn
    obtain ⟨bytes, hbytes, hlen, hval⟩ := ih hdiv
    have hpair : parseDigits 16 [Nat.digitChar (n / 16 % 16), Nat.digitChar (n % 16)] =
        some (n / 16 % 16 * 16 + n % 16) := by
      simp [parseDigits, pushDigit_digitChar _ (Nat.mod_lt (n / 16) (by decide : 0 < 16)) le_rfl,
        pushDigit_digitChar _ (Nat.mod_lt n (by decide : 0 < 16)) le_rfl]
    have hplain : ∀ d < 16, isBlank (Nat.digitChar d) = false := by decide
    have hdigit : ∀ x ∈ fixedDigits 16 (k * 2) (n / 16 / 16), isBlank x = false := by
      intro x hx
      obtain ⟨d, hd, rfl⟩ := mem_fixedDigits (by decide) hx
      exact hplain d hd
    have happend := fromHex_append hpair (hplain _ (Nat.mod_lt _ (by decide))) hdigit hbytes
    have hdigits : fixedDigits 16 ((k + 1) * 2) n = fixedDigits 16 (k * 2) (n / 16 / 16) ++
        [Nat.digitChar (n / 16 % 16), Nat.digitChar (n % 16)] := by
      rw [show (k + 1) * 2 = k * 2 + 1 + 1 by omega, fixedDigits, fixedDigits]
      simp
    refine ⟨_, by rw [hdigits]; exact happend, by simp [hlen], ?_⟩
    rw [Hash.ofBytes] at hval
    rw [Hash.ofBytes, List.foldl_append, hval]
    simp only [List.foldl_cons, List.foldl_nil]
    omega

/-- **`bytes.fromhex(digest.hex())` is the digest.** -/
@[simp] theorem ofHex_hex (d : Digest) : ofHex d.hex = some d := by
  obtain ⟨bytes, hbytes, hlen, hval⟩ := fromHex_fixedDigits 32 (n := d.int.val)
    (lt_of_lt_of_eq d.int.isLt (by norm_num))
  have hfin : Fin.ofNat (2 ^ 256) d.int.val = d.int := by
    ext
    exact Nat.mod_eq_of_lt d.int.isLt
  simp only [ofHex, hex, String.toList_ofList, hbytes, Option.bind_eq_bind, Option.bind_some, hlen,
    if_true, hval, hfin]

example : (sha256 (utf8 "abc")).hex =
    "ba7816bf8f01cfea414140de5dae2223b00361a396177a9cb410ff61f20015ad" := by decide +kernel

end Digest

end Python
