/- module: Lib/Sha256
   generality: library
   digest: The SHA-256 compression function over natural-number words, evaluable by the kernel. -/

import Mathlib.Algebra.Order.Ring.Int
import Mathlib.Data.List.Basic

set_option autoImplicit false

namespace RssMdm.Lib.Sha256

def roundConstants : List Nat := [
  0x428a2f98, 0x71374491, 0xb5c0fbcf, 0xe9b5dba5, 0x3956c25b, 0x59f111f1, 0x923f82a4, 0xab1c5ed5,
  0xd807aa98, 0x12835b01, 0x243185be, 0x550c7dc3, 0x72be5d74, 0x80deb1fe, 0x9bdc06a7, 0xc19bf174,
  0xe49b69c1, 0xefbe4786, 0x0fc19dc6, 0x240ca1cc, 0x2de92c6f, 0x4a7484aa, 0x5cb0a9dc, 0x76f988da,
  0x983e5152, 0xa831c66d, 0xb00327c8, 0xbf597fc7, 0xc6e00bf3, 0xd5a79147, 0x06ca6351, 0x14292967,
  0x27b70a85, 0x2e1b2138, 0x4d2c6dfc, 0x53380d13, 0x650a7354, 0x766a0abb, 0x81c2c92e, 0x92722c85,
  0xa2bfe8a1, 0xa81a664b, 0xc24b8b70, 0xc76c51a3, 0xd192e819, 0xd6990624, 0xf40e3585, 0x106aa070,
  0x19a4c116, 0x1e376c08, 0x2748774c, 0x34b0bcb5, 0x391c0cb3, 0x4ed8aa4a, 0x5b9cca4f, 0x682e6ff3,
  0x748f82ee, 0x78a5636f, 0x84c87814, 0x8cc70208, 0x90befffa, 0xa4506ceb, 0xbef9a3f7, 0xc67178f2]

structure Working where
  a : Nat
  b : Nat
  c : Nat
  d : Nat
  e : Nat
  f : Nat
  g : Nat
  h : Nat

def initial : Working :=
  ⟨0x6a09e667, 0xbb67ae85, 0x3c6ef372, 0xa54ff53a, 0x510e527f, 0x9b05688c, 0x1f83d9ab, 0x5be0cd19⟩

def word (n : Nat) : Nat := n % 2 ^ 32

def rotr (n k : Nat) : Nat := (n >>> k) ||| word (n <<< (32 - k))

/-- One round on the working words with the scheduled word `w` and constant `k`. -/
def compress (s : Working) (k w : Nat) : Working :=
  let s1 := rotr s.e 6 ^^^ rotr s.e 11 ^^^ rotr s.e 25
  let ch := (s.e &&& s.f) ^^^ ((0xffffffff ^^^ s.e) &&& s.g)
  let t1 := word (s.h + s1 + ch + k + w)
  let s0 := rotr s.a 2 ^^^ rotr s.a 13 ^^^ rotr s.a 22
  let maj := (s.a &&& s.b) ^^^ (s.a &&& s.c) ^^^ (s.b &&& s.c)
  ⟨word (t1 + word (s0 + maj)), s.a, s.b, s.c, word (s.d + t1), s.e, s.f, s.g⟩

/-- Extend a reversed schedule by one word. -/
def scheduled (newest : List Nat) : Nat :=
  match newest with
  | [_, w2, _, _, _, _, w7, _, _, _, _, _, _, _, w15, w16] =>
      let s0 := rotr w15 7 ^^^ rotr w15 18 ^^^ (w15 >>> 3)
      let s1 := rotr w2 17 ^^^ rotr w2 19 ^^^ (w2 >>> 10)
      word (w16 + s0 + w7 + s1)
  | _ => 0

/-- Rounds sixteen onwards; `window` holds the last sixteen scheduled words, newest first. -/
def rounds (s : Working) (window : List Nat) : List Nat → Working
  | [] => s
  | k :: ks =>
      let w := scheduled window
      rounds (compress s k w) (w :: window.take 15) ks

def block (s : Working) (words : List Nat) : Working :=
  let first := (roundConstants.take 16).zip words |>.foldl (fun t p => compress t p.1 p.2) s
  let last := rounds first words.reverse (roundConstants.drop 16)
  ⟨word (s.a + last.a), word (s.b + last.b), word (s.c + last.c), word (s.d + last.d),
    word (s.e + last.e), word (s.f + last.f), word (s.g + last.g), word (s.h + last.h)⟩

/-- Big-endian words of an octet string whose length is a multiple of four. -/
def toWords : List Nat → List Nat
  | a :: b :: c :: d :: rest => (a * 2 ^ 24 + b * 2 ^ 16 + c * 2 ^ 8 + d) :: toWords rest
  | _ => []

def pad (message : List Nat) : List Nat :=
  let zeros := (119 - message.length % 64) % 64
  let bits := message.length * 8
  message ++ 0x80 :: List.replicate zeros 0 ++
    (List.range 8).map (fun i => bits / 2 ^ (56 - 8 * i) % 256)

def blocks : Nat → Working → List Nat → Working
  | 0, s, _ => s
  | n + 1, s, words => blocks n (block s (words.take 16)) (words.drop 16)

def octets (n : Nat) : List UInt8 :=
  [UInt8.ofNat (n / 2 ^ 24), UInt8.ofNat (n / 2 ^ 16), UInt8.ofNat (n / 2 ^ 8), UInt8.ofNat n]

def digest (message : List UInt8) : List UInt8 :=
  let words := toWords (pad (message.map UInt8.toNat))
  let s := blocks (words.length / 16) initial words
  octets s.a ++ octets s.b ++ octets s.c ++ octets s.d ++ octets s.e ++ octets s.f ++
    octets s.g ++ octets s.h

theorem digest_length (message : List UInt8) : (digest message).length = 32 := by
  simp [digest, octets]

/-- Keyed authentication; the key is at most one block long. -/
def hmac (key message : List UInt8) : List UInt8 :=
  let key := key ++ List.replicate (64 - key.length) 0
  digest (key.map (· ^^^ 0x5c) ++ digest (key.map (· ^^^ 0x36) ++ message))

example : digest [97, 98, 99] =
    [0xba, 0x78, 0x16, 0xbf, 0x8f, 0x01, 0xcf, 0xea, 0x41, 0x41, 0x40, 0xde, 0x5d, 0xae, 0x22, 0x23,
      0xb0, 0x03, 0x61, 0xa3, 0x96, 0x17, 0x7a, 0x9c, 0xb4, 0x10, 0xff, 0x61, 0xf2, 0x00, 0x15,
      0xad] := by
  decide

end RssMdm.Lib.Sha256
