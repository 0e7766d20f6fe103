/- module: Lib/Base64
   generality: library
   digest: Base64 in the URL alphabet without padding; octets come back from their text. -/

import Mathlib.Data.List.Basic

set_option autoImplicit false

namespace RssMdm.Lib.Base64

open Option (bind_eq_bind bind_eq_some_iff bind_some)

def alphabet : List Char :=
  "ABCDEFGHIJKLMNOPQRSTUVWXYZabcdefghijklmnopqrstuvwxyz0123456789-_".toList

def symbol (sextet : Nat) : Char := alphabet.getD sextet '_'

def sextet (c : Char) : Option Nat := alphabet.idxOf? c

/-- Three octets are four symbols; what is left over is two or three. -/
def encode : List UInt8 → List Char
  | [] => []
  | [a] => [symbol (a.toNat / 4), symbol (a.toNat % 4 * 16)]
  | [a, b] => [symbol (a.toNat / 4), symbol (a.toNat % 4 * 16 + b.toNat / 16),
      symbol (b.toNat % 16 * 4)]
  | a :: b :: c :: rest => symbol (a.toNat / 4) :: symbol (a.toNat % 4 * 16 + b.toNat / 16) ::
      symbol (b.toNat % 16 * 4 + c.toNat / 64) :: symbol (c.toNat % 64) :: encode rest

def decode : List Char → Option (List UInt8)
  | [] => some []
  | [_] => none
  | [w, x] => do
      let w ← sextet w
      let x ← sextet x
      if x % 16 ≠ 0 then none else some [UInt8.ofNat (w * 4 + x / 16)]
  | [w, x, y] => do
      let w ← sextet w
      let x ← sextet x
      let y ← sextet y
      if y % 4 ≠ 0 then none
      else some [UInt8.ofNat (w * 4 + x / 16), UInt8.ofNat (x % 16 * 16 + y / 4)]
  | w :: x :: y :: z :: rest => do
      let w ← sextet w
      let x ← sextet x
      let y ← sextet y
      let z ← sextet z
      let rest ← decode rest
      some (UInt8.ofNat (w * 4 + x / 16) :: UInt8.ofNat (x % 16 * 16 + y / 4) ::
        UInt8.ofNat (y % 4 * 64 + z) :: rest)

set_option maxRecDepth 4000 in
theorem sextet_symbol {n : Nat} (h : n < 64) : sextet (symbol n) = some n := by
  have all : ∀ i : Fin 64, sextet (symbol i) = some i.val := by decide
  exact all ⟨n, h⟩

theorem ofNat_eq {n : Nat} {a : UInt8} (h : n = a.toNat) : UInt8.ofNat n = a := by
  rw [h, UInt8.ofNat_toNat]

theorem decode_encode (octets : List UInt8) : decode (encode octets) = some octets := by
  induction octets using encode.induct with
  | case1 => rfl
  | case2 a =>
    have ha := a.toNat_lt
    rw [encode, decode, sextet_symbol (by omega), sextet_symbol (by omega)]
    have first : UInt8.ofNat (a.toNat / 4 * 4 + a.toNat % 4 * 16 / 16) = a := ofNat_eq (by omega)
    have padding : ¬a.toNat % 4 * 16 % 16 ≠ 0 := by omega
    simp only [bind_eq_bind, bind_some, if_neg padding, first]
  | case3 a b =>
    have ha := a.toNat_lt
    have hb := b.toNat_lt
    rw [encode, decode, sextet_symbol (by omega), sextet_symbol (by omega),
      sextet_symbol (by omega)]
    have first : UInt8.ofNat (a.toNat / 4 * 4 + (a.toNat % 4 * 16 + b.toNat / 16) / 16) = a :=
      ofNat_eq (by omega)
    have second : UInt8.ofNat ((a.toNat % 4 * 16 + b.toNat / 16) % 16 * 16 +
        b.toNat % 16 * 4 / 4) = b := ofNat_eq (by omega)
    have padding : ¬b.toNat % 16 * 4 % 4 ≠ 0 := by omega
    simp only [bind_eq_bind, bind_some, if_neg padding, first, second]
  | case4 a b c _ ih =>
    have ha := a.toNat_lt
    have hb := b.toNat_lt
    have hc := c.toNat_lt
    rw [encode, decode, sextet_symbol (by omega), sextet_symbol (by omega),
      sextet_symbol (by omega), sextet_symbol (by omega), ih]
    have first : UInt8.ofNat (a.toNat / 4 * 4 + (a.toNat % 4 * 16 + b.toNat / 16) / 16) = a :=
      ofNat_eq (by omega)
    have second : UInt8.ofNat ((a.toNat % 4 * 16 + b.toNat / 16) % 16 * 16 +
        (b.toNat % 16 * 4 + c.toNat / 64) / 4) = b := ofNat_eq (by omega)
    have third : UInt8.ofNat ((b.toNat % 16 * 4 + c.toNat / 64) % 4 * 64 + c.toNat % 64) = c :=
      ofNat_eq (by omega)
    simp only [bind_eq_bind, bind_some, first, second, third]

theorem length_le_encode (octets : List UInt8) : octets.length ≤ (encode octets).length := by
  induction octets using encode.induct with
  | case1 | case2 | case3 => simp [encode]
  | case4 =>
    simp only [encode, List.length_cons]
    omega

theorem length_encode_le (octets : List UInt8) :
    (encode octets).length ≤ (octets.length + 2) / 3 * 4 := by
  induction octets using encode.induct with
  | case1 | case2 | case3 => simp [encode]
  | case4 =>
    simp only [encode, List.length_cons]
    omega

theorem symbol_utf8Size (n : Nat) : (symbol n).utf8Size = 1 := by
  have all : alphabet.all (fun c => c.utf8Size == 1) = true := by rfl
  rw [symbol, List.getD_eq_getElem?_getD]
  rcases h : alphabet[n]? with _ | c
  · rfl
  · exact beq_iff_eq.mp (List.all_eq_true.mp all c (List.mem_of_getElem? h))

theorem encode_utf8Size (octets : List UInt8) : ∀ c ∈ encode octets, c.utf8Size = 1 := by
  induction octets using encode.induct with
  | case1 => simp [encode]
  | case2 | case3 => simp [encode, symbol_utf8Size]
  | case4 _ _ _ _ ih => simpa [encode, symbol_utf8Size] using ih

theorem symbol_sextet {c : Char} {n : Nat} (h : sextet c = some n) : n < 64 ∧ symbol n = c := by
  rw [sextet, List.idxOf?, List.findIdx?_eq_some_iff_getElem] at h
  obtain ⟨bound, found, -⟩ := h
  refine ⟨bound, ?_⟩
  rw [symbol, List.getD_eq_getElem?_getD, List.getElem?_eq_getElem bound, Option.getD_some]
  exact beq_iff_eq.mp found

theorem toNat_octet {n : Nat} (h : n < 256) : (UInt8.ofNat n).toNat = n :=
  UInt8.toNat_ofNat_of_lt' h

theorem encode_of_decode {text : List Char} {octets : List UInt8} (h : decode text = some octets) :
    encode octets = text := by
  induction text using decode.induct generalizing octets with
  | case1 =>
    cases h
    rfl
  | case2 => cases h
  | case3 =>
    simp only [decode, bind_eq_bind, bind_eq_some_iff] at h
    obtain ⟨i, hi, j, hj, h⟩ := h
    obtain ⟨hi, rfl⟩ := symbol_sextet hi
    obtain ⟨hj, rfl⟩ := symbol_sextet hj
    split at h
    · cases h
    cases h
    have octet := toNat_octet (show i * 4 + j / 16 < 256 by omega)
    rw [encode, octet]
    have first : (i * 4 + j / 16) / 4 = i := by omega
    have second : (i * 4 + j / 16) % 4 * 16 = j := by omega
    rw [first, second]
  | case4 =>
    simp only [decode, bind_eq_bind, bind_eq_some_iff] at h
    obtain ⟨i, hi, j, hj, k, hk, h⟩ := h
    obtain ⟨hi, rfl⟩ := symbol_sextet hi
    obtain ⟨hj, rfl⟩ := symbol_sextet hj
    obtain ⟨hk, rfl⟩ := symbol_sextet hk
    split at h
    · cases h
    cases h
    have octet := toNat_octet (show i * 4 + j / 16 < 256 by omega)
    have octet' := toNat_octet (show j % 16 * 16 + k / 4 < 256 by omega)
    rw [encode, octet, octet']
    have first : (i * 4 + j / 16) / 4 = i := by omega
    have second : (i * 4 + j / 16) % 4 * 16 + (j % 16 * 16 + k / 4) / 16 = j := by omega
    have third : (j % 16 * 16 + k / 4) % 16 * 4 = k := by omega
    rw [first, second, third]
  | case5 _ _ _ _ _ ih =>
    simp only [decode, bind_eq_bind, bind_eq_some_iff] at h
    obtain ⟨i, hi, j, hj, k, hk, l, hl, tail, decoded, h⟩ := h
    obtain ⟨hi, rfl⟩ := symbol_sextet hi
    obtain ⟨hj, rfl⟩ := symbol_sextet hj
    obtain ⟨hk, rfl⟩ := symbol_sextet hk
    obtain ⟨hl, rfl⟩ := symbol_sextet hl
    cases h
    have octet := toNat_octet (show i * 4 + j / 16 < 256 by omega)
    have octet' := toNat_octet (show j % 16 * 16 + k / 4 < 256 by omega)
    have octet'' := toNat_octet (show k % 4 * 64 + l < 256 by omega)
    rw [encode, octet, octet', octet'', ih decoded]
    have first : (i * 4 + j / 16) / 4 = i := by omega
    have second : (i * 4 + j / 16) % 4 * 16 + (j % 16 * 16 + k / 4) / 16 = j := by omega
    have third : (j % 16 * 16 + k / 4) % 16 * 4 + (k % 4 * 64 + l) / 64 = k := by omega
    have fourth : (k % 4 * 64 + l) % 64 = l := by omega
    rw [first, second, third, fourth]

end RssMdm.Lib.Base64
