/- module: Lib/Percent
   generality: library
   digest: Percent encoding of octets with a set that stands for itself; texts come back. -/

import RssMdm.Lib.Text

set_option autoImplicit false

namespace RssMdm.Lib.Percent

open Lib.Text
open Nat (mod_lt)

section

variable (keep : UInt8 → Bool)

def encodeByte (b : UInt8) : List Char :=
  if keep b then [Char.ofNat b.toNat] else '%' :: hexByte false b.toNat

def encode (octets : List UInt8) : List Char := octets.flatMap (encodeByte keep)

def hexOctet (b : UInt8) : Option Nat := hexDigit (Char.ofNat b.toNat)

def escaped (a b : UInt8) : Option UInt8 :=
  match hexOctet a, hexOctet b with
  | some high, some low => some (UInt8.ofNat (high * 16 + low))
  | _, _ => none

/-- A percent sign with two digits is an octet; any other octet stands for itself. -/
def decodeOctets : List UInt8 → List UInt8
  | [] => []
  | [a] => [a]
  | [a, b] => [a, b]
  | a :: b :: c :: rest =>
      if a = 37 then
        match escaped b c with
        | some octet => octet :: decodeOctets rest
        | none => a :: decodeOctets (b :: c :: rest)
      else a :: decodeOctets (b :: c :: rest)

/-- The decoded text, if the octets are UTF-8. -/
def decode (s : String) : Option String :=
  String.fromUTF8? ⟨(decodeOctets (asBytes s)).toArray⟩

/-- What stands for itself is ASCII and no percent sign. -/
def Keeps : Prop := ∀ b, keep b = true → b.toNat < 128 ∧ b.toNat ≠ 37

end

theorem asBytes_ofList (cs : List Char) :
    asBytes (String.ofList cs) = cs.flatMap String.utf8EncodeChar := by
  rw [asBytes, String.toByteArray_ofList, List.utf8Encode]
  simp

theorem asBytes_ascii {cs : List Char} (ascii : ∀ c ∈ cs, c.toNat < 128) :
    asBytes (String.ofList cs) = cs.map (fun c => UInt8.ofNat c.toNat) := by
  rw [asBytes_ofList]
  induction cs with
  | nil => rfl
  | cons c _ ih =>
    have one : String.utf8EncodeChar c = [UInt8.ofNat c.toNat] := by
      have small := ascii c (.head _)
      have code : c.toNat = c.val.toNat := rfl
      simp only [String.utf8EncodeChar]
      rw [if_pos (by omega), code]
    rw [List.flatMap_cons, one, ih fun d member => ascii d (List.mem_cons_of_mem c member)]
    rfl

theorem charOfNat_toNat {n : Nat} (small : n < 128) : (Char.ofNat n).toNat = n := by
  have valid : n.isValidChar := .inl (by omega)
  rw [Char.ofNat, dif_pos valid]
  rfl

theorem decodeOctets_kept {a : UInt8} (plain : a.toNat ≠ 37) (rest : List UInt8) :
    decodeOctets (a :: rest) = a :: decodeOctets rest := by
  have other : a ≠ 37 := by
    rintro rfl
    exact plain rfl
  match rest with
  | [] | [_] => rfl
  | b :: c :: rest => rw [decodeOctets, if_neg other]

theorem hexDigit_upper : ∀ k < 16,
    hexDigit ("0123456789ABCDEF".toList.getD k '0') = some k ∧
      ("0123456789ABCDEF".toList.getD k '0').toNat < 128 ∧
      ("0123456789ABCDEF".toList.getD k '0').isAlphanum = true := by
  decide

theorem charOf_octet {c : Char} (ascii : c.toNat < 128) :
    Char.ofNat (UInt8.ofNat c.toNat).toNat = c := by
  rw [UInt8.toNat_ofNat_of_lt' (Nat.lt_trans ascii (by decide)), Char.ofNat_toNat]

theorem hexOctet_upper {k : Nat} (digit : k < 16) :
    hexOctet (UInt8.ofNat ("0123456789ABCDEF".toList.getD k '0').toNat) = some k := by
  obtain ⟨value, ascii, -⟩ := hexDigit_upper k digit
  rw [hexOctet, charOf_octet ascii, value]

theorem escaped_upper (b : UInt8) :
    escaped (UInt8.ofNat ("0123456789ABCDEF".toList.getD (b.toNat / 16 % 16) '0').toNat)
      (UInt8.ofNat ("0123456789ABCDEF".toList.getD (b.toNat % 16) '0').toNat) = some b := by
  have small := b.toNat_lt
  have octet : b.toNat / 16 % 16 * 16 + b.toNat % 16 = b.toNat := by omega
  rw [escaped, hexOctet_upper (mod_lt _ (by decide)), hexOctet_upper (mod_lt _ (by decide))]
  simp only [octet, UInt8.ofNat_toNat]

variable {keep : UInt8 → Bool}

theorem encodeByte_ascii (kept : Keeps keep) (b : UInt8) : ∀ c ∈ encodeByte keep b, c.toNat < 128 := by
  intro c member
  unfold encodeByte at member
  split at member
  · rename_i stays
    have small := (kept b stays).1
    rw [List.mem_singleton.mp member, charOfNat_toNat small]
    exact small
  · have high := hexDigit_upper (b.toNat / 16 % 16) (mod_lt _ (by decide))
    have low := hexDigit_upper (b.toNat % 16) (mod_lt _ (by decide))
    simp only [hexByte, Bool.false_eq_true, if_false, List.mem_cons, List.not_mem_nil,
      or_false] at member
    rcases member with rfl | rfl | rfl
    · decide
    · exact high.2.1
    · exact low.2.1

theorem encode_ascii (kept : Keeps keep) (octets : List UInt8) :
    ∀ c ∈ encode keep octets, c.toNat < 128 := by
  intro c member
  obtain ⟨b, -, inside⟩ := List.mem_flatMap.mp member
  exact encodeByte_ascii kept b c inside

theorem decodeOctets_encodeByte (kept : Keeps keep) (b : UInt8) (rest : List UInt8) :
    decodeOctets ((encodeByte keep b).map (fun c => UInt8.ofNat c.toNat) ++ rest) =
      b :: decodeOctets rest := by
  unfold encodeByte
  split
  · rename_i stays
    obtain ⟨small, plain⟩ := kept b stays
    have code : (Char.ofNat b.toNat).toNat = b.toNat := charOfNat_toNat small
    rw [List.map_singleton, code, UInt8.ofNat_toNat]
    exact decodeOctets_kept plain rest
  · have octet := escaped_upper b
    simp only [hexByte, Bool.false_eq_true, if_false, List.map_cons, List.map_nil,
      List.cons_append, List.nil_append]
    rw [decodeOctets, if_pos (by decide), octet]

theorem decodeOctets_encode (kept : Keeps keep) (octets : List UInt8) :
    decodeOctets ((encode keep octets).map (fun c => UInt8.ofNat c.toNat)) = octets := by
  induction octets with
  | nil => rfl
  | cons b _ ih =>
    rw [encode, List.flatMap_cons, List.map_append, decodeOctets_encodeByte kept]
    exact congrArg (b :: ·) ih

theorem decode_encode (kept : Keeps keep) (s : String) :
    decode (String.ofList (encode keep (asBytes s))) = some s := by
  rw [decode, asBytes_ascii (encode_ascii kept _), decodeOctets_encode kept]
  have whole : (⟨(asBytes s).toArray⟩ : ByteArray) = s.toByteArray := by
    rw [asBytes, Array.toArray_toList]
  rw [whole, String.fromUTF8?]
  exact dif_pos s.isValidUTF8

theorem mem_encode {octets : List UInt8} {c : Char} (member : c ∈ encode keep octets) :
    (∃ b, keep b = true ∧ c = Char.ofNat b.toNat) ∨ c = '%' ∨ c.isAlphanum = true := by
  obtain ⟨b, -, inside⟩ := List.mem_flatMap.mp member
  unfold encodeByte at inside
  split at inside
  · rename_i stays
    exact .inl ⟨b, stays, List.mem_singleton.mp inside⟩
  have high := hexDigit_upper (b.toNat / 16 % 16) (mod_lt _ (by decide))
  have low := hexDigit_upper (b.toNat % 16) (mod_lt _ (by decide))
  simp only [hexByte, Bool.false_eq_true, if_false, List.mem_cons, List.not_mem_nil,
    or_false] at inside
  rcases inside with rfl | rfl | rfl
  · exact .inr (.inl rfl)
  · exact .inr (.inr high.2.2)
  · exact .inr (.inr low.2.2)

theorem encode_ne_nil {s : String} (inhabited : s ≠ "") : encode keep (asBytes s) ≠ [] := by
  intro empty
  rw [encode, List.flatMap_eq_nil_iff] at empty
  have none : asBytes s = [] := by
    rw [List.eq_nil_iff_forall_not_mem]
    intro b member
    have blank := empty b member
    unfold encodeByte at blank
    split at blank <;> cases blank
  exact inhabited (asBytes_injective none)

end RssMdm.Lib.Percent
