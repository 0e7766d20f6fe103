/- module: Lib/Text
   generality: library
   digest: Byte offsets into UTF-8 text, slices at character boundaries, character classes. -/

import Mathlib.Algebra.Order.Ring.Int
import Mathlib.Data.List.Infix

set_option autoImplicit false

namespace RssMdm.Lib.Text

open List (cons_append head?_cons)

/-- The Unicode White_Space property. -/
def isWhitespace (c : Char) : Bool :=
  let n := c.toNat
  (0x9 ≤ n && n ≤ 0xd) || n = 0x20 || n = 0x85 || n = 0xa0 || n = 0x1680 ||
    (0x2000 ≤ n && n ≤ 0x200a) || n = 0x2028 || n = 0x2029 || n = 0x202f || n = 0x205f ||
    n = 0x3000

/-- The Unicode general category Cc. -/
def isControl (c : Char) : Bool := c.toNat < 0x20 || (0x7f ≤ c.toNat && c.toNat ≤ 0x9f)

def blank (value : String) : Bool := value.toList.all isWhitespace

/-- Trimming takes nothing from the text. -/
def trimmed (value : String) : Bool :=
  !value.toList.head?.any isWhitespace && !value.toList.getLast?.any isWhitespace

/-- The text without white space at its ends, as `str::trim`. -/
def trim (value : String) : String :=
  String.ofList ((value.toList.dropWhile isWhitespace).reverse.dropWhile isWhitespace).reverse

/-- UTF-8 bytes of a string, as `str::as_bytes`. -/
def asBytes (value : String) : List UInt8 := value.toByteArray.data.toList

theorem asBytes_injective : Function.Injective asBytes := by
  intro a b h
  apply String.toByteArray_inj.mp
  apply ByteArray.ext
  exact Array.toList_inj.mp h

theorem asBytes_length (value : String) : (asBytes value).length = value.utf8ByteSize := by
  rw [asBytes, Array.length_toList, ByteArray.size_data, String.size_toByteArray]

def utf8Len : List Char → Nat
  | [] => 0
  | c :: cs => c.utf8Size + utf8Len cs

@[simp] theorem utf8Len_nil : utf8Len [] = 0 := rfl

@[simp] theorem utf8Len_cons (c : Char) (cs : List Char) :
    utf8Len (c :: cs) = c.utf8Size + utf8Len cs := rfl

@[simp] theorem utf8Len_append (xs ys : List Char) :
    utf8Len (xs ++ ys) = utf8Len xs + utf8Len ys := by
  induction xs with
  | nil => simp
  | cons _ _ ih => simp [ih, Nat.add_assoc]

theorem length_le_utf8Len (cs : List Char) : cs.length ≤ utf8Len cs := by
  induction cs with
  | nil => simp
  | cons c =>
    have hc : 0 < c.utf8Size := c.utf8Size_pos
    simp only [List.length_cons, utf8Len_cons]
    omega

theorem utf8ByteSize_eq (s : String) : s.utf8ByteSize = utf8Len s.toList := by
  obtain ⟨cs, rfl⟩ : ∃ cs, s = String.ofList cs := ⟨s.toList, String.ofList_toList.symm⟩
  rw [String.toList_ofList]
  induction cs with
  | nil => simp
  | cons _ _ ih =>
    rw [← List.singleton_append, String.ofList_append, String.utf8ByteSize_append, ih,
      ← String.singleton_eq_ofList, String.utf8ByteSize_singleton]
    simp

/-- The text from a byte offset on; none off a character boundary. -/
def sliceFrom : List Char → Nat → Option (List Char)
  | cs, 0 => some cs
  | [], _ + 1 => none
  | c :: cs, n + 1 => if c.utf8Size ≤ n + 1 then sliceFrom cs (n + 1 - c.utf8Size) else none

/-- The first bytes of a text; none off a character boundary. -/
def sliceTo : List Char → Nat → Option (List Char)
  | _, 0 => some []
  | [], _ + 1 => none
  | c :: cs, n + 1 =>
    if c.utf8Size ≤ n + 1 then (sliceTo cs (n + 1 - c.utf8Size)).map (c :: ·) else none

@[simp] theorem sliceFrom_zero (cs : List Char) : sliceFrom cs 0 = some cs := by
  cases cs <;> rfl

@[simp] theorem sliceTo_zero (cs : List Char) : sliceTo cs 0 = some [] := by
  cases cs <;> rfl

private theorem sliceFrom_cons_add (c : Char) (cs : List Char) (n : Nat) :
    sliceFrom (c :: cs) (c.utf8Size + n) = sliceFrom cs n := by
  have hc : 0 < c.utf8Size := c.utf8Size_pos
  obtain ⟨k, hk⟩ : ∃ k, c.utf8Size + n = k + 1 := ⟨c.utf8Size + n - 1, by omega⟩
  have hsub : k + 1 - c.utf8Size = n := by omega
  rw [hk, sliceFrom, if_pos (by omega), hsub]

private theorem sliceTo_cons_add (c : Char) (cs : List Char) (n : Nat) :
    sliceTo (c :: cs) (c.utf8Size + n) = (sliceTo cs n).map (c :: ·) := by
  have hc : 0 < c.utf8Size := c.utf8Size_pos
  obtain ⟨k, hk⟩ : ∃ k, c.utf8Size + n = k + 1 := ⟨c.utf8Size + n - 1, by omega⟩
  have hsub : k + 1 - c.utf8Size = n := by omega
  rw [hk, sliceTo, if_pos (by omega), hsub]

theorem sliceFrom_eq_some {cs suffix : List Char} {n : Nat} :
    sliceFrom cs n = some suffix ↔ ∃ taken, cs = taken ++ suffix ∧ utf8Len taken = n := by
  constructor
  · intro h
    induction cs generalizing n with
    | nil =>
      cases n with
      | zero => exact ⟨[], by simpa using h, rfl⟩
      | succ => simp [sliceFrom] at h
    | cons c _ ih =>
      cases n with
      | zero => exact ⟨[], by simpa using h, rfl⟩
      | succ =>
        rw [sliceFrom] at h
        split at h
        · obtain ⟨taken, rfl, hlen⟩ := ih h
          exact ⟨c :: taken, rfl, by simp only [utf8Len_cons]; omega⟩
        · cases h
  · rintro ⟨taken, rfl, rfl⟩
    induction taken with
    | nil => simp
    | cons _ _ ih => rw [cons_append, utf8Len_cons, sliceFrom_cons_add, ih]

theorem sliceTo_append (taken suffix : List Char) :
    sliceTo (taken ++ suffix) (utf8Len taken) = some taken := by
  induction taken with
  | nil => simp
  | cons _ _ ih => rw [cons_append, utf8Len_cons, sliceTo_cons_add, ih, Option.map_some]

def firstByte (cs : List Char) : Option UInt8 :=
  cs.head?.bind fun c => (String.utf8EncodeChar c).head?

theorem firstByte_ascii {c : Char} {cs : List Char} {b : UInt8}
    (h : firstByte (c :: cs) = some b) (hb : b.toNat < 0x80) :
    c.utf8Size = 1 ∧ b.toNat = c.toNat := by
  simp only [firstByte, head?_cons, Option.bind_some] at h
  have hc : c.toNat = c.val.toNat := rfl
  unfold String.utf8EncodeChar at h
  simp only at h
  split at h
  · rename_i hle
    simp only [head?_cons, Option.some.injEq] at h
    subst h
    refine ⟨?_, ?_⟩
    · simp only [Char.utf8Size]
      rw [if_pos]
      exact hle
    · rw [hc, UInt8.toNat_ofNat']
      omega
  · split at h
    · simp only [head?_cons, Option.some.injEq] at h
      subst h
      rw [UInt8.toNat_ofNat'] at hb
      omega
    · split at h
      · simp only [head?_cons, Option.some.injEq] at h
        subst h
        rw [UInt8.toNat_ofNat'] at hb
        omega
      · simp only [head?_cons, Option.some.injEq] at h
        subst h
        rw [UInt8.toNat_ofNat'] at hb
        omega

theorem firstByte_of_ascii {c : Char} (cs : List Char) (h : c.toNat < 0x80) :
    firstByte (c :: cs) = some (UInt8.ofNat c.toNat) := by
  have hc : c.toNat = c.val.toNat := rfl
  simp only [firstByte, head?_cons, Option.bind_some, String.utf8EncodeChar]
  rw [if_pos (by omega), head?_cons, hc]

def startsWith (s start : String) : Bool := start.toList.isPrefixOf s.toList

def endsWith (s last : String) : Bool := last.toList.isSuffixOf s.toList

theorem endsWith_ofList (s last : List Char) :
    endsWith (String.ofList s) (String.ofList last) = last.isSuffixOf s := by
  rw [endsWith, String.toList_ofList, String.toList_ofList]

def contains (s part : String) : Bool := s.toList.tails.any (fun rest => part.toList.isPrefixOf rest)

def replaceFirstIn (old new : List Char) : List Char → List Char
  | [] => if old = [] then new else []
  | c :: cs =>
      if old.isPrefixOf (c :: cs) then new ++ (c :: cs).drop old.length
      else c :: replaceFirstIn old new cs

def replaceFirst (s old new : String) : String :=
  String.ofList (replaceFirstIn old.toList new.toList s.toList)

theorem contains_of_infix {s part : String} {start rest : List Char}
    (whole : s.toList = start ++ part.toList ++ rest) : contains s part = true := by
  rw [contains, List.any_eq_true]
  refine ⟨part.toList ++ rest, ?_, List.isPrefixOf_iff_prefix.mpr (List.prefix_append _ _)⟩
  rw [List.mem_tails, whole, List.append_assoc]
  exact List.suffix_append _ _

theorem replaceFirstIn_suffix (old new start rest : List Char) (inhabited : old ≠ []) :
    rest <:+ replaceFirstIn old new (start ++ old ++ rest) := by
  induction start with
  | nil =>
    cases chars : old with
    | nil => exact absurd chars inhabited
    | cons c cs =>
      have front : (c :: cs).isPrefixOf (c :: (cs ++ rest)) = true :=
        List.isPrefixOf_iff_prefix.mpr ⟨rest, rfl⟩
      rw [List.nil_append, cons_append, replaceFirstIn, if_pos front, ← cons_append,
        List.drop_left]
      exact List.suffix_append new rest
  | cons d start ih =>
    rw [cons_append, cons_append, replaceFirstIn]
    split
    · rename_i front
      have whole : d :: (start ++ old ++ rest) = (d :: (start ++ old)) ++ rest := rfl
      have enough : old.length ≤ (d :: (start ++ old)).length := by
        rw [List.length_cons, List.length_append]
        omega
      rw [whole, List.drop_append_of_le_length enough, ← List.append_assoc]
      exact List.suffix_append _ rest
    · exact ih.trans (List.suffix_cons d _)

def splitAt (s : String) (separator : Char) : List String :=
  (s.toList.splitOn separator).map String.ofList

def hexByte (lower : Bool) (b : Nat) : List Char :=
  let digits := (if lower then "0123456789abcdef" else "0123456789ABCDEF").toList
  [digits.getD (b / 16 % 16) '0', digits.getD (b % 16) '0']

def hexDigit (c : Char) : Option Nat :=
  if '0' ≤ c && c ≤ '9' then some (c.toNat - 48)
  else if 'a' ≤ c && c ≤ 'f' then some (c.toNat - 87)
  else if 'A' ≤ c && c ≤ 'F' then some (c.toNat - 55)
  else none

def hexValue (digits : List Char) : Option Nat :=
  digits.foldlM (fun n c => (hexDigit c).map (fun d => n * 16 + d)) 0

abbrev Uuid : Type := BitVec 128

/-- The hyphenated lower-case form. -/
def Uuid.text (id : Uuid) : String :=
  let digits := (List.range 16).flatMap (fun i => hexByte true (id.toNat / 256 ^ (15 - i) % 256))
  String.ofList (digits.take 8 ++ '-' :: (digits.drop 8).take 4 ++ '-' :: (digits.drop 12).take 4 ++
    '-' :: (digits.drop 16).take 4 ++ '-' :: digits.drop 20)

/-- A decimal integer of 64 bits with an optional sign. -/
def parseI64 (s : String) : Option Int :=
  let negative := s.toList.head? = some '-'
  let digits := if negative || s.toList.head? = some '+' then s.toList.tail else s.toList
  if digits.isEmpty || !digits.all Char.isDigit then none
  else
    let n : Nat := digits.foldl (fun n c => n * 10 + (c.toNat - 48)) 0
    if negative then if n ≤ 2 ^ 63 then some (-(n : Int)) else none
    else if n < 2 ^ 63 then some n else none

def canonicalDecimal (bound : Nat) (s : String) : Option Nat :=
  let n := Nat.ofDigitChars 10 s.toList 0
  if n < bound ∧ toString n = s then some n else none

end RssMdm.Lib.Text
