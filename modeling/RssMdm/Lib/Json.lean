/- module: Lib/Json
   generality: library
   digest: Compact JSON text; a text determines the value that was written. -/

import RssMdm.Lib.SelfDelimiting
import RssMdm.Lib.Text

set_option autoImplicit false
set_option linter.dupNamespace false

namespace RssMdm.Lib.Json

open Lib.SelfDelimiting Lib.Text
open List (all_eq_true append_assoc append_cancel_left cons_append length_append length_cons
  mem_cons mem_cons_self nil_append)

/-- A JSON value; a number is kept as the text that is written for it. -/
inductive Json where
  | null
  | bool (value : Bool)
  | number (text : List Char)
  | string (value : String)
  | array (items : List Json)
  | object (members : List (String × Json))

def shortEscapes : List (Char × Char) :=
  [('"', '"'), ('\\', '\\'), ('\x08', 'b'), ('\x0c', 'f'), ('\n', 'n'), ('\r', 'r'), ('\t', 't')]

def short (c : Char) : Option Char := (shortEscapes.find? (fun p => p.1 = c)).map Prod.snd

/-- Quotes, backslashes and control characters are escaped, all else stands for itself. -/
def escape (c : Char) : List Char :=
  match short c with
  | some e => ['\\', e]
  | none => if c.toNat < 0x20 then '\\' :: 'u' :: '0' :: '0' :: hexByte true c.toNat else [c]

def quoted (s : String) : List Char := '"' :: (s.toList.flatMap escape ++ ['"'])

theorem mem_shortEscapes {c e : Char} (h : short c = some e) : (c, e) ∈ shortEscapes := by
  obtain ⟨p, found, rfl⟩ := Option.map_eq_some_iff.mp h
  have same : p.1 = c := by simpa using List.find?_some found
  exact same ▸ List.mem_of_find?_eq_some found

theorem short_injective {a b e : Char} (ha : short a = some e) (hb : short b = some e) : a = b := by
  have apart : ∀ p ∈ shortEscapes, ∀ q ∈ shortEscapes, p.2 = q.2 → p.1 = q.1 := by decide
  exact apart _ (mem_shortEscapes ha) _ (mem_shortEscapes hb) rfl

theorem short_ne_u {a : Char} : short a ≠ some 'u' := by
  intro h
  have none : ∀ p ∈ shortEscapes, p.2 ≠ 'u' := by decide
  exact none _ (mem_shortEscapes h) rfl

theorem ne_backslash_of_plain {c : Char} (h : short c = none) : c ≠ '\\' ∧ c ≠ '"' := by
  constructor
  · rintro rfl
    cases h
  · rintro rfl
    cases h

theorem hexByte_injective {a b : Char} (ha : a.toNat < 0x20) (hb : b.toNat < 0x20)
    (h : hexByte true a.toNat = hexByte true b.toNat) : a = b := by
  have codes : ∀ m < 0x20, ∀ n < 0x20, hexByte true m = hexByte true n → m = n := by decide
  exact Char.toNat_inj.mp (codes _ ha _ hb h)

theorem isSelfDelimiting_escape : IsSelfDelimiting Set.univ escape := by
  intro a _ b _ r s h
  unfold escape at h
  -- An escape starts with a backslash, and what follows the backslash tells the three forms apart.
  cases sa : short a with
  | some =>
    cases sb : short b with
    | some =>
      simp only [sa, sb, cons_append, nil_append, List.cons.injEq, true_and] at h
      exact ⟨short_injective sa (h.1 ▸ sb), h.2⟩
    | none =>
      simp only [sa, sb] at h
      split at h
      · simp only [cons_append, nil_append, List.cons.injEq, true_and] at h
        exact absurd (h.1 ▸ sa) short_ne_u
      · simp only [cons_append, nil_append, List.cons.injEq] at h
        exact absurd h.1.symm (ne_backslash_of_plain sb).1
  | none =>
    cases sb : short b with
    | some =>
      simp only [sa, sb] at h
      split at h
      · simp only [cons_append, nil_append, List.cons.injEq, true_and] at h
        exact absurd (h.1 ▸ sb) short_ne_u
      · simp only [cons_append, nil_append, List.cons.injEq] at h
        exact absurd h.1 (ne_backslash_of_plain sa).1
    | none =>
      simp only [sa, sb] at h
      split at h <;> split at h
      · rename_i ha hb
        simp only [cons_append, List.cons.injEq, true_and] at h
        obtain ⟨same, rest⟩ := List.append_inj h (by simp [hexByte])
        exact ⟨hexByte_injective ha hb same, rest⟩
      · simp only [cons_append, nil_append, List.cons.injEq] at h
        exact absurd h.1.symm (ne_backslash_of_plain sb).1
      · simp only [cons_append, nil_append, List.cons.injEq] at h
        exact absurd h.1 (ne_backslash_of_plain sa).1
      · simp only [cons_append, nil_append, List.cons.injEq] at h
        exact h

theorem escape_head (c : Char) : ∃ d rest, escape c = d :: rest ∧ d ≠ '"' := by
  unfold escape
  cases sc : short c with
  | some e => exact ⟨'\\', [e], rfl, by decide⟩
  | none =>
    by_cases control : c.toNat < 0x20
    · exact ⟨'\\', _, if_pos control, by decide⟩
    · exact ⟨c, [], if_neg control, (ne_backslash_of_plain sc).2⟩

theorem isSelfDelimiting_quoted : IsSelfDelimiting Set.univ quoted := by
  intro a _ b _ r s h
  simp only [quoted, cons_append, List.cons.injEq, true_and] at h
  obtain ⟨same, rest⟩ := isSelfDelimiting_escape.terminated '"' escape_head a.toList
    (fun _ _ => trivial) b.toList (fun _ _ => trivial) r s h
  exact ⟨String.toList_inj.mp same, rest⟩

def numeric (c : Char) : Bool :=
  c.isDigit || c = '-' || c = '+' || c = '.' || c = 'e' || c = 'E'

def decimal (n : Int) : List Char :=
  if n < 0 then '-' :: Nat.toDigits 10 n.natAbs else Nat.toDigits 10 n.natAbs

theorem decimal_injective {m n : Int} (h : decimal m = decimal n) : m = n := by
  have digits : ∀ {a b : Nat}, Nat.toDigits 10 a = Nat.toDigits 10 b → a = b := by
    intro a b same
    rw [← Nat.ofDigitChars_toDigits (n := a) (b := 10) (by decide) (by decide), same,
      Nat.ofDigitChars_toDigits (by decide) (by decide)]
  have signless : ∀ (a b : Nat), '-' :: Nat.toDigits 10 a ≠ Nat.toDigits 10 b := by
    intro a b same
    have digit : '-'.isDigit = true :=
      Nat.isDigit_of_mem_toDigits (by decide) (by decide) (same ▸ mem_cons_self)
    cases digit
  unfold decimal at h
  split at h <;> split at h
  · have := digits (List.cons.inj h).2
    omega
  · exact absurd h (signless _ _)
  · exact absurd h.symm (signless _ _)
  · have := digits h
    omega

theorem decimal_numeric (n : Int) : decimal n ≠ [] ∧ ∀ c ∈ decimal n, numeric c = true := by
  have digits : ∀ c ∈ Nat.toDigits 10 n.natAbs, numeric c = true := by
    intro c mem
    have digit : c.isDigit = true := Nat.isDigit_of_mem_toDigits (by decide) (by decide) mem
    simp [numeric, digit]
  unfold decimal
  split
  · refine ⟨List.cons_ne_nil _ _, ?_⟩
    intro c mem
    rcases mem_cons.mp mem with rfl | mem
    · rfl
    · exact digits c mem
  · exact ⟨Nat.toDigits_ne_nil, digits⟩

theorem foldl_digits (digits : List Char) :
    digits.foldl (fun n c => n * 10 + (c.toNat - 48)) 0 = Nat.ofDigitChars 10 digits 0 := by
  rw [Nat.ofDigitChars_eq_foldl]
  have step : (fun (n : Nat) (c : Char) => n * 10 + (c.toNat - 48)) =
      fun sofar c => 10 * sofar + (c.toNat - '0'.toNat) := by
    funext n c
    rw [Nat.mul_comm]
    rfl
  rw [step]

theorem ofDigitChars_lt {digits : List Char} (h : ∀ c ∈ digits, c.isDigit = true) :
    Nat.ofDigitChars 10 digits 0 < 10 ^ digits.length := by
  induction digits with
  | nil => decide
  | cons c digits ih =>
    have digit : c.isDigit = true := h c (.head _)
    have small : c.toNat - '0'.toNat ≤ 9 := by
      simp only [Char.isDigit, Bool.and_eq_true, decide_eq_true_eq, ge_iff_le,
        UInt32.le_iff_toNat_le] at digit
      have value : c.val.toNat = c.toNat := rfl
      have zero : '0'.toNat = 48 := rfl
      have top : ('9'.val).toNat = 57 := rfl
      omega
    have rest := ih (fun c mem => h c (.tail _ mem))
    rw [Nat.ofDigitChars_cons, Nat.ofDigitChars_eq_ofDigitChars_zero, length_cons, Nat.pow_succ]
    have bound : 10 ^ digits.length * (10 * 0 + (c.toNat - '0'.toNat)) ≤ 10 ^ digits.length * 9 :=
      Nat.mul_le_mul_left _ (by omega)
    omega

theorem parseI64_decimal {n : Int} (lo : -2 ^ 63 ≤ n) (hi : n < 2 ^ 63) :
    parseI64 (String.ofList (decimal n)) = some n := by
  have digit : (Nat.toDigits 10 n.natAbs).all Char.isDigit = true :=
    all_eq_true.mpr (fun c mem => Nat.isDigit_of_mem_toDigits (by decide) (by decide) mem)
  have some' : (Nat.toDigits 10 n.natAbs).isEmpty = false := by
    rw [List.isEmpty_eq_false_iff]
    exact Nat.toDigits_ne_nil
  have value : Nat.ofDigitChars 10 (Nat.toDigits 10 n.natAbs) 0 = n.natAbs :=
    Nat.ofDigitChars_toDigits (by decide) (by decide)
  unfold parseI64 decimal
  rw [String.toList_ofList]
  by_cases negative : n < 0
  · simp only [negative, if_true, List.head?_cons, decide_true, Bool.true_or, List.tail_cons, some',
      digit, Bool.not_true, Bool.or_self, Bool.false_eq_true, if_false, foldl_digits, value]
    rw [if_pos (by omega)]
    congr 1
    omega
  · obtain ⟨c, rest, cons⟩ : ∃ c rest, Nat.toDigits 10 n.natAbs = c :: rest := by
      cases h : Nat.toDigits 10 n.natAbs with
      | nil => exact absurd h Nat.toDigits_ne_nil
      | cons c rest => exact ⟨c, rest, rfl⟩
    have first : c.isDigit = true := by
      rw [cons] at digit
      exact (all_eq_true.mp digit) c (.head _)
    have minus : c ≠ '-' := by
      rintro rfl
      cases first
    have plus : c ≠ '+' := by
      rintro rfl
      cases first
    have unsigned : (Nat.toDigits 10 n.natAbs).head? = some c := by rw [cons, List.head?_cons]
    simp only [negative, if_false, unsigned, Option.some.injEq, minus, plus, decide_false, Bool.or_self,
      Bool.false_eq_true, some', digit, Bool.not_true, foldl_digits, value]
    rw [if_pos (by omega)]
    congr 1
    omega

theorem decimal_length_le {s : String} {n : Int} (h : parseI64 s = some n) :
    (decimal n).length ≤ s.toList.length := by
  unfold parseI64 at h
  generalize s.toList = text at h
  simp only at h
  have bounded : ∀ {digits : List Char} {k : Nat}, digits.isEmpty = false → digits.all Char.isDigit = true →
      digits.foldl (fun n c => n * 10 + (c.toNat - 48)) 0 = k →
      (Nat.toDigits 10 k).length ≤ digits.length := by
    intro digits k some' all value
    have positive : 0 < digits.length := by
      rw [List.isEmpty_eq_false_iff] at some'
      exact List.length_pos_of_ne_nil some'
    rw [Nat.length_toDigits_le_iff (by decide) positive, ← value, foldl_digits]
    exact ofDigitChars_lt (all_eq_true.mp all)
  generalize digitsEq : (if (decide (text.head? = some '-') || decide (text.head? = some '+')) = true
    then text.tail else text) = digits at h
  have within : digits.length ≤ text.length := by
    rw [← digitsEq]
    split
    · exact List.length_tail ▸ Nat.sub_le _ _
    · exact le_rfl
  split at h
  · cases h
  rename_i proper
  rw [Bool.or_eq_true, not_or, Bool.not_eq_true, Bool.not_eq_true', Bool.not_eq_false] at proper
  have short := bounded proper.1 proper.2 rfl
  generalize (List.foldl (fun n c => n * 10 + (c.toNat - 48)) 0 digits) = k at h short
  unfold decimal
  split at h
  · rename_i negative
    have signed : text.head? = some '-' := by simpa using negative
    obtain ⟨rest, rfl⟩ := List.head?_eq_some_iff.mp signed
    have rest' : rest = digits := by simpa using digitsEq
    subst rest'
    split at h
    · cases h
      rw [Int.natAbs_neg, Int.natAbs_natCast]
      split
      · rw [length_cons, length_cons]
        omega
      · rw [length_cons]
        omega
    · cases h
  · split at h
    · cases h
      rw [if_neg (Int.not_lt.mpr (Int.natCast_nonneg k)), Int.natAbs_natCast]
      exact short.trans within
    · cases h

mutual

def write : Json → List Char
  | .null => "null".toList
  | .bool true => "true".toList
  | .bool false => "false".toList
  | .number text => text
  | .string s => quoted s
  | .array [] => ['[', ']']
  | .array (a :: rest) => '[' :: (write a ++ writeItems rest)
  | .object [] => ['\x7b', '\x7d']
  | .object ((k, a) :: rest) => '\x7b' :: (quoted k ++ ':' :: (write a ++ writeMembers rest))

def writeItems : List Json → List Char
  | [] => [']']
  | a :: rest => ',' :: (write a ++ writeItems rest)

def writeMembers : List (String × Json) → List Char
  | [] => ['\x7d']
  | (k, a) :: rest => ',' :: (quoted k ++ ':' :: (write a ++ writeMembers rest))

end

def bytes (a : Json) : List UInt8 := asBytes (String.ofList (write a))

mutual

/-- Every number is a text of numeric characters. -/
def Plain : Json → Prop
  | .number text => text ≠ [] ∧ ∀ c ∈ text, numeric c = true
  | .array items => PlainItems items
  | .object members => PlainMembers members
  | _ => True

def PlainItems : List Json → Prop
  | [] => True
  | a :: rest => Plain a ∧ PlainItems rest

def PlainMembers : List (String × Json) → Prop
  | [] => True
  | (_, a) :: rest => Plain a ∧ PlainMembers rest

end

/-- No number goes on in the text. -/
def Ends (r : List Char) : Prop := ∀ c ∈ r.head?, numeric c = false

/-- What the first character of a text says about the value. -/
def leading (c : Char) : Nat :=
  if c = 'n' then 0
  else if c = 't' then 1
  else if c = 'f' then 2
  else if c = '"' then 3
  else if c = '[' then 4
  else if c = '\x7b' then 5
  else if numeric c then 6
  else 7

def form : Json → Nat
  | .null => 0
  | .bool true => 1
  | .bool false => 2
  | .string _ => 3
  | .array _ => 4
  | .object _ => 5
  | .number _ => 6

theorem leading_of_numeric {c : Char} (h : numeric c = true) : leading c = 6 := by
  have others : ∀ d ∈ ['n', 't', 'f', '"', '[', '\x7b'], c ≠ d := by
    rintro d mem rfl
    have none : ∀ d ∈ ['n', 't', 'f', '"', '[', '\x7b'], numeric d = false := by
      simp only [List.forall_mem_cons]
      exact ⟨rfl, rfl, rfl, rfl, rfl, rfl, List.forall_mem_nil _⟩
    rw [none _ mem] at h
    cases h
  simp only [mem_cons, List.not_mem_nil, or_false, forall_eq_or_imp, forall_eq] at others
  simp [leading, others, h]

variable {a : Json}

theorem write_head (plain : Plain a) :
    ∃ c rest, write a = c :: rest ∧ leading c = form a := by
  match a, plain with
  | .null, _ | .bool true, _ | .bool false, _ => exact ⟨_, _, rfl, rfl⟩
  | .number [], plain => exact absurd rfl plain.1
  | .number (c :: text), plain =>
    exact ⟨c, text, rfl, leading_of_numeric (plain.2 c (.head _))⟩
  | .string s, _ | .array [], _ | .array (a :: rest), _ | .object [], _
  | .object ((k, a) :: rest), _ => exact ⟨_, _, rfl, rfl⟩

variable {r s : List Char}

theorem write_ne_close (plain : Plain a) : ']' :: r ≠ write a ++ s := by
  obtain ⟨c, rest, first, lead⟩ := write_head plain
  rw [first]
  intro h
  have close : leading ']' = form a := (List.cons.inj h).1 ▸ lead
  have none : ∀ b : Json, form b ≠ 7 := by
    rintro (_ | ⟨_ | _⟩ | _ | _ | _ | _) <;> simp [form]
  exact none a close.symm

theorem form_eq {b : Json} (pa : Plain a) (pb : Plain b) (h : write a ++ r = write b ++ s) :
    form a = form b := by
  obtain ⟨c, rest, first, lead⟩ := write_head pa
  obtain ⟨c', rest', first', lead'⟩ := write_head pb
  rw [first, first'] at h
  rw [← lead, ← lead', (List.cons.inj h).1]

theorem number_split {text text' : List Char} (ht : ∀ c ∈ text, numeric c = true)
    (ht' : ∀ c ∈ text', numeric c = true) (hr : Ends r) (hs : Ends s) (h : text ++ r = text' ++ s) :
    text = text' ∧ r = s := by
  have taken : ∀ {t u : List Char}, (∀ c ∈ t, numeric c = true) → Ends u →
      (t ++ u).takeWhile numeric = t := by
    intro t u digits ends
    rw [List.takeWhile_append_of_pos digits]
    cases u with
    | nil => simp
    | cons c => simp [ends c rfl]
  have same : text = text' := by
    rw [← taken ht hr, h, taken ht' hs]
  subst same
  exact ⟨rfl, append_cancel_left h⟩

theorem ends_items (items : List Json) (r : List Char) : Ends (writeItems items ++ r) := by
  cases items with
  | nil | cons =>
    rintro c ⟨⟩
    rfl

theorem ends_members (members : List (String × Json)) (r : List Char) :
    Ends (writeMembers members ++ r) := by
  cases members with
  | nil | cons =>
    rintro c ⟨⟩
    rfl

mutual

theorem write_split (a b : Json) (pa : Plain a) (pb : Plain b) {r s : List Char} (hr : Ends r)
    (hs : Ends s) (h : write a ++ r = write b ++ s) : a = b ∧ r = s := by
  match a, b, pa, pb, form_eq pa pb h with
  | .null, .null, _, _, _
  | .bool true, .bool true, _, _, _
  | .bool false, .bool false, _, _, _ => exact ⟨rfl, append_cancel_left h⟩
  | .number text, .number text', pa, pb, _ =>
    obtain ⟨rfl, rest⟩ := number_split pa.2 pb.2 hr hs h
    exact ⟨rfl, rest⟩
  | .string v, .string w, _, _, _ =>
    obtain ⟨rfl, rest⟩ := isSelfDelimiting_quoted v trivial w trivial r s h
    exact ⟨rfl, rest⟩
  | .array [], .array [], _, _, _ => exact ⟨rfl, append_cancel_left h⟩
  | .array [], .array (b :: bs), _, pb, _ =>
    simp only [write, cons_append, nil_append, append_assoc, List.cons.injEq,
      true_and] at h
    exact absurd h (write_ne_close pb.1)
  | .array (a :: as), .array [], pa, _, _ =>
    simp only [write, cons_append, nil_append, append_assoc, List.cons.injEq,
      true_and] at h
    exact absurd h.symm (write_ne_close pa.1)
  | .array (a :: as), .array (b :: bs), pa, pb, _ =>
    simp only [write, cons_append, append_assoc, List.cons.injEq, true_and] at h
    obtain ⟨rfl, rest⟩ := write_split a b pa.1 pb.1 (ends_items _ _) (ends_items _ _) h
    obtain ⟨rfl, later⟩ := writeItems_split as bs pa.2 pb.2 rest
    exact ⟨rfl, later⟩
  | .object [], .object [], _, _, _ => exact ⟨rfl, append_cancel_left h⟩
  | .object [], .object ((k, b) :: bs), _, _, _ | .object ((k, a) :: as), .object [], _, _, _ =>
    simp [write, quoted] at h
  | .object ((k, a) :: as), .object ((k', b) :: bs), pa, pb, _ =>
    simp only [write, cons_append, append_assoc, List.cons.injEq, true_and] at h
    obtain ⟨rfl, colon⟩ := isSelfDelimiting_quoted k trivial k' trivial _ _ h
    obtain ⟨rfl, rest⟩ := write_split a b pa.1 pb.1 (ends_members _ _) (ends_members _ _)
      (List.cons.inj colon).2
    obtain ⟨rfl, later⟩ := writeMembers_split as bs pa.2 pb.2 rest
    exact ⟨rfl, later⟩

theorem writeItems_split (as bs : List Json) (pa : PlainItems as) (pb : PlainItems bs)
    {r s : List Char} (h : writeItems as ++ r = writeItems bs ++ s) : as = bs ∧ r = s := by
  match as, bs, pa, pb with
  | [], [], _, _ => exact ⟨rfl, append_cancel_left h⟩
  | [], b :: bs, _, _ | a :: as, [], _, _ => simp [writeItems] at h
  | a :: as, b :: bs, pa, pb =>
    simp only [writeItems, cons_append, append_assoc, List.cons.injEq, true_and] at h
    obtain ⟨rfl, rest⟩ := write_split a b pa.1 pb.1 (ends_items _ _) (ends_items _ _) h
    obtain ⟨rfl, later⟩ := writeItems_split as bs pa.2 pb.2 rest
    exact ⟨rfl, later⟩

theorem writeMembers_split (as bs : List (String × Json)) (pa : PlainMembers as)
    (pb : PlainMembers bs) {r s : List Char} (h : writeMembers as ++ r = writeMembers bs ++ s) :
    as = bs ∧ r = s := by
  match as, bs, pa, pb with
  | [], [], _, _ => exact ⟨rfl, append_cancel_left h⟩
  | [], (k, b) :: bs, _, _ | (k, a) :: as, [], _, _ => simp [writeMembers] at h
  | (k, a) :: as, (k', b) :: bs, pa, pb =>
    simp only [writeMembers, cons_append, append_assoc, List.cons.injEq, true_and] at h
    obtain ⟨rfl, colon⟩ := isSelfDelimiting_quoted k trivial k' trivial _ _ h
    obtain ⟨rfl, rest⟩ := write_split a b pa.1 pb.1 (ends_members _ _) (ends_members _ _)
      (List.cons.inj colon).2
    obtain ⟨rfl, later⟩ := writeMembers_split as bs pa.2 pb.2 rest
    exact ⟨rfl, later⟩

end

theorem bytes_injective {b : Json} (pa : Plain a) (pb : Plain b) (h : bytes a = bytes b) :
    a = b := by
  have same : write a = write b := String.ofList_injective (asBytes_injective h)
  have ends : Ends [] := by
    rintro c ⟨⟩
  exact (write_split a b pa pb ends ends (by rw [same])).1

theorem length_le_bytes (a : Json) : (write a).length ≤ (bytes a).length := by
  rw [bytes, asBytes_length, utf8ByteSize_eq, String.toList_ofList]
  exact length_le_utf8Len _

theorem length_le_string (s : String) : s.toList.length ≤ (write (.string s)).length := by
  have each : ∀ c, 1 ≤ (escape c).length := by
    intro c
    obtain ⟨d, rest, is, -⟩ := escape_head c
    rw [is, length_cons]
    omega
  have chars : ∀ l : List Char, l.length ≤ (l.flatMap escape).length := by
    intro l
    induction l with
    | nil => exact Nat.zero_le _
    | cons c =>
      have one := each c
      rw [List.flatMap_cons, length_append, length_cons]
      omega
  have inner := chars s.toList
  rw [write, quoted, length_cons, length_append]
  omega

theorem length_le_items {items : List Json} (mem : a ∈ items) :
    (write a).length ≤ (writeItems items).length := by
  induction items with
  | nil => cases mem
  | cons _ _ ih =>
    rw [writeItems, length_cons, length_append]
    rcases mem_cons.mp mem with rfl | later
    · omega
    · have below := ih later
      omega

theorem length_le_array {items : List Json} (mem : a ∈ items) :
    (write a).length ≤ (write (.array items)).length := by
  cases items with
  | nil => cases mem
  | cons =>
    have below := length_le_items mem
    rw [writeItems, length_cons] at below
    rw [write, length_cons]
    exact below

variable {members : List (String × Json)}

theorem length_le_members {k : String} (mem : (k, a) ∈ members) :
    (write a).length ≤ (writeMembers members).length := by
  induction members with
  | nil => cases mem
  | cons m _ ih =>
    obtain ⟨j, b⟩ := m
    rw [writeMembers, length_cons, length_append, length_cons, length_append]
    rcases mem_cons.mp mem with same | later
    · cases same
      omega
    · have below := ih later
      omega

theorem length_le_object {k : String} (mem : (k, a) ∈ members) :
    (write a).length ≤ (write (.object members)).length := by
  cases members with
  | nil => cases mem
  | cons m =>
    obtain ⟨j, b⟩ := m
    have below := length_le_members mem
    rw [writeMembers, length_cons] at below
    rw [write, length_cons]
    exact below

end RssMdm.Lib.Json
