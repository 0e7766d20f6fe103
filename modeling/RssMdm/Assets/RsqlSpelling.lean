/- module: Assets/RsqlSpelling
   source: crates/inventory-service/src/assets/rsql.rs
   digest: The spelling of an operand is read back as the operand and no spelling is shorter. -/

import RssMdm.Assets.Rsql

set_option autoImplicit false

namespace RssMdm.Assets.Rsql

open RssMdm.Inventory RssMdm.Lib RssMdm.Lib.Fallible RssMdm.Lib.Int64
open RssMdm.Lib.Json (decimal decimal_length_le decimal_numeric numeric parseI64_decimal)
open RssMdm.Lib.Text (isControl isWhitespace parseI64 utf8Len utf8Len_append utf8Len_cons utf8Len_nil
  length_le_utf8Len utf8ByteSize_eq)
open RssMdm.Query.Filter
open List (any_cons mem_append mem_cons mem_cons_of_mem mem_cons_self mem_singleton)
open Bool (and_eq_true not_eq_true' or_eq_false_iff or_eq_true)

section

theorem escaped_eq_escapable (c : Char) : escaped c = escapable c := by
  rw [Bool.eq_iff_iff]
  simp only [escaped, escapable, or_eq_true, decide_eq_true_eq]
  tauto

theorem plainChar_none {c : Char} : plainChar none c = (!escaped c && !unbare c) := by
  rw [Bool.eq_iff_iff]
  simp only [plainChar, bareForbidden, escaped, unbare, Option.isSome_none, Bool.false_or,
    and_eq_true, not_eq_true', or_eq_false_iff, decide_eq_false_iff_not, bne_iff_ne,
    ne_eq, reduceCtorEq, not_false_eq_true, and_true]
  tauto

variable {quote : Char}

theorem plainChar_quote {c : Char} :
    plainChar (some quote) c = (!isControl c && !(decide (c = '\\') || decide (c = quote))) := by
  rw [Bool.eq_iff_iff]
  simp only [plainChar, Option.isSome_some, Bool.true_or, and_eq_true, not_eq_true',
    or_eq_false_iff, decide_eq_false_iff_not, bne_iff_ne, ne_eq, Option.some.injEq, and_true]
  constructor
  · rintro ⟨⟨back, other⟩, control⟩
    exact ⟨control, back, fun same => other same.symm⟩
  · rintro ⟨control, back, other⟩
    exact ⟨⟨back, fun same => other same.symm⟩, control⟩

theorem unbare_of_escaped {c : Char} (h : escaped c = true) : unbare c = false := by
  simp only [escaped, or_eq_true, decide_eq_true_eq] at h
  rcases h with (((((rfl | rfl) | rfl) | rfl) | rfl) | rfl) | rfl <;> rfl

theorem bare_cons (c : Char) (text : List Char) :
    bare (c :: text) = (if escaped c then ['\\', c] else [c]) ++ bare text := rfl

variable {v : List Char}

theorem bare_escaped (h : v.any unbare = false) : Escaped none (bare v) v := by
  induction v with
  | nil => exact .nil
  | cons c _ ih =>
    rw [any_cons, or_eq_false_iff] at h
    obtain ⟨allowed, rest⟩ := h
    rw [bare_cons]
    by_cases named : escaped c = true
    · rw [if_pos named]
      exact .escape (escaped_eq_escapable c ▸ named) (ih rest)
    have itself : escaped c = false := by simpa using named
    rw [if_neg named]
    refine .plain ?_ (ih rest)
    rw [plainChar_none, allowed, itself]
    rfl

variable {text : List Char}

theorem bare_le (h : Escaped none text v) :
    v.any unbare = false ∧ utf8Len (bare v) ≤ utf8Len text := by
  induction h with
  | nil => exact ⟨rfl, le_rfl⟩
  | @plain _ _ _ plain _ ih =>
    obtain ⟨allowed, bound⟩ := ih
    rw [plainChar_none, and_eq_true, not_eq_true', not_eq_true'] at plain
    refine ⟨by rw [any_cons, plain.2, allowed]; rfl, ?_⟩
    rw [bare_cons, plain.1, utf8Len_append, utf8Len_cons]
    exact Nat.add_le_add_left bound _
  | @escape c _ _ named _ ih =>
    obtain ⟨allowed, bound⟩ := ih
    have named' : escaped c = true := escaped_eq_escapable c ▸ named
    refine ⟨by rw [any_cons, unbare_of_escaped named', allowed]; rfl, ?_⟩
    rw [bare_cons, if_pos named', utf8Len_append, utf8Len_cons, utf8Len_cons, utf8Len_cons,
      utf8Len_cons, utf8Len_nil]
    omega

/-- Between quotes, one pass puts the backslashes in. -/
def quotedBody (quote : Char) (text : List Char) : List Char :=
  text.flatMap (fun c => if c = '\\' ∨ c = quote then ['\\', c] else [c])

theorem quoted_eq (delimiter : isQuote quote = true) (text : List Char) :
    quoted quote text = quote :: (quotedBody quote text ++ [quote]) := by
  have other : quote ≠ '\\' := by
    rintro rfl
    cases delimiter
  have body : replaceChar quote ['\\', quote] (replaceChar '\\' ['\\', '\\'] text) =
      quotedBody quote text := by
    induction text with
    | nil => rfl
    | cons c text ih =>
      have inner : replaceChar '\\' ['\\', '\\'] (c :: text) =
          (if c = '\\' then ['\\', '\\'] else [c]) ++ replaceChar '\\' ['\\', '\\'] text := rfl
      have outer : ∀ xs ys : List Char, replaceChar quote ['\\', quote] (xs ++ ys) =
          replaceChar quote ['\\', quote] xs ++ replaceChar quote ['\\', quote] ys := by
        intro xs ys
        exact List.flatMap_append
      have whole : quotedBody quote (c :: text) =
          (if c = '\\' ∨ c = quote then ['\\', c] else [c]) ++ quotedBody quote text := rfl
      rw [inner, outer, ih, whole]
      congr 1
      by_cases back : c = '\\'
      · subst back
        have kept : ¬ '\\' = quote := fun same => other same.symm
        simp [replaceChar, kept]
      · by_cases same : c = quote
        · subst same
          simp [replaceChar, back]
        · simp [replaceChar, back, same]
  rw [quoted, body]

theorem quotedBody_escaped (delimiter : isQuote quote = true)
    (h : v.all (fun c => !isControl c) = true) : Escaped (some quote) (quotedBody quote v) v := by
  induction v with
  | nil => exact .nil
  | cons c v ih =>
    rw [List.all_cons, and_eq_true] at h
    obtain ⟨control, rest⟩ := h
    have whole : quotedBody quote (c :: v) =
        (if c = '\\' ∨ c = quote then ['\\', c] else [c]) ++ quotedBody quote v := rfl
    rw [whole]
    by_cases named : c = '\\' ∨ c = quote
    · rw [if_pos named]
      refine .escape ?_ (ih rest)
      rcases named with rfl | rfl
      · rfl
      · simp only [isQuote, or_eq_true, decide_eq_true_eq] at delimiter
        rcases delimiter with rfl | rfl <;> rfl
    · rw [if_neg named]
      refine .plain ?_ (ih rest)
      rw [plainChar_quote, control]
      simpa using named

theorem quotedBody_le (h : Escaped (some quote) text v) :
    utf8Len (quotedBody quote v) ≤ utf8Len text := by
  induction h with
  | nil => exact le_rfl
  | @plain c _ v plain _ ih =>
    have whole : quotedBody quote (c :: v) =
        (if c = '\\' ∨ c = quote then ['\\', c] else [c]) ++ quotedBody quote v := rfl
    rw [plainChar_quote, and_eq_true, not_eq_true', not_eq_true',
      or_eq_false_iff, decide_eq_false_iff_not, decide_eq_false_iff_not] at plain
    rw [whole, if_neg (not_or.mpr plain.2), utf8Len_append, utf8Len_cons]
    exact Nat.add_le_add_left ih _
  | @escape c _ v =>
    have whole : quotedBody quote (c :: v) =
        (if c = '\\' ∨ c = quote then ['\\', c] else [c]) ++ quotedBody quote v := rfl
    rw [whole, utf8Len_append, utf8Len_cons, utf8Len_cons]
    split
    · simp only [utf8Len_cons, utf8Len_nil]
      omega
    · simp only [utf8Len_cons, utf8Len_nil]
      omega

theorem shortest_spec {all : List (List Char)} (some : all ≠ []) :
    ∃ best, shortest all = .some best ∧ best ∈ all ∧ ∀ s ∈ all, utf8Len best ≤ utf8Len s := by
  have fold : ∀ (rest : List (List Char)) (best : List Char),
      (rest.foldl (fun best s => if utf8Len s < utf8Len best then s else best) best) ∈ best :: rest ∧
        ∀ s ∈ best :: rest, utf8Len (rest.foldl
          (fun best s => if utf8Len s < utf8Len best then s else best) best) ≤ utf8Len s := by
    intro rest
    induction rest with
    | nil =>
      intro best
      refine ⟨.head _, ?_⟩
      intro s mem
      rw [mem_singleton.mp mem]
      exact le_rfl
    | cons t _ ih =>
      intro best
      rw [List.foldl_cons]
      by_cases shorter : utf8Len t < utf8Len best
      · rw [if_pos shorter]
        obtain ⟨mem, least⟩ := ih t
        refine ⟨.tail _ mem, ?_⟩
        intro s among
        rcases mem_cons.mp among with rfl | among
        · exact Nat.le_trans (least t (.head _)) shorter.le
        · exact least s among
      · rw [if_neg shorter]
        obtain ⟨mem, least⟩ := ih best
        refine ⟨?_, ?_⟩
        · rcases mem_cons.mp mem with same | mem
          · rw [same]
            exact .head _
          · exact .tail _ (.tail _ mem)
        · intro s among
          rcases mem_cons.mp among with rfl | among
          · exact least s (.head _)
          · rcases mem_cons.mp among with rfl | among
            · exact Nat.le_trans (least best (.head _)) (not_lt.mp shorter)
            · exact least s (.tail _ among)
  cases all with
  | nil => exact absurd rfl some
  | cons s rest => exact ⟨_, rfl, fold rest s⟩

/-- The characters of the spelling that `operand` chooses for a text. -/
def spell (v : String) : List Char := (shortest (spellings v.toList)).getD []

theorem spellings_ne_nil (v : List Char) : spellings v ≠ [] := by
  simp [spellings]

theorem spelling_eq (v : String) : spelling v = .ok (String.ofList (spell v)) := by
  obtain ⟨best, chosen, -⟩ := shortest_spec (spellings_ne_nil v.toList)
  rw [spelling, spell, chosen]
  rfl

theorem spelled_of_mem {v : String} (ok : ValueOk v) {s : List Char} (h : s ∈ spellings v.toList) :
    Spelled s v := by
  have text : String.ofList v.toList = v := String.ofList_toList
  rw [spellings, mem_append] at h
  rcases h with bare' | among
  · split at bare'
    · rename_i allowed
      rw [and_eq_true, not_eq_true', not_eq_true'] at allowed
      rw [mem_singleton.mp bare']
      have spelled := Spelled.bare (by simpa using allowed.1) (bare_escaped allowed.2)
      rwa [text] at spelled
    · cases bare'
  · obtain ⟨quote, mem, rfl⟩ := List.mem_map.mp among
    have delimiter : isQuote quote = true := by
      rcases mem_cons.mp mem with rfl | mem
      · rfl
      · rw [mem_singleton.mp mem]
        rfl
    have spelled := Spelled.quoted delimiter (quotedBody_escaped delimiter ok.2)
    rw [text] at spelled
    rwa [quoted_eq delimiter]

theorem spelled_spell {v : String} (ok : ValueOk v) : Spelled (spell v) v := by
  obtain ⟨best, chosen, mem, -⟩ := shortest_spec (spellings_ne_nil v.toList)
  rw [spell, chosen]
  exact spelled_of_mem ok mem

theorem spell_le {v : String} (h : Spelled text v) :
    utf8Len (spell v) ≤ utf8Len text := by
  obtain ⟨best, chosen, -, least⟩ := shortest_spec (spellings_ne_nil v.toList)
  rw [spell, chosen]
  cases h with
  | @bare _ v nonempty chars =>
    obtain ⟨allowed, bound⟩ := bare_le chars
    refine Nat.le_trans (least (Rsql.bare v) ?_) bound
    rw [String.toList_ofList, spellings, mem_append]
    refine .inl ?_
    rw [if_pos]
    · exact mem_singleton.mpr rfl
    · rw [and_eq_true, not_eq_true', not_eq_true']
      exact ⟨by simpa using nonempty, allowed⟩
  | @quoted quote _ v delimiter chars =>
    have among : Rsql.quoted quote v ∈ spellings (String.ofList v).toList := by
      rw [String.toList_ofList, spellings, mem_append]
      refine .inr (List.mem_map_of_mem ?_)
      simp only [isQuote, or_eq_true, decide_eq_true_eq] at delimiter
      rcases delimiter with rfl | rfl
      · exact .head _
      · exact .tail _ (.head _)
    refine Nat.le_trans (least _ among) ?_
    rw [quoted_eq delimiter, utf8Len_cons, utf8Len_cons, utf8Len_append, utf8Len_append]
    have bound := quotedBody_le chars
    omega

end

theorem digit_codes {c : Char} (h : c.isDigit = true) : 48 ≤ c.toNat ∧ c.toNat ≤ 57 := by
  simp only [Char.isDigit, and_eq_true, decide_eq_true_eq, ge_iff_le,
    UInt32.le_iff_toNat_le] at h
  exact h

theorem numeric_plain {c : Char} (h : numeric c = true) :
    plainChar none c = true ∧ isControl c = false ∧ c.utf8Size = 1 := by
  have ascii : fieldChar c = true ∨ c = '-' ∨ c = '+' := by
    simp only [numeric, or_eq_true, decide_eq_true_eq] at h
    rcases h with ((((digit | rfl) | rfl) | rfl) | rfl) | rfl
    · exact .inl (by simp [fieldChar, Char.isAlphanum, digit])
    · exact .inr (.inl rfl)
    · exact .inr (.inr rfl)
    · exact .inl rfl
    · exact .inl rfl
    · exact .inl rfl
  have size : c.utf8Size = 1 := by
    rcases ascii with field | rfl | rfl
    · exact fieldChar_utf8Size field
    · rfl
    · rfl
  simp only [numeric, or_eq_true, decide_eq_true_eq] at h
  rcases h with ((((digit | rfl) | rfl) | rfl) | rfl) | rfl
  · obtain ⟨lo, hi⟩ := digit_codes digit
    have control : isControl c = false := by
      simp only [isControl, or_eq_false_iff, Bool.and_eq_false_iff, decide_eq_false_iff_not]
      omega
    have white : isWhitespace c = false := by
      simp only [isWhitespace, or_eq_false_iff, Bool.and_eq_false_iff, decide_eq_false_iff_not]
      omega
    have other : ∀ d : Char, d.toNat < 48 ∨ 57 < d.toNat → decide (c = d) = false := by
      intro d outside
      rw [decide_eq_false_iff_not]
      rintro rfl
      omega
    refine ⟨?_, control, size⟩
    rw [plainChar_none, escaped, unbare, white, control, other ',' (by decide), other ';' (by decide),
      other '(' (by decide), other ')' (by decide), other '\\' (by decide), other '\'' (by decide),
      other '"' (by decide), other '=' (by decide), other '!' (by decide), other '<' (by decide),
      other '>' (by decide), other '*' (by decide)]
    rfl
  all_goals exact ⟨by decide, by decide, size⟩

variable {text : List Char}

theorem utf8Len_eq_length (h : ∀ c ∈ text, c.utf8Size = 1) :
    utf8Len text = text.length := by
  induction text with
  | nil => rfl
  | cons c _ ih =>
    rw [utf8Len_cons, h c (.head _), ih (fun c mem => h c (.tail _ mem)),
      List.length_cons, Nat.add_comm]

theorem escaped_itself (h : ∀ c ∈ text, plainChar none c = true) :
    Escaped none text text := by
  induction text with
  | nil => exact .nil
  | cons c _ ih =>
    exact .plain (h c (.head _)) (ih (fun c mem => h c (.tail _ mem)))

theorem spell_word {v : List Char} {w : String} (some : v ≠ [])
    (plain : ∀ c ∈ v, plainChar none c = true) (shorter : utf8Len v ≤ utf8Len w.toList)
    (h : Spelled text w) : utf8Len (spell (String.ofList v)) ≤ utf8Len text :=
  Nat.le_trans (spell_le (.bare some (escaped_itself plain))) (shorter.trans h.value_le)

variable [Inventory.Environment] [Numerals]

structure NumberReadsBack (n : NotNan) : Prop where
  reads : Numerals.parse (numberText n) = some n
  value : ValueOk (numberText n)

/-- The printed text of an operand is read as the operand that was compiled. -/
structure Reprinted (kind : Kind) (v : String) (s : Scalar) (v' : String) : Prop where
  prints : scalarText s = .ok v'
  reads : scalar kind v' = .ok s
  value : ValueOk v'
  shorter : (∀ n, s ≠ .number n) → ∀ text, Spelled text v → utf8Len (spell v') ≤ utf8Len text

omit [Inventory.Environment] [Numerals] in
theorem integer_reprinted {v : String} {n : I64} (h : integer v = .ok n) (ok : ValueOk v) :
    integer (String.ofList (decimal n.val)) = .ok n ∧ ValueOk (String.ofList (decimal n.val)) ∧
      ∀ text, Spelled text v → utf8Len (spell (String.ofList (decimal n.val))) ≤ utf8Len text := by
  obtain ⟨some', digits⟩ := decimal_numeric n.val
  have parsed : parseI64 v = some n.val := by
    unfold integer at h
    split at h
    · rename_i m found
      cases h
      obtain ⟨k, read, fits⟩ := Option.bind_eq_some_iff.mp found
      rw [read, I64.ofInt_eq_some.mp fits]
    · cases h
  have size : utf8Len (decimal n.val) = (decimal n.val).length :=
    utf8Len_eq_length (fun c mem => (numeric_plain (digits c mem)).2.2)
  have short : utf8Len (decimal n.val) ≤ utf8Len v.toList := by
    rw [size]
    exact Nat.le_trans (decimal_length_le parsed) (length_le_utf8Len _)
  refine ⟨?_, ⟨?_, ?_⟩, ?_⟩
  · rw [integer, parseI64_decimal n.lo n.hi]
    have same : I64.ofInt n.val = some n := I64.ofInt_eq_some.mpr rfl
    rw [Option.bind_some, same]
  · have bytes := ok.1
    rw [utf8ByteSize_eq] at bytes ⊢
    rw [String.toList_ofList]
    exact short.trans bytes
  · rw [String.toList_ofList, List.all_eq_true]
    intro c mem
    rw [(numeric_plain (digits c mem)).2.1]
    rfl
  · intro text spelled
    exact spell_word some' (fun c mem => (numeric_plain (digits c mem)).1) short spelled

theorem scalar_reprinted {kind : Kind} {v : String} {s : Scalar} (h : scalar kind v = .ok s)
    (ok : ValueOk v) (number : ∀ n, s = .number n → NumberReadsBack n) :
    ∃ v', Reprinted kind v s v' := by
  obtain ⟨value, read, h⟩ := of_bind h
  obtain ⟨valid, h⟩ := of_check h
  cases h
  have again : ∀ {v' : String}, scalarValue kind v' = .ok s → scalar kind v' = .ok s := by
    intro v' same
    rw [scalar, same]
    exact check_bind_eq_ok.mpr ⟨valid, rfl⟩
  have itself : scalarText s = .ok v → scalar kind v = .ok s → Reprinted kind v s v := by
    intro prints reads
    exact ⟨prints, reads, ok, fun _ _ spelled => spell_le spelled⟩
  cases kind with
  | string =>
    cases read
    exact ⟨v, itself rfl (again rfl)⟩
  | integer | time =>
    obtain ⟨n, parsed, rfl⟩ := map_eq_ok.mp read
    obtain ⟨reads, value, shorter⟩ := integer_reprinted parsed ok
    exact ⟨_, rfl, again (map_eq_ok.mpr ⟨n, reads, rfl⟩), value, fun _ => shorter⟩
  | number =>
    simp only [scalarValue] at read
    split at read
    · rename_i n parsed
      cases read
      obtain ⟨reads, value⟩ := number n rfl
      exact ⟨_, rfl, again (by simp only [scalarValue, reads]), value, fun none => absurd rfl (none n)⟩
    · cases read
  | boolean =>
    simp only [scalarValue] at read
    split at read
    · rename_i same
      cases read
      subst same
      exact ⟨_, itself rfl (again rfl)⟩
    · split at read
      · rename_i same
        cases read
        subst same
        exact ⟨_, itself rfl (again (by simp [scalarValue]))⟩
      · cases read
  | array | object => cases read

end RssMdm.Assets.Rsql
