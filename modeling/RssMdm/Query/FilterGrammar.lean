/- module: Query/FilterGrammar
   source: crates/query/src/parser.rs
   digest: The grammar of filter texts, every spelling included, and the parser reading it. -/

import RssMdm.Query.FilterBounds

set_option autoImplicit false

namespace RssMdm.Query.Filter

open Lib.Fallible Lib.Outcome Lib.Text
open List (append_assoc append_nil cons_append head?_cons length_append length_cons map_cons
  mem_cons mem_cons_self nil_append)
open Bool (and_eq_true false_eq_true not_eq_true' or_eq_false_iff or_eq_true)

namespace Parser

def after (p : Parser) (text : List Char) (nodes setItems : Nat) : Parser :=
  { input := p.input, offset := p.offset + utf8Len text, nodes := p.nodes + nodes,
    setItems := p.setItems + setItems }

theorem At.after {p : Parser} {text rest : List Char} (h : p.At (text ++ rest))
    (nodes setItems : Nat) : (p.after text nodes setItems).At rest :=
  h.advance

theorem advance_eq_after (p : Parser) (text : List Char) :
    p.advance (utf8Len text) = p.after text 0 0 := rfl

theorem advance_char_eq_after (p : Parser) (c : Char) :
    p.advance c.utf8Size = p.after [c] 0 0 := rfl

@[simp] theorem after_after (p : Parser) (s t : List Char) (m n i j : Nat) :
    (p.after s m i).after t n j = p.after (s ++ t) (m + n) (i + j) := by
  simp [Parser.after, Nat.add_assoc]

@[simp] theorem after_nil (p : Parser) : p.after [] 0 0 = p := rfl

theorem eat_eq_ok {p p' : Parser} {c : Char} {cs : List Char} {eaten : Bool} (h : p.At cs)
    (eats : p.eat c = .ok (eaten, p')) :
    (eaten = true ∧ p' = p.after [c] 0 0 ∧ ∃ rest, cs = c :: rest) ∨
      (eaten = false ∧ p' = p ∧ cs.head? ≠ some c) := by
  by_cases head : cs.head? = some c
  · obtain ⟨rest, rfl⟩ := List.head?_eq_some_iff.mp head
    rw [eat_cons h] at eats
    cases eats
    exact .inl ⟨rfl, rfl, rest, rfl⟩
  · rw [eat_other h head] at eats
    cases eats
    exact .inr ⟨rfl, rfl, head⟩

end Parser

section

/-- A character that stands for itself inside a value. -/
def plainChar (quote : Option Char) (c : Char) : Bool :=
  c != '\\' && quote != some c && !isControl c &&
    (quote.isSome || !(bareForbidden c || c = ',' || c = ';' || c = ')' || c = '*'))

/-- The characters of a value between the given quotes, or bare. -/
inductive Escaped (quote : Option Char) : List Char → List Char → Prop where
  | nil : Escaped quote [] []
  | plain {c : Char} {text v : List Char} (plain : plainChar quote c = true)
      (rest : Escaped quote text v) : Escaped quote (c :: text) (c :: v)
  | escape {c : Char} {text v : List Char} (named : escapable c = true)
      (rest : Escaped quote text v) : Escaped quote ('\\' :: c :: text) (c :: v)

/-- The texts that are read as a value. -/
inductive Spelled : List Char → String → Prop where
  | bare {text v : List Char} (nonempty : v ≠ []) (chars : Escaped none text v) :
      Spelled text (String.ofList v)
  | quoted {quote : Char} {text v : List Char} (delimiter : isQuote quote = true)
      (chars : Escaped (some quote) text v) : Spelled (quote :: (text ++ [quote])) (String.ofList v)

theorem escapable_not_control {c : Char} (h : escapable c = true) : isControl c = false := by
  simp only [escapable, or_eq_true, decide_eq_true_eq] at h
  rcases h with (((((rfl | rfl) | rfl) | rfl) | rfl) | rfl) | rfl <;> rfl

theorem escapable_ne_star {c : Char} (h : escapable c = true) : c ≠ '*' := by
  rintro rfl
  cases h

variable {quote : Option Char} {v : List Char}

theorem Escaped.append {s t w : List Char} (h : Escaped quote s v) (h' : Escaped quote t w) :
    Escaped quote (s ++ t) (v ++ w) := by
  induction h with
  | nil => exact h'
  | plain plain _ ih => exact .plain plain ih
  | escape named _ ih => exact .escape named ih

variable {p : Parser} {text : List Char}

theorem valueLoop_escaped (delimiter : ∀ q, quote = some q → isQuote q = true)
    (chars : Escaped quote text v) (result : List Char) (closed : Bool) {fuel : Nat}
    {rest : List Char} (h : p.At (text ++ rest)) (hfuel : (text ++ rest).length < fuel)
    (hbytes : utf8Len (result ++ v) ≤ 1024) :
    ∃ fuel', rest.length < fuel' ∧ valueLoop quote fuel result closed p =
      valueLoop quote fuel' (result ++ v) closed (p.after text 0 0) := by
  induction chars generalizing fuel result p with
  | nil => exact ⟨fuel, hfuel, by simp⟩
  | @plain c text v plain _ ih =>
    obtain ⟨fuel, rfl⟩ : ∃ n, fuel = n + 1 := ⟨fuel - 1, by omega⟩
    have happend : result ++ c :: v = result ++ [c] ++ v := by simp
    have hroom : ¬utf8Len result + c.utf8Size > 1024 := by
      simp only [utf8Len_append, utf8Len_cons] at hbytes
      omega
    rw [happend] at hbytes ⊢
    simp only [cons_append] at h hfuel
    have hshort : (text ++ rest).length < fuel := by
      simp only [length_cons] at hfuel
      omega
    obtain ⟨fuel', hfuel', hrest⟩ := ih (result ++ [c]) h.advance_char hshort hbytes
    refine ⟨fuel', hfuel', ?_⟩
    simp only [plainChar, and_eq_true, bne_iff_ne, ne_eq, not_eq_true'] at plain
    obtain ⟨⟨⟨hback, hquoted⟩, hcontrol⟩, hbare⟩ := plain
    have hstop : (quote.isNone && (c = ',' || c = ';' || c = ')')) = false := by
      cases quote with
      | none =>
        simp only [Option.isSome_none, Bool.false_or, not_eq_true', or_eq_false_iff,
          decide_eq_false_iff_not] at hbare
        simp [hbare.1.1.1.2, hbare.1.1.2, hbare.1.2]
      | some => rfl
    have hallowed : (quote.isNone && bareForbidden c) = false := by
      cases quote with
      | none =>
        simp only [Option.isSome_none, Bool.false_or, not_eq_true', or_eq_false_iff]
          at hbare
        exact hbare.1.1.1.1
      | some => rfl
    have hstar : (quote.isNone && decide (c = '*')) = false := by
      cases quote with
      | none =>
        simp only [Option.isSome_none, Bool.false_or, not_eq_true', or_eq_false_iff]
          at hbare
        exact hbare.2
      | some => rfl
    rw [valueLoop, h.rest]
    simp only [ok_bind, head?_cons, hquoted, if_false, hstop, false_eq_true, valueChar,
      hback, hallowed, hcontrol, hstar, Bool.or_self, hroom]
    rw [hrest]
    simp [Parser.advance_char_eq_after]
  | @escape c text v named _ ih =>
    obtain ⟨fuel, rfl⟩ : ∃ n, fuel = n + 1 := ⟨fuel - 1, by omega⟩
    have happend : result ++ c :: v = result ++ [c] ++ v := by simp
    have hroom : ¬utf8Len result + c.utf8Size > 1024 := by
      simp only [utf8Len_append, utf8Len_cons] at hbytes
      omega
    rw [happend] at hbytes ⊢
    simp only [cons_append] at h hfuel
    have h₁ := h.advance_char
    have hshort : (text ++ rest).length < fuel := by
      simp only [length_cons] at hfuel
      omega
    obtain ⟨fuel', hfuel', hrest⟩ := ih (result ++ [c]) h₁.advance_char hshort hbytes
    refine ⟨fuel', hfuel', ?_⟩
    have hquoted : ¬quote = some '\\' := by
      intro same
      exact absurd (delimiter _ same) (by decide)
    rw [valueLoop, h.rest]
    simp only [ok_bind, head?_cons, hquoted, if_false, valueChar, if_true, h₁.rest, named,
      Bool.not_true, false_eq_true, escapable_not_control named, escapable_ne_star named,
      decide_false, Bool.and_false, Bool.or_self, hroom]
    have hback : (quote.isNone && (decide ('\\' = ',') || decide ('\\' = ';') ||
        decide ('\\' = ')'))) = false := by
      cases quote <;> rfl
    rw [if_neg (by rw [hback]; exact Bool.false_ne_true), hrest]
    simp [Parser.advance_char_eq_after]

/-- What may follow a bare value. -/
def EndsValue (rest : List Char) : Prop :=
  ∀ c, rest.head? = some c → c = ',' ∨ c = ';' ∨ c = ')'

theorem Escaped.head_none (chars : Escaped none text v) (nonempty : v ≠ []) (rest : List Char) :
    (text ++ rest).head?.filter isQuote = none := by
  cases chars with
  | nil => exact absurd rfl nonempty
  | @plain c _ _ plain =>
    simp only [plainChar, Option.isSome_none, Bool.false_or, and_eq_true, not_eq_true',
      or_eq_false_iff, bareForbidden, decide_eq_false_iff_not] at plain
    have quote : isQuote c = false := by
      simp [isQuote, plain]
    simp [Option.filter, quote]
  | escape => rfl

theorem value_spelled {v : String} (spelled : Spelled text v) (hv : ValueOk v) {rest : List Char}
    (h : p.At (text ++ rest)) (ends : EndsValue rest ∨ text.head?.any isQuote = true) :
    value p = .ok (v, p.after text 0 0) := by
  obtain ⟨hbytes, -⟩ := hv
  rw [utf8ByteSize_eq] at hbytes
  cases spelled with
  | @bare text v nonempty chars =>
    rw [String.toList_ofList] at hbytes
    have ends : EndsValue rest := by
      refine ends.resolve_right ?_
      intro quoted
      obtain ⟨c, head, is⟩ := (Option.any_eq_true _ _).mp quoted
      have none := chars.head_none nonempty rest
      rw [List.head?_append, head, Option.some_or, Option.filter_some, if_pos is] at none
      cases none
    obtain ⟨fuel, hfuel, hloop⟩ := valueLoop_escaped (by simp) chars [] true h
      h.lt_loopFuel hbytes
    have h₁ := h.after 0 0
    obtain ⟨fuel, rfl⟩ : ∃ n, fuel = n + 1 := ⟨fuel - 1, by omega⟩
    have hstop : valueLoop none (fuel + 1) v true (p.after text 0 0) =
        .ok (v, true, p.after text 0 0) := by
      rw [valueLoop, h₁.rest, ok_bind]
      cases rest with
      | nil => rfl
      | cons c =>
        have stop := ends c rfl
        have hstop : (c = ',' || c = ';' || c = ')') = true := by
          simpa [or_assoc] using stop
        simp [hstop]
    simp only [value, h.rest, ok_bind, chars.head_none nonempty, Option.isNone_none, hloop,
      nil_append, hstop, Bool.not_true, Bool.true_and, Bool.false_or, List.isEmpty_iff, nonempty,
      if_false]
  | @quoted quote text _ delimiter chars =>
    rw [String.toList_ofList] at hbytes
    have htext : quote :: (text ++ [quote]) ++ rest = quote :: (text ++ (quote :: rest)) := by simp
    rw [htext] at h
    have h₁ := h.advance_char
    obtain ⟨fuel, hfuel, hloop⟩ := valueLoop_escaped
      (fun q same => by cases same; exact delimiter) chars [] false h₁ h₁.lt_loopFuel hbytes
    have h₂ := h₁.after 0 0
    obtain ⟨fuel, rfl⟩ : ∃ n, fuel = n + 1 := ⟨fuel - 1, by omega⟩
    have hhead : (some quote).filter isQuote = some quote := by
      simp [Option.filter, delimiter]
    simp only [value, h.rest, ok_bind, head?_cons, hhead, Parser.eat_cons h,
      Option.isNone_some, hloop, nil_append, valueLoop, h₂.rest, Parser.eat_cons h₂, if_true,
      Bool.not_true, Bool.false_and, Bool.or_self, false_eq_true, if_false]
    simp [Parser.advance_char_eq_after]

theorem valueChar_eq_ok {quote : Option Char} {c d : Char} {p p' : Parser} {cs : List Char}
    (h : p.At cs) (same : quote ≠ some c)
    (stays : (quote.isNone && (c = ',' || c = ';' || c = ')')) = false)
    (read : valueChar quote c p = .ok (d, p'))
    (kept : (isControl d || (quote.isNone && d = '*')) = false) :
    ∃ taken rest, cs = taken ++ rest ∧ p' = p.after taken 0 0 ∧
      ∀ {text v : List Char}, Escaped quote text v → Escaped quote (c :: (taken ++ text)) (d :: v) := by
  unfold valueChar at read
  by_cases hback : c = '\\'
  · subst hback
    rw [if_pos rfl, h.rest, ok_bind] at read
    cases cs with
    | nil => cases read
    | cons _ cs =>
      rw [head?_cons] at read
      obtain ⟨named, read⟩ := of_guard read
      cases read
      simp only [not_eq_true', Bool.not_eq_false] at named
      exact ⟨[d], cs, rfl, rfl, fun rest => .escape named rest⟩
  · rw [if_neg hback] at read
    obtain ⟨allowed, read⟩ := of_guard read
    cases read
    refine ⟨[], cs, rfl, rfl, fun rest => .plain ?_ rest⟩
    simp only [or_eq_false_iff] at kept
    simp only [plainChar, and_eq_true, bne_iff_ne, ne_eq, hback, not_false_eq_true, true_and,
      same, not_eq_true', kept.1]
    cases quote with
    | none =>
      simp only [Option.isNone_none, Bool.true_and] at allowed stays kept
      simp only [or_eq_false_iff] at stays
      simp [allowed, stays, kept.2]
    | some => rfl

theorem valueLoop_sound {fuel : Nat} {result out : List Char} {closed closed' : Bool} {p' : Parser}
    {cs : List Char} (h : p.At cs)
    (loop : valueLoop quote fuel result closed p = .ok (out, closed', p')) :
    ∃ text v rest, Escaped quote text v ∧ out = result ++ v ∧
      ((closed' = closed ∧ cs = text ++ rest ∧ p' = p.after text 0 0) ∨
        ∃ q, quote = some q ∧ cs = text ++ q :: rest ∧ p' = p.after (text ++ [q]) 0 0) := by
  induction fuel generalizing result p cs with
  | zero => cases loop
  | succ _ ih =>
    rw [valueLoop, h.rest, ok_bind] at loop
    cases cs with
    | nil =>
      cases loop
      exact ⟨[], [], [], .nil, by simp, .inl ⟨rfl, rfl, rfl⟩⟩
    | cons c cs =>
      rw [head?_cons] at loop
      by_cases hq : quote = some c
      · simp only [hq, if_true, Parser.eat_cons h, ok_bind] at loop
        cases loop
        exact ⟨[], [], cs, .nil, by simp, .inr ⟨c, hq, rfl, rfl⟩⟩
      simp only [hq, if_false] at loop
      by_cases hstop : (quote.isNone && (c = ',' || c = ';' || c = ')')) = true
      · rw [if_pos hstop] at loop
        cases loop
        exact ⟨[], [], c :: cs, .nil, by simp, .inl ⟨rfl, rfl, rfl⟩⟩
      rw [if_neg hstop] at loop
      obtain ⟨⟨d, p₁⟩, read, loop⟩ := of_bind loop
      obtain ⟨kept, loop⟩ := of_guard loop
      obtain ⟨-, loop⟩ := of_guard loop
      obtain ⟨taken, rest₁, rfl, rfl, grows⟩ := valueChar_eq_ok h.advance_char hq
        (Bool.not_eq_true _ ▸ hstop) read (Bool.not_eq_true _ ▸ kept)
      obtain ⟨text, v, rest, chars, rfl, ended⟩ := ih (h.advance_char.after 0 0) loop
      refine ⟨c :: (taken ++ text), d :: v, rest, grows chars, by simp, ?_⟩
      rcases ended with ⟨same, rfl, rfl⟩ | ⟨q, is, rfl, rfl⟩
      · exact .inl ⟨same, by simp, by simp [Parser.advance_char_eq_after]⟩
      · exact .inr ⟨q, is, by simp, by simp [Parser.advance_char_eq_after]⟩

theorem value_sound {p' : Parser} {cs : List Char} {v : String} (h : p.At cs)
    (read : value p = .ok (v, p')) :
    ∃ text rest, cs = text ++ rest ∧ Spelled text v ∧ p' = p.after text 0 0 := by
  unfold value at read
  rw [h.rest, ok_bind] at read
  cases hquote : cs.head?.filter isQuote with
  | none =>
    simp only [hquote, ok_bind] at read
    obtain ⟨⟨out, closed, p₁⟩, loop, read⟩ := of_bind read
    obtain ⟨complete, read⟩ := of_guard read
    cases read
    obtain ⟨text, v, rest, chars, rfl, ended⟩ := valueLoop_sound h loop
    rcases ended with ⟨-, rfl, rfl⟩ | ⟨q, absurd, -⟩
    · refine ⟨text, rest, rfl, .bare ?_ chars, rfl⟩
      rintro rfl
      simp at complete
    · cases absurd
  | some q =>
    obtain ⟨head, delimiter⟩ := Option.filter_eq_some_iff.mp hquote
    obtain ⟨cs, rfl⟩ := List.head?_eq_some_iff.mp head
    simp only [hquote, Parser.eat_cons h, ok_bind] at read
    obtain ⟨⟨out, closed, p₁⟩, loop, read⟩ := of_bind read
    obtain ⟨complete, read⟩ := of_guard read
    cases read
    obtain ⟨text, v, rest, chars, rfl, ended⟩ := valueLoop_sound h.advance_char loop
    rcases ended with ⟨rfl, -⟩ | ⟨q', same, rfl, rfl⟩
    · simp at complete
    · cases same
      exact ⟨q :: (text ++ [q]), rest, by simp, .quoted delimiter chars,
        by simp [Parser.advance_char_eq_after]⟩

end

section

/-- The values of a set up to the parenthesis that closes it. -/
inductive SpelledAll : List Char → List String → Prop where
  | last {text : List Char} {v : String} (spelled : Spelled text v) : SpelledAll (text ++ [')']) [v]
  | cons {text more : List Char} {v : String} {vs : List String} (spelled : Spelled text v)
      (rest : SpelledAll more vs) : SpelledAll (text ++ ',' :: more) (v :: vs)

/-- What stands after the operator of a comparison. -/
inductive Operand (operator : Operator) : List Char → List String → Prop where
  | single {text : List Char} {v : String} (one : operator.set = false) (spelled : Spelled text v) :
      Operand operator text [v]
  | set {text : List Char} {vs : List String} (many : operator.set = true)
      (spelled : SpelledAll text vs) : Operand operator ('(' :: text) vs

theorem endsValue_cons {c : Char} (h : c = ',' ∨ c = ';' ∨ c = ')') (rest : List Char) :
    EndsValue (c :: rest) := by
  intro d same
  cases same
  exact h

variable {p : Parser}

theorem setLoop_spelled {text : List Char} {vs : List String} (spelled : SpelledAll text vs)
    (values : List String) {fuel : Nat} {rest : List Char} (h : p.At (text ++ rest))
    (hfuel : (text ++ rest).length < fuel) (hvalues : ∀ w ∈ vs, ValueOk w)
    (hcount : values.length + vs.length ≤ 64) (hitems : p.setItems + vs.length ≤ 256) :
    setLoop fuel values p = .ok (values ++ vs, p.after text 0 vs.length) := by
  induction spelled generalizing values fuel p with
  | @last text v spelled =>
    obtain ⟨fuel, rfl⟩ : ∃ n, fuel = n + 1 := ⟨fuel - 1, by omega⟩
    simp only [length_cons, List.length_nil] at hcount hitems
    have hbudget : ¬(values.length ≥ 64 ∨ p.setItems ≥ 256) := by omega
    rw [append_assoc] at h
    have hstart : Parser.At { p with setItems := p.setItems + 1 } (text ++ (')' :: rest)) := h
    have hread := value_spelled spelled (hvalues v (.head _)) hstart
      (.inl (endsValue_cons (by simp) rest))
    have hclose := hstart.after 0 0
    rw [setLoop]
    simp only [or_eq_true, decide_eq_true_eq, hbudget, if_false, hread, ok_bind,
      Parser.eat_cons hclose, if_true]
    simp [Parser.after, Parser.advance, Nat.add_assoc]
  | @cons text more v vs spelled _ ih =>
    obtain ⟨fuel, rfl⟩ : ∃ n, fuel = n + 1 := ⟨fuel - 1, by omega⟩
    simp only [length_cons] at hcount hitems
    have hbudget : ¬(values.length ≥ 64 ∨ p.setItems ≥ 256) := by omega
    rw [append_assoc, cons_append] at h
    have hstart : Parser.At { p with setItems := p.setItems + 1 } (text ++ (',' :: (more ++ rest))) := h
    have hread := value_spelled spelled (hvalues v (.head _)) hstart
      (.inl (endsValue_cons (by simp) _))
    have hcomma := hstart.after 0 0
    have hnot : (',' :: (more ++ rest)).head? ≠ some ')' := by simp
    have hshort : (more ++ rest).length < fuel := by
      simp only [length_append, length_cons] at hfuel ⊢
      omega
    have hvalues' : ∀ w ∈ vs, ValueOk w := fun w hw => hvalues w (List.mem_cons_of_mem v hw)
    have hmore := ih (values ++ [v]) hcomma.advance_char hshort hvalues'
      (by simp only [length_append, length_cons, List.length_nil]; omega)
      (by simp only [Parser.advance, Parser.after]; omega)
    rw [setLoop]
    simp only [or_eq_true, decide_eq_true_eq, hbudget, if_false, hread, ok_bind,
      Parser.eat_other hcomma hnot, Parser.eat_cons hcomma, false_eq_true, Bool.not_true]
    rw [hmore]
    simp [Parser.after, Parser.advance, Nat.add_assoc, Nat.add_comm, Nat.add_left_comm]

theorem setLoop_sound {fuel : Nat} {values out : List String} {p' : Parser} {cs : List Char}
    (h : p.At cs) (loop : setLoop fuel values p = .ok (out, p')) :
    ∃ text rest vs, cs = text ++ rest ∧ SpelledAll text vs ∧ out = values ++ vs ∧
      p' = p.after text 0 vs.length := by
  induction fuel generalizing values p cs with
  | zero => cases loop
  | succ _ ih =>
    rw [setLoop] at loop
    obtain ⟨-, loop⟩ := of_guard loop
    obtain ⟨⟨v, p₁⟩, read, loop⟩ := of_bind loop
    have hstart : Parser.At { p with setItems := p.setItems + 1 } cs := h
    obtain ⟨text, rest, rfl, spelled, rfl⟩ := value_sound hstart read
    have h₁ := hstart.after 0 0
    obtain ⟨⟨closed, p₂⟩, eats, loop⟩ := of_bind loop
    rcases Parser.eat_eq_ok h₁ eats with ⟨rfl, rfl, rest, rfl⟩ | ⟨rfl, rfl, -⟩
    · cases loop
      refine ⟨text ++ [')'], rest, [v], by simp, .last spelled, rfl, ?_⟩
      simp [Parser.after, Nat.add_assoc]
    simp only [false_eq_true, if_false] at loop
    obtain ⟨⟨comma, p₃⟩, eats, loop⟩ := of_bind loop
    obtain ⟨eaten, loop⟩ := of_guard loop
    rcases Parser.eat_eq_ok h₁ eats with ⟨rfl, rfl, rest, rfl⟩ | ⟨rfl, -⟩
    · obtain ⟨more, rest, vs, rfl, spelled', rfl, rfl⟩ := ih (h₁.advance_char) loop
      refine ⟨text ++ ',' :: more, rest, v :: vs, by simp, .cons spelled spelled', by simp, ?_⟩
      simp [Parser.after, Parser.advance, Nat.add_assoc, Nat.add_comm, Nat.add_left_comm]
    · exact absurd rfl eaten

def token : Operator → String
  | .eq => "==" | .ne => "!=" | .lt => "=lt=" | .le => "=le=" | .gt => "=gt=" | .ge => "=ge="
  | .isIn => "=in=" | .out => "=out="
  | .icontains => "=icontains=" | .contains => "=contains=" | .notContains => "=notcontains="
  | .containsAny => "=containsany=" | .containsAll => "=containsall="
  | .isNull => "=isnull=" | .isNotNull => "=isnotnull="

theorem find_token (operator : Operator) (rest : List Char) :
    operators.find? (fun entry => entry.1.toList.isPrefixOf ((token operator).toList ++ rest)) =
      some (token operator, operator) := by
  cases operator <;> rfl

theorem token_head (operator : Operator) (rest : List Char) :
    ∃ c cs, (token operator).toList ++ rest = c :: cs ∧ fieldChar c = false := by
  cases operator <;> exact ⟨_, _, rfl, by decide⟩

theorem fieldOk_utf8Len {field : String} (h : FieldOk field) :
    utf8Len field.toList = field.length := by
  have hall : ∀ cs : List Char, cs.all fieldChar = true → utf8Len cs = cs.length := by
    intro cs
    induction cs with
    | nil => simp
    | cons _ _ ih =>
      intro hc
      simp only [List.all_cons, and_eq_true] at hc
      rw [utf8Len_cons, fieldChar_utf8Size hc.1, ih hc.2, length_cons, Nat.add_comm]
  rw [hall _ h.1, String.length_toList]

theorem token_of_listed {token' : String} {operator : Operator} (h : (token', operator) ∈ operators) :
    token' = token operator := by
  have listed : ∀ entry ∈ operators, entry.1 = token entry.2 := by decide
  exact listed _ h

theorem comparison_written {field : String} {operator : Operator} {values : List String}
    {text : List Char} (hshape : Shape (.compare field operator values))
    (operand : Operand operator text values) {rest : List Char}
    (h : p.At (field.toList ++ ((token operator).toList ++ text) ++ rest))
    (ends : operator.set = false → EndsValue rest ∨ text.head?.any isQuote = true)
    (hnodes : p.nodes + 1 ≤ 128)
    (hitems : p.setItems + setCount (.compare field operator values) ≤ 256) :
    comparison p = .ok (.compare field operator values,
      p.after (field.toList ++ ((token operator).toList ++ text)) 1
        (setCount (.compare field operator values))) := by
  obtain ⟨hfield, hvalues, harity⟩ := hshape
  have hlen : utf8Len field.toList = field.length := fieldOk_utf8Len hfield
  obtain ⟨hall, hpos, hmax⟩ := hfield
  obtain ⟨c, cs, hhead, hc⟩ := token_head operator (text ++ rest)
  have htake : (field.toList ++ ((token operator).toList ++ text) ++ rest).takeWhile fieldChar =
      field.toList := by
    rw [append_assoc, append_assoc, hhead,
      List.takeWhile_append_of_pos (by simpa using hall), List.takeWhile_cons_of_neg (by simp [hc]),
      append_nil]
  have hnode : p.node = .ok (p.after [] 1 0) := by
    have hroom : ¬p.nodes ≥ 128 := by omega
    simp [Parser.node, hroom, Parser.after]
  have h₁ : (p.after [] 1 0).At (field.toList ++ ((token operator).toList ++ text) ++ rest) := h
  have hscan := fieldEnd_eq h₁ h₁.lt_loopFuel
  rw [htake, Parser.advance_eq_after] at hscan
  rw [append_assoc, append_assoc] at h₁
  have hslice := slice_eq h₁
  have h₂ := h₁.after 0 0
  have h₃ := h₂.after 0 0
  have hwidth : ¬((p.after [] 1 0).after field.toList 0 0).offset = (p.after [] 1 0).offset ∧
      ¬((p.after [] 1 0).after field.toList 0 0).offset - (p.after [] 1 0).offset > 128 := by
    simp only [Parser.after, utf8Len_nil, hlen]
    omega
  have hcut : slice ((p.after [] 1 0).after field.toList 0 0).input (p.after [] 1 0).offset
      ((p.after [] 1 0).after field.toList 0 0).offset = .ok field.toList := hslice
  simp only [comparison, hnode, ok_bind, hscan, hwidth.1, hwidth.2, decide_false, Bool.or_self,
    false_eq_true, if_false, hcut, h₂.rest, find_token, String.ofList_toList]
  rw [utf8ByteSize_eq, Parser.advance_eq_after]
  cases operand with
  | @single _ v one spelled =>
    have hread := value_spelled spelled (hvalues v (.head _)) h₃ (ends one)
    simp only [one, false_eq_true, if_false, hread, ok_bind, setCount]
    simp
  | @set _ _ many spelled =>
    simp only [ArityOk, many, if_true] at harity
    simp only [setCount, many, if_true] at hitems
    have hloop := setLoop_spelled spelled [] h₃.advance_char h₃.advance_char.lt_loopFuel hvalues
      (by simpa using harity.2) (by simpa [Parser.after, Parser.advance] using hitems)
    simp only [many, if_true, Parser.eat_cons h₃, ok_bind, Bool.not_true, false_eq_true,
      if_false, hloop, setCount]
    simp [Parser.advance_char_eq_after]

theorem comparison_sound {p' : Parser} {cs : List Char} {e : Expr} (h : p.At cs)
    (read : comparison p = .ok (e, p')) :
    ∃ field operator values text rest, e = .compare field operator values ∧
      cs = field.toList ++ ((token operator).toList ++ text) ++ rest ∧
      Operand operator text values ∧
      p' = p.after (field.toList ++ ((token operator).toList ++ text)) 1 (setCount e) := by
  unfold comparison at read
  obtain ⟨p₁, counted, read⟩ := of_bind read
  obtain ⟨-, counted⟩ := of_guard counted
  cases counted
  have h₁ : (p.after [] 1 0).At cs := h
  have hscan := fieldEnd_eq h₁ h₁.lt_loopFuel
  have split : cs = cs.takeWhile fieldChar ++ cs.dropWhile fieldChar :=
    List.takeWhile_append_dropWhile.symm
  generalize cs.takeWhile fieldChar = field at hscan split
  generalize cs.dropWhile fieldChar = left at split
  subst split
  have start : ({ p with nodes := p.nodes + 1 } : Parser) = p.after [] 1 0 := rfl
  rw [start, hscan, ok_bind] at read
  obtain ⟨-, read⟩ := of_guard read
  have hslice : slice ((p.after [] 1 0).advance (utf8Len field)).input (p.after [] 1 0).offset
      ((p.after [] 1 0).advance (utf8Len field)).offset = .ok field := slice_eq h₁
  rw [hslice, ok_bind, h₁.advance.rest, ok_bind] at read
  split at read
  · cases read
  rename_i token' operator found
  have listed : token' = token operator := token_of_listed (List.mem_of_find?_eq_some found)
  have starts : token'.toList <+: left := by
    have first := List.find?_some found
    exact List.isPrefixOf_iff_prefix.mp first
  obtain ⟨after, rfl⟩ := starts
  subst listed
  have h₂ := h₁.advance.advance
  rw [utf8ByteSize_eq] at read
  cases many : operator.set with
  | true =>
    simp only [many, if_true] at read
    obtain ⟨⟨opened, p₂⟩, eats, read⟩ := of_bind read
    obtain ⟨eaten, read⟩ := of_guard read
    rcases Parser.eat_eq_ok h₂ eats with ⟨rfl, rfl, after, rfl⟩ | ⟨rfl, -⟩
    · obtain ⟨⟨values, p₃⟩, loop, read⟩ := of_bind read
      obtain ⟨text, rest, vs, rfl, spelled, rfl, rfl⟩ := setLoop_sound h₂.advance_char loop
      cases read
      refine ⟨String.ofList field, operator, values, '(' :: text, rest, rfl, by simp,
        .set many spelled, ?_⟩
      simp [Parser.advance_eq_after, Parser.advance_char_eq_after, setCount, many]
    · exact absurd rfl eaten
  | false =>
    simp only [many, false_eq_true, if_false] at read
    obtain ⟨⟨v, p₂⟩, loop, read⟩ := of_bind read
    obtain ⟨text, rest, rfl, spelled, rfl⟩ := value_sound h₂ loop
    cases read
    refine ⟨String.ofList field, operator, [v], text, rest, rfl, by simp, .single many spelled, ?_⟩
    simp [Parser.advance_eq_after, setCount, many]

end

def joined (separator : Char) : List (List Char) → List Char
  | [] => []
  | [text] => text
  | text :: next :: rest => text ++ separator :: joined separator (next :: rest)

variable {text : List Char}

theorem joined_cons {separator : Char} {rest : List (List Char)} (h : rest ≠ []) :
    joined separator (text :: rest) = text ++ separator :: joined separator rest := by
  cases rest with
  | nil => exact absurd rfl h
  | cons => rfl

theorem joined_append {separator : Char} {xs ys : List (List Char)} (hx : xs ≠ []) (hy : ys ≠ []) :
    joined separator (xs ++ ys) = joined separator xs ++ separator :: joined separator ys := by
  induction xs with
  | nil => exact absurd rfl hx
  | cons text xs ih =>
    cases xs with
    | nil => exact joined_cons hy
    | cons next xs =>
      have more : next :: xs ≠ [] := by simp
      rw [cons_append, joined_cons (by simp), ih more, joined_cons more, append_assoc,
        cons_append]

/-- What may follow a text that is read at a level ends it there. -/
structure Following (F : Nat → List Char → Prop) : Prop where
  stops {level k : Nat} {rest : List Char} (low : level ≤ k) (high : k ≤ 1) (follows : F level rest) :
    rest.head? ≠ some (separator k)
  above {level : Nat} {rest : List Char} (follows : F level rest) : F (level + 1) rest
  separated {level : Nat} (low : level ≤ 1) (rest : List Char) : F (level + 1) (separator level :: rest)
  closed (rest : List Char) : F 0 (')' :: rest)

/-- At a precedence level the parser reads the text as the expression, from any state that has the
budget for it and before any text that may follow. -/
def ReadsBefore (F : Nat → List Char → Prop) (level depth : Nat) (text : List Char) (e : Expr) :
    Prop :=
  ∀ fuel outer p rest, Parser.At p (text ++ rest) → F level rest →
    p.nodes + nodeCount e ≤ 128 → p.setItems + setCount e ≤ 256 → outer + depth ≤ 16 →
    callFuel (text ++ rest).length level ≤ fuel →
    logical fuel level outer p = .ok (e, p.after text (nodeCount e) (setCount e))

namespace ReadsBefore

variable {F : Nat → List Char → Prop} {text : List Char}

theorem deeper {level d d' : Nat} {e : Expr} (h : ReadsBefore F level d text e) (hd : d ≤ d') :
    ReadsBefore F level d' text e := by
  intro fuel outer p rest hat follows hnodes hitems hdepth hfuel
  exact h fuel outer p rest hat follows hnodes hitems (by omega) hfuel

theorem lift (following : Following F) {level d : Nat} {e : Expr} (hlevel : level ≤ 1)
    (h : ReadsBefore F (level + 1) d text e) : ReadsBefore F level d text e := by
  intro fuel outer p rest hat follows hnodes hitems hdepth hfuel
  simp only [callFuel] at hfuel
  obtain ⟨fuel, rfl⟩ : ∃ n, fuel = n + 1 := ⟨fuel - 1, by omega⟩
  have hfirst := h fuel outer p rest hat (following.above follows) hnodes hitems hdepth
    (by simp only [callFuel]; omega)
  have hstop := Parser.eat_other (hat.after (nodeCount e) (setCount e))
    (following.stops (le_rfl) hlevel follows)
  have hshallow : ¬outer > 16 := by omega
  have hnot : ¬level = 2 := by omega
  simp only [logical, hshallow, hnot, if_false, hfirst, ok_bind, hstop, Bool.not_false, if_true]

theorem paren (following : Following F) {d : Nat} {e : Expr} (h : ReadsBefore F 0 d text e) :
    ReadsBefore F 2 (d + 1) ('(' :: (text ++ [')'])) e := by
  intro fuel outer p rest hat _ hnodes hitems hdepth hfuel
  simp only [callFuel, cons_append, append_assoc, length_cons, nil_append] at hat hfuel
  obtain ⟨fuel, rfl⟩ : ∃ n, fuel = n + 2 := ⟨fuel - 2, by omega⟩
  have hinner := h fuel (outer + 1) _ (')' :: rest) hat.advance_char (following.closed rest) hnodes
    hitems (by omega) (by simp only [callFuel]; omega)
  have hclose := Parser.eat_cons (hat.advance_char.after (nodeCount e) (setCount e))
  have hshallow : ¬outer > 16 := by omega
  have hroom : ¬outer = 16 := by omega
  simp only [logical, hshallow, if_false, if_true, atom, Parser.eat_cons hat, ok_bind, hroom, hinner,
    hclose, Bool.not_true, false_eq_true]
  simp [Parser.advance_char_eq_after]

theorem comparison {field : String} {operator : Operator} {values : List String}
    (hshape : Shape (.compare field operator values)) (operand : Operand operator text values)
    (ends : operator.set = false → (∀ rest, F 2 rest → EndsValue rest) ∨ text.head?.any isQuote = true)
    (depth : Nat) :
    ReadsBefore F 2 depth (field.toList ++ ((token operator).toList ++ text))
      (.compare field operator values) := by
  intro fuel outer p rest hat follows hnodes hitems hdepth hfuel
  simp only [callFuel] at hfuel
  obtain ⟨fuel, rfl⟩ : ∃ n, fuel = n + 2 := ⟨fuel - 2, by omega⟩
  have hshallow : ¬outer > 16 := by omega
  have hopen : (field.toList ++ ((token operator).toList ++ text) ++ rest).head? ≠ some '(' := by
    obtain ⟨⟨hall, hpos, -⟩, -, -⟩ := hshape
    rw [← String.length_toList] at hpos
    cases hcs : field.toList with
    | nil => simp [hcs] at hpos
    | cons =>
      rw [hcs] at hall
      simp only [List.all_cons, and_eq_true] at hall
      simp only [cons_append, head?_cons, ne_eq, Option.some.injEq]
      rintro rfl
      exact absurd hall.1 (by decide)
  simp only [logical, hshallow, if_false, if_true, atom, Parser.eat_other hat hopen, ok_bind,
    false_eq_true]
  exact comparison_written hshape operand hat
    (fun one => (ends one).imp_left (fun all => all rest follows)) hnodes hitems

end ReadsBefore

/-- The texts of a list of children and what they are read as. -/
abbrev Pieces := List (List Char × Expr)

variable {level depth fuel : Nat} {F : Nat → List Char → Prop}

theorem logicalLoop_reads (following : Following F) (hlevel : level ≤ 1) {pieces : Pieces}
    (nonempty : pieces ≠ [])
    (each : ∀ piece ∈ pieces, ReadsBefore F (level + 1) depth piece.1 piece.2)
    (children : List Expr) {outer : Nat} {p : Parser} {rest : List Char}
    (hat : p.At (joined (separator level) (pieces.map Prod.fst) ++ rest)) (follows : F level rest)
    (hnodes : p.nodes + nodeCountAll (pieces.map Prod.snd) ≤ 128)
    (hitems : p.setItems + setCountAll (pieces.map Prod.snd) ≤ 256) (hdepth : outer + depth ≤ 16)
    (hfuel : callFuel (joined (separator level) (pieces.map Prod.fst) ++ rest).length level ≤ fuel) :
    logicalLoop fuel level outer children p = .ok (children ++ pieces.map Prod.snd,
      p.after (joined (separator level) (pieces.map Prod.fst)) (nodeCountAll (pieces.map Prod.snd))
        (setCountAll (pieces.map Prod.snd))) := by
  induction pieces generalizing children fuel p with
  | nil => exact absurd rfl nonempty
  | cons piece pieces ih =>
    obtain ⟨text, e⟩ := piece
    have hhead : ReadsBefore F (level + 1) depth text e := each _ (.head _)
    simp only [map_cons, nodeCountAll, setCountAll] at hat hnodes hitems hfuel ⊢
    simp only [callFuel] at hfuel
    obtain ⟨fuel, rfl⟩ : ∃ n, fuel = n + 1 := ⟨fuel - 1, by omega⟩
    by_cases more : pieces = []
    · subst more
      simp only [List.map_nil, joined, nodeCountAll, setCountAll, Nat.add_zero] at hat hnodes hitems hfuel ⊢
      have hchild := hhead fuel outer p rest hat (following.above follows) hnodes hitems hdepth
        (by simp only [callFuel]; omega)
      have hstop := Parser.eat_other (hat.after (nodeCount e) (setCount e))
        (following.stops (le_rfl) hlevel follows)
      simp only [logicalLoop, hchild, ok_bind, hstop, false_eq_true, if_false]
    · have tail : pieces.map Prod.fst ≠ [] := by simpa using more
      rw [joined_cons tail] at hat hfuel ⊢
      simp only [append_assoc, cons_append] at hat hfuel
      have hchild := hhead fuel outer p _ hat (following.separated hlevel _) (by omega) (by omega)
        hdepth (by simp only [callFuel]; omega)
      have hmore := hat.after (nodeCount e) (setCount e)
      simp only [length_append, length_cons] at hfuel
      have hrest := ih more (fun piece mem => each piece (.tail _ mem))
        (children ++ [e]) hmore.advance_char (by simp only [Parser.advance, Parser.after]; omega)
        (by simp only [Parser.advance, Parser.after]; omega)
        (show callFuel _ level ≤ fuel by simp only [callFuel, length_append]; omega)
      simp only [logicalLoop, hchild, ok_bind, Parser.eat_cons hmore, if_true]
      rw [hrest]
      simp [Parser.advance_char_eq_after]

theorem ReadsBefore.operator (following : Following F) (hlevel : level ≤ 1) {pieces : Pieces}
    (two : 2 ≤ pieces.length)
    (each : ∀ piece ∈ pieces, ReadsBefore F (level + 1) depth piece.1 piece.2) :
    ReadsBefore F level depth (joined (separator level) (pieces.map Prod.fst))
      (if level = 0 then .or (pieces.map Prod.snd) else .and (pieces.map Prod.snd)) := by
  intro fuel outer p rest hat follows hnodes hitems hdepth hfuel
  obtain ⟨⟨text, e⟩, pieces, rfl⟩ : ∃ piece rest, pieces = piece :: rest := by
    cases pieces with
    | nil => simp at two
    | cons piece rest => exact ⟨piece, rest, rfl⟩
  have more : pieces ≠ [] := by
    rintro rfl
    simp at two
  have tail : pieces.map Prod.fst ≠ [] := by simpa using more
  have hhead : ReadsBefore F (level + 1) depth text e := each _ (.head _)
  have hcountNodes : nodeCount (if level = 0 then .or (e :: pieces.map Prod.snd)
      else .and (e :: pieces.map Prod.snd)) =
        1 + (nodeCount e + nodeCountAll (pieces.map Prod.snd)) := by
    split <;> rfl
  have hcountItems : setCount (if level = 0 then .or (e :: pieces.map Prod.snd)
      else .and (e :: pieces.map Prod.snd)) = setCount e + setCountAll (pieces.map Prod.snd) := by
    split <;> rfl
  simp only [map_cons] at hat hnodes hitems hfuel ⊢
  rw [hcountNodes] at hnodes ⊢
  rw [hcountItems] at hitems ⊢
  rw [joined_cons tail] at hat hfuel ⊢
  simp only [append_assoc, cons_append] at hat hfuel
  simp only [callFuel] at hfuel
  obtain ⟨fuel, rfl⟩ : ∃ n, fuel = n + 1 := ⟨fuel - 1, by omega⟩
  have hfirst := hhead fuel outer p _ hat (following.separated hlevel _) (by omega) (by omega) hdepth
    (by simp only [callFuel]; omega)
  have hmore := hat.after (nodeCount e) (setCount e)
  have hnode : ((p.after text (nodeCount e) (setCount e)).advance (separator level).utf8Size).node =
      .ok (((p.after text (nodeCount e) (setCount e)).advance
        (separator level).utf8Size).after [] 1 0) := by
    have hroom : ¬p.nodes + nodeCount e ≥ 128 := by omega
    simp [Parser.node, Parser.advance, Parser.after, hroom]
  have hstart := (show Parser.At _ ([] ++ _) from hmore.advance_char).after 1 0
  simp only [length_append, length_cons] at hfuel
  have hrest := logicalLoop_reads following hlevel more
    (fun piece mem => each piece (.tail _ mem)) [e] hstart follows
    (by simp only [Parser.advance, Parser.after]; omega)
    (by simp only [Parser.advance, Parser.after]; omega) hdepth
    (show callFuel _ level ≤ fuel by simp only [callFuel, length_append]; omega)
  have hshallow : ¬outer > 16 := by omega
  have hnot : ¬level = 2 := by omega
  simp only [logical, hshallow, hnot, if_false, hfirst, ok_bind, Parser.eat_cons hmore, Bool.not_true,
    false_eq_true, hnode, hrest]
  have htotal : nodeCount e + 1 + nodeCountAll (pieces.map Prod.snd) =
      1 + (nodeCount e + nodeCountAll (pieces.map Prod.snd)) := by omega
  simp [Parser.advance_char_eq_after, htotal]

/-- The texts of an expression at a precedence level, within a number of nested parentheses. -/
inductive Written : Nat → Nat → List Char → Expr → Prop where
  | compare {depth : Nat} {field : String} {operator : Operator} {values : List String}
      {text : List Char} (operand : Operand operator text values) :
      Written 2 depth (field.toList ++ ((token operator).toList ++ text))
        (.compare field operator values)
  | paren {depth : Nat} {text : List Char} {e : Expr} (inner : Written 0 depth text e) :
      Written 2 (depth + 1) ('(' :: (text ++ [')'])) e
  | lift {level depth : Nat} {text : List Char} {e : Expr} (low : level ≤ 1)
      (higher : Written (level + 1) depth text e) : Written level depth text e
  | operator {level depth : Nat} {pieces : Pieces} (low : level ≤ 1) (two : 2 ≤ pieces.length)
      (each : ∀ piece ∈ pieces, Written (level + 1) depth piece.1 piece.2) :
      Written level depth (joined (separator level) (pieces.map Prod.fst))
        (if level = 0 then .or (pieces.map Prod.snd) else .and (pieces.map Prod.snd))

variable {e : Expr}

theorem Written.deeper {d d' : Nat} (h : Written level d text e) (le : d ≤ d') :
    Written level d' text e := by
  induction h generalizing d' with
  | compare operand => exact .compare operand
  | paren _ ih =>
    obtain ⟨d', rfl⟩ : ∃ n, d' = n + 1 := ⟨d' - 1, by omega⟩
    exact .paren (ih (by omega))
  | lift low _ ih => exact .lift low (ih le)
  | operator low two _ ih => exact .operator low two (fun piece mem => ih piece mem le)

/-- What stands after a text of a level in a filter. -/
def Follows (level : Nat) (rest : List Char) : Prop :=
  ∀ c, rest.head? = some c → c = ')' ∨ ∃ k, k < level ∧ k ≤ 1 ∧ c = separator k

theorem follows_following : Following Follows where
  stops {level k rest} low high follows := by
    intro head
    rcases follows _ head with closes | ⟨j, below, -, same⟩
    · unfold separator at closes
      split at closes <;> cases closes
    · have lower : j = 0 := by omega
      have upper : k = 1 := by omega
      subst lower upper
      cases same
  above {level rest} follows := by
    intro c head
    rcases follows c head with closes | ⟨j, below, small, same⟩
    · exact .inl closes
    · exact .inr ⟨j, by omega, small, same⟩
  separated {level} low rest := by
    intro c head
    cases head
    exact .inr ⟨level, Nat.lt_succ_self level, low, rfl⟩
  closed rest := by
    intro c head
    cases head
    exact .inl rfl

theorem Follows.endsValue {rest : List Char} (follows : Follows 2 rest) : EndsValue rest := by
  intro c head
  rcases follows c head with closes | ⟨k, -, -, rfl⟩
  · exact .inr (.inr closes)
  unfold separator
  split
  · exact .inl rfl
  · exact .inr (.inl rfl)

theorem Shape.of_mem {children : List Expr} (h : ShapeAll children) (mem : e ∈ children) :
    Shape e := by
  induction children with
  | nil => cases mem
  | cons _ _ ih =>
    rcases mem_cons.mp mem with rfl | mem
    · exact h.1
    · exact ih h.2 mem

theorem Written.reads (h : Written level depth text e) (shape : Shape e) :
    ReadsBefore Follows level depth text e := by
  induction h with
  | compare operand =>
    exact .comparison shape operand (fun _ => .inl fun _ follows => follows.endsValue) _
  | paren _ ih => exact .paren follows_following (ih shape)
  | lift low _ ih => exact .lift follows_following low (ih shape)
  | @operator _ _ pieces low two _ ih =>
    have all : ShapeAll (pieces.map Prod.snd) := by
      split at shape <;> exact shape.2
    exact .operator follows_following low two
      (fun piece mem => ih piece mem (.of_mem all (List.mem_map_of_mem mem)))

/-- What a call at a precedence level has read is a text of the grammar. -/
def LogicalSound (fuel : Nat) : Prop :=
  ∀ level depth p p' cs e, level ≤ 2 → Parser.At p cs →
    logical fuel level depth p = .ok (e, p') →
    ∃ text rest, cs = text ++ rest ∧ depth ≤ 16 ∧ Written level (16 - depth) text e ∧
      p' = p.after text (nodeCount e) (setCount e)

def LogicalLoopSound (fuel : Nat) : Prop :=
  ∀ level depth children p p' cs out, level ≤ 1 → Parser.At p cs →
    logicalLoop fuel level depth children p = .ok (out, p') →
    ∃ (pieces : Pieces) (rest : List Char), pieces ≠ [] ∧
      cs = joined (separator level) (pieces.map Prod.fst) ++ rest ∧
      out = children ++ pieces.map Prod.snd ∧
      (∀ piece ∈ pieces, Written (level + 1) (16 - depth) piece.1 piece.2) ∧
      p' = p.after (joined (separator level) (pieces.map Prod.fst))
        (nodeCountAll (pieces.map Prod.snd)) (setCountAll (pieces.map Prod.snd))

def AtomSound (fuel : Nat) : Prop :=
  ∀ depth p p' cs e, depth ≤ 16 → Parser.At p cs → atom fuel depth p = .ok (e, p') →
    ∃ text rest, cs = text ++ rest ∧ Written 2 (16 - depth) text e ∧
      p' = p.after text (nodeCount e) (setCount e)

theorem atom_sound (hlogical : LogicalSound fuel) : AtomSound (fuel + 1) := by
  intro depth p p' cs e hdepth h read
  rw [atom] at read
  obtain ⟨⟨opened, p₁⟩, eats, tail⟩ := of_bind read
  clear read
  rcases Parser.eat_eq_ok h eats with ⟨rfl, rfl, cs, rfl⟩ | ⟨rfl, rfl, -⟩
  · simp only [if_true] at tail
    obtain ⟨room, read⟩ := of_guard tail
    obtain ⟨⟨inner, p₂⟩, reads, read⟩ := of_bind read
    obtain ⟨text, rest, rfl, deep, written, rfl⟩ := hlogical 0 (depth + 1) _ _ cs _ (by omega)
      h.advance_char reads
    obtain ⟨⟨closed, p₃⟩, eats, read⟩ := of_bind read
    obtain ⟨eaten, read⟩ := of_guard read
    rcases Parser.eat_eq_ok (h.advance_char.after _ _) eats with ⟨rfl, rfl, rest, rfl⟩ | ⟨rfl, -⟩
    · cases read
      have deeper : 16 - depth = (16 - (depth + 1)) + 1 := by omega
      refine ⟨'(' :: (text ++ [')']), rest, by simp, deeper ▸ .paren written, ?_⟩
      simp [Parser.advance_char_eq_after]
    · exact absurd rfl eaten
  · simp only [false_eq_true, if_false] at tail
    obtain ⟨field, operator, values, text, rest, rfl, rfl, operand, rfl⟩ := comparison_sound h tail
    exact ⟨_, rest, rfl, .compare operand, rfl⟩

theorem logicalLoop_sound (hlogical : LogicalSound fuel) (hloop : LogicalLoopSound fuel) :
    LogicalLoopSound (fuel + 1) := by
  intro level depth children p p' cs out hlevel h loop
  rw [logicalLoop] at loop
  obtain ⟨⟨child, p₁⟩, reads, loop⟩ := of_bind loop
  obtain ⟨text, rest, rfl, -, written, rfl⟩ := hlogical (level + 1) depth _ _ cs _ (by omega) h reads
  have h₁ := h.after (nodeCount child) (setCount child)
  obtain ⟨⟨more, p₂⟩, eats, loop⟩ := of_bind loop
  rcases Parser.eat_eq_ok h₁ eats with ⟨rfl, rfl, rest, rfl⟩ | ⟨rfl, rfl, -⟩
  · simp only [if_true] at loop
    obtain ⟨pieces, rest, nonempty, rfl, rfl, each, rfl⟩ :=
      hloop level depth _ _ _ _ _ hlevel h₁.advance_char loop
    have tail : pieces.map Prod.fst ≠ [] := by simpa using nonempty
    refine ⟨(text, child) :: pieces, rest, by simp, ?_, by simp, ?_, ?_⟩
    · rw [map_cons, joined_cons tail]
      simp
    · intro piece mem
      rcases mem_cons.mp mem with rfl | mem
      · exact written
      · exact each piece mem
    · rw [map_cons, map_cons, joined_cons tail, nodeCountAll, setCountAll]
      simp [Parser.advance_char_eq_after]
  · simp only [false_eq_true, if_false] at loop
    cases loop
    refine ⟨[(text, child)], rest, by simp, rfl, rfl, ?_, ?_⟩
    · intro piece mem
      rw [List.mem_singleton.mp mem]
      exact written
    · simp [joined, nodeCountAll, setCountAll]

theorem logical_sound (hlogical : LogicalSound fuel) (hloop : LogicalLoopSound fuel)
    (hatom : AtomSound fuel) : LogicalSound (fuel + 1) := by
  intro level depth p p' cs e hlevel h read
  rw [logical] at read
  obtain ⟨shallow, read⟩ := of_guard read
  by_cases top : level = 2
  · subst top
    rw [if_pos rfl] at read
    obtain ⟨text, rest, rfl, written, rfl⟩ := hatom depth p p' cs e (by omega) h read
    exact ⟨text, rest, rfl, by omega, written, rfl⟩
  · rw [if_neg top] at read
    obtain ⟨⟨first, p₁⟩, reads, read⟩ := of_bind read
    obtain ⟨text, rest, rfl, deep, written, rfl⟩ := hlogical (level + 1) depth _ _ cs _ (by omega) h reads
    have h₁ := h.after (nodeCount first) (setCount first)
    obtain ⟨⟨more, p₂⟩, eats, read⟩ := of_bind read
    rcases Parser.eat_eq_ok h₁ eats with ⟨rfl, rfl, rest, rfl⟩ | ⟨rfl, rfl, -⟩
    · simp only [Bool.not_true, false_eq_true, if_false] at read
      obtain ⟨p₃, counted, read⟩ := of_bind read
      obtain ⟨-, counted⟩ := of_guard counted
      cases counted
      obtain ⟨⟨children, p₄⟩, loop, read⟩ := of_bind read
      cases read
      have h₂ : Parser.At { (p.after text (nodeCount first) (setCount first)).after [separator level] 0 0
          with nodes := ((p.after text (nodeCount first) (setCount first)).after
            [separator level] 0 0).nodes + 1 } rest := h₁.advance_char
      obtain ⟨pieces, rest, nonempty, rfl, rfl, each, rfl⟩ :=
        hloop level depth _ _ _ _ _ (by omega) h₂ loop
      have tail : pieces.map Prod.fst ≠ [] := by simpa using nonempty
      have two : 2 ≤ ((text, first) :: pieces).length := by
        rw [length_cons]
        have := List.length_pos_of_ne_nil nonempty
        omega
      have all : ∀ piece ∈ (text, first) :: pieces, Written (level + 1) (16 - depth) piece.1 piece.2 := by
        intro piece mem
        rcases mem_cons.mp mem with rfl | mem
        · exact written
        · exact each piece mem
      refine ⟨joined (separator level) (((text, first) :: pieces).map Prod.fst), rest, ?_, deep,
        .operator (by omega) two all, ?_⟩
      · rw [map_cons, joined_cons tail]
        simp
      · rw [map_cons, joined_cons tail]
        have nodes : nodeCount (if level = 0 then .or (first :: pieces.map Prod.snd)
            else .and (first :: pieces.map Prod.snd)) =
              nodeCount first + 1 + nodeCountAll (pieces.map Prod.snd) := by
          split <;> rw [nodeCount, nodeCountAll] <;> omega
        have items : setCount (if level = 0 then .or (first :: pieces.map Prod.snd)
            else .and (first :: pieces.map Prod.snd)) =
              setCount first + setCountAll (pieces.map Prod.snd) := by
          split <;> rfl
        simp only [cons_append, nil_append, nodes, items]
        simp [Parser.after, Nat.add_assoc]
    · simp only [Bool.not_false, if_true] at read
      cases read
      exact ⟨text, rest, rfl, deep, .lift (by omega) written, rfl⟩

theorem recursion_sound (fuel : Nat) : LogicalSound fuel ∧ LogicalLoopSound fuel ∧ AtomSound fuel := by
  induction fuel with
  | zero =>
    refine ⟨?_, ?_, ?_⟩
    · intro level depth p p' cs e _ _ read
      rw [logical] at read
      cases read
    · intro level depth children p p' cs out _ _ loop
      rw [logicalLoop] at loop
      cases loop
    · intro depth p p' cs e _ _ read
      rw [atom] at read
      cases read
  | succ _ ih =>
    obtain ⟨hlogical, hloop, hatom⟩ := ih
    exact ⟨logical_sound hlogical hloop hatom, logicalLoop_sound hlogical hloop, atom_sound hlogical⟩

/-- The cursor before a text, with no more than the given budgets left. -/
def Parser.start (nodes setItems : Nat) (input : List Char) : Parser :=
  { input, offset := 0, nodes := 128 - nodes, setItems := 256 - setItems }

/-- `parse` with no more than the given nodes, set values and nested parentheses left. -/
def parseWithin (nodes setItems depth : Nat) (input : String) : Parsed Expr :=
  if input.utf8ByteSize > maxFilterBytes then .error (.error .budget)
  else do
    let (result, p) ← logical (recursionFuel input.length) 0 (16 - depth)
      (Parser.start nodes setItems input.toList)
    if p.offset ≠ input.utf8ByteSize then .error (.error .invalid) else .ok result

/-- A text of the grammar within the budgets. -/
structure Readable (nodes setItems depth : Nat) (text : List Char) (e : Expr) : Prop where
  bytes : utf8Len text ≤ maxFilterBytes
  written : Written 0 (16 - (16 - depth)) text e
  shape : Shape e
  nodes : 128 - nodes + nodeCount e ≤ 128
  setItems : 256 - setItems + setCount e ≤ 256

theorem parseWithin_eq_ok {nodes setItems : Nat} {input : String} :
    parseWithin nodes setItems depth input = .ok e ↔
      Readable nodes setItems depth input.toList e := by
  have hstart : (Parser.start nodes setItems input.toList).At input.toList := sliceFrom_zero _
  have hfuel : callFuel input.toList.length 0 ≤ recursionFuel input.length := by
    simp only [callFuel, recursionFuel, String.length_toList]
    omega
  constructor
  · intro h
    unfold parseWithin at h
    obtain ⟨hbytes, h⟩ := of_guard h
    obtain ⟨⟨result, p⟩, read, h⟩ := of_bind h
    obtain ⟨whole, h⟩ := of_guard h
    cases h
    obtain ⟨text, rest, same, -, written, rfl⟩ :=
      (recursion_sound _).1 0 (16 - depth) _ _ _ _ (by omega) hstart read
    have built := (((recursion_safe _).1 0 (16 - depth) _ _ (by omega) hstart hfuel).of_eq_ok read).1
    have end' : rest = [] := by
      have total : utf8Len input.toList = utf8Len text + utf8Len rest := by rw [same, utf8Len_append]
      have offset : utf8Len text = utf8Len input.toList := by
        rw [utf8ByteSize_eq] at whole
        simpa [Parser.after, Parser.start] using whole
      have short := length_le_utf8Len rest
      exact List.length_eq_zero_iff.mp (by omega)
    subst end'
    rw [append_nil] at same
    rw [utf8ByteSize_eq] at hbytes
    refine ⟨by omega, same ▸ written, built.shape, ?_, ?_⟩
    · have max := built.nodesMax
      simpa [Parser.after, Parser.start] using max
    · have max := built.setItemsMax (Nat.sub_le _ _)
      simpa [Parser.after, Parser.start] using max
  · rintro ⟨hbytes, written, shape, hnodes, hitems⟩
    have hat : (Parser.start nodes setItems input.toList).At (input.toList ++ []) := by
      rw [append_nil]
      exact hstart
    have follows : Follows 0 [] := by
      intro c head
      cases head
    have hread := written.reads shape (recursionFuel input.length) (16 - depth) _ [] hat follows
      hnodes hitems (by omega) (by rwa [append_nil])
    have hshort : ¬input.utf8ByteSize > maxFilterBytes := by
      rw [utf8ByteSize_eq]
      omega
    simp only [parseWithin, hshort, if_false, hread, ok_bind]
    simp [Parser.after, Parser.start, utf8ByteSize_eq]

end RssMdm.Query.Filter
