/- module: Query/FilterBounds
   source: crates/query/src/parser.rs
   digest: Every parse ends inside the input on a boundary, and what it accepts meets the bounds. -/

import RssMdm.Query.Filter

set_option autoImplicit false

namespace RssMdm.Query.Filter

open Lib.Fallible Lib.Outcome Lib.Text
open List (cons_append length_cons nil_append)
open Bool (false_eq_true or_eq_true)

/-- `[A-Za-z0-9_.]`. -/
def fieldChar (c : Char) : Bool := c.isAlphanum || c = '_' || c = '.'

def FieldOk (field : String) : Prop :=
  field.toList.all fieldChar = true ∧ 1 ≤ field.length ∧ field.length ≤ 128

def ValueOk (value : String) : Prop :=
  value.utf8ByteSize ≤ 1024 ∧ value.toList.all (fun c => !isControl c) = true

def ArityOk (operator : Operator) (count : Nat) : Prop :=
  if operator.set then 1 ≤ count ∧ count ≤ 64 else count = 1

instance (field : String) : Decidable (FieldOk field) :=
  inferInstanceAs (Decidable (_ ∧ _ ∧ _))

instance (value : String) : Decidable (ValueOk value) :=
  inferInstanceAs (Decidable (_ ∧ _))

instance (operator : Operator) (count : Nat) : Decidable (ArityOk operator count) :=
  inferInstanceAs (Decidable (if operator.set then 1 ≤ count ∧ count ≤ 64 else count = 1))

mutual

def Shape : Expr → Prop
  | .compare field operator values =>
    FieldOk field ∧ (∀ v ∈ values, ValueOk v) ∧ ArityOk operator values.length
  | .and children => 2 ≤ children.length ∧ ShapeAll children
  | .or children => 2 ≤ children.length ∧ ShapeAll children

def ShapeAll : List Expr → Prop
  | [] => True
  | e :: es => Shape e ∧ ShapeAll es

end

mutual

def nodeCount : Expr → Nat
  | .compare _ _ _ => 1
  | .and children => 1 + nodeCountAll children
  | .or children => 1 + nodeCountAll children

def nodeCountAll : List Expr → Nat
  | [] => 0
  | e :: es => nodeCount e + nodeCountAll es

end

mutual

/-- Values that the set operators of an expression carry in total. -/
def setCount : Expr → Nat
  | .compare _ operator values => if operator.set then values.length else 0
  | .and children => setCountAll children
  | .or children => setCountAll children

def setCountAll : List Expr → Nat
  | [] => 0
  | e :: es => setCount e + setCountAll es

end

mutual

/-- Parenthesis depth of the printed form. With `bareAnd` an And directly inside an Or stands
without parentheses; every other And or Or child is parenthesised. -/
def parenDepth (bareAnd : Bool) : Expr → Nat
  | .compare _ _ _ => 0
  | .and children => parenDepthAll bareAnd false children
  | .or children => parenDepthAll bareAnd bareAnd children

def parenDepthAll (bareAnd bare : Bool) : List Expr → Nat
  | [] => 0
  | e :: es => max (childDepth bareAnd bare e) (parenDepthAll bareAnd bare es)

def childDepth (bareAnd bare : Bool) : Expr → Nat
  | .compare _ _ _ => 0
  | .and children =>
    if bare then parenDepthAll bareAnd false children
    else parenDepthAll bareAnd false children + 1
  | .or children => parenDepthAll bareAnd bareAnd children + 1

end

/-- The bounds that do not depend on how an expression is written down. -/
structure Bounded (e : Expr) : Prop where
  shape : Shape e
  nodes : nodeCount e ≤ 128
  setItems : setCount e ≤ 256

theorem shapeAll_append {xs ys : List Expr} :
    ShapeAll (xs ++ ys) ↔ ShapeAll xs ∧ ShapeAll ys := by
  induction xs with
  | nil => simp [ShapeAll]
  | cons _ _ ih => simp [ShapeAll, ih, and_assoc]

theorem nodeCountAll_append (xs ys : List Expr) :
    nodeCountAll (xs ++ ys) = nodeCountAll xs + nodeCountAll ys := by
  induction xs with
  | nil => simp [nodeCountAll]
  | cons _ _ ih => simp [nodeCountAll, ih, Nat.add_assoc]

theorem setCountAll_append (xs ys : List Expr) :
    setCountAll (xs ++ ys) = setCountAll xs + setCountAll ys := by
  induction xs with
  | nil => simp [setCountAll]
  | cons _ _ ih => simp [setCountAll, ih, Nat.add_assoc]

theorem childDepth_true_le (bareAnd : Bool) (e : Expr) :
    childDepth bareAnd true e ≤ childDepth bareAnd false e := by
  cases e <;> simp [childDepth]

theorem parenDepth_le_childDepth (bareAnd bare : Bool) (e : Expr) :
    parenDepth bareAnd e ≤ childDepth bareAnd bare e := by
  cases e <;> cases bare <;> simp [childDepth, parenDepth]

theorem childDepth_false_le (bareAnd : Bool) (e : Expr) :
    childDepth bareAnd false e ≤ parenDepth bareAnd e + 1 := by
  cases e <;> simp [childDepth, parenDepth]

namespace Parser

/-- The cursor stands on a boundary with the given text left. -/
def At (p : Parser) (cs : List Char) : Prop := sliceFrom p.input p.offset = some cs

variable {p : Parser} {cs : List Char}

theorem At.rest (h : p.At cs) : p.rest = .ok cs := by
  have hs : sliceFrom p.input p.offset = some cs := h
  simp only [Parser.rest, hs]

theorem At.advance {taken : List Char} (h : p.At (taken ++ cs)) :
    (p.advance (utf8Len taken)).At cs := by
  obtain ⟨before, hin, hlen⟩ := sliceFrom_eq_some.mp h
  exact sliceFrom_eq_some.mpr
    ⟨before ++ taken, by simp [Parser.advance, hin], by simp [Parser.advance, hlen]⟩

variable {c : Char}

theorem At.advance_char (h : p.At (c :: cs)) : (p.advance c.utf8Size).At cs := by
  have htaken : p.At ([c] ++ cs) := h
  exact htaken.advance

theorem At.length_le (h : p.At cs) :
    p.offset + utf8Len cs = utf8Len p.input := by
  obtain ⟨before, hin, hlen⟩ := sliceFrom_eq_some.mp h
  simp [hin, hlen]

theorem eat_cons (h : p.At (c :: cs)) : p.eat c = .ok (true, p.advance c.utf8Size) := by
  simp [Parser.eat, h.rest]

theorem eat_other (h : p.At cs) (hc : cs.head? ≠ some c) : p.eat c = .ok (false, p) := by
  simp [Parser.eat, h.rest, hc]

theorem eat_safe (h : p.At cs) :
    Safe (p.eat c) fun r =>
      (r.1 = true ∧ r.2 = p.advance c.utf8Size ∧ ∃ cs', cs = c :: cs' ∧ r.2.At cs') ∨
        (r.1 = false ∧ r.2 = p) := by
  by_cases hc : cs.head? = some c
  · obtain ⟨cs', rfl⟩ := List.head?_eq_some_iff.mp hc
    rw [eat_cons h]
    exact .inl ⟨rfl, rfl, cs', rfl, h.advance_char⟩
  · rw [eat_other h hc]
    exact .inr ⟨rfl, rfl⟩

theorem node_safe (p : Parser) :
    Safe p.node fun p' => p' = { p with nodes := p.nodes + 1 } ∧ p'.nodes ≤ 128 := by
  unfold Parser.node
  apply Safe.guard
  intro hn
  exact ⟨rfl, by simp only; omega⟩

/-- The cursor moved over text and spent nothing else. -/
structure Forward (p : Parser) (cs : List Char) (p' : Parser) : Prop where
  text : ∃ cs', p'.At cs' ∧ cs'.length ≤ cs.length
  nodes : p'.nodes = p.nodes
  setItems : p'.setItems = p.setItems

end Parser

theorem fieldChar_iff (c : Char) :
    fieldChar c = true ↔
      (0x30 ≤ c.toNat ∧ c.toNat ≤ 0x39) ∨ (0x41 ≤ c.toNat ∧ c.toNat ≤ 0x5a) ∨
        (0x61 ≤ c.toNat ∧ c.toNat ≤ 0x7a) ∨ c.toNat = 0x5f ∨ c.toNat = 0x2e := by
  have hu : c = '_' ↔ c.toNat = 0x5f := by
    rw [← Char.toNat_inj]
    rfl
  have hd : c = '.' ↔ c.toNat = 0x2e := by
    rw [← Char.toNat_inj]
    rfl
  delta fieldChar Char.isAlphanum Char.isAlpha Char.isUpper Char.isLower
  simp only [Char.isDigit, or_eq_true, Bool.and_eq_true, decide_eq_true_eq, ge_iff_le,
    UInt32.le_iff_toNat_le, hu, hd]
  change ((((0x41 ≤ c.toNat ∧ c.toNat ≤ 0x5a) ∨ (0x61 ≤ c.toNat ∧ c.toNat ≤ 0x7a)) ∨
    (0x30 ≤ c.toNat ∧ c.toNat ≤ 0x39)) ∨ _) ∨ _ ↔ _
  omega

theorem fieldByte_iff (b : UInt8) :
    fieldByte b = true ↔
      (0x30 ≤ b.toNat ∧ b.toNat ≤ 0x39) ∨ (0x41 ≤ b.toNat ∧ b.toNat ≤ 0x5a) ∨
        (0x61 ≤ b.toNat ∧ b.toNat ≤ 0x7a) ∨ b.toNat = 0x5f ∨ b.toNat = 0x2e := by
  simp only [fieldByte, or_eq_true, Bool.and_eq_true, decide_eq_true_eq]
  omega

theorem any_fieldByte_firstByte (c : Char) (cs : List Char) :
    (firstByte (c :: cs)).any fieldByte = fieldChar c := by
  rw [Bool.eq_iff_iff, fieldChar_iff, Option.any_eq_true]
  constructor
  · rintro ⟨b, hb, hf⟩
    rw [fieldByte_iff] at hf
    obtain ⟨-, hn⟩ := firstByte_ascii hb (by omega)
    omega
  · intro hc
    refine ⟨_, firstByte_of_ascii cs (by omega), ?_⟩
    rw [fieldByte_iff, UInt8.toNat_ofNat']
    omega

theorem fieldChar_utf8Size {c : Char} (h : fieldChar c = true) : c.utf8Size = 1 := by
  have hany : (firstByte [c]).any fieldByte = true := by rw [any_fieldByte_firstByte, h]
  rw [Option.any_eq_true] at hany
  obtain ⟨b, hb, hf⟩ := hany
  rw [fieldByte_iff] at hf
  exact (firstByte_ascii hb (by omega)).1

variable {fuel : Nat} {p : Parser} {cs : List Char}

theorem fieldEnd_eq (h : p.At cs) (hfuel : cs.length < fuel) :
    fieldEnd fuel p = .ok (p.advance (utf8Len (cs.takeWhile fieldChar))) := by
  induction fuel generalizing p cs with
  | zero => omega
  | succ fuel ih =>
    cases cs with
    | nil => simp [fieldEnd, h.rest, firstByte, Parser.advance]
    | cons c cs =>
      simp only [fieldEnd, h.rest, ok_bind, any_fieldByte_firstByte]
      by_cases hc : fieldChar c = true
      · have hsize : c.utf8Size = 1 := fieldChar_utf8Size hc
        have hnext : (p.advance 1).At cs := hsize ▸ h.advance_char
        rw [if_pos hc, ih hnext (by simpa using hfuel), List.takeWhile_cons_of_pos hc, utf8Len_cons,
          hsize]
        simp [Parser.advance, Nat.add_assoc]
      · rw [if_neg hc, List.takeWhile_cons_of_neg hc]
        simp [Parser.advance]

theorem slice_eq {taken : List Char} (h : p.At (taken ++ cs)) :
    slice p.input p.offset (p.offset + utf8Len taken) = .ok taken := by
  have hs : sliceFrom p.input p.offset = some (taken ++ cs) := h
  have hsub : p.offset + utf8Len taken - p.offset = utf8Len taken := by omega
  simp only [slice, hs, hsub, Option.bind_some, sliceTo_append]

theorem valueChar_safe {quote : Option Char} {c : Char} (h : p.At cs) :
    Safe (valueChar quote c p) fun r => p.Forward cs r.2 := by
  unfold valueChar
  by_cases hc : c = '\\'
  · rw [if_pos hc, h.rest, ok_bind]
    cases cs with
    | nil => exact safe_error _ _
    | cons _ cs =>
      apply Safe.guard
      intro _
      exact ⟨⟨cs, h.advance_char, by simp⟩, rfl, rfl⟩
  · rw [if_neg hc]
    apply Safe.guard
    intro _
    exact ⟨⟨cs, h, le_rfl⟩, rfl, rfl⟩

/-- The characters collected for a value: within the byte budget and none of them a control. -/
def Collected (result : List Char) : Prop :=
  utf8Len result ≤ 1024 ∧ result.all (fun c => !isControl c) = true

theorem valueLoop_safe {quote : Option Char} {result : List Char} {closed : Bool} (h : p.At cs)
    (hfuel : cs.length < fuel) (hresult : Collected result) :
    Safe (valueLoop quote fuel result closed p) fun r => Collected r.1 ∧ p.Forward cs r.2.2 := by
  induction fuel generalizing p cs result with
  | zero => omega
  | succ fuel ih =>
    rw [valueLoop, h.rest, ok_bind]
    cases cs with
    | nil => exact ⟨hresult, ⟨[], h, le_rfl⟩, rfl, rfl⟩
    | cons c cs =>
      simp only [List.head?_cons]
      by_cases hq : quote = some c
      · rw [if_pos hq, Parser.eat_cons h]
        exact ⟨hresult, ⟨cs, h.advance_char, by simp⟩, rfl, rfl⟩
      rw [if_neg hq]
      by_cases hstop : (quote.isNone && (c = ',' || c = ';' || c = ')')) = true
      · rw [if_pos hstop]
        exact ⟨hresult, ⟨_, h, le_rfl⟩, rfl, rfl⟩
      rw [if_neg hstop]
      apply Safe.bind (valueChar_safe h.advance_char)
      rintro ⟨d, p'⟩ ⟨⟨cs', hat, hlen⟩, hnodes, hitems⟩
      dsimp only at hat hnodes hitems ⊢
      apply Safe.guard
      intro hcontrol
      apply Safe.guard
      intro hbytes
      have hcollected : Collected (result ++ [d]) := by
        obtain ⟨hlen, hall⟩ := hresult
        simp only [or_eq_true, not_or, Bool.not_eq_true] at hcontrol
        exact ⟨by simp only [utf8Len_append, utf8Len_cons, utf8Len_nil]; omega,
          by simp [hall, hcontrol.1]⟩
      have hshorter : cs'.length < fuel := by
        simp only [length_cons] at hfuel
        omega
      apply Safe.mono (ih hat hshorter hcollected)
      rintro r ⟨hr, ⟨cs'', hat', hlen'⟩, hnodes', hitems'⟩
      refine ⟨hr, ⟨cs'', hat', ?_⟩, hnodes'.trans hnodes, hitems'.trans hitems⟩
      simp only [length_cons]
      omega

theorem Parser.At.lt_loopFuel (h : p.At cs) : cs.length < p.loopFuel := by
  have hlen : p.offset + utf8Len cs = utf8Len p.input := h.length_le
  have hcs : cs.length ≤ utf8Len cs := length_le_utf8Len cs
  unfold Parser.loopFuel
  omega

-- both quoting modes end in the same loop; only the start of its text differs
theorem valueRest_safe {quote : Option Char} {q : Parser} {cs' : List Char} (hq : q.At cs')
    (hle : cs'.length ≤ cs.length) (hnodes : q.nodes = p.nodes) (hitems : q.setItems = p.setItems) :
    Safe (do
      let (result, closed, q) ← valueLoop quote q.loopFuel [] quote.isNone q
      if !closed || (quote.isNone && result.isEmpty) then .error (.error .invalid)
      else .ok (String.ofList result, q)) fun r => ValueOk r.1 ∧ p.Forward cs r.2 := by
  have hnil : Collected [] := ⟨by simp, rfl⟩
  apply Safe.bind (valueLoop_safe hq hq.lt_loopFuel hnil)
  rintro ⟨result, closed, q'⟩ ⟨⟨hbytes, hall⟩, ⟨cs'', hat, hlen⟩, hnodes', hitems'⟩
  apply Safe.guard
  intro _
  refine ⟨⟨?_, ?_⟩, ⟨cs'', hat, by omega⟩, hnodes'.trans hnodes, hitems'.trans hitems⟩
  · rw [utf8ByteSize_eq, String.toList_ofList]
    exact hbytes
  · rw [String.toList_ofList]
    exact hall

theorem value_safe (h : p.At cs) :
    Safe (value p) fun r => ValueOk r.1 ∧ p.Forward cs r.2 := by
  rw [value, h.rest, ok_bind]
  cases hquote : cs.head?.filter isQuote with
  | none => exact valueRest_safe h (le_rfl) rfl rfl
  | some =>
    obtain ⟨cs', rfl⟩ := List.head?_eq_some_iff.mp (Option.filter_eq_some_iff.mp hquote).1
    simp only [Parser.eat_cons h, ok_bind]
    exact valueRest_safe h.advance_char (by simp) rfl rfl

theorem setLoop_safe {values : List String} (h : p.At cs) (hfuel : cs.length < fuel)
    (hvalues : ∀ v ∈ values, ValueOk v) :
    Safe (setLoop fuel values p) fun r =>
      (∀ v ∈ r.1, ValueOk v) ∧ 1 ≤ r.1.length ∧ r.1.length ≤ 64 ∧
        (∃ cs', r.2.At cs' ∧ cs'.length ≤ cs.length) ∧ r.2.nodes = p.nodes ∧
        r.2.setItems + values.length = p.setItems + r.1.length ∧ r.2.setItems ≤ 256 := by
  induction fuel generalizing p cs values with
  | zero => omega
  | succ _ ih =>
    apply Safe.guard
    intro hbudget
    simp only [or_eq_true, decide_eq_true_eq, not_or, Nat.not_le] at hbudget
    have hstart : Parser.At { p with setItems := p.setItems + 1 } cs := h
    apply Safe.bind (value_safe hstart)
    rintro ⟨v, p₁⟩ ⟨hv, ⟨cs₁, h₁, hle₁⟩, hnodes₁, hitems₁⟩
    dsimp only at hv h₁ hnodes₁ hitems₁ ⊢
    have hvalues' : ∀ w ∈ values ++ [v], ValueOk w := by
      intro w hw
      rcases List.mem_append.mp hw with hw | hw
      · exact hvalues w hw
      · rw [List.mem_singleton.mp hw]
        exact hv
    apply Safe.bind (Parser.eat_safe h₁)
    rintro ⟨closed, p₂⟩ (⟨rfl, rfl, cs₂, rfl, h₂⟩ | ⟨rfl, rfl⟩)
    · simp only [length_cons] at hle₁
      exact ⟨hvalues', by simp, by simp; omega, ⟨cs₂, h₂, by omega⟩, hnodes₁,
        by simp [Parser.advance, hitems₁]; omega, by simp [Parser.advance, hitems₁]; omega⟩
    · simp only [false_eq_true, if_false]
      apply Safe.bind (Parser.eat_safe h₁)
      rintro ⟨comma, p₃⟩ (⟨rfl, rfl, cs₃, rfl, h₃⟩ | ⟨rfl, rfl⟩)
      · simp only [length_cons] at hle₁
        apply Safe.mono (ih h₃ (by omega) hvalues')
        rintro ⟨out, p₄⟩ ⟨hout, hpos, hmax, ⟨cs₄, h₄, hle₄⟩, hnodes₄, hitems₄, hlimit⟩
        dsimp only at *
        refine ⟨hout, hpos, hmax, ⟨cs₄, h₄, by omega⟩, hnodes₄.trans hnodes₁, ?_, hlimit⟩
        simp only [List.length_append, List.length_singleton, Parser.advance, hitems₁] at hitems₄
        omega
      · exact safe_error _ _

/-- What building an expression from the text `cs` leaves behind. -/
structure Built (p : Parser) (cs : List Char) (e : Expr) (p' : Parser) : Prop where
  text : ∃ cs', p'.At cs' ∧ cs'.length ≤ cs.length
  shape : Shape e
  nodes : p'.nodes = p.nodes + nodeCount e
  nodesMax : p'.nodes ≤ 128
  setItems : p'.setItems = p.setItems + setCount e
  setItemsMax : p.setItems ≤ 256 → p'.setItems ≤ 256

theorem takeWhile_fieldOk (hpos : utf8Len (cs.takeWhile fieldChar) ≠ 0)
    (hmax : utf8Len (cs.takeWhile fieldChar) ≤ 128) :
    FieldOk (String.ofList (cs.takeWhile fieldChar)) := by
  have hlen : (cs.takeWhile fieldChar).length ≤ utf8Len (cs.takeWhile fieldChar) :=
    length_le_utf8Len _
  refine ⟨by rw [String.toList_ofList]; exact List.all_takeWhile, ?_, ?_⟩
  · rw [String.length_ofList, Nat.one_le_iff_ne_zero, Ne, List.length_eq_zero_iff]
    intro hnil
    rw [hnil] at hpos
    exact hpos rfl
  · rw [String.length_ofList]
    omega

theorem comparison_safe (h : p.At cs) :
    Safe (comparison p) fun r => Built p cs r.1 r.2 ∧ childDepth true false r.1 = 0 := by
  unfold comparison
  apply Safe.bind (Parser.node_safe p)
  rintro p₁ ⟨rfl, hnodes⟩
  have h₁ : Parser.At { p with nodes := p.nodes + 1 } cs := h
  generalize hp₁ : { p with nodes := p.nodes + 1 } = p₁ at h₁ hnodes
  have hn : p₁.nodes = p.nodes + 1 := by rw [← hp₁]
  have hs : p₁.setItems = p.setItems := by rw [← hp₁]
  have hsplit : cs = cs.takeWhile fieldChar ++ cs.dropWhile fieldChar :=
    (List.takeWhile_append_dropWhile).symm
  rw [fieldEnd_eq h₁ h₁.lt_loopFuel, ok_bind]
  apply Safe.guard
  intro hfield
  simp only [or_eq_true, decide_eq_true_eq, not_or] at hfield
  simp only [Parser.advance] at hfield
  have hfieldOk : FieldOk (String.ofList (cs.takeWhile fieldChar)) :=
    takeWhile_fieldOk (by omega) (by omega)
  rw [hsplit] at h₁
  have h₂ : (p₁.advance (utf8Len (cs.takeWhile fieldChar))).At (cs.dropWhile fieldChar) := h₁.advance
  have hle₂ : (cs.dropWhile fieldChar).length ≤ cs.length :=
    (List.dropWhile_sublist _).length_le
  have hslice : slice (p₁.advance (utf8Len (cs.takeWhile fieldChar))).input p₁.offset
      (p₁.advance (utf8Len (cs.takeWhile fieldChar))).offset = .ok (cs.takeWhile fieldChar) :=
    slice_eq h₁
  rw [hslice, ok_bind, h₂.rest, ok_bind]
  split
  · exact safe_error _ _
  rename_i token operator hfind
  have hprefix : token.toList <+: cs.dropWhile fieldChar := by
    have hfound := List.find?_some hfind
    exact List.isPrefixOf_iff_prefix.mp hfound
  obtain ⟨after, hafter⟩ := hprefix
  rw [← hafter] at h₂ hle₂
  have h₃ := h₂.advance
  rw [← utf8ByteSize_eq] at h₃
  simp only [List.length_append] at hle₂
  by_cases hset : operator.set = true
  · rw [if_pos hset]
    apply Safe.bind (Parser.eat_safe h₃)
    rintro ⟨opened, p₄⟩ (⟨rfl, rfl, cs₄, rfl, h₄⟩ | ⟨rfl, rfl⟩)
    · simp only [length_cons] at hle₂
      apply Safe.bind (setLoop_safe h₄ h₄.lt_loopFuel (by simp))
      rintro ⟨values, p₅⟩ ⟨hvalues, hpos, hmax, ⟨cs₅, h₅, hle₅⟩, hnodes₅, hitems₅, hlimit⟩
      dsimp only [Parser.advance] at hnodes₅ hitems₅ h₅ hlimit hpos hmax hvalues
      refine ⟨⟨⟨cs₅, h₅, by omega⟩, ⟨hfieldOk, hvalues, ?_⟩, ?_, ?_, ?_, fun _ => hlimit⟩, rfl⟩
      · simp only [ArityOk, hset, if_true]
        exact ⟨hpos, hmax⟩
      · simp only [nodeCount]
        omega
      · dsimp only
        omega
      · simp only [setCount, hset, if_true, List.length_nil] at hitems₅ ⊢
        omega
    · exact safe_error _ _
  · rw [if_neg hset]
    apply Safe.bind (value_safe h₃)
    rintro ⟨v, p₄⟩ ⟨hv, ⟨cs₄, h₄, hle₄⟩, hnodes₄, hitems₄⟩
    dsimp only [Parser.advance] at hnodes₄ hitems₄ h₄ hv
    refine ⟨⟨⟨cs₄, h₄, by omega⟩, ⟨hfieldOk, by simpa using hv, ?_⟩, ?_, ?_, ?_, ?_⟩, rfl⟩
    · simp [ArityOk, hset]
    · simp only [nodeCount]
      omega
    · dsimp only
      omega
    · simp only [setCount, hset, if_false, false_eq_true]
      omega
    · intro hmax
      dsimp only
      omega

/-- Depth of an expression read at a precedence level: an Or needs parentheses above level 0, an
And above level 1. -/
def levelDepth (precedence : Nat) (e : Expr) : Nat :=
  if precedence = 0 then parenDepth true e else childDepth true (precedence = 1) e

theorem levelDepth_succ_le (precedence : Nat) (e : Expr) :
    levelDepth precedence e ≤ levelDepth (precedence + 1) e := by
  unfold levelDepth
  rcases precedence with _ | _ | precedence
  · exact parenDepth_le_childDepth _ _ _
  · exact childDepth_true_le _ _
  · exact le_rfl

def callFuel (length precedence : Nat) : Nat := 4 * length + (4 - precedence)

/-- What the loop over the children after the first leaves behind. -/
structure BuiltAll (p : Parser) (cs : List Char) (more : List Expr) (p' : Parser) : Prop where
  text : ∃ cs', p'.At cs' ∧ cs'.length ≤ cs.length
  nonempty : 1 ≤ more.length
  shape : ShapeAll more
  nodes : p'.nodes = p.nodes + nodeCountAll more
  nodesMax : p'.nodes ≤ 128
  setItems : p'.setItems = p.setItems + setCountAll more
  setItemsMax : p.setItems ≤ 256 → p'.setItems ≤ 256

/-- What a call at a precedence level guarantees once it has the fuel for its text. -/
def LogicalSafe (fuel : Nat) : Prop :=
  ∀ precedence depth p cs, precedence ≤ 2 → Parser.At p cs →
    callFuel cs.length precedence ≤ fuel →
    Safe (logical fuel precedence depth p) fun r =>
      Built p cs r.1 r.2 ∧ depth + levelDepth precedence r.1 ≤ 16

def LogicalLoopSafe (fuel : Nat) : Prop :=
  ∀ precedence depth children p cs, precedence ≤ 1 → Parser.At p cs →
    callFuel cs.length precedence ≤ fuel →
    Safe (logicalLoop fuel precedence depth children p) fun r =>
      ∃ more, r.1 = children ++ more ∧ BuiltAll p cs more r.2 ∧
        ∀ e ∈ more, depth + levelDepth (precedence + 1) e ≤ 16

def AtomSafe (fuel : Nat) : Prop :=
  ∀ depth p cs, depth ≤ 16 → Parser.At p cs → callFuel cs.length 3 ≤ fuel →
    Safe (atom fuel depth p) fun r => Built p cs r.1 r.2 ∧ depth + levelDepth 2 r.1 ≤ 16

theorem atom_safe (hlogical : LogicalSafe fuel) : AtomSafe (fuel + 1) := by
  intro depth p cs hdepth h hfuel
  rw [atom]
  apply Safe.bind (Parser.eat_safe h)
  rintro ⟨opened, p₁⟩ (⟨rfl, rfl, cs₁, rfl, h₁⟩ | ⟨rfl, rfl⟩)
  · simp only [if_true]
    apply Safe.guard
    intro hnot
    simp only [callFuel, length_cons] at hfuel
    apply Safe.bind (hlogical 0 (depth + 1) _ cs₁ (by omega) h₁ (by simp only [callFuel]; omega))
    rintro ⟨inner, p₂⟩ ⟨⟨⟨cs₂, h₂, hle₂⟩, hshape, hnodes, hnodesMax, hitems, hitemsMax⟩, hlevel⟩
    dsimp only [Parser.advance] at h₂ hshape hnodes hnodesMax hitems hitemsMax hlevel
    apply Safe.bind (Parser.eat_safe h₂)
    rintro ⟨closed, p₃⟩ (⟨rfl, rfl, cs₃, rfl, h₃⟩ | ⟨rfl, rfl⟩)
    · simp only [length_cons] at hle₂
      refine ⟨⟨⟨cs₃, h₃, by simp only [length_cons]; omega⟩, hshape, hnodes, hnodesMax, hitems,
        hitemsMax⟩, ?_⟩
      have hparens : levelDepth 2 inner ≤ levelDepth 0 inner + 1 := childDepth_false_le _ _
      dsimp only
      omega
    · exact safe_error _ _
  · simp only [false_eq_true, if_false]
    apply Safe.mono (comparison_safe h)
    rintro ⟨e, p₂⟩ ⟨hbuilt, hzero⟩
    refine ⟨hbuilt, ?_⟩
    have hlevel : levelDepth 2 e = 0 := hzero
    dsimp only
    omega

theorem logicalLoop_safe (hlogical : LogicalSafe fuel) (hloop : LogicalLoopSafe fuel) :
    LogicalLoopSafe (fuel + 1) := by
  intro precedence depth children p cs hprec h hfuel
  rw [logicalLoop]
  simp only [callFuel] at hfuel
  apply Safe.bind (hlogical (precedence + 1) depth p cs (by omega) h
    (by simp only [callFuel]; omega))
  rintro ⟨child, p₁⟩ ⟨⟨⟨cs₁, h₁, hle₁⟩, hshape, hnodes, hnodesMax, hitems, hitemsMax⟩, hlevel⟩
  dsimp only at h₁ hshape hnodes hnodesMax hitems hitemsMax hlevel
  apply Safe.bind (Parser.eat_safe h₁)
  rintro ⟨more, p₂⟩ (⟨rfl, rfl, cs₂, rfl, h₂⟩ | ⟨rfl, rfl⟩)
  · simp only [length_cons] at hle₁
    apply Safe.mono (hloop precedence depth (children ++ [child]) _ cs₂ hprec h₂
      (by simp only [callFuel]; omega))
    rintro ⟨out, p₃⟩ ⟨rest, rfl, ⟨⟨cs₃, h₃, hle₃⟩, _, hshape₃, hnodes₃, hmax₃, hitems₃,
      hitemsMax₃⟩, hlevel₃⟩
    dsimp only [Parser.advance] at h₃ hnodes₃ hmax₃ hitems₃ hitemsMax₃ hlevel₃
    refine ⟨child :: rest, by simp, ⟨⟨cs₃, h₃, by omega⟩, by simp, ⟨hshape, hshape₃⟩, ?_, hmax₃, ?_,
      fun hp => hitemsMax₃ (hitemsMax hp)⟩, ?_⟩
    · simp only [nodeCountAll]
      omega
    · simp only [setCountAll]
      omega
    · intro e he
      rcases List.mem_cons.mp he with rfl | he
      · exact hlevel
      · exact hlevel₃ e he
  · simp only [false_eq_true, if_false]
    refine ⟨[child], rfl, ⟨⟨cs₁, h₁, hle₁⟩, by simp, ⟨hshape, trivial⟩, ?_, hnodesMax, ?_,
      hitemsMax⟩, ?_⟩
    · simpa [nodeCountAll] using hnodes
    · simpa [setCountAll] using hitems
    · intro e he
      rw [List.mem_singleton.mp he]
      exact hlevel

theorem levelDepth_children {precedence bound : Nat} {children : List Expr}
    (hprec : precedence ≤ 1) (h : ∀ e ∈ children, levelDepth (precedence + 1) e ≤ bound) :
    levelDepth precedence (if precedence = 0 then .or children else .and children) ≤ bound := by
  have hall : ∀ bare, (∀ e ∈ children, childDepth true bare e ≤ bound) →
      parenDepthAll true bare children ≤ bound := by
    intro bare
    clear h
    induction children with
    | nil => intro _; exact Nat.zero_le _
    | cons e _ ih =>
      intro he
      exact Nat.max_le.mpr ⟨he e (by simp), ih fun x hx => he x (by simp [hx])⟩
  rcases precedence with _ | _ | precedence
  · exact hall true h
  · exact hall false h
  · omega

theorem logical_safe (hlogical : LogicalSafe fuel) (hloop : LogicalLoopSafe fuel)
    (hatom : AtomSafe fuel) : LogicalSafe (fuel + 1) := by
  intro precedence depth p cs hprec h hfuel
  rw [logical]
  simp only [callFuel] at hfuel
  apply Safe.guard
  intro hdepth
  by_cases htwo : precedence = 2
  · subst htwo
    exact hatom depth p cs (by omega) h (by simp only [callFuel]; omega)
  rw [if_neg htwo]
  apply Safe.bind (hlogical (precedence + 1) depth p cs (by omega) h
    (by simp only [callFuel]; omega))
  rintro ⟨first, p₁⟩ ⟨⟨⟨cs₁, h₁, hle₁⟩, hshape, hnodes, hnodesMax, hitems, hitemsMax⟩, hlevel⟩
  dsimp only at h₁ hshape hnodes hnodesMax hitems hitemsMax hlevel
  apply Safe.bind (Parser.eat_safe h₁)
  rintro ⟨more, p₂⟩ (⟨rfl, rfl, cs₂, rfl, h₂⟩ | ⟨rfl, rfl⟩)
  · simp only [length_cons] at hle₁
    apply Safe.bind (Parser.node_safe _)
    rintro p₃ ⟨hp₃, -⟩
    have h₃ : p₃.At cs₂ := by
      rw [hp₃]
      exact h₂
    apply Safe.bind (hloop precedence depth [first] p₃ cs₂ (by omega) h₃
      (by simp only [callFuel]; omega))
    rintro ⟨children, p₄⟩ ⟨rest, rfl, ⟨⟨cs₄, h₄, hle₄⟩, hpos, hshape₄, hnodes₄, hmax₄, hitems₄,
      hitemsMax₄⟩, hlevel₄⟩
    simp only [hp₃, Parser.advance] at h₄ hnodes₄ hmax₄ hitems₄ hitemsMax₄ hlevel₄
    have hchildren : ∀ e ∈ first :: rest, levelDepth (precedence + 1) e ≤ 16 - depth := by
      intro e he
      rcases List.mem_cons.mp he with rfl | he
      · omega
      · have := hlevel₄ e he
        omega
    have hdeep := levelDepth_children (by omega) hchildren
    refine ⟨⟨⟨cs₄, h₄, by omega⟩, ?_, ?_, hmax₄, ?_, fun hp => hitemsMax₄ (hitemsMax hp)⟩, ?_⟩
    · have hall : 2 ≤ (first :: rest).length ∧ ShapeAll (first :: rest) :=
        ⟨by simp only [length_cons]; omega, hshape, hshape₄⟩
      split <;> exact hall
    · dsimp only
      split <;> simp only [cons_append, nil_append, nodeCount, nodeCountAll] <;> omega
    · dsimp only
      split <;> simp only [cons_append, nil_append, setCount, setCountAll] <;> omega
    · simp only [cons_append, nil_append]
      omega
  · simp only [Bool.not_false, if_true]
    refine ⟨⟨⟨cs₁, h₁, hle₁⟩, hshape, hnodes, hnodesMax, hitems, hitemsMax⟩, ?_⟩
    have hlower : levelDepth precedence first ≤ levelDepth (precedence + 1) first :=
      levelDepth_succ_le precedence first
    dsimp only
    omega

theorem recursion_safe (fuel : Nat) : LogicalSafe fuel ∧ LogicalLoopSafe fuel ∧ AtomSafe fuel := by
  induction fuel with
  | zero =>
    refine ⟨?_, ?_, ?_⟩
    · intro precedence depth p cs hprec _ hfuel
      simp only [callFuel] at hfuel
      omega
    · intro precedence depth children p cs hprec _ hfuel
      simp only [callFuel] at hfuel
      omega
    · intro depth p cs _ _ hfuel
      simp only [callFuel] at hfuel
      omega
  | succ _ ih =>
    obtain ⟨hlogical, hloop, hatom⟩ := ih
    exact ⟨logical_safe hlogical hloop hatom, logicalLoop_safe hlogical hloop, atom_safe hlogical⟩

theorem parse_safe (input : String) :
    Safe (parse input) fun e =>
      Bounded e ∧ parenDepth true e ≤ 16 ∧ input.utf8ByteSize ≤ maxFilterBytes := by
  unfold parse
  apply Safe.guard
  intro hbytes
  have hstart : Parser.At { input := input.toList, offset := 0, nodes := 0, setItems := 0 }
      input.toList := sliceFrom_zero _
  have hfuel : callFuel input.toList.length 0 ≤ recursionFuel input.length := by
    simp only [callFuel, recursionFuel, String.length_toList]
    omega
  apply Safe.bind ((recursion_safe _).1 0 0 _ _ (by omega) hstart hfuel)
  rintro ⟨e, p⟩ ⟨hbuilt, hlevel⟩
  apply Safe.guard
  intro _
  have hnodes := hbuilt.nodes
  have hnodesMax := hbuilt.nodesMax
  have hitems := hbuilt.setItems
  have hitemsMax := hbuilt.setItemsMax (by simp)
  dsimp only at hnodes hnodesMax hitems hitemsMax hlevel
  have hdepth : levelDepth 0 e = parenDepth true e := rfl
  exact ⟨⟨hbuilt.shape, by omega, by omega⟩, by omega, by omega⟩

end RssMdm.Query.Filter
