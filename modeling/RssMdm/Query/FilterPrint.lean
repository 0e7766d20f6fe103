/- module: Query/FilterPrint
   source: crates/query/src/parser.rs
   digest: Printed filters parse back to their expression; what the grammar accepts and rejects. -/

import RssMdm.Query.FilterGrammar

set_option autoImplicit false

namespace RssMdm.Query.Filter

open Lib.Fallible Lib.Outcome Lib.Text
open String (toList_ofList)
open Bool (false_eq_true)

/-- How a filter is written: the quote around values, and whether an And directly inside an Or
stands without parentheses. -/
structure Layout where
  quote : Char
  bareAnd : Bool
  isQuote_quote : isQuote quote = true

/-- Single quotes, and parentheses around every And or Or that is a child. -/
def canonical : Layout := ⟨'\'', false, rfl⟩

/-- Only the parentheses that the precedence of the operators asks for. -/
def minimal : Layout := ⟨'\'', true, rfl⟩

def escape (quote : Char) : List Char → List Char
  | [] => []
  | c :: cs => if c = '\\' || c = quote then '\\' :: c :: escape quote cs else c :: escape quote cs

def printValue (l : Layout) (v : String) : List Char :=
  l.quote :: (escape l.quote v.toList ++ [l.quote])

/-- The values after the first, and the parenthesis that closes the set. -/
def printSetTail (l : Layout) : List String → List Char
  | [] => [')']
  | v :: vs => ',' :: (printValue l v ++ printSetTail l vs)

def printValues (l : Layout) (operator : Operator) : List String → List Char
  | [] => []
  | v :: vs => if operator.set then '(' :: (printValue l v ++ printSetTail l vs) else printValue l v

mutual

def print (l : Layout) : Expr → List Char
  | .compare field operator values =>
    field.toList ++ ((token operator).toList ++ printValues l operator values)
  | .and children => printChildren l ';' false children
  | .or children => printChildren l ',' l.bareAnd children

def printChildren (l : Layout) (separator : Char) (bare : Bool) : List Expr → List Char
  | [] => []
  | e :: es => printChild l bare e ++ printTail l separator bare es

def printTail (l : Layout) (separator : Char) (bare : Bool) : List Expr → List Char
  | [] => []
  | e :: es => separator :: (printChild l bare e ++ printTail l separator bare es)

def printChild (l : Layout) (bare : Bool) : Expr → List Char
  | .compare field operator values =>
    field.toList ++ ((token operator).toList ++ printValues l operator values)
  | .and children =>
    if bare then printChildren l ';' false children
    else '(' :: (printChildren l ';' false children ++ [')'])
  | .or children => '(' :: (printChildren l ',' l.bareAnd children ++ [')'])

end

theorem escapable_of_escaped {quote c : Char} (hquote : isQuote quote = true)
    (hc : c = '\\' ∨ c = quote) : escapable c = true := by
  rcases hc with rfl | rfl
  · rfl
  · simp only [isQuote, Bool.or_eq_true, decide_eq_true_eq] at hquote
    rcases hquote with rfl | rfl <;> rfl

theorem escape_escaped {quote : Char} (hquote : isQuote quote = true) {v : List Char}
    (hv : v.all (fun c => !isControl c) = true) : Escaped (some quote) (escape quote v) v := by
  induction v with
  | nil => exact .nil
  | cons c v ih =>
    simp only [List.all_cons, Bool.and_eq_true, Bool.not_eq_true'] at hv
    obtain ⟨hcontrol, hv⟩ := hv
    by_cases hc : c = '\\' ∨ c = quote
    · have hesc : escape quote (c :: v) = '\\' :: c :: escape quote v := by
        simp [escape, hc]
      rw [hesc]
      exact .escape (escapable_of_escaped hquote hc) (ih hv)
    · have hesc : escape quote (c :: v) = c :: escape quote v := by
        simp [escape, hc]
      obtain ⟨hback, hquoted⟩ := not_or.mp hc
      have hquoted' : ¬quote = c := fun heq => hquoted heq.symm
      rw [hesc]
      refine .plain ?_ (ih hv)
      simp [plainChar, hback, hquoted', hcontrol]

theorem spelled_printValue (l : Layout) {v : String} (hv : ValueOk v) :
    Spelled (printValue l v) v := by
  have hquoted := Spelled.quoted l.isQuote_quote (escape_escaped l.isQuote_quote hv.2)
  rwa [String.ofList_toList] at hquoted

theorem spelledAll_printed (l : Layout) {v : String} {vs : List String}
    (hvalues : ∀ w ∈ v :: vs, ValueOk w) :
    SpelledAll (printValue l v ++ printSetTail l vs) (v :: vs) := by
  induction vs generalizing v with
  | nil => exact .last (spelled_printValue l (hvalues v (by simp)))
  | cons w vs ih =>
    have hvalues' : ∀ x ∈ w :: vs, ValueOk x := fun x hx => hvalues x (List.mem_cons_of_mem v hx)
    exact .cons (spelled_printValue l (hvalues v (by simp))) (ih hvalues')

variable {values : List String}

theorem operand_printed (l : Layout) {operator : Operator} (hvalues : ∀ w ∈ values, ValueOk w)
    (harity : ArityOk operator values.length) :
    Operand operator (printValues l operator values) values := by
  cases values with
  | nil =>
    simp only [ArityOk, List.length_nil] at harity
    split at harity <;> omega
  | cons v vs =>
    by_cases hset : operator.set = true
    · have htext : printValues l operator (v :: vs) = '(' :: (printValue l v ++ printSetTail l vs) := by
        simp [printValues, hset]
      rw [htext]
      exact .set hset (spelledAll_printed l hvalues)
    · simp only [ArityOk, hset, if_false, false_eq_true] at harity
      obtain rfl : vs = [] := by
        simpa using harity
      have htext : printValues l operator [v] = printValue l v := by
        simp [printValues, hset]
      rw [htext]
      exact .single (by simpa using hset) (spelled_printValue l (hvalues v (by simp)))

/-- What follows a text read at a precedence level does not continue it. -/
def Ends (level : Nat) (rest : List Char) : Prop :=
  ∀ k, level ≤ k → k ≤ 1 → rest.head? ≠ some (separator k)

/-- At a precedence level the parser reads the text as the expression, from any state that has the
budget for it. -/
def Reads (level depth : Nat) (text : List Char) (e : Expr) : Prop :=
  ∀ fuel outer p rest, Parser.At p (text ++ rest) → Ends level rest →
    p.nodes + nodeCount e ≤ 128 → p.setItems + setCount e ≤ 256 → outer + depth ≤ 16 →
    callFuel (text ++ rest).length level ≤ fuel →
    logical fuel level outer p = .ok (e, p.after text (nodeCount e) (setCount e))

theorem ends_following : Following Ends where
  stops low high follows := follows _ low high
  above follows := fun k hk hk' => follows k (by omega) hk'
  separated {level} low rest := by
    intro k hk hk'
    have h₀ : level = 0 := by omega
    have h₁ : k = 1 := by omega
    subst h₀ h₁
    simp [separator]
  closed rest := by
    intro k _ _
    unfold separator
    split <;> simp

theorem Reads.deeper {level d d' : Nat} {text : List Char} {e : Expr} (h : Reads level d text e)
    (hd : d ≤ d') : Reads level d' text e :=
  ReadsBefore.deeper h hd

theorem Reads.lift {level d : Nat} {text : List Char} {e : Expr} (hlevel : level ≤ 1)
    (h : Reads (level + 1) d text e) : Reads level d text e :=
  ReadsBefore.lift ends_following hlevel h

theorem Reads.paren {d : Nat} {text : List Char} {e : Expr} (h : Reads 0 d text e) :
    Reads 2 (d + 1) ('(' :: (text ++ [')'])) e :=
  ReadsBefore.paren ends_following h

theorem reads_comparison (l : Layout) {field : String} {operator : Operator}
    (hshape : Shape (.compare field operator values)) :
    Reads 2 0 (print l (.compare field operator values)) (.compare field operator values) := by
  have hoperand := operand_printed l hshape.2.1 hshape.2.2
  refine ReadsBefore.comparison hshape hoperand (fun hone => .inr ?_) 0
  cases values with
  | nil => cases hoperand
  | cons => simp [printValues, hone, printValue, l.isQuote_quote]

inductive ReadsAll (l : Layout) (level depth : Nat) (bare : Bool) : List Expr → Prop
  | nil : ReadsAll l level depth bare []
  | cons {e : Expr} {es : List Expr} (head : Reads (level + 1) depth (printChild l bare e) e)
      (tail : ReadsAll l level depth bare es) : ReadsAll l level depth bare (e :: es)

theorem ReadsAll.each {l : Layout} {level depth : Nat} {bare : Bool} {es : List Expr}
    (h : ReadsAll l level depth bare es) :
    ∀ piece ∈ es.map (fun e => (printChild l bare e, e)),
      ReadsBefore Ends (level + 1) depth piece.1 piece.2 := by
  induction h with
  | nil =>
    intro piece mem
    cases mem
  | cons head _ ih =>
    intro piece mem
    rcases List.mem_cons.mp mem with rfl | mem
    · exact head
    · exact ih piece mem

theorem printChildren_eq_joined (l : Layout) (separator : Char) (bare : Bool) (es : List Expr) :
    printChildren l separator bare es = joined separator (es.map (printChild l bare)) := by
  have htail : ∀ e es, printChild l bare e ++ printTail l separator bare es =
      joined separator ((e :: es).map (printChild l bare)) := by
    intro e es
    induction es generalizing e with
    | nil => simp [printTail, joined]
    | cons e' es ih =>
      have hmore : (e' :: es).map (printChild l bare) ≠ [] := by simp
      rw [printTail, ih e']
      exact (joined_cons hmore).symm
  cases es with
  | nil => rfl
  | cons => rw [printChildren, htail]

theorem Reads.operator (l : Layout) {level depth : Nat} {bare : Bool} (hlevel : level ≤ 1)
    {e e' : Expr} {es : List Expr} (h : ReadsAll l level depth bare (e :: e' :: es)) :
    Reads level depth (printChildren l (separator level) bare (e :: e' :: es))
      (if level = 0 then .or (e :: e' :: es) else .and (e :: e' :: es)) := by
  have hread := ReadsBefore.operator ends_following hlevel (by simp) h.each
  simp only [List.map_map, Function.comp_def, List.map_id'] at hread
  rw [printChildren_eq_joined]
  exact hread

/-- The three levels at which an expression is printed, each read back at its own level. -/
structure ReadsBack (l : Layout) (e : Expr) : Prop where
  whole : Reads 0 (parenDepth l.bareAnd e) (print l e) e
  inOr : Reads 1 (childDepth l.bareAnd l.bareAnd e) (printChild l l.bareAnd e) e
  inAnd : Reads 2 (childDepth l.bareAnd false e) (printChild l false e) e

theorem readsBack_compare (l : Layout) {field : String} {operator : Operator}
    (hshape : Shape (.compare field operator values)) :
    ReadsBack l (.compare field operator values) := by
  have hatom := reads_comparison l hshape
  have hterm : Reads 1 0 _ _ := hatom.lift (by omega)
  exact ⟨hterm.lift (by omega), hterm, hatom⟩

theorem readsBack_and (l : Layout) {children : List Expr} (htwo : 2 ≤ children.length)
    (h : ReadsAll l 1 (parenDepthAll l.bareAnd false children) false children) :
    ReadsBack l (.and children) := by
  match children, htwo with
  | e :: e' :: es, _ =>
    have hterm : Reads 1 _ (printChildren l ';' false (e :: e' :: es)) (.and (e :: e' :: es)) :=
      .operator l (by omega) h
    have hwhole := hterm.lift (by omega)
    have hatom := hwhole.paren
    refine ⟨hwhole, ?_, hatom⟩
    cases hbare : l.bareAnd with
    | true =>
      simp only [printChild, childDepth, if_true]
      rwa [hbare] at hterm
    | false =>
      simp only [printChild, childDepth, false_eq_true, if_false]
      rw [hbare] at hatom
      exact hatom.lift (by omega)

theorem readsBack_or (l : Layout) {children : List Expr} (htwo : 2 ≤ children.length)
    (h : ReadsAll l 0 (parenDepthAll l.bareAnd l.bareAnd children) l.bareAnd children) :
    ReadsBack l (.or children) := by
  match children, htwo with
  | e :: e' :: es, _ =>
    have hwhole : Reads 0 _ (printChildren l ',' l.bareAnd (e :: e' :: es)) (.or (e :: e' :: es)) :=
      .operator l (by omega) h
    have hatom := hwhole.paren
    exact ⟨hwhole, hatom.lift (by omega), hatom⟩

mutual

theorem readsBack (l : Layout) : ∀ e : Expr, Shape e → ReadsBack l e
  | .compare _ _ _, hshape => readsBack_compare l hshape
  | .and children, ⟨htwo, hall⟩ =>
    readsBack_and l htwo (readsAll_inAnd l children hall _ (le_rfl))
  | .or children, ⟨htwo, hall⟩ =>
    readsBack_or l htwo (readsAll_inOr l children hall _ (le_rfl))

theorem readsAll_inAnd (l : Layout) : ∀ es : List Expr, ShapeAll es →
    ∀ depth, parenDepthAll l.bareAnd false es ≤ depth → ReadsAll l 1 depth false es
  | [], _, _, _ => .nil
  | e :: es, ⟨hshape, hall⟩, depth, hdepth =>
    .cons ((readsBack l e hshape).inAnd.deeper (Nat.le_trans (Nat.le_max_left _ _) hdepth))
      (readsAll_inAnd l es hall depth (Nat.le_trans (Nat.le_max_right _ _) hdepth))

theorem readsAll_inOr (l : Layout) : ∀ es : List Expr, ShapeAll es →
    ∀ depth, parenDepthAll l.bareAnd l.bareAnd es ≤ depth → ReadsAll l 0 depth l.bareAnd es
  | [], _, _, _ => .nil
  | e :: es, ⟨hshape, hall⟩, depth, hdepth =>
    .cons ((readsBack l e hshape).inOr.deeper (Nat.le_trans (Nat.le_max_left _ _) hdepth))
      (readsAll_inOr l es hall depth (Nat.le_trans (Nat.le_max_right _ _) hdepth))

end

def printed (l : Layout) (e : Expr) : String := String.ofList (print l e)

theorem parse_printed (l : Layout) {e : Expr} (hbounded : Bounded e)
    (hdepth : parenDepth l.bareAnd e ≤ 16) (hbytes : (printed l e).utf8ByteSize ≤ maxFilterBytes) :
    parse (printed l e) = .ok e := by
  have htext : (printed l e).toList = print l e := by rw [printed, toList_ofList]
  have hlen : (printed l e).length = (print l e).length := by rw [← String.length_toList, htext]
  have hat : Parser.At { input := print l e, offset := 0, nodes := 0, setItems := 0 }
      (print l e ++ []) := by
    rw [List.append_nil]
    exact sliceFrom_zero _
  have hends : Ends 0 [] := by
    intro k _ _
    simp
  have hread := (readsBack l e hbounded.shape).whole (recursionFuel (print l e).length) 0 _ [] hat
    hends (by simpa using hbounded.nodes) (by simpa using hbounded.setItems) (by omega)
    (by simp [callFuel, recursionFuel])
  have hshort : ¬(printed l e).utf8ByteSize > maxFilterBytes := by omega
  simp only [parse, hshort, if_false, htext, hlen, hread, ok_bind]
  simp [Parser.after, utf8ByteSize_eq, htext]

mutual

theorem parenDepth_canonical_le : ∀ e : Expr, parenDepth false e ≤ 2 * parenDepth true e + 1
  | .compare _ _ _ => by simp [parenDepth]
  | .and children => by
    have h := parenDepthAll_inAnd_le children
    simp only [parenDepth]
    omega
  | .or children => parenDepthAll_inOr_le children

theorem parenDepthAll_inAnd_le : ∀ es : List Expr,
    parenDepthAll false false es ≤ 2 * parenDepthAll true false es
  | [] => by simp [parenDepthAll]
  | .compare _ _ _ :: es => by
    have htail := parenDepthAll_inAnd_le es
    simp only [parenDepthAll, childDepth]
    omega
  | .and children :: es => by
    have hhead := parenDepthAll_inAnd_le children
    have htail := parenDepthAll_inAnd_le es
    simp only [parenDepthAll, childDepth, false_eq_true, if_false]
    omega
  | .or children :: es => by
    have hhead := parenDepthAll_inOr_le children
    have htail := parenDepthAll_inAnd_le es
    simp only [parenDepthAll, childDepth]
    omega

theorem parenDepthAll_inOr_le : ∀ es : List Expr,
    parenDepthAll false false es ≤ 2 * parenDepthAll true true es + 1
  | [] => by simp [parenDepthAll]
  | .compare _ _ _ :: es => by
    have htail := parenDepthAll_inOr_le es
    simp only [parenDepthAll, childDepth]
    omega
  | .and children :: es => by
    have hhead := parenDepthAll_inAnd_le children
    have htail := parenDepthAll_inOr_le es
    simp only [parenDepthAll, childDepth, false_eq_true, if_false, if_true]
    omega
  | .or children :: es => by
    have hhead := parenDepthAll_inOr_le children
    have htail := parenDepthAll_inOr_le es
    simp only [parenDepthAll, childDepth]
    omega

end

/-- Printed filters parse back in both layouts, accepted filters meet the bounds, and every input is
parsed to a result. The minimal layout leaves an And inside an Or bare: `;` binds tighter than `,`. -/
theorem filter_language :
    (∀ e, Bounded e → parenDepth canonical.bareAnd e ≤ 16 →
      (printed canonical e).utf8ByteSize ≤ maxFilterBytes → parse (printed canonical e) = .ok e) ∧
    (∀ e, Bounded e → parenDepth minimal.bareAnd e ≤ 16 →
      (printed minimal e).utf8ByteSize ≤ maxFilterBytes → parse (printed minimal e) = .ok e) ∧
    (∀ s e, parse s = .ok e → Bounded e ∧ parenDepth minimal.bareAnd e ≤ 16 ∧
      parenDepth canonical.bareAnd e ≤ 33 ∧ s.utf8ByteSize ≤ maxFilterBytes) ∧
    (∀ s, (∃ e, parse s = .ok e) ∨ ∃ error, parse s = .error (.error error)) := by
  refine ⟨fun e => parse_printed canonical, fun e => parse_printed minimal, ?_, ?_⟩
  · intro s e hparse
    obtain ⟨hbounded, hdepth, hbytes⟩ := (parse_safe s).of_eq_ok hparse
    have hcanonical : parenDepth false e ≤ 2 * parenDepth true e + 1 := parenDepth_canonical_le e
    exact ⟨hbounded, hdepth, by simp only [canonical]; omega, hbytes⟩
  · intro s
    exact (parse_safe s).returns

/-- `kind=in=('script','software'),id=='a\'b';revision=ge='2'` and its expression. -/
def sampleFilter : Expr :=
  .or [.compare "kind" .isIn ["script", "software"],
    .and [.compare "id" .eq ["a'b"], .compare "revision" .ge ["2"]]]

theorem sampleFilter_shape : Shape sampleFilter := by
  refine ⟨by decide, ⟨by decide, by decide, by decide⟩, ⟨by decide, ⟨by decide, by decide, by decide⟩,
    ⟨by decide, by decide, by decide⟩, trivial⟩, trivial⟩

theorem filter_language_sample :
    parse (printed canonical sampleFilter) = .ok sampleFilter ∧
      parse "kind=in=('script','software'),id=='a\\'b';revision=ge='2'" = .ok sampleFilter := by
  have hbounded : Bounded sampleFilter := ⟨sampleFilter_shape, by decide, by decide⟩
  refine ⟨filter_language.1 sampleFilter hbounded (by decide) (by decide), ?_⟩
  exact filter_language.2.1 sampleFilter hbounded (by decide) (by decide)

/-- `a==x,a==x;(…)`, nested: each pair of parentheses holds an Or and an And. -/
def alternating : Nat → Expr
  | 0 => .compare "a" .eq ["x"]
  | n + 1 => .or [.compare "a" .eq ["x"], .and [.compare "a" .eq ["x"], alternating n]]

def singleQuotes (n : Nat) : String := String.ofList (List.replicate n '\'')

def quoteHeavy (n : Nat) : Expr := .and (List.replicate 5 (.compare "a" .eq [singleQuotes n]))

def doubleQuoted : Layout := ⟨'"', false, rfl⟩

theorem alternating_shape (n : Nat) : Shape (alternating n) := by
  have hleaf : Shape (.compare "a" .eq ["x"]) :=
    ⟨by decide, by intro v hv; rw [List.mem_singleton.mp hv]; decide, by decide⟩
  induction n with
  | zero => exact hleaf
  | succ _ ih => exact ⟨by simp, hleaf, ⟨by simp, hleaf, ih, trivial⟩, trivial⟩

theorem singleQuotes_valueOk {n : Nat} (h : n ≤ 1024) : ValueOk (singleQuotes n) := by
  have hlen : ∀ k, utf8Len (List.replicate k '\'') = k := by
    intro k
    induction k with
    | zero => rfl
    | succ k ih =>
      rw [List.replicate_succ, utf8Len_cons, ih]
      exact Nat.add_comm 1 k
  refine ⟨?_, ?_⟩
  · rw [utf8ByteSize_eq, singleQuotes, toList_ofList, hlen]
    exact h
  · rw [singleQuotes, toList_ofList]
    simp only [List.all_replicate]
    split
    · rfl
    · decide

theorem quoteHeavy_shape {n : Nat} (h : n ≤ 1024) : Shape (quoteHeavy n) := by
  have hleaf : Shape (.compare "a" .eq [singleQuotes n]) :=
    ⟨by decide, by intro v hv; rw [List.mem_singleton.mp hv]; exact singleQuotes_valueOk h, rfl⟩
  exact ⟨by simp, hleaf, hleaf, hleaf, hleaf, hleaf, trivial⟩

theorem quoteHeavy_canonical_size (n : Nat) :
    (printed canonical (quoteHeavy n)).utf8ByteSize = 10 * n + 29 := by
  have hescape : ∀ k, utf8Len (escape '\'' (List.replicate k '\'')) = 2 * k := by
    intro k
    induction k with
    | zero => rfl
    | succ _ ih =>
      have hback : '\\'.utf8Size = 1 := rfl
      have hquote : '\''.utf8Size = 1 := rfl
      simp only [List.replicate_succ, escape, decide_true, Bool.or_true, if_true, utf8Len_cons, ih,
        hback, hquote]
      omega
  rw [utf8ByteSize_eq, printed, toList_ofList]
  simp only [quoteHeavy, List.replicate, print, printChildren, printTail, printChild, printValues,
    Operator.set, printValue, canonical, singleQuotes, toList_ofList, utf8Len_append,
    utf8Len_cons, utf8Len_nil, hescape, false_eq_true, if_false]
  have ha : utf8Len "a".toList = 1 := rfl
  have htoken : utf8Len (token .eq).toList = 2 := rfl
  have hquote : '\''.utf8Size = 1 := rfl
  have hsemi : ';'.utf8Size = 1 := rfl
  omega

theorem quoteHeavy_doubleQuoted_size (n : Nat) :
    (printed doubleQuoted (quoteHeavy n)).utf8ByteSize = 5 * n + 29 := by
  have hescape : ∀ k, utf8Len (escape '"' (List.replicate k '\'')) = k := by
    intro k
    induction k with
    | zero => rfl
    | succ _ ih =>
      have hplain : ('\'' = '\\' || '\'' = '"') = false := rfl
      have hquote : '\''.utf8Size = 1 := rfl
      simp only [List.replicate_succ, escape, hplain, false_eq_true, if_false, utf8Len_cons, ih,
        hquote]
      omega
  rw [utf8ByteSize_eq, printed, toList_ofList]
  simp only [quoteHeavy, List.replicate, print, printChildren, printTail, printChild, printValues,
    Operator.set, printValue, doubleQuoted, singleQuotes, toList_ofList, utf8Len_append,
    utf8Len_cons, utf8Len_nil, hescape, false_eq_true, if_false]
  have ha : utf8Len "a".toList = 1 := rfl
  have htoken : utf8Len (token .eq).toList = 2 := rfl
  have hquote : '"'.utf8Size = 1 := rfl
  have hsemi : ';'.utf8Size = 1 := rfl
  omega

theorem parse_quoteHeavy {n : Nat} (h : n ≤ 1024) :
    parse (printed doubleQuoted (quoteHeavy n)) = .ok (quoteHeavy n) := by
  have hnodes : nodeCount (quoteHeavy n) = 6 := rfl
  have hitems : setCount (quoteHeavy n) = 0 := rfl
  have hdepth : parenDepth doubleQuoted.bareAnd (quoteHeavy n) = 0 := rfl
  refine parse_printed doubleQuoted ⟨quoteHeavy_shape h, by omega, by omega⟩ (by omega) ?_
  rw [quoteHeavy_doubleQuoted_size]
  unfold maxFilterBytes
  omega

/-- Accepted filters whose canonical form is too deep, or too long, to be read back. -/
theorem accepted_beyond_canonical :
    (parse (printed minimal (alternating 9)) = .ok (alternating 9) ∧
      ¬parenDepth canonical.bareAnd (alternating 9) ≤ 16) ∧
    (parse (printed doubleQuoted (quoteHeavy 1024)) = .ok (quoteHeavy 1024) ∧
      ¬(printed canonical (quoteHeavy 1024)).utf8ByteSize ≤ maxFilterBytes) := by
  refine ⟨⟨?_, by set_option maxRecDepth 4000 in decide⟩, ?_, ?_⟩
  · refine parse_printed minimal ⟨alternating_shape 9, by decide, by decide⟩
      (by decide) ?_
    rw [utf8ByteSize_eq, printed, toList_ofList]
    set_option maxRecDepth 4000 in
    decide
  · exact parse_quoteHeavy (Nat.le_refl _)
  · rw [quoteHeavy_canonical_size]
    decide

end RssMdm.Query.Filter
