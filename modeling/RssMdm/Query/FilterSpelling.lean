/- module: Query/FilterSpelling
   source: crates/query/src/parser.rs
   digest: Filters written with the parentheses that precedence asks for and a chosen spelling. -/

import RssMdm.Query.FilterGrammar

set_option autoImplicit false

namespace RssMdm.Query.Filter

open Lib.Text
open List (cons_append cons_ne_nil length_cons length_eq_zero_iff mem_singleton)

mutual

/-- What a child of an And adds to its children once every And inside it is spliced. -/
def conjunctsOf : Expr → List Expr
  | .compare field operator values => [.compare field operator values]
  | .and children => conjuncts children
  | .or children => [.or (disjuncts children)]

def disjunctsOf : Expr → List Expr
  | .compare field operator values => [.compare field operator values]
  | .and children => [.and (conjuncts children)]
  | .or children => disjuncts children

def conjuncts : List Expr → List Expr
  | [] => []
  | e :: rest => conjunctsOf e ++ conjuncts rest

def disjuncts : List Expr → List Expr
  | [] => []
  | e :: rest => disjunctsOf e ++ disjuncts rest

end

/-- Every And directly inside an And and every Or directly inside an Or spliced into its parent. -/
def spliced : Expr → Expr
  | .compare field operator values => .compare field operator values
  | .and children => .and (conjuncts children)
  | .or children => .or (disjuncts children)

/-- What splicing leaves of an expression. -/
structure Kept (e : Expr) : Prop where
  conjuncts : nodeCountAll (conjunctsOf e) ≤ nodeCount e ∧ setCountAll (conjunctsOf e) = setCount e
  disjuncts : nodeCountAll (disjunctsOf e) ≤ nodeCount e ∧ setCountAll (disjunctsOf e) = setCount e

structure KeptAll (es : List Expr) : Prop where
  conjuncts : nodeCountAll (conjuncts es) ≤ nodeCountAll es ∧
    setCountAll (conjuncts es) = setCountAll es
  disjuncts : nodeCountAll (disjuncts es) ≤ nodeCountAll es ∧
    setCountAll (disjuncts es) = setCountAll es

mutual

theorem kept : ∀ e : Expr, Kept e
  | .compare field operator values => by
      constructor <;> simp [conjunctsOf, disjunctsOf, nodeCountAll, setCountAll]
  | .and children => by
      obtain ⟨⟨nodes, items⟩, -⟩ := keptAll children
      constructor
      · rw [conjunctsOf, nodeCount, setCount]
        exact ⟨by omega, items⟩
      · simp only [disjunctsOf, nodeCountAll, setCountAll, nodeCount, setCount]
        omega
  | .or children => by
      obtain ⟨-, nodes, items⟩ := keptAll children
      constructor
      · simp only [conjunctsOf, nodeCountAll, setCountAll, nodeCount, setCount]
        omega
      · rw [disjunctsOf, nodeCount, setCount]
        exact ⟨by omega, items⟩

theorem keptAll : ∀ es : List Expr, KeptAll es
  | [] => by constructor <;> simp [conjuncts, disjuncts]
  | e :: rest => by
      obtain ⟨⟨nodes, items⟩, nodes', items'⟩ := kept e
      obtain ⟨⟨more, moreItems⟩, more', moreItems'⟩ := keptAll rest
      constructor
      · rw [conjuncts, nodeCountAll_append, setCountAll_append, nodeCountAll, setCountAll]
        omega
      · rw [disjuncts, nodeCountAll_append, setCountAll_append, nodeCountAll, setCountAll]
        omega

end

theorem nodeCount_spliced (e : Expr) : nodeCount (spliced e) ≤ nodeCount e := by
  cases e with
  | compare => exact le_rfl
  | and children => exact Nat.add_le_add_left (keptAll children).conjuncts.1 1
  | or children => exact Nat.add_le_add_left (keptAll children).disjuncts.1 1

theorem setCount_spliced (e : Expr) : setCount (spliced e) = setCount e := by
  cases e with
  | compare => rfl
  | and children => exact (keptAll children).conjuncts.2
  | or children => exact (keptAll children).disjuncts.2

/-- Splicing keeps the bounds of every node and drops no child. -/
structure Shaped (e : Expr) : Prop where
  conjuncts : ShapeAll (conjunctsOf e) ∧ 1 ≤ (conjunctsOf e).length
  disjuncts : ShapeAll (disjunctsOf e) ∧ 1 ≤ (disjunctsOf e).length

structure ShapedAll (es : List Expr) : Prop where
  conjuncts : ShapeAll (conjuncts es) ∧ es.length ≤ (conjuncts es).length
  disjuncts : ShapeAll (disjuncts es) ∧ es.length ≤ (disjuncts es).length

mutual

theorem shaped : ∀ e : Expr, Shape e → Shaped e
  | .compare field operator values, shape => by
      constructor <;> exact ⟨⟨shape, trivial⟩, Nat.le_refl 1⟩
  | .and children, ⟨two, all⟩ => by
      obtain ⟨⟨shape, longer⟩, -⟩ := shapedAll children all
      constructor
      · exact ⟨shape, by rw [conjunctsOf]; omega⟩
      · exact ⟨⟨⟨two.trans longer, shape⟩, trivial⟩, Nat.le_refl 1⟩
  | .or children, ⟨two, all⟩ => by
      obtain ⟨-, shape, longer⟩ := shapedAll children all
      constructor
      · exact ⟨⟨⟨two.trans longer, shape⟩, trivial⟩, Nat.le_refl 1⟩
      · exact ⟨shape, by rw [disjunctsOf]; omega⟩

theorem shapedAll : ∀ es : List Expr, ShapeAll es → ShapedAll es
  | [], _ => by constructor <;> exact ⟨trivial, le_rfl⟩
  | e :: rest, ⟨shape, all⟩ => by
      obtain ⟨⟨first, one⟩, first', one'⟩ := shaped e shape
      obtain ⟨⟨more, longer⟩, more', longer'⟩ := shapedAll rest all
      constructor
      · refine ⟨shapeAll_append.mpr ⟨first, more⟩, ?_⟩
        rw [conjuncts, List.length_append, length_cons]
        omega
      · refine ⟨shapeAll_append.mpr ⟨first', more'⟩, ?_⟩
        rw [disjuncts, List.length_append, length_cons]
        omega

end

theorem shape_spliced {e : Expr} (h : Shape e) : Shape (spliced e) := by
  cases e with
  | compare => exact h
  | and children =>
    obtain ⟨shape, longer⟩ := (shapedAll children h.2).conjuncts
    exact ⟨h.1.trans longer, shape⟩
  | or children =>
    obtain ⟨shape, longer⟩ := (shapedAll children h.2).disjuncts
    exact ⟨h.1.trans longer, shape⟩

section

variable (spell : String → List Char)

def operandText (operator : Operator) (values : List String) : List Char :=
  if operator.set then '(' :: (joined ',' (values.map spell) ++ [')'])
  else joined ',' (values.map spell)

mutual

/-- An expression below an operator of the given precedence: 1 for an Or, 2 for an And. -/
def render (parent : Nat) : Expr → List Char
  | .compare field operator values =>
      field.toList ++ ((token operator).toList ++ operandText spell operator values)
  | .and children => joined ';' (renderAll 2 children)
  | .or children =>
      if 1 < parent then '(' :: (joined ',' (renderAll 1 children) ++ [')'])
      else joined ',' (renderAll 1 children)

def renderAll (parent : Nat) : List Expr → List (List Char)
  | [] => []
  | e :: rest => render parent e :: renderAll parent rest

end

variable {spell}

theorem renderAll_append (parent : Nat) (xs ys : List Expr) :
    renderAll spell parent (xs ++ ys) = renderAll spell parent xs ++ renderAll spell parent ys := by
  induction xs with
  | nil => rfl
  | cons _ _ ih => rw [cons_append, renderAll, ih, renderAll, cons_append]

theorem renderAll_eq_nil {parent : Nat} {es : List Expr} :
    renderAll spell parent es = [] ↔ es = [] := by
  cases es with
  | nil => exact .intro (fun _ => rfl) (fun _ => rfl)
  | cons => simp [renderAll]

theorem joined_congr {separator : Char} {text : List Char} {xs ys zs : List (List Char)}
    (first : joined separator xs = text) (some : xs ≠ []) (rest : joined separator ys = joined separator zs)
    (same : ys = [] ↔ zs = []) : joined separator (xs ++ ys) = joined separator (text :: zs) := by
  by_cases last : ys = []
  · rw [last, same.mp last, List.append_nil, first]
    rfl
  · rw [joined_append some last, joined_cons (fun absurd => last (same.mpr absurd)), first, rest]

mutual

theorem render_operands : ∀ e : Expr, Shape e →
    joined ';' (renderAll spell 2 (conjunctsOf e)) = render spell 2 e ∧
      joined ',' (renderAll spell 1 (disjunctsOf e)) = render spell 1 e
  | .compare field operator values, _ => ⟨rfl, rfl⟩
  | .and children, ⟨_, all⟩ => by
      obtain ⟨inside, -⟩ := joined_operands children all
      refine ⟨inside, ?_⟩
      show render spell 1 (.and (conjuncts children)) = render spell 1 (.and children)
      rw [render, render, inside]
  | .or children, ⟨_, all⟩ => by
      obtain ⟨-, inside⟩ := joined_operands children all
      refine ⟨?_, inside⟩
      show render spell 2 (.or (disjuncts children)) = render spell 2 (.or children)
      rw [render, render, inside]

theorem joined_operands : ∀ es : List Expr, ShapeAll es →
    joined ';' (renderAll spell 2 (conjuncts es)) = joined ';' (renderAll spell 2 es) ∧
      joined ',' (renderAll spell 1 (disjuncts es)) = joined ',' (renderAll spell 1 es)
  | [], _ => ⟨rfl, rfl⟩
  | e :: rest, ⟨shape, all⟩ => by
      obtain ⟨first, first'⟩ := render_operands e shape
      obtain ⟨later, later'⟩ := joined_operands rest all
      obtain ⟨⟨-, one⟩, -, one'⟩ := shaped e shape
      obtain ⟨⟨-, longer⟩, -, longer'⟩ := shapedAll rest all
      constructor
      · rw [conjuncts, renderAll_append]
        refine joined_congr first ?_ later ?_
        · rw [Ne, renderAll_eq_nil, ← length_eq_zero_iff]
          omega
        · rw [renderAll_eq_nil, renderAll_eq_nil, ← length_eq_zero_iff, ← length_eq_zero_iff]
          constructor
          · intro none
            omega
          · intro none
            rw [length_eq_zero_iff.mp none]
            rfl
      · rw [disjuncts, renderAll_append]
        refine joined_congr first' ?_ later' ?_
        · rw [Ne, renderAll_eq_nil, ← length_eq_zero_iff]
          omega
        · rw [renderAll_eq_nil, renderAll_eq_nil, ← length_eq_zero_iff, ← length_eq_zero_iff]
          constructor
          · intro none
            omega
          · intro none
            rw [length_eq_zero_iff.mp none]
            rfl

end

theorem render_spliced {e : Expr} (h : Shape e) (parent : Nat) :
    render spell parent (spliced e) = render spell parent e := by
  cases e with
  | compare => rfl
  | and children => exact (joined_operands children h.2).1
  | or children => rw [spliced, render, render, (joined_operands children h.2).2]

end

section

mutual

def Related (V : String → String → Prop) : Expr → Expr → Prop
  | .compare field operator values, .compare field' operator' values' =>
      field' = field ∧ operator' = operator ∧ List.Forall₂ V values values'
  | .and children, .and children' => RelatedAll V children children'
  | .or children, .or children' => RelatedAll V children children'
  | _, _ => False

def RelatedAll (V : String → String → Prop) : List Expr → List Expr → Prop
  | [], [] => True
  | e :: rest, e' :: rest' => Related V e e' ∧ RelatedAll V rest rest'
  | _, _ => False

end

variable {V : String → String → Prop} {spell : String → List Char} {r : Expr}

theorem Related.compare_left {field : String} {operator : Operator} {values : List String}
    (h : Related V (.compare field operator values) r) :
    ∃ values', r = .compare field operator values' ∧ List.Forall₂ V values values' := by
  cases r with
  | compare _ _ values' =>
    obtain ⟨rfl, rfl, all⟩ := h
    exact ⟨values', rfl, all⟩
  | and | or => exact h.elim

variable {children : List Expr}

theorem Related.and_left (h : Related V (.and children) r) :
    ∃ children', r = .and children' ∧ RelatedAll V children children' := by
  cases r with
  | compare => exact h.elim
  | and children' => exact ⟨children', rfl, h⟩
  | or => exact h.elim

theorem Related.or_left (h : Related V (.or children) r) :
    ∃ children', r = .or children' ∧ RelatedAll V children children' := by
  cases r with
  | compare | and => exact h.elim
  | or children' => exact ⟨children', rfl, h⟩

variable {rs : List Expr}

theorem RelatedAll.cons_left {e : Expr} {rest : List Expr} (h : RelatedAll V (e :: rest) rs) :
    ∃ r rest', rs = r :: rest' ∧ Related V e r ∧ RelatedAll V rest rest' := by
  cases rs with
  | nil => exact h.elim
  | cons r rest' => exact ⟨r, rest', rfl, h⟩

theorem RelatedAll.length_eq {es : List Expr} (h : RelatedAll V es rs) : rs.length = es.length := by
  induction es generalizing rs with
  | nil =>
    cases rs with
    | nil => rfl
    | cons => exact h.elim
  | cons _ _ ih =>
    obtain ⟨r, rest, rfl, -, more⟩ := h.cons_left
    rw [length_cons, length_cons, ih more]

structure Carried (e r : Expr) : Prop where
  nodes : nodeCount r = nodeCount e
  setItems : setCount r = setCount e
  shape : Shape e → Shape r

mutual

theorem Related.carried (ok : ∀ v v', V v v' → ValueOk v') :
    ∀ e r : Expr, Related V e r → Carried e r
  | .compare field operator values, r, h => by
      obtain ⟨values', rfl, all⟩ := h.compare_left
      have same := all.length_eq
      refine ⟨rfl, by simp only [setCount, same], ?_⟩
      rintro ⟨fieldOk, -, arity⟩
      refine ⟨fieldOk, ?_, same ▸ arity⟩
      intro v' mem
      obtain ⟨v, -, related⟩ := RssMdm.Lib.Fallible.exists_left_of_mem all mem
      exact ok v v' related
  | .and children, r, h => by
      obtain ⟨children', rfl, all⟩ := h.and_left
      obtain ⟨nodes, items, shape⟩ := RelatedAll.carried ok children children' all
      refine ⟨by rw [nodeCount, nodeCount, nodes], items, ?_⟩
      rintro ⟨two, within⟩
      exact ⟨by rwa [all.length_eq], shape within⟩
  | .or children, r, h => by
      obtain ⟨children', rfl, all⟩ := h.or_left
      obtain ⟨nodes, items, shape⟩ := RelatedAll.carried ok children children' all
      refine ⟨by rw [nodeCount, nodeCount, nodes], items, ?_⟩
      rintro ⟨two, within⟩
      exact ⟨by rwa [all.length_eq], shape within⟩

theorem RelatedAll.carried (ok : ∀ v v', V v v' → ValueOk v') :
    ∀ es rs : List Expr, RelatedAll V es rs → nodeCountAll rs = nodeCountAll es ∧
      setCountAll rs = setCountAll es ∧ (ShapeAll es → ShapeAll rs)
  | [], rs, h => by
      cases rs with
      | nil => exact ⟨rfl, rfl, id⟩
      | cons => exact h.elim
  | e :: rest, rs, h => by
      obtain ⟨r, rest', rfl, first, more⟩ := h.cons_left
      obtain ⟨nodes, items, shape⟩ := Related.carried ok e r first
      obtain ⟨nodes', items', shape'⟩ := RelatedAll.carried ok rest rest' more
      refine ⟨by rw [nodeCountAll, nodeCountAll, nodes, nodes'],
        by rw [setCountAll, setCountAll, items, items'], ?_⟩
      rintro ⟨one, all⟩
      exact ⟨shape one, shape' all⟩

end

def Parts (spell : String → List Char) (depth : Nat) : Expr → Prop
  | .compare field operator values =>
      Written 2 depth (render spell 2 (.compare field operator values)) (.compare field operator values)
  | .and children => ∃ pieces : Pieces, 2 ≤ pieces.length ∧
      joined ';' (pieces.map Prod.fst) = joined ';' (renderAll spell 2 children) ∧
      pieces.map Prod.snd = conjuncts children ∧ ∀ piece ∈ pieces, Written 2 depth piece.1 piece.2
  | .or children => ∃ pieces : Pieces, 2 ≤ pieces.length ∧
      joined ',' (pieces.map Prod.fst) = joined ',' (renderAll spell 1 children) ∧
      pieces.map Prod.snd = disjuncts children ∧ ∀ piece ∈ pieces, Written 1 depth piece.1 piece.2

theorem Parts.deeper {d d' : Nat} {r : Expr} (h : Parts spell d r) (le : d ≤ d') : Parts spell d' r := by
  cases r with
  | compare => exact Written.deeper h le
  | and children | or children =>
    obtain ⟨pieces, two, text, children, each⟩ := h
    exact ⟨pieces, two, text, children, fun piece mem => (each piece mem).deeper le⟩

variable {d : Nat}

theorem Parts.written_and (h : Parts spell d (.and children)) :
    Written 1 d (joined ';' (renderAll spell 2 children)) (.and (conjuncts children)) := by
  obtain ⟨pieces, two, text, same, each⟩ := h
  have whole : Written 1 d _ _ := .operator (Nat.le_refl 1) two each
  rw [same] at whole
  exact text ▸ whole

theorem Parts.written_or (h : Parts spell d (.or children)) :
    Written 0 d (joined ',' (renderAll spell 1 children)) (.or (disjuncts children)) := by
  obtain ⟨pieces, two, text, same, each⟩ := h
  have whole : Written 0 d _ _ := .operator (Nat.zero_le 1) two each
  rw [same] at whole
  exact text ▸ whole

theorem Parts.written (h : Parts spell d r) : Written 0 d (render spell 0 r) (spliced r) := by
  cases r with
  | compare => exact .lift (Nat.zero_le 1) (.lift (Nat.le_refl 1) h)
  | and => exact .lift (Nat.zero_le 1) h.written_and
  | or => exact h.written_or

def Rewritten (spell : String → List Char) (level depth : Nat) (r : Expr) : Prop :=
  Parts spell depth r ∧
    (1 ≤ level → ∀ children, r = .or children → ∃ d, depth = d + 1 ∧ Parts spell d r)

theorem Rewritten.disjunct (h : Rewritten spell 1 d r) :
    ∃ pieces : Pieces, pieces ≠ [] ∧ joined ',' (pieces.map Prod.fst) = render spell 1 r ∧
      pieces.map Prod.snd = disjunctsOf r ∧ ∀ piece ∈ pieces, Written 1 d piece.1 piece.2 := by
  obtain ⟨parts, -⟩ := h
  cases r with
  | compare =>
    refine ⟨[(_, _)], cons_ne_nil _ _, rfl, rfl, ?_⟩
    intro piece mem
    rw [mem_singleton.mp mem]
    exact .lift (Nat.le_refl 1) parts
  | and =>
    refine ⟨[(_, _)], cons_ne_nil _ _, rfl, rfl, ?_⟩
    intro piece mem
    rw [mem_singleton.mp mem]
    exact parts.written_and
  | or =>
    obtain ⟨pieces, two, text, same, each⟩ := parts
    refine ⟨pieces, ?_, text, same, each⟩
    rintro rfl
    cases two

theorem Rewritten.conjunct (h : Rewritten spell 2 d r) :
    ∃ pieces : Pieces, pieces ≠ [] ∧ joined ';' (pieces.map Prod.fst) = render spell 2 r ∧
      pieces.map Prod.snd = conjunctsOf r ∧ ∀ piece ∈ pieces, Written 2 d piece.1 piece.2 := by
  obtain ⟨parts, nested⟩ := h
  cases r with
  | compare =>
    refine ⟨[(_, _)], cons_ne_nil _ _, rfl, rfl, ?_⟩
    intro piece mem
    rw [mem_singleton.mp mem]
    exact parts
  | and =>
    obtain ⟨pieces, two, text, same, each⟩ := parts
    refine ⟨pieces, ?_, text, same, each⟩
    rintro rfl
    cases two
  | or children =>
    obtain ⟨d, rfl, inside⟩ := nested (Nat.le_succ 1) children rfl
    refine ⟨[(_, _)], cons_ne_nil _ _, rfl, rfl, ?_⟩
    intro piece mem
    rw [mem_singleton.mp mem]
    exact .paren inside.written_or

theorem pieces_of_children {separator : Char} {parent level depth : Nat}
    (operands : List Expr → List Expr) (operandsOf : Expr → List Expr) (none : operands [] = [])
    (more : ∀ e es, operands (e :: es) = operandsOf e ++ operands es)
    (each : ∀ r ∈ children, ∃ pieces : Pieces, pieces ≠ [] ∧
      joined separator (pieces.map Prod.fst) = render spell parent r ∧
      pieces.map Prod.snd = operandsOf r ∧ ∀ piece ∈ pieces, Written level depth piece.1 piece.2) :
    ∃ pieces : Pieces, children.length ≤ pieces.length ∧ (pieces = [] ↔ children = []) ∧
      joined separator (pieces.map Prod.fst) = joined separator (renderAll spell parent children) ∧
      pieces.map Prod.snd = operands children ∧
      ∀ piece ∈ pieces, Written level depth piece.1 piece.2 := by
  induction children with
  | nil =>
    refine ⟨[], le_rfl, iff_of_true rfl rfl, rfl, none.symm, ?_⟩
    intro piece mem
    cases mem
  | cons r _ ih =>
    obtain ⟨first, some, text, same, written⟩ := each r (.head _)
    obtain ⟨later, longer, empty, text', same', written'⟩ :=
      ih (fun r mem => each r (.tail _ mem))
    refine ⟨first ++ later, ?_, by simp [some], ?_, ?_, ?_⟩
    · have one := List.length_pos_of_ne_nil some
      rw [List.length_append, length_cons]
      omega
    · rw [List.map_append]
      refine joined_congr text (by simpa using some) text' ?_
      rw [List.map_eq_nil_iff, renderAll_eq_nil, empty]
    · rw [List.map_append, same, same', more]
    · intro piece mem
      rcases List.mem_append.mp mem with mem | mem
      · exact written piece mem
      · exact written' piece mem

theorem SpelledAll.respell (spells : ∀ v v', V v v' → Spelled (spell v') v') {text : List Char}
    {values values' : List String} (h : SpelledAll text values) (all : List.Forall₂ V values values') :
    SpelledAll (joined ',' (values'.map spell) ++ [')']) values' := by
  induction h generalizing values' with
  | last =>
    obtain _ | ⟨first, rest⟩ := all
    obtain _ | _ := rest
    exact .last (spells _ _ first)
  | @cons text more v vs spelled rest ih =>
    obtain _ | ⟨first, later⟩ := all
    rename_i v' vs'
    have some : vs' ≠ [] := by
      intro none
      subst none
      obtain _ | _ := later
      cases rest
    have tail : vs'.map spell ≠ [] := by simpa using some
    rw [List.map_cons, joined_cons tail, List.append_assoc, cons_append]
    exact .cons (spells _ _ first) (ih later)

theorem Operand.respell (spells : ∀ v v', V v v' → Spelled (spell v') v') {operator : Operator}
    {text : List Char} {values values' : List String} (h : Operand operator text values)
    (all : List.Forall₂ V values values') :
    Operand operator (operandText spell operator values') values' := by
  cases h with
  | single one =>
    obtain _ | ⟨first, rest⟩ := all
    obtain _ | _ := rest
    rw [operandText, one]
    exact .single one (spells _ _ first)
  | set many spelled =>
    rw [operandText, if_pos many]
    exact .set many (spelled.respell spells all)

theorem RelatedAll.forall {es : List Expr} (h : RelatedAll V es rs) {P : Expr → Prop}
    (each : ∀ e ∈ es, ∀ r, Related V e r → P r) : ∀ r ∈ rs, P r := by
  induction es generalizing rs with
  | nil =>
    cases rs with
    | nil =>
      intro r mem
      cases mem
    | cons => exact h.elim
  | cons e _ ih =>
    obtain ⟨first, rest, rfl, related, more⟩ := h.cons_left
    intro r mem
    rcases List.mem_cons.mp mem with rfl | mem
    · exact each e (.head _) _ related
    · exact ih more (fun e mem => each e (.tail _ mem)) r mem

/-- Every text of the grammar can be written again with the parentheses that precedence asks for, at
no greater depth. -/
theorem Written.rewritten (spells : ∀ v v', V v v' → Spelled (spell v') v') {level depth : Nat}
    {text : List Char} {e : Expr} (h : Written level depth text e) (related : Related V e r) :
    Rewritten spell level depth r := by
  induction h generalizing r with
  | compare operand =>
    obtain ⟨values', rfl, all⟩ := related.compare_left
    refine ⟨.compare (operand.respell spells all), ?_⟩
    intro _ children absurd
    cases absurd
  | paren _ ih =>
    obtain ⟨parts, -⟩ := ih related
    exact ⟨parts.deeper (.step .refl), fun _ _ _ => ⟨_, rfl, parts⟩⟩
  | lift _ _ ih =>
    obtain ⟨parts, nested⟩ := ih related
    exact ⟨parts, fun high => nested (Nat.le_succ_of_le high)⟩
  | @operator level depth pieces _ _ _ ih =>
    have children : ∀ {rs : List Expr}, RelatedAll V (pieces.map Prod.snd) rs →
        ∀ r ∈ rs, Rewritten spell (level + 1) depth r := by
      intro rs all
      refine all.forall ?_
      intro e mem r related
      obtain ⟨piece, inside, rfl⟩ := List.mem_map.mp mem
      exact ih piece inside related
    by_cases zero : level = 0
    · subst zero
      obtain ⟨rs, rfl, all⟩ := Related.or_left related
      obtain ⟨pieces', longer, -, text, same, written⟩ :=
        pieces_of_children disjuncts disjunctsOf rfl (fun _ _ => rfl)
          (fun r mem => (children all r mem).disjunct)
      have length := all.length_eq
      rw [List.length_map] at length
      refine ⟨⟨pieces', by omega, text, same, written⟩, ?_⟩
      intro absurd
      cases absurd
    · obtain rfl : level = 1 := by omega
      obtain ⟨rs, rfl, all⟩ := Related.and_left related
      obtain ⟨pieces', longer, -, text, same, written⟩ :=
        pieces_of_children conjuncts conjunctsOf rfl (fun _ _ => rfl)
          (fun r mem => (children all r mem).conjunct)
      have length := all.length_eq
      rw [List.length_map] at length
      refine ⟨⟨pieces', by omega, text, same, written⟩, ?_⟩
      intro _ _ absurd
      cases absurd

end

variable {V : String → String → Prop} {spell : String → List Char} {text : List Char}

theorem Escaped.value_le {quote : Option Char} {v : List Char} (h : Escaped quote text v) :
    utf8Len v ≤ utf8Len text := by
  induction h with
  | nil => exact le_rfl
  | plain _ _ ih => exact Nat.add_le_add_left ih _
  | escape =>
    rw [utf8Len_cons, utf8Len_cons, utf8Len_cons]
    omega

theorem Spelled.value_le {text : List Char} {v : String} (h : Spelled text v) :
    utf8Len v.toList ≤ utf8Len text := by
  cases h with
  | bare _ chars =>
    rw [String.toList_ofList]
    exact chars.value_le
  | quoted _ chars =>
    have bound := chars.value_le
    rw [String.toList_ofList, utf8Len_cons, utf8Len_append]
    omega

theorem utf8Len_joined_le {separator : Char} {xs ys : List (List Char)}
    (h : List.Forall₂ (fun x y => utf8Len x ≤ utf8Len y) xs ys) :
    utf8Len (joined separator xs) ≤ utf8Len (joined separator ys) := by
  induction h with
  | nil => exact le_rfl
  | @cons _ _ xs ys first rest =>
    by_cases last : ys = []
    · subst last
      obtain _ | _ := rest
      exact first
    have some : xs ≠ [] := by
      rintro rfl
      obtain _ | _ := rest
      exact last rfl
    rw [joined_cons some, joined_cons last, utf8Len_append, utf8Len_append, utf8Len_cons,
      utf8Len_cons]
    omega

theorem utf8Len_parens (text : List Char) : utf8Len ('(' :: (text ++ [')'])) = utf8Len text + 2 := by
  have opening : '('.utf8Size = 1 := rfl
  have closing : utf8Len [')'] = 1 := rfl
  rw [utf8Len_cons, utf8Len_append, opening, closing]
  omega

theorem SpelledAll.respell_le
    (shorter : ∀ v v', V v v' → ∀ text, Spelled text v → utf8Len (spell v') ≤ utf8Len text)
    {values values' : List String} (h : SpelledAll text values)
    (all : List.Forall₂ V values values') :
    utf8Len (joined ',' (values'.map spell)) + 1 ≤ utf8Len text := by
  induction h generalizing values' with
  | @last text _ spelled =>
    obtain _ | ⟨first, rest⟩ := all
    obtain _ | _ := rest
    have bound := shorter _ _ first text spelled
    have one : utf8Len [')'] = 1 := rfl
    rw [utf8Len_append, one]
    exact Nat.add_le_add_right bound 1
  | @cons text more v vs spelled rest ih =>
    obtain _ | ⟨first, later⟩ := all
    rename_i v' vs'
    have some : vs'.map spell ≠ [] := by
      intro none
      obtain rfl := List.map_eq_nil_iff.mp none
      obtain _ | _ := later
      cases rest
    have bound := shorter _ _ first text spelled
    have bound' := ih later
    have one : ','.utf8Size = 1 := rfl
    rw [List.map_cons, joined_cons some, utf8Len_append, utf8Len_cons, utf8Len_append, utf8Len_cons,
      one]
    omega

theorem Operand.respell_le
    (shorter : ∀ v v', V v v' → ∀ text, Spelled text v → utf8Len (spell v') ≤ utf8Len text)
    {operator : Operator} {text : List Char} {values values' : List String}
    (h : Operand operator text values) (all : List.Forall₂ V values values') :
    utf8Len (operandText spell operator values') ≤ utf8Len text := by
  cases h with
  | single one spelled =>
    obtain _ | ⟨first, rest⟩ := all
    obtain _ | _ := rest
    rw [operandText, one]
    exact shorter _ _ first text spelled
  | @set _ _ many spelled =>
    have bound := spelled.respell_le shorter all
    have opening : '('.utf8Size = 1 := rfl
    rw [operandText, if_pos many, utf8Len_parens, utf8Len_cons, opening]
    omega

theorem render_level_le (level : Nat) (r : Expr) :
    utf8Len (render spell level r) ≤ utf8Len (render spell (level + 1) r) := by
  cases r with
  | compare | and => exact le_rfl
  | or =>
    rw [render, render]
    by_cases high : 1 < level
    · exact Nat.le_of_eq (by rw [if_pos high, if_pos (Nat.lt_succ_of_lt high)])
    rw [if_neg high]
    split
    · rw [utf8Len_parens]
      exact Nat.le_add_right _ _
    · exact le_rfl

theorem render_paren_le (r : Expr) :
    utf8Len (render spell 2 r) ≤ utf8Len (render spell 0 r) + 2 := by
  cases r with
  | compare | and => exact Nat.le_add_right _ _
  | or =>
    exact Nat.le_of_eq (by
      rw [render, render, if_pos Nat.one_lt_two, if_neg (Nat.not_lt_zero 1), utf8Len_parens])

theorem RelatedAll.forall₂ {es rs : List Expr} (h : RelatedAll V es rs) :
    List.Forall₂ (Related V) es rs := by
  induction es generalizing rs with
  | nil =>
    cases rs with
    | nil => exact .nil
    | cons => exact h.elim
  | cons _ _ ih =>
    obtain ⟨r, rest, rfl, first, more⟩ := h.cons_left
    exact .cons first (ih more)

theorem utf8Len_children_le {separator : Char} {parent : Nat} {pieces : Pieces} {rs : List Expr}
    (h : List.Forall₂ (Related V) (pieces.map Prod.snd) rs)
    (each : ∀ piece ∈ pieces, ∀ r, Related V piece.2 r →
      utf8Len (render spell parent r) ≤ utf8Len piece.1) :
    utf8Len (joined separator (renderAll spell parent rs)) ≤
      utf8Len (joined separator (pieces.map Prod.fst)) := by
  apply utf8Len_joined_le
  induction pieces generalizing rs with
  | nil =>
    obtain _ | _ := h
    exact .nil
  | cons piece _ ih =>
    obtain _ | ⟨first, rest⟩ := h
    exact .cons (each piece (.head _) _ first)
      (ih rest (fun piece mem => each piece (.tail _ mem)))

theorem Written.render_le
    (shorter : ∀ v v', V v v' → ∀ text, Spelled text v → utf8Len (spell v') ≤ utf8Len text)
    {level depth : Nat} {e : Expr} (h : Written level depth text e) {r : Expr}
    (related : Related V e r) : utf8Len (render spell level r) ≤ utf8Len text := by
  induction h generalizing r with
  | compare operand =>
    obtain ⟨values', rfl, all⟩ := related.compare_left
    have bound := operand.respell_le shorter all
    rw [render, utf8Len_append, utf8Len_append, utf8Len_append, utf8Len_append]
    omega
  | paren _ ih =>
    have bound := ih related
    rw [utf8Len_parens]
    exact Nat.le_trans (render_paren_le r) (Nat.add_le_add_right bound 2)
  | @lift level _ _ _ _ _ ih => exact Nat.le_trans (render_level_le level r) (ih related)
  | @operator level _ _ _ _ _ ih =>
    by_cases zero : level = 0
    · subst zero
      obtain ⟨rs, rfl, all⟩ := Related.or_left related
      exact utf8Len_children_le all.forall₂ (fun piece mem r related => ih piece mem related)
    · obtain rfl : level = 1 := by omega
      obtain ⟨rs, rfl, all⟩ := Related.and_left related
      exact utf8Len_children_le all.forall₂ (fun piece mem r related => ih piece mem related)

end RssMdm.Query.Filter
