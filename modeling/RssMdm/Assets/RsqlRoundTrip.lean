/- module: Assets/RsqlRoundTrip
   source: crates/inventory-service/src/assets/rsql.rs
   digest: Criteria written as a filter compile to the same criteria with nested operators spliced. -/

import RssMdm.Assets.RsqlSpelling

set_option autoImplicit false

namespace RssMdm.Assets

open String (toList_append toList_inj toList_ofList)

namespace Criteria

mutual

/-- What a child of an And adds to its children once every And inside it is spliced. -/
def conjunctsOf : Criteria → List Criteria
  | .predicate field op value values => [.predicate field op value values]
  | .and children => conjuncts children
  | .or children => [.or (disjuncts children)]

def disjunctsOf : Criteria → List Criteria
  | .predicate field op value values => [.predicate field op value values]
  | .and children => [.and (conjuncts children)]
  | .or children => disjuncts children

def conjuncts : List Criteria → List Criteria
  | [] => []
  | c :: rest => conjunctsOf c ++ conjuncts rest

def disjuncts : List Criteria → List Criteria
  | [] => []
  | c :: rest => disjunctsOf c ++ disjuncts rest

end

/-- Every And directly inside an And and every Or directly inside an Or spliced into its parent. -/
def spliced : Criteria → Criteria
  | .predicate field op value values => .predicate field op value values
  | .and children => .and (conjuncts children)
  | .or children => .or (disjuncts children)

mutual

def Operands (P : Inventory.Scalar → Prop) : Criteria → Prop
  | .predicate _ _ value values =>
      (∀ s, value = some s → P s) ∧ ∀ all, values = some all → ∀ s ∈ all, P s
  | .and children => OperandsAll P children
  | .or children => OperandsAll P children

def OperandsAll (P : Inventory.Scalar → Prop) : List Criteria → Prop
  | [] => True
  | c :: rest => c.Operands P ∧ OperandsAll P rest

end

end Criteria

namespace Rsql

open RssMdm.Inventory RssMdm.Lib RssMdm.Lib.Fallible
open RssMdm.Lib.Text (utf8Len utf8ByteSize_eq)
open RssMdm.Query (Expr maxFilterBytes)
open RssMdm.Query.Filter (Spelled ValueOk ArityOk Shape ShapeAll FieldOk joined render renderAll
  operandText Related RelatedAll Written parse parseWithin parseWithin_eq_ok)

/-- How the value of a comparison is printed again; it does not grow while `L` holds. -/
def Reprints (L : Prop) (v v' : String) : Prop :=
  ValueOk v' ∧ (L → ∀ text, Spelled text v → utf8Len (spell v') ≤ utf8Len text)

def NotNumber (s : Scalar) : Prop := ∀ n, s ≠ .number n

variable {compared : Query.Operator}

theorem operator_token {op : Operator} (h : operator compared = .ok op) :
    token op = Query.Filter.token compared := by
  cases compared <;> cases h <;> rfl

theorem operator_null {op : Operator} (h : operator compared = .ok op)
    (null : op = .isNull ∨ op = .isNotNull) : compared.set = false := by
  cases compared <;> cases h <;> first | rfl | simp at null

theorem spell_true : String.ofList (spell "true") = "true" := by decide

theorem true_reprints (L : Prop) : Reprints L "true" "true" :=
  ⟨by decide, fun _ _ spelled => spell_le spelled⟩

theorem parens_join (texts : List String) :
    "(" ++ join ',' texts ++ ")" =
      String.ofList ('(' :: (joined ',' (texts.map String.toList) ++ [')'])) := by
  have opening : "(".toList = ['('] := rfl
  have closing : ")".toList = [')'] := rfl
  apply toList_inj.mp
  rw [toList_append, toList_append, opening, closing, join]
  simp only [toList_ofList]
  rfl

theorem join_ofList (separator : Char) (texts : List (List Char)) :
    join separator (texts.map String.ofList) = String.ofList (joined separator texts) := by
  have back : (texts.map String.ofList).map String.toList = texts := by
    rw [List.map_map]
    exact (List.map_congr_left (fun t _ => toList_ofList)).trans (List.map_id texts)
  rw [join, back]

theorem parens_ofList (text : List Char) :
    "(" ++ String.ofList text ++ ")" = String.ofList ('(' :: (text ++ [')'])) := by
  have whole := parens_join [String.ofList text]
  simp only [join, List.map_cons, List.map_nil, joined, toList_ofList] at whole
  exact whole

section

variable [Numerals]

def Printable (s : Scalar) : Prop := ∀ n, s = .number n → NumberReadsBack n

theorem operand_eq {s : Scalar} {v : String} (prints : scalarText s = .ok v) :
    operand s = .ok (String.ofList (spell v)) := by
  rw [operand, prints, ok_bind, spelling_eq]

variable [Inventory.Environment]

theorem scalars_reprinted {L : Prop} {kind : Kind} {values : List String} {all : List Scalar}
    (read : values.mapM (scalar kind) = .ok all) (ok : ∀ v ∈ values, ValueOk v)
    (printable : ∀ s ∈ all, Printable s) (free : L → ∀ s ∈ all, NotNumber s) :
    ∃ values', List.Forall₂ (Reprints L) values values' ∧ values'.mapM (scalar kind) = .ok all ∧
      all.mapM operand = .ok (values'.map (fun v => String.ofList (spell v))) := by
  have each := mapM_eq_ok.mp read
  clear read
  induction each with
  | nil => exact ⟨[], .nil, rfl, rfl⟩
  | @cons v s _ _ first _ ih =>
    obtain ⟨v', prints, reads, value, shorter⟩ := scalar_reprinted first
      (ok v (.head _)) (printable s (.head _))
    obtain ⟨values', related, reads', prints'⟩ := ih (fun v mem => ok v (.tail _ mem))
      (fun s mem => printable s (.tail _ mem))
      (fun l s mem => free l s (.tail _ mem))
    have reprints : Reprints L v v' := ⟨value, fun l => shorter (free l s (.head _))⟩
    refine ⟨v' :: values', .cons reprints related, ?_, ?_⟩
    · rw [List.mapM_cons, reads, ok_bind, reads', ok_bind]
      rfl
    · rw [List.mapM_cons, operand_eq prints, ok_bind, prints', ok_bind]
      rfl

theorem operands_reprinted {L : Prop} {kind : Kind} {compared : Query.Operator} {op : Operator}
    {values : List String} {value : Option Scalar} {all : Option (List Scalar)}
    (known : operator compared = .ok op) (read : operands kind compared op values = .ok (value, all))
    (ok : ∀ v ∈ values, ValueOk v)
    (printable : (∀ s, value = some s → Printable s) ∧ ∀ ss, all = some ss → ∀ s ∈ ss, Printable s)
    (free : L → (∀ s, value = some s → NotNumber s) ∧ ∀ ss, all = some ss → ∀ s ∈ ss, NotNumber s) :
    ∃ values', List.Forall₂ (Reprints L) values values' ∧
      operands kind compared op values' = .ok (value, all) ∧
      operandsText value all = .ok (String.ofList (operandText spell compared values')) := by
  unfold operands at read ⊢
  by_cases null : op = .isNull ∨ op = .isNotNull
  · simp only [null, if_true] at read ⊢
    obtain ⟨only, read⟩ := of_guard read
    cases read
    obtain rfl : values = ["true"] := not_not.mp only
    refine ⟨["true"], .cons (true_reprints L) .nil, if_neg (fun different => different rfl), ?_⟩
    have text : operandText spell compared ["true"] = spell "true" := by
      rw [operandText, operator_null known null]
      rfl
    rw [text, spell_true]
    rfl
  · simp only [null, if_false] at read ⊢
    cases many : compared.set with
    | true =>
      simp only [many, if_true] at read ⊢
      obtain ⟨ss, reads, read⟩ := of_bind read
      cases read
      obtain ⟨values', related, reads', prints⟩ := scalars_reprinted reads ok
        (printable.2 ss rfl) (fun l => (free l).2 ss rfl)
      refine ⟨values', related, bind_eq_ok.mpr ⟨ss, reads', rfl⟩, ?_⟩
      have texts : (values'.map (fun v => String.ofList (spell v))).map String.toList =
          values'.map spell := by
        rw [List.map_map]
        exact List.map_congr_left (fun v _ => toList_ofList)
      rw [operandsText, prints, ok_bind, parens_join, texts, operandText, if_pos many]
    | false =>
      simp only [many, Bool.false_eq_true, if_false] at read ⊢
      split at read
      · rename_i v
        obtain ⟨s, reads, read⟩ := of_bind read
        cases read
        obtain ⟨v', prints, reads', value', shorter⟩ := scalar_reprinted reads
          (ok v (.head _)) (printable.1 s rfl)
        have reprints : Reprints L v v' := ⟨value', fun l => shorter ((free l).1 s rfl)⟩
        refine ⟨[v'], .cons reprints .nil, bind_eq_ok.mpr ⟨s, reads', rfl⟩, ?_⟩
        have text : operandText spell compared [v'] = spell v' := by
          rw [operandText, many]
          rfl
        rw [operandsText, operand_eq prints, text]
      · cases read

end

section

variable [Inventory.Environment] [Numerals]

mutual

/-- An expression that compiles to the criteria and is what they are printed as. -/
def Canonical (catalog : Catalog) : Expr → Criteria → Prop
  | .compare field compared values, .predicate key op value all =>
      bind catalog (.compare field compared values) = .ok (.predicate key op value all) ∧
        format 0 (.predicate key op value all) =
          .ok (String.ofList (render spell 0 (.compare field compared values)))
  | .and rs, .and cs => CanonicalAll catalog rs cs
  | .or rs, .or cs => CanonicalAll catalog rs cs
  | _, _ => False

def CanonicalAll (catalog : Catalog) : List Expr → List Criteria → Prop
  | [], [] => True
  | r :: rs, c :: cs => Canonical catalog r c ∧ CanonicalAll catalog rs cs
  | _, _ => False

end

variable {catalog : Catalog}

theorem canonicalAll_append {rs rs' : List Expr} {cs cs' : List Criteria}
    (h : CanonicalAll catalog rs cs) (h' : CanonicalAll catalog rs' cs') :
    CanonicalAll catalog (rs ++ rs') (cs ++ cs') := by
  induction rs generalizing cs with
  | nil =>
    cases cs with
    | nil => exact h'
    | cons => exact h.elim
  | cons _ _ ih =>
    cases cs with
    | nil => exact h.elim
    | cons => exact ⟨h.1, ih h.2⟩

mutual

theorem Canonical.bind_eq : ∀ (r : Expr) (c : Criteria), Canonical catalog r c → bind catalog r = .ok c
  | .compare _ _ _, .predicate _ _ _ _, h => h.1
  | .and rs, .and cs, h | .or rs, .or cs, h => by
      rw [bind, CanonicalAll.bind_eq rs cs h]
      rfl
  | .compare _ _ _, .and _, h | .compare _ _ _, .or _, h | .and _, .predicate _ _ _ _, h
  | .and _, .or _, h | .or _, .predicate _ _ _ _, h | .or _, .and _, h => h.elim

theorem CanonicalAll.bind_eq : ∀ (rs : List Expr) (cs : List Criteria), CanonicalAll catalog rs cs →
    bindAll catalog rs = .ok cs
  | [], [], _ => rfl
  | r :: rs, c :: cs, h => by
      rw [bindAll, Canonical.bind_eq r c h.1, ok_bind, CanonicalAll.bind_eq rs cs h.2]
      rfl
  | [], _ :: _, h | _ :: _, [], h => h.elim

end

mutual

theorem Canonical.format_eq : ∀ (r : Expr) (c : Criteria), Canonical catalog r c →
    ∀ parent, parent ≤ 2 → format parent c = .ok (String.ofList (render spell parent r))
  | .compare _ _ _, .predicate _ _ _ _, h, _, _ => h.2
  | .and rs, .and cs, h, parent, low => by
      rw [format, CanonicalAll.format_eq rs cs h 2 (Nat.le_refl 2), ok_bind, render]
      dsimp only
      rw [join_ofList, if_neg (Nat.not_lt.mpr low)]
  | .or rs, .or cs, h, parent, low => by
      rw [format, CanonicalAll.format_eq rs cs h 1 (Nat.le_succ 1), ok_bind, render]
      dsimp only
      rw [join_ofList]
      split
      · rw [parens_ofList]
      · rfl
  | .compare _ _ _, .and _, h, _, _ | .compare _ _ _, .or _, h, _, _
  | .and _, .predicate _ _ _ _, h, _, _ | .and _, .or _, h, _, _
  | .or _, .predicate _ _ _ _, h, _, _ | .or _, .and _, h, _, _ => h.elim

theorem CanonicalAll.format_eq : ∀ (rs : List Expr) (cs : List Criteria), CanonicalAll catalog rs cs →
    ∀ parent, parent ≤ 2 →
      formatAll parent cs = .ok ((renderAll spell parent rs).map String.ofList)
  | [], [], _, _, _ => rfl
  | r :: rs, c :: cs, h, parent, low => by
      rw [formatAll, Canonical.format_eq r c h.1 parent low, ok_bind,
        CanonicalAll.format_eq rs cs h.2 parent low]
      rfl
  | [], _ :: _, h, _, _ | _ :: _, [], h, _, _ => h.elim

end

mutual

theorem Canonical.operands : ∀ (r : Expr) (c : Criteria), Canonical catalog r c →
    CanonicalAll catalog (Query.Filter.conjunctsOf r) c.conjunctsOf ∧
      CanonicalAll catalog (Query.Filter.disjunctsOf r) c.disjunctsOf
  | .compare _ _ _, .predicate _ _ _ _, h => ⟨⟨h, trivial⟩, ⟨h, trivial⟩⟩
  | .and rs, .and cs, h => by
      obtain ⟨inside, -⟩ := CanonicalAll.operands rs cs h
      exact ⟨inside, inside, trivial⟩
  | .or rs, .or cs, h => by
      obtain ⟨-, inside⟩ := CanonicalAll.operands rs cs h
      exact ⟨⟨inside, trivial⟩, inside⟩
  | .compare _ _ _, .and _, h | .compare _ _ _, .or _, h | .and _, .predicate _ _ _ _, h
  | .and _, .or _, h | .or _, .predicate _ _ _ _, h | .or _, .and _, h => h.elim

theorem CanonicalAll.operands : ∀ (rs : List Expr) (cs : List Criteria), CanonicalAll catalog rs cs →
    CanonicalAll catalog (Query.Filter.conjuncts rs) (Criteria.conjuncts cs) ∧
      CanonicalAll catalog (Query.Filter.disjuncts rs) (Criteria.disjuncts cs)
  | [], [], _ => ⟨trivial, trivial⟩
  | r :: rs, c :: cs, h => by
      obtain ⟨first, first'⟩ := Canonical.operands r c h.1
      obtain ⟨rest, rest'⟩ := CanonicalAll.operands rs cs h.2
      exact ⟨canonicalAll_append first rest, canonicalAll_append first' rest'⟩
  | [], _ :: _, h | _ :: _, [], h => h.elim

end

theorem Canonical.spliced {r : Expr} {c : Criteria} (h : Canonical catalog r c) :
    Canonical catalog (Query.Filter.spliced r) c.spliced := by
  cases r with
  | compare =>
    cases c with
    | predicate => exact h
    | and | or => exact h.elim
  | and rs =>
    cases c with
    | predicate => exact h.elim
    | and cs => exact (CanonicalAll.operands rs cs h).1
    | or => exact h.elim
  | or rs =>
    cases c with
    | predicate | and => exact h.elim
    | or cs => exact (CanonicalAll.operands rs cs h).2

theorem compare_reprinted {L : Prop} {field : String} {compared : Query.Operator}
    {values : List String} {c : Criteria} (read : bind catalog (.compare field compared values) = .ok c)
    (shape : Shape (.compare field compared values)) (printable : c.Operands Printable)
    (free : L → c.Operands NotNumber) :
    ∃ r, Related (Reprints L) (.compare field compared values) r ∧ Canonical catalog r c := by
  have steps := read
  rw [bind] at steps
  obtain ⟨key, named, steps⟩ := of_bind steps
  obtain ⟨path, found, steps⟩ := of_bind steps
  obtain ⟨op, known, steps⟩ := of_bind steps
  obtain ⟨⟨value, all⟩, reads, steps⟩ := of_bind steps
  cases steps
  obtain ⟨values', related, reads', prints⟩ := operands_reprinted known reads shape.2.1 printable free
  refine ⟨.compare field compared values', ⟨rfl, rfl, related⟩, ?_, ?_⟩
  · rw [bind, named, ok_bind, found, ok_bind, known, ok_bind, reads']
    rfl
  · have text : key.asStr = field := (FieldKey.parse_eq_ok (mapError_eq_ok.mp named)).1
    rw [format, prints, ok_bind, render, text, operator_token known]
    congr 1
    apply toList_inj.mp
    rw [toList_append, toList_append, toList_ofList, toList_ofList,
      List.append_assoc]

mutual

theorem reprinted {L : Prop} : ∀ (e : Expr) (c : Criteria), bind catalog e = .ok c → Shape e →
    c.Operands Printable → (L → c.Operands NotNumber) →
    ∃ r, Related (Reprints L) e r ∧ Canonical catalog r c
  | .compare field compared values, c, read, shape, printable, free =>
    compare_reprinted read shape printable free
  | .and es, c, read, shape, printable, free => by
      rw [bind] at read
      obtain ⟨cs, reads, read⟩ := of_bind read
      cases read
      obtain ⟨rs, related, canonical⟩ := reprintedAll es cs reads shape.2 printable free
      exact ⟨.and rs, related, canonical⟩
  | .or es, c, read, shape, printable, free => by
      rw [bind] at read
      obtain ⟨cs, reads, read⟩ := of_bind read
      cases read
      obtain ⟨rs, related, canonical⟩ := reprintedAll es cs reads shape.2 printable free
      exact ⟨.or rs, related, canonical⟩

theorem reprintedAll {L : Prop} : ∀ (es : List Expr) (cs : List Criteria),
    bindAll catalog es = .ok cs → ShapeAll es → Criteria.OperandsAll Printable cs →
    (L → Criteria.OperandsAll NotNumber cs) →
    ∃ rs, RelatedAll (Reprints L) es rs ∧ CanonicalAll catalog rs cs
  | [], cs, read, _, _, _ => by
      cases read
      exact ⟨[], trivial, trivial⟩
  | e :: es, cs, read, shape, printable, free => by
      rw [bindAll] at read
      obtain ⟨c, first, read⟩ := of_bind read
      obtain ⟨rest, reads, read⟩ := of_bind read
      cases read
      obtain ⟨r, related, canonical⟩ := reprinted e c first shape.1 printable.1 (fun l => (free l).1)
      obtain ⟨rs, relateds, canonicals⟩ := reprintedAll es rest reads shape.2 printable.2
        (fun l => (free l).2)
      exact ⟨r :: rs, ⟨related, relateds⟩, canonical, canonicals⟩

end

end

variable [Inventory.Environment] [Numerals] {catalog : Catalog}

omit [Inventory.Environment] [Numerals] in
theorem readable_reprint {L : Prop} {nodes setItems depth : Nat} {text : List Char} {e r : Expr}
    (readable : Query.Filter.Readable nodes setItems depth text e)
    (related : Related (Reprints L) e r)
    (bytes : utf8Len (render spell 0 r) ≤ maxFilterBytes) :
    Query.Filter.Readable nodes setItems depth (render spell 0 r) (Query.Filter.spliced r) := by
  have ok : ∀ v v', Reprints L v v' → ValueOk v' := fun _ _ h => h.1
  have spells : ∀ v v', Reprints L v v' → Spelled (spell v') v' := fun _ _ h => spelled_spell h.1
  obtain ⟨sameNodes, sameItems, shape⟩ := related.carried ok
  have fewer := Query.Filter.nodeCount_spliced r
  have items := Query.Filter.setCount_spliced r
  have nodesLeft := readable.nodes
  have itemsLeft := readable.setItems
  refine ⟨bytes, (readable.written.rewritten spells related).1.written,
    Query.Filter.shape_spliced (shape readable.shape), ?_, ?_⟩
  · omega
  · omega

variable {condition : InventoryCondition} {scope : QueryScope} {s : String}

theorem compileFilter_reprinted {L : Prop} (h : compileFilter catalog scope s = .ok condition)
    (printable : condition.criteria.Operands Printable)
    (free : L → condition.criteria.Operands NotNumber) :
    ∃ e r, Query.Filter.Readable 128 256 16 s.toList e ∧ Related (Reprints L) e r ∧
      Canonical catalog r condition.criteria ∧ Shape r ∧ condition.validate = .ok () ∧
      condition.selector = scope.selector ∧ condition.quantifier = scope.quantifier := by
  obtain ⟨e, parsed, h⟩ := of_bind h
  obtain ⟨c, bound, h⟩ := of_bind h
  obtain ⟨valid, h⟩ := of_check h
  cases h
  have accepted : parseWithin 128 256 16 s = .ok e := mapError_eq_ok.mp parsed
  have readable := parseWithin_eq_ok.mp accepted
  obtain ⟨r, related, canonical⟩ := reprinted e c bound readable.shape printable free
  exact ⟨e, r, readable, related, canonical,
    (related.carried (fun _ _ h => h.1)).shape readable.shape, valid, rfl, rfl⟩

theorem formatted_eq_ok {c : Criteria} {r : Expr} (canonical : Canonical catalog r c) {t : String} :
    formatted c = .ok t ↔ t = String.ofList (render spell 0 r) ∧ ∃ e, parse t = .ok e := by
  unfold formatted
  rw [canonical.format_eq r c 0 (Nat.zero_le 2), ok_bind]
  constructor
  · intro h
    obtain ⟨e, parsed, h⟩ := of_bind h
    cases h
    exact ⟨rfl, e, mapError_eq_ok.mp parsed⟩
  · rintro ⟨rfl, e, parsed⟩
    exact bind_eq_ok.mpr ⟨e, mapError_eq_ok.mpr parsed, rfl⟩

theorem compileFilter_formatted {t : String} (h : compileFilter catalog scope s = .ok condition)
    (printable : condition.criteria.Operands Printable)
    (prints : formatted condition.criteria = .ok t) :
    compileFilter catalog scope t = .ok { condition with criteria := condition.criteria.spliced } ∧
      formatted condition.criteria.spliced = .ok t := by
  obtain ⟨e, r, readable, related, canonical, shape, valid, selector, quantifier⟩ :=
    compileFilter_reprinted h printable (fun absurd : False => absurd.elim)
  obtain ⟨text, e', parsed⟩ := (formatted_eq_ok canonical).mp prints
  have accepted : parseWithin 128 256 16 t = .ok e' := parsed
  have bytes := (parseWithin_eq_ok.mp accepted).bytes
  have same : t.toList = render spell 0 r := by rw [text, toList_ofList]
  rw [same] at bytes
  have again := readable_reprint readable related bytes
  rw [← same] at again
  have reads : parse t = .ok (Query.Filter.spliced r) := parseWithin_eq_ok.mpr again
  refine ⟨?_, (formatted_eq_ok canonical.spliced).mpr ⟨?_, _, reads⟩⟩
  · have valid' : ({ condition with criteria := condition.criteria.spliced } :
        InventoryCondition).validate = .ok () := valid
    have expression : checkedInput (parse t) = .ok (Query.Filter.spliced r) := mapError_eq_ok.mpr reads
    unfold compileFilter
    rw [expression, ok_bind, canonical.spliced.bind_eq, ok_bind]
    dsimp only
    rw [← selector, ← quantifier, valid', ok_bind]
  · rw [Query.Filter.render_spliced shape, text]

/-- Without numbers the criteria of a filter are printed as a filter that is no longer and needs no
more nodes, set values or parentheses. -/
theorem compileFilter_printed (h : compileFilter catalog scope s = .ok condition)
    (free : condition.criteria.Operands NotNumber)
    (printable : condition.criteria.Operands Printable) :
    ∃ t, formatted condition.criteria = .ok t ∧ t.utf8ByteSize ≤ s.utf8ByteSize ∧
      ∀ nodes setItems depth, (∃ e, parseWithin nodes setItems depth s = .ok e) →
        ∃ e, parseWithin nodes setItems depth t = .ok e := by
  obtain ⟨e, r, readable, related, canonical, -, -, -, -⟩ :=
    compileFilter_reprinted h printable (fun _ : True => free)
  have shorter : ∀ v v', Reprints True v v' → ∀ text, Spelled text v →
      utf8Len (spell v') ≤ utf8Len text := fun _ _ h => h.2 trivial
  have bound := readable.written.render_le shorter related
  have same : (String.ofList (render spell 0 r)).toList = render spell 0 r := toList_ofList
  have fits := bound.trans readable.bytes
  have again : ∀ {nodes setItems depth : Nat}, Query.Filter.Readable nodes setItems depth s.toList e →
      parseWithin nodes setItems depth (String.ofList (render spell 0 r)) =
        .ok (Query.Filter.spliced r) := by
    intro nodes setItems depth given
    refine parseWithin_eq_ok.mpr ?_
    rw [same]
    exact readable_reprint given related fits
  refine ⟨String.ofList (render spell 0 r), (formatted_eq_ok canonical).mpr ⟨rfl, _, again readable⟩,
    ?_, ?_⟩
  · rw [utf8ByteSize_eq, utf8ByteSize_eq, same]
    exact bound
  · rintro nodes setItems depth ⟨e', accepted⟩
    have given := parseWithin_eq_ok.mp accepted
    have whole : Query.Filter.Readable 128 256 16 s.toList e' := by
      have nodesLeft := given.nodes
      have itemsLeft := given.setItems
      exact ⟨given.bytes, given.written.deeper (by omega), given.shape, by omega, by omega⟩
    have unique : e' = e := by
      have first := parseWithin_eq_ok.mpr whole
      have second := parseWithin_eq_ok.mpr readable
      exact Except.ok.inj (first.symm.trans second)
    exact ⟨_, again (unique ▸ given)⟩

end Rsql

end RssMdm.Assets
