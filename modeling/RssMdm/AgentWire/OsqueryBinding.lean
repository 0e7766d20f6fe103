/- module: AgentWire/OsqueryBinding
   source: crates/agent-wire/src/osquery.rs
   digest: When SQLite reads a rendered template as the template with its placeholders replaced. -/

import RssMdm.AgentWire.Osquery

set_option autoImplicit false

namespace RssMdm.AgentWire.Osquery

open RssMdm.Lib RssMdm.Lib.Fallible
open RssMdm.Lib.Text (utf8Len)
open Sqlparser (Expr Ident Query Select SelectItem Text Value displayList displayMore shownPieces
  shownPieces_append faithful)
open List (all_cons all_eq_true append_nil cons_append mem_append mem_cons mem_cons_of_mem
  mem_cons_self)
open Option (bind_some map_some)
open Bool (and_eq_true not_eq_true' or_eq_true)

def signed : Text → Sqlite.Expr
  | '-' :: digits => .unary .minus (.number digits)
  | '+' :: digits => .unary .plus (.number digits)
  | digits => .number digits

def valueTree : Value → Sqlite.Expr
  | .singleQuotedString s => .text s
  | .number n _ => signed n
  | .boolean b => .word (if b then "true".toList else "false".toList)
  | .null => .null
  | .placeholder p => .variable p.tail

def unaryTree : Sqlparser.UnaryOperator → Sqlite.Unary
  | .not => .not
  | .minus => .minus
  | .plus => .plus

def binaryTree : Sqlparser.BinaryOperator → Sqlite.Binary
  | .eq => .eq
  | .notEq => .ne
  | .lt => .lt
  | .ltEq => .le
  | .gt => .gt
  | .gtEq => .ge
  | .and => .and
  | .or => .or

mutual

/-- The tree of an expression of a template; nodes that templates may not hold have none. -/
def tree : Expr → Sqlite.Expr
  | .identifier id => .word id.value
  | .value v => valueTree v
  | .nested e => .paren (tree e)
  | .isNull e => .binary .is (tree e) .null
  | .isNotNull e => .binary .isNot (tree e) .null
  | .unaryOp op e => .unary (unaryTree op) (tree e)
  | .binaryOp left op right => .binary (binaryTree op) (tree left) (tree right)
  | .inList e list negated => .member negated (tree e) (treeList list)
  | .function name arguments _ => .call name (treeList arguments)
  | .other _ => .null

def treeList : List Expr → List Sqlite.Expr
  | [] => []
  | e :: es => tree e :: treeList es

end

def itemTree : SelectItem → Sqlite.Item
  | .unnamedExpr e => ⟨tree e, none⟩
  | .exprWithAlias e name => ⟨tree e, some name.value⟩
  | .other _ => ⟨.null, none⟩

/-- The tree of a template without a limit. -/
def selectTree (s : Select) : Sqlite.Selection :=
  ⟨s.projection.map itemTree, s.from.headD [], s.selection.map tree, none⟩

/-- The literal a parameter stands for: the text itself, 0 or 1, or the signed integer. -/
def literalTree : Option Json → Sqlite.Expr
  | some (.string s) => .text s
  | some (.bool b) => .number (if b then ['1'] else ['0'])
  | some (.integer n) =>
      if n < 0 then .unary .minus (.number (Nat.toDigits 10 n.natAbs))
      else .number (Nat.toDigits 10 n.natAbs)
  | some .other | none => .null

mutual

def substitute (values : Parameters) : Sqlite.Expr → Sqlite.Expr
  | .variable name => literalTree (values.lookup name)
  | .paren e => .paren (substitute values e)
  | .call name arguments => .call name (substituteList values arguments)
  | .unary op e => .unary op (substitute values e)
  | .binary op left right => .binary op (substitute values left) (substitute values right)
  | .member negated e items => .member negated (substitute values e) (substituteList values items)
  | .word name => .word name
  | .null => .null
  | .text value => .text value
  | .number digits => .number digits

def substituteList (values : Parameters) : List Sqlite.Expr → List Sqlite.Expr
  | [] => []
  | e :: es => substitute values e :: substituteList values es

end

/-- The template's tree with its placeholders replaced and one row more than allowed asked for. -/
def boundTree (select : Select) (values : Parameters) (maxRows : UInt32) : Sqlite.Selection :=
  let template := selectTree select
  { items := template.items.map (fun item => ⟨substitute values item.expr, item.name⟩)
    table := template.table
    condition := template.condition.map (substitute values)
    limit := some (Nat.toDigits 10 (maxRows.toNat + 1)) }

def numericSigned (n : Text) : Bool := Sqlite.numeric (unsignedPart n)

def valueWritten : Value → Bool
  | .singleQuotedString _ | .boolean _ | .null => true
  | .number n long => !long && numericSigned n
  | .placeholder p => p.head? = some ':' && !p.tail.isEmpty && p.tail.all Sqlite.idChar

mutual

/-- What admission leaves of the shape of an expression. -/
def written : Expr → Bool
  | .identifier id => id.quoteStyle.isNone && Sqlite.isName id.value
  | .value v => valueWritten v
  | .nested e | .isNull e | .isNotNull e | .unaryOp _ e => written e
  | .binaryOp left _ right => written left && written right
  | .inList e list _ => written e && allWritten list
  | .function name arguments clauses =>
      Sqlite.isName name && clauses.isEmpty && allWritten arguments
  | .other _ => false

def allWritten : List Expr → Bool
  | [] => true
  | e :: es => written e && allWritten es

end

attribute [local simp] Sqlite.Expr.pieces shownPieces Sqlparser.shown Sqlite.Token.spell

theorem shown_signed (n : Text) : shownPieces (signed n).pieces = n := by
  unfold signed
  split
  · next digits => simp [Sqlite.Unary.pieces]
  · next digits => simp [Sqlite.Unary.pieces]
  · simp

variable {v : Value}

theorem shown_value (h : valueWritten v = true) : shownPieces (valueTree v).pieces = v.display := by
  cases v with
  | singleQuotedString =>
    simp [valueTree, Value.display]
  | number =>
    simp only [valueWritten, and_eq_true, not_eq_true'] at h
    rw [valueTree, shown_signed, Value.display, h.1]
    simp
  | boolean b =>
    cases b with
    | true | false => rfl
  | null => rfl
  | placeholder p =>
    simp only [valueWritten, and_eq_true, decide_eq_true_eq] at h
    cases p with
    | nil => cases h.1.1
    | cons c =>
      obtain rfl : c = ':' := Option.some.inj h.1.1
      simp [valueTree, Value.display]

theorem shown_binary (op : Sqlparser.BinaryOperator) :
    shownPieces (binaryTree op).pieces = op.display := by
  cases op with
  | eq | notEq | lt | ltEq | gt | gtEq | and | or => rfl

theorem shown_unary (op : Sqlparser.UnaryOperator) :
    shownPieces (unaryTree op).pieces = op.display := by
  cases op with
  | not | minus | plus => rfl

theorem shown_space (ps : List Sqlite.Piece) : shownPieces (none :: ps) = ' ' :: shownPieces ps := rfl

theorem shown_opening (ps : List Sqlite.Piece) :
    shownPieces (some .opening :: ps) = '(' :: shownPieces ps := rfl

theorem shown_closing : shownPieces [some .closing] = [')'] := rfl

theorem shown_comma (ps : List Sqlite.Piece) :
    shownPieces (some .comma :: ps) = ',' :: shownPieces ps := rfl

theorem shown_word (name : Text) (ps : List Sqlite.Piece) :
    shownPieces (some (.word name) :: ps) = name ++ shownPieces ps := rfl

mutual

theorem shown_expr : ∀ e : Expr, written e = true → shownPieces (tree e).pieces = e.display
  | .identifier id, h => by
      simp only [written, and_eq_true, Option.isNone_iff_eq_none] at h
      rw [tree, Sqlite.Expr.pieces, shown_word, Expr.display, Ident.display, h.1]
      exact append_nil _
  | .value v, h => by
      rw [tree, shown_value h, Expr.display]
  | .nested e, h => by
      rw [tree, Sqlite.Expr.pieces, shown_opening, shownPieces_append, shown_expr e h, shown_closing,
        Expr.display]
  | .isNull e, h | .isNotNull e, h => by
      rw [tree, Sqlite.Expr.pieces, shownPieces_append, shown_expr e h, Expr.display]
      rfl
  | .unaryOp op e, h => by
      rw [tree, Sqlite.Expr.pieces, shownPieces_append, shown_expr e h, shown_unary, Expr.display]
  | .binaryOp left op right, h => by
      rw [written, and_eq_true] at h
      rw [tree, Sqlite.Expr.pieces, shownPieces_append, shown_expr left h.1, shown_space,
        shownPieces_append, shown_binary, shown_space, shown_expr right h.2, Expr.display]
  | .inList e list negated, h => by
      rw [written, and_eq_true] at h
      rw [tree, Sqlite.Expr.pieces, shownPieces_append, shown_expr e h.1, shown_space,
        shownPieces_append, shown_space, shown_opening, shownPieces_append, shown_list list h.2,
        shown_closing, Expr.display]
      cases negated with
      | true | false => rfl
  | .function name arguments clauses, h => by
      simp only [written, and_eq_true, List.isEmpty_iff] at h
      rw [tree, Sqlite.Expr.pieces, shown_word, shown_opening, shownPieces_append,
        shown_list arguments h.2, shown_closing, Expr.display, h.1.2]

theorem shown_list : ∀ es : List Expr, allWritten es = true →
    shownPieces (Sqlite.listPieces (treeList es)) = displayList es
  | [], _ => rfl
  | e :: es, h => by
      rw [allWritten, and_eq_true] at h
      rw [treeList, Sqlite.listPieces, shownPieces_append, shown_expr e h.1, shown_more es h.2,
        displayList]

theorem shown_more : ∀ es : List Expr, allWritten es = true →
    shownPieces (Sqlite.morePieces (treeList es)) = displayMore es
  | [], _ => rfl
  | e :: es, h => by
      rw [allWritten, and_eq_true] at h
      rw [treeList, Sqlite.morePieces, shown_comma, shown_space, shownPieces_append,
        shown_expr e h.1, shown_more es h.2, displayMore]

end

def Spelled (ts : List Sqlite.Token) : Prop := ∀ t ∈ ts, t.spelled = true

variable {ts : List Sqlite.Token}

theorem spelled_cons {t : Sqlite.Token} (head : t.spelled = true) (tail : Spelled ts) :
    Spelled (t :: ts) := by
  intro u mem
  rcases mem_cons.mp mem with rfl | mem
  · exact head
  · exact tail u mem

theorem spelled_append {us : List Sqlite.Token} (first : Spelled ts) (second : Spelled us) :
    Spelled (ts ++ us) := by
  intro u mem
  rcases mem_append.mp mem with mem | mem
  · exact first u mem
  · exact second u mem

theorem spelled_nil : Spelled [] := nofun

theorem spelled_one {t : Sqlite.Token} (h : t.spelled = true) : Spelled [t] :=
  spelled_cons h spelled_nil

theorem spelled_binary (op : Sqlite.Binary) : Spelled op.tokens := by
  cases op with
  | or | and | eq | ne | is | lt | le | gt | ge => exact spelled_one rfl
  | isNot => exact spelled_cons rfl (spelled_one rfl)

theorem spelled_in (negated : Bool) : Spelled (Sqlite.inTokens negated) := by
  cases negated with
  | true => exact spelled_cons rfl (spelled_one rfl)
  | false => exact spelled_one rfl

theorem unsignedPart_cases (n : Text) :
    n = '-' :: unsignedPart n ∨ n = '+' :: unsignedPart n ∨
      (unsignedPart n = n ∧ signed n = .number n) := by
  unfold unsignedPart
  split
  · exact .inl rfl
  · exact .inr (.inl rfl)
  next minus plus =>
    refine .inr (.inr ⟨rfl, ?_⟩)
    unfold signed
    split
    · exact absurd rfl (minus _)
    · exact absurd rfl (plus _)
    · rfl

variable {n : Text}

theorem spelled_signed (h : numericSigned n = true) : Spelled (signed n).tokens := by
  rw [numericSigned] at h
  rcases unsignedPart_cases n with same | same | ⟨plain, same⟩
  · rw [same]
    exact spelled_cons rfl (spelled_one h)
  · rw [same]
    exact spelled_cons rfl (spelled_one h)
  · rw [plain] at h
    rw [same]
    exact spelled_one h

theorem spelled_value (h : valueWritten v = true) : Spelled (valueTree v).tokens := by
  cases v with
  | singleQuotedString => exact spelled_one rfl
  | number =>
    simp only [valueWritten, and_eq_true] at h
    exact spelled_signed h.2
  | boolean b =>
    cases b with
    | true | false => exact spelled_one (by decide)
  | null => exact spelled_one rfl
  | placeholder =>
    simp only [valueWritten, and_eq_true, not_eq_true', List.isEmpty_eq_false_iff] at h
    refine spelled_one ?_
    simp [Sqlite.Token.spelled, h.1.2, h.2]

mutual

theorem spelled_expr : ∀ e : Expr, written e = true → Spelled (tree e).tokens
  | .identifier id, h => by
      rw [written, and_eq_true] at h
      exact spelled_one h.2
  | .value v, h => spelled_value h
  | .nested e, h => spelled_cons rfl (spelled_append (spelled_expr e h) (spelled_one rfl))
  | .isNull e, h => spelled_append (spelled_expr e h) (spelled_append (spelled_binary _) (spelled_one rfl))
  | .isNotNull e, h =>
    spelled_append (spelled_expr e h) (spelled_append (spelled_binary _) (spelled_one rfl))
  | .unaryOp op e, h => by
      refine spelled_cons ?_ (spelled_expr e h)
      cases op with
      | not | minus | plus => rfl
  | .binaryOp left op right, h => by
      rw [written, and_eq_true] at h
      exact spelled_append (spelled_expr left h.1)
        (spelled_append (spelled_binary _) (spelled_expr right h.2))
  | .inList e list negated, h => by
      rw [written, and_eq_true] at h
      refine spelled_append (spelled_expr e h.1) (spelled_append (spelled_in negated) ?_)
      exact spelled_cons rfl (spelled_append (spelled_list list h.2) (spelled_one rfl))
  | .function name arguments clauses, h => by
      simp only [written, and_eq_true] at h
      refine spelled_cons h.1.1 (spelled_cons rfl ?_)
      exact spelled_append (spelled_list arguments h.2) (spelled_one rfl)

theorem spelled_list : ∀ es : List Expr, allWritten es = true →
    Spelled (Sqlite.listTokens (treeList es))
  | [], _ => spelled_nil
  | e :: es, h => by
      rw [allWritten, and_eq_true] at h
      exact spelled_append (spelled_expr e h.1) (spelled_more es h.2)

theorem spelled_more : ∀ es : List Expr, allWritten es = true →
    Spelled (Sqlite.moreTokens (treeList es))
  | [], _ => spelled_nil
  | e :: es, h => by
      rw [allWritten, and_eq_true] at h
      exact spelled_cons rfl (spelled_append (spelled_expr e h.1) (spelled_more es h.2))

end

variable {name : Text}

theorem identifier_eq_ok {id : Ident} (h : identifier id = .ok name) :
    name = id.value ∧ id.quoteStyle = none ∧
      ∃ c cs, id.value = c :: cs ∧ c.isLower = true ∧
        cs.all (fun c => c.isLower || c.isDigit || c = '_') = true := by
  obtain ⟨passed, h⟩ := of_guard h
  cases h
  simp only [or_eq_true, not_or, Bool.not_eq_true, Option.isSome_eq_false_iff,
    Option.isNone_iff_eq_none, not_eq_true', Bool.not_eq_false] at passed
  obtain ⟨⟨⟨⟨unquoted, nonempty⟩, _⟩, lower⟩, all⟩ := passed
  refine ⟨rfl, unquoted, ?_⟩
  rcases value : id.value with _ | ⟨c, cs⟩
  · rw [value] at nonempty
    cases nonempty
  · rw [value] at lower all
    exact ⟨c, cs, rfl, by simpa using lower, (by simpa using all : _ ∧ _).2⟩

theorem run_digits {phase : Sqlite.Phase} (stays : ∀ c : Char, c.isDigit = true →
    phase.next c = some phase) {ds : Text} (digits : ds.all Char.isDigit = true) (rest : Text) :
    phase.run (ds ++ rest) = phase.run rest := by
  induction ds with
  | nil => rfl
  | cons d _ ih =>
    rw [all_cons, and_eq_true] at digits
    rw [cons_append, Sqlite.Phase.run, stays d digits.1]
    exact ih digits.2

theorem stays_digit (c : Char) (h : c.isDigit = true) :
    Sqlite.Phase.whole.next c = some .whole ∧ Sqlite.Phase.fraction.next c = some .fraction ∧
      Sqlite.Phase.power.next c = some .power :=
  ⟨if_pos h, if_pos h, if_pos h⟩

theorem run_exponent {rest : Text} (present : (unsignedPart rest).isEmpty = false)
    (all : (unsignedPart rest).all Char.isDigit = true) :
    Sqlite.Phase.exponent.run rest = some .power := by
  have power : ∀ ds : Text, ds.all Char.isDigit = true →
      Sqlite.Phase.power.run ds = some .power := by
    intro ds digits
    have run := run_digits (fun c h => (stays_digit c h).2.2) digits []
    rwa [append_nil] at run
  have behind : ∀ (phase : Sqlite.Phase), (∀ c : Char, c.isDigit = true →
      phase.next c = some .power) → ∀ ds : Text, ds.isEmpty = false → ds.all Char.isDigit = true →
      phase.run ds = some .power := by
    intro phase moves ds present all
    cases ds with
    | nil => cases present
    | cons d ds =>
      rw [all_cons, and_eq_true] at all
      rw [Sqlite.Phase.run, moves d all.1]
      exact power ds all.2
  rcases unsignedPart_cases rest with same | same | ⟨plain, _⟩
  · rw [same]
    exact behind .signed (fun _ digit => if_pos digit) _ present all
  · rw [same]
    exact behind .signed (fun _ digit => if_pos digit) _ present all
  · rw [plain] at present all
    exact behind .exponent (fun _ digit => if_pos digit) _ present all

theorem run_exponentPart {phase : Sqlite.Phase} (final : phase.final = true)
    (letter : ∀ c : Char, (c = 'e' || c = 'E') = true → phase.next c = some .exponent) {rest : Text}
    {exponent : Int} (h : exponentPart rest = some exponent) :
    (phase.run rest).any Sqlite.Phase.final = true := by
  cases rest with
  | nil => exact final
  | cons c rest =>
    simp only [exponentPart] at h
    split at h
    · next passed =>
        rw [and_eq_true, and_eq_true, not_eq_true'] at passed
        rw [Sqlite.Phase.run, letter c passed.1.1, bind_some,
          run_exponent passed.1.2 passed.2]
        rfl
    · cases h

theorem letter_exponent (c : Char) (h : (c = 'e' || c = 'E') = true) :
    Sqlite.Phase.whole.next c = some .exponent ∧ Sqlite.Phase.fraction.next c = some .exponent := by
  simp only [or_eq_true, decide_eq_true_eq] at h
  rcases h with rfl | rfl
  · exact ⟨rfl, rfl⟩
  · exact ⟨rfl, rfl⟩

variable {c : Char} {cs : Text}

theorem numeric_cons (digit : c.isDigit = true)
    (run : (Sqlite.Phase.whole.run cs).any Sqlite.Phase.final = true) :
    Sqlite.numeric (c :: cs) = true := by
  unfold Sqlite.numeric
  split
  · next same =>
      cases same
      cases digit
  · next same =>
      cases same
      rw [digit, run]
      rfl
  · next same => cases same

theorem numeric_point (digit : c.isDigit = true)
    (run : (Sqlite.Phase.fraction.run cs).any Sqlite.Phase.final = true) :
    Sqlite.numeric ('.' :: c :: cs) = true := by
  rw [Sqlite.numeric, digit, run]
  rfl

theorem numericSigned_of_parse {v : Nat × Int} (h : parseF64 n = some v) :
    numericSigned n = true := by
  have whole := List.takeWhile_append_dropWhile (p := Char.isDigit) (l := unsignedPart n)
  have digits : ((unsignedPart n).takeWhile Char.isDigit).all Char.isDigit = true :=
    List.all_takeWhile
  unfold parseF64 at h
  rw [numericSigned, ← whole]
  generalize (unsignedPart n).takeWhile Char.isDigit = front at *
  generalize (unsignedPart n).dropWhile Char.isDigit = rest at *
  obtain ⟨present, h⟩ : ¬(front.isEmpty && (fractionPart rest).1.isEmpty) = true ∧
      ∃ exponent, exponentPart (fractionPart rest).2 = some exponent := by
    simp only at h
    split at h
    · cases h
    · next present =>
        obtain ⟨exponent, found, _⟩ := Option.map_eq_some_iff.mp h
        exact ⟨present, exponent, found⟩
  obtain ⟨exponent, found⟩ := h
  -- the digits behind the point, when there is one, and then the exponent
  have fraction : ∀ tail : Text, (Sqlite.Phase.fraction.run
      (tail.takeWhile Char.isDigit ++ tail.dropWhile Char.isDigit)).any Sqlite.Phase.final =
      (Sqlite.Phase.fraction.run (tail.dropWhile Char.isDigit)).any Sqlite.Phase.final := by
    intro tail
    rw [run_digits (fun c h => (stays_digit c h).2.1) List.all_takeWhile]
  have behind : (Sqlite.Phase.whole.run rest).any Sqlite.Phase.final = true := by
    unfold fractionPart at found
    split at found
    · next tail =>
        have run := run_exponentPart (show Sqlite.Phase.fraction.final = true from rfl)
          (fun c h => (letter_exponent c h).2) found
        show (Sqlite.Phase.fraction.run tail).any Sqlite.Phase.final = true
        rw [← List.takeWhile_append_dropWhile (p := Char.isDigit) (l := tail), fraction]
        exact run
    · exact run_exponentPart (show Sqlite.Phase.whole.final = true from rfl)
        (fun c h => (letter_exponent c h).1) found
  cases front with
  | cons =>
    rw [all_cons, and_eq_true] at digits
    rw [cons_append]
    refine numeric_cons digits.1 ?_
    rw [run_digits (fun c h => (stays_digit c h).1) digits.2]
    exact behind
  | nil =>
    unfold fractionPart at present found
    split at present
    · next tail =>
        have run := run_exponentPart (show Sqlite.Phase.fraction.final = true from rfl)
          (fun c h => (letter_exponent c h).2) found
        have whole := List.takeWhile_append_dropWhile (p := Char.isDigit) (l := tail)
        rcases shape : tail.takeWhile Char.isDigit with _ | ⟨d, ds⟩
        · rw [shape] at present
          exact absurd rfl present
        have all : (d :: ds).all Char.isDigit = true := shape ▸ List.all_takeWhile
        rw [all_cons, and_eq_true] at all
        rw [List.nil_append, ← whole, shape, cons_append]
        refine numeric_point all.1 ?_
        rw [run_digits (fun c h => (stays_digit c h).2.1) all.2]
        exact run
    · exact absurd rfl present

theorem idStart_of_lower (h : c.isLower = true) : Sqlite.idStart c = true := by
  have letter : c.isAlpha = (c.isUpper || c.isLower) := rfl
  simp [Sqlite.idStart, letter, h]

theorem idChar_of_identifier (h : (c.isLower || c.isDigit || c = '_') = true) :
    Sqlite.idChar c = true := by
  simp only [or_eq_true, decide_eq_true_eq] at h
  rcases h with (lower | digit) | rfl
  · rw [Sqlite.idChar, idStart_of_lower lower]
    rfl
  · simp [Sqlite.idChar, digit]
  · rfl

theorem shaped_identifier {id : Ident} (h : identifier id = .ok name) :
    Sqlparser.Token.shaped (.word id.value) = true ∧ id.value.all Sqlite.idChar = true := by
  obtain ⟨_, _, c, cs, value, lower, rest⟩ := identifier_eq_ok h
  have start := idStart_of_lower lower
  have all : cs.all Sqlite.idChar = true :=
    all_eq_true.mpr (fun d mem => idChar_of_identifier (all_eq_true.mp rest d mem))
  rw [value]
  constructor
  · rw [Sqlparser.Token.shaped, start, all]
    rfl
  · rw [all_cons, all, Sqlite.idChar, start]
    rfl

variable {context' context : Expressions}

theorem checkValue_written (h : checkValue v context = .ok context') : valueWritten v = true := by
  cases v with
  | singleQuotedString => rfl
  | number n long =>
    simp only [checkValue] at h
    split at h
    · next passed =>
        simp only [and_eq_true, not_eq_true'] at passed
        obtain ⟨⟨long, _⟩, finite⟩ := passed
        obtain ⟨v, parsed, _⟩ := Option.any_eq_true _ _ |>.mp finite
        rw [valueWritten, long, numericSigned_of_parse parsed]
        rfl
    · cases h
  | boolean | null => rfl
  | placeholder p =>
    simp only [checkValue] at h
    split at h
    · next name =>
        obtain ⟨_, named, _⟩ := of_bind h
        obtain ⟨_, _, c, cs, value, _⟩ := identifier_eq_ok named
        have all := (shaped_identifier named).2
        simp only at value all
        simp [valueWritten, value ▸ all, value]
    · cases h

theorem functions_named : ∀ name ∈ functions, Sqlite.isName name = true := by
  simp only [functions, List.forall_mem_map, List.forall_mem_cons, List.not_mem_nil,
    false_implies, implies_true, and_true]
  and_intros <;> exact Sqlite.isName_plain (by decide)

theorem tables_named : ∀ entry ∈ tables, Sqlite.isName entry.1.toList = true ∧
    ∀ column ∈ entry.2, Sqlite.isName column.toList = true := by
  simp only [tables, List.forall_mem_cons, List.not_mem_nil, false_implies, implies_true, and_true]
  and_intros <;> exact Sqlite.isName_plain (by decide)

mutual

theorem checkExpr_written {columns : List Text}
    (named : ∀ column ∈ columns, Sqlite.isName column = true) :
    ∀ (e : Expr) (depth : Nat) (context context' : Expressions),
      checkExpr columns e depth context = .ok context' → written e = true
  | .identifier id, depth, context, _, h => by
      obtain ⟨_, _, h⟩ := of_bind h
      obtain ⟨name, read, h⟩ := of_bind h
      obtain ⟨rfl, unquoted, _⟩ := identifier_eq_ok read
      have mem : columns.contains id.value = true := by
        by_contra other
        rw [if_neg other] at h
        cases h
      rw [written, unquoted, named _ (List.contains_iff_mem.mp mem)]
      rfl
  | .value v, depth, context, _, h => by
      obtain ⟨_, _, h⟩ := of_bind h
      exact checkValue_written h
  | .nested e, depth, _, _, h | .isNull e, depth, _, _, h | .isNotNull e, depth, _, _, h
  | .unaryOp _ e, depth, _, _, h => by
      obtain ⟨_, _, h⟩ := of_bind h
      exact checkExpr_written named e _ _ _ h
  | .binaryOp left _ right, depth, _, _, h => by
      obtain ⟨_, _, h⟩ := of_bind h
      obtain ⟨_, first, second⟩ := of_bind h
      rw [written, checkExpr_written named left _ _ _ first,
        checkExpr_written named right _ _ _ second]
      rfl
  | .inList e list _, depth, _, _, h => by
      obtain ⟨_, _, h⟩ := of_bind h
      obtain ⟨_, h⟩ := of_guard h
      obtain ⟨_, first, second⟩ := of_bind h
      rw [written, checkExpr_written named e _ _ _ first, checkExprs_written named list _ _ _ second]
      rfl
  | .function name arguments clauses, depth, _, _, h => by
      obtain ⟨_, _, h⟩ := of_bind h
      obtain ⟨known, h⟩ := of_guard h
      obtain ⟨_, h⟩ := of_guard h
      obtain ⟨_, checked, h⟩ := of_bind h
      obtain ⟨same, _⟩ := of_guard h
      have nothing : clauses = [] := by
        rw [not_not, Expr.display, List.append_cancel_left_eq, List.cons.injEq,
          List.append_cancel_left_eq, List.cons.injEq] at same
        exact same.2.2
      have mem : name ∈ functions := by simpa using known
      rw [written, functions_named name mem, nothing, checkExprs_written named arguments _ _ _ checked]
      rfl
  | .other _, _, _, _, h => by
      obtain ⟨_, _, h⟩ := of_bind h
      cases h

theorem checkExprs_written {columns : List Text}
    (named : ∀ column ∈ columns, Sqlite.isName column = true) :
    ∀ (es : List Expr) (depth : Nat) (context context' : Expressions),
      checkExprs columns es depth context = .ok context' → allWritten es = true
  | [], _, _, _, _ => rfl
  | e :: es, _, _, _, h => by
      obtain ⟨_, first, second⟩ := of_bind h
      rw [allWritten, checkExpr_written named e _ _ _ first, checkExprs_written named es _ _ _ second]
      rfl

end

theorem columns_named {table : Text} {allowed : List Text} (h : columns table = .ok allowed) :
    Sqlite.isName table = true ∧ ∀ column ∈ allowed, Sqlite.isName column = true := by
  unfold columns at h
  split at h
  · cases h
  next entry found =>
    cases h
    obtain ⟨name, named⟩ := tables_named entry (List.mem_of_find?_eq_some found)
    have same : entry.1.toList = table := by simpa using List.find?_some found
    refine ⟨same ▸ name, ?_⟩
    intro column mem
    obtain ⟨text, inside, rfl⟩ := List.mem_map.mp mem
    exact named text inside

theorem numeric_digits (digit : c.isDigit = true) (digits : cs.all Char.isDigit = true) :
    Sqlite.numeric (c :: cs) = true := by
  refine numeric_cons digit ?_
  have run := run_digits (fun c h => (stays_digit c h).1) digits []
  rw [append_nil] at run
  rw [run]
  rfl

theorem signed_digits (digit : c.isDigit = true) :
    signed (c :: cs) = .number (c :: cs) ∧ unsignedPart (c :: cs) = c :: cs := by
  rcases unsignedPart_cases (c :: cs) with same | same | ⟨plain, same⟩
  · cases (List.cons.inj same).1
    cases digit
  · cases (List.cons.inj same).1
    cases digit
  · exact ⟨same, plain⟩

theorem toDigits_digits (n : Nat) :
    ∃ c cs, Nat.toDigits 10 n = c :: cs ∧ c.isDigit = true ∧ cs.all Char.isDigit = true := by
  have digits : ∀ c ∈ Nat.toDigits 10 n, c.isDigit = true :=
    fun c mem => Nat.isDigit_of_mem_toDigits (by decide) (by decide) mem
  rcases shape : Nat.toDigits 10 n with _ | ⟨c, cs⟩
  · exact absurd shape Nat.toDigits_ne_nil
  · rw [shape] at digits
    exact ⟨c, cs, rfl, digits c (.head _),
      all_eq_true.mpr (fun d mem => digits d (.tail _ mem))⟩

theorem numeric_toDigits (n : Nat) : Sqlite.numeric (Nat.toDigits 10 n) = true := by
  obtain ⟨c, cs, shape, digit, digits⟩ := toDigits_digits n
  rw [shape]
  exact numeric_digits digit digits

theorem decimal_tree (n : Int) : signed (Lib.Json.decimal n) = literalTree (some (.integer n)) ∧
    numericSigned (Lib.Json.decimal n) = true := by
  obtain ⟨c, cs, shape, digit, digits⟩ := toDigits_digits n.natAbs
  rw [literalTree, Lib.Json.decimal]
  by_cases negative : n < 0
  · rw [if_pos negative, if_pos negative]
    exact ⟨rfl, numeric_toDigits _⟩
  · rw [if_neg negative, if_neg negative, shape]
    refine ⟨(signed_digits digit).1, ?_⟩
    rw [numericSigned, (signed_digits digit).2]
    exact numeric_digits digit digits

theorem literal_tree {json : Option Json} (h : literal json = .ok v) :
    valueWritten v = true ∧ valueTree v = literalTree json := by
  rcases json with _ | json
  · cases h
  cases json with
  | string =>
    simp only [literal] at h
    split at h
    · cases h
      exact ⟨rfl, rfl⟩
    · cases h
  | bool b =>
    cases h
    cases b with
    | true | false => exact ⟨by decide, rfl⟩
  | integer n =>
    simp only [literal] at h
    split at h
    · cases h
      obtain ⟨same, numeric⟩ := decimal_tree n
      refine ⟨?_, same⟩
      rw [valueWritten, numeric]
      rfl
    · cases h
  | other => cases h

theorem substitute_signed (values : Parameters) (n : Text) :
    substitute values (signed n) = signed n := by
  unfold signed
  split
  · rfl
  · rfl
  · rfl

mutual

theorem bind_tree (values : Parameters) : ∀ (e e' : Expr), written e = true →
    bind values e = .ok e' → written e' = true ∧ tree e' = substitute values (tree e)
  | .value (.placeholder p), _, _, h => by
      simp only [bind] at h
      split at h
      · obtain ⟨v, bound, h⟩ := of_bind h
        cases h
        exact literal_tree bound
      · cases h
  | .value (.singleQuotedString s), _, w, h => by
      cases h
      exact ⟨w, rfl⟩
  | .value (.number n long), _, w, h => by
      cases h
      exact ⟨w, (substitute_signed values n).symm⟩
  | .value (.boolean b), _, w, h | .value .null, _, w, h | .identifier id, _, w, h => by
      cases h
      exact ⟨w, rfl⟩
  | .nested e, _, w, h => by
      obtain ⟨e', bound, h⟩ := of_bind h
      cases h
      obtain ⟨more, same⟩ := bind_tree values e e' w bound
      exact ⟨more, congrArg Sqlite.Expr.paren same⟩
  | .isNull e, _, w, h => by
      obtain ⟨e', bound, h⟩ := of_bind h
      cases h
      obtain ⟨more, same⟩ := bind_tree values e e' w bound
      exact ⟨more, congrArg (Sqlite.Expr.binary .is · .null) same⟩
  | .isNotNull e, _, w, h => by
      obtain ⟨e', bound, h⟩ := of_bind h
      cases h
      obtain ⟨more, same⟩ := bind_tree values e e' w bound
      exact ⟨more, congrArg (Sqlite.Expr.binary .isNot · .null) same⟩
  | .unaryOp op e, _, w, h => by
      obtain ⟨e', bound, h⟩ := of_bind h
      cases h
      obtain ⟨more, same⟩ := bind_tree values e e' w bound
      exact ⟨more, congrArg (Sqlite.Expr.unary _) same⟩
  | .binaryOp left op right, _, w, h => by
      rw [written, and_eq_true] at w
      obtain ⟨left', first, h⟩ := of_bind h
      obtain ⟨right', second, h⟩ := of_bind h
      cases h
      obtain ⟨more, same⟩ := bind_tree values left left' w.1 first
      obtain ⟨more', same'⟩ := bind_tree values right right' w.2 second
      exact ⟨by rw [written, more, more']; rfl, by rw [tree, same, same']; rfl⟩
  | .inList e list negated, _, w, h => by
      rw [written, and_eq_true] at w
      obtain ⟨e', first, h⟩ := of_bind h
      obtain ⟨list', second, h⟩ := of_bind h
      cases h
      obtain ⟨more, same⟩ := bind_tree values e e' w.1 first
      obtain ⟨more', same'⟩ := bindAll_tree values list list' w.2 second
      exact ⟨by rw [written, more, more']; rfl, by rw [tree, same, same']; rfl⟩
  | .function name arguments clauses, _, w, h => by
      rw [written, and_eq_true] at w
      obtain ⟨arguments', bound, h⟩ := of_bind h
      cases h
      obtain ⟨more, same⟩ := bindAll_tree values arguments arguments' w.2 bound
      exact ⟨by rw [written, more, w.1]; rfl, by rw [tree, same]; rfl⟩

theorem bindAll_tree (values : Parameters) : ∀ (es es' : List Expr), allWritten es = true →
    bindAll values es = .ok es' →
      allWritten es' = true ∧ treeList es' = substituteList values (treeList es)
  | [], _, _, h => by
      cases h
      exact ⟨rfl, rfl⟩
  | e :: es, _, w, h => by
      rw [allWritten, and_eq_true] at w
      obtain ⟨e', first, h⟩ := of_bind h
      obtain ⟨es', second, h⟩ := of_bind h
      cases h
      obtain ⟨more, same⟩ := bind_tree values e e' w.1 first
      obtain ⟨more', same'⟩ := bindAll_tree values es es' w.2 second
      exact ⟨by rw [allWritten, more, more']; rfl, by rw [treeList, same, same']; rfl⟩

end

def itemWritten : SelectItem → Bool
  | .unnamedExpr e => written e
  | .exprWithAlias e name =>
      written e && name.quoteStyle.isNone && Sqlparser.Token.shaped (.word name.value)
  | .other _ => false

/-- What admission leaves of the shape of a selection. -/
structure SelectWritten (s : Select) (table : Text) : Prop where
  table_eq : s.from = [table]
  table_named : Sqlite.isName table = true
  items : ∀ item ∈ s.projection, itemWritten item = true
  selection : ∀ e ∈ s.selection, written e = true

variable {item : SelectItem}

theorem checkItem_written {columns : List Text}
    (named : ∀ column ∈ columns, Sqlite.isName column = true)
    (h : checkItem columns item context = .ok (context', name)) : itemWritten item = true := by
  unfold checkItem at h
  split at h
  · obtain ⟨_, checked, _⟩ := of_bind h
    exact checkExpr_written named _ _ _ _ checked
  · next e id =>
      obtain ⟨_, checked, h⟩ := of_bind h
      obtain ⟨_, read, _⟩ := of_bind h
      obtain ⟨_, unquoted, _⟩ := identifier_eq_ok read
      rw [itemWritten, checkExpr_written named _ _ _ _ checked, unquoted,
        (shaped_identifier read).1]
      rfl
  · cases h

variable {items : List SelectItem}

theorem checkItems_written {columns : List Text}
    (named : ∀ column ∈ columns, Sqlite.isName column = true) {names : List Text}
    (h : checkItems columns items context names = .ok context') :
    ∀ item ∈ items, itemWritten item = true := by
  induction items generalizing context names with
  | nil => simp
  | cons _ _ ih =>
    obtain ⟨⟨_, _⟩, checked, h⟩ := of_bind h
    obtain ⟨_, h⟩ := of_guard h
    intro other mem
    rcases mem_cons.mp mem with rfl | mem
    · exact checkItem_written named checked
    · exact ih h other mem

variable {table : Text}

theorem check_written {query : Query} {parameters : List Text}
    (h : check query = .ok (table, parameters)) :
    ∃ select, query.body = some select ∧ SelectWritten select table ∧ query.leading = [] ∧
      query.modifiers = [] ∧ query.grouping = [] ∧ query.trailing = [] := by
  unfold check at h
  split at h
  · cases h
  next select body =>
    split at h
    · next table' source =>
        obtain ⟨_, h⟩ := of_guard h
        obtain ⟨allowed, known, h⟩ := of_bind h
        obtain ⟨_, items, h⟩ := of_bind h
        obtain ⟨_, selection, h⟩ := of_bind h
        obtain ⟨same, h⟩ := of_guard h
        cases h
        obtain ⟨tableNamed, named⟩ := columns_named known
        refine ⟨select, body, ⟨source, tableNamed, checkItems_written named items, ?_⟩, ?_⟩
        · intro e mem
          have found : select.selection = some e := mem
          rw [found] at selection
          exact checkExpr_written named e _ _ _ selection
        · exact Query.display_admitted body (not_not.mp same)
    · cases h

variable {values : Parameters}

theorem bindItem_tree {item' : SelectItem} (w : itemWritten item = true)
    (h : bindItem values item = .ok item') :
    itemWritten item' = true ∧
      itemTree item' = ⟨substitute values (itemTree item).expr, (itemTree item).name⟩ := by
  cases item with
  | unnamedExpr e =>
    obtain ⟨e', bound, h⟩ := of_bind h
    cases h
    obtain ⟨more, same⟩ := bind_tree values e e' w bound
    exact ⟨more, by rw [itemTree, same]; rfl⟩
  | exprWithAlias e =>
    rw [itemWritten, and_eq_true, and_eq_true] at w
    obtain ⟨e', bound, h⟩ := of_bind h
    cases h
    obtain ⟨more, same⟩ := bind_tree values e e' w.1.1 bound
    exact ⟨by rw [itemWritten, more, w.1.2, w.2]; rfl, by rw [itemTree, same]; rfl⟩
  | other => cases w

theorem bindItems_tree {items' : List SelectItem} (w : ∀ item ∈ items, itemWritten item = true)
    (h : items.mapM (bindItem values) = .ok items') :
    (∀ item ∈ items', itemWritten item = true) ∧
      items'.map itemTree = items.map (fun item =>
        (⟨substitute values (itemTree item).expr, (itemTree item).name⟩ : Sqlite.Item)) := by
  have bound := mapM_eq_ok.mp h
  induction bound with
  | nil => exact ⟨nofun, rfl⟩
  | @cons item _ _ _ head tail ih =>
    obtain ⟨written, same⟩ := bindItem_tree (w item (.head _)) head
    obtain ⟨more, later⟩ := ih (fun other mem => w other (.tail _ mem))
      (mapM_eq_ok.mpr tail)
    refine ⟨?_, by rw [List.map_cons, List.map_cons, same, later]⟩
    intro other mem
    rcases mem_cons.mp mem with rfl | mem
    · exact written
    · exact more other mem

variable {select : Select}

theorem bindSelect_tree {select' : Select} (w : SelectWritten select table) (maxRows : UInt32)
    (h : bindSelect values select = .ok select') :
    SelectWritten select' table ∧
      { selectTree select' with limit := some (Nat.toDigits 10 (maxRows.toNat + 1)) } =
        boundTree select values maxRows := by
  obtain ⟨projection, items, h⟩ := of_bind h
  obtain ⟨selection, condition, h⟩ := of_bind h
  cases h
  obtain ⟨itemsWritten, trees⟩ := bindItems_tree w.items items
  have bound : (∀ e ∈ selection, written e = true) ∧
      selection.map tree = (select.selection.map tree).map (substitute values) := by
    rcases found : select.selection with _ | e
    · rw [found] at condition
      cases condition
      exact ⟨nofun, rfl⟩
    rw [found] at condition
    obtain ⟨e', bound, condition⟩ := of_bind condition
    cases condition
    obtain ⟨more, same⟩ := bind_tree values e e' (w.selection e found) bound
    refine ⟨?_, by rw [map_some, map_some, map_some, same]⟩
    intro other mem
    cases mem
    exact more
  refine ⟨⟨w.table_eq, w.table_named, itemsWritten, bound.1⟩, ?_⟩
  simp only [selectTree, boundTree, trees, bound.2, List.map_map]
  rfl

theorem shown_item (w : itemWritten item = true) :
    shownPieces (itemTree item).pieces = item.display := by
  cases item with
  | unnamedExpr e =>
    rw [itemTree, Sqlite.Item.pieces, append_nil, shown_expr e w, SelectItem.display]
  | exprWithAlias e name =>
    rw [itemWritten, and_eq_true, and_eq_true, Option.isNone_iff_eq_none] at w
    rw [itemTree, Sqlite.Item.pieces, shownPieces_append, shown_expr e w.1.1, SelectItem.display,
      Ident.display, w.1.2, List.append_assoc, List.append_cancel_left_eq]
    show ' ' :: ("AS".toList ++ ' ' :: (name.value ++ [])) = _
    rw [append_nil]
    rfl
  | other => cases w

theorem shown_items (w : ∀ item ∈ items, itemWritten item = true) :
    shownPieces (Sqlite.itemPieces (items.map itemTree)) =
      Sqlparser.join (items.map SelectItem.display) := by
  induction items with
  | nil => rfl
  | cons item items ih =>
    have here := shown_item (w item (.head _))
    have later := ih (fun other mem => w other (.tail _ mem))
    cases items with
    | nil => exact here
    | cons next items =>
      show shownPieces ((itemTree item).pieces ++ some .comma :: none ::
        Sqlite.itemPieces ((next :: items).map itemTree)) = _
      rw [shownPieces_append, here, shown_comma, shown_space, later]
      rfl

theorem shown_keyword (k : Sqlite.Keyword) (ps : List Sqlite.Piece) :
    shownPieces (some (.keyword k) :: ps) = k.text ++ shownPieces ps := rfl

theorem shown_limit (n : Text) :
    shownPieces (Sqlite.limitPieces (some n)) = " LIMIT ".toList ++ n := by
  rw [Sqlite.limitPieces, shown_space, shown_keyword, shown_space]
  have last : shownPieces [some (.number n)] = n := append_nil n
  have limit : Sqlite.Keyword.limit.text = "LIMIT".toList := rfl
  rw [last, limit]
  simp

theorem shown_condition {selection : Option Expr} (w : ∀ e ∈ selection, written e = true) :
    shownPieces (Sqlite.conditionPieces (selection.map tree)) =
      Sqlparser.displaySelection selection := by
  cases selection with
  | none => rfl
  | some e =>
    rw [map_some, Sqlite.conditionPieces, shown_space, shown_keyword, shown_space,
      shown_expr e (w e rfl), Sqlparser.displaySelection, Option.elim_some]
    have condition : Sqlite.Keyword.where.text = "WHERE".toList := rfl
    rw [condition]
    simp

theorem shown_select (w : SelectWritten select table) (n : Text) :
    shownPieces { selectTree select with limit := some n }.pieces =
      select.admitted ++ (" LIMIT ".toList ++ n) := by
  have source : select.from.headD [] = table := by rw [w.table_eq]; rfl
  simp only [selectTree, Sqlite.Selection.pieces, source]
  rw [shown_keyword, shown_space, shownPieces_append, shown_items w.items, shown_space, shown_keyword,
    shown_space, shown_word, shownPieces_append, shown_condition w.selection, shown_limit]
  unfold Select.admitted
  have select : Sqlite.Keyword.select.text = "SELECT".toList := rfl
  have origin : Sqlite.Keyword.from.text = "FROM".toList := rfl
  rw [w.table_eq, select, origin]
  simp [Sqlparser.join]

def Labelled (items : List Sqlite.Item) (t : Sqlite.Token) : Prop :=
  t.spelled = true ∨ ∃ item ∈ items, ∃ name, item.name = some name ∧ t = .word name ∧
    Sqlparser.Token.shaped t = true

theorem labelled_item (w : itemWritten item = true) :
    ∀ t ∈ (itemTree item).tokens, Labelled [itemTree item] t := by
  cases item with
  | unnamedExpr e =>
    intro t mem
    rw [itemTree, Sqlite.Item.tokens, append_nil] at mem
    exact .inl (spelled_expr e w t mem)
  | exprWithAlias e name =>
    rw [itemWritten, and_eq_true, and_eq_true] at w
    intro t mem
    rcases mem_append.mp mem with mem | mem
    · exact .inl (spelled_expr e w.1.1 t mem)
    rcases mem_cons.mp mem with rfl | mem
    · exact .inl rfl
    · obtain rfl := List.mem_singleton.mp mem
      exact .inr ⟨_, .head _, name.value, rfl, rfl, w.2⟩
  | other => cases w

variable {t : Sqlite.Token}

theorem Labelled.mono {items items' : List Sqlite.Item} (h : items ⊆ items')
    (labelled : Labelled items t) : Labelled items' t := by
  rcases labelled with spelled | ⟨item, mem, rest⟩
  · exact .inl spelled
  · exact .inr ⟨item, h mem, rest⟩

theorem labelled_items (w : ∀ item ∈ items, itemWritten item = true) :
    ∀ t ∈ Sqlite.itemTokens (items.map itemTree), Labelled (items.map itemTree) t := by
  induction items with
  | nil => exact nofun
  | cons item items ih =>
    have here := labelled_item (w item (.head _))
    have later := ih (fun other mem => w other (.tail _ mem))
    have first : [itemTree item] ⊆ (item :: items).map itemTree := by
      intro other mem
      obtain rfl := List.mem_singleton.mp mem
      exact .head _
    intro t mem
    cases items with
    | nil => exact here t mem
    | cons next items =>
      rcases mem_append.mp mem with mem | mem
      · exact (here t mem).mono first
      · rcases mem_cons.mp mem with rfl | mem
        · exact .inl rfl
        · exact (later t mem).mono (List.subset_cons_self _ _)

theorem labelled_select (w : SelectWritten select table) (numeric : Sqlite.numeric n = true) :
    ∀ t ∈ { selectTree select with limit := some n }.tokens,
      Labelled (select.projection.map itemTree) t := by
  have source : select.from.headD [] = table := by rw [w.table_eq]; rfl
  have condition : Spelled (Sqlite.conditionTokens (select.selection.map tree)) := by
    rcases found : select.selection with _ | e
    · exact spelled_nil
    · exact spelled_cons rfl (spelled_expr e (w.selection e found))
  have limit : Spelled (Sqlite.limitTokens (some n)) := spelled_cons rfl (spelled_one numeric)
  have name : Sqlite.Token.spelled (.word (select.from.headD [])) = true := by
    rw [source]
    exact w.table_named
  intro t mem
  rcases mem_cons.mp mem with rfl | mem
  · exact .inl rfl
  · rcases mem_append.mp mem with mem | mem
    · exact labelled_items w.items t mem
    · exact .inl (spelled_cons rfl (spelled_cons name (spelled_append condition limit)) t mem)

theorem shaped_of_labelled {items : List Sqlite.Item} (h : Labelled items t) :
    Sqlparser.Token.shaped t = true := by
  rcases h with spelled | ⟨_, _, _, _, _, shaped⟩
  · cases t with
    | word name =>
      cases name with
      | nil => cases spelled
      | cons =>
        rw [Sqlite.Token.spelled, Sqlite.isName, and_eq_true] at spelled
        exact spelled.1
    | keyword | text | number | «variable» | minus | plus | eq | ne | lt | le | gt | ge | opening | closing | comma => exact spelled
  · exact shaped

theorem isRead_of_spelled (spelled : t.spelled = true) : t.isRead := by
  cases t with
  | word name =>
    cases name with
    | nil => cases spelled
    | cons =>
      rw [Sqlite.Token.spelled, Sqlite.isName, and_eq_true, beq_iff_eq] at spelled
      exact spelled.2
  | keyword | text | number | «variable» | minus | plus | eq | ne | lt | le | gt | ge | opening | closing | comma => trivial

theorem name_mem {items : List Sqlite.Item} {item : Sqlite.Item} (mem : item ∈ items)
    (named : item.name = some name) : .word name ∈ Sqlite.itemTokens items := by
  have own : .word name ∈ item.tokens := by
    rw [Sqlite.Item.tokens, named]
    simp
  induction items with
  | nil => cases mem
  | cons first items ih =>
    cases items with
    | nil =>
      obtain rfl := List.mem_singleton.mp mem
      exact own
    | cons next items =>
      show .word name ∈ first.tokens ++ .comma :: Sqlite.itemTokens (next :: items)
      rcases mem_cons.mp mem with rfl | mem
      · exact List.mem_append_left _ own
      · exact List.mem_append_right _ (.tail _ (ih mem))

theorem read_select (w : SelectWritten select table) (numeric : Sqlite.numeric n = true) :
    Sqlite.read (select.admitted ++ (" LIMIT ".toList ++ n)) =
        some { selectTree select with limit := some n } ↔
      faithful { selectTree select with limit := some n } = true := by
  have labelled := labelled_select w numeric
  have shaped := fun t mem => shaped_of_labelled (labelled t mem)
  have text := shown_select w n
  generalize whole : ({ selectTree select with limit := some n } : Sqlite.Selection) = tree' at *
  have items : tree'.items = select.projection.map itemTree := by rw [← whole]; rfl
  rw [← text]
  have lexed := Sqlparser.lex_shown (Sqlite.spaced_selection tree')
    (by rw [Sqlite.tokens_selection]; exact shaped)
  rw [Sqlite.tokens_selection] at lexed
  have names : (∀ t ∈ tree'.tokens, t.isRead) ↔ ∀ item ∈ tree'.items, ∀ name ∈ item.name,
      Sqlite.wordToken name = some (.word name) := by
    constructor
    · intro read item mem name named
      have inside : .word name ∈ tree'.tokens :=
        .tail _ (List.mem_append_left _ (name_mem mem named))
      exact read _ inside
    · intro read t mem
      rcases labelled t mem with spelled | ⟨item, inside, name, named, rfl, _⟩
      · exact isRead_of_spelled spelled
      · exact read item (items ▸ inside) name named
  have parsed : Sqlite.read (shownPieces tree'.pieces) = some tree' ↔
      Sqlite.lex (shownPieces tree'.pieces) = some tree'.tokens ∧ tree'.nests = true := by
    rw [Sqlite.read]
    constructor
    · intro h
      obtain ⟨ts, lexed, parsed⟩ := Option.bind_eq_some_iff.mp h
      obtain ⟨rfl, nests⟩ := Sqlite.parse_eq_some.mp parsed
      exact ⟨lexed, nests⟩
    · rintro ⟨lexed, nests⟩
      rw [lexed, bind_some]
      exact Sqlite.parse_eq_some.mpr ⟨rfl, nests⟩
  rw [parsed, lexed, names, faithful]
  simp only [and_eq_true, not_eq_true', all_eq_true, Option.all_eq_true,
    decide_eq_true_eq]
  constructor
  · rintro ⟨⟨plain, apart, free⟩, nests⟩
    exact ⟨⟨⟨nests, plain⟩, apart⟩, free⟩
  · rintro ⟨⟨⟨nests, plain⟩, apart⟩, free⟩
    exact ⟨⟨plain, apart, free⟩, nests⟩

/-- SQLite reads a rendered template as the template with its placeholders replaced by their literals
and one row more than allowed exactly when that tree is faithful: no quote of a text stands behind a
backslash or next to another, no two minus signs meet, no item has a reserved name, and its operators
nest by the precedence of SQLite. -/
theorem literal_binding {parser : Parser} (template : SqlTemplate parser)
    (parameters : Option Parameters) (maxRows : UInt32) (sql : Text)
    (rendered : render parser template parameters maxRows = .ok sql) :
    ∃ query select values, parse parser template.text = .ok query ∧ query.body = some select ∧
      parameters = some values ∧
      (Sqlite.read sql = some (boundTree select values maxRows) ↔
        faithful (boundTree select values maxRows) = true) := by
  obtain ⟨_, h⟩ := of_guard rendered
  obtain ⟨query, parsed, h⟩ := of_bind h
  obtain ⟨⟨table, expected⟩, checked, h⟩ := of_bind h
  obtain ⟨select, body, w, leading, modifiers, grouping, trailing⟩ := check_written checked
  cases parameters with
  | none => cases h
  | some values =>
    obtain ⟨_, h⟩ := of_guard h
    obtain ⟨bound, binding, h⟩ := of_bind h
    obtain ⟨_, h⟩ := of_guard h
    refine ⟨query, select, values, parsed, body, rfl, ?_⟩
    rw [bindQuery, body] at binding
    obtain ⟨select', boundSelect, binding⟩ := of_bind binding
    cases binding
    obtain ⟨w', tree⟩ := bindSelect_tree w maxRows boundSelect
    have text : sql = select'.admitted ++
        (" LIMIT ".toList ++ Nat.toDigits 10 (maxRows.toNat + 1)) := by
      rw [← Except.ok.inj h]
      unfold Query.display Select.admitted
      simp only [leading, modifiers, grouping, trailing, List.nil_append, append_nil,
        List.append_assoc]
    rw [text, ← tree]
    exact read_select w' (numeric_toDigits _)

namespace Sample

/-- `SELECT name FROM programs WHERE name = :name` -/
def byName : Query :=
  { body := some ⟨[.unnamedExpr (.identifier ⟨"name".toList, none⟩)], ["programs".toList],
      some (.binaryOp (.identifier ⟨"name".toList, none⟩) .eq (.value (.placeholder ":name".toList)))⟩
    leading := []
    modifiers := []
    grouping := []
    limitClause := []
    trailing := [] }

def text : Text := "SELECT name FROM programs WHERE name = :name".toList

def parser : Parser := fun sql => if sql = text then some [.query byName] else none

theorem new_text : new parser text = .ok text := by decide

def template : SqlTemplate parser := ⟨text, text, new_text⟩

def named (name : String) : Parameters := [("name".toList, .string name.toList)]

def selected : Select := (byName.body.getD ⟨[], [], none⟩)

/-- The bound text ends behind its backslash: what follows is read as a condition, and the limit as
part of a comment. -/
theorem backslash_ends_text :
    ∃ sql, render parser template (some (named "\\' OR 1=1 --")) 10 = .ok sql ∧
      sql = "SELECT name FROM programs WHERE name = '\\' OR 1=1 --' LIMIT 11".toList ∧
      Sqlite.read sql = some ⟨[⟨.word "name".toList, none⟩], "programs".toList,
        some (.binary .or (.binary .eq (.word "name".toList) (.text ['\\']))
          (.binary .eq (.number ['1']) (.number ['1']))), none⟩ ∧
      Sqlite.read sql ≠ some (boundTree selected (named "\\' OR 1=1 --") 10) := by
  have rendered : render parser template (some (named "\\' OR 1=1 --")) 10 =
      .ok "SELECT name FROM programs WHERE name = '\\' OR 1=1 --' LIMIT 11".toList := by
    decide
  have read : Sqlite.read "SELECT name FROM programs WHERE name = '\\' OR 1=1 --' LIMIT 11".toList =
      some ⟨[⟨.word "name".toList, none⟩], "programs".toList,
        some (.binary .or (.binary .eq (.word "name".toList) (.text ['\\']))
          (.binary .eq (.number ['1']) (.number ['1']))), none⟩ := rfl
  refine ⟨_, rendered, rfl, read, ?_⟩
  rw [read]
  intro same
  have limit := congrArg Sqlite.Selection.limit (Option.some.inj same)
  cases limit

theorem literal_binding_apostrophe :
    render parser template (some (named "it's")) 10 =
        .ok "SELECT name FROM programs WHERE name = 'it''s' LIMIT 11".toList ∧
      Sqlite.read "SELECT name FROM programs WHERE name = 'it''s' LIMIT 11".toList =
        some (boundTree selected (named "it's") 10) := by
  have rendered : render parser template (some (named "it's")) 10 =
      .ok "SELECT name FROM programs WHERE name = 'it''s' LIMIT 11".toList := by decide
  refine ⟨rendered, ?_⟩
  obtain ⟨query, select, values, parsed, body, same, exactly⟩ :=
    literal_binding template _ 10 _ rendered
  have known : parse parser template.text = .ok byName := rfl
  obtain rfl : byName = query := Except.ok.inj (known.symm.trans parsed)
  obtain rfl : selected = select := Option.some.inj body
  obtain rfl : named "it's" = values := Option.some.inj same
  exact exactly.mpr (by decide)

end Sample

end RssMdm.AgentWire.Osquery
