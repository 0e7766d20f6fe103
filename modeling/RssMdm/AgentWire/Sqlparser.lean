/- module: AgentWire/Sqlparser
   source: crates/agent-wire/src/osquery.rs
   digest: The syntax trees of the SQL parser that templates are admitted through, how they are
   displayed, and when SQLite reads the display back. -/

import RssMdm.Lib.SqliteNesting
import RssMdm.Lib.SqliteWriting

set_option autoImplicit false

namespace RssMdm.AgentWire.Sqlparser

open Lib

abbrev Text := List Char

/-- Quotes are written twice, except behind a backslash or next to another quote. -/
def escape (quote : Char) : Option Char → Text → Text
  | _, [] => []
  | previous, c :: cs =>
      if c = quote then
        (if previous = some '\\' || previous = some quote || cs.head? = some quote then [c]
          else [c, c]) ++ escape quote (some c) cs
      else c :: escape quote (some c) cs

structure Ident where
  value : Text
  quoteStyle : Option Char
deriving DecidableEq

def Ident.display (id : Ident) : Text :=
  match id.quoteStyle with
  | none => id.value
  | some quote => quote :: (escape quote none id.value ++ [quote])

inductive Value where
  | singleQuotedString (s : Text)
  | number (n : Text) (long : Bool)
  | boolean (b : Bool)
  | null
  | placeholder (p : Text)

def Value.display : Value → Text
  | .singleQuotedString s => '\'' :: (escape '\'' none s ++ ['\''])
  | .number n long => n ++ (if long then ['L'] else [])
  | .boolean b => if b then "true".toList else "false".toList
  | .null => "NULL".toList
  | .placeholder p => p

inductive UnaryOperator where
  | not | minus | plus
deriving DecidableEq

def UnaryOperator.display : UnaryOperator → Text
  | .not => "NOT ".toList
  | .minus => ['-']
  | .plus => ['+']

inductive BinaryOperator where
  | eq | notEq | lt | ltEq | gt | gtEq | and | or
deriving DecidableEq

def BinaryOperator.display : BinaryOperator → Text
  | .eq => "=".toList
  | .notEq => "<>".toList
  | .lt => "<".toList
  | .ltEq => "<=".toList
  | .gt => ">".toList
  | .gtEq => ">=".toList
  | .and => "AND".toList
  | .or => "OR".toList

/-- Expressions; `other` is the display of any node that templates may not hold. -/
inductive Expr where
  | identifier (id : Ident)
  | value (v : Value)
  | nested (e : Expr)
  | isNull (e : Expr)
  | isNotNull (e : Expr)
  | unaryOp (op : UnaryOperator) (e : Expr)
  | binaryOp (left : Expr) (op : BinaryOperator) (right : Expr)
  | inList (e : Expr) (list : List Expr) (negated : Bool)
  | function (name : Text) (arguments : List Expr) (clauses : Text)
  | other (text : Text)

mutual

def Expr.display : Expr → Text
  | .identifier id => id.display
  | .value v => v.display
  | .nested e => '(' :: (e.display ++ [')'])
  | .isNull e => e.display ++ " IS NULL".toList
  | .isNotNull e => e.display ++ " IS NOT NULL".toList
  | .unaryOp op e => op.display ++ e.display
  | .binaryOp left op right => left.display ++ ' ' :: (op.display ++ ' ' :: right.display)
  | .inList e list negated => e.display ++
      ((if negated then " NOT IN (".toList else " IN (".toList) ++ (displayList list ++ [')']))
  | .function name arguments clauses =>
      name ++ ('(' :: (displayList arguments ++ ')' :: clauses))
  | .other text => text

def displayList : List Expr → Text
  | [] => []
  | e :: es => e.display ++ displayMore es

def displayMore : List Expr → Text
  | [] => []
  | e :: es => ',' :: ' ' :: (e.display ++ displayMore es)

end

inductive SelectItem where
  | unnamedExpr (e : Expr)
  | exprWithAlias (e : Expr) (name : Ident)
  | other (text : Text)

def SelectItem.display : SelectItem → Text
  | .unnamedExpr e => e.display
  | .exprWithAlias e name => e.display ++ " AS ".toList ++ name.display
  | .other text => text

def join : List Text → Text
  | [] => []
  | [t] => t
  | t :: ts => t ++ ',' :: ' ' :: join ts

structure Select where
  projection : List SelectItem
  «from» : List Text
  selection : Option Expr

/-- A query: its body, and the display of each clause that templates may not hold. -/
structure Query where
  body : Option Select
  leading : Text
  modifiers : Text
  grouping : Text
  limitClause : Text
  trailing : Text

def displaySelection (selection : Option Expr) : Text :=
  selection.elim [] (fun e => " WHERE ".toList ++ e.display)

def Select.admitted (s : Select) : Text :=
  "SELECT ".toList ++ join (s.projection.map SelectItem.display) ++ " FROM ".toList ++ join s.from ++
    displaySelection s.selection

def Query.display (q : Query) : Text :=
  match q.body with
  | none => q.leading ++ q.trailing
  | some s =>
      q.leading ++ "SELECT ".toList ++ q.modifiers ++ join (s.projection.map SelectItem.display) ++
        " FROM ".toList ++ join s.from ++ displaySelection s.selection ++ q.grouping ++
        q.limitClause ++ q.trailing

theorem Query.display_admitted {q : Query} {s : Select} (body : q.body = some s)
    (same : q.display = s.admitted) :
    q.leading = [] ∧ q.modifiers = [] ∧ q.grouping = [] ∧ q.trailing = [] := by
  unfold Query.display Select.admitted at same
  simp only [body] at same
  generalize "SELECT ".toList = first at same
  generalize " FROM ".toList = second at same
  have lengths := congrArg List.length same
  simp only [List.length_append] at lengths
  refine ⟨?_, ?_, ?_, ?_⟩
  all_goals
    apply List.eq_nil_of_length_eq_zero
    omega

open Sqlite (Token Piece Selection)

def shown : Token → Text
  | .text value => '\'' :: (escape '\'' none value ++ ['\''])
  | t => t.spell

def shownPieces (ps : List Piece) : Text :=
  ps.flatMap (fun p => match p with
    | none => [' ']
    | some t => shown t)

def quotesApart : Option Char → Text → Bool
  | _, [] => true
  | previous, c :: cs =>
      !(c = '\'' && (previous = some '\\' || previous = some '\'' || cs.head? = some '\'')) &&
        quotesApart (some c) cs

theorem escape_eq_doubled {s : Text} {previous : Option Char} (h : quotesApart previous s = true) :
    escape '\'' previous s = Sqlite.doubled s := by
  induction s generalizing previous with
  | nil => rfl
  | cons c cs ih =>
    rw [quotesApart, Bool.and_eq_true] at h
    rw [escape, ih h.2]
    have text : Sqlite.doubled (c :: cs) =
        (if c = '\'' then ['\'', '\''] else [c]) ++ Sqlite.doubled cs := rfl
    rw [text]
    by_cases quote : c = '\''
    · subst quote
      have alone : (previous = some '\\' || previous = some '\'' || cs.head? = some '\'') = false := by
        simpa using h.1
      rw [if_pos rfl, alone]
      rfl
    · rw [if_neg quote, if_neg quote]
      rfl

theorem solid_escape (s : Text) (previous : Option Char) :
    Sqlite.solid (escape '\'' previous s) ≤ Sqlite.solid (Sqlite.doubled s) ∧
      (quotesApart previous s = false →
        Sqlite.solid (escape '\'' previous s) < Sqlite.solid (Sqlite.doubled s)) := by
  induction s generalizing previous with
  | nil => exact ⟨le_rfl, nofun⟩
  | cons c cs ih =>
    obtain ⟨le, lt⟩ := ih (some c)
    have text : Sqlite.doubled (c :: cs) =
        (if c = '\'' then ['\'', '\''] else [c]) ++ Sqlite.doubled cs := rfl
    rw [text, escape, quotesApart]
    by_cases quote : c = '\''
    · subst quote
      have one : Sqlite.solid ['\''] = 1 := rfl
      have two : Sqlite.solid ['\'', '\''] = 2 := rfl
      rw [if_pos rfl, if_pos rfl]
      cases (previous = some '\\' || previous = some '\'' || cs.head? = some '\'') with
      | true =>
        simp only [if_true, Sqlite.solid_append, one, two]
        exact ⟨by omega, fun _ => by omega⟩
      | false =>
        simp only [Bool.false_eq_true, if_false, Sqlite.solid_append, two]
        refine ⟨by omega, ?_⟩
        intro h
        have later := lt (by simpa using h)
        omega
    · rw [if_neg quote, if_neg quote]
      simp only [quote, decide_false, Bool.false_and, Bool.not_false, Bool.true_and,
        List.singleton_append]
      rw [Sqlite.solid_cons, Sqlite.solid_cons c (Sqlite.doubled cs)]
      exact ⟨by omega, fun h => by have := lt h; omega⟩

/-- A token whose letters and digits could be read for it. -/
def Token.shaped : Token → Bool
  | .word (c :: cs) => Sqlite.idStart c && cs.all Sqlite.idChar
  | .word [] => false
  | t => t.spelled

/-- The quotes of a text keep apart. -/
def Token.plain : Token → Bool
  | .text value => quotesApart none value
  | _ => true

theorem spelled_of_shaped {t : Token} (shaped : Token.shaped t = true) (read : t.isRead) :
    t.spelled = true := by
  cases t with
  | word name =>
    cases name with
    | nil => cases shaped
    | cons c cs =>
      have same : Sqlite.wordToken (c :: cs) = some (.word (c :: cs)) := read
      have start : (Sqlite.idStart c && cs.all Sqlite.idChar) = true := shaped
      rw [Sqlite.Token.spelled, Sqlite.isName, same, start, beq_self_eq_true]
      rfl
  | keyword | text | number | «variable» | minus | plus | eq | ne | lt | le | gt | ge | opening | closing | comma => exact shaped

theorem shown_plain {t : Token} (h : Token.plain t = true) : shown t = t.spell := by
  cases t with
  | text => rw [shown, escape_eq_doubled h, Sqlite.Token.spell]
  | keyword | word | number | «variable» | minus | plus | eq | ne | lt | le | gt | ge | opening | closing | comma => rfl

theorem solid_shown (t : Token) :
    Sqlite.solid (shown t) ≤ Sqlite.solid t.spell ∧
      (Token.plain t = false → Sqlite.solid (shown t) < Sqlite.solid t.spell) := by
  cases t with
  | text value =>
    obtain ⟨le, lt⟩ := solid_escape value none
    rw [shown, Sqlite.Token.spell, Sqlite.solid_cons, Sqlite.solid_append,
      Sqlite.solid_cons _ (Sqlite.doubled value ++ _), Sqlite.solid_append]
    exact ⟨by omega, fun h => by have := lt h; omega⟩
  | keyword | word | number | «variable» | minus | plus | eq | ne | lt | le | gt | ge | opening
  | closing | comma =>
    exact ⟨le_rfl, fun h => by cases h⟩

theorem solid_shownPieces (ps : List Piece) :
    Sqlite.solid (shownPieces ps) ≤ Sqlite.solid (Sqlite.piecesText ps) ∧
      (¬(∀ t ∈ Sqlite.tokens ps, Token.plain t = true) →
        Sqlite.solid (shownPieces ps) < Sqlite.solid (Sqlite.piecesText ps)) := by
  induction ps with
  | nil => exact ⟨le_rfl, fun h => absurd (fun t mem => by cases mem) h⟩
  | cons p ps ih =>
    cases p with
    | none =>
      have left : shownPieces (none :: ps) = [' '] ++ shownPieces ps := rfl
      have right : Sqlite.piecesText (none :: ps) = [' '] ++ Sqlite.piecesText ps := rfl
      rw [left, right, Sqlite.solid_append, Sqlite.solid_append, Sqlite.tokens_space]
      exact ⟨by omega, fun h => by have := ih.2 h; omega⟩
    | some t =>
      have left : shownPieces (some t :: ps) = shown t ++ shownPieces ps := rfl
      have right : Sqlite.piecesText (some t :: ps) = t.spell ++ Sqlite.piecesText ps := rfl
      obtain ⟨le, lt⟩ := solid_shown t
      rw [left, right, Sqlite.solid_append, Sqlite.solid_append, Sqlite.tokens_some]
      refine ⟨by omega, ?_⟩
      intro h
      by_cases here : Token.plain t = true
      · have later : ¬∀ u ∈ Sqlite.tokens ps, Token.plain u = true := by
          intro all
          exact h (fun u mem => (List.mem_cons.mp mem).elim (fun same => same ▸ here) (all u))
        have := ih.2 later
        omega
      · have := lt (Bool.eq_false_iff.mpr here)
        omega

theorem shownPieces_plain {ps : List Piece} (h : ∀ t ∈ Sqlite.tokens ps, Token.plain t = true) :
    shownPieces ps = Sqlite.piecesText ps := by
  induction ps with
  | nil => rfl
  | cons p ps ih =>
    cases p with
    | none => exact congrArg ([' '] ++ ·) (ih h)
    | some t =>
      have here := shown_plain (h t (.head _))
      have later := ih (fun u mem => h u (.tail _ mem))
      show shown t ++ shownPieces ps = t.spell ++ Sqlite.piecesText ps
      rw [here, later]

/-- SQLite reads the displayed pieces back exactly when the quotes of every text keep apart, no two
minus signs meet and every name may be one. -/
theorem lex_shown {ps : List Piece} (spaced : Sqlite.Spaced ps)
    (shaped : ∀ t ∈ Sqlite.tokens ps, Token.shaped t = true) :
    Sqlite.lex (shownPieces ps) = some (Sqlite.tokens ps) ↔
      (∀ t ∈ Sqlite.tokens ps, Token.plain t = true) ∧ Sqlite.clash ps = false ∧
        ∀ t ∈ Sqlite.tokens ps, t.isRead := by
  constructor
  · intro h
    have read := Sqlite.lexFrom_isRead h
    have spelled := fun t mem => spelled_of_shaped (shaped t mem) (read t mem)
    have exactly := Sqlite.weight_tokens spelled
    have light := Sqlite.weight_le h
    have gap : Sqlite.pending .gap = 0 := rfl
    have plain : ∀ t ∈ Sqlite.tokens ps, Token.plain t = true := by
      by_contra other
      have := (solid_shownPieces ps).2 other
      omega
    refine ⟨plain, ?_, read⟩
    rw [Bool.eq_false_iff]
    intro clash
    rw [shownPieces_plain plain] at h
    have := (Sqlite.lex_pieces spaced spelled).2 clash _ h
    omega
  · rintro ⟨plain, apart, read⟩
    have spelled := fun t mem => spelled_of_shaped (shaped t mem) (read t mem)
    rw [shownPieces_plain plain]
    exact (Sqlite.lex_pieces spaced spelled).1 apart

/-- Everything about a selection that decides whether its display is read back. -/
def faithful (s : Selection) : Bool :=
  s.nests && s.tokens.all Token.plain && !Sqlite.clash s.pieces &&
    s.items.all (fun item => item.name.all (fun name =>
      Sqlite.wordToken name = some (.word name)))

theorem shownPieces_append (ps qs : List Piece) :
    shownPieces (ps ++ qs) = shownPieces ps ++ shownPieces qs := by
  simp [shownPieces]

end RssMdm.AgentWire.Sqlparser
