/- module: Lib/SqliteSpelling
   generality: library
   digest: Tokens written with spaces between them are read back, unless two minus signs meet. -/

import Mathlib.Data.List.Chain
import RssMdm.Lib.SqliteLexer

set_option autoImplicit false

namespace RssMdm.Lib.Sqlite

open List (all_cons append_assoc append_nil cons_append length_cons mem_cons_self nil_append
  singleton_append)
open Bool (and_eq_true)

def Token.spell : Token → List Char
  | .keyword k => k.text
  | .word name => name
  | .text value => '\'' :: (doubled value ++ ['\''])
  | .number digits => digits
  | .variable name => ':' :: name
  | .minus => ['-']
  | .plus => ['+']
  | .eq => ['=']
  | .ne => ['<', '>']
  | .lt => ['<']
  | .le => ['<', '=']
  | .gt => ['>']
  | .ge => ['>', '=']
  | .opening => ['(']
  | .closing => [')']
  | .comma => [',']

def Phase.run : Phase → List Char → Option Phase
  | phase, [] => some phase
  | phase, c :: cs => (phase.next c).bind (fun phase => phase.run cs)

def numeric : List Char → Bool
  | '.' :: c :: cs => c.isDigit && (Phase.fraction.run cs).any Phase.final
  | c :: cs => c.isDigit && (Phase.whole.run cs).any Phase.final
  | [] => false

def isName : List Char → Bool
  | [] => false
  | c :: cs => idStart c && cs.all idChar && wordToken (c :: cs) == some (.word (c :: cs))

/-- What a token holds can be written. -/
def Token.spelled : Token → Bool
  | .word name => isName name
  | .number digits => numeric digits
  | .variable name => name ≠ [] && name.all idChar
  | _ => true

/-- A token of a text, or the space between two. -/
abbrev Piece := Option Token

def pieceText : Piece → List Char
  | none => [' ']
  | some t => t.spell

def piecesText (ps : List Piece) : List Char := ps.flatMap pieceText

def tokens (ps : List Piece) : List Token := ps.filterMap id

def isDelimiter : Piece → Bool
  | none | some .comma | some .opening | some .closing => true
  | some _ => false

/-- What may stand directly after a piece; two minus signs are considered apart. -/
def adjacent : Piece → Piece → Bool
  | none, _ | some .opening, _ | some .closing, _ | some .comma, _ | some .plus, _ => true
  | some .minus, p => p ≠ some .gt && p ≠ some .ge
  | some _, p => isDelimiter p

def delimiter (c : Char) : Bool := c = ' ' || c = ',' || c = '(' || c = ')'

/-- `s` holds the whole of `t` and ends before a delimiter. -/
def Holds (s : State) (t : Token) : Prop :=
  finish s = some [t] ∧ ∀ c, delimiter c = true → advance s c = .before t

variable {t : Token} {cs : List Char}

theorem lexFrom_holds {s : State} (h : Holds s t) (stop : ∀ c ∈ cs.head?, delimiter c = true) :
    lexFrom s cs = (lexFrom .gap cs).map (t :: ·) := by
  cases cs with
  | nil => exact h.1
  | cons c => exact lexFrom_before (h.2 c (stop c rfl))

theorem delimiter_cases {P : Char → Prop} (space : P ' ') (comma : P ',') (opening : P '(')
    (closing : P ')') (c : Char) (h : delimiter c = true) : P c := by
  simp only [delimiter, Bool.or_eq_true, decide_eq_true_eq] at h
  rcases h with ((rfl | rfl) | rfl) | rfl
  · exact space
  · exact comma
  · exact opening
  · exact closing

variable {c : Char}

theorem not_digit_of_idStart (h : idStart c = true) : c.isDigit = false := by
  rw [Bool.eq_false_iff]
  intro digit
  simp only [Char.isDigit, and_eq_true, decide_eq_true_eq, UInt32.le_iff_toNat_le] at digit
  have high : '9'.val.toNat = 57 := rfl
  delta idStart Char.isAlpha Char.isUpper Char.isLower at h
  simp only [Bool.or_eq_true, and_eq_true, decide_eq_true_eq, Char.toNat,
    UInt32.le_iff_toNat_le, ge_iff_le] at h
  rcases h with ((⟨h, _⟩ | ⟨h, _⟩) | rfl) | h
  · have bound : 'A'.val.toNat = 65 := rfl
    omega
  · have bound : 'a'.val.toNat = 97 := rfl
    omega
  · have bound : '_'.val.toNat = 95 := rfl
    omega
  · omega

theorem first_word (h : idStart c = true) : advance .gap c = .next (.word [c]) := by
  have digit := not_digit_of_idStart h
  show first c = _
  unfold first
  split
  case h_18 => rw [if_neg (by rw [digit]; exact Bool.false_ne_true), if_pos h]
  all_goals exact absurd h (by decide)

theorem first_digit (h : c.isDigit = true) :
    advance .gap c = .next (.number .whole [c]) := by
  show first c = _
  unfold first
  split
  case h_18 => rw [if_pos h]
  all_goals exact absurd h (by decide)

variable {rest read : List Char}

theorem lexFrom_word (h : cs.all idChar = true) :
    lexFrom (.word read) (cs ++ rest) = lexFrom (.word (read ++ cs)) rest := by
  induction cs generalizing read with
  | nil => rw [append_nil, nil_append]
  | cons c cs ih =>
    rw [all_cons, and_eq_true] at h
    have move : advance (.word read) c = .next (.word (read ++ [c])) := if_pos h.1
    rw [cons_append, lexFrom_next move, ih h.2, append_assoc, singleton_append]

theorem lexFrom_variable (h : cs.all idChar = true) :
    lexFrom (.variable read) (cs ++ rest) = lexFrom (.variable (read ++ cs)) rest := by
  induction cs generalizing read with
  | nil => rw [append_nil, nil_append]
  | cons c cs ih =>
    rw [all_cons, and_eq_true] at h
    have move : advance (.variable read) c = .next (.variable (read ++ [c])) := if_pos h.1
    rw [cons_append, lexFrom_next move, ih h.2, append_assoc, singleton_append]

variable {phase : Phase}

theorem lexFrom_number {phase' : Phase} (h : phase.run cs = some phase') :
    lexFrom (.number phase read) (cs ++ rest) = lexFrom (.number phase' (read ++ cs)) rest := by
  induction cs generalizing phase read with
  | nil =>
    cases h
    rw [append_nil, nil_append]
  | cons c cs ih =>
    obtain ⟨middle, here, later⟩ := Option.bind_eq_some_iff.mp h
    have move : advance (.number phase read) c = .next (.number middle (read ++ [c])) := by
      simp only [advance, here]
    rw [cons_append, lexFrom_next move, ih later, append_assoc, singleton_append]

theorem lexFrom_text {value : List Char} :
    lexFrom (.text read) (doubled value ++ rest) = lexFrom (.text (read ++ value)) rest := by
  induction value generalizing read with
  | nil => rw [append_nil, doubled, List.flatMap_nil, nil_append]
  | cons c cs ih =>
    have here : lexFrom (.text read) (doubled (c :: cs) ++ rest) =
        lexFrom (.text (read ++ [c])) (doubled cs ++ rest) := by
      by_cases quote : c = '\''
      · subst quote
        have text : doubled ('\'' :: cs) = '\'' :: '\'' :: doubled cs := rfl
        rw [text, cons_append, cons_append,
          lexFrom_next (show advance (.text read) '\'' = .next (.quote read) from rfl),
          lexFrom_next (show advance (.quote read) '\'' = .next (.text (read ++ ['\''])) from rfl)]
      · have text : doubled (c :: cs) = c :: doubled cs := by simp [doubled, quote]
        have move : advance (.text read) c = .next (.text (read ++ [c])) := if_neg quote
        rw [text, cons_append, lexFrom_next move]
    rw [here, ih, append_assoc, singleton_append]

def reservedLetters : List (List Char) := [
  ['A', 'D', 'D'], ['A', 'L', 'L'], ['A', 'L', 'T', 'E', 'R'],
  ['A', 'U', 'T', 'O', 'I', 'N', 'C', 'R', 'E', 'M', 'E', 'N', 'T'],
  ['B', 'E', 'T', 'W', 'E', 'E', 'N'], ['C', 'A', 'S', 'E'], ['C', 'H', 'E', 'C', 'K'],
  ['C', 'O', 'L', 'L', 'A', 'T', 'E'], ['C', 'O', 'M', 'M', 'I', 'T'],
  ['C', 'O', 'N', 'S', 'T', 'R', 'A', 'I', 'N', 'T'], ['C', 'R', 'E', 'A', 'T', 'E'],
  ['D', 'E', 'F', 'A', 'U', 'L', 'T'], ['D', 'E', 'F', 'E', 'R', 'R', 'A', 'B', 'L', 'E'],
  ['D', 'E', 'L', 'E', 'T', 'E'], ['D', 'I', 'S', 'T', 'I', 'N', 'C', 'T'], ['D', 'R', 'O', 'P'],
  ['E', 'L', 'S', 'E'], ['E', 'S', 'C', 'A', 'P', 'E'], ['E', 'X', 'C', 'E', 'P', 'T'],
  ['E', 'X', 'I', 'S', 'T', 'S'], ['F', 'O', 'R', 'E', 'I', 'G', 'N'], ['G', 'R', 'O', 'U', 'P'],
  ['H', 'A', 'V', 'I', 'N', 'G'], ['I', 'N', 'D', 'E', 'X'], ['I', 'N', 'S', 'E', 'R', 'T'],
  ['I', 'N', 'T', 'E', 'R', 'S', 'E', 'C', 'T'], ['I', 'N', 'T', 'O'],
  ['I', 'S', 'N', 'U', 'L', 'L'], ['J', 'O', 'I', 'N'], ['N', 'O', 'T', 'H', 'I', 'N', 'G'],
  ['N', 'O', 'T', 'N', 'U', 'L', 'L'], ['O', 'N'], ['O', 'R', 'D', 'E', 'R'],
  ['P', 'R', 'I', 'M', 'A', 'R', 'Y'], ['R', 'E', 'F', 'E', 'R', 'E', 'N', 'C', 'E', 'S'],
  ['R', 'E', 'T', 'U', 'R', 'N', 'I', 'N', 'G'], ['S', 'E', 'T'], ['T', 'A', 'B', 'L', 'E'],
  ['T', 'H', 'E', 'N'], ['T', 'O'], ['T', 'R', 'A', 'N', 'S', 'A', 'C', 'T', 'I', 'O', 'N'],
  ['U', 'N', 'I', 'O', 'N'], ['U', 'N', 'I', 'Q', 'U', 'E'], ['U', 'P', 'D', 'A', 'T', 'E'],
  ['U', 'S', 'I', 'N', 'G'], ['V', 'A', 'L', 'U', 'E', 'S'], ['W', 'H', 'E', 'N']]

theorem reserved_eq : reserved = reservedLetters.map String.ofList := rfl

variable {w : List Char}

theorem ofList_mem_reserved : String.ofList w ∈ reserved ↔ w ∈ reservedLetters := by
  have injective : Function.Injective String.ofList := fun _ _ same => String.ofList_inj.mp same
  rw [reserved_eq, List.mem_map_of_injective injective]

def keywordLetters : List (List Char) := [
  ['S', 'E', 'L', 'E', 'C', 'T'], ['F', 'R', 'O', 'M'], ['W', 'H', 'E', 'R', 'E'],
  ['L', 'I', 'M', 'I', 'T'], ['A', 'S'], ['A', 'N', 'D'], ['O', 'R'], ['N', 'O', 'T'], ['I', 'S'],
  ['N', 'U', 'L', 'L'], ['I', 'N']]

theorem text_mem_keywordLetters (k : Keyword) : k.text ∈ keywordLetters := by
  cases k <;> (unfold Keyword.text; rw [String.toList_ofList]; decide)

theorem wordToken_plain (keyword : upper w ∉ keywordLetters) (free : upper w ∉ reservedLetters) :
    wordToken w = some (.word w) := by
  have other : Keyword.all.find? (fun k => k.text = upper w) = none := by
    rw [List.find?_eq_none]
    intro k _ same
    exact keyword (of_decide_eq_true same ▸ text_mem_keywordLetters k)
  rw [wordToken, other]
  exact if_neg (fun mem => free (ofList_mem_reserved.mp mem))

theorem isName_plain
    (plain : (idStart c && cs.all idChar && !keywordLetters.contains (upper (c :: cs)) &&
      !reservedLetters.contains (upper (c :: cs))) = true) :
    isName (String.ofList (c :: cs)).toList = true := by
  simp only [and_eq_true, Bool.not_eq_true', List.contains_eq_mem,
    decide_eq_false_iff_not] at plain
  obtain ⟨⟨⟨start, all⟩, keyword⟩, free⟩ := plain
  rw [String.toList_ofList, isName, start, all, wordToken_plain keyword free]
  exact decide_eq_true rfl

theorem holds_word (h : wordToken w = some t) : Holds (.word w) t := by
  refine ⟨by rw [finish, h]; rfl, ?_⟩
  have move : ∀ c, idChar c = false → c ≠ '\'' → advance (.word w) c = .before t := by
    intro c id quote
    simp only [advance, id, h, quote, decide_false, Bool.false_and, Bool.false_eq_true, if_false]
  exact delimiter_cases (move _ rfl (by decide)) (move _ rfl (by decide)) (move _ rfl (by decide))
    (move _ rfl (by decide))

theorem holds_variable {name : List Char} (h : name ≠ []) :
    Holds (.variable name) (.variable name) := by
  refine ⟨if_neg h, ?_⟩
  have move : ∀ c, idChar c = false → advance (.variable name) c = .before (.variable name) := by
    intro c id
    simp only [advance, id, h, Bool.false_eq_true, if_false]
  exact delimiter_cases (move _ rfl) (move _ rfl) (move _ rfl) (move _ rfl)

theorem holds_number (h : phase.final = true) (digits : List Char) :
    Holds (.number phase digits) (.number digits) := by
  refine ⟨if_pos h, ?_⟩
  cases phase with
  | exponent | signed => cases h
  | whole | fraction | power => exact delimiter_cases rfl rfl rfl rfl

theorem holds_quote (value : List Char) : Holds (.quote value) (.text value) :=
  ⟨rfl, delimiter_cases rfl rfl rfl rfl⟩

theorem holds_sign : Holds .less .lt ∧ Holds .greater .gt ∧ Holds .equals .eq :=
  ⟨⟨rfl, delimiter_cases rfl rfl rfl rfl⟩, ⟨rfl, delimiter_cases rfl rfl rfl rfl⟩,
    ⟨rfl, delimiter_cases rfl rfl rfl rfl⟩⟩

theorem keyword_word (k : Keyword) :
    ∃ c cs, k.text = c :: cs ∧ idStart c = true ∧ cs.all idChar = true ∧
      wordToken (c :: cs) = some (.keyword k) := by
  cases k with
  | select | «from» | «where» | limit | as | and | or | not | is | null | «in» =>
    exact ⟨_, _, rfl, by decide, by decide, by decide⟩

theorem lexFrom_named (start : idStart c = true) (all : cs.all idChar = true)
    (same : wordToken (c :: cs) = some t) (stop : ∀ a ∈ rest.head?, delimiter a = true) :
    lexFrom .gap (c :: cs ++ rest) = (lexFrom .gap rest).map (t :: ·) := by
  rw [cons_append, lexFrom_next (first_word start), lexFrom_word all]
  exact lexFrom_holds (holds_word same) stop

theorem lexFrom_numeric {digits : List Char} (h : numeric digits = true)
    (stop : ∀ a ∈ rest.head?, delimiter a = true) :
    lexFrom .gap (digits ++ rest) = (lexFrom .gap rest).map (.number digits :: ·) := by
  unfold numeric at h
  split at h
  · next c cs =>
      rw [and_eq_true, Option.any_eq_true] at h
      obtain ⟨digit, phase, run, final⟩ := h
      rw [cons_append, cons_append,
        lexFrom_next (show advance .gap '.' = .next .dot from rfl),
        lexFrom_next (show advance .dot c = .next (.number .fraction ['.', c]) from if_pos digit),
        lexFrom_number run]
      exact lexFrom_holds (holds_number final _) stop
  · next c cs _ =>
      rw [and_eq_true, Option.any_eq_true] at h
      obtain ⟨digit, phase, run, final⟩ := h
      rw [cons_append, lexFrom_next (first_digit digit), lexFrom_number run]
      exact lexFrom_holds (holds_number final _) stop
  · cases h

/-- The tokens that must be followed by a delimiter. -/
def Token.tight : Token → Bool
  | .opening | .closing | .comma | .plus | .minus => false
  | _ => true

theorem lexFrom_tight (tight : t.tight = true) (spelled : t.spelled = true)
    (stop : ∀ a ∈ rest.head?, delimiter a = true) :
    lexFrom .gap (t.spell ++ rest) = (lexFrom .gap rest).map (t :: ·) := by
  cases t with
  | keyword k =>
    obtain ⟨c, cs, text, start, all, same⟩ := keyword_word k
    rw [Token.spell, text]
    exact lexFrom_named start all same stop
  | word name =>
    cases name with
    | nil => cases spelled
    | cons =>
      simp only [Token.spelled, isName, and_eq_true, beq_iff_eq] at spelled
      exact lexFrom_named spelled.1.1 spelled.1.2 spelled.2 stop
  | text value =>
    rw [Token.spell, cons_append, append_assoc,
      lexFrom_next (show advance .gap '\'' = .next (.text []) from rfl), lexFrom_text,
      nil_append, singleton_append,
      lexFrom_next (show advance (.text value) '\'' = .next (.quote value) from rfl)]
    exact lexFrom_holds (holds_quote value) stop
  | number => exact lexFrom_numeric spelled stop
  | «variable» name =>
    simp only [Token.spelled, and_eq_true, decide_eq_true_eq] at spelled
    rw [Token.spell, cons_append,
      lexFrom_next (show advance .gap ':' = .next (.variable []) from rfl),
      lexFrom_variable spelled.2, nil_append]
    exact lexFrom_holds (holds_variable spelled.1) stop
  | eq =>
    rw [Token.spell, singleton_append,
      lexFrom_next (show advance .gap '=' = .next .equals from rfl)]
    exact lexFrom_holds holds_sign.2.2 stop
  | lt =>
    rw [Token.spell, singleton_append,
      lexFrom_next (show advance .gap '<' = .next .less from rfl)]
    exact lexFrom_holds holds_sign.1 stop
  | gt =>
    rw [Token.spell, singleton_append,
      lexFrom_next (show advance .gap '>' = .next .greater from rfl)]
    exact lexFrom_holds holds_sign.2.1 stop
  | ne =>
    rw [Token.spell, cons_append, singleton_append,
      lexFrom_next (show advance .gap '<' = .next .less from rfl),
      lexFrom_token (show advance .less '>' = .token .ne from rfl)]
  | le =>
    rw [Token.spell, cons_append, singleton_append,
      lexFrom_next (show advance .gap '<' = .next .less from rfl),
      lexFrom_token (show advance .less '=' = .token .le from rfl)]
  | ge =>
    rw [Token.spell, cons_append, singleton_append,
      lexFrom_next (show advance .gap '>' = .next .greater from rfl),
      lexFrom_token (show advance .greater '=' = .token .ge from rfl)]
  | minus | plus | opening | closing | comma => cases tight

theorem all_ne_space (h : cs.all idChar = true) : solid cs = cs.length := by
  rw [solid, List.countP_eq_length]
  intro c mem
  have id := List.all_eq_true.mp h c mem
  simpa using idChar_ne_space id

theorem run_ne_space {phase' : Phase} (h : phase.run cs = some phase') : solid cs = cs.length := by
  induction cs generalizing phase with
  | nil => rfl
  | cons c cs ih =>
    obtain ⟨middle, here, later⟩ := Option.bind_eq_some_iff.mp h
    rw [solid_cons, solid_of_ne (Phase.next_ne_space here), ih later, length_cons,
      Nat.add_comm]

theorem numeric_solid {digits : List Char} (h : numeric digits = true) :
    solid digits = digits.length := by
  unfold numeric at h
  split at h
  · next c cs =>
      rw [and_eq_true, Option.any_eq_true] at h
      obtain ⟨digit, phase, run, _⟩ := h
      rw [solid_cons, solid_cons c, solid_of_ne (digit_ne_space digit), run_ne_space run,
        solid_of_ne (by decide)]
      simp only [length_cons]
      omega
  · next c cs _ =>
      rw [and_eq_true, Option.any_eq_true] at h
      obtain ⟨digit, phase, run, _⟩ := h
      rw [solid_cons, solid_of_ne (digit_ne_space digit), run_ne_space run, length_cons,
        Nat.add_comm]
  · cases h

theorem solid_spell (spelled : t.spelled = true) : solid t.spell = t.weight := by
  cases t with
  | keyword k =>
    cases k with
    | select | «from» | «where» | limit | as | and | or | not | is | null | «in» => rfl
  | word name =>
    cases name with
    | nil => cases spelled
    | cons c cs =>
      simp only [Token.spelled, isName, and_eq_true] at spelled
      have start : idChar c = true := by rw [idChar, spelled.1.1]; rfl
      have all : (c :: cs).all idChar = true := by rw [all_cons, start, spelled.1.2]; rfl
      exact all_ne_space all
  | text =>
    rw [Token.spell, solid_cons, solid_append, Token.weight, solid_of_ne (by decide)]
    omega
  | number => exact numeric_solid spelled
  | «variable» name =>
    simp only [Token.spelled, and_eq_true, decide_eq_true_eq] at spelled
    rw [Token.spell, solid_cons, solid_of_ne (by decide), all_ne_space spelled.2, Token.weight,
      Nat.add_comm]
  | minus | plus | eq | ne | lt | le | gt | ge | opening | closing | comma => rfl

/-- Two minus signs in a row. -/
def clash : List Piece → Bool
  | some .minus :: some .minus :: _ => true
  | _ :: ps => clash ps
  | [] => false

variable {ps : List Piece}

theorem weight_tokens (spelled : ∀ t ∈ tokens ps, t.spelled = true) :
    weight (tokens ps) = solid (piecesText ps) := by
  induction ps with
  | nil => rfl
  | cons p ps ih =>
    cases p with
    | none => exact ih spelled
    | some t =>
      have here := solid_spell (spelled t (.head _))
      have later := ih (fun u mem => spelled u (.tail _ mem))
      show weight (t :: tokens ps) = solid (t.spell ++ piecesText ps)
      rw [weight_cons, solid_append, here, later]

theorem head_delimiter {p : Piece} (h : isDelimiter p = true) :
    ∀ c ∈ (piecesText (p :: ps)).head?, delimiter c = true := by
  intro c mem
  rcases p with _ | t
  · obtain rfl : ' ' = c := Option.some.inj mem
    rfl
  cases t with
  | opening =>
    obtain rfl : '(' = c := Option.some.inj mem
    rfl
  | closing =>
    obtain rfl : ')' = c := Option.some.inj mem
    rfl
  | comma =>
    obtain rfl : ',' = c := Option.some.inj mem
    rfl
  | keyword | word | text | number | «variable» | minus | plus | eq | ne | lt | le | gt | ge =>
    cases h

theorem clash_cons {p : Piece} :
    clash (p :: ps) = true ↔
      (p = some .minus ∧ ps.head? = some (some .minus)) ∨ clash ps = true := by
  constructor
  · intro h
    rw [clash.eq_def] at h
    split at h
    · next same =>
        cases same
        exact .inl ⟨rfl, rfl⟩
    · next same =>
        cases same
        exact .inr h
    · cases h
  · rintro (⟨rfl, head⟩ | later)
    · cases ps with
      | nil => cases head
      | cons =>
        cases head
        rfl
    · rw [clash.eq_def]
      split
      · rfl
      · next same =>
          cases same
          exact later
      · next same => cases same

theorem spell_head (spelled : t.spelled = true) (minus : t ≠ .minus) (gt : t ≠ .gt) (ge : t ≠ .ge) :
    ∃ c cs, t.spell = c :: cs ∧ c ≠ '-' ∧ c ≠ '>' := by
  have other : ∀ c : Char, (idStart c = true ∨ c.isDigit = true) → c ≠ '-' ∧ c ≠ '>' := by
    rintro c h
    constructor <;>
    · rintro rfl
      revert h
      decide
  cases t with
  | keyword k =>
    obtain ⟨c, cs, text, start, _⟩ := keyword_word k
    exact ⟨c, cs, text, other c (.inl start)⟩
  | word name =>
    cases name with
    | nil => cases spelled
    | cons c cs =>
      simp only [Token.spelled, isName, and_eq_true] at spelled
      exact ⟨c, cs, rfl, other c (.inl spelled.1.1)⟩
  | number digits =>
    simp only [Token.spelled] at spelled
    unfold numeric at spelled
    split at spelled
    · exact ⟨_, _, rfl, by decide, by decide⟩
    · next c cs _ =>
        rw [and_eq_true] at spelled
        exact ⟨c, cs, rfl, other c (.inr spelled.1)⟩
    · cases spelled
  | text | «variable» | plus | eq | ne | lt | le | opening | closing | comma =>
    exact ⟨_, _, rfl, by decide, by decide⟩
  | minus => exact absurd rfl minus
  | gt => exact absurd rfl gt
  | ge => exact absurd rfl ge

theorem lexFrom_dash (minus : c ≠ '-') (gt : c ≠ '>') :
    lexFrom .dash (c :: cs) = (lexFrom .gap (c :: cs)).map (.minus :: ·) := by
  have move : advance .dash c = .before .minus := by
    simp only [advance, minus, gt, if_false]
  exact lexFrom_before move

theorem lexFrom_piece (spelled : t.spelled = true)
    (next : ∀ p ∈ ps.head?, adjacent (some t) p = true)
    (apart : ¬(t = .minus ∧ ps.head? = some (some .minus)))
    (rest : ∀ u ∈ tokens ps, u.spelled = true) :
    lexFrom .gap (t.spell ++ piecesText ps) =
      (lexFrom .gap (piecesText ps)).map (t :: ·) := by
  by_cases tight : t.tight = true
  · refine lexFrom_tight tight spelled ?_
    cases ps with
    | nil =>
      intro c mem
      cases mem
    | cons p ps =>
      refine head_delimiter ?_
      have follows := next p rfl
      cases t with
      | minus | plus | opening | closing | comma => cases tight
      | keyword | word | text | number | «variable» | eq | ne | lt | le | gt | ge => exact follows
  · cases t with
    | opening | closing | comma | plus => exact lexFrom_token rfl
    | minus =>
      rw [Token.spell, singleton_append,
        lexFrom_next (show advance .gap '-' = .next .dash from rfl)]
      rcases ps with _ | ⟨_ | u, ps⟩
      · rfl
      · exact lexFrom_dash (by decide) (by decide)
      have follows := next (some u) rfl
      simp only [adjacent, and_eq_true, decide_eq_true_eq, ne_eq] at follows
      have alone : u ≠ .minus := fun same => apart ⟨rfl, same ▸ rfl⟩
      obtain ⟨c, cs, text, notMinus, notGt⟩ := spell_head (rest u (.head _)) alone
        (fun same => follows.1 (same ▸ rfl)) (fun same => follows.2 (same ▸ rfl))
      show lexFrom .dash (u.spell ++ piecesText ps) =
        (lexFrom .gap (u.spell ++ piecesText ps)).map (.minus :: ·)
      rw [text]
      exact lexFrom_dash notMinus notGt
    | keyword | word | text | number | «variable» | eq | ne | lt | le | gt | ge =>
      exact absurd rfl tight

/-- Written apart, the pieces are read back; with two minus signs in a row part of the text is a
comment and the tokens are lighter than the text. -/
theorem lex_pieces (chain : ps.IsChain (fun p q => adjacent p q = true))
    (spelled : ∀ t ∈ tokens ps, t.spelled = true) :
    (clash ps = false → lex (piecesText ps) = some (tokens ps)) ∧
      (clash ps = true → ∀ ts, lex (piecesText ps) = some ts →
        weight ts < solid (piecesText ps)) := by
  unfold lex
  induction ps with
  | nil =>
    refine ⟨fun _ => rfl, ?_⟩
    intro h
    cases h
  | cons p ps ih =>
    obtain ⟨next, tail⟩ := List.isChain_cons.mp chain
    cases p with
    | none =>
      have here : lexFrom .gap (piecesText (none :: ps)) = lexFrom .gap (piecesText ps) :=
        lexFrom_next rfl
      have later := ih tail spelled
      rw [here]
      exact later
    | some t =>
      have rest : ∀ u ∈ tokens ps, u.spelled = true :=
        fun u mem => spelled u (.tail _ mem)
      obtain ⟨apart, together⟩ := ih tail rest
      have text : piecesText (some t :: ps) = t.spell ++ piecesText ps := rfl
      by_cases signs : t = .minus ∧ ps.head? = some (some .minus)
      · obtain ⟨rfl, head⟩ := signs
        obtain ⟨ps, rfl⟩ : ∃ qs, ps = some .minus :: qs := by
          cases ps with
          | nil => cases head
          | cons _ qs =>
            cases head
            exact ⟨qs, rfl⟩
        refine ⟨fun h => (Bool.eq_false_iff.mp h rfl).elim, ?_⟩
        intro _ ts read
        have comment : lexFrom .gap ('-' :: '-' :: piecesText ps) =
            lexFrom .comment (piecesText ps) := by
          rw [lexFrom_next (show advance .gap '-' = .next .dash from rfl),
            lexFrom_next (show advance .dash '-' = .next .comment from rfl)]
        have read : lexFrom .gap ('-' :: '-' :: piecesText ps) = some ts := read
        rw [comment] at read
        have light := weight_le read
        have signs : solid ['-', '-'] = 2 := rfl
        have nothing : pending .comment = 0 := rfl
        show weight ts < solid (['-', '-'] ++ piecesText ps)
        rw [solid_append]
        omega
      · have here := lexFrom_piece (spelled t (.head _)) next signs rest
        have same : clash (some t :: ps) = true ↔ clash ps = true := by
          rw [clash_cons]
          refine ⟨?_, .inr⟩
          rintro (⟨minus, head⟩ | later)
          · exact absurd ⟨Option.some.inj minus, head⟩ signs
          · exact later
        rw [text, here]
        constructor
        · intro h
          have later : clash ps = false := by
            rw [Bool.eq_false_iff] at h ⊢
            exact fun more => h (same.mpr more)
          rw [apart later]
          rfl
        · intro h ts read
          obtain ⟨us, later, rfl⟩ := Option.map_eq_some_iff.mp read
          have light := together (same.mp h) us later
          rw [weight_cons, solid_append, solid_spell (spelled t (.head _))]
          omega

end RssMdm.Lib.Sqlite
