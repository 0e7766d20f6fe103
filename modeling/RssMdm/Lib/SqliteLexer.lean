/- module: Lib/SqliteLexer
   generality: library
   digest: The SQLite tokenizer on the part of the language that plain selections use; a text has at
   least the characters its tokens need. -/

import Mathlib.Algebra.Order.Ring.Int
import Mathlib.Data.List.Basic

set_option autoImplicit false

namespace RssMdm.Lib.Sqlite

inductive Keyword where
  | select | from | where | limit | as | and | or | not | is | null | in
deriving DecidableEq

namespace Keyword

def text : Keyword → List Char
  | .select => "SELECT".toList
  | .from => "FROM".toList
  | .where => "WHERE".toList
  | .limit => "LIMIT".toList
  | .as => "AS".toList
  | .and => "AND".toList
  | .or => "OR".toList
  | .not => "NOT".toList
  | .is => "IS".toList
  | .null => "NULL".toList
  | .in => "IN".toList

def all : List Keyword :=
  [.select, .from, .where, .limit, .as, .and, .or, .not, .is, .null, .in]

end Keyword

/-- The other words that are never a name. -/
def reserved : List String := [
  "ADD", "ALL", "ALTER", "AUTOINCREMENT", "BETWEEN", "CASE", "CHECK", "COLLATE", "COMMIT",
  "CONSTRAINT", "CREATE", "DEFAULT", "DEFERRABLE", "DELETE", "DISTINCT", "DROP", "ELSE", "ESCAPE",
  "EXCEPT", "EXISTS", "FOREIGN", "GROUP", "HAVING", "INDEX", "INSERT", "INTERSECT", "INTO", "ISNULL",
  "JOIN", "NOTHING", "NOTNULL", "ON", "ORDER", "PRIMARY", "REFERENCES", "RETURNING", "SET", "TABLE",
  "THEN", "TO", "TRANSACTION", "UNION", "UNIQUE", "UPDATE", "USING", "VALUES", "WHEN"]

inductive Token where
  | keyword (k : Keyword)
  | word (name : List Char)
  | text (value : List Char)
  | number (digits : List Char)
  | variable (name : List Char)
  | minus | plus | eq | ne | lt | le | gt | ge | opening | closing | comma
deriving DecidableEq

def upper (w : List Char) : List Char := w.map Char.toUpper

/-- A word is one of the keywords, or a name unless it is reserved. -/
def wordToken (w : List Char) : Option Token :=
  match Keyword.all.find? (fun k => k.text = upper w) with
  | some k => some (.keyword k)
  | none => if String.ofList (upper w) ∈ reserved then none else some (.word w)

def idStart (c : Char) : Bool := c.isAlpha || c = '_' || 0x80 ≤ c.toNat

def idChar (c : Char) : Bool := idStart c || c.isDigit || c = '$'

inductive Phase where
  | whole | fraction | exponent | signed | power
deriving DecidableEq

def Phase.next : Phase → Char → Option Phase
  | .whole, c =>
      if c.isDigit then some .whole else if c = '.' then some .fraction
      else if c = 'e' || c = 'E' then some .exponent else none
  | .fraction, c =>
      if c.isDigit then some .fraction else if c = 'e' || c = 'E' then some .exponent else none
  | .exponent, c =>
      if c.isDigit then some .power else if c = '+' || c = '-' then some .signed else none
  | .signed, c => if c.isDigit then some .power else none
  | .power, c => if c.isDigit then some .power else none

def Phase.final : Phase → Bool
  | .whole | .fraction | .power => true
  | .exponent | .signed => false

/-- What has been read of the current token. -/
inductive State where
  | gap
  | word (read : List Char)
  | number (phase : Phase) (read : List Char)
  | dot
  | text (value : List Char)
  | quote (value : List Char)
  | variable (read : List Char)
  | dash | comment | less | greater | equals | bang
deriving DecidableEq

/-- What one character does: it joins the token, completes it, comes after it or is refused. -/
inductive Move where
  | next (s : State)
  | token (t : Token)
  | before (t : Token)
  | refuse

def first (c : Char) : Move :=
  match c with
  | ' ' | '\t' | '\n' | '\x0c' | '\r' => .next .gap
  | '(' => .token .opening
  | ')' => .token .closing
  | ',' => .token .comma
  | '+' => .token .plus
  | '-' => .next .dash
  | '<' => .next .less
  | '>' => .next .greater
  | '=' => .next .equals
  | '!' => .next .bang
  | '\'' => .next (.text [])
  | ':' => .next (.variable [])
  | '.' => .next .dot
  | c =>
      if c.isDigit then .next (.number .whole [c])
      else if idStart c then .next (.word [c])
      else .refuse

def advance : State → Char → Move
  | .gap, c => first c
  | .word read, c =>
      if idChar c then .next (.word (read ++ [c]))
      else if c = '\'' && upper read = ['X'] then .refuse
      else
        match wordToken read with
        | none => .refuse
        | some t => .before t
  | .number phase read, c =>
      match phase.next c with
      | some phase => .next (.number phase (read ++ [c]))
      | none => if idChar c || !phase.final then .refuse else .before (.number read)
  | .dot, c => if c.isDigit then .next (.number .fraction ['.', c]) else .refuse
  | .text value, c => if c = '\'' then .next (.quote value) else .next (.text (value ++ [c]))
  | .quote value, c =>
      if c = '\'' then .next (.text (value ++ ['\''])) else .before (.text value)
  | .variable read, c =>
      if idChar c then .next (.variable (read ++ [c]))
      else if read = [] then .refuse else .before (.variable read)
  | .dash, c =>
      if c = '-' then .next .comment else if c = '>' then .refuse else .before .minus
  | .comment, c => if c = '\n' then .next .gap else .next .comment
  | .less, c =>
      if c = '=' then .token .le else if c = '>' then .token .ne
      else if c = '<' then .refuse else .before .lt
  | .greater, c =>
      if c = '=' then .token .ge else if c = '>' then .refuse else .before .gt
  | .equals, c => if c = '=' then .token .eq else .before .eq
  | .bang, c => if c = '=' then .token .ne else .refuse

/-- The text ends here. -/
def finish : State → Option (List Token)
  | .gap | .comment => some []
  | .word read => (wordToken read).map (fun t => [t])
  | .number phase read => if phase.final then some [.number read] else none
  | .quote value => some [.text value]
  | .variable read => if read = [] then none else some [.variable read]
  | .dash => some [.minus]
  | .less => some [.lt]
  | .greater => some [.gt]
  | .equals => some [.eq]
  | .dot | .text _ | .bang => none

/-- A character that comes after a token starts the next one. -/
def step (s : State) (c : Char) : Option (List Token × State) :=
  match advance s c with
  | .next s => some ([], s)
  | .token t => some ([t], .gap)
  | .before t =>
      match first c with
      | .next s => some ([t], s)
      | .token t' => some ([t, t'], .gap)
      | .before _ | .refuse => none
  | .refuse => none

def lexFrom : State → List Char → Option (List Token)
  | s, [] => finish s
  | s, c :: cs =>
      match step s c with
      | none => none
      | some (ts, s) => (lexFrom s cs).map (ts ++ ·)

def lex (sql : List Char) : Option (List Token) := lexFrom .gap sql

variable {s s' : State} {t : Token} {c : Char} {cs : List Char}

theorem lexFrom_next (h : advance s c = .next s') : lexFrom s (c :: cs) = lexFrom s' cs := by
  rw [lexFrom, step, h]
  show (lexFrom s' cs).map (fun ts => [] ++ ts) = lexFrom s' cs
  simp

theorem lexFrom_token (h : advance s c = .token t) :
    lexFrom s (c :: cs) = (lexFrom .gap cs).map (t :: ·) := by
  rw [lexFrom, step, h]
  rfl

theorem first_ne_before (c : Char) (t : Token) : first c ≠ .before t := by
  intro h
  unfold first at h
  repeat' split at h
  all_goals cases h

theorem lexFrom_before (h : advance s c = .before t) :
    lexFrom s (c :: cs) = (lexFrom .gap (c :: cs)).map (t :: ·) := by
  have again : step .gap c = match first c with
      | .next s => some ([], s)
      | .token t' => some ([t'], .gap)
      | .before _ | .refuse => none := by
    rw [step, advance]
    rcases h : first c with _ | _ | t' | _
    · rfl
    · rfl
    · exact absurd h (first_ne_before c t')
    · rfl
  rw [lexFrom, lexFrom, again, step, h]
  rcases first c with s' | t' | t' | _
  · show (lexFrom s' cs).map _ = Option.map _ ((lexFrom s' cs).map _)
    rw [Option.map_map]
    rfl
  · show (lexFrom .gap cs).map _ = Option.map _ ((lexFrom .gap cs).map _)
    rw [Option.map_map]
    rfl
  · rfl
  · rfl

def solid (cs : List Char) : Nat := cs.countP (fun c => c != ' ')

@[simp] theorem solid_nil : solid [] = 0 := rfl

@[simp] theorem solid_append (xs ys : List Char) : solid (xs ++ ys) = solid xs + solid ys :=
  List.countP_append

theorem solid_cons (c : Char) (cs : List Char) : solid (c :: cs) = solid [c] + solid cs :=
  solid_append [c] cs

theorem solid_of_ne (h : c ≠ ' ') : solid [c] = 1 := by
  simp [solid, h]

/-- A quoted text with its quotes written twice. -/
def doubled (value : List Char) : List Char :=
  value.flatMap (fun c => if c = '\'' then ['\'', '\''] else [c])

@[simp] theorem doubled_append (xs ys : List Char) :
    doubled (xs ++ ys) = doubled xs ++ doubled ys := by
  simp [doubled]

/-- The characters a token takes at least. -/
def Token.weight : Token → Nat
  | .keyword k => k.text.length
  | .word name => name.length
  | .text value => solid (doubled value) + 2
  | .number digits => digits.length
  | .variable name => name.length + 1
  | .ne | .le | .ge => 2
  | .minus | .plus | .eq | .lt | .gt | .opening | .closing | .comma => 1

def weight (ts : List Token) : Nat := (ts.map Token.weight).sum

@[simp] theorem weight_nil : weight [] = 0 := rfl

@[simp] theorem weight_cons (t : Token) (ts : List Token) : weight (t :: ts) = t.weight + weight ts := by
  simp [weight]

@[simp] theorem weight_append (ts us : List Token) : weight (ts ++ us) = weight ts + weight us := by
  simp [weight]

/-- The characters read for the current token; a comment has none. -/
def pending : State → Nat
  | .gap | .comment => 0
  | .word read => read.length
  | .number _ read => read.length
  | .text value => solid (doubled value) + 1
  | .quote value => solid (doubled value) + 2
  | .variable read => read.length + 1
  | .dot | .dash | .less | .greater | .equals | .bang => 1

theorem idChar_ne_space (h : idChar c = true) : c ≠ ' ' := by
  rintro rfl
  revert h
  decide

theorem digit_ne_space (h : c.isDigit = true) : c ≠ ' ' := by
  rintro rfl
  revert h
  decide

theorem Phase.next_ne_space {phase phase' : Phase} (h : phase.next c = some phase') : c ≠ ' ' := by
  rintro rfl
  revert h
  cases phase <;> simp [Phase.next, show Char.isDigit ' ' = false from rfl]

theorem wordToken_weight {w : List Char} (h : wordToken w = some t) : t.weight = w.length := by
  unfold wordToken at h
  split at h
  · next k found =>
      cases h
      have same : k.text = upper w := by simpa using List.find?_some found
      rw [Token.weight, same, upper, List.length_map]
  · split at h
    · cases h
    · cases h
      rfl

/-- What a move keeps for the token is covered by what was read. -/
def Move.within (available : Nat) (now : Nat) : Move → Prop
  | .next s => pending s ≤ available + now
  | .token t => t.weight ≤ available + now
  | .before t => t.weight ≤ available
  | .refuse => True

theorem first_within (c : Char) : (first c).within 0 (solid [c]) := by
  unfold first
  split
  case h_18 =>
    split
    · next digit =>
        rw [solid_of_ne (digit_ne_space digit)]
        exact Nat.le_refl _
    split
    · next id =>
        rw [solid_of_ne (idChar_ne_space (by rw [idChar, id]; rfl))]
        exact Nat.le_refl _
    · trivial
  all_goals
    unfold Move.within
    decide

attribute [local simp] Move.within pending

theorem advance_within (s : State) (c : Char) :
    (advance s c).within (pending s) (solid [c]) := by
  cases s with
  | gap => exact first_within c
  | word read =>
    simp only [advance]
    split
    · next id =>
        have one := solid_of_ne (idChar_ne_space id)
        simp only [Move.within, pending, List.length_append, List.length_singleton]
        omega
    · split
      · trivial
      · split
        · trivial
        · next t found => exact Nat.le_of_eq (wordToken_weight found)
  | number phase read =>
    simp only [advance]
    split
    · next phase' more =>
        have one := solid_of_ne (Phase.next_ne_space more)
        simp only [Move.within, pending, List.length_append, List.length_singleton]
        omega
    · split
      · trivial
      · exact Nat.le_refl _
  | dot =>
    simp only [advance]
    split
    · next digit =>
        have one := solid_of_ne (digit_ne_space digit)
        simp only [Move.within, pending, List.length_cons, List.length_nil]
        omega
    · trivial
  | text value =>
    simp only [advance]
    split
    · next same =>
        subst same
        simp [solid]
    next other =>
      have one : doubled [c] = [c] := by simp [doubled, other]
      show solid (doubled (value ++ [c])) + 1 ≤ solid (doubled value) + 1 + solid [c]
      rw [doubled_append, one, solid_append]
      omega
  | quote value =>
    simp only [advance]
    split
    · next same =>
        subst same
        simp [doubled, solid]
    · exact Nat.le_refl _
  | «variable» read =>
    simp only [advance]
    split
    · next id =>
        have one := solid_of_ne (idChar_ne_space id)
        simp only [Move.within, pending, List.length_append, List.length_singleton]
        omega
    · split
      · trivial
      · exact Nat.le_refl _
  | dash =>
    simp only [advance]
    repeat' split
    · simp
    · trivial
    · exact Nat.le_refl _
  | comment =>
    simp only [advance]
    split
    · simp
    · simp
  | less =>
    simp only [advance]
    repeat' split
    · next same => subst same; exact Nat.le_refl _
    · next same => subst same; exact Nat.le_refl _
    · trivial
    · exact Nat.le_refl _
  | greater =>
    simp only [advance]
    repeat' split
    · next same => subst same; exact Nat.le_refl _
    · trivial
    · exact Nat.le_refl _
  | equals =>
    simp only [advance]
    split
    · exact Nat.le_add_right _ _
    · exact Nat.le_refl _
  | bang =>
    simp only [advance]
    split
    · next same => subst same; exact Nat.le_refl _
    · trivial

variable {ts : List Token}

theorem step_weight (h : step s c = some (ts, s')) :
    weight ts + pending s' ≤ pending s + solid [c] := by
  have moved := advance_within s c
  have started := first_within c
  unfold step at h
  split at h
  · next move =>
      cases h
      rw [move] at moved
      simpa using moved
  · next move =>
      cases h
      rw [move] at moved
      simpa using moved
  · next t move =>
      rw [move] at moved
      simp only [Move.within] at moved
      split at h
      · next begun =>
          cases h
          rw [begun] at started
          simp only [Move.within] at started
          simp only [weight_cons, weight_nil]
          omega
      · next begun =>
          cases h
          rw [begun] at started
          simp only [Move.within] at started
          simp only [weight_cons, weight_nil, show pending .gap = 0 from rfl]
          omega
      · cases h
      · cases h
  · cases h

theorem finish_weight (h : finish s = some ts) : weight ts ≤ pending s := by
  cases s with
  | word =>
    simp only [finish, Option.map_eq_some_iff] at h
    obtain ⟨t, found, rfl⟩ := h
    simp [wordToken_weight found]
  | number =>
    simp only [finish] at h
    split at h
    · cases h
      simp [Token.weight]
    · cases h
  | «variable» read =>
    simp only [finish] at h
    split at h
    · cases h
    · cases h
      simp [Token.weight]
  | dot | text | bang => cases h
  | gap | comment | quote | dash | less | greater | equals =>
    cases h
    simp [Token.weight]

theorem weight_le (h : lexFrom s cs = some ts) : weight ts ≤ pending s + solid cs := by
  induction cs generalizing s ts with
  | nil =>
    rw [lexFrom] at h
    exact finish_weight h
  | cons c cs ih =>
    rw [lexFrom] at h
    split at h
    · cases h
    next ts' s' moved =>
      obtain ⟨rest, read, rfl⟩ := Option.map_eq_some_iff.mp h
      have here := step_weight moved
      have later := ih read
      rw [weight_append, solid_cons]
      omega

/-- A name that has been read is no keyword and not reserved. -/
def Token.isRead : Token → Prop
  | .word name => wordToken name = some (.word name)
  | _ => True

theorem wordToken_isRead {w : List Char} (h : wordToken w = some t) : t.isRead := by
  have again := h
  unfold wordToken at h
  split at h
  · cases h
    trivial
  · split at h
    · cases h
    · cases h
      exact again

theorem first_isRead (h : first c = .token t) : t.isRead := by
  unfold first at h
  split at h
  case h_18 =>
    split at h
    · cases h
    · split at h
      · cases h
      · cases h
  all_goals
    cases h
    try trivial

theorem advance_isRead (h : advance s c = .token t ∨ advance s c = .before t) : t.isRead := by
  cases s with
  | gap =>
    rcases h with h | h
    · exact first_isRead h
    · exact absurd h (first_ne_before c t)
  | word read =>
    simp only [advance] at h
    split at h
    · rcases h with h | h <;> cases h
    split at h
    · rcases h with h | h <;> cases h
    split at h
    · rcases h with h | h <;> cases h
    · next found =>
        rcases h with h | h
        · cases h
        · cases h
          exact wordToken_isRead found
  | number | dot | text | quote | «variable» | dash | comment | less | greater | equals | bang =>
    simp only [advance] at h
    repeat' split at h
    all_goals
      rcases h with h | h
      all_goals
        cases h
        try trivial

theorem finish_isRead (h : finish s = some ts) : ∀ t ∈ ts, t.isRead := by
  intro t mem
  cases s with
  | word =>
    simp only [finish, Option.map_eq_some_iff] at h
    obtain ⟨u, found, rfl⟩ := h
    obtain rfl : t = u := List.mem_singleton.mp mem
    exact wordToken_isRead found
  | number | «variable» =>
    simp only [finish] at h
    split at h
    all_goals cases h
    all_goals
      obtain rfl := List.mem_singleton.mp mem
      trivial
  | dot | text | bang => cases h
  | gap | comment => cases h; cases mem
  | quote | dash | less | greater | equals =>
    cases h
    obtain rfl := List.mem_singleton.mp mem
    trivial

theorem lexFrom_isRead (h : lexFrom s cs = some ts) : ∀ t ∈ ts, t.isRead := by
  induction cs generalizing s ts with
  | nil => exact finish_isRead h
  | cons c cs ih =>
    rw [lexFrom] at h
    split at h
    · cases h
    next emitted s' moved =>
      obtain ⟨rest, read, rfl⟩ := Option.map_eq_some_iff.mp h
      have here : ∀ t ∈ emitted, t.isRead := by
        unfold step at moved
        split at moved
        · cases moved
          simp
        · next move =>
            cases moved
            intro t mem
            obtain rfl := List.mem_singleton.mp mem
            exact advance_isRead (.inl move)
        · next u move =>
            have before : u.isRead := advance_isRead (.inr move)
            split at moved
            · cases moved
              intro t mem
              obtain rfl := List.mem_singleton.mp mem
              exact before
            · next begun =>
                cases moved
                intro t mem
                rcases List.mem_cons.mp mem with rfl | mem
                · exact before
                · obtain rfl := List.mem_singleton.mp mem
                  exact first_isRead begun
            · cases moved
            · cases moved
        · cases moved
      intro t mem
      rcases List.mem_append.mp mem with mem | mem
      · exact here t mem
      · exact ih read t mem

end RssMdm.Lib.Sqlite
