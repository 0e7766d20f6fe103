/- module: Lib/SqliteWriting
   generality: library
   digest: Selections written out with one space between their parts. -/

import RssMdm.Lib.SqliteParser
import RssMdm.Lib.SqliteSpelling

set_option autoImplicit false

namespace RssMdm.Lib.Sqlite

def Binary.pieces : Binary → List Piece
  | .isNot => [some (.keyword .is), none, some (.keyword .not)]
  | op => op.tokens.map some

/-- Signs stand directly before their operand. -/
def Unary.pieces : Unary → List Piece
  | .not => [some (.keyword .not), none]
  | .minus => [some .minus]
  | .plus => [some .plus]

def inPieces (negated : Bool) : List Piece :=
  if negated then [some (.keyword .not), none, some (.keyword .in)] else [some (.keyword .in)]

mutual

def Expr.pieces : Expr → List Piece
  | .word name => [some (.word name)]
  | .null => [some (.keyword .null)]
  | .text value => [some (.text value)]
  | .number digits => [some (.number digits)]
  | .variable name => [some (.variable name)]
  | .paren e => some .opening :: (e.pieces ++ [some .closing])
  | .call name arguments =>
      some (.word name) :: some .opening :: (listPieces arguments ++ [some .closing])
  | .unary op e => op.pieces ++ e.pieces
  | .binary op left right => left.pieces ++ none :: (op.pieces ++ none :: right.pieces)
  | .member negated e items => e.pieces ++ none :: (inPieces negated ++ none :: some .opening ::
      (listPieces items ++ [some .closing]))

def listPieces : List Expr → List Piece
  | [] => []
  | e :: es => e.pieces ++ morePieces es

def morePieces : List Expr → List Piece
  | [] => []
  | e :: es => some .comma :: none :: (e.pieces ++ morePieces es)

end

def Item.pieces (item : Item) : List Piece :=
  item.expr.pieces ++
    match item.name with
    | none => []
    | some name => [none, some (.keyword .as), none, some (.word name)]

def itemPieces : List Item → List Piece
  | [] => []
  | [item] => item.pieces
  | item :: items => item.pieces ++ some .comma :: none :: itemPieces items

def conditionPieces : Option Expr → List Piece
  | none => []
  | some e => none :: some (.keyword .where) :: none :: e.pieces

def limitPieces : Option (List Char) → List Piece
  | none => []
  | some n => [none, some (.keyword .limit), none, some (.number n)]

def Selection.pieces (s : Selection) : List Piece :=
  some (.keyword .select) :: none :: (itemPieces s.items ++ none :: some (.keyword .from) :: none ::
    some (.word s.table) :: (conditionPieces s.condition ++ limitPieces s.limit))

@[simp] theorem tokens_nil : tokens [] = [] := rfl

@[simp] theorem tokens_space (ps : List Piece) : tokens (none :: ps) = tokens ps := rfl

@[simp] theorem tokens_some (t : Token) (ps : List Piece) : tokens (some t :: ps) = t :: tokens ps :=
  rfl

@[simp] theorem tokens_append (ps qs : List Piece) : tokens (ps ++ qs) = tokens ps ++ tokens qs :=
  List.filterMap_append

theorem tokens_binary (op : Binary) : tokens op.pieces = op.tokens := by
  cases op with
  | or | and | eq | ne | is | isNot | lt | le | gt | ge => rfl

theorem tokens_in (negated : Bool) : tokens (inPieces negated) = inTokens negated := by
  cases negated with
  | true | false => rfl

mutual

theorem tokens_pieces : ∀ e : Expr, tokens e.pieces = e.tokens
  | .word _ | .null | .text _ | .number _ | .variable _ => rfl
  | .paren e => by simp [Expr.pieces, Expr.tokens, tokens_pieces e]
  | .call name arguments => by simp [Expr.pieces, Expr.tokens, tokens_list arguments]
  | .unary op e => by
      cases op with
      | not | minus | plus => simp [Expr.pieces, Expr.tokens, Unary.pieces, Unary.token, tokens_pieces e]
  | .binary op left right => by
      simp [Expr.pieces, Expr.tokens, tokens_binary, tokens_pieces left, tokens_pieces right]
  | .member negated e items => by
      simp [Expr.pieces, Expr.tokens, tokens_in, tokens_pieces e, tokens_list items]

theorem tokens_list : ∀ es : List Expr, tokens (listPieces es) = listTokens es
  | [] => rfl
  | e :: es => by simp [listPieces, listTokens, tokens_pieces e, tokens_more es]

theorem tokens_more : ∀ es : List Expr, tokens (morePieces es) = moreTokens es
  | [] => rfl
  | e :: es => by simp [morePieces, moreTokens, tokens_pieces e, tokens_more es]

end

theorem tokens_item (item : Item) : tokens item.pieces = item.tokens := by
  obtain ⟨e, name⟩ := item
  cases name with
  | none | some => simp [Item.pieces, Item.tokens, tokens_pieces]

theorem tokens_items : ∀ items : List Item, tokens (itemPieces items) = itemTokens items
  | [] => rfl
  | [item] => tokens_item item
  | item :: next :: items => by
      simp [itemPieces, itemTokens, tokens_item, tokens_items (next :: items)]

theorem tokens_selection (s : Selection) : tokens s.pieces = s.tokens := by
  obtain ⟨items, table, condition, limit⟩ := s
  have behind : tokens (conditionPieces condition) = conditionTokens condition := by
    cases condition with
    | none => rfl
    | some => simp [conditionPieces, conditionTokens, tokens_pieces]
  have last : tokens (limitPieces limit) = limitTokens limit := by
    cases limit with
    | none | some => rfl
  simp [Selection.pieces, Selection.tokens, tokens_items, behind, last]

/-- Pieces that may stand next to each other. -/
def Spaced (ps : List Piece) : Prop := ps.IsChain (fun p q => adjacent p q = true)

theorem adjacent_delimiter (p : Piece) {q : Piece} (h : isDelimiter q = true) :
    adjacent p q = true := by
  rcases p with _ | t
  · rfl
  cases t with
  | minus =>
    rcases q with _ | u
    · rfl
    cases u with
    | opening | closing | comma => rfl
    | keyword | word | text | number | «variable» | minus | plus | eq | ne | lt | le | gt | ge =>
      cases h
  | opening | closing | comma | plus => rfl
  | keyword | word | text | number | «variable» | eq | ne | lt | le | gt | ge => exact h

theorem delimiter_adjacent {p : Piece} (h : isDelimiter p = true) (q : Piece) :
    adjacent p q = true := by
  rcases p with _ | t
  · rfl
  · cases t with
    | opening | closing | comma => rfl
    | keyword | word | text | number | «variable» | minus | plus | eq | ne | lt | le | gt | ge => cases h

theorem Spaced.cons {d : Piece} {ps : List Piece} (h : isDelimiter d = true) (spaced : Spaced ps) :
    Spaced (d :: ps) :=
  List.isChain_cons.mpr ⟨fun q _ => delimiter_adjacent h q, spaced⟩

theorem Spaced.append {d : Piece} {ps qs : List Piece} (first : Spaced ps)
    (h : isDelimiter d = true) (second : Spaced qs) : Spaced (ps ++ d :: qs) := by
  refine List.isChain_append.mpr ⟨first, second.cons h, ?_⟩
  intro p _ q mem
  obtain rfl : d = q := Option.some.inj mem
  exact adjacent_delimiter p h

theorem spaced_singleton (p : Piece) : Spaced [p] := List.isChain_singleton p

theorem spaced_nil : Spaced [] := List.isChain_nil

theorem spaced_binary (op : Binary) : Spaced op.pieces := by
  cases op with
  | or | and | eq | ne | is | lt | le | gt | ge => exact spaced_singleton _
  | isNot =>
    exact .append (spaced_singleton _) rfl (spaced_singleton _)

theorem spaced_in (negated : Bool) : Spaced (inPieces negated) := by
  cases negated with
  | true => exact .append (spaced_singleton _) rfl (spaced_singleton _)
  | false => exact spaced_singleton _

theorem head_pieces : ∀ (e : Expr) (p : Piece) (rest : List Piece), p ∈ (e.pieces ++ rest).head? →
    p ≠ some .gt ∧ p ≠ some .ge
  | .binary op left right, p, rest, mem => by
      rw [Expr.pieces, List.append_assoc] at mem
      exact head_pieces left p _ mem
  | .member negated e items, p, rest, mem => by
      rw [Expr.pieces, List.append_assoc] at mem
      exact head_pieces e p _ mem
  | .unary .not _, _, _, rfl | .unary .minus _, _, _, rfl | .unary .plus _, _, _, rfl
  | .word _, _, _, rfl | .null, _, _, rfl | .text _, _, _, rfl | .number _, _, _, rfl
  | .variable _, _, _, rfl | .paren _, _, _, rfl | .call _ _, _, _, rfl => ⟨nofun, nofun⟩

mutual

theorem spaced_pieces : ∀ e : Expr, Spaced e.pieces
  | .word _ | .null | .text _ | .number _ | .variable _ => spaced_singleton _
  | .paren e => ((spaced_pieces e).append rfl spaced_nil).cons rfl
  | .call name arguments => by
      refine .append (spaced_singleton (some (.word name))) rfl ?_
      exact (spaced_list arguments).append rfl spaced_nil
  | .unary .not e => .append (spaced_singleton _) rfl (spaced_pieces e)
  | .unary .minus e => by
      refine List.isChain_cons.mpr ⟨?_, spaced_pieces e⟩
      intro p mem
      obtain ⟨gt, ge⟩ := head_pieces e p [] (by rwa [List.append_nil])
      simp [adjacent, gt, ge]
  | .unary .plus e => List.isChain_cons.mpr ⟨fun _ _ => rfl, spaced_pieces e⟩
  | .binary op left right => by
      refine (spaced_pieces left).append rfl ?_
      exact (spaced_binary op).append rfl (spaced_pieces right)
  | .member negated e items => by
      refine (spaced_pieces e).append rfl ((spaced_in negated).append rfl ?_)
      exact ((spaced_list items).append rfl spaced_nil).cons rfl

theorem spaced_list : ∀ es : List Expr, Spaced (listPieces es)
  | [] => spaced_nil
  | e :: es => spaced_more es (spaced_pieces e)

theorem spaced_more : ∀ (es : List Expr) {ps : List Piece}, Spaced ps → Spaced (ps ++ morePieces es)
  | [], ps, spaced => by
      rw [morePieces, List.append_nil]
      exact spaced
  | e :: es, _, spaced => spaced.append rfl ((spaced_more es (spaced_pieces e)).cons rfl)

end

theorem spaced_item (item : Item) : Spaced item.pieces := by
  obtain ⟨e, name⟩ := item
  cases name with
  | none => simpa [Item.pieces] using spaced_pieces e
  | some =>
    refine (spaced_pieces e).append rfl ?_
    exact .append (spaced_singleton _) rfl (spaced_singleton _)

theorem spaced_items : ∀ items : List Item, Spaced (itemPieces items)
  | [] => spaced_nil
  | [item] => spaced_item item
  | item :: next :: items => (spaced_item item).append rfl ((spaced_items (next :: items)).cons rfl)

theorem spaced_selection (s : Selection) : Spaced s.pieces := by
  obtain ⟨items, table, condition, limit⟩ := s
  refine .append (spaced_singleton (some (.keyword .select))) rfl ?_
  refine (spaced_items items).append rfl ?_
  refine .append (spaced_singleton (some (.keyword .from))) rfl ?_
  have bound : Spaced (some (.word table) :: conditionPieces condition) := by
    cases condition with
    | none => exact spaced_singleton _
    | some e =>
      refine .append (spaced_singleton (some (.word table))) rfl ?_
      exact .append (spaced_singleton (some (.keyword .where))) rfl (spaced_pieces e)
  cases limit with
  | none => simpa [limitPieces] using bound
  | some =>
    refine .append bound rfl ?_
    exact .append (spaced_singleton (some (.keyword .limit))) rfl (spaced_singleton _)

end RssMdm.Lib.Sqlite
