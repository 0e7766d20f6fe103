/- module: Lib/SqliteNesting
   generality: library
   digest: The reader accepts exactly the tokens of trees whose operators nest by precedence. -/

import RssMdm.Lib.SqliteParser

set_option autoImplicit false

namespace RssMdm.Lib.Sqlite

open List (all_append append_assoc append_nil cons_append cons_ne_nil nil_append singleton_append)
open Bool (and_eq_true)

section

/-- The operators still open once the tokens of an expression are read. -/
def Expr.spine : Expr → List Frame
  | .unary op e => e.spine ++ [.unary op]
  | .binary op left right => right.spine ++ [.binary op left]
  | _ => []

def Expr.edge : Expr → Expr
  | .unary _ e => e.edge
  | .binary _ _ right => right.edge
  | e => e

/-- The level of the innermost open operator. -/
def floor : List Frame → Nat
  | .unary op :: _ => op.level
  | .binary op _ :: _ => op.level
  | _ => 0

theorem reduce_spine (level : Nat) : ∀ (e : Expr) (stack : List Frame), e.yields level = true →
    reduce level (e.spine ++ stack) e.edge = reduce level stack e
  | .unary op e, stack, h => by
      simp only [Expr.yields, and_eq_true, decide_eq_true_eq] at h
      rw [Expr.spine, Expr.edge, append_assoc, reduce_spine level e _ h.2,
        singleton_append, reduce, if_pos h.1]
  | .binary op left right, stack, h => by
      simp only [Expr.yields, and_eq_true, decide_eq_true_eq] at h
      rw [Expr.spine, Expr.edge, append_assoc, reduce_spine level right _ h.2,
        singleton_append, reduce, if_pos h.1]
  | .word _, _, _ | .null, _, _ | .text _, _, _ | .number _, _, _ | .variable _, _, _
  | .paren _, _, _ | .call _ _, _, _ | .member _ _ _, _, _ => rfl

variable {stack : List Frame}

theorem reduce_of_floor {level : Nat} (e : Expr) (h : floor stack < level) :
    reduce level stack e = (stack, e) := by
  rcases stack with _ | ⟨frame, stack⟩
  · rfl
  cases frame with
  | unary | binary =>
    exact if_neg (Nat.not_le_of_lt h)
  | paren | call | member | item | condition => rfl

/-- An operator that the expression yields to, and that binds more strongly than what is open,
takes the whole expression. -/
theorem reduce_operand {level : Nat} {e : Expr} (yields : e.yields level = true)
    (floor : floor stack < level) : reduce level (e.spine ++ stack) e.edge = (stack, e) := by
  rw [reduce_spine level e stack yields, reduce_of_floor e floor]

theorem yields_zero : ∀ e : Expr, e.yields 0 = true
  | .unary op e => by
      rw [Expr.yields, yields_zero e]
      rfl
  | .binary op left right => by
      rw [Expr.yields, yields_zero right]
      rfl
  | .word _ | .null | .text _ | .number _ | .variable _ | .paren _ | .call _ _
  | .member _ _ _ => rfl

def Frame.encloses : Frame → Bool
  | .unary _ | .binary _ _ => false
  | _ => true

variable {frame : Frame}

theorem reduce_enclosed (h : frame.encloses = true) (e : Expr) (stack : List Frame) :
    reduce 0 (e.spine ++ frame :: stack) e.edge = (frame :: stack, e) := by
  rw [reduce_spine 0 e _ (yields_zero e)]
  cases frame with
  | unary | binary => cases h
  | paren | call | member | item | condition => rfl

theorem Reader.run_cons {r r' : Reader} {t : Token} (h : r.step t = some r') (ts : List Token) :
    r.run (t :: ts) = r'.run ts := by
  rw [Reader.run, h, Option.bind_some]

theorem head_not (p : Nat) (strong : memberLevel ≤ p) : ∀ (e : Expr) (ts : List Token),
    e.nests p = true → (e.tokens ++ ts).head? = some (.keyword .not) → e.isNegation = true
  | .unary .not _, _, _, _ => rfl
  | .unary .minus _, _, _, h | .unary .plus _, _, _, h => by cases h
  | .binary op left right, ts, nests, h => by
      simp only [Expr.nests, and_eq_true, decide_eq_true_eq] at nests
      obtain ⟨⟨⟨⟨above, nests⟩, yields⟩, _⟩, _⟩ := nests
      rw [Expr.tokens, append_assoc] at h
      have negation := head_not p strong left _ nests h
      cases left with
      | unary inner =>
        cases inner with
        | not =>
          simp only [Expr.yields, and_eq_true, decide_eq_true_eq] at yields
          have weak : Unary.not.level = 3 := rfl
          have level : memberLevel = 4 := rfl
          omega
        | minus | plus => cases negation
      | word | null | text | number | «variable» | paren | call | binary | member => cases negation
  | .member _ _ _, _, nests, _ => by
      simp only [Expr.nests, and_eq_true, decide_eq_true_eq] at nests
      omega
  | .word _, _, _, h | .null, _, _, h | .text _, _, _, h | .number _, _, _, h
  | .variable _, _, _, h | .paren _, _, _, h | .call _ _, _, _, h => by cases h

theorem tokens_ne_nil : ∀ e : Expr, e.tokens ≠ []
  | .binary op left right => by
      exact List.append_ne_nil_of_left_ne_nil (tokens_ne_nil left) _
  | .member negated e items => by
      exact List.append_ne_nil_of_left_ne_nil (tokens_ne_nil e) _
  | .word _ | .null | .text _ | .number _ | .variable _ | .paren _ | .call _ _ | .unary _ _ => by
      exact cons_ne_nil _ _

/-- The tokens that end a bracket, a list or a clause. -/
def Token.ends : Token → Bool
  | .closing | .comma | .keyword .as | .keyword .from | .keyword .limit => true
  | _ => false

theorem step_ends {t : Token} (h : t.ends = true) (encloses : frame.encloses = true) (e : Expr)
    (stack : List Frame) :
    (Reader.mk (e.spine ++ frame :: stack) (.ready e.edge)).step t = close (frame :: stack) e t := by
  have reduced := reduce_enclosed encloses e stack
  cases t with
  | closing | comma => simp only [Reader.step, proceed, binaryOf, reduced]
  | keyword k =>
    cases k with
    | as | «from» | limit => simp only [Reader.step, proceed, binaryOf, reduced]
    | select | «where» | and | or | not | is | null | «in» => cases h
  | word | text | number | «variable» | minus | plus | eq | ne | lt | le | gt | ge | opening => cases h

theorem floor_encloses (h : frame.encloses = true) (stack : List Frame) :
    floor (frame :: stack) = 0 := by
  cases frame with
  | unary | binary => cases h
  | paren | call | member | item | condition => rfl

variable {left : Expr}

theorem step_binary {t : Token} {op : Binary} (token : binaryOf t = some op)
    (yields : left.yields op.level = true) (above : floor stack < op.level) :
    (Reader.mk (left.spine ++ stack) (.ready left.edge)).step t =
      some ⟨.binary op left :: stack, .operand false⟩ := by
  simp only [Reader.step, proceed, token, reduce_operand yields above]

theorem step_is (yields : left.yields Binary.is.level = true)
    (above : floor stack < Binary.is.level) :
    (Reader.mk (left.spine ++ stack) (.ready left.edge)).step (.keyword .is) =
      some ⟨stack, .is left⟩ := by
  simp only [Reader.step, proceed, binaryOf, reduce_operand yields above]

theorem run_in {e : Expr} (yields : e.yields memberLevel = true) (above : floor stack < memberLevel)
    (negated : Bool) (rest : List Token) :
    (Reader.mk (e.spine ++ stack) (.ready e.edge)).run
        (inTokens negated ++ .opening :: rest) =
      (Reader.mk (.member negated e [] :: stack) (.operand true)).run rest := by
  have reduced := reduce_operand yields above
  cases negated with
  | false =>
    have first : (Reader.mk (e.spine ++ stack) (.ready e.edge)).step (.keyword .in) =
        some ⟨stack, .members false e⟩ := by
      simp only [Reader.step, proceed, binaryOf, reduced]
    exact (Reader.run_cons first _).trans (Reader.run_cons rfl _)
  | true =>
    have first : (Reader.mk (e.spine ++ stack) (.ready e.edge)).step (.keyword .not) =
        some ⟨stack, .notIn e⟩ := by
      simp only [Reader.step, proceed, binaryOf, reduced]
    exact (Reader.run_cons first _).trans ((Reader.run_cons rfl _).trans (Reader.run_cons rfl _))

theorem run_is {right : Expr} (rest : List Token) (nests : right.nests Binary.is.level = true)
    (other : right.isNegation = false) :
    (Reader.mk stack (.is left)).run (right.tokens ++ rest) =
      (Reader.mk (.binary .is left :: stack) (.operand false)).run (right.tokens ++ rest) := by
  have head := head_not Binary.is.level (Nat.le_refl _) right rest nests
  rcases tokens : right.tokens ++ rest with _ | ⟨t, ts⟩
  · exact absurd (List.append_eq_nil_iff.mp tokens).1 (tokens_ne_nil right)
  have different : t ≠ .keyword .not := by
    rintro rfl
    rw [tokens] at head
    rw [head rfl] at other
    cases other
  rw [Reader.run, Reader.run]
  simp only [Reader.step, if_neg different]

mutual

theorem run_expr : ∀ (e : Expr) (stack : List Frame) (closes : Bool) (rest : List Token),
    e.nests (floor stack) = true →
    (Reader.mk stack (.operand closes)).run (e.tokens ++ rest) =
      (Reader.mk (e.spine ++ stack) (.ready e.edge)).run rest
  | .word _, _, _, _, _ | .null, _, _, _, _ | .text _, _, _, _, _
  | .number _, _, _, _, _ | .variable _, _, _, _, _ => Reader.run_cons rfl _
  | .paren e, stack, _, rest, nests => by
      rw [Expr.tokens, cons_append, append_assoc, Reader.run_cons rfl,
        run_expr e (.paren :: stack) false _ nests]
      exact Reader.run_cons (step_ends rfl rfl e stack) _
  | .call name [], stack, _, rest, _ => (Reader.run_cons rfl _).trans
      ((Reader.run_cons rfl _).trans (Reader.run_cons rfl _))
  | .call name (e :: es), stack, _, rest, nests => by
      simp only [Expr.nests, allNest, and_eq_true] at nests
      rw [Expr.tokens, cons_append, cons_append, Reader.run_cons rfl,
        Reader.run_cons rfl, listTokens, append_assoc, append_assoc,
        run_expr e (.call name [] :: stack) true _ nests.1]
      exact run_list es (.call name) (.call name) (fun _ => rfl) (fun _ _ _ => rfl)
        (fun _ _ _ => rfl) [] e stack rest nests.2
  | .unary op e, stack, _, rest, nests => by
      have first : ∀ closes, (Reader.mk stack (.operand closes)).step op.token =
          some ⟨.unary op :: stack, .operand false⟩ := by
        intro closes
        cases op with
        | not | minus | plus => rfl
      rw [Expr.tokens, cons_append, Reader.run_cons (first _),
        run_expr e (.unary op :: stack) false rest nests, Expr.spine, Expr.edge, append_assoc]
      rfl
  | .binary op left right, stack, closes, rest, nests => by
      simp only [Expr.nests, and_eq_true, decide_eq_true_eq, Bool.not_eq_true'] at nests
      obtain ⟨⟨⟨⟨above, leftNests⟩, yields⟩, rightNests⟩, other⟩ := nests
      have whole := run_expr right (.binary op left :: stack) false rest rightNests
      rw [Expr.tokens, append_assoc, append_assoc,
        run_expr left stack closes _ leftNests, Expr.spine, Expr.edge, append_assoc,
        singleton_append, ← whole]
      cases op with
      | or | and | eq | ne | lt | le | gt | ge => exact Reader.run_cons (step_binary rfl yields above) _
      | is =>
        refine (Reader.run_cons (step_is yields above) _).trans ?_
        exact run_is rest rightNests (by simpa using other)
      | isNot =>
        exact (Reader.run_cons (step_is yields above) _).trans (Reader.run_cons rfl _)
  | .member negated e [], stack, closes, rest, nests => by
      simp only [Expr.nests, and_eq_true, decide_eq_true_eq] at nests
      obtain ⟨⟨⟨above, eNests⟩, yields⟩, _⟩ := nests
      rw [Expr.tokens, append_assoc, append_assoc, run_expr e stack closes _ eNests,
        cons_append, run_in yields above]
      exact Reader.run_cons rfl _
  | .member negated e (i :: is), stack, closes, rest, nests => by
      simp only [Expr.nests, allNest, and_eq_true, decide_eq_true_eq] at nests
      obtain ⟨⟨⟨above, eNests⟩, yields⟩, iNests, isNest⟩ := nests
      rw [Expr.tokens, append_assoc, append_assoc, run_expr e stack closes _ eNests,
        cons_append, run_in yields above, listTokens, append_assoc, append_assoc,
        run_expr i (.member negated e [] :: stack) true _ iNests]
      exact run_list is (.member negated e) (.member negated e) (fun _ => rfl) (fun _ _ _ => rfl)
        (fun _ _ _ => rfl) [] i stack rest isNest

theorem run_list : ∀ (es : List Expr) (opened : List Expr → Frame) (closed : List Expr → Expr)
    (_ : ∀ done, (opened done).encloses = true)
    (_ : ∀ done stack e, close (opened done :: stack) e .comma =
      some ⟨opened (done ++ [e]) :: stack, .operand false⟩)
    (_ : ∀ done stack e, close (opened done :: stack) e .closing =
      some ⟨stack, .ready (closed (done ++ [e]))⟩)
    (done : List Expr) (e : Expr) (stack : List Frame) (rest : List Token), allNest es = true →
    (Reader.mk (e.spine ++ opened done :: stack) (.ready e.edge)).run
        (moreTokens es ++ ([.closing] ++ rest)) =
      (Reader.mk stack (.ready (closed (done ++ e :: es)))).run rest
  | [], opened, closed, encloses, _, closing, done, e, stack, rest, _ => by
      exact Reader.run_cons ((step_ends rfl (encloses done) e stack).trans (closing done stack e)) _
  | e' :: es, opened, closed, encloses, comma, closing, done, e, stack, rest, nests => by
      simp only [allNest, and_eq_true] at nests
      rw [moreTokens, cons_append, append_assoc,
        Reader.run_cons ((step_ends rfl (encloses done) e stack).trans (comma done stack e)),
        run_expr e' (opened (done ++ [e]) :: stack) false _
          (by rw [floor_encloses (encloses _)]; exact nests.1),
        run_list es opened closed encloses comma closing (done ++ [e]) e' stack rest nests.2,
        append_assoc, singleton_append]

end

theorem run_item {item : Item} (nests : item.expr.nests 0 = true) (done : List Item)
    (rest : List Token) :
    (Reader.mk [.item done] (.operand false)).run (item.tokens ++ .comma :: rest) =
        (Reader.mk [.item (done ++ [item])] (.operand false)).run rest ∧
      (Reader.mk [.item done] (.operand false)).run (item.tokens ++ .keyword .from :: rest) =
        (Reader.mk [] (.table (done ++ [item]))).run rest := by
  obtain ⟨e, name⟩ := item
  have first := fun rest => run_expr e [.item done] false rest nests
  cases name with
  | none =>
    simp only [Item.tokens, append_nil, first]
    exact ⟨Reader.run_cons (step_ends rfl rfl e []) _, Reader.run_cons (step_ends rfl rfl e []) _⟩
  | some =>
    simp only [Item.tokens, append_assoc, first, cons_append, nil_append]
    constructor
    · exact (Reader.run_cons (step_ends rfl rfl e []) _).trans
        ((Reader.run_cons rfl _).trans (Reader.run_cons rfl _))
    · exact (Reader.run_cons (step_ends rfl rfl e []) _).trans
        ((Reader.run_cons rfl _).trans (Reader.run_cons rfl _))

theorem run_items {items : List Item} (some : items ≠ [])
    (nests : items.all (fun item => item.expr.nests 0) = true) (done : List Item)
    (rest : List Token) :
    (Reader.mk [.item done] (.operand false)).run (itemTokens items ++ .keyword .from :: rest) =
      (Reader.mk [] (.table (done ++ items))).run rest := by
  induction items generalizing done with
  | nil => exact absurd rfl some
  | cons item items ih =>
    rw [List.all_cons, and_eq_true] at nests
    cases items with
    | nil => exact (run_item nests.1 done rest).2
    | cons =>
      rw [itemTokens, append_assoc, cons_append, (run_item nests.1 done _).1,
        ih (cons_ne_nil _ _) nests.2, append_assoc, singleton_append]
      exact cons_ne_nil _ _

theorem parse_tokens {s : Selection} (nests : s.nests = true) : parse s.tokens = some s := by
  obtain ⟨items, table, condition, limit⟩ := s
  simp only [Selection.nests, and_eq_true, Bool.not_eq_true', List.isEmpty_eq_false_iff] at nests
  obtain ⟨⟨nonempty, itemsNest⟩, conditionNests⟩ := nests
  rw [parse, Selection.tokens, Reader.run_cons rfl, run_items nonempty itemsNest, nil_append,
    Reader.run_cons rfl]
  cases condition with
  | none =>
    cases limit with
    | none | some => rfl
  | some e =>
    have whole := fun rest => run_expr e [.condition items table] false rest conditionNests
    rw [conditionTokens, cons_append, Reader.run_cons rfl, whole]
    cases limit with
    | none =>
      show Reader.finish ⟨e.spine ++ [Frame.condition items table], .ready e.edge⟩ = _
      have reduced := reduce_enclosed (show (Frame.condition items table).encloses = true from rfl)
        e []
      simp only [Reader.finish, reduced]
    | some n =>
      show ((Reader.mk (e.spine ++ [Frame.condition items table]) (.ready e.edge)).run
        (.keyword .limit :: [.number n])).bind _ = _
      rw [Reader.run_cons (step_ends rfl rfl e [])]
      rfl

end

section

def doneTokens (done : List Expr) : List Token := done.flatMap (fun e => e.tokens ++ [.comma])

def doneItems (done : List Item) : List Token := done.flatMap (fun item => item.tokens ++ [.comma])

theorem doneTokens_snoc (done : List Expr) (e : Expr) :
    doneTokens (done ++ [e]) = doneTokens done ++ (e.tokens ++ [.comma]) := by
  simp [doneTokens]

theorem moreTokens_snoc (es : List Expr) (e : Expr) :
    moreTokens (es ++ [e]) = moreTokens es ++ (.comma :: e.tokens) := by
  induction es with
  | nil => simp [moreTokens]
  | cons _ _ ih => simp [moreTokens, ih]

theorem doneTokens_eq (e : Expr) (es : List Expr) :
    doneTokens (e :: es) = e.tokens ++ moreTokens es ++ [.comma] := by
  induction es generalizing e with
  | nil => simp [doneTokens, moreTokens]
  | cons e' es ih =>
    have later := ih e'
    have head : doneTokens (e :: e' :: es) = e.tokens ++ [Token.comma] ++ doneTokens (e' :: es) := rfl
    rw [head, later, moreTokens]
    simp

theorem listTokens_snoc (done : List Expr) (e : Expr) :
    listTokens (done ++ [e]) = doneTokens done ++ e.tokens := by
  cases done with
  | nil => simp [listTokens, moreTokens, doneTokens]
  | cons =>
    rw [cons_append, listTokens, moreTokens_snoc, doneTokens_eq]
    simp

theorem itemTokens_snoc (done : List Item) (item : Item) :
    itemTokens (done ++ [item]) = doneItems done ++ item.tokens := by
  induction done with
  | nil => simp [itemTokens, doneItems]
  | cons item' items ih =>
    rcases rest : items ++ [item] with _ | ⟨next, more⟩
    · simp at rest
    · rw [cons_append, rest, itemTokens, ← rest, ih]
      · simp [doneItems]
      · exact cons_ne_nil _ _

variable {e : Expr}

theorem allNest_snoc {done : List Expr} (h : allNest done = true) (nests : e.nests 0 = true) :
    allNest (done ++ [e]) = true := by
  induction done with
  | nil => simp [allNest, nests]
  | cons _ _ ih =>
    simp only [allNest, and_eq_true, cons_append] at h ⊢
    exact ⟨h.1, ih h.2⟩

def Frame.tokens : Frame → List Token
  | .unary op => [op.token]
  | .binary op left => left.tokens ++ op.tokens
  | .paren => [.opening]
  | .call name done => .word name :: .opening :: doneTokens done
  | .member negated e done => e.tokens ++ (inTokens negated ++ .opening :: doneTokens done)
  | .item done => .keyword .select :: doneItems done
  | .condition items table =>
      .keyword .select :: (itemTokens items ++ [.keyword .from, .word table, .keyword .where])

def stackTokens : List Frame → List Token
  | [] => []
  | frame :: stack => stackTokens stack ++ frame.tokens

def Mode.tokens : Mode → List Token
  | .start | .operand _ => []
  | .ready e => e.tokens
  | .is left => left.tokens ++ [.keyword .is]
  | .notIn e => e.tokens ++ [.keyword .not]
  | .members negated e => e.tokens ++ inTokens negated
  | .naming e => e.tokens ++ [.keyword .as]
  | .named item => item.tokens
  | .table items => .keyword .select :: (itemTokens items ++ [.keyword .from])
  | .tabled items source => .keyword .select :: (itemTokens items ++ [.keyword .from, .word source])
  | .limit items source condition =>
      Selection.tokens ⟨items, source, condition, none⟩ ++ [.keyword .limit]
  | .done s => s.tokens

def Reader.tokens (r : Reader) : List Token := stackTokens r.stack ++ r.mode.tokens

def awaitsRight : List Frame → Bool
  | .binary .is _ :: _ => true
  | _ => false

/-- The innermost frame nests behind those below it. -/
def Frame.sound (stack : List Frame) : Frame → Prop
  | .unary op => ¬(op = .not ∧ awaitsRight stack = true)
  | .binary op left =>
      floor stack < op.level ∧ left.nests (floor stack) = true ∧ left.yields op.level = true
  | .paren => True
  | .call _ done => allNest done = true
  | .member _ e done => floor stack < memberLevel ∧ e.nests (floor stack) = true ∧
      e.yields memberLevel = true ∧ allNest done = true
  | .item done => stack = [] ∧ done.all (fun item => item.expr.nests 0) = true
  | .condition items _ => stack = [] ∧ items ≠ [] ∧ items.all (fun item => item.expr.nests 0) = true

def soundStack : List Frame → Prop
  | [] => True
  | frame :: stack => soundStack stack ∧ frame.sound stack

structure Rests (stack : List Frame) (e : Expr) : Prop where
  stack_sound : soundStack stack
  nests : e.nests (floor stack) = true
  right : awaitsRight stack = true → e.isNegation = false

/-- An expression that ends with a bracket or a single token. -/
def Expr.closed : Expr → Bool
  | .unary _ _ | .binary _ _ _ => false
  | _ => true

def Mode.sound (stack : List Frame) : Mode → Prop
  | .start => stack = []
  | .operand _ => awaitsRight stack = false
  | .ready e => e.nests (floor stack) = true ∧ e.closed = true
  | .is e | .notIn e | .members _ e =>
      floor stack < memberLevel ∧ e.nests (floor stack) = true ∧ e.yields memberLevel = true
  | .naming e => (∃ done, stack = [.item done]) ∧ e.nests 0 = true
  | .named item => (∃ done, stack = [.item done]) ∧ item.expr.nests 0 = true
  | .table items | .tabled items _ =>
      stack = [] ∧ items ≠ [] ∧ items.all (fun item => item.expr.nests 0) = true
  | .limit items source condition =>
      stack = [] ∧ Selection.nests ⟨items, source, condition, none⟩ = true
  | .done s => stack = [] ∧ s.nests = true

def Reader.sound (r : Reader) : Prop := soundStack r.stack ∧ r.mode.sound r.stack

theorem closed_yields (h : e.closed = true) (level : Nat) : e.yields level = true := by
  cases e with
  | unary | binary => cases h
  | word | null | text | number | «variable» | paren | call | member => rfl

variable {stack : List Frame}

theorem closed_rests (sound : soundStack stack) (nests : e.nests (floor stack) = true)
    (closed : e.closed = true) : Rests stack e := by
  refine ⟨sound, nests, ?_⟩
  intro _
  cases e with
  | unary | binary => cases closed
  | word | null | text | number | «variable» | paren | call | member => rfl

attribute [local simp] stackTokens Frame.tokens Expr.tokens Reader.tokens Mode.tokens
  Selection.tokens conditionTokens limitTokens

theorem reduce_rests (level : Nat) : ∀ (stack : List Frame) (e : Expr), Rests stack e →
    e.yields level = true →
    Rests (reduce level stack e).1 (reduce level stack e).2 ∧
      (reduce level stack e).2.yields level = true ∧
      (floor (reduce level stack e).1 < level ∨
        ∀ f fs, (reduce level stack e).1 = f :: fs → f.encloses = true) ∧
      stackTokens (reduce level stack e).1 ++ (reduce level stack e).2.tokens =
        stackTokens stack ++ e.tokens
  | [], e, rests, yields => ⟨rests, yields, .inr nofun, rfl⟩
  | .unary op :: stack, e, rests, yields => by
      rw [reduce]
      by_cases strong : level ≤ op.level
      · rw [if_pos strong]
        obtain ⟨sound, frame⟩ := rests.stack_sound
        have whole : Rests stack (.unary op e) := by
          refine ⟨sound, rests.nests, ?_⟩
          intro awaits
          cases op with
          | not => exact absurd ⟨rfl, awaits⟩ frame
          | minus | plus => rfl
        have more : (Expr.unary op e).yields level = true := by
          rw [Expr.yields, yields, decide_eq_true strong]
          rfl
        obtain ⟨left, right, stop, same⟩ := reduce_rests level stack _ whole more
        refine ⟨left, right, stop, same.trans ?_⟩
        simp
      · rw [if_neg strong]
        exact ⟨rests, yields, .inl (Nat.lt_of_not_le strong), rfl⟩
  | .binary op left :: stack, e, rests, yields => by
      rw [reduce]
      by_cases strong : level ≤ op.level
      · rw [if_pos strong]
        obtain ⟨sound, above, leftNests, leftYields⟩ := rests.stack_sound
        have rightNests : e.nests op.level = true := rests.nests
        have other : (op = .is && e.isNegation) = false := by
          by_cases same : op = .is
          · subst same
            rw [rests.right rfl, Bool.and_false]
          · rw [decide_eq_false same, Bool.false_and]
        have whole : Rests stack (.binary op left e) := by
          refine ⟨sound, ?_, fun _ => rfl⟩
          simp [Expr.nests, above, leftNests, leftYields, rightNests, other]
        have more : (Expr.binary op left e).yields level = true := by
          rw [Expr.yields, yields, decide_eq_true strong]
          rfl
        obtain ⟨first, second, stop, same⟩ := reduce_rests level stack _ whole more
        refine ⟨first, second, stop, same.trans ?_⟩
        simp
      · rw [if_neg strong]
        exact ⟨rests, yields, .inl (Nat.lt_of_not_le strong), rfl⟩
  | .paren :: _, _, rests, yields | .call _ _ :: _, _, rests, yields
  | .member _ _ _ :: _, _, rests, yields | .item _ :: _, _, rests, yields
  | .condition _ _ :: _, _, rests, yields => by
      refine ⟨rests, yields, .inr ?_, rfl⟩
      rintro f fs ⟨⟩
      rfl

variable {t : Token} {r : Reader}

theorem shift_sound {closes : Bool} (sound : soundStack stack)
    (right : awaitsRight stack = true → t ≠ .keyword .not) (h : shift stack closes t = some r) :
    r.sound ∧ r.tokens = stackTokens stack ++ [t] := by
  unfold shift at h
  split at h
  iterate 5
    · cases h
      exact ⟨⟨sound, rfl, rfl⟩, rfl⟩
  · cases h
    exact ⟨⟨⟨sound, trivial⟩, rfl⟩, append_nil _⟩
  iterate 2
    · cases h
      exact ⟨⟨⟨sound, fun same => Unary.noConfusion same.1⟩, rfl⟩, append_nil _⟩
  · cases h
    exact ⟨⟨⟨sound, fun same => right same.2 rfl⟩, rfl⟩, append_nil _⟩
  · split at h
    · cases h
      refine ⟨⟨sound.1, rfl, rfl⟩, ?_⟩
      simp [listTokens, doneTokens]
    · cases h
      obtain ⟨below, above, nests, yields, _⟩ := sound
      refine ⟨⟨below, ?_, rfl⟩, ?_⟩
      · simp [Expr.nests, above, nests, yields, allNest]
      · simp [listTokens, doneTokens]
    · cases h
  · cases h

theorem close_sound (rests : Rests stack e) (h : close stack e t = some r) :
    r.sound ∧ r.tokens = stackTokens stack ++ (e.tokens ++ [t]) := by
  have sound := rests.stack_sound
  have nests := rests.nests
  unfold close at h
  split at h
  · split at h
    · cases h
      refine ⟨⟨sound.1, nests, rfl⟩, ?_⟩
      simp
    · cases h
      refine ⟨⟨sound.1, allNest_snoc sound.2 nests, rfl⟩, ?_⟩
      simp [listTokens_snoc]
    · cases h
      obtain ⟨below, above, leftNests, yields, done⟩ := sound
      refine ⟨⟨below, ?_, rfl⟩, ?_⟩
      · simp [Expr.nests, above, leftNests, yields, allNest_snoc done nests]
      · simp [listTokens_snoc]
    · cases h
  · split at h
    · cases h
      refine ⟨⟨⟨sound.1, allNest_snoc sound.2 nests⟩, rfl⟩, ?_⟩
      simp [doneTokens_snoc]
    · cases h
      obtain ⟨below, above, leftNests, yields, done⟩ := sound
      refine ⟨⟨⟨below, above, leftNests, yields, allNest_snoc done nests⟩, rfl⟩, ?_⟩
      simp [doneTokens_snoc]
    · next done =>
        cases h
        obtain ⟨_, _, all⟩ := sound
        have whole : e.nests 0 = true := nests
        have more : (done ++ [(⟨e, none⟩ : Item)]).all (fun item => item.expr.nests 0) = true := by
          rw [all_append, all]
          simpa using whole
        refine ⟨⟨⟨trivial, rfl, more⟩, rfl⟩, ?_⟩
        simp [doneItems, Item.tokens]
    · cases h
  · split at h
    · next done =>
        cases h
        refine ⟨⟨sound, ⟨done, rfl⟩, nests⟩, ?_⟩
        simp
    · cases h
  · split at h
    · next done =>
        cases h
        obtain ⟨_, _, all⟩ := sound
        have whole : e.nests 0 = true := nests
        have more : (done ++ [(⟨e, none⟩ : Item)]).all (fun item => item.expr.nests 0) = true := by
          rw [all_append, all]
          simpa using whole
        refine ⟨⟨trivial, rfl, by simp, more⟩, ?_⟩
        simp [itemTokens_snoc, Item.tokens]
    · cases h
  · split at h
    · next items table =>
        cases h
        obtain ⟨_, _, some, all⟩ := sound
        refine ⟨⟨trivial, rfl, ?_⟩, ?_⟩
        · have whole : e.nests 0 = true := nests
          simp only [Selection.nests, all, Option.all_some, whole, Bool.and_true]
          simpa using some
        · simp
    · cases h
  · cases h

theorem reduce_below {level : Nat} (positive : 0 < level) (sound : soundStack stack)
    (nests : e.nests (floor stack) = true) (closed : e.closed = true) :
    Rests (reduce level stack e).1 (reduce level stack e).2 ∧
      (reduce level stack e).2.yields level = true ∧ floor (reduce level stack e).1 < level ∧
      stackTokens (reduce level stack e).1 ++ (reduce level stack e).2.tokens =
        stackTokens stack ++ e.tokens := by
  obtain ⟨rests, yields, stop, same⟩ := reduce_rests level stack e (closed_rests sound nests closed)
    (closed_yields closed level)
  refine ⟨rests, yields, ?_, same⟩
  rcases stop with low | encloses
  · exact low
  rcases shape : (reduce level stack e).1 with _ | ⟨f, fs⟩
  · exact positive
  · rw [floor_encloses (encloses f fs shape)]
    exact positive

theorem binaryOf_tokens {op : Binary} (h : binaryOf t = some op) :
    op.tokens = [t] ∧ op ≠ .is := by
  unfold binaryOf at h
  split at h
  all_goals
    cases h
    try exact ⟨rfl, by decide⟩

theorem proceed_sound (sound : soundStack stack) (nests : e.nests (floor stack) = true)
    (closed : e.closed = true) (h : proceed stack e t = some r) :
    r.sound ∧ r.tokens = stackTokens stack ++ (e.tokens ++ [t]) := by
  have memberPositive : 0 < memberLevel := by decide
  unfold proceed at h
  split at h
  · next op token =>
      have positive : 0 < op.level := by
        cases op with
        | or | and | eq | ne | is | isNot | lt | le | gt | ge => decide
      obtain ⟨rests, yields, low, same⟩ := reduce_below positive sound nests closed
      obtain ⟨spelled, other⟩ := binaryOf_tokens token
      cases h
      refine ⟨⟨⟨rests.stack_sound, low, rests.nests, yields⟩, ?_⟩, ?_⟩
      · show awaitsRight (.binary op _ :: _) = false
        unfold awaitsRight
        split
        · next shape =>
            cases shape
            exact absurd rfl other
        · rfl
      · show stackTokens _ ++ (_ ++ op.tokens) ++ [] = _
        rw [spelled, append_nil, ← append_assoc, same, append_assoc]
  · split at h
    · obtain ⟨rests, yields, low, same⟩ := reduce_below memberPositive sound nests closed
      cases h
      refine ⟨⟨rests.stack_sound, low, rests.nests, yields⟩, ?_⟩
      show stackTokens _ ++ (_ ++ [_]) = _
      rw [← append_assoc, ← append_assoc]
      exact congrArg (· ++ [Token.keyword .is]) same
    iterate 2
      · obtain ⟨rests, yields, low, same⟩ := reduce_below memberPositive sound nests closed
        cases h
        refine ⟨⟨rests.stack_sound, low, rests.nests, yields⟩, ?_⟩
        show stackTokens _ ++ (_ ++ [_]) = _
        rw [← append_assoc, same, append_assoc]
    · split at h
      · cases h
        refine ⟨⟨⟨sound, rfl⟩, rfl⟩, ?_⟩
        simp [doneTokens]
      · cases h
    · obtain ⟨rests, _, _, same⟩ := reduce_rests 0 stack e (closed_rests sound nests closed)
        (yields_zero e)
      obtain ⟨valid, read⟩ := close_sound rests h
      refine ⟨valid, ?_⟩
      rw [read, ← append_assoc, same, append_assoc]

theorem Reader.step_sound {r' : Reader} (sound : r.sound) (h : r.step t = some r') :
    r'.sound ∧ r'.tokens = r.tokens ++ [t] := by
  obtain ⟨stack, mode⟩ := r
  obtain ⟨below, here⟩ := sound
  unfold Reader.step at h
  cases mode with
  | start =>
    obtain rfl : stack = [] := here
    obtain ⟨rfl, rfl⟩ : t = .keyword .select ∧ r' = ⟨[.item []], .operand false⟩ := by
      simp only at h
      split at h
      · next same => exact ⟨same, (Option.some.inj h).symm⟩
      · cases h
    exact ⟨⟨⟨trivial, rfl, rfl⟩, rfl⟩, rfl⟩
  | operand =>
    have right : awaitsRight stack = false := here
    obtain ⟨valid, read⟩ := shift_sound below (fun awaits => by rw [right] at awaits; cases awaits) h
    refine ⟨valid, read.trans ?_⟩
    simp
  | ready =>
    obtain ⟨valid, read⟩ := proceed_sound below here.1 here.2 h
    refine ⟨valid, read.trans ?_⟩
    simp
  | is left =>
    simp only at h
    split at h
    · next same =>
        subst same
        cases h
        refine ⟨⟨⟨below, here⟩, rfl⟩, ?_⟩
        simp [Binary.tokens]
    · next other =>
        have sound : soundStack (.binary .is left :: stack) := ⟨below, here⟩
        obtain ⟨valid, read⟩ := shift_sound sound (fun _ => other) h
        refine ⟨valid, read.trans ?_⟩
        simp [Binary.tokens]
  | notIn e =>
    simp only at h
    split at h
    · next same =>
        subst same
        cases h
        refine ⟨⟨below, here⟩, ?_⟩
        simp [inTokens]
    · cases h
  | members negated e =>
    simp only at h
    split at h
    · next same =>
        subst same
        cases h
        refine ⟨⟨⟨below, here.1, here.2.1, here.2.2, rfl⟩, rfl⟩, ?_⟩
        simp [doneTokens]
    · cases h
  | naming =>
    simp only at h
    split at h
    · cases h
      refine ⟨⟨below, here⟩, ?_⟩
      simp [Item.tokens]
    · cases h
  | named item =>
    obtain ⟨⟨done, rfl⟩, nests⟩ := here
    obtain ⟨_, _, all⟩ := below
    have more : (done ++ [item]).all (fun item => item.expr.nests 0) = true := by
      rw [all_append, all]
      simpa using nests
    simp only at h
    split at h
    · next shape =>
        cases shape
        cases h
        refine ⟨⟨⟨trivial, rfl, more⟩, rfl⟩, ?_⟩
        simp [doneItems]
    · next shape =>
        cases shape
        cases h
        refine ⟨⟨trivial, rfl, by simp, more⟩, ?_⟩
        simp [itemTokens_snoc]
    · cases h
  | table =>
    simp only at h
    split at h
    · cases h
      refine ⟨⟨below, here⟩, ?_⟩
      simp
    · cases h
  | tabled =>
    obtain ⟨rfl, some, all⟩ := here
    simp only at h
    split at h
    · cases h
      refine ⟨⟨⟨trivial, rfl, some, all⟩, rfl⟩, ?_⟩
      simp
    · cases h
      refine ⟨⟨trivial, rfl, ?_⟩, ?_⟩
      · simp only [Selection.nests, all, Option.all_none, Bool.and_true]
        simpa using some
      · simp
    · cases h
  | limit =>
    obtain ⟨rfl, nests⟩ := here
    simp only at h
    split at h
    · cases h
      refine ⟨⟨trivial, rfl, nests⟩, ?_⟩
      simp
    · cases h
  | done => cases h

theorem Reader.run_sound {r' : Reader} {ts : List Token} (sound : r.sound)
    (h : r.run ts = some r') :
    r'.sound ∧ r'.tokens = r.tokens ++ ts := by
  induction ts generalizing r with
  | nil =>
    cases h
    exact ⟨sound, (append_nil _).symm⟩
  | cons _ _ ih =>
    obtain ⟨middle, here, later⟩ := Option.bind_eq_some_iff.mp h
    obtain ⟨sound, read⟩ := step_sound sound here
    obtain ⟨sound, more⟩ := ih sound later
    exact ⟨sound, by rw [more, read, append_assoc, singleton_append]⟩

theorem Reader.finish_sound {s : Selection} (sound : r.sound) (h : r.finish = some s) :
    s.tokens = r.tokens ∧ s.nests = true := by
  obtain ⟨stack, mode⟩ := r
  obtain ⟨below, here⟩ := sound
  cases mode with
  | ready e =>
    obtain ⟨rests, _, _, same⟩ := reduce_rests 0 stack e (closed_rests below here.1 here.2)
      (yields_zero e)
    simp only [Reader.finish] at h
    split at h
    · next items table e' reduced =>
        cases h
        rw [reduced] at rests same
        obtain ⟨⟨_, _, some, all⟩, nests, _⟩ := rests
        have whole : e'.nests 0 = true := nests
        constructor
        · show _ = stackTokens stack ++ e.tokens
          rw [← same]
          simp
        · simp only [Selection.nests, all, Option.all_some, whole, Bool.and_true]
          simpa using some
    · cases h
  | tabled =>
    obtain ⟨rfl, some, all⟩ := here
    cases h
    refine ⟨by simp, ?_⟩
    simp only [Selection.nests, all, Option.all_none, Bool.and_true]
    simpa using some
  | done =>
    obtain ⟨rfl, nests⟩ := here
    cases h
    exact ⟨rfl, nests⟩
  | start | operand | is | notIn | members | naming | named | table | limit => cases h

end

theorem parse_eq_some {ts : List Token} {s : Selection} :
    parse ts = some s ↔ ts = s.tokens ∧ s.nests = true := by
  constructor
  · intro h
    obtain ⟨r, ran, finished⟩ := Option.bind_eq_some_iff.mp h
    obtain ⟨sound, read⟩ := Reader.run_sound (r := ⟨[], .start⟩) ⟨trivial, rfl⟩ ran
    obtain ⟨same, nests⟩ := Reader.finish_sound sound finished
    exact ⟨(same.trans read).symm, nests⟩
  · rintro ⟨rfl, nests⟩
    exact parse_tokens nests

end RssMdm.Lib.Sqlite
