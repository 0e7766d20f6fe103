/- module: WindowsMdm/Xml/Feeds
   source: crates/windows-mdm/src/xml.rs
   digest: What a reader makes of written calls, composed along its sequence of reads. -/

import RssMdm.WindowsMdm.Xml.Wire

set_option autoImplicit false

namespace RssMdm.WindowsMdm.Xml

open Lib.Fallible Lib.Outcome Lib.Text
open List (cons_append countP_cons length_append mem_cons_of_mem)

section

variable (l : CodecLimits) (fuel : Nat)

def Input.Delivers (p : Input) (ts : List Token) : Prop :=
  match p.look with
  | some t => ∃ rest, ts = t :: rest ∧ (t = .eof → p.cursor.budget.depth = 0) ∧
      p.cursor.Delivers l rest
  | none => p.cursor.Delivers l ts

/-- The input is before these calls, and there is room for what they count for. -/
structure Ready (p : Input) (scope : Scope) (calls : List Call) : Prop where
  delivers : p.Delivers l (tokensOf scope calls)
  rounds : (tokensOf scope calls).length < fuel
  items : p.items + calls.countP Call.isItem ≤ l.items
  commands : p.commands + calls.countP Call.isCommand ≤ l.commands
  checked : ∀ call ∈ calls, call.Checked

/-- The element that comes next, if one does; there is no answer inside of a text. -/
def upcoming (outer : String) : List Call → Option (Option (String × String))
  | [] => some none
  | .start name attrs :: _ => some (some (inner outer attrs, name))
  | .close _ :: _ => some none
  | .content _ _ :: _ => none
  | _ :: calls => upcoming outer calls

/-- Something else comes next than the element. -/
def differs (outer : String) (calls : List Call) (element : String × String) : Bool :=
  match upcoming outer calls with
  | some next => next ≠ some element
  | none => false

/-- None of the elements comes next. -/
def follows (outer : String) (avoid : List (String × String)) (calls : List Call) : Bool :=
  avoid.all (differs outer calls)

theorem Input.read_delivers {p : Input} {t : Token} {ts : List Token}
    (h : p.Delivers l (t :: ts)) :
    ∃ cursor, Input.read l p = .ok (t, { p with cursor, look := none }) ∧
      (t = .eof → cursor.budget.depth = 0) ∧ cursor.Delivers l ts := by
  obtain ⟨cursor, look, commands, items⟩ := p
  cases look with
  | none =>
    obtain ⟨cursor', read, closed, rest⟩ := h
    refine ⟨cursor', ?_, closed, rest⟩
    simp only at read
    simp only [Input.read, read]
  | some =>
    obtain ⟨rest, eq, closed, delivered⟩ := h
    cases eq
    exact ⟨cursor, rfl, closed, delivered⟩

theorem Input.significant_delivers {p : Input} {t : Token} {ts : List Token}
    (h : p.Delivers l (t :: ts)) (plain : t.insignificant = false) (rounds : 0 < fuel) :
    ∃ cursor, Input.significant l fuel p = .ok (t, { p with cursor, look := none }) ∧
      (t = .eof → cursor.budget.depth = 0) ∧ cursor.Delivers l ts := by
  obtain ⟨cursor, read, closed, rest⟩ := Input.read_delivers l h
  refine ⟨cursor, ?_, closed, rest⟩
  obtain ⟨fuel', rfl⟩ := Nat.exists_eq_succ_of_ne_zero (Nat.ne_of_gt rounds)
  rw [Input.significant, Input.significantLoop, Parser.bind_ok read, plain]
  rfl

theorem Input.is_delivers {p : Input} {t : Token} {ts : List Token} (ns name : String)
    (h : p.Delivers l (t :: ts)) (plain : t.insignificant = false) (rounds : 0 < fuel) :
    ∃ p', Input.is l fuel ns name p = .ok (t.isStart ns name, p') ∧ p'.Delivers l (t :: ts) ∧
      p'.items = p.items ∧ p'.commands = p.commands := by
  obtain ⟨cursor, significant, closed, rest⟩ := Input.significant_delivers l fuel h plain rounds
  refine ⟨{ p with cursor, look := some t }, ?_, ⟨ts, rfl, closed, rest⟩, rfl, rfl⟩
  rw [Input.is, Parser.bind_ok significant]
  rfl

variable {next : Option (String × String)} {calls : List Call}

theorem tokensOf_upcoming {outer : String} (scope : Scope) (h : upcoming outer calls = some next) :
    ∃ t ts, tokensOf (outer :: scope) calls = t :: ts ∧ t.insignificant = false ∧
      ∀ ns name, t.isStart ns name = decide (next = some (ns, name)) := by
  induction calls with
  | nil =>
    cases h
    exact ⟨.eof, [], rfl, rfl, by simp [Token.isStart]⟩
  | cons call _ ih =>
    cases call with
    | start =>
      cases h
      refine ⟨_, _, rfl, rfl, ?_⟩
      intro ns name'
      simp [Token.isStart, Prod.ext_iff]
    | close =>
      cases h
      exact ⟨_, _, rfl, rfl, by simp [Token.isStart]⟩
    | content => cases h
    | check | item | command => exact ih h

theorem tokensOf_ne_nil (scope : Scope) (calls : List Call) : 0 < (tokensOf scope calls).length := by
  induction calls generalizing scope with
  | nil => exact Nat.one_pos
  | cons _ _ ih =>
    rw [tokensOf, length_append]
    exact Nat.lt_of_lt_of_le (ih _) (Nat.le_add_left _ _)

variable {scope : Scope}

theorem Ready.fuel_pos {p : Input} (h : Ready l fuel p scope calls) : 0 < fuel :=
  Nat.lt_of_le_of_lt (Nat.zero_le _) h.rounds

theorem Ready.is {p : Input} {outer : String} (h : Ready l fuel p (outer :: scope) calls)
    (hnext : upcoming outer calls = some next) (ns name : String) :
    ∃ p', Input.is l fuel ns name p = .ok (decide (next = some (ns, name)), p') ∧
      Ready l fuel p' (outer :: scope) calls := by
  obtain ⟨t, ts, eq, plain, isStart⟩ := tokensOf_upcoming scope hnext
  have delivers := h.delivers
  rw [eq] at delivers
  obtain ⟨p', result, delivers', items, commands⟩ :=
    Input.is_delivers l fuel ns name delivers plain (h.fuel_pos l fuel)
  rw [isStart] at result
  refine ⟨p', result, ⟨eq ▸ delivers', h.rounds, ?_, ?_, h.checked⟩⟩
  · rw [items]
    exact h.items
  · rw [commands]
    exact h.commands

theorem Ready.advance {p p' : Input} {scope' : Scope} {call : Call}
    (h : Ready l fuel p scope (call :: calls)) (delivers : p'.Delivers l (tokensOf scope' calls))
    (same : call.scope scope = scope') (items : p'.items = p.items)
    (commands : p'.commands = p.commands) : Ready l fuel p' scope' calls := by
  subst same
  have rounds := h.rounds
  have hitems := h.items
  have hcommands := h.commands
  simp only [tokensOf, length_append, countP_cons] at rounds hitems hcommands
  refine ⟨delivers, by omega, by omega, by omega, ?_⟩
  intro c hc
  exact h.checked c (.tail _ hc)

theorem Ready.enter {p : Input} {outer name : String} {scope : Scope}
    {attrs : List (String × String)} {calls : List Call}
    (h : Ready l fuel p (outer :: scope) (.start name attrs :: calls)) :
    ∃ p', Input.enter l fuel (inner outer attrs) name p = .ok ((), p') ∧
      Ready l fuel p' (inner outer attrs :: outer :: scope) calls := by
  obtain ⟨cursor, significant, -, rest⟩ :=
    Input.significant_delivers l fuel h.delivers rfl (h.fuel_pos l fuel)
  have ready : Ready l fuel { p with cursor, look := none } (inner outer attrs :: outer :: scope)
      calls := h.advance l fuel rest rfl rfl rfl
  refine ⟨_, ?_, ready⟩
  have start : Input.start l fuel (inner outer attrs) name p =
      .ok (⟨inner outer attrs, name, []⟩, { p with cursor, look := none }) := by
    have opening : Input.significant l fuel p = .ok (.start ⟨inner outer attrs, name, []⟩,
        { p with cursor, look := none }) := significant
    rw [Input.start, Parser.bind_ok opening]
    exact congrFun (if_pos (by simp)) _
  rw [Input.enter, Parser.bind_ok start]
  rfl

theorem Ready.close {p : Input} {ns name : String} {scope : Scope} {calls : List Call}
    (h : Ready l fuel p (ns :: scope) (.close name :: calls)) :
    ∃ p', Input.close l fuel ns name p = .ok ((), p') ∧ Ready l fuel p' scope calls := by
  obtain ⟨cursor, significant, -, rest⟩ :=
    Input.significant_delivers l fuel h.delivers rfl (h.fuel_pos l fuel)
  have ready : Ready l fuel { p with cursor, look := none } scope calls :=
    h.advance l fuel rest rfl rfl rfl
  refine ⟨_, ?_, ready⟩
  have same : Token.finish ((ns :: scope).headD "") name = .finish ns name := rfl
  rw [Input.close, Parser.bind_ok significant, if_pos same]
  rfl

theorem contentLoop_segments {ns name : String} {max : Nat} {empty : Bool} {ts : List Token}
    {segs : List (Bool × List Char)} {n : Nat} {s : List Char} {p : Input}
    (h : p.Delivers l (segs.map segmentToken ++ .finish ns name :: ts)) (rounds : segs.length < n)
    (fits : utf8Len (s ++ segs.flatMap Prod.snd) ≤ max) :
    ∃ cursor : Cursor, cursor.Delivers l ts ∧
      Input.contentLoop l ns name max empty n s p =
        (do
          lift (text (String.ofList (s ++ segs.flatMap Prod.snd)) max empty)
          pure (String.ofList (s ++ segs.flatMap Prod.snd)) : Parser String)
        { p with cursor, look := none } := by
  induction segs generalizing n s p with
  | nil =>
    obtain ⟨cursor, read, -, rest⟩ := Input.read_delivers l h
    refine ⟨cursor, rest, ?_⟩
    cases n with
    | zero => cases rounds
    | succ =>
      rw [Input.contentLoop, Parser.bind_ok read, List.flatMap_nil, List.append_nil]
      simp only [decide_true, Bool.and_self, if_true]
  | cons seg segs ih =>
    obtain ⟨cursor, read, -, rest⟩ := Input.read_delivers l h
    have next : Input.Delivers l { p with cursor, look := none }
        (segs.map segmentToken ++ .finish ns name :: ts) := rest
    rw [List.flatMap_cons, ← List.append_assoc] at fits ⊢
    cases n with
    | zero => cases rounds
    | succ n =>
      obtain ⟨cursor', delivered, result⟩ := ih next (Nat.lt_of_succ_lt_succ rounds) fits
      refine ⟨cursor', delivered, ?_⟩
      have room : bound (utf8Len s + (String.ofList seg.2).utf8ByteSize) max = .ok () := by
        rw [bound_eq_ok, utf8ByteSize_eq, String.toList_ofList]
        simp only [utf8Len_append] at fits
        omega
      rw [Input.contentLoop, Parser.bind_ok read]
      simp only [segmentToken]
      rw [Parser.bind_ok (lift_ok room _), String.toList_ofList]
      exact result

theorem Ready.content {p : Input} {ns name value : String} {max : Nat} {scope : Scope}
    {calls : List Call} (empty : Bool)
    (h : Ready l fuel p (ns :: scope) (.content value max :: .close name :: calls)) :
    if empty || !blank value then
      ∃ p', Input.content l fuel ns name max empty p = .ok (value, p') ∧
        Ready l fuel p' scope calls
    else Input.content l fuel ns name max empty p = .error (.error .invalidValue) := by
  have checked : text value max true = .ok () := h.checked _ (.head _)
  have facts := text_eq_ok.mp checked
  have whole : ([] : List Char) ++ (segments [] value.toList).flatMap Prod.snd = value.toList := by
    rw [segments_flatten]
    rfl
  have rounds : (segments [] value.toList).length < fuel := by
    have rounds := h.rounds
    simp only [tokensOf, Call.tokens, length_append, List.length_map] at rounds
    omega
  have delivers : p.Delivers l ((segments [] value.toList).map segmentToken ++
      .finish ns name :: tokensOf scope calls) := h.delivers
  have fits : utf8Len ([] ++ (segments [] value.toList).flatMap Prod.snd) ≤ max := by
    rw [whole, ← utf8ByteSize_eq]
    exact facts.1
  obtain ⟨cursor, delivered, result⟩ := @contentLoop_segments l ns name max empty _ _ _ _ _ delivers
    rounds fits
  rw [whole, String.ofList_toList] at result
  have ready : Ready l fuel { p with cursor, look := none } scope calls := by
    have rounds := h.rounds
    have items := h.items
    have commands := h.commands
    simp only [tokensOf, Call.tokens, Call.scope, length_append, List.tail_cons,
      countP_cons] at rounds items commands
    refine ⟨delivered, by omega, by simp only; omega, by simp only; omega, ?_⟩
    intro c hc
    exact h.checked c (.tail _ (.tail _ hc))
  rw [Input.content, result]
  by_cases accepted : (empty || !blank value) = true
  · rw [if_pos accepted]
    have passes : text value max empty = .ok () := by
      rw [text_eq_ok]
      refine ⟨facts.1, ?_, facts.2.2⟩
      intro strict
      simpa [strict] using accepted
    refine ⟨_, ?_, ready⟩
    rw [Parser.bind_ok (lift_ok passes _)]
    rfl
  · rw [if_neg accepted]
    simp only [Bool.or_eq_true, not_or, Bool.not_eq_true', Bool.not_eq_true, Bool.not_eq_false] at accepted
    have size : bound value.utf8ByteSize max = .ok () := bound_eq_ok.mpr facts.1
    have refused : text value max empty = .error .invalidValue := by
      rw [text, size, ok_bind, if_pos (by simp [accepted.1, accepted.2])]
    rw [Parser.bind_error (lift_error refused _)]

theorem Ready.finish {p : Input} {scope : Scope} (h : Ready l fuel p scope []) :
    ∃ p', Input.finish l fuel p = .ok ((), p') := by
  obtain ⟨cursor, significant, closed, -⟩ :=
    Input.significant_delivers l fuel h.delivers rfl (h.fuel_pos l fuel)
  refine ⟨{ p with cursor, look := none }, ?_⟩
  have outside := closed rfl
  rw [Input.finish, Parser.bind_ok significant]
  simp only [bind, StateT.bind, get, getThe, MonadStateOf.get, StateT.get, pure, Except.pure,
    Except.bind, outside, decide_true, Bool.and_self, if_true]
  rfl

end

variable (l : CodecLimits) (fuel : Nat) (outer : String) {α β : Type}

/-- Reading written calls inside of `depth` elements that they close: the value comes back, or it
is refused as invalid. What follows the calls is none of the elements to avoid. -/
def Feeds (depth : Nat) (f : Parser α) (calls : List Call) (avoid : List (String × String))
    (good : Bool) (a : α) : Prop :=
  ∀ (p : Input) (scope : Scope) (rest : List Call), follows outer avoid rest = true →
    Ready l fuel p (List.replicate depth outer ++ outer :: scope) (calls ++ rest) →
      if good then ∃ p', f p = .ok (a, p') ∧ Ready l fuel p' (outer :: scope) rest
      else f p = .error (.error .invalidValue)

variable {l fuel outer}

theorem replicate_append_cons (depth : Nat) (scope : Scope) :
    List.replicate depth outer ++ outer :: scope = outer :: (List.replicate depth outer ++ scope) := by
  induction depth with
  | zero => rfl
  | succ _ ih => rw [List.replicate_succ, cons_append, ih, cons_append]

theorem Feeds.pure (avoid : List (String × String)) (a : α) :
    Feeds l fuel outer 0 (Pure.pure a) [] avoid true a := by
  intro p scope rest _ ready
  exact ⟨p, rfl, ready⟩

variable {a : α} {depth : Nat} {avoid₂ avoid₁ : List (String × String)} {f : Parser α}
  {g : α → Parser β}

theorem Feeds.bind {first second : List Call} {good₁ good₂ : Bool} {b : β}
    (hf : Feeds l fuel outer 0 f first avoid₁ good₁ a)
    (hg : Feeds l fuel outer depth (g a) second avoid₂ good₂ b)
    (next : ∀ rest, follows outer avoid₂ rest = true → follows outer avoid₁ (second ++ rest) = true) :
    Feeds l fuel outer depth (f >>= g) (first ++ second) avoid₂ (good₁ && good₂) b := by
  intro p scope rest avoided ready
  rw [List.append_assoc, replicate_append_cons] at ready
  have here := hf p _ _ (next rest avoided) ready
  cases good₁ with
  | false =>
    simp only [Bool.false_and, Bool.false_eq_true, if_false] at here ⊢
    exact Parser.bind_error here
  | true =>
    simp only [if_true] at here
    obtain ⟨p', result, ready'⟩ := here
    rw [← replicate_append_cons] at ready'
    have later := hg p' scope rest avoided ready'
    rw [Bool.true_and, Parser.bind_ok result]
    exact later

variable {good : Bool}

theorem Feeds.seq {first second : List Call} {b : β}
    (hf : Feeds l fuel outer 0 f first avoid₁ true a)
    (hg : Feeds l fuel outer depth (g a) second avoid₂ good b)
    (next : ∀ rest, follows outer avoid₂ rest = true → follows outer avoid₁ (second ++ rest) = true) :
    Feeds l fuel outer depth (f >>= g) (first ++ second) avoid₂ good b :=
  .bind hf hg next

variable {avoid : List (String × String)} {calls : List Call}

theorem Feeds.cast {calls' : List Call} {good' : Bool} {a' : α}
    (h : Feeds l fuel outer depth f calls avoid good a) (hcalls : calls = calls')
    (hgood : good = good') (ha : a = a') : Feeds l fuel outer depth f calls' avoid good' a' := by
  subst hcalls hgood ha
  exact h

variable {x : Except CodecError α}

theorem Feeds.final (h : x = if good then .ok a else .error .invalidValue) :
    Feeds l fuel outer 0 (Xml.lift x) [] avoid good a := by
  intro p scope rest _ ready
  cases good with
  | false => exact lift_error h p
  | true => exact ⟨p, lift_ok h p, ready⟩

theorem Feeds.done (h : x = .ok a) : Feeds l fuel outer 0 (Xml.lift x) [] avoid true a :=
  .final h

theorem Feeds.check {x : α → Except CodecError β} {good₁ good₂ : Bool} {b : β}
    (hf : Feeds l fuel outer 0 f calls avoid good₁ a)
    (hx : x a = if good₂ then .ok b else .error .invalidValue) :
    Feeds l fuel outer 0 (f >>= fun a => Xml.lift (x a)) calls avoid (good₁ && good₂) b :=
  (Feeds.bind hf (Feeds.final hx) (fun _ h => h)).cast (List.append_nil calls) rfl rfl

theorem Feeds.lift {b : β} (h : x = .ok a)
    (hg : Feeds l fuel outer depth (g a) calls avoid good b) :
    Feeds l fuel outer depth (Xml.lift x >>= g) calls avoid good b := by
  intro p scope rest avoided ready
  rw [Parser.bind_ok (lift_ok h p)]
  exact hg p scope rest avoided ready

theorem Feeds.enter {depth : Nat} {name : String} {f : Parser α} {calls : List Call}
    {avoid : List (String × String)} {good : Bool} {a : α}
    (h : Feeds l fuel outer (depth + 1) f calls avoid good a) :
    Feeds l fuel outer depth (Input.enter l fuel outer name >>= fun _ => f)
      (.start name [] :: calls) avoid good a := by
  intro p scope rest avoided ready
  rw [replicate_append_cons] at ready
  obtain ⟨p', result, ready'⟩ := ready.enter
  have result : Input.enter l fuel outer name p = .ok ((), p') := result
  have ready' : Ready l fuel p' (outer :: outer :: (List.replicate depth outer ++ scope))
      (calls ++ rest) := ready'
  rw [Parser.bind_ok result]
  rw [← replicate_append_cons] at ready'
  exact h p' scope rest avoided ready'

theorem Feeds.close {depth : Nat} {name : String} {f : Parser α} {calls : List Call}
    {avoid : List (String × String)} {good : Bool} {a : α}
    (h : Feeds l fuel outer depth f calls avoid good a) :
    Feeds l fuel outer (depth + 1) (Input.close l fuel outer name >>= fun _ => f)
      (.close name :: calls) avoid good a := by
  intro p scope rest avoided ready
  rw [List.replicate_succ, cons_append] at ready
  obtain ⟨p', result, ready'⟩ := ready.close
  rw [Parser.bind_ok result]
  exact h p' scope rest avoided ready'

theorem Feeds.item {depth : Nat} {f : Parser α} {calls : List Call}
    {avoid : List (String × String)} {good : Bool} {a : α}
    (h : Feeds l fuel outer depth f calls avoid good a) :
    Feeds l fuel outer depth (Input.item l >>= fun _ => f) (.item :: calls) avoid good a := by
  intro p scope rest avoided ready
  have room := ready.items
  rw [cons_append, countP_cons] at room
  simp only [Call.isItem, if_true] at room
  have counted : Input.item l p = .ok ((), { p with items := p.items + 1 }) := by
    rw [Input.item, bound_eq_ok.mpr (by omega)]
    rfl
  rw [Parser.bind_ok counted]
  refine h _ scope rest avoided ⟨ready.delivers, ready.rounds, by simp only; omega, ?_, ?_⟩
  · exact ready.commands
  · intro c hc
    exact ready.checked c (.tail _ hc)

theorem Feeds.command {depth : Nat} {f : Parser α} {calls : List Call}
    {avoid : List (String × String)} {good : Bool} {a : α}
    (h : Feeds l fuel outer depth f calls avoid good a) :
    Feeds l fuel outer depth (Input.command l >>= fun _ => f) (.command :: calls) avoid good a := by
  intro p scope rest avoided ready
  have room := ready.commands
  rw [cons_append, countP_cons] at room
  simp only [Call.isCommand, if_true] at room
  have counted : Input.command l p = .ok ((), { p with commands := p.commands + 1 }) := by
    rw [Input.command, bound_eq_ok.mpr (by omega)]
    rfl
  rw [Parser.bind_ok counted]
  refine h _ scope rest avoided ⟨ready.delivers, ready.rounds, ready.items, by simp only; omega, ?_⟩
  intro c hc
  exact ready.checked c (.tail _ hc)

theorem Feeds.uncounted (h : Feeds l fuel outer depth f calls avoid good a) :
    Feeds l fuel outer depth f (.item :: calls) avoid good a := by
  intro p scope rest avoided ready
  have room := ready.items
  rw [cons_append, countP_cons] at room
  refine h p scope rest avoided ⟨ready.delivers, ready.rounds, by omega, ready.commands, ?_⟩
  intro c hc
  exact ready.checked c (.tail _ hc)

theorem Feeds.checked {depth : Nat} {f : Parser α} {calls : List Call} {value : String} {max : Nat}
    {empty : Bool} {avoid : List (String × String)} {good : Bool} {a : α}
    (h : text value max empty = .ok () → Feeds l fuel outer depth f calls avoid good a) :
    Feeds l fuel outer depth f (.check value max empty :: calls) avoid good a := by
  intro p scope rest avoided ready
  refine h (ready.checked _ (.head _)) p scope rest avoided
    ⟨ready.delivers, ready.rounds, ready.items, ready.commands, ?_⟩
  intro c hc
  exact ready.checked c (.tail _ hc)

theorem Feeds.is_true {ns name : String} {f : Bool → Parser α}
    (next : ∀ rest, upcoming outer (calls ++ rest) = some (some (ns, name)))
    (h : Feeds l fuel outer depth (f true) calls avoid good a) :
    Feeds l fuel outer depth (Input.is l fuel ns name >>= f) calls avoid good a := by
  intro p scope rest avoided ready
  rw [replicate_append_cons] at ready
  obtain ⟨p', result, ready'⟩ := ready.is l fuel (next rest) ns name
  rw [decide_eq_true rfl] at result
  rw [Parser.bind_ok result]
  rw [← replicate_append_cons] at ready'
  exact h p' scope rest avoided ready'

theorem differs_iff {element : String × String} :
    differs outer calls element = true ↔
      ∃ next, upcoming outer calls = some next ∧ next ≠ some element := by
  unfold differs
  cases upcoming outer calls <;> simp

theorem Feeds.is_false {ns name : String} {f : Bool → Parser α}
    (next : ∀ rest, follows outer avoid rest = true → differs outer (calls ++ rest) (ns, name) = true)
    (h : Feeds l fuel outer depth (f false) calls avoid good a) :
    Feeds l fuel outer depth (Input.is l fuel ns name >>= f) calls avoid good a := by
  intro p scope rest avoided ready
  obtain ⟨element, hnext, other⟩ := differs_iff.mp (next rest avoided)
  rw [replicate_append_cons] at ready
  obtain ⟨p', result, ready'⟩ := ready.is l fuel hnext ns name
  rw [decide_eq_false other] at result
  rw [Parser.bind_ok result]
  rw [← replicate_append_cons] at ready'
  exact h p' scope rest avoided ready'

theorem Feeds.leaf (name value : String) (attrs : List (String × String)) (max : Nat) (empty : Bool)
    (avoid : List (String × String)) :
    Feeds l fuel outer 0 (Input.scalar l fuel (inner outer attrs) name max empty)
      [.start name attrs, .content value max, .close name] avoid (empty || !blank value) value := by
  intro p scope rest _ ready
  obtain ⟨p', result, ready'⟩ := ready.enter
  rw [Input.scalar, Parser.bind_ok result]
  exact ready'.content l fuel empty

theorem Feeds.scalar (name value : String) (max : Nat) (empty : Bool)
    (avoid : List (String × String)) :
    Feeds l fuel outer 0 (Input.scalar l fuel outer name max empty)
      (Call.scalar name value max empty) avoid true value := by
  apply Feeds.checked
  intro accepted
  have strict := (text_eq_ok.mp accepted).2.1
  have good : (empty || !blank value) = true := by
    cases empty with
    | true => rfl
    | false => simp [strict rfl]
  have leaf := @Feeds.leaf l fuel outer name value [] max empty avoid
  rw [good] at leaf
  exact leaf

def tokenCount : List Call → Nat
  | [] => 0
  | .start _ _ :: calls => tokenCount calls + 1
  | .close _ :: calls => tokenCount calls + 1
  | _ :: calls => tokenCount calls

theorem tokenCount_lt (scope : Scope) (calls rest : List Call) :
    tokenCount calls < (tokensOf scope (calls ++ rest)).length := by
  induction calls generalizing scope with
  | nil => exact tokensOf_ne_nil scope rest
  | cons call _ ih =>
    have later := ih (call.scope scope)
    rw [cons_append, tokensOf, length_append]
    cases call <;> simp only [tokenCount, Call.tokens, List.length_cons, List.length_nil,
      List.length_map] <;> omega

theorem Feeds.rounds {depth : Nat} {f : Parser α} {calls : List Call}
    {avoid : List (String × String)} {good : Bool} {a : α}
    (h : tokenCount calls < fuel → Feeds l fuel outer depth f calls avoid good a) :
    Feeds l fuel outer depth f calls avoid good a := by
  intro p scope rest avoided ready
  have enough := Nat.lt_trans (tokenCount_lt _ calls rest) ready.rounds
  exact h enough p scope rest avoided ready

end RssMdm.WindowsMdm.Xml
