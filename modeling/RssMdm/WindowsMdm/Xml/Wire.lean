/- module: WindowsMdm/Xml/Wire
   source: crates/windows-mdm/src/xml.rs
   digest: A written document is delivered back token by token under the same budgets. -/

import RssMdm.Lib.Joined
import RssMdm.WindowsMdm.Xml.Input

set_option autoImplicit false

namespace RssMdm.WindowsMdm.Xml

open Lib.Fallible Lib.Outcome Lib.Text
open List (all_eq_true cons_append isEmpty_nil length_cons map_cons mem_append mem_cons nil_append)
open Bool (and_eq_true false_eq_true or_eq_true)

/-- The event names of the references that are written. -/
def referenceName (c : Char) : String :=
  if c = '&' then "amp" else if c = '<' then "lt" else if c = '>' then "gt"
  else if c = '"' then "quot" else if c = '\'' then "apos" else "#13"

/-- A text is cut at the characters written as references; `run` is the text since the last one. -/
def segments (run : List Char) : List Char → List (Bool × List Char)
  | [] => if run.isEmpty then [] else [(false, run)]
  | c :: cs =>
      if special c then
        (if run.isEmpty then [] else [(false, run)]) ++ (true, [c]) :: segments [] cs
      else segments (run ++ [c]) cs

def segmentEvent (s : Bool × List Char) : Event :=
  if s.1 then .reference (.ok (if s.2 = ['\r'] then some '\r' else none))
    (referenceName (s.2.headD ' '))
  else .text (String.ofList s.2)

def segmentToken (s : Bool × List Char) : Token := .text (String.ofList s.2)

theorem segments_flatten (run cs : List Char) :
    (segments run cs).flatMap Prod.snd = run ++ cs := by
  induction cs generalizing run with
  | nil => cases run <;> simp [segments]
  | cons c _ ih =>
    by_cases hc : special c = true
    · cases run <;> simp [segments, hc, ih]
    · simp [segments, hc, ih]

theorem segments_special {run cs : List Char} {s : Bool × List Char}
    (h : s ∈ segments run cs) (reference : s.1 = true) : ∃ c, special c = true ∧ s.2 = [c] := by
  induction cs generalizing run with
  | nil =>
    cases run with
    | nil => simp [segments] at h
    | cons =>
      simp only [segments, List.isEmpty_cons, false_eq_true, if_false,
        List.mem_singleton] at h
      simp [h] at reference
  | cons c _ ih =>
    by_cases hc : special c = true
    · simp only [segments, hc, if_true, mem_append, mem_cons] at h
      rcases h with h | rfl | h
      · cases run with
        | nil => simp at h
        | cons =>
          simp only [List.isEmpty_cons, false_eq_true, if_false, List.mem_singleton] at h
          simp [h] at reference
      · exact ⟨c, hc, rfl⟩
      · exact ih h
    · simp only [segments, hc, false_eq_true, if_false] at h
      exact ih h

/-- The default namespace inside an element. -/
def inner (outer : String) (attrs : List (String × String)) : String :=
  match attrs.find? (fun a => a.1 = "xmlns") with
  | some a => a.2
  | none => outer

def declared (a : String × String) : Option Attribute :=
  some ⟨a.1, .ok a.2, .ok xmlnsNamespace, a.1⟩

/-- The default namespaces of the open elements, innermost first. -/
abbrev Scope : Type := List String

def Call.scope (scope : Scope) : Call → Scope
  | start _ attrs => inner (scope.headD "") attrs :: scope
  | close _ => scope.tail
  | _ => scope

def Call.events (scope : Scope) : Call → List Event
  | start name attrs =>
      [.start name (.ok (inner (scope.headD "") attrs)) name (attrs.map declared)]
  | close name => [.finish (.ok (scope.headD "")) name]
  | content value _ => (segments [] value.toList).map segmentEvent
  | _ => []

def Call.tokens (scope : Scope) : Call → List Token
  | start name attrs => [.start ⟨inner (scope.headD "") attrs, name, []⟩]
  | close name => [.finish (scope.headD "") name]
  | content value _ => (segments [] value.toList).map segmentToken
  | _ => []

def eventsOf : Scope → List Call → List Event
  | _, [] => []
  | scope, c :: cs => c.events scope ++ eventsOf (c.scope scope) cs

/-- The tokens of the rest of a document, to its end. -/
def tokensOf : Scope → List Call → List Token
  | _, [] => [.eof]
  | scope, c :: cs => c.tokens scope ++ tokensOf (c.scope scope) cs

/-- The name is legal and the attributes are default namespace declarations. -/
def named (name : String) (attrs : List (String × String)) : Bool :=
  qname name = .ok () && attrs.all (fun a => a.1 = "xmlns" && a.2 ≠ xmlnsNamespace &&
    a.2 ≠ xmlNamespace)

/-- The nesting depth after a call, if names are legal and text stands inside of elements only. -/
def Call.nesting (depth : Nat) : Call → Option Nat
  | start name attrs => if named name attrs then some (depth + 1) else none
  | close name => if depth = 0 || !named name [] then none else some (depth - 1)
  | content _ _ => if depth = 0 then none else some depth
  | _ => some depth

def nesting : Nat → List Call → Option Nat
  | depth, [] => some depth
  | depth, c :: cs => (c.nesting depth).bind (fun d => nesting d cs)

theorem nesting_append (depth : Nat) (a b : List Call) :
    nesting depth (a ++ b) = (nesting depth a).bind (fun d => nesting d b) := by
  induction a generalizing depth with
  | nil => rfl
  | cons _ _ ih =>
    simp only [cons_append, nesting, ih, Option.bind_assoc]

/-- Inside of an element the calls close what they open. -/
def Balanced (calls : List Call) : Prop := ∀ depth, nesting (depth + 1) calls = some (depth + 1)

namespace Balanced

theorem nil : Balanced [] := fun _ => rfl

theorem append {a b : List Call} (ha : Balanced a) (hb : Balanced b) : Balanced (a ++ b) := by
  intro depth
  rw [nesting_append, ha depth]
  exact hb depth

theorem flatMap {α : Type} {as : List α} {f : α → List Call} (h : ∀ a, Balanced (f a)) :
    Balanced (as.flatMap f) := by
  induction as with
  | nil => exact nil
  | cons a _ ih => exact append (h a) ih

theorem nesting_element {name : String} {attrs : List (String × String)} {calls : List Call}
    (legal : named name attrs = true) (h : Balanced calls) (depth : Nat) :
    nesting depth (.start name attrs :: (calls ++ [.close name])) = some depth := by
  have plain : named name [] = true := by
    simp only [named, and_eq_true] at legal ⊢
    exact ⟨legal.1, rfl⟩
  rw [nesting, Call.nesting, if_pos legal, Option.bind_some, nesting_append, h depth]
  simp [nesting, Call.nesting, plain]

theorem element {name : String} {attrs : List (String × String)} {calls : List Call}
    (legal : named name attrs = true) (h : Balanced calls) :
    Balanced (.start name attrs :: (calls ++ [.close name])) :=
  fun depth => nesting_element legal h (depth + 1)

theorem text (value : String) (max : Nat) : Balanced [.content value max] := fun _ => rfl

theorem scalar {name : String} (value : String) (max : Nat) (empty : Bool)
    (legal : named name [] = true) : Balanced (Call.scalar name value max empty) :=
  element legal (text value max)

end Balanced

section

theorem nameChar_legal {c : Char} (h : nameChar c = true) : legalChar c = true := by
  simp only [nameChar, nameStart, within, List.any_cons, List.any_nil, or_eq_true,
    and_eq_true, decide_eq_true_eq, Bool.or_false] at h
  simp only [legalChar, or_eq_true, and_eq_true, decide_eq_true_eq]
  omega

theorem qname_legal {name : String} (h : qname name = .ok ()) :
    ∀ c ∈ name.toList, legalChar c = true := by
  rw [qname, guard_eq_ok, each_eq_ok] at h
  intro c hc
  have joined : [':'].intercalate (name.toList.splitOn ':') = name.toList :=
    List.intercalate_splitOn ':'
  rw [← joined] at hc
  rcases Lib.Joined.mem_intercalate hc with hc | ⟨part, mem, hc⟩
  · rw [List.mem_singleton.mp hc]
    decide
  have legal := h.2 part mem
  rw [guard_eq_ok] at legal
  cases part with
  | nil => cases hc
  | cons =>
    simp only [List.head?_cons, Option.any_some, List.tail_cons, or_eq_true,
      Bool.not_eq_true', not_or, Bool.not_eq_false, all_eq_true] at legal
    apply nameChar_legal
    rcases mem_cons.mp hc with rfl | hc
    · simp [nameChar, legal.1.1]
    · exact legal.1.2 c hc

variable (l : CodecLimits) {escape : Escape}
  (hescape : ∀ c, legalChar c = true → ∀ x ∈ escape c, legalChar x = true)

include hescape

theorem startTag_legal {name : String} {attrs : List (String × String)}
    (legal : named name attrs = true)
    (values : each (fun a : String × String => text a.2 l.fieldBytes true) attrs = .ok ()) :
    ∀ c ∈ startTag escape name attrs, legalChar c = true := by
  simp only [named, and_eq_true, decide_eq_true_eq, all_eq_true] at legal
  rw [each_eq_ok] at values
  intro c hc
  simp only [startTag, mem_append, mem_cons, List.not_mem_nil, or_false,
    List.mem_flatMap] at hc
  rcases hc with ((rfl | hc) | ⟨a, mem, hc⟩) | rfl
  · decide
  · exact qname_legal legal.1 c hc
  · have key := (legal.2 a mem).1.1
    have value := (text_eq_ok.mp (values a mem)).2.2
    rw [all_eq_true] at value
    rw [key] at hc
    rcases hc with ((rfl | hc) | rfl | rfl | ⟨x, hx, hc⟩) | rfl
    · decide
    · exact qname_legal (by decide) c hc
    · decide
    · decide
    · exact hescape x (value x hx) c hc
    · decide
  · decide

theorem perform_legal {o o' : Output} {call : Call} {depth depth' : Nat}
    (h : o.perform escape l call = .ok o') (nested : call.nesting depth = some depth') :
    ∀ c ∈ call.spelling escape, legalChar c = true := by
  cases call with
  | start name attrs =>
    obtain ⟨_, -, h⟩ := of_bind h
    obtain ⟨_, -, h⟩ := of_bind h
    obtain ⟨-, h⟩ := of_check h
    obtain ⟨values, -⟩ := of_check h
    simp only [Call.nesting] at nested
    split at nested
    · rename_i legal
      exact startTag_legal l hescape legal values
    · cases nested
  | close name =>
    simp only [Call.nesting] at nested
    split at nested
    · cases nested
    rename_i legal
    simp only [named, or_eq_true, decide_eq_true_eq, Bool.not_eq_true', Bool.and_eq_false_iff,
      decide_eq_false_iff_not, not_or, not_not] at legal
    intro c hc
    simp only [Call.spelling, endTag, mem_append, mem_cons, List.not_mem_nil,
      or_false] at hc
    rcases hc with (rfl | rfl | hc) | rfl
    · decide
    · decide
    · exact qname_legal legal.2.1 c hc
    · decide
  | content =>
    obtain ⟨checked, -⟩ := of_check h
    have legal := (text_eq_ok.mp checked).2.2
    rw [all_eq_true] at legal
    intro c hc
    obtain ⟨x, hx, hc⟩ := List.mem_flatMap.mp hc
    exact hescape x (legal x hx) c hc
  | _ => simp [Call.spelling]

theorem run_legal {o o' : Output} {calls : List Call} {depth depth' : Nat}
    (h : o.run escape l calls = .ok o') (nested : nesting depth calls = some depth') :
    ∀ c ∈ calls.flatMap (Call.spelling escape), legalChar c = true := by
  induction calls generalizing o depth with
  | nil => simp
  | cons _ _ ih =>
    obtain ⟨o₁, performed, h⟩ := of_bind h
    obtain ⟨d, here, rest⟩ := Option.bind_eq_some_iff.mp nested
    intro c hc
    rw [List.flatMap_cons, mem_append] at hc
    rcases hc with hc | hc
    · exact perform_legal l hescape performed here c hc
    · exact ih h rest c hc

end

variable (l : CodecLimits)

/-- The cursor reads these tokens in order; the end is reached outside of every element. -/
def Cursor.Delivers : Cursor → List Token → Prop
  | _, [] => True
  | c, t :: ts => ∃ c', c.read l = .ok (t, c') ∧ (t = .eof → c'.budget.depth = 0) ∧
      Cursor.Delivers c' ts

theorem event_eq_ok {b b' : Budget} :
    b.event l = .ok b' ↔ b.events + 1 ≤ l.events ∧ b' = { b with events := b.events + 1 } := by
  simp only [Budget.event, check_bind_eq_ok, bound_eq_ok, Except.ok.injEq]
  exact and_congr_right fun _ => eq_comm

theorem readAttrs_declared {base count : Nat} {seen : List (String × String)}
    {attrs : List (String × String)}
    (named : attrs.all (fun a => a.1 = "xmlns" && a.2 ≠ xmlnsNamespace && a.2 ≠ xmlNamespace) = true)
    (perElement : count + attrs.length ≤ l.attributesPerElement)
    (total : base + (count + attrs.length) ≤ l.attributes)
    (texts : each (fun a : String × String => text a.2 l.fieldBytes true) attrs = .ok ()) :
    readAttrs l base count seen (attrs.map declared) = .ok ([], count + attrs.length) := by
  induction attrs generalizing count with
  | nil => rfl
  | cons _ attrs ih =>
    simp only [List.all_cons, and_eq_true, decide_eq_true_eq] at named
    obtain ⟨⟨⟨key, notXmlns⟩, notXml⟩, others⟩ := named
    simp only [length_cons] at perElement total
    rw [each, check_bind_eq_ok] at texts
    have rest : readAttrs l base (count + 1) seen (attrs.map declared) =
        .ok ([], count + 1 + attrs.length) := ih others (by omega) (by omega) texts.2
    have name : qname "xmlns" = .ok () := by decide
    have here : bound (count + 1) l.attributesPerElement = .ok () := bound_eq_ok.mpr (by omega)
    have sum : bound (base + (count + 1)) l.attributes = .ok () := bound_eq_ok.mpr (by omega)
    have xmlns : isXmlns "xmlns" = true := by decide
    have plain : startsWith "xmlns" "xmlns:" = false := by decide
    rw [map_cons, declared, readAttrs]
    simp only [key, name, here, sum, texts.1, ok_bind, xmlns, plain, notXmlns, notXml, rest]
    simp only [length_cons, decide_false, Bool.false_and, Bool.or_false, false_eq_true,
      if_false, if_true]
    rw [Nat.add_right_comm, Nat.add_assoc]

theorem resolve_special {c : Char} (h : special c = true) :
    resolve (if [c] = ['\r'] then some '\r' else none) (referenceName c) =
      .ok (String.ofList [c]) := by
  simp only [special, or_eq_true, decide_eq_true_eq] at h
  rcases h with ((((rfl | rfl) | rfl) | rfl) | rfl) | rfl <;> decide

theorem segments_deliver {segs : List (Bool × List Char)}
    (references : ∀ s ∈ segs, s.1 = true → ∃ c, special c = true ∧ s.2 = [c]) {c : Cursor}
    {more : List Event} {ts : List Token} (events : c.events = segs.map segmentEvent ++ more)
    (inside : c.budget.depth ≠ 0) (fits : c.budget.events + segs.length ≤ l.events)
    (later : ∀ c' : Cursor, c'.budget = { c.budget with events := c.budget.events + segs.length } →
      c'.events = more → c'.Delivers l ts) :
    c.Delivers l (segs.map segmentToken ++ ts) := by
  induction segs generalizing c with
  | nil => exact later c rfl events
  | cons s segs ih =>
    simp only [length_cons] at fits later
    have spent : c.budget.event l =
        .ok { c.budget with events := c.budget.events + 1 } := (event_eq_ok l).mpr ⟨by omega, rfl⟩
    have next : ∀ started, Cursor.Delivers l ⟨segs.map segmentEvent ++ more,
        { c.budget with events := c.budget.events + 1 }, started, c.declaration⟩
        (segs.map segmentToken ++ ts) := by
      intro started
      refine ih (fun s hs => references s (.tail _ hs)) rfl inside
        (by simp only; omega) ?_
      intro c' budget remaining
      refine later c' ?_ remaining
      rw [budget]
      simp only [Budget.mk.injEq, and_true]
      omega
    obtain ⟨reference, chars⟩ := s
    cases reference with
    | false =>
      refine ⟨_, ?_, by simp [segmentToken], next (c.started || decide (c.budget.depth = 0))⟩
      rw [Cursor.read, events, map_cons, cons_append, Cursor.readFrom, spent]
      rfl
    | true =>
      obtain ⟨char, hspecial, rfl⟩ := references _ (.head _) rfl
      refine ⟨_, ?_, by simp [segmentToken], next c.started⟩
      rw [Cursor.read, events, map_cons, cons_append, Cursor.readFrom, spent, ok_bind]
      simp only [segmentEvent, if_true, List.headD_cons, if_neg inside, ok_bind,
        resolve_special hspecial]
      rfl

theorem contentEvents_eq_ok {run cs : List Char} {b b' : Budget}
    (h : Output.contentEvents l (!run.isEmpty) cs b = .ok b') :
    ∃ n, b' = { b with events := b.events + n } ∧ (b.events ≤ l.events → b'.events ≤ l.events) ∧
      n + (if run.isEmpty then 0 else 1) = (segments run cs).length := by
  induction cs generalizing run b with
  | nil =>
    cases h
    refine ⟨0, rfl, id, ?_⟩
    cases run <;> rfl
  | cons c _ ih =>
    rw [Output.contentEvents] at h
    by_cases hc : special c = true
    · rw [if_pos hc] at h
      obtain ⟨b₁, spent, h⟩ := of_bind h
      obtain ⟨room, rfl⟩ := (event_eq_ok l).mp spent
      obtain ⟨n, rfl, bounded, count⟩ := @ih [] _ h
      refine ⟨n + 1, ?_, fun _ => bounded room, ?_⟩
      · simp only [Budget.mk.injEq, and_true]
        omega
      · simp only [isEmpty_nil, if_true] at count
        cases run <;> simp [segments, hc, ← count]
    · rw [if_neg hc] at h
      have longer : (!(run ++ [c]).isEmpty) = true := by simp
      by_cases empty : run = []
      · subst empty
        obtain ⟨b₁, spent, h⟩ := of_bind h
        obtain ⟨room, rfl⟩ := (event_eq_ok l).mp spent
        obtain ⟨n, rfl, bounded, count⟩ := @ih [c] _ h
        refine ⟨n + 1, ?_, fun _ => bounded room, ?_⟩
        · simp only [Budget.mk.injEq, and_true]
          omega
        · simpa [segments, hc] using count
      · have flag : (!run.isEmpty) = true := by simp [empty]
        rw [flag] at h
        simp only [Bool.not_true, false_eq_true, if_false] at h
        rw [← longer] at h
        obtain ⟨n, rfl, bounded, count⟩ := ih h
        refine ⟨n, rfl, bounded, ?_⟩
        have nonempty : run.isEmpty = false := by simp [empty]
        simpa [segments, hc, nonempty] using count

variable (escape : Escape)

theorem write_budget {o o' : Output} {cs : List Char} (h : o.write cs = .ok o') :
    o' = { o with written := o.written ++ cs } := by
  rw [Output.write, guard_eq_ok] at h
  injection h.2 with h
  exact h.symm

theorem budget_start_eq_ok {b b' : Budget} {attrs : Nat} (h : b.start attrs l = .ok b') :
    attrs ≤ l.attributesPerElement ∧ b.attrs + attrs ≤ l.attributes := by
  simp only [Budget.start, check_bind_eq_ok, bound_eq_ok] at h
  exact ⟨h.2.2.1, h.2.2.2.1⟩

theorem perform_delivers {o o' : Output} {call : Call} {depth : Nat} {scope : Scope} {c : Cursor}
    {more : List Event} {ts : List Token} (h : o.perform escape l call = .ok o')
    (nested : call.nesting o.budget.depth = some depth) (budget : c.budget = o.budget)
    (within : o.budget.events ≤ l.events) (events : c.events = call.events scope ++ more)
    (later : ∀ c' : Cursor, c'.budget = o'.budget → c'.events = more → c'.Delivers l ts) :
    c.Delivers l (call.tokens scope ++ ts) ∧ o'.budget.depth = depth ∧
      o'.budget.events ≤ l.events := by
  cases call with
  | start name attrs =>
    simp only [Call.nesting] at nested
    split at nested
    · rename_i legal
      simp only [named, and_eq_true, decide_eq_true_eq] at legal
      obtain ⟨b₁, spent, h⟩ := of_bind h
      obtain ⟨b₂, opened, h⟩ := of_bind h
      obtain ⟨-, h⟩ := of_check h
      obtain ⟨texts, h⟩ := of_check h
      have result := write_budget h
      have limits := budget_start_eq_ok l opened
      have room := ((event_eq_ok l).mp spent).1
      have first := ((event_eq_ok l).mp spent).2
      have attributes : readAttrs l b₁.attrs 0 [] (attrs.map declared) =
          .ok ([], 0 + attrs.length) :=
        readAttrs_declared l legal.2 (by omega) (by omega) texts
      rw [Nat.zero_add] at attributes
      have second : b₂ =
          ⟨b₁.events, b₁.elements + 1, b₁.depth + 1, b₁.attrs + attrs.length⟩ := by
        simp only [Budget.start, check_bind_eq_ok, Except.ok.injEq] at opened
        exact opened.2.2.2.2.symm
      injection nested with nested
      refine ⟨⟨⟨more, b₂, true, c.declaration⟩, ?_, by simp, ?_⟩, ?_, ?_⟩
      · rw [Cursor.read, events, budget]
        simp only [Call.events, cons_append, nil_append, Cursor.readFrom, spent,
          legal.1, attributes, opened, ok_bind]
      · refine later _ ?_ rfl
        rw [result]
      · rw [result, ← nested]
        simp only [second, first]
      · rw [result]
        simp only [second, first]
        exact room
    · cases nested
  | close =>
    obtain ⟨b₁, spent, h⟩ := of_bind h
    rw [guard_eq_ok] at h
    obtain ⟨deep, h⟩ := h
    have room := ((event_eq_ok l).mp spent).1
    have first := ((event_eq_ok l).mp spent).2
    cases bindings : o.bindings with
    | nil => simp [bindings] at h
    | cons =>
      simp only [bindings] at h
      have result := write_budget h
      have sameDepth : b₁.depth = o.budget.depth := by rw [first]
      simp only [Call.nesting, ← sameDepth] at nested
      have nested : b₁.depth - 1 = depth := by
        split at nested
        · cases nested
        · injection nested
      refine ⟨⟨⟨more, { b₁ with depth := b₁.depth - 1 }, c.started, c.declaration⟩, ?_, by simp,
        ?_⟩, ?_, ?_⟩
      · rw [Cursor.read, events, budget]
        simp only [Call.events, cons_append, nil_append, Cursor.readFrom, spent,
          ok_bind, if_neg deep]
      · refine later _ ?_ rfl
        rw [result]
      · rw [result, ← nested]
      · rw [result]
        simp only [first]
        exact room
  | check =>
    obtain ⟨-, h⟩ := of_check h
    cases h
    injection nested with nested
    exact ⟨later c budget events, nested, within⟩
  | content value max =>
    simp only [Call.nesting] at nested
    split at nested
    · cases nested
    rename_i inside
    injection nested with nested
    obtain ⟨-, h⟩ := of_check h
    by_cases empty : value.toList.isEmpty = true
    · rw [if_pos empty] at h
      cases h
      have none : value.toList = [] := List.isEmpty_iff.mp empty
      refine ⟨?_, nested, within⟩
      simp only [Call.events, Call.tokens, none, segments, isEmpty_nil, if_true,
        List.map_nil, nil_append] at events ⊢
      exact later c budget events
    · rw [if_neg empty] at h
      obtain ⟨b₁, counted, h⟩ := of_bind h
      have result := write_budget h
      obtain ⟨n, rfl, bounded, count⟩ := @contentEvents_eq_ok l [] _ _ _ counted
      simp only [isEmpty_nil, if_true, Nat.add_zero] at count
      refine ⟨?_, ?_, ?_⟩
      · refine segments_deliver l (fun s hs => segments_special hs) events ?_ ?_ ?_
        · rw [budget]
          exact inside
        · rw [budget, ← count]
          exact bounded within
        · intro c' same remaining
          refine later c' ?_ remaining
          rw [same, budget, result, count]
      · rw [result]
        exact nested
      · rw [result]
        exact bounded within
  | item | command =>
    obtain ⟨-, h⟩ := of_check h
    cases h
    injection nested with nested
    exact ⟨later c budget events, nested, within⟩

theorem run_delivers {o o' : Output} {calls : List Call} {depth : Nat} {scope : Scope} {c : Cursor}
    {document : List Char} (h : o.run escape l calls = .ok o')
    (nested : nesting o.budget.depth calls = some depth) (finished : o'.finish l = .ok document)
    (budget : c.budget = o.budget) (within : o.budget.events ≤ l.events)
    (events : c.events = eventsOf scope calls) : c.Delivers l (tokensOf scope calls) := by
  induction calls generalizing o c scope with
  | nil =>
    cases h
    obtain ⟨b, spent, closed⟩ := of_bind finished
    rw [guard_eq_ok] at closed
    refine ⟨⟨[], b, c.started, c.declaration⟩, ?_, ?_, trivial⟩
    · rw [Cursor.read, events, budget]
      simp only [eventsOf, Cursor.readFrom, spent, ok_bind]
    · intro _
      exact not_not.mp closed.1
  | cons call calls ih =>
    obtain ⟨o₁, performed, h⟩ := of_bind h
    obtain ⟨d, here, rest⟩ := Option.bind_eq_some_iff.mp nested
    have delivered : ∀ {ts : List Token}, (∀ c' : Cursor, c'.budget = o₁.budget →
        c'.events = eventsOf (call.scope scope) calls → c'.Delivers l ts) →
        c.Delivers l (call.tokens scope ++ ts) ∧ o₁.budget.depth = d ∧
          o₁.budget.events ≤ l.events :=
      fun later => perform_delivers l escape performed here budget within events later
    have facts := (@delivered [] (fun _ _ _ => trivial)).2
    refine (delivered ?_).1
    intro c' budget' events'
    exact ih h (by rw [facts.1]; exact rest) budget' facts.2 events'

def Call.Checked : Call → Prop
  | check value max empty => text value max empty = .ok ()
  | content value max => text value max true = .ok ()
  | _ => True

def Call.isItem : Call → Bool
  | item => true
  | _ => false

def Call.isCommand : Call → Bool
  | command => true
  | _ => false

structure Performed (o : Output) (calls : List Call) (o' : Output) : Prop where
  checked : ∀ call ∈ calls, call.Checked
  items : o'.items = o.items + calls.countP Call.isItem
  itemsBounded : o.items ≤ l.items → o'.items ≤ l.items
  commands : o'.commands = o.commands + calls.countP Call.isCommand
  commandsBounded : o.commands ≤ l.commands → o'.commands ≤ l.commands
  written : o'.written = o.written ++ calls.flatMap (Call.spelling escape)
  max : o'.max = o.max
  fits : utf8Len o.written ≤ o.max → utf8Len o'.written ≤ o'.max

theorem write_fits {o o' : Output} {cs : List Char} (h : o.write cs = .ok o') :
    utf8Len o.written ≤ o.max → utf8Len o'.written ≤ o'.max := by
  intro before
  have room : ¬utf8Len cs > o.max - utf8Len o.written := by
    rw [Output.write, guard_eq_ok] at h
    exact h.1
  rw [write_budget h]
  simp only [utf8Len_append]
  omega

attribute [local simp] Call.Checked Call.isItem Call.isCommand

theorem perform_performed {o o' : Output} {call : Call} (h : o.perform escape l call = .ok o') :
    Performed l escape o [call] o' := by
  cases call with
  | start =>
    obtain ⟨_, -, h⟩ := of_bind h
    obtain ⟨_, -, h⟩ := of_bind h
    obtain ⟨-, h⟩ := of_check h
    obtain ⟨-, h⟩ := of_check h
    have fits := write_fits h
    have result := write_budget h
    subst result
    exact ⟨by simp, by simp, id, by simp, id,
      by simp [Call.spelling], rfl, fits⟩
  | close =>
    obtain ⟨_, -, h⟩ := of_bind h
    rw [guard_eq_ok] at h
    cases bindings : o.bindings with
    | nil => simp [bindings] at h
    | cons =>
      simp only [bindings] at h
      have fits := write_fits h.2
      have result := write_budget h.2
      subst result
      exact ⟨by simp, by simp, id, by simp, id,
        by simp [Call.spelling], rfl, fits⟩
  | check =>
    obtain ⟨checked, h⟩ := of_check h
    cases h
    exact ⟨by simpa using checked, by simp, id,
      by simp, id, by simp [Call.spelling], rfl, id⟩
  | content value =>
    obtain ⟨checked, h⟩ := of_check h
    by_cases empty : value.toList.isEmpty = true
    · rw [if_pos empty] at h
      cases h
      exact ⟨by simpa using checked, by simp, id,
        by simp, id, by simp [Call.spelling, List.isEmpty_iff.mp empty], rfl, id⟩
    · rw [if_neg empty] at h
      obtain ⟨_, -, h⟩ := of_bind h
      have fits := write_fits h
      have result := write_budget h
      subst result
      exact ⟨by simpa using checked, by simp, id,
        by simp, id, by simp [Call.spelling], rfl, fits⟩
  | item =>
    obtain ⟨room, h⟩ := of_check h
    cases h
    exact ⟨by simp, by simp, fun _ => bound_eq_ok.mp room,
      by simp, id, by simp [Call.spelling], rfl, id⟩
  | command =>
    obtain ⟨room, h⟩ := of_check h
    cases h
    exact ⟨by simp, by simp, id, by simp,
      fun _ => bound_eq_ok.mp room, by simp [Call.spelling], rfl, id⟩

theorem run_performed {o o' : Output} {calls : List Call} (h : o.run escape l calls = .ok o') :
    Performed l escape o calls o' := by
  induction calls generalizing o with
  | nil =>
    cases h
    exact ⟨by simp, rfl, id, rfl, id, by simp, rfl, id⟩
  | cons _ _ ih =>
    obtain ⟨o₁, performed, h⟩ := of_bind h
    have first := perform_performed l escape performed
    have rest := ih h
    refine ⟨?_, ?_, fun h => rest.itemsBounded (first.itemsBounded h), ?_,
      fun h => rest.commandsBounded (first.commandsBounded h), ?_, rest.max.trans first.max,
      fun h => rest.fits (first.fits h)⟩
    · intro c hc
      rcases mem_cons.mp hc with rfl | hc
      · exact first.checked c (.head _)
      · exact rest.checked c hc
    · rw [rest.items, first.items, Nat.add_assoc, ← List.countP_append, List.singleton_append]
    · rw [rest.commands, first.commands, Nat.add_assoc, ← List.countP_append,
        List.singleton_append]
    · rw [rest.written, first.written, List.append_assoc, ← List.flatMap_append,
        List.singleton_append]

end RssMdm.WindowsMdm.Xml
