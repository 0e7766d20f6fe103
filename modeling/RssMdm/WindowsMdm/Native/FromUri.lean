/- module: WindowsMdm/Native/FromUri
   source: crates/windows-mdm/src/native/request.rs
   digest: Concrete query URIs resolved to the schema by the most specific matching template. -/

import Mathlib.Order.Nat
import RssMdm.Lib.Champion
import RssMdm.WindowsMdm.Native.Dispatch
import RssMdm.WindowsMdm.Native.Identity

set_option autoImplicit false

namespace RssMdm.WindowsMdm.Native

open Lib.Champion (Scan)
open Lib.Fallible Lib.Text
open List (cons_append foldlM_cons mem_singleton)

section

/-- The spellings of a URI that the search tries. -/
def uriCandidates (uri : String) (scope : Scope) : List String :=
  if startsWith uri "./Vendor/MSFT/" then
    [uri, replaceFirst uri "./Vendor/"
      (if scope = .user then "./User/Vendor/" else "./Device/Vendor/")]
  else if startsWith uri "./Device/Vendor/" && scope = .device then
    [uri, replaceFirst uri "./Device/Vendor/" "./Vendor/"]
  else [uri]

def fits (template parts : List String) : Bool :=
  template.length = parts.length && (template.zip parts).all (fun (t, v) => t = "*" || t = v)

def literals (template : List String) : Nat := (template.filter (fun t => t ≠ "*")).length

/-- A template that the search takes up. -/
def applies (scope : Scope) (parts : List String) (node : Node) : Bool :=
  startsWith node.path "./User/" = decide (scope = .user) && fits (splitAt node.path '/') parts

variable (env : Natives) (decode : String → Option String) (operation : Verb)
  (value : Option Value)

def instancesOf (template parts : List String) : Except Error (List String) :=
  ((template.zip parts).filter (fun (t, _) => t = "*")).mapM (fun (_, v) =>
    match decode v with
    | some v => .ok v
    | none => .error .identity)

/-- The resolved request of a matching template, and its specificity. -/
def uriCandidate (m : List String × Node) : Except Error (Request × Nat) := do
  let template := splitAt m.2.path '/'
  let instances ← instancesOf decode template m.1
  let candidate := Request.node m.2.path instances operation value
  let _ ← candidate.resolve env
  .ok (candidate, literals template)

/-- `selected`, `specificity` and `ambiguous`. -/
abbrev Selection : Type := Scan Request Nat

def offer (s : Selection) (m : List String × Node) : Except Error Selection := do
  let (candidate, score) ← uriCandidate env decode operation value m
  .ok (s.add candidate score)

def consider (scope : Scope) (parts : List String) (s : Selection) (node : Node) :
    Except Error Selection :=
  if applies scope parts node then offer env decode operation value s (parts, node) else .ok s

/-- Resolve a concrete query URI to the frozen schema. -/
def Request.fromUri (uri : String) (scope : Scope) : Except Error Request := do
  let s ← (uriCandidates uri scope).foldlM (fun s concrete =>
    env.nodes.foldlM (consider env decode operation value scope (splitAt concrete '/')) s)
    ⟨none, 0, false⟩
  if s.tie then .error .identity
  else match s.best with
    | some candidate => .ok candidate
    | none => .error .unknownObject

end

section

variable {env : Natives} {decode : String → Option String} {operation : Verb}
  {value : Option Value}

/-- The templates that the search takes up, each with the parts it meets. -/
def matching (nodes : List Node) (uri : String) (scope : Scope) : List (List String × Node) :=
  (uriCandidates uri scope).flatMap fun concrete =>
    (nodes.filter (applies scope (splitAt concrete '/'))).map fun node =>
      (splitAt concrete '/', node)

theorem mem_matching {nodes : List Node} {uri : String} {scope : Scope} {m : List String × Node} :
    m ∈ matching nodes uri scope ↔ ∃ concrete ∈ uriCandidates uri scope,
      m.1 = splitAt concrete '/' ∧ m.2 ∈ nodes ∧ applies scope m.1 m.2 = true := by
  rw [matching, List.mem_flatMap]
  constructor
  · rintro ⟨concrete, candidate, member⟩
    obtain ⟨node, kept, rfl⟩ := List.mem_map.mp member
    obtain ⟨known, taken⟩ := List.mem_filter.mp kept
    exact ⟨concrete, candidate, rfl, known, taken⟩
  · rintro ⟨concrete, candidate, parts, known, taken⟩
    refine ⟨concrete, candidate, List.mem_map.mpr ⟨m.2, ?_, ?_⟩⟩
    · exact List.mem_filter.mpr ⟨known, parts ▸ taken⟩
    · rw [← parts]

theorem foldlM_consider (scope : Scope) (concretes : List String) (s : Selection) :
    concretes.foldlM (fun s concrete => env.nodes.foldlM
        (consider env decode operation value scope (splitAt concrete '/')) s) s =
      (concretes.flatMap fun concrete =>
        (env.nodes.filter (applies scope (splitAt concrete '/'))).map fun node =>
          (splitAt concrete '/', node)).foldlM (offer env decode operation value) s := by
  induction concretes generalizing s with
  | nil => rfl
  | cons concrete concretes ih =>
    rw [List.flatMap_cons, List.foldlM_append, List.foldlM_map, List.foldlM_filter,
      foldlM_cons]
    exact congrArg _ (funext fun t => ih t)

theorem foldlM_offer {found : List (List String × Node)} {s t : Selection} :
    found.foldlM (offer env decode operation value) s = .ok t ↔
      ∃ entries, List.Forall₂ (fun m e => uriCandidate env decode operation value m = .ok e)
        found entries ∧ t = Lib.Champion.run s entries := by
  induction found generalizing s with
  | nil =>
    constructor
    · intro h
      cases h
      exact ⟨[], .nil, rfl⟩
    · rintro ⟨entries, none, rfl⟩
      cases none
      rfl
  | cons m found ih =>
    constructor
    · intro h
      obtain ⟨next, step, rest⟩ := of_bind h
      obtain ⟨entry, names, step⟩ := of_bind step
      cases step
      obtain ⟨entries, all, rfl⟩ := ih.mp rest
      exact ⟨entry :: entries, .cons names all, rfl⟩
    · rintro ⟨entries, all, rfl⟩
      cases all with
      | @cons _ entry _ entries names all =>
        have step : offer env decode operation value s m = .ok (s.add entry.1 entry.2) := by
          rw [offer, names]
          rfl
        exact bind_eq_ok.mpr ⟨_, step, ih.mpr ⟨entries, all, rfl⟩⟩

theorem Request.fromUri_eq_ok {uri : String} {scope : Scope} {r : Request}
    (h : Request.fromUri env decode operation value uri scope = .ok r) :
    ∃ entries, List.Forall₂ (fun m e => uriCandidate env decode operation value m = .ok e)
        (matching env.nodes uri scope) entries ∧
      ∃ m ∈ matching env.nodes uri scope, ∃ score,
        uriCandidate env decode operation value m = .ok (r, score) := by
  obtain ⟨s, run, h⟩ := of_bind h
  rw [foldlM_consider] at run
  obtain ⟨entries, all, rfl⟩ := foldlM_offer.mp run
  rw [guard_eq_ok] at h
  split at h
  · rename_i front best
    cases h.2
    rcases Lib.Champion.mem_of_run best with ⟨score, member⟩ | none
    · obtain ⟨m, found, names⟩ := exists_left_of_mem all member
      exact ⟨entries, all, m, found, score, names⟩
    · cases none
  · cases h.2

end

section

variable {env : Natives} {decode : String → Option String} {operation : Verb}
  {value : Option Value}

theorem uriCandidate_eq_ok {m : List String × Node} {r : Request} {score : Nat}
    (h : uriCandidate env decode operation value m = .ok (r, score)) :
    ∃ instances, instancesOf decode (splitAt m.2.path '/') m.1 = .ok instances ∧
      r = .node m.2.path instances operation value ∧ (∃ resolved, r.resolve env = .ok resolved) ∧
      score = literals (splitAt m.2.path '/') := by
  obtain ⟨instances, decoded, h⟩ := of_bind h
  obtain ⟨resolved, resolves, h⟩ := of_bind h
  cases h
  exact ⟨instances, decoded, rfl, ⟨resolved, resolves⟩, rfl⟩

theorem fits_mirrors {template parts instances : List String} (fit : fits template parts = true)
    (decoded : instancesOf decode template parts = .ok instances) :
    Mirrors decode template instances parts := by
  induction template generalizing parts instances with
  | nil =>
    cases parts with
    | nil =>
      cases decoded
      exact .nil
    | cons => simp [fits] at fit
  | cons component template ih =>
    cases parts with
    | nil => simp [fits] at fit
    | cons part parts =>
      simp only [fits, List.length_cons, Nat.add_right_cancel_iff, List.zip_cons_cons,
        List.all_cons, Bool.and_eq_true, Bool.or_eq_true, decide_eq_true_eq] at fit
      obtain ⟨counted, meets, rest⟩ := fit
      have fitRest : fits template parts = true := by
        simp only [fits, counted, decide_true, Bool.true_and, rest]
      by_cases star : component = "*"
      · subst star
        rw [instancesOf, List.zip_cons_cons, List.filter_cons_of_pos (by simp),
          List.mapM_cons] at decoded
        obtain ⟨text, reads, decoded⟩ := of_bind decoded
        obtain ⟨texts, others, h⟩ := of_bind decoded
        cases h
        refine .dynamic ?_ (ih fitRest others)
        dsimp only at reads
        split at reads
        · rename_i known
          cases reads
          exact known
        · cases reads
      · rw [instancesOf, List.zip_cons_cons, List.filter_cons_of_neg (by simpa using star)]
          at decoded
        have same : component = part := meets.resolve_left star
        subst same
        exact .literal star (ih fitRest decoded)

theorem resolveNode_identity {node : String} {instances : List String} {x : Resolution}
    (h : resolveNode env node instances operation value = .ok x) :
    ∃ uri, identity node instances = .ok uri := by
  obtain ⟨selected, -, h⟩ := of_bind h
  rw [guard_eq_ok] at h
  obtain ⟨uri, identified, -⟩ := of_bind h.2
  exact ⟨uri, identified⟩

theorem Request.resolve_identity {node : String} {instances : List String} {resolved : Resolved}
    (h : (Request.node node instances operation value).resolve env = .ok resolved) :
    ∃ uri, identity node instances = .ok uri := by
  obtain ⟨-, done, related, -⟩ := Request.resolve_eq_ok h
  cases related with
  | cons resolves => exact resolveNode_identity resolves

def SameComponent (decode : String → Option String) (a b : String) : Prop :=
  a = b ∨ ∃ text, decode a = some text ∧ decode b = some text

def SameUri (decode : String → Option String) (a b : String) : Prop :=
  List.Forall₂ (SameComponent decode) (splitAt a '/') (splitAt b '/')

theorem Mirrors.same {template segments parts others : List String}
    (mirrors : Mirrors decode template segments parts)
    (other : Mirrors decode template segments others) :
    List.Forall₂ (SameComponent decode) parts others := by
  induction mirrors generalizing others with
  | nil =>
    cases other
    exact .nil
  | literal fixed _ ih =>
    cases other with
    | literal _ further => exact .cons (.inl rfl) (ih further)
    | dynamic => exact absurd rfl fixed
  | @dynamic _ text _ _ _ reads _ ih =>
    cases other with
    | literal fixed => exact absurd rfl fixed
    | dynamic otherReads further => exact .cons (.inr ⟨text, reads, otherReads⟩) (ih further)

/-- The vendor subtree under its three addresses. -/
def Alias (uri other : String) : Prop :=
  other = uri ∨ ∃ rest : List Char,
    (uri.toList = "./Vendor/".toList ++ rest ∧ (other.toList = "./Device/Vendor/".toList ++ rest ∨
      other.toList = "./User/Vendor/".toList ++ rest)) ∨
    (uri.toList = "./Device/Vendor/".toList ++ rest ∧ other.toList = "./Vendor/".toList ++ rest)

theorem replaceFirst_start {uri old : String} (new : String) {rest : List Char}
    (start : uri.toList = old.toList ++ rest) (inhabited : old.toList ≠ []) :
    (replaceFirst uri old new).toList = new.toList ++ rest := by
  rw [replaceFirst, String.toList_ofList, start]
  cases chars : old.toList with
  | nil => exact absurd chars inhabited
  | cons c cs =>
    have front : (c :: cs).isPrefixOf (c :: (cs ++ rest)) = true :=
      List.isPrefixOf_iff_prefix.mpr ⟨rest, rfl⟩
    rw [cons_append, replaceFirstIn, if_pos front, ← cons_append, List.drop_left]

theorem uriCandidates_alias {uri other : String} {scope : Scope}
    (candidate : other ∈ uriCandidates uri scope) : Alias uri other := by
  unfold uriCandidates at candidate
  split at candidate
  · rename_i start
    obtain ⟨rest, whole⟩ := List.isPrefixOf_iff_prefix.mp start
    have vendor : uri.toList = "./Vendor/".toList ++ ("MSFT/".toList ++ rest) := by
      rw [← whole, ← List.append_assoc]
      exact congrArg (· ++ rest) (by decide)
    rcases List.mem_cons.mp candidate with rfl | second
    · exact .inl rfl
    rw [mem_singleton.mp second]
    refine .inr ⟨_, .inl ⟨vendor, ?_⟩⟩
    have renamed := fun new => replaceFirst_start new vendor (by decide)
    split
    · exact .inr (renamed _)
    · exact .inl (renamed _)
  · split at candidate
    · rename_i start
      obtain ⟨rest, whole⟩ := List.isPrefixOf_iff_prefix.mp (Bool.and_eq_true_iff.mp start).1
      rcases List.mem_cons.mp candidate with rfl | second
      · exact .inl rfl
      · rw [mem_singleton.mp second]
        exact .inr ⟨rest, .inr ⟨whole.symm, replaceFirst_start _ whole.symm (by decide)⟩⟩
    · exact .inl (mem_singleton.mp candidate)

theorem Alias.eq_of_slash {uri other : String} (other_of : Alias uri other)
    (start : uri.toList.head? = some '/') : other = uri := by
  rcases other_of with same | ⟨rest, ⟨whole, -⟩ | ⟨whole, -⟩⟩
  · exact same
  · rw [whole] at start
    revert start
    simp
  · rw [whole] at start
    revert start
    simp

end

section

variable {env : Natives} {decode : String → Option String} {operation : Verb}
  {value : Option Value}

theorem head?_splitAt_slash {s : String} (start : s.toList.head? = some '/') :
    ∃ rest, rest ≠ [] ∧ splitAt s '/' = "" :: rest := by
  cases chars : s.toList with
  | nil =>
    rw [chars] at start
    cases start
  | cons _ tail =>
    rw [chars] at start
    cases start
    refine ⟨(tail.splitOn '/').map String.ofList, ?_, ?_⟩
    · intro none
      exact List.splitOn_ne_nil '/' tail (List.map_eq_nil_iff.mp none)
    · rw [splitAt, chars, Lib.Joined.splitOn_separator]
      rfl

theorem slash_of_splitAt {s : String} {rest : List String} (split : splitAt s '/' = "" :: rest)
    (longer : rest ≠ []) : s.toList.head? = some '/' := by
  by_contra start
  rcases Lib.Joined.splitOn_front start with empty | ⟨part, parts, pieces, inhabited⟩
  · rw [splitAt, empty, List.splitOn_nil, List.map_singleton] at split
    exact longer (List.tail_eq_of_cons_eq split).symm
  · rw [splitAt, pieces, List.map_cons] at split
    have blank : String.ofList part = "" := List.head_eq_of_cons_eq split
    exact inhabited (String.ofList_injective blank)

theorem Mirrors.front {component : String} {template segments parts : List String}
    (mirrors : Mirrors decode (component :: template) segments parts) (fixed : component ≠ "*") :
    ∃ rest, parts = component :: rest ∧ rest.length = template.length := by
  cases mirrors with
  | literal _ further => exact ⟨_, rfl, further.length⟩
  | dynamic => exact absurd rfl fixed

theorem fromUri_identity (documented : ∀ s, decode s = Lib.Percent.decode s) {uri node : String}
    {scope : Scope} {instances : List String} {verb : Verb} {input : Option Value}
    (h : Request.fromUri env decode operation value uri scope =
      .ok (.node node instances verb input)) :
    (∃ own other, identity node instances = .ok own ∧ Alias uri other ∧ SameUri decode own other) ↔
      node.toList.head? ≠ some '/' := by
  have decodes : decode = Lib.Percent.decode := funext documented
  obtain ⟨-, -, m, found, score, names⟩ := Request.fromUri_eq_ok h
  obtain ⟨_, decoded, same, ⟨resolved, resolves⟩, -⟩ := uriCandidate_eq_ok names
  cases same
  obtain ⟨own, identified⟩ := Request.resolve_identity resolves
  obtain ⟨concrete, candidate, parts, -, taken⟩ := mem_matching.mp found
  have fit := (Bool.and_eq_true_iff.mp taken).2
  have meets := fits_mirrors fit decoded
  constructor
  · rintro ⟨own', other, identified', other_of, spelled⟩ start
    have unique : own' = own := Except.ok.inj (identified'.symm.trans identified)
    subst unique
    obtain ⟨rest, longer, template⟩ := head?_splitAt_slash start
    have concreteStart : concrete.toList.head? = some '/' := by
      rw [template, parts] at meets
      obtain ⟨others, pieces, counted⟩ := meets.front (by decide)
      refine slash_of_splitAt pieces ?_
      rintro rfl
      exact longer (List.length_eq_zero_iff.mp counted.symm)
    have uriStart : uri.toList.head? = some '/' := by
      rcases uriCandidates_alias candidate with same | ⟨rest, ⟨-, whole | whole⟩ | ⟨-, whole⟩⟩
      · rw [← same]
        exact concreteStart
      all_goals
        rw [whole] at concreteStart
        revert concreteStart
        simp
    have only := other_of.eq_of_slash uriStart
    have counted := spelled.length_eq
    have fewer := identity_length_lt identified start
    have whole := meets.length
    have concreteOnly : concrete = uri := (uriCandidates_alias candidate).eq_of_slash uriStart
    rw [only, ← concreteOnly, ← parts, whole] at counted
    omega
  · intro start
    have carries := identity_mirrors identified start
    rw [← decodes] at carries
    refine ⟨own, concrete, identified, uriCandidates_alias candidate, ?_⟩
    rw [SameUri, ← parts]
    exact carries.same meets

/-- A matching template decodes and resolves. -/
def Nameable (env : Natives) (decode : String → Option String) (operation : Verb)
    (value : Option Value) (m : List String × Node) : Prop :=
  ∃ instances, instancesOf decode (splitAt m.2.path '/') m.1 = .ok instances ∧
    ∃ resolved, (Request.node m.2.path instances operation value).resolve env = .ok resolved

theorem nameable_iff {m : List String × Node} : Nameable env decode operation value m ↔
    ∃ entry, uriCandidate env decode operation value m = .ok entry := by
  constructor
  · rintro ⟨instances, decoded, resolved, resolves⟩
    refine ⟨(.node m.2.path instances operation value, literals (splitAt m.2.path '/')), ?_⟩
    exact bind_eq_ok.mpr ⟨instances, decoded, bind_eq_ok.mpr ⟨resolved, resolves, rfl⟩⟩
  · rintro ⟨⟨r, score⟩, names⟩
    obtain ⟨instances, decoded, rfl, resolves, -⟩ := uriCandidate_eq_ok names
    exact ⟨instances, decoded, resolves⟩

theorem entries_score {found : List (List String × Node)} {entries : List (Request × Nat)}
    {bound : Nat} (all : List.Forall₂ (fun m e => uriCandidate env decode operation value m = .ok e)
      found entries) (less : ∀ m ∈ found, literals (splitAt m.2.path '/') < bound) :
    ∀ entry ∈ entries, entry.2 < bound := by
  intro entry member
  obtain ⟨m, inside, names⟩ := exists_left_of_mem all member
  obtain ⟨-, -, -, -, score⟩ := uriCandidate_eq_ok names
  rw [score]
  exact less m inside

theorem fromUri_unique {uri : String} {scope : Scope} {before after : List (List String × Node)}
    {m : List String × Node} {instances : List String}
    (found : matching env.nodes uri scope = before ++ m :: after)
    (less : ∀ other ∈ before ++ after,
      literals (splitAt other.2.path '/') < literals (splitAt m.2.path '/'))
    (decoded : instancesOf decode (splitAt m.2.path '/') m.1 = .ok instances)
    (resolves : ∃ resolved,
      (Request.node m.2.path instances operation value).resolve env = .ok resolved) :
    Request.fromUri env decode operation value uri scope =
        .ok (.node m.2.path instances operation value) ↔
      ∀ other ∈ matching env.nodes uri scope, Nameable env decode operation value other := by
  constructor
  · intro h other member
    obtain ⟨entries, all, -⟩ := Request.fromUri_eq_ok h
    obtain ⟨entry, -, names⟩ := exists_right_of_mem all member
    exact nameable_iff.mpr ⟨entry, names⟩
  · intro all
    rw [found] at all
    obtain ⟨resolved, resolves⟩ := resolves
    obtain ⟨first, allFirst⟩ := forall₂_exists fun other member =>
      nameable_iff.mp <| all other (List.mem_append_left _ member)
    obtain ⟨second, allSecond⟩ := forall₂_exists fun other member =>
      nameable_iff.mp <| all other (List.mem_append_right _ (List.mem_cons_of_mem m member))
    have own : uriCandidate env decode operation value m =
        .ok (.node m.2.path instances operation value, literals (splitAt m.2.path '/')) :=
      bind_eq_ok.mpr ⟨instances, decoded, bind_eq_ok.mpr ⟨resolved, resolves, rfl⟩⟩
    have below : ∀ entry ∈ first ++ second, entry.2 < literals (splitAt m.2.path '/') := by
      intro entry member
      rcases List.mem_append.mp member with inFirst | inSecond
      · exact entries_score allFirst
          (fun other inside => less other (List.mem_append_left _ inside)) entry inFirst
      · exact entries_score allSecond
          (fun other inside => less other (List.mem_append_right _ inside)) entry inSecond
    have allFound : List.Forall₂ (fun m e => uriCandidate env decode operation value m = .ok e)
        (matching env.nodes uri scope) (first ++ (.node m.2.path instances operation value,
          literals (splitAt m.2.path '/')) :: second) := by
      rw [found]
      exact List.rel_append allFirst (.cons own allSecond)
    have whole := foldlM_offer (s := ⟨none, 0, false⟩) |>.mpr ⟨_, allFound, rfl⟩
    rw [Lib.Champion.run_leads rfl below] at whole
    rw [Request.fromUri, foldlM_consider]
    exact bind_eq_ok.mpr ⟨_, whole, rfl⟩

/-- Identities carry their templates and determine their segments, and a query URI is resolved to
its one most specific template: the first and third unless a template starts with a slash, the last
unless another matching template fails. -/
theorem uri_identity (decode : String → Option String)
    (documented : ∀ s, decode s = Lib.Percent.decode s) :
    (∀ (template : String) (segments : List String) (uri : String),
      identity template segments = .ok uri →
        (Mirrors decode (splitAt template '/') segments (splitAt uri '/') ↔
          template.toList.head? ≠ some '/')) ∧
    (∀ (template : String) (segments others : List String) (uri : String),
      identity template segments = .ok uri → identity template others = .ok uri →
        segments = others) ∧
    (∀ (env : Natives) (operation : Verb) (value : Option Value) (uri : String) (scope : Scope)
      (node : String) (instances : List String) (verb : Verb) (input : Option Value),
      Request.fromUri env decode operation value uri scope =
        .ok (.node node instances verb input) →
        ((∃ own other, identity node instances = .ok own ∧ Alias uri other ∧
          SameUri decode own other) ↔ node.toList.head? ≠ some '/')) ∧
    (∀ (env : Natives) (operation : Verb) (value : Option Value) (uri : String) (scope : Scope)
      (before after : List (List String × Node)) (m : List String × Node)
      (instances : List String),
      matching env.nodes uri scope = before ++ m :: after →
      (∀ other ∈ before ++ after,
        literals (splitAt other.2.path '/') < literals (splitAt m.2.path '/')) →
      instancesOf decode (splitAt m.2.path '/') m.1 = .ok instances →
      (∃ resolved, (Request.node m.2.path instances operation value).resolve env = .ok resolved) →
        (Request.fromUri env decode operation value uri scope =
            .ok (.node m.2.path instances operation value) ↔
          ∀ other ∈ matching env.nodes uri scope, Nameable env decode operation value other)) := by
  have decodes : decode = Lib.Percent.decode := funext documented
  refine ⟨?_, ?_, ?_, ?_⟩
  · intro template segments uri h
    constructor
    · intro mirrors start
      have counted := mirrors.length
      have fewer := identity_length_lt h start
      omega
    · intro start
      rw [decodes]
      exact identity_mirrors h start
  · intro template segments others uri h h'
    exact identity_injective h h'
  · intro env operation value uri scope node instances verb input h
    exact fromUri_identity documented h
  · intro env operation value uri scope before after m instances found less decoded resolves
    exact fromUri_unique found less decoded resolves

end

/-- Two rows of the generated table. -/
def passport : Node :=
  { path := "./Device/Vendor/MSFT/PassportForWork/*", preview := false, boundedBranches := false,
    certificateBuilds := [], format := .node, access := 11, builds := [⟨10, 0, 10586, 0⟩],
    editions := some ["0x4", "0x1B"], mime := "", lifetime := "Dynamic", atomic := false,
    constraints := [] }

def useBiometrics : Node :=
  { passport with
    path := "./Device/Vendor/MSFT/PassportForWork/UseBiometrics", format := .boolean, access := 15 }

def passportNatives : Natives := { sampleNatives with nodes := [passport, useBiometrics] }

def biometricsParts : List String :=
  [".", "Device", "Vendor", "MSFT", "PassportForWork", "UseBiometrics"]

theorem matching_biometrics : matching passportNatives.nodes useBiometrics.path .device =
    [(biometricsParts, passport)] ++ [(biometricsParts, useBiometrics)] := by
  have tried : uriCandidates useBiometrics.path .device =
      [useBiometrics.path, "./Vendor/MSFT/PassportForWork/UseBiometrics"] := by decide
  have parts : splitAt useBiometrics.path '/' = biometricsParts := by decide
  have others : splitAt "./Vendor/MSFT/PassportForWork/UseBiometrics" '/' =
      [".", "Vendor", "MSFT", "PassportForWork", "UseBiometrics"] := by decide
  have general : applies .device biometricsParts passport = true := by decide
  have special : applies .device biometricsParts useBiometrics = true := by decide
  have short : applies .device [".", "Vendor", "MSFT", "PassportForWork", "UseBiometrics"]
      passport = false := by decide
  have short' : applies .device [".", "Vendor", "MSFT", "PassportForWork", "UseBiometrics"]
      useBiometrics = false := by decide
  have table : passportNatives.nodes = [passport, useBiometrics] := rfl
  simp only [matching, table, tried, List.flatMap_cons, List.flatMap_nil, parts, others,
    List.filter_cons, List.filter_nil, general, special, short, short', if_true, if_false,
    Bool.false_eq_true, List.map_cons, List.map_nil, List.append_nil, cons_append,
    List.nil_append]

theorem passport_known : schema passportNatives.nodes passport.path = .ok passport := by rfl

theorem useBiometrics_known :
    schema passportNatives.nodes useBiometrics.path = .ok useBiometrics := by rfl

theorem useBiometrics_resolves : ∃ resolved, (Request.node useBiometrics.path [] .replace
    (some (.boolean true))).resolve passportNatives = .ok resolved := by
  have identified : identity useBiometrics.path [] = .ok useBiometrics.path := by rfl
  exact Request.resolve_plain useBiometrics_known (by decide) identified (by decide) _

theorem passport_refuses (instances : List String) (value : Option Value) :
    (Request.node passport.path instances .replace value).resolve passportNatives =
      .error .operationNotAllowed := by
  rfl

/-- A matching template with no replacement keeps the one most specific template, which resolves,
from being returned. -/
theorem fromUri_shadowed :
    ∃ (before after : List (List String × Node)) (m : List String × Node) (instances : List String),
      matching passportNatives.nodes useBiometrics.path .device = before ++ m :: after ∧
        (∀ other ∈ before ++ after,
          literals (splitAt other.2.path '/') < literals (splitAt m.2.path '/')) ∧
        instancesOf Lib.Percent.decode (splitAt m.2.path '/') m.1 = .ok instances ∧
        (∃ resolved, (Request.node m.2.path instances .replace (some (.boolean true))).resolve
          passportNatives = .ok resolved) ∧
        Request.fromUri passportNatives Lib.Percent.decode .replace (some (.boolean true))
          useBiometrics.path .device = .error .operationNotAllowed := by
  have special : splitAt useBiometrics.path '/' = biometricsParts := by decide
  have general : splitAt passport.path '/' =
      [".", "Device", "Vendor", "MSFT", "PassportForWork", "*"] := by decide
  refine ⟨[(biometricsParts, passport)], [], (biometricsParts, useBiometrics), [],
    matching_biometrics, ?_, ?_, useBiometrics_resolves, ?_⟩
  · intro other member
    obtain rfl := mem_singleton.mp member
    dsimp only
    rw [general, special]
    decide
  · dsimp only
    rw [special]
    rfl
  · have stops : offer passportNatives Lib.Percent.decode .replace (some (.boolean true))
        ⟨none, 0, false⟩ (biometricsParts, passport) = .error .operationNotAllowed := by
      have decoded : Lib.Percent.decode "UseBiometrics" = some "UseBiometrics" := by decide
      have instances : instancesOf Lib.Percent.decode
          [".", "Device", "Vendor", "MSFT", "PassportForWork", "*"] biometricsParts =
            .ok ["UseBiometrics"] := by
        rw [instancesOf, biometricsParts]
        simp [decoded]
      rw [offer, uriCandidate]
      dsimp only
      rw [general, instances, ok_bind, passport_refuses]
      rfl
    rw [Request.fromUri, foldlM_consider]
    have found := matching_biometrics
    rw [matching] at found
    rw [found, cons_append, foldlM_cons, stops]
    rfl

/-- A template filled in with a segment that needs escaping. -/
theorem uri_identity_sample :
    Mirrors Lib.Percent.decode (splitAt passport.path '/') ["a b"]
      (splitAt "./Device/Vendor/MSFT/PassportForWork/a%20b" '/') := by
  have identified : identity passport.path ["a b"] =
      .ok "./Device/Vendor/MSFT/PassportForWork/a%20b" := by rfl
  exact ((uri_identity Lib.Percent.decode fun _ => rfl).1 passport.path ["a b"] _ identified).mpr
    (by decide)

end RssMdm.WindowsMdm.Native
