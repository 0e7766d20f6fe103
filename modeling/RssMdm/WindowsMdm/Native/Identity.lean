/- module: WindowsMdm/Native/Identity
   source: crates/windows-mdm/src/native/mod.rs
   digest: The components of a canonical node identity and the segments read back from them. -/

import RssMdm.Lib.Joined
import RssMdm.Lib.Percent
import RssMdm.WindowsMdm.Native.Schema

set_option autoImplicit false

namespace RssMdm.WindowsMdm.Native

open Lib.Fallible Lib.Joined Lib.Text
open Lib (Percent.encode Percent.decode Percent.Keeps)
open List (length_cons map_cons mem_cons_of_mem)
open String (toList_ofList)

theorem unreserved_keeps : Percent.Keeps unreserved := by
  intro b stays
  simp only [unreserved, Bool.or_eq_true, Bool.and_eq_true, decide_eq_true_eq] at stays
  omega

theorem unreserved_slash {b : UInt8} (stays : unreserved b = true) : Char.ofNat b.toNat ≠ '/' := by
  intro slash
  have small := (unreserved_keeps b stays).1
  have code : (Char.ofNat b.toNat).toNat = b.toNat := Lib.Percent.charOfNat_toNat small
  have value : b.toNat = 47 := by
    rw [← code, slash]
    rfl
  simp only [unreserved, Bool.or_eq_true, Bool.and_eq_true, decide_eq_true_eq] at stays
  omega

variable {value : String} {encoded : List Char}

theorem identitySegment_eq_ok (h : identitySegment value = .ok encoded) :
    value ≠ "" ∧ encoded = Percent.encode unreserved (asBytes value) := by
  unfold identitySegment at h
  rw [guard_eq_ok, guard_eq_ok] at h
  obtain ⟨valid, -, h⟩ := h
  cases h
  refine ⟨?_, rfl⟩
  rintro rfl
  simp at valid

theorem identitySegment_inhabited (h : identitySegment value = .ok encoded) : encoded ≠ [] := by
  obtain ⟨inhabited, rfl⟩ := identitySegment_eq_ok h
  exact Lib.Percent.encode_ne_nil inhabited

theorem identitySegment_slash (h : identitySegment value = .ok encoded) : '/' ∉ encoded := by
  obtain ⟨-, rfl⟩ := identitySegment_eq_ok h
  intro member
  rcases Lib.Percent.mem_encode member with ⟨b, stays, slash⟩ | percent | digit
  · exact unreserved_slash stays slash.symm
  · revert percent
    decide
  · revert digit
    decide

theorem identitySegment_decode (h : identitySegment value = .ok encoded) :
    Percent.decode (String.ofList encoded) = some value := by
  obtain ⟨-, rfl⟩ := identitySegment_eq_ok h
  exact Lib.Percent.decode_encode unreserved_keeps value

theorem identitySegment_injective {other : String} (h : identitySegment value = .ok encoded)
    (h' : identitySegment other = .ok encoded) :
    value = other := by
  have back := identitySegment_decode h
  rw [identitySegment_decode h'] at back
  exact (Option.some.inj back).symm

section

/-- What the components of a template contribute, and the segments left over. -/
inductive Spelled : List String → List String → List (List Char) → List String → Prop where
  | nil (segments : List String) : Spelled [] segments [] segments
  | literal {component : String} {template segments left : List String}
      {parts : List (List Char)} (fixed : component ≠ "*")
      (rest : Spelled template segments parts left) :
      Spelled (component :: template) segments (component.toList :: parts) left
  | dynamic {value : String} {encoded : List Char} {template segments left : List String}
      {parts : List (List Char)} (spells : identitySegment value = .ok encoded)
      (rest : Spelled template segments parts left) :
      Spelled ("*" :: template) (value :: segments) (encoded :: parts) left

variable {template segments left : List String}

theorem identityLoop_eq_ok {text out : List Char}
    (h : identityLoop text segments template = .ok (out, left)) :
    ∃ parts, Spelled template segments parts left ∧ out = joined '/' text parts := by
  induction template generalizing text segments with
  | nil =>
    cases h
    exact ⟨[], .nil _, rfl⟩
  | cons component template ih =>
    unfold identityLoop at h
    dsimp only at h
    split at h
    · rename_i fixed
      obtain ⟨parts, rest, rfl⟩ := ih h
      exact ⟨component.toList :: parts, .literal fixed rest, rfl⟩
    rename_i dynamic
    cases segments with
    | nil => cases h
    | cons =>
      obtain ⟨encoded, spells, h⟩ := of_bind h
      obtain ⟨parts, rest, rfl⟩ := ih h
      have star : component = "*" := not_not.mp dynamic
      subst star
      exact ⟨encoded :: parts, .dynamic spells rest, rfl⟩

theorem identity_eq_ok {template uri : String} (h : identity template segments = .ok uri) :
    ∃ parts, Spelled (splitAt template '/') segments parts [] ∧
      uri.toList = joined '/' [] parts := by
  obtain ⟨⟨out, left⟩, run, h⟩ := of_bind h
  obtain ⟨parts, spelled, rfl⟩ := identityLoop_eq_ok run
  dsimp only at h
  rw [guard_eq_ok, guard_eq_ok] at h
  obtain ⟨used, -, h⟩ := h
  cases h
  have none : left = [] := by simpa using used
  rw [none] at spelled
  exact ⟨parts, spelled, toList_ofList⟩

variable {parts : List (List Char)}

theorem Spelled.slash (spelled : Spelled template segments parts left)
    (clean : ∀ t ∈ template, '/' ∉ t.toList) :
    ∀ part ∈ parts, '/' ∉ part := by
  induction spelled with
  | nil => exact fun part member => nomatch member
  | @literal component _ _ _ _ _ _ ih =>
    intro part member
    rcases List.mem_cons.mp member with rfl | later
    · exact clean component (.head _)
    · exact ih (fun t inside => clean t (.tail _ inside)) part later
  | dynamic spells _ ih =>
    intro part member
    rcases List.mem_cons.mp member with rfl | later
    · exact identitySegment_slash spells
    · exact ih (fun t inside => clean t (.tail _ inside)) part later

theorem Spelled.length (spelled : Spelled template segments parts left) :
    parts.length = template.length := by
  induction spelled with
  | nil => rfl
  | literal _ _ ih | dynamic _ _ ih => rw [length_cons, length_cons, ih]

theorem Spelled.front {component : String}
    (spelled : Spelled (component :: template) segments parts left) :
    ∃ part rest, parts = part :: rest ∧ rest.length = template.length ∧
      (part = component.toList ∨ component = "*" ∧ part ≠ []) := by
  cases spelled with
  | literal _ further => exact ⟨_, _, rfl, further.length, .inl rfl⟩
  | dynamic spells further =>
    exact ⟨_, _, rfl, further.length, .inr ⟨rfl, identitySegment_inhabited spells⟩⟩

variable {others : List String}

theorem Spelled.shape {rest : List String} {otherParts : List (List Char)}
    (spelled : Spelled template segments parts left)
    (other : Spelled template others otherParts rest) :
    List.Forall₂ (fun p q => p = [] ↔ q = []) parts otherParts := by
  induction spelled generalizing others otherParts with
  | nil =>
    cases other
    exact .nil
  | literal fixed _ ih =>
    cases other with
    | literal _ further => exact .cons Iff.rfl (ih further)
    | dynamic => exact absurd rfl fixed
  | dynamic spells _ ih =>
    cases other with
    | literal fixed => exact absurd rfl fixed
    | dynamic otherSpells further =>
      have inhabited := identitySegment_inhabited spells
      have otherInhabited := identitySegment_inhabited otherSpells
      exact .cons (iff_of_false inhabited otherInhabited) (ih further)

theorem Spelled.injective (spelled : Spelled template segments parts left)
    (other : Spelled template others parts left) : segments = others := by
  induction spelled generalizing others with
  | nil =>
    cases other
    rfl
  | literal fixed _ ih =>
    cases other with
    | literal _ further => exact ih further
    | dynamic => exact absurd rfl fixed
  | dynamic spells _ ih =>
    cases other with
    | literal fixed => exact absurd rfl fixed
    | dynamic otherSpells further =>
      rw [identitySegment_injective spells otherSpells, ih further]

theorem Spelled.append (spelled : Spelled (template ++ others) segments parts left) :
    ∃ first second rest, parts = first ++ second ∧ Spelled template segments first rest ∧
      Spelled others rest second left := by
  induction template generalizing segments parts with
  | nil => exact ⟨[], parts, segments, rfl, .nil segments, spelled⟩
  | cons _ _ ih =>
    cases spelled with
    | literal fixed further =>
      obtain ⟨first, second, rest, rfl, before, after⟩ := ih further
      exact ⟨_ :: first, second, rest, rfl, .literal fixed before, after⟩
    | dynamic spells further =>
      obtain ⟨first, second, rest, rfl, before, after⟩ := ih further
      exact ⟨_ :: first, second, rest, rfl, .dynamic spells before, after⟩

theorem Spelled.of_no_star (spelled : Spelled template segments parts left)
    (fixed : "*" ∉ template) :
    left = segments := by
  induction spelled with
  | nil => rfl
  | literal _ _ ih => exact ih fun member => fixed (.tail _ member)
  | dynamic => exact absurd (.head _) fixed

theorem splitAt_clean (template : String) : ∀ t ∈ splitAt template '/', '/' ∉ t.toList := by
  intro t member
  obtain ⟨part, inside, rfl⟩ := List.mem_map.mp member
  rw [toList_ofList]
  exact not_mem_of_mem_splitOn inside

theorem identity_last {template uri : String} {instances : List String} {start last : List Char}
    (h : identity template instances = .ok uri) (ends : template.toList = start ++ '/' :: last)
    (single : '/' ∉ last) (fixed : last ≠ ['*']) : last <:+ uri.toList := by
  obtain ⟨parts, spelled, text⟩ := identity_eq_ok h
  have pieces : splitAt template '/' =
      (start.splitOn '/').map String.ofList ++ [String.ofList last] := by
    rw [splitAt, ends, List.splitOn_append_cons_self, List.splitOn_eq_singleton single,
      List.map_append, List.map_singleton]
  rw [pieces] at spelled
  obtain ⟨first, second, rest, rfl, -, final⟩ := spelled.append
  obtain ⟨part, none, rfl, counted, own⟩ := final.front
  have alone : none = [] := List.length_eq_zero_iff.mp counted
  have literal : String.ofList last ≠ "*" := by
    intro star
    exact fixed (String.ofList_injective star)
  have same : part = last := by
    rcases own with rfl | ⟨star, -⟩
    · exact toList_ofList
    · exact absurd star literal
  rw [text, joined_append, alone, same, joined_cons]
  exact List.suffix_append _ last

end

/-- Components that carry the template: its literals, and at each star what decodes to a segment. -/
inductive Mirrors (decode : String → Option String) :
    List String → List String → List String → Prop where
  | nil : Mirrors decode [] [] []
  | literal {component : String} {template segments components : List String}
      (fixed : component ≠ "*") (rest : Mirrors decode template segments components) :
      Mirrors decode (component :: template) segments (component :: components)
  | dynamic {component value : String} {template segments components : List String}
      (reads : decode component = some value)
      (rest : Mirrors decode template segments components) :
      Mirrors decode ("*" :: template) (value :: segments) (component :: components)

variable {segments : List String}

theorem Mirrors.length {decode : String → Option String} {template components : List String}
    (mirrors : Mirrors decode template segments components) :
    components.length = template.length := by
  induction mirrors with
  | nil => rfl
  | literal _ _ ih | dynamic _ _ ih => rw [length_cons, length_cons, ih]

theorem Spelled.mirrors {template left : List String} {parts : List (List Char)}
    (spelled : Spelled template segments parts left) (used : left = []) :
    Mirrors Percent.decode template segments (parts.map String.ofList) := by
  induction spelled with
  | nil =>
    subst used
    exact .nil
  | literal fixed _ ih =>
    rw [map_cons, String.ofList_toList]
    exact .literal fixed (ih used)
  | dynamic spells _ ih =>
    rw [map_cons]
    exact .dynamic (identitySegment_decode spells) (ih used)

variable {template : String}

theorem identity_mirrors {uri : String} (h : identity template segments = .ok uri)
    (start : template.toList.head? ≠ some '/') :
    Mirrors Percent.decode (splitAt template '/') segments (splitAt uri '/') := by
  obtain ⟨parts, spelled, text⟩ := identity_eq_ok h
  have clean := spelled.slash (splitAt_clean template)
  have mirrors := spelled.mirrors rfl
  have whole : uri.toList.splitOn '/' = parts := by
    rw [text]
    rcases splitOn_front start with empty | ⟨first, rest, pieces, inhabited⟩
    · rw [splitAt, empty, List.splitOn_nil, List.map_singleton] at spelled
      obtain ⟨part, rest, rfl, counted, first⟩ := spelled.front
      have alone : rest = [] := List.length_eq_zero_iff.mp counted
      rcases first with rfl | ⟨star, -⟩
      · rw [alone, toList_ofList]
        rfl
      · exact absurd star (by decide)
    · rw [splitAt, pieces, map_cons] at spelled
      obtain ⟨part, rest, rfl, -, first⟩ := spelled.front
      rcases first with rfl | ⟨-, full⟩
      · rw [toList_ofList] at clean ⊢
        exact splitOn_joined inhabited clean
      · exact splitOn_joined full clean
  have components : splitAt uri '/' = parts.map String.ofList := congrArg _ whole
  rw [components]
  exact mirrors

theorem identity_length_lt {uri : String} (h : identity template segments = .ok uri)
    (start : template.toList.head? = some '/') :
    (splitAt uri '/').length < (splitAt template '/').length := by
  obtain ⟨parts, spelled, text⟩ := identity_eq_ok h
  have clean := spelled.slash (splitAt_clean template)
  obtain ⟨rest, tail⟩ : ∃ rest, template.toList = '/' :: rest := by
    cases chars : template.toList with
    | nil =>
      rw [chars] at start
      cases start
    | cons _ rest =>
      rw [chars] at start
      cases start
      exact ⟨rest, rfl⟩
  have pieces : splitAt template '/' = "" :: splitAt (String.ofList rest) '/' := by
    rw [splitAt, tail, splitOn_separator, map_cons, splitAt, toList_ofList]
  rw [pieces] at spelled
  obtain ⟨part, further, rfl, counted, first⟩ := spelled.front
  rcases first with rfl | ⟨star, -⟩
  · have some : further ≠ [] := by
      rintro rfl
      have split : (String.ofList rest).toList.splitOn '/' = [] := by
        have none := List.length_eq_zero_iff.mp counted.symm
        exact List.map_eq_nil_iff.mp none
      exact List.splitOn_ne_nil _ _ split
    have fewer := splitOn_joined_length_le some
      fun part member => clean part (.tail _ member)
    have front : joined '/' [] ("".toList :: further) = joined '/' [] further :=
      joined_blank '/' further
    rw [pieces, length_cons, splitAt, List.length_map, text, front]
    omega
  · exact absurd star (by decide)

theorem identity_injective {uri : String} {others : List String}
    (h : identity template segments = .ok uri) (h' : identity template others = .ok uri) :
    segments = others := by
  obtain ⟨parts, spelled, text⟩ := identity_eq_ok h
  obtain ⟨otherParts, other, otherText⟩ := identity_eq_ok h'
  have clean := spelled.slash (splitAt_clean template)
  have otherClean := other.slash (splitAt_clean template)
  have same : parts = otherParts :=
    joined_injective (spelled.shape other) clean otherClean (text.symm.trans otherText)
  subst same
  exact spelled.injective other

end RssMdm.WindowsMdm.Native
