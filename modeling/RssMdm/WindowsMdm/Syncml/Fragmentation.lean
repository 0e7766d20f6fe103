/- module: WindowsMdm/Syncml/Fragmentation
   source: crates/windows-mdm/src/syncml/fragment.rs
   digest: The frames of one object lose nothing, make progress, and are as long as they can be. -/

import RssMdm.WindowsMdm.Syncml.FrameFit
import RssMdm.WindowsMdm.Xml.Wire

set_option autoImplicit false

namespace RssMdm.WindowsMdm.Syncml

open Lib.Fallible Lib.Bisection
open Lib.Text (sliceFrom sliceTo sliceFrom_eq_some sliceTo_append utf8ByteSize_eq utf8Len
  utf8Len_append utf8Len_cons)
open WindowsMdm.Xml (Escape Output)

section

variable {data : String}

theorem isCharBoundary_iff {n : Nat} : isCharBoundary data n = true ↔
    ∃ taken rest, data.toList = taken ++ rest ∧ utf8Len taken = n := by
  rw [isCharBoundary, Option.isSome_iff_exists]
  constructor
  · rintro ⟨rest, h⟩
    obtain ⟨taken, eq, length⟩ := sliceFrom_eq_some.mp h
    exact ⟨taken, rest, eq, length⟩
  · rintro ⟨taken, rest, eq, length⟩
    exact ⟨rest, sliceFrom_eq_some.mpr ⟨taken, eq, length⟩⟩

theorem isCharBoundary_zero : isCharBoundary data 0 = true :=
  isCharBoundary_iff.mpr ⟨[], data.toList, rfl, rfl⟩

theorem isCharBoundary_size : isCharBoundary data data.utf8ByteSize = true :=
  isCharBoundary_iff.mpr ⟨data.toList, [], (List.append_nil _).symm, (utf8ByteSize_eq data).symm⟩

theorem utf8Len_pos {cs : List Char} (h : cs ≠ []) : 0 < utf8Len cs := by
  cases cs with
  | nil => exact absurd rfl h
  | cons c =>
    rw [utf8Len_cons]
    have := c.utf8Size_pos
    omega

/-- The text before a boundary. -/
def head (data : String) (n : Nat) : List Char := (sliceTo data.toList n).getD []

theorem head_eq {taken rest : List Char} (h : data.toList = taken ++ rest) :
    head data (utf8Len taken) = taken := by
  rw [head, h, sliceTo_append, Option.getD_some]

theorem head_zero : head data 0 = [] := head_eq (List.nil_append data.toList).symm

theorem head_size : head data data.utf8ByteSize = data.toList := by
  rw [utf8ByteSize_eq]
  exact head_eq (List.append_nil data.toList).symm

theorem head_slice {o e : Nat} (start : isCharBoundary data o = true)
    (stop : isCharBoundary data e = true) (le : o ≤ e) :
    head data o ++ (slice data o e).toList = head data e := by
  obtain ⟨a, rest, eq, rfl⟩ := isCharBoundary_iff.mp start
  obtain ⟨ab, c, eq', rfl⟩ := isCharBoundary_iff.mp stop
  have nested : a <+: ab := by
    rcases List.prefix_or_prefix_of_prefix (⟨rest, eq.symm⟩ : a <+: data.toList)
      (⟨c, eq'.symm⟩ : ab <+: data.toList) with shorter | longer
    · exact shorter
    obtain ⟨more, rfl⟩ := longer
    rw [utf8Len_append] at le
    have none : more = [] := by
      by_contra some
      have := utf8Len_pos some
      omega
    exact ⟨[], by rw [none, List.append_nil, List.append_nil]⟩
  obtain ⟨b, rfl⟩ := nested
  have after : sliceFrom data.toList (utf8Len a) = some (b ++ c) :=
    sliceFrom_eq_some.mpr ⟨a, by rw [eq', List.append_assoc], rfl⟩
  have size : utf8Len (a ++ b) - utf8Len a = utf8Len b := by
    rw [utf8Len_append]
    omega
  rw [head_eq eq, head_eq eq', slice, after, Option.bind_some, size, sliceTo_append, Option.getD_some,
    String.toList_ofList]

theorem slice_append {o e f : Nat} (ho : isCharBoundary data o = true)
    (he : isCharBoundary data e = true) (hf : isCharBoundary data f = true) (oe : o ≤ e) (ef : e ≤ f) :
    (slice data o e).toList ++ (slice data e f).toList = (slice data o f).toList := by
  have joined : head data o ++ ((slice data o e).toList ++ (slice data e f).toList) =
      head data o ++ (slice data o f).toList := by
    rw [← List.append_assoc, head_slice ho he oe, head_slice he hf ef,
      head_slice ho hf (oe.trans ef)]
  exact List.append_cancel_left joined

theorem slice_all : slice data 0 data.utf8ByteSize = data := by
  have stop : isCharBoundary data data.utf8ByteSize = true := isCharBoundary_size
  have whole := head_slice isCharBoundary_zero stop (Nat.zero_le _)
  rw [head_zero, head_size, List.nil_append] at whole
  exact String.toList_inj.mp whole

end

section

def single : Command → Option Item
  | .add _ _ [item] | .replace _ _ [item] => some item
  | _ => none

theorem payload_eq_some {command : Command} {data : String} :
    payload command = some data ↔ ∃ item, single command = some item ∧ item.data = some data := by
  unfold payload single
  split <;> simp

variable {before : Message} {command : Command} {item : Item} {data : String} {size : UInt32}

theorem chunkCommand_single (only : single command = some item) (o e : Nat) :
    ∃ part, chunkCommand data size o e command = .ok part ∧
      single part = some (chunkItem data size o e item) ∧ part.mutates = true := by
  unfold single at only
  split at only
  · cases only
    exact ⟨_, rfl, rfl, rfl⟩
  · cases only
    exact ⟨_, rfl, rfl, rfl⟩
  · cases only

theorem chunkItem_shorter {o e e' : Nat} (ho : isCharBoundary data o = true)
    (he : isCharBoundary data e = true) (he' : isCharBoundary data e' = true) (oe : o ≤ e)
    (le : e ≤ e') (unfinished : e' < data.utf8ByteSize) :
    (chunkItem data size o e item).Shorter (chunkItem data size o e' item) := by
  have more : e < data.utf8ByteSize := by omega
  refine ⟨?_, rfl, rfl, rfl, slice data o e, slice data o e', rfl, rfl, ?_⟩
  · simp only [chunkItem, more, unfinished]
  · exact ⟨(slice data e e').toList, slice_append ho he he' oe le⟩

theorem chunkCommand_shorter (only : single command = some item) {o e e' : Nat}
    (ho : isCharBoundary data o = true) (he : isCharBoundary data e = true)
    (he' : isCharBoundary data e' = true) (oe : o ≤ e) (le : e ≤ e')
    (unfinished : e' < data.utf8ByteSize) {part part' : Command}
    (built : chunkCommand data size o e command = .ok part)
    (built' : chunkCommand data size o e' command = .ok part') : Command.Shorter part part' := by
  have items : (chunkItem data size o e item).Shorter (chunkItem data size o e' item) :=
    chunkItem_shorter ho he he' oe le unfinished
  unfold single at only
  split at only
  · cases only
    cases built
    cases built'
    exact .add _ _ items
  · cases only
    cases built
    cases built'
    exact .replace _ _ items
  · cases only

theorem build_eq_ok {o e : Nat} {m : Message} :
    build before command data size o e = .ok m ↔
      ∃ part, chunkCommand data size o e command = .ok part ∧
        m = { appended before part with
          finalMessage := e = data.utf8ByteSize && before.finalMessage } := by
  unfold build
  rw [bind_eq_ok]
  simp only [Except.ok.injEq, eq_comm (b := m)]

theorem build_shorter (only : single command = some item) {o e e' : Nat}
    (ho : isCharBoundary data o = true) (he : isCharBoundary data e = true)
    (he' : isCharBoundary data e' = true) (oe : o ≤ e) (le : e ≤ e')
    (unfinished : e' < data.utf8ByteSize) {m m' : Message}
    (built : build before command data size o e = .ok m)
    (built' : build before command data size o e' = .ok m') : m.Shorter m' := by
  obtain ⟨part, chunk, rfl⟩ := build_eq_ok.mp built
  obtain ⟨part', chunk', rfl⟩ := build_eq_ok.mp built'
  have mutates : part'.mutates = true := by
    obtain ⟨made, chunk'', -, mutates⟩ := chunkCommand_single only o e'
    cases chunk'.symm.trans chunk''
    exact mutates
  have inner : e ≠ data.utf8ByteSize := by omega
  have inner' : e' ≠ data.utf8ByteSize := by omega
  refine ⟨rfl, ?_, ?_, before.commands, part, part', rfl, rfl,
    chunkCommand_shorter only ho he he' oe le unfinished chunk chunk', mutates⟩
  · simp only [inner, decide_false, Bool.false_and]
  · simp only [inner', decide_false, Bool.false_and]

end

variable {escape : Escape} {d : Decoders} {wire : CodecLimits} {before : Message} {command : Command}
variable {item : Item} {data : String} {size : UInt32}

theorem fitting_eq_ok {m : Message} {fits : Bool} (h : fitting escape d m wire = .ok fits) :
    fits = true ↔ ∃ bytes, encodeOutbound escape d m wire = .ok bytes := by
  unfold fitting at h
  split at h
  · rename_i bytes encoded
    cases h
    exact ⟨fun _ => ⟨bytes, encoded⟩, fun _ => rfl⟩
  · rename_i refused
    cases h
    rw [refused]
    exact ⟨nofun, nofun⟩
  · cases h

theorem attempt_eq_ok {o e : Nat} {answer : Option Fragment}
    (h : attempt escape d before command data size o wire e = .ok answer) :
    ∃ m, build before command data size o e = .ok m ∧
      ((answer = some ⟨m, e⟩ ∧ ∃ bytes, encodeOutbound escape d m wire = .ok bytes) ∨
        (answer = none ∧ ∀ bytes, encodeOutbound escape d m wire ≠ .ok bytes)) := by
  obtain ⟨m, built, h⟩ := of_bind h
  obtain ⟨fits, measured, h⟩ := of_bind h
  refine ⟨m, built, ?_⟩
  have exact := fitting_eq_ok measured
  cases fits with
  | true =>
    cases h
    exact .inl ⟨rfl, exact.mp rfl⟩
  | false =>
    cases h
    exact .inr ⟨rfl, fun bytes encoded => Bool.false_ne_true (exact.mpr ⟨bytes, encoded⟩)⟩

theorem attempt_of_fits {o e : Nat} {m : Message}
    (built : build before command data size o e = .ok m) {bytes : ByteArray}
    (encoded : encodeOutbound escape d m wire = .ok bytes) :
    attempt escape d before command data size o wire e = .ok (some ⟨m, e⟩) := by
  have measured : fitting escape d m wire = .ok true := by rw [fitting, encoded]
  rw [attempt, built, ok_bind, measured, ok_bind, if_pos rfl]

theorem attempt_closed (only : single command = some item) {o : Nat}
    (ho : isCharBoundary data o = true) (e e' : Nat) (found : Fragment)
    (he : isCharBoundary data e = true) (he' : isCharBoundary data e' = true) (oe : o < e)
    (le : e ≤ e') (inside : e' ≤ data.utf8ByteSize - 1)
    (accepted : attempt escape d before command data size o wire e' = .ok (some found)) :
    attempt escape d before command data size o wire e ≠ .ok none := by
  intro refused
  obtain ⟨m', built', fits' | ⟨none, -⟩⟩ := attempt_eq_ok accepted
  · obtain ⟨m, built, ⟨some, -⟩ | ⟨-, unfit⟩⟩ := attempt_eq_ok refused
    · cases some
    · obtain ⟨bytes', encoded'⟩ := fits'.2
      have shorter : m.Shorter m' :=
        build_shorter only ho he he' oe.le le (by omega) built built'
      obtain ⟨bytes, encoded⟩ := encodeOutbound_shorter shorter encoded'
      exact unfit bytes encoded
  · cases none

/-- The frame that one step emits: the whole message, or a part of the object as long as fits. -/
inductive Emitted (escape : Escape) (d : Decoders) (wire : CodecLimits) (before : Message)
    (command : Command) (data : String) (o : Nat) (f : Fragment) : Prop where
  | whole (start : o = 0) (message : f.message = appended before command)
      (stop : f.endOffset = data.utf8ByteSize)
  | part (built : build before command data (UInt32.ofNat data.utf8ByteSize) o f.endOffset =
        .ok f.message)
      (announced : data.utf8ByteSize < 2 ^ 32)
      (longest : f.endOffset < data.utf8ByteSize → ∀ e m, isCharBoundary data e = true →
        f.endOffset < e → e ≤ data.utf8ByteSize →
        build before command data (UInt32.ofNat data.utf8ByteSize) o e = .ok m →
        ∀ bytes, encodeOutbound escape d m wire ≠ .ok bytes)

structure Stepped (escape : Escape) (d : Decoders) (wire : CodecLimits) (before : Message)
    (command : Command) (data : String) (o : Nat) (f : Fragment) : Prop where
  progress : o < f.endOffset
  bounded : f.endOffset ≤ data.utf8ByteSize
  start : isCharBoundary data o = true
  stop : isCharBoundary data f.endOffset = true
  fits : ∃ bytes, encodeOutbound escape d f.message wire = .ok bytes
  emitted : Emitted escape d wire before command data o f

theorem remainder_stepped (only : single command = some item) (object : payload command = some data)
    {o : Nat} {f : Fragment} (h : remainder escape d before command o wire = .ok f) :
    Stepped escape d wire before command data o f := by
  unfold remainder at h
  rw [object] at h
  simp only at h
  obtain ⟨inside, h⟩ := of_guard h
  obtain ⟨announced, h⟩ := of_guard h
  rw [not_or, Nat.not_le, Bool.not_eq_true', Bool.not_eq_false] at inside
  rw [ge_iff_le, Nat.not_le] at announced
  obtain ⟨answer, tried, h⟩ := of_bind h
  obtain ⟨m, built, ⟨rfl, fits⟩ | ⟨rfl, unfit⟩⟩ := attempt_eq_ok tried
  · cases h
    exact ⟨inside.1, le_rfl, inside.2, isCharBoundary_size, fits,
      .part built announced (fun less => absurd less (Nat.lt_irrefl _))⟩
  · obtain ⟨answer, searched, h⟩ := of_bind h
    cases answer with
    | none => cases h
    | some =>
      cases h
      have unknown : Narrowed (isCharBoundary data) o
          (attempt escape d before command data (UInt32.ofNat data.utf8ByteSize) o wire)
          (data.utf8ByteSize - 1) (o + 1) (data.utf8ByteSize - 1) none := by
        refine ⟨?_, ?_, ?_⟩
        · intro e found _ above within
          omega
        · intro _ e _ after less
          omega
        · intro found held
          cases held
      obtain ⟨e, he, after, within, accepted, last⟩ := search_last isCharBoundary_zero
        (attempt_closed only inside.2) (by omega) (le_rfl) unknown searched
      obtain ⟨m', built', ⟨eq, fits⟩ | ⟨eq, -⟩⟩ := attempt_eq_ok accepted
      · cases eq
        have room : e < data.utf8ByteSize := by omega
        refine ⟨after, room.le, inside.2, he, fits, .part built' announced ?_⟩
        intro _ e' m'' he' later bounded built'' bytes encoded
        have measured := attempt_of_fits built'' encoded
        by_cases total : e' = data.utf8ByteSize
        · subst total
          cases tried.symm.trans measured
        · exact last e' _ he' later (by omega) measured
      · cases eq

theorem fragment_stepped (object : payload command = some data) (nonempty : data ≠ "") {o peer : Nat}
    {limits : CodecLimits} {f : Fragment}
    (h : fragment escape d before command o peer limits = .ok f) :
    Stepped escape d (wireLimits limits peer) before command data o f := by
  obtain ⟨item, only, -⟩ := payload_eq_some.mp object
  obtain ⟨-, h⟩ := of_check h
  split at h
  · rename_i start
    obtain ⟨fits, measured, h⟩ := of_bind h
    have exact := fitting_eq_ok measured
    cases fits with
    | true =>
      cases h
      have size : payloadBytes command = data.utf8ByteSize := by
        rw [payloadBytes, object, Option.elim_some]
      have positive : 0 < data.utf8ByteSize := by
        rw [utf8ByteSize_eq]
        exact utf8Len_pos (fun none => nonempty (String.toList_eq_nil_iff.mp none))
      rw [size]
      exact ⟨start ▸ positive, le_rfl, start ▸ isCharBoundary_zero, isCharBoundary_size,
        exact.mp rfl, .whole start rfl rfl⟩
    | false => exact remainder_stepped only object h
  · exact remainder_stepped only object h

end RssMdm.WindowsMdm.Syncml
