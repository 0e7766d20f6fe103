/- module: WindowsMdm/Syncml/LargeObject
   source: crates/windows-mdm/src/syncml/fragment.rs
   digest: Runs of fragment steps deliver an object whole, in bounded frames and steps. -/

import RssMdm.WindowsMdm.Syncml.Fragmentation
import RssMdm.WindowsMdm.Syncml.RoundTrip

set_option autoImplicit false

namespace RssMdm.WindowsMdm.Syncml

open Lib.Fallible Lib.Bisection
open Lib.Text (utf8ByteSize_eq utf8Len)
open WindowsMdm.Xml (Escape Output run_performed)
open Option (bind_some elim_some)

section

variable {escape : Escape} {d : Decoders} {m : Message} {l : CodecLimits} {bytes : ByteArray}

theorem encode_size (h : encode escape d m l = .ok bytes) : bytes.size ≤ l.syncmlBytes := by
  obtain ⟨-, h⟩ := of_check h
  obtain ⟨o, written, h⟩ := of_bind h
  obtain ⟨document, finished, h⟩ := of_bind h
  cases h
  have performed := run_performed l escape written
  have whole : document = o.written := by
    obtain ⟨_, -, finished⟩ := of_bind finished
    rw [guard_eq_ok] at finished
    cases finished.2
    rfl
  have fits := performed.fits (Nat.zero_le _)
  rw [← whole, performed.max] at fits
  rw [String.size_toByteArray, utf8ByteSize_eq, String.toList_ofList]
  exact fits

theorem encodeOutbound_size (h : encodeOutbound escape d m l = .ok bytes) :
    bytes.size ≤ l.syncmlBytes := by
  obtain ⟨flat, -, h⟩ := of_bind h
  obtain ⟨counted, -, h⟩ := of_bind h
  exact encode_size h

end

section

def Fragment.item (f : Fragment) : Option Item := f.message.commands.getLast?.bind single

def Fragment.carried (f : Fragment) : List Char :=
  ((f.item.bind Item.data).elim [] String.toList)

def parent : Command → Option Meta
  | .add _ m _ | .replace _ m _ => m
  | _ => none

/-- A frame of one part of the object: only the first announces the size of the whole, only the
last has no more data and may be final, and any other is as long as fits. -/
structure Part (escape : Escape) (d : Decoders) (wire : CodecLimits) (before : Message)
    (command : Command) (data : String) (o : Nat) (f : Fragment) : Prop where
  envelope : ∃ part, f.message = { before with
    commands := before.commands ++ [part]
    finalMessage := f.endOffset = data.utf8ByteSize && before.finalMessage } ∧
    (parent part).bind Meta.size = none
  item : ∃ item, f.item = some item ∧ item.data = some (slice data o f.endOffset) ∧
    item.moreData = decide (f.endOffset < data.utf8ByteSize) ∧
    (item.metaInfo.bind Meta.size).map UInt32.toNat =
      if o = 0 then some data.utf8ByteSize else none
  longest : f.endOffset < data.utf8ByteSize → ∀ e m, isCharBoundary data e = true →
    f.endOffset < e → e ≤ data.utf8ByteSize →
    build before command data (UInt32.ofNat data.utf8ByteSize) o e = .ok m →
    ∀ bytes, encodeOutbound escape d m wire ≠ .ok bytes

/-- One frame from `o`: it makes progress between two characters within the limits of the wire, and
is the message that was asked for or a part of its object. -/
structure Sent (escape : Escape) (d : Decoders) (before : Message) (command : Command)
    (peer : Nat) (limits : CodecLimits) (data : String) (o : Nat) (f : Fragment) : Prop where
  progress : o < f.endOffset
  bounded : f.endOffset ≤ data.utf8ByteSize
  start : isCharBoundary data o = true
  stop : isCharBoundary data f.endOffset = true
  fits : ∃ bytes, encodeOutbound escape d f.message (wireLimits limits peer) = .ok bytes ∧
    bytes.size ≤ min limits.syncmlBytes peer
  carried : f.carried = (slice data o f.endOffset).toList
  emitted : (o = 0 ∧ f = ⟨appended before command, data.utf8ByteSize⟩) ∨
    Part escape d (wireLimits limits peer) before command data o f

variable {escape : Escape} {d : Decoders} {wire : CodecLimits} {before : Message} {command : Command}
variable {data : String} {o peer : Nat} {limits : CodecLimits} {f : Fragment}

theorem item_appended {m : Message} {part : Command}
    (h : m.commands = before.commands ++ [part]) (stop : Nat) :
    (Fragment.mk m stop).item = single part := by
  rw [Fragment.item, h, List.getLast?_append, List.getLast?_singleton, Option.some_or,
    bind_some]

theorem parent_chunk {size : UInt32} {e : Nat} {part : Command}
    (h : chunkCommand data size o e command = .ok part) : (parent part).bind Meta.size = none := by
  unfold chunkCommand at h
  split at h
  · cases h
    rename_i m _ _
    cases m <;> rfl
  · cases h
    rename_i m _ _
    cases m <;> rfl
  · cases h

theorem part_of_built (object : payload command = some data) (announced : data.utf8ByteSize < 2 ^ 32)
    (built : build before command data (UInt32.ofNat data.utf8ByteSize) o f.endOffset =
      .ok f.message)
    (longest : f.endOffset < data.utf8ByteSize → ∀ e m, isCharBoundary data e = true →
      f.endOffset < e → e ≤ data.utf8ByteSize →
      build before command data (UInt32.ofNat data.utf8ByteSize) o e = .ok m →
      ∀ bytes, encodeOutbound escape d m wire ≠ .ok bytes) :
    Part escape d wire before command data o f := by
  obtain ⟨item, only, -⟩ := payload_eq_some.mp object
  obtain ⟨part, chunk, message⟩ := build_eq_ok.mp built
  have parted : single part = some
      (chunkItem data (UInt32.ofNat data.utf8ByteSize) o f.endOffset item) := by
    obtain ⟨part', chunk', parted, -⟩ := chunkCommand_single only o f.endOffset
    cases chunk.symm.trans chunk'
    exact parted
  refine ⟨⟨part, message, parent_chunk chunk⟩, ?_, longest⟩
  refine ⟨chunkItem data (UInt32.ofNat data.utf8ByteSize) o f.endOffset item, ?_, rfl, rfl, ?_⟩
  · have added : f.message.commands = before.commands ++ [part] := by rw [message]; rfl
    exact (item_appended added f.endOffset).trans parted
  · have size : (UInt32.ofNat data.utf8ByteSize).toNat = data.utf8ByteSize :=
      UInt32.toNat_ofNat_of_lt' announced
    by_cases first : o = 0
    · simp only [chunkItem, first, if_true, bind_some, Option.map_some, size]
    · simp only [chunkItem, first, if_false, bind_some, Option.map_none]

theorem fragment_sent (object : payload command = some data) (nonempty : data ≠ "")
    (h : fragment escape d before command o peer limits = .ok f) :
    Sent escape d before command peer limits data o f := by
  have stepped := fragment_stepped object nonempty h
  have fits : ∃ bytes, encodeOutbound escape d f.message (wireLimits limits peer) = .ok bytes ∧
      bytes.size ≤ min limits.syncmlBytes peer := by
    obtain ⟨bytes, encoded⟩ := stepped.fits
    exact ⟨bytes, encoded, encodeOutbound_size encoded⟩
  cases stepped.emitted with
  | whole start message stop =>
    have eq : f = ⟨appended before command, data.utf8ByteSize⟩ := by
      rw [← message, ← stop]
    have carried : f.carried = (slice data o f.endOffset).toList := by
      obtain ⟨item, only, held⟩ := payload_eq_some.mp object
      rw [start, stop, slice_all, eq, Fragment.carried, item_appended rfl, only, bind_some,
        held, elim_some]
    exact ⟨stepped.progress, stepped.bounded, stepped.start, stepped.stop, fits, carried,
      .inl ⟨start, eq⟩⟩
  | part built announced longest =>
    have part : Part escape d (wireLimits limits peer) before command data o f :=
      part_of_built object announced built longest
    have carried : f.carried = (slice data o f.endOffset).toList := by
      obtain ⟨item, only, held, -⟩ := part.item
      rw [Fragment.carried, only, bind_some, held, elim_some]
    exact ⟨stepped.progress, stepped.bounded, stepped.start, stepped.stop, fits, carried,
      .inr part⟩

end

section

/-- Successful steps, each from where the one before it ended, up to `last`. -/
inductive Frames (escape : Escape) (d : Decoders) (before : Message) (command : Command)
    (peer : Nat) (limits : CodecLimits) : Nat → List (Nat × Fragment) → Nat → Prop where
  | done (o : Nat) : Frames escape d before command peer limits o [] o
  | step {o last : Nat} {f : Fragment} {later : List (Nat × Fragment)}
      (sent : fragment escape d before command o peer limits = .ok f)
      (run : Frames escape d before command peer limits f.endOffset later last) :
      Frames escape d before command peer limits o ((o, f) :: later) last

/-- What the frames of a run from `o` carry together. -/
structure Delivered (escape : Escape) (d : Decoders) (before : Message) (command : Command)
    (peer : Nat) (limits : CodecLimits) (data : String) (o : Nat) (steps : List (Nat × Fragment))
    (last : Nat) : Prop where
  bounded : last ≤ data.utf8ByteSize
  few : o + steps.length ≤ last
  stop : isCharBoundary data last = true
  sent : ∀ s ∈ steps, o ≤ s.1 ∧ Sent escape d before command peer limits data s.1 s.2
  joined : (steps.map (fun s => s.2.carried)).flatten = (slice data o last).toList
  several : 1 < steps.length → ∀ s ∈ steps,
    Part escape d (wireLimits limits peer) before command data s.1 s.2

variable {escape : Escape} {d : Decoders} {before : Message} {command : Command}
variable {data : String} {o last peer : Nat} {limits : CodecLimits} {steps : List (Nat × Fragment)}

theorem slice_self (ho : isCharBoundary data o = true) : (slice data o o).toList = [] := by
  have same := head_slice ho ho (Nat.le_refl o)
  exact List.append_right_eq_self.mp same

theorem frames_delivered (object : payload command = some data) (nonempty : data ≠ "")
    (inside : o ≤ data.utf8ByteSize) (start : isCharBoundary data o = true)
    (run : Frames escape d before command peer limits o steps last) :
    Delivered escape d before command peer limits data o steps last := by
  induction run with
  | done o =>
    refine ⟨inside, Nat.le_refl o, start, ?_, ?_, ?_⟩
    · intro s member
      cases member
    · rw [slice_self start]
      rfl
    · intro _ s member
      cases member
  | @step _ _ f _ first _ ih =>
    have sent := fragment_sent object nonempty first
    have rest := ih sent.bounded sent.stop
    have progress := sent.progress
    have few := rest.few
    refine ⟨rest.bounded, ?_, rest.stop, ?_, ?_, ?_⟩
    · rw [List.length_cons]
      omega
    · intro s member
      rcases List.mem_cons.mp member with rfl | member
      · exact ⟨le_rfl, sent⟩
      · obtain ⟨after, sent'⟩ := rest.sent s member
        exact ⟨by omega, sent'⟩
    · rw [List.map_cons, List.flatten_cons, rest.joined, sent.carried]
      exact slice_append sent.start sent.stop rest.stop progress.le (by omega)
    · intro more s member
      rcases List.mem_cons.mp member with rfl | member
      · rcases sent.emitted with ⟨-, whole⟩ | part
        · -- Nothing remains after the whole message, so no other step follows it.
          have stop : f.endOffset = data.utf8ByteSize := by rw [whole]
          have bounded := rest.bounded
          rw [List.length_cons] at more
          omega
        · exact part
      · obtain ⟨after, sent'⟩ := rest.sent s member
        rcases sent'.emitted with ⟨zero, -⟩ | part
        · omega
        · exact part

theorem frames_complete (object : payload command = some data) (nonempty : data ≠ "")
    (inside : o ≤ data.utf8ByteSize)
    (answers : ∀ steps last, Frames escape d before command peer limits o steps last →
      last < data.utf8ByteSize → ∃ f, fragment escape d before command last peer limits = .ok f) :
    ∃ steps, Frames escape d before command peer limits o steps data.utf8ByteSize := by
  -- The bytes that remain shrink with every step.
  generalize remaining : data.utf8ByteSize - o = n
  induction n using Nat.strongRecOn generalizing o with
  | _ _ ih =>
    by_cases done : o = data.utf8ByteSize
    · exact ⟨[], done ▸ .done o⟩
    obtain ⟨f, first⟩ := answers [] o (.done o) (by omega)
    have sent := fragment_sent object nonempty first
    have progress := sent.progress
    have bounded := sent.bounded
    obtain ⟨later, run⟩ := ih (data.utf8ByteSize - f.endOffset) (by omega) bounded
      (fun steps last run => answers _ last (.step first run)) rfl
    exact ⟨(o, f) :: later, .step first run⟩

theorem fragment_empty (empty : payloadBytes command = 0) {f : Fragment}
    (h : fragment escape d before command o peer limits = .ok f) :
    o = 0 ∧ f = ⟨appended before command, 0⟩ := by
  have nothing : ∀ wire, remainder escape d before command o wire ≠ .ok f := by
    intro wire h
    unfold remainder at h
    cases object : payload command with
    | none =>
      rw [object] at h
      cases h
    | some =>
      rw [payloadBytes, object, elim_some] at empty
      rw [object] at h
      obtain ⟨inside, -⟩ := of_guard h
      rw [empty] at inside
      exact inside (.inl (Nat.zero_le o))
  obtain ⟨-, h⟩ := of_check h
  split at h
  · rename_i start
    obtain ⟨fits, measured, h⟩ := of_bind h
    cases fits with
    | true =>
      cases h
      exact ⟨start, by rw [empty]⟩
    | false => exact absurd h (nothing _)
  · exact absurd h (nothing _)

/-- The steps of a non-empty object lose nothing and end; without text only the whole message is
sent; and the search for the longest part always ends. -/
theorem fragment_lossless (escape : Escape) (d : Decoders) (before : Message) (command : Command)
    (peer : Nat) (limits : CodecLimits) :
    (∀ data, payload command = some data → data ≠ "" →
      (∀ steps last, Frames escape d before command peer limits 0 steps last →
        Delivered escape d before command peer limits data 0 steps last ∧
          (last = data.utf8ByteSize →
            (steps.map (fun s => s.2.carried)).flatten = data.toList ∧
            ∀ f, fragment escape d before command last peer limits ≠ .ok f)) ∧
      ((∀ steps last, Frames escape d before command peer limits 0 steps last →
          last < data.utf8ByteSize →
          ∃ f, fragment escape d before command last peer limits = .ok f) →
        ∃ steps, Frames escape d before command peer limits 0 steps data.utf8ByteSize ∧
          steps.length ≤ data.utf8ByteSize)) ∧
    (payloadBytes command = 0 → ∀ o f, fragment escape d before command o peer limits = .ok f →
      o = 0 ∧ f = ⟨appended before command, 0⟩) ∧
    ∀ data size o wire, ∃ rounds ≤ data.utf8ByteSize,
      Exits (isCharBoundary data) o (attempt escape d before command data size o wire) rounds
        (o + 1) (data.utf8ByteSize - 1) none
        (search (isCharBoundary data) o (attempt escape d before command data size o wire)
          data.utf8ByteSize (o + 1) (data.utf8ByteSize - 1) none) := by
  refine ⟨?_, fun empty o f h => fragment_empty empty h, ?_⟩
  · intro data object nonempty
    have delivered : ∀ steps last, Frames escape d before command peer limits 0 steps last →
        Delivered escape d before command peer limits data 0 steps last :=
      fun steps last run =>
        frames_delivered object nonempty (Nat.zero_le _) isCharBoundary_zero run
    refine ⟨?_, ?_⟩
    · intro steps last run
      refine ⟨delivered steps last run, ?_⟩
      rintro rfl
      refine ⟨?_, ?_⟩
      · rw [(delivered steps _ run).joined, slice_all]
      · intro f h
        have sent := fragment_sent object nonempty h
        exact absurd sent.bounded (Nat.not_le.mpr sent.progress)
    · intro answers
      obtain ⟨steps, run⟩ := frames_complete object nonempty (Nat.zero_le _) answers
      have few := (delivered steps _ run).few
      exact ⟨steps, run, by omega⟩
  · intro data size o wire
    exact search_exits (by omega) none

end

def openEnvelope : Message where
  header := sampleHeader
  commands := []
  finalMessage := false

def writes (moreData : Bool) (data : String) : Command :=
  .replace 1 none [⟨moreData, none, some "./x", none, some data⟩]

theorem fragments_of_map {o peer : Nat} {command : Command} {stop : Nat} {more : Option Bool}
    (h : (fragment sampleEscape sampleDecoders openEnvelope command o peer CodecLimits.default).map
      (fun f => (f.endOffset, f.item.map Item.moreData)) = .ok (stop, more)) :
    ∃ f, fragment sampleEscape sampleDecoders openEnvelope command o peer CodecLimits.default =
      .ok f ∧ f.endOffset = stop ∧ f.item.map Item.moreData = more := by
  cases result : fragment sampleEscape sampleDecoders openEnvelope command o peer
      CodecLimits.default with
  | error =>
    rw [result] at h
    cases h
  | ok f =>
    rw [result] at h
    cases h
    exact ⟨f, rfl, rfl, rfl⟩

set_option maxRecDepth 4000 in
/-- A step over empty text does not advance, and a message that fits whole keeps the mark that
more data follows. -/
theorem fragment_stays : (∃ f, fragment sampleEscape sampleDecoders openEnvelope (writes false "") 0
      4096 CodecLimits.default = .ok f ∧ f.endOffset = 0 ∧
      f.item.map Item.moreData = some false) ∧
    ∃ f, fragment sampleEscape sampleDecoders openEnvelope (writes true "abc") 0 4096
      CodecLimits.default = .ok f ∧ f.endOffset = 3 ∧ f.item.map Item.moreData = some true :=
  ⟨fragments_of_map (by decide), fragments_of_map (by decide)⟩

end RssMdm.WindowsMdm.Syncml
