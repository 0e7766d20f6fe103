/- module: AgentWire/Chunks
   source: crates/agent-wire/src/chunks.rs
   digest: Output cut into chunks under one manifest comes back from them in any order, and from
   nothing else. -/

import RssMdm.AgentWire.Tasks
import RssMdm.Lib.Chunking
import RssMdm.Lib.KeySort
import RssMdm.Lib.Sha256

set_option autoImplicit false

namespace RssMdm.AgentWire

open Lib Lib.Fallible Lib.Chunking
open Lib.Int64 (I64)
open Lib.Text (asBytes asBytes_length utf8Len utf8ByteSize_eq)
open String (toList_ofList)

def outputChunkBytes : Nat := 256 * 1024

def Digest : Type := { octets : List UInt8 // octets.length = 32 }
deriving DecidableEq

def sha256 (bytes : List UInt8) : Digest := ⟨Sha256.digest bytes, Sha256.digest_length bytes⟩

structure ManifestInput where
  bytes : UInt32
  sha256 : Digest
deriving DecidableEq

/-- The identity of one output: a size within the bound and the digest. -/
@[ext] structure OutputManifest where
  input : ManifestInput
  bounded : ¬(input.bytes = 0 ∨ input.bytes.toNat > outputMaxBytes)
deriving DecidableEq

namespace OutputManifest

def bytes (m : OutputManifest) : Nat := m.input.bytes.toNat

def new (bytes : UInt32) (sha256 : Digest) : Except WireError OutputManifest :=
  if h : bytes = 0 ∨ bytes.toNat > outputMaxBytes then .error .invalidValue
  else .ok ⟨⟨bytes, sha256⟩, h⟩

def tryFrom (v : ManifestInput) : Except WireError OutputManifest := new v.bytes v.sha256

def count (m : OutputManifest) : Nat := (m.bytes + outputChunkBytes - 1) / outputChunkBytes

theorem new_eq_ok {bytes : UInt32} {sha256 : Digest} {m : OutputManifest} :
    new bytes sha256 = .ok m ↔ m.input = ⟨bytes, sha256⟩ := by
  rw [new]
  constructor
  · intro h
    split at h
    · cases h
    · cases h
      rfl
  · intro same
    have bounded := m.bounded
    rw [same] at bounded
    rw [dif_neg bounded]
    exact congrArg Except.ok (OutputManifest.ext same.symm)

theorem tryFrom_input (m : OutputManifest) : tryFrom m.input = .ok m := new_eq_ok.mpr rfl

theorem bytes_le (m : OutputManifest) : m.bytes ≤ outputMaxBytes :=
  Nat.le_of_not_gt (fun above => m.bounded (.inr above))

theorem count_le (m : OutputManifest) : m.count ≤ 64 := by
  have fits := m.bytes_le
  simp only [count, outputMaxBytes, outputChunkBytes] at fits ⊢
  omega

end OutputManifest

structure ChunkInput where
  manifest : OutputManifest
  index : UInt16
  data : String
deriving DecidableEq

def Fits (manifest : OutputManifest) (index : UInt16) (bytes : List UInt8) : Prop :=
  index.toNat * outputChunkBytes < manifest.bytes ∧
    bytes.length = min (manifest.bytes - index.toNat * outputChunkBytes) outputChunkBytes

/-- One position of a manifest with the canonical text of bytes that belong there. -/
@[ext] structure OutputChunk where
  input : ChunkInput
  bound : ∃ bytes, input.data = String.ofList (Base64.encode bytes) ∧
    Fits input.manifest input.index bytes

namespace OutputChunk

def manifest (c : OutputChunk) : OutputManifest := c.input.manifest

def index (c : OutputChunk) : UInt16 := c.input.index

/-- The `expect` on the decoded text is `getD` here; `data_eq` says that it never fails. -/
def bytes (c : OutputChunk) : List UInt8 := (Base64.decode c.input.data.toList).getD []

def new (manifest : OutputManifest) (index : UInt16) (bytes : List UInt8) :
    Except WireError OutputChunk :=
  let offset := index.toNat * outputChunkBytes
  if h : offset ≥ manifest.bytes ∨
      bytes.length ≠ min (manifest.bytes - offset) outputChunkBytes then
    .error .invalidValue
  else
    .ok ⟨⟨manifest, index, String.ofList (Base64.encode bytes)⟩, bytes, rfl,
      Nat.lt_of_not_ge (fun above => h (.inl above)), of_not_not (fun other => h (.inr other))⟩

def tryFrom (v : ChunkInput) : Except WireError OutputChunk :=
  if v.data.utf8ByteSize > (outputChunkBytes + 2) / 3 * 4 then .error .invalidValue
  else
    match Base64.decode v.data.toList with
    | none => .error .invalidValue
    | some bytes =>
        if String.ofList (Base64.encode bytes) ≠ v.data then .error .invalidValue
        else new v.manifest v.index bytes

theorem data_eq (c : OutputChunk) :
    c.input.data = String.ofList (Base64.encode c.bytes) ∧ Fits c.manifest c.index c.bytes := by
  obtain ⟨bytes, text, fits⟩ := c.bound
  have same : c.bytes = bytes := by
    rw [OutputChunk.bytes, text, toList_ofList, Base64.decode_encode, Option.getD_some]
  rw [same]
  exact ⟨text, fits⟩

theorem new_eq_ok {manifest : OutputManifest} {index : UInt16} {bytes : List UInt8}
    {c : OutputChunk} :
    new manifest index bytes = .ok c ↔
      c.manifest = manifest ∧ c.index = index ∧ c.bytes = bytes := by
  rw [new]
  constructor
  · intro h
    split at h
    · cases h
    cases h
    refine ⟨rfl, rfl, ?_⟩
    show (Base64.decode (String.ofList (Base64.encode bytes)).toList).getD [] = bytes
    rw [toList_ofList, Base64.decode_encode, Option.getD_some]
  · rintro ⟨rfl, rfl, rfl⟩
    obtain ⟨text, inside, length⟩ := c.data_eq
    rw [dif_neg (fun refused => refused.elim (Nat.not_le_of_lt inside) (fun other => other length))]
    refine congrArg Except.ok (OutputChunk.ext ?_)
    show (⟨c.manifest, c.index, String.ofList (Base64.encode c.bytes)⟩ : ChunkInput) = c.input
    rw [← text]
    rfl

theorem data_size (c : OutputChunk) :
    c.input.data.utf8ByteSize ≤ (outputChunkBytes + 2) / 3 * 4 := by
  obtain ⟨text, _, length⟩ := c.data_eq
  have ascii : ∀ cs : List Char, (∀ a ∈ cs, a.utf8Size = 1) → utf8Len cs = cs.length := by
    intro cs
    induction cs with
    | nil => simp
    | cons a _ ih =>
      intro all
      have rest := ih (fun b hb => all b (.tail _ hb))
      rw [Text.utf8Len_cons, all a (.head _), rest, List.length_cons, Nat.add_comm]
  rw [text, utf8ByteSize_eq, toList_ofList, ascii _ (Base64.encode_utf8Size _)]
  calc (Base64.encode c.bytes).length
      ≤ (c.bytes.length + 2) / 3 * 4 := Base64.length_encode_le _
    _ ≤ (outputChunkBytes + 2) / 3 * 4 := by omega

theorem tryFrom_input (c : OutputChunk) : tryFrom c.input = .ok c := by
  obtain ⟨text, _⟩ := c.data_eq
  have decoded : Base64.decode c.input.data.toList = some c.bytes := by
    rw [text, toList_ofList, Base64.decode_encode]
  rw [tryFrom, if_neg (Nat.not_lt_of_ge c.data_size), decoded]
  show (if String.ofList (Base64.encode c.bytes) ≠ c.input.data then _ else _) = _
  rw [if_neg (fun other => other text.symm)]
  exact new_eq_ok.mpr ⟨rfl, rfl, rfl⟩

end OutputChunk

/-- The loop over the sorted chunks with the bytes taken so far. -/
def OutputManifest.extend (m : OutputManifest) :
    Nat → List UInt8 → List OutputChunk → Except WireError (List UInt8)
  | _, bytes, [] => .ok bytes
  | index, bytes, chunk :: chunks =>
      if chunk.index.toNat ≠ index ∨ chunk.manifest ≠ m then .error .invalidValue
      else m.extend (index + 1) (bytes ++ chunk.bytes) chunks

def sortByIndex (chunks : List OutputChunk) : List OutputChunk :=
  chunks.insertionSort (fun a b => a.index.toNat ≤ b.index.toNat)

def OutputManifest.assemble (m : OutputManifest) (chunks : List OutputChunk) :
    Except WireError (List UInt8) :=
  if chunks.length ≠ m.count then .error .invalidValue
  else do
    let bytes ← m.extend 0 [] (sortByIndex chunks)
    if bytes.length ≠ m.bytes ∨ sha256 bytes ≠ m.input.sha256 then .error .invalidValue
    else .ok bytes

structure ChunkedInput where
  exitCode : Option Int32
  quality : OutputQuality
  diagnostics : TaskDiagnostics
  manifest : OutputManifest
  collectedAt : I64

/-- Terminal process evidence that references an output by its manifest. -/
structure ChunkedTaskResult where
  input : ChunkedInput

namespace ChunkedTaskResult

variable {Value : Type}

def manifest (c : ChunkedTaskResult) : OutputManifest := c.input.manifest

def tryFrom (codec : Codec Value) (v : ChunkedInput) : Except WireError ChunkedTaskResult := do
  let _ ← TaskResult.new codec v.exitCode v.quality codec.null v.diagnostics v.collectedAt
  .ok ⟨v⟩

/-- One terminal reference and the chunks of its output. -/
def split (codec : Codec Value) (result : TaskResult codec) :
    Except WireError (ChunkedTaskResult × List OutputChunk) :=
  match codec.toVec result.input.output with
  | none => .error .invalidValue
  | some bytes =>
      if 2 ^ 32 ≤ bytes.length then .error .invalidValue
      else do
        let manifest ← OutputManifest.new (UInt32.ofNat bytes.length) (sha256 bytes)
        let chunks ← (slices outputChunkBytes bytes).zipIdx.mapM
          (fun piece => OutputChunk.new manifest (UInt16.ofNat piece.2) piece.1)
        .ok (⟨⟨result.input.exitCode, result.input.quality, result.input.diagnostics, manifest,
          result.input.collectedAt⟩⟩, chunks)

def assemble (codec : Codec Value) (c : ChunkedTaskResult) (chunks : List OutputChunk) :
    Except WireError (TaskResult codec) := do
  let bytes ← c.manifest.assemble chunks
  match codec.fromSlice bytes with
  | none => .error .invalidValue
  | some output =>
      match codec.toVec output with
      | none => .error .invalidValue
      | some written =>
          if written ≠ bytes then .error .invalidValue
          else
            TaskResult.new codec c.input.exitCode c.input.quality output c.input.diagnostics
              c.input.collectedAt

end ChunkedTaskResult

/-- The chunks of `bytes` under `m`, in order. -/
structure Laid (m : OutputManifest) (bytes : List UInt8) (chunks : List OutputChunk) : Prop where
  length_eq : chunks.length = m.count
  placed : ∀ i, (h : i < chunks.length) → chunks[i].index.toNat = i ∧ chunks[i].manifest = m
  joined : (chunks.map OutputChunk.bytes).flatten = bytes

variable {m : OutputManifest} {bytes : List UInt8} {chunks : List OutputChunk}

theorem extend_eq_ok {index : Nat} {before : List UInt8} :
    m.extend index before chunks = .ok bytes ↔
      (∀ i, (h : i < chunks.length) →
        chunks[i].index.toNat = index + i ∧ chunks[i].manifest = m) ∧
      bytes = before ++ (chunks.map OutputChunk.bytes).flatten := by
  induction chunks generalizing index before with
  | nil => simp [OutputManifest.extend, eq_comm]
  | cons _ _ ih =>
    rw [OutputManifest.extend, guard_eq_ok, ih, not_or, not_not, not_not]
    constructor
    · rintro ⟨head, tail, rfl⟩
      refine ⟨?_, by simp⟩
      intro i h
      cases i with
      | zero => exact head
      | succ i =>
        obtain ⟨place, owner⟩ := tail i (Nat.lt_of_succ_lt_succ h)
        exact ⟨by rw [List.getElem_cons_succ, place]; omega, owner⟩
    · rintro ⟨all, rfl⟩
      refine ⟨all 0 (Nat.succ_pos _), ?_, by simp⟩
      intro i h
      obtain ⟨place, owner⟩ := all (i + 1) (Nat.succ_lt_succ h)
      rw [List.getElem_cons_succ] at place owner
      exact ⟨by omega, owner⟩

theorem assemble_eq_ok :
    m.assemble chunks = .ok bytes ↔
      Laid m bytes (sortByIndex chunks) ∧ bytes.length = m.bytes ∧ sha256 bytes = m.input.sha256 := by
  have count : (sortByIndex chunks).length = chunks.length := List.length_insertionSort _ _
  rw [OutputManifest.assemble, guard_eq_ok, bind_eq_ok, not_not]
  constructor
  · rintro ⟨length, taken, loop, checked⟩
    obtain ⟨passed, rfl⟩ := of_guard checked |>.imp id Except.ok.inj
    obtain ⟨placed, joined⟩ := extend_eq_ok.mp loop
    rw [not_or, not_not, not_not] at passed
    refine ⟨⟨count.trans length, ?_, ?_⟩, passed⟩
    · intro i h
      have place := placed i h
      rwa [Nat.zero_add] at place
    · rw [joined, List.nil_append]
  · rintro ⟨laid, size, digest⟩
    refine ⟨count.symm.trans laid.length_eq, bytes, extend_eq_ok.mpr ⟨?_, ?_⟩, ?_⟩
    · intro i h
      rw [Nat.zero_add]
      exact laid.placed i h
    · rw [laid.joined, List.nil_append]
    · rw [if_neg (fun refused => refused.elim (fun other => other size) (fun other => other digest))]

theorem Laid.pieces (laid : Laid m bytes chunks) (size : bytes.length = m.bytes) :
    chunks.map OutputChunk.bytes = slices outputChunkBytes bytes := by
  have cut : Cut outputChunkBytes m.bytes (chunks.map OutputChunk.bytes) := by
    refine ⟨(List.length_map _).trans laid.length_eq, ?_⟩
    intro i h
    rw [List.length_map] at h
    obtain ⟨index, owner⟩ := laid.placed i h
    obtain ⟨_, _, length⟩ := chunks[i].data_eq
    rw [List.getElem_map, length, index, owner]
  have whole := cut.eq_slices (by rw [laid.joined, size])
  rwa [laid.joined] at whole

theorem Laid.sortByIndex_eq (laid : Laid m bytes chunks) {list : List OutputChunk}
    (perm : list.Perm chunks) : sortByIndex list = chunks := by
  have keys : chunks.Pairwise (fun a b => a.index.toNat < b.index.toNat) := by
    rw [List.pairwise_iff_getElem]
    intro i j hi hj less
    rw [(laid.placed i hi).1, (laid.placed j hj).1]
    exact less
  have sorted : (sortByIndex list).Perm chunks := (List.perm_insertionSort _ list).trans perm
  have strict : (sortByIndex list).Pairwise (fun a b => a.index.toNat < b.index.toNat) := by
    refine KeySort.pairwise_lt_of_sorted (fun c : OutputChunk => c.index.toNat) _
      (KeySort.pairwise_sort _ list) ((KeySort.adjacentEqual_sort _ list).mpr ?_)
    rw [(perm.map _).nodup_iff]
    exact (List.pairwise_map.mpr keys).imp (fun less => ne_of_lt less)
  exact sorted.eq_of_pairwise (fun _ _ _ _ less more => absurd less (lt_asymm more)) strict keys

theorem outputChunkBytes_pos : 0 < outputChunkBytes := by decide

theorem toNat_index {i : Nat} (h : i < m.count) : (UInt16.ofNat i).toNat = i := by
  have few := m.count_le
  exact UInt16.toNat_ofNat_of_lt' (by simp only [UInt16.size]; omega)

theorem mapM_new_eq_ok (size : bytes.length = m.bytes) :
    (slices outputChunkBytes bytes).zipIdx.mapM
        (fun piece => OutputChunk.new m (UInt16.ofNat piece.2) piece.1) = .ok chunks ↔
      Laid m bytes chunks := by
  have count : (slices outputChunkBytes bytes).length = m.count := by
    rw [length_slices, size, OutputManifest.count]
  rw [mapM_eq_ok, List.forall₂_iff_get]
  simp only [List.length_zipIdx, List.get_eq_getElem, List.getElem_zipIdx, Nat.zero_add,
    OutputChunk.new_eq_ok]
  constructor
  · rintro ⟨length, each⟩
    have pieces : chunks.map OutputChunk.bytes = slices outputChunkBytes bytes := by
      refine List.ext_getElem (by rw [List.length_map, length]) ?_
      intro i h h'
      rw [List.getElem_map]
      exact (each i h' (length ▸ h')).2.2
    refine ⟨length.symm.trans count, ?_, ?_⟩
    · intro i h
      obtain ⟨owner, index, _⟩ := each i (length ▸ h) h
      refine ⟨?_, owner⟩
      rw [index, toNat_index (m := m) (by omega)]
    · rw [pieces, flatten_slices outputChunkBytes_pos]
  · intro laid
    refine ⟨count.trans laid.length_eq.symm, ?_⟩
    intro i h h'
    obtain ⟨index, owner⟩ := laid.placed i h'
    refine ⟨owner, UInt16.toNat_inj.mp ?_, ?_⟩
    · rw [index, toNat_index (m := m) (by have := laid.length_eq; omega)]
    · have here := congrArg (fun l => l[i]?) (laid.pieces size)
      simp only [List.getElem?_map, List.getElem?_eq_getElem h', List.getElem?_eq_getElem h,
        Option.map_some] at here
      exact Option.some.inj here

section

variable {Value : Type} {codec : Codec Value}

/-- The reference to the output of `r` under a manifest. -/
def TaskResult.reference (r : TaskResult codec) (m : OutputManifest) : ChunkedTaskResult :=
  ⟨⟨r.input.exitCode, r.input.quality, r.input.diagnostics, m, r.input.collectedAt⟩⟩

variable {r : TaskResult codec} {c : ChunkedTaskResult}

theorem split_eq_ok :
    ChunkedTaskResult.split codec r = .ok (c, chunks) ↔
      ∃ bytes, codec.toVec r.input.output = some bytes ∧ c = r.reference c.manifest ∧
        bytes.length = c.manifest.bytes ∧ sha256 bytes = c.manifest.input.sha256 ∧
        Laid c.manifest bytes chunks := by
  have narrow : ∀ n : Nat, n < 2 ^ 32 → (UInt32.ofNat n).toNat = n :=
    fun n h => UInt32.toNat_ofNat_of_lt' h
  rw [ChunkedTaskResult.split]
  constructor
  · intro h
    split at h
    · cases h
    next bytes written =>
      obtain ⟨small, h⟩ := of_guard h
      obtain ⟨m, created, h⟩ := of_bind h
      obtain ⟨laid, cutting, h⟩ := of_bind h
      cases h
      have identity := OutputManifest.new_eq_ok.mp created
      have size : bytes.length = m.bytes := by
        rw [OutputManifest.bytes, identity, narrow _ (Nat.lt_of_not_ge small)]
      refine ⟨bytes, written, rfl, size, ?_, (mapM_new_eq_ok size).mp cutting⟩
      show sha256 bytes = m.input.sha256
      rw [identity]
  · rintro ⟨bytes, written, shape, size, digest, laid⟩
    have bound := c.manifest.bytes_le
    have small : ¬2 ^ 32 ≤ bytes.length := by
      simp only [outputMaxBytes] at bound
      omega
    have created : OutputManifest.new (UInt32.ofNat bytes.length) (sha256 bytes) =
        .ok c.manifest := by
      refine OutputManifest.new_eq_ok.mpr ?_
      have same : UInt32.ofNat bytes.length = c.manifest.input.bytes := by
        apply UInt32.toNat_inj.mp
        rw [narrow _ (Nat.lt_of_not_ge small), size, OutputManifest.bytes]
      rw [same, digest]
    have cutting := (mapM_new_eq_ok size).mpr laid
    have returned : (Except.ok (r.reference c.manifest, chunks) :
        Except WireError (ChunkedTaskResult × List OutputChunk)) = .ok (c, chunks) := by
      rw [← shape]
    rw [written]
    exact guard_eq_ok.mpr ⟨small, bind_eq_ok.mpr ⟨_, created, bind_eq_ok.mpr ⟨_, cutting, returned⟩⟩⟩

theorem ChunkedTaskResult.assemble_eq_ok :
    c.assemble codec chunks = .ok r ↔
      ∃ bytes, c.manifest.assemble chunks = .ok bytes ∧
        codec.fromSlice bytes = some r.input.output ∧ codec.toVec r.input.output = some bytes ∧
        c = r.reference c.manifest := by
  rw [ChunkedTaskResult.assemble, bind_eq_ok]
  constructor
  · rintro ⟨bytes, joined, h⟩
    split at h
    · cases h
    next output read =>
      split at h
      · cases h
      next written wrote =>
        obtain ⟨same, h⟩ := of_guard h
        have input := TaskResult.new_eq_ok.mp h
        rw [not_not.mp same] at wrote
        refine ⟨bytes, joined, ?_, ?_, ?_⟩
        · rw [input]
          exact read
        · rw [input]
          exact wrote
        · rw [TaskResult.reference, input]
          rfl
  · rintro ⟨bytes, joined, read, wrote, shape⟩
    refine ⟨bytes, joined, ?_⟩
    simp only [read, wrote, ne_eq, not_true_eq_false, if_false]
    rw [TaskResult.new_eq_ok, shape]
    rfl

/-- Two results whose outputs are written differently and share their digest. -/
def Collides (r r' : TaskResult codec) : Prop :=
  ∃ bytes bytes', codec.toVec r.input.output = some bytes ∧
    codec.toVec r'.input.output = some bytes' ∧ bytes ≠ bytes' ∧ sha256 bytes = sha256 bytes'

theorem tryFrom_reference (faithful : codec.Faithful) (r : TaskResult codec) (m : OutputManifest) :
    ChunkedTaskResult.tryFrom codec (r.reference m).input = .ok (r.reference m) := by
  have fits : (asBytes "null").length ≤ outputMaxBytes := by
    decide
  have coherent := r.refused_output faithful.toVec_null fits
  have created : TaskResult.new codec r.input.exitCode r.input.quality codec.null
      r.input.diagnostics r.input.collectedAt =
      .ok ⟨{ r.input with output := codec.null }, coherent⟩ := TaskResult.new_eq_ok.mpr rfl
  simp only [ChunkedTaskResult.tryFrom, TaskResult.reference, created, ok_bind]

variable {list : List OutputChunk}

theorem assemble_of_split (faithful : codec.Faithful)
    (cut : ChunkedTaskResult.split codec r = .ok (c, chunks)) (perm : list.Perm chunks) :
    c.assemble codec list = .ok r := by
  obtain ⟨bytes, written, shape, size, digest, laid⟩ := split_eq_ok.mp cut
  have sorted : sortByIndex list = chunks := laid.sortByIndex_eq perm
  refine ChunkedTaskResult.assemble_eq_ok.mpr ⟨bytes, ?_, ?_, written, shape⟩
  · exact assemble_eq_ok.mpr ⟨sorted.symm ▸ laid, size, digest⟩
  · exact faithful.fromSlice_toVec _ _ written

theorem split_of_assemble (joined : c.assemble codec list = .ok r) :
    ∃ chunks, ChunkedTaskResult.split codec r = .ok (c, chunks) ∧ list.Perm chunks := by
  obtain ⟨bytes, whole, _, written, shape⟩ := ChunkedTaskResult.assemble_eq_ok.mp joined
  obtain ⟨laid, size, digest⟩ := assemble_eq_ok.mp whole
  refine ⟨sortByIndex list, split_eq_ok.mpr ⟨bytes, written, shape, size, digest, laid⟩, ?_⟩
  exact (List.perm_insertionSort _ list).symm

theorem eq_of_same_reference (faithful : codec.Faithful) {r' : TaskResult codec}
    {chunks' : List OutputChunk} (cut : ChunkedTaskResult.split codec r = .ok (c, chunks))
    (cut' : ChunkedTaskResult.split codec r' = .ok (c, chunks')) : r' = r ∨ Collides r r' := by
  obtain ⟨bytes, written, shape, size, digest, laid⟩ := split_eq_ok.mp cut
  obtain ⟨bytes', written', shape', size', digest', laid'⟩ := split_eq_ok.mp cut'
  by_cases same : bytes = bytes'
  · left
    subst same
    have output : r'.input.output = r.input.output := Option.some.inj
      ((faithful.fromSlice_toVec _ _ written').symm.trans (faithful.fromSlice_toVec _ _ written))
    have fields : r.reference c.manifest = r'.reference c.manifest := shape.symm.trans shape'
    apply TaskResult.ext
    have rebuilt : ∀ s : TaskResult codec, s.input = ⟨(s.reference c.manifest).input.exitCode,
        (s.reference c.manifest).input.quality, s.input.output,
        (s.reference c.manifest).input.diagnostics,
        (s.reference c.manifest).input.collectedAt⟩ := fun _ => rfl
    rw [rebuilt r', rebuilt r, fields, output]
  · exact .inr ⟨bytes, bytes', written, written', same, digest.trans digest'.symm⟩

/-- Chunked output is lossless in any order, and nothing but the split of a result assembles to
it: a missing, repeated, foreign or altered chunk is refused unless SHA-256 collides. -/
theorem chunk_transport (faithful : codec.Faithful) :
    (∀ (r : TaskResult codec) (c : ChunkedTaskResult) (chunks : List OutputChunk),
      ChunkedTaskResult.split codec r = .ok (c, chunks) →
        (∀ chunk ∈ chunks, OutputChunk.tryFrom chunk.input = .ok chunk) ∧
        ChunkedTaskResult.tryFrom codec c.input = .ok c ∧
        OutputManifest.tryFrom c.manifest.input = .ok c.manifest ∧
        (∀ list, list.Perm chunks → c.assemble codec list = .ok r) ∧
        chunks.length = c.manifest.count ∧ c.manifest.count ≤ 64 ∧
        (∀ i, (h : i < chunks.length) → chunks[i].index.toNat = i) ∧
        (∀ list r', c.assemble codec list = .ok r' →
          list.Perm chunks ∧ r' = r ∨ Collides r r')) ∧
    (∀ (c : ChunkedTaskResult) (list : List OutputChunk) (r : TaskResult codec),
      c.assemble codec list = .ok r →
        ∃ chunks, ChunkedTaskResult.split codec r = .ok (c, chunks) ∧ list.Perm chunks) := by
  refine ⟨?_, fun c list r joined => split_of_assemble joined⟩
  intro r c chunks cut
  obtain ⟨bytes, written, shape, size, digest, laid⟩ := split_eq_ok.mp cut
  refine ⟨fun chunk _ => chunk.tryFrom_input, ?_, c.manifest.tryFrom_input,
    fun list perm => assemble_of_split faithful cut perm, laid.length_eq, c.manifest.count_le,
    fun i h => (laid.placed i h).1, ?_⟩
  · rw [shape]
    exact tryFrom_reference faithful r c.manifest
  · intro list r' joined
    obtain ⟨chunks', cut', perm⟩ := split_of_assemble joined
    rcases eq_of_same_reference faithful cut cut' with rfl | collides
    · have same : chunks' = chunks := (Prod.mk.inj (Except.ok.inj (cut'.symm.trans cut))).2
      exact .inl ⟨same ▸ perm, rfl⟩
    · exact .inr collides

end

namespace Sample

/-- A JSON text of `n` letters x. -/
def quoted (n : Nat) : List UInt8 := 34 :: (List.replicate n 120 ++ [34])

theorem length_quoted (n : Nat) : (quoted n).length = n + 2 := by
  rw [quoted, List.length_cons, List.length_append, List.length_replicate]
  rfl

/-- The codec of `null` and of these texts. -/
def letters : Codec (Option Nat) where
  toVec
    | none => some (asBytes "null")
    | some n => some (quoted n)
  fromSlice bytes :=
    if bytes = asBytes "null" then some none
    else if bytes = quoted (bytes.length - 2) then some (some (bytes.length - 2))
    else none
  null := none

theorem letters_faithful : letters.Faithful where
  fromSlice_toVec := by
    rintro (_ | n) _ ⟨⟩
    · simp only [letters, if_true]
    · have other : quoted n ≠ asBytes "null" := by
        intro same
        have first : (34 : UInt8) = 110 := (List.cons.inj same).1
        exact absurd first (by decide)
      have counted : (quoted n).length - 2 = n := by rw [length_quoted, Nat.add_sub_cancel]
      simp only [letters, if_neg other, counted, if_true]
  toVec_null := rfl

def diagnostics : TaskDiagnostics := ⟨⟨"", "", 5, ⟨10, by omega, by omega⟩, none⟩, by decide⟩

theorem accepted_long : (⟨some 0, .complete, some 300000, diagnostics, ⟨11, by omega, by omega⟩⟩ :
    ResultInput (Option Nat)).refused letters = false := by
  simp only [ResultInput.refused, letters, length_quoted]
  decide

def succeeded : TaskResult letters := ⟨_, accepted_long⟩

def output : OutputManifest := ⟨⟨300002, sha256 (quoted 300000)⟩, by decide⟩

/-- The piece at one of the two positions. -/
def chunk (i : UInt16) (inside : i.toNat * outputChunkBytes < output.bytes) : OutputChunk :=
  ⟨⟨output, i, String.ofList (Base64.encode
    (((quoted 300000).drop (i.toNat * outputChunkBytes)).take outputChunkBytes))⟩, _, rfl, inside, by
      rw [List.length_take, List.length_drop, length_quoted, Nat.min_comm]
      rfl⟩

theorem laid_chunks : Laid output (quoted 300000) [chunk 0 (by decide), chunk 1 (by decide)] := by
  have bytes : ∀ i inside, (chunk i inside).bytes =
      ((quoted 300000).drop (i.toNat * outputChunkBytes)).take outputChunkBytes := by
    intro i inside
    rw [OutputChunk.bytes, chunk, toList_ofList, Base64.decode_encode, Option.getD_some]
  refine ⟨by decide, ?_, ?_⟩
  · intro i h
    cases i with
    | zero => exact ⟨rfl, rfl⟩
    | succ i =>
      cases i with
      | zero => exact ⟨rfl, rfl⟩
      | succ i => exact absurd h (by simp)
  · have two : (quoted 300000).length ≤ outputChunkBytes + outputChunkBytes := by
      rw [length_quoted]
      decide
    simp only [List.map_cons, List.map_nil, bytes, List.flatten_cons, List.flatten_nil]
    generalize quoted 300000 = text at two
    have last : (text.drop outputChunkBytes).take outputChunkBytes = text.drop outputChunkBytes :=
      List.take_of_length_le (by rw [List.length_drop]; omega)
    have one : (1 : UInt16).toNat * outputChunkBytes = outputChunkBytes := rfl
    rw [one, last, List.append_nil]
    exact List.take_append_drop _ text

/-- Two chunks, assembled in the other order. -/
theorem chunk_transport_letters : ∃ c a b,
    ChunkedTaskResult.split letters succeeded = .ok (c, [a, b]) ∧ letters.Faithful ∧
      c.assemble letters [b, a] = .ok succeeded := by
  have size : (quoted 300000).length = output.bytes := length_quoted _
  have cut : ChunkedTaskResult.split letters succeeded =
      .ok (succeeded.reference output, [chunk 0 (by decide), chunk 1 (by decide)]) :=
    split_eq_ok.mpr ⟨quoted 300000, rfl, rfl, size, rfl, laid_chunks⟩
  refine ⟨_, _, _, cut, letters_faithful, ?_⟩
  exact ((chunk_transport letters_faithful).1 _ _ _ cut).2.2.2.1 _ (.swap _ _ _)

end Sample

end RssMdm.AgentWire
