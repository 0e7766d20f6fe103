/- module: ContentStore/Reader
   source: crates/content-service/src/reader.rs
   digest: The check of the pieces of some content, and the stream of a part of it. -/

import RssMdm.ContentStore.Append

set_option autoImplicit false

namespace RssMdm.ContentStore

open Lib

section

variable (env : Environment) (contents : Contents) (a : Artifact) (c : StorageClass)

/-- The loop of `check_pieces`: where the pieces end, and the bytes that are hashed. -/
def checkLoop : List Piece → Nat → Bytes → Option (Nat × Bytes)
  | [], offset, hashed => some (offset, hashed)
  | p :: rest, offset, hashed =>
      if p.offset ≠ offset ∨ p.length = 0 ∨ (protectedClass c = false ∧
          (p.content.length ≠ p.length ∨ chunk < p.length ∨ (rest ≠ [] ∧ p.length ≠ chunk))) then none
      else
        match logical env contents a c p with
        | none => none
        | some bytes => checkLoop rest (offset + p.length) (hashed ++ bytes)

/-- `Store::check_pieces`: small content is kept, and all of it is hashed. -/
def checkPieces (pieces : List Piece) : Option (Option Bytes × Nat) :=
  if pieces = [] ∨ 8193 < pieces.length ∨ (protectedClass c = true ∧ pieces.length ≠ 1) then none
  else
    match checkLoop env contents a c pieces 0 [] with
    | none => none
    | some (offset, bytes) =>
        if offset ≠ a.length then none
        else some (if a.length ≤ nativeLimit then some bytes else none, env.sha256 bytes)

/-- The content checks of `finish_in`. -/
def finishAccepts (saved : Saved) : Bool :=
  let b := saved.upload.binding
  saved.upload.offset = b.length &&
    (checkPieces env contents b.artifact b.storageClass saved.pieces).any (fun r => r.2 = b.artifact.sha256)

/-- Content whose digest was checked; what is small is kept in memory. -/
structure Verified where
  artifact : Artifact
  pieces : List Piece
  plaintext : Option Bytes

/-- `Store::verify_at`, once the manifest is pinned. -/
def verify (pieces : List Piece) : Option Verified :=
  if env.maxArtifactBytes < a.length ∨ (protectedClass c = true ∧ nativeLimit < a.length) then none
  else
    match checkPieces env contents a c pieces with
    | none => none
    | some (plaintext, digest) => if digest ≠ a.sha256 then none else some ⟨a, pieces, plaintext⟩

end

section

variable (contents : Contents)

/-- The state of a stream: the position, the end, and a buffer with a cursor. -/
structure Streaming where
  here : Nat
  stop : Nat
  buffer : Bytes
  cursor : Nat

namespace Verified

variable (v : Verified)

/-- The bytes that the buffer is filled with anew. -/
def refill (s : Streaming) : Option Bytes :=
  match v.plaintext with
  | some plain => some ((plain.drop s.here).take (s.stop - s.here))
  | none =>
      match v.pieces.find? (fun p => p.offset ≤ s.here ∧ s.here < p.offset + p.length) with
      | none => none
      | some p => readPiece contents p (s.here - p.offset) (min (s.stop - p.offset) p.length)

def take (s : Streaming) (buffer : Bytes) (cursor : Nat) : Option (Bytes × Streaming) :=
  let n := min (buffer.length - cursor) 65536
  if n = 0 then none else some ((buffer.drop cursor).take n, ⟨s.here + n, s.stop, buffer, cursor + n⟩)

def next (s : Streaming) : Option (Bytes × Streaming) :=
  if s.buffer.length ≤ s.cursor then
    match v.refill contents s with
    | none => none
    | some buffer => take s buffer 0
  else take s s.buffer s.cursor

theorem take_here {s s' : Streaming} {buffer bytes : Bytes} {cursor : Nat}
    (h : take s buffer cursor = some (bytes, s')) : s.here < s'.here ∧ s'.stop = s.stop := by
  unfold take at h
  dsimp only at h
  split at h
  · cases h
  · cases h
    exact ⟨by dsimp only; omega, rfl⟩

theorem next_here {s s' : Streaming} {bytes : Bytes} (h : v.next contents s = some (bytes, s')) :
    s.here < s'.here ∧ s'.stop = s.stop := by
  unfold next at h
  split at h
  · split at h
    · cases h
    · exact take_here h
  · exact take_here h

/-- The items that are left; an error is the last one. -/
def drain (s : Streaming) : List (Option Bytes) :=
  if s.stop ≤ s.here then []
  else
    match _next : v.next contents s with
    | none => [none]
    | some (bytes, s') => some bytes :: drain s'
termination_by s.stop - s.here
decreasing_by
  have := v.next_here contents _next
  omega

def stream (start stop : Nat) : Option (List (Option Bytes)) :=
  if stop < start ∨ v.artifact.length < stop then none else some (v.drain contents ⟨start, stop, [], 0⟩)

end Verified

end

section

variable (env : Environment) (contents : Contents) (a : Artifact) (c : StorageClass)

def held (p : Piece) : Bytes := (logical env contents a c p).getD []

def joined (pieces : List Piece) : Bytes := pieces.flatMap (held env contents a c)

/-- The pieces lie one after another, their bytes are there, and their sizes are what a reader expects. -/
structure Laid (pos : Nat) (pieces : List Piece) (stop : Nat) : Prop where
  tiled : Tiled Piece.offset Piece.length pos pieces stop
  stored : ∀ p ∈ pieces, (logical env contents a c p).isSome = true
  chunked : protectedClass c = false → Chunked Piece.length chunk pieces
  plain : protectedClass c = false → ∀ p ∈ pieces, p.content.length = p.length

variable {env contents a c} {p : Piece}

theorem logical_length {bytes : Bytes} (is : logical env contents a c p = some bytes) :
    bytes.length = p.length := by
  unfold logical at is
  split at is
  · cases is
  split at is
  · cases is
  · split at is
    · cases is
      assumption
    · cases is

theorem held_eq (stored : (logical env contents a c p).isSome = true) :
    logical env contents a c p = some (held env contents a c p) := by
  obtain ⟨bytes, is⟩ := Option.isSome_iff_exists.mp stored
  rw [held, is]
  rfl

theorem held_length (stored : (logical env contents a c p).isSome = true) :
    (held env contents a c p).length = p.length := logical_length (held_eq stored)

variable {stop : Nat}

theorem readPiece_held (open' : protectedClass c = false)
    (stored : (logical env contents a c p).isSome = true) (size : p.content.length = p.length)
    {start : Nat} (order : start ≤ stop) (inside : stop ≤ p.length) :
    readPiece contents p start stop = some (((held env contents a c p).drop start).take (stop - start)) := by
  have is := held_eq stored
  unfold logical at is
  split at is
  · cases is
  rename_i physical all
  rw [open'] at is
  simp only [Bool.false_eq_true, if_false] at is
  split at is
  · rename_i length
    have same := Option.some.inj is
    unfold readPiece at all ⊢
    rw [if_neg (by omega)] at all
    obtain ⟨bytes, found, cut⟩ := Option.map_eq_some_iff.mp all
    rw [if_neg (by omega), found, ← same, ← cut, Option.map_some, Nat.sub_zero, List.drop_zero, List.drop_take,
      List.take_take, Nat.min_eq_left (by omega)]
  · cases is

variable {pieces : List Piece}

theorem Laid.joined_length {pos : Nat} (laid : Laid env contents a c pos pieces stop) :
    pos + (joined env contents a c pieces).length = stop := by
  have sizes : pieces.map (fun p => (held env contents a c p).length) = pieces.map Piece.length :=
    List.map_congr_left fun p mem => held_length (laid.stored p mem)
  rw [laid.tiled.stop_eq, joined, List.length_flatMap, sizes]

theorem Laid.cons_iff {pos : Nat} {rest : List Piece} :
    Laid env contents a c pos (p :: rest) stop ↔ (p.offset = pos ∧ 0 < p.length ∧
      (logical env contents a c p).isSome = true ∧ (protectedClass c = false →
        p.content.length = p.length ∧ p.length ≤ chunk ∧ (rest ≠ [] → p.length = chunk))) ∧
          Laid env contents a c (pos + p.length) rest stop := by
  constructor
  · rintro ⟨⟨start, some, tiled⟩, stored, chunked, plain⟩
    refine ⟨⟨start, some, stored p (.head _), fun is => ?_⟩, tiled,
      fun q mem => stored q (.tail _ mem), fun is => (chunked is).2.2,
      fun is q mem => plain is q (.tail _ mem)⟩
    exact ⟨plain is p (.head _), (chunked is).1, (chunked is).2.1⟩
  · rintro ⟨⟨start, some, there, sizes⟩, tiled, stored, chunked, plain⟩
    refine ⟨⟨start, some, tiled⟩, List.forall_mem_cons.mpr ⟨there, stored⟩,
      fun is => ⟨(sizes is).2.1, (sizes is).2.2, chunked is⟩,
      fun is => List.forall_mem_cons.mpr ⟨(sizes is).1, plain is⟩⟩

theorem checkLoop_eq_some {pos : Nat} {hashed out : Bytes} :
    checkLoop env contents a c pieces pos hashed = some (stop, out) ↔
      Laid env contents a c pos pieces stop ∧ out = hashed ++ joined env contents a c pieces := by
  induction pieces generalizing pos hashed with
  | nil =>
    constructor
    · intro h
      cases h
      exact ⟨⟨rfl, fun _ mem => (by cases mem), fun _ => trivial, fun _ _ mem => (by cases mem)⟩,
        (List.append_nil _).symm⟩
    · rintro ⟨⟨rfl, -, -, -⟩, rfl⟩
      simp [checkLoop, joined]
  | cons p rest ih =>
    rw [Laid.cons_iff, checkLoop]
    split
    · rename_i wrong
      constructor
      · intro h
        cases h
      · rintro ⟨⟨⟨start, some, -, sizes⟩, -⟩, -⟩
        rcases wrong with off | zero | ⟨is, wrong⟩
        · exact absurd start off
        · omega
        obtain ⟨same, small, full⟩ := sizes is
        rcases wrong with differs | large | ⟨more, short⟩
        · exact absurd same differs
        · omega
        · exact absurd (full more) short
    · rename_i right
      simp only [not_or, not_and] at right
      obtain ⟨start, some, sizes⟩ := right
      split
      · rename_i missing
        constructor
        · intro h
          cases h
        · rintro ⟨⟨⟨-, -, stored, -⟩, -⟩, -⟩
          rw [missing] at stored
          cases stored
      · rename_i bytes is
        have stored : (logical env contents a c p).isSome = true := by rw [is]; rfl
        have same : held env contents a c p = bytes := by rw [held, is]; rfl
        rw [ih, show joined env contents a c (p :: rest) = bytes ++ joined env contents a c rest by
          rw [← same]; rfl, List.append_assoc]
        refine and_congr_left fun _ => (and_iff_right ⟨not_not.mp start, by omega, stored, fun is => ?_⟩).symm
        obtain ⟨same, small, full⟩ := sizes is
        exact ⟨not_not.mp same, by omega, fun more => not_not.mp (full more)⟩

theorem checkPieces_eq_some {small : Option Bytes} {digest : Nat} :
    checkPieces env contents a c pieces = some (small, digest) ↔
      (pieces ≠ [] ∧ pieces.length ≤ 8193 ∧ (protectedClass c = true → pieces.length = 1)) ∧
        Laid env contents a c 0 pieces a.length ∧
          small = (if a.length ≤ nativeLimit then some (joined env contents a c pieces) else none) ∧
            digest = env.sha256 (joined env contents a c pieces) := by
  unfold checkPieces
  split
  · rename_i wrong
    constructor
    · intro h
      cases h
    · rintro ⟨⟨some, few, one⟩, -⟩
      rcases wrong with none | many | ⟨is, more⟩
      · exact absurd none some
      · omega
      · exact absurd (one is) more
  · rename_i right
    simp only [not_or, not_and, not_not] at right
    rw [and_iff_right ⟨right.1, by omega, right.2.2⟩]
    split
    · rename_i refused
      constructor
      · intro h
        cases h
      · rintro ⟨laid, -⟩
        rw [checkLoop_eq_some.mpr ⟨laid, rfl⟩] at refused
        cases refused
    · rename_i stop bytes accepted
      obtain ⟨laid, rfl⟩ := checkLoop_eq_some.mp accepted
      have size := laid.joined_length
      constructor
      · intro h
        split at h
        · cases h
        · rename_i same
          cases h
          exact ⟨not_not.mp same ▸ laid, rfl, rfl⟩
      · rintro ⟨laid', rfl, rfl⟩
        rw [if_neg (not_not.mpr (size.symm.trans laid'.joined_length))]
        rfl

theorem finishAccepts_iff {saved : Saved} : finishAccepts env contents saved = true ↔
    saved.upload.offset = saved.upload.binding.length ∧ ∃ small, checkPieces env contents saved.upload.binding.artifact
      saved.upload.binding.storageClass saved.pieces = some (small, saved.upload.binding.sha256) := by
  unfold finishAccepts
  dsimp only
  rw [Bool.and_eq_true, decide_eq_true_eq]
  refine and_congr_right fun _ => ?_
  cases checkPieces env contents saved.upload.binding.artifact saved.upload.binding.storageClass saved.pieces with
  | none => simp
  | some result =>
    obtain ⟨small, digest⟩ := result
    constructor
    · intro same
      exact ⟨small, by rw [show digest = saved.upload.binding.sha256 from of_decide_eq_true same]⟩
    · rintro ⟨_, is⟩
      cases is
      exact decide_eq_true rfl

end

variable {contents : Contents}

def Verified.Serves (contents : Contents) (v : Verified) (content : Bytes) : Prop :=
  content.length = v.artifact.length ∧ (v.plaintext = some content ∨ v.plaintext = none ∧
    ∃ env c, protectedClass c = false ∧ Laid env contents v.artifact c 0 v.pieces v.artifact.length ∧
      joined env contents v.artifact c v.pieces = content)

def Streaming.Ahead (s : Streaming) (content : Bytes) : Prop :=
  s.stop ≤ content.length ∧
    ∃ rest, (content.drop s.here).take (s.stop - s.here) = s.buffer.drop s.cursor ++ rest

variable {s : Streaming} {content : Bytes}

theorem Verified.Serves.refill {v : Verified} (serves : v.Serves contents content)
    (more : s.here < s.stop) (inside : s.stop ≤ content.length) :
    ∃ buffer rest, v.refill contents s = some buffer ∧ 0 < buffer.length ∧
      (content.drop s.here).take (s.stop - s.here) = buffer ++ rest := by
  obtain ⟨size, memory | ⟨stored, env, c, open', laid, rfl⟩⟩ := serves
  · refine ⟨(content.drop s.here).take (s.stop - s.here), [], ?_, ?_, (List.append_nil _).symm⟩
    · rw [Verified.refill, memory]
    · simp only [List.length_take, List.length_drop]
      omega
  · have sized : ∀ p ∈ v.pieces, (held env contents v.artifact c p).length = p.length :=
      fun p mem => held_length (laid.stored p mem)
    obtain ⟨p, mem, found, low, high, rest, eq⟩ :=
      laid.tiled.covered (held env contents v.artifact c) sized (Nat.zero_le _) (size ▸ more.trans_le inside)
    rw [Nat.sub_zero] at eq
    have whole : s.here - p.offset ≤ min (s.stop - p.offset) p.length := by omega
    have read := readPiece_held open' (laid.stored p mem) (laid.plain open' p mem) whole (Nat.min_le_right _ _)
    have count : min (s.stop - p.offset) p.length - (s.here - p.offset) =
        min (s.stop - s.here) ((held env contents v.artifact c p).drop (s.here - p.offset)).length := by
      rw [List.length_drop, sized p mem]
      omega
    rw [count, ← List.take_eq_take_min] at read
    refine ⟨((held env contents v.artifact c p).drop (s.here - p.offset)).take (s.stop - s.here),
        rest.take (s.stop - s.here - ((held env contents v.artifact c p).drop (s.here - p.offset)).length),
      ?_, ?_, ?_⟩
    · rw [Verified.refill, stored]
      simp only [found]
      exact read
    · rw [List.length_take, List.length_drop, sized p mem]
      omega
    · rw [joined, eq, List.take_append]

theorem Verified.take_ahead {buffer rest : Bytes} {cursor : Nat} (inside : s.stop ≤ content.length)
    (left : cursor < buffer.length)
    (eq : (content.drop s.here).take (s.stop - s.here) = buffer.drop cursor ++ rest) :
    ∃ bytes s', Verified.take s buffer cursor = some (bytes, s') ∧ s'.Ahead content ∧
      (content.drop s.here).take (s.stop - s.here) = bytes ++ (content.drop s'.here).take (s'.stop - s'.here) := by
  let n := min (buffer.length - cursor) 65536
  have fits : n ≤ (buffer.drop cursor).length := by
    rw [List.length_drop]
    exact Nat.min_le_left _ _
  have later : (content.drop (s.here + n)).take (s.stop - (s.here + n)) = buffer.drop (cursor + n) ++ rest := by
    rw [← List.drop_drop, ← Nat.sub_sub, ← List.drop_take, eq, List.drop_append_of_le_length fits, List.drop_drop]
  refine ⟨(buffer.drop cursor).take n, ⟨s.here + n, s.stop, buffer, cursor + n⟩, ?_, ⟨inside, rest, later⟩, ?_⟩
  · have some : n ≠ 0 := by omega
    exact if_neg some
  · rw [eq, later, ← List.append_assoc, ← List.drop_drop, List.take_append_drop]

theorem Verified.Serves.next {v : Verified} (serves : v.Serves contents content)
    (ahead : s.Ahead content) (more : s.here < s.stop) :
    ∃ bytes s', v.next contents s = some (bytes, s') ∧ s'.Ahead content ∧
      (content.drop s.here).take (s.stop - s.here) = bytes ++ (content.drop s'.here).take (s'.stop - s'.here) := by
  obtain ⟨inside, rest, eq⟩ := ahead
  unfold Verified.next
  split
  · obtain ⟨buffer, rest, filled, some, eq⟩ := serves.refill more inside
    rw [filled]
    exact Verified.take_ahead inside some eq
  · exact Verified.take_ahead inside (by omega) eq

theorem Verified.Serves.drain {v : Verified} (serves : v.Serves contents content)
    (ahead : s.Ahead content) : ∃ parts : List Bytes, v.drain contents s = parts.map some ∧
      parts.flatten = (content.drop s.here).take (s.stop - s.here) := by
  induction left : s.stop - s.here using Nat.strong_induction_on generalizing s with
  | _ n ih =>
    subst left
    rw [Verified.drain]
    split
    · rename_i over'
      refine ⟨[], rfl, ?_⟩
      rw [Nat.sub_eq_zero_of_le over', List.take_zero]
      rfl
    · rename_i more
      obtain ⟨bytes, s', is, ahead', eq⟩ := serves.next ahead (by omega)
      have moved := v.next_here contents is
      obtain ⟨parts, drained, flat⟩ := ih (s'.stop - s'.here) (by omega) ahead' rfl
      split
      · rename_i stuck
        rw [stuck] at is
        cases is
      rename_i bytes' s'' is'
      cases is'.symm.trans is
      refine ⟨bytes :: parts, ?_, ?_⟩
      · rw [drained]
        rfl
      · rw [List.flatten_cons, flat, eq]

def Verified.Streams (contents : Contents) (v : Verified) (content : Bytes) : Prop :=
  ∀ start stop, start ≤ stop → stop ≤ content.length → ∃ parts : List Bytes,
    v.stream contents start stop = some (parts.map some) ∧ parts.flatten = (content.drop start).take (stop - start)

theorem Verified.Serves.streams {v : Verified} (serves : v.Serves contents content) :
    v.Streams contents content := by
  intro start stop order inside
  have ahead : (⟨start, stop, [], 0⟩ : Streaming).Ahead content := ⟨inside, _, (List.nil_append _).symm⟩
  obtain ⟨parts, drained, flat⟩ := serves.drain ahead
  refine ⟨parts, ?_, flat⟩
  have size := serves.1
  rw [Verified.stream, if_neg (by omega), drained]

theorem verify_eq {env : Environment} {a : Artifact} {c : StorageClass} {pieces : List Piece} {small : Option Bytes}
    (checked : checkPieces env contents a c pieces = some (small, a.sha256))
    (allowed : a.length ≤ env.maxArtifactBytes) (bounded : protectedClass c = true → a.length ≤ nativeLimit) :
    verify env contents a c pieces = some ⟨a, pieces, small⟩ := by
  have inside : ¬(env.maxArtifactBytes < a.length ∨ (protectedClass c = true ∧ nativeLimit < a.length)) := by
    rintro (large | ⟨is, large⟩)
    · omega
    · have := bounded is
      omega
  rw [verify, if_neg inside, checked]
  exact if_neg (not_not.mpr rfl)

theorem serves_of_checked {env : Environment} {a : Artifact} {c : StorageClass} {pieces : List Piece}
    {small : Option Bytes} {digest : Nat} (checked : checkPieces env contents a c pieces = some (small, digest))
    (bounded : protectedClass c = true → a.length ≤ nativeLimit) :
    (⟨a, pieces, small⟩ : Verified).Serves contents (joined env contents a c pieces) := by
  obtain ⟨-, laid, rfl, -⟩ := checkPieces_eq_some.mp checked
  refine ⟨(Nat.zero_add _).symm.trans laid.joined_length, ?_⟩
  by_cases fits : a.length ≤ nativeLimit
  · exact .inl (if_pos fits)
  · have open' : protectedClass c = false := Bool.eq_false_iff.mpr fun is => fits (bounded is)
    exact .inr ⟨if_neg fits, env, c, open', laid, rfl⟩

end RssMdm.ContentStore
