/- module: ContentStore/Append
   source: crates/content-service/src/upload.rs, protected.rs, reader.rs
   digest: What an append does with the bytes of its body, and how pieces are read back. -/

import RssMdm.ContentStore.Cleanup
import RssMdm.Lib.Tiling

set_option autoImplicit false

namespace RssMdm.ContentStore

open Lib

abbrev Bytes := List UInt8

def nativeLimit : Nat := 16 * 1024 * 1024

def block : Nat := 65536

/-- `OVERHEAD`: what sealing adds to a block. -/
def overhead : Nat := 68

structure Artifact where
  length : Nat
  sha256 : Nat
deriving DecidableEq

def Binding.artifact (b : Binding) : Artifact := ⟨b.length, b.sha256⟩

/-- The coordinates that a sealed block is bound to. -/
structure Aad where
  artifact : Artifact
  storageClass : StorageClass
  offset : Nat
  count : Nat
deriving DecidableEq

/-- Key derivation, digests, sealing and the configuration; sealing takes a nonce. -/
structure Environment where
  storageKey : String → Uuid → Uuid
  sha256 : Bytes → Nat
  maxArtifactBytes : Nat
  sealBytes : Nat → Aad → Bytes → Bytes
  openBytes : Aad → Bytes → Option Bytes

/-- What is sealed is opened under the same coordinates. -/
structure Environment.Opens (env : Environment) : Prop where
  opened : ∀ nonce aad bytes, bytes.length ≤ block → env.openBytes aad (env.sealBytes nonce aad bytes) = some bytes
  sealed : ∀ nonce aad bytes, (env.sealBytes nonce aad bytes).length = bytes.length + overhead

section

variable (env : Environment) (a : Artifact) (c : StorageClass)

/-- The loop of `protected::seal`. -/
def sealLoop (nonces : Nat → Nat) (i : Nat) (bytes : Bytes) : Bytes :=
  if bytes = [] then []
  else
    let part := bytes.take block
    env.sealBytes (nonces i) ⟨a, c, i * block, part.length⟩ part ++ sealLoop nonces (i + 1) (bytes.drop block)
termination_by bytes.length
decreasing_by
  rename_i nonempty
  have := List.length_pos_iff.mpr nonempty
  simp only [List.length_drop, block]
  omega

def sealContent (nonces : Nat → Nat) (bytes : Bytes) : Option Bytes :=
  if nativeLimit < bytes.length then none else some (sealLoop env a c nonces 0 bytes)

/-- The loop of `protected::plaintext`, with the cursor it ends at. -/
def openLoop (bytes : Bytes) (count cursor offset : Nat) : Option (Bytes × Nat) :=
  if offset < count then
    let n := min (count - offset) block
    let stop := cursor + n + overhead
    if bytes.length < stop then none
    else
      match env.openBytes ⟨a, c, offset, n⟩ ((bytes.drop cursor).take (n + overhead)) with
      | none => none
      | some plain =>
          if plain.length ≠ n then none
          else (openLoop bytes count stop (offset + n)).map (fun rest => (plain ++ rest.1, rest.2))
  else some ([], cursor)
termination_by count - offset
decreasing_by
  simp only [block]
  omega

def plaintext (bytes : Bytes) (count : Nat) : Option Bytes :=
  if nativeLimit < count ∨ a.length < count then none
  else
    match openLoop env a c bytes count 0 0 with
    | none => none
    | some (out, cursor) => if cursor = bytes.length then some out else none

variable {env a c}

theorem openLoop_block (opens : env.Opens) {nonce offset count : Nat} (before part more : Bytes)
    (size : part.length = min (count - offset) block) (nonempty : 0 < part.length) :
    let bytes := before ++ (env.sealBytes nonce ⟨a, c, offset, part.length⟩ part ++ more)
    openLoop env a c bytes count before.length offset =
      (openLoop env a c bytes count (before.length + part.length + overhead) (offset + part.length)).map
        (fun rest => (part ++ rest.1, rest.2)) := by
  intro bytes
  have width := opens.sealed nonce ⟨a, c, offset, part.length⟩ part
  have room : ¬bytes.length < before.length + part.length + overhead := by
    simp only [bytes, List.length_append]
    omega
  have cut : (bytes.drop before.length).take (part.length + overhead) =
      env.sealBytes nonce ⟨a, c, offset, part.length⟩ part := by
    rw [List.drop_left, ← width, List.take_left]
  have opened := opens.opened nonce ⟨a, c, offset, part.length⟩ part (size ▸ Nat.min_le_right _ _)
  rw [openLoop, if_pos (by omega), ← size]
  simp only [if_neg room, cut, opened, ne_eq, not_true_eq_false, if_false]

theorem openLoop_sealLoop (opens : env.Opens) (nonces : Nat → Nat) (before rest : Bytes) (i : Nat) :
    openLoop env a c (before ++ sealLoop env a c nonces i rest) (i * block + rest.length) before.length (i * block) =
      some (rest, (before ++ sealLoop env a c nonces i rest).length) := by
  induction size : rest.length using Nat.strong_induction_on generalizing before rest i with
  | _ n ih =>
    subst size
    rw [sealLoop]
    by_cases empty : rest = []
    · subst empty
      rw [if_pos rfl, openLoop, if_neg (by simp), List.append_nil]
    have pos := List.length_pos_iff.mpr empty
    have taken : (rest.take block).length = min rest.length block := by rw [List.length_take, Nat.min_comm]
    have nonempty : 0 < (rest.take block).length := by
      rw [taken]
      exact Nat.lt_min.mpr ⟨pos, by decide⟩
    have here : (rest.take block).length = min (i * block + rest.length - i * block) block := by
      rw [taken, Nat.add_sub_cancel_left]
    rw [if_neg empty, openLoop_block opens before (rest.take block) _ here nonempty]
    let sealed := env.sealBytes (nonces i) ⟨a, c, i * block, (rest.take block).length⟩ (rest.take block)
    have cursor : before.length + (rest.take block).length + overhead = (before ++ sealed).length := by
      rw [List.length_append, opens.sealed, Nat.add_assoc]
    rw [← List.append_assoc, cursor]
    by_cases last : rest.length ≤ block
    · have whole : rest.take block = rest := List.take_of_length_le last
      have ended : sealLoop env a c nonces (i + 1) (rest.drop block) = [] := by
        rw [List.drop_eq_nil_of_le last, sealLoop, if_pos rfl]
      rw [whole, openLoop, if_neg (Nat.lt_irrefl _), ended]
      simp only [sealed, whole, Option.map_some, List.append_nil]
    · have full : (rest.take block).length = block := by omega
      have next : i * block + (rest.take block).length = (i + 1) * block := by rw [full, Nat.succ_mul]
      have count : i * block + rest.length = (i + 1) * block + (rest.drop block).length := by
        rw [List.length_drop]
        omega
      have shorter : (rest.drop block).length < rest.length := by
        simp only [List.length_drop, block]
        omega
      rw [next, count, ih _ shorter (before ++ sealed) (rest.drop block) (i + 1) rfl]
      simp only [sealed, Option.map_some, List.take_append_drop]

theorem plaintext_sealContent (opens : env.Opens) {nonces : Nat → Nat} {bytes sealed : Bytes}
    (done : sealContent env a c nonces bytes = some sealed) (fits : bytes.length ≤ a.length) :
    plaintext env a c sealed bytes.length = some bytes := by
  unfold sealContent at done
  split at done
  · cases done
  rename_i short
  cases done
  have opened := openLoop_sealLoop (a := a) (c := c) opens nonces [] bytes 0
  simp only [Nat.zero_mul, Nat.zero_add, List.nil_append, List.length_nil] at opened
  have room : ¬(nativeLimit < bytes.length ∨ a.length < bytes.length) := by omega
  rw [plaintext, if_neg room, opened]
  exact if_pos rfl

end

section

/-- What the provider holds of each object. -/
abbrev Contents := Uuid → Option Bytes

variable (env : Environment) (contents : Contents)

def readPiece (p : Piece) (start stop : Nat) : Option Bytes :=
  if stop < start ∨ p.content.length < stop then none
  else (contents p.id).map (fun bytes => (bytes.drop start).take (stop - start))

/-- The bytes that a piece stands for, as `check_pieces` reads them. -/
def logical (a : Artifact) (c : StorageClass) (p : Piece) : Option Bytes :=
  match readPiece contents p 0 p.content.length with
  | none => none
  | some physical =>
      match if protectedClass c then plaintext env a c physical p.length else some physical with
      | none => none
      | some bytes => if bytes.length = p.length then some bytes else none

/-- What `put_piece` is asked to store. -/
structure Put where
  offset : Nat
  length : Nat
  bytes : Bytes

def Put.piece (put : Put) (id : Uuid) : Piece := ⟨id, put.offset, put.length, ⟨put.bytes.length, env.sha256 put.bytes⟩⟩

end

/-- The variables of `append_claimed`; `body` is what was read of the body so far, for the record. -/
structure Append where
  saved : Saved
  start : Nat
  buffer : Bytes
  body : Bytes

namespace Append

variable (env : Environment) (contents : Contents)

def native (a : Append) : Bool := protectedClass a.saved.upload.binding.storageClass

/-- Read the end of the frontier back. -/
def resume (saved : Saved) : Option Append :=
  let binding := saved.upload.binding
  let start := saved.upload.offset
  let fresh : Append := ⟨saved.resumed, start, [], []⟩
  if binding.length ≤ start then none
  else if protectedClass binding.storageClass then
    match saved.pieces.head? with
    | none => some fresh
    | some p =>
        match readPiece contents p 0 p.content.length with
        | none => none
        | some bytes =>
            match plaintext env binding.artifact binding.storageClass bytes start with
            | none => none
            | some buffer => some { fresh with buffer }
  else
    match saved.pieces.getLast? with
    | none => some fresh
    | some p =>
        if p.length < chunk then
          match readPiece contents p 0 p.content.length with
          | none => none
          | some buffer => some { fresh with buffer }
        else some fresh

variable (a : Append)

/-- One read of the body. -/
def receive (data : Bytes) : Option Append :=
  let saved := a.saved.advance data.length
  if saved.upload.binding.length < saved.upload.offset then none
  else some { a with saved, buffer := a.buffer ++ data, body := a.body ++ data }

def isFull : Bool := !a.native && chunk ≤ a.buffer.length

def cut : Append × Put := ({ a with buffer := a.buffer.drop chunk }, ⟨a.saved.tail, chunk, a.buffer.take chunk⟩)

/-- The body has ended: what is left in the buffer is stored, if there is any. -/
def close (nonces : Nat → Nat) : Option (Option Put) :=
  if a.saved.upload.offset = a.start then none
  else if a.buffer = [] then some none
  else if a.native then
    let binding := a.saved.upload.binding
    (sealContent env binding.artifact binding.storageClass nonces a.buffer).map
      (fun bytes => some ⟨0, a.buffer.length, bytes⟩)
  else some (some ⟨a.saved.tail, a.buffer.length, a.buffer⟩)

def push (p : Piece) : Append := { a with saved := a.saved.push p }

end Append

end RssMdm.ContentStore
