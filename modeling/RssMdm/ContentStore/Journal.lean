/- module: ContentStore/Journal
   source: crates/content-service/src/journal.rs, upload.rs, schema/install.sql
   digest: The journal of uploaded content: uploads with their frontiers, physical objects, manifests and pins,
   and the transactions that upload, finish and pin. -/

import Mathlib.Data.Prod.Lex
import Mathlib.Data.String.Basic
import RssMdm.Lib.OrdMap

set_option autoImplicit false

namespace RssMdm.ContentStore

open Lib

abbrev Uuid := Nat

inductive StorageClass where
  | artifact | nativeConfiguration
deriving DecidableEq

/-- `Content`: length and digest of the physical bytes. -/
structure Content where
  length : Nat
  sha256 : Nat
deriving DecidableEq

structure Piece where
  id : Uuid
  offset : Nat
  length : Nat
  content : Content
deriving DecidableEq

/-- `Binding`; what it is for does not matter to the journal. -/
structure Binding where
  purpose : String
  storageClass : StorageClass
  reference : String
  length : Nat
  sha256 : Nat
  actor : String
deriving DecidableEq

structure Upload where
  id : Uuid
  binding : Binding
  offset : Nat
  expires : Int
  complete : Bool
deriving DecidableEq

structure Saved where
  upload : Upload
  pieces : List Piece
deriving DecidableEq

/-- A signed document stands for what it signs. -/
structure Manifest where
  pieces : List Piece
  inspections : OrdMap String String
deriving DecidableEq

structure UploadRow where
  document : Saved
  epoch : Option Uuid
  heldUntil : Int
  expires : Int
  complete : Bool
deriving DecidableEq

inductive ObjectState where
  | pending | ready | deleting | deleted
deriving DecidableEq

/-- A physical object of the active generation; `located` tells whether its coordinate is known. -/
structure ObjectRow where
  owner : Uuid
  content : Content
  located : Bool
  expires : Int
  state : ObjectState
deriving DecidableEq

inductive ManifestState where
  | ready | deleting | deleted
deriving DecidableEq

structure ManifestRow where
  document : Manifest
  expires : Int
  state : ManifestState
deriving DecidableEq

structure ManifestKey where
  storageClass : StorageClass
  sha256 : Nat
  length : Nat
deriving DecidableEq

def StorageClass.rank : StorageClass → Nat
  | .artifact => 0
  | .nativeConfiguration => 1

/-- `ORDER BY class, sha256`, as far as the primary key goes. -/
def ManifestKey.order (k : ManifestKey) : Nat ×ₗ Nat ×ₗ Nat := toLex (k.storageClass.rank, toLex (k.sha256, k.length))

theorem ManifestKey.order_injective : Function.Injective ManifestKey.order := by
  rintro ⟨a, s, l⟩ ⟨b, t, m⟩ same
  have parts := toLex.injective same
  have rank : a.rank = b.rank := congrArg Prod.fst parts
  have rest := toLex.injective (congrArg Prod.snd parts)
  have classes : a = b := by
    cases a <;> cases b <;> first | rfl | cases rank
  cases classes
  cases rest
  rfl

instance : LinearOrder ManifestKey := LinearOrder.lift' ManifestKey.order ManifestKey.order_injective

structure PinRow where
  manifest : ManifestKey
  expires : Int
deriving DecidableEq

structure Database where
  uploads : OrdMap Uuid UploadRow
  objects : OrdMap Uuid ObjectRow
  manifests : OrdMap ManifestKey ManifestRow
  pins : OrdMap Uuid PinRow

def Database.empty : Database := ⟨.empty, .empty, .empty, .empty⟩

def Saved.names (saved : Saved) (id : Uuid) : Bool := saved.pieces.any (fun p => p.id = id)

def Manifest.names (manifest : Manifest) (id : Uuid) : Bool := manifest.pieces.any (fun p => p.id = id)

def Binding.manifestKey (b : Binding) : ManifestKey := ⟨b.storageClass, b.sha256, b.length⟩

/-- A lease of one upload; its holder stops when it ends. -/
structure Lease where
  key : Uuid
  epoch : Uuid
  heldUntil : Int
deriving DecidableEq

/-- An object that its owner's frontier does not name may be cleaned up at once. -/
def ObjectRow.supersede (key : Uuid) (saved : Saved) (id : Uuid) (o : ObjectRow) : ObjectRow :=
  if o.owner = key && o.state = .ready && !saved.names id then { o with expires := 0 } else o

namespace Database

variable (db : Database)

/-- The transaction of `begin_in`; an upload that was begun before is answered again. -/
def begin (key id : Uuid) (binding : Binding) (expires now : Int) : Option (Database × Upload) :=
  match db.uploads.get? key with
  | some old =>
      if old.document.upload.binding ≠ binding ∨ old.document.upload.id ≠ id ∨ old.document.upload.expires ≤ now then none
      else some (db, old.document.upload)
  | none =>
      let upload : Upload := ⟨id, binding, 0, expires, false⟩
      some ({ db with uploads := db.uploads.insert key ⟨⟨upload, []⟩, none, 0, expires, false⟩ }, upload)

/-- Take the lease of an upload that nobody holds. -/
def claim (actor : String) (id : Uuid) (offset : Option Nat) (now : Int) (lease : Lease) :
    Option (Database × Saved) :=
  match db.uploads.get? lease.key with
  | none => none
  | some row =>
      let upload := row.document.upload
      if row.expires ≤ now then none
      else if upload.id ≠ id ∨ upload.binding.actor ≠ actor then none
      else if now < row.heldUntil ∨ upload.complete ∨ (upload.offset = upload.binding.length ∧ row.epoch.isSome) ∨
          offset.any (· ≠ upload.offset) then none
      else
        let held := { row with epoch := some lease.epoch, heldUntil := lease.heldUntil }
        some ({ db with uploads := db.uploads.insert lease.key held }, row.document)

def leased (lease : Lease) : Option UploadRow :=
  (db.uploads.get? lease.key).filter (fun row => row.epoch = some lease.epoch)

def release (lease : Lease) : Database :=
  match db.leased lease with
  | none => db
  | some row => { db with uploads := db.uploads.insert lease.key { row with epoch := none, heldUntil := 0 } }

/-- The first transaction of `put_piece`; the object is not written yet. -/
def insertPiece (lease : Lease) (piece : Piece) (expires : Int) : Option Database :=
  match (db.leased lease).filter (fun row => !row.complete) with
  | none => none
  | some _ =>
      if db.objects.contains piece.id then none
      else some { db with objects := db.objects.insert piece.id ⟨lease.key, piece.content, false, expires, .pending⟩ }

/-- The provider has not written the object and never will. -/
def notWritten (id : Uuid) : Database :=
  { db with objects := db.objects.modify id (fun o =>
      if !o.located && (o.state = .pending || o.state = .deleting) then { o with state := .deleted } else o) }

def locate (id : Uuid) : Database :=
  { db with objects := db.objects.modify id (fun o => { o with located := true }) }

def confirm (id : Uuid) : Database :=
  { db with objects := db.objects.modify id (fun o => if o.state = .pending then { o with state := .ready } else o) }

def saveFrontier (lease : Lease) (saved : Saved) : Option Database :=
  match (db.leased lease).filter (fun row => !row.complete) with
  | none => none
  | some row => some { db with
      uploads := db.uploads.insert lease.key { row with document := saved, epoch := none, heldUntil := 0 }
      objects := db.objects.mapValues (ObjectRow.supersede lease.key saved) }

/-- `entry(kind).or_insert(result)` for each observation. -/
def merge (old more : OrdMap String String) : OrdMap String String :=
  more.entries.foldl (fun m e => if m.contains e.1 then m else m.insert e.1 e.2) old

/-- The transaction of `finish_in`: a manifest in use keeps its pieces. -/
def finish (lease : Lease) (saved : Saved) (inspections : OrdMap String String) : Option Database :=
  match (db.leased lease).filter (fun row => !row.complete) with
  | none => none
  | some row =>
      let k := saved.upload.binding.manifestKey
      let old := db.manifests.get? k
      let document : Manifest :=
        match old.filter (fun m => m.state = .ready) with
        | some m => ⟨m.document.pieces, merge m.document.inspections inspections⟩
        | none => ⟨saved.pieces, inspections⟩
      if old.any (fun m => m.state = .deleting) then none
      else some { db with
        manifests := db.manifests.insert k ⟨document, saved.upload.expires, .ready⟩
        uploads := db.uploads.insert lease.key
          { row with document := { saved with upload := { saved.upload with complete := true } }, complete := true } }

def pin (id : Uuid) (k : ManifestKey) (expires : Int) : Option (Database × Manifest) :=
  match (db.manifests.get? k).filter (fun m => m.state = .ready) with
  | none => none
  | some m =>
      if db.pins.contains id then none
      else some ({ db with pins := db.pins.insert id ⟨k, expires⟩ }, m.document)

def unpin (id : Uuid) : Database := { db with pins := db.pins.filter (fun k _ => k ≠ id) }

end Database

theorem leased_eq_some {db : Database} {lease : Lease} {row : UploadRow}
    (h : (db.leased lease).filter (fun row => !row.complete) = some row) :
    db.uploads.get? lease.key = some row ∧ row.epoch = some lease.epoch ∧ row.complete = false := by
  rw [Option.filter_eq_some_iff, Database.leased, Option.filter_eq_some_iff] at h
  obtain ⟨⟨found, epoch⟩, incomplete⟩ := h
  exact ⟨found, of_decide_eq_true epoch, by simpa using incomplete⟩

end RssMdm.ContentStore
