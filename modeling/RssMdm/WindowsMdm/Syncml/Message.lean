/- module: WindowsMdm/Syncml/Message
   source: crates/windows-mdm/src/syncml.rs
   digest: In-memory SyncML messages and the bounded preorder flattening of command groups. -/

import RssMdm.WindowsMdm.Codec

set_option autoImplicit false

namespace RssMdm.WindowsMdm.Syncml

open Lib.Fallible

structure Meta where
  format : Option String
  mediaType : Option String
  maxMessageSize : Option UInt32
  maxObjectSize : Option UInt32
  size : Option UInt32
deriving DecidableEq

def Meta.empty : Meta := ⟨none, none, none, none, none⟩

/-- Unverified authentication material; the redacting wrapper of `data` is transparent here. -/
structure Credential where
  metaInfo : Meta
  data : String
deriving DecidableEq

structure Header where
  sessionId : UInt32
  messageId : UInt32
  target : String
  source : String
  credential : Option Credential
  metaInfo : Option Meta
deriving DecidableEq

/-- Command-specific URI, metadata and optional text payload. -/
structure Item where
  moreData : Bool
  source : Option String
  target : Option String
  metaInfo : Option Meta
  data : Option String
deriving DecidableEq

/-- Closed protocol command names used in status/result references. -/
inductive CommandName where
  | add
  | atomic
  | sequence
  | delete
  | exec
  | syncHdr
  | get
  | status
  | alert
  | replace
  | results
deriving DecidableEq

def CommandName.asStr : CommandName → String
  | .add => "Add"
  | .sequence => "Sequence"
  | .atomic => "Atomic"
  | .delete => "Delete"
  | .exec => "Exec"
  | .syncHdr => "SyncHdr"
  | .get => "Get"
  | .status => "Status"
  | .alert => "Alert"
  | .replace => "Replace"
  | .results => "Results"

def CommandName.parse (s : String) : Except CodecError CommandName :=
  if s = "Add" then .ok .add
  else if s = "Sequence" then .ok .sequence
  else if s = "Atomic" then .ok .atomic
  else if s = "Delete" then .ok .delete
  else if s = "Exec" then .ok .exec
  else if s = "SyncHdr" then .ok .syncHdr
  else if s = "Get" then .ok .get
  else if s = "Status" then .ok .status
  else if s = "Alert" then .ok .alert
  else if s = "Replace" then .ok .replace
  else if s = "Results" then .ok .results
  else .error .unsupported

theorem CommandName.parse_asStr (c : CommandName) : CommandName.parse c.asStr = .ok c := by
  cases c <;> decide

/-- Header-only authentication challenge. -/
structure Challenge where
  mediaType : String
  nonce : Option String
deriving DecidableEq

structure Status where
  id : UInt32
  messageRef : UInt32
  commandRef : UInt32
  command : CommandName
  targetRefs : List String
  sourceRefs : List String
  code : UInt16
  items : List Item
  challenge : Option Challenge
  credential : Option Credential
deriving DecidableEq

structure Results where
  id : UInt32
  messageRef : Option UInt32
  commandRef : Option UInt32
  command : Option CommandName
  metaInfo : Option Meta
  items : List Item
deriving DecidableEq

inductive LoginStatus where
  | user
  | others
  | none
deriving DecidableEq

def LoginStatus.asStr : LoginStatus → String
  | .user => "user"
  | .others => "others"
  | .none => "none"

/-- Native alerts; login state and asynchronous results are untrusted device claims. -/
inductive Alert where
  | declaredConfiguration (summary : String) (explicitFormat : Bool)
  | unenrollmentRequested
  | clientInitiated
  | moreMessages
  | sessionAbort
  | endOfData (items : List Item)
  | generic (items : List Item)
  | loginStatus (status : LoginStatus) (explicitFormat : Bool)
deriving DecidableEq

/-- Supported bounded command profile. -/
inductive Command where
  | add (id : UInt32) (metaInfo : Option Meta) (items : List Item)
  | replace (id : UInt32) (metaInfo : Option Meta) (items : List Item)
  | delete (id : UInt32) (metaInfo : Option Meta) (items : List Item)
  | exec (id : UInt32) (metaInfo : Option Meta) (items : List Item)
  | atomic (id : UInt32) (commands : List Command)
  | sequence (id : UInt32) (commands : List Command)
  | get (id : UInt32) (metaInfo : Option Meta) (items : List Item)
  | status (status : Status)
  | results (results : Results)
  | alert (id : UInt32) (alert : Alert)
  | devInfo (id : UInt32) (items : List Item)

def Command.id : Command → UInt32
  | .add id _ _ => id
  | .replace id _ _ => id
  | .delete id _ _ => id
  | .exec id _ _ => id
  | .atomic id _ => id
  | .sequence id _ => id
  | .get id _ _ => id
  | .status s => s.id
  | .results r => r.id
  | .alert id _ => id
  | .devInfo id _ => id

structure Message where
  header : Header
  commands : List Command
  finalMessage : Bool

def Command.children : Command → List Command
  | .atomic _ commands => commands
  | .sequence _ commands => commands
  | _ => []

mutual

def Command.size : Command → Nat
  | .atomic _ commands => 1 + forestSize commands
  | .sequence _ commands => 1 + forestSize commands
  | _ => 1

def forestSize : List Command → Nat
  | [] => 0
  | c :: rest => c.size + forestSize rest

end

mutual

def Command.preorder (depth : Nat) (atomic : Option UInt32) :
    Command → List (Command × Nat × Option UInt32)
  | .atomic id commands =>
      (.atomic id commands, depth, atomic) :: preorderForest (depth + 1) (some id) commands
  | .sequence id commands =>
      (.sequence id commands, depth, atomic) :: preorderForest (depth + 1) atomic commands
  | c => [(c, depth, atomic)]

def preorderForest (depth : Nat) (atomic : Option UInt32) :
    List Command → List (Command × Nat × Option UInt32)
  | [] => []
  | c :: rest => c.preorder depth atomic ++ preorderForest depth atomic rest

end

theorem Command.size_pos (c : Command) : 0 < c.size := by
  cases c <;> simp only [Command.size] <;> omega

theorem forestSize_append (a b : List Command) :
    forestSize (a ++ b) = forestSize a + forestSize b := by
  induction a with
  | nil => simp [forestSize]
  | cons _ _ ih => simp [forestSize, ih, Nat.add_assoc]

/-- One entry of the flattening stack: a command, its depth and its enclosing atomic group. -/
structure Pending where
  command : Command
  depth : Nat
  atomic : Option UInt32

def itemTargets (items : List Item) : List String := items.filterMap Item.target

def Command.name : Command → CommandName
  | .add _ _ _ => .add
  | .replace _ _ _ => .replace
  | .delete _ _ _ => .delete
  | .exec _ _ _ => .exec
  | .atomic _ _ => .atomic
  | .sequence _ _ => .sequence
  | .get _ _ _ => .get
  | .status _ => .status
  | .results _ => .results
  | .alert _ _ => .alert
  | .devInfo _ _ => .replace

def Command.targets : Command → List String
  | .add _ _ items | .replace _ _ items | .delete _ _ items | .exec _ _ items | .get _ _ items =>
      itemTargets items
  | _ => []

/-- The group restrictions checked when a command is popped; returns the targets added so far in
each atomic group. -/
def flattenVisit (p : Pending) (additions : List (UInt32 × String)) :
    Except CodecError (List (UInt32 × String)) :=
  match p.command with
  | .atomic _ commands =>
      if commands.isEmpty then .error .structural
      else if p.atomic.isSome then .error .unsupported
      else .ok additions
  | .sequence _ commands => if commands.isEmpty then .error .structural else .ok additions
  | .get _ _ _ => if p.atomic.isSome then .error .unsupported else .ok additions
  | .add _ _ items =>
      match p.atomic with
      | some group => .ok (additions ++ (itemTargets items).map (fun uri => (group, uri)))
      | none => .ok additions
  | .replace _ _ items =>
      match p.atomic with
      | some group =>
          if (itemTargets items).any (fun uri => additions.contains (group, uri)) then
            .error .unsupported
          else .ok additions
      | none => .ok additions
  | .delete _ _ _ => .ok additions
  | .exec _ _ _ => .ok additions
  | .status _ => if p.depth ≠ 0 then .error .unsupported else .ok additions
  | .results _ => if p.depth ≠ 0 then .error .unsupported else .ok additions
  | .alert _ _ => if p.depth ≠ 0 then .error .unsupported else .ok additions
  | .devInfo _ _ => if p.depth ≠ 0 then .error .unsupported else .ok additions

/-- The entries a popped group pushes, first member on top. -/
def Pending.children (p : Pending) : List Pending :=
  let atomic := match p.command with
    | .atomic id _ => some id
    | _ => p.atomic
  p.command.children.map (fun c => ⟨c, p.depth + 1, atomic⟩)

/-- The work loop; every round pops one command, so the forest size bounds the rounds. -/
def flattenLoop (l : CodecLimits) : Nat → List Pending → List Command → List (UInt32 × String) →
    Except CodecError (List Command)
  | _, [], output, _ => .ok output
  | 0, _ :: _, _, _ => .error .limitExceeded
  | fuel + 1, p :: pending, output, additions => do
      bound p.depth (min l.depth 32)
      bound (output.length + pending.length + 1) l.commands
      let additions ← flattenVisit p additions
      bound (output.length + pending.length + p.command.children.length + 1) l.commands
      flattenLoop l fuel (p.children ++ pending) (output ++ [p.command]) additions

/-- Flatten after checking the native group constraints and total allocation budget. -/
def flattened (commands : List Command) (l : CodecLimits) : Except CodecError (List Command) := do
  bound commands.length l.commands
  flattenLoop l (forestSize commands) (commands.map (fun c => ⟨c, 0, none⟩)) [] []

def Pending.preorder (p : Pending) : List (Command × Nat × Option UInt32) :=
  p.command.preorder p.depth p.atomic

theorem preorderForest_eq_flatMap (depth : Nat) (atomic : Option UInt32) (commands : List Command) :
    preorderForest depth atomic commands =
      (commands.map (fun c => (⟨c, depth, atomic⟩ : Pending))).flatMap Pending.preorder := by
  induction commands with
  | nil => rfl
  | cons _ _ ih => rw [preorderForest, ih, List.map_cons, List.flatMap_cons, Pending.preorder]

theorem Pending.preorder_eq (p : Pending) :
    p.preorder = (p.command, p.depth, p.atomic) :: p.children.flatMap Pending.preorder := by
  obtain ⟨c, depth, atomic⟩ := p
  cases c <;>
    simp [Pending.preorder, Pending.children, Command.preorder, Command.children,
      preorderForest_eq_flatMap]

def pendingSize (pending : List Pending) : Nat := forestSize (pending.map Pending.command)

theorem Pending.size_children (p : Pending) :
    p.command.size = 1 + pendingSize p.children := by
  obtain ⟨c, depth, atomic⟩ := p
  cases c <;>
    simp [pendingSize, Pending.children, Command.children, Command.size, forestSize,
      List.map_map, Function.comp_def]

theorem flattenLoop_fuel (l : CodecLimits) (fuel extra : Nat) (pending : List Pending)
    (output : List Command) (additions : List (UInt32 × String))
    (enough : pendingSize pending ≤ fuel) :
    flattenLoop l (fuel + extra) pending output additions =
      flattenLoop l fuel pending output additions := by
  induction fuel generalizing pending output additions with
  | zero =>
    cases pending with
    | nil => cases extra <;> rfl
    | cons p =>
      have positive := p.command.size_pos
      simp only [pendingSize, List.map_cons, forestSize] at enough
      omega
  | succ fuel ih =>
    cases pending with
    | nil =>
      rw [Nat.add_right_comm]
      rfl
    | cons p pending =>
      have smaller : pendingSize (p.children ++ pending) ≤ fuel := by
        have size := p.size_children
        simp only [pendingSize, List.map_cons, List.map_append, forestSize, forestSize_append]
          at enough size ⊢
        omega
      rw [Nat.add_right_comm]
      simp only [flattenLoop]
      simp only [ih _ _ _ smaller]

/-- What the loop grants a command it passed. -/
structure Placed (l : CodecLimits) (x : Command × Nat × Option UInt32) : Prop where
  depth_le : x.2.1 ≤ min l.depth 32
  visited : ∃ before after, flattenVisit ⟨x.1, x.2.1, x.2.2⟩ before = .ok after

theorem flattenLoop_eq_ok {l : CodecLimits} {fuel : Nat} {pending : List Pending}
    {output out : List Command} {additions : List (UInt32 × String)}
    (h : flattenLoop l fuel pending output additions = .ok out) :
    out = output ++ (pending.flatMap Pending.preorder).map Prod.fst ∧
      ∀ x ∈ pending.flatMap Pending.preorder, Placed l x := by
  induction fuel generalizing pending output additions with
  | zero =>
    cases pending with
    | nil =>
      cases h
      simp
    | cons => cases h
  | succ _ ih =>
    cases pending with
    | nil =>
      cases h
      simp
    | cons p pending =>
      simp only [flattenLoop, bind_eq_ok] at h
      obtain ⟨⟨⟩, depth, ⟨⟩, -, after, visit, ⟨⟩, -, rest⟩ := h
      obtain ⟨eq, placed⟩ := ih rest
      have unfolded : (p :: pending).flatMap Pending.preorder =
          (p.command, p.depth, p.atomic) ::
            (p.children ++ pending).flatMap Pending.preorder := by
        rw [List.flatMap_cons, p.preorder_eq, List.flatMap_append, List.cons_append]
      rw [unfolded]
      constructor
      · rw [eq, List.map_cons, List.append_assoc, List.singleton_append]
      · intro x hx
        rcases List.mem_cons.mp hx with rfl | hx
        · exact ⟨bound_eq_ok.mp depth, additions, after, visit⟩
        · exact placed x hx

theorem flattened_eq_ok {commands out : List Command} {l : CodecLimits}
    (h : flattened commands l = .ok out) :
    out = (preorderForest 0 none commands).map Prod.fst ∧
      ∀ x ∈ preorderForest 0 none commands, Placed l x := by
  rw [preorderForest_eq_flatMap]
  simp only [flattened, check_bind_eq_ok] at h
  simpa using flattenLoop_eq_ok h.2

end RssMdm.WindowsMdm.Syncml
