/- module: Inventory/Catalog
   source: crates/inventory/src/catalog.rs, crates/inventory/src/hardware.rs,
     crates/inventory/src/software.rs, crates/inventory/src/source.rs,
     crates/inventory/src/telemetry.rs, crates/inventory/src/time_series.rs
   digest: Versioned field definitions and the values they admit. -/

import Mathlib.Data.String.Basic
import RssMdm.Inventory.Value
import RssMdm.Lib.KeySort
import RssMdm.Lib.OrdMap

set_option autoImplicit false

namespace RssMdm.Inventory

open Lib Lib.Fallible Lib.Int64 Lib.Json
open Lib.Text (Uuid canonicalDecimal isControl parseI64 splitAt startsWith trim)

def identifier (s : String) : Bool :=
  s.toList.head?.any (fun c => 'a' ≤ c && c ≤ 'z') &&
    s.toList.all (fun c => ('a' ≤ c && c ≤ 'z') || c.isDigit || c = '_')

def name (s : String) : Bool := identifier s && s.utf8ByteSize ≤ 64

structure FieldKey where
  value : String

instance : LinearOrder FieldKey :=
  LinearOrder.lift' FieldKey.value (fun ⟨_⟩ ⟨_⟩ h => congrArg FieldKey.mk h)

def FieldKey.asStr (key : FieldKey) : String := key.value

def FieldKey.parse (value : String) : Except Invalid FieldKey :=
  match splitAt value '.' with
  | [] => .error .unknownField
  | first :: parts =>
      if value.utf8ByteSize > 128 ∨ first ∉ ["device", "custom", "channel"] then .error .unknownField
      else if !parts.all identifier then .error .unknownField
      else if parts.isEmpty then .error .unknownField
      else .ok ⟨value⟩

inductive Source where
  | agentScript
  | agentNative
  | agentOsquery
  | mdmApple
  | agentBuiltin
  | manual
  | mdmWindows
deriving Repr

def Source.rank : Source → Nat
  | .agentScript => 0
  | .agentNative => 1
  | .agentOsquery => 2
  | .mdmApple => 3
  | .agentBuiltin => 4
  | .manual => 5
  | .mdmWindows => 6

instance : LinearOrder Source :=
  LinearOrder.lift' Source.rank (by rintro ⟨⟩ ⟨⟩ h <;> first | rfl | cases h)

def Source.asStr : Source → String
  | .manual => "manual"
  | .agentScript => "agent.script"
  | .agentNative => "agent.native"
  | .agentOsquery => "agent.osquery"
  | .mdmApple => "mdm.apple"
  | .mdmWindows => "mdm.windows"
  | .agentBuiltin => "agent.builtin"

theorem Source.asStr_injective : Function.Injective Source.asStr := by
  rintro ⟨⟩ ⟨⟩ h <;> first | rfl | exact absurd h (by decide)

inductive Platform where
  | windows
  | macos
deriving DecidableEq, Repr

inductive Sensitivity where
  | standard
  | sensitive
  | secret
deriving DecidableEq, Repr

/-- Closed structural schema for one field; a record says which properties are required. -/
inductive ValueType where
  | record (properties : List (String × ValueType × Bool))
  | string (maxLength : UInt32) (allowEmpty : Bool)
  | enum (values : OrdSet String)
  | integer
  | number
  | boolean
  | time
  | array (items : ValueType) (maxItems : UInt32)
  | object (properties : List (String × ValueType))

namespace ValueType

/-- Declared members with their presence requirement. -/
def properties : ValueType → List (String × ValueType × Bool)
  | .object properties => properties.map (fun p => (p.1, p.2, true))
  | .record properties => properties
  | _ => []

def countNode (depth nodes : Nat) : Except Invalid Nat :=
  if depth > 6 ∨ nodes + 1 > 128 then .error .value else .ok (nodes + 1)

def checkEnum (values : OrdSet String) (nodes : Nat) : Except Invalid Nat :=
  if values.entries.isEmpty ∨ values.size > 128 ∨ values.keys.any (fun v =>
      v.isEmpty || v.utf8ByteSize > 256 || v.toList.any isControl) then .error .value
  else .ok nodes

mutual

/-- Depth and cumulative node count of a schema. -/
def check (depth : Nat) : ValueType → Nat → Except Invalid Nat
  | .string maxLength _, nodes => do
      let nodes ← countNode depth nodes
      if 1 ≤ maxLength.toNat ∧ maxLength.toNat ≤ 65536 then .ok nodes else .error .value
  | .enum values, nodes => do
      let nodes ← countNode depth nodes
      checkEnum values nodes
  | .array items maxItems, nodes => do
      let nodes ← countNode depth nodes
      if 1 ≤ maxItems.toNat ∧ maxItems.toNat ≤ 100000 then check (depth + 1) items nodes
      else .error .value
  | .object properties, nodes => do
      let nodes ← countNode depth nodes
      if properties.isEmpty ∨ properties.length > 64 then .error .value
      else checkObject (depth + 1) properties nodes
  | .record properties, nodes => do
      let nodes ← countNode depth nodes
      if properties.isEmpty ∨ properties.length > 64 then .error .value
      else checkRecord (depth + 1) properties nodes
  | .integer, nodes => countNode depth nodes
  | .number, nodes => countNode depth nodes
  | .boolean, nodes => countNode depth nodes
  | .time, nodes => countNode depth nodes

def checkObject (depth : Nat) : List (String × ValueType) → Nat → Except Invalid Nat
  | [], nodes => .ok nodes
  | (key, ty) :: rest, nodes =>
      if !name key then .error .value
      else do
        let nodes ← check depth ty nodes
        checkObject depth rest nodes

def checkRecord (depth : Nat) : List (String × ValueType × Bool) → Nat → Except Invalid Nat
  | [], nodes => .ok nodes
  | (key, ty, _) :: rest, nodes =>
      if !name key then .error .value
      else do
        let nodes ← check depth ty nodes
        checkRecord depth rest nodes

end

def validate (ty : ValueType) : Except Invalid Unit := do
  let _ ← ty.check 0 0
  .ok ()

variable [Environment]

/-- A property that is there must fit; one that is not there must be optional. -/
def member (fits : Scalar → Except Invalid Unit) (required : Bool) :
    Option Scalar → Except Invalid Unit
  | some value => fits value
  | none => if required then .error .typeMismatch else .ok ()

/-- Some property of the value is not declared. -/
def undeclared (names : List String) (values : List (String × Scalar)) : Bool :=
  values.any (fun p => !names.contains p.1)

mutual

/-- Every level validates its whole value again before it looks at the parts. -/
def validateValue : ValueType → Scalar → Except Invalid Unit
  | .string maxLength allowEmpty, value => do
      value.validate
      match value with
      | .string s =>
          if (allowEmpty || !s.isEmpty) && s.length ≤ maxLength.toNat then .ok ()
          else .error .typeMismatch
      | _ => .error .typeMismatch
  | .enum values, value => do
      value.validate
      match value with
      | .string s => if values.contains s then .ok () else .error .typeMismatch
      | _ => .error .typeMismatch
  | .integer, value => do
      value.validate
      match value with
      | .integer _ => .ok ()
      | _ => .error .typeMismatch
  | .number, value => do
      value.validate
      match value with
      | .number _ => .ok ()
      | _ => .error .typeMismatch
  | .boolean, value => do
      value.validate
      match value with
      | .boolean _ => .ok ()
      | _ => .error .typeMismatch
  | .time, value => do
      value.validate
      match value with
      | .time _ => .ok ()
      | _ => .error .typeMismatch
  | .array items maxItems, value => do
      value.validate
      match value with
      | .array values =>
          if values.length ≤ maxItems.toNat then each (fun v => validateValue items v) values
          else .error .typeMismatch
      | _ => .error .typeMismatch
  | .object properties, value => do
      value.validate
      match value with
      | .object values =>
          if undeclared (properties.map Prod.fst) values then .error .typeMismatch
          else validateObject properties values
      | _ => .error .typeMismatch
  | .record properties, value => do
      value.validate
      match value with
      | .object values =>
          if undeclared (properties.map Prod.fst) values then .error .typeMismatch
          else validateRecord properties values
      | _ => .error .typeMismatch

def validateObject :
    List (String × ValueType) → List (String × Scalar) → Except Invalid Unit
  | [], _ => .ok ()
  | (key, ty) :: rest, values => do
      member (fun v => validateValue ty v) true (values.lookup key)
      validateObject rest values

def validateRecord :
    List (String × ValueType × Bool) → List (String × Scalar) → Except Invalid Unit
  | [], _ => .ok ()
  | (key, ty, required) :: rest, values => do
      member (fun v => validateValue ty v) required (values.lookup key)
      validateRecord rest values

end

theorem validateValue_valid {ty : ValueType} {value : Scalar} (h : ty.validateValue value = .ok ()) :
    value.validate = .ok () := by
  cases ty <;>
    · simp only [validateValue, check_bind_eq_ok] at h
      exact h.1

theorem validateValue_array {ty : ValueType} {values : List Scalar}
    (h : ty.validateValue (.array values) = .ok ()) :
    (Scalar.array values).validate = .ok () ∧
      ∃ items maxItems, ty = .array items maxItems ∧ values.length ≤ maxItems.toNat := by
  cases ty with
  | array items maxItems =>
    simp only [validateValue, check_bind_eq_ok] at h
    refine ⟨h.1, items, maxItems, rfl, ?_⟩
    by_cases fits : values.length ≤ maxItems.toNat
    · exact fits
    · simp [fits] at h
  | _ => simp [validateValue, check_bind_eq_ok] at h

end ValueType

section

inductive TelemetryKind where
  | gauge
  | cumulativeCounter
  | deltaCounter
  | state
deriving DecidableEq, Repr

inductive TelemetryAggregation where
  | min
  | max
  | sum
  | count
  | mean
  | increase
  | rate
  | timeline
  | transitions
  | coverage
deriving DecidableEq, Repr

structure TelemetryDimension where
  path : List String
  values : OrdSet String

structure RetentionReference where
  key : String
  revision : UInt64

/-- A field's optional history capability; the aggregations are a set. -/
structure TimeSeriesBinding where
  kind : TelemetryKind
  valuePath : List String
  intervalStartPath : Option (List String)
  dimensions : OrdMap String TelemetryDimension
  aggregations : List TelemetryAggregation
  retention : RetentionReference
  maxResources : UInt32

def path (v : List String) : Bool := v.length ≤ 6 && v.all name

def TelemetryKind.isCounter : TelemetryKind → Bool
  | .cumulativeCounter => true
  | .deltaCounter => true
  | _ => false

def TelemetryKind.allows : TelemetryKind → TelemetryAggregation → Bool
  | .gauge, a => a ∈ [.min, .max, .sum, .count, .mean]
  | .cumulativeCounter, a => a ∈ [.increase, .rate]
  | .deltaCounter, a => a ∈ [.sum, .rate]
  | .state, a => a ∈ [.timeline, .transitions, .coverage]

def checkWord (bytes : Nat) (value : String) : Except Invalid Nat :=
  if value.isEmpty ∨ value.utf8ByteSize > 256 ∨ value.toList.any isControl then .error .value
  else .ok (bytes + value.utf8ByteSize)

/-- One dimension, with the combinations and the vocabulary bytes so far. -/
def checkDimension (acc : Nat × Nat) (entry : String × TelemetryDimension) :
    Except Invalid (Nat × Nat) :=
  if !name entry.1 || entry.2.path.isEmpty || !path entry.2.path || entry.2.values.entries.isEmpty ||
      entry.2.values.size > 256 then .error .value
  else if acc.1 * entry.2.values.size < 2 ^ 64 then do
    let bytes ← entry.2.values.keys.foldlM checkWord acc.2
    .ok (acc.1 * entry.2.values.size, bytes)
  else .error .value

def TimeSeriesBinding.validate (b : TimeSeriesBinding) : Except Invalid Unit :=
  if !path b.valuePath || b.intervalStartPath.any (fun v => v.isEmpty || !path v || !b.kind.isCounter) ||
      b.dimensions.size > 64 || b.aggregations.isEmpty || !name b.retention.key ||
      b.retention.revision = 0 || b.retention.revision.toNat > 2 ^ 63 - 1 ||
      !(1 ≤ b.maxResources.toNat && b.maxResources.toNat ≤ 4096) then .error .value
  else do
    let (combinations, bytes) ← b.dimensions.entries.foldlM checkDimension (b.maxResources.toNat, 0)
    if combinations > 4096 ∨ bytes > 32768 then .error .value
    else if b.aggregations.any (fun a => !b.kind.allows a) then .error .value
    else .ok ()

def selected (root : ValueType) (path : List String) : Except Invalid ValueType :=
  path.foldlM (fun ty part =>
    match ty.properties.find? (fun p => p.1 = part && p.2.2) with
    | some p => .ok p.2.1
    | none => .error .typeMismatch) root

variable [Environment]

def metric (ty : ValueType) (kind : TelemetryKind) : Except Invalid Unit :=
  match kind, ty with
  | .state, .boolean => .ok ()
  | .state, .enum values =>
      each (fun v => if Environment.seriesId v then .ok () else .error .value) values.keys
  | .state, _ => .error .typeMismatch
  | _, .integer => .ok ()
  | _, .number => .ok ()
  | _, _ => .error .typeMismatch

def dimensionValue (ty : ValueType) (v : String) : Bool :=
  match ty with
  | .enum values => values.contains v
  | .boolean => v = "true" || v = "false"
  | .integer => (parseI64 v).any (fun n => String.ofList (decimal n) = v)
  | .string maxLength _ => v.length ≤ maxLength.toNat
  | _ => false

end

section

/-- A published field version; the platforms are a set. -/
structure FieldDefinition where
  timeSeries : Option TimeSeriesBinding
  key : FieldKey
  version : UInt64
  valueType : ValueType
  nullable : Bool
  manual : Bool
  sources : OrdMap Source UInt16
  platforms : List Platform
  sensitivity : Sensitivity
  unit : Option String
  searchable : Bool
  itemKey : Option String

variable [Environment]

namespace FieldDefinition

/-- The type whose properties are read, one item of a keyed list or the whole value. -/
def seriesRoot (d : FieldDefinition) (binding : TimeSeriesBinding) : Except Invalid ValueType :=
  match d.valueType with
  | .array items maxItems =>
      if d.itemKey.isNone ∨ binding.maxResources > maxItems then .error .value else .ok items
  | ty => if binding.maxResources ≠ 1 then .error .value else .ok ty

def checkInterval (d : FieldDefinition) (binding : TimeSeriesBinding) (root : ValueType) :
    Except Invalid Unit :=
  match binding.intervalStartPath with
  | some path => do
      match ← selected root path with
      | .integer => .ok ()
      | _ => .error .typeMismatch
  | none => if d.itemKey.isSome ∧ binding.kind.isCounter then .error .value else .ok ()

def validateTimeSeries (d : FieldDefinition) : Except Invalid Unit :=
  match d.timeSeries with
  | none => .ok ()
  | some binding => do
      binding.validate.mapError (fun _ => Invalid.value)
      if !d.sources.keys.any (fun s =>
          s ∈ [.agentBuiltin, .agentNative, .agentScript, .agentOsquery]) then .error .sourceNotAllowed
      else do
        let root ← d.seriesRoot binding
        let ty ← selected root binding.valuePath
        metric ty binding.kind
        d.checkInterval binding root
        each (fun dimension => do
          let ty ← selected root dimension.path
          each (fun v => if dimensionValue ty v then .ok () else .error .typeMismatch)
            dimension.values.keys) binding.dimensions.values

def checkItemKey (d : FieldDefinition) : Except Invalid Unit :=
  match d.itemKey with
  | none => .ok ()
  | some key =>
      match d.valueType with
      | .array items _ =>
          match items.properties.find? (fun p => p.1 = key && p.2.2) with
          | some (_, .string _ false, true) => .ok ()
          | some (_, .integer, true) => .ok ()
          | _ => .error .typeMismatch
      | _ => .error .typeMismatch

def validate (d : FieldDefinition) : Except Invalid Unit := do
  d.valueType.validate
  d.validateTimeSeries
  if d.sensitivity = .secret ∧ (d.manual ∨ d.searchable ∨ d.timeSeries.isSome) then .error .value
  else if d.version = 0 ∨ d.version.toNat > 2 ^ 63 - 1 ∨ d.sources.entries.isEmpty ∨
      d.platforms.isEmpty ∨ d.manual ≠ d.sources.contains .manual ∨
      d.unit.any (fun u => u.isEmpty || u.utf8ByteSize > 64 || u.toList.any isControl) then
    .error .value
  else d.checkItemKey

end FieldDefinition

end

section

variable [Environment]

/-- Placeholders that never establish a hardware identity. -/
def placeholders : List String := ["UNKNOWN", "NONE", "NULL", "N/A", "NA", "NOT SPECIFIED",
  "NOT APPLICABLE", "DEFAULT STRING", "SYSTEM SERIAL NUMBER", "TO BE FILLED BY O.E.M.",
  "TO BE FILLED BY OEM"]

def hardwareText (value : String) : Except Invalid String :=
  let value := Environment.toUppercase (trim value)
  if value.isEmpty ∨ value.utf8ByteSize > 256 ∨ value.toList.any isControl ∨ value ∈ placeholders ∨
      value.toList.all (fun c => c = '0' || c = '-' || c = ' ') then .error .value
  else .ok value

def normalizeSerialNumber (value : String) : Except Invalid String := hardwareText value

def normalizeHardwareUuid (value : String) : Except Invalid String := do
  let text ← hardwareText value
  match Environment.parseUuid text with
  | none => .error .value
  | some id =>
      if id = 0 ∨ id.toNat = 2 ^ 128 - 1 ∨ id.toNat = 0x03000200040005000006000700080009 then
        .error .value
      else .ok (Uuid.text id)

namespace FieldDefinition

def hardwareValue (d : FieldDefinition) (value : Scalar) : Except Invalid (Option String) :=
  let normalize : Option (String → Except Invalid String) :=
    if d.key.asStr = "device.serial_number" then some normalizeSerialNumber
    else if d.key.asStr = "device.hardware_uuid" then some normalizeHardwareUuid
    else none
  match normalize, value with
  | none, _ => .ok none
  | some normalize, .string s => (normalize s).map some
  | some _, _ => .error .typeMismatch

end FieldDefinition

end

/-- A canonical textual SID, never a display name. -/
def sid (value : String) : Bool :=
  if !startsWith value "S-1-" then false
  else
    match splitAt (String.ofList (value.toList.drop 4)) '-' with
    | [] => false
    | authority :: parts =>
        (canonicalDecimal (2 ^ 48) authority).isSome &&
          parts.all (fun part => (canonicalDecimal (2 ^ 32) part).isSome) &&
          1 ≤ parts.length && parts.length ≤ 15

def softwareText (row : List (String × Scalar)) (key : String) : Except Invalid String :=
  match row.lookup key with
  | some (.string value) => .ok value
  | _ => .error .value

def originState (origin state scope : String) : Bool :=
  if origin = "win32.uninstall.32" || origin = "win32.uninstall.64" then state = "installed"
  else if origin = "msix.registered" then state = "registered" && scope = "user"
  else if origin = "msix.provisioned" then state = "provisioned" && scope = "device"
  else if startsWith origin "win32." || startsWith origin "msix." then false
  else state = "installed"

def validateSoftware (item : Scalar) : Except Invalid Unit :=
  match item with
  | .object row => do
      let state ← softwareText row "installation_state"
      let scope ← softwareText row "scope"
      let owner ← softwareText row "owner"
      let origin ← softwareText row "origin"
      if !((scope = "device" && owner.isEmpty) || (scope = "user" && !owner.isEmpty)) then
        .error .value
      else if (startsWith origin "win32." || startsWith origin "msix.") && scope = "user" &&
          !sid owner then .error .value
      else if originState origin state scope then .ok () else .error .value
  | _ => .error .typeMismatch

section

variable [Environment]

/-- `Option<&Scalar>` in its derived order. -/
def cmpOption : Option Scalar → Option Scalar → Ordering
  | none, none => .eq
  | none, some _ => .lt
  | some _, none => .gt
  | some a, some b => a.cmp b

def itemIdentity (key : String) : Scalar → Option Scalar
  | .object properties => properties.lookup key
  | _ => none

def sortItems (key : String) (items : List Scalar) : List Scalar :=
  items.insertionSort (fun a b => cmpOption (itemIdentity key a) (itemIdentity key b) ≠ .gt)

/-- The identities of the items are there and differ. -/
def uniqueItems (key : String) : List Scalar → List Scalar → Except Invalid Unit
  | _, [] => .ok ()
  | seen, .object properties :: rest =>
      match properties.lookup key with
      | none => .error .value
      | some identity =>
          if seen.any (fun other => other.same identity) then .error .value
          else uniqueItems key (identity :: seen) rest
  | _, _ :: _ => .error .typeMismatch

namespace FieldDefinition

def validateItem (d : FieldDefinition) (value : Scalar) : Except Invalid Unit :=
  if d.sensitivity = .secret then .error .value
  else
    match d.valueType with
    | .array items _ => do
        items.validateValue value
        if d.key.asStr = "device.software.installations" then validateSoftware value else .ok ()
    | _ => .error .typeMismatch

/-- The items of a list, and their identities when a key is declared. -/
def validateItems (d : FieldDefinition) : Scalar → Except Invalid Unit
  | .array items => do
      each d.validateItem items
      match d.itemKey with
      | some key => uniqueItems key [] items
      | none => .ok ()
  | _ => .ok ()

def validateScalar (d : FieldDefinition) (value : Scalar) : Except Invalid Unit :=
  if d.sensitivity = .secret then .error .value
  else do
    d.valueType.validateValue value
    let _ ← d.hardwareValue value
    d.validateItems value

/-- Validated keyed lists hold objects only, so their sort meets no other item. -/
def canonicalValue (d : FieldDefinition) (value : Scalar) : Except Invalid Scalar := do
  let canonical ← d.hardwareValue value
  let value := (canonical.map Scalar.string).getD value
  d.validateScalar value
  match d.itemKey, value with
  | some key, .array items => .ok (.array (sortItems key items))
  | _, value => .ok value

end FieldDefinition

theorem FieldDefinition.hardwareValue_array {d : FieldDefinition} {items : List Scalar}
    {canonical : Option String} (h : d.hardwareValue (.array items) = .ok canonical) :
    canonical = none := by
  unfold FieldDefinition.hardwareValue at h
  simp only at h
  split at h
  · cases h
    rfl
  · rename_i value
    cases value
  · cases h

end

variable [Environment]

def parents (key : FieldKey) : List String :=
  ((List.range key.value.length).filter (fun i => key.value.toList[i]? = some '.')).map
    (fun i => String.ofList (key.value.toList.take i))

/-- A parent of a registered field is registered too. -/
def shadowed (fields : OrdMap FieldKey FieldDefinition) (key : FieldKey) : Bool :=
  (parents key).any (fun name =>
    match FieldKey.parse name with
    | .ok parent => fields.contains parent
    | .error _ => false)

def register (fields : OrdMap FieldKey FieldDefinition) (d : FieldDefinition) :
    Except Invalid (OrdMap FieldKey FieldDefinition) := do
  d.validate
  if fields.contains d.key then .error .duplicateField else .ok (fields.insert d.key d)

def Catalog.new (definitions : List FieldDefinition) :
    Except Invalid (OrdMap FieldKey FieldDefinition) :=
  if definitions.length > 1024 then .error .value
  else do
    let fields ← definitions.foldlM register .empty
    if fields.keys.any (shadowed fields) then .error .duplicateField else .ok fields

end RssMdm.Inventory
