/- module: AppleMdm/Projection
   source: crates/apple-mdm/src/native/ddm/projection.rs
   digest: The projection of status evidence: claims that accumulate report by report under a byte budget, a
   checkpoint of them, and the consensus that is read off. -/

import RssMdm.AppleMdm.StatusReport
import RssMdm.Lib.Commuting

set_option autoImplicit false

namespace RssMdm.AppleMdm

open Lib Lib.Json Lib.Commuting

/-- A declaration of the set; a subscription names status items. -/
structure Declaration where
  kind : DeclarationKind
  identifier : String
  serverToken : String
  statusItems : List String

structure DeclarationSet where
  declarations : OrdMap String Declaration

def DeclarationSet.declaration (set : DeclarationSet) (kind : DeclarationKind) (id : String) : Option Declaration :=
  (set.declarations.get? id).filter (fun d => d.kind = kind)

structure ReportEvidence (Context : Type) where
  report : List UInt8
  context : Context
  subscriptions : OrdSet String
  declarationsToken : String

/-- Two values of a claim tell that there is no consensus. -/
abbrev Values := Least 2 String

structure ArrayClaims where
  objects : OrdMap String Values
  full : Option (OrdSet String)
  absent : Bool

def ArrayClaims.default : ArrayClaims := ⟨.empty, none, false⟩

structure Claims where
  claims : OrdMap String Values
  arrays : OrdMap String ArrayClaims
  native : OrdMap String Values
  errors : OrdSet String
  full : Bool

def Claims.cleared : Claims := ⟨.empty, .empty, .empty, .empty, false⟩

structure ProjectionState where
  claims : Claims
  exhausted : Bool

structure Projection where
  set : DeclarationSet
  expectedVersions : OrdMap String String
  wanted : OrdSet String
  state : ProjectionState

inductive ArrayFact where
  | object (id value : String)
  | absent
  | baseline (seen : OrdSet String)

/-- One change of the claims. -/
inductive Fact where
  | full
  | claim (name value : String)
  | array (name : String) (fact : ArrayFact)
  | error (text : String)
  | native (id value : String)

/-- `entry(k).or_default()` and then a claim. -/
def addClaim (m : OrdMap String Values) (k value : String) : OrdMap String Values :=
  m.insert k (((m.get? k).getD .empty).claim value)

def intersect (s t : OrdSet String) : OrdSet String := OrdSet.ofList (s.keys.filter (fun k => OrdMap.contains t k))

def addBaseline (full : Option (OrdSet String)) (seen : OrdSet String) : Option (OrdSet String) :=
  match full with
  | none => some seen
  | some old => some (intersect old seen)

def ArrayClaims.record (a : ArrayClaims) : ArrayFact → ArrayClaims
  | .object id value => { a with objects := addClaim a.objects id value }
  | .absent => { a with absent := true }
  | .baseline seen => { a with full := addBaseline a.full seen }

def record (c : Claims) : Fact → Claims
  | .full => { c with full := true }
  | .claim name value => { c with claims := addClaim c.claims name value }
  | .array name fact => { c with arrays := c.arrays.modify name (fun a => a.record fact) }
  | .error text => { c with errors := OrdMap.insert c.errors text () }
  | .native id value => { c with native := addClaim c.native id value }

/-- Changes are made up to the first refusal, and stay. -/
def runSteps (c : Claims) : List (Except Fault Fact) → Claims × Except Fault Unit
  | [] => (c, .ok ())
  | .error e :: _ => (c, .error e)
  | .ok fact :: rest => runSteps (record c fact) rest

def objectStep (name : String) (item : Json) : Except Fault Fact :=
  match asString (memberOf item "identifier") with
  | none => .error .field
  | some id =>
      .ok (.array name (.object id
        (if asBool (memberOf item "_removed") = some true then "null" else textOf item)))

/-- `ArrayClaims::observe`. -/
def arraySteps (name : String) (value : Json) (full : Bool) : List (Except Fault Fact) :=
  match value with
  | .array items => items.map (objectStep name) ++
      (if full then
        [.ok (.array name (.baseline (OrdSet.ofList (items.filterMap (fun i => asString (memberOf i "identifier"))))))]
      else [])
  | _ => [.ok (.array name .absent)]

/-- Whether a report is about exactly the expected versions. -/
def isCurrent (expected : OrdMap String String) (declared : List DeclarationStatus) : Bool :=
  !expected.entries.isEmpty && expected.entries.all (fun e =>
    (declared.find? (fun d => d.identifier = e.1)).map DeclarationStatus.serverToken = some e.2)

def itemSteps (arrays : String → Bool) (report : StatusReport) (current : Bool) (name : String) :
    List (Except Fault Fact) :=
  match report.items.get? name with
  | some value =>
      if arrays name then arraySteps name (if current then value else .null) (current && report.full)
      else [.ok (.claim name (if current then textOf value else "null"))]
  | none =>
      if report.full then (if arrays name then arraySteps name .null true else [.ok (.claim name "null")])
      else []

def errorSteps (arrays : String → Bool) (wanted subscriptions : OrdSet String) (error : Json) :
    List (Except Fault Fact) :=
  match asString (memberOf error "StatusItem") with
  | some name =>
      if OrdMap.contains wanted name && OrdMap.contains subscriptions name then
        .ok (.error (textOf error)) ::
          (if arrays name then arraySteps name .null false else [.ok (.claim name "null")])
      else []
  | none => []

def validityText : Validity → String
  | .valid => "valid"
  | .invalid => "invalid"
  | .unknown => "unknown"

def nativeText (d : DeclarationStatus) : String :=
  textOf (.object [("active", .bool d.active), ("reasons", .array d.reasons),
      ("valid", .string (validityText d.validity))])

def nativeSteps (set : DeclarationSet) (d : DeclarationStatus) : List (Except Fault Fact) :=
  match set.declaration d.kind d.identifier with
  | some expected => if expected.serverToken = d.serverToken then [.ok (.native d.identifier (nativeText d))] else []
  | none => []

/-- Everything that a decoded report changes, in order. -/
def reportSteps (p : Projection) (subscriptions : OrdSet String) (report : StatusReport)
    (declared : List DeclarationStatus) : List (Except Fault Fact) :=
  let arrays := fun name => p.state.claims.arrays.contains name
  let current := isCurrent p.expectedVersions declared
  (if current && report.full then [.ok .full] else []) ++
    (p.wanted.keys.filter (fun name => OrdMap.contains subscriptions name)).flatMap
      (itemSteps arrays report current) ++
    report.errors.flatMap (errorSteps arrays p.wanted subscriptions) ++
    declared.flatMap (nativeSteps p.set)

def valuesJson (v : Values) : Json := .array (v.keys.map .string)

def mapJson {α : Type} (f : α → Json) (m : OrdMap String α) : Json := .object (m.entries.map (fun e => (e.1, f e.2)))

def setJson (s : OrdSet String) : Json := .array (s.keys.map .string)

def arrayJson (a : ArrayClaims) : Json :=
  .object [("objects", mapJson valuesJson a.objects),
    ("full", match a.full with
      | none => .null
      | some s => setJson s),
    ("absent", .bool a.absent)]

def stateJson (s : ProjectionState) : Json :=
  .object [("claims", mapJson valuesJson s.claims.claims), ("arrays", mapJson arrayJson s.claims.arrays),
    ("native", mapJson valuesJson s.claims.native), ("errors", setJson s.claims.errors),
    ("full", .bool s.claims.full), ("exhausted", .bool s.exhausted)]

def projectionBytes : Nat := 512 * 1024

def oversize (c : Claims) : Bool := projectionBytes < (bytes (stateJson ⟨c, false⟩)).length

section

variable {Context : Type} (env : Environment Context)

def wantedNames (set : DeclarationSet) : OrdSet String :=
  OrdSet.ofList ((set.declarations.values.flatMap Declaration.statusItems).filter (· ≠ "management.declarations"))

def newArrays (target : Context) : List String → Except Fault (OrdMap String ArrayClaims)
  | [] => .ok .empty
  | name :: rest => do
      if !env.status.contains name then .error .invalidSchema
      else if !env.versioned target then .error .applicability
      else do
        let arrays ← newArrays target rest
        .ok (if env.incremental name then arrays.insert name .default else arrays)

def Projection.new (set : DeclarationSet) (target : Context) : Except Fault Projection := do
  let wanted := wantedNames set
  let arrays ← newArrays env target wanted.keys
  .ok ⟨set, set.declarations.mapValues (fun _ d => d.serverToken), wanted,
    ⟨⟨.empty, arrays, .empty, .empty, false⟩, false⟩⟩

def Projection.checkpoint (p : Projection) : ProjectionState := p.state

/-- `BTreeMap::extend`. -/
def extend {α : Type} (m more : OrdMap String α) : OrdMap String α :=
  more.entries.foldl (fun m e => m.insert e.1 e.2) m

def Projection.restore (set : DeclarationSet) (target : Context) (state : ProjectionState) :
    Except Fault Projection := do
  let p ← Projection.new env set target
  .ok { p with state :=
    ⟨{ state.claims with arrays := extend p.state.claims.arrays state.claims.arrays }, state.exhausted⟩ }

/-- Add one report; whatever was changed before a refusal stays changed. -/
def Projection.observe (p : Projection) (evidence : ReportEvidence Context) : Projection × Except Fault Unit :=
  if p.state.exhausted then (p, .ok ())
  else
    match StatusReport.decode env evidence.context evidence.report with
    | .error e => (p, .error e)
    | .ok report =>
        match report.declarations with
        | .error e => (p, .error e)
        | .ok declared =>
            let steps := reportSteps p evidence.subscriptions report declared
            match runSteps p.state.claims steps with
            | (claims, .error e) => ({ p with state := ⟨claims, false⟩ }, .error e)
            | (claims, .ok ()) =>
                if oversize claims then ({ p with state := ⟨.cleared, true⟩ }, .ok ())
                else ({ p with state := ⟨claims, false⟩ }, .ok ())

end

variable {Context : Type} (env : Environment Context)

inductive EvidenceState where
  | workBudgetExceeded | unorderedConflict | unobserved
deriving DecidableEq

/-- What is known of a declaration: the state that was claimed, or why there is none. -/
inductive NativeState where
  | claimed (value : Json)
  | unknown (evidence : EvidenceState)

structure DeclarationProjection where
  identifier : String
  serverToken : String
  kind : DeclarationKind
  native : NativeState

structure StatusProjection where
  items : OrdMap String Json
  unknownItems : OrdSet String
  declarations : List DeclarationProjection
  errors : List Json
  full : Bool
  synchronized : Bool

/-- `ArrayClaims::finish`: the objects with one value each, and whether anything is open. -/
def ArrayClaims.finish (a : ArrayClaims) : Except Fault (Json × Bool) := do
  let result ← a.objects.entries.foldlM (fun (acc : List Json × Bool) e =>
    let values := if a.absent || a.full.any (fun s => !s.contains e.1) then insertKey "null" e.2.keys else e.2.keys
    match values with
    | [value] =>
        if value = "null" then .ok acc
        else do
          let item ← env.ofText value
          .ok (acc.1 ++ [item], acc.2)
    | _ => .ok (acc.1, true)) ([], a.absent || a.full.isNone)
  .ok (.array result.1, result.2)

def finishClaim (acc : OrdMap String Json × OrdSet String) (e : String × Values) :
    Except Fault (OrdMap String Json × OrdSet String) :=
  match e.2.keys with
  | [value] =>
      if value = "null" then .ok (acc.1, OrdMap.insert acc.2 e.1 ())
      else do
        let item ← env.ofText value
        .ok (acc.1.insert e.1 item, acc.2)
  | _ => .ok (acc.1, OrdMap.insert acc.2 e.1 ())

def finishArray (acc : OrdMap String Json × OrdSet String) (e : String × ArrayClaims) :
    Except Fault (OrdMap String Json × OrdSet String) :=
  if e.2.full.isNone && e.2.objects.entries.isEmpty && !e.2.absent then .ok acc
  else do
    let (value, unknown) ← e.2.finish env
    .ok (acc.1.insert e.1 value, if unknown then OrdMap.insert acc.2 e.1 () else acc.2)

def nativeState (state : ProjectionState) (id : String) : Except Fault NativeState :=
  match (state.claims.native.get? id).map Least.keys with
  | some [value] => do
      let json ← env.ofText value
      .ok (.claimed json)
  | some _ => .ok (.unknown (if state.exhausted then .workBudgetExceeded else .unorderedConflict))
  | none => .ok (.unknown (if state.exhausted then .workBudgetExceeded else .unobserved))

def expectedOf (set : DeclarationSet) : List Declaration :=
  [DeclarationKind.configuration, .asset, .activation, .management].flatMap (fun kind =>
    set.declarations.values.filter (fun d => d.kind = kind))

def isValid : NativeState → Bool
  | .claimed value => asString (memberOf value "valid") = some "valid"
  | .unknown _ => false

def Projection.finish (p : Projection) : Except Fault StatusProjection := do
  let unknown : OrdSet String :=
    if p.state.exhausted then OrdMap.insert p.wanted "management.declarations" () else .empty
  let acc ← p.state.claims.claims.entries.foldlM (finishClaim env) (.empty, unknown)
  let (items, unknownItems) ← p.state.claims.arrays.entries.foldlM (finishArray env) acc
  let declarations ← (expectedOf p.set).mapM (fun d => do
    let native ← nativeState env p.state d.identifier
    .ok (⟨d.identifier, d.serverToken, d.kind, native⟩ : DeclarationProjection))
  let errors ← p.state.claims.errors.keys.mapM env.ofText
  .ok ⟨items, unknownItems, declarations, errors, p.state.claims.full,
    !declarations.isEmpty && declarations.all (fun d => isValid d.native) &&
      !OrdMap.contains unknownItems "management.declarations"⟩

/-- Reports one after another, up to the first that is refused. -/
def Projection.observeAll (p : Projection) : List (ReportEvidence Context) → Except Fault Projection
  | [] => .ok p
  | e :: rest =>
      match p.observe env e with
      | (_, .error fault) => .error fault
      | (p', .ok ()) => p'.observeAll rest

def project (set : DeclarationSet) (target : Context) (evidence : List (ReportEvidence Context)) :
    Except Fault StatusProjection := do
  let p ← Projection.new env set target
  let p ← p.observeAll env evidence
  p.finish env

end RssMdm.AppleMdm
