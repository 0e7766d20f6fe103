/- module: DeviceTrust/Model
   source: crates/device-trust/src/lib.rs, crates/agent-wire/src/pki.rs, crates/certificate/src/apple.rs,
     crates/certificate/src/bootstrap.rs
   digest: Approved issuer generations with their revocation lists, and how one approved trust follows another. -/

import RssMdm.Lib.Base64
import RssMdm.Lib.Fallible
import RssMdm.Lib.Text

set_option autoImplicit false

namespace RssMdm.DeviceTrust

open Lib
open Lib.Text (Uuid)

abbrev Bytes := List UInt8

inductive Error where
  | malformed | unauthorized | revoked | conflict | expired
deriving DecidableEq

inductive Purpose where
  | windows | apple | agent | agentBootstrap
deriving DecidableEq

inductive Mode where
  | prepared | active | verifyOnly
deriving DecidableEq

/-- A public issuer; certificates and lists are DER in base64. -/
structure Issuer where
  digest : String
  mode : Mode
  certificate : String
  root : String
  crl : String
  rootCrl : String
  provisioner : String
  kid : String
deriving DecidableEq

structure Trust where
  version : Nat
  serviceId : Uuid
  origin : String
  tenant : Uuid
  purpose : Purpose
  revision : Nat
  issuers : List Issuer
deriving DecidableEq

def maxRevision : Nat := 2 ^ 63 - 1

def maxIssuers : Nat := 16

def validDigest (value : String) : Bool :=
  value.utf8ByteSize = 64 && value.toList.all (fun c => c.isDigit || ('a' ≤ c && c ≤ 'f'))

def validIssuers (values : List Issuer) : Bool :=
  (1 ≤ values.length && values.length ≤ maxIssuers) &&
    values.countP (fun g => g.mode = .active) = 1 && values.all (fun g => validDigest g.digest)

def Trust.validate (t : Trust) : Except Error Unit :=
  if t.version ≠ 1 || t.tenant = 0 || t.serviceId = 0 || !(1 ≤ t.revision && t.revision ≤ maxRevision) ||
      !validIssuers t.issuers then
    .error .malformed
  else .ok ()

/-- An attribute of a distinguished name; `textual` is the tag of a UTF-8 or printable string. -/
structure Attribute where
  oid : String
  textual : Bool
  value : Bytes
deriving DecidableEq

abbrev Name := List (List Attribute)

structure Algorithm where
  oid : String
  parameters : Bytes
deriving DecidableEq

inductive Usage where
  | digitalSignature | keyCertSign | crlSign | other (bit : Nat)
deriving DecidableEq

inductive GeneralName where
  | uri (value : String)
  | other (encoding : Bytes)
deriving DecidableEq

/-- An extension as it is looked up: undecodable, not there, or decoded. -/
inductive Extension (α : Type) where
  | broken | absent | present (value : α)
deriving DecidableEq

def Extension.get {α : Type} : Extension α → Except Error (Option α)
  | .broken => .error .malformed
  | .absent => .ok none
  | .present value => .ok (some value)

structure Certificate where
  issuer : Name
  subject : Name
  serialNumber : Bytes
  notBefore : Nat
  notAfter : Nat
  tbsSignature : Algorithm
  signatureAlgorithm : Algorithm
  tbs : Bytes
  signature : Option Bytes
  keyAlgorithm : String
  key : Option Bytes
  basicConstraints : Extension (Bool × Option Nat)
  keyUsage : Extension (List Usage)
  extendedKeyUsage : Extension (List String)
  subjectAltName : Extension (List GeneralName)
  extensions : Option (List (String × Bytes))
deriving DecidableEq

/-- A decoded revocation list; `encoding` is what it encodes to again. -/
structure CertificateList where
  encoding : Bytes
  issuer : Name
  tbsSignature : Algorithm
  signatureAlgorithm : Algorithm
  tbs : Bytes
  signature : Option Bytes
  thisUpdate : Nat
  nextUpdate : Option Nat
  extensions : Option (List (String × Bytes))
  revoked : List Bytes
deriving DecidableEq

structure Verifier where
  root : Bytes
  crls : List Bytes
deriving DecidableEq

/-- What other crates compute from bytes: digests, encodings, signatures, X.509 and WebPKI. -/
structure Environment where
  digest : Bytes → String
  base64 : String → Option Bytes
  certificate : Bytes → Option Certificate
  encode : Certificate → Bytes
  certificateList : Bytes → Option CertificateList
  crlNumber : Bytes → Option Bytes
  /-- algorithm, key, message and signature -/
  verifies : String → Bytes → Bytes → Bytes → Bool
  /-- the text is the ASCII serialization of an https origin -/
  origin : String → Bool
  nameText : Name → String
  parseUuid : String → Option Uuid
  /-- kind, name and credential of the provisioner marker -/
  provisioner : Bytes → Option (Nat × Bytes × Bytes)
  builds : Verifier → Bool
  /-- verifier, leaf, issuer and time -/
  accepts : Verifier → Bytes → Bytes → Int → Bool

variable (env : Environment)

/-- The number of big-endian bytes, in decimal. -/
def serial (bytes : Bytes) : String := toString (bytes.foldl (fun n b => n * 256 + b.toNat) 0)

def decode (value : String) (limit : Nat) : Except Error Bytes :=
  if (limit * 4 + 2) / 3 + 4 < value.utf8ByteSize then .error .malformed
  else
    match env.base64 value with
    | none => .error .malformed
    | some der => if der.isEmpty || limit < der.length then .error .malformed else .ok der

def algorithms : List String :=
  ["1.2.840.113549.1.1.11", "1.2.840.113549.1.1.12", "1.2.840.10045.4.3.2", "1.2.840.10045.4.3.3"]

def signed (issuer : Certificate) (algorithm : Algorithm) (bytes sig : Bytes) : Except Error Unit :=
  if !algorithms.contains algorithm.oid then .error .malformed
  else
    match issuer.key with
    | none => .error .malformed
    | some key => if env.verifies algorithm.oid key bytes sig then .ok () else .error .malformed

/-- `signed` over a signature that may have unused bits. -/
def signedBy (issuer : Certificate) (algorithm : Algorithm) (bytes : Bytes) : Option Bytes → Except Error Unit
  | none => .error .malformed
  | some sig => signed env issuer algorithm bytes sig

def caShape (c : Certificate) : Except Error Unit := do
  if c.notAfter ≤ c.notBefore then .error .malformed
  else do
    let constraints ← c.basicConstraints.get
    if !constraints.any Prod.fst then .error .malformed
    else do
      let usage ← c.keyUsage.get
      if !usage.any (fun v => v.contains .keyCertSign && v.contains .crlSign) then .error .malformed
      else .ok ()

def validCa (c : Certificate) (now : Int) : Except Error Unit := do
  caShape c
  if now ≤ 0 || now < c.notBefore || c.notAfter ≤ now then .error .expired
  else .ok ()

structure Crl where
  number : Nat
  thisUpdate : Int
  nextUpdate : Int
  revoked : List String
  der : Bytes
deriving DecidableEq

def crlNumberOid : String := "2.5.29.20"

def readCrl (der : Bytes) (list : CertificateList) (now : Int) : Except Error Crl :=
  match list.nextUpdate with
  | none => .error .malformed
  | some after =>
      if now < list.thisUpdate || (after : Int) ≤ now || after ≤ list.thisUpdate then .error .expired
      else
        match list.extensions with
        | none => .error .malformed
        | some extensions =>
            match extensions.filter (fun e => e.1 = crlNumberOid) with
            | [(_, value)] =>
                match env.crlNumber value with
                | none => .error .malformed
                | some bytes =>
                    if 8 < bytes.length then .error .malformed
                    else .ok
                      { number := bytes.foldl (fun n b => n * 256 + b.toNat) 0
                        thisUpdate := list.thisUpdate
                        nextUpdate := after
                        revoked := list.revoked.map serial
                        der := der }
            | _ => .error .malformed

def crl (der : Bytes) (issuer : Certificate) (now : Int) : Except Error Crl :=
  if der.isEmpty || 16 * 1024 * 1024 < der.length then .error .malformed
  else
    match env.certificateList der with
    | none => .error .malformed
    | some list =>
        if list.encoding ≠ der || list.issuer ≠ issuer.subject ||
            list.tbsSignature ≠ list.signatureAlgorithm then
          .error .unauthorized
        else do
          signedBy env issuer list.signatureAlgorithm list.tbs list.signature
          readCrl env der list now

/-- An approved issuer with its root, their lists and the verifier over them. -/
structure Generation where
  issuer : Issuer
  certificate : Certificate
  root : Certificate
  crl : Crl
  rootCrl : Crl
  verifier : Verifier
deriving DecidableEq

def Generation.issuerRevoked (g : Generation) : Bool :=
  g.certificate ≠ g.root && g.rootCrl.revoked.contains (serial g.certificate.serialNumber)

structure Snapshot where
  trust : Trust
  generations : List Generation
deriving DecidableEq

/-- Only a new trust needs authorities that are valid now, and only for issuers that sign. -/
def validNow (mode : Mode) (certificate root : Certificate) (now : Int) (restoring : Bool) : Except Error Unit :=
  if !restoring && mode ≠ .verifyOnly then do
    validCa certificate now
    validCa root now
  else .ok ()

def generation (trust : Trust) (now : Int) (restoring : Bool) (p : Issuer) (seen : List String) :
    Except Error (Bytes × Generation) := do
  if 128 < p.provisioner.utf8ByteSize || 128 < p.kid.utf8ByteSize ||
      (p.mode ≠ .verifyOnly && p.provisioner.isEmpty) ||
      (trust.purpose = .agent && (p.provisioner ≠ "rss-agent" || p.kid.isEmpty)) then
    .error .malformed
  else do
    let der ← decode env p.certificate 32768
    if env.digest der ≠ p.digest || seen.contains p.digest then .error .conflict
    else
      match env.certificate der with
      | none => .error .malformed
      | some certificate => do
          let rootDer ← decode env p.root 32768
          match env.certificate rootDer with
          | none => .error .malformed
          | some root => do
              caShape certificate
              caShape root
              validNow p.mode certificate root now restoring
              if certificate.issuer ≠ root.subject || root.subject ≠ root.issuer then .error .unauthorized
              else do
                signedBy env root root.signatureAlgorithm root.tbs root.signature
                if certificate.signatureAlgorithm ≠ certificate.tbsSignature ||
                    root.signatureAlgorithm ≠ root.tbsSignature then
                  .error .malformed
                else do
                  signedBy env root certificate.signatureAlgorithm certificate.tbs certificate.signature
                  let issuerCrl ← crl env (← decode env p.crl (16 * 1024 * 1024)) certificate now
                  let rootCrl ← crl env (← decode env p.rootCrl (16 * 1024 * 1024)) root now
                  .ok (rootDer, {
                    issuer := p, certificate, root, crl := issuerCrl, rootCrl
                    verifier := {
                      root := rootDer
                      crls := issuerCrl.der :: (if certificate ≠ root then [rootCrl.der] else []) } })

def generations (trust : Trust) (now : Int) (restoring : Bool) :
    List String → List (String × Bytes) → List Issuer → Except Error (List Generation)
  | _, _, [] => .ok []
  | seen, rootLists, p :: rest => do
      let (rootDer, g) ← generation env trust now restoring p seen
      if (rootLists.lookup (env.digest rootDer)).any (· ≠ g.rootCrl.der) then .error .conflict
      else if g.certificate = g.root && g.crl.der ≠ g.rootCrl.der then .error .conflict
      else if !env.builds g.verifier then .error .malformed
      else do
        let others ← generations trust now restoring (p.digest :: seen)
          ((env.digest rootDer, g.rootCrl.der) :: rootLists) rest
        .ok (g :: others)

def snapshot (trust : Trust) (purpose : Purpose) (now : Int) (restoring : Bool) : Except Error Snapshot := do
  trust.validate
  if trust.purpose ≠ purpose || !env.origin trust.origin then .error .malformed
  else do
    let generations ← generations env trust now restoring [] [] trust.issuers
    if generations.isEmpty then .error .malformed else .ok { trust, generations }

def new (trust : Trust) (purpose : Purpose) (now : Int) : Except Error Snapshot :=
  snapshot env trust purpose now false

/-- The latest of the lists' own times, starting from one. -/
def checkpoint : Int → List String → Except Error Int
  | latest, [] => .ok latest
  | latest, value :: rest => do
      match env.certificateList (← decode env value (16 * 1024 * 1024)) with
      | none => .error .malformed
      | some list => checkpoint (max latest list.thisUpdate) rest

/-- A stored trust is read at the time of its latest list. -/
def restore (trust : Trust) (purpose : Purpose) (now : Int) : Except Error Snapshot := do
  trust.validate
  let at' ← checkpoint env 0 (trust.issuers.flatMap (fun g => [g.crl, g.rootCrl]))
  if at' ≤ 0 || now < at' then .error .expired else snapshot env trust purpose at' true

/-- The newer of two lists of one authority, or the same list again. -/
def Crl.follows (b a : Crl) : Bool :=
  !(b.number < a.number || b.thisUpdate < a.thisUpdate || (b.number = a.number && b.der ≠ a.der))

/-- A generation against the one the old snapshot has under the same digest. -/
def Generation.follows (g previous : Generation) : Bool :=
  g.issuer.certificate = previous.issuer.certificate && g.issuer.root = previous.issuer.root &&
    g.issuer.provisioner = previous.issuer.provisioner && g.issuer.kid = previous.issuer.kid &&
    g.crl.follows previous.crl && g.rootCrl.follows previous.rootCrl

def Snapshot.find (s : Snapshot) (digest : String) : Option Generation :=
  s.generations.find? (fun g => g.issuer.digest = digest)

def Trust.modes (t : Trust) : List (String × Mode) := t.issuers.map (fun g => (g.digest, g.mode))

def successor (old : Snapshot) (trust : Trust) (now : Int) : Except Error Snapshot := do
  if trust.serviceId ≠ old.trust.serviceId ||
      (trust.origin ≠ old.trust.origin && !(trust.purpose = .agent || trust.purpose = .agentBootstrap)) ||
      trust.tenant ≠ old.trust.tenant || trust.purpose ≠ old.trust.purpose ||
      trust.revision < old.trust.revision then
    .error .conflict
  else do
    let next ← snapshot env trust old.trust.purpose now false
    if next.trust.revision = old.trust.revision && next.trust.modes ≠ old.trust.modes then .error .conflict
    else if next.generations.any (fun g => (old.find g.issuer.digest).any (fun previous => !g.follows previous))
    then .error .conflict
    else .ok next

def update (old : Snapshot) (trust : Trust) (now : Int) : Snapshot × Except Error Unit :=
  match successor env old trust now with
  | .ok next => (next, .ok ())
  | .error e => (old, .error e)

end RssMdm.DeviceTrust
