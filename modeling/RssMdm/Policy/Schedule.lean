/- module: Policy/Schedule
   source: crates/policy/src/schedule.rs
   digest: Schedule decisions over an injected clock and a time zone database. -/

import RssMdm.Lib.Int64
import RssMdm.Lib.Sha256

set_option autoImplicit false

namespace RssMdm.Policy

open Lib.Outcome Lib.Int64

inductive PolicyError where
  | malformed
  | conflict
  | notFound
deriving DecidableEq, Repr

abbrev Decision (α : Type) : Type := Run PolicyError α

/-- `ok_or(Error::Malformed)`. -/
def orMalformed {α : Type} : Option α → Decision α
  | some a => .ok a
  | none => .error (.error .malformed)

/-- A civil date as its day number, day 0 being 1970-01-01, from -9999-01-01 to 9999-12-31. -/
@[ext] structure Date where
  day : Int
  lo : -4371587 ≤ day
  hi : day ≤ 2932896
deriving DecidableEq

namespace Date

theorem epoch_lo : -4371587 ≤ (0 : Int) := by decide

theorem epoch_hi : (0 : Int) ≤ 2932896 := by decide

def tomorrow (d : Date) : Option Date :=
  if h : d.day + 1 ≤ 2932896 then some ⟨d.day + 1, by have := d.lo; omega, h⟩ else none

def yesterday (d : Date) : Option Date :=
  if h : -4371587 ≤ d.day - 1 then some ⟨d.day - 1, h, by have := d.hi; omega⟩ else none

def mondayOneOffset (d : Date) : Int := (d.day + 3) % 7 + 1

end Date

structure DateTime where
  date : Date
  hour : Int
  minute : Int

/-- `date.at(hour, minute, 0, 0)`, which panics on a time of day that does not exist. -/
def Date.atTime (d : Date) (hour minute : Int) : Decision DateTime :=
  if 0 ≤ hour ∧ hour ≤ 23 ∧ 0 ≤ minute ∧ minute ≤ 59 then .ok ⟨d, hour, minute⟩
  else .error .panic

def asI8 (n : Nat) : Int := ((n : Int) + 128) % 256 - 128

/-- What a zone makes of a civil time: no instant, or the earlier one if it is representable. -/
inductive Ambiguous where
  | gap
  | earlier (instant : Option I64)

structure TimeZones (Zone : Type) where
  get : String → Option Zone
  inRange : I64 → Bool
  dateOf : Zone → I64 → Date
  resolve : Zone → DateTime → Ambiguous

inductive Trigger where
  | manual
  | once (atTime : I64)
  | interval (anchor : I64) (seconds : UInt32)
  | weekly (zone : String) (weekday : UInt8) (minute : UInt16)
  | registration
  | checkIn (minimumSeconds : UInt32)
deriving DecidableEq

inductive Misfire where
  | skip (maxLatenessSeconds : UInt32)
  | coalesceOne
deriving DecidableEq

structure Window where
  zone : String
  weekdays : List UInt8
  startMinute : UInt16
  endMinute : UInt16
deriving DecidableEq

structure Schedule where
  trigger : Trigger
  misfire : Misfire
  notBefore : I64
  till : Option I64
  jitterSeconds : UInt32
  window : Option Window
deriving DecidableEq

/-- One stable trigger coordinate and its delivery window. -/
structure Occurrence where
  coordinate : I64
  availableAt : I64
  windowEnd : Option I64
deriving DecidableEq

variable {Zone : Type} (tz : TimeZones Zone)

def zoneOf (name : String) : Decision Zone :=
  if name ≠ "UTC" && (!name.toList.contains '/' || name.utf8ByteSize > 128) then
    .error (.error .malformed)
  else orMalformed (tz.get name)

/-- `Timestamp::from_second`. -/
def timestamp (second : I64) : Decision Unit :=
  if tz.inRange second then .ok () else .error (.error .malformed)

def Date.civil (date : Date) (minute : UInt16) : Decision DateTime :=
  if minute = 1440 then do
    let next ← orMalformed date.tomorrow
    next.atTime 0 0
  else date.atTime (asI8 (minute.toNat / 60)) (asI8 (minute.toNat % 60))

/-- `local`: the earlier instant of a minute of a local date, none in a gap. -/
def localInstant (zone : Zone) (date : Date) (minute : UInt16) : Decision (Option I64) := do
  let civil ← date.civil minute
  match tz.resolve zone civil with
  | .gap => .ok none
  | .earlier instant => do
    let t ← orMalformed instant
    .ok (some t)

def weeklyOn (zone : Zone) (weekday : UInt8) (minute : UInt16) (date : Date) :
    Decision (Option I64) :=
  if date.mondayOneOffset = asI8 weekday.toNat then localInstant tz zone date minute else .ok none

/-- The bounded search over local dates shared by `due` and `next_after`. -/
def scanDates (zone : Zone) (weekday : UInt8) (minute : UInt16) (step : Date → Option Date)
    (accept : I64 → Bool) : Nat → Date → Decision (Option I64)
  | 0, _ => .ok none
  | n + 1, date => do
    let found ← weeklyOn tz zone weekday minute date
    match found.filter accept with
    | some t => .ok (some t)
    | none => do
      let next ← orMalformed (step date)
      scanDates zone weekday minute step accept n next

namespace Window

def endDay (w : Window) (date : Date) : Decision Date :=
  if w.endMinute < w.startMinute then orMalformed date.tomorrow else .ok date

/-- Where the window that starts on a date admits `t`, and where that window ends. -/
def admits (w : Window) (zone : Zone) (t : I64) (date : Date) :
    Decision (Option (I64 × Option I64)) :=
  if w.weekdays.any fun d => (d.toNat : Int) = date.mondayOneOffset then do
    let start ← localInstant tz zone date w.startMinute
    let day ← w.endDay date
    let finish ← localInstant tz zone day w.endMinute
    .ok (match start, finish with
      | some start, some finish =>
        if t.val < finish.val ∧ start.val < finish.val then
          some (if t.val ≤ start.val then start else t, some finish)
        else none
      | _, _ => none)
  else .ok none

/-- The loop of `next` over start dates. -/
def nextFrom (w : Window) (zone : Zone) (t : I64) :
    Nat → Date → Decision (Option (I64 × Option I64))
  | 0, _ => .ok none
  | n + 1, date => do
    let found ← w.admits tz zone t date
    match found with
    | some result => .ok (some result)
    | none => do
      let next ← orMalformed date.tomorrow
      nextFrom w zone t n next

def next (w : Window) (t : I64) : Decision (Option (I64 × Option I64)) := do
  let zone ← zoneOf tz w.zone
  timestamp tz t
  let date ← orMalformed (tz.dateOf zone t).yesterday
  w.nextFrom tz zone t 16 date

/-- The window part of `validate`. -/
def validate (w : Window) : Decision Unit := do
  let _ ← zoneOf tz w.zone
  if w.weekdays.isEmpty || w.weekdays.any (fun d => !(1 ≤ d.toNat && d.toNat ≤ 7)) ||
      w.startMinute = w.endMinute || w.startMinute.toNat ≥ 1440 || w.endMinute.toNat > 1440 then
    .error (.error .malformed)
  else .ok ()

end Window

namespace Schedule

def endsAt (s : Schedule) : I64 := s.till.getD I64.max

def missed (s : Schedule) (availableAt now : I64) : Bool :=
  match s.misfire with
  | .skip maxLateness => (now.saturatingSub availableAt).val > (I64.ofUInt32 maxLateness).val
  | .coalesceOne => false

/-- The first interval coordinate that `validate` compares with the end. -/
def firstInterval (s : Schedule) (anchor seconds : I64) : Decision I64 :=
  if anchor.val ≥ s.notBefore.val then .ok anchor
  else do
    let distance ← orMalformed (s.notBefore.checkedSub anchor)
    let less ← seconds.sub ⟨1, by omega, by omega⟩
    let total ← orMalformed (distance.checkedAdd less)
    let intervals ← total.div seconds
    let offset ← orMalformed (intervals.checkedMul seconds)
    orMalformed (anchor.checkedAdd offset)

def periodBounds (seconds : UInt32) : Bool := 60 ≤ seconds.toNat && seconds.toNat ≤ 31536000

def validateTrigger (s : Schedule) : Decision Unit :=
  match s.trigger with
  | .once t =>
    if t.val < s.notBefore.val || t.val ≥ s.endsAt.val then .error (.error .malformed) else .ok ()
  | .interval anchor seconds =>
    if anchor.val < 0 || !periodBounds seconds then .error (.error .malformed)
    else do
      let first ← s.firstInterval anchor (I64.ofUInt32 seconds)
      if first.val ≥ s.endsAt.val then .error (.error .malformed) else .ok ()
  | .weekly name weekday minute => do
    let _ ← zoneOf tz name
    if !(1 ≤ weekday.toNat && weekday.toNat ≤ 7) || minute.toNat ≥ 1440 then
      .error (.error .malformed)
    else .ok ()
  | .checkIn minimumSeconds =>
    if !periodBounds minimumSeconds then .error (.error .malformed) else .ok ()
  | _ => .ok ()

def validateEnd (s : Schedule) : Decision Unit :=
  match s.till with
  | some till => timestamp tz till
  | none => .ok ()

def validateWindow (s : Schedule) : Decision Unit :=
  match s.window with
  | some w => w.validate tz
  | none => .ok ()

def validate (s : Schedule) : Decision Unit :=
  if s.notBefore.val < 0 || s.endsAt.val ≤ s.notBefore.val || s.jitterSeconds.toNat > 3600 then
    .error (.error .malformed)
  else do
    timestamp tz s.notBefore
    s.validateEnd tz
    s.validateTrigger tz
    s.validateWindow tz

/-- `coordinate.to_be_bytes()`. -/
def beBytes (n : I64) : List UInt8 :=
  (List.range 8).map fun i => UInt8.ofNat ((n.val % 2 ^ 64).toNat / 2 ^ (56 - 8 * i))

/-- `u64::from_be_bytes`. -/
def fromBeBytes (bytes : List UInt8) : Nat := bytes.foldl (fun n b => n * 256 + b.toNat) 0

def jitter (s : Schedule) (coordinate : I64) (identity : List UInt8) : Nat :=
  fromBeBytes ((RssMdm.Lib.Sha256.digest (identity ++ beBytes coordinate)).take 8) %
    (s.jitterSeconds.toNat + 1)

theorem jitter_lt (s : Schedule) (coordinate : I64) (identity : List UInt8) :
    s.jitter coordinate identity < 2 ^ 32 + 1 := by
  have hmod : s.jitter coordinate identity < s.jitterSeconds.toNat + 1 :=
    Nat.mod_lt _ (Nat.succ_pos _)
  have hmax : s.jitterSeconds.toNat < 2 ^ 32 := s.jitterSeconds.toNat_lt
  omega

def jitterI64 (s : Schedule) (coordinate : I64) (identity : List UInt8) : I64 :=
  ⟨s.jitter coordinate identity, by omega, by have := s.jitter_lt coordinate identity; omega⟩

def availability (s : Schedule) (earliest : I64) : Decision (Option (I64 × Option I64)) :=
  match s.window with
  | some w => w.next tz earliest
  | none => .ok (some (earliest, none))

def occurrence (s : Schedule) (coordinate : I64) (identity : List UInt8) :
    Decision (Option Occurrence) := do
  s.validate tz
  if coordinate.val < s.notBefore.val || coordinate.val ≥ s.endsAt.val then .ok none
  else do
    let earliest ← orMalformed (coordinate.checkedAdd (s.jitterI64 coordinate identity))
    let available ← s.availability tz earliest
    .ok ((available.filter fun a => a.1.val < s.endsAt.val).map fun a =>
      { coordinate := coordinate, availableAt := a.1, windowEnd := a.2 })

/-- The latest coordinate at or before `now`, before the range filters of `due`. -/
def base (s : Schedule) (now : I64) : Decision (Option I64) :=
  match s.trigger with
  | .once t => .ok (some t)
  | .interval anchor seconds =>
    if now.val ≥ anchor.val then do
      let elapsed ← now.sub anchor
      let count ← elapsed.div (I64.ofUInt32 seconds)
      let offset ← count.mul (I64.ofUInt32 seconds)
      let t ← anchor.add offset
      .ok (some t)
    else .ok none
  | .weekly name weekday minute => do
    let zone ← zoneOf tz name
    timestamp tz now
    scanDates tz zone weekday minute Date.yesterday (fun t => t.val ≤ now.val) 15 (tz.dateOf zone now)
  | _ => .ok none

def due (s : Schedule) (after now : I64) (identity : List UInt8) : Decision (Option Occurrence) := do
  s.validate tz
  if now.val < s.notBefore.val || now.val ≥ s.endsAt.val || now.val ≤ after.val then .ok none
  else do
    let base ← s.base tz now
    match base.filter fun t => t.val > after.val && t.val ≥ s.notBefore.val && t.val ≤ now.val with
    | none => .ok none
    | some base => do
      let found ← s.occurrence tz base identity
      match found with
      | none => .ok none
      | some occurrence =>
        if s.missed occurrence.availableAt now then .ok none else .ok (some occurrence)

/-- The next coordinate at or after `floor`. -/
def nextCoordinate (s : Schedule) (now floor : I64) : Decision (Option I64) :=
  match s.trigger with
  | .once t => .ok (if t.val ≥ floor.val then some t else none)
  | .interval anchor seconds => do
    let step := I64.ofUInt32 seconds
    let delta := if (floor.saturatingSub anchor).val ≤ 0 then ⟨0, I64.zero_lo, I64.zero_hi⟩
      else floor.saturatingSub anchor
    let less ← step.sub ⟨1, by omega, by omega⟩
    let total ← orMalformed (delta.checkedAdd less)
    let count ← total.div step
    let offset ← orMalformed (count.checkedMul step)
    let t ← orMalformed (anchor.checkedAdd offset)
    .ok (some t)
  | .weekly name weekday minute => do
    let zone ← zoneOf tz name
    timestamp tz floor
    scanDates tz zone weekday minute Date.tomorrow (fun t => t.val ≥ floor.val) 15
      (tz.dateOf zone floor)
  | _ => .ok (if s.notBefore.val > now.val then some s.notBefore else none)

def nextAfter (s : Schedule) (now : I64) (identity : List UInt8) : Decision (Option Occurrence) := do
  s.validate tz
  if now.val ≥ s.endsAt.val then .ok none
  else do
    let current ← s.due tz ⟨-1, by omega, by omega⟩ now identity
    match current.filter fun o => o.availableAt.val > now.val with
    | some o => .ok (some o)
    | none => do
      let following ← orMalformed (now.checkedAdd ⟨1, by omega, by omega⟩)
      let floor := if following.val ≤ s.notBefore.val then s.notBefore else following
      let coordinate ← s.nextCoordinate tz now floor
      match coordinate with
      | some t => s.occurrence tz t identity
      | none => .ok none

end Schedule

end RssMdm.Policy
