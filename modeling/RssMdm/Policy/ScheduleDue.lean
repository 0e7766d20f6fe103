/- module: Policy/ScheduleDue
   source: crates/policy/src/schedule.rs
   digest: What a due occurrence is, runs of the scan cursor, and the absence of traps. -/

import Mathlib.Order.Bounds.Basic
import RssMdm.Policy.Schedule

set_option autoImplicit false

namespace RssMdm.Policy

open Lib.Fallible Lib.Outcome Lib.Int64

variable {Zone : Type} {tz : TimeZones Zone}

theorem orMalformed_safe {α : Type} (o : Option α) : Safe (orMalformed o) fun a => o = some a := by
  cases o with
  | none => exact safe_error _ _
  | some => exact rfl

theorem zoneOf_safe (name : String) : Safe (zoneOf tz name) fun zone => tz.get name = some zone := by
  unfold zoneOf
  apply Safe.guard
  intro _
  exact orMalformed_safe _

theorem timestamp_safe (second : I64) : Safe (timestamp tz second) fun _ => True := by
  unfold timestamp
  split
  · exact trivial
  · exact safe_error _ _

theorem asI8_eq {n : Nat} (h : n < 128) : asI8 n = n := by
  unfold asI8
  omega

def civilTime (date : Date) (minute : Nat) : Option DateTime :=
  if minute = 1440 then date.tomorrow.map fun next => ⟨next, 0, 0⟩
  else some ⟨date, (minute / 60 : Nat), (minute % 60 : Nat)⟩

def instantOf (tz : TimeZones Zone) (zone : Zone) (date : Date) (minute : Nat) : Option I64 :=
  (civilTime date minute).bind fun civil =>
    match tz.resolve zone civil with
    | .gap => none
    | .earlier instant => instant

variable {date : Date} {minute : UInt16}

theorem civil_safe (h : minute.toNat ≤ 1440) :
    Safe (date.civil minute) fun civil => civilTime date minute.toNat = some civil := by
  have hminute : minute = 1440 ↔ minute.toNat = 1440 := by
    rw [← UInt16.toNat_inj]
    rfl
  unfold Date.civil
  by_cases hlast : minute = 1440
  · rw [if_pos hlast]
    apply Safe.bind (orMalformed_safe _)
    intro next hnext
    simp [Date.atTime, civilTime, hminute.mp hlast, hnext]
  · have hne : minute.toNat ≠ 1440 := fun heq => hlast (hminute.mpr heq)
    have hday : 0 ≤ ((minute.toNat / 60 : Nat) : Int) ∧ ((minute.toNat / 60 : Nat) : Int) ≤ 23 ∧
        0 ≤ ((minute.toNat % 60 : Nat) : Int) ∧ ((minute.toNat % 60 : Nat) : Int) ≤ 59 := by omega
    rw [if_neg hlast, asI8_eq (by omega), asI8_eq (by omega), Date.atTime, if_pos hday]
    simp [civilTime, hne]

variable {zone : Zone}

theorem localInstant_safe (h : minute.toNat ≤ 1440) :
    Safe (localInstant tz zone date minute) fun r => r = instantOf tz zone date minute.toNat := by
  unfold localInstant
  apply Safe.bind (civil_safe h)
  intro civil hcivil
  unfold instantOf
  rw [hcivil, Option.bind_some]
  cases tz.resolve zone civil with
  | gap => exact rfl
  | earlier instant =>
    apply Safe.bind (orMalformed_safe instant)
    rintro t rfl
    exact rfl

variable {weekday : UInt8}

theorem weeklyOn_safe (hminute : minute.toNat ≤ 1440) (hweekday : weekday.toNat < 128) :
    Safe (weeklyOn tz zone weekday minute date) fun found => found =
      if date.mondayOneOffset = weekday.toNat then instantOf tz zone date minute.toNat else none := by
  rw [weeklyOn, asI8_eq hweekday]
  by_cases hday : date.mondayOneOffset = weekday.toNat
  · rw [if_pos hday, if_pos hday]
    exact localInstant_safe hminute
  · rw [if_neg hday, if_neg hday]
    exact rfl

/-- A date whose instant the search does not accept. -/
def Rejected (tz : TimeZones Zone) (zone : Zone) (weekday : UInt8) (minute : UInt16)
    (accept : I64 → Bool) (d : Date) : Prop :=
  d.mondayOneOffset = weekday.toNat →
    ∀ t, instantOf tz zone d minute.toNat = some t → accept t = false

/-- Loop rule of the search: what holds at the start and survives a rejected date holds where an
instant is found. -/
theorem scanDates_rule {step : Date → Option Date} {accept : I64 → Bool} {I : Date → Prop}
    (hminute : minute.toNat ≤ 1440) (hweekday : weekday.toNat < 128)
    (hstep : ∀ d d', I d → Rejected tz zone weekday minute accept d → step d = some d' → I d')
    (n : Nat) (hdate : I date) :
    Safe (scanDates tz zone weekday minute step accept n date) fun r =>
      ∀ t, r = some t → ∃ d, I d ∧ d.mondayOneOffset = weekday.toNat ∧
        instantOf tz zone d minute.toNat = some t ∧ accept t = true := by
  induction n generalizing date with
  | zero =>
    intro t ht
    cases ht
  | succ n ih =>
    apply Safe.bind (weeklyOn_safe hminute hweekday)
    rintro found rfl
    cases hfound : (if date.mondayOneOffset = weekday.toNat then
        instantOf tz zone date minute.toNat else none).filter accept with
    | some t =>
      rintro u hu
      obtain rfl : t = u := Option.some.inj hu
      obtain ⟨hsome, haccept⟩ := Option.filter_eq_some_iff.mp hfound
      split at hsome
      · rename_i hday
        exact ⟨date, hdate, hday, hsome, haccept⟩
      · cases hsome
    | none =>
      have hrejected : Rejected tz zone weekday minute accept date := by
        intro hday t ht
        rw [if_pos hday, ht] at hfound
        simpa [Option.filter] using hfound
      apply Safe.bind (orMalformed_safe (step date))
      intro next hnext
      exact ih (hstep date next hdate hrejected hnext)

namespace Window

variable {w : Window}

theorem admits_safe {t : I64} (hstart : w.startMinute.toNat ≤ 1440)
    (hend : w.endMinute.toNat ≤ 1440) : Safe (w.admits tz zone t date) fun _ => True := by
  unfold admits
  split
  · apply Safe.bind (localInstant_safe hstart)
    intro start _
    have hday : Safe (w.endDay date) fun _ => True := by
      unfold endDay
      split
      · exact (orMalformed_safe _).mono fun _ _ => trivial
      · exact trivial
    apply Safe.bind hday
    intro day _
    apply Safe.bind (localInstant_safe hend)
    intro finish _
    exact trivial
  · exact trivial

theorem nextFrom_safe {t : I64} (hstart : w.startMinute.toNat ≤ 1440)
    (hend : w.endMinute.toNat ≤ 1440) (n : Nat) (date : Date) :
    Safe (w.nextFrom tz zone t n date) fun _ => True := by
  induction n generalizing date with
  | zero => exact trivial
  | succ n ih =>
    apply Safe.bind (admits_safe hstart hend)
    intro found _
    cases found with
    | some => exact trivial
    | none =>
      apply Safe.bind (orMalformed_safe _)
      intro next _
      exact ih next

theorem next_safe {t : I64} (hstart : w.startMinute.toNat ≤ 1440)
    (hend : w.endMinute.toNat ≤ 1440) :
    Safe (w.next tz t) fun _ => True := by
  unfold next
  apply Safe.bind (zoneOf_safe _)
  intro zone _
  apply Safe.bind (timestamp_safe _)
  intro _ _
  apply Safe.bind (orMalformed_safe _)
  intro date _
  exact nextFrom_safe hstart hend 16 date

theorem validate_safe (w : Window) :
    Safe (w.validate tz) fun _ => w.startMinute.toNat < 1440 ∧ w.endMinute.toNat ≤ 1440 := by
  unfold validate
  apply Safe.bind (zoneOf_safe _)
  intro zone _
  apply Safe.guard
  intro hbounds
  simp only [Bool.or_eq_true, decide_eq_true_eq, not_or] at hbounds
  exact ⟨by omega, by omega⟩

end Window

/-- What `validate` establishes about a trigger. -/
def TriggerOk : Trigger → Prop
  | .interval anchor seconds => 0 ≤ anchor.val ∧ 60 ≤ seconds.toNat
  | .weekly _ weekday minute => weekday.toNat ≤ 7 ∧ minute.toNat < 1440
  | _ => True

structure Valid (s : Schedule) : Prop where
  trigger : TriggerOk s.trigger
  window : ∀ w, s.window = some w → w.startMinute.toNat < 1440 ∧ w.endMinute.toNat ≤ 1440

namespace Schedule

theorem periodBounds_iff {seconds : UInt32} :
    periodBounds seconds = true ↔ 60 ≤ seconds.toNat ∧ seconds.toNat ≤ 31536000 := by
  simp [periodBounds]

theorem firstInterval_safe {s : Schedule} {anchor : I64} {seconds : UInt32}
    (h : 60 ≤ seconds.toNat) : Safe (s.firstInterval anchor (I64.ofUInt32 seconds)) fun _ => True := by
  have hmax : seconds.toNat < 2 ^ 32 := seconds.toNat_lt
  unfold firstInterval
  split
  · exact trivial
  rename_i hlt
  apply Safe.bind (orMalformed_safe _)
  intro distance hdistance
  rw [I64.checkedSub, I64.ofInt_eq_some] at hdistance
  have hless : Safe ((I64.ofUInt32 seconds).sub ⟨1, by omega, by omega⟩ : Decision I64) fun a =>
      a.val = seconds.toNat - 1 :=
    I64.trap_safe ⟨by simp only [I64.ofUInt32_val]; omega, by simp only [I64.ofUInt32_val]; omega⟩
  apply Safe.bind hless
  intro less hless
  apply Safe.bind (orMalformed_safe _)
  intro total htotal
  rw [I64.checkedAdd, I64.ofInt_eq_some] at htotal
  have hdiv : Safe (total.div (I64.ofUInt32 seconds) : Decision I64) _ :=
    I64.div_safe (by omega) (by simp only [I64.ofUInt32_val]; omega)
  apply Safe.bind hdiv
  intro intervals _
  apply Safe.bind (orMalformed_safe _)
  intro offset _
  exact (orMalformed_safe _).mono fun _ _ => trivial

theorem validateTrigger_safe (s : Schedule) :
    Safe (s.validateTrigger tz) fun _ => TriggerOk s.trigger := by
  unfold validateTrigger
  cases htrigger : s.trigger with
  | manual => exact trivial
  | once =>
    apply Safe.guard
    intro _
    exact trivial
  | interval =>
    apply Safe.guard
    intro hbounds
    simp only [Bool.or_eq_true, decide_eq_true_eq, Bool.not_eq_true', not_or, Bool.not_eq_false,
      periodBounds_iff] at hbounds
    apply Safe.bind (firstInterval_safe hbounds.2.1)
    intro first _
    apply Safe.guard
    intro _
    exact ⟨by omega, hbounds.2.1⟩
  | weekly =>
    apply Safe.bind (zoneOf_safe _)
    intro zone _
    apply Safe.guard
    intro hbounds
    simp only [Bool.or_eq_true, Bool.not_eq_true', Bool.and_eq_false_iff, decide_eq_false_iff_not,
      decide_eq_true_eq, not_or, not_not] at hbounds
    exact ⟨by omega, by omega⟩
  | registration => exact trivial
  | checkIn =>
    apply Safe.guard
    intro _
    exact trivial

theorem validate_safe (s : Schedule) : Safe (s.validate tz) fun _ => Valid s := by
  unfold validate
  apply Safe.guard
  intro _
  apply Safe.bind (timestamp_safe _)
  intro _ _
  have hend : Safe (s.validateEnd tz) fun _ => True := by
    unfold validateEnd
    cases s.till with
    | none => exact trivial
    | some till => exact timestamp_safe till
  apply Safe.bind hend
  intro _ _
  apply Safe.bind s.validateTrigger_safe
  intro _ htrigger
  have hwindow : Safe (s.validateWindow tz) fun _ => ∀ w, s.window = some w →
      w.startMinute.toNat < 1440 ∧ w.endMinute.toNat ≤ 1440 := by
    unfold validateWindow
    cases s.window with
    | none =>
      intro w hw
      cases hw
    | some w =>
      apply Safe.mono w.validate_safe
      rintro _ hbounds w' hw'
      rwa [← Option.some.inj hw']
  exact hwindow.mono fun _ hbounds => ⟨htrigger, hbounds⟩

theorem occurrence_safe (s : Schedule) (coordinate : I64) (identity : List UInt8) :
    Safe (s.occurrence tz coordinate identity) fun r => ∀ o, r = some o →
      o.coordinate = coordinate ∧ s.notBefore.val ≤ coordinate.val ∧
        coordinate.val < s.endsAt.val := by
  unfold occurrence
  apply Safe.bind s.validate_safe
  intro _ hvalid
  split
  · intro o ho
    cases ho
  rename_i hrange
  simp only [Bool.or_eq_true, decide_eq_true_eq, not_or, ge_iff_le, Int.not_lt, Int.not_le] at hrange
  apply Safe.bind (orMalformed_safe _)
  intro earliest _
  have havailable : Safe (s.availability tz earliest) fun _ => True := by
    unfold availability
    cases hwindow : s.window with
    | none => exact trivial
    | some w =>
      obtain ⟨hstart, hend⟩ := hvalid.window w hwindow
      exact Window.next_safe (by omega) hend
  apply Safe.bind havailable
  rintro available - o ho
  obtain ⟨a, -, rfl⟩ := Option.map_eq_some_iff.mp ho
  exact ⟨rfl, hrange⟩

end Schedule

def Coordinates (tz : TimeZones Zone) : Trigger → Set Int
  | .once t => {t.val}
  | .interval anchor seconds => {c | ∃ k : Nat, c = anchor.val + k * seconds.toNat}
  | .weekly name weekday minute => {c | ∃ zone, ∃ d : Date, ∃ t, tz.get name = some zone ∧
      d.mondayOneOffset = weekday.toNat ∧ instantOf tz zone d minute.toNat = some t ∧ t.val = c}
  | _ => ∅

/-- No weekly instant at or before `now` belongs to a local date after the local date of `now`. It
fails only while a clock set back over midnight repeats the end of a day. -/
def Settled (tz : TimeZones Zone) (now : I64) : Trigger → Prop
  | .weekly name weekday minute => ∀ zone (d : Date) t, tz.get name = some zone →
      (tz.dateOf zone now).day < d.day → d.mondayOneOffset = weekday.toNat →
      instantOf tz zone d minute.toNat = some t → now.val < t.val
  | _ => True

/-- At a fixed minute, later local dates have later instants. -/
def StrictlyIncreasing (tz : TimeZones Zone) : Prop :=
  ∀ zone (d d' : Date) minute t t', d.day < d'.day → instantOf tz zone d minute = some t →
    instantOf tz zone d' minute = some t' → t.val < t'.val

/-- The search back from the local date of `now` has come to `d` and rejected every later date. -/
def Passed (tz : TimeZones Zone) (zone : Zone) (weekday : UInt8) (minute : UInt16) (now : I64)
    (d : Date) : Prop :=
  d.day ≤ (tz.dateOf zone now).day ∧ ∀ d' : Date, d.day < d'.day →
    d'.day ≤ (tz.dateOf zone now).day → Rejected tz zone weekday minute (fun t => t.val ≤ now.val) d'

def IsBase (tz : TimeZones Zone) (now : I64) : Trigger → I64 → Prop
  | .once u, t => t = u
  | .interval anchor seconds, t => 0 < seconds.toNat ∧ anchor.val ≤ now.val ∧
      t.val = anchor.val + (now.val - anchor.val) / seconds.toNat * seconds.toNat
  | .weekly name weekday minute, t => ∃ zone d, tz.get name = some zone ∧
      Passed tz zone weekday minute now d ∧ d.mondayOneOffset = weekday.toNat ∧
      instantOf tz zone d minute.toNat = some t
  | _, _ => False

theorem yesterday_day {d d' : Date} (h : d.yesterday = some d') : d'.day = d.day - 1 := by
  unfold Date.yesterday at h
  split at h
  · rw [← Option.some.inj h]
  · cases h

theorem Passed.yesterday {now : I64} {d d' : Date} (h : Passed tz zone weekday minute now d)
    (hrejected : Rejected tz zone weekday minute (fun t => t.val ≤ now.val) d)
    (hstep : d.yesterday = some d') : Passed tz zone weekday minute now d' := by
  obtain ⟨hle, hpassed⟩ := h
  have hday : d'.day = d.day - 1 := yesterday_day hstep
  refine ⟨by omega, ?_⟩
  intro e hlt hmax
  by_cases heq : e = d
  · rw [heq]
    exact hrejected
  · have hne : e.day ≠ d.day := fun hcontra => heq (Date.ext hcontra)
    exact hpassed e (by omega) hmax

theorem base_safe {s : Schedule} (h : TriggerOk s.trigger) (now : I64) :
    Safe (s.base tz now) fun r => ∀ t, r = some t → IsBase tz now s.trigger t := by
  unfold Schedule.base
  cases htrigger : s.trigger with
  | manual | registration | checkIn => intro t ht; cases ht
  | once =>
    intro t ht
    exact (Option.some.inj ht).symm
  | interval anchor seconds =>
    rw [htrigger] at h
    obtain ⟨hanchor, hseconds⟩ := h
    dsimp only
    split
    · rename_i hnow
      have hhi : now.val < 2 ^ 63 := now.hi
      -- the quotient and its multiple stay between zero and the elapsed time
      have hpos : 0 < (seconds.toNat : Int) := by omega
      have helapsed : 0 ≤ now.val - anchor.val := by omega
      have hcount : 0 ≤ (now.val - anchor.val) / seconds.toNat := Int.ediv_nonneg helapsed (by omega)
      have hoffset : 0 ≤ (now.val - anchor.val) / seconds.toNat * seconds.toNat :=
        Int.mul_nonneg hcount (by omega)
      have hfloor : (now.val - anchor.val) / seconds.toNat * seconds.toNat ≤ now.val - anchor.val :=
        Int.ediv_mul_le _ (by omega)
      have hsub : Safe (now.sub anchor : Decision I64) _ := I64.trap_safe ⟨by omega, by omega⟩
      apply Safe.bind hsub
      intro elapsed helapsedEq
      have hdiv : Safe (elapsed.div (I64.ofUInt32 seconds) : Decision I64) _ :=
        I64.div_safe (by omega) (by simpa using hpos)
      apply Safe.bind hdiv
      intro count hcountEq
      rw [helapsedEq, I64.ofUInt32_val] at hcountEq
      have hmul : Safe (count.mul (I64.ofUInt32 seconds) : Decision I64) _ :=
        I64.trap_safe (by rw [hcountEq, I64.ofUInt32_val]; exact ⟨by omega, by omega⟩)
      apply Safe.bind hmul
      intro offset hoffsetEq
      rw [hcountEq, I64.ofUInt32_val] at hoffsetEq
      have hadd : Safe (anchor.add offset : Decision I64) _ :=
        I64.trap_safe (by rw [hoffsetEq]; exact ⟨by omega, by omega⟩)
      apply Safe.bind hadd
      intro u hu t ht
      obtain rfl : u = t := Option.some.inj ht
      exact ⟨by omega, by omega, by rw [hu, hoffsetEq]⟩
    · intro t ht
      cases ht
  | weekly _ weekday minute =>
    rw [htrigger] at h
    obtain ⟨hweekday, hminute⟩ := h
    apply Safe.bind (zoneOf_safe _)
    intro zone hzone
    apply Safe.bind (timestamp_safe _)
    intro _ _
    have hstart : Passed tz zone weekday minute now (tz.dateOf zone now) :=
      ⟨Int.le_refl _, fun d' hlt hle => by omega⟩
    have hscan : Safe (scanDates tz zone weekday minute Date.yesterday (fun t => t.val ≤ now.val) 15
        (tz.dateOf zone now)) _ :=
      scanDates_rule (by omega) (by omega) (fun _ _ => .yesterday) 15 hstart
    apply Safe.mono hscan
    rintro r hr t ht
    obtain ⟨d, hpassed, hday, hinstant, -⟩ := hr t ht
    exact ⟨zone, d, hzone, hpassed, hday, hinstant⟩

theorem isGreatest_iff_settled (hinc : StrictlyIncreasing tz) {trigger : Trigger} {now t : I64}
    {lo : Int} (hbase : IsBase tz now trigger t) (hlo : lo ≤ t.val) (hnow : t.val ≤ now.val) :
    IsGreatest {c | c ∈ Coordinates tz trigger ∧ lo ≤ c ∧ c ≤ now.val} t.val ↔
      Settled tz now trigger := by
  cases trigger with
  | manual | registration | checkIn => exact hbase.elim
  | once u =>
    obtain rfl : t = u := hbase
    refine ⟨fun _ => trivial, fun _ => ⟨⟨rfl, hlo, hnow⟩, ?_⟩⟩
    rintro c ⟨hc, -, -⟩
    exact le_of_eq hc
  | interval anchor seconds =>
    obtain ⟨hpos, hanchor, ht⟩ := hbase
    refine ⟨fun _ => trivial, fun _ => ⟨⟨?_, hlo, hnow⟩, ?_⟩⟩
    · have hcount : 0 ≤ (now.val - anchor.val) / seconds.toNat :=
        Int.ediv_nonneg (by omega) (by omega)
      refine ⟨((now.val - anchor.val) / seconds.toNat).toNat, ?_⟩
      rw [ht, Int.toNat_of_nonneg hcount]
    · rintro c ⟨⟨k, rfl⟩, -, hk⟩
      have hpos' : 0 < (seconds.toNat : Int) := by omega
      have hle : (k : Int) ≤ (now.val - anchor.val) / seconds.toNat :=
        (Int.le_ediv_iff_mul_le hpos').mpr (by omega)
      have hmul : (k : Int) * seconds.toNat ≤
          (now.val - anchor.val) / seconds.toNat * seconds.toNat :=
        Int.mul_le_mul_of_nonneg_right hle (by omega)
      omega
  | weekly _ _ minute =>
    obtain ⟨zone, d, hzone, ⟨hle, hpassed⟩, hday, hinstant⟩ := hbase
    constructor
    · rintro ⟨-, hmax⟩ zone' d' u hzone' hlater hday' hinstant'
      obtain rfl : zone = zone' := Option.some.inj (hzone.symm.trans hzone')
      have hgt : t.val < u.val := hinc zone d d' minute.toNat t u (by omega) hinstant hinstant'
      by_contra hnot
      have hin : u.val ≤ t.val := hmax ⟨⟨zone, d', u, hzone, hday', hinstant', rfl⟩, by omega, by omega⟩
      omega
    · intro hsettled
      refine ⟨⟨⟨zone, d, t, hzone, hday, hinstant, rfl⟩, hlo, hnow⟩, ?_⟩
      rintro c ⟨⟨zone', d', u, hzone', hday', hinstant', rfl⟩, -, hu⟩
      obtain rfl : zone = zone' := Option.some.inj (hzone.symm.trans hzone')
      rcases lt_trichotomy d'.day d.day with hlt | heq | hgt
      · exact le_of_lt (hinc zone d' d minute.toNat u t hlt hinstant' hinstant)
      · obtain rfl : d' = d := Date.ext heq
        rw [hinstant] at hinstant'
        exact le_of_eq (congrArg I64.val (Option.some.inj hinstant').symm)
      by_cases hstart : d'.day ≤ (tz.dateOf zone now).day
      · have hfalse := hpassed d' hgt hstart hday' u hinstant'
        simp only [decide_eq_false_iff_not] at hfalse
        exact absurd hu hfalse
      · have hlater := hsettled zone d' u hzone (by omega) hday' hinstant'
        omega

namespace Schedule

theorem due_safe (s : Schedule) (after now : I64) (identity : List UInt8) :
    Safe (s.due tz after now identity) fun r => ∀ o, r = some o →
      IsBase tz now s.trigger o.coordinate ∧ after.val < o.coordinate.val ∧
        s.notBefore.val ≤ o.coordinate.val ∧ o.coordinate.val ≤ now.val ∧
        o.coordinate.val < s.endsAt.val := by
  have hnone : ∀ o : Occurrence, none = some o → IsBase tz now s.trigger o.coordinate ∧
      after.val < o.coordinate.val ∧ s.notBefore.val ≤ o.coordinate.val ∧
        o.coordinate.val ≤ now.val ∧ o.coordinate.val < s.endsAt.val := by
    intro o ho
    cases ho
  unfold due
  apply Safe.bind s.validate_safe
  intro _ hvalid
  split
  · exact hnone
  apply Safe.bind (base_safe hvalid.trigger now)
  intro base hbase
  split
  · exact hnone
  rename_i t hfilter
  obtain ⟨rfl, hrange⟩ := Option.filter_eq_some_iff.mp hfilter
  simp only [Bool.and_eq_true, decide_eq_true_eq] at hrange
  apply Safe.bind (s.occurrence_safe t identity)
  intro found hfound
  cases found with
  | none => exact hnone
  | some o =>
    obtain ⟨hcoordinate, hlo, hhi⟩ := hfound o rfl
    dsimp only
    split
    · exact hnone
    intro o' ho'
    obtain rfl : o = o' := Option.some.inj ho'
    rw [hcoordinate]
    exact ⟨hbase t rfl, by omega, hlo, by omega, hhi⟩

theorem nextCoordinate_safe {s : Schedule} (h : TriggerOk s.trigger) (now floor : I64) :
    Safe (s.nextCoordinate tz now floor) fun _ => True := by
  unfold nextCoordinate
  cases htrigger : s.trigger with
  | manual | registration | checkIn | once => exact trivial
  | interval _ seconds =>
    rw [htrigger] at h
    obtain ⟨-, hseconds⟩ := h
    have hmax : seconds.toNat < 2 ^ 32 := seconds.toNat_lt
    have hless : Safe ((I64.ofUInt32 seconds).sub ⟨1, by omega, by omega⟩ : Decision I64) _ :=
      I64.trap_safe ⟨by simp only [I64.ofUInt32_val]; omega, by simp only [I64.ofUInt32_val]; omega⟩
    apply Safe.bind hless
    intro less hlessEq
    simp only [I64.ofUInt32_val] at hlessEq
    apply Safe.bind (orMalformed_safe _)
    intro total htotal
    rw [I64.checkedAdd, I64.ofInt_eq_some] at htotal
    have hnonneg : 0 ≤ total.val := by
      rw [htotal]
      split
      · simp only
        omega
      · omega
    have hdiv : Safe (total.div (I64.ofUInt32 seconds) : Decision I64) _ :=
      I64.div_safe hnonneg (by simp only [I64.ofUInt32_val]; omega)
    apply Safe.bind hdiv
    intro count _
    apply Safe.bind (orMalformed_safe _)
    intro offset _
    apply Safe.bind (orMalformed_safe _)
    intro t _
    exact trivial
  | weekly _ weekday minute =>
    rw [htrigger] at h
    obtain ⟨hweekday, hminute⟩ := h
    apply Safe.bind (zoneOf_safe _)
    intro zone _
    apply Safe.bind (timestamp_safe _)
    intro _ _
    have hscan : Safe (scanDates tz zone weekday minute Date.tomorrow (fun t => t.val ≥ floor.val) 15
        (tz.dateOf zone floor)) _ :=
      scanDates_rule (by omega) (by omega) (fun _ _ _ _ _ => trivial) 15 trivial
    exact hscan.mono fun _ _ => trivial

theorem nextAfter_safe (s : Schedule) (now : I64) (identity : List UInt8) :
    Safe (s.nextAfter tz now identity) fun _ => True := by
  unfold nextAfter
  apply Safe.bind s.validate_safe
  intro _ hvalid
  split
  · exact trivial
  apply Safe.bind (s.due_safe _ now identity)
  intro current _
  split
  · exact trivial
  apply Safe.bind (orMalformed_safe _)
  intro following _
  apply Safe.bind (nextCoordinate_safe hvalid.trigger now _)
  intro coordinate _
  cases coordinate with
  | none => exact trivial
  | some t => exact (s.occurrence_safe t identity).mono fun _ _ => trivial

/-- A run of the scan cursor: each step evaluates `due` at some time, and an emitted coordinate
becomes the cursor of the next step. -/
def emitted (tz : TimeZones Zone) (s : Schedule) : I64 → List (I64 × List UInt8) → List I64
  | _, [] => []
  | after, (now, identity) :: steps =>
    match s.due tz after now identity with
    | .ok (some o) => o.coordinate :: emitted tz s o.coordinate steps
    | _ => emitted tz s after steps

theorem emitted_pairwise (s : Schedule) (after : I64) (steps : List (I64 × List UInt8)) :
    (after :: emitted tz s after steps).Pairwise fun a b => a.val < b.val := by
  induction steps generalizing after with
  | nil => simp [emitted]
  | cons step _ ih =>
    obtain ⟨now, identity⟩ := step
    rw [emitted]
    cases hdue : s.due tz after now identity with
    | error => exact ih after
    | ok found =>
      cases found with
      | none => exact ih after
      | some o =>
        obtain ⟨-, hafter, -, -, -⟩ := (s.due_safe after now identity).of_eq_ok hdue o rfl
        have hrest := ih o.coordinate
        refine List.pairwise_cons.mpr ⟨?_, hrest⟩
        intro c hc
        rcases List.mem_cons.mp hc with rfl | hc
        · exact hafter
        · exact Int.lt_trans hafter ((List.pairwise_cons.mp hrest).1 c hc)

/-- An evaluation that ends in a value or an error of its own. -/
def Returns {α : Type} (x : Decision α) : Prop := (∃ a, x = .ok a) ∨ ∃ e, x = .error (.error e)

end Schedule

/-- A due coordinate is the last one up to `now` exactly when the local date has not been set back
past it; cursors only move forward, and no evaluation traps. -/
theorem schedule_due_exact (hinc : StrictlyIncreasing tz) (s : Schedule) :
    (∀ after now identity o, s.due tz after now identity = .ok (some o) →
      (IsGreatest {c | c ∈ Coordinates tz s.trigger ∧ max (after.val + 1) s.notBefore.val ≤ c ∧
        c ≤ now.val} o.coordinate.val ↔ Settled tz now s.trigger) ∧
      o.coordinate.val ≤ now.val ∧ o.coordinate.val < s.endsAt.val) ∧
    (∀ after steps, (after :: s.emitted tz after steps).Pairwise fun a b => a.val < b.val) ∧
    (∀ after now coordinate identity,
      Schedule.Returns (s.validate tz) ∧ Schedule.Returns (s.due tz after now identity) ∧
        Schedule.Returns (s.nextAfter tz now identity) ∧
        Schedule.Returns (s.occurrence tz coordinate identity)) := by
  refine ⟨?_, s.emitted_pairwise, ?_⟩
  · intro after now identity o hdue
    obtain ⟨hbase, hafter, hlo, hnow, hend⟩ := (s.due_safe after now identity).of_eq_ok hdue o rfl
    have hrange : max (after.val + 1) s.notBefore.val ≤ o.coordinate.val :=
      max_le (by omega) hlo
    exact ⟨isGreatest_iff_settled hinc hbase hrange hnow, hnow, hend⟩
  · intro after now coordinate identity
    exact ⟨s.validate_safe.returns, (s.due_safe after now identity).returns,
      (s.nextAfter_safe now identity).returns, (s.occurrence_safe coordinate identity).returns⟩

def Date.ofDay (n : Int) : Date :=
  ⟨max (-4371587) (min n 2932896), by omega, by omega⟩

/-- The offset of America/St_Johns around 2010-11-07T02:31Z, when the clock went from 00:01 back to
23:01 of the day before. -/
def stJohnsOffset (t : Int) : Int := if t < 1289097060 then -9000 else -12600

def timestampInRange (t : I64) : Bool := -377705023201 ≤ t.val && t.val ≤ 253402207200

def stJohns : TimeZones Unit where
  get name := if name = "America/St_Johns" then some () else none
  inRange := timestampInRange
  dateOf _ t := Date.ofDay ((t.val + stJohnsOffset t.val) / 86400)
  resolve _ civil :=
    let wall := civil.date.day * 86400 + civil.hour * 3600 + civil.minute * 60
    .earlier ((I64.ofInt (if wall + 9000 < 1289097060 then wall + 9000 else wall + 12600)).filter
      timestampInRange)

theorem stJohns_instant {d : Date} {minute : Nat} {t : I64}
    (h : instantOf stJohns () d minute = some t) :
    t.val = if d.day * 86400 + minute * 60 + 9000 < 1289097060 then d.day * 86400 + minute * 60 + 9000
      else d.day * 86400 + minute * 60 + 12600 := by
  obtain ⟨civil, hcivil, hresolve⟩ := Option.bind_eq_some_iff.mp h
  obtain ⟨hval, -⟩ := Option.filter_eq_some_iff.mp hresolve
  rw [I64.ofInt_eq_some] at hval
  have hwall : civil.date.day * 86400 + civil.hour * 3600 + civil.minute * 60 =
      d.day * 86400 + minute * 60 := by
    unfold civilTime at hcivil
    split at hcivil
    · rename_i hlast
      obtain ⟨next, hnext, rfl⟩ := Option.map_eq_some_iff.mp hcivil
      unfold Date.tomorrow at hnext
      split at hnext
      · rw [← Option.some.inj hnext]
        simp only
        omega
      · cases hnext
    · rw [← Option.some.inj hcivil]
      simp only
      omega
  rw [hval, hwall]

theorem stJohns_strictlyIncreasing : StrictlyIncreasing stJohns := by
  intro zone d d' minute t t' hlt ht ht'
  rw [stJohns_instant ht, stJohns_instant ht']
  split <;> split <;> omega

def sundayMidnight : Schedule where
  trigger := .weekly "America/St_Johns" 7 0
  misfire := .coalesceOne
  notBefore := ⟨0, I64.zero_lo, I64.zero_hi⟩
  till := none
  jitterSeconds := 0
  window := none

/-- 2010-10-31T02:30Z, the local midnight of one week. -/
def octoberMidnight : I64 := ⟨1288492200, by omega, by omega⟩

/-- 2010-11-07T02:30Z, the local midnight one minute before the clock went back. -/
def novemberMidnight : I64 := ⟨1289097000, by omega, by omega⟩

/-- 2010-11-07T02:35Z, again 23:05 on Saturday. -/
def repeatedEvening : I64 := ⟨1289097300, by omega, by omega⟩

def beforeOctober : I64 := ⟨1288492199, by omega, by omega⟩

theorem november_is_coordinate : novemberMidnight.val ∈ Coordinates stJohns sundayMidnight.trigger :=
  ⟨(), Date.ofDay 14920, novemberMidnight, rfl, by decide, by decide, rfl⟩

/-- Five minutes after the November midnight, `due` returns the October one. -/
theorem due_misses_latest_after_midnight_fold :
    StrictlyIncreasing stJohns ∧
      sundayMidnight.due stJohns beforeOctober repeatedEvening [] =
        .ok (some ⟨octoberMidnight, octoberMidnight, none⟩) ∧
      ¬IsGreatest {c | c ∈ Coordinates stJohns sundayMidnight.trigger ∧
        max (beforeOctober.val + 1) sundayMidnight.notBefore.val ≤ c ∧ c ≤ repeatedEvening.val}
        octoberMidnight.val := by
  refine ⟨stJohns_strictlyIncreasing, by set_option maxRecDepth 4000 in decide, ?_⟩
  rintro ⟨-, hmax⟩
  have hle : novemberMidnight.val ≤ octoberMidnight.val :=
    hmax ⟨november_is_coordinate, by decide, by decide⟩
  exact absurd hle (by decide)

set_option maxRecDepth 4000 in
/-- At the November midnight itself the local date is settled and `due` returns it. -/
theorem schedule_due_exact_november :
    sundayMidnight.due stJohns beforeOctober novemberMidnight [] =
        .ok (some ⟨novemberMidnight, novemberMidnight, none⟩) ∧
      IsGreatest {c | c ∈ Coordinates stJohns sundayMidnight.trigger ∧
        max (beforeOctober.val + 1) sundayMidnight.notBefore.val ≤ c ∧ c ≤ novemberMidnight.val}
        novemberMidnight.val := by
  have hdue : sundayMidnight.due stJohns beforeOctober novemberMidnight [] =
      .ok (some ⟨novemberMidnight, novemberMidnight, none⟩) := by decide
  refine ⟨hdue, ?_⟩
  refine ((schedule_due_exact stJohns_strictlyIncreasing sundayMidnight).1 _ _ _ _ hdue).1.mpr ?_
  intro zone d t _ hlater _ hinstant
  have hdate : (stJohns.dateOf zone novemberMidnight).day = 14920 := rfl
  have ht := stJohns_instant hinstant
  have hval : novemberMidnight.val = 1289097000 := rfl
  rw [hdate] at hlater
  split at ht <;> omega

end RssMdm.Policy
