import Mathlib.Algebra.GroupWithZero.Nat
import Pypiron.Durations

/-! The time bounds of a mirror: how a cutoff is read, and what evaluates it against
the clock. Instants are nanoseconds since 1970. The date library panics where a
duration does not fit 64 bits of seconds or a date leaves its range. -/
namespace Pypiron.Cutoffs
open Pypiron.Durations

inductive Panic where
  | durationOverflow
  | dateOutOfRange
  deriving DecidableEq

def nanosPerSecond : ℤ := 1000000000

/-- The first representable instant, at the start of the year -9999. -/
def minInstant : ℤ := -377705116800 * nanosPerSecond

/-- The last instant of the year 9999. -/
def maxInstant : ℤ := 253402300800 * nanosPerSecond - 1

/-- `OffsetDateTime - Duration`. -/
def subSeconds (instant : ℤ) (seconds : ℕ) : Except Panic ℤ :=
  if minInstant ≤ instant - seconds * nanosPerSecond then .ok (instant - seconds * nanosPerSecond)
  else .error .dateOutOfRange

/-- `Duration::days`. -/
def durationDays (days : ℕ) : Except Panic ℕ :=
  match checked (days * 86400) with
  | some seconds => .ok seconds
  | none => .error .durationOverflow

inductive Cutoff where
  | at_ (instant : ℤ)
  | ago (seconds : ℕ)
  deriving DecidableEq

def Cutoff.instant (now : ℤ) : Cutoff → Except Panic ℤ
  | .at_ instant => .ok instant
  | .ago seconds => subSeconds now seconds

/-- How the date library reads a timestamp and a bare date. -/
structure Timestamps where
  rfc3339 : String → Option ℤ
  bareDate : String → Option ℤ

/-- Digits with no sign, as `str::parse::<i64>` reads them. -/
def unsignedI64 (digits : List Char) (limit : ℕ) : Option ℕ :=
  if digits ≠ [] ∧ digits.all Char.isDigit ∧ count digits ≤ limit then some (count digits) else none

/-- `str::parse::<i64>`. -/
def parseI64 (text : String) : Option ℤ :=
  match text.toList with
  | [] => none
  | sign :: digits =>
    if sign = '+' then (unsignedI64 digits i64Max).map Int.ofNat
    else if sign = '-' then (unsignedI64 digits (i64Max + 1)).map fun n => -Int.ofNat n
    else (unsignedI64 (sign :: digits) i64Max).map Int.ofNat

def invalidCutoff (what value : String) : String :=
  what ++ " '" ++ value ++ "' is not a valid cutoff: use an RFC 3339 timestamp " ++
    "(e.g. 2026-01-01T00:00:00Z), a bare date (e.g. 2008-12-03), a number of days ago " ++
    "(e.g. 7), a friendly duration (e.g. \"30 days\", \"24 hours\", \"1 week\"), or an " ++
    "ISO 8601 duration (e.g. P30D, PT24H). Calendar months and years are not allowed."

variable (read : Timestamps)

def parseCutoff (what : String) (value : Option String) :
    Except Panic (Except String (Option Cutoff)) :=
  match (value.map trim).filter (· ≠ "") with
  | none => .ok (.ok none)
  | some value =>
    match read.rfc3339 value with
    | some instant => .ok (.ok (some (.at_ instant)))
    | none =>
      match read.bareDate value with
      | some instant => .ok (.ok (some (.at_ instant)))
      | none =>
        match (parseI64 value).filter (0 ≤ ·) with
        | some days => (durationDays days.toNat).map fun seconds => .ok (some (.ago seconds))
        | none =>
          match parseDurationSecs value with
          | some seconds => .ok (.ok (some (.ago seconds)))
          | none => .ok (.error (invalidCutoff what value))

/-! ### Evaluations -/

/-- A file of a listing. The gates before those on its upload time, and after them,
are taken as settled. -/
structure SimpleFile where
  uploadTime : Option String
  keptBefore : Bool
  keptAfter : Bool

structure ResolvedMirror where
  excludeNewer : Option Cutoff
  excludeOlder : Option Cutoff
  fixesSkipCooldown : Bool

structure Lift where
  newer : Bool := false
  fix : Bool := false

def ResolvedMirror.fixLiftsCooldown (m : ResolvedMirror) : Bool :=
  m.fixesSkipCooldown && match m.excludeNewer with
    | some (.ago _) => true
    | _ => false

/-- Whether there is a cutoff and its instant passes the test. -/
def cutoffAnd (cutoff : Option Cutoff) (now : ℤ) (test : ℤ → Bool) : Except Panic Bool :=
  match cutoff with
  | none => .ok false
  | some cutoff => (cutoff.instant now).map test

/-- The clock is read once for each bound. -/
def matchesMirrorInner (file : SimpleFile) (m : ResolvedMirror) (lift : Lift) (now later : ℤ) :
    Except Panic Bool :=
  if !file.keptBefore then .ok false
  else
    let newer := if lift.newer || (lift.fix && m.fixLiftsCooldown) then none else m.excludeNewer
    if newer.isSome || m.excludeOlder.isSome then
      match file.uploadTime.bind read.rfc3339 with
      | none => .ok file.keptAfter
      | some uploaded => do
        let tooNew ← cutoffAnd newer now (· ≤ uploaded)
        if tooNew then .ok false
        else do
          let tooOld ← cutoffAnd m.excludeOlder later (uploaded < ·)
          if tooOld then .ok false else .ok file.keptAfter
    else .ok file.keptAfter

def heldBackByNewer (file : SimpleFile) (m : ResolvedMirror) (now later : ℤ) :
    Except Panic (Option ℤ) :=
  match m.excludeNewer, file.uploadTime.bind read.rfc3339 with
  | some cutoff, some uploaded => do
    let instant ← cutoff.instant now
    if uploaded < instant then .ok none
    else do
      let eligible ← matchesMirrorInner read file m { newer := true } later later
      .ok (if eligible then some uploaded else none)
  | _, _ => .ok none

/-- The advisories, where they are loaded, answer whether a fix of the package
settled since an instant. -/
def recentFix (fixSince : Option (ℤ → Bool)) (m : ResolvedMirror) (now : ℤ) : Except Panic Bool :=
  match fixSince, m.excludeNewer with
  | some fixSince, some (.ago window) =>
    if m.fixesSkipCooldown then (subSeconds now window).map fixSince else .ok false
  | _, _ => .ok false

/-! ### What does not panic -/

/-- The evaluation returns, and does not panic. -/
def Returns (outcome : Except Panic α) : Prop := ∃ value, outcome = .ok value

theorem Returns.map {outcome : Except Panic α} (returns : Returns outcome) (f : α → β) :
    Returns (outcome.map f) := by
  obtain ⟨value, rfl⟩ := returns
  exact ⟨f value, rfl⟩

theorem Returns.bind {outcome : Except Panic α} {next : α → Except Panic β}
    (returns : Returns outcome) (then_ : ∀ value, Returns (next value)) :
    Returns (outcome >>= next) := by
  obtain ⟨value, rfl⟩ := returns
  exact then_ value

theorem returns_ite {test : Prop} [Decidable test] {a b : Except Panic α} (first : Returns a)
    (second : Returns b) : Returns (if test then a else b) := by
  split
  · exact first
  · exact second

/-- Whatever the clock shows, the cutoff has an instant. -/
def Cutoff.Steady (readings : ℕ → ℤ) (cutoff : Cutoff) : Prop :=
  ∀ i, Returns (cutoff.instant (readings i))

/-- Whatever the clock shows, no evaluation of the mirror's bounds panics. -/
structure ResolvedMirror.Steady (readings : ℕ → ℤ) (m : ResolvedMirror) : Prop where
  filter : ∀ file lift i j, Returns (matchesMirrorInner read file m lift (readings i) (readings j))
  watermark : ∀ file i j, Returns (heldBackByNewer read file m (readings i) (readings j))
  fix : ∀ fixSince i, Returns (recentFix fixSince m (readings i))

variable {read} {readings : ℕ → ℤ}

theorem returns_cutoffAnd {cutoff : Option Cutoff}
    (steady : ∀ c, cutoff = some c → c.Steady readings) (i : ℕ) (test : ℤ → Bool) :
    Returns (cutoffAnd cutoff (readings i) test) := by
  cases cutoff with
  | none => exact ⟨false, rfl⟩
  | some cutoff => exact (steady cutoff rfl i).map test

theorem returns_matchesMirrorInner {m : ResolvedMirror}
    (newer : ∀ c, m.excludeNewer = some c → c.Steady readings)
    (older : ∀ c, m.excludeOlder = some c → c.Steady readings) (file : SimpleFile) (lift : Lift)
    (i j : ℕ) : Returns (matchesMirrorInner read file m lift (readings i) (readings j)) := by
  have kept (keep : Bool) : Returns (.ok keep : Except Panic Bool) := ⟨keep, rfl⟩
  have bound : ∀ c, (if lift.newer || (lift.fix && m.fixLiftsCooldown) then none
      else m.excludeNewer) = some c → c.Steady readings := by
    intro c found
    split at found
    · cases found
    · exact newer c found
  unfold matchesMirrorInner
  refine returns_ite (kept _) (returns_ite ?_ (kept _))
  cases file.uploadTime.bind read.rfc3339 with
  | none => exact kept _
  | some uploaded =>
    refine (returns_cutoffAnd bound i _).bind fun tooNew => returns_ite (kept _) ?_
    exact (returns_cutoffAnd older j _).bind fun tooOld => returns_ite (kept _) (kept _)

/-- A mirror of steady bounds is steady. -/
theorem ResolvedMirror.steady_of_cutoffs {m : ResolvedMirror}
    (newer : ∀ c, m.excludeNewer = some c → c.Steady readings)
    (older : ∀ c, m.excludeOlder = some c → c.Steady readings) : m.Steady read readings where
  filter := returns_matchesMirrorInner newer older
  watermark file i j := by
    unfold heldBackByNewer
    split
    · rename_i cutoff uploaded found _
      refine (newer cutoff found i).bind fun instant => returns_ite ⟨none, rfl⟩ ?_
      exact (returns_matchesMirrorInner newer older file _ j j).bind fun eligible => ⟨_, rfl⟩
    · exact ⟨none, rfl⟩
  fix fixSince i := by
    unfold recentFix
    split
    · rename_i window found
      exact returns_ite ((newer _ found i).map _) ⟨false, rfl⟩
    · exact ⟨false, rfl⟩

/-- The value is accepted or refused without a panic, and if it is accepted, so is
every evaluation of its cutoff, also beside another steady bound. -/
def Safe (read : Timestamps) (readings : ℕ → ℤ) (what : String) (value : Option String) : Prop :=
  ∃ parsed, parseCutoff read what value = .ok parsed ∧ ∀ cutoff, parsed = .ok (some cutoff) →
    cutoff.Steady readings ∧ ∀ m : ResolvedMirror,
      (∀ c, m.excludeNewer = some c ∨ m.excludeOlder = some c → c = cutoff ∨ c.Steady readings) →
        m.Steady read readings

/-- How far back the text of a value reaches from the clock, in seconds of any
number: a count of days, or a duration. -/
def secondsBack (read : Timestamps) (value : Option String) : Option ℕ :=
  (value.map trim).bind fun value =>
    if (read.rfc3339 value).isSome ∨ (read.bareDate value).isSome then none
    else match (parseI64 value).filter (0 ≤ ·) with
      | some days => some (days.toNat * 86400)
      | none => parseDurationSecs value

theorem parseCutoff_pinned {what : String} {value : Option String}
    (unreached : secondsBack read value = none) :
    ∃ parsed, parseCutoff read what value = .ok parsed ∧
      ∀ cutoff, parsed = .ok (some cutoff) → ∃ instant, cutoff = .at_ instant := by
  have pinned (instant : ℤ) : ∃ parsed, (.ok (.ok (some (.at_ instant))) :
      Except Panic (Except String (Option Cutoff))) = .ok parsed ∧
      ∀ cutoff, parsed = .ok (some cutoff) → ∃ instant, cutoff = .at_ instant := by
    refine ⟨_, rfl, fun cutoff accepted => ?_⟩
    cases accepted
    exact ⟨instant, rfl⟩
  unfold parseCutoff
  split
  · exact ⟨_, rfl, fun cutoff accepted => by cases accepted⟩
  · rename_i text trimmed
    have held := (Option.filter_eq_some_iff.mp trimmed).1
    rw [secondsBack, held, Option.bind_some] at unreached
    split
    · exact pinned _
    · rename_i untimed
      split
      · exact pinned _
      · rename_i undated
        rw [if_neg (by simp [untimed, undated])] at unreached
        split
        · rename_i days counted
          rw [counted] at unreached
          cases unreached
        · rename_i uncounted
          rw [uncounted] at unreached
          dsimp only at unreached
          rw [unreached]
          exact ⟨_, rfl, fun cutoff accepted => by cases accepted⟩

theorem parseCutoff_reaching {what : String} {value : Option String} {seconds : ℕ}
    (reaches : secondsBack read value = some seconds) :
    seconds ≤ i64Max ∧ parseCutoff read what value = .ok (.ok (some (.ago seconds))) ∨
      i64Max < seconds ∧ parseCutoff read what value = .error .durationOverflow := by
  obtain ⟨text, held, reaches⟩ := Option.bind_eq_some_iff.mp reaches
  split at reaches
  · cases reaches
  · rename_i unpinned
    simp only [not_or, Option.not_isSome_iff_eq_none] at unpinned
    have nonempty : text ≠ "" := by
      rintro rfl
      cases reaches
    have trimmed : (value.map trim).filter (· ≠ "") = some text :=
      Option.filter_eq_some_iff.mpr ⟨held, by simpa using nonempty⟩
    rw [parseCutoff, trimmed]
    dsimp only
    rw [unpinned.1, unpinned.2]
    dsimp only
    split at reaches
    · rename_i days counted
      cases reaches
      rw [durationDays]
      by_cases fits : days.toNat * 86400 ≤ i64Max
      · rw [checked_of_le fits]
        exact .inl ⟨fits, rfl⟩
      · rw [checked_of_lt (not_le.mp fits)]
        exact .inr ⟨not_le.mp fits, rfl⟩
    · rename_i uncounted
      rw [reaches]
      exact .inl ⟨parseDurationSecs_le reaches, rfl⟩

theorem returns_subSeconds {instant : ℤ} {seconds : ℕ} :
    Returns (subSeconds instant seconds) ↔ minInstant ≤ instant - seconds * nanosPerSecond := by
  unfold subSeconds
  constructor
  · rintro ⟨value, returned⟩
    split at returned
    · assumption
    · cases returned
  · intro inside
    rw [if_pos inside]
    exact ⟨_, rfl⟩

/-- A value is safe exactly when the seconds it reaches back, where it names any, stay
within the representable dates from every reading of the clock. -/
theorem cutoff_safe_iff (read : Timestamps) (readings : ℕ → ℤ)
    (clock : ∀ i, 0 ≤ readings i ∧ readings i ≤ maxInstant) (what : String) (value : Option String) :
    Safe read readings what value ↔ ∀ seconds, secondsBack read value = some seconds →
      ∀ i, minInstant ≤ readings i - seconds * nanosPerSecond := by
  constructor
  · rintro ⟨parsed, returned, accepts⟩ seconds reaches i
    obtain ⟨-, accepted⟩ | ⟨-, panics⟩ := parseCutoff_reaching reaches
    · cases accepted.symm.trans returned
      exact returns_subSeconds.mp ((accepts _ rfl).1 i)
    · cases panics.symm.trans returned
  · intro inside
    have mirrors {cutoff : Cutoff} (steady : cutoff.Steady readings) :
        cutoff.Steady readings ∧ ∀ m : ResolvedMirror,
          (∀ c, m.excludeNewer = some c ∨ m.excludeOlder = some c → c = cutoff ∨ c.Steady readings) →
            m.Steady read readings := by
      refine ⟨steady, fun m bounds => ResolvedMirror.steady_of_cutoffs (fun c found => ?_)
        fun c found => ?_⟩
      · obtain rfl | other := bounds c (.inl found)
        · exact steady
        · exact other
      · obtain rfl | other := bounds c (.inr found)
        · exact steady
        · exact other
    cases reaches : secondsBack read value with
    | none =>
      obtain ⟨parsed, returned, pinned⟩ := parseCutoff_pinned reaches
      refine ⟨parsed, returned, fun cutoff accepted => mirrors ?_⟩
      obtain ⟨instant, rfl⟩ := pinned cutoff accepted
      exact fun i => ⟨instant, rfl⟩
    | some seconds =>
      have fits : seconds ≤ i64Max := by
        have back := inside seconds reaches 0
        have shown := (clock 0).2
        simp only [minInstant, maxInstant, nanosPerSecond, i64Max] at back shown ⊢
        omega
      obtain ⟨-, accepted⟩ | ⟨large, -⟩ := parseCutoff_reaching reaches
      · refine ⟨_, accepted, fun cutoff same => mirrors ?_⟩
        cases same
        exact fun i => returns_subSeconds.mpr (inside seconds reaches i)
      · exact absurd fits (not_le.mpr large)

section Samples

/-- The date library reads none of the samples. -/
def undated : Timestamps := ⟨fun _ => none, fun _ => none⟩

/-- The start of 2024. -/
def newYear : ℤ := 1704067200 * nanosPerSecond

theorem thirtyDays_safe : Safe undated (fun _ => newYear) "exclude-newer" (some " 30 days") := by
  refine (cutoff_safe_iff undated (fun _ => newYear) (fun _ => by decide) _ _).mpr ?_
  intro seconds reaches i
  have days : secondsBack undated (some " 30 days") = some 2592000 := by decide +kernel
  cases days.symm.trans reaches
  decide

/-- A count of days is accepted whose instant lies before the first date, and a larger
one panics while it is read. -/
theorem dayCounts_panic :
    parseCutoff undated "exclude-newer" (some "5000000") = .ok (.ok (some (.ago 432000000000))) ∧
      (Cutoff.ago 432000000000).instant newYear = .error .dateOutOfRange ∧
      parseCutoff undated "exclude-newer" (some "9223372036854775807") = .error .durationOverflow ∧
      ¬∀ read readings what value, (∀ i, 0 ≤ readings i ∧ readings i ≤ maxInstant) →
        Safe read readings what value := by
  have accepted : parseCutoff undated "exclude-newer" (some "5000000") =
      .ok (.ok (some (.ago 432000000000))) := by decide +kernel
  have panics : (Cutoff.ago 432000000000).instant newYear = .error .dateOutOfRange := by decide +kernel
  refine ⟨accepted, panics, by decide +kernel, fun safe => ?_⟩
  obtain ⟨parsed, returned, accepts⟩ :=
    safe undated (fun _ => newYear) "exclude-newer" (some "5000000") fun _ => by decide
  cases accepted.symm.trans returned
  obtain ⟨instant, returned⟩ := (accepts _ rfl).1 0
  cases panics.symm.trans returned

end Samples

end Pypiron.Cutoffs
