import Pypiron.KeyedMap
import Mathlib.Data.Fin.Basic
import Mathlib.Data.Fin.VecNotation
import Mathlib.Data.Fintype.Basic
import Mathlib.Data.Finset.Card

/-! The brute-force throttle on failed logins. Every wrong credential takes a
slot of its network's window before the request runs, and a slot that is let go
after a 401 is one failed login. The clock is in milliseconds. -/
namespace Pypiron.Throttle

def loginFailLimit : ℕ := 5

instance : NeZero loginFailLimit := ⟨by decide⟩

def loginThrottleCap : ℕ := 32 * 1024

def loginSweepIntervalMs : ℕ := 1000

/-- The largest `u64`, where `saturating_add` stops. -/
def u64Max : ℕ := 2 ^ 64 - 1

/-! ### Networks -/

inductive IpAddr where
  | v4 (bits : BitVec 32)
  | v6 (bits : BitVec 128)
  deriving DecidableEq

/-- A network and its prefix length. -/
abbrev ThrottleKey := IpAddr × ℕ

/-- `to_ipv4_mapped`: the address under `::ffff:0:0/96`. -/
def toIpv4Mapped (bits : BitVec 128) : Option (BitVec 32) :=
  if bits >>> 32 = 0xffff#128 then some (bits.setWidth 32) else none

def keyV4 (bits : BitVec 32) (len : ℕ) : ThrottleKey :=
  (.v4 (bits &&& (BitVec.allOnes 32 <<< (32 - len))), len)

def keyV6 (bits : BitVec 128) (len : ℕ) : ThrottleKey :=
  (.v6 (bits &&& (BitVec.allOnes 128 <<< (128 - len))), len)

scoped instance tiers_neZero : NeZero 3 := ⟨by decide⟩

def prefixesV4 : Fin 3 → ℕ := ![32, 24, 16]

def prefixesV6 : Fin 3 → ℕ := ![64, 48, 32]

/-- The networks that failures are counted against, most specific first. -/
def throttleKeys : IpAddr → Fin 3 → ThrottleKey
  | .v4 bits => fun tier => keyV4 bits (prefixesV4 tier)
  | .v6 bits =>
    match toIpv4Mapped bits with
    | some mapped => fun tier => keyV4 mapped (prefixesV4 tier)
    | none => fun tier => keyV6 bits (prefixesV6 tier)

/-! ### Windows -/

/-- One wrong credential in flight; `refs = 0` marks the slot free. The source counts in
`u32`, which fewer than 2^32 unfinished attempts do not fill (`logins_refs_le`). -/
structure Pending where
  fp : UInt64
  refs : ℕ
  failed : Bool
  deriving DecidableEq

structure FailWindow where
  count : ℕ
  lastMs : ℕ
  blockedUntilMs : ℕ
  pending : Fin loginFailLimit → Pending

namespace FailWindow

/-- `FailWindow::default`. -/
def empty : FailWindow := ⟨0, 0, 0, fun _ => ⟨0, 0, false⟩⟩

def occupied (w : FailWindow) : Finset (Fin loginFailLimit) :=
  Finset.univ.filter fun i => 0 < (w.pending i).refs

def inFlight (w : FailWindow) : ℕ := w.occupied.card

/-- Holds a lockout or an unfinished attempt. -/
def live (w : FailWindow) (nowMs : ℕ) : Bool := nowMs < w.blockedUntilMs || 0 < w.inFlight

def slotOf (w : FailWindow) (fp : UInt64) : Option (Fin loginFailLimit) :=
  Fin.find? fun i => 0 < (w.pending i).refs && (w.pending i).fp = fp

def freeSlot (w : FailWindow) : Option (Fin loginFailLimit) :=
  Fin.find? fun i => (w.pending i).refs = 0

def setPending (w : FailWindow) (i : Fin loginFailLimit) (p : Pending) : FailWindow :=
  { w with pending := Function.update w.pending i p }

def reserve (w : FailWindow) (i : Fin loginFailLimit) (fp : UInt64) : FailWindow :=
  w.setPending i ⟨fp, 1, false⟩

def share (w : FailWindow) (i : Fin loginFailLimit) : FailWindow :=
  w.setPending i ⟨(w.pending i).fp, (w.pending i).refs + 1, (w.pending i).failed⟩

def letGo (w : FailWindow) (i : Fin loginFailLimit) (failed : Bool) : FailWindow :=
  w.setPending i ⟨(w.pending i).fp, (w.pending i).refs - 1, (w.pending i).failed || failed⟩

/-- Failures further apart than the cooldown never accumulate. -/
def decayed (w : FailWindow) (cooldownMs nowMs : ℕ) : Bool := cooldownMs ≤ nowMs - w.lastMs

def decay (w : FailWindow) (cooldownMs nowMs : ℕ) : FailWindow :=
  if w.decayed cooldownMs nowMs then { w with count := 0 } else w

/-- One failed login. -/
def charge (w : FailWindow) (cooldownMs nowMs : ℕ) : FailWindow :=
  let count := (w.decay cooldownMs nowMs).count + 1
  if loginFailLimit ≤ count then
    { w with count := 0, lastMs := nowMs, blockedUntilMs := min (nowMs + cooldownMs) u64Max }
  else { w with count := count, lastMs := nowMs }

end FailWindow

/-! ### The throttle -/

structure ThrottleTable where
  map : KeyedMap ThrottleKey FailWindow
  sweptMs : ℕ

namespace ThrottleTable

/-- `ThrottleTable::default`. -/
def empty : ThrottleTable := ⟨∅, 0⟩

def set (table : ThrottleTable) (key : ThrottleKey) (w : FailWindow) : ThrottleTable :=
  { table with map := table.map.insert key w }

def remove (table : ThrottleTable) (key : ThrottleKey) : ThrottleTable :=
  { table with map := table.map.erase key }

def full (table : ThrottleTable) : Bool := loginThrottleCap ≤ table.map.len

/-- What a sweep keeps: lockouts and attempts in flight always, recent history
unless the map is full. -/
def sweepKeeps (full : Bool) (cooldownMs nowMs : ℕ) (w : FailWindow) : Bool :=
  w.live nowMs || (!full && !w.decayed cooldownMs nowMs)

/-- A crowded map is swept at most once an interval. -/
def sweep (table : ThrottleTable) (cooldownMs nowMs : ℕ) : ThrottleTable :=
  if loginThrottleCap / 2 ≤ table.map.len && loginSweepIntervalMs ≤ nowMs - table.sweptMs then
    ⟨table.map.retain fun _ => sweepKeeps table.full cooldownMs nowMs, nowMs⟩
  else table

/-- The network an untracked address is counted against; none once the map is full. -/
def tierFor (table : ThrottleTable) (keys : Fin 3 → ThrottleKey) : Option ThrottleKey :=
  match table.map.len * 4 / loginThrottleCap with
  | 0 | 1 => some (keys 0)
  | 2 => some (keys 1)
  | 3 => some (keys 2)
  | _ => none

/-- The most specific network already tracked. -/
def countedUnder (table : ThrottleTable) (ip : IpAddr) : Option ThrottleKey :=
  [throttleKeys ip 0, throttleKeys ip 1, throttleKeys ip 2].find? (· ∈ table.map)

end ThrottleTable

def divCeil (a b : ℕ) : ℕ := (a + b - 1) / b

abbrev Admission := Except ℕ ThrottleKey

/-- Admission of an address of which no network is tracked. -/
def admitUntracked (cooldownMs : ℕ) (table : ThrottleTable) (keys : Fin 3 → ThrottleKey)
    (guess : Option UInt64) (nowMs : ℕ) : Admission × ThrottleTable :=
  let table := table.sweep cooldownMs nowMs
  match table.tierFor keys with
  | none => (.error (divCeil cooldownMs 1000), table)
  | some key =>
    match guess with
    | some fp => (.ok key, table.set key (FailWindow.empty.reserve 0 fp))
    | none => (.ok key, table)

/-- A full budget refuses right and wrong alike. -/
def admitBudgeted (table : ThrottleTable) (key : ThrottleKey) (w : FailWindow) (decayed : Bool)
    (guess : Option UInt64) (nowMs : ℕ) : Admission × ThrottleTable :=
  if loginFailLimit ≤ w.count + w.inFlight then (.error 1, table.set key w)
  else
    match guess with
    | some fp =>
      match w.freeSlot with
      | some i => (.ok key, table.set key (w.reserve i fp))
      | none => (.ok key, table.set key w)
    | none =>
      -- fully decayed and idle: the entry is dropped
      if decayed && !w.live nowMs then (.ok key, table.remove key) else (.ok key, table.set key w)

/-- Admission under a tracked network. A wrong credential that is in flight
already shares its slot. -/
def admitTracked (cooldownMs : ℕ) (table : ThrottleTable) (key : ThrottleKey) (w : FailWindow)
    (guess : Option UInt64) (nowMs : ℕ) : Admission × ThrottleTable :=
  if nowMs < w.blockedUntilMs then (.error (divCeil (w.blockedUntilMs - nowMs) 1000), table)
  else
    let decayed := w.decayed cooldownMs nowMs
    let w := w.decay cooldownMs nowMs
    match guess.bind w.slotOf with
    | some i => (.ok key, table.set key (w.share i))
    | none => admitBudgeted table key w decayed guess nowMs

/-- `LoginThrottle::admit_at`. A cooldown of zero disables the throttle. -/
def admitAt (cooldownMs : ℕ) (table : ThrottleTable) (ip : IpAddr) (guess : Option UInt64)
    (nowMs : ℕ) : Admission × ThrottleTable :=
  if cooldownMs = 0 then (.ok (throttleKeys ip 0), table)
  else
    match table.countedUnder ip with
    | none => admitUntracked cooldownMs table (throttleKeys ip) guess nowMs
    | some key =>
      match table.map.lookup key with
      | none => (.ok key, table)
      | some w => admitTracked cooldownMs table key w guess nowMs

/-- `LoginThrottle::release_at`. The last one to let go of a slot that has
failed makes it one failed login. -/
def releaseAt (cooldownMs : ℕ) (table : ThrottleTable) (key : ThrottleKey) (fp : UInt64)
    (failed : Bool) (nowMs : ℕ) : ThrottleTable :=
  match table.map.lookup key with
  | none => table
  | some w =>
    match w.slotOf fp with
    | none => table
    | some i =>
      let w := w.letGo i failed
      if 0 < (w.pending i).refs || !(w.pending i).failed then table.set key w
      else table.set key (w.charge cooldownMs nowMs)

/-! ### Attempts -/

/-- An admitted request; a right credential carries no guess. -/
structure LoginAttempt where
  key : ThrottleKey
  guess : Option UInt64
  deriving DecidableEq

structure Logins where
  table : ThrottleTable
  attempts : List LoginAttempt

inductive LoginCall where
  | attempt (ip : IpAddr) (guess : Option UInt64) (nowMs : ℕ)
  | finish (attempt : LoginAttempt) (failed : Bool) (nowMs : ℕ)

def LoginCall.nowMs : LoginCall → ℕ
  | attempt _ _ nowMs => nowMs
  | finish _ _ nowMs => nowMs

/-- An attempt is finished once; the drop of one without a guess does nothing. -/
def Logins.step (cooldownMs : ℕ) (s : Logins) : LoginCall → Logins
  | .attempt ip guess nowMs =>
    match admitAt cooldownMs s.table ip guess nowMs with
    | (.ok key, table) => ⟨table, ⟨key, guess⟩ :: s.attempts⟩
    | (.error _, table) => ⟨table, s.attempts⟩
  | .finish attempt failed nowMs =>
    if attempt ∈ s.attempts then
      match attempt.guess with
      | some fp => ⟨releaseAt cooldownMs s.table attempt.key fp failed nowMs, s.attempts.erase attempt⟩
      | none => ⟨s.table, s.attempts.erase attempt⟩
    else s

/-- The state before the `n`-th call. -/
def logins (cooldownMs : ℕ) (calls : ℕ → LoginCall) : ℕ → Logins
  | 0 => ⟨.empty, []⟩
  | n + 1 => (logins cooldownMs calls n).step cooldownMs (calls n)

end Pypiron.Throttle
