import Mathlib.Order.Basic
import Pypiron.KeyedMap

/-! The malware probe of one node. A cycle reads the list of modified advisories
from its newest line down to a floor, reads each malware advisory above it, and
overlays their rules on the loaded snapshot; a reload of the snapshot clears
the overlay. -/
namespace Pypiron.MalwareProbe
open KeyedMap

/-! ### Advisories -/

/-- A block rule and the advisory that contributed it. -/
structure MalRule (σ : Type) where
  id : String
  scope : σ
  deriving DecidableEq

/-- An advisory with its PyPI clauses, each a package and the versions it covers. -/
structure Advisory (σ : Type) where
  id : String
  withdrawn : Bool
  clauses : List (String × σ)

def maxIdBytes : ℕ := 128

def usableId (id : String) : Bool := id ≠ "" && id.utf8ByteSize ≤ maxIdBytes

def isMal (id : String) : Bool := "MAL-".toList.isPrefixOf id.toList

/-- Whether an id is safe in the path of a URL. -/
def isProbeAdvisoryId (id : String) : Bool :=
  id ≠ "" && id.toList.head? ≠ some '.' &&
    id.toList.all fun c => c.isAlphanum || "-._".toList.contains c

variable {σ : Type}

/-- The block rules of an advisory, each under the package it names. -/
def malRules (adv : Advisory σ) : List (String × MalRule σ) :=
  if adv.withdrawn || !usableId adv.id || !isMal adv.id then []
  else adv.clauses.map fun clause => (clause.1, ⟨adv.id, clause.2⟩)

abbrev Overlay (σ : Type) := String → List (MalRule σ)

/-- Drop the rules of every advisory that is re-applied or withdrawn, then add
the new ones. -/
def mergeOverlay (overlay : Overlay σ) (added : List (String × MalRule σ))
    (withdrawn : List String) : Overlay σ :=
  let stale := fun id => withdrawn.contains id || added.any fun entry => entry.2.id == id
  fun name => (overlay name).filter (fun rule => !stale rule.id) ++
    (added.filter fun entry => entry.1 == name).map Prod.snd

/-! ### The list of modified advisories -/

/-- A line of the CSV: when an advisory was last modified, and the line's size. -/
structure Line where
  modified : ℕ
  id : String
  bytes : ℕ
  deriving DecidableEq

/-- The feed: its CSV, newest first, and the records it lists. -/
structure Upstream (σ : Type) where
  csv : List Line
  records : String → Advisory σ
  latest : ℕ
  version : ℕ

/-- A modification later than every one before it moves its line to the front. -/
def Upstream.modify (ts : ℕ) (id : String) (withdrawn : Bool) (clauses : List (String × σ))
    (bytes : ℕ) (up : Upstream σ) : Upstream σ :=
  if up.latest < ts then
    { csv := ⟨ts, id, bytes⟩ :: up.csv.filter fun line => line.id ≠ id
      records := fun other => if other = id then ⟨id, withdrawn, clauses⟩ else up.records other
      latest := ts
      version := up.version + 1 }
  else up

structure CsvScan where
  freshMal : List (ℕ × String)
  maxModified : Option ℕ
  complete : Bool
  deriving DecidableEq

/-- A time past the horizon is not believed. -/
def advanceWatermark (horizon : ℕ) (current : Option ℕ) (ts : ℕ) : Option ℕ :=
  if ts ≤ horizon ∧ current.all (· < ts) then some ts else current

/-- The whole lines among the first bytes. -/
def headLines : ℕ → List Line → List Line
  | _, [] => []
  | range, line :: rest =>
    if line.bytes ≤ range then line :: headLines (range - line.bytes) rest else []

/-- A ranged read: its whole lines, and whether it came short of the range. -/
def fetchCsv (range : ℕ) (csv : List Line) : List Line × Bool :=
  if (csv.map Line.bytes).sum < range then (csv, true) else (headLines range csv, false)

/-- Scan down to the first line at or below the watermark. -/
def scanLines (watermark horizon : ℕ) : List Line → CsvScan → CsvScan
  | [], scan => scan
  | line :: rest, scan =>
    if line.modified ≤ watermark then { scan with complete := true }
    else scanLines watermark horizon rest
      { scan with
        freshMal := if isProbeAdvisoryId line.id && isMal line.id then
          scan.freshMal ++ [(line.modified, line.id)] else scan.freshMal
        maxModified := advanceWatermark horizon scan.maxModified line.modified }

def parseCsvHead (csv : List Line) (watermark range horizon : ℕ) : CsvScan :=
  let fetched := fetchCsv range csv
  scanLines watermark horizon fetched.1 ⟨[], none, fetched.2⟩

/-! ### State -/

structure Snapshot (σ : Type) where
  watermark : Option ℕ
  blocks : String → List (MalRule σ)

/-- The loaded snapshot, named by its hash, and the overlay on it. -/
structure Slot (σ : Type) where
  zipSha256 : Option String
  overlay : Overlay σ

structure ProbeMemo where
  alignedSha : Option String
  watermark : Option ℕ
  csvEtag : Option ℕ
  malRetries : KeyedMap String ℕ

structure ProbeDelta (σ : Type) where
  added : List (String × MalRule σ)
  withdrawn : List String

def ProbeDelta.isEmpty (delta : ProbeDelta σ) : Bool :=
  delta.added.isEmpty && delta.withdrawn.isEmpty

def probeMalFetchAttempts : ℕ := 5

/-- Count a failed read; an id whose attempts are spent leaves the retries. -/
def noteMalFailure (retries : KeyedMap String ℕ) (id : String) : KeyedMap String ℕ :=
  let attempts := (retries.lookup id).getD 0 + 1
  if attempts < probeMalFetchAttempts then retries.insert id attempts else retries.erase id

def probeCsvStartBytes : ℕ := 4096

def maxFeedBytes : ℕ := 256 * 1024 * 1024

/-- How far a cycle is. -/
inductive Phase (σ : Type) where
  | idle
  | walking (sha : String) (conditional : Option ℕ) (range : ℕ)
  | reading (sha : String) (scan : CsvScan) (etag : Option ℕ) (pending : List String)
      (delta : ProbeDelta σ) (readAny outage : Bool)
  | applied (scan : CsvScan) (etag : Option ℕ) (readAny outage : Bool)

structure State (σ : Type) where
  upstream : Upstream σ
  slot : Slot σ
  memo : ProbeMemo
  phase : Phase σ

/-- How a cycle ends: whether one ran, or an error. -/
inductive CycleResult where
  | ok (ran : Bool)
  | error
  deriving DecidableEq

inductive CsvAnswer where
  | failed
  | answered (honoured tagged : Bool) (horizon : ℕ)

inductive AdvisoryAnswer where
  | unavailable
  | unreadable
  | read

/-- What happens upstream and to the loaded snapshot, and the steps of a cycle. -/
inductive Event (σ : Type) where
  | modify (ts : ℕ) (id : String) (withdrawn : Bool) (clauses : List (String × σ)) (bytes : ℕ)
  | reload (sha : String)
  | begin
  | csv (answer : CsvAnswer)
  | advisory (answer : AdvisoryAnswer)
  | apply
  | finish

/-! ### Steps -/

/-- The same bytes swap nothing in. -/
def Slot.reload (sha : String) (slot : Slot σ) : Slot σ :=
  if slot.zipSha256 = some sha then slot else ⟨some sha, fun _ => []⟩

/-- A memo that follows another snapshot starts over from this one's watermark. -/
def ProbeMemo.align (sha : String) (watermark : Option ℕ) (memo : ProbeMemo) : ProbeMemo :=
  if memo.alignedSha ≠ some sha then ⟨some sha, watermark, none, memo.malRetries⟩ else memo

/-- The ids to read: the fresh ones, then those owed a retry. -/
def malIds (scan : CsvScan) (retries : KeyedMap String ℕ) : List String :=
  let fresh := scan.freshMal.map Prod.snd
  fresh ++ retries.keys.filter fun id => !fresh.contains id

/-- The CSV is read; its fresh advisories and those owed a retry come next. -/
def startReading (s : State σ) (sha : String) (scan : CsvScan) (etag : Option ℕ) : State σ :=
  let pending := malIds scan s.memo.malRetries
  { s with phase := .reading sha scan etag pending ⟨[], []⟩ false false }

/-- Ask for the CSV; a conditional request may be told that nothing changed. -/
def walk (s : State σ) (sha : String) (conditional : Option ℕ) (range : ℕ) :
    CsvAnswer → State σ × Option CycleResult
  | .failed => ({ s with phase := .idle }, some .error)
  | .answered honoured tagged horizon =>
    if honoured ∧ conditional = some s.upstream.version then
      if s.memo.malRetries.keys = [] then ({ s with phase := .idle }, some (.ok true))
      else (startReading s sha ⟨[], none, false⟩ s.memo.csvEtag, none)
    else
      let scan := parseCsvHead s.upstream.csv (s.memo.watermark.getD 0) range horizon
      if scan.complete ∨ maxFeedBytes ≤ range then
        (startReading s sha scan (if tagged then some s.upstream.version else none), none)
      else ({ s with phase := .walking sha none (min (range * 2) maxFeedBytes) }, none)

/-- Read the next advisory. -/
def readAdvisory (s : State σ) (sha : String) (scan : CsvScan) (etag : Option ℕ) (id : String)
    (pending : List String) (delta : ProbeDelta σ) (readAny outage : Bool) :
    AdvisoryAnswer → State σ
  | .unavailable =>
    { s with
      memo := { s.memo with malRetries :=
        if id ∈ s.memo.malRetries then s.memo.malRetries else s.memo.malRetries.insert id 0 }
      phase := .reading sha scan etag pending delta readAny true }
  | .unreadable =>
    { s with
      memo := { s.memo with malRetries := noteMalFailure s.memo.malRetries id }
      phase := .reading sha scan etag pending delta true outage }
  | .read =>
    let adv := s.upstream.records id
    let delta :=
      if adv.withdrawn then
        { delta with withdrawn := (if adv.id = "" then id else adv.id) :: delta.withdrawn }
      else { delta with added := delta.added ++ malRules adv }
    { s with
      memo := { s.memo with malRetries := s.memo.malRetries.erase id }
      phase := .reading sha scan etag pending delta true outage }

/-- Merge the delta, unless the snapshot it was computed on has been swapped out. -/
def Slot.applyProbeOverlay (sha : String) (delta : ProbeDelta σ) (slot : Slot σ) : Slot σ :=
  if delta.isEmpty ∨ slot.zipSha256 ≠ some sha then slot
  else ⟨slot.zipSha256, mergeOverlay slot.overlay delta.added delta.withdrawn⟩

/-- One event; one that the cycle is not at does nothing. -/
def step (content : String → Snapshot σ) (s : State σ) : Event σ → State σ × Option CycleResult
  | .modify ts id withdrawn clauses bytes =>
    ({ s with upstream := s.upstream.modify ts id withdrawn clauses bytes }, none)
  | .reload sha => ({ s with slot := s.slot.reload sha }, none)
  | .begin =>
    match s.phase, s.slot.zipSha256 with
    | .idle, none => (s, some (.ok false))
    | .idle, some sha =>
      let memo := s.memo.align sha (content sha).watermark
      match memo.watermark with
      | none => ({ s with memo := memo }, some (.ok false))
      | some _ =>
        ({ s with memo := memo, phase := .walking sha memo.csvEtag probeCsvStartBytes }, none)
    | _, _ => (s, none)
  | .csv answer =>
    match s.phase with
    | .walking sha conditional range => walk s sha conditional range answer
    | _ => (s, none)
  | .advisory answer =>
    match s.phase with
    | .reading sha scan etag (id :: pending) delta readAny outage =>
      (readAdvisory s sha scan etag id pending delta readAny outage answer, none)
    | _ => (s, none)
  | .apply =>
    match s.phase with
    | .reading sha scan etag [] delta readAny outage =>
      ({ s with
        slot := s.slot.applyProbeOverlay sha delta
        phase := .applied scan etag readAny outage }, none)
    | _ => (s, none)
  | .finish =>
    match s.phase with
    | .applied scan etag readAny outage =>
      ({ s with
        memo := { s.memo with
          watermark := scan.maxModified.or s.memo.watermark
          csvEtag := etag }
        phase := .idle },
        some (if outage && !readAny then .error else .ok true))
    | _ => (s, none)

/-- A node that boots with the overlay it was built with and no snapshot. -/
def boot (floor : Overlay σ) : State σ :=
  ⟨⟨[], fun id => ⟨id, true, []⟩, 0, 0⟩, ⟨none, floor⟩, ⟨none, none, none, ∅⟩, .idle⟩

/-- The state before the `n`-th event. -/
def states (content : String → Snapshot σ) (floor : Overlay σ) (events : ℕ → Event σ) :
    ℕ → State σ
  | 0 => boot floor
  | n + 1 => (step content (states content floor events n) (events n)).1

/-- How the `n`-th event ends a cycle. -/
def ends (content : String → Snapshot σ) (floor : Overlay σ) (events : ℕ → Event σ) (n : ℕ) :
    Option CycleResult :=
  (step content (states content floor events n) (events n)).2

end Pypiron.MalwareProbe
