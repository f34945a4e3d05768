import Mathlib.Data.List.Sort
import Mathlib.Order.WithBot

/-! The versions that an OSV clause condemns: the scope kept of it and how a
version is matched, and beside them what the format says is affected. -/
namespace Pypiron.Osv

/-- Versions, as code from outside the repository reads and orders them. -/
structure Pep440 (V : Type) [LinearOrder V] where
  parse : String → Option V
  zero : V
  parse_zero : parse "0" = some zero

structure Event where
  introduced : Option String
  fixed : Option String

structure Range where
  events : List Event

structure Affected where
  ranges : List Range
  versions : List String

variable {V : Type} [LinearOrder V] (pep : Pep440 V)

/-! ### The scope of a clause -/

inductive VersionScope (V : Type) where
  | allVersions
  | exact (versions : List String)
  | ranges (ranges : List (V × Option V))

def versionEq (a b : String) : Bool :=
  match pep.parse a, pep.parse b with
  | some va, some vb => va = vb
  | _, _ => a = b

/-- Half-open; without an upper end it runs on. -/
def within (v : V) (range : V × Option V) : Bool :=
  range.1 ≤ v && range.2.all (v < ·)

/-- A version that does not parse is in every scope. -/
def VersionScope.matches (scope : VersionScope V) (version : String) : Bool :=
  match scope with
  | .allVersions => true
  | .exact versions =>
    match pep.parse version with
    | some _ => versions.any (versionEq pep · version)
    | none => true
  | .ranges pairs =>
    match pep.parse version with
    | some v => pairs.any (within v)
    | none => true

def isAllVersions (affected : Affected) : Bool :=
  (affected.ranges.isEmpty && affected.versions.isEmpty) ||
    affected.ranges.any fun range =>
      match range.events with
      | [event] => event.introduced = some "0" && event.fixed.isNone
      | _ => false

/-- The ranges closed so far, and the one that is open. -/
abbrev Fold (V : Type) := List (V × Option V) × Option V

def Fold.close (fold : Fold V) : List (V × Option V) :=
  fold.1 ++ fold.2.toList.map (·, none)

def Fold.event (fold : Fold V) (event : Event) : Fold V :=
  match event.introduced, event.fixed, fold.2 with
  | some intro, _, _ => (fold.close, pep.parse intro)
  | none, some fixed, some intro => (fold.1 ++ [(intro, pep.parse fixed)], none)
  | none, _, _ => fold

def parseRange (range : Range) : List (V × Option V) :=
  (range.events.foldl (Fold.event pep) ([], none)).close

def parseRanges (ranges : List Range) : List (V × Option V) :=
  ranges.flatMap (parseRange pep)

def scopeFor (affected : Affected) : VersionScope V :=
  if isAllVersions affected then .allVersions
  else
    let ranges := parseRanges pep affected.ranges
    if !ranges.isEmpty then .ranges ranges
    else if !affected.versions.isEmpty then .exact affected.versions
    else .allVersions

/-! ### What the format says -/

/-- An event's place in version order, below every version for `introduced "0"`. -/
structure Boundary (V : Type) where
  version : WithBot V
  introduced : Bool

def placeIntroduced (text : String) : Option (WithBot V) :=
  if text = "0" then some ⊥ else (pep.parse text).map (↑)

def placeFixed (text : String) : Option (WithBot V) :=
  (pep.parse text).map (↑)

def Event.boundaries (event : Event) : List (Boundary V) :=
  ((event.introduced.bind (placeIntroduced pep)).map (⟨·, true⟩)).toList ++
    ((event.fixed.bind (placeFixed pep)).map (⟨·, false⟩)).toList

/-- The last event at or below a version, with events in version order; those of
one version stay in the order they are written in. -/
def latest (range : Range) (v : V) : Option (Boundary V) :=
  (((range.events.flatMap (Event.boundaries pep)).filter (·.version ≤ ↑v)).insertionSort
    (·.version ≤ ·.version)).getLast?

def InRange (range : Range) (v : V) : Prop :=
  ∃ boundary, latest pep range v = some boundary ∧ boundary.introduced = true

def Listed (affected : Affected) (version : String) : Prop :=
  ∃ text ∈ affected.versions,
    text = version ∨ ∃ v, pep.parse text = some v ∧ pep.parse version = some v

def IsAffected (affected : Affected) (version : String) : Prop :=
  Listed pep affected version ∨
    ∃ v, pep.parse version = some v ∧ ∃ range ∈ affected.ranges, InRange pep range v

/-- The clause lists no version, and where one of its ranges begins is unknown. -/
def Unbounded (affected : Affected) : Prop :=
  affected.versions = [] ∧ ∃ range ∈ affected.ranges, ∃ event ∈ range.events,
    ∃ text, event.introduced = some text ∧ pep.parse text = none

end Pypiron.Osv
