import Pypiron.Worker.Markers
import Mathlib.Logic.Function.Basic
import Mathlib.Logic.Relation

/-! The event protocol of one bucket as a transition system: writers that
bracket truth changes by an intent and a commit marker, and worker ticks that
rebuild package views from truth, update the global index and delete the
markers they listed, in that order. Any party may stop between two steps.
What a rebuild computes from truth is a parameter. -/
namespace Pypiron.EventProtocol

/-- The two stored views of a package. -/
inductive Part where
  | html
  | json
  deriving DecidableEq, Repr

def parts : List Part := [.html, .json]

/-- A fresh rebuild of a package's truth: its views, and whether the package is
still listed. A part that is `none` is removed. -/
structure Site (T V : Type) where
  render : T → Part → Option V
  live : T → Bool

inductive Phase (V : Type) where
  | queued
  | reading (clean : Bool)
  | writing (view : Part → Option V) (live : Bool) (todo : List Part)
  | rebuilt (live : Bool)
  | failed

/-- A tick's work on one package. `keys` are the markers it may still consume;
a job that must retain its markers holds none. -/
structure Job (V : Type) where
  keys : List String
  staleIntents : Nat
  rearmed : Bool
  phase : Phase V

inductive Stage where
  | listed
  | running
  | cancelled
  | deleting (consumed : List String)
  deriving DecidableEq, Repr

/-- `horizon` is the number of markers ever written when the tick listed. -/
structure Tick (V : Type) where
  listing : List FileEntry
  horizon : Nat
  stage : Stage
  packages : List String
  jobs : String → Option (Job V)

/-- `born` logs every marker key ever written; `writers` maps a live writer's
package and nonce to the time of its intent. -/
structure State (T V : Type) where
  truth : String → T
  view : String → Part → Option V
  globalIndex : String → Bool
  markers : List FileEntry
  born : List String
  now : Nat
  writers : String × String → Option Nat
  ticks : Nat → Option (Tick V)

variable {T V : Type}

namespace State

def putMarker (s : State T V) (key : String) : State T V :=
  { s with markers := s.markers ++ [⟨key, some s.now⟩], born := s.born ++ [key] }

def setTick (s : State T V) (id : Nat) (tick : Option (Tick V)) : State T V :=
  { s with ticks := Function.update s.ticks id tick }

def setView (s : State T V) (pkg : String) (view : Part → Option V) : State T V :=
  { s with view := Function.update s.view pkg view }

def setWriter (s : State T V) (pkg nonce : String) (started : Option Nat) : State T V :=
  { s with writers := Function.update s.writers (pkg, nonce) started }

end State

def Tick.setJob (tick : Tick V) (pkg : String) (job : Job V) : Tick V :=
  { tick with jobs := Function.update tick.jobs pkg (some job) }

/-- A truth change while the job reads leaves it with a torn snapshot. -/
def Job.taint (job : Job V) : Job V :=
  match job.phase with
  | .reading _ => { job with phase := .reading false }
  | _ => job

def Tick.taint (tick : Tick V) (pkg : String) : Tick V :=
  { tick with jobs := Function.update tick.jobs pkg ((tick.jobs pkg).map Job.taint) }

/-- One truth write of a live writer. A delete also rewrites the view. -/
def State.mutate (s : State T V) (pkg : String) (truth : T) (view : Part → Option V) :
    State T V :=
  { s with
    truth := Function.update s.truth pkg truth
    view := Function.update s.view pkg view
    ticks := fun id => (s.ticks id).map (·.taint pkg) }

/-- No marker was ever written for this package under this nonce, and the package
name is one that marker keys can carry. -/
def Fresh (s : State T V) (pkg nonce : String) : Prop :=
  '!' ∉ pkg.toList ∧ ∀ key ∈ s.born, ∀ marker,
    parseMarker ⟨key, none⟩ = some (pkg, marker) → marker.nonce ≠ some nonce

def queuedJob (work : DirtyWork) : Job V := ⟨work.keys, work.staleIntents, false, .queued⟩

/-- The jobs of a selected work list. -/
def chosenJobs (work : List DirtyWork) (pkg : String) : Option (Job V) :=
  (work.find? (·.package = pkg)).map queuedJob

/-- The step of a job from `job` to its successor, with the package's stored view
after it. A failed rebuild, and one whose quarantine publish failed, retain the
markers. -/
inductive JobMoves (site : Site T V) (s : State T V) (pkg : String) :
    Job V → Job V → (Part → Option V) → Prop where
  | read : job.phase = .reading true →
      JobMoves site s pkg job
        { job with phase := .writing (site.render (s.truth pkg)) (site.live (s.truth pkg)) parts }
        (s.view pkg)
  | torn (view live) : job.phase = .reading false →
      JobMoves site s pkg job { job with phase := .writing view live parts } (s.view pkg)
  | write (part) : job.phase = .writing view live todo → part ∈ todo →
      JobMoves site s pkg job { job with phase := .writing view live (todo.erase part) }
        (Function.update (s.view pkg) part (view part))
  | publish : job.phase = .writing view live [] →
      JobMoves site s pkg job { job with phase := .rebuilt live } (s.view pkg)
  | retain : job.phase = .writing view live [] →
      JobMoves site s pkg job { job with phase := .rebuilt live, keys := [] } (s.view pkg)
  | fail : (∀ live, job.phase ≠ .rebuilt live) →
      JobMoves site s pkg job { job with phase := .failed, keys := [] } (s.view pkg)

/-- Whether a job in this phase holds its package's turn, which one job may. -/
abbrev Turn (V : Type) := Stage → Phase V → Bool

/-- Only the rebuilds of the package view are serialized. -/
def viewTurn : Turn V
  | _, .reading _ => true
  | _, .writing _ _ _ => true
  | _, _ => false

/-- The turn lasts from the read of truth to the tick's global-index update. -/
def tickTurn : Turn V
  | .running, .rebuilt _ => true
  | _, .reading _ => true
  | _, .writing _ _ _ => true
  | _, _ => false

def Stage.working : Stage → Bool
  | running => true
  | cancelled => true
  | _ => false

/-- The keys a tick deletes: those of the packages it rebuilt and published, with
a fresh marker already written wherever it healed a stale intent. -/
def Tick.consumed (tick : Tick V) : List String :=
  tick.packages.flatMap fun pkg =>
    match tick.jobs pkg with
    | some ⟨keys, staleIntents, rearmed, .rebuilt _⟩ =>
      if staleIntents = 0 ∨ rearmed then keys else []
    | _ => []

def Tick.finished (tick : Tick V) : Prop :=
  ∀ pkg job, tick.jobs pkg = some job → (∃ live, job.phase = .rebuilt live) ∨ job.phase = .failed

/-- The batched add and remove deltas of the rebuilt packages. -/
def Tick.updateGlobal (tick : Tick V) (globalIndex : String → Bool) (pkg : String) : Bool :=
  match tick.jobs pkg with
  | some ⟨_, _, _, .rebuilt live⟩ => live
  | _ => globalIndex pkg

/-- The tick once it has chosen its work from the listing. -/
def Tick.choose (tick : Tick V) (now intentGrace : Nat) : Tick V :=
  let work := consumableDirtyWork tick.listing now intentGrace
  { tick with stage := .running, packages := work.map (·.package), jobs := chosenJobs work }

inductive Step (site : Site T V) (intentGrace : Nat) (turn : Turn V) :
    State T V → State T V → Prop where
  | beginWrite {s} (pkg nonce) : Fresh s pkg nonce → 0 < intentGrace →
      Step site intentGrace turn s
        ((s.putMarker (intentKey pkg nonce)).setWriter pkg nonce (some s.now))
  | mutate {s} (pkg nonce truth view) : s.writers (pkg, nonce) = some started →
      Step site intentGrace turn s (s.mutate pkg truth view)
  | commit {s} (pkg nonce) : s.writers (pkg, nonce) = some started →
      Step site intentGrace turn s
        ((s.putMarker (commitKey pkg nonce)).setWriter pkg nonce none)
  | crashWriter {s} (pkg nonce) : Step site intentGrace turn s (s.setWriter pkg nonce none)
  | markDirty {s} (pkg nonce) : Fresh s pkg nonce →
      Step site intentGrace turn s (s.putMarker (commitKey pkg nonce))
  | advanceTime {s} : (∀ writer started, s.writers writer = some started →
        s.now + 1 < started + intentGrace) →
      Step site intentGrace turn s { s with now := s.now + 1 }
  | list {s} (id) : s.ticks id = none →
      Step site intentGrace turn s
        (s.setTick id (some ⟨s.markers, s.born.length, .listed, [], fun _ => none⟩))
  | choose {s} (id) : s.ticks id = some tick → tick.stage = .listed →
      Step site intentGrace turn s (s.setTick id (some (tick.choose s.now intentGrace)))
  | start {s} (id pkg) : s.ticks id = some tick → tick.stage.working = true →
      tick.jobs pkg = some job → job.phase = .queued →
      (∀ other otherTick otherJob, s.ticks other = some otherTick →
        otherTick.jobs pkg = some otherJob → turn otherTick.stage otherJob.phase = false) →
      Step site intentGrace turn s
        (s.setTick id (some (tick.setJob pkg { job with phase := .reading true })))
  | work {s} (id pkg) : s.ticks id = some tick → tick.stage.working = true →
      tick.jobs pkg = some job → JobMoves site s pkg job next view →
      Step site intentGrace turn s
        ((s.setView pkg view).setTick id (some (tick.setJob pkg next)))
  | rearm {s} (id pkg nonce) : s.ticks id = some tick → tick.stage = .running →
      tick.jobs pkg = some job → job.phase = .rebuilt live → Fresh s pkg nonce →
      Step site intentGrace turn s ((s.putMarker (commitKey pkg nonce)).setTick id
        (some (tick.setJob pkg { job with rearmed := true })))
  | updateGlobal {s} (id) : s.ticks id = some tick → tick.stage = .running → tick.finished →
      Step site intentGrace turn s
        { s.setTick id (some { tick with stage := .deleting tick.consumed }) with
          globalIndex := tick.updateGlobal s.globalIndex }
  | deleteKey {s} (id key) : s.ticks id = some tick → tick.stage = .deleting consumed →
      key ∈ consumed →
      Step site intentGrace turn s { s with markers := s.markers.filter (·.key ≠ key) }
  | cancel {s} (id) : s.ticks id = some tick → tick.stage = .running →
      Step site intentGrace turn s (s.setTick id (some { tick with stage := .cancelled }))
  | stop {s} (id) : Step site intentGrace turn s (s.setTick id none)

abbrev Reaches (site : Site T V) (intentGrace : Nat) (turn : Turn V) :
    State T V → State T V → Prop :=
  Relation.ReflTransGen (Step site intentGrace turn)

/-- The stored views are a fresh render of truth, and the global index lists
exactly the live packages. -/
def Settled (site : Site T V) (s : State T V) (pkg : String) : Prop :=
  s.view pkg = site.render (s.truth pkg) ∧ s.globalIndex pkg = site.live (s.truth pkg)

/-- A standing marker of the package. -/
def Marked (s : State T V) (pkg key : String) : Prop :=
  ∃ entry ∈ s.markers, entry.key = key ∧ ∃ marker, parseMarker entry = some (pkg, marker)

/-- A start of a run: no party is active, and every package is settled or marked. -/
structure Initial (site : Site T V) (s : State T V) : Prop where
  noWriters : ∀ writer, s.writers writer = none
  noTicks : ∀ id, s.ticks id = none
  logged : ∀ entry ∈ s.markers, entry.key ∈ s.born
  unique : s.born.Nodup
  settled : ∀ pkg, Settled site s pkg ∨ ∃ key, Marked s pkg key

end Pypiron.EventProtocol
