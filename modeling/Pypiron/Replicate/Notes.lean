import Pypiron.Text
import Mathlib.Data.List.Sort
import Mathlib.Logic.Function.Basic
import Mathlib.Logic.Relation

/-! The replication debt protocol: a fan-out merges a record into every peer or
leaves a durable `_repl/` note on the source bucket, and sweeps drain the notes.
What a merge does is left to its outcome; every storage call may fail, with or
without effect, and every party may stop between two calls. -/
namespace Pypiron.Notes

def replPrefix : String := "_repl/"

def replSweepPage : Nat := 1000

/-- A key-safe identifier of a bucket; an unnamed store is `local`. -/
def bucketTag (name : String) : String :=
  let tag := name.toList.map fun c =>
    if c.isAlphanum || c == '.' || c == '_' || c == '-' then c else '-'
  if tag.isEmpty then "local" else String.ofList tag

/-- The configured buckets. A configuration in which two names share a tag is
refused at startup. -/
structure Topology where
  names : List String
  distinct : (names.map bucketTag).Nodup

structure ReplMarker where
  destTag : String
  pkg : String
  filename : String
  key : String
  deriving DecidableEq, Repr

def noteKey (destTag pkg filename nonce : String) : String :=
  replPrefix ++ (destTag ++ "/" ++ (pkg ++ "/" ++ (filename ++ "!" ++ nonce)))

/-- `_repl/<dest-tag>/<pkg>/<file>!<nonce>`. A backfill sentinel has one segment
less and parses to nothing. -/
def parseReplMarker (key : String) : Option ReplMarker := do
  let rest ← stripPrefix replPrefix key
  let (destTag, rest) ← splitOnce '/' rest
  let (pkg, fileNonce) ← splitOnce '/' rest
  let (filename, _) ← rsplitOnce '!' fileNonce
  return ⟨destTag, pkg, filename, key⟩

def destIndexForTag (names : List String) (destTag : String) : Option Nat :=
  names.findIdx? fun name => bucketTag name == destTag

/-- One bounded page of keys in ascending order, after a cursor. -/
def listPage (keys : List String) (after : Option String) : List String :=
  let rest := keys.filter fun key => after.all (· < key)
  (rest.insertionSort (· ≤ ·)).take replSweepPage

/-- What happened, in order. A merge of one record returned `Converged`, or a
dirty marker of a package became durable on a bucket. -/
inductive Event where
  | converged (src dst : Nat) (pkg filename : String)
  | dirtied (bucket : Nat) (pkg : String)
  deriving DecidableEq, Repr

inductive Peer where
  | pending
  | converged
  | owed (retried : Bool)
  | noted (key : String)
  | unrecorded
  deriving DecidableEq, Repr

inductive Outcome where
  | running
  | acked
  | refused
  deriving DecidableEq, Repr

/-- A fan-out of a record; `stamp` is the length of the log at the source write. -/
structure FanOut where
  src : Nat
  pkg : String
  filename : String
  stamp : Nat
  peers : Nat → Peer
  outcome : Outcome

inductive Phase where
  | listed
  | merged
  | signalled
  | finished
  deriving DecidableEq, Repr

/-- A sweep's work on one listed note; `dest` is `none` when the note's tag names
no configured bucket. -/
structure Task where
  marker : ReplMarker
  dest : Option Nat
  phase : Phase
  deriving DecidableEq, Repr

structure Sweep where
  src : Nat
  after : Option String
  more : Bool
  listedAt : Nat
  tasks : List Task
  deriving DecidableEq, Repr

/-- `birth` is the length of the log when a note key was written. -/
structure State where
  notes : Nat → List String
  birth : Nat → String → Option Nat
  log : List Event
  fanouts : Nat → Option FanOut
  sweeps : Nat → Option Sweep

namespace State

def putNote (s : State) (bucket : Nat) (key : String) : State :=
  { s with
    notes := Function.update s.notes bucket (s.notes bucket ++ [key])
    birth := Function.update s.birth bucket (Function.update (s.birth bucket) key (some s.log.length)) }

def deleteNote (s : State) (bucket : Nat) (key : String) : State :=
  { s with notes := Function.update s.notes bucket ((s.notes bucket).filter (· ≠ key)) }

def record (s : State) (event : Event) : State := { s with log := s.log ++ [event] }

def setFanOut (s : State) (id : Nat) (fanout : Option FanOut) : State :=
  { s with fanouts := Function.update s.fanouts id fanout }

def setSweep (s : State) (id : Nat) (sweep : Option Sweep) : State :=
  { s with sweeps := Function.update s.sweeps id sweep }

end State

def FanOut.setPeer (fanout : FanOut) (j : Nat) (peer : Peer) : FanOut :=
  { fanout with peers := Function.update fanout.peers j peer }

def Sweep.setTask (sweep : Sweep) (i : Nat) (task : Task) : Sweep :=
  { sweep with tasks := sweep.tasks.set i task }

def startTask (topology : Topology) (marker : ReplMarker) : Task :=
  ⟨marker, destIndexForTag topology.names marker.destTag, .listed⟩

/-- The sweep after listing its next page. -/
def Sweep.list (topology : Topology) (sweep : Sweep) (notes : List String) (now : Nat) : Sweep :=
  let page := listPage notes sweep.after
  { sweep with
    after := page.getLast?.or sweep.after
    more := page.length == replSweepPage
    listedAt := now
    tasks := (page.filterMap parseReplMarker).map (startTask topology) }

/-- The peer's job is over: it converged, or its gap is recorded or given up. -/
def Peer.settled : Peer → Bool
  | converged => true
  | noted _ => true
  | unrecorded => true
  | _ => false

def Peer.recorded : Peer → Bool
  | converged => true
  | noted _ => true
  | _ => false

/-- A second failed note write gives the peer up. -/
def Peer.unwritten : Bool → Peer
  | false => .owed true
  | true => .unrecorded

inductive Step (topology : Topology) : State → State → Prop where
  | begin {s} (id src pkg filename) : s.fanouts id = none → src < topology.names.length →
      '/' ∉ pkg.toList →
      Step topology s (s.setFanOut id
        (some ⟨src, pkg, filename, s.log.length, fun _ => .pending, .running⟩))
  | fanConverged {s} (id j) : s.fanouts id = some fanout → fanout.outcome = .running →
      j < topology.names.length → j ≠ fanout.src → fanout.peers j = .pending →
      Step topology s ((s.record (.converged fanout.src j fanout.pkg fanout.filename)).setFanOut id
        (some (fanout.setPeer j .converged)))
  | fanOwed {s} (id j) : s.fanouts id = some fanout → fanout.outcome = .running →
      fanout.peers j = .pending →
      Step topology s (s.setFanOut id (some (fanout.setPeer j (.owed false))))
  | note {s} (id j nonce) : s.fanouts id = some fanout → fanout.outcome = .running →
      j < topology.names.length → j ≠ fanout.src →
      (∀ i, i < topology.names.length → i ≠ fanout.src → fanout.peers i ≠ .pending) →
      fanout.peers j = .owed retried → '!' ∉ nonce.toList →
      s.birth fanout.src (noteKey (bucketTag (topology.names.getD j "")) fanout.pkg
        fanout.filename nonce) = none →
      Step topology s ((s.putNote fanout.src (noteKey (bucketTag (topology.names.getD j ""))
        fanout.pkg fanout.filename nonce)).setFanOut id (some (fanout.setPeer j
          (.noted (noteKey (bucketTag (topology.names.getD j "")) fanout.pkg fanout.filename
            nonce)))))
  | noteFailed {s} (id j) : s.fanouts id = some fanout → fanout.outcome = .running →
      fanout.peers j = .owed retried →
      Step topology s (s.setFanOut id (some (fanout.setPeer j (.unwritten retried))))
  | extraNote {s} (bucket key) : s.birth bucket key = none → Step topology s (s.putNote bucket key)
  | finish {s} (id) : s.fanouts id = some fanout → fanout.outcome = .running →
      (∀ i, i < topology.names.length → i ≠ fanout.src → (fanout.peers i).settled = true) →
      (outcome = .acked → ∀ i, i < topology.names.length → i ≠ fanout.src →
        (fanout.peers i).recorded = true) →
      Step topology s (s.setFanOut id (some { fanout with outcome := outcome }))
  | stopFanOut {s} (id) : s.fanouts id = some fanout → fanout.outcome = .running →
      Step topology s (s.setFanOut id none)
  | sweep {s} (id src) : s.sweeps id = none → src < topology.names.length →
      Step topology s (s.setSweep id (some ⟨src, none, true, s.log.length, []⟩))
  | list {s} (id) : s.sweeps id = some sweep → sweep.more = true →
      (∀ task ∈ sweep.tasks, task.phase = .finished) →
      Step topology s (s.setSweep id
        (some (sweep.list topology (s.notes sweep.src) s.log.length)))
  | merge {s} (id i) : s.sweeps id = some sweep → sweep.tasks[i]? = some task →
      task.phase = .listed → task.dest = some dest →
      Step topology s ((s.record
        (.converged sweep.src dest task.marker.pkg task.marker.filename)).setSweep id
          (some (sweep.setTask i { task with phase := .merged })))
  | defer {s} (id i) : s.sweeps id = some sweep → sweep.tasks[i]? = some task →
      task.phase = .listed → task.dest = some dest →
      Step topology s ((s.record (.dirtied dest task.marker.pkg)).setSweep id
        (some (sweep.setTask i { task with phase := .finished })))
  | signal {s} (id i) : s.sweeps id = some sweep → sweep.tasks[i]? = some task →
      task.phase = .merged → task.dest = some dest →
      Step topology s ((s.record (.dirtied dest task.marker.pkg)).setSweep id
        (some (sweep.setTask i { task with phase := .signalled })))
  | consume {s} (id i) : s.sweeps id = some sweep → sweep.tasks[i]? = some task →
      task.phase = .signalled →
      Step topology s ((s.deleteNote sweep.src task.marker.key).setSweep id
        (some (sweep.setTask i { task with phase := .finished })))
  | drop {s} (id i) : s.sweeps id = some sweep → sweep.tasks[i]? = some task →
      task.phase = .listed → task.dest = none →
      Step topology s ((s.deleteNote sweep.src task.marker.key).setSweep id
        (some (sweep.setTask i { task with phase := .finished })))
  | retain {s} (id i) : s.sweeps id = some sweep → sweep.tasks[i]? = some task →
      Step topology s (s.setSweep id (some (sweep.setTask i { task with phase := .finished })))
  | stopSweep {s} (id) : Step topology s (s.setSweep id none)

abbrev Reaches (topology : Topology) : State → State → Prop :=
  Relation.ReflTransGen (Step topology)

/-- A start of a run: nothing in flight, and any notes left from before. -/
structure Initial (s : State) : Prop where
  noFanOuts : ∀ id, s.fanouts id = none
  noSweeps : ∀ id, s.sweeps id = none
  born : ∀ bucket, ∀ key ∈ s.notes bucket, ∃ since, s.birth bucket key = some since
  dated : ∀ bucket key since, s.birth bucket key = some since → since ≤ s.log.length

end Pypiron.Notes
