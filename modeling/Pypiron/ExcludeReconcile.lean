import Mathlib.Data.Finset.Basic
import Mathlib.Data.List.Sort
import Pypiron.KeyedMap

/-! The denylist of a node over one bucket. A process renders views under the
denylist it was started with; its reconcile marks the packages whose entries
moved since the stamp, and stamps its own entries last. -/
namespace Pypiron.ExcludeReconcile
open KeyedMap

/-! ### Denylists -/

/-- What PEP 440 says of specifiers and of the version a filename carries. -/
structure Pep440 (S V : Type) where
  text : S → String
  contains : S → V → Bool
  inferVersion : String → Option V

variable {S V : Type}

/-- Per package the releases it hides, all of them where the specifiers are absent. -/
structure Denylist (S : Type) where
  deny : KeyedMap String (List (Option S))

/-- Whether a file's version satisfies one of the constraints. -/
def versionAllowed (pep : Pep440 S V) (constraints : List (Option S)) (filename : String) : Bool :=
  if constraints.any Option.isNone then true
  else match pep.inferVersion filename with
    | none => false
    | some version => constraints.reduceOption.any fun specifiers => pep.contains specifiers version

def Denylist.fileDenied (pep : Pep440 S V) (denylist : Denylist S) (pkg filename : String) : Bool :=
  (denylist.deny.lookup pkg).any fun constraints => versionAllowed pep constraints filename

/-- The entries of a denylist as they are stored. -/
abbrev Stamp := KeyedMap String (List String)

def canonicalSpecs (pep : Pep440 S V) (constraints : List (Option S)) : List String :=
  ((constraints.map fun constraint => constraint.elim "*" pep.text).insertionSort (· ≤ ·)).dedup

def Denylist.canonical (pep : Pep440 S V) (denylist : Denylist S) : Stamp :=
  denylist.deny.entries.foldl
    (fun out entry => out.insert entry.1 (canonicalSpecs pep entry.2)) ∅

def Stamp.same (a b : Stamp) : Bool :=
  (a.keys ++ b.keys).all fun name => a.lookup name = b.lookup name

/-- The packages whose entries differ, and on a first pass every denied one. -/
def changedNames (firstPass : Bool) (current previous : Stamp) : List String :=
  ((if firstPass then current.keys else []) ++
    current.keys.filter (fun name => previous.lookup name ≠ current.lookup name) ++
    previous.keys.filter (fun name => current.lookup name ≠ previous.lookup name)).dedup

/-! ### State -/

/-- The storage calls a reconcile has left. -/
inductive Reconcile where
  | waiting
  | dropping (previous : Stamp) (names left : List String)
  | marking (previous : Stamp) (left : List String)
  | done

/-- The bucket, and the process that runs over it. An audit's fingerprint is of
the artifacts and the view it saw. -/
structure State (S : Type) where
  files : String → List String
  views : String → List String
  fingerprints : String → Option (List String × List String)
  dirty : Finset String
  stamp : Option Stamp
  denylist : Option (Denylist S)
  reconcile : Reconcile

/-- What an audit does with the fingerprint of what it rebuilt: record it, leave
the one before, or refuse to vouch for the view. -/
inductive Certificate where
  | recorded
  | deferred
  | refused

inductive Event (S : Type) where
  | boot (denylist : Option (Denylist S))
  | mutate (pkg : String) (files : List String)
  | call
  | fault
  | tick (pkg : String) (cut : Bool)
  | audit (pkg : String) (deep : Bool) (certificate : Certificate)

/-- An empty bucket, before any process has run. -/
def State.empty : State S where
  files := fun _ => []
  views := fun _ => []
  fingerprints := fun _ => none
  dirty := ∅
  stamp := none
  denylist := none
  reconcile := .done

/-! ### Steps -/

/-- The next storage call of the reconcile. -/
def reconcileExcludes (pep : Pep440 S V) (firstPass : Bool) (s : State S) : State S :=
  match s.denylist with
  | none => { s with reconcile := .done }
  | some denylist =>
    let current := denylist.canonical pep
    match s.reconcile with
    | .waiting =>
      let previous := s.stamp.getD ∅
      if current.same previous && (!firstPass || current.keys.isEmpty) then
        { s with reconcile := .done }
      else
        let names := changedNames firstPass current previous
        { s with reconcile := .dropping previous names names }
    | .dropping previous names (name :: left) =>
      { s with
        fingerprints := Function.update s.fingerprints name none
        reconcile := .dropping previous names left }
    | .dropping previous names [] => { s with reconcile := .marking previous names }
    | .marking previous (name :: left) =>
      { s with
        dirty := insert name s.dirty
        reconcile := .marking previous left }
    | .marking previous [] =>
      { s with
        stamp := if current.same previous then s.stamp else some current
        reconcile := .done }
    | .done => s

/-- The files of a package that the running denylist leaves listed. -/
def State.listed (pep : Pep440 S V) (s : State S) (pkg : String) : List String :=
  (s.files pkg).filter fun filename => !s.denylist.any (·.fileDenied pep pkg filename)

def rebuildPackage (pep : Pep440 S V) (pkg : String) (s : State S) : State S :=
  { s with views := Function.update s.views pkg (s.listed pep pkg) }

/-- A rebuild clears the marker it answers, unless it is cut short. -/
def tick (pep : Pep440 S V) (pkg : String) (cut : Bool) (s : State S) : State S :=
  if pkg ∈ s.dirty then
    let rebuilt := rebuildPackage pep pkg s
    if cut then rebuilt else { rebuilt with dirty := s.dirty.erase pkg }
  else s

/-- An audit rebuilds a package that moved since its fingerprint. One it cannot
vouch for is left to a tick. -/
def audit (pep : Pep440 S V) (pkg : String) (deep : Bool) (certificate : Certificate)
    (s : State S) : State S :=
  if !deep ∧ s.fingerprints pkg = some (s.files pkg, s.views pkg) then s
  else
    let rebuilt := rebuildPackage pep pkg s
    match certificate with
    | .recorded =>
      { rebuilt with
        fingerprints := Function.update s.fingerprints pkg
          (some (rebuilt.files pkg, rebuilt.views pkg)) }
    | .deferred => rebuilt
    | .refused =>
      { rebuilt with
        fingerprints := Function.update s.fingerprints pkg none
        dirty := insert pkg s.dirty }

/-- The worker reconciles on a first pass until one succeeds. What moves a
package's artifacts marks it. -/
def step (pep : Pep440 S V) (s : State S) : Event S → State S
  | .boot denylist => { s with denylist := denylist, reconcile := .waiting }
  | .mutate pkg files =>
    { s with
      files := Function.update s.files pkg files
      dirty := insert pkg s.dirty }
  | .call => reconcileExcludes pep true s
  | .fault => if let .done := s.reconcile then s else { s with reconcile := .waiting }
  | .tick pkg cut => tick pep pkg cut s
  | .audit pkg deep certificate => audit pep pkg deep certificate s

/-- The state before the `n`-th event. -/
def states (pep : Pep440 S V) (events : ℕ → Event S) : ℕ → State S
  | 0 => .empty
  | n + 1 => step pep (states pep events n) (events n)

end Pypiron.ExcludeReconcile
