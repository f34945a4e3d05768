import Mathlib.Data.Finmap
import Pypiron.KeyedMap

/-! The used-by views: per package what its newest release requires, and per
project who requires it. A pass edits the second from what moved in the first,
and records a package only after its edits. -/
namespace Pypiron.UsedBy
open KeyedMap

/-! ### Stored data -/

def shardChars : List Char := "0123456789abcdefghijklmnopqrstuvwxyz".toList

/-- A normalized package name, by its first character, which is a shard's. -/
structure PkgName where
  first : Char
  rest : String
  sharded : first ∈ shardChars
  deriving DecidableEq

/-- Requirement lines by the project they name, or by the package declaring them. -/
abbrev Lines := Finmap fun _ : PkgName => List String

/-- One package's newest release, as read. -/
structure Forward where
  source : String
  requires : Lines
  deriving DecidableEq

abbrev Shard := KeyedMap PkgName Forward

/-- `requires-<c>.json` and `used-by/<pkg>.json`; an empty file is an absent one. -/
structure Views where
  requires : Char → Shard
  usedBy : PkgName → Lines

def Views.empty : Views := ⟨fun _ => ∅, fun _ => ∅⟩

/-! ### One pass -/

inductive Scope where
  | some
  | all
  | regenerate
  deriving DecidableEq

/-- A companion read: the requirements it declares, each the project it names
and its line. -/
inductive Companion where
  | found (requiresDist : List (PkgName × String))
  | notFound
  | failed

/-- A rewrite of a used-by file or a shard. A write that is lost has no effect
and one that fails late has; both fail. -/
inductive Outcome where
  | readFailed
  | lost
  | late
  | done
  deriving DecidableEq

def Outcome.applies : Outcome → Bool
  | late => true
  | done => true
  | _ => false

/-- What a refresh is asked and what storage answers it; a pass that does not
get to its recording crashed during its used-by writes. -/
structure Pass where
  scope : Scope
  observed : List (PkgName × Option String)
  distinct : (observed.map Prod.fst).Nodup
  shardRead : Char → Bool
  relisted : PkgName → Option (Option String)
  companion : PkgName → String → Companion
  listed : Bool
  write : PkgName → Outcome
  recording : Bool
  record : Char → Outcome

/-- A release's requirements by the project each names, without those on itself. -/
def requires (pkg : PkgName) (requiresDist : List (PkgName × String)) : Lines :=
  requiresDist.foldl (fun out req =>
    if req.1 ≠ pkg then out.insert req.1 ((out.lookup req.1).getD [] ++ [req.2]) else out) ∅

def linesFor (forward : Option Forward) (target : PkgName) : Option (List String) :=
  forward.bind fun f => f.requires.lookup target

def named (forward : Option Forward) : Finset PkgName :=
  match forward with
  | some f => f.requires.keys
  | none => ∅

/-- The projects whose entry for a package changes when it moves from `old` to
`new`; each entry becomes the new lines for it. -/
def edits (old new : Option Forward) : Finset PkgName :=
  (named old ∪ named new).filter fun target => linesFor old target ≠ linesFor new target

namespace Pass

/-- The stored record, as the pass reads it. -/
def stored (pass : Pass) (v : Views) (pkg : PkgName) : Option Forward :=
  match pass.scope with
  | .regenerate => none
  | _ => (v.requires pkg.first).lookup pkg

inductive Move where
  | read (source : String)
  | gone
  | still

/-- Whether a package's newest release is still the one read; an audit lists the
package again before it trusts its observation over the record. -/
def move (pass : Pass) (v : Views) (pkg : PkgName) (observed : Option String) : Option Move :=
  let current := (pass.stored v pkg).map Forward.source
  match observed with
  | some source =>
    if current = some source then some .still
    else if pass.scope = .all ∧ current.isSome then
      match pass.relisted pkg with
      | none => none
      | some fresh =>
        if fresh = current then some .still
        else match fresh with
          | some source => some (.read source)
          | none => some .gone
    else some (.read source)
  | none => if current.isSome then some .gone else some .still

def read (pass : Pass) (pkg : PkgName) (source : String) : Option Forward :=
  match pass.companion pkg source with
  | .found requiresDist => some ⟨source, UsedBy.requires pkg requiresDist⟩
  | .notFound => some ⟨source, ∅⟩
  | .failed => none

/-- What a package moves to: nothing when it is still or could not be read. -/
def moved (pass : Pass) (pkg : PkgName) : Move → Option (PkgName × Option Forward)
  | .read source => (pass.read pkg source).map fun forward => (pkg, some forward)
  | .gone => some (pkg, none)
  | .still => none

def seen (pass : Pass) (pkg : PkgName) : Bool := pkg ∈ pass.observed.map Prod.fst

/-- The recorded packages that a full scope did not observe. -/
def unobserved (pass : Pass) (v : Views) : List PkgName :=
  if pass.scope = .all then
    shardChars.flatMap fun c => (v.requires c).keys.filter fun pkg => !pass.seen pkg
  else []

def readsShards (pass : Pass) : Bool :=
  match pass.scope with
  | .regenerate => true
  | .all => shardChars.all pass.shardRead
  | .some => pass.observed.all fun entry => pass.shardRead entry.1.first

/-- The packages that moved, each with its new record; undefined when a read fails. -/
def changed (pass : Pass) (v : Views) : Option (List (PkgName × Option Forward)) :=
  if pass.readsShards then
    (pass.observed.mapM fun entry => (pass.move v entry.1 entry.2).map fun m => (entry.1, m)).map
      fun moves => moves.filterMap (fun entry => pass.moved entry.1 entry.2) ++
        (pass.unobserved v).map fun pkg => (pkg, none)
  else none

section
variable (pass : Pass) (v : Views) (changed : List (PkgName × Option Forward))

/-- The edits of one used-by file: each package that changes there. -/
def editsOf (target : PkgName) : List (PkgName × Option Forward) :=
  changed.filter fun entry => target ∈ edits (pass.stored v entry.1) entry.2

def applyEdit (target : PkgName) (after : Lines) (entry : PkgName × Option Forward) : Lines :=
  match linesFor entry.2 target with
  | some lines => after.insert entry.1 lines
  | none => after.erase entry.1

/-- One project's used-by file as a pass wants it. -/
def wanted (target : PkgName) : Lines :=
  (pass.editsOf v changed target).foldl (applyEdit target)
    (if pass.scope = .regenerate then ∅ else v.usedBy target)

/-- The files a pass looks at: those with edits, and every file on a regenerate. -/
def targets (target : PkgName) : Bool :=
  pass.editsOf v changed target ≠ [] || pass.scope = .regenerate && v.usedBy target ≠ ∅

def writeUsedBy (target : PkgName) : Lines :=
  if pass.targets v changed target && (pass.write target).applies then pass.wanted v changed target
  else v.usedBy target

/-- A file that is as wanted is only read. -/
def failed (target : PkgName) : Bool :=
  pass.targets v changed target &&
    if pass.wanted v changed target = v.usedBy target then pass.write target = .readFailed
    else pass.write target ≠ .done

/-- The changed packages whose edits all landed. -/
def landed : List (PkgName × Option Forward) :=
  changed.filter fun entry =>
    ∀ target ∈ edits (pass.stored v entry.1) entry.2, pass.failed v changed target = false

def recordPackage (shard : Shard) (entry : PkgName × Option Forward) : Shard :=
  match entry.2 with
  | some forward => shard.insert entry.1 forward
  | none => shard.erase entry.1

/-- A shard with its landed packages; a regenerated one holds nothing else. -/
def updateShard (c : Char) : Shard :=
  ((pass.landed v changed).filter fun entry => entry.1.first = c).foldl recordPackage
    (if pass.scope = .regenerate then ∅ else v.requires c)

/-- The shards a pass writes, in order. -/
def updated : List Char :=
  shardChars.filter fun c =>
    pass.scope = .regenerate || (pass.landed v changed).any fun entry => entry.1.first = c

end

/-- Write the shards in order up to the first failure. -/
def recordShards (record : Char → Outcome) (wanted : Char → Shard) :
    List Char → (Char → Shard) → (Char → Shard) × Bool
  | [], shards => (shards, true)
  | c :: rest, shards =>
    let shards := if (record c).applies then Function.update shards c (wanted c) else shards
    if record c = .done then recordShards record wanted rest shards else (shards, false)

/-- Bring the views up to date, and whether that ended well. -/
def refresh (pass : Pass) (v : Views) : Views × Bool :=
  match pass.changed v with
  | none => (v, false)
  | some changed =>
    if pass.scope = .regenerate ∧ pass.listed = false then (v, false)
    else
      let usedBy := pass.writeUsedBy v changed
      if pass.recording then
        let recorded := recordShards pass.record (pass.updateShard v changed)
          (pass.updated v changed) v.requires
        (⟨recorded.1, usedBy⟩, recorded.2)
      else (⟨v.requires, usedBy⟩, false)

end Pass

/-- The views before the `n`-th pass. -/
def views (passes : ℕ → Pass) : ℕ → Views
  | 0 => .empty
  | n + 1 => ((passes n).refresh (views passes n)).1

end Pypiron.UsedBy
