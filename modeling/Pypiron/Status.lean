import Pypiron.Origin
import Pypiron.RankedMerge
import Pypiron.Sidecar
import Pypiron.VersionedCell
import Mathlib.Logic.Relation

/-! Project status markers and their pairwise reconciliation. A missing marker
means `active` at epoch zero, yet it does not sit in one place of the merge
order: it agrees with a stored default of any tag and yields to every other
event. A run is followed through the upper bounds of the stored events alone. -/
namespace Pypiron
open RankedMerge

inductive ProjectStatus where
  | active
  | archived
  | quarantined
  | deprecated
  deriving DecidableEq, Repr

/-- How much the status withholds; a split merge keeps the stricter one. -/
def ProjectStatus.restriction : ProjectStatus → Nat
  | active => 0
  | deprecated => 1
  | archived => 2
  | quarantined => 3

structure ProjectStatusDoc where
  status : ProjectStatus
  reason : Option String
  deriving DecidableEq, Repr

instance : Inhabited ProjectStatusDoc := ⟨⟨.active, none⟩⟩

structure StoredProjectStatus where
  doc : ProjectStatusDoc
  epoch : Nat
  origin : Option Origin
  deriving DecidableEq, Repr

/-- A status observation suitable for a conditional merge. -/
structure VersionedProjectStatus extends StoredProjectStatus where
  etag : Nat
  deriving DecidableEq, Repr

inductive StatusConvergence where
  | inSync
  | updatedLeft
  | updatedRight
  deriving DecidableEq, Repr

def statusCasAttempts : Nat := 8

abbrev StatusCell := VersionedCell StoredProjectStatus

def readStatusVersioned (cell : StatusCell) : Option VersionedProjectStatus :=
  cell.get.map fun (stored, etag) => ⟨stored, etag⟩

/-- Operator-authored over relayed, then the epoch, then the restriction, then
private over untagged. -/
def statusKey (s : StoredProjectStatus) : Bool ×ₗ Nat ×ₗ Nat ×ₗ Bool :=
  toLex (s.origin != some .mirror,
    toLex (s.epoch, toLex (s.doc.status.restriction, s.origin == some .priv)))

def isDefault (s : StoredProjectStatus) : Bool := s.epoch == 0 && s.doc == default

/-- `expected = none` means create-only; otherwise replace only if unchanged. -/
def putStatusIfVersion (cell : StatusCell) (expected : Option Nat) (event : StoredProjectStatus) :
    Bool × StatusCell :=
  match expected with
  | some etag =>
    let (written, cell) := cell.putIfMatch etag event
    (written.isSome, cell)
  | none =>
    let (written, cell) := cell.putIfNoneMatch event
    (written.isSome, cell)

section Reconcile
variable (sha256 : Bytes → String) (encode : StoredProjectStatus → Bytes)

def statusMerge (a b : Option StoredProjectStatus) : MergeChoice :=
  match a, b with
  | none, none => .equal
  | some s, none => if isDefault s then .equal else .a
  | none, some s => if isDefault s then .equal else .b
  | some a, some b => rankedMerge sha256 (statusKey a) (encode a) (statusKey b) (encode b)

variable {ι : Type*} [DecidableEq ι]

/-- The retry loop of one reconciliation, on a fleet of status markers. Losing a
conditional write re-reads both sides. -/
def reconcileStatusLoop (pkg : String) (left right : ι) :
    Nat → (ι → StatusCell) → Except String StatusConvergence × (ι → StatusCell)
  | 0, fleet =>
    (.error ("could not reconcile project status for '" ++ pkg ++ "' after 8 attempts"), fleet)
  | attempts + 1, fleet =>
    let leftStatus := readStatusVersioned (fleet left)
    let rightStatus := readStatusVersioned (fleet right)
    match statusMerge sha256 encode (leftStatus.map (·.toStoredProjectStatus))
        (rightStatus.map (·.toStoredProjectStatus)) with
    | .equal => (.ok .inSync, fleet)
    | .a =>
      match leftStatus with
      | none => (.error "status merge selected an absent left winner", fleet)
      | some winner =>
        let (written, cell) := putStatusIfVersion (fleet right) (rightStatus.map (·.etag))
          winner.toStoredProjectStatus
        let fleet := Function.update fleet right cell
        if written then (.ok .updatedRight, fleet)
        else reconcileStatusLoop pkg left right attempts fleet
    | .b =>
      match rightStatus with
      | none => (.error "status merge selected an absent right winner", fleet)
      | some winner =>
        let (written, cell) := putStatusIfVersion (fleet left) (leftStatus.map (·.etag))
          winner.toStoredProjectStatus
        let fleet := Function.update fleet left cell
        if written then (.ok .updatedLeft, fleet)
        else reconcileStatusLoop pkg left right attempts fleet

def reconcileStatusPair (pkg : String) (left right : ι) (fleet : ι → StatusCell) :
    Except String StatusConvergence × (ι → StatusCell) :=
  reconcileStatusLoop sha256 encode pkg left right statusCasAttempts fleet

end Reconcile
end Pypiron
