import Mathlib.Algebra.Group.Nat.Defs
import Mathlib.Data.Int.ConditionallyCompleteOrder
import Pypiron.ConditionalWrites
import Pypiron.ThreadPool

/-! The leader lease: one object, renewed by its holder, taken over once it has
expired, and overwritten with an expired lease of no holder on shutdown. -/
namespace Pypiron.Leader
open Program

structure Lease where
  holder : String
  term : ℕ
  expiresAt : ℤ
  deriving DecidableEq, Repr

/-- What the lease object's bytes decode to. -/
inductive LeaseBody where
  | lease (lease : Lease)
  | malformed
  deriving DecidableEq, Repr

/-- A manager's holder id is never empty, and its TTL is at least a second. -/
@[ext]
structure LeaseManager where
  holder : String
  ttlSecs : ℤ
  named : holder ≠ ""
  ttl_pos : 0 < ttlSecs

/-- A clock reading, or a request to the lease object. -/
inductive LeaseOp where
  | nowUtc
  | storage (request : VersionedCell.Request LeaseBody)

def LeaseOp.Ans : LeaseOp → Type
  | nowUtc => ℤ
  | storage request => request.Ans

abbrev LeaseM := Program LeaseOp LeaseOp.Ans String

def nowUtc : LeaseM ℤ := call .nowUtc fun answer => done (.ok answer)

def getWithEtag : LeaseM (Option (LeaseBody × ℕ)) :=
  call (.storage .getWithEtag) fun answer => done answer

def putIfNoneMatch (lease : Lease) : LeaseM (Option ℕ) :=
  call (.storage (.putIfNoneMatch (.lease lease))) fun answer => done answer

def putIfMatch (etag : ℕ) (lease : Lease) : LeaseM (Option ℕ) :=
  call (.storage (.putIfMatch etag (.lease lease))) fun answer => done answer

/-- `current.term + 1` on a `u64`. -/
def nextTerm (term : ℕ) : ℕ := (term + 1) % 2 ^ 64

namespace LeaseManager

def leaseJson (manager : LeaseManager) (term : ℕ) (now : ℤ) : Lease :=
  ⟨manager.holder, term, now + manager.ttlSecs⟩

/-- Expired, or impossibly far in the future. -/
def mayTake (manager : LeaseManager) (now : ℤ) (current : Lease) : Prop :=
  now > current.expiresAt ∨ current.expiresAt > now + 3 * manager.ttlSecs

instance (manager : LeaseManager) (now : ℤ) (current : Lease) :
    Decidable (manager.mayTake now current) :=
  inferInstanceAs (Decidable (_ ∨ _))

/-- Renew or steal the lease found under `etag`. -/
def holdOver (manager : LeaseManager) (now : ℤ) (current : Lease) (etag : ℕ) : LeaseM Bool :=
  if current.holder = manager.holder then do
    let renewed ← putIfMatch etag (manager.leaseJson current.term now)
    return renewed.isSome
  else if manager.mayTake now current then do
    let stolen ← putIfMatch etag (manager.leaseJson (nextTerm current.term) now)
    return stolen.isSome
  else return false

/-- A corrupt lease is treated as expired. -/
def current : LeaseBody → Lease
  | .lease lease => lease
  | .malformed => ⟨"", 0, 0⟩

/-- `try_hold` once the clock has been read. -/
def readLease (manager : LeaseManager) (now : ℤ) : LeaseM Bool := do
  match ← getWithEtag with
  | none =>
    let won ← putIfNoneMatch (manager.leaseJson 1 now)
    return won.isSome
  | some (body, etag) => manager.holdOver now (current body) etag

def tryHold (manager : LeaseManager) : LeaseM Bool := do
  let now ← nowUtc
  manager.readLease now

/-- Any failure simply reports "not leader". -/
def isLeader (manager : LeaseManager) : LeaseM Bool :=
  manager.tryHold.attempt fun
    | .ok held => return held
    | .error _ => return false

/-- Overwrite our own lease with an expired one of no holder. Failures are
logged and dropped. -/
def release (manager : LeaseManager) : LeaseM Unit :=
  getWithEtag.attempt fun
    | .ok (some (.lease lease, etag)) =>
      if lease.holder = manager.holder then
        (putIfMatch etag ⟨"", lease.term, 0⟩).attempt fun _ => return ()
      else return ()
    | _ => return ()

end LeaseManager

inductive LeaseCall where
  | tryHold (manager : LeaseManager)
  | release (manager : LeaseManager)

inductive LeaseOutcome where
  | held (held : Bool)
  | released
  deriving DecidableEq, Repr

def LeaseCall.manager : LeaseCall → LeaseManager
  | tryHold manager => manager
  | release manager => manager

def LeaseCall.program : LeaseCall → LeaseM LeaseOutcome
  | tryHold manager => do return .held (← manager.tryHold)
  | release manager => do
    manager.release
    return .released

/-- The lease object and the clock all managers read. -/
structure LeaseStore where
  clock : ℤ
  cell : VersionedCell LeaseBody

inductive LeasePerforms (store : LeaseStore) : (op : LeaseOp) → op.Ans → LeaseStore → Prop where
  | nowUtc : LeasePerforms store .nowUtc store.clock store
  | storage {request : VersionedCell.Request LeaseBody} {answer : request.Ans}
      {cell : VersionedCell LeaseBody} : VersionedCell.Serves store.cell request answer cell →
      LeasePerforms store (.storage request) answer { store with cell }

/-- The managers of one lease: time only passes, and a dropped check leaves
whatever its requests have done. -/
def leases : ThreadPool.System LeaseStore LeaseCall LeaseOp LeaseOp.Ans String LeaseOutcome where
  program := LeaseCall.program
  performs _ := LeasePerforms
  drifts store store' := ∃ later, store.clock ≤ later ∧ store' = { store with clock := later }
  drops _ store store' := store' = store

abbrev LeaseConfig :=
  ThreadPool.Config LeaseStore LeaseCall LeaseOp LeaseOp.Ans String LeaseOutcome

end Pypiron.Leader
