import Pypiron.Origin
import Pypiron.Program

/-! The operations on a package's claim object `packages/<pkg>/.origin`, as
programs over conditional storage calls. Every call may fail; the listings that
guard a release are answered by the rest of the bucket. -/
namespace Pypiron

/-- One state observation and the version token that proved it. -/
structure OriginObservation where
  state : OriginState
  etag : Nat
  deriving DecidableEq, Repr

/-- `owner` holds the claim; `etag` is present when this call wrote it. -/
structure Claim where
  owner : OriginState
  etag : Option Nat
  deriving DecidableEq, Repr

structure ClaimRequest where
  origin : String
  unclaimed : Option OriginObservation
  deriving DecidableEq, Repr

inductive ClaimOp where
  | readObservation
  | putIfNoneMatch (state : OriginState)
  | putIfMatch (etag : Nat) (state : OriginState)
  | packageHasTruth
  | hasPendingWrite
  | hasPendingReplicationNotes
  deriving DecidableEq, Repr

@[reducible] def ClaimOp.Val : ClaimOp → Type
  | readObservation => Option OriginObservation
  | putIfNoneMatch _ => Option Nat
  | putIfMatch _ _ => Option Nat
  | packageHasTruth => Bool
  | hasPendingWrite => Bool
  | hasPendingReplicationNotes => Bool

abbrev ClaimOp.Ans (op : ClaimOp) : Type := Except String op.Val

abbrev ClaimM (α : Type) := Program ClaimOp ClaimOp.Ans String α

namespace ClaimM
open Program

def readOriginObservation : ClaimM (Option OriginObservation) := call .readObservation done

def putIfNoneMatch (state : OriginState) : ClaimM (Option Nat) := call (.putIfNoneMatch state) done

def putIfMatch (etag : Nat) (state : OriginState) : ClaimM (Option Nat) :=
  call (.putIfMatch etag state) done

def packageHasTruth : ClaimM Bool := call .packageHasTruth done

def hasPendingWrite : ClaimM Bool := call .hasPendingWrite done

def hasPendingReplicationNotes : ClaimM Bool := call .hasPendingReplicationNotes done

end ClaimM
open ClaimM Program

def claimAttempts : Nat := 8

def originAttempts : Nat := 8

def claimTarget (value : String) : ClaimM OriginState :=
  match OriginState.parse value with
  | none => bail ("invalid origin claim state '" ++ value ++ "'")
  | some .unclaimed => bail "cannot claim a package as unclaimed"
  | some state => pure state

/-- Create the object, else CAS an `unclaimed` sentinel, else report the holder. -/
def claimLoop (pkg : String) (target : OriginState) : Nat → ClaimM Claim
  | 0 => bail ("could not settle the origin claim for '" ++ pkg ++ "' after 8 attempts")
  | attempts + 1 => do
    match ← putIfNoneMatch target with
    | some etag => pure ⟨target, some etag⟩
    | none =>
      match ← readOriginObservation with
      | none => bail ("origin claim for '" ++ pkg ++ "' vanished mid-claim")
      | some observed =>
        if observed.state = .unclaimed then
          match ← putIfMatch observed.etag target with
          | some etag => pure ⟨target, some etag⟩
          | none => claimLoop pkg target attempts
        else pure ⟨observed.state, none⟩

/-- Atomically claim the package, first write wins. A hint that already observed
the sentinel goes straight to the CAS; a stale one falls back to the loop. -/
def claimOrigin (pkg : String) (request : ClaimRequest) : ClaimM Claim := do
  let target ← claimTarget request.origin
  match request.unclaimed with
  | none => claimLoop pkg target claimAttempts
  | some observed =>
    if observed.state ≠ .unclaimed then
      bail ("claim hint for '" ++ pkg ++ "' must be an unclaimed observation, not '" ++
        observed.state.asStr ++ "'")
    else
      match ← putIfMatch observed.etag target with
      | some etag => pure ⟨target, some etag⟩
      | none => claimLoop pkg target claimAttempts

/-- The one demotion: CAS an observation proven to be `mirror` to `private`. -/
def demoteObservedMirror (observed : OriginObservation) : ClaimM (Option OriginObservation) := do
  if observed.state ≠ .mirror then pure none
  else return (← putIfMatch observed.etag .priv).map fun etag => ⟨.priv, etag⟩

/-- Release an orphan `mirror` claim to the sentinel while the package is empty. -/
def releaseObservedEmptyMirror (observed : OriginObservation) :
    ClaimM (Option OriginObservation) := do
  if observed.state ≠ .mirror then pure none
  else if ← packageHasTruth then pure none
  else return (← putIfMatch observed.etag .unclaimed).map fun etag => ⟨.unclaimed, etag⟩

/-- `known || ask`, which asks only when nothing is known yet. -/
def orAsk (known : Bool) (ask : ClaimM Bool) : ClaimM Bool := if known then pure true else ask

def releasableForRepurpose (pkg : String) : ClaimM (Option OriginObservation) := do
  let observed ← readOriginObservation
  let truth ← packageHasTruth
  let pending ← hasPendingWrite
  let active ← orAsk (truth || pending) hasPendingReplicationNotes
  if active then
    bail ("package '" ++ pkg ++
      "' still has package truth, pending write markers, or replication work")
  else pure observed

/-- The re-listing after a release. -/
def activityAppeared : ClaimM Bool := do
  orAsk (← packageHasTruth) do
    orAsk (← hasPendingWrite) hasPendingReplicationNotes

/-- The operator's release. It may consume a private claim, and restores the
original owner when activity appeared, or could not be ruled out, after the CAS. -/
def releaseObservedForRepurpose (pkg : String) (observed : OriginObservation) :
    ClaimM (Option OriginObservation) := do
  if observed.state = .unclaimed then pure none
  else
    match ← releasableForRepurpose pkg with
    | none => pure none
    | some current =>
      if current ≠ observed then pure none
      else
        match ← putIfMatch current.etag .unclaimed with
        | none => pure none
        | some etag =>
          let unclaimed : OriginObservation := ⟨.unclaimed, etag⟩
          let restore := claimOrigin pkg ⟨current.state.asStr, some unclaimed⟩
          activityAppeared.attempt fun
            | .error error => restore.attempt fun
              | .error cause => bail
                  ("restoring the origin claim after a failed release check: " ++ cause)
              | .ok _ => bail ("checking the package after releasing its origin: " ++ error)
            | .ok true => do
              let restored ← restore
              bail ("package '" ++ pkg ++ "' changed while its origin was released; " ++
                "restored owner '" ++ restored.owner.asStr ++ "'")
            | .ok false => pure (some unclaimed)

/-- Undo a release on an earlier bucket. A private racer that won meanwhile is
already safe; a mirror racer in front of a private original is demoted. -/
def restoreReleasedForRepurpose (pkg : String) (original : OriginState)
    (unclaimed : OriginObservation) : ClaimM Unit := do
  let restored ← claimOrigin pkg ⟨original.asStr, some unclaimed⟩
  let failure : ClaimM Unit := bail ("could not restore package '" ++ pkg ++ "' origin '" ++
    original.asStr ++ "' after partial release; current owner is '" ++ restored.owner.asStr ++ "'")
  if restored.owner = original ∨ (original = .mirror ∧ restored.owner = .priv) then pure ()
  else if original = .priv ∧ restored.owner = .mirror then
    match (← readOriginObservation).filter (·.state = .mirror) with
    | none => bail ("mirror rollback claim for '" ++ pkg ++ "' changed")
    | some mirror =>
      if (← demoteObservedMirror mirror).isSome then pure () else failure
  else failure

/-- Drive the claim to `private`: create it, CAS the sentinel, or demote a mirror. -/
def ensurePrivateLoop (pkg : String) : Nat → ClaimM Unit
  | 0 => bail ("could not make '" ++ pkg ++ "' private on the destination after 8 attempts")
  | attempts + 1 => do
    match ← readOriginObservation with
    | none =>
      if (← claimOrigin pkg ⟨"private", none⟩).owner = .priv then pure ()
      else ensurePrivateLoop pkg attempts
    | some observed =>
      match observed.state with
      | .priv => pure ()
      | .mirror =>
        if (← demoteObservedMirror observed).isSome then pure ()
        else ensurePrivateLoop pkg attempts
      | .unclaimed =>
        if (← claimOrigin pkg ⟨"private", some observed⟩).owner = .priv then pure ()
        else ensurePrivateLoop pkg attempts

def ensurePrivateOrigin (pkg : String) : ClaimM Unit := ensurePrivateLoop pkg originAttempts

/-- Drive the claim to at least `mirror`, and report what holds it: a private
claim is left alone, a racer's claim is accepted. -/
def ensureMirrorLoop (pkg : String) : Nat → ClaimM Origin
  | 0 => bail ("could not make '" ++ pkg ++ "' mirror on the destination after 8 attempts")
  | attempts + 1 => do
    let observed ← readOriginObservation
    match observed.map OriginObservation.state with
    | some .mirror => pure .mirror
    | some .priv => pure .priv
    | _ =>
      match (← claimOrigin pkg ⟨"mirror", observed.filter (·.state = .unclaimed)⟩).owner with
      | .mirror => pure .mirror
      | .priv => pure .priv
      | .unclaimed => ensureMirrorLoop pkg attempts

def ensureMirrorOrigin (pkg : String) : ClaimM Origin := ensureMirrorLoop pkg originAttempts

end Pypiron
