import Pypiron.ConditionalWrites
import Pypiron.Replicate.Notes
import Pypiron.ThreadPool
import Mathlib.Data.List.Dedup

/-! The topology stamp every bucket of a deployment carries: the ordered bucket
list, its hash, and a generation. Startup verification, the re-verification of
one bucket and migration all read a stamp and write it conditionally. -/
namespace Pypiron.Topology
open Program

structure TopologyStamp where
  buckets : List String
  hash : String
  generation : ℕ
  deriving DecidableEq, Repr

/-- What a stamp object's bytes decode to. -/
inductive StampBody where
  | stamp (stamp : TopologyStamp)
  | malformed
  deriving DecidableEq, Repr

structure BucketHandle (β : Type) where
  storage : β
  name : String
  supportsLeases : Bool

/-- One process's configured buckets, in preference order. -/
structure BucketSet (β : Type) where
  handles : List (BucketHandle β)
  process : ℕ
  configured : handles ≠ []

structure TopologyReport where
  generation : Option ℕ
  verifiedIndices : List ℕ
  stampedIndices : List ℕ
  unreachableIndices : List ℕ
  deriving DecidableEq, Repr

inductive TopologyIndexStatus where
  | dormant
  | verified
  | stamped
  | restamped
  | unreachable
  deriving DecidableEq, Repr

/-- A process's memory of the generation it verified, and requests to a bucket's
stamp. -/
inductive TopologyOp (β : Type) where
  | topologyGeneration (process : ℕ)
  | setTopologyGeneration (process generation : ℕ)
  | stamp (bucket : β) (asked : VersionedCell.Request StampBody)

def TopologyOp.Ans {β : Type} : TopologyOp β → Type
  | topologyGeneration _ => Option ℕ
  | setTopologyGeneration _ _ => Unit
  | stamp _ asked => asked.Ans

abbrev TopologyM (β : Type) := Program (TopologyOp β) TopologyOp.Ans String

section Code
variable {β : Type} (sha256 : String → String)

def topologyGeneration (process : ℕ) : TopologyM β (Option ℕ) :=
  call (.topologyGeneration process) fun answer => done (.ok answer)

def setTopologyGeneration (process generation : ℕ) : TopologyM β Unit :=
  call (.setTopologyGeneration process generation) fun _ => done (.ok ())

/-- The answer is handed on with its error, for the caller to classify. -/
def getWithEtag (bucket : β) : TopologyM β (Except String (Option (StampBody × ℕ))) :=
  call (.stamp bucket .getWithEtag) fun answer => done (.ok answer)

def putIfNoneMatch (bucket : β) (stamp : TopologyStamp) :
    TopologyM β (Except String (Option ℕ)) :=
  call (.stamp bucket (.putIfNoneMatch (.stamp stamp))) fun answer => done (.ok answer)

def putIfMatch (bucket : β) (etag : ℕ) (stamp : TopologyStamp) :
    TopologyM β (Except String (Option ℕ)) :=
  call (.stamp bucket (.putIfMatch etag (.stamp stamp))) fun answer => done (.ok answer)

def withContext (context error : String) : String := context ++ ": " ++ error

def quoted (name : String) : String := "'" ++ name ++ "'"

/-- sha256 over the names joined by a NUL byte. -/
def topologyHash (names : List String) : String := sha256 (String.intercalate "\x00" names)

def parseStamp (bucket : String) : StampBody → Except String TopologyStamp
  | .stamp stamp => .ok stamp
  | .malformed => .error ("parse topology stamp on bucket " ++ quoted bucket)

def checkStampIdentity (bucket : String) (found : TopologyStamp) (expectedHash : String)
    (expected : List String) : Except String Unit :=
  if found.hash ≠ expectedHash ∨ found.buckets ≠ expected then
    .error ("bucket " ++ quoted bucket ++ " was stamped for a different bucket topology (" ++
      reprStr found.buckets ++ ") than this node is configured with (" ++ reprStr expected ++
      "); refusing to start. If you intend to change the bucket set, re-stamp it deliberately.")
  else .ok ()

def checkExactStamp (bucket : String) (found : TopologyStamp) (expectedHash : String)
    (expected : List String) (generation : ℕ) : Except String Unit := do
  checkStampIdentity bucket found expectedHash expected
  if found.generation ≠ generation then
    .error ("bucket " ++ quoted bucket ++ " has topology generation " ++
      toString found.generation ++ ", expected " ++ toString generation)
  else .ok ()

namespace BucketSet
variable (set : BucketSet β)

def isMulti : Bool := 1 < set.handles.length

def names : List String := set.handles.map (·.name)

/-- The first name that an earlier handle already has. -/
def findDuplicate : List String → List String → Option String
  | _, [] => none
  | seen, name :: rest => if name ∈ seen then some name else findDuplicate (name :: seen) rest

/-- The first handle whose storage tag an earlier name already reduces to. -/
def findTagClash : List (String × String) → List String → Option (String × String × String)
  | _, [] => none
  | tags, name :: rest =>
    let tag := Notes.bucketTag name
    match tags.lookup tag with
    | some prior => some (prior, name, tag)
    | none => findTagClash ((tag, name) :: tags) rest

def validateTopologyConfig : Except String Unit := do
  if let some duplicate := findDuplicate [] set.names then
    .error ("duplicate bucket identity " ++ quoted duplicate ++
      " in multi-bucket topology; each configured bucket must be unique")
  if let some (prior, name, tag) := findTagClash [] set.names then
    .error ("bucket identities " ++ quoted prior ++ " and " ++ quoted name ++
      " both reduce to storage tag " ++ quoted tag ++
      ", which would merge their replication and counter keyspaces; rename one so the two " ++
      "differ in more than punctuation")
  if let some handle := set.handles.find? (!·.supportsLeases) then
    .error ("multi-bucket requires a backend with conditional writes; bucket " ++
      quoted handle.name ++ " does not support them")

end BucketSet

/-- What the reads of a pass found: the highest generation, each bucket that
answered with its stamp and etag, and the buckets that did not answer. -/
structure Survey (β : Type) where
  generation : Option ℕ
  reachable : List (ℕ × BucketHandle β × Option (TopologyStamp × ℕ))
  unreachable : List ℕ

def observe (generation : Option ℕ) (found : TopologyStamp) : Option ℕ :=
  some (generation.elim found.generation (max · found.generation))

/-- The read loop of verification and migration. -/
def readStamps (isAvailability : ℕ → String → Bool) :
    List (ℕ × BucketHandle β) → Survey β → TopologyM β (Survey β)
  | [], survey => return survey
  | (index, handle) :: rest, survey => do
    match ← getWithEtag handle.storage with
    | .ok (some (body, etag)) =>
      let found ← done (parseStamp handle.name body)
      readStamps isAvailability rest { survey with
        generation := observe survey.generation found
        reachable := survey.reachable ++ [(index, handle, some (found, etag))] }
    | .ok none =>
      readStamps isAvailability rest
        { survey with reachable := survey.reachable ++ [(index, handle, none)] }
    | .error error =>
      if isAvailability index error then
        readStamps isAvailability rest { survey with unreachable := survey.unreachable ++ [index] }
      else bail (withContext ("read topology stamp from bucket " ++ quoted handle.name) error)

/-- A lost conditional write: accept the winner only when a fresh read proves it
wrote the exact intended stamp. -/
def verifyRacedStamp (handle : BucketHandle β) (index : ℕ) (target : TopologyStamp)
    (isAvailability : ℕ → String → Bool) : TopologyM β Bool := do
  match ← getWithEtag handle.storage with
  | .ok (some (body, _)) =>
    let found ← done (parseStamp handle.name body)
    done (checkExactStamp handle.name found target.hash target.buckets target.generation)
    return true
  | .ok none =>
    bail ("topology stamp on bucket " ++ quoted handle.name ++
      " vanished after a conditional-write race")
  | .error error =>
    if isAvailability index error then return false
    else bail (withContext ("re-read topology stamp on bucket " ++ quoted handle.name) error)

inductive Written where
  | stamped
  | verified
  | unreachable
  deriving DecidableEq, Repr

/-- Write the target over the version read under `etag`, or create it. -/
def writeStamp (target : TopologyStamp) (isAvailability : ℕ → String → Bool) (context : String)
    (index : ℕ) (handle : BucketHandle β) (etag : Option ℕ) : TopologyM β Written := do
  let result ← match etag with
    | some etag => putIfMatch handle.storage etag target
    | none => putIfNoneMatch handle.storage target
  match result with
  | .ok (some _) => return .stamped
  | .ok none =>
    if ← verifyRacedStamp handle index target isAvailability then return .verified
    else return .unreachable
  | .error error =>
    if isAvailability index error then return .unreachable
    else bail (withContext (context ++ " " ++ quoted handle.name) error)

def TopologyReport.record (report : TopologyReport) (index : ℕ) : Written → TopologyReport
  | .stamped => { report with stampedIndices := report.stampedIndices ++ [index] }
  | .verified => { report with verifiedIndices := report.verifiedIndices ++ [index] }
  | .unreachable => { report with unreachableIndices := report.unreachableIndices ++ [index] }

/-- The write loop of verification and migration. -/
def stampAll (target : TopologyStamp) (isAvailability : ℕ → String → Bool) (context : String) :
    List (ℕ × BucketHandle β × Option ℕ) → TopologyReport → TopologyM β TopologyReport
  | [], report => return report
  | (index, handle, etag) :: rest, report => do
    let written ← writeStamp target isAvailability context index handle etag
    stampAll target isAvailability context rest (report.record index written)

/-- `sort_unstable`, `dedup`, and the generation the pass committed to. -/
def TopologyReport.finish (report : TopologyReport) (generation : ℕ) : TopologyReport :=
  { report with
    unreachableIndices := (report.unreachableIndices.mergeSort (· ≤ ·)).dedup
    generation := some generation }

def namesAt (set : BucketSet β) (indices : List ℕ) : String :=
  ", ".intercalate ((indices.filterMap fun index => set.handles[index]?).map (quoted ·.name))

/-- Every stamp tied at the highest generation must agree with the configured
topology. -/
def checkTied (target : TopologyStamp) :
    List (ℕ × BucketHandle β × Option (TopologyStamp × ℕ)) → Except String (List ℕ)
  | [] => .ok []
  | (index, handle, some (found, _)) :: rest =>
    if found.generation = target.generation then do
      checkStampIdentity handle.name found target.hash target.buckets
      return index :: (← checkTied target rest)
    else checkTied target rest
  | (_, _, none) :: rest => checkTied target rest

/-- The buckets a verification still has to stamp: the laggards and the bare. -/
def laggards (generation : ℕ) (reachable : List (ℕ × BucketHandle β × Option (TopologyStamp × ℕ))) :
    List (ℕ × BucketHandle β × Option ℕ) :=
  reachable.filterMap fun
    | (index, handle, some (found, etag)) =>
      if found.generation = generation then none else some (index, handle, some etag)
    | (index, handle, none) => some (index, handle, none)

def noReport : TopologyReport := ⟨none, [], [], []⟩

def enumerate (set : BucketSet β) : List (ℕ × BucketHandle β) :=
  set.handles.zipIdx.map fun (handle, index) => (index, handle)

def verifyTopologyWith (set : BucketSet β) (isAvailability : ℕ → String → Bool) :
    TopologyM β TopologyReport := do
  if !set.isMulti then return noReport
  done set.validateTopologyConfig
  let remembered ← topologyGeneration set.process
  let survey ← readStamps isAvailability (enumerate set) ⟨remembered, [], []⟩
  if survey.reachable.isEmpty then
    bail "cannot verify topology: no configured bucket is reachable at startup"
  let unstamped := survey.reachable.filterMap fun (index, _, current) =>
    if current.isNone then some index else none
  if !unstamped.isEmpty && !survey.unreachable.isEmpty then
    bail ("bucket(s) " ++ namesAt set unstamped ++ " carry no topology stamp and bucket(s) " ++
      namesAt set survey.unreachable ++ " did not answer, so this bucket list cannot be checked " ++
      "against the deployment before stamping it; start once every configured bucket is reachable")
  let generation := survey.generation.getD 0
  let target : TopologyStamp := ⟨set.names, topologyHash sha256 set.names, generation⟩
  let verified ← done (checkTied target survey.reachable)
  let report ← stampAll target isAvailability "conditionally stamp topology on bucket"
    (laggards generation survey.reachable) ⟨none, verified, [], survey.unreachable⟩
  setTopologyGeneration set.process generation
  return report.finish generation

/-- `checked_add` on a `u64`. -/
def checkedSucc (generation : ℕ) : Option ℕ :=
  if generation + 1 < 2 ^ 64 then some (generation + 1) else none

def migrateTopologyWith (set : BucketSet β) (isAvailability : ℕ → String → Bool) :
    TopologyM β TopologyReport := do
  if !set.isMulti then return noReport
  done set.validateTopologyConfig
  let remembered ← topologyGeneration set.process
  let survey ← readStamps isAvailability (enumerate set) ⟨none, [], []⟩
  if survey.reachable.isEmpty then
    bail "cannot migrate topology: no configured bucket is reachable"
  if let (some known, some observed) := (remembered, survey.generation) then
    if observed < known then
      bail ("reachable topology generation regressed to " ++ toString observed ++
        "; this process previously verified " ++ toString known)
  match checkedSucc ((survey.generation.or remembered).getD 0) with
  | none => bail "topology generation overflow"
  | some generation =>
    let target : TopologyStamp := ⟨set.names, topologyHash sha256 set.names, generation⟩
    let report ← stampAll target isAvailability "migrate topology on bucket"
      (survey.reachable.map fun (index, handle, current) => (index, handle, current.map (·.2)))
      ⟨none, [], [], survey.unreachable⟩
    setTopologyGeneration set.process generation
    return report.finish generation

def Written.status (wrote : TopologyIndexStatus) : Written → TopologyIndexStatus
  | .stamped => wrote
  | .verified => .verified
  | .unreachable => .unreachable

def verifyTopologyIndexWith (set : BucketSet β) (index : ℕ) (isAvailability : ℕ → String → Bool) :
    TopologyM β TopologyIndexStatus := do
  match set.handles[index]? with
  | none => bail ("bucket index " ++ toString index ++ " is out of range")
  | some handle =>
    if !set.isMulti then return .dormant
    done set.validateTopologyConfig
    match ← topologyGeneration set.process with
    | none => bail "topology has not been verified; run startup verification first"
    | some generation =>
      let target : TopologyStamp := ⟨set.names, topologyHash sha256 set.names, generation⟩
      match ← getWithEtag handle.storage with
      | .error error =>
        if isAvailability index error then return .unreachable
        else bail (withContext ("read topology stamp from bucket " ++ quoted handle.name) error)
      | .ok none =>
        let written ← writeStamp target isAvailability "stamp topology on bucket" index handle none
        return written.status .stamped
      | .ok (some (body, etag)) =>
        let found ← done (parseStamp handle.name body)
        if found.generation = generation then do
          done (checkStampIdentity handle.name found target.hash target.buckets)
          return .verified
        else if generation < found.generation then
          bail ("bucket " ++ quoted handle.name ++ " has newer topology generation " ++
            toString found.generation ++ ", local generation is " ++ toString generation)
        else do
          let written ← writeStamp target isAvailability "re-stamp topology on bucket" index handle
            (some etag)
          return written.status .restamped

end Code

/-- A call with the process's bucket list and its error classifier. -/
inductive TopologyCall (β : Type) where
  | verify (set : BucketSet β) (isAvailability : ℕ → String → Bool)
  | verifyIndex (set : BucketSet β) (index : ℕ) (isAvailability : ℕ → String → Bool)
  | migrate (set : BucketSet β) (isAvailability : ℕ → String → Bool)

def TopologyCall.set {β : Type} : TopologyCall β → BucketSet β
  | verify set _ => set
  | verifyIndex set _ _ => set
  | migrate set _ => set

inductive TopologyOutcome where
  | report (report : TopologyReport)
  | status (status : TopologyIndexStatus)
  deriving DecidableEq, Repr

def TopologyCall.program {β : Type} (sha256 : String → String) :
    TopologyCall β → TopologyM β TopologyOutcome
  | verify set isAvailability => do
    return .report (← verifyTopologyWith sha256 set isAvailability)
  | verifyIndex set index isAvailability => do
    return .status (← verifyTopologyIndexWith sha256 set index isAvailability)
  | migrate set isAvailability => do
    return .report (← migrateTopologyWith sha256 set isAvailability)

/-- Every bucket's stamp, and what each process remembers. -/
structure TopologyStore (β : Type) where
  stamps : β → VersionedCell StampBody
  generations : ℕ → Option ℕ

section System
variable {β : Type} [DecidableEq β]

inductive TopologyPerforms (store : TopologyStore β) :
    (op : TopologyOp β) → op.Ans → TopologyStore β → Prop where
  | topologyGeneration :
      TopologyPerforms store (.topologyGeneration process) (store.generations process) store
  | setTopologyGeneration :
      TopologyPerforms store (.setTopologyGeneration process generation) ()
        { store with generations := Function.update store.generations process (some generation) }
  | stamp : VersionedCell.Serves (store.stamps bucket) asked answer cell →
      TopologyPerforms store (.stamp bucket asked) answer
        { store with stamps := Function.update store.stamps bucket cell }

/-- Processes over shared buckets. Nothing orders the calls of one process here,
and a process that restarts forgets the generation it verified. -/
def topology (sha256 : String → String) : ThreadPool.System (TopologyStore β) (TopologyCall β)
    (TopologyOp β) TopologyOp.Ans String TopologyOutcome where
  program := TopologyCall.program sha256
  performs _ := TopologyPerforms
  drifts store store' := ∃ process,
    store' = { store with generations := Function.update store.generations process none }
  drops _ store store' := store' = store

end System

abbrev TopologyConfig (β : Type) := ThreadPool.Config (TopologyStore β) (TopologyCall β)
  (TopologyOp β) TopologyOp.Ans String TopologyOutcome

end Pypiron.Topology
