import Mathlib.Data.Finset.Basic
import Mathlib.Data.Finset.SDiff
import Pypiron.Status
import Pypiron.ThreadPool

/-! The shared quarantined set: one conditionally written object for each bucket,
and the copy every node serves its byte gate from. Nodes poll it, publish edits to
it, arm their own copy ahead of a publish, and seed buckets that fell behind. -/
namespace Pypiron.Quarantine
open Program

def blocksDownloads (status : ProjectStatus) : Bool := status = .quarantined

/-- The envelope; its epoch is a `u64`. -/
structure StoredQuarantined where
  quarantined : Finset String
  epoch : ℕ
  deriving DecidableEq

instance : Inhabited StoredQuarantined := ⟨⟨∅, 0⟩⟩

inductive Body where
  | stored (value : StoredQuarantined)
  | unreadable (error : String)
  deriving DecidableEq

/-- What stands under the key; the revision is whatever else a provider folds into
an etag. -/
structure Object where
  body : Body
  revision : ℕ
  deriving DecidableEq

/-- An etag names exactly one object. -/
abbrev Etag := Object

/-- A node's live snapshot, as far as the quarantined set goes. -/
structure AdvisoryState where
  zipSha256 : Option String
  quarantined : Finset String
  quarantinedEtag : Option Etag
  quarantinedEpoch : ℕ
  quarantinedUnpublished : Bool
  deriving DecidableEq

inductive Refused where
  | no
  | older (live : ℕ)
  | pendingArm
  deriving DecidableEq, Repr

inductive QuarantinedEdit where
  | one (name : String) (blocked : Bool)
  | derive (name : String) (blocked : Bool)
  | sweep (set baseSet : Finset String) (baseEpoch : ℕ)
  deriving DecidableEq

def QuarantinedEdit.isSweep : QuarantinedEdit → Bool
  | sweep .. => true
  | one .. | derive .. => false

structure Marker where
  pkg : String
  nonce : ℕ
  deriving DecidableEq, Repr

def u64Max : ℕ := 2 ^ 64 - 1

def saturatingAddOne (epoch : ℕ) : ℕ := min (epoch + 1) u64Max

/-! ### The live snapshot -/

/-- The one way a set with an epoch enters the live snapshot. -/
def adoptQuarantined (state : AdvisoryState) (set : Finset String) (epoch : ℕ)
    (etag : Option (Option Etag)) : AdvisoryState × Refused :=
  let refused :=
    if epoch < state.quarantinedEpoch then .older state.quarantinedEpoch
    else if epoch = state.quarantinedEpoch ∧ state.quarantinedUnpublished ∧ set ≠ state.quarantined then
      .pendingArm
    else .no
  let etag := etag.getD state.quarantinedEtag
  (if refused = .no then
    { state with
      quarantined := set
      quarantinedEpoch := epoch
      quarantinedEtag := etag
      quarantinedUnpublished := false }
  else { state with quarantinedEtag := etag }, refused)

def withName (set : Finset String) (name : String) (blocked : Bool) : Finset String :=
  if blocked then insert name set else set.erase name

/-- Arm or disarm the local byte gate; the epoch stays. -/
def armLocalQuarantine (state : AdvisoryState) (pkg : String) (blocked : Bool) : AdvisoryState :=
  let quarantined := withName state.quarantined pkg blocked
  if quarantined = state.quarantined then state
  else { state with quarantined, quarantinedUnpublished := true }

/-! ### Requests -/

/-- Requests to one bucket, and the accesses to one node's snapshot. -/
inductive QuarantineOp (β ν : Type) where
  | getWithEtag (bucket : β)
  | listEtag (bucket : β)
  | getBytes (bucket : β)
  | putIfMatch (bucket : β) (etag : Etag) (value : StoredQuarantined)
  | putIfNoneMatch (bucket : β) (value : StoredQuarantined)
  | readStatus (bucket : β) (pkg : String)
  | listStatuses (bucket : β)
  | writeStatus (bucket : β) (pkg : String) (doc : ProjectStatusDoc)
  | clearStatus (bucket : β) (pkg : String)
  | putMarker (bucket : β) (pkg : String)
  | listMarkers (bucket : β)
  | deleteMarkers (bucket : β) (markers : List Marker)
  | requireGeneration (generation : ℕ)
  | readState (node : ν)
  | adopt (node : ν) (set : Finset String) (epoch : ℕ) (etag : Option (Option Etag))
  | armLocal (node : ν) (pkg : String) (blocked : Bool)
  | reload (node : ν) (zipSha256 : String)

variable {β ν : Type}

def QuarantineOp.Ans : QuarantineOp β ν → Type
  | getWithEtag _ | listEtag _ => Except String (Option Object)
  | getBytes _ => Except String Body
  | putIfMatch .. | putIfNoneMatch .. => Except String (Option Etag)
  | readStatus .. => Except String ProjectStatusDoc
  | listStatuses _ => Except String (List String)
  | writeStatus .. | clearStatus .. | putMarker .. | deleteMarkers .. | requireGeneration _ =>
    Except String Unit
  | listMarkers _ => Except String (List Marker)
  | readState _ => AdvisoryState
  | adopt .. => Refused
  | armLocal .. | reload .. => Unit

abbrev QuarantineM (β ν : Type) := Program (QuarantineOp β ν) QuarantineOp.Ans String

section Code

def getWithEtag (bucket : β) : QuarantineM β ν (Option Object) :=
  call (.getWithEtag bucket) fun answer => done answer

def quarantinedStorageEtag (bucket : β) : QuarantineM β ν (Option Etag) :=
  call (.listEtag bucket) fun answer => done answer

def getBytes (bucket : β) : QuarantineM β ν Body := call (.getBytes bucket) fun answer => done answer

def putIfMatch (bucket : β) (etag : Etag) (value : StoredQuarantined) :
    QuarantineM β ν (Option Etag) :=
  call (.putIfMatch bucket etag value) fun answer => done answer

def putIfNoneMatch (bucket : β) (value : StoredQuarantined) : QuarantineM β ν (Option Etag) :=
  call (.putIfNoneMatch bucket value) fun answer => done answer

def readStatus (bucket : β) (pkg : String) : QuarantineM β ν ProjectStatusDoc :=
  call (.readStatus bucket pkg) fun answer => done answer

def listStatuses (bucket : β) : QuarantineM β ν (List String) :=
  call (.listStatuses bucket) fun answer => done answer

def writeStatus (bucket : β) (pkg : String) (doc : ProjectStatusDoc) : QuarantineM β ν Unit :=
  call (.writeStatus bucket pkg doc) fun answer => done answer

def clearStatus (bucket : β) (pkg : String) : QuarantineM β ν Unit :=
  call (.clearStatus bucket pkg) fun answer => done answer

def putMarker (bucket : β) (pkg : String) : QuarantineM β ν Unit :=
  call (.putMarker bucket pkg) fun answer => done answer

def listMarkers (bucket : β) : QuarantineM β ν (List Marker) :=
  call (.listMarkers bucket) fun answer => done answer

def deleteMarkers (bucket : β) (markers : List Marker) : QuarantineM β ν Unit :=
  call (.deleteMarkers bucket markers) fun answer => done answer

def requireGeneration (generation : ℕ) : QuarantineM β ν Unit :=
  call (.requireGeneration generation) fun answer => done answer

def readState (node : ν) : QuarantineM β ν AdvisoryState :=
  call (.readState node) fun state => done (.ok state)

def adopt (node : ν) (set : Finset String) (epoch : ℕ) (etag : Option (Option Etag)) :
    QuarantineM β ν Refused :=
  call (.adopt node set epoch etag) fun refused => done (.ok refused)

def armLocal (node : ν) (pkg : String) (blocked : Bool) : QuarantineM β ν Unit :=
  call (.armLocal node pkg blocked) fun answer => done (.ok answer)

/-- The feed reload carries the quarantined set forward. -/
def reload (node : ν) (zipSha256 : String) : QuarantineM β ν Unit :=
  call (.reload node zipSha256) fun answer => done (.ok answer)

/-- Adopt a set another node published, when the key's listing etag has moved. -/
def reloadQuarantined (storage : β) (node : ν) : QuarantineM β ν Unit := do
  let etag ← quarantinedStorageEtag storage
  let loaded ← readState node
  if etag = loaded.quarantinedEtag then return ()
  else if etag.isNone then return ()
  else
    match ← getBytes storage with
    | .unreadable _ => return ()
    | .stored stored =>
      let _ ← adopt node stored.quarantined stored.epoch (some etag)
      return ()

/-- A failure keeps serving the last set. -/
def pollQuarantined (storage : β) (node : ν) : QuarantineM β ν Unit :=
  (reloadQuarantined storage node).attempt fun _ => return ()

/-- Write a set onto one bucket when its copy is absent, unreadable or older. -/
def seedQuarantinedOnto (storage : β) (value : StoredQuarantined) : QuarantineM β ν Bool := do
  match ← getWithEtag storage with
  | some object =>
    match object.body with
    | .stored stored =>
      if value.epoch ≤ stored.epoch then return false
      else return (← putIfMatch storage object value).isSome
    | .unreadable _ => return (← putIfMatch storage object value).isSome
  | none => return (← putIfNoneMatch storage value).isSome

/-- Peers are best-effort. -/
def seedPeers (value : StoredQuarantined) : List β → QuarantineM β ν Unit
  | [] => return ()
  | replica :: rest => (seedQuarantinedOnto replica value).attempt fun _ => seedPeers value rest

/-- The quarantined half of the reseed. -/
def reseedIfAbsent (storage : β) (replicas : List β) (node : ν) : QuarantineM β ν Unit := do
  let snap ← readState node
  if 0 < snap.quarantinedEpoch ∧ ¬snap.quarantinedUnpublished then
    let value : StoredQuarantined := ⟨snap.quarantined, snap.quarantinedEpoch⟩
    let _ ← seedQuarantinedOnto storage value
    seedPeers value replicas
  else return ()

def quarantinedCasAttempts : ℕ := 8

/-- The set a publish read, with the token it was read under. -/
structure Current where
  stored : StoredQuarantined
  etag : Option Etag
  storedIsReal : Bool

/-- Only a sweep may replace a body it cannot read. -/
def currentOf (edit : QuarantinedEdit) : Option Object → Except String Current
  | none => .ok ⟨default, none, false⟩
  | some object =>
    match object.body with
    | .stored stored => .ok ⟨stored, some object, true⟩
    | .unreadable error =>
      if edit.isSweep then .ok ⟨default, some object, false⟩
      else .error ("parsing quarantined set: " ++ error)

/-- The set an edit is applied to, and whether the bucket is behind this node. -/
def haveOf (node : ν) (edit : QuarantinedEdit) (current : Current) :
    QuarantineM β ν (Finset String × Bool) := do
  let live ← readState node
  if current.stored.epoch < live.quarantinedEpoch ∧ ¬edit.isSweep then
    let live ← readState node
    return (live.quarantined, true)
  else return (current.stored.quarantined, false)

/-- The sweep's repair, with every edit since its base replayed on top. -/
def mergeSweep (set baseSet : Finset String) (baseEpoch : ℕ) (current : Current)
    (standing : Finset String) : Finset String :=
  if ¬current.storedIsReal ∨ current.stored.epoch = baseEpoch then set
  else (set ∪ (standing \ baseSet)) \ (baseSet \ standing)

def nextOf (storage : β) (edit : QuarantinedEdit) (current : Current) (standing : Finset String) :
    QuarantineM β ν (Finset String) :=
  match edit with
  | .one name blocked => return withName standing name blocked
  | .derive name blocked =>
    if withName standing name blocked = standing then return standing
    else do
      let doc ← readStatus storage name
      return withName standing name (blocksDownloads doc.status)
  | .sweep set baseSet baseEpoch => return mergeSweep set baseSet baseEpoch current standing

def putOver (storage : β) (etag : Option Etag) (value : StoredQuarantined) :
    QuarantineM β ν (Option Etag) :=
  match etag with
  | some etag => putIfMatch storage etag value
  | none => putIfNoneMatch storage value

/-- The one write path, with its remaining attempts. -/
def publishAttempts (storage : β) (replicas : List β) (node : ν) (edit : QuarantinedEdit) :
    ℕ → QuarantineM β ν Unit
  | 0 => bail ("could not publish the quarantined set after " ++ toString quarantinedCasAttempts ++
      " attempts")
  | attempts + 1 => do
    let found ← getWithEtag storage
    let current ← (done (currentOf edit found) : QuarantineM β ν Current)
    let (standing, behind) ← haveOf node edit current
    let next ← nextOf storage edit current standing
    if next = standing ∧ ¬behind then
      let _ ← adopt node next current.stored.epoch none
      return ()
    else
      let live ← readState node
      let value : StoredQuarantined :=
        ⟨next, saturatingAddOne (max current.stored.epoch live.quarantinedEpoch)⟩
      match ← putOver storage current.etag value with
      | none => publishAttempts storage replicas node edit attempts
      | some _ =>
        seedPeers value replicas
        let _ ← adopt node next value.epoch (some none)
        return ()

def publishQuarantined (storage : β) (replicas : List β) (node : ν) (edit : QuarantinedEdit) :
    QuarantineM β ν Unit :=
  publishAttempts storage replicas node edit quarantinedCasAttempts

/-- Arm this node, then publish the increment. -/
def armQuarantine (storage : β) (replicas : List β) (node : ν) (pkg : String) (blocked : Bool) :
    QuarantineM β ν Unit := do
  armLocal node pkg blocked
  publishQuarantined storage replicas node (.one pkg blocked)

/-- What follows the durable write of a status: the publish, and the marker that
follows it whatever it returned. -/
def shareStatus (storage : β) (replicas : List β) (node : ν) (pkg : String) (blocked : Bool) :
    QuarantineM β ν Unit :=
  (armQuarantine storage replicas node pkg blocked).attempt fun published =>
    (putMarker storage pkg).attempt fun committed =>
      match committed, published with
      | .error _, .error _ => bail
          "status saved, but it could not be shared with the other servers; retry the request"
      | _, _ => return ()

/-- A status change on a single bucket. -/
def writeProjectStatus (storage : β) (replicas : List β) (node : ν) (pkg : String)
    (doc : ProjectStatusDoc) : QuarantineM β ν Unit := do
  if doc.status = .active then clearStatus storage pkg else writeStatus storage pkg doc
  shareStatus storage replicas node pkg (blocksDownloads doc.status)

/-- The worker's drain of one package: rebuild, derive its membership again, and
consume the markers it listed. -/
def drainPackage (storage : β) (replicas : List β) (node : ν) (generation : ℕ) (pkg : String) :
    QuarantineM β ν Unit := do
  let listed ← listMarkers storage
  let keys := listed.filter fun marker => marker.pkg = pkg
  if keys.isEmpty then return ()
  else
    let doc ← readStatus storage pkg
    requireGeneration generation
    publishQuarantined storage replicas node (.derive pkg (blocksDownloads doc.status))
    (deleteMarkers storage keys).attempt fun _ => return ()

/-- The stored set as a sweep begins. -/
def storedQuarantined (storage : β) : QuarantineM β ν (Finset String × ℕ) := do
  match ← getWithEtag storage with
  | none => return (∅, 0)
  | some object =>
    match object.body with
    | .stored stored => return (stored.quarantined, stored.epoch)
    | .unreadable _ => return (∅, 0)

/-- Read every listed status, one by one. -/
def sweepStatuses (storage : β) : List String → QuarantineM β ν (Finset String)
  | [] => return ∅
  | pkg :: rest => do
    let doc ← readStatus storage pkg
    let set ← sweepStatuses storage rest
    return if blocksDownloads doc.status then insert pkg set else set

/-- The walk over every status, and its publish onto what stood when it began. -/
def walkAndPublish (storage : β) (replicas : List β) (node : ν)
    (base : Except String (Finset String × ℕ)) : QuarantineM β ν Unit := do
  let names ← listStatuses storage
  let set ← sweepStatuses storage names
  match base with
  | .error _ => return ()
  | .ok (baseSet, baseEpoch) =>
    (publishQuarantined storage replicas node (.sweep set baseSet baseEpoch)).attempt
      fun _ => return ()

/-- The audit's repair of the shared set. -/
def audit (storage : β) (replicas : List β) (node : ν) : QuarantineM β ν Unit :=
  (storedQuarantined storage).attempt (walkAndPublish storage replicas node)

end Code

/-! ### The fleet -/

/-- What a node starts; `storage` is the bucket it has selected. -/
inductive Task (β : Type) where
  | poll
  | publish (replicas : List β) (edit : QuarantinedEdit)
  | arm (replicas : List β) (pkg : String) (blocked : Bool)
  | reseed (replicas : List β)
  | reload (zipSha256 : String)
  | status (replicas : List β) (pkg : String) (doc : ProjectStatusDoc)
  | drain (replicas : List β) (generation : ℕ) (pkg : String)
  | audit (replicas : List β)

structure Call (β ν : Type) where
  node : ν
  storage : β
  task : Task β

def Call.program (call : Call β ν) : QuarantineM β ν Unit :=
  match call.task with
  | .poll => pollQuarantined call.storage call.node
  | .publish replicas edit => publishQuarantined call.storage replicas call.node edit
  | .arm replicas pkg blocked => armQuarantine call.storage replicas call.node pkg blocked
  | .reseed replicas => reseedIfAbsent call.storage replicas call.node
  | .reload zipSha256 => Quarantine.reload call.node zipSha256
  | .status replicas pkg doc => writeProjectStatus call.storage replicas call.node pkg doc
  | .drain replicas generation pkg => drainPackage call.storage replicas call.node generation pkg
  | .audit replicas => Quarantine.audit call.storage replicas call.node

/-- Every bucket's set, statuses and markers, and every node's snapshot. -/
structure World (β ν : Type) where
  sets : β → Option Object
  statuses : β → String → Option ProjectStatusDoc
  markers : β → Finset Marker
  slots : ν → AdvisoryState

section System
variable [DecidableEq β] [DecidableEq ν]

namespace World
variable (world : World β ν)

def put (bucket : β) (object : Object) : World β ν :=
  { world with sets := Function.update world.sets bucket (some object) }

def setStatus (bucket : β) (pkg : String) (doc : Option ProjectStatusDoc) : World β ν :=
  { world with
    statuses := Function.update world.statuses bucket (Function.update (world.statuses bucket) pkg doc) }

def setMarkers (bucket : β) (markers : Finset Marker) : World β ν :=
  { world with markers := Function.update world.markers bucket markers }

def setSlot (node : ν) (state : AdvisoryState) : World β ν :=
  { world with slots := Function.update world.slots node state }

end World

/-- The answers of a request that is carried out. -/
inductive Serves (world : World β ν) : (op : QuarantineOp β ν) → op.Ans → World β ν → Prop where
  | got : Serves world (.getWithEtag bucket) (.ok (world.sets bucket)) world
  | listed : Serves world (.listEtag bucket) (.ok (world.sets bucket)) world
  | read : world.sets bucket = some object → Serves world (.getBytes bucket) (.ok object.body) world
  | replaced : world.sets bucket = some etag →
      Serves world (.putIfMatch bucket etag value) (.ok (some ⟨.stored value, revision⟩))
        (world.put bucket ⟨.stored value, revision⟩)
  | changed : world.sets bucket ≠ some etag →
      Serves world (.putIfMatch bucket etag value) (.ok none) world
  | created : world.sets bucket = none →
      Serves world (.putIfNoneMatch bucket value) (.ok (some ⟨.stored value, revision⟩))
        (world.put bucket ⟨.stored value, revision⟩)
  | occupied : world.sets bucket = some object →
      Serves world (.putIfNoneMatch bucket value) (.ok none) world
  | status : Serves world (.readStatus bucket pkg) (.ok ((world.statuses bucket pkg).getD default)) world
  | statuses : (∀ pkg, pkg ∈ names ↔ (world.statuses bucket pkg).isSome) →
      Serves world (.listStatuses bucket) (.ok names) world
  | statusWritten : Serves world (.writeStatus bucket pkg doc) (.ok ())
      (world.setStatus bucket pkg (some doc))
  | statusCleared : Serves world (.clearStatus bucket pkg) (.ok ()) (world.setStatus bucket pkg none)
  | marked : ⟨pkg, nonce⟩ ∉ world.markers bucket →
      Serves world (.putMarker bucket pkg) (.ok ())
        (world.setMarkers bucket (insert ⟨pkg, nonce⟩ (world.markers bucket)))
  | markers : markers.toFinset = world.markers bucket →
      Serves world (.listMarkers bucket) (.ok markers) world
  | consumed : Serves world (.deleteMarkers bucket markers) (.ok ())
      (world.setMarkers bucket (world.markers bucket \ markers.toFinset))
  | generation : Serves world (.requireGeneration generation) (.ok ()) world
  | state : Serves world (.readState node) (world.slots node) world
  | adopted : Serves world (.adopt node names epoch etag)
      (adoptQuarantined (world.slots node) names epoch etag).2
      (world.setSlot node (adoptQuarantined (world.slots node) names epoch etag).1)
  | armed : Serves world (.armLocal node pkg blocked) ()
      (world.setSlot node (armLocalQuarantine (world.slots node) pkg blocked))
  | reloaded : Serves world (.reload node zipSha256) ()
      (world.setSlot node { world.slots node with zipSha256 := some zipSha256 })

/-- A failed request of this answer type. -/
inductive Fails : (op : QuarantineOp β ν) → op.Ans → Prop where
  | getWithEtag : Fails (.getWithEtag bucket) (.error text)
  | listEtag : Fails (.listEtag bucket) (.error text)
  | getBytes : Fails (.getBytes bucket) (.error text)
  | putIfMatch : Fails (.putIfMatch bucket etag value) (.error text)
  | putIfNoneMatch : Fails (.putIfNoneMatch bucket value) (.error text)
  | readStatus : Fails (.readStatus bucket pkg) (.error text)
  | listStatuses : Fails (.listStatuses bucket) (.error text)
  | writeStatus : Fails (.writeStatus bucket pkg doc) (.error text)
  | clearStatus : Fails (.clearStatus bucket pkg) (.error text)
  | putMarker : Fails (.putMarker bucket pkg) (.error text)
  | listMarkers : Fails (.listMarkers bucket) (.error text)
  | deleteMarkers : Fails (.deleteMarkers bucket markers) (.error text)
  | requireGeneration : Fails (.requireGeneration generation) (.error text)

/-- A request is carried out, or fails with or without effect. -/
inductive Performs (world : World β ν) (op : QuarantineOp β ν) : op.Ans → World β ν → Prop where
  | served : Serves world op answer world' → Performs world op answer world'
  | refused : Fails op answer → Performs world op answer world
  | lost : Fails op answer → Serves world op answer' world' → Performs world op answer world'

/-- Nodes over shared buckets; a call that is never scheduled again has crashed. -/
def fleet : ThreadPool.System (World β ν) (Call β ν) (QuarantineOp β ν) QuarantineOp.Ans String Unit where
  program := Call.program
  performs _ := Performs
  drifts _ _ := False
  drops _ world world' := world' = world

end System

abbrev FleetConfig (β ν : Type) := ThreadPool.Config (World β ν) (Call β ν) (QuarantineOp β ν)
  QuarantineOp.Ans String Unit

end Pypiron.Quarantine
