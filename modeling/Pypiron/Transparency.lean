import Pypiron.ThreadPool
import Mathlib.Data.List.Dedup
import Mathlib.Data.List.Sort

/-! The transparency chain: hash-chained, immutable links that every bucket of
the fleet carries. A leader first reconciles the fleet's chains with its write
pin, then appends one link by a create-if-absent on the arbiter and mirrors it. -/
namespace Pypiron.Transparency
open Program

/-- One package's committed file to sha256 map. -/
abbrev FileShas := List (String × String)

/-- Changed packages with their complete current file map. -/
abbrev Delta := List (String × FileShas)

structure ChainLink where
  seq : ℕ
  prevSha256 : String
  created : String
  packages : Delta
  deriving DecidableEq, Repr

/-- The serialization of a link and the hex digest of its bytes. -/
structure Codec (Bytes : Type) where
  linkBytes : ChainLink → Except String Bytes
  sha256Hex : Bytes → String

structure ReplicaTarget (β : Type) where
  storage : β
  name : String

/-- Requests to the chain of one bucket, the node's selection generation and its
clock. -/
inductive ChainOp (β Bytes : Type) where
  | listAll (bucket : β)
  | getBytes (bucket : β) (seq : ℕ)
  | putIfNoneMatch (bucket : β) (seq : ℕ) (bytes : Bytes)
  | requireGeneration (generation : ℕ)
  | nowUtc

def ChainOp.Ans {β Bytes : Type} : ChainOp β Bytes → Type
  | listAll _ => Except String (List ℕ)
  | getBytes _ _ => Except String Bytes
  | putIfNoneMatch _ _ _ => Except String (Option String)
  | requireGeneration _ => Except String Unit
  | nowUtc => Except String String

abbrev ChainM (β Bytes : Type) := Program (ChainOp β Bytes) ChainOp.Ans String

inductive CatchUp where
  | synced
  | forked
  deriving DecidableEq, Repr

inductive Copied where
  | landed
  | diverged
  deriving DecidableEq, Repr

section Code
variable {β Bytes : Type}

def listAll (bucket : β) : ChainM β Bytes (Except String (List ℕ)) :=
  call (.listAll bucket) fun answer => done (.ok answer)

def getBytes (bucket : β) (seq : ℕ) : ChainM β Bytes (Except String Bytes) :=
  call (.getBytes bucket seq) fun answer => done (.ok answer)

def putIfNoneMatch (bucket : β) (seq : ℕ) (bytes : Bytes) :
    ChainM β Bytes (Except String (Option String)) :=
  call (.putIfNoneMatch bucket seq bytes) fun answer => done (.ok answer)

def requireGeneration (generation : ℕ) : ChainM β Bytes (Except String Unit) :=
  call (.requireGeneration generation) fun answer => done (.ok answer)

def nowUtc : ChainM β Bytes (Except String String) := call .nowUtc fun answer => done (.ok answer)

/-- A `BTreeSet` of seqs, in ascending order. -/
def seqSet (seqs : List ℕ) : List ℕ := seqs.dedup.insertionSort (· ≤ ·)

def chainSeqs (bucket : β) : ChainM β Bytes (Except String (List ℕ)) := do
  match ← listAll bucket with
  | .ok seqs => return .ok (seqSet seqs)
  | .error error => return .error error

/-- The highest link with its exact bytes. -/
def readHead (bucket : β) : ChainM β Bytes (Except String (Option (ℕ × Bytes))) := do
  match ← listAll bucket with
  | .error error => return .error error
  | .ok seqs =>
    match seqs.max? with
    | none => return .ok none
    | some head =>
      match ← getBytes bucket head with
      | .error error => return .error error
      | .ok bytes => return .ok (some (head, bytes))

variable [DecidableEq Bytes]

/-- Create-if-absent copy of one link; a seq already taken is read back. -/
def copyLink (dst : ReplicaTarget β) (seq : ℕ) (bytes : Bytes) :
    ChainM β Bytes (Except String Copied) := do
  match ← putIfNoneMatch dst.storage seq bytes with
  | .error error =>
    return .error ("writing chain link " ++ toString seq ++ " to bucket " ++ dst.name ++ ": " ++ error)
  | .ok (some _) => return .ok .landed
  | .ok none =>
    match ← getBytes dst.storage seq with
    | .error error =>
      return .error ("reading back chain link " ++ toString seq ++ " on bucket " ++ dst.name ++
        ": " ++ error)
    | .ok held => return .ok (if held ≠ bytes then .diverged else .landed)

def compareProbes (primary replica : ReplicaTarget β) :
    List ℕ → ChainM β Bytes (Except String (Option ℕ))
  | [] => return .ok none
  | seq :: rest => do
    let comparing (error : String) : String := "comparing chain link " ++ toString seq ++
      " across buckets " ++ primary.name ++ " and " ++ replica.name ++ ": " ++ error
    match ← getBytes primary.storage seq with
    | .error error => return .error (comparing error)
    | .ok mine =>
      match ← getBytes replica.storage seq with
      | .error error => return .error (comparing error)
      | .ok theirs =>
        if mine ≠ theirs then return .ok (some seq) else compareProbes primary replica rest

/-- Compare the lowest and the highest seq both buckets hold. -/
def firstContradiction (primary replica : ReplicaTarget β) (ours theirs : List ℕ) :
    ChainM β Bytes (Except String (Option ℕ)) :=
  let shared := ours.filter (· ∈ theirs)
  compareProbes primary replica (shared.head?.toList ++ shared.getLast?.toList).dedup

/-- Pull the links the primary lacks; what was pulled before a failure counts. -/
def pullAll (primary replica : ReplicaTarget β) :
    List ℕ → List ℕ → ChainM β Bytes (List ℕ × Except String Unit)
  | [], ours => return (ours, .ok ())
  | seq :: rest, ours => do
    match ← getBytes replica.storage seq with
    | .error error =>
      return (ours, .error ("reading chain link " ++ toString seq ++ " from bucket " ++
        replica.name ++ ": " ++ error))
    | .ok bytes =>
      match ← copyLink primary seq bytes with
      | .error error => return (ours, .error error)
      | .ok .diverged =>
        return (ours, .error ("chain link " ++ toString seq ++ " from bucket " ++ replica.name ++
          " contradicts the link bucket " ++ primary.name ++ " already holds at that seq"))
      | .ok .landed => pullAll primary replica rest (ours.orderedInsert (· ≤ ·) seq)

/-- Push the links the peer lacks; a failure leaves it behind. -/
def pushAll (primary replica : ReplicaTarget β) : List ℕ → ChainM β Bytes CatchUp
  | [] => return .synced
  | seq :: rest => do
    match ← getBytes primary.storage seq with
    | .error _ => return .synced
    | .ok bytes =>
      match ← copyLink replica seq bytes with
      | .ok .landed => pushAll primary replica rest
      | .ok .diverged => return .forked
      | .error _ => return .synced

/-- Reconcile one peer with the primary. The primary's seqs come back with
whatever was pulled, also when the outcome is an error. -/
def catchUpReplica (primary replica : ReplicaTarget β) (ours theirs : List ℕ) :
    ChainM β Bytes (List ℕ × Except String CatchUp) := do
  match ← firstContradiction primary replica ours theirs with
  | .error error => return (ours, .error error)
  | .ok (some _) => return (ours, .ok .forked)
  | .ok none =>
    let pull := theirs.filter (· ∉ ours)
    let push := ours.filter (· ∉ theirs)
    let (ours, pulled) ← pullAll primary replica pull ours
    match pulled with
    | .error error => return (ours, .error error)
    | .ok () => return (ours, .ok (← pushAll primary replica push))

/-- The peer loop: the primary's seqs, the positions in sync, and whether the
append has to wait. -/
def reconcilePeers (pin : ReplicaTarget β) (primary : ℕ) :
    List (ReplicaTarget β × ℕ) → List ℕ → List ℕ → Bool → ChainM β Bytes (List ℕ × Bool)
  | [], _, inSync, defer => return (inSync, defer)
  | (peer, position) :: rest, ours, inSync, defer =>
    if position = primary then reconcilePeers pin primary rest ours inSync defer
    else do
      match ← chainSeqs peer.storage with
      | .error _ => reconcilePeers pin primary rest ours inSync true
      | .ok theirs =>
        let (ours, outcome) ← catchUpReplica pin peer ours theirs
        match outcome with
        | .ok .synced => reconcilePeers pin primary rest ours (inSync ++ [position]) defer
        | .ok .forked => reconcilePeers pin primary rest ours inSync defer
        | .error _ => reconcilePeers pin primary rest ours inSync true

/-- The positions of the buckets a new link may be created on; empty when the
append has to wait. -/
def catchUpFleet (buckets : List (ReplicaTarget β)) (primary : ℕ) : ChainM β Bytes (List ℕ) := do
  match buckets[primary]? with
  | none => return []
  | some pin =>
    match ← chainSeqs pin.storage with
    | .error _ => return []
    | .ok ours =>
      let (inSync, defer) ← reconcilePeers pin primary buckets.zipIdx ours [primary] false
      if defer then return [] else return inSync.insertionSort (· ≤ ·)

/-- The seq and the `prev-sha256` of the link after a head. -/
def followedBy : Option (ℕ × String) → ℕ × String
  | some (seq, sha) => (seq + 1, sha)
  | none => (0, "")

/-- Mirror the new link to the buckets found consistent, best-effort. -/
def mirrorLink (fleet : List (ReplicaTarget β)) (decider seq : ℕ) (bytes : Bytes) :
    List ℕ → ChainM β Bytes Unit
  | [] => return ()
  | position :: rest =>
    if position = decider then mirrorLink fleet decider seq bytes rest
    else match fleet[position]? with
      | none => mirrorLink fleet decider seq bytes rest
      | some bucket => do
        let _ ← copyLink bucket seq bytes
        mirrorLink fleet decider seq bytes rest

variable (codec : Codec Bytes)

/-- Whether a link numbered `seq` may be created on an arbiter with this head. -/
def chainsOn (seq : ℕ) (prevSha256 : String) : Option (ℕ × Bytes) → Bool
  | some (head, bytes) => head < seq && (head + 1 ≠ seq || codec.sha256Hex bytes = prevSha256)
  | none => true

/-- Create the link on the arbiter and mirror it. -/
def createLink (fleet : List (ReplicaTarget β)) (inSync : List ℕ) (decider : ℕ)
    (arbiter : ReplicaTarget β) (seq : ℕ) (prevSha256 : String) (delta : Delta) :
    ChainM β Bytes Bool := do
  match ← nowUtc with
  | .error _ => return false
  | .ok created =>
    match codec.linkBytes ⟨seq, prevSha256, created, delta⟩ with
    | .error _ => return false
    | .ok bytes =>
      match ← putIfNoneMatch arbiter.storage seq bytes with
      | .ok (some _) =>
        mirrorLink fleet decider seq bytes inSync
        return true
      | .ok none => return false
      | .error _ => return false

def appendChainLink (fleet : List (ReplicaTarget β)) (primary : ℕ) (inSync : List ℕ)
    (generation : ℕ) (walkHead : Option (ℕ × String)) (delta : Delta) : ChainM β Bytes Bool := do
  match fleet[primary]?, inSync.head? with
  | some pin, some decider =>
    match fleet[decider]? with
    | none => return false
    | some arbiter =>
      match ← requireGeneration generation with
      | .error _ => return false
      | .ok () =>
        match ← readHead pin.storage with
        | .error _ => return false
        | .ok found =>
          let head := found.map fun (seq, bytes) => (seq, codec.sha256Hex bytes)
          if head ≠ walkHead then return false
          else
            let (seq, prevSha256) := followedBy head
            if decider = primary then
              createLink codec fleet inSync decider arbiter seq prevSha256 delta
            else
              match ← readHead arbiter.storage with
              | .error _ => return false
              | .ok head =>
                if chainsOn codec seq prevSha256 head then
                  createLink codec fleet inSync decider arbiter seq prevSha256 delta
                else return false
  | _, _ => return false

/-- Reconcile first, append second; an empty delta needs no link. -/
def writeChainLink (fleet : List (ReplicaTarget β)) (primary generation : ℕ)
    (walkHead : Option (ℕ × String)) (delta : Delta) : ChainM β Bytes Bool := do
  match fleet[primary]? with
  | none => return false
  | some _ =>
    let inSync ← catchUpFleet fleet primary
    if delta.isEmpty then return true
    else if inSync.isEmpty then return false
    else appendChainLink codec fleet primary inSync generation walkHead delta

end Code

/-- A leader's checkpoint: its fleet in config order, its write pin, and what its
audit found. -/
structure ChainCall (β : Type) where
  fleet : List (ReplicaTarget β)
  primary : ℕ
  generation : ℕ
  walkHead : Option (ℕ × String)
  delta : Delta

/-- Every bucket's links, with their seqs. -/
structure ChainStore (β Bytes : Type) where
  chains : β → List (ℕ × Bytes)

section System
variable {β Bytes : Type} [DecidableEq β] [DecidableEq Bytes]

def ChainStore.link (store : ChainStore β Bytes) (bucket : β) (seq : ℕ) : Option Bytes :=
  (store.chains bucket).lookup seq

def ChainStore.create (store : ChainStore β Bytes) (bucket : β) (seq : ℕ) (bytes : Bytes) :
    ChainStore β Bytes :=
  ⟨Function.update store.chains bucket ((seq, bytes) :: store.chains bucket)⟩

/-- A request is answered, fails outright, or takes effect and is reported as
failed. -/
inductive ChainPerforms (store : ChainStore β Bytes) :
    (op : ChainOp β Bytes) → op.Ans → ChainStore β Bytes → Prop where
  | listed : ChainPerforms store (.listAll bucket) (.ok ((store.chains bucket).map (·.1))) store
  | listFailed : ChainPerforms store (.listAll bucket) (.error text) store
  | got : store.link bucket seq = some bytes →
      ChainPerforms store (.getBytes bucket seq) (.ok bytes) store
  | getFailed : ChainPerforms store (.getBytes bucket seq) (.error text) store
  | created : store.link bucket seq = none →
      ChainPerforms store (.putIfNoneMatch bucket seq bytes) (.ok (some etag))
        (store.create bucket seq bytes)
  | occupied : store.link bucket seq = some held →
      ChainPerforms store (.putIfNoneMatch bucket seq bytes) (.ok none) store
  | createFailed : ChainPerforms store (.putIfNoneMatch bucket seq bytes) (.error text) store
  | createLost : store.link bucket seq = none →
      ChainPerforms store (.putIfNoneMatch bucket seq bytes) (.error text)
        (store.create bucket seq bytes)
  | generation : ChainPerforms store (.requireGeneration generation) answer store
  | clock : ChainPerforms store .nowUtc answer store

/-- Leaders over shared buckets. -/
def chain (codec : Codec Bytes) : ThreadPool.System (ChainStore β Bytes) (ChainCall β)
    (ChainOp β Bytes) ChainOp.Ans String Bool where
  program call := writeChainLink codec call.fleet call.primary call.generation call.walkHead call.delta
  performs _ := ChainPerforms
  drifts _ _ := False
  drops _ store store' := store' = store

end System

abbrev ChainConfig (β Bytes : Type) := ThreadPool.Config (ChainStore β Bytes) (ChainCall β)
  (ChainOp β Bytes) ChainOp.Ans String Bool

end Pypiron.Transparency
