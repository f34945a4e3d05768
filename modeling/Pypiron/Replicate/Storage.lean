import Pypiron.FaultyRun
import Pypiron.Origin.Claim
import Pypiron.Replicate.Decide
import Mathlib.Data.List.Sort

/-! One package's objects on a fleet of buckets, and the storage calls that
replication makes on them. A stored sidecar is its typed content. An etag is
content addressed, so a conditional write names the content it expects. -/
namespace Pypiron.Replicate

inductive Companion where
  | metadata
  | provenance
  deriving DecidableEq, Repr

/-- The durable markers over a filename. Only their existence is ever read. -/
inductive Fence where
  | tombstone
  | frozen
  | mirrorQuarantined
  deriving DecidableEq, Repr

/-- The objects a filename may own. A preserved body lives at a key that holds
the first characters of its digest. -/
inductive Kind where
  | body
  | sidecar
  | companion (c : Companion)
  | fence (fence : Fence)
  | superseding
  | quarantine (sha12 : String)
  deriving DecidableEq, Repr

@[reducible] def Kind.Content : Kind → Type
  | body => Bytes
  | sidecar => Sidecar
  | companion _ => Bytes
  | fence _ => Unit
  | superseding => Sidecar
  | quarantine _ => Bytes

instance Kind.decidableEqContent : (k : Kind) → DecidableEq k.Content
  | body => inferInstanceAs (DecidableEq Bytes)
  | sidecar => inferInstanceAs (DecidableEq Sidecar)
  | companion _ => inferInstanceAs (DecidableEq Bytes)
  | fence _ => inferInstanceAs (DecidableEq Unit)
  | superseding => inferInstanceAs (DecidableEq Sidecar)
  | quarantine _ => inferInstanceAs (DecidableEq Bytes)

/-- A filename's objects on one bucket. -/
abbrev Objects := (k : Kind) → Option k.Content

/-- One bucket's share of the package: its claim, the filenames that ever had an
object, their objects and the storage clock's stamp on each. -/
structure Package where
  claim : Option OriginObservation
  names : List String
  files : String → Objects
  clock : Nat
  modified : String → Kind → Nat
  listed : ∀ f, f ∉ names → ∀ k, files f k = none

/-- A directory listing: each present object with its version and its stamp. -/
structure Listing where
  names : List String
  entries : String → (k : Kind) → Option (k.Content × Nat)

def Listing.has (listing : Listing) (f : String) (k : Kind) : Bool := (listing.entries f k).isSome

namespace Package

def set (p : Package) (f : String) (k : Kind) (content : Option k.Content) : Package where
  claim := p.claim
  names := f :: p.names
  files := Function.update p.files f (Function.update (p.files f) k content)
  clock := p.clock
  modified := Function.update p.modified f (Function.update (p.modified f) k p.clock)
  listed g absent k' := by
    rw [List.mem_cons, not_or] at absent
    rw [Function.update_of_ne absent.1]
    exact p.listed g absent.2 k'

/-- Filenames in key order, each once, with the objects `list_dir_entries` shows. -/
def listing (p : Package) : Listing where
  names := p.names.dedup.insertionSort (· ≤ ·)
  entries f k := (p.files f k).map fun content => (content, p.modified f k)

end Package

abbrev Fleet (ι : Type) := ι → Package

inductive Mark where
  | intent
  | commit
  deriving DecidableEq, Repr

inductive StoreOp (ι : Type) where
  | claim (i : ι) (op : ClaimOp)
  | list (i : ι)
  | get (i : ι) (f : String) (k : Kind)
  | put (i : ι) (f : String) (k : Kind) (content : k.Content)
  | putIfAbsent (i : ι) (f : String) (k : Kind) (content : k.Content)
  | putIfMatch (i : ι) (f : String) (k : Kind) (expected content : k.Content)
  | delete (i : ι) (f : String) (k : Kind)
  | serverSideCopy (src dst : ι) (f : String) (size : Nat)
  | mark (i : ι) (mark : Mark)
  | reconcileStatus (a b : ι)

inductive CopyOutcome where
  | notCopyable
  | copied (checksum : Option StoreChecksum)
  deriving DecidableEq, Repr

@[reducible] def StoreOp.Val {ι : Type} : StoreOp ι → Type
  | claim _ op => op.Val
  | list _ => Listing
  | get _ _ k => Option k.Content
  | put _ _ _ _ => Unit
  | putIfAbsent _ _ _ _ => Bool
  | putIfMatch _ _ _ _ _ => Bool
  | delete _ _ _ => Unit
  | serverSideCopy _ _ _ _ => CopyOutcome
  | mark _ _ => Unit
  | reconcileStatus _ _ => Unit

abbrev StoreM (ι α : Type) := Program (StoreOp ι) (fun op => Except String op.Val) String α

/-- What the node is configured with and what the backends answer to the copy
verb: `allows` is the verified copy matrix, `mutationsFenced` a topology
mismatch that stops replication writes. -/
structure Site (ι : Type) where
  encoding : Encoding
  mutationsFenced : Bool
  allows : ι → ι → Bool
  copyVerb : ι → ι → Nat → CopyOutcome
  bucketName : ι → String

section Apply
variable {ι : Type} [DecidableEq ι]

def Fleet.read (s : Fleet ι) (i : ι) (f : String) (k : Kind) : Option k.Content := (s i).files f k

def Fleet.write (s : Fleet ι) (i : ι) (f : String) (k : Kind) (content : Option k.Content) : Fleet ι :=
  Function.update s i ((s i).set f k content)

def Fleet.setClaim (s : Fleet ι) (i : ι) (claim : OriginObservation) : Fleet ι :=
  Function.update s i { s i with claim := some claim }

/-- Claim versions never repeat: each write takes the next one. The release
probes are the operator's, and answer that the package is busy. -/
def applyClaim (s : Fleet ι) (i : ι) : (op : ClaimOp) → op.Val × Fleet ι
  | .readObservation => ((s i).claim, s)
  | .putIfNoneMatch state =>
    match (s i).claim with
    | some _ => (none, s)
    | none => (some 0, s.setClaim i ⟨state, 0⟩)
  | .putIfMatch etag state =>
    match (s i).claim with
    | none => (none, s)
    | some held =>
      if held.etag = etag then (some (etag + 1), s.setClaim i ⟨state, etag + 1⟩) else (none, s)
  | .packageHasTruth => (true, s)
  | .hasPendingWrite => (true, s)
  | .hasPendingReplicationNotes => (true, s)

/-- The effect of one storage call that is served. -/
def apply (site : Site ι) : (op : StoreOp ι) → Fleet ι → Except String op.Val × Fleet ι
  | .claim i op, s => (.ok (applyClaim s i op).1, (applyClaim s i op).2)
  | .list i, s => (.ok (s i).listing, s)
  | .get i f k, s => (.ok (s.read i f k), s)
  | .put i f k content, s => (.ok (), s.write i f k (some content))
  | .putIfAbsent i f k content, s =>
    if (s.read i f k).isSome then (.ok false, s) else (.ok true, s.write i f k (some content))
  | .putIfMatch i f k expected content, s =>
    if s.read i f k = some expected then (.ok true, s.write i f k (some content)) else (.ok false, s)
  | .delete i f k, s => (.ok (), s.write i f k none)
  | .serverSideCopy src dst f size, s =>
    match s.read src f .body, site.copyVerb src dst size with
    | none, _ => (.error "the copy source does not exist", s)
    | some _, .notCopyable => (.ok .notCopyable, s)
    | some bytes, .copied checksum => (.ok (.copied checksum), s.write dst f .body (some bytes))
  | .mark _ _, s => (.ok (), s)
  | .reconcileStatus _ _, s => (.ok (), s)

end Apply

namespace StoreM
variable {ι : Type}
open Program

def list (i : ι) : StoreM ι Listing := request (StoreOp.list i)

def get (i : ι) (f : String) (k : Kind) : StoreM ι (Option k.Content) := request (StoreOp.get i f k)

def headExists (i : ι) (f : String) (k : Kind) : StoreM ι Bool := do return (← get i f k).isSome

def put (i : ι) (f : String) (k : Kind) (content : k.Content) : StoreM ι Unit :=
  request (StoreOp.put i f k content)

def putIfAbsent (i : ι) (f : String) (k : Kind) (content : k.Content) : StoreM ι Bool :=
  request (StoreOp.putIfAbsent i f k content)

def putIfMatch (i : ι) (f : String) (k : Kind) (expected content : k.Content) : StoreM ι Bool :=
  request (StoreOp.putIfMatch i f k expected content)

def delete (i : ι) (f : String) (k : Kind) : StoreM ι Unit := request (StoreOp.delete i f k)

/-- One key at a time, in order, on every backend. -/
def deleteKeys (i : ι) (f : String) : List Kind → StoreM ι Unit
  | [] => pure ()
  | k :: rest => do
    delete i f k
    deleteKeys i f rest

def serverSideCopy (src dst : ι) (f : String) (size : Nat) : StoreM ι CopyOutcome :=
  request (StoreOp.serverSideCopy src dst f size)

def markIntent (i : ι) : StoreM ι Unit := request (StoreOp.mark i .intent)

def markCommit (i : ι) : StoreM ι Unit := request (StoreOp.mark i .commit)

/-- An unpaired commit. -/
def markDirty (i : ι) : StoreM ι Unit := markCommit i

def reconcileStatus (a b : ι) : StoreM ι Unit := request (StoreOp.reconcileStatus a b)

/-- Run a claim operation against one bucket. -/
def onClaim (i : ι) {α : Type} : ClaimM α → StoreM ι α
  | .done result => .done result
  | .call op next => .call (.claim i op) fun answer => onClaim i (next answer)

end StoreM
end Pypiron.Replicate
