import Pypiron.Sidecar
import Pypiron.Text
import Pypiron.Transparency

/-! The read-only replay of the chain: per-bucket integrity, the cross-bucket
prefix check, and the diff of the replayed state against every bucket. -/
namespace Pypiron.Transparency.VerifyChain

def chainPrefix : String := "_transparency/chain/"
def packagesPrefix : String := "packages/"
def sidecarSuffix : String := ".meta.json"
def tombstoneSuffix : String := ".tombstone"
def mirrorQuarantinedSuffix : String := ".mirror-quarantined"

/-- `str::parse::<u64>`: an optional plus sign, then digits. -/
def parseU64 (text : String) : Option ℕ :=
  let digits := match text.toList with
    | '+' :: rest => rest
    | chars => chars
  if digits ≠ [] ∧ digits.all Char.isDigit then
    let value := digits.foldl (fun value digit => 10 * value + (digit.toNat - '0'.toNat)) 0
    if value < 2 ^ 64 then some value else none
  else none

def seqFromKey (key : String) : Option ℕ := do
  parseU64 (← stripSuffix ".json" (← stripPrefix chainPrefix key))

inductive StorageError where
  | notFound
  | other (text : String)
  deriving DecidableEq, Repr

inductive ReadOp where
  | listAll (keys : String)
  | getBytes (key : String)
  | headExists (key : String)
  deriving DecidableEq, Repr

/-- A bucket as a verification finds it: its objects, and the reads that fail. -/
structure Bucket (Bytes : Type) where
  name : String
  objects : List (String × Bytes)
  failing : ReadOp → Option String

/-- How stored bytes are parsed and digested. -/
structure Reader (Bytes : Type) where
  parseLink : Bytes → Except String ChainLink
  parseSidecar : Bytes → Except String Sidecar
  sha256Hex : Bytes → String

/-- A link of a bucket's chain: its seq, its exact bytes, and what they parse to. -/
structure StoredLink (Bytes : Type) where
  seq : ℕ
  bytes : Bytes
  link : ChainLink
  deriving DecidableEq

structure Violation where
  kind : String
  package : String
  detail : String
  deriving DecidableEq, Repr

structure FingerprintChange where
  package : String
  filename : String
  oldSha : String
  newSha : String
  fromSeq : ℕ
  toSeq : ℕ
  deriving DecidableEq, Repr

/-- One bucket's view of a committed file. -/
inductive Presence where
  | matching
  | wrongSha (actual : String)
  | corrupt (error : String)
  | covered
  | absent
  deriving DecidableEq, Repr

variable {Bytes : Type}

namespace Bucket
variable (bucket : Bucket Bytes)

def get (key : String) : Option Bytes := bucket.objects.lookup key

def listAll (keys : String) : Except StorageError (List String) :=
  match bucket.failing (.listAll keys) with
  | some error => .error (.other error)
  | none => .ok ((bucket.objects.map (·.1)).filter fun key => (stripPrefix keys key).isSome)

def getBytes (key : String) : Except StorageError Bytes :=
  match bucket.failing (.getBytes key), bucket.get key with
  | some error, _ => .error (.other error)
  | none, some bytes => .ok bytes
  | none, none => .error .notFound

def headExists (key : String) : Except StorageError Bool :=
  match bucket.failing (.headExists key) with
  | some error => .error (.other error)
  | none => .ok (bucket.get key).isSome

end Bucket

/-! ### Replay -/

/-- `BTreeMap::insert`: the keys stay in order. -/
def mapInsert {V : Type} (map : List (String × V)) (key : String) (value : V) : List (String × V) :=
  (map.filter fun entry => entry.1 ≠ key).orderedInsert (fun a b => a.1 ≤ b.1) (key, value)

def mapRemove {V : Type} (map : List (String × V)) (key : String) : List (String × V) :=
  map.filter fun entry => entry.1 ≠ key

/-- Last write wins, and an empty map removes the package. -/
def replay (links : List ChainLink) : Delta :=
  links.foldl (fun state link => link.packages.foldl (fun state (pkg, files) =>
    if files.isEmpty then mapRemove state pkg else mapInsert state pkg files) state) []

/-! ### Integrity of one chain -/

variable (reader : Reader Bytes)

def checkFirst (entry : StoredLink Bytes) : List Violation :=
  (if ¬entry.link.prevSha256.isEmpty then
    [⟨"bad-genesis", "", "lowest link seq " ++ toString entry.seq ++
      " must have an empty prev-sha256"⟩]
  else []) ++
  if entry.seq ≠ 0 then
    [⟨"bad-genesis", "", "chain starts at seq " ++ toString entry.seq ++ ", not 0: links 0.." ++
      toString (entry.seq - 1) ++
      " are missing and the chain cannot be replayed from its genesis"⟩]
  else []

def checkNext (previous entry : StoredLink Bytes) : List Violation :=
  (if entry.seq ≠ previous.seq + 1 then
    [⟨"gap", "", "seq jumps from " ++ toString previous.seq ++ " to " ++ toString entry.seq⟩]
  else []) ++
  if entry.link.prevSha256 ≠ reader.sha256Hex previous.bytes then
    [⟨"broken-link", "", "seq " ++ toString entry.seq ++ " prev-sha256 does not match seq " ++
      toString previous.seq ++ "'s bytes"⟩]
  else []

def checkSeq (entry : StoredLink Bytes) : List Violation :=
  if entry.link.seq ≠ entry.seq then
    [⟨"seq-mismatch", "", "link file seq " ++ toString entry.seq ++ " but its body says " ++
      toString entry.link.seq⟩]
  else []

/-- The chain after `previous`. -/
def checkLinks (previous : Option (StoredLink Bytes)) : List (StoredLink Bytes) → List Violation
  | [] => []
  | entry :: rest =>
    checkSeq entry ++
      (match previous with
        | none => checkFirst entry
        | some previous => checkNext reader previous entry) ++
      checkLinks (some entry) rest

/-- Gapless from seq 0, each link naming the exact bytes before it. -/
def checkIntegrity (links : List (StoredLink Bytes)) : List Violation := checkLinks reader none links

/-! ### Fingerprint changes -/

/-- The sha a file was last committed under, with the seq of that commitment. -/
abbrev History := List ((String × String) × (String × ℕ))

def changesOfFile (seq : ℕ) (pkg : String) (state : History × List FingerprintChange)
    (file : String × String) : History × List FingerprintChange :=
  let (history, changes) := state
  let (filename, sha) := file
  let found := match history.lookup (pkg, filename) with
    | some (oldSha, fromSeq) => if oldSha ≠ sha then [⟨pkg, filename, oldSha, sha, fromSeq, seq⟩] else []
    | none => []
  (((pkg, filename), (sha, seq)) :: history, changes ++ found)

/-- Every file committed again under another sha. Nothing leaves the history. -/
def inChainShaChanges (links : List (StoredLink Bytes)) : List FingerprintChange :=
  (links.foldl (fun state entry => entry.link.packages.foldl (fun state (pkg, files) =>
    files.foldl (changesOfFile entry.seq pkg) state) state) ([], [])).2

/-! ### The fleet -/

def loadLinks (bucket : Bucket Bytes) : List (ℕ × String) → Except String (List (StoredLink Bytes))
  | [] => .ok []
  | (seq, key) :: rest =>
    match bucket.getBytes key with
    | .error .notFound => .error "not found"
    | .error (.other error) => .error error
    | .ok bytes =>
      match reader.parseLink bytes with
      | .error error => .error ("parsing chain link " ++ key ++ ": " ++ error)
      | .ok link => (loadLinks bucket rest).map (⟨seq, bytes, link⟩ :: ·)

/-- A key that does not parse as a seq is not a chain link. -/
def loadChain (bucket : Bucket Bytes) : Except String (List (StoredLink Bytes)) :=
  match bucket.listAll chainPrefix with
  | .error .notFound => .error "not found"
  | .error (.other error) => .error error
  | .ok keys =>
    let entries := keys.filterMap fun key => (seqFromKey key).map fun seq => (seq, key)
    loadLinks reader bucket (entries.insertionSort fun a b => a.1 ≤ b.1)

def chainHead (links : List (StoredLink Bytes)) : Option ℕ := links.getLast?.map (·.seq)

/-- A committed record with no artifact: covered when a marker authorizes the
disappearance. -/
def absence (bucket : Bucket Bytes) (base : String) : Except StorageError Presence := do
  let tombstoned ← bucket.headExists (base ++ tombstoneSuffix)
  let demoted ← bucket.headExists (base ++ mirrorQuarantinedSuffix)
  return if tombstoned || demoted then .covered else .absent

def artifactKey (pkg filename : String) : String := packagesPrefix ++ pkg ++ "/" ++ filename

def probePresence (bucket : Bucket Bytes) (pkg filename expectedSha : String) :
    Except StorageError Presence :=
  let base := artifactKey pkg filename
  match bucket.getBytes (base ++ sidecarSuffix) with
  | .ok bytes =>
    match reader.parseSidecar bytes with
    | .ok sidecar =>
      if sidecar.sha256 = expectedSha then
        match bucket.headExists base with
        | .ok true => .ok .matching
        | .ok false => absence bucket base
        | .error error => .error error
      else .ok (.wrongSha sidecar.sha256)
    | .error error => .ok (.corrupt error)
  | .error .notFound => absence bucket base
  | .error (.other error) => .error (.other error)

/-- A bucket with its loaded chain. -/
structure BucketChain (Bytes : Type) where
  bucket : Bucket Bytes
  links : List (StoredLink Bytes)

def loadAll : List (Bucket Bytes) → Except String (List (BucketChain Bytes))
  | [] => .ok []
  | bucket :: rest =>
    match loadChain reader bucket with
    | .error error => .error ("loading chain from bucket " ++ bucket.name ++ ": " ++ error)
    | .ok links => (loadAll rest).map (⟨bucket, links⟩ :: ·)

/-- `max_by_key` on the head: the last of the longest. -/
def longest : List (BucketChain Bytes) → Option (BucketChain Bytes)
  | [] => none
  | chain :: rest =>
    match longest rest with
    | some best =>
      if (chainHead chain.links).getD 0 ≤ (chainHead best.links).getD 0 then some best else some chain
    | none => some chain

def integrityViolations (chains : List (BucketChain Bytes)) : List (String × Violation) :=
  chains.flatMap fun chain => (checkIntegrity reader chain.links).map fun row => (chain.bucket.name, row)

def referenceChain (chains : List (BucketChain Bytes)) : Option (BucketChain Bytes) :=
  longest (chains.filter fun chain =>
    (checkIntegrity reader chain.links).isEmpty && !chain.links.isEmpty)

/-- The first link of a chain that contradicts the reference. -/
def divergedAt (reference links : List (StoredLink Bytes)) : Option (StoredLink Bytes) :=
  let refShas := reference.map fun entry => (entry.seq, reader.sha256Hex entry.bytes)
  links.find? fun entry => match refShas.lookup entry.seq with
    | some sha => sha ≠ reader.sha256Hex entry.bytes
    | none => true

/-- A clean chain that is no prefix of the reference. Against itself the reference
never diverges, so it is compared like any other. -/
def divergences (reference : BucketChain Bytes) (chains : List (BucketChain Bytes)) :
    List (String × Violation) :=
  chains.flatMap fun chain =>
    if ¬(checkIntegrity reader chain.links).isEmpty then []
    else match divergedAt reader reference.links chain.links with
      | none => []
      | some entry => [(chain.bucket.name, ⟨"chain-diverged", "",
          "histories part at link seq " ++ toString entry.seq ++ ": bucket " ++ chain.bucket.name ++
          " holds one branch (head seq " ++ toString ((chainHead chain.links).getD 0) ++
          "), bucket " ++ reference.bucket.name ++ " another (head seq " ++
          toString ((chainHead reference.links).getD 0) ++
          "). No file is implicated. Decide out of band which branch is your history — " ++
          "nothing merges them automatically"⟩)]

/-- A committed file with its sha. -/
structure Check where
  package : String
  filename : String
  sha : String
  deriving DecidableEq, Repr

def checksOf (expected : Delta) : List Check :=
  expected.flatMap fun (pkg, files) => files.map fun (filename, sha) => ⟨pkg, filename, sha⟩

def probeAll (bucket : Bucket Bytes) : List Check → Except StorageError (List Presence)
  | [] => .ok []
  | check :: rest =>
    match probePresence reader bucket check.package check.filename check.sha with
    | .error error => .error error
    | .ok presence => (probeAll bucket rest).map (presence :: ·)

def probeFleet : List (BucketChain Bytes) → List Check →
    Except StorageError (List (BucketChain Bytes × List Presence))
  | [], _ => .ok []
  | chain :: rest, checks =>
    match probeAll reader chain.bucket checks with
    | .error error => .error error
    | .ok presences => (probeFleet rest checks).map ((chain, presences) :: ·)

def presenceViolation (check : Check) : Presence → List Violation
  | .corrupt error => [⟨"corrupt-sidecar", check.package, check.filename ++ ": " ++ error⟩]
  | .wrongSha actual => [⟨"hash-changed", check.package, check.filename ++ ": committed " ++ check.sha ++
      " but the sidecar now holds " ++ actual⟩]
  | .matching | .covered | .absent => []

def presenceViolations (checks : List Check) (seen : List (BucketChain Bytes × List Presence)) :
    List (String × Violation) :=
  seen.flatMap fun (chain, presences) => (checks.zip presences).flatMap fun (check, presence) =>
    (presenceViolation check presence).map fun row => (chain.bucket.name, row)

/-- Whether a presence keeps its file from counting as vanished. -/
def Presence.covers : Presence → Bool
  | matching | covered | corrupt _ => true
  | wrongSha _ | absent => false

/-- A committed file that is cleanly absent somewhere and held nowhere. -/
def vanished (checks : List Check) (seen : List (BucketChain Bytes × List Presence)) :
    List (String × Violation) :=
  checks.zipIdx.flatMap fun (check, index) =>
    let presences := seen.filterMap fun (chain, presences) =>
      presences[index]?.map fun presence => (chain, presence)
    let absentIn := presences.filter fun (_, presence) => presence = .absent
    if (presences.any fun (_, presence) => presence.covers) || absentIn.isEmpty then []
    else [(",".intercalate (absentIn.map fun (chain, _) => chain.bucket.name),
      ⟨"vanished", check.package, check.filename ++ ": committed file is gone with no tombstone"⟩)]

def StorageError.text : StorageError → String
  | notFound => "not found"
  | other error => error

/-- Whether every bucket's chain is valid and its storage matches; an error when the
check could not run. -/
def runVerifyChain (fleet : List (Bucket Bytes)) (strict : Bool) : Except String Bool :=
  match loadAll reader fleet with
  | .error error => .error error
  | .ok chains =>
    let broken := integrityViolations reader chains
    match referenceChain reader chains with
    | none => .ok broken.isEmpty
    | some reference =>
      let shaChanges := inChainShaChanges reference.links
      let checks := checksOf (replay (reference.links.map (·.link)))
      match probeFleet reader chains checks with
      | .error error => .error error.text
      | .ok seen =>
        let violations := broken ++ divergences reader reference chains ++
          presenceViolations checks seen ++ vanished checks seen
        .ok !(!violations.isEmpty || (strict && !shaChanges.isEmpty))

end Pypiron.Transparency.VerifyChain
