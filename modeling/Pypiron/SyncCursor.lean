import Pypiron.KeyedMap
import Pypiron.Quarantine
import Pypiron.Sidecar
import Pypiron.Status

/-! Sync runs of one mirrored project. A run uploads what the destination's own
index does not list, reconciles the yanks of what it does, relays the project's
status, and stores the tag of the listing it worked from; the next run that sends
that tag may be told that nothing changed. -/
namespace Pypiron.SyncCursor
open KeyedMap Quarantine

/-! ### Upstream and the destination -/

/-- A status that does not parse is no verdict. -/
inductive UpstreamStatus where
  | absent
  | known (doc : ProjectStatusDoc)
  | unparseable

/-- A listing of the source, by filename. -/
structure Listing where
  files : KeyedMap String Yanked
  status : UpstreamStatus

def removedUpstream : String := "removed upstream"

/-- Upstream's verdict on a file, or that it is gone. -/
def Listing.desired (listing : Listing) (filename : String) : Yanked :=
  match listing.files.lookup filename with
  | some yanked => yanked.normalized
  | none => .reason removedUpstream

/-- The status to relay, if there is a verdict. -/
def UpstreamStatus.desired : UpstreamStatus → Option ProjectStatusDoc
  | unparseable => none
  | known doc => some (if doc.status = .active then default else doc)
  | absent => some default

def UpstreamStatus.blocks : UpstreamStatus → Bool
  | known doc => blocksDownloads doc.status
  | _ => false

def UpstreamStatus.frozen : UpstreamStatus → Bool
  | known doc => doc.status ≠ .active
  | _ => false

/-- What the destination stores of the project. -/
structure Dest where
  files : KeyedMap String Yanked
  status : ProjectStatusDoc

/-- What the destination's materialized index shows of it. -/
structure LocalIndex where
  files : List (String × Yanked)
  projectStatus : Option ProjectStatusDoc

/-! ### Calls -/

/-- A call that is lost has no effect and one that fails late has; both fail. -/
inductive Answer where
  | lost
  | late
  | done
  deriving DecidableEq

/-- An upload may also be refused for a name the destination deleted on purpose. -/
inductive UploadAnswer where
  | call (answer : Answer)
  | fenced
  deriving DecidableEq

inductive LocalAnswer where
  | failed
  | missing
  | found (index : LocalIndex)

/-- What upstream answers, when it is not that the listing is unchanged. -/
inductive Fetched where
  | failed
  | notFound
  | listing (tagged : Bool)

/-- One run over the project: the listing that stands upstream, named by its tag,
whether the run sends the tag it has, and the answers it gets. -/
structure Run where
  version : ℕ
  full : Bool
  conditional : Bool
  fetched : Fetched
  localIndex : LocalAnswer
  selected : String → Bool
  upload : String → UploadAnswer
  yank : String → Answer
  status : Answer
  saved : Bool

/-- The destination's objects, and the stored tag. -/
structure State where
  dest : Dest
  cursor : Option ℕ

/-- Upload a file; one that is already there is left as it is. -/
def uploadViaHttp (listing : Listing) (answer : UploadAnswer) (filename : String) (dest : Dest) :
    Dest × Bool :=
  if filename ∈ dest.files then (dest, answer = .call .done ∨ answer = .fenced)
  else
    let landed := { dest with files := dest.files.insert filename (listing.desired filename) }
    match answer with
    | .call .lost => (dest, false)
    | .call .late => (landed, false)
    | .call .done => (landed, true)
    | .fenced => (dest, true)

def applyYank (answer : Answer) (filename : String) (yanked : Yanked) (dest : Dest) : Dest × Bool :=
  if filename ∈ dest.files then
    let set := { dest with files := dest.files.insert filename yanked }
    match answer with
    | .lost => (dest, false)
    | .late => (set, false)
    | .done => (set, true)
  else (dest, false)

/-- Upload the files, counting the errors. -/
def uploadAll (listing : Listing) (answers : String → UploadAnswer) (filenames : List String)
    (dest : Dest) : Dest × ℕ :=
  filenames.foldl (fun (dest, errors) filename =>
    let (dest, ok) := uploadViaHttp listing (answers filename) filename dest
    (dest, if ok then errors else errors + 1)) (dest, 0)

/-- Flip each shown file whose yank drifted, up to the first failure. -/
def reconcileYanks (listing : Listing) (answers : String → Answer) :
    List (String × Yanked) → Dest → Dest × Bool
  | [], dest => (dest, true)
  | (filename, yanked) :: rest, dest =>
    if yanked = listing.desired filename then reconcileYanks listing answers rest dest
    else
      let (dest, ok) := applyYank (answers filename) filename (listing.desired filename) dest
      if ok then reconcileYanks listing answers rest dest else (dest, false)

/-- Set or clear the status where the shown one drifted. -/
def relayStatus (status : UpstreamStatus) (answer : Answer) (shown : LocalIndex) (dest : Dest) :
    Dest × Bool :=
  match status.desired with
  | none => (dest, true)
  | some wanted =>
    if shown.projectStatus.getD default = wanted then (dest, true)
    else
      let set := { dest with status := wanted }
      match answer with
      | .lost => (dest, false)
      | .late => (set, false)
      | .done => (set, true)

/-! ### Runs -/

inductive Outcome where
  | failed
  | notModified
  | finished (newCursor : Option ℕ)
  deriving DecidableEq

/-- The files a listing selects that the index does not show. -/
def toUpload (listing : Listing) (selected : String → Bool) (shown : Option LocalIndex) :
    List String :=
  (listing.files.keys.filter selected).filter fun filename =>
    !(shown.any fun index => (index.files.map Prod.fst).contains filename)

/-- Reconcile what the index shows with the listing, counting the errors; whether
the cursor is to be held. The index of a blocked project names no files. -/
def reconcileShown (listing : Listing) (run : Run) (shown : Option LocalIndex) (dest : Dest) :
    Dest × ℕ × Bool :=
  match shown with
  | some index =>
    let destBlocks := index.projectStatus.any fun doc => blocksDownloads doc.status
    let (dest, reconciled) :=
      if listing.status.blocks || destBlocks then (dest, true)
      else reconcileYanks listing run.yank index.files dest
    let (dest, relayed) := relayStatus listing.status run.status index dest
    (dest, (if reconciled then 0 else 1) + (if relayed then 0 else 1),
      !listing.status.blocks && destBlocks)
  -- an older destination, where a freeze cannot be relayed
  | none => (dest, if listing.status.frozen then 1 else 0, false)

/-- Bring the destination in step with a listing. The cursor is held where the
run could not reconcile all of it. -/
def syncListing (listing : Listing) (version : ℕ) (tagged : Bool) (run : Run) (dest : Dest) :
    Dest × Outcome :=
  let (shown, fetchErrors) : Option LocalIndex × ℕ := match run.localIndex with
    | .found index => (some index, 0)
    | .missing => (none, 0)
    | .failed => (none, 1)
  let (dest, uploadErrors) := uploadAll listing run.upload (toUpload listing run.selected shown) dest
  let unreadable := listing.status.desired.isNone
  let (dest, errors, hold) := reconcileShown listing run shown dest
  if fetchErrors + uploadErrors + errors = 0 then
    (dest, .finished (if unreadable || hold || !tagged then none else some version))
  else (dest, .failed)

/-- One run; upstream answers that nothing changed only to the tag that stands. -/
def syncOnePackage (upstream : ℕ → Listing) (s : State) (run : Run) : Dest × Outcome :=
  if run.conditional ∧ !run.full ∧ s.cursor = some run.version then (s.dest, .notModified)
  else match run.fetched with
    | .failed => (s.dest, .failed)
    | .notFound => (s.dest, .finished none)
    | .listing tagged => syncListing (upstream run.version) run.version tagged run s.dest

/-- Save what the run has for the memo; a full run drops what it could not replace. -/
def saveCursors (run : Run) (outcome : Outcome) (cursor : Option ℕ) : Option ℕ :=
  if run.saved then
    match outcome with
    | .finished (some version) => some version
    | .notModified => cursor
    | _ => if run.full then none else cursor
  else cursor

def step (upstream : ℕ → Listing) (s : State) (run : Run) : State :=
  let (dest, outcome) := syncOnePackage upstream s run
  ⟨dest, saveCursors run outcome s.cursor⟩

/-- The state before the `n`-th run. -/
def states (upstream : ℕ → Listing) (runs : ℕ → Run) : ℕ → State
  | 0 => ⟨⟨∅, default⟩, none⟩
  | n + 1 => step upstream (states upstream runs n) (runs n)

def outcome (upstream : ℕ → Listing) (runs : ℕ → Run) (n : ℕ) : Outcome :=
  (syncOnePackage upstream (states upstream runs n) (runs n)).2

end Pypiron.SyncCursor
