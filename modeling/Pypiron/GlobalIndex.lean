import Mathlib
import Pypiron.TaggedCell
import Pypiron.ThreadPool

/-! The global index of a bucket: the canonical JSON, the HTML derived from it, and the stamp
that vouches for the HTML, updated by any number of nodes. A node keeps the name set in
memory under a lock, pinned to the etag of the JSON it was read from. -/
namespace Pypiron.GlobalIndex
open VersionedCell (Request)

/-- How the two views are written, what a JSON body says, and which bodies the etags of the
store stand for. -/
structure Views (Json Html Digest : Type) where
  parse : Json → Option (List String)
  pep691GlobalJson : List String → Json
  pep503GlobalHtml : List String → Html
  sha256 : String → Digest
  jsonOf : ℕ → Option Json
  htmlOf : ℕ → Option Html
  parse_json : ∀ packages, parse (pep691GlobalJson packages) = some packages

/-- The digest of the names, one a line. -/
def Views.globalNamesDigest {Json Html Digest : Type} (views : Views Json Html Digest)
    (packages : List String) : Digest := views.sha256 ("\n".intercalate packages)

/-- What vouches for the HTML of one etag. -/
structure GlobalHtmlStamp (Digest : Type) where
  htmlEtag : ℕ
  names : Digest
  deriving DecidableEq

/-- The name set in memory: `etag` is the JSON it was read from, `stranded` says that it was
not read from the JSON but derived. -/
structure GlobalNames where
  etag : Option ℕ
  names : Finset String
  htmlEtag : Option ℕ
  htmlCurrent : Bool
  stranded : Bool

def sorted (names : Finset String) : List String := names.sort (· ≤ ·)

@[simp] theorem sorted_toFinset (names : Finset String) : (sorted names).toFinset = names :=
  Finset.sort_toFinset ..

def GlobalNames.packages (cached : GlobalNames) : List String := sorted cached.names

variable {Json Html Digest : Type}

/-! ### Operations -/

/-- What a node asks of the store, and of its own lock. -/
inductive Op (Json Html Digest : Type) where
  | json (request : Request Json)
  | html (request : Request Html)
  | readStamp
  | writeStamp (stamp : GlobalHtmlStamp Digest)
  | listShard (shard : Char)
  | packageFingerprint (pkg : String)
  | markDirty (pkg : String)
  | lock (node : ℕ)
  | unlock (node : ℕ) (guard : Option GlobalNames)

def Op.Ans : Op Json Html Digest → Type
  | json request => request.Ans
  | html request => request.Ans
  | readStamp => Except String (Option (GlobalHtmlStamp Digest))
  | writeStamp _ => Except String Unit
  | listShard _ => Except String (Finset String)
  | packageFingerprint _ => Except String String
  | markDirty _ => Except String Unit
  | lock _ => Option GlobalNames
  | unlock _ _ => Unit

abbrev GlobalM (Json Html Digest : Type) := Program (Op Json Html Digest) Op.Ans String

section Requests

def getJson : GlobalM Json Html Digest (Option (Json × ℕ)) :=
  .call (.json .getWithEtag) fun answer => .done answer

def getHtml : GlobalM Json Html Digest (Option (Html × ℕ)) :=
  .call (.html .getWithEtag) fun answer => .done answer

def putJson (expected : Option ℕ) (body : Json) : GlobalM Json Html Digest (Option ℕ) :=
  match expected with
  | some etag => .call (.json (.putIfMatch etag body)) fun answer => .done answer
  | none => .call (.json (.putIfNoneMatch body)) fun answer => .done answer

def putHtml (expected : Option ℕ) (body : Html) : GlobalM Json Html Digest (Option ℕ) :=
  match expected with
  | some etag => .call (.html (.putIfMatch etag body)) fun answer => .done answer
  | none => .call (.html (.putIfNoneMatch body)) fun answer => .done answer

def listShard (shard : Char) : GlobalM Json Html Digest (Finset String) :=
  .call (.listShard shard) fun answer => .done answer

def packageFingerprint (pkg : String) : GlobalM Json Html Digest String :=
  .call (.packageFingerprint pkg) fun answer => .done answer

def markDirty (pkg : String) : GlobalM Json Html Digest Unit :=
  .call (.markDirty pkg) fun answer => .done answer

def lockNames (node : ℕ) : GlobalM Json Html Digest (Option GlobalNames) :=
  .call (.lock node) fun answer => .done (.ok answer)

def unlockNames (node : ℕ) (guard : Option GlobalNames) : GlobalM Json Html Digest Unit :=
  .call (.unlock node guard) fun _ => .done (.ok ())

/-- A stamp that is missing, does not parse or cannot be read proves nothing. -/
def readGlobalHtmlStamp : GlobalM Json Html Digest (Option (GlobalHtmlStamp Digest)) :=
  .call .readStamp fun answer => .done (.ok (answer.toOption.join))

end Requests

/-! ### Loading -/

def shardChars : List Char := "0123456789abcdefghijklmnopqrstuvwxyz".toList

/-- The packages that have a view of their own, shard by shard. -/
def deriveGlobalNames : List Char → GlobalM Json Html Digest (Finset String)
  | [] => pure ∅
  | shard :: shards => do
    let listed ← listShard shard
    let rest ← deriveGlobalNames shards
    pure (listed ∪ rest)

section Updates
variable (views : Views Json Html Digest)

def loadGlobalNames : GlobalM Json Html Digest GlobalNames := do
  let body ← getJson
  let html ← getHtml
  let htmlEtag := html.map (·.2)
  match body with
  | none =>
    let stranded := (← getHtml).isSome
    let names ← if stranded then deriveGlobalNames shardChars else pure ∅
    pure { etag := none, names, htmlEtag, htmlCurrent := false, stranded }
  | some (bytes, etag) =>
    match views.parse bytes with
    | some projects =>
      pure { etag := some etag, names := projects.toFinset, htmlEtag, htmlCurrent := false, stranded := false }
    | none =>
      let names ← deriveGlobalNames shardChars
      pure { etag := some etag, names, htmlEtag, htmlCurrent := false, stranded := true }

/-- The etags of the pair, as the two HEADs tell them. -/
def globalIndexEtags : GlobalM Json Html Digest (Option ℕ × Option ℕ) := do
  let json ← getJson
  let html ← getHtml
  pure (json.map (·.2), html.map (·.2))

/-! ### Writing -/

section Write
variable [DecidableEq Html] [DecidableEq Digest]

inductive HtmlWrite where
  | wrote (etag : ℕ)
  | lost

inductive HtmlReconcile where
  | current
  | rewrote (etag : ℕ)
  | lost

inductive CasOutcome where
  | won (jsonEtag htmlEtag : ℕ)
  | lost

def writeGlobalHtmlCas (packages : List String) (expectedEtag : Option ℕ) :
    GlobalM Json Html Digest HtmlWrite := do
  match ← putHtml expectedEtag (views.pep503GlobalHtml packages) with
  | some etag => pure (.wrote etag)
  | none => pure .lost

def writeGlobalHtmlStamp (htmlEtag : ℕ) (packages : List String) : GlobalM Json Html Digest Unit :=
  .call (.writeStamp ⟨htmlEtag, views.globalNamesDigest packages⟩) fun answer => .done answer

def globalHtmlProvedCurrent (htmlEtag : Option ℕ) (packages : List String) :
    GlobalM Json Html Digest Bool := do
  match htmlEtag with
  | none => pure false
  | some htmlEtag =>
    match ← readGlobalHtmlStamp with
    | none => pure false
    | some stamp =>
      pure (stamp.htmlEtag == htmlEtag && stamp.names == views.globalNamesDigest packages)

/-- What a reconcile makes of its write. -/
def HtmlWrite.reconciled : HtmlWrite → HtmlReconcile
  | wrote etag => .rewrote etag
  | lost => .lost

def reconcileGlobalHtml (packages : List String) (expectedEtag : Option ℕ) :
    GlobalM Json Html Digest HtmlReconcile := do
  match ← getHtml with
  | none =>
    if packages = [] then pure .current
    else do
      let outcome ← writeGlobalHtmlCas views packages none
      pure outcome.reconciled
  | some (current, _) =>
    if current = views.pep503GlobalHtml packages then pure .current
    else do
      let outcome ← writeGlobalHtmlCas views packages expectedEtag
      pure outcome.reconciled

/-- The HTML first, the canonical JSON last, each over the version expected. -/
def writeGlobalIndexesCas (packages : List String) (expectedEtag expectedHtmlEtag : Option ℕ) :
    GlobalM Json Html Digest CasOutcome := do
  match ← writeGlobalHtmlCas views packages expectedHtmlEtag with
  | .lost => pure .lost
  | .wrote htmlEtag =>
    match ← putJson expectedEtag (views.pep691GlobalJson packages) with
    | none => pure .lost
    | some jsonEtag => do
      writeGlobalHtmlStamp views htmlEtag packages
      pure (.won jsonEtag htmlEtag)

/-! ### Updating -/

/-- Take a delta in, and tell whether it changed anything. -/
def insertAll (names : Finset String) : List String → Finset String × Bool
  | [] => (names, false)
  | pkg :: adds =>
    let rest := insertAll (insert pkg names) adds
    (rest.1, Decidable.decide (pkg ∉ names) || rest.2)

def removeAll (names : Finset String) : List String → Finset String × Bool
  | [] => (names, false)
  | pkg :: removes =>
    let rest := removeAll (names.erase pkg) removes
    (rest.1, Decidable.decide (pkg ∈ names) || rest.2)

def absorb (names : Finset String) (adds removes : List String) : Finset String × Bool :=
  let added := insertAll names adds
  let removed := removeAll added.1 removes
  (removed.1, added.2 || removed.2)

/-- Re-prove each dead observation; one that has moved is handed to the markers. -/
def reprove : List (String × String) → Finset String → GlobalM Json Html Digest (List String × Finset String)
  | [], failed => pure ([], failed)
  | (pkg, observed) :: dead, failed =>
    if pkg ∈ failed then reprove dead failed
    else do
      if (← packageFingerprint pkg) = observed then
        let rest ← reprove dead failed
        pure (pkg :: rest.1, rest.2)
      else
        markDirty pkg
        reprove dead (insert pkg failed)

/-- The page has been looked at again. -/
def GlobalNames.reobserved (cached : GlobalNames) (htmlEtag : Option ℕ) : GlobalNames :=
  if htmlEtag ≠ cached.htmlEtag then { cached with htmlEtag, htmlCurrent := false } else cached

/-- See that the page renders the set in memory. `none` asks for a reload. -/
def proveHtml (cached : GlobalNames) : GlobalM Json Html Digest (Option GlobalNames) := do
  if cached.htmlCurrent then pure (some cached)
  else if ← globalHtmlProvedCurrent views cached.htmlEtag cached.packages then
    pure (some { cached with htmlCurrent := true })
  else
    match ← reconcileGlobalHtml views cached.packages cached.htmlEtag with
    | .current => pure (some { cached with htmlCurrent := true })
    | .rewrote htmlEtag => do
      writeGlobalHtmlStamp views htmlEtag cached.packages
      pure (some { cached with htmlEtag := some htmlEtag, htmlCurrent := true })
    | .lost => pure none

/-- Nothing changed in memory: see that the JSON still stands and the page agrees. -/
def confirmCurrent (cached : GlobalNames) : GlobalM Json Html Digest (Option GlobalNames) := do
  let etags ← globalIndexEtags
  if etags.1 ≠ cached.etag ∨ etags.1.isNone ∧ etags.2.isSome then pure none
  else proveHtml views (cached.reobserved etags.2)

/-- Write the pair out. `none` means that a peer was first. -/
def publish (cached : GlobalNames) : GlobalM Json Html Digest (Option GlobalNames) := do
  match ← writeGlobalIndexesCas views cached.packages cached.etag cached.htmlEtag with
  | .won jsonEtag htmlEtag =>
    pure (some { cached with
      etag := some jsonEtag, htmlEtag := some htmlEtag, htmlCurrent := true, stranded := false })
  | .lost => pure none

def cachedNames : Option GlobalNames → GlobalM Json Html Digest GlobalNames
  | some cached => pure cached
  | none => loadGlobalNames views

/-- Take the delta in; where it changes nothing the pair is confirmed, else it is written. -/
def applyDelta (cached : GlobalNames) (adds removes : List String) :
    GlobalM Json Html Digest (Option GlobalNames) :=
  let taken := absorb cached.names adds removes
  let absorbed := { cached with names := taken.1 }
  if !taken.2 && !absorbed.stranded then confirmCurrent views absorbed else publish views absorbed

section Locked
variable (adds removes : List String) (dead : List (String × String))

def updateGlobalIndexLocked : ℕ → Finset String → Option GlobalNames → GlobalM Json Html Digest GlobalNames
  | 0, _, _ => .bail "global index CAS retries exhausted"
  | attempts + 1, failed, guard => do
    let cached ← cachedNames views guard
    let proved ← reprove dead failed
    match ← applyDelta views cached adds (removes ++ proved.1) with
    | some cached => pure cached
    | none => updateGlobalIndexLocked attempts proved.2 none

/-- The cache does not outlive an error. -/
def updateGlobalIndexInner (node : ℕ) : GlobalM Json Html Digest Unit := do
  let guard ← lockNames node
  (updateGlobalIndexLocked views adds removes dead 4 ∅ guard).attempt fun
    | .ok cached => unlockNames node (some cached)
    | .error text => do
      unlockNames node none
      .bail text

end Locked

/-- One attempt of an update that keeps no cache; `false` asks for another. -/
def attemptUncached (adds removes : List String) : GlobalM Json Html Digest Bool := do
  let loaded ← loadGlobalNames views
  let taken := absorb loaded.names adds removes
  let packages := sorted taken.1
  if !taken.2 && !loaded.stranded then
    if ← globalHtmlProvedCurrent views loaded.htmlEtag packages then pure true
    else
      match ← reconcileGlobalHtml views packages loaded.htmlEtag with
      | .current => pure true
      | .rewrote htmlEtag => do
        writeGlobalHtmlStamp views htmlEtag packages
        pure true
      | .lost => pure false
  else
    match ← writeGlobalIndexesCas views packages loaded.etag loaded.htmlEtag with
    | .won _ _ => pure true
    | .lost => pure false

def retryUncached (adds removes : List String) : ℕ → GlobalM Json Html Digest Unit
  | 0 => .bail "destination global index CAS retries exhausted"
  | attempts + 1 => do
    if ← attemptUncached views adds removes then pure ()
    else retryUncached adds removes attempts

def updateGlobalIndexUncached (adds removes : List String) : GlobalM Json Html Digest Unit :=
  if adds = [] ∧ removes = [] then pure () else retryUncached views adds removes 4

end Write
end Updates

/-! ### Nodes -/

/-- The three ways to update the index. -/
inductive Call where
  | update (node : ℕ) (adds removes : List String)
  | verified (node : ℕ) (adds : List String) (dead : List (String × String))
  | uncached (adds removes : List String)

def Call.adds : Call → List String
  | update _ adds _ => adds
  | verified _ adds _ => adds
  | uncached adds _ => adds

def Call.removes : Call → List String
  | update _ _ removes => removes
  | verified _ _ _ => []
  | uncached _ removes => removes

def Call.dead : Call → List (String × String)
  | verified _ _ dead => dead
  | _ => []

def Call.program [DecidableEq Html] [DecidableEq Digest] (views : Views Json Html Digest) :
    Call → GlobalM Json Html Digest Unit
  | update node adds removes => updateGlobalIndexInner views adds removes [] node
  | verified node adds dead => updateGlobalIndexInner views adds [] dead node
  | uncached adds removes => updateGlobalIndexUncached views adds removes

def Call.caches : Call → Bool
  | uncached _ _ => false
  | _ => true

/-- One bucket with its packages, and the memory of the nodes with the threads that hold it. -/
structure Store (views : Views Json Html Digest) where
  json : TaggedCell views.jsonOf
  html : TaggedCell views.htmlOf
  stamp : Option (GlobalHtmlStamp Digest)
  listed : Finset String
  fingerprint : String → String
  caches : ℕ → Option GlobalNames
  holders : ℕ → Option ℕ

variable {views : Views Json Html Digest}

def Store.shard (store : Store views) (c : Char) : Finset String :=
  store.listed.filter fun pkg => pkg.toList.head? = some c

/-- A request is answered, fails outright, or takes effect and is reported as failed. -/
inductive Performs (thread : ℕ) (store : Store views) :
    (op : Op Json Html Digest) → op.Ans → Store views → Prop where
  | json (serves : TaggedCell.Serves store.json request answer cell) :
      Performs thread store (.json request) answer { store with json := cell }
  | html (serves : TaggedCell.Serves store.html request answer cell) :
      Performs thread store (.html request) answer { store with html := cell }
  | stampRead : Performs thread store .readStamp (.ok store.stamp) store
  | stampUnread (text : String) : Performs thread store .readStamp (.error text) store
  | stampWritten (stamp : GlobalHtmlStamp Digest) :
      Performs thread store (.writeStamp stamp) (.ok ()) { store with stamp := some stamp }
  | stampFailed (stamp : GlobalHtmlStamp Digest) (text : String) :
      Performs thread store (.writeStamp stamp) (.error text) store
  | stampLost (stamp : GlobalHtmlStamp Digest) (text : String) :
      Performs thread store (.writeStamp stamp) (.error text) { store with stamp := some stamp }
  | listed (c : Char) : Performs thread store (.listShard c) (.ok (store.shard c)) store
  | unlisted (c : Char) (text : String) : Performs thread store (.listShard c) (.error text) store
  | fingerprint (pkg : String) :
      Performs thread store (.packageFingerprint pkg) (.ok (store.fingerprint pkg)) store
  | unknown (pkg text : String) : Performs thread store (.packageFingerprint pkg) (.error text) store
  | marked (pkg : String) : Performs thread store (.markDirty pkg) (.ok ()) store
  | unmarked (pkg text : String) : Performs thread store (.markDirty pkg) (.error text) store
  | locked (free : store.holders node = none) : Performs thread store (.lock node) (store.caches node)
      { store with holders := Function.update store.holders node (some thread) }
  | unlocked (guard : Option GlobalNames) (held : store.holders node = some thread) :
      Performs thread store (.unlock node guard) ()
      { store with
        caches := Function.update store.caches node guard
        holders := Function.update store.holders node none }

/-- Others may change the packages, write the pair, and delete the JSON and the stamp. -/
structure Drifts (store store' : Store views) : Prop where
  html : store.html.get ≠ none → store'.html.get ≠ none
  stamp : store'.stamp = store.stamp ∨ store'.stamp = none
  caches : store'.caches = store.caches
  holders : store'.holders = store.holders

/-- Any number of updates, each of which may stop anywhere, and be cancelled where it holds
no name set. -/
def globalIndex [DecidableEq Html] [DecidableEq Digest] (views : Views Json Html Digest) :
    ThreadPool.System (Store views) Call (Op Json Html Digest) Op.Ans String Unit where
  program := Call.program views
  performs := Performs
  drifts := Drifts
  drops := fun thread store store' => store' = store ∧ ∀ node, store.holders node ≠ some thread

end Pypiron.GlobalIndex
