import Mathlib.Data.List.Dedup
import Mathlib.Data.List.Sort
import Pypiron.Text

/-! The `_dirty/` event markers and the rule that selects which of them a tick
may consume. A marker is one create-only key `_dirty/<pkg>!<nonce>.intent` or
`.commit`; its age is the storage's own last-modified time. -/
namespace Pypiron

def dirtyPrefix : String := "_dirty/"

def intentSuffix : String := ".intent"

def commitSuffix : String := ".commit"

/-- A listed key with its parsed last-modified time. -/
structure FileEntry where
  key : String
  lastModified : Option Nat
  deriving DecidableEq, Repr

structure Marker where
  key : String
  nonce : Option String
  isCommit : Bool
  writtenAt : Option Nat
  deriving DecidableEq, Repr

/-- Split a marker key into package and marker. A key without a nonce, and one
with an unknown suffix, read as commits so that nothing rots in the prefix. -/
def parseMarker (entry : FileEntry) : Option (String × Marker) := do
  let rest ← stripPrefix dirtyPrefix entry.key
  match splitOnce '!' rest with
  | none => some (rest, ⟨entry.key, none, true, entry.lastModified⟩)
  | some (pkg, event) =>
    match stripSuffix commitSuffix event with
    | some nonce => some (pkg, ⟨entry.key, some nonce, true, entry.lastModified⟩)
    | none =>
      match stripSuffix intentSuffix event with
      | some nonce => some (pkg, ⟨entry.key, some nonce, false, entry.lastModified⟩)
      | none => some (pkg, ⟨entry.key, some event, true, entry.lastModified⟩)

def intentKey (pkg nonce : String) : String := dirtyPrefix ++ pkg ++ "!" ++ nonce ++ intentSuffix

def commitKey (pkg nonce : String) : String := dirtyPrefix ++ pkg ++ "!" ++ nonce ++ commitSuffix

structure DirtyWork where
  package : String
  keys : List String
  staleIntents : Nat
  deriving DecidableEq, Repr

def markersOf (entries : List FileEntry) (package : String) : List Marker :=
  (entries.filterMap parseMarker).filterMap fun (pkg, marker) =>
    if pkg = package then some marker else none

/-- The intent's writer also left a commit in this listing. -/
def paired (markers : List Marker) (marker : Marker) : Bool :=
  match marker.nonce with
  | none => false
  | some nonce => markers.any fun other => other.isCommit && other.nonce == some nonce

def stale (now intentGrace : Nat) (marker : Marker) : Bool :=
  match marker.writtenAt with
  | none => false
  | some writtenAt => writtenAt + intentGrace ≤ now

/-- One package's part of the listing: any fresh unpaired intent defers the whole
package; otherwise every listed marker of it is consumed. -/
def packageWork (now intentGrace : Nat) (package : String) (markers : List Marker) :
    Option DirtyWork :=
  let unpaired := markers.filter fun marker => !marker.isCommit && !paired markers marker
  if unpaired.all (stale now intentGrace) then
    some ⟨package, markers.map (·.key), unpaired.length⟩
  else none

def consumableDirtyWork (entries : List FileEntry) (now intentGrace : Nat) : List DirtyWork :=
  let packages := ((entries.filterMap parseMarker).map (·.1)).dedup
  let work := packages.filterMap fun package =>
    packageWork now intentGrace package (markersOf entries package)
  work.insertionSort fun a b => a.package ≤ b.package

theorem mem_markersOf {entries : List FileEntry} {package : String} {marker : Marker} :
    marker ∈ markersOf entries package ↔ ∃ entry ∈ entries, parseMarker entry = some (package, marker) := by
  simp only [markersOf, List.mem_filterMap, Prod.exists]
  constructor
  · rintro ⟨pkg, found, ⟨entry, listed, parsed⟩, kept⟩
    split at kept
    · rename_i same
      obtain rfl := Option.some.inj kept
      exact ⟨entry, listed, same ▸ parsed⟩
    · cases kept
  · rintro ⟨entry, listed, parsed⟩
    exact ⟨package, marker, ⟨entry, listed, parsed⟩, by simp⟩

theorem parseMarker_key {entry : FileEntry} (parsed : parseMarker entry = some (pkg, marker)) :
    marker.key = entry.key ∧ marker.writtenAt = entry.lastModified := by
  simp only [parseMarker, Option.bind_eq_bind, Option.bind_eq_some_iff] at parsed
  obtain ⟨rest, -, parsed⟩ := parsed
  repeat' split at parsed
  all_goals
    simp only [Option.some.injEq, Prod.mk.injEq] at parsed
    obtain ⟨-, rfl⟩ := parsed
    exact ⟨rfl, rfl⟩

/-- What a marker key says does not depend on when it was written. -/
theorem parseMarker_dated {key : String} {writtenAt : Option Nat}
    (parsed : parseMarker ⟨key, writtenAt⟩ = some (pkg, marker)) (other : Option Nat) :
    parseMarker ⟨key, other⟩ = some (pkg, { marker with writtenAt := other }) := by
  simp only [parseMarker, Option.bind_eq_bind, Option.bind_eq_some_iff] at parsed ⊢
  obtain ⟨rest, stripped, parsed⟩ := parsed
  refine ⟨rest, stripped, ?_⟩
  repeat' split at parsed
  all_goals
    simp only [Option.some.injEq, Prod.mk.injEq] at parsed
    obtain ⟨rfl, rfl⟩ := parsed
    simp_all

/-- The two suffixes have one length, so a key with one never has the other. -/
theorem stripSuffix_commit_intent (nonce : String) :
    stripSuffix commitSuffix (nonce ++ intentSuffix) = none := by
  have apart : ¬ commitSuffix.toList <:+ nonce.toList ++ intentSuffix.toList := by
    rintro ⟨before, same⟩
    have tails := List.append_inj_right' same (by decide)
    exact absurd tails (by decide)
  simp only [stripSuffix, String.toList_append, if_neg apart]

theorem parseMarker_intentKey {pkg : String} (clean : '!' ∉ pkg.toList) (nonce : String)
    (writtenAt : Option Nat) : parseMarker ⟨intentKey pkg nonce, writtenAt⟩ =
      some (pkg, ⟨intentKey pkg nonce, some nonce, false, writtenAt⟩) := by
  have shape : intentKey pkg nonce = dirtyPrefix ++ (pkg ++ "!" ++ (nonce ++ intentSuffix)) := by
    simp only [intentKey, String.append_assoc]
  simp only [parseMarker, Option.bind_eq_bind]
  rw [shape, stripPrefix_append, Option.bind_some, splitOnce_append (by decide) clean]
  simp only [stripSuffix_commit_intent, stripSuffix_append]

theorem parseMarker_commitKey {pkg : String} (clean : '!' ∉ pkg.toList) (nonce : String)
    (writtenAt : Option Nat) : parseMarker ⟨commitKey pkg nonce, writtenAt⟩ =
      some (pkg, ⟨commitKey pkg nonce, some nonce, true, writtenAt⟩) := by
  have shape : commitKey pkg nonce = dirtyPrefix ++ (pkg ++ "!" ++ (nonce ++ commitSuffix)) := by
    simp only [commitKey, String.append_assoc]
  simp only [parseMarker, Option.bind_eq_bind]
  rw [shape, stripPrefix_append, Option.bind_some, splitOnce_append (by decide) clean]
  simp only [stripSuffix_append]

section Selection
variable {entries : List FileEntry} {now intentGrace : Nat} {work : DirtyWork}

theorem mem_consumable (selected : work ∈ consumableDirtyWork entries now intentGrace) :
    packageWork now intentGrace work.package (markersOf entries work.package) = some work := by
  simp only [consumableDirtyWork, List.mem_insertionSort, List.mem_filterMap] at selected
  obtain ⟨package, -, chosen⟩ := selected
  have same : work.package = package := by
    simp only [packageWork] at chosen
    split at chosen
    · obtain rfl := Option.some.inj chosen
      rfl
    · cases chosen
  rwa [same]

/-- A selected package has no fresh unpaired intent in the listing. -/
theorem consumable_unpaired (selected : work ∈ consumableDirtyWork entries now intentGrace)
    (listed : marker ∈ markersOf entries work.package) (intent : marker.isCommit = false)
    (alone : paired (markersOf entries work.package) marker = false) :
    ∃ writtenAt, marker.writtenAt = some writtenAt ∧ writtenAt + intentGrace ≤ now := by
  have chosen := mem_consumable selected
  simp only [packageWork] at chosen
  split at chosen
  · rename_i aged
    have old := List.all_eq_true.mp aged marker (by simp [listed, intent, alone])
    simp only [stale] at old
    split at old
    · cases old
    · rename_i writtenAt known
      exact ⟨writtenAt, known, of_decide_eq_true old⟩
  · cases chosen

/-- The keys a tick will consume for a package are listed keys of that package. -/
theorem consumable_keys (selected : work ∈ consumableDirtyWork entries now intentGrace)
    (key : k ∈ work.keys) :
    ∃ entry ∈ entries, entry.key = k ∧ ∃ marker, parseMarker entry = some (work.package, marker) := by
  have chosen := mem_consumable selected
  simp only [packageWork] at chosen
  split at chosen
  · rw [← Option.some.inj chosen] at key
    obtain ⟨marker, listed, rfl⟩ := List.mem_map.mp key
    obtain ⟨entry, member, parsed⟩ := mem_markersOf.mp listed
    exact ⟨entry, member, (parseMarker_key parsed).1.symm, marker, parsed⟩
  · cases chosen

end Selection
end Pypiron
