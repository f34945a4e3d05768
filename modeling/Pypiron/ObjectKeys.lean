import Mathlib.Data.List.Sort
import Pypiron.PagedListing
import Pypiron.PercentEncoding

/-! Keys on an object store: each is stored under a percent-encoded spelling below
the storage prefix, and listed by that spelling. -/
namespace Pypiron.ObjectKeys
open PagedListing PercentEncoding

abbrev Key := List Byte
abbrev Location := List Byte

def slash : Byte := 0x2f
def dot : Byte := 0x2e

def isUtf8 (text : List Byte) : Bool :=
  (ByteArray.mk (text.map UInt8.ofFin).toArray).validateUTF8

def bytes (text : String) : List Byte := text.toList.map fun c => Fin.ofNat 256 c.toNat

/-! ### Names of artifacts -/

/-- Control characters: one byte, or two of which the first is `0xc2`. -/
def hasControl (name : List Byte) : Bool :=
  name.any (fun b => b < 0x20 || b = 0x7f) ||
    (name.zip name.tail).any fun pair => pair.1 = 0xc2 && 0x80 ≤ pair.2 && pair.2 < 0xa0

def companionSuffixes : List (List Byte) :=
  [".meta.json", ".metadata", ".provenance", ".tombstone", ".frozen", ".mirror-quarantined",
    ".superseding"].map bytes

def isArtifact (name : List Byte) : Bool :=
  name ≠ [] && name.head? ≠ some dot && !(companionSuffixes.any (·.isSuffixOf name))

/-- What an upload may be named; a tilde, say, or a percent sign is not refused. -/
def validArtifactFilename (name : List Byte) : Bool :=
  name.length ≤ 256 && !name.contains slash && !name.contains 0x5c && !hasControl name &&
    isArtifact name

/-! ### Spellings -/

/-- Which bytes the store's paths escape; a slash separates. -/
structure PathRules extends EscapeSet where
  slash_kept : escapes slash = false

def encodePart (rules : PathRules) (part : List Byte) : List Byte :=
  if part = [dot] then escape dot
  else if part = [dot, dot] then escape dot ++ escape dot
  else encode rules.toEscapeSet part

/-- Empty segments are dropped, the others escaped one by one. -/
def osPath (rules : PathRules) (text : List Byte) : Location :=
  [slash].intercalate (((text.splitOn slash).filter (· ≠ [])).map (encodePart rules))

/-- No segment is empty, or stands for a directory. -/
def Shaped (text : List Byte) : Prop :=
  ∀ part ∈ text.splitOn slash, part ≠ [] ∧ part ≠ [dot] ∧ part ≠ [dot, dot]

instance (text : List Byte) : Decidable (Shaped text) :=
  inferInstanceAs (Decidable (∀ part ∈ text.splitOn slash, _))

/-- How keys are spelled, below the storage prefix if one is set. -/
structure Naming where
  rules : PathRules
  root : Option (List Byte)
  root_shaped : ∀ p ∈ root, Shaped p

def Naming.oskey (naming : Naming) (key : Key) : Location :=
  match naming.root with
  | some p => osPath naming.rules (p ++ slash :: key)
  | none => osPath naming.rules key

def stripPrefix (pre text : List Byte) : Option (List Byte) :=
  if pre <+: text then some (text.drop pre.length) else none

def Naming.unkey (naming : Naming) (loc : Location) : Option Key := do
  let rest ← match naming.root with
    | some p => (stripPrefix (osPath naming.rules p) loc).bind (stripPrefix [slash])
    | none => some loc
  if isUtf8 (decode rest) then some (decode rest) else none

/-! ### Listings -/

/-- A directory of the store holds what goes on from it after a slash. -/
def under (dir : Option Location) (loc : Location) : Bool :=
  match dir with
  | none => true
  | some d => d = [] || Decidable.decide (d ++ [slash] <+: loc)

/-- Objects in a bucket, by location: the ones below the storage prefix are ours. -/
structure ObjectStorage extends Naming where
  objects : Listing Location
  ours : ∀ loc ∈ objects.keys,
    under (root.map (osPath rules)) loc = true →
      ∃ key, Shaped key ∧ isUtf8 key = true ∧ toNaming.oskey key = loc

/-- The part of a key up to its last slash. -/
def dirPart (key : Key) : Key := (key.reverse.dropWhile (· ≠ slash)).reverse

variable (storage : ObjectStorage)

def ObjectStorage.listDirPrefix (pre : Key) : Option Location :=
  if dirPart pre ≠ [] ∨ storage.root.isSome then some (storage.oskey (dirPart pre)) else none

/-- The keys of a stream of locations that start with a prefix. -/
def ObjectStorage.listMatching (stream : List Location) (pre : Key) : List Key :=
  (stream.filterMap storage.unkey).filter (Decidable.decide <| pre <+: ·)

def ObjectStorage.stream (pre : Key) (offset : Option Location) : List Location :=
  (storage.objects.under (under (storage.listDirPrefix pre))).beyond offset

def ObjectStorage.listAll (pre : Key) : List Key :=
  (storage.listMatching (storage.stream pre none) pre).insertionSort (· ≤ ·)

def ObjectStorage.listPage (pre : Key) (after : Option Key) (limit : ℕ+) : List Key :=
  (storage.listMatching (storage.stream pre (after.map storage.oskey)) pre).take limit

end Pypiron.ObjectKeys
