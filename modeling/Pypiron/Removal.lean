import Pypiron.PagedListing
import Pypiron.VerifyIndex

/-! The gate before a bucket is dropped: one forward merge of its listing with the
listings of the buckets that stay, which finds what no other bucket holds. -/
namespace Pypiron.Removal
open PagedListing
open VerifyIndex (isArtifact endsWith)

def packagesPrefix : String := "packages/"

/-- A bucket's keys, and the error, if any, that a page read from after a key meets. -/
structure Bucket where
  listing : Listing String
  failure : Option String → Option String

def Bucket.packages (bucket : Bucket) : Listing String :=
  bucket.listing.under fun key => packagesPrefix.toList.isPrefixOf key.toList

def Bucket.listPage (bucket : Bucket) (after : Option String) (limit : ℕ+) :
    Except String (List String) :=
  match bucket.failure after with
  | some error => .error error
  | none => .ok (bucket.packages.page after limit)

/-! ### A bucket's keys as a stream -/

structure PagedKeys where
  bucket : Bucket
  after : Option String
  buf : List String
  done : Bool

def PagedKeys.new (bucket : Bucket) : PagedKeys := ⟨bucket, none, [], false⟩

def PagedKeys.remaining (keys : PagedKeys) : List String :=
  keys.buf ++ keys.bucket.packages.unread keys.after keys.done

variable (limit : ℕ+)

def PagedKeys.fill (keys : PagedKeys) : Except String PagedKeys :=
  if keys.buf.isEmpty && !keys.done then
    match keys.bucket.listPage keys.after limit with
    | .error error => .error error
    | .ok page => .ok { keys with
        done := page.length < limit
        after := page.getLast?
        buf := page }
  else .ok keys

theorem listPage_ok {bucket : Bucket} {after : Option String} {page : List String}
    (listed : bucket.listPage after limit = .ok page) : page = bucket.packages.page after limit := by
  unfold Bucket.listPage at listed
  split at listed
  · contradiction
  · exact (Except.ok.inj listed).symm

theorem fill_remaining {keys filled : PagedKeys} (ok : keys.fill limit = .ok filled) :
    filled.bucket = keys.bucket ∧ filled.remaining = keys.remaining := by
  unfold PagedKeys.fill at ok
  split at ok
  · rename_i empty
    simp only [Bool.and_eq_true, List.isEmpty_iff, Bool.not_eq_true'] at empty
    split at ok
    · contradiction
    · rename_i page listed
      obtain rfl := Except.ok.inj ok
      obtain rfl := listPage_ok limit listed
      simp only [PagedKeys.remaining, empty.1, empty.2, List.nil_append]
      exact ⟨trivial, (Listing.unread_page _ _ _).symm⟩
  · obtain rfl := Except.ok.inj ok
    exact ⟨rfl, rfl⟩

theorem fill_empty {keys filled : PagedKeys} (ok : keys.fill limit = .ok filled)
    (empty : filled.buf = []) : filled.remaining = [] := by
  unfold PagedKeys.fill at ok
  split at ok
  · split at ok
    · contradiction
    · obtain rfl := Except.ok.inj ok
      simp only at empty
      simp [PagedKeys.remaining, empty]
  · rename_i full
    obtain rfl := Except.ok.inj ok
    simp only [empty, List.isEmpty_nil, Bool.true_and, Bool.not_eq_true', Bool.not_eq_false] at full
    simp [PagedKeys.remaining, empty, full]

/-- Pass every key below the target, then say whether the target comes next. -/
def PagedKeys.contains (keys : PagedKeys) (target : String) : Except String (Bool × PagedKeys) :=
  match _filled : keys.fill limit with
  | .error error => .error error
  | .ok keys' =>
    match _buffered : keys'.buf with
    | [] => .ok (false, keys')
    | front :: rest =>
      if front < target then PagedKeys.contains { keys' with buf := rest } target
      else .ok (front = target, keys')
termination_by keys.remaining.length
decreasing_by
  rw [← (fill_remaining limit _filled).2]
  simp [PagedKeys.remaining, _buffered]

/-! ### The merge -/

/-- Whether some survivor holds the key; one that does stops the search. -/
def anyContains : List PagedKeys → String → Except String (Bool × List PagedKeys)
  | [], _ => .ok (false, [])
  | keys :: others, target => do
    let (present, keys) ← keys.contains limit target
    if present then return (true, keys :: others)
    let (present, others) ← anyContains others target
    return (present, keys :: others)

def fenceSuffixes : List String := [".tombstone", ".frozen", ".mirror-quarantined"]

/-- An artifact, or a fence. -/
def isContent (key : String) : Bool :=
  let filename := (rsplitOnce '/' key).elim key Prod.snd
  fenceSuffixes.any (endsWith filename) || isArtifact filename

/-- One page of the removed bucket: the survivors as they stand after it, the
samples, and whether these are as many as were asked for. -/
def checkPage (sampleCap : ℕ+) :
    List String → List PagedKeys → List String → Except String (Bool × List PagedKeys × List String)
  | [], survivors, samples => .ok (false, survivors, samples)
  | key :: page, survivors, samples =>
    if !isContent key then checkPage sampleCap page survivors samples
    else do
      let (present, survivors) ← anyContains limit survivors key
      if present then checkPage sampleCap page survivors samples
      else if (samples ++ [key]).length ≥ sampleCap then
        return (true, survivors, samples ++ [key])
      else checkPage sampleCap page survivors (samples ++ [key])

def checkFrom (removed : Bucket) (sampleCap : ℕ+) (after : Option String)
    (survivors : List PagedKeys) (samples : List String) : Except String (List String) :=
  match _listed : removed.listPage after limit with
  | .error error => .error error
  | .ok page =>
    if _some : page = [] then .ok samples
    else
      match checkPage limit sampleCap page survivors samples with
      | .error error => .error error
      | .ok (full, survivors, samples) =>
        if full || page.length < limit then .ok samples
        else checkFrom removed sampleCap page.getLast? survivors samples
termination_by (removed.packages.beyond after).length
decreasing_by
  obtain rfl := listPage_ok limit _listed
  exact removed.packages.beyond_page_lt _some

/-- Keys that only the removed bucket holds, up to a number of them. -/
def artifactsUniqueToRemoved (removed : Bucket) (survivors : List Bucket) (sampleCap : ℕ+) :
    Except String (List String) :=
  checkFrom limit removed sampleCap none (survivors.map PagedKeys.new) []

end Pypiron.Removal
