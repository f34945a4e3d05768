import Pypiron.Sidecar
import Pypiron.Text
import Pypiron.UniqueDecoding

/-! The audit fingerprint of a package: a hash over the listing of its truth and
view objects. Key, size and etag of a record follow each other with no length and
no separator between them, and a zero byte closes the record. -/
namespace Pypiron.Worker

structure ObjectMeta where
  key : String
  size : UInt64
  etag : String
  deriving DecidableEq, Repr

def renderVersion : UInt32 := 3

/-- What one listed object feeds to the hash. -/
def ObjectMeta.hashed (obj : ObjectMeta) : Bytes :=
  utf8 obj.key ++ leBytes 8 obj.size.toNat ++ utf8 obj.etag ++ [0]

/-- The salt, then the truth objects, then the views. -/
def hashed (truth views : List ObjectMeta) : Bytes :=
  leBytes 4 renderVersion.toNat ++ (truth ++ views).flatMap ObjectMeta.hashed

/-- The hasher keeps what it is fed; `digest` is the hex of the hash of it. -/
def fingerprint (digest : Bytes → String) (truth views : List ObjectMeta) : String :=
  digest (hashed truth views)

def packagesPrefix : String := "packages/"

def simplePrefix : String := "simple/"

/-- The listing of one directory: keys below it, free of NUL, with etags of eight
bytes or more and sizes that leave the top byte clear. -/
structure ObjectMeta.Listed (dir : String) (obj : ObjectMeta) : Prop where
  under : ∃ name, obj.key = dir ++ name
  key : 0 ∉ utf8 obj.key
  size : obj.size.toNat < 2 ^ 56
  etag : 0 ∉ utf8 obj.etag
  long : 8 ≤ obj.etag.utf8ByteSize

/-- Above the low seven bytes of a size that leaves the top one clear there is a
zero, which neither key nor etag holds. -/
theorem ObjectMeta.hashed_eq {dir : String} {obj : ObjectMeta} (listed : obj.Listed dir)
    (rest : Bytes) :
    obj.hashed ++ rest = utf8 obj.key ++
      (leBytes 7 obj.size.toNat ++ 0 :: (utf8 obj.etag ++ 0 :: rest)) := by
  have fits : obj.size.toNat < 256 ^ 7 := listed.size
  simp [ObjectMeta.hashed, leBytes_succ fits]

theorem ObjectMeta.hashed_delimiting :
    SelfDelimiting (fun obj : ObjectMeta => ∃ dir, obj.Listed dir) ObjectMeta.hashed := by
  rintro a b ⟨dirA, listedA⟩ ⟨dirB, listedB⟩ rest rest' same
  rw [a.hashed_eq listedA, b.hashed_eq listedB] at same
  have long : ∀ {dir : String} {obj : ObjectMeta}, obj.Listed dir →
      (leBytes 7 obj.size.toNat).length ≤ (utf8 obj.etag).length := by
    intro dir obj listed
    have := listed.long
    rw [utf8_length, leBytes_length]
    omega
  obtain ⟨keys, sizes, etags, rests⟩ := blockRecord_inj listedA.key listedB.key listedA.etag
    listedB.etag (by simp) (long listedA) (long listedB) same
  have key : a.key = b.key := utf8_inj.mp keys
  have size : a.size = b.size :=
    UInt64.toNat_inj.mp (leBytes_inj listedA.size listedB.size sizes)
  have etag : a.etag = b.etag := utf8_inj.mp etags
  cases a
  cases b
  simp only at key size etag
  subst key size etag
  exact ⟨rfl, rests⟩

theorem ObjectMeta.hashed_ne_nil (obj : ObjectMeta) : obj.hashed ≠ [] := by
  simp [ObjectMeta.hashed]

theorem ObjectMeta.Listed.head {dir : String} {obj : ObjectMeta} (listed : obj.Listed dir)
    (nonempty : dir ≠ "") : obj.key.toList.head? = dir.toList.head? := by
  obtain ⟨name, under⟩ := listed.under
  have : dir.toList ≠ [] := by simpa using nonempty
  rw [under, String.toList_append, List.head?_append_of_ne_nil _ this]

/-- Two listings of one package that feed the hash the same bytes are the same
listings: a fingerprint that did not change vouches for every key, size and etag. -/
theorem hashed_injective {pkg : String} {truth truth' views views' : List ObjectMeta}
    (inTruth : ∀ obj ∈ truth, obj.Listed (packagesPrefix ++ pkg ++ "/"))
    (inTruth' : ∀ obj ∈ truth', obj.Listed (packagesPrefix ++ pkg ++ "/"))
    (inViews : ∀ obj ∈ views, obj.Listed (simplePrefix ++ pkg ++ "/"))
    (inViews' : ∀ obj ∈ views', obj.Listed (simplePrefix ++ pkg ++ "/"))
    (same : hashed truth views = hashed truth' views') : truth = truth' ∧ views = views' := by
  have records : truth ++ views = truth' ++ views' := by
    apply ObjectMeta.hashed_delimiting.flatMap_inj ObjectMeta.hashed_ne_nil
    · intro obj member
      obtain member | member := List.mem_append.mp member
      · exact ⟨_, inTruth obj member⟩
      · exact ⟨_, inViews obj member⟩
    · intro obj member
      obtain member | member := List.mem_append.mp member
      · exact ⟨_, inTruth' obj member⟩
      · exact ⟨_, inViews' obj member⟩
    · exact List.append_cancel_left same
  have truthHead : ∀ {obj : ObjectMeta}, obj.Listed (packagesPrefix ++ pkg ++ "/") →
      obj.key.toList.head? = some 'p' := by
    intro obj listed
    rw [listed.head (by simp [packagesPrefix]), packagesPrefix]
    simp
  have viewHead : ∀ {obj : ObjectMeta}, obj.Listed (simplePrefix ++ pkg ++ "/") →
      ¬obj.key.toList.head? = some 'p' := by
    intro obj listed
    rw [listed.head (by simp [simplePrefix]), simplePrefix]
    simp
  exact append_kinds_inj (fun obj member => truthHead (inTruth obj member))
    (fun obj member => truthHead (inTruth' obj member))
    (fun obj member => viewHead (inViews obj member))
    (fun obj member => viewHead (inViews' obj member)) records

theorem hashed_injective_acme :
    hashed [⟨"packages/acme/a.whl", 256, "0123456789abcdef"⟩] [⟨"simple/acme/index.html", 7,
        "fedcba9876543210"⟩] =
      hashed [⟨"packages/acme/a.whl", 256, "0123456789abcdef"⟩] [⟨"simple/acme/index.html", 7,
        "fedcba9876543210"⟩] ∧
    [(⟨"packages/acme/a.whl", 256, "0123456789abcdef"⟩ : ObjectMeta)] =
      [⟨"packages/acme/a.whl", 256, "0123456789abcdef"⟩] := by
  have inTruth : ∀ obj ∈ [(⟨"packages/acme/a.whl", 256, "0123456789abcdef"⟩ : ObjectMeta)],
      obj.Listed (packagesPrefix ++ "acme" ++ "/") := by
    intro obj member
    obtain rfl := List.mem_singleton.mp member
    exact ⟨⟨"a.whl", by decide⟩, by decide, by decide, by decide, by decide⟩
  have inViews : ∀ obj ∈ [(⟨"simple/acme/index.html", 7, "fedcba9876543210"⟩ : ObjectMeta)],
      obj.Listed (simplePrefix ++ "acme" ++ "/") := by
    intro obj member
    obtain rfl := List.mem_singleton.mp member
    exact ⟨⟨"index.html", by decide⟩, by decide, by decide, by decide, by decide⟩
  exact ⟨rfl, (hashed_injective inTruth inTruth inViews inViews rfl).1⟩

end Pypiron.Worker
