import Pypiron.Replicate.Decide

/-! The sidecar merge as an order: any list of descriptions of the same bytes,
merged in any order, leaves one of them, and a private or a yanked one where the
rank says so. -/
namespace Pypiron
open RankedMerge

/-- A sidecar, and the origin its record carries. -/
abbrev Typed := Sidecar × Option Origin

def typedKey (x : Typed) : Nat ×ₗ Nat ×ₗ Bool ×ₗ Nat := sidecarKey x.1 x.2

def mergeTyped (encoding : Encoding) (x y : Typed) : MergeChoice :=
  sidecarMerge encoding x.1 x.2 y.1 y.2

/-- Merge a list of descriptions one after the other. -/
def foldSidecars (encoding : Encoding) (first : Typed) (rest : List Typed) : Typed :=
  rest.foldl (fun kept next => if mergeTyped encoding kept next = .b then next else kept) first

/-- A winner of a list: nothing of the list outranks it in origin, in yank epoch
at its origin, or in being yanked at its origin and epoch. -/
structure Wins (descriptions : List Typed) (winner : Typed) : Prop where
  member : winner ∈ descriptions
  origin : ∀ x ∈ descriptions, x.2 = some .priv → winner.2 = some .priv
  epoch : ∀ x ∈ descriptions, (x.2.getD .mirror).rank = (winner.2.getD .mirror).rank →
    x.1.yankEpoch ≤ winner.1.yankEpoch
  top : ∀ x ∈ descriptions, (x.2.getD .mirror).rank ≤ (winner.2.getD .mirror).rank
  yanked : ∀ x ∈ descriptions, (x.2.getD .mirror).rank = (winner.2.getD .mirror).rank →
    x.1.yankEpoch = winner.1.yankEpoch → isYanked x.1 = true → isYanked winner.1 = true

variable {encoding : Encoding}

theorem typedKey_le {x y : Typed} : typedKey x ≤ typedKey y ↔
    (x.2.getD .mirror).rank < (y.2.getD .mirror).rank ∨
      (x.2.getD .mirror).rank = (y.2.getD .mirror).rank ∧ (x.1.yankEpoch < y.1.yankEpoch ∨
        x.1.yankEpoch = y.1.yankEpoch ∧ (isYanked x.1 < isYanked y.1 ∨
          isYanked x.1 = isYanked y.1 ∧ x.1.uploadTimeRevision ≤ y.1.uploadTimeRevision)) := by
  simp only [typedKey, sidecarKey, Prod.Lex.toLex_le_toLex]

theorem priv_of_rank {origin : Option Origin} :
    (origin.getD .mirror).rank = Origin.rank .priv ↔ origin = some .priv := by
  cases origin with
  | none => decide
  | some origin => cases origin <;> decide

/-- Of a list whose keys it bounds, a member is a winner. -/
theorem wins_of_key_le {descriptions : List Typed} {winner : Typed} (member : winner ∈ descriptions)
    (bound : ∀ x ∈ descriptions, typedKey x ≤ typedKey winner) : Wins descriptions winner := by
  have ranks (x : Typed) (listed : x ∈ descriptions) := typedKey_le.mp (bound x listed)
  have top (x : Typed) (listed : x ∈ descriptions) :
      (x.2.getD .mirror).rank ≤ (winner.2.getD .mirror).rank := by
    have := ranks x listed
    omega
  constructor
  case member => exact member
  case origin =>
    intro x listed isPrivate
    have above := top x listed
    rw [isPrivate] at above
    apply priv_of_rank.mp
    cases at_winner : winner.2.getD .mirror with
    | priv => rfl
    | mirror =>
        rw [at_winner] at above
        exact absurd above (by decide)
  case epoch =>
    intro x listed sameOrigin
    have := ranks x listed
    omega
  case top => exact top
  case yanked =>
    intro x listed sameOrigin sameEpoch yanked
    cases ranks x listed with
    | inl below => omega
    | inr rest =>
        cases rest.2 with
        | inl below => omega
        | inr rest =>
            cases rest.2 with
            | inl below =>
                rw [yanked] at below
                exact absurd below (not_lt_of_ge le_top)
            | inr same => rw [← same.1, yanked]

def typedBytes (encoding : Encoding) (x : Typed) : Bytes := encoding.toVec x.1

theorem foldSidecars_eq (first : Typed) (rest : List Typed) : foldSidecars encoding first rest =
    winner encoding.sha256 typedKey (typedBytes encoding) first rest := rfl

/-- The merge is a total preorder whose ties are identical, and merging a list in
any order leaves the same winner. -/
theorem sidecarMerge_total_preorder
    (collisionFree : ∀ sc sc', encoding.sha256 (encoding.toVec sc) = encoding.sha256 (encoding.toVec sc') →
      encoding.toVec sc = encoding.toVec sc') :
    (∀ x, mergeTyped encoding x x = .equal) ∧
    (∀ x y, mergeTyped encoding y x = (mergeTyped encoding x y).mirrored) ∧
    (∀ x y z, mergeTyped encoding x y ≠ .b → mergeTyped encoding y z ≠ .b →
      mergeTyped encoding x z ≠ .b) ∧
    (∀ x y, mergeTyped encoding x y = .equal ↔
      typedKey x = typedKey y ∧ encoding.toVec x.1 = encoding.toVec y.1) ∧
    (∀ first rest, Wins (first :: rest) (foldSidecars encoding first rest)) ∧
    (∀ first rest first' rest', (first :: rest).Perm (first' :: rest') →
      mergeTyped encoding (foldSidecars encoding first rest) (foldSidecars encoding first' rest') =
        .equal) := by
  refine ⟨fun x => ?_, fun x y => ?_, fun x y z first second => ?_, fun x y => ?_,
    fun first rest => ?_, fun first rest first' rest' same => ?_⟩
  · exact merge_self encoding.sha256 typedKey (typedBytes encoding) x
  · exact merge_swap encoding.sha256 typedKey (typedBytes encoding) (collisionFree x.1 y.1)
  · exact merge_trans encoding.sha256 typedKey (typedBytes encoding) first second
  · exact rankedMerge_eq_equal
  · rw [foldSidecars_eq]
    apply wins_of_key_le (winner_mem first rest)
    intro x listed
    exact key_le_of_place_le (place_le_winner listed)
  · rw [foldSidecars_eq, foldSidecars_eq]
    obtain ⟨keys, digests⟩ := rank_eq.mp (place_winner_perm encoding.sha256 typedKey (typedBytes encoding) same)
    exact rankedMerge_eq_equal.mpr ⟨keys, collisionFree _ _ digests⟩

/-- Every sidecar in its stored form, under a digest that writes the bytes out. -/
def spelled : Encoding where
  sha256 bytes := String.ofList (bytes.map fun byte => Char.ofNat byte.toNat)
  toVec sc := sc.json.toUTF8.data.toList

theorem spelled_injective : Function.Injective spelled.sha256 := by
  intro left right same
  have chars := String.ofList_injective same
  refine List.map_injective_iff.mpr ?_ chars
  intro byte byte' equal
  have numbers := congrArg Char.toNat equal
  have small (b : UInt8) : (Char.ofNat b.toNat).toNat = b.toNat := by
    have bound := b.toNat_lt
    have valid : b.toNat.isValidChar := Or.inl (by omega)
    unfold Char.ofNat
    rw [dif_pos valid]
    rfl
  rw [small, small] at numbers
  exact UInt8.toNat_inj.mp numbers

def described (yankEpoch : Nat) (yanked : Yanked) (revision : Nat) : Sidecar :=
  ⟨"00", 4, "1.0", "2024-01-01T00:00:00Z", none, none, yanked, none, yankEpoch, revision, false, none⟩

/-- A yank on one bucket against a repaired upload time on another and a newer mirror. -/
theorem yank_survives :
    (foldSidecars spelled (described 1 (.flag false) 7, some .priv)
      [(described 1 (.reason "bad") 0, some .priv), (described 5 (.flag false) 9, some .mirror)]).1.yanked =
      .reason "bad" := by
  have wins := (sidecarMerge_total_preorder fun _ _ same => spelled_injective same).2.2.2.2.1
    (described 1 (.flag false) 7, some .priv)
    [(described 1 (.reason "bad") 0, some .priv), (described 5 (.flag false) 9, some .mirror)]
  have member := wins.member
  have origin := wins.origin _ (List.mem_cons_of_mem _ List.mem_cons_self) rfl
  have yanked := wins.yanked _ (List.mem_cons_of_mem _ List.mem_cons_self)
  generalize foldSidecars spelled _ _ = winner at member origin yanked
  simp only [List.mem_cons, List.not_mem_nil, or_false] at member
  obtain rfl | rfl | rfl := member
  · cases yanked rfl rfl (by decide)
  · rfl
  · cases origin

end Pypiron
