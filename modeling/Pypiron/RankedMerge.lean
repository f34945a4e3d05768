import Mathlib.Data.Prod.Lex
import Mathlib.Data.Set.Function
import Mathlib.Logic.Function.Basic
import Mathlib.Order.Bounds.Basic

/-! Two-way merges that pick a winner by key and break ties by a digest of the
encoded bytes, over arbitrary documents. The choice is comparison in one linear
order wherever the digest separates the encodings. Replacing a replica by one
that ranks no lower keeps the upper bounds of what the replicas hold, which is
what makes the outcome of a run independent of its schedule. -/
namespace RankedMerge

inductive MergeChoice where
  | a
  | b
  | equal
  deriving DecidableEq, Repr

section Rank
variable {K B D : Type*} (digest : B → D) {ka kb : K} {a b : B}

/-- A document's place in the order the merge compares by. -/
def rank (key : K) (bytes : B) : K ×ₗ Dᵒᵈ := toLex (key, OrderDual.toDual (digest bytes))

variable {digest}

theorem rank_lt [LinearOrder K] [LinearOrder D] : rank digest kb b < rank digest ka a ↔
    kb < ka ∨ kb = ka ∧ digest a < digest b := by
  simp only [rank, Prod.Lex.toLex_lt_toLex, OrderDual.toDual_lt_toDual]

theorem rank_eq : rank digest ka a = rank digest kb b ↔ ka = kb ∧ digest a = digest b := by
  simp only [rank, EmbeddingLike.apply_eq_iff_eq, Prod.mk.injEq]

end Rank

section Choice
variable {K B D : Type*} [LinearOrder K] [DecidableEq B] [LinearOrder D] (digest : B → D)

/-- The greater key wins; an equal key over identical bytes is already
converged; an equal key over different bytes goes to the smaller digest. -/
def rankedMerge (ka : K) (a : B) (kb : K) (b : B) : MergeChoice :=
  if kb < ka then .a
  else if ka < kb then .b
  else if a = b then .equal
  else if digest a ≤ digest b then .a
  else .b

variable {digest} {ka kb : K} {a b : B}

theorem rankedMerge_eq_a (separated : digest a = digest b → a = b) :
    rankedMerge digest ka a kb b = .a ↔ rank digest kb b < rank digest ka a := by
  rw [rank_lt]
  unfold rankedMerge
  rcases lt_trichotomy ka kb with less | same | greater
  · simp [less, not_lt_of_gt less, ne_of_gt less]
  · subst same
    by_cases equal : a = b
    · simp [equal]
    · have apart : digest a ≠ digest b := fun h => equal (separated h)
      by_cases below : digest a ≤ digest b
      · simp [equal, below, lt_of_le_of_ne below apart]
      · simp [equal, below, (not_le.mp below).le]
  · simp [greater]

theorem rankedMerge_eq_b :
    rankedMerge digest ka a kb b = .b ↔ rank digest ka a < rank digest kb b := by
  rw [rank_lt]
  unfold rankedMerge
  rcases lt_trichotomy ka kb with less | same | greater
  · simp [less, not_lt_of_gt less]
  · subst same
    by_cases equal : a = b
    · simp [equal]
    · by_cases below : digest a ≤ digest b
      · simp [equal, below]
      · simp [equal, below, not_le.mp below]
  · simp [greater, not_lt_of_gt greater, ne_of_gt greater]

theorem rankedMerge_eq_equal : rankedMerge digest ka a kb b = .equal ↔ ka = kb ∧ a = b := by
  unfold rankedMerge
  rcases lt_trichotomy ka kb with less | same | greater
  · simp [less, not_lt_of_gt less, ne_of_lt less]
  · subst same
    by_cases equal : a = b
    · simp [equal]
    · by_cases below : digest a ≤ digest b <;> simp [equal, below]
  · simp [greater, ne_of_gt greater]

/-- A winner ranks no lower, whether or not the digest separates the two. -/
theorem rank_le_of_eq_a (wins : rankedMerge digest ka a kb b = .a) :
    rank digest kb b ≤ rank digest ka a := by
  apply not_lt.mp
  intro loses
  rw [rankedMerge_eq_b.mpr loses] at wins
  contradiction

end Choice

/-- The same outcome with the sides swapped. -/
def MergeChoice.mirrored : MergeChoice → MergeChoice
  | .a => .b
  | .b => .a
  | .equal => .equal

section Documents
variable {α K B D : Type*} [LinearOrder K] [DecidableEq B] [LinearOrder D] (digest : B → D)
  (key : α → K) (bytes : α → B)

def merge (x y : α) : MergeChoice := rankedMerge digest (key x) (bytes x) (key y) (bytes y)

def place (x : α) : K ×ₗ Dᵒᵈ := rank digest (key x) (bytes x)

/-- What two documents leave. -/
def keep (x y : α) : α := if merge digest key bytes x y = .b then y else x

/-- What is left of a list of documents, merged one after the other. -/
def winner (first : α) (rest : List α) : α := rest.foldl (keep digest key bytes) first

variable {digest key bytes} {x y z : α}

theorem merge_eq_b : merge digest key bytes x y = .b ↔
    place digest key bytes x < place digest key bytes y := rankedMerge_eq_b

variable (digest key bytes) in
theorem merge_self (x : α) : merge digest key bytes x x = .equal :=
  rankedMerge_eq_equal.mpr ⟨rfl, rfl⟩

variable (digest key bytes) in
theorem merge_trans (first : merge digest key bytes x y ≠ .b)
    (second : merge digest key bytes y z ≠ .b) : merge digest key bytes x z ≠ .b := by
  rw [Ne, merge_eq_b, not_lt] at first second ⊢
  exact second.trans first

variable (digest key bytes) in
theorem merge_swap (separated : digest (bytes x) = digest (bytes y) → bytes x = bytes y) :
    merge digest key bytes y x = (merge digest key bytes x y).mirrored := by
  cases chosen : merge digest key bytes x y with
  | a => exact rankedMerge_eq_b.mpr ((rankedMerge_eq_a separated).mp chosen)
  | b =>
      exact (rankedMerge_eq_a fun same => (separated same.symm).symm).mpr (rankedMerge_eq_b.mp chosen)
  | equal =>
      obtain ⟨keys, same⟩ := rankedMerge_eq_equal.mp chosen
      exact rankedMerge_eq_equal.mpr ⟨keys.symm, same.symm⟩

theorem place_keep : place digest key bytes (keep digest key bytes x y) =
    max (place digest key bytes x) (place digest key bytes y) := by
  unfold keep
  split
  next loses => exact (max_eq_right (merge_eq_b.mp loses).le).symm
  next holds => exact (max_eq_left (not_lt.mp fun below => holds (merge_eq_b.mpr below))).symm

theorem winner_mem (first : α) (rest : List α) :
    winner digest key bytes first rest ∈ first :: rest := by
  unfold winner
  induction rest generalizing first with
  | nil => exact List.mem_singleton_self first
  | cons next rest hypothesis =>
      rw [List.foldl_cons]
      cases List.mem_cons.mp (hypothesis (keep digest key bytes first next)) with
      | inl here =>
          rw [here]
          unfold keep
          split
          next => exact List.mem_cons_of_mem first List.mem_cons_self
          next => exact List.mem_cons_self
      | inr later => exact List.mem_cons_of_mem first (List.mem_cons_of_mem next later)

variable (digest key bytes) in
theorem place_first_le (first : α) (rest : List α) :
    place digest key bytes first ≤ place digest key bytes (winner digest key bytes first rest) := by
  unfold winner
  induction rest generalizing first with
  | nil => exact le_rfl
  | cons next rest hypothesis =>
      rw [List.foldl_cons]
      have kept := hypothesis (keep digest key bytes first next)
      rw [place_keep] at kept
      exact (le_max_left _ _).trans kept

/-- The winner ranks no lower than any document of the list. -/
theorem place_le_winner {first : α} {rest : List α} (member : x ∈ first :: rest) :
    place digest key bytes x ≤ place digest key bytes (winner digest key bytes first rest) := by
  induction rest generalizing first with
  | nil =>
      rw [List.mem_singleton.mp member]
      exact place_first_le digest key bytes first []
  | cons next rest hypothesis =>
      have kept := place_first_le digest key bytes (keep digest key bytes first next) rest
      rw [place_keep] at kept
      cases member with
      | head => exact (le_max_left _ _).trans kept
      | tail _ member =>
          cases member with
          | head => exact (le_max_right _ _).trans kept
          | tail _ later => exact hypothesis (List.mem_cons_of_mem _ later)

variable (digest key bytes) in
/-- The order of the list does not matter to where its winner ranks. -/
theorem place_winner_perm {first first' : α} {rest rest' : List α}
    (same : (first :: rest).Perm (first' :: rest')) :
    place digest key bytes (winner digest key bytes first rest) =
      place digest key bytes (winner digest key bytes first' rest') := by
  apply le_antisymm
  · exact place_le_winner (same.mem_iff.mp (winner_mem first rest))
  · exact place_le_winner (same.mem_iff.mpr (winner_mem first' rest'))

omit [DecidableEq B] in
theorem key_le_of_place_le (below : place digest key bytes x ≤ place digest key bytes y) :
    key x ≤ key y := by
  cases Prod.Lex.toLex_le_toLex.mp below with
  | inl less => exact less.le
  | inr same => exact same.1.le

end Documents

section Replicas
variable {ι α L : Type*} [DecidableEq ι] [Preorder L] (rank : α → L)

/-- The ranks of the documents that some replica stores. -/
def storedRanks (fleet : ι → Option α) : Set L :=
  {r | ∃ i document, fleet i = some document ∧ rank document = r}

variable {rank} {fleet : ι → Option α} {i j : ι} {winner : α}

/-- Copying a stored document over a replica that holds nothing above it changes
no upper bound: whatever it overwrites stays bounded by the copy's source. -/
theorem upperBounds_storedRanks_update (source : fleet i = some winner)
    (raises : ∀ loser, fleet j = some loser → rank loser ≤ rank winner) :
    upperBounds (storedRanks rank (Function.update fleet j (some winner))) =
      upperBounds (storedRanks rank fleet) := by
  ext bound
  constructor
  · rintro bounded r ⟨k, document, stored, rfl⟩
    have top : rank winner ≤ bound := bounded ⟨j, winner, by simp, rfl⟩
    by_cases here : k = j
    · subst here
      exact (raises document stored).trans top
    · exact bounded ⟨k, document, by simpa [here] using stored, rfl⟩
  · rintro bounded r ⟨k, document, stored, rfl⟩
    by_cases here : k = j
    · subst here
      obtain rfl : winner = document := by simpa using stored
      exact bounded ⟨i, winner, source, rfl⟩
    · exact bounded ⟨k, document, by simpa [here] using stored, rfl⟩

end Replicas
end RankedMerge
