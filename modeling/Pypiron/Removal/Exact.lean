import Pypiron.Removal

/-! The merge finds exactly what no survivor holds: each survivor's stream stays
behind every key that is still to be asked for. -/
namespace Pypiron.Removal
open PagedListing

def Bucket.Readable (bucket : Bucket) : Prop := ∀ after, bucket.failure after = none

/-- What holds of a result; an error is met only where something cannot be read. -/
def Settles {α : Type} (readable : Prop) (result : Except String α) (post : α → Prop) : Prop :=
  match result with
  | .ok value => post value
  | .error _ => ¬ readable

theorem Settles.bind {α β : Type} {readable : Prop} {result : Except String α}
    {next : α → Except String β} {post : α → Prop} {final : β → Prop}
    (settles : Settles readable result post)
    (continues : ∀ value, post value → Settles readable (next value) final) :
    Settles readable (result >>= next) final := by
  cases result with
  | ok value => exact continues value settles
  | error error => exact settles

variable (limit : ℕ+) {readable : Prop}

theorem fill_settles {keys : PagedKeys} (reads : readable → keys.bucket.Readable) :
    Settles readable (keys.fill limit) fun filled => keys.fill limit = .ok filled := by
  cases result : keys.fill limit with
  | ok filled => rfl
  | error error =>
    intro holds
    have answers := reads holds keys.after
    unfold PagedKeys.fill at result
    split at result
    · simp [Bucket.listPage, answers] at result
    · contradiction

/-- A survivor's stream has passed only keys below the target. -/
def Behind (target : String) (keys : PagedKeys) (bucket : Bucket) : Prop :=
  keys.bucket = bucket ∧ ∃ passed, bucket.packages.keys = passed ++ keys.remaining ∧
    ∀ key ∈ passed, key < target

theorem Behind.mono {target later : String} {keys : PagedKeys} {bucket : Bucket}
    (behind : Behind target keys bucket) (up : target ≤ later) : Behind later keys bucket := by
  obtain ⟨same, passed, split, below⟩ := behind
  exact ⟨same, passed, split, fun key member => (below key member).trans_le up⟩

theorem behind_new (target : String) (bucket : Bucket) :
    Behind target (PagedKeys.new bucket) bucket := by
  refine ⟨rfl, [], ?_, by simp⟩
  simp [PagedKeys.remaining, PagedKeys.new]

theorem Behind.fill {target : String} {keys filled : PagedKeys} {bucket : Bucket}
    (behind : Behind target keys bucket) (ok : keys.fill limit = .ok filled) :
    Behind target filled bucket := by
  obtain ⟨same, passed, split, below⟩ := behind
  obtain ⟨sameBucket, sameRemaining⟩ := fill_remaining limit ok
  exact ⟨sameBucket.trans same, passed, by rw [split, sameRemaining], below⟩

/-- With nothing left below the target, the bucket holds it when it comes next. -/
theorem Behind.holds_iff {target front : String} {rest : List String} {keys : PagedKeys}
    {bucket : Bucket} (behind : Behind target keys bucket) (buffered : keys.buf = front :: rest)
    (reached : ¬ front < target) : target ∈ bucket.packages.keys ↔ front = target := by
  obtain ⟨same, passed, split, below⟩ := behind
  have ascending := bucket.packages.ascending
  rw [split] at ascending ⊢
  simp only [PagedKeys.remaining, buffered, List.cons_append] at ascending ⊢
  obtain ⟨-, ahead, -⟩ := List.pairwise_append.mp ascending
  constructor
  · intro member
    rcases List.mem_append.mp member with member | member
    · exact absurd (below target member) (lt_irrefl target)
    · rcases List.mem_cons.mp member with same | member
      · exact same.symm
      · exact absurd ((List.pairwise_cons.mp ahead).1 target member) reached
  · rintro rfl
    simp

theorem Behind.pop {target front : String} {rest : List String} {keys : PagedKeys}
    {bucket : Bucket} (behind : Behind target keys bucket) (buffered : keys.buf = front :: rest)
    (below : front < target) : Behind target { keys with buf := rest } bucket := by
  obtain ⟨same, passed, split, under⟩ := behind
  refine ⟨same, passed ++ [front], by simp [split, PagedKeys.remaining, buffered], ?_⟩
  intro key member
  rcases List.mem_append.mp member with member | member
  · exact under key member
  · exact List.mem_singleton.mp member ▸ below

theorem contains_settles {target : String} {keys : PagedKeys} {bucket : Bucket}
    (behind : Behind target keys bucket) (reads : readable → bucket.Readable) :
    Settles readable (keys.contains limit target) fun answer =>
      (answer.1 = true ↔ target ∈ bucket.packages.keys) ∧ Behind target answer.2 bucket := by
  fun_induction PagedKeys.contains limit keys target with
  | case1 keys error filled =>
    have settles : Settles readable (keys.fill limit) _ :=
      fill_settles limit (behind.1 ▸ reads)
    rw [filled] at settles
    exact settles
  | case2 keys keys' filled buffered =>
    have behind := behind.fill limit filled
    refine ⟨?_, behind⟩
    obtain ⟨-, passed, split, below⟩ := behind
    rw [fill_empty limit filled buffered, List.append_nil] at split
    simp only [Bool.false_eq_true, false_iff, split]
    exact fun member => lt_irrefl target (below target member)
  | case3 keys keys' filled front rest buffered below ih =>
    exact ih ((behind.fill limit filled).pop buffered below)
  | case4 keys keys' filled front rest buffered reached =>
    have behind := behind.fill limit filled
    exact ⟨by simp [behind.holds_iff buffered reached], behind⟩

def present (survivors : List Bucket) (key : String) : Bool :=
  survivors.any fun survivor => survivor.packages.keys.contains key

theorem anyContains_settles {target : String} {cursors : List PagedKeys} {survivors : List Bucket}
    (behind : List.Forall₂ (Behind target) cursors survivors)
    (reads : readable → ∀ survivor ∈ survivors, survivor.Readable) :
    Settles readable (anyContains limit cursors target) fun answer =>
      answer.1 = present survivors target ∧
        List.Forall₂ (Behind target) answer.2 survivors := by
  induction behind with
  | nil => exact ⟨rfl, .nil⟩
  | @cons keys survivor cursors survivors first behind ih =>
    have own := contains_settles limit first fun holds => reads holds survivor List.mem_cons_self
    refine own.bind fun (found, keys) ⟨exact', first⟩ => ?_
    cases found with
    | true =>
      refine ⟨?_, .cons first behind⟩
      simp [present, exact'.mp rfl]
    | false =>
      have others := ih fun holds bucket member => reads holds bucket (List.mem_cons_of_mem _ member)
      refine others.bind fun (found, others) ⟨rest, behind⟩ => ⟨?_, .cons first behind⟩
      have absent : target ∉ survivor.packages.keys := fun member => by simpa using exact'.mpr member
      simpa [present, absent] using rest

/-- Content of a run of keys that no survivor holds. -/
def missing (survivors : List Bucket) (keys : List String) : List String :=
  (keys.filter isContent).filter fun key => !present survivors key

theorem missing_append (survivors : List Bucket) (page later : List String) :
    missing survivors (page ++ later) = missing survivors page ++ missing survivors later := by
  simp [missing]

theorem missing_cons (survivors : List Bucket) (key : String) (page : List String) :
    missing survivors (key :: page) =
      (if isContent key && !present survivors key then [key] else []) ++
        missing survivors page := by
  by_cases content : isContent key <;> by_cases held : present survivors key <;>
    simp [missing, content, held]

/-- Every survivor's stream is behind each key of a run. -/
def AllBehind (keys : List String) (cursors : List PagedKeys) (survivors : List Bucket) : Prop :=
  ∀ key ∈ keys, List.Forall₂ (Behind key) cursors survivors

theorem AllBehind.tail {key : String} {keys : List String} {cursors : List PagedKeys}
    {survivors : List Bucket} (behind : AllBehind (key :: keys) cursors survivors) :
    AllBehind keys cursors survivors :=
  fun later member => behind later (List.mem_cons_of_mem key member)

theorem allBehind_of_least {key : String} {keys : List String} {cursors : List PagedKeys}
    {survivors : List Bucket} (ascending : (key :: keys).Pairwise (· < ·))
    (behind : List.Forall₂ (Behind key) cursors survivors) :
    AllBehind keys cursors survivors := by
  intro later member
  have up := ((List.pairwise_cons.mp ascending).1 later member).le
  exact behind.imp fun _ _ first => first.mono up

variable {sampleCap : ℕ+} {survivors : List Bucket}

theorem checkPage_settles {page later : List String} {cursors : List PagedKeys}
    {samples : List String} (ascending : (page ++ later).Pairwise (· < ·))
    (behind : AllBehind (page ++ later) cursors survivors) (room : samples.length < sampleCap)
    (reads : readable → ∀ survivor ∈ survivors, survivor.Readable) :
    Settles readable (checkPage limit sampleCap page cursors samples) fun answer =>
      (answer.1 = true ↔ sampleCap ≤ (samples ++ missing survivors page).length) ∧
      answer.2.2 = (samples ++ missing survivors page).take sampleCap ∧
      AllBehind later answer.2.1 survivors := by
  induction page generalizing cursors samples with
  | nil =>
    refine ⟨?_, ?_, behind⟩
    · simpa [missing] using room
    · simp [missing, List.take_of_length_le room.le]
  | cons key page ih =>
    have rest : (page ++ later).Pairwise (· < ·) := (List.pairwise_cons.mp ascending).2
    unfold checkPage
    rw [missing_cons]
    cases content : isContent key with
    | false => simpa using ih rest behind.tail room
    | true =>
      simp only [Bool.not_true, Bool.false_eq_true, if_false, Bool.true_and]
      have asked := anyContains_settles limit (behind key List.mem_cons_self) reads
      refine asked.bind fun (found, cursors) ⟨same, first⟩ => ?_
      have behind := allBehind_of_least ascending first
      cases found with
      | true => simpa [← same] using ih rest behind room
      | false =>
        simp only [← same, Bool.not_false, Bool.false_eq_true, if_false, if_true,
          ← List.append_assoc]
        split
        · rename_i full
          have exactly : (samples ++ [key]).length = sampleCap := by
            simp only [List.length_append, List.length_singleton] at full ⊢
            omega
          refine ⟨?_, ?_, fun later' member => behind later' (List.mem_append_right page member)⟩
          · simp [← exactly]
          · exact (List.take_left' exactly).symm
        · rename_i short
          exact ih rest behind (not_le.mp short)

/-- What a page leaves to be read. -/
def leftover (removed : Bucket) (page : List String) : List String :=
  removed.packages.unread page.getLast? (Decidable.decide (page.length < limit))

theorem beyond_eq_page {removed : Bucket} {after : Option String} {page : List String}
    (listed : removed.listPage after limit = .ok page) :
    removed.packages.beyond after = page ++ leftover limit removed page := by
  obtain rfl := listPage_ok limit listed
  exact removed.packages.unread_page after limit

theorem checkListed_settles {removed : Bucket} {after : Option String} {page : List String}
    {cursors : List PagedKeys} {samples : List String}
    (listed : removed.listPage after limit = .ok page)
    (behind : AllBehind (removed.packages.beyond after) cursors survivors)
    (room : samples.length < sampleCap)
    (reads : readable → ∀ bucket ∈ removed :: survivors, bucket.Readable) :
    Settles readable (checkPage limit sampleCap page cursors samples) fun answer =>
      (answer.1 = true ↔ sampleCap ≤ (samples ++ missing survivors page).length) ∧
      answer.2.2 = (samples ++ missing survivors page).take sampleCap ∧
      AllBehind (leftover limit removed page) answer.2.1 survivors := by
  have ascending : (removed.packages.beyond after).Pairwise (· < ·) :=
    removed.packages.ascending.filter _
  rw [beyond_eq_page limit listed] at ascending behind
  exact checkPage_settles limit ascending behind room fun holds survivor member =>
    reads holds survivor (List.mem_cons_of_mem removed member)

theorem checkFrom_settles {removed : Bucket} {after : Option String} {cursors : List PagedKeys}
    {samples : List String} (behind : AllBehind (removed.packages.beyond after) cursors survivors)
    (room : samples.length < sampleCap)
    (reads : readable → ∀ bucket ∈ removed :: survivors, bucket.Readable) :
    Settles readable (checkFrom limit removed sampleCap after cursors samples) fun answer =>
      answer = (samples ++ missing survivors (removed.packages.beyond after)).take sampleCap := by
  fun_induction checkFrom limit removed sampleCap after cursors samples with
  | case1 after cursors samples error listed =>
    intro holds
    have answers := reads holds removed List.mem_cons_self after
    simp [Bucket.listPage, answers] at listed
  | case2 after cursors samples listed =>
    have none := removed.packages.page_eq_nil.mp (listPage_ok limit listed).symm
    rw [none]
    simp [Settles, missing, List.take_of_length_le room.le]
  | case3 after cursors samples page listed some error checked =>
    have settles := checkListed_settles limit listed behind room reads
    rw [checked] at settles
    exact settles
  | case4 after cursors samples page listed some full cursors' samples' checked stops =>
    have settles := checkListed_settles limit listed behind room reads
    rw [checked] at settles
    obtain ⟨filled, same, -⟩ := settles
    rw [beyond_eq_page limit listed, missing_append, ← List.append_assoc]
    rcases (Bool.or_eq_true _ _).mp stops with full | short
    · exact same.trans (List.take_append_of_le_length (filled.mp full)).symm
    · have none : leftover limit removed page = [] := by simp [leftover, short]
      simpa [none, missing, Settles] using same
  | case5 after cursors samples page listed some full cursors' samples' checked continues ih =>
    have settles := checkListed_settles limit listed behind room reads
    rw [checked] at settles
    obtain ⟨filled, same, behind⟩ := settles
    simp only [Bool.or_eq_true, decide_eq_true_eq, not_or, Bool.not_eq_true] at continues
    have rest : leftover limit removed page = removed.packages.beyond page.getLast? := by
      simp [leftover, Listing.unread, continues.2]
    have short : (samples ++ missing survivors page).length < sampleCap := by
      rw [← not_le, ← filled, continues.1]
      simp
    have whole : samples' = samples ++ missing survivors page :=
      same.trans (List.take_of_length_le short.le)
    rw [rest] at behind
    rw [beyond_eq_page limit listed, missing_append, ← List.append_assoc, rest, ← whole]
    exact ih behind (whole ▸ short)

theorem missing_eq_nil (keys : List String) : missing survivors keys = [] ↔
    ∀ key ∈ keys, isContent key = true →
      ∃ survivor ∈ survivors, key ∈ survivor.packages.keys := by
  simp only [missing, List.filter_eq_nil_iff, List.mem_filter]
  simp [present]

theorem artifactsUniqueToRemoved_settles (removed : Bucket)
    (reads : readable → ∀ bucket ∈ removed :: survivors, bucket.Readable) :
    Settles readable (artifactsUniqueToRemoved limit removed survivors sampleCap) fun answer =>
      answer = (missing survivors removed.packages.keys).take sampleCap := by
  have behind : AllBehind (removed.packages.beyond none) (survivors.map PagedKeys.new)
      survivors := by
    intro key _
    rw [List.forall₂_map_left_iff]
    exact List.forall₂_same.mpr fun survivor _ => behind_new key survivor
  have room : ([] : List String).length < sampleCap := sampleCap.pos
  simpa [artifactsUniqueToRemoved] using checkFrom_settles limit behind room reads

/-- Whatever cannot be read, an answer that is given is right. -/
theorem samples_of_ok {removed : Bucket} {samples : List String}
    (ok : artifactsUniqueToRemoved limit removed survivors sampleCap = .ok samples) :
    samples = (missing survivors removed.packages.keys).take sampleCap := by
  have settles :
      Settles False (artifactsUniqueToRemoved limit removed survivors sampleCap) _ :=
    artifactsUniqueToRemoved_settles limit removed False.elim
  rwa [ok] at settles

/-- The first keys, in order, among the removed bucket's content that no survivor holds. -/
theorem artifactsUniqueToRemoved_exact (removed : Bucket) (survivors : List Bucket)
    (sampleCap : ℕ+) (readable : ∀ bucket ∈ removed :: survivors, bucket.Readable) :
    ∃ samples, artifactsUniqueToRemoved limit removed survivors sampleCap = .ok samples ∧
      samples = (missing survivors removed.packages.keys).take sampleCap ∧
      (samples = [] ↔ ∀ key ∈ removed.packages.keys, isContent key = true →
        ∃ survivor ∈ survivors, key ∈ survivor.packages.keys) := by
  have settles : Settles True (artifactsUniqueToRemoved limit removed survivors sampleCap) _ :=
    artifactsUniqueToRemoved_settles limit removed fun _ => readable
  cases result : artifactsUniqueToRemoved limit removed survivors sampleCap with
  | error error =>
    rw [result] at settles
    exact absurd trivial settles
  | ok samples =>
    have exactly := samples_of_ok limit result
    refine ⟨samples, rfl, exactly, ?_⟩
    rw [exactly, List.take_eq_nil_iff, ← missing_eq_nil]
    simp

/-- A release and the tombstone of another, of which only the release is replicated. -/
def drained : Bucket where
  listing := ⟨["packages/a/a-1.whl", "packages/b/b-1.whl.tombstone"], by decide⟩
  failure := fun _ => none

def survivor : Bucket where
  listing := ⟨["packages/a/a-1.whl"], by decide⟩
  failure := fun _ => none

/-- The sample is the tombstone, which no survivor holds. -/
theorem drained_tombstone :
    artifactsUniqueToRemoved 1 drained [survivor] 3 = .ok ["packages/b/b-1.whl.tombstone"] := by
  have readable : ∀ bucket ∈ [drained, survivor], bucket.Readable := by
    intro bucket member
    simp only [List.mem_cons, List.not_mem_nil, or_false] at member
    obtain rfl | rfl := member <;> exact fun _ => rfl
  obtain ⟨samples, answers, same, _⟩ := artifactsUniqueToRemoved_exact 1 drained [survivor] 3 readable
  have unique : (missing [survivor] drained.packages.keys).take (3 : ℕ+) =
      ["packages/b/b-1.whl.tombstone"] := by decide +kernel
  rw [answers, same, unique]

end Pypiron.Removal
