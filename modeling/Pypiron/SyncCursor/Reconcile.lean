import Pypiron.SyncCursor

/-! What a stored cursor stands for: until a run reads another listing, a file or
the status is as the listing of the stored tag asks for exactly where it was so
before the run that stored it, or where that run's index showed that it was not. -/
namespace Pypiron.SyncCursor
open KeyedMap Quarantine

/-! ### What a listing asks for -/

/-- A stored file carries the yank that the listing asks for. -/
def Listing.Flagged (listing : Listing) (dest : Dest) (filename : String) : Prop :=
  ∀ yanked, dest.files.lookup filename = some yanked → yanked = listing.desired filename

/-- The stored status is the one the listing asks for, if it asks for one. -/
def Listing.Relayed (listing : Listing) (dest : Dest) : Prop :=
  ∀ wanted, listing.status.desired = some wanted → dest.status = wanted

def LocalAnswer.shown : LocalAnswer → Option LocalIndex
  | found index => some index
  | _ => none

/-- The index shows a file that is not as the listing asks, and the listing names files
to compare with. -/
def Drifted (listing : Listing) (shown : Option LocalIndex) (filename : String) : Prop :=
  ∃ index, shown = some index ∧ listing.status.blocks = false ∧
    ∃ yanked, (filename, yanked) ∈ index.files ∧ yanked ≠ listing.desired filename

/-- The index shows another status than the one to relay. -/
def Stale (listing : Listing) (shown : Option LocalIndex) : Prop :=
  ∃ index, shown = some index ∧
    ∀ wanted, listing.status.desired = some wanted → index.projectStatus.getD default ≠ wanted

/-! ### Each call moves toward the listing -/

/-- Every file is as it was or as the listing asks for, and no file is lost. -/
def Toward (listing : Listing) (before after : Dest) : Prop :=
  ∀ filename, after.files.lookup filename = before.files.lookup filename ∨
    after.files.lookup filename = some (listing.desired filename)

section
variable {listing : Listing} {dest mid after : Dest}

theorem Toward.rfl : Toward listing dest dest := fun _ => .inl (Eq.refl _)

theorem Toward.trans (first : Toward listing dest mid) (second : Toward listing mid after) :
    Toward listing dest after := by
  intro filename
  cases second filename with
  | inl same =>
      rw [same]
      exact first filename
  | inr asked => exact .inr asked

theorem Toward.insert (filename : String) : Toward listing dest
    { dest with files := dest.files.insert filename (listing.desired filename) } := by
  intro other
  dsimp only
  rw [lookup_insert_eq]
  split
  next same =>
    rw [same]
    exact .inr (Eq.refl _)
  next => exact .inl (Eq.refl _)

/-- A file that is as asked stays so. -/
theorem Toward.keeps (toward : Toward listing dest after) {filename : String}
    (asked : dest.files.lookup filename = some (listing.desired filename)) :
    after.files.lookup filename = some (listing.desired filename) := by
  cases toward filename with
  | inl same => rw [same, asked]
  | inr same => exact same

theorem Toward.flagged (toward : Toward listing dest after) {filename : String}
    (flagged : listing.Flagged dest filename) : listing.Flagged after filename := by
  intro yanked stored
  cases toward filename with
  | inl same => exact flagged yanked (same.symm.trans stored)
  | inr asked => exact Option.some.inj (stored.symm.trans asked)

theorem flagged_of_asked {filename : String}
    (asked : dest.files.lookup filename = some (listing.desired filename)) :
    listing.Flagged dest filename :=
  fun _ stored => Option.some.inj (stored.symm.trans asked)

/-- A file that a call left alone is as asked exactly where it was. -/
theorem flagged_congr {filename : String}
    (same : after.files.lookup filename = dest.files.lookup filename) :
    listing.Flagged after filename ↔ listing.Flagged dest filename := by
  unfold Listing.Flagged
  rw [same]

end

section
variable (listing : Listing) (dest : Dest)

theorem uploadViaHttp_toward (answer : UploadAnswer) (filename : String) :
    Toward listing dest (uploadViaHttp listing answer filename dest).1 ∧
      (uploadViaHttp listing answer filename dest).1.status = dest.status := by
  unfold uploadViaHttp
  split
  next => exact ⟨.rfl, rfl⟩
  next =>
    split
    next => exact ⟨.rfl, rfl⟩
    next => exact ⟨.insert filename, rfl⟩
    next => exact ⟨.insert filename, rfl⟩
    next => exact ⟨.rfl, rfl⟩

theorem uploadAll_toward (answers : String → UploadAnswer) (filenames : List String) :
    Toward listing dest (uploadAll listing answers filenames dest).1 ∧
      (uploadAll listing answers filenames dest).1.status = dest.status := by
  unfold uploadAll
  generalize 0 = errors
  induction filenames generalizing dest errors with
  | nil => exact ⟨.rfl, rfl⟩
  | cons filename rest hypothesis =>
      rw [List.foldl_cons]
      have first := uploadViaHttp_toward listing dest (answers filename) filename
      have others := hypothesis (uploadViaHttp listing (answers filename) filename dest).1
      exact ⟨first.1.trans (others _).1, (others _).2.trans first.2⟩

/-- An upload leaves a file that is there as it is. -/
theorem uploadAll_stored (answers : String → UploadAnswer) (filenames : List String)
    {filename : String} (stored : filename ∈ dest.files) :
    (uploadAll listing answers filenames dest).1.files.lookup filename = dest.files.lookup filename := by
  unfold uploadAll
  generalize 0 = errors
  induction filenames generalizing dest errors with
  | nil => rfl
  | cons first rest hypothesis =>
      rw [List.foldl_cons]
      have kept : (uploadViaHttp listing (answers first) first dest).1.files.lookup filename =
          dest.files.lookup filename := by
        unfold uploadViaHttp
        split
        next => rfl
        next new =>
          have other : filename ≠ first := fun same => new (same ▸ stored)
          split
          next => rfl
          next => exact AList.lookup_insert_ne other
          next => exact AList.lookup_insert_ne other
          next => rfl
      have there : filename ∈ (uploadViaHttp listing (answers first) first dest).1.files := by
        rw [← AList.lookup_isSome, kept, AList.lookup_isSome]
        exact stored
      exact (hypothesis _ there _).trans kept

theorem uploadAll_flagged (answers : String → UploadAnswer) (filenames : List String)
    (filename : String) : listing.Flagged (uploadAll listing answers filenames dest).1 filename ↔
      listing.Flagged dest filename := by
  by_cases stored : filename ∈ dest.files
  · exact flagged_congr (uploadAll_stored listing dest answers filenames stored)
  · have vacant : dest.files.lookup filename = none := AList.lookup_eq_none.mpr stored
    have before : listing.Flagged dest filename := by
      intro yanked found
      rw [vacant] at found
      cases found
    exact iff_of_true ((uploadAll_toward listing dest answers filenames).1.flagged before) before

theorem applyYank_toward (answer : Answer) (filename : String) :
    Toward listing dest (applyYank answer filename (listing.desired filename) dest).1 ∧
      (applyYank answer filename (listing.desired filename) dest).1.status = dest.status := by
  unfold applyYank
  split
  next =>
    split
    next => exact ⟨.rfl, rfl⟩
    next => exact ⟨.insert filename, rfl⟩
    next => exact ⟨.insert filename, rfl⟩
  next => exact ⟨.rfl, rfl⟩

theorem reconcileYanks_toward (answers : String → Answer) (shown : List (String × Yanked)) :
    Toward listing dest (reconcileYanks listing answers shown dest).1 ∧
      (reconcileYanks listing answers shown dest).1.status = dest.status := by
  induction shown generalizing dest with
  | nil => exact ⟨.rfl, rfl⟩
  | cons file rest hypothesis =>
      obtain ⟨filename, yanked⟩ := file
      unfold reconcileYanks
      split
      next => exact hypothesis dest
      next =>
        have first := applyYank_toward listing dest (answers filename) filename
        dsimp only
        split
        next => exact ⟨first.1.trans (hypothesis _).1, (hypothesis _).2.trans first.2⟩
        next => exact first

/-- Reconciling leaves a file that is nowhere shown drifted as it is. -/
theorem reconcileYanks_untouched (answers : String → Answer) {shown : List (String × Yanked)}
    {filename : String} (asked : ∀ yanked, (filename, yanked) ∈ shown → yanked = listing.desired filename) :
    (reconcileYanks listing answers shown dest).1.files.lookup filename =
      dest.files.lookup filename := by
  induction shown generalizing dest with
  | nil => rfl
  | cons file rest hypothesis =>
      obtain ⟨first, yanked⟩ := file
      have later (dest : Dest) := hypothesis dest fun yanked member => asked yanked (.tail _ member)
      unfold reconcileYanks
      split
      next => exact later dest
      next drifted =>
        have other : filename ≠ first := by
          rintro rfl
          exact drifted (asked yanked (.head _))
        have kept : (applyYank (answers first) first (listing.desired first) dest).1.files.lookup
            filename = dest.files.lookup filename := by
          unfold applyYank
          split
          next =>
            split
            next => rfl
            next => exact AList.lookup_insert_ne other
            next => exact AList.lookup_insert_ne other
          next => rfl
        dsimp only
        split
        next => exact (later _).trans kept
        next => exact kept

theorem relayStatus_files (status : UpstreamStatus) (answer : Answer) (shown : LocalIndex) :
    (relayStatus status answer shown dest).1.files = dest.files := by
  unfold relayStatus
  split
  next => rfl
  next =>
    split
    next => rfl
    next => split <;> rfl

end

section
variable {listing : Listing} {dest : Dest}

/-- A call that succeeds has set the yank. -/
theorem applyYank_sets {answer : Answer} {filename : String} {yanked : Yanked}
    (ok : (applyYank answer filename yanked dest).2 = true) :
    (applyYank answer filename yanked dest).1.files.lookup filename = some yanked := by
  unfold applyYank at ok ⊢
  split at ok
  next stored =>
    rw [if_pos stored]
    cases answer with
    | lost => cases ok
    | late => cases ok
    | done => exact AList.lookup_insert _
  next => cases ok

/-- Reconciled to the end, each file that was shown drifted is as asked. -/
theorem reconcileYanks_sets {answers : String → Answer} {shown : List (String × Yanked)}
    (ok : (reconcileYanks listing answers shown dest).2 = true) {filename : String} {yanked : Yanked}
    (member : (filename, yanked) ∈ shown) (drifted : yanked ≠ listing.desired filename) :
    (reconcileYanks listing answers shown dest).1.files.lookup filename =
      some (listing.desired filename) := by
  induction shown generalizing dest with
  | nil => cases member
  | cons file rest hypothesis =>
      obtain ⟨first, current⟩ := file
      unfold reconcileYanks at ok ⊢
      split at ok
      next same =>
        rw [if_pos same]
        cases member with
        | head => exact absurd same drifted
        | tail _ later => exact hypothesis ok later
      next differs =>
        rw [if_neg differs]
        dsimp only at ok ⊢
        split at ok
        next applied =>
          rw [if_pos applied]
          cases member with
          | head => exact (reconcileYanks_toward listing _ answers rest).1.keeps (applyYank_sets applied)
          | tail _ later => exact hypothesis ok later
        next => cases ok

/-- Reconciled to the end, a file is as asked where it was, or where it was shown
drifted. -/
theorem reconcileYanks_flagged {answers : String → Answer} {shown : List (String × Yanked)}
    (ok : (reconcileYanks listing answers shown dest).2 = true) (filename : String) :
    listing.Flagged (reconcileYanks listing answers shown dest).1 filename ↔
      listing.Flagged dest filename ∨
        ∃ yanked, (filename, yanked) ∈ shown ∧ yanked ≠ listing.desired filename := by
  by_cases drifted : ∃ yanked, (filename, yanked) ∈ shown ∧ yanked ≠ listing.desired filename
  · obtain ⟨yanked, member, differs⟩ := drifted
    exact iff_of_true (flagged_of_asked (reconcileYanks_sets ok member differs))
      (.inr ⟨yanked, member, differs⟩)
  · rw [or_iff_left drifted]
    apply flagged_congr
    apply reconcileYanks_untouched
    intro yanked member
    by_contra differs
    exact drifted ⟨yanked, member, differs⟩

theorem relayStatus_relayed {answer : Answer} {shown : LocalIndex}
    (ok : (relayStatus listing.status answer shown dest).2 = true) :
    listing.Relayed (relayStatus listing.status answer shown dest).1 ↔ listing.Relayed dest ∨
      ∀ wanted, listing.status.desired = some wanted → shown.projectStatus.getD default ≠ wanted := by
  unfold Listing.Relayed
  cases asks : listing.status.desired with
  | none => simp
  | some wanted =>
      simp only [Option.some.injEq, forall_eq']
      unfold relayStatus at ok ⊢
      rw [asks] at ok ⊢
      dsimp only at ok ⊢
      split at ok
      next same => simp [same]
      next differs =>
        rw [if_neg differs]
        cases answer with
        | lost => cases ok
        | late => cases ok
        | done => simp [differs]

end

/-! ### A run -/

section
variable {listing : Listing} {dest after : Dest} {shown : Option LocalIndex} {run : Run}

/-- Reconciled without error and without a hold, a file and the status are as asked
where they were, or where the index showed that they were not. -/
theorem reconcileShown_settles
    (reconciled : reconcileShown listing run shown dest = (after, 0, false)) :
    (∀ filename, listing.Flagged after filename ↔
      listing.Flagged dest filename ∨ Drifted listing shown filename) ∧
    (listing.Relayed after ↔ listing.Relayed dest ∨ Stale listing shown) := by
  unfold Drifted Stale
  unfold reconcileShown at reconciled
  cases shown with
  | none =>
      obtain rfl : dest = after := congrArg Prod.fst reconciled
      simp
  | some index =>
      simp only [Option.some.injEq, exists_eq_left']
      dsimp only at reconciled
      cases blocked : listing.status.blocks with
      | true =>
          simp only [blocked, Bool.true_or, if_true, Prod.mk.injEq, Nat.zero_add, ite_eq_left_iff,
            Nat.one_ne_zero, imp_false, Bool.not_eq_true] at reconciled
          obtain ⟨rfl, relayed, -⟩ := reconciled
          refine ⟨fun filename => ?_, relayStatus_relayed (by simpa using relayed)⟩
          simp only [reduceCtorEq, false_and, or_false]
          apply flagged_congr
          rw [relayStatus_files]
      | false =>
          cases frozen : index.projectStatus.any fun doc => blocksDownloads doc.status with
          | true => simp [blocked, frozen] at reconciled
          | false =>
              simp only [blocked, frozen, Bool.or_false, if_false, Prod.mk.injEq,
                Nat.add_eq_zero_iff, ite_eq_left_iff, Nat.one_ne_zero, imp_false,
                Bool.not_eq_true, Bool.false_eq_true] at reconciled
              obtain ⟨rfl, ⟨flagged, relayed⟩, -⟩ := reconciled
              have kept := (reconcileYanks_toward listing dest run.yank index.files).2
              constructor
              · intro filename
                rw [eq_self_iff_true, true_and, ← reconcileYanks_flagged (by simpa using flagged) filename]
                apply flagged_congr
                rw [relayStatus_files]
              · rw [relayStatus_relayed (by simpa using relayed)]
                unfold Listing.Relayed
                rw [kept]

/-- A run that reaches the destination's index uploads, then reconciles. -/
theorem syncListing_eq {version : ℕ} {tagged : Bool} (read : run.localIndex ≠ .failed) :
    syncListing listing version tagged run dest =
      let (dest, uploadErrors) := uploadAll listing run.upload
        (toUpload listing run.selected run.localIndex.shown) dest
      let (dest, errors, hold) := reconcileShown listing run run.localIndex.shown dest
      if uploadErrors + errors = 0 then
        (dest, .finished (if listing.status.desired.isNone || hold || !tagged then none else some version))
      else (dest, .failed) := by
  unfold syncListing LocalAnswer.shown
  cases answer : run.localIndex with
  | failed => exact absurd answer read
  | missing => simp only [Nat.zero_add]
  | found index => simp only [Nat.zero_add]

end

/-- A run that ends with a tag had every call succeed, and leaves a file and the status
as asked where they were, or where its index showed that they were not. -/
theorem syncListing_settles {listing : Listing} {version v : ℕ} {tagged : Bool} {run : Run}
    {dest : Dest} (finished : (syncListing listing version tagged run dest).2 = .finished (some v)) :
    v = version ∧
      (∀ filename, listing.Flagged (syncListing listing version tagged run dest).1 filename ↔
        listing.Flagged dest filename ∨ Drifted listing run.localIndex.shown filename) ∧
      (listing.Relayed (syncListing listing version tagged run dest).1 ↔
        listing.Relayed dest ∨ Stale listing run.localIndex.shown) := by
  have read : run.localIndex ≠ .failed := by
    intro failed
    unfold syncListing at finished
    simp [failed] at finished
  rw [syncListing_eq read] at finished ⊢
  have flagged := uploadAll_flagged listing dest run.upload
    (toUpload listing run.selected run.localIndex.shown)
  have kept := (uploadAll_toward listing dest run.upload
    (toUpload listing run.selected run.localIndex.shown)).2
  generalize uploadAll listing run.upload (toUpload listing run.selected run.localIndex.shown) dest =
    first at finished flagged kept ⊢
  obtain ⟨mid, uploadErrors⟩ := first
  dsimp only at finished flagged kept ⊢
  cases reconciled : reconcileShown listing run run.localIndex.shown mid with
  | mk after rest =>
      obtain ⟨errors, hold⟩ := rest
      rw [reconciled] at finished
      dsimp only at finished ⊢
      split at finished
      next clean =>
        rw [if_pos clean]
        split at finished
        next => cases finished
        next advanced =>
          have unheld : hold = false := by
            cases hold with
            | true => simp at advanced
            | false => rfl
          obtain rfl : version = v := by simpa using finished
          obtain rfl : errors = 0 := by omega
          rw [unheld] at reconciled
          obtain ⟨files, status⟩ := reconcileShown_settles reconciled
          refine ⟨rfl, fun filename => ?_, ?_⟩
          · rw [files, flagged]
          · rw [status]
            unfold Listing.Relayed
            rw [kept]
      next => cases finished

theorem syncListing_fetched {listing : Listing} {version : ℕ} {tagged : Bool} {run : Run}
    {dest : Dest} : (syncListing listing version tagged run dest).2 ≠ .notModified := by
  intro unchanged
  unfold syncListing at unchanged
  dsimp only at unchanged
  split at unchanged
  all_goals
    split at unchanged
    next => cases unchanged
    next => cases unchanged

/-! ### Runs -/

section
variable {upstream : ℕ → Listing} {runs : ℕ → Run} {index : LocalIndex} {n m v : ℕ}

/-- Told that nothing changed, a run leaves the destination as it is. -/
theorem dest_of_notModified (unchanged : outcome upstream runs n = .notModified) :
    (states upstream runs (n + 1)).dest = (states upstream runs n).dest := by
  unfold outcome at unchanged
  change (syncOnePackage upstream (states upstream runs n) (runs n)).1 = _
  unfold syncOnePackage at unchanged ⊢
  split at unchanged
  next skipped => rw [if_pos skipped]
  next =>
    split at unchanged
    next => cases unchanged
    next => cases unchanged
    next => exact absurd unchanged syncListing_fetched

/-- Run `n` ends with the tag of listing `v`, and stores it. -/
def Stores (upstream : ℕ → Listing) (runs : ℕ → Run) (n v : ℕ) : Prop :=
  outcome upstream runs n = .finished (some v) ∧ (runs n).saved = true

/-- From a run that stores a tag until one that is not told that nothing changed, a
stored file carries the yank that the listing of that tag asks for exactly if it did
before that run, or the index the run read showed that it did not; and so for the
status. -/
theorem settled_until_refetched (stores : Stores upstream runs n v) (later : n < m)
    (unchanged : ∀ k, n < k → k < m → outcome upstream runs k = .notModified) :
    (∀ filename, (upstream v).Flagged (states upstream runs m).dest filename ↔
      (upstream v).Flagged (states upstream runs n).dest filename ∨
        Drifted (upstream v) (runs n).localIndex.shown filename) ∧
    ((upstream v).Relayed (states upstream runs m).dest ↔
      (upstream v).Relayed (states upstream runs n).dest ∨
        Stale (upstream v) (runs n).localIndex.shown) := by
  induction m, later using Nat.le_induction with
  | base =>
      have finished := stores.1
      unfold outcome at finished
      have dest : (states upstream runs (n + 1)).dest =
        (syncOnePackage upstream (states upstream runs n) (runs n)).1 := rfl
      rw [dest]
      unfold syncOnePackage at finished ⊢
      split at finished
      next => cases finished
      next fresh =>
        rw [if_neg fresh]
        split at finished
        next => cases finished
        next => cases finished
        next =>
          obtain ⟨rfl, settles⟩ := syncListing_settles finished
          exact settles
  | succ m later hypothesis =>
      rw [dest_of_notModified (unchanged m (by omega) (by omega))]
      exact hypothesis fun k after before => unchanged k after (by omega)

end

/-! ### The index behind -/

/-- A source of two files: released, then yanked, then quarantined. -/
def yankedLater : ℕ → Listing
  | 0 => ⟨⟨[⟨"demo-1.0.tar.gz", .flag false⟩, ⟨"demo-1.1.tar.gz", .flag false⟩],
      by simp [List.NodupKeys, List.keys]⟩, .absent⟩
  | 1 => ⟨⟨[⟨"demo-1.0.tar.gz", .flag true⟩, ⟨"demo-1.1.tar.gz", .flag true⟩],
      by simp [List.NodupKeys, List.keys]⟩, .absent⟩
  | _ => ⟨∅, .known ⟨.quarantined, none⟩⟩

/-- A run that all calls succeed for. -/
def cleanRun (version : ℕ) (localIndex : LocalAnswer) : Run :=
  { version, full := false, conditional := true, fetched := .listing true, localIndex,
    selected := fun _ => true, upload := fun _ => .call .done, yank := fun _ => .done,
    status := .done, saved := true }

/-- The first run uploads the files; the next reads a later listing; then the source
says that nothing changed. -/
def thenUnchanged (version : ℕ) (localIndex : LocalAnswer) : ℕ → Run
  | 0 => cleanRun 0 (.found ⟨[], none⟩)
  | _ => cleanRun version localIndex

/-- The index that shows one of the two files, as it was uploaded. -/
def behind : LocalAnswer := .found ⟨[("demo-1.0.tar.gz", .flag false)], none⟩

/-- The yank of the file that the index shows is set, the other's is not. -/
theorem yank_behind :
    (yankedLater 1).Flagged (states yankedLater (thenUnchanged 1 behind) 3).dest "demo-1.0.tar.gz" ∧
      ¬ (yankedLater 1).Flagged (states yankedLater (thenUnchanged 1 behind) 3).dest
        "demo-1.1.tar.gz" := by
  have unchanged (k : ℕ) (after : 1 < k) (before : k < 3) :
      outcome yankedLater (thenUnchanged 1 behind) k = .notModified := by
    obtain rfl : k = 2 := by omega
    rfl
  obtain ⟨flagged, -⟩ := settled_until_refetched (n := 1) (v := 1) ⟨rfl, rfl⟩ (by decide) unchanged
  constructor
  · rw [flagged]
    right
    exact ⟨_, rfl, rfl, .flag false, List.mem_singleton_self _, by decide⟩
  · rw [flagged]
    rintro (before | ⟨index, shown, -, yanked, member, -⟩)
    · exact absurd (before (.flag false) rfl) (by decide)
    · cases shown
      simp at member

/-- The tag is stored over a file that is not as its listing asks: one that the
index did not show yet, or could not, or one of a listing that blocks downloads. -/
theorem stored_unreconciled :
    (Stores yankedLater (thenUnchanged 1 behind) 1 1 ∧
      outcome yankedLater (thenUnchanged 1 behind) 2 = .notModified ∧
      ¬ (yankedLater 1).Flagged (states yankedLater (thenUnchanged 1 behind) 3).dest
        "demo-1.1.tar.gz") ∧
    (Stores yankedLater (thenUnchanged 1 .missing) 1 1 ∧
      outcome yankedLater (thenUnchanged 1 .missing) 2 = .notModified ∧
      ¬ (yankedLater 1).Flagged (states yankedLater (thenUnchanged 1 .missing) 3).dest
        "demo-1.1.tar.gz") ∧
    (Stores yankedLater (thenUnchanged 2 behind) 1 2 ∧
      outcome yankedLater (thenUnchanged 2 behind) 2 = .notModified ∧
      ¬ (yankedLater 2).Flagged (states yankedLater (thenUnchanged 2 behind) 3).dest
        "demo-1.1.tar.gz") := by
  refine ⟨⟨⟨rfl, rfl⟩, rfl, fun flagged => ?_⟩, ⟨⟨rfl, rfl⟩, rfl, fun flagged => ?_⟩,
    ⟨⟨rfl, rfl⟩, rfl, fun flagged => ?_⟩⟩
  all_goals exact absurd (flagged (.flag false) rfl) (by decide)

end Pypiron.SyncCursor
