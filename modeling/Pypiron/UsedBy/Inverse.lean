import Pypiron.UsedBy

/-! After a pass that fails nowhere the used-by views are the inverse of the
records, but for what an interrupted pass left in a file that this one has no
reason to edit. -/
namespace Pypiron.UsedBy
open KeyedMap

/-! ### Folds over keyed updates -/

section
variable {M K V A : Type} [DecidableEq K] (get : M → K → Option V) {update : M → K × A → M}
  (value : A → Option V)

theorem foldl_of_notMem
    (spec : ∀ m k a k', get (update m (k, a)) k' = if k' = k then value a else get m k')
    {entries : List (K × A)} {k : K} (absent : k ∉ entries.map Prod.fst) (m : M) :
    get (entries.foldl update m) k = get m k := by
  induction entries generalizing m with
  | nil => rfl
  | cons entry rest ih =>
      simp only [List.map_cons, List.mem_cons, not_or] at absent
      rw [List.foldl_cons, ih absent.2, spec, if_neg absent.1]

theorem foldl_of_mem
    (spec : ∀ m k a k', get (update m (k, a)) k' = if k' = k then value a else get m k')
    {entries : List (K × A)} (nodup : (entries.map Prod.fst).Nodup) {k : K} {a : A}
    (member : (k, a) ∈ entries) (m : M) : get (entries.foldl update m) k = value a := by
  induction entries generalizing m with
  | nil => cases member
  | cons entry rest ih =>
      simp only [List.map_cons, List.nodup_cons] at nodup
      obtain rfl | later := List.mem_cons.mp member
      · rw [List.foldl_cons, foldl_of_notMem get value spec nodup.1, spec, if_pos rfl]
      · exact ih nodup.2 later _

end

/-! ### Edits -/

theorem linesFor_of_notMem_named {forward : Option Forward} {target : PkgName}
    (absent : target ∉ named forward) : linesFor forward target = none := by
  cases forward with
  | none => rfl
  | some f => exact Finmap.lookup_eq_none.mpr fun there => absent (Finmap.mem_keys.mpr there)

theorem mem_edits {old new : Option Forward} {target : PkgName} :
    target ∈ edits old new ↔ linesFor old target ≠ linesFor new target := by
  unfold edits
  rw [Finset.mem_filter, Finset.mem_union, and_iff_right_iff_imp]
  intro differ
  by_contra absent
  rw [not_or] at absent
  exact differ ((linesFor_of_notMem_named absent.1).trans (linesFor_of_notMem_named absent.2).symm)

namespace Pass
variable {pass : Pass} {v : Views} {changed : List (PkgName × Option Forward)}

theorem applyEdit_lookup (target : PkgName) (after : Lines) (pkg : PkgName)
    (forward : Option Forward) (pkg' : PkgName) :
    (applyEdit target after (pkg, forward)).lookup pkg' =
      if pkg' = pkg then linesFor forward target else after.lookup pkg' := by
  unfold applyEdit
  cases linesFor forward target with
  | none =>
      dsimp only
      split
      next same => rw [same, Finmap.lookup_erase]
      next other => rw [Finmap.lookup_erase_ne other]
  | some lines =>
      dsimp only
      split
      next same => rw [same, Finmap.lookup_insert]
      next other => rw [Finmap.lookup_insert_of_ne _ other]

theorem recordPackage_lookup (shard : Shard) (pkg : PkgName) (forward : Option Forward)
    (pkg' : PkgName) :
    (recordPackage shard (pkg, forward)).lookup pkg' =
      if pkg' = pkg then forward else shard.lookup pkg' := by
  cases forward with
  | none => exact lookup_erase_eq pkg pkg' shard
  | some forward => exact lookup_insert_eq pkg pkg' forward shard

/-- A used-by file as wanted: each package that moves has its new lines, and the
others what they had, or nothing in a regenerated file. -/
theorem wanted_lookup (nodup : (changed.map Prod.fst).Nodup) (target pkg : PkgName) :
    (∃ forward, (pkg, forward) ∈ changed ∧ target ∈ edits (pass.stored v pkg) forward ∧
      (pass.wanted v changed target).lookup pkg = linesFor forward target) ∨
    (∀ forward, (pkg, forward) ∈ changed → target ∉ edits (pass.stored v pkg) forward) ∧
      (pass.wanted v changed target).lookup pkg =
        if pass.scope = .regenerate then none else (v.usedBy target).lookup pkg := by
  have kept : ((pass.editsOf v changed target).map Prod.fst).Nodup :=
    nodup.sublist (List.Sublist.map _ List.filter_sublist)
  unfold wanted
  by_cases moves : ∃ forward, (pkg, forward) ∈ pass.editsOf v changed target
  · obtain ⟨forward, member⟩ := moves
    refine .inl ⟨forward, (List.mem_filter.mp member).1, ?_, ?_⟩
    · simpa using (List.mem_filter.mp member).2
    · exact foldl_of_mem (fun (m : Lines) k => m.lookup k) (linesFor · target)
        (applyEdit_lookup target) kept member _
  · refine .inr ⟨fun forward member edited => ?_, ?_⟩
    · exact moves ⟨forward, List.mem_filter.mpr ⟨member, by simpa using edited⟩⟩
    · have absent : pkg ∉ (pass.editsOf v changed target).map Prod.fst := by
        intro there
        obtain ⟨entry, member, rfl⟩ := List.mem_map.mp there
        exact moves ⟨entry.2, member⟩
      have same := foldl_of_notMem (fun (m : Lines) k => m.lookup k) (linesFor · target)
        (applyEdit_lookup target) absent (if pass.scope = .regenerate then ∅ else v.usedBy target)
      refine same.trans ?_
      split <;> rfl

/-- A shard as wanted: the landed packages have their new records, and the others
what they had, or nothing in a regenerated shard. -/
theorem updateShard_lookup (nodup : (changed.map Prod.fst).Nodup) (pkg : PkgName) :
    (∃ forward, (pkg, forward) ∈ pass.landed v changed ∧
      (pass.updateShard v changed pkg.first).lookup pkg = forward) ∨
    pkg ∉ (pass.landed v changed).map Prod.fst ∧
      (pass.updateShard v changed pkg.first).lookup pkg = pass.stored v pkg := by
  have landed : ((pass.landed v changed).map Prod.fst).Nodup :=
    nodup.sublist (List.Sublist.map _ List.filter_sublist)
  have kept := landed.sublist (List.Sublist.map Prod.fst
    (List.filter_sublist (p := fun entry => entry.1.first = pkg.first)))
  unfold updateShard
  by_cases moves : pkg ∈ (pass.landed v changed).map Prod.fst
  · obtain ⟨⟨_, forward⟩, member, rfl⟩ := List.mem_map.mp moves
    refine .inl ⟨forward, member, ?_⟩
    exact foldl_of_mem (fun (m : Shard) k => m.lookup k) id recordPackage_lookup kept
      (List.mem_filter.mpr ⟨member, by simp⟩) _
  · refine .inr ⟨moves, ?_⟩
    have absent : pkg ∉ ((pass.landed v changed).filter fun entry =>
        entry.1.first = pkg.first).map Prod.fst :=
      fun there => moves ((List.Sublist.map _ List.filter_sublist).subset there)
    refine (foldl_of_notMem (fun (m : Shard) k => m.lookup k) id recordPackage_lookup absent _).trans ?_
    unfold stored
    cases pass.scope <;> rfl

/-! ### What moved -/

private theorem mapM_keys {K A B : Type} {f : K → A → Option B} {entries : List (K × A)}
    {moves : List (K × B)}
    (all : entries.mapM (fun entry => (f entry.1 entry.2).map fun m => (entry.1, m)) = some moves) :
    moves.map Prod.fst = entries.map Prod.fst := by
  induction entries generalizing moves with
  | nil =>
      cases all
      rfl
  | cons entry rest ih =>
      rw [List.mapM_cons] at all
      obtain ⟨first, one, others⟩ := Option.bind_eq_some_iff.mp all
      obtain ⟨later, more, same⟩ := Option.bind_eq_some_iff.mp others
      obtain ⟨m, _, rfl⟩ := Option.map_eq_some_iff.mp one
      cases same
      rw [List.map_cons, List.map_cons, ih more]

private theorem mapM_defined {A B : Type} {f : A → Option B} {entries : List A}
    (defined : ∀ entry ∈ entries, ∃ b, f entry = some b) : ∃ out, entries.mapM f = some out := by
  induction entries with
  | nil => exact ⟨[], rfl⟩
  | cons entry rest ih =>
      obtain ⟨first, one⟩ := defined entry List.mem_cons_self
      obtain ⟨later, more⟩ := ih fun other member => defined other (List.mem_cons_of_mem _ member)
      exact ⟨first :: later, by rw [List.mapM_cons, one, more]; rfl⟩

theorem moved_fst {pkg : PkgName} {m : Move} {entry : PkgName × Option Forward}
    (to_entry : pass.moved pkg m = some entry) : entry.1 = pkg := by
  cases m with
  | read source =>
      obtain ⟨forward, _, rfl⟩ := Option.map_eq_some_iff.mp to_entry
      rfl
  | gone =>
      cases to_entry
      rfl
  | still => cases to_entry

private theorem filterMap_moved (moves : List (PkgName × Move)) :
    ((moves.filterMap fun entry => pass.moved entry.1 entry.2).map Prod.fst).Sublist
      (moves.map Prod.fst) := by
  induction moves with
  | nil => exact List.Sublist.refl _
  | cons entry rest ih =>
      rw [List.filterMap_cons]
      split
      next => exact ih.trans (List.sublist_cons_self _ _)
      next next found =>
        rw [List.map_cons, List.map_cons, moved_fst found]
        exact ih.cons_cons _

end Pass

/-- Every package is recorded in the shard of its first character. -/
def Views.Filed (v : Views) : Prop := ∀ c, ∀ pkg ∈ (v.requires c).keys, pkg.first = c

namespace Pass
variable {pass : Pass} {v : Views} {changed : List (PkgName × Option Forward)}

theorem unobserved_nodup (filed : v.Filed) : (pass.unobserved v).Nodup := by
  unfold unobserved
  split
  · refine List.nodup_flatMap.mpr ⟨fun c _ => ?_, ?_⟩
    · exact (AList.keys_nodup (v.requires c)).sublist List.filter_sublist
    · have shards : shardChars.Nodup := by decide
      refine shards.imp fun {c c'} apart => ?_
      rw [Function.onFun, List.disjoint_left]
      intro pkg here there
      have first := filed c pkg (List.mem_filter.mp here).1
      exact apart (first.symm.trans (filed c' pkg (List.mem_filter.mp there).1))
  · exact List.nodup_nil

theorem unobserved_unseen {pkg : PkgName} (member : pkg ∈ pass.unobserved v) :
    pkg ∉ pass.observed.map Prod.fst := by
  unfold unobserved at member
  split at member
  · obtain ⟨c, _, there⟩ := List.mem_flatMap.mp member
    simpa [seen] using (List.mem_filter.mp there).2
  · cases member

theorem changed_nodup (filed : v.Filed) (moves : pass.changed v = some changed) :
    (changed.map Prod.fst).Nodup := by
  unfold Pass.changed at moves
  split at moves
  · obtain ⟨observed, all, rfl⟩ := Option.map_eq_some_iff.mp moves
    have keys := mapM_keys all
    have within : ((observed.filterMap fun entry => pass.moved entry.1 entry.2).map Prod.fst).Sublist
        (observed.map Prod.fst) := filterMap_moved observed
    rw [keys] at within
    rw [List.map_append, List.map_map]
    refine List.Nodup.append (pass.distinct.sublist within) ?_ ?_
    · simpa [Function.comp_def] using unobserved_nodup filed
    · intro pkg here there
      simp only [List.mem_map, Function.comp_apply, exists_eq_right] at there
      exact unobserved_unseen there (within.subset here)
  · cases moves

/-! ### A pass that fails nowhere -/

/-- Every call of the pass succeeds. -/
structure Flawless (pass : Pass) : Prop where
  shardRead : ∀ c, pass.shardRead c = true
  relisted : ∀ pkg, pass.relisted pkg ≠ none
  companion : ∀ pkg source, pass.companion pkg source ≠ .failed
  listed : pass.listed = true
  write : ∀ target, pass.write target = .done
  recording : pass.recording = true
  record : ∀ c, pass.record c = .done

theorem Flawless.changed_defined (flawless : pass.Flawless) (v : Views) :
    ∃ changed, pass.changed v = some changed := by
  have reads : pass.readsShards = true := by
    unfold readsShards
    cases pass.scope with
    | regenerate => rfl
    | all => exact List.all_eq_true.mpr fun c _ => flawless.shardRead c
    | some => exact List.all_eq_true.mpr fun entry _ => flawless.shardRead entry.1.first
  have defined : ∀ entry ∈ pass.observed,
      ∃ b, ((pass.move v entry.1 entry.2).map fun m => (entry.1, m)) = some b := by
    intro entry _
    suffices ∃ m, pass.move v entry.1 entry.2 = some m by
      obtain ⟨m, moves⟩ := this
      exact ⟨_, by rw [moves]; rfl⟩
    unfold move
    cases entry.2 with
    | none => dsimp only; split <;> exact ⟨_, rfl⟩
    | some source =>
        dsimp only
        split
        · exact ⟨_, rfl⟩
        · split
          · cases again : pass.relisted entry.1 with
            | none => exact absurd again (flawless.relisted entry.1)
            | some fresh =>
                dsimp only
                split
                · exact ⟨_, rfl⟩
                · cases fresh <;> exact ⟨_, rfl⟩
          · exact ⟨_, rfl⟩
  obtain ⟨moves, all⟩ := mapM_defined defined
  unfold Pass.changed
  rw [if_pos reads, all]
  exact ⟨_, rfl⟩

theorem Flawless.landed (flawless : pass.Flawless) (v : Views)
    (moved : List (PkgName × Option Forward)) : pass.landed v moved = moved := by
  refine List.filter_eq_self.mpr fun entry _ => ?_
  simp [failed, flawless.write]

theorem recordShards_done {record : Char → Outcome} (done : ∀ c, record c = .done)
    (wanted : Char → Shard) (chars : List Char) (shards : Char → Shard) :
    (recordShards record wanted chars shards).2 = true ∧
      ∀ c, (recordShards record wanted chars shards).1 c =
        if c ∈ chars then wanted c else shards c := by
  induction chars generalizing shards with
  | nil => exact ⟨rfl, fun c => by simp [recordShards]⟩
  | cons first rest ih =>
      obtain ⟨ends, recorded⟩ := ih (Function.update shards first (wanted first))
      simp only [recordShards, done, Outcome.applies, if_true]
      refine ⟨ends, fun c => ?_⟩
      rw [recorded c]
      by_cases here : c = first
      · simp [here]
      · simp [here]

/-- A file that a pass does not look at is as it wants it. -/
theorem wanted_of_not_target {target : PkgName} (idle : pass.targets v changed target = false) :
    pass.wanted v changed target = v.usedBy target := by
  simp only [targets, Bool.or_eq_false_iff, decide_eq_false_iff_not, not_not,
    Bool.and_eq_false_iff] at idle
  unfold wanted
  rw [idle.1, List.foldl_nil]
  split
  next regenerate =>
    obtain other | empty := idle.2
    · exact absurd regenerate other
    · exact empty.symm
  next => rfl

/-- A shard that a pass does not write is as it wants it. -/
theorem updateShard_of_not_updated {pkg : PkgName} (idle : pkg.first ∉ pass.updated v changed) :
    pass.updateShard v changed pkg.first = v.requires pkg.first := by
  have unchanged : ¬(pass.scope = .regenerate) ∧
      ∀ entry ∈ pass.landed v changed, entry.1.first ≠ pkg.first := by
    constructor
    · intro regenerate
      exact idle (List.mem_filter.mpr ⟨pkg.sharded, by simp [regenerate]⟩)
    · intro entry member same
      refine idle (List.mem_filter.mpr ⟨pkg.sharded, ?_⟩)
      simp only [Bool.or_eq_true, List.any_eq_true, decide_eq_true_eq]
      exact .inr ⟨entry, member, same⟩
  have none_here : (pass.landed v changed).filter (fun entry => entry.1.first = pkg.first) = [] :=
    List.filter_eq_nil_iff.mpr fun entry member => by simpa using unchanged.2 entry member
  unfold updateShard
  rw [none_here, List.foldl_nil, if_neg unchanged.1]

/-- A pass that fails nowhere leaves every file and every shard as it wants them. -/
theorem Flawless.refresh (flawless : pass.Flawless) (moves : pass.changed v = some changed) :
    (∀ target, (pass.refresh v).1.usedBy target = pass.wanted v changed target) ∧
      ∀ pkg : PkgName, (pass.refresh v).1.requires pkg.first =
        pass.updateShard v changed pkg.first := by
  unfold Pass.refresh
  simp only [moves, flawless.listed, flawless.recording, Bool.true_eq_false, and_false, if_false,
    if_true]
  constructor
  · intro target
    unfold writeUsedBy
    split
    next => rfl
    next idle =>
      simp only [flawless.write, Outcome.applies, Bool.and_true, Bool.not_eq_true] at idle
      exact (wanted_of_not_target idle).symm
  · intro pkg
    rw [(recordShards_done flawless.record _ _ _).2]
    split
    next => rfl
    next idle => exact (updateShard_of_not_updated idle).symm

end Pass

/-! ### The inverse -/

/-- What a used-by file says a package requires of its project. -/
def Views.entry (v : Views) (pkg target : PkgName) : Option (List String) :=
  (v.usedBy target).lookup pkg

/-- What the package's forward record says. -/
def Views.recorded (v : Views) (pkg target : PkgName) : Option (List String) :=
  linesFor ((v.requires pkg.first).lookup pkg) target

/-- The used-by file and the forward record disagree about the package. -/
def Views.Astray (v : Views) (pkg target : PkgName) : Prop := v.entry pkg target ≠ v.recorded pkg target

/-- The pass has read another release of the package, or found it gone, and edits
the project's used-by file for it. -/
def Pass.Edits (pass : Pass) (v : Views) (pkg target : PkgName) : Prop :=
  ∃ changed forward, pass.changed v = some changed ∧ (pkg, forward) ∈ changed ∧
    target ∈ edits (pass.stored v pkg) forward

/-- A pass that fails nowhere sets right what it edits and leaves the rest. -/
theorem Pass.Flawless.astray_iff {pass : Pass} (flawless : pass.Flawless) {v : Views}
    (filed : v.Filed) (pkg target : PkgName) :
    (pass.refresh v).1.Astray pkg target ↔
      pass.scope ≠ .regenerate ∧ v.Astray pkg target ∧ ¬pass.Edits v pkg target := by
  obtain ⟨changed, moves⟩ := flawless.changed_defined v
  obtain ⟨files, shards⟩ := flawless.refresh moves
  have nodup := Pass.changed_nodup filed moves
  have one : ∀ {forward forward' : Option Forward}, (pkg, forward) ∈ changed →
      (pkg, forward') ∈ changed → forward = forward' := by
    intro forward forward' here there
    exact congrArg Prod.snd (List.inj_on_of_nodup_map nodup here there rfl)
  have edited : pass.Edits v pkg target ↔ ∃ forward, (pkg, forward) ∈ changed ∧
      target ∈ edits (pass.stored v pkg) forward := by
    constructor
    · rintro ⟨other, forward, same, member, edit⟩
      cases moves.symm.trans same
      exact ⟨forward, member, edit⟩
    · rintro ⟨forward, member, edit⟩
      exact ⟨changed, forward, moves, member, edit⟩
  have record : pass.scope ≠ .regenerate → pass.stored v pkg = (v.requires pkg.first).lookup pkg := by
    intro partly
    unfold Pass.stored
    cases scope : pass.scope with
    | regenerate => exact absurd scope partly
    | all => rfl
    | some => rfl
  have forgot : pass.scope = .regenerate → pass.stored v pkg = none := by
    intro scope
    rw [Pass.stored, scope]
  -- What the record now says, where no edit of the file was due.
  have kept : (∀ forward, (pkg, forward) ∈ changed → target ∉ edits (pass.stored v pkg) forward) →
      linesFor ((pass.updateShard v changed pkg.first).lookup pkg) target =
        linesFor (pass.stored v pkg) target := by
    intro idle
    obtain ⟨forward, landed, shard⟩ | ⟨_, shard⟩ :=
      pass.updateShard_lookup (v := v) nodup pkg
    · rw [flawless.landed] at landed
      have same := idle forward landed
      rw [mem_edits, not_not] at same
      rw [shard, same]
    · rw [shard]
  unfold Views.Astray Views.entry Views.recorded
  rw [files, shards, edited]
  obtain ⟨forward, member, edit, file⟩ | ⟨idle, file⟩ := pass.wanted_lookup (v := v) nodup target pkg
  · have shard : (pass.updateShard v changed pkg.first).lookup pkg = forward := by
      obtain ⟨forward', landed, shard⟩ | ⟨absent, _⟩ := pass.updateShard_lookup (v := v) nodup pkg
      · rw [flawless.landed] at landed
        rw [shard, one member landed]
      · rw [flawless.landed] at absent
        exact absurd (List.mem_map.mpr ⟨_, member, rfl⟩) absent
    rw [file, shard]
    exact ⟨fun differ => absurd rfl differ, fun ⟨_, _, unedited⟩ =>
      absurd ⟨forward, member, edit⟩ unedited⟩
  · have unedited : ¬∃ forward, (pkg, forward) ∈ changed ∧
        target ∈ edits (pass.stored v pkg) forward :=
      fun ⟨forward, member, edit⟩ => idle forward member edit
    rw [file, kept idle]
    by_cases scope : pass.scope = .regenerate
    · rw [if_pos scope, forgot scope]
      exact ⟨fun differ => absurd rfl differ, fun ⟨other, _⟩ => absurd scope other⟩
    · rw [if_neg scope, record scope]
      rw [record scope] at unedited
      exact ⟨fun differ => ⟨scope, differ, unedited⟩, fun ⟨_, differ, _⟩ => differ⟩

/-! ### Runs -/

theorem recordShards_cases (record : Char → Outcome) (wanted : Char → Shard) (chars : List Char)
    (shards : Char → Shard) (c : Char) :
    (Pass.recordShards record wanted chars shards).1 c = shards c ∨
      (Pass.recordShards record wanted chars shards).1 c = wanted c := by
  induction chars generalizing shards with
  | nil => exact .inl rfl
  | cons first rest ih =>
      have step : (if (record first).applies then Function.update shards first (wanted first)
          else shards) c = shards c ∨
          (if (record first).applies then Function.update shards first (wanted first)
          else shards) c = wanted c := by
        split
        · by_cases here : c = first
          · subst here
            exact .inr (Function.update_self c (wanted c) shards)
          · exact .inl (Function.update_of_ne here _ _)
        · exact .inl rfl
      simp only [Pass.recordShards]
      split
      · obtain same | now := ih _
        · rw [same]
          exact step
        · exact .inr now
      · exact step

theorem Views.Filed.updateShard {v : Views} (filed : v.Filed) (pass : Pass)
    (changed : List (PkgName × Option Forward)) (c : Char) :
    ∀ pkg ∈ (pass.updateShard v changed c).keys, pkg.first = c := by
  intro pkg member
  by_contra other
  have absent : pkg ∉ ((pass.landed v changed).filter fun entry => entry.1.first = c).map
      Prod.fst := by
    intro there
    obtain ⟨entry, kept, rfl⟩ := List.mem_map.mp there
    exact other (by simpa using (List.mem_filter.mp kept).2)
  have same := foldl_of_notMem (fun (m : Shard) k => m.lookup k) id Pass.recordPackage_lookup absent
    (if pass.scope = .regenerate then ∅ else v.requires c)
  have before : pkg ∉ (if pass.scope = .regenerate then ∅ else v.requires c : Shard) := by
    split
    · exact AList.notMem_empty pkg
    · exact fun there => other (filed c pkg (AList.mem_keys.mp there))
  rw [AList.lookup_eq_none.mpr before] at same
  exact AList.lookup_eq_none.mp same (AList.mem_keys.mpr member)

theorem Views.Filed.refresh {v : Views} (filed : v.Filed) (pass : Pass) :
    (pass.refresh v).1.Filed := by
  unfold Pass.refresh
  split
  · exact filed
  next changed _ =>
    split
    · exact filed
    · dsimp only
      split
      · intro c pkg member
        obtain same | wanted := recordShards_cases pass.record (pass.updateShard v changed)
          (pass.updated v changed) v.requires c
        · exact filed c pkg (same ▸ member)
        · exact filed.updateShard pass changed c pkg (wanted ▸ member)
      · exact filed

theorem views_filed (passes : ℕ → Pass) (n : ℕ) : (views passes n).Filed := by
  induction n with
  | zero =>
      intro c pkg member
      cases member
  | succ n ih => exact ih.refresh (passes n)

/-- After a pass that fails nowhere the used-by views are the inverse of the
records exactly when it regenerates them, or edits every entry on which they
disagreed before. Such a pass leaves none that it did not find, so a run of them
keeps the views inverse. -/
theorem used_by_inverse (passes : ℕ → Pass) (n : ℕ) (flawless : (passes n).Flawless) :
    ((∀ pkg target, (views passes (n + 1)).entry pkg target =
        (views passes (n + 1)).recorded pkg target) ↔
      (passes n).scope = .regenerate ∨ ∀ pkg target, (views passes n).Astray pkg target →
        (passes n).Edits (views passes n) pkg target) ∧
    ∀ pkg target, (views passes (n + 1)).Astray pkg target → (views passes n).Astray pkg target := by
  have astray := fun pkg target => flawless.astray_iff (views_filed passes n) pkg target
  constructor
  · constructor
    · intro inverse
      by_cases scope : (passes n).scope = .regenerate
      · exact .inl scope
      · refine .inr fun pkg target before => ?_
        by_contra unedited
        exact (astray pkg target).mpr ⟨scope, before, unedited⟩ (inverse pkg target)
    · intro redone pkg target
      by_contra after
      obtain ⟨scope, before, unedited⟩ := (astray pkg target).mp after
      obtain regenerates | edited := redone
      · exact scope regenerates
      · exact unedited (edited pkg target before)
  · exact fun pkg target after => ((astray pkg target).mp after).2.1

/-! ### An interrupted pass -/

def app : PkgName := ⟨'a', "pp", by decide⟩

def lib : PkgName := ⟨'l', "ib", by decide⟩

/-- A full pass over the one package `app`, whose first release alone requires `lib`. -/
def auditOf (source : String) (recording : Bool) : Pass where
  scope := .all
  observed := [(app, some source)]
  distinct := by simp
  shardRead := fun _ => true
  relisted := fun _ => some (some source)
  companion := fun _ source => .found (if source = "app-1.0.tar.gz" then [(lib, "lib>=1")] else [])
  listed := true
  write := fun _ => .done
  recording := recording
  record := fun _ => .done

theorem auditOf_flawless (source : String) : (auditOf source true).Flawless where
  shardRead := fun _ => rfl
  relisted := fun _ same => by cases same
  companion := fun _ _ same => by cases same
  listed := rfl
  write := fun _ => rfl
  recording := rfl
  record := fun _ => rfl

/-- The first audit crashes before it records what it edited, the second reads the same. -/
def redone (n : ℕ) : Pass := auditOf "app-1.0.tar.gz" (n ≠ 0)

theorem redone_edits {pkg target : PkgName} (astray : (views redone 1).Astray pkg target) :
    (redone 1).Edits (views redone 1) pkg target := by
  obtain ⟨changed, moves⟩ := (auditOf_flawless "app-1.0.tar.gz").changed_defined (views redone 1)
  have crashed : (redone 0).changed .empty = some changed := moves
  have stands : (views redone 1).usedBy target = (redone 0).wanted .empty changed target := by
    change ((redone 0).refresh .empty).1.usedBy target = _
    unfold Pass.refresh
    rw [crashed]
    change (redone 0).writeUsedBy .empty changed target = _
    unfold Pass.writeUsedBy
    cases idle : (redone 0).targets .empty changed target with
    | false => exact (Pass.wanted_of_not_target idle).symm
    | true => rfl
  have nodup := Pass.changed_nodup (views_filed redone 0) crashed
  obtain ⟨forward, member, edited, _⟩ | ⟨_, unedited⟩ :=
    @Pass.wanted_lookup (redone 0) .empty changed nodup target pkg
  · exact ⟨changed, forward, moves, member, edited⟩
  · refine absurd ?_ astray
    rw [Views.entry, stands]
    exact unedited

theorem settled_audit : (views redone 1).Astray app lib ∧
    ∀ pkg target, (views redone 2).entry pkg target = (views redone 2).recorded pkg target := by
  have astray : (views redone 1).Astray app lib := by
    unfold Views.Astray
    decide +kernel
  exact ⟨astray, (used_by_inverse redone 1 (auditOf_flawless _)).1.mpr
    (.inr fun pkg target astray => redone_edits astray)⟩

/-- The first audit crashes before it records the release it edited `lib` for. -/
def interrupted (n : ℕ) : Pass :=
  if n = 0 then auditOf "app-1.0.tar.gz" false else auditOf "app-2.0.tar.gz" true

/-- The second audit fails nowhere, and leaves `app` among the users of `lib`. -/
theorem stale_entry_survives : ¬∀ (passes : ℕ → Pass) (n : ℕ), (passes n).Flawless →
    (passes n).scope = .all → ∀ pkg target,
      (views passes (n + 1)).entry pkg target = (views passes (n + 1)).recorded pkg target := by
  intro inverse
  have same := inverse interrupted 1 (auditOf_flawless _) rfl app lib
  exact absurd same (by decide +kernel)

end Pypiron.UsedBy
