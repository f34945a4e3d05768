import Pypiron.VerifyIndex

/-! The check agrees with the rebuild unless nothing can be listed and a sidecar
does not parse. -/
namespace Pypiron.VerifyIndex
open ExcludeReconcile

/-! ### Names -/

theorem stripSuffix_eq_some {suf text rest : String} :
    stripSuffix suf text = some rest ↔ text = rest ++ suf := by
  constructor
  · intro stripped
    unfold stripSuffix at stripped
    split at stripped
    next ends =>
      obtain ⟨front, whole⟩ := ends
      cases stripped
      apply String.toList_injective
      rw [String.toList_append, String.toList_ofList, ← whole]
      simp
    next => cases stripped
  · rintro rfl
    exact stripSuffix_append rest suf

theorem marked_contains (names : List String) (suffix : Suffix) (filename : String) :
    (marked names suffix).contains filename = has names filename suffix := by
  rw [Bool.eq_iff_iff]
  simp only [marked, has, List.contains_iff_mem, List.mem_filterMap, stripSuffix_eq_some]
  constructor
  · rintro ⟨text, member, rfl⟩
    exact member
  · exact fun member => ⟨_, member, rfl⟩

theorem mem_names {store : Store} {name : String} :
    name ∈ store.names ↔ name ∈ store.objects ∧ name.toList.contains '/' = false := by
  unfold Store.names
  rw [List.mem_filter, ← AList.mem_keys, Bool.not_eq_true']

/-- A companion is in the directory of its file. -/
theorem companion_names {store : Store} {filename suf : String}
    (flat : filename.toList.contains '/' = false) (plain : suf.toList.contains '/' = false) :
    store.names.contains (filename ++ suf) = store.objects.keys.contains (filename ++ suf) := by
  rw [Bool.eq_iff_iff, List.contains_iff_mem, List.contains_iff_mem, mem_names, AList.mem_keys]
  refine and_iff_left ?_
  simp only [List.contains_eq_mem, decide_eq_false_iff_not] at flat plain ⊢
  rw [String.toList_append, List.mem_append, not_or]
  exact ⟨flat, plain⟩

theorem has_names {store : Store} {filename : String}
    (flat : filename.toList.contains '/' = false) (suffix : Suffix) :
    has store.names filename suffix = has store.objects.keys filename suffix := by
  apply companion_names flat
  cases suffix <;> decide

section
variable (shared : Shared) {S V : Type} (pep : Pep440 S V) (backfill : String → Option Sidecar)
  (denylist : Denylist S) (pkg : String) (store : Store)

/-! ### What each pipeline does with one artifact -/

/-- The fences that take an artifact out of the check. -/
def fenced (filename : String) : Bool :=
  has store.objects.keys filename .tombstone || has store.objects.keys filename .frozen

def suppressed (claim : Option OriginState) (filename : String) (sc : Sidecar) : Bool :=
  suppressedMirror claim sc (has store.objects.keys filename .mirrorQuarantined)

def entryOf (filename : String) (sc : Sidecar) : FileMetadata :=
  .fromSidecar filename sc
    (if has store.objects.keys filename .metadata then readMetadataSha256 shared store filename
      else none)
    (has store.objects.keys filename .provenance)

theorem fencedByMarkers_eq (tombstoned frozen : Bool) :
    Publish.fencedByMarkers tombstoned frozen = (tombstoned || frozen) := by
  cases tombstoned <;> cases frozen <;> rfl

/-- The classifier and the written-out rules omit the same records. -/
theorem listed_eq {names : List String} {filename : String} {sc : Sidecar}
    {claim : Option OriginState} (body : has names filename .body = true)
    (live : has names filename .tombstone = false) (thawed : has names filename .frozen = false) :
    Publish.listed (Record.fromListing (has names filename) (some sc) (claim.bind Origin.ofState))
        (claim.bind Origin.ofState) =
      !suppressedMirror claim sc (has names filename .mirrorQuarantined) := by
  unfold Publish.listed isLateMirror classifyRecord Record.fromListing Record.origin
    suppressedMirror
  simp only [body, live, thawed]
  generalize has names filename .mirrorQuarantined = quarantined
  have apart : Origin.priv.asStr ≠ Origin.mirror.asStr := by decide
  cases origin : sc.origin with
  | none =>
      cases quarantined <;> obtain _ | _ | _ | _ := claim <;> simp [origin, Origin.ofState]
  | some raw =>
      by_cases priv : raw = Origin.priv.asStr
      · subst priv
        cases quarantined <;> obtain _ | _ | _ | _ := claim <;> simp [origin, apart, Origin.ofState]
      by_cases mirror : raw = Origin.mirror.asStr
      · subst mirror
        cases quarantined <;> obtain _ | _ | _ | _ := claim <;>
          simp [origin, apart.symm, Origin.ofState]
      -- Any other origin types nothing, and neither pipeline holds it back.
      · have untyped : Origin.parse raw = none := by
          cases parsed : Origin.parse raw with
          | none => rfl
          | some known =>
              obtain rfl := Origin.parse_eq_some parsed
              cases known
              · exact absurd rfl priv
              · exact absurd rfl mirror
        cases quarantined <;> obtain _ | _ | _ | _ := claim <;>
          simp [origin, priv, mirror, untyped, Origin.ofState]

theorem classify_some_ne_bare (has : Suffix → Bool) (sc : Sidecar) (claim : Option Origin) :
    classifyRecord (Record.fromListing has (some sc) claim) ≠ .bare := by
  unfold classifyRecord Record.fromListing
  dsimp only
  repeat' split
  all_goals simp_all

theorem classify_fenced {has : Suffix → Bool} (marks : (has .tombstone || has .frozen) = true)
    (sidecar : Option Sidecar) (claim : Option Origin) :
    classifyRecord (Record.fromListing has sidecar claim) ≠ .bare ∧
      Publish.listed (Record.fromListing has sidecar claim) claim = false := by
  unfold Publish.listed classifyRecord Record.fromListing
  simp only [Bool.or_eq_true] at marks
  dsimp only
  by_cases frozen : has .frozen = true
  · simp [frozen]
  · have tombstoned : has .tombstone = true := marks.resolve_right frozen
    simp [frozen, tombstoned]

/-- The index entry of a typed artifact, by the rules the check writes out. -/
theorem load_eq {filename : String} (flat : filename.toList.contains '/' = false)
    (stored : filename ∈ store.objects) (typed : filename ++ sidecarSuffix ∈ store.objects)
    (claim : Option OriginState) :
    loadFileMetadata shared backfill store (claim.bind Origin.ofState) filename =
      if fenced store filename then none
      else (readListedSidecar shared store filename).bind fun sc =>
        if suppressed store claim filename sc then none
        else some (entryOf shared store filename sc) := by
  have body : has store.objects.keys filename .body = true := by
    unfold has
    rw [List.contains_iff_mem, ← AList.mem_keys, suffixText, String.append_empty]
    exact stored
  have sidecar : store.names.contains (filename ++ sidecarSuffix) = true := by
    rw [companion_names flat (by decide), List.contains_iff_mem, ← AList.mem_keys]
    exact typed
  have same : has store.names filename = has store.objects.keys filename :=
    funext fun suffix => has_names flat suffix
  unfold loadFileMetadata
  simp only [same, sidecar, fencedByMarkers_eq, Bool.true_and]
  unfold fenced
  cases marks : has store.objects.keys filename .tombstone || has store.objects.keys filename .frozen with
  | true =>
      obtain ⟨typed, unlisted⟩ := classify_fenced marks none (claim.bind Origin.ofState)
      simp [typed, unlisted]
  | false =>
      obtain ⟨live, thawed⟩ := Bool.or_eq_false_iff.mp marks
      cases read : readListedSidecar shared store filename with
      | none => simp
      | some sc =>
          have typed := classify_some_ne_bare (has store.objects.keys filename) sc
            (claim.bind Origin.ofState)
          unfold suppressed
          cases held : suppressedMirror claim sc (has store.objects.keys filename .mirrorQuarantined) <;>
            simp [typed, listed_eq body live thawed, held, entryOf]

/-! ### What the check gathers -/

def DivergenceKind.ofView : DivergenceKind → Bool
  | staleView => true
  | missingView => true
  | orphanView => true
  | _ => false

/-- A sidecar whose file the check counts as held back. -/
def held (claim : Option OriginState) (filename : String) : Bool :=
  (readListedSidecar shared store filename).any fun sc =>
    denylist.fileDenied pep pkg filename || suppressed store claim filename sc

def entry (claim : Option OriginState) (filename : String) : Option FileMetadata :=
  (readListedSidecar shared store filename).bind fun sc =>
    if denylist.fileDenied pep pkg filename || suppressed store claim filename sc then none
    else some (entryOf shared store filename sc)

/-- What one artifact adds to the check. -/
structure Gathered (claim : Option OriginState) (acc next : Checked)
    (artifacts : List (Sigma fun _ : String => Bytes)) : Prop where
  files : next.files = acc.files ++ artifacts.filterMap fun artifact =>
    entry shared pep denylist pkg store claim artifact.1
  suppressed : next.suppressed = acc.suppressed + artifacts.countP fun artifact =>
    held shared pep denylist pkg store claim artifact.1
  comparable : next.comparable = acc.comparable
  divs : ∀ div ∈ next.divs, div ∈ acc.divs ∨ div.kind.ofView = false
  attested : ∀ item ∈ next.attested, item ∈ acc.attested ∨
    ∃ artifact ∈ artifacts, item.1 = artifact.1 ∧ item.2.2 = artifact.2.length

variable {shared pep denylist pkg store} in
theorem Gathered.trans {claim : Option OriginState} {acc next last : Checked}
    {first rest : List (Sigma fun _ : String => Bytes)}
    (one : Gathered shared pep denylist pkg store claim acc next first)
    (two : Gathered shared pep denylist pkg store claim next last rest) :
    Gathered shared pep denylist pkg store claim acc last (first ++ rest) where
  files := by rw [two.files, one.files, List.filterMap_append, List.append_assoc]
  suppressed := by rw [two.suppressed, one.suppressed, List.countP_append, Nat.add_assoc]
  comparable := two.comparable.trans one.comparable
  divs := by
    intro div member
    obtain earlier | other := two.divs div member
    · exact one.divs div earlier
    · exact .inr other
  attested := by
    intro item member
    obtain earlier | ⟨artifact, there, same⟩ := two.attested item member
    · obtain before | ⟨artifact, there, same⟩ := one.attested item earlier
      · exact .inl before
      · exact .inr ⟨artifact, List.mem_append_left _ there, same⟩
    · exact .inr ⟨artifact, List.mem_append_right _ there, same⟩

omit shared in
/-- Comparing lengths, or leaving the body to be hashed, counts nothing. -/
theorem measured (deep : Bool) (acc : Checked) (artifact : Sigma fun _ : String => Bytes)
    (sc : Sidecar) :
    ∃ mid : Checked,
      (if artifact.2.length ≠ sc.size then
          { acc with divs := acc.divs ++ [⟨.sizeMismatch, artifact.1⟩] }
        else if deep then
          { acc with attested := acc.attested ++ [(artifact.1, sc.sha256, sc.size)] }
        else acc) = mid ∧
      mid.files = acc.files ∧ mid.suppressed = acc.suppressed ∧ mid.comparable = acc.comparable ∧
      (∀ div ∈ mid.divs, div ∈ acc.divs ∨ div.kind.ofView = false) ∧
      ∀ item ∈ mid.attested, item ∈ acc.attested ∨
        item.1 = artifact.1 ∧ item.2.2 = artifact.2.length := by
  refine ⟨_, rfl, ?_⟩
  split
  next =>
    refine ⟨rfl, rfl, rfl, fun div member => ?_, fun item => .inl⟩
    obtain earlier | here := List.mem_append.mp member
    · exact .inl earlier
    · rw [List.mem_singleton.mp here]
      exact .inr rfl
  next size =>
    split
    next =>
      refine ⟨rfl, rfl, rfl, fun div => .inl, fun item member => ?_⟩
      obtain earlier | here := List.mem_append.mp member
      · exact .inl earlier
      · rw [List.mem_singleton.mp here]
        exact .inr ⟨rfl, (not_not.mp size).symm⟩
    next => exact ⟨rfl, rfl, rfl, fun div => .inl, fun item => .inl⟩

theorem checkArtifact_gathers (deep : Bool) (claim : Option OriginState) (acc : Checked)
    (artifact : Sigma fun _ : String => Bytes)
    (typed : artifact.1 ++ sidecarSuffix ∈ store.objects) :
    Gathered shared pep denylist pkg store claim acc
      (checkArtifact shared pep denylist deep pkg store claim acc artifact.1 artifact.2.length)
      [artifact] := by
  obtain ⟨bytes, found⟩ := KeyedMap.lookup_of_mem typed
  have reads : readListedSidecar shared store artifact.1 = shared.sidecar bytes := by
    unfold readListedSidecar
    rw [found]
    rfl
  unfold checkArtifact
  rw [found]
  dsimp only
  cases parsed : shared.sidecar bytes with
  | none =>
      rw [parsed] at reads
      constructor
      · simp [entry, reads]
      · simp [held, reads]
      · rfl
      · intro div member
        obtain earlier | here := List.mem_append.mp member
        · exact .inl earlier
        · rw [List.mem_singleton.mp here]
          exact .inr rfl
      · exact fun item member => .inl member
  | some sc =>
      rw [parsed] at reads
      dsimp only
      rw [marked_contains]
      obtain ⟨mid, eq, files, suppressed_eq, comparable, divs, attested⟩ :=
        measured deep acc artifact sc
      rw [eq]
      have attested' : ∀ item ∈ mid.attested, item ∈ acc.attested ∨ ∃ other ∈ [artifact],
          item.1 = other.1 ∧ item.2.2 = other.2.length := fun item member =>
        (attested item member).imp_right fun same => ⟨artifact, List.mem_singleton.mpr rfl, same⟩
      split
      next left_out =>
        have none : entry shared pep denylist pkg store claim artifact.1 = none := by
          unfold entry
          rw [reads]
          exact if_pos left_out
        have counted : held shared pep denylist pkg store claim artifact.1 = true := by
          unfold held
          rw [reads]
          exact left_out
        constructor
        · simp [none, files]
        · simp [counted, suppressed_eq]
        · exact comparable
        · exact divs
        · exact attested'
      next shown =>
        have some : entry shared pep denylist pkg store claim artifact.1 =
            some (entryOf shared store artifact.1 sc) := by
          unfold entry
          rw [reads]
          exact if_neg shown
        have uncounted : held shared pep denylist pkg store claim artifact.1 = false := by
          unfold held
          rw [reads]
          exact Bool.eq_false_iff.mpr shown
        constructor
        · simp [some, files, entryOf]
        · simp [uncounted, suppressed_eq]
        · exact comparable
        · exact divs
        · exact attested'

theorem gathers (deep : Bool) (claim : Option OriginState)
    (artifacts : List (Sigma fun _ : String => Bytes))
    (typed : ∀ artifact ∈ artifacts, artifact.1 ++ sidecarSuffix ∈ store.objects) (acc : Checked) :
    Gathered shared pep denylist pkg store claim acc
      (artifacts.foldl (fun acc artifact => checkArtifact shared pep denylist deep pkg store claim acc
        artifact.1 artifact.2.length) acc) artifacts := by
  induction artifacts generalizing acc with
  | nil =>
      constructor
      · simp
      · simp
      · rfl
      · exact fun div => .inl
      · exact fun item => .inl
  | cons artifact rest ih =>
      have one := checkArtifact_gathers shared pep denylist pkg store deep claim acc artifact
        (typed artifact List.mem_cons_self)
      exact one.trans (ih (fun other member => typed other (List.mem_cons_of_mem _ member)) _)

/-- Every body that was measured can be hashed. -/
theorem rehashBodies_total (attested : List (String × String × ℕ))
    (there : ∀ item ∈ attested, ∃ body, store.objects.lookup item.1 = some body ∧
      body.length = item.2.2) :
    ∃ divs, rehashBodies shared store attested = some divs ∧
      ∀ div ∈ divs, div.kind.ofView = false := by
  induction attested with
  | nil => exact ⟨[], rfl, fun div member => by cases member⟩
  | cons item rest ih =>
      obtain ⟨divs, rehashed, other⟩ := ih fun next member => there next (List.mem_cons_of_mem _ member)
      obtain ⟨body, found, size⟩ := there item List.mem_cons_self
      have one : ∃ first, rehashBody shared store item = some first ∧
          ∀ div ∈ first, div.kind.ofView = false := by
        obtain ⟨filename, published, length⟩ := item
        unfold rehashBody
        dsimp only at found size ⊢
        rw [found]
        dsimp only
        rw [if_neg (not_not.mpr size)]
        split
        · refine ⟨_, rfl, fun div member => ?_⟩
          rw [List.mem_singleton.mp member]
          rfl
        · exact ⟨[], rfl, fun div member => by cases member⟩
      obtain ⟨first, hashed, kinds⟩ := one
      refine ⟨first ++ divs, ?_, fun div member => ?_⟩
      · unfold rehashBodies at rehashed ⊢
        rw [List.mapM_cons, hashed]
        cases all : rest.mapM (rehashBody shared store) with
        | none => rw [all] at rehashed; cases rehashed
        | some lists =>
            rw [all] at rehashed
            cases rehashed
            simp
      · exact (List.mem_append.mp member).elim (kinds div) (other div)

/-! ### The same files -/

/-- No supersede is under way, and every body has a sidecar. -/
structure Quiet : Prop where
  typed : ∀ filename ∈ store.names, isArtifact filename = true →
    filename ++ sidecarSuffix ∈ store.objects
  settled : ∀ name ∈ store.names,
    (stripSuffix (suffixText .superseding) name).all (fun filename => !isArtifact filename) = true

variable {store}

theorem expected_eq (quiet : Quiet store) {filename : String} (stored : filename ∈ store.objects) :
    expected store.objects.keys filename =
      (!filename.toList.contains '/' && isArtifact filename && !fenced store filename) := by
  unfold expected fenced
  rw [marked_contains, marked_contains, marked_contains]
  cases flat : filename.toList.contains '/' with
  | true => simp
  | false =>
      cases artifact : isArtifact filename with
      | false => simp
      | true =>
          have typed := quiet.typed filename (mem_names.mpr ⟨stored, flat⟩) artifact
          have sidecar : filename ++ sidecarSuffix ∈ store.objects.keys := AList.mem_keys.mp typed
          simp [sidecar]

/-- The files that the rebuild indexes are those that the check gathers. -/
theorem files_eq (quiet : Quiet store) (claim : Option OriginState) :
    (((store.names.filter isArtifact).filterMap
        (loadFileMetadata shared backfill store (claim.bind Origin.ofState))).filter
        fun file => !denylist.fileDenied pep pkg file.filename) =
      (store.objects.entries.filter fun artifact => expected store.objects.keys artifact.1).filterMap
        fun artifact => entry shared pep denylist pkg store claim artifact.1 := by
  have keys : store.objects.keys = store.objects.entries.map Sigma.fst := rfl
  unfold Store.names
  rw [keys, List.filter_map, List.filter_map, List.filterMap_map, List.filter_filterMap,
    List.filter_filter, List.filterMap_filter, List.filterMap_filter]
  refine List.filterMap_congr fun artifact member => ?_
  have stored : artifact.1 ∈ store.objects := AList.mem_keys.mpr (List.mem_map_of_mem member)
  have expects := expected_eq quiet stored
  dsimp only [Function.comp]
  rw [keys] at expects
  rw [expects]
  by_cases flat : artifact.1.toList.contains '/' = true
  · simp only [flat, Bool.not_true, Bool.and_false, Bool.false_and, Bool.false_eq_true, if_false]
  by_cases named : isArtifact artifact.1 = true
  · have flat := Bool.eq_false_iff.mpr flat
    have typed := quiet.typed artifact.1 (mem_names.mpr ⟨stored, flat⟩) named
    rw [load_eq shared backfill store flat stored typed claim]
    simp only [flat, named, Bool.not_false, Bool.true_and, Bool.and_true]
    by_cases marks : fenced store artifact.1 = true
    · simp [marks]
    unfold entry
    cases read : readListedSidecar shared store artifact.1 with
    | none => simp
    | some sc =>
        have name : (entryOf shared store artifact.1 sc).filename = artifact.1 := rfl
        by_cases late : suppressed store claim artifact.1 sc = true <;>
          by_cases denied : denylist.fileDenied pep pkg artifact.1 = true <;>
            simp [marks, name, late, denied]
  · simp [named]

theorem mem_artifacts (quiet : Quiet store) {filename : String} :
    (∃ artifact ∈ store.objects.entries.filter fun artifact =>
        expected store.objects.keys artifact.1, artifact.1 = filename) ↔
      filename ∈ store.names ∧ isArtifact filename = true ∧ fenced store filename = false := by
  constructor
  · rintro ⟨artifact, member, rfl⟩
    obtain ⟨member, expects⟩ := List.mem_filter.mp member
    have stored : artifact.1 ∈ store.objects := AList.mem_keys.mpr (List.mem_map_of_mem member)
    rw [expected_eq quiet stored] at expects
    simp only [Bool.and_eq_true, Bool.not_eq_true'] at expects
    exact ⟨mem_names.mpr ⟨stored, expects.1.1⟩, expects.1.2, expects.2⟩
  · rintro ⟨member, named, unfenced⟩
    obtain ⟨stored, flat⟩ := mem_names.mp member
    obtain ⟨artifact, there, rfl⟩ := List.mem_map.mp (AList.mem_keys.mp stored)
    refine ⟨artifact, List.mem_filter.mpr ⟨there, ?_⟩, rfl⟩
    rw [expected_eq quiet stored, flat, named, unfenced]
    rfl

/-! ### Agreement -/

variable (store) in
/-- A body that is listed and not denied. -/
structure Renderable (claim : Option OriginState) (filename : String) : Prop where
  stored : filename ∈ store.names
  named : isArtifact filename = true
  allowed : denylist.fileDenied pep pkg filename = false
  listed : ∃ sc, readListedSidecar shared store filename = some sc ∧
    Publish.listed (Record.fromListing (has store.names filename) (some sc)
      (claim.bind Origin.ofState)) (claim.bind Origin.ofState) = true

variable (store) in
/-- A body that no marker fences and whose sidecar does not parse. -/
structure Unreadable (filename : String) : Prop where
  stored : filename ∈ store.names
  named : isArtifact filename = true
  unfenced : Publish.fencedByMarkers (has store.names filename .tombstone)
    (has store.names filename .frozen) = false
  corrupt : readListedSidecar shared store filename = none

theorem unreadable_iff {filename : String} : Unreadable shared store filename ↔
    (filename ∈ store.names ∧ isArtifact filename = true ∧ fenced store filename = false) ∧
      readListedSidecar shared store filename = none := by
  constructor
  · rintro ⟨stored, named, unfenced, corrupt⟩
    rw [fencedByMarkers_eq, has_names (mem_names.mp stored).2, has_names (mem_names.mp stored).2]
      at unfenced
    exact ⟨⟨stored, named, unfenced⟩, corrupt⟩
  · rintro ⟨⟨stored, named, unfenced⟩, corrupt⟩
    refine ⟨stored, named, ?_, corrupt⟩
    rw [fencedByMarkers_eq, has_names (mem_names.mp stored).2, has_names (mem_names.mp stored).2]
    exact unfenced

theorem renderable_iff {claim : Option OriginState} {filename : String} :
    Renderable shared pep denylist pkg store claim filename ↔
      (filename ∈ store.names ∧ isArtifact filename = true ∧ fenced store filename = false) ∧
        (entry shared pep denylist pkg store claim filename).isSome = true := by
  have same (stored : filename ∈ store.names) :
      has store.names filename = has store.objects.keys filename :=
    funext fun suffix => has_names (mem_names.mp stored).2 suffix
  have body (stored : filename ∈ store.names) : has store.objects.keys filename .body = true := by
    unfold has
    rw [List.contains_iff_mem, ← AList.mem_keys, suffixText, String.append_empty]
    exact (mem_names.mp stored).1
  constructor
  · rintro ⟨stored, named, allowed, sc, read, lists⟩
    rw [same stored] at lists
    have unfenced : fenced store filename = false := by
      by_contra marks
      have unlisted := (classify_fenced (Bool.not_eq_false _ ▸ marks) (some sc)
        (claim.bind Origin.ofState)).2
      cases unlisted.symm.trans lists
    obtain ⟨live, thawed⟩ := Bool.or_eq_false_iff.mp unfenced
    rw [listed_eq (body stored) live thawed] at lists
    refine ⟨⟨stored, named, unfenced⟩, ?_⟩
    unfold entry suppressed
    simp only [read, Option.bind_some, allowed, Bool.false_or]
    simp only [Bool.not_eq_true'] at lists
    simp [lists]
  · rintro ⟨⟨stored, named, unfenced⟩, shown⟩
    unfold entry at shown
    cases read : readListedSidecar shared store filename with
    | none => simp [read] at shown
    | some sc =>
        obtain ⟨live, thawed⟩ := Bool.or_eq_false_iff.mp unfenced
        by_cases left_out : (denylist.fileDenied pep pkg filename ||
            suppressed store claim filename sc) = true
        · rw [read, Option.bind_some, if_pos left_out] at shown
          cases shown
        · obtain ⟨allowed, untouched⟩ := Bool.or_eq_false_iff.mp (Bool.eq_false_iff.mpr left_out)
          refine ⟨stored, named, allowed, sc, read, ?_⟩
          rw [same stored, listed_eq (body stored) live thawed]
          exact (Bool.not_eq_true' _).mpr untouched

/-- What is not held back is indexed, or does not parse. -/
theorem held_eq_false {claim : Option OriginState} {filename : String} :
    held shared pep denylist pkg store claim filename = false ↔
      readListedSidecar shared store filename = none ∨
        (entry shared pep denylist pkg store claim filename).isSome = true := by
  unfold held entry
  cases readListedSidecar shared store filename with
  | none => simp
  | some sc =>
      rw [Option.any_some, Option.bind_some]
      cases denylist.fileDenied pep pkg filename || suppressed store claim filename sc <;> simp

/-- The check's findings beside the views, which are of other kinds. -/
theorem checkPackage_eq (quiet : Quiet store) (deep : Bool) {claim : Option OriginState}
    (claimed : readOriginClaim shared store = some claim) {artifacts}
    (listed : (store.objects.entries.filter fun artifact =>
      expected store.objects.keys artifact.1) = artifacts) :
    ∃ divs : List Divergence, (∀ div ∈ divs, div.kind.ofView = false) ∧
      checkPackage shared pep denylist deep pkg store =
        if ∃ artifact ∈ artifacts, held shared pep denylist pkg store claim artifact.1 = false then do
          let status ← readStatus shared store
          let views := rendered shared pkg (artifacts.filterMap fun artifact =>
            entry shared pep denylist pkg store claim artifact.1) status
          some (true, divs ++ (compareView "index.html" views.1 store.views.html ++
            compareView "index.json" views.2 store.views.json))
        else some (false, divs ++ (orphanView "index.html" store.views.html ++
          orphanView "index.json" store.views.json)) := by
  have inside {artifact} (member : artifact ∈ artifacts) :
      artifact ∈ store.objects.entries ∧ expected store.objects.keys artifact.1 = true := by
    rw [← listed] at member
    exact List.mem_filter.mp member
  have typed : ∀ artifact ∈ artifacts, artifact.1 ++ sidecarSuffix ∈ store.objects := by
    intro artifact member
    obtain ⟨stored, named, _⟩ := (mem_artifacts quiet).mp
      ⟨artifact, List.mem_filter.mpr (inside member), rfl⟩
    exact quiet.typed artifact.1 stored named
  obtain ⟨dir, named⟩ : ∃ dir : List Divergence,
      (if normalizePkgName pkg ≠ pkg then [⟨.badPackageDir, pkg⟩] else []) = dir := ⟨_, rfl⟩
  have gathered := gathers shared pep denylist pkg store deep claim artifacts typed
    ⟨dir, [], true, 0, []⟩
  obtain ⟨checked, run⟩ : ∃ checked, artifacts.foldl (fun acc artifact => checkArtifact shared pep
    denylist deep pkg store claim acc artifact.1 artifact.2.length) ⟨dir, [], true, 0, []⟩ =
      checked := ⟨_, rfl⟩
  rw [run] at gathered
  obtain ⟨rehashed, hashed, kinds⟩ := rehashBodies_total shared store checked.attested (by
    intro item member
    obtain none | ⟨artifact, there, name, size⟩ := gathered.attested item member
    · cases none
    · exact ⟨artifact.2, name ▸ AList.mem_lookup_iff.mpr (inside there).1, size.symm⟩)
  refine ⟨checked.divs ++ rehashed, ?_, ?_⟩
  · intro div member
    obtain earlier | later := List.mem_append.mp member
    · obtain before | other := gathered.divs div earlier
      · rw [← named] at before
        split at before
        · rw [List.mem_singleton.mp before]
          rfl
        · cases before
      · exact other
    · exact kinds div later
  have files : checked.files = artifacts.filterMap fun artifact =>
      entry shared pep denylist pkg store claim artifact.1 := by
    rw [gathered.files, List.nil_append]
  have comparable : checked.comparable = true := gathered.comparable
  have counted : checked.suppressed < artifacts.length ↔ ∃ artifact ∈ artifacts,
      held shared pep denylist pkg store claim artifact.1 = false := by
    rw [gathered.suppressed, Nat.zero_add, List.countP_lt_length_iff]
  unfold checkPackage
  simp only [claimed, listed, named, run, hashed, Option.bind_eq_bind, Option.bind_some, files,
    comparable, Bool.and_true]
  by_cases shows : ∃ artifact ∈ artifacts, held shared pep denylist pkg store claim artifact.1 = false
  · rw [if_pos shows]
    simp only [counted.mpr shows, decide_true, if_true, List.append_nil, List.append_assoc]
  · rw [if_neg shows]
    simp only [counted.not.mpr shows, decide_false, Bool.false_eq_true, if_false, List.append_nil,
      List.append_assoc]

theorem rebuildPackage_eq (quiet : Quiet store) {claim : Option OriginState}
    (claimed : readOriginClaim shared store = some claim) {artifacts}
    (listed : (store.objects.entries.filter fun artifact =>
      expected store.objects.keys artifact.1) = artifacts) :
    rebuildPackage shared pep backfill denylist pkg store =
      let files := artifacts.filterMap fun artifact =>
        entry shared pep denylist pkg store claim artifact.1
      if files ≠ [] then do
        let status ← readStatus shared store
        let views := rendered shared pkg files status
        some (⟨some views.1, some views.2⟩, true)
      else some (⟨none, none⟩, false) := by
  unfold rebuildPackage listArtifactsForClaim
  simp only [claimed, Option.bind_eq_bind, Option.bind_some, files_eq shared pep backfill denylist pkg
    quiet claim, listed]

/-- Both pipelines fail, or they find the same liveness and the check finds nothing
about the views exactly when the rebuild leaves them as they are. -/
def Agrees (store : Store) : Option (Bool × List Divergence) → Option (Views × Bool) → Prop
  | none, none => True
  | some (hasArtifacts, divs), some (views, live) =>
      hasArtifacts = live ∧ ((∀ div ∈ divs, div.kind.ofView = false) ↔ views = store.views)
  | _, _ => False

theorem compareView_quiet {suffix : String} {expected : Bytes} {actual : Option Bytes} :
    (∀ div ∈ compareView suffix expected actual, div.kind.ofView = false) ↔
      some expected = actual := by
  cases actual with
  | none => simp [compareView, DivergenceKind.ofView]
  | some actual =>
      by_cases same : actual = expected
      · simp [compareView, same]
      · simp [compareView, same, Ne.symm same, DivergenceKind.ofView]

theorem orphanView_quiet {suffix : String} {actual : Option Bytes} :
    (∀ div ∈ orphanView suffix actual, div.kind.ofView = false) ↔ none = actual := by
  cases actual <;> simp [orphanView, DivergenceKind.ofView]

/-- Findings about the two views beside others, against the views a rebuild leaves. -/
theorem views_quiet {divs html json : List Divergence} {left right : Option Bytes} {views : Views}
    (kinds : ∀ div ∈ divs, div.kind.ofView = false)
    (htmlQuiet : (∀ div ∈ html, div.kind.ofView = false) ↔ left = views.html)
    (jsonQuiet : (∀ div ∈ json, div.kind.ofView = false) ↔ right = views.json) :
    (∀ div ∈ divs ++ (html ++ json), div.kind.ofView = false) ↔ (⟨left, right⟩ : Views) = views := by
  simp only [List.mem_append]
  constructor
  · intro all
    have first := htmlQuiet.mp fun div member => all div (.inr (.inl member))
    have second := jsonQuiet.mp fun div member => all div (.inr (.inr member))
    rw [first, second]
  · rintro rfl
    rintro div (other | member | member)
    · exact kinds div other
    · exact htmlQuiet.mpr rfl div member
    · exact jsonQuiet.mpr rfl div member

/-- The check and the rebuild agree exactly when some body is listed and not denied,
or no unfenced body has a sidecar that does not parse. -/
theorem check_agrees_iff (quiet : Quiet store) (deep : Bool) :
    Agrees store (checkPackage shared pep denylist deep pkg store)
        (rebuildPackage shared pep backfill denylist pkg store) ↔
      ∀ claim, readOriginClaim shared store = some claim →
        (∃ filename, Renderable shared pep denylist pkg store claim filename) ∨
          ∀ filename, ¬ Unreadable shared store filename := by
  cases claimed : readOriginClaim shared store with
  | none =>
      simp [Agrees, checkPackage, rebuildPackage, listArtifactsForClaim, claimed]
  | some claim =>
      obtain ⟨artifacts, listed⟩ : ∃ artifacts, (store.objects.entries.filter fun artifact =>
        expected store.objects.keys artifact.1) = artifacts := ⟨_, rfl⟩
      obtain ⟨divs, kinds, checks⟩ := checkPackage_eq shared pep denylist pkg quiet deep claimed listed
      have rebuilds := rebuildPackage_eq shared pep backfill denylist pkg quiet claimed listed
      have at_file {filename : String} : (∃ artifact ∈ artifacts, artifact.1 = filename) ↔
          filename ∈ store.names ∧ isArtifact filename = true ∧ fenced store filename = false := by
        rw [← listed]
        exact mem_artifacts quiet
      rw [checks, rebuilds]
      dsimp only
      by_cases empty : (artifacts.filterMap fun artifact =>
          entry shared pep denylist pkg store claim artifact.1) = []
      · rw [if_neg (not_not.mpr empty)]
        have entries := List.filterMap_eq_nil_iff.mp empty
        have unrendered : ¬ ∃ filename,
            Renderable shared pep denylist pkg store claim filename := by
          rintro ⟨filename, renderable⟩
          obtain ⟨there, shown⟩ := renderable_iff shared pep denylist pkg |>.mp renderable
          obtain ⟨artifact, member, rfl⟩ := at_file.mpr there
          rw [entries artifact member] at shown
          cases shown
        -- Nothing is indexed: an artifact that is not held back is one that does not parse.
        have shows : (∃ artifact ∈ artifacts,
            held shared pep denylist pkg store claim artifact.1 = false) ↔
              ∃ filename, Unreadable shared store filename := by
          constructor
          · rintro ⟨artifact, member, free⟩
            refine ⟨artifact.1, (unreadable_iff shared).mpr ⟨at_file.mp ⟨artifact, member, rfl⟩, ?_⟩⟩
            refine ((held_eq_false shared pep denylist pkg).mp free).resolve_right fun shown => ?_
            rw [entries artifact member] at shown
            cases shown
          · rintro ⟨filename, unreadable⟩
            obtain ⟨there, corrupt⟩ := (unreadable_iff shared).mp unreadable
            obtain ⟨artifact, member, rfl⟩ := at_file.mpr there
            exact ⟨artifact, member, (held_eq_false shared pep denylist pkg).mpr (.inl corrupt)⟩
        by_cases corrupt : ∃ filename, Unreadable shared store filename
        · rw [if_pos (shows.mpr corrupt)]
          have disagrees : ¬ Agrees store (do
              let status ← readStatus shared store
              let views := rendered shared pkg (artifacts.filterMap fun artifact =>
                entry shared pep denylist pkg store claim artifact.1) status
              some (true, divs ++ (compareView "index.html" views.1 store.views.html ++
                compareView "index.json" views.2 store.views.json))) (some (⟨none, none⟩, false)) := by
            cases readStatus shared store with
            | none => exact id
            | some status => exact fun agrees => Bool.noConfusion agrees.1
          refine iff_of_false disagrees fun holds => ?_
          obtain shown | readable := holds claim rfl
          · exact unrendered shown
          · exact corrupt.elim readable
        · rw [if_neg (shows.not.mpr corrupt)]
          refine iff_of_true ⟨rfl, views_quiet kinds orphanView_quiet orphanView_quiet⟩ ?_
          exact fun _ _ => .inr fun filename unreadable => corrupt ⟨filename, unreadable⟩
      · rw [if_pos empty]
        obtain ⟨file, member⟩ := List.exists_mem_of_ne_nil _ empty
        obtain ⟨artifact, there, shown⟩ := List.mem_filterMap.mp member
        have some : (entry shared pep denylist pkg store claim artifact.1).isSome = true := by
          rw [shown]
          rfl
        have free := (held_eq_false shared pep denylist pkg).mpr (.inr some)
        rw [if_pos ⟨artifact, there, free⟩]
        have renderable : Renderable shared pep denylist pkg store claim artifact.1 :=
          (renderable_iff shared pep denylist pkg).mpr
            ⟨at_file.mp ⟨artifact, there, rfl⟩, some⟩
        refine iff_of_true ?_ fun other same => ?_
        · cases readStatus shared store with
          | none => trivial
          | some status => exact ⟨rfl, views_quiet kinds compareView_quiet compareView_quiet⟩
        · cases same
          exact .inl ⟨artifact.1, renderable⟩

end

/-- Parsers that know one sidecar and no claim or status, and renderers that count. -/
def counting : Shared where
  sidecar := fun bytes => if bytes = [1] then
    some ⟨"", 1, "1", "", none, none, .flag false, some "private", 0, 0, false, none⟩ else none
  status := fun _ => none
  claim := fun _ => none
  sha256 := fun _ => ""
  pep503ProjectHtml := fun _ files _ => files.map fun _ => 1
  pep691ProjectJson := fun _ files _ => files.map fun _ => 2

def unversioned : Pep440 Unit Unit := ⟨fun _ => "", fun _ _ => false, fun _ => none⟩

/-- A package of one wheel, whose sidecar and views are as given. -/
def oneWheel (sidecar : Bytes) (views : Views) : Store where
  objects := ⟨[⟨"pkg-1.whl", [7]⟩, ⟨"pkg-1.whl.meta.json", sidecar⟩], by
    change ["pkg-1.whl", "pkg-1.whl.meta.json"].Nodup
    decide⟩
  views := views

theorem listed_agrees : Agrees (oneWheel [1] ⟨none, some [2]⟩)
    (checkPackage counting unversioned ⟨∅⟩ true "pkg" (oneWheel [1] ⟨none, some [2]⟩))
    (rebuildPackage counting unversioned (fun _ => none) ⟨∅⟩ "pkg"
      (oneWheel [1] ⟨none, some [2]⟩)) := by
  have quiet : Quiet (oneWheel [1] ⟨none, some [2]⟩) := by
    constructor <;> decide +kernel
  refine (check_agrees_iff counting unversioned (fun _ => none) ⟨∅⟩ "pkg" quiet true).mpr ?_
  intro claim claimed
  obtain rfl : none = claim := Option.some.inj claimed
  refine .inl ⟨"pkg-1.whl", ?_⟩
  constructor
  · decide +kernel
  · decide +kernel
  · rfl
  · exact ⟨_, rfl, by decide +kernel⟩

/-- A sidecar that does not parse, and nothing else: the check expects a page with
no files, and the rebuild leaves none. -/
theorem corrupt_disagrees : ¬ Agrees (oneWheel [0] ⟨none, none⟩)
    (checkPackage counting unversioned ⟨∅⟩ false "pkg" (oneWheel [0] ⟨none, none⟩))
    (rebuildPackage counting unversioned (fun _ => none) ⟨∅⟩ "pkg"
      (oneWheel [0] ⟨none, none⟩)) := by
  have checks : checkPackage counting unversioned ⟨∅⟩ false "pkg" (oneWheel [0] ⟨none, none⟩) =
      some (true, [⟨.corruptSidecar, "pkg-1.whl"⟩, ⟨.missingView, "index.html"⟩,
        ⟨.missingView, "index.json"⟩]) := by decide +kernel
  have rebuilds : rebuildPackage counting unversioned (fun _ => none) ⟨∅⟩ "pkg"
      (oneWheel [0] ⟨none, none⟩) = some (⟨none, none⟩, false) := by decide +kernel
  rw [checks, rebuilds]
  exact fun agrees => Bool.noConfusion agrees.1

end Pypiron.VerifyIndex
