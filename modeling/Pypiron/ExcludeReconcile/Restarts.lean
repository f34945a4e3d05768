import Mathlib.Data.Finset.Card
import Pypiron.ExcludeReconcile

/-! When views hide what the running denylist denies, over runs of many processes. -/
namespace Pypiron.ExcludeReconcile
open KeyedMap

variable {S V : Type} {pep : Pep440 S V}

/-! ### Changed names -/

theorem mem_canonical {denylist : Denylist S} {name : String} :
    name ∈ denylist.canonical pep ↔ name ∈ denylist.deny := by
  have fold (entries : List (Sigma fun _ : String => List (Option S))) (out : Stamp) :
      name ∈ entries.foldl (fun out entry => out.insert entry.1 (canonicalSpecs pep entry.2)) out ↔
        name ∈ out ∨ name ∈ entries.keys := by
    induction entries generalizing out with
    | nil => simp
    | cons entry rest ih =>
        rw [List.foldl_cons, ih, AList.mem_insert, List.keys_cons, List.mem_cons]
        tauto
  unfold Denylist.canonical
  rw [fold]
  exact or_iff_right (AList.notMem_empty name)

/-- A first pass marks every name that has an entry on either side. -/
theorem mem_changedNames {current previous : Stamp} {name : String} :
    name ∈ changedNames true current previous ↔ name ∈ current ∨ name ∈ previous := by
  unfold changedNames
  simp only [List.mem_dedup, List.mem_append, List.mem_filter, if_true, AList.mem_keys]
  constructor
  · rintro ((there | ⟨there, _⟩) | ⟨there, _⟩)
    · exact .inl there
    · exact .inl there
    · exact .inr there
  · intro named
    by_cases here : name ∈ current.keys
    · exact .inl (.inl here)
    · have there := named.resolve_left here
      obtain ⟨specs, found⟩ := lookup_of_mem (AList.mem_keys.mpr there)
      have gone : current.lookup name = none := AList.lookup_eq_none.mpr (AList.mem_keys.not.mpr here)
      exact .inr ⟨there, by simp [gone, found]⟩

theorem same_empty {current previous : Stamp} (same : current.same previous = true)
    (empty : current.keys = []) (name : String) : name ∉ current ∧ name ∉ previous := by
  have absent : name ∉ current := by
    rw [AList.mem_keys, empty]
    exact List.not_mem_nil
  refine ⟨absent, fun there => ?_⟩
  unfold Stamp.same at same
  have alike := List.all_eq_true.mp same name (List.mem_append_right _ there)
  obtain ⟨specs, found⟩ := lookup_of_mem there
  have gone : current.lookup name = none := AList.lookup_eq_none.mpr absent
  simp [gone, found] at alike

/-! ### One process -/

variable (pep) in
/-- The package waits for a tick, or hides what the running denylist denies. -/
def Correct (s : State S) (pkg : String) : Prop := pkg ∈ s.dirty ∨ s.views pkg = s.listed pep pkg

variable (pep) in
/-- How far a reconcile has covered the packages. -/
def Progress (s : State S) : Prop :=
  match s.reconcile with
  | .waiting => True
  | .dropping _ names _ => ∀ pkg, pkg ∈ names ∨ Correct pep s pkg
  | .marking _ left => ∀ pkg, pkg ∈ left ∨ Correct pep s pkg
  | .done => ∀ pkg, Correct pep s pkg

variable (pep) in
/-- A process that has only to reconcile what its denylist or the stamp names. -/
structure Sound (s : State S) (denylist : Denylist S) : Prop where
  running : s.denylist = some denylist
  unnamed : ∀ pkg, pkg ∉ denylist.deny → pkg ∉ s.stamp.getD ∅ → Correct pep s pkg
  progress : Progress pep s

section
variable {s s' : State S} {denylist : Denylist S}

theorem Correct.rebuild {pkg : String} (correct : Correct pep s pkg) (other : String) :
    Correct pep (rebuildPackage pep other s) pkg := by
  obtain marked | listed := correct
  · exact .inl marked
  · right
    unfold rebuildPackage
    dsimp only
    by_cases same : pkg = other
    · rw [same, Function.update_self]
      rfl
    · rw [Function.update_of_ne same]
      exact listed

theorem rebuilt_listed (pkg : String) (s : State S) :
    (rebuildPackage pep pkg s).views pkg = (rebuildPackage pep pkg s).listed pep pkg := by
  unfold rebuildPackage
  exact Function.update_self ..

/-- An event between the calls of a reconcile only has to keep what is correct. -/
theorem Sound.kept (sound : Sound pep s denylist) (running : s'.denylist = s.denylist)
    (stamp : s'.stamp = s.stamp) (reconcile : s'.reconcile = s.reconcile)
    (keeps : ∀ pkg, Correct pep s pkg → Correct pep s' pkg) : Sound pep s' denylist := by
  refine ⟨running.trans sound.running, fun pkg absent unstamped => ?_, ?_⟩
  · rw [stamp] at unstamped
    exact keeps pkg (sound.unnamed pkg absent unstamped)
  · have progress := sound.progress
    unfold Progress at progress ⊢
    rw [reconcile]
    split
    next => trivial
    next at_phase =>
      rw [at_phase] at progress
      exact fun pkg => (progress pkg).imp_right (keeps pkg)
    next at_phase =>
      rw [at_phase] at progress
      exact fun pkg => (progress pkg).imp_right (keeps pkg)
    next at_phase =>
      rw [at_phase] at progress
      exact fun pkg => keeps pkg (progress pkg)

theorem Sound.mutate (sound : Sound pep s denylist) (pkg : String) (files : List String) :
    Sound pep (step pep s (.mutate pkg files)) denylist := by
  refine sound.kept rfl rfl rfl fun other correct => ?_
  unfold Correct State.listed step
  dsimp only
  by_cases same : other = pkg
  · exact .inl (Finset.mem_insert.mpr (.inl same))
  · rw [Function.update_of_ne same]
    exact correct.imp_left Finset.mem_insert_of_mem

theorem Sound.tick (sound : Sound pep s denylist) (pkg : String) (cut : Bool) :
    Sound pep (ExcludeReconcile.tick pep pkg cut s) denylist := by
  unfold ExcludeReconcile.tick
  split
  next =>
    dsimp only
    split
    next => exact sound.kept rfl rfl rfl fun other correct => correct.rebuild pkg
    next =>
      refine sound.kept rfl rfl rfl fun other correct => ?_
      by_cases same : other = pkg
      · right
        rw [same]
        exact rebuilt_listed pkg s
      · exact (correct.rebuild pkg).imp_left fun marked => Finset.mem_erase.mpr ⟨same, marked⟩
  next => exact sound

theorem Sound.audit (sound : Sound pep s denylist) (pkg : String) (deep : Bool)
    (certificate : Certificate) :
    Sound pep (ExcludeReconcile.audit pep pkg deep certificate s) denylist := by
  unfold ExcludeReconcile.audit
  split
  next => exact sound
  next =>
    cases certificate with
    | recorded => exact sound.kept rfl rfl rfl fun other correct => correct.rebuild pkg
    | deferred => exact sound.kept rfl rfl rfl fun other correct => correct.rebuild pkg
    | refused =>
        exact sound.kept rfl rfl rfl fun other correct =>
          (correct.rebuild pkg).imp_left Finset.mem_insert_of_mem

/-- Once every changed name is marked, the stamp may be written. -/
theorem Sound.call (sound : Sound pep s denylist) :
    Sound pep (reconcileExcludes pep true s) denylist := by
  obtain ⟨files, views, fingerprints, dirty, stamp, _, reconcile⟩ := s
  obtain ⟨running, unnamed, progress⟩ := sound
  obtain rfl : _ = some denylist := running
  have absent {pkg : String} (outside : pkg ∉ denylist.canonical pep ∧ pkg ∉ stamp.getD ∅) :=
    unnamed pkg (mem_canonical.not.mp outside.1) outside.2
  unfold reconcileExcludes
  dsimp only
  cases reconcile with
  | waiting =>
      dsimp only
      split
      next unchanged =>
        simp only [Bool.not_true, Bool.false_or, Bool.and_eq_true, List.isEmpty_iff] at unchanged
        exact ⟨rfl, unnamed, fun pkg => absent (same_empty unchanged.1 unchanged.2 pkg)⟩
      next =>
        refine ⟨rfl, unnamed, fun pkg => ?_⟩
        by_cases marked : pkg ∈ changedNames true (denylist.canonical pep) (stamp.getD ∅)
        · exact .inl marked
        · exact .inr (absent (not_or.mp (mem_changedNames.not.mp marked)))
  | dropping previous names left =>
      cases left with
      | nil => exact ⟨rfl, unnamed, progress⟩
      | cons name left => exact ⟨rfl, unnamed, progress⟩
  | marking previous left =>
      cases left with
      | nil =>
          have all := fun pkg => (progress pkg).resolve_left List.not_mem_nil
          exact ⟨rfl, fun pkg _ _ => all pkg, all⟩
      | cons name left =>
          refine ⟨rfl, fun pkg out unstamped => ?_, fun pkg => ?_⟩
          · exact (unnamed pkg out unstamped).imp_left Finset.mem_insert_of_mem
          · obtain waiting | correct := progress pkg
            · obtain same | later := List.mem_cons.mp waiting
              · exact .inr (.inl (Finset.mem_insert.mpr (.inl same)))
              · exact .inl later
            · exact .inr (correct.imp_left Finset.mem_insert_of_mem)
  | done => exact ⟨rfl, unnamed, progress⟩

theorem Sound.fault (sound : Sound pep s denylist) : Sound pep (step pep s .fault) denylist := by
  unfold step
  dsimp only
  split
  next => exact sound
  next => exact ⟨sound.running, sound.unnamed, trivial⟩

end

/-! ### Runs -/

/-- A process with a denylist starts where no package that neither its denylist
nor the stamp names has a view that hides a file and no marker. -/
def Recovers (s : State S) : Event S → Prop
  | .boot (some denylist) => ∀ pkg, pkg ∉ denylist.deny → pkg ∉ s.stamp.getD ∅ →
      pkg ∈ s.dirty ∨ s.views pkg = s.files pkg
  | _ => True

variable (pep) in
/-- Once the running process has reconciled and no marker stands, every view hides
exactly the files that its denylist denies. -/
def Enforced (s : State S) : Prop :=
  ∀ denylist, s.denylist = some denylist → s.reconcile = .done → s.dirty = ∅ →
    ∀ pkg, s.views pkg = (s.files pkg).filter fun filename => !denylist.fileDenied pep pkg filename

theorem Sound.boot {s : State S} {denylist : Denylist S}
    (recovers : Recovers s (.boot (some denylist))) :
    Sound pep (step pep s (.boot (some denylist))) denylist := by
  refine ⟨rfl, fun pkg absent unstamped => ?_, trivial⟩
  refine (recovers pkg absent unstamped).imp_right fun shown => ?_
  have allowed (filename : String) : denylist.fileDenied pep pkg filename = false := by
    unfold Denylist.fileDenied
    rw [AList.lookup_eq_none.mpr absent]
    rfl
  unfold State.listed step
  simpa [allowed] using shown

/-- Only a boot changes the denylist. -/
theorem step_denylist (s : State S) {event : Event S} (stays : ∀ next, event ≠ .boot next) :
    (step pep s event).denylist = s.denylist := by
  cases event with
  | boot next => exact absurd rfl (stays next)
  | mutate pkg files => rfl
  | call =>
      change (reconcileExcludes pep true s).denylist = s.denylist
      unfold reconcileExcludes
      split
      next => rfl
      next =>
        dsimp only
        split
        next => split <;> rfl
        all_goals rfl
  | fault =>
      unfold step
      dsimp only
      split <;> rfl
  | tick pkg cut =>
      change (tick pep pkg cut s).denylist = s.denylist
      unfold tick
      split
      next => cases cut <;> rfl
      next => rfl
  | audit pkg deep certificate =>
      change (audit pep pkg deep certificate s).denylist = s.denylist
      unfold audit
      split
      next => rfl
      next => cases certificate <;> rfl

theorem sound_run (events : ℕ → Event S)
    (recovers : ∀ n, Recovers (states pep events n) (events n)) (n : ℕ) (denylist : Denylist S)
    (running : (states pep events n).denylist = some denylist) :
    Sound pep (states pep events n) denylist := by
  induction n generalizing denylist with
  | zero => cases running
  | succ n ih =>
      have recover := recovers n
      unfold states at running ⊢
      cases event : events n with
      | boot next =>
          rw [event] at running recover
          obtain rfl : next = some denylist := running
          exact Sound.boot recover
      | _ =>
          rw [event, step_denylist _ (by rintro next ⟨⟩)] at running
          have sound := ih denylist running
          first
          | exact sound.mutate _ _
          | exact sound.call
          | exact sound.fault
          | exact sound.tick _ _
          | exact sound.audit _ _ _

/-- While every process starts with nothing hidden behind its back, every process
that has reconciled enforces its denylist. -/
theorem reconcile_enforces (pep : Pep440 S V) (events : ℕ → Event S)
    (recovers : ∀ n, Recovers (states pep events n) (events n)) (n : ℕ) :
    Enforced pep (states pep events n) := by
  intro denylist running done clean pkg
  have sound := sound_run events recovers n denylist running
  have progress := sound.progress
  unfold Progress at progress
  rw [done] at progress
  obtain marked | listed := progress pkg
  · rw [clean] at marked
    cases marked
  · rw [listed]
    unfold State.listed
    rw [running]
    rfl

/-- A bare entry for one package; its releases are never looked at. -/
def denies (pkg : String) : Denylist Unit := ⟨AList.singleton pkg [none]⟩

def noVersions : Pep440 Unit Unit := ⟨fun _ => "", fun _ _ => false, fun _ => none⟩

/-- A list of events, and then none that a reconciled process takes. -/
def script (events : List (Event Unit)) (n : ℕ) : Event Unit := events[n]?.getD .fault

/-- One process denies a package, and the next no longer does. -/
def deniedThenAllowed : List (Event Unit) :=
  [.boot (some (denies "pkg")), .mutate "pkg" ["pkg-1.whl"], .call, .call, .call, .call, .call,
    .tick "pkg" false, .boot (some ⟨∅⟩), .call, .call, .call, .call, .call, .tick "pkg" false]

theorem allowed_relisted :
    (states noVersions (script deniedThenAllowed) 15).views "pkg" = ["pkg-1.whl"] := by
  have recovers : ∀ n, Recovers (states noVersions (script deniedThenAllowed) n)
      (script deniedThenAllowed n) := by
    rintro (_ | _ | _ | _ | _ | _ | _ | _ | _ | _ | _ | _ | _ | _ | _ | n)
    case zero => exact fun pkg _ _ => .inr rfl
    case succ.succ.succ.succ.succ.succ.succ.succ.zero =>
      intro pkg _ unstamped
      by_cases same : pkg = "pkg"
      · subst same
        exact absurd (by decide +kernel) unstamped
      · right
        exact (Function.update_of_ne same ..).trans (Function.update_of_ne same ..).symm
    all_goals trivial
  exact reconcile_enforces noVersions (script deniedThenAllowed) recovers 15 ⟨∅⟩ rfl rfl rfl "pkg"

/-- The second process fails its reconcile, audits the package and stops; the third
has nothing to diff against. -/
def deniedInVain : List (Event Unit) :=
  [.boot (some ⟨∅⟩), .mutate "pkg" ["pkg-1.whl"], .call, .tick "pkg" false,
    .boot (some (denies "pkg")), .fault, .audit "pkg" false .deferred, .boot (some ⟨∅⟩), .call]

theorem hidden_after_restart : ¬ Enforced noVersions (states noVersions (script deniedInVain) 9) := by
  intro enforced
  have shown := enforced ⟨∅⟩ rfl rfl rfl "pkg"
  revert shown
  decide

/-! ### What a boot cannot repair -/

variable (pep) in
/-- One process takes an event. -/
def Follows (s s' : State S) : Prop := ∃ event, (∀ next, event ≠ .boot next) ∧ step pep s event = s'

/-- What a run leaves of a package that it neither rebuilds nor marks. -/
structure Untouched (s s' : State S) (pkg : String) : Prop where
  denylist : s'.denylist = s.denylist
  files : s'.files pkg = s.files pkg
  views : s'.views pkg = s.views pkg
  dirty : pkg ∈ s'.dirty → pkg ∈ s.dirty

theorem Untouched.trans {s s' s'' : State S} {pkg : String} (first : Untouched s s' pkg)
    (second : Untouched s' s'' pkg) : Untouched s s'' pkg :=
  ⟨second.denylist.trans first.denylist, second.files.trans first.files,
    second.views.trans first.views, first.dirty ∘ second.dirty⟩

section
variable {s : State S} {denylist : Denylist S} {previous : Stamp} {names left : List String}
  {pkg : String}

theorem follows_call : Follows pep s (reconcileExcludes pep true s) :=
  ⟨.call, by rintro next ⟨⟩, rfl⟩

theorem drops (running : s.denylist = some denylist)
    (at_phase : s.reconcile = .dropping previous names left) :
    ∃ s', Relation.ReflTransGen (Follows pep) s s' ∧ Untouched s s' pkg ∧
      s'.reconcile = .marking previous names := by
  induction left generalizing s with
  | nil =>
      obtain ⟨files, views, fingerprints, dirty, stamp, _, _⟩ := s
      obtain rfl : _ = some denylist := running
      obtain rfl : _ = Reconcile.dropping previous names [] := at_phase
      exact ⟨_, .single follows_call, ⟨rfl, rfl, rfl, id⟩, rfl⟩
  | cons name left ih =>
      obtain ⟨files, views, fingerprints, dirty, stamp, _, _⟩ := s
      obtain rfl : _ = some denylist := running
      obtain rfl : _ = Reconcile.dropping previous names (name :: left) := at_phase
      let s : State S := ⟨files, views, fingerprints, dirty, stamp, some denylist,
        .dropping previous names (name :: left)⟩
      have first : Untouched s (reconcileExcludes pep true s) pkg := ⟨rfl, rfl, rfl, id⟩
      obtain ⟨s', run, untouched, ends⟩ := ih (s := reconcileExcludes pep true s) rfl rfl
      exact ⟨s', .head follows_call run, first.trans untouched, ends⟩

theorem marks (running : s.denylist = some denylist) (at_phase : s.reconcile = .marking previous left)
    (apart : pkg ∉ left) :
    ∃ s', Relation.ReflTransGen (Follows pep) s s' ∧ Untouched s s' pkg ∧ s'.reconcile = .done := by
  induction left generalizing s with
  | nil =>
      obtain ⟨files, views, fingerprints, dirty, stamp, _, _⟩ := s
      obtain rfl : _ = some denylist := running
      obtain rfl : _ = Reconcile.marking previous [] := at_phase
      exact ⟨_, .single follows_call, ⟨rfl, rfl, rfl, id⟩, rfl⟩
  | cons name left ih =>
      obtain ⟨files, views, fingerprints, dirty, stamp, _, _⟩ := s
      obtain rfl : _ = some denylist := running
      obtain rfl : _ = Reconcile.marking previous (name :: left) := at_phase
      obtain ⟨other, apart⟩ := List.ne_and_not_mem_of_not_mem_cons apart
      let s : State S := ⟨files, views, fingerprints, dirty, stamp, some denylist,
        .marking previous (name :: left)⟩
      have first : Untouched s (reconcileExcludes pep true s) pkg := ⟨rfl, rfl, rfl, fun marked =>
        (Finset.mem_insert.mp marked).resolve_left other⟩
      obtain ⟨s', run, untouched, ends⟩ := ih (s := reconcileExcludes pep true s) rfl rfl apart
      exact ⟨s', .head follows_call run, first.trans untouched, ends⟩

/-- The ticks answer every marker. -/
theorem drains (done : s.reconcile = .done) (clear : pkg ∉ s.dirty) :
    ∃ s', Relation.ReflTransGen (Follows pep) s s' ∧ Untouched s s' pkg ∧ s'.reconcile = .done ∧
      s'.dirty = ∅ := by
  generalize size : s.dirty.card = n
  induction n generalizing s with
  | zero => exact ⟨s, .refl, ⟨rfl, rfl, rfl, id⟩, done, Finset.card_eq_zero.mp size⟩
  | succ n ih =>
      obtain ⟨other, marked⟩ := Finset.card_pos.mp (by omega : 0 < s.dirty.card)
      have apart : pkg ≠ other := fun same => clear (same ▸ marked)
      have ticked : step pep s (.tick other false) =
          { rebuildPackage pep other s with dirty := s.dirty.erase other } := if_pos marked
      obtain ⟨s', run, untouched, ends, empty⟩ := ih
        (s := { rebuildPackage pep other s with dirty := s.dirty.erase other }) done
        (fun still => clear (Finset.mem_of_mem_erase still))
        (by simp [Finset.card_erase_of_mem marked, size])
      have first : Untouched s { rebuildPackage pep other s with dirty := s.dirty.erase other } pkg :=
        ⟨rfl, rfl, Function.update_of_ne apart .., Finset.mem_of_mem_erase⟩
      exact ⟨s', .head ⟨.tick other false, by rintro next ⟨⟩, ticked⟩ run, first.trans untouched, ends,
        empty⟩

/-- A package hidden behind the back of a process stays hidden once it has reconciled. -/
theorem stranded_stays (s : State S) (denylist : Denylist S)
    (stranded : ¬ Recovers s (.boot (some denylist))) :
    ∃ s', Relation.ReflTransGen (Follows pep) (step pep s (.boot (some denylist))) s' ∧
      ¬ Enforced pep s' := by
  unfold Recovers at stranded
  push Not at stranded
  obtain ⟨pkg, unnamed, unstamped, clear, hidden⟩ := stranded
  have absent : pkg ∉ denylist.canonical pep := mem_canonical.not.mpr unnamed
  obtain ⟨files, views, fingerprints, dirty, stamp, _, _⟩ := s
  let booted : State S := ⟨files, views, fingerprints, dirty, stamp, some denylist, .waiting⟩
  have reconciled : ∃ s', Relation.ReflTransGen (Follows pep) booted s' ∧
      Untouched booted s' pkg ∧ s'.reconcile = .done := by
    by_cases unchanged : ((denylist.canonical pep).same (stamp.getD ∅) &&
        (!true || (denylist.canonical pep).keys.isEmpty)) = true
    · have called : reconcileExcludes pep true booted = { booted with reconcile := .done } :=
        if_pos unchanged
      exact ⟨_, .single follows_call, by rw [called]; exact ⟨rfl, rfl, rfl, id⟩, by rw [called]⟩
    · let names := changedNames true (denylist.canonical pep) (stamp.getD ∅)
      have called : reconcileExcludes pep true booted =
          { booted with reconcile := .dropping (stamp.getD ∅) names names } := if_neg unchanged
      have first : Untouched booted (reconcileExcludes pep true booted) pkg := by
        rw [called]
        exact ⟨rfl, rfl, rfl, id⟩
      have apart : pkg ∉ names := fun marked =>
        (mem_changedNames.mp marked).elim absent unstamped
      have dropping : ∃ s', Relation.ReflTransGen (Follows pep) (reconcileExcludes pep true booted) s' ∧
          Untouched (reconcileExcludes pep true booted) s' pkg ∧
          s'.reconcile = .marking (stamp.getD ∅) names := by
        apply drops
        · rw [called]
        · rw [called]
      obtain ⟨dropped, drop, untouched, marking⟩ := dropping
      obtain ⟨s', mark, untouched', done⟩ := marks (untouched.denylist.trans (by rw [called])) marking
        apart
      exact ⟨s', .head follows_call (drop.trans mark), (first.trans untouched).trans untouched', done⟩
  obtain ⟨settled, run, untouched, done⟩ := reconciled
  obtain ⟨s', rest, untouched', done', clean⟩ := drains done (fun marked => clear (untouched.dirty marked))
  have whole := untouched.trans untouched'
  refine ⟨s', run.trans rest, fun enforced => hidden ?_⟩
  have shown := enforced denylist whole.denylist done' clean pkg
  rw [whole.views, whole.files] at shown
  simpa [Denylist.fileDenied, AList.lookup_eq_none.mpr unnamed] using shown

end

end Pypiron.ExcludeReconcile
