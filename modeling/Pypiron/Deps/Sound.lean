import Pypiron.Deps.Closure

/-! What the loop of the closure wants is what following the include list
reaches: nothing else is ever wanted, and once no project waits for a visit,
everything reached is. -/
namespace Pypiron.Deps
open KeyedMap

variable {V S : Type} {pep : Pep440 V S} {isPrivate : String → Bool} {roots : List (PackageSpec S)}
  {memos : KeyedMap String DepsMemo} {s s' : Wants} {name text : String} {req : Requirement S}
  {pushed pushed' : List String}

/-! ### Everything wanted is reached -/

/-- All that is wanted is reached from the include list. -/
structure Sound (pep : Pep440 V S) (isPrivate : String → Bool) (roots : List (PackageSpec S))
    (memos : KeyedMap String DepsMemo) (s : Wants) : Prop where
  every : ∀ name, s.wants.lookup name = some none → Reaches pep isPrivate roots memos (.version name none)
  several : ∀ name set, s.wants.lookup name = some (some set) → set.Nonempty ∧
    ∀ text ∈ set, Reaches pep isPrivate roots memos (.version name (some text))
  extra : ∀ name, ∀ extra ∈ s.on name, Reaches pep isPrivate roots memos (.extra name extra)

/-- Wanting what a reached specifier takes is sound, for a project wanted or not. -/
theorem Sound.widen (sound : Sound pep isPrivate roots memos s) {specifiers : Option S}
    (reached : Reaches pep isPrivate roots memos (.version name (specifiers.map pep.print))) :
    (widen pep ((s.wants.lookup name).getD (some ∅)) specifiers = none →
      Reaches pep isPrivate roots memos (.version name none)) ∧
    ∀ set, widen pep ((s.wants.lookup name).getD (some ∅)) specifiers = some set → set.Nonempty ∧
      ∀ text ∈ set, Reaches pep isPrivate roots memos (.version name (some text)) := by
  cases specifiers with
  | none =>
      constructor
      · exact fun _ => reached
      · intro set same
        cases wanted : (s.wants.lookup name).getD (some ∅) <;>
          · rw [wanted] at same
            cases same
  | some specifier =>
      cases wanted : (s.wants.lookup name).getD (some ∅) with
      | none =>
          constructor
          · intro _
            cases found : s.wants.lookup name with
            | none =>
                rw [found] at wanted
                cases wanted
            | some want =>
                rw [found] at wanted
                obtain rfl : want = none := wanted
                exact sound.every name found
          · intro set same
            cases same
      | some before =>
          constructor
          · intro same
            cases same
          · intro set same
            cases same
            refine ⟨Finset.insert_nonempty _ _, fun text member => ?_⟩
            cases Finset.mem_insert.mp member with
            | inl new =>
                rw [new]
                exact reached
            | inr old =>
                cases found : s.wants.lookup name with
                | none =>
                    rw [found] at wanted
                    cases wanted
                    exact absurd old (Finset.notMem_empty text)
                | some want =>
                    rw [found] at wanted
                    obtain rfl : want = some before := wanted
                    exact (sound.several name before found).2 text old

theorem Sound.grow (sound : Sound pep isPrivate roots memos s)
    (reached : Reaches pep isPrivate roots memos (.requirement req))
    (unlisted : isListed roots req.name = false) (unreserved : isPrivate req.name = false) :
    Sound pep isPrivate roots memos (s.grow pep req) := by
  have widened := sound.widen (.version reached unlisted unreserved)
  constructor
  case every =>
    intro other found
    rw [grow_lookup] at found
    split at found
    next here =>
      rw [here]
      exact widened.1 (Option.some.inj found)
    next => exact sound.every other found
  case several =>
    intro other set found
    rw [grow_lookup] at found
    split at found
    next here =>
      rw [here]
      exact widened.2 set (Option.some.inj found)
    next => exact sound.several other set found
  case extra =>
    intro other extra member
    rw [grow_on] at member
    split at member
    next here =>
      rw [here]
      cases Finset.mem_union.mp member with
      | inl old => exact sound.extra req.name extra old
      | inr new => exact .extra reached unlisted unreserved (List.mem_toFinset.mp new)
    next => exact sound.extra other extra member

theorem Sound.reaches (sound : Sound pep isPrivate roots memos s)
    (reached : Reaches pep isPrivate roots memos (.text name text))
    (parsed : parseRequirement pep text = .requirement req)
    (active : s.active (isListed roots) name req = true) :
    Reaches pep isPrivate roots memos (.requirement req) := by
  simp only [Wants.active, Bool.or_eq_true, List.isEmpty_iff, List.any_eq_true, decide_eq_true_eq]
    at active
  cases active with
  | inl always => exact .always reached parsed always
  | inr asked =>
      obtain ⟨extra, only, on⟩ := asked
      exact .asked reached parsed only (sound.extra name extra on)

theorem Sound.follow (sound : Sound pep isPrivate roots memos s)
    (reached : Reaches pep isPrivate roots memos (.text name text))
    (followed : follow pep isPrivate (isListed roots) name (s, pushed) text = some (s', pushed')) :
    Sound pep isPrivate roots memos s' := by
  unfold Deps.follow at followed
  split at followed
  next => cases followed
  next =>
    cases followed
    exact sound
  next req parsed =>
    split at followed
    next =>
      cases followed
      exact sound
    next followed' =>
      cases followed
      simp only [Bool.or_eq_true, Bool.not_eq_true', not_or, Bool.not_eq_false, Bool.not_eq_true]
        at followed'
      exact sound.grow (sound.reaches reached parsed followed'.1.1) followed'.1.2 followed'.2

theorem Sound.fold {texts : List String} (sound : Sound pep isPrivate roots memos s)
    (reached : ∀ text ∈ texts, Reaches pep isPrivate roots memos (.text name text))
    (folded : texts.foldlM (Deps.follow pep isPrivate (isListed roots) name) (s, pushed) =
      some (s', pushed')) : Sound pep isPrivate roots memos s' := by
  induction texts generalizing s pushed with
  | nil =>
      cases folded
      exact sound
  | cons text texts hypothesis =>
      obtain ⟨⟨mid, middle⟩, first, later⟩ := Option.bind_eq_some_iff.mp
        ((List.foldlM_cons (f := Deps.follow pep isPrivate (isListed roots) name)).symm.trans folded)
      exact hypothesis (sound.follow (reached text List.mem_cons_self) first)
        (fun text member => reached text (List.mem_cons_of_mem _ member)) later

/-- What the releases that are wanted require is reached. -/
theorem Sound.reads (sound : Sound pep isPrivate roots memos s) {memo : DepsMemo} {want : Want}
    (known : memos.lookup name = some memo) (wanted : s.wants.lookup name = some want)
    (member : text ∈ requires pep memo want) :
    Reaches pep isPrivate roots memos (.text name text) := by
  obtain ⟨version, texts, released, taken, found⟩ := mem_requires.mp member
  cases want with
  | none => exact .text (sound.every name wanted) known released takes_none found
  | some set =>
      obtain ⟨specifier, listed, taken⟩ := takes_some.mp taken
      exact .text ((sound.several name set wanted).2 specifier listed) known released taken found

theorem Sound.follows (sound : Sound pep isPrivate roots memos s)
    (visited : follows pep isPrivate (isListed roots) memos name s = some (s', pushed)) :
    Sound pep isPrivate roots memos s' := by
  unfold Deps.follows at visited
  split at visited
  next known wanted => exact sound.fold (fun text => sound.reads known wanted) visited
  next =>
    cases visited
    exact sound

/-- Following stops at a panic only. -/
theorem fold_panics {texts : List String}
    (folded : texts.foldlM (follow pep isPrivate (isListed roots) name) (s, pushed) = none) :
    ∃ text ∈ texts, parseRequirement pep text = .panics := by
  induction texts generalizing s pushed with
  | nil => cases folded
  | cons text texts hypothesis =>
      rw [List.foldlM_cons] at folded
      cases first : follow pep isPrivate (isListed roots) name (s, pushed) text with
      | none =>
          refine ⟨text, List.mem_cons_self, ?_⟩
          unfold follow at first
          split at first
          next panics => exact panics
          next => cases first
          next =>
            split at first
            next => cases first
            next => cases first
      | some mid =>
          rw [first] at folded
          obtain ⟨other, member, panics⟩ := hypothesis folded
          exact ⟨other, List.mem_cons_of_mem _ member, panics⟩

/-- No requirement that following reaches panics. -/
def Readable (pep : Pep440 V S) (isPrivate : String → Bool) (roots : List (PackageSpec S))
    (memos : KeyedMap String DepsMemo) : Prop :=
  ∀ name text, Reaches pep isPrivate roots memos (.text name text) →
    parseRequirement pep text ≠ .panics

theorem Sound.visits (sound : Sound pep isPrivate roots memos s)
    (readable : Readable pep isPrivate roots memos) (name : String) :
    ∃ next pushed, Deps.follows pep isPrivate (isListed roots) memos name s = some (next, pushed) := by
  cases visited : Deps.follows pep isPrivate (isListed roots) memos name s with
  | some result => exact ⟨result.1, result.2, rfl⟩
  | none =>
      unfold Deps.follows at visited
      split at visited
      next memo want known wanted =>
        obtain ⟨text, member, panics⟩ := fold_panics visited
        exact absurd panics (readable name text (sound.reads known wanted member))
      next => cases visited

/-! ### The start -/

/-- Adding one listed package to what is wanted. -/
def Wants.list (pep : Pep440 V S) (s : Wants) (spec : PackageSpec S) : Wants :=
  ⟨s.wants.insert spec.name (widen pep ((s.wants.lookup spec.name).getD (some ∅)) spec.specifiers),
    s.extras⟩

theorem start_eq (roots : List (PackageSpec S)) :
    start pep roots = roots.foldl (Wants.list pep) ⟨∅, ∅⟩ := by
  unfold start rootWants
  generalize (∅ : KeyedMap String Want) = wants
  induction roots generalizing wants with
  | nil => rfl
  | cons spec roots hypothesis => exact hypothesis _

theorem list_lookup (spec : PackageSpec S) : (s.list pep spec).wants.lookup name =
    if name = spec.name then
      some (widen pep ((s.wants.lookup spec.name).getD (some ∅)) spec.specifiers)
    else s.wants.lookup name := lookup_insert_eq _ _ _ _

theorem Sound.list (sound : Sound pep isPrivate roots memos s) {spec : PackageSpec S}
    (member : spec ∈ roots) : Sound pep isPrivate roots memos (s.list pep spec) := by
  have widened := sound.widen (.listed member)
  constructor
  case every =>
    intro other found
    rw [list_lookup] at found
    split at found
    next here =>
      rw [here]
      exact widened.1 (Option.some.inj found)
    next => exact sound.every other found
  case several =>
    intro other set found
    rw [list_lookup] at found
    split at found
    next here =>
      rw [here]
      exact widened.2 set (Option.some.inj found)
    next => exact sound.several other set found
  case extra => exact sound.extra

theorem Sound.lists {specs : List (PackageSpec S)} (sound : Sound pep isPrivate roots memos s)
    (listed : ∀ spec ∈ specs, spec ∈ roots) :
    Sound pep isPrivate roots memos (specs.foldl (Wants.list pep) s) := by
  induction specs generalizing s with
  | nil => exact sound
  | cons spec specs hypothesis =>
      exact hypothesis (sound.list (listed spec List.mem_cons_self))
        fun spec member => listed spec (List.mem_cons_of_mem _ member)

theorem start_sound : Sound pep isPrivate roots memos (start pep roots) := by
  rw [start_eq]
  apply Sound.lists
  · constructor
    · intro name found
      cases found
    · intro name set found
      cases found
    · intro name extra member
      exact absurd member (Finset.notMem_empty extra)
  · exact fun spec member => member

theorem lists_wanted {specs : List (PackageSpec S)} {specifiers : Option String}
    (wanted : s.Wanted name specifiers) :
    (specs.foldl (Wants.list pep) s).Wanted name specifiers := by
  induction specs generalizing s with
  | nil => exact wanted
  | cons spec specs hypothesis =>
      apply hypothesis
      obtain ⟨want, found, covered⟩ := wanted
      unfold Wants.Wanted
      rw [list_lookup]
      split
      next here =>
        subst here
        rw [found]
        exact ⟨_, rfl, covers_widen_of covered⟩
      next => exact ⟨want, found, covered⟩

theorem lists_wants {specs : List (PackageSpec S)} {spec : PackageSpec S} (member : spec ∈ specs) :
    (specs.foldl (Wants.list pep) s).Wanted spec.name (spec.specifiers.map pep.print) := by
  induction specs generalizing s with
  | nil => cases member
  | cons first specs hypothesis =>
      cases member with
      | head =>
          have here : (s.list pep spec).Wanted spec.name (spec.specifiers.map pep.print) :=
            ⟨_, (list_lookup spec).trans (if_pos rfl), covers_widen⟩
          rw [List.foldl_cons]
          exact lists_wanted here
      | tail _ later => exact hypothesis later

/-- Each listed package is wanted for what it lists. -/
theorem start_wanted {spec : PackageSpec S} (member : spec ∈ roots) :
    (start pep roots).Wanted spec.name (spec.specifiers.map pep.print) := by
  rw [start_eq]
  exact lists_wants member

/-! ### Everything reached is wanted -/

/-- What is reached is in the wants. -/
def Holds (pep : Pep440 V S) (isPrivate listed : String → Bool) (memos : KeyedMap String DepsMemo)
    (s : Wants) : Fact S → Prop
  | .version name specifiers => s.Wanted name specifiers
  | .text name text => ∃ memo want, memos.lookup name = some memo ∧
      s.wants.lookup name = some want ∧ text ∈ requires pep memo want
  | .requirement req => Met pep isPrivate listed s req
  | .extra name extra => extra ∈ s.on name

/-- Where the listed packages are wanted and no project waits, all is wanted that is reached. -/
theorem holds_of_settled {fact : Fact S}
    (settled : Settled pep isPrivate (isListed roots) memos (some s) [])
    (listed : ∀ spec ∈ roots, s.Wanted spec.name (spec.specifiers.map pep.print))
    (reached : Reaches pep isPrivate roots memos fact) :
    Holds pep isPrivate (isListed roots) memos s fact := by
  have done (name : String) (want : Want) (wanted : s.wants.lookup name = some want) :
      Done pep isPrivate (isListed roots) memos s name :=
    ((settled s rfl name want wanted).resolve_left List.not_mem_nil).1
  induction reached with
  | listed member => exact listed _ member
  | text _ known released taken member hypothesis =>
      obtain ⟨want, wanted, covered⟩ := hypothesis
      exact ⟨_, want, known, wanted,
        mem_requires.mpr ⟨_, _, released, takes_of_covers covered taken, member⟩⟩
  | always _ parsed always hypothesis =>
      obtain ⟨memo, want, known, wanted, member⟩ := hypothesis
      apply done _ want wanted memo want _ _ known wanted member parsed
      cases always with
      | inl isRoot => simp [Wants.active, isRoot]
      | inr bare => simp [Wants.active, bare]
  | asked _ parsed only _ reads asks =>
      obtain ⟨memo, want, known, wanted, member⟩ := reads
      apply done _ want wanted memo want _ _ known wanted member parsed
      simp only [Wants.active, Bool.or_eq_true, List.any_eq_true, decide_eq_true_eq]
      exact .inr ⟨_, only, asks⟩
  | version _ unlisted unreserved hypothesis =>
      cases hypothesis with
      | inl isRoot => exact absurd isRoot (by simp [unlisted])
      | inr met =>
          cases met with
          | inl reserved => exact absurd reserved (by simp [unreserved])
          | inr met => exact met.1
  | extra _ unlisted unreserved member hypothesis =>
      cases hypothesis with
      | inl isRoot => exact absurd isRoot (by simp [unlisted])
      | inr met =>
          cases met with
          | inl reserved => exact absurd reserved (by simp [unreserved])
          | inr met => exact met.2 _ member

end Pypiron.Deps
