import Pypiron.Deps

/-! What the loop of the closure keeps: everything wanted is derived from the
include list, and a project that is not waiting for a visit has all that its
wanted releases require wanted too. -/
namespace Pypiron.Deps
open KeyedMap Worklist

variable {V S : Type}

/-! ### What an include list reaches -/

/-- Something that following an include list finds. -/
inductive Fact (S : Type) where
  | version (name : String) (specifiers : Option String)
  | text (name : String) (text : String)
  | requirement (req : Requirement S)
  | extra (name : String) (extra : String)

section
variable (pep : Pep440 V S) (isPrivate : String → Bool) (roots : List (PackageSpec S))
  (memos : KeyedMap String DepsMemo)

/-- The versions that one specifier, or none, takes. -/
def takesOne (specifiers : Option String) (version : String) : Prop :=
  takes pep (specifiers.map fun text => {text}) version

inductive Reaches : Fact S → Prop where
  | listed {spec} (member : spec ∈ roots) :
      Reaches (.version spec.name (spec.specifiers.map pep.print))
  | text {name specifiers memo version texts text} (wanted : Reaches (.version name specifiers))
      (known : memos.lookup name = some memo) (released : memo.lookup version = some texts)
      (taken : takesOne pep specifiers version) (member : text ∈ texts) : Reaches (.text name text)
  | always {name text req} (reached : Reaches (.text name text))
      (parsed : parseRequirement pep text = .requirement req)
      (always : isListed roots name = true ∨ req.onlyFor = []) : Reaches (.requirement req)
  | asked {name text req extra} (reached : Reaches (.text name text))
      (parsed : parseRequirement pep text = .requirement req) (only : extra ∈ req.onlyFor)
      (asked : Reaches (.extra name extra)) : Reaches (.requirement req)
  | version {req} (required : Reaches (.requirement req)) (unlisted : isListed roots req.name = false)
      (unreserved : isPrivate req.name = false) :
      Reaches (.version req.name (req.specifiers.map pep.print))
  | extra {req extra} (required : Reaches (.requirement req)) (unlisted : isListed roots req.name = false)
      (unreserved : isPrivate req.name = false) (member : extra ∈ req.extras) :
      Reaches (.extra req.name extra)

end

/-! ### Wants -/

/-- A want is at least as wide as a specifier, or as none. -/
def covers (want : Want) (specifiers : Option String) : Prop :=
  ∀ set ∈ want, ∃ text ∈ specifiers, text ∈ set

/-- A project is wanted for what a specifier takes. -/
def Wants.Wanted (s : Wants) (name : String) (specifiers : Option String) : Prop :=
  ∃ want, s.wants.lookup name = some want ∧ covers want specifiers

section
variable {pep : Pep440 V S} {want : Want} {specifiers : Option S} {version : String}

theorem covers_widen : covers (widen pep want specifiers) (specifiers.map pep.print) := by
  intro set member
  cases want with
  | none => cases member
  | some before =>
      cases specifiers with
      | none => cases member
      | some s =>
          cases member
          exact ⟨pep.print s, rfl, Finset.mem_insert_self _ _⟩

theorem covers_widen_of {text : Option String} (covered : covers want text) :
    covers (widen pep want specifiers) text := by
  intro set member
  cases want with
  | none => cases member
  | some before =>
      cases specifiers with
      | none => cases member
      | some s =>
          cases member
          obtain ⟨text, rfl, found⟩ := covered before rfl
          exact ⟨text, rfl, Finset.mem_insert_of_mem found⟩

/-- A set of specifiers takes what one of them takes. -/
theorem takes_some {set : Finset String} :
    takes pep (some set) version ↔ ∃ text ∈ set, takesOne pep (some text) version := by
  constructor
  · intro taken
    obtain ⟨v, parsed, text, member, s, read, contained⟩ := taken set rfl
    refine ⟨text, member, fun single same => ?_⟩
    cases same
    exact ⟨v, parsed, text, Finset.mem_singleton_self text, s, read, contained⟩
  · rintro ⟨text, member, taken⟩ set' same
    cases same
    obtain ⟨v, parsed, text', single, s, read, contained⟩ := taken {text} rfl
    rw [Finset.mem_singleton.mp single] at read
    exact ⟨v, parsed, text, member, s, read, contained⟩

theorem takes_none : takes pep none version := by
  intro set member
  cases member

theorem takes_of_covers {text : Option String} (covered : covers want text)
    (taken : takesOne pep text version) : takes pep want version := by
  cases want with
  | none => exact takes_none
  | some set =>
      obtain ⟨text, rfl, member⟩ := covered set rfl
      exact takes_some.mpr ⟨text, member, taken⟩

theorem mem_requires {memo : DepsMemo} {text : String} : text ∈ requires pep memo want ↔
    ∃ version texts, memo.lookup version = some texts ∧ takes pep want version ∧ text ∈ texts := by
  unfold requires
  rw [List.mem_insertionSort, List.mem_dedup, List.mem_flatMap]
  constructor
  · rintro ⟨⟨version, texts⟩, member, found⟩
    obtain ⟨entry, taken⟩ := List.mem_filter.mp member
    exact ⟨version, texts, AList.mem_lookup_iff.mpr entry, of_decide_eq_true taken, found⟩
  · rintro ⟨version, texts, released, taken, found⟩
    exact ⟨⟨version, texts⟩, List.mem_filter.mpr ⟨AList.mem_lookup_iff.mp released,
      decide_eq_true taken⟩, found⟩

end

/-! ### Following one requirement -/

/-- A state that wants as much, and the same of every project that is not pushed. -/
structure Extends (s s' : Wants) (pushed : List String) : Prop where
  unchanged : ∀ name, name ∈ pushed ∨
    s'.wants.lookup name = s.wants.lookup name ∧ s'.on name = s.on name
  wanted : ∀ name specifiers, s.Wanted name specifiers → s'.Wanted name specifiers
  on : ∀ name, s.on name ⊆ s'.on name

section
variable {s s' s'' : Wants} {pushed pushed' : List String}

theorem Extends.rfl : Extends s s [] where
  unchanged _ := .inr ⟨Eq.refl _, Eq.refl _⟩
  wanted _ _ := id
  on _ := Finset.Subset.refl _

theorem Extends.trans (first : Extends s s' pushed) (second : Extends s' s'' pushed') :
    Extends s s'' (pushed' ++ pushed) where
  unchanged name := by
    cases second.unchanged name with
    | inl later => exact .inl (List.mem_append_left _ later)
    | inr same =>
        cases first.unchanged name with
        | inl earlier => exact .inl (List.mem_append_right _ earlier)
        | inr before => exact .inr ⟨same.1.trans before.1, same.2.trans before.2⟩
  wanted name specifiers wanted := second.wanted name specifiers (first.wanted name specifiers wanted)
  on name := (first.on name).trans (second.on name)

end

section
variable {pep : Pep440 V S} {isPrivate listed : String → Bool} {s s' : Wants}
  {req : Requirement S} {name text : String} {pushed pushed' : List String}

theorem grow_lookup (other : String) : (s.grow pep req).wants.lookup other =
    if other = req.name then some (widen pep ((s.wants.lookup req.name).getD (some ∅)) req.specifiers)
    else s.wants.lookup other := lookup_insert_eq _ _ _ _

theorem grow_on (other : String) : (s.grow pep req).on other =
    if other = req.name then s.on req.name ∪ req.extras.toFinset else s.on other := by
  unfold Wants.on Wants.grow
  rw [lookup_insert_eq]
  split <;> rfl

theorem grow_extends :
    Extends s (s.grow pep req) (if s.grows pep req then [req.name] else []) where
  unchanged other := by
    by_cases here : other = req.name
    · rw [here]
      by_cases more : s.grows pep req = true
      · rw [if_pos more]
        exact .inl (List.mem_singleton_self _)
      · have same := more
        simp only [Wants.grows, decide_eq_true_eq, not_or, ne_eq, not_not, not_lt] at same
        have subset : s.on req.name ⊆ (s.grow pep req).on req.name := by
          rw [grow_on, if_pos (Eq.refl _)]
          exact Finset.subset_union_left
        exact .inr ⟨same.1.symm, (Finset.eq_of_subset_of_card_le subset same.2).symm⟩
    · rw [grow_lookup, grow_on, if_neg here, if_neg here]
      exact .inr ⟨Eq.refl _, Eq.refl _⟩
  wanted other specifiers := by
    rintro ⟨want, found, covered⟩
    unfold Wants.Wanted
    rw [grow_lookup]
    split
    next here =>
      subst here
      rw [found]
      exact ⟨_, rfl, covers_widen_of covered⟩
    next => exact ⟨want, found, covered⟩
  on other := by
    rw [grow_on]
    split
    next here =>
      rw [here]
      exact Finset.subset_union_left
    next => exact Finset.Subset.refl _

/-- All that a requirement asks for is wanted, unless its project is not to follow. -/
def Met (pep : Pep440 V S) (isPrivate listed : String → Bool) (s : Wants) (req : Requirement S) : Prop :=
  listed req.name = true ∨ isPrivate req.name = true ∨
    s.Wanted req.name (req.specifiers.map pep.print) ∧ ∀ extra ∈ req.extras, extra ∈ s.on req.name

theorem Met.mono (extends' : Extends s s' pushed) (met : Met pep isPrivate listed s req) :
    Met pep isPrivate listed s' req := by
  cases met with
  | inl isListed => exact .inl isListed
  | inr met =>
      cases met with
      | inl reserved => exact .inr (.inl reserved)
      | inr met => exact .inr (.inr ⟨extends'.wanted _ _ met.1,
          fun extra member => extends'.on _ (met.2 extra member)⟩)

theorem grow_met : Met pep isPrivate listed (s.grow pep req) req := by
  refine .inr (.inr ⟨⟨_, (grow_lookup _).trans (if_pos rfl), covers_widen⟩, ?_⟩)
  intro extra member
  rw [grow_on, if_pos rfl]
  exact Finset.mem_union_right _ (List.mem_toFinset.mpr member)

/-- What following one requirement does. -/
theorem follow_cases (followed : follow pep isPrivate listed name (s, pushed) text = some (s', pushed')) :
    (∃ added, pushed' = added ++ pushed ∧ Extends s s' added) ∧
      ∀ req, parseRequirement pep text = .requirement req → s.active listed name req = true →
        Met pep isPrivate listed s' req := by
  unfold follow at followed
  split at followed
  next => cases followed
  next dropped =>
    cases followed
    constructor
    · exact ⟨[], rfl, .rfl⟩
    · intro req parsed
      rw [dropped] at parsed
      cases parsed
  next req parsed =>
    split at followed
    next skipped =>
      cases followed
      constructor
      · exact ⟨[], rfl, .rfl⟩
      · intro req' parsed' active
        rw [parsed] at parsed'
        cases parsed'
        simp only [active, Bool.not_true, Bool.false_or, Bool.or_eq_true] at skipped
        cases skipped with
        | inl isListed => exact .inl isListed
        | inr reserved => exact .inr (.inl reserved)
    next =>
      cases followed
      constructor
      · refine ⟨_, ?_, grow_extends⟩
        split <;> rfl
      · intro req' parsed' _
        rw [parsed] at parsed'
        cases parsed'
        exact grow_met

/-- A requirer is active as before where its own extras are. -/
theorem active_congr (same : s'.on name = s.on name) :
    s'.active listed name req = s.active listed name req := by
  unfold Wants.active
  rw [same]

/-- The requirements of a list are met as far as they are active, or the requirer
waits for another visit. -/
theorem fold_meets {texts : List String}
    (folded : texts.foldlM (follow pep isPrivate listed name) (s, pushed) = some (s', pushed')) :
    ∃ added, pushed' = added ++ pushed ∧ Extends s s' added ∧
      ∀ text ∈ texts, ∀ req, parseRequirement pep text = .requirement req →
        name ∈ added ∨ (s'.active listed name req = true → Met pep isPrivate listed s' req) := by
  induction texts generalizing s pushed with
  | nil =>
      cases folded
      exact ⟨[], rfl, .rfl, fun _ member => nomatch member⟩
  | cons text texts hypothesis =>
      obtain ⟨⟨mid, middle⟩, first, later⟩ := Option.bind_eq_some_iff.mp
        ((List.foldlM_cons (f := follow pep isPrivate listed name)).symm.trans folded)
      obtain ⟨⟨added, rfl, extended⟩, met⟩ := follow_cases first
      obtain ⟨added', rfl, extended', meets⟩ := hypothesis later
      refine ⟨added' ++ added, (List.append_assoc _ _ _).symm, extended.trans extended', ?_⟩
      intro text' member req parsed
      cases member with
      | tail _ member =>
          cases meets text' member req parsed with
          | inl again => exact .inl (List.mem_append_left _ again)
          | inr meets => exact .inr meets
      | head =>
          -- the requirer was active for it already, or has more extras now and is revisited
          cases (extended.trans extended').unchanged name with
          | inl again => exact .inl again
          | inr same =>
              refine .inr fun active => (met req parsed ?_).mono extended'
              rw [← active_congr same.2]
              exact active

/-! ### Visits -/

variable {memos : KeyedMap String DepsMemo}

/-- All that the wanted releases of a project require is wanted. -/
def Done (pep : Pep440 V S) (isPrivate listed : String → Bool) (memos : KeyedMap String DepsMemo)
    (s : Wants) (name : String) : Prop :=
  ∀ memo want text req, memos.lookup name = some memo → s.wants.lookup name = some want →
    text ∈ requires pep memo want → parseRequirement pep text = .requirement req →
      s.active listed name req = true → Met pep isPrivate listed s req

/-- No requirement of the wanted releases of a project panics. -/
def Legible (pep : Pep440 V S) (memos : KeyedMap String DepsMemo) (s : Wants) (name : String) : Prop :=
  ∀ memo want text, memos.lookup name = some memo → s.wants.lookup name = some want →
    text ∈ requires pep memo want → parseRequirement pep text ≠ .panics

theorem fold_legible {texts : List String} {result : Wants × List String}
    (folded : texts.foldlM (follow pep isPrivate listed name) (s, pushed) = some result)
    (member : text ∈ texts) : parseRequirement pep text ≠ .panics := by
  induction texts generalizing s pushed with
  | nil => cases member
  | cons first texts hypothesis =>
      obtain ⟨mid, followed, later⟩ := Option.bind_eq_some_iff.mp
        ((List.foldlM_cons (f := follow pep isPrivate listed name)).symm.trans folded)
      cases member with
      | tail _ member => exact hypothesis later member
      | head =>
          intro panics
          unfold follow at followed
          rw [panics] at followed
          cases followed

/-- A visit wants all that the project's releases require, or leaves it to visit again. -/
theorem follows_spec
    (visited : follows pep isPrivate listed memos name s = some (s', pushed)) :
    Extends s s' pushed ∧ (name ∈ pushed ∨
      Done pep isPrivate listed memos s' name ∧ Legible pep memos s' name) := by
  unfold follows at visited
  split at visited
  next memo want known wanted =>
    obtain ⟨added, same, extended, meets⟩ := fold_meets visited
    rw [List.append_nil] at same
    subst same
    refine ⟨extended, ?_⟩
    cases extended.unchanged name with
    | inl again => exact .inl again
    | inr same =>
        by_cases again : name ∈ pushed
        · exact .inl again
        · refine .inr ⟨fun memo' want' text req known' wanted' member parsed active => ?_,
            fun memo' want' text known' wanted' member => ?_⟩
          · obtain rfl : memo = memo' := Option.some.inj (known.symm.trans known')
            obtain rfl : want = want' :=
              Option.some.inj (wanted.symm.trans (same.1.symm.trans wanted'))
            exact (meets text member req parsed).resolve_left again active
          · obtain rfl : memo = memo' := Option.some.inj (known.symm.trans known')
            obtain rfl : want = want' :=
              Option.some.inj (wanted.symm.trans (same.1.symm.trans wanted'))
            exact fold_legible visited member
  next unknown =>
    cases visited
    refine ⟨.rfl, .inr ⟨fun memo want _ _ known wanted => ?_, fun memo want _ known wanted => ?_⟩⟩
    · exact absurd wanted (unknown memo want known)
    · exact absurd wanted (unknown memo want known)

theorem Done.mono (done : Done pep isPrivate listed memos s name) (extended : Extends s s' pushed)
    (same : s'.wants.lookup name = s.wants.lookup name ∧ s'.on name = s.on name) :
    Done pep isPrivate listed memos s' name := by
  intro memo want text req known wanted member parsed active
  rw [same.1] at wanted
  rw [active_congr same.2] at active
  exact (done memo want text req known wanted member parsed active).mono extended

theorem Legible.mono (legible : Legible pep memos s name)
    (same : s'.wants.lookup name = s.wants.lookup name) : Legible pep memos s' name := by
  intro memo want text known wanted
  rw [same] at wanted
  exact legible memo want text known wanted

/-- Each wanted project is still to be visited, or wants all that it requires. -/
def Settled (pep : Pep440 V S) (isPrivate listed : String → Bool) (memos : KeyedMap String DepsMemo)
    (s : Option Wants) (queue : List String) : Prop :=
  ∀ now ∈ s, ∀ name want, now.wants.lookup name = some want →
    name ∈ queue ∨ Done pep isPrivate listed memos now name ∧ Legible pep memos now name

theorem Settled.visit {s : Option Wants} {queue : List String}
    (settled : Settled pep isPrivate listed memos s (name :: queue)) :
    Settled pep isPrivate listed memos (visit pep isPrivate listed memos name s).1
      ((visit pep isPrivate listed memos name s).2 ++ queue) := by
  unfold Deps.visit
  split
  next s' pushed visited =>
    obtain ⟨before, rfl, visited⟩ := Option.bind_eq_some_iff.mp visited
    obtain ⟨extended, here⟩ := follows_spec visited
    intro now same other want wanted
    cases same
    cases extended.unchanged other with
    | inl again => exact .inl (List.mem_append_left _ again)
    | inr same =>
        by_cases visiting : other = name
        · rw [visiting]
          cases here with
          | inl again => exact .inl (List.mem_append_left _ again)
          | inr done => exact .inr done
        · cases settled before rfl other want (same.1.symm.trans wanted) with
          | inl waiting =>
              have waits : other ∈ queue := (List.mem_cons.mp waiting).resolve_left visiting
              exact .inl (List.mem_append_right _ waits)
          | inr done => exact .inr ⟨done.1.mono extended same, done.2.mono same.1⟩
  next =>
    intro now same
    cases same

end
end Pypiron.Deps
