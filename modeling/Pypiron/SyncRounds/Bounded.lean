import Mathlib.Data.Finset.Powerset
import Mathlib.Data.Finset.Prod
import Pypiron.SyncRounds.Visits

/-! What the rounds keep, and that they end: there are only so many wants to visit
projects under, and none is visited under twice. -/
namespace Pypiron.SyncRounds
open KeyedMap Deps

variable {V S : Type} {pep : Pep440 V S} {isPrivate : String → Bool} {roots : List (PackageSpec S)}
  {complete stored : KeyedMap String DepsMemo} {s : State} {n : ℕ} {name : String} {want : Want}

/-- No memo has another account of a release than the source: a release's
metadata never changes. -/
def Unchanged (complete memos : KeyedMap String DepsMemo) : Prop :=
  ∀ name memo memo' version texts texts', memos.lookup name = some memo →
    complete.lookup name = some memo' → memo.lookup version = some texts →
    memo'.lookup version = some texts' → texts = texts'

/-! ### What a round keeps -/

theorem pending_eq {jobs : List (String × Want)} (pends : pending pep isPrivate roots s = some jobs) :
    ∃ wants, closure pep isPrivate roots s.memos = some wants ∧ (jobs.map Prod.fst).Nodup ∧
      ∀ name want, (name, want) ∈ jobs ↔ wants.lookup name = some want ∧ (name, want) ∉ s.done := by
  obtain ⟨wants, found, rfl⟩ := Option.map_eq_some_iff.mp pends
  refine ⟨wants, found, ?_, fun name want => ?_⟩
  · have keys : (wants.entries.map fun project => (project.1, project.2)).map Prod.fst =
        wants.keys := by
      rw [List.map_map]
      rfl
    exact ((List.filter_sublist.map Prod.fst).nodup (by rw [keys]; exact wants.keys_nodup))
  · rw [List.mem_filter, List.mem_map, decide_eq_true_eq]
    constructor
    · rintro ⟨⟨project, member, same⟩, fresh⟩
      cases same
      exact ⟨AList.mem_lookup_iff.mpr member, fresh⟩
    · rintro ⟨wanted, fresh⟩
      exact ⟨⟨⟨name, want⟩, AList.mem_lookup_iff.mp wanted, rfl⟩, fresh⟩

/-- What the loop knows: the memo of a visited project is what its last visit
selects, and that of any other is the stored one. -/
structure Kept (pep : Pep440 V S) (complete stored : KeyedMap String DepsMemo) (s : State) : Prop where
  refreshed : Unchanged complete s.refreshed
  visited : ∀ name want, s.visits.lookup name = some want → ∃ memo, s.memos.lookup name = some memo ∧
    ∀ version, memo.lookup version = (select pep complete name want).lookup version
  unvisited : ∀ name, s.visits.lookup name = none → s.memos.lookup name = stored.lookup name

theorem kept_start : Kept pep complete stored (start stored) where
  refreshed _ _ _ _ _ _ found := by cases found
  visited _ _ found := by cases found
  unvisited _ _ := rfl

/-- A job leaves exactly what its want and the filters select. -/
theorem Kept.outcome (kept : Kept pep complete stored s) (unchanged : Unchanged complete stored)
    (job : String × Want) (version : String) :
    (outcome pep complete stored s job).lookup version =
      (select pep complete job.1 job.2).lookup version := by
  unfold SyncRounds.outcome
  apply lookup_syncOnePackage
  intro version texts texts' found selected
  obtain ⟨⟨memo', known, released⟩, -⟩ := lookup_select.mp selected
  cases fresh : s.refreshed.lookup job.1 with
  | some memo =>
      rw [fresh] at found
      exact kept.refreshed job.1 memo memo' version texts texts' fresh known found released
  | none =>
      rw [fresh, Option.none_or] at found
      cases old : stored.lookup job.1 with
      | some memo =>
          rw [old] at found
          exact unchanged job.1 memo memo' version texts texts' old known found released
      | none =>
          rw [old] at found
          cases found

section
variable {jobs : List (String × Want)} {advances : String → Bool} (distinct : (jobs.map Prod.fst).Nodup)
include distinct

theorem round_visits_job {job : String × Want} (member : job ∈ jobs) :
    (round pep complete stored advances jobs s).visits.lookup job.1 = some job.2 :=
  lookup_insertAll_of_mem Prod.fst Prod.snd member distinct

theorem round_memos_job {job : String × Want} (member : job ∈ jobs) :
    (round pep complete stored advances jobs s).memos.lookup job.1 =
      some (outcome pep complete stored s job) :=
  lookup_insertAll_of_mem Prod.fst (outcome pep complete stored s) member distinct

omit distinct in
theorem round_other (absent : ∀ job ∈ jobs, job.1 ≠ name) :
    (round pep complete stored advances jobs s).visits.lookup name = s.visits.lookup name ∧
      (round pep complete stored advances jobs s).memos.lookup name = s.memos.lookup name :=
  ⟨lookup_insertAll_of_notMem Prod.fst Prod.snd absent,
    lookup_insertAll_of_notMem Prod.fst (outcome pep complete stored s) absent⟩

theorem Kept.round (kept : Kept pep complete stored s) (unchanged : Unchanged complete stored) :
    Kept pep complete stored (round pep complete stored advances jobs s) := by
  constructor
  case refreshed =>
    intro name memo memo' version texts texts' found known released released'
    by_cases here : ∃ job ∈ jobs.filter fun job => advances job.1, job.1 = name
    · obtain ⟨job, member, rfl⟩ := here
      have set := lookup_insertAll_of_mem Prod.fst (SyncRounds.outcome pep complete stored s)
        (m := s.refreshed) member (distinct.sublist (List.filter_sublist.map Prod.fst))
      obtain rfl : memo = SyncRounds.outcome pep complete stored s job :=
        Option.some.inj (found.symm.trans set)
      rw [kept.outcome unchanged] at released
      obtain ⟨⟨memo'', known', there⟩, -⟩ := lookup_select.mp released
      cases known.symm.trans known'
      exact Option.some.inj (there.symm.trans released')
    · push Not at here
      have same := lookup_insertAll_of_notMem Prod.fst (SyncRounds.outcome pep complete stored s)
        (m := s.refreshed) here
      exact kept.refreshed name memo memo' version texts texts' (same.symm.trans found) known
        released released'
  case visited =>
    intro name want found
    by_cases here : ∃ job ∈ jobs, job.1 = name
    · obtain ⟨job, member, rfl⟩ := here
      rw [round_visits_job distinct member] at found
      obtain rfl : job.2 = want := Option.some.inj found
      exact ⟨_, round_memos_job distinct member, kept.outcome unchanged job⟩
    · push Not at here
      rw [(round_other here).1] at found
      rw [(round_other here).2]
      exact kept.visited name want found
  case unvisited =>
    intro name found
    by_cases here : ∃ job ∈ jobs, job.1 = name
    · obtain ⟨job, member, rfl⟩ := here
      cases (round_visits_job distinct member).symm.trans found
    · push Not at here
      rw [(round_other here).1] at found
      rw [(round_other here).2]
      exact kept.unvisited name found

end

theorem Rounds.kept (rounds : Rounds pep isPrivate roots complete stored n s)
    (unchanged : Unchanged complete stored) : Kept pep complete stored s := by
  induction rounds with
  | start => exact kept_start
  | next advances before pends busy order hypothesis =>
      obtain ⟨wants, -, distinct, -⟩ := pending_eq pends
      exact hypothesis.round ((order.map Prod.fst).nodup_iff.mpr distinct) unchanged

/-! ### The rounds end -/

/-- Every requirement that a run can read. -/
def allTexts (complete stored : KeyedMap String DepsMemo) : List String :=
  (complete.entries ++ stored.entries).flatMap fun memo => memo.2.entries.flatMap (·.2)

theorem mem_allTexts {memo : DepsMemo} {version text : String} {texts : List String}
    (known : complete.lookup name = some memo ∨ stored.lookup name = some memo)
    (released : memo.lookup version = some texts) (member : text ∈ texts) :
    text ∈ allTexts complete stored := by
  refine List.mem_flatMap.mpr ⟨⟨name, memo⟩, ?_, ?_⟩
  · cases known with
    | inl known => exact List.mem_append_left _ (AList.mem_lookup_iff.mp known)
    | inr known => exact List.mem_append_right _ (AList.mem_lookup_iff.mp known)
  · exact List.mem_flatMap.mpr ⟨⟨version, texts⟩, AList.mem_lookup_iff.mp released, member⟩

/-- No requirement that a run can read panics. -/
def Legible (pep : Pep440 V S) (complete stored : KeyedMap String DepsMemo) : Prop :=
  ∀ text ∈ allTexts complete stored, parseRequirement pep text ≠ .panics

theorem Kept.texts (kept : Kept pep complete stored s) {memo : DepsMemo} {version text : String}
    {texts : List String} (known : s.memos.lookup name = some memo)
    (released : memo.lookup version = some texts) (member : text ∈ texts) :
    text ∈ allTexts complete stored := by
  cases visited : s.visits.lookup name with
  | none => exact mem_allTexts (.inr ((kept.unvisited name visited).symm.trans known)) released member
  | some want =>
      obtain ⟨memo', known', same⟩ := kept.visited name want visited
      obtain rfl : memo = memo' := Option.some.inj (known.symm.trans known')
      rw [same] at released
      obtain ⟨⟨memo'', there, released⟩, -⟩ := lookup_select.mp released
      exact mem_allTexts (.inl there) released member

theorem Kept.readable (kept : Kept pep complete stored s) (legible : Legible pep complete stored) :
    Readable pep isPrivate roots s.memos := by
  intro name text reached
  cases reached with
  | text _ known released _ member => exact legible text (kept.texts known released member)

/-- The requirements that a run can read and that parse. -/
def known (pep : Pep440 V S) (complete stored : KeyedMap String DepsMemo) : List (Requirement S) :=
  (allTexts complete stored).filterMap fun text =>
    match parseRequirement pep text with
    | .requirement req => some req
    | _ => none

/-- The projects and the specifiers that a run can want. -/
def knownWants (pep : Pep440 V S) (roots : List (PackageSpec S))
    (complete stored : KeyedMap String DepsMemo) : List (String × Option String) :=
  roots.map (fun spec => (spec.name, spec.specifiers.map pep.print)) ++
    (known pep complete stored).map fun req => (req.name, req.specifiers.map pep.print)

theorem Kept.wants (kept : Kept pep complete stored s) {specifiers : Option String}
    (reached : Reaches pep isPrivate roots s.memos (.version name specifiers)) :
    (name, specifiers) ∈ knownWants pep roots complete stored := by
  cases reached with
  | listed member => exact List.mem_append_left _ (List.mem_map.mpr ⟨_, member, rfl⟩)
  | @version req required =>
      have parses : ∃ text ∈ allTexts complete stored, parseRequirement pep text = .requirement req := by
        cases required with
        | always reached parsed =>
            cases reached with
            | text _ known released _ member => exact ⟨_, kept.texts known released member, parsed⟩
        | asked reached parsed =>
            cases reached with
            | text _ known released _ member => exact ⟨_, kept.texts known released member, parsed⟩
      obtain ⟨text, member, parsed⟩ := parses
      refine List.mem_append_right _ (List.mem_map.mpr ⟨req, ?_, rfl⟩)
      exact List.mem_filterMap.mpr ⟨text, member, by rw [parsed]⟩

/-- The projects, each under every want, that a run can visit. -/
def visitable (pep : Pep440 V S) (roots : List (PackageSpec S))
    (complete stored : KeyedMap String DepsMemo) : Finset (String × Want) :=
  ((knownWants pep roots complete stored).map Prod.fst).toFinset ×ˢ
    insert none ((((knownWants pep roots complete stored).filterMap Prod.snd).toFinset).powerset.image some)

theorem mem_visitable (kept : Kept pep complete stored s) {wants : KeyedMap String Want}
    (found : closure pep isPrivate roots s.memos = some wants) (wanted : wants.lookup name = some want) :
    (name, want) ∈ visitable pep roots complete stored := by
  obtain ⟨final, ends, result⟩ := closure_ends pep isPrivate roots s.memos
  obtain ⟨final, rfl, rfl⟩ := Option.map_eq_some_iff.mp (result.symm.trans found)
  have sound := ends.kept.sound final rfl
  obtain ⟨specifiers, reached⟩ := sound.reached wanted
  refine Finset.mem_product.mpr ⟨?_, ?_⟩
  · exact List.mem_toFinset.mpr (List.mem_map.mpr ⟨_, kept.wants reached, rfl⟩)
  · cases want with
    | none => exact Finset.mem_insert_self _ _
    | some set =>
        refine Finset.mem_insert_of_mem (Finset.mem_image.mpr ⟨set, ?_, rfl⟩)
        refine Finset.mem_powerset.mpr fun text member => ?_
        have reached := (sound.several name set wanted).2 text member
        exact List.mem_toFinset.mpr (List.mem_filterMap.mpr ⟨_, kept.wants reached, rfl⟩)

/-- No project is visited twice under one want. -/
theorem Rounds.done (rounds : Rounds pep isPrivate roots complete stored n s)
    (unchanged : Unchanged complete stored) : s.done.Nodup ∧ n ≤ s.done.length ∧
      ∀ visit ∈ s.done, visit ∈ visitable pep roots complete stored := by
  induction rounds with
  | start => exact ⟨List.nodup_nil, Nat.le_refl 0, fun _ member => nomatch member⟩
  | @next n s jobs jobs' advances before pends busy order hypothesis =>
      obtain ⟨nodup, long, within⟩ := hypothesis
      obtain ⟨wants, found, distinct, jobsAre⟩ := pending_eq pends
      have jobsAre' (job : String × Want) (member : job ∈ jobs) :=
        (jobsAre job.1 job.2).mp (order.mem_iff.mp member)
      refine ⟨List.nodup_append.mpr ⟨nodup, ?_, ?_⟩, ?_, ?_⟩
      · exact List.Nodup.of_map _ ((order.map Prod.fst).nodup_iff.mpr distinct)
      · intro visit old job member same
        rw [same] at old
        exact (jobsAre' job member).2 old
      · have some : jobs.length ≠ 0 := by
          intro none
          rw [List.length_eq_zero_iff.mp none] at order
          exact busy order.symm.eq_nil
        change n + 1 ≤ (s.done ++ jobs).length
        rw [List.length_append]
        omega
      · intro visit member
        cases List.mem_append.mp member with
        | inl old => exact within visit old
        | inr new => exact mem_visitable (before.kept unchanged) found (jobsAre' visit new).1

/-- However the jobs of a round are ordered, a run has only so many rounds. -/
theorem Rounds.bounded (rounds : Rounds pep isPrivate roots complete stored n s)
    (unchanged : Unchanged complete stored) : n ≤ (visitable pep roots complete stored).card := by
  obtain ⟨nodup, long, within⟩ := rounds.done unchanged
  rw [← List.toFinset_card_of_nodup nodup] at long
  exact long.trans (Finset.card_le_card fun visit member => within visit (List.mem_toFinset.mp member))

end Pypiron.SyncRounds
