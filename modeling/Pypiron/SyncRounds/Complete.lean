import Pypiron.SyncRounds.Bounded

/-! Where no want returns that a project was visited under before its last visit,
the rounds end complete. None does where the wants only grow from round to round; a
stale memo can make one narrow, and return. -/
namespace Pypiron.SyncRounds
open KeyedMap Deps

variable {V S : Type} {pep : Pep440 V S} {isPrivate : String → Bool} {roots : List (PackageSpec S)}
  {complete stored : KeyedMap String DepsMemo} {s : State} {n : ℕ} {name : String} {want : Want}

/-! ### Wants that return -/

/-- A want that is not visited again, as it was before, although the project's last
visit was under another. -/
def Returns (pep : Pep440 V S) (isPrivate : String → Bool) (roots : List (PackageSpec S))
    (s : State) (name : String) (want : Want) : Prop :=
  ∃ wants, closure pep isPrivate roots s.memos = some wants ∧ wants.lookup name = some want ∧
    (name, want) ∈ s.done ∧ s.visits.lookup name ≠ some want

/-- Rounds in which no want returns. -/
inductive Straight (pep : Pep440 V S) (isPrivate : String → Bool) (roots : List (PackageSpec S))
    (complete stored : KeyedMap String DepsMemo) : ℕ → State → Prop where
  | start : Straight pep isPrivate roots complete stored 0 (SyncRounds.start stored)
  | next {n s jobs jobs'} (advances : String → Bool)
      (before : Straight pep isPrivate roots complete stored n s)
      (pends : pending pep isPrivate roots s = some jobs') (busy : jobs' ≠ [])
      (order : jobs.Perm jobs')
      (straight : ∀ name want,
        ¬ Returns pep isPrivate roots (SyncRounds.round pep complete stored advances jobs s) name want) :
      Straight pep isPrivate roots complete stored (n + 1)
        (SyncRounds.round pep complete stored advances jobs s)

theorem Straight.rounds (straight : Straight pep isPrivate roots complete stored n s) :
    Rounds pep isPrivate roots complete stored n s := by
  induction straight with
  | start => exact .start
  | next advances _ pends busy order _ hypothesis => exact .next advances hypothesis pends busy order

theorem Straight.unreturned (straight : Straight pep isPrivate roots complete stored n s) :
    ¬ Returns pep isPrivate roots s name want := by
  cases straight with
  | start =>
      rintro ⟨_, _, _, member, _⟩
      cases member
  | next _ _ _ _ _ straight => exact straight name want

/-- Ended, the rounds have visited each project under its want last. -/
theorem Straight.visits (straight : Straight pep isPrivate roots complete stored n s)
    (ended : Ended pep isPrivate roots s) {wants : KeyedMap String Want}
    (found : closure pep isPrivate roots s.memos = some wants) (wanted : wants.lookup name = some want) :
    s.visits.lookup name = some want := by
  obtain ⟨wants', found', -, jobsAre⟩ := pending_eq ended
  cases found.symm.trans found'
  by_contra other
  by_cases member : (name, want) ∈ s.done
  · exact straight.unreturned ⟨wants, found, wanted, member, other⟩
  · cases (jobsAre name want).mpr ⟨wanted, member⟩

/-! ### Wants that only grow -/

/-- A want that takes whatever another does, by its specifiers. -/
def Wider (want want' : Want) : Prop := ∀ specifiers, covers want specifiers → covers want' specifiers

theorem Wider.antisymm {want want' : Want} (wider : Wider want want') (wider' : Wider want' want) :
    want = want' := by
  have takesAll {want : Want} : covers want none ↔ want = none := by
    constructor
    · intro covered
      cases want with
      | none => rfl
      | some set =>
          obtain ⟨text, none, -⟩ := covered set rfl
          cases none
    · rintro rfl set none
      cases none
  have takesText {set : Finset String} {text : String} : covers (some set) (some text) ↔ text ∈ set := by
    constructor
    · intro covered
      obtain ⟨_, here, member⟩ := covered set rfl
      cases here
      exact member
    · intro member set' same
      cases same
      exact ⟨text, rfl, member⟩
  cases want with
  | none => exact (takesAll.mp (wider none (takesAll.mpr rfl))).symm
  | some set =>
      cases want' with
      | none => exact takesAll.mp (wider' none (takesAll.mpr rfl))
      | some set' =>
          congr 1
          ext text
          exact ⟨fun member => takesText.mp (wider _ (takesText.mpr member)),
            fun member => takesText.mp (wider' _ (takesText.mpr member))⟩

/-- From one round to the next no want narrows, and none is dropped. -/
def Grows (pep : Pep440 V S) (isPrivate : String → Bool) (roots : List (PackageSpec S))
    (s s' : State) : Prop :=
  ∀ wants wants', closure pep isPrivate roots s.memos = some wants →
    closure pep isPrivate roots s'.memos = some wants' → ∀ name want, wants.lookup name = some want →
      ∃ want', wants'.lookup name = some want' ∧ Wider want want'

/-- Rounds between which the wants only grow. -/
inductive Growing (pep : Pep440 V S) (isPrivate : String → Bool) (roots : List (PackageSpec S))
    (complete stored : KeyedMap String DepsMemo) : ℕ → State → Prop where
  | start : Growing pep isPrivate roots complete stored 0 (SyncRounds.start stored)
  | next {n s jobs jobs'} (advances : String → Bool)
      (before : Growing pep isPrivate roots complete stored n s)
      (pends : pending pep isPrivate roots s = some jobs') (busy : jobs' ≠ [])
      (order : jobs.Perm jobs')
      (grows : Grows pep isPrivate roots s (SyncRounds.round pep complete stored advances jobs s)) :
      Growing pep isPrivate roots complete stored (n + 1)
        (SyncRounds.round pep complete stored advances jobs s)

/-- A project's last visit was under the widest want so far, and none that is
wider than the one it has now. -/
structure Latest (pep : Pep440 V S) (isPrivate : String → Bool) (roots : List (PackageSpec S))
    (s : State) : Prop where
  widest : ∀ name want, (name, want) ∈ s.done →
    ∃ last, s.visits.lookup name = some last ∧ Wider want last
  within : ∀ wants, closure pep isPrivate roots s.memos = some wants → ∀ name last,
    s.visits.lookup name = some last → ∃ want, wants.lookup name = some want ∧ Wider last want

theorem Growing.latest (growing : Growing pep isPrivate roots complete stored n s) :
    Latest pep isPrivate roots s := by
  induction growing with
  | start =>
      constructor
      case widest =>
        intro _ _ member
        cases member
      case within =>
        intro _ _ _ _ visited
        cases visited
  | @next n s jobs jobs' advances before pends busy order grows hypothesis =>
      obtain ⟨wants, found, distinct, jobsAre⟩ := pending_eq pends
      have distinct := (order.map Prod.fst).nodup_iff.mpr distinct
      have jobsAre' (job : String × Want) (member : job ∈ jobs) :=
        (jobsAre job.1 job.2).mp (order.mem_iff.mp member)
      constructor
      case widest =>
        intro name want member
        cases List.mem_append.mp member with
        | inr new => exact ⟨want, round_visits_job distinct new, fun _ => id⟩
        | inl old =>
            obtain ⟨last, visited, wider⟩ := hypothesis.widest name want old
            by_cases here : ∃ job ∈ jobs, job.1 = name
            · obtain ⟨job, new, rfl⟩ := here
              obtain ⟨want', wanted, within⟩ := hypothesis.within wants found job.1 last visited
              obtain rfl : want' = job.2 :=
                Option.some.inj (wanted.symm.trans (jobsAre' job new).1)
              exact ⟨job.2, round_visits_job distinct new,
                fun specifiers covered => within specifiers (wider specifiers covered)⟩
            · push Not at here
              exact ⟨last, (round_other here).1.trans visited, wider⟩
      case within =>
        intro wants' found' name last visited
        have grown (want : Want) (wanted : wants.lookup name = some want) (wider : Wider last want) :
            ∃ want', wants'.lookup name = some want' ∧ Wider last want' := by
          obtain ⟨want', wanted', grown⟩ := grows wants wants' found found' name want wanted
          exact ⟨want', wanted', fun specifiers covered => grown specifiers (wider specifiers covered)⟩
        by_cases here : ∃ job ∈ jobs, job.1 = name
        · obtain ⟨job, new, rfl⟩ := here
          obtain rfl : job.2 = last :=
            Option.some.inj ((round_visits_job distinct new).symm.trans visited)
          exact grown job.2 (jobsAre' job new).1 fun _ => id
        · push Not at here
          rw [(round_other here).1] at visited
          obtain ⟨want, wanted, wider⟩ := hypothesis.within wants found name last visited
          exact grown want wanted wider

theorem Growing.straight (growing : Growing pep isPrivate roots complete stored n s) :
    Straight pep isPrivate roots complete stored n s := by
  induction growing with
  | start => exact .start
  | @next n s jobs jobs' advances before pends busy order grows hypothesis =>
      refine .next advances hypothesis pends busy order ?_
      rintro name want ⟨wants, found, wanted, member, other⟩
      have latest := (before.next advances pends busy order grows).latest
      obtain ⟨last, visited, wider⟩ := latest.widest name want member
      obtain ⟨want', wanted', within⟩ := latest.within wants found name last visited
      cases wanted.symm.trans wanted'
      exact other (visited.trans (congrArg some (within.antisymm wider)))

/-! ### Rounds that end complete -/

/-- The loop has ended complete: each project's last visit was under the want it
ends with, and the wants are those over all that the filters select. -/
def Complete (pep : Pep440 V S) (isPrivate : String → Bool) (roots : List (PackageSpec S))
    (complete : KeyedMap String DepsMemo) (s : State) : Prop :=
  ∃ wants wants', closure pep isPrivate roots s.memos = some wants ∧
    closure pep isPrivate roots complete = some wants' ∧ ∀ name,
      wants.lookup name = wants'.lookup name ∧
        ∀ want, wants.lookup name = some want → s.visits.lookup name = some want

/-- Where each wanted project was last visited under its want, the same is reached
over its memo as over all that the filters select. -/
theorem reaches_complete_iff (kept : Kept pep complete stored s) {final : Wants}
    (ends : Ends pep isPrivate s.memos roots (some final))
    (visits : ∀ name want, final.wants.lookup name = some want → s.visits.lookup name = some want)
    (fact : Fact S) :
    Reaches pep isPrivate roots s.memos fact ↔ Reaches pep isPrivate roots complete fact := by
  have memo_of {name : String} {specifiers : Option String}
      (reached : Reaches pep isPrivate roots s.memos (.version name specifiers)) :
      ∃ want memo, covers want specifiers ∧ s.memos.lookup name = some memo ∧
        ∀ version, memo.lookup version = (select pep complete name want).lookup version := by
    obtain ⟨want, wanted, covered⟩ := ends.lookup specifiers reached
    obtain ⟨memo, known, same⟩ := kept.visited name want (visits name want wanted)
    exact ⟨want, memo, covered, known, same⟩
  constructor
  · intro reached
    induction reached with
    | listed member => exact .listed member
    | text wanted known released taken member hypothesis =>
        obtain ⟨want, memo, -, known', same⟩ := memo_of wanted
        cases known.symm.trans known'
        rw [same] at released
        obtain ⟨⟨memo', known, released⟩, -⟩ := lookup_select.mp released
        exact .text hypothesis known released taken member
    | always _ parsed always hypothesis => exact .always hypothesis parsed always
    | asked _ parsed only _ reads asks => exact .asked reads parsed only asks
    | version _ unlisted unreserved hypothesis => exact .version hypothesis unlisted unreserved
    | extra _ unlisted unreserved member hypothesis =>
        exact .extra hypothesis unlisted unreserved member
  · intro reached
    induction reached with
    | listed member => exact .listed member
    | text _ known released taken member hypothesis =>
        obtain ⟨want, memo, covered, known', same⟩ := memo_of hypothesis
        have there := (same _).trans
          (lookup_select.mpr ⟨⟨_, known, released⟩, takes_of_covers covered taken⟩)
        exact .text hypothesis known' there taken member
    | always _ parsed always hypothesis => exact .always hypothesis parsed always
    | asked _ parsed only _ reads asks => exact .asked reads parsed only asks
    | version _ unlisted unreserved hypothesis => exact .version hypothesis unlisted unreserved
    | extra _ unlisted unreserved member hypothesis =>
        exact .extra hypothesis unlisted unreserved member

/-! ### Memos that are not stale -/

/-- Every stored memo names releases that the filters still select only. -/
def Current (complete memos : KeyedMap String DepsMemo) : Prop :=
  ∀ name memo version texts, memos.lookup name = some memo → memo.lookup version = some texts →
    ∃ memo', complete.lookup name = some memo' ∧ memo'.lookup version = some texts

theorem Current.unchanged (current : Current complete stored) : Unchanged complete stored := by
  intro name memo memo' version texts texts' found known released released'
  obtain ⟨memo'', known', there⟩ := current name memo version texts found released
  cases known.symm.trans known'
  exact Option.some.inj (there.symm.trans released')

theorem Kept.current (kept : Kept pep complete stored s) (current : Current complete stored) :
    Current complete s.memos := by
  intro name memo version texts found released
  cases visited : s.visits.lookup name with
  | none => exact current name memo version texts ((kept.unvisited name visited).symm.trans found) released
  | some want =>
      obtain ⟨memo', known, same⟩ := kept.visited name want visited
      cases found.symm.trans known
      rw [same] at released
      exact (lookup_select.mp released).1

theorem grows_of_current {jobs jobs' : List (String × Want)} {advances : String → Bool}
    (kept : Kept pep complete stored s) (current : Current complete stored)
    (pends : pending pep isPrivate roots s = some jobs') (order : jobs.Perm jobs') :
    Grows pep isPrivate roots s (round pep complete stored advances jobs s) := by
  intro wants wants' found found' name want wanted
  obtain ⟨found'', here, distinct, jobsAre⟩ := pending_eq pends
  cases found.symm.trans here
  have distinct := (order.map Prod.fst).nodup_iff.mpr distinct
  obtain ⟨final, ends, result⟩ := closure_ends pep isPrivate roots s.memos
  obtain ⟨final, rfl, rfl⟩ := Option.map_eq_some_iff.mp (result.symm.trans found)
  obtain ⟨final', ends', result'⟩ := closure_ends pep isPrivate roots
    (round pep complete stored advances jobs s).memos
  obtain ⟨final', rfl, rfl⟩ := Option.map_eq_some_iff.mp (result'.symm.trans found')
  -- what was reached is reached: a visit forgets only what its want does not take
  have reaches (fact : Fact S) (reached : Reaches pep isPrivate roots s.memos fact) :
      Reaches pep isPrivate roots (round pep complete stored advances jobs s).memos fact := by
    induction reached with
    | listed member => exact .listed member
    | @text name specifiers memo version texts text wanted known released taken member hypothesis =>
        by_cases visited : ∃ job ∈ jobs, job.1 = name
        · obtain ⟨job, listed, rfl⟩ := visited
          obtain ⟨want, wants, covered⟩ := ends.lookup specifiers wanted
          have jobIs := ((jobsAre job.1 job.2).mp (order.mem_iff.mp listed)).1
          obtain rfl : want = job.2 := Option.some.inj (wants.symm.trans jobIs)
          have there := (kept.outcome current.unchanged job version).trans (lookup_select.mpr
            ⟨kept.current current _ _ _ _ known released, takes_of_covers covered taken⟩)
          exact .text hypothesis (round_memos_job distinct listed) there taken member
        · push Not at visited
          exact .text hypothesis ((round_other visited).2.trans known) released taken member
    | always _ parsed always hypothesis => exact .always hypothesis parsed always
    | asked _ parsed only _ reads asks => exact .asked reads parsed only asks
    | version _ unlisted unreserved hypothesis => exact .version hypothesis unlisted unreserved
    | extra _ unlisted unreserved member hypothesis =>
        exact .extra hypothesis unlisted unreserved member
  have sound := ends.kept.sound final rfl
  cases want with
  | none =>
      refine ⟨none, lookup_of_wanted_none (ends'.lookup none (reaches _ (sound.every name wanted))), ?_⟩
      exact fun _ => id
  | some set =>
      obtain ⟨⟨text, member⟩, reached⟩ := sound.several name set wanted
      obtain ⟨want', wanted', -⟩ := ends'.lookup (some text) (reaches _ (reached text member))
      refine ⟨want', wanted', fun specifiers covered => ?_⟩
      obtain ⟨text, rfl, member⟩ := covered set rfl
      obtain ⟨want'', wanted'', covered⟩ := ends'.lookup (some text) (reaches _ (reached text member))
      cases wanted'.symm.trans wanted''
      exact covered

/-- Where no stored memo is stale, the wants only grow. -/
theorem Rounds.growing (rounds : Rounds pep isPrivate roots complete stored n s)
    (current : Current complete stored) : Growing pep isPrivate roots complete stored n s := by
  induction rounds with
  | start => exact .start
  | next advances before pends busy order hypothesis =>
      exact .next advances hypothesis pends busy order
        (grows_of_current (before.kept current.unchanged) current pends order)

/-! ### The rounds of a run -/

/-- A run has only so many rounds and none that panics, and where no want returns it
ends complete; none does where no stored memo is stale. -/
theorem rounds_end_complete (unchanged : Unchanged complete stored)
    (legible : Legible pep complete stored) :
    (∃ bound, ∀ n s, Rounds pep isPrivate roots complete stored n s →
      n ≤ bound ∧ pending pep isPrivate roots s ≠ none) ∧
    (∀ n s, Straight pep isPrivate roots complete stored n s → Ended pep isPrivate roots s →
      Complete pep isPrivate roots complete s) ∧
    (Current complete stored → ∀ n s, Rounds pep isPrivate roots complete stored n s →
      Straight pep isPrivate roots complete stored n s) := by
  refine ⟨?_, ?_, fun current n s rounds => (rounds.growing current).straight⟩
  · refine ⟨_, fun n s rounds => ⟨rounds.bounded unchanged, fun panics => ?_⟩⟩
    obtain ⟨final, ends, result⟩ := closure_ends pep isPrivate roots s.memos
    have alive := ends.kept.alive ((rounds.kept unchanged).readable legible)
    obtain ⟨final, rfl⟩ := Option.isSome_iff_exists.mp alive
    unfold pending at panics
    rw [result] at panics
    cases panics
  · intro n s straight ended
    have kept := straight.rounds.kept unchanged
    obtain ⟨final, ends, result⟩ := closure_ends pep isPrivate roots s.memos
    obtain ⟨final, rfl⟩ := Option.isSome_iff_exists.mp (ends.kept.alive (kept.readable legible))
    have visits (name : String) (want : Want) (wanted : final.wants.lookup name = some want) :=
      straight.visits ended result wanted
    have same := reaches_complete_iff kept ends visits
    obtain ⟨final', ends', result'⟩ := closure_ends pep isPrivate roots complete
    have readable : Readable pep isPrivate roots complete := fun name text reached =>
      ends.readable name text ((same _).mpr reached)
    obtain ⟨final', rfl⟩ := Option.isSome_iff_exists.mp (ends'.kept.alive readable)
    exact ⟨_, _, result, result', fun name => ⟨ends.lookup_eq ends' same name, visits name⟩⟩

/-! ### A stale memo -/

def memoOf (releases : List (String × List String)) : DepsMemo :=
  insertAll Prod.fst Prod.snd releases ∅

/-- An app, and what its only release requires, some of it by way of others. -/
def appSource : KeyedMap String DepsMemo :=
  insertAll Prod.fst (fun project => memoOf project.2)
    [("app", [("1", ["via", "old"])]), ("via", [("1", ["lib==1"])]), ("old", [("1", [])]),
      ("lib", [("1", ["leaf"]), ("2", [])]), ("leaf", [("1", [])])] ∅

/-- What earlier runs read of releases that are gone. -/
def staleMemos : KeyedMap String DepsMemo :=
  insertAll Prod.fst (fun project => memoOf project.2)
    [("app", [("0", ["lib==1"])]), ("old", [("0", ["lib==2"])])] ∅

def appRoots : List (PackageSpec String) := [⟨"app", none⟩]

/-- The state after so many rounds, every cursor advancing. -/
def stateAfter (source stored : KeyedMap String DepsMemo) : ℕ → State
  | 0 => start stored
  | n + 1 =>
    let s := stateAfter source stored n
    round exactly source stored (fun _ => true)
      ((pending exactly (fun _ => false) appRoots s).getD []) s

theorem pends_of_isSome (pends : (pending pep isPrivate roots s).isSome = true) :
    pending pep isPrivate roots s = some ((pending pep isPrivate roots s).getD []) := by
  obtain ⟨jobs, found⟩ := Option.isSome_iff_exists.mp pends
  rw [found]
  rfl

theorem rounds_stateAfter {source stored : KeyedMap String DepsMemo} (n : ℕ)
    (busy : ∀ k < n, (pending exactly (fun _ => false) appRoots (stateAfter source stored k)).isSome = true ∧
      (pending exactly (fun _ => false) appRoots (stateAfter source stored k)).getD [] ≠ []) :
    Rounds exactly (fun _ => false) appRoots source stored n (stateAfter source stored n) := by
  induction n with
  | zero => exact .start
  | succ n hypothesis =>
      obtain ⟨pends, busy'⟩ := busy n (Nat.lt_succ_self n)
      exact .next (fun _ => true) (hypothesis fun k below => busy k (Nat.lt_succ_of_lt below))
        (pends_of_isSome pends) busy' (.refl _)

theorem unchanged_of_all (same : ∀ project ∈ stored.entries, ∀ release ∈ project.2.entries,
    ∀ memo ∈ complete.lookup project.1, ∀ texts ∈ memo.lookup release.1, release.2 = texts) :
    Unchanged complete stored := by
  intro name memo memo' version texts texts' found known released released'
  exact same ⟨name, memo⟩ (AList.mem_lookup_iff.mp found) ⟨version, texts⟩
    (AList.mem_lookup_iff.mp released) memo' known texts' released'

theorem unreturned_of_all (all : (closure pep isPrivate roots s.memos).all (fun wants =>
    wants.entries.all fun project => (project.1, project.2) ∉ s.done ||
      s.visits.lookup project.1 = some project.2) = true) :
    ¬ Returns pep isPrivate roots s name want := by
  rintro ⟨wants, found, wanted, member, other⟩
  rw [found, Option.all_some, List.all_eq_true] at all
  have here := all ⟨name, want⟩ (AList.mem_lookup_iff.mp wanted)
  simp [member, other] at here

/-- An app that requires nothing any more, and what it required. -/
def leanSource : KeyedMap String DepsMemo :=
  insertAll Prod.fst (fun project => memoOf project.2) [("app", [("1", [])]), ("lib", [("1", [])])] ∅

def requiredOnce : KeyedMap String DepsMemo :=
  insertAll Prod.fst (fun project => memoOf project.2) [("app", [("0", ["lib"])])] ∅

/-- A stale memo has the library visited, and then no more wanted. -/
theorem complete_over_stale : Complete exactly (fun _ => false) appRoots leanSource
    (stateAfter leanSource requiredOnce 1) := by
  have unchanged : Unchanged leanSource requiredOnce := by
    apply unchanged_of_all
    decide +kernel
  have legible : Legible exactly leanSource requiredOnce := by
    intro text member panics
    have texts : allTexts leanSource requiredOnce = ["lib"] := by decide +kernel
    rw [texts] at member
    obtain rfl := List.mem_singleton.mp member
    cases panics
  refine (rounds_end_complete unchanged legible).2.1 1 _ ?_ ?_
  · refine .next (fun _ => true) .start (pends_of_isSome ?_) ?_ (.refl _) fun name want =>
      unreturned_of_all ?_
    all_goals decide +kernel
  · change pending _ _ _ _ = some []
    decide +kernel

/-- Two stale memos: the library goes back to a want it was visited under before
the last, and what its release requires is never followed. -/
theorem stale_ends_incomplete :
    Unchanged appSource staleMemos ∧ Legible exactly appSource staleMemos ∧
      Rounds exactly (fun _ => false) appRoots appSource staleMemos 2 (stateAfter appSource staleMemos 2) ∧
      Ended exactly (fun _ => false) appRoots (stateAfter appSource staleMemos 2) ∧
      ¬ Complete exactly (fun _ => false) appRoots appSource (stateAfter appSource staleMemos 2) := by
  refine ⟨?_, ?_, ?_, ?_, ?_⟩
  · apply unchanged_of_all
    decide +kernel
  · intro text member panics
    have texts : allTexts appSource staleMemos =
        ["leaf", "lib==1", "via", "old", "lib==2", "lib==1"] := by decide +kernel
    rw [texts] at member
    simp only [List.mem_cons, List.not_mem_nil, or_false] at member
    obtain rfl | rfl | rfl | rfl | rfl | rfl := member <;> cases panics
  · apply rounds_stateAfter 2
    decide +kernel
  · change pending _ _ _ _ = some []
    decide +kernel
  · rintro ⟨wants, wants', found, found', same⟩
    have missing : (closure exactly (fun _ => false) appRoots (stateAfter appSource staleMemos 2).memos).map
        (AList.lookup "leaf") = some none := by decide +kernel
    have wanted : (closure exactly (fun _ => false) appRoots appSource).map
        (AList.lookup "leaf") = some (some none) := by decide +kernel
    rw [found, Option.map_some, (same "leaf").1] at missing
    rw [found', Option.map_some] at wanted
    cases missing.symm.trans wanted

end Pypiron.SyncRounds
