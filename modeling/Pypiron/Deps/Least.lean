import Pypiron.Deps.Room
import Pypiron.Deps.Sound

/-! The closure is the least fixpoint of following requirements: the loop ends in
any order of visits with the same wants, unless it reads a requirement that the
parser panics on. -/
namespace Pypiron.Deps
open KeyedMap Worklist

variable {V S : Type} {pep : Pep440 V S} {isPrivate : String → Bool} {roots : List (PackageSpec S)}
  {memos : KeyedMap String DepsMemo} {s s' : Wants} {name text : String} {req : Requirement S}
  {pushed pushed' : List String}

/-! ### The loop in any order -/

/-- The loop from a list of roots, in an order of visits, to an empty queue. -/
def Ends (pep : Pep440 V S) (isPrivate : String → Bool) (memos : KeyedMap String DepsMemo)
    (roots : List (PackageSpec S)) (final : Option Wants) : Prop :=
  ∃ n queue, queue.Perm (start pep roots).wants.keys ∧
    Steps (visit pep isPrivate (isListed roots) memos) n (some (start pep roots)) queue final []

theorem Settled.perm {listed : String → Bool} {now : Option Wants} {queue queue' : List String}
    (same : queue.Perm queue') (settled : Settled pep isPrivate listed memos now queue) :
    Settled pep isPrivate listed memos now queue' := by
  intro s current name want wanted
  cases settled s current name want wanted with
  | inl waits => exact .inl (same.mem_iff.mp waits)
  | inr done => exact .inr done

theorem Extends.listed (extended : Extends s s' pushed)
    (listed : ∀ spec ∈ roots, s.Wanted spec.name (spec.specifiers.map pep.print)) :
    ∀ spec ∈ roots, s'.Wanted spec.name (spec.specifiers.map pep.print) :=
  fun spec member => extended.wanted _ _ (listed spec member)

/-- What holds of the wants throughout the loop. -/
structure Kept (pep : Pep440 V S) (isPrivate : String → Bool) (roots : List (PackageSpec S))
    (memos : KeyedMap String DepsMemo) (now : Option Wants) (queue : List String) : Prop where
  sound : ∀ s ∈ now, Sound pep isPrivate roots memos s
  listed : ∀ s ∈ now, ∀ spec ∈ roots, s.Wanted spec.name (spec.specifiers.map pep.print)
  settled : Settled pep isPrivate (isListed roots) memos now queue
  alive : Readable pep isPrivate roots memos → now.isSome = true

theorem Kept.start {queue : List String} (waiting : queue.Perm (start pep roots).wants.keys) :
    Kept pep isPrivate roots memos (some (start pep roots)) queue where
  sound s same := by
    cases same
    exact start_sound
  listed s same spec member := by
    cases same
    exact start_wanted member
  settled s same name want wanted := by
    cases same
    exact .inl (waiting.mem_iff.mpr (AList.mem_keys.mp (mem_of_lookup wanted)))
  alive _ := rfl

theorem Kept.visit {now : Option Wants} {queue : List String}
    (kept : Kept pep isPrivate roots memos now (name :: queue)) :
    Kept pep isPrivate roots memos (visit pep isPrivate (isListed roots) memos name now).1
      ((visit pep isPrivate (isListed roots) memos name now).2 ++ queue) := by
  have settled := kept.settled.visit
  have alive (readable : Readable pep isPrivate roots memos) :
      (Deps.visit pep isPrivate (isListed roots) memos name now).1.isSome = true := by
    obtain ⟨s, rfl⟩ := Option.isSome_iff_exists.mp (kept.alive readable)
    obtain ⟨next, pushed, visited⟩ := (kept.sound s rfl).visits readable name
    unfold Deps.visit
    rw [Option.bind_some, visited]
    rfl
  have steps (s' : Wants) (same : s' ∈ (Deps.visit pep isPrivate (isListed roots) memos name now).1) :
      ∃ s pushed, now = some s ∧ follows pep isPrivate (isListed roots) memos name s =
        some (s', pushed) := by
    unfold Deps.visit at same
    split at same
    next next pushed visited =>
      cases same
      obtain ⟨s, current, ran⟩ := Option.bind_eq_some_iff.mp visited
      exact ⟨s, pushed, current, ran⟩
    next => cases same
  constructor
  case sound =>
    intro s' same
    obtain ⟨s, pushed, rfl, visited⟩ := steps s' same
    exact (kept.sound s rfl).follows visited
  case listed =>
    intro s' same
    obtain ⟨s, pushed, rfl, visited⟩ := steps s' same
    exact (follows_spec visited).1.listed (kept.listed s rfl)
  case settled => exact settled
  case alive => exact alive

theorem Ends.kept {final : Option Wants} (ends : Ends pep isPrivate memos roots final) :
    Kept pep isPrivate roots memos final [] := by
  obtain ⟨n, queue, waiting, steps⟩ := ends
  refine steps.preserves (fun now queue queue' same kept => ?_) (fun now name queue kept => kept.visit)
    (Kept.start waiting)
  exact ⟨kept.sound, kept.listed, kept.settled.perm same, kept.alive⟩

/-- At the end, what is wanted of a project is what is reached. -/
theorem Ends.lookup {final : Wants} (ends : Ends pep isPrivate memos roots (some final))
    (specifiers : Option String) (reached : Reaches pep isPrivate roots memos (.version name specifiers)) :
    final.Wanted name specifiers :=
  holds_of_settled ends.kept.settled (ends.kept.listed final rfl) reached

/-- Whatever is wanted of a project, something of it is reached. -/
theorem Sound.reached (sound : Sound pep isPrivate roots memos s) {want : Want}
    (wanted : s.wants.lookup name = some want) :
    ∃ specifiers, Reaches pep isPrivate roots memos (.version name specifiers) := by
  cases want with
  | none => exact ⟨none, sound.every name wanted⟩
  | some set =>
      obtain ⟨⟨text, member⟩, reached⟩ := sound.several name set wanted
      exact ⟨some text, reached text member⟩

theorem lookup_of_wanted_none (wanted : s.Wanted name none) : s.wants.lookup name = some none := by
  obtain ⟨want, found, covered⟩ := wanted
  cases want with
  | none => exact found
  | some set =>
      obtain ⟨text, none, -⟩ := covered set rfl
      cases none

/-- Two ends that reach the same want the same. -/
theorem Ends.lookup_eq {roots' : List (PackageSpec S)} {memos' : KeyedMap String DepsMemo}
    {final final' : Wants} (ends : Ends pep isPrivate memos roots (some final))
    (ends' : Ends pep isPrivate memos' roots' (some final'))
    (same : ∀ fact : Fact S, Reaches pep isPrivate roots memos fact ↔
      Reaches pep isPrivate roots' memos' fact) (name : String) :
    final.wants.lookup name = final'.wants.lookup name := by
  have sound := ends.kept.sound final rfl
  have sound' := ends'.kept.sound final' rfl
  cases found : final.wants.lookup name with
  | none =>
      cases found' : final'.wants.lookup name with
      | none => rfl
      | some want' =>
          obtain ⟨specifiers, reached⟩ := sound'.reached found'
          obtain ⟨want, wanted, -⟩ := ends.lookup specifiers ((same _).mpr reached)
          cases found.symm.trans wanted
  | some want =>
      cases want with
      | none => exact (lookup_of_wanted_none
          (ends'.lookup none ((same _).mp (sound.every name found)))).symm
      | some set =>
          obtain ⟨⟨text, member⟩, reached⟩ := sound.several name set found
          obtain ⟨want', found', -⟩ := ends'.lookup (some text) ((same _).mp (reached text member))
          cases want' with
          | none =>
              have every := ends.lookup none ((same _).mpr (sound'.every name found'))
              cases found.symm.trans (lookup_of_wanted_none every)
          | some set' =>
              have reached' := (sound'.several name set' found').2
              rw [found']
              congr 2
              ext text
              constructor
              · intro member
                obtain ⟨want', wanted', covered⟩ :=
                  ends'.lookup (some text) ((same _).mp (reached text member))
                cases found'.symm.trans wanted'
                obtain ⟨_, here, listed⟩ := covered set' rfl
                cases here
                exact listed
              · intro member
                obtain ⟨want, wanted, covered⟩ :=
                  ends.lookup (some text) ((same _).mpr (reached' text member))
                cases found.symm.trans wanted
                obtain ⟨_, here, listed⟩ := covered set rfl
                cases here
                exact listed

theorem isListed_perm {roots' : List (PackageSpec S)} (same : roots.Perm roots') (name : String) :
    isListed roots name = isListed roots' name := by
  have members := (same.map PackageSpec.name).mem_iff (a := name)
  rw [Bool.eq_iff_iff]
  simpa [isListed] using members

/-- The order of the list does not matter to what it reaches. -/
theorem Reaches.perm {roots' : List (PackageSpec S)} (same : roots.Perm roots') {fact : Fact S}
    (reached : Reaches pep isPrivate roots memos fact) : Reaches pep isPrivate roots' memos fact := by
  have listed := isListed_perm same
  induction reached with
  | listed member => exact .listed (same.mem_iff.mp member)
  | text _ known released taken member hypothesis => exact .text hypothesis known released taken member
  | always _ parsed always hypothesis =>
      rw [listed] at always
      exact .always hypothesis parsed always
  | asked _ parsed only _ reads asks => exact .asked reads parsed only asks
  | version _ unlisted unreserved hypothesis =>
      rw [listed] at unlisted
      exact .version hypothesis unlisted unreserved
  | extra _ unlisted unreserved member hypothesis =>
      rw [listed] at unlisted
      exact .extra hypothesis unlisted unreserved member

variable (pep isPrivate roots memos) in
theorem closure_ends : ∃ final, Ends pep isPrivate memos roots final ∧
    closure pep isPrivate roots memos = final.map Wants.wants := by
  unfold closure
  dsimp only
  obtain ⟨n, steps⟩ := run_steps (visit pep isPrivate (isListed roots) memos)
    (room pep memos (start pep roots) + (start pep roots).wants.keys.length) (some (start pep roots))
    (start pep roots).wants.keys
  have empties : (Worklist.run (visit pep isPrivate (isListed roots) memos)
      (room pep memos (start pep roots) + (start pep roots).wants.keys.length)
      (some (start pep roots)) (start pep roots).wants.keys).2 = [] :=
    run_empties (roomLeft pep memos) (room_visit (isListed roots)) le_rfl
  rw [empties] at steps
  exact ⟨_, ⟨n, _, .refl _, steps⟩, rfl⟩

/-! ### The least fixpoint -/

/-- A specifier reads back from its printed form as it was. -/
def Prints (pep : Pep440 V S) : Prop :=
  ∀ s, ∃ s' ∈ pep.parseSpecifiers (pep.print s), ∀ v, pep.contains s' v = pep.contains s v

/-- The versions a specifier admits, or all where there is none. -/
def admits (pep : Pep440 V S) (specifiers : Option S) (version : String) : Prop :=
  ∀ s ∈ specifiers, ∃ v ∈ pep.parseVersion version, pep.contains s v = true

theorem takesOne_print (prints : Prints pep) {specifiers : Option S} {version : String} :
    takesOne pep (specifiers.map pep.print) version ↔ admits pep specifiers version := by
  cases specifiers with
  | none =>
      constructor
      · intro _ s none
        cases none
      · intro _ set none
        cases none
  | some s =>
      obtain ⟨s', read, agrees⟩ := prints s
      constructor
      · intro taken s'' same
        cases same
        obtain ⟨v, parsed, text, single, s'', again, contained⟩ := taken _ rfl
        rw [Finset.mem_singleton.mp single] at again
        cases read.symm.trans again
        exact ⟨v, parsed, (agrees v).symm.trans contained⟩
      · intro admitted set same
        cases same
        obtain ⟨v, parsed, contained⟩ := admitted s rfl
        exact ⟨v, parsed, _, Finset.mem_singleton_self _, s', read, (agrees v).trans contained⟩

/-- A map of wants with each listed package at exactly its own specifiers, and
with whatever the active requirements of its wanted releases ask for. -/
structure Fixpoint (pep : Pep440 V S) (isPrivate : String → Bool) (roots : List (PackageSpec S))
    (memos : KeyedMap String DepsMemo) (wants : KeyedMap String Want)
    (followed : String → String → Prop) : Prop where
  listed : ∀ name, isListed roots name = true → ∃ want, wants.lookup name = some want ∧
    (want = none ↔ ∃ spec ∈ roots, spec.name = name ∧ spec.specifiers = none) ∧
    ∀ set, want = some set → ∀ text, text ∈ set ↔
      ∃ spec ∈ roots, spec.name = name ∧ ∃ s, spec.specifiers = some s ∧ pep.print s = text
  required : ∀ name want memo version texts text req, wants.lookup name = some want →
    memos.lookup name = some memo → memo.lookup version = some texts → takes pep want version →
    text ∈ texts → parseRequirement pep text = .requirement req →
    (isListed roots name = true ∨ req.onlyFor = [] ∨ ∃ extra ∈ req.onlyFor, followed name extra) →
    isListed roots req.name = true ∨ isPrivate req.name = true ∨
      (∃ wanted, wants.lookup req.name = some wanted ∧
        ∀ version, admits pep req.specifiers version → takes pep wanted version) ∧
      ∀ extra ∈ req.extras, followed req.name extra

/-- The loop ends whatever the order of the list and of the visits, always with
the same wants, and these are the least fixpoint. -/
structure LeastClosure (pep : Pep440 V S) (isPrivate : String → Bool) (roots : List (PackageSpec S))
    (memos : KeyedMap String DepsMemo) : Prop where
  terminates : ∀ roots', roots.Perm roots' → ∃ bound, ∀ n queue now rest,
    queue.Perm (start pep roots').wants.keys →
    Steps (visit pep isPrivate (isListed roots') memos) n (some (start pep roots')) queue now rest →
      n ≤ bound
  least : ∃ wants, closure pep isPrivate roots memos = some wants ∧
    (∀ roots' final, roots.Perm roots' → Ends pep isPrivate memos roots' final →
      ∃ s, final = some s ∧ ∀ name, s.wants.lookup name = wants.lookup name) ∧
    (∃ followed, Fixpoint pep isPrivate roots memos wants followed) ∧
    ∀ wants' followed', Fixpoint pep isPrivate roots memos wants' followed' →
      ∀ name want, wants.lookup name = some want → ∃ want', wants'.lookup name = some want' ∧
        ∀ version, takes pep want version → takes pep want' version

/-- A listed package is reached for what it lists only. -/
theorem reaches_listed {specifiers : Option String} (listed : isListed roots name = true)
    (reached : Reaches pep isPrivate roots memos (.version name specifiers)) :
    ∃ spec ∈ roots, spec.name = name ∧ spec.specifiers.map pep.print = specifiers := by
  cases reached with
  | listed member => exact ⟨_, member, rfl, rfl⟩
  | version _ unlisted _ => exact absurd listed (by simp [unlisted])

theorem Ends.fixpoint (prints : Prints pep) {final : Wants}
    (ends : Ends pep isPrivate memos roots (some final)) :
    Fixpoint pep isPrivate roots memos final.wants fun name extra => extra ∈ final.on name := by
  have kept := ends.kept
  constructor
  case listed =>
    intro name listed
    obtain ⟨spec, member, rfl⟩ := List.mem_map.mp (List.contains_iff_mem.mp listed)
    obtain ⟨want, found, -⟩ := kept.listed final rfl spec member
    refine ⟨want, found, ⟨fun every => ?_, ?_⟩, fun set same text => ⟨fun member => ?_, ?_⟩⟩
    · rw [every] at found
      obtain ⟨spec', member', name', same⟩ :=
        reaches_listed listed ((kept.sound final rfl).every _ found)
      exact ⟨spec', member', name', Option.map_eq_none_iff.mp same⟩
    · rintro ⟨spec', member', name', bare⟩
      have wanted := kept.listed final rfl spec' member'
      rw [bare, name'] at wanted
      exact Option.some.inj (found.symm.trans (lookup_of_wanted_none wanted))
    · rw [same] at found
      obtain ⟨spec', member', name', printed⟩ :=
        reaches_listed listed (((kept.sound final rfl).several _ set found).2 text member)
      obtain ⟨s, specified, printed⟩ := Option.map_eq_some_iff.mp printed
      exact ⟨spec', member', name', s, specified, printed⟩
    · rintro ⟨spec', member', name', s, specified, printed⟩
      obtain ⟨want', found', covered⟩ := kept.listed final rfl spec' member'
      rw [name'] at found'
      obtain rfl : want = want' := Option.some.inj (found.symm.trans found')
      obtain ⟨text', here, inside⟩ := covered set same
      rw [specified] at here
      cases here
      rw [printed] at inside
      exact inside
  case required =>
    intro name want memo version texts text req wanted known released taken member parsed active
    obtain ⟨done, -⟩ := (kept.settled final rfl name want wanted).resolve_left List.not_mem_nil
    have met := done memo want text req known wanted
      (mem_requires.mpr ⟨version, texts, released, taken, member⟩) parsed ?_
    · cases met with
      | inl isRoot => exact .inl isRoot
      | inr met =>
          cases met with
          | inl reserved => exact .inr (.inl reserved)
          | inr met =>
              obtain ⟨⟨want', found', covered⟩, extras⟩ := met
              exact .inr (.inr ⟨⟨want', found', fun version admitted =>
                takes_of_covers covered ((takesOne_print prints).mpr admitted)⟩, extras⟩)
    · simp only [Wants.active, Bool.or_eq_true, List.isEmpty_iff, List.any_eq_true,
        decide_eq_true_eq, or_assoc]
      exact active

/-- Whatever is reached is in every fixpoint. -/
theorem Fixpoint.contains (prints : Prints pep) {wants : KeyedMap String Want}
    {followed : String → String → Prop} (fixpoint : Fixpoint pep isPrivate roots memos wants followed)
    {fact : Fact S} (reached : Reaches pep isPrivate roots memos fact) :
    match fact with
    | .version name specifiers => ∃ want, wants.lookup name = some want ∧
        ∀ version, takesOne pep specifiers version → takes pep want version
    | .text name text => ∃ want memo version texts, wants.lookup name = some want ∧
        memos.lookup name = some memo ∧ memo.lookup version = some texts ∧
        takes pep want version ∧ text ∈ texts
    | .requirement req => isListed roots req.name = true ∨ isPrivate req.name = true ∨
        (∃ wanted, wants.lookup req.name = some wanted ∧
          ∀ version, admits pep req.specifiers version → takes pep wanted version) ∧
        ∀ extra ∈ req.extras, followed req.name extra
    | .extra name extra => followed name extra := by
  induction reached with
  | @listed spec member =>
      have listed : isListed roots spec.name = true :=
        List.contains_iff_mem.mpr (List.mem_map_of_mem member)
      obtain ⟨want, found, every, several⟩ := fixpoint.listed spec.name listed
      refine ⟨want, found, fun version taken => ?_⟩
      cases want with
      | none => exact takes_none
      | some set =>
          cases specified : spec.specifiers with
          | none => cases every.mpr ⟨spec, member, rfl, specified⟩
          | some s =>
              rw [specified] at taken
              exact takes_some.mpr ⟨pep.print s,
                (several set rfl (pep.print s)).mpr ⟨spec, member, rfl, s, specified, rfl⟩, taken⟩
  | text _ known released taken member hypothesis =>
      obtain ⟨want, found, wider⟩ := hypothesis
      exact ⟨want, _, _, _, found, known, released, wider _ taken, member⟩
  | always _ parsed always hypothesis =>
      obtain ⟨want, memo, version, texts, found, known, released, taken, member⟩ := hypothesis
      apply fixpoint.required _ want memo version texts _ _ found known released taken member parsed
      cases always with
      | inl isRoot => exact .inl isRoot
      | inr bare => exact .inr (.inl bare)
  | asked _ parsed only _ reads asks =>
      obtain ⟨want, memo, version, texts, found, known, released, taken, member⟩ := reads
      exact fixpoint.required _ want memo version texts _ _ found known released taken member parsed
        (.inr (.inr ⟨_, only, asks⟩))
  | version _ unlisted unreserved hypothesis =>
      cases hypothesis with
      | inl isRoot => exact absurd isRoot (by simp [unlisted])
      | inr met =>
          cases met with
          | inl reserved => exact absurd reserved (by simp [unreserved])
          | inr met =>
              obtain ⟨⟨want, found, wider⟩, -⟩ := met
              exact ⟨want, found, fun version taken => wider version ((takesOne_print prints).mp taken)⟩
  | extra _ unlisted unreserved member hypothesis =>
      cases hypothesis with
      | inl isRoot => exact absurd isRoot (by simp [unlisted])
      | inr met =>
          cases met with
          | inl reserved => exact absurd reserved (by simp [unreserved])
          | inr met => exact met.2 _ member

theorem Ends.readable {final : Wants} (ends : Ends pep isPrivate memos roots (some final)) :
    Readable pep isPrivate roots memos := by
  intro name text reached
  obtain ⟨memo, want, known, wanted, member⟩ : ∃ memo want, memos.lookup name = some memo ∧
      final.wants.lookup name = some want ∧ text ∈ requires pep memo want :=
    holds_of_settled ends.kept.settled (ends.kept.listed final rfl) reached
  obtain ⟨-, legible⟩ := (ends.kept.settled final rfl name want wanted).resolve_left List.not_mem_nil
  exact legible memo want text known wanted member

theorem Readable.perm {roots' : List (PackageSpec S)} (same : roots.Perm roots')
    (readable : Readable pep isPrivate roots memos) : Readable pep isPrivate roots' memos :=
  fun name text reached => readable name text (reached.perm same.symm)

/-- The closure is the least fixpoint, whatever the order of the list and of the
visits, exactly where no requirement that following reaches panics. -/
theorem closure_least_iff (prints : Prints pep) :
    LeastClosure pep isPrivate roots memos ↔ Readable pep isPrivate roots memos := by
  obtain ⟨final, ends, result⟩ := closure_ends pep isPrivate roots memos
  constructor
  · rintro ⟨-, wants, found, -⟩
    cases final with
    | none => cases result.symm.trans found
    | some final => exact ends.readable
  · intro readable
    obtain ⟨final, rfl⟩ := Option.isSome_iff_exists.mp (ends.kept.alive readable)
    constructor
    case terminates =>
      intro roots' same
      refine ⟨room pep memos (start pep roots') + (start pep roots').wants.keys.length, ?_⟩
      intro n queue now rest waiting steps
      have bound := steps.bounded (roomLeft pep memos)
        (room_visit (isListed roots'))
      rw [waiting.length_eq] at bound
      change n + _ + _ ≤ room pep memos (start pep roots') + _ at bound
      omega
    case least =>
      refine ⟨final.wants, result, ?_, ⟨_, ends.fixpoint prints⟩, ?_⟩
      · intro roots' final' same ends'
        obtain ⟨s, rfl⟩ := Option.isSome_iff_exists.mp (ends'.kept.alive (readable.perm same))
        exact ⟨s, rfl, fun name => (ends.lookup_eq ends'
          (fun fact => ⟨fun reached => reached.perm same, fun reached => reached.perm same.symm⟩)
          name).symm⟩
      · intro wants' followed' fixpoint name want found
        cases want with
        | none =>
            obtain ⟨want', found', wider⟩ :=
              fixpoint.contains prints ((ends.kept.sound final rfl).every name found)
            exact ⟨want', found', fun version taken => wider version taken⟩
        | some set =>
            obtain ⟨⟨text, member⟩, reached⟩ := (ends.kept.sound final rfl).several name set found
            obtain ⟨want', found', -⟩ := fixpoint.contains prints (reached text member)
            refine ⟨want', found', fun version taken => ?_⟩
            obtain ⟨text, member, taken⟩ := takes_some.mp taken
            obtain ⟨want'', found'', wider⟩ := fixpoint.contains prints (reached text member)
            cases found'.symm.trans found''
            exact wider version taken

/-! ### A marker that ends inside a quote -/

/-- Versions as they are spelled, and only exact specifiers. -/
def exactly : Pep440 String String where
  parseVersion := some
  parseSpecifiers := some
  print := id
  contains specifier version := specifier = "==" ++ version
  isAlphanumeric := Char.isAlphanum

theorem exactly_prints : Prints exactly := fun specifier => ⟨specifier, rfl, fun _ => rfl⟩

/-- An app, and a library that one release of it requires with an extra. -/
def appMemos (marker : String) : KeyedMap String DepsMemo :=
  ⟨[⟨"app", ⟨[⟨"1.0", ["lib[socks] (==2.0); " ++ marker]⟩], List.nodupKeys_singleton _⟩⟩,
    ⟨"lib", ⟨[⟨"2.0", ["pysocks; extra == 'socks'"]⟩], List.nodupKeys_singleton _⟩⟩],
    by change ["app", "lib"].Nodup; decide⟩

theorem least_of_appMemos : LeastClosure exactly (fun _ => false) [⟨"app", none⟩]
    (appMemos "extra == \"fast\"") := by
  apply (closure_least_iff exactly_prints).mpr
  intro name text reached
  cases reached with
  | text _ known released _ member =>
      have entry := AList.mem_lookup_iff.mp known
      cases entry with
      | head =>
          cases List.mem_singleton.mp (AList.mem_lookup_iff.mp released)
          rw [List.mem_singleton.mp member]
          exact fun panics => nomatch panics
      | tail _ entry =>
          cases List.mem_singleton.mp entry
          cases List.mem_singleton.mp (AList.mem_lookup_iff.mp released)
          rw [List.mem_singleton.mp member]
          exact fun panics => nomatch panics

/-- A release whose marker ends in an unclosed quote and a letter of two bytes. -/
theorem closure_panics :
    ¬ LeastClosure exactly (fun _ => false) [⟨"app", none⟩] (appMemos "extra == \"é") := by
  rintro ⟨-, wants, found, -⟩
  have panics : closure exactly (fun _ => false) [⟨"app", none⟩] (appMemos "extra == \"é") = none := by
    rfl
  cases panics.symm.trans found

end Pypiron.Deps
