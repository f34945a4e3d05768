import Pypiron.Worker.EventProtocol

/-! Bookkeeping invariants of the event protocol: marker keys are never reused,
a tick reaches only keys it listed, and a live writer's intent stands where no
tick can consume it. -/
namespace Pypiron.EventProtocol
variable {T V : Type} {site : Site T V} {intentGrace : Nat} {turn : Turn V}
variable {s next : State T V} {tick : Tick V} {job : Job V} {id : Nat} {pkg key nonce : String}

@[simp] theorem State.setTick_ticks (s : State T V) (id : Nat) (tick : Option (Tick V)) :
    (s.setTick id tick).ticks = Function.update s.ticks id tick := rfl

@[simp] theorem Tick.setJob_jobs (tick : Tick V) (pkg : String) (job : Job V) :
    (tick.setJob pkg job).jobs = Function.update tick.jobs pkg (some job) := rfl

@[simp] theorem Job.taint_keys (job : Job V) : job.taint.keys = job.keys := by
  unfold Job.taint
  split <;> rfl

/-- The keys a tick may still delete. -/
def Tick.Holds (tick : Tick V) (key : String) : Prop :=
  (∃ pkg job, tick.jobs pkg = some job ∧ key ∈ job.keys) ∨
    ∃ consumed, tick.stage = .deleting consumed ∧ key ∈ consumed

/-- The markers, the log of their keys, and what ticks hold of them. -/
structure Ledger (s : State T V) : Prop where
  logged : ∀ entry ∈ s.markers, entry.key ∈ s.born
  unique : s.born.Nodup
  horizon : ∀ id tick, s.ticks id = some tick → tick.horizon ≤ s.born.length
  listed : ∀ id tick, s.ticks id = some tick → ∀ entry ∈ tick.listing,
    entry.key ∈ s.born.take tick.horizon
  held : ∀ id tick key, s.ticks id = some tick → tick.Holds key →
    ∃ entry ∈ tick.listing, entry.key = key
  owned : ∀ id tick pkg job key, s.ticks id = some tick → tick.jobs pkg = some job →
    key ∈ job.keys → ∃ marker, parseMarker ⟨key, none⟩ = some (pkg, marker)

/-- A live writer's intent stands, dated, unpaired, and out of every tick's reach. -/
structure LiveWriter (intentGrace : Nat) (s : State T V) (pkg nonce : String) (started : Nat) :
    Prop where
  clean : '!' ∉ pkg.toList
  young : s.now < started + intentGrace
  standing : ⟨intentKey pkg nonce, some started⟩ ∈ s.markers
  dated : ∀ entry ∈ s.markers, entry.key = intentKey pkg nonce → entry.lastModified = some started
  only : ∀ key ∈ s.born, ∀ marker, parseMarker ⟨key, none⟩ = some (pkg, marker) →
    marker.nonce = some nonce → key = intentKey pkg nonce
  listed : ∀ id tick, s.ticks id = some tick → ∀ entry ∈ tick.listing,
    entry.key = intentKey pkg nonce → entry.lastModified = some started
  unheld : ∀ id tick, s.ticks id = some tick → ¬ tick.Holds (intentKey pkg nonce)

def Writers (intentGrace : Nat) (s : State T V) : Prop :=
  ∀ pkg nonce started, s.writers (pkg, nonce) = some started →
    LiveWriter intentGrace s pkg nonce started

/-- A change of ticks that lists nothing new and takes no new key into reach. -/
structure Narrows (s next : State T V) : Prop where
  markers : next.markers = s.markers
  born : next.born = s.born
  now : next.now = s.now
  writers : next.writers = s.writers
  ticks : ∀ id after, next.ticks id = some after → ∃ tick, s.ticks id = some tick ∧
    after.listing = tick.listing ∧ after.horizon = tick.horizon ∧
    (∀ key, after.Holds key → tick.Holds key) ∧
    ∀ pkg job key, after.jobs pkg = some job → key ∈ job.keys →
      ∃ before, tick.jobs pkg = some before ∧ key ∈ before.keys

theorem Narrows.ledger (narrows : Narrows s next) (ledger : Ledger s) : Ledger next where
  logged := by
    rw [narrows.markers, narrows.born]
    exact ledger.logged
  unique := by
    rw [narrows.born]
    exact ledger.unique
  horizon id after found := by
    obtain ⟨tick, before, -, same, -⟩ := narrows.ticks id after found
    rw [narrows.born, same]
    exact ledger.horizon id tick before
  listed id after found entry member := by
    obtain ⟨tick, before, listing, same, -⟩ := narrows.ticks id after found
    rw [narrows.born, same]
    exact ledger.listed id tick before entry (listing ▸ member)
  held id after key found holds := by
    obtain ⟨tick, before, listing, -, held, -⟩ := narrows.ticks id after found
    rw [listing]
    exact ledger.held id tick key before (held key holds)
  owned id after pkg job key found working member := by
    obtain ⟨tick, before, -, -, -, kept⟩ := narrows.ticks id after found
    obtain ⟨job, started, owned⟩ := kept pkg job key working member
    exact ledger.owned id tick pkg job key before started owned

theorem Narrows.liveWriters (narrows : Narrows s next) (live : Writers intentGrace s) :
    Writers intentGrace next := by
  intro pkg nonce started writing
  rw [narrows.writers] at writing
  have writer := live pkg nonce started writing
  refine ⟨writer.clean, ?_, ?_, ?_, ?_, ?_, ?_⟩
  · rw [narrows.now]
    exact writer.young
  · rw [narrows.markers]
    exact writer.standing
  · rw [narrows.markers]
    exact writer.dated
  · rw [narrows.born]
    exact writer.only
  · intro id after found entry member
    obtain ⟨tick, before, listing, -⟩ := narrows.ticks id after found
    exact writer.listed id tick before entry (listing ▸ member)
  · intro id after found holds
    obtain ⟨tick, before, -, -, held, -⟩ := narrows.ticks id after found
    exact writer.unheld id tick before (held _ holds)

/-- A tick whose jobs hold no more than before, and which deletes only keys its
jobs held. -/
theorem narrows_setTick {after : Tick V} (ticks : next.ticks = Function.update s.ticks id after)
    (found : s.ticks id = some tick) (listing : after.listing = tick.listing) (horizon : after.horizon = tick.horizon)
    (kept : ∀ pkg job key, after.jobs pkg = some job → key ∈ job.keys →
      ∃ before, tick.jobs pkg = some before ∧ key ∈ before.keys)
    (deletes : ∀ consumed key, after.stage = .deleting consumed → key ∈ consumed →
      tick.Holds key)
    (markers : next.markers = s.markers) (born : next.born = s.born) (now : next.now = s.now)
    (writers : next.writers = s.writers) : Narrows s next := by
  refine ⟨markers, born, now, writers, fun other moved present => ?_⟩
  rw [ticks] at present
  by_cases here : other = id
  · subst here
    rw [Function.update_self, Option.some.injEq] at present
    subst present
    refine ⟨tick, found, listing, horizon, ?_, kept⟩
    rintro key (⟨pkg, job, working, member⟩ | ⟨consumed, stage, member⟩)
    · obtain ⟨before, working, member⟩ := kept pkg job key working member
      exact .inl ⟨pkg, before, working, member⟩
    · exact deletes consumed key stage member
  · rw [Function.update_of_ne here] at present
    exact ⟨moved, present, rfl, rfl, fun _ holds => holds,
      fun _ job _ working member => ⟨job, working, member⟩⟩

/-- The parties' bookkeeping, apart from what the views hold. -/
structure Books (intentGrace : Nat) (s : State T V) : Prop where
  ledger : Ledger s
  writers : Writers intentGrace s

theorem Narrows.books (narrows : Narrows s next) (books : Books intentGrace s) :
    Books intentGrace next :=
  ⟨narrows.ledger books.ledger, narrows.liveWriters books.writers⟩

theorem Fresh.intent (fresh : Fresh s pkg nonce) : intentKey pkg nonce ∉ s.born := by
  intro old
  exact fresh.2 _ old _ (parseMarker_intentKey fresh.1 nonce none) rfl

theorem Fresh.commit (fresh : Fresh s pkg nonce) : commitKey pkg nonce ∉ s.born := by
  intro old
  exact fresh.2 _ old _ (parseMarker_commitKey fresh.1 nonce none) rfl

/-- A writer's own nonce pairs with no commit while the writer lives. -/
theorem LiveWriter.commit (writer : LiveWriter intentGrace s pkg nonce started) :
    commitKey pkg nonce ∉ s.born := by
  intro old
  have same := writer.only _ old _ (parseMarker_commitKey writer.clean nonce none) rfl
  have parsed := parseMarker_commitKey writer.clean nonce none
  rw [same, parseMarker_intentKey writer.clean nonce none] at parsed
  simp at parsed

theorem putMarker_ledger (ledger : Ledger s) (new : key ∉ s.born) : Ledger (s.putMarker key) where
  logged entry member := by
    simp only [State.putMarker, List.mem_append, List.mem_singleton] at member ⊢
    rcases member with old | rfl
    · exact .inl (ledger.logged entry old)
    · exact .inr rfl
  unique := by
    simp only [State.putMarker]
    exact List.nodup_append.mpr ⟨ledger.unique, by simp, by
      rintro a old b fresh rfl
      exact new (List.mem_singleton.mp fresh ▸ old)⟩
  horizon id tick found := by
    simp only [State.putMarker, List.length_append]
    exact Nat.le_add_right_of_le (ledger.horizon id tick found)
  listed id tick found entry member := by
    simp only [State.putMarker]
    rw [List.take_append_of_le_length (ledger.horizon id tick found)]
    exact ledger.listed id tick found entry member
  held := ledger.held
  owned := ledger.owned

/-- A listed key was logged before the listing, so a new key is in no listing. -/
theorem Ledger.new_unlisted (ledger : Ledger s) (new : key ∉ s.born)
    (found : s.ticks id = some tick) : ∀ entry ∈ tick.listing, entry.key ≠ key := by
  rintro entry member rfl
  exact new (List.mem_of_mem_take (ledger.listed id tick found entry member))

theorem Ledger.new_unheld (ledger : Ledger s) (new : key ∉ s.born)
    (found : s.ticks id = some tick) : ¬ tick.Holds key := by
  intro holds
  obtain ⟨entry, member, same⟩ := ledger.held id tick key found holds
  exact ledger.new_unlisted new found entry member same

/-- A new marker disturbs no live writer whose nonce it does not carry. -/
theorem LiveWriter.putMarker (writer : LiveWriter intentGrace s pkg nonce started)
    (new : key ≠ intentKey pkg nonce)
    (other : ∀ marker, parseMarker ⟨key, none⟩ = some (pkg, marker) →
      marker.nonce ≠ some nonce) :
    LiveWriter intentGrace (s.putMarker key) pkg nonce started where
  clean := writer.clean
  young := writer.young
  standing := List.mem_append_left _ writer.standing
  dated entry member same := by
    simp only [State.putMarker, List.mem_append, List.mem_singleton] at member
    rcases member with old | rfl
    · exact writer.dated entry old same
    · exact absurd same new
  only old member marker parsed carried := by
    simp only [State.putMarker, List.mem_append, List.mem_singleton] at member
    rcases member with logged | rfl
    · exact writer.only old logged marker parsed carried
    · exact absurd carried (other marker parsed)
  listed := writer.listed
  unheld := writer.unheld

theorem Books.beginWrite (books : Books intentGrace s) (fresh : Fresh s pkg nonce)
    (positive : 0 < intentGrace) :
    Books intentGrace ((s.putMarker (intentKey pkg nonce)).setWriter pkg nonce (some s.now)) := by
  refine ⟨?_, ?_⟩
  · have ledger := putMarker_ledger books.ledger fresh.intent
    exact ⟨ledger.logged, ledger.unique, ledger.horizon, ledger.listed, ledger.held, ledger.owned⟩
  · intro otherPkg otherNonce started writing
    by_cases here : (otherPkg, otherNonce) = (pkg, nonce)
    · obtain ⟨rfl, rfl⟩ := Prod.mk.inj here
      obtain rfl : s.now = started := by simpa [State.setWriter] using writing
      refine ⟨fresh.1, Nat.lt_add_of_pos_right positive, by simp [State.setWriter, State.putMarker],
        ?_, ?_, ?_, ?_⟩
      · intro entry member same
        simp only [State.setWriter, State.putMarker, List.mem_append, List.mem_singleton] at member
        rcases member with old | rfl
        · exact absurd (same ▸ books.ledger.logged entry old) fresh.intent
        · rfl
      · intro key member marker parsed carried
        simp only [State.setWriter, State.putMarker, List.mem_append, List.mem_singleton] at member
        rcases member with old | rfl
        · exact absurd carried (fresh.2 key old marker parsed)
        · rfl
      · intro id tick found entry member same
        exact absurd same (books.ledger.new_unlisted fresh.intent found entry member)
      · intro id tick found
        exact books.ledger.new_unheld fresh.intent found
    · have old : s.writers (otherPkg, otherNonce) = some started := by
        simpa [State.setWriter, State.putMarker, here] using writing
      have writer := books.writers otherPkg otherNonce started old
      have kept : LiveWriter intentGrace (s.putMarker (intentKey pkg nonce)) otherPkg otherNonce
          started := by
        refine writer.putMarker ?_ fun marker parsed carried => here ?_
        · rintro same
          exact fresh.intent (same ▸ books.ledger.logged _ writer.standing)
        · rw [parseMarker_intentKey fresh.1 nonce none] at parsed
          simp only [Option.some.injEq, Prod.mk.injEq] at parsed
          obtain ⟨rfl, rfl⟩ := parsed
          rw [Option.some.inj carried]
      exact ⟨kept.clean, kept.young, kept.standing, kept.dated, kept.only, kept.listed, kept.unheld⟩

/-- A commit marker, written by the writer it ends or by a caller of its own. -/
theorem Books.putCommit (books : Books intentGrace s) (clean : '!' ∉ pkg.toList)
    (new : commitKey pkg nonce ∉ s.born) (ended : next.writers (pkg, nonce) = none)
    (others : ∀ writer started, next.writers writer = some started →
      s.writers writer = some started)
    (markers : next.markers = (s.putMarker (commitKey pkg nonce)).markers)
    (born : next.born = (s.putMarker (commitKey pkg nonce)).born)
    (now : next.now = s.now) (ticks : next.ticks = s.ticks) : Books intentGrace next := by
  have ledger := putMarker_ledger books.ledger new
  refine ⟨⟨?_, ?_, ?_, ?_, ?_, ?_⟩, ?_⟩
  · rw [markers, born]
    exact ledger.logged
  · rw [born]
    exact ledger.unique
  · rw [born, ticks]
    exact ledger.horizon
  · rw [born, ticks]
    exact ledger.listed
  · rw [ticks]
    exact ledger.held
  · rw [ticks]
    exact ledger.owned
  · intro otherPkg otherNonce started writing
    have writer := books.writers otherPkg otherNonce started (others _ _ writing)
    have kept : LiveWriter intentGrace (s.putMarker (commitKey pkg nonce)) otherPkg otherNonce
        started := by
      refine writer.putMarker ?_ fun marker parsed carried => ?_
      · rintro same
        exact new (same ▸ books.ledger.logged _ writer.standing)
      · rw [parseMarker_commitKey clean nonce none] at parsed
        simp only [Option.some.injEq, Prod.mk.injEq] at parsed
        obtain ⟨rfl, rfl⟩ := parsed
        rw [← Option.some.inj carried, ended] at writing
        cases writing
    refine ⟨kept.clean, now ▸ kept.young, markers ▸ kept.standing, markers ▸ kept.dated,
      born ▸ kept.only, ?_, ?_⟩
    · rw [ticks]
      exact kept.listed
    · rw [ticks]
      exact kept.unheld

theorem Books.idle (books : Books intentGrace s) (fresh : Fresh s pkg nonce) :
    s.writers (pkg, nonce) = none := by
  by_contra busy
  obtain ⟨started, writing⟩ := Option.ne_none_iff_exists'.mp busy
  have writer := books.writers pkg nonce started writing
  exact fresh.intent (books.ledger.logged _ writer.standing)

theorem Books.markDirty (books : Books intentGrace s) (fresh : Fresh s pkg nonce) :
    Books intentGrace (s.putMarker (commitKey pkg nonce)) :=
  books.putCommit fresh.1 fresh.commit (books.idle fresh) (fun _ _ writing => writing) rfl rfl rfl rfl

theorem Books.fewerWriters (books : Books intentGrace s) (pkg nonce : String) :
    Books intentGrace (s.setWriter pkg nonce none) := by
  refine ⟨⟨books.ledger.logged, books.ledger.unique, books.ledger.horizon, books.ledger.listed,
    books.ledger.held, books.ledger.owned⟩, fun otherPkg otherNonce started writing => ?_⟩
  by_cases here : (otherPkg, otherNonce) = (pkg, nonce)
  · simp [State.setWriter, here] at writing
  · have writer := books.writers otherPkg otherNonce started (by
      simpa [State.setWriter, here] using writing)
    exact ⟨writer.clean, writer.young, writer.standing, writer.dated, writer.only, writer.listed,
      writer.unheld⟩

theorem Books.advance (books : Books intentGrace s)
    (timely : ∀ writer started, s.writers writer = some started →
      s.now + 1 < started + intentGrace) : Books intentGrace { s with now := s.now + 1 } := by
  refine ⟨⟨books.ledger.logged, books.ledger.unique, books.ledger.horizon, books.ledger.listed,
    books.ledger.held, books.ledger.owned⟩, fun pkg nonce started writing => ?_⟩
  have writer := books.writers pkg nonce started writing
  exact ⟨writer.clean, timely _ _ writing, writer.standing, writer.dated, writer.only,
    writer.listed, writer.unheld⟩

/-- Replace one tick by another that satisfies the books on its own. -/
theorem Books.setTick (books : Books intentGrace s) {after : Tick V}
    (horizon : after.horizon ≤ s.born.length)
    (listed : ∀ entry ∈ after.listing, entry.key ∈ s.born.take after.horizon)
    (held : ∀ key, after.Holds key → ∃ entry ∈ after.listing, entry.key = key)
    (owned : ∀ pkg job key, after.jobs pkg = some job → key ∈ job.keys →
      ∃ marker, parseMarker ⟨key, none⟩ = some (pkg, marker))
    (writers : ∀ pkg nonce started, s.writers (pkg, nonce) = some started →
      (∀ entry ∈ after.listing, entry.key = intentKey pkg nonce →
        entry.lastModified = some started) ∧ ¬ after.Holds (intentKey pkg nonce)) :
    Books intentGrace (s.setTick id (some after)) := by
  have cases : ∀ {P : Tick V → Prop}, P after → (∀ other tick, s.ticks other = some tick → P tick) →
      ∀ other tick, (s.setTick id (some after)).ticks other = some tick → P tick := by
    intro P here there other tick found
    by_cases same : other = id
    · subst same
      rw [State.setTick_ticks, Function.update_self, Option.some.injEq] at found
      exact found ▸ here
    · rw [State.setTick_ticks, Function.update_of_ne same] at found
      exact there other tick found
  refine ⟨⟨books.ledger.logged, books.ledger.unique, ?_, ?_, ?_, ?_⟩, ?_⟩
  · exact cases (P := fun tick => tick.horizon ≤ s.born.length) horizon books.ledger.horizon
  · exact cases (P := fun tick => ∀ entry ∈ tick.listing, entry.key ∈ s.born.take tick.horizon)
      listed books.ledger.listed
  · intro other tick key found
    revert key
    exact cases (P := fun tick => ∀ key, tick.Holds key → ∃ entry ∈ tick.listing, entry.key = key)
      held (fun other tick found key => books.ledger.held other tick key found) other tick found
  · intro other tick pkg job key found
    revert pkg job key
    exact cases (P := fun tick => ∀ pkg job key, tick.jobs pkg = some job → key ∈ job.keys →
        ∃ marker, parseMarker ⟨key, none⟩ = some (pkg, marker))
      owned (fun other tick found pkg job key => books.ledger.owned other tick pkg job key found)
      other tick found
  · intro pkg nonce started writing
    have writer := books.writers pkg nonce started writing
    obtain ⟨dated, unheld⟩ := writers pkg nonce started writing
    refine ⟨writer.clean, writer.young, writer.standing, writer.dated, writer.only, ?_, ?_⟩
    · exact cases (P := fun tick => ∀ entry ∈ tick.listing, entry.key = intentKey pkg nonce →
        entry.lastModified = some started) dated writer.listed
    · exact cases (P := fun tick => ¬ tick.Holds (intentKey pkg nonce)) unheld writer.unheld

theorem Books.list (books : Books intentGrace s) (id : Nat) : Books intentGrace
    (s.setTick id (some ⟨s.markers, s.born.length, .listed, [], fun _ => none⟩)) := by
  have empty : ∀ key, ¬ (⟨s.markers, s.born.length, .listed, [], fun _ => none⟩ : Tick V).Holds key := by
    rintro key (⟨pkg, job, working, -⟩ | ⟨consumed, stage, -⟩)
    · cases working
    · cases stage
  refine books.setTick le_rfl (fun entry member => ?_) (fun key holds => absurd holds (empty key))
    (fun _ _ _ working => nomatch working) fun pkg nonce started writing => ?_
  · rw [List.take_length]
    exact books.ledger.logged entry member
  · exact ⟨(books.writers pkg nonce started writing).dated, empty _⟩

theorem chosenJobs_some {work : List DirtyWork} (found : chosenJobs work pkg = some job) :
    ∃ item ∈ work, item.package = pkg ∧ job = queuedJob item := by
  obtain ⟨item, first, rfl⟩ := Option.map_eq_some_iff.mp found
  exact ⟨item, List.mem_of_find?_eq_some first, by simpa using List.find?_some first, rfl⟩

/-- A live writer's intent defers its package: it is listed with its date, not
yet stale, and has no commit to pair with. -/
theorem Books.choose (books : Books intentGrace s) (found : s.ticks id = some tick) :
    Books intentGrace (s.setTick id (some (tick.choose s.now intentGrace))) := by
  have keyed : ∀ pkg job key, (tick.choose s.now intentGrace).jobs pkg = some job →
      key ∈ job.keys → ∃ entry ∈ tick.listing, entry.key = key ∧
        ∃ marker, parseMarker entry = some (pkg, marker) := by
    intro pkg job key chosen member
    obtain ⟨item, selected, rfl, rfl⟩ := chosenJobs_some chosen
    exact consumable_keys selected member
  refine books.setTick (books.ledger.horizon id tick found) (books.ledger.listed id tick found)
    ?_ ?_ fun pkg nonce started writing => ?_
  · rintro key (⟨pkg, job, chosen, member⟩ | ⟨consumed, stage, -⟩)
    · obtain ⟨entry, listed, same, -⟩ := keyed pkg job key chosen member
      exact ⟨entry, listed, same⟩
    · cases stage
  · intro pkg job key chosen member
    obtain ⟨entry, -, rfl, marker, parsed⟩ := keyed pkg job key chosen member
    exact ⟨_, parseMarker_dated parsed none⟩
  · have writer := books.writers pkg nonce started writing
    refine ⟨writer.listed id tick found, ?_⟩
    rintro (⟨owner, job, chosen, member⟩ | ⟨consumed, stage, -⟩)
    · obtain ⟨entry, listed, same, marker, parsed⟩ := keyed owner job _ chosen member
      have dated := writer.listed id tick found entry listed same
      obtain ⟨key, date⟩ := entry
      obtain rfl : key = intentKey pkg nonce := same
      obtain rfl : date = some started := dated
      rw [parseMarker_intentKey writer.clean, Option.some.injEq, Prod.mk.injEq] at parsed
      obtain ⟨rfl, rfl⟩ := parsed
      obtain ⟨item, selected, rfl, rfl⟩ := chosenJobs_some chosen
      have present := mem_markersOf.mpr ⟨_, listed, parseMarker_intentKey writer.clean nonce _⟩
      have alone : paired (markersOf tick.listing item.package)
          ⟨intentKey item.package nonce, some nonce, false, some started⟩ = false := by
        rw [Bool.eq_false_iff]
        intro mate
        obtain ⟨other, inside, commits⟩ := List.any_eq_true.mp mate
        obtain ⟨otherEntry, otherListed, otherParsed⟩ := mem_markersOf.mp inside
        obtain ⟨isCommit, carried⟩ : other.isCommit = true ∧ other.nonce = some nonce := by
          simpa using commits
        have logged := List.mem_of_mem_take
          (books.ledger.listed id tick found otherEntry otherListed)
        have same := writer.only _ logged _ (parseMarker_dated otherParsed none) carried
        rw [show otherEntry = ⟨intentKey item.package nonce, otherEntry.lastModified⟩ from by
          rw [← same], parseMarker_intentKey writer.clean] at otherParsed
        simp only [Option.some.injEq, Prod.mk.injEq, true_and] at otherParsed
        rw [← otherParsed] at isCommit
        cases isCommit
      obtain ⟨writtenAt, known, aged⟩ := consumable_unpaired selected present rfl alone
      obtain rfl : started = writtenAt := by simpa using known
      exact absurd writer.young (by omega)
    · cases stage

theorem Books.deleteKey (books : Books intentGrace s) (found : s.ticks id = some tick)
    (stage : tick.stage = .deleting consumed) (member : key ∈ consumed) :
    Books intentGrace { s with markers := s.markers.filter (·.key ≠ key) } := by
  refine ⟨⟨fun entry kept => books.ledger.logged entry (List.mem_of_mem_filter kept),
    books.ledger.unique, books.ledger.horizon, books.ledger.listed, books.ledger.held,
    books.ledger.owned⟩, fun pkg nonce started writing => ?_⟩
  have writer := books.writers pkg nonce started writing
  refine ⟨writer.clean, writer.young, ?_, ?_, writer.only, writer.listed, writer.unheld⟩
  · refine List.mem_filter.mpr ⟨writer.standing, ?_⟩
    simp only [decide_eq_true_eq]
    rintro rfl
    exact writer.unheld id tick found (.inr ⟨consumed, stage, member⟩)
  · exact fun entry kept => writer.dated entry (List.mem_of_mem_filter kept)

theorem narrows_stop (s : State T V) (id : Nat) : Narrows s (s.setTick id none) := by
  refine ⟨rfl, rfl, rfl, rfl, fun other after found => ?_⟩
  by_cases here : other = id
  · subst here
    simp at found
  · rw [State.setTick_ticks, Function.update_of_ne here] at found
    exact ⟨after, found, rfl, rfl, fun _ holds => holds,
      fun _ job _ working member => ⟨job, working, member⟩⟩

theorem narrows_mutate (s : State T V) (pkg : String) (truth : T) (view : Part → Option V) :
    Narrows s (s.mutate pkg truth view) := by
  refine ⟨rfl, rfl, rfl, rfl, fun id after found => ?_⟩
  obtain ⟨tick, before, rfl⟩ := Option.map_eq_some_iff.mp found
  have kept : ∀ p job key, (tick.taint pkg).jobs p = some job → key ∈ job.keys →
      ∃ before, tick.jobs p = some before ∧ key ∈ before.keys := by
    intro p job key working member
    by_cases here : p = pkg
    · subst here
      simp only [Tick.taint, Function.update_self, Option.map_eq_some_iff] at working
      obtain ⟨original, present, rfl⟩ := working
      exact ⟨original, present, by simpa using member⟩
    · exact ⟨job, by simpa [Tick.taint, here] using working, member⟩
  refine ⟨tick, before, rfl, rfl, ?_, kept⟩
  rintro key (⟨p, job, working, member⟩ | ⟨consumed, stage, member⟩)
  · obtain ⟨original, present, held⟩ := kept p job key working member
    exact .inl ⟨p, original, present, held⟩
  · exact .inr ⟨consumed, stage, member⟩

/-- One job moved on without gaining keys. -/
theorem setJob_keeps {after : Job V} (working : tick.jobs pkg = some job)
    (kept : ∀ key ∈ after.keys, key ∈ job.keys) (p : String) (moved : Job V) (key : String)
    (present : (tick.setJob pkg after).jobs p = some moved) (member : key ∈ moved.keys) :
    ∃ before, tick.jobs p = some before ∧ key ∈ before.keys := by
  by_cases here : p = pkg
  · subst here
    rw [Tick.setJob_jobs, Function.update_self, Option.some.injEq] at present
    subst present
    exact ⟨job, working, kept key member⟩
  · rw [Tick.setJob_jobs, Function.update_of_ne here] at present
    exact ⟨moved, present, member⟩

theorem JobMoves.keys {after : Job V} (moves : JobMoves site s pkg job after view) :
    ∀ key ∈ after.keys, key ∈ job.keys := by
  cases moves <;> simp

theorem mem_consumed (member : key ∈ tick.consumed) : ∃ pkg job live,
    tick.jobs pkg = some job ∧ job.phase = .rebuilt live ∧ key ∈ job.keys := by
  obtain ⟨pkg, -, inside⟩ := List.mem_flatMap.mp member
  split at inside
  · rename_i keys staleIntents rearmed live working
    split at inside
    · exact ⟨pkg, _, live, working, rfl, inside⟩
    · cases inside
  · cases inside

/-- Every step keeps the books. -/
theorem Books.step (books : Books intentGrace s) (step : Step site intentGrace turn s next) :
    Books intentGrace next := by
  cases step with
  | beginWrite pkg nonce fresh positive => exact books.beginWrite fresh positive
  | mutate pkg nonce truth view writing => exact (narrows_mutate s pkg truth view).books books
  | commit pkg nonce writing =>
      have writer := books.writers pkg nonce _ writing
      refine books.putCommit writer.clean writer.commit (by simp [State.setWriter]) ?_ rfl rfl rfl rfl
      intro other started running
      by_cases here : other = (pkg, nonce)
      · simp [State.setWriter, here] at running
      · simpa [State.setWriter, State.putMarker, here] using running
  | crashWriter pkg nonce => exact books.fewerWriters pkg nonce
  | markDirty pkg nonce fresh => exact books.markDirty fresh
  | advanceTime timely => exact books.advance timely
  | list id free => exact books.list id
  | choose id found stage => exact books.choose found
  | start id pkg found stage working queued free =>
      refine Narrows.books (narrows_setTick rfl found rfl rfl
        (setJob_keeps working fun _ member => member) ?_ rfl rfl rfl rfl) books
      exact fun consumed key deleting member => .inr ⟨consumed, deleting, member⟩
  | work id pkg found stage working moves =>
      refine Narrows.books (narrows_setTick (s := s) rfl found rfl rfl
        (setJob_keeps working moves.keys) ?_ rfl rfl rfl rfl) books
      exact fun consumed key deleting member => .inr ⟨consumed, deleting, member⟩
  | rearm id pkg nonce found stage working rebuilt fresh =>
      have marked := books.markDirty fresh
      refine Narrows.books (narrows_setTick (s := s.putMarker (commitKey pkg nonce)) rfl found
        rfl rfl (setJob_keeps working fun _ member => member) ?_ rfl rfl rfl rfl) marked
      exact fun consumed key deleting member => .inr ⟨consumed, deleting, member⟩
  | updateGlobal id found stage finished =>
      refine Narrows.books (narrows_setTick rfl found rfl rfl
        (fun _ job _ working member => ⟨job, working, member⟩) ?_ rfl rfl rfl rfl) books
      intro consumed key deleting member
      obtain rfl := Stage.deleting.inj deleting
      obtain ⟨pkg, job, live, working, -, held⟩ := mem_consumed member
      exact .inl ⟨pkg, job, working, held⟩
  | deleteKey id key found stage member => exact books.deleteKey found stage member
  | cancel id found stage =>
      refine Narrows.books (narrows_setTick rfl found rfl rfl
        (fun _ job _ working member => ⟨job, working, member⟩) ?_ rfl rfl rfl rfl) books
      exact fun consumed key deleting member => nomatch deleting
  | stop id => exact (narrows_stop s id).books books

end Pypiron.EventProtocol
