import Pypiron.GlobalIndex

/-! What an update of a global index owes at each request, and what it learns from the answer:
a stamp vouches for the page it was written for and no other, a set in memory is pinned to
what it was read from. -/
namespace Pypiron.GlobalIndex
open Program (Lawful)
open ThreadPool (Trace Performed Answered Underway Contract)

variable {Json Html Digest : Type} [DecidableEq Html] [DecidableEq Digest]
  {views : Views Json Html Digest}
  {run : ℕ → ThreadPool.Config (Store views) Call (Op Json Html Digest) Op.Ans String Unit}

/-! ### Names -/

/-- A name of its own line. -/
def ValidName (name : String) : Prop := name ≠ "" ∧ '\n' ∉ name.toList

instance : DecidablePred ValidName := fun _ => inferInstanceAs (Decidable (_ ∧ _))

theorem intercalate_lines {packages : List String} (valid : ∀ pkg ∈ packages, ValidName pkg) (some : packages ≠ []) :
    ("\n".intercalate packages).toList.splitOn '\n' = packages.map String.toList := by
  rw [String.toList_intercalate]
  refine List.splitOn_intercalate '\n' ?_ ?_
  · rintro line member
    obtain ⟨pkg, listed, rfl⟩ := List.mem_map.mp member
    exact (valid pkg listed).2
  · simpa using some

/-- Lists of valid names are told apart by their lines. -/
theorem intercalate_injOn : Set.InjOn "\n".intercalate {packages | ∀ pkg ∈ packages, ValidName pkg} := by
  have lone {packages : List String} (valid : ∀ pkg ∈ packages, ValidName pkg)
      (blank : "\n".intercalate packages = "") : packages = [] := by
    by_contra some
    have lines := intercalate_lines valid some
    rw [blank] at lines
    cases packages with
    | nil => exact some rfl
    | cons pkg rest =>
        rw [List.map_cons] at lines
        have first : pkg.toList = [] := (List.cons.inj lines).1.symm
        exact (valid pkg List.mem_cons_self).1 (String.toList_eq_nil_iff.mp first)
  intro packages valid packages' valid' same
  by_cases none_ : packages = []
  · subst none_
    exact (lone valid' same.symm).symm
  · by_cases none' : packages' = []
    · subst none'
      exact lone valid same
    · have lines := intercalate_lines valid none_
      have lines' := intercalate_lines valid' none'
      rw [same, lines'] at lines
      exact (List.map_injective_iff.mpr (fun _ _ => String.toList_injective) lines).symm

omit [DecidableEq Html] [DecidableEq Digest] in
theorem Views.globalNamesDigest_injOn (injective : Function.Injective views.sha256) :
    Set.InjOn views.globalNamesDigest {packages | ∀ pkg ∈ packages, ValidName pkg} :=
  injective.comp_injOn intercalate_injOn

/-! ### What holds of a run -/

/-- All names about are valid: those of an index that parses, of the packages, and of the
deltas of the calls at work. -/
structure Named (config : ThreadPool.Config (Store views) Call (Op Json Html Digest) Op.Ans String Unit) : Prop where
  json : ∀ body etag packages, config.store.json.get = some (body, etag) → views.parse body = some packages →
    ∀ pkg ∈ packages, ValidName pkg
  listed : ∀ pkg ∈ config.store.listed, ValidName pkg
  adds : ∀ thread call program, config.threads thread = some (call, program) → ∀ pkg ∈ call.adds, ValidName pkg

section Facts
variable (views run)

/-- No two lists of names that come up have one digest. -/
structure Digests : Prop where
  injective : Set.InjOn views.globalNamesDigest {packages | ∀ pkg ∈ packages, ValidName pkg}
  named : ∀ now, Named (run now)

/-- An etag that the page has again it has had all along. -/
def Unreturning : Prop :=
  ∀ first middle last etag, first ≤ middle → middle ≤ last → (run first).store.html.etag = some etag →
    (run last).store.html.etag = some etag → (run middle).store.html.etag = some etag

/-- A page with this etag renders these packages. -/
def Renders (etag : ℕ) (packages : List String) : Prop :=
  views.htmlOf etag = some (views.pep503GlobalHtml packages)

/-- Wherever the page has this etag from now on, it renders these packages. -/
def RendersFrom (now etag : ℕ) (packages : List String) : Prop :=
  ∀ instant body, now ≤ instant → (run instant).store.html.get = some (body, etag) →
    body = views.pep503GlobalHtml packages

/-- A JSON with this etag lists these names, or does not parse. -/
def Lists (etag : ℕ) (names : Finset String) : Prop :=
  ((views.jsonOf etag).bind views.parse).map List.toFinset = some names

def Garbled (etag : ℕ) : Prop := (views.jsonOf etag).bind views.parse = none

/-- The names in the canonical index; where there is none, no names. -/
def JsonSays (now : ℕ) (names : Finset String) : Prop :=
  match (run now).store.json.get with
  | none => names = ∅
  | some (body, _) => (views.parse body).map List.toFinset = some names

/-- The page shows these names; where there is none, no names. -/
def HtmlShows (now : ℕ) (names : Finset String) : Prop :=
  match (run now).store.html.get with
  | none => names = ∅
  | some (body, _) => body = views.pep503GlobalHtml (sorted names)

/-- Between two instants both views were seen to say the same. -/
def Agreed (start now : ℕ) (names : Finset String) : Prop :=
  (∃ instant, start ≤ instant ∧ instant ≤ now ∧ JsonSays views run instant names) ∧
    ∃ instant, start ≤ instant ∧ instant ≤ now ∧ HtmlShows views run instant names

/-- What a name set in memory says of the pair. It is pinned to the etag of a page looked at
before the page that was compared: with an etag that returns, it may speak for another. -/
structure Sound (now : ℕ) (cached : GlobalNames) : Prop where
  named : Digests views run → ∀ pkg ∈ cached.names, ValidName pkg
  seen : ∀ etag, cached.htmlEtag = some etag → ∃ instant ≤ now, (run instant).store.html.etag = some etag
  html : Digests views run → Unreturning views run → cached.htmlCurrent = true →
    ∀ etag, cached.htmlEtag = some etag → RendersFrom views run now etag cached.packages
  bare : cached.htmlCurrent = true → cached.htmlEtag = none →
    ∀ instant, now ≤ instant → (run instant).store.html.get = none → cached.names = ∅
  lists : cached.stranded = false → ∀ etag, cached.etag = some etag → Lists views etag cached.names
  garbled : cached.stranded = true → ∀ etag, cached.etag = some etag → Garbled views etag
  cold : cached.stranded = false → cached.etag = none → cached.names = ∅

def StampSound (stamp : GlobalHtmlStamp Digest) : Prop :=
  ∃ packages, (Digests views run → ∀ pkg ∈ packages, ValidName pkg) ∧
    stamp.names = views.globalNamesDigest packages ∧ Renders views stamp.htmlEtag packages

/-- The invariant of a run. -/
def Holds (now : ℕ) : Prop :=
  (∀ stamp, (run now).store.stamp = some stamp → StampSound views run stamp) ∧
    ∀ node cached, (run now).store.caches node = some cached → Sound views run now cached

/-- The thread has handed the package to the markers. -/
def Marked (thread : ℕ) (call : Call) (start now : ℕ) (pkg : String) : Prop :=
  ∃ instant, start ≤ instant ∧ instant < now ∧
    Performed (globalIndex views) run thread instant call (.markDirty pkg) (.ok ())

/-- The names that a call takes out: what it was told to remove, and of the dead ones those
that it has not handed to the markers. -/
structure Removes (thread : ℕ) (call : Call) (start now : ℕ) (removed : List String) : Prop where
  told : ∀ pkg ∈ call.removes, pkg ∈ removed
  dead : ∀ entry ∈ call.dead, entry.1 ∈ removed ∨ Marked views run thread call start now entry.1
  only : ∀ pkg ∈ removed, pkg ∈ call.removes ∨ pkg ∈ call.dead.map Prod.fst

/-- The delta of a call is in the set. -/
structure Applied (call : Call) (removed : List String) (names : Finset String) : Prop where
  added : ∀ pkg ∈ call.adds, pkg ∈ removed ∨ pkg ∈ names
  removed : ∀ pkg ∈ removed, pkg ∉ names

/-- What a successful update has seen. -/
def Done (thread : ℕ) (call : Call) (start now : ℕ) : Prop :=
  ∃ names removed, Removes views run thread call start now removed ∧ Applied call removed names ∧
    Agreed views run start now names

/-- The set that a call's delta makes of another. -/
def delta (call : Call) (removed : List String) (names : Finset String) : Finset String :=
  (names ∪ call.adds.toFinset) \ removed.toFinset

/-- A replacement of the JSON is the delta of what the etag it names lists. -/
def Replaces (thread : ℕ) (call : Call) (start now etag : ℕ) (body : Json) : Prop :=
  ∃ base removed, Removes views run thread call start now removed ∧
    body = views.pep691GlobalJson (sorted (delta call removed base)) ∧
    (Lists views etag base ∨ Garbled views etag)

def permits (thread : ℕ) (call : Call) (start now : ℕ) : Op Json Html Digest → Prop
  | .json (.putIfMatch etag body) => Replaces views run thread call start now etag body
  | .writeStamp stamp => StampSound views run stamp
  | .unlock _ guard => ∀ cached, guard = some cached → Sound views run now cached
  | _ => True

def Post (thread : ℕ) (call : Call) (start now : ℕ) : Prop :=
  (Digests views run → (call.caches = true → Unreturning views run) → Done views run thread call start now) ∨
    call = .uncached [] []

def contract : Contract Call (Op Json Html Digest) String Unit where
  permits := permits views run
  post thread call start now result := Lawful.Yields (fun now _ => Post views run thread call start now) now result

end Facts

variable (trace : Trace (globalIndex views) run)

section History
include trace

theorem store_cases (now : ℕ) :
    (∃ thread call op answer, Performed (globalIndex views) run thread now call op answer) ∨
      Drifts (run now).store (run (now + 1)).store ∨ (run (now + 1)).store = (run now).store := by
  obtain performed | ⟨thread, call, _, next⟩ | ⟨drifts, _⟩ | ⟨thread, task, _, dropped, _⟩ | paused :=
    trace.cases now
  · exact .inl performed
  · rw [next]
    exact .inr (.inr rfl)
  · exact .inr (.inl drifts)
  · exact .inr (.inr dropped.1)
  · rw [paused]
    exact .inr (.inr rfl)

theorem html_present_succ (now : ℕ) (stood : (run now).store.html.get ≠ none) :
    (run (now + 1)).store.html.get ≠ none := by
  obtain ⟨thread, call, op, answer, _, _, performs, _⟩ | drifts | same := store_cases trace now
  · generalize (run (now + 1)).store = after at performs ⊢
    cases performs with
    | html serves => exact serves.present stood
    | json | stampRead | stampUnread | stampWritten | stampFailed | stampLost | listed | unlisted
      | fingerprint | unknown | marked | unmarked | locked | unlocked => exact stood
  · exact drifts.html stood
  · rwa [same]

theorem html_present {now later : ℕ} (le : now ≤ later) (stood : (run now).store.html.get ≠ none) :
    (run later).store.html.get ≠ none := by
  induction later, le using Nat.le_induction with
  | base => exact stood
  | succ later _ ih => exact html_present_succ trace later ih

end History

section Etags
omit [DecidableEq Html] [DecidableEq Digest]
variable {now etag : ℕ}

theorem renders_of_get {packages : List String}
    (shown : (run now).store.html.get = some (views.pep503GlobalHtml packages, etag)) :
    Renders views etag packages := TaggedCell.stands_of_get shown

theorem Renders.page {packages : List String} {body : Html} (renders : Renders views etag packages)
    (shown : (run now).store.html.get = some (body, etag)) : body = views.pep503GlobalHtml packages :=
  Option.some.inj ((TaggedCell.stands_of_get shown).symm.trans renders)

theorem Renders.onward {packages : List String} (renders : Renders views etag packages) :
    RendersFrom views run now etag packages :=
  fun _ _ _ shown => renders.page shown

theorem parse_of_get {body : Json} (found : (run now).store.json.get = some (body, etag)) :
    (views.jsonOf etag).bind views.parse = views.parse body := by
  rw [TaggedCell.stands_of_get found]
  rfl

theorem lists_of_get {body : Json} {names : Finset String} (found : (run now).store.json.get = some (body, etag))
    (told : (views.parse body).map List.toFinset = some names) : Lists views etag names := by
  rw [Lists, parse_of_get found]
  exact told

theorem Lists.told {body : Json} {names : Finset String} (lists : Lists views etag names)
    (found : (run now).store.json.get = some (body, etag)) :
    (views.parse body).map List.toFinset = some names := by
  rw [← parse_of_get found]
  exact lists

theorem garbled_of_get {body : Json} (found : (run now).store.json.get = some (body, etag))
    (garbled : views.parse body = none) : Garbled views etag := by
  rw [Garbled, parse_of_get found]
  exact garbled

theorem Garbled.told {body : Json} (garbled : Garbled views etag)
    (found : (run now).store.json.get = some (body, etag)) : views.parse body = none := by
  rw [← parse_of_get found]
  exact garbled

/-- What a page shows now it shows wherever an etag of the past comes up from now on, if none
comes back. -/
theorem rendersFrom_of_shows {first : ℕ} {names : Finset String} (unreturning : Unreturning views run)
    (shown : HtmlShows views run now names) (le : first ≤ now) (seen : (run first).store.html.etag = some etag) :
    RendersFrom views run now etag (sorted names) := by
  intro later body beyond found
  have stood := unreturning first now later etag le beyond seen (TaggedCell.etag_of_get found)
  obtain ⟨⟨page, tag⟩, stands, rfl⟩ := Option.map_eq_some_iff.mp stood
  rw [HtmlShows, stands] at shown
  have same : some page = some body :=
    (TaggedCell.stands_of_get stands).symm.trans (TaggedCell.stands_of_get found)
  rw [← Option.some.inj same]
  exact shown

theorem Sound.mono {later : ℕ} {cached : GlobalNames} (sound : Sound views run now cached) (le : now ≤ later) :
    Sound views run later cached where
  named := sound.named
  seen etag pinned := by
    obtain ⟨instant, before, seen⟩ := sound.seen etag pinned
    exact ⟨instant, before.trans le, seen⟩
  html digests unreturning current etag pinned instant body from_ :=
    sound.html digests unreturning current etag pinned instant body (le.trans from_)
  bare current unpinned instant from_ := sound.bare current unpinned instant (le.trans from_)
  lists := sound.lists
  garbled := sound.garbled
  cold := sound.cold

end Etags

omit [DecidableEq Html] [DecidableEq Digest] in
theorem Agreed.widen {start start' now now' : ℕ} {names : Finset String} (agreed : Agreed views run start now names)
    (first : start' ≤ start) (last : now ≤ now') : Agreed views run start' now' names := by
  obtain ⟨⟨instant, from_, upto, told⟩, instant', from', upto', shown⟩ := agreed
  exact ⟨⟨instant, first.trans from_, upto.trans last, told⟩, instant', first.trans from', upto'.trans last, shown⟩

theorem Marked.mono {thread start now later : ℕ} {call : Call} {pkg : String}
    (marked : Marked views run thread call start now pkg) (le : now ≤ later) :
    Marked views run thread call start later pkg := by
  obtain ⟨instant, from_, before, performed⟩ := marked
  exact ⟨instant, from_, before.trans_le le, performed⟩

omit [DecidableEq Html] [DecidableEq Digest] in
theorem Applied.of_delta {call : Call} {removed : List String} {names : Finset String} :
    Applied call removed (delta call removed names) := by
  constructor
  · intro pkg added
    by_cases out : pkg ∈ removed
    · exact .inl out
    · simp [delta, added, out]
  · intro pkg out
    simp [delta, out]

theorem Removes.mono {thread start now later : ℕ} {call : Call} {removed : List String}
    (removes : Removes views run thread call start now removed) (le : now ≤ later) :
    Removes views run thread call start later removed where
  told := removes.told
  dead entry member := (removes.dead entry member).imp_right (·.mono le)
  only := removes.only

theorem Done.mono {thread start now later : ℕ} {call : Call} (done : Done views run thread call start now)
    (le : now ≤ later) : Done views run thread call start later := by
  obtain ⟨names, removed, removes, applied, agreed⟩ := done
  exact ⟨names, removed, removes.mono le, applied, agreed.widen le_rfl le⟩

theorem Replaces.mono {thread start now later etag : ℕ} {call : Call} {body : Json}
    (replaces : Replaces views run thread call start now etag body) (le : now ≤ later) :
    Replaces views run thread call start later etag body := by
  obtain ⟨base, removed, removes, written, stood⟩ := replaces
  exact ⟨base, removed, removes.mono le, written, stood⟩

/-! ### Requests -/

section Requests
variable {thread start world : ℕ} {call : Call}

variable (views run thread call start) in
/-- A call keeps to its contract from here on, and what it yields is so. -/
abbrev Keeps {α : Type} (world : ℕ) (program : GlobalM Json Html Digest α) (holds : ℕ → α → Prop) : Prop :=
  Lawful (permits views run thread call start) (Answered (globalIndex views) run (Holds views run) thread call)
    (Lawful.Yields holds) world program

theorem keeps_pure {α : Type} {value : α} {holds : ℕ → α → Prop}
    (yields : ∀ now, world ≤ now → holds now value) :
    Keeps views run thread start call world (pure value) holds := Lawful.yield_pure yields

theorem keeps_bail {α : Type} {text : String} {holds : ℕ → α → Prop} :
    Keeps views run thread start call world (Program.bail text : GlobalM Json Html Digest α) holds :=
  Lawful.yield_bail

theorem Keeps.bind {α β : Type} {holds : ℕ → α → Prop} {holds' : ℕ → β → Prop}
    {program : GlobalM Json Html Digest α} {rest : α → GlobalM Json Html Digest β}
    (first : Keeps views run thread start call world program holds)
    (second : ∀ now, world ≤ now → ∀ value, holds now value →
      Keeps views run thread start call now (rest value) holds') :
    Keeps views run thread start call world (program >>= rest) holds' := first.yield_bind second

theorem keeps_getJson : Keeps views run thread start call world getJson fun now found =>
    ∃ instant, world ≤ instant ∧ instant < now ∧ (run instant).store.json.get = found := by
  refine ThreadPool.yield_call (fun _ _ => trivial) fun instant answer found le performed _ told now less => ?_
  refine ⟨instant, le, less, ?_⟩
  obtain ⟨_, _, performs, _⟩ := performed
  generalize (run (instant + 1)).store = after at performs
  cases performs with
  | json serves =>
      obtain ⟨_, ⟨text, rfl⟩ | rfl⟩ := serves.read
      · cases told
      · exact Except.ok.inj told

theorem keeps_getHtml : Keeps views run thread start call world getHtml fun now found =>
    ∃ instant, world ≤ instant ∧ instant < now ∧ (run instant).store.html.get = found := by
  refine ThreadPool.yield_call (fun _ _ => trivial) fun instant answer found le performed _ told now less => ?_
  refine ⟨instant, le, less, ?_⟩
  obtain ⟨_, _, performs, _⟩ := performed
  generalize (run (instant + 1)).store = after at performs
  cases performs with
  | html serves =>
      obtain ⟨_, ⟨text, rfl⟩ | rfl⟩ := serves.read
      · cases told
      · exact Except.ok.inj told

theorem keeps_putHtml (expected : Option ℕ) (body : Html) :
    Keeps views run thread start call world (putHtml expected body) fun now outcome => ∀ etag, outcome = some etag →
      ∃ instant, world ≤ instant ∧ instant ≤ now ∧ (run instant).store.html.get = some (body, etag) := by
  cases expected with
  | none =>
      refine ThreadPool.yield_call (fun _ _ => trivial)
        fun instant answer outcome le performed _ told now less etag same => ?_
      refine ⟨instant + 1, Nat.le_succ_of_le le, less, ?_⟩
      obtain ⟨_, _, performs, _⟩ := performed
      generalize (run (instant + 1)).store = after at performs ⊢
      cases performs with
      | html serves =>
          subst same told
          exact TaggedCell.Serves.wrote (.inr ⟨rfl, serves⟩)
  | some number =>
      refine ThreadPool.yield_call (fun _ _ => trivial)
        fun instant answer outcome le performed _ told now less etag same => ?_
      refine ⟨instant + 1, Nat.le_succ_of_le le, less, ?_⟩
      obtain ⟨_, _, performs, _⟩ := performed
      generalize (run (instant + 1)).store = after at performs ⊢
      cases performs with
      | html serves =>
          subst same told
          exact TaggedCell.Serves.wrote (.inl ⟨number, rfl, serves⟩)

theorem keeps_putJson (expected : Option ℕ) (body : Json)
    (replaces : ∀ number, expected = some number → Replaces views run thread call start world number body) :
    Keeps views run thread start call world (putJson expected body) fun now outcome => ∀ etag, outcome = some etag →
      ∃ instant, world ≤ instant ∧ instant ≤ now ∧ (run instant).store.json.get = some (body, etag) := by
  cases expected with
  | none =>
      refine ThreadPool.yield_call (fun _ _ => trivial)
        fun instant answer outcome le performed _ told now less etag same => ?_
      refine ⟨instant + 1, Nat.le_succ_of_le le, less, ?_⟩
      obtain ⟨_, _, performs, _⟩ := performed
      generalize (run (instant + 1)).store = after at performs ⊢
      cases performs with
      | json serves =>
          subst same told
          exact TaggedCell.Serves.wrote (.inr ⟨rfl, serves⟩)
  | some number =>
      refine ThreadPool.yield_call (fun _ from_ => (replaces number rfl).mono from_)
        fun instant answer outcome le performed _ told now less etag same => ?_
      refine ⟨instant + 1, Nat.le_succ_of_le le, less, ?_⟩
      obtain ⟨_, _, performs, _⟩ := performed
      generalize (run (instant + 1)).store = after at performs ⊢
      cases performs with
      | json serves =>
          subst same told
          exact TaggedCell.Serves.wrote (.inl ⟨number, rfl, serves⟩)

theorem keeps_readStamp : Keeps views run thread start call world readGlobalHtmlStamp fun _ found =>
    ∀ stamp, found = some stamp → StampSound views run stamp := by
  refine ThreadPool.yield_call (fun _ _ => trivial)
    fun instant answer found le performed kept told now less stamp same => ?_
  obtain ⟨_, _, performs, _⟩ := performed
  generalize after_ : (run (instant + 1)).store = after at performs
  cases performs with
  | stampRead =>
      refine kept.1 stamp ?_
      subst same
      rw [after_]
      exact Except.ok.inj told
  | stampUnread text =>
      subst same
      cases told

theorem keeps_writeStamp {htmlEtag : ℕ} {packages : List String} (renders : Renders views htmlEtag packages)
    (valid : Digests views run → ∀ pkg ∈ packages, ValidName pkg) :
    Keeps views run thread start call world (writeGlobalHtmlStamp views htmlEtag packages) fun _ _ => True :=
  ThreadPool.yield_call (fun _ _ => ⟨packages, valid, rfl, renders⟩) fun _ _ _ _ _ _ _ _ _ => trivial

theorem keeps_listShard (c : Char) : Keeps views run thread start call world (listShard c) fun _ listed =>
    Digests views run → ∀ pkg ∈ listed, ValidName pkg := by
  refine ThreadPool.yield_call (fun _ _ => trivial)
    fun instant answer listed le performed _ told now less digests pkg member => ?_
  obtain ⟨_, _, performs, _⟩ := performed
  generalize (run (instant + 1)).store = after at performs
  cases performs with
  | listed =>
      obtain rfl := Except.ok.inj told
      exact (digests.named instant).listed pkg (Finset.mem_filter.mp member).1
  | unlisted => cases told

theorem keeps_packageFingerprint (pkg : String) :
    Keeps views run thread start call world (packageFingerprint pkg) fun _ _ => True :=
  ThreadPool.yield_call (fun _ _ => trivial) fun _ _ _ _ _ _ _ _ _ => trivial

theorem keeps_markDirty (pkg : String) (since : start ≤ world) :
    Keeps views run thread start call world (markDirty pkg) fun now _ =>
      Marked views run thread call start now pkg := by
  refine ThreadPool.yield_call (fun _ _ => trivial) fun instant answer _ le performed _ told now less => ?_
  obtain rfl : answer = .ok () := told
  exact ⟨instant, since.trans le, less, performed⟩

theorem keeps_lock (node : ℕ) : Keeps views run thread start call world (lockNames node) fun now guard =>
    ∀ cached, guard = some cached → Sound views run now cached := by
  refine ThreadPool.yield_call (fun _ _ => trivial)
    fun instant answer found le performed kept told now less cached same => ?_
  obtain ⟨_, _, performs, _⟩ := performed
  generalize after_ : (run (instant + 1)).store = after at performs
  cases performs with
  | locked free =>
      refine (kept.2 node cached ?_).mono less
      subst same
      rw [after_]
      exact Except.ok.inj told

theorem keeps_unlock (node : ℕ) {guard : Option GlobalNames}
    (sound : ∀ now cached, world ≤ now → guard = some cached → Sound views run now cached) :
    Keeps views run thread start call world (unlockNames node guard) fun _ _ => True :=
  ThreadPool.yield_call (fun now le cached same => sound now cached le same) fun _ _ _ _ _ _ _ _ _ => trivial

end Requests

/-! ### Loading -/

section Load
variable {thread start world : ℕ} {call : Call}

/-- What a name set just loaded says of the pair. -/
structure Loaded (views : Views Json Html Digest)
    (run : ℕ → ThreadPool.Config (Store views) Call (Op Json Html Digest) Op.Ans String Unit)
    (world now : ℕ) (loaded : GlobalNames) : Prop where
  sound : Sound views run now loaded
  json : loaded.stranded = false →
    ∃ instant, world ≤ instant ∧ instant ≤ now ∧ JsonSays views run instant loaded.names
  html : ∃ instant, world ≤ instant ∧ instant ≤ now ∧ (run instant).store.html.etag = loaded.htmlEtag

theorem keeps_deriveGlobalNames (shards : List Char) :
    Keeps views run thread start call world (deriveGlobalNames shards) fun _ names =>
      Digests views run → ∀ pkg ∈ names, ValidName pkg := by
  induction shards generalizing world with
  | nil => exact keeps_pure fun _ _ _ pkg member => absurd member (Finset.notMem_empty pkg)
  | cons shard shards ih =>
      refine (keeps_listShard shard).bind fun now le listed valid => ?_
      refine ih.bind fun later le' rest valid' => keeps_pure fun _ _ digests pkg member => ?_
      obtain first | others := Finset.mem_union.mp member
      · exact valid digests pkg first
      · exact valid' digests pkg others

theorem keeps_loadGlobalNames :
    Keeps views run thread start call world (loadGlobalNames views) fun now loaded =>
      Loaded views run world now loaded := by
  refine keeps_getJson.bind fun now le body told => ?_
  obtain ⟨jsonAt, from_, upto, json⟩ := told
  refine keeps_getHtml.bind fun now' le' html told => ?_
  obtain ⟨htmlAt, from', upto', shown⟩ := told
  have etag : (run htmlAt).store.html.etag = html.map Prod.snd := by rw [TaggedCell.etag, shown]
  -- The page is looked at before it is compared, so the set is pinned but not current.
  have pinned (later : ℕ) (beyond : now' ≤ later) (tag : ℕ) (same : html.map Prod.snd = some tag) :
      ∃ instant ≤ later, (run instant).store.html.etag = some tag :=
    ⟨htmlAt, upto'.le.trans beyond, etag.trans same⟩
  have seen (later : ℕ) (beyond : now' ≤ later) : ∃ instant, world ≤ instant ∧ instant ≤ later ∧
      (run instant).store.html.etag = html.map Prod.snd :=
    ⟨htmlAt, le.trans from', upto'.le.trans beyond, etag⟩
  cases body with
  | none =>
      refine keeps_getHtml.bind fun now₂ le₂ again _ => ?_
      have absent (names : Finset String) (valid : Digests views run → ∀ pkg ∈ names, ValidName pkg)
          (cold : again.isSome = false → names = ∅) (later : ℕ) (beyond : now₂ ≤ later) :
          Loaded views run world later
            { etag := none, names, htmlEtag := html.map Prod.snd, htmlCurrent := false,
              stranded := again.isSome } := by
        refine ⟨?_, fun unstranded => ?_, seen later (le₂.trans beyond)⟩
        · exact
            { named := valid
              seen := pinned later (le₂.trans beyond)
              html := fun _ _ current => by cases current
              bare := fun current => by cases current
              lists := fun _ etag pinned => by cases pinned
              garbled := fun _ etag pinned => by cases pinned
              cold := fun unstranded _ => cold unstranded }
        · refine ⟨jsonAt, from_, upto.le.trans (le'.trans (le₂.trans beyond)), ?_⟩
          rw [JsonSays, json]
          exact cold unstranded
      by_cases stranded : again.isSome = true
      · simp only [if_pos stranded]
        refine (keeps_deriveGlobalNames shardChars).bind fun now₃ le₃ names valid => ?_
        refine keeps_pure fun later beyond => absent names valid (fun cold => ?_) later (le₃.trans beyond)
        rw [stranded] at cold
        cases cold
      · simp only [if_neg stranded]
        refine keeps_pure fun later beyond => absent ∅ (fun _ pkg member => ?_) (fun _ => rfl) later beyond
        exact absurd member (Finset.notMem_empty pkg)
  | some version =>
      obtain ⟨bytes, etag⟩ := version
      simp only
      cases parsed : views.parse bytes with
      | some projects =>
          refine keeps_pure fun later beyond => ?_
          have told : (views.parse bytes).map List.toFinset = some projects.toFinset := by rw [parsed]; rfl
          exact
            { sound :=
                { named := fun digests pkg member =>
                    (digests.named jsonAt).json bytes etag projects json parsed pkg (List.mem_toFinset.mp member)
                  seen := pinned later beyond
                  html := fun _ _ current => by cases current
                  bare := fun current => by cases current
                  lists := fun _ number pinned => by cases pinned; exact lists_of_get json told
                  garbled := fun stranded => by cases stranded
                  cold := fun _ unpinned => by cases unpinned }
              json := fun _ => ⟨jsonAt, from_, upto.le.trans (le'.trans beyond), by rw [JsonSays, json]; exact told⟩
              html := seen later beyond }
      | none =>
          refine (keeps_deriveGlobalNames shardChars).bind fun now₃ le₃ names valid => ?_
          refine keeps_pure fun later beyond => ?_
          exact
            { sound :=
                { named := valid
                  seen := pinned later (le₃.trans beyond)
                  html := fun _ _ current => by cases current
                  bare := fun current => by cases current
                  lists := fun unstranded => by cases unstranded
                  garbled := fun _ number pinned => by cases pinned; exact garbled_of_get json parsed
                  cold := fun _ unpinned => by cases unpinned }
              json := fun unstranded => by cases unstranded
              html := seen later (le₃.trans beyond) }

end Load

/-! ### Writing -/

section Write
variable {thread start world : ℕ} {call : Call}

/-- The page was written for these packages, under this etag. -/
def Wrote (views : Views Json Html Digest)
    (run : ℕ → ThreadPool.Config (Store views) Call (Op Json Html Digest) Op.Ans String Unit)
    (world now etag : ℕ) (names : Finset String) : Prop :=
  ∃ instant, world ≤ instant ∧ instant ≤ now ∧
    (run instant).store.html.get = some (views.pep503GlobalHtml (sorted names), etag)

section Wrote
omit [DecidableEq Html] [DecidableEq Digest]
variable {now etag : ℕ} {names : Finset String} (wrote : Wrote views run world now etag names)
include wrote

theorem Wrote.renders : Renders views etag (sorted names) := by
  obtain ⟨instant, _, _, stored⟩ := wrote
  exact renders_of_get stored

theorem Wrote.seen : ∃ instant ≤ now, (run instant).store.html.etag = some etag := by
  obtain ⟨instant, _, upto, stored⟩ := wrote
  exact ⟨instant, upto, TaggedCell.etag_of_get stored⟩

theorem Wrote.shown : ∃ instant, world ≤ instant ∧ instant ≤ now ∧ HtmlShows views run instant names := by
  obtain ⟨instant, from_, upto, stored⟩ := wrote
  refine ⟨instant, from_, upto, ?_⟩
  rw [HtmlShows, stored]

theorem Wrote.widen {world' now' : ℕ} (first : world' ≤ world) (last : now ≤ now') :
    Wrote views run world' now' etag names := by
  obtain ⟨instant, from_, upto, stored⟩ := wrote
  exact ⟨instant, first.trans from_, upto.trans last, stored⟩

end Wrote

theorem keeps_writeGlobalHtmlCas (names : Finset String) (expected : Option ℕ) :
    Keeps views run thread start call world (writeGlobalHtmlCas views (sorted names) expected) fun now outcome =>
      ∀ etag, outcome = .wrote etag → Wrote views run world now etag names := by
  refine (keeps_putHtml expected _).bind fun now le outcome wrote => ?_
  cases outcome with
  | none => exact keeps_pure fun later beyond etag same => by cases same
  | some etag =>
      refine keeps_pure fun later beyond etag' same => ?_
      cases same
      obtain ⟨instant, from_, upto, shown⟩ := wrote etag rfl
      exact ⟨instant, from_, upto.trans beyond, shown⟩

theorem keeps_globalHtmlProvedCurrent (htmlEtag : Option ℕ) {packages : List String}
    (valid : Digests views run → ∀ pkg ∈ packages, ValidName pkg) :
    Keeps views run thread start call world (globalHtmlProvedCurrent views htmlEtag packages) fun _ proved =>
      proved = true → ∃ etag, htmlEtag = some etag ∧ (Digests views run → Renders views etag packages) := by
  cases htmlEtag with
  | none => exact keeps_pure fun _ _ proved => by cases proved
  | some etag =>
      refine keeps_readStamp.bind fun now le found sound => ?_
      cases found with
      | none => exact keeps_pure fun _ _ proved => by cases proved
      | some stamp =>
          refine keeps_pure fun _ _ proved => ⟨etag, rfl, fun digests => ?_⟩
          rw [Bool.and_eq_true, beq_iff_eq, beq_iff_eq] at proved
          obtain ⟨packages', valid', digest, renders⟩ := sound stamp rfl
          obtain rfl : packages' = packages :=
            digests.injective (valid' digests) (valid digests) (digest.symm.trans proved.2)
          exact proved.1 ▸ renders

theorem sorted_eq_nil {names : Finset String} (empty : sorted names = []) : names = ∅ := by
  rw [← Finset.card_eq_zero, ← Finset.length_sort (· ≤ ·), ← sorted, empty]
  rfl

@[simp] theorem mem_sorted {names : Finset String} {pkg : String} : pkg ∈ sorted names ↔ pkg ∈ names :=
  Finset.mem_sort _

theorem keeps_reconcileGlobalHtml (names : Finset String) (expected : Option ℕ) :
    Keeps views run thread start call world (reconcileGlobalHtml views (sorted names) expected) fun now outcome =>
      (outcome = .current → ∃ instant, world ≤ instant ∧ instant ≤ now ∧ HtmlShows views run instant names) ∧
      ∀ etag, outcome = .rewrote etag → Wrote views run world now etag names := by
  have rewriting (now : ℕ) (le : world ≤ now) (expected : Option ℕ) : Keeps views run thread start call now
      (writeGlobalHtmlCas views (sorted names) expected >>= fun outcome =>
        pure outcome.reconciled) fun now outcome =>
        (outcome = .current → ∃ instant, world ≤ instant ∧ instant ≤ now ∧ HtmlShows views run instant names) ∧
        ∀ etag, outcome = .rewrote etag → Wrote views run world now etag names := by
    refine (keeps_writeGlobalHtmlCas names expected).bind fun now' le' outcome wrote => ?_
    refine keeps_pure fun later beyond => ?_
    cases outcome with
    | wrote etag =>
        refine ⟨fun same => (by cases same), fun etag' same => ?_⟩
        cases same
        exact (wrote etag rfl).widen le beyond
    | lost => exact ⟨fun same => (by cases same), fun etag' same => by cases same⟩
  refine keeps_getHtml.bind fun now le found told => ?_
  obtain ⟨instant, from_, upto, shown⟩ := told
  cases found with
  | none =>
      simp only
      split
      · rename_i empty
        refine keeps_pure fun later beyond =>
          ⟨fun _ => ⟨instant, from_, upto.le.trans beyond, ?_⟩, fun etag same => by cases same⟩
        rw [HtmlShows, shown]
        exact sorted_eq_nil empty
      · exact rewriting now le none
  | some version =>
      obtain ⟨current, etag⟩ := version
      simp only
      split
      · rename_i same
        refine keeps_pure fun later beyond =>
          ⟨fun _ => ⟨instant, from_, upto.le.trans beyond, ?_⟩, fun etag same => by cases same⟩
        rw [HtmlShows, shown]
        exact same
      · exact rewriting now le expected

theorem keeps_writeGlobalIndexesCas (names : Finset String) (expected expectedHtml : Option ℕ)
    (valid : Digests views run → ∀ pkg ∈ names, ValidName pkg)
    (replaces : ∀ etag, expected = some etag →
      Replaces views run thread call start world etag (views.pep691GlobalJson (sorted names))) :
    Keeps views run thread start call world
      (writeGlobalIndexesCas views (sorted names) expected expectedHtml) fun now outcome =>
        ∀ jsonEtag htmlEtag, outcome = .won jsonEtag htmlEtag → Wrote views run world now htmlEtag names ∧
          Lists views jsonEtag names ∧ Agreed views run world now names := by
  have parsed : (views.parse (views.pep691GlobalJson (sorted names))).map List.toFinset = some names := by
    rw [views.parse_json, Option.map_some, sorted_toFinset]
  refine (keeps_writeGlobalHtmlCas names expectedHtml).bind fun now le outcome wrote => ?_
  cases outcome with
  | lost => exact keeps_pure fun _ _ _ _ same => by cases same
  | wrote htmlEtag =>
      refine (keeps_putJson expected _ fun etag same => (replaces etag same).mono le).bind
        fun now' le' outcome put => ?_
      cases outcome with
      | none => exact keeps_pure fun _ _ _ _ same => by cases same
      | some jsonEtag =>
          have page := wrote htmlEtag rfl
          refine (keeps_writeStamp page.renders fun digests pkg member => ?_).bind fun now₂ le₂ _ _ => ?_
          · exact valid digests pkg (mem_sorted.mp member)
          · refine keeps_pure fun later beyond jsonEtag' htmlEtag' same => ?_
            cases same
            obtain ⟨instant, from_, upto, stored⟩ := put jsonEtag rfl
            have whole := page.widen le_rfl (le'.trans (le₂.trans beyond))
            refine ⟨whole, lists_of_get stored parsed,
              ⟨instant, le.trans from_, upto.trans (le₂.trans beyond), ?_⟩, whole.shown⟩
            rw [JsonSays, stored]
            exact parsed

end Write

end Pypiron.GlobalIndex
