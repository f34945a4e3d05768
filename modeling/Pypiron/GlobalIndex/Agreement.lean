import Pypiron.GlobalIndex.Contract

/-! The updates of a global index in any interleaving: one that succeeds has seen the pair
agree on a set that has its delta, and none loses what another has written. -/
namespace Pypiron.GlobalIndex
open Program (Lawful)
open ThreadPool (Trace Performed Answered Underway Contract Leads)

variable {Json Html Digest : Type} [DecidableEq Html] [DecidableEq Digest]
  {views : Views Json Html Digest}
  {run : ℕ → ThreadPool.Config (Store views) Call (Op Json Html Digest) Op.Ans String Unit}
  (trace : Trace (globalIndex views) run)

/-! ### Deltas -/

theorem insertAll_fst (names : Finset String) (adds : List String) :
    (insertAll names adds).1 = names ∪ adds.toFinset := by
  induction adds generalizing names with
  | nil => simp [insertAll]
  | cons pkg adds ih => simp [insertAll, ih]

theorem removeAll_fst (names : Finset String) (removes : List String) :
    (removeAll names removes).1 = names \ removes.toFinset := by
  induction removes generalizing names with
  | nil => simp [removeAll]
  | cons pkg removes ih =>
      rw [removeAll, ih, List.toFinset_cons]
      ext name
      simp only [Finset.mem_sdiff, Finset.mem_erase, Finset.mem_insert, not_or]
      tauto

theorem insertAll_unchanged {names : Finset String} {adds : List String} (same : (insertAll names adds).2 = false) :
    (insertAll names adds).1 = names := by
  induction adds generalizing names with
  | nil => rfl
  | cons pkg adds ih =>
      simp only [insertAll, Bool.or_eq_false_iff, decide_eq_false_iff_not, not_not] at same ⊢
      rw [ih same.2, Finset.insert_eq_of_mem same.1]

theorem removeAll_unchanged {names : Finset String} {removes : List String}
    (same : (removeAll names removes).2 = false) : (removeAll names removes).1 = names := by
  induction removes generalizing names with
  | nil => rfl
  | cons pkg removes ih =>
      simp only [removeAll, Bool.or_eq_false_iff, decide_eq_false_iff_not] at same ⊢
      rw [ih same.2, Finset.erase_eq_of_notMem same.1]

theorem absorb_fst (names : Finset String) (adds removed : List String) :
    (absorb names adds removed).1 = (names ∪ adds.toFinset) \ removed.toFinset := by
  rw [absorb, removeAll_fst, insertAll_fst]

theorem absorb_unchanged {names : Finset String} {adds removed : List String}
    (same : (absorb names adds removed).2 = false) : (absorb names adds removed).1 = names := by
  simp only [absorb, Bool.or_eq_false_iff] at same ⊢
  rw [removeAll_unchanged same.2, insertAll_unchanged same.1]

/-! ### The name set in memory -/

section Memory
variable {thread start world : ℕ} {call : Call}

theorem keeps_globalIndexEtags : Keeps views run thread start call world globalIndexEtags fun now etags =>
    (∃ instant, world ≤ instant ∧ instant < now ∧ (run instant).store.json.etag = etags.1) ∧
      ∃ instant, world ≤ instant ∧ instant < now ∧ (run instant).store.html.etag = etags.2 := by
  refine keeps_getJson.bind fun now le json told => ?_
  obtain ⟨jsonAt, from_, upto, stored⟩ := told
  refine keeps_getHtml.bind fun now' le' html told => ?_
  obtain ⟨htmlAt, from', upto', shown⟩ := told
  refine keeps_pure fun later beyond => ⟨⟨jsonAt, from_, ?_, ?_⟩, htmlAt, le.trans from', ?_, ?_⟩
  · omega
  · rw [TaggedCell.etag, stored]
  · omega
  · rw [TaggedCell.etag, shown]

@[simp] theorem reobserved_names (cached : GlobalNames) (htmlEtag : Option ℕ) :
    (cached.reobserved htmlEtag).names = cached.names := by
  unfold GlobalNames.reobserved
  split <;> rfl

theorem reobserved_htmlEtag (cached : GlobalNames) (htmlEtag : Option ℕ) :
    (cached.reobserved htmlEtag).htmlEtag = htmlEtag := by
  unfold GlobalNames.reobserved
  split
  · rfl
  · rename_i same
    exact (not_not.mp same).symm

omit [DecidableEq Html] [DecidableEq Digest] in
theorem Sound.reobserved {now instant : ℕ} {cached : GlobalNames} (sound : Sound views run world cached)
    (le : world ≤ now) (before : instant < now) :
    Sound views run now (cached.reobserved (run instant).store.html.etag) := by
  unfold GlobalNames.reobserved
  split
  · exact
      { named := sound.named
        seen := fun etag pinned => ⟨instant, before.le, pinned⟩
        html := fun _ _ current => by cases current
        bare := fun current => by cases current
        lists := sound.lists
        garbled := sound.garbled
        cold := sound.cold }
  · exact sound.mono le

omit [DecidableEq Html] [DecidableEq Digest] in
/-- A set whose page has been seen to be the one it renders. -/
theorem Sound.confirmed {now : ℕ} {cached : GlobalNames} (sound : Sound views run now cached)
    (html : Digests views run → Unreturning views run →
      ∀ etag, cached.htmlEtag = some etag → RendersFrom views run now etag cached.packages)
    (bare : cached.htmlEtag = none →
      ∀ instant, now ≤ instant → (run instant).store.html.get = none → cached.names = ∅) :
    Sound views run now { cached with htmlCurrent := true } :=
  ⟨sound.named, sound.seen, fun digests unreturning _ => html digests unreturning, fun _ => bare, sound.lists,
    sound.garbled, sound.cold⟩

omit [DecidableEq Html] [DecidableEq Digest] in
/-- A set whose page has just been rewritten. -/
theorem Sound.rewritten {now etag : ℕ} {cached : GlobalNames} (sound : Sound views run now cached)
    (wrote : Wrote views run world now etag cached.names) :
    Sound views run now { cached with htmlEtag := some etag, htmlCurrent := true } where
  named := sound.named
  seen _ pinned := by
    cases pinned
    exact wrote.seen
  html _ _ _ _ pinned := by
    cases pinned
    exact wrote.renders.onward
  bare _ unpinned := by cases unpinned
  lists := sound.lists
  garbled := sound.garbled
  cold := sound.cold

include trace in
/-- A set is kept in memory only where the page was seen to render it. -/
theorem keeps_proveHtml {cached : GlobalNames} {now : ℕ} (sound : Sound views run now cached) (le : world ≤ now)
    (seen : ∃ instant, world ≤ instant ∧ instant ≤ now ∧ (run instant).store.html.etag = cached.htmlEtag ∧
      (Digests views run → Unreturning views run → cached.htmlCurrent = true →
        HtmlShows views run instant cached.names)) :
    Keeps views run thread start call now (proveHtml views cached) fun later outcome =>
      ∀ kept, outcome = some kept → Sound views run later kept ∧ (Digests views run → Unreturning views run →
        ∃ instant, world ≤ instant ∧ instant ≤ later ∧ HtmlShows views run instant cached.names) := by
  obtain ⟨htmlAt, from_, upto, shown, already⟩ := seen
  have valid (digests : Digests views run) : ∀ pkg ∈ cached.packages, ValidName pkg :=
    fun pkg member => sound.named digests pkg (mem_sorted.mp member)
  unfold proveHtml
  split
  · rename_i current
    refine keeps_pure fun later beyond kept same => ?_
    cases same
    exact ⟨sound.mono beyond, fun digests unreturning =>
      ⟨htmlAt, from_, upto.trans beyond, already digests unreturning current⟩⟩
  · refine (keeps_globalHtmlProvedCurrent _ valid).bind fun now₂ le₂ proved certain => ?_
    split
    · rename_i sure
      obtain ⟨etag, named, renders⟩ := certain sure
      refine keeps_pure fun later beyond kept same => ?_
      cases same
      refine ⟨(sound.mono (le₂.trans beyond)).confirmed ?_ ?_, fun digests _ =>
        ⟨htmlAt, from_, upto.trans (le₂.trans beyond), ?_⟩⟩
      · intro digests _ etag' named'
        obtain rfl : etag = etag' := Option.some.inj (named.symm.trans named')
        exact (renders digests).onward
      · intro unnamed
        rw [named] at unnamed
        cases unnamed
      · rw [named] at shown
        obtain ⟨⟨page, tag⟩, found, rfl⟩ := Option.map_eq_some_iff.mp shown
        rw [HtmlShows, found]
        exact (renders digests).page found
    · refine (keeps_reconcileGlobalHtml cached.names _).bind fun now₃ le₃ outcome told => ?_
      obtain ⟨still, rewrote⟩ := told
      cases outcome with
      | current =>
          obtain ⟨instant, from₂, upto₂, shown'⟩ := still rfl
          refine keeps_pure fun later beyond kept same => ?_
          cases same
          refine ⟨(sound.mono (le₂.trans (le₃.trans beyond))).confirmed ?_ ?_,
            fun _ _ => ⟨instant, le.trans (le₂.trans from₂), upto₂.trans beyond, shown'⟩⟩
          -- The etag was seen before the page was compared; if it comes up again it stood there then.
          · intro _ unreturning etag named instant' body from₃ found
            obtain ⟨first, before, stood⟩ := sound.seen etag named
            exact rendersFrom_of_shows unreturning shown' (before.trans (le₂.trans from₂)) stood instant' body
              (upto₂.trans (beyond.trans from₃)) found
          · intro _ instant' from₃ bare
            rw [HtmlShows] at shown'
            cases found : (run instant).store.html.get with
            | none =>
                rw [found] at shown'
                exact shown'
            | some version =>
                refine absurd bare (html_present trace (upto₂.trans (beyond.trans from₃)) ?_)
                rw [found]
                exact Option.some_ne_none _
      | rewrote htmlEtag =>
          have wrote := rewrote htmlEtag rfl
          refine (keeps_writeStamp wrote.renders valid).bind fun now₄ le₄ _ _ => ?_
          refine keeps_pure fun later beyond kept same => ?_
          cases same
          have whole := wrote.widen (le.trans le₂) (le₄.trans beyond)
          exact ⟨(sound.mono (le₂.trans (le₃.trans (le₄.trans beyond)))).rewritten whole, fun _ _ => whole.shown⟩
      | lost => exact keeps_pure fun _ _ _ same => by cases same

include trace in
/-- Where the pair is confirmed it agrees on the set in memory. -/
theorem keeps_confirmCurrent {cached : GlobalNames}
    (sound : Sound views run world cached) (unstranded : cached.stranded = false) :
    Keeps views run thread start call world (confirmCurrent views cached) fun now outcome =>
      ∀ kept, outcome = some kept → Sound views run now kept ∧
        (Digests views run → Unreturning views run → Agreed views run world now cached.names) := by
  refine keeps_globalIndexEtags.bind fun now le etags told => ?_
  obtain ⟨⟨jsonAt, from_, upto, stored⟩, htmlAt, from', upto', shown⟩ := told
  split
  · exact keeps_pure fun _ _ _ same => by cases same
  · rename_i stands
    have pinned : etags.1 = cached.etag := not_not.mp (not_or.mp stands).1
    have told : JsonSays views run jsonAt cached.names := by
      rw [JsonSays]
      cases found : (run jsonAt).store.json.get with
      | none =>
          refine sound.cold unstranded ?_
          rw [← pinned, ← stored, TaggedCell.etag, found]
          rfl
      | some version =>
          refine (sound.lists unstranded version.2 ?_).told found
          rw [← pinned, ← stored, TaggedCell.etag_of_get found]
    have seen := sound.reobserved le upto'
    rw [shown] at seen
    have page (digests : Digests views run) (unreturning : Unreturning views run)
        (current : (cached.reobserved etags.2).htmlCurrent = true) : HtmlShows views run htmlAt cached.names := by
      by_cases moved : etags.2 ≠ cached.htmlEtag
      · rw [GlobalNames.reobserved, if_pos moved] at current
        cases current
      · rw [GlobalNames.reobserved, if_neg moved] at current
        have unmoved : etags.2 = cached.htmlEtag := not_not.mp moved
        rw [HtmlShows]
        cases found : (run htmlAt).store.html.get with
        | none =>
            refine sound.bare current ?_ htmlAt from' found
            rw [← unmoved, ← shown, TaggedCell.etag, found]
            rfl
        | some version =>
            refine sound.html digests unreturning current version.2 ?_ htmlAt version.1 from' found
            rw [← unmoved, ← shown, TaggedCell.etag_of_get found]
    have proves : Keeps views run thread start call now (proveHtml views (cached.reobserved etags.2)) _ :=
      keeps_proveHtml trace seen le
        ⟨htmlAt, from', upto'.le, shown.trans (reobserved_htmlEtag _ _).symm, by rwa [reobserved_names]⟩
    refine proves.weaken fun later beyond result yields outcome ok kept same => ?_
    obtain ⟨sound', page'⟩ := yields outcome ok kept same
    rw [reobserved_names] at page'
    exact ⟨sound', fun digests unreturning =>
      ⟨⟨jsonAt, from_, upto.le.trans beyond, told⟩, page' digests unreturning⟩⟩

/-- Where the pair is written out it agrees on the set in memory. -/
theorem keeps_publish {cached : GlobalNames} (valid : Digests views run → ∀ pkg ∈ cached.names, ValidName pkg)
    (replaces : ∀ etag, cached.etag = some etag →
      Replaces views run thread call start world etag (views.pep691GlobalJson cached.packages)) :
    Keeps views run thread start call world (publish views cached) fun now outcome =>
      ∀ kept, outcome = some kept → Sound views run now kept ∧ Agreed views run world now cached.names := by
  refine (keeps_writeGlobalIndexesCas cached.names _ _ valid replaces).bind fun now le outcome won => ?_
  cases outcome with
  | lost => exact keeps_pure fun _ _ _ same => by cases same
  | won jsonEtag htmlEtag =>
      obtain ⟨wrote, lists, agreed⟩ := won jsonEtag htmlEtag rfl
      refine keeps_pure fun later beyond kept same => ?_
      cases same
      have whole := wrote.widen le_rfl beyond
      refine ⟨?_, agreed.widen le_rfl beyond⟩
      exact
        { named := valid
          seen := fun etag pinned => by
            cases pinned
            exact whole.seen
          html := fun _ _ _ etag pinned => by
            cases pinned
            exact whole.renders.onward
          bare := fun _ unpinned => by cases unpinned
          lists := fun _ etag pinned => by
            cases pinned
            exact lists
          garbled := fun stranded => by cases stranded
          cold := fun _ unpinned => by cases unpinned }

/-- What has been re-proved: each dead package is to go, or is with the markers. -/
theorem keeps_reprove (dead : List (String × String)) {failed : Finset String} (since : start ≤ world)
    (handed : ∀ pkg ∈ failed, Marked views run thread call start world pkg) :
    Keeps views run thread start call world (reprove dead failed) fun now proved =>
      (∀ entry ∈ dead, entry.1 ∈ proved.1 ∨ entry.1 ∈ proved.2) ∧
      (∀ pkg ∈ proved.1, pkg ∈ dead.map Prod.fst) ∧ failed ⊆ proved.2 ∧
      ∀ pkg ∈ proved.2, Marked views run thread call start now pkg := by
  induction dead generalizing world failed with
  | nil =>
      refine keeps_pure fun now le => ⟨?_, ?_, le_rfl, fun pkg member => (handed pkg member).mono le⟩
      · rintro entry ⟨⟩
      · rintro pkg ⟨⟩
  | cons entry dead ih =>
      obtain ⟨pkg, observed⟩ := entry
      unfold reprove
      split
      · rename_i already
        refine (ih since handed).weaken fun now le result yields proved ok => ?_
        obtain ⟨each, only, kept, handed'⟩ := yields proved ok
        refine ⟨?_, fun name member => List.mem_cons_of_mem _ (only name member), kept, handed'⟩
        rintro entry (_ | ⟨_, member⟩)
        · exact .inr (kept already)
        · exact each entry member
      · refine (keeps_packageFingerprint pkg).bind fun now le found _ => ?_
        split
        · refine (ih (since.trans le) fun name member => (handed name member).mono le).bind
            fun now' le' rest told => ?_
          obtain ⟨each, only, kept, handed'⟩ := told
          refine keeps_pure fun later beyond => ⟨?_, ?_, kept, fun name member => (handed' name member).mono beyond⟩
          · rintro entry (_ | ⟨_, member⟩)
            · exact .inl List.mem_cons_self
            · exact (each entry member).imp_left (List.mem_cons_of_mem _)
          · rintro name (_ | ⟨_, member⟩)
            · exact List.mem_cons_self
            · exact List.mem_cons_of_mem _ (only name member)
        · refine (keeps_markDirty pkg (since.trans le)).bind fun now' le' _ marked => ?_
          have handed' : ∀ name ∈ insert pkg failed, Marked views run thread call start now' name := by
            intro name member
            obtain rfl | member := Finset.mem_insert.mp member
            · exact marked
            · exact (handed name member).mono (le.trans le')
          refine (ih (since.trans (le.trans le')) handed').weaken fun later beyond result yields proved ok => ?_
          obtain ⟨each, only, kept, handed₂⟩ := yields proved ok
          refine ⟨?_, fun name member => List.mem_cons_of_mem _ (only name member),
            (Finset.subset_insert _ _).trans kept, handed₂⟩
          rintro entry (_ | ⟨_, member⟩)
          · exact .inr (kept (Finset.mem_insert_self _ _))
          · exact each entry member

end Memory

/-! ### Updates -/

section Updates
variable {thread start world : ℕ} {call : Call}

/-- The delta of a call replaces what it was taken from. -/
theorem replaces_delta {removed : List String} {cached : GlobalNames} (sound : Sound views run world cached)
    (removes : Removes views run thread call start world removed) {etag : ℕ}
    (pinned : cached.etag = some etag) : Replaces views run thread call start world etag
      (views.pep691GlobalJson (sorted (delta call removed cached.names))) := by
  refine ⟨cached.names, removed, removes, rfl, ?_⟩
  cases stranded : cached.stranded with
  | true => exact .inr (sound.garbled stranded etag pinned)
  | false => exact .inl (sound.lists stranded etag pinned)

omit [DecidableEq Html] [DecidableEq Digest] in
theorem valid_delta (valid : Digests views run → ∀ pkg ∈ call.adds, ValidName pkg) {names : Finset String}
    (named : Digests views run → ∀ pkg ∈ names, ValidName pkg) (removed : List String)
    (digests : Digests views run) : ∀ pkg ∈ delta call removed names, ValidName pkg := by
  intro pkg member
  obtain old | new := Finset.mem_union.mp (Finset.mem_sdiff.mp member).1
  · exact named digests pkg old
  · exact valid digests pkg (List.mem_toFinset.mp new)

theorem keeps_cachedNames {guard : Option GlobalNames}
    (sound : ∀ cached, guard = some cached → Sound views run world cached) :
    Keeps views run thread start call world (cachedNames views guard) fun now cached =>
      Sound views run now cached := by
  cases guard with
  | some cached => exact keeps_pure fun now le => (sound cached rfl).mono le
  | none =>
      refine keeps_loadGlobalNames.weaken fun now le result yields loaded ok => ?_
      exact (yields loaded ok).sound

variable (valid : Digests views run → ∀ pkg ∈ call.adds, ValidName pkg)

include trace valid in
theorem keeps_applyDelta {cached : GlobalNames} (sound : Sound views run world cached) {removed : List String}
    (removes : Removes views run thread call start world removed) :
    Keeps views run thread start call world (applyDelta views cached call.adds removed) fun now outcome =>
      ∀ kept, outcome = some kept → Sound views run now kept ∧ (Digests views run → Unreturning views run →
        Agreed views run world now (delta call removed cached.names)) := by
  have names : (absorb cached.names call.adds removed).1 = delta call removed cached.names := absorb_fst _ _ _
  simp only [applyDelta]
  split
  · rename_i settled
    rw [Bool.and_eq_true, Bool.not_eq_true', Bool.not_eq_true'] at settled
    have same := absorb_unchanged settled.1
    have unmoved : { cached with names := (absorb cached.names call.adds removed).1 } = cached := by rw [same]
    rw [unmoved, ← names, same]
    exact keeps_confirmCurrent trace sound settled.2
  · rw [names]
    have publishes : Keeps views run thread start call world
        (publish views { cached with names := delta call removed cached.names }) _ :=
      keeps_publish (valid_delta valid sound.named removed) fun etag pinned => replaces_delta sound removes pinned
    refine publishes.weaken fun now le result yields outcome ok kept some => ?_
    obtain ⟨sound', agreed⟩ := yields outcome ok kept some
    exact ⟨sound', fun _ _ => agreed⟩

include trace valid in
theorem keeps_updateGlobalIndexLocked (since : start ≤ world) {failed : Finset String} {guard : Option GlobalNames}
    (attempts : ℕ) (sound : ∀ cached, guard = some cached → Sound views run world cached)
    (handed : ∀ pkg ∈ failed, Marked views run thread call start world pkg) :
    Keeps views run thread start call world
      (updateGlobalIndexLocked views call.adds call.removes call.dead attempts failed guard) fun now kept =>
        Sound views run now kept ∧
          (Digests views run → Unreturning views run → Done views run thread call start now) := by
  induction attempts generalizing world failed guard with
  | zero => exact keeps_bail
  | succ attempts ih =>
      refine (keeps_cachedNames sound).bind fun now le cached sound' => ?_
      refine (keeps_reprove call.dead (since.trans le) fun pkg member => (handed pkg member).mono le).bind
        fun now' le' proved told => ?_
      obtain ⟨each, only, _, handed'⟩ := told
      have removes : Removes views run thread call start now' (call.removes ++ proved.1) := by
        constructor
        · exact fun pkg member => List.mem_append_left _ member
        · intro entry member
          obtain gone | marked := each entry member
          · exact .inl (List.mem_append_right _ gone)
          · exact .inr (handed' entry.1 marked)
        · exact fun pkg member => (List.mem_append.mp member).imp_right (only pkg)
      refine (keeps_applyDelta trace valid (sound'.mono le') removes).bind fun now₂ le₂ outcome settled => ?_
      cases outcome with
      | some kept =>
          obtain ⟨sound₂, agreed⟩ := settled kept rfl
          refine keeps_pure fun later beyond => ⟨sound₂.mono beyond, fun digests unreturning => ?_⟩
          exact ⟨_, call.removes ++ proved.1, removes.mono (le₂.trans beyond), .of_delta,
            (agreed digests unreturning).widen (since.trans (le.trans le')) beyond⟩
      | none =>
          refine ih (since.trans (le.trans (le'.trans le₂))) (fun _ same => by cases same) fun pkg member => ?_
          exact (handed' pkg member).mono le₂

include trace valid in
theorem keeps_updateGlobalIndexInner (since : start ≤ world)
    (node : ℕ) : Keeps views run thread start call world
      (updateGlobalIndexInner views call.adds call.removes call.dead node) fun now _ =>
        Digests views run → Unreturning views run → Done views run thread call start now := by
  refine (keeps_lock node).bind fun now le guard sound => ?_
  refine (keeps_updateGlobalIndexLocked trace valid (since.trans le) 4 sound ?_).attempt
    fun later beyond result yields => ?_
  · rintro pkg member
    exact absurd member (Finset.notMem_empty pkg)
  · cases result with
    | ok cached =>
        obtain ⟨sound', done⟩ := yields cached rfl
        have unlocks : Keeps views run thread start call later (unlockNames node (some cached)) fun _ _ => True := by
          refine keeps_unlock node fun now' kept le' same => ?_
          cases same
          exact sound'.mono le'
        exact unlocks.weaken fun last le' _ _ _ _ digests unreturning => (done digests unreturning).mono le'
    | error text =>
        refine (keeps_unlock node fun _ _ _ same => by cases same).bind fun _ _ _ _ => ?_
        exact keeps_bail

include valid in
theorem keeps_attemptUncached (since : start ≤ world) (undead : call.dead = []) :
    Keeps views run thread start call world (attemptUncached views call.adds call.removes) fun now settled =>
      settled = true → Digests views run → Done views run thread call start now := by
  have removes (now : ℕ) : Removes views run thread call start now call.removes := by
    refine ⟨fun _ => id, fun entry member => ?_, fun _ => .inl⟩
    rw [undead] at member
    cases member
  refine keeps_loadGlobalNames.bind fun now le loaded told => ?_
  obtain ⟨sound, json, htmlAt, from_, upto, shown⟩ := told
  have names : (absorb loaded.names call.adds call.removes).1 = delta call call.removes loaded.names :=
    absorb_fst _ _ _
  have named := valid_delta valid sound.named call.removes
  have done {later : ℕ} (agreed : Agreed views run world later (delta call call.removes loaded.names)) :
      Done views run thread call start later :=
    ⟨_, call.removes, removes later, .of_delta, agreed.widen since le_rfl⟩
  simp only
  rw [names]
  split
  · rename_i settled
    rw [Bool.and_eq_true, Bool.not_eq_true', Bool.not_eq_true'] at settled
    obtain ⟨jsonAt, from', upto', told⟩ := json settled.2
    rw [← absorb_unchanged settled.1, names] at told
    have agree {later instant : ℕ} (beyond : now ≤ later) (from₂ : world ≤ instant) (upto₂ : instant ≤ later)
        (shown' : HtmlShows views run instant (delta call call.removes loaded.names)) :
        Done views run thread call start later :=
      done ⟨⟨jsonAt, from', upto'.trans beyond, told⟩, instant, from₂, upto₂, shown'⟩
    have sortedNamed (digests : Digests views run) :
        ∀ pkg ∈ sorted (delta call call.removes loaded.names), ValidName pkg :=
      fun pkg member => named digests pkg (mem_sorted.mp member)
    refine (keeps_globalHtmlProvedCurrent _ sortedNamed).bind fun now₂ le₂ proved certain => ?_
    split
    · rename_i sure
      obtain ⟨etag, stands, renders⟩ := certain sure
      refine keeps_pure fun later beyond _ digests =>
        agree (le₂.trans beyond) from_ (upto.trans (le₂.trans beyond)) ?_
      rw [stands] at shown
      obtain ⟨⟨page, tag⟩, found, rfl⟩ := Option.map_eq_some_iff.mp shown
      rw [HtmlShows, found]
      exact (renders digests).page found
    · refine (keeps_reconcileGlobalHtml _ _).bind fun now₃ le₃ outcome told => ?_
      obtain ⟨still, rewrote⟩ := told
      cases outcome with
      | current =>
          obtain ⟨instant, from₂, upto₂, shown'⟩ := still rfl
          exact keeps_pure fun later beyond _ _ => agree (le₂.trans (le₃.trans beyond))
            (le.trans (le₂.trans from₂)) (upto₂.trans beyond) shown'
      | rewrote htmlEtag =>
          have wrote := rewrote htmlEtag rfl
          refine (keeps_writeStamp wrote.renders sortedNamed).bind fun now₄ le₄ _ _ => ?_
          obtain ⟨instant, from₂, upto₂, shown'⟩ := wrote.shown
          exact keeps_pure fun later beyond _ _ => agree (le₂.trans (le₃.trans (le₄.trans beyond)))
            (le.trans (le₂.trans from₂)) (upto₂.trans (le₄.trans beyond)) shown'
      | lost => exact keeps_pure fun _ _ same => by cases same
  · have replaces : ∀ etag, loaded.etag = some etag → Replaces views run thread call start now etag
        (views.pep691GlobalJson (sorted (delta call call.removes loaded.names))) :=
      fun etag pinned => replaces_delta sound (removes now) pinned
    refine (keeps_writeGlobalIndexesCas _ _ _ named replaces).bind fun now₂ le₂ outcome won => ?_
    cases outcome with
    | lost => exact keeps_pure fun _ _ same => by cases same
    | won jsonEtag htmlEtag =>
        obtain ⟨_, _, agreed⟩ := won jsonEtag htmlEtag rfl
        exact keeps_pure fun later beyond _ _ => done (agreed.widen le beyond)

include valid in
theorem keeps_retryUncached (since : start ≤ world) (undead : call.dead = []) (attempts : ℕ) :
    Keeps views run thread start call world (retryUncached views call.adds call.removes attempts) fun now _ =>
      Digests views run → Done views run thread call start now := by
  induction attempts generalizing world with
  | zero => exact keeps_bail
  | succ attempts ih =>
      refine (keeps_attemptUncached valid since undead).bind fun now le settled done => ?_
      split
      · rename_i sure
        exact keeps_pure fun later beyond digests => (done sure digests).mono beyond
      · exact ih (since.trans le)

end Updates

include trace in
/-- Every update keeps to the contract. -/
theorem keeps_program {thread start : ℕ} {call : Call}
    (task : (run start).threads thread = some (call, Call.program views call)) :
    Keeps views run thread start call start (Call.program views call) fun now _ =>
      Post views run thread call start now := by
  have valid (digests : Digests views run) := (digests.named start).adds thread call _ task
  cases call with
  | update node adds removes =>
      have inner : Keeps views run thread start (.update node adds removes) start _ _ :=
        keeps_updateGlobalIndexInner trace valid le_rfl node
      exact inner.weaken fun _ _ _ yields value ok =>
        .inl fun digests unreturning => yields value ok digests (unreturning rfl)
  | verified node adds dead =>
      have inner : Keeps views run thread start (.verified node adds dead) start _ _ :=
        keeps_updateGlobalIndexInner trace valid le_rfl node
      exact inner.weaken fun _ _ _ yields value ok =>
        .inl fun digests unreturning => yields value ok digests (unreturning rfl)
  | uncached adds removes =>
      change Keeps views run thread start (.uncached adds removes) start
        (if adds = [] ∧ removes = [] then pure () else retryUncached views adds removes 4) _
      split
      · rename_i empty
        obtain ⟨rfl, rfl⟩ := empty
        exact keeps_pure fun _ _ => .inr rfl
      · have retries : Keeps views run thread start (.uncached adds removes) start _ _ :=
          keeps_retryUncached valid le_rfl rfl 4
        exact retries.weaken fun _ _ _ yields value ok => .inl fun digests _ => yields value ok digests

/-! ### Runs -/

section Runs
variable (idle : ∀ thread, (run 0).threads thread = none) (unstamped : (run 0).store.stamp = none)
  (forgotten : ∀ node, (run 0).store.caches node = none)

include trace in
theorem holds_succ {now : ℕ} (holds : Holds views run now)
    (permitted : ∀ thread call op answer, Performed (globalIndex views) run thread now call op answer →
      ∃ start, permits views run thread call start now op) : Holds views run (now + 1) := by
  have sames (same : (run (now + 1)).store.caches = (run now).store.caches) (node : ℕ) (cached : GlobalNames)
      (kept : (run (now + 1)).store.caches node = some cached) : Sound views run (now + 1) cached :=
    (holds.2 node cached (by rw [← same]; exact kept)).mono (Nat.le_succ now)
  obtain ⟨thread, call, op, answer, performed⟩ | drifts | same := store_cases trace now
  · obtain ⟨start, allowed⟩ := permitted thread call op answer performed
    obtain ⟨_, _, performs, _⟩ := performed
    generalize after_ : (run (now + 1)).store = after at performs
    have others (stamp : after.stamp = (run now).store.stamp) (caches : after.caches = (run now).store.caches) :
        Holds views run (now + 1) := by
      constructor
      · rw [after_, stamp]
        exact holds.1
      · exact sames (by rw [after_, caches])
    have stamped {stamp : GlobalHtmlStamp Digest} (vouches : StampSound views run stamp)
        (stamps : after.stamp = some stamp) (caches : after.caches = (run now).store.caches) :
        Holds views run (now + 1) := by
      constructor
      · rw [after_, stamps]
        intro stamp' same
        cases same
        exact vouches
      · exact sames (by rw [after_, caches])
    cases performs with
    | stampWritten | stampLost => exact stamped allowed rfl rfl
    | @unlocked node guard held =>
        constructor
        · rw [after_]
          exact holds.1
        · intro node' cached kept
          rw [after_] at kept
          change Function.update (run now).store.caches node guard node' = some cached at kept
          by_cases mine : node' = node
          · subst mine
            rw [Function.update_self] at kept
            exact (allowed cached kept).mono (Nat.le_succ now)
          · rw [Function.update_of_ne mine] at kept
            exact (holds.2 node' cached kept).mono (Nat.le_succ now)
    | json | html | stampRead | stampUnread | stampFailed | listed | unlisted | fingerprint | unknown
      | marked | unmarked | locked => exact others rfl rfl
  · constructor
    · intro stamp stands
      obtain same | gone := drifts.stamp
      · exact holds.1 stamp (same ▸ stands)
      · rw [gone] at stands
        cases stands
    · exact sames drifts.caches
  · constructor
    · rw [same]
      exact holds.1
    · exact sames (by rw [same])

include trace idle unstamped forgotten in
theorem holds_permitted (now : ℕ) : Holds views run now ∧ ∀ thread call program,
    (run now).threads thread = some (call, program) →
    ∃ start, Underway (globalIndex views) run thread call start now ∧
      (contract views run).Kept (globalIndex views) run (Holds views run) thread call start now program := by
  refine trace.lawful idle (contract views run) ?_ ?_ ?_ now
  · refine ⟨fun stamp stands => ?_, fun node cached kept => ?_⟩
    · rw [unstamped] at stands
      cases stands
    · rw [forgotten] at kept
      cases kept
  · intro now holds permitted
    refine holds_succ trace holds fun thread call op answer performed => ?_
    obtain ⟨start, _, allowed⟩ := permitted thread call op answer performed
    exact ⟨start, allowed⟩
  · exact fun thread start call _ task => keeps_program trace task

/-- An update that succeeds has seen, while it ran, the canonical index hold its delta, and
the page show the same names; only an uncached one without a delta looks at nothing. It goes
by digests that tell name lists apart and, where it remembers the page by its etag, by an
etag that does not come back. -/
theorem update_agrees (trace : Trace (globalIndex views) run) (digests : Digests views run)
    (idle : ∀ thread, (run 0).threads thread = none) (unstamped : (run 0).store.stamp = none)
    (forgotten : ∀ node, (run 0).store.caches node = none) {thread now : ℕ} {call : Call}
    (unreturning : call.caches = true → Unreturning views run)
    (finished : (run now).threads thread = some (call, .done (.ok ()))) (some_delta : call ≠ .uncached [] []) :
    ∃ start, Underway (globalIndex views) run thread call start now ∧ Done views run thread call start now := by
  obtain ⟨start, underway, kept⟩ :=
    (holds_permitted trace idle unstamped forgotten now).2 thread call _ finished
  obtain done | none_ := kept now le_rfl () rfl
  · exact ⟨start, underway, done digests unreturning⟩
  · exact absurd none_ some_delta

/-- A write of the canonical index over one that lists names changes these by the writer's
delta: the writer's adds come, all that it was told to remove goes, and of what it found dead
all that it has not handed to the markers. No other name comes or goes. -/
theorem json_delta (trace : Trace (globalIndex views) run)
    (idle : ∀ thread, (run 0).threads thread = none) (unstamped : (run 0).store.stamp = none)
    (forgotten : ∀ node, (run 0).store.caches node = none) {thread now : ℕ} {call : Call}
    {request : VersionedCell.Request Json} {answer : request.Ans}
    (performed : Performed (globalIndex views) run thread now call (.json request) answer)
    (changed : (run (now + 1)).store.json ≠ (run now).store.json) {body : Json} {etag : ℕ} {listed : List String}
    (stood : (run now).store.json.get = some (body, etag)) (told : views.parse body = some listed) :
    ∃ start removed, Underway (globalIndex views) run thread call start now ∧
      Removes views run thread call start now removed ∧
      JsonSays views run (now + 1) (delta call removed listed.toFinset) := by
  obtain ⟨next, task, performs, _⟩ := performed
  obtain ⟨start, underway, kept⟩ :=
    (holds_permitted trace idle unstamped forgotten now).2 thread call _ task
  have allowed : permits views run thread call start now (.json request) := (kept now le_rfl).1
  generalize after_ : (run (now + 1)).store = after at performs changed
  cases performs with
  | @json _ _ cell serves =>
      cases request with
      | getWithEtag => exact absurd serves.read.1 changed
      | putIfNoneMatch fresh =>
          obtain same | missing := serves.create
          · exact absurd same changed
          · rw [stood] at missing
            cases missing
      | putIfMatch number fresh =>
          obtain same | ⟨⟨stored, found⟩, tag, wrote⟩ := serves.replace
          · exact absurd same changed
          · obtain ⟨base, removed, removes, rfl, lists | garbled⟩ := allowed
            · rw [stood] at found
              cases found
              have names := lists.told stood
              rw [told, Option.map_some, Option.some.injEq] at names
              refine ⟨start, removed, underway, removes, ?_⟩
              rw [JsonSays, after_, wrote]
              simp only
              rw [views.parse_json, Option.map_some, sorted_toFinset, names]
            · rw [stood] at found
              cases found
              rw [garbled.told stood] at told
              cases told

end Runs

/-! ### A page that comes back -/

/-- Pages that are right or stale. -/
def staleViews : Views (List String) Bool String where
  parse := some
  pep691GlobalJson := id
  pep503GlobalHtml _ := true
  sha256 := id
  jsonOf _ := some []
  htmlOf etag := [false, true][etag]?
  parse_json _ := rfl

abbrev StaleConfig := ThreadPool.Config (Store staleViews) Call (Op (List String) Bool String) Op.Ans String Unit

/-- The index lists nothing, and the page is stale. -/
def staleConfig : StaleConfig where
  store :=
    { json := TaggedCell.empty.write (show staleViews.jsonOf 0 = some [] from rfl)
      html := TaggedCell.empty.write (show staleViews.htmlOf 0 = some false from rfl)
      stamp := none, listed := ∅, fingerprint := fun _ => "", caches := fun _ => none, holders := fun _ => none }
  threads := fun _ => none

/-- A node holds the page for current at an etag, and the page has the etag, and is stale. -/
def HoldsStale (config : StaleConfig) : Prop :=
  ∃ cached, config.store.caches 0 = some cached ∧ cached.htmlCurrent = true ∧
    config.store.html.get = some (false, 0) ∧ cached.htmlEtag = some 0

theorem drifts_html {store : Store staleViews} {page : Bool} {etag : ℕ} (named : staleViews.htmlOf etag = some page) :
    Drifts store { store with html := store.html.write named } :=
  ⟨fun _ => Option.some_ne_none _, .inl rfl, rfl, rfl⟩

theorem staleConfig_misleads : Leads (globalIndex staleViews) HoldsStale staleConfig := by
  have right : staleViews.htmlOf 1 = some true := rfl
  have stale : staleViews.htmlOf 0 = some false := rfl
  refine .start 0 (.update 0 [] []) rfl ?_
  refine .perform 0 rfl (.locked rfl) ?_
  refine .perform 0 rfl (.json .got) ?_
  refine .perform 0 rfl (.html .got) ?_
  refine .perform 0 rfl (.json .got) ?_
  refine .perform 0 rfl (.html .got) ?_
  refine .perform 0 rfl .stampRead ?_
  -- The page is looked at under the stale etag, and compared once it is right.
  refine .after_step (.drift (drifts_html right)) ?_
  refine .perform 0 rfl (.html .got) ?_
  refine .perform 0 rfl (.unlocked _ rfl) ?_
  refine .after_step (.drift (drifts_html stale)) ?_
  exact ⟨_, .refl, _, rfl, rfl, rfl, rfl⟩

/-- A page that returns to the etag it had when a node looked, before the body that the node
compared, is held for current though it is stale. -/
theorem returned_page_misleads : ∃ run now, Trace (globalIndex staleViews) run ∧ run 0 = staleConfig ∧
    HoldsStale (run now) := by
  obtain ⟨config, reaches, misled⟩ := staleConfig_misleads
  obtain ⟨run, trace, starts, now, rfl⟩ := ThreadPool.trace_of_reaches reaches
  exact ⟨run, now, trace, starts, misled⟩

/-! ### Two packages -/

/-- Bodies that are the lists they tell; the etags number the pages. -/
def plainViews (pages : List (List String)) : Views (List String) (List String) String where
  parse := some
  pep691GlobalJson := id
  pep503GlobalHtml := id
  sha256 := id
  jsonOf etag := pages[etag]?
  htmlOf etag := pages[etag]?
  parse_json _ := rfl

abbrev PlainConfig (pages : List (List String)) := ThreadPool.Config (Store (plainViews pages)) Call
  (Op (List String) (List String) String) Op.Ans String Unit

/-- A bucket nobody has written to. -/
def emptyConfig (pages : List (List String)) : PlainConfig pages where
  store :=
    { json := .empty, html := .empty, stamp := none, listed := ∅, fingerprint := fun _ => "",
      caches := fun _ => none, holders := fun _ => none }
  threads := fun _ => none

section Race
variable {pages : List (List String)} {config config' : PlainConfig pages} {goal : PlainConfig pages → Prop}

def demoUpdate : Call := .update 0 ["demo"] []

def nextUpdate : Call := .uncached ["next"] []

/-- Two calls are at work, and each page is written under the next number. -/
structure Orderly (config : PlainConfig pages) : Prop where
  listed : config.store.listed = ∅
  calls : ∀ thread call program, config.threads thread = some (call, program) → call = demoUpdate ∨ call = nextUpdate
  numbered : ∀ etag, config.store.html.etag = some etag → config.store.html.writes = etag + 1

/-- A step of the two calls. -/
structure Moves (config config' : PlainConfig pages) : Prop where
  step : ThreadPool.Step (globalIndex (plainViews pages)) config config'
  orderly : Orderly config'
  writes : config.store.html.writes ≤ config'.store.html.writes

def Comes (goal : PlainConfig pages → Prop) (config : PlainConfig pages) : Prop :=
  Orderly config → ∃ config', Relation.ReflTransGen Moves config config' ∧ goal config'

theorem Comes.after (moves : Orderly config → Moves config config') (comes : Comes goal config') :
    Comes goal config := by
  intro orderly
  obtain ⟨last, reaches, holds⟩ := comes (moves orderly).orderly
  exact ⟨last, .head (moves orderly) reaches, holds⟩

theorem Orderly.setThread {store : Store (plainViews pages)} (orderly : Orderly config) (listed : store.listed = ∅)
    (numbered : ∀ etag, store.html.etag = some etag → store.html.writes = etag + 1) {thread : ℕ} {call : Call}
    {program : GlobalM (List String) (List String) String Unit} (known : call = demoUpdate ∨ call = nextUpdate) :
    Orderly (ThreadPool.Config.setThread { config with store } thread (some (call, program))) := by
  refine ⟨listed, fun other call' program' task => ?_, numbered⟩
  by_cases mine : other = thread
  · rw [mine, ThreadPool.Config.setThread_self] at task
    cases task
    exact known
  · rw [ThreadPool.Config.setThread_other _ mine] at task
    exact orderly.calls other call' program' task

theorem Comes.start (thread : ℕ) {call : Call} (known : call = demoUpdate ∨ call = nextUpdate)
    (free : config.threads thread = none)
    (comes : Comes goal (config.setThread thread (some (call, Call.program (plainViews pages) call)))) :
    Comes goal config := by
  refine comes.after fun orderly => ⟨.start free, ?_, le_rfl⟩
  exact orderly.setThread orderly.listed orderly.numbered known

theorem Comes.perform (thread : ℕ) {call : Call} {op : Op (List String) (List String) String} {answer : op.Ans}
    {next : op.Ans → GlobalM (List String) (List String) String Unit} {store : Store (plainViews pages)}
    (task : config.threads thread = some (call, .call op next))
    (performs : Performs thread config.store op answer store)
    (listed : store.listed = config.store.listed)
    (page : store.html = config.store.html ∨ store.html.etag = some config.store.html.writes ∧
      store.html.writes = config.store.html.writes + 1)
    (comes : Comes goal (ThreadPool.Config.setThread { config with store } thread (some (call, next answer)))) :
    Comes goal config := by
  refine comes.after fun orderly => ⟨.perform task performs, ?_, ?_⟩
  · refine orderly.setThread (listed.trans orderly.listed) (fun etag stands => ?_)
      (orderly.calls thread call _ task)
    obtain same | ⟨numbered, writes⟩ := page
    · rw [same] at stands ⊢
      exact orderly.numbered etag stands
    · rw [numbered, Option.some.injEq] at stands
      rw [writes, stands]
  · obtain same | ⟨_, writes⟩ := page
    · exact (congrArg TaggedCell.writes same).ge
    · exact (Nat.le_succ _).trans writes.ge

variable {run : ℕ → PlainConfig pages} (first : Orderly (run 0))
  (moves : ∀ now, Moves (run now) (run (now + 1)) ∨ run (now + 1) = run now)
include first moves

theorem orderly_of_moves (now : ℕ) : Orderly (run now) := by
  induction now with
  | zero => exact first
  | succ now ih =>
      obtain move | paused := moves now
      · exact move.orderly
      · rwa [paused]

theorem digests_of_moves (valid : ∀ packages ∈ pages, ∀ pkg ∈ packages, ValidName pkg) :
    Digests (plainViews pages) run := by
  refine ⟨Views.globalNamesDigest_injOn Function.injective_id, fun now => ?_⟩
  have orderly := orderly_of_moves first moves now
  constructor
  · intro body etag packages found told pkg member
    cases told
    exact valid body (List.mem_of_getElem? (TaggedCell.stands_of_get found)) pkg member
  · rw [orderly.listed]
    exact fun pkg member => absurd member (Finset.notMem_empty pkg)
  · intro thread call program task pkg member
    obtain rfl | rfl := orderly.calls thread call program task
    · obtain rfl := List.mem_singleton.mp member
      exact ⟨by decide, by decide⟩
    · obtain rfl := List.mem_singleton.mp member
      exact ⟨by decide, by decide⟩

/-- Numbers that only grow do not come back. -/
theorem unreturning_of_moves (trace : Trace (globalIndex (plainViews pages)) run) :
    Unreturning (plainViews pages) run := by
  have growing : Monotone fun now => (run now).store.html.writes := by
    refine monotone_nat_of_le_succ fun now => ?_
    obtain move | paused := moves now
    · exact move.writes
    · rw [paused]
  intro before between after etag le le' stood stands
  have numbered := (orderly_of_moves first moves before).numbered etag stood
  have numbered' := (orderly_of_moves first moves after).numbered etag stands
  have present : (run between).store.html.get ≠ none := by
    refine html_present trace le fun missing => ?_
    rw [TaggedCell.etag, missing] at stood
    cases stood
  obtain ⟨⟨page, tag⟩, found⟩ := Option.ne_none_iff_exists'.mp present
  have middle := (orderly_of_moves first moves between).numbered tag (TaggedCell.etag_of_get found)
  have least : (run before).store.html.writes ≤ (run between).store.html.writes := growing le
  have most : (run between).store.html.writes ≤ (run after).store.html.writes := growing le'
  obtain rfl : tag = etag := by omega
  exact TaggedCell.etag_of_get found

end Race

/-- The page of the second call, then the page of both. -/
def racePages : List (List String) := [["next"], ["demo", "next"]]

theorem sorted_next : sorted {"next"} = ["next"] := Finset.sort_singleton ..

theorem sorted_both : sorted {"demo", "next"} = ["demo", "next"] := by
  rw [sorted, Finset.sort_insert, Finset.sort_singleton]
  · simp
  · simp

/-- Both have been published, the first over the second. -/
def Published (config : PlainConfig racePages) : Prop :=
  config.threads 0 = some (demoUpdate, .done (.ok ())) ∧
  config.store.json.get = some (["demo", "next"], 1) ∧ config.store.html.get = some (["demo", "next"], 1) ∧
  config.store.stamp = some ⟨1, (plainViews racePages).globalNamesDigest ["demo", "next"]⟩ ∧
  config.store.caches 0 = some ⟨some 1, {"demo", "next"}, some 1, true, false⟩

theorem emptyConfig_publishes : Comes Published (emptyConfig racePages) := by
  -- The first call reads that nothing is there.
  refine .start 0 (.inl rfl) rfl ?_
  refine .perform 0 rfl (.locked rfl) rfl (.inl rfl) ?_
  refine .perform 0 rfl (.json .got) rfl (.inl rfl) ?_
  refine .perform 0 rfl (.html .got) rfl (.inl rfl) ?_
  refine .perform 0 rfl (.html .got) rfl (.inl rfl) ?_
  -- The second publishes its package.
  refine .start 1 (.inr rfl) rfl ?_
  refine .perform 1 rfl (.json .got) rfl (.inl rfl) ?_
  refine .perform 1 rfl (.html .got) rfl (.inl rfl) ?_
  refine .perform 1 rfl (.html .got) rfl (.inl rfl) ?_
  have second : racePages[0]? = some (sorted {"next"}) := by rw [sorted_next]; rfl
  refine .perform 1 rfl (.html (.created rfl second)) rfl (.inr ⟨rfl, rfl⟩) ?_
  refine .perform 1 rfl (.json (.created rfl second)) rfl (.inl rfl) ?_
  refine .perform 1 rfl (.stampWritten _) rfl (.inl rfl) ?_
  -- The first is too late, and starts again.
  have both : (absorb ["next"].toFinset ["demo"] []).1 = {"demo", "next"} := by decide
  have first : racePages[1]? = some (sorted (absorb ["next"].toFinset ["demo"] []).1) := by
    rw [both, sorted_both]
    rfl
  refine .perform 0 rfl (.html (.occupied (Option.some_ne_none _))) rfl (.inl rfl) ?_
  have shown := congrArg (fun packages => some (packages, 0)) sorted_next
  refine .perform 0 rfl (.json (.got_of shown)) rfl (.inl rfl) ?_
  refine .perform 0 rfl (.html .got) rfl (.inl rfl) ?_
  refine .perform 0 rfl (.html (.replaced rfl first)) rfl (.inr ⟨rfl, rfl⟩) ?_
  refine .perform 0 rfl (.json (.replaced rfl first)) rfl (.inl rfl) ?_
  refine .perform 0 rfl (.stampWritten _) rfl (.inl rfl) ?_
  refine .perform 0 rfl (.unlocked _ rfl) rfl (.inl rfl) ?_
  have page : sorted (absorb ["next"].toFinset ["demo"] []).1 = ["demo", "next"] := by rw [both, sorted_both]
  refine fun _ => ⟨_, .refl, rfl, ?_, ?_, ?_, ?_⟩
  · exact congrArg (fun packages => some (packages, 1)) page
  · exact congrArg (fun packages => some (packages, 1)) page
  · exact congrArg
      (fun packages => some (GlobalHtmlStamp.mk 1 ((plainViews racePages).globalNamesDigest packages))) page
  · exact congrArg (fun names => some (GlobalNames.mk (some 1) names (some 1) true false)) both

theorem emptyConfig_orderly (pages : List (List String)) : Orderly (emptyConfig pages) where
  listed := rfl
  calls _ _ _ task := by cases task
  numbered _ stands := by cases stands

/-- A run of the two calls, in which no etag comes back. -/
theorem race : ∃ run now, Trace (globalIndex (plainViews racePages)) run ∧ run 0 = emptyConfig racePages ∧
    Digests (plainViews racePages) run ∧ Unreturning (plainViews racePages) run ∧ Published (run now) := by
  have orderly := emptyConfig_orderly racePages
  obtain ⟨config, reaches, published⟩ := emptyConfig_publishes orderly
  obtain ⟨run, moves, starts, now, rfl⟩ := ThreadPool.run_of_reaches reaches
  have trace : Trace (globalIndex (plainViews racePages)) run := fun now => (moves now).imp_left Moves.step
  rw [← starts] at orderly
  exact ⟨run, now, trace, starts, digests_of_moves orderly moves (by decide),
    unreturning_of_moves orderly moves trace, published⟩

theorem firstPackage_agrees : ∃ run start now, Trace (globalIndex (plainViews racePages)) run ∧
    Done (plainViews racePages) run 0 demoUpdate start now ∧
    (run now).store.json.get = some (["demo", "next"], 1) := by
  obtain ⟨run, now, trace, starts, digests, unreturning, finished, json, _⟩ := race
  have idle : ∀ thread, (run 0).threads thread = none := by rw [starts]; exact fun _ => rfl
  have unstamped : (run 0).store.stamp = none := by rw [starts]; rfl
  have forgotten : ∀ node, (run 0).store.caches node = none := by rw [starts]; exact fun _ => rfl
  have delta : demoUpdate ≠ .uncached [] [] := by simp [demoUpdate]
  obtain ⟨start, _, done⟩ :=
    update_agrees trace digests idle unstamped forgotten (fun _ => unreturning) finished delta
  exact ⟨run, start, now, trace, done, json⟩

/-- One package comes, another goes. -/
def secondPackage : Call := .uncached ["next"] ["demo"]

def swapPages : List (List String) := [["demo"], ["next"]]

/-- A bucket whose index has the first package. -/
def standingConfig : PlainConfig swapPages where
  store :=
    have demo : swapPages[0]? = some ["demo"] := rfl
    { (emptyConfig swapPages).store with
      json := TaggedCell.empty.write demo
      html := TaggedCell.empty.write demo }
  threads := fun _ => none

theorem swapped : sorted (absorb ["demo"].toFinset ["next"] ["demo"]).1 = ["next"] := by
  have names : (absorb ["demo"].toFinset ["next"] ["demo"]).1 = {"next"} := by decide
  rw [names, sorted_next]

/-- The second package is about to be written over the first. -/
def Replacing (config : PlainConfig swapPages) : Prop :=
  ∃ next, config.store.json.get = some (["demo"], 0) ∧ config.threads 0 =
    some (secondPackage, .call (.json (.putIfMatch 0 (sorted (absorb ["demo"].toFinset ["next"] ["demo"]).1))) next)

theorem standingConfig_replaces : Leads (globalIndex (plainViews swapPages)) Replacing standingConfig := by
  have page : swapPages[1]? = some (sorted (absorb ["demo"].toFinset ["next"] ["demo"]).1) := by
    rw [swapped]
    rfl
  refine .start 0 secondPackage rfl ?_
  refine .perform 0 rfl (.json .got) ?_
  refine .perform 0 rfl (.html .got) ?_
  refine .perform 0 rfl (.html (.replaced rfl page)) ?_
  exact ⟨_, .refl, _, rfl, rfl⟩

theorem secondPackage_delta : ∃ run now, Trace (globalIndex (plainViews swapPages)) run ∧
    (run now).store.json.get = some (["demo"], 0) ∧ JsonSays (plainViews swapPages) run (now + 1) {"next"} := by
  obtain ⟨config, reaches, next, stood, task⟩ := standingConfig_replaces
  have page : swapPages[1]? = some (sorted (absorb ["demo"].toFinset ["next"] ["demo"]).1) := by
    rw [swapped]
    rfl
  obtain ⟨run, trace, starts, now, rfl, after, performed⟩ := ThreadPool.performed_of_reaches reaches task
    (.json (.replaced stood page))
  have idle : ∀ thread, (run 0).threads thread = none := by rw [starts]; exact fun _ => rfl
  have unstamped : (run 0).store.stamp = none := by rw [starts]; rfl
  have forgotten : ∀ node, (run 0).store.caches node = none := by rw [starts]; exact fun _ => rfl
  have changed : (run (now + 1)).store.json ≠ (run now).store.json := by
    rw [after]
    exact TaggedCell.write_ne page
  obtain ⟨_, removed, _, removes, told⟩ := json_delta trace idle unstamped forgotten performed changed stood rfl
  have gone : "demo" ∈ removed := removes.told "demo" List.mem_cons_self
  have stays : "next" ∉ removed := by
    intro member
    obtain told | dead := removes.only "next" member
    · exact absurd told (by decide)
    · exact absurd dead List.not_mem_nil
  have names : delta secondPackage removed ["demo"].toFinset = {"next"} := by
    ext name
    simp only [delta, Finset.mem_sdiff, Finset.mem_union, List.mem_toFinset, Finset.mem_singleton]
    constructor
    · rintro ⟨demo | next, kept⟩
      · obtain rfl := List.mem_singleton.mp demo
        exact absurd gone kept
      · exact List.mem_singleton.mp next
    · rintro rfl
      exact ⟨.inr (List.mem_singleton_self _), stays⟩
  exact ⟨run, now, trace, stood, names ▸ told⟩

end Pypiron.GlobalIndex
