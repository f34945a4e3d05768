import Pypiron.IndexCache

/-! What a request is answered was read by a request pinned to the same bucket
selection: the cache is emptied when the selection changes, and a late load
changes it back before it fills it. -/
namespace Pypiron.IndexCache
open KeyedMap

/-- What requests pinned at a generation have read for a key. -/
abbrev Knowledge := ℕ → String → Cached → Prop

variable {c : Codec} {ttl maxBytes : ℕ} {known later : Knowledge}

theorem Codec.reuseOrBuild_cases (c : Codec) (stale : Option Cached) (bytes : Bytes) :
    some (c.reuseOrBuild stale bytes) = stale ∨ c.reuseOrBuild stale bytes = c.build bytes := by
  unfold Codec.reuseOrBuild
  split
  · split
    · exact .inl rfl
    · exact .inr rfl
  · exact .inr rfl

/-! ### Entries -/

structure Entries.Sound (known : Knowledge) (maxBytes : ℕ) (entries : Entries) : Prop where
  exact : entries.toTalliedMap.Exact Entry.weight
  bounded : entries.bodyBytes ≤ maxBytes
  known : ∀ key entry, entries.map.lookup key = some entry →
    known entries.generation key entry.cached

theorem Entries.Sound.mono {entries : Entries} (sound : entries.Sound known maxBytes)
    (grows : ∀ generation key cached, known generation key cached → later generation key cached) :
    entries.Sound later maxBytes :=
  ⟨sound.exact, sound.bounded, fun key entry found => grows _ _ _ (sound.known key entry found)⟩

/-- The marks do not bear on what the entries hold. -/
theorem Entries.Sound.mark {entries : Entries} (sound : entries.Sound known maxBytes)
    (refilling : Finset String) : { entries with refilling := refilling }.Sound known maxBytes :=
  ⟨sound.exact, sound.bounded, sound.known⟩

theorem Entries.Sound.cleared (generation : ℕ) :
    (⟨.empty, generation, ∅⟩ : Entries).Sound known maxBytes where
  exact := TalliedMap.Exact.empty _
  bounded := Nat.zero_le _
  known := fun _ _ found => absurd found (by simp [TalliedMap.empty])

theorem Entries.reconcileGeneration_generation (generation : ℕ) (entries : Entries) :
    (entries.reconcileGeneration generation).generation = generation := by
  unfold Entries.reconcileGeneration
  split
  · rfl
  · omega

theorem Entries.reconcileGeneration_refilling (generation : ℕ) (entries : Entries) :
    (entries.reconcileGeneration generation).refilling ⊆ entries.refilling := by
  unfold Entries.reconcileGeneration
  split
  · exact Finset.empty_subset _
  · exact Finset.Subset.refl _

theorem Entries.Sound.reconcileGeneration {entries : Entries}
    (sound : entries.Sound known maxBytes) (generation : ℕ) :
    (entries.reconcileGeneration generation).Sound known maxBytes := by
  unfold Entries.reconcileGeneration
  split
  · exact .cleared generation
  · exact sound

theorem Entries.Sound.fill {entries : Entries} (sound : entries.Sound known maxBytes)
    {key : String} {cached : Cached} (read : known entries.generation key cached) (now : ℕ) :
    ∃ next, (entries.insert key ⟨cached, now⟩).bind (Entries.enforceCap maxBytes ttl now) =
        some next ∧ next.Sound known maxBytes ∧ next.refilling = entries.refilling := by
  obtain ⟨pages, inserted, exact, map⟩ := sound.exact.insert key ⟨cached, now⟩
  obtain ⟨capped, enforced, cappedExact, bounded, kept⟩ :=
    exact.enforceCap maxBytes (Entry.live ttl now)
  refine ⟨{ entries with toTalliedMap := capped }, ?_, ⟨cappedExact, bounded, ?_⟩, rfl⟩
  · simp only [Entries.insert, inserted, Option.map_some, Option.bind_some, Entries.enforceCap,
      enforced]
  · intro key' entry found
    have there := kept key' entry found
    rw [map, lookup_insert_eq] at there
    split at there
    next same =>
      cases there
      exact same ▸ read
    next => exact sound.known key' entry there

theorem Entries.Sound.remove {entries : Entries} (sound : entries.Sound known maxBytes)
    (key : String) :
    ∃ next, entries.remove key = some next ∧ next.Sound known maxBytes ∧
      next.refilling = entries.refilling := by
  obtain ⟨pages, removed, exact, smaller, lookups⟩ := sound.exact.remove key
  refine ⟨{ entries with toTalliedMap := pages }, ?_, ⟨exact, ?_, ?_⟩, rfl⟩
  · simp only [Entries.remove, removed, Option.map_some]
  · exact smaller.trans sound.bounded
  · intro key' entry found
    have there := lookups key'
    rw [found] at there
    split at there
    · cases there
    · exact sound.known key' entry there.symm

/-! ### Loads -/

/-- The representation a load carries, whatever it is to become. -/
def Stage.held : Stage → Option Cached
  | loading stale => stale
  | built cached => some cached
  | returning result => result

def Load.Sound (known : Knowledge) (load : Load) : Prop :=
  ∀ cached, load.stage.held = some cached → known load.generation load.key cached

/-- The representation of an answer, freshly built. -/
def Answer.cached (c : Codec) : Answer → Option Cached
  | bytes b => some (c.build b)
  | notFound => some .missing
  | failed => none

theorem Answer.stage_held (c : Codec) (stale : Option Cached) (answer : Answer) (cached : Cached)
    (held : (answer.stage c stale).held = some cached) :
    stale = some cached ∨ answer.cached c = some cached := by
  cases answer with
  | bytes b =>
      cases held
      obtain reused | built := c.reuseOrBuild_cases stale b
      · exact .inl reused.symm
      · exact .inr (congrArg some built.symm)
  | notFound => exact .inr held
  | failed => cases held

/-- Before the `n`-th event every load in flight serves an earlier request. -/
structure State.Sound (known : Knowledge) (maxBytes n : ℕ) (s : State) : Prop where
  entries : s.entries.Sound known maxBytes
  loads : ∀ i load, s.loads.lookup i = some load → load.Sound known
  earlier : ∀ i load, s.loads.lookup i = some load → i < n
  refilling : ∀ key ∈ s.entries.refilling,
    ∃ i load, s.loads.lookup i = some load ∧ load.key = key ∧ load.claimed = true

theorem State.Sound.mono {s : State} {n : ℕ} (sound : s.Sound known maxBytes n)
    (grows : ∀ generation key cached, known generation key cached → later generation key cached) :
    s.Sound later maxBytes n where
  entries := sound.entries.mono grows
  loads := fun i load found cached held => grows _ _ _ (sound.loads i load found cached held)
  earlier := sound.earlier
  refilling := sound.refilling

theorem State.Sound.wait {s : State} {n : ℕ} (sound : s.Sound known maxBytes n) :
    s.Sound known maxBytes (n + 1) where
  entries := sound.entries
  loads := sound.loads
  earlier := fun i load found => (sound.earlier i load found).trans (Nat.lt_succ_self n)
  refilling := sound.refilling

theorem State.Sound.replaceEntries {s : State} {n : ℕ} (sound : s.Sound known maxBytes n)
    {entries : Entries} (filled : entries.Sound known maxBytes)
    (marks : entries.refilling ⊆ s.entries.refilling) :
    (⟨entries, s.loads⟩ : State).Sound known maxBytes n where
  entries := filled
  loads := sound.loads
  earlier := sound.earlier
  refilling := fun key marked => sound.refilling key (marks marked)

theorem State.Sound.start {s : State} {n : ℕ} (sound : s.Sound known maxBytes n) {load : Load}
    (read : load.Sound known) : 
    (⟨s.entries, s.loads.insert n load⟩ : State).Sound known maxBytes (n + 1) where
  entries := sound.entries
  loads := by
    intro i other found
    rw [lookup_insert_eq] at found
    split at found
    · cases found
      exact read
    · exact sound.loads i other found
  earlier := by
    intro i other found
    rw [lookup_insert_eq] at found
    split at found
    next same => exact same ▸ Nat.lt_succ_self n
    next => exact (sound.earlier i other found).trans (Nat.lt_succ_self n)
  refilling := by
    intro key marked
    obtain ⟨i, other, found, same, claimed⟩ := sound.refilling key marked
    have apart : i ≠ n := (sound.earlier i other found).ne
    exact ⟨i, other, by rw [lookup_insert_eq, if_neg apart]; exact found, same, claimed⟩

/-- A load that just started takes the claim to its key. -/
theorem State.Sound.mark {s : State} {n i : ℕ} (sound : s.Sound known maxBytes n) {load : Load}
    (found : s.loads.lookup i = some load) (claimed : load.claimed = true) :
    (⟨{ s.entries with refilling := Insert.insert load.key s.entries.refilling }, s.loads⟩ :
      State).Sound known maxBytes n where
  entries := sound.entries.mark _
  loads := sound.loads
  earlier := sound.earlier
  refilling := by
    intro key marked
    obtain rfl | before := Finset.mem_insert.mp marked
    · exact ⟨i, load, found, rfl, claimed⟩
    · exact sound.refilling key before

/-- A load moves on, and keeps its claim. -/
theorem State.Sound.advance {s : State} {n i : ℕ} (sound : s.Sound known maxBytes n)
    {key : String} {generation : ℕ} {claimed : Bool} {stage : Stage}
    (found : s.loads.lookup i = some ⟨key, generation, claimed, stage⟩) (next : Stage)
    (held : ∀ cached, next.held = some cached → known generation key cached) :
    (⟨s.entries, s.loads.insert i ⟨key, generation, claimed, next⟩⟩ : State).Sound
      known maxBytes n where
  entries := sound.entries
  loads := by
    intro j other at_j
    rw [lookup_insert_eq] at at_j
    split at at_j
    · cases at_j
      exact held
    · exact sound.loads j other at_j
  earlier := by
    intro j other at_j
    rw [lookup_insert_eq] at at_j
    split at at_j
    next same => exact same ▸ sound.earlier i _ found
    next => exact sound.earlier j other at_j
  refilling := by
    intro marked_key marked
    obtain ⟨j, other, at_j, same, claims⟩ := sound.refilling marked_key marked
    by_cases here : j = i
    · subst here
      cases found.symm.trans at_j
      exact ⟨j, ⟨key, generation, claimed, next⟩, by rw [lookup_insert_eq, if_pos rfl], same, claims⟩
    · exact ⟨j, other, by rw [lookup_insert_eq, if_neg here]; exact at_j, same, claims⟩

/-- A load returns and gives its claim up. -/
theorem State.Sound.finish {s : State} {n i : ℕ} (sound : s.Sound known maxBytes n) {load : Load}
    (found : s.loads.lookup i = some load) :
    (⟨{ s.entries with refilling :=
        if load.claimed then s.entries.refilling.erase load.key else s.entries.refilling },
      s.loads.erase i⟩ : State).Sound known maxBytes n where
  entries := sound.entries.mark _
  loads := by
    intro j other at_j
    rw [lookup_erase_eq] at at_j
    split at at_j
    · cases at_j
    · exact sound.loads j other at_j
  earlier := by
    intro j other at_j
    rw [lookup_erase_eq] at at_j
    split at at_j
    · cases at_j
    · exact sound.earlier j other at_j
  refilling := by
    intro key marked
    have before : key ∈ s.entries.refilling := by
      dsimp only at marked
      split at marked
      · exact Finset.mem_of_mem_erase marked
      · exact marked
    obtain ⟨j, other, at_j, same, claimed⟩ := sound.refilling key before
    have apart : j ≠ i := by
      rintro rfl
      cases found.symm.trans at_j
      dsimp only at marked
      rw [if_pos claimed, same] at marked
      exact Finset.notMem_erase key _ marked
    exact ⟨j, other, by rw [lookup_erase_eq, if_neg apart]; exact at_j, same, claimed⟩

/-! ### Events -/

/-- What an event adds to what is known: the answer of storage to the load it
is for, at the selection and for the key that load is pinned to. -/
def Reads (c : Codec) (s : State) (event : Event) : Knowledge := fun generation key cached =>
  ∃ i answer claimed stale, event = .read i answer ∧
    s.loads.lookup i = some ⟨key, generation, claimed, .loading stale⟩ ∧
    answer.cached c = some cached

/-- The response is a known representation of what was asked for. -/
def Response.Sound (known : Knowledge) (r : Response) : Prop :=
  ∃ cached, known r.generation r.key cached ∧ r.pair = cached.intoPair

/-- What a request does: it serves the entry, it reads storage in the place of
a lapsed entry that nobody is refilling, or it reads storage for a missing one. -/
theorem Entries.next_cases (ttl : ℕ) (key : String) (generation now : ℕ) (entries : Entries) :
    (∃ entry, (entries.reconcileGeneration generation).map.lookup key = some entry ∧
      (entries.next ttl key generation now = (.serve entry.cached.intoPair,
          entries.reconcileGeneration generation) ∨
        entries.next ttl key generation now = (.load (some entry.cached) true,
          { entries.reconcileGeneration generation with
            refilling := Insert.insert key
              (entries.reconcileGeneration generation).refilling }))) ∨
    entries.next ttl key generation now =
      (.load none false, entries.reconcileGeneration generation) := by
  unfold Entries.next
  cases found : (entries.reconcileGeneration generation).map.lookup key with
  | none => simp only [found, or_true]
  | some entry =>
      refine .inl ⟨entry, rfl, ?_⟩
      simp only [found]
      split
      · exact .inl rfl
      · split
        · exact .inl rfl
        · exact .inr rfl

theorem State.Sound.get {s : State} {n : ℕ} (sound : s.Sound known maxBytes n) (key : String)
    (generation now : ℕ) :
    ∃ next response, step c ttl maxBytes n s (.get key generation now) = some (next, response) ∧
      next.Sound known maxBytes (n + 1) ∧ ∀ r, response = some r → r.Sound known := by
  have entries := sound.entries.reconcileGeneration generation
  have pinned := s.entries.reconcileGeneration_generation generation
  have kept := sound.replaceEntries entries (s.entries.reconcileGeneration_refilling generation)
  unfold IndexCache.step
  dsimp only
  obtain ⟨entry, found, served | loads⟩ | missing := s.entries.next_cases ttl key generation now
  · have read := entries.known key entry found
    rw [pinned] at read
    rw [served]
    refine ⟨_, _, rfl, kept.wait, fun r answered => ?_⟩
    cases answered
    exact ⟨entry.cached, read, rfl⟩
  · have read := entries.known key entry found
    rw [pinned] at read
    rw [loads]
    refine ⟨_, _, rfl, ?_, fun r answered => by cases answered⟩
    have started : Load.Sound known ⟨key, generation, true, .loading (some entry.cached)⟩ := by
      intro cached held
      cases held
      exact read
    exact (kept.start started).mark (AList.lookup_insert _) rfl
  · rw [missing]
    refine ⟨_, _, rfl, kept.start ?_, fun r answered => by cases answered⟩
    intro cached held
    cases held

theorem State.Sound.step {s : State} {n : ℕ} (sound : s.Sound known maxBytes n) (event : Event)
    (grows : ∀ generation key cached, known generation key cached → later generation key cached)
    (reads : ∀ generation key cached, Reads c s event generation key cached →
      later generation key cached) :
    ∃ next response, step c ttl maxBytes n s event = some (next, response) ∧
      next.Sound later maxBytes (n + 1) ∧ ∀ r, response = some r → r.Sound known := by
  have quiet : ∀ next : State, next.Sound later maxBytes n → ∃ next' response,
      some (next, (none : Option Response)) = some (next', response) ∧
        next'.Sound later maxBytes (n + 1) ∧ ∀ r, response = some r → r.Sound known :=
    fun next after => ⟨next, none, rfl, after.wait, fun r answered => by cases answered⟩
  have grown := sound.mono grows
  cases event with
  | get key generation now =>
      obtain ⟨next, response, stepped, after, answers⟩ := sound.get key generation now
      exact ⟨next, response, stepped, after.mono grows, answers⟩
  | read i answer =>
      unfold IndexCache.step
      dsimp only
      split
      next key generation claimed stale found =>
        refine quiet _ (grown.advance found _ fun cached held => ?_)
        obtain before | now := answer.stage_held c stale cached held
        · exact grown.loads i _ found cached before
        · exact reads generation key cached ⟨i, answer, claimed, stale, rfl, found, now⟩
      next => exact quiet s grown
  | abandon i =>
      unfold IndexCache.step
      dsimp only
      split
      next found => exact quiet _ (grown.advance found _ fun cached held => by cases held)
      next found => exact quiet _ (grown.advance found _ fun cached held => by cases held)
      next => exact quiet s grown
  | fill i now =>
      unfold IndexCache.step
      dsimp only
      split
      next key generation claimed cached found =>
        have carried : later generation key cached := grown.loads i _ found cached rfl
        have pinned := s.entries.reconcileGeneration_generation generation
        obtain ⟨entries, filled, entriesSound, marks⟩ :=
          (grown.entries.reconcileGeneration generation).fill (pinned.symm ▸ carried) now
        have within : entries.refilling ⊆ s.entries.refilling :=
          marks ▸ s.entries.reconcileGeneration_refilling generation
        rw [filled]
        exact quiet _ ((grown.replaceEntries entriesSound within).advance found _
          fun other held => grown.loads i _ found other held)
      next => exact quiet s grown
  | finish i =>
      unfold IndexCache.step
      dsimp only
      split
      next key generation claimed result found =>
        refine ⟨_, _, rfl, (grown.finish found).wait, fun r answered => ?_⟩
        obtain ⟨cached, rfl, rfl⟩ := Option.map_eq_some_iff.mp answered
        exact ⟨cached, sound.loads i _ found cached rfl, rfl⟩
      next => exact quiet s grown
  | invalidate key =>
      obtain ⟨entries, removed, entriesSound, marks⟩ := grown.entries.remove key
      unfold IndexCache.step
      dsimp only
      rw [removed]
      exact quiet _ (grown.replaceEntries entriesSound marks.le)

/-! ### Runs -/

section
variable (c ttl maxBytes) (events : ℕ → Event)

/-- Some request pinned at the generation has read it for the key before the
`n`-th event. -/
def ReadBefore (n : ℕ) : Knowledge := fun generation key cached =>
  ∃ m < n, ∃ s, states c ttl maxBytes events m = some s ∧ Reads c s (events m) generation key cached

variable {c ttl maxBytes events}

theorem states_step {n : ℕ} {s : State} (reached : states c ttl maxBytes events n = some s)
    (sound : s.Sound (ReadBefore c ttl maxBytes events n) maxBytes n) :
    ∃ next response, step c ttl maxBytes n s (events n) = some (next, response) ∧
      next.Sound (ReadBefore c ttl maxBytes events (n + 1)) maxBytes (n + 1) ∧
      ∀ r, response = some r → r.Sound (ReadBefore c ttl maxBytes events n) := by
  refine sound.step (events n) ?_ ?_
  · rintro generation key cached ⟨m, before, there⟩
    exact ⟨m, before.trans (Nat.lt_succ_self n), there⟩
  · intro generation key cached reads
    exact ⟨n, Nat.lt_succ_self n, s, reached, reads⟩

variable (c ttl maxBytes events)

theorem states_sound (n : ℕ) : ∃ s, states c ttl maxBytes events n = some s ∧
    s.Sound (ReadBefore c ttl maxBytes events n) maxBytes n := by
  induction n with
  | zero =>
      refine ⟨_, rfl, .cleared 0, ?_, ?_, ?_⟩
      · exact fun i load found => by simp at found
      · exact fun i load found => by simp at found
      · exact fun key marked => by simp [Entries.empty] at marked
  | succ n ih =>
      obtain ⟨s, reached, sound⟩ := ih
      obtain ⟨next, response, stepped, after, _⟩ := states_step reached sound
      refine ⟨next, ?_, after⟩
      simp only [states, reached, Option.bind_some, stepped, Option.map_some]

/-- Whatever happens between its locks, a request is answered what some request
pinned at its generation read from storage for its key; the count of the bytes
never wraps, stays exact and within the ceiling; and every key marked as being
refilled is that of a load in flight. -/
theorem index_cache_isolated (n : ℕ) :
    ∃ s, states c ttl maxBytes events n = some s ∧
      s.entries.bodyBytes = total Entry.weight s.entries.map ∧ s.entries.bodyBytes ≤ maxBytes ∧
      (∀ key ∈ s.entries.refilling, ∃ i load, s.loads.lookup i = some load ∧ load.key = key) ∧
      ∀ r, response c ttl maxBytes events n = some r →
        ∃ m < n, ∃ before i answer claimed stale cached,
          states c ttl maxBytes events m = some before ∧ events m = .read i answer ∧
          before.loads.lookup i = some ⟨r.key, r.generation, claimed, .loading stale⟩ ∧
          answer.cached c = some cached ∧ r.pair = cached.intoPair := by
  obtain ⟨s, reached, sound⟩ := states_sound c ttl maxBytes events n
  refine ⟨s, reached, sound.entries.exact, sound.entries.bounded, ?_, ?_⟩
  · intro key marked
    obtain ⟨i, load, found, same, _⟩ := sound.refilling key marked
    exact ⟨i, load, found, same⟩
  · intro r answered
    obtain ⟨next, response, stepped, _, answers⟩ := states_step reached sound
    simp only [IndexCache.response, reached, Option.bind_some, stepped] at answered
    obtain ⟨cached, ⟨m, earlier, before, there, i, answer, claimed, stale, called, found, fresh⟩,
      same⟩ := answers r answered
    exact ⟨m, earlier, before, i, answer, claimed, stale, cached, there, called, found, fresh, same⟩

end

end Pypiron.IndexCache
