import Pypiron.ProjectCache.Entries

/-! A page in the cache was put under a claim that no invalidation of its package
has followed, and every token that stands has a live claim. -/
namespace Pypiron.ProjectCache
open KeyedMap

section
variable (ttl maxBytes : ℕ) (events : ℕ → Event)

/-- No invalidation of the key's package between the two events. -/
def Spared (key : String) (i n : ℕ) : Prop :=
  ∀ j, i < j → j < n → ∀ pkg, events j = .invalidatePackage pkg → ¬Hits pkg key

/-- The `i`-th event took a claim to the key at the generation, and no
invalidation of the key's package has followed it. -/
def Taken (i n generation : ℕ) (key : String) (token : Token) : Prop :=
  (∃ now, events i = .get key generation now) ∧
    lookups ttl maxBytes events i = some (.mustRender (some (key, token))) ∧ Spared events key i n

/-- The page was put under such a claim. -/
def Rendered (n generation : ℕ) (key : String) (body : Bytes) : Prop :=
  ∃ i m token now, i < m ∧ m < n ∧ Taken ttl maxBytes events i n generation key token ∧
    events m = .put i body now

/-- The token was made by the lookup of the key that names it. -/
def Minted (key : String) (token : Token) : Prop := ∃ generation now, events token = .get key generation now

structure State.Sound (n : ℕ) (s : State) : Prop where
  entries : s.entries.Sound maxBytes
  pages : ∀ key entry, s.entries.map.lookup key = some entry →
    Rendered ttl maxBytes events n s.entries.generation key entry.body
  claims : ∀ i claim, s.claims.lookup i = some claim → i < n ∧
    ∀ key token, claim = some (key, token) → token ≤ i ∧ Minted events key token
  standing : ∀ key token, s.entries.refilling.lookup key = some token →
    Minted events key token ∧ ∃ i, s.claims.lookup i = some (some (key, token))
  pending : ∀ i key token, s.claims.lookup i = some (some (key, token)) →
    s.entries.refilling.lookup key = some token →
    Taken ttl maxBytes events i n s.entries.generation key token

end

variable {ttl maxBytes : ℕ} {events : ℕ → Event} {n : ℕ}

theorem Minted.key_eq {key key' : String} {token : Token} (minted : Minted events key token)
    (minted' : Minted events key' token) : key = key' := by
  obtain ⟨_, _, made⟩ := minted
  obtain ⟨_, _, made'⟩ := minted'
  cases made.symm.trans made'
  rfl

/-- A token that stands is in the table at one key. -/
theorem State.Sound.table_count {s : State} (sound : s.Sound ttl maxBytes events n) {key : String}
    {token : Token} (stands : s.entries.refilling.lookup key = some token) :
    total (fun current => if current = token then 1 else 0) s.entries.refilling = 1 := by
  have counted := total_of_only (fun current => if current = token then 1 else 0) stands
    fun key' current apart there => by
      by_cases same : current = token
      · subst same
        exact absurd ((sound.standing key' current there).1.key_eq
          (sound.standing key current stands).1) apart
      · exact if_neg same
  rw [counted, if_pos rfl]

theorem holds_self (key : String) (token : Token) : holds token (some (key, token)) = 1 := if_pos rfl

theorem holds_eq {token : Token} {claim : RenderClaim} (held : holds token claim ≠ 0) :
    ∃ key, claim = some (key, token) := by
  unfold holds at held
  split at held
  next key current =>
    split at held
    next same => exact ⟨key, by rw [same]⟩
    next => exact absurd rfl held
  next => exact absurd rfl held

/-- The drop of a claim takes a token exactly when no other live claim holds it. -/
theorem State.Sound.strongCount_eq {s : State} (sound : s.Sound ttl maxBytes events n) {key : String}
    {token : Token} (stands : s.entries.refilling.lookup key = some token) {i : ℕ}
    (held : s.claims.lookup i = some (some (key, token))) :
    s.strongCount token = 2 ↔ ∀ j, j ≠ i → s.claims.lookup j ≠ some (some (key, token)) := by
  unfold State.strongCount
  rw [sound.table_count stands]
  constructor
  · intro last j apart other
    have both := weights_le_total (holds token) apart held other
    rw [holds_self] at both
    omega
  · intro alone
    have counted := total_of_only (holds token) held fun j claim apart there => by
      by_contra nonzero
      obtain ⟨key', rfl⟩ := holds_eq nonzero
      have minted := ((sound.claims j _ there).2 key' token rfl).2
      obtain rfl := minted.key_eq (sound.standing key token stands).1
      exact alone j apart there
    rw [counted, holds_self]

/-! ### One event -/

theorem Taken.later {i generation : ℕ} {key : String} {token : Token}
    (taken : Taken ttl maxBytes events i n generation key token)
    (spares : ∀ pkg, events n = .invalidatePackage pkg → ¬Hits pkg key) :
    Taken ttl maxBytes events i (n + 1) generation key token := by
  obtain ⟨asked, given, spared⟩ := taken
  refine ⟨asked, given, fun j after before => ?_⟩
  obtain earlier | rfl := Nat.lt_succ_iff_lt_or_eq.mp before
  · exact spared j after earlier
  · exact spares

theorem Rendered.later {generation : ℕ} {key : String} {body : Bytes}
    (rendered : Rendered ttl maxBytes events n generation key body)
    (spares : ∀ pkg, events n = .invalidatePackage pkg → ¬Hits pkg key) :
    Rendered ttl maxBytes events (n + 1) generation key body := by
  obtain ⟨i, m, token, now, after, before, taken, put⟩ := rendered
  exact ⟨i, m, token, now, after, before.trans (Nat.lt_succ_self n), taken.later spares, put⟩

/-- An event that is no invalidation takes nothing from what is known. -/
theorem State.Sound.wait {s : State} (sound : s.Sound ttl maxBytes events n)
    (quiet : ∀ pkg, events n ≠ .invalidatePackage pkg) : s.Sound ttl maxBytes events (n + 1) where
  entries := sound.entries
  pages := fun key entry found =>
    (sound.pages key entry found).later fun pkg called => absurd called (quiet pkg)
  claims := fun i claim held =>
    ⟨(sound.claims i claim held).1.trans (Nat.lt_succ_self n), (sound.claims i claim held).2⟩
  standing := sound.standing
  pending := fun i key token held stands =>
    (sound.pending i key token held stands).later fun pkg called => absurd called (quiet pkg)

theorem State.Sound.reconcileGeneration {s : State} (sound : s.Sound ttl maxBytes events n)
    (generation : ℕ) :
    (⟨s.entries.reconcileGeneration generation, s.claims⟩ : State).Sound ttl maxBytes events n := by
  have entries := sound.entries.reconcileGeneration generation
  obtain ⟨_, cleared⟩ | ⟨_, same⟩ := s.entries.reconcileGeneration_cases generation
  · rw [cleared] at entries ⊢
    refine ⟨entries, ?_, sound.claims, ?_, ?_⟩
    · exact fun key entry found => absurd found (by simp [TalliedMap.empty])
    · exact fun key token stands => absurd stands (by simp)
    · exact fun i key token _ stands => absurd stands (by simp)
  · rw [same] at entries ⊢
    exact ⟨entries, sound.pages, sound.claims, sound.standing, sound.pending⟩

/-- A lookup is given a claim: none, or one to a token that stands. -/
theorem State.Sound.give {s : State} (sound : s.Sound ttl maxBytes events n) (claim : RenderClaim)
    (quiet : ∀ pkg, events n ≠ .invalidatePackage pkg)
    (given : ∀ key token, claim = some (key, token) →
      s.entries.refilling.lookup key = some token ∧
      Taken ttl maxBytes events n (n + 1) s.entries.generation key token) :
    (⟨s.entries, s.claims.insert n claim⟩ : State).Sound ttl maxBytes events (n + 1) := by
  have waited := sound.wait quiet
  constructor
  · exact waited.entries
  · exact waited.pages
  · intro i other held
    rw [lookup_insert_eq] at held
    split at held
    next same =>
      cases held
      subst same
      refine ⟨Nat.lt_succ_self i, fun key token made => ?_⟩
      obtain ⟨minted, j, holder⟩ := sound.standing key token (given key token made).1
      have older := sound.claims j _ holder
      exact ⟨(older.2 key token rfl).1.trans older.1.le, minted⟩
    next => exact waited.claims i other held
  · intro key token stands
    obtain ⟨minted, i, holder⟩ := sound.standing key token stands
    have apart : i ≠ n := (sound.claims i _ holder).1.ne
    exact ⟨minted, i, by rw [lookup_insert_eq, if_neg apart]; exact holder⟩
  · intro i key token held stands
    rw [lookup_insert_eq] at held
    split at held
    next same =>
      cases held
      exact same ▸ (given key token rfl).2
    next => exact waited.pending i key token held stands

/-- A lookup that finds no token makes one and is given the claim to it. -/
theorem State.Sound.mint {s : State} (sound : s.Sound ttl maxBytes events n) {key : String}
    (quiet : ∀ pkg, events n ≠ .invalidatePackage pkg) (minted : Minted events key n)
    (taken : Taken ttl maxBytes events n (n + 1) s.entries.generation key n) :
    (⟨{ s.entries with refilling := s.entries.refilling.insert key n },
      s.claims.insert n (some (key, n))⟩ : State).Sound ttl maxBytes events (n + 1) := by
  have waited := sound.wait quiet
  constructor
  · exact ⟨waited.entries.exact, waited.entries.bounded⟩
  · exact waited.pages
  · intro i other held
    rw [lookup_insert_eq] at held
    split at held
    next same =>
      cases held
      subst same
      refine ⟨Nat.lt_succ_self i, fun key' token made => ?_⟩
      cases made
      exact ⟨Nat.le_refl i, minted⟩
    next => exact waited.claims i other held
  · intro key' token stands
    rw [lookup_insert_eq] at stands
    split at stands
    next same =>
      cases stands
      subst same
      exact ⟨minted, n, AList.lookup_insert _⟩
    next =>
      obtain ⟨made, i, holder⟩ := sound.standing key' token stands
      have apart : i ≠ n := (sound.claims i _ holder).1.ne
      exact ⟨made, i, by rw [lookup_insert_eq, if_neg apart]; exact holder⟩
  · intro i key' token held stands
    rw [lookup_insert_eq] at held stands
    split at held
    next same =>
      cases held
      exact same ▸ taken
    next =>
      split at stands
      next =>
        cases stands
        obtain ⟨earlier, made⟩ := sound.claims i _ held
        exact absurd (made key' n rfl).1 (Nat.not_le.mpr earlier)
      next => exact waited.pending i key' token held stands

theorem State.Sound.get {s : State} (sound : s.Sound ttl maxBytes events n)
    (reached : states ttl maxBytes events n = some s) {key : String} {generation now : ℕ}
    (called : events n = .get key generation now) :
    ∃ next answer, step ttl maxBytes n s (.get key generation now) = some (next, answer) ∧
      next.Sound ttl maxBytes events (n + 1) ∧
      ∀ body, answer = some (.fresh body) ∨ answer = some (.stale body) →
        Rendered ttl maxBytes events n generation key body := by
  have quiet : ∀ pkg, events n ≠ .invalidatePackage pkg := by
    intro pkg other
    cases called.symm.trans other
  have kept := sound.reconcileGeneration generation
  have minted : Minted events key n := ⟨generation, now, called⟩
  have taken : ∀ token, lookups ttl maxBytes events n = some (.mustRender (some (key, token))) →
      Taken ttl maxBytes events n (n + 1) generation key token := by
    intro token told
    exact ⟨⟨now, called⟩, told, fun j after before => absurd before (by omega)⟩
  have tells : ∀ next answer, step ttl maxBytes n s (.get key generation now) =
      some (next, answer) → lookups ttl maxBytes events n = answer := by
    intro next answer stepped
    simp only [lookups, reached, Option.bind_some, called, stepped]
  have served : ∀ lookup entries, (∀ claim, lookup ≠ .mustRender claim) →
      s.entries.get ttl key generation now n = (lookup, entries) →
      step ttl maxBytes n s (.get key generation now) = some (⟨entries, s.claims⟩, some lookup) := by
    intro lookup entries page told
    simp only [step, told]
  have claimed : ∀ claim entries, s.entries.get ttl key generation now n =
      (.mustRender claim, entries) → step ttl maxBytes n s (.get key generation now) =
        some (⟨entries, s.claims.insert n claim⟩, some (.mustRender claim)) := by
    intro claim entries told
    simp only [step, told]
  obtain obsolete | ⟨pinned, ⟨entry, page, told | told⟩ | ⟨token, stands, given⟩ | ⟨_, given⟩⟩ :=
    s.entries.get_cases ttl key generation now n
  · refine ⟨_, _, claimed _ _ obsolete, kept.give none quiet ?_, ?_⟩
    · rintro key' token ⟨⟩
    · rintro body (⟨⟨⟩⟩ | ⟨⟨⟩⟩)
  · refine ⟨_, _, served _ _ (by rintro claim ⟨⟩) told, kept.wait quiet, ?_⟩
    rintro body (⟨⟨⟩⟩ | ⟨⟨⟩⟩)
    exact pinned ▸ kept.pages key entry page
  · refine ⟨_, _, served _ _ (by rintro claim ⟨⟩) told, kept.wait quiet, ?_⟩
    rintro body (⟨⟨⟩⟩ | ⟨⟨⟩⟩)
    exact pinned ▸ kept.pages key entry page
  · have stepped := claimed _ _ given
    refine ⟨_, _, stepped, kept.give _ quiet ?_, ?_⟩
    · rintro key' token' ⟨⟩
      dsimp only
      rw [pinned]
      exact ⟨stands, taken token (tells _ _ stepped)⟩
    · rintro body (⟨⟨⟩⟩ | ⟨⟨⟩⟩)
  · have stepped := claimed _ _ given
    refine ⟨_, _, stepped, kept.mint quiet minted ?_, ?_⟩
    · dsimp only
      rw [pinned]
      exact taken n (tells _ _ stepped)
    · rintro body (⟨⟨⟩⟩ | ⟨⟨⟩⟩)

theorem State.Sound.put {s : State} (sound : s.Sound ttl maxBytes events n) {i now : ℕ}
    {body : Bytes} (called : events n = .put i body now) :
    ∃ next, step ttl maxBytes n s (.put i body now) = some (next, none) ∧
      next.Sound ttl maxBytes events (n + 1) := by
  have quiet : ∀ pkg, events n ≠ .invalidatePackage pkg := by
    intro pkg other
    cases called.symm.trans other
  have waited := sound.wait quiet
  cases held : s.claims.lookup i with
  | none => exact ⟨s, by simp only [step, held], waited⟩
  | some claim =>
      obtain ⟨entries, put, kept, same, ⟨rfl, _⟩ | ⟨key, token, rfl, stands, spent, pages⟩⟩ :=
        sound.entries.put ttl body claim now
      · exact ⟨s, by simp only [step, held, put, Option.map_some], waited⟩
      refine ⟨⟨entries, s.claims⟩, by simp only [step, held, put, Option.map_some],
        kept, ?_, waited.claims, ?_, ?_⟩
      · intro key' entry found
        dsimp only
        rw [same]
        obtain ⟨rfl, rfl⟩ | before := pages key' entry found
        · exact ⟨i, n, token, now, (sound.claims i _ held).1, Nat.lt_succ_self n,
            waited.pending i key' token held stands, called⟩
        · exact waited.pages key' entry before
      · intro key' token' standing
        rw [spent, lookup_erase_eq] at standing
        split at standing
        next => cases standing
        next => exact waited.standing key' token' standing
      · intro j key' token' other standing
        dsimp only
        rw [same]
        rw [spent, lookup_erase_eq] at standing
        split at standing
        next => cases standing
        next => exact waited.pending j key' token' other standing

/-- A dropped claim leaves each other token its holder, and takes its own token
when it held it alone. -/
theorem State.Sound.drop {s : State} (sound : s.Sound ttl maxBytes events n) {i : ℕ}
    (called : events n = .drop i) : (s.dropClaim i).Sound ttl maxBytes events (n + 1) := by
  have quiet : ∀ pkg, events n ≠ .invalidatePackage pkg := by
    intro pkg other
    cases called.symm.trans other
  have waited := sound.wait quiet
  have claims : ∀ j claim, (s.claims.erase i).lookup j = some claim →
      j ≠ i ∧ s.claims.lookup j = some claim := by
    intro j claim held
    rw [lookup_erase_eq] at held
    split at held
    next => cases held
    next apart => exact ⟨apart, held⟩
  have keep : (∀ key token, s.entries.refilling.lookup key = some token →
      ∃ j, j ≠ i ∧ s.claims.lookup j = some (some (key, token))) →
      (⟨s.entries, s.claims.erase i⟩ : State).Sound ttl maxBytes events (n + 1) := by
    intro holders
    refine ⟨waited.entries, waited.pages, ?_, ?_, ?_⟩
    · exact fun j claim held => waited.claims j claim (claims j claim held).2
    · intro key token stands
      obtain ⟨j, apart, holder⟩ := holders key token stands
      exact ⟨(sound.standing key token stands).1, j, by
        rw [lookup_erase_eq, if_neg apart]
        exact holder⟩
    · exact fun j key token held => waited.pending j key token (claims j _ held).2
  unfold State.dropClaim
  split
  next key token held =>
    split
    next last =>
      obtain ⟨stands, count⟩ := last
      refine ⟨⟨waited.entries.exact, waited.entries.bounded⟩, waited.pages, ?_, ?_, ?_⟩
      · exact fun j claim there => waited.claims j claim (claims j claim there).2
      · intro key' token' standing
        rw [lookup_erase_eq] at standing
        split at standing
        next => cases standing
        next apart =>
          obtain ⟨minted, j, holder⟩ := sound.standing key' token' standing
          have other : j ≠ i := by
            rintro rfl
            cases held.symm.trans holder
            exact apart rfl
          exact ⟨minted, j, by rw [lookup_erase_eq, if_neg other]; exact holder⟩
      · intro j key' token' there standing
        rw [lookup_erase_eq] at standing
        split at standing
        next => cases standing
        next => exact waited.pending j key' token' (claims j _ there).2 standing
    next shared =>
      refine keep fun key' token' standing => ?_
      obtain ⟨minted, j, holder⟩ := sound.standing key' token' standing
      by_cases same : j = i
      · subst same
        cases held.symm.trans holder
        by_contra alone
        refine shared ⟨standing, (sound.strongCount_eq standing held).mpr fun j' apart there => ?_⟩
        exact alone ⟨j', apart, there⟩
      · exact ⟨j, same, holder⟩
  next empty =>
    refine keep fun key token stands => ?_
    obtain ⟨_, j, holder⟩ := sound.standing key token stands
    refine ⟨j, ?_, holder⟩
    rintro rfl
    exact empty key token holder

theorem State.Sound.invalidatePackage {s : State} (sound : s.Sound ttl maxBytes events n)
    {pkg : PkgName} (called : events n = .invalidatePackage pkg) :
    ∃ next, step ttl maxBytes n s (.invalidatePackage pkg) = some (next, none) ∧
      next.Sound ttl maxBytes events (n + 1) ∧ next.claims = s.claims ∧
      next.entries.generation = s.entries.generation ∧
      (∀ key, next.entries.map.lookup key =
        if Hits pkg key then none else s.entries.map.lookup key) ∧
      ∀ key, next.entries.refilling.lookup key =
        if Hits pkg key then none else s.entries.refilling.lookup key := by
  obtain ⟨entries, dropped, kept, same, pages, tokens⟩ := sound.entries.invalidatePackage pkg
  have spares : ∀ key, ¬Hits pkg key → ∀ other, events n = .invalidatePackage other →
      ¬Hits other key := by
    intro key missed other also
    cases called.symm.trans also
    exact missed
  have stood : ∀ key token, entries.refilling.lookup key = some token →
      ¬Hits pkg key ∧ s.entries.refilling.lookup key = some token := by
    intro key token stands
    rw [tokens] at stands
    split at stands
    next => cases stands
    next missed => exact ⟨missed, stands⟩
  refine ⟨⟨entries, s.claims⟩, by simp only [step, dropped, Option.map_some],
    ⟨kept, ?_, ?_, ?_, ?_⟩, rfl, same, pages, tokens⟩
  · intro key entry found
    dsimp only at found ⊢
    rw [pages] at found
    split at found
    next => cases found
    next missed => exact same ▸ (sound.pages key entry found).later (spares key missed)
  · exact fun i claim held =>
      ⟨(sound.claims i claim held).1.trans (Nat.lt_succ_self n), (sound.claims i claim held).2⟩
  · exact fun key token stands => sound.standing key token (stood key token stands).2
  · intro i key token held stands
    obtain ⟨missed, before⟩ := stood key token stands
    exact same ▸ (sound.pending i key token held before).later (spares key missed)

/-! ### Runs -/

theorem states_step {s : State} (sound : s.Sound ttl maxBytes events n)
    (reached : states ttl maxBytes events n = some s) :
    ∃ next answer, step ttl maxBytes n s (events n) = some (next, answer) ∧
      next.Sound ttl maxBytes events (n + 1) := by
  cases called : events n with
  | get key generation now =>
      obtain ⟨next, answer, stepped, after, _⟩ := sound.get reached called
      exact ⟨next, answer, stepped, after⟩
  | put i body now =>
      obtain ⟨next, stepped, after⟩ := sound.put called
      exact ⟨next, none, stepped, after⟩
  | drop i => exact ⟨s.dropClaim i, none, rfl, sound.drop called⟩
  | invalidatePackage pkg =>
      obtain ⟨next, stepped, after, _, _, _, _⟩ := sound.invalidatePackage called
      exact ⟨next, none, stepped, after⟩

variable (ttl maxBytes events) in
theorem states_sound (n : ℕ) :
    ∃ s, states ttl maxBytes events n = some s ∧ s.Sound ttl maxBytes events n := by
  induction n with
  | zero =>
      refine ⟨_, rfl, ⟨TalliedMap.Exact.empty _, Nat.zero_le _⟩, ?_, ?_, ?_, ?_⟩
      · exact fun key entry found => absurd found (by simp [Entries.empty, TalliedMap.empty])
      · exact fun i claim held => absurd held (by simp)
      · exact fun key token stands => absurd stands (by simp [Entries.empty])
      · exact fun i key token held => absurd held (by simp)
  | succ n ih =>
      obtain ⟨s, reached, sound⟩ := ih
      obtain ⟨next, answer, stepped, after⟩ := states_step sound reached
      refine ⟨next, ?_, after⟩
      simp only [states, reached, Option.bind_some, stepped, Option.map_some]

end Pypiron.ProjectCache
