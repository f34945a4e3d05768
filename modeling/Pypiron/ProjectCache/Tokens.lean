import Pypiron.ProjectCache.Claims

/-! A token stands while a live claim that was not revoked holds it, until a put
spends it. -/
namespace Pypiron.ProjectCache
open KeyedMap

variable {ttl maxBytes : ℕ} {events : ℕ → Event} {n : ℕ}

/-- The token stands for the key. -/
def State.Stands (s : State) (key : String) (token : Token) : Prop :=
  s.entries.refilling.lookup key = some token

section
variable (ttl maxBytes events)

/-- The `m`-th event invalidates the key's package, or is the first to carry a
later selection. -/
def Revokes (m : ℕ) (key : String) : Prop :=
  (∃ pkg, events m = .invalidatePackage pkg ∧ Hits pkg key) ∨
  ∃ s next, states ttl maxBytes events m = some s ∧ states ttl maxBytes events (m + 1) = some next ∧
    s.entries.generation < next.entries.generation

/-- The `m`-th event puts a page under a claim to the token. -/
def Spends (m : ℕ) (key : String) (token : Token) : Prop :=
  ∃ s i body now, states ttl maxBytes events m = some s ∧ events m = .put i body now ∧
    s.claims.lookup i = some (some (key, token))

end

theorem step_get {s next : State} {key : String} {generation now : ℕ} {answer : Option Lookup}
    (stepped : step ttl maxBytes n s (.get key generation now) = some (next, answer)) :
    next.entries = (s.entries.get ttl key generation now n).2 := by
  unfold step at stepped
  dsimp only at stepped
  split at stepped
  next told =>
    cases stepped
    rw [told]
  next told =>
    cases stepped
    rw [told]

/-- An event that leaves the selection revokes only by an invalidation. -/
theorem revokes_iff {s next : State} (reached : states ttl maxBytes events n = some s)
    (after : states ttl maxBytes events (n + 1) = some next)
    (same : next.entries.generation = s.entries.generation) (key : String) :
    Revokes ttl maxBytes events n key ↔ ∃ pkg, events n = .invalidatePackage pkg ∧ Hits pkg key := by
  constructor
  · rintro (invalidated | ⟨s', next', at_n, at_next, rises⟩)
    · exact invalidated
    · cases reached.symm.trans at_n
      cases after.symm.trans at_next
      exact absurd rises (by omega)
  · exact .inl

theorem get_stands {s next : State} (reached : states ttl maxBytes events n = some s)
    (after : states ttl maxBytes events (n + 1) = some next) {asked : String} {generation now : ℕ}
    {answer : Option Lookup} (called : events n = .get asked generation now)
    (stepped : step ttl maxBytes n s (.get asked generation now) = some (next, answer))
    (key : String) {token : Token} (older : token ≠ n) :
    next.Stands key token ↔ s.Stands key token ∧ ¬Revokes ttl maxBytes events n key := by
  have left := step_get stepped
  obtain ⟨same, tokens⟩ := s.entries.get_tokens ttl asked generation now n
  rw [← left] at same tokens
  have kept : next.Stands key token ↔
      (s.entries.reconcileGeneration generation).refilling.lookup key = some token := by
    unfold State.Stands
    obtain tokens | ⟨absent, tokens⟩ := tokens
    · rw [tokens]
    · rw [tokens, lookup_insert_eq]
      split
      next here =>
        rw [here, absent]
        simp [older.symm]
      next => exact Iff.rfl
  have quiet : Revokes ttl maxBytes events n key ↔
      s.entries.generation < next.entries.generation := by
    constructor
    · rintro (⟨pkg, other, _⟩ | ⟨s', next', at_n, at_next, rises⟩)
      · cases called.symm.trans other
      · cases reached.symm.trans at_n
        cases after.symm.trans at_next
        exact rises
    · exact fun rises => .inr ⟨s, next, reached, after, rises⟩
  rw [kept, quiet, same]
  obtain ⟨rises, cleared⟩ | ⟨earlier, be⟩ := s.entries.reconcileGeneration_cases generation
  · rw [cleared]
    simp [rises]
  · rw [be]
    simp [State.Stands]

theorem put_stands {s next : State} (sound : s.Sound ttl maxBytes events n)
    (reached : states ttl maxBytes events n = some s) {i now : ℕ} {body : Bytes}
    (called : events n = .put i body now)
    (stepped : step ttl maxBytes n s (.put i body now) = some (next, none))
    (key : String) (token : Token) :
    next.entries.generation = s.entries.generation ∧
      (next.Stands key token ↔ s.Stands key token ∧ ¬Spends ttl maxBytes events n key token) := by
  have spends : Spends ttl maxBytes events n key token ↔
      s.claims.lookup i = some (some (key, token)) := by
    constructor
    · rintro ⟨s', i', body', now', at_n, called', held⟩
      cases reached.symm.trans at_n
      cases called.symm.trans called'
      exact held
    · exact fun held => ⟨s, i, body, now, reached, called, held⟩
  rw [spends]
  unfold step at stepped
  dsimp only at stepped
  split at stepped
  next claim held =>
    obtain ⟨entries, put, _, same, unchanged | ⟨key', token', rfl, stood, spent, _⟩⟩ :=
      sound.entries.put ttl body claim now
    · rw [put] at stepped
      cases stepped
      obtain ⟨rfl, gone⟩ := unchanged
      refine ⟨rfl, fun stands => ⟨stands, fun mine => ?_⟩, And.left⟩
      exact gone key token (Option.some.inj (held.symm.trans mine)) stands
    · rw [put] at stepped
      cases stepped
      refine ⟨same, ?_⟩
      unfold State.Stands
      rw [spent, lookup_erase_eq, held]
      split
      next here =>
        rw [here]
        constructor
        · rintro ⟨⟩
        · rintro ⟨stands, other⟩
          cases stood.symm.trans stands
          exact absurd rfl other
      next apart =>
        refine ⟨fun stands => ⟨stands, ?_⟩, And.left⟩
        rintro ⟨⟩
        exact apart rfl
  next absent =>
    cases stepped
    rw [absent]
    simp

theorem drop_stands {s : State} (sound : s.Sound ttl maxBytes events n) (i : ℕ) (key : String)
    (token : Token) :
    (s.dropClaim i).entries.generation = s.entries.generation ∧
      ((s.dropClaim i).Stands key token → s.Stands key token) ∧
      (s.Stands key token → (∃ j, (s.dropClaim i).claims.lookup j = some (some (key, token))) →
        (s.dropClaim i).Stands key token) := by
  unfold State.dropClaim State.Stands
  split
  next key' token' held =>
    split
    next last =>
      refine ⟨rfl, ?_, ?_⟩
      · intro stands
        rw [lookup_erase_eq] at stands
        split at stands
        next => cases stands
        next => exact stands
      · rintro stands ⟨j, holder⟩
        rw [lookup_erase_eq] at holder ⊢
        split at holder
        next => cases holder
        next apart =>
          rw [if_neg]
          · exact stands
          · rintro rfl
            cases last.1.symm.trans stands
            exact (sound.strongCount_eq stands held).mp last.2 j apart holder
    next => exact ⟨rfl, id, fun stands _ => stands⟩
  next => exact ⟨rfl, id, fun stands _ => stands⟩

/-- A token stands after an event that did not make it when it stood before, the
event neither revokes nor spends it, and it leaves it a live claim. -/
theorem stands_step {s next : State} (sound : s.Sound ttl maxBytes events n)
    (reached : states ttl maxBytes events n = some s)
    (after : states ttl maxBytes events (n + 1) = some next) (key : String) {token : Token}
    (older : token ≠ n) :
    next.Stands key token ↔ s.Stands key token ∧ ¬Revokes ttl maxBytes events n key ∧
      ¬Spends ttl maxBytes events n key token ∧
      ∃ i, next.claims.lookup i = some (some (key, token)) := by
  obtain ⟨next', answer, stepped, kept⟩ := states_step sound reached
  have same : next' = next := by
    simp only [states, reached, Option.bind_some, stepped, Option.map_some, Option.some.injEq]
      at after
    exact after
  subst same
  have holder : next'.Stands key token → ∃ i, next'.claims.lookup i = some (some (key, token)) :=
    fun stands => (kept.standing key token stands).2
  have unspent : (∀ i body now, events n ≠ .put i body now) →
      ¬Spends ttl maxBytes events n key token := by
    rintro other ⟨_, i, body, now, _, called, _⟩
    exact other i body now called
  cases called : events n with
  | get asked generation now =>
      rw [called] at stepped
      have stands := get_stands reached after called stepped key older
      have unspent := unspent fun i body now other => by cases called.symm.trans other
      constructor
      · intro standing
        exact ⟨(stands.mp standing).1, (stands.mp standing).2, unspent, holder standing⟩
      · rintro ⟨before, unrevoked, -⟩
        exact stands.mpr ⟨before, unrevoked⟩
  | put i body now =>
      rw [called] at stepped
      obtain ⟨_, stepped', _⟩ := sound.put called
      cases stepped.symm.trans stepped'
      obtain ⟨same, stands⟩ := put_stands sound reached called stepped key token
      have unrevoked : ¬Revokes ttl maxBytes events n key := by
        rw [revokes_iff reached after same]
        rintro ⟨pkg, other, _⟩
        cases called.symm.trans other
      constructor
      · intro standing
        exact ⟨(stands.mp standing).1, unrevoked, (stands.mp standing).2, holder standing⟩
      · rintro ⟨before, -, unspent, -⟩
        exact stands.mpr ⟨before, unspent⟩
  | drop i =>
      rw [called] at stepped
      cases stepped
      obtain ⟨same, stood, stays⟩ := drop_stands sound i key token
      have unspent := unspent fun i body now other => by cases called.symm.trans other
      have unrevoked : ¬Revokes ttl maxBytes events n key := by
        rw [revokes_iff reached after same]
        rintro ⟨pkg, other, _⟩
        cases called.symm.trans other
      constructor
      · intro standing
        exact ⟨stood standing, unrevoked, unspent, holder standing⟩
      · rintro ⟨before, -, -, live⟩
        exact stays before live
  | invalidatePackage pkg =>
      rw [called] at stepped
      obtain ⟨_, stepped', _, _, same, _, tokens⟩ := sound.invalidatePackage called
      cases stepped.symm.trans stepped'
      have unspent := unspent fun i body now other => by cases called.symm.trans other
      have revoked : Revokes ttl maxBytes events n key ↔ Hits pkg key := by
        rw [revokes_iff reached after same]
        constructor
        · rintro ⟨other, also, hits⟩
          cases called.symm.trans also
          exact hits
        · exact fun hits => ⟨pkg, called, hits⟩
      have stands : next'.Stands key token ↔ s.Stands key token ∧ ¬Hits pkg key := by
        unfold State.Stands
        rw [tokens]
        split
        next hits => simp [hits]
        next misses => simp [misses]
      rw [revoked]
      constructor
      · intro standing
        exact ⟨(stands.mp standing).1, (stands.mp standing).2, unspent, holder standing⟩
      · rintro ⟨before, misses, -⟩
        exact stands.mpr ⟨before, misses⟩

/-- The claim a lookup is given is to a token that it leaves standing. -/
theorem get_given {s next : State} {asked : String} {generation now : ℕ} {answer : Option Lookup}
    (stepped : step ttl maxBytes n s (.get asked generation now) = some (next, answer)) :
    next.claims = s.claims ∨ ∃ claim, next.claims = s.claims.insert n claim ∧
      ∀ key token, claim = some (key, token) → next.Stands key token := by
  unfold step at stepped
  dsimp only at stepped
  split at stepped
  next claim entries told =>
    cases stepped
    refine .inr ⟨claim, rfl, ?_⟩
    rintro key token rfl
    obtain other | ⟨_, ⟨entry, _, other | other⟩ | ⟨token', stands, given⟩ | ⟨_, given⟩⟩ :=
      s.entries.get_cases ttl asked generation now n
    · cases told.symm.trans other
    · cases told.symm.trans other
    · cases told.symm.trans other
    · cases told.symm.trans given
      exact stands
    · cases told.symm.trans given
      exact AList.lookup_insert _
  next =>
    cases stepped
    exact .inl rfl

/-- A claim that is live was live before, or is given by this event to a token
that stands. -/
theorem claims_step {s next : State} (sound : s.Sound ttl maxBytes events n)
    (reached : states ttl maxBytes events n = some s)
    (after : states ttl maxBytes events (n + 1) = some next) {i : ℕ} {key : String} {token : Token}
    (live : next.claims.lookup i = some (some (key, token))) :
    s.claims.lookup i = some (some (key, token)) ∨ i = n ∧ next.Stands key token := by
  obtain ⟨next', answer, stepped, _⟩ := states_step sound reached
  have same : next' = next := by
    simp only [states, reached, Option.bind_some, stepped, Option.map_some, Option.some.injEq]
      at after
    exact after
  subst same
  cases called : events n with
  | get asked generation now =>
      rw [called] at stepped
      obtain kept | ⟨claim, given, stands⟩ := get_given stepped
      · exact .inl (kept ▸ live)
      · rw [given, lookup_insert_eq] at live
        split at live
        next here => exact .inr ⟨here, stands key token (Option.some.inj live)⟩
        next => exact .inl live
  | put j body now =>
      rw [called] at stepped
      unfold step at stepped
      dsimp only at stepped
      split at stepped
      next =>
        obtain ⟨entries, _, told⟩ := Option.map_eq_some_iff.mp stepped
        cases told
        exact .inl live
      next =>
        cases stepped
        exact .inl live
  | drop j =>
      rw [called] at stepped
      cases stepped
      have erased : (s.dropClaim j).claims = s.claims.erase j := by
        unfold State.dropClaim
        split
        · split <;> rfl
        · rfl
      rw [erased, lookup_erase_eq] at live
      split at live
      next => cases live
      next => exact .inl live
  | invalidatePackage pkg =>
      rw [called] at stepped
      obtain ⟨entries, _, told⟩ := Option.map_eq_some_iff.mp stepped
      cases told
      exact .inl live

/-! ### Runs -/

/-- A token that stands has stood since it was made. -/
theorem stood_since {s : State} (reached : states ttl maxBytes events n = some s) {key : String}
    {token : Token} (stands : s.Stands key token) {m : ℕ} (made : token < m) (before : m ≤ n) :
    ∃ earlier, states ttl maxBytes events m = some earlier ∧ earlier.Stands key token := by
  induction n generalizing s with
  | zero =>
      obtain rfl := Nat.le_zero.mp before
      exact ⟨s, reached, stands⟩
  | succ n ih =>
      obtain rfl | within := Nat.eq_or_lt_of_le before
      · exact ⟨s, reached, stands⟩
      obtain ⟨last, at_n, sound⟩ := states_sound ttl maxBytes events n
      have older : token ≠ n := (Nat.lt_of_lt_of_le made (Nat.lt_succ_iff.mp within)).ne
      have stood := ((stands_step sound at_n reached key older).mp stands).1
      exact ih at_n stood (Nat.lt_succ_iff.mp within)

/-- What a token that stands has been spared since it was made. -/
theorem spared_since {s : State} (reached : states ttl maxBytes events n = some s) {key : String}
    {token : Token} (stands : s.Stands key token) {m : ℕ} (made : token < m) (before : m < n) :
    ¬Revokes ttl maxBytes events m key ∧ ¬Spends ttl maxBytes events m key token := by
  obtain ⟨earlier, at_m, sound⟩ := states_sound ttl maxBytes events m
  obtain ⟨next, at_next, standing⟩ := stood_since reached stands (made.trans (Nat.lt_succ_self m)) before
  have stood := (stands_step sound at_m at_next key made.ne).mp standing
  exact ⟨stood.2.1, stood.2.2.1⟩

/-- The token of a live claim that was neither revoked nor spent stands. -/
theorem stands_of_live {s : State} (reached : states ttl maxBytes events n = some s) {i : ℕ}
    {key : String} {token : Token} (live : s.claims.lookup i = some (some (key, token)))
    (unrevoked : ∀ m, i < m → m < n → ¬Revokes ttl maxBytes events m key)
    (unspent : ∀ m < n, ¬Spends ttl maxBytes events m key token) : s.Stands key token := by
  induction n generalizing s with
  | zero =>
      cases reached
      simp at live
  | succ n ih =>
      obtain ⟨last, at_n, sound⟩ := states_sound ttl maxBytes events n
      obtain before | ⟨_, given⟩ := claims_step sound at_n reached live
      · have stood := ih at_n before (fun m after within => unrevoked m after (by omega))
          fun m within => unspent m (by omega)
        obtain ⟨earlier, made⟩ := sound.claims i _ before
        have older : token ≠ n := (Nat.lt_of_le_of_lt (made key token rfl).1 earlier).ne
        exact (stands_step sound at_n reached key older).mpr ⟨stood,
          unrevoked n earlier (Nat.lt_succ_self n), unspent n (Nat.lt_succ_self n), i, live⟩
      · exact given

variable (ttl maxBytes events n)

/-- A page served to a lookup at a generation was rendered under a claim taken
at it after the last invalidation of its package. An invalidation leaves every
other package its pages and its tokens. The count of the bytes never wraps,
stays exact and within the ceiling. A token stands exactly while a live claim
holds it that no invalidation or switch of the selection has revoked, until a
put spends it. -/
theorem project_cache_safe :
    ∃ s, states ttl maxBytes events n = some s ∧
      s.entries.bodyBytes = total Entry.weight s.entries.map ∧ s.entries.bodyBytes ≤ maxBytes ∧
      (∀ key generation now body, events n = .get key generation now →
        lookups ttl maxBytes events n = some (.fresh body) ∨
          lookups ttl maxBytes events n = some (.stale body) →
        ∃ i m token asked put, i < m ∧ m < n ∧ events i = .get key generation asked ∧
          lookups ttl maxBytes events i = some (.mustRender (some (key, token))) ∧
          events m = .put i body put ∧ Spared events key i n) ∧
      (∀ pkg, events n = .invalidatePackage pkg →
        ∃ next, states ttl maxBytes events (n + 1) = some next ∧ next.claims = s.claims ∧
          ∀ other version, other.name ≠ pkg.name →
            next.entries.map.lookup (key other version) = s.entries.map.lookup (key other version) ∧
            next.entries.refilling.lookup (key other version) =
              s.entries.refilling.lookup (key other version)) ∧
      ∀ key token, s.entries.refilling.lookup key = some token ↔
        ∃ i, s.claims.lookup i = some (some (key, token)) ∧
          (∀ m, i < m → m < n → ¬Revokes ttl maxBytes events m key) ∧
          ∀ m < n, ¬Spends ttl maxBytes events m key token := by
  obtain ⟨s, reached, sound⟩ := states_sound ttl maxBytes events n
  refine ⟨s, reached, sound.entries.exact, sound.entries.bounded, ?_, ?_, ?_⟩
  · intro key generation now body called served
    obtain ⟨next, answer, stepped, _, rendered⟩ := sound.get reached called
    have told : lookups ttl maxBytes events n = answer := by
      simp only [lookups, reached, Option.bind_some, called, stepped]
    rw [told] at served
    obtain ⟨i, m, token, put, after, before, ⟨⟨asked, taken⟩, given, spared⟩, putting⟩ :=
      rendered body served
    exact ⟨i, m, token, asked, put, after, before, taken, given, putting, spared⟩
  · intro pkg called
    obtain ⟨next, stepped, _, claims, _, pages, tokens⟩ := sound.invalidatePackage called
    refine ⟨next, ?_, claims, fun other version apart => ?_⟩
    · simp only [states, reached, Option.bind_some, called, stepped, Option.map_some]
    · have missed : ¬Hits pkg (key other version) := fun hits =>
        apart ((hits_key pkg other version).mp hits).symm
      exact ⟨by rw [pages, if_neg missed], by rw [tokens, if_neg missed]⟩
  · intro key token
    constructor
    · intro stands
      obtain ⟨_, i, live⟩ := sound.standing key token stands
      have made := ((sound.claims i _ live).2 key token rfl).1
      refine ⟨i, live, fun m after before => ?_, fun m before spends => ?_⟩
      · exact (spared_since reached stands (Nat.lt_of_le_of_lt made after) before).1
      · obtain ⟨earlier, j, body, now, at_m, called, held⟩ := spends
        obtain ⟨_, at_m', soundAt⟩ := states_sound ttl maxBytes events m
        cases at_m.symm.trans at_m'
        obtain ⟨older, madeBy⟩ := soundAt.claims j _ held
        exact (spared_since reached stands (Nat.lt_of_le_of_lt (madeBy key token rfl).1 older)
          before).2 ⟨earlier, j, body, now, at_m, called, held⟩
    · rintro ⟨i, live, unrevoked, unspent⟩
      exact stands_of_live reached live unrevoked unspent

/-! ### Shared tokens -/

def sampleKey : String := key ⟨"foo", by decide⟩ none

/-- Two cold readers share a token, and the first of them puts its page. -/
def coldReaders (n : ℕ) : Event :=
  if n = 2 then .put 0 [1] 5 else .get sampleKey 0 n

/-- The put spends the token under the second reader's claim, which nothing has
revoked. -/
theorem shared_token_spent :
    ¬∀ n key token,
      (∃ s, states 1000 67108864 coldReaders n = some s ∧
        s.entries.refilling.lookup key = some token) ↔
      ∃ s i, states 1000 67108864 coldReaders n = some s ∧
        s.claims.lookup i = some (some (key, token)) ∧
        ∀ m, i < m → m < n → ¬Revokes 1000 67108864 coldReaders m key := by
  intro exactly
  have live : ∃ s i, states 1000 67108864 coldReaders 3 = some s ∧
      s.claims.lookup i = some (some (sampleKey, 0)) ∧
      ∀ m, i < m → m < 3 → ¬Revokes 1000 67108864 coldReaders m sampleKey := by
    refine ⟨_, 1, rfl, by decide +kernel, fun m after before => ?_⟩
    obtain rfl : m = 2 := by omega
    rintro (⟨pkg, called, _⟩ | ⟨s, next, at_2, at_3, rises⟩)
    · exact absurd called (by simp [coldReaders])
    · cases at_2
      cases at_3
      exact absurd rises (by decide +kernel)
  obtain ⟨s, reached, stands⟩ := (exactly 3 sampleKey 0).mpr live
  cases reached
  exact absurd stands (by decide +kernel)

end Pypiron.ProjectCache
