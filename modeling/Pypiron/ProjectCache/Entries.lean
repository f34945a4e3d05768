import Pypiron.ProjectCache

/-! What each operation does to the pages and to the tokens that stand. -/
namespace Pypiron.ProjectCache
open KeyedMap

variable {maxBytes : ℕ}

/-! ### Keys -/

/-- An invalidation of the package covers the key. -/
def Hits (pkg : PkgName) (key : String) : Prop := startsWith key (packagePrefix pkg) = true

instance (pkg : PkgName) (key : String) : Decidable (Hits pkg key) :=
  inferInstanceAs (Decidable (_ = true))

private theorem clean_takeWhile {chars : List Char} (clean : keySep ∉ chars) (rest : List Char) :
    (chars ++ keySep :: rest).takeWhile (· != keySep) = chars := by
  rw [List.takeWhile_append_of_pos]
  · simp
  · intro c member
    simp only [bne_iff_ne, ne_eq]
    rintro rfl
    exact clean member

/-- The keys an invalidation covers are those of its own package. -/
theorem hits_key (pkg other : PkgName) (version : Option String) :
    Hits pkg (key other version) ↔ pkg.name = other.name := by
  simp only [Hits, startsWith, decide_eq_true_eq, packagePrefix, key, String.toList_append,
    String.toList_singleton, List.append_assoc, List.singleton_append]
  constructor
  · rintro ⟨rest, same⟩
    have names := congrArg (List.takeWhile (· != keySep)) same
    simp only [List.append_assoc, List.cons_append, clean_takeWhile pkg.clean,
      clean_takeWhile other.clean] at names
    exact String.ext names
  · intro same
    exact ⟨(version.getD "").toList, by simp [same]⟩

/-! ### Operations -/

structure Entries.Sound (maxBytes : ℕ) (entries : Entries) : Prop where
  exact : entries.toTalliedMap.Exact Entry.weight
  bounded : entries.bodyBytes ≤ maxBytes

/-- A switch to a later generation clears the cache; an earlier one is left be. -/
theorem Entries.reconcileGeneration_cases (generation : ℕ) (entries : Entries) :
    entries.generation < generation ∧
      entries.reconcileGeneration generation = ⟨.empty, generation, ∅⟩ ∨
    generation ≤ entries.generation ∧ entries.reconcileGeneration generation = entries := by
  unfold Entries.reconcileGeneration
  split
  next later => exact .inl ⟨later, rfl⟩
  next => exact .inr ⟨by omega, rfl⟩

theorem Entries.Sound.reconcileGeneration {entries : Entries} (sound : entries.Sound maxBytes)
    (generation : ℕ) : (entries.reconcileGeneration generation).Sound maxBytes := by
  obtain ⟨_, cleared⟩ | ⟨_, same⟩ := entries.reconcileGeneration_cases generation
  · rw [cleared]
    exact ⟨TalliedMap.Exact.empty _, Nat.zero_le _⟩
  · rw [same]
    exact sound

/-- What a lookup can be told, by the pages and the tokens it finds. -/
theorem Entries.get_cases (ttl : ℕ) (key : String) (generation now fresh : ℕ)
    (entries : Entries) :
    let found := entries.reconcileGeneration generation
    let told := entries.get ttl key generation now fresh
    told = (.mustRender none, found) ∨
    (found.generation = generation ∧
      ((∃ entry, found.map.lookup key = some entry ∧
          (told = (.fresh entry.body, found) ∨ told = (.stale entry.body, found))) ∨
        (∃ token, found.refilling.lookup key = some token ∧
          told = (.mustRender (some (key, token)), found)) ∨
        (found.refilling.lookup key = none ∧ told = (.mustRender (some (key, fresh)),
          { found with refilling := found.refilling.insert key fresh })))) := by
  intro found told
  have claims : ∀ result, result = found.claim key fresh →
      (∃ token, found.refilling.lookup key = some token ∧
          result = (.mustRender (some (key, token)), found)) ∨
        (found.refilling.lookup key = none ∧ result = (.mustRender (some (key, fresh)),
          { found with refilling := found.refilling.insert key fresh })) := by
    rintro result rfl
    unfold Entries.claim
    cases standing : found.refilling.lookup key with
    | none => exact .inr ⟨rfl, rfl⟩
    | some token => exact .inl ⟨token, rfl, rfl⟩
  have unfolded : told = entries.get ttl key generation now fresh := rfl
  unfold Entries.get at unfolded
  dsimp only at unfolded
  split at unfolded
  next => exact .inl unfolded
  next current =>
    have pinned : found.generation = generation := by
      obtain ⟨_, cleared⟩ | ⟨earlier, same⟩ := entries.reconcileGeneration_cases generation
      · exact congrArg Entries.generation cleared
      · rw [same] at current
        exact (congrArg Entries.generation same).trans (by omega)
    refine .inr ⟨pinned, ?_⟩
    cases page : found.map.lookup key with
    | none =>
        simp only [found] at page
        simp only [page] at unfolded
        exact .inr (claims told unfolded)
    | some entry =>
        simp only [found] at page
        simp only [page] at unfolded
        split at unfolded
        next => exact .inl ⟨entry, rfl, .inl unfolded⟩
        next =>
          split at unfolded
          next => exact .inl ⟨entry, rfl, .inr unfolded⟩
          next => exact .inr (claims told unfolded)

/-- A lookup leaves the tokens it finds, but for one it makes where none stood. -/
theorem Entries.get_tokens (ttl : ℕ) (key : String) (generation now fresh : ℕ)
    (entries : Entries) :
    let found := entries.reconcileGeneration generation
    let left := (entries.get ttl key generation now fresh).2
    left.generation = found.generation ∧ (left.refilling = found.refilling ∨
      found.refilling.lookup key = none ∧ left.refilling = found.refilling.insert key fresh) := by
  obtain told | ⟨_, ⟨entry, _, told | told⟩ | ⟨token, _, told⟩ | ⟨absent, told⟩⟩ :=
    entries.get_cases ttl key generation now fresh
  · exact ⟨by rw [told], .inl (by rw [told])⟩
  · exact ⟨by rw [told], .inl (by rw [told])⟩
  · exact ⟨by rw [told], .inl (by rw [told])⟩
  · exact ⟨by rw [told], .inl (by rw [told])⟩
  · exact ⟨by rw [told], .inr ⟨absent, by rw [told]⟩⟩

/-- A put leaves everything be, or its token stood and is spent on the page. -/
theorem Entries.Sound.put {entries : Entries} (sound : entries.Sound maxBytes) (ttl : ℕ)
    (body : Bytes) (claim : RenderClaim) (now : ℕ) :
    ∃ next, entries.put maxBytes ttl body claim now = some next ∧ next.Sound maxBytes ∧
      next.generation = entries.generation ∧
      ((next = entries ∧ ∀ key token, claim = some (key, token) →
          entries.refilling.lookup key ≠ some token) ∨
        ∃ key token, claim = some (key, token) ∧ entries.refilling.lookup key = some token ∧
          next.refilling = entries.refilling.erase key ∧
          ∀ key' entry, next.map.lookup key' = some entry →
            key' = key ∧ entry.body = body ∨ entries.map.lookup key' = some entry) := by
  unfold Entries.put
  cases claim with
  | none =>
      refine ⟨entries, rfl, sound, rfl, .inl ⟨rfl, ?_⟩⟩
      rintro key token ⟨⟩
  | some claim =>
      obtain ⟨key, token⟩ := claim
      dsimp only
      split
      next gone =>
        refine ⟨entries, rfl, sound, rfl, .inl ⟨rfl, ?_⟩⟩
        rintro key' token' ⟨⟩
        exact gone
      next stands =>
        obtain ⟨pages, inserted, exact, map⟩ := sound.exact.insert key ⟨body, now⟩
        obtain ⟨capped, enforced, cappedExact, bounded, kept⟩ :=
          exact.enforceCap maxBytes (Entry.live ttl now)
        refine ⟨⟨capped, entries.generation, entries.refilling.erase key⟩, ?_,
          ⟨cappedExact, bounded⟩, rfl, .inr ⟨key, token, rfl, Decidable.not_not.mp stands, rfl, ?_⟩⟩
        · simp only [Entries.insert, inserted, Option.map_some, Option.bind_some,
            Entries.enforceCap, enforced]
        · intro key' entry found
          have there := kept key' entry found
          rw [map, lookup_insert_eq] at there
          split at there
          next same =>
            cases there
            exact .inl ⟨same, rfl⟩
          next => exact .inr there

theorem Entries.Sound.invalidatePackage {entries : Entries} (sound : entries.Sound maxBytes)
    (pkg : PkgName) :
    ∃ next, entries.invalidatePackage pkg = some next ∧ next.Sound maxBytes ∧
      next.generation = entries.generation ∧
      (∀ key, next.map.lookup key = if Hits pkg key then none else entries.map.lookup key) ∧
      ∀ key, next.refilling.lookup key =
        if Hits pkg key then none else entries.refilling.lookup key := by
  have dropped : ∀ {V : Type} (m : KeyedMap String V) (key : String),
      (KeyedMap.retain (fun key _ => !startsWith key (packagePrefix pkg)) m).lookup key =
        if Hits pkg key then none else m.lookup key := by
    intro V m key
    rw [lookup_retain]
    unfold Hits
    cases m.lookup key with
    | none => exact (ite_self none).symm
    | some v => by_cases hits : startsWith key (packagePrefix pkg) = true <;> simp [hits]
  obtain ⟨kept, retained, exact, smaller, map⟩ :=
    sound.exact.retain fun key _ => !startsWith key (packagePrefix pkg)
  refine ⟨⟨kept, entries.generation, KeyedMap.retain
    (fun key _ => !startsWith key (packagePrefix pkg)) entries.refilling⟩,
    ?_, ⟨exact, smaller.trans sound.bounded⟩, rfl, ?_,
    fun key => dropped entries.refilling key⟩
  · simp only [Entries.invalidatePackage, Entries.removePrefix, retained, Option.map_some]
  · intro key
    dsimp only
    rw [map, dropped]

end Pypiron.ProjectCache
