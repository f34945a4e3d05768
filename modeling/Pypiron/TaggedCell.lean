import Pypiron.ConditionalWrites

/-! One object of a store whose etags stand for bodies. An etag may number a version or digest
the body, and one that digests comes back with its body. -/

/-- The stored body under its etag, and how often it was written. -/
structure TaggedCell {α : Type} (stands : ℕ → Option α) where
  current : Option (α × ℕ)
  told : ∀ body etag, current = some (body, etag) → stands etag = some body
  writes : ℕ

namespace TaggedCell
open VersionedCell (Request)
variable {α : Type} {stands : ℕ → Option α} {cell cell' : TaggedCell stands}

def empty : TaggedCell stands where
  current := none
  told _ _ found := nomatch found
  writes := 0

def get (cell : TaggedCell stands) : Option (α × ℕ) := cell.current

def etag (cell : TaggedCell stands) : Option ℕ := cell.get.map Prod.snd

section Write
variable {body : α} {tag : ℕ}

/-- The object, overwritten by a body under an etag that stands for it. -/
def write (cell : TaggedCell stands) (named : stands tag = some body) : TaggedCell stands where
  current := some (body, tag)
  told := by
    intro _ _ same
    cases same
    exact named
  writes := cell.writes + 1

theorem write_ne (named : stands tag = some body) : cell.write named ≠ cell := by
  intro same
  have counts : cell.writes + 1 = cell.writes := congrArg writes same
  omega

theorem stands_of_get (found : cell.get = some (body, tag)) : stands tag = some body :=
  cell.told body tag found

theorem etag_of_get (found : cell.get = some (body, tag)) : cell.etag = some tag := by
  rw [etag, found]
  rfl

end Write

/-- A request is answered, fails outright, or takes effect and is reported as failed. -/
inductive Serves (cell : TaggedCell stands) : (request : Request α) → request.Ans →
    TaggedCell stands → Prop where
  | got : Serves cell .getWithEtag (.ok cell.get) cell
  | created (missing : cell.get = none) (named : stands fresh = some body) :
      Serves cell (.putIfNoneMatch body) (.ok (some fresh)) (cell.write named)
  | occupied (found : cell.get ≠ none) :
      Serves cell (.putIfNoneMatch body) (.ok none) cell
  | replaced (found : cell.get = some (stored, tag)) (named : stands fresh = some body) :
      Serves cell (.putIfMatch tag body) (.ok (some fresh)) (cell.write named)
  | moved (changed : cell.etag ≠ some tag) : Serves cell (.putIfMatch tag body) (.ok none) cell
  | readFailed (text : String) : Serves cell .getWithEtag (.error text) cell
  | createFailed (text : String) : Serves cell (.putIfNoneMatch body) (.error text) cell
  | createLost (text : String) (missing : cell.get = none) (named : stands fresh = some body) :
      Serves cell (.putIfNoneMatch body) (.error text) (cell.write named)
  | replaceFailed (text : String) : Serves cell (.putIfMatch tag body) (.error text) cell
  | replaceLost (text : String) (found : cell.get = some (stored, tag)) (named : stands fresh = some body) :
      Serves cell (.putIfMatch tag body) (.error text) (cell.write named)

section Serves
variable {body : α} {tag : ℕ}

theorem Serves.got_of {found : Option (α × ℕ)} (stands : cell.get = found) :
    Serves cell .getWithEtag (.ok found) cell := stands ▸ .got

theorem Serves.read {answer : (Request.getWithEtag : Request α).Ans}
    (serves : Serves cell .getWithEtag answer cell') :
    cell' = cell ∧ ((∃ text, answer = .error text) ∨ answer = .ok cell.get) := by
  cases serves with
  | got => exact ⟨rfl, .inr rfl⟩
  | readFailed text => exact ⟨rfl, .inl ⟨text, rfl⟩⟩

/-- A create leaves the object alone or brings it into being. -/
theorem Serves.create {answer : (Request.putIfNoneMatch body).Ans}
    (serves : Serves cell (.putIfNoneMatch body) answer cell') : cell' = cell ∨ cell.get = none := by
  cases serves with
  | created missing | createLost _ missing => exact .inr missing
  | occupied | createFailed => exact .inl rfl

/-- A replacement leaves the object alone or replaces what stood under the etag it names. -/
theorem Serves.replace {answer : (Request.putIfMatch tag body).Ans}
    (serves : Serves cell (.putIfMatch tag body) answer cell') :
    cell' = cell ∨ (∃ stored, cell.get = some (stored, tag)) ∧ ∃ fresh, cell'.get = some (body, fresh) := by
  cases serves with
  | replaced found | replaceLost _ found => exact .inr ⟨⟨_, found⟩, _, rfl⟩
  | moved | replaceFailed => exact .inl rfl

/-- A write that is answered with an etag has put the body under it. -/
theorem Serves.wrote {expected : Option ℕ}
    (put : (∃ number, expected = some number ∧
        Serves cell (.putIfMatch number body) (.ok (some tag) : Except String (Option ℕ)) cell') ∨
      expected = none ∧
        Serves cell (.putIfNoneMatch body) (.ok (some tag) : Except String (Option ℕ)) cell') :
    cell'.get = some (body, tag) := by
  obtain ⟨number, _, serves⟩ | ⟨_, serves⟩ := put
  · cases serves with
    | replaced => rfl
  · cases serves with
    | created => rfl

/-- No request removes the object. -/
theorem Serves.present {request : Request α} {answer : request.Ans}
    (serves : Serves cell request answer cell') (stood : cell.get ≠ none) : cell'.get ≠ none := by
  cases serves with
  | created | replaced | createLost | replaceLost => exact Option.some_ne_none _
  | got | occupied | moved | readFailed | createFailed | replaceFailed => exact stood

end Serves
end TaggedCell
