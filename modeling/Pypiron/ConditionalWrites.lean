import Pypiron.VersionedCell
import Mathlib.Order.Monotone.Basic
import Mathlib.Data.Nat.Init

/-! Requests to one versioned object, served by a store that may fail a request
with or without having carried it out, and what the object's history then says:
an etag seen twice means that nothing was written in between. -/
namespace VersionedCell
variable {α : Type}

/-- The requests a client makes of the object. -/
inductive Request (α : Type) where
  | getWithEtag
  | putIfNoneMatch (body : α)
  | putIfMatch (etag : ℕ) (body : α)

def Request.Ans : Request α → Type
  | getWithEtag => Except String (Option (α × ℕ))
  | putIfNoneMatch _ => Except String (Option ℕ)
  | putIfMatch _ _ => Except String (Option ℕ)

/-- A request is answered, fails outright, or takes effect and is reported as
failed. -/
inductive Serves (cell : VersionedCell α) : (request : Request α) → request.Ans →
    VersionedCell α → Prop where
  | got : Serves cell .getWithEtag (.ok cell.get) cell
  | created (missing : cell.get = none) :
      Serves cell (.putIfNoneMatch body) (.ok (some cell.issued)) (cell.write body)
  | occupied (found : cell.get = some stored) :
      Serves cell (.putIfNoneMatch body) (.ok none) cell
  | replaced (found : cell.get = some (stored, etag)) :
      Serves cell (.putIfMatch etag body) (.ok (some cell.issued)) (cell.write body)
  | moved (changed : cell.get.map (·.2) ≠ some etag) :
      Serves cell (.putIfMatch etag body) (.ok none) cell
  | readFailed (text : String) : Serves cell .getWithEtag (.error text) cell
  | createFailed (text : String) : Serves cell (.putIfNoneMatch body) (.error text) cell
  | createLost (text : String) (missing : cell.get = none) :
      Serves cell (.putIfNoneMatch body) (.error text) (cell.write body)
  | replaceFailed (text : String) : Serves cell (.putIfMatch etag body) (.error text) cell
  | replaceLost (text : String) (found : cell.get = some (stored, etag)) :
      Serves cell (.putIfMatch etag body) (.error text) (cell.write body)

/-- A store that answers every request. -/
def serve (cell : VersionedCell α) : (request : Request α) → request.Ans × VersionedCell α
  | .getWithEtag => (Except.ok cell.get, cell)
  | .putIfNoneMatch body =>
    match cell.get with
    | none => (Except.ok (some cell.issued), cell.write body)
    | some _ => (Except.ok none, cell)
  | .putIfMatch etag body =>
    match cell.get with
    | some (_, current) =>
      if current = etag then (Except.ok (some cell.issued), cell.write body)
      else (Except.ok none, cell)
    | none => (Except.ok none, cell)

theorem serves_serve (cell : VersionedCell α) (request : Request α) :
    Serves cell request (cell.serve request).1 (cell.serve request).2 := by
  cases request with
  | getWithEtag => exact .got
  | putIfNoneMatch body =>
      simp only [serve]
      split
      next missing => exact .created missing
      next found => exact .occupied found
  | putIfMatch etag body =>
      simp only [serve]
      split
      next stored current found =>
        split
        next same => exact .replaced (same ▸ found)
        next moved => exact .moved (by simpa [found] using moved)
      next missing => exact .moved (by simp [missing])

/-- A store that answers no request and carries none out. -/
def fail (text : String) : (request : Request α) → request.Ans
  | .getWithEtag => Except.error text
  | .putIfNoneMatch _ => Except.error text
  | .putIfMatch _ _ => Except.error text

theorem serves_fail (cell : VersionedCell α) (text : String) (request : Request α) :
    Serves cell request (fail text request) cell := by
  cases request with
  | getWithEtag => exact .readFailed text
  | putIfNoneMatch body => exact .createFailed text
  | putIfMatch etag body => exact .replaceFailed text

theorem Serves.read (serves : Serves cell .getWithEtag answer cell') :
    cell' = cell ∧ ((∃ text, answer = .error text) ∨ answer = .ok cell.get) := by
  cases serves with
  | got => exact ⟨rfl, .inr rfl⟩
  | readFailed text => exact ⟨rfl, .inl ⟨text, rfl⟩⟩

/-- A create leaves the object alone or brings it into being. -/
theorem Serves.create (serves : Serves cell (.putIfNoneMatch body) answer cell') :
    (cell' = cell ∧ ∀ etag, answer ≠ .ok (some etag)) ∨
      (cell.get = none ∧ cell' = cell.write body) := by
  cases serves with
  | created missing => exact .inr ⟨missing, rfl⟩
  | occupied found => exact .inl ⟨rfl, fun etag same => by cases same⟩
  | createFailed text => exact .inl ⟨rfl, fun etag same => by cases same⟩
  | createLost text missing => exact .inr ⟨missing, rfl⟩

/-- A replacement leaves the object alone or replaces the version it names. -/
theorem Serves.replace (serves : Serves cell (.putIfMatch etag body) answer cell') :
    (cell' = cell ∧ ∀ fresh, answer ≠ .ok (some fresh)) ∨
      (∃ stored, cell.get = some (stored, etag) ∧ cell' = cell.write body) := by
  cases serves with
  | replaced found => exact .inr ⟨_, found, rfl⟩
  | moved changed => exact .inl ⟨rfl, fun fresh same => by cases same⟩
  | replaceFailed text => exact .inl ⟨rfl, fun fresh same => by cases same⟩
  | replaceLost text found => exact .inr ⟨_, found, rfl⟩

/-- The object stays as it is or gains a version. -/
def Evolves (cell cell' : VersionedCell α) : Prop := cell' = cell ∨ ∃ body, cell' = cell.write body

theorem Serves.evolves (serves : Serves cell request answer cell') : Evolves cell cell' := by
  cases serves with
  | got | occupied _ | moved _ | readFailed _ | createFailed _ | replaceFailed _ => exact .inl rfl
  | created _ | replaced _ | createLost _ _ | replaceLost _ _ => exact .inr ⟨_, rfl⟩

@[simp] theorem get_write (cell : VersionedCell α) (body : α) :
    (cell.write body).get = some (body, cell.issued) := rfl

@[simp] theorem issued_write (cell : VersionedCell α) (body : α) :
    (cell.write body).issued = cell.issued + 1 := rfl

theorem etag_lt_issued {cell : VersionedCell α} (found : cell.get = some (body, etag)) :
    etag < cell.issued := cell.fresh body etag found

section History
variable {cells : ℕ → VersionedCell α}

theorem issued_mono (evolves : ∀ now, Evolves (cells now) (cells (now + 1))) :
    Monotone fun now => (cells now).issued := by
  refine monotone_nat_of_le_succ fun now => ?_
  obtain same | ⟨body, written⟩ := evolves now
  · rw [same]
  · rw [written, issued_write]
    exact Nat.le_succ _

/-- An etag seen again: nothing was written since it was first seen. -/
theorem unchanged_of_etag (evolves : ∀ now, Evolves (cells now) (cells (now + 1)))
    (found : (cells first).get = some (body, etag)) (le : first ≤ last)
    (again : (cells last).get = some (body', etag)) : cells last = cells first := by
  induction last, le using Nat.le_induction generalizing body' with
  | base => rfl
  | succ last le ih =>
      obtain same | ⟨written, wrote⟩ := evolves last
      · rw [same] at again ⊢
        exact ih again
      · rw [wrote, get_write, Option.some.injEq, Prod.mk.injEq] at again
        have issued : (cells first).issued ≤ (cells last).issued := issued_mono evolves le
        have below : etag < (cells first).issued := etag_lt_issued found
        omega

theorem value_of_etag (evolves : ∀ now, Evolves (cells now) (cells (now + 1)))
    (found : (cells first).get = some (body, etag))
    (again : (cells last).get = some (body', etag)) : body' = body := by
  obtain le | le := Nat.le_total first last
  · rw [unchanged_of_etag evolves found le again, found] at again
    cases again
    rfl
  · rw [unchanged_of_etag evolves again le found, again] at found
    cases found
    rfl

/-- The object, once there, is never gone. -/
theorem present_of_present (evolves : ∀ now, Evolves (cells now) (cells (now + 1)))
    (le : first ≤ last) (found : (cells first).get ≠ none) : (cells last).get ≠ none := by
  induction last, le using Nat.le_induction with
  | base => exact found
  | succ last le ih =>
      obtain same | ⟨body, wrote⟩ := evolves last
      · rwa [same]
      · rw [wrote, get_write]
        simp

end History
end VersionedCell
