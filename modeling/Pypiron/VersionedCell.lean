import Mathlib.Logic.Function.Basic

/-! One object of a store with atomic conditional writes. Every successful write
issues an etag that no earlier version carried, so an etag names one version. -/

/-- The stored value with its etag, and the number of etags issued so far. -/
structure VersionedCell (α : Type*) where
  current : Option (α × Nat)
  issued : Nat
  fresh : ∀ value etag, current = some (value, etag) → etag < issued

namespace VersionedCell
variable {α : Type*}

def empty : VersionedCell α := ⟨none, 0, by simp⟩

def get (cell : VersionedCell α) : Option (α × Nat) := cell.current

def value (cell : VersionedCell α) : Option α := cell.current.map (·.1)

/-- Install the next version, whatever stood before it. -/
def write (cell : VersionedCell α) (value : α) : VersionedCell α where
  current := some (value, cell.issued)
  issued := cell.issued + 1
  fresh := by
    intro stored etag same
    simp only [Option.some.injEq, Prod.mk.injEq] at same
    omega

/-- `put_if_none_match`: create the object, or fail and change nothing. -/
def putIfNoneMatch (cell : VersionedCell α) (value : α) : Option Nat × VersionedCell α :=
  if cell.current.isNone then (some cell.issued, cell.write value) else (none, cell)

/-- `put_if_match`: replace exactly the version the etag names, or fail. -/
def putIfMatch (cell : VersionedCell α) (etag : Nat) (value : α) :
    Option Nat × VersionedCell α :=
  if cell.current.map (·.2) = some etag then (some cell.issued, cell.write value)
  else (none, cell)

@[simp] theorem value_write (cell : VersionedCell α) (value : α) :
    (cell.write value).value = some value := rfl

theorem value_of_get {cell : VersionedCell α} (found : cell.get = some (stored, etag)) :
    cell.value = some stored := by
  rw [get] at found
  rw [value, found, Option.map_some]

theorem value_of_get_none {cell : VersionedCell α} (missing : cell.get = none) :
    cell.value = none := by
  rw [get] at missing
  rw [value, missing, Option.map_none]

theorem putIfNoneMatch_of_get {cell : VersionedCell α} (missing : cell.get = none) (value : α) :
    cell.putIfNoneMatch value = (some cell.issued, cell.write value) := by
  rw [get] at missing
  simp [putIfNoneMatch, missing]

theorem putIfMatch_of_get {cell : VersionedCell α} (found : cell.get = some (stored, etag))
    (value : α) : cell.putIfMatch etag value = (some cell.issued, cell.write value) := by
  rw [get] at found
  simp [putIfMatch, found]

end VersionedCell
