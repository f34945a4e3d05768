import Mathlib.Data.String.Basic

/-! Origin exclusivity: every package is `private` or `mirror`. `OriginState` is
what the claim object `packages/<pkg>/.origin` can hold; `Origin` is the part of
it a live record can carry. The constructor `priv` is the source's `Private`,
which is a keyword here. -/
namespace Pypiron

inductive OriginState where
  | unclaimed
  | mirror
  | priv
  deriving DecidableEq, Repr

namespace OriginState

def asStr : OriginState → String
  | unclaimed => "unclaimed"
  | mirror => "mirror"
  | priv => "private"

def parse (value : String) : Option OriginState :=
  if value = "unclaimed" then some unclaimed
  else if value = "mirror" then some mirror
  else if value = "private" then some priv
  else none

end OriginState

/-- A live record's origin. An unclaimed package has none. -/
inductive Origin where
  | priv
  | mirror
  deriving DecidableEq, Repr

namespace Origin

def ofState : OriginState → Option Origin
  | .priv => some priv
  | .mirror => some mirror
  | .unclaimed => none

def asStr : Origin → String
  | priv => "private"
  | mirror => "mirror"

def parse (value : String) : Option Origin :=
  (OriginState.parse value).bind ofState

/-- The one origin precedence every merge ranks by: private over mirror. -/
def rank : Origin → Nat
  | mirror => 1
  | priv => 2

@[simp] theorem parse_asStr (origin : Origin) : parse origin.asStr = some origin := by
  cases origin <;> decide

theorem parse_eq_some {value : String} {origin : Origin} (parsed : parse value = some origin) :
    value = origin.asStr := by
  unfold parse OriginState.parse at parsed
  split at parsed
  · exact absurd parsed (by simp [ofState])
  split at parsed
  · simp only [Option.bind_some, ofState, Option.some.injEq] at parsed
    subst parsed value
    rfl
  split at parsed
  · simp only [Option.bind_some, ofState, Option.some.injEq] at parsed
    subst parsed value
    rfl
  · exact absurd parsed (by simp)

end Origin

def claimRank : Option Origin → Nat
  | none => 0
  | some origin => origin.rank

/-- The package claim both buckets converge on: the higher-ranked one, an absent
claim lowest. -/
def claimJoin (a b : Option Origin) : Option Origin :=
  if claimRank b > claimRank a then b else a

end Pypiron
