import Pypiron.Deps

/-! The rounds of a dependency-following sync: each works the projects whose
wanted versions it has not visited yet, and what they require is followed in the
next. -/
namespace Pypiron.SyncRounds
open KeyedMap Deps

variable {V S : Type} (pep : Pep440 V S) (isPrivate : String → Bool) (roots : List (PackageSpec S))

/-! ### One project -/

/-- Forget the releases that are no longer selected. -/
def keepOnly (memo selected : DepsMemo) : DepsMemo :=
  retain (fun version _ => selected.keys.contains version) memo

/-- The selected releases that are not read yet. -/
def unread (memo selected : DepsMemo) : List (String × List String) :=
  (selected.entries.filter fun release => !memo.keys.contains release.1).map
    fun release => (release.1, release.2)

def record (memo : DepsMemo) (release : String × List String) : DepsMemo :=
  memo.insert release.1 release.2

/-- The releases a want and the run's filters select; `complete` holds what the
filters alone do. -/
def select (complete : KeyedMap String DepsMemo) (name : String) (want : Want) : DepsMemo :=
  retain (fun version _ => takes pep want version) ((complete.lookup name).getD ∅)

/-- What one project's sync leaves in its memo. -/
def syncOnePackage (complete : KeyedMap String DepsMemo) (prev : DepsMemo) (name : String)
    (want : Want) : DepsMemo :=
  let selected := select pep complete name want
  let memo := keepOnly prev selected
  (unread memo selected).foldl record memo

/-! ### Rounds -/

/-- What the loop holds: the memos, the memos of the cursors it wrote, what it has
visited, and the want of each project's last visit. -/
structure State where
  memos : KeyedMap String DepsMemo
  refreshed : KeyedMap String DepsMemo
  done : List (String × Want)
  visits : KeyedMap String Want

def start (stored : KeyedMap String DepsMemo) : State := ⟨stored, ∅, [], ∅⟩

/-- The projects a round still has to visit. -/
def pending (s : State) : Option (List (String × Want)) :=
  (closure pep isPrivate roots s.memos).map fun wants =>
    (wants.entries.map fun project => (project.1, project.2)).filter fun visit => visit ∉ s.done

/-- The outcome of one job; a project this run already synced resumes from that
cursor. -/
def outcome (complete stored : KeyedMap String DepsMemo) (s : State) (job : String × Want) : DepsMemo :=
  let prev := (s.refreshed.lookup job.1).or (stored.lookup job.1)
  syncOnePackage pep complete (prev.getD ∅) job.1 job.2

/-- One round over its jobs; not every project's cursor advances. -/
def round (complete stored : KeyedMap String DepsMemo) (advances : String → Bool)
    (jobs : List (String × Want)) (s : State) : State where
  memos := insertAll Prod.fst (outcome pep complete stored s) jobs s.memos
  refreshed := insertAll Prod.fst (outcome pep complete stored s)
    (jobs.filter fun job => advances job.1) s.refreshed
  done := s.done ++ jobs
  visits := insertAll Prod.fst Prod.snd jobs s.visits

/-- So many rounds, each over its jobs in some order. -/
inductive Rounds (complete stored : KeyedMap String DepsMemo) : ℕ → State → Prop where
  | start : Rounds complete stored 0 (start stored)
  | next {n s jobs jobs'} (advances : String → Bool) (before : Rounds complete stored n s)
      (pends : pending pep isPrivate roots s = some jobs') (busy : jobs' ≠ [])
      (order : jobs.Perm jobs') :
      Rounds complete stored (n + 1) (round pep complete stored advances jobs s)

/-- The loop ends: nothing is left to visit. -/
def Ended (s : State) : Prop := pending pep isPrivate roots s = some []

end Pypiron.SyncRounds
