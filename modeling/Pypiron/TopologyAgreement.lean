import Pypiron.Topology

/-! Agreement on the topology across every interleaving of verifications,
re-verifications and migrations by processes with different bucket lists. Every
write over a stamp raises the generation of the version it replaces, so a bucket
carries one list for each generation; every index a call reports was seen to
carry the caller's own list. -/
namespace Pypiron.Topology
open Program ThreadPool
variable {β : Type} [DecidableEq β] (sha256 : String → String)

section Rules
variable (run : ℕ → TopologyConfig β)

def stampAt (bucket : β) (instant : ℕ) : Option StampBody :=
  ((run instant).store.stamps bucket).value

/-- The bucket carried `stamp` at an instant of the call. -/
def Carried (start now : ℕ) (bucket : β) (stamp : TopologyStamp) : Prop :=
  ∃ instant, start ≤ instant ∧ instant ≤ now ∧ stampAt run bucket instant = some (.stamp stamp)

/-- The call's read of a bucket's stamp was answered with `found`. -/
def Read (thread : ℕ) (call : TopologyCall β) (start now : ℕ) (bucket : β)
    (found : Option (StampBody × ℕ)) : Prop :=
  ∃ instant, start ≤ instant ∧ instant < now ∧
    Performed (topology sha256) run thread instant call (.stamp bucket .getWithEtag) (.ok found)

def stampOf (set : BucketSet β) (generation : ℕ) : TopologyStamp :=
  ⟨set.names, topologyHash sha256 set.names, generation⟩

/-- Bucket `index` of the caller's list carried the caller's stamp. -/
def Confirmed (set : BucketSet β) (generation start now index : ℕ) : Prop :=
  ∃ handle, set.handles[index]? = some handle ∧
    Carried run start now handle.storage (stampOf sha256 set generation)

/-- A verification read every bucket of its list. -/
def AllRead (thread : ℕ) (call : TopologyCall β) (start now : ℕ) : Prop :=
  ∀ set isAvailability, call = .verify set isAvailability → ∀ handle ∈ set.handles,
    ∃ found, Read sha256 run thread call start now handle.storage found

/-- A replacement raises the generation of a version that was there before; a
verification that creates a stamp has read every bucket. -/
def Permits (thread : ℕ) (call : TopologyCall β) (start now : ℕ) : TopologyOp β → Prop
  | .stamp bucket (.putIfMatch etag body) => ∃ seen ≤ now, ∃ old new,
      ((run seen).store.stamps bucket).get = some (.stamp old, etag) ∧
      body = .stamp new ∧ old.generation < new.generation
  | .stamp _ (.putIfNoneMatch body) =>
      (∃ new, body = .stamp new) ∧ AllRead sha256 run thread call start now
  | .stamp _ .getWithEtag => True
  | .topologyGeneration _ => True
  | .setTopologyGeneration _ _ => True

/-- What a finished call may report. A re-verification's status is relative to
the generation its process remembered. -/
def Reports (call : TopologyCall β) (start now : ℕ) : TopologyOutcome → Prop
  | .report report => ∀ index ∈ report.verifiedIndices ++ report.stampedIndices,
      ∃ generation, report.generation = some generation ∧
        Confirmed sha256 run call.set generation start now index
  | .status status => status ∈ [.verified, .stamped, .restamped] →
      ∃ index isAvailability generation instant,
        call = .verifyIndex call.set index isAvailability ∧ start ≤ instant ∧ instant ≤ now ∧
        (run instant).store.generations call.set.process = some generation ∧
        Confirmed sha256 run call.set generation start now index

def rules : Contract (TopologyCall β) (TopologyOp β) String TopologyOutcome where
  permits := Permits sha256 run
  post _ call start now := Lawful.Yields (fun now => Reports sha256 run call start now) now

end Rules

section Calls
variable {sha256} {run : ℕ → TopologyConfig β} {thread start now later : ℕ}
variable {call : TopologyCall β} {bucket : β} {stamp target : TopologyStamp} {set : BucketSet β}
variable {handle : BucketHandle β} {isAvailability : ℕ → String → Bool}

omit [DecidableEq β] in
theorem Carried.mono (carried : Carried run start now bucket stamp) (le : now ≤ later) :
    Carried run start later bucket stamp := by
  obtain ⟨instant, from_, upto, held⟩ := carried
  exact ⟨instant, from_, upto.trans le, held⟩

theorem Read.mono (read : Read sha256 run thread call start now bucket found) (le : now ≤ later) :
    Read sha256 run thread call start later bucket found := by
  obtain ⟨instant, from_, before, performed⟩ := read
  exact ⟨instant, from_, before.trans_le le, performed⟩

omit [DecidableEq β] in
theorem Confirmed.mono (confirmed : Confirmed sha256 run set generation start now index)
    (le : now ≤ later) : Confirmed sha256 run set generation start later index := by
  obtain ⟨handle, listed, carried⟩ := confirmed
  exact ⟨handle, listed, carried.mono le⟩

theorem AllRead.mono (read : AllRead sha256 run thread call start now) (le : now ≤ later) :
    AllRead sha256 run thread call start later := by
  intro set isAvailability same handle member
  obtain ⟨found, seen⟩ := read set isAvailability same handle member
  exact ⟨found, seen.mono le⟩

omit [DecidableEq β] in
theorem Reports.mono (reports : Reports sha256 run call start now outcome) (le : now ≤ later) :
    Reports sha256 run call start later outcome := by
  cases outcome with
  | report report =>
      intro index member
      obtain ⟨generation, known, confirmed⟩ := reports index member
      exact ⟨generation, known, confirmed.mono le⟩
  | status status =>
      intro reached
      obtain ⟨index, isAvailability, generation, instant, same, from_, upto, held, confirmed⟩ :=
        reports reached
      exact ⟨index, isAvailability, generation, instant, same, from_, upto.trans le, held,
        confirmed.mono le⟩

theorem performs_stamp (performs : TopologyPerforms store (.stamp bucket asked) answer store') :
    store'.generations = store.generations ∧
    ∃ cell, VersionedCell.Serves (store.stamps bucket) asked answer cell ∧
      store'.stamps = Function.update store.stamps bucket cell := by
  cases performs with
  | stamp serves => exact ⟨rfl, _, serves, rfl⟩

theorem performs_topologyGeneration {store store' : TopologyStore β}
    (performs : TopologyPerforms store (.topologyGeneration process) answer store') :
    answer = store.generations process ∧ store' = store := by
  cases performs
  exact ⟨rfl, rfl⟩

theorem performs_setTopologyGeneration {store store' : TopologyStore β}
    (performs : TopologyPerforms store (.setTopologyGeneration process generation) answer store') :
    store'.stamps = store.stamps := by
  cases performs
  rfl

/-- What a read was answered with is what the bucket held. -/
theorem Read.get (read : Read sha256 run thread call start now bucket found) :
    ∃ instant, start ≤ instant ∧ instant < now ∧
      ((run instant).store.stamps bucket).get = found := by
  obtain ⟨instant, from_, before, _, _, performs, _⟩ := read
  obtain ⟨-, cell, serves, -⟩ := performs_stamp performs
  obtain ⟨-, ⟨text, failed⟩ | got⟩ := serves.read
  · cases failed
  · cases got
    exact ⟨instant, from_, before, rfl⟩

theorem Read.carried
    (read : Read sha256 run thread call start now bucket (some (.stamp stamp, etag))) :
    Carried run start now bucket stamp := by
  obtain ⟨instant, from_, before, found⟩ := read.get
  exact ⟨instant, from_, before.le, VersionedCell.value_of_get found⟩

variable (sha256 run thread start call)

/-- Programs of the call under its rules; nothing is owed on an error. -/
abbrev Keeps {α : Type} (holds : ℕ → α → Prop) (now : ℕ) (program : TopologyM β α) : Prop :=
  Lawful (Permits sha256 run thread call start)
    (Answered (topology sha256) run (fun _ => True) thread call) (Lawful.Yields holds) now program

variable {sha256 run thread start call}

theorem keeps_topologyGeneration (after : start ≤ now) :
    Keeps sha256 run thread start call (fun later known => ∃ instant, start ≤ instant ∧
      instant ≤ later ∧ (run instant).store.generations process = known) now
      (topologyGeneration process) := by
  intro before le
  refine ⟨trivial, ?_⟩
  rintro later answer grows ⟨-, instant, asked, rfl, next, -, performs, -⟩
  refine Lawful.yield_done fun final beyond known same => ?_
  cases same
  exact ⟨instant, by omega, by omega, (performs_topologyGeneration performs).1.symm⟩

theorem keeps_setTopologyGeneration :
    Keeps sha256 run thread start call (fun _ _ => True) now
      (setTopologyGeneration process generation) := by
  intro before le
  exact ⟨trivial, fun later answer grows _ =>
    Lawful.yield_done fun final beyond known same => trivial⟩

theorem keeps_get (after : start ≤ now) :
    Keeps sha256 run thread start call (fun later answer => ∀ found, answer = .ok found →
      Read sha256 run thread call start later bucket found) now (getWithEtag bucket) := by
  intro before le
  refine ⟨trivial, ?_⟩
  rintro later answer grows ⟨-, instant, asked, rfl, performed⟩
  refine Lawful.yield_done fun final beyond known same found ok => ?_
  cases same
  subst ok
  exact ⟨instant, by omega, by omega, performed⟩

/-- What an accepted write leaves on the bucket. -/
def Accepted (run : ℕ → TopologyConfig β) (start : ℕ) (bucket : β) (target : TopologyStamp)
    (later : ℕ) (answer : Except String (Option ℕ)) : Prop :=
  ∀ etag, answer = .ok (some etag) → Carried run start later bucket target

theorem accepted_of_write (after : start ≤ instant) (beyond : instant + 1 ≤ later)
    (wrote : (run (instant + 1)).store.stamps =
      Function.update (run instant).store.stamps bucket cell) (value : cell.value = some (.stamp target)) :
    Carried run start later bucket target := by
  refine ⟨instant + 1, by omega, beyond, ?_⟩
  rw [stampAt, wrote, Function.update_self, value]

theorem keeps_create (after : start ≤ now) (read : AllRead sha256 run thread call start now) :
    Keeps sha256 run thread start call (Accepted run start bucket target) now
      (putIfNoneMatch bucket target) := by
  intro before le
  refine ⟨⟨⟨target, rfl⟩, read.mono le⟩, ?_⟩
  rintro later answer grows ⟨-, instant, asked, rfl, next, -, performs, -⟩
  refine Lawful.yield_done fun final beyond known same etag ok => ?_
  cases same
  obtain ⟨-, cell, serves, wrote⟩ := performs_stamp performs
  obtain ⟨-, rejected⟩ | ⟨-, rfl⟩ := serves.create
  · exact absurd ok (rejected etag)
  · exact accepted_of_write (by omega) beyond wrote (VersionedCell.value_write _ _)

theorem keeps_replace (after : start ≤ now)
    (read : Read sha256 run thread call start now bucket (some (.stamp stamp, etag)))
    (raises : stamp.generation < target.generation) :
    Keeps sha256 run thread start call (Accepted run start bucket target) now
      (putIfMatch bucket etag target) := by
  intro before le
  obtain ⟨seen, -, upto, found⟩ := read.get
  refine ⟨⟨seen, by omega, stamp, target, found, rfl, raises⟩, ?_⟩
  rintro later answer grows ⟨-, instant, asked, rfl, next, -, performs, -⟩
  refine Lawful.yield_done fun final beyond known same fresh ok => ?_
  cases same
  obtain ⟨-, cell, serves, wrote⟩ := performs_stamp performs
  obtain ⟨-, rejected⟩ | ⟨_, -, rfl⟩ := serves.replace
  · exact absurd ok (rejected fresh)
  · exact accepted_of_write (by omega) beyond wrote (VersionedCell.value_write _ _)

omit [DecidableEq β] in
theorem eq_of_checkStampIdentity (checked : checkStampIdentity name found target.hash target.buckets = .ok ())
    (same : found.generation = target.generation) : found = target := by
  unfold checkStampIdentity at checked
  split at checked
  next => cases checked
  next agrees =>
    push Not at agrees
    cases found
    cases target
    simp_all

theorem eq_of_checkExactStamp
    (checked : checkExactStamp name found target.hash target.buckets target.generation = .ok ()) :
    found = target := by
  unfold checkExactStamp at checked
  cases identity : checkStampIdentity name found target.hash target.buckets with
  | error error =>
      rw [identity] at checked
      cases checked
  | ok =>
      rw [identity] at checked
      change (if _ then _ else _) = _ at checked
      split at checked
      next => cases checked
      next same => exact eq_of_checkStampIdentity identity (not_not.mp same)

/-- A lost race is accepted only for the exact stamp. -/
theorem keeps_verifyRacedStamp (after : start ≤ now) :
    Keeps sha256 run thread start call (fun later raced => raced = true →
      Carried run start later handle.storage target) now
      (verifyRacedStamp handle index target isAvailability) := by
  refine Lawful.yield_bind (keeps_get after) fun later le answer read => ?_
  match answer with
  | .error error =>
      dsimp only
      split
      · exact Lawful.yield_pure fun _ _ raced => by cases raced
      · exact Lawful.yield_bail
  | .ok none => exact Lawful.yield_bail
  | .ok (some (.malformed, etag)) => exact Lawful.yield_bail
  | .ok (some (.stamp found, etag)) =>
      have seen := (read _ rfl).carried
      have checks : Keeps sha256 run thread start call (fun _ _ => found = target) later
          (done (checkExactStamp handle.name found target.hash target.buckets target.generation)) :=
        Lawful.yield_done fun _ _ _ checked => eq_of_checkExactStamp checked
      have accepts : Keeps sha256 run thread start call (fun later raced => raced = true →
          Carried run start later handle.storage target) later (do
            done (checkExactStamp handle.name found target.hash target.buckets target.generation)
            return true) := by
        refine Lawful.yield_bind checks fun last le' _ same => ?_
        exact Lawful.yield_pure fun final le'' _ => same ▸ seen.mono (le'.trans le'')
      exact accepts

/-- The version a write goes over was read, and is older than the target; a
stamp is created only by a call that may. -/
def Writable (sha256 : String → String) (run : ℕ → TopologyConfig β) (thread : ℕ)
    (call : TopologyCall β) (start : ℕ) (target : TopologyStamp) (now : ℕ)
    (handle : BucketHandle β) : Option ℕ → Prop
  | some etag => ∃ old, old.generation < target.generation ∧
      Read sha256 run thread call start now handle.storage (some (.stamp old, etag))
  | none => AllRead sha256 run thread call start now

theorem Writable.mono (writable : Writable sha256 run thread call start target now handle etag)
    (le : now ≤ later) : Writable sha256 run thread call start target later handle etag := by
  cases etag with
  | none => exact AllRead.mono writable le
  | some etag =>
      obtain ⟨old, raises, read⟩ := writable
      exact ⟨old, raises, read.mono le⟩

/-- What one write settles about its bucket. -/
def Settled (run : ℕ → TopologyConfig β) (start : ℕ) (target : TopologyStamp)
    (handle : BucketHandle β) (later : ℕ) (written : Written) : Prop :=
  written ≠ .unreachable → Carried run start later handle.storage target

/-- What a write makes of the answer to its conditional put. -/
theorem keeps_answered (after : start ≤ now)
    (accepted : Accepted run start handle.storage target now answer) :
    Keeps sha256 run thread start call (Settled run start target handle) now
      ((fun
        | .ok (some _) => return .stamped
        | .ok none => do
          if ← verifyRacedStamp handle index target isAvailability then return .verified
          else return .unreachable
        | .error error =>
          if isAvailability index error then return .unreachable
          else bail (withContext (context ++ " " ++ quoted handle.name) error)) answer) := by
  match answer with
  | .error error =>
      dsimp only
      split
      · exact Lawful.yield_pure fun _ _ reached => absurd rfl reached
      · exact Lawful.yield_bail
  | .ok (some etag) =>
      exact Lawful.yield_pure fun final le' _ => (accepted etag rfl).mono le'
  | .ok none =>
      refine Lawful.yield_bind (keeps_verifyRacedStamp after) fun last le' raced told => ?_
      cases raced with
      | true => exact Lawful.yield_pure fun final le'' _ => (told rfl).mono le''
      | false => exact Lawful.yield_pure fun _ _ reached => absurd rfl reached

theorem keeps_writeStamp (after : start ≤ now)
    (writable : Writable sha256 run thread call start target now handle etag) :
    Keeps sha256 run thread start call (Settled run start target handle) now
      (writeStamp target isAvailability context index handle etag) := by
  cases etag with
  | none =>
      refine Lawful.yield_bind (keeps_create after writable) fun later le answer accepted => ?_
      exact keeps_answered (after.trans le) accepted
  | some etag =>
      obtain ⟨old, raises, read⟩ := writable
      refine Lawful.yield_bind (keeps_replace after read raises) fun later le answer accepted => ?_
      exact keeps_answered (after.trans le) accepted

/-- Every index of a report so far carried the target. -/
def Backed (run : ℕ → TopologyConfig β) (start : ℕ) (set : BucketSet β) (target : TopologyStamp)
    (later : ℕ) (report : TopologyReport) : Prop :=
  ∀ index ∈ report.verifiedIndices ++ report.stampedIndices, ∃ handle,
    set.handles[index]? = some handle ∧ Carried run start later handle.storage target

omit [DecidableEq β] in
theorem Backed.mono (backed : Backed run start set target now report) (le : now ≤ later) :
    Backed run start set target later report := by
  intro index member
  obtain ⟨handle, listed, carried⟩ := backed index member
  exact ⟨handle, listed, carried.mono le⟩

omit [DecidableEq β] in
theorem Backed.record (backed : Backed run start set target now report)
    (listed : set.handles[index]? = some handle)
    (settled : Settled run start target handle now written) :
    Backed run start set target now (report.record index written) := by
  intro other member
  have older : other ∈ report.verifiedIndices ++ report.stampedIndices ∨
      (other = index ∧ written ≠ .unreachable) := by
    cases written with
    | stamped | verified =>
        simp only [TopologyReport.record, List.mem_append, List.mem_singleton] at member ⊢
        tauto
    | unreachable => exact .inl member
  obtain old | ⟨rfl, reached⟩ := older
  · exact backed other old
  · exact ⟨handle, listed, settled reached⟩

theorem keeps_stampAll (after : start ≤ now) (backed : Backed run start set target now report)
    (listed : ∀ entry ∈ entries, set.handles[entry.1]? = some entry.2.1 ∧
      Writable sha256 run thread call start target now entry.2.1 entry.2.2) :
    Keeps sha256 run thread start call (Backed run start set target) now
      (stampAll target isAvailability context entries report) := by
  induction entries generalizing now report with
  | nil => exact Lawful.yield_pure fun final le => backed.mono le
  | cons entry rest ih =>
      obtain ⟨index, handle, etag⟩ := entry
      obtain ⟨here, writable⟩ := listed _ List.mem_cons_self
      refine Lawful.yield_bind (keeps_writeStamp after writable) fun later le written settled => ?_
      refine ih (after.trans le) ((backed.mono le).record here settled) fun entry member => ?_
      have ⟨there, open_⟩ := listed entry (List.mem_cons_of_mem _ member)
      exact ⟨there, open_.mono le⟩

section Survey
variable {survey : Survey β} {asked : List (ℕ × BucketHandle β)}

/-- What the read loop knows of the buckets it has asked. -/
structure Surveyed (sha256 : String → String) (run : ℕ → TopologyConfig β) (thread : ℕ)
    (call : TopologyCall β) (start : ℕ) (asked : List (ℕ × BucketHandle β)) (later : ℕ)
    (survey : Survey β) : Prop where
  listed : ∀ entry ∈ survey.reachable, (entry.1, entry.2.1) ∈ asked
  read : ∀ entry ∈ survey.reachable, Read sha256 run thread call start later entry.2.1.storage
    (entry.2.2.map fun (found, etag) => (.stamp found, etag))
  bounded : ∀ entry ∈ survey.reachable, ∀ found, entry.2.2 = some found →
    ∃ generation, survey.generation = some generation ∧ found.1.generation ≤ generation
  covered : survey.unreachable = [] → ∀ item ∈ asked, ∃ current,
    (item.1, item.2, current) ∈ survey.reachable

namespace Surveyed

theorem mono (surveyed : Surveyed sha256 run thread call start asked now survey)
    (le : now ≤ later) : Surveyed sha256 run thread call start asked later survey where
  listed := surveyed.listed
  read entry member := (surveyed.read entry member).mono le
  bounded := surveyed.bounded
  covered := surveyed.covered

theorem found (surveyed : Surveyed sha256 run thread call start asked now survey)
    (read : Read sha256 run thread call start now handle.storage (some (.stamp stamp, etag))) :
    Surveyed sha256 run thread call start (asked ++ [(index, handle)]) now
      { survey with
        generation := observe survey.generation stamp
        reachable := survey.reachable ++ [(index, handle, some (stamp, etag))] } where
  listed := by
    intro entry member
    obtain old | rfl := by simpa using member
    · exact List.mem_append_left _ (surveyed.listed entry old)
    · simp
  read := by
    intro entry member
    obtain old | rfl := by simpa using member
    · exact surveyed.read entry old
    · exact read
  bounded := by
    intro entry member version some_
    obtain old | rfl := by simpa using member
    · obtain ⟨generation, known, bound⟩ := surveyed.bounded entry old version some_
      exact ⟨_, by rw [observe, known]; rfl, bound.trans (le_max_left _ _)⟩
    · cases some_
      cases survey.generation with
      | none => exact ⟨_, rfl, le_rfl⟩
      | some known => exact ⟨_, rfl, le_max_right _ _⟩
  covered := by
    intro reached item member
    obtain old | rfl := by simpa using member
    · obtain ⟨current, there⟩ := surveyed.covered reached item old
      exact ⟨current, List.mem_append_left _ there⟩
    · exact ⟨some (stamp, etag), by simp⟩

theorem bare (surveyed : Surveyed sha256 run thread call start asked now survey)
    (read : Read sha256 run thread call start now handle.storage none) :
    Surveyed sha256 run thread call start (asked ++ [(index, handle)]) now
      { survey with reachable := survey.reachable ++ [(index, handle, none)] } where
  listed := by
    intro entry member
    obtain old | rfl := by simpa using member
    · exact List.mem_append_left _ (surveyed.listed entry old)
    · simp
  read := by
    intro entry member
    obtain old | rfl := by simpa using member
    · exact surveyed.read entry old
    · exact read
  bounded := by
    intro entry member version some_
    obtain old | rfl := by simpa using member
    · exact surveyed.bounded entry old version some_
    · cases some_
  covered := by
    intro reached item member
    obtain old | rfl := by simpa using member
    · obtain ⟨current, there⟩ := surveyed.covered reached item old
      exact ⟨current, List.mem_append_left _ there⟩
    · exact ⟨none, by simp⟩

theorem silent (surveyed : Surveyed sha256 run thread call start asked now survey) :
    Surveyed sha256 run thread call start (asked ++ [(index, handle)]) now
      { survey with unreachable := survey.unreachable ++ [index] } where
  listed entry member := List.mem_append_left _ (surveyed.listed entry member)
  read := surveyed.read
  bounded := surveyed.bounded
  covered reached := by simp at reached

end Surveyed

theorem keeps_readStamps (after : start ≤ now)
    (surveyed : Surveyed sha256 run thread call start asked now survey) :
    Keeps sha256 run thread start call (Surveyed sha256 run thread call start (asked ++ rest)) now
      (readStamps isAvailability rest survey) := by
  induction rest generalizing now asked survey with
  | nil =>
      rw [List.append_nil]
      exact Lawful.yield_pure fun final le => surveyed.mono le
  | cons item rest ih =>
      obtain ⟨index, handle⟩ := item
      rw [List.append_cons]
      refine Lawful.yield_bind (keeps_get after) fun later le answer read => ?_
      have surveyed := surveyed.mono le
      match answer with
      | .error error =>
          dsimp only
          split
          · exact ih (after.trans le) surveyed.silent
          · exact Lawful.yield_bail
      | .ok none => exact ih (after.trans le) (surveyed.bare (read _ rfl))
      | .ok (some (.malformed, etag)) => exact Lawful.yield_bail
      | .ok (some (.stamp found, etag)) =>
          exact ih (after.trans le) (surveyed.found (read _ rfl))

end Survey

omit [DecidableEq β] in
theorem getElem_of_enumerate (member : (index, handle) ∈ enumerate set) :
    set.handles[index]? = some handle := by
  simp only [enumerate, List.mem_map, Prod.exists, Prod.mk.injEq] at member
  obtain ⟨handle', index', there, rfl, rfl⟩ := member
  exact List.mem_zipIdx_iff_getElem?.mp there

omit [DecidableEq β] in
theorem mem_enumerate (member : handle ∈ set.handles) :
    ∃ index, (index, handle) ∈ enumerate set := by
  obtain ⟨index, there⟩ := List.mem_iff_getElem?.mp member
  refine ⟨index, List.mem_map.mpr ⟨(handle, index), ?_, rfl⟩⟩
  exact List.mem_zipIdx_iff_getElem?.mpr there

omit [DecidableEq β] in
/-- The stamps that agree with the target are those the pass reports as
verified. -/
theorem mem_checkTied (checked : checkTied target reachable = .ok verified)
    (member : index ∈ verified) : ∃ handle etag, (index, handle, some (target, etag)) ∈
      (reachable : List (ℕ × BucketHandle β × Option (TopologyStamp × ℕ))) := by
  induction reachable generalizing verified with
  | nil =>
      cases checked
      cases member
  | cons entry rest ih =>
      have later (checked : checkTied target rest = .ok verified) (member : index ∈ verified) :
          ∃ handle etag, (index, handle, some (target, etag)) ∈ entry :: rest := by
        obtain ⟨handle, etag, there⟩ := ih checked member
        exact ⟨handle, etag, List.mem_cons_of_mem _ there⟩
      obtain ⟨index', handle, current⟩ := entry
      cases current with
      | none => exact later checked member
      | some current =>
          obtain ⟨found, etag⟩ := current
          simp only [checkTied] at checked
          split at checked
          next tied =>
            cases identity : checkStampIdentity handle.name found target.hash target.buckets with
            | error error =>
                rw [identity] at checked
                cases checked
            | ok =>
                obtain rfl := eq_of_checkStampIdentity identity tied
                rw [identity] at checked
                cases others : checkTied found rest with
                | error error =>
                    rw [others] at checked
                    cases checked
                | ok indices =>
                    rw [others] at checked
                    cases checked
                    obtain rfl | older := List.mem_cons.mp member
                    · exact ⟨handle, etag, List.mem_cons_self⟩
                    · obtain ⟨handle, etag, there⟩ := ih others older
                      exact ⟨handle, etag, List.mem_cons_of_mem _ there⟩
          next => exact later checked member

theorem surveyed_nothing :
    Surveyed sha256 run thread call start [] now ⟨generation, [], []⟩ where
  listed _ member := by cases member
  read _ member := by cases member
  bounded _ member := by cases member
  covered _ _ member := by cases member

theorem keeps_done {result : Except String α} :
    Keeps sha256 run thread start call (fun _ value => result = .ok value) now (done result) :=
  Lawful.yield_done fun _ _ _ same => same

section Passes
variable {survey : Survey β}

/-- A bare bucket and a silent one stop a verification, so one that goes on to
create a stamp has read every bucket. -/
theorem Surveyed.allRead (surveyed : Surveyed sha256 run thread (.verify set isAvailability) start
      (enumerate set) now survey) (reached : survey.unreachable = []) :
    AllRead sha256 run thread (.verify set isAvailability) start now := by
  intro set' isAvailability' same handle member
  cases same
  obtain ⟨index, listed⟩ := mem_enumerate member
  obtain ⟨current, there⟩ := surveyed.covered reached _ listed
  exact ⟨_, surveyed.read _ there⟩

theorem Surveyed.writable (surveyed : Surveyed sha256 run thread (.verify set isAvailability) start
      (enumerate set) now survey)
    (answered : ∀ index handle, (index, handle, none) ∈ survey.reachable → survey.unreachable = [])
    (member : entry ∈ laggards (survey.generation.getD 0) survey.reachable) :
    set.handles[entry.1]? = some entry.2.1 ∧
      Writable sha256 run thread (.verify set isAvailability) start
        (stampOf sha256 set (survey.generation.getD 0)) now entry.2.1 entry.2.2 := by
  obtain ⟨⟨index, handle, current⟩, there, lagging⟩ := List.mem_filterMap.mp member
  have listed := getElem_of_enumerate (surveyed.listed _ there)
  cases current with
  | none =>
      cases lagging
      exact ⟨listed, surveyed.allRead (answered index handle there)⟩
  | some current =>
      obtain ⟨found, etag⟩ := current
      dsimp only at lagging
      split at lagging
      next => cases lagging
      next differs =>
        cases lagging
        refine ⟨listed, found, ?_, surveyed.read _ there⟩
        obtain ⟨generation, known, bound⟩ := surveyed.bounded _ there _ rfl
        rw [known, Option.getD_some] at differs
        rw [known]
        exact lt_of_le_of_ne bound differs

theorem Surveyed.backed (surveyed : Surveyed sha256 run thread call start (enumerate set) now survey)
    (checked : checkTied target survey.reachable = .ok verified) :
    Backed run start set target now ⟨none, verified, [], unreachable⟩ := by
  intro index member
  rw [List.append_nil] at member
  obtain ⟨handle, etag, there⟩ := mem_checkTied checked member
  exact ⟨handle, getElem_of_enumerate (surveyed.listed _ there), (surveyed.read _ there).carried⟩

omit [DecidableEq β] in
/-- A pass that ends reports the generation it stamped. -/
theorem Backed.finish (backed : Backed run start set (stampOf sha256 set generation) now report)
    (same : call.set = set) :
    Reports sha256 run call start now (.report (report.finish generation)) := by
  intro index member
  obtain ⟨handle, listed, carried⟩ := backed index member
  exact ⟨generation, rfl, handle, same ▸ listed, same ▸ carried⟩

theorem keeps_verify :
    Keeps sha256 run thread start (.verify set isAvailability) (fun later report =>
      Reports sha256 run (.verify set isAvailability) start later (.report report)) start
      (verifyTopologyWith sha256 set isAvailability) := by
  unfold verifyTopologyWith
  split
  next => exact Lawful.yield_pure fun _ _ index member => by cases member
  next =>
  refine Lawful.yield_bind keeps_done fun validated le _ _ => ?_
  refine Lawful.yield_bind (keeps_topologyGeneration le) fun recalled le' remembered _ => ?_
  have le := le.trans le'
  refine Lawful.yield_bind (keeps_readStamps le surveyed_nothing) fun read le' survey surveyed => ?_
  have le := le.trans le'
  dsimp only
  split
  next => exact Lawful.yield_bail
  next =>
  split
  next => exact Lawful.yield_bail
  next answered =>
  refine Lawful.yield_bind keeps_done fun tied le' verified checked => ?_
  have le := le.trans le'
  have surveyed := surveyed.mono le'
  have bare (index : ℕ) (handle : BucketHandle β) (there : (index, handle, none) ∈ survey.reachable) :
      survey.unreachable = [] := by
    by_contra silent
    refine answered ?_
    have unstamped : ∃ index handle, (index, handle, none) ∈ survey.reachable := ⟨index, handle, there⟩
    simpa [silent] using unstamped
  refine Lawful.yield_bind (keeps_stampAll le (surveyed.backed checked)
    fun entry member => surveyed.writable bare member) fun stamped le' report backed => ?_
  refine Lawful.yield_bind keeps_setTopologyGeneration fun known le'' _ _ => ?_
  exact Lawful.yield_pure fun final last => (backed.mono (le''.trans last)).finish rfl

theorem Surveyed.migratable (surveyed : Surveyed sha256 run thread (.migrate set isAvailability) start
      (enumerate set) now survey)
    {entry : ℕ × BucketHandle β × Option ℕ}
    (bumped : checkedSucc ((survey.generation.or remembered).getD 0) = some generation)
    (member : entry ∈ survey.reachable.map fun (index, handle, current) =>
      (index, handle, current.map (·.2))) :
    set.handles[entry.1]? = some entry.2.1 ∧
      Writable sha256 run thread (.migrate set isAvailability) start
        (stampOf sha256 set generation) now entry.2.1 entry.2.2 := by
  obtain ⟨⟨index, handle, current⟩, there, rfl⟩ := List.mem_map.mp member
  refine ⟨getElem_of_enumerate (surveyed.listed _ there), ?_⟩
  cases current with
  | none => exact fun _ _ same => by cases same
  | some current =>
      obtain ⟨found, etag⟩ := current
      obtain ⟨observed, known, bound⟩ := surveyed.bounded _ there _ rfl
      refine ⟨found, ?_, surveyed.read _ there⟩
      rw [known, Option.some_or, Option.getD_some, checkedSucc] at bumped
      split at bumped
      next =>
        cases bumped
        exact Nat.lt_succ_of_le bound
      next => cases bumped

theorem keeps_migrate :
    Keeps sha256 run thread start (.migrate set isAvailability) (fun later report =>
      Reports sha256 run (.migrate set isAvailability) start later (.report report)) start
      (migrateTopologyWith sha256 set isAvailability) := by
  unfold migrateTopologyWith
  split
  next => exact Lawful.yield_pure fun _ _ index member => by cases member
  next =>
  refine Lawful.yield_bind keeps_done fun validated le _ _ => ?_
  refine Lawful.yield_bind (keeps_topologyGeneration le) fun recalled le' remembered _ => ?_
  have le := le.trans le'
  refine Lawful.yield_bind (keeps_readStamps le surveyed_nothing) fun read le' survey surveyed => ?_
  have le := le.trans le'
  dsimp only
  split
  next => exact Lawful.yield_bail
  next =>
  rcases bumped : checkedSucc ((survey.generation.or remembered).getD 0) with _ | generation
  · dsimp only
    split
    next =>
      split
      next => exact Lawful.yield_bail
      next => exact Lawful.yield_bail
    next => exact Lawful.yield_bail
  · dsimp only
    have stamps : Keeps sha256 run thread start (.migrate set isAvailability) (fun later report =>
        Reports sha256 run (.migrate set isAvailability) start later (.report report)) read
        (do
          let report ← stampAll (stampOf sha256 set generation) isAvailability
            "migrate topology on bucket"
            (survey.reachable.map fun entry => (entry.1, entry.2.1, entry.2.2.map (·.2)))
            ⟨none, [], [], survey.unreachable⟩
          setTopologyGeneration set.process generation
          return report.finish generation) := by
      have nothing : Backed run start set (stampOf sha256 set generation) read
          ⟨none, [], [], survey.unreachable⟩ := fun index member => by cases member
      refine Lawful.yield_bind (keeps_stampAll le nothing
        fun entry member => surveyed.migratable bumped member) fun stamped le' report backed => ?_
      refine Lawful.yield_bind keeps_setTopologyGeneration fun known le'' _ _ => ?_
      exact Lawful.yield_pure fun final last => (backed.mono (le''.trans last)).finish rfl
    split
    next =>
      split
      next => exact Lawful.yield_bail
      next => exact stamps
    next => exact stamps

end Passes

theorem Written.ne_unreachable_of_status {wrote : TopologyIndexStatus} {written : Written}
    (reached : written.status wrote ∈ [.verified, .stamped, .restamped]) :
    written ≠ .unreachable := by
  rintro rfl
  simp [Written.status] at reached

theorem keeps_verifyIndex :
    Keeps sha256 run thread start (.verifyIndex set index isAvailability) (fun later status =>
      Reports sha256 run (.verifyIndex set index isAvailability) start later (.status status)) start
      (verifyTopologyIndexWith sha256 set index isAvailability) := by
  unfold verifyTopologyIndexWith
  split
  next => exact Lawful.yield_bail
  next handle listed =>
  split
  next => exact Lawful.yield_pure fun _ _ reached => by simp at reached
  next =>
  refine Lawful.yield_bind keeps_done fun validated le _ _ => ?_
  refine Lawful.yield_bind (keeps_topologyGeneration le) fun recalled le' remembered known => ?_
  have le := le.trans le'
  cases remembered with
  | none => exact Lawful.yield_bail
  | some generation =>
  -- whichever way the bucket came to carry the stamp, the report is backed by it
  have reports (later : ℕ) (beyond : recalled ≤ later) (status : TopologyIndexStatus)
      (carried : status ∈ [.verified, .stamped, .restamped] →
        Carried run start later handle.storage (stampOf sha256 set generation)) :
      Reports sha256 run (.verifyIndex set index isAvailability) start later (.status status) := by
    intro reached
    obtain ⟨instant, from_, upto, held⟩ := known
    exact ⟨index, isAvailability, generation, instant, rfl, from_, upto.trans beyond, held,
      handle, listed, carried reached⟩
  refine Lawful.yield_bind (keeps_get le) fun read le' answer found => ?_
  have after := le.trans le'
  match answer with
  | .error error =>
      dsimp only
      split
      · exact Lawful.yield_pure fun _ _ reached => by simp at reached
      · exact Lawful.yield_bail
  | .ok none =>
      refine Lawful.yield_bind (keeps_writeStamp after fun _ _ same => by cases same)
        fun last le'' written settled => ?_
      refine Lawful.yield_pure fun final beyond => reports final (by omega) _ fun reached => ?_
      exact (settled (Written.ne_unreachable_of_status reached)).mono beyond
  | .ok (some (.malformed, etag)) => exact Lawful.yield_bail
  | .ok (some (.stamp seen, etag)) =>
      dsimp only [parseStamp, Program.bind_ok]
      split
      next same =>
        refine Lawful.yield_bind keeps_done fun checked le'' _ identity => ?_
        have carried : seen = stampOf sha256 set generation := eq_of_checkStampIdentity identity same
        refine Lawful.yield_pure fun final beyond => reports final (by omega) _ fun _ => ?_
        exact carried ▸ (found _ rfl).carried.mono (by omega)
      next =>
      split
      next => exact Lawful.yield_bail
      next differs older =>
        have raises : seen.generation < generation := by omega
        refine Lawful.yield_bind (keeps_writeStamp after ⟨seen, raises, found _ rfl⟩)
          fun last le'' written settled => ?_
        refine Lawful.yield_pure fun final beyond => reports final (by omega) _ fun reached => ?_
        exact (settled (Written.ne_unreachable_of_status reached)).mono beyond

/-- Every call keeps to the rules. -/
theorem keeps_program (call : TopologyCall β) :
    Keeps sha256 run thread start call (fun later => Reports sha256 run call start later) start
      (call.program sha256) := by
  cases call with
  | verify set isAvailability =>
      refine Lawful.yield_bind keeps_verify fun later le report reports => ?_
      exact Lawful.yield_pure fun final beyond => reports.mono beyond
  | verifyIndex set index isAvailability =>
      refine Lawful.yield_bind keeps_verifyIndex fun later le status reports => ?_
      exact Lawful.yield_pure fun final beyond => reports.mono beyond
  | migrate set isAvailability =>
      refine Lawful.yield_bind keeps_migrate fun later le report reports => ?_
      exact Lawful.yield_pure fun final beyond => reports.mono beyond

end Calls

/-- Any processes with any bucket lists, over buckets in any state. -/
structure TopologyRun (run : ℕ → TopologyConfig β) : Prop where
  trace : Trace (topology sha256) run
  idle : ∀ thread, (run 0).threads thread = none

namespace TopologyRun
variable {sha256} {run : ℕ → TopologyConfig β} {thread now later : ℕ} {call : TopologyCall β}
variable {bucket : β} {old new : TopologyStamp}

theorem permitted (topologyRun : TopologyRun sha256 run)
    (performed : Performed (topology sha256) run thread now call op answer) :
    ∃ start, Underway (topology sha256) run thread call start now ∧
      Permits sha256 run thread call start now op :=
  topologyRun.trace.permitted topologyRun.idle (rules sha256 run) trivial (fun _ _ _ => trivial)
    (fun _ _ call _ _ => keeps_program call) performed

theorem reports (topologyRun : TopologyRun sha256 run)
    (finished : (run now).threads thread = some (call, .done (.ok outcome))) :
    ∃ start, Underway (topology sha256) run thread call start now ∧
      Reports sha256 run call start now outcome := by
  obtain ⟨start, underway, kept⟩ := (topologyRun.trace.lawful topologyRun.idle (rules sha256 run)
    trivial (fun _ _ _ => trivial) (fun _ _ call _ _ => keeps_program call) now).2 _ _ _ finished
  exact ⟨start, underway, kept now le_rfl outcome rfl⟩

theorem stamps_step (topologyRun : TopologyRun sha256 run) (now : ℕ) :
    (run (now + 1)).store.stamps = (run now).store.stamps ∨
    ∃ thread call bucket asked answer cell,
      Performed (topology sha256) run thread now call (.stamp bucket asked) answer ∧
      VersionedCell.Serves ((run now).store.stamps bucket) asked answer cell ∧
      (run (now + 1)).store.stamps = Function.update (run now).store.stamps bucket cell := by
  obtain ⟨thread, call, op, answer, performed⟩ | ⟨_, _, _, next⟩ | ⟨⟨_, next⟩, _⟩ |
    ⟨_, _, _, next, _⟩ | next := topologyRun.trace.cases now
  · have ⟨_, _, performs, _⟩ := performed
    cases op with
    | topologyGeneration process =>
        obtain ⟨-, same⟩ := performs_topologyGeneration performs
        exact .inl (by rw [same])
    | setTopologyGeneration process generation =>
        exact .inl (performs_setTopologyGeneration performs)
    | stamp bucket asked =>
        obtain ⟨-, cell, serves, wrote⟩ := performs_stamp performs
        exact .inr ⟨thread, call, bucket, asked, answer, cell, performed, serves, wrote⟩
  · exact .inl (by rw [next, Config.setThread_store])
  · exact .inl (by rw [next])
  · exact .inl (by rw [show (run (now + 1)).store = (run now).store from next])
  · exact .inl (by rw [next])

theorem evolves (topologyRun : TopologyRun sha256 run) (bucket : β) (now : ℕ) :
    VersionedCell.Evolves ((run now).store.stamps bucket) ((run (now + 1)).store.stamps bucket) := by
  obtain same | ⟨_, _, target, _, _, cell, _, serves, wrote⟩ := topologyRun.stamps_step now
  · exact .inl (by rw [same])
  · rw [wrote]
    by_cases here : bucket = target
    · subst here
      rw [Function.update_self]
      exact serves.evolves
    · exact .inl (by rw [Function.update_of_ne here])

/-- A bucket's stamp stays as it is, appears, or gives way to one of a higher
generation. -/
theorem stampAt_step (topologyRun : TopologyRun sha256 run) (bucket : β) (now : ℕ) :
    stampAt run bucket (now + 1) = stampAt run bucket now ∨
    (∃ thread call body answer, Performed (topology sha256) run thread now call
      (.stamp bucket (.putIfNoneMatch body)) answer ∧ stampAt run bucket now = none) ∨
    ∃ old new, stampAt run bucket now = some (.stamp old) ∧
      stampAt run bucket (now + 1) = some (.stamp new) ∧ old.generation < new.generation := by
  obtain same | ⟨thread, call, target, asked, answer, cell, performed, serves, wrote⟩ :=
    topologyRun.stamps_step now
  · exact .inl (by rw [stampAt, stampAt, same])
  by_cases here : bucket = target
  swap
  · exact .inl (by rw [stampAt, stampAt, wrote, Function.update_of_ne here])
  subst here
  have after : stampAt run bucket (now + 1) = cell.value := by
    rw [stampAt, wrote, Function.update_self]
  cases asked with
  | getWithEtag => exact .inl (by rw [after, serves.read.1, stampAt])
  | putIfNoneMatch body =>
      obtain ⟨same, -⟩ | ⟨missing, -⟩ := serves.create
      · exact .inl (by rw [after, same, stampAt])
      · exact .inr (.inl ⟨thread, call, body, answer, performed,
          VersionedCell.value_of_get_none missing⟩)
  | putIfMatch etag body =>
      obtain ⟨same, -⟩ | ⟨stored, found, rfl⟩ := serves.replace
      · exact .inl (by rw [after, same, stampAt])
      · obtain ⟨start, -, seen, upto, old, new, read, rfl, raises⟩ := topologyRun.permitted performed
        obtain rfl : stored = .stamp old :=
          VersionedCell.value_of_etag (topologyRun.evolves bucket) read found
        refine .inr (.inr ⟨old, new, VersionedCell.value_of_get found, ?_, raises⟩)
        rw [after, VersionedCell.value_write]

/-- A stamp gives way only to higher generations. -/
theorem stamp_grows (topologyRun : TopologyRun sha256 run) (le : now ≤ later)
    (held : stampAt run bucket now = some (.stamp old)) :
    ∃ new, stampAt run bucket later = some (.stamp new) ∧
      (new = old ∨ old.generation < new.generation) := by
  induction later, le using Nat.le_induction with
  | base => exact ⟨old, held, .inl rfl⟩
  | succ later le ih =>
      obtain ⟨middle, between, grown⟩ := ih
      obtain same | ⟨_, _, _, _, _, missing⟩ | ⟨middle', new, before, after, raises⟩ :=
        topologyRun.stampAt_step bucket later
      · exact ⟨middle, same.trans between, grown⟩
      · rw [between] at missing
        cases missing
      · rw [between] at before
        cases before
        refine ⟨new, after, .inr ?_⟩
        obtain rfl | grown := grown
        · exact raises
        · exact grown.trans raises

theorem stamp_unique (topologyRun : TopologyRun sha256 run)
    (held : stampAt run bucket now = some (.stamp old))
    (held' : stampAt run bucket later = some (.stamp new))
    (same : old.generation = new.generation) : old = new := by
  obtain le | le := Nat.le_total now later
  · obtain ⟨last, after, rfl | raises⟩ := topologyRun.stamp_grows le held
    · rw [after] at held'
      cases held'
      rfl
    · rw [after] at held'
      cases held'
      omega
  · obtain ⟨last, after, rfl | raises⟩ := topologyRun.stamp_grows le held'
    · rw [after] at held
      cases held
      rfl
    · rw [after] at held
      cases held
      omega

end TopologyRun

/-- A finished call counts `bucket` as carrying its list at `generation`. A
re-verification reports no generation of its own: it is the one its process held
while it ran. -/
inductive Succeeds (run : ℕ → TopologyConfig β) (now thread : ℕ) (call : TopologyCall β)
    (generation : ℕ) (bucket : β) : Prop where
  | report (report : TopologyReport) (index : ℕ) (handle : BucketHandle β)
      (finished : (run now).threads thread = some (call, .done (.ok (.report report))))
      (reported : report.generation = some generation)
      (member : index ∈ report.verifiedIndices ++ report.stampedIndices)
      (listed : call.set.handles[index]? = some handle) (same : handle.storage = bucket)
  | status (status : TopologyIndexStatus) (set : BucketSet β) (index : ℕ)
      (isAvailability : ℕ → String → Bool) (handle : BucketHandle β)
      (verifies : call = .verifyIndex set index isAvailability)
      (finished : (run now).threads thread = some (call, .done (.ok (.status status))))
      (reached : status ∈ [.verified, .stamped, .restamped])
      (remembered : ∀ start instant, Underway (topology sha256) run thread call start now →
        start ≤ instant → instant ≤ now →
        (run instant).store.generations set.process = some generation)
      (listed : set.handles[index]? = some handle) (same : handle.storage = bucket)

section Agreement
variable {sha256} {run : ℕ → TopologyConfig β} {call : TopologyCall β}

theorem Succeeds.carried (topologyRun : TopologyRun sha256 run)
    (succeeds : Succeeds sha256 run now thread call generation bucket) :
    ∃ start, Underway (topology sha256) run thread call start now ∧
      Carried run start now bucket (stampOf sha256 call.set generation) := by
  cases succeeds with
  | report report index handle finished reported member listed same =>
      obtain ⟨start, underway, backed⟩ := topologyRun.reports finished
      obtain ⟨generation', known, handle', listed', carried⟩ := backed index member
      rw [reported] at known
      rw [listed] at listed'
      cases known
      cases listed'
      exact ⟨start, underway, same ▸ carried⟩
  | status status set index isAvailability handle verifies finished reached remembered listed same =>
      obtain ⟨start, underway, backed⟩ := topologyRun.reports finished
      obtain ⟨index', isAvailability', generation', instant, again, from_, upto, held, handle',
        listed', carried⟩ := backed reached
      subst verifies
      cases again
      rw [TopologyCall.set, remembered start instant underway from_ upto] at held
      rw [TopologyCall.set, listed] at listed'
      cases held
      cases listed'
      exact ⟨start, underway, same ▸ carried⟩

end Agreement

/-- Across every interleaving: a bucket's generation never falls and each
generation of a bucket names one list; what a call reports was carried by the
bucket during the call; so processes that succeed at one generation on a common
bucket have the same list; and a verification stamps a bare bucket only after
every bucket of its list has answered its read. -/
theorem stamps_agree (run : ℕ → TopologyConfig β) (topologyRun : TopologyRun sha256 run) :
    (∀ bucket now later old, now ≤ later → stampAt run bucket now = some (.stamp old) →
      ∃ new, stampAt run bucket later = some (.stamp new) ∧ old.generation ≤ new.generation) ∧
    (∀ bucket now later old new, stampAt run bucket now = some (.stamp old) →
      stampAt run bucket later = some (.stamp new) → old.generation = new.generation →
      old.buckets = new.buckets) ∧
    (∀ now thread call outcome, (run now).threads thread = some (call, .done (.ok outcome)) →
      ∃ start, Underway (topology sha256) run thread call start now ∧
        Reports sha256 run call start now outcome) ∧
    (∀ now now' thread thread' call call' generation bucket,
      Succeeds sha256 run now thread call generation bucket →
      Succeeds sha256 run now' thread' call' generation bucket →
      call.set.names = call'.set.names) ∧
    (∀ now thread set isAvailability op answer bucket,
      Performed (topology sha256) run thread now (.verify set isAvailability) op answer →
      stampAt run bucket now = none → stampAt run bucket (now + 1) ≠ none →
      ∃ start, Underway (topology sha256) run thread (.verify set isAvailability) start now ∧
        ∀ handle ∈ set.handles, ∃ found,
          Read sha256 run thread (.verify set isAvailability) start now handle.storage found) := by
  refine ⟨?_, ?_, ?_, ?_, ?_⟩
  · intro bucket now later old le held
    obtain ⟨new, after, rfl | raises⟩ := topologyRun.stamp_grows le held
    · exact ⟨new, after, le_rfl⟩
    · exact ⟨new, after, raises.le⟩
  · intro bucket now later old new held held' same
    rw [topologyRun.stamp_unique held held' same]
  · intro now thread call outcome finished
    exact topologyRun.reports finished
  · intro now now' thread thread' call call' generation bucket succeeds succeeds'
    obtain ⟨_, _, instant, _, _, held⟩ := succeeds.carried topologyRun
    obtain ⟨_, _, instant', _, _, held'⟩ := succeeds'.carried topologyRun
    exact congrArg TopologyStamp.buckets (topologyRun.stamp_unique held held' rfl)
  · intro now thread set isAvailability op answer bucket performed bare stamped
    obtain same | ⟨thread', call', body, answer', created, -⟩ | ⟨_, _, held, _⟩ :=
      topologyRun.stampAt_step bucket now
    · exact absurd (same.trans bare) stamped
    · obtain rfl := performed.unique created
      obtain ⟨_, task, _⟩ := performed
      have ⟨_, task', _⟩ := created
      rw [task] at task'
      cases task'
      obtain ⟨start, underway, -, read⟩ := topologyRun.permitted created
      exact ⟨start, underway, read set isAvailability rfl⟩
    · rw [bare] at held
      cases held

section Samples

def serveWith (serve : VersionedCell StampBody → (asked : VersionedCell.Request StampBody) →
      asked.Ans × VersionedCell StampBody) (store : TopologyStore β) :
    (op : TopologyOp β) → op.Ans × TopologyStore β
  | .topologyGeneration process => (store.generations process, store)
  | .setTopologyGeneration process generation =>
    ((), { store with generations := Function.update store.generations process (some generation) })
  | .stamp bucket asked =>
    ((serve (store.stamps bucket) asked).1,
      { store with
        stamps := Function.update store.stamps bucket (serve (store.stamps bucket) asked).2 })

theorem serveWith_sound {serve : VersionedCell StampBody → (asked : VersionedCell.Request StampBody) →
      asked.Ans × VersionedCell StampBody}
    (sound : ∀ cell asked, VersionedCell.Serves cell asked (serve cell asked).1
      (serve cell asked).2) (store : TopologyStore β) (op : TopologyOp β) :
    TopologyPerforms store op (serveWith serve store op).1 (serveWith serve store op).2 := by
  cases op with
  | topologyGeneration process => exact .topologyGeneration
  | setTopologyGeneration process generation => exact .setTopologyGeneration
  | stamp bucket asked => exact .stamp (sound _ _)

/-- Every request is answered. -/
def answering (thread : ℕ) : Move (@topology Bool _ id) :=
  .perform thread
    ⟨fun _ => serveWith VersionedCell.serve, fun _ => serveWith_sound VersionedCell.serves_serve⟩

/-- The request times out and is not carried out. -/
def timingOut (thread : ℕ) : Move (@topology Bool _ id) :=
  .perform thread ⟨fun _ => serveWith fun cell asked => (VersionedCell.fail "timeout" asked, cell),
    fun _ => serveWith_sound fun cell => VersionedCell.serves_fail cell "timeout"⟩

def twoBuckets : BucketSet Bool := ⟨[⟨false, "a", true⟩, ⟨true, "b", true⟩], 0, by simp⟩

/-- Every error counts as unavailability. -/
def startup : TopologyCall Bool := .verify twoBuckets fun _ _ => true

def bareBuckets : TopologyConfig Bool := ⟨⟨fun _ => .empty, fun _ => none⟩, fun _ => none⟩

def firstStart : ℕ → TopologyConfig Bool :=
  replay bareBuckets [.start 0 startup, answering 0, answering 0, answering 0, answering 0,
    answering 0, answering 0]

theorem firstStart_run : TopologyRun id firstStart := ⟨trace_replay _ _, fun _ => rfl⟩

/-- A first start stamps both of its buckets. -/
theorem firstStart_agrees :
    (firstStart 7).threads 0 = some (startup, .done (.ok (.report ⟨some 0, [], [0, 1], []⟩))) ∧
    ∃ start, Underway (topology id) firstStart 0 startup start 7 ∧
      Reports id firstStart startup start 7 (.report ⟨some 0, [], [0, 1], []⟩) := by
  have sorted : TopologyReport.finish ⟨none, [], [0, 1], []⟩ 0 = ⟨some 0, [], [0, 1], []⟩ := by
    simp [TopologyReport.finish]
  have finished : (firstStart 7).threads 0 =
      some (startup, .done (.ok (.report ⟨some 0, [], [0, 1], []⟩))) := by
    rw [← sorted]
    rfl
  exact ⟨finished, (stamps_agree id firstStart firstStart_run).2.2.1 7 0 startup _ finished⟩

/-- Both buckets answer their reads, but the write to the first times out. -/
def halfStartMoves : List (Move (@topology Bool _ id)) :=
  [.start 0 startup, answering 0, answering 0, answering 0, timingOut 0, answering 0, answering 0]

def halfStart : ℕ → TopologyConfig Bool := replay bareBuckets halfStartMoves

/-- The second bucket is stamped although the first did not answer. -/
theorem halfStart_stamps_bare : TopologyRun id halfStart ∧
    Performed (topology id) halfStart 0 4 startup
      (.stamp false (.putIfNoneMatch (.stamp (stampOf id twoBuckets 0)))) (.error "timeout") ∧
    stampAt halfStart true 5 = none ∧
    stampAt halfStart true 6 = some (.stamp (stampOf id twoBuckets 0)) ∧
    (halfStart 7).threads 0 = some (startup, .done (.ok (.report ⟨some 0, [], [1], [0]⟩))) := by
  have sorted : TopologyReport.finish ⟨none, [], [1], [0]⟩ 0 = ⟨some 0, [], [1], [0]⟩ := by
    simp [TopologyReport.finish]
  have next : halfStartMoves[4]? = some (timingOut 0) := rfl
  refine ⟨⟨trace_replay _ _, fun _ => rfl⟩, performed_replay next rfl, rfl, rfl, ?_⟩
  rw [← sorted]
  rfl

end Samples

end Pypiron.Topology
