import Pypiron.Quarantine.Forward

/-! The shared set against the durable statuses, on one bucket and without faults. A
writer stores the status, then publishes, then leaves a marker; a drain publishes what
the status says before it consumes a marker; a sweep republishes what it read. Once
nothing is in flight and no marker stands, the set holds exactly the names whose status
blocks downloads, unless a write landed that carried a status already rewritten. -/
namespace Pypiron.Quarantine
open Program ThreadPool
variable {ν : Type} [DecidableEq ν]

section Facts
variable (run : ℕ → FleetConfig Unit ν)

def setOf : Option Object → Finset String
  | some ⟨.stored value, _⟩ => value.quarantined
  | some ⟨.unreadable _, _⟩ | none => ∅

def setAt (now : ℕ) : Finset String := setOf ((run now).store.sets ())

/-- Whether the durable status blocks downloads. -/
def statusAt (now : ℕ) (name : String) : Bool :=
  blocksDownloads (((run now).store.statuses () name).getD default).status

/-- The durable write of a status. -/
def WritesStatus (name : String) (op : QuarantineOp Unit ν) : Prop :=
  op = .clearStatus () name ∨ ∃ doc, op = .writeStatus () name doc

/-- The thread has read this status of the name, since an instant. -/
def ReadStatus (thread since now : ℕ) (name : String) (blocked : Bool) : Prop :=
  ∃ instant call doc, since ≤ instant ∧ instant < now ∧
    Performed fleet run thread instant call (.readStatus () name) (.ok doc) ∧
    blocksDownloads doc.status = blocked

/-- What a thread knows of a status: it read it, or listed the statuses without it. -/
def Learned (thread now : ℕ) (name : String) (blocked : Bool) : Prop :=
  ReadStatus run thread 0 now name blocked ∨ blocked = false ∧ ∃ instant call names, instant < now ∧
    Performed fleet run thread instant call (.listStatuses ()) (.ok names) ∧ name ∉ names

def IsDrain (task : Task Unit) : Prop := ∃ replicas generation pkg, task = .drain replicas generation pkg

def IsWriter (name : String) (task : Task Unit) : Prop := ∃ replicas doc, task = .status replicas name doc

/-- The call wrote the status of the name that stands now. -/
def WroteLast (thread : ℕ) (call : Call Unit ν) (now : ℕ) (name : String) : Prop :=
  ∃ instant < now, ∃ op answer, Performed fleet run thread instant call op answer ∧
    WritesStatus name op ∧ ∀ between, instant < between → between < now →
      ∀ thread' call' op' answer', Performed fleet run thread' between call' op' answer' →
        ¬WritesStatus name op'

/-- A writer of the name has not come to its marker yet. -/
def WriterInFlight (now : ℕ) (name : String) : Prop :=
  ∃ thread call, InFlight run thread now call ∧ IsWriter name call.task

/-- A marker of the name stands, and no drain at work that listed it has read the
status it will publish. -/
def MarkerAhead (now : ℕ) (name : String) : Prop :=
  ∃ marker ∈ (run now).store.markers (), marker.pkg = name ∧ ∀ thread call instant listed,
    InFlight run thread now call → instant < now →
    Performed fleet run thread instant call (.listMarkers ()) (.ok listed) → marker ∈ listed →
      ∀ blocked, ¬ReadStatus run thread 0 now name blocked

/-- The repair a write may count on that moves a name by a status since rewritten: the
writer of the status that stands is in flight; or, where it is no sweep that takes the
name out, some writer of it is, or a marker is ahead. -/
def RepairAhead (now : ℕ) (task : Task Unit) (name : String) (blocked : Bool) : Prop :=
  (∃ writer call, WroteLast run writer call now name ∧ InFlight run writer now call) ∨
  (blocked = true ∨ IsDrain task) ∧ (WriterInFlight run now name ∨ MarkerAhead run now name)

/-- No write of a drain or a sweep lands that moves a name by a status it read before
the one that stands was written, unless its repair is ahead. -/
def NoStaleWrite (now : ℕ) : Prop :=
  ∀ thread call op answer etag value name blocked, Performed fleet run thread now call op answer →
    PutsOver () etag value op → (run now).store.sets () = etag →
    Learned run thread now name blocked → (name ∈ value.quarantined ↔ blocked = true) →
    ¬(name ∈ setOf etag ↔ blocked = true) → statusAt run now name ≠ blocked →
    RepairAhead run now call.task name blocked

/-- The calls of the protocol on one bucket, which has no peers, and those that do not
touch the set. -/
def StatusTask : Task Unit → Prop
  | .status [] _ _ | .drain [] _ _ | .audit [] | .poll | .reload _ => True
  | _ => False

/-- Writers, drains and sweeps of any nodes, each request of which is carried out, over
a set that starts in agreement. -/
structure StatusRun : Prop where
  fleetRun : FleetRun run
  tasks : ∀ now thread call program, (run now).threads thread = some (call, program) →
    StatusTask call.task
  served : ∀ thread now call op answer, Performed fleet run thread now call op answer →
    ∃ answer', Performed fleet run thread now call op answer' ∧
      Serves (run now).store op answer' (run (now + 1)).store
  stays : ∀ now thread, (run now).threads thread ≠ none → (run (now + 1)).threads thread ≠ none
  nonces : ∀ now marker, marker ∉ (run now).store.markers () →
    marker ∈ (run (now + 1)).store.markers () → ∀ earlier ≤ now, marker ∉ (run earlier).store.markers ()
  agrees : ∀ name, name ∈ setAt run 0 ↔ statusAt run 0 name = true

/-- No writer, drain or sweep is in flight, and no marker stands. -/
def Quiescent (now : ℕ) : Prop :=
  (∀ thread call, InFlight run thread now call → call.task = .poll ∨ ∃ zip, call.task = .reload zip) ∧
  (run now).store.markers () = ∅

/-- Whoever wrote the status that stands has finished. -/
def Completed (now : ℕ) (name : String) : Prop :=
  ∀ writer call, WroteLast run writer call now name → ¬InFlight run writer now call

structure AgreesWithStatus : Prop where
  quiescent : ∀ now, Quiescent run now → ∀ name, name ∈ setAt run now ↔ statusAt run now name = true
  /-- A sweep never un-blocks a package whose status write completed before. -/
  sweeps : ∀ now thread call op answer etag value name replicas,
    Performed fleet run thread now call op answer → PutsOver () etag value op →
    (run now).store.sets () = etag → call.task = .audit replicas → name ∈ setOf etag →
    statusAt run now name = true → Completed run now name → name ∈ value.quarantined

/-- A write moves a name for the writer of its status, or by what its thread learned. -/
def Carries (thread : ℕ) (call : Call Unit ν) (now : ℕ) (etag : Option Etag) (value : StoredQuarantined) :
    Prop :=
  (run now).store.sets () = etag → ∀ name, ¬(name ∈ value.quarantined ↔ name ∈ setOf etag) →
    IsWriter name call.task ∨
      ∃ blocked, Learned run thread now name blocked ∧ (name ∈ value.quarantined ↔ blocked = true)

/-- Markers are consumed that were listed before the status was read, after the set
was found or left as that status, or a later one, says. -/
def Drained (thread : ℕ) (call : Call Unit ν) (now : ℕ) (markers : List Marker) : Prop :=
  ∃ name listing listed first doc, Performed fleet run thread listing call (.listMarkers ()) (.ok listed) ∧
    (∀ marker ∈ markers, marker ∈ listed ∧ marker.pkg = name) ∧ listing < first ∧
    Performed fleet run thread first call (.readStatus () name) (.ok doc) ∧
    ∃ read agreed, first ≤ read ∧ read < now ∧ first < agreed ∧ agreed ≤ now ∧
      (name ∈ setAt run agreed ↔ statusAt run read name = true)

def Duty (thread : ℕ) (call : Call Unit ν) (now : ℕ) : QuarantineOp Unit ν → Prop
  | .putIfMatch _ etag value => Carries run thread call now (some etag) value
  | .putIfNoneMatch _ value => Carries run thread call now none value
  | .deleteMarkers _ markers => Drained run thread call now markers
  | .writeStatus _ name _ | .clearStatus _ name => IsWriter name call.task
  | _ => True

end Facts

section Steps
variable {world world' : World Unit ν} {op : QuarantineOp Unit ν} {answer : op.Ans}

theorem serves_statuses (serves : Serves world op answer world') (name : String) :
    world'.statuses () name = world.statuses () name ∨ WritesStatus name op := by
  cases serves with
  | @statusWritten bucket pkg doc =>
      by_cases here : name = pkg
      · subst here
        exact .inr (.inr ⟨doc, rfl⟩)
      · left
        simp [World.setStatus, here]
  | @statusCleared bucket pkg =>
      by_cases here : name = pkg
      · subst here
        exact .inr (.inl rfl)
      · left
        simp [World.setStatus, here]
  | _ => exact .inl rfl

theorem serves_markers (serves : Serves world op answer world') {marker : Marker}
    (stands : marker ∈ world.markers ()) :
    marker ∈ world'.markers () ∨ ∃ markers, marker ∈ markers ∧ op = .deleteMarkers () markers := by
  cases serves with
  | @marked pkg nonce bucket fresh =>
      left
      simp [World.setMarkers, stands]
  | @consumed bucket markers =>
      by_cases listed : marker ∈ markers
      · exact .inr ⟨markers, listed, rfl⟩
      · left
        simp [World.setMarkers, stands, listed]
  | _ => exact .inl stands

theorem serves_putMarker {pkg : String} {answer : Except String Unit}
    (serves : Serves world (.putMarker () pkg) answer world') : ∃ nonce,
      ⟨pkg, nonce⟩ ∉ world.markers () ∧ ⟨pkg, nonce⟩ ∈ world'.markers () := by
  cases serves with
  | marked fresh => exact ⟨_, fresh, by simp [World.setMarkers]⟩

theorem performs_listed {listed : List Marker}
    (performs : Performs world (.listMarkers ()) (.ok listed) world') :
    listed.toFinset = world.markers () := by
  generalize same : (.ok listed : Except String (List Marker)) = answer at performs
  cases performs with
  | served serves =>
      cases serves with
      | markers held =>
          cases same
          exact held
  | refused fails =>
      cases fails
      cases same
  | lost fails =>
      cases fails
      cases same

theorem performs_status {name : String} {doc : ProjectStatusDoc}
    (performs : Performs world (.readStatus () name) (.ok doc) world') :
    doc = (world.statuses () name).getD default := by
  generalize same : (.ok doc : Except String ProjectStatusDoc) = answer at performs
  cases performs with
  | served serves =>
      cases serves
      exact Except.ok.inj same
  | refused fails =>
      cases fails
      cases same
  | lost fails =>
      cases fails
      cases same

end Steps

section Knowledge
variable {run : ℕ → FleetConfig Unit ν} {thread : ℕ} {now later : ℕ} {name : String} {blocked : Bool}

theorem ReadStatus.mono {since : ℕ} (reads : ReadStatus run thread since now name blocked)
    (le : now ≤ later) : ReadStatus run thread since later name blocked := by
  obtain ⟨instant, call, doc, from_, before, performed, same⟩ := reads
  exact ⟨instant, call, doc, from_, before.trans_le le, performed, same⟩

theorem Learned.mono (learned : Learned run thread now name blocked) (le : now ≤ later) :
    Learned run thread later name blocked := by
  obtain reads | ⟨same, instant, call, names, before, performed, missing⟩ := learned
  · exact .inl (reads.mono le)
  · exact .inr ⟨same, instant, call, names, before.trans_le le, performed, missing⟩

theorem read_statusAt {call : Call Unit ν} {doc : ProjectStatusDoc}
    (performed : Performed fleet run thread now call (.readStatus () name) (.ok doc)) :
    statusAt run now name = blocksDownloads doc.status := by
  have ⟨_, _, performs, _⟩ := performed
  rw [performs_status performs]
  rfl

omit [DecidableEq ν] in
theorem epochAt_mono (sound : Sound run later) (le : now ≤ later) :
    epochAt run now () ≤ epochAt run later () := by
  match held : (run now).store.sets () with
  | some ⟨.stored value, revision⟩ =>
      have stands : Stands run now () value := ⟨revision, held⟩
      rw [stands_epochAt stands]
      exact stored_le_epochAt sound ⟨now, le, (), stands⟩
  | some ⟨.unreadable _, _⟩ | none =>
      rw [epochAt, held]
      exact Nat.zero_le _

omit [DecidableEq ν] in
/-- No node is ahead of the only bucket. -/
theorem live_le_epochAt (sound : Sound run now) (node : ν) :
    ((run now).store.slots node).quarantinedEpoch ≤ epochAt run now () := by
  obtain zero | ⟨value, stored, same⟩ := sound.epochs node
  · rw [zero]
    exact Nat.zero_le _
  · rw [← same]
    exact stored_le_epochAt sound stored

end Knowledge

section Programs
variable {run : ℕ → FleetConfig Unit ν} {thread : ℕ} {call : Call Unit ν} {instant : ℕ} {γ : Type}

/-- The thread makes the rest of its operations as the protocol asks. -/
abbrev Meets (run : ℕ → FleetConfig Unit ν) (thread : ℕ) (call : Call Unit ν) (post : ℕ → γ → Prop)
    (instant : ℕ) (program : QuarantineM Unit ν γ) : Prop :=
  Secure fleet run (fun _ => True) (fun _ _ _ => True) (fun now op _ => Duty run thread call now op)
    thread call post instant program

/-- One request, known to have been made. -/
theorem meets_request {op : QuarantineOp Unit ν} {result : op.Ans → Except String γ}
    (free : ∀ now, instant ≤ now → Duty run thread call now op) :
    Meets run thread call (fun later value => ∃ now answer, later = now + 1 ∧ instant ≤ now ∧
      Performed fleet run thread now call op answer ∧ result answer = .ok value)
      instant (.call op fun answer => done (result answer)) := by
  intro now quiet _ answer performed _
  refine ⟨free now quiet.1, fun _ => ?_⟩
  dsimp only
  cases same : result answer with
  | error error => trivial
  | ok value => exact ⟨now, answer, rfl, quiet.1, performed, same⟩

theorem meets_readState {node : ν} (sound : ∀ now, Sound run now) :
    Meets run thread call (fun later state => instant ≤ later ∧ ∃ now, now < later ∧ instant ≤ now ∧
      state.quarantinedEpoch ≤ epochAt run now ()) instant (readState node) := by
  refine Secure.weaken (meets_request fun _ _ => trivial) ?_
  rintro later le state ⟨now, answer, rfl, from_, performed, same⟩
  cases same
  have ⟨_, _, performs, _⟩ := performed
  refine ⟨le, now, Nat.lt_succ_self now, from_, ?_⟩
  rw [performs_state performs]
  exact live_le_epochAt (sound now) node

theorem meets_adopt {node : ν} {set : Finset String} {epoch : ℕ} {etag : Option (Option Etag)} :
    Meets run thread call (fun _ _ => True) instant (adopt node set epoch etag) :=
  fun _ _ _ _ _ _ => ⟨trivial, fun _ => trivial⟩

/-- What the thread must know of an edit; `first` is when its status was read. -/
def Knows (run : ℕ → FleetConfig Unit ν) (thread : ℕ) (call : Call Unit ν) (first now : ℕ) :
    QuarantinedEdit → Prop
  | .one name _ => IsWriter name call.task
  | .derive name blocked => first < now ∧ statusAt run first name = blocked ∧
      ReadStatus run thread first now name blocked
  | .sweep set _ _ => ∀ name, Learned run thread now name (Decidable.decide (name ∈ set))

/-- What a finished publish of an edit leaves behind. -/
def Confirmed (run : ℕ → FleetConfig Unit ν) (first now : ℕ) : QuarantinedEdit → Prop
  | .derive name _ => ∃ read agreed, first ≤ read ∧ read < now ∧ first < agreed ∧ agreed ≤ now ∧
      (name ∈ setAt run agreed ↔ statusAt run read name = true)
  | .one .. | .sweep .. => True

/-- The next set moves names as the edit may, and takes the derived one to a status. -/
def Moves (run : ℕ → FleetConfig Unit ν) (thread : ℕ) (call : Call Unit ν) (first now : ℕ)
    (edit : QuarantinedEdit) (standing next : Finset String) : Prop :=
  (∀ name, ¬(name ∈ next ↔ name ∈ standing) → IsWriter name call.task ∨
    ∃ blocked, Learned run thread now name blocked ∧ (name ∈ next ↔ blocked = true)) ∧
  match edit with
  | .derive name _ => ∃ read, first ≤ read ∧ read < now ∧
      (name ∈ next ↔ statusAt run read name = true)
  | .one .. | .sweep .. => True

theorem mem_withName {set : Finset String} {name other : String} {blocked : Bool} :
    other ∈ withName set name blocked ↔ if other = name then blocked = true else other ∈ set := by
  unfold withName
  split <;> split <;> simp_all

theorem meets_nextOf {first : ℕ} {edit : QuarantinedEdit} {current : Current}
    {standing : Finset String} (knows : Knows run thread call first instant edit) :
    Meets run thread call (fun later next => Moves run thread call first later edit standing next)
      instant (nextOf () edit current standing) := by
  cases edit with
  | one name blocked =>
      refine ⟨fun other moved => .inl ?_, trivial⟩
      rw [mem_withName] at moved
      split at moved
      next same =>
        rw [same]
        exact knows
      next => exact absurd Iff.rfl moved
  | derive name blocked =>
      obtain ⟨before, says_, reads⟩ := knows
      have derived {later : ℕ} {blocked : Bool} (reads : ReadStatus run thread first later name blocked)
          (read : ∃ read, first ≤ read ∧ read < later ∧ statusAt run read name = blocked) :
          Moves run thread call first later (.derive name blocked) standing
            (withName standing name blocked) := by
        refine ⟨fun other moved => .inr ?_, ?_⟩
        · rw [mem_withName] at moved
          split at moved
          next same =>
            subst same
            obtain ⟨instant, call, doc, from_, before, performed, same⟩ := reads
            refine ⟨blocked, .inl ⟨instant, call, doc, Nat.zero_le _, before, performed, same⟩, ?_⟩
            rw [mem_withName, if_pos rfl]
          next => exact absurd Iff.rfl moved
        · obtain ⟨read, from_, before, same⟩ := read
          refine ⟨read, from_, before, ?_⟩
          rw [mem_withName, if_pos rfl, same]
      unfold nextOf
      dsimp only
      split
      next confirmed =>
        have moves := derived reads ⟨first, le_rfl, before, says_⟩
        rw [confirmed] at moves
        exact moves
      next =>
        refine Secure.bind trivial (meets_request fun _ _ => trivial) ?_
        rintro later le - doc ⟨now, answer, rfl, from_, performed, rfl⟩
        refine derived ⟨now, call, doc, by omega, Nat.lt_succ_self now, performed, rfl⟩ ?_
        exact ⟨now, by omega, Nat.lt_succ_self now, read_statusAt performed⟩
  | sweep set baseSet baseEpoch =>
      refine ⟨fun name moved => .inr ⟨Decidable.decide (name ∈ set), knows name, ?_⟩, trivial⟩
      rw [decide_eq_true_eq]
      unfold mergeSweep at moved ⊢
      split at moved
      next plain => rw [if_pos plain]
      next merges =>
        rw [if_neg merges]
        simp only [Finset.mem_sdiff, Finset.mem_union] at moved ⊢
        tauto

theorem setOf_stored {found : Option Object} {edit : QuarantinedEdit} {current : Current}
    (chosen : currentOf edit found = .ok current) : current.stored.quarantined = setOf found := by
  match found with
  | none =>
      cases chosen
      rfl
  | some ⟨.stored stored, revision⟩ =>
      cases chosen
      rfl
  | some ⟨.unreadable error, revision⟩ =>
      unfold currentOf at chosen
      dsimp only at chosen
      split at chosen
      next =>
        cases chosen
        rfl
      next => cases chosen

/-- The set an edit is applied to is the one read, unless the node knew a newer epoch. -/
theorem meets_haveOf {edit : QuarantinedEdit} {current : Current} (sound : ∀ now, Sound run now) :
    Meets run thread call (fun later (have_ : Finset String × Bool) =>
      have_ = (current.stored.quarantined, false) ∨
      have_.2 = true ∧ ∃ now, now < later ∧ instant ≤ now ∧ current.stored.epoch < epochAt run now ())
      instant (haveOf call.node edit current) := by
  refine Secure.bind trivial (meets_readState sound) fun later _ _ live live_ => ?_
  obtain ⟨le, now, before, from_, bounded⟩ := live_
  split
  next behind =>
    refine Secure.bind trivial (meets_readState sound) fun after le' _ live' _ => ?_
    exact .inr ⟨rfl, now, by omega, from_, behind.1.trans_le bounded⟩
  next => exact .inl rfl

/-- A conditional write, whose etag says that it landed. -/
theorem meets_putOver {etag : Option Etag} {value : StoredQuarantined}
    (carries : ∀ now, instant ≤ now → Carries run thread call now etag value) :
    Meets run thread call (fun later landed => landed.isSome →
      instant < later ∧ setAt run later = value.quarantined) instant (putOver () etag value) := by
  cases etag with
  | some etag =>
      refine Secure.weaken (meets_request carries) ?_
      rintro later - landed ⟨now, answer, rfl, from_, performed, rfl⟩ lands
      have ⟨_, _, performs, _⟩ := performed
      obtain ⟨etag', rfl⟩ := Option.isSome_iff_exists.mp lands
      obtain ⟨revision, held⟩ := performs_put (some etag) rfl performs HEq.rfl
      exact ⟨Nat.lt_succ_of_le from_, by rw [setAt, held]; rfl⟩
  | none =>
      refine Secure.weaken (meets_request carries) ?_
      rintro later - landed ⟨now, answer, rfl, from_, performed, rfl⟩ lands
      have ⟨_, _, performs, _⟩ := performed
      obtain ⟨etag', rfl⟩ := Option.isSome_iff_exists.mp lands
      obtain ⟨revision, held⟩ := performs_put none rfl performs HEq.rfl
      exact ⟨Nat.lt_succ_of_le from_, by rw [setAt, held]; rfl⟩

theorem meets_publishAttempts (sound : ∀ now, Sound run now) {first : ℕ}
    {edit : QuarantinedEdit} (attempts : ℕ) (knows : ∀ later, instant ≤ later →
      Knows run thread call first later edit) :
    Meets run thread call (fun later _ => Confirmed run first later edit) instant
      (publishAttempts () [] call.node edit attempts) := by
  induction attempts generalizing instant with
  | zero => trivial
  | succ attempts ih =>
      refine Secure.bind trivial (meets_request fun _ _ => trivial) ?_
      rintro later - - found ⟨seen, answer, rfl, from_, performed, rfl⟩
      have ⟨_, _, performs, _⟩ := performed
      have held : (run seen).store.sets () = found := performs_got performs
      have chooses : Meets run thread call (fun _ current => currentOf edit found = .ok current)
          (seen + 1) (.done (currentOf edit found)) := by
        cases same : currentOf edit found with
        | error error => trivial
        | ok current => exact rfl
      refine Secure.bind trivial chooses fun later le _ current chosen => ?_
      obtain ⟨token, older, -⟩ := currentOf_ok chosen
      have read := setOf_stored chosen
      refine Secure.bind trivial (meets_haveOf sound) ?_
      rintro later' le' - ⟨standing, behind⟩ stood
      refine Secure.bind trivial (meets_nextOf (knows later' (by omega))) ?_
      intro after le'' _ next moves
      split
      next unchanged =>
        obtain ⟨same, current_⟩ := unchanged
        have stands : standing = setOf found := by
          obtain same | ⟨behind_, -⟩ := stood
          · cases same
            exact read
          · exact absurd behind_ current_
        refine Secure.bind trivial meets_adopt fun last le3 _ _ _ => ?_
        cases edit with
        | derive name blocked =>
            obtain ⟨read, from', before, same'⟩ := moves.2
            refine ⟨read, seen, from', by omega, ?_, by omega, ?_⟩
            · have := (knows instant le_rfl).1
              omega
            · rw [← same', same, stands, setAt, held]
        | one | sweep => trivial
      next =>
        refine Secure.bind trivial (meets_readState sound) fun chosen le3 _ live _ => ?_
        refine Secure.bind trivial (meets_putOver fun now from_ same name moved => ?_) ?_
        · -- a node that knew a newer epoch loses the conditional write
          have stands : standing = setOf current.etag := by
            obtain same' | ⟨-, instant, before, -, newer⟩ := stood
            · cases same'
              rw [read, token]
            · have grows := epochAt_mono (sound now) (show instant ≤ now by omega)
              rw [older, ← token, ← same] at newer
              exact absurd newer (Nat.not_lt_of_le grows)
          rw [← stands] at moved
          obtain mine | ⟨blocked, learned, same'⟩ := moves.1 name moved
          · exact .inl mine
          · exact .inr ⟨blocked, learned.mono (by omega), same'⟩
        · intro landed le4 _ answer lands
          match answer with
          | none => exact ih fun later le5 => knows later (by omega)
          | some _ =>
              obtain ⟨before, holds⟩ := lands rfl
              have peers (value : StoredQuarantined) : Meets run thread call (fun _ _ => True) landed
                  (seedPeers value []) := trivial
              refine Secure.bind trivial (peers _) fun seeded le5 _ _ _ => ?_
              refine Secure.bind trivial meets_adopt fun last le6 _ _ _ => ?_
              cases edit with
              | derive name blocked =>
                  obtain ⟨read, from', before', same'⟩ := moves.2
                  refine ⟨read, landed, from', by omega, ?_, le5.trans le6, by rw [← same', holds]⟩
                  have := (knows instant le_rfl).1
                  omega
              | one | sweep => trivial

theorem meets_publish (sound : ∀ now, Sound run now) {first : ℕ}
    {edit : QuarantinedEdit} (knows : ∀ later, instant ≤ later → Knows run thread call first later edit) :
    Meets run thread call (fun later _ => Confirmed run first later edit) instant
      (publishQuarantined () [] call.node edit) :=
  meets_publishAttempts sound quarantinedCasAttempts knows

/-- Nothing is promised after an attempt but what it has done. -/
theorem meets_attempt {δ : Type} {program : QuarantineM Unit ν γ}
    {rest : Except String γ → QuarantineM Unit ν δ} {post : ℕ → γ → Prop}
    (first : Meets run thread call post instant program)
    (second : ∀ later result, Meets run thread call (fun _ _ => True) later (rest result)) :
    Meets run thread call (fun _ _ => True) instant (program.attempt rest) :=
  Secure.attempt trivial first (fun later _ _ error => second later (.error error))
    fun later _ _ value _ => second later (.ok value)

theorem meets_poll (sound : ∀ now, Sound run now) :
    Meets run thread call (fun _ _ => True) instant (pollQuarantined () call.node) := by
  have reloads : Meets run thread call (fun _ _ => True) instant (reloadQuarantined () call.node) := by
    refine Secure.bind trivial (meets_request fun _ _ => trivial) fun _ _ _ etag _ => ?_
    refine Secure.bind trivial (meets_readState sound) fun _ _ _ loaded _ => ?_
    split
    next => trivial
    next =>
      split
      next => trivial
      next =>
        refine Secure.bind trivial (meets_request fun _ _ => trivial) fun _ _ _ body _ => ?_
        cases body with
        | unreadable error => trivial
        | stored value => exact Secure.bind trivial meets_adopt fun _ _ _ _ _ => trivial
  exact meets_attempt reloads fun _ _ => trivial

theorem meets_status (sound : ∀ now, Sound run now) {pkg : String}
    {doc : ProjectStatusDoc} (mine : IsWriter pkg call.task) :
    Meets run thread call (fun _ _ => True) instant (writeProjectStatus () [] call.node pkg doc) := by
  have arms (later : ℕ) : Meets run thread call (fun _ _ => True) later
      (armQuarantine () [] call.node pkg (blocksDownloads doc.status)) := by
    intro now quiet _ _ _ _
    have knows (later : ℕ) (_ : now + 1 ≤ later) :
        Knows run thread call 0 later (.one pkg (blocksDownloads doc.status)) := mine
    exact ⟨trivial, fun _ => Secure.weaken (meets_publish sound knows) fun _ _ _ _ => trivial⟩
  have shares (later : ℕ) : Meets run thread call (fun _ _ => True) later
      (shareStatus () [] call.node pkg (blocksDownloads doc.status)) := by
    refine meets_attempt (arms later) fun later published => ?_
    refine meets_attempt (meets_request fun _ _ => trivial) fun later committed => ?_
    cases committed <;> cases published <;> trivial
  unfold writeProjectStatus
  dsimp only
  split
  all_goals exact Secure.bind trivial (meets_request fun _ _ => mine) fun later _ _ _ _ => shares later

theorem meets_drain (sound : ∀ now, Sound run now) {generation : ℕ}
    {pkg : String} :
    Meets run thread call (fun _ _ => True) instant (drainPackage () [] call.node generation pkg) := by
  refine Secure.bind trivial (meets_request fun _ _ => trivial) ?_
  rintro later - - listed ⟨listing, answer, rfl, -, listing_, rfl⟩
  dsimp only
  split
  next => trivial
  next =>
    refine Secure.bind trivial (meets_request fun _ _ => trivial) ?_
    rintro later - - doc ⟨first, answer, rfl, after, reading, rfl⟩
    refine Secure.bind trivial (meets_request fun _ _ => trivial) fun later le _ _ _ => ?_
    have knows (now : ℕ) (from_ : later ≤ now) :
        Knows run thread call first now (.derive pkg (blocksDownloads doc.status)) := by
      refine ⟨by omega, read_statusAt reading, ?_⟩
      exact ⟨first, call, doc, le_rfl, by omega, reading, rfl⟩
    refine Secure.bind trivial (meets_publish sound knows) ?_
    rintro now le' - ⟨⟩ ⟨read, agreed, from_, before, from', upto, same⟩
    refine meets_attempt (meets_request fun now' le'' => ?_) fun _ _ => trivial
    refine ⟨pkg, listing, listed, first, doc, listing_, fun marker member => ?_, by omega, reading, read,
      agreed, from_, by omega, from', by omega, same⟩
    obtain ⟨member, same⟩ := List.mem_filter.mp member
    exact ⟨member, of_decide_eq_true same⟩

theorem meets_sweepStatuses (names : List String) :
    Meets run thread call (fun later set => ∀ name, name ∈ names ∨ name ∈ set →
      Learned run thread later name (Decidable.decide (name ∈ set))) instant (sweepStatuses () names) := by
  induction names generalizing instant with
  | nil =>
      intro name member
      simp at member
  | cons pkg rest ih =>
      refine Secure.bind trivial (meets_request fun _ _ => trivial) ?_
      rintro later - - doc ⟨now, answer, rfl, -, performed, rfl⟩
      refine Secure.bind trivial ih fun later le _ set learned => ?_
      have read : Learned run thread later pkg (blocksDownloads doc.status) :=
        .inl ⟨now, call, doc, Nat.zero_le _, le, performed, rfl⟩
      intro name member
      by_cases again : name ∈ rest ∨ name ∈ set
      · have learned := learned name again
        split
        next blocks =>
          by_cases same : name = pkg
          · subst same
            rw [blocks] at read
            simpa using read
          · simpa [same] using learned
        next => exact learned
      · obtain ⟨unread, out⟩ := not_or.mp again
        obtain rfl : name = pkg := by
          split at member <;> simp_all
        split
        next blocks =>
          rw [blocks] at read
          simpa using read
        next open_ =>
          rw [Bool.eq_false_of_not_eq_true open_] at read
          simpa [out] using read

theorem meets_audit (sound : ∀ now, Sound run now) :
    Meets run thread call (fun _ _ => True) instant (audit () [] call.node) := by
  have reads : Meets run thread call (fun _ _ => True) instant (storedQuarantined ()) := by
    refine Secure.bind trivial (meets_request fun _ _ => trivial) fun _ _ _ found _ => ?_
    match found with
    | none => trivial
    | some ⟨.stored value, _⟩ => trivial
    | some ⟨.unreadable _, _⟩ => trivial
  refine meets_attempt reads fun later base => ?_
  refine Secure.bind trivial (meets_request fun _ _ => trivial) ?_
  rintro later - - names ⟨listing, answer, rfl, -, performed, rfl⟩
  refine Secure.bind trivial (meets_sweepStatuses names) fun later le _ set learned => ?_
  cases base with
  | error error => trivial
  | ok base =>
      have knows (now : ℕ) (from_ : later ≤ now) :
          Knows run thread call 0 now (.sweep set base.1 base.2) := by
        intro name
        by_cases known : name ∈ names ∨ name ∈ set
        · exact (learned name known).mono from_
        · obtain ⟨unlisted, out⟩ := not_or.mp known
          exact .inr ⟨decide_eq_false out, listing, call, names, by omega, performed, unlisted⟩
      exact meets_attempt (meets_publish sound knows) fun _ _ => trivial

theorem meets_program (sound : ∀ now, Sound run now) (thread : ℕ)
    (call : Call Unit ν) (status : StatusTask call.task) :
    Meets run thread call (fun _ _ => True) instant (fleet.program call) := by
  obtain ⟨node, storage, task⟩ := call
  match task, status with
  | .poll, _ => exact meets_poll sound
  | .reload zipSha256, _ => exact fun _ _ _ _ _ _ => ⟨trivial, fun _ => trivial⟩
  | .status [] pkg doc, _ => exact meets_status sound ⟨[], doc, rfl⟩
  | .drain [] generation pkg, _ => exact meets_drain sound
  | .audit [], _ => exact meets_audit sound

end Programs

section Runs
variable {run : ℕ → FleetConfig Unit ν} {now later : ℕ} {name : String}

theorem StatusRun.duty (statusRun : StatusRun run) (sound : ∀ now, Sound run now) {thread : ℕ}
    {call : Call Unit ν} {op : QuarantineOp Unit ν} {answer : op.Ans}
    (performed : Performed fleet run thread now call op answer) : Duty run thread call now op := by
  refine (statusRun.fleetRun.trace.guaranteed statusRun.fleetRun.idle (fun _ => True) (Duty run)
    trivial (fun _ _ _ => trivial) ?_ now).2 thread call op answer performed
  exact fun thread start call _ task =>
    meets_program sound thread call (statusRun.tasks start thread call _ task)

/-- A status moves only as it is written. -/
theorem StatusRun.status_step (statusRun : StatusRun run) (now : ℕ) (name : String) :
    statusAt run (now + 1) name = statusAt run now name ∨ ∃ thread call op answer,
      Performed fleet run thread now call op answer ∧ WritesStatus name op := by
  obtain ⟨thread, call, op, answer, performed⟩ | stays := store_step statusRun.fleetRun.trace now
  · obtain ⟨_, _, serves⟩ := statusRun.served _ _ _ _ _ performed
    obtain same | writes := serves_statuses serves name
    · left
      rw [statusAt, statusAt, same]
    · exact .inr ⟨thread, call, op, answer, performed, writes⟩
  · left
    rw [statusAt, statusAt, stays]

/-- A marker stands until it is consumed. -/
theorem StatusRun.marker_step (statusRun : StatusRun run) {marker : Marker}
    (stands : marker ∈ (run now).store.markers ()) :
    marker ∈ (run (now + 1)).store.markers () ∨ ∃ thread call markers answer,
      Performed fleet run thread now call (.deleteMarkers () markers) answer ∧ marker ∈ markers := by
  obtain ⟨thread, call, op, answer, performed⟩ | stays := store_step statusRun.fleetRun.trace now
  · obtain ⟨_, _, serves⟩ := statusRun.served _ _ _ _ _ performed
    obtain same | ⟨markers, member, rfl⟩ := serves_markers serves stands
    · exact .inl same
    · exact .inr ⟨thread, call, markers, answer, performed, member⟩
  · left
    rw [stays]
    exact stands

/-- Before a bound, something last happened, or never did. -/
theorem last_before (happens : ℕ → Prop) (bound : ℕ) : (∀ now < bound, ¬happens now) ∨
    ∃ last < bound, happens last ∧ ∀ now, last < now → now < bound → ¬happens now := by
  induction bound with
  | zero => exact .inl fun now before => absurd before (Nat.not_lt_zero now)
  | succ bound ih =>
      by_cases latest : happens bound
      · exact .inr ⟨bound, Nat.lt_succ_self bound, latest, fun now after before => by omega⟩
      · obtain never | ⟨last, before, happened, since⟩ := ih
        · refine .inl fun now before => ?_
          obtain earlier | rfl := Nat.lt_succ_iff_lt_or_eq.mp before
          · exact never now earlier
          · exact latest
        · refine .inr ⟨last, Nat.lt_succ_of_lt before, happened, fun now after before => ?_⟩
          obtain earlier | rfl := Nat.lt_succ_iff_lt_or_eq.mp before
          · exact since now after earlier
          · exact latest

/-- A status nobody wrote in between is the same. -/
theorem StatusRun.status_between (statusRun : StatusRun run) (le : now ≤ later)
    (unwritten : ∀ between, now ≤ between → between < later → ∀ thread call op answer,
      Performed fleet run thread between call op answer → ¬WritesStatus name op) :
    statusAt run later name = statusAt run now name := by
  induction later, le using Nat.le_induction with
  | base => rfl
  | succ later le ih =>
      have before := ih fun between from_ upto => unwritten between from_ (Nat.lt_succ_of_lt upto)
      obtain same | ⟨thread, call, op, answer, performed, writes⟩ := statusRun.status_step later name
      · exact same.trans before
      · exact absurd writes (unwritten later le (Nat.lt_succ_self later) thread call op answer performed)

/-- A marker that stands and later does not was consumed in between. -/
theorem StatusRun.consumed (statusRun : StatusRun run) {marker : Marker} (le : now ≤ later)
    (stands : marker ∈ (run now).store.markers ()) (gone : marker ∉ (run later).store.markers ()) :
    ∃ instant thread call markers answer, now ≤ instant ∧ instant < later ∧
      Performed fleet run thread instant call (.deleteMarkers () markers) answer ∧ marker ∈ markers := by
  have going : marker ∈ (run later).store.markers () ∨ ∃ instant thread call markers answer,
      now ≤ instant ∧ instant < later ∧
      Performed fleet run thread instant call (.deleteMarkers () markers) answer ∧ marker ∈ markers := by
    clear gone
    induction later, le using Nat.le_induction with
    | base => exact .inl stands
    | succ later le ih =>
        obtain still | ⟨instant, thread, call, markers, answer, from_, before, performed, member⟩ := ih
        · obtain still | ⟨thread, call, markers, answer, performed, member⟩ := statusRun.marker_step still
          · exact .inl still
          · exact .inr ⟨later, thread, call, markers, answer, le, Nat.lt_succ_self later, performed, member⟩
        · exact .inr ⟨instant, thread, call, markers, answer, from_, Nat.lt_succ_of_lt before, performed,
            member⟩
  exact going.resolve_left gone

/-- A writer's call ends with its marker. -/
def ClosesWith (call : Call Unit ν) (op : QuarantineOp Unit ν) (_ : op.Ans) : Prop :=
  ∀ name, IsWriter name call.task → op = .putMarker () name

theorem closes_shareStatus (node : ν) (storage : Unit) (replicas : List Unit) (pkg : String)
    (doc : ProjectStatusDoc) :
    Program.Closes (fun op answer => ∃ world world' : World Unit ν, Serves world op answer world')
      (ClosesWith ⟨node, storage, .status replicas pkg doc⟩)
      (shareStatus storage replicas node pkg (blocksDownloads doc.status)) ∧
    ∀ final, shareStatus storage replicas node pkg (blocksDownloads doc.status) ≠ done final := by
  refine Program.Closes.attempt (fun published answer _ => ⟨fun _ name mine => ?_, ?_⟩) ?_
  · obtain ⟨_, _, same⟩ := mine
    cases same
    rfl
  · dsimp only
    cases answer <;> cases published <;> trivial
  · intro published final finished
    cases finished

theorem closes_program (call : Call Unit ν) :
    Program.Closes (fun op answer => ∃ world world' : World Unit ν, Serves world op answer world')
      (ClosesWith call) (fleet.program call) := by
  by_cases writes : ∃ name, IsWriter name call.task
  · obtain ⟨pkg, replicas, doc, same⟩ := writes
    obtain ⟨node, storage, task⟩ := call
    cases same
    have shares := closes_shareStatus node storage replicas pkg doc
    show Program.Closes _ _ (writeProjectStatus storage replicas node pkg doc)
    unfold writeProjectStatus
    dsimp only
    split
    all_goals
      rintro answer ⟨world, world', serves⟩
      cases serves
      exact ⟨fun ⟨final, finished⟩ => absurd finished (shares.2 final), shares.1⟩
  · exact Program.Closes.of_all (fun op answer name mine => absurd ⟨name, mine⟩ writes) _

theorem StatusRun.writer_marks (statusRun : StatusRun run) {thread : ℕ} {call : Call Unit ν}
    (working : InFlight run thread now call) (mine : IsWriter name call.task)
    (quiescent : Quiescent run later) (le : now ≤ later) : ∃ instant answer, now ≤ instant ∧
      instant < later ∧ Performed fleet run thread instant call (.putMarker () name) answer := by
  have finished : ¬InFlight run thread later call := by
    intro still
    obtain ⟨_, _, task⟩ := mine
    obtain idle | ⟨_, idle⟩ := quiescent.1 thread call still
    · cases task.symm.trans idle
    · cases task.symm.trans idle
  obtain ⟨instant, op, answer, from_, before, performed, closes⟩ :=
    statusRun.fleetRun.trace.closes statusRun.stays
      (fun _ _ _ _ _ performed =>
        (statusRun.served _ _ _ _ _ performed).imp fun _ ⟨performed, serves⟩ => ⟨performed, _, _, serves⟩)
      statusRun.fleetRun.idle closes_program working le finished
  cases closes name mine
  exact ⟨instant, answer, from_, before, performed⟩

/-- The drain that consumes a marker listed it, then read the status. -/
theorem StatusRun.drained (statusRun : StatusRun run) (sound : ∀ now, Sound run now) {marker : Marker}
    (stands : marker ∈ (run now).store.markers ()) (le : now ≤ later) (quiescent : Quiescent run later) :
    ∃ instant thread call listing listed first doc, now ≤ instant ∧ instant < later ∧
      InFlight run thread instant call ∧ listing < instant ∧
      Performed fleet run thread listing call (.listMarkers ()) (.ok listed) ∧ marker ∈ listed ∧
      marker ∈ (run listing).store.markers () ∧ listing < first ∧ first < instant ∧
      Performed fleet run thread first call (.readStatus () marker.pkg) (.ok doc) ∧
      ∃ read agreed, first ≤ read ∧ read < instant ∧ first < agreed ∧ agreed ≤ instant ∧
        (marker.pkg ∈ setAt run agreed ↔ statusAt run read marker.pkg = true) := by
  have gone : marker ∉ (run later).store.markers () := by
    rw [quiescent.2]
    exact Finset.notMem_empty marker
  obtain ⟨instant, thread, call, markers, answer, from_, before, performed, member⟩ :=
    statusRun.consumed le stands gone
  have duty : Drained run thread call instant markers := statusRun.duty sound performed
  obtain ⟨name, listing, listed, first, doc, lists, known, after, reading, read, agreed, from', before',
    from'', upto, same⟩ := duty
  obtain ⟨member, rfl⟩ := known marker member
  refine ⟨instant, thread, call, listing, listed, first, doc, from_, before, performed.inFlight,
    by omega, lists, member, ?_, after, by omega, reading, read, agreed, from', before', from'', upto, same⟩
  have ⟨_, _, performs, _⟩ := lists
  rw [← performs_listed performs]
  exact List.mem_toFinset.mpr member

/-- After a writer's marker, the set once agrees with a status read later still. -/
theorem StatusRun.agrees_after (statusRun : StatusRun run) (sound : ∀ now, Sound run now) {thread : ℕ}
    {call : Call Unit ν} {answer : Except String Unit}
    (marked : Performed fleet run thread now call (.putMarker () name) answer) (before : now < later)
    (quiescent : Quiescent run later) : ∃ read agreed, now < read ∧ read < later ∧ now < agreed ∧
      agreed ≤ later ∧ (name ∈ setAt run agreed ↔ statusAt run read name = true) := by
  obtain ⟨_, _, serves⟩ := statusRun.served _ _ _ _ _ marked
  obtain ⟨nonce, fresh, stands⟩ := serves_putMarker serves
  obtain ⟨instant, _, _, listing, _, first, _, _, upto, _, _, _, _, stood, after, _, _, read, agreed,
    from_, before', from', upto', same⟩ := statusRun.drained sound stands before quiescent
  have later_ : now < listing := by
    by_contra early
    exact statusRun.nonces now _ fresh stands listing (Nat.le_of_not_lt early) stood
  exact ⟨read, agreed, by omega, by omega, by omega, by omega, same⟩

theorem StatusRun.writes_own (statusRun : StatusRun run) (sound : ∀ now, Sound run now) {thread : ℕ}
    {call : Call Unit ν} {op : QuarantineOp Unit ν} {answer : op.Ans}
    (performed : Performed fleet run thread now call op answer) (writes : WritesStatus name op) :
    IsWriter name call.task := by
  have duty := statusRun.duty sound performed
  obtain rfl | ⟨doc, rfl⟩ := writes
  · exact duty
  · exact duty

/-- What a landed write owes of the names it moves. -/
theorem StatusRun.carries (statusRun : StatusRun run) (sound : ∀ now, Sound run now) {thread : ℕ}
    {call : Call Unit ν} {op : QuarantineOp Unit ν} {answer : op.Ans} {etag : Option Etag}
    {value : StoredQuarantined} (performed : Performed fleet run thread now call op answer)
    (puts : PutsOver () etag value op) : Carries run thread call now etag value := by
  have duty := statusRun.duty sound performed
  cases etag with
  | some etag =>
      cases puts
      exact duty
  | none =>
      cases puts
      exact duty

/-- Since some instant the status is what it is now, and the set has once said so. -/
theorem StatusRun.settled (statusRun : StatusRun run) (sound : ∀ now, Sound run now)
    (quiescent : Quiescent run now) (name : String) : ∃ since, since ≤ now ∧
      (∀ instant, since ≤ instant → instant ≤ now → statusAt run instant name = statusAt run now name) ∧
      ∃ agreed, since ≤ agreed ∧ agreed ≤ now ∧
        (name ∈ setAt run agreed ↔ statusAt run now name = true) := by
  obtain never | ⟨last, before, ⟨thread, call, op, answer, performed, writes⟩, since⟩ := last_before
    (fun instant => ∃ thread call op answer, Performed fleet run thread instant call op answer ∧
      WritesStatus name op) now
  · have same (instant : ℕ) (upto : instant ≤ now) :
        statusAt run instant name = statusAt run now name :=
      (statusRun.status_between upto fun between _ before thread call op answer performed writes =>
        never between before ⟨thread, call, op, answer, performed, writes⟩).symm
    refine ⟨0, Nat.zero_le now, fun instant _ => same instant, 0, le_rfl, Nat.zero_le now, ?_⟩
    rw [← same 0 (Nat.zero_le now)]
    exact statusRun.agrees name
  · have same (instant : ℕ) (from_ : last + 1 ≤ instant) (upto : instant ≤ now) :
        statusAt run instant name = statusAt run now name :=
      (statusRun.status_between upto fun between from' before thread call op answer performed writes =>
        since between (by omega) before ⟨thread, call, op, answer, performed, writes⟩).symm
    obtain ⟨marked, answer', from_, upto, marks⟩ := statusRun.writer_marks performed.inFlight
      (statusRun.writes_own sound performed writes) quiescent before.le
    have after : last ≠ marked := by
      rintro rfl
      obtain ⟨-, rfl⟩ := performed.same_op marks
      obtain other | ⟨_, other⟩ := writes
      · cases other
      · cases other
    obtain ⟨read, agreed, before', upto', before'', upto'', agrees⟩ :=
      statusRun.agrees_after sound marks upto quiescent
    refine ⟨last + 1, before, same, agreed, by omega, upto'', ?_⟩
    rw [← same read (by omega) upto'.le]
    exact agrees

/-- Where a writer is in flight or a marker is ahead, the set comes to agree later. -/
theorem StatusRun.repaired (statusRun : StatusRun run) (sound : ∀ now, Sound run now)
    (le : now ≤ later) (quiescent : Quiescent run later)
    (repair : WriterInFlight run now name ∨ MarkerAhead run now name) :
    ∃ read agreed, now ≤ read ∧ read ≤ later ∧ now < agreed ∧ agreed ≤ later ∧
      (name ∈ setAt run agreed ↔ statusAt run read name = true) := by
  obtain ⟨thread, call, working, mine⟩ | ⟨marker, stands, rfl, unread⟩ := repair
  · obtain ⟨marked, answer, from_, upto, marks⟩ := statusRun.writer_marks working mine quiescent le
    obtain ⟨read, agreed, before, upto', before', upto'', agrees⟩ :=
      statusRun.agrees_after sound marks upto quiescent
    exact ⟨read, agreed, by omega, by omega, by omega, upto'', agrees⟩
  · obtain ⟨instant, thread, call, listing, listed, first, doc, from_, upto, working, before, lists,
      member, -, after, before', reading, read, agreed, from', before'', from'', upto', agrees⟩ :=
        statusRun.drained sound stands le quiescent
    have late : now ≤ first := by
      by_contra early
      have working := statusRun.fleetRun.trace.inFlight_since statusRun.stays lists
        (show listing ≤ now by omega) from_ working
      exact unread thread call listing listed working (by omega) lists member _
        ⟨first, call, doc, Nat.zero_le first, by omega, reading, rfl⟩
    exact ⟨read, agreed, by omega, by omega, by omega, by omega, agrees⟩

theorem StatusRun.quiescent_agrees (statusRun : StatusRun run) (sound : ∀ now, Sound run now)
    (noStale : ∀ now, NoStaleWrite run now) (quiescent : Quiescent run now) (name : String) :
    name ∈ setAt run now ↔ statusAt run now name = true := by
  obtain ⟨since, -, same, start, from_, upto, started⟩ := statusRun.settled sound quiescent name
  by_contra differs
  -- the last instant at which the set was right
  obtain never | ⟨last, before, right, wrong⟩ := last_before
    (fun instant => name ∈ setAt run instant ↔ statusAt run now name = true) (now + 1)
  · exact never start (by omega) started
  have after : start ≤ last := by
    by_contra early
    exact wrong start (by omega) (by omega) started
  have inside : last < now := by
    refine lt_of_le_of_ne (by omega) ?_
    rintro rfl
    exact differs right
  have wrong_ := wrong (last + 1) (by omega) (by omega)
  have unrepaired : ¬(WriterInFlight run last name ∨ MarkerAhead run last name) := by
    intro repair
    obtain ⟨read, agreed, from', upto', before', upto'', agrees⟩ :=
      statusRun.repaired sound inside.le quiescent repair
    rw [same read (by omega) upto'] at agrees
    exact wrong agreed before' (by omega) agrees
  obtain kept | ⟨thread, call, op, answer, etag, value, revision, performed, puts, held, lands⟩ :=
    sets_step statusRun.fleetRun.trace last ()
  · rw [setAt, kept] at wrong_
    exact wrong_ right
  rw [setAt, lands] at wrong_
  rw [setAt, held] at right
  have moved : ¬(name ∈ value.quarantined ↔ name ∈ setOf etag) :=
    fun still => wrong_ (still.trans right)
  obtain mine | ⟨blocked, learned, carried⟩ := statusRun.carries sound performed puts held name moved
  · exact unrepaired (.inl ⟨thread, call, performed.inFlight, mine⟩)
  · have stale : statusAt run last name ≠ blocked := by
      intro fresh
      rw [same last (by omega) inside.le] at fresh
      rw [fresh] at wrong_
      exact wrong_ carried
    obtain ⟨writer, call', wrote, working⟩ | ⟨-, repair⟩ := noStale last thread call op answer etag value
      name blocked performed puts held learned carried (fun still => moved (carried.trans still.symm)) stale
    · obtain ⟨instant, _, _, _, performed', writes, -⟩ := wrote
      exact unrepaired (.inl ⟨writer, call', working, statusRun.writes_own sound performed' writes⟩)
    · exact unrepaired repair

end Runs

/-- As long as no write of a drain or a sweep lands on a status rewritten since it was
read, unless its repair is ahead, and no body stands at the last epoch: whenever nothing
is in flight and no marker stands, the set is what the statuses say, and no sweep
un-blocks a package whose status write completed. -/
theorem quarantined_agrees_with_status {run : ℕ → FleetConfig Unit ν} (statusRun : StatusRun run)
    (spare : ∀ now, epochAt run now () < u64Max) (noStale : ∀ now, NoStaleWrite run now) :
    AgreesWithStatus run := by
  have sound (now : ℕ) : Sound run now :=
    (statusRun.fleetRun.sound now).1 fun instant _ => ahead_of_spare (spare instant)
  refine ⟨fun now quiescent name => statusRun.quiescent_agrees sound noStale quiescent name, ?_⟩
  intro now thread call op answer etag value name replicas performed puts held sweeps member blocks completed
  by_contra out
  obtain ⟨_, _, mine⟩ | ⟨blocked, learned, carried⟩ := statusRun.carries sound performed puts held name
    fun still => out (still.mpr member)
  · cases sweeps.symm.trans mine
  · obtain rfl : blocked = false := Bool.eq_false_of_not_eq_true fun same => out (carried.mpr same)
    obtain ⟨writer, call', wrote, working⟩ | ⟨never | ⟨_, _, _, drains⟩, -⟩ := noStale now thread call op
      answer etag value name false performed puts held learned carried (by simp [member]) (by simp [blocks])
    · exact completed writer call' wrote working
    · cases never
    · cases sweeps.symm.trans drains

section Samples

/-- A call starts, or a thread makes its next operation, with the markers it may list. -/
inductive Turn (ν : Type) where
  | start (thread : ℕ) (begun : Call Unit ν)
  | go (thread : ℕ) (listing : List Marker)

def Turn.move : Turn ν → Move (fleet : System (World Unit ν) _ _ _ _ _)
  | start thread begun => .start thread begun
  | go thread listing => .perform thread (answering listing)

def playing (turns : List (Turn ν)) : ℕ → FleetConfig Unit ν := replay bare (turns.map Turn.move)

/-- The operation of a turn. -/
def opAt (turns : List (Turn ν)) (now : ℕ) : Option (ℕ × List Marker × QuarantineOp Unit ν) :=
  match turns[now]? with
  | some (.go thread listing) =>
    match (playing turns now).threads thread with
    | some (_, .call op _) => some (thread, listing, op)
    | _ => none
  | _ => none

/-- Whether an operation is carried out, markers apart those listed. -/
def carriesOut (world : World Unit ν) (thread : ℕ) (listing : List Marker) : QuarantineOp Unit ν → Bool
  | .getBytes _ | .listStatuses _ => false
  | .putMarker bucket pkg => ⟨pkg, thread⟩ ∉ world.markers bucket
  | .listMarkers bucket => listing.toFinset = world.markers bucket
  | _ => true

def carriedAt (turns : List (Turn ν)) (now : ℕ) : Bool :=
  match opAt turns now with
  | some (thread, listing, op) => carriesOut (playing turns now).store thread listing op
  | none => true

theorem serves_answering {world : World Unit ν} {thread : ℕ} {listing : List Marker}
    {op : QuarantineOp Unit ν} (carried : carriesOut world thread listing op = true) :
    Serves world op ((answering listing).serve thread world op).1
      ((answering listing).serve thread world op).2 := by
  cases op with
  | getBytes => cases carried
  | listStatuses => cases carried
  | putMarker bucket pkg =>
      have fresh := of_decide_eq_true carried
      dsimp only [answering]
      rw [if_neg fresh]
      exact .marked fresh
  | listMarkers bucket =>
      have same := of_decide_eq_true carried
      dsimp only [answering]
      rw [if_pos same]
      exact .markers same
  | getWithEtag => exact .got
  | listEtag => exact .listed
  | putIfMatch bucket etag value =>
      dsimp only [answering]
      split
      next held => exact .replaced held
      next moved => exact .changed moved
  | putIfNoneMatch bucket value =>
      dsimp only [answering]
      split
      next missing => exact .created missing
      next held => exact .occupied held
  | readStatus => exact .status
  | writeStatus => exact .statusWritten
  | clearStatus => exact .statusCleared
  | deleteMarkers => exact .consumed
  | requireGeneration => exact .generation
  | readState => exact .state
  | adopt => exact .adopted
  | armLocal => exact .armed
  | reload => exact .reloaded

variable {turns : List (Turn ν)}

theorem playing_op {thread now : ℕ} {call : Call Unit ν} {op : QuarantineOp Unit ν} {answer : op.Ans}
    (performed : Performed fleet (playing turns) thread now call op answer) :
    ∃ listing, turns[now]? = some (.go thread listing) ∧ opAt turns now = some (thread, listing, op) := by
  obtain ⟨server, next⟩ := performed.of_replay
  have ⟨_, task, _, _⟩ := performed
  rw [List.getElem?_map, Option.map_eq_some_iff] at next
  obtain ⟨turn, held, same⟩ := next
  cases turn with
  | start => cases same
  | go thread' listing =>
      cases same
      refine ⟨listing, held, ?_⟩
      unfold opAt
      rw [held]
      dsimp only
      rw [task]

theorem playing_succ (turns : List (Turn ν)) (now : ℕ) :
    (turns.length ≤ now ∧ playing turns (now + 1) = playing turns now) ∨
    ∃ turn ∈ turns, now < turns.length ∧ playing turns (now + 1) = advance (playing turns now) turn.move := by
  obtain inside | beyond := Nat.lt_or_ge now turns.length
  · have held : turns[now]? = some turns[now] := List.getElem?_eq_getElem inside
    refine .inr ⟨turns[now], List.getElem_mem inside, inside, ?_⟩
    exact replay_succ bare (by rw [List.getElem?_map, held]; rfl)
  · have reached : (turns.map Turn.move).length ≤ now := by rwa [List.length_map]
    refine .inl ⟨beyond, ?_⟩
    rw [playing, replay, replay, List.take_of_length_le reached,
      List.take_of_length_le (Nat.le_succ_of_le reached)]

theorem playing_stays (turns : List (Turn ν)) (now thread : ℕ)
    (busy : (playing turns now).threads thread ≠ none) :
    (playing turns (now + 1)).threads thread ≠ none := by
  obtain ⟨-, same⟩ | ⟨turn, -, -, next⟩ := playing_succ turns now
  · rw [same]
    exact busy
  · rw [next]
    generalize playing turns now = config at busy
    cases turn with
    | start mover begun =>
        simp only [Turn.move, advance]
        split
        next idle =>
          have other : thread ≠ mover := fun same => busy (by rw [same]; exact idle)
          rw [Config.setThread_other _ other]
          exact busy
        next => exact busy
    | go mover listing =>
        simp only [Turn.move, advance]
        split
        next =>
          by_cases mine : thread = mover
          · rw [mine, Config.setThread_self]
            exact Option.some_ne_none _
          · rw [Config.setThread_other _ mine]
            exact busy
        next => exact busy

theorem playing_run (tasks : ∀ thread begun, .start thread begun ∈ turns → StatusTask begun.task)
    (carried : ∀ now < turns.length, carriedAt turns now = true)
    (nonces : ∀ now < turns.length, ∀ marker ∈ (playing turns (now + 1)).store.markers (),
      marker ∉ (playing turns now).store.markers () →
        ∀ earlier ≤ now, marker ∉ (playing turns earlier).store.markers ()) :
    StatusRun (playing turns) where
  fleetRun := bare_run _
  tasks now thread begun program task := by
    refine replay_started (P := fun _ (begun : Call Unit ν) => StatusTask begun.task) (fun _ => rfl) ?_
      now thread begun program task
    intro thread begun member
    obtain ⟨turn, member, same⟩ := List.mem_map.mp member
    cases turn with
    | start =>
        cases same
        exact tasks _ _ member
    | go => cases same
  served thread now begun op answer performed := by
    obtain ⟨listing, held, op_⟩ := playing_op performed
    have ⟨_, task, _, _⟩ := performed
    have inside : now < turns.length := (List.getElem?_eq_some_iff.mp held).1
    have next : (turns.map Turn.move)[now]? = some (.perform thread (answering listing)) := by
      rw [List.getElem?_map, held]
      rfl
    have known := performed_replay next task
    refine ⟨_, known, ?_⟩
    have after : (playing turns (now + 1)).store =
        ((answering listing).serve thread (playing turns now).store op).2 := by
      rw [playing, replay_succ bare next]
      simp only [advance]
      rw [show (replay bare (turns.map Turn.move) now).threads thread = _ from task]
      rfl
    have carries := carried now inside
    unfold carriedAt at carries
    rw [op_] at carries
    rw [after]
    exact serves_answering carries
  stays := playing_stays turns
  nonces now marker fresh stands earlier before := by
    obtain ⟨-, same⟩ | ⟨-, -, inside, -⟩ := playing_succ turns now
    · rw [same] at stands
      exact absurd stands fresh
    · exact nonces now inside marker stands fresh earlier before
  agrees name := iff_of_false (Finset.notMem_empty name) Bool.false_ne_true

omit [DecidableEq ν] in
/-- What has stopped, and leaves no marker, is quiescent. -/
theorem quiescent_of_over {run : ℕ → FleetConfig Unit ν} {now : ℕ}
    (finished : ∀ thread, (run now).threads thread = none ∨
      ∃ begun result, (run now).threads thread = some (begun, .done result))
    (empty : (run now).store.markers () = ∅) : Quiescent run now := by
  refine ⟨fun thread begun ⟨op, next, task⟩ => ?_, empty⟩
  obtain idle | ⟨_, _, ended⟩ := finished thread
  · cases idle.symm.trans task
  · cases ended.symm.trans task

def freezeX : Call Unit Unit := ⟨(), (), .status [] "x" ⟨.quarantined, none⟩⟩
def releaseX : Call Unit Unit := ⟨(), (), .status [] "x" ⟨.active, none⟩⟩
def drainX : Call Unit Unit := ⟨(), (), .drain [] 0 "x"⟩

/-- `thread` makes `count` operations that list nothing. -/
def goes (thread count : ℕ) : List (Turn Unit) := List.replicate count (.go thread [])

/-- A freeze and a release overlap, so the set holds the name while its status is active. A
drain reads both. A second freeze and its drain find the name in the set and write
nothing, and then the first drain's write lands. -/
def staleDerive : List (Turn Unit) :=
  [.start 0 freezeX, .start 1 releaseX] ++ goes 0 1 ++ goes 1 6 ++ goes 0 7 ++
  [.start 2 drainX, .go 2 [⟨"x", 0⟩, ⟨"x", 1⟩]] ++ goes 2 6 ++
  [.start 3 freezeX] ++ goes 3 6 ++
  [.start 4 drainX, .go 4 [⟨"x", 0⟩, ⟨"x", 1⟩, ⟨"x", 3⟩]] ++ goes 4 5 ++
  goes 2 3 ++ goes 4 1

theorem staleDerive_run : StatusRun (playing staleDerive) := by
  refine playing_run ?_ (by decide +kernel) (by decide +kernel)
  intro thread begun member
  simp [staleDerive, goes] at member
  obtain ⟨-, rfl⟩ | ⟨-, rfl⟩ | ⟨-, rfl⟩ | ⟨-, rfl⟩ | ⟨-, rfl⟩ := member
  all_goals trivial

theorem staleDerive_spare (now : ℕ) : epochAt (playing staleDerive) now () < u64Max := by
  obtain ⟨earlier, before, same⟩ := replay_bounded bare (staleDerive.map Turn.move) now
  rw [epochAt, playing, same]
  have spare : ∀ earlier ≤ 42, epochAt (playing staleDerive) earlier () < u64Max := by decide +kernel
  exact spare earlier before

theorem staleDerive_quiescent : Quiescent (playing staleDerive) 42 := by
  have rests : ∀ thread < 5, (playing staleDerive 42).working thread = false := by decide +kernel
  have spent : (playing staleDerive 42).store.markers () = ∅ := by decide +kernel
  have few (thread : ℕ) (begun : Call Unit Unit)
      (member : Move.start thread begun ∈ staleDerive.map Turn.move) : thread < 5 := by
    simp only [staleDerive, goes, Turn.move, List.mem_map, List.mem_append, List.mem_cons,
      List.mem_replicate, List.not_mem_nil] at member
    aesop
  exact quiescent_of_over (replay_over (fun _ => rfl) few rests) spent

theorem stale_derive_unblocks : ¬∀ run : ℕ → FleetConfig Unit Unit, StatusRun run →
    (∀ now, epochAt run now () < u64Max) → AgreesWithStatus run := by
  intro agrees
  have same := (agrees _ staleDerive_run staleDerive_spare).quiescent 42 staleDerive_quiescent "x"
  have blocks : statusAt (playing staleDerive) 42 "x" = true := by decide +kernel
  have out : "x" ∉ setAt (playing staleDerive) 42 := by decide +kernel
  exact out (same.mpr blocks)

/-- A freeze, and then the drain of its marker. -/
def freezeThenDrain : List (Turn Unit) :=
  [.start 0 freezeX] ++ goes 0 8 ++ [.start 1 drainX, .go 1 [⟨"x", 0⟩]] ++ goes 1 6

/-- Only the first thread writes the set, and only others read a status. -/
def apart (turns : List (Turn Unit)) (now : ℕ) : Bool :=
  match opAt turns now with
  | some (thread, _, .putIfMatch ..) | some (thread, _, .putIfNoneMatch ..) => thread = 0
  | some (thread, _, .readStatus ..) | some (thread, _, .listStatuses _) => thread ≠ 0
  | _ => true

theorem noStale_of_apart {turns : List (Turn Unit)} (separate : ∀ now < turns.length, apart turns now = true)
    (now : ℕ) : NoStaleWrite (playing turns) now := by
  have at_ {instant thread : ℕ} {begun : Call Unit Unit} {op : QuarantineOp Unit Unit} {answer : op.Ans}
      (performed : Performed fleet (playing turns) thread instant begun op answer) :
      ∃ listing, opAt turns instant = some (thread, listing, op) ∧ apart turns instant = true := by
    obtain ⟨listing, held, op_⟩ := playing_op performed
    exact ⟨listing, op_, separate instant (List.getElem?_eq_some_iff.mp held).1⟩
  intro thread begun op answer etag value name blocked performed puts held learned _ _ _
  have first : thread = 0 := by
    obtain ⟨listing, op_, check⟩ := at_ performed
    unfold apart at check
    rw [op_] at check
    cases etag <;> cases puts <;> exact of_decide_eq_true check
  obtain ⟨instant, _, _, _, _, reads, _⟩ | ⟨_, instant, _, _, _, lists, _⟩ := learned
  · obtain ⟨listing, op_, check⟩ := at_ reads
    unfold apart at check
    rw [op_] at check
    exact absurd first (of_decide_eq_true check)
  · obtain ⟨listing, op_, check⟩ := at_ lists
    unfold apart at check
    rw [op_] at check
    exact absurd first (of_decide_eq_true check)

theorem freezeThenDrain_agrees : Quiescent (playing freezeThenDrain) 17 ∧
    "x" ∈ setAt (playing freezeThenDrain) 17 ∧ AgreesWithStatus (playing freezeThenDrain) := by
  have runs : StatusRun (playing freezeThenDrain) := by
    refine playing_run ?_ (by decide +kernel) (by decide +kernel)
    intro thread begun member
    simp [freezeThenDrain, goes] at member
    obtain ⟨-, rfl⟩ | ⟨-, rfl⟩ := member
    all_goals trivial
  have spare (now : ℕ) : epochAt (playing freezeThenDrain) now () < u64Max := by
    obtain ⟨earlier, before, same⟩ := replay_bounded bare (freezeThenDrain.map Turn.move) now
    rw [epochAt, playing, same]
    have spare : ∀ earlier ≤ 17, epochAt (playing freezeThenDrain) earlier () < u64Max := by
      decide +kernel
    exact spare earlier before
  have rests : ∀ thread < 2, (playing freezeThenDrain 17).working thread = false := by decide +kernel
  have spent : (playing freezeThenDrain 17).store.markers () = ∅ := by decide +kernel
  have few (thread : ℕ) (begun : Call Unit Unit)
      (member : Move.start thread begun ∈ freezeThenDrain.map Turn.move) : thread < 2 := by
    simp only [freezeThenDrain, goes, Turn.move, List.mem_map, List.mem_append, List.mem_cons,
      List.mem_replicate, List.not_mem_nil] at member
    aesop
  exact ⟨quiescent_of_over (replay_over (fun _ => rfl) few rests) spent, by decide +kernel,
    quarantined_agrees_with_status runs spare (noStale_of_apart (by decide +kernel))⟩

end Samples
end Pypiron.Quarantine
