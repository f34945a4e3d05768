import Pypiron.Publish

/-! Reads of one artifact beside a delete of it, on a node with a single bucket. A read
remembers the verdict it takes from the artifact's markers and the URL it signs, after
the storage has answered; a delete writes the tombstone and drops both memories. -/
namespace Pypiron.DeleteVisibility
open Program ThreadPool

/-- What the bucket holds of the artifact, and what the node remembers of it: when the
markers were checked and with which verdict, and when its URL was signed. -/
structure Node where
  tombstoned : Bool
  frozen : Bool
  verdict : Option (Bool × ℕ)
  url : Option (String × ℕ)
  clock : ℕ

inductive ReadOp where
  | fenceVerdict
  | headTombstone
  | headFrozen
  | recordFenceVerdict (visible : Bool)
  | fresh
  | presignGet
  | put (url : String)
  | serveArtifact
  | writeTombstone
  | invalidate
  | deleteKeys

def ReadOp.Ans : ReadOp → Type
  | .fenceVerdict => Option Bool
  | .headTombstone => Except String Bool
  | .headFrozen => Except String Bool
  | .recordFenceVerdict _ => Unit
  | .fresh => Option String
  | .presignGet => Except String (Option String)
  | .put _ => Unit
  | .serveArtifact => Except String Unit
  | .writeTombstone => Except String Unit
  | .invalidate => Unit
  | .deleteKeys => Except String Unit

inductive Reply where
  | notFound
  | redirect (url : String)
  | body
  | deleted
  deriving DecidableEq

abbrev ReadM (α : Type) := Program ReadOp ReadOp.Ans String α

def headTombstone : ReadM Bool := call .headTombstone fun answer => done answer

def headFrozen : ReadM Bool := call .headFrozen fun answer => done answer

/-- The joined HEADs, which the storage answers in either order. -/
def heads (tombstoneFirst : Bool) : ReadM (Bool × Bool) :=
  if tombstoneFirst then do
    let tombstoned ← headTombstone
    let frozen ← headFrozen
    pure (tombstoned, frozen)
  else do
    let frozen ← headFrozen
    let tombstoned ← headTombstone
    pure (tombstoned, frozen)

def singleBucketFileVisible (tombstoneFirst : Bool) : ReadM Bool :=
  call .fenceVerdict fun
    | some visible => done (.ok visible)
    | none => do
      let (tombstoned, frozen) ← heads tombstoneFirst
      let visible := !Publish.fencedByMarkers tombstoned frozen
      call (.recordFenceVerdict visible) fun _ => done (.ok visible)

def serveArtifact : ReadM Reply :=
  call .serveArtifact fun answer => done (answer.map fun _ => .body)

/-- What follows the visibility gate, for a client that is redirected or not. -/
def deliver (redirects : Bool) : ReadM Reply :=
  if redirects then
    call .fresh fun
      | some url => done (.ok (.redirect url))
      | none => call .presignGet fun
        | .ok (some url) => call (.put url) fun _ => done (.ok (.redirect url))
        | .ok none => serveArtifact
        | .error _ => serveArtifact
  else serveArtifact

def filesGet (tombstoneFirst redirects : Bool) : ReadM Reply := do
  let visible ← singleBucketFileVisible tombstoneFirst
  if visible then deliver redirects else pure .notFound

/-- The end of a private delete, from its tombstone on. -/
def deleteRecord : ReadM Reply :=
  call .writeTombstone fun
    | .error error => done (.error error)
    | .ok _ => call .invalidate fun _ =>
      call .deleteKeys fun answer => done (answer.map fun _ => .deleted)

inductive ReadCall where
  | read (tombstoneFirst redirects : Bool)
  | delete
  deriving DecidableEq

def ReadCall.program : ReadCall → ReadM Reply
  | .read tombstoneFirst redirects => filesGet tombstoneFirst redirects
  | .delete => deleteRecord

/-- An entry's value, while it is younger than its time to live. -/
def unexpired (entry : Option (α × ℕ)) (ttl clock : ℕ) : Option α :=
  entry.bind fun (value, since) => if clock - since < ttl then some value else none

/-- Every answer of the storage may be an error; a failed write may have landed. -/
inductive Performs (fenceTtl urlTtl : ℕ) (node : Node) : (op : ReadOp) → op.Ans → Node → Prop where
  | fenceVerdict : Performs fenceTtl urlTtl node .fenceVerdict
      (unexpired node.verdict fenceTtl node.clock) node
  | headTombstone : Performs fenceTtl urlTtl node .headTombstone (.ok node.tombstoned) node
  | headTombstoneFails : Performs fenceTtl urlTtl node .headTombstone (.error error) node
  | headFrozen : Performs fenceTtl urlTtl node .headFrozen (.ok node.frozen) node
  | headFrozenFails : Performs fenceTtl urlTtl node .headFrozen (.error error) node
  | recordFenceVerdict : Performs fenceTtl urlTtl node (.recordFenceVerdict visible) ()
      { node with verdict := some (visible, node.clock) }
  | fresh : Performs fenceTtl urlTtl node .fresh (unexpired node.url urlTtl node.clock) node
  | presignGet : Performs fenceTtl urlTtl node .presignGet answer node
  | put : Performs fenceTtl urlTtl node (.put url) () { node with url := some (url, node.clock) }
  | serveArtifact : Performs fenceTtl urlTtl node .serveArtifact answer node
  | writeTombstone : Performs fenceTtl urlTtl node .writeTombstone (.ok ())
      { node with tombstoned := true }
  | writeTombstoneFails : landed = node.tombstoned ∨ landed = true →
      Performs fenceTtl urlTtl node .writeTombstone (.error error)
        { node with tombstoned := landed }
  | invalidate : Performs fenceTtl urlTtl node .invalidate () { node with verdict := none, url := none }
  | deleteKeys : Performs fenceTtl urlTtl node .deleteKeys answer node

/-- Meanwhile the clock goes on, a tombstone or a freeze may come from elsewhere, and a
full cache may drop its entries. Nothing removes a tombstone. -/
structure Drifts (node node' : Node) : Prop where
  clock : node.clock ≤ node'.clock
  tombstoned : node.tombstoned = true → node'.tombstoned = true
  verdict : node'.verdict = node.verdict ∨ node'.verdict = none
  url : node'.url = node.url ∨ node'.url = none

/-- A client that goes away drops its read. -/
def reads (fenceTtl urlTtl : ℕ) : System Node ReadCall ReadOp ReadOp.Ans String Reply where
  program := ReadCall.program
  performs _ := Performs fenceTtl urlTtl
  drifts := Drifts
  drops _ node node' := node' = node

abbrev ReadsRun := ℕ → Config Node ReadCall ReadOp ReadOp.Ans String Reply

section Runs
variable {fenceTtl urlTtl : ℕ} {run : ReadsRun} {thread start now later : ℕ} {call : ReadCall}

/-- A delete drops the node's memories at `now`. -/
def Invalidated (fenceTtl urlTtl : ℕ) (run : ReadsRun) (now : ℕ) : Prop :=
  ∃ thread call, Performed (reads fenceTtl urlTtl) run thread now call .invalidate ()

/-- A read lets others pass from `recorded` on, after the delete dropped the memories at
`dropped`, although its own tombstone HEAD was answered before that. -/
def RecordsLate (fenceTtl urlTtl : ℕ) (run : ReadsRun) (dropped recorded : ℕ) : Prop :=
  ∃ thread call start seen, Underway (reads fenceTtl urlTtl) run thread call start recorded ∧
    start ≤ seen ∧ seen < dropped ∧ dropped < recorded ∧
    Performed (reads fenceTtl urlTtl) run thread seen call .headTombstone (.ok false) ∧
    Performed (reads fenceTtl urlTtl) run thread recorded call (.recordFenceVerdict true) ()

/-- The read that starts at `start` finds, by `now`, the verdict of a read that recorded it
late, while that is younger than its time to live. -/
def Misled (fenceTtl urlTtl : ℕ) (run : ReadsRun) (dropped thread : ℕ) (call : ReadCall)
    (start now : ℕ) : Prop :=
  ∃ recorded asked, RecordsLate fenceTtl urlTtl run dropped recorded ∧ recorded ≤ asked ∧
    start ≤ asked ∧ asked < now ∧
    Performed (reads fenceTtl urlTtl) run thread asked call .fenceVerdict (some true) ∧
    (run asked).store.verdict = some (true, (run recorded).store.clock) ∧
    (run asked).store.clock - (run recorded).store.clock < fenceTtl

/-- What a read does once the gate has let it pass. -/
def Delivers : ReadOp → Prop
  | .fresh | .presignGet | .put _ | .serveArtifact => True
  | _ => False

/-- The read that starts after `begun` is refused at the gate, where no verdict recorded
late misleads it: it takes no URL and no body, and answers that there is no such file. -/
structure RefusedUnlessMisled (fenceTtl urlTtl : ℕ) (run : ReadsRun) (dropped thread begun : ℕ)
    (call : ReadCall) : Prop where
  delivers : ∀ now op answer, Underway (reads fenceTtl urlTtl) run thread call (begun + 1) now →
    Performed (reads fenceTtl urlTtl) run thread now call op answer → Delivers op →
    Misled fenceTtl urlTtl run dropped thread call (begun + 1) now
  answers : ∀ now reply, Underway (reads fenceTtl urlTtl) run thread call (begun + 1) now →
    (run now).threads thread = some (call, .done (.ok reply)) → reply ≠ .notFound →
    Misled fenceTtl urlTtl run dropped thread call (begun + 1) now

/-! ### Steps -/

theorem performs_headTombstone {node node' : Node} {tombstoned : Bool}
    (performs : Performs fenceTtl urlTtl node .headTombstone (.ok tombstoned) node') :
    tombstoned = node.tombstoned ∧ node' = node := by
  cases performs
  exact ⟨rfl, rfl⟩

theorem performs_fenceVerdict {node node' : Node} {visible : Bool}
    (performs : Performs fenceTtl urlTtl node .fenceVerdict (some visible) node') :
    (∃ since, node.verdict = some (visible, since) ∧ node.clock - since < fenceTtl) ∧
      node' = node := by
  generalize answered : (some visible : ReadOp.Ans .fenceVerdict) = answer at performs
  cases performs
  obtain ⟨⟨value, since⟩, held, young⟩ := Option.bind_eq_some_iff.mp answered.symm
  dsimp only at young
  split at young
  next less =>
    cases young
    exact ⟨⟨since, held, less⟩, rfl⟩
  next => cases young

theorem performs_invalidate {node node' : Node}
    (performs : Performs fenceTtl urlTtl node .invalidate () node') :
    node'.verdict = none := by
  cases performs
  rfl

theorem performs_writeTombstone {node node' : Node}
    (performs : Performs fenceTtl urlTtl node .writeTombstone (.ok ()) node') :
    node'.tombstoned = true := by
  cases performs
  rfl

theorem Performs.tombstoned {node node' : Node} {op : ReadOp} {answer : op.Ans}
    (performs : Performs fenceTtl urlTtl node op answer node') (stands : node.tombstoned = true) :
    node'.tombstoned = true := by
  cases performs with
  | writeTombstone => rfl
  | writeTombstoneFails landed =>
      obtain same | landed := landed
      · exact same.trans stands
      · exact landed
  | _ => exact stands

/-- A verdict to let reads pass stood before, or is the one recorded. -/
theorem Performs.verdict {node node' : Node} {op : ReadOp} {answer : op.Ans} {since : ℕ}
    (performs : Performs fenceTtl urlTtl node op answer node')
    (passes : node'.verdict = some (true, since)) :
    node.verdict = some (true, since) ∨ op = .recordFenceVerdict true ∧ since = node.clock := by
  cases performs with
  | recordFenceVerdict =>
      cases passes
      exact .inr ⟨rfl, rfl⟩
  | invalidate => cases passes
  | _ => exact .inl passes

theorem step_tombstoned {config config' : Config Node ReadCall ReadOp ReadOp.Ans String Reply}
    (step : Step (reads fenceTtl urlTtl) config config') (stands : config.store.tombstoned = true) :
    config'.store.tombstoned = true := by
  cases step with
  | start _ => exact stands
  | perform _ performs => exact performs.tombstoned stands
  | drift drifts => exact drifts.tombstoned stands
  | drop _ drops =>
      cases drops
      exact stands

/-- Nothing removes a tombstone. -/
theorem tombstoned_stays (trace : Trace (reads fenceTtl urlTtl) run) (le : now ≤ later)
    (stands : (run now).store.tombstoned = true) : (run later).store.tombstoned = true := by
  have kept := trace.ordered
    (R := fun config config' => config.store.tombstoned = true → config'.store.tombstoned = true)
    (fun _ stands => stands) (fun _ _ _ first second stands => second (first stands))
    (fun _ _ step stands => step_tombstoned step stands) le
  exact kept stands

/-! ### What reads and deletes keep to -/

variable {dropped : ℕ}

/-- A delete drops the memories on a tombstone, and a verdict that lets reads pass after
that is one recorded late. -/
def Sealed (fenceTtl urlTtl : ℕ) (run : ReadsRun) (dropped now : ℕ) : Prop :=
  dropped < now → (run dropped).store.tombstoned = true ∧
    ∀ since, (run now).store.verdict = some (true, since) →
      ∃ recorded, RecordsLate fenceTtl urlTtl run dropped recorded ∧ recorded < now ∧
        since = (run recorded).store.clock

/-- The call's own HEAD found no tombstone. -/
def SawNone (fenceTtl urlTtl : ℕ) (run : ReadsRun) (thread start now : ℕ) (call : ReadCall) : Prop :=
  ∃ seen, start ≤ seen ∧ seen < now ∧
    Performed (reads fenceTtl urlTtl) run thread seen call .headTombstone (.ok false)

/-- A delete has a tombstone before it drops the memories. A read lets others pass only
where its own HEAD found no tombstone, and one that starts after the delete takes
something only where it is misled. -/
def Permits (fenceTtl urlTtl : ℕ) (run : ReadsRun) (dropped thread : ℕ) (call : ReadCall)
    (start now : ℕ) : ReadOp → Prop
  | .recordFenceVerdict visible => visible = true → SawNone fenceTtl urlTtl run thread start now call
  | .invalidate => (run now).store.tombstoned = true
  | op => Delivers op → dropped < start → Misled fenceTtl urlTtl run dropped thread call start now

/-- A read that started after the delete answers with something only where it is misled. -/
def Answers (fenceTtl urlTtl : ℕ) (run : ReadsRun) (dropped thread : ℕ) (call : ReadCall)
    (start now : ℕ) (reply : Reply) : Prop :=
  dropped < start → call ≠ .delete → reply ≠ .notFound →
    Misled fenceTtl urlTtl run dropped thread call start now

def rules (fenceTtl urlTtl : ℕ) (run : ReadsRun) (dropped : ℕ) :
    Contract ReadCall ReadOp String Reply where
  permits := Permits fenceTtl urlTtl run dropped
  post thread call start now :=
    Lawful.Yields (Answers fenceTtl urlTtl run dropped thread call start) now

abbrev Keeps (fenceTtl urlTtl : ℕ) (run : ReadsRun) (dropped thread : ℕ) (call : ReadCall)
    (start : ℕ) {α : Type} (holds : ℕ → α → Prop) (now : ℕ) (program : ReadM α) : Prop :=
  Lawful (Permits fenceTtl urlTtl run dropped thread call start)
    (Answered (reads fenceTtl urlTtl) run (Sealed fenceTtl urlTtl run dropped) thread call)
    (Lawful.Yields holds) now program

theorem Misled.mono (misled : Misled fenceTtl urlTtl run dropped thread call start now) (le : now ≤ later) :
    Misled fenceTtl urlTtl run dropped thread call start later := by
  obtain ⟨recorded, asked, late, before, own, upto, finds⟩ := misled
  exact ⟨recorded, asked, late, before, own, upto.trans_le le, finds⟩

/-- What a tombstone HEAD tells: where it finds none the call can say so later, and a
read that starts after the delete finds one. -/
def Headed (fenceTtl urlTtl : ℕ) (run : ReadsRun) (dropped thread : ℕ) (call : ReadCall)
    (start now : ℕ) (tombstoned : Bool) : Prop :=
  (tombstoned = false → SawNone fenceTtl urlTtl run thread start now call) ∧
    (dropped < start → tombstoned = true)

theorem Headed.mono {tombstoned : Bool}
    (headed : Headed fenceTtl urlTtl run dropped thread call start now tombstoned) (le : now ≤ later) :
    Headed fenceTtl urlTtl run dropped thread call start later tombstoned := by
  refine ⟨fun missing => ?_, headed.2⟩
  obtain ⟨seen, from_, before, performed⟩ := headed.1 missing
  exact ⟨seen, from_, before.trans_le le, performed⟩

theorem keeps_headTombstone (trace : Trace (reads fenceTtl urlTtl) run) (after : start ≤ now) :
    Keeps fenceTtl urlTtl run dropped thread call start
      (Headed fenceTtl urlTtl run dropped thread call start) now headTombstone := by
  intro before le
  refine ⟨fun delivers => delivers.elim, ?_⟩
  rintro later answer grows ⟨holds, instant, asked, rfl, performed⟩
  refine Lawful.yield_done fun final beyond tombstoned same => ?_
  subst same
  have ⟨_, _, performs, _⟩ := performed
  obtain ⟨told, same⟩ := performs_headTombstone performs
  constructor
  · rintro rfl
    exact ⟨instant, by omega, by omega, performed⟩
  · intro late
    rw [told, ← same]
    exact tombstoned_stays trace (by omega) (holds (by omega)).1

theorem keeps_headFrozen : Keeps fenceTtl urlTtl run dropped thread call start (fun _ _ => True) now
    headFrozen := by
  intro before le
  exact ⟨fun delivers => delivers.elim, fun later answer grows told =>
    Lawful.yield_done fun final beyond value same => trivial⟩

theorem keeps_heads (trace : Trace (reads fenceTtl urlTtl) run) (after : start ≤ now)
    (tombstoneFirst : Bool) :
    Keeps fenceTtl urlTtl run dropped thread call start
      (fun later pair => Headed fenceTtl urlTtl run dropped thread call start later pair.1) now
      (heads tombstoneFirst) := by
  unfold heads
  split
  · refine (keeps_headTombstone trace after).yield_bind fun later le tombstoned headed => ?_
    refine keeps_headFrozen.yield_bind fun last le' frozen _ => ?_
    exact Lawful.yield_pure fun final beyond => headed.mono (le'.trans beyond)
  · refine keeps_headFrozen.yield_bind fun later le frozen _ => ?_
    refine (keeps_headTombstone trace (after.trans le)).yield_bind fun last le' tombstoned headed => ?_
    exact Lawful.yield_pure fun final beyond => headed.mono beyond

theorem fenced_of_tombstoned (frozen : Bool) : Publish.fencedByMarkers true frozen = true := by
  cases frozen <;> rfl

theorem keeps_singleBucketFileVisible (trace : Trace (reads fenceTtl urlTtl) run) (after : start ≤ now)
    (tombstoneFirst : Bool) :
    Keeps fenceTtl urlTtl run dropped thread call start
      (fun later visible => dropped < start → visible = true →
        Misled fenceTtl urlTtl run dropped thread call start later) now
      (singleBucketFileVisible tombstoneFirst) := by
  intro before le
  refine ⟨fun delivers => delivers.elim, ?_⟩
  rintro later answer grows ⟨holds, instant, asked, rfl, performed⟩
  cases answer with
  | some visible =>
      refine Lawful.yield_done fun final beyond value same late passes => ?_
      cases same
      subst passes
      have ⟨_, _, performs, _⟩ := performed
      obtain ⟨⟨since, held, young⟩, same⟩ := performs_fenceVerdict performs
      obtain ⟨recorded, recordsLate, past, rfl⟩ := (holds (by omega)).2 since (by rw [same, held])
      exact ⟨recorded, instant, recordsLate, by omega, by omega, by omega, performed, held, young⟩
  | none =>
      refine (keeps_heads trace (by omega) tombstoneFirst).yield_bind fun last le' pair headed => ?_
      obtain ⟨tombstoned, frozen⟩ := pair
      intro recording le''
      refine ⟨fun visible => ?_, fun after_ answer grows' told => ?_⟩
      · refine (headed.mono le'').1 ?_
        cases tombstoned with
        | false => rfl
        | true => rw [fenced_of_tombstoned] at visible; cases visible
      · refine Lawful.yield_done fun final beyond value same late passes => ?_
        cases same
        rw [show tombstoned = true from headed.2 late, fenced_of_tombstoned] at passes
        cases passes

/-- A read that passed the gate may take what it finds. -/
theorem keeps_deliver (excused : dropped < start → Misled fenceTtl urlTtl run dropped thread call start now)
    (redirects : Bool) :
    Keeps fenceTtl urlTtl run dropped thread call start
      (Answers fenceTtl urlTtl run dropped thread call start) now (deliver redirects) := by
  have done_ {world : ℕ} (le : now ≤ world) (result : Except String Reply) :
      Keeps fenceTtl urlTtl run dropped thread call start
        (Answers fenceTtl urlTtl run dropped thread call start) world (Program.done result) :=
    Lawful.yield_done fun _ beyond _ _ late _ _ => (excused late).mono (le.trans beyond)
  have serves {world : ℕ} (le : now ≤ world) : Keeps fenceTtl urlTtl run dropped thread call start
      (Answers fenceTtl urlTtl run dropped thread call start) world serveArtifact := by
    intro asking le'
    exact ⟨fun _ late => (excused late).mono (le.trans le'),
      fun _ _ grows _ => done_ (le.trans (le'.trans grows)) _⟩
  unfold deliver
  split
  · intro asking le
    refine ⟨fun _ late => (excused late).mono le, fun later answer grows told => ?_⟩
    cases answer with
    | some url => exact done_ (le.trans grows) _
    | none =>
        intro signing le'
        refine ⟨fun _ late => (excused late).mono (le.trans (grows.trans le')),
          fun last answer grows' told' => ?_⟩
        have upto : now ≤ last := le.trans (grows.trans (le'.trans grows'))
        rcases answer with error | url | url
        · exact serves upto
        · exact serves upto
        · intro putting le''
          exact ⟨fun _ late => (excused late).mono (upto.trans le''),
            fun _ _ grows'' _ => done_ (upto.trans (le''.trans grows'')) _⟩
  · exact serves le_rfl

theorem keeps_program (trace : Trace (reads fenceTtl urlTtl) run) :
    Keeps fenceTtl urlTtl run dropped thread call start
      (Answers fenceTtl urlTtl run dropped thread call start) start call.program := by
  cases call with
  | read tombstoneFirst redirects =>
      refine (keeps_singleBucketFileVisible trace le_rfl tombstoneFirst).yield_bind
        fun later le visible told => ?_
      split
      · rename_i passes
        exact keeps_deliver (fun late => told late passes) redirects
      · exact Lawful.yield_pure fun final beyond late other found => absurd rfl found
  | delete =>
      intro writing le
      refine ⟨fun delivers => delivers.elim, ?_⟩
      rintro later answer grows ⟨-, instant, asked, rfl, -, -, performs, -⟩
      cases answer with
      | error error => exact Lawful.yield_done fun _ _ _ same => by cases same
      | ok written =>
          intro dropping le'
          refine ⟨tombstoned_stays trace le' (performs_writeTombstone performs),
            fun last answer grows' told => ?_⟩
          intro deleting le''
          refine ⟨fun delivers => delivers.elim, fun final answer grows'' told' => ?_⟩
          exact Lawful.yield_done fun _ _ _ _ _ other => absurd rfl other

/-- A verdict recorded after the memories were dropped, by a call whose HEAD found no
tombstone, is one recorded late. -/
theorem recordsLate_of_permits (trace : Trace (reads fenceTtl urlTtl) run)
    (stands : (run dropped).store.tombstoned = true) (past : dropped < now)
    (underway : Underway (reads fenceTtl urlTtl) run thread call start now)
    (performed : Performed (reads fenceTtl urlTtl) run thread now call (.recordFenceVerdict true) ())
    (saw : SawNone fenceTtl urlTtl run thread start now call) :
    RecordsLate fenceTtl urlTtl run dropped now := by
  obtain ⟨seen, from_, before, headed⟩ := saw
  refine ⟨thread, call, start, seen, underway, from_, ?_, past, headed, performed⟩
  by_contra after
  have ⟨_, _, heads, _⟩ := headed
  have missing := (performs_headTombstone heads).1
  rw [tombstoned_stays trace (Nat.le_of_not_lt after) stands] at missing
  cases missing

theorem sealed_step (trace : Trace (reads fenceTtl urlTtl) run)
    (invalidated : Invalidated fenceTtl urlTtl run dropped)
    (holds : Sealed fenceTtl urlTtl run dropped now) (permitted : ∀ thread call op answer,
      Performed (reads fenceTtl urlTtl) run thread now call op answer → ∃ start,
        Underway (reads fenceTtl urlTtl) run thread call start now ∧
        Permits fenceTtl urlTtl run dropped thread call start now op) :
    Sealed fenceTtl urlTtl run dropped (now + 1) := by
  intro late
  obtain past | rfl := Nat.lt_succ_iff_lt_or_eq.mp late
  · obtain ⟨stood, known⟩ := holds past
    refine ⟨stood, fun since passes => ?_⟩
    have before (passes : (run now).store.verdict = some (true, since)) :
        ∃ recorded, RecordsLate fenceTtl urlTtl run dropped recorded ∧ recorded < now + 1 ∧
          since = (run recorded).store.clock := by
      obtain ⟨recorded, recordsLate, less, same⟩ := known since passes
      exact ⟨recorded, recordsLate, less.trans (Nat.lt_succ_self now), same⟩
    obtain ⟨thread, call, op, answer, performed⟩ | ⟨thread, call, -, next⟩ | ⟨drifts, -⟩ |
      ⟨thread, task, -, drops, -⟩ | paused := trace.cases now
    · have ⟨_, _, performs, _⟩ := performed
      obtain held | ⟨rfl, rfl⟩ := performs.verdict passes
      · exact before held
      · obtain ⟨start, underway, permits⟩ := permitted _ _ _ _ performed
        exact ⟨now, recordsLate_of_permits trace stood past underway performed (permits rfl),
          Nat.lt_succ_self now, rfl⟩
    · rw [next] at passes
      exact before passes
    · obtain same | none_ := drifts.verdict
      · exact before (same.symm.trans passes)
      · cases none_.symm.trans passes
    · rw [show (run (now + 1)).store = (run now).store from drops] at passes
      exact before passes
    · rw [paused] at passes
      exact before passes
  · obtain ⟨thread, call, performed⟩ := invalidated
    obtain ⟨start, -, stands⟩ := permitted _ _ _ _ performed
    refine ⟨stands, fun since passes => ?_⟩
    obtain ⟨-, -, performs, -⟩ := performed
    cases (performs_invalidate performs).symm.trans passes

/-- After a delete dropped the node's memories, every read that starts is refused, unless it
finds the young verdict of a read that had looked for the tombstone before the delete and
records what it saw after it. -/
theorem deleted_refused (trace : Trace (reads fenceTtl urlTtl) run)
    (idle : ∀ thread, (run 0).threads thread = none) (dropped : ℕ)
    (invalidated : Invalidated fenceTtl urlTtl run dropped) (thread begun : ℕ)
    (after : dropped < begun) (free : (run begun).threads thread = none)
    (tombstoneFirst redirects : Bool) :
    RefusedUnlessMisled fenceTtl urlTtl run dropped thread begun (.read tombstoneFirst redirects) := by
  have initial : Sealed fenceTtl urlTtl run dropped 0 := fun late => absurd late (Nat.not_lt_zero dropped)
  have lawful := trace.lawful idle (rules fenceTtl urlTtl run dropped) initial
    (fun now holds permitted => sealed_step trace invalidated holds permitted)
    (fun thread start call _ _ => keeps_program trace)
  have began {start now : ℕ} (underway : Underway (reads fenceTtl urlTtl) run thread
      (.read tombstoneFirst redirects) start now) (upto : begun < now) : begun < start := by
    by_contra early
    obtain ⟨program, task⟩ := underway.2.2 begun (by omega) upto.le
    cases free.symm.trans task
  have own {start now : ℕ}
      (misled : Misled fenceTtl urlTtl run dropped thread (.read tombstoneFirst redirects) start now)
      (late : begun < start) : Misled fenceTtl urlTtl run dropped thread
        (.read tombstoneFirst redirects) (begun + 1) now := by
    obtain ⟨recorded, asked, recordsLate, before, from_, upto, finds⟩ := misled
    exact ⟨recorded, asked, recordsLate, before, by omega, upto, finds⟩
  constructor
  · intro now op answer underway performed delivers
    have ⟨next, task, _⟩ := performed
    obtain ⟨start, own_, kept⟩ := (lawful now).2 thread _ _ task
    have permits := (kept now le_rfl).1
    have late := began own_ (Nat.lt_of_succ_le underway.2.1)
    cases op with
    | fresh => exact own (permits trivial (after.trans late)) late
    | presignGet => exact own (permits trivial (after.trans late)) late
    | put url => exact own (permits trivial (after.trans late)) late
    | serveArtifact => exact own (permits trivial (after.trans late)) late
    | _ => exact delivers.elim
  · intro now reply underway task found
    obtain ⟨start, own_, kept⟩ := (lawful now).2 thread _ _ task
    have late := began own_ (Nat.lt_of_succ_le underway.2.1)
    exact own (kept now le_rfl reply rfl (after.trans late) (by simp) found) late

end Runs

section Samples

/-- Storage that answers, except that the delete fails after its tombstone. -/
def serving : Server (reads 30 300) where
  serve _ node op := match op with
    | .fenceVerdict => (unexpired node.verdict 30 node.clock, node)
    | .headTombstone => (.ok node.tombstoned, node)
    | .headFrozen => (.ok node.frozen, node)
    | .recordFenceVerdict visible => ((), { node with verdict := some (visible, node.clock) })
    | .fresh => (unexpired node.url 300 node.clock, node)
    | .presignGet => (.ok (some "signed"), node)
    | .put url => ((), { node with url := some (url, node.clock) })
    | .serveArtifact => (.ok (), node)
    | .writeTombstone => (.ok (), { node with tombstoned := true })
    | .invalidate => ((), { node with verdict := none, url := none })
    | .deleteKeys => (.error "storage error", node)
  sound _ _ op := by cases op <;> constructor

def coldNode : Config Node ReadCall ReadOp ReadOp.Ans String Reply :=
  ⟨⟨false, false, none, none, 0⟩, fun _ => none⟩

/-- A read finds no tombstone, a delete runs and drops the memories, and then the read
records its verdict. -/
def recordsLate : List (Move (reads 30 300)) :=
  .start 0 (.read true true) :: List.replicate 3 (.perform 0 serving) ++
    .start 1 .delete :: List.replicate 3 (.perform 1 serving) ++ [.perform 0 serving] ++
    .start 2 (.read true true) :: List.replicate 4 (.perform 2 serving)

/-- The next read is let pass on that verdict and redirected to a URL signed for it. -/
theorem recordsLate_redirected :
    (replay coldNode recordsLate 14).threads 2 = some (.read true true, .done (.ok (.redirect "signed"))) ∧
    Misled 30 300 (replay coldNode recordsLate) 6 2 (.read true true) 10 14 := by
  have dropped : Invalidated 30 300 (replay coldNode recordsLate) 6 :=
    ⟨1, .delete, performed_replay rfl rfl⟩
  have underway : Underway (reads 30 300) (replay coldNode recordsLate) 2 (.read true true) 10 14 := by
    refine ⟨rfl, by decide, fun between from_ upto => ?_⟩
    obtain rfl | rfl | rfl | rfl | rfl : between = 10 ∨ between = 11 ∨ between = 12 ∨ between = 13 ∨
      between = 14 := by omega
    all_goals exact ⟨_, rfl⟩
  exact ⟨rfl, (deleted_refused (trace_replay _ _) (fun _ => rfl) 6 dropped 2 9 (by decide) rfl
    true true).answers 14 _ underway rfl (by decide)⟩

end Samples
end Pypiron.DeleteVisibility
