import Pypiron.Publish.Duty

/-! Private filenames are immutable. A body stands from its create until a
tombstone, unless the call that created it takes it back: whoever else would
delete it must have created a body under the same key in between. -/
namespace Pypiron.Publish
open Program Replicate ThreadPool
variable {site : Site Unit} {md5 : Bytes → String} {labels : Labels} {pkg f : String}
variable {run : RecordRun site.encoding} {thread now later first last : ℕ}
variable {call : RecordCall site.encoding}

/-- A run of any number of calls over one bucket, whatever stands in it at first. -/
structure RecordTrace (site : Site Unit) (md5 : Bytes → String) (labels : Labels) (pkg : String)
    (run : RecordRun site.encoding) : Prop where
  trace : Trace (records site md5 labels pkg) run
  idle : ∀ thread, (run 0).threads thread = none

/-- The upload is answered with success. -/
def Acknowledged (run : RecordRun site.encoding) (thread now : ℕ) (node : AppState) (f : String)
    (req : PublishRequest site.encoding) : Prop :=
  (run now).threads thread = some (.publish node f req, .done (.ok (.answered .ok)))

namespace RecordTrace

theorem kept (runs : RecordTrace site md5 labels pkg run) :
    (∀ thread call now op answer,
      Performed (records site md5 labels pkg) run thread now call op answer → ∃ start,
        Underway (records site md5 labels pkg) run thread call start now ∧
        Owes (records site md5 labels pkg) run thread start now op) ∧
    ∀ thread call now value, (run now).threads thread = some (call, .done (.ok value)) →
      ∃ start since, Underway (records site md5 labels pkg) run thread call start now ∧
        start ≤ since ∧ Quiet run thread since now ∧
        Duty site md5 labels pkg run thread start since call :=
  runs.trace.kept runs.idle (fun thread _ start now op _ =>
      Owes (records site md5 labels pkg) run thread start now op)
    (fun thread call start since _ => Duty site md5 labels pkg run thread start since call)
    fun _ _ _ _ => safe_program

/-- The bucket changes by the operations of the calls only. -/
theorem store_step (runs : RecordTrace site md5 labels pkg run) (now : ℕ) :
    (run (now + 1)).store = (run now).store ∨ ∃ thread call op answer,
      Performed (records site md5 labels pkg) run thread now call op answer ∧
      Performs site md5 (run now).store op answer (run (now + 1)).store := by
  obtain ⟨thread, call, op, answer, performed⟩ | ⟨_, _, _, next⟩ | ⟨drifts, _⟩ |
    ⟨_, _, _, dropped, _⟩ | paused := runs.trace.cases now
  · have ⟨_, _, performs, _⟩ := performed
    exact .inr ⟨thread, call, op, answer, performed, performs⟩
  · exact .inl (by rw [next, Config.setThread_store])
  · exact drifts.elim
  · exact .inl dropped
  · exact .inl (by rw [paused])

theorem tombstone_stays (runs : RecordTrace site md5 labels pkg run) (le : first ≤ last)
    (tombstoned : Tombstoned (run first).store f) : Tombstoned (run last).store f := by
  induction last, le using Nat.le_induction with
  | base => exact tombstoned
  | succ last _ ih =>
      obtain same | ⟨thread, call, op, answer, performed, performs⟩ := runs.store_step last
      · rwa [same]
      · obtain ⟨_, _, owes⟩ := runs.kept.1 _ _ _ _ _ performed
        exact performs.tombstone_step owes.allowed ih

/-- A claim's versions only go up, and one version is one claim. -/
theorem claim_versions (runs : RecordTrace site md5 labels pkg run) (le : first ≤ last)
    {held : OriginObservation} (found : claimAt (run first).store = some held) :
    ∃ held', claimAt (run last).store = some held' ∧ held.etag ≤ held'.etag ∧
      (held'.etag = held.etag → held' = held) := by
  induction last, le using Nat.le_induction with
  | base => exact ⟨held, found, le_rfl, fun _ => rfl⟩
  | succ last _ ih =>
      obtain ⟨held', found', upto, same⟩ := ih
      obtain still | ⟨thread, call, op, answer, performed, performs⟩ := runs.store_step last
      · exact ⟨held', by rw [still]; exact found', upto, same⟩
      · obtain still | ⟨_, absent, _⟩ | ⟨replaced, state, stood, _, stands⟩ := performs.claim_step
        · exact ⟨held', by rw [still]; exact found', upto, same⟩
        · cases found'.symm.trans absent
        · cases found'.symm.trans stood
          refine ⟨_, stands, Nat.le_succ_of_le upto, fun etag => ?_⟩
          exact absurd etag (by dsimp only; omega)

/-- Nobody takes a claim from either world. -/
theorem claim_stays (runs : RecordTrace site md5 labels pkg run) (le : first ≤ last)
    {state : OriginState} {etag : ℕ} (found : claimAt (run first).store = some ⟨state, etag⟩)
    (owned : state ≠ .unclaimed) : claimAt (run last).store = some ⟨state, etag⟩ := by
  induction last, le using Nat.le_induction with
  | base => exact found
  | succ last _ ih =>
      obtain still | ⟨thread, call, op, answer, performed, performs⟩ := runs.store_step last
      · rwa [still]
      · obtain still | ⟨_, absent, _⟩ | ⟨replaced, target, stood, rfl, _⟩ := performs.claim_step
        · rwa [still]
        · cases ih.symm.trans absent
        · cases ih.symm.trans stood
          obtain ⟨_, _, owes⟩ := runs.kept.1 _ _ _ _ _ performed
          obtain ⟨seen, before, unclaimed⟩ := owes.unclaimed etag target rfl
          obtain ⟨held, found', _, same⟩ := runs.claim_versions before unclaimed
          cases found'.symm.trans ih
          have owner := congrArg OriginObservation.state (same rfl)
          exact absurd owner owned

/-- The two worlds exclude each other over a whole run. -/
theorem one_world (runs : RecordTrace site md5 labels pkg run)
    (priv : ClaimSeen run .priv first) : ¬ClaimSeen run .mirror last := by
  rintro ⟨there, _, mirrored, stood⟩
  obtain ⟨here, _, etag, stands⟩ := priv
  obtain le | le := Nat.le_total here there
  · cases (runs.claim_stays le stands nofun).symm.trans stood
  · cases (runs.claim_stays le stood nofun).symm.trans stands

/-- A body stands where it was created, as long as there is no tombstone and its
creator does not delete it. By induction on the instant: another deleter has
created a body of its own, before or after this one, and that would have stood. -/
theorem body_stands (runs : RecordTrace site md5 labels pkg run)
    (unmirrored : ∀ last, ¬ClaimSeen run .mirror last) (now : ℕ) :
    ∀ thread created body landed, Landed (records site md5 labels pkg) run thread created f body landed →
      created < now → ¬Tombstoned (run now).store f →
      (∀ instant, created < instant → instant < now → ∀ call answer start,
        Performed (records site md5 labels pkg) run thread instant call
          (.store (.delete () f .body)) answer →
        Underway (records site md5 labels pkg) run thread call start instant → created < start) →
      (run now).store.read () f .body = some landed := by
  induction now using Nat.strong_induction_on with
  | _ now ih =>
    intro thread created body landed lands before untombstoned spared
    have clear (earlier : ℕ) (le : earlier ≤ now) : ¬Tombstoned (run earlier).store f :=
      fun tombstoned => untombstoned (runs.tombstone_stays le tombstoned)
    have upto (earlier : ℕ) (after : created < earlier) (le : earlier < now) :
        (run earlier).store.read () f .body = some landed :=
      ih earlier le thread created body landed lands after (clear earlier le.le)
        fun instant from_ to_ => spared instant from_ (to_.trans le)
    obtain ⟨now, rfl⟩ := Nat.exists_eq_succ_of_ne_zero (Nat.ne_zero_of_lt before)
    obtain rfl | after := Nat.eq_or_lt_of_le (Nat.lt_succ_iff.mp before)
    · obtain ⟨_, _, _, _, stands, _⟩ := lands
      exact stands
    have stood := upto now after (Nat.lt_succ_self now)
    obtain still | ⟨deleter, call, op, answer, performed, performs⟩ := runs.store_step now
    · rwa [Nat.succ_eq_add_one, still]
    obtain ⟨start, underway, owes⟩ := runs.kept.1 _ _ _ _ _ performed
    obtain same | ⟨rfl, _⟩ | ⟨_, _, _, absent, _⟩ := performs.body_step (f := f) owes.allowed
    · rwa [Nat.succ_eq_add_one, same]
    · exfalso
      obtain ⟨seen, le, tombstoned⟩ | ⟨own, body', landed', began, made, lands', untouched⟩ | mirrored :=
        owes.excused f rfl
      · exact clear seen (Nat.le_succ_of_le le) tombstoned
      · have ⟨_, _, create, absent', _, _⟩ := lands'
        obtain earlier | rfl | later := Nat.lt_trichotomy own created
        · have ⟨_, _, _, absent, _, _⟩ := lands
          have stood' := ih created before deleter own body' landed' lands' earlier
            (clear created before.le) fun instant from_ to_ _ _ _ again _ =>
              absurd (.inr rfl) (untouched instant from_ (to_.trans after) _ _ _ again)
          cases stood'.symm.trans absent
        · have ⟨_, _, create', _⟩ := lands
          obtain rfl := create.unique create'
          exact absurd began (Nat.not_le.mpr (spared now after (Nat.lt_succ_self now) _ _ _ performed underway))
        · cases (upto own later (Nat.lt_succ_of_lt made)).symm.trans absent'
      · exact unmirrored _ mirrored
    · cases stood.symm.trans absent

/-- An answered call makes no operation more. -/
theorem done_stays (runs : RecordTrace site md5 labels pkg run) {start : ℕ}
    {result : Except Refusal RecordOutcome}
    (underway : Underway (records site md5 labels pkg) run thread call start last)
    (from_ : start ≤ now) (le : now ≤ last)
    (ended : (run now).threads thread = some (call, .done result)) :
    (run last).threads thread = some (call, .done result) := by
  have stays (later : ℕ) (le : now ≤ later) (upto : later ≤ last) :
      (run later).threads thread = some (call, .done result) := by
    induction later, le using Nat.le_induction with
    | base => exact ended
    | succ later le ih =>
        have held := ih (Nat.le_of_succ_le upto)
        obtain ⟨mover, _, _, _, ⟨_, task, _, after⟩⟩ | ⟨mover, _, free, next⟩ | ⟨drifts, _⟩ |
          ⟨mover, _, _, _, next⟩ | paused := runs.trace.cases later
        · by_cases mine : thread = mover
          · subst mine
            cases held.symm.trans task
          · rw [after, Config.setThread_other _ mine]
            exact held
        · by_cases mine : thread = mover
          · subst mine
            cases held.symm.trans free
          · rw [next, Config.setThread_other _ mine]
            exact held
        · exact drifts.elim
        · by_cases mine : thread = mover
          · subst mine
            obtain ⟨program, going⟩ := underway.2.2 (later + 1) (by omega) upto
            rw [next, Function.update_self] at going
            cases going
          · rw [next, Function.update_of_ne mine]
            exact held
        · rw [paused]
          exact held
  exact stays last le le_rfl

end RecordTrace

/-- An upload whose body was created behind a tombstone is never acknowledged, and
from the acknowledgement of a private upload until a tombstone its bytes stand,
whatever any other call does meanwhile. -/
theorem private_filename_immutable (runs : RecordTrace site md5 labels pkg run)
    {node : AppState} {req : PublishRequest site.encoding}
    (acknowledged : Acknowledged run thread now node f req) :
    (∀ created < now, ∀ body landed,
      Landed (records site md5 labels pkg) run thread created f body landed →
        ¬Tombstoned (run created).store f) ∧
    (req.isMirror = false → ∀ later ≥ now, ¬Tombstoned (run later).store f →
      (run later).store.read () f .body = some req.body) := by
  obtain ⟨begun, since, underway, _, quiet, world, created, checked, fenced, published⟩ :=
    runs.kept.2 _ _ _ _ acknowledged
  have standing := published.standing
  obtain ⟨landed, lands⟩ := standing.landed
  have silent (instant : ℕ) (after : created < instant) (upto : instant < now) {op : RecordOp}
      {answer : op.Ans} {call : RecordCall site.encoding}
      (performed : Performed (records site md5 labels pkg) run thread instant call op answer) :
      ¬WritesBody f op :=
    (standing.untouched.quiet quiet) instant after upto _ _ _ performed
  have order : created < fenced ∧ fenced < now :=
    ⟨standing.before.trans published.after, published.upto.trans_le quiet.1⟩
  refine ⟨fun other before body part lands' tombstoned => ?_, fun isPrivate later le untombstoned => ?_⟩
  · obtain beyond | upto := Nat.lt_or_ge created other
    · obtain ⟨_, _, create, _⟩ := lands'
      exact silent other beyond before create (.inl ⟨body, rfl⟩)
    · exact published.unfenced (runs.tombstone_stays (upto.trans order.1.le) tombstoned)
  · rw [isPrivate] at world
    have unmirrored (last : ℕ) : ¬ClaimSeen run .mirror last := runs.one_world world
    have body_eq : landed = req.body := by
      have ⟨_, _, _, _, _, starts⟩ := lands
      obtain ⟨stored, found, sized⟩ := standing.sized
      have stood := runs.body_stands unmirrored checked thread created req.body landed lands
        standing.before
        (fun tombstoned => published.unfenced (runs.tombstone_stays published.after.le tombstoned))
        fun instant from_ to_ _ _ _ again _ => absurd (.inr rfl)
          (silent instant from_ (by have := published.after; omega) again)
      cases stood.symm.trans found
      exact starts.eq_of_length sized
    rw [← body_eq]
    refine runs.body_stands unmirrored later thread created req.body landed lands (by omega) untombstoned ?_
    intro instant from_ to_ call answer start performed underway'
    by_contra earlier
    obtain before | beyond := Nat.lt_or_ge instant now
    · exact silent instant from_ before performed (.inr rfl)
    · -- the same call, which has been answered
      obtain ⟨program, task⟩ := underway'.2.2 now (by omega) beyond
      rw [acknowledged, Option.some.injEq, Prod.mk.injEq] at task
      obtain ⟨rfl, _⟩ := task
      have ended := runs.done_stays underway' (by omega) beyond acknowledged
      obtain ⟨_, going, _⟩ := performed
      cases ended.symm.trans going

/-! ### A first upload -/

theorem nothing_listed : ∀ x ∉ ([] : List String), ∀ k : Kind, (none : Option k.Content) = none :=
  fun _ _ _ => rfl

def emptyBucket : Fleet Unit :=
  fun _ => ⟨none, [], fun _ _ => none, 0, fun _ _ => 0, nothing_listed⟩

def sampleSite : Site Unit where
  encoding := ⟨fun body => toString body.length, fun _ => []⟩
  mutationsFenced := false
  allows _ _ := false
  copyVerb _ _ _ := .notCopyable
  bucketName _ := "home"

def sampleLabels : Labels := ⟨fun _ => none, fun _ => none⟩

def sampleNode : AppState := ⟨false, true, false, ""⟩

def sampleRequest (body : Bytes) : PublishRequest sampleSite.encoding where
  body := body
  sha256 := sampleSite.encoding.sha256 body
  md5 := ""
  size := body.length
  version := "1.0"
  requiresPython := none
  isMirror := false
  uploadTime := ""
  yanked := .flag false
  wheelMetadata := none
  isWheel := false
  provenance := none
  hashed := rfl
  sized := rfl

/-- Every request is served. -/
def serving (site : Site Unit) (s : Fleet Unit) : (op : RecordOp) → op.Ans × Fleet Unit
  | .store op => apply site op s
  | .storeContentChecksum _ _ => (.ok none, s)
  | .nowEpochMillis => ((0 : ℕ), s)
  | .fanoutSync _ => (.ok (), s)

def server (site : Site Unit) (md5 : Bytes → String) (labels : Labels) (pkg : String) :
    Server (records site md5 labels pkg) where
  serve _ s op := serving site s op
  sound _ s op := by
    cases op with
    | store op => exact .served op
    | storeContentChecksum f hex => exact .checksum f hex (.ok none) nofun
    | nowEpochMillis => exact .clock 0
    | fanoutSync f => exact .fanout f (.ok ())

def sampleSystem : RecordSystem sampleSite.encoding :=
  records sampleSite (fun _ => "") sampleLabels "pkg"

def served (thread : ℕ) : Move sampleSystem :=
  .perform thread (server sampleSite (fun _ => "") sampleLabels "pkg")

/-- Two uploads of other bytes under one name, which take turns. -/
def firstUpload : List (Move sampleSystem) :=
  .start 0 (.publish sampleNode "a.whl" (sampleRequest [1, 2])) ::
    .start 1 (.publish sampleNode "a.whl" (sampleRequest [3])) ::
    (List.range 12).flatMap fun _ => [served 0, served 1]

def firstUploadRun : RecordRun sampleSite.encoding := replay ⟨emptyBucket, fun _ => none⟩ firstUpload

theorem firstUpload_acknowledged :
    Acknowledged firstUploadRun 0 25 sampleNode "a.whl" (sampleRequest [1, 2]) := by
  rfl

theorem firstUpload_lands :
    Landed sampleSystem firstUploadRun 0 10 "a.whl" [1, 2] [1, 2] :=
  ⟨_, _, performed_replay rfl rfl, rfl, rfl, List.prefix_rfl⟩

/-- The second upload fails, and the first one's bytes stand. -/
theorem firstUpload_immutable : ¬Tombstoned (firstUploadRun 10).store "a.whl" ∧
    (∃ error, (firstUploadRun 25).threads 1 =
      some (.publish sampleNode "a.whl" (sampleRequest [3]), .done (.error error))) ∧
    (firstUploadRun 25).store.read () "a.whl" .body = some [1, 2] := by
  obtain ⟨unfenced, stands⟩ :=
    private_filename_immutable ⟨trace_replay _ _, fun _ => rfl⟩ firstUpload_acknowledged
  refine ⟨unfenced 10 (by decide) [1, 2] [1, 2] firstUpload_lands, ⟨_, rfl⟩, ?_⟩
  exact stands rfl 25 le_rfl (by decide +kernel)

end Pypiron.Publish
