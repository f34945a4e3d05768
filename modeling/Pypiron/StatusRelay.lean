import Pypiron.Contention
import Pypiron.Render

/-! Status events recorded over what stands, and the two ways an upstream status is
relayed: by the proxy, which records what it observed, and by a sync run, which asks the
destination to change. -/
namespace Pypiron.StatusRelay
open Contention
open VersionedCell (Request)
open Render (isActive pep691ProjectJson)

/-- A marker as it is stored: an event, or a body that does not parse. -/
inductive StatusBody where
  | event (stored : StoredProjectStatus)
  | garbled (error : String)
  deriving DecidableEq

abbrev StatusM := Program (Request StatusBody) Request.Ans String

def parseStatus : Option (StatusBody × ℕ) → Except String (Option VersionedProjectStatus)
  | none => .ok none
  | some (.event stored, etag) => .ok (some ⟨stored, etag⟩)
  | some (.garbled error, _) => .error error

def readStatusVersioned : StatusM (Option VersionedProjectStatus) := do
  let found ← getWithEtag
  .done (parseStatus found)

def putStatusIfVersion (expectedEtag : Option ℕ) (event : StoredProjectStatus) : StatusM Bool :=
  match expectedEtag with
  | some etag => .call (.putIfMatch etag (.event event)) fun answer => .done (Except.map Option.isSome answer)
  | none => .call (.putIfNoneMatch (.event event)) fun answer => .done (Except.map Option.isSome answer)

def u64Max : ℕ := 2 ^ 64 - 1

def saturatingSucc (epoch : ℕ) : ℕ := min (epoch + 1) u64Max

def nextEpoch (current : Option VersionedProjectStatus) : ℕ :=
  current.elim 1 fun status => saturatingSucc status.epoch

def exhausted (pkg : String) : String :=
  "could not update project status for '" ++ pkg ++ "' after 8 attempts"

section Advance
variable (pkg : String) (doc : ProjectStatusDoc) (origin : Option Origin)
  (keep : Option VersionedProjectStatus → Bool)

def advanceStatusLoop : ℕ → StatusM (Option ℕ)
  | 0 => .bail (exhausted pkg)
  | attempts + 1 => do
    let current ← readStatusVersioned
    if keep current then
      let epoch := nextEpoch current
      if ← putStatusIfVersion (current.map (·.etag)) ⟨doc, epoch, origin⟩ then pure (some epoch)
      else advanceStatusLoop attempts
    else pure none

def advanceStatusIf : StatusM (Option ℕ) := advanceStatusLoop pkg doc origin keep statusCasAttempts

/-- What one attempt makes of a marker. -/
def judge (read : Option (StatusBody × ℕ)) : Except String (Option (StatusBody × ℕ)) := do
  let current ← parseStatus read
  if keep current then pure (some (.event ⟨doc, nextEpoch current, origin⟩, nextEpoch current))
  else pure none

theorem advanceStatusLoop_eq (attempts : ℕ) : advanceStatusLoop pkg doc origin keep attempts =
    optimistic (judge doc origin keep) (exhausted pkg) attempts := by
  induction attempts with
  | zero => rfl
  | succ attempts ih =>
      rw [advanceStatusLoop, optimistic, ih]
      unfold readStatusVersioned getWithEtag
      simp only [Program.bind_call]
      congr 1
      funext answer
      change Except String (Option (StatusBody × ℕ)) at answer
      cases answer with
      | error text => rfl
      | ok read =>
          have judged (current : Option VersionedProjectStatus) (parsed : parseStatus read = .ok current)
              (etags : current.map (·.etag) = read.map (·.2)) :
              (if keep current then do
                  if ← putStatusIfVersion (current.map (·.etag)) ⟨doc, nextEpoch current, origin⟩ then
                    pure (some (nextEpoch current))
                  else optimistic (judge doc origin keep) (exhausted pkg) attempts
                else pure none) =
              carryOut read (optimistic (judge doc origin keep) (exhausted pkg) attempts)
                (judge doc origin keep read) := by
            rw [judge, parsed]
            by_cases kept : keep current = true
            · rw [if_pos kept, etags]
              simp only [bind, Except.bind, if_pos kept]
              cases read with
              | none => rfl
              | some version => rfl
            · rw [if_neg kept]
              simp only [bind, Except.bind, if_neg kept]
              rfl
          obtain _ | ⟨stored | error, etag⟩ := read
          · exact judged none rfl rfl
          · exact judged (some ⟨stored, etag⟩) rfl rfl
          · rfl

end Advance

/-! ### The proxy's relay -/

/-- May an observed upstream status replace what stands? -/
def relayReplaces (observed : ProjectStatusDoc) (current : Option VersionedProjectStatus) : Bool :=
  match current with
  | some cur => cur.origin != some .priv && cur.doc != observed
  | none => observed != default

/-- Whether it wrote; the dirty mark that follows a write is not part of the marker. -/
def reconcileObservedStatus (pkg : String) (observed : ProjectStatusDoc) : StatusM Bool := do
  let wrote ← advanceStatusIf pkg observed (some .mirror) (relayReplaces observed)
  pure wrote.isSome

/-! ### What upstream says -/

section Upstream
variable {Json : Type} (parse : Json → Option ProjectStatusDoc)

/-- The part of a listing that tells the project's status. -/
structure SimpleIndex where
  projectStatus : Option ProjectStatusDoc
  projectStatusUnparseable : Bool

def SimpleIndex.ofRaw (projectStatus : Option Json) : SimpleIndex :=
  let parsed := projectStatus.map parse
  { projectStatusUnparseable := parsed.any Option.isNone, projectStatus := parsed.join }

inductive UpstreamStatus where
  | absent
  | known (doc : ProjectStatusDoc)
  | unparseable
  deriving DecidableEq

def SimpleIndex.upstreamStatus (index : SimpleIndex) : UpstreamStatus :=
  match index.projectStatus, index.projectStatusUnparseable with
  | some doc, _ => .known doc
  | none, true => .unparseable
  | none, false => .absent

/-- The status of a fetched listing, as the proxy renders and records it. -/
def fetchedStatus (index : SimpleIndex) : ProjectStatusDoc := index.projectStatus.getD default

end Upstream

/-! ### The relay of a sync run -/

inductive StatusRequest where
  | clear
  | set (doc : ProjectStatusDoc)
  deriving DecidableEq

/-- What a sync run asks of the destination, given the status in its own listing. -/
def relayStatus (localStatus : Option ProjectStatusDoc) (upstream : UpstreamStatus) : Option StatusRequest :=
  match upstream with
  | .unparseable => none
  | .known doc => drift (if isActive doc.status then default else doc)
  | .absent => drift default
where
  drift (desired : ProjectStatusDoc) : Option StatusRequest :=
    if localStatus.getD default = desired then none
    else if isActive desired.status then some .clear
    else some (.set desired)

/-- The status a destination's listing carries. -/
def listed (stands : ProjectStatusDoc) : Option ProjectStatusDoc :=
  if isActive stands.status then none else some stands

/-- What stands at the destination once it has done what it was asked. -/
def granted (stands : ProjectStatusDoc) : Option StatusRequest → ProjectStatusDoc
  | none => stands
  | some .clear => default
  | some (.set doc) => doc

/-! ### Atomicity -/

section Atomic
variable {pkg : String} {doc observed : ProjectStatusDoc} {origin : Option Origin}
  {keep : Option VersionedProjectStatus → Bool} {cell last : VersionedCell StatusBody}
  {moments : List (Moment StatusBody)}

/-- The event is recorded over what stands at that instant, one epoch further. -/
def Records (doc : ProjectStatusDoc) (origin : Option Origin) (keep : Option VersionedProjectStatus → Bool)
    (moment : Moment StatusBody) (epoch : ℕ) : Prop :=
  ∃ current, parseStatus moment.before.get = .ok current ∧ keep current = true ∧
    epoch = nextEpoch current ∧ moment.after = moment.before.write (.event ⟨doc, epoch, origin⟩)

theorem judge_ok {read : Option (StatusBody × ℕ)} {verdict : Option (StatusBody × ℕ)}
    (judged : judge doc origin keep read = .ok verdict) :
    ∃ current, parseStatus read = .ok current ∧
      verdict = if keep current then some (.event ⟨doc, nextEpoch current, origin⟩, nextEpoch current) else none := by
  unfold judge at judged
  cases parsed : parseStatus read with
  | error text =>
      rw [parsed] at judged
      cases judged
  | ok current =>
      rw [parsed] at judged
      refine ⟨current, rfl, ?_⟩
      simp only [bind, Except.bind] at judged
      split at judged
      · rename_i kept
        rw [if_pos kept]
        cases judged
        rfl
      · rename_i dropped
        rw [if_neg dropped]
        cases judged
        rfl

theorem judge_error {read : Option (StatusBody × ℕ)} {text : String}
    (judged : judge doc origin keep read = .error text) : parseStatus read = .error text := by
  unfold judge at judged
  cases parsed : parseStatus read with
  | error text' =>
      rw [parsed] at judged
      cases judged
      rfl
  | ok current =>
      rw [parsed] at judged
      simp only [bind, Except.bind] at judged
      split at judged <;> cases judged

theorem records_of_took {epoch : ℕ} (took : Took (judge doc origin keep) moments epoch) :
    ∃ moment, own moments = [moment] ∧ Records doc origin keep moment epoch := by
  obtain ⟨moment, body, only, judged, wrote⟩ := took
  obtain ⟨current, parsed, verdict⟩ := judge_ok judged
  split at verdict
  · rename_i kept
    cases verdict
    exact ⟨moment, only, current, parsed, kept, rfl, wrote⟩
  · cases verdict

/-- What a finished call says of its moments. -/
def Atomic (doc : ProjectStatusDoc) (origin : Option Origin) (keep : Option VersionedProjectStatus → Bool)
    (moments : List (Moment StatusBody)) : Except String (Option ℕ) → Prop
  | .ok (some epoch) => ∃ moment, own moments = [moment] ∧ Records doc origin keep moment epoch
  | .ok none => own moments = [] ∧ ∃ moment ∈ moments, ∃ current,
      parseStatus moment.before.get = .ok current ∧ keep current = false
  | .error _ =>
      (own moments = [] ∨ ∃ moment epoch, own moments = [moment] ∧ Records doc origin keep moment epoch) ∧
      ((∃ moment ∈ moments, moment.failed = true) ∨
        (∃ moment ∈ moments, ∃ garbled, parseStatus moment.before.get = .error garbled) ∨
        statusCasAttempts ≤ others moments)

/-- Whatever others do to the marker and whichever requests fail, a call records its event at
one instant at most, over a status it would replace at that instant. -/
theorem advanceStatusIf_atomic {result : Except String (Option ℕ)}
    (run : Amid (advanceStatusIf pkg doc origin keep) cell moments result last) :
    Atomic doc origin keep moments result := by
  rw [advanceStatusIf, advanceStatusLoop_eq] at run
  have linear := optimistic_linear _ _ run
  cases result with
  | error text =>
      obtain ⟨effect, cause⟩ := linear
      constructor
      · obtain quiet | ⟨epoch, took⟩ := effect
        · exact .inl quiet
        · obtain ⟨moment, only, records⟩ := records_of_took took
          exact .inr ⟨moment, epoch, only, records⟩
      · obtain failed | ⟨moment, member, garbled, judged⟩ | contended := cause
        · exact .inl failed
        · exact .inr (.inl ⟨moment, member, garbled, judge_error judged⟩)
        · exact .inr (.inr contended)
  | ok value =>
      cases value with
      | some epoch => exact records_of_took linear
      | none =>
          obtain ⟨quiet, moment, member, judged⟩ := linear
          obtain ⟨current, parsed, verdict⟩ := judge_ok judged
          refine ⟨quiet, moment, member, current, parsed, ?_⟩
          by_contra kept
          rw [if_pos (by simpa using kept)] at verdict
          cases verdict

def quarantine : ProjectStatusDoc := ⟨.quarantined, some "bad release"⟩

/-- Nothing stands when the freeze is first tried, and another event lands before it. -/
theorem quarantine_atomic : ∃ moments last,
    others moments = 1 ∧
    Amid (advanceStatusIf "demo" quarantine none fun _ => true) .empty moments (.ok (some 2)) last ∧
    Atomic quarantine none (fun _ => true) moments (.ok (some 2)) := by
  have raced : Raced 1 (advanceStatusIf "demo" quarantine none fun _ => true) .empty (.ok (some 2)) := by
    refine .mine .got ?_
    refine .other (.written (.event ⟨default, 1, none⟩)) (etag_write_ne _ _) ?_
    refine .mine (.occupied rfl) ?_
    refine .mine .got ?_
    exact .mine (.replaced rfl) .done
  obtain ⟨moments, last, one, run⟩ := raced
  exact ⟨moments, last, one, run, advanceStatusIf_atomic run⟩

end Atomic

/-! ### Rounds -/

section Rounds
variable {pkg : String} {observed : ProjectStatusDoc} {cell : VersionedCell StatusBody}

/-- A relay with nobody else about records what it observed, unless nothing is to change. -/
theorem alone_reconcile {current : Option VersionedProjectStatus} (parsed : parseStatus cell.get = .ok current) :
    alone (reconcileObservedStatus pkg observed) cell =
      if relayReplaces observed current then
        (.ok true, cell.write (.event ⟨observed, nextEpoch current, some .mirror⟩))
      else (.ok false, cell) := by
  have first : reconcileObservedStatus pkg observed =
      (advanceStatusLoop pkg observed (some .mirror) (relayReplaces observed) (7 + 1) >>= fun wrote =>
        pure wrote.isSome) := rfl
  rw [first, advanceStatusLoop]
  unfold readStatusVersioned getWithEtag
  simp only [Program.bind_call, alone, VersionedCell.serve]
  cases found : cell.get with
  | none =>
      rw [found] at parsed
      cases parsed
      simp only [Program.bind_ok, parseStatus]
      split
      · simp only [Option.map_none, putStatusIfVersion, Program.bind_call, alone, VersionedCell.serve, found]
        rfl
      · rfl
  | some version =>
      obtain ⟨stored | error, etag⟩ := version
      · rw [found] at parsed
        cases parsed
        simp only [Program.bind_ok, parseStatus]
        split
        · simp only [Option.map_some, putStatusIfVersion, Program.bind_call, alone, VersionedCell.serve,
            found, if_true]
          rfl
        · rfl
      · rw [found] at parsed
        cases parsed

/-- The proxy's durable marker after a poll of each of these listings. -/
def pollRounds {Json : Type} (parse : Json → Option ProjectStatusDoc) (pkg : String)
    (cell : VersionedCell StatusBody) (listings : List (Option Json)) : VersionedCell StatusBody :=
  listings.foldl (fun cell raw =>
    (alone (reconcileObservedStatus pkg (fetchedStatus (.ofRaw parse raw))) cell).2) cell

/-- The destination's status after a sync run against each of these listings. -/
def syncRounds {Json : Type} (parse : Json → Option ProjectStatusDoc) (stands : ProjectStatusDoc)
    (listings : List (Option Json)) : ProjectStatusDoc :=
  listings.foldl (fun stands raw =>
    granted stands (relayStatus (listed stands) (SimpleIndex.ofRaw parse raw).upstreamStatus)) stands

/-- What a listing says, where it can be read. -/
def readable {Json : Type} (parse : Json → Option ProjectStatusDoc) : Option Json → Option ProjectStatusDoc
  | none => some default
  | some raw => parse raw

/-- The status of the marker, absence standing for active. -/
def standing (cell : VersionedCell StatusBody) : Except String ProjectStatusDoc :=
  (parseStatus cell.get).map fun current => current.elim default (·.doc)

def OperatorHeld (cell : VersionedCell StatusBody) : Prop :=
  ∃ current, parseStatus cell.get = .ok (some current) ∧ current.origin = some .priv

variable {Json : Type} (parse : Json → Option ProjectStatusDoc) (listings : List (Option Json))

theorem fetchedStatus_ofRaw (raw : Option Json) :
    fetchedStatus (.ofRaw parse raw) = (readable parse raw).getD default := by
  cases raw with
  | none => rfl
  | some json => rfl

/-- One poll: the marker tells what was fetched, and is no operator's. -/
theorem poll_standing {stands : ProjectStatusDoc} (known : standing cell = .ok stands)
    (relayed : ¬OperatorHeld cell) (raw : Option Json) :
    standing (pollRounds parse pkg cell [raw]) = .ok ((readable parse raw).getD default) ∧
      ¬OperatorHeld (pollRounds parse pkg cell [raw]) := by
  rw [← fetchedStatus_ofRaw]
  generalize observed_ : fetchedStatus (.ofRaw parse raw) = observed
  cases parsed : parseStatus cell.get with
  | error text =>
      rw [standing, parsed] at known
      cases known
  | ok current =>
      have round : pollRounds parse pkg cell [raw] = (alone (reconcileObservedStatus pkg observed) cell).2 := by
        rw [← observed_]
        rfl
      rw [round, alone_reconcile parsed]
      split
      · constructor
        · rfl
        · rintro ⟨current', stored, byOperator⟩
          cases stored
          cases byOperator
      · rename_i kept
        refine ⟨?_, relayed⟩
        rw [standing, parsed]
        cases current with
        | none =>
            have same : observed = default := by simpa [relayReplaces] using kept
            rw [same]
            rfl
        | some cur =>
            have other : cur.origin ≠ some .priv := fun byOperator => relayed ⟨cur, parsed, byOperator⟩
            have same : cur.doc = observed := by simpa [relayReplaces, other] using kept
            rw [← same]
            rfl

/-- An operator's event is not touched by any number of polls. -/
theorem pollRounds_operatorHeld (held : OperatorHeld cell) : pollRounds parse pkg cell listings = cell := by
  obtain ⟨current, parsed, byOperator⟩ := held
  induction listings with
  | nil => rfl
  | cons raw listings ih =>
      have kept : relayReplaces (fetchedStatus (.ofRaw parse raw)) (some current) = false := by
        simp [relayReplaces, byOperator]
      rw [pollRounds, List.foldl_cons, alone_reconcile parsed, kept]
      exact ih

theorem pollRounds_standing {stands : ProjectStatusDoc} (known : standing cell = .ok stands)
    (relayed : ¬OperatorHeld cell) : standing (pollRounds parse pkg cell listings) =
      .ok ((listings.getLast?).elim stands fun raw => (readable parse raw).getD default) := by
  induction listings generalizing cell stands with
  | nil => exact known
  | cons raw listings ih =>
      have first : standing (pollRounds parse pkg cell [raw]) = _ ∧ _ := poll_standing parse known relayed raw
      have rest := ih first.1 first.2
      rw [pollRounds, List.foldl_cons]
      refine rest.trans ?_
      cases listings with
      | nil => rfl
      | cons next listings => rw [List.getLast?_cons_cons]; rfl

theorem listed_default : listed default = none := rfl

theorem upstreamStatus_ofRaw (raw : Option Json) :
    (SimpleIndex.ofRaw parse raw).upstreamStatus = match raw with
      | none => .absent
      | some json => (parse json).elim .unparseable .known := by
  cases raw with
  | none => rfl
  | some json =>
      cases parsed : parse json with
      | none => simp [SimpleIndex.ofRaw, SimpleIndex.upstreamStatus, parsed]
      | some doc => simp [SimpleIndex.ofRaw, SimpleIndex.upstreamStatus, parsed]

theorem listed_active {desired : ProjectStatusDoc} (plain : isActive desired.status = true) :
    listed desired = none := if_pos plain

/-- One sync run: the destination lists what upstream says, where that can be read. -/
theorem syncRound_listed (stands : ProjectStatusDoc) (raw : Option Json) :
    listed (granted stands (relayStatus (listed stands) (SimpleIndex.ofRaw parse raw).upstreamStatus)) =
      listed ((readable parse raw).getD stands) := by
  have drifts (desired : ProjectStatusDoc) :
      listed (granted stands (relayStatus.drift (listed stands) desired)) = listed desired := by
    unfold relayStatus.drift
    split
    · rename_i same
      rw [granted, ← same]
      by_cases plain : isActive stands.status = true
      · rw [listed_active plain]
        rfl
      · rw [listed, if_neg plain, Option.getD_some, listed, if_neg plain]
    · split
      · rename_i plain
        rw [listed_active plain]
        rfl
      · rfl
  rw [upstreamStatus_ofRaw]
  cases raw with
  | none => exact drifts default
  | some json =>
      cases parsed : parse json with
      | none =>
          simp only [readable, parsed]
          rfl
      | some doc =>
          simp only [readable, parsed, Option.elim_some, relayStatus, Option.getD_some]
          rw [drifts]
          split
          · rename_i plain
            rw [listed_active plain]
            rfl
          · rfl

theorem syncRounds_listed (stands : ProjectStatusDoc) :
    listed (syncRounds parse stands listings) = listed ((listings.filterMap (readable parse)).getLastD stands) := by
  have congruent (docs : List ProjectStatusDoc) {first second : ProjectStatusDoc}
      (same : listed first = listed second) :
      listed (docs.getLastD first) = listed (docs.getLastD second) := by
    cases docs with
    | nil => exact same
    | cons doc docs => rfl
  induction listings generalizing stands with
  | nil => rfl
  | cons raw listings ih =>
      rw [syncRounds, List.foldl_cons]
      refine (ih _).trans ((congruent _ (syncRound_listed parse stands raw)).trans ?_)
      cases said : readable parse raw with
      | none => rw [List.filterMap_cons_none said, Option.getD_none]
      | some doc => rw [List.filterMap_cons_some said, Option.getD_some, List.getLastD_cons]

variable (pkg) in
/-- Any number of listings, the last of them this one. A sync run leaves the destination at the
last status that could be read. A proxy polling alone leaves an operator's event as it is, and
otherwise records the last listing, an unreadable one as active. The two then show the same
status unless the last listing cannot be read and the sync run holds a freeze. -/
theorem relays_agree_iff {stands : ProjectStatusDoc} (known : standing cell = .ok stands)
    (raw : Option Json) :
    listed (syncRounds parse stands (listings ++ [raw])) =
      listed (((listings ++ [raw]).filterMap (readable parse)).getLastD stands) ∧
    (OperatorHeld cell → pollRounds parse pkg cell (listings ++ [raw]) = cell) ∧
    (¬OperatorHeld cell →
      standing (pollRounds parse pkg cell (listings ++ [raw])) = .ok ((readable parse raw).getD default) ∧
      (listed ((readable parse raw).getD default) = listed (syncRounds parse stands (listings ++ [raw])) ↔
        readable parse raw ≠ none ∨ listed (syncRounds parse stands listings) = none)) := by
  refine ⟨syncRounds_listed parse _ stands, pollRounds_operatorHeld parse _, fun relayed => ⟨?_, ?_⟩⟩
  · rw [pollRounds_standing parse _ known relayed, List.getLast?_append]
    rfl
  · have last : listed (syncRounds parse stands (listings ++ [raw])) =
        listed ((readable parse raw).getD (syncRounds parse stands listings)) := by
      rw [syncRounds, List.foldl_append]
      exact syncRound_listed parse _ raw
    rw [last]
    cases said : readable parse raw with
    | none =>
        simp only [Option.getD_none, listed_default, ne_eq, not_true_eq_false, false_or]
        exact eq_comm
    | some doc => simp

/-- A freeze upstream, then a status nobody knows: the proxy lifts the freeze that the sync
run keeps. -/
theorem unreadable_lifts :
    standing (pollRounds id "demo" .empty [some (some quarantine), some none]) = .ok default ∧
    listed (syncRounds id default [some (some quarantine), some none]) = some quarantine ∧
    listed default ≠ listed (syncRounds id default [some (some quarantine), some none]) := by
  have relayed : ¬OperatorHeld VersionedCell.empty := by
    rintro ⟨current, stored, byOperator⟩
    cases stored
  have known : standing .empty = .ok default := rfl
  obtain ⟨synced, -, polled⟩ := relays_agree_iff "demo" id [some (some quarantine)] known (some none)
  obtain ⟨shown, agrees⟩ := polled relayed
  refine ⟨shown, synced, fun same => ?_⟩
  obtain readable | lifted := agrees.mp same
  · exact readable rfl
  · cases lifted

end Rounds

end Pypiron.StatusRelay
