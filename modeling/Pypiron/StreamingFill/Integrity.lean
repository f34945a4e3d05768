import Mathlib.Logic.Relation
import Pypiron.StreamingFill

/-! What a tee has handed out, in every interleaving with its fill: a part of one
spool from its start, short of the tail until that spool is verified. -/
namespace Pypiron.StreamingFill

variable (upstream : Upstream)

/-! ### The fill -/

/-- Where the task stands, against what it published. -/
def Fill.Stands (f : Fill) : Prop :=
  match f.phase with
  | .checking => f.channel.state ≠ .verified ∧ f.channel.attempt = 0
  | .starting a => f.channel.state ≠ .verified ∧ f.channel.attempt < a
  | .downloading a _ | .publishing a => f.channel.state ≠ .verified ∧ f.channel.attempt = a
  | .finishing a => f.channel.state ≠ .verified ∧ f.channel.attempt = a ∧
      f.channel.written = (f.spools a).length
  | .failing a => f.channel.state ≠ .verified ∧ f.channel.attempt ≤ a
  | .matched a => f.channel.state ≠ .verified ∧ f.channel.attempt = a ∧
      f.channel.written = (f.spools a).length ∧ upstream.digestMatches (f.spools a) = true
  | .fenced a => f.channel.state ≠ .verified ∧ f.channel.attempt = a ∧
      f.channel.written = (f.spools a).length ∧ upstream.digestMatches (f.spools a) = true ∧
      f.passed a
  | .released _ | .ended | .gone => True

/-- The digest of a spool matched, and its origin fence passed. -/
def Fill.Proven (f : Fill) (attempt : ℕ) : Prop :=
  upstream.digestMatches (f.spools attempt) = true ∧ f.passed attempt

structure Fill.Sound (f : Fill) : Prop where
  visible : ∀ a, f.visible a ≤ (f.spools a).length
  written : f.channel.written ≤ f.visible f.channel.attempt
  verified : f.channel.state = .verified →
    f.Proven upstream f.channel.attempt ∧
      f.channel.written = (f.spools f.channel.attempt).length
  stands : f.Stands upstream
  named : ∀ a, f.channel.spool = some a → a = f.channel.attempt

/-- What followers rely on: spools that were opened only grow, and a fill that is
verified changes nothing any more. -/
structure Fill.Grows (f f' : Fill) : Prop where
  attempt : f.channel.attempt ≤ f'.channel.attempt
  spools : ∀ a ≤ f.channel.attempt, f.spools a <+: f'.spools a
  visible : ∀ a ≤ f.channel.attempt, f.visible a ≤ f'.visible a
  final : f.channel.state = .verified → f'.channel = f.channel

variable {upstream} {f : Fill}

theorem Fill.Sound.rephase (sound : f.Sound upstream) {phase : Phase}
    (stands : Fill.Stands upstream { f with phase := phase }) :
    Fill.Sound upstream { f with phase := phase } ∧ f.Grows { f with phase := phase } := by
  refine ⟨⟨sound.visible, sound.written, sound.verified, stands, sound.named⟩, ?_⟩
  exact ⟨le_rfl, fun _ _ => List.prefix_rfl, fun _ _ => le_rfl, fun _ => rfl⟩

theorem Fill.Sound.publishFailed (sound : f.Sound upstream) {phase : Phase}
    (unverified : f.channel.state ≠ .verified)
    (stands : Fill.Stands upstream (f.publish .failed phase)) :
    Fill.Sound upstream (f.publish .failed phase) ∧ f.Grows (f.publish .failed phase) := by
  refine ⟨⟨sound.visible, sound.written, ?_, stands, sound.named⟩, ?_⟩
  · intro verified
    simp [Fill.publish, FillProgress.failed] at verified
  · exact ⟨le_rfl, fun _ _ => List.prefix_rfl, fun _ _ => le_rfl,
      fun verified => absurd verified unverified⟩

theorem Fill.Sound.write (sound : f.Sound upstream) {a : ℕ} {bytes : Bytes} {phase : Phase}
    (unverified : f.channel.state ≠ .verified)
    (stands : Fill.Stands upstream (f.write a bytes phase)) :
    Fill.Sound upstream (f.write a bytes phase) ∧ f.Grows (f.write a bytes phase) := by
  have grows : ∀ b, f.spools b <+: (f.write a bytes phase).spools b := by
    intro b
    by_cases same : b = a
    · subst b
      simp [Fill.write]
    · simp [Fill.write, same]
  refine ⟨⟨fun b => (sound.visible b).trans (grows b).length_le, sound.written,
    fun verified => absurd verified unverified, stands, sound.named⟩, ?_⟩
  exact ⟨le_rfl, fun b _ => grows b, fun _ _ => le_rfl, fun _ => rfl⟩

theorem Fill.Sound.see (sound : f.Sound upstream) {a n : ℕ} (more : f.visible a ≤ n)
    (bound : n ≤ (f.spools a).length) :
    Fill.Sound upstream { f with visible := Function.update f.visible a n } ∧
      f.Grows { f with visible := Function.update f.visible a n } := by
  have grows : ∀ b, f.visible b ≤ Function.update f.visible a n b := by
    intro b
    by_cases same : b = a
    · subst b
      simpa using more
    · simp [same]
  refine ⟨⟨?_, sound.written.trans (grows _), sound.verified, sound.stands, sound.named⟩, ?_⟩
  · intro b
    by_cases same : b = a
    · subst b
      simpa using bound
    · simpa [same] using sound.visible b
  · exact ⟨le_rfl, fun _ _ => List.prefix_rfl, fun b _ => grows b, fun _ => rfl⟩

/-- Bytes are counted only after they can be read. -/
theorem Fill.Sound.publishWrote (sound : f.Sound upstream) {a : ℕ} {phase : Phase}
    (unverified : f.channel.state ≠ .verified) (current : f.channel.attempt = a)
    (stands : Fill.Stands upstream
      ((f.flush a).publish (.wrote (f.spools a).length) phase)) :
    Fill.Sound upstream ((f.flush a).publish (.wrote (f.spools a).length) phase) ∧
      f.Grows ((f.flush a).publish (.wrote (f.spools a).length) phase) := by
  obtain ⟨flushed, grows⟩ := sound.see (sound.visible a) le_rfl
  refine ⟨⟨flushed.visible, ?_, fun verified => absurd verified unverified, stands,
    sound.named⟩, ?_⟩
  · simp [Fill.publish, Fill.flush, FillProgress.wrote, current]
  · exact ⟨grows.attempt, grows.spools, grows.visible,
      fun verified => absurd verified unverified⟩

theorem Fill.Sound.start (sound : f.Sound upstream) {a : ℕ}
    (unverified : f.channel.state ≠ .verified) (later : f.channel.attempt < a) :
    Fill.Sound upstream { f.publish (.started a) (.downloading a 0) with
        spools := Function.update f.spools a []
        visible := Function.update f.visible a 0 } ∧
      f.Grows { f.publish (.started a) (.downloading a 0) with
        spools := Function.update f.spools a []
        visible := Function.update f.visible a 0 } := by
  have other : ∀ b ≤ f.channel.attempt, b ≠ a := fun b bound => by omega
  refine ⟨⟨?_, ?_, ?_, ?_, ?_⟩, ⟨later.le, ?_, ?_, fun verified => absurd verified unverified⟩⟩
  · intro b
    by_cases same : b = a
    · simp [same]
    · simpa [same] using sound.visible b
  · simp [Fill.publish, FillProgress.started]
  · simp [Fill.publish, FillProgress.started]
  · simp [Fill.Stands, Fill.publish, FillProgress.started]
  · exact fun b same => (Option.some.inj same).symm
  · intro b bound
    simp [other b bound]
  · intro b bound
    simp [other b bound]

theorem Fill.Sound.verify (sound : f.Sound upstream) {a : ℕ}
    (unverified : f.channel.state ≠ .verified) (current : f.channel.attempt = a)
    (counted : f.channel.written = (f.spools a).length) (proven : f.Proven upstream a) :
    Fill.Sound upstream (f.publish (.verified (f.spools a).length) (.released a)) ∧
      f.Grows (f.publish (.verified (f.spools a).length) (.released a)) := by
  subst current
  refine ⟨⟨sound.visible, counted ▸ sound.written, fun _ => ⟨proven, rfl⟩, trivial,
    sound.named⟩, ?_⟩
  exact ⟨le_rfl, fun _ _ => List.prefix_rfl, fun _ _ => le_rfl,
    fun verified => absurd verified unverified⟩

theorem Fill.Sound.pass (sound : f.Sound upstream) {a : ℕ} (phase : f.phase = .matched a) :
    Fill.Sound upstream
        { f with phase := .fenced a, passed := Function.update f.passed a True } ∧
      f.Grows { f with phase := .fenced a, passed := Function.update f.passed a True } := by
  have stands := sound.stands
  simp only [Fill.Stands, phase] at stands
  obtain ⟨unverified, current, counted, digest⟩ := stands
  refine ⟨⟨sound.visible, sound.written, fun verified => absurd verified unverified, ?_,
    sound.named⟩, ?_⟩
  · exact ⟨unverified, current, counted, digest, by simp⟩
  · exact ⟨le_rfl, fun _ _ => List.prefix_rfl, fun _ _ => le_rfl, fun _ => rfl⟩

theorem Fill.Step.sound {f' : Fill} (step : Fill.Step upstream f f') (sound : f.Sound upstream) :
    f'.Sound upstream ∧ f.Grows f' := by
  have stands := sound.stands
  cases step with
  | refused phase => exact sound.rephase trivial
  | claimed phase =>
    simp only [Fill.Stands, phase] at stands
    exact sound.rephase ⟨stands.1, Nat.lt_one_iff.mpr stands.2⟩
  | started phase =>
    simp only [Fill.Stands, phase] at stands
    exact sound.start stands.1 stands.2
  | unanswered phase =>
    simp only [Fill.Stands, phase] at stands
    exact sound.rephase ⟨stands.1, stands.2.le⟩
  | blocked phase =>
    simp only [Fill.Stands, phase] at stands
    exact sound.publishFailed stands.1 trivial
  | @chunk a published bytes phase =>
    simp only [Fill.Stands, phase] at stands
    refine sound.write stands.1 ?_
    unfold Fill.afterChunk
    split
    · exact ⟨stands.1, stands.2.le⟩
    · split <;> exact stands
  | broken written phase =>
    simp only [Fill.Stands, phase] at stands
    exact sound.write stands.1 ⟨stands.1, stands.2.le⟩
  | reached more bound => exact sound.see more bound
  | published phase =>
    simp only [Fill.Stands, phase] at stands
    exact sound.publishWrote stands.1 stands.2 stands
  | bodyEnded phase =>
    simp only [Fill.Stands, phase] at stands
    exact sound.publishWrote stands.1 stands.2 ⟨stands.1, stands.2, rfl⟩
  | unflushed phase =>
    rcases phase with phase | phase <;> simp only [Fill.Stands, phase] at stands
    · exact sound.rephase ⟨stands.1, stands.2.le⟩
    · exact sound.rephase ⟨stands.1, stands.2.1.le⟩
  | compared phase =>
    simp only [Fill.Stands, phase] at stands
    obtain ⟨unverified, current, counted⟩ := stands
    refine sound.rephase ?_
    split
    · exact ⟨unverified, current, counted, ‹_›⟩
    · exact ⟨unverified, current.le⟩
  | attemptFailed phase =>
    simp only [Fill.Stands, phase] at stands
    refine sound.publishFailed stands.1 ?_
    unfold Fill.afterFailure
    split
    · exact ⟨by simp [Fill.publish, FillProgress.failed], Nat.lt_succ_of_le stands.2⟩
    · trivial
  | fencePassed phase => exact sound.pass phase
  | abandoned phase => exact sound.rephase trivial
  | verified phase =>
    simp only [Fill.Stands, phase] at stands
    obtain ⟨unverified, current, counted, proven⟩ := stands
    exact sound.verify unverified current counted proven
  | committed phase => exact sound.rephase trivial
  | closed phase =>
    split
    · exact sound.rephase trivial
    · exact sound.publishFailed ‹_› trivial
  | dropped => exact sound.rephase trivial

/-! ### A tee beside the fill -/

/-- All that is known of a tee, wherever `next` stands. -/
structure Tee.Kept (f : Fill) (t : Tee) : Prop where
  bound : t.attempt ≤ f.channel.attempt
  seen : t.sent ≤ f.visible t.attempt
  delivered : t.delivered = (f.spools t.attempt).take t.sent
  final : t.verified = true → f.channel.state = .verified ∧ f.channel.attempt = t.attempt ∧
    t.available = f.channel.written
  held : t.verified = false → t.sent ≤ t.size - teeHoldback
  within : t.sent ≤ t.size
  once : t.deliveries ≤ 1
  owed : t.onDelivered = true → t.deliveries = 0
  handed : 0 < t.deliveries → t.verified = true ∧ t.sent = t.size
  complete : t.done = true → t.failed = false →
    t.verified = true ∧ t.sent = t.size ∧ t.available = t.size
  ends : t.ended = true → t.done = true

/-- A read that is under way stays below what the tee may hand out. -/
def Tee.Bounded (t : Tee) : Prop :=
  ∀ want, t.control = .reading want →
    (t.verified = true → t.sent + want ≤ t.size) ∧
    (t.verified = false → t.sent + want ≤ t.size - teeHoldback)

structure Tee.Sound (f : Fill) (t : Tee) : Prop extends Tee.Kept f t where
  bounded : t.Bounded

variable {t : Tee}

theorem Tee.Kept.abort (kept : t.Kept f) : t.abort.Sound f where
  toKept := { kept with
    complete := fun _ clean => by simp [Tee.abort] at clean
    ends := fun _ => rfl }
  bounded := fun want reading => by simp [Tee.abort] at reading

theorem Tee.Kept.act (kept : t.Kept f) : t.act.Sound f := by
  unfold Tee.act
  split
  · exact kept.abort
  · rename_i agree
    split
    · rename_i spent
      split
      · rename_i verified
        have size : t.available = t.size := by
          by_contra differs
          exact agree ⟨verified, differs⟩
        have sent : t.sent = t.size := by
          have := kept.within
          simp only [Tee.limit, verified, if_true] at spent
          omega
        exact {
          toKept := { kept with
            complete := fun _ _ => ⟨verified, sent, size⟩
            ends := fun _ => rfl }
          bounded := fun want reading => by simp at reading }
      · exact { toKept := { kept with }, bounded := fun want reading => by simp at reading }
    · rename_i room
      refine { toKept := { kept with }, bounded := ?_ }
      intro want reading
      obtain rfl := Control.reading.inj reading
      simp only [Tee.limit] at room ⊢
      constructor
      · intro verified
        simp only [verified, if_true] at room ⊢
        omega
      · intro unverified
        simp only [unverified, Bool.false_eq_true, if_false] at room ⊢
        omega

theorem Tee.Kept.sees_live (kept : t.Kept f) (unverified : t.verified = false) (written : ℕ) :
    Tee.Kept f { t with available := written } :=
  { kept with
    final := fun verified => by simp [unverified] at verified
    complete := fun done clean => absurd (kept.complete done clean).1 (by simp [unverified]) }

theorem observe_verified {progress : FillProgress} {attempt written : ℕ}
    (observed : observe progress attempt = .verified written) :
    progress.state = .verified ∧ progress.attempt = attempt ∧ written = progress.written := by
  unfold observe at observed
  split at observed
  · contradiction
  · rename_i same
    split at observed
    · contradiction
    · rename_i verified
      exact ⟨verified, not_not.mp same, (Observed.verified.inj observed).symm⟩
    · contradiction

theorem Tee.Kept.sees_verified (kept : t.Kept f) (unverified : t.verified = false) {written : ℕ}
    (observed : observe f.channel t.attempt = .verified written) :
    Tee.Kept f { t with verified := true, available := written } :=
  { kept with
    final := fun _ => observe_verified observed
    held := fun verified => by simp at verified
    handed := fun some => absurd (kept.handed some).1 (by simp [unverified])
    complete := fun done clean => absurd (kept.complete done clean).1 (by simp [unverified]) }

theorem Tee.Kept.turn (kept : t.Kept f) : (t.turn f.channel).Sound f := by
  unfold Tee.turn
  split
  · exact kept.act
  · rename_i unverified
    simp only [Bool.not_eq_true] at unverified
    cases observed : observe f.channel t.attempt with
    | live written => exact (kept.sees_live unverified written).act
    | verified written => exact (kept.sees_verified unverified observed).act
    | lost => exact kept.abort

theorem Tee.Kept.deliver (kept : t.Kept f) (verified : t.verified = true)
    (whole : t.sent = t.size) : t.deliver.Kept f := by
  unfold Tee.deliver
  split
  · rename_i held
    have none := kept.owed held
    exact { kept with
      once := by simp [none]
      owed := fun held => by simp at held
      handed := fun _ => ⟨verified, whole⟩ }
  · exact kept

theorem deliver_control : t.deliver.control = t.control := by
  unfold Tee.deliver
  split <;> rfl

/-- Bytes that are handed out go on from those that were. -/
theorem Tee.Sound.handOut (filled : f.Sound upstream) (sound : t.Sound f) {want n : ℕ}
    (reading : t.control = .reading want) (some : 0 < n) (bound : n ≤ want)
    (readable : t.sent + n ≤ f.visible t.attempt) :
    (t.handOut (((f.spools t.attempt).drop t.sent).take n)).Sound f := by
  have length : (((f.spools t.attempt).drop t.sent).take n).length = n := by
    have := filled.visible t.attempt
    simp only [List.length_take, List.length_drop]
    omega
  obtain ⟨whileVerified, whileHeld⟩ := sound.bounded want reading
  have unfinished : t.verified = true → t.sent ≠ t.size := by
    intro verified
    have := whileVerified verified
    omega
  have kept : Tee.Kept f { t with
      sent := t.sent + n
      delivered := t.delivered ++ ((f.spools t.attempt).drop t.sent).take n
      control := .idle } := {
    sound.toKept with
    seen := readable
    delivered := by
      change t.delivered ++ _ = _
      rw [sound.delivered, List.take_add]
    held := fun unverified => by
      have := whileHeld unverified
      change t.sent + n ≤ t.size - teeHoldback
      omega
    within := by
      change t.sent + n ≤ t.size
      cases verified : t.verified with
      | true =>
        have := whileVerified verified
        omega
      | false =>
        have := whileHeld verified
        omega
    handed := fun some => absurd (sound.handed some).2 (unfinished (sound.handed some).1)
    complete := fun done clean =>
      absurd (sound.complete done clean).2.1 (unfinished (sound.complete done clean).1) }
  unfold Tee.handOut
  simp only [length]
  split
  · rename_i last
    have whole : t.sent + n = t.size := le_antisymm kept.within last.2
    refine { toKept := kept.deliver last.1 whole, bounded := ?_ }
    intro want reading
    rw [deliver_control] at reading
    simp at reading
  · exact { toKept := kept, bounded := fun want reading => by simp at reading }

theorem Tee.Step.sound {t' : Tee} (filled : f.Sound upstream) (step : Tee.Step f t t')
    (sound : t.Sound f) : t'.Sound f := by
  cases step with
  | pollDone idle done =>
    exact { sound with ends := fun _ => done }
  | poll idle open' => exact sound.toKept.turn
  | woken waiting => exact sound.toKept.turn
  | orphaned waiting gone =>
    cases observed : observe f.channel t.attempt with
    | verified written =>
      cases verified : t.verified with
      | true =>
        have known : t.available = written :=
          (sound.final verified).2.2.trans (observe_verified observed).2.2.symm
        have same : { t with verified := true, available := written } = t := by
          cases t
          simp_all
        simp only [same]
        exact sound.toKept.act
      | false => exact (sound.toKept.sees_verified verified observed).act
    | live written => exact sound.toKept.abort
    | lost => exact sound.toKept.abort
  | read reading some bound readable => exact sound.handOut filled reading some bound readable
  | readNothing reading none =>
    split
    · exact sound.toKept.abort
    · exact { toKept := { sound.toKept with }, bounded := fun want reading => by simp at reading }
  | readFailed reading =>
    refine { toKept := { sound.toKept with complete := ?_ }, bounded := ?_ }
    · exact fun _ clean => by simp at clean
    · exact fun want reading => by simp at reading

/-- What the fill does leaves a tee as it was. -/
theorem Tee.Sound.grow {f' : Fill} (filled : f.Sound upstream) (grows : f.Grows f')
    (sound : t.Sound f) : t.Sound f' := by
  refine { sound with
    bound := sound.bound.trans grows.attempt
    seen := sound.seen.trans (grows.visible _ sound.bound)
    delivered := ?_
    final := ?_ }
  · obtain ⟨more, extended⟩ := grows.spools _ sound.bound
    have length : t.sent ≤ (f.spools t.attempt).length :=
      sound.seen.trans (filled.visible t.attempt)
    rw [← extended, List.take_append_of_le_length length]
    exact sound.delivered
  · intro verified
    have final := sound.final verified
    rwa [grows.final final.1]

/-! ### Every interleaving -/

def Follower.Sound (f : Fill) : Follower → Prop
  | .absent => True
  | .anchored _ attempt => attempt ≤ f.channel.attempt
  | .streaming tee => tee.Sound f

structure State.Sound {ι : Type} (upstream : Upstream) (s : State ι) : Prop where
  fill : s.fill.Sound upstream
  followers : ∀ i, (s.followers i).Sound s.fill

theorem Follower.Sound.grow {f' : Fill} {follower : Follower} (filled : f.Sound upstream)
    (grows : f.Grows f') (sound : follower.Sound f) : follower.Sound f' := by
  cases follower with
  | absent => trivial
  | anchored size attempt => exact Nat.le_trans sound grows.attempt
  | streaming tee => exact Tee.Sound.grow filled grows sound

theorem Tee.Sound.new {a : ℕ} (bound : a ≤ f.channel.attempt) (size : ℕ) (onDelivered : Bool) :
    (Tee.new size a onDelivered).Sound f where
  bound := bound
  seen := Nat.zero_le _
  delivered := rfl
  final := fun verified => by simp [Tee.new] at verified
  held := fun _ => Nat.zero_le _
  within := Nat.zero_le _
  once := Nat.zero_le _
  owed := fun _ => rfl
  handed := fun some => by simp [Tee.new] at some
  complete := fun done => by simp [Tee.new] at done
  ends := fun ended => by simp [Tee.new] at ended
  bounded := fun want reading => by simp [Tee.new] at reading

theorem Follower.Step.sound {follower next : Follower} (filled : f.Sound upstream)
    (step : Follower.Step f follower next) (sound : follower.Sound f) : next.Sound f := by
  cases step with
  | @anchor size a peeked =>
    have spool : f.channel.spool = some a := by
      unfold peek at peeked
      split at peeked
      · exact peeked
      · contradiction
    exact (filled.named a spool).le
  | opened onDelivered => exact Tee.Sound.new sound _ onDelivered
  | unopened => trivial
  | tee step => exact step.sound filled sound

variable {ι : Type}

theorem State.Sound.start : State.Sound upstream (State.start : State ι) where
  fill := {
    visible := fun _ => le_rfl
    written := le_rfl
    verified := fun verified => by simp [State.start, Fill.new, FillProgress.default] at verified
    stands := ⟨by simp [State.start, Fill.new, FillProgress.default], rfl⟩
    named := fun a same => by simp [State.start, Fill.new, FillProgress.default] at same }
  followers := fun _ => trivial

variable [DecidableEq ι]

theorem Moves.sound {s s' : State ι} (move : Moves upstream s s') (sound : s.Sound upstream) :
    s'.Sound upstream := by
  cases move with
  | fill step =>
    obtain ⟨filled, grows⟩ := step.sound sound.fill
    exact ⟨filled, fun i => (sound.followers i).grow sound.fill grows⟩
  | follower i step =>
    refine ⟨sound.fill, fun j => ?_⟩
    by_cases same : j = i
    · subst j
      simpa using step.sound sound.fill (sound.followers i)
    · simpa [same] using sound.followers j

abbrev Reaches (upstream : Upstream) (s : State ι) : Prop :=
  Relation.ReflTransGen (Moves upstream) State.start s

theorem Reaches.sound {s : State ι} (run : Reaches upstream s) : s.Sound upstream := by
  induction run with
  | refl => exact .start
  | tail _ move ih => exact move.sound ih

/-- The fill has published that this attempt is verified. -/
def Fill.Verified (f : Fill) (attempt : ℕ) : Prop :=
  f.channel.attempt = attempt ∧ f.channel.state = .verified

/-- The body of a tee ended, and no error was handed out before. -/
def Tee.EndedCleanly (t : Tee) : Prop := t.ended = true ∧ t.failed = false

theorem Tee.Sound.length (filled : f.Sound upstream) (sound : t.Sound f) :
    t.delivered.length = t.sent := by
  have := sound.seen.trans (filled.visible t.attempt)
  rw [sound.delivered, List.length_take, Nat.min_eq_left this]

theorem streaming_integrity {s : State ι} (run : Reaches upstream s) {i : ι} {t : Tee}
    (streams : s.followers i = .streaming t) :
    t.delivered <+: s.fill.spools t.attempt ∧
      (¬ s.fill.Verified t.attempt → t.delivered.length ≤ t.size - teeHoldback) ∧
      (t.EndedCleanly → t.delivered.length = t.size ∧ t.delivered = s.fill.spools t.attempt ∧
        s.fill.Proven upstream t.attempt) ∧
      t.deliveries ≤ 1 ∧ (0 < t.deliveries → t.delivered.length = t.size) := by
  have filled := run.sound.fill
  have sound : t.Sound s.fill := by
    have followed := run.sound.followers i
    rwa [streams] at followed
  have length := sound.length filled
  refine ⟨?_, ?_, ?_, sound.once, ?_⟩
  · rw [sound.delivered]
    exact List.take_prefix _ _
  · intro unverified
    rw [length]
    apply sound.held
    by_contra verified
    obtain ⟨state, attempt, -⟩ := sound.final (by simpa using verified)
    exact unverified ⟨attempt, state⟩
  · rintro ⟨ended, clean⟩
    obtain ⟨verified, sent, size⟩ := sound.complete (sound.ends ended) clean
    obtain ⟨state, attempt, written⟩ := sound.final verified
    obtain ⟨proven, counted⟩ := filled.verified state
    rw [attempt] at proven counted
    refine ⟨length.trans sent, ?_, proven⟩
    rw [sound.delivered, sent, ← size, written, counted, List.take_length]
  · exact fun some => length.trans (sound.handed some).2

/-! ### A body that is served whole -/

section Served
variable {body : Bytes}

/-- One body, listed with its digest. -/
def listed (body : Bytes) : Upstream where
  expected := "BA7816BF8F01CFEA414140DE5DAE2223B00361A396177A9CB410FF61F20015AD"
  sha256 found :=
    if found = body then "ba7816bf8f01cfea414140de5dae2223b00361a396177a9cb410ff61f20015ad" else ""
  ceiling := body.length

theorem listed_matches : (listed body).digestMatches body = true := by
  unfold Upstream.digestMatches listed
  dsimp only
  rw [if_pos rfl]
  decide

/-- The first attempt has opened its spool. -/
def openedFill : Fill where
  channel := ⟨1, some 1, 0, .running⟩
  phase := .downloading 1 0
  spools := Function.update (fun _ => []) 1 []
  visible := Function.update (fun _ => 0) 1 0
  passed := fun _ => False

/-- The whole body is in that spool, and its size published. -/
def spooledFill (body : Bytes) (phase : Phase) : Fill where
  channel := ⟨1, some 1, body.length, .running⟩
  phase := phase
  spools := Function.update openedFill.spools 1 body
  visible := Function.update openedFill.visible 1 body.length
  passed := fun _ => False

theorem spooledFill_reached (long : teeChunk ≤ body.length) : Reaches (listed body)
    (⟨spooledFill body (.downloading 1 body.length), fun _ => .absent⟩ : State Unit) := by
  have begun : Reaches (listed body) (State.start : State Unit) := .refl
  have claimed := begun.tail (.fill (.claimed rfl))
  have started : Reaches (listed body) (⟨openedFill, fun _ => .absent⟩ : State Unit) :=
    claimed.tail (.fill (.started rfl))
  have chunk : Fill.Step (listed body) openedFill (openedFill.write 1 body
      (Fill.afterChunk (listed body) 1 0 (openedFill.spools 1 ++ body).length)) := .chunk body rfl
  have full : Fill.afterChunk (listed body) 1 0 (openedFill.spools 1 ++ body).length = .publishing 1 := by
    simp [Fill.afterChunk, openedFill, listed, long]
  rw [full] at chunk
  have publish : Fill.Step (listed body) (openedFill.write 1 body (.publishing 1)) _ := .published rfl
  have same : Function.update openedFill.spools 1 (openedFill.spools 1 ++ body) =
      Function.update openedFill.spools 1 body := by simp [openedFill]
  simp only [Fill.write, Fill.flush, Fill.publish, same, Function.update_self] at chunk publish
  exact (started.tail (.fill chunk)).tail (.fill publish)

/-- A tee that has handed out what it may before the fill is verified. -/
def earlyTee (body : Bytes) : Tee :=
  { Tee.new body.length 1 true with sent := 3, available := body.length, delivered := body.take 3 }

theorem alone_update (follower : Follower) (followers : Unit → Follower) :
    Function.update followers () follower = fun _ => follower := funext fun _ => rfl

theorem earlyTee_reached (long : body.length = teeHoldback + 3) : Reaches (listed body)
    (⟨spooledFill body (.downloading 1 body.length), fun _ => .streaming (earlyTee body)⟩ : State Unit) := by
  have chunked : teeChunk ≤ body.length := by rw [long]; decide
  have spooled := spooledFill_reached chunked
  have anchored := spooled.tail (.follower () (.anchor rfl : Follower.Step _ _ (.anchored body.length 1)))
  have opened := anchored.tail (.follower () (.opened true))
  have polled := opened.tail (.follower () (.tee (.poll rfl rfl)))
  have turn : (Tee.new body.length 1 true).turn (spooledFill body (.downloading 1 body.length)).channel =
      { Tee.new body.length 1 true with available := body.length, control := .reading 3 } := by
    simp [spooledFill, Tee.turn, Tee.new, observe, Tee.see, Tee.act, Tee.limit, teeHoldback, teeChunk, long]
  rw [turn, alone_update] at polled
  have three : 0 < 3 := by decide
  have visible : 0 + 3 ≤ (spooledFill body (.downloading 1 body.length)).visible 1 := by
    simp [spooledFill, long]
  have read := polled.tail (.follower () (.tee (.read rfl three le_rfl visible)))
  rw [alone_update] at read
  have handed : ({ Tee.new body.length 1 true with available := body.length, control := .reading 3 } : Tee).handOut
      ((((spooledFill body (.downloading 1 body.length)).spools 1).drop 0).take 3) = earlyTee body := by
    simp [Tee.handOut, Tee.new, earlyTee, spooledFill, long]
  exact handed ▸ read

/-- The digest matched, the claim still stands, and the fill says so. -/
def verifiedFill (body : Bytes) : Fill :=
  { spooledFill body (.released 1) with
    channel := ⟨1, some 1, body.length, .verified⟩
    passed := Function.update (fun _ => False) 1 True }

theorem verifiedFill_reached (long : body.length = teeHoldback + 3) : Reaches (listed body)
    (⟨verifiedFill body, fun _ => .streaming (earlyTee body)⟩ : State Unit) := by
  have ended : Fill.Step (listed body) (spooledFill body (.downloading 1 body.length)) _ := .bodyEnded rfl
  have size : ((spooledFill body (.downloading 1 body.length)).spools 1).length = body.length := by
    simp [spooledFill]
  simp only [Fill.flush, Fill.publish, size] at ended
  have compared : Fill.Step (listed body) (spooledFill body (.finishing 1)) { spooledFill body (.finishing 1) with
      phase := if (listed body).digestMatches ((spooledFill body (.finishing 1)).spools 1) then .matched 1
        else .failing 1 } := .compared rfl
  have matches_ : (listed body).digestMatches ((spooledFill body (.finishing 1)).spools 1) = true := by
    have whole : (spooledFill body (.finishing 1)).spools 1 = body := by simp [spooledFill]
    rw [whole]
    exact listed_matches
  rw [if_pos matches_] at compared
  have fenced : Fill.Step (listed body) (spooledFill body (.matched 1)) _ := .fencePassed rfl
  have verified : Fill.Step (listed body) { spooledFill body (.fenced 1) with
      passed := Function.update (fun _ => False) 1 True } _ := .verified rfl
  have size' : ((spooledFill body (.fenced 1)).spools 1).length = body.length := by
    simp [spooledFill]
  simp only [Fill.publish, size'] at verified
  have finishing : (⟨{ spooledFill body (.downloading 1 body.length) with
        channel := FillProgress.wrote body.length (spooledFill body (.downloading 1 body.length)).channel
        phase := .finishing 1
        visible := Function.update (spooledFill body (.downloading 1 body.length)).visible 1 body.length },
      fun _ => .streaming (earlyTee body)⟩ : State Unit) =
      ⟨spooledFill body (.finishing 1), fun _ => .streaming (earlyTee body)⟩ := by
    simp [spooledFill, FillProgress.wrote]
  have downloaded := (earlyTee_reached long).tail (.fill ended)
  rw [finishing] at downloaded
  exact ((downloaded.tail (.fill compared)).tail (.fill fenced)).tail (.fill verified)

/-- A tee that has served the whole body. -/
def servedTee (body : Bytes) : Tee :=
  { Tee.new body.length 1 false with
    sent := body.length, available := body.length, verified := true, done := true, delivered := body,
    ended := true, deliveries := 1 }

theorem servedTee_reached (long : body.length = teeHoldback + 3) : Reaches (listed body)
    (⟨verifiedFill body, fun _ => .streaming (servedTee body)⟩ : State Unit) := by
  have polled := (verifiedFill_reached long).tail (.follower () (.tee (.poll rfl rfl)))
  have turn : (earlyTee body).turn (verifiedFill body).channel =
      { earlyTee body with verified := true, control := .reading teeChunk } := by
    simp [verifiedFill, earlyTee, Tee.turn, Tee.new, observe, Tee.see, Tee.act, Tee.limit, teeHoldback,
      teeChunk, long]
  rw [turn, alone_update] at polled
  have some : 0 < teeChunk := by decide
  have visible : 3 + teeChunk ≤ (verifiedFill body).visible 1 := by
    simp [verifiedFill, spooledFill, long, teeHoldback, teeChunk]
  have read := polled.tail (.follower () (.tee (.read rfl some le_rfl visible)))
  rw [alone_update] at read
  have handed : ({ earlyTee body with verified := true, control := .reading teeChunk } : Tee).handOut
      ((((verifiedFill body).spools 1).drop 3).take teeChunk) =
        { servedTee body with done := false, ended := false } := by
    have rest : (body.drop 3).take teeChunk = body.drop 3 :=
      List.take_of_length_le (by simp [long, teeHoldback, teeChunk])
    have size : 3 + (body.length - 3) = body.length := by omega
    simp [Tee.handOut, Tee.deliver, Tee.new, earlyTee, servedTee, verifiedFill, spooledFill, rest, size]
  have whole : Reaches (listed body) (⟨verifiedFill body, fun _ => .streaming
      { servedTee body with done := false, ended := false }⟩ : State Unit) := handed ▸ read
  have closed := whole.tail (.follower () (.tee (.poll rfl rfl)))
  rw [alone_update] at closed
  have ends : ({ servedTee body with done := false, ended := false } : Tee).turn (verifiedFill body).channel =
      servedTee body := by
    simp [servedTee, Tee.turn, Tee.act, Tee.limit, Tee.new]
  exact ends ▸ closed

/-- Three bytes are handed out unverified, and the rest once the digest has matched. -/
theorem served_whole : ∃ body : Bytes, teeHoldback < body.length ∧
    (∃ (s : State Unit) (t : Tee), Reaches (listed body) s ∧ s.followers () = .streaming t ∧
      ¬ s.fill.Verified t.attempt ∧ t.delivered.length = 3 ∧ t.delivered <+: s.fill.spools t.attempt) ∧
    ∃ (s : State Unit) (t : Tee), Reaches (listed body) s ∧ s.followers () = .streaming t ∧
      t.EndedCleanly ∧ t.deliveries = 1 ∧ t.delivered = s.fill.spools t.attempt ∧
      s.fill.Proven (listed body) t.attempt := by
  have long : (List.replicate (teeHoldback + 3) 97 : Bytes).length = teeHoldback + 3 := List.length_replicate
  generalize (List.replicate (teeHoldback + 3) 97 : Bytes) = body at long
  refine ⟨body, by omega, ⟨_, earlyTee body, earlyTee_reached long, rfl, ?_, ?_, ?_⟩,
    _, servedTee body, servedTee_reached long, rfl, ⟨rfl, rfl⟩, rfl, ?_⟩
  · rintro ⟨_, verified⟩
    cases verified
  · simp [earlyTee, long]
  · exact (streaming_integrity (i := ()) (earlyTee_reached long) rfl).1
  · exact ((streaming_integrity (i := ()) (servedTee_reached long) rfl).2.2.1 ⟨rfl, rfl⟩).2

end Served

end Pypiron.StreamingFill
