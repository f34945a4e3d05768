import Mathlib.Logic.Function.Basic
import Mathlib.Order.Basic
import Pypiron.Sidecar

/-! A cache fill that is served while it downloads. The fill writes one spool per
attempt and publishes how far it is; each tee follows the spool of the attempt it
found, and holds back the tail until the fill says that it is verified. -/
namespace Pypiron.StreamingFill

def teeHoldback : ℕ := 64 * 1024
def teeChunk : ℕ := 64 * 1024
def downloadAttempts : ℕ := 3

/-! ### What a fill publishes -/

inductive FillState where
  | running
  | verified
  | failed
  deriving DecidableEq

/-- The latest position only. A spool is named by the attempt that opened it. -/
structure FillProgress where
  attempt : ℕ
  spool : Option ℕ
  written : ℕ
  state : FillState

namespace FillProgress

def default : FillProgress := ⟨0, none, 0, .running⟩

def started (attempt : ℕ) (_ : FillProgress) : FillProgress := ⟨attempt, some attempt, 0, .running⟩

def wrote (written : ℕ) (p : FillProgress) : FillProgress := { p with written := written }

def verified (written : ℕ) (p : FillProgress) : FillProgress :=
  { p with written := written, state := .verified }

def failed (p : FillProgress) : FillProgress := { p with state := .failed }

end FillProgress

/-! ### The fill -/

/-- What the fill of one file is given: the digest of its listing, the hash that
the spool computes, and the most bytes it may have. -/
structure Upstream where
  expected : String
  sha256 : Bytes → String
  ceiling : ℕ

def eqIgnoreAsciiCase (a b : String) : Bool := a.toList.map Char.toLower = b.toList.map Char.toLower

def Upstream.digestMatches (upstream : Upstream) (body : Bytes) : Bool :=
  eqIgnoreAsciiCase (upstream.sha256 body) upstream.expected

/-- Where the fill's task stands. -/
inductive Phase where
  /-- Listing, refusals and the claim, before any download. -/
  | checking
  | starting (attempt : ℕ)
  /-- Reading the body, with the count last published. -/
  | downloading (attempt published : ℕ)
  | publishing (attempt : ℕ)
  | finishing (attempt : ℕ)
  | failing (attempt : ℕ)
  /-- The digest matched. -/
  | matched (attempt : ℕ)
  /-- The origin claim is still the one the fill started against. -/
  | fenced (attempt : ℕ)
  | released (attempt : ℕ)
  /-- The commit returned. -/
  | ended
  /-- The task is gone, and the sending half with it. -/
  | gone
  deriving DecidableEq

/-- `visible` is how much of a spool a second handle can read; `passed` are the
attempts whose origin fence passed. -/
structure Fill where
  channel : FillProgress
  phase : Phase
  spools : ℕ → Bytes
  visible : ℕ → ℕ
  passed : ℕ → Prop

def Fill.new : Fill := ⟨.default, .checking, fun _ => [], fun _ => 0, fun _ => False⟩

namespace Fill

def publish (fill : Fill) (change : FillProgress → FillProgress) (phase : Phase) : Fill :=
  { fill with channel := change fill.channel, phase := phase }

def write (fill : Fill) (attempt : ℕ) (chunk : Bytes) (phase : Phase) : Fill :=
  { fill with
    spools := Function.update fill.spools attempt (fill.spools attempt ++ chunk)
    phase := phase }

def flush (fill : Fill) (attempt : ℕ) : Fill :=
  { fill with
    visible := Function.update fill.visible attempt (fill.spools attempt).length }

/-- After a chunk: the ceiling, then whether enough is new to publish it. -/
def afterChunk (upstream : Upstream) (attempt published size : ℕ) : Phase :=
  if size > upstream.ceiling then .failing attempt
  else if size - published ≥ teeChunk then .publishing attempt
  else .downloading attempt published

def afterFailure (attempt : ℕ) : Phase :=
  if attempt < downloadAttempts then .starting (attempt + 1) else .ended

variable (upstream : Upstream)

/-- One step of the fill: each publication is a step of its own. -/
inductive Step : Fill → Fill → Prop where
  /-- Not upstream, refused, or not ours to claim. -/
  | refused {f : Fill} : f.phase = .checking → Step f { f with phase := .ended }
  | claimed {f : Fill} : f.phase = .checking → Step f { f with phase := .starting 1 }
  | started {f : Fill} {a : ℕ} : f.phase = .starting a →
      Step f { f.publish (.started a) (.downloading a 0) with
        spools := Function.update f.spools a []
        visible := Function.update f.visible a 0 }
  | unanswered {f : Fill} {a : ℕ} : f.phase = .starting a → Step f { f with phase := .failing a }
  /-- The guard forbids the target, which no retry changes. -/
  | blocked {f : Fill} {a : ℕ} : f.phase = .starting a → Step f (f.publish .failed .ended)
  | chunk {f : Fill} {a published : ℕ} (bytes : Bytes) : f.phase = .downloading a published →
      Step f (f.write a bytes
        (afterChunk upstream a published (f.spools a ++ bytes).length))
  /-- The body, or writing it, breaks off. -/
  | broken {f : Fill} {a published : ℕ} (written : Bytes) : f.phase = .downloading a published →
      Step f (f.write a written (.failing a))
  | reached {f : Fill} {a n : ℕ} : f.visible a ≤ n → n ≤ (f.spools a).length →
      Step f { f with visible := Function.update f.visible a n }
  | published {f : Fill} {a : ℕ} : f.phase = .publishing a →
      Step f ((f.flush a).publish (.wrote (f.spools a).length)
        (.downloading a (f.spools a).length))
  | bodyEnded {f : Fill} {a published : ℕ} : f.phase = .downloading a published →
      Step f ((f.flush a).publish (.wrote (f.spools a).length) (.finishing a))
  | unflushed {f : Fill} {a : ℕ} : f.phase = .publishing a ∨ f.phase = .finishing a →
      Step f { f with phase := .failing a }
  | compared {f : Fill} {a : ℕ} : f.phase = .finishing a →
      Step f { f with phase :=
        if upstream.digestMatches (f.spools a) then .matched a else .failing a }
  | attemptFailed {f : Fill} {a : ℕ} : f.phase = .failing a →
      Step f (f.publish .failed (afterFailure a))
  | fencePassed {f : Fill} {a : ℕ} : f.phase = .matched a →
      Step f { f with phase := .fenced a, passed := Function.update f.passed a True }
  /-- The claim changed, the release is refused, or storage fails. -/
  | abandoned {f : Fill} {a : ℕ} : f.phase = .matched a ∨ f.phase = .fenced a →
      Step f { f with phase := .ended }
  | verified {f : Fill} {a : ℕ} : f.phase = .fenced a →
      Step f (f.publish (.verified (f.spools a).length) (.released a))
  | committed {f : Fill} {a : ℕ} : f.phase = .released a → Step f { f with phase := .ended }
  /-- Anything short of a release is a failure to whoever follows. -/
  | closed {f : Fill} : f.phase = .ended →
      Step f (if f.channel.state = .verified then { f with phase := .gone }
        else f.publish .failed .gone)
  | dropped {f : Fill} : Step f { f with phase := .gone }

end Fill

/-! ### A tee -/

inductive Observed where
  | live (written : ℕ)
  | verified (written : ℕ)
  | lost

def observe (progress : FillProgress) (attempt : ℕ) : Observed :=
  if progress.attempt ≠ attempt then .lost
  else
    match progress.state with
    | .failed => .lost
    | .verified => .verified progress.written
    | .running => .live progress.written

/-- Where `next` stands when it is not running. -/
inductive Control where
  | idle
  | waiting
  | reading (want : ℕ)
  deriving DecidableEq

/-- `onDelivered` says whether the callback is still held. The last four fields are
what came out: the bytes, whether an error and whether an end of body was handed
out, and how often the callback ran. -/
structure Tee where
  size : ℕ
  attempt : ℕ
  sent : ℕ
  available : ℕ
  verified : Bool
  done : Bool
  onDelivered : Bool
  control : Control
  delivered : Bytes
  failed : Bool
  ended : Bool
  deliveries : ℕ

namespace Tee

def new (size attempt : ℕ) (onDelivered : Bool) : Tee where
  size := size
  attempt := attempt
  sent := 0
  available := 0
  verified := false
  done := false
  onDelivered := onDelivered
  control := .idle
  delivered := []
  failed := false
  ended := false
  deliveries := 0

def abort (tee : Tee) : Tee := { tee with done := true, failed := true, control := .idle }

def see (tee : Tee) : Observed → Option Tee
  | .live written => some { tee with available := written }
  | .verified written => some { tee with verified := true, available := written }
  | .lost => none

def limit (tee : Tee) : ℕ :=
  if tee.verified then tee.size else min tee.available (tee.size - teeHoldback)

/-- What follows from the position a tee knows of. -/
def act (tee : Tee) : Tee :=
  if tee.verified ∧ tee.available ≠ tee.size then tee.abort
  else if tee.sent ≥ tee.limit then
    if tee.verified then { tee with done := true, ended := true, control := .idle }
    else { tee with control := .waiting }
  else { tee with control := .reading (min (tee.limit - tee.sent) teeChunk) }

/-- One turn of the loop of `next`, up to where it waits or returns. -/
def turn (progress : FillProgress) (tee : Tee) : Tee :=
  if tee.verified then tee.act
  else
    match tee.see (observe progress tee.attempt) with
    | some tee => tee.act
    | none => tee.abort

def deliver (tee : Tee) : Tee :=
  if tee.onDelivered then { tee with onDelivered := false, deliveries := tee.deliveries + 1 }
  else tee

/-- A read that gave some bytes hands them out. -/
def handOut (tee : Tee) (bytes : Bytes) : Tee :=
  let tee := { tee with
    sent := tee.sent + bytes.length, delivered := tee.delivered ++ bytes, control := .idle }
  if tee.verified ∧ tee.sent ≥ tee.size then tee.deliver else tee

/-- One step of a tee, beside a fill that stands anywhere. -/
inductive Step (fill : Fill) : Tee → Tee → Prop where
  | pollDone {t : Tee} : t.control = .idle → t.done = true → Step fill t { t with ended := true }
  | poll {t : Tee} : t.control = .idle → t.done = false → Step fill t (t.turn fill.channel)
  | woken {t : Tee} : t.control = .waiting → Step fill t (t.turn fill.channel)
  /-- The fill is gone; what it published last still counts. -/
  | orphaned {t : Tee} : t.control = .waiting → fill.phase = .gone →
      Step fill t (match observe fill.channel t.attempt with
        | .verified written => { t with verified := true, available := written }.act
        | _ => t.abort)
  | read {t : Tee} {want n : ℕ} : t.control = .reading want → 0 < n → n ≤ want →
      t.sent + n ≤ fill.visible t.attempt →
      Step fill t (t.handOut (((fill.spools t.attempt).drop t.sent).take n))
  /-- The handle sees no byte beyond what was sent. -/
  | readNothing {t : Tee} {want : ℕ} : t.control = .reading want →
      fill.visible t.attempt ≤ t.sent →
      Step fill t (if t.verified then t.abort else { t with control := .waiting })
  | readFailed {t : Tee} {want : ℕ} : t.control = .reading want →
      Step fill t { t with failed := true, control := .idle }

end Tee

/-! ### Fill and tees together -/

/-- A tee takes a position first and opens the spool later. -/
inductive Follower where
  | absent
  | anchored (size attempt : ℕ)
  | streaming (tee : Tee)

def peek (progress : FillProgress) : Option ℕ :=
  match progress.state with
  | .running => progress.spool
  | _ => none

inductive Follower.Step (fill : Fill) : Follower → Follower → Prop where
  | anchor {size a : ℕ} : peek fill.channel = some a → Step fill .absent (.anchored size a)
  | opened {size a : ℕ} (onDelivered : Bool) :
      Step fill (.anchored size a) (.streaming (.new size a onDelivered))
  /-- The spool cannot be opened any more. -/
  | unopened {size a : ℕ} : Step fill (.anchored size a) .absent
  | tee {t t' : Tee} : Tee.Step fill t t' → Step fill (.streaming t) (.streaming t')

/-- One fill and any number of followers. -/
structure State (ι : Type) where
  fill : Fill
  followers : ι → Follower

variable {ι : Type} [DecidableEq ι]

def State.start : State ι := ⟨.new, fun _ => .absent⟩

inductive Moves (upstream : Upstream) : State ι → State ι → Prop where
  | fill {s : State ι} {fill' : Fill} : Fill.Step upstream s.fill fill' →
      Moves upstream s { s with fill := fill' }
  | follower {s : State ι} (i : ι) {next : Follower} :
      Follower.Step s.fill (s.followers i) next →
      Moves upstream s { s with followers := Function.update s.followers i next }

end Pypiron.StreamingFill
