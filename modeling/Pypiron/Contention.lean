import Pypiron.ConditionalWrites
import Pypiron.Program

/-! One call on a shared object while other parties write and delete it at any
time, and the optimistic update: read, decide, and replace exactly the version that
was read, or start again. Whatever the others do and whichever requests fail, the
update takes effect at one instant at most, and decides on what stands there. -/
namespace Contention
open VersionedCell (Request Serves)
variable {α ε β γ : Type}

/-- Delete the object, whatever stood there. -/
def remove (cell : VersionedCell α) : VersionedCell α where
  current := none
  issued := cell.issued
  fresh := by simp

/-- What another party may do in one instant. -/
inductive Changes (cell : VersionedCell α) : VersionedCell α → Prop where
  | kept : Changes cell cell
  | written (body : α) : Changes cell (cell.write body)
  | removed : Changes cell (remove cell)

def etag (cell : VersionedCell α) : Option ℕ := cell.get.map (·.2)

/-- One instant of a call: whether the call made it, whether it was told of a failure, and
the object before and after. -/
structure Moment (α : Type) where
  mine : Bool
  failed : Bool
  before : VersionedCell α
  after : VersionedCell α

def Moment.changed (moment : Moment α) : Bool := etag moment.before != etag moment.after

/-- The instants at which the call itself changed the object. -/
def own (moments : List (Moment α)) : List (Moment α) :=
  moments.filter fun moment => moment.mine && moment.changed

/-- How often others changed the object. -/
def others (moments : List (Moment α)) : ℕ :=
  (moments.filter fun moment => !moment.mine && moment.changed).length

def fails : (request : Request α) → request.Ans → Bool
  | .getWithEtag, .error _ => true
  | .putIfNoneMatch _, .error _ => true
  | .putIfMatch _ _, .error _ => true
  | _, _ => false

/-- A call runs to its result, others taking part at any instant. -/
inductive Amid : Program (Request α) Request.Ans ε β → VersionedCell α → List (Moment α) →
    Except ε β → VersionedCell α → Prop where
  | done : Amid (.done result) cell [] result cell
  | other (changes : Changes cell cell') (rest : Amid program cell' moments result last) :
      Amid program cell (⟨false, false, cell, cell'⟩ :: moments) result last
  | mine (serves : Serves cell op answer cell') (rest : Amid (next answer) cell' moments result last) :
      Amid (.call op next) cell (⟨true, fails op answer, cell, cell'⟩ :: moments) result last

/-- A call with nobody else about, on a store that answers everything. -/
def alone : Program (Request α) Request.Ans ε β → VersionedCell α → Except ε β × VersionedCell α
  | .done result, cell => (result, cell)
  | .call op next, cell => alone (next (cell.serve op).1) (cell.serve op).2

theorem amid_alone (program : Program (Request α) Request.Ans ε β) (cell : VersionedCell α) :
    ∃ moments, Amid program cell moments (alone program cell).1 (alone program cell).2 := by
  induction program generalizing cell with
  | done result => exact ⟨[], .done⟩
  | call op next ih =>
      obtain ⟨moments, rest⟩ := ih (cell.serve op).1 (cell.serve op).2
      exact ⟨_, .mine (VersionedCell.serves_serve cell op) rest⟩

/-- Others take part, the call does nothing. -/
inductive Idle : VersionedCell α → List (Moment α) → VersionedCell α → Prop where
  | nil : Idle cell [] cell
  | cons (changes : Changes cell cell') (rest : Idle cell' moments last) :
      Idle cell (⟨false, false, cell, cell'⟩ :: moments) last

@[simp] theorem own_nil : own ([] : List (Moment α)) = [] := rfl

@[simp] theorem own_append (moments more : List (Moment α)) :
    own (moments ++ more) = own moments ++ own more := List.filter_append ..

@[simp] theorem others_append (moments more : List (Moment α)) :
    others (moments ++ more) = others moments + others more := by
  simp [others]

@[simp] theorem own_mine (failed : Bool) (before after : VersionedCell α) (moments : List (Moment α)) :
    own (⟨true, failed, before, after⟩ :: moments) =
      if etag before = etag after then own moments else ⟨true, failed, before, after⟩ :: own moments := by
  by_cases same : etag before = etag after
  · simp [own, Moment.changed, same]
  · simp [own, Moment.changed, same]

@[simp] theorem others_mine (failed : Bool) (before after : VersionedCell α) (moments : List (Moment α)) :
    others (⟨true, failed, before, after⟩ :: moments) = others moments := by
  simp [others]

theorem etag_write_ne (cell : VersionedCell α) (body : α) : etag cell ≠ etag (cell.write body) := by
  intro same
  rw [etag, etag, VersionedCell.get_write, Option.map_some, Option.map_eq_some_iff] at same
  obtain ⟨⟨stored, number⟩, found, rfl⟩ := same
  exact absurd (VersionedCell.etag_lt_issued found) (lt_irrefl _)

/-- The call may end so while others change the object this often. -/
def Raced (changed : ℕ) (program : Program (Request α) Request.Ans ε β) (cell : VersionedCell α)
    (result : Except ε β) : Prop :=
  ∃ moments last, others moments = changed ∧ Amid program cell moments result last

namespace Raced
variable {cell cell' : VersionedCell α} {program : Program (Request α) Request.Ans ε β} {result : Except ε β}

theorem done : Raced 0 (.done result : Program (Request α) Request.Ans ε β) cell result := ⟨[], cell, rfl, .done⟩

theorem other (changes : Changes cell cell') (moved : etag cell ≠ etag cell')
    (rest : Raced changed program cell' result) : Raced (changed + 1) program cell result := by
  obtain ⟨moments, last, rfl, run⟩ := rest
  refine ⟨_, last, ?_, .other changes run⟩
  simp [others, Moment.changed, moved]

theorem mine {op : Request α} {answer : op.Ans} {next : op.Ans → Program (Request α) Request.Ans ε β}
    (serves : Serves cell op answer cell') (rest : Raced changed (next answer) cell' result) :
    Raced changed (.call op next) cell result := by
  obtain ⟨moments, last, rfl, run⟩ := rest
  exact ⟨_, last, others_mine _ _ _ _, .mine serves run⟩

end Raced

namespace Idle

@[simp] theorem own {cell last : VersionedCell α} (idle : Idle cell moments last) : own moments = [] := by
  induction idle with
  | nil => rfl
  | cons changes rest ih => simpa [Contention.own] using ih

/-- A version seen again was there all the time, with the same body. -/
theorem same_version {cell last : VersionedCell α} (idle : Idle cell moments last)
    (issued : number < cell.issued) (again : last.get = some (body, number)) :
    cell.get = some (body, number) := by
  induction idle with
  | nil => exact again
  | @cons cell cell' moments last changes rest ih =>
      cases changes with
      | kept => exact ih issued again
      | written written =>
          have later := ih (by rw [VersionedCell.issued_write]; omega) again
          rw [VersionedCell.get_write, Option.some.injEq, Prod.mk.injEq] at later
          omega
      | removed => cases ih issued again

theorem others_pos {cell last : VersionedCell α} (idle : Idle cell moments last)
    (moved : etag cell ≠ etag last) : 0 < others moments := by
  induction idle with
  | nil => exact absurd rfl moved
  | @cons cell cell' moments last changes rest ih =>
      by_cases same : etag cell = etag cell'
      · rw [same] at moved
        have := ih moved
        simpa [others, Moment.changed, same] using this
      · simp [others, Moment.changed, same]

end Idle

theorem amid_done {cell last : VersionedCell α} {result result' : Except ε β}
    (run : Amid (.done result) cell moments result' last) : result' = result ∧ Idle cell moments last := by
  generalize held : (Program.done result : Program (Request α) Request.Ans ε β) = program at run
  induction run with
  | done => cases held; exact ⟨rfl, .nil⟩
  | other changes rest ih =>
      obtain ⟨same, idle⟩ := ih held
      exact ⟨same, .cons changes idle⟩
  | mine serves rest => cases held

/-- Up to its next request a call is idle. -/
theorem amid_call {cell last : VersionedCell α} {op : Request α}
    {next : op.Ans → Program (Request α) Request.Ans ε β} {result : Except ε β}
    (run : Amid (.call op next) cell moments result last) :
    ∃ idle mid answer after rest, moments = idle ++ ⟨true, fails op answer, mid, after⟩ :: rest ∧
      Idle cell idle mid ∧ Serves mid op answer after ∧ Amid (next answer) after rest result last := by
  generalize held : (Program.call op next : Program (Request α) Request.Ans ε β) = program at run
  induction run with
  | done => cases held
  | other changes rest ih =>
      obtain ⟨idle, mid, answer, after, rest', rfl, waits, serves, goes⟩ := ih held
      exact ⟨_, mid, answer, after, rest', rfl, .cons changes waits, serves, goes⟩
  | mine serves rest =>
      cases held
      exact ⟨[], _, _, _, _, rfl, .nil, serves, rest⟩

/-! ### Histories -/

/-- Between two instants the object had this content. -/
def Stood (cells : ℕ → VersionedCell α) (first last : ℕ) (content : Option α) : Prop :=
  ∃ instant, first ≤ instant ∧ instant ≤ last ∧ (cells instant).value = content

/-- A value read off the object once the etag had been issued. -/
def Noted (cells : ℕ → VersionedCell α) (reads : α → Option β) (now number : ℕ) (value : β) : Prop :=
  ∃ seen body, seen ≤ now ∧ number < (cells seen).issued ∧ (cells seen).value = some body ∧ reads body = some value

theorem Stood.widen {cells : ℕ → VersionedCell α} {content : Option α}
    (stood : Stood cells first last content) (le : first' ≤ first) (le' : last ≤ last') :
    Stood cells first' last' content := by
  obtain ⟨instant, from_, upto, held⟩ := stood
  exact ⟨instant, le.trans from_, upto.trans le', held⟩

theorem Noted.mono {cells : ℕ → VersionedCell α} {reads : α → Option β} {value : β}
    (noted : Noted cells reads now number value) (le : now ≤ later) :
    Noted cells reads later number value := by
  obtain ⟨seen, body, before, issued, held, reading⟩ := noted
  exact ⟨seen, body, before.trans le, issued, held, reading⟩

section History
variable {cells : ℕ → VersionedCell α} (changes : ∀ now, Changes (cells now) (cells (now + 1)))

include changes in
theorem issued_le (le : first ≤ last) : (cells first).issued ≤ (cells last).issued := by
  induction last, le using Nat.le_induction with
  | base => exact le_rfl
  | succ last le ih =>
      refine ih.trans ?_
      generalize after : cells (last + 1) = cell'
      cases after ▸ changes last with
      | kept => exact le_rfl
      | written body => exact Nat.le_succ _
      | removed => exact le_rfl

include changes in
/-- A version that shows up had its etag issued just then, or was there before. -/
theorem before_of_issued (le : first ≤ last) (issued : number < (cells first).issued)
    (again : (cells last).get = some (body, number)) : (cells first).get = some (body, number) := by
  induction last, le using Nat.le_induction with
  | base => exact again
  | succ last le ih =>
      have older := issued_le changes le
      generalize after : cells (last + 1) = cell' at again
      cases after ▸ changes last with
      | kept => exact ih again
      | written written =>
          rw [VersionedCell.get_write, Option.some.injEq, Prod.mk.injEq] at again
          omega
      | removed => cases again

include changes in
/-- Where the etag is seen again the value is not older than that: it is what stands there, or
was read since. -/
theorem Noted.stood {reads : α → Option β} {value : β} (noted : Noted cells reads now number value)
    (again : (cells first).get = some (body', number)) (le : first ≤ now) :
    ∃ body, Stood cells first now (some body) ∧ reads body = some value := by
  obtain ⟨seen, body, before, issued, held, reading⟩ := noted
  refine ⟨body, ?_, reading⟩
  obtain earlier | later := Nat.le_total seen first
  · have same := VersionedCell.value_of_get (before_of_issued changes earlier issued again)
    rw [held, Option.some.injEq] at same
    exact ⟨first, le_rfl, le, same ▸ VersionedCell.value_of_get again⟩
  · exact ⟨seen, later, before, held⟩

end History

/-! ### Optimistic updates -/

def getWithEtag : Program (Request α) Request.Ans String (Option (α × ℕ)) :=
  .call .getWithEtag fun answer => .done answer

/-- Install a version where the one read still stands. -/
def install (read : Option (α × ℕ)) (body : α) : Program (Request α) Request.Ans String Bool :=
  match read with
  | some (_, number) => .call (.putIfMatch number body) fun answer => .done (Except.map Option.isSome answer)
  | none => .call (.putIfNoneMatch body) fun answer => .done (Except.map Option.isSome answer)

/-- What a verdict leads to: an error, nothing to do, or a version to install with what the
call then returns. -/
def carryOut (read : Option (α × ℕ)) (again : Program (Request α) Request.Ans String (Option γ)) :
    Except String (Option (α × γ)) → Program (Request α) Request.Ans String (Option γ)
  | .error text => .bail text
  | .ok none => pure none
  | .ok (some (body, value)) => do if ← install read body then pure (some value) else again

def optimistic (judge : Option (α × ℕ) → Except String (Option (α × γ))) (exhausted : String) :
    ℕ → Program (Request α) Request.Ans String (Option γ)
  | 0 => .bail exhausted
  | attempts + 1 => do
    let read ← getWithEtag
    carryOut read (optimistic judge exhausted attempts) (judge read)

variable (judge : Option (α × ℕ) → Except String (Option (α × γ)))

/-- The one write of a call: what stood there was judged, and replaced by the verdict. -/
def Took (moments : List (Moment α)) (value : γ) : Prop :=
  ∃ moment body, own moments = [moment] ∧ judge moment.before.get = .ok (some (body, value)) ∧
    moment.after = moment.before.write body

/-- What a finished call says of its moments. -/
def Linear (attempts : ℕ) (moments : List (Moment α)) : Except String (Option γ) → Prop
  | .ok (some value) => Took judge moments value
  | .ok none => own moments = [] ∧ ∃ moment ∈ moments, judge moment.before.get = .ok none
  | .error _ => (own moments = [] ∨ ∃ value, Took judge moments value) ∧
      ((∃ moment ∈ moments, moment.failed = true) ∨
        (∃ moment ∈ moments, ∃ text, judge moment.before.get = .error text) ∨
        attempts ≤ others moments)

variable {judge} {cell last : VersionedCell α} {moments : List (Moment α)}

/-- A read is idle up to its instant, and either fails or tells what stands there. -/
theorem amid_getWithEtag {next : Option (α × ℕ) → Program (Request α) Request.Ans String β}
    {result : Except String β} (run : Amid (getWithEtag >>= next) cell moments result last) :
    ∃ idle mid rest failed, moments = idle ++ ⟨true, failed, mid, mid⟩ :: rest ∧ Idle cell idle mid ∧
      (failed = true ∧ (∃ text, result = .error text) ∧ Idle mid rest last ∨
        failed = false ∧ Amid (next mid.get) mid rest result last) := by
  obtain ⟨idle, mid, answer, after, rest, rfl, waits, serves, goes⟩ := amid_call run
  obtain ⟨rfl, ⟨text, rfl⟩ | rfl⟩ := serves.read
  · obtain ⟨rfl, waits'⟩ := amid_done goes
    exact ⟨idle, _, rest, _, rfl, waits, .inl ⟨rfl, ⟨text, rfl⟩, waits'⟩⟩
  · exact ⟨idle, _, rest, _, rfl, waits, .inr ⟨rfl, goes⟩⟩

/-- A conditional write is idle up to its instant. It fails, with or without effect, or is
told whether what was read still stands, and has then replaced it. -/
theorem amid_install {body : α} {next : Bool → Program (Request α) Request.Ans String β}
    {result : Except String β} (run : Amid (install cell.get body >>= next) cell moments result last) :
    ∃ idle mid rest failed after, moments = idle ++ ⟨true, failed, mid, after⟩ :: rest ∧ Idle cell idle mid ∧
      (failed = true ∧ (∃ text, result = .error text) ∧ Idle after rest last ∧
          (after = mid ∨ mid.get = cell.get ∧ after = mid.write body) ∨
        failed = false ∧ Amid (next true) after rest result last ∧ mid.get = cell.get ∧
          after = mid.write body ∨
        failed = false ∧ Amid (next false) after rest result last ∧ after = mid ∧ etag cell ≠ etag mid) := by
  cases read : cell.get with
  | none =>
      rw [read] at run
      obtain ⟨idle, mid, answer, after, rest, rfl, waits, serves, goes⟩ := amid_call run
      refine ⟨idle, mid, rest, _, after, rfl, waits, ?_⟩
      cases serves with
      | created missing => exact .inr (.inl ⟨rfl, goes, missing, rfl⟩)
      | occupied found =>
          refine .inr (.inr ⟨rfl, goes, rfl, ?_⟩)
          simp [etag, read, found]
      | createFailed text =>
          obtain ⟨rfl, waits'⟩ := amid_done goes
          exact .inl ⟨rfl, ⟨text, rfl⟩, waits', .inl rfl⟩
      | createLost text missing =>
          obtain ⟨rfl, waits'⟩ := amid_done goes
          exact .inl ⟨rfl, ⟨text, rfl⟩, waits', .inr ⟨missing, rfl⟩⟩
  | some version =>
      obtain ⟨stored, number⟩ := version
      rw [read] at run
      obtain ⟨idle, mid, answer, after, rest, rfl, waits, serves, goes⟩ := amid_call run
      refine ⟨idle, mid, rest, _, after, rfl, waits, ?_⟩
      have stands : ∀ {stored'}, mid.get = some (stored', number) → mid.get = some (stored, number) := by
        intro stored' found
        have same := waits.same_version (VersionedCell.etag_lt_issued read) found
        rw [read] at same
        rw [found, same]
      cases serves with
      | replaced found => exact .inr (.inl ⟨rfl, goes, stands found, rfl⟩)
      | moved changed =>
          refine .inr (.inr ⟨rfl, goes, rfl, ?_⟩)
          simpa [etag, read] using Ne.symm changed
      | replaceFailed text =>
          obtain ⟨rfl, waits'⟩ := amid_done goes
          exact .inl ⟨rfl, ⟨text, rfl⟩, waits', .inl rfl⟩
      | replaceLost text found =>
          obtain ⟨rfl, waits'⟩ := amid_done goes
          exact .inl ⟨rfl, ⟨text, rfl⟩, waits', .inr ⟨stands found, rfl⟩⟩

/-- More moments before the ones of a finished call, none of them a write of its own. -/
theorem Linear.after_moments {attempts bound : ℕ} {before : List (Moment α)}
    {result : Except String (Option γ)} (linear : Linear judge attempts moments result)
    (quiet : own before = []) (contended : bound ≤ others before) :
    Linear judge (attempts + bound) (before ++ moments) result := by
  have writes : own (before ++ moments) = own moments := by rw [own_append, quiet, List.nil_append]
  have further {moment : Moment α} (member : moment ∈ moments) : moment ∈ before ++ moments :=
    List.mem_append_right _ member
  cases result with
  | error text =>
      obtain ⟨effect, cause⟩ := linear
      refine ⟨?_, ?_⟩
      · unfold Took
        rw [writes]
        exact effect
      · obtain ⟨moment, member, failed⟩ | ⟨moment, member, judged⟩ | contended' := cause
        · exact .inl ⟨moment, further member, failed⟩
        · exact .inr (.inl ⟨moment, further member, judged⟩)
        · rw [others_append]
          exact .inr (.inr (by omega))
  | ok value =>
      cases value with
      | none =>
          obtain ⟨unwritten, moment, member, judged⟩ := linear
          exact ⟨writes.trans unwritten, moment, further member, judged⟩
      | some value =>
          obtain ⟨moment, body, only, judged, wrote⟩ := linear
          exact ⟨moment, body, writes.trans only, judged, wrote⟩

/-- The optimistic update takes effect at one instant at most, whatever others do: there it
replaces what it judged. -/
theorem optimistic_linear (exhausted : String) (attempts : ℕ) {result : Except String (Option γ)}
    (run : Amid (optimistic judge exhausted attempts) cell moments result last) :
    Linear judge attempts moments result := by
  induction attempts generalizing cell moments with
  | zero =>
      obtain ⟨rfl, idle⟩ := amid_done run
      exact ⟨.inl idle.own, .inr (.inr (Nat.zero_le _))⟩
  | succ attempts ih =>
      obtain ⟨idle, mid, rest, failed, rfl, waits, ⟨rfl, ⟨text, rfl⟩, waits'⟩ | ⟨rfl, goes⟩⟩ :=
        amid_getWithEtag run
      · refine ⟨.inl ?_, .inl ⟨⟨true, true, mid, mid⟩, by simp, rfl⟩⟩
        simp [waits.own, waits'.own]
      · have looked : (⟨true, false, mid, mid⟩ : Moment α) ∈ idle ++ ⟨true, false, mid, mid⟩ :: rest := by simp
        cases judged : judge mid.get with
        | error text =>
            rw [judged] at goes
            obtain ⟨rfl, waits'⟩ := amid_done goes
            exact ⟨.inl (by simp [waits.own, waits'.own]), .inr (.inl ⟨_, looked, text, judged⟩)⟩
        | ok verdict =>
            cases verdict with
            | none =>
                rw [judged] at goes
                obtain ⟨rfl, waits'⟩ := amid_done goes
                exact ⟨by simp [waits.own, waits'.own], _, looked, judged⟩
            | some verdict =>
                obtain ⟨body, value⟩ := verdict
                rw [judged] at goes
                obtain ⟨idle', mid', rest', failed, after, rfl, waits', outcome⟩ := amid_install goes
                obtain ⟨rfl, ⟨text, rfl⟩, waits'', effect⟩ | ⟨rfl, goes', stands, rfl⟩ |
                  ⟨rfl, goes', rfl, moved⟩ := outcome
                · refine ⟨?_, .inl ⟨⟨true, true, mid', after⟩, by simp, rfl⟩⟩
                  obtain rfl | ⟨stands, rfl⟩ := effect
                  · exact .inl (by simp [waits.own, waits'.own, waits''.own])
                  · refine .inr ⟨value, ⟨true, true, mid', mid'.write body⟩, body, ?_, ?_, rfl⟩
                    · simp [waits.own, waits'.own, waits''.own, etag_write_ne]
                    · rw [stands]
                      exact judged
                · obtain ⟨rfl, waits''⟩ := amid_done goes'
                  refine ⟨⟨true, false, mid', mid'.write body⟩, body, ?_, ?_, rfl⟩
                  · simp [waits.own, waits'.own, waits''.own, etag_write_ne]
                  · rw [stands]
                    exact judged
                · have contended : 1 ≤ others
                      (idle ++ ⟨true, false, mid, mid⟩ :: (idle' ++ [⟨true, false, after, after⟩])) := by
                    have := waits'.others_pos moved
                    simp only [others_append, others_mine]
                    omega
                  have := (ih goes').after_moments (by simp [waits.own, waits'.own]) contended
                  simpa using this

end Contention
