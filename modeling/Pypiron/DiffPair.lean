import Pypiron.PagedListing
import Pypiron.Text

/-! The diff of two buckets: each listing read a page at a time as a stream of
package names, and the two streams merged by name. -/
namespace Pypiron.DiffPair
open PagedListing

def packagesPrefix : String := "packages/"

def packages (bucket : Listing String) : Listing String :=
  bucket.under fun key => packagesPrefix.toList.isPrefixOf key.toList

/-- The package a key belongs to; an object directly under the prefix has none. -/
def packageName (key : String) : Option String :=
  ((stripPrefix packagesPrefix key).bind (splitOnce '/')).map Prod.fst

/-! ### The package names of one bucket -/

structure PackageScan where
  bucket : Listing String
  after : Option String
  buf : List String
  lastEmitted : Option String
  done : Bool

def PackageScan.new (bucket : Listing String) : PackageScan := ⟨bucket, none, [], none, false⟩

def PackageScan.emit (scan : PackageScan) (key : String) : PackageScan :=
  match packageName key with
  | none => scan
  | some name =>
    if scan.lastEmitted = some name then scan
    else { scan with buf := scan.buf ++ [name], lastEmitted := some name }

@[simp] theorem emit_bucket (scan : PackageScan) (page : List String) :
    (page.foldl PackageScan.emit scan).bucket = scan.bucket := by
  induction page generalizing scan with
  | nil => rfl
  | cons key page ih => simp only [List.foldl_cons, ih, PackageScan.emit]; split <;> grind

@[simp] theorem emit_after (scan : PackageScan) (page : List String) :
    (page.foldl PackageScan.emit scan).after = scan.after := by
  induction page generalizing scan with
  | nil => rfl
  | cons key page ih => simp only [List.foldl_cons, ih, PackageScan.emit]; split <;> grind

def PackageScan.unread (scan : PackageScan) : List String :=
  (packages scan.bucket).unread scan.after scan.done

variable (limit : ℕ+)

/-- A page of keys taken in. -/
def PackageScan.take (scan : PackageScan) (page : List String) : PackageScan :=
  { page.foldl PackageScan.emit { scan with after := page.getLast? } with
    done := page.length < limit }

def PackageScan.page (scan : PackageScan) : List String :=
  (packages scan.bucket).page scan.after limit

theorem unread_take (scan : PackageScan) (reading : scan.done = false) :
    scan.unread = scan.page limit ++ (scan.take limit (scan.page limit)).unread := by
  simp only [PackageScan.unread, PackageScan.take, emit_bucket, emit_after, reading,
    PackageScan.page]
  exact Listing.unread_page _ _ _

/-- Read pages until a name is buffered or none is left. -/
def PackageScan.fill (scan : PackageScan) : PackageScan :=
  if _open : scan.buf.isEmpty ∧ scan.done = false then
    if _some : scan.page limit = [] then { scan with done := true }
    else (scan.take limit (scan.page limit)).fill
  else scan
termination_by scan.unread.length
decreasing_by
  rw [unread_take limit scan _open.2]
  have := List.length_pos_iff.mpr _some
  simp
  omega

/-! ### Names in the order they are streamed -/

/-- Names in order, without those that repeat the one before. -/
def distinct (last : Option String) : List String → List String
  | [] => []
  | name :: names =>
    if last = some name then distinct last names else name :: distinct (some name) names

/-- The names a scan has not yielded. -/
def PackageScan.names (scan : PackageScan) : List String :=
  scan.buf ++ distinct scan.lastEmitted (scan.unread.filterMap packageName)

theorem emit_names (scan : PackageScan) (page rest : List String) :
    (page.foldl PackageScan.emit scan).buf ++
        distinct (page.foldl PackageScan.emit scan).lastEmitted rest =
      scan.buf ++ distinct scan.lastEmitted (page.filterMap packageName ++ rest) := by
  induction page generalizing scan with
  | nil => rfl
  | cons key page ih =>
    rw [List.foldl_cons, ih]
    cases name : packageName key with
    | none => simp [PackageScan.emit, name]
    | some name' =>
      by_cases again : scan.lastEmitted = some name' <;>
        simp [PackageScan.emit, name, distinct, again]

theorem take_names (scan : PackageScan) (reading : scan.done = false) :
    (scan.take limit (scan.page limit)).names = scan.names := by
  rw [PackageScan.names, PackageScan.names, unread_take limit scan reading,
    List.filterMap_append]
  exact emit_names { scan with after := (scan.page limit).getLast? } (scan.page limit) _

theorem fill_names (scan : PackageScan) : (scan.fill limit).names = scan.names := by
  fun_induction PackageScan.fill limit scan with
  | case1 scan reading none =>
    have empty := (packages scan.bucket).page_eq_nil.mp none
    simp [PackageScan.names, PackageScan.unread, Listing.unread, empty, reading.2]
  | case2 scan reading some ih => rw [ih, take_names limit scan reading.2]
  | case3 scan => rfl

theorem fill_empty (scan : PackageScan) (none : (scan.fill limit).buf = []) :
    (scan.fill limit).done = true := by
  fun_induction PackageScan.fill limit scan with
  | case1 scan reading empty => rfl
  | case2 scan reading some ih => exact ih none
  | case3 scan stopped => simpa [none] using stopped

def PackageScan.peek (scan : PackageScan) : Option String × PackageScan :=
  ((scan.fill limit).buf.head?, scan.fill limit)

def PackageScan.advance (scan : PackageScan) : PackageScan :=
  { scan with buf := scan.buf.tail }

theorem peek_names (scan : PackageScan) : (scan.peek limit).1 = scan.names.head? ∧
    (scan.peek limit).2.names = scan.names ∧
    ∀ name, (scan.peek limit).1 = some name →
      (scan.peek limit).2.advance.names = scan.names.tail := by
  rw [← fill_names limit scan]
  cases buffered : (scan.fill limit).buf with
  | nil =>
    have done := fill_empty limit scan buffered
    simp [PackageScan.peek, PackageScan.names, PackageScan.unread, buffered, done, distinct]
  | cons name rest =>
    simp [PackageScan.peek, PackageScan.advance, PackageScan.names, PackageScan.unread, buffered]

/-! ### The merge -/

inductive Convergence where
  | converged
  | deferred

/-- The packages converged so far, in order, those that failed, with their errors,
and those whose merge was put off. -/
structure Diff where
  visited : List String
  failures : List String
  deferred : List String

def Diff.visit (diff : Diff) (pkg : String) (outcome : Except String Convergence) : Diff :=
  match outcome with
  | .ok .converged => { diff with visited := diff.visited ++ [pkg] }
  | .ok .deferred => { diff with
      visited := diff.visited ++ [pkg], deferred := diff.deferred ++ [pkg] }
  | .error error => { diff with
      visited := diff.visited ++ [pkg], failures := diff.failures ++ [pkg ++ ": " ++ error] }

@[simp] theorem visit_visited (diff : Diff) (pkg : String) (outcome : Except String Convergence) :
    (diff.visit pkg outcome).visited = diff.visited ++ [pkg] := by
  unfold Diff.visit
  split <;> rfl

variable (convergePackage : String → Except String Convergence)

theorem advance_length {scan : PackageScan} {name : String}
    (next : (scan.peek limit).1 = some name) :
    (scan.peek limit).2.advance.names.length < scan.names.length := by
  obtain ⟨head, -, advanced⟩ := peek_names limit scan
  rw [advanced name next, List.length_tail]
  have : scan.names ≠ [] := by
    intro none
    simp [head, none] at next
  have := List.length_pos_iff.mpr this
  omega

theorem peek_length (scan : PackageScan) :
    (scan.peek limit).2.names.length = scan.names.length :=
  congrArg List.length (peek_names limit scan).2.1

def diffFrom (a b : PackageScan) (diff : Diff) : Diff :=
  match _nextA : (a.peek limit).1, _nextB : (b.peek limit).1 with
  | none, none => diff
  | some aPkg, none =>
    diffFrom (a.peek limit).2.advance (b.peek limit).2 (diff.visit aPkg (convergePackage aPkg))
  | none, some bPkg =>
    diffFrom (a.peek limit).2 (b.peek limit).2.advance (diff.visit bPkg (convergePackage bPkg))
  | some aPkg, some bPkg =>
    match compare aPkg bPkg with
    | .lt =>
      diffFrom (a.peek limit).2.advance (b.peek limit).2 (diff.visit aPkg (convergePackage aPkg))
    | .gt =>
      diffFrom (a.peek limit).2 (b.peek limit).2.advance (diff.visit bPkg (convergePackage bPkg))
    | .eq =>
      diffFrom (a.peek limit).2.advance (b.peek limit).2.advance
        (diff.visit aPkg (convergePackage aPkg))
termination_by a.names.length + b.names.length
decreasing_by
  all_goals
    have := peek_length limit a
    have := peek_length limit b
    try have := advance_length limit _nextA
    try have := advance_length limit _nextB
    omega

def diffPair (a b : Listing String) : Diff :=
  diffFrom limit convergePackage (PackageScan.new a) (PackageScan.new b) ⟨[], [], []⟩

/-- The packages whose merge was put off, unless some merge failed. -/
def Diff.result (diff : Diff) : Except String (List String) :=
  if diff.failures.isEmpty then .ok diff.deferred
  else .error ("package diffs failed: " ++ "; ".intercalate diff.failures)

end Pypiron.DiffPair
