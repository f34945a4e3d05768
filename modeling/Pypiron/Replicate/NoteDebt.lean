import Pypiron.Replicate.Notes

/-! Replication debt is never forgotten: what an acknowledged fan-out owes a peer
is delivered or stands as a note, over every run of fan-outs and sweeps. -/
namespace Pypiron.Notes
variable {topology : Topology} {s s' : State} {fanout : FanOut} {sweep : Sweep} {task : Task}
variable {bucket src dst since j : Nat} {key pkg filename tag nonce name : String} {peer : Peer}

theorem slash_not_mem_bucketTag (name : String) : '/' ∉ (bucketTag name).toList := by
  unfold bucketTag
  dsimp only
  split
  · decide
  · rw [String.toList_ofList]
    intro member
    obtain ⟨c, -, mapped⟩ := List.mem_map.mp member
    split at mapped
    · subst c
      simp_all
    · simp at mapped

theorem parseReplMarker_noteKey (tagClean : '/' ∉ tag.toList) (pkgClean : '/' ∉ pkg.toList)
    (nonceClean : '!' ∉ nonce.toList) :
    parseReplMarker (noteKey tag pkg filename nonce) =
      some ⟨tag, pkg, filename, noteKey tag pkg filename nonce⟩ := by
  have stripped := stripPrefix_append replPrefix
    (tag ++ "/" ++ (pkg ++ "/" ++ (filename ++ "!" ++ nonce)))
  have tagSplit : splitOnce '/' (tag ++ "/" ++ (pkg ++ "/" ++ (filename ++ "!" ++ nonce))) =
      some (tag, pkg ++ "/" ++ (filename ++ "!" ++ nonce)) :=
    splitOnce_append (by decide) tagClean _
  have pkgSplit : splitOnce '/' (pkg ++ "/" ++ (filename ++ "!" ++ nonce)) =
      some (pkg, filename ++ "!" ++ nonce) := splitOnce_append (by decide) pkgClean _
  have fileSplit : rsplitOnce '!' (filename ++ "!" ++ nonce) = some (filename, nonce) :=
    rsplitOnce_append (by decide) nonceClean _
  simp only [parseReplMarker, noteKey, stripped, tagSplit, pkgSplit, fileSplit, Option.pure_def,
    Option.bind_eq_bind, Option.bind_some]

theorem parseReplMarker_key {marker : ReplMarker} (parsed : parseReplMarker key = some marker) :
    marker.key = key := by
  simp only [parseReplMarker, Option.pure_def, Option.bind_eq_bind, Option.bind_eq_some_iff,
    Option.some.injEq] at parsed
  obtain ⟨_, _, _, _, _, _, _, _, rfl⟩ := parsed
  rfl

theorem destIndexForTag_bucketTag (topology : Topology) (inside : j < topology.names.length) :
    destIndexForTag topology.names (bucketTag (topology.names.getD j "")) = some j := by
  have distinct := List.pairwise_iff_getElem.mp topology.distinct
  rw [List.getD_eq_getElem?_getD, List.getElem?_eq_getElem inside, Option.getD_some]
  unfold destIndexForTag
  rw [List.findIdx?_eq_some_iff_getElem]
  constructor
  · constructor
    · simp
    · intro i before
      have other := distinct i j (by simp; omega) (by simpa using inside) before
      simpa using other
  · exact inside

/-- A merge of the record returned `Converged` at or after `since`. -/
def Converged (log : List Event) (src dst : Nat) (pkg filename : String) (since : Nat) : Prop :=
  ∃ n, since ≤ n ∧ log[n]? = some (.converged src dst pkg filename)

/-- Such a merge, and after it a durable dirty marker on the destination. -/
def Delivered (log : List Event) (src dst : Nat) (pkg filename : String) (since : Nat) : Prop :=
  ∃ m n, since ≤ m ∧ m < n ∧ log[m]? = some (.converged src dst pkg filename) ∧
    log[n]? = some (.dirtied dst pkg)

/-- What a state keeps of an earlier one, whatever happened in between. -/
structure Extends (s s' : State) : Prop where
  log : s.log <+: s'.log
  birth : ∀ bucket key since, s.birth bucket key = some since → s'.birth bucket key = some since

theorem getElem?_of_prefix {α : Type} {xs ys : List α} (extended : xs <+: ys) {n : Nat} {x : α}
    (found : xs[n]? = some x) : ys[n]? = some x := by
  obtain ⟨rest, rfl⟩ := extended
  rw [List.getElem?_append_left (List.getElem?_eq_some_iff.mp found).1]
  exact found

theorem Converged.mono {log log' : List Event} (extended : log <+: log')
    (converged : Converged log src dst pkg filename since) :
    Converged log' src dst pkg filename since := by
  obtain ⟨n, late, found⟩ := converged
  exact ⟨n, late, getElem?_of_prefix extended found⟩

theorem Delivered.mono {log log' : List Event} (extended : log <+: log')
    (delivered : Delivered log src dst pkg filename since) :
    Delivered log' src dst pkg filename since := by
  obtain ⟨m, n, late, later, converged, dirtied⟩ := delivered
  exact ⟨m, n, late, later, getElem?_of_prefix extended converged,
    getElem?_of_prefix extended dirtied⟩

theorem Delivered.converged {log : List Event} {earlier : Nat} (sooner : earlier ≤ since)
    (delivered : Delivered log src dst pkg filename since) :
    Converged log src dst pkg filename earlier := by
  obtain ⟨m, _, late, _, converged, _⟩ := delivered
  exact ⟨m, sooner.trans late, converged⟩

theorem step_extends (step : Step topology s s') : Extends s s' := by
  have put (bucket key) (fresh : s.birth bucket key = none) (other name since)
      (born : s.birth other name = some since) :
      Function.update s.birth bucket (Function.update (s.birth bucket) key (some s.log.length))
        other name = some since := by
    by_cases same : other = bucket
    · subst other
      have distinct : name ≠ key := by
        rintro rfl
        rw [fresh] at born
        contradiction
      simpa [distinct] using born
    · simpa [same] using born
  cases step with
  | note id j nonce _ _ _ _ _ _ _ fresh => exact ⟨List.prefix_refl _, put _ _ fresh⟩
  | extraNote bucket key fresh => exact ⟨List.prefix_refl _, put _ _ fresh⟩
  | fanConverged | merge | defer | signal =>
      exact ⟨List.prefix_append _ _, fun _ _ _ born => born⟩
  | _ => exact ⟨List.prefix_refl _, fun _ _ _ born => born⟩

/-- A listed note's task: what its key says, and what its phase attests. -/
structure Task.Traced (topology : Topology) (s : State) (sweep : Sweep) (task : Task) : Prop where
  parsed : parseReplMarker task.marker.key = some task.marker
  dest : task.dest = destIndexForTag topology.names task.marker.destTag
  born : ∃ since, s.birth sweep.src task.marker.key = some since ∧ since ≤ sweep.listedAt
  merged : task.phase = .merged → ∃ dst, task.dest = some dst ∧
    Converged s.log sweep.src dst task.marker.pkg task.marker.filename sweep.listedAt
  signalled : task.phase = .signalled → ∃ dst, task.dest = some dst ∧
    Delivered s.log sweep.src dst task.marker.pkg task.marker.filename sweep.listedAt

theorem Task.Traced.mono (extended : Extends s s') (traced : task.Traced topology s sweep) :
    task.Traced topology s' sweep where
  parsed := traced.parsed
  dest := traced.dest
  born := by
    obtain ⟨since, born, listed⟩ := traced.born
    exact ⟨since, extended.birth _ _ _ born, listed⟩
  merged phase := by
    obtain ⟨dst, named, converged⟩ := traced.merged phase
    exact ⟨dst, named, converged.mono extended.log⟩
  signalled phase := by
    obtain ⟨dst, named, delivered⟩ := traced.signalled phase
    exact ⟨dst, named, delivered.mono extended.log⟩

/-- The peer has the record, or a note that names it stands on the source. -/
def FanOut.Covered (topology : Topology) (s : State) (fanout : FanOut) (j : Nat) : Prop :=
  Converged s.log fanout.src j fanout.pkg fanout.filename fanout.stamp ∨
    ∃ key ∈ s.notes fanout.src, parseReplMarker key =
        some ⟨bucketTag (topology.names.getD j ""), fanout.pkg, fanout.filename, key⟩ ∧
      ∃ since, s.birth fanout.src key = some since ∧ fanout.stamp ≤ since

structure FanOut.Kept (topology : Topology) (s : State) (fanout : FanOut) : Prop where
  stamp : fanout.stamp ≤ s.log.length
  clean : '/' ∉ fanout.pkg.toList
  covered : ∀ j, j < topology.names.length → j ≠ fanout.src → (fanout.peers j).recorded = true →
    fanout.Covered topology s j
  acked : fanout.outcome = .acked → ∀ j, j < topology.names.length → j ≠ fanout.src →
    (fanout.peers j).recorded = true

structure Sweep.Traced (topology : Topology) (s : State) (sweep : Sweep) : Prop where
  listed : sweep.listedAt ≤ s.log.length
  tasks : ∀ task ∈ sweep.tasks, task.Traced topology s sweep

structure Debt (topology : Topology) (s : State) : Prop where
  dated : ∀ bucket key since, s.birth bucket key = some since → since ≤ s.log.length
  born : ∀ bucket, ∀ key ∈ s.notes bucket, ∃ since, s.birth bucket key = some since
  fanouts : ∀ id fanout, s.fanouts id = some fanout → fanout.Kept topology s
  sweeps : ∀ id sweep, s.sweeps id = some sweep → sweep.Traced topology s

theorem Debt.traced (debt : Debt topology s) {id i : Nat} (found : s.sweeps id = some sweep)
    (indexed : sweep.tasks[i]? = some task) : task.Traced topology s sweep :=
  (debt.sweeps id sweep found).tasks task (List.mem_of_getElem? indexed)

/-- A note goes only through a sweep's task on it. -/
theorem step_removes (step : Step topology s s') (stood : key ∈ s.notes bucket)
    (gone : key ∉ s'.notes bucket) : ∃ id sweep task, s.sweeps id = some sweep ∧
      sweep.src = bucket ∧ task ∈ sweep.tasks ∧ task.marker.key = key ∧
      (task.dest = none ∨ task.phase = .signalled) := by
  have put (other : Nat) (name : String) : key ∈ Function.update s.notes other
      (s.notes other ++ [name]) bucket := by
    by_cases same : bucket = other
    · subst bucket
      simp [stood]
    · simpa [same] using stood
  have deleted {other : Nat} {name : String} (gone : key ∉ Function.update s.notes other
      ((s.notes other).filter (· ≠ name)) bucket) : other = bucket ∧ name = key := by
    by_cases same : bucket = other
    · subst bucket
      constructor
      · rfl
      · by_contra different
        simp [stood, Ne.symm different] at gone
    · simp [same, stood] at gone
  cases step with
  | note => exact absurd (put _ _) gone
  | extraNote => exact absurd (put _ _) gone
  | consume id i found indexed phase =>
      obtain ⟨rfl, rfl⟩ := deleted gone
      exact ⟨id, _, _, found, rfl, List.mem_of_getElem? indexed, rfl, Or.inr phase⟩
  | drop id i found indexed phase unnamed =>
      obtain ⟨rfl, rfl⟩ := deleted gone
      exact ⟨id, _, _, found, rfl, List.mem_of_getElem? indexed, rfl, Or.inl unnamed⟩
  | _ => exact absurd stood gone

theorem FanOut.Covered.step (debt : Debt topology s) (step : Step topology s s')
    (inside : j < topology.names.length) (covered : fanout.Covered topology s j) :
    fanout.Covered topology s' j := by
  have extended := step_extends step
  rcases covered with converged | ⟨key, stood, parsed, since, born, recent⟩
  · exact Or.inl (converged.mono extended.log)
  · by_cases gone : key ∈ s'.notes fanout.src
    · exact Or.inr ⟨key, gone, parsed, since, extended.birth _ _ _ born, recent⟩
    · obtain ⟨id, sweep, task, found, source, member, rfl, settled⟩ := step_removes step stood gone
      have traced := (debt.sweeps id sweep found).tasks task member
      have marker := Option.some.inj (traced.parsed.symm.trans parsed)
      have named : task.dest = some j := by
        rw [traced.dest, marker]
        exact destIndexForTag_bucketTag topology inside
      obtain ⟨listedFrom, listedBorn, listed⟩ := traced.born
      rw [source, born] at listedBorn
      cases listedBorn
      rcases settled with unnamed | signalled
      · rw [unnamed] at named
        contradiction
      · obtain ⟨dst, destined, delivered⟩ := traced.signalled signalled
        cases destined.symm.trans named
        rw [source, marker] at delivered
        exact Or.inl ((delivered.converged (recent.trans listed)).mono extended.log)

theorem FanOut.Kept.step (debt : Debt topology s) (step : Step topology s s')
    (kept : fanout.Kept topology s) : fanout.Kept topology s' where
  stamp := kept.stamp.trans (step_extends step).log.length_le
  clean := kept.clean
  covered j inside other recorded := (kept.covered j inside other recorded).step debt step inside
  acked := kept.acked

theorem Sweep.Traced.mono (extended : Extends s s') (traced : sweep.Traced topology s) :
    sweep.Traced topology s' where
  listed := traced.listed.trans extended.log.length_le
  tasks task member := (traced.tasks task member).mono extended

theorem FanOut.Kept.noted (kept : fanout.Kept topology s) (clean : '!' ∉ nonce.toList) {id : Nat}
    {after : Option FanOut} : fanout.Covered topology ((s.putNote fanout.src
      (noteKey (bucketTag (topology.names.getD j "")) fanout.pkg fanout.filename nonce)).setFanOut
        id after) j := by
  have parsed : parseReplMarker (noteKey (bucketTag (topology.names.getD j "")) fanout.pkg
      fanout.filename nonce) = _ :=
    parseReplMarker_noteKey (slash_not_mem_bucketTag _) kept.clean clean
  generalize noteKey (bucketTag (topology.names.getD j "")) fanout.pkg fanout.filename nonce = key
    at parsed ⊢
  apply Or.inr
  exact ⟨key, by simp [State.putNote, State.setFanOut], parsed, s.log.length,
    by simp [State.putNote, State.setFanOut], kept.stamp⟩

/-- How a step may leave a fan-out. -/
inductive FanOut.Stepped (topology : Topology) (s s' : State) (id : Nat) : FanOut → Prop where
  | same (fanout : FanOut) : s.fanouts id = some fanout → FanOut.Stepped topology s s' id fanout
  | begun (src : Nat) (pkg filename : String) : '/' ∉ pkg.toList → FanOut.Stepped topology s s' id
      ⟨src, pkg, filename, s.log.length, fun _ => .pending, .running⟩
  | moved (fanout : FanOut) (j : Nat) (peer : Peer) : s.fanouts id = some fanout → fanout.outcome = .running →
      (peer.recorded = true → fanout.Covered topology s' j) →
      FanOut.Stepped topology s s' id (fanout.setPeer j peer)
  | ended (fanout : FanOut) (outcome : Outcome) : s.fanouts id = some fanout →
      (outcome = .acked → ∀ j, j < topology.names.length → j ≠ fanout.src →
        (fanout.peers j).recorded = true) →
      FanOut.Stepped topology s s' id { fanout with outcome := outcome }

theorem step_fanout (debt : Debt topology s) (step : Step topology s s') {id : Nat}
    (found : s'.fanouts id = some fanout) : FanOut.Stepped topology s s' id fanout := by
  have other {target : Nat} {put : Option FanOut} {fanouts : Nat → Option FanOut}
      (distinct : id ≠ target) (found : Function.update fanouts target put id = some fanout) :
      fanouts id = some fanout := by
    simpa [distinct] using found
  have chosen {target : Nat} {put : Option FanOut} {fanouts : Nat → Option FanOut}
      (same : id = target) (found : Function.update fanouts target put id = some fanout) :
      put = some fanout := by
    simpa [same] using found
  cases step with
  | begin target src pkg filename free inside clean =>
      by_cases same : id = target
      · cases chosen same found
        exact .begun _ _ _ clean
      · exact .same _ (other same found)
  | fanConverged target j before running inside distinct pending =>
      by_cases same : id = target
      · cases chosen same found
        have kept := debt.fanouts _ _ before
        subst target
        exact .moved _ _ _ before running fun _ => Or.inl ⟨s.log.length, kept.stamp,
          List.getElem?_concat_length⟩
      · exact .same _ (other same found)
  | fanOwed target j before running pending =>
      by_cases same : id = target
      · cases chosen same found
        subst target
        exact .moved _ _ _ before running (by simp [Peer.recorded])
      · exact .same _ (other same found)
  | note target j nonce before running inside distinct settled owed clean fresh =>
      by_cases same : id = target
      · cases chosen same found
        have kept := debt.fanouts _ _ before
        subst target
        exact .moved _ _ _ before running fun _ => kept.noted clean
      · exact .same _ (other same found)
  | noteFailed target j before running owed =>
      rename_i retried
      by_cases same : id = target
      · cases chosen same found
        subst target
        exact .moved _ _ _ before running (by cases retried <;> simp [Peer.unwritten, Peer.recorded])
      · exact .same _ (other same found)
  | finish target before running settled acked =>
      by_cases same : id = target
      · cases chosen same found
        subst target
        exact .ended _ _ before acked
      · exact .same _ (other same found)
  | stopFanOut target before running =>
      by_cases same : id = target
      · cases chosen same found
      · exact .same _ (other same found)
  | _ => exact .same _ found

theorem FanOut.Stepped.kept (debt : Debt topology s) (step : Step topology s s') {id : Nat}
    (stepped : FanOut.Stepped topology s s' id fanout) : fanout.Kept topology s' := by
  have grown := (step_extends step).log.length_le
  cases stepped with
  | same _ found => exact (debt.fanouts id fanout found).step debt step
  | begun src pkg filename clean =>
      exact ⟨grown, clean, fun _ _ _ recorded => by simp [Peer.recorded] at recorded,
        fun acked => by simp at acked⟩
  | moved before j peer found running covered =>
      have kept := (debt.fanouts id before found).step debt step
      constructor
      · exact kept.stamp
      · exact kept.clean
      · intro i inside other recorded
        by_cases same : i = j
        · subst i
          exact covered (by simpa [FanOut.setPeer] using recorded)
        · exact kept.covered i inside other (by simpa [FanOut.setPeer, same] using recorded)
      · intro acked
        rw [FanOut.setPeer, running] at acked
        contradiction
  | ended before outcome found recorded =>
      have kept := (debt.fanouts id before found).step debt step
      exact ⟨kept.stamp, kept.clean, kept.covered, recorded⟩

/-- How a step may leave a sweep. -/
inductive Sweep.Stepped (topology : Topology) (s s' : State) (id : Nat) : Sweep → Prop where
  | same (sweep : Sweep) : s.sweeps id = some sweep → Sweep.Stepped topology s s' id sweep
  | begun (src : Nat) : Sweep.Stepped topology s s' id ⟨src, none, true, s.log.length, []⟩
  | listed (sweep : Sweep) : s.sweeps id = some sweep → s'.log = s.log →
      Sweep.Stepped topology s s' id (sweep.list topology (s.notes sweep.src) s.log.length)
  | moved (sweep : Sweep) (i : Nat) (task : Task) (phase : Phase) : s.sweeps id = some sweep →
      sweep.tasks[i]? = some task →
      ({ task with phase := phase } : Task).Traced topology s' sweep →
      Sweep.Stepped topology s s' id (sweep.setTask i { task with phase := phase })

theorem Task.Traced.phased (traced : task.Traced topology s sweep) (phase : Phase)
    (merged : phase = .merged → ∃ dst, task.dest = some dst ∧
      Converged s.log sweep.src dst task.marker.pkg task.marker.filename sweep.listedAt)
    (signalled : phase = .signalled → ∃ dst, task.dest = some dst ∧
      Delivered s.log sweep.src dst task.marker.pkg task.marker.filename sweep.listedAt) :
    ({ task with phase := phase } : Task).Traced topology s sweep :=
  ⟨traced.parsed, traced.dest, traced.born, merged, signalled⟩

theorem step_sweep (debt : Debt topology s) (step : Step topology s s') {id : Nat}
    (found : s'.sweeps id = some sweep) : Sweep.Stepped topology s s' id sweep := by
  have extended := step_extends step
  have other {target : Nat} {put : Option Sweep} {sweeps : Nat → Option Sweep}
      (distinct : id ≠ target) (found : Function.update sweeps target put id = some sweep) :
      sweeps id = some sweep := by
    simpa [distinct] using found
  have chosen {target : Nat} {put : Option Sweep} {sweeps : Nat → Option Sweep}
      (same : id = target) (found : Function.update sweeps target put id = some sweep) :
      put = some sweep := by
    simpa [same] using found
  cases step with
  | sweep target src free inside =>
      by_cases same : id = target
      · cases chosen same found
        exact .begun _
      · exact .same _ (other same found)
  | list target before more finished =>
      by_cases same : id = target
      · cases chosen same found
        subst target
        exact .listed _ before rfl
      · exact .same _ (other same found)
  | merge target i before indexed phase named =>
      by_cases same : id = target
      · cases chosen same found
        subst target
        have listed := (debt.sweeps _ _ before).listed
        have traced := (debt.traced before indexed).mono extended
        exact .moved _ _ _ _ before indexed (traced.phased _
          (fun _ => ⟨_, named, s.log.length, listed, List.getElem?_concat_length⟩) (by simp))
      · exact .same _ (other same found)
  | defer target i before indexed phase named =>
      by_cases same : id = target
      · cases chosen same found
        subst target
        have traced := (debt.traced before indexed).mono extended
        exact .moved _ _ _ _ before indexed (traced.phased _ (by simp) (by simp))
      · exact .same _ (other same found)
  | signal target i before indexed phase named =>
      by_cases same : id = target
      · cases chosen same found
        subst target
        have traced := debt.traced before indexed
        obtain ⟨dst, destined, n, late, converged⟩ := traced.merged phase
        cases destined.symm.trans named
        have earlier : n < s.log.length := (List.getElem?_eq_some_iff.mp converged).1
        exact .moved _ _ _ _ before indexed ((traced.mono extended).phased _ (by simp)
          fun _ => ⟨_, named, n, s.log.length, late, earlier,
            getElem?_of_prefix extended.log converged, List.getElem?_concat_length⟩)
      · exact .same _ (other same found)
  | consume target i before indexed phase | drop target i before indexed phase unnamed
  | retain target i before indexed =>
      by_cases same : id = target
      · cases chosen same found
        subst target
        have traced := (debt.traced before indexed).mono extended
        exact .moved _ _ _ _ before indexed (traced.phased _ (by simp) (by simp))
      · exact .same _ (other same found)
  | stopSweep target =>
      by_cases same : id = target
      · cases chosen same found
      · exact .same _ (other same found)
  | _ => exact .same _ found

theorem mem_listPage {keys : List String} {after : Option String} (member : key ∈ listPage keys after) :
    key ∈ keys := by
  have sorted := List.mem_of_mem_take member
  rw [List.mem_insertionSort] at sorted
  exact (List.mem_filter.mp sorted).1

theorem Sweep.Stepped.traced (debt : Debt topology s) (step : Step topology s s') {id : Nat}
    (stepped : Sweep.Stepped topology s s' id sweep) : sweep.Traced topology s' := by
  have extended := step_extends step
  have grown := extended.log.length_le
  cases stepped with
  | same _ found => exact (debt.sweeps id sweep found).mono extended
  | begun src => exact ⟨grown, fun _ member => by simp at member⟩
  | listed before found unchanged =>
      constructor
      · exact grown
      · intro task member
        obtain ⟨marker, parsedMember, rfl⟩ := List.mem_map.mp member
        obtain ⟨key, paged, parsed⟩ := List.mem_filterMap.mp parsedMember
        cases parseReplMarker_key parsed
        obtain ⟨since, born⟩ := debt.born before.src _ (mem_listPage paged)
        exact ⟨parsed, rfl, ⟨since, extended.birth _ _ _ born, debt.dated _ _ _ born⟩,
          fun phase => by simp [startTask] at phase, fun phase => by simp [startTask] at phase⟩
  | moved before i task phase found indexed traced =>
      have kept := (debt.sweeps id before found).mono extended
      have carried (other : Task) (traced : other.Traced topology s' before) :
          other.Traced topology s' (before.setTask i { task with phase := phase }) :=
        ⟨traced.parsed, traced.dest, traced.born, traced.merged, traced.signalled⟩
      constructor
      · exact kept.listed
      · intro other member
        rcases List.mem_or_eq_of_mem_set member with member | rfl
        · exact carried other (kept.tasks other member)
        · exact carried _ traced

/-- A step writes one fresh note or none. -/
theorem step_notes (step : Step topology s s') :
    (s'.birth = s.birth ∧ ∀ bucket, ∀ key ∈ s'.notes bucket, key ∈ s.notes bucket) ∨
      ∃ bucket key, s'.birth = (s.putNote bucket key).birth ∧
        s'.notes = (s.putNote bucket key).notes := by
  have deleted (other : Nat) (name : String) (bucket : Nat) (key : String)
      (member : key ∈ (s.deleteNote other name).notes bucket) : key ∈ s.notes bucket := by
    by_cases same : bucket = other
    · subst bucket
      simp only [State.deleteNote, Function.update_self] at member
      exact (List.mem_filter.mp member).1
    · simpa [State.deleteNote, same] using member
  cases step with
  | note => exact Or.inr ⟨_, _, rfl, rfl⟩
  | extraNote => exact Or.inr ⟨_, _, rfl, rfl⟩
  | consume => exact Or.inl ⟨rfl, deleted _ _⟩
  | drop => exact Or.inl ⟨rfl, deleted _ _⟩
  | _ => exact Or.inl ⟨rfl, fun _ _ member => member⟩

theorem Debt.step (debt : Debt topology s) (step : Step topology s s') : Debt topology s' where
  dated other name since born := by
    have grown := (step_extends step).log.length_le
    rcases step_notes step with ⟨same, -⟩ | ⟨bucket, key, written, -⟩
    · rw [same] at born
      exact (debt.dated other name since born).trans grown
    · rw [written] at born
      by_cases fresh : other = bucket ∧ name = key
      · obtain ⟨rfl, rfl⟩ := fresh
        simp only [State.putNote, Function.update_self, Option.some.injEq] at born
        omega
      · have old : s.birth other name = some since := by
          by_cases same : other = bucket
          · subst other
            have distinct : name ≠ key := fun same => fresh ⟨rfl, same⟩
            simpa [State.putNote, distinct] using born
          · simpa [State.putNote, same] using born
        exact (debt.dated other name since old).trans grown
  born other name member := by
    have extended := step_extends step
    have kept (old : name ∈ s.notes other) : ∃ since, s'.birth other name = some since := by
      obtain ⟨since, born⟩ := debt.born other name old
      exact ⟨since, extended.birth other name since born⟩
    rcases step_notes step with ⟨-, shrunk⟩ | ⟨bucket, key, written, notes⟩
    · exact kept (shrunk other name member)
    · by_cases same : other = bucket
      · subst other
        rw [notes] at member
        simp only [State.putNote, Function.update_self, List.mem_append, List.mem_singleton]
          at member
        rcases member with old | rfl
        · exact kept old
        · exact ⟨s.log.length, by rw [written]; simp [State.putNote]⟩
      · exact kept (by simpa [notes, State.putNote, same] using member)
  fanouts id fanout found := (step_fanout debt step found).kept debt step
  sweeps id sweep found := (step_sweep debt step found).traced debt step

theorem Initial.debt (initial : Initial s) : Debt topology s where
  dated := initial.dated
  born := initial.born
  fanouts id fanout found := by simp [initial.noFanOuts id] at found
  sweeps id sweep found := by simp [initial.noSweeps id] at found

theorem reaches_debt {s₀ : State} (initial : Initial s₀) (run : Reaches topology s₀ s) :
    Debt topology s := by
  induction run with
  | refl => exact initial.debt
  | tail _ step ih => exact ih.step step

/-- In every reachable state an acknowledged fan-out has reached each other
configured bucket since it began, or a note naming that bucket, package and file
stands on the source. A sweep removes a note only if it listed it, and then
either no configured bucket has the note's tag, or the note's record converged
into its bucket and that bucket was marked dirty, both after the listing. -/
theorem note_debt {s₀ : State} (initial : Initial s₀) (run : Reaches topology s₀ s) :
    (∀ id fanout, s.fanouts id = some fanout → fanout.outcome = .acked →
      ∀ j, j < topology.names.length → j ≠ fanout.src →
        Converged s.log fanout.src j fanout.pkg fanout.filename fanout.stamp ∨
        ∃ key ∈ s.notes fanout.src, parseReplMarker key =
          some ⟨bucketTag (topology.names.getD j ""), fanout.pkg, fanout.filename, key⟩) ∧
    ∀ s' bucket key, Step topology s s' → key ∈ s.notes bucket → key ∉ s'.notes bucket →
      ∃ id sweep task, s.sweeps id = some sweep ∧ sweep.src = bucket ∧ task ∈ sweep.tasks ∧
        parseReplMarker key = some task.marker ∧
        (∃ since, s.birth bucket key = some since ∧ since ≤ sweep.listedAt) ∧
        match destIndexForTag topology.names task.marker.destTag with
        | none => True
        | some dst => Delivered s.log bucket dst task.marker.pkg task.marker.filename
            sweep.listedAt := by
  have debt := reaches_debt initial run
  constructor
  · intro id fanout found acked j inside other
    have kept := debt.fanouts id fanout found
    rcases kept.covered j inside other (kept.acked acked j inside other) with
      converged | ⟨key, stood, parsed, -⟩
    · exact Or.inl converged
    · exact Or.inr ⟨key, stood, parsed⟩
  · intro s' bucket key step stood gone
    obtain ⟨id, sweep, task, found, rfl, member, rfl, settled⟩ := step_removes step stood gone
    have traced := (debt.sweeps id sweep found).tasks task member
    refine ⟨id, sweep, task, found, rfl, member, traced.parsed, traced.born, ?_⟩
    rw [← traced.dest]
    rcases settled with unnamed | signalled
    · rw [unnamed]
      trivial
    · obtain ⟨dst, destined, delivered⟩ := traced.signalled signalled
      rw [destined]
      exact delivered

def twoBuckets : Topology := ⟨["a", "b"], by decide⟩

def emptyState : State := ⟨fun _ => [], fun _ _ => none, [], fun _ => none, fun _ => none⟩

def uploadKey : String := noteKey "b" "pkg" "pkg-1.whl" "n"

def uploadMarker : ReplMarker := ⟨"b", "pkg", "pkg-1.whl", uploadKey⟩

def uploadFanOut : FanOut := ⟨0, "pkg", "pkg-1.whl", 0, fun _ => .pending, .running⟩

def owedFanOut : FanOut := uploadFanOut.setPeer 1 (.owed false)

def notedFanOut : FanOut := owedFanOut.setPeer 1 (.noted uploadKey)

def notedUpload : State :=
  (((emptyState.setFanOut 0 (some uploadFanOut)).setFanOut 0 (some owedFanOut)).putNote 0
    uploadKey).setFanOut 0 (some notedFanOut)

/-- An upload acknowledged with its peer out of reach. -/
def ackedUpload : State := notedUpload.setFanOut 0 (some { notedFanOut with outcome := .acked })

def startedSweep : Sweep := ⟨0, none, true, 0, []⟩

def drainSweep (phase : Phase) : Sweep :=
  ⟨0, some uploadKey, false, 0, [⟨uploadMarker, some 1, phase⟩]⟩

def listedUpload : State :=
  (ackedUpload.setSweep 0 (some startedSweep)).setSweep 0 (some (drainSweep .listed))

/-- The sweep that listed the upload's note, with the merge and the signal behind it. -/
def signalledUpload : State :=
  (((listedUpload.record (.converged 0 1 "pkg" "pkg-1.whl")).setSweep 0
    (some (drainSweep .merged))).record (.dirtied 1 "pkg")).setSweep 0
      (some (drainSweep .signalled))

def drainedUpload : State :=
  (signalledUpload.deleteNote 0 uploadKey).setSweep 0 (some (drainSweep .finished))

theorem reaches_ackedUpload : Reaches twoBuckets emptyState ackedUpload := by
  have begun : Step twoBuckets emptyState (emptyState.setFanOut 0 (some uploadFanOut)) :=
    .begin 0 0 "pkg" "pkg-1.whl" rfl (by decide) (by decide)
  have owed : Step twoBuckets (emptyState.setFanOut 0 (some uploadFanOut))
      ((emptyState.setFanOut 0 (some uploadFanOut)).setFanOut 0 (some owedFanOut)) :=
    .fanOwed 0 1 rfl rfl rfl
  have noted : Step twoBuckets
      ((emptyState.setFanOut 0 (some uploadFanOut)).setFanOut 0 (some owedFanOut)) notedUpload := by
    have found : ((emptyState.setFanOut 0 (some uploadFanOut)).setFanOut 0
      (some owedFanOut)).fanouts 0 = some owedFanOut := rfl
    have reached : (1 : Nat) < twoBuckets.names.length := by decide
    have step := Step.note 0 1 "n" found rfl reached (by decide) (by decide) rfl (by decide) rfl
    exact step
  have acked : Step twoBuckets notedUpload ackedUpload :=
    .finish 0 rfl rfl (by decide) (fun _ => by decide)
  exact (((Relation.ReflTransGen.single begun).tail owed).tail noted).tail acked

theorem reaches_signalledUpload : Reaches twoBuckets emptyState signalledUpload := by
  have started : Step twoBuckets ackedUpload (ackedUpload.setSweep 0 (some startedSweep)) :=
    .sweep 0 0 rfl (by decide)
  have page : startedSweep.list twoBuckets [uploadKey] 0 = drainSweep .listed := by decide +kernel
  have listed : Step twoBuckets (ackedUpload.setSweep 0 (some startedSweep)) listedUpload := by
    have found : (ackedUpload.setSweep 0 (some startedSweep)).sweeps 0 = some startedSweep := rfl
    have step : Step twoBuckets (ackedUpload.setSweep 0 (some startedSweep))
        ((ackedUpload.setSweep 0 (some startedSweep)).setSweep 0
          (some (startedSweep.list twoBuckets [uploadKey] 0))) := .list 0 found rfl (by decide)
    rwa [page] at step
  have merged : Step twoBuckets listedUpload
      ((listedUpload.record (.converged 0 1 "pkg" "pkg-1.whl")).setSweep 0
        (some (drainSweep .merged))) := by
    have found : listedUpload.sweeps 0 = some (drainSweep .listed) := rfl
    have indexed : (drainSweep .listed).tasks[0]? = some ⟨uploadMarker, some 1, .listed⟩ := rfl
    have step : Step twoBuckets listedUpload _ := Step.merge 0 0 found indexed rfl rfl
    exact step
  have signalled : Step twoBuckets ((listedUpload.record (.converged 0 1 "pkg" "pkg-1.whl")).setSweep
      0 (some (drainSweep .merged))) signalledUpload := by
    have found : ((listedUpload.record (.converged 0 1 "pkg" "pkg-1.whl")).setSweep 0
      (some (drainSweep .merged))).sweeps 0 = some (drainSweep .merged) := rfl
    have indexed : (drainSweep .merged).tasks[0]? = some ⟨uploadMarker, some 1, .merged⟩ := rfl
    have step : Step twoBuckets ((listedUpload.record (.converged 0 1 "pkg" "pkg-1.whl")).setSweep
      0 (some (drainSweep .merged))) _ := Step.signal 0 0 found indexed rfl rfl
    exact step
  exact (((reaches_ackedUpload.tail started).tail listed).tail merged).tail signalled

theorem initial_emptyState : Initial emptyState where
  noFanOuts _ := rfl
  noSweeps _ := rfl
  born _ _ member := by simp [emptyState] at member
  dated _ _ _ born := by simp [emptyState] at born

theorem drainedUpload_step : Step twoBuckets signalledUpload drainedUpload := by
  have found : signalledUpload.sweeps 0 = some (drainSweep .signalled) := rfl
  have indexed : (drainSweep .signalled).tasks[0]? = some ⟨uploadMarker, some 1, .signalled⟩ := rfl
  have step : Step twoBuckets signalledUpload _ := Step.consume 0 0 found indexed rfl
  exact step

/-- The acknowledged upload stays covered when its note is drained, and its note
goes only with a merge and a signal behind it. -/
theorem drained_upload_debt :
    Converged drainedUpload.log 0 1 "pkg" "pkg-1.whl" 0 ∧
    ∃ id sweep task, signalledUpload.sweeps id = some sweep ∧ task ∈ sweep.tasks ∧
      parseReplMarker uploadKey = some task.marker := by
  have drained := reaches_signalledUpload.tail drainedUpload_step
  have covered := (note_debt initial_emptyState drained).1 0
    { notedFanOut with outcome := .acked } rfl rfl 1 (by decide) (by decide)
  obtain ⟨id, sweep, task, found, -, member, parsed, -⟩ :=
    (note_debt initial_emptyState reaches_signalledUpload).2 drainedUpload 0 uploadKey
      drainedUpload_step (by decide) (by decide)
  constructor
  · rcases covered with converged | ⟨key, stood, -⟩
    · exact converged
    · have drained : drainedUpload.notes 0 = [] := by decide
      exact absurd (drained ▸ stood) List.not_mem_nil
  · exact ⟨id, sweep, task, found, member, parsed⟩

def strayKey : String := noteKey "gone" "pkg" "pkg-1.whl" "n"

def strayNote : State :=
  { emptyState with
    notes := Function.update (fun _ => []) 0 [strayKey]
    birth := Function.update (fun _ _ => none) 0 (Function.update (fun _ => none) strayKey (some 0)) }

def straySweep (phase : Phase) : Sweep :=
  ⟨0, some strayKey, false, 0, [⟨⟨"gone", "pkg", "pkg-1.whl", strayKey⟩, none, phase⟩]⟩

def listedStray : State :=
  (strayNote.setSweep 0 (some startedSweep)).setSweep 0 (some (straySweep .listed))

def droppedStray : State :=
  (listedStray.deleteNote 0 strayKey).setSweep 0 (some (straySweep .finished))

theorem initial_strayNote : Initial strayNote where
  noFanOuts _ := rfl
  noSweeps _ := rfl
  born bucket key member := by
    by_cases first : bucket = 0
    · subst first
      simp only [strayNote, Function.update_self, List.mem_singleton] at member
      subst member
      exact ⟨0, by simp [strayNote]⟩
    · simp [strayNote, first] at member
  dated bucket key since born := by
    by_cases first : bucket = 0
    · subst first
      by_cases same : key = strayKey
      · simp [strayNote, same] at born
        omega
      · simp [strayNote, same] at born
    · simp [strayNote, first] at born

theorem reaches_listedStray : Reaches twoBuckets strayNote listedStray := by
  have started : Step twoBuckets strayNote (strayNote.setSweep 0 (some startedSweep)) :=
    .sweep 0 0 rfl (by decide)
  have page : startedSweep.list twoBuckets [strayKey] 0 = straySweep .listed := by decide +kernel
  have listed : Step twoBuckets (strayNote.setSweep 0 (some startedSweep)) listedStray := by
    have found : (strayNote.setSweep 0 (some startedSweep)).sweeps 0 = some startedSweep := rfl
    have step : Step twoBuckets (strayNote.setSweep 0 (some startedSweep))
        ((strayNote.setSweep 0 (some startedSweep)).setSweep 0
          (some (startedSweep.list twoBuckets [strayKey] 0))) := .list 0 found rfl (by decide)
    rwa [page] at step
  exact (Relation.ReflTransGen.single started).tail listed

theorem droppedStray_step : Step twoBuckets listedStray droppedStray := by
  have found : listedStray.sweeps 0 = some (straySweep .listed) := rfl
  have indexed : (straySweep .listed).tasks[0]? =
    some ⟨⟨"gone", "pkg", "pkg-1.whl", strayKey⟩, none, .listed⟩ := rfl
  have step : Step twoBuckets listedStray _ := Step.drop 0 0 found indexed rfl rfl
  exact step

/-- A note whose tag names no configured bucket is deleted undelivered. -/
theorem stray_note_dropped : ¬ ∀ (topology : Topology) (s₀ s s' : State) (bucket : Nat)
    (key : String), Initial s₀ → Reaches topology s₀ s → Step topology s s' →
      key ∈ s.notes bucket → key ∉ s'.notes bucket →
      ∃ dst marker since, parseReplMarker key = some marker ∧
        Delivered s.log bucket dst marker.pkg marker.filename since := by
  intro delivered
  obtain ⟨dst, marker, since, -, m, n, -, -, converged, -⟩ :=
    delivered twoBuckets strayNote listedStray droppedStray 0 strayKey initial_strayNote
      reaches_listedStray droppedStray_step (by decide) (by decide)
  simp [listedStray, strayNote, emptyState, State.setSweep] at converged

end Pypiron.Notes
