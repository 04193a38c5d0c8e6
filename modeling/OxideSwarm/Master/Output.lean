import OxideSwarm.Master.Jobs

/-!
# The output of a MapReduce job

The map tasks of a job finish in any order, and so do its reduce tasks.  What a partition printed is kept in the
partition's own place until all are there, so the output is a function of the tasks' results (`jobOutput`): neither the
order, nor the parallelism, nor the order of a hash map is seen in it.
-/

namespace OxideSwarm

section

variable [Host] [SerdeJson]

abbrev Pairs := List (String × SerdeJson.Value)

abbrev Groups := List (String × List SerdeJson.Value)

/-- The values of `key`, in order. -/
def valuesOf (pairs : Pairs) (key : String) : List SerdeJson.Value := (pairs.filter fun p => p.1 = key).map Prod.snd

omit [Host] in
theorem groupByKey_get (pairs : Pairs) (key : String) :
    (groupByKey pairs).get key = if valuesOf pairs key = [] then none else some (valuesOf pairs key) := by
  have hfrom : ∀ (pairs : Pairs) (grouped : FMap String (List SerdeJson.Value)),
      (pairs.foldl (fun grouped p => grouped.set p.1 ((grouped.get p.1).getD [] ++ [p.2])) grouped).get key =
        if valuesOf pairs key = [] then grouped.get key else some ((grouped.get key).getD [] ++ valuesOf pairs key) := by
    intro pairs
    induction pairs with
    | nil => simp [valuesOf]
    | cons p pairs ih =>
      intro grouped
      rw [List.foldl_cons, ih]
      by_cases hp : p.1 = key
      · have hcons : valuesOf (p :: pairs) key = p.2 :: valuesOf pairs key := by simp [valuesOf, hp]
        by_cases hrest : valuesOf pairs key = [] <;> simp [hcons, hp, hrest]
      · have hcons : valuesOf (p :: pairs) key = valuesOf pairs key := by simp [valuesOf, hp]
        simp [hcons, Ne.symm hp]
  simpa [groupByKey] using hfrom pairs ∅

section

variable (spec : MapReduceJobSpec) (F : TaskSpec → TaskResult)

/-- What the map tasks print, in the order of the partitions, if `F` says what each task comes to. -/
def mappedPairs : Pairs := spec.chunks.flatMap fun chunk => parseMapOutput (F (mapTaskSpec spec.mapper chunk))

/-- A key whose values a built-in reducer cannot reduce fails the whole job. -/
def reduceFails (operator : String) (pairs : Pairs) : Bool :=
  pairs.any fun p => (SerdeJson.reduceBuiltin operator (valuesOf pairs p.1)).toOption.isNone

/-- What the reducer makes of the values of `key`. -/
def reducedOf (key : String) (values : List SerdeJson.Value) : Option SerdeJson.Value :=
  match spec.reducer with
  | .builtin operator =>
    if reduceFails operator (mappedPairs spec F) then none else (SerdeJson.reduceBuiltin operator values).toOption.join
  | _ => (reduceTaskSpec spec.reducer key values).toOption.map fun task => reducedValue (F task)

/-- The value of `key` in the output of a job. -/
def jobOutput (key : String) : Option SerdeJson.Value :=
  let values := valuesOf (mappedPairs spec F) key
  if values = [] then none else reducedOf spec F key values

/-- `groups` are the keys with their values, in some order. -/
def IsGroups (groups : Groups) : Prop :=
  ∀ key values, (key, values) ∈ groups ↔ values = valuesOf (mappedPairs spec F) key ∧ values ≠ []

/-- The stage of a job of which the outcomes of the slots with `taken` were taken. -/
def Stage.Timeless (taken : Nat → Bool) : Stage → Prop
  | .mapping chunks perPartition _ => chunks = spec.chunks ∧
      perPartition = chunks.mapIdx fun i chunk => if taken i then parseMapOutput (F (mapTaskSpec spec.mapper chunk)) else []
  | .reducing _ groups output _ => IsGroups spec F groups ∧ ∀ key v, output.get key = some v ↔
      ∃ i values, taken i ∧ groups[i]? = some (key, values) ∧ reducedOf spec F key values = some v
  | .returned outcome => ∀ result, outcome = .ok result → ∀ key, result.output.get key = jobOutput spec F key
  | .dropped => True

/-- The item of slot `i` was handed out and is in flight no more. -/
def takenOf (next : Nat) (slots : List Nat) (i : Nat) : Bool := i < next ∧ i ∉ slots

structure Job.Timeless (job : Job) : Prop where
  spec_eq : job.spec = spec
  nodup : (job.flights.map Flight.slot).Nodup
  handed : ∀ f ∈ job.flights, f.slot < job.next
  stage : job.stage.Timeless spec F (takenOf job.next (job.flights.map Flight.slot))

def Phase.result? : Phase → Option TaskResult
  | .done outcome => outcome.toOption
  | _ => none

/-- A result that is taken is the one that `F` names for the task of its slot. -/
def Grid.Answers (g : Grid) : Grid.Act → Prop
  | .take i => ∀ f ∈ g.job.flights[i]?, ∀ r ∈ f.phase.result?,
      ((g.job.stage.item? g.job.spec f.slot).bind Except.toOption).map F = some r
  | _ => True

variable {spec F}

theorem isGroups_of_order (order : SetOrder String) :
    IsGroups spec F ((order.list (groupByKey (mappedPairs spec F)).keys).map fun key =>
      (key, ((groupByKey (mappedPairs spec F)).get key).getD [])) := by
  intro key values
  simp only [List.mem_map, SetOrder.mem_list, FMap.mem_keys, Prod.mk.injEq, groupByKey_get]
  constructor
  · rintro ⟨_, hsome, rfl, rfl⟩
    split at hsome
    · cases hsome
    next hne => exact ⟨by simp [hne], by simp [hne]⟩
  · rintro ⟨rfl, hne⟩
    exact ⟨key, by simp [hne], rfl, by simp [hne]⟩

/-- An output that has what the reducer makes of each group. -/
theorem IsGroups.jobOutput {groups : Groups} (h : IsGroups spec F groups) {output : FMap String SerdeJson.Value}
    (houtput : ∀ key v, output.get key = some v ↔ ∃ values, (key, values) ∈ groups ∧ reducedOf spec F key values = some v)
    (key : String) : output.get key = OxideSwarm.jobOutput spec F key := by
  unfold OxideSwarm.jobOutput
  apply Option.ext
  intro v
  rw [houtput]
  by_cases hempty : valuesOf (mappedPairs spec F) key = []
  · simp [hempty, h key]
  · simp [hempty, h key]

/-- The reduce phase on the master. -/
theorem reduceGroups_get {operator : String} {values : String → List SerdeJson.Value} (mapTasks : Nat × Nat) (total : Nat)
    {groups : Groups} (h : ∀ g ∈ groups, g.2 = values g.1) (output : FMap String SerdeJson.Value) (completed : Nat)
    (key : String) :
    (reduceGroups spec operator mapTasks total groups output completed).output.get key =
      if (groups.any fun g => (SerdeJson.reduceBuiltin operator g.2).toOption.isNone) = true then none
      else if key ∈ groups.map Prod.fst then
        (SerdeJson.reduceBuiltin operator (values key)).toOption.join.or (output.get key)
      else output.get key := by
  induction groups generalizing output completed with
  | nil => rfl
  | cons g groups ih =>
    obtain ⟨k, vs⟩ := g
    obtain rfl : vs = values k := h _ List.mem_cons_self
    unfold reduceGroups
    rw [List.any_cons]
    cases hreduced : SerdeJson.reduceBuiltin operator (values k) with
    | error e => exact FMap.get_empty key
    | ok reduced =>
      dsimp only
      rw [ih fun g hg => h g (List.mem_cons_of_mem _ hg)]
      cases groups.any fun g => (SerdeJson.reduceBuiltin operator g.2).toOption.isNone with
      | true => rfl
      | false =>
        rw [if_neg Bool.false_ne_true]
        change _ = if false = true then _ else _
        rw [if_neg Bool.false_ne_true]
        by_cases hkey : key = k
        · subst hkey
          cases reduced <;> simp [hreduced, Except.toOption]
        · have hmem : key ∈ ((k, values k) :: groups).map Prod.fst ↔ key ∈ groups.map Prod.fst := by simp [hkey]
          rw [if_congr hmem rfl rfl]
          cases reduced <;> simp [hkey]

theorem returned_builtin {groups : Groups} (h : IsGroups spec F groups) {operator : String}
    (hreducer : spec.reducer = .builtin operator) (mapTasks : Nat × Nat) (total : Nat) (key : String) :
    (reduceGroups spec operator mapTasks total groups ∅ 0).output.get key = jobOutput spec F key := by
  have hfails : (groups.any fun g => (SerdeJson.reduceBuiltin operator g.2).toOption.isNone) =
      reduceFails operator (mappedPairs spec F) := by
    rw [Bool.eq_iff_iff, List.any_eq_true, reduceFails, List.any_eq_true]
    constructor
    · rintro ⟨⟨key, values⟩, hg, hp⟩
      obtain ⟨rfl, hne⟩ := (h key values).mp hg
      obtain ⟨v, hv⟩ := List.exists_mem_of_ne_nil _ hne
      obtain ⟨p, hmem, rfl⟩ := List.mem_map.mp hv
      rw [List.mem_filter, decide_eq_true_eq] at hmem
      exact ⟨p, hmem.1, by rw [hmem.2]; exact hp⟩
    · rintro ⟨p, hp, hnone⟩
      refine ⟨(p.1, _), (h _ _).mpr ⟨rfl, ?_⟩, hnone⟩
      exact List.ne_nil_of_mem (List.mem_map_of_mem (List.mem_filter.mpr ⟨hp, decide_eq_true rfl⟩))
  have hkeys : key ∈ groups.map Prod.fst ↔ valuesOf (mappedPairs spec F) key ≠ [] := by
    simp [h key]
  rw [reduceGroups_get mapTasks total (fun g hg => ((h g.1 g.2).mp hg).1), hfails]
  by_cases hempty : valuesOf (mappedPairs spec F) key = []
  · simp [jobOutput, hkeys, hempty]
  · simp [jobOutput, reducedOf, hreducer, hkeys, hempty]

/-! ## One step -/

/-- **One outcome.** -/
theorem Stage.Timeless.judge {stage : Stage} {taken : Nat → Bool} (h : stage.Timeless spec F taken)
    (hF : ∀ task, (F task).exitCode = 0 ∧ stdoutWasTruncated (F task) = false) {slot : Nat} (hslot : taken slot = false)
    {outcome : Except JobError TaskResult}
    (houtcome : ∀ r ∈ outcome.toOption, ((stage.item? spec slot).bind Except.toOption).map F = some r) :
    (stage.judge spec slot outcome).Timeless spec F fun i => taken i || i = slot := by
  cases outcome with
  | error e =>
    cases stage with
    | mapping | reducing => exact nofun
    | returned | dropped => exact h
  | ok r =>
    obtain ⟨task, htask, rfl⟩ := Option.map_eq_some_iff.mp (houtcome r rfl)
    obtain ⟨built, hbuilt, hok⟩ := Option.bind_eq_some_iff.mp htask
    obtain ⟨hexit, hwhole⟩ := hF task
    cases stage with
    | mapping chunks perPartition completed =>
      obtain ⟨rfl, rfl⟩ := h
      obtain ⟨chunk, hchunk, rfl⟩ := Option.map_eq_some_iff.mp hbuilt
      cases hok
      simp only [Stage.judge, judgeMap]
      rw [if_neg (not_not.mpr hexit), if_neg (by rw [hwhole]; exact Bool.false_ne_true)]
      refine ⟨rfl, List.ext_getElem? fun i => ?_⟩
      rw [List.getElem?_modify, List.getElem?_mapIdx, List.getElem?_mapIdx]
      by_cases hi : slot = i
      · subst hi
        simp [hchunk, hslot]
      · simp [hi, Ne.symm hi]
    | reducing mapTasks groups output completed =>
      obtain ⟨hgroups, houtput⟩ := h
      obtain ⟨⟨key, values⟩, hg, rfl⟩ := Option.map_eq_some_iff.mp hbuilt
      simp only [Stage.judge, hg, Option.map_some, Option.getD_some, judgeReduce]
      rw [if_neg (not_not.mpr hexit), if_neg (by rw [hwhole]; exact Bool.false_ne_true)]
      refine ⟨hgroups, fun key' v => ?_⟩
      rw [FMap.get_set]
      by_cases hkey : key' = key
      · subst hkey
        have hreduced : reducedOf spec F key' values = some (reducedValue (F task)) := by
          cases hreducer : spec.reducer with
          | builtin operator =>
            rw [hreducer] at hok
            cases hok
          | command | shellScript =>
            rw [hreducer] at hok
            simp [reducedOf, hreducer, hok]
        rw [if_pos rfl, ← hreduced]
        constructor
        · exact fun hv => ⟨slot, values, by simp, hg, hv⟩
        · rintro ⟨i, values', -, hgi, hv⟩
          have hsame := ((hgroups _ _).mp (List.mem_of_getElem? hg)).1
          rwa [hsame, ← ((hgroups _ _).mp (List.mem_of_getElem? hgi)).1]
      · rw [if_neg hkey, houtput]
        refine exists_congr fun i => exists_congr fun values' => ?_
        by_cases hi : i = slot
        · rw [hi, hg]
          simp [Ne.symm hkey]
        · simp [hi]
    | returned | dropped => cases hbuilt

/-- **What follows a loop all whose outcomes were taken.** -/
theorem Stage.Timeless.drained {stage : Stage} {next : Nat} (h : stage.Timeless spec F fun i => i < next)
    (hend : stage.item? spec next = none) (order : SetOrder String) :
    (stage.drained spec order).Timeless spec F fun _ => false := by
  cases stage with
  | mapping chunks perPartition completed =>
    obtain ⟨rfl, rfl⟩ := h
    have hlength := List.getElem?_eq_none_iff.mp (Option.map_eq_none_iff.mp hend)
    have hall : (spec.chunks.mapIdx fun i chunk =>
        if decide (i < next) then parseMapOutput (F (mapTaskSpec spec.mapper chunk)) else []).flatten =
          mappedPairs spec F := by
      unfold mappedPairs
      rw [List.flatMap_def]
      congr 1
      refine List.ext_getElem (by simp) fun i hi hi' => ?_
      have hlt : i < next := by
        rw [List.length_mapIdx] at hi
        omega
      simp [hlt]
    have hgroups : IsGroups spec F _ := isGroups_of_order order
    simp only [Stage.drained, hall]
    cases hreducer : spec.reducer with
    | builtin operator =>
      rintro _ ⟨⟩ key
      exact returned_builtin hgroups hreducer _ _ key
    | command | shellScript => exact ⟨hgroups, by simp⟩
  | reducing mapTasks groups output completed =>
    obtain ⟨hgroups, houtput⟩ := h
    have hlength := List.getElem?_eq_none_iff.mp (Option.map_eq_none_iff.mp hend)
    rintro _ ⟨⟩ key
    refine hgroups.jobOutput (fun key v => ?_) key
    refine (houtput key v).trans ⟨?_, ?_⟩
    · rintro ⟨i, values, -, hi, hv⟩
      exact ⟨values, List.mem_of_getElem? hi, hv⟩
    · rintro ⟨values, hg, hv⟩
      obtain ⟨i, hi⟩ := List.mem_iff_getElem?.mp hg
      have hlt : i < next := lt_of_lt_of_le (List.getElem?_eq_some_iff.mp hi).1 hlength
      exact ⟨i, values, decide_eq_true hlt, hi, hv⟩
  | returned outcome => exact h
  | dropped => trivial

namespace Grid

variable {g : Grid}

/-- A stage is entered with some of the futures. -/
theorem timeless_enter {stage : Stage} {flights : List Flight} (hspec : g.job.spec = spec)
    (hnodup : (flights.map Flight.slot).Nodup) (hhanded : ∀ f ∈ flights, f.slot < g.job.next)
    (hstage : stage.Timeless spec F (takenOf g.job.next (flights.map Flight.slot))) :
    (g.enter stage flights).job.Timeless spec F := by
  unfold Grid.enter
  split
  · exact ⟨hspec, hnodup, hhanded, hstage⟩
  · next hclosed =>
    refine ⟨hspec, List.nodup_nil, List.forall_mem_nil _, ?_⟩
    cases stage with
    | mapping | reducing => exact absurd rfl hclosed
    | returned | dropped => exact hstage

theorem timeless_launch (h : g.job.Timeless spec F) (id : TaskId) (createdAtUtc : Nat) :
    (g.launch id createdAtUtc).job.Timeless spec F := by
  unfold Grid.launch
  dsimp only
  split
  · cases hitem : g.job.stage.item? g.job.spec g.job.next with
    | none => exact h
    | some built =>
      have hfresh : g.job.next ∉ g.job.flights.map Flight.slot := by
        intro hmem
        obtain ⟨f, hf, heq⟩ := List.mem_map.mp hmem
        exact absurd (h.handed f hf) (by omega)
      have htaken : takenOf (g.job.next + 1) (g.job.flights.map Flight.slot ++ [g.job.next]) =
          takenOf g.job.next (g.job.flights.map Flight.slot) := by
        funext i
        simp only [takenOf, List.mem_append, List.mem_singleton, decide_eq_decide, not_or]
        constructor
        · rintro ⟨hlt, hold, hne⟩
          exact ⟨by omega, hold⟩
        · rintro ⟨hlt, hold⟩
          exact ⟨by omega, hold, by omega⟩
      refine ⟨h.spec_eq, ?_, fun f hf => ?_, ?_⟩
      · simpa [List.nodup_append, h.nodup] using hfresh
      · rcases List.mem_append.mp hf with hold | hnew
        · exact Nat.lt_succ_of_lt (h.handed f hold)
        · rw [List.mem_singleton.mp hnew]
          exact Nat.lt_succ_self _
      · simp only [List.map_append, List.map_cons, List.map_nil, htaken]
        exact h.stage
  · exact h

theorem timeless_poll (h : g.job.Timeless spec F) (i : Nat) (seen : TaskQueueInner) (clock : Clock) (late : Bool) :
    (g.poll i seen clock late).job.Timeless spec F := by
  unfold Grid.poll
  split
  · exact h
  next f hf =>
  have hslots : ∀ phase, (g.job.flights.set i { f with phase }).map Flight.slot = g.job.flights.map Flight.slot :=
    fun _ => map_set_of_getElem? hf rfl
  refine ⟨h.spec_eq, by rw [hslots]; exact h.nodup, fun f' hf' => ?_, by rw [hslots]; exact h.stage⟩
  rcases List.mem_or_eq_of_mem_set hf' with hold | rfl
  · exact h.handed f' hold
  · exact h.handed f (List.mem_of_getElem? hf)

theorem timeless_take (hF : ∀ task, (F task).exitCode = 0 ∧ stdoutWasTruncated (F task) = false)
    (h : g.job.Timeless spec F) (i : Nat) (hanswers : g.Answers F (.take i)) : (g.take i).job.Timeless spec F := by
  unfold Grid.take
  split
  · next slot id outcome hf =>
    have hslots : (g.job.flights.map Flight.slot)[i]? = some slot := by rw [List.getElem?_map, hf]; rfl
    have houtcome := hanswers _ hf
    rw [h.spec_eq] at houtcome ⊢
    refine timeless_enter h.spec_eq ?_ (fun f hf => h.handed f (List.mem_of_mem_eraseIdx hf)) ?_
    · rw [← List.eraseIdx_map]
      exact h.nodup.eraseIdx _
    · have htaken : takenOf g.job.next ((g.job.flights.map Flight.slot).eraseIdx i) =
          fun j => takenOf g.job.next (g.job.flights.map Flight.slot) j || j = slot := by
        funext j
        have hnext : slot < g.job.next := h.handed _ (List.mem_of_getElem? hf)
        have hmem : j ∈ (g.job.flights.map Flight.slot).eraseIdx i ↔ j ≠ slot ∧ j ∈ g.job.flights.map Flight.slot := by
          obtain ⟨hlt, rfl⟩ := List.getElem?_eq_some_iff.mp hslots
          rw [← h.nodup.erase_getElem i hlt, h.nodup.mem_erase_iff]
        rw [Bool.eq_iff_iff]
        simp only [takenOf, decide_eq_true_eq, Bool.or_eq_true, hmem]
        by_cases hj : j = slot
        · simp [hj, hnext]
        · simp [hj]
      rw [← List.eraseIdx_map, htaken]
      exact h.stage.judge hF (by simp [takenOf, List.mem_of_getElem? hslots]) houtcome
  · exact h

theorem timeless_drain (h : g.job.Timeless spec F) (order : SetOrder String) : (g.drain order).job.Timeless spec F := by
  unfold Grid.drain
  split
  · next hdrained =>
    refine timeless_enter h.spec_eq List.nodup_nil (List.forall_mem_nil _) ?_
    have hall : takenOf g.job.next (g.job.flights.map Flight.slot) = fun i => decide (i < g.job.next) := by
      funext i
      simp [takenOf, hdrained.1]
    have hstage := h.stage
    rw [hall] at hstage
    have hend := Option.isNone_iff_eq_none.mp hdrained.2
    rw [h.spec_eq] at hend ⊢
    exact hstage.drained hend order
  · exact h

theorem timeless_step (hF : ∀ task, (F task).exitCode = 0 ∧ stdoutWasTruncated (F task) = false)
    (h : g.job.Timeless spec F) (act : Act) (hact : g.Answers F act) : (g.step act).job.Timeless spec F := by
  cases act with
  | master l => exact h
  | launch id createdAtUtc => exact timeless_launch h id createdAtUtc
  | poll i seen clock late => exact timeless_poll h i seen clock late
  | take i => exact timeless_take hF h i hact
  | drain order => exact timeless_drain h order
  | abandon =>
    show (Grid.abandon g).job.Timeless spec F
    unfold Grid.abandon
    split
    · exact timeless_enter h.spec_eq h.nodup h.handed trivial
    · exact h

theorem timeless_start (m : Master) (spec : MapReduceJobSpec) (parallelism : Nat) (F : TaskSpec → TaskResult) :
    (Grid.start m spec parallelism).job.Timeless spec F := by
  refine ⟨rfl, List.nodup_nil, List.forall_mem_nil _, ?_⟩
  simp only [Grid.start, Job.start]
  split
  · next hempty =>
    rintro _ ⟨⟩ key
    have hpairs : mappedPairs spec F = [] := by simp [mappedPairs, MapReduceJobSpec.chunks, hempty]
    simp [jobOutput, hpairs, valuesOf, completedResult]
  · split
    · exact nofun
    · refine ⟨rfl, List.ext_getElem? fun i => ?_⟩
      rw [List.getElem?_replicate, List.getElem?_mapIdx]
      by_cases hi : i < spec.chunks.length <;> simp [hi, takenOf]

/-- **Runs.** -/
theorem timeless_run (m : Master) (parallelism : Nat)
    (hF : ∀ task, (F task).exitCode = 0 ∧ stdoutWasTruncated (F task) = false) (acts : List Act)
    (h : Within Grid.step (Answers F) (Grid.start m spec parallelism) acts) {result : MapReduceResult}
    (hreturned : ((Grid.start m spec parallelism).run acts).job.stage = .returned (.ok result)) (key : String) :
    result.output.get key = jobOutput spec F key := by
  have htimeless := @Within.invariant _ _ Grid.step (Answers F) (fun g => g.job.Timeless spec F)
    (fun _ act hg hact => timeless_step hF hg act hact) _ (timeless_start m spec parallelism F) acts h
  have hstage := htimeless.stage
  replace hreturned : (runFrom Grid.step (Grid.start m spec parallelism) acts).job.stage = .returned (.ok result) := hreturned
  rw [hreturned] at hstage
  exact hstage result rfl key

end Grid

end

end

/-! ### A run -/

section Concrete

attribute [local instance] Host.ascii SerdeJson.texts

instance (F : TaskSpec → TaskResult) (g : Grid) (act : Grid.Act) : Decidable (g.Answers F act) :=
  match act with
  | .take i => inferInstanceAs (Decidable (∀ f ∈ g.job.flights[i]?, ∀ r ∈ f.phase.result?, _))
  | .master _ | .launch .. | .poll .. | .drain _ | .abandon => inferInstanceAs (Decidable True)

/-- What the tasks of the small job come to. -/
def smallAnswers (task : TaskSpec) : TaskResult := if task = mapTaskSpec smallJob.mapper ["a"] then mapped else reduced

end Concrete

end OxideSwarm
