import OxideSwarm.Lib.Selection
import OxideSwarm.Queue.Sequence

/-!
# The newest tasks (`master/src/queue.rs:2206-2230`)

`recent_tasks` pages through the tasks a filter accepts, newest submission first.  It walks a hash map,
selects the part it needs with an unstable selection and sorts only that part.  Since no two entries share
a sequence number, none of the three orders it leaves open can be seen in its result
(`recentTasks_eq`).
-/

namespace OxideSwarm

open TaskQueueInner

/-- The largest `usize`. -/
def usizeMax : Nat := 2 ^ 64 - 1

structure TaskInfo where
  taskId : TaskId
  state : TaskState
  priority : Nat
  gpuRequired : Bool
  assignedWorkerId : Option Uuid
  retryCount : Nat
  submittedAtUtc : Nat
  executionTimeMs : Option Nat
  exitCode : Option Int
  errorMessage : Option String
deriving DecidableEq, Repr

def TaskEntry.toInfo (e : TaskEntry) : TaskInfo where
  taskId := e.task.id
  state := e.state
  priority := e.priority
  gpuRequired := e.task.requirements.gpuRequired || e.task.spec.requiresGpu
  assignedWorkerId := e.assignedWorkerId
  retryCount := e.retryCount
  submittedAtUtc := e.submittedAtUtc
  executionTimeMs := e.result.map fun r => r.executionTimeMs
  exitCode := e.result.map fun r => r.exitCode
  errorMessage := e.errorMessage

/-- `Reverse(e.sequence)`. -/
def TaskEntry.newness (e : TaskEntry) : ℕᵒᵈ := OrderDual.toDual e.sequence

namespace TaskQueueInner

/-- The entries `filter` accepts, in the order in which the map is walked. -/
def matching (q : TaskQueueInner) (order : SetOrder TaskId) (filter : TaskEntry → Bool) : List TaskEntry :=
  ((order.list q.tasks.keys).filterMap q.tasks.get).filter filter

def recentTasks (q : TaskQueueInner) (order : SetOrder TaskId) (selection : NthSelection TaskEntry.newness)
    (sorting : UnstableSort TaskEntry.newness) (filter : TaskEntry → Bool) (offset limit : Nat) :
    List TaskInfo :=
  let matching := q.matching order filter
  let wanted := min (offset + limit) usizeMax
  let matching :=
    if wanted < matching.length ∧ 0 < wanted then (selection.select matching (wanted - 1)).take wanted
    else matching
  (((sorting.sort matching).drop offset).take limit).map TaskEntry.toInfo

/-- What `recent_tasks` is for: the entries `filter` accepts, newest first. -/
def NewestFirst (q : TaskQueueInner) (filter : TaskEntry → Bool) (all : List TaskEntry) : Prop :=
  all.Pairwise (fun a b => b.sequence < a.sequence) ∧
    ∀ e, e ∈ all ↔ ∃ t, q.tasks.get t = some e ∧ filter e = true

end TaskQueueInner

variable {q : TaskQueueInner} {filter : TaskEntry → Bool}

theorem mem_matching {order : SetOrder TaskId} {e : TaskEntry} :
    e ∈ q.matching order filter ↔ ∃ t, q.tasks.get t = some e ∧ filter e = true := by
  unfold matching
  rw [List.mem_filter, List.mem_filterMap]
  constructor
  · rintro ⟨⟨t, -, hget⟩, hfilter⟩
    exact ⟨t, hget, hfilter⟩
  rintro ⟨t, hget, hfilter⟩
  refine ⟨⟨t, ?_, hget⟩, hfilter⟩
  rw [SetOrder.mem_list]
  exact FMap.mem_keys_of_get hget

theorem Sequenced.entry_unique (hs : Sequenced q) {t t' : TaskId} {e e' : TaskEntry}
    (h : q.tasks.get t = some e) (h' : q.tasks.get t' = some e') (hseq : e.sequence = e'.sequence) : e = e' := by
  cases hs.unique t t' e e' h h' hseq
  exact Option.some.inj (h.symm.trans h')

theorem Sequenced.matching_inj (hs : Sequenced q) (order : SetOrder TaskId) :
    ∀ a ∈ q.matching order filter, ∀ b ∈ q.matching order filter,
      TaskEntry.newness a = TaskEntry.newness b → a = b := by
  intro a ha b hb hab
  obtain ⟨t, hget, -⟩ := mem_matching.1 ha
  obtain ⟨t', hget', -⟩ := mem_matching.1 hb
  exact hs.entry_unique hget hget' (OrderDual.toDual_inj.1 hab)

theorem Sequenced.matching_nodup (hs : Sequenced q) (order : SetOrder TaskId) : (q.matching order filter).Nodup := by
  refine List.Nodup.filter _ (List.Nodup.filterMap ?_ (order.nodup _))
  intro t t' e h h'
  exact hs.unique t t' e e h h' rfl

/-- A queue holds fewer entries than it has given numbers. -/
theorem Sequenced.length_matching_le (hs : Sequenced q) (order : SetOrder TaskId) :
    (q.matching order filter).length ≤ q.nextSequence := by
  have hnodup : ((q.matching order filter).map TaskEntry.sequence).Nodup := by
    refine List.Nodup.map_on (fun a ha b hb hab => ?_) (hs.matching_nodup order)
    exact hs.matching_inj order a ha b hb (OrderDual.toDual_inj.2 hab)
  have hsubset : (q.matching order filter).map TaskEntry.sequence ⊆ List.range q.nextSequence := by
    intro n hn
    obtain ⟨e, he, rfl⟩ := List.mem_map.1 hn
    obtain ⟨t, hget, -⟩ := mem_matching.1 he
    exact List.mem_range.2 (hs.below t e hget)
  have hle := (hnodup.subperm hsubset).length_le
  rwa [List.length_map, List.length_range] at hle

/-- Sorting the accepted entries puts them newest first. -/
theorem Sequenced.newestFirst (hs : Sequenced q) (order : SetOrder TaskId)
    (sorting : UnstableSort TaskEntry.newness) : q.NewestFirst filter (sorting.sort (q.matching order filter)) := by
  have hperm := sorting.perm (q.matching order filter)
  refine ⟨?_, fun e => by rw [hperm.mem_iff, mem_matching]⟩
  have hnodup := hperm.nodup_iff.2 (hs.matching_nodup order)
  refine (List.Pairwise.and (sorting.sorted _) hnodup).imp_of_mem fun ha hb hab => ?_
  rename_i a b
  refine lt_of_le_of_ne (OrderDual.toDual_le_toDual.1 hab.1) fun hseq => hab.2 ?_
  exact hs.matching_inj order a (hperm.mem_iff.1 ha) b (hperm.mem_iff.1 hb) (OrderDual.toDual_inj.2 hseq.symm)

theorem NewestFirst.unique {all all' : List TaskEntry} (h : q.NewestFirst filter all)
    (h' : q.NewestFirst filter all') : all = all' := by
  have hnodup : ∀ {l : List TaskEntry}, l.Pairwise (fun a b => b.sequence < a.sequence) → l.Nodup := by
    intro l hl
    refine hl.imp fun hab heq => ?_
    rw [heq] at hab
    exact absurd hab (Nat.lt_irrefl _)
  have hperm : all.Perm all' := by
    rw [List.perm_ext_iff_of_nodup (hnodup h.1) (hnodup h'.1)]
    exact fun e => (h.2 e).trans (h'.2 e).symm
  exact hperm.eq_of_pairwise (fun a b _ _ hab hba => absurd hab (Nat.lt_asymm hba)) h.1 h'.1

/-- `recent_tasks` returns its page of the list sorted as a whole. -/
theorem recentTasks_eq (hs : Sequenced q) (hcounter : q.nextSequence < 2 ^ 64) {all : List TaskEntry}
    (hall : q.NewestFirst filter all) (order : SetOrder TaskId) (selection : NthSelection TaskEntry.newness)
    (sorting : UnstableSort TaskEntry.newness) (offset limit : Nat) :
    q.recentTasks order selection sorting filter offset limit =
      ((all.drop offset).take limit).map TaskEntry.toInfo := by
  rw [NewestFirst.unique hall (hs.newestFirst order sorting)]
  unfold recentTasks
  dsimp only
  split
  · next hcut =>
    have hlength : (q.matching order filter).length ≤ q.nextSequence := hs.length_matching_le order
    have hwanted : min (offset + limit) usizeMax = offset + limit := by
      unfold usizeMax at hcut ⊢
      omega
    rw [hwanted] at hcut ⊢
    obtain ⟨n, hn⟩ : ∃ n, offset + limit = n + 1 := ⟨offset + limit - 1, by omega⟩
    have hless : n < (q.matching order filter).length := by omega
    have hfront := sort_take_select sorting selection (hs.matching_inj order) hless
    rw [hn, Nat.add_sub_cancel, hfront, ← hn, List.drop_take, List.take_take]
    congr 2
    omega
  · rfl

theorem recentTasks_pages (hs : Sequenced q) (hcounter : q.nextSequence < 2 ^ 64) {all : List TaskEntry}
    (hall : q.NewestFirst filter all) (order : SetOrder TaskId) (selection : NthSelection TaskEntry.newness)
    (sorting : UnstableSort TaskEntry.newness) (offset limit n : Nat) :
    (List.range n).flatMap (fun i => q.recentTasks order selection sorting filter (offset + i * limit) limit) =
      ((all.drop offset).take (n * limit)).map TaskEntry.toInfo := by
  induction n with
  | zero =>
    rw [Nat.zero_mul, List.take_zero]
    rfl
  | succ n ih =>
    rw [List.range_succ, List.flatMap_append, ih, List.flatMap_singleton,
      recentTasks_eq hs hcounter hall order selection sorting, Nat.succ_mul, List.take_add, List.map_append,
      List.drop_drop]

section

variable [Host]

/-- **Paging through the newest tasks.**  In every reachable queue there is one list of the entries a filter
accepts, newest first, and whatever order the hash map is walked in and the selection and the sort leave,
`recent_tasks` returns the entries `offset` to `offset + limit` of it; consecutive pages put together are
one longer page, and no task is on it twice.  `next_sequence` is a `u64`. -/
theorem recent_tasks_refine (c : QueueConfig) (ops : List Op)
    (hcounter : (c.start.run ops).nextSequence < 2 ^ 64) (filter : TaskEntry → Bool) :
    ∃ all : List TaskEntry, (c.start.run ops).NewestFirst filter all ∧ (all.map fun e => e.toInfo.taskId).Nodup ∧
      ∀ (order : SetOrder TaskId) (selection : NthSelection TaskEntry.newness)
        (sorting : UnstableSort TaskEntry.newness) (offset limit : Nat),
        (c.start.run ops).recentTasks order selection sorting filter offset limit =
          ((all.drop offset).take limit).map TaskEntry.toInfo ∧ ∀ n, (List.range n).flatMap (fun i =>
            (c.start.run ops).recentTasks order selection sorting filter (offset + i * limit) limit) =
          ((all.drop offset).take (n * limit)).map TaskEntry.toInfo := by
  have hq := run_coherent ops _ (start_coherent c)
  have hs := run_sequenced ops _ (start_coherent c) (start_sequenced c)
  let order : SetOrder TaskId :=
    .byKey (fun t => t.uuid.toNat) fun _ _ h => TaskId.ext_uuid (BitVec.eq_of_toNat_eq h)
  have hall : (c.start.run ops).NewestFirst filter _ := hs.newestFirst order (.merge TaskEntry.newness)
  refine ⟨_, hall, ?_, fun order selection sorting offset limit => ⟨?_, fun n => ?_⟩⟩
  · refine List.Nodup.map_on (fun a ha b hb hab => ?_) ?_
    · obtain ⟨t, hget, -⟩ := (hall.2 a).1 ha
      obtain ⟨t', hget', -⟩ := (hall.2 b).1 hb
      have hid : t = t' := by
        rw [← (hq.entries t a hget).id, ← (hq.entries t' b hget').id]
        exact hab
      rw [hid] at hget
      exact Option.some.inj (hget.symm.trans hget')
    · exact (UnstableSort.perm _ _).nodup_iff.2 (hs.matching_nodup order)
  · exact recentTasks_eq hs hcounter hall order selection sorting offset limit
  · exact recentTasks_pages hs hcounter hall order selection sorting offset limit n

end

section Concrete

attribute [local instance] Host.blank

def threeSubmissions : List Op :=
  [.submitWithPriority (Task.echo 0) 1 ⟨0, 0⟩, .submitWithPriority (Task.echo 1) 2 ⟨0, 0⟩,
    .submitWithPriority (Task.echo 2) 1 ⟨0, 0⟩]

theorem recent_tasks_refine_three :
    let q := (QueueConfig.small 10).start.run threeSubmissions
    q.nextSequence < 2 ^ 64 ∧ ∃ all, q.NewestFirst (fun e => e.priority = 1) all ∧
      ∀ order selection sorting, q.recentTasks order selection sorting (fun e => e.priority = 1) 1 1 =
        ((all.drop 1).take 1).map TaskEntry.toInfo := by
  have hcounter : ((QueueConfig.small 10).start.run threeSubmissions).nextSequence < 2 ^ 64 := by decide +kernel
  obtain ⟨all, hall, -, hpages⟩ :=
    recent_tasks_refine (QueueConfig.small 10) threeSubmissions hcounter fun e => e.priority = 1
  exact ⟨hcounter, all, hall, fun order selection sorting => (hpages order selection sorting 1 1).1⟩

end Concrete

end OxideSwarm
