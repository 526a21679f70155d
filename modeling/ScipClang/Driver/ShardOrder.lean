import ScipClang.Driver.Merge
import ScipClang.ShardPaths

/-!
# The order in which shards are merged

In deterministic mode `Driver::emitScipIndex` sorts the paths of the shards before merging
them, so that the order in which the results arrived does not matter.  The name of a shard
is `job-<task>-worker-<worker>`, both in decimal and without padding, and strings are
compared by their lengths first (`cmp::compareStrings`).  The worker that happened to index
a task is therefore part of the sort key, by the number of digits of its id.

* `compareShardPaths_eq`: what decides between two shards.
* `Precedes`: when a task comes before another one whichever workers index them.
-/

namespace ScipClang

open HashTables

/-! ## Shards -/

/-- The comparison in `Driver::emitScipIndex`. -/
def compareShardPaths (paths1 paths2 : ShardPaths) : Ordering :=
  compareStrings paths1.docsAndExternals.value paths2.docsAndExternals.value

instance : Std.TransCmp compareShardPaths :=
  transCmp_comap compareStrings fun paths : ShardPaths => paths.docsAndExternals.value

/-- `Driver::emitScipIndex`: the order in which `mergeShardsAndEmit` goes through the shards. -/
def emitScipIndex (shardPaths : List ShardPaths) (deterministic : Bool) : List ShardPaths :=
  if deterministic then
    shardPaths.mergeSort fun paths1 paths2 => (compareShardPaths paths1 paths2).isLE
  else shardPaths

/-! ## What decides between two shards -/

theorem compareLex_append_left {α : Type} {cmp : α → α → Ordering} [Std.ReflCmp cmp]
    (common a b : List α) :
    List.compareLex cmp (common ++ a) (common ++ b) = List.compareLex cmp a b := by
  induction common with
  | nil => rfl
  | cons x common ih =>
      rw [List.cons_append, List.cons_append, List.compareLex_cons_cons,
        @Std.ReflCmp.compare_self _ cmp _ x, Ordering.eq_then, ih]

theorem compare_char_eq_lt {c d : Char} (h : c < d) : compare c d = .lt :=
  compareOfLessAndEq_eq_lt.mpr h

/-- Numbers that are followed by a dash compare like the numbers themselves. -/
theorem compareLex_append_dash {a b r s : Str} (ha : ∀ c ∈ a, '-' < c) (hb : ∀ c ∈ b, '-' < c)
    (hne : a ≠ b) : List.compareLex compare (a ++ '-' :: r) (b ++ '-' :: s) =
      List.compareLex compare a b := by
  induction a generalizing b with
  | nil =>
      cases b with
      | nil => exact absurd rfl hne
      | cons d b =>
          have hlt : compare '-' d = .lt := compare_char_eq_lt (hb d List.mem_cons_self)
          rw [List.nil_append, List.cons_append, List.compareLex_cons_cons, hlt,
            List.compareLex_nil_cons]
          rfl
  | cons c a ih =>
      cases b with
      | nil =>
          have hgt : compare c '-' = .gt :=
            Std.OrientedCmp.gt_iff_lt.mpr (compare_char_eq_lt (ha c List.mem_cons_self))
          rw [List.nil_append, List.cons_append, List.compareLex_cons_cons, hgt,
            List.compareLex_cons_nil]
          rfl
      | cons d b =>
          rw [List.cons_append, List.cons_append, List.compareLex_cons_cons,
            List.compareLex_cons_cons]
          by_cases hcd : c = d
          · subst hcd
            rw [ih (fun e he => ha e (List.mem_cons_of_mem _ he))
              (fun e he => hb e (List.mem_cons_of_mem _ he)) fun hab => hne (hab ▸ rfl)]
          · -- the first digits differ, so nothing behind them matters
            cases hcmp : compare c d with
            | lt => rfl
            | eq => exact absurd (Std.LawfulEqCmp.eq_of_compare hcmp) hcd
            | gt => rfl

theorem dash_lt_of_mem_decimal {n : Nat} {c : Char} (h : c ∈ decimal n) : '-' < c := by
  have hdigit : c.isDigit = true := Nat.isDigit_of_mem_toDigits (by decide) (by decide) h
  unfold Char.isDigit at hdigit
  have hzero : '0'.val ≤ c.val := by simpa using (Bool.and_eq_true_iff.mp hdigit).1
  show '-'.val < c.val
  exact UInt32.lt_of_lt_of_le (b := '0'.val) (by decide) hzero

/-- Larger numbers have at least as many digits. -/
theorem length_decimal_le {m n : Nat} (h : m ≤ n) : (decimal m).length ≤ (decimal n).length := by
  have hn : n < 10 ^ (decimal n).length :=
    (Nat.length_toDigits_le_iff (by decide) (one_le_length_decimal n)).mp le_rfl
  exact (Nat.length_toDigits_le_iff (by decide) (one_le_length_decimal n)).mpr
    (lt_of_le_of_lt h hn)

/-- How many digits the name of a shard has. -/
def Shard.numDigits (shard : Shard) : Nat :=
  (decimal shard.taskId.toNat).length + (decimal shard.workerId).length

/-- The part of a path before the number of the task. -/
def shardDir (temporaryOutputDir : Str) : Str := stdPathJoin temporaryOutputDir "job-".toList

theorem value_docsAndExternals (dir : Str) (shard : Shard) :
    (shard.paths dir).docsAndExternals.value = shardDir dir ++ (decimal shard.taskId.toNat ++
      '-' :: ("worker-".toList ++ decimal shard.workerId ++
        "-docs_and_externals.shard.scip".toList)) := by
  have hworker : "-worker-".toList = '-' :: "worker-".toList := rfl
  -- the equation of `shardPrefix` would evaluate its literals
  delta shardPrefix Shard.paths
  simp only [shardDir, stdPathJoin, hworker]
  split
  · simp only [List.append_assoc, List.cons_append]
  · simp only [List.append_assoc, List.cons_append]

/-- **What decides between the shards of two tasks**: the number of digits in their names, and
then the digits of the tasks. -/
theorem compareShardPaths_eq (dir : Str) {a b : Shard} (hne : a.taskId ≠ b.taskId) :
    compareShardPaths (a.paths dir) (b.paths dir) =
      (compare a.numDigits b.numDigits).then
        (List.compareLex compare (decimal a.taskId.toNat) (decimal b.taskId.toNat)) := by
  have hdecimal : decimal a.taskId.toNat ≠ decimal b.taskId.toNat := fun h =>
    hne (UInt32.toNat_inj.mp (decimal_injective h))
  have hlength : ∀ shard : Shard, (shard.paths dir).docsAndExternals.value.length =
      shard.numDigits + ((shardDir dir).length + 38) := by
    intro shard
    have hworker : "worker-".toList.length = 7 := rfl
    have hextension : "-docs_and_externals.shard.scip".toList.length = 30 := rfl
    rw [value_docsAndExternals]
    simp only [Shard.numDigits, List.length_append, List.length_cons, hworker, hextension]
    omega
  have hcompare : compare (a.numDigits + ((shardDir dir).length + 38))
      (b.numDigits + ((shardDir dir).length + 38)) = compare a.numDigits b.numDigits := by
    simp [Nat.compare_eq_ite_lt]
  rw [compareShardPaths, compareStrings, hlength, hlength, hcompare, value_docsAndExternals,
    value_docsAndExternals, compareLex_append_left,
    compareLex_append_dash (fun _ => dash_lt_of_mem_decimal) (fun _ => dash_lt_of_mem_decimal)
      hdecimal]

/-! ## Runs -/

/-- A run of the driver in which the given tasks produced shards: in which order their results
arrived, and which worker was given each. -/
structure MergeRun (tasks : Finset UInt32) (numWorkers : Nat) where
  shards : List Shard
  nodup : (shards.map Shard.taskId).Nodup
  mem_tasks : ∀ task, task ∈ shards.map Shard.taskId ↔ task ∈ tasks
  workerId_lt : ∀ shard ∈ shards, shard.workerId < numWorkers

namespace MergeRun

variable {tasks : Finset UInt32} {numWorkers : Nat}

/-- `Driver::shardPaths` when all results have arrived. -/
def shardPaths (run : MergeRun tasks numWorkers) (dir : Str) : List ShardPaths :=
  run.shards.map (Shard.paths dir)

/-- The task whose shard has the given paths. -/
def taskOf (run : MergeRun tasks numWorkers) (dir : Str) (paths : ShardPaths) : Option UInt32 :=
  (run.shards.find? fun shard => shard.paths dir = paths).map Shard.taskId

/-- The tasks in the order in which their shards are merged. -/
def visitedTasks (run : MergeRun tasks numWorkers) (dir : Str) : List UInt32 :=
  (emitScipIndex (run.shardPaths dir) true).filterMap (run.taskOf dir)

/-- The calls to `addDocument` and `addExternalSymbol`, with what can be read from the paths. -/
def builderCalls (run : MergeRun tasks numWorkers) (dir : Str) (planner : FileIndexingPlanner)
    (readIndexShard : ShardPaths → Option Index) : List BuilderCall :=
  ((emitScipIndex (run.shardPaths dir) true).filterMap readIndexShard).flatMap
    (shardCalls planner)

/-- Two runs visit the tasks in the same order; if the shards of each task have the same
contents in both, the builder then sees the same calls. -/
structure SameMerge (dir : Str) (run run' : MergeRun tasks numWorkers) : Prop where
  visitedTasks_eq : run.visitedTasks dir = run'.visitedTasks dir
  builderCalls_eq : ∀ (planner : FileIndexingPlanner) (contents : UInt32 → Option Index)
    (readIndexShard readIndexShard' : ShardPaths → Option Index),
    (∀ shard ∈ run.shards, readIndexShard (shard.paths dir) = contents shard.taskId) →
    (∀ shard ∈ run'.shards, readIndexShard' (shard.paths dir) = contents shard.taskId) →
    run.builderCalls dir planner readIndexShard = run'.builderCalls dir planner readIndexShard'

end MergeRun

/-- The name of the first task has fewer digits than that of the second one, or equally many
and smaller ones, even if the first is indexed by the last of the workers and the second by
the first one. -/
def Precedes (numWorkers : Nat) (s t : UInt32) : Prop :=
  (decimal s.toNat).length + (decimal (numWorkers - 1)).length < (decimal t.toNat).length + 1 ∨
    (decimal s.toNat).length + (decimal (numWorkers - 1)).length = (decimal t.toNat).length + 1 ∧
      List.compareLex compare (decimal s.toNat) (decimal t.toNat) = .lt

instance (numWorkers : Nat) (s t : UInt32) : Decidable (Precedes numWorkers s t) :=
  inferInstanceAs (Decidable (_ ∨ _))

namespace MergeRun

variable {tasks : Finset UInt32} {numWorkers : Nat}

/-- The shards in the order in which they are merged. -/
def sorted (run : MergeRun tasks numWorkers) (dir : Str) : List Shard :=
  run.shards.mergeSort fun a b => (compareShardPaths (a.paths dir) (b.paths dir)).isLE

theorem sorted_perm (run : MergeRun tasks numWorkers) (dir : Str) :
    (run.sorted dir).Perm run.shards := List.mergeSort_perm _ _

theorem emitScipIndex_shardPaths (run : MergeRun tasks numWorkers) (dir : Str) :
    emitScipIndex (run.shardPaths dir) true = (run.sorted dir).map (Shard.paths dir) := by
  unfold emitScipIndex shardPaths sorted
  rw [if_pos rfl]
  rw [List.map_mergeSort (f := Shard.paths dir)]
  intro a _ b _
  rfl

/-- Shards of one run with the same task are the same shard. -/
theorem eq_of_taskId_eq (run : MergeRun tasks numWorkers) {a b : Shard} (ha : a ∈ run.shards)
    (hb : b ∈ run.shards) (h : a.taskId = b.taskId) : a = b :=
  List.inj_on_of_nodup_map run.nodup ha hb h

/-- The paths of two tasks are different. -/
theorem eq_of_paths_eq (run : MergeRun tasks numWorkers) {dir : Str} {a b : Shard}
    (ha : a ∈ run.shards) (hb : b ∈ run.shards) (h : a.paths dir = b.paths dir) : a = b := by
  by_contra hne
  have htask : a.taskId ≠ b.taskId := fun heq => hne (run.eq_of_taskId_eq ha hb heq)
  have heq := compareShardPaths_eq dir htask
  rw [h, compareShardPaths, @Std.ReflCmp.compare_self _ compareStrings, eq_comm,
    Ordering.then_eq_eq] at heq
  have hdecimal := Std.LawfulEqCmp.eq_of_compare heq.2
  exact htask (UInt32.toNat_inj.mp (decimal_injective hdecimal))

theorem taskOf_paths (run : MergeRun tasks numWorkers) (dir : Str) {shard : Shard}
    (h : shard ∈ run.shards) : run.taskOf dir (shard.paths dir) = some shard.taskId := by
  unfold taskOf
  cases hfind : run.shards.find? fun other => other.paths dir = shard.paths dir with
  | none =>
      have hnone := List.find?_eq_none.mp hfind shard h
      simp at hnone
  | some other =>
      have hpaths : other.paths dir = shard.paths dir := by simpa using List.find?_some hfind
      rw [run.eq_of_paths_eq (List.mem_of_find?_eq_some hfind) h hpaths]
      rfl

/-- What is read from the sorted paths, by task. -/
theorem filterMap_emitScipIndex {α : Type} (run : MergeRun tasks numWorkers) (dir : Str)
    {read : ShardPaths → Option α} {contents : UInt32 → Option α}
    (h : ∀ shard ∈ run.shards, read (shard.paths dir) = contents shard.taskId) :
    (emitScipIndex (run.shardPaths dir) true).filterMap read =
      ((run.sorted dir).map Shard.taskId).filterMap contents := by
  rw [emitScipIndex_shardPaths, List.filterMap_map, List.filterMap_map]
  apply List.filterMap_congr
  intro shard hshard
  exact h shard ((run.sorted_perm dir).mem_iff.mp hshard)

theorem visitedTasks_eq_map (run : MergeRun tasks numWorkers) (dir : Str) :
    run.visitedTasks dir = (run.sorted dir).map Shard.taskId := by
  rw [visitedTasks, filterMap_emitScipIndex run dir fun shard => run.taskOf_paths dir,
    List.filterMap_some]

/-- The calls follow from the order of the tasks. -/
theorem sameMerge_of_visitedTasks_eq {dir : Str} {run run' : MergeRun tasks numWorkers}
    (h : run.visitedTasks dir = run'.visitedTasks dir) : SameMerge dir run run' where
  visitedTasks_eq := h
  builderCalls_eq planner contents readIndexShard readIndexShard' hread hread' := by
    rw [visitedTasks_eq_map, visitedTasks_eq_map] at h
    rw [builderCalls, builderCalls, filterMap_emitScipIndex run dir hread,
      filterMap_emitScipIndex run' dir hread', h]

end MergeRun

/-! ## When the order of two tasks is determined -/

theorem compareShardPaths_eq_lt_iff (dir : Str) {a b : Shard} (hne : a.taskId ≠ b.taskId) :
    compareShardPaths (a.paths dir) (b.paths dir) = .lt ↔ a.numDigits < b.numDigits ∨
      a.numDigits = b.numDigits ∧
        List.compareLex compare (decimal a.taskId.toNat) (decimal b.taskId.toNat) = .lt := by
  rw [compareShardPaths_eq dir hne, Ordering.then_eq_lt, Nat.compare_eq_lt, Nat.compare_eq_eq]

/-- Different tasks have different numbers, one of which comes first. -/
theorem compareLex_decimal_ne_eq {s t : UInt32} (hne : s ≠ t) :
    List.compareLex compare (decimal s.toNat) (decimal t.toNat) ≠ .eq := fun h =>
  hne (UInt32.toNat_inj.mp (decimal_injective (Std.LawfulEqCmp.eq_of_compare h)))

theorem compareLex_decimal_eq_lt {s t : UInt32} (hne : s ≠ t)
    (h : List.compareLex compare (decimal t.toNat) (decimal s.toNat) ≠ .lt) :
    List.compareLex compare (decimal s.toNat) (decimal t.toNat) = .lt := by
  cases hcmp : List.compareLex compare (decimal s.toNat) (decimal t.toNat) with
  | lt => rfl
  | eq => exact absurd hcmp (compareLex_decimal_ne_eq hne)
  | gt => exact absurd (Std.OrientedCmp.gt_iff_lt.mp hcmp) h

/-- A task that precedes another one is merged first, whichever workers indexed them. -/
theorem compareShardPaths_of_precedes {numWorkers : Nat} (dir : Str) {a b : Shard}
    (hne : a.taskId ≠ b.taskId) (hworker : a.workerId < numWorkers)
    (h : Precedes numWorkers a.taskId b.taskId) :
    compareShardPaths (a.paths dir) (b.paths dir) = .lt := by
  have ha : a.numDigits ≤
      (decimal a.taskId.toNat).length + (decimal (numWorkers - 1)).length :=
    Nat.add_le_add_left (length_decimal_le (Nat.le_sub_one_of_lt hworker)) _
  have hb : (decimal b.taskId.toNat).length + 1 ≤ b.numDigits :=
    Nat.add_le_add_left (one_le_length_decimal _) _
  rw [compareShardPaths_eq_lt_iff dir hne]
  rcases h with hlt | ⟨heq, hlex⟩
  · exact Or.inl (lt_of_le_of_lt ha (lt_of_lt_of_le hlt hb))
  · rcases Nat.lt_or_ge a.numDigits b.numDigits with hlt | hge
    · exact Or.inl hlt
    · exact Or.inr ⟨by omega, hlex⟩

/-- A task that does not precede another one can be merged after it. -/
theorem compareShardPaths_of_not_precedes {numWorkers : Nat} (dir : Str) {s t : UInt32}
    (hne : s ≠ t) (h : ¬Precedes numWorkers t s) :
    compareShardPaths (Shard.paths dir ⟨s, 0⟩) (Shard.paths dir ⟨t, numWorkers - 1⟩) = .lt := by
  have hzero : (decimal 0).length = 1 := rfl
  rw [compareShardPaths_eq_lt_iff dir hne]
  simp only [Precedes, not_or, not_and, not_lt] at h
  simp only [Shard.numDigits, hzero]
  rcases Nat.lt_or_eq_of_le h.1 with hlt | heq
  · exact Or.inl hlt
  · exact Or.inr ⟨heq, compareLex_decimal_eq_lt hne (h.2 heq.symm)⟩

/-- Of two tasks only one precedes the other. -/
theorem not_precedes_of_precedes {numWorkers : Nat} {s t : UInt32}
    (h : Precedes numWorkers s t) : ¬Precedes numWorkers t s := by
  intro h'
  have hone := one_le_length_decimal (numWorkers - 1)
  rcases h with hlt | ⟨heq, hlex⟩
  · rcases h' with hlt' | ⟨heq', -⟩ <;> omega
  · rcases h' with hlt' | ⟨-, hlex'⟩
    · omega
    · rw [Std.OrientedCmp.gt_iff_lt.mpr hlex] at hlex'
      exact absurd hlex' (by decide)

/-- With up to ten workers the order of any two tasks is determined. -/
theorem precedes_or_precedes {numWorkers : Nat} (hworkers : numWorkers ≤ 10) {s t : UInt32}
    (hne : s ≠ t) : Precedes numWorkers s t ∨ Precedes numWorkers t s := by
  have hone : (decimal (numWorkers - 1)).length = 1 := by
    rw [decimal, Nat.toDigits_of_lt_base (by omega)]
    rfl
  unfold Precedes
  rw [hone]
  rcases Nat.lt_trichotomy (decimal s.toNat).length (decimal t.toNat).length with h | h | h
  · exact Or.inl (Or.inl (by omega))
  · by_cases hlex : List.compareLex compare (decimal s.toNat) (decimal t.toNat) = .lt
    · exact Or.inl (Or.inr ⟨by omega, hlex⟩)
    · exact Or.inr (Or.inr ⟨by omega, compareLex_decimal_eq_lt (Ne.symm hne) hlex⟩)
  · exact Or.inr (Or.inl (by omega))

namespace MergeRun

variable {tasks : Finset UInt32} {numWorkers : Nat}

theorem pairwise_sorted (run : MergeRun tasks numWorkers) (dir : Str) :
    (run.sorted dir).Pairwise fun a b =>
      (compareShardPaths (a.paths dir) (b.paths dir)).isLE = true := by
  have htrans := pairwise_mergeSort_isLE compareShardPaths (run.shardPaths dir)
  have hsorted := emitScipIndex_shardPaths run dir
  unfold emitScipIndex at hsorted
  rw [if_pos rfl] at hsorted
  rw [hsorted] at htrans
  exact List.pairwise_map.mp htrans

/-- If the order of any two tasks is determined, the tasks are merged in that order. -/
theorem pairwise_visitedTasks (run : MergeRun tasks numWorkers) (dir : Str)
    (h : ∀ s ∈ tasks, ∀ t ∈ tasks, s ≠ t → Precedes numWorkers s t ∨ Precedes numWorkers t s) :
    (run.visitedTasks dir).Pairwise (Precedes numWorkers) := by
  rw [visitedTasks_eq_map, List.pairwise_map]
  have hnodup : (run.sorted dir).Pairwise fun a b => a.taskId ≠ b.taskId :=
    List.pairwise_map.mp (((run.sorted_perm dir).map Shard.taskId).nodup_iff.mpr run.nodup)
  refine ((run.pairwise_sorted dir).and hnodup).imp_of_mem ?_
  intro a b ha hb hab
  rw [(run.sorted_perm dir).mem_iff] at ha hb
  have hmem : ∀ shard ∈ run.shards, shard.taskId ∈ tasks := fun shard hshard =>
    (run.mem_tasks _).mp (List.mem_map_of_mem hshard)
  apply (h a.taskId (hmem a ha) b.taskId (hmem b hb) hab.2).resolve_right
  intro hba
  -- the other order would contradict how the shards are sorted
  have hlt := compareShardPaths_of_precedes dir (Ne.symm hab.2) (run.workerId_lt b hb) hba
  have hle := hab.1
  rw [Std.OrientedCmp.gt_iff_lt.mpr hlt] at hle
  exact absurd hle (by decide)

theorem visitedTasks_perm (run run' : MergeRun tasks numWorkers) (dir : Str) :
    (run.visitedTasks dir).Perm (run'.visitedTasks dir) := by
  have hperm : ∀ other : MergeRun tasks numWorkers,
      (other.visitedTasks dir).Perm (other.shards.map Shard.taskId) := by
    intro other
    rw [visitedTasks_eq_map]
    exact (other.sorted_perm dir).map Shard.taskId
  refine (hperm run).trans (List.Perm.trans ?_ (hperm run').symm)
  rw [List.perm_ext_iff_of_nodup run.nodup run'.nodup]
  intro task
  rw [run.mem_tasks, run'.mem_tasks]

/-- The run in which each task is given to the worker it is assigned to. -/
noncomputable def assigned (tasks : Finset UInt32) (assign : UInt32 → WorkerId)
    (h : ∀ task, assign task < numWorkers) : MergeRun tasks numWorkers where
  shards := tasks.toList.map fun task => ⟨task, assign task⟩
  nodup := by
    rw [List.map_map]
    exact (List.map_id _).symm ▸ tasks.nodup_toList
  mem_tasks := by simp
  workerId_lt := by
    intro shard hshard
    obtain ⟨task, -, rfl⟩ := List.mem_map.mp hshard
    exact h task

theorem mem_assigned {assign : UInt32 → WorkerId} {h : ∀ task, assign task < numWorkers}
    {task : UInt32} (htask : task ∈ tasks) :
    (⟨task, assign task⟩ : Shard) ∈ (assigned tasks assign h).shards :=
  List.mem_map.mpr ⟨task, Finset.mem_toList.mpr htask, rfl⟩

theorem getElem?_sorted {run : MergeRun tasks numWorkers} {dir : Str} {a : Shard}
    (ha : a ∈ run.shards) {i : Nat} (hi : (run.visitedTasks dir)[i]? = some a.taskId) :
    (run.sorted dir)[i]? = some a := by
  rw [visitedTasks_eq_map, List.getElem?_map] at hi
  obtain ⟨other, hother, htask⟩ := Option.map_eq_some_iff.mp hi
  have hmem := (run.sorted_perm dir).mem_iff.mp (List.mem_of_getElem? hother)
  rw [hother, run.eq_of_taskId_eq hmem ha htask]

/-- A shard that compares less comes first. -/
theorem lt_of_compareShardPaths {run : MergeRun tasks numWorkers} {dir : Str} {a b : Shard}
    (ha : a ∈ run.shards) (hb : b ∈ run.shards)
    (hlt : compareShardPaths (a.paths dir) (b.paths dir) = .lt) {i j : Nat}
    (hi : (run.visitedTasks dir)[i]? = some a.taskId)
    (hj : (run.visitedTasks dir)[j]? = some b.taskId) : i < j := by
  have hi' := getElem?_sorted ha hi
  have hj' := getElem?_sorted hb hj
  by_contra hnot
  rcases Nat.eq_or_lt_of_le (Nat.not_lt.mp hnot) with heq | hji
  · rw [heq, hi', Option.some.injEq] at hj'
    rw [hj', @Std.ReflCmp.compare_self _ compareShardPaths] at hlt
    exact absurd hlt (by decide)
  · obtain ⟨hilt, hia⟩ := List.getElem?_eq_some_iff.mp hi'
    obtain ⟨hjlt, hjb⟩ := List.getElem?_eq_some_iff.mp hj'
    have hle := List.pairwise_iff_getElem.mp (run.pairwise_sorted dir) j i hjlt hilt hji
    rw [hia, hjb, Std.OrientedCmp.gt_iff_lt.mpr hlt] at hle
    exact absurd hle (by decide)

/-- Two runs differ if they compare the shards of two tasks differently. -/
theorem visitedTasks_ne {run run' : MergeRun tasks numWorkers} {dir : Str} {a b a' b' : Shard}
    (ha : a ∈ run.shards) (hb : b ∈ run.shards) (ha' : a' ∈ run'.shards) (hb' : b' ∈ run'.shards)
    (htask_a : a.taskId = a'.taskId) (htask_b : b.taskId = b'.taskId)
    (hlt : compareShardPaths (a.paths dir) (b.paths dir) = .lt)
    (hlt' : compareShardPaths (b'.paths dir) (a'.paths dir) = .lt) :
    run.visitedTasks dir ≠ run'.visitedTasks dir := by
  intro heq
  have hmem : ∀ shard ∈ run.shards, shard.taskId ∈ run.visitedTasks dir := by
    intro shard hshard
    rw [visitedTasks_eq_map, ((run.sorted_perm dir).map Shard.taskId).mem_iff]
    exact List.mem_map_of_mem hshard
  obtain ⟨i, hi⟩ := List.mem_iff_getElem?.mp (hmem a ha)
  obtain ⟨j, hj⟩ := List.mem_iff_getElem?.mp (hmem b hb)
  have hij : i < j := lt_of_compareShardPaths ha hb hlt hi hj
  rw [heq, htask_a] at hi
  rw [heq, htask_b] at hj
  exact absurd (lt_of_compareShardPaths hb' ha' hlt' hj hi) (Nat.lt_asymm hij)

/-- Two tasks neither of which precedes the other are merged in both orders. -/
theorem exists_visitedTasks_ne (dir : Str) {s t : UInt32} (hs : s ∈ tasks) (ht : t ∈ tasks)
    (hne : s ≠ t) (hst : ¬Precedes numWorkers s t) (hts : ¬Precedes numWorkers t s) :
    ∃ run run' : MergeRun tasks numWorkers, run.visitedTasks dir ≠ run'.visitedTasks dir := by
  have hpos : 10 < numWorkers := by
    by_contra hle
    exact (precedes_or_precedes (Nat.not_lt.mp hle) hne).elim hst hts
  have hassign : ∀ last task : UInt32,
      (if task = last then numWorkers - 1 else 0) < numWorkers := by
    intro last task
    split <;> omega
  -- in the first run the last worker indexes `t`, in the second one it indexes `s`
  refine ⟨assigned tasks _ (hassign t), assigned tasks _ (hassign s), ?_⟩
  have hs_first : (⟨s, 0⟩ : Shard) ∈ (assigned tasks _ (hassign t)).shards := by
    simpa [hne] using mem_assigned (h := hassign t) hs
  have ht_last : (⟨t, numWorkers - 1⟩ : Shard) ∈ (assigned tasks _ (hassign t)).shards := by
    simpa using mem_assigned (h := hassign t) ht
  have hs_last : (⟨s, numWorkers - 1⟩ : Shard) ∈ (assigned tasks _ (hassign s)).shards := by
    simpa using mem_assigned (h := hassign s) hs
  have ht_first : (⟨t, 0⟩ : Shard) ∈ (assigned tasks _ (hassign s)).shards := by
    simpa [Ne.symm hne] using mem_assigned (h := hassign s) ht
  exact visitedTasks_ne hs_first ht_last hs_last ht_first rfl rfl
    (compareShardPaths_of_not_precedes dir hne hts)
    (compareShardPaths_of_not_precedes dir (Ne.symm hne) hst)

end MergeRun

/-- Task 0 was indexed by worker 0 and task 1 by the last of eleven workers. -/
def lastIndexesOne : MergeRun {0, 1} 11 where
  shards := [⟨0, 0⟩, ⟨1, 10⟩]
  nodup := by decide
  mem_tasks := by simp
  workerId_lt := by decide

/-- The other way round. -/
def lastIndexesZero : MergeRun {0, 1} 11 where
  shards := [⟨0, 10⟩, ⟨1, 0⟩]
  nodup := by decide
  mem_tasks := by simp
  workerId_lt := by decide

end ScipClang
