import ScipClang.IpcMessages
import ScipClang.Library.Digits

/-!
# The names of shards

A worker writes what it found out about a translation unit into two files, the shards.
Their names contain the number of the task and of the worker (`ShardPaths::prefix`); the
driver reads the number of the task off a name again (`ShardPaths::tryParseJobId`).

* `tryParseJobId_paths`: the driver reads the number that the worker wrote.
-/

namespace ScipClang

/-! ## Writing a name -/

/-- A number in decimal, as `fmt::format` writes it. -/
def decimal (n : Nat) : Str := Nat.toDigits 10 n

/-- `ShardPaths::prefix`. -/
def shardPrefix (taskId : UInt32) (workerId : WorkerId) : Str :=
  "job-".toList ++ decimal taskId.toNat ++ "-worker-".toList ++ decimal workerId

/-- `StdPath::operator/` with a relative path on the right. -/
def stdPathJoin (dir name : Str) : Str :=
  if dir = [] ∨ dir.getLast? = some separator then dir ++ name else dir ++ separator :: name

/-- What a worker wrote for a task. -/
structure Shard where
  taskId : UInt32
  workerId : WorkerId
deriving DecidableEq

/-- The paths in the result of `Worker::processTranslationUnitAndRespond`. -/
def Shard.paths (temporaryOutputDir : Str) (shard : Shard) : ShardPaths where
  docsAndExternals := ⟨stdPathJoin temporaryOutputDir (shardPrefix shard.taskId shard.workerId) ++
    "-docs_and_externals.shard.scip".toList⟩
  forwardDecls := ⟨stdPathJoin temporaryOutputDir (shardPrefix shard.taskId shard.workerId) ++
    "-forward_decls.shard.scip".toList⟩

/-! ## Reading a name -/

/-- `std::from_chars` for a 32-bit number: the digits at the front are read, of which there
must be one at least, and their value must fit. -/
def fromChars (text : Str) : Option UInt32 :=
  let digits := text.takeWhile Char.isDigit
  let value := Nat.ofDigitChars 10 digits 0
  if digits ≠ [] ∧ value < 2 ^ 32 then some (UInt32.ofNat value) else none

/-- `ShardPaths::tryParseJobId`. -/
def tryParseJobId (fileName : Str) : Option UInt32 :=
  match fileName.splitOn '-' with
  | first :: second :: third :: _ =>
      if first = "job".toList ∧ third = "worker".toList then fromChars second else none
  | _ => none

/-! ## Round trip -/

theorem decimal_injective : Function.Injective decimal :=
  Digits.toDigits_injective (by decide) (by decide)

theorem one_le_length_decimal (n : Nat) : 1 ≤ (decimal n).length := Nat.length_toDigits_pos

theorem isDigit_of_mem_decimal {n : Nat} {c : Char} (h : c ∈ decimal n) : c.isDigit = true :=
  Nat.isDigit_of_mem_toDigits (by decide) (by decide) h

theorem fromChars_decimal (n : UInt32) : fromChars (decimal n.toNat) = some n := by
  have htake : (decimal n.toNat).takeWhile Char.isDigit = decimal n.toNat := by
    rw [← List.append_nil (decimal n.toNat),
      List.takeWhile_append_of_pos fun c hc => isDigit_of_mem_decimal hc, List.takeWhile_nil]
  have hvalue : Nat.ofDigitChars 10 (decimal n.toNat) 0 = n.toNat := Nat.ofDigitChars_ten_toDigits
  have hne : decimal n.toNat ≠ [] := Nat.toDigits_ne_nil
  simp only [fromChars, htake, hvalue]
  exact (if_pos ⟨hne, n.toNat_lt⟩).trans (congrArg some UInt32.ofNat_toNat)

/-- The first three parts of a name that begins as the worker writes it. -/
theorem tryParseJobId_prefix (taskId : UInt32) (rest : Str) :
    tryParseJobId ("job-".toList ++ (decimal taskId.toNat ++ ("-worker-".toList ++ rest))) =
      some taskId := by
  have hdash : ∀ c ∈ decimal taskId.toNat, (c == '-') = false := by
    intro c hc
    have hdigit := isDigit_of_mem_decimal hc
    by_contra heq
    rw [Bool.not_eq_false, beq_iff_eq] at heq
    rw [heq] at hdigit
    exact absurd hdigit (by decide)
  have hjobDash : ∀ c ∈ "job".toList, (c == '-') = false := by
    show ∀ c ∈ ['j', 'o', 'b'], (c == '-') = false
    simp
  have hworkerDash : ∀ c ∈ "worker".toList, (c == '-') = false := by
    show ∀ c ∈ ['w', 'o', 'r', 'k', 'e', 'r'], (c == '-') = false
    simp
  have hjob : "job-".toList = "job".toList ++ ['-'] := rfl
  have hworker : "-worker-".toList = '-' :: ("worker".toList ++ ['-']) := rfl
  have hsplit : ("job-".toList ++ (decimal taskId.toNat ++ ("-worker-".toList ++ rest))).splitOn
      '-' = "job".toList :: decimal taskId.toNat :: "worker".toList :: rest.splitOn '-' := by
    rw [hjob, hworker, List.append_assoc, List.singleton_append, List.cons_append,
      List.append_assoc, List.singleton_append, List.splitOn,
      List.splitOnP_append_cons_of_forall_mem hjobDash '-' rfl,
      List.splitOnP_append_cons_of_forall_mem hdash '-' rfl,
      List.splitOnP_append_cons_of_forall_mem hworkerDash '-' rfl]
    rfl
  rw [tryParseJobId, hsplit]
  exact (if_pos ⟨rfl, rfl⟩).trans (fromChars_decimal taskId)

/-- The file name of what is appended to a directory. -/
theorem fileName_append {name : Str} (hne : name ≠ []) (hname : separator ∉ name) (front : Str) :
    fileName (front ++ separator :: name) = some name := by
  have hlast : (front ++ separator :: name).getLast? ≠ some separator := by
    rw [List.getLast?_append_of_ne_nil _ (List.cons_ne_nil _ _),
      List.getLast?_cons_of_ne_nil hne]
    exact fun hsome => hname (List.mem_of_getLast? hsome)
  have htake : (front ++ separator :: name).reverse.takeWhile (· != separator) = name.reverse := by
    rw [List.reverse_append, List.reverse_cons, List.append_assoc,
      List.takeWhile_append_of_pos fun c hc => by
        simpa using fun heq : c = separator => hname (heq ▸ List.mem_reverse.mp hc)]
    simp
  rw [fileName, if_pos ⟨by simp, hlast⟩, htake, List.reverse_reverse]

/-- A name is separated from the directory that it is put into. -/
theorem stdPathJoin_eq {dir : Str} (hdir : dir ≠ []) :
    ∃ front, ∀ name, stdPathJoin dir name = front ++ separator :: name := by
  unfold stdPathJoin
  by_cases hlast : dir.getLast? = some separator
  · obtain ⟨front, hfront⟩ := List.getLast?_eq_some_iff.mp hlast
    refine ⟨front, fun name => ?_⟩
    rw [if_pos (Or.inr hlast), hfront, List.append_assoc, List.singleton_append]
  · refine ⟨dir, fun name => ?_⟩
    rw [if_neg]
    rintro (hnil | hsome)
    · exact hdir hnil
    · exact hlast hsome

/-- The number of a task is read off the path of a file whose name begins with the prefix. -/
theorem tryParseJobId_fileName {dir : Str} (hdir : dir ≠ []) (taskId : UInt32)
    (workerId : WorkerId) {suffix : Str} (hsuffix : separator ∉ suffix) :
    (fileName (stdPathJoin dir (shardPrefix taskId workerId) ++ suffix)).bind tryParseJobId =
      some taskId := by
  have hdecimal : ∀ n, separator ∉ decimal n := fun n hmem =>
    absurd (isDigit_of_mem_decimal hmem) (by decide)
  obtain ⟨front, hfront⟩ := stdPathJoin_eq hdir
  have hname : shardPrefix taskId workerId ++ suffix = "job-".toList ++ (decimal taskId.toNat ++
      ("-worker-".toList ++ (decimal workerId ++ suffix))) := by
    delta shardPrefix
    simp only [List.append_assoc]
  have hseparator : separator ∉ shardPrefix taskId workerId ++ suffix := by
    rw [hname]
    simp only [List.mem_append, not_or]
    exact ⟨by decide, hdecimal _, by decide, hdecimal _, hsuffix⟩
  have hne : shardPrefix taskId workerId ++ suffix ≠ [] := by
    rw [hname]
    exact List.append_ne_nil_of_left_ne_nil (by decide) _
  rw [hfront, List.append_assoc, List.cons_append, fileName_append hne hseparator, Option.bind_some,
    hname, tryParseJobId_prefix]

/-- **The driver reads the number that the worker wrote**, off the names of both shards. -/
theorem tryParseJobId_paths {dir : Str} (hdir : dir ≠ []) (shard : Shard) :
    (fileName (shard.paths dir).docsAndExternals.value).bind tryParseJobId = some shard.taskId ∧
      (fileName (shard.paths dir).forwardDecls.value).bind tryParseJobId = some shard.taskId :=
  ⟨tryParseJobId_fileName hdir shard.taskId shard.workerId (by decide),
    tryParseJobId_fileName hdir shard.taskId shard.workerId (by decide)⟩

end ScipClang
