import Mathlib.Data.List.TakeWhile
import ScipClang.Path
import ScipClang.Library.HashTables
import ScipClang.Library.Patterns

/-!
# Cleaning of command lines

`CommandLineCleaner` (`indexer/CommandLineCleaner.cc`) removes the options that are known to
trouble Clang.  The predicate that decides has a state: an option whose argument is separate has
the next argument removed as well.

`clean_eq_survivors` says which arguments remain, in terms of the positions on the command line.
The pattern for options of GCC is searched for anywhere in an argument, so that `-I/x-mfix-y` is
taken for an option `-mfix-y` (`clean_exact_iff`).
-/

namespace ScipClang

open HashTables

namespace Compdb

/-- `CliOptionKind`. -/
inductive CliOptionKind where
  | NoArgument
  | OneArgument
deriving DecidableEq

/-- `Action`: what happens to an argument and the one after it. -/
inductive Action where
  | Keep
  | ZapOne
  | ZapTwo
deriving DecidableEq

/-- `std::stable_partition`, for a predicate with a state: the elements for which it holds, and
the others. -/
def stablePartition {α σ : Type} (pred : σ → α → Bool × σ) : σ → List α → List α × List α
  | _, [] => ([], [])
  | state, v :: vs =>
      let (holds, state) := pred state v
      let (front, back) := stablePartition pred state vs
      if holds then (v :: front, back) else (front, v :: back)

section Zap

variable {α : Type} (check : α → Action)

/-- The predicate in `zap`; its state is `dropFromBefore`. -/
def zapPredicate (dropFromBefore : Bool) (v : α) : Bool × Bool :=
  if dropFromBefore then (false, false)
  else
    match check v with
    | .Keep => (true, false)
    | .ZapOne => (false, false)
    | .ZapTwo => (false, true)

/-- `zap`. -/
def zap (vs : List α) : List α := (stablePartition (zapPredicate check) false vs).1

end Zap

/-- `CommandLineCleaner`. -/
structure CommandLineCleaner where
  toZap : AList (fun _ : Str => CliOptionKind)
  noArgumentMatcher : Option (Str → Bool)

/-- `clangGccSkipOptionsWithArgs`. -/
def clangGccSkipOptionsWithArgs : List Str :=
  ["-march".toList, "-mcpu".toList, "-mtune".toList]

/-- `clangGccSkipOptionsNoArgsPattern`: the regular expression `-m(no-)?fix-.*`. -/
def clangGccSkipOptionsNoArgsPattern : Pattern Char :=
  .append (.literal "-m".toList)
    (.append (.optional (.literal "no-".toList)) (.append (.literal "fix-".toList) .anything))

namespace CommandLineCleaner

/-- `flag` in `CommandLineCleaner::clean`: the argument up to the first `=`. -/
def flagOf (arg : Str) : Str := if '=' ∈ arg then arg.takeWhile (· ≠ '=') else arg

/-- The check in `CommandLineCleaner::clean`. -/
def check (cleaner : CommandLineCleaner) (arg : Str) : Action :=
  if arg.head? ≠ some '-' then .Keep
  else
    let flag := flagOf arg
    if '=' ∉ arg ∧ cleaner.noArgumentMatcher.any (· arg) then .ZapOne
    else
      match cleaner.toZap.lookup flag with
      | none => .Keep
      | some .NoArgument => .ZapOne
      | some .OneArgument => if flag.length = arg.length then .ZapTwo else .ZapOne

/-- `CommandLineCleaner::clean`. -/
def clean (cleaner : CommandLineCleaner) (commandLine : List Str) : List Str :=
  zap cleaner.check commandLine

/-- `CommandLineCleaner::forClangOrGcc`.  `llvm::Regex::match` searches for the pattern anywhere
in the argument. -/
def forClangOrGcc : CommandLineCleaner where
  toZap := clangGccSkipOptionsWithArgs.foldl (fun toZap s => upsert toZap s (·.getD .NoArgument)) ∅
  noArgumentMatcher := some clangGccSkipOptionsNoArgsPattern.search

end CommandLineCleaner

/-! ## The arguments that survive -/

section Survivors

variable {α : Type} (isZapped takesNext : α → Bool)

/-- The argument at a position directly follows one that takes it; an argument that is taken
does not take the next one. -/
def isTaken (args : List α) : Nat → Bool
  | 0 => false
  | i + 1 => !isTaken args i && args[i]?.any takesNext

/-- The arguments that are neither removed for themselves nor taken. -/
def survivors (args : List α) : List α :=
  (args.zipIdx.filter fun entry =>
    !(isZapped entry.1 || isTaken takesNext args entry.2)).map Prod.fst

theorem isTaken_eq_false (args : List α) (h : ∀ arg, takesNext arg = false) (i : Nat) :
    isTaken takesNext args i = false := by
  cases i with
  | zero => rfl
  | succ i =>
      rw [isTaken]
      cases args[i]? with
      | none => exact Bool.and_false _
      | some arg => rw [Option.any_some, h, Bool.and_false]

/-- If no argument takes another one, each decides for itself. -/
theorem survivors_eq_filter (args : List α) (h : ∀ arg, takesNext arg = false) :
    survivors isZapped takesNext args = args.filter fun arg => !isZapped arg := by
  have hkeep : (fun entry : α × Nat => !(isZapped entry.1 || isTaken takesNext args entry.2)) =
      (fun arg => !isZapped arg) ∘ Prod.fst := by
    funext entry
    rw [isTaken_eq_false takesNext args h, Bool.or_false]
    rfl
  rw [survivors, hkeep, ← List.filter_map, List.zipIdx_map_fst]

end Survivors

section Zap

variable {α : Type} {check : α → Action}

/-- The partition of what comes after `before`; the state says whether the next argument is
taken. -/
theorem stablePartition_zapPredicate (before vs : List α) :
    (stablePartition (zapPredicate check)
        (isTaken (fun v => check v = .ZapTwo) (before ++ vs) before.length) vs).1 =
      ((vs.zipIdx before.length).filter fun entry => !(check entry.1 ≠ .Keep ||
        isTaken (fun v => check v = .ZapTwo) (before ++ vs) entry.2)).map Prod.fst := by
  induction vs generalizing before with
  | nil => rfl
  | cons v vs ih =>
      have hnext := ih (before ++ [v])
      rw [List.append_assoc, List.singleton_append, List.length_append, List.length_singleton]
        at hnext
      have htaken : isTaken (fun v => check v = .ZapTwo) (before ++ v :: vs) (before.length + 1) =
          (!isTaken (fun v => check v = .ZapTwo) (before ++ v :: vs) before.length &&
            decide (check v = .ZapTwo)) := by
        simp [isTaken]
      rw [stablePartition, List.zipIdx_cons]
      cases hdrop : isTaken (fun v => check v = .ZapTwo) (before ++ v :: vs) before.length with
      | true =>
          rw [hdrop, Bool.not_true, Bool.false_and] at htaken
          rw [htaken] at hnext
          rw [List.filter_cons_of_neg (by simp [hdrop]), ← hnext]
          rfl
      | false =>
          rw [hdrop, Bool.not_false, Bool.true_and] at htaken
          rw [htaken] at hnext
          cases hcheck : check v with
          | Keep =>
              rw [hcheck] at hnext
              rw [List.filter_cons_of_pos (by simp [hdrop, hcheck]), List.map_cons, ← hnext]
              simp [zapPredicate, hcheck]
          | ZapOne =>
              rw [hcheck] at hnext
              rw [List.filter_cons_of_neg (by simp [hcheck]), ← hnext]
              simp [zapPredicate, hcheck]
          | ZapTwo =>
              rw [hcheck] at hnext
              rw [List.filter_cons_of_neg (by simp [hcheck]), ← hnext]
              simp [zapPredicate, hcheck]

theorem zap_eq_survivors (vs : List α) :
    zap check vs = survivors (fun v => check v ≠ .Keep) (fun v => check v = .ZapTwo) vs :=
  stablePartition_zapPredicate [] vs

theorem check_of_mem_zap {vs : List α} {v : α} (h : v ∈ zap check vs) : check v = .Keep := by
  rw [zap_eq_survivors] at h
  obtain ⟨entry, hmem, rfl⟩ := List.mem_map.mp h
  have hkeep := List.of_mem_filter hmem
  simp only [Bool.not_or, Bool.and_eq_true, Bool.not_eq_true', decide_eq_false_iff_not,
    not_not] at hkeep
  exact hkeep.1

theorem zap_eq_self {vs : List α} (h : ∀ v ∈ vs, check v = .Keep) : zap check vs = vs := by
  induction vs with
  | nil => rfl
  | cons v vs ih =>
      obtain ⟨hv, hvs⟩ := List.forall_mem_cons.mp h
      have hrest : (stablePartition (zapPredicate check) false vs).1 = vs := ih hvs
      rw [zap, stablePartition]
      simp [zapPredicate, hv, hrest]

/-- What has survived once survives. -/
theorem zap_zap (vs : List α) : zap check (zap check vs) = zap check vs :=
  zap_eq_self fun _ hv => check_of_mem_zap hv

end Zap

/-! ## The options that are removed -/

namespace CommandLineCleaner

variable (cleaner : CommandLineCleaner)

/-- The argument is an option of the table, up to a first `=`, or without `=` it matches the
matcher. -/
def isZapped (arg : Str) : Bool :=
  arg.head? = some '-' ∧
    ((cleaner.toZap.lookup (flagOf arg)).isSome ∨
      '=' ∉ arg ∧ cleaner.noArgumentMatcher.any (· arg))

/-- The argument is scanned as an option of the table that has a separate argument. -/
def takesNext (arg : Str) : Bool :=
  arg.head? = some '-' ∧ '=' ∉ arg ∧ cleaner.noArgumentMatcher.any (· arg) = false ∧
    cleaner.toZap.lookup arg = some .OneArgument

variable {cleaner}

theorem flagOf_of_notMem {arg : Str} (h : '=' ∉ arg) : flagOf arg = arg := if_neg h

theorem length_flagOf_ne {arg : Str} (h : '=' ∈ arg) : (flagOf arg).length ≠ arg.length := by
  rw [flagOf, if_pos h]
  intro hlength
  have hself := (List.takeWhile_prefix (l := arg) (· ≠ '=')).eq_of_length hlength
  have hne := List.takeWhile_eq_self_iff.mp hself '=' h
  simp at hne

/-- An option that is given with `=`. -/
theorem check_of_mem {arg : Str} (hdash : arg.head? = some '-') (heq : '=' ∈ arg) :
    cleaner.check arg =
      if (cleaner.toZap.lookup (flagOf arg)).isSome then .ZapOne else .Keep := by
  rw [check, if_neg (not_not.mpr hdash)]
  dsimp only
  rw [if_neg fun hnot => hnot.1 heq]
  cases cleaner.toZap.lookup (flagOf arg) with
  | none => rfl
  | some kind =>
      cases kind with
      | NoArgument => rfl
      | OneArgument => exact if_neg (length_flagOf_ne heq)

/-- An option that is given without `=`. -/
theorem check_of_notMem {arg : Str} (hdash : arg.head? = some '-') (heq : '=' ∉ arg) :
    cleaner.check arg =
      if cleaner.noArgumentMatcher.any (· arg) then .ZapOne
      else
        match cleaner.toZap.lookup arg with
        | none => .Keep
        | some .NoArgument => .ZapOne
        | some .OneArgument => .ZapTwo := by
  rw [check, if_neg (not_not.mpr hdash)]
  dsimp only
  rw [flagOf_of_notMem heq]
  simp only [heq, not_false_eq_true, true_and, if_true]

/-- What the check says of one argument. -/
theorem check_eq (arg : Str) :
    (decide (cleaner.check arg ≠ .Keep)) = cleaner.isZapped arg ∧
      (decide (cleaner.check arg = .ZapTwo)) = cleaner.takesNext arg := by
  by_cases hdash : arg.head? = some '-'
  · by_cases heq : '=' ∈ arg
    · rw [check_of_mem hdash heq]
      cases hlookup : (cleaner.toZap.lookup (flagOf arg)).isSome with
      | true => simp [isZapped, takesNext, hdash, heq, hlookup]
      | false => simp [isZapped, takesNext, hdash, heq, hlookup]
    · rw [check_of_notMem hdash heq]
      rw [isZapped, flagOf_of_notMem heq]
      cases hmatch : cleaner.noArgumentMatcher.any (· arg) with
      | true => simp [takesNext, hdash, heq, hmatch]
      | false =>
          cases hlookup : cleaner.toZap.lookup arg with
          | none => simp [takesNext, hdash, heq, hmatch, hlookup]
          | some kind => cases kind <;> simp [takesNext, hdash, heq, hmatch, hlookup]
  · have hkeep : cleaner.check arg = .Keep := by
      rw [check, if_pos hdash]
    simp [hkeep, isZapped, takesNext, hdash]

/-- **Cleaning removes the zapped options and the arguments that they take.** -/
theorem clean_eq_survivors (cleaner : CommandLineCleaner) (commandLine : List Str) :
    cleaner.clean commandLine =
      survivors cleaner.isZapped cleaner.takesNext commandLine := by
  have hzapped : (fun arg => decide (cleaner.check arg ≠ .Keep)) = cleaner.isZapped := by
    funext arg
    exact (check_eq arg).1
  have htakes : (fun arg => decide (cleaner.check arg = .ZapTwo)) = cleaner.takesNext := by
    funext arg
    exact (check_eq arg).2
  rw [clean, zap_eq_survivors, hzapped, htakes]

/-! ## Clang and GCC -/

/-- The argument contains `-mfix-` or `-mno-fix-`. -/
def ContainsFix (arg : Str) : Prop := "-mfix-".toList <:+: arg ∨ "-mno-fix-".toList <:+: arg

/-- The argument begins with `-mfix-` or `-mno-fix-`. -/
def BeginsWithFix (arg : Str) : Prop := "-mfix-".toList <+: arg ∨ "-mno-fix-".toList <+: arg

/-- The argument is one of the options, bare or followed by `=` and a value. -/
def IsSkipOption (arg : Str) : Prop :=
  ∃ option ∈ clangGccSkipOptionsWithArgs, arg = option ∨ ∃ value, arg = option ++ '=' :: value

/-- The options that are to be removed for Clang and GCC. -/
def IsIntended (arg : Str) : Prop := IsSkipOption arg ∨ '=' ∉ arg ∧ BeginsWithFix arg

theorem clangGccSkipOptionsNoArgsPattern_search {arg : Str} :
    clangGccSkipOptionsNoArgsPattern.search arg = true ↔ ContainsFix arg := by
  rw [Pattern.search_iff]
  constructor
  · rintro ⟨_, hwithin, _, _, rfl, rfl, _, _, rfl, hno, _, rest, rfl, rfl, -⟩
    rcases hno with rfl | rfl
    · exact .inl ((List.prefix_append "-mfix-".toList rest).isInfix.trans hwithin)
    · exact .inr ((List.prefix_append "-mno-fix-".toList rest).isInfix.trans hwithin)
  · rintro (hwithin | hwithin)
    · exact ⟨_, hwithin, "-m".toList, "fix-".toList, rfl, rfl, [], "fix-".toList, rfl, .inl rfl,
        "fix-".toList, [], rfl, rfl, trivial⟩
    · exact ⟨_, hwithin, "-m".toList, "no-fix-".toList, rfl, rfl, "no-".toList, "fix-".toList, rfl,
        .inr rfl, "fix-".toList, [], rfl, rfl, trivial⟩

theorem lookup_toZap_forClangOrGcc (flag : Str) :
    forClangOrGcc.toZap.lookup flag =
      if flag ∈ clangGccSkipOptionsWithArgs then some .NoArgument else none := by
  simp only [forClangOrGcc, lookup_foldl_upsert_getD, AList.lookup_empty, Option.none_or]
  by_cases hmem : flag ∈ clangGccSkipOptionsWithArgs
  · rw [if_pos hmem, if_pos hmem]
  · rw [if_neg hmem, if_neg hmem]

theorem flagOf_mem_iff {arg : Str} :
    flagOf arg ∈ clangGccSkipOptionsWithArgs ↔ IsSkipOption arg := by
  have hoptions : ∀ option ∈ clangGccSkipOptionsWithArgs, '=' ∉ option := by
    decide
  constructor
  · intro hmem
    refine ⟨flagOf arg, hmem, ?_⟩
    by_cases heq : '=' ∈ arg
    · obtain ⟨option, value, rfl, hoption⟩ := List.eq_append_cons_of_mem heq
      right
      refine ⟨value, ?_⟩
      rw [flagOf, if_pos heq, List.takeWhile_append_of_pos]
      · simp
      · intro c hc
        rw [decide_eq_true_iff]
        rintro rfl
        exact hoption hc
    · exact .inl (flagOf_of_notMem heq).symm
  · rintro ⟨option, hmem, rfl | ⟨value, rfl⟩⟩
    · rwa [flagOf_of_notMem (hoptions arg hmem)]
    · have hoption : ∀ c ∈ option, decide (c ≠ '=') = true := by
        intro c hc
        rw [decide_eq_true_iff]
        rintro rfl
        exact hoptions option hmem hc
      rw [flagOf, if_pos (by simp), List.takeWhile_append_of_pos hoption]
      simpa using hmem

theorem head?_of_isSkipOption {arg : Str} (h : IsSkipOption arg) : arg.head? = some '-' := by
  have hoptions : ∀ option ∈ clangGccSkipOptionsWithArgs, option.head? = some '-' := by
    decide
  obtain ⟨option, hmem, hoption⟩ := h
  obtain ⟨rest, hrest⟩ := List.head?_eq_some_iff.mp (hoptions option hmem)
  rcases hoption with rfl | ⟨value, rfl⟩ <;> rw [hrest] <;> rfl

theorem isZapped_forClangOrGcc (arg : Str) :
    forClangOrGcc.isZapped arg = true ↔
      IsSkipOption arg ∨ arg.head? = some '-' ∧ '=' ∉ arg ∧ ContainsFix arg := by
  have htable : (forClangOrGcc.toZap.lookup (flagOf arg)).isSome ↔ IsSkipOption arg := by
    rw [lookup_toZap_forClangOrGcc, ← flagOf_mem_iff]
    split <;> simp_all
  have hmatcher : forClangOrGcc.noArgumentMatcher.any (· arg) = true ↔ ContainsFix arg :=
    clangGccSkipOptionsNoArgsPattern_search
  rw [isZapped, decide_eq_true_iff, htable, hmatcher]
  constructor
  · rintro ⟨hdash, hskip | hfix⟩
    · exact .inl hskip
    · exact .inr ⟨hdash, hfix⟩
  · rintro (hskip | ⟨hdash, hfix⟩)
    · exact ⟨head?_of_isSkipOption hskip, .inl hskip⟩
    · exact ⟨hdash, .inr hfix⟩

theorem takesNext_forClangOrGcc (arg : Str) : forClangOrGcc.takesNext arg = false := by
  rw [takesNext, decide_eq_false_iff_not, lookup_toZap_forClangOrGcc]
  rintro ⟨-, -, -, hkind⟩
  split at hkind <;> cases hkind

instance (arg : Str) : Decidable (BeginsWithFix arg) := inferInstanceAs (Decidable (_ ∨ _))

instance (arg : Str) : Decidable (IsIntended arg) :=
  decidable_of_iff (flagOf arg ∈ clangGccSkipOptionsWithArgs ∨ '=' ∉ arg ∧ BeginsWithFix arg)
    (or_congr_left flagOf_mem_iff)

theorem isZapped_of_isIntended {arg : Str} (h : IsIntended arg) :
    forClangOrGcc.isZapped arg = true := by
  rw [isZapped_forClangOrGcc]
  rcases h with hskip | ⟨heq, hfix⟩
  · exact .inl hskip
  · refine .inr ⟨?_, heq, hfix.imp List.IsPrefix.isInfix List.IsPrefix.isInfix⟩
    rcases hfix with ⟨rest, rfl⟩ | ⟨rest, rfl⟩ <;> rfl

theorem clean_forClangOrGcc (commandLine : List Str) :
    forClangOrGcc.clean commandLine =
      commandLine.filter fun arg => !forClangOrGcc.isZapped arg := by
  rw [clean_eq_survivors, survivors_eq_filter _ _ _ takesNext_forClangOrGcc]

/-- No argument is removed that is not intended to be. -/
theorem clean_forClangOrGcc_eq_filter_iff (commandLine : List Str) :
    forClangOrGcc.clean commandLine = commandLine.filter (fun arg => ¬ IsIntended arg) ↔
      ∀ arg ∈ commandLine, forClangOrGcc.isZapped arg = true → IsIntended arg := by
  rw [clean_forClangOrGcc]
  constructor
  · intro hsame arg hmem hzapped
    by_contra hintended
    have hkept : arg ∈ commandLine.filter fun arg => ¬ IsIntended arg :=
      List.mem_filter.mpr ⟨hmem, by simpa using hintended⟩
    rw [← hsame] at hkept
    simp [hzapped] at hkept
  · intro hintended
    refine List.filter_congr fun arg hmem => ?_
    rw [Bool.eq_iff_iff, Bool.not_eq_true', decide_eq_true_iff, ← Bool.not_eq_true]
    exact not_congr ⟨hintended arg hmem, isZapped_of_isIntended⟩

/-- **Cleaning removes exactly the intended options**; for Clang and GCC this is so if and only
if `-mfix-` and `-mno-fix-` are only found at the beginning of options. -/
theorem clean_exact_iff (cleaner : CommandLineCleaner) (commandLine : List Str) :
    (cleaner.clean commandLine = survivors cleaner.isZapped cleaner.takesNext commandLine ∧
      cleaner.clean (cleaner.clean commandLine) = cleaner.clean commandLine ∧
      forClangOrGcc.clean commandLine = commandLine.filter (fun arg => ¬ IsIntended arg)) ↔
      ∀ arg ∈ commandLine, arg.head? = some '-' → '=' ∉ arg → ContainsFix arg →
        BeginsWithFix arg := by
  rw [and_iff_right (clean_eq_survivors cleaner commandLine),
    and_iff_right (show cleaner.clean (cleaner.clean commandLine) = cleaner.clean commandLine from
      zap_zap commandLine), clean_forClangOrGcc_eq_filter_iff]
  refine forall₂_congr fun arg _ => ?_
  rw [isZapped_forClangOrGcc]
  constructor
  · intro h hdash heq hcontains
    rcases h (.inr ⟨hdash, heq, hcontains⟩) with ⟨option, hoption, rfl | ⟨value, rfl⟩⟩ | hfix
    · -- none of the options of the table contains the pattern
      have hnone : ∀ option ∈ clangGccSkipOptionsWithArgs,
          ¬ ("-mfix-".toList <:+: option ∨ "-mno-fix-".toList <:+: option) := by
        decide
      exact absurd hcontains (hnone arg hoption)
    · simp at heq
    · exact hfix.2
  · rintro h (hskip | ⟨hdash, heq, hcontains⟩)
    · exact .inl hskip
    · exact .inr ⟨heq, h hdash heq hcontains⟩

/-- An include path is removed that happens to contain `-mfix-`. -/
theorem includePath_removed :
    forClangOrGcc.clean ["gcc".toList, "-I/opt/arm-mfix-sdk".toList, "a.c".toList] =
        ["gcc".toList, "a.c".toList] ∧
      ¬ IsIntended "-I/opt/arm-mfix-sdk".toList := by
  decide +kernel

end CommandLineCleaner

end Compdb

end ScipClang
