import ScipClang.Compdb.CommandLineCleaner

/-!
# Toolchains and their cache

`ResumableParser::adjustCommandLine` (`indexer/CompilationDatabase.cc`) changes a command line
according to the toolchain of its compiler.  To find out about a toolchain the compiler is run,
so the parser remembers toolchains, and failures, by the compiler as it is written in the
command.

A relative path to a compiler is resolved against the directory of the command, which is not
part of what is remembered.  `adjustCommandLines_transparent_iff` says when this makes no
difference.

How a toolchain is inferred is a parameter, a function of the absolute path of the compiler.
-/

namespace ScipClang

open HashTables

namespace Compdb

/-! ## Toolchains -/

/-- `ClangToolchainInfo`. -/
structure ClangToolchainInfo where
  resourceDir : Str
  compilerDriverPath : Str
  cleaner : CommandLineCleaner

/-- `GccToolchainInfo`. -/
structure GccToolchainInfo where
  installDir : Str
  cleaner : CommandLineCleaner

/-- `NvccToolchainInfo`. -/
structure NvccToolchainInfo where
  cudaDir : AbsolutePath
  clangInfo : Option ClangToolchainInfo
  cleaner : CommandLineCleaner

/-- `ToolchainInfo`. -/
inductive ToolchainInfo where
  | Clang (info : ClangToolchainInfo)
  | Gcc (info : GccToolchainInfo)
  | Nvcc (info : NvccToolchainInfo)

/-- `ClangToolchainInfo::isWellFormed`. -/
def ClangToolchainInfo.isWellFormed (exists_ : Str → Bool) (info : ClangToolchainInfo) : Bool :=
  exists_ info.resourceDir && exists_ info.compilerDriverPath

/-- `ClangToolchainInfo::adjustCommandLine`. -/
def ClangToolchainInfo.adjustCommandLine (info : ClangToolchainInfo) (commandLine : List Str) :
    List Str :=
  info.cleaner.clean (commandLine.set 0 info.compilerDriverPath) ++
    ["-resource-dir".toList, info.resourceDir]

/-- `ToolchainInfo::isWellFormed`. -/
def ToolchainInfo.isWellFormed (exists_ : Str → Bool) : ToolchainInfo → Bool
  | Clang info => info.isWellFormed exists_
  | Gcc info => exists_ info.installDir
  | Nvcc info => exists_ (joinPath info.cudaDir.value "include".toList)

/-- `ToolchainInfo::adjustCommandLine`. -/
def ToolchainInfo.adjustCommandLine : ToolchainInfo → List Str → List Str
  | Clang info, commandLine => info.adjustCommandLine commandLine
  | Gcc info, commandLine =>
      info.cleaner.clean commandLine ++
        ["-resource-dir".toList, info.installDir,
          "-I".toList ++ info.installDir ++ "/include-fixed".toList]
  | Nvcc info, commandLine =>
      let cleaned := info.cleaner.clean commandLine
      let adjusted :=
        match info.clangInfo with
        | some clangInfo => clangInfo.adjustCommandLine cleaned
        | none => cleaned
      adjusted ++ ["-isystem".toList ++ info.cudaDir.value ++ separator :: "include".toList]

/-! ## The parser -/

/-- What `adjustCommandLine` asks of its surroundings. -/
structure ToolchainEnv where
  /-- `boost::process::search_path`; empty if the program is not on `PATH`. -/
  searchPath : Str → Str
  /-- `ToolchainInfo::infer`. -/
  infer : AbsolutePath → Option ToolchainInfo
  /-- `std::filesystem::exists`. -/
  exists_ : Str → Bool

/-- What a `ResumableParser` remembers of toolchains. -/
structure ToolchainParser where
  toolchainInfoMap : AList (fun _ : Str => Option ToolchainInfo) := ∅
  emittedErrors : List Str := []

/-- The error for a compiler that is not on `PATH`. -/
def notOnPathError (compilerOrWrapperPath : Str) : Str :=
  "scip-clang needs to be invoke '".toList ++ compilerOrWrapperPath ++
    "' (found via the compilation database) to determine the resource directory, but ".toList ++
    "couldn't find '".toList ++ compilerOrWrapperPath ++
    "' on PATH. Hint: Use a modified PATH to invoke scip-clang, or change the ".toList ++
    "compilation database to use absolute paths for the compiler.".toList

/-- `compilerInvocationPath` in `adjustCommandLine`; empty if it cannot be determined. -/
def compilerInvocationPath (searchPath : Str → Str) (directoryPath compilerOrWrapperPath : Str) :
    Str :=
  if separator ∉ compilerOrWrapperPath then searchPath compilerOrWrapperPath
  else if isAbsolute compilerOrWrapperPath = false then
    if isAbsolute directoryPath then joinPath directoryPath compilerOrWrapperPath else []
  else compilerOrWrapperPath

namespace ToolchainParser

/-- `ResumableParser::emitError`. -/
def emitError (parser : ToolchainParser) (error : Str) : ToolchainParser :=
  { parser with emittedErrors := parser.emittedErrors.insert error }

/-- The lambda `fail` of `adjustCommandLine`. -/
def fail (parser : ToolchainParser) (compilerOrWrapperPath : Str) : ToolchainParser :=
  { parser with toolchainInfoMap := parser.toolchainInfoMap.insert compilerOrWrapperPath none }

variable (env : ToolchainEnv)

/-- `ResumableParser::adjustCommandLine`; there are no calls for empty command lines. -/
def adjustCommandLine (parser : ToolchainParser) (directoryPath : Str) :
    List Str → ToolchainParser × List Str
  | [] => (parser, [])
  | compilerOrWrapperPath :: args =>
      let commandLine := compilerOrWrapperPath :: args
      match parser.toolchainInfoMap.lookup compilerOrWrapperPath with
      | some (some toolchain) => (parser, toolchain.adjustCommandLine commandLine)
      | some none => (parser, commandLine)
      | none =>
          let invocationPath :=
            compilerInvocationPath env.searchPath directoryPath compilerOrWrapperPath
          if invocationPath = [] then
            let parser :=
              if separator ∉ compilerOrWrapperPath then
                parser.emitError (notOnPathError compilerOrWrapperPath)
              else parser
            (parser.fail compilerOrWrapperPath, commandLine)
          else
            match env.infer ⟨invocationPath⟩ with
            | some toolchain =>
                if toolchain.isWellFormed env.exists_ then
                  ({ parser with toolchainInfoMap :=
                      parser.toolchainInfoMap.insert compilerOrWrapperPath (some toolchain) },
                    toolchain.adjustCommandLine commandLine)
                else (parser.fail compilerOrWrapperPath, commandLine)
            | none => (parser.fail compilerOrWrapperPath, commandLine)

/-- The calls of `adjustCommandLine` for commands, each with its directory. -/
def adjustCommandLines (parser : ToolchainParser) :
    List (Str × List Str) → ToolchainParser × List (List Str)
  | [] => (parser, [])
  | command :: commands =>
      let (parser, adjusted) := parser.adjustCommandLine env command.1 command.2
      let (parser, others) := parser.adjustCommandLines commands
      (parser, adjusted :: others)

/-! ## What is remembered -/

/-- The toolchain of a compiler, resolved against a directory. -/
def toolchainOf (directoryPath compilerOrWrapperPath : Str) : Option ToolchainInfo :=
  let invocationPath := compilerInvocationPath env.searchPath directoryPath compilerOrWrapperPath
  if invocationPath = [] then none
  else (env.infer ⟨invocationPath⟩).filter (·.isWellFormed env.exists_)

/-- A command line adjusted for a toolchain, if there is one. -/
def adjustFor (toolchain : Option ToolchainInfo) (commandLine : List Str) : List Str :=
  toolchain.elim commandLine (·.adjustCommandLine commandLine)

variable {env}

/-- A toolchain becomes known. -/
theorem lookup_insert_or {parser : ToolchainParser} {compiler : Str}
    (hnew : parser.toolchainInfoMap.lookup compiler = none) (toolchain : Option ToolchainInfo)
    (other : Str) :
    (parser.toolchainInfoMap.insert compiler toolchain).lookup other =
      (parser.toolchainInfoMap.lookup other).or
        (if other = compiler then some toolchain else none) := by
  by_cases h : other = compiler
  · subst h
    rw [AList.lookup_insert, hnew, if_pos rfl, Option.none_or]
  · rw [AList.lookup_insert_ne h, if_neg h, Option.or_none]

/-- One call: the toolchain that is remembered, or else that of the command, is used, and it is
remembered from then on. -/
theorem adjustCommandLine_cons (parser : ToolchainParser) (directoryPath compiler : Str)
    (args : List Str) :
    (parser.adjustCommandLine env directoryPath (compiler :: args)).2 =
        adjustFor ((parser.toolchainInfoMap.lookup compiler).getD
          (toolchainOf env directoryPath compiler)) (compiler :: args) ∧
      ∀ other, (parser.adjustCommandLine env directoryPath
          (compiler :: args)).1.toolchainInfoMap.lookup other =
        (parser.toolchainInfoMap.lookup other).or
          (if other = compiler then some (toolchainOf env directoryPath compiler) else none) := by
  simp only [adjustCommandLine]
  cases hlookup : parser.toolchainInfoMap.lookup compiler with
  | some toolchain =>
      have hkept : ∀ other, parser.toolchainInfoMap.lookup other =
          (parser.toolchainInfoMap.lookup other).or
            (if other = compiler then some (toolchainOf env directoryPath compiler) else none) := by
        intro other
        by_cases h : other = compiler
        · rw [h, hlookup, Option.some_or]
        · rw [if_neg h, Option.or_none]
      cases toolchain with
      | some toolchain => exact ⟨rfl, hkept⟩
      | none => exact ⟨rfl, hkept⟩
  | none =>
      dsimp only
      by_cases hpath : compilerInvocationPath env.searchPath directoryPath compiler = []
      · have hnone : toolchainOf env directoryPath compiler = none := if_pos hpath
        rw [if_pos hpath, hnone]
        refine ⟨rfl, fun other => ?_⟩
        split <;> exact lookup_insert_or hlookup none other
      · have htoolchain : toolchainOf env directoryPath compiler =
            (env.infer ⟨compilerInvocationPath env.searchPath directoryPath compiler⟩).filter
              (·.isWellFormed env.exists_) := if_neg hpath
        rw [if_neg hpath, htoolchain]
        cases env.infer ⟨compilerInvocationPath env.searchPath directoryPath compiler⟩ with
        | none => exact ⟨rfl, lookup_insert_or hlookup none⟩
        | some toolchain =>
            cases hwell : toolchain.isWellFormed env.exists_ with
            | true =>
                simp only [if_true, Option.filter_some, hwell]
                exact ⟨rfl, lookup_insert_or hlookup (some toolchain)⟩
            | false =>
                simp only [Bool.false_eq_true, if_false, Option.filter_some, hwell]
                exact ⟨rfl, lookup_insert_or hlookup none⟩

/-- The first command with this compiler. -/
def firstWith (compiler : Str) (commands : List (Str × List Str)) : Option (Str × List Str) :=
  commands.find? fun command => command.2.head? = some compiler

/-- After some calls the toolchain of the first command with a compiler is remembered. -/
def RemembersFirst (env : ToolchainEnv) (parser : ToolchainParser)
    (commands : List (Str × List Str)) : Prop :=
  ∀ compiler, parser.toolchainInfoMap.lookup compiler =
    (firstWith compiler commands).map fun command => toolchainOf env command.1 compiler

theorem RemembersFirst.step {parser : ToolchainParser} {commands : List (Str × List Str)}
    (h : RemembersFirst env parser commands) (command : Str × List Str) :
    RemembersFirst env (parser.adjustCommandLine env command.1 command.2).1
      (commands ++ [command]) := by
  intro compiler
  obtain ⟨directoryPath, commandLine⟩ := command
  rw [firstWith, List.find?_append, ← firstWith, Option.map_or, ← h compiler]
  cases commandLine with
  | nil =>
      have hnone : [(directoryPath, ([] : List Str))].find?
          (fun command => command.2.head? = some compiler) = none := by
        simp
      rw [hnone, Option.map_none, Option.or_none]
      rfl
  | cons first args =>
      rw [(adjustCommandLine_cons parser directoryPath first args).2 compiler]
      by_cases hcompiler : compiler = first
      · subst hcompiler
        simp
      · simp [hcompiler, Ne.symm hcompiler]

theorem RemembersFirst.run {parser : ToolchainParser} {commands : List (Str × List Str)}
    (h : RemembersFirst env parser commands) (more : List (Str × List Str)) :
    RemembersFirst env (parser.adjustCommandLines env more).1 (commands ++ more) := by
  induction more generalizing parser commands with
  | nil => rwa [List.append_nil]
  | cons command more ih =>
      have hrun := ih (h.step command)
      rwa [List.append_assoc, List.singleton_append] at hrun

theorem remembersFirst_empty : RemembersFirst env {} [] := fun _ => rfl

/-! ## When the cache is transparent -/

/-- Every command line is adjusted as by a parser that remembers nothing. -/
def Transparent (env : ToolchainEnv) (commands : List (Str × List Str)) : Prop :=
  (adjustCommandLines env {} commands).2 =
    commands.map fun command => (adjustCommandLine env {} command.1 command.2).2

/-- Compilers that are written the same are resolved to the same path. -/
def SameCompilerSamePath (searchPath : Str → Str) (commands : List (Str × List Str)) : Prop :=
  ∀ command ∈ commands, ∀ other ∈ commands, ∀ compiler,
    command.2.head? = some compiler → other.2.head? = some compiler →
      compilerInvocationPath searchPath command.1 compiler =
        compilerInvocationPath searchPath other.1 compiler

theorem mem_of_firstWith {compiler : Str} {commands : List (Str × List Str)}
    {first : Str × List Str} (h : firstWith compiler commands = some first) :
    first ∈ commands ∧ first.2.head? = some compiler := by
  refine ⟨List.mem_of_find?_eq_some h, ?_⟩
  simpa using List.find?_some h

theorem toolchainOf_congr {directoryPath other compiler : Str}
    (h : compilerInvocationPath env.searchPath directoryPath compiler =
      compilerInvocationPath env.searchPath other compiler) :
    toolchainOf env directoryPath compiler = toolchainOf env other compiler := by
  rw [toolchainOf, toolchainOf, h]

/-- A call after others, when their compilers are resolved to the same path. -/
theorem RemembersFirst.adjustCommandLine_eq {parser : ToolchainParser}
    {commands : List (Str × List Str)} (h : RemembersFirst env parser commands)
    {command : Str × List Str} (hsame : ∀ other ∈ commands, ∀ compiler,
      other.2.head? = some compiler → command.2.head? = some compiler →
        compilerInvocationPath env.searchPath other.1 compiler =
          compilerInvocationPath env.searchPath command.1 compiler) :
    (parser.adjustCommandLine env command.1 command.2).2 =
      (adjustCommandLine env {} command.1 command.2).2 := by
  obtain ⟨directoryPath, commandLine⟩ := command
  cases commandLine with
  | nil => rfl
  | cons compiler args =>
      rw [(adjustCommandLine_cons parser directoryPath compiler args).1,
        (adjustCommandLine_cons {} directoryPath compiler args).1, h compiler]
      cases hfirst : firstWith compiler commands with
      | none => rfl
      | some first =>
          obtain ⟨hmem, hhead⟩ := mem_of_firstWith hfirst
          rw [Option.map_some, Option.getD_some,
            toolchainOf_congr (hsame first hmem compiler hhead rfl)]
          rfl

theorem RemembersFirst.adjustCommandLines_eq {parser : ToolchainParser}
    {commands more : List (Str × List Str)} (h : RemembersFirst env parser commands)
    (hsame : SameCompilerSamePath env.searchPath (commands ++ more)) :
    (parser.adjustCommandLines env more).2 =
      more.map fun command => (adjustCommandLine env {} command.1 command.2).2 := by
  induction more generalizing parser commands with
  | nil => rfl
  | cons command more ih =>
      have hcommand : (parser.adjustCommandLine env command.1 command.2).2 =
          (adjustCommandLine env {} command.1 command.2).2 :=
        h.adjustCommandLine_eq fun other hother compiler hhead hhead' =>
          hsame other (List.mem_append_left _ hother) command (by simp) compiler hhead hhead'
      have hmore := ih (h.step command) (by simpa using hsame)
      rw [adjustCommandLines, List.map_cons, ← hcommand, ← hmore]

theorem adjustCommandLines_append (parser : ToolchainParser)
    (commands more : List (Str × List Str)) :
    (parser.adjustCommandLines env (commands ++ more)).2 =
      (parser.adjustCommandLines env commands).2 ++
        ((parser.adjustCommandLines env commands).1.adjustCommandLines env more).2 := by
  induction commands generalizing parser with
  | nil => rfl
  | cons command commands ih =>
      simp only [List.cons_append, adjustCommandLines, ih]

theorem length_adjustCommandLines (parser : ToolchainParser)
    (commands : List (Str × List Str)) :
    (parser.adjustCommandLines env commands).2.length = commands.length := by
  induction commands generalizing parser with
  | nil => rfl
  | cons command commands ih => simp only [adjustCommandLines, List.length_cons, ih]

/-- In a transparent run a command is adjusted for the toolchain of the first one with the same
compiler, and for its own. -/
theorem Transparent.adjustFor_eq {before after : List (Str × List Str)}
    {directoryPath compiler : Str} {args : List Str} {first : Str × List Str}
    (h : Transparent env (before ++ (directoryPath, compiler :: args) :: after))
    (hfirst : firstWith compiler before = some first) :
    adjustFor (toolchainOf env first.1 compiler) (compiler :: args) =
      adjustFor (toolchainOf env directoryPath compiler) (compiler :: args) := by
  rw [Transparent, adjustCommandLines_append, List.map_append, List.map_cons] at h
  have hrest := (List.append_inj h (by rw [length_adjustCommandLines, List.length_map])).2
  rw [adjustCommandLines] at hrest
  have hcommand := (List.cons.inj hrest).1
  have hremembers : (adjustCommandLines env {} before).1.toolchainInfoMap.lookup compiler =
      (firstWith compiler before).map fun command => toolchainOf env command.1 compiler :=
    remembersFirst_empty.run before compiler
  rw [hfirst, Option.map_some] at hremembers
  rwa [(adjustCommandLine_cons _ directoryPath compiler args).1,
    (adjustCommandLine_cons {} directoryPath compiler args).1, hremembers,
    Option.getD_some] at hcommand

/-- A toolchain that replaces the compiler by another one. -/
def replacing (compiler : Str) : ToolchainInfo :=
  .Clang ⟨[], separator :: compiler, ⟨∅, none⟩⟩

theorem adjustFor_replacing_ne (compiler : Str) (args : List Str) :
    adjustFor (some (replacing compiler)) (compiler :: args) ≠
      adjustFor none (compiler :: args) := by
  have hclean : ∀ commandLine, CommandLineCleaner.clean ⟨∅, none⟩ commandLine = commandLine := by
    intro commandLine
    refine zap_eq_self fun arg _ => ?_
    unfold CommandLineCleaner.check
    split
    · rfl
    · simp [AList.lookup_empty]
  intro hsame
  have hhead := congrArg List.head? hsame
  simp [adjustFor, replacing, ToolchainInfo.adjustCommandLine,
    ClangToolchainInfo.adjustCommandLine, hclean] at hhead

/-- Different paths can have different toolchains. -/
theorem exists_toolchainOf_eq {searchPath : Str → Str} {directoryPath other compiler : Str}
    (hpath : compilerInvocationPath searchPath directoryPath compiler ≠ [])
    (hne : compilerInvocationPath searchPath other compiler ≠
      compilerInvocationPath searchPath directoryPath compiler) (toolchain : ToolchainInfo) :
    ∃ infer exists_, toolchainOf ⟨searchPath, infer, exists_⟩ directoryPath compiler =
        some toolchain ∧ toolchainOf ⟨searchPath, infer, exists_⟩ other compiler = none := by
  have hwell : toolchain.isWellFormed (fun _ => true) = true := by
    cases toolchain <;> rfl
  refine ⟨fun path =>
    if path.value = compilerInvocationPath searchPath directoryPath compiler then some toolchain
    else none, fun _ => true, ?_, ?_⟩
  · simp [toolchainOf, hpath, hwell]
  · simp [toolchainOf, hne]

/-- If the runs are transparent for all toolchains, then the first command with a compiler has
the same path for it as the others. -/
theorem path_eq_of_transparent {searchPath : Str → Str} {before after : List (Str × List Str)}
    {directoryPath compiler : Str} {args : List Str} {first : Str × List Str}
    (h : ∀ infer exists_, Transparent ⟨searchPath, infer, exists_⟩
      (before ++ (directoryPath, compiler :: args) :: after))
    (hfirst : firstWith compiler before = some first) :
    compilerInvocationPath searchPath first.1 compiler =
      compilerInvocationPath searchPath directoryPath compiler := by
  by_contra hne
  have hreplacing := adjustFor_replacing_ne compiler args
  by_cases hpath : compilerInvocationPath searchPath directoryPath compiler = []
  · rw [hpath] at hne
    obtain ⟨infer, exists_, hown, hother⟩ := exists_toolchainOf_eq hne
      (by rw [hpath]; exact Ne.symm hne) (replacing compiler)
    have hsame := (h infer exists_).adjustFor_eq hfirst
    rw [hown, hother] at hsame
    exact hreplacing hsame
  · obtain ⟨infer, exists_, hown, hother⟩ := exists_toolchainOf_eq hpath hne (replacing compiler)
    have hsame := (h infer exists_).adjustFor_eq hfirst
    rw [hown, hother] at hsame
    exact hreplacing hsame.symm

/-- **The cache is transparent for all toolchains** if and only if compilers that are written
the same are resolved to the same path. -/
theorem adjustCommandLines_transparent_iff (searchPath : Str → Str)
    (commands : List (Str × List Str)) :
    (∀ infer exists_, Transparent ⟨searchPath, infer, exists_⟩ commands) ↔
      SameCompilerSamePath searchPath commands := by
  constructor
  · intro h
    have hfirst : ∀ command ∈ commands, ∀ compiler, command.2.head? = some compiler →
        (firstWith compiler commands).map (compilerInvocationPath searchPath ·.1 compiler) =
          some (compilerInvocationPath searchPath command.1 compiler) := by
      rintro ⟨directoryPath, commandLine⟩ hmem compiler hhead
      obtain ⟨args, rfl⟩ := List.head?_eq_some_iff.mp hhead
      obtain ⟨before, after, rfl⟩ := List.append_of_mem hmem
      rw [firstWith, List.find?_append, ← firstWith]
      cases hfound : firstWith compiler before with
      | none => simp
      | some first =>
          rw [Option.some_or, Option.map_some, path_eq_of_transparent h hfound]
    intro command hmem other hother compiler hhead hhead'
    exact Option.some.inj
      ((hfirst command hmem compiler hhead).symm.trans (hfirst other hother compiler hhead'))
  · intro hsame infer exists_
    exact remembersFirst_empty.adjustCommandLines_eq hsame

/-- Two commands with the compiler `bin/cc`, in different directories; only the second compiler
exists. -/
def relativeCompilers : List (Str × List Str) :=
  [("/a".toList, ["bin/cc".toList, "x.c".toList]), ("/b".toList, ["bin/cc".toList, "y.c".toList])]

/-- The failure for `/a/bin/cc` is remembered and `/b/bin/cc` is not adjusted. -/
theorem relativeCompilers_mixed_up :
    let env : ToolchainEnv :=
      { searchPath := fun _ => []
        infer := fun path =>
          if path.value = "/b/bin/cc".toList then
            some (.Clang ⟨"/b/lib".toList, "/b/bin/clang".toList, CommandLineCleaner.forClangOrGcc⟩)
          else none
        exists_ := fun _ => true }
    (adjustCommandLines env {} relativeCompilers).2 =
        [["bin/cc".toList, "x.c".toList], ["bin/cc".toList, "y.c".toList]] ∧
      (adjustCommandLine env {} "/b".toList ["bin/cc".toList, "y.c".toList]).2 =
        ["/b/bin/clang".toList, "y.c".toList, "-resource-dir".toList, "/b/lib".toList] ∧
      ¬ Transparent env relativeCompilers := by
  refine ⟨by decide +kernel, by decide +kernel, ?_⟩
  unfold Transparent
  decide +kernel

end ToolchainParser

end Compdb

end ScipClang
