import ScipClang.Path

/-!
# The compilation database and its resumable parser

`compdb::ResumableParser::parseMore` (`indexer/CompilationDatabase.cc`) delivers
the command objects of a database in chunks.  This module models it from the
point where the JSON reader has delivered the command objects: the parser state
is the list of objects the reader has not reached yet, the running index, and
the two skip counters.

The extension filter, the existence check and the toolchain adjustment of a
command line are the parameters of `ParserEnv`: each is asked once per command,
so whatever the process state behind it is, it is a function of the (numbered)
command.

## Main results

* `ResumableParser.yields`: the commands that the parser still has to deliver.
* `yields_parseMore`: one call delivers a prefix of `yields` and leaves the rest.
* `parseMore_eq_nil`: with a positive chunk size, a call that delivers nothing
  leaves nothing to deliver.
-/

namespace ScipClang

/-- `compdb::CommandObject`. -/
structure CommandObject where
  /-- Position in the database; poisoned until `parseMore` assigns it. -/
  index : Nat := 8080808080
  workingDirectory : Str := []
  filePath : Str := []
  arguments : List Str := []
deriving DecidableEq

/-- The command objects of a valid compilation database.  The reader counts them in 32
bits (`rapidjson::SizeType`), so that task ids can correspond one to one with them. -/
structure CompilationDatabase where
  commands : List CommandObject
  length_lt : commands.length < 2 ^ 32

/-- `compdb::ParseOptions`. -/
structure ParseOptions where
  refillCount : Nat
  adjustCommandLine : Bool
  skipNonMainFileEntries : Bool
  checkFilesExist : Bool

namespace ParseOptions

/-- `ParseOptions::create`. -/
def create (refillCount : Nat) (forTesting : Bool) : ParseOptions where
  refillCount := refillCount
  adjustCommandLine := !forTesting
  skipNonMainFileEntries := !forTesting
  checkFilesExist := !forTesting

end ParseOptions

/-- `compdb::ParseStats`. -/
structure ParseStats where
  skippedNonTuFileExtension : Nat := 0
  skippedNonExistentTuFile : Nat := 0
deriving DecidableEq

/-- How many commands have been skipped. -/
def ParseStats.skipped (stats : ParseStats) : Nat :=
  stats.skippedNonTuFileExtension + stats.skippedNonExistentTuFile

/-- What `parseMore` asks of its surroundings. -/
structure ParserEnv where
  /-- `fileExtensionRegex.match`. -/
  fileExtensionMatches : Str → Bool
  /-- `llvm::sys::fs::exists`. -/
  exists_ : Str → Bool
  /-- The command line that `adjustCommandLine` leaves for a command. -/
  adjustedArguments : CommandObject → List Str

/-- The reader position and counters of a `compdb::ResumableParser`. -/
structure ResumableParser where
  /-- Command objects that the reader has not reached yet. -/
  unread : List CommandObject
  currentIndex : Nat := 0
  stats : ParseStats := {}
deriving DecidableEq

namespace ResumableParser

variable (env : ParserEnv) (options : ParseOptions)

/-- The lambda `doesFileExist` of `parseMore`. -/
def doesFileExist (path base : Str) : Bool :=
  if isAbsolute path then env.exists_ path
  else env.exists_ (base ++ separator :: path)

/-- The command passes the filters that the options switch on. -/
def keeps (cmd : CommandObject) : Bool :=
  (!options.skipNonMainFileEntries || env.fileExtensionMatches cmd.filePath) &&
    (!options.checkFilesExist || doesFileExist env cmd.filePath cmd.workingDirectory)

/-- The body of the `for` loop of `parseMore`: number the command, then skip it
or append it to the output. -/
def acceptCommand (st : ResumableParser × List CommandObject) (cmd : CommandObject) :
    ResumableParser × List CommandObject :=
  let parser := st.1
  let cmd := { cmd with index := parser.currentIndex }
  let parser := { parser with currentIndex := parser.currentIndex + 1 }
  if options.skipNonMainFileEntries && !env.fileExtensionMatches cmd.filePath then
    ({ parser with stats := { parser.stats with
        skippedNonTuFileExtension := parser.stats.skippedNonTuFileExtension + 1 } }, st.2)
  else if options.checkFilesExist &&
      !doesFileExist env cmd.filePath cmd.workingDirectory then
    ({ parser with stats := { parser.stats with
        skippedNonExistentTuFile := parser.stats.skippedNonExistentTuFile + 1 } }, st.2)
  else
    (parser, st.2 ++ [cmd])

/-- The outer loop of `parseMore`: read up to `refillCount` objects, filter them,
and go on as long as nothing has been kept.  The fuel bounds the number of
chunks, of which there are at most as many as unread objects. -/
def parseChunks : Nat → ResumableParser → ResumableParser × List CommandObject
  | 0, parser => (parser, [])
  | fuel + 1, parser =>
      let commands := parser.unread.take options.refillCount
      if commands = [] then
        (parser, [])
      else
        let rest := parser.unread.drop options.refillCount
        let st := commands.foldl (acceptCommand env options)
          ({ parser with unread := rest }, [])
        if st.2 = [] then parseChunks fuel st.1 else st

/-- The last loop of `parseMore`. -/
def adjust (cmd : CommandObject) : CommandObject :=
  if options.adjustCommandLine ∧ cmd.arguments ≠ [] then
    { cmd with arguments := env.adjustedArguments cmd }
  else
    cmd

/-- `ResumableParser::parseMore` on an empty output vector. -/
def parseMore (parser : ResumableParser) : ResumableParser × List CommandObject :=
  let st := parseChunks env options parser.unread.length parser
  (st.1, st.2.map (adjust env options))

/-! ## What the parser has left to deliver -/

/-- The commands of `cmds` that pass the filters, numbered from `start`. -/
def keptFrom (start : Nat) : List CommandObject → List CommandObject
  | [] => []
  | cmd :: cmds =>
      let numbered := { cmd with index := start }
      if keeps env options numbered then
        numbered :: keptFrom (start + 1) cmds
      else
        keptFrom (start + 1) cmds

/-- The commands that the parser has yet to deliver, in order. -/
def yields (parser : ResumableParser) : List CommandObject :=
  (keptFrom env options parser.currentIndex parser.unread).map (adjust env options)

theorem keptFrom_append (start : Nat) (xs ys : List CommandObject) :
    keptFrom env options start (xs ++ ys) =
      keptFrom env options start xs ++ keptFrom env options (start + xs.length) ys := by
  induction xs generalizing start with
  | nil => simp [keptFrom]
  | cons x xs ih =>
      have hlen : start + 1 + xs.length = start + (xs.length + 1) := by omega
      by_cases hkeep : keeps env options { x with index := start }
      · simp [keptFrom, hkeep, ih, hlen]
      · simp [keptFrom, hkeep, ih, hlen]

/-- One command: the running index moves on by one and the command is appended
exactly if it passes the filters. -/
theorem acceptCommand_spec (st : ResumableParser × List CommandObject)
    (cmd : CommandObject) :
    (acceptCommand env options st cmd).1.unread = st.1.unread ∧
      (acceptCommand env options st cmd).1.currentIndex = st.1.currentIndex + 1 ∧
      (acceptCommand env options st cmd).2 =
        st.2 ++ keptFrom env options st.1.currentIndex [cmd] := by
  unfold acceptCommand
  by_cases hext : options.skipNonMainFileEntries && !env.fileExtensionMatches cmd.filePath
  · have hkeep : keeps env options { cmd with index := st.1.currentIndex } = false := by
      simp_all [keeps]
    simp [hext, keptFrom, hkeep]
  · by_cases hex : options.checkFilesExist &&
        !doesFileExist env cmd.filePath cmd.workingDirectory
    · have hkeep : keeps env options { cmd with index := st.1.currentIndex } = false := by
        simp_all [keeps]
      simp [hext, hex, keptFrom, hkeep]
    · have hkeep : keeps env options { cmd with index := st.1.currentIndex } = true := by
        cases hskip : options.skipNonMainFileEntries <;>
          cases hcheck : options.checkFilesExist <;> simp_all [keeps]
      simp [hext, hex, keptFrom, hkeep]

/-- A whole chunk. -/
theorem foldl_acceptCommand_spec (cmds : List CommandObject) :
    ∀ st : ResumableParser × List CommandObject,
      (cmds.foldl (acceptCommand env options) st).1.unread = st.1.unread ∧
      (cmds.foldl (acceptCommand env options) st).1.currentIndex =
        st.1.currentIndex + cmds.length ∧
      (cmds.foldl (acceptCommand env options) st).2 =
        st.2 ++ keptFrom env options st.1.currentIndex cmds := by
  induction cmds with
  | nil => intro st; simp [keptFrom]
  | cons cmd cmds ih =>
      intro st
      obtain ⟨hunread, hindex, hout⟩ := acceptCommand_spec env options st cmd
      obtain ⟨ihunread, ihindex, ihout⟩ := ih (acceptCommand env options st cmd)
      have hcons : keptFrom env options st.1.currentIndex (cmd :: cmds) =
          keptFrom env options st.1.currentIndex [cmd] ++
            keptFrom env options (st.1.currentIndex + 1) cmds :=
        keptFrom_append env options st.1.currentIndex [cmd] cmds
      refine ⟨ihunread.trans hunread, ?_, ?_⟩
      · rw [List.foldl_cons, ihindex, hindex, List.length_cons]
        omega
      · rw [List.foldl_cons, ihout, hout, hindex, hcons, List.append_assoc]

/-- The loop over a chunk does not look at the objects that are left. -/
theorem foldl_acceptCommand_unread (cmds unread : List CommandObject) :
    ∀ st : ResumableParser × List CommandObject,
      cmds.foldl (acceptCommand env options) ({ st.1 with unread := unread }, st.2) =
        ({ (cmds.foldl (acceptCommand env options) st).1 with unread := unread },
          (cmds.foldl (acceptCommand env options) st).2) := by
  induction cmds with
  | nil => intro st; rfl
  | cons cmd cmds ih =>
      intro st
      have hstep : acceptCommand env options ({ st.1 with unread := unread }, st.2) cmd =
          ({ (acceptCommand env options st cmd).1 with unread := unread },
            (acceptCommand env options st cmd).2) := by
        unfold acceptCommand
        dsimp only
        split
        · rfl
        · split <;> rfl
      rw [List.foldl_cons, hstep, ih, List.foldl_cons]

/-- Numbers of kept commands lie in the range that the objects occupy. -/
theorem index_of_mem_keptFrom (cmds : List CommandObject) :
    ∀ (start : Nat) (cmd : CommandObject), cmd ∈ keptFrom env options start cmds →
      start ≤ cmd.index ∧ cmd.index < start + cmds.length := by
  induction cmds with
  | nil => intro start cmd hmem; simp [keptFrom] at hmem
  | cons c cmds ih =>
      intro start cmd hmem
      have hstep : cmd.index = start ∨ cmd ∈ keptFrom env options (start + 1) cmds := by
        by_cases hkeep : keeps env options { c with index := start }
        · simp only [keptFrom, hkeep, if_true, List.mem_cons] at hmem
          rcases hmem with rfl | hmem
          · exact Or.inl rfl
          · exact Or.inr hmem
        · simp only [keptFrom, hkeep] at hmem
          exact Or.inr hmem
      rcases hstep with hindex | hmem
      · simp only [List.length_cons]
        omega
      · obtain ⟨hlow, hhigh⟩ := ih (start + 1) cmd hmem
        simp only [List.length_cons]
        omega

/-- Kept commands have pairwise distinct numbers. -/
theorem pairwise_index_keptFrom (cmds : List CommandObject) :
    ∀ start : Nat,
      (keptFrom env options start cmds).Pairwise fun c d => c.index < d.index := by
  induction cmds with
  | nil => intro start; simp [keptFrom]
  | cons c cmds ih =>
      intro start
      by_cases hkeep : keeps env options { c with index := start }
      · simp only [keptFrom, hkeep, if_true, List.pairwise_cons]
        refine ⟨fun d hd => ?_, ih (start + 1)⟩
        have hlow := (index_of_mem_keptFrom env options cmds (start + 1) d hd).1
        show start < d.index
        omega
      · simp only [keptFrom, hkeep]
        exact ih (start + 1)

/-- One round of the chunk loop. -/
def takeChunk (parser : ResumableParser) : ResumableParser × List CommandObject :=
  (parser.unread.take options.refillCount).foldl (acceptCommand env options)
    ({ parser with unread := parser.unread.drop options.refillCount }, [])

/-- A chunk of which nothing is kept is followed by the next one. -/
theorem parseChunks_succ (fuel : Nat) (parser : ResumableParser) :
    parseChunks env options (fuel + 1) parser =
      if parser.unread.take options.refillCount = [] then (parser, [])
      else if (takeChunk env options parser).2 = [] then
        parseChunks env options fuel (takeChunk env options parser).1
      else takeChunk env options parser :=
  rfl

theorem takeChunk_spec (parser : ResumableParser) :
    (takeChunk env options parser).1.unread = parser.unread.drop options.refillCount ∧
      (takeChunk env options parser).1.currentIndex =
        parser.currentIndex + (parser.unread.take options.refillCount).length ∧
      (takeChunk env options parser).2 =
        keptFrom env options parser.currentIndex (parser.unread.take options.refillCount) := by
  obtain ⟨hunread, hindex, hout⟩ := foldl_acceptCommand_spec env options
    (parser.unread.take options.refillCount)
    ({ parser with unread := parser.unread.drop options.refillCount }, [])
  exact ⟨hunread, hindex, hout.trans (List.nil_append _)⟩

/-- What a run of the chunk loop does: it takes objects off the front, advances
the index by as many, and its output is what they keep.  If there was fuel for
every object and the chunk size is positive, an empty output means that nothing
is left to keep. -/
theorem parseChunks_spec (fuel : Nat) :
    ∀ parser : ResumableParser, ∃ taken : List CommandObject,
      parser.unread = taken ++ (parseChunks env options fuel parser).1.unread ∧
      (parseChunks env options fuel parser).1.currentIndex =
        parser.currentIndex + taken.length ∧
      (parseChunks env options fuel parser).2 =
        keptFrom env options parser.currentIndex taken ∧
      (0 < options.refillCount → parser.unread.length ≤ fuel →
        (parseChunks env options fuel parser).2 = [] →
        (parseChunks env options fuel parser).1.unread = []) := by
  induction fuel with
  | zero =>
      intro parser
      refine ⟨[], by simp [parseChunks], by simp [parseChunks],
        by simp [parseChunks, keptFrom], ?_⟩
      intro _ hlen _
      simpa [parseChunks] using hlen
  | succ fuel ih =>
      intro parser
      rw [parseChunks_succ]
      by_cases hnil : parser.unread.take options.refillCount = []
      · rw [if_pos hnil]
        refine ⟨[], rfl, rfl, rfl, ?_⟩
        intro hpos _ _
        exact (List.take_eq_nil_iff.mp hnil).resolve_left (Nat.ne_of_gt hpos)
      · rw [if_neg hnil]
        obtain ⟨hunread, hindex, hout⟩ := takeChunk_spec env options parser
        have hsplit := List.take_append_drop options.refillCount parser.unread
        by_cases hempty : (takeChunk env options parser).2 = []
        · obtain ⟨taken, htaken, hidx, hkept, hfin⟩ := ih (takeChunk env options parser).1
          rw [if_pos hempty]
          refine ⟨parser.unread.take options.refillCount ++ taken, ?_, ?_, ?_, ?_⟩
          · rw [List.append_assoc, ← htaken, hunread, hsplit]
          · rw [hidx, hindex, List.length_append, ← Nat.add_assoc]
          · rw [hkept, keptFrom_append, ← hout, hempty, List.nil_append, hindex]
          · intro hpos hlen hnone
            refine hfin hpos ?_ hnone
            have hchunk := List.length_pos_iff.mpr hnil
            have hsum := congrArg List.length hsplit
            rw [List.length_append] at hsum
            rw [hunread]
            omega
        · rw [if_neg hempty]
          refine ⟨parser.unread.take options.refillCount, ?_, hindex, hout, ?_⟩
          · rw [hunread, hsplit]
          · intro _ _ hnone
            exact absurd hnone hempty

/-- **One call delivers a prefix of what was left and leaves the rest.** -/
theorem yields_parseMore (parser : ResumableParser) :
    yields env options parser =
      (parseMore env options parser).2 ++
        yields env options (parseMore env options parser).1 := by
  obtain ⟨taken, hunread, hindex, hout, -⟩ :=
    parseChunks_spec env options parser.unread.length parser
  simp only [yields, parseMore]
  rw [hout, hindex, ← List.map_append, ← keptFrom_append, ← hunread]

/-- A call that delivers nothing has read all objects. -/
theorem unread_parseMore_eq_nil (hpos : 0 < options.refillCount) {parser : ResumableParser}
    (hnone : (parseMore env options parser).2 = []) :
    (parseMore env options parser).1.unread = [] := by
  obtain ⟨_, -, -, -, hfin⟩ := parseChunks_spec env options parser.unread.length parser
  have hchunks : (parseChunks env options parser.unread.length parser).2 = [] := by
    simpa [parseMore] using hnone
  exact hfin hpos (Nat.le_refl _) hchunks

/-- **A call delivers nothing only when nothing is left**, provided that the
chunk size is positive. -/
theorem parseMore_eq_nil (hpos : 0 < options.refillCount) (parser : ResumableParser)
    (hnone : (parseMore env options parser).2 = []) :
    yields env options (parseMore env options parser).1 = [] := by
  simp [yields, unread_parseMore_eq_nil env options hpos hnone, keptFrom]

@[simp] theorem adjust_index (cmd : CommandObject) :
    (adjust env options cmd).index = cmd.index := by
  unfold adjust
  split <;> rfl

/-- Delivered commands are numbered within the range the call has read. -/
theorem index_of_mem_parseMore (parser : ResumableParser) (cmd : CommandObject)
    (hmem : cmd ∈ (parseMore env options parser).2) :
    parser.currentIndex ≤ cmd.index ∧
      cmd.index < (parseMore env options parser).1.currentIndex := by
  obtain ⟨taken, -, hindex, hout, -⟩ :=
    parseChunks_spec env options parser.unread.length parser
  simp only [parseMore, hout, List.mem_map] at hmem
  obtain ⟨c, hc, rfl⟩ := hmem
  have hrange := index_of_mem_keptFrom env options taken parser.currentIndex c hc
  simp only [parseMore, hindex, adjust_index]
  exact hrange

/-- The commands of one call have increasing numbers. -/
theorem pairwise_index_parseMore (parser : ResumableParser) :
    (parseMore env options parser).2.Pairwise fun c d => c.index < d.index := by
  obtain ⟨taken, -, -, hout, -⟩ :=
    parseChunks_spec env options parser.unread.length parser
  simp only [parseMore, hout, List.pairwise_map, adjust_index]
  exact pairwise_index_keptFrom env options taken parser.currentIndex

/-- The running index never exceeds the number of objects of the database. -/
theorem currentIndex_parseMore (parser : ResumableParser) :
    (parseMore env options parser).1.currentIndex +
        (parseMore env options parser).1.unread.length =
      parser.currentIndex + parser.unread.length := by
  obtain ⟨taken, hunread, hindex, -, -⟩ :=
    parseChunks_spec env options parser.unread.length parser
  have hlen := congrArg List.length hunread
  simp only [parseMore, hindex]
  rw [List.length_append] at hlen
  omega

/-! ## Successive calls -/

/-- The commands in order, each with its position as its index, without those that do not pass
the filters. -/
def keptCommands (commands : List CommandObject) : List CommandObject :=
  (commands.zipIdx.map fun (cmd, position) => { cmd with index := position }).filter
    (keeps env options)

theorem keptFrom_eq_filter (cmds : List CommandObject) (start : Nat) :
    keptFrom env options start cmds =
      ((cmds.zipIdx start).map fun (cmd, position) => { cmd with index := position }).filter
        (keeps env options) := by
  induction cmds generalizing start with
  | nil => rfl
  | cons cmd cmds ih =>
      rw [List.zipIdx_cons, List.map_cons, List.filter_cons, keptFrom, ih]

theorem length_keptFrom_le (cmds : List CommandObject) (start : Nat) :
    (keptFrom env options start cmds).length ≤ cmds.length := by
  rw [keptFrom_eq_filter]
  refine (List.length_filter_le _ _).trans ?_
  rw [List.length_map, List.length_zipIdx]

/-- A call delivers at most one chunk. -/
theorem length_parseChunks_le (fuel : Nat) (parser : ResumableParser) :
    (parseChunks env options fuel parser).2.length ≤ options.refillCount := by
  induction fuel generalizing parser with
  | zero => exact Nat.zero_le _
  | succ fuel ih =>
      rw [parseChunks_succ]
      split
      · exact Nat.zero_le _
      · split
        · exact ih _
        · rw [(takeChunk_spec env options parser).2.2]
          exact (length_keptFrom_le env options _ _).trans (List.length_take_le _ _)

/-- A command is skipped or appended. -/
theorem skipped_acceptCommand (st : ResumableParser × List CommandObject) (cmd : CommandObject) :
    (acceptCommand env options st cmd).1.stats.skipped +
        (acceptCommand env options st cmd).2.length =
      st.1.stats.skipped + st.2.length + 1 := by
  unfold acceptCommand ParseStats.skipped
  dsimp only
  split
  · dsimp only
    omega
  · split
    · dsimp only
      omega
    · rw [List.length_append]
      dsimp only [List.length_singleton]
      omega

theorem skipped_foldl_acceptCommand (cmds : List CommandObject)
    (st : ResumableParser × List CommandObject) :
    (cmds.foldl (acceptCommand env options) st).1.stats.skipped +
        (cmds.foldl (acceptCommand env options) st).2.length =
      st.1.stats.skipped + st.2.length + cmds.length := by
  induction cmds generalizing st with
  | nil => rfl
  | cons cmd cmds ih =>
      rw [List.foldl_cons, ih, skipped_acceptCommand, List.length_cons]
      omega

/-- What is read is delivered or skipped. -/
theorem skipped_parseChunks (fuel : Nat) (parser : ResumableParser) :
    (parseChunks env options fuel parser).1.stats.skipped +
        (parseChunks env options fuel parser).2.length + parser.currentIndex =
      parser.stats.skipped + (parseChunks env options fuel parser).1.currentIndex := by
  induction fuel generalizing parser with
  | zero => rfl
  | succ fuel ih =>
      rw [parseChunks_succ]
      split
      · rfl
      · have hindex := (takeChunk_spec env options parser).2.1
        have hskipped : (takeChunk env options parser).1.stats.skipped +
            (takeChunk env options parser).2.length =
              parser.stats.skipped + (parser.unread.take options.refillCount).length :=
          skipped_foldl_acceptCommand env options (parser.unread.take options.refillCount)
            ({ parser with unread := parser.unread.drop options.refillCount }, [])
        split
        · next hempty =>
          have hrest := ih (takeChunk env options parser).1
          rw [hempty, List.length_nil] at hskipped
          omega
        · omega

/-- The outputs of successive calls. -/
def parseTimes : Nat → ResumableParser → ResumableParser × List (List CommandObject)
  | 0, parser => (parser, [])
  | n + 1, parser =>
      let (parser, out) := parseMore env options parser
      let (parser, outs) := parseTimes n parser
      (parser, out :: outs)

theorem parseTimes_succ (n : Nat) (parser : ResumableParser) :
    parseTimes env options (n + 1) parser =
      ((parseTimes env options n (parseMore env options parser).1).1,
        (parseMore env options parser).2 ::
          (parseTimes env options n (parseMore env options parser).1).2) := rfl

theorem length_parseTimes (n : Nat) (parser : ResumableParser) :
    (parseTimes env options n parser).2.length = n := by
  induction n generalizing parser with
  | zero => rfl
  | succ n ih => rw [parseTimes_succ, List.length_cons, ih]

/-- The calls deliver what was left, in order. -/
theorem yields_parseTimes (n : Nat) (parser : ResumableParser) :
    yields env options parser = (parseTimes env options n parser).2.flatten ++
      yields env options (parseTimes env options n parser).1 := by
  induction n generalizing parser with
  | zero => rfl
  | succ n ih =>
      rw [parseTimes_succ, List.flatten_cons, List.append_assoc, ← ih]
      exact yields_parseMore env options parser

theorem length_le_of_mem_parseTimes (n : Nat) (parser : ResumableParser)
    {out : List CommandObject} (hout : out ∈ (parseTimes env options n parser).2) :
    out.length ≤ options.refillCount := by
  induction n generalizing parser with
  | zero => cases hout
  | succ n ih =>
      rw [parseTimes_succ] at hout
      rcases List.mem_cons.mp hout with rfl | hrest
      · rw [parseMore, List.length_map]
        exact length_parseChunks_le env options _ _
      · exact ih _ hrest

theorem skipped_parseTimes (n : Nat) (parser : ResumableParser) :
    (parseTimes env options n parser).1.stats.skipped +
        (parseTimes env options n parser).2.flatten.length + parser.currentIndex =
      parser.stats.skipped + (parseTimes env options n parser).1.currentIndex := by
  induction n generalizing parser with
  | zero => rfl
  | succ n ih =>
      have hcall := skipped_parseChunks env options parser.unread.length parser
      have hrest := ih (parseMore env options parser).1
      rw [parseTimes_succ, List.flatten_cons, List.length_append]
      simp only [parseMore, List.length_map] at hrest ⊢
      omega

theorem currentIndex_parseTimes (n : Nat) (parser : ResumableParser) :
    (parseTimes env options n parser).1.currentIndex +
        (parseTimes env options n parser).1.unread.length =
      parser.currentIndex + parser.unread.length := by
  induction n generalizing parser with
  | zero => rfl
  | succ n ih =>
      rw [parseTimes_succ, ih]
      exact currentIndex_parseMore env options parser

theorem unread_parseTimes_of_nil {n : Nat} {parser : ResumableParser}
    (h : parser.unread = []) : (parseTimes env options n parser).1.unread = [] := by
  induction n generalizing parser with
  | zero => exact h
  | succ n ih =>
      have hunread : (parseMore env options parser).1.unread = [] := by
        simp [parseMore, parseChunks, h]
      rw [parseTimes_succ]
      exact ih hunread

/-- Nothing is delivered only after everything has been. -/
theorem flatten_take_parseTimes (hpos : 0 < options.refillCount) {n k : Nat}
    {parser : ResumableParser} (hk : (parseTimes env options n parser).2[k]? = some []) :
    ((parseTimes env options n parser).2.take k).flatten = yields env options parser ∧
      (parseTimes env options n parser).1.unread = [] := by
  induction n generalizing parser k with
  | zero => cases hk
  | succ n ih =>
      rw [parseTimes_succ] at hk ⊢
      have hyields := yields_parseMore env options parser
      cases k with
      | zero =>
          have hnone : (parseMore env options parser).2 = [] := Option.some.inj hk
          have hunread := unread_parseMore_eq_nil env options hpos hnone
          refine ⟨?_, unread_parseTimes_of_nil env options hunread⟩
          rw [hyields, hnone, List.nil_append]
          simp [yields, hunread, keptFrom]
      | succ k =>
          obtain ⟨hflatten, hunread⟩ := ih hk
          refine ⟨?_, hunread⟩
          rw [List.take_succ_cons, List.flatten_cons, hflatten]
          exact hyields.symm

/-- More calls than commands deliver everything. -/
theorem nil_mem_parseTimes {n : Nat} {parser : ResumableParser}
    (hn : (yields env options parser).length < n) : [] ∈ (parseTimes env options n parser).2 := by
  by_contra hnot
  have hlength : ∀ outs : List (List CommandObject), [] ∉ outs →
      outs.length ≤ outs.flatten.length := by
    intro outs houts
    induction outs with
    | nil => exact Nat.le_refl _
    | cons out outs ih =>
        have hout : out ≠ [] := fun heq => houts (heq ▸ List.mem_cons_self)
        have hrest := ih fun hmem => houts (List.mem_cons_of_mem _ hmem)
        have hpos := List.length_pos_iff.mpr hout
        rw [List.length_cons, List.flatten_cons, List.length_append]
        omega
  have hle := hlength _ hnot
  have hyields := congrArg List.length (yields_parseTimes env options n parser)
  rw [List.length_append] at hyields
  rw [length_parseTimes] at hle
  omega

end ResumableParser

end ScipClang
