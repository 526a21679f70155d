import ScipClang.Compdb.Reader

/-!
# The commands of a compilation database

What the members of a command object say about its command, and that the parser delivers
exactly these commands, in chunks of any size, if every key is recognised and given once.

* `commandOf`: the command that the members describe.
* `objectEffect_eq_commandOf`: the handler builds that command, in whatever order the members
  stand.
-/

namespace ScipClang

open Json

namespace Compdb

/-- The keys of an object, as far as they are recognised. -/
def keys (members : List (Str × Json)) : List Key := members.map fun member => Key.ofText member.1

/-- The strings that are given for a key. -/
def valuesOf (key : Key) (members : List (Str × Json)) : List Str :=
  (members.filter fun member => Key.ofText member.1 = key).flatMap fun member => texts member.2

/-- Only recognised keys are used, each at most once, and not both of `command` and
`arguments`. -/
structure IsPlain (members : List (Str × Json)) : Prop where
  recognised : Key.Unset ∉ keys members
  nodup : (keys members).Nodup
  not_both : ¬(Key.Command ∈ keys members ∧ Key.Arguments ∈ keys members)

section Commands

variable (unescapeCommandLine : Str → List Str)

/-- A command with what the members say about it. -/
def overlay (command : CommandObject) (members : List (Str × Json)) : CommandObject :=
  { command with
    workingDirectory := (valuesOf .Directory members).headD command.workingDirectory
    filePath := (valuesOf .File members).headD command.filePath
    arguments := match valuesOf .Command members with
      | [] => command.arguments ++ valuesOf .Arguments members
      | text :: _ => unescapeCommandLine text }

/-- The command that the members of an object describe. -/
def commandOf (members : List (Str × Json)) : CommandObject :=
  overlay unescapeCommandLine {} members

variable {unescapeCommandLine}

theorem valuesOf_nil_of_notMem {key : Key} {members : List (Str × Json)}
    (h : key ∉ keys members) : valuesOf key members = [] := by
  unfold valuesOf
  rw [List.filter_eq_nil_iff.mpr, List.flatMap_nil]
  intro member hmember hkey
  exact h (List.mem_map.mpr ⟨member, hmember, by simpa using hkey⟩)

theorem valuesOf_cons_self (member : Str × Json) (members : List (Str × Json)) :
    valuesOf (Key.ofText member.1) (member :: members) =
      texts member.2 ++ valuesOf (Key.ofText member.1) members := by
  unfold valuesOf
  rw [List.filter_cons_of_pos (by simp), List.flatMap_cons]

theorem valuesOf_cons_of_ne {key : Key} {member : Str × Json} (h : Key.ofText member.1 ≠ key)
    (members : List (Str × Json)) : valuesOf key (member :: members) = valuesOf key members := by
  unfold valuesOf
  rw [List.filter_cons_of_neg (by simpa using h)]

theorem IsPlain.tail {member : Str × Json} {members : List (Str × Json)}
    (h : IsPlain (member :: members)) : IsPlain members where
  recognised hmem := h.recognised (List.mem_cons_of_mem _ hmem)
  nodup := (List.nodup_cons.mp h.nodup).2
  not_both hboth :=
    h.not_both ⟨List.mem_cons_of_mem _ hboth.1, List.mem_cons_of_mem _ hboth.2⟩

/-- All strings of a value but that of `arguments` are a single one. -/
theorem texts_of_isMember {options : ValidationOptions} {text : Str} {value : Json}
    (h : IsMember options text value) (hkey : Key.ofText text ≠ .Arguments) :
    ∃ string, texts value = [string] := by
  rw [IsMember, if_neg (mt (ValidateHandler.key_eq_arguments_iff text).mpr hkey)] at h
  obtain ⟨string, rfl, -⟩ := h
  exact ⟨string, rfl⟩

theorem foldlM_assign_arguments (command : CommandObject) (strings : List Str) :
    strings.foldlM (assign unescapeCommandLine .Arguments) command =
      some { command with arguments := command.arguments ++ strings } := by
  induction strings generalizing command with
  | nil => rw [List.append_nil]; rfl
  | cons text strings ih =>
      show strings.foldlM (assign unescapeCommandLine .Arguments)
        { command with arguments := command.arguments ++ [text] } = _
      rw [ih, List.append_assoc]
      rfl

/-- One member, and what the others add to it. -/
theorem overlay_cons {options : ValidationOptions} {member : Str × Json}
    {members : List (Str × Json)} (hplain : IsPlain (member :: members))
    (hmember : IsMember options member.1 member.2) (command : CommandObject) :
    ∃ command', (texts member.2).foldlM
        (assign unescapeCommandLine (Key.ofText member.1)) command = some command' ∧
      overlay unescapeCommandLine command' members =
        overlay unescapeCommandLine command (member :: members) := by
  have hfresh : valuesOf (Key.ofText member.1) members = [] :=
    valuesOf_nil_of_notMem (List.nodup_cons.mp hplain.nodup).1
  have hself := valuesOf_cons_self member members
  rw [hfresh, List.append_nil] at hself
  have hothers : ∀ key, Key.ofText member.1 ≠ key →
      valuesOf key (member :: members) = valuesOf key members :=
    fun key hne => valuesOf_cons_of_ne hne members
  -- a member of a plain object is the only one that sets its field
  cases hkey : Key.ofText member.1 with
  | Unset => exact absurd (List.mem_cons.mpr (Or.inl hkey.symm)) hplain.recognised
  | Directory =>
      obtain ⟨string, hstring⟩ := texts_of_isMember hmember (by simp [hkey])
      rw [hkey] at hself hfresh
      refine ⟨{ command with workingDirectory := string }, by rw [hstring]; rfl, ?_⟩
      unfold overlay
      rw [hself, hfresh, hstring, hothers .File (by simp [hkey]),
        hothers .Command (by simp [hkey]), hothers .Arguments (by simp [hkey])]
      rfl
  | File =>
      obtain ⟨string, hstring⟩ := texts_of_isMember hmember (by simp [hkey])
      rw [hkey] at hself hfresh
      refine ⟨{ command with filePath := string }, by rw [hstring]; rfl, ?_⟩
      unfold overlay
      rw [hself, hfresh, hstring, hothers .Directory (by simp [hkey]),
        hothers .Command (by simp [hkey]), hothers .Arguments (by simp [hkey])]
      rfl
  | Command =>
      obtain ⟨string, hstring⟩ := texts_of_isMember hmember (by simp [hkey])
      have harguments : valuesOf .Arguments members = [] := by
        apply valuesOf_nil_of_notMem
        intro hmem
        exact hplain.not_both ⟨List.mem_cons.mpr (Or.inl hkey.symm), List.mem_cons_of_mem _ hmem⟩
      rw [hkey] at hself hfresh
      refine ⟨{ command with arguments := unescapeCommandLine string }, by rw [hstring]; rfl, ?_⟩
      unfold overlay
      rw [hself, hfresh, hstring, harguments, hothers .Directory (by simp [hkey]),
        hothers .File (by simp [hkey])]
      simp
  | Arguments =>
      have hcommand : valuesOf .Command members = [] := by
        apply valuesOf_nil_of_notMem
        intro hmem
        exact hplain.not_both ⟨List.mem_cons_of_mem _ hmem, List.mem_cons.mpr (Or.inl hkey.symm)⟩
      rw [hkey] at hself hfresh
      refine ⟨_, foldlM_assign_arguments command _, ?_⟩
      unfold overlay
      rw [hself, hfresh, hothers .Command (by simp [hkey]), hcommand,
        hothers .Directory (by simp [hkey]), hothers .File (by simp [hkey])]
      simp
  | Output =>
      obtain ⟨string, hstring⟩ := texts_of_isMember hmember (by simp [hkey])
      refine ⟨command, by rw [hstring]; rfl, ?_⟩
      unfold overlay
      rw [hothers .Directory (by simp [hkey]), hothers .File (by simp [hkey]),
        hothers .Command (by simp [hkey]), hothers .Arguments (by simp [hkey])]

/-- **The handler builds the command that the members describe.** -/
theorem objectEffect_eq_commandOf {options : ValidationOptions} {members : List (Str × Json)}
    (hplain : IsPlain members)
    (hmembers : ∀ member ∈ members, IsMember options member.1 member.2) :
    objectEffect unescapeCommandLine members = some (commandOf unescapeCommandLine members) := by
  have hfold : ∀ (others : List (Str × Json)), IsPlain others →
      (∀ member ∈ others, IsMember options member.1 member.2) →
      ∀ (key : Key) (command : CommandObject), ∃ key',
        others.foldlM (memberEffect unescapeCommandLine) (key, command) =
          some (key', overlay unescapeCommandLine command others) := by
    intro others
    induction others with
    | nil =>
        intro _ _ key command
        refine ⟨key, ?_⟩
        simp [overlay, valuesOf]
    | cons member others ih =>
        intro hplain hmembers key command
        obtain ⟨hfirst, hothers⟩ := List.forall_mem_cons.mp hmembers
        obtain ⟨command', hassign, hoverlay⟩ :=
          @overlay_cons unescapeCommandLine _ _ _ hplain hfirst command
        have hkey : nextKey key member.1 = Key.ofText member.1 := by
          rw [nextKey, if_neg]
          intro hunset
          exact hplain.recognised (List.mem_cons.mpr (Or.inl hunset.symm))
        have hmember : memberEffect unescapeCommandLine (key, command) member =
            some (Key.ofText member.1, command') := by
          unfold memberEffect
          simp only [hkey, hassign, Option.map_some]
        obtain ⟨key', hrest⟩ := ih hplain.tail hothers (Key.ofText member.1) command'
        refine ⟨key', ?_⟩
        rw [List.foldlM_cons, hmember, ← hoverlay]
        exact hrest
  obtain ⟨key', heq⟩ := hfold members hplain hmembers .Unset {}
  unfold objectEffect
  rw [heq]
  rfl

/-- The order of the members does not matter for a key that is given at most once. -/
theorem valuesOf_perm {members members' : List (Str × Json)} (hnodup : (keys members).Nodup)
    (h : members.Perm members') (key : Key) : valuesOf key members = valuesOf key members' := by
  unfold valuesOf
  have hfilter := h.filter fun member => decide (Key.ofText member.1 = key)
  have hsublist := (List.filter_sublist (p := fun member : Str × Json =>
    decide (Key.ofText member.1 = key)) (l := members)).map fun member => Key.ofText member.1
  have hgiven := hsublist.nodup hnodup
  have hkey : ∀ member ∈ members.filter fun member => decide (Key.ofText member.1 = key),
      Key.ofText member.1 = key := by
    intro member hmember
    simpa using (List.mem_filter.mp hmember).2
  generalize members.filter (fun member => decide (Key.ofText member.1 = key)) = given,
    members'.filter (fun member => decide (Key.ofText member.1 = key)) = given'
    at hfilter hgiven hkey ⊢
  match given with
  | [] => rw [List.nil_perm.mp hfilter]
  | [member] => rw [List.singleton_perm.mp hfilter]
  | first :: second :: _ =>
      have heq : Key.ofText first.1 = Key.ofText second.1 :=
        (hkey first (by simp)).trans (hkey second (by simp)).symm
      simp [heq] at hgiven

theorem IsPlain.perm {members members' : List (Str × Json)} (hplain : IsPlain members)
    (h : members.Perm members') : IsPlain members' := by
  have hkeys : (keys members).Perm (keys members') := h.map _
  refine ⟨?_, hkeys.nodup hplain.nodup, ?_⟩
  · rw [← hkeys.mem_iff]
    exact hplain.recognised
  · rw [← hkeys.mem_iff, ← hkeys.mem_iff]
    exact hplain.not_both

theorem commandOf_perm {members members' : List (Str × Json)} (hplain : IsPlain members)
    (h : members.Perm members') :
    commandOf unescapeCommandLine members = commandOf unescapeCommandLine members' := by
  unfold commandOf overlay
  rw [valuesOf_perm hplain.nodup h, valuesOf_perm hplain.nodup h, valuesOf_perm hplain.nodup h,
    valuesOf_perm hplain.nodup h]

end Commands

/-! ## Whole databases -/

/-- The objects of a database. -/
def objectsOf : Json → List (List (Str × Json))
  | .array elements => elements.filterMap fun element =>
      match element with
      | .object members => some members
      | _ => none
  | _ => []

theorem objectsOf_objects (objects : List (List (Str × Json))) :
    objectsOf (.array (objects.map .object)) = objects := by
  simp [objectsOf, List.filterMap_map]

/-- The commands that a database describes. -/
def commandsOf (unescapeCommandLine : Str → List Str) (database : Json) : List CommandObject :=
  (objectsOf database).map (commandOf unescapeCommandLine)

theorem builtAs_commandOf {env : ReaderEnv} {options : ValidationOptions}
    {objects : List (List (Str × Json))}
    (hmembers : ∀ members ∈ objects, ∀ member ∈ members, IsMember options member.1 member.2)
    (hplain : ∀ members ∈ objects, IsPlain members) :
    StreamingParser.BuiltAs env objects (objects.map (commandOf env.unescapeCommandLine)) := by
  refine ⟨⟨options, hmembers⟩, ?_⟩
  rw [List.forall₂_map_right_iff, List.forall₂_same]
  intro members hmem
  exact objectEffect_eq_commandOf (hplain members hmem) (hmembers members hmem)

/-- An accepted database with plain objects is read like the list of its commands. -/
theorem simulates_commandsOf {validation : ValidationOptions} {presentKeys : UInt32}
    {database : Json} {count : Nat}
    (haccepted : validateAndCountJobs validation presentKeys database = some count)
    (hplain : ∀ members ∈ objectsOf database, IsPlain members) (env : ReaderEnv)
    (options : ParseOptions) :
    (commandsOf env.unescapeCommandLine database).length = count ∧
      StreamingParser.Simulates env options (StreamingParser.initializeParser options database)
        { unread := commandsOf env.unescapeCommandLine database } := by
  obtain ⟨objects, rfl, hlength, hmembers, -⟩ := validateAndCountJobs_eq_some_iff.mp haccepted
  unfold commandsOf
  rw [objectsOf_objects] at hplain ⊢
  refine ⟨by rw [List.length_map, hlength], ?_⟩
  exact StreamingParser.simulates_initializeParser (builtAs_commandOf hmembers hplain)

/-- **The streaming parser is exact.**  For an accepted database in which every object uses only
recognised keys, each at most once, and exactly one of `command` and `arguments`, any number of
calls returns: together they deliver a prefix of the commands that the database describes, less
those that the filters reject and each with its position as its index; everything, once there
are more calls than commands.  A call delivers at most `refillCount` commands, and none only
when all have been delivered, and then the counts add up. -/
theorem parseTimes_exact {validation : ValidationOptions} {presentKeys : UInt32} {database : Json}
    {count : Nat} (haccepted : validateAndCountJobs validation presentKeys database = some count)
    (hplain : ∀ members ∈ objectsOf database, IsPlain members ∧
      (Key.Command ∈ keys members ∨ Key.Arguments ∈ keys members))
    (env : ReaderEnv) (options : ParseOptions) (hrefill : 1 ≤ options.refillCount)
    (hadjust : options.adjustCommandLine = false) (n : Nat) :
    ∃ parser outs, (StreamingParser.initializeParser options database).parseTimes env options n =
        some (parser, outs) ∧ outs.length = n ∧
      outs.flatten <+: ResumableParser.keptCommands env.parserEnv options
        (commandsOf env.unescapeCommandLine database) ∧
      ((ResumableParser.keptCommands env.parserEnv options
          (commandsOf env.unescapeCommandLine database)).length < n →
        outs.flatten = ResumableParser.keptCommands env.parserEnv options
          (commandsOf env.unescapeCommandLine database)) ∧
      (∀ out ∈ outs, out.length ≤ options.refillCount) ∧
      (∀ k, outs[k]? = some [] → (outs.take k).flatten =
        ResumableParser.keptCommands env.parserEnv options
          (commandsOf env.unescapeCommandLine database)) ∧
      ([] ∈ outs → outs.flatten.length + parser.stats.skippedNonTuFileExtension +
        parser.stats.skippedNonExistentTuFile = count) := by
  obtain ⟨hcount, hsimulates⟩ := simulates_commandsOf haccepted
    (fun members hmem => (hplain members hmem).1) env options
  obtain ⟨parser, hrun, hfinal⟩ := StreamingParser.parseTimes_simulates hrefill n hsimulates
  set commands := commandsOf env.unescapeCommandLine database
  set outs := (ResumableParser.parseTimes env.parserEnv options n { unread := commands }).2
    with houts
  have hyields : ResumableParser.yields env.parserEnv options { unread := commands } =
      ResumableParser.keptCommands env.parserEnv options commands := by
    have hid : ResumableParser.adjust env.parserEnv options = id := by
      funext cmd
      simp [ResumableParser.adjust, hadjust]
    rw [ResumableParser.yields, hid, List.map_id, ResumableParser.keptFrom_eq_filter]
    rfl
  have hsplit := ResumableParser.yields_parseTimes env.parserEnv options n { unread := commands }
  have hdone : ∀ k, outs[k]? = some [] → (outs.take k).flatten =
      ResumableParser.yields env.parserEnv options { unread := commands } ∧
        (ResumableParser.parseTimes env.parserEnv options n { unread := commands }).1.unread = [] :=
    fun k hk => ResumableParser.flatten_take_parseTimes env.parserEnv options hrefill hk
  rw [hyields] at hsplit hdone
  refine ⟨parser, outs, hrun, ResumableParser.length_parseTimes env.parserEnv options n _,
    ⟨_, hsplit.symm⟩, fun hn => ?_,
    fun out hout => ResumableParser.length_le_of_mem_parseTimes env.parserEnv options n _ hout,
    fun k hk => (hdone k hk).1, fun hnil => ?_⟩
  · -- one of the calls has delivered nothing, so nothing is left
    rw [← hyields] at hn
    obtain ⟨k, hk⟩ := List.mem_iff_getElem?.mp
      (ResumableParser.nil_mem_parseTimes env.parserEnv options hn)
    have hunread := (hdone k hk).2
    rw [hsplit, ResumableParser.yields, hunread]
    simp [ResumableParser.keptFrom, houts]
  · obtain ⟨k, hk⟩ := List.mem_iff_getElem?.mp hnil
    have hunread := (hdone k hk).2
    have hskipped := ResumableParser.skipped_parseTimes env.parserEnv options n
      { unread := commands }
    have hindex := ResumableParser.currentIndex_parseTimes env.parserEnv options n
      { unread := commands }
    rw [hunread, List.length_nil] at hindex
    rw [hfinal.stats_eq]
    simp only [ParseStats.skipped, ← houts] at hskipped hindex
    omega

/-- A source file given by a command line and a header given by its arguments. -/
def sampleDatabase : Json := .array
  [.object [("directory".toList, .string "/d".toList), ("file".toList, .string "a.cc".toList),
      ("command".toList, .string "cc a.cc".toList)],
    .object [("arguments".toList, .array [.string "cc".toList, .string "b.h".toList]),
      ("file".toList, .string "b.h".toList), ("directory".toList, .string "/d".toList)]]

/-- Only `.cc` files are compiled, all files exist, and command lines are split at blanks. -/
def sampleReaderEnv : ReaderEnv where
  parserEnv :=
    { fileExtensionMatches := fun path => ".cc".toList.isSuffixOf path
      exists_ := fun _ => true
      adjustedArguments := CommandObject.arguments }
  unescapeCommandLine := fun text => text.splitOn ' '
  completeOnError := true

theorem parseTimes_exact_sampleDatabase :
    validateAndCountJobs ⟨true⟩ 0 sampleDatabase = some 2 ∧
      ∃ parser outs, (StreamingParser.initializeParser ⟨1, false, true, true⟩
          sampleDatabase).parseTimes sampleReaderEnv ⟨1, false, true, true⟩ 2 =
          some (parser, outs) ∧
        outs.flatten = [⟨0, "/d".toList, "a.cc".toList, ["cc".toList, "a.cc".toList]⟩] := by
  have haccepted : validateAndCountJobs ⟨true⟩ 0 sampleDatabase = some 2 := by decide
  have hplain : ∀ members ∈ objectsOf sampleDatabase, IsPlain members ∧
      (Key.Command ∈ keys members ∨ Key.Arguments ∈ keys members) := by
    intro members hmembers
    simp only [objectsOf, sampleDatabase, List.filterMap_cons, List.filterMap_nil,
      List.mem_cons, List.not_mem_nil, or_false] at hmembers
    rcases hmembers with rfl | rfl
    · exact ⟨⟨by decide, by decide, by decide⟩, by decide⟩
    · exact ⟨⟨by decide, by decide, by decide⟩, by decide⟩
  obtain ⟨parser, outs, hrun, -, -, hall, -⟩ := parseTimes_exact haccepted hplain sampleReaderEnv
    ⟨1, false, true, true⟩ (Nat.le_refl 1) rfl 2
  have hkept : ResumableParser.keptCommands sampleReaderEnv.parserEnv ⟨1, false, true, true⟩
      (commandsOf sampleReaderEnv.unescapeCommandLine sampleDatabase) =
      [⟨0, "/d".toList, "a.cc".toList, ["cc".toList, "a.cc".toList]⟩] := by decide
  rw [hkept] at hall
  exact ⟨haccepted, parser, outs, hrun, hall (by decide)⟩

end Compdb

end ScipClang
