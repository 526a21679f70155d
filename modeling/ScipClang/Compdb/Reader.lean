import ScipClang.Compdb.Validator

/-!
# Reading a compilation database event by event

`CompilationDatabase` starts from the command objects of a database.  Here they come from
the text: `compdb::ResumableParser` drives a `rapidjson` reader one event at a time, and
`CommandObjectHandler` (`indexer/CompilationDatabase.cc`) builds the objects.  It remembers
the last recognised key, which says what the next string is for.

The reader stops when the text is read, or when the handler declines an event.  What the
loop that drives it does then depends on whether the reader counts as complete after an
error, which is up to `rapidjson`: with `completeOnError` the rest of the text is dropped,
without it the loop never ends.

* `objectEffect`: the command object that the handler builds from the members of an object.
* `Simulates`, `parseMore_simulates`: on objects that the handler can read, the parser here
  delivers what `ScipClang.ResumableParser` delivers.
-/

namespace ScipClang

open Json

namespace Compdb

/-! ## The handler -/

/-- `CommandObjectHandler`. -/
structure CommandObjectHandler where
  previousKey : Key := .Unset
  wipCommand : CommandObject := {}
  parseLimit : Nat
  commands : List CommandObject := []
deriving DecidableEq

section Handler

/- `scip_clang::unescapeCommandLine`. -/
variable (unescapeCommandLine : Str → List Str)

/-- What a string does to the command, given the key it belongs to. -/
def assign (key : Key) (command : CommandObject) (text : Str) : Option CommandObject :=
  match key with
  | .Unset => none
  | .Directory => some { command with workingDirectory := text }
  | .File => some { command with filePath := text }
  | .Command => some { command with arguments := unescapeCommandLine text }
  | .Arguments => some { command with arguments := command.arguments ++ [text] }
  | .Output => some command

namespace CommandObjectHandler

/-- `CommandObjectHandler::String`. -/
def string (handler : CommandObjectHandler) (text : Str) : CommandObjectHandler × Bool :=
  match assign unescapeCommandLine handler.previousKey handler.wipCommand text with
  | some wipCommand => ({ handler with wipCommand }, true)
  | none => (handler, false)

/-- `CommandObjectHandler::Key`; an unknown key leaves the previous one in place. -/
def key (handler : CommandObjectHandler) (text : Str) : CommandObjectHandler × Bool :=
  ({ handler with previousKey := nextKey handler.previousKey text }, true)

/-- `CommandObjectHandler::EndObject`. -/
def endObject (handler : CommandObjectHandler) : CommandObjectHandler × Bool :=
  ({ handler with
      commands := handler.commands ++ [handler.wipCommand]
      wipCommand := {}
      previousKey := .Unset }, true)

/-- `CommandObjectHandler::reachedLimit`. -/
def reachedLimit (handler : CommandObjectHandler) : Bool :=
  handler.commands.length == handler.parseLimit

/-- What the handler does with an event. -/
def handle (handler : CommandObjectHandler) : SaxEvent → CommandObjectHandler × Bool
  | .string text => handler.string unescapeCommandLine text
  | .key text => handler.key text
  | .endObject _ => handler.endObject
  | _ => (handler, true)

end CommandObjectHandler

end Handler

/-! ## The parser -/

/-- A `rapidjson::Reader` in the middle of a text. -/
structure Reader where
  /-- Events that have not been delivered yet. -/
  events : List SaxEvent
  /-- An event was declined. -/
  failed : Bool := false

/-- `compdb::ResumableParser`, with its reader and its handler. -/
structure StreamingParser where
  reader : Reader
  handler : CommandObjectHandler
  currentIndex : Nat := 0
  stats : ParseStats := {}

/-- What decides how a text is read, besides the options. -/
structure ReaderEnv where
  parserEnv : ParserEnv
  /-- `scip_clang::unescapeCommandLine`. -/
  unescapeCommandLine : Str → List Str
  /-- `IterativeParseComplete` holds after an error. -/
  completeOnError : Bool

namespace StreamingParser

variable (env : ReaderEnv) (options : ParseOptions)

/-- `ResumableParser::initialize`. -/
def initializeParser (database : Json) : StreamingParser where
  reader := { events := database.events }
  handler := { parseLimit := options.refillCount }

/-- The inner loop of `parseMore`: events are delivered until the handler has enough commands
or the reader is complete.  There is no result if the loop does not end. -/
def readEvents : CommandObjectHandler → List SaxEvent → Option (CommandObjectHandler × Reader)
  | handler, [] => some (handler, { events := [] })
  | handler, event :: events =>
      if handler.reachedLimit then some (handler, { events := event :: events })
      else
        match handler.handle env.unescapeCommandLine event with
        | (handler, true) => readEvents handler events
        | (handler, false) =>
            if env.completeOnError then some (handler, { events, failed := true }) else none

/-- The outer loop of `parseMore`; the fuel bounds the number of chunks. -/
def parseChunks : Nat → StreamingParser → Option (StreamingParser × List CommandObject)
  | 0, parser => some (parser, [])
  | fuel + 1, parser => do
      let (handler, reader) ←
        if parser.reader.failed then some (parser.handler, parser.reader)
        else readEvents env parser.handler parser.reader.events
      let parser := { parser with handler, reader }
      if handler.commands = [] then some (parser, [])
      else
        let (progress, out) := handler.commands.foldl
          (ResumableParser.acceptCommand env.parserEnv options)
          ({ unread := [], currentIndex := parser.currentIndex, stats := parser.stats }, [])
        let parser := { parser with
          handler := { handler with commands := [] }
          currentIndex := progress.currentIndex
          stats := progress.stats }
        if out = [] then parseChunks fuel parser else some (parser, out)

/-- `ResumableParser::parseMore` on an empty output vector. -/
def parseMore (parser : StreamingParser) : Option (StreamingParser × List CommandObject) :=
  if parser.reader.events = [] ∨ parser.reader.failed then some (parser, [])
  else do
    let (parser, out) ← parseChunks env options (parser.reader.events.length + 1) parser
    some (parser, out.map (ResumableParser.adjust env.parserEnv options))

/-- The outputs of successive calls of `parseMore`. -/
def parseTimes : Nat → StreamingParser → Option (StreamingParser × List (List CommandObject))
  | 0, parser => some (parser, [])
  | n + 1, parser => do
      let (parser, out) ← parser.parseMore env options
      let (parser, outs) ← parseTimes n parser
      some (parser, out :: outs)

end StreamingParser

/-! ## What the handler builds from an object -/

/-- The strings of a value. -/
def texts : Json → List Str
  | .string text => [text]
  | .array elements => elements.filterMap fun element =>
      match element with
      | .string text => some text
      | _ => none
  | _ => []

section Effects

variable (unescapeCommandLine : Str → List Str)

/-- What a member does to the previous key and to the command. -/
def memberEffect (state : Key × CommandObject) (member : Str × Json) :
    Option (Key × CommandObject) :=
  let key := nextKey state.1 member.1
  ((texts member.2).foldlM (assign unescapeCommandLine key) state.2).map (key, ·)

/-- The command that the handler builds from the members of an object, unless it declines a
string. -/
def objectEffect (members : List (Str × Json)) : Option CommandObject :=
  (members.foldlM (memberEffect unescapeCommandLine) (Key.Unset, {})).map Prod.snd

end Effects

namespace StreamingParser

section Reading

variable {env : ReaderEnv} {handler handler' : CommandObjectHandler}

/-- The reader stops because an event was declined, with the given commands. -/
def Stops (env : ReaderEnv) (commands : List CommandObject)
    (result : Option (CommandObjectHandler × Reader)) : Prop :=
  if env.completeOnError then
    ∃ handler reader, result = some (handler, reader) ∧ reader.failed = true ∧
      handler.commands = commands
  else result = none

/-- The events lead to a handler that goes on with what follows, or the reader stops. -/
def LeadsTo (env : ReaderEnv) (handler : CommandObjectHandler) (events : List SaxEvent) :
    Option CommandObjectHandler → Prop
  | some handler' =>
      ∀ rest, readEvents env handler (events ++ rest) = readEvents env handler' rest
  | none => ∀ rest, Stops env handler.commands (readEvents env handler (events ++ rest))

theorem leadsTo_nil : LeadsTo env handler [] (some handler) := fun _ => rfl

theorem memberEffect_eq (unescapeCommandLine : Str → List Str) (key : Key)
    (command : CommandObject) (text : Str) (value : Json) :
    memberEffect unescapeCommandLine (key, command) (text, value) =
      ((texts value).foldlM (assign unescapeCommandLine (nextKey key text)) command).map
        (nextKey key text, ·) := rfl

theorem readEvents_cons_of_accepted (hlimit : handler.reachedLimit = false) {event : SaxEvent}
    (h : handler.handle env.unescapeCommandLine event = (handler', true))
    (events : List SaxEvent) :
    readEvents env handler (event :: events) = readEvents env handler' events := by
  rw [readEvents, if_neg (by simp [hlimit]), h]

/-- An event that is accepted. -/
theorem leadsTo_cons (hlimit : handler.reachedLimit = false) {event : SaxEvent}
    (h : handler.handle env.unescapeCommandLine event = (handler', true))
    (hcommands : handler'.commands = handler.commands) {events : List SaxEvent}
    {outcome : Option CommandObjectHandler} (hrest : LeadsTo env handler' events outcome) :
    LeadsTo env handler (event :: events) outcome := by
  cases outcome with
  | some last =>
      intro rest
      rw [List.cons_append, readEvents_cons_of_accepted hlimit h]
      exact hrest rest
  | none =>
      intro rest
      rw [List.cons_append, readEvents_cons_of_accepted hlimit h, ← hcommands]
      exact hrest rest

/-- An event that is declined. -/
theorem leadsTo_none_of_declined (hlimit : handler.reachedLimit = false) {event : SaxEvent}
    (h : handler.handle env.unescapeCommandLine event = (handler, false))
    (events : List SaxEvent) : LeadsTo env handler (event :: events) none := by
  intro rest
  have hread : readEvents env handler (event :: (events ++ rest)) =
      if env.completeOnError then some (handler, { events := events ++ rest, failed := true })
      else none := by
    rw [readEvents, if_neg (by simp [hlimit]), h]
  unfold Stops
  rw [List.cons_append, hread]
  split
  · exact ⟨handler, _, rfl, rfl, rfl⟩
  · rfl

theorem leadsTo_append {first second : List SaxEvent} {outcome : Option CommandObjectHandler}
    (h : LeadsTo env handler first (some handler'))
    (hcommands : handler'.commands = handler.commands)
    (hrest : LeadsTo env handler' second outcome) :
    LeadsTo env handler (first ++ second) outcome := by
  cases outcome with
  | some last =>
      intro rest
      rw [List.append_assoc, h (second ++ rest)]
      exact hrest rest
  | none =>
      intro rest
      rw [List.append_assoc, h (second ++ rest), ← hcommands]
      exact hrest rest

theorem leadsTo_none_append {first : List SaxEvent} (h : LeadsTo env handler first none)
    (second : List SaxEvent) : LeadsTo env handler (first ++ second) none := by
  intro rest
  rw [List.append_assoc]
  exact h (second ++ rest)

/-- A list of strings, all for the same key. -/
theorem leadsTo_strings (hlimit : handler.reachedLimit = false) (strings : List Str) :
    LeadsTo env handler (strings.map .string)
      ((strings.foldlM (assign env.unescapeCommandLine handler.previousKey)
        handler.wipCommand).map fun wipCommand => { handler with wipCommand }) := by
  induction strings generalizing handler with
  | nil => exact leadsTo_nil
  | cons text strings ih =>
      rw [List.foldlM_cons, List.map_cons]
      cases hassign : assign env.unescapeCommandLine handler.previousKey handler.wipCommand
          text with
      | none =>
          apply leadsTo_none_of_declined hlimit
          simp only [CommandObjectHandler.handle, CommandObjectHandler.string, hassign]
      | some wipCommand =>
          have hhandle : handler.handle env.unescapeCommandLine (.string text) =
              ({ handler with wipCommand }, true) := by
            simp only [CommandObjectHandler.handle, CommandObjectHandler.string, hassign]
          exact leadsTo_cons hlimit hhandle rfl (@ih { handler with wipCommand } hlimit)

/-- The value of a member. -/
theorem leadsTo_value (hlimit : handler.reachedLimit = false) {options : ValidationOptions}
    {key : Str} {value : Json} (hmember : IsMember options key value) :
    LeadsTo env handler value.events
      (((texts value).foldlM (assign env.unescapeCommandLine handler.previousKey)
        handler.wipCommand).map fun wipCommand => { handler with wipCommand }) := by
  unfold IsMember at hmember
  split at hmember
  · obtain ⟨arguments, rfl⟩ := hmember
    have htexts : texts (.array (arguments.map .string)) = arguments := by
      simp [texts, List.filterMap_map]
    have hevents : (Json.array (arguments.map .string)).events =
        .startArray :: (arguments.map .string ++ [.endArray arguments.length]) := by
      have helements : ∀ strings : List Str,
          elementEvents (strings.map .string) = strings.map .string := by
        intro strings
        induction strings with
        | nil => rfl
        | cons text strings ih =>
            rw [List.map_cons, elementEvents, ih]
            rfl
      rw [events, helements, List.length_map]
    rw [htexts, hevents]
    refine @leadsTo_cons _ _ handler hlimit _ rfl rfl _ _ ?_
    have hstrings := @leadsTo_strings env _ hlimit arguments
    cases hfold : arguments.foldlM (assign env.unescapeCommandLine handler.previousKey)
        handler.wipCommand with
    | none =>
        rw [hfold] at hstrings
        exact leadsTo_none_append hstrings _
    | some wipCommand =>
        rw [hfold] at hstrings
        exact leadsTo_append hstrings rfl
          (@leadsTo_cons _ { handler with wipCommand } _ hlimit _ rfl rfl _ _ leadsTo_nil)
  · obtain ⟨text, rfl, -⟩ := hmember
    exact leadsTo_strings hlimit [text]

/-- The members of an object. -/
theorem leadsTo_members (hlimit : handler.reachedLimit = false) {options : ValidationOptions}
    {members : List (Str × Json)}
    (hmembers : ∀ member ∈ members, IsMember options member.1 member.2) :
    LeadsTo env handler (memberEvents members)
      ((members.foldlM (memberEffect env.unescapeCommandLine)
        (handler.previousKey, handler.wipCommand)).map fun state =>
          { handler with previousKey := state.1, wipCommand := state.2 }) := by
  induction members generalizing handler with
  | nil => exact leadsTo_nil
  | cons member members ih =>
      obtain ⟨text, value⟩ := member
      obtain ⟨hfirst, hothers⟩ := List.forall_mem_cons.mp hmembers
      rw [List.foldlM_cons, memberEvents]
      -- the key is stored before the value arrives
      let keyed : CommandObjectHandler :=
        { handler with previousKey := nextKey handler.previousKey text }
      refine @leadsTo_cons _ _ keyed hlimit _ rfl rfl _ _ ?_
      have hvalue := @leadsTo_value env keyed hlimit _ _ _ hfirst
      rw [memberEffect_eq]
      cases hfold : (texts value).foldlM (assign env.unescapeCommandLine
          (nextKey handler.previousKey text)) handler.wipCommand with
      | none =>
          rw [hfold] at hvalue
          exact leadsTo_none_append hvalue _
      | some wipCommand =>
          rw [hfold] at hvalue
          exact leadsTo_append hvalue rfl
            (@ih { keyed with wipCommand } hlimit hothers)

/-- **A command object**: the handler appends what it builds from the members, or the reader
stops. -/
theorem leadsTo_object (hlimit : handler.reachedLimit = false)
    (hkey : handler.previousKey = .Unset) (hwip : handler.wipCommand = {})
    {options : ValidationOptions} {members : List (Str × Json)}
    (hmembers : ∀ member ∈ members, IsMember options member.1 member.2) :
    LeadsTo env handler (Json.object members).events
      ((objectEffect env.unescapeCommandLine members).map fun command =>
        { handler with commands := handler.commands ++ [command] }) := by
  rw [events]
  refine @leadsTo_cons _ _ handler hlimit _ rfl rfl _ _ ?_
  have hread := @leadsTo_members env _ hlimit _ _ hmembers
  unfold objectEffect
  rw [hkey, hwip] at hread
  cases hfold : members.foldlM (memberEffect env.unescapeCommandLine)
      (Key.Unset, ({} : CommandObject)) with
  | none =>
      rw [hfold] at hread
      exact leadsTo_none_append hread _
  | some state =>
      rw [hfold] at hread
      let built : CommandObjectHandler :=
        { handler with previousKey := state.1, wipCommand := state.2 }
      have hend : built.handle env.unescapeCommandLine (.endObject members.length) =
          ({ handler with commands := handler.commands ++ [state.2] }, true) := by
        show (_, true) = _
        rw [← hkey, ← hwip]
      intro rest
      rw [List.append_assoc, hread]
      exact @readEvents_cons_of_accepted _ built _ hlimit _ hend rest

/-! ### Chunks -/

/-- The handler is between two objects. -/
def IsIdle (handler : CommandObjectHandler) : Prop :=
  handler.previousKey = .Unset ∧ handler.wipCommand = {}

/-- The objects can be read, and these are the commands that they are read as. -/
structure BuiltAs (env : ReaderEnv) (objects : List (List (Str × Json)))
    (commands : List CommandObject) : Prop where
  isMember : ∃ options : ValidationOptions, ∀ members ∈ objects, ∀ member ∈ members,
    IsMember options member.1 member.2
  effects : List.Forall₂
    (fun members command => objectEffect env.unescapeCommandLine members = some command)
    objects commands

/-- The events that are left when these objects have not been read yet. -/
def Pending (events : List SaxEvent) (objects : List (List (Str × Json))) : Prop :=
  events = [] ∧ objects = [] ∨
    ∃ count, events = elementEvents (objects.map .object) ++ [.endArray count] ∨
      events = .startArray :: (elementEvents (objects.map .object) ++ [.endArray count])

theorem BuiltAs.tail {members : List (Str × Json)} {objects : List (List (Str × Json))}
    {command : CommandObject} {commands : List CommandObject}
    (h : BuiltAs env (members :: objects) (command :: commands)) :
    BuiltAs env objects commands := by
  obtain ⟨⟨options, hmembers⟩, heffects⟩ := h
  cases heffects with
  | cons _ hrest => exact ⟨⟨options, (List.forall_mem_cons.mp hmembers).2⟩, hrest⟩

theorem BuiltAs.drop {objects : List (List (Str × Json))} {commands : List CommandObject}
    (h : BuiltAs env objects commands) (n : Nat) :
    BuiltAs env (objects.drop n) (commands.drop n) := by
  obtain ⟨⟨options, hmembers⟩, heffects⟩ := h
  exact ⟨⟨options, fun members hmem => hmembers members (List.mem_of_mem_drop hmem)⟩,
    List.forall₂_drop n heffects⟩

/-- A handler that has enough commands reads nothing. -/
theorem readEvents_of_reachedLimit (hlimit : handler.reachedLimit = true)
    (events : List SaxEvent) : readEvents env handler events = some (handler, { events }) := by
  cases events with
  | nil => rfl
  | cons event events => rw [readEvents, if_pos hlimit]

/-- The handler reads as many objects as it has room for, and the end of the array if it has
room left. -/
theorem readEvents_elements {objects : List (List (Str × Json))} {commands : List CommandObject}
    (hbuilt : BuiltAs env objects commands) (hidle : IsIdle handler) {room : Nat}
    (hroom : handler.parseLimit = handler.commands.length + room) (count : Nat) :
    ∃ events, readEvents env handler (elementEvents (objects.map .object) ++ [.endArray count]) =
        some ({ handler with commands := (handler.commands ++ commands.take room) }, { events }) ∧
      Pending events (objects.drop room) := by
  induction objects generalizing handler commands room with
  | nil =>
      obtain rfl := List.forall₂_nil_left_iff.mp hbuilt.effects
      rw [List.take_nil, List.append_nil, List.drop_nil]
      cases hlimit : handler.reachedLimit with
      | true => exact ⟨_, readEvents_of_reachedLimit hlimit _, Or.inr ⟨count, Or.inl rfl⟩⟩
      | false =>
          exact ⟨[], @readEvents_cons_of_accepted _ _ handler hlimit _ rfl [],
            Or.inl ⟨rfl, rfl⟩⟩
  | cons members objects ih =>
      cases room with
      | zero =>
          have hlimit : handler.reachedLimit = true := by
            simp [CommandObjectHandler.reachedLimit, hroom]
          rw [List.take_zero, List.append_nil, List.drop_zero]
          exact ⟨_, readEvents_of_reachedLimit hlimit _, Or.inr ⟨count, Or.inl rfl⟩⟩
      | succ room =>
          have hlimit : handler.reachedLimit = false := by
            simp [CommandObjectHandler.reachedLimit, hroom]
          obtain ⟨command, rest, heffect, -, rfl⟩ := List.forall₂_cons_left_iff.mp hbuilt.effects
          obtain ⟨options, hmembers⟩ := hbuilt.isMember
          have hobject := @leadsTo_object env _ hlimit hidle.1 hidle.2 _ _
            (List.forall_mem_cons.mp hmembers).1
          rw [heffect] at hobject
          -- the rest is read with one command more and room for one less
          obtain ⟨events, hread, hpending⟩ := @ih
            { handler with commands := (handler.commands ++ [command]) } _ hbuilt.tail hidle room
            (by simp [hroom]; omega)
          refine ⟨events, ?_, hpending⟩
          rw [List.map_cons, elementEvents, List.append_assoc, hobject, hread,
            List.take_succ_cons, List.append_assoc]
          rfl

/-- A chunk: up to `parseLimit` objects are taken off the front. -/
theorem readEvents_pending {objects : List (List (Str × Json))} {commands : List CommandObject}
    (hbuilt : BuiltAs env objects commands) {limit : Nat} (hpos : 0 < limit)
    {events : List SaxEvent} (hpending : Pending events objects) :
    ∃ events', readEvents env { parseLimit := limit } events =
        some ({ parseLimit := limit, commands := commands.take limit }, { events := events' }) ∧
      Pending events' (objects.drop limit) := by
  have hlimit : (CommandObjectHandler.mk Key.Unset {} limit []).reachedLimit = false := by
    simp [CommandObjectHandler.reachedLimit]
    omega
  rcases hpending with ⟨rfl, rfl⟩ | ⟨count, rfl | rfl⟩
  · obtain rfl := List.forall₂_nil_left_iff.mp hbuilt.effects
    rw [List.take_nil, List.drop_nil]
    exact ⟨[], rfl, Or.inl ⟨rfl, rfl⟩⟩
  · exact @readEvents_elements _ { parseLimit := limit } _ _ hbuilt ⟨rfl, rfl⟩ _
      (Nat.zero_add limit).symm count
  · rw [@readEvents_cons_of_accepted _ _ { parseLimit := limit } hlimit _ rfl]
    exact @readEvents_elements _ { parseLimit := limit } _ _ hbuilt ⟨rfl, rfl⟩ _
      (Nat.zero_add limit).symm count

end Reading

/-! ## Refinement -/

variable {env options}

/-- What the reader of a parser does for a chunk. -/
def readChunk (env : ReaderEnv) (parser : StreamingParser) :
    Option (CommandObjectHandler × Reader) :=
  if parser.reader.failed then some (parser.handler, parser.reader)
  else readEvents env parser.handler parser.reader.events

/-- What the parser does with the commands of a chunk. -/
def acceptChunk (env : ReaderEnv) (options : ParseOptions) (parser : StreamingParser)
    (chunk : CommandObjectHandler × Reader) : StreamingParser × List CommandObject :=
  let progress := chunk.1.commands.foldl (ResumableParser.acceptCommand env.parserEnv options)
    ({ unread := [], currentIndex := parser.currentIndex, stats := parser.stats }, [])
  ({ parser with
      reader := chunk.2
      handler := { chunk.1 with commands := [] }
      currentIndex := progress.1.currentIndex
      stats := progress.1.stats }, progress.2)

theorem parseChunks_succ (fuel : Nat) (parser : StreamingParser) :
    parseChunks env options (fuel + 1) parser = (readChunk env parser).bind fun chunk =>
      if chunk.1.commands = [] then
        some ({ parser with handler := chunk.1, reader := chunk.2 }, [])
      else if (acceptChunk env options parser chunk).2 = [] then
        parseChunks env options fuel (acceptChunk env options parser chunk).1
      else some (acceptChunk env options parser chunk) := by
  rw [parseChunks, readChunk]
  split
  · rfl
  · cases readEvents env parser.handler parser.reader.events with
    | none => rfl
    | some chunk => rfl

/-- The parser has read as far as the one that starts from command objects. -/
structure Simulates (env : ReaderEnv) (options : ParseOptions) (parser : StreamingParser)
    (abstract : ResumableParser) : Prop where
  pending : ∃ objects, Pending parser.reader.events objects ∧ BuiltAs env objects abstract.unread
  not_failed : parser.reader.failed = false
  handler_eq : parser.handler = { parseLimit := options.refillCount }
  currentIndex_eq : parser.currentIndex = abstract.currentIndex
  stats_eq : parser.stats = abstract.stats

/-- There are at least as many events left as objects. -/
theorem length_le_of_pending {events : List SaxEvent} {objects : List (List (Str × Json))}
    (h : Pending events objects) : objects.length ≤ events.length := by
  have hlength : ∀ others : List (List (Str × Json)),
      others.length ≤ (elementEvents (others.map .object)).length := by
    intro others
    induction others with
    | nil => exact Nat.le_refl _
    | cons members others ih =>
        have hpos := List.length_pos_iff.mpr (events_ne_nil (.object members))
        rw [List.map_cons, elementEvents, List.length_append, List.length_cons]
        omega
  have hobjects := hlength objects
  rcases h with ⟨rfl, rfl⟩ | ⟨count, rfl | rfl⟩
  · exact Nat.le_refl _
  · rw [List.length_append]
    omega
  · rw [List.length_cons, List.length_append]
    omega

/-- Both parsers number and filter the commands of a chunk in the same way. -/
theorem acceptChunk_simulates {parser : StreamingParser} {abstract : ResumableParser}
    (h : Simulates env options parser abstract) {events : List SaxEvent}
    (hpending : ∃ objects, Pending events objects ∧
      BuiltAs env objects (abstract.unread.drop options.refillCount)) :
    Simulates env options
        (acceptChunk env options parser
          (⟨.Unset, {}, options.refillCount, abstract.unread.take options.refillCount⟩,
            { events })).1
        (abstract.takeChunk env.parserEnv options).1 ∧
      (acceptChunk env options parser
          (⟨.Unset, {}, options.refillCount, abstract.unread.take options.refillCount⟩,
            { events })).2 =
        (abstract.takeChunk env.parserEnv options).2 := by
  have hfold : abstract.takeChunk env.parserEnv options =
      ({ ((abstract.unread.take options.refillCount).foldl
          (ResumableParser.acceptCommand env.parserEnv options)
          ({ unread := [], currentIndex := parser.currentIndex, stats := parser.stats }, [])).1
        with unread := abstract.unread.drop options.refillCount },
      ((abstract.unread.take options.refillCount).foldl
        (ResumableParser.acceptCommand env.parserEnv options)
        ({ unread := [], currentIndex := parser.currentIndex, stats := parser.stats }, [])).2) := by
    rw [ResumableParser.takeChunk, ← ResumableParser.foldl_acceptCommand_unread,
      h.currentIndex_eq, h.stats_eq]
  rw [hfold]
  exact ⟨⟨hpending, rfl, rfl, rfl, rfl⟩, rfl⟩

/-- The chunk loop, with fuel for all objects on both sides. -/
theorem parseChunks_simulates (hpos : 0 < options.refillCount) {fuel fuel' : Nat}
    {parser : StreamingParser} {abstract : ResumableParser}
    (h : Simulates env options parser abstract) (hfuel : abstract.unread.length + 1 ≤ fuel)
    (hfuel' : abstract.unread.length ≤ fuel') :
    ∃ parser', parseChunks env options fuel parser = some (parser',
        (ResumableParser.parseChunks env.parserEnv options fuel' abstract).2) ∧
      Simulates env options parser'
        (ResumableParser.parseChunks env.parserEnv options fuel' abstract).1 := by
  induction fuel generalizing parser abstract fuel' with
  | zero => exact absurd hfuel (Nat.not_succ_le_zero _)
  | succ fuel ih =>
      obtain ⟨objects, hpending, hbuilt⟩ := h.pending
      obtain ⟨events, hread, hpending'⟩ := readEvents_pending hbuilt hpos hpending
      have hunread : abstract.unread.take options.refillCount = [] ↔ abstract.unread = [] := by
        rw [List.take_eq_nil_iff]
        exact ⟨fun hor => hor.resolve_left (by omega), Or.inr⟩
      have hchunk : readChunk env parser = some
          (⟨.Unset, {}, options.refillCount, abstract.unread.take options.refillCount⟩,
            { events }) := by
        rw [readChunk, if_neg (by simp [h.not_failed]), h.handler_eq, hread]
      rw [parseChunks_succ, hchunk, Option.bind_some]
      dsimp only
      by_cases hnil : abstract.unread = []
      · -- all objects have been read
        have habstract : ResumableParser.parseChunks env.parserEnv options fuel' abstract =
            (abstract, []) := by
          cases fuel' with
          | zero => rfl
          | succ fuel' => rw [ResumableParser.parseChunks_succ, if_pos (hunread.mpr hnil)]
        rw [if_pos (hunread.mpr hnil), habstract]
        refine ⟨_, rfl, ⟨_, hpending', ?_⟩, rfl, ?_, h.currentIndex_eq, h.stats_eq⟩
        · have hdrop := hbuilt.drop options.refillCount
          rwa [hnil, List.drop_nil, ← hnil] at hdrop
        · rw [hunread.mpr hnil]
      · obtain ⟨fuel', rfl⟩ : ∃ k, fuel' = k + 1 := by
          have hlength := List.length_pos_iff.mpr hnil
          exact ⟨fuel' - 1, by omega⟩
        obtain ⟨hsimulates, hout⟩ := acceptChunk_simulates h ⟨_, hpending', hbuilt.drop _⟩
        rw [if_neg (mt hunread.mp hnil), ResumableParser.parseChunks_succ,
          if_neg (mt hunread.mp hnil), hout]
        by_cases hempty : (abstract.takeChunk env.parserEnv options).2 = []
        · have hpositive := List.length_pos_iff.mpr hnil
          have hleft : (abstract.takeChunk env.parserEnv options).1.unread.length <
              abstract.unread.length := by
            rw [(abstract.takeChunk_spec env.parserEnv options).1, List.length_drop]
            omega
          rw [if_pos hempty, if_pos hempty]
          exact ih hsimulates (by omega) (by omega)
        · rw [if_neg hempty, if_neg hempty]
          exact ⟨_, by rw [← hout], hsimulates⟩

/-- **One call delivers what the parser of command objects delivers.** -/
theorem parseMore_simulates (hpos : 0 < options.refillCount) {parser : StreamingParser}
    {abstract : ResumableParser} (h : Simulates env options parser abstract) :
    ∃ parser', parser.parseMore env options = some (parser',
        (ResumableParser.parseMore env.parserEnv options abstract).2) ∧
      Simulates env options parser'
        (ResumableParser.parseMore env.parserEnv options abstract).1 := by
  obtain ⟨objects, hpending, hbuilt⟩ := h.pending
  have hlength : abstract.unread.length ≤ parser.reader.events.length := by
    rw [← List.Forall₂.length_eq hbuilt.effects]
    exact length_le_of_pending hpending
  unfold parseMore
  by_cases hevents : parser.reader.events = []
  · have hunread : abstract.unread = [] := by
      rw [hevents] at hlength
      exact List.eq_nil_of_length_eq_zero (Nat.le_zero.mp hlength)
    have habstract : ResumableParser.parseMore env.parserEnv options abstract = (abstract, []) := by
      simp [ResumableParser.parseMore, ResumableParser.parseChunks, hunread]
    rw [if_pos (Or.inl hevents), habstract]
    exact ⟨parser, rfl, h⟩
  · rw [if_neg (by simp [hevents, h.not_failed])]
    obtain ⟨parser', hchunks, hsimulates⟩ := parseChunks_simulates hpos h
      (Nat.succ_le_succ hlength) (Nat.le_refl _)
    rw [hchunks]
    exact ⟨parser', rfl, hsimulates⟩

theorem parseTimes_simulates (hpos : 0 < options.refillCount) (n : Nat)
    {parser : StreamingParser} {abstract : ResumableParser}
    (h : Simulates env options parser abstract) :
    ∃ parser', parser.parseTimes env options n = some (parser',
        (ResumableParser.parseTimes env.parserEnv options n abstract).2) ∧
      Simulates env options parser'
        (ResumableParser.parseTimes env.parserEnv options n abstract).1 := by
  induction n generalizing parser abstract with
  | zero => exact ⟨parser, rfl, h⟩
  | succ n ih =>
      obtain ⟨middle, hcall, hmiddle⟩ := parseMore_simulates hpos h
      obtain ⟨parser', hrest, hsimulates⟩ := ih hmiddle
      refine ⟨parser', ?_, hsimulates⟩
      rw [parseTimes, hcall]
      simp only [Option.bind_eq_bind, Option.bind_some, hrest]
      rfl

/-- A parser that starts on an array of objects that can be read. -/
theorem simulates_initializeParser {objects : List (List (Str × Json))}
    {commands : List CommandObject} (h : BuiltAs env objects commands) :
    Simulates env options (initializeParser options (.array (objects.map .object)))
      { unread := commands } := by
  refine ⟨⟨objects, Or.inr ⟨(objects.map Json.object).length, Or.inr ?_⟩, h⟩, rfl, rfl, rfl, rfl⟩
  show events _ = _
  rw [events]

end StreamingParser

end Compdb

end ScipClang
