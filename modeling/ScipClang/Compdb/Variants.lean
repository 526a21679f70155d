import Mathlib.Data.List.DropRight
import ScipClang.Compdb.Commands

/-!
# Unknown members and the order of members

The validator only warns about keys that it does not know, and says nothing about the order
of the members of an object.  `CommandObjectHandler` is sensitive to both: the value of an
unknown member is taken for one more value of the last recognised key, an object that starts
with an unknown member stops the reader, and `command` replaces the arguments that came before
it.

* `attributed`: the strings of an object, each with the key that it is taken to belong to.
* `objectEffect_eq_describe`: the handler builds the command from these.
* `Produces`: the commands that a caller gets who calls `parseMore` until it returns nothing.
* `unaffected_iff`: when two variants of a database produce the same commands.
-/

namespace ScipClang

open Json

namespace Compdb

/-- The key is one of the five that the parser knows. -/
def isRecognised (member : Str × Json) : Bool := Key.ofText member.1 != .Unset

/-- Two versions of an object that differ only in members with unknown keys and in the order of
their members. -/
def IsVariant (members members' : List (Str × Json)) : Prop :=
  (members.filter isRecognised).Perm (members'.filter isRecognised)

/-- The object starts with an unknown member. -/
def StartsUnknown (members : List (Str × Json)) : Prop :=
  ∃ member ∈ members.head?, isRecognised member = false

instance (members : List (Str × Json)) : Decidable (StartsUnknown members) :=
  inferInstanceAs (Decidable (∃ member ∈ members.head?, isRecognised member = false))

/-! ## What the strings of an object are taken for -/

/-- The strings of an object, each with the last key that was recognised before it. -/
def attributed : Key → List (Str × Json) → List (Key × Str)
  | _, [] => []
  | key, member :: members =>
      (texts member.2).map (fun text => (nextKey key member.1, text)) ++
        attributed (nextKey key member.1) members

/-- The last string that is taken for a value of the key. -/
def lastText (key : Key) (strings : List (Key × Str)) : Option Str :=
  ((strings.filter fun string => string.1 = key).getLast?).map Prod.snd

/-- The strings that are taken for arguments, as far as no command line follows them. -/
def lastArguments (strings : List (Key × Str)) : List Str :=
  ((strings.rtakeWhile fun string => string.1 ≠ .Command).filter
    fun string => string.1 = .Arguments).map Prod.snd

/-- The command that the strings of an object describe. -/
def describe (unescapeCommandLine : Str → List Str) (strings : List (Key × Str)) :
    CommandObject where
  workingDirectory := (lastText .Directory strings).getD []
  filePath := (lastText .File strings).getD []
  arguments := ((lastText .Command strings).elim [] unescapeCommandLine) ++ lastArguments strings

/-- The strings of two objects describe the same command, however command lines are split. -/
structure SameReading (strings strings' : List (Key × Str)) : Prop where
  directory_eq : (lastText .Directory strings).getD [] = (lastText .Directory strings').getD []
  file_eq : (lastText .File strings).getD [] = (lastText .File strings').getD []
  command_eq : lastText .Command strings = lastText .Command strings'
  arguments_eq : lastArguments strings = lastArguments strings'

section Strings

variable {unescapeCommandLine : Str → List Str}

theorem lastText_concat (key : Key) (strings : List (Key × Str)) (string : Key × Str) :
    lastText key (strings ++ [string]) =
      if string.1 = key then some string.2 else lastText key strings := by
  unfold lastText
  rw [List.filter_append]
  split
  case isTrue heq => simp [heq]
  case isFalse hne => simp [hne]

theorem lastArguments_concat (strings : List (Key × Str)) (string : Key × Str) :
    lastArguments (strings ++ [string]) =
      if string.1 = .Command then []
      else if string.1 = .Arguments then lastArguments strings ++ [string.2]
      else lastArguments strings := by
  unfold lastArguments
  rw [List.rtakeWhile_concat]
  split
  case isTrue hne =>
    rw [if_neg (by simpa using hne), List.filter_append, List.map_append]
    split
    case isTrue heq => simp [heq]
    case isFalse hne' => simp [hne']
  case isFalse heq =>
    rw [if_pos (by simpa using heq)]
    rfl

/-- One string after the other. -/
theorem foldlM_assign_eq_describe {strings : List (Key × Str)}
    (h : ∀ string ∈ strings, string.1 ≠ .Unset) :
    strings.foldlM (fun command string => assign unescapeCommandLine string.1 command string.2)
      ({} : CommandObject) = some (describe unescapeCommandLine strings) := by
  induction strings using List.reverseRecOn with
  | nil => rfl
  | append_singleton strings string ih =>
      have hstrings : ∀ other ∈ strings, other.1 ≠ .Unset :=
        fun other hother => h other (List.mem_append_left _ hother)
      have hstring : string.1 ≠ .Unset := h string (by simp)
      obtain ⟨key, text⟩ := string
      rw [List.foldlM_append, ih hstrings]
      simp only [Option.bind_eq_bind, Option.bind_some, List.foldlM_cons, List.foldlM_nil,
        describe, lastText_concat, lastArguments_concat]
      cases key with
      | Unset => exact absurd rfl hstring
      | Arguments => simp [assign]
      | _ => simp [assign]

theorem foldlM_assign_eq_none {strings : List (Key × Str)}
    (h : ∃ string ∈ strings.head?, string.1 = .Unset) (command : CommandObject) :
    strings.foldlM (fun command string => assign unescapeCommandLine string.1 command string.2)
      command = none := by
  obtain ⟨string, hhead, hkey⟩ := h
  obtain ⟨rest, rfl⟩ := List.head?_eq_some_iff.mp hhead
  rw [List.foldlM_cons, hkey]
  rfl

/-- The members one after the other are their strings one after the other. -/
theorem foldlM_memberEffect_eq (members : List (Str × Json)) (key : Key)
    (command : CommandObject) :
    (members.foldlM (memberEffect unescapeCommandLine) (key, command)).map Prod.snd =
      (attributed key members).foldlM
        (fun command string => assign unescapeCommandLine string.1 command string.2) command := by
  induction members generalizing key command with
  | nil => rfl
  | cons member members ih =>
      obtain ⟨text, value⟩ := member
      have hmap : ((texts value).map fun string => (nextKey key text, string)).foldlM
          (fun command string => assign unescapeCommandLine string.1 command string.2) command =
          (texts value).foldlM (assign unescapeCommandLine (nextKey key text)) command :=
        List.foldlM_map
      rw [attributed, List.foldlM_append, hmap, List.foldlM_cons,
        StreamingParser.memberEffect_eq]
      cases (texts value).foldlM (assign unescapeCommandLine (nextKey key text)) command with
      | none => rfl
      | some command' => exact ih (nextKey key text) command'

theorem nextKey_ne_unset {key : Key} (h : key ≠ .Unset) (text : Str) :
    nextKey key text ≠ .Unset := by
  unfold nextKey
  split
  case isTrue => exact h
  case isFalse hne => exact hne

/-- Once a key has been recognised, there is always one to attribute a string to. -/
theorem attributed_ne_unset {key : Key} (h : key ≠ .Unset) (members : List (Str × Json)) :
    ∀ string ∈ attributed key members, string.1 ≠ .Unset := by
  induction members generalizing key with
  | nil => simp [attributed]
  | cons member members ih =>
      have hnext := nextKey_ne_unset h member.1
      intro string hstring
      rw [attributed, List.mem_append] at hstring
      rcases hstring with hfirst | hrest
      · obtain ⟨text, -, rfl⟩ := List.mem_map.mp hfirst
        exact hnext
      · exact ih hnext string hrest

/-- **The command that the handler builds**, unless the object starts with an unknown member. -/
theorem objectEffect_eq_describe {options : ValidationOptions} {members : List (Str × Json)}
    (hmembers : ∀ member ∈ members, IsMember options member.1 member.2) :
    objectEffect unescapeCommandLine members =
      if StartsUnknown members then none
      else some (describe unescapeCommandLine (attributed .Unset members)) := by
  unfold objectEffect
  rw [foldlM_memberEffect_eq]
  cases members with
  | nil => rfl
  | cons member members =>
      cases hrecognised : isRecognised member with
      | false =>
          have hunset : Key.ofText member.1 = .Unset := by simpa [isRecognised] using hrecognised
          rw [if_pos ⟨member, rfl, hrecognised⟩]
          obtain ⟨string, hstring⟩ := texts_of_isMember (hmembers member List.mem_cons_self)
            (by simp [hunset])
          apply foldlM_assign_eq_none
          refine ⟨(nextKey .Unset member.1, string), ?_, ?_⟩
          · simp [attributed, hstring]
          · simp [nextKey, hunset]
      | true =>
          have hkey : Key.ofText member.1 ≠ .Unset := by simpa [isRecognised] using hrecognised
          have hstarts : ¬StartsUnknown (member :: members) := by
            rintro ⟨other, hother, hunknown⟩
            obtain rfl : member = other := by simpa using hother
            exact Bool.noConfusion (hrecognised.symm.trans hunknown)
          rw [if_neg hstarts]
          apply foldlM_assign_eq_describe
          have hnext : nextKey .Unset member.1 = Key.ofText member.1 := by
            rw [nextKey, if_neg hkey]
          intro string hstring
          rw [attributed, List.mem_append] at hstring
          rcases hstring with hfirst | hrest
          · obtain ⟨text, -, rfl⟩ := List.mem_map.mp hfirst
            exact hnext ▸ hkey
          · exact attributed_ne_unset (hnext ▸ hkey) members string hrest

theorem describe_eq {strings strings' : List (Key × Str)} (h : SameReading strings strings') :
    describe unescapeCommandLine strings = describe unescapeCommandLine strings' := by
  unfold describe
  rw [h.directory_eq, h.file_eq, h.command_eq, h.arguments_eq]

theorem eq_of_elim_eq {text text' : Option Str}
    (h : ∀ split : Str → List Str, text.elim [] split = text'.elim [] split) : text = text' := by
  cases text with
  | none =>
      cases text' with
      | none => rfl
      | some t' => exact absurd (h fun _ => [[]]) (by simp)
  | some t =>
      have hsplit := h fun string => if string = t then [[]] else []
      cases text' with
      | none => exact absurd hsplit (by simp)
      | some t' =>
          by_contra hne
          have hne' : t' ≠ t := fun heq => hne (by rw [heq])
          simp [hne'] at hsplit

/-- How command lines are split can tell any two readings apart. -/
theorem sameReading_of_describe {strings strings' : List (Key × Str)}
    (h : ∀ unescapeCommandLine : Str → List Str,
      { describe unescapeCommandLine strings with index := 0 } =
        { describe unescapeCommandLine strings' with index := 0 }) :
    SameReading strings strings' := by
  have hfields := fun split => CommandObject.mk.inj (h split)
  have harguments : lastArguments strings = lastArguments strings' := by
    have hempty := (hfields fun _ => []).2.2.2
    cases hcommand : lastText .Command strings <;> cases hcommand' : lastText .Command strings' <;>
      simpa [describe, hcommand, hcommand'] using hempty
  refine ⟨(hfields fun _ => []).2.1, (hfields fun _ => []).2.2.1, ?_, harguments⟩
  apply eq_of_elim_eq
  intro split
  have hsplit := (hfields split).2.2.2
  simp only [describe, harguments] at hsplit
  exact List.append_cancel_right hsplit

end Strings

/-! ## Which commands are produced -/

/-- The commands that are delivered when `parseMore` is called until it returns nothing. -/
inductive Produces (env : ReaderEnv) (options : ParseOptions) :
    StreamingParser → List CommandObject → Prop where
  | done {parser parser' : StreamingParser}
      (hcall : parser.parseMore env options = some (parser', [])) :
      Produces env options parser []
  | more {parser parser' : StreamingParser} {out commands : List CommandObject}
      (hcall : parser.parseMore env options = some (parser', out)) (hne : out ≠ [])
      (hrest : Produces env options parser' commands) :
      Produces env options parser (out ++ commands)

theorem Produces.unique {env : ReaderEnv} {options : ParseOptions} {parser : StreamingParser}
    {commands commands' : List CommandObject} (h : Produces env options parser commands)
    (h' : Produces env options parser commands') : commands = commands' := by
  induction h generalizing commands' with
  | done hcall =>
      cases h' with
      | done _ => rfl
      | more hcall' hne _ =>
          rw [hcall, Option.some.injEq, Prod.mk.injEq] at hcall'
          exact absurd hcall'.2.symm hne
  | more hcall hne _ ih =>
      cases h' with
      | done hcall' =>
          rw [hcall, Option.some.injEq, Prod.mk.injEq] at hcall'
          exact absurd hcall'.2 hne
      | more hcall' _ hrest' =>
          rw [hcall, Option.some.injEq, Prod.mk.injEq] at hcall'
          obtain ⟨rfl, rfl⟩ := hcall'
          rw [ih hrest']

/-- The two databases produce the same commands, whatever the surroundings and the options. -/
def Unaffected (database database' : Json) : Prop :=
  ∀ (env : ReaderEnv) (options : ParseOptions), 1 ≤ options.refillCount →
    ∀ commands, Produces env options (StreamingParser.initializeParser options database) commands ↔
      Produces env options (StreamingParser.initializeParser options database') commands

/-- Object by object, up to the first that starts with an unknown member: either both start with
one, or their strings are read alike. -/
def ReadAlike : List (List (Str × Json)) → List (List (Str × Json)) → Prop
  | members :: objects, members' :: objects' =>
      (StartsUnknown members ↔ StartsUnknown members') ∧
        (¬StartsUnknown members →
          SameReading (attributed .Unset members) (attributed .Unset members') ∧
            ReadAlike objects objects')
  | _, _ => True

/-! ## Two readers in lockstep -/

namespace StreamingParser

/-- The values of the members are as their keys ask for. -/
def AreMembers (members : List (Str × Json)) : Prop :=
  ∃ options : ValidationOptions, ∀ member ∈ members, IsMember options member.1 member.2

/-- The objects are read as the same commands, up to one that stops the reader. -/
inductive SameEffects (env : ReaderEnv) :
    List (List (Str × Json)) → List (List (Str × Json)) → Prop where
  | nil : SameEffects env [] []
  | declined {members members' : List (Str × Json)} {objects objects' : List (List (Str × Json))}
      (hmembers : AreMembers members) (hmembers' : AreMembers members')
      (hnone : objectEffect env.unescapeCommandLine members = none)
      (hnone' : objectEffect env.unescapeCommandLine members' = none) :
      SameEffects env (members :: objects) (members' :: objects')
  | cons {members members' : List (Str × Json)} {objects objects' : List (List (Str × Json))}
      {command : CommandObject} (hmembers : AreMembers members) (hmembers' : AreMembers members')
      (hsome : objectEffect env.unescapeCommandLine members = some command)
      (hsome' : objectEffect env.unescapeCommandLine members' = some command)
      (hrest : SameEffects env objects objects') :
      SameEffects env (members :: objects) (members' :: objects')

/-- Two readers have failed both, or read alike from here on. -/
inductive SameReaders (env : ReaderEnv) (reader reader' : Reader) : Prop where
  | failed (hfailed : reader.failed = true) (hfailed' : reader'.failed = true)
  | reading (hfailed : reader.failed = false) (hfailed' : reader'.failed = false)
      (hempty : reader.events = [] ↔ reader'.events = [])
      {objects objects' : List (List (Str × Json))} (hpending : Pending reader.events objects)
      (hpending' : Pending reader'.events objects') (hsame : SameEffects env objects objects')

/-- What two readers in lockstep have in common after a chunk. -/
structure SameChunks (env : ReaderEnv) (result result' : CommandObjectHandler × Reader) :
    Prop where
  commands_eq : result.1.commands = result'.1.commands
  readers : SameReaders env result.2 result'.2
  handlers : result.2.failed = false → result.1 = result'.1 ∧ IsIdle result.1

section Lockstep

variable {env : ReaderEnv} {options : ParseOptions} {handler : CommandObjectHandler}

theorem sameChunks_of_stops {commands : List CommandObject}
    {result result' : Option (CommandObjectHandler × Reader)} (h : Stops env commands result)
    (h' : Stops env commands result') : Option.Rel (SameChunks env) result result' := by
  unfold Stops at h h'
  split at h
  case isTrue hcomplete =>
    rw [if_pos hcomplete] at h'
    obtain ⟨handler, reader, rfl, hfailed, hcommands⟩ := h
    obtain ⟨handler', reader', rfl, hfailed', hcommands'⟩ := h'
    refine Option.Rel.some ⟨hcommands.trans hcommands'.symm, .failed hfailed hfailed', ?_⟩
    intro hfalse
    exact absurd hfalse (by simp [hfailed])
  case isFalse hcomplete =>
    rw [if_neg hcomplete] at h'
    rw [h, h']
    exact Option.Rel.none

theorem sameChunks_of_reachedLimit (hlimit : handler.reachedLimit = true) (hidle : IsIdle handler)
    {objects objects' : List (List (Str × Json))} (h : SameEffects env objects objects')
    (count count' : Nat) :
    Option.Rel (SameChunks env)
      (readEvents env handler (elementEvents (objects.map .object) ++ [.endArray count]))
      (readEvents env handler (elementEvents (objects'.map .object) ++ [.endArray count'])) := by
  rw [readEvents_of_reachedLimit hlimit, readEvents_of_reachedLimit hlimit]
  refine Option.Rel.some ⟨rfl, ?_, fun _ => ⟨rfl, hidle⟩⟩
  exact .reading rfl rfl (by simp) (Or.inr ⟨count, Or.inl rfl⟩) (Or.inr ⟨count', Or.inl rfl⟩) h

/-- The elements of the two arrays. -/
theorem readEvents_sameElements {objects objects' : List (List (Str × Json))}
    (h : SameEffects env objects objects') (hidle : IsIdle handler) (count count' : Nat) :
    Option.Rel (SameChunks env)
      (readEvents env handler (elementEvents (objects.map .object) ++ [.endArray count]))
      (readEvents env handler (elementEvents (objects'.map .object) ++ [.endArray count'])) := by
  -- a chunk may be full before each object, and both sides then stop at the same one
  induction h generalizing handler with
  | nil =>
      cases hlimit : handler.reachedLimit with
      | true => exact sameChunks_of_reachedLimit hlimit hidle .nil count count'
      | false =>
          show Option.Rel _ (readEvents env handler [.endArray count])
            (readEvents env handler [.endArray count'])
          rw [@readEvents_cons_of_accepted _ _ handler hlimit _ rfl,
            @readEvents_cons_of_accepted _ _ handler hlimit _ rfl]
          refine Option.Rel.some ⟨rfl, ?_, fun _ => ⟨rfl, hidle⟩⟩
          exact .reading rfl rfl Iff.rfl (Or.inl ⟨rfl, rfl⟩) (Or.inl ⟨rfl, rfl⟩) .nil
  | @declined members members' _ _ hmembers hmembers' hnone hnone' =>
      cases hlimit : handler.reachedLimit with
      | true =>
          exact sameChunks_of_reachedLimit hlimit hidle
            (.declined hmembers hmembers' hnone hnone') count count'
      | false =>
          have hstops : ∀ {others : List (Str × Json)}, AreMembers others →
              objectEffect env.unescapeCommandLine others = none →
              LeadsTo env handler (Json.object others).events none := by
            rintro others ⟨validation, hothers⟩ heffect
            have hobject := @leadsTo_object env _ hlimit hidle.1 hidle.2 _ _ hothers
            rwa [heffect] at hobject
          rw [List.map_cons, elementEvents, List.append_assoc, List.map_cons, elementEvents,
            List.append_assoc]
          exact sameChunks_of_stops (hstops hmembers hnone _) (hstops hmembers' hnone' _)
  | @cons members members' _ _ command hmembers hmembers' hsome hsome' hrest ih =>
      cases hlimit : handler.reachedLimit with
      | true =>
          exact sameChunks_of_reachedLimit hlimit hidle
            (.cons hmembers hmembers' hsome hsome' hrest) count count'
      | false =>
          have hleads : ∀ {others : List (Str × Json)}, AreMembers others →
              objectEffect env.unescapeCommandLine others = some command →
              LeadsTo env handler (Json.object others).events
                (some { handler with commands := handler.commands ++ [command] }) := by
            rintro others ⟨validation, hothers⟩ heffect
            have hobject := @leadsTo_object env _ hlimit hidle.1 hidle.2 _ _ hothers
            rwa [heffect] at hobject
          rw [List.map_cons, elementEvents, List.append_assoc, List.map_cons, elementEvents,
            List.append_assoc, hleads hmembers hsome, hleads hmembers' hsome']
          exact ih hidle

/-- The start of the array makes no difference to a handler that goes on. -/
theorem readEvents_of_pending (hlimit : handler.reachedLimit = false) {events : List SaxEvent}
    {objects : List (List (Str × Json))} (hpending : Pending events objects) (hne : events ≠ []) :
    ∃ count, readEvents env handler events =
      readEvents env handler (elementEvents (objects.map .object) ++ [.endArray count]) := by
  rcases hpending with ⟨rfl, -⟩ | ⟨count, rfl | rfl⟩
  · exact absurd rfl hne
  · exact ⟨count, rfl⟩
  · exact ⟨count, @readEvents_cons_of_accepted _ _ handler hlimit _ rfl _⟩

/-- A chunk of the two arrays. -/
theorem readEvents_same {events events' : List SaxEvent}
    {objects objects' : List (List (Str × Json))} (hempty : events = [] ↔ events' = [])
    (hpending : Pending events objects) (hpending' : Pending events' objects')
    (h : SameEffects env objects objects') (hidle : IsIdle handler) :
    Option.Rel (SameChunks env) (readEvents env handler events)
      (readEvents env handler events') := by
  have hunread : Option.Rel (SameChunks env) (some (handler, { events }))
      (some (handler, { events := events' })) :=
    Option.Rel.some ⟨rfl, .reading rfl rfl hempty hpending hpending' h, fun _ => ⟨rfl, hidle⟩⟩
  cases hlimit : handler.reachedLimit with
  | true =>
      rw [readEvents_of_reachedLimit hlimit, readEvents_of_reachedLimit hlimit]
      exact hunread
  | false =>
      by_cases hnil : events = []
      · obtain rfl := hempty.mp hnil
        obtain rfl := hnil
        exact hunread
      · obtain ⟨count, hread⟩ := @readEvents_of_pending env _ hlimit _ _ hpending hnil
        obtain ⟨count', hread'⟩ := @readEvents_of_pending env _ hlimit _ _ hpending'
          (mt hempty.mpr hnil)
        rw [hread, hread']
        exact readEvents_sameElements h hidle count count'

/-! ### Enough fuel -/

/-- An event adds at most one command. -/
theorem length_commands_handle (unescapeCommandLine : Str → List Str)
    (handler : CommandObjectHandler) (event : SaxEvent) :
    (handler.handle unescapeCommandLine event).1.commands.length ≤ handler.commands.length + 1 := by
  cases event with
  | string text =>
      show (handler.string unescapeCommandLine text).1.commands.length ≤ _
      unfold CommandObjectHandler.string
      split
      · exact Nat.le_succ _
      · exact Nat.le_succ _
  | endObject count =>
      show (handler.commands ++ [handler.wipCommand]).length ≤ _
      rw [List.length_append]
      exact Nat.le_refl _
  | _ => exact Nat.le_succ _

/-- Every command takes an event. -/
theorem length_readEvents {handler' : CommandObjectHandler} {reader : Reader}
    {events : List SaxEvent} (h : readEvents env handler events = some (handler', reader)) :
    handler'.commands.length + reader.events.length ≤
      handler.commands.length + events.length := by
  induction events generalizing handler with
  | nil =>
      obtain ⟨rfl, rfl⟩ := Prod.mk.inj (Option.some.inj h)
      exact Nat.le_refl _
  | cons event events ih =>
      have hone := length_commands_handle env.unescapeCommandLine handler event
      rw [readEvents] at h
      rw [List.length_cons]
      split at h
      · obtain ⟨rfl, rfl⟩ := Prod.mk.inj (Option.some.inj h)
        exact Nat.le_refl _
      · split at h
        case h_1 next heq =>
          rw [heq] at hone
          change next.commands.length ≤ _ at hone
          have hrest := ih h
          omega
        case h_2 next heq =>
          rw [heq] at hone
          change next.commands.length ≤ _ at hone
          split at h
          · obtain ⟨rfl, rfl⟩ := Prod.mk.inj (Option.some.inj h)
            show _ + events.length ≤ _
            omega
          · cases h

/-- More fuel than events is enough fuel. -/
theorem parseChunks_of_le {fuel fuel' : Nat} {parser : StreamingParser}
    (hcommands : parser.handler.commands = []) (hfuel : parser.reader.events.length < fuel)
    (hle : fuel ≤ fuel') :
    parseChunks env options fuel parser = parseChunks env options fuel' parser := by
  induction fuel generalizing fuel' parser with
  | zero => exact absurd hfuel (Nat.not_lt_zero _)
  | succ fuel ih =>
      obtain ⟨fuel', rfl⟩ : ∃ k, fuel' = k + 1 := ⟨fuel' - 1, by omega⟩
      rw [parseChunks_succ, parseChunks_succ]
      cases hread : readChunk env parser with
      | none => rfl
      | some chunk =>
          simp only [Option.bind_some]
          by_cases hnil : chunk.1.commands = []
          · rw [if_pos hnil, if_pos hnil]
          · rw [if_neg hnil, if_neg hnil]
            have hlength : chunk.1.commands.length + chunk.2.events.length ≤
                parser.reader.events.length := by
              unfold readChunk at hread
              split at hread
              · obtain rfl := Option.some.inj hread
                exact absurd hcommands hnil
              · have hevents := length_readEvents hread
                rwa [hcommands, List.length_nil, Nat.zero_add] at hevents
            have hpos := List.length_pos_iff.mpr hnil
            have hrest := @ih fuel' (acceptChunk env options parser chunk).1 rfl
              (by show chunk.2.events.length < fuel; omega) (by omega)
            rw [hrest]

/-! ### The same commands -/

/-- Two parsers that go on to deliver the same commands. -/
structure SameParsers (env : ReaderEnv) (parser parser' : StreamingParser) : Prop where
  commands_nil : parser.handler.commands = []
  commands_nil' : parser'.handler.commands = []
  currentIndex_eq : parser.currentIndex = parser'.currentIndex
  stats_eq : parser.stats = parser'.stats
  readers : SameReaders env parser.reader parser'.reader
  handlers : parser.reader.failed = false → parser.handler = parser'.handler ∧
    IsIdle parser.handler

variable {parser parser' : StreamingParser}

theorem readChunk_same (h : SameParsers env parser parser') :
    Option.Rel (SameChunks env) (readChunk env parser) (readChunk env parser') := by
  unfold readChunk
  cases h.readers with
  | failed hfailed hfailed' =>
      rw [if_pos hfailed, if_pos hfailed']
      refine Option.Rel.some ⟨?_, h.readers, h.handlers⟩
      rw [h.commands_nil, h.commands_nil']
  | reading hfailed hfailed' hempty hpending hpending' hsame =>
      obtain ⟨hhandler, hidle⟩ := h.handlers hfailed
      rw [if_neg (by simp [hfailed]), if_neg (by simp [hfailed']), ← hhandler]
      exact readEvents_same hempty hpending hpending' hsame hidle

theorem acceptChunk_same (options : ParseOptions) (h : SameParsers env parser parser')
    {chunk chunk' : CommandObjectHandler × Reader} (hchunk : SameChunks env chunk chunk') :
    SameParsers env (acceptChunk env options parser chunk).1
        (acceptChunk env options parser' chunk').1 ∧
      (acceptChunk env options parser chunk).2 = (acceptChunk env options parser' chunk').2 := by
  unfold acceptChunk
  rw [hchunk.commands_eq, h.currentIndex_eq, h.stats_eq]
  refine ⟨⟨rfl, rfl, rfl, rfl, hchunk.readers, fun hfailed => ?_⟩, rfl⟩
  obtain ⟨heq, hidle⟩ := hchunk.handlers hfailed
  exact ⟨by rw [heq], hidle⟩

/-- The chunk loop, with the same fuel. -/
theorem parseChunks_same (fuel : Nat) (h : SameParsers env parser parser') :
    Option.Rel (fun result result' => SameParsers env result.1 result'.1 ∧ result.2 = result'.2)
      (parseChunks env options fuel parser) (parseChunks env options fuel parser') := by
  induction fuel generalizing parser parser' with
  | zero => exact Option.Rel.some ⟨h, rfl⟩
  | succ fuel ih =>
      rw [parseChunks_succ, parseChunks_succ]
      have hsame := readChunk_same h
      generalize readChunk env parser = first, readChunk env parser' = second at hsame ⊢
      cases hsame with
      | none => exact Option.Rel.none
      | @some chunk chunk' hchunk =>
          simp only [Option.bind_some]
          by_cases hnil : chunk.1.commands = []
          · have hnil' := hchunk.commands_eq ▸ hnil
            rw [if_pos hnil, if_pos hnil']
            exact Option.Rel.some ⟨⟨hnil, hnil', h.currentIndex_eq, h.stats_eq, hchunk.readers,
              hchunk.handlers⟩, rfl⟩
          · have hnil' := hchunk.commands_eq ▸ hnil
            obtain ⟨haccept, hout⟩ := acceptChunk_same options h hchunk
            rw [if_neg hnil, if_neg hnil', ← hout]
            split
            · exact ih haccept
            · exact Option.Rel.some ⟨haccept, hout⟩

/-- **One call on each.** -/
theorem parseMore_same (h : SameParsers env parser parser') :
    Option.Rel (fun result result' => SameParsers env result.1 result'.1 ∧ result.2 = result'.2)
      (parser.parseMore env options) (parser'.parseMore env options) := by
  have hcomplete : (parser.reader.events = [] ∨ parser.reader.failed = true) ↔
      (parser'.reader.events = [] ∨ parser'.reader.failed = true) := by
    cases h.readers with
    | failed hfailed hfailed' => simp [hfailed, hfailed']
    | reading hfailed hfailed' hempty _ _ _ => simp [hfailed, hfailed', hempty]
  unfold parseMore
  by_cases hdone : parser.reader.events = [] ∨ parser.reader.failed = true
  · rw [if_pos hdone, if_pos (hcomplete.mp hdone)]
    exact Option.Rel.some ⟨h, rfl⟩
  · rw [if_neg hdone, if_neg (mt hcomplete.mpr hdone)]
    -- with fuel for both
    let fuel := max (parser.reader.events.length + 1) (parser'.reader.events.length + 1)
    have hfuel := @parseChunks_of_le env options _ fuel parser h.commands_nil
      (Nat.lt_succ_self _) (Nat.le_max_left _ _)
    have hfuel' := @parseChunks_of_le env options _ fuel parser' h.commands_nil'
      (Nat.lt_succ_self _) (Nat.le_max_right _ _)
    have hsame := @parseChunks_same env options _ _ fuel h
    rw [hfuel, hfuel']
    generalize parseChunks env options fuel parser = first,
      parseChunks env options fuel parser' = second at hsame ⊢
    cases hsame with
    | none => exact Option.Rel.none
    | @some result result' hresult =>
        refine Option.Rel.some ⟨hresult.1, ?_⟩
        show result.2.map _ = result'.2.map _
        rw [hresult.2]

/-- **All calls on each.** -/
theorem produces_of_same {commands : List CommandObject} (h : SameParsers env parser parser')
    (hproduces : Produces env options parser commands) :
    Produces env options parser' commands := by
  induction hproduces generalizing parser' with
  | done hcall =>
      have hsame := @parseMore_same env options _ _ h
      rw [hcall] at hsame
      generalize hcall' : parser'.parseMore env options = second at hsame
      cases hsame with
      | @some _ result hresult =>
          obtain ⟨last, out⟩ := result
          obtain rfl : [] = out := hresult.2
          exact .done hcall'
  | more hcall hne _ ih =>
      have hsame := @parseMore_same env options _ _ h
      rw [hcall] at hsame
      generalize hcall' : parser'.parseMore env options = second at hsame
      cases hsame with
      | @some _ result hresult =>
          obtain ⟨last, out⟩ := result
          obtain rfl : _ = out := hresult.2
          exact .more hcall' hne (ih hresult.1)

theorem SameEffects.symm {objects objects' : List (List (Str × Json))}
    (h : SameEffects env objects objects') : SameEffects env objects' objects := by
  induction h with
  | nil => exact .nil
  | declined hmembers hmembers' hnone hnone' => exact .declined hmembers' hmembers hnone' hnone
  | cons hmembers hmembers' hsome hsome' _ ih => exact .cons hmembers' hmembers hsome' hsome ih

theorem sameParsers_initializeParser {objects objects' : List (List (Str × Json))}
    (h : SameEffects env objects objects') :
    SameParsers env (initializeParser options (.array (objects.map .object)))
      (initializeParser options (.array (objects'.map .object))) := by
  have hpending : ∀ others : List (List (Str × Json)),
      Pending (Json.array (others.map .object)).events others := by
    intro others
    rw [events]
    exact Or.inr ⟨_, Or.inr rfl⟩
  refine ⟨rfl, rfl, rfl, rfl, ?_, fun _ => ⟨rfl, rfl, rfl⟩⟩
  refine .reading rfl rfl ?_ (hpending objects) (hpending objects') h
  exact iff_of_false (events_ne_nil _) (events_ne_nil _)

end Lockstep

/-! ## Reading a whole database at once -/

/-- The commands of the objects before the first that stops the reader. -/
def readable (unescapeCommandLine : Str → List Str) :
    List (List (Str × Json)) → List CommandObject
  | [] => []
  | members :: objects =>
      match objectEffect unescapeCommandLine members with
      | some command => command :: readable unescapeCommandLine objects
      | none => []

/-- Surroundings in which nothing is filtered and an error ends the text. -/
def openEnv (unescapeCommandLine : Str → List Str) : ReaderEnv where
  parserEnv :=
    { fileExtensionMatches := fun _ => true
      exists_ := fun _ => true
      adjustedArguments := CommandObject.arguments }
  unescapeCommandLine := unescapeCommandLine
  completeOnError := true

/-- Options that filter nothing and let one call read everything. -/
def openOptions (count : Nat) : ParseOptions where
  refillCount := count + 1
  adjustCommandLine := false
  skipNonMainFileEntries := false
  checkFilesExist := false

section Whole

variable {unescapeCommandLine : Str → List Str}

theorem unescapeCommandLine_openEnv :
    (openEnv unescapeCommandLine).unescapeCommandLine = unescapeCommandLine := rfl

theorem readEvents_readable {objects : List (List (Str × Json))}
    (hmembers : ∀ members ∈ objects, AreMembers members) {handler : CommandObjectHandler}
    (hidle : IsIdle handler)
    (hroom : handler.commands.length + objects.length < handler.parseLimit) (count : Nat) :
    ∃ handler' reader, readEvents (openEnv unescapeCommandLine) handler
        (elementEvents (objects.map .object) ++ [.endArray count]) = some (handler', reader) ∧
      handler'.commands = handler.commands ++ readable unescapeCommandLine objects ∧
      (reader.events = [] ∨ reader.failed = true) := by
  have hlimit : handler.reachedLimit = false := by
    simp [CommandObjectHandler.reachedLimit]
    omega
  induction objects generalizing handler with
  | nil =>
      refine ⟨handler, { events := [] }, ?_, by simp [readable], Or.inl rfl⟩
      exact @readEvents_cons_of_accepted _ _ handler hlimit _ rfl []
  | cons members objects ih =>
      obtain ⟨⟨options, hfirst⟩, hothers⟩ := List.forall_mem_cons.mp hmembers
      have hobject := @leadsTo_object (openEnv unescapeCommandLine) _ hlimit hidle.1 hidle.2 _ _
        hfirst
      rw [unescapeCommandLine_openEnv] at hobject
      rw [List.map_cons, elementEvents, List.append_assoc]
      cases heffect : objectEffect unescapeCommandLine members with
      | none =>
          rw [heffect] at hobject
          obtain ⟨handler', reader, hread, hfailed, hcommands⟩ :=
            hobject (elementEvents (objects.map .object) ++ [.endArray count])
          refine ⟨handler', reader, hread, ?_, Or.inr hfailed⟩
          simp [readable, heffect, hcommands]
      | some command =>
          rw [heffect] at hobject
          rw [List.length_cons] at hroom
          obtain ⟨handler', reader, hread, hcommands, hdone⟩ := @ih hothers
            { handler with commands := handler.commands ++ [command] } hidle
            (by simp only [List.length_append, List.length_singleton]; omega)
            (by simp [CommandObjectHandler.reachedLimit]; omega)
          refine ⟨handler', reader, (hobject _).trans hread, ?_, hdone⟩
          rw [hcommands]
          simp [readable, heffect]

theorem keeps_openOptions (count : Nat) (command : CommandObject) :
    ResumableParser.keeps (openEnv unescapeCommandLine).parserEnv (openOptions count) command =
      true := rfl

/-- Without filters all commands are kept; only their numbers are new. -/
theorem map_keptFrom_openOptions (count start : Nat) (commands : List CommandObject) :
    (ResumableParser.keptFrom (openEnv unescapeCommandLine).parserEnv (openOptions count) start
      commands).map (fun command => { command with index := 0 }) =
      commands.map fun command => { command with index := 0 } := by
  induction commands generalizing start with
  | nil => rfl
  | cons command commands ih =>
      rw [ResumableParser.keptFrom, if_pos (keeps_openOptions count _), List.map_cons, ih,
        List.map_cons]

/-- All that can be read is produced. -/
theorem produces_readable {objects : List (List (Str × Json))}
    (hmembers : ∀ members ∈ objects, AreMembers members) :
    Produces (openEnv unescapeCommandLine) (openOptions objects.length)
      (initializeParser (openOptions objects.length) (.array (objects.map .object)))
      (ResumableParser.keptFrom (openEnv unescapeCommandLine).parserEnv
        (openOptions objects.length) 0 (readable unescapeCommandLine objects)) := by
  set env := openEnv unescapeCommandLine with henv
  set options := openOptions objects.length with hoptions
  set parser := initializeParser options (.array (objects.map .object)) with hparser
  obtain ⟨handler, reader, hread, hcommands, hdone⟩ := @readEvents_readable unescapeCommandLine
    objects hmembers parser.handler ⟨rfl, rfl⟩
    (by simp [hparser, initializeParser, hoptions, openOptions])
    (objects.map Json.object).length
  have hlimit : parser.handler.reachedLimit = false := by
    simp [hparser, initializeParser, hoptions, openOptions, CommandObjectHandler.reachedLimit]
  have hchunk : readChunk env parser = some (handler, reader) := by
    rw [← hread, readChunk, if_neg (by simp [hparser, initializeParser])]
    exact @readEvents_cons_of_accepted _ _ parser.handler hlimit _ rfl _
  rw [show parser.handler.commands = [] from rfl, List.nil_append] at hcommands
  have hopen : ¬(parser.reader.events = [] ∨ parser.reader.failed = true) := by
    simp [hparser, initializeParser, events_ne_nil]
  by_cases hnil : handler.commands = []
  · -- nothing can be read
    have hcall : parser.parseMore env options = some ({ parser with handler, reader }, []) := by
      rw [parseMore, if_neg hopen, parseChunks_succ, hchunk]
      simp [hnil]
    rw [← hcommands, hnil]
    exact .done hcall
  · -- everything arrives in the first chunk
    have haccepted : (acceptChunk env options parser (handler, reader)).2 =
        ResumableParser.keptFrom env.parserEnv options 0 handler.commands :=
      (ResumableParser.foldl_acceptCommand_spec env.parserEnv options handler.commands _).2.2
    have hne : ResumableParser.keptFrom env.parserEnv options 0 handler.commands ≠ [] := by
      intro hempty
      have hmap := @map_keptFrom_openOptions unescapeCommandLine objects.length 0 handler.commands
      rw [← henv, ← hoptions, hempty] at hmap
      exact hnil (List.map_eq_nil_iff.mp hmap.symm)
    have hid : ResumableParser.adjust env.parserEnv options = id := by
      funext command
      simp [ResumableParser.adjust, hoptions, openOptions]
    have hcall : parser.parseMore env options =
        some (acceptChunk env options parser (handler, reader)) := by
      rw [parseMore, if_neg hopen, parseChunks_succ, hchunk]
      simp only [Option.bind_some, if_neg hnil, haccepted, if_neg hne, Option.bind_eq_bind, hid,
        List.map_id]
      rw [← haccepted]
    have hlast : (acceptChunk env options parser (handler, reader)).1.parseMore env options =
        some ((acceptChunk env options parser (handler, reader)).1, []) := if_pos hdone
    rw [← hcommands, ← List.append_nil (ResumableParser.keptFrom _ _ _ _), ← haccepted]
    exact .more hcall (haccepted ▸ hne) (.done hlast)

end Whole

end StreamingParser

/-! ## When variants produce the same commands -/

theorem areMembers_of_accepted {validation : ValidationOptions} {presentKeys : UInt32}
    {objects : List (List (Str × Json))} {count : Nat}
    (h : validateAndCountJobs validation presentKeys (.array (objects.map .object)) =
      some count) :
    ∀ members ∈ objects, StreamingParser.AreMembers members := by
  obtain ⟨others, heq, -, hmembers, -⟩ := validateAndCountJobs_eq_some_iff.mp h
  have hobjects := congrArg objectsOf heq
  rw [objectsOf_objects, objectsOf_objects] at hobjects
  intro members hmem
  exact ⟨validation, hmembers members (hobjects ▸ hmem)⟩

/-- Objects that are read alike are read as the same commands. -/
theorem sameEffects_of_readAlike {env : ReaderEnv} {objects objects' : List (List (Str × Json))}
    (hlength : objects.length = objects'.length)
    (hmembers : ∀ members ∈ objects, StreamingParser.AreMembers members)
    (hmembers' : ∀ members ∈ objects', StreamingParser.AreMembers members)
    (h : ReadAlike objects objects') : StreamingParser.SameEffects env objects objects' := by
  induction objects generalizing objects' with
  | nil =>
      obtain rfl := List.length_eq_zero_iff.mp hlength.symm
      exact .nil
  | cons members objects ih =>
      obtain ⟨members', objects', rfl⟩ := List.exists_cons_of_length_eq_add_one hlength.symm
      obtain ⟨⟨options, hfirst⟩, hothers⟩ := List.forall_mem_cons.mp hmembers
      obtain ⟨⟨options', hfirst'⟩, hothers'⟩ := List.forall_mem_cons.mp hmembers'
      obtain ⟨hstarts, hrest⟩ := h
      have heffect := @objectEffect_eq_describe env.unescapeCommandLine _ _ hfirst
      have heffect' := @objectEffect_eq_describe env.unescapeCommandLine _ _ hfirst'
      by_cases hunknown : StartsUnknown members
      · rw [if_pos hunknown] at heffect
        rw [if_pos (hstarts.mp hunknown)] at heffect'
        exact .declined ⟨options, hfirst⟩ ⟨options', hfirst'⟩ heffect heffect'
      · obtain ⟨hreading, halike⟩ := hrest hunknown
        rw [if_neg hunknown] at heffect
        rw [if_neg (mt hstarts.mpr hunknown), ← describe_eq hreading] at heffect'
        exact .cons ⟨options, hfirst⟩ ⟨options', hfirst'⟩ heffect heffect'
          (ih (Nat.succ.inj hlength) hothers hothers' halike)

/-- **The order of members does not matter in plain objects.** -/
theorem unaffected_of_perm {validation : ValidationOptions} {presentKeys presentKeys' : UInt32}
    {database database' : Json} {count count' : Nat}
    (haccepted : validateAndCountJobs validation presentKeys database = some count)
    (haccepted' : validateAndCountJobs validation presentKeys' database' = some count')
    (hplain : ∀ members ∈ objectsOf database, IsPlain members)
    (hperm : List.Forall₂ List.Perm (objectsOf database) (objectsOf database')) :
    Unaffected database database' := by
  obtain ⟨objects, rfl, -, hmembers, -⟩ := validateAndCountJobs_eq_some_iff.mp haccepted
  obtain ⟨objects', rfl, -, hmembers', -⟩ := validateAndCountJobs_eq_some_iff.mp haccepted'
  rw [objectsOf_objects] at hplain
  rw [objectsOf_objects, objectsOf_objects] at hperm
  intro env options _ commands
  have hsame : StreamingParser.SameEffects env objects objects' := by
    clear haccepted haccepted'
    induction hperm with
    | nil => exact .nil
    | cons hfirst _ ih =>
        obtain ⟨hhead, htail⟩ := List.forall_mem_cons.mp hmembers
        obtain ⟨hhead', htail'⟩ := List.forall_mem_cons.mp hmembers'
        obtain ⟨hplain, hplains⟩ := List.forall_mem_cons.mp hplain
        refine .cons ⟨validation, hhead⟩ ⟨validation, hhead'⟩
          (objectEffect_eq_commandOf hplain hhead) ?_ (ih hplains htail htail')
        rw [objectEffect_eq_commandOf (hplain.perm hfirst) hhead', commandOf_perm hplain hfirst]
  exact ⟨StreamingParser.produces_of_same (StreamingParser.sameParsers_initializeParser hsame),
    StreamingParser.produces_of_same (StreamingParser.sameParsers_initializeParser hsame.symm)⟩

/-- Objects that are read as the same commands, however command lines are split, are read
alike. -/
theorem readAlike_of_readable {objects objects' : List (List (Str × Json))}
    (hlength : objects.length = objects'.length)
    (hmembers : ∀ members ∈ objects, StreamingParser.AreMembers members)
    (hmembers' : ∀ members ∈ objects', StreamingParser.AreMembers members)
    (h : ∀ split : Str → List Str,
      (StreamingParser.readable split objects).map (fun command => { command with index := 0 }) =
        (StreamingParser.readable split objects').map fun command => { command with index := 0 }) :
    ReadAlike objects objects' := by
  induction objects generalizing objects' with
  | nil => trivial
  | cons members objects ih =>
      obtain ⟨members', objects', rfl⟩ := List.exists_cons_of_length_eq_add_one hlength.symm
      obtain ⟨⟨options, hfirst⟩, hothers⟩ := List.forall_mem_cons.mp hmembers
      obtain ⟨⟨options', hfirst'⟩, hothers'⟩ := List.forall_mem_cons.mp hmembers'
      simp only [StreamingParser.readable, objectEffect_eq_describe hfirst,
        objectEffect_eq_describe hfirst'] at h
      have hstarts : StartsUnknown members ↔ StartsUnknown members' := by
        have hsplit := h fun _ => []
        by_cases hunknown : StartsUnknown members <;>
          by_cases hunknown' : StartsUnknown members' <;> simp [hunknown, hunknown'] at hsplit ⊢
      refine ⟨hstarts, fun hunknown => ?_⟩
      simp only [if_neg hunknown, if_neg (mt hstarts.mpr hunknown), List.map_cons,
        List.cons.injEq] at h
      exact ⟨sameReading_of_describe fun split => (h split).1,
        ih (Nat.succ.inj hlength) hothers hothers' fun split => (h split).2⟩

/-- Databases that produce the same commands are read as the same commands. -/
theorem readable_eq_of_unaffected {objects objects' : List (List (Str × Json))}
    (hlength : objects.length = objects'.length)
    (hmembers : ∀ members ∈ objects, StreamingParser.AreMembers members)
    (hmembers' : ∀ members ∈ objects', StreamingParser.AreMembers members)
    (h : Unaffected (.array (objects.map .object)) (.array (objects'.map .object)))
    (split : Str → List Str) :
    (StreamingParser.readable split objects).map (fun command => { command with index := 0 }) =
      (StreamingParser.readable split objects').map fun command => { command with index := 0 } := by
  have hproduces := (h (StreamingParser.openEnv split)
    (StreamingParser.openOptions objects.length) (Nat.le_add_left 1 _) _).mp
    (StreamingParser.produces_readable hmembers)
  have hproduces' := @StreamingParser.produces_readable split objects' hmembers'
  rw [← hlength] at hproduces'
  have heq := congrArg (List.map fun command => { command with index := 0 })
    (hproduces.unique hproduces')
  rwa [StreamingParser.map_keptFrom_openOptions, StreamingParser.map_keptFrom_openOptions] at heq

/-- **When variants of a database produce the same commands**: object by object, up to the first
that starts with an unknown member, both versions start with an unknown member or neither; and
if the value of an unknown member counts as one more value of the last recognised key before it,
both have the same last directory, the same last file, the same last command line and the same
arguments after it. -/
theorem unaffected_iff {validation : ValidationOptions} {presentKeys presentKeys' : UInt32}
    {database database' : Json} {count count' : Nat}
    (haccepted : validateAndCountJobs validation presentKeys database = some count)
    (haccepted' : validateAndCountJobs validation presentKeys' database' = some count')
    (hvariant : List.Forall₂ IsVariant (objectsOf database) (objectsOf database')) :
    Unaffected database database' ↔ ReadAlike (objectsOf database) (objectsOf database') := by
  obtain ⟨objects, rfl, -⟩ := validateAndCountJobs_eq_some_iff.mp haccepted
  obtain ⟨objects', rfl, -⟩ := validateAndCountJobs_eq_some_iff.mp haccepted'
  rw [objectsOf_objects, objectsOf_objects] at hvariant ⊢
  have hlength := hvariant.length_eq
  have hare := areMembers_of_accepted haccepted
  have hare' := areMembers_of_accepted haccepted'
  constructor
  · intro h
    exact readAlike_of_readable hlength hare hare'
      (readable_eq_of_unaffected hlength hare hare' h)
  · intro h env options _ commands
    have hsame := @sameEffects_of_readAlike env _ _ hlength hare hare' h
    exact ⟨StreamingParser.produces_of_same (StreamingParser.sameParsers_initializeParser hsame),
      StreamingParser.produces_of_same (StreamingParser.sameParsers_initializeParser hsame.symm)⟩

/-- One command object, with a path for its output. -/
def compileObject : List (Str × Json) :=
  [("directory".toList, .string "/d".toList), ("file".toList, .string "a.cc".toList),
    ("output".toList, .string "a.o".toList), ("command".toList, .string "cc a.cc".toList)]

/-- An unknown member. -/
def noteMember : Str × Json := ("note".toList, .string "/n".toList)

theorem unaffected_iff_noteAfterOutput :
    Unaffected (.array [.object compileObject])
      (.array [.object (compileObject.insertIdx 3 noteMember)]) := by
  refine (@unaffected_iff ⟨true⟩ 0 0 _ _ 1 1 (by decide) (by decide) ?_).mpr ?_
  · exact List.Forall₂.cons (List.Perm.of_eq rfl) .nil
  · exact ⟨by decide, fun _ => ⟨⟨by decide, by decide, by decide, by decide⟩, trivial⟩⟩

/-- A note in front of the other members makes the parser drop the object. -/
theorem not_unaffected_noteFirst :
    validateAndCountJobs ⟨true⟩ 0 (.array [.object compileObject]) = some 1 ∧
      validateAndCountJobs ⟨true⟩ 0 (.array [.object (noteMember :: compileObject)]) = some 1 ∧
      List.Forall₂ IsVariant [compileObject] [noteMember :: compileObject] ∧
      ¬Unaffected (.array [.object compileObject])
        (.array [.object (noteMember :: compileObject)]) := by
  have haccepted : validateAndCountJobs ⟨true⟩ 0 (.array [.object compileObject]) = some 1 := by
    decide
  have haccepted' :
      validateAndCountJobs ⟨true⟩ 0 (.array [.object (noteMember :: compileObject)]) = some 1 := by
    decide
  refine ⟨haccepted, haccepted', .cons (List.Perm.of_eq rfl) .nil, fun h => ?_⟩
  have hsame := @readable_eq_of_unaffected [compileObject] [noteMember :: compileObject] rfl
    (areMembers_of_accepted haccepted) (areMembers_of_accepted haccepted') h fun text => [text]
  exact absurd hsame (by decide)

end Compdb

end ScipClang
