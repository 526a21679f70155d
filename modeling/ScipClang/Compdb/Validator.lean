import ScipClang.CompilationDatabase
import ScipClang.Library.Sax

/-!
# Validating a compilation database

`ValidateHandler` (`indexer/CompilationDatabase.cc`) checks the shape of a compilation
database while it is read, and `validateAndCountJobs` counts its command objects along the
way.  The handler keeps the last key that it recognised, and the value of a member is
checked against that key.  The key is not reset when an unknown one is seen, nor at the end
of an object.

* `IsCommandDatabase`: the grammar of compilation databases.
* `memberStep`: what the handler makes of a member, given the last key that was recognised.
* `validateAndCountJobs_eq_some_iff`: what is accepted, in terms of the grammar.
-/

namespace ScipClang

open Json

namespace Compdb

/-! ## The handler -/

/-- `compdb::Key`. -/
inductive Key where
  | Unset
  | Directory
  | File
  | Arguments
  | Command
  | Output
deriving DecidableEq

/-- The bit that stands for a key in `presentKeys`. -/
def Key.bit : Key → UInt32
  | .Unset => 0
  | .Directory => (1 : UInt32) <<< 1
  | .File => (1 : UInt32) <<< 2
  | .Arguments => (1 : UInt32) <<< 3
  | .Command => (1 : UInt32) <<< 4
  | .Output => (1 : UInt32) <<< 5

/-- The key that a text names; `Unset` for an unknown one. -/
def Key.ofText (key : Str) : Key :=
  if key = "directory".toList then .Directory
  else if key = "file".toList then .File
  else if key = "command".toList then .Command
  else if key = "arguments".toList then .Arguments
  else if key = "output".toList then .Output
  else .Unset

/-- `compdb::ValidationOptions`, as far as the handler reads them. -/
structure ValidationOptions where
  checkDirectoryPathsAreAbsolute : Bool

/-- `ValidateHandler::Context`. -/
inductive Context where
  | Outermost
  | InTopLevelArray
  | InObject
  | InArgumentsValue
  | InArgumentsValueArray
deriving DecidableEq

/-- How a context is called in error messages. -/
def Context.description : Context → Str
  | .Outermost => "outermost context".toList
  | .InTopLevelArray => "top-level array context".toList
  | .InObject => "command object context".toList
  | .InArgumentsValue => "value for the key 'arguments'".toList
  | .InArgumentsValueArray => "array for the key 'arguments'".toList

/-- `ValidateHandler`, together with the `ArrayCountHandler` that it forwards to.  The
constructor leaves `presentKeys` uninitialised. -/
structure ValidateHandler where
  options : ValidationOptions
  presentKeys : UInt32
  context : Context := .Outermost
  lastKey : Key := .Unset
  errorMessage : Str := []
  warnings : List Str := []
  /-- What `EndObject` logs about missing keys. -/
  logged : List Str := []
  /-- `ArrayCountHandler::count`. -/
  count : Nat := 0

namespace ValidateHandler

/-- Decline an event with an error message. -/
def decline (handler : ValidateHandler) (errorMessage : Str) : ValidateHandler × Bool :=
  ({ handler with errorMessage }, false)

/-- `ValidateHandler::markContextIllegal`, after which the event is declined. -/
def markContextIllegal (handler : ValidateHandler) (forItem : Str) : ValidateHandler × Bool :=
  handler.decline ("unexpected ".toList ++ forItem ++ " in ".toList ++ handler.context.description)

/-- `ValidateHandler::checkNecessaryKeysPresent`. -/
def checkNecessaryKeysPresent (handler : ValidateHandler) : Option Str :=
  let present (key : Key) : Bool := handler.presentKeys &&& key.bit != 0
  let missingKeys : List Str :=
    (if present .Directory then [] else ["directory".toList]) ++
    (if present .File then [] else ["file".toList]) ++
    (if present .Command || present .Arguments then []
      else ["either command or arguments".toList])
  match missingKeys.getLast? with
  | none => none
  | some last =>
      some ((missingKeys.dropLast.flatMap fun key => key ++ ", ".toList) ++ " and ".toList ++ last)

/-- `ValidateHandler::String`. -/
def string (handler : ValidateHandler) (text : Str) : ValidateHandler × Bool :=
  match handler.context with
  | .Outermost => handler.markContextIllegal "string".toList
  | .InTopLevelArray => handler.markContextIllegal "string".toList
  | .InArgumentsValue => handler.markContextIllegal "string".toList
  | .InObject =>
      if handler.options.checkDirectoryPathsAreAbsolute ∧ handler.lastKey = .Directory ∧
          ¬isAbsolute text then
        handler.decline ("expected absolute path for \"directory\" key but found '".toList ++
          text ++ "'".toList)
      else (handler, true)
  | .InArgumentsValueArray => (handler, true)

/-- `ValidateHandler::StartObject`. -/
def startObject (handler : ValidateHandler) : ValidateHandler × Bool :=
  match handler.context with
  | .InTopLevelArray => ({ handler with context := .InObject }, true)
  | _ => handler.markContextIllegal "object start ('\x7b')".toList

/-- `ValidateHandler::Key`. -/
def key (handler : ValidateHandler) (text : Str) : ValidateHandler × Bool :=
  match handler.context with
  | .InObject =>
      let sawKey := Key.ofText text
      let handler := if sawKey = .Arguments then { handler with context := .InArgumentsValue }
        else handler
      if sawKey ≠ .Unset then
        ({ handler with lastKey := sawKey, presentKeys := handler.presentKeys ||| sawKey.bit },
          true)
      else
        ({ handler with warnings := handler.warnings.insert ("unknown key ".toList ++ text) },
          true)
  | _ => handler.markContextIllegal ("object key ".toList ++ text)

/-- `ValidateHandler::EndObject`. -/
def endObject (handler : ValidateHandler) : ValidateHandler × Bool :=
  match handler.context with
  | .InObject =>
      let logged := match handler.checkNecessaryKeysPresent with
        | some missing => handler.logged ++ ["missing keys: ".toList ++ missing]
        | none => handler.logged
      ({ handler with context := .InTopLevelArray, logged, presentKeys := 0 }, true)
  | _ => handler.markContextIllegal "object end ('\x7d')".toList

/-- `ValidateHandler::StartArray`. -/
def startArray (handler : ValidateHandler) : ValidateHandler × Bool :=
  match handler.context with
  | .Outermost => ({ handler with context := .InTopLevelArray }, true)
  | .InArgumentsValue => ({ handler with context := .InArgumentsValueArray }, true)
  | _ => handler.markContextIllegal "array start ('[')".toList

/-- `ValidateHandler::EndArray`, and `ArrayCountHandler::EndArray`. -/
def endArray (handler : ValidateHandler) (elementCount : Nat) : ValidateHandler × Bool :=
  match handler.context with
  | .InTopLevelArray => ({ handler with context := .Outermost, count := elementCount }, true)
  | .InArgumentsValueArray => ({ handler with context := .InObject, count := elementCount }, true)
  | _ => handler.markContextIllegal "array end (']')".toList

/-- What the handler does with an event. -/
def handle (handler : ValidateHandler) : SaxEvent → ValidateHandler × Bool
  | .null => handler.decline "unexpected null".toList
  | .bool value => handler.decline ("unexpected bool ".toList ++ (toString value).toList)
  | .int value => handler.decline ("unexpected int ".toList ++ (toString value).toList)
  | .uint value => handler.decline ("unexpected unsigned int ".toList ++ (toString value).toList)
  | .int64 value => handler.decline ("unexpected int64_t ".toList ++ (toString value).toList)
  | .uint64 value => handler.decline ("unexpected uint64_t ".toList ++ (toString value).toList)
  | .double text => handler.decline ("unexpected double ".toList ++ text)
  | .string text => handler.string text
  | .startObject => handler.startObject
  | .key text => handler.key text
  | .endObject _ => handler.endObject
  | .startArray => handler.startArray
  | .endArray elementCount => handler.endArray elementCount

end ValidateHandler

/-- `validateAndCountJobs` on a text that stands for the value: the number of jobs, unless the
text is rejected and the process exits. -/
def validateAndCountJobs (options : ValidationOptions) (presentKeys : UInt32) (database : Json) :
    Option Nat :=
  let (handler, ok) := deliver ValidateHandler.handle { options, presentKeys } database.events
  if ok then some handler.count else none

/-! ## The grammar -/

/-- The value that a member with the given key must have. -/
def IsMember (options : ValidationOptions) (key : Str) (value : Json) : Prop :=
  if key = "arguments".toList then ∃ arguments : List Str, value = .array (arguments.map .string)
  else ∃ text : Str, value = .string text ∧
    (options.checkDirectoryPathsAreAbsolute = true → key = "directory".toList →
      isAbsolute text = true)

theorem isMember_string {options : ValidationOptions} {key text : Str}
    (hkey : key ≠ "arguments".toList)
    (habsolute : key = "directory".toList → isAbsolute text = true) :
    IsMember options key (.string text) := by
  rw [IsMember, if_neg hkey]
  exact ⟨text, rfl, fun _ => habsolute⟩

/-- An array of objects whose members have the values that their keys ask for. -/
def IsCommandDatabase (options : ValidationOptions) (database : Json) : Prop :=
  ∃ objects : List (List (Str × Json)), database = .array (objects.map .object) ∧
    ∀ members ∈ objects, ∀ member ∈ members, IsMember options member.1 member.2

/-! ## What the handler accepts -/

/-- The last recognised key after a key has been read. -/
def nextKey (lastKey : Key) (text : Str) : Key :=
  if Key.ofText text = .Unset then lastKey else Key.ofText text

/-- The value is a string. -/
def isString : Json → Bool
  | .string _ => true
  | _ => false

/-- What the handler makes of the value of a member, given the last key: the key if it accepts
the value. -/
def valueStep (options : ValidationOptions) (lastKey : Key) (text : Str) : Json → Option Key
  | .string value =>
      if text = "arguments".toList ∨ options.checkDirectoryPathsAreAbsolute = true ∧
          lastKey = .Directory ∧ ¬isAbsolute value = true then none
      else some lastKey
  | .array elements =>
      if text = "arguments".toList ∧ elements.all isString then some lastKey else none
  | _ => none

/-- What the handler makes of a member. -/
def memberStep (options : ValidationOptions) (lastKey : Key) (member : Str × Json) : Option Key :=
  valueStep options (nextKey lastKey member.1) member.1 member.2

/-- What the handler makes of an element of the outermost array. -/
def elementStep (options : ValidationOptions) (lastKey : Key) : Json → Option Key
  | .object members => members.foldlM (memberStep options) lastKey
  | _ => none

/-- After the events the handler is in the given context with the given last key, or it has
declined one of them. -/
def Reaches (handler : ValidateHandler) (events : List SaxEvent) (context : Context) :
    Option Key → Prop
  | some lastKey => ∃ handler', deliver ValidateHandler.handle handler events = (handler', true) ∧
      handler'.options = handler.options ∧ handler'.context = context ∧
      handler'.lastKey = lastKey
  | none => (deliver ValidateHandler.handle handler events).2 = false

namespace ValidateHandler

variable {handler handler' : ValidateHandler}

theorem reaches_none_of_head (event : SaxEvent) (h : (handler.handle event).2 = false)
    (events : List SaxEvent) (context : Context) :
    Reaches handler (event :: events) context none :=
  deliver_cons_of_declined h events

theorem reaches_nil (handler : ValidateHandler) :
    Reaches handler [] handler.context (some handler.lastKey) :=
  ⟨handler, rfl, rfl, rfl, rfl⟩

theorem reaches_none_append {first : List SaxEvent} {context context' : Context}
    (h : Reaches handler first context none) (second : List SaxEvent) :
    Reaches handler (first ++ second) context' none :=
  deliver_append_of_declined h second

/-- If the first events are accepted, what follows decides. -/
theorem reaches_append {first second : List SaxEvent} {context context' : Context}
    {key : Key} {outcome : Option Key} (h : Reaches handler first context (some key))
    (hrest : ∀ other : ValidateHandler, other.options = handler.options →
      other.context = context → other.lastKey = key → Reaches other second context' outcome) :
    Reaches handler (first ++ second) context' outcome := by
  obtain ⟨middle, hfirst, hoptions, hcontext, hkey⟩ := h
  have hsecond := hrest middle hoptions hcontext hkey
  cases outcome with
  | none =>
      show (deliver handle handler (first ++ second)).2 = false
      rw [deliver_append_of_accepted hfirst]
      exact hsecond
  | some lastKey =>
      obtain ⟨last, hdeliver, hoptions', hcontext', hkey'⟩ := hsecond
      refine ⟨last, ?_, hoptions'.trans hoptions, hcontext', hkey'⟩
      rw [deliver_append_of_accepted hfirst, hdeliver]

theorem reaches_cons {event : SaxEvent} {events : List SaxEvent} {context : Context}
    {outcome : Option Key} (h : handler.handle event = (handler', true))
    (hoptions : handler'.options = handler.options)
    (hrest : Reaches handler' events context outcome) :
    Reaches handler (event :: events) context outcome := by
  cases outcome with
  | none =>
      show (deliver handle handler (event :: events)).2 = false
      rw [deliver_cons_of_accepted h]
      exact hrest
  | some lastKey =>
      obtain ⟨last, hdeliver, hoptions', hcontext, hkey⟩ := hrest
      refine ⟨last, ?_, hoptions'.trans hoptions, hcontext, hkey⟩
      rw [deliver_cons_of_accepted h, hdeliver]

theorem reaches_singleton {event : SaxEvent} (h : handler.handle event = (handler', true))
    (hoptions : handler'.options = handler.options) :
    Reaches handler [event] handler'.context (some handler'.lastKey) :=
  reaches_cons h hoptions (reaches_nil _)

theorem handle_integerEvent (handler : ValidateHandler) (value : Int) :
    (handler.handle (integerEvent value)).2 = false := by
  unfold integerEvent
  split <;> split
  · rfl
  · split <;> rfl
  · rfl
  · split <;> rfl

/-- Values that are not strings, arrays or objects are declined everywhere; the others where
their first event is. -/
theorem reaches_none_events {value : Json} (hstring : ∀ text, value = .string text →
      (handler.string text).2 = false)
    (harray : ∀ elements, value = .array elements → handler.startArray.2 = false)
    (hobject : ∀ members, value = .object members → handler.startObject.2 = false)
    (context : Context) : Reaches handler value.events context none := by
  cases value with
  | null => exact reaches_none_of_head _ rfl [] context
  | boolean value => exact reaches_none_of_head _ rfl [] context
  | integer value => exact reaches_none_of_head _ (handle_integerEvent handler value) [] context
  | double text => exact reaches_none_of_head _ rfl [] context
  | string text => exact reaches_none_of_head (.string text) (hstring text rfl) [] context
  | array elements =>
      exact reaches_none_of_head .startArray (harray elements rfl) _ context
  | object members =>
      exact reaches_none_of_head .startObject (hobject members rfl) _ context

/-! ### Declining in each context -/

theorem snd_startObject (h : handler.context ≠ .InTopLevelArray) :
    handler.startObject.2 = false := by
  unfold startObject
  split
  · exact absurd ‹_› h
  · rfl

theorem snd_startArray (houter : handler.context ≠ .Outermost)
    (hvalue : handler.context ≠ .InArgumentsValue) : handler.startArray.2 = false := by
  unfold startArray
  split
  · exact absurd ‹_› houter
  · exact absurd ‹_› hvalue
  · rfl

theorem snd_string (hobject : handler.context ≠ .InObject)
    (harguments : handler.context ≠ .InArgumentsValueArray) (text : Str) :
    (handler.string text).2 = false := by
  unfold string
  split
  · rfl
  · rfl
  · rfl
  · exact absurd ‹_› hobject
  · exact absurd ‹_› harguments

/-! ### Accepting -/

/-- The elements of an array of arguments. -/
theorem reaches_arguments (h : handler.context = .InArgumentsValueArray) (elements : List Json) :
    Reaches handler (elementEvents elements) .InArgumentsValueArray
      (if elements.all isString then some handler.lastKey else none) := by
  induction elements with
  | nil =>
      have hnil := reaches_nil handler
      rwa [h] at hnil
  | cons element elements ih =>
      cases helement : isString element with
      | true =>
          cases element with
          | string text =>
              have hstring : handler.handle (.string text) = (handler, true) := by
                simp only [handle, string, h]
              rw [List.all_cons, helement, Bool.true_and]
              exact reaches_cons hstring rfl ih
          | _ => cases helement
      | false =>
          rw [List.all_cons, helement, Bool.false_and]
          refine reaches_none_append (reaches_none_events ?_ ?_ ?_ .InArgumentsValueArray) _
          · intro text heq
            rw [heq] at helement
            cases helement
          · intro _ _
            exact snd_startArray (by simp [h]) (by simp [h])
          · intro _ _
            exact snd_startObject (by simp [h])

/-- The value of `arguments`. -/
theorem reaches_argumentsValue (h : handler.context = .InArgumentsValue) (value : Json) :
    Reaches handler value.events .InObject
      (valueStep handler.options handler.lastKey "arguments".toList value) := by
  cases value with
  | array elements =>
      have hstart : handler.handle .startArray =
          ({ handler with context := .InArgumentsValueArray }, true) := by
        simp only [handle, startArray, h]
      rw [events]
      refine reaches_cons hstart rfl ?_
      -- the elements decide whether the end of the array is reached
      have helements := @reaches_arguments
        { handler with context := .InArgumentsValueArray } rfl elements
      cases hall : elements.all isString with
      | true =>
          rw [hall] at helements
          have hstep : valueStep handler.options handler.lastKey "arguments".toList
              (.array elements) = some handler.lastKey := by
            simp [valueStep, hall]
          rw [hstep]
          refine reaches_append helements fun other _ hcontext hkey => ?_
          have hend : other.handle (.endArray elements.length) =
              ({ other with context := .InObject, count := elements.length }, true) := by
            simp only [handle, endArray, hcontext]
          have hreaches := reaches_singleton hend rfl
          rwa [hkey] at hreaches
      | false =>
          rw [hall] at helements
          have hstep : valueStep handler.options handler.lastKey "arguments".toList
              (.array elements) = none := by
            simp [valueStep, hall]
          rw [hstep]
          exact reaches_none_append helements _
  | string text =>
      have hstep : valueStep handler.options handler.lastKey "arguments".toList
          (.string text) = none := by
        simp [valueStep]
      rw [hstep]
      exact reaches_none_of_head (.string text)
        (snd_string (by simp [h]) (by simp [h]) text) [] .InObject
  | _ =>
      refine reaches_none_events ?_ ?_ ?_ _
      · intro _ heq; cases heq
      · intro _ heq; cases heq
      · intro _ _
        exact snd_startObject (by simp [h])

/-- The value of any other member. -/
theorem reaches_value (h : handler.context = .InObject) {text : Str}
    (htext : text ≠ "arguments".toList) (value : Json) :
    Reaches handler value.events .InObject
      (valueStep handler.options handler.lastKey text value) := by
  cases value with
  | string value =>
      by_cases hcheck : handler.options.checkDirectoryPathsAreAbsolute = true ∧
          handler.lastKey = .Directory ∧ ¬isAbsolute value = true
      · have hstep : valueStep handler.options handler.lastKey text (.string value) = none := by
          rw [valueStep, if_pos (Or.inr hcheck)]
        rw [hstep]
        refine reaches_none_of_head (.string value) ?_ [] .InObject
        simp only [handle, string, h]
        rw [if_pos hcheck]
        rfl
      · have hstep : valueStep handler.options handler.lastKey text (.string value) =
            some handler.lastKey := by
          rw [valueStep, if_neg (not_or.mpr ⟨htext, hcheck⟩)]
        rw [hstep]
        have hstring : handler.handle (.string value) = (handler, true) := by
          simp only [handle, string, h]
          rw [if_neg hcheck]
        have hreaches := reaches_singleton hstring rfl
        rwa [h] at hreaches
  | array elements =>
      have hstep : valueStep handler.options handler.lastKey text (.array elements) = none := by
        rw [valueStep, if_neg fun hboth => htext hboth.1]
      rw [hstep]
      exact reaches_none_of_head .startArray
        (snd_startArray (by simp [h]) (by simp [h])) _ _
  | _ =>
      refine reaches_none_events ?_ ?_ ?_ _
      · intro _ heq; cases heq
      · intro _ heq; cases heq
      · intro _ _
        exact snd_startObject (by simp [h])

theorem key_eq_arguments_iff (text : Str) :
    Key.ofText text = .Arguments ↔ text = "arguments".toList := by
  constructor
  · intro h
    unfold Key.ofText at h
    split at h; · cases h
    split at h; · cases h
    split at h; · cases h
    split at h
    · assumption
    · split at h <;> cases h
  · rintro rfl
    decide

/-- A key moves the handler to its value. -/
theorem handle_key (h : handler.context = .InObject) (text : Str) :
    ∃ handler', handler.handle (.key text) = (handler', true) ∧
      handler'.options = handler.options ∧ handler'.lastKey = nextKey handler.lastKey text ∧
      handler'.context =
        if text = "arguments".toList then .InArgumentsValue else .InObject := by
  by_cases harguments : text = "arguments".toList
  · simp only [handle, key, h, harguments, nextKey, if_true]
    exact ⟨_, rfl, rfl, rfl, rfl⟩
  · have hkey : Key.ofText text ≠ .Arguments := mt (key_eq_arguments_iff text).mp harguments
    simp only [handle, key, h, nextKey, if_neg hkey, if_neg harguments]
    by_cases hunset : Key.ofText text = .Unset
    · rw [if_neg (not_not.mpr hunset), if_pos hunset]
      exact ⟨_, rfl, rfl, rfl, rfl⟩
    · rw [if_pos hunset, if_neg hunset]
      exact ⟨_, rfl, rfl, rfl, rfl⟩

/-- A member. -/
theorem reaches_member (h : handler.context = .InObject) (text : Str) (value : Json) :
    Reaches handler (.key text :: value.events) .InObject
      (memberStep handler.options handler.lastKey (text, value)) := by
  obtain ⟨handler', hhandle, hoptions, hkey, hcontext⟩ := handle_key h text
  refine reaches_cons hhandle hoptions ?_
  rw [memberStep, ← hkey, ← hoptions]
  by_cases harguments : text = "arguments".toList
  · rw [if_pos harguments] at hcontext
    subst harguments
    exact reaches_argumentsValue hcontext value
  · rw [if_neg harguments] at hcontext
    exact reaches_value hcontext harguments value

/-- The members of an object. -/
theorem reaches_members (h : handler.context = .InObject) (members : List (Str × Json)) :
    Reaches handler (memberEvents members) .InObject
      (members.foldlM (memberStep handler.options) handler.lastKey) := by
  induction members generalizing handler with
  | nil =>
      have hnil := reaches_nil handler
      rwa [h] at hnil
  | cons member members ih =>
      obtain ⟨text, value⟩ := member
      have hmember := reaches_member h text value
      rw [List.foldlM_cons, memberEvents, ← List.cons_append]
      cases hstep : memberStep handler.options handler.lastKey (text, value) with
      | none =>
          rw [hstep] at hmember
          exact reaches_none_append hmember _
      | some key =>
          rw [hstep] at hmember
          refine reaches_append hmember fun other hoptions hcontext hkey => ?_
          have hrest := ih hcontext
          rw [hoptions, hkey] at hrest
          exact hrest

/-- An element of the outermost array. -/
theorem reaches_element (h : handler.context = .InTopLevelArray) (element : Json) :
    Reaches handler element.events .InTopLevelArray
      (elementStep handler.options handler.lastKey element) := by
  cases element with
  | object members =>
      have hstart : handler.handle .startObject =
          ({ handler with context := .InObject }, true) := by
        simp only [handle, startObject, h]
      rw [events]
      refine reaches_cons hstart rfl ?_
      have hmembers := @reaches_members { handler with context := .InObject } rfl members
      show Reaches _ _ _ (members.foldlM (memberStep handler.options) handler.lastKey)
      cases hstep : members.foldlM (memberStep handler.options) handler.lastKey with
      | none =>
          rw [hstep] at hmembers
          exact reaches_none_append hmembers _
      | some key =>
          rw [hstep] at hmembers
          refine reaches_append hmembers fun other _ hcontext hkey => ?_
          have hend : ∃ last : ValidateHandler,
              other.handle (.endObject members.length) = (last, true) ∧
                last.options = other.options ∧ last.context = .InTopLevelArray ∧
                last.lastKey = other.lastKey := by
            simp only [handle, endObject, hcontext]
            exact ⟨_, rfl, rfl, rfl, rfl⟩
          obtain ⟨last, hlast, hoptions, hcontext', hkey'⟩ := hend
          have hreaches := reaches_singleton hlast hoptions
          rwa [hcontext', hkey', hkey] at hreaches
  | _ =>
      refine reaches_none_events ?_ ?_ ?_ _
      · intro text _
        exact snd_string (by simp [h]) (by simp [h]) text
      · intro _ _
        exact snd_startArray (by simp [h]) (by simp [h])
      · intro _ heq; cases heq

/-- The elements of the outermost array. -/
theorem reaches_elements (h : handler.context = .InTopLevelArray) (elements : List Json) :
    Reaches handler (elementEvents elements) .InTopLevelArray
      (elements.foldlM (elementStep handler.options) handler.lastKey) := by
  induction elements generalizing handler with
  | nil =>
      have hnil := reaches_nil handler
      rwa [h] at hnil
  | cons element elements ih =>
      have helement := reaches_element h element
      rw [List.foldlM_cons, elementEvents]
      cases hstep : elementStep handler.options handler.lastKey element with
      | none =>
          rw [hstep] at helement
          exact reaches_none_append helement _
      | some key =>
          rw [hstep] at helement
          refine reaches_append helement fun other hoptions hcontext hkey => ?_
          have hrest := ih hcontext
          rw [hoptions, hkey] at hrest
          exact hrest

end ValidateHandler

theorem validateAndCountJobs_of_accepted {options : ValidationOptions} {presentKeys : UInt32}
    {database : Json} {handler : ValidateHandler}
    (h : deliver ValidateHandler.handle { options, presentKeys } database.events =
      (handler, true)) :
    validateAndCountJobs options presentKeys database = some handler.count := by
  simp only [validateAndCountJobs, h, if_true]

theorem validateAndCountJobs_of_declined {options : ValidationOptions} {presentKeys : UInt32}
    {database : Json}
    (h : (deliver ValidateHandler.handle { options, presentKeys } database.events).2 = false) :
    validateAndCountJobs options presentKeys database = none := by
  simp only [validateAndCountJobs, h]
  rfl

/-- What `validateAndCountJobs` makes of an array: it is accepted if its elements are, and its
length is the count. -/
theorem validateAndCountJobs_array (options : ValidationOptions) (presentKeys : UInt32)
    (elements : List Json) :
    validateAndCountJobs options presentKeys (.array elements) =
      (elements.foldlM (elementStep options) Key.Unset).map fun _ => elements.length := by
  have hstart : ValidateHandler.handle { options, presentKeys } .startArray =
      ({ options, presentKeys, context := .InTopLevelArray }, true) := rfl
  have helements := @ValidateHandler.reaches_elements
    { options, presentKeys, context := .InTopLevelArray } rfl elements
  cases hstep : elements.foldlM (elementStep options) Key.Unset with
  | none =>
      rw [hstep] at helements
      apply validateAndCountJobs_of_declined
      rw [events, deliver_cons_of_accepted hstart]
      exact deliver_append_of_declined helements _
  | some key =>
      rw [hstep] at helements
      obtain ⟨last, hdeliver, -, hcontext, -⟩ := helements
      have hend : last.handle (.endArray elements.length) =
          ({ last with context := .Outermost, count := elements.length }, true) := by
        simp only [ValidateHandler.handle, ValidateHandler.endArray, hcontext]
      have hdone : deliver ValidateHandler.handle { options, presentKeys }
          (events (.array elements)) =
          ({ last with context := .Outermost, count := elements.length }, true) := by
        rw [events, deliver_cons_of_accepted hstart, deliver_append_of_accepted hdeliver,
          deliver_cons_of_accepted hend]
        rfl
      exact validateAndCountJobs_of_accepted hdone

theorem validateAndCountJobs_of_not_array (options : ValidationOptions) (presentKeys : UInt32)
    {database : Json} (h : ∀ elements, database ≠ .array elements) :
    validateAndCountJobs options presentKeys database = none := by
  apply validateAndCountJobs_of_declined
  refine ValidateHandler.reaches_none_events ?_ ?_ ?_ .Outermost
  · intro _ _
    rfl
  · intro elements heq
    exact absurd heq (h elements)
  · intro _ _
    rfl

/-! ## The grammar and the last key -/

/-- The last recognised key after some members. -/
def lastKeyAfter (lastKey : Key) (members : List (Str × Json)) : Key :=
  members.foldl (fun lastKey member => nextKey lastKey member.1) lastKey

/-- A member with an unknown key, for which the last recognised key is `directory`, has a value
that is not an absolute path. -/
def HasStrayPath (lastKey : Key) (members : List (Str × Json)) : Prop :=
  ∃ before key text after, members = before ++ (key, .string text) :: after ∧
    Key.ofText key = .Unset ∧ lastKeyAfter lastKey before = .Directory ∧ isAbsolute text = false

/-- All members of all objects in an array, in the order in which they are read. -/
def allMembers : Json → List (Str × Json)
  | .array elements => elements.flatMap fun element =>
      match element with
      | .object members => members
      | _ => []
  | _ => []

/-- A stray path is in the first member, or in the others after its key was read. -/
theorem hasStrayPath_cons {lastKey : Key} {member : Str × Json} {members : List (Str × Json)} :
    HasStrayPath lastKey (member :: members) ↔
      (Key.ofText member.1 = .Unset ∧ lastKey = .Directory ∧
        ∃ text, member.2 = .string text ∧ isAbsolute text = false) ∨
      HasStrayPath (nextKey lastKey member.1) members := by
  constructor
  · rintro ⟨before, key, text, after, heq, hunset, hlast, hrelative⟩
    cases before with
    | nil =>
        obtain ⟨rfl, -⟩ := List.cons.inj heq
        exact Or.inl ⟨hunset, hlast, text, rfl, hrelative⟩
    | cons other before =>
        obtain ⟨rfl, hrest⟩ := List.cons.inj heq
        exact Or.inr ⟨before, key, text, after, hrest, hunset, hlast, hrelative⟩
  · rintro (⟨hunset, hlast, text, hvalue, hrelative⟩ |
      ⟨before, key, text, after, rfl, hunset, hlast, hrelative⟩)
    · obtain ⟨key, value⟩ := member
      simp only at hunset hvalue
      subst hvalue
      exact ⟨[], key, text, members, rfl, hunset, hlast, hrelative⟩
    · exact ⟨member :: before, key, text, after, rfl, hunset, hlast, hrelative⟩

theorem not_hasStrayPath_nil (lastKey : Key) : ¬HasStrayPath lastKey [] := by
  rintro ⟨before, key, text, after, heq, -⟩
  cases before <;> cases heq

theorem hasStrayPath_append {lastKey : Key} {first second : List (Str × Json)} :
    HasStrayPath lastKey (first ++ second) ↔
      HasStrayPath lastKey first ∨ HasStrayPath (lastKeyAfter lastKey first) second := by
  induction first generalizing lastKey with
  | nil => simp [not_hasStrayPath_nil, lastKeyAfter]
  | cons member first ih =>
      rw [List.cons_append, hasStrayPath_cons, hasStrayPath_cons, ih, or_assoc]
      rfl

theorem key_eq_directory_iff (text : Str) :
    Key.ofText text = .Directory ↔ text = "directory".toList := by
  constructor
  · intro h
    unfold Key.ofText at h
    split at h
    · assumption
    · split at h; · cases h
      split at h; · cases h
      split at h; · cases h
      split at h <;> cases h
  · rintro rfl
    decide

theorem nextKey_eq_directory_iff (lastKey : Key) (text : Str) :
    nextKey lastKey text = .Directory ↔
      text = "directory".toList ∨ Key.ofText text = .Unset ∧ lastKey = .Directory := by
  unfold nextKey
  rw [← key_eq_directory_iff]
  by_cases hunset : Key.ofText text = .Unset
  · simp [hunset]
  · simp [hunset]

theorem all_isString_iff (elements : List Json) :
    elements.all isString = true ↔ ∃ arguments : List Str, elements = arguments.map .string := by
  constructor
  · intro h
    induction elements with
    | nil => exact ⟨[], rfl⟩
    | cons element elements ih =>
        rw [List.all_cons, Bool.and_eq_true] at h
        obtain ⟨arguments, rfl⟩ := ih h.2
        cases element with
        | string text => exact ⟨text :: arguments, rfl⟩
        | _ => cases h.1
  · rintro ⟨arguments, rfl⟩
    simp [isString]

theorem valueStep_arguments {options : ValidationOptions} {lastKey key : Key} {value : Json} :
    valueStep options lastKey "arguments".toList value = some key ↔
      key = lastKey ∧ ∃ arguments : List Str, value = .array (arguments.map .string) := by
  cases value with
  | array elements =>
      rw [valueStep]
      simp only [Json.array.injEq]
      by_cases hall : elements.all isString = true
      · rw [if_pos ⟨trivial, hall⟩, Option.some.injEq, eq_comm,
          and_iff_left ((all_isString_iff elements).mp hall)]
      · rw [if_neg fun hboth => hall hboth.2]
        exact iff_of_false nofun fun h => hall ((all_isString_iff elements).mpr h.2)
  | string text =>
      rw [valueStep, if_pos (Or.inl rfl)]
      exact iff_of_false nofun (by rintro ⟨-, _, h⟩; cases h)
  | _ => exact iff_of_false nofun (by rintro ⟨-, _, h⟩; cases h)

theorem valueStep_of_ne {options : ValidationOptions} {lastKey key : Key} {text : Str}
    (htext : text ≠ "arguments".toList) {value : Json} :
    valueStep options lastKey text value = some key ↔ key = lastKey ∧
      ∃ string : Str, value = .string string ∧
        (options.checkDirectoryPathsAreAbsolute = true → lastKey = .Directory →
          isAbsolute string = true) := by
  cases value with
  | string string =>
      rw [valueStep]
      by_cases hcheck : options.checkDirectoryPathsAreAbsolute = true ∧ lastKey = .Directory ∧
          ¬isAbsolute string = true
      · rw [if_pos (Or.inr hcheck)]
        refine iff_of_false nofun ?_
        rintro ⟨-, other, heq, habsolute⟩
        obtain rfl := Json.string.inj heq
        exact absurd (habsolute hcheck.1 hcheck.2.1) hcheck.2.2
      · rw [if_neg (not_or.mpr ⟨htext, hcheck⟩), Option.some.injEq, eq_comm]
        refine ⟨fun h => ⟨h, string, rfl, fun hflag hkey => ?_⟩, fun h => h.1⟩
        by_contra hrelative
        exact hcheck ⟨hflag, hkey, hrelative⟩
  | array elements =>
      rw [valueStep, if_neg fun hboth => htext hboth.1]
      exact iff_of_false nofun (by rintro ⟨-, _, h, -⟩; cases h)
  | _ => exact iff_of_false nofun (by rintro ⟨-, _, h, -⟩; cases h)

/-- **What the handler makes of a member**: it asks for what the grammar asks for, and for an
absolute path after an unknown key too if the last recognised key is `directory`. -/
theorem memberStep_eq_some_iff {options : ValidationOptions} {lastKey key : Key}
    {member : Str × Json} :
    memberStep options lastKey member = some key ↔ key = nextKey lastKey member.1 ∧
      IsMember options member.1 member.2 ∧
      ¬(options.checkDirectoryPathsAreAbsolute = true ∧ Key.ofText member.1 = .Unset ∧
        lastKey = .Directory ∧ ∃ text, member.2 = .string text ∧ isAbsolute text = false) := by
  obtain ⟨text, value⟩ := member
  unfold memberStep IsMember
  by_cases harguments : text = "arguments".toList
  · rw [if_pos harguments]
    have hunset : Key.ofText text ≠ .Unset := by
      rw [harguments]
      decide
    rw [harguments, valueStep_arguments, ← harguments]
    exact ⟨fun ⟨hkey, hvalue⟩ => ⟨hkey, hvalue, fun hstray => hunset hstray.2.1⟩,
      fun ⟨hkey, hvalue, _⟩ => ⟨hkey, hvalue⟩⟩
  · rw [if_neg harguments, valueStep_of_ne harguments, nextKey_eq_directory_iff]
    constructor
    · rintro ⟨hkey, string, rfl, habsolute⟩
      refine ⟨hkey, ⟨string, rfl, fun hflag htext => habsolute hflag (Or.inl htext)⟩, ?_⟩
      rintro ⟨hflag, hunset, hlast, other, heq, hrelative⟩
      obtain rfl := Json.string.inj heq
      rw [habsolute hflag (Or.inr ⟨hunset, hlast⟩)] at hrelative
      cases hrelative
    · rintro ⟨hkey, ⟨string, rfl, habsolute⟩, hstray⟩
      refine ⟨hkey, string, rfl, fun hflag => ?_⟩
      rintro (htext | ⟨hunset, hlast⟩)
      · exact habsolute hflag htext
      · by_contra hrelative
        exact hstray ⟨hflag, hunset, hlast, string, rfl, by simpa using hrelative⟩

/-- The members of an object. -/
theorem foldlM_memberStep_eq_some_iff {options : ValidationOptions} {lastKey key : Key}
    {members : List (Str × Json)} :
    members.foldlM (memberStep options) lastKey = some key ↔ key = lastKeyAfter lastKey members ∧
      (∀ member ∈ members, IsMember options member.1 member.2) ∧
      ¬(options.checkDirectoryPathsAreAbsolute = true ∧ HasStrayPath lastKey members) := by
  induction members generalizing lastKey with
  | nil =>
      have hnil : ([] : List (Str × Json)).foldlM (memberStep options) lastKey = some lastKey := rfl
      rw [hnil, Option.some.injEq, eq_comm]
      exact ⟨fun h => ⟨h, by simp, fun hstray => not_hasStrayPath_nil _ hstray.2⟩, fun h => h.1⟩
  | cons member members ih =>
      rw [List.foldlM_cons, Option.bind_eq_bind, Option.bind_eq_some_iff, hasStrayPath_cons]
      constructor
      · rintro ⟨next, hmember, hrest⟩
        obtain ⟨rfl, hfirst, hstray⟩ := memberStep_eq_some_iff.mp hmember
        obtain ⟨hkey, hothers, hstrays⟩ := ih.mp hrest
        refine ⟨hkey, List.forall_mem_cons.mpr ⟨hfirst, hothers⟩, ?_⟩
        rintro ⟨hflag, hhere | hlater⟩
        · exact hstray ⟨hflag, hhere⟩
        · exact hstrays ⟨hflag, hlater⟩
      · rintro ⟨hkey, hall, hstrays⟩
        obtain ⟨hfirst, hothers⟩ := List.forall_mem_cons.mp hall
        refine ⟨nextKey lastKey member.1, memberStep_eq_some_iff.mpr ⟨rfl, hfirst, ?_⟩,
          ih.mpr ⟨hkey, hothers, ?_⟩⟩
        · exact fun hstray => hstrays ⟨hstray.1, Or.inl hstray.2⟩
        · exact fun hstray => hstrays ⟨hstray.1, Or.inr hstray.2⟩

/-- The elements of the outermost array. -/
theorem foldlM_elementStep_eq_some_iff {options : ValidationOptions} {lastKey key : Key}
    {elements : List Json} :
    elements.foldlM (elementStep options) lastKey = some key ↔
      ∃ objects : List (List (Str × Json)), elements = objects.map .object ∧
        key = lastKeyAfter lastKey objects.flatten ∧
        (∀ members ∈ objects, ∀ member ∈ members, IsMember options member.1 member.2) ∧
        ¬(options.checkDirectoryPathsAreAbsolute = true ∧
          HasStrayPath lastKey objects.flatten) := by
  -- the last key of an object is carried over into the next one
  induction elements generalizing lastKey with
  | nil =>
      constructor
      · intro h
        obtain rfl := Option.some.inj h
        exact ⟨[], rfl, rfl, by simp, fun h => not_hasStrayPath_nil _ h.2⟩
      · rintro ⟨objects, hobjects, hkey, -⟩
        obtain rfl := List.map_eq_nil_iff.mp hobjects.symm
        exact congrArg some hkey.symm
  | cons element elements ih =>
      rw [List.foldlM_cons, Option.bind_eq_bind, Option.bind_eq_some_iff]
      constructor
      · rintro ⟨next, helement, hrest⟩
        cases element with
        | object members =>
            obtain ⟨rfl, hmembers, hstray⟩ := foldlM_memberStep_eq_some_iff.mp helement
            obtain ⟨objects, rfl, hkey, hobjects, hstrays⟩ := ih.mp hrest
            refine ⟨members :: objects, rfl, ?_, List.forall_mem_cons.mpr ⟨hmembers, hobjects⟩, ?_⟩
            · rw [hkey, List.flatten_cons, lastKeyAfter, lastKeyAfter, lastKeyAfter,
                List.foldl_append]
            · rw [List.flatten_cons, hasStrayPath_append]
              rintro ⟨hflag, hhere | hlater⟩
              · exact hstray ⟨hflag, hhere⟩
              · exact hstrays ⟨hflag, hlater⟩
        | _ => cases helement
      · rintro ⟨objects, hobjects, hkey, hmembers, hstrays⟩
        cases objects with
        | nil => cases hobjects
        | cons members objects =>
            obtain ⟨rfl, hrest⟩ := List.cons.inj hobjects
            obtain ⟨hfirst, hothers⟩ := List.forall_mem_cons.mp hmembers
            rw [List.flatten_cons, hasStrayPath_append] at hstrays
            refine ⟨lastKeyAfter lastKey members, foldlM_memberStep_eq_some_iff.mpr
              ⟨rfl, hfirst, fun hstray => hstrays ⟨hstray.1, Or.inl hstray.2⟩⟩,
              ih.mpr ⟨objects, hrest, ?_, hothers,
                fun hstray => hstrays ⟨hstray.1, Or.inr hstray.2⟩⟩⟩
            rw [hkey, List.flatten_cons, lastKeyAfter, lastKeyAfter, lastKeyAfter,
              List.foldl_append]

theorem allMembers_objects (objects : List (List (Str × Json))) :
    allMembers (.array (objects.map .object)) = objects.flatten := by
  simp [allMembers, List.flatMap_map, List.flatMap_id']

/-- What is accepted: databases of the grammar without a stray path.  The count is the number of
objects. -/
theorem validateAndCountJobs_eq_some_iff {options : ValidationOptions} {presentKeys : UInt32}
    {database : Json} {count : Nat} :
    validateAndCountJobs options presentKeys database = some count ↔
      ∃ objects : List (List (Str × Json)), database = .array (objects.map .object) ∧
        objects.length = count ∧
        (∀ members ∈ objects, ∀ member ∈ members, IsMember options member.1 member.2) ∧
        ¬(options.checkDirectoryPathsAreAbsolute = true ∧
          HasStrayPath .Unset (allMembers database)) := by
  constructor
  · intro h
    by_cases harray : ∃ elements, database = .array elements
    · obtain ⟨elements, rfl⟩ := harray
      rw [validateAndCountJobs_array] at h
      obtain ⟨key, hkey, hcount⟩ := Option.map_eq_some_iff.mp h
      obtain ⟨objects, rfl, -, hmembers, hstray⟩ := foldlM_elementStep_eq_some_iff.mp hkey
      refine ⟨objects, rfl, ?_, hmembers, ?_⟩
      · rw [← hcount, List.length_map]
      · rwa [allMembers_objects]
    · rw [validateAndCountJobs_of_not_array options presentKeys fun elements heq =>
        harray ⟨elements, heq⟩] at h
      cases h
  · rintro ⟨objects, rfl, rfl, hmembers, hstray⟩
    rw [allMembers_objects] at hstray
    rw [validateAndCountJobs_array, foldlM_elementStep_eq_some_iff.mpr
      ⟨objects, rfl, rfl, hmembers, hstray⟩]
    simp

/-- The validator accepts exactly its grammar, and counts the objects of what it accepts. -/
def ExactlyValidated (options : ValidationOptions) (presentKeys : UInt32) (database : Json) :
    Prop :=
  ((validateAndCountJobs options presentKeys database).isSome = true ↔
      IsCommandDatabase options database) ∧
    ∀ count, validateAndCountJobs options presentKeys database = some count →
      ∃ objects : List (List (Str × Json)), database = .array (objects.map .object) ∧
        objects.length = count

/-- **When the validator is exact**: on texts outside of the grammar, and on those of the grammar
in which no member with an unknown key, read while the last recognised key is `directory`, has
a value other than an absolute path; or if directories are not checked. -/
theorem exactlyValidated_iff (options : ValidationOptions) (presentKeys : UInt32)
    (database : Json) :
    ExactlyValidated options presentKeys database ↔
      (IsCommandDatabase options database → ¬(options.checkDirectoryPathsAreAbsolute = true ∧
        HasStrayPath .Unset (allMembers database))) := by
  constructor
  · rintro ⟨hexact, -⟩ hgrammar
    obtain ⟨count, hcount⟩ := Option.isSome_iff_exists.mp (hexact.mpr hgrammar)
    obtain ⟨-, -, -, -, hstray⟩ := validateAndCountJobs_eq_some_iff.mp hcount
    exact hstray
  · intro h
    refine ⟨⟨fun hsome => ?_, fun hgrammar => ?_⟩, fun count hcount => ?_⟩
    · obtain ⟨count, hcount⟩ := Option.isSome_iff_exists.mp hsome
      obtain ⟨objects, hdatabase, -, hmembers, -⟩ := validateAndCountJobs_eq_some_iff.mp hcount
      exact ⟨objects, hdatabase, hmembers⟩
    · obtain ⟨objects, hdatabase, hmembers⟩ := hgrammar
      exact Option.isSome_iff_exists.mpr ⟨objects.length, validateAndCountJobs_eq_some_iff.mpr
        ⟨objects, hdatabase, rfl, hmembers, h ⟨objects, hdatabase, hmembers⟩⟩⟩
    · obtain ⟨objects, hdatabase, hlength, -, -⟩ := validateAndCountJobs_eq_some_iff.mp hcount
      exact ⟨objects, hdatabase, hlength⟩

/-- `[{"directory": "/d", "note": "x", "file": "a.cc", "command": "cc a.cc"}]`. -/
def databaseWithNote : Json := .array [.object [("directory".toList, .string "/d".toList),
  ("note".toList, .string "x".toList), ("file".toList, .string "a.cc".toList),
  ("command".toList, .string "cc a.cc".toList)]]

theorem databaseWithNote_rejected :
    IsCommandDatabase ⟨true⟩ databaseWithNote ∧
      validateAndCountJobs ⟨true⟩ 0 databaseWithNote = none ∧
      ¬ExactlyValidated ⟨true⟩ 0 databaseWithNote := by
  have hgrammar : IsCommandDatabase ⟨true⟩ databaseWithNote := by
    refine ⟨[_], rfl, fun members hmembers member hmember => ?_⟩
    obtain rfl := List.mem_singleton.mp hmembers
    simp only [List.mem_cons, List.not_mem_nil, or_false] at hmember
    rcases hmember with rfl | rfl | rfl | rfl
    · exact isMember_string (by decide) (by decide)
    · exact isMember_string (by decide) (by decide)
    · exact isMember_string (by decide) (by decide)
    · exact isMember_string (by decide) (by decide)
  have hnone : validateAndCountJobs ⟨true⟩ 0 databaseWithNote = none := by decide
  refine ⟨hgrammar, hnone, fun hexact => ?_⟩
  have hsome := hexact.1.mpr hgrammar
  rw [hnone] at hsome
  cases hsome

end Compdb

end ScipClang
