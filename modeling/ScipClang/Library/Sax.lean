import ScipClang.Library.Json

/-!
# Event-driven JSON readers

A reader in the manner of `rapidjson::Reader` turns a text into a stream of events and hands
them to a handler one by one, until the handler declines one.  For a well-formed text the
stream is determined by the value that the text stands for; keys of an object are delivered
as they are written, duplicates included.

The sizes that are reported at the end of arrays and objects are not bounded here.

* `Json.events`: the stream for a value.
* `deliver`: a handler that is given events until it declines one.
-/

/-- The events of a reader. -/
inductive SaxEvent where
  | null
  | bool (value : Bool)
  | int (value : Int)
  | uint (value : Nat)
  | int64 (value : Int)
  | uint64 (value : Nat)
  | double (text : List Char)
  | string (text : List Char)
  | startObject
  | key (text : List Char)
  | endObject (memberCount : Nat)
  | startArray
  | endArray (elementCount : Nat)
deriving DecidableEq

namespace Json

/-- The event for a number that is written as an integer: the narrowest type that holds it, and
otherwise a floating-point number. -/
def integerEvent (value : Int) : SaxEvent :=
  if 0 ≤ value then
    if value < 2 ^ 32 then .uint value.toNat
    else if value < 2 ^ 64 then .uint64 value.toNat
    else .double (toString value).toList
  else
    if -2 ^ 31 ≤ value then .int value
    else if -2 ^ 63 ≤ value then .int64 value
    else .double (toString value).toList

mutual

/-- The event stream for a value. -/
def events : Json → List SaxEvent
  | .null => [.null]
  | .boolean value => [.bool value]
  | .integer value => [integerEvent value]
  | .double text => [.double text]
  | .string text => [.string text]
  | .array elements => .startArray :: (elementEvents elements ++ [.endArray elements.length])
  | .object members => .startObject :: (memberEvents members ++ [.endObject members.length])

/-- The events between the brackets of an array. -/
def elementEvents : List Json → List SaxEvent
  | [] => []
  | element :: elements => events element ++ elementEvents elements

/-- The events between the braces of an object. -/
def memberEvents : List (List Char × Json) → List SaxEvent
  | [] => []
  | (key, value) :: members => .key key :: (events value ++ memberEvents members)

end

/-- A value begins with an event of its own kind. -/
theorem events_ne_nil (json : Json) : json.events ≠ [] := by
  cases json <;> simp [events]

end Json

/-! ## Handlers -/

section Deliver

variable {σ : Type} (handle : σ → SaxEvent → σ × Bool)

/-- Events are delivered until one is declined. -/
def deliver : σ → List SaxEvent → σ × Bool
  | st, [] => (st, true)
  | st, event :: events =>
      let (st, ok) := handle st event
      if ok then deliver st events else (st, false)

variable {handle}

theorem deliver_cons_of_accepted {st st' : σ} {event : SaxEvent}
    (h : handle st event = (st', true)) (events : List SaxEvent) :
    deliver handle st (event :: events) = deliver handle st' events := by
  simp only [deliver, h, if_true]

theorem deliver_cons_of_declined {st : σ} {event : SaxEvent}
    (h : (handle st event).2 = false) (events : List SaxEvent) :
    (deliver handle st (event :: events)).2 = false := by
  simp only [deliver, h]
  rfl

theorem deliver_append_of_accepted {st st' : σ} {first : List SaxEvent}
    (h : deliver handle st first = (st', true)) (second : List SaxEvent) :
    deliver handle st (first ++ second) = deliver handle st' second := by
  induction first generalizing st with
  | nil =>
      obtain ⟨rfl, -⟩ := Prod.mk.inj h
      rfl
  | cons event first ih =>
      cases hok : (handle st event).2 with
      | true =>
          have hstep : handle st event = ((handle st event).1, true) := Prod.ext rfl hok
          rw [deliver_cons_of_accepted hstep] at h
          rw [List.cons_append, deliver_cons_of_accepted hstep, ih h]
      | false =>
          have hfailed := deliver_cons_of_declined hok first
          rw [h] at hfailed
          cases hfailed

theorem deliver_append_of_declined {st : σ} {first : List SaxEvent}
    (h : (deliver handle st first).2 = false) (second : List SaxEvent) :
    (deliver handle st (first ++ second)).2 = false := by
  induction first generalizing st with
  | nil => exact absurd h (by simp [deliver])
  | cons event first ih =>
      cases hok : (handle st event).2 with
      | true =>
          have hstep : handle st event = ((handle st event).1, true) := Prod.ext rfl hok
          rw [deliver_cons_of_accepted hstep] at h
          rw [List.cons_append, deliver_cons_of_accepted hstep]
          exact ih h
      | false => exact deliver_cons_of_declined hok (first ++ second)

end Deliver
