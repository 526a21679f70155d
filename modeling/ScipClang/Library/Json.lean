import Mathlib.Data.List.Basic
import Mathlib.Tactic

/-!
# JSON values and decoding into existing objects

A JSON value is a tree; the members of an object are listed in the order in which they
were written.  Decoders in the manner of `llvm::json::fromJSON` do not return a value but
write into a target that the caller provides, and report whether they succeeded.  What the
target held before can therefore show through: in fields that are not written at all, and
after a failure, when some fields are written and others are not.

* `Decoder`: the contents of the target afterwards, and whether decoding succeeded.
* `Decodes`: decoding succeeds, with a result that does not depend on the target.
-/

/-- A JSON value.  A number is kept by its value if it is written as an integer, and by its
text otherwise. -/
inductive Json where
  | null
  | boolean (value : Bool)
  | integer (value : Int)
  | double (text : List Char)
  | string (text : List Char)
  | array (elements : List Json)
  | object (members : List (List Char × Json))

namespace Json

/-- How the bytes of a string become text: strings that are not UTF-8 are repaired. -/
structure Encoding where
  isUTF8 : List Char → Bool
  fixUTF8 : List Char → List Char

/-- The value for a string. -/
def ofString (encoding : Encoding) (text : List Char) : Json :=
  .string (if encoding.isUTF8 text then text else encoding.fixUTF8 text)

/-- The value for an unsigned number. -/
def ofUInt64 (value : UInt64) : Json := .integer value.toNat

/-- The value for a list. -/
def ofList {α : Type} (toJSON : α → Json) (elements : List α) : Json :=
  .array (elements.map toJSON)

/-- The unsigned number that a value stands for. -/
def getAsUINT64 : Json → Option UInt64
  | .integer value =>
      if 0 ≤ value ∧ value < 2 ^ 64 then some (UInt64.ofNat value.toNat) else none
  | _ => none

@[simp] theorem getAsUINT64_ofUInt64 (value : UInt64) :
    (ofUInt64 value).getAsUINT64 = some value := by
  have hlt : (value.toNat : Int) < 2 ^ 64 := by exact_mod_cast value.toNat_lt
  have hbounds : 0 ≤ (value.toNat : Int) ∧ (value.toNat : Int) < 2 ^ 64 :=
    ⟨Int.natCast_nonneg _, hlt⟩
  simp only [ofUInt64, getAsUINT64, hbounds, and_self, if_true, Int.toNat_natCast,
    UInt64.ofNat_toNat]

theorem ofUInt64_injective : Function.Injective ofUInt64 := by
  intro a b h
  have hget := congrArg getAsUINT64 h
  simpa using hget

/-! ## Decoders -/

/-- Decoding a value into a target: the contents of the target afterwards, and whether the
value was accepted. -/
abbrev Decoder (α : Type) := Json → α → α × Bool

section Decoders

variable {α β σ : Type}

/-- Decoding an unsigned number. -/
def decodeUINT64 : Decoder UInt64 := fun json target =>
  json.getAsUINT64.elim (target, false) fun value => (value, true)

/-- Decoding a string. -/
def decodeString : Decoder (List Char) := fun json target =>
  match json with
  | .string text => (text, true)
  | _ => (target, false)

/-- The elements of a vector are decoded in order, each into a fresh one; the elements after
the first that is not accepted are left as they are. -/
def decodeElements (fresh : α) (decode : Decoder α) : List Json → List α × Bool
  | [] => ([], true)
  | json :: rest =>
      let (element, ok) := decode json fresh
      if ok then
        let (elements, ok) := decodeElements fresh decode rest
        (element :: elements, ok)
      else (element :: List.replicate rest.length fresh, false)

/-- Decoding a list. -/
def decodeList (fresh : α) (decode : Decoder α) : Decoder (List α) := fun json target =>
  match json with
  | .array elements => decodeElements fresh decode elements
  | _ => (target, false)

/-- Decoding the members of an object into the target, as an `llvm::json::ObjectMapper` does. -/
abbrev MemberDecoder (σ : Type) := List (List Char × Json) → σ → σ × Bool

/-- `ObjectMapper::map`: decoding the member with the given key into a field. -/
def member (key : List Char) (get : σ → α) (set : α → σ → σ) (decode : Decoder α) :
    MemberDecoder σ := fun members target =>
  match members.lookup key with
  | some json =>
      let (value, ok) := decode json (get target)
      (set value target, ok)
  | none => (target, false)

/-- Further members are decoded only if the first ones were accepted. -/
def MemberDecoder.andThen (first second : MemberDecoder σ) : MemberDecoder σ :=
  fun members target =>
    let (target, ok) := first members target
    if ok then second members target else (target, false)

/-- Decoding an object. -/
def decodeObject (decode : MemberDecoder σ) : Decoder σ := fun json target =>
  match json with
  | .object members => decode members target
  | _ => (target, false)

/-- Decoding into a fresh object, from which the target is assigned if all went well. -/
def decodeFresh (fresh : α) (decode : Decoder α) : Decoder α := fun json target =>
  let (value, ok) := decode json fresh
  if ok then (value, true) else (target, false)

/-- Decoding into a part of an object. -/
def decodeInto (get : σ → α) (set : α → σ → σ) (decode : Decoder α) : Decoder σ :=
  fun json target =>
    let (value, ok) := decode json (get target)
    (set value target, ok)

/-- Decoding succeeds and gives the value, whatever the target held before. -/
def Decodes (decode : Decoder α) (json : Json) (value : α) : Prop :=
  ∀ target, decode json target = (value, true)

theorem decodes_ofUInt64 (value : UInt64) : Decodes decodeUINT64 (ofUInt64 value) value := by
  intro target
  unfold decodeUINT64
  rw [getAsUINT64_ofUInt64]
  rfl

theorem decodes_ofString {encoding : Encoding} {text : List Char}
    (h : encoding.isUTF8 text = true) :
    Decodes decodeString (ofString encoding text) text := by
  intro target
  simp [decodeString, ofString, h]

theorem decodes_ofList {fresh : α} {decode : Decoder α} {toJSON : α → Json} {elements : List α}
    (h : ∀ element ∈ elements, Decodes decode (toJSON element) element) :
    Decodes (decodeList fresh decode) (ofList toJSON elements) elements := by
  intro target
  show decodeElements fresh decode (elements.map toJSON) = (elements, true)
  induction elements with
  | nil => rfl
  | cons element elements ih =>
      have hrest := ih fun other hother => h other (List.mem_cons_of_mem _ hother)
      rw [List.map_cons, decodeElements, h element List.mem_cons_self fresh, hrest]
      rfl

theorem member_of_eq {key : List Char} {get : σ → α} {set : α → σ → σ} {decode : Decoder α}
    {members : List (List Char × Json)} {json : Json} {value : α} {target : σ}
    (hlookup : members.lookup key = some json) (h : decode json (get target) = (value, true)) :
    member key get set decode members target = (set value target, true) := by
  unfold member
  rw [hlookup]
  show (set (decode json (get target)).1 target, (decode json (get target)).2) = _
  rw [h]

theorem member_of_decodes {key : List Char} {get : σ → α} {set : α → σ → σ} {decode : Decoder α}
    {members : List (List Char × Json)} {json : Json} {value : α}
    (hlookup : members.lookup key = some json) (h : Decodes decode json value) (target : σ) :
    member key get set decode members target = (set value target, true) :=
  member_of_eq hlookup (h (get target))

theorem MemberDecoder.andThen_of_eq {first second : MemberDecoder σ}
    {members : List (List Char × Json)} {target middle : σ}
    (h : first members target = (middle, true)) :
    first.andThen second members target = second members middle := by
  simp only [andThen, h, if_true]

@[simp] theorem decodeObject_object (decode : MemberDecoder σ)
    (members : List (List Char × Json)) (target : σ) :
    decodeObject decode (.object members) target = decode members target := rfl

/-- An object with two members, both of which are decoded. -/
theorem decodeObject_two {key₁ key₂ : List Char} {get₁ : σ → α} {get₂ : σ → β}
    {set₁ : α → σ → σ} {set₂ : β → σ → σ} {decode₁ : Decoder α} {decode₂ : Decoder β}
    {json₁ json₂ : Json} {a : α} {b : β} (hne : key₁ ≠ key₂) (h₁ : Decodes decode₁ json₁ a)
    (h₂ : Decodes decode₂ json₂ b) (target : σ) :
    decodeObject ((member key₁ get₁ set₁ decode₁).andThen (member key₂ get₂ set₂ decode₂))
      (.object [(key₁, json₁), (key₂, json₂)]) target = (set₂ b (set₁ a target), true) := by
  have hfirst : [(key₁, json₁), (key₂, json₂)].lookup key₁ = some json₁ := by
    rw [List.lookup_cons_self]
  have hsecond : [(key₁, json₁), (key₂, json₂)].lookup key₂ = some json₂ := by
    have hbeq : (key₂ == key₁) = false := beq_false_of_ne (Ne.symm hne)
    simp [List.lookup_cons, hbeq]
  rw [decodeObject_object, MemberDecoder.andThen_of_eq (member_of_decodes hfirst h₁ target),
    member_of_decodes hsecond h₂]

theorem decodes_fresh {fresh : α} {decode : Decoder α} {json : Json} {value : α}
    (h : decode json fresh = (value, true)) : Decodes (decodeFresh fresh decode) json value := by
  intro target
  simp only [decodeFresh, h, if_true]

theorem decodeInto_of_decodes {get : σ → α} {set : α → σ → σ} {decode : Decoder α} {json : Json}
    {value : α} (h : Decodes decode json value) (target : σ) :
    decodeInto get set decode json target = (set value target, true) := by
  simp only [decodeInto, h (get target)]

end Decoders

end Json
