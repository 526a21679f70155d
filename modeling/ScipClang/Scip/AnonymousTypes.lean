import ScipClang.Scip.LocalSymbols
import ScipClang.Worker.Documents

/-!
# Anonymous types

A type without a name gets one from `SymbolFormatter::getTagSymbol`
(`indexer/SymbolFormatter.cc`): a number that counts the anonymous types of a file id, and,
for a type in a namespace, the hash of the path of the file.

File ids are not files.  The numbers of two file ids are counted apart, also where the names
do not say which file id is meant: two expansions of one file share a path, and the name of a
type inside of a class says nothing about a file at all.

* `anonymousSymbol_inj`: what can be read off a symbol.
* `SymbolFormatter.answers_spec`: the symbol of a declaration, in terms of the requests made
  before.
* `distinctSymbols_iff`: when different declarations get different symbols.
-/

namespace ScipClang

/-! ## The formatter -/

/-- The definition of a tag declaration. -/
structure TagDefinition where
  /-- The file of the location after macro expansion. -/
  defFileId : FileId
  /-- The context of the definition is a namespace or the translation unit. -/
  inNamespace : Bool
deriving DecidableEq

/-- What `getTagSymbol` reads of a tag declaration. -/
structure TagRequest where
  canonicalDecl : Nat
  /-- `getContextSymbol(*tagDecl.getDeclContext(), tagDecl.getLocation())`. -/
  optContextSymbol : Option Str
  /-- Empty if the declaration has no name. -/
  declName : Str
  definition : Option TagDefinition
deriving DecidableEq

/-- `SymbolFormatter`, with what it remembers about anonymous types. -/
structure TagFormatter extends SymbolFormatter where
  anonymousTypeCounters : AList (fun _ : FileId => UInt32) := ∅

/-- The name of an anonymous type, with the hash of a path or without. -/
def anonymousTypeName (optHash : Option UInt64) (counter : UInt32) : Str :=
  match optHash with
  | some hash =>
      "$anonymous_type_".toList ++ (Nat.toDigits 16 hash.toNat ++
        '_' :: Nat.toDigits 10 counter.toNat)
  | none => "$anonymous_type_".toList ++ Nat.toDigits 10 counter.toNat

namespace TagFormatter

/-- The number of the next anonymous type of a file. -/
def typeCounter (formatter : TagFormatter) (fileId : FileId) : UInt32 :=
  (formatter.anonymousTypeCounters.lookup fileId).getD 0

/-- `SymbolFormatter::getSymbolCached`; a failure is not cached. -/
def getSymbolCached (formatter : TagFormatter) (canonicalDecl : Nat)
    (getSymbol : TagFormatter → Option Str × TagFormatter) : Option Str × TagFormatter :=
  match formatter.declBasedCache.lookup canonicalDecl with
  | some symbol => (some symbol, formatter)
  | none =>
      match getSymbol formatter with
      | (none, formatter) => (none, formatter)
      | (some symbol, formatter) =>
          (some symbol, { formatter with
            declBasedCache := formatter.declBasedCache.insert canonicalDecl symbol })

variable (forText : Str → UInt64) (files : FileMetadataMap)

/-- The path that is hashed into the name of a type. -/
def hashedPath (definition : TagDefinition) : Option Str :=
  if definition.inNamespace then
    (files.getStableFileId definition.defFileId).map fun stableFileId => stableFileId.path.value
  else none

/-- `SymbolFormatter::getTagSymbol`. -/
def getTagSymbol (formatter : TagFormatter) (tagDecl : TagRequest) : Option Str × TagFormatter :=
  formatter.getSymbolCached tagDecl.canonicalDecl fun formatter =>
    match tagDecl.optContextSymbol with
    | none => (none, formatter)
    | some contextSymbol =>
        if tagDecl.declName ≠ [] then
          (some (SymbolBuilder.formatContextual contextSymbol
            { name := tagDecl.declName, suffix := .Type }), formatter)
        else
          match tagDecl.definition with
          | none => (none, formatter)
          | some definition =>
              let counter := formatter.typeCounter definition.defFileId
              let name := anonymousTypeName ((hashedPath files definition).map forText) counter
              (some (SymbolBuilder.formatContextual contextSymbol { name, suffix := .Type }),
                { formatter with
                  anonymousTypeCounters :=
                    formatter.anonymousTypeCounters.insert definition.defFileId (counter + 1) })

/-- The symbols of a sequence of declarations. -/
def answers (formatter : TagFormatter) : List TagRequest → List (TagRequest × Option Str)
  | [] => []
  | tagDecl :: tagDecls =>
      (tagDecl, (formatter.getTagSymbol forText files tagDecl).1) ::
        answers (formatter.getTagSymbol forText files tagDecl).2 tagDecls

end TagFormatter

/-! ## What can be read off a symbol -/

/-- A hexadecimal or decimal digit is a simple character, and none of `_` and `t`. -/
theorem digit_of_mem_toDigits {b n : Nat} (hb : 1 < b) (hle : b ≤ 16) {c : Char}
    (h : c ∈ Nat.toDigits b n) : isSimpleChar c = true ∧ c ≠ '_' ∧ c ≠ 't' := by
  have hdigit : ∀ k < 16, isSimpleChar (Nat.digitChar k) = true ∧ Nat.digitChar k ≠ '_' ∧
      Nat.digitChar k ≠ 't' := by decide
  obtain ⟨k, hk, rfl⟩ := Digits.mem_toDigits hb h
  exact hdigit k (by omega)

/-- What stands behind the last occurrence of a character is determined. -/
theorem append_cons_inj_last {a b r s : Str} {c : Char} (ha : c ∉ a) (hb : c ∉ b)
    (h : r ++ c :: a = s ++ c :: b) : r = s ∧ a = b := by
  have hreverse := congrArg List.reverse h
  simp only [List.reverse_append, List.reverse_cons, List.append_assoc, List.cons_append,
    List.nil_append] at hreverse
  obtain ⟨hab, hrs⟩ := append_cons_inj (by simpa using ha) (by simpa using hb) hreverse
  exact ⟨List.reverse_inj.mp hrs, List.reverse_inj.mp hab⟩

/-- The symbol of an anonymous type. -/
def anonymousSymbol (contextSymbol : Str) (optHash : Option UInt64) (counter : UInt32) : Str :=
  SymbolBuilder.formatContextual contextSymbol
    { name := anonymousTypeName optHash counter, suffix := .Type }

theorem all_isSimpleChar_toDigits {b n : Nat} (hb : 1 < b) (hle : b ≤ 16) :
    (Nat.toDigits b n).all isSimpleChar = true :=
  List.all_eq_true.mpr fun _ hc => (digit_of_mem_toDigits hb hle hc).1

/-- The name needs no quotes. -/
theorem escaped_anonymousTypeName (optHash : Option UInt64) (counter : UInt32) :
    escaped (anonymousTypeName optHash counter) = anonymousTypeName optHash counter := by
  have hfront : "$anonymous_type_".toList.all isSimpleChar = true := rfl
  have hdecimal : (Nat.toDigits 10 counter.toNat).all isSimpleChar = true :=
    all_isSimpleChar_toDigits (by decide) (by decide)
  rw [escaped_eq, if_pos]
  unfold anonymousTypeName
  cases optHash with
  | none =>
      dsimp only
      rw [List.all_append, hfront, hdecimal]
      rfl
  | some hash =>
      have hhex : (Nat.toDigits 16 hash.toNat).all isSimpleChar = true :=
        all_isSimpleChar_toDigits (by decide) (by decide)
      dsimp only
      rw [List.all_append, List.all_append, List.all_cons, hfront, hhex, hdecimal]
      rfl

/-- The symbol of an anonymous type, cut at the last two underscores. -/
theorem anonymousSymbol_eq (contextSymbol : Str) (optHash : Option UInt64) (counter : UInt32) :
    anonymousSymbol contextSymbol optHash counter =
      (contextSymbol ++ (if optHash.isSome then "$anonymous_type".toList else "$anonymous".toList) ++
        '_' :: (optHash.elim "type".toList fun hash => Nat.toDigits 16 hash.toNat)) ++
        '_' :: (Nat.toDigits 10 counter.toNat ++ ['#']) := by
  rw [anonymousSymbol, SymbolBuilder.formatContextual, DescriptorBuilder.formatTo,
    escaped_anonymousTypeName]
  have hwith : "$anonymous_type_".toList = "$anonymous_type".toList ++ ['_'] := rfl
  have hwithout : "$anonymous_type_".toList = "$anonymous".toList ++ '_' :: ("type".toList ++ ['_']) :=
    rfl
  unfold anonymousTypeName
  cases optHash with
  | none =>
      dsimp only [Option.isSome_none, Option.elim_none]
      rw [hwithout, if_neg Bool.false_ne_true]
      simp only [List.append_assoc, List.cons_append, List.nil_append]
  | some hash =>
      dsimp only [Option.isSome_some, Option.elim_some]
      rw [hwith, if_pos rfl]
      simp only [List.append_assoc, List.cons_append, List.nil_append]

/-- **The context, the hash and the number can be read off the symbol.** -/
theorem anonymousSymbol_inj {contextSymbol contextSymbol' : Str} {optHash optHash' : Option UInt64}
    {counter counter' : UInt32} (h : anonymousSymbol contextSymbol optHash counter =
      anonymousSymbol contextSymbol' optHash' counter') :
    contextSymbol = contextSymbol' ∧ optHash = optHash' ∧ counter = counter' := by
  have hnumber : ∀ n : UInt32, '_' ∉ Nat.toDigits 10 n.toNat ++ ['#'] := by
    intro n hmem
    rw [List.mem_append] at hmem
    rcases hmem with hmem | hmem
    · exact (digit_of_mem_toDigits (by decide) (by decide) hmem).2.1 rfl
    · exact absurd (List.mem_singleton.mp hmem) (by decide)
  have hmiddle : ∀ hash : Option UInt64,
      '_' ∉ hash.elim "type".toList fun hash => Nat.toDigits 16 hash.toNat := by
    intro hash hmem
    cases hash with
    | none => exact absurd hmem (by decide)
    | some hash => exact (digit_of_mem_toDigits (by decide) (by decide) hmem).2.1 rfl
  have htype : ∀ hash : UInt64, Nat.toDigits 16 hash.toNat ≠ "type".toList := by
    intro hash heq
    have hmem : 't' ∈ Nat.toDigits 16 hash.toNat := by
      rw [heq]
      decide
    exact (digit_of_mem_toDigits (by decide) (by decide) hmem).2.2 rfl
  rw [anonymousSymbol_eq, anonymousSymbol_eq] at h
  obtain ⟨hrest, hcounter⟩ := append_cons_inj_last (hnumber counter) (hnumber counter') h
  obtain ⟨hcontext, hhash⟩ := append_cons_inj_last (hmiddle optHash) (hmiddle optHash') hrest
  have hcounter' : counter = counter' := UInt32.toNat_inj.mp
    (Digits.toDigits_injective (by decide) (by decide) (List.append_cancel_right hcounter))
  cases optHash with
  | none =>
      cases optHash' with
      | none => exact ⟨List.append_cancel_right hcontext, rfl, hcounter'⟩
      | some hash' => exact absurd hhash.symm (htype hash')
  | some hash =>
      cases optHash' with
      | none => exact absurd hhash (htype hash)
      | some hash' =>
          have hvalue : hash = hash' :=
            UInt64.toNat_inj.mp (Digits.toDigits_injective (by decide) (by decide) hhash)
          exact ⟨List.append_cancel_right hcontext, congrArg some hvalue, hcounter'⟩

/-! ## Which number a declaration gets -/

/-- The declaration is given a number of the file. -/
def TagRequest.numberedIn (fileId : FileId) (tagDecl : TagRequest) : Bool :=
  tagDecl.optContextSymbol.isSome && tagDecl.definition.any (·.defFileId = fileId)

/-- The declarations that are given a number of the file. -/
def declsIn (requests : List TagRequest) (fileId : FileId) : Finset Nat :=
  ((requests.filter (·.numberedIn fileId)).map (·.canonicalDecl)).toFinset

/-- How many declarations were given a number of the file before the declaration was first
asked for. -/
def position (requests : List TagRequest) (canonicalDecl : Nat) (fileId : FileId) : Nat :=
  (declsIn (requests.takeWhile (·.canonicalDecl ≠ canonicalDecl)) fileId).card

/-- The requests describe each declaration in one way. -/
def Consistent (requests : List TagRequest) : Prop :=
  ∀ r ∈ requests, ∀ r' ∈ requests, r.canonicalDecl = r'.canonicalDecl → r = r'

theorem mem_declsIn {requests : List TagRequest} {fileId : FileId} {canonicalDecl : Nat} :
    canonicalDecl ∈ declsIn requests fileId ↔
      ∃ r ∈ requests, r.numberedIn fileId = true ∧ r.canonicalDecl = canonicalDecl := by
  simp [declsIn, and_assoc]

/-- A request that is given no number of the file changes nothing there. -/
theorem declsIn_append_of_not {x : TagRequest} {fileId : FileId}
    (hx : x.numberedIn fileId = false) (requests : List TagRequest) :
    declsIn (requests ++ [x]) fileId = declsIn requests fileId := by
  rw [declsIn, declsIn, List.filter_append, List.filter_cons_of_neg (by simp [hx]),
    List.filter_nil, List.append_nil]

theorem declsIn_append_of_numbered {x : TagRequest} {fileId : FileId}
    (hx : x.numberedIn fileId = true) (requests : List TagRequest) :
    declsIn (requests ++ [x]) fileId = insert x.canonicalDecl (declsIn requests fileId) := by
  ext canonicalDecl
  rw [Finset.mem_insert, mem_declsIn, mem_declsIn]
  constructor
  · rintro ⟨r, hr, hin, rfl⟩
    rcases List.mem_append.mp hr with hr | hr
    · exact Or.inr ⟨r, hr, hin, rfl⟩
    · rw [List.mem_singleton.mp hr]
      exact Or.inl rfl
  · rintro (rfl | ⟨r, hr, hin, rfl⟩)
    · exact ⟨x, by simp, hx, rfl⟩
    · exact ⟨r, List.mem_append_left [x] hr, hin, rfl⟩

theorem takeWhile_append_of_mem {requests : List TagRequest} {r : TagRequest} (hr : r ∈ requests)
    (rest : List TagRequest) :
    (requests ++ rest).takeWhile (·.canonicalDecl ≠ r.canonicalDecl) =
      requests.takeWhile (·.canonicalDecl ≠ r.canonicalDecl) := by
  induction requests with
  | nil => cases hr
  | cons x requests ih =>
      rw [List.cons_append, List.takeWhile_cons, List.takeWhile_cons]
      split
      · next hx =>
        have hne : r ≠ x := fun heq => by simp [heq] at hx
        rw [ih (List.mem_of_ne_of_mem hne hr)]
      · rfl

namespace TagFormatter

variable (forText : Str → UInt64) (files : FileMetadataMap)

/-- The symbol that a declaration gets in the course of the requests, if it gets one. -/
def symbolIn (requests : List TagRequest) (tagDecl : TagRequest) : Option Str :=
  match tagDecl.optContextSymbol, tagDecl.definition with
  | some contextSymbol, some definition =>
      some (anonymousSymbol contextSymbol ((hashedPath files definition).map forText)
        (UInt32.ofNat (position requests tagDecl.canonicalDecl definition.defFileId)))
  | _, _ => none

/-- The formatter after the requests. -/
structure AfterRequests (done : List TagRequest) (formatter : TagFormatter) : Prop where
  counters : ∀ fileId, formatter.typeCounter fileId = UInt32.ofNat (declsIn done fileId).card
  cached : ∀ canonicalDecl symbol, formatter.declBasedCache.lookup canonicalDecl = some symbol ↔
    ∃ r ∈ done, r.canonicalDecl = canonicalDecl ∧ symbolIn forText files done r = some symbol

variable {forText files}

/-- Later requests do not matter. -/
theorem symbolIn_append {requests : List TagRequest} {r : TagRequest} (hr : r ∈ requests)
    (rest : List TagRequest) :
    symbolIn forText files (requests ++ rest) r = symbolIn forText files requests r := by
  unfold symbolIn position
  rw [takeWhile_append_of_mem hr]

/-- The symbols after one more request are those before it, and its own. -/
theorem exists_symbolIn_append {done : List TagRequest} {x : TagRequest} {canonicalDecl : Nat}
    {symbol : Str} :
    (∃ r ∈ done ++ [x], r.canonicalDecl = canonicalDecl ∧
        symbolIn forText files (done ++ [x]) r = some symbol) ↔
      (∃ r ∈ done, r.canonicalDecl = canonicalDecl ∧
        symbolIn forText files done r = some symbol) ∨
      (x.canonicalDecl = canonicalDecl ∧
        symbolIn forText files (done ++ [x]) x = some symbol) := by
  constructor
  · rintro ⟨r, hr, hdecl, hsymbol⟩
    rcases List.mem_append.mp hr with hr | hr
    · exact Or.inl ⟨r, hr, hdecl, by rw [← symbolIn_append hr]; exact hsymbol⟩
    · rw [List.mem_singleton.mp hr] at hdecl hsymbol
      exact Or.inr ⟨hdecl, hsymbol⟩
  · rintro (⟨r, hr, hdecl, hsymbol⟩ | ⟨hdecl, hsymbol⟩)
    · exact ⟨r, List.mem_append_left [x] hr, hdecl, by rw [symbolIn_append hr]; exact hsymbol⟩
    · exact ⟨x, by simp, hdecl, hsymbol⟩

theorem afterRequests_initial : AfterRequests forText files [] {} where
  counters _ := rfl
  cached canonicalDecl symbol := by
    rw [show ({} : TagFormatter).declBasedCache = ∅ from rfl, AList.lookup_empty]
    simp

namespace AfterRequests

variable {done : List TagRequest} {formatter : TagFormatter} {x : TagRequest}

/-- A declaration that was asked for before changes nothing. -/
theorem of_mem (h : AfterRequests forText files done formatter) (hx : x ∈ done) :
    AfterRequests forText files (done ++ [x]) formatter where
  counters fileId := by
    have hmem : ∀ r, r ∈ done ++ [x] ↔ r ∈ done := by
      intro r
      rw [List.mem_append, List.mem_singleton]
      exact ⟨fun hr => hr.elim id fun heq => heq ▸ hx, Or.inl⟩
    rw [h.counters]
    congr 2
    ext canonicalDecl
    simp only [mem_declsIn, hmem]
  cached canonicalDecl symbol := by
    rw [h.cached, exists_symbolIn_append]
    refine ⟨Or.inl, fun hsymbol => hsymbol.elim id ?_⟩
    rintro ⟨hdecl, hsymbol⟩
    exact ⟨x, hx, hdecl, by rw [← symbolIn_append hx]; exact hsymbol⟩

/-- Nor does a declaration that gets no symbol. -/
theorem of_none (h : AfterRequests forText files done formatter)
    (hx : x.optContextSymbol = none ∨ x.definition = none) :
    AfterRequests forText files (done ++ [x]) formatter where
  counters fileId := by
    have hnot : x.numberedIn fileId = false := by
      rcases hx with hx | hx <;> simp [TagRequest.numberedIn, hx]
    rw [h.counters, declsIn_append_of_not hnot]
  cached canonicalDecl symbol := by
    have hnone : symbolIn forText files (done ++ [x]) x = none := by
      rcases hx with hx | hx
      · simp [symbolIn, hx]
      · cases hcontext : x.optContextSymbol <;> simp [symbolIn, hx, hcontext]
    rw [h.cached, exists_symbolIn_append, hnone]
    exact ⟨Or.inl, fun hsymbol => hsymbol.elim id fun hsymbol => nomatch hsymbol.2⟩

/-- A declaration that gets its symbol now is given the next number of its file. -/
theorem of_new (h : AfterRequests forText files done formatter) {contextSymbol : Str}
    {definition : TagDefinition} (hcontext : x.optContextSymbol = some contextSymbol)
    (hdefinition : x.definition = some definition)
    (hnew : ∀ r ∈ done, r.canonicalDecl ≠ x.canonicalDecl) :
    symbolIn forText files (done ++ [x]) x = some (anonymousSymbol contextSymbol
        ((hashedPath files definition).map forText) (formatter.typeCounter definition.defFileId)) ∧
      AfterRequests forText files (done ++ [x]) { formatter with
        anonymousTypeCounters := formatter.anonymousTypeCounters.insert definition.defFileId
          (formatter.typeCounter definition.defFileId + 1)
        declBasedCache := formatter.declBasedCache.insert x.canonicalDecl
          (anonymousSymbol contextSymbol ((hashedPath files definition).map forText)
            (formatter.typeCounter definition.defFileId)) } := by
  have htake : (done ++ [x]).takeWhile (·.canonicalDecl ≠ x.canonicalDecl) = done := by
    rw [List.takeWhile_append_of_pos fun r hr => by simpa using hnew r hr,
      List.takeWhile_cons_of_neg (by simp), List.append_nil]
  have hsymbol : symbolIn forText files (done ++ [x]) x = some (anonymousSymbol contextSymbol
      ((hashedPath files definition).map forText) (formatter.typeCounter definition.defFileId)) := by
    unfold symbolIn position
    rw [hcontext, hdefinition, htake, h.counters]
  refine ⟨hsymbol, ?_, ?_⟩
  · intro fileId
    rw [typeCounter]
    by_cases hfile : fileId = definition.defFileId
    · have hnumbered : x.numberedIn fileId = true := by
        simp [TagRequest.numberedIn, hcontext, hdefinition, hfile]
      have hnot : x.canonicalDecl ∉ declsIn done fileId := by
        rw [mem_declsIn]
        rintro ⟨r, hr, -, hdecl⟩
        exact hnew r hr hdecl
      rw [declsIn_append_of_numbered hnumbered, Finset.card_insert_of_notMem hnot, hfile,
        AList.lookup_insert, Option.getD_some, h.counters, UInt32.ofNat_add]
      rfl
    · have hnumbered : x.numberedIn fileId = false := by
        simp [TagRequest.numberedIn, hdefinition, Ne.symm hfile]
      rw [declsIn_append_of_not hnumbered, AList.lookup_insert_ne hfile]
      exact h.counters fileId
  · intro canonicalDecl symbol
    rw [exists_symbolIn_append]
    by_cases hdecl : canonicalDecl = x.canonicalDecl
    · rw [hdecl, AList.lookup_insert, ← hsymbol]
      refine ⟨fun heq => Or.inr ⟨rfl, heq⟩, ?_⟩
      rintro (⟨r, hr, hsame, -⟩ | ⟨-, heq⟩)
      · exact absurd hsame (hnew r hr)
      · exact heq
    · rw [AList.lookup_insert_ne hdecl, h.cached]
      refine ⟨Or.inl, fun hcases => hcases.elim id ?_⟩
      rintro ⟨hsame, -⟩
      exact absurd hsame.symm hdecl

variable (forText files) in
/-- **One request.** The declaration gets its symbol, and the formatter is ready for the next
request. -/
theorem getTagSymbol (h : AfterRequests forText files done formatter)
    (hconsistent : Consistent (done ++ [x])) (hname : x.declName = []) :
    (formatter.getTagSymbol forText files x).1 = symbolIn forText files (done ++ [x]) x ∧
      AfterRequests forText files (done ++ [x]) (formatter.getTagSymbol forText files x).2 := by
  have hsame : ∀ r ∈ done, r.canonicalDecl = x.canonicalDecl → r = x := fun r hr =>
    hconsistent r (List.mem_append_left [x] hr) x (by simp)
  unfold TagFormatter.getTagSymbol getSymbolCached
  cases hlookup : formatter.declBasedCache.lookup x.canonicalDecl with
  | some symbol =>
      obtain ⟨r, hr, hdecl, hsymbol⟩ := (h.cached _ _).mp hlookup
      have hrx := hsame r hr hdecl
      rw [hrx] at hr hsymbol
      refine ⟨?_, h.of_mem hr⟩
      rw [symbolIn_append hr, hsymbol]
  | none =>
      cases hcontext : x.optContextSymbol with
      | none => exact ⟨by simp [symbolIn, hcontext], h.of_none (Or.inl hcontext)⟩
      | some contextSymbol =>
          cases hdefinition : x.definition with
          | none =>
              simp only [hname, ne_eq, not_true_eq_false, if_false]
              exact ⟨by simp [symbolIn, hcontext, hdefinition], h.of_none (Or.inr hdefinition)⟩
          | some definition =>
              simp only [hname, ne_eq, not_true_eq_false, if_false]
              have hnew : ∀ r ∈ done, r.canonicalDecl ≠ x.canonicalDecl := by
                intro r hr hdecl
                obtain ⟨symbol, hsymbol⟩ :
                    ∃ symbol, symbolIn forText files done x = some symbol := by
                  simp [symbolIn, hcontext, hdefinition]
                rw [hsame r hr hdecl] at hr
                rw [(h.cached x.canonicalDecl symbol).mpr ⟨x, hr, rfl, hsymbol⟩] at hlookup
                cases hlookup
              obtain ⟨hsymbol, hafter⟩ := h.of_new hcontext hdefinition hnew
              exact ⟨hsymbol.symm, hafter⟩

end AfterRequests

variable (forText files) in
/-- **The symbols of a sequence of declarations.** -/
theorem answers_spec (rest : List TagRequest) :
    ∀ (done : List TagRequest) (formatter : TagFormatter),
      AfterRequests forText files done formatter → Consistent (done ++ rest) →
      (∀ r ∈ rest, r.declName = []) →
      answers forText files formatter rest =
        rest.map fun r => (r, symbolIn forText files (done ++ rest) r) := by
  induction rest with
  | nil => intro done formatter _ _ _; rfl
  | cons x rest ih =>
      intro done formatter h hconsistent hname
      rw [List.append_cons] at hconsistent ⊢
      have hfirst : Consistent (done ++ [x]) := fun r hr r' hr' =>
        hconsistent r (List.mem_append_left rest hr) r' (List.mem_append_left rest hr')
      obtain ⟨hanswer, hafter⟩ := h.getTagSymbol forText files hfirst (hname x (by simp))
      have hlast : x ∈ done ++ [x] := by simp
      rw [answers, hanswer, ih (done ++ [x]) _ hafter hconsistent fun r hr => hname r (by simp [hr]),
        List.map_cons, symbolIn_append hlast]

end TagFormatter

/-! ## Different declarations, different symbols -/

/-- The paths of the files. -/
def FileMetadataMap.paths (files : FileMetadataMap) : Set Str :=
  { path | ∃ fileId stableFileId,
    files.getStableFileId fileId = some stableFileId ∧ stableFileId.path.value = path }

/-- Two requests that are answered get the same symbol exactly if they are for the same
declaration. -/
def DistinctSymbols (forText : Str → UInt64) (files : FileMetadataMap)
    (requests : List TagRequest) : Prop :=
  ∀ p ∈ TagFormatter.answers forText files {} requests,
    ∀ q ∈ TagFormatter.answers forText files {} requests, ∀ symbol symbol',
      p.2 = some symbol → q.2 = some symbol' →
        (symbol = symbol' ↔ p.1.canonicalDecl = q.1.canonicalDecl)

/-- Different declarations with the same context have different numbers, up to the 32 bits
of a counter, unless the paths of their files are hashed into their names and differ. -/
def NumbersApart (files : FileMetadataMap) (requests : List TagRequest) : Prop :=
  ∀ r ∈ requests, ∀ r' ∈ requests, ∀ contextSymbol definition definition',
    r.optContextSymbol = some contextSymbol → r'.optContextSymbol = some contextSymbol →
    r.definition = some definition → r'.definition = some definition' →
    r.canonicalDecl ≠ r'.canonicalDecl →
    TagFormatter.hashedPath files definition = TagFormatter.hashedPath files definition' →
      position requests r.canonicalDecl definition.defFileId % 2 ^ 32 ≠
        position requests r'.canonicalDecl definition'.defFileId % 2 ^ 32

theorem ofNat_inj_mod {m n : Nat} : UInt32.ofNat m = UInt32.ofNat n ↔ m % 2 ^ 32 = n % 2 ^ 32 := by
  rw [← UInt32.toNat_inj, UInt32.toNat_ofNat', UInt32.toNat_ofNat']

variable {forText : Str → UInt64} {files : FileMetadataMap}

/-- If hashing paths is collision-free, equal hashes come from equal paths. -/
theorem hashedPath_eq_of_map (hhash : Set.InjOn forText files.paths)
    {definition definition' : TagDefinition}
    (h : (TagFormatter.hashedPath files definition).map forText =
      (TagFormatter.hashedPath files definition').map forText) :
    TagFormatter.hashedPath files definition = TagFormatter.hashedPath files definition' := by
  have hpath : ∀ {definition : TagDefinition} {path : Str},
      TagFormatter.hashedPath files definition = some path → path ∈ files.paths := by
    intro definition path hpath
    unfold TagFormatter.hashedPath at hpath
    split at hpath
    · obtain ⟨stableFileId, hfile, hvalue⟩ := Option.map_eq_some_iff.mp hpath
      exact ⟨definition.defFileId, stableFileId, hfile, hvalue⟩
    · cases hpath
  cases hfirst : TagFormatter.hashedPath files definition with
  | none =>
      cases hsecond : TagFormatter.hashedPath files definition' with
      | none => rfl
      | some path' => simp [hfirst, hsecond] at h
  | some path =>
      cases hsecond : TagFormatter.hashedPath files definition' with
      | none => simp [hfirst, hsecond] at h
      | some path' =>
          rw [hfirst, hsecond, Option.map_some, Option.map_some, Option.some.injEq] at h
          rw [hhash (hpath hfirst) (hpath hsecond) h]

/-- **When different anonymous types get different symbols**: exactly if no two of them with the
same context, and with the same hashed path or none, have the same number in their files. -/
theorem distinctSymbols_iff (hhash : Set.InjOn forText files.paths) {requests : List TagRequest}
    (hname : ∀ r ∈ requests, r.declName = []) (hconsistent : Consistent requests) :
    DistinctSymbols forText files requests ↔ NumbersApart files requests := by
  have hanswers : TagFormatter.answers forText files {} requests =
      requests.map fun r => (r, TagFormatter.symbolIn forText files requests r) :=
    TagFormatter.answers_spec forText files requests [] {} TagFormatter.afterRequests_initial
      hconsistent hname
  unfold DistinctSymbols
  simp only [hanswers, List.forall_mem_map]
  constructor
  · intro h r hr r' hr' contextSymbol definition definition' hcontext hcontext' hdefinition
      hdefinition' hne hpath hnumber
    have hsymbol : TagFormatter.symbolIn forText files requests r =
        TagFormatter.symbolIn forText files requests r' := by
      simp only [TagFormatter.symbolIn, hcontext, hcontext', hdefinition, hdefinition', hpath,
        ofNat_inj_mod.mpr hnumber]
    obtain ⟨symbol, hsome⟩ : ∃ symbol,
        TagFormatter.symbolIn forText files requests r' = some symbol := by
      simp [TagFormatter.symbolIn, hcontext', hdefinition']
    exact hne ((h r hr r' hr' symbol symbol (hsymbol.trans hsome) hsome).mp rfl)
  · intro h r hr r' hr' symbol symbol' hsymbol hsymbol'
    constructor
    · rintro rfl
      by_contra hne
      unfold TagFormatter.symbolIn at hsymbol hsymbol'
      split at hsymbol
      · next contextSymbol definition hcontext hdefinition =>
        split at hsymbol'
        · next contextSymbol' definition' hcontext' hdefinition' =>
          obtain ⟨rfl, hmap, hnumber⟩ := anonymousSymbol_inj
            ((Option.some.inj hsymbol).trans (Option.some.inj hsymbol').symm)
          exact h r hr r' hr' _ definition definition' hcontext hcontext' hdefinition hdefinition'
            hne (hashedPath_eq_of_map hhash hmap) (ofNat_inj_mod.mp hnumber)
        · cases hsymbol'
      · cases hsymbol
    · intro hdecl
      have hsame := hconsistent r hr r' hr' hdecl
      rw [hsame, hsymbol'] at hsymbol
      exact (Option.some.inj hsymbol).symm

/-! ## A class with two included files -/

/-- The metadata of two included files. -/
def includedFiles : FileMetadataMap where
  map := (AList.singleton ⟨2⟩
      ⟨⟨⟨"x.inc".toList, .Project⟩, true, false⟩, ⟨"/p/x.inc".toList⟩, none⟩).insert ⟨3⟩
      ⟨⟨⟨"yy.inc".toList, .Project⟩, true, false⟩, ⟨"/p/yy.inc".toList⟩, none⟩
  projectRootPath := ⟨⟨"/p".toList⟩, .Project⟩
  buildRootPath := ⟨⟨"/p".toList⟩, .Build⟩
  packageMap := { projectRootPath := ⟨⟨"/p".toList⟩, .Project⟩, isTesting := false }

/-- An anonymous type from each of the files, and the first one again. -/
def includedTypes (contextSymbol : Str) (inNamespace : Bool) : List TagRequest :=
  [⟨0, some contextSymbol, [], some ⟨⟨2⟩, inNamespace⟩⟩,
    ⟨1, some contextSymbol, [], some ⟨⟨3⟩, inNamespace⟩⟩,
    ⟨0, some contextSymbol, [], some ⟨⟨2⟩, inNamespace⟩⟩]

theorem paths_includedFiles : includedFiles.paths ⊆ {"x.inc".toList, "yy.inc".toList} := by
  rintro path ⟨fileId, stableFileId, hfile, rfl⟩
  unfold FileMetadataMap.getStableFileId includedFiles at hfile
  dsimp only at hfile
  by_cases hsecond : fileId = ⟨3⟩
  · rw [hsecond, AList.lookup_insert, Option.map_some, Option.some.injEq] at hfile
    rw [← hfile]
    exact Or.inr rfl
  · rw [AList.lookup_insert_ne hsecond] at hfile
    obtain ⟨metadata, hmetadata, hstable⟩ := Option.map_eq_some_iff.mp hfile
    have hfirst := List.mem_singleton.mp (AList.mem_lookup_iff.mp hmetadata)
    cases hfirst
    rw [← hstable]
    exact Or.inl rfl

/-- In a namespace, the paths tell the types apart. -/
theorem distinctSymbols_iff_namespace :
    DistinctSymbols (fun text => UInt64.ofNat text.length) includedFiles
        (includedTypes "cxx . . $ z/".toList true) ↔
      NumbersApart includedFiles (includedTypes "cxx . . $ z/".toList true) := by
  refine distinctSymbols_iff (Set.InjOn.mono paths_includedFiles ?_) (by decide)
    (by unfold Consistent; decide)
  rintro path (rfl | rfl) path' (rfl | rfl) heq
  · rfl
  · exact absurd heq (by decide)
  · exact absurd heq (by decide)
  · rfl

/-- Inside of a class, both are the type number zero. -/
theorem types_of_class_collide :
    ¬ DistinctSymbols (fun text => UInt64.ofNat text.length) includedFiles
      (includedTypes "cxx . . $ S#".toList false) := by
  intro h
  have hsame := (h _ List.mem_cons_self _ (List.mem_cons_of_mem _ List.mem_cons_self) _ _ rfl rfl).mp
    rfl
  exact absurd hsame (by decide)

end ScipClang
