import ScipClang.Library.Digits
import ScipClang.Scip.Merging
import ScipClang.SymbolFormatter
import ScipClang.Worker.IdPathMappings

/-!
# Local symbols

Variables, parameters and the like are only known inside of a file.  `SymbolFormatter` gives
them the names `local 0`, `local 1` and so on, counting for each file id of a translation unit
from zero (`indexer/SymbolFormatter.cc`).

Two expansions of a header are counted apart, so that the same name may stand for different
declarations in them.  `DocumentBuilder` merges the documents of both and leaves the names as
they are.

* `SymbolFormatter.singleDefinitions`: within a file, a name stands for one declaration.
* `localsKeptApart_iff`: when this is still so in the merged document.
-/

namespace ScipClang

open HashTables

/-! ## Numbering -/

/-- A named declaration that is local to a file: its canonical declaration, whether it has a name
at all, and the file that it is in. -/
structure LocalDecl where
  canonicalDecl : Nat
  hasName : Bool
  defFileId : FileId
deriving DecidableEq

/-- `SymbolFormatter`, with what it remembers about local declarations. -/
structure SymbolFormatter where
  localVariableCounters : AList (fun _ : FileId => Nat) := ∅
  declBasedCache : AList (fun _ : Nat => Str) := ∅

/-- Where a local declaration is defined or referred to. -/
structure LocalUse where
  decl : LocalDecl
  range : ScipRange
  symbolRoles : Int32

/-- Distinct numbers give distinct symbols. -/
theorem formatLocal_injective : Function.Injective formatLocal := by
  intro m n h
  have hdigits : Nat.toDigits 10 m = Nat.toDigits 10 n := List.append_cancel_left h
  exact Digits.toDigits_injective (by decide) (by decide) hdigits

namespace SymbolFormatter

/-- The number of the next local symbol of a file. -/
def counter (formatter : SymbolFormatter) (fileId : FileId) : Nat :=
  (formatter.localVariableCounters.lookup fileId).getD 0

/-- `SymbolFormatter::getSymbolCached`. -/
def getSymbolCached (formatter : SymbolFormatter) (canonicalDecl : Nat)
    (getSymbol : SymbolFormatter → Str × SymbolFormatter) : Str × SymbolFormatter :=
  match formatter.declBasedCache.lookup canonicalDecl with
  | some symbol => (symbol, formatter)
  | none =>
      let (symbol, formatter) := getSymbol formatter
      (symbol, { formatter with
        declBasedCache := formatter.declBasedCache.insert canonicalDecl symbol })

/-- `SymbolFormatter::getNextLocalSymbol`. -/
def getNextLocalSymbol (formatter : SymbolFormatter) (decl : LocalDecl) :
    Option Str × SymbolFormatter :=
  if decl.hasName then
    let (symbol, formatter) := formatter.getSymbolCached decl.canonicalDecl fun formatter =>
      (formatLocal (formatter.counter decl.defFileId),
        { formatter with
          localVariableCounters := formatter.localVariableCounters.insert decl.defFileId
            (formatter.counter decl.defFileId + 1) })
    (some symbol, formatter)
  else (none, formatter)

/-- The occurrences of local declarations, in the order in which they are saved. -/
def localOccurrences : SymbolFormatter → List LocalUse → List Occurrence × SymbolFormatter
  | formatter, [] => ([], formatter)
  | formatter, use :: uses =>
      let (optSymbol, formatter) := formatter.getNextLocalSymbol use.decl
      let (occurrences, formatter) := localOccurrences formatter uses
      ((optSymbol.map fun symbol =>
          ({ range := use.range, symbol := symbol, symbolRoles := use.symbolRoles } :
            Occurrence)).toList ++ occurrences, formatter)

/-- All numbers given out in a file are below its counter, and none is given out twice. -/
structure Numbered (fileOf : Nat → FileId) (formatter : SymbolFormatter) : Prop where
  below : ∀ canonicalDecl symbol, formatter.declBasedCache.lookup canonicalDecl = some symbol →
    ∃ number < formatter.counter (fileOf canonicalDecl), symbol = formatLocal number
  unique : ∀ canonicalDecl other symbol, fileOf canonicalDecl = fileOf other →
    formatter.declBasedCache.lookup canonicalDecl = some symbol →
      formatter.declBasedCache.lookup other = some symbol → canonicalDecl = other

theorem numbered_initial (fileOf : Nat → FileId) : Numbered fileOf {} where
  below canonicalDecl symbol h := by
    rw [show ({} : SymbolFormatter).declBasedCache = ∅ from rfl, AList.lookup_empty] at h
    cases h
  unique canonicalDecl other symbol _ h := by
    rw [show ({} : SymbolFormatter).declBasedCache = ∅ from rfl, AList.lookup_empty] at h
    cases h

/-- The formatter after a new declaration in a file was given the next number. -/
def addNumber (formatter : SymbolFormatter) (canonicalDecl : Nat) (fileId : FileId) :
    SymbolFormatter where
  localVariableCounters :=
    formatter.localVariableCounters.insert fileId (formatter.counter fileId + 1)
  declBasedCache :=
    formatter.declBasedCache.insert canonicalDecl (formatLocal (formatter.counter fileId))

theorem counter_addNumber (formatter : SymbolFormatter) (canonicalDecl : Nat)
    (fileId other : FileId) :
    (formatter.addNumber canonicalDecl fileId).counter other =
      if other = fileId then formatter.counter fileId + 1 else formatter.counter other := by
  rw [counter, addNumber]
  split
  · rename_i heq
    rw [heq, AList.lookup_insert, Option.getD_some]
  · rename_i hne
    rw [AList.lookup_insert_ne hne, counter]

theorem lookup_addNumber (formatter : SymbolFormatter) (canonicalDecl : Nat) (fileId : FileId)
    (other : Nat) :
    (formatter.addNumber canonicalDecl fileId).declBasedCache.lookup other =
      if other = canonicalDecl then some (formatLocal (formatter.counter fileId))
      else formatter.declBasedCache.lookup other := by
  rw [addNumber]
  split
  · rename_i heq
    rw [heq, AList.lookup_insert]
  · rename_i hne
    rw [AList.lookup_insert_ne hne]

/-- The next number of a file is not given out yet. -/
theorem Numbered.lookup_ne {fileOf : Nat → FileId} {formatter : SymbolFormatter}
    (h : formatter.Numbered fileOf) (canonicalDecl : Nat) :
    formatter.declBasedCache.lookup canonicalDecl ≠
      some (formatLocal (formatter.counter (fileOf canonicalDecl))) := by
  intro hsymbol
  obtain ⟨number, hlt, hnumber⟩ := h.below canonicalDecl _ hsymbol
  exact hlt.ne' (formatLocal_injective hnumber)

theorem Numbered.addNumber {fileOf : Nat → FileId} {formatter : SymbolFormatter}
    (h : formatter.Numbered fileOf) (canonicalDecl : Nat) :
    (formatter.addNumber canonicalDecl (fileOf canonicalDecl)).Numbered fileOf where
  below := by
    intro other symbol hsymbol
    rw [lookup_addNumber] at hsymbol
    rw [counter_addNumber]
    split at hsymbol
    · rename_i heq
      subst heq
      refine ⟨_, ?_, (Option.some.inj hsymbol).symm⟩
      rw [if_pos rfl]
      exact Nat.lt_succ_self _
    · obtain ⟨number, hlt, hnumber⟩ := h.below other symbol hsymbol
      refine ⟨number, ?_, hnumber⟩
      split
      · rename_i hsame
        rw [hsame] at hlt
        exact hlt.trans (Nat.lt_succ_self _)
      · exact hlt
  unique := by
    intro first second symbol hsame hfirst hsecond
    rw [lookup_addNumber] at hfirst hsecond
    split at hfirst <;> split at hsecond
    · rename_i hfirstEq hsecondEq
      rw [hfirstEq, hsecondEq]
    · -- only the first is new
      rename_i heq _
      rw [← hfirst, ← heq, hsame] at hsecond
      exact absurd hsecond (h.lookup_ne second)
    · -- only the second is new
      rename_i heq
      rw [← hsecond, ← heq, ← hsame] at hfirst
      exact absurd hfirst (h.lookup_ne first)
    · exact h.unique first second symbol hsame hfirst hsecond

/-- What one call does: the symbol is in the cache afterwards, and the cache keeps what it
had. -/
theorem getNextLocalSymbol_spec {fileOf : Nat → FileId} {formatter : SymbolFormatter}
    (h : formatter.Numbered fileOf) {decl : LocalDecl}
    (hfile : decl.defFileId = fileOf decl.canonicalDecl) (hname : decl.hasName = true) :
    ∃ symbol formatter', formatter.getNextLocalSymbol decl = (some symbol, formatter') ∧
      formatter'.Numbered fileOf ∧
      formatter'.declBasedCache.lookup decl.canonicalDecl = some symbol ∧
      ∀ other known, formatter.declBasedCache.lookup other = some known →
        formatter'.declBasedCache.lookup other = some known := by
  unfold getNextLocalSymbol getSymbolCached
  rw [if_pos hname]
  cases hlookup : formatter.declBasedCache.lookup decl.canonicalDecl with
  | some symbol => exact ⟨symbol, formatter, rfl, h, hlookup, fun _ _ hknown => hknown⟩
  | none =>
      refine ⟨_, formatter.addNumber decl.canonicalDecl decl.defFileId, rfl, ?_, ?_, ?_⟩
      · rw [hfile]
        exact h.addNumber decl.canonicalDecl
      · rw [lookup_addNumber, if_pos rfl]
      · intro other known hknown
        have hother : other ≠ decl.canonicalDecl := by
          rintro rfl
          rw [hlookup] at hknown
          cases hknown
        rw [lookup_addNumber, if_neg hother, hknown]

/-- Every occurrence has the symbol that is cached for its declaration in the end. -/
theorem localOccurrences_spec {fileOf : Nat → FileId} (uses : List LocalUse)
    {formatter : SymbolFormatter} (h : formatter.Numbered fileOf)
    (hfile : ∀ use ∈ uses, use.decl.defFileId = fileOf use.decl.canonicalDecl) :
    (formatter.localOccurrences uses).2.Numbered fileOf ∧
      (∀ other known, formatter.declBasedCache.lookup other = some known →
        (formatter.localOccurrences uses).2.declBasedCache.lookup other = some known) ∧
      ∀ occ ∈ (formatter.localOccurrences uses).1, ∃ use ∈ uses,
        occ.range = use.range ∧ occ.symbolRoles = use.symbolRoles ∧
        (formatter.localOccurrences uses).2.declBasedCache.lookup use.decl.canonicalDecl =
          some occ.symbol := by
  induction uses generalizing formatter with
  | nil => exact ⟨h, fun _ _ hknown => hknown, by simp [localOccurrences]⟩
  | cons use uses ih =>
      have hrest := fun other hother => hfile other (List.mem_cons_of_mem _ hother)
      rw [localOccurrences]
      by_cases hname : use.decl.hasName = true
      · obtain ⟨symbol, formatter', hcall, hnumbered, hcached, hkept⟩ :=
          getNextLocalSymbol_spec h (hfile use List.mem_cons_self) hname
        obtain ⟨hnumbered', hkept', hoccurrences⟩ := ih hnumbered hrest
        rw [hcall]
        refine ⟨hnumbered', fun other known hknown => hkept' other known (hkept other known hknown),
          ?_⟩
        intro occ hocc
        rcases List.mem_append.mp hocc with hocc | hocc
        · simp only [Option.map_some, Option.toList_some, List.mem_singleton] at hocc
          subst hocc
          exact ⟨use, List.mem_cons_self, rfl, rfl, hkept' _ _ hcached⟩
        · obtain ⟨other, hmem, hsame⟩ := hoccurrences occ hocc
          exact ⟨other, List.mem_cons_of_mem _ hmem, hsame⟩
      · have hcall : formatter.getNextLocalSymbol use.decl = (none, formatter) := by
          rw [getNextLocalSymbol, if_neg hname]
        obtain ⟨hnumbered', hkept', hoccurrences⟩ := ih h hrest
        rw [hcall]
        refine ⟨hnumbered', hkept', ?_⟩
        intro occ hocc
        obtain ⟨other, hmem, hsame⟩ := hoccurrences occ hocc
        exact ⟨other, List.mem_cons_of_mem _ hmem, hsame⟩

end SymbolFormatter

/-! ## Definitions of local symbols -/

/-- `scip::SymbolRole::Definition`. -/
def definitionRole : Int32 := 1

/-- The occurrence is a definition; every other occurrence is a reference. -/
def Occurrence.isDefinition (occ : Occurrence) : Bool := occ.symbolRoles &&& definitionRole != 0

namespace Document

/-- The document uses the local symbol with the given number. -/
def UsesLocal (doc : Document) (number : Nat) : Prop :=
  ∃ occ ∈ doc.occurrences, occ.symbol = formatLocal number

/-- The document defines the local symbol with the given number at the given range. -/
def DefinesLocal (doc : Document) (number : Nat) (range : ScipRange) : Prop :=
  ∃ occ ∈ doc.occurrences, occ.symbol = formatLocal number ∧ occ.isDefinition = true ∧
    occ.range = range

/-- Every local symbol is used for a single definition. -/
def SingleDefinitions (doc : Document) : Prop :=
  ∀ number range range', doc.DefinesLocal number range → doc.DefinesLocal number range' →
    range = range'

end Document

/-- The documents are kept apart in the merged document: a local symbol still has a single
definition, and a reference to it refers to the definition that it referred to before. -/
structure LocalsKeptApart (docs : List Document) (merged : Document) : Prop where
  singleDefinitions : merged.SingleDefinitions
  references : ∀ doc ∈ docs, ∀ occ ∈ doc.occurrences, occ.isDefinition = false →
    ∀ number, occ.symbol = formatLocal number →
      occ ∈ merged.occurrences ∧
        ∀ range, merged.DefinesLocal number range ↔ doc.DefinesLocal number range

/-- Documents that use the same local symbol define it alike. -/
def LocalsAgree (docs : List Document) : Prop :=
  ∀ doc ∈ docs, ∀ doc' ∈ docs, ∀ number, doc.UsesLocal number → doc'.UsesLocal number →
    ∀ range, doc.DefinesLocal number range → doc'.DefinesLocal number range

namespace SymbolFormatter

/-- **Within a file, a local symbol stands for one declaration.**  If every declaration is defined
at one place, the document of a file uses each local symbol for a single definition. -/
theorem singleDefinitions {fileId : FileId} {uses : List LocalUse}
    (hfile : ∀ use ∈ uses, use.decl.defFileId = fileId)
    (hplace : ∀ use ∈ uses, ∀ use' ∈ uses, use.decl.canonicalDecl = use'.decl.canonicalDecl →
      use.symbolRoles &&& definitionRole ≠ 0 → use'.symbolRoles &&& definitionRole ≠ 0 →
        use.range = use'.range) (doc : Document)
    (hdoc : doc.occurrences = (localOccurrences {} uses).1) : doc.SingleDefinitions := by
  obtain ⟨hnumbered, -, hoccurrences⟩ :=
    localOccurrences_spec uses (numbered_initial fun _ => fileId) hfile
  rintro number range range' ⟨occ, hocc, hsymbol, hdef, rfl⟩ ⟨occ', hocc', hsymbol', hdef', rfl⟩
  rw [hdoc] at hocc hocc'
  obtain ⟨use, huse, hrange, hroles, hcached⟩ := hoccurrences occ hocc
  obtain ⟨use', huse', hrange', hroles', hcached'⟩ := hoccurrences occ' hocc'
  -- the same symbol is cached for both declarations
  have hsame : use.decl.canonicalDecl = use'.decl.canonicalDecl :=
    hnumbered.unique _ _ (formatLocal number) rfl (hsymbol ▸ hcached) (hsymbol' ▸ hcached')
  rw [hrange, hrange']
  refine hplace use huse use' huse' hsame ?_ ?_
  · rw [← hroles]
    simpa [Occurrence.isDefinition] using hdef
  · rw [← hroles']
    simpa [Occurrence.isDefinition] using hdef'

end SymbolFormatter

/-! ## Merging -/

theorem Document.IsMergeOf.definesLocal_iff {doc : Document} {docs : List Document}
    (h : doc.IsMergeOf docs) {number : Nat} {range : ScipRange} :
    doc.DefinesLocal number range ↔ ∃ input ∈ docs, input.DefinesLocal number range := by
  constructor
  · rintro ⟨occ, hocc, hdefines⟩
    obtain ⟨input, hinput, hmem⟩ := (h.mem_occurrences occ).mp hocc
    exact ⟨input, hinput, occ, hmem, hdefines⟩
  · rintro ⟨input, hinput, occ, hmem, hdefines⟩
    exact ⟨occ, (h.mem_occurrences occ).mpr ⟨input, hinput, hmem⟩, hdefines⟩

/-- **When merging keeps local symbols apart**: if documents that use the same local symbol define
it alike. -/
theorem localsKeptApart_iff (first : Document) (docs : List Document)
    (hsingle : ∀ doc ∈ first :: docs, doc.SingleDefinitions) (order : IterationOrder Table)
    (deterministic : Bool) :
    LocalsKeptApart (first :: docs)
        ((docs.foldl DocumentBuilder.merge (.ofDocument first)).finish order deterministic) ↔
      LocalsAgree (first :: docs) := by
  have hmerge : ((docs.foldl DocumentBuilder.merge (.ofDocument first)).finish order
      deterministic).IsMergeOf (first :: docs) :=
    DocumentBuilder.finish_isMergeOf (DocumentBuilder.merged_spec first docs)
  constructor
  · rintro ⟨hdefinitions, hreferences⟩ doc hdoc doc' hdoc' number - ⟨occ', hocc', hsymbol'⟩ range
      hdefines
    have hmerged := hmerge.definesLocal_iff.mpr ⟨doc, hdoc, hdefines⟩
    -- the other document has a definition itself, or else a reference
    cases hrole : occ'.isDefinition with
    | false =>
        exact ((hreferences doc' hdoc' occ' hocc' hrole number hsymbol').2 range).mp hmerged
    | true =>
        have hdefines' : doc'.DefinesLocal number occ'.range :=
          ⟨occ', hocc', hsymbol', hrole, rfl⟩
        have hsame := hdefinitions number range occ'.range hmerged
          (hmerge.definesLocal_iff.mpr ⟨doc', hdoc', hdefines'⟩)
        rw [hsame]
        exact hdefines'
  · intro hagree
    have huses : ∀ {doc : Document} {number : Nat} {range : ScipRange},
        doc.DefinesLocal number range → doc.UsesLocal number := by
      rintro doc number range ⟨occ, hocc, hsymbol, -⟩
      exact ⟨occ, hocc, hsymbol⟩
    constructor
    case singleDefinitions =>
      intro number range range' hdefines hdefines'
      obtain ⟨doc, hdoc, hrange⟩ := hmerge.definesLocal_iff.mp hdefines
      obtain ⟨doc', hdoc', hrange'⟩ := hmerge.definesLocal_iff.mp hdefines'
      exact hsingle doc' hdoc' number range range'
        (hagree doc hdoc doc' hdoc' number (huses hrange) (huses hrange') range hrange) hrange'
    case references =>
      intro doc hdoc occ hocc _ number hsymbol
      refine ⟨(hmerge.mem_occurrences occ).mpr ⟨doc, hdoc, hocc⟩, fun range => ?_⟩
      rw [hmerge.definesLocal_iff]
      constructor
      · rintro ⟨doc', hdoc', hrange⟩
        exact hagree doc' hdoc' doc hdoc number (huses hrange) ⟨occ, hocc, hsymbol⟩ range hrange
      · intro hrange
        exact ⟨doc, hdoc, hrange⟩

/-! ## A header with a conditional parameter -/

/-- A position on the first line. -/
def onFirstLine (column : Fin 100) : ScipRange where
  values := [0, Int32.ofNat column, Int32.ofNat (column + 1)]
  length_eq := .inl rfl

/-- The uses of the parameters `x` and `y` in an expansion; `x` is left out in some. -/
def parameterUses (withFirst : Bool) : List LocalUse :=
  (if withFirst then [⟨⟨0, true, ⟨2⟩⟩, onFirstLine 10, definitionRole⟩] else []) ++
    [⟨⟨1, true, ⟨2⟩⟩, onFirstLine 20, definitionRole⟩, ⟨⟨1, true, ⟨2⟩⟩, onFirstLine 30, 0⟩]

/-- The document of an expansion. -/
def parameterDocument (withFirst : Bool) : Document where
  relativePath := "a.h".toList
  occurrences := (SymbolFormatter.localOccurrences {} (parameterUses withFirst)).1

theorem singleDefinitions_parameterDocument (withFirst : Bool) :
    (parameterDocument withFirst).SingleDefinitions := by
  refine @SymbolFormatter.singleDefinitions ⟨2⟩ (parameterUses withFirst) ?_ ?_ _ rfl
  · cases withFirst <;> decide
  · cases withFirst <;> decide

theorem singleDefinitions_parameterDocuments :
    ∀ doc ∈ [parameterDocument true, parameterDocument false], doc.SingleDefinitions := by
  intro doc hdoc
  simp only [List.mem_cons, List.not_mem_nil, or_false] at hdoc
  rcases hdoc with rfl | rfl
  · exact singleDefinitions_parameterDocument true
  · exact singleDefinitions_parameterDocument false

theorem localsKeptApart_parameterDocuments :
    (∀ doc ∈ [parameterDocument true, parameterDocument false], doc.SingleDefinitions) ∧
      (LocalsKeptApart [parameterDocument true, parameterDocument false]
          (([parameterDocument false].foldl DocumentBuilder.merge
            (.ofDocument (parameterDocument true))).finish .inOrder true) ↔
        LocalsAgree [parameterDocument true, parameterDocument false]) :=
  ⟨singleDefinitions_parameterDocuments,
    localsKeptApart_iff _ _ singleDefinitions_parameterDocuments .inOrder true⟩

/-- The second parameter is `local 1` in one expansion and `local 0`, the name of the first
parameter, in the other. -/
theorem parameters_mixed_up :
    (∀ doc ∈ [parameterDocument true, parameterDocument false], doc.SingleDefinitions) ∧
      ¬ LocalsKeptApart [parameterDocument true, parameterDocument false]
        (([parameterDocument false].foldl DocumentBuilder.merge
          (.ofDocument (parameterDocument true))).finish .inOrder true) := by
  refine ⟨singleDefinitions_parameterDocuments, fun hkept => ?_⟩
  have hmerge := @DocumentBuilder.finish_isMergeOf _ _ .inOrder true
    (DocumentBuilder.merged_spec (parameterDocument true) [parameterDocument false])
  have hfirst : (parameterDocument true).DefinesLocal 0 (onFirstLine 10) :=
    ⟨⟨onFirstLine 10, formatLocal 0, definitionRole, [], 0, []⟩, by decide, rfl, by decide, rfl⟩
  have hsecond : (parameterDocument false).DefinesLocal 0 (onFirstLine 20) :=
    ⟨⟨onFirstLine 20, formatLocal 0, definitionRole, [], 0, []⟩, by decide, rfl, by decide, rfl⟩
  have hsame := hkept.singleDefinitions 0 (onFirstLine 10) (onFirstLine 20)
    (hmerge.definesLocal_iff.mpr ⟨_, by simp, hfirst⟩)
    (hmerge.definesLocal_iff.mpr ⟨_, by simp, hsecond⟩)
  exact absurd hsame (by decide)

end ScipClang
