import ScipClang.Scip.Effects

/-!
# Ambiguous suffixes

`IndexBuilder::populateForwardDeclResolver` (`indexer/ScipExtras.cc`) iterates over hash
tables, `multiplyIndexed` and the `symbolInfos` of its documents, and
`ForwardDeclResolver::insert` keeps the symbol that it sees first.  If several of these
symbols have the suffix of a forward declaration, and no symbol of a document with a single
builder has it, then the order of the iteration decides which one is found.

* `IndexBuilder.lookupInDocuments_eq_or_ambiguous`: two iterations find the same symbol
  unless the suffix is ambiguous.
* `IndexBuilder.exists_order_of_isCandidate`: any symbol with an ambiguous suffix may be found.
* `IndexBuilder.resolvedNames_perm`: the names that a suffix resolves to depend on the order
  only through the symbol that is found.
-/

namespace ScipClang

open HashTables

namespace BuilderCall

/-- The documents that are merged for a path. -/
def mergedDocuments (calls : List BuilderCall) (path : Str) : List Document :=
  (documentsWith true calls).filter fun doc => doc.relativePath = path

/-- What is known about a symbol of the documents that are merged for a path. -/
def inputsFor (calls : List BuilderCall) (path name : Str) : List SymbolInformation :=
  DocumentBuilder.symbolInputs (mergedDocuments calls path) name

/-- The documents that are merged for a path have a symbol of this name, with this suffix. -/
def IsCandidate (calls : List BuilderCall) (suffix path name : Str) : Prop :=
  getPackageAgnosticSuffix name = some suffix ∧ inputsFor calls path name ≠ []

/-- No document that is not merged has a symbol with the suffix, and among the others there
are several such symbols. -/
def Ambiguous (calls : List BuilderCall) (suffix : Str) : Prop :=
  (∀ doc ∈ documentsWith false calls, ∀ symbolInfo ∈ doc.symbols,
    getPackageAgnosticSuffix symbolInfo.symbol ≠ some suffix) ∧
  ∃ path name path' name', (path, name) ≠ (path', name') ∧
    IsCandidate calls suffix path name ∧ IsCandidate calls suffix path' name'

end BuilderCall

namespace IndexBuilder

open BuilderCall

variable {calls : List BuilderCall} {order order' : IterationOrder Table} {suffix : Str}

theorem documents_performAll (calls : List BuilderCall) :
    (performAll calls).documents = documentsWith false calls := by
  rw [performAll_eq]

/-- The builder of a symbol holds what is known about it. -/
theorem symbolBuilder_performAll (path name : Str) :
    match (performAll calls).symbolBuilder path name with
    | none => inputsFor calls path name = []
    | some symbolInfoBuilder => inputsFor calls path name ≠ [] ∧
        symbolInfoBuilder.documentation = chosenDocumentation (inputsFor calls path name) := by
  unfold symbolBuilder
  cases hlookup : (performAll calls).multiplyIndexed.lookup path with
  | none =>
      rw [lookup_multiplyIndexed_performAll] at hlookup
      have hdocs : mergedDocuments calls path = [] := by
        unfold mergedDocuments
        split at hlookup
        · assumption
        · cases hlookup
      show inputsFor calls path name = []
      rw [inputsFor, hdocs]
      rfl
  | some docBuilder =>
      have hmerged := (mergedFrom_of_lookup hlookup).1
      rw [Option.bind_some]
      cases hsymbol : docBuilder.symbolInfos.lookup name with
      | none => exact (hmerged.lookup_eq_none name).mp hsymbol
      | some symbolInfoBuilder =>
          refine ⟨fun hnil => ?_, (hmerged.lookup_collects name _ hsymbol).documentation_eq⟩
          rw [(hmerged.lookup_eq_none name).mpr hnil] at hsymbol
          cases hsymbol

theorem isCandidate_iff {path name : Str} :
    IsCandidate calls suffix path name ↔
      getPackageAgnosticSuffix name = some suffix ∧
        (performAll calls).symbolBuilder path name ≠ none := by
  have hknown := @symbolBuilder_performAll calls path name
  unfold IsCandidate
  cases hbuilder : (performAll calls).symbolBuilder path name with
  | none =>
      rw [hbuilder] at hknown
      simp [show inputsFor calls path name = [] from hknown]
  | some symbolInfoBuilder =>
      rw [hbuilder] at hknown
      simp [hknown.1]

/-! ## The symbol that is found -/

/-- The pointers to symbols of documents with a single builder. -/
def documentPointers (builder : IndexBuilder) : List (Str × SymbolInfoOrBuilderPtr) :=
  builder.documents.zipIdx.flatMap fun document =>
    document.1.symbols.zipIdx.map fun symbolInfo =>
      (symbolInfo.1.symbol, .symbolInfo document.2 symbolInfo.2)

/-- The pointers to builders of symbols. -/
def builderPointers (builder : IndexBuilder) (order : IterationOrder Table) :
    List (Str × SymbolInfoOrBuilderPtr) :=
  (order.iterate .multiplyIndexed builder.multiplyIndexed.entries).flatMap fun entry =>
    (order.iterate (.symbolInfos entry.1) entry.2.symbolInfos.entries).map fun symbolInfo =>
      (symbolInfo.1, .builder entry.1 symbolInfo.1)

theorem mem_builderPointers {builder : IndexBuilder} {name : Str} {ptr : SymbolInfoOrBuilderPtr} :
    (name, ptr) ∈ builder.builderPointers order ↔
      ∃ path, ptr = .builder path name ∧ builder.symbolBuilder path name ≠ none := by
  simp only [builderPointers, List.mem_flatMap, List.mem_map, (order.perm _ _).mem_iff]
  constructor
  · rintro ⟨⟨path, docBuilder⟩, hentry, ⟨key, symbolInfoBuilder⟩, hsymbol, heq⟩
    obtain ⟨rfl, rfl⟩ := Prod.mk.inj heq
    refine ⟨path, rfl, ?_⟩
    rw [symbolBuilder, AList.mem_lookup_iff.mpr hentry, Option.bind_some,
      AList.mem_lookup_iff.mpr hsymbol]
    exact Option.some_ne_none _
  · rintro ⟨path, rfl, hne⟩
    obtain ⟨symbolInfoBuilder, hbuilder⟩ := Option.ne_none_iff_exists'.mp hne
    obtain ⟨docBuilder, hlookup, hsymbol⟩ := Option.bind_eq_some_iff.mp hbuilder
    exact ⟨⟨path, docBuilder⟩, AList.mem_lookup_iff.mp hlookup, ⟨name, symbolInfoBuilder⟩,
      AList.mem_lookup_iff.mp hsymbol, rfl⟩

theorem lookupInDocuments_populate_eq_or (builder : IndexBuilder) (order : IterationOrder Table)
    (suffix : Str) :
    (builder.populateForwardDeclResolver order).lookupInDocuments suffix =
      ((builder.documentPointers.find? fun pointer =>
          getPackageAgnosticSuffix pointer.1 = some suffix).or
        ((builder.builderPointers order).find? fun pointer =>
          getPackageAgnosticSuffix pointer.1 = some suffix)).map Prod.snd := by
  rw [lookupInDocuments_populate_eq, ← List.find?_append]
  rfl

theorem find?_documentPointers_eq_none :
    ((performAll calls).documentPointers.find? fun pointer =>
        getPackageAgnosticSuffix pointer.1 = some suffix) = none ↔
      ∀ doc ∈ documentsWith false calls, ∀ symbolInfo ∈ doc.symbols,
        getPackageAgnosticSuffix symbolInfo.symbol ≠ some suffix := by
  rw [List.find?_eq_none, ← documents_performAll]
  constructor
  · intro hnone doc hdoc symbolInfo hsymbol hsuffix
    obtain ⟨i, hi⟩ := List.mem_iff_getElem?.mp hdoc
    obtain ⟨j, hj⟩ := List.mem_iff_getElem?.mp hsymbol
    refine hnone (symbolInfo.symbol, .symbolInfo i j) ?_ (by simpa using hsuffix)
    refine List.mem_flatMap.mpr ⟨(doc, i), List.mem_zipIdx_iff_getElem?.mpr hi, ?_⟩
    exact List.mem_map.mpr ⟨(symbolInfo, j), List.mem_zipIdx_iff_getElem?.mpr hj, rfl⟩
  · intro hnone pointer hpointer
    obtain ⟨⟨doc, i⟩, hdoc, hpointer⟩ := List.mem_flatMap.mp hpointer
    obtain ⟨⟨symbolInfo, j⟩, hsymbol, rfl⟩ := List.mem_map.mp hpointer
    rw [List.mem_zipIdx_iff_getElem?] at hdoc hsymbol
    simpa using hnone doc (List.mem_of_getElem? hdoc) symbolInfo (List.mem_of_getElem? hsymbol)

/-- A builder that is found for a suffix has a symbol with that suffix. -/
theorem find?_builderPointers_spec :
    match (performAll calls).builderPointers order |>.find? fun pointer =>
        getPackageAgnosticSuffix pointer.1 = some suffix with
    | none => ∀ path name, ¬IsCandidate calls suffix path name
    | some pointer => ∃ path, pointer.2 = .builder path pointer.1 ∧
        IsCandidate calls suffix path pointer.1 := by
  split
  · rename_i hfind
    intro path name hcandidate
    obtain ⟨hsuffix, hbuilder⟩ := isCandidate_iff.mp hcandidate
    refine List.find?_eq_none.mp hfind (name, .builder path name) ?_ (by simpa using hsuffix)
    exact mem_builderPointers.mpr ⟨path, rfl, hbuilder⟩
  · rename_i pointer hfind
    obtain ⟨path, hptr, hbuilder⟩ := mem_builderPointers.mp (List.mem_of_find?_eq_some hfind)
    refine ⟨path, hptr, isCandidate_iff.mpr ⟨?_, hbuilder⟩⟩
    simpa using List.find?_some hfind

/-- **Two iterations find the same symbol, unless the suffix is ambiguous.** -/
theorem lookupInDocuments_eq_or_ambiguous (calls : List BuilderCall)
    (order order' : IterationOrder Table) (suffix : Str) :
    ((performAll calls).populateForwardDeclResolver order).lookupInDocuments suffix =
        ((performAll calls).populateForwardDeclResolver order').lookupInDocuments suffix ∨
      Ambiguous calls suffix ∧ ∃ path name path' name',
        ((performAll calls).populateForwardDeclResolver order).lookupInDocuments suffix =
            some (.builder path name) ∧
          ((performAll calls).populateForwardDeclResolver order').lookupInDocuments suffix =
            some (.builder path' name') ∧
          IsCandidate calls suffix path name ∧ IsCandidate calls suffix path' name' := by
  rw [lookupInDocuments_populate_eq_or, lookupInDocuments_populate_eq_or]
  -- documents with a single builder come first, and in a fixed order
  cases hdocuments : (performAll calls).documentPointers.find? fun pointer =>
      getPackageAgnosticSuffix pointer.1 = some suffix with
  | some pointer => exact .inl rfl
  | none =>
      rw [Option.none_or, Option.none_or]
      have hspec := @find?_builderPointers_spec calls order suffix
      have hspec' := @find?_builderPointers_spec calls order' suffix
      cases hfind : ((performAll calls).builderPointers order).find? fun pointer =>
          getPackageAgnosticSuffix pointer.1 = some suffix with
      | none =>
          rw [hfind] at hspec
          cases hfind' : ((performAll calls).builderPointers order').find? fun pointer =>
              getPackageAgnosticSuffix pointer.1 = some suffix with
          | none => exact .inl rfl
          | some pointer' =>
              rw [hfind'] at hspec'
              obtain ⟨path, -, hcandidate⟩ := hspec'
              exact absurd hcandidate (hspec path pointer'.1)
      | some pointer =>
          rw [hfind] at hspec
          obtain ⟨path, hptr, hcandidate⟩ := hspec
          cases hfind' : ((performAll calls).builderPointers order').find? fun pointer =>
              getPackageAgnosticSuffix pointer.1 = some suffix with
          | none =>
              rw [hfind'] at hspec'
              exact absurd hcandidate (hspec' path pointer.1)
          | some pointer' =>
              rw [hfind'] at hspec'
              obtain ⟨path', hptr', hcandidate'⟩ := hspec'
              rw [Option.map_some, Option.map_some, hptr, hptr']
              by_cases hsame : (path, pointer.1) = (path', pointer'.1)
              · obtain ⟨rfl, hname⟩ := Prod.mk.inj hsame
                rw [hname]
                exact .inl rfl
              · exact .inr ⟨⟨find?_documentPointers_eq_none.mp hdocuments, path, pointer.1, path',
                  pointer'.1, hsame, hcandidate, hcandidate'⟩, path, pointer.1, path', pointer'.1,
                  rfl, rfl, hcandidate, hcandidate'⟩

/-- **Any symbol with an ambiguous suffix may be found.** -/
theorem exists_order_of_isCandidate (hambiguous : Ambiguous calls suffix) {path name : Str}
    (hcandidate : IsCandidate calls suffix path name) :
    ∃ order, ((performAll calls).populateForwardDeclResolver order).lookupInDocuments suffix =
      some (.builder path name) := by
  obtain ⟨hsuffix, hne⟩ := isCandidate_iff.mp hcandidate
  obtain ⟨symbolInfoBuilder, hbuilder⟩ := Option.ne_none_iff_exists'.mp hne
  obtain ⟨docBuilder, hlookup, hsymbol⟩ := Option.bind_eq_some_iff.mp hbuilder
  -- start both iterations at the symbol
  obtain ⟨startDocument, documents, hdocuments⟩ :=
    exists_rotate_eq_cons (AList.mem_lookup_iff.mp hlookup)
  obtain ⟨startSymbol, symbols, hsymbols⟩ :=
    exists_rotate_eq_cons (AList.mem_lookup_iff.mp hsymbol)
  let order : IterationOrder Table := .rotating fun
    | .multiplyIndexed => startDocument
    | .symbolInfos _ => startSymbol
    | _ => 0
  refine ⟨order, ?_⟩
  have hdocumentOrder : order.iterate .multiplyIndexed (performAll calls).multiplyIndexed.entries =
      ⟨path, docBuilder⟩ :: documents := hdocuments
  have hsymbolOrder : order.iterate (.symbolInfos path) docBuilder.symbolInfos.entries =
      ⟨name, symbolInfoBuilder⟩ :: symbols := hsymbols
  rw [lookupInDocuments_populate_eq_or, find?_documentPointers_eq_none.mpr hambiguous.1,
    Option.none_or, builderPointers, hdocumentOrder, List.flatMap_cons, hsymbolOrder, List.map_cons,
    List.cons_append, List.find?_cons_of_pos (by simpa using hsuffix)]
  rfl

/-! ## The names that a suffix resolves to -/

section ResolvedNames

variable (calls order)

theorem suffix_of_mem_resolvedNames {name : Str}
    (h : name ∈ resolvedNames (performAll calls)
      ((performAll calls).populateForwardDeclResolver order) suffix) :
    getPackageAgnosticSuffix name = some suffix := by
  rcases isResolution_resolvedNames calls order suffix with ⟨defined, -, hsuffix, hnames⟩ |
    ⟨-, ⟨-, -, hmem⟩ | ⟨-, hnames⟩⟩
  · rw [hnames, List.mem_singleton] at h
    rw [h, hsuffix]
  · exact ((hmem name).mp h).2
  · rw [hnames, List.mem_singleton] at h
    rw [h, getPackageAgnosticSuffix_addFakePrefix]

theorem resolvedNames_of_builder {path name : Str}
    (h : ((performAll calls).populateForwardDeclResolver order).lookupInDocuments suffix =
      some (.builder path name)) :
    resolvedNames (performAll calls) ((performAll calls).populateForwardDeclResolver order)
      suffix = [name] := by
  obtain ⟨read, hread, -⟩ := pointersValid_populate calls order suffix _ h
  simp only [resolvedNames, h, hread, Option.toList_some]
  rw [namesAgree_performAll calls path name read hread]

/-- The order of an iteration only matters for the names if another symbol is found. -/
theorem resolvedNames_perm (order' : IterationOrder Table)
    (h : ((performAll calls).populateForwardDeclResolver order).lookupInDocuments suffix =
      ((performAll calls).populateForwardDeclResolver order').lookupInDocuments suffix) :
    (resolvedNames (performAll calls) ((performAll calls).populateForwardDeclResolver order)
      suffix).Perm
      (resolvedNames (performAll calls) ((performAll calls).populateForwardDeclResolver order')
        suffix) := by
  have htracks := tracks_populate (performAll calls) order
  have htracks' := tracks_populate (performAll calls) order'
  have hnone := (Lockstep.refl (performAll calls)).isNone_lookupExternals htracks htracks' suffix
  unfold resolvedNames
  rw [h]
  split
  · exact List.Perm.refl _
  · cases hexternals : ((performAll calls).populateForwardDeclResolver order).lookupExternals
        suffix with
    | none =>
        rw [hnone.mp hexternals]
    | some externals =>
        obtain ⟨externals', hexternals'⟩ := Option.ne_none_iff_exists'.mp fun hnone' => by
          rw [hnone.mpr hnone'] at hexternals
          cases hexternals
        rw [hexternals', Option.getD_some, Option.getD_some,
          List.perm_ext_iff_of_nodup (htracks.nodup _ _ hexternals)
            (htracks'.nodup _ _ hexternals')]
        intro name
        rw [htracks.mem_of_lookup hexternals, htracks'.mem_of_lookup hexternals']

end ResolvedNames

end IndexBuilder

end ScipClang
