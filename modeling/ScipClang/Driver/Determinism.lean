import ScipClang.Driver.Merge
import ScipClang.Scip.Ambiguity

/-!
# Does the index depend on hash tables?

With `deterministic` set, `IndexBuilder::finish` sorts everything that it takes out of a hash
table.  Still the index may depend on how hash tables are iterated: the order in which the
resolver is populated decides which of several symbols with the same suffix gets the
documentation of a forward declaration, and which name its references get.

* `IndexBuilder.concatenate_finish_eq`: where this makes no difference, nothing else does.
* `IndexBuilder.documentation_eq_of_finish_eq` and
  `IndexBuilder.occurrencesAt_perm_of_finish_eq`: both can be told from what is written.
* `sameOutput_iff`: when the index does not depend on any order of iteration.
-/

namespace ScipClang

open HashTables

/-- The calls of `Driver::mergeShardsAndEmit` to an `IndexBuilder`, for the documents and
external symbols of all shards, and for all forward declarations. -/
def mergeAndEmit (calls : List BuilderCall) (forwardDecls : List ForwardDecl)
    (orders : MergeOrders) (deterministic : Bool) : Option (List Index) := do
  let builder := IndexBuilder.performAll calls
  let forwardDeclResolver := builder.populateForwardDeclResolver orders.populate
  let (builder, _) ← builder.addForwardDeclarations forwardDeclResolver
    (forwardDecls.zipIdx.map fun forwardDecl =>
      (orders.forwardDecl forwardDecl.2, forwardDecl.1))
  some (builder.finish orders.finish deterministic)

theorem mergeShardsAndEmit_eq_mergeAndEmit (planner : FileIndexingPlanner)
    (indexShards : List Index) (forwardDeclShards : List (List ForwardDecl))
    (orders : MergeOrders) (deterministic : Bool) :
    mergeShardsAndEmit planner indexShards forwardDeclShards orders deterministic =
      mergeAndEmit (indexShards.flatMap (shardCalls planner)) forwardDeclShards.flatten orders
        deterministic := rfl

/-! ## The state that is written -/

namespace IndexBuilder

/-- The builder once all forward declarations were added. -/
structure IsFinal (calls : List BuilderCall) (order : IterationOrder Table)
    (forwardDecls : List ForwardDecl) (builder : IndexBuilder) : Prop where
  resolver : ∃ resolver, ResolverInv (performAll calls)
    ((performAll calls).populateForwardDeclResolver order) forwardDecls builder resolver
  builders : BuildersInv (performAll calls)
    ((performAll calls).populateForwardDeclResolver order) forwardDecls builder
  paths_eq : builder.paths = (performAll calls).paths

end IndexBuilder

open IndexBuilder in
/-- Two merges of the same shards. -/
theorem mergeAndEmit_spec (calls : List BuilderCall) (forwardDecls : List ForwardDecl)
    (orders orders' : MergeOrders) :
    ∃ builder builder', IsFinal calls orders.populate forwardDecls builder ∧
      IsFinal calls orders'.populate forwardDecls builder' ∧ Lockstep builder builder' ∧
      ∀ deterministic,
        mergeAndEmit calls forwardDecls orders deterministic =
          some (builder.finish orders.finish deterministic) ∧
        mergeAndEmit calls forwardDecls orders' deterministic =
          some (builder'.finish orders'.finish deterministic) := by
  have hdecls : ∀ orders : MergeOrders, (forwardDecls.zipIdx.map fun forwardDecl =>
      (orders.forwardDecl forwardDecl.2, forwardDecl.1)).map Prod.snd = forwardDecls := by
    intro orders
    rw [List.map_map]
    exact List.zipIdx_map_fst 0 forwardDecls
  have hfinal : ∀ orders : MergeOrders, ∃ builder resolver,
      (performAll calls).addForwardDeclarations
        ((performAll calls).populateForwardDeclResolver orders.populate)
        (forwardDecls.zipIdx.map fun forwardDecl =>
          (orders.forwardDecl forwardDecl.2, forwardDecl.1)) = some (builder, resolver) ∧
      IsFinal calls orders.populate forwardDecls builder := by
    intro orders
    have hpointers := pointersValid_populate calls orders.populate
    have hinitial := resolverInv_initial (tracks_populate (performAll calls) orders.populate)
    obtain ⟨builder, resolver, hrun, hinv⟩ := hinitial.addForwardDeclarations_spec hpointers
      (forwardDecls.zipIdx.map fun forwardDecl =>
        (orders.forwardDecl forwardDecl.2, forwardDecl.1))
    have hbuilders := (buildersInv_initial calls _).addForwardDeclarations hpointers hinitial hrun
    rw [List.nil_append, hdecls] at hinv hbuilders
    exact ⟨builder, resolver, hrun, ⟨resolver, hinv⟩, hbuilders,
      samePaths_addForwardDeclarations _ hrun⟩
  obtain ⟨builder, resolver, hrun, hbuilder⟩ := hfinal orders
  obtain ⟨builder', resolver', hrun', hbuilder'⟩ := hfinal orders'
  refine ⟨builder, builder', hbuilder, hbuilder', ?_, ?_⟩
  · refine lockstep_addForwardDeclarations (pointersValid_populate calls orders.populate)
      (pointersValid_populate calls orders'.populate) ?_
      (resolverInv_initial (tracks_populate _ _)) (resolverInv_initial (tracks_populate _ _))
      (Lockstep.refl _) ((hdecls orders).trans (hdecls orders').symm) hrun hrun'
    intro suffix
    rcases lookupInDocuments_eq_or_ambiguous calls orders.populate orders'.populate suffix with
      hsame | ⟨-, path, name, path', name', hptr, hptr', -, -⟩
    · exact .inl hsame
    · exact .inr ⟨path, name, path', name', hptr, hptr'⟩
  · intro deterministic
    unfold mergeAndEmit
    dsimp only
    rw [hrun, hrun']
    exact ⟨rfl, rfl⟩

/-! ## When the order does not matter -/

namespace BuilderCall

/-- All symbols with an ambiguous suffix have the same name, or the name is not written
because the references are in files without a document. -/
def SameNames (calls : List BuilderCall) (forwardDecls : List ForwardDecl) (suffix : Str) : Prop :=
  (∀ path name path' name', IsCandidate calls suffix path name →
    IsCandidate calls suffix path' name' → name = name') ∨
  ∀ forwardDecl ∈ forwardDecls, forwardDecl.suffix = suffix →
    ∀ ref ∈ forwardDecl.references, ∀ doc ∈ documents calls, doc.relativePath ≠ ref.relativePath

/-- All symbols with an ambiguous suffix have documentation, or the forward declarations have
none, or there is nothing but the placeholder for missing documentation on both sides. -/
def SameDocumentation (calls : List BuilderCall) (forwardDecls : List ForwardDecl)
    (suffix : Str) : Prop :=
  ∀ path name, IsCandidate calls suffix path name →
    hasDocumentation (chosenDocumentation (inputsFor calls path name)) = true ∨
    ∀ forwardDecl ∈ forwardDecls, forwardDecl.suffix = suffix → forwardDecl.documentation ≠ [] →
      forwardDecl.documentation = missingDocumentationPlaceholder ∧
        chosenDocumentation (inputsFor calls path name) = [missingDocumentationPlaceholder]

/-- It does not matter which of the symbols with an ambiguous suffix is found. -/
def OrderIrrelevant (calls : List BuilderCall) (forwardDecls : List ForwardDecl) : Prop :=
  ∀ suffix, Ambiguous calls suffix →
    SameNames calls forwardDecls suffix ∧ SameDocumentation calls forwardDecls suffix

end BuilderCall

namespace IndexBuilder

open BuilderCall

variable {calls : List BuilderCall} {forwardDecls : List ForwardDecl}
  {order order' : IterationOrder Table} {builder builder' : IndexBuilder}

theorem suffix_of_documentsBuilder {path name : Str} {forwardDecl : ForwardDecl}
    (h : DocumentsBuilder ((performAll calls).populateForwardDeclResolver order) path name
      forwardDecl) : getPackageAgnosticSuffix name = some forwardDecl.suffix := by
  obtain ⟨read, hread, hsuffix⟩ := pointersValid_populate calls order _ _ h.1
  rw [← namesAgree_performAll calls path name read hread, hsuffix]

/-- Documentation only goes to another symbol if the suffix is ambiguous. -/
theorem documentationFor_eq {path name suffix : Str}
    (hsuffix : getPackageAgnosticSuffix name = some suffix)
    (h : ((performAll calls).populateForwardDeclResolver order).lookupInDocuments suffix =
      ((performAll calls).populateForwardDeclResolver order').lookupInDocuments suffix) :
    documentationFor ((performAll calls).populateForwardDeclResolver order) forwardDecls path name =
      documentationFor ((performAll calls).populateForwardDeclResolver order') forwardDecls
        path name := by
  unfold documentationFor
  congr 1
  apply List.filter_congr
  intro forwardDecl _
  rw [decide_eq_decide]
  constructor
  · intro hdocuments
    have hsame := (suffix_of_documentsBuilder hdocuments).symm.trans hsuffix
    rw [DocumentsBuilder, Option.some.inj hsame, ← h, ← Option.some.inj hsame]
    exact hdocuments
  · intro hdocuments
    have hsame := (suffix_of_documentsBuilder hdocuments).symm.trans hsuffix
    rw [DocumentsBuilder, Option.some.inj hsame, h, ← Option.some.inj hsame]
    exact hdocuments

theorem mem_documentationFor {path name doc : Str}
    (h : doc ∈ documentationFor ((performAll calls).populateForwardDeclResolver order)
      forwardDecls path name) :
    ∃ forwardDecl ∈ forwardDecls, getPackageAgnosticSuffix name = some forwardDecl.suffix ∧
      forwardDecl.documentation ≠ [] ∧ forwardDecl.documentation = doc := by
  obtain ⟨forwardDecl, hmem, rfl⟩ := List.mem_map.mp h
  obtain ⟨hmem, hdocuments⟩ := List.mem_filter.mp hmem
  have hdocuments := of_decide_eq_true hdocuments
  exact ⟨forwardDecl, hmem, suffix_of_documentsBuilder hdocuments, hdocuments.2, rfl⟩

/-- The condition on documentation, for the builder of a symbol. -/
theorem documentAll_eq_self {path name suffix : Str}
    (hsame : SameDocumentation calls forwardDecls suffix)
    (hcandidate : IsCandidate calls suffix path name)
    {symbolInfoBuilder : SymbolInformationBuilder}
    (hdocs : symbolInfoBuilder.documentation = chosenDocumentation (inputsFor calls path name))
    (order : IterationOrder Table) :
    documentAll (documentationFor ((performAll calls).populateForwardDeclResolver order)
      forwardDecls path name) symbolInfoBuilder = symbolInfoBuilder := by
  rcases hsame path name hcandidate with hhas | hplaceholder
  · rw [← hdocs] at hhas
    exact documentAll_of_hasDocumentation hhas _
  · apply documentAll_of_placeholders
    intro doc hdoc
    obtain ⟨forwardDecl, hmem, hsuffix, hne, rfl⟩ := mem_documentationFor hdoc
    rw [hcandidate.1, Option.some.injEq] at hsuffix
    rw [hdocs]
    exact hplaceholder forwardDecl hmem hsuffix.symm hne

theorem symbolBuilder_eq_of_orderIrrelevant (hirrelevant : OrderIrrelevant calls forwardDecls)
    (h : IsFinal calls order forwardDecls builder) (h' : IsFinal calls order' forwardDecls builder')
    (path name : Str) : builder.symbolBuilder path name = builder'.symbolBuilder path name := by
  rw [h.builders.symbolBuilder_eq, h'.builders.symbolBuilder_eq]
  have hknown := @symbolBuilder_performAll calls path name
  cases hbuilder : (performAll calls).symbolBuilder path name with
  | none => rfl
  | some symbolInfoBuilder =>
      rw [hbuilder] at hknown
      obtain ⟨hne, hdocs⟩ := hknown
      rw [Option.map_some, Option.map_some]
      congr 1
      cases hsuffix : getPackageAgnosticSuffix name with
      | none =>
          have hnil : ∀ order : IterationOrder Table, documentationFor
              ((performAll calls).populateForwardDeclResolver order) forwardDecls path name =
                [] := by
            intro order
            rw [List.eq_nil_iff_forall_not_mem]
            intro doc hdoc
            obtain ⟨forwardDecl, -, hsome, -⟩ := mem_documentationFor hdoc
            rw [hsuffix] at hsome
            cases hsome
          rw [hnil, hnil]
      | some suffix =>
          rcases lookupInDocuments_eq_or_ambiguous calls order order' suffix with
            hsame | ⟨hambiguous, -⟩
          · rw [documentationFor_eq hsuffix hsame]
          · have hsame := (hirrelevant suffix hambiguous).2
            rw [documentAll_eq_self hsame ⟨hsuffix, hne⟩ hdocs,
              documentAll_eq_self hsame ⟨hsuffix, hne⟩ hdocs]

/-- Two final builders have builders for the same documents. -/
theorem IsFinal.outline_eq (h : IsFinal calls order forwardDecls builder)
    (h' : IsFinal calls order' forwardDecls builder') : builder.outline = builder'.outline :=
  h.builders.outline_eq.trans h'.builders.outline_eq.symm

theorem finishedDocuments_eq (houtline : builder.outline = builder'.outline)
    (hsymbols : ∀ path name, builder.symbolBuilder path name = builder'.symbolBuilder path name)
    (order order' : IterationOrder Table) :
    builder.finishedDocuments order true = builder'.finishedDocuments order' true := by
  apply finishedDocuments_congr
  intro path
  have hpath := congrFun houtline path
  have hnames := hsymbols path
  unfold outline at hpath
  unfold symbolBuilder at hnames
  cases hlookup : builder.multiplyIndexed.lookup path with
  | none =>
      rw [hlookup, Option.map_none] at hpath
      rw [Option.map_eq_none_iff.mp hpath.symm]
      rfl
  | some docBuilder =>
      rw [hlookup, Option.map_some] at hpath
      obtain ⟨docBuilder', hlookup', heq⟩ := Option.map_eq_some_iff.mp hpath.symm
      obtain ⟨hsoFar, hoccurrences⟩ := Prod.mk.inj heq
      simp only [hlookup, hlookup', Option.bind_some] at hnames
      rw [hlookup', Option.map_some, Option.map_some]
      congr 1
      exact DocumentBuilder.finish_congr ⟨hsoFar.symm, hoccurrences.symm, hnames⟩ order order'

theorem IsFinal.occurrencesAt_perm (h : IsFinal calls order forwardDecls builder) (path : Str) :
    (builder.occurrencesAt path).Perm (forwardDecls.flatMap fun forwardDecl =>
      (resolvedNames (performAll calls) ((performAll calls).populateForwardDeclResolver order)
        forwardDecl.suffix).flatMap (forwardDecl.occurrencesAt path)) := by
  obtain ⟨resolver, hresolver⟩ := h.resolver
  have hperm := hresolver.occurrences path
  rwa [occurrencesAt_performAll, List.nil_append] at hperm

/-- The forward declarations of an ambiguous suffix add the same occurrences to a document. -/
theorem occurrences_of_sameNames {suffix path name path' name' : Str}
    (hsame : SameNames calls forwardDecls suffix) (hname : IsCandidate calls suffix path name)
    (hname' : IsCandidate calls suffix path' name') {forwardDecl : ForwardDecl}
    (hmem : forwardDecl ∈ forwardDecls) (hsuffix : forwardDecl.suffix = suffix) {doc : Document}
    (hdoc : doc ∈ BuilderCall.documents calls) :
    forwardDecl.occurrencesAt doc.relativePath name =
      forwardDecl.occurrencesAt doc.relativePath name' := by
  rcases hsame with hnames | hrefs
  · rw [hnames path name path' name' hname hname']
  · have hnil : (forwardDecl.references.filter fun ref => ref.relativePath = doc.relativePath) =
        [] := by
      rw [List.filter_eq_nil_iff]
      intro ref href
      simpa using Ne.symm (hrefs forwardDecl hmem hsuffix ref href doc hdoc)
    rw [ForwardDecl.occurrencesAt, ForwardDecl.occurrencesAt, hnil]
    rfl

theorem occurrencesAt_perm_of_orderIrrelevant (hirrelevant : OrderIrrelevant calls forwardDecls)
    (h : IsFinal calls order forwardDecls builder) (h' : IsFinal calls order' forwardDecls builder')
    {doc : Document} (hdoc : doc ∈ BuilderCall.documents calls) :
    (builder.occurrencesAt doc.relativePath).Perm (builder'.occurrencesAt doc.relativePath) := by
  refine (h.occurrencesAt_perm _).trans (List.Perm.trans ?_ (h'.occurrencesAt_perm _).symm)
  apply List.Perm.flatMap_left
  intro forwardDecl hmem
  rcases lookupInDocuments_eq_or_ambiguous calls order order' forwardDecl.suffix with
    hsame | ⟨hambiguous, path, name, path', name', hptr, hptr', hname, hname'⟩
  · exact (resolvedNames_perm calls order order' hsame).flatMap_right _
  · rw [resolvedNames_of_builder calls order hptr, resolvedNames_of_builder calls order' hptr',
      List.flatMap_singleton, List.flatMap_singleton,
      occurrences_of_sameNames (hirrelevant _ hambiguous).1 hname hname' hmem rfl hdoc]

/-- Every document that is written has a path for which a document was added. -/
theorem IsFinal.exists_document (h : IsFinal calls order forwardDecls builder)
    (finishOrder : IterationOrder Table) {doc : Document}
    (hdoc : doc ∈ builder.documents ++ builder.finishedDocuments finishOrder true) :
    ∃ input ∈ BuilderCall.documents calls, input.relativePath = doc.relativePath := by
  have hwith : ∀ flag, ∀ input ∈ documentsWith flag calls, input ∈ BuilderCall.documents calls := by
    intro flag input hinput
    obtain ⟨call, hcall, heq⟩ := List.mem_filterMap.mp hinput
    refine List.mem_filterMap.mpr ⟨call, hcall, ?_⟩
    cases call with
    | addExternalSymbol extSym => cases heq
    | addDocument doc isMultiplyIndexed =>
        dsimp only at heq
        split at heq
        · exact heq
        · cases heq
  -- both kinds of documents keep their paths while forward declarations are added
  rcases List.mem_append.mp hdoc with hdoc | hdoc
  · have hpath : doc.relativePath ∈ builder.paths.1 := List.mem_map_of_mem hdoc
    rw [h.paths_eq] at hpath
    obtain ⟨input, hinput, heq⟩ := List.mem_map.mp hpath
    rw [documents_performAll] at hinput
    exact ⟨input, hwith false input hinput, heq⟩
  · have hagree := pathsAgree_of_paths_eq (pathsAgree_performAll calls) h.paths_eq
    have hfilter := filter_finishedDocuments hagree finishOrder true doc.relativePath
    have hsome : builder.multiplyIndexed.lookup doc.relativePath ≠ none := by
      intro hnone
      rw [hnone] at hfilter
      exact List.filter_eq_nil_iff.mp hfilter doc hdoc (by simp)
    have hpaths := congrFun (congrArg Prod.snd h.paths_eq) doc.relativePath
    obtain ⟨docBuilder, hlookup⟩ := Option.ne_none_iff_exists'.mp hsome
    simp only [paths, hlookup, Option.map_some] at hpaths
    obtain ⟨first, hfirst, -⟩ := Option.map_eq_some_iff.mp hpaths.symm
    rw [lookup_multiplyIndexed_performAll] at hfirst
    split at hfirst
    · cases hfirst
    · rename_i input rest hdocs
      have hinput : input ∈ (documentsWith true calls).filter fun input =>
          input.relativePath = doc.relativePath := by
        rw [hdocs]
        exact List.mem_cons_self
      obtain ⟨hinput, heq⟩ := List.mem_filter.mp hinput
      exact ⟨input, hwith true input hinput, by simpa using heq⟩

/-- **If the order is irrelevant, two merges write the same index.** -/
theorem concatenate_finish_eq (hirrelevant : OrderIrrelevant calls forwardDecls)
    (h : IsFinal calls order forwardDecls builder) (h' : IsFinal calls order' forwardDecls builder')
    (hlockstep : Lockstep builder builder') (finishOrder finishOrder' : IterationOrder Table) :
    concatenate (builder.finish finishOrder true) =
      concatenate (builder'.finish finishOrder' true) := by
  rw [concatenate_finish, concatenate_finish]
  ext1
  · show List.map _ _ = List.map _ _
    rw [← hlockstep.documents_eq, ← finishedDocuments_eq (h.outline_eq h')
      (symbolBuilder_eq_of_orderIrrelevant hirrelevant h h') finishOrder finishOrder']
    apply List.map_congr_left
    intro doc hdoc
    obtain ⟨input, hinput, hpath⟩ := h.exists_document finishOrder hdoc
    apply IndexWriter.addOccurrences_congr
    · exact h.builders.noEmptyEntry _
    · exact h'.builders.noEmptyEntry _
    · rw [← hpath]
      exact occurrencesAt_perm_of_orderIrrelevant hirrelevant h h' hinput
  · exact finishedExternalSymbols_congr hlockstep.lookup_eq finishOrder finishOrder'

/-! ## When the order matters -/

section Written

variable {finishOrder finishOrder' : IterationOrder Table}

/-- Documents that are written alike, one by one. -/
theorem documents_eq_of_finish_eq
    (heq : concatenate (builder.finish finishOrder true) =
      concatenate (builder'.finish finishOrder' true)) :
    (builder.documents ++ builder.finishedDocuments finishOrder true).map
        (IndexWriter.addOccurrences builder.forwardDeclOccurenceMap · true) =
      (builder'.documents ++ builder'.finishedDocuments finishOrder' true).map
        (IndexWriter.addOccurrences builder'.forwardDeclOccurenceMap · true) := by
  rw [concatenate_finish, concatenate_finish] at heq
  exact (Index.mk.inj heq).1

/-- What is written for a document that is merged. -/
theorem filter_finishedDocuments_addOccurrences (h : IsFinal calls order forwardDecls builder)
    (path : Str) :
    (((builder.finishedDocuments finishOrder true).map
        (IndexWriter.addOccurrences builder.forwardDeclOccurenceMap · true)).filter fun doc =>
          doc.relativePath = path) =
      ((builder.multiplyIndexed.lookup path).map fun docBuilder =>
        IndexWriter.addOccurrences builder.forwardDeclOccurenceMap
          (docBuilder.finish finishOrder true) true).toList := by
  have hagree := pathsAgree_of_paths_eq (pathsAgree_performAll calls) h.paths_eq
  rw [List.filter_map]
  simp only [Function.comp_def, IndexWriter.relativePath_addOccurrences]
  rw [filter_finishedDocuments hagree]
  cases builder.multiplyIndexed.lookup path <;> rfl

theorem IsFinal.soFar_symbols (h : IsFinal calls order forwardDecls builder) {path : Str}
    {docBuilder : DocumentBuilder}
    (hlookup : builder.multiplyIndexed.lookup path = some docBuilder) :
    docBuilder.soFar.symbols = [] :=
  (soFar_of_outline_eq h.builders.outline_eq hlookup).2

/-- The documentation of a symbol can be told from what is written. -/
theorem documentation_eq_of_finish_eq (h : IsFinal calls order forwardDecls builder)
    (h' : IsFinal calls order' forwardDecls builder') (hlockstep : Lockstep builder builder')
    (heq : concatenate (builder.finish finishOrder true) =
      concatenate (builder'.finish finishOrder' true))
    {path name : Str} {symbolInfoBuilder symbolInfoBuilder' : SymbolInformationBuilder}
    (hbuilder : builder.symbolBuilder path name = some symbolInfoBuilder)
    (hbuilder' : builder'.symbolBuilder path name = some symbolInfoBuilder') :
    symbolInfoBuilder.documentation = symbolInfoBuilder'.documentation := by
  obtain ⟨docBuilder, hlookup, hsymbol⟩ := Option.bind_eq_some_iff.mp hbuilder
  obtain ⟨docBuilder', hlookup', hsymbol'⟩ := Option.bind_eq_some_iff.mp hbuilder'
  -- the documents that are written for the path
  have hdocs := documents_eq_of_finish_eq heq
  rw [List.map_append, List.map_append] at hdocs
  have hlength : (builder.documents.map
      (IndexWriter.addOccurrences builder.forwardDeclOccurenceMap · true)).length =
      (builder'.documents.map
        (IndexWriter.addOccurrences builder'.forwardDeclOccurenceMap · true)).length := by
    rw [List.length_map, List.length_map, hlockstep.documents_eq]
  have hfinished := congrArg (List.filter fun doc : Document => doc.relativePath = path)
    (List.append_inj hdocs hlength).2
  rw [filter_finishedDocuments_addOccurrences h, filter_finishedDocuments_addOccurrences h',
    hlookup, hlookup'] at hfinished
  have hsymbols := congrArg Document.symbols (List.cons.inj hfinished).1
  rw [IndexWriter.symbols_addOccurrences, IndexWriter.symbols_addOccurrences] at hsymbols
  -- the symbol in them
  have hname : name ∈
      (docBuilder.finish finishOrder true).symbols.map SymbolInformation.symbol := by
    rw [(DocumentBuilder.symbols_finish_perm finishOrder true (h.soFar_symbols hlookup)).mem_iff,
      ← AList.mem_keys, ← AList.lookup_isSome, hsymbol]
    rfl
  obtain ⟨symbolInfo, hmem, rfl⟩ := List.mem_map.mp hname
  obtain ⟨read, hread, hdocumentation, -⟩ :=
    DocumentBuilder.mem_symbols_finish (h.soFar_symbols hlookup) hmem
  rw [hsymbols] at hmem
  obtain ⟨read', hread', hdocumentation', -⟩ :=
    DocumentBuilder.mem_symbols_finish (h'.soFar_symbols hlookup') hmem
  rw [hsymbol, Option.some.injEq] at hread
  rw [hsymbol', Option.some.injEq] at hread'
  rw [hread, hread', ← hdocumentation, ← hdocumentation']

/-- Apart from the occurrences of forward declarations, the documents hold the same
occurrences. -/
theorem map_occurrences_eq (hlockstep : Lockstep builder builder')
    (houtline : builder.outline = builder'.outline) :
    (builder.documents ++ builder.finishedDocuments finishOrder true).map
        (fun doc => (doc.relativePath, doc.occurrences)) =
      (builder'.documents ++ builder'.finishedDocuments finishOrder' true).map
        fun doc => (doc.relativePath, doc.occurrences) := by
  rw [List.map_append, List.map_append, hlockstep.documents_eq, finishedDocuments,
    finishedDocuments, List.map_map, List.map_map]
  congr 1
  apply map_extract_congr
  intro path
  have hpath := congrFun houtline path
  unfold outline at hpath
  have hread : ∀ (builder : IndexBuilder) (finishOrder : IterationOrder Table),
      ((builder.multiplyIndexed.lookup path).map fun docBuilder =>
        ((docBuilder.finish finishOrder true).relativePath,
          (docBuilder.finish finishOrder true).occurrences)) =
      ((builder.multiplyIndexed.lookup path).map fun docBuilder =>
        (docBuilder.soFar, docBuilder.occurrences)).map fun parts =>
          (parts.1.relativePath, parts.1.occurrences ++
            extract finishOrder (.occurrences parts.1.relativePath) true compareOccurrences
              parts.2) := by
    intro builder finishOrder
    rw [Option.map_map]
    rfl
  refine (hread builder finishOrder).trans (Eq.trans ?_ (hread builder' finishOrder').symm)
  rw [hpath]
  simp only [extract_congr finishOrder finishOrder']

/-- Every document that was added is written, on its own or merged with others. -/
theorem IsFinal.exists_written (h : IsFinal calls order forwardDecls builder)
    (finishOrder : IterationOrder Table) {input : Document}
    (hinput : input ∈ BuilderCall.documents calls) :
    ∃ doc ∈ builder.documents ++ builder.finishedDocuments finishOrder true,
      doc.relativePath = input.relativePath := by
  obtain ⟨call, hcall, heq⟩ := List.mem_filterMap.mp hinput
  cases call with
  | addExternalSymbol extSym => cases heq
  | addDocument doc isMultiplyIndexed =>
      obtain rfl := Option.some.inj heq
      cases isMultiplyIndexed with
      | false =>
          have hdoc : doc ∈ documentsWith false calls :=
            List.mem_filterMap.mpr ⟨.addDocument doc false, hcall, rfl⟩
          rw [← documents_performAll] at hdoc
          have hpath : doc.relativePath ∈ (performAll calls).paths.1 := List.mem_map_of_mem hdoc
          rw [← h.paths_eq] at hpath
          obtain ⟨written, hwritten, hsame⟩ := List.mem_map.mp hpath
          exact ⟨written, List.mem_append_left _ hwritten, hsame⟩
      | true =>
          have hdoc : doc ∈ (documentsWith true calls).filter fun other =>
              other.relativePath = doc.relativePath :=
            List.mem_filter.mpr
              ⟨List.mem_filterMap.mpr ⟨.addDocument doc true, hcall, rfl⟩, by simp⟩
          have hsome : (performAll calls).paths.2 doc.relativePath ≠ none := by
            simp only [paths, lookup_multiplyIndexed_performAll]
            split
            · rename_i hnil
              rw [hnil] at hdoc
              cases hdoc
            · exact Option.some_ne_none _
          rw [← h.paths_eq] at hsome
          obtain ⟨key, hkey⟩ := Option.ne_none_iff_exists'.mp hsome
          obtain ⟨docBuilder, hlookup, -⟩ := Option.map_eq_some_iff.mp hkey
          have hagree := pathsAgree_of_paths_eq (pathsAgree_performAll calls) h.paths_eq
          have hfilter := filter_finishedDocuments hagree finishOrder true doc.relativePath
          rw [hlookup] at hfilter
          have hmem : docBuilder.finish finishOrder true ∈
              (builder.finishedDocuments finishOrder true).filter fun other =>
                other.relativePath = doc.relativePath := by
            rw [hfilter]
            exact List.mem_cons_self
          exact ⟨_, List.mem_append_right _ (List.mem_filter.mp hmem).1, hagree _ _ hlookup⟩

/-- The occurrences of forward declarations can be told from what is written. -/
theorem occurrencesAt_perm_of_finish_eq (h : IsFinal calls order forwardDecls builder)
    (h' : IsFinal calls order' forwardDecls builder') (hlockstep : Lockstep builder builder')
    (heq : concatenate (builder.finish finishOrder true) =
      concatenate (builder'.finish finishOrder' true))
    {input : Document} (hinput : input ∈ BuilderCall.documents calls) :
    (builder.occurrencesAt input.relativePath).Perm
      (builder'.occurrencesAt input.relativePath) := by
  obtain ⟨doc, hdoc, hpath⟩ := h.exists_written finishOrder hinput
  -- compare the documents at the same position of the two outputs
  obtain ⟨i, hi⟩ := List.mem_iff_getElem?.mp hdoc
  have hkept := congrArg (·[i]?) (@map_occurrences_eq _ _ finishOrder finishOrder' hlockstep
    (h.outline_eq h'))
  have hwritten := congrArg (·[i]?) (documents_eq_of_finish_eq heq)
  simp only [List.getElem?_map, hi, Option.map_some] at hkept hwritten
  obtain ⟨doc', hi', hparts⟩ := Option.map_eq_some_iff.mp hkept.symm
  rw [hi', Option.map_some, Option.some.injEq] at hwritten
  obtain ⟨hsame, hoccurrences⟩ := Prod.mk.inj hparts
  rw [← hpath]
  exact IndexWriter.perm_of_addOccurrences_eq hsame.symm hoccurrences.symm hwritten

end Written

end IndexBuilder

/-- A merge in which only the resolver is populated in an unusual order. -/
def MergeOrders.populating (order : IterationOrder Table) : MergeOrders where
  populate := order
  forwardDecl _ := .inOrder
  finish := .inOrder

section SameOutput

open BuilderCall IndexBuilder

variable {calls : List BuilderCall} {forwardDecls : List ForwardDecl} {suffix : Str}

/-- Two candidates are found by one merge each, and both merges write the same. -/
theorem exists_isFinal_of_isCandidate
    (hsame : ∀ orders orders' : MergeOrders,
      (mergeAndEmit calls forwardDecls orders true).map concatenate =
        (mergeAndEmit calls forwardDecls orders' true).map concatenate)
    (hambiguous : Ambiguous calls suffix) {path name path' name' : Str}
    (hcandidate : IsCandidate calls suffix path name)
    (hcandidate' : IsCandidate calls suffix path' name') :
    ∃ order order' builder builder',
      ((performAll calls).populateForwardDeclResolver order).lookupInDocuments suffix =
        some (.builder path name) ∧
      ((performAll calls).populateForwardDeclResolver order').lookupInDocuments suffix =
        some (.builder path' name') ∧
      IsFinal calls order forwardDecls builder ∧ IsFinal calls order' forwardDecls builder' ∧
      Lockstep builder builder' ∧
      concatenate (builder.finish .inOrder true) = concatenate (builder'.finish .inOrder true) := by
  obtain ⟨order, hptr⟩ := exists_order_of_isCandidate hambiguous hcandidate
  obtain ⟨order', hptr'⟩ := exists_order_of_isCandidate hambiguous hcandidate'
  obtain ⟨builder, builder', h, h', hlockstep, hemit⟩ :=
    mergeAndEmit_spec calls forwardDecls (.populating order) (.populating order')
  have hequal := hsame (.populating order) (.populating order')
  rw [(hemit true).1, (hemit true).2, Option.map_some, Option.map_some,
    Option.some.injEq] at hequal
  exact ⟨order, order', builder, builder', hptr, hptr', h, h', hlockstep, hequal⟩

theorem sameNames_of_sameOutput
    (hsame : ∀ orders orders' : MergeOrders,
      (mergeAndEmit calls forwardDecls orders true).map concatenate =
        (mergeAndEmit calls forwardDecls orders' true).map concatenate)
    (hambiguous : Ambiguous calls suffix) : SameNames calls forwardDecls suffix := by
  by_contra hnot
  unfold SameNames at hnot
  push Not at hnot
  obtain ⟨⟨path, name, path', name', hcandidate, hcandidate', hne⟩,
    forwardDecl, hmem, hsuffix, ref, href, doc, hdoc, hpath⟩ := hnot
  obtain ⟨order, order', builder, builder', hptr, hptr', h, h', hlockstep, hequal⟩ :=
    exists_isFinal_of_isCandidate hsame hambiguous hcandidate hcandidate'
  have hperm := occurrencesAt_perm_of_finish_eq h h' hlockstep hequal hdoc
  -- one merge writes the reference under `name`
  have hoccurrence : ForwardDeclOccurrence.ofReference name ref ∈
      builder.occurrencesAt doc.relativePath := by
    rw [(h.occurrencesAt_perm _).mem_iff, List.mem_flatMap]
    refine ⟨forwardDecl, hmem, List.mem_flatMap.mpr ⟨name, ?_, ?_⟩⟩
    · rw [hsuffix, resolvedNames_of_builder calls order hptr]
      exact List.mem_singleton_self name
    · refine List.mem_map.mpr ⟨ref, List.mem_filter.mpr ⟨href, ?_⟩, rfl⟩
      simpa using hpath.symm
  -- and the other one has no occurrence of that name
  rw [hperm.mem_iff, (h'.occurrencesAt_perm _).mem_iff, List.mem_flatMap] at hoccurrence
  obtain ⟨other, -, hother⟩ := hoccurrence
  obtain ⟨resolved, hresolved, hread⟩ := List.mem_flatMap.mp hother
  obtain ⟨ref', -, heq⟩ := List.mem_map.mp hread
  obtain rfl : resolved = name := congrArg ForwardDeclOccurrence.symbol heq
  have hotherSuffix := suffix_of_mem_resolvedNames calls order' hresolved
  rw [hcandidate.1, Option.some.injEq] at hotherSuffix
  rw [← hotherSuffix, resolvedNames_of_builder calls order' hptr', List.mem_singleton] at hresolved
  exact hne hresolved

theorem sameDocumentation_of_sameOutput
    (hsame : ∀ orders orders' : MergeOrders,
      (mergeAndEmit calls forwardDecls orders true).map concatenate =
        (mergeAndEmit calls forwardDecls orders' true).map concatenate)
    (hambiguous : Ambiguous calls suffix) : SameDocumentation calls forwardDecls suffix := by
  intro path name hcandidate
  -- there is another candidate
  obtain ⟨path', name', hother, hcandidate'⟩ : ∃ path' name', (path', name') ≠ (path, name) ∧
      IsCandidate calls suffix path' name' := by
    obtain ⟨-, path₁, name₁, path₂, name₂, hne, h₁, h₂⟩ := hambiguous
    by_cases hfirst : (path₁, name₁) = (path, name)
    · exact ⟨path₂, name₂, fun hsecond => hne (hfirst.trans hsecond.symm), h₂⟩
    · exact ⟨path₁, name₁, hfirst, h₁⟩
  obtain ⟨order, order', builder, builder', hptr, hptr', h, h', hlockstep, hequal⟩ :=
    exists_isFinal_of_isCandidate hsame hambiguous hcandidate hcandidate'
  have hknown := @symbolBuilder_performAll calls path name
  obtain ⟨symbolInfoBuilder, hbuilder⟩ :=
    Option.ne_none_iff_exists'.mp (isCandidate_iff.mp hcandidate).2
  rw [hbuilder] at hknown
  have hfinal := h.builders.symbolBuilder_eq path name
  have hfinal' := h'.builders.symbolBuilder_eq path name
  -- the merge that finds the other candidate leaves the documentation as it is
  have hnil : documentationFor ((performAll calls).populateForwardDeclResolver order')
      forwardDecls path name = [] := by
    rw [documentationFor, List.map_eq_nil_iff, List.filter_eq_nil_iff]
    intro forwardDecl _ hdocuments
    have hdocuments := of_decide_eq_true hdocuments
    have hsuffix := suffix_of_documentsBuilder hdocuments
    rw [hcandidate.1, Option.some.injEq] at hsuffix
    obtain ⟨hfound, -⟩ := hdocuments
    rw [← hsuffix, hptr', Option.some.injEq, SymbolInfoOrBuilderPtr.builder.injEq] at hfound
    exact hother (Prod.ext hfound.1 hfound.2)
  rw [hnil] at hfinal'
  rw [hbuilder, Option.map_some] at hfinal hfinal'
  have hdocs := documentation_eq_of_finish_eq h h' hlockstep hequal hfinal hfinal'
  rcases (documentation_documentAll_eq_iff _ symbolInfoBuilder).mp hdocs with hhas | hall
  · rw [hknown.2] at hhas
    exact .inl hhas
  · right
    intro forwardDecl hmem hsuffix hne
    rw [← hknown.2]
    refine hall forwardDecl.documentation (List.mem_map.mpr ⟨forwardDecl, ?_, rfl⟩)
    refine List.mem_filter.mpr ⟨hmem, decide_eq_true ⟨?_, hne⟩⟩
    rw [hsuffix, hptr]

/-- **When the index does not depend on hash tables.**  All merges of the same shards write
the same messages, and messages that a reader of the index sees as the same, if and only if
it is irrelevant which symbol is found for an ambiguous suffix. -/
theorem sameOutput_iff (calls : List BuilderCall) (forwardDecls : List ForwardDecl) :
    (∀ orders, ∃ output, mergeAndEmit calls forwardDecls orders true = some output) ∧
    ((∀ orders orders', mergeAndEmit calls forwardDecls orders true =
        mergeAndEmit calls forwardDecls orders' true) ↔
      OrderIrrelevant calls forwardDecls) ∧
    ((∀ orders orders', (mergeAndEmit calls forwardDecls orders true).map concatenate =
        (mergeAndEmit calls forwardDecls orders' true).map concatenate) ↔
      OrderIrrelevant calls forwardDecls) := by
  have hemits : ∀ orders, ∃ output,
      mergeAndEmit calls forwardDecls orders true = some output := by
    intro orders
    obtain ⟨builder, builder', -, -, -, hemit⟩ := mergeAndEmit_spec calls forwardDecls orders orders
    exact ⟨_, (hemit true).1⟩
  have hnecessary : (∀ orders orders',
      (mergeAndEmit calls forwardDecls orders true).map concatenate =
        (mergeAndEmit calls forwardDecls orders' true).map concatenate) →
      OrderIrrelevant calls forwardDecls := by
    intro hsame suffix hambiguous
    exact ⟨sameNames_of_sameOutput hsame hambiguous,
      sameDocumentation_of_sameOutput hsame hambiguous⟩
  have hsufficient : OrderIrrelevant calls forwardDecls → ∀ orders orders',
      mergeAndEmit calls forwardDecls orders true =
        mergeAndEmit calls forwardDecls orders' true := by
    intro hirrelevant orders orders'
    obtain ⟨builder, builder', h, h', hlockstep, hemit⟩ :=
      mergeAndEmit_spec calls forwardDecls orders orders'
    rw [(hemit true).1, (hemit true).2, finish_eq_emitted builder, finish_eq_emitted builder',
      concatenate_finish_eq hirrelevant h h' hlockstep]
  refine ⟨hemits, ⟨?_, hsufficient⟩, ⟨hnecessary, ?_⟩⟩
  · intro hsame
    apply hnecessary
    intro orders orders'
    rw [hsame orders orders']
  · intro hirrelevant orders orders'
    rw [hsufficient hirrelevant orders orders']

/-- Two headers that are indexed several times have the same function, without
documentation. -/
def sharedFunctionCalls : List BuilderCall :=
  let header := fun path : String =>
    ({ relativePath := path.toList
       symbols := [{ symbol := "cxx . . $ f().".toList }] } : Document)
  [.addDocument (header "a.h") true, .addDocument (header "b.h") true]

/-- A forward declaration of the function has documentation. -/
def documentedForwardDecl : ForwardDecl :=
  { suffix := "f().".toList, documentation := "doc".toList }

/-- The documentation goes to one header or to the other. -/
theorem not_sameOutput_sharedFunction :
    ¬∀ orders orders' : MergeOrders,
      (mergeAndEmit sharedFunctionCalls [documentedForwardDecl] orders true).map concatenate =
        (mergeAndEmit sharedFunctionCalls [documentedForwardDecl] orders' true).map
          concatenate := by
  intro hsame
  have hcandidate : IsCandidate sharedFunctionCalls "f().".toList "a.h".toList
      "cxx . . $ f().".toList := ⟨by decide, by decide⟩
  have hambiguous : Ambiguous sharedFunctionCalls "f().".toList :=
    ⟨by decide, "a.h".toList, "cxx . . $ f().".toList, "b.h".toList, "cxx . . $ f().".toList,
      by decide, hcandidate, by decide, by decide⟩
  rcases sameDocumentation_of_sameOutput hsame hambiguous _ _ hcandidate with hhas | hplaceholder
  · exact absurd hhas (by decide)
  · obtain ⟨hdocs, -⟩ := hplaceholder documentedForwardDecl List.mem_cons_self rfl (by decide)
    exact absurd hdocs (by decide)

end SameOutput

end ScipClang
