import ScipClang.Scip.Builders

/-!
# Merging loses and invents nothing

The driver feeds the documents and external symbols of all shards into one `IndexBuilder`
and then writes it out.  This file follows a sequence of such calls from the empty builder
to the concatenation of the written messages.

* `IndexBuilder.performAll_eq`: the builder after a sequence of calls.
* `DocumentBuilder.finish_isMergeOf`: a finished document is the merge of the documents
  that went into its builder.
* `IndexBuilder.filter_documents_finish`: what is written for one relative path.
-/

namespace ScipClang

open HashTables

/-- A call that adds something to an `IndexBuilder`. -/
inductive BuilderCall where
  | addDocument (doc : Document) (isMultiplyIndexed : Bool)
  | addExternalSymbol (extSym : SymbolInformation)
deriving DecidableEq

namespace BuilderCall

/-- The documents that are added, in order. -/
def documents (calls : List BuilderCall) : List Document :=
  calls.filterMap fun
    | .addDocument doc _ => some doc
    | .addExternalSymbol _ => none

/-- The documents that are added with the given flag, in order. -/
def documentsWith (flag : Bool) (calls : List BuilderCall) : List Document :=
  calls.filterMap fun
    | .addDocument doc isMultiplyIndexed => if isMultiplyIndexed = flag then some doc else none
    | .addExternalSymbol _ => none

/-- The external symbols that are added, in order. -/
def externalSymbols (calls : List BuilderCall) : List SymbolInformation :=
  calls.filterMap fun
    | .addDocument _ _ => none
    | .addExternalSymbol extSym => some extSym

/-- The flag of every document is a function of its path. -/
def FlaggedBy (multi : Str → Bool) (calls : List BuilderCall) : Prop :=
  ∀ doc flag, addDocument doc flag ∈ calls → flag = multi doc.relativePath

/-- With such a flag, the documents of one kind are those whose path is of that kind. -/
theorem documentsWith_eq {multi : Str → Bool} {calls : List BuilderCall}
    (hflag : FlaggedBy multi calls) (flag : Bool) :
    documentsWith flag calls =
      (documents calls).filter fun doc => multi doc.relativePath = flag := by
  induction calls with
  | nil => rfl
  | cons call calls ih =>
      have htail := ih fun doc flag hmem => hflag doc flag (List.mem_cons_of_mem _ hmem)
      cases call with
      | addExternalSymbol extSym => exact htail
      | addDocument doc isMultiplyIndexed =>
          have hself := hflag doc isMultiplyIndexed List.mem_cons_self
          subst hself
          by_cases hkind : multi doc.relativePath = flag
          · simpa [documentsWith, documents, hkind] using htail
          · simpa [documentsWith, documents, hkind] using htail

end BuilderCall

namespace IndexBuilder

/-- One call. -/
def perform (builder : IndexBuilder) : BuilderCall → IndexBuilder
  | .addDocument doc isMultiplyIndexed => builder.addDocument doc isMultiplyIndexed
  | .addExternalSymbol extSym => builder.addExternalSymbol extSym

/-- A sequence of calls on a new builder. -/
def performAll (calls : List BuilderCall) : IndexBuilder := calls.foldl perform {}

/-- What becomes of the entry of a name in `IndexBuilder::addExternalSymbol`. -/
def externalEntry (extSym : SymbolInformation) :
    Option SymbolInformationBuilder → SymbolInformationBuilder
  | none => .ofParts extSym.symbol extSym.documentation
      (extSym.relationships.foldl (insertBy compareRelationships) [])
  | some symbolInfoBuilder =>
      let symbolInfoBuilder :=
        if !hasDocumentation symbolInfoBuilder.documentation ∧ 0 < extSym.documentation.length then
          symbolInfoBuilder.setDocumentation extSym.documentation
        else symbolInfoBuilder
      symbolInfoBuilder.mergeRelationships extSym.relationships

theorem addExternalSymbol_eq (builder : IndexBuilder) (extSym : SymbolInformation) :
    builder.addExternalSymbol extSym =
      { builder with
        externalSymbols :=
          upsert builder.externalSymbols extSym.symbol (externalEntry extSym) } := by
  unfold addExternalSymbol upsert
  cases hlookup : builder.externalSymbols.lookup extSym.symbol with
  | none =>
      have habsent : extSym.symbol ∉ builder.externalSymbols := AList.lookup_eq_none.mp hlookup
      simp [hlookup, addExternalSymbolUnchecked, habsent, externalEntry]
  | some symbolInfoBuilder => simp [hlookup, externalEntry]

/-- The builder after some more calls. -/
theorem foldl_perform (calls : List BuilderCall) (builder : IndexBuilder) :
    calls.foldl perform builder =
      { builder with
        documents := builder.documents ++ BuilderCall.documentsWith false calls
        multiplyIndexed := (BuilderCall.documentsWith true calls).foldl
          (fun table doc => upsert table doc.relativePath (documentEntry doc))
          builder.multiplyIndexed
        externalSymbols := (BuilderCall.externalSymbols calls).foldl
          (fun table extSym => upsert table extSym.symbol (externalEntry extSym))
          builder.externalSymbols } := by
  induction calls generalizing builder with
  | nil => simp [BuilderCall.documentsWith, BuilderCall.externalSymbols]
  | cons call calls ih =>
      rw [List.foldl_cons, ih]
      cases call with
      | addExternalSymbol extSym =>
          rw [perform, addExternalSymbol_eq]
          rfl
      | addDocument doc isMultiplyIndexed =>
          cases isMultiplyIndexed with
          | true => rfl
          | false =>
              simp [perform, addDocument, BuilderCall.documentsWith, BuilderCall.externalSymbols]

/-- **The builder after a sequence of calls.** -/
theorem performAll_eq (calls : List BuilderCall) :
    performAll calls =
      { documents := BuilderCall.documentsWith false calls
        multiplyIndexed := (BuilderCall.documentsWith true calls).foldl
          (fun table doc => upsert table doc.relativePath (documentEntry doc)) ∅
        externalSymbols := (BuilderCall.externalSymbols calls).foldl
          (fun table extSym => upsert table extSym.symbol (externalEntry extSym)) ∅ } := by
  rw [performAll, foldl_perform]
  simp

/-- The builder of a path holds the merge of the documents with that path. -/
theorem lookup_multiplyIndexed_performAll (calls : List BuilderCall) (path : Str) :
    (performAll calls).multiplyIndexed.lookup path =
      match (BuilderCall.documentsWith true calls).filter fun doc => doc.relativePath = path with
      | [] => none
      | first :: docs => some (docs.foldl DocumentBuilder.merge (.ofDocument first)) := by
  have hmerge : ∀ (docs : List Document) (docBuilder : DocumentBuilder),
      docs.foldl (fun old doc => some (documentEntry doc old)) (some docBuilder) =
        some (docs.foldl DocumentBuilder.merge docBuilder) := by
    intro docs
    induction docs with
    | nil => intro docBuilder; rfl
    | cons doc docs ih =>
        intro docBuilder
        exact ih (docBuilder.merge doc)
  rw [performAll_eq, lookup_foldl_upsert Document.relativePath documentEntry]
  cases (BuilderCall.documentsWith true calls).filter fun doc => doc.relativePath = path with
  | nil => rfl
  | cons first docs => exact hmerge docs (.ofDocument first)

end IndexBuilder

/-! ## A finished document -/

/-- The document `doc` is the merge of the documents `docs`: the union of their occurrences
without duplicates, and one `SymbolInformation` for every symbol, with the union of the
relationships and the chosen documentation. -/
structure Document.IsMergeOf (doc : Document) (docs : List Document) : Prop where
  language_eq : docs.head?.map Document.language = some doc.language
  occurrences_nodup : doc.occurrences.Nodup
  mem_occurrences : ∀ occ, occ ∈ doc.occurrences ↔ ∃ input ∈ docs, occ ∈ input.occurrences
  symbols_nodup : (doc.symbols.map SymbolInformation.symbol).Nodup
  mem_symbols : ∀ name, name ∈ doc.symbols.map SymbolInformation.symbol ↔
    ∃ input ∈ docs, ∃ symbolInfo ∈ input.symbols, symbolInfo.symbol = name
  relationships_nodup : ∀ symbolInfo ∈ doc.symbols, symbolInfo.relationships.Nodup
  mem_relationships : ∀ symbolInfo ∈ doc.symbols, ∀ relationship,
    relationship ∈ symbolInfo.relationships ↔
      ∃ input ∈ DocumentBuilder.symbolInputs docs symbolInfo.symbol,
        relationship ∈ input.relationships
  documentation_eq : ∀ symbolInfo ∈ doc.symbols, symbolInfo.documentation =
    chosenDocumentation (DocumentBuilder.symbolInputs docs symbolInfo.symbol)

namespace DocumentBuilder

variable {builder : DocumentBuilder} {docs : List Document} {order : IterationOrder Table}
  {deterministic : Bool}

theorem symbolInputs_ne_nil {docs : List Document} {name : Str} :
    symbolInputs docs name ≠ [] ↔
      ∃ input ∈ docs, ∃ symbolInfo ∈ input.symbols, symbolInfo.symbol = name := by
  constructor
  · intro hne
    obtain ⟨symbolInfo, hmem⟩ := List.exists_mem_of_ne_nil _ hne
    obtain ⟨input, hinput, hsymbol⟩ := List.mem_flatMap.mp (List.mem_filter.mp hmem).1
    exact ⟨input, hinput, symbolInfo, hsymbol, symbol_of_mem_symbolInputs hmem⟩
  · rintro ⟨input, hinput, symbolInfo, hmem, hname⟩
    refine List.ne_nil_of_mem (a := symbolInfo) (List.mem_filter.mpr ⟨?_, by simpa using hname⟩)
    exact List.mem_flatMap.mpr ⟨input, hinput, hmem⟩

@[simp] theorem relativePath_finish :
    (builder.finish order deterministic).relativePath = builder.soFar.relativePath := rfl

variable (order deterministic) in
/-- The names of the finished symbols are the keys of the builder. -/
theorem symbols_finish_perm (hsoFar : builder.soFar.symbols = []) :
    ((builder.finish order deterministic).symbols.map SymbolInformation.symbol).Perm
      builder.symbolInfos.keys := by
  have hperm := (extract_perm order (.symbolInfos builder.soFar.relativePath) deterministic
    (fun p1 p2 => compareStrings p1.1 p2.1) builder.symbolInfos.entries).map Sigma.fst
  simp only [finish, hsoFar, List.nil_append, List.map_map]
  exact hperm

/-- A finished symbol comes from the builder of its name. -/
theorem mem_symbols_finish (hsoFar : builder.soFar.symbols = []) {symbolInfo : SymbolInformation}
    (h : symbolInfo ∈ (builder.finish order deterministic).symbols) :
    ∃ symbolInfoBuilder, builder.symbolInfos.lookup symbolInfo.symbol = some symbolInfoBuilder ∧
      symbolInfo.documentation = symbolInfoBuilder.documentation ∧
      symbolInfo.relationships.Perm symbolInfoBuilder.relationships := by
  rw [finish] at h
  simp only [hsoFar, List.nil_append, List.mem_map] at h
  obtain ⟨⟨name, symbolInfoBuilder⟩, hmem, rfl⟩ := h
  rw [(extract_perm ..).mem_iff] at hmem
  refine ⟨symbolInfoBuilder, AList.mem_lookup_iff.mpr hmem, rfl, ?_⟩
  exact extract_perm ..

/-- **A finished document is the merge of the documents that went into its builder.** -/
theorem finish_isMergeOf (h : builder.MergedFrom docs) :
    (builder.finish order deterministic).IsMergeOf docs := by
  obtain ⟨first, hfirst, hsoFar⟩ := Option.map_eq_some_iff.mp h.soFar_eq
  have hsymbols : builder.soFar.symbols = [] := by rw [← hsoFar]
  have hoccurrences : (builder.finish order deterministic).occurrences.Perm
      builder.occurrences := by
    rw [finish, ← hsoFar]
    exact extract_perm ..
  have hkeys := symbols_finish_perm order deterministic hsymbols
  constructor
  case language_eq =>
    rw [hfirst, Option.map_some, finish, ← hsoFar]
  case occurrences_nodup => exact hoccurrences.nodup_iff.mpr h.occurrences_nodup
  case mem_occurrences =>
    intro occ
    rw [hoccurrences.mem_iff, h.mem_occurrences]
  case symbols_nodup => exact hkeys.nodup_iff.mpr builder.symbolInfos.keys_nodup
  case mem_symbols =>
    intro name
    rw [hkeys.mem_iff, ← AList.mem_keys, ← symbolInputs_ne_nil, Ne, ← h.lookup_eq_none,
      AList.lookup_eq_none, not_not]
  case relationships_nodup =>
    intro symbolInfo hmem
    obtain ⟨symbolInfoBuilder, hlookup, -, hperm⟩ := mem_symbols_finish hsymbols hmem
    exact hperm.nodup_iff.mpr (h.lookup_collects _ _ hlookup).relationships_nodup
  case mem_relationships =>
    intro symbolInfo hmem relationship
    obtain ⟨symbolInfoBuilder, hlookup, -, hperm⟩ := mem_symbols_finish hsymbols hmem
    rw [hperm.mem_iff, (h.lookup_collects _ _ hlookup).mem_relationships]
  case documentation_eq =>
    intro symbolInfo hmem
    obtain ⟨symbolInfoBuilder, hlookup, hdocs, -⟩ := mem_symbols_finish hsymbols hmem
    rw [hdocs, (h.lookup_collects _ _ hlookup).documentation_eq]

end DocumentBuilder

/-! ## Everything that is written -/

namespace IndexBuilder

variable {multi : Str → Bool} {calls : List BuilderCall} {order : IterationOrder Table}
  {deterministic : Bool}

/-- The builder kept for a path is one that was merged from documents with that path. -/
theorem mergedFrom_of_lookup {path : Str} {docBuilder : DocumentBuilder}
    (h : (performAll calls).multiplyIndexed.lookup path = some docBuilder) :
    docBuilder.MergedFrom
        ((BuilderCall.documentsWith true calls).filter fun doc => doc.relativePath = path) ∧
      docBuilder.soFar.relativePath = path := by
  rw [lookup_multiplyIndexed_performAll] at h
  cases hdocs : (BuilderCall.documentsWith true calls).filter fun doc =>
      doc.relativePath = path with
  | nil =>
      rw [hdocs] at h
      cases h
  | cons first docs =>
      rw [hdocs] at h
      obtain rfl := Option.some.inj h
      have hmerged := DocumentBuilder.merged_spec first docs
      have hfirst : first ∈ (BuilderCall.documentsWith true calls).filter fun doc =>
          doc.relativePath = path := by
        rw [hdocs]
        exact List.mem_cons_self
      refine ⟨hmerged, ?_⟩
      rw [← Option.some.inj hmerged.soFar_eq]
      simpa using (List.mem_filter.mp hfirst).2

/-- The builders of documents carry the paths they are kept under. -/
def PathsAgree (builder : IndexBuilder) : Prop :=
  ∀ path docBuilder, builder.multiplyIndexed.lookup path = some docBuilder →
    docBuilder.soFar.relativePath = path

theorem pathsAgree_performAll (calls : List BuilderCall) : (performAll calls).PathsAgree :=
  fun _ _ hlookup => (mergedFrom_of_lookup hlookup).2

/-- At most one document comes out of `multiplyIndexed` for a path. -/
theorem filter_finishedDocuments {builder : IndexBuilder} (hpaths : builder.PathsAgree)
    (order : IterationOrder Table) (deterministic : Bool) (path : Str) :
    ((builder.finishedDocuments order deterministic).filter fun doc => doc.relativePath = path) =
      ((builder.multiplyIndexed.lookup path).map fun docBuilder =>
        docBuilder.finish order deterministic).toList := by
  have hperm := extract_perm order .multiplyIndexed deterministic
    (fun p1 p2 => compareStrings p1.1 p2.1) builder.multiplyIndexed.entries
  rw [finishedDocuments, List.filter_map]
  -- a finished document has the path that its builder is kept under
  have hpath : ∀ entry ∈ extract order .multiplyIndexed deterministic
      (fun p1 p2 => compareStrings p1.1 p2.1) builder.multiplyIndexed.entries,
      ((fun doc : Document => decide (doc.relativePath = path)) ∘
        fun entry : (Σ _ : Str, DocumentBuilder) => entry.2.finish order deterministic) entry =
        decide (entry.1 = path) := by
    rintro ⟨key, docBuilder⟩ hmem
    have hlookup := AList.mem_lookup_iff.mpr (hperm.mem_iff.mp hmem)
    simp [hpaths key docBuilder hlookup]
  rw [List.filter_congr hpath, filter_entries_eq_lookup hperm]
  cases builder.multiplyIndexed.lookup path <;> rfl

/-- Every external symbol name is taken out of `externalSymbols` exactly once. -/
theorem filter_finishedExternalSymbols (builder : IndexBuilder) (order : IterationOrder Table)
    (deterministic : Bool) (name : Str) :
    ((builder.finishedExternalSymbols order deterministic).filter fun symbolInfo =>
        symbolInfo.symbol = name) =
      ((builder.externalSymbols.lookup name).map fun symbolInfoBuilder =>
        symbolInfoBuilder.finish order none deterministic { symbol := name }).toList := by
  have hperm := extract_perm order .externalSymbols deterministic
    (fun p1 p2 => compareStrings p1.1 p2.1) builder.externalSymbols.entries
  rw [finishedExternalSymbols, List.filter_map]
  have hentries := filter_entries_eq_lookup hperm name
  simp only [Function.comp_def, SymbolInformationBuilder.finish]
  rw [hentries]
  cases builder.externalSymbols.lookup name <;> rfl

/-- With no forward declarations, documents are written as they are. -/
theorem documents_finish (calls : List BuilderCall) (order : IterationOrder Table)
    (deterministic : Bool) :
    (concatenate ((performAll calls).finish order deterministic)).documents =
      BuilderCall.documentsWith false calls ++
        (performAll calls).finishedDocuments order deterministic := by
  have hunchanged : ∀ doc, IndexWriter.addOccurrences
      (performAll calls).forwardDeclOccurenceMap doc deterministic = doc := by
    intro doc
    rw [performAll_eq]
    rfl
  rw [concatenate_finish]
  simp only [hunchanged, List.map_id']
  rw [performAll_eq]

/-- What is written for one path: the documents that were added for it if it is not
multiply indexed, and the single finished document otherwise. -/
theorem filter_documents_finish (hflag : BuilderCall.FlaggedBy multi calls) (path : Str) :
    ((concatenate ((performAll calls).finish order deterministic)).documents.filter fun doc =>
        doc.relativePath = path) =
      if multi path then
        (((performAll calls).multiplyIndexed.lookup path).map fun docBuilder =>
          docBuilder.finish order deterministic).toList
      else (BuilderCall.documents calls).filter fun doc => doc.relativePath = path := by
  have hother : ∀ flag, flag ≠ multi path →
      ((BuilderCall.documentsWith flag calls).filter fun doc => doc.relativePath = path) = [] := by
    intro flag hne
    rw [BuilderCall.documentsWith_eq hflag, List.filter_filter, List.filter_eq_nil_iff]
    intro doc _ hdoc
    simp only [Bool.and_eq_true, decide_eq_true_eq] at hdoc
    exact hne (hdoc.1 ▸ hdoc.2.symm)
  rw [documents_finish, List.filter_append, filter_finishedDocuments (pathsAgree_performAll calls)]
  by_cases hmulti : multi path
  · rw [if_pos hmulti, hother false (by simp [hmulti]), List.nil_append]
  · rw [if_neg hmulti, lookup_multiplyIndexed_performAll, hother true (by simpa using hmulti),
      BuilderCall.documentsWith_eq hflag, List.filter_filter]
    simp only [Option.map_none, Option.toList_none, List.append_nil]
    refine List.filter_congr fun doc _ => ?_
    by_cases hdoc : doc.relativePath = path
    · simpa [hdoc] using hmulti
    · simp [hdoc]

/-- The documents that were added for a path. -/
theorem filter_documentsWith_true (hflag : BuilderCall.FlaggedBy multi calls) {path : Str}
    (hmulti : multi path) :
    ((BuilderCall.documentsWith true calls).filter fun doc => doc.relativePath = path) =
      (BuilderCall.documents calls).filter fun doc => doc.relativePath = path := by
  rw [BuilderCall.documentsWith_eq hflag, List.filter_filter]
  refine List.filter_congr fun doc _ => ?_
  by_cases hdoc : doc.relativePath = path
  · simpa [hdoc] using hmulti
  · simp [hdoc]

/-- For a multiply indexed path with at least one document, exactly one document is written,
and it is the merge of the documents that were added. -/
theorem filter_documents_finish_of_multi (hflag : BuilderCall.FlaggedBy multi calls) {path : Str}
    (hmulti : multi path)
    (hne : ((BuilderCall.documents calls).filter fun doc => doc.relativePath = path) ≠ []) :
    ∃ doc, ((concatenate ((performAll calls).finish order deterministic)).documents.filter
          fun doc => doc.relativePath = path) = [doc] ∧
      doc.IsMergeOf ((BuilderCall.documents calls).filter fun doc => doc.relativePath = path) := by
  rw [filter_documents_finish hflag, if_pos hmulti]
  cases hlookup : (performAll calls).multiplyIndexed.lookup path with
  | none =>
      rw [lookup_multiplyIndexed_performAll, filter_documentsWith_true hflag hmulti] at hlookup
      split at hlookup
      case h_1 hnil => exact absurd hnil hne
      case h_2 => cases hlookup
  | some docBuilder =>
      have hmerged := (mergedFrom_of_lookup hlookup).1
      rw [filter_documentsWith_true hflag hmulti] at hmerged
      exact ⟨_, rfl, DocumentBuilder.finish_isMergeOf hmerged⟩

/-- The names in `externalSymbols` are those that were added. -/
theorem mem_externalSymbols_performAll (calls : List BuilderCall) (name : Str) :
    name ∈ (performAll calls).externalSymbols ↔
      name ∈ (BuilderCall.externalSymbols calls).map SymbolInformation.symbol := by
  have hsome : ∀ (extSyms : List SymbolInformation) (symbolInfoBuilder : SymbolInformationBuilder),
      (extSyms.foldl (fun old extSym => some (externalEntry extSym old))
        (some symbolInfoBuilder)).isSome = true := by
    intro extSyms
    induction extSyms with
    | nil => intro _; rfl
    | cons extSym extSyms ih => intro _; exact ih _
  rw [← AList.lookup_isSome, performAll_eq,
    lookup_foldl_upsert SymbolInformation.symbol externalEntry, List.mem_map]
  cases hinputs : (BuilderCall.externalSymbols calls).filter fun extSym =>
      extSym.symbol = name with
  | nil =>
      rw [List.filter_eq_nil_iff] at hinputs
      constructor
      · intro h
        cases h
      · rintro ⟨extSym, hmem, hname⟩
        exact absurd (by simpa using hname) (hinputs extSym hmem)
  | cons extSym extSyms =>
      have hmem : extSym ∈ (BuilderCall.externalSymbols calls).filter fun extSym =>
          extSym.symbol = name := by
        rw [hinputs]
        exact List.mem_cons_self
      constructor
      · intro _
        exact ⟨extSym, (List.mem_filter.mp hmem).1, by simpa using (List.mem_filter.mp hmem).2⟩
      · intro _
        exact hsome extSyms _

/-- **Merging loses and invents nothing.** -/
theorem merging_lossless (multi : Str → Bool) (calls : List BuilderCall)
    (hflag : BuilderCall.FlaggedBy multi calls) (order : IterationOrder Table)
    (deterministic : Bool) :
    let inputs := fun path => (BuilderCall.documents calls).filter fun doc =>
      doc.relativePath = path
    let out := concatenate ((performAll calls).finish order deterministic)
    let outputs := fun path => out.documents.filter fun doc => doc.relativePath = path
    (∀ path, multi path = true → inputs path ≠ [] →
      ∃ doc, outputs path = [doc] ∧ doc.IsMergeOf (inputs path)) ∧
    (∀ path, inputs path = [] → outputs path = []) ∧
    (∀ path, multi path = false → outputs path = inputs path) ∧
    (∀ name, (out.externalSymbols.filter fun symbolInfo => symbolInfo.symbol = name).length =
      if name ∈ (BuilderCall.externalSymbols calls).map SymbolInformation.symbol then 1 else 0) := by
  dsimp only
  refine ⟨?multi, ?none, ?single, ?external⟩
  case multi =>
    intro path hmulti hne
    exact filter_documents_finish_of_multi hflag hmulti hne
  case none =>
    intro path hnil
    rw [filter_documents_finish hflag]
    split
    · rename_i hmulti
      rw [lookup_multiplyIndexed_performAll, filter_documentsWith_true hflag hmulti, hnil]
      rfl
    · exact hnil
  case single =>
    intro path hmulti
    rw [filter_documents_finish hflag, if_neg (by simp [hmulti])]
  case external =>
    intro name
    have hnames := mem_externalSymbols_performAll calls name
    rw [concatenate_finish, filter_finishedExternalSymbols]
    cases hlookup : (performAll calls).externalSymbols.lookup name with
    | none =>
        rw [if_neg fun hmem => AList.lookup_eq_none.mp hlookup (hnames.mpr hmem)]
        rfl
    | some symbolInfoBuilder =>
        rw [if_pos (hnames.mp (AList.lookup_isSome.mp (by rw [hlookup]; rfl)))]
        rfl

/-- Two shards hold the header `a.h`, with the same occurrence and with different
documentation for its symbol, and both mention the external symbol `e`. -/
def headerCalls : List BuilderCall :=
  let range : ScipRange := ⟨[0, 1, 2], Or.inl rfl⟩
  let header := fun documentation : Str =>
    ({ relativePath := "a.h".toList
       occurrences := [{ range := range, symbol := "s".toList }]
       symbols := [{ symbol := "s".toList, documentation := [documentation] }] } : Document)
  [.addDocument (header missingDocumentationPlaceholder) true,
    .addExternalSymbol { symbol := "e".toList },
    .addDocument { relativePath := "b.cc".toList } false,
    .addDocument (header "doc".toList) true,
    .addExternalSymbol { symbol := "e".toList }]

theorem merging_lossless_headerCalls :
    BuilderCall.FlaggedBy (fun path => path = "a.h".toList) headerCalls ∧
      ∃ doc, ((concatenate ((performAll headerCalls).finish .inOrder true)).documents.filter
            fun doc => doc.relativePath = "a.h".toList) = [doc] ∧
        doc.IsMergeOf ((BuilderCall.documents headerCalls).filter fun doc =>
          doc.relativePath = "a.h".toList) := by
  have hflag : BuilderCall.FlaggedBy (fun path => path = "a.h".toList) headerCalls := by
    intro doc flag hmem
    simp only [headerCalls, List.mem_cons, BuilderCall.addDocument.injEq, reduceCtorEq,
      List.not_mem_nil, or_false, false_or] at hmem
    rcases hmem with ⟨rfl, rfl⟩ | ⟨rfl, rfl⟩ | ⟨rfl, rfl⟩ <;> decide
  refine ⟨hflag, ?_⟩
  exact (merging_lossless _ headerCalls hflag .inOrder true).1 "a.h".toList (by decide) (by decide)

end IndexBuilder

end ScipClang
