import ScipClang.Scip.Types

/-!
# Building and writing the index

`SymbolInformationBuilder`, `DocumentBuilder` and `IndexBuilder` of
`indexer/ScipExtras.cc` collect what the shards hold; `IndexWriter` writes the result as
a sequence of `Index` messages, which a reader of the file sees concatenated.

Iteration over a hash table goes through an `IterationOrder` over the tables named by
`Table`.  As elsewhere the model is that of release builds, where `ENFORCE` does nothing.
The interner has no counterpart: a symbol name is its text.

## Main results

* `DocumentBuilder.merged_spec`: the builder that a list of documents is merged into
  holds the union of their occurrences, and for every symbol name what the list of
  `SymbolInformation`s of that name determines.
* `IndexBuilder.concatenate_finish`: what the written messages concatenate to.
-/

namespace ScipClang

open HashTables

/-- The hash tables that are iterated over while an index is built: those of the builder
of a document, those of an external symbol (no document), and those of the index. -/
inductive Table where
  | occurrences (document : Str)
  | symbolInfos (document : Str)
  | relationships (document : Option Str) (name : Str)
  | multiplyIndexed
  | externalSymbols
  | externals (suffix : Str)

/-- `scip::missingDocumentationPlaceholder`. -/
def missingDocumentationPlaceholder : Str := "No documentation available.".toList

/-- `hasDocumentation`, which builders and messages have in common. -/
def hasDocumentation (documentation : List Str) : Bool :=
  match documentation with
  | [] => false
  | first :: _ => first != missingDocumentationPlaceholder

/-! ## Symbols -/

/-- `SymbolInformationBuilder`. -/
structure SymbolInformationBuilder where
  name : Str
  documentation : List Str := []
  relationships : List Relationship := []
deriving DecidableEq

namespace SymbolInformationBuilder

/-- `SymbolInformationBuilder::setDocumentation`. -/
def setDocumentation (builder : SymbolInformationBuilder) (newDocumentation : List Str) :
    SymbolInformationBuilder :=
  { builder with documentation := newDocumentation }

/-- `SymbolInformationBuilder::mergeRelationships`. -/
def mergeRelationships (builder : SymbolInformationBuilder)
    (newRelationships : List Relationship) : SymbolInformationBuilder :=
  { builder with
    relationships := newRelationships.foldl (insertBy compareRelationships)
      builder.relationships }

/-- The constructor of `SymbolInformationBuilder`. -/
def ofParts (name : Str) (docs : List Str) (rels : List Relationship) :
    SymbolInformationBuilder :=
  (setDocumentation { name := name } docs).mergeRelationships rels

/-- `SymbolInformationBuilder::finish`, which fills in a message that has its symbol. -/
def finish (builder : SymbolInformationBuilder) (order : IterationOrder Table)
    (document : Option Str) (deterministic : Bool) (out : SymbolInformation) :
    SymbolInformation :=
  { out with
    documentation := out.documentation ++ builder.documentation
    relationships := out.relationships ++
      extract order (.relationships document builder.name) deterministic
        compareRelationships builder.relationships }

end SymbolInformationBuilder

/-! ## Documents -/

/-- `DocumentBuilder`. -/
structure DocumentBuilder where
  soFar : Document
  occurrences : List Occurrence := []
  symbolInfos : AList (fun _ : Str => SymbolInformationBuilder) := ∅

namespace DocumentBuilder

/-- What becomes of the entry of a symbol in `DocumentBuilder::merge`: a new symbol gets a
builder, the builder of a known one takes the documentation if it has none so far. -/
def mergeEntry (symbolInfo : SymbolInformation) :
    Option SymbolInformationBuilder → SymbolInformationBuilder
  | none => .ofParts symbolInfo.symbol symbolInfo.documentation symbolInfo.relationships
  | some symbolInfoBuilder =>
      let symbolInfoBuilder :=
        if hasDocumentation symbolInfoBuilder.documentation then symbolInfoBuilder
        else symbolInfoBuilder.setDocumentation symbolInfo.documentation
      symbolInfoBuilder.mergeRelationships symbolInfo.relationships

/-- The loop body for a symbol in `DocumentBuilder::merge`. -/
def mergeSymbol (symbolInfos : AList fun _ : Str => SymbolInformationBuilder)
    (symbolInfo : SymbolInformation) : AList fun _ : Str => SymbolInformationBuilder :=
  upsert symbolInfos symbolInfo.symbol (mergeEntry symbolInfo)

/-- `DocumentBuilder::merge`. -/
def merge (builder : DocumentBuilder) (doc : Document) : DocumentBuilder :=
  { builder with
    occurrences := doc.occurrences.foldl (insertBy compareOccurrences) builder.occurrences
    symbolInfos := doc.symbols.foldl mergeSymbol builder.symbolInfos }

/-- The constructor of `DocumentBuilder`. -/
def ofDocument (first : Document) : DocumentBuilder :=
  merge { soFar := { language := first.language, relativePath := first.relativePath } } first

/-- `DocumentBuilder::finish`. -/
def finish (builder : DocumentBuilder) (order : IterationOrder Table) (deterministic : Bool) :
    Document :=
  let path := builder.soFar.relativePath
  { builder.soFar with
    occurrences := builder.soFar.occurrences ++
      extract order (.occurrences path) deterministic compareOccurrences builder.occurrences
    symbols := builder.soFar.symbols ++
      (extract order (.symbolInfos path) deterministic
        (fun p1 p2 => compareStrings p1.1 p2.1) builder.symbolInfos.entries).map
          fun entry => entry.2.finish order (some path) deterministic { symbol := entry.1 } }

end DocumentBuilder

/-! ## The index -/

/-- `ForwardDeclOccurrence`.  The source keeps the range in an array of four elements,
padded with `-1`; `takeWhile_cells` below says that nothing is lost by that. -/
structure ForwardDeclOccurrence where
  symbol : Str
  range : ScipRange
  nonneg : ∀ v ∈ range.values, 0 ≤ v

namespace ForwardDeclOccurrence

/-- The constructor of `ForwardDeclOccurrence`. -/
def ofReference (symbol : Str) (ref : ForwardDeclReference) : ForwardDeclOccurrence where
  symbol := symbol
  range := ref.range
  nonneg := ref.nonneg

/-- The array of a `ForwardDeclOccurrence`. -/
def cells (fwdDeclOcc : ForwardDeclOccurrence) : List Int32 :=
  fwdDeclOcc.range.values ++ List.replicate (4 - fwdDeclOcc.range.values.length) (-1)

/-- The loop of `ForwardDeclOccurrence::addTo` reads the range back. -/
theorem takeWhile_cells (fwdDeclOcc : ForwardDeclOccurrence) :
    fwdDeclOcc.cells.takeWhile (· != -1) = fwdDeclOcc.range.values := by
  have hkeep : ∀ v ∈ fwdDeclOcc.range.values, (v != -1) = true := by
    intro v hv
    have hnonneg := fwdDeclOcc.nonneg v hv
    rw [bne_iff_ne]
    rintro rfl
    exact absurd hnonneg (by decide)
  rw [cells, List.takeWhile_append_of_pos hkeep]
  cases 4 - fwdDeclOcc.range.values.length <;> simp [List.replicate_succ]

/-- `ForwardDeclOccurrence::addTo` on an empty occurrence. -/
def addTo (fwdDeclOcc : ForwardDeclOccurrence) : Occurrence :=
  { range := fwdDeclOcc.range, symbol := fwdDeclOcc.symbol }

end ForwardDeclOccurrence

/-- `ForwardDeclOccurrenceMap`: relative path to occurrences. -/
abbrev ForwardDeclOccurrenceMap := AList fun _ : Str => List ForwardDeclOccurrence

/-- `IndexBuilder`. -/
structure IndexBuilder where
  documents : List Document := []
  multiplyIndexed : AList (fun _ : Str => DocumentBuilder) := ∅
  externalSymbols : AList (fun _ : Str => SymbolInformationBuilder) := ∅
  forwardDeclOccurenceMap : ForwardDeclOccurrenceMap := ∅

/-- `IndexWriter`, with the messages written to the output stream so far. -/
structure IndexWriter where
  index : Index := {}
  forwardDeclOccurenceMap : ForwardDeclOccurrenceMap
  output : List Index := []

/-- What a reader of the output stream parses: concatenating serialized messages appends
their repeated fields. -/
def concatenate (output : List Index) : Index where
  documents := output.flatMap Index.documents
  externalSymbols := output.flatMap Index.externalSymbols

namespace IndexWriter

/-- `IndexWriter::write`. -/
def write (writer : IndexWriter) : IndexWriter :=
  { writer with
    output := writer.output ++ [writer.index]
    index := { documents := [], externalSymbols := [] } }

/-- The first part of `IndexWriter::writeDocument`: the occurrences of forward
declarations are appended to the document.  Occurrences that compare equal are equal, so
that it does not matter that the sort of the source is not stable. -/
def addOccurrences (forwardDeclOccurenceMap : ForwardDeclOccurrenceMap) (doc : Document)
    (deterministic : Bool) : Document :=
  match forwardDeclOccurenceMap.lookup doc.relativePath with
  | none => doc
  | some fwdDeclOccs =>
      let occurrences := doc.occurrences ++ fwdDeclOccs.map ForwardDeclOccurrence.addTo
      { doc with
        occurrences :=
          if deterministic then
            occurrences.mergeSort fun lhs rhs => (compareOccurrences lhs rhs).isLE
          else occurrences }

/-- `IndexWriter::writeDocument`. -/
def writeDocument (writer : IndexWriter) (doc : Document) (deterministic : Bool) : IndexWriter :=
  let doc := addOccurrences writer.forwardDeclOccurenceMap doc deterministic
  write { writer with
    index := { writer.index with documents := writer.index.documents ++ [doc] } }

/-- `IndexWriter::writeExternalSymbol`: flushes after 1024 symbols. -/
def writeExternalSymbol (writer : IndexWriter) (symbolInfo : SymbolInformation) : IndexWriter :=
  let externalSymbols := writer.index.externalSymbols ++ [symbolInfo]
  let writer := { writer with index := { writer.index with externalSymbols := externalSymbols } }
  if externalSymbols.length % 1024 = 0 then writer.write else writer

end IndexWriter

namespace IndexBuilder

/-- What becomes of the entry of a path in `IndexBuilder::addDocument`. -/
def documentEntry (doc : Document) : Option DocumentBuilder → DocumentBuilder
  | none => .ofDocument doc
  | some docBuilder => docBuilder.merge doc

/-- `IndexBuilder::addDocument`. -/
def addDocument (builder : IndexBuilder) (doc : Document) (isMultiplyIndexed : Bool) :
    IndexBuilder :=
  if isMultiplyIndexed then
    { builder with
      multiplyIndexed :=
        upsert builder.multiplyIndexed doc.relativePath (documentEntry doc) }
  else
    { builder with documents := builder.documents ++ [doc] }

/-- `IndexBuilder::addExternalSymbolUnchecked`: `emplace` keeps an entry that exists. -/
def addExternalSymbolUnchecked (builder : IndexBuilder) (name : Str)
    (extSym : SymbolInformation) : IndexBuilder :=
  let rels := extSym.relationships.foldl (insertBy compareRelationships) []
  if name ∈ builder.externalSymbols then builder
  else
    { builder with
      externalSymbols :=
        builder.externalSymbols.insert name (.ofParts name extSym.documentation rels) }

/-- `IndexBuilder::addExternalSymbol`. -/
def addExternalSymbol (builder : IndexBuilder) (extSym : SymbolInformation) : IndexBuilder :=
  let name := extSym.symbol
  match builder.externalSymbols.lookup name with
  | none => builder.addExternalSymbolUnchecked name extSym
  | some symbolInfoBuilder =>
      let symbolInfoBuilder :=
        if !hasDocumentation symbolInfoBuilder.documentation ∧ 0 < extSym.documentation.length then
          symbolInfoBuilder.setDocumentation extSym.documentation
        else symbolInfoBuilder
      { builder with
        externalSymbols := builder.externalSymbols.insert name
          (symbolInfoBuilder.mergeRelationships extSym.relationships) }

/-- The documents that `IndexBuilder::finish` takes out of `multiplyIndexed`. -/
def finishedDocuments (builder : IndexBuilder) (order : IterationOrder Table)
    (deterministic : Bool) : List Document :=
  (extract order .multiplyIndexed deterministic (fun p1 p2 => compareStrings p1.1 p2.1)
    builder.multiplyIndexed.entries).map fun entry => entry.2.finish order deterministic

/-- The symbols that `IndexBuilder::finish` takes out of `externalSymbols`. -/
def finishedExternalSymbols (builder : IndexBuilder) (order : IterationOrder Table)
    (deterministic : Bool) : List SymbolInformation :=
  (extract order .externalSymbols deterministic (fun p1 p2 => compareStrings p1.1 p2.1)
    builder.externalSymbols.entries).map fun entry =>
      entry.2.finish order none deterministic { symbol := entry.1 }

/-- `IndexBuilder::finish`: the messages on the output stream once the destructor of the
writer has run. -/
def finish (builder : IndexBuilder) (order : IterationOrder Table) (deterministic : Bool) :
    List Index :=
  let writer : IndexWriter := { forwardDeclOccurenceMap := builder.forwardDeclOccurenceMap }
  let writer := builder.documents.foldl (·.writeDocument · deterministic) writer
  let writer := (builder.finishedDocuments order deterministic).foldl
    (·.writeDocument · deterministic) writer
  let writer := (builder.finishedExternalSymbols order deterministic).foldl
    IndexWriter.writeExternalSymbol writer
  writer.write.output

end IndexBuilder

/-! ## What a builder collects -/

/-- The documentation kept of several inputs for one symbol: that of the first one that has
documentation, and that of the last one if there is none. -/
def chosenDocumentation (inputs : List SymbolInformation) : List Str :=
  match inputs.find? fun symbolInfo => hasDocumentation symbolInfo.documentation with
  | some symbolInfo => symbolInfo.documentation
  | none => (inputs.getLast?.map SymbolInformation.documentation).getD []

theorem hasDocumentation_chosenDocumentation (inputs : List SymbolInformation) :
    hasDocumentation (chosenDocumentation inputs) =
      inputs.any fun symbolInfo => hasDocumentation symbolInfo.documentation := by
  unfold chosenDocumentation
  cases hfind : inputs.find? fun symbolInfo => hasDocumentation symbolInfo.documentation with
  | some symbolInfo =>
      have hdocs := List.find?_some hfind
      have hany : (inputs.any fun symbolInfo => hasDocumentation symbolInfo.documentation) = true :=
        List.any_eq_true.mpr ⟨symbolInfo, List.mem_of_find?_eq_some hfind, hdocs⟩
      rw [hany]
      exact hdocs
  | none =>
      rw [List.find?_eq_none] at hfind
      have hany : (inputs.any fun symbolInfo => hasDocumentation symbolInfo.documentation) =
          false := by
        simpa using hfind
      rw [hany]
      cases hlast : inputs.getLast? with
      | none => rfl
      | some symbolInfo =>
          simpa using hfind symbolInfo (List.mem_of_getLast? hlast)

/-- The rule by which a builder takes documentation from one more input. -/
theorem chosenDocumentation_concat (inputs : List SymbolInformation)
    (symbolInfo : SymbolInformation) :
    chosenDocumentation (inputs ++ [symbolInfo]) =
      if hasDocumentation (chosenDocumentation inputs) then chosenDocumentation inputs
      else symbolInfo.documentation := by
  rw [hasDocumentation_chosenDocumentation]
  cases hfind : inputs.find? fun symbolInfo => hasDocumentation symbolInfo.documentation with
  | some found =>
      have hdocs := List.find?_some hfind
      have hany : (inputs.any fun symbolInfo => hasDocumentation symbolInfo.documentation) = true :=
        List.any_eq_true.mpr ⟨found, List.mem_of_find?_eq_some hfind, hdocs⟩
      simp only [chosenDocumentation, List.find?_append, hfind, hany, if_true, Option.some_or]
  | none =>
      have hany : (inputs.any fun symbolInfo => hasDocumentation symbolInfo.documentation) =
          false := by
        simpa using List.find?_eq_none.mp hfind
      simp only [chosenDocumentation, List.find?_append, hfind, hany, Option.none_or]
      by_cases hdocs : hasDocumentation symbolInfo.documentation
      · simp [hdocs]
      · simp [hdocs]

/-- The builder of a symbol after the inputs for this symbol were merged into it. -/
structure SymbolInformationBuilder.Collects (builder : SymbolInformationBuilder) (name : Str)
    (inputs : List SymbolInformation) : Prop where
  name_eq : builder.name = name
  documentation_eq : builder.documentation = chosenDocumentation inputs
  relationships_nodup : builder.relationships.Nodup
  mem_relationships : ∀ relationship, relationship ∈ builder.relationships ↔
    ∃ symbolInfo ∈ inputs, relationship ∈ symbolInfo.relationships

namespace DocumentBuilder

theorem collects_mergeEntry_none (symbolInfo : SymbolInformation) :
    (mergeEntry symbolInfo none).Collects symbolInfo.symbol [symbolInfo] where
  name_eq := rfl
  documentation_eq := by
    by_cases hdocs : hasDocumentation symbolInfo.documentation
    · simp [mergeEntry, SymbolInformationBuilder.ofParts, chosenDocumentation, hdocs,
        SymbolInformationBuilder.mergeRelationships, SymbolInformationBuilder.setDocumentation]
    · simp [mergeEntry, SymbolInformationBuilder.ofParts, chosenDocumentation, hdocs,
        SymbolInformationBuilder.mergeRelationships, SymbolInformationBuilder.setDocumentation]
  relationships_nodup := nodup_foldl_insertBy List.nodup_nil
  mem_relationships := by
    intro relationship
    rw [mergeEntry, SymbolInformationBuilder.ofParts, SymbolInformationBuilder.mergeRelationships,
      mem_foldl_insertBy]
    simp [SymbolInformationBuilder.setDocumentation]

theorem collects_mergeEntry_some {builder : SymbolInformationBuilder} {name : Str}
    {inputs : List SymbolInformation} (h : builder.Collects name inputs)
    (symbolInfo : SymbolInformation) :
    (mergeEntry symbolInfo (some builder)).Collects name (inputs ++ [symbolInfo]) where
  name_eq := by
    rw [← h.name_eq]
    unfold mergeEntry
    dsimp only
    split <;> rfl
  documentation_eq := by
    rw [chosenDocumentation_concat, ← h.documentation_eq]
    unfold mergeEntry
    dsimp only
    split <;> rfl
  relationships_nodup := nodup_foldl_insertBy <| by
    split <;> exact h.relationships_nodup
  mem_relationships := by
    intro relationship
    have hold : ∀ b : SymbolInformationBuilder, (b = builder ∨
        b = builder.setDocumentation symbolInfo.documentation) →
        (relationship ∈ (b.mergeRelationships symbolInfo.relationships).relationships ↔
          relationship ∈ builder.relationships ∨ relationship ∈ symbolInfo.relationships) := by
      rintro b (rfl | rfl) <;>
        exact mem_foldl_insertBy
    have hmem : relationship ∈ (mergeEntry symbolInfo (some builder)).relationships ↔
        relationship ∈ builder.relationships ∨ relationship ∈ symbolInfo.relationships := by
      unfold mergeEntry
      dsimp only
      split
      · exact hold _ (.inl rfl)
      · exact hold _ (.inr rfl)
    rw [hmem, h.mem_relationships]
    simp [or_and_right, exists_or]

/-- The entry of a symbol after all inputs for it. -/
theorem foldl_mergeEntry_collects {name : Str} {inputs : List SymbolInformation}
    (hname : ∀ symbolInfo ∈ inputs, symbolInfo.symbol = name) (hne : inputs ≠ []) :
    ∃ builder, inputs.foldl (fun old symbolInfo => some (mergeEntry symbolInfo old)) none =
        some builder ∧ builder.Collects name inputs := by
  induction inputs using List.reverseRecOn with
  | nil => exact absurd rfl hne
  | append_singleton inputs symbolInfo ih =>
      rw [List.foldl_append]
      rcases List.eq_nil_or_concat inputs with rfl | hcons
      · have hsymbol := hname symbolInfo (by simp)
        subst hsymbol
        exact ⟨_, rfl, collects_mergeEntry_none symbolInfo⟩
      · have hinputs : inputs ≠ [] := by
          obtain ⟨init, last, rfl⟩ := hcons
          simp
        obtain ⟨builder, hfold, hcollects⟩ :=
          ih (fun s hs => hname s (List.mem_append_left _ hs)) hinputs
        rw [hfold]
        exact ⟨_, rfl, collects_mergeEntry_some hcollects symbolInfo⟩

/-- The occurrences and symbols of a builder after one document after the other was merged
into it. -/
theorem foldl_merge (docs : List Document) (builder : DocumentBuilder) :
    docs.foldl merge builder =
      { soFar := builder.soFar
        occurrences := (docs.flatMap Document.occurrences).foldl (insertBy compareOccurrences)
          builder.occurrences
        symbolInfos := (docs.flatMap Document.symbols).foldl mergeSymbol builder.symbolInfos } := by
  induction docs generalizing builder with
  | nil => rfl
  | cons doc docs ih =>
      rw [List.foldl_cons, ih]
      simp only [merge, List.flatMap_cons, List.foldl_append]

/-- The inputs for one symbol in a list of documents. -/
def symbolInputs (docs : List Document) (name : Str) : List SymbolInformation :=
  (docs.flatMap Document.symbols).filter fun symbolInfo => symbolInfo.symbol = name

theorem symbol_of_mem_symbolInputs {docs : List Document} {name : Str}
    {symbolInfo : SymbolInformation} (h : symbolInfo ∈ symbolInputs docs name) :
    symbolInfo.symbol = name := by
  simpa using (List.mem_filter.mp h).2

/-- The builder that a nonempty list of documents was merged into. -/
structure MergedFrom (builder : DocumentBuilder) (docs : List Document) : Prop where
  soFar_eq : docs.head?.map (fun first =>
    ({ language := first.language, relativePath := first.relativePath } : Document)) =
      some builder.soFar
  occurrences_nodup : builder.occurrences.Nodup
  mem_occurrences : ∀ occ, occ ∈ builder.occurrences ↔ ∃ doc ∈ docs, occ ∈ doc.occurrences
  lookup_eq_none : ∀ name, builder.symbolInfos.lookup name = none ↔ symbolInputs docs name = []
  lookup_collects : ∀ name symbolInfoBuilder,
    builder.symbolInfos.lookup name = some symbolInfoBuilder →
      symbolInfoBuilder.Collects name (symbolInputs docs name)

/-- **What a document builder holds.** -/
theorem merged_spec (first : Document) (docs : List Document) :
    (docs.foldl merge (ofDocument first)).MergedFrom (first :: docs) := by
  have hfold : docs.foldl merge (ofDocument first) =
      (first :: docs).foldl merge
        { soFar := { language := first.language, relativePath := first.relativePath } } := rfl
  have hlookup : ∀ name, ((first :: docs).foldl merge
      { soFar := { language := first.language, relativePath := first.relativePath } :
        DocumentBuilder }).symbolInfos.lookup name =
      (symbolInputs (first :: docs) name).foldl
        (fun old symbolInfo => some (mergeEntry symbolInfo old)) none := by
    intro name
    rw [foldl_merge]
    exact lookup_foldl_upsert SymbolInformation.symbol mergeEntry _ ∅ name
  rw [hfold]
  constructor
  case soFar_eq => rw [foldl_merge]; rfl
  case occurrences_nodup =>
    rw [foldl_merge]
    exact nodup_foldl_insertBy List.nodup_nil
  case mem_occurrences =>
    intro occ
    rw [foldl_merge, mem_foldl_insertBy, List.mem_flatMap]
    simp
  case lookup_eq_none =>
    intro name
    rw [hlookup]
    constructor
    · intro hnone
      by_contra hne
      obtain ⟨builder, hsome, -⟩ :=
        foldl_mergeEntry_collects (fun _ => symbol_of_mem_symbolInputs) hne
      rw [hsome] at hnone
      cases hnone
    · intro hnil
      rw [hnil]
      rfl
  case lookup_collects =>
    intro name symbolInfoBuilder hsome
    rw [hlookup] at hsome
    have hne : symbolInputs (first :: docs) name ≠ [] := by
      intro hnil
      rw [hnil] at hsome
      cases hsome
    obtain ⟨builder, hbuilder, hcollects⟩ :=
      foldl_mergeEntry_collects (fun _ => symbol_of_mem_symbolInputs) hne
    obtain rfl : builder = symbolInfoBuilder := Option.some.inj (hbuilder.symm.trans hsome)
    exact hcollects

end DocumentBuilder

/-! ## What is written -/

namespace IndexWriter

/-- Everything written so far together with what waits to be written. -/
def written (writer : IndexWriter) : Index := concatenate (writer.output ++ [writer.index])

theorem written_write (writer : IndexWriter) : writer.write.written = writer.written := by
  simp [written, write, concatenate]

theorem written_writeDocument (writer : IndexWriter) (doc : Document) (deterministic : Bool) :
    (writer.writeDocument doc deterministic).written =
      { writer.written with
        documents := writer.written.documents ++
          [addOccurrences writer.forwardDeclOccurenceMap doc deterministic] } := by
  simp [writeDocument, written, concatenate, write]

theorem written_writeExternalSymbol (writer : IndexWriter) (symbolInfo : SymbolInformation) :
    (writer.writeExternalSymbol symbolInfo).written =
      { writer.written with
        externalSymbols := writer.written.externalSymbols ++ [symbolInfo] } := by
  have hpending : written { writer with
      index := { writer.index with
        externalSymbols := writer.index.externalSymbols ++ [symbolInfo] } } =
      { writer.written with
        externalSymbols := writer.written.externalSymbols ++ [symbolInfo] } := by
    simp [written, concatenate]
  unfold writeExternalSymbol
  dsimp only
  -- a flush moves symbols from the pending message to the output
  split
  · rw [written_write, hpending]
  · exact hpending

theorem forwardDeclOccurenceMap_foldl_writeDocument (docs : List Document) (deterministic : Bool)
    (writer : IndexWriter) :
    (docs.foldl (·.writeDocument · deterministic) writer).forwardDeclOccurenceMap =
      writer.forwardDeclOccurenceMap := by
  induction docs generalizing writer with
  | nil => rfl
  | cons doc docs ih =>
      rw [List.foldl_cons, ih]
      rfl

theorem written_foldl_writeDocument (docs : List Document) (deterministic : Bool)
    (writer : IndexWriter) :
    (docs.foldl (·.writeDocument · deterministic) writer).written =
      { writer.written with
        documents := writer.written.documents ++
          docs.map (addOccurrences writer.forwardDeclOccurenceMap · deterministic) } := by
  induction docs generalizing writer with
  | nil => simp
  | cons doc docs ih =>
      rw [List.foldl_cons, ih, written_writeDocument]
      simp [writeDocument, write]

theorem written_foldl_writeExternalSymbol (symbolInfos : List SymbolInformation)
    (writer : IndexWriter) :
    (symbolInfos.foldl writeExternalSymbol writer).written =
      { writer.written with
        externalSymbols := writer.written.externalSymbols ++ symbolInfos } := by
  induction symbolInfos generalizing writer with
  | nil => simp
  | cons symbolInfo symbolInfos ih =>
      rw [List.foldl_cons, ih, written_writeExternalSymbol]
      simp

end IndexWriter

namespace IndexBuilder

/-- **What the written messages concatenate to.** -/
theorem concatenate_finish (builder : IndexBuilder) (order : IterationOrder Table)
    (deterministic : Bool) :
    concatenate (builder.finish order deterministic) =
      { documents := (builder.documents ++ builder.finishedDocuments order deterministic).map
          (IndexWriter.addOccurrences builder.forwardDeclOccurenceMap · deterministic)
        externalSymbols := builder.finishedExternalSymbols order deterministic } := by
  have hdestructor : ∀ writer : IndexWriter, concatenate writer.write.output = writer.written :=
    fun _ => rfl
  simp only [finish]
  rw [hdestructor, IndexWriter.written_foldl_writeExternalSymbol,
    IndexWriter.written_foldl_writeDocument, IndexWriter.written_foldl_writeDocument,
    IndexWriter.forwardDeclOccurenceMap_foldl_writeDocument]
  simp [IndexWriter.written, concatenate]

end IndexBuilder

end ScipClang
