import ScipClang.Scip.Resolution

/-!
# Writing the index in a deterministic way

With `deterministic` set, `IndexBuilder::finish` (`indexer/ScipExtras.cc`) sorts whatever it
takes out of a hash table, and it sorts the occurrences of a document again once those of
forward declarations are appended.  What it writes then depends on the contents of the
tables and not on how they are iterated.

* `DocumentBuilder.finish_congr`: the same for the documents with several builders.
* `IndexWriter.addOccurrences_congr` and `IndexWriter.perm_of_addOccurrences_eq`: of the
  occurrences of forward declarations a document keeps what there is, and not its order.
* `IndexBuilder.finish_eq_emitted`: the messages are determined by their concatenation.
-/

namespace ScipClang

open HashTables

/-! ## Symbols and documents -/

theorem SymbolInformationBuilder.finish_congr (builder : SymbolInformationBuilder)
    (order order' : IterationOrder Table) (document : Option Str) (out : SymbolInformation) :
    builder.finish order document true out = builder.finish order' document true out := by
  unfold SymbolInformationBuilder.finish
  rw [extract_congr order order']

namespace DocumentBuilder

/-- Two builders with the same contents, up to the order in which the entries of
`symbolInfos` are listed. -/
structure Alike (builder builder' : DocumentBuilder) : Prop where
  soFar_eq : builder.soFar = builder'.soFar
  occurrences_eq : builder.occurrences = builder'.occurrences
  lookup_eq : ∀ name, builder.symbolInfos.lookup name = builder'.symbolInfos.lookup name

theorem finish_congr {builder builder' : DocumentBuilder} (h : builder.Alike builder')
    (order order' : IterationOrder Table) :
    builder.finish order true = builder'.finish order' true := by
  obtain ⟨hsoFar, hoccurrences, hlookup⟩ := h
  unfold DocumentBuilder.finish
  rw [← hsoFar, ← hoccurrences]
  dsimp only
  rw [@extract_congr _ _ compareOccurrences _ _ order order']
  congr 2
  apply map_extract_congr
  intro name
  rw [hlookup]
  simp only [SymbolInformationBuilder.finish_congr _ order order']

end DocumentBuilder

/-! ## The occurrences of forward declarations -/

namespace IndexWriter

variable {occurrenceMap occurrenceMap' : ForwardDeclOccurrenceMap}

theorem occurrences_addOccurrences_perm (occurrenceMap : ForwardDeclOccurrenceMap)
    (doc : Document) (deterministic : Bool) :
    (addOccurrences occurrenceMap doc deterministic).occurrences.Perm
      (doc.occurrences ++ ((occurrenceMap.lookup doc.relativePath).getD []).map
        ForwardDeclOccurrence.addTo) := by
  unfold addOccurrences
  cases occurrenceMap.lookup doc.relativePath with
  | none => simp
  | some fwdDeclOccs =>
      dsimp only
      split
      · exact List.mergeSort_perm _ _
      · exact List.Perm.refl _

@[simp] theorem relativePath_addOccurrences (occurrenceMap : ForwardDeclOccurrenceMap)
    (doc : Document) (deterministic : Bool) :
    (addOccurrences occurrenceMap doc deterministic).relativePath = doc.relativePath := by
  unfold addOccurrences
  split <;> rfl

@[simp] theorem symbols_addOccurrences (occurrenceMap : ForwardDeclOccurrenceMap)
    (doc : Document) (deterministic : Bool) :
    (addOccurrences occurrenceMap doc deterministic).symbols = doc.symbols := by
  unfold addOccurrences
  split <;> rfl

/-- A document that gets the same occurrences in another order is written alike. -/
theorem addOccurrences_congr {doc : Document}
    (hempty : occurrenceMap.lookup doc.relativePath ≠ some [])
    (hempty' : occurrenceMap'.lookup doc.relativePath ≠ some [])
    (hperm : ((occurrenceMap.lookup doc.relativePath).getD []).Perm
      ((occurrenceMap'.lookup doc.relativePath).getD [])) :
    addOccurrences occurrenceMap doc true =
      addOccurrences occurrenceMap' doc true := by
  unfold addOccurrences
  -- without an entry the occurrences are not sorted again, hence the two assumptions
  cases hlookup : occurrenceMap.lookup doc.relativePath with
  | none =>
      cases hlookup' : occurrenceMap'.lookup doc.relativePath with
      | none => rfl
      | some fwdDeclOccs' =>
          rw [hlookup, hlookup'] at hperm
          exact absurd (hlookup'.trans (congrArg some hperm.nil_eq.symm)) hempty'
  | some fwdDeclOccs =>
      cases hlookup' : occurrenceMap'.lookup doc.relativePath with
      | none =>
          rw [hlookup, hlookup'] at hperm
          exact absurd (hlookup.trans (congrArg some hperm.eq_nil)) hempty
      | some fwdDeclOccs' =>
          rw [hlookup, hlookup'] at hperm
          simp only [Option.getD_some] at hperm
          have hall := (hperm.map ForwardDeclOccurrence.addTo).append_left doc.occurrences
          simp only [if_true]
          rw [mergeSort_isLE_congr hall]

/-- Conversely, the occurrences that were appended can be told from what is written. -/
theorem perm_of_addOccurrences_eq {doc doc' : Document} {deterministic : Bool}
    (hpath : doc.relativePath = doc'.relativePath)
    (hoccurrences : doc.occurrences = doc'.occurrences)
    (h : addOccurrences occurrenceMap doc deterministic =
      addOccurrences occurrenceMap' doc' deterministic) :
    ((occurrenceMap.lookup doc.relativePath).getD []).Perm
      ((occurrenceMap'.lookup doc.relativePath).getD []) := by
  have hinj : Function.Injective ForwardDeclOccurrence.addTo := by
    rintro ⟨symbol, range, hrange⟩ ⟨symbol', range', hrange'⟩ heq
    simp only [ForwardDeclOccurrence.addTo, Occurrence.mk.injEq] at heq
    obtain ⟨rfl, rfl, -⟩ := heq
    rfl
  have hperm := (occurrences_addOccurrences_perm occurrenceMap doc deterministic).symm
  rw [h] at hperm
  have hall := hperm.trans
    (occurrences_addOccurrences_perm occurrenceMap' doc' deterministic)
  rw [← hpath, ← hoccurrences, List.perm_append_left_iff] at hall
  exact (List.map_perm_map_iff hinj).mp hall

theorem foldl_writeDocument (docs : List Document) (deterministic : Bool) (output : List Index) :
    docs.foldl (·.writeDocument · deterministic)
        ({ forwardDeclOccurenceMap := occurrenceMap, output := output } : IndexWriter) =
      { forwardDeclOccurenceMap := occurrenceMap
        output := output ++ docs.map fun doc =>
          { documents := [addOccurrences occurrenceMap doc deterministic] } } := by
  induction docs generalizing output with
  | nil => simp
  | cons doc docs ih =>
      have hstep : writeDocument
          { forwardDeclOccurenceMap := occurrenceMap, output := output } doc
            deterministic =
          { forwardDeclOccurenceMap := occurrenceMap
            output := output ++
              [{ documents := [addOccurrences occurrenceMap doc deterministic] }] } := rfl
      rw [List.foldl_cons, hstep, ih]
      simp

/-- External symbols are written without a look at forward declarations. -/
theorem output_foldl_writeExternalSymbol (symbolInfos : List SymbolInformation)
    {writer writer' : IndexWriter} (hindex : writer.index = writer'.index)
    (houtput : writer.output = writer'.output) :
    (symbolInfos.foldl writeExternalSymbol writer).write.output =
      (symbolInfos.foldl writeExternalSymbol writer').write.output := by
  induction symbolInfos generalizing writer writer' with
  | nil =>
      simp only [List.foldl_nil, write]
      rw [hindex, houtput]
  | cons symbolInfo symbolInfos ih =>
      apply ih
      · simp only [writeExternalSymbol, hindex]
        split <;> rfl
      · simp only [writeExternalSymbol, hindex]
        split
        · simp only [write, houtput]
        · exact houtput

end IndexWriter

/-! ## The whole index -/

/-- The messages in which `IndexBuilder::finish` writes an index: every document is a message
of its own, followed by the external symbols in batches. -/
def emitted (index : Index) : List Index :=
  let writer : IndexWriter :=
    { forwardDeclOccurenceMap := ∅
      output := index.documents.map fun doc => { documents := [doc] } }
  (index.externalSymbols.foldl IndexWriter.writeExternalSymbol writer).write.output

namespace IndexBuilder

/-- **The messages are determined by what they concatenate to.** -/
theorem finish_eq_emitted (builder : IndexBuilder) (order : IterationOrder Table)
    (deterministic : Bool) :
    builder.finish order deterministic =
      emitted (concatenate (builder.finish order deterministic)) := by
  rw [concatenate_finish]
  unfold finish emitted
  dsimp only
  rw [IndexWriter.foldl_writeDocument, IndexWriter.foldl_writeDocument]
  apply IndexWriter.output_foldl_writeExternalSymbol
  · rfl
  · simp [Function.comp_def]

theorem finishedDocuments_congr {builder builder' : IndexBuilder}
    {order order' : IterationOrder Table}
    (h : ∀ path, (builder.multiplyIndexed.lookup path).map (·.finish order true) =
      (builder'.multiplyIndexed.lookup path).map (·.finish order' true)) :
    builder.finishedDocuments order true = builder'.finishedDocuments order' true :=
  map_extract_congr order order' .multiplyIndexed h

theorem finishedExternalSymbols_congr {builder builder' : IndexBuilder}
    (h : ∀ name, builder.externalSymbols.lookup name = builder'.externalSymbols.lookup name)
    (order order' : IterationOrder Table) :
    builder.finishedExternalSymbols order true = builder'.finishedExternalSymbols order' true := by
  apply map_extract_congr
  intro name
  rw [h]
  simp only [SymbolInformationBuilder.finish_congr _ order order']

end IndexBuilder

end ScipClang
