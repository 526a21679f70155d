import ScipClang.Scip.Builders

/-!
# The orders and hashes of occurrences and relationships

`OccurrenceExt` and `RelationshipExt` (`indexer/ScipExtras.h`) are kept in hash sets, which
are sorted before they are written.  Both operations rely on a comparison, the sets on a
hash in addition; comparison and hash are written by hand, field by field.

* `Occurrence.isHashedOrder`, `Relationship.isHashedOrder`: the comparisons are strict total
  orders and go with the hashes.
* `occurrences_sorted_uniquely`: the order in which occurrences are written does not depend
  on the order in which they come.
-/

namespace ScipClang

open HashTables

/-! ## The hashes -/

/-- One argument of `H::combine`. -/
inductive HashInput where
  | int (value : Int32)
  | bool (value : Bool)
  | string (value : Str)
deriving DecidableEq

/-- `AbslHashValue` of a `RelationshipExt`: what is combined, in order. -/
def Relationship.abslHashValue (r : Relationship) : List HashInput :=
  [.string r.symbol, .bool r.isDefinition, .bool r.isReference, .bool r.isTypeDefinition,
    .bool r.isImplementation]

/-- The part of a diagnostic in `AbslHashValue`. -/
def Diagnostic.abslHashValue (d : Diagnostic) : List HashInput :=
  HashInput.int d.severity :: HashInput.string d.code :: HashInput.string d.message ::
    HashInput.string d.source :: d.tags.map HashInput.int

/-- `AbslHashValue` of an `OccurrenceExt`: what is combined, in order. -/
def Occurrence.abslHashValue (occ : Occurrence) : List HashInput :=
  occ.range.values.map HashInput.int ++
    HashInput.string occ.symbol :: HashInput.int occ.symbolRoles ::
      (occ.overrideDocumentation.map HashInput.string ++
        HashInput.int occ.syntaxKind :: occ.diagnostics.flatMap Diagnostic.abslHashValue)

/-! ## The orders -/

theorem Relationship.isHashedOrder :
    IsHashedOrder compareRelationships Relationship.abslHashValue :=
  HashTables.isHashedOrder compareRelationships Relationship.abslHashValue

theorem Occurrence.isHashedOrder : IsHashedOrder compareOccurrences Occurrence.abslHashValue :=
  HashTables.isHashedOrder compareOccurrences Occurrence.abslHashValue

/-- `IndexWriter::writeDocument` sorts the occurrences of a document that gets more of them. -/
theorem IndexWriter.isSortOf_addOccurrences {forwardDeclOccurenceMap : ForwardDeclOccurrenceMap}
    {doc : Document} {fwdDeclOccs : List ForwardDeclOccurrence}
    (hlookup : forwardDeclOccurenceMap.lookup doc.relativePath = some fwdDeclOccs) :
    IsSortOf compareOccurrences
      (doc.occurrences ++ fwdDeclOccs.map ForwardDeclOccurrence.addTo)
      (addOccurrences forwardDeclOccurenceMap doc true).occurrences := by
  rw [addOccurrences, hlookup]
  exact isSortOf_mergeSort compareOccurrences _

/-- **The orders of occurrences and relationships are strict, total and compatible with the
hashes**, and so there is one way only to sort occurrences, in `writeDocument` and in
`extractTransform`. -/
theorem occurrences_sorted_uniquely :
    IsHashedOrder compareOccurrences Occurrence.abslHashValue ∧
      IsHashedOrder compareRelationships Relationship.abslHashValue ∧
      (∀ occurrences occurrences' sorted sorted' : List Occurrence,
        occurrences.Perm occurrences' → IsSortOf compareOccurrences occurrences sorted →
          IsSortOf compareOccurrences occurrences' sorted' → sorted = sorted') ∧
      (∀ forwardDeclOccurenceMap doc fwdDeclOccs,
        forwardDeclOccurenceMap.lookup doc.relativePath = some fwdDeclOccs →
          IsSortOf compareOccurrences
            (doc.occurrences ++ fwdDeclOccs.map ForwardDeclOccurrence.addTo)
            (IndexWriter.addOccurrences forwardDeclOccurenceMap doc true).occurrences) ∧
      ∀ (order : IterationOrder Table) (table : Table) (occurrences : List Occurrence),
        IsSortOf compareOccurrences occurrences
          (extract order table true compareOccurrences occurrences) := by
  refine ⟨Occurrence.isHashedOrder, Relationship.isHashedOrder, ?_, ?_, ?_⟩
  · intro occurrences occurrences' sorted sorted' hperm hsorted hsorted'
    exact Occurrence.isHashedOrder.sorted_unique hperm hsorted hsorted'
  · intro forwardDeclOccurenceMap doc fwdDeclOccs hlookup
    exact IndexWriter.isSortOf_addOccurrences hlookup
  · intro order table occurrences
    exact isSortOf_extract compareOccurrences order table occurrences

/-- An occurrence on one line. -/
def nameOccurrence : Occurrence := { range := ⟨[6, 4, 5], Or.inl rfl⟩, symbol := "f".toList }

/-- An occurrence over two lines that starts at the same place. -/
def bodyOccurrence : Occurrence := { range := ⟨[6, 4, 9, 1], Or.inr rfl⟩, symbol := "f".toList }

/-- An occurrence from a forward declaration. -/
def usedOccurrence : ForwardDeclOccurrence where
  symbol := "g".toList
  range := nameOccurrence.range
  nonneg := by
    show ∀ v ∈ [6, 4, 5], (0 : Int32) ≤ v
    simp

/-- A document with two occurrences. -/
def twoOccurrences : Document where
  relativePath := "a.h".toList
  occurrences := [bodyOccurrence, nameOccurrence]

/-- Occurrences with ranges of different sizes are written in one order, and so are those of a
document that gets another one. -/
theorem occurrences_sorted_uniquely_sizes :
    extract .inOrder (Table.occurrences []) true compareOccurrences
        [bodyOccurrence, nameOccurrence] =
      extract .inOrder (Table.occurrences []) true compareOccurrences
        [nameOccurrence, bodyOccurrence] ∧
      IsSortOf compareOccurrences [bodyOccurrence, nameOccurrence, usedOccurrence.addTo]
        (IndexWriter.addOccurrences (AList.insert twoOccurrences.relativePath [usedOccurrence] ∅)
          twoOccurrences true).occurrences := by
  obtain ⟨-, -, hunique, hwrite, hextract⟩ := occurrences_sorted_uniquely
  exact ⟨hunique _ _ _ _ (List.Perm.swap _ _ _) (hextract _ _ _) (hextract _ _ _),
    hwrite _ twoOccurrences [usedOccurrence] (AList.lookup_insert ∅)⟩

end ScipClang
