import ScipClang.Path
import ScipClang.Library.HashTables

/-!
# SCIP messages and their comparison

The Protobuf messages of SCIP, with the fields that the indexer sets, and the
comparison functions of `indexer/ScipExtras.cc` that stand behind the hash sets of
occurrences and relationships: two elements are the same if they compare equal
(`DERIVE_EQ_VIA_CMP`).

The range of an occurrence has three or four elements, which the comparison relies on;
`ScipRange` carries this as a field.  Where a forward declaration is referred to, the
positions count from zero (`ForwardDeclReference`).
-/

namespace ScipClang

open HashTables

/-- `cmp::compareStrings`: the shorter string comes first, strings of the same length are
compared byte by byte. -/
def compareStrings (s₁ s₂ : Str) : Ordering :=
  (compare s₁.length s₂.length).then (List.compareLex compare s₁ s₂)

/-- `cmp::compareRange` with a comparison for the elements: sizes first. -/
def compareRange {α : Type} (cmp : α → α → Ordering) (c₁ c₂ : List α) : Ordering :=
  (compare c₁.length c₂.length).then (List.compareLex cmp c₁ c₂)

instance {α : Type} (cmp : α → α → Ordering) [Std.LawfulEqCmp cmp] :
    Std.LawfulEqCmp (compareRange cmp) where
  compare_self {c} := by
    simp [compareRange, Std.ReflCmp.compare_self]
  eq_of_compare {c₁ c₂} h := by
    rw [compareRange, Ordering.then_eq_eq] at h
    exact Std.LawfulEqCmp.compare_eq_iff_eq.mp h.2

instance {α : Type} (cmp : α → α → Ordering) [Std.TransCmp cmp] :
    Std.TransCmp (compareRange cmp) :=
  inferInstanceAs (Std.TransCmp (compareLex (compareOn List.length) (List.compareLex cmp)))

instance : Std.TransCmp compareStrings :=
  inferInstanceAs (Std.TransCmp (compareRange (compare : Char → Char → Ordering)))

instance : Std.LawfulEqCmp compareStrings :=
  inferInstanceAs (Std.LawfulEqCmp (compareRange (compare : Char → Char → Ordering)))

/-- A source range: start line, start column, and the end on the same or on another line. -/
structure ScipRange where
  values : List Int32
  length_eq : values.length = 3 ∨ values.length = 4
deriving DecidableEq

/-- `scip::Relationship`. -/
structure Relationship where
  symbol : Str := []
  isReference : Bool := false
  isImplementation : Bool := false
  isTypeDefinition : Bool := false
  isDefinition : Bool := false
deriving DecidableEq

/-- `scip::SymbolInformation`. -/
structure SymbolInformation where
  symbol : Str := []
  documentation : List Str := []
  relationships : List Relationship := []
deriving DecidableEq

/-- `scip::Diagnostic`. -/
structure Diagnostic where
  severity : Int32
  code : Str
  message : Str
  source : Str
  tags : List Int32
deriving DecidableEq

/-- `scip::Occurrence`. -/
structure Occurrence where
  range : ScipRange
  symbol : Str
  symbolRoles : Int32 := 0
  overrideDocumentation : List Str := []
  syntaxKind : Int32 := 0
  diagnostics : List Diagnostic := []
deriving DecidableEq

/-- `scip::Document`. -/
structure Document where
  language : Str := []
  relativePath : Str
  occurrences : List Occurrence := []
  symbols : List SymbolInformation := []
deriving DecidableEq

/-- `scip::Index`, without the metadata that the driver writes on its own. -/
@[ext]
structure Index where
  documents : List Document := []
  externalSymbols : List SymbolInformation := []
deriving DecidableEq

/-- `scip::ForwardDecl::Reference`. -/
structure ForwardDeclReference where
  range : ScipRange
  relativePath : Str
  nonneg : ∀ v ∈ range.values, 0 ≤ v
deriving DecidableEq

/-- `scip::ForwardDecl`. -/
structure ForwardDecl where
  suffix : Str
  documentation : Str := []
  references : List ForwardDeclReference := []
deriving DecidableEq

/-- `scip::compareRelationships`. -/
def compareRelationships (lhs rhs : Relationship) : Ordering :=
  (compare lhs.isDefinition rhs.isDefinition).then <|
  (compare lhs.isReference rhs.isReference).then <|
  (compare lhs.isTypeDefinition rhs.isTypeDefinition).then <|
  (compare lhs.isImplementation rhs.isImplementation).then <|
  compareStrings lhs.symbol rhs.symbol

/-- `scip::compareScipRange`. -/
def compareScipRange (a b : ScipRange) : Ordering :=
  (compare (a.values.getD 0 0) (b.values.getD 0 0)).then <|
  (compare (a.values.getD 1 0) (b.values.getD 1 0)).then <|
  (compare a.values.length b.values.length).then <|
  (compare (a.values.getD 2 0) (b.values.getD 2 0)).then <|
  if a.values.length = 3 then .eq
  else compare (a.values.getD 3 0) (b.values.getD 3 0)

/-- The comparison of diagnostics inside `compareOccurrences`. -/
def compareDiagnostics (d₁ d₂ : Diagnostic) : Ordering :=
  (compare d₁.severity d₂.severity).then <|
  (compareStrings d₁.code d₂.code).then <|
  (compareStrings d₁.message d₂.message).then <|
  (compareStrings d₁.source d₂.source).then <|
  compareRange compare d₁.tags d₂.tags

/-- `scip::compareOccurrences`. -/
def compareOccurrences (lhs rhs : Occurrence) : Ordering :=
  (compareScipRange lhs.range rhs.range).then <|
  (compareStrings lhs.symbol rhs.symbol).then <|
  (compare lhs.symbolRoles rhs.symbolRoles).then <|
  (compare lhs.syntaxKind rhs.syntaxKind).then <|
  (compareRange compareStrings lhs.overrideDocumentation rhs.overrideDocumentation).then <|
  compareRange compareDiagnostics lhs.diagnostics rhs.diagnostics

/-! ## Only equal messages compare equal -/

instance : Std.LawfulEqCmp compareRelationships where
  compare_self {r} := by
    simp [compareRelationships, Std.ReflCmp.compare_self]
  eq_of_compare {r₁ r₂} h := by
    simp only [compareRelationships, Ordering.then_eq_eq, Std.LawfulEqCmp.compare_eq_iff_eq] at h
    obtain ⟨hdef, href, htype, himpl, hsymbol⟩ := h
    cases r₁
    cases r₂
    simp_all

instance : Std.LawfulEqCmp compareScipRange where
  compare_self {a} := by
    simp [compareScipRange]
  eq_of_compare {a b} h := by
    simp only [compareScipRange, Ordering.then_eq_eq, Std.LawfulEqCmp.compare_eq_iff_eq] at h
    obtain ⟨h0, h1, hlen, h2, h3⟩ := h
    obtain ⟨as, ha⟩ := a
    obtain ⟨bs, hb⟩ := b
    simp only [ScipRange.mk.injEq]
    refine List.ext_getElem hlen ?_
    intro i hi hi'
    have hget : as.getD i 0 = bs.getD i 0 := by
      rcases ha with ha | ha
      · simp only [ha] at hi
        interval_cases i
        · exact h0
        · exact h1
        · exact h2
      · simp only [ha] at hi
        rw [if_neg (by simp [ha]), Std.LawfulEqCmp.compare_eq_iff_eq] at h3
        interval_cases i
        · exact h0
        · exact h1
        · exact h2
        · exact h3
    simpa [List.getD_eq_getElem?_getD, hi, hi'] using hget

instance : Std.LawfulEqCmp compareDiagnostics where
  compare_self {d} := by
    simp [compareDiagnostics, Std.ReflCmp.compare_self]
  eq_of_compare {d₁ d₂} h := by
    simp only [compareDiagnostics, Ordering.then_eq_eq, Std.LawfulEqCmp.compare_eq_iff_eq] at h
    obtain ⟨hseverity, hcode, hmessage, hsource, htags⟩ := h
    cases d₁
    cases d₂
    simp_all

instance : Std.LawfulEqCmp compareOccurrences where
  compare_self {o} := by
    simp [compareOccurrences, Std.ReflCmp.compare_self]
  eq_of_compare {o₁ o₂} h := by
    simp only [compareOccurrences, Ordering.then_eq_eq, Std.LawfulEqCmp.compare_eq_iff_eq] at h
    obtain ⟨hrange, hsymbol, hroles, hsyntax, hdocs, hdiagnostics⟩ := h
    cases o₁
    cases o₂
    simp_all

/-! ## The comparisons are orders -/

instance : Std.TransCmp compareRelationships :=
  transCmp_then (transCmp_comap compare Relationship.isDefinition) <|
  transCmp_then (transCmp_comap compare Relationship.isReference) <|
  transCmp_then (transCmp_comap compare Relationship.isTypeDefinition) <|
  transCmp_then (transCmp_comap compare Relationship.isImplementation) <|
  transCmp_comap compareStrings Relationship.symbol

/-- A range without a fourth element may be read as one that ends with zero. -/
theorem compareScipRange_eq :
    compareScipRange = fun a b =>
      (compare (a.values.getD 0 0) (b.values.getD 0 0)).then <|
      (compare (a.values.getD 1 0) (b.values.getD 1 0)).then <|
      (compare a.values.length b.values.length).then <|
      (compare (a.values.getD 2 0) (b.values.getD 2 0)).then <|
      compare (a.values.getD 3 0) (b.values.getD 3 0) := by
  funext a b
  unfold compareScipRange
  congr 2
  cases hlength : compare a.values.length b.values.length with
  | lt => rfl
  | gt => rfl
  | eq =>
      have hsame := Std.LawfulEqCmp.eq_of_compare hlength
      have hpadded : ∀ values : List Int32, values.length = 3 → values.getD 3 0 = 0 := by
        intro values hvalues
        rw [List.getD_eq_getElem?_getD, List.getElem?_eq_none (by omega), Option.getD_none]
      congr 2
      split
      · rename_i hthree
        rw [hpadded _ hthree, hpadded _ (hsame ▸ hthree)]
        rfl
      · rfl

instance : Std.TransCmp compareScipRange := by
  rw [compareScipRange_eq]
  exact
    transCmp_then (transCmp_comap compare fun a : ScipRange => a.values.getD 0 0) <|
    transCmp_then (transCmp_comap compare fun a : ScipRange => a.values.getD 1 0) <|
    transCmp_then (transCmp_comap compare fun a : ScipRange => a.values.length) <|
    transCmp_then (transCmp_comap compare fun a : ScipRange => a.values.getD 2 0) <|
    transCmp_comap compare fun a : ScipRange => a.values.getD 3 0

instance : Std.TransCmp compareDiagnostics :=
  transCmp_then (transCmp_comap compare Diagnostic.severity) <|
  transCmp_then (transCmp_comap compareStrings Diagnostic.code) <|
  transCmp_then (transCmp_comap compareStrings Diagnostic.message) <|
  transCmp_then (transCmp_comap compareStrings Diagnostic.source) <|
  transCmp_comap (compareRange compare) Diagnostic.tags

instance : Std.TransCmp compareOccurrences :=
  transCmp_then (transCmp_comap compareScipRange Occurrence.range) <|
  transCmp_then (transCmp_comap compareStrings Occurrence.symbol) <|
  transCmp_then (transCmp_comap compare Occurrence.symbolRoles) <|
  transCmp_then (transCmp_comap compare Occurrence.syntaxKind) <|
  transCmp_then (transCmp_comap (compareRange compareStrings) Occurrence.overrideDocumentation) <|
  transCmp_comap (compareRange compareDiagnostics) Occurrence.diagnostics

end ScipClang
