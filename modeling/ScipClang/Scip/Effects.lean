import ScipClang.Scip.Finish

/-!
# What forward declarations leave in a builder

`Scip.Resolution` follows the names that forward declarations resolve to.  This file follows
the rest of the builder: the documentation that they attach to a symbol, the external
symbols that they add, document and drop, and the table of occurrences.

* `IndexBuilder.addForwardDeclaration_cases`: everything that a call may do.
* `IndexBuilder.BuildersInv`: the builders of documents after a sequence of calls, in terms
  of the pointers that the resolver holds.
* `IndexBuilder.lockstep_addForwardDeclarations`: two sequences of calls that only differ in
  which builder a suffix leads to have the same effect on everything else.
-/

namespace ScipClang

open HashTables

namespace IndexBuilder

variable {builder builder' : IndexBuilder} {resolver resolver' : ForwardDeclResolver}
  {order : IterationOrder Table} {forwardDecl : ForwardDecl}

/-! ## The cases of a call -/

/-- Documentation is written through a pointer unless it is empty. -/
def writeDocumentation (builder : IndexBuilder) (documentation : Str)
    (ptr : SymbolInfoOrBuilderPtr) : IndexBuilder :=
  if documentation ≠ [] then builder.setMissingDocumentation documentation ptr else builder

/-- **Everything that a call may do.** -/
theorem addForwardDeclaration_cases
    (h : builder.addForwardDeclaration resolver order forwardDecl = some (builder', resolver')) :
    (∃ ptr name, resolver.lookupInDocuments forwardDecl.suffix = some ptr ∧
      builder' = ((builder.dropExternals resolver order forwardDecl.suffix).1.writeDocumentation
        forwardDecl.documentation ptr).addForwardDeclOccurrences name forwardDecl) ∨
    (∃ externals, resolver.lookupInDocuments forwardDecl.suffix = none ∧
      resolver.lookupExternals forwardDecl.suffix = some externals ∧
      (order.iterate (.externals forwardDecl.suffix) externals).foldlM
        (resolveExternal forwardDecl) builder = some builder') ∨
    (resolver.lookupInDocuments forwardDecl.suffix = none ∧
      resolver.lookupExternals forwardDecl.suffix = none ∧
      builder' = (builder.addExternalSymbolUnchecked (addFakePrefix forwardDecl.suffix)
        { documentation := [forwardDecl.documentation] }).addForwardDeclOccurrences
          (addFakePrefix forwardDecl.suffix) forwardDecl) := by
  unfold addForwardDeclaration at h
  split at h
  · rename_i hptr
    unfold resolveOutsideDocuments at h
    split at h
    · rename_i externals hexternals
      obtain ⟨resolved, hfold, heq⟩ := Option.bind_eq_some_iff.mp h
      obtain ⟨rfl, -⟩ := Prod.mk.inj (Option.some.inj heq)
      exact .inr (.inl ⟨externals, hptr, hexternals, hfold⟩)
    · rename_i hexternals
      obtain ⟨rfl, -⟩ := Prod.mk.inj (Option.some.inj h)
      exact .inr (.inr ⟨hptr, hexternals, rfl⟩)
  · rename_i ptr hptr
    obtain ⟨name, -, heq⟩ := Option.bind_eq_some_iff.mp h
    obtain ⟨rfl, -⟩ := Prod.mk.inj (Option.some.inj heq)
    exact .inl ⟨ptr, name, hptr, rfl⟩

/-- A fact about a builder that every part of a call preserves. -/
theorem foldlM_resolveExternal_induction {motive : IndexBuilder → Prop}
    (hstep : ∀ builder symbolName symbolInfoBuilder, motive builder →
      builder.externalSymbols.lookup symbolName = some symbolInfoBuilder →
      motive ({ builder with
        externalSymbols := builder.externalSymbols.insert symbolName
          (documentBuilder forwardDecl.documentation symbolInfoBuilder)
        }.addForwardDeclOccurrences symbolName forwardDecl))
    (names : List Str) (hbuilder : motive builder)
    (h : names.foldlM (resolveExternal forwardDecl) builder = some builder') : motive builder' := by
  induction names generalizing builder with
  | nil =>
      obtain rfl := Option.some.inj h
      exact hbuilder
  | cons symbolName names ih =>
      obtain ⟨middle, hmiddle, hrest⟩ := Option.bind_eq_some_iff.mp h
      obtain ⟨symbolInfoBuilder, hlookup, heq⟩ := Option.bind_eq_some_iff.mp hmiddle
      obtain rfl := Option.some.inj heq
      exact ih (hstep builder symbolName symbolInfoBuilder hbuilder hlookup) hrest

/-! ## The builders of documents -/

/-- The builder of a symbol in the builder of a document. -/
def symbolBuilder (builder : IndexBuilder) (path name : Str) : Option SymbolInformationBuilder :=
  (builder.multiplyIndexed.lookup path).bind (·.symbolInfos.lookup name)

/-- What the builder of a document holds apart from its symbols. -/
def outline (builder : IndexBuilder) (path : Str) : Option (Document × List Occurrence) :=
  (builder.multiplyIndexed.lookup path).map fun docBuilder =>
    (docBuilder.soFar, docBuilder.occurrences)

theorem symbolBuilder_setMissingDocumentation (builder : IndexBuilder) (documentation : Str)
    (ptr : SymbolInfoOrBuilderPtr) (path name : Str) :
    (builder.setMissingDocumentation documentation ptr).symbolBuilder path name =
      if ptr = .builder path name then
        (builder.symbolBuilder path name).map (documentBuilder documentation)
      else builder.symbolBuilder path name := by
  cases ptr with
  | symbolInfo document symbol =>
      rw [if_neg SymbolInfoOrBuilderPtr.noConfusion]
      rfl
  | builder path' name' =>
      -- a pointer that leads nowhere changes nothing, and is not read either
      have hnone : builder.symbolBuilder path' name' = none →
          builder.symbolBuilder path name =
            if SymbolInfoOrBuilderPtr.builder path' name' = .builder path name then
              (builder.symbolBuilder path name).map (documentBuilder documentation)
            else builder.symbolBuilder path name := by
        intro hnone
        split
        · rename_i heq
          cases heq
          rw [hnone]
          rfl
        · rfl
      unfold setMissingDocumentation
      dsimp only
      split
      · rename_i hlookup
        apply hnone
        rw [symbolBuilder, hlookup, Option.bind_none]
      · rename_i docBuilder hlookup
        split
        · rename_i hsymbol
          apply hnone
          rw [symbolBuilder, hlookup, Option.bind_some, hsymbol]
        · rename_i symbolInfoBuilder hsymbol
          unfold symbolBuilder
          by_cases hpath : path = path'
          · subst hpath
            rw [AList.lookup_insert, hlookup, Option.bind_some, Option.bind_some]
            by_cases hname : name = name'
            · subst hname
              rw [AList.lookup_insert, hsymbol, if_pos rfl, Option.map_some]
            · rw [AList.lookup_insert_ne hname, if_neg]
              rintro ⟨⟩
              exact hname rfl
          · rw [AList.lookup_insert_ne hpath, if_neg]
            rintro ⟨⟩
            exact hpath rfl

theorem outline_setMissingDocumentation (builder : IndexBuilder) (documentation : Str)
    (ptr : SymbolInfoOrBuilderPtr) (path : Str) :
    (builder.setMissingDocumentation documentation ptr).outline path = builder.outline path := by
  cases ptr with
  | symbolInfo document symbol => rfl
  | builder path' name' =>
      unfold setMissingDocumentation
      dsimp only
      split
      · rfl
      · rename_i docBuilder hlookup
        split
        · rfl
        · unfold outline
          by_cases hpath : path = path'
          · subst hpath
            rw [AList.lookup_insert, hlookup]
            rfl
          · rw [AList.lookup_insert_ne hpath]

theorem symbolBuilder_congr (h : builder'.multiplyIndexed = builder.multiplyIndexed) :
    builder'.symbolBuilder = builder.symbolBuilder := by
  funext path name
  rw [symbolBuilder, symbolBuilder, h]

theorem outline_congr (h : builder'.multiplyIndexed = builder.multiplyIndexed) :
    builder'.outline = builder.outline := by
  funext path
  rw [outline, outline, h]

@[simp] theorem multiplyIndexed_dropExternals (builder : IndexBuilder)
    (resolver : ForwardDeclResolver) (order : IterationOrder Table) (suffix : Str) :
    (builder.dropExternals resolver order suffix).1.multiplyIndexed = builder.multiplyIndexed := by
  unfold dropExternals
  split <;> rfl

@[simp] theorem multiplyIndexed_addExternalSymbolUnchecked (builder : IndexBuilder) (name : Str)
    (extSym : SymbolInformation) :
    (builder.addExternalSymbolUnchecked name extSym).multiplyIndexed =
      builder.multiplyIndexed := by
  unfold addExternalSymbolUnchecked
  dsimp only
  split <;> rfl

theorem multiplyIndexed_foldlM_resolveExternal (names : List Str)
    (h : names.foldlM (resolveExternal forwardDecl) builder = some builder') :
    builder'.multiplyIndexed = builder.multiplyIndexed :=
  foldlM_resolveExternal_induction (motive := fun b => b.multiplyIndexed = builder.multiplyIndexed)
    (fun _ _ _ hsame _ => hsame) names rfl h

/-- A builder of a document carries the path it is kept under, and no symbols of its own. -/
theorem soFar_of_outline_eq {calls : List BuilderCall}
    (h : builder.outline = (performAll calls).outline) {path : Str} {docBuilder : DocumentBuilder}
    (hlookup : builder.multiplyIndexed.lookup path = some docBuilder) :
    docBuilder.soFar.relativePath = path ∧ docBuilder.soFar.symbols = [] := by
  have houtline := congrFun h path
  simp only [outline, hlookup, Option.map_some] at houtline
  obtain ⟨initial, hinitial, heq⟩ := Option.map_eq_some_iff.mp houtline.symm
  obtain ⟨hmerged, hpath⟩ := mergedFrom_of_lookup hinitial
  obtain ⟨first, -, hsoFar⟩ := Option.map_eq_some_iff.mp hmerged.soFar_eq
  rw [← (Prod.mk.inj heq).1]
  exact ⟨hpath, by rw [← hsoFar]⟩

/-- Whether a call writes documentation to the builder of a symbol. -/
def DocumentsBuilder (resolver : ForwardDeclResolver) (path name : Str)
    (forwardDecl : ForwardDecl) : Prop :=
  resolver.lookupInDocuments forwardDecl.suffix = some (.builder path name) ∧
    forwardDecl.documentation ≠ []

instance (resolver : ForwardDeclResolver) (path name : Str) :
    DecidablePred (DocumentsBuilder resolver path name) :=
  fun _ => inferInstanceAs (Decidable (_ ∧ _))

/-- One call documents one symbol at most. -/
theorem symbolBuilder_addForwardDeclaration
    (h : builder.addForwardDeclaration resolver order forwardDecl = some (builder', resolver'))
    (path name : Str) :
    builder'.symbolBuilder path name =
      if DocumentsBuilder resolver path name forwardDecl then
        (builder.symbolBuilder path name).map (documentBuilder forwardDecl.documentation)
      else builder.symbolBuilder path name := by
  have hundocumented : resolver.lookupInDocuments forwardDecl.suffix = none →
      ¬DocumentsBuilder resolver path name forwardDecl := by
    rintro hptr ⟨hptr', -⟩
    rw [hptr] at hptr'
    cases hptr'
  rcases addForwardDeclaration_cases h with ⟨ptr, symbolName, hptr, rfl⟩ |
    ⟨externals, hptr, -, hfold⟩ | ⟨hptr, -, rfl⟩
  · have hdropped := symbolBuilder_congr
      (multiplyIndexed_dropExternals builder resolver order forwardDecl.suffix)
    have hiff : DocumentsBuilder resolver path name forwardDecl ↔
        ptr = .builder path name ∧ forwardDecl.documentation ≠ [] := by
      rw [DocumentsBuilder, hptr, Option.some.injEq]
    show (IndexBuilder.writeDocumentation _ _ ptr).symbolBuilder path name = _
    unfold writeDocumentation
    split
    · rename_i hdocs
      rw [symbolBuilder_setMissingDocumentation, hdropped]
      simp only [hiff, hdocs, and_true, ne_eq, not_false_eq_true]
    · rename_i hdocs
      rw [hdropped, if_neg fun hdocuments => hdocs (hiff.mp hdocuments).2]
  · rw [symbolBuilder_congr (multiplyIndexed_foldlM_resolveExternal _ hfold),
      if_neg (hundocumented hptr)]
  · rw [if_neg (hundocumented hptr)]
    exact congrFun (congrFun (symbolBuilder_congr
      (multiplyIndexed_addExternalSymbolUnchecked builder _ _)) path) name

theorem outline_addForwardDeclaration
    (h : builder.addForwardDeclaration resolver order forwardDecl = some (builder', resolver')) :
    builder'.outline = builder.outline := by
  rcases addForwardDeclaration_cases h with ⟨ptr, symbolName, -, rfl⟩ | ⟨externals, -, -, hfold⟩ |
    ⟨-, -, rfl⟩
  · refine Eq.trans ?_ (outline_congr
      (multiplyIndexed_dropExternals builder resolver order forwardDecl.suffix))
    show (IndexBuilder.writeDocumentation _ _ ptr).outline = _
    unfold writeDocumentation
    split
    · funext path
      exact outline_setMissingDocumentation _ _ ptr path
    · rfl
  · exact outline_congr (multiplyIndexed_foldlM_resolveExternal _ hfold)
  · exact outline_congr (multiplyIndexed_addExternalSymbolUnchecked builder _ _)

/-! ## The table of occurrences -/

/-- A path is in the table of occurrences only if there are any. -/
def NoEmptyEntry (occurrenceMap : ForwardDeclOccurrenceMap) : Prop :=
  ∀ path, occurrenceMap.lookup path ≠ some []

theorem noEmptyEntry_addForwardDeclOccurrence {occurrenceMap : ForwardDeclOccurrenceMap}
    (h : NoEmptyEntry occurrenceMap) (name : Str) (ref : ForwardDeclReference) :
    NoEmptyEntry (addForwardDeclOccurrence name occurrenceMap ref) := by
  intro path
  rw [addForwardDeclOccurrence, lookup_upsert]
  split
  · simp
  · exact h path

theorem noEmptyEntry_addForwardDeclOccurrences
    (h : NoEmptyEntry builder.forwardDeclOccurenceMap) (name : Str) (forwardDecl : ForwardDecl) :
    NoEmptyEntry (builder.addForwardDeclOccurrences name forwardDecl).forwardDeclOccurenceMap :=
  List.foldlRecOn forwardDecl.references (addForwardDeclOccurrence name) h
    fun _ hmap ref _ => noEmptyEntry_addForwardDeclOccurrence hmap name ref

theorem noEmptyEntry_addForwardDeclaration
    (h : builder.addForwardDeclaration resolver order forwardDecl = some (builder', resolver'))
    (hempty : NoEmptyEntry builder.forwardDeclOccurenceMap) :
    NoEmptyEntry builder'.forwardDeclOccurenceMap := by
  rcases addForwardDeclaration_cases h with ⟨ptr, symbolName, -, rfl⟩ | ⟨externals, -, -, hfold⟩ |
    ⟨-, -, rfl⟩
  · apply noEmptyEntry_addForwardDeclOccurrences
    have hdropped :
        (builder.dropExternals resolver order forwardDecl.suffix).1.forwardDeclOccurenceMap =
          builder.forwardDeclOccurenceMap := by
      unfold dropExternals
      split <;> rfl
    unfold writeDocumentation
    split
    · rw [(frame_setMissingDocumentation _ _ _).2, hdropped]
      exact hempty
    · rw [hdropped]
      exact hempty
  · exact foldlM_resolveExternal_induction
      (motive := fun builder => NoEmptyEntry builder.forwardDeclOccurenceMap)
      (fun _ symbolName _ hmap _ => noEmptyEntry_addForwardDeclOccurrences hmap symbolName _)
      _ hempty hfold
  · apply noEmptyEntry_addForwardDeclOccurrences
    unfold addExternalSymbolUnchecked
    dsimp only
    split
    · exact hempty
    · exact hempty

/-! ## The documents with a single builder -/

/-- Two pointers that differ in the builder of a symbol at most. -/
def PointersAlike (ptr ptr' : Option SymbolInfoOrBuilderPtr) : Prop :=
  ptr = ptr' ∨ ∃ path name path' name', ptr = some (.builder path name) ∧
    ptr' = some (.builder path' name')

theorem documents_writeDocumentation_builder (builder : IndexBuilder)
    (documentation path name : Str) :
    (builder.writeDocumentation documentation (.builder path name)).documents =
      builder.documents := by
  unfold writeDocumentation setMissingDocumentation
  dsimp only
  split
  · split
    · rfl
    · split <;> rfl
  · rfl

theorem documents_writeDocumentation_congr (h : builder.documents = builder'.documents)
    (documentation : Str) (ptr : SymbolInfoOrBuilderPtr) :
    (builder.writeDocumentation documentation ptr).documents =
      (builder'.writeDocumentation documentation ptr).documents := by
  cases ptr with
  | builder path name =>
      rw [documents_writeDocumentation_builder, documents_writeDocumentation_builder, h]
  | symbolInfo document symbol =>
      unfold writeDocumentation setMissingDocumentation
      split
      · simp only [h]
      · exact h

@[simp] theorem documents_dropExternals (builder : IndexBuilder)
    (resolver : ForwardDeclResolver) (order : IterationOrder Table) (suffix : Str) :
    (builder.dropExternals resolver order suffix).1.documents = builder.documents := by
  unfold dropExternals
  split <;> rfl

/-- A call changes a document with a single builder if the suffix leads to one of its
symbols. -/
theorem documents_addForwardDeclaration
    (h : builder.addForwardDeclaration resolver order forwardDecl = some (builder', resolver')) :
    builder'.documents =
      match resolver.lookupInDocuments forwardDecl.suffix with
      | some ptr => (builder.writeDocumentation forwardDecl.documentation ptr).documents
      | none => builder.documents := by
  rcases addForwardDeclaration_cases h with ⟨ptr, symbolName, hptr, rfl⟩ |
    ⟨externals, hptr, -, hfold⟩ | ⟨hptr, -, rfl⟩
  · rw [hptr]
    exact documents_writeDocumentation_congr (documents_dropExternals ..) _ ptr
  · rw [hptr]
    exact foldlM_resolveExternal_induction
      (motive := fun b => b.documents = builder.documents) (fun _ _ _ hsame _ => hsame) _ rfl hfold
  · rw [hptr]
    show (builder.addExternalSymbolUnchecked _ _).documents = builder.documents
    unfold addExternalSymbolUnchecked
    dsimp only
    split <;> rfl

/-! ## The external symbols -/

theorem lookup_foldl_erase (names : List Str)
    (externalSymbols : AList fun _ : Str => SymbolInformationBuilder) (name : Str) :
    (names.foldl (fun externalSymbols name => externalSymbols.erase name)
        externalSymbols).lookup name =
      if name ∈ names then none else externalSymbols.lookup name := by
  induction names generalizing externalSymbols with
  | nil => simp
  | cons first names ih =>
      rw [List.foldl_cons, ih]
      by_cases hname : name = first
      · subst hname
        simp
      · simp [AList.lookup_erase_ne hname, hname]

theorem lookup_externalSymbols_dropExternals
    (htracks : resolver.Tracks (· ∈ builder.externalSymbols)) (order : IterationOrder Table)
    (suffix name : Str) :
    (builder.dropExternals resolver order suffix).1.externalSymbols.lookup name =
      if getPackageAgnosticSuffix name = some suffix then none
      else builder.externalSymbols.lookup name := by
  unfold dropExternals
  cases hlookup : resolver.lookupExternals suffix with
  | none =>
      dsimp only
      split
      · rename_i hsuffix
        exact AList.lookup_eq_none.mpr fun hmem =>
          htracks.lookup_eq_none.mp hlookup name hmem hsuffix
      · rfl
  | some externals =>
      dsimp only
      rw [lookup_foldl_erase]
      have hmem : name ∈ order.iterate (.externals suffix) externals ↔
          name ∈ builder.externalSymbols ∧ getPackageAgnosticSuffix name = some suffix := by
        rw [(order.perm _ _).mem_iff]
        exact htracks.mem_of_lookup hlookup
      by_cases hsuffix : getPackageAgnosticSuffix name = some suffix
      · rw [if_pos hsuffix]
        split
        · rfl
        · rename_i hnot
          exact AList.lookup_eq_none.mpr fun hname => hnot (hmem.mpr ⟨hname, hsuffix⟩)
      · rw [if_neg hsuffix, if_neg fun h => hsuffix (hmem.mp h).2]

theorem lookup_externalSymbols_resolveExternals (names : List Str) (hnodup : names.Nodup)
    (h : names.foldlM (resolveExternal forwardDecl) builder = some builder') (name : Str) :
    builder'.externalSymbols.lookup name =
      if name ∈ names then
        (builder.externalSymbols.lookup name).map (documentBuilder forwardDecl.documentation)
      else builder.externalSymbols.lookup name := by
  induction names generalizing builder with
  | nil =>
      obtain rfl := Option.some.inj h
      simp
  | cons first names ih =>
      obtain ⟨middle, hmiddle, hrest⟩ := Option.bind_eq_some_iff.mp h
      obtain ⟨symbolInfoBuilder, hlookup, heq⟩ := Option.bind_eq_some_iff.mp hmiddle
      obtain rfl := Option.some.inj heq
      obtain ⟨hfirst, hnames⟩ := List.nodup_cons.mp hnodup
      rw [ih hnames hrest]
      show (if name ∈ names then ((builder.externalSymbols.insert first _).lookup name).map _
        else (builder.externalSymbols.insert first _).lookup name) = _
      by_cases hname : name = first
      · subst hname
        rw [if_neg hfirst, if_pos List.mem_cons_self, AList.lookup_insert, hlookup]
        rfl
      · simp only [AList.lookup_insert_ne hname, List.mem_cons, hname, false_or]

/-- A call changes the external symbols with its suffix only. -/
theorem lookup_externalSymbols_addForwardDeclaration
    (htracks : resolver.Tracks (· ∈ builder.externalSymbols))
    (h : builder.addForwardDeclaration resolver order forwardDecl = some (builder', resolver'))
    (name : Str) :
    builder'.externalSymbols.lookup name =
      match resolver.lookupInDocuments forwardDecl.suffix,
          resolver.lookupExternals forwardDecl.suffix with
      | some _, _ =>
          if getPackageAgnosticSuffix name = some forwardDecl.suffix then none
          else builder.externalSymbols.lookup name
      | none, some _ =>
          if getPackageAgnosticSuffix name = some forwardDecl.suffix then
            (builder.externalSymbols.lookup name).map (documentBuilder forwardDecl.documentation)
          else builder.externalSymbols.lookup name
      | none, none =>
          if name = addFakePrefix forwardDecl.suffix then
            some (.ofParts name [forwardDecl.documentation] [])
          else builder.externalSymbols.lookup name := by
  rcases addForwardDeclaration_cases h with ⟨ptr, symbolName, hptr, rfl⟩ |
    ⟨externals, hptr, hexternals, hfold⟩ | ⟨hptr, hexternals, rfl⟩
  · rw [hptr]
    refine Eq.trans ?_ (lookup_externalSymbols_dropExternals htracks order forwardDecl.suffix name)
    show (IndexBuilder.writeDocumentation _ _ ptr).externalSymbols.lookup name = _
    unfold writeDocumentation
    split
    · rw [(frame_setMissingDocumentation _ _ _).1]
    · rfl
  · rw [hptr, hexternals]
    have hperm := order.perm (.externals forwardDecl.suffix) externals
    rw [lookup_externalSymbols_resolveExternals _
      (hperm.nodup_iff.mpr (htracks.nodup _ _ hexternals)) hfold]
    have hmem : name ∈ order.iterate (.externals forwardDecl.suffix) externals ↔
        name ∈ builder.externalSymbols ∧
          getPackageAgnosticSuffix name = some forwardDecl.suffix := by
      rw [hperm.mem_iff]
      exact htracks.mem_of_lookup hexternals
    -- a name that is not an external symbol stays unknown
    by_cases hname : name ∈ builder.externalSymbols
    · simp only [hmem, hname, true_and]
    · rw [AList.lookup_eq_none.mpr hname]
      simp only [Option.map_none, ite_self]
  · rw [hptr, hexternals]
    have hnew : addFakePrefix forwardDecl.suffix ∉ builder.externalSymbols := fun hmem =>
      htracks.lookup_eq_none.mp hexternals _ hmem (getPackageAgnosticSuffix_addFakePrefix _)
    show (builder.addExternalSymbolUnchecked _ _).externalSymbols.lookup name = _
    unfold addExternalSymbolUnchecked
    rw [if_neg hnew]
    dsimp only
    split
    · rename_i hname
      subst hname
      rw [AList.lookup_insert]
      rfl
    · rename_i hname
      rw [AList.lookup_insert_ne hname]

/-- The documents with a single builder and the external symbols of two builders are the
same. -/
structure Lockstep (builder builder' : IndexBuilder) : Prop where
  documents_eq : builder.documents = builder'.documents
  lookup_eq : ∀ name, builder.externalSymbols.lookup name = builder'.externalSymbols.lookup name

theorem Lockstep.refl (builder : IndexBuilder) : Lockstep builder builder :=
  ⟨rfl, fun _ => rfl⟩

theorem Lockstep.mem_iff (h : Lockstep builder builder') {name : Str} :
    name ∈ builder.externalSymbols ↔ name ∈ builder'.externalSymbols := by
  rw [← AList.lookup_isSome, ← AList.lookup_isSome, h.lookup_eq]

/-- Resolvers that track the same external symbols find externals for the same suffixes. -/
theorem Lockstep.isNone_lookupExternals (h : Lockstep builder builder')
    (htracks : resolver.Tracks (· ∈ builder.externalSymbols))
    (htracks' : resolver'.Tracks (· ∈ builder'.externalSymbols)) (suffix : Str) :
    resolver.lookupExternals suffix = none ↔ resolver'.lookupExternals suffix = none := by
  unfold ForwardDeclResolver.lookupExternals
  rw [htracks.lookup_eq_none, htracks'.lookup_eq_none]
  simp only [h.mem_iff]

theorem Lockstep.addForwardDeclaration {next next' : IndexBuilder}
    {nextResolver nextResolver' : ForwardDeclResolver} {order' : IterationOrder Table}
    (hlockstep : Lockstep builder builder')
    (htracks : resolver.Tracks (· ∈ builder.externalSymbols))
    (htracks' : resolver'.Tracks (· ∈ builder'.externalSymbols))
    (halike : PointersAlike (resolver.lookupInDocuments forwardDecl.suffix)
      (resolver'.lookupInDocuments forwardDecl.suffix))
    (h : builder.addForwardDeclaration resolver order forwardDecl = some (next, nextResolver))
    (h' : builder'.addForwardDeclaration resolver' order' forwardDecl =
      some (next', nextResolver')) :
    Lockstep next next' where
  documents_eq := by
    rw [documents_addForwardDeclaration h, documents_addForwardDeclaration h']
    rcases halike with hsame | ⟨path, name, path', name', hptr, hptr'⟩
    · rw [hsame]
      split
      · exact documents_writeDocumentation_congr hlockstep.documents_eq _ _
      · exact hlockstep.documents_eq
    · rw [hptr, hptr']
      simp only [documents_writeDocumentation_builder, hlockstep.documents_eq]
  lookup_eq := by
    intro name
    rw [lookup_externalSymbols_addForwardDeclaration htracks h,
      lookup_externalSymbols_addForwardDeclaration htracks' h', hlockstep.lookup_eq]
    have hnone := hlockstep.isNone_lookupExternals htracks htracks' forwardDecl.suffix
    rcases halike with hsame | ⟨path, name, path', name', hptr, hptr'⟩
    · rw [hsame]
      cases hexternals : resolver.lookupExternals forwardDecl.suffix with
      | none => rw [hnone.mp hexternals]
      | some externals =>
          obtain ⟨externals', hexternals'⟩ := Option.ne_none_iff_exists'.mp fun hnone' => by
            rw [hnone.mpr hnone'] at hexternals
            cases hexternals
          rw [hexternals']
          cases resolver'.lookupInDocuments forwardDecl.suffix <;> rfl
    · rw [hptr, hptr']

/-! ## Attaching documentation -/

/-- The documentation of several forward declarations, offered one after the other. -/
def documentAll (documentation : List Str) (symbolInfoBuilder : SymbolInformationBuilder) :
    SymbolInformationBuilder :=
  documentation.foldl
    (fun symbolInfoBuilder documentation => documentBuilder documentation symbolInfoBuilder)
    symbolInfoBuilder

theorem documentBuilder_of_hasDocumentation {symbolInfoBuilder : SymbolInformationBuilder}
    (h : hasDocumentation symbolInfoBuilder.documentation = true) (documentation : Str) :
    documentBuilder documentation symbolInfoBuilder = symbolInfoBuilder :=
  if_pos h

theorem documentAll_of_hasDocumentation {symbolInfoBuilder : SymbolInformationBuilder}
    (h : hasDocumentation symbolInfoBuilder.documentation = true) (documentation : List Str) :
    documentAll documentation symbolInfoBuilder = symbolInfoBuilder := by
  induction documentation with
  | nil => rfl
  | cons first documentation ih =>
      rw [documentAll, List.foldl_cons, documentBuilder_of_hasDocumentation h]
      exact ih

/-- Placeholders are offered to a symbol that has nothing but a placeholder. -/
theorem documentAll_of_placeholders {symbolInfoBuilder : SymbolInformationBuilder}
    {documentation : List Str}
    (h : ∀ doc ∈ documentation, doc = missingDocumentationPlaceholder ∧
      symbolInfoBuilder.documentation = [missingDocumentationPlaceholder]) :
    documentAll documentation symbolInfoBuilder = symbolInfoBuilder := by
  induction documentation with
  | nil => rfl
  | cons first documentation ih =>
      obtain ⟨⟨hfirst, hdocs⟩, hrest⟩ := List.forall_mem_cons.mp h
      have hsame : documentBuilder first symbolInfoBuilder = symbolInfoBuilder := by
        unfold documentBuilder
        split
        · rfl
        · rw [SymbolInformationBuilder.setDocumentation, hfirst, ← hdocs]
      rw [documentAll, List.foldl_cons, hsame]
      exact ih hrest

/-- A symbol that has documentation in the end had it or was offered it. -/
theorem hasDocumentation_documentAll (documentation : List Str)
    (symbolInfoBuilder : SymbolInformationBuilder) :
    hasDocumentation (documentAll documentation symbolInfoBuilder).documentation = true ↔
      hasDocumentation symbolInfoBuilder.documentation = true ∨
        ∃ doc ∈ documentation, doc ≠ missingDocumentationPlaceholder := by
  induction documentation generalizing symbolInfoBuilder with
  | nil => simp [documentAll]
  | cons first documentation ih =>
      rw [documentAll, List.foldl_cons]
      refine (ih _).trans ?_
      by_cases hdocs : hasDocumentation symbolInfoBuilder.documentation = true
      · rw [documentBuilder_of_hasDocumentation hdocs]
        simp only [hdocs, true_or]
      · have hfirst : hasDocumentation (symbolInfoBuilder.setDocumentation [first]).documentation =
            (first != missingDocumentationPlaceholder) := rfl
        rw [documentBuilder, if_neg hdocs, hfirst]
        simp [hdocs]

/-- When offering documentation changes nothing. -/
theorem documentation_documentAll_eq_iff (documentation : List Str)
    (symbolInfoBuilder : SymbolInformationBuilder) :
    (documentAll documentation symbolInfoBuilder).documentation =
        symbolInfoBuilder.documentation ↔
      hasDocumentation symbolInfoBuilder.documentation = true ∨
        ∀ doc ∈ documentation, doc = missingDocumentationPlaceholder ∧
          symbolInfoBuilder.documentation = [missingDocumentationPlaceholder] := by
  constructor
  · intro heq
    by_contra hcontra
    rw [not_or] at hcontra
    obtain ⟨hdocs, hoffered⟩ := hcontra
    have hnone := hasDocumentation_documentAll documentation symbolInfoBuilder
    rw [heq] at hnone
    have hall : ∀ doc ∈ documentation, doc = missingDocumentationPlaceholder := by
      intro doc hdoc
      by_contra hne
      exact hdocs (hnone.mpr (.inr ⟨doc, hdoc, hne⟩))
    -- the first placeholder replaces what the symbol had, the others change nothing
    apply hoffered
    intro doc hdoc
    refine ⟨hall doc hdoc, ?_⟩
    obtain ⟨first, rest, rfl⟩ := List.exists_cons_of_ne_nil (List.ne_nil_of_mem hdoc)
    obtain ⟨rfl, hrest⟩ := List.forall_mem_cons.mp hall
    have hstep : documentAll (missingDocumentationPlaceholder :: rest) symbolInfoBuilder =
        documentAll rest
          (symbolInfoBuilder.setDocumentation [missingDocumentationPlaceholder]) := by
      rw [documentAll, List.foldl_cons, documentBuilder, if_neg hdocs]
      rfl
    rw [← heq, hstep, documentAll_of_placeholders fun doc hdoc => ⟨hrest doc hdoc, rfl⟩]
    rfl
  · rintro (hdocs | hall)
    · rw [documentAll_of_hasDocumentation hdocs]
    · rw [documentAll_of_placeholders hall]

/-! ## A sequence of calls -/

/-- The documentation that is written to the builder of a symbol, one after the other. -/
def documentationFor (resolver : ForwardDeclResolver) (forwardDecls : List ForwardDecl)
    (path name : Str) : List Str :=
  (forwardDecls.filter (DocumentsBuilder resolver path name)).map ForwardDecl.documentation

/-- The builders of documents, and the table of occurrences, after the forward declarations
`processed`. -/
structure BuildersInv (builder₀ : IndexBuilder) (resolver₀ : ForwardDeclResolver)
    (processed : List ForwardDecl) (builder : IndexBuilder) : Prop where
  symbolBuilder_eq : ∀ path name, builder.symbolBuilder path name =
    (builder₀.symbolBuilder path name).map
      (documentAll (documentationFor resolver₀ processed path name))
  outline_eq : builder.outline = builder₀.outline
  noEmptyEntry : NoEmptyEntry builder.forwardDeclOccurenceMap

theorem buildersInv_initial (calls : List BuilderCall) (resolver : ForwardDeclResolver) :
    BuildersInv (performAll calls) resolver [] (performAll calls) where
  symbolBuilder_eq := by
    intro path name
    cases (performAll calls).symbolBuilder path name <;> rfl
  outline_eq := rfl
  noEmptyEntry := by
    intro path
    rw [performAll_eq]
    show AList.lookup path (∅ : ForwardDeclOccurrenceMap) ≠ some []
    simp

theorem BuildersInv.addForwardDeclaration {builder₀ : IndexBuilder}
    {resolver₀ : ForwardDeclResolver} {processed : List ForwardDecl}
    (hinv : BuildersInv builder₀ resolver₀ processed builder)
    (hresolver : resolver.docInternalMap = resolver₀.docInternalMap)
    (h : builder.addForwardDeclaration resolver order forwardDecl = some (builder', resolver')) :
    BuildersInv builder₀ resolver₀ (processed ++ [forwardDecl]) builder' where
  symbolBuilder_eq := by
    intro path name
    have hsame : DocumentsBuilder resolver path name forwardDecl ↔
        DocumentsBuilder resolver₀ path name forwardDecl := by
      rw [DocumentsBuilder, DocumentsBuilder, ForwardDeclResolver.lookupInDocuments,
        ForwardDeclResolver.lookupInDocuments, hresolver]
    rw [symbolBuilder_addForwardDeclaration h, hinv.symbolBuilder_eq, documentationFor,
      documentationFor, List.filter_append, List.map_append]
    by_cases hdocuments : DocumentsBuilder resolver₀ path name forwardDecl
    · rw [if_pos (hsame.mpr hdocuments), List.filter_cons_of_pos (by simpa using hdocuments),
        Option.map_map]
      congr 1
      funext symbolInfoBuilder
      simp only [documentAll, Function.comp_apply, List.filter_nil, List.map_cons, List.map_nil,
        List.foldl_append, List.foldl_cons, List.foldl_nil]
    · rw [if_neg fun hdocs => hdocuments (hsame.mp hdocs),
        List.filter_cons_of_neg (by simpa using hdocuments)]
      simp only [List.filter_nil, List.map_nil, List.append_nil]
  outline_eq := (outline_addForwardDeclaration h).trans hinv.outline_eq
  noEmptyEntry := noEmptyEntry_addForwardDeclaration h hinv.noEmptyEntry

section Runs

variable {builder₀ : IndexBuilder} {resolver₀ resolver₀' : ForwardDeclResolver}
  {processed : List ForwardDecl}

/-- The builders of documents after a sequence of calls. -/
theorem BuildersInv.addForwardDeclarations
    (hpointers : PointersValid builder₀ resolver₀)
    (hresolver : ResolverInv builder₀ resolver₀ processed builder resolver)
    (hbuilders : BuildersInv builder₀ resolver₀ processed builder)
    {forwardDecls : List (IterationOrder Table × ForwardDecl)} {last : IndexBuilder}
    {lastResolver : ForwardDeclResolver}
    (h : builder.addForwardDeclarations resolver forwardDecls = some (last, lastResolver)) :
    BuildersInv builder₀ resolver₀ (processed ++ forwardDecls.map Prod.snd) last :=
  hresolver.addForwardDeclarations_induction hpointers
    (fun hresolver hbuilders hstep =>
      hbuilders.addForwardDeclaration hresolver.docInternalMap_eq hstep) hbuilders h

/-- **Two sequences of calls** for the same forward declarations, with resolvers that lead to
other builders for some suffixes, agree on everything but these builders. -/
theorem lockstep_addForwardDeclarations
    (hpointers : PointersValid builder₀ resolver₀) (hpointers' : PointersValid builder₀ resolver₀')
    (halike : ∀ suffix, PointersAlike (resolver₀.lookupInDocuments suffix)
      (resolver₀'.lookupInDocuments suffix))
    (hresolver : ResolverInv builder₀ resolver₀ processed builder resolver)
    (hresolver' : ResolverInv builder₀ resolver₀' processed builder' resolver')
    (hlockstep : Lockstep builder builder')
    {forwardDecls forwardDecls' : List (IterationOrder Table × ForwardDecl)}
    (hsame : forwardDecls.map Prod.snd = forwardDecls'.map Prod.snd)
    {last last' : IndexBuilder} {lastResolver lastResolver' : ForwardDeclResolver}
    (h : builder.addForwardDeclarations resolver forwardDecls = some (last, lastResolver))
    (h' : builder'.addForwardDeclarations resolver' forwardDecls' = some (last', lastResolver')) :
    Lockstep last last' := by
  induction forwardDecls generalizing forwardDecls' processed builder builder' resolver resolver'
  with
  | nil =>
      obtain rfl := List.map_eq_nil_iff.mp hsame.symm
      obtain ⟨rfl, -⟩ := Prod.mk.inj (Option.some.inj h)
      obtain ⟨rfl, -⟩ := Prod.mk.inj (Option.some.inj h')
      exact hlockstep
  | cons forwardDecl forwardDecls ih =>
      obtain ⟨order, forwardDecl⟩ := forwardDecl
      cases forwardDecls' with
      | nil => cases hsame
      | cons forwardDecl' forwardDecls' =>
          obtain ⟨order', forwardDecl'⟩ := forwardDecl'
          obtain ⟨hhead, htail⟩ := List.cons.inj hsame
          dsimp only at hhead
          subst hhead
          obtain ⟨middle, middleResolver, hstep, hmiddle⟩ :=
            hresolver.addForwardDeclaration_spec hpointers order forwardDecl
          obtain ⟨middle', middleResolver', hstep', hmiddle'⟩ :=
            hresolver'.addForwardDeclaration_spec hpointers' order' forwardDecl
          rw [addForwardDeclarations, List.foldlM_cons, hstep] at h
          rw [addForwardDeclarations, List.foldlM_cons, hstep'] at h'
          -- the pointers of a resolver do not change during the run
          have hptrs := halike forwardDecl.suffix
          rw [← hresolver.lookupInDocuments_eq, ← hresolver'.lookupInDocuments_eq] at hptrs
          exact ih hmiddle hmiddle' (hlockstep.addForwardDeclaration hresolver.tracks
            hresolver'.tracks hptrs hstep hstep') htail h h'

end Runs

end IndexBuilder

end ScipClang
