import ScipClang.Scip.ForwardDecls

/-!
# Forward declarations resolve the same way in every order

`addForwardDeclaration` changes the resolver and the external symbols that later calls
look at: it makes up external symbols, and it drops external symbols that a document
defines.  Still the names that a suffix resolves to, `resolvedNames`, are fixed by the
state in which the resolver was populated.

The reason is that a call changes what is known about its own suffix only, and brings it
into a state that later calls leave alone (`Settled`).  `ResolverInv` relates a later state
to the one at the start; `addForwardDeclaration_spec` is the step, and
`addForwardDeclarations_spec` a whole sequence.
-/

namespace ScipClang

open HashTables

/-! ## One forward declaration -/

/-- The occurrences that a forward declaration has in a document, under a given name. -/
def ForwardDecl.occurrencesAt (forwardDecl : ForwardDecl) (path name : Str) :
    List ForwardDeclOccurrence :=
  (forwardDecl.references.filter fun ref => ref.relativePath = path).map
    (.ofReference name)

namespace ForwardDeclResolver

theorem tracks_deleteExternals {resolver : ForwardDeclResolver} {externalSymbols : Str → Prop}
    (h : resolver.Tracks externalSymbols) (suffix : Str) :
    (resolver.deleteExternals suffix).Tracks fun name =>
      externalSymbols name ∧ getPackageAgnosticSuffix name ≠ some suffix := by
  have hlookup : ∀ other, (resolver.deleteExternals suffix).externalsMap.lookup other =
      if other = suffix then none else resolver.externalsMap.lookup other := by
    intro other
    by_cases hother : other = suffix
    · subst hother
      rw [if_pos rfl]
      exact AList.lookup_erase other resolver.externalsMap
    · rw [if_neg hother]
      exact AList.lookup_erase_ne hother
  constructor
  case mem_iff =>
    intro other name
    rw [hlookup]
    by_cases hother : other = suffix
    · subst hother
      rw [if_pos rfl]
      simp only [Option.getD_none, List.not_mem_nil, false_iff]
      rintro ⟨⟨-, hne⟩, hsuffix⟩
      exact hne hsuffix
    · rw [if_neg hother, h.mem_iff]
      constructor
      · rintro ⟨hname, hsuffix⟩
        refine ⟨⟨hname, ?_⟩, hsuffix⟩
        rw [hsuffix]
        exact fun heq => hother (Option.some.inj heq)
      · rintro ⟨⟨hname, -⟩, hsuffix⟩
        exact ⟨hname, hsuffix⟩
  case nodup =>
    intro other names hnames
    rw [hlookup] at hnames
    split at hnames
    · cases hnames
    · exact h.nodup other names hnames
  case ne_nil =>
    intro other names hnames
    rw [hlookup] at hnames
    split at hnames
    · cases hnames
    · exact h.ne_nil other names hnames

end ForwardDeclResolver

namespace IndexBuilder

/-- The occurrences of forward declarations that are kept for a document. -/
def occurrencesAt (builder : IndexBuilder) (path : Str) : List ForwardDeclOccurrence :=
  (builder.forwardDeclOccurenceMap.lookup path).getD []

theorem occurrencesAt_addForwardDeclOccurrences (builder : IndexBuilder) (name : Str)
    (forwardDecl : ForwardDecl) (path : Str) :
    (builder.addForwardDeclOccurrences name forwardDecl).occurrencesAt path =
      builder.occurrencesAt path ++ forwardDecl.occurrencesAt path name := by
  have happend : ∀ (refs : List ForwardDeclReference) (old : Option (List ForwardDeclOccurrence)),
      (refs.foldl (fun old ref =>
        some (old.getD [] ++ [ForwardDeclOccurrence.ofReference name ref])) old).getD [] =
      old.getD [] ++ refs.map (.ofReference name) := by
    intro refs
    induction refs with
    | nil => intro old; simp
    | cons ref refs ih => intro old; simp [ih]
  have hlookup := lookup_foldl_upsert ForwardDeclReference.relativePath
    (fun (ref : ForwardDeclReference) (old : Option (List ForwardDeclOccurrence)) =>
      old.getD [] ++ [ForwardDeclOccurrence.ofReference name ref])
    forwardDecl.references builder.forwardDeclOccurenceMap path
  rw [occurrencesAt, occurrencesAt, ForwardDecl.occurrencesAt, ← happend, ← hlookup]
  rfl

theorem nameOf_congr {builder builder' : IndexBuilder}
    (hdocuments : builder'.documents = builder.documents)
    (hmulti : builder'.multiplyIndexed = builder.multiplyIndexed) :
    builder'.nameOf = builder.nameOf := by
  funext ptr
  cases ptr with
  | symbolInfo document symbol => simp only [nameOf, hdocuments]
  | builder path name => simp only [nameOf, hmulti]

theorem symbol_documentSymbol (documentation : Str) (symbolInfo : SymbolInformation) :
    (documentSymbol documentation symbolInfo).symbol = symbolInfo.symbol := by
  unfold documentSymbol
  split <;> rfl

theorem name_documentBuilder (documentation : Str)
    (symbolInfoBuilder : SymbolInformationBuilder) :
    (documentBuilder documentation symbolInfoBuilder).name = symbolInfoBuilder.name := by
  unfold documentBuilder
  split <;> rfl

/-- Writing documentation through a pointer changes no name. -/
theorem nameOf_setMissingDocumentation (builder : IndexBuilder) (documentation : Str)
    (ptr : SymbolInfoOrBuilderPtr) :
    (builder.setMissingDocumentation documentation ptr).nameOf = builder.nameOf := by
  cases ptr with
  | symbolInfo document symbol =>
      funext other
      cases other with
      | builder path name => rfl
      | symbolInfo i j =>
          simp only [setMissingDocumentation, nameOf, List.getElem?_modify]
          cases builder.documents[i]? with
          | none => simp
          | some doc =>
              by_cases hi : document = i
              · subst hi
                simp only [if_true, Option.map_eq_map, Option.map_some, Option.bind_some,
                  List.getElem?_modify]
                cases doc.symbols[j]? with
                | none => simp
                | some symbolInfo =>
                    by_cases hj : symbol = j
                    · simp [hj, symbol_documentSymbol]
                    · simp [hj]
              · simp [hi]
  | builder path name =>
      unfold setMissingDocumentation
      dsimp only
      split
      · rfl
      · rename_i docBuilder hpath
        split
        · rfl
        · rename_i symbolInfoBuilder hname
          funext other
          cases other with
          | symbolInfo i j => rfl
          | builder path' name' =>
              simp only [nameOf]
              by_cases hpath' : path' = path
              · subst hpath'
                rw [AList.lookup_insert, hpath]
                simp only [Option.bind_some]
                by_cases hname' : name' = name
                · subst hname'
                  rw [AList.lookup_insert, hname]
                  simp [name_documentBuilder]
                · rw [AList.lookup_insert_ne hname']
              · rw [AList.lookup_insert_ne hpath']

theorem frame_setMissingDocumentation (builder : IndexBuilder) (documentation : Str)
    (ptr : SymbolInfoOrBuilderPtr) :
    (builder.setMissingDocumentation documentation ptr).externalSymbols =
        builder.externalSymbols ∧
      (builder.setMissingDocumentation documentation ptr).forwardDeclOccurenceMap =
        builder.forwardDeclOccurenceMap := by
  cases ptr with
  | symbolInfo document symbol => exact ⟨rfl, rfl⟩
  | builder path name =>
      unfold setMissingDocumentation
      dsimp only
      split
      · exact ⟨rfl, rfl⟩
      · split
        · exact ⟨rfl, rfl⟩
        · exact ⟨rfl, rfl⟩

/-! ### The suffix is defined in a document -/

theorem mem_foldl_erase (names : List Str)
    (externalSymbols : AList fun _ : Str => SymbolInformationBuilder) (name : Str) :
    name ∈ names.foldl (fun externalSymbols name => externalSymbols.erase name) externalSymbols ↔
      name ∈ externalSymbols ∧ name ∉ names := by
  induction names generalizing externalSymbols with
  | nil => simp
  | cons first names ih =>
      rw [List.foldl_cons, ih, AList.mem_erase, List.mem_cons]
      tauto

/-- Dropping the externals of a suffix leaves no external symbol with that suffix, and
changes nothing else. -/
theorem dropExternals_spec {builder : IndexBuilder} {resolver : ForwardDeclResolver}
    (htracks : resolver.Tracks (· ∈ builder.externalSymbols)) (order : IterationOrder Table)
    (suffix : Str) :
    let state := builder.dropExternals resolver order suffix
    state.1.nameOf = builder.nameOf ∧
    (∀ path, state.1.occurrencesAt path = builder.occurrencesAt path) ∧
    state.2.docInternalMap = resolver.docInternalMap ∧
    state.2.Tracks (· ∈ state.1.externalSymbols) ∧
    state.2.lookupExternals suffix = none ∧
    ∀ other, other ≠ suffix → state.2.lookupExternals other = resolver.lookupExternals other := by
  unfold dropExternals
  dsimp only
  cases hlookup : resolver.lookupExternals suffix with
  | none => exact ⟨rfl, fun _ => rfl, rfl, htracks, hlookup, fun _ _ => rfl⟩
  | some externals =>
      refine ⟨nameOf_congr rfl rfl, fun _ => rfl, rfl, ?_, AList.lookup_erase suffix _,
        fun other hother => AList.lookup_erase_ne hother⟩
      have hdrop := ForwardDeclResolver.tracks_deleteExternals htracks suffix
      have hmem : ∀ name, (name ∈ builder.externalSymbols ∧
          getPackageAgnosticSuffix name ≠ some suffix) ↔
          name ∈ (order.iterate (.externals suffix) externals).foldl
            (fun externalSymbols name => externalSymbols.erase name) builder.externalSymbols := by
        intro name
        rw [mem_foldl_erase, (order.perm _ _).mem_iff, htracks.mem_of_lookup hlookup]
        tauto
      simpa only [hmem] using hdrop

/-! ### The suffix is that of external symbols -/

theorem resolveExternal_spec (forwardDecl : ForwardDecl) {builder : IndexBuilder}
    {symbolName : Str} (h : symbolName ∈ builder.externalSymbols) :
    ∃ builder', resolveExternal forwardDecl builder symbolName = some builder' ∧
      builder'.nameOf = builder.nameOf ∧
      (∀ name, name ∈ builder'.externalSymbols ↔ name ∈ builder.externalSymbols) ∧
      ∀ path, builder'.occurrencesAt path =
        builder.occurrencesAt path ++ forwardDecl.occurrencesAt path symbolName := by
  obtain ⟨symbolInfoBuilder, hlookup⟩ :=
    Option.isSome_iff_exists.mp (AList.lookup_isSome.mpr h)
  have hstep : resolveExternal forwardDecl builder symbolName =
      some ({ builder with
        externalSymbols := builder.externalSymbols.insert symbolName
          (documentBuilder forwardDecl.documentation symbolInfoBuilder)
        }.addForwardDeclOccurrences symbolName forwardDecl) := by
    rw [resolveExternal, hlookup]
    rfl
  refine ⟨_, hstep, nameOf_congr rfl rfl, ?_, ?_⟩
  · intro name
    refine (AList.mem_insert _).trans ⟨?_, Or.inr⟩
    rintro (rfl | hname)
    · exact h
    · exact hname
  · intro path
    rw [occurrencesAt_addForwardDeclOccurrences]
    rfl

theorem foldlM_resolveExternal_spec (forwardDecl : ForwardDecl) (names : List Str)
    {builder : IndexBuilder} (h : ∀ name ∈ names, name ∈ builder.externalSymbols) :
    ∃ builder', names.foldlM (resolveExternal forwardDecl) builder = some builder' ∧
      builder'.nameOf = builder.nameOf ∧
      (∀ name, name ∈ builder'.externalSymbols ↔ name ∈ builder.externalSymbols) ∧
      ∀ path, builder'.occurrencesAt path =
        builder.occurrencesAt path ++ names.flatMap (forwardDecl.occurrencesAt path) := by
  induction names generalizing builder with
  | nil => exact ⟨builder, rfl, rfl, fun _ => Iff.rfl, fun _ => by simp⟩
  | cons symbolName names ih =>
      obtain ⟨middle, hstep, hnames, hexternals, hoccurrences⟩ :=
        resolveExternal_spec forwardDecl (h symbolName List.mem_cons_self)
      obtain ⟨builder', hrest, hnames', hexternals', hoccurrences'⟩ :=
        ih fun name hname => (hexternals name).mpr (h name (List.mem_cons_of_mem _ hname))
      refine ⟨builder', ?_, hnames'.trans hnames,
        fun name => (hexternals' name).trans (hexternals name), ?_⟩
      · rw [List.foldlM_cons, hstep]
        exact hrest
      · intro path
        rw [hoccurrences', hoccurrences, List.flatMap_cons, List.append_assoc]

/-! ## The invariant -/

/-- The names that a suffix resolves to, in the state in which a resolver was populated. -/
def resolvedNames (builder : IndexBuilder) (resolver : ForwardDeclResolver) (suffix : Str) :
    List Str :=
  match resolver.lookupInDocuments suffix with
  | some ptr => (builder.nameOf ptr).toList
  | none => (resolver.lookupExternals suffix).getD [addFakePrefix suffix]

/-- The pointers of a resolver are valid and lead to names with the right suffix. -/
def PointersValid (builder : IndexBuilder) (resolver : ForwardDeclResolver) : Prop :=
  ∀ suffix ptr, resolver.lookupInDocuments suffix = some ptr →
    ∃ name, builder.nameOf ptr = some name ∧ getPackageAgnosticSuffix name = some suffix

section Invariant

variable (builder₀ : IndexBuilder) (resolver₀ : ForwardDeclResolver)

/-- A suffix that was resolved: a suffix that a document defines has no externals any more,
and the externals of another suffix are the names it resolves to. -/
def Settled (resolver : ForwardDeclResolver) (suffix : Str) : Prop :=
  match resolver₀.lookupInDocuments suffix with
  | some _ => resolver.lookupExternals suffix = none
  | none => resolver.lookupExternals suffix = some (resolvedNames builder₀ resolver₀ suffix)

/-- What holds after the forward declarations `processed`. -/
structure ResolverInv (processed : List ForwardDecl) (builder : IndexBuilder)
    (resolver : ForwardDeclResolver) : Prop where
  docInternalMap_eq : resolver.docInternalMap = resolver₀.docInternalMap
  nameOf_eq : builder.nameOf = builder₀.nameOf
  tracks : resolver.Tracks (· ∈ builder.externalSymbols)
  externals : ∀ suffix, resolver.lookupExternals suffix = resolver₀.lookupExternals suffix ∨
    Settled builder₀ resolver₀ resolver suffix
  settled : ∀ forwardDecl ∈ processed, Settled builder₀ resolver₀ resolver forwardDecl.suffix
  occurrences : ∀ path, (builder.occurrencesAt path).Perm
    (builder₀.occurrencesAt path ++ processed.flatMap fun forwardDecl =>
      (resolvedNames builder₀ resolver₀ forwardDecl.suffix).flatMap
        (forwardDecl.occurrencesAt path))

variable {builder₀ resolver₀} {processed : List ForwardDecl} {builder builder' : IndexBuilder}
  {resolver resolver' : ForwardDeclResolver} {forwardDecl : ForwardDecl}

theorem resolverInv_initial (htracks : resolver₀.Tracks (· ∈ builder₀.externalSymbols)) :
    ResolverInv builder₀ resolver₀ [] builder₀ resolver₀ where
  docInternalMap_eq := rfl
  nameOf_eq := rfl
  tracks := htracks
  externals _ := .inl rfl
  settled := by simp
  occurrences := by simp

theorem Settled.congr {suffix : Str}
    (hlookup : resolver'.lookupExternals suffix = resolver.lookupExternals suffix)
    (h : Settled builder₀ resolver₀ resolver suffix) :
    Settled builder₀ resolver₀ resolver' suffix := by
  unfold Settled at h ⊢
  rw [hlookup]
  exact h

/-- A call that settles its own suffix and leaves the other suffixes alone. -/
theorem ResolverInv.extend (h : ResolverInv builder₀ resolver₀ processed builder resolver)
    (hdocInternal : resolver'.docInternalMap = resolver.docInternalMap)
    (hnames : builder'.nameOf = builder.nameOf)
    (htracks : resolver'.Tracks (· ∈ builder'.externalSymbols))
    (hother : ∀ other, other ≠ forwardDecl.suffix →
      resolver'.lookupExternals other = resolver.lookupExternals other)
    (hsettled : Settled builder₀ resolver₀ resolver' forwardDecl.suffix)
    (hoccurrences : ∀ path, (builder'.occurrencesAt path).Perm (builder.occurrencesAt path ++
      (resolvedNames builder₀ resolver₀ forwardDecl.suffix).flatMap
        (forwardDecl.occurrencesAt path))) :
    ResolverInv builder₀ resolver₀ (processed ++ [forwardDecl]) builder' resolver' where
  docInternalMap_eq := hdocInternal.trans h.docInternalMap_eq
  nameOf_eq := hnames.trans h.nameOf_eq
  tracks := htracks
  externals := by
    intro suffix
    by_cases hsuffix : suffix = forwardDecl.suffix
    · rw [hsuffix]
      exact .inr hsettled
    · rcases h.externals suffix with hsame | hold
      · exact .inl ((hother suffix hsuffix).trans hsame)
      · exact .inr (hold.congr (hother suffix hsuffix))
  settled := by
    intro other hmem
    by_cases hsuffix : other.suffix = forwardDecl.suffix
    · rw [hsuffix]
      exact hsettled
    · rcases List.mem_append.mp hmem with hmem | hmem
      · exact (h.settled other hmem).congr (hother other.suffix hsuffix)
      · rw [List.mem_singleton] at hmem
        exact absurd (congrArg ForwardDecl.suffix hmem) hsuffix
  occurrences := by
    intro path
    refine (hoccurrences path).trans ?_
    rw [List.flatMap_append, List.flatMap_singleton, ← List.append_assoc]
    exact (h.occurrences path).append_right _

theorem ResolverInv.lookupInDocuments_eq
    (h : ResolverInv builder₀ resolver₀ processed builder resolver) (suffix : Str) :
    resolver.lookupInDocuments suffix = resolver₀.lookupInDocuments suffix := by
  rw [ForwardDeclResolver.lookupInDocuments, h.docInternalMap_eq]
  rfl

/-- The externals that are found for a suffix that no document defines are the names it
resolves to. -/
theorem ResolverInv.resolvedNames_of_externals
    (h : ResolverInv builder₀ resolver₀ processed builder resolver) {suffix : Str}
    {externals : List Str} (hdocuments : resolver₀.lookupInDocuments suffix = none)
    (hexternals : resolver.lookupExternals suffix = some externals) :
    resolvedNames builder₀ resolver₀ suffix = externals := by
  rcases h.externals suffix with hsame | hsettled
  · simp only [resolvedNames, hdocuments, ← hsame, hexternals, Option.getD_some]
  · simp only [Settled, hdocuments, hexternals, Option.some.injEq] at hsettled
    exact hsettled.symm

/-- If no externals are found either, the suffix resolves to a made up name. -/
theorem ResolverInv.resolvedNames_of_none
    (h : ResolverInv builder₀ resolver₀ processed builder resolver) {suffix : Str}
    (hdocuments : resolver₀.lookupInDocuments suffix = none)
    (hexternals : resolver.lookupExternals suffix = none) :
    resolvedNames builder₀ resolver₀ suffix = [addFakePrefix suffix] := by
  rcases h.externals suffix with hsame | hsettled
  · simp only [resolvedNames, hdocuments, ← hsame, hexternals, Option.getD_none]
  · simp only [Settled, hdocuments, hexternals, reduceCtorEq] at hsettled

/-- A made up name is new. -/
theorem ResolverInv.addFakePrefix_notMem
    (h : ResolverInv builder₀ resolver₀ processed builder resolver) {suffix : Str}
    (hexternals : resolver.lookupExternals suffix = none) :
    addFakePrefix suffix ∉ builder.externalSymbols := by
  intro hmem
  exact h.tracks.lookup_eq_none.mp hexternals _ hmem
    (getPackageAgnosticSuffix_addFakePrefix suffix)

/-- A suffix that a document defines. -/
theorem ResolverInv.addForwardDeclaration_defined (hpointers : PointersValid builder₀ resolver₀)
    (h : ResolverInv builder₀ resolver₀ processed builder resolver) (order : IterationOrder Table)
    {ptr : SymbolInfoOrBuilderPtr}
    (hptr : resolver₀.lookupInDocuments forwardDecl.suffix = some ptr) :
    ∃ builder' resolver',
      builder.addForwardDeclaration resolver order forwardDecl = some (builder', resolver') ∧
        ResolverInv builder₀ resolver₀ (processed ++ [forwardDecl]) builder' resolver' := by
  obtain ⟨name, hname, -⟩ := hpointers _ ptr hptr
  obtain ⟨hnames, hoccurrences, hinternal, htracks, hdropped, hother⟩ :=
    dropExternals_spec h.tracks order forwardDecl.suffix
  have hread : (builder.dropExternals resolver order forwardDecl.suffix).1.nameOf ptr =
      some name := by
    rw [hnames, h.nameOf_eq, hname]
  unfold addForwardDeclaration
  rw [h.lookupInDocuments_eq, hptr]
  simp only [hread, Option.bind_eq_bind, Option.bind_some]
  refine ⟨_, _, rfl, ?_⟩
  have hresolved : resolvedNames builder₀ resolver₀ forwardDecl.suffix = [name] := by
    simp only [resolvedNames, hptr, hname, Option.toList_some]
  -- whether documentation is written or not, only names and externals matter
  have hframe : ∀ builder' : IndexBuilder,
      builder'.nameOf = (builder.dropExternals resolver order forwardDecl.suffix).1.nameOf →
      builder'.externalSymbols =
        (builder.dropExternals resolver order forwardDecl.suffix).1.externalSymbols →
      builder'.forwardDeclOccurenceMap =
        (builder.dropExternals resolver order forwardDecl.suffix).1.forwardDeclOccurenceMap →
      ResolverInv builder₀ resolver₀ (processed ++ [forwardDecl])
        (builder'.addForwardDeclOccurrences name forwardDecl)
        (builder.dropExternals resolver order forwardDecl.suffix).2 := by
    intro builder' hnames' hexternals' hmap'
    refine h.extend hinternal ((nameOf_congr rfl rfl).trans (hnames'.trans hnames)) ?_ hother ?_ ?_
    · simpa only [addForwardDeclOccurrences, hexternals'] using htracks
    · simpa only [Settled, hptr] using hdropped
    · intro path
      have hsame : builder'.occurrencesAt path = builder.occurrencesAt path := by
        rw [← hoccurrences path, occurrencesAt, occurrencesAt, hmap']
      rw [occurrencesAt_addForwardDeclOccurrences, hsame, hresolved, List.flatMap_singleton]
  split
  · obtain ⟨hexternals', hmap'⟩ := frame_setMissingDocumentation
      (builder.dropExternals resolver order forwardDecl.suffix).1 forwardDecl.documentation ptr
    exact hframe _ (nameOf_setMissingDocumentation _ _ _) hexternals' hmap'
  · exact hframe _ rfl rfl rfl

/-- A suffix that no document defines. -/
theorem ResolverInv.addForwardDeclaration_undefined
    (h : ResolverInv builder₀ resolver₀ processed builder resolver) (order : IterationOrder Table)
    (hptr : resolver₀.lookupInDocuments forwardDecl.suffix = none) :
    ∃ builder' resolver',
      builder.addForwardDeclaration resolver order forwardDecl = some (builder', resolver') ∧
        ResolverInv builder₀ resolver₀ (processed ++ [forwardDecl]) builder' resolver' := by
  unfold addForwardDeclaration
  rw [h.lookupInDocuments_eq, hptr]
  simp only [resolveOutsideDocuments]
  cases hlookup : resolver.lookupExternals forwardDecl.suffix with
  | some externals =>
      have hresolved := h.resolvedNames_of_externals hptr hlookup
      have hperm := order.perm (.externals forwardDecl.suffix) externals
      obtain ⟨builder', hfold, hnames, hexternals, hoccurrences⟩ :=
        foldlM_resolveExternal_spec forwardDecl
          (order.iterate (.externals forwardDecl.suffix) externals) fun name hname =>
            ((h.tracks.mem_of_lookup hlookup).mp (hperm.mem_iff.mp hname)).1
      simp only [hfold, Option.bind_eq_bind, Option.bind_some]
      refine ⟨_, _, rfl, h.extend rfl hnames ?_ (fun _ _ => rfl) ?_ ?_⟩
      · simpa only [hexternals] using h.tracks
      · simp only [Settled, hptr, hlookup, hresolved]
      · intro path
        rw [hoccurrences, hresolved]
        exact (hperm.flatMap_right _).append_left _
  | none =>
      have hresolved := h.resolvedNames_of_none hptr hlookup
      have hnew := h.addFakePrefix_notMem hlookup
      have htracks := ForwardDeclResolver.tracks_insertExternal h.tracks
        (addFakePrefix forwardDecl.suffix)
      refine ⟨_, _, rfl, h.extend (ForwardDeclResolver.docInternalMap_insertExternal _ _)
        ?_ ?_ ?_ ?_ ?_⟩
      · rw [addExternalSymbolUnchecked, if_neg hnew]
        exact nameOf_congr rfl rfl
      · simpa only [addExternalSymbolUnchecked, if_neg hnew, addForwardDeclOccurrences,
          AList.mem_insert, or_comm] using htracks
      · intro other hother
        rw [ForwardDeclResolver.lookupExternals, ForwardDeclResolver.lookup_insertExternal,
          getPackageAgnosticSuffix_addFakePrefix,
          if_neg fun heq => hother (Option.some.inj heq).symm]
        rfl
      · simp only [Settled, hptr, hresolved, ForwardDeclResolver.lookupExternals,
          ForwardDeclResolver.lookup_insertExternal, getPackageAgnosticSuffix_addFakePrefix,
          if_true]
        rw [ForwardDeclResolver.lookupExternals] at hlookup
        rw [hlookup]
        rfl
      · intro path
        rw [occurrencesAt_addForwardDeclOccurrences, hresolved, List.flatMap_singleton,
          addExternalSymbolUnchecked, if_neg hnew]
        exact List.Perm.refl _

/-- **One forward declaration.** -/
theorem ResolverInv.addForwardDeclaration_spec (hpointers : PointersValid builder₀ resolver₀)
    (h : ResolverInv builder₀ resolver₀ processed builder resolver) (order : IterationOrder Table)
    (forwardDecl : ForwardDecl) :
    ∃ builder' resolver',
      builder.addForwardDeclaration resolver order forwardDecl = some (builder', resolver') ∧
        ResolverInv builder₀ resolver₀ (processed ++ [forwardDecl]) builder' resolver' := by
  cases hptr : resolver₀.lookupInDocuments forwardDecl.suffix with
  | some ptr => exact h.addForwardDeclaration_defined hpointers order hptr
  | none => exact h.addForwardDeclaration_undefined order hptr

/-- **A sequence of forward declarations.** -/
theorem ResolverInv.addForwardDeclarations_spec (hpointers : PointersValid builder₀ resolver₀)
    (h : ResolverInv builder₀ resolver₀ processed builder resolver)
    (forwardDecls : List (IterationOrder Table × ForwardDecl)) :
    ∃ builder' resolver',
      builder.addForwardDeclarations resolver forwardDecls = some (builder', resolver') ∧
        ResolverInv builder₀ resolver₀ (processed ++ forwardDecls.map Prod.snd)
          builder' resolver' := by
  induction forwardDecls generalizing processed builder resolver with
  | nil => exact ⟨builder, resolver, rfl, by simpa using h⟩
  | cons forwardDecl forwardDecls ih =>
      obtain ⟨middle, middleResolver, hstep, hmiddle⟩ :=
        h.addForwardDeclaration_spec hpointers forwardDecl.1 forwardDecl.2
      obtain ⟨builder', resolver', hrest, hinv⟩ := ih hmiddle
      refine ⟨builder', resolver', ?_, ?_⟩
      · rw [addForwardDeclarations, List.foldlM_cons, hstep]
        exact hrest
      · rw [List.map_cons, ← List.singleton_append, ← List.append_assoc]
        exact hinv

/-- What every call preserves holds after a sequence of calls. -/
theorem ResolverInv.addForwardDeclarations_induction (hpointers : PointersValid builder₀ resolver₀)
    {motive : List ForwardDecl → IndexBuilder → Prop}
    (hstep : ∀ {processed builder resolver order forwardDecl builder' resolver'},
      ResolverInv builder₀ resolver₀ processed builder resolver → motive processed builder →
      builder.addForwardDeclaration resolver order forwardDecl = some (builder', resolver') →
        motive (processed ++ [forwardDecl]) builder')
    (h : ResolverInv builder₀ resolver₀ processed builder resolver)
    (hbuilder : motive processed builder)
    {forwardDecls : List (IterationOrder Table × ForwardDecl)}
    (hrun : builder.addForwardDeclarations resolver forwardDecls = some (builder', resolver')) :
    motive (processed ++ forwardDecls.map Prod.snd) builder' := by
  induction forwardDecls generalizing processed builder resolver with
  | nil =>
      obtain ⟨rfl, -⟩ := Prod.mk.inj (Option.some.inj hrun)
      simpa using hbuilder
  | cons forwardDecl forwardDecls ih =>
      obtain ⟨middle, middleResolver, hcall, hmiddle⟩ :=
        h.addForwardDeclaration_spec hpointers forwardDecl.1 forwardDecl.2
      rw [addForwardDeclarations, List.foldlM_cons, hcall] at hrun
      have hlast := ih hmiddle (hstep h hbuilder hcall) hrun
      rw [List.map_cons, ← List.singleton_append, ← List.append_assoc]
      exact hlast

end Invariant

/-! ## Every sequence of forward declarations -/

/-- The names that a suffix is to resolve to, stated with the symbols of the documents and
the external symbols: one symbol of a document with that suffix, or else all external
symbols with that suffix, or else a made up name. -/
def IsResolution (builder : IndexBuilder) (suffix : Str) (names : List Str) : Prop :=
  (∃ name, builder.DefinesSymbol name ∧ getPackageAgnosticSuffix name = some suffix ∧
    names = [name]) ∨
  ((∀ name, builder.DefinesSymbol name → getPackageAgnosticSuffix name ≠ some suffix) ∧
    ((∃ name ∈ builder.externalSymbols, getPackageAgnosticSuffix name = some suffix) ∧
      names.Nodup ∧
      (∀ name, name ∈ names ↔
        name ∈ builder.externalSymbols ∧ getPackageAgnosticSuffix name = some suffix) ∨
    (∀ name ∈ builder.externalSymbols, getPackageAgnosticSuffix name ≠ some suffix) ∧
      names = [addFakePrefix suffix]))

/-- The name that `addForwardDeclaration` emplaces into `externalSymbols`, if it does. -/
def emplacedName (resolver : ForwardDeclResolver) (forwardDecl : ForwardDecl) : Option Str :=
  match resolver.lookupInDocuments forwardDecl.suffix,
      resolver.lookupExternals forwardDecl.suffix with
  | none, none => some (addFakePrefix forwardDecl.suffix)
  | _, _ => none

section Populated

variable (calls : List BuilderCall) (order : IterationOrder Table)

theorem pointersValid_populate :
    PointersValid (performAll calls) ((performAll calls).populateForwardDeclResolver order) := by
  intro suffix ptr hptr
  have hlookup := lookupInDocuments_populate calls order suffix
  rw [hptr] at hlookup
  exact hlookup

theorem isResolution_resolvedNames (suffix : Str) :
    (performAll calls).IsResolution suffix
      (resolvedNames (performAll calls)
        ((performAll calls).populateForwardDeclResolver order) suffix) := by
  have htracks := tracks_populate (performAll calls) order
  have hlookup := lookupInDocuments_populate calls order suffix
  unfold resolvedNames
  cases hptr : ((performAll calls).populateForwardDeclResolver order).lookupInDocuments suffix with
  | some ptr =>
      rw [hptr] at hlookup
      obtain ⟨name, hname, hsuffix⟩ := hlookup
      refine .inl ⟨name, definesSymbol_of_nameOf (namesAgree_performAll calls) hname, hsuffix, ?_⟩
      simp only [hname, Option.toList_some]
  | none =>
      rw [hptr] at hlookup
      refine .inr ⟨hlookup, ?_⟩
      simp only
      cases hexternals : ((performAll calls).populateForwardDeclResolver order).lookupExternals
          suffix with
      | some externals =>
          have hmem : ∀ name, name ∈ externals ↔ _ := fun _ => htracks.mem_of_lookup hexternals
          obtain ⟨name, hname⟩ :=
            List.exists_mem_of_ne_nil _ (htracks.ne_nil suffix externals hexternals)
          exact .inl ⟨⟨name, (hmem name).mp hname⟩, htracks.nodup suffix externals hexternals, hmem⟩
      | none => exact .inr ⟨htracks.lookup_eq_none.mp hexternals, rfl⟩

theorem occurrencesAt_performAll (path : Str) : (performAll calls).occurrencesAt path = [] := by
  rw [performAll_eq]
  rfl

end Populated

/-- A resolved name has a `SymbolInformation`. -/
theorem ResolverInv.hasSymbolInformation {builder₀ builder : IndexBuilder}
    {resolver₀ resolver : ForwardDeclResolver} {processed : List ForwardDecl}
    (hagree : builder₀.NamesAgree)
    (h : ResolverInv builder₀ resolver₀ processed builder resolver) {forwardDecl : ForwardDecl}
    (hmem : forwardDecl ∈ processed) {name : Str}
    (hname : name ∈ resolvedNames builder₀ resolver₀ forwardDecl.suffix) :
    builder.DefinesSymbol name ∨ name ∈ builder.externalSymbols := by
  have hsettled := h.settled forwardDecl hmem
  cases hptr : resolver₀.lookupInDocuments forwardDecl.suffix with
  | some ptr =>
      simp only [resolvedNames, hptr, Option.mem_toList] at hname
      have hagree' : builder.NamesAgree := by
        intro path key name
        rw [h.nameOf_eq]
        exact hagree path key name
      exact .inl (definesSymbol_of_nameOf hagree' (by rw [h.nameOf_eq, hname]))
  | none =>
      simp only [Settled, hptr] at hsettled
      exact .inr ((h.tracks.mem_of_lookup hsettled).mp hname).1

/-- A suffix that a document defines leaves no external symbol. -/
theorem ResolverInv.no_external_of_defined {builder₀ builder : IndexBuilder}
    {resolver₀ resolver : ForwardDeclResolver} {processed : List ForwardDecl}
    (h : ResolverInv builder₀ resolver₀ processed builder resolver) {forwardDecl : ForwardDecl}
    (hmem : forwardDecl ∈ processed)
    (hdefined : resolver₀.lookupInDocuments forwardDecl.suffix ≠ none) {name : Str}
    (hname : name ∈ builder.externalSymbols) :
    getPackageAgnosticSuffix name ≠ some forwardDecl.suffix := by
  have hsettled := h.settled forwardDecl hmem
  obtain ⟨ptr, hptr⟩ := Option.ne_none_iff_exists'.mp hdefined
  simp only [Settled, hptr] at hsettled
  exact h.tracks.lookup_eq_none.mp hsettled name hname

end IndexBuilder

end ScipClang
