import ScipClang.Scip.Merging

/-!
# Resolving forward declarations

A shard that only saw forward declarations of a symbol does not know in which package the
symbol is defined.  It records the part of the symbol name behind the package, the
*suffix*, and the driver finds the full names with that suffix once all shards are merged:
`ForwardDeclResolver` and the functions of `IndexBuilder` that use it
(`indexer/ScipExtras.cc`).

A pointer into a document or into a builder is modelled by where it points to.  Reading
through it, or through an iterator, gives `none` where the source has no defined
behaviour, so that `addForwardDeclaration` is a partial function.

## Main results

* `IndexBuilder.lookupInDocuments_populate`: which suffixes a new resolver finds in the
  documents.
* `IndexBuilder.tracks_populate`: a new resolver knows the external symbols of the builder.
-/

namespace ScipClang

open HashTables

/-! ## Suffixes -/

/-- `SymbolBuilder::getPackageAgnosticSuffix`. -/
def getPackageAgnosticSuffix (name : Str) : Option Str :=
  let ix := name.findIdx (· == '$')
  if ix = name.length ∨ ix = name.length - 1 ∨ name[ix + 1]? ≠ some ' ' then none
  else some (name.drop (ix + 2))

/-- `SymbolBuilder::addFakePrefix`. -/
def addFakePrefix (suffix : Str) : Str := "cxx . . $ ".toList ++ suffix

/-- The string is split at the first `$`. -/
theorem getPackageAgnosticSuffix_append {before : Str} (h : '$' ∉ before) (suffix : Str) :
    getPackageAgnosticSuffix (before ++ '$' :: ' ' :: suffix) = some suffix := by
  have hix : (before ++ '$' :: ' ' :: suffix).findIdx (· == '$') = before.length := by
    rw [List.findIdx_append]
    have hnone : before.findIdx (· == '$') = before.length := by
      rw [List.findIdx_eq_length]
      intro c hc
      simpa using fun heq : c = '$' => h (heq ▸ hc)
    rw [hnone]
    simp [List.findIdx_cons]
  have hguard : ¬(before.length = (before ++ '$' :: ' ' :: suffix).length ∨
      before.length = (before ++ '$' :: ' ' :: suffix).length - 1 ∨
      (before ++ '$' :: ' ' :: suffix)[before.length + 1]? ≠ some ' ') := by
    rw [List.length_append, List.length_cons, List.length_cons]
    rintro (hlength | hlength | hspace)
    · omega
    · omega
    · apply hspace
      rw [List.getElem?_append_right (by omega), Nat.add_sub_cancel_left]
      rfl
  simp only [getPackageAgnosticSuffix, hix]
  rw [if_neg hguard, ← List.drop_drop, List.drop_left]
  rfl

/-- A made up name has the suffix it was made up for. -/
@[simp] theorem getPackageAgnosticSuffix_addFakePrefix (suffix : Str) :
    getPackageAgnosticSuffix (addFakePrefix suffix) = some suffix :=
  @getPackageAgnosticSuffix_append "cxx . . ".toList (by decide) suffix

/-! ## The resolver -/

/-- `ForwardDeclResolver::SymbolInfoOrBuilderPtr`: a symbol of a document, by the two
indices, or of a builder, by its path and the name it is kept under. -/
inductive SymbolInfoOrBuilderPtr where
  | symbolInfo (document : Nat) (symbol : Nat)
  | builder (path : Str) (name : Str)
deriving DecidableEq

/-- `ForwardDeclResolver`. -/
structure ForwardDeclResolver where
  docInternalMap : AList (fun _ : Str => SymbolInfoOrBuilderPtr) := ∅
  externalsMap : AList (fun _ : Str => List Str) := ∅

namespace ForwardDeclResolver

/-- `ForwardDeclResolver::insert`: `emplace` keeps the pointer inserted first. -/
def insert (resolver : ForwardDeclResolver) (suffix : Str) (ptr : SymbolInfoOrBuilderPtr) :
    ForwardDeclResolver :=
  { resolver with docInternalMap := upsert resolver.docInternalMap suffix (·.getD ptr) }

/-- Insertion of a symbol of a document under its suffix, if it has one. -/
def insertSymbol (resolver : ForwardDeclResolver) (name : Str) (ptr : SymbolInfoOrBuilderPtr) :
    ForwardDeclResolver :=
  match getPackageAgnosticSuffix name with
  | some suffix => resolver.insert suffix ptr
  | none => resolver

/-- `ForwardDeclResolver::insertExternal`. -/
def insertExternal (resolver : ForwardDeclResolver) (symbol : Str) : ForwardDeclResolver :=
  match getPackageAgnosticSuffix symbol with
  | some suffix =>
      { resolver with
        externalsMap := upsert resolver.externalsMap suffix fun names =>
          insertBy compareStrings (names.getD []) symbol }
  | none => resolver

/-- `ForwardDeclResolver::lookupInDocuments`. -/
def lookupInDocuments (resolver : ForwardDeclResolver) (suffix : Str) :
    Option SymbolInfoOrBuilderPtr :=
  resolver.docInternalMap.lookup suffix

/-- `ForwardDeclResolver::lookupExternals`. -/
def lookupExternals (resolver : ForwardDeclResolver) (suffix : Str) : Option (List Str) :=
  resolver.externalsMap.lookup suffix

/-- `ForwardDeclResolver::deleteExternals`. -/
def deleteExternals (resolver : ForwardDeclResolver) (suffix : Str) : ForwardDeclResolver :=
  { resolver with externalsMap := resolver.externalsMap.erase suffix }

end ForwardDeclResolver

/-- `DocumentBuilder::populateForwardDeclResolver`. -/
def DocumentBuilder.populateForwardDeclResolver (builder : DocumentBuilder)
    (order : IterationOrder Table) (path : Str) (resolver : ForwardDeclResolver) :
    ForwardDeclResolver :=
  (order.iterate (.symbolInfos path) builder.symbolInfos.entries).foldl
    (fun resolver entry => resolver.insertSymbol entry.1 (.builder path entry.1)) resolver

namespace IndexBuilder

/-- `IndexBuilder::populateForwardDeclResolver`. -/
def populateForwardDeclResolver (builder : IndexBuilder) (order : IterationOrder Table) :
    ForwardDeclResolver :=
  let resolver := builder.documents.zipIdx.foldl
    (fun resolver document => document.1.symbols.zipIdx.foldl
      (fun resolver symbolInfo =>
        resolver.insertSymbol symbolInfo.1.symbol (.symbolInfo document.2 symbolInfo.2))
      resolver)
    ({} : ForwardDeclResolver)
  let resolver := (order.iterate .multiplyIndexed builder.multiplyIndexed.entries).foldl
    (fun resolver entry => entry.2.populateForwardDeclResolver order entry.1 resolver) resolver
  (order.iterate .externalSymbols builder.externalSymbols.keys).foldl
    ForwardDeclResolver.insertExternal resolver

/-- `forwardDeclOccurenceMap[path].emplace_back(..)`. -/
def addForwardDeclOccurrence (name : Str) (forwardDeclOccurenceMap : ForwardDeclOccurrenceMap)
    (ref : ForwardDeclReference) : ForwardDeclOccurrenceMap :=
  upsert forwardDeclOccurenceMap ref.relativePath fun occurrences =>
    occurrences.getD [] ++ [.ofReference name ref]

/-- `IndexBuilder::addForwardDeclOccurrences`. -/
def addForwardDeclOccurrences (builder : IndexBuilder) (name : Str) (forwardDecl : ForwardDecl) :
    IndexBuilder :=
  { builder with
    forwardDeclOccurenceMap := forwardDecl.references.foldl (addForwardDeclOccurrence name)
      builder.forwardDeclOccurenceMap }

/-- The symbol name that is read through a pointer. -/
def nameOf (builder : IndexBuilder) : SymbolInfoOrBuilderPtr → Option Str
  | .symbolInfo document symbol =>
      (builder.documents[document]?.bind (·.symbols[symbol]?)).map SymbolInformation.symbol
  | .builder path name =>
      ((builder.multiplyIndexed.lookup path).bind (·.symbolInfos.lookup name)).map
        SymbolInformationBuilder.name

/-- The documentation of a `SymbolInformation` without documentation is replaced. -/
def documentSymbol (documentation : Str) (symbolInfo : SymbolInformation) : SymbolInformation :=
  if hasDocumentation symbolInfo.documentation then symbolInfo
  else { symbolInfo with documentation := [documentation] }

/-- The documentation of a `SymbolInformationBuilder` without documentation is replaced. -/
def documentBuilder (documentation : Str) (symbolInfoBuilder : SymbolInformationBuilder) :
    SymbolInformationBuilder :=
  if hasDocumentation symbolInfoBuilder.documentation then symbolInfoBuilder
  else symbolInfoBuilder.setDocumentation [documentation]

/-- The documentation of a forward declaration is written through a pointer. -/
def setMissingDocumentation (builder : IndexBuilder) (documentation : Str) :
    SymbolInfoOrBuilderPtr → IndexBuilder
  | .symbolInfo document symbol =>
      { builder with
        documents := builder.documents.modify document fun doc =>
          { doc with symbols := doc.symbols.modify symbol (documentSymbol documentation) } }
  | .builder path name =>
      match builder.multiplyIndexed.lookup path with
      | none => builder
      | some docBuilder =>
          match docBuilder.symbolInfos.lookup name with
          | none => builder
          | some symbolInfoBuilder =>
              { builder with
                multiplyIndexed := builder.multiplyIndexed.insert path
                  { docBuilder with
                    symbolInfos := docBuilder.symbolInfos.insert name
                      (documentBuilder documentation symbolInfoBuilder) } }

/-- The loop body for an external symbol with the suffix of a forward declaration. -/
def resolveExternal (forwardDecl : ForwardDecl) (builder : IndexBuilder) (symbolName : Str) :
    Option IndexBuilder := do
  let symbolInfoBuilder ← builder.externalSymbols.lookup symbolName
  let externalSymbols := builder.externalSymbols.insert symbolName
    (documentBuilder forwardDecl.documentation symbolInfoBuilder)
  some ({ builder with externalSymbols := externalSymbols }.addForwardDeclOccurrences
    symbolName forwardDecl)

/-- The branch of `IndexBuilder::addForwardDeclaration` for a suffix that no document
defines. -/
def resolveOutsideDocuments (builder : IndexBuilder) (forwardDeclResolver : ForwardDeclResolver)
    (order : IterationOrder Table) (forwardDecl : ForwardDecl) :
    Option (IndexBuilder × ForwardDeclResolver) :=
  match forwardDeclResolver.lookupExternals forwardDecl.suffix with
  | some externals => do
      let builder ← (order.iterate (.externals forwardDecl.suffix) externals).foldlM
        (resolveExternal forwardDecl) builder
      some (builder, forwardDeclResolver)
  | none =>
      let name := addFakePrefix forwardDecl.suffix
      let builder := builder.addExternalSymbolUnchecked name
        { documentation := [forwardDecl.documentation] }
      some (builder.addForwardDeclOccurrences name forwardDecl,
        forwardDeclResolver.insertExternal name)

/-- The external symbols with the suffix of a symbol in a document are dropped. -/
def dropExternals (builder : IndexBuilder) (forwardDeclResolver : ForwardDeclResolver)
    (order : IterationOrder Table) (suffix : Str) : IndexBuilder × ForwardDeclResolver :=
  match forwardDeclResolver.lookupExternals suffix with
  | some externals =>
      ({ builder with
          externalSymbols := (order.iterate (.externals suffix) externals).foldl
            (fun externalSymbols name => externalSymbols.erase name) builder.externalSymbols },
        forwardDeclResolver.deleteExternals suffix)
  | none => (builder, forwardDeclResolver)

/-- `IndexBuilder::addForwardDeclaration`. -/
def addForwardDeclaration (builder : IndexBuilder) (forwardDeclResolver : ForwardDeclResolver)
    (order : IterationOrder Table) (forwardDecl : ForwardDecl) :
    Option (IndexBuilder × ForwardDeclResolver) :=
  match forwardDeclResolver.lookupInDocuments forwardDecl.suffix with
  | none => builder.resolveOutsideDocuments forwardDeclResolver order forwardDecl
  | some ptr => do
      let (builder, forwardDeclResolver) :=
        builder.dropExternals forwardDeclResolver order forwardDecl.suffix
      let name ← builder.nameOf ptr
      let builder :=
        if forwardDecl.documentation ≠ [] then
          builder.setMissingDocumentation forwardDecl.documentation ptr
        else builder
      some (builder.addForwardDeclOccurrences name forwardDecl, forwardDeclResolver)

/-- The driver passes one forward declaration after the other; hash tables may be iterated
differently every time. -/
def addForwardDeclarations (builder : IndexBuilder) (forwardDeclResolver : ForwardDeclResolver)
    (forwardDecls : List (IterationOrder Table × ForwardDecl)) :
    Option (IndexBuilder × ForwardDeclResolver) :=
  forwardDecls.foldlM
    (fun state forwardDecl => state.1.addForwardDeclaration state.2 forwardDecl.1 forwardDecl.2)
    (builder, forwardDeclResolver)

end IndexBuilder

/-! ## What the resolver knows initially -/

namespace ForwardDeclResolver

@[simp] theorem externalsMap_insertSymbol (resolver : ForwardDeclResolver) (name : Str)
    (ptr : SymbolInfoOrBuilderPtr) :
    (resolver.insertSymbol name ptr).externalsMap = resolver.externalsMap := by
  unfold insertSymbol
  split <;> rfl

@[simp] theorem docInternalMap_insertExternal (resolver : ForwardDeclResolver) (symbol : Str) :
    (resolver.insertExternal symbol).docInternalMap = resolver.docInternalMap := by
  unfold insertExternal
  split <;> rfl

theorem lookup_insertSymbol (resolver : ForwardDeclResolver) (name suffix : Str)
    (ptr : SymbolInfoOrBuilderPtr) :
    (resolver.insertSymbol name ptr).docInternalMap.lookup suffix =
      if getPackageAgnosticSuffix name = some suffix then
        some ((resolver.docInternalMap.lookup suffix).getD ptr)
      else resolver.docInternalMap.lookup suffix := by
  unfold insertSymbol
  cases hsuffix : getPackageAgnosticSuffix name with
  | none => simp
  | some other =>
      simp only [insert, lookup_upsert, Option.some.injEq]
      by_cases h : other = suffix
      · subst h
        simp
      · simp [h, Ne.symm h]

theorem lookup_insertExternal (resolver : ForwardDeclResolver) (symbol suffix : Str) :
    (resolver.insertExternal symbol).externalsMap.lookup suffix =
      if getPackageAgnosticSuffix symbol = some suffix then
        some (insertBy compareStrings ((resolver.externalsMap.lookup suffix).getD []) symbol)
      else resolver.externalsMap.lookup suffix := by
  unfold insertExternal
  cases hsuffix : getPackageAgnosticSuffix symbol with
  | none => simp
  | some other =>
      simp only [lookup_upsert, Option.some.injEq]
      by_cases h : other = suffix
      · subst h
        simp
      · simp [h, Ne.symm h]

/-- The pointer kept for a suffix is the first one that was inserted for it. -/
theorem lookup_foldl_insertSymbol (pointers : List (Str × SymbolInfoOrBuilderPtr))
    (resolver : ForwardDeclResolver) (suffix : Str) :
    (pointers.foldl (fun resolver pointer => resolver.insertSymbol pointer.1 pointer.2)
        resolver).docInternalMap.lookup suffix =
      (resolver.docInternalMap.lookup suffix).or
        ((pointers.find? fun pointer =>
          getPackageAgnosticSuffix pointer.1 = some suffix).map Prod.snd) := by
  induction pointers generalizing resolver with
  | nil => simp
  | cons pointer pointers ih =>
      rw [List.foldl_cons, ih, lookup_insertSymbol]
      by_cases hsuffix : getPackageAgnosticSuffix pointer.1 = some suffix
      · rw [if_pos hsuffix, List.find?_cons_of_pos (by simpa using hsuffix)]
        cases resolver.docInternalMap.lookup suffix <;> rfl
      · rw [if_neg hsuffix, List.find?_cons_of_neg (by simpa using hsuffix)]

theorem externalsMap_foldl_insertSymbol (pointers : List (Str × SymbolInfoOrBuilderPtr))
    (resolver : ForwardDeclResolver) :
    (pointers.foldl (fun resolver pointer => resolver.insertSymbol pointer.1 pointer.2)
      resolver).externalsMap = resolver.externalsMap := by
  induction pointers generalizing resolver with
  | nil => rfl
  | cons pointer pointers ih => rw [List.foldl_cons, ih, externalsMap_insertSymbol]

/-- The map of externals lists, under every suffix, the names of `externalSymbols` with
that suffix. -/
structure Tracks (resolver : ForwardDeclResolver) (externalSymbols : Str → Prop) : Prop where
  mem_iff : ∀ suffix name, name ∈ (resolver.externalsMap.lookup suffix).getD [] ↔
    externalSymbols name ∧ getPackageAgnosticSuffix name = some suffix
  nodup : ∀ suffix names, resolver.externalsMap.lookup suffix = some names → names.Nodup
  ne_nil : ∀ suffix names, resolver.externalsMap.lookup suffix = some names → names ≠ []

theorem Tracks.mem_of_lookup {resolver : ForwardDeclResolver} {externalSymbols : Str → Prop}
    (h : resolver.Tracks externalSymbols) {suffix name : Str} {names : List Str}
    (hlookup : resolver.externalsMap.lookup suffix = some names) :
    name ∈ names ↔ externalSymbols name ∧ getPackageAgnosticSuffix name = some suffix := by
  rw [← h.mem_iff, hlookup, Option.getD_some]

theorem Tracks.lookup_eq_none {resolver : ForwardDeclResolver} {externalSymbols : Str → Prop}
    (h : resolver.Tracks externalSymbols) {suffix : Str} :
    resolver.externalsMap.lookup suffix = none ↔
      ∀ name, externalSymbols name → getPackageAgnosticSuffix name ≠ some suffix := by
  constructor
  · intro hnone name hname hsuffix
    have hmem := (h.mem_iff suffix name).mpr ⟨hname, hsuffix⟩
    rw [hnone] at hmem
    cases hmem
  · intro hall
    cases hlookup : resolver.externalsMap.lookup suffix with
    | none => rfl
    | some names =>
        obtain ⟨name, hmem⟩ := List.exists_mem_of_ne_nil _ (h.ne_nil suffix names hlookup)
        obtain ⟨hname, hsuffix⟩ := (h.mem_of_lookup hlookup).mp hmem
        exact absurd hsuffix (hall name hname)

/-- Inserting an external symbol keeps track of it. -/
theorem tracks_insertExternal {resolver : ForwardDeclResolver} {externalSymbols : Str → Prop}
    (h : resolver.Tracks externalSymbols) (symbol : Str) :
    (resolver.insertExternal symbol).Tracks fun name => externalSymbols name ∨ name = symbol where
  mem_iff := by
    intro suffix name
    rw [lookup_insertExternal]
    by_cases hsuffix : getPackageAgnosticSuffix symbol = some suffix
    · rw [if_pos hsuffix, Option.getD_some, mem_insertBy, h.mem_iff]
      constructor
      · rintro (⟨hname, hs⟩ | rfl)
        · exact ⟨.inl hname, hs⟩
        · exact ⟨.inr rfl, hsuffix⟩
      · rintro ⟨hname | rfl, hs⟩
        · exact .inl ⟨hname, hs⟩
        · exact .inr rfl
    · rw [if_neg hsuffix, h.mem_iff]
      constructor
      · rintro ⟨hname, hs⟩
        exact ⟨.inl hname, hs⟩
      · rintro ⟨hname | rfl, hs⟩
        · exact ⟨hname, hs⟩
        · exact absurd hs hsuffix
  nodup := by
    intro suffix names hlookup
    rw [lookup_insertExternal] at hlookup
    split at hlookup
    · obtain rfl := Option.some.inj hlookup
      refine nodup_insertBy ?_ symbol
      cases hold : resolver.externalsMap.lookup suffix with
      | none => exact List.nodup_nil
      | some names => exact h.nodup suffix names hold
    · exact h.nodup suffix names hlookup
  ne_nil := by
    intro suffix names hlookup
    rw [lookup_insertExternal] at hlookup
    split at hlookup
    · obtain rfl := Option.some.inj hlookup
      exact List.ne_nil_of_mem (mem_insertBy.mpr (.inr rfl))
    · exact h.ne_nil suffix names hlookup

theorem tracks_foldl_insertExternal (symbols : List Str) {resolver : ForwardDeclResolver}
    {externalSymbols : Str → Prop} (h : resolver.Tracks externalSymbols) :
    (symbols.foldl insertExternal resolver).Tracks fun name =>
      externalSymbols name ∨ name ∈ symbols := by
  induction symbols generalizing resolver externalSymbols with
  | nil => simpa using h
  | cons symbol symbols ih =>
      have htail := ih (tracks_insertExternal h symbol)
      simpa only [List.foldl_cons, List.mem_cons, or_assoc] using htail

theorem docInternalMap_foldl_insertExternal (symbols : List Str) (resolver : ForwardDeclResolver) :
    (symbols.foldl insertExternal resolver).docInternalMap = resolver.docInternalMap := by
  induction symbols generalizing resolver with
  | nil => rfl
  | cons symbol symbols ih => rw [List.foldl_cons, ih, docInternalMap_insertExternal]

end ForwardDeclResolver

namespace IndexBuilder

/-- Some document has a `SymbolInformation` for the name. -/
def DefinesSymbol (builder : IndexBuilder) (name : Str) : Prop :=
  (∃ doc ∈ builder.documents, ∃ symbolInfo ∈ doc.symbols, symbolInfo.symbol = name) ∨
    ∃ path docBuilder, builder.multiplyIndexed.lookup path = some docBuilder ∧
      name ∈ docBuilder.symbolInfos

/-- The builders of symbols carry the names they are kept under. -/
def NamesAgree (builder : IndexBuilder) : Prop :=
  ∀ path key name, builder.nameOf (.builder path key) = some name → name = key

theorem namesAgree_performAll (calls : List BuilderCall) : (performAll calls).NamesAgree := by
  intro path key name hname
  simp only [nameOf, Option.map_eq_some_iff, Option.bind_eq_some_iff] at hname
  obtain ⟨symbolInfoBuilder, ⟨docBuilder, hpath, hkey⟩, rfl⟩ := hname
  exact ((mergedFrom_of_lookup hpath).1.lookup_collects key symbolInfoBuilder hkey).name_eq

/-- A name that is read through a pointer is defined in a document. -/
theorem definesSymbol_of_nameOf {builder : IndexBuilder} (hagree : builder.NamesAgree)
    {ptr : SymbolInfoOrBuilderPtr} {name : Str} (h : builder.nameOf ptr = some name) :
    builder.DefinesSymbol name := by
  cases ptr with
  | symbolInfo document symbol =>
      simp only [nameOf, Option.map_eq_some_iff, Option.bind_eq_some_iff] at h
      obtain ⟨symbolInfo, ⟨doc, hdoc, hsymbol⟩, rfl⟩ := h
      exact .inl ⟨doc, List.mem_of_getElem? hdoc, symbolInfo, List.mem_of_getElem? hsymbol, rfl⟩
  | builder path key =>
      obtain rfl := hagree path key name h
      simp only [nameOf, Option.map_eq_some_iff, Option.bind_eq_some_iff] at h
      obtain ⟨symbolInfoBuilder, ⟨docBuilder, hpath, hkey⟩, -⟩ := h
      exact .inr ⟨path, docBuilder, hpath, AList.lookup_isSome.mp (by rw [hkey]; rfl)⟩

/-- The symbols of all documents with pointers to them, in the order of
`populateForwardDeclResolver`. -/
def symbolPointers (builder : IndexBuilder) (order : IterationOrder Table) :
    List (Str × SymbolInfoOrBuilderPtr) :=
  (builder.documents.zipIdx.flatMap fun document =>
    document.1.symbols.zipIdx.map fun symbolInfo =>
      (symbolInfo.1.symbol, .symbolInfo document.2 symbolInfo.2)) ++
  (order.iterate .multiplyIndexed builder.multiplyIndexed.entries).flatMap fun entry =>
    (order.iterate (.symbolInfos entry.1) entry.2.symbolInfos.entries).map fun symbolInfo =>
      (symbolInfo.1, .builder entry.1 symbolInfo.1)

theorem populateForwardDeclResolver_eq (builder : IndexBuilder) (order : IterationOrder Table) :
    builder.populateForwardDeclResolver order =
      (order.iterate .externalSymbols builder.externalSymbols.keys).foldl
        ForwardDeclResolver.insertExternal
        ((builder.symbolPointers order).foldl
          (fun resolver pointer => resolver.insertSymbol pointer.1 pointer.2) {}) := by
  simp only [populateForwardDeclResolver, symbolPointers, List.foldl_append, List.foldl_flatMap,
    List.foldl_map, DocumentBuilder.populateForwardDeclResolver]

/-- Every pointer reads the name it is listed with. -/
theorem nameOf_of_mem_symbolPointers {calls : List BuilderCall} {order : IterationOrder Table}
    {name : Str} {ptr : SymbolInfoOrBuilderPtr}
    (h : (name, ptr) ∈ (performAll calls).symbolPointers order) :
    (performAll calls).nameOf ptr = some name := by
  rw [symbolPointers, List.mem_append, List.mem_flatMap, List.mem_flatMap] at h
  rcases h with ⟨⟨doc, i⟩, hdoc, h⟩ | ⟨⟨path, docBuilder⟩, hentry, h⟩
  · obtain ⟨⟨symbolInfo, j⟩, hsymbol, heq⟩ := List.mem_map.mp h
    obtain ⟨rfl, rfl⟩ := Prod.mk.inj heq
    rw [List.mem_zipIdx_iff_getElem?] at hdoc hsymbol
    simp only [nameOf, hdoc, Option.bind_some, hsymbol, Option.map_some]
  · obtain ⟨⟨key, symbolInfoBuilder⟩, hsymbol, heq⟩ := List.mem_map.mp h
    obtain ⟨rfl, rfl⟩ := Prod.mk.inj heq
    have hpath := AList.mem_lookup_iff.mpr ((order.perm _ _).mem_iff.mp hentry)
    have hkey := AList.mem_lookup_iff.mpr ((order.perm _ _).mem_iff.mp hsymbol)
    have hread : (performAll calls).nameOf (.builder path key) = some symbolInfoBuilder.name := by
      simp only [nameOf, Option.mem_def.mp hpath, Option.bind_some, Option.mem_def.mp hkey,
        Option.map_some]
    rw [hread, namesAgree_performAll calls path key _ hread]

/-- Every symbol of a document has a pointer. -/
theorem exists_mem_symbolPointers {builder : IndexBuilder} {name : Str}
    (h : builder.DefinesSymbol name) (order : IterationOrder Table) :
    ∃ ptr, (name, ptr) ∈ builder.symbolPointers order := by
  rcases h with ⟨doc, hdoc, symbolInfo, hsymbol, rfl⟩ | ⟨path, docBuilder, hpath, hname⟩
  · obtain ⟨i, hi⟩ := List.mem_iff_getElem?.mp hdoc
    obtain ⟨j, hj⟩ := List.mem_iff_getElem?.mp hsymbol
    refine ⟨.symbolInfo i j, List.mem_append_left _ (List.mem_flatMap.mpr ⟨(doc, i), ?_, ?_⟩)⟩
    · exact List.mem_zipIdx_iff_getElem?.mpr hi
    · exact List.mem_map.mpr ⟨(symbolInfo, j), List.mem_zipIdx_iff_getElem?.mpr hj, rfl⟩
  · obtain ⟨symbolInfoBuilder, hkey⟩ := Option.isSome_iff_exists.mp (AList.lookup_isSome.mpr hname)
    refine ⟨.builder path name, List.mem_append_right _
      (List.mem_flatMap.mpr ⟨⟨path, docBuilder⟩, ?_, ?_⟩)⟩
    · exact (order.perm _ _).mem_iff.mpr (AList.mem_lookup_iff.mp hpath)
    · exact List.mem_map.mpr ⟨⟨name, symbolInfoBuilder⟩,
        (order.perm _ _).mem_iff.mpr (AList.mem_lookup_iff.mp hkey), rfl⟩

/-- The resolver finds the first symbol with a suffix. -/
theorem lookupInDocuments_populate_eq (builder : IndexBuilder) (order : IterationOrder Table)
    (suffix : Str) :
    (builder.populateForwardDeclResolver order).lookupInDocuments suffix =
      ((builder.symbolPointers order).find? fun pointer =>
        getPackageAgnosticSuffix pointer.1 = some suffix).map Prod.snd := by
  rw [ForwardDeclResolver.lookupInDocuments, populateForwardDeclResolver_eq,
    ForwardDeclResolver.docInternalMap_foldl_insertExternal,
    ForwardDeclResolver.lookup_foldl_insertSymbol, AList.lookup_empty, Option.none_or]

/-- The resolver finds a suffix in the documents if and only if a document defines a symbol
with that suffix, and then finds such a symbol. -/
theorem lookupInDocuments_populate (calls : List BuilderCall) (order : IterationOrder Table)
    (suffix : Str) :
    match ((performAll calls).populateForwardDeclResolver order).lookupInDocuments suffix with
    | none => ∀ name, (performAll calls).DefinesSymbol name →
        getPackageAgnosticSuffix name ≠ some suffix
    | some ptr => ∃ name, (performAll calls).nameOf ptr = some name ∧
        getPackageAgnosticSuffix name = some suffix := by
  rw [lookupInDocuments_populate_eq]
  cases hfind : ((performAll calls).symbolPointers order).find? fun pointer =>
      getPackageAgnosticSuffix pointer.1 = some suffix with
  | none =>
      intro name hname hsuffix
      obtain ⟨ptr, hmem⟩ := exists_mem_symbolPointers hname order
      exact List.find?_eq_none.mp hfind (name, ptr) hmem (by simpa using hsuffix)
  | some pointer =>
      refine ⟨pointer.1, nameOf_of_mem_symbolPointers (List.mem_of_find?_eq_some hfind), ?_⟩
      simpa using List.find?_some hfind

theorem tracks_populate (builder : IndexBuilder) (order : IterationOrder Table) :
    (builder.populateForwardDeclResolver order).Tracks (· ∈ builder.externalSymbols) := by
  have hempty : ((builder.symbolPointers order).foldl
      (fun resolver pointer => resolver.insertSymbol pointer.1 pointer.2)
      ({} : ForwardDeclResolver)).Tracks fun _ => False := by
    have hnone : ∀ suffix, ((builder.symbolPointers order).foldl
        (fun resolver pointer => resolver.insertSymbol pointer.1 pointer.2)
        ({} : ForwardDeclResolver)).externalsMap.lookup suffix = none := by
      intro suffix
      rw [ForwardDeclResolver.externalsMap_foldl_insertSymbol, AList.lookup_empty]
    constructor <;> intros <;> simp_all
  have htracks := ForwardDeclResolver.tracks_foldl_insertExternal
    (order.iterate .externalSymbols builder.externalSymbols.keys) hempty
  rw [← populateForwardDeclResolver_eq] at htracks
  simpa only [false_or, (order.perm _ _).mem_iff, ← AList.mem_keys] using htracks

end IndexBuilder

end ScipClang
