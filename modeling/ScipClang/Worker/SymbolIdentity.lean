import ScipClang.Worker.DeclSymbols

/-!
# Symbols across translation units

A symbol is to be the same in all translation units, since that is how an occurrence in one
document finds its definition in another.  `SymbolFormatter` computes a symbol from the
declaration that happens to be asked for first, and remembers it for all others with the same
canonical declaration (see the note on `getCanonicalDecl` in `indexer/SymbolFormatter.cc`).

`DeclFormatter.plainSymbol` says what a declaration is called if nothing is remembered: the
package of its file and one descriptor for each context.  There is no such symbol for
declarations that are numbered, that is, for anonymous types and what is local to a file.

* `DeclFormatter.answerTo_plainSymbol`: the formatter comes to the same symbols, if the
  declarations with the same key agree about theirs.
* `DeclFormatter.sameSymbol_iff`: in different translation units, two declarations get the same
  symbol if and only if they have the same package and the same descriptors.
-/

namespace ScipClang

open Memo

namespace SymbolBuilder

/-- The symbol of what is declared in the context with this symbol. -/
def push (symbol : SymbolBuilder) (descriptor : DescriptorBuilder) : SymbolBuilder :=
  { symbol with descriptors := symbol.descriptors ++ [descriptor] }

theorem formatTo_push (symbol : SymbolBuilder) (descriptor : DescriptorBuilder) :
    (symbol.push descriptor).formatTo = formatContextual symbol.formatTo descriptor := by
  unfold push formatTo formatContextual
  dsimp only
  rw [List.flatMap_append, List.append_assoc, List.flatMap_singleton]

end SymbolBuilder

namespace DeclFormatter

/-! ## Plain symbols -/

section

variable (forText : Str → UInt64) (files : FileMetadataMap) (mainFilePath : Str)

/-- The symbol of the package of a file. -/
def packageSymbol (file : Option FileId) : Option SymbolBuilder :=
  file.bind fun fileId =>
    (files.getFileMetadata fileId).map fun fileMetadata => ⟨fileMetadata.packageId, []⟩

/-- The symbol of a tag declaration in a context. -/
def plainTag (decl : DeclInfo) (context : Option SymbolBuilder) : Option SymbolBuilder :=
  if decl.name = [] then none
  else context.map (·.push { name := decl.name, suffix := .Type })

/-- The symbol of a context, for a declaration at a location. -/
def plainContext : DeclContext → SourceLoc → Option SymbolBuilder
  | .translationUnit, loc => packageSymbol files loc.expansionFile
  | .externCContext, loc => packageSymbol files loc.expansionFile
  | .namespaceDecl decl context, loc =>
      (plainContext context loc.getExpansionLoc).map
        (·.push (namespaceDescriptor mainFilePath decl))
  | .tagDecl decl _ context, _ => plainTag decl (plainContext context decl.location)
  | .functionDecl decl context, _ =>
      (plainContext context decl.location).map (·.push (functionDescriptor forText decl))
  | .pending, _ => none

/-- The symbol of a declaration of the given name and suffix. -/
def plainMember (context : DeclContext) (decl : DeclInfo) (suffix : DescriptorSuffix) :
    Option SymbolBuilder :=
  (plainContext forText files mainFilePath context decl.location).map
    (·.push { name := decl.name, suffix })

/-- The symbol of a function. -/
def plainFunction (context : DeclContext) (decl : FunctionInfo) : Option SymbolBuilder :=
  (plainContext forText files mainFilePath context decl.location).map
    (·.push (functionDescriptor forText decl))

/-- The symbol of a field. -/
def plainField (context : DeclContext) (decl : DeclInfo) : Option SymbolBuilder :=
  if decl.name = [] then none else plainMember forText files mainFilePath context decl .Term

/-- The symbol of a variable. -/
def plainVar (context : DeclContext) (decl : VarInfo) : Option SymbolBuilder :=
  if decl.isLocalVarDeclOrParm ∧ ¬ decl.isLocalExternDecl ∨ decl.name = [] then none
  else
    match decl.kind with
    | .VarTemplatePartialSpecialization | .VarTemplateSpecialization | .Var =>
        plainMember forText files mainFilePath context decl.toDeclInfo .Term
    | .Decomposition | .ParmVar | .OMPCapturedExpr | .other => none

/-- The symbol of a declaration, if it has one that does not depend on the other
declarations. -/
def plainSymbol : NamedDecl → Option SymbolBuilder
  | .ClassTemplate decl _ context =>
      plainTag decl (plainContext forText files mainFilePath context decl.location)
  | .EnumConstant decl isScoped parentEnumDecl _ context =>
      (if isScoped then
        plainTag parentEnumDecl
          (plainContext forText files mainFilePath context parentEnumDecl.location)
      else plainContext forText files mainFilePath context decl.location).map
        (·.push { name := decl.name, suffix := .Term })
  | .Enum decl _ context =>
      plainTag decl (plainContext forText files mainFilePath context decl.location)
  | .Field decl context => plainField forText files mainFilePath context decl
  | .Function decl context => plainFunction forText files mainFilePath context decl
  | .FunctionTemplate decl context => plainFunction forText files mainFilePath context decl
  | .Namespace decl location context =>
      (plainContext forText files mainFilePath context location).map
        (·.push (namespaceDescriptor mainFilePath decl))
  | .Record decl _ context =>
      plainTag decl (plainContext forText files mainFilePath context decl.location)
  | .TypeAliasTemplate decl context => plainMember forText files mainFilePath context decl .Type
  | .TypedefName decl context => plainMember forText files mainFilePath context decl .Type
  | .UsingShadow decl underlyingDecl context =>
      if decl.name = [] then none
      else
        (usingSuffix forText underlyingDecl).bind fun suffix =>
          (plainContext forText files mainFilePath context decl.location).map
            (·.push { name := decl.name, disambiguator := suffix.2, suffix := suffix.1 })
  | .Var decl context => plainVar forText files mainFilePath context decl
  | .VarTemplate decl context => plainVar forText files mainFilePath context decl
  | .Binding _ | .NonTypeTemplateParm _ | .TemplateTemplateParm _ | .TemplateTypeParm _ |
    .Using | .other => none

/-! ## Agreement about keys -/

/-- The key of a package, with its symbol. -/
def packageKey (file : Option FileId) : List (CacheKey × Option SymbolBuilder) :=
  (file.map fun fileId =>
    (CacheKey.namespacePrefix none fileId, packageSymbol files (some fileId))).toList

/-- The keys of a context and of those around it, each with its plain symbol. -/
def contextKeys : DeclContext → SourceLoc → List (CacheKey × Option SymbolBuilder)
  | .translationUnit, loc => packageKey files loc.expansionFile
  | .externCContext, loc => packageKey files loc.expansionFile
  | .namespaceDecl decl context, loc =>
      (.namespacePrefix (some decl.canonicalDecl)
          (NamespacePrefixCache.getFileID loc.expansionFile),
        plainContext forText files mainFilePath (.namespaceDecl decl context) loc) ::
        contextKeys context loc.getExpansionLoc
  | .tagDecl decl definition context, loc =>
      (.decl decl.canonicalDecl,
        plainContext forText files mainFilePath (.tagDecl decl definition context) loc) ::
        contextKeys context decl.location
  | .functionDecl decl context, loc =>
      (.decl decl.canonicalDecl,
        plainContext forText files mainFilePath (.functionDecl decl context) loc) ::
        contextKeys context decl.location
  | .pending, _ => []

/-- The keys of the contexts of a declaration, each with its plain symbol. -/
def outerKeys : NamedDecl → List (CacheKey × Option SymbolBuilder)
  | .ClassTemplate decl _ context => contextKeys forText files mainFilePath context decl.location
  | .EnumConstant decl isScoped parentEnumDecl definition context =>
      if isScoped then
        contextKeys forText files mainFilePath (.tagDecl parentEnumDecl definition context)
          decl.location
      else contextKeys forText files mainFilePath context decl.location
  | .Enum decl _ context => contextKeys forText files mainFilePath context decl.location
  | .Field decl context => contextKeys forText files mainFilePath context decl.location
  | .Function decl context => contextKeys forText files mainFilePath context decl.location
  | .FunctionTemplate decl context => contextKeys forText files mainFilePath context decl.location
  | .Namespace _ location context => contextKeys forText files mainFilePath context location
  | .Record decl _ context => contextKeys forText files mainFilePath context decl.location
  | .TypeAliasTemplate decl context => contextKeys forText files mainFilePath context decl.location
  | .TypedefName decl context => contextKeys forText files mainFilePath context decl.location
  | .UsingShadow decl _ context => contextKeys forText files mainFilePath context decl.location
  | .Var decl context => contextKeys forText files mainFilePath context decl.location
  | .VarTemplate decl context => contextKeys forText files mainFilePath context decl.location
  | .Binding _ | .NonTypeTemplateParm _ | .TemplateTemplateParm _ | .TemplateTypeParm _ |
    .Using | .other => []

/-- All keys that are looked up for a declaration, each with its plain symbol. -/
def lookedUp (decl : NamedDecl) : List (CacheKey × Option SymbolBuilder) :=
  ((cacheKey decl).map fun key => (key, plainSymbol forText files mainFilePath decl)).toList ++
    outerKeys forText files mainFilePath decl

/-- Declarations with the same key, be they asked for or only contexts of others, have the same
plain symbol: so it is for the redeclarations of an entity. -/
def Coherent (requests : List NamedDecl) : Prop :=
  ∀ key symbol symbol', (key, symbol) ∈ requests.flatMap (lookedUp forText files mainFilePath) →
    (key, symbol') ∈ requests.flatMap (lookedUp forText files mainFilePath) → symbol = symbol'

end

/-! ## The formatter computes plain symbols -/

/-- The specification gives each key its plain symbol. -/
def Specifies (spec : CacheKey → Option Str) (keys : List (CacheKey × Option SymbolBuilder)) :
    Prop :=
  ∀ key symbol, (key, symbol) ∈ keys → spec key = symbol.map SymbolBuilder.formatTo

theorem exists_specifies {keys : List (CacheKey × Option SymbolBuilder)}
    (h : ∀ key symbol symbol', (key, symbol) ∈ keys → (key, symbol') ∈ keys → symbol = symbol') :
    ∃ spec, Specifies spec keys := by
  refine ⟨fun key => ((keys.find? fun entry => entry.1 = key).bind Prod.snd).map
    SymbolBuilder.formatTo, fun key symbol hmem => ?_⟩
  have hsome : (keys.find? fun entry => entry.1 = key).isSome := by
    rw [List.find?_isSome]
    exact ⟨(key, symbol), hmem, decide_eq_true rfl⟩
  obtain ⟨⟨other, found⟩, hfound⟩ := Option.isSome_iff_exists.mp hsome
  obtain rfl : other = key := by simpa using List.find?_some hfound
  dsimp only
  rw [hfound, h other symbol found hmem (List.mem_of_find?_eq_some hfound)]
  rfl

section Computes

variable {spec : CacheKey → Option Str} {forText : Str → UInt64} {files : FileMetadataMap}
  {mainFilePath : Str}

/-- Appending a descriptor, in the formatter and to the plain symbol. -/
theorem computes_formatContextual {x : Lookup DeclFormatter Str} {context : Option SymbolBuilder}
    (hx : symbolTable.Computes spec (context.map SymbolBuilder.formatTo) x)
    (descriptor : DescriptorBuilder) :
    symbolTable.Computes spec ((context.map (·.push descriptor)).map SymbolBuilder.formatTo) do
      let contextSymbol ← x
      return SymbolBuilder.formatContextual contextSymbol descriptor := by
  have hpush : (context.map (·.push descriptor)).map SymbolBuilder.formatTo =
      (context.map SymbolBuilder.formatTo).bind fun contextSymbol =>
        some (SymbolBuilder.formatContextual contextSymbol descriptor) := by
    cases context with
    | none => rfl
    | some symbol => exact congrArg some (symbol.formatTo_push descriptor)
  rw [hpush]
  exact hx.bind fun contextSymbol => (MemoTable.Computes.pure _).guarded _

/-- The same, with the symbol remembered under its key. -/
theorem computes_cached {x : Lookup DeclFormatter Str} {key : CacheKey}
    {symbol : Option SymbolBuilder} (hkey : spec key = symbol.map SymbolBuilder.formatTo)
    (hx : symbolTable.Computes spec (symbol.map SymbolBuilder.formatTo) x) :
    symbolTable.Computes spec (symbol.map SymbolBuilder.formatTo) (symbolTable.cached key x) := by
  rw [← hkey] at hx ⊢
  exact hx.cached

theorem computes_nextLocal (fileId : FileId) :
    symbolTable.Computes spec none (nextLocal fileId) := by
  refine MemoTable.Computes.get.bind_none fun formatter => ?_
  refine (MemoTable.Computes.modify ?_).forget.bind_none fun _ => ?_
  · intro s
    rfl
  · exact (MemoTable.Computes.pure _).forget

theorem computes_nextAnonymousType (fileId : FileId) :
    symbolTable.Computes spec none (nextAnonymousType fileId) := by
  refine MemoTable.Computes.get.bind_none fun formatter => ?_
  refine (MemoTable.Computes.modify ?_).forget.bind_none fun _ => ?_
  · intro s
    rfl
  · exact (MemoTable.Computes.pure _).forget

theorem computes_getNextLocalSymbol {decl : DeclInfo}
    (hkey : ∀ key, namedKey decl = some key → spec key = none) :
    symbolTable.Computes spec none (getNextLocalSymbol decl) := by
  unfold getNextLocalSymbol
  unfold namedKey at hkey
  split
  · exact .failure
  · rename_i hname
    rw [if_neg hname] at hkey
    show symbolTable.Computes spec ((none : Option SymbolBuilder).map SymbolBuilder.formatTo) _
    refine computes_cached (hkey _ rfl) ?_
    exact (computes_nextLocal _).bind_none fun counter =>
      (MemoTable.Computes.pure _).forget

theorem computes_getTagSymbol {decl : DeclInfo} {definition : Option TagDefinition}
    {x : Lookup DeclFormatter Str} {context : Option SymbolBuilder}
    (hkey : spec (.decl decl.canonicalDecl) =
      (plainTag decl context).map SymbolBuilder.formatTo)
    (hx : symbolTable.Computes spec (context.map SymbolBuilder.formatTo) x) :
    symbolTable.Computes spec ((plainTag decl context).map SymbolBuilder.formatTo)
      (getTagSymbol forText files decl definition x) := by
  refine computes_cached hkey ?_
  unfold plainTag
  by_cases hname : decl.name = []
  · -- an anonymous type has no plain symbol: its number depends on the requests made before
    rw [if_pos hname]
    refine hx.forget.bind_none fun contextSymbol => ?_
    rw [if_neg (not_not.mpr hname)]
    cases definition with
    | none => exact .failure
    | some definition =>
        exact (computes_nextAnonymousType _).bind_none fun counter =>
          (MemoTable.Computes.pure _).forget
  · simp only [ne_eq, hname, not_false_eq_true, if_true]
    exact computes_formatContextual hx _

theorem computes_getLocationBasedSymbolPrefix (loc : SourceLoc)
    (hspec : Specifies spec (packageKey files loc.file)) :
    symbolTable.Computes spec ((packageSymbol files loc.file).map SymbolBuilder.formatTo)
      (getLocationBasedSymbolPrefix files loc) := by
  unfold getLocationBasedSymbolPrefix
  cases hfile : loc.file with
  | none => exact .failure
  | some fileId =>
      rw [hfile] at hspec
      refine computes_cached (hspec _ _ (List.mem_singleton.mpr rfl)) ?_
      unfold packageSymbol
      rw [Option.bind_some]
      cases files.getFileMetadata fileId with
      | none => exact .failure
      | some fileMetadata => exact .pure _

/-- **The symbol of a context.** -/
theorem computes_getContextSymbol (context : DeclContext) (loc : SourceLoc)
    (hspec : Specifies spec (contextKeys forText files mainFilePath context loc)) :
    symbolTable.Computes spec
      ((plainContext forText files mainFilePath context loc).map SymbolBuilder.formatTo)
      (getContextSymbol forText files mainFilePath context loc) := by
  induction context generalizing loc with
  | translationUnit =>
      exact computes_getLocationBasedSymbolPrefix loc.getExpansionLoc hspec
  | externCContext =>
      exact computes_getLocationBasedSymbolPrefix loc.getExpansionLoc hspec
  | namespaceDecl decl context ih =>
      have hcontext := ih loc.getExpansionLoc fun key symbol hmem =>
        hspec key symbol (List.mem_cons_of_mem _ hmem)
      exact computes_cached (hspec _ _ List.mem_cons_self) (computes_formatContextual hcontext _)
  | tagDecl decl definition context ih =>
      have hcontext := ih decl.location fun key symbol hmem =>
        hspec key symbol (List.mem_cons_of_mem _ hmem)
      exact computes_getTagSymbol (hspec _ _ List.mem_cons_self) hcontext
  | functionDecl decl context ih =>
      have hcontext := ih decl.location fun key symbol hmem =>
        hspec key symbol (List.mem_cons_of_mem _ hmem)
      exact computes_cached (hspec _ _ List.mem_cons_self) (computes_formatContextual hcontext _)
  | pending => exact .failure

theorem computes_getFieldSymbol {decl : DeclInfo} {context : DeclContext}
    {x : Lookup DeclFormatter Str}
    (hkey : ∀ key, namedKey decl = some key →
      spec key = (plainField forText files mainFilePath context decl).map SymbolBuilder.formatTo)
    (hx : symbolTable.Computes spec
      ((plainContext forText files mainFilePath context decl.location).map
        SymbolBuilder.formatTo) x) :
    symbolTable.Computes spec
      ((plainField forText files mainFilePath context decl).map SymbolBuilder.formatTo)
      (getFieldSymbol decl x) := by
  unfold getFieldSymbol
  unfold plainField namedKey at *
  by_cases hname : decl.name = []
  · rw [if_pos hname, if_pos hname]
    exact .failure
  · rw [if_neg hname] at hkey ⊢
    rw [if_neg hname] at hkey ⊢
    exact computes_cached (hkey _ rfl) (computes_formatContextual hx _)

theorem computes_getUsingShadowSymbol {decl : DeclInfo} {underlyingDecl : UnderlyingDecl}
    {x : Lookup DeclFormatter Str} {context symbol : Option SymbolBuilder}
    (hsymbol : symbol = if decl.name = [] then none
      else (usingSuffix forText underlyingDecl).bind fun suffix => context.map
        (·.push { name := decl.name, disambiguator := suffix.2, suffix := suffix.1 }))
    (hkey : ∀ key, namedKey decl = some key → spec key = symbol.map SymbolBuilder.formatTo)
    (hx : symbolTable.Computes spec (context.map SymbolBuilder.formatTo) x) :
    symbolTable.Computes spec (symbol.map SymbolBuilder.formatTo)
      (getUsingShadowSymbol forText decl underlyingDecl x) := by
  unfold getUsingShadowSymbol
  unfold namedKey at hkey
  by_cases hname : decl.name = []
  · rw [if_pos hname] at hsymbol ⊢
    rw [hsymbol]
    exact .failure
  · rw [if_neg hname] at hsymbol hkey ⊢
    refine computes_cached (hkey _ rfl) ?_
    rw [hsymbol]
    cases usingSuffix forText underlyingDecl with
    | none => exact hx.forget.bind_none fun _ => .failure
    | some suffix => exact computes_formatContextual hx _

theorem computes_getVarSymbol {decl : VarInfo} {context : DeclContext}
    {x : Lookup DeclFormatter Str}
    (hkey : ∀ key, namedKey decl.toDeclInfo = some key →
      spec key = (plainVar forText files mainFilePath context decl).map SymbolBuilder.formatTo)
    (hx : symbolTable.Computes spec
      ((plainContext forText files mainFilePath context decl.location).map
        SymbolBuilder.formatTo) x) :
    symbolTable.Computes spec
      ((plainVar forText files mainFilePath context decl).map SymbolBuilder.formatTo)
      (getVarSymbol decl x) := by
  unfold getVarSymbol
  by_cases hlocal : decl.isLocalVarDeclOrParm ∧ ¬ decl.isLocalExternDecl
  · have hnone : plainVar forText files mainFilePath context decl = none :=
      if_pos (Or.inl hlocal)
    rw [if_pos hlocal]
    rw [hnone] at hkey ⊢
    exact computes_getNextLocalSymbol hkey
  · rw [if_neg hlocal]
    by_cases hname : decl.name = []
    · have hnone : plainVar forText files mainFilePath context decl = none :=
        if_pos (Or.inr hname)
      rw [if_pos hname, hnone]
      exact .failure
    · unfold namedKey at hkey
      rw [if_neg hname] at hkey ⊢
      refine computes_cached (hkey _ rfl) ?_
      unfold plainVar
      rw [if_neg (not_or.mpr ⟨hlocal, hname⟩)]
      cases decl.kind
      case VarTemplatePartialSpecialization => exact computes_formatContextual hx _
      case VarTemplateSpecialization => exact computes_formatContextual hx _
      case Var => exact computes_formatContextual hx _
      all_goals exact .failure

/-- **The symbol of a declaration**, whatever its kind. -/
theorem computes_getNamedDeclSymbol (decl : NamedDecl)
    (hspec : Specifies spec (lookedUp forText files mainFilePath decl)) :
    symbolTable.Computes spec
      ((plainSymbol forText files mainFilePath decl).map SymbolBuilder.formatTo)
      (getNamedDeclSymbol forText files mainFilePath decl) := by
  have hkey : ∀ key, cacheKey decl = some key → spec key =
      (plainSymbol forText files mainFilePath decl).map SymbolBuilder.formatTo := by
    intro key hkey
    apply hspec
    unfold lookedUp
    rw [hkey]
    exact List.mem_cons_self
  have houter : Specifies spec (outerKeys forText files mainFilePath decl) :=
    fun key symbol hmem => hspec key symbol (List.mem_append_right _ hmem)
  have hcontext := @computes_getContextSymbol spec forText files mainFilePath
  cases decl with
  | Binding decl => exact computes_getNextLocalSymbol hkey
  | ClassTemplate decl definition context =>
      exact computes_getTagSymbol (hkey _ rfl) (hcontext _ _ houter)
  | EnumConstant decl isScoped parentEnumDecl definition context =>
      refine computes_cached (hkey _ rfl) (computes_formatContextual ?_ _)
      cases isScoped with
      | false => exact hcontext _ _ houter
      | true => exact hcontext (.tagDecl parentEnumDecl definition context) _ houter
  | Enum decl definition context =>
      exact computes_getTagSymbol (hkey _ rfl) (hcontext _ _ houter)
  | Field decl context =>
      exact computes_getFieldSymbol hkey (hcontext _ _ houter)
  | Function decl context =>
      exact computes_cached (hkey _ rfl) (computes_formatContextual (hcontext _ _ houter) _)
  | FunctionTemplate decl context =>
      exact computes_cached (hkey _ rfl) (computes_formatContextual (hcontext _ _ houter) _)
  | Namespace decl location context =>
      exact computes_cached (hkey _ rfl) (computes_formatContextual (hcontext _ _ houter) _)
  | NonTypeTemplateParm decl => exact computes_getNextLocalSymbol hkey
  | Record decl definition context =>
      exact computes_getTagSymbol (hkey _ rfl) (hcontext _ _ houter)
  | TemplateTemplateParm decl => exact computes_getNextLocalSymbol hkey
  | TemplateTypeParm decl => exact computes_getNextLocalSymbol hkey
  | TypeAliasTemplate decl context =>
      exact computes_cached (hkey _ rfl) (computes_formatContextual (hcontext _ _ houter) _)
  | TypedefName decl context =>
      exact computes_cached (hkey _ rfl) (computes_formatContextual (hcontext _ _ houter) _)
  | UsingShadow decl underlyingDecl context =>
      exact computes_getUsingShadowSymbol rfl hkey (hcontext _ _ houter)
  | Using => exact .failure
  | Var decl context => exact computes_getVarSymbol hkey (hcontext _ _ houter)
  | VarTemplate decl context => exact computes_getVarSymbol hkey (hcontext _ _ houter)
  | other => exact .failure

theorem sound_afterRequests (requests : List NamedDecl) {formatter : DeclFormatter}
    (hspec : Specifies spec (requests.flatMap (lookedUp forText files mainFilePath)))
    (h : symbolTable.Sound spec formatter) :
    symbolTable.Sound spec (afterRequests forText files mainFilePath requests formatter) := by
  induction requests generalizing formatter with
  | nil => exact h
  | cons decl requests ih =>
      rw [List.flatMap_cons] at hspec
      refine ih (fun key symbol hmem => hspec key symbol (List.mem_append_right _ hmem)) ?_
      exact (computes_getNamedDeclSymbol decl (fun key symbol hmem =>
        hspec key symbol (List.mem_append_left _ hmem)) formatter h).1

theorem sound_initial : symbolTable.Sound spec {} := by
  intro key symbol expected hfind
  cases key with
  | decl canonicalDecl =>
      exact absurd hfind (by
        show (∅ : AList fun _ : Nat => Str).lookup canonicalDecl ≠ some symbol
        rw [AList.lookup_empty]
        exact nofun)
  | namespacePrefix canonicalDecl fileId =>
      exact absurd hfind (by
        show (∅ : NamespacePrefixCache).lookup (canonicalDecl, fileId) ≠ some symbol
        rw [AList.lookup_empty]
        exact nofun)

end Computes

/-- A declaration that is asked for after others gets its plain symbol, if a specification covers
everything that is looked up. -/
theorem answerTo_of_specifies {spec : CacheKey → Option Str} {forText : Str → UInt64}
    {files : FileMetadataMap} {mainFilePath : Str} {requests : List NamedDecl}
    (hspec : Specifies spec (requests.flatMap (lookedUp forText files mainFilePath)))
    {before : List NamedDecl} (hbefore : before ⊆ requests) {decl : NamedDecl}
    (hdecl : decl ∈ requests) {symbol : SymbolBuilder}
    (hsymbol : plainSymbol forText files mainFilePath decl = some symbol) :
    answerTo forText files mainFilePath before decl = some symbol.formatTo := by
  have hsound : symbolTable.Sound spec (afterRequests forText files mainFilePath before {}) := by
    refine sound_afterRequests before (fun key entry hmem => ?_) sound_initial
    obtain ⟨earlier, hearlier, hentry⟩ := List.mem_flatMap.mp hmem
    exact hspec key entry (List.mem_flatMap.mpr ⟨earlier, hbefore hearlier, hentry⟩)
  have hcomputes : symbolTable.Computes spec _
      (getNamedDeclSymbol forText files mainFilePath decl) :=
    computes_getNamedDeclSymbol decl fun key entry hmem =>
      hspec key entry (List.mem_flatMap.mpr ⟨decl, hdecl, hmem⟩)
  exact (hcomputes _ hsound).2 _ (by rw [hsymbol]; rfl)

/-- **Remembering symbols does not show**: as long as redeclarations agree, a declaration with a
plain symbol is given that symbol in every translation unit and after every sequence of
requests. -/
theorem answerTo_plainSymbol (forText : Str → UInt64) (files : FileMetadataMap)
    (mainFilePath : Str) {requests : List NamedDecl}
    (hcoherent : Coherent forText files mainFilePath requests) {before : List NamedDecl}
    (hbefore : before ⊆ requests) {decl : NamedDecl} (hdecl : decl ∈ requests)
    {symbol : SymbolBuilder} (hsymbol : plainSymbol forText files mainFilePath decl = some symbol) :
    answerTo forText files mainFilePath before decl = some symbol.formatTo := by
  obtain ⟨spec, hspec⟩ := exists_specifies hcoherent
  exact answerTo_of_specifies hspec hbefore hdecl hsymbol

/-! ## What plain symbols look like -/

/-- The package is that of a file, and the descriptors are those that the indexer builds, except
that their names could be empty. -/
structure IsProper (files : FileMetadataMap) (symbol : SymbolBuilder) : Prop where
  package : ∃ fileId fileMetadata,
    files.getFileMetadata fileId = some fileMetadata ∧ symbol.packageId = fileMetadata.packageId
  descriptors : ∀ d ∈ symbol.descriptors, d.name ≠ [] → d.WellFormed

section Proper

variable {forText : Str → UInt64} {files : FileMetadataMap} {mainFilePath : Str}

theorem IsProper.push {symbol : SymbolBuilder} (h : IsProper files symbol)
    {descriptor : DescriptorBuilder} (hdescriptor : descriptor.name ≠ [] → descriptor.WellFormed) :
    IsProper files (symbol.push descriptor) := by
  refine ⟨h.package, fun d hd => ?_⟩
  rcases List.mem_append.mp hd with hd | hd
  · exact h.descriptors d hd
  · rw [List.mem_singleton.mp hd]
    exact hdescriptor

theorem wellFormed_plain {name : Str} {suffix : DescriptorSuffix}
    (hsuffix : suffix ≠ .UnspecifiedSuffix ∧ suffix ≠ .Local) (hname : name ≠ []) :
    DescriptorBuilder.WellFormed { name, suffix } := ⟨hname, hsuffix, fun _ => rfl⟩

theorem wellFormed_functionDescriptor {functionDecl : FunctionInfo}
    (hname : (functionDescriptor forText functionDecl).name ≠ []) :
    (functionDescriptor forText functionDecl).WellFormed :=
  ⟨hname, ⟨nofun, nofun⟩, fun hmethod => absurd rfl hmethod⟩

theorem isProper_packageSymbol {file : Option FileId} {symbol : SymbolBuilder}
    (h : packageSymbol files file = some symbol) : IsProper files symbol := by
  obtain ⟨fileId, -, hmap⟩ := Option.bind_eq_some_iff.mp h
  obtain ⟨fileMetadata, hmetadata, rfl⟩ := Option.map_eq_some_iff.mp hmap
  exact ⟨⟨fileId, fileMetadata, hmetadata, rfl⟩, fun d hd => absurd hd List.not_mem_nil⟩

theorem isProper_map_push {context : Option SymbolBuilder}
    (hcontext : ∀ symbol, context = some symbol → IsProper files symbol)
    {descriptor : DescriptorBuilder} (hdescriptor : descriptor.name ≠ [] → descriptor.WellFormed)
    {symbol : SymbolBuilder} (h : context.map (·.push descriptor) = some symbol) :
    IsProper files symbol := by
  obtain ⟨outer, houter, rfl⟩ := Option.map_eq_some_iff.mp h
  exact (hcontext outer houter).push hdescriptor

theorem isProper_plainTag {decl : DeclInfo} {context : Option SymbolBuilder}
    (hcontext : ∀ symbol, context = some symbol → IsProper files symbol) {symbol : SymbolBuilder}
    (h : plainTag decl context = some symbol) : IsProper files symbol := by
  unfold plainTag at h
  split at h
  · cases h
  · exact isProper_map_push hcontext (wellFormed_plain (by decide)) h

theorem isProper_plainContext (context : DeclContext) (loc : SourceLoc) (symbol : SymbolBuilder)
    (h : plainContext forText files mainFilePath context loc = some symbol) :
    IsProper files symbol := by
  induction context generalizing loc symbol with
  | translationUnit => exact isProper_packageSymbol h
  | externCContext => exact isProper_packageSymbol h
  | namespaceDecl decl context ih =>
      exact isProper_map_push (ih _) (wellFormed_plain (by decide)) h
  | tagDecl decl definition context ih => exact isProper_plainTag (ih _) h
  | functionDecl decl context ih => exact isProper_map_push (ih _) wellFormed_functionDescriptor h
  | pending => cases h

theorem wellFormed_using {underlyingDecl : UnderlyingDecl} {suffix : DescriptorSuffix × Str}
    (h : usingSuffix forText underlyingDecl = some suffix) {name : Str} (hname : name ≠ []) :
    DescriptorBuilder.WellFormed { name, disambiguator := suffix.2, suffix := suffix.1 } := by
  induction underlyingDecl with
  | typeAliasTemplate templatedDecl ih => exact ih h
  | other => cases h
  | function decl =>
      cases h
      exact ⟨hname, ⟨nofun, nofun⟩, fun hmethod => absurd rfl hmethod⟩
  | functionTemplate decl =>
      cases h
      exact ⟨hname, ⟨nofun, nofun⟩, fun hmethod => absurd rfl hmethod⟩
  | _ =>
      cases h
      exact ⟨hname, ⟨nofun, nofun⟩, fun _ => rfl⟩

theorem isProper_plainSymbol (decl : NamedDecl) {symbol : SymbolBuilder}
    (h : plainSymbol forText files mainFilePath decl = some symbol) : IsProper files symbol := by
  have hcontext := @isProper_plainContext forText files mainFilePath
  have hmember : ∀ context decl suffix, suffix ≠ .UnspecifiedSuffix ∧ suffix ≠ .Local →
      plainMember forText files mainFilePath context decl suffix = some symbol →
        IsProper files symbol := fun context decl suffix hsuffix h =>
    isProper_map_push (hcontext context decl.location) (wellFormed_plain hsuffix) h
  have hvar : ∀ context decl, plainVar forText files mainFilePath context decl = some symbol →
      IsProper files symbol := by
    intro context decl h
    unfold plainVar at h
    split at h
    · cases h
    · split at h
      · exact hmember _ _ _ (by decide) h
      · exact hmember _ _ _ (by decide) h
      · exact hmember _ _ _ (by decide) h
      all_goals cases h
  have hfunction : ∀ context decl,
      plainFunction forText files mainFilePath context decl = some symbol →
        IsProper files symbol := fun context decl h =>
    isProper_map_push (hcontext context _) wellFormed_functionDescriptor h
  cases decl with
  | ClassTemplate decl definition context => exact isProper_plainTag (hcontext _ _) h
  | EnumConstant decl isScoped parentEnumDecl definition context =>
      refine isProper_map_push ?_ (wellFormed_plain (by decide)) h
      intro outer houter
      split at houter
      · exact isProper_plainTag (hcontext _ _) houter
      · exact hcontext _ _ _ houter
  | Enum decl definition context => exact isProper_plainTag (hcontext _ _) h
  | Field decl context =>
      change plainField forText files mainFilePath context decl = _ at h
      unfold plainField at h
      split at h
      · cases h
      · exact hmember _ _ _ (by decide) h
  | Function decl context => exact hfunction _ _ h
  | FunctionTemplate decl context => exact hfunction _ _ h
  | Namespace decl location context =>
      exact isProper_map_push (hcontext _ _) (wellFormed_plain (by decide)) h
  | Record decl definition context => exact isProper_plainTag (hcontext _ _) h
  | TypeAliasTemplate decl context => exact hmember _ _ _ (by decide) h
  | TypedefName decl context => exact hmember _ _ _ (by decide) h
  | UsingShadow decl underlyingDecl context =>
      dsimp only [plainSymbol] at h
      split at h
      · cases h
      · obtain ⟨suffix, hsuffix, hmap⟩ := Option.bind_eq_some_iff.mp h
        exact isProper_map_push (hcontext _ _) (wellFormed_using hsuffix) hmap
  | Var decl context => exact hvar _ _ h
  | VarTemplate decl context => exact hvar _ _ h
  | Binding _ | NonTypeTemplateParm _ | TemplateTemplateParm _ | TemplateTypeParm _ | Using |
    other => cases h

end Proper

end DeclFormatter

/-! ## Two translation units -/

/-- The packages of all files are valid. -/
def FileMetadataMap.ValidPackages (files : FileMetadataMap) : Prop :=
  ∀ fileId fileMetadata, files.getFileMetadata fileId = some fileMetadata →
    SymbolBuilder.ValidPackage fileMetadata.packageId

/-- A translation unit, as far as symbols are concerned: its files, and the declarations that
symbols are asked for, in order. -/
structure NamingUnit where
  files : FileMetadataMap
  mainFilePath : Str
  requests : List NamedDecl

namespace NamingUnit

variable (forText : Str → UInt64) (tu : NamingUnit)

/-- Redeclarations agree about their symbols. -/
def Coherent : Prop := DeclFormatter.Coherent forText tu.files tu.mainFilePath tu.requests

/-- The symbol of a declaration if nothing is remembered. -/
def plainSymbol (decl : NamedDecl) : Option SymbolBuilder :=
  DeclFormatter.plainSymbol forText tu.files tu.mainFilePath decl

/-- The symbol of the declaration that is asked for after the others. -/
def answerTo (before : List NamedDecl) (decl : NamedDecl) : Option Str :=
  DeclFormatter.answerTo forText tu.files tu.mainFilePath before decl

variable {forText tu}

theorem answerTo_eq (hcoherent : tu.Coherent forText) {before after : List NamedDecl}
    {decl : NamedDecl} (hrequests : tu.requests = before ++ decl :: after)
    {symbol : SymbolBuilder} (hsymbol : tu.plainSymbol forText decl = some symbol) :
    tu.answerTo forText before decl = some symbol.formatTo := by
  obtain ⟨spec, hspec⟩ := DeclFormatter.exists_specifies hcoherent
  refine DeclFormatter.answerTo_of_specifies hspec ?_ ?_ hsymbol
  · rw [hrequests]
    exact List.subset_append_left _ _
  · rw [hrequests]
    exact List.mem_append_right _ List.mem_cons_self

/-- **Symbols identify declarations across translation units**: whatever was asked for before,
two declarations get the same symbol if and only if they have the same package and the same
descriptors. -/
theorem sameSymbol_iff {tu' : NamingUnit} (hcoherent : tu.Coherent forText)
    (hcoherent' : tu'.Coherent forText) (hpackages : tu.files.ValidPackages)
    (hpackages' : tu'.files.ValidPackages) {before after before' after' : List NamedDecl}
    {decl decl' : NamedDecl} (hrequests : tu.requests = before ++ decl :: after)
    (hrequests' : tu'.requests = before' ++ decl' :: after') {symbol symbol' : SymbolBuilder}
    (hsymbol : tu.plainSymbol forText decl = some symbol)
    (hsymbol' : tu'.plainSymbol forText decl' = some symbol')
    (hnames : ∀ d ∈ symbol.descriptors, d.name ≠ [])
    (hnames' : ∀ d ∈ symbol'.descriptors, d.name ≠ []) :
    tu.answerTo forText before decl = tu'.answerTo forText before' decl' ↔ symbol = symbol' := by
  rw [answerTo_eq hcoherent hrequests hsymbol, answerTo_eq hcoherent' hrequests' hsymbol',
    Option.some.injEq]
  refine ⟨fun heq => ?_, fun heq => congrArg SymbolBuilder.formatTo heq⟩
  obtain ⟨⟨fileId, fileMetadata, hmetadata, hid⟩, hdescriptors⟩ :=
    DeclFormatter.isProper_plainSymbol decl hsymbol
  obtain ⟨⟨fileId', fileMetadata', hmetadata', hid'⟩, hdescriptors'⟩ :=
    DeclFormatter.isProper_plainSymbol decl' hsymbol'
  obtain ⟨hpackage, hrest⟩ := SymbolBuilder.formatPackage_append_inj
    (hid ▸ hpackages fileId fileMetadata hmetadata)
    (hid' ▸ hpackages' fileId' fileMetadata' hmetadata') heq
  exact SymbolBuilder.ext hpackage (DescriptorBuilder.flatMap_formatTo_inj
    (fun d hd => hdescriptors d hd (hnames d hd))
    (fun d hd => hdescriptors' d hd (hnames' d hd)) hrest)

/-! ### A method in a header -/

/-- A header with `namespace n { class C { void f(); }; }`, in the package `p` at version `1`. -/
def headerFiles (header : FileId) : FileMetadataMap where
  map := AList.singleton header
    { stableFileId := ⟨⟨['h'], .External⟩, true, false⟩
      originalPath := ⟨['/', 'h']⟩
      packageInfo := some ⟨⟨['p'], ['1']⟩, ['/'], true⟩ }
  projectRootPath := ⟨⟨['/']⟩, .Project⟩
  buildRootPath := ⟨⟨['/', 'b']⟩, .Build⟩
  packageMap := { projectRootPath := ⟨⟨['/']⟩, .Project⟩, isTesting := false }

/-- The class of the header. -/
def headerClass (header : FileId) (context : DeclContext) : DeclContext :=
  .tagDecl ⟨1, ['C'], ⟨some header, some header⟩⟩ none context

/-- The method of the header. -/
def headerMethod (header : FileId) : NamedDecl :=
  .Function ⟨⟨2, ['f'], ⟨some header, some header⟩⟩, ['t'], false, none, none⟩
    (headerClass header (.namespaceDecl ⟨3, ['n']⟩ .translationUnit))

/-- The class of the header, asked for itself. -/
def headerRecord (header : FileId) : NamedDecl :=
  .Record ⟨1, ['C'], ⟨some header, some header⟩⟩ none (.namespaceDecl ⟨3, ['n']⟩ .translationUnit)

/-- A translation unit in which the header has the file id `2`, and the class is asked for
first. -/
def classFirstUnit : NamingUnit where
  files := headerFiles ⟨2⟩
  mainFilePath := ['m']
  requests := [headerRecord ⟨2⟩, headerMethod ⟨2⟩]

/-- A translation unit in which the header has the file id `5`, and only the method is asked
for. -/
def methodOnlyUnit : NamingUnit where
  files := headerFiles ⟨5⟩
  mainFilePath := ['k']
  requests := [headerMethod ⟨5⟩]

theorem lookup_headerFiles {header fileId : FileId} {fileMetadata : FileMetadata}
    (h : (headerFiles header).getFileMetadata fileId = some fileMetadata) :
    fileMetadata.packageId = ⟨['p'], ['1']⟩ := by
  have hmem := AList.mem_lookup_iff.mp h
  obtain ⟨-, heq⟩ := Sigma.mk.inj_iff.mp (List.mem_singleton.mp hmem)
  rw [eq_of_heq heq]
  rfl

theorem validPackages_headerFiles (header : FileId) : (headerFiles header).ValidPackages := by
  intro fileId fileMetadata hmetadata
  rw [lookup_headerFiles hmetadata]
  exact ⟨by decide, by decide, by decide⟩

theorem coherent_classFirstUnit : classFirstUnit.Coherent fun _ => 0 := by
  have hall : ∀ x ∈ classFirstUnit.requests.flatMap (DeclFormatter.lookedUp (fun _ => 0)
      classFirstUnit.files classFirstUnit.mainFilePath),
      ∀ y ∈ classFirstUnit.requests.flatMap (DeclFormatter.lookedUp (fun _ => 0)
        classFirstUnit.files classFirstUnit.mainFilePath), x.1 = y.1 → x.2 = y.2 := by decide
  exact fun key symbol symbol' hmem hmem' => hall _ hmem _ hmem' rfl

theorem coherent_methodOnlyUnit : methodOnlyUnit.Coherent fun _ => 0 := by
  have hall : ∀ x ∈ methodOnlyUnit.requests.flatMap (DeclFormatter.lookedUp (fun _ => 0)
      methodOnlyUnit.files methodOnlyUnit.mainFilePath),
      ∀ y ∈ methodOnlyUnit.requests.flatMap (DeclFormatter.lookedUp (fun _ => 0)
        methodOnlyUnit.files methodOnlyUnit.mainFilePath), x.1 = y.1 → x.2 = y.2 := by decide
  exact fun key symbol symbol' hmem hmem' => hall _ hmem _ hmem' rfl

/-- The symbol of the method. -/
def headerSymbol : SymbolBuilder where
  packageId := ⟨['p'], ['1']⟩
  descriptors := [⟨['n'], [], .Namespace⟩, ⟨['C'], [], .Type⟩, ⟨['f'], ['0'], .Method⟩]

theorem sameSymbol_headerMethod :
    classFirstUnit.answerTo (fun _ => 0) [headerRecord ⟨2⟩] (headerMethod ⟨2⟩) =
      methodOnlyUnit.answerTo (fun _ => 0) [] (headerMethod ⟨5⟩) :=
  have hplain : classFirstUnit.plainSymbol (fun _ => 0) (headerMethod ⟨2⟩) = some headerSymbol := by
    decide
  have hplain' : methodOnlyUnit.plainSymbol (fun _ => 0) (headerMethod ⟨5⟩) =
      some headerSymbol := by decide
  (sameSymbol_iff coherent_classFirstUnit coherent_methodOnlyUnit (validPackages_headerFiles _)
    (validPackages_headerFiles _) rfl rfl hplain hplain' (by decide) (by decide)).mpr rfl

/-- The method is asked for a second time. -/
theorem answerTo_headerMethod :
    DeclFormatter.answerTo (fun _ => 0) classFirstUnit.files classFirstUnit.mainFilePath
      classFirstUnit.requests (headerMethod ⟨2⟩) = some headerSymbol.formatTo :=
  DeclFormatter.answerTo_plainSymbol (fun _ => 0) classFirstUnit.files classFirstUnit.mainFilePath
    coherent_classFirstUnit (List.Subset.refl _) (by decide) (by decide)

end NamingUnit

end ScipClang
