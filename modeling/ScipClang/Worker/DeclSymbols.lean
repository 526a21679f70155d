import ScipClang.Library.Memo
import ScipClang.Scip.AnonymousTypes
import ScipClang.Worker.SymbolPrefixes

/-!
# The symbols of declarations

`SymbolFormatter` (`indexer/SymbolFormatter.cc`) names a declaration after its context: the
symbol of the context is looked up, or else computed, in the same way, and a descriptor is
appended to it.  The chain of contexts ends in a prefix for the package of a file.  All symbols
on the way are remembered: those of declarations by their canonical declaration, the prefixes
of namespaces and packages by declaration and file.

A declaration is given here together with its chain of contexts (`DeclContext`), so that the
mutually recursive functions of the source become a recursion on that chain.

* `DeclFormatter.getNamedDeclSymbol`: the symbol of a declaration, of any kind.
* `DeclFormatter.symbol_stable`: a symbol that was handed out is handed out again for every
  request with the same key, whatever happens in between.
-/

namespace ScipClang

open HashTables Memo

/-! ## Declarations -/

/-- A `clang::SourceLocation`, by the file that it is in and the file that its expansion is in;
an invalid location is in no file. -/
structure SourceLoc where
  file : Option FileId
  expansionFile : Option FileId
deriving DecidableEq

/-- `SourceManager::getExpansionLoc`. -/
def SourceLoc.getExpansionLoc (loc : SourceLoc) : SourceLoc := ⟨loc.expansionFile, loc.expansionFile⟩

/-- What is read of every declaration.  The name is empty if there is none. -/
structure DeclInfo where
  canonicalDecl : Nat
  name : Str
  location : SourceLoc
deriving DecidableEq

/-- The template that a function is an instance of: the type of the templated function, and that
of the member template it was instantiated from, if there is one. -/
structure TemplateInfo where
  templatedType : Str
  instantiatedFromMemberTemplate : Option Str
deriving DecidableEq

/-- What is read of a `clang::FunctionDecl`; types are given by their canonical spelling. -/
structure FunctionInfo extends DeclInfo where
  type : Str
  isTemplateInstantiation : Bool := false
  instantiatedFromMemberFunction : Option Str := none
  templateSpecializationInfo : Option TemplateInfo := none
deriving DecidableEq

/-- The type of `definingDecl` in `SymbolFormatter::getFunctionDisambiguator`. -/
def FunctionInfo.definingType (functionDecl : FunctionInfo) : Str :=
  if functionDecl.isTemplateInstantiation then
    match functionDecl.instantiatedFromMemberFunction with
    | some memberFnType => memberFnType
    | none =>
        match functionDecl.templateSpecializationInfo with
        | some templateInfo =>
            match templateInfo.instantiatedFromMemberTemplate with
            | some uninstantiatedType => uninstantiatedType
            | none => templateInfo.templatedType
        | none => functionDecl.type
  else functionDecl.type

/-- A `clang::DeclContext`, with the contexts around it. -/
inductive DeclContext where
  | translationUnit
  | externCContext
  | namespaceDecl (decl : NamespaceDecl) (context : DeclContext)
  | tagDecl (decl : DeclInfo) (definition : Option TagDefinition) (context : DeclContext)
  | functionDecl (decl : FunctionInfo) (context : DeclContext)
  /-- The contexts that `getContextSymbol` does not handle. -/
  | pending
deriving DecidableEq

/-- The declaration that a `using` declaration leads to, as far as `getUsingShadowSymbol` tells
them apart. -/
inductive UnderlyingDecl where
  | templateTypeParm
  | type
  | classTemplate
  | namespaceDecl
  | enumConstant
  | var
  | varTemplate
  | function (decl : FunctionInfo)
  | functionTemplate (templatedDecl : FunctionInfo)
  | typeAliasTemplate (templatedDecl : UnderlyingDecl)
  | other
deriving DecidableEq

/-- `clang::Decl::Kind`, for variables. -/
inductive VarKind where
  | Decomposition
  | ParmVar
  | VarTemplatePartialSpecialization
  | VarTemplateSpecialization
  | Var
  | OMPCapturedExpr
  | other
deriving DecidableEq

/-- What is read of a `clang::VarDecl`. -/
structure VarInfo extends DeclInfo where
  kind : VarKind := .Var
  isLocalVarDeclOrParm : Bool
  isLocalExternDecl : Bool := false
deriving DecidableEq

/-- A declaration: the kinds of `FOR_EACH_DECL_TO_BE_INDEXED`, and all others. -/
inductive NamedDecl where
  | Binding (decl : DeclInfo)
  | ClassTemplate (templatedDecl : DeclInfo) (definition : Option TagDefinition)
      (context : DeclContext)
  /-- With the enumeration that it is declared in. -/
  | EnumConstant (decl : DeclInfo) (isScoped : Bool) (parentEnumDecl : DeclInfo)
      (definition : Option TagDefinition) (context : DeclContext)
  | Enum (decl : DeclInfo) (definition : Option TagDefinition) (context : DeclContext)
  | Field (decl : DeclInfo) (context : DeclContext)
  | Function (decl : FunctionInfo) (context : DeclContext)
  | FunctionTemplate (templatedDecl : FunctionInfo) (context : DeclContext)
  | Namespace (decl : NamespaceDecl) (location : SourceLoc) (context : DeclContext)
  | NonTypeTemplateParm (decl : DeclInfo)
  | Record (decl : DeclInfo) (definition : Option TagDefinition) (context : DeclContext)
  | TemplateTemplateParm (decl : DeclInfo)
  | TemplateTypeParm (decl : DeclInfo)
  | TypeAliasTemplate (templatedDecl : DeclInfo) (context : DeclContext)
  | TypedefName (decl : DeclInfo) (context : DeclContext)
  | UsingShadow (decl : DeclInfo) (underlyingDecl : UnderlyingDecl) (context : DeclContext)
  | Using
  | Var (decl : VarInfo) (context : DeclContext)
  | VarTemplate (templatedDecl : VarInfo) (context : DeclContext)
  | other
deriving DecidableEq

/-! ## The formatter -/

/-- `SymbolFormatter`, with what it remembers about declarations of all kinds. -/
structure DeclFormatter extends TagFormatter where
  namespacePrefixCache : NamespacePrefixCache := ∅

/-- The keys of `declBasedCache` and of `namespacePrefixCache`. -/
inductive CacheKey where
  | decl (canonicalDecl : Nat)
  | namespacePrefix (canonicalDecl : Option Nat) (fileId : FileId)
deriving DecidableEq

/-- `declBasedCache` and `namespacePrefixCache`, as one table. -/
def symbolTable : MemoTable DeclFormatter CacheKey Str where
  find formatter
    | .decl canonicalDecl => formatter.declBasedCache.lookup canonicalDecl
    | .namespacePrefix canonicalDecl fileId =>
        formatter.namespacePrefixCache.lookup (canonicalDecl, fileId)
  add formatter key symbol :=
    match key with
    | .decl canonicalDecl =>
        { formatter with
          declBasedCache := upsert formatter.declBasedCache canonicalDecl (·.getD symbol) }
    | .namespacePrefix canonicalDecl fileId =>
        { formatter with
          namespacePrefixCache :=
            upsert formatter.namespacePrefixCache (canonicalDecl, fileId) (·.getD symbol) }
  find_add formatter key symbol := by
    funext other
    cases key <;> cases other <;> simp [Function.update_apply, lookup_upsert]

namespace DeclFormatter

/-- `this->localVariableCounters[{fileId}]++`. -/
def nextLocal (fileId : FileId) : Lookup DeclFormatter Nat := do
  let formatter ← get
  modify fun formatter =>
    { formatter with
      localVariableCounters :=
        formatter.localVariableCounters.insert fileId (formatter.counter fileId + 1) }
  return formatter.counter fileId

/-- `this->anonymousTypeCounters[{fileId}]++`. -/
def nextAnonymousType (fileId : FileId) : Lookup DeclFormatter UInt32 := do
  let formatter ← get
  modify fun formatter =>
    { formatter with
      anonymousTypeCounters :=
        formatter.anonymousTypeCounters.insert fileId (formatter.typeCounter fileId + 1) }
  return formatter.typeCounter fileId

/-- `SymbolFormatter::getNextLocalSymbol`. -/
def getNextLocalSymbol (decl : DeclInfo) : Lookup DeclFormatter Str :=
  if decl.name = [] then failure
  else symbolTable.cached (.decl decl.canonicalDecl) do
    let counter ← nextLocal (NamespacePrefixCache.getFileID decl.location.expansionFile)
    return formatLocal counter

section

variable (forText : Str → UInt64) (files : FileMetadataMap) (mainFilePath : Str)

/-- `SymbolFormatter::getLocationBasedSymbolPrefix`. -/
def getLocationBasedSymbolPrefix (loc : SourceLoc) : Lookup DeclFormatter Str :=
  match loc.file with
  | none => failure
  | some fileId => symbolTable.cached (.namespacePrefix none fileId)
      (match files.getFileMetadata fileId with
      | none => failure
      | some fileMetadata => return SymbolBuilder.formatTo ⟨fileMetadata.packageId, []⟩)

/-- The descriptor of a namespace; an anonymous one is named after the main file. -/
def namespaceDescriptor (decl : NamespaceDecl) : DescriptorBuilder where
  name := if decl.name = [] then "$anonymous_namespace_".toList ++ mainFilePath else decl.name
  suffix := .Namespace

/-- `SymbolFormatter::getNamespaceSymbolPrefix`, given the symbol of the context. -/
def getNamespaceSymbolPrefix (decl : NamespaceDecl) (loc : SourceLoc)
    (getContextSymbol : Lookup DeclFormatter Str) : Lookup DeclFormatter Str :=
  symbolTable.cached
    (.namespacePrefix (some decl.canonicalDecl) (NamespacePrefixCache.getFileID loc.file)) do
      let contextSymbol ← getContextSymbol
      return SymbolBuilder.formatContextual contextSymbol (namespaceDescriptor mainFilePath decl)

/-- The common part of the functions below: the descriptor is appended to the symbol of the
context. -/
def getContextualSymbol (canonicalDecl : Nat) (getContextSymbol : Lookup DeclFormatter Str)
    (descriptor : DescriptorBuilder) : Lookup DeclFormatter Str :=
  symbolTable.cached (.decl canonicalDecl) do
    let contextSymbol ← getContextSymbol
    return SymbolBuilder.formatContextual contextSymbol descriptor

/-- `SymbolFormatter::getTagSymbol`, given the symbol of the context. -/
def getTagSymbol (decl : DeclInfo) (definition : Option TagDefinition)
    (getContextSymbol : Lookup DeclFormatter Str) : Lookup DeclFormatter Str :=
  symbolTable.cached (.decl decl.canonicalDecl) do
    let contextSymbol ← getContextSymbol
    if decl.name ≠ [] then
      return SymbolBuilder.formatContextual contextSymbol { name := decl.name, suffix := .Type }
    else
      match definition with
      | none => failure
      | some definition =>
          let counter ← nextAnonymousType definition.defFileId
          let name := anonymousTypeName
            ((TagFormatter.hashedPath files definition).map forText) counter
          return SymbolBuilder.formatContextual contextSymbol { name, suffix := .Type }

/-- `SymbolFormatter::getFunctionDisambiguator`. -/
def getFunctionDisambiguator (functionDecl : FunctionInfo) : Str :=
  Nat.toDigits 16 (forText functionDecl.definingType).toNat

/-- The descriptor of a function. -/
def functionDescriptor (functionDecl : FunctionInfo) : DescriptorBuilder where
  name := functionDecl.name
  disambiguator := getFunctionDisambiguator forText functionDecl
  suffix := .Method

/-- `SymbolFormatter::getFunctionSymbol`, given the symbol of the context. -/
def getFunctionSymbol (decl : FunctionInfo) (getContextSymbol : Lookup DeclFormatter Str) :
    Lookup DeclFormatter Str :=
  getContextualSymbol decl.canonicalDecl getContextSymbol (functionDescriptor forText decl)

/-- `SymbolFormatter::getContextSymbol`. -/
def getContextSymbol : DeclContext → SourceLoc → Lookup DeclFormatter Str
  | .namespaceDecl decl context, loc =>
      getNamespaceSymbolPrefix mainFilePath decl loc.getExpansionLoc
        (getContextSymbol context loc.getExpansionLoc)
  | .tagDecl decl definition context, _ =>
      getTagSymbol forText files decl definition (getContextSymbol context decl.location)
  | .translationUnit, loc => getLocationBasedSymbolPrefix files loc.getExpansionLoc
  | .externCContext, loc => getLocationBasedSymbolPrefix files loc.getExpansionLoc
  | .functionDecl decl context, _ =>
      getFunctionSymbol forText decl (getContextSymbol context decl.location)
  | .pending, _ => failure

/-- `SymbolFormatter::getFieldSymbol`, given the symbol of the context. -/
def getFieldSymbol (decl : DeclInfo) (getContextSymbol : Lookup DeclFormatter Str) :
    Lookup DeclFormatter Str :=
  if decl.name = [] then failure
  else getContextualSymbol decl.canonicalDecl getContextSymbol { name := decl.name, suffix := .Term }

/-- `SymbolFormatter::getTypedefNameSymbol`, given the symbol of the context. -/
def getTypedefNameSymbol (decl : DeclInfo) (getContextSymbol : Lookup DeclFormatter Str) :
    Lookup DeclFormatter Str :=
  getContextualSymbol decl.canonicalDecl getContextSymbol { name := decl.name, suffix := .Type }

/-- The suffix and the disambiguator of a `using` declaration, if there is a suffix. -/
def usingSuffix : UnderlyingDecl → Option (DescriptorSuffix × Str)
  | .templateTypeParm => some (.TypeParameter, [])
  | .type => some (.Type, [])
  | .classTemplate => some (.Type, [])
  | .namespaceDecl => some (.Namespace, [])
  | .enumConstant => some (.Term, [])
  | .var => some (.Term, [])
  | .varTemplate => some (.Term, [])
  | .function decl => some (.Method, getFunctionDisambiguator forText decl)
  | .functionTemplate templatedDecl =>
      some (.Method, getFunctionDisambiguator forText templatedDecl)
  | .typeAliasTemplate templatedDecl => usingSuffix templatedDecl
  | .other => none

/-- `SymbolFormatter::getUsingShadowSymbol`, given the symbol of the context. -/
def getUsingShadowSymbol (decl : DeclInfo) (underlyingDecl : UnderlyingDecl)
    (getContextSymbol : Lookup DeclFormatter Str) : Lookup DeclFormatter Str :=
  if decl.name = [] then failure
  else symbolTable.cached (.decl decl.canonicalDecl) do
    let contextSymbol ← getContextSymbol
    match usingSuffix forText underlyingDecl with
    | none => failure
    | some (suffix, disambiguator) =>
        return SymbolBuilder.formatContextual contextSymbol
          { name := decl.name, disambiguator, suffix }

/-- `SymbolFormatter::getVarSymbol`, given the symbol of the context. -/
def getVarSymbol (decl : VarInfo) (getContextSymbol : Lookup DeclFormatter Str) :
    Lookup DeclFormatter Str :=
  if decl.isLocalVarDeclOrParm ∧ ¬ decl.isLocalExternDecl then getNextLocalSymbol decl.toDeclInfo
  else if decl.name = [] then failure
  else symbolTable.cached (.decl decl.canonicalDecl)
    (match decl.kind with
    | .VarTemplatePartialSpecialization | .VarTemplateSpecialization | .Var => do
        let contextSymbol ← getContextSymbol
        return SymbolBuilder.formatContextual contextSymbol { name := decl.name, suffix := .Term }
    | .Decomposition | .ParmVar | .OMPCapturedExpr | .other => failure)

/-- The context of an enumerator: that of the enumeration, unless the enumeration is scoped. -/
def enumConstantContext (decl : DeclInfo) (isScoped : Bool) (parentEnumDecl : DeclInfo)
    (definition : Option TagDefinition) (context : DeclContext) : Lookup DeclFormatter Str :=
  if isScoped then
    getTagSymbol forText files parentEnumDecl definition
      (getContextSymbol forText files mainFilePath context parentEnumDecl.location)
  else getContextSymbol forText files mainFilePath context decl.location

/-- `SymbolFormatter::getEnumConstantSymbol`. -/
def getEnumConstantSymbol (decl : DeclInfo) (isScoped : Bool) (parentEnumDecl : DeclInfo)
    (definition : Option TagDefinition) (context : DeclContext) : Lookup DeclFormatter Str :=
  getContextualSymbol decl.canonicalDecl
    (enumConstantContext forText files mainFilePath decl isScoped parentEnumDecl definition context)
    { name := decl.name, suffix := .Term }

/-- `SymbolFormatter::getNamedDeclSymbol`. -/
def getNamedDeclSymbol : NamedDecl → Lookup DeclFormatter Str
  | .Binding decl => getNextLocalSymbol decl
  | .ClassTemplate decl definition context =>
      getTagSymbol forText files decl definition
        (getContextSymbol forText files mainFilePath context decl.location)
  | .EnumConstant decl isScoped parentEnumDecl definition context =>
      getEnumConstantSymbol forText files mainFilePath decl isScoped parentEnumDecl definition
        context
  | .Enum decl definition context =>
      getTagSymbol forText files decl definition
        (getContextSymbol forText files mainFilePath context decl.location)
  | .Field decl context =>
      getFieldSymbol decl (getContextSymbol forText files mainFilePath context decl.location)
  | .Function decl context =>
      getFunctionSymbol forText decl
        (getContextSymbol forText files mainFilePath context decl.location)
  | .FunctionTemplate decl context =>
      getFunctionSymbol forText decl
        (getContextSymbol forText files mainFilePath context decl.location)
  | .Namespace decl location context =>
      getNamespaceSymbolPrefix mainFilePath decl location
        (getContextSymbol forText files mainFilePath context location)
  | .NonTypeTemplateParm decl => getNextLocalSymbol decl
  | .Record decl definition context =>
      getTagSymbol forText files decl definition
        (getContextSymbol forText files mainFilePath context decl.location)
  | .TemplateTemplateParm decl => getNextLocalSymbol decl
  | .TemplateTypeParm decl => getNextLocalSymbol decl
  | .TypeAliasTemplate decl context =>
      getTypedefNameSymbol decl (getContextSymbol forText files mainFilePath context decl.location)
  | .TypedefName decl context =>
      getTypedefNameSymbol decl (getContextSymbol forText files mainFilePath context decl.location)
  | .UsingShadow decl underlyingDecl context =>
      getUsingShadowSymbol forText decl underlyingDecl
        (getContextSymbol forText files mainFilePath context decl.location)
  | .Using => failure
  | .Var decl context =>
      getVarSymbol decl (getContextSymbol forText files mainFilePath context decl.location)
  | .VarTemplate decl context =>
      getVarSymbol decl (getContextSymbol forText files mainFilePath context decl.location)
  | .other => failure

/-- The formatter after a sequence of requests. -/
def afterRequests (requests : List NamedDecl) (formatter : DeclFormatter) : DeclFormatter :=
  requests.foldl
    (fun formatter decl => (call (getNamedDeclSymbol forText files mainFilePath decl) formatter).2)
    formatter

/-- What is answered to a request in a translation unit, after those that were made before. -/
def answerTo (before : List NamedDecl) (decl : NamedDecl) : Option Str :=
  (call (getNamedDeclSymbol forText files mainFilePath decl)
    (afterRequests forText files mainFilePath before {})).1

end

/-! ## Symbols stay -/

theorem grows_nextLocal (fileId : FileId) : symbolTable.Grows (nextLocal fileId) := by
  refine MemoTable.Grows.bind .get fun formatter => .bind (.modify ?_) fun _ => .pure _
  intro s
  rfl

theorem grows_nextAnonymousType (fileId : FileId) :
    symbolTable.Grows (nextAnonymousType fileId) := by
  refine MemoTable.Grows.bind .get fun formatter => .bind (.modify ?_) fun _ => .pure _
  intro s
  rfl

variable {forText : Str → UInt64} {files : FileMetadataMap} {mainFilePath : Str}

/-- The key of a declaration that is not named without a name. -/
def namedKey (decl : DeclInfo) : Option CacheKey :=
  if decl.name = [] then none else some (.decl decl.canonicalDecl)

/-- The key under which the symbol of a declaration is remembered, if it can have one. -/
def cacheKey : NamedDecl → Option CacheKey
  | .Binding decl => namedKey decl
  | .ClassTemplate decl _ _ => some (.decl decl.canonicalDecl)
  | .EnumConstant decl _ _ _ _ => some (.decl decl.canonicalDecl)
  | .Enum decl _ _ => some (.decl decl.canonicalDecl)
  | .Field decl _ => namedKey decl
  | .Function decl _ => some (.decl decl.canonicalDecl)
  | .FunctionTemplate decl _ => some (.decl decl.canonicalDecl)
  | .Namespace decl location _ =>
      some (.namespacePrefix (some decl.canonicalDecl)
        (NamespacePrefixCache.getFileID location.file))
  | .NonTypeTemplateParm decl => namedKey decl
  | .Record decl _ _ => some (.decl decl.canonicalDecl)
  | .TemplateTemplateParm decl => namedKey decl
  | .TemplateTypeParm decl => namedKey decl
  | .TypeAliasTemplate decl _ => some (.decl decl.canonicalDecl)
  | .TypedefName decl _ => some (.decl decl.canonicalDecl)
  | .UsingShadow decl _ _ => namedKey decl
  | .Using => none
  | .Var decl _ => namedKey decl.toDeclInfo
  | .VarTemplate decl _ => namedKey decl.toDeclInfo
  | .other => none

/-- A lookup that fails, or else remembers its result under a key and keeps all others. -/
inductive Remembers : Option CacheKey → Lookup DeclFormatter Str → Prop
  | failure : Remembers none failure
  | cached {key : CacheKey} {compute : Lookup DeclFormatter Str} :
      symbolTable.Grows compute → Remembers (some key) (symbolTable.cached key compute)

theorem Remembers.grows {key : Option CacheKey} {x : Lookup DeclFormatter Str}
    (h : Remembers key x) : symbolTable.Grows x := by
  cases h with
  | failure => exact .failure
  | cached hcompute => exact hcompute.cached

theorem Remembers.ite_name {decl : DeclInfo} {compute : Lookup DeclFormatter Str}
    (h : symbolTable.Grows compute) :
    Remembers (namedKey decl) (if decl.name = [] then Alternative.failure
      else symbolTable.cached (.decl decl.canonicalDecl) compute) := by
  unfold namedKey
  split
  · exact .failure
  · exact .cached h

theorem remembers_getNextLocalSymbol (decl : DeclInfo) :
    Remembers (namedKey decl) (getNextLocalSymbol decl) :=
  .ite_name (.bind (grows_nextLocal _) fun _ => .pure _)

theorem remembers_getContextualSymbol (canonicalDecl : Nat) {context : Lookup DeclFormatter Str}
    (h : symbolTable.Grows context) (descriptor : DescriptorBuilder) :
    Remembers (some (.decl canonicalDecl))
      (getContextualSymbol canonicalDecl context descriptor) :=
  .cached (.bind h fun _ => .pure _)

theorem remembers_getTagSymbol (decl : DeclInfo) (definition : Option TagDefinition)
    {context : Lookup DeclFormatter Str} (h : symbolTable.Grows context) :
    Remembers (some (.decl decl.canonicalDecl))
      (getTagSymbol forText files decl definition context) := by
  refine .cached (.bind h fun contextSymbol => ?_)
  split
  · exact .pure _
  · cases definition with
    | none => exact .failure
    | some definition => exact .bind (grows_nextAnonymousType _) fun _ => .pure _

theorem remembers_getNamespaceSymbolPrefix (decl : NamespaceDecl) (loc : SourceLoc)
    {context : Lookup DeclFormatter Str} (h : symbolTable.Grows context) :
    Remembers (some (.namespacePrefix (some decl.canonicalDecl)
        (NamespacePrefixCache.getFileID loc.file)))
      (getNamespaceSymbolPrefix mainFilePath decl loc context) :=
  .cached (.bind h fun _ => .pure _)

theorem grows_getLocationBasedSymbolPrefix (loc : SourceLoc) :
    symbolTable.Grows (getLocationBasedSymbolPrefix files loc) := by
  unfold getLocationBasedSymbolPrefix
  cases loc.file with
  | none => exact .failure
  | some fileId =>
      refine .cached ?_
      split
      · exact .failure
      · exact .pure _

theorem grows_getContextSymbol (context : DeclContext) (loc : SourceLoc) :
    symbolTable.Grows (getContextSymbol forText files mainFilePath context loc) := by
  induction context generalizing loc with
  | translationUnit => exact grows_getLocationBasedSymbolPrefix _
  | externCContext => exact grows_getLocationBasedSymbolPrefix _
  | namespaceDecl decl context ih =>
      exact (remembers_getNamespaceSymbolPrefix decl _ (ih _)).grows
  | tagDecl decl definition context ih => exact (remembers_getTagSymbol decl definition (ih _)).grows
  | functionDecl decl context ih => exact (remembers_getContextualSymbol _ (ih _) _).grows
  | pending => exact .failure

theorem remembers_getUsingShadowSymbol (decl : DeclInfo) (underlyingDecl : UnderlyingDecl)
    {context : Lookup DeclFormatter Str} (h : symbolTable.Grows context) :
    Remembers (namedKey decl) (getUsingShadowSymbol forText decl underlyingDecl context) := by
  refine .ite_name (.bind h fun contextSymbol => ?_)
  split
  · exact .failure
  · exact .pure _

theorem remembers_getVarSymbol (decl : VarInfo) {context : Lookup DeclFormatter Str}
    (h : symbolTable.Grows context) :
    Remembers (namedKey decl.toDeclInfo) (getVarSymbol decl context) := by
  unfold getVarSymbol
  split
  · exact remembers_getNextLocalSymbol _
  · refine .ite_name ?_
    cases decl.kind
    case VarTemplatePartialSpecialization => exact .bind h fun _ => .pure _
    case VarTemplateSpecialization => exact .bind h fun _ => .pure _
    case Var => exact .bind h fun _ => .pure _
    all_goals exact .failure

/-- Whatever the kind of a declaration, its symbol is remembered under its key. -/
theorem remembers_getNamedDeclSymbol (decl : NamedDecl) :
    Remembers (cacheKey decl) (getNamedDeclSymbol forText files mainFilePath decl) := by
  have hcontext := @grows_getContextSymbol forText files mainFilePath
  cases decl with
  | Binding decl => exact remembers_getNextLocalSymbol decl
  | ClassTemplate decl definition context =>
      exact remembers_getTagSymbol decl definition (hcontext _ _)
  | EnumConstant decl isScoped parentEnumDecl definition context =>
      refine remembers_getContextualSymbol _ ?_ _
      unfold enumConstantContext
      split
      · exact (remembers_getTagSymbol parentEnumDecl definition (hcontext _ _)).grows
      · exact hcontext _ _
  | Enum decl definition context => exact remembers_getTagSymbol decl definition (hcontext _ _)
  | Field decl context => exact .ite_name (.bind (hcontext _ _) fun _ => .pure _)
  | Function decl context => exact remembers_getContextualSymbol _ (hcontext _ _) _
  | FunctionTemplate decl context => exact remembers_getContextualSymbol _ (hcontext _ _) _
  | Namespace decl location context =>
      exact remembers_getNamespaceSymbolPrefix decl location (hcontext _ _)
  | NonTypeTemplateParm decl => exact remembers_getNextLocalSymbol decl
  | Record decl definition context => exact remembers_getTagSymbol decl definition (hcontext _ _)
  | TemplateTemplateParm decl => exact remembers_getNextLocalSymbol decl
  | TemplateTypeParm decl => exact remembers_getNextLocalSymbol decl
  | TypeAliasTemplate decl context => exact remembers_getContextualSymbol _ (hcontext _ _) _
  | TypedefName decl context => exact remembers_getContextualSymbol _ (hcontext _ _) _
  | UsingShadow decl underlyingDecl context =>
      exact remembers_getUsingShadowSymbol decl underlyingDecl (hcontext _ _)
  | Using => exact .failure
  | Var decl context => exact remembers_getVarSymbol decl (hcontext _ _)
  | VarTemplate decl context => exact remembers_getVarSymbol decl (hcontext _ _)
  | other => exact .failure

variable (forText files mainFilePath) in
theorem find_afterRequests (requests : List NamedDecl) {formatter : DeclFormatter} {key : CacheKey}
    {symbol : Str} (h : symbolTable.find formatter key = some symbol) :
    symbolTable.find (afterRequests forText files mainFilePath requests formatter) key =
      some symbol := by
  induction requests generalizing formatter with
  | nil => exact h
  | cons decl requests ih => exact ih ((remembers_getNamedDeclSymbol decl).grows _ _ _ h)

theorem afterRequests_append (first second : List NamedDecl) (formatter : DeclFormatter) :
    afterRequests forText files mainFilePath (first ++ second) formatter =
      afterRequests forText files mainFilePath second
        (afterRequests forText files mainFilePath first formatter) :=
  List.foldl_append

/-- **A declaration keeps its symbol**, and shares it with its other declarations: once a request
was answered, every later request with the same key is answered in the same way, whatever was
asked before and in between. -/
theorem symbol_stable (forText : Str → UInt64) (files : FileMetadataMap) (mainFilePath : Str)
    {decl later : NamedDecl} (hkey : cacheKey decl = cacheKey later)
    (before between : List NamedDecl) {symbol : Str}
    (h : answerTo forText files mainFilePath before decl = some symbol) :
    answerTo forText files mainFilePath (before ++ decl :: between) later = some symbol := by
  have hdecl := @remembers_getNamedDeclSymbol forText files mainFilePath decl
  have hlater := @remembers_getNamedDeclSymbol forText files mainFilePath later
  rw [← hkey] at hlater
  unfold answerTo at h ⊢
  rw [afterRequests_append]
  revert h
  generalize afterRequests forText files mainFilePath before {} = formatter
  intro h
  show (call _ (afterRequests forText files mainFilePath between
    (call (getNamedDeclSymbol forText files mainFilePath decl) formatter).2)).1 = _
  revert h hdecl hlater
  generalize getNamedDeclSymbol forText files mainFilePath decl = x
  generalize getNamedDeclSymbol forText files mainFilePath later = y
  generalize cacheKey decl = key
  intro hx hy h
  cases hx with
  | failure => cases h
  | cached hcompute =>
      have hafter := find_afterRequests forText files mainFilePath between
        (MemoTable.find_cached h)
      cases hy with
      | cached _ => rw [MemoTable.call_cached_of_some hafter]

/-- A structured binding in the file with the id `2`. -/
def bindingIn (canonicalDecl : Nat) : NamedDecl :=
  .Binding ⟨canonicalDecl, ['b'], ⟨some ⟨2⟩, some ⟨2⟩⟩⟩

/-- A project without files. -/
def noFiles : FileMetadataMap where
  projectRootPath := ⟨⟨['/', 'p']⟩, .Project⟩
  buildRootPath := ⟨⟨['/', 'q']⟩, .Build⟩
  packageMap := { projectRootPath := ⟨⟨['/', 'p']⟩, .Project⟩, isTesting := false }

/-- A binding is asked for again, after another one was numbered. -/
theorem symbol_stable_bindingIn :
    answerTo (fun _ => 0) noFiles [] [bindingIn 1, bindingIn 8] (bindingIn 1) =
      some (formatLocal 0) :=
  have hkey : cacheKey (bindingIn 1) = cacheKey (bindingIn 1) := rfl
  symbol_stable (fun _ => 0) noFiles [] hkey [] [bindingIn 8] rfl

end DeclFormatter

end ScipClang
