import ScipClang.Library.Memo
import ScipClang.Library.Worklist
import ScipClang.Worker.ForwardDeclMap

/-!
# References to members of dependent types

In a template, the member that an expression refers to may depend on the template arguments.
`TuIndexer::trySaveMemberReferenceViaLookup` (`indexer/Indexer.cc`) saves a reference to every
declaration that `ApproximateNameResolver` (`indexer/ApproximateNameResolver.cc`) finds in the type
of the base, going on from using-declarations to the types that they name.

What is found is remembered by the *canonical* type of the base and by the name of the member.  The
lookup itself starts from the type as it is written, which can be sugar that leads elsewhere: the
specialization of an alias template names no class template, although its canonical type may.  So
the first expression decides for all that come later.

* `resolve_spec`: a lookup below the limit collects the declarations of all types that using-
  declarations lead to, of each type once.
* `trySaveMemberReferenceViaLookup_spec`: what an expression refers to in the course of a
  translation unit.
-/

namespace ScipClang

open Memo HashTables

/-- What the resolver and the indexer ask Clang about types and declarations.  Types are told apart
by their addresses. -/
structure MemberAst (Ty Record Name Decl : Type) where
  isPointerType : Ty → Bool
  isReferenceType : Ty → Bool
  /-- `getPointeeType().getTypePtrOrNull()`. -/
  getPointeeType : Ty → Option Ty
  getCanonicalType : Ty → Ty
  /-- `getAs<RecordType>()`, with `dyn_cast<CXXRecordDecl>(recordType->getDecl())`. -/
  getAsRecordType : Ty → Option (Option Record)
  /-- `getAs<InjectedClassNameType>()`, with the type that is injected. -/
  getAsInjectedClassNameType : Ty → Option (Option Ty)
  /-- `getAs<TemplateSpecializationType>()`, with the class of the template, if it is a class
  template. -/
  getAsTemplateSpecializationType : Ty → Option (Option Record)
  getDefinition : Record → Option Record
  isUsingDecl : Decl → Bool
  /-- `dyn_cast<UnresolvedUsingValueDecl>(namedDecl)`, with the type of its qualifier. -/
  asUnresolvedUsingValueDecl : Decl → Option (Option Ty)
  /-- `HeuristicResolver::lookupDependentName`, for a filter. -/
  lookupDependentName : Record → Name → (Decl → Bool) → List Decl
  /-- `symbolFormatter.getNamedDeclSymbol`. -/
  getNamedDeclSymbol : Decl → Option Str
  /-- The comment of the declaration, if `RefersToForwardDecl::check` holds for it. -/
  forwardDecl : Decl → Option DocComment

/-- The variables of the loop in `tryResolveMember`. -/
structure MemberSearch (Ty Decl : Type) where
  results : List Decl := []
  /-- The end of the vector comes first. -/
  typesToLookup : List Ty
  seen : List Ty := []
  iterations : Nat := 0

namespace MemberAst

variable {Ty Record Name Decl : Type} [DecidableEq Ty] (ast : MemberAst Ty Record Name Decl)

/-- `ApproximateNameResolver::tryFindDeclForType`. -/
def tryFindDeclForType (type : Ty) : Option Record :=
  match ast.getAsRecordType type with
  | some decl => decl
  | none =>
      let type :=
        match ast.getAsInjectedClassNameType type with
        | some injected => injected
        | none => some type
      (type.bind ast.getAsTemplateSpecializationType).join

/-- The declarations that are found in a type. -/
def lookupResults (name : Name) (type : Ty) : List Decl :=
  match (ast.tryFindDeclForType type).bind ast.getDefinition with
  | some cxxRecordDecl =>
      ast.lookupDependentName cxxRecordDecl name fun namedDecl => !ast.isUsingDecl namedDecl
  | none => []

/-- What is done with one of the declarations that are found. -/
def addResult (search : MemberSearch Ty Decl) (namedDecl : Decl) : MemberSearch Ty Decl :=
  match ast.asUnresolvedUsingValueDecl namedDecl with
  | none => { search with results := search.results ++ [namedDecl] }
  | some (some innerType) =>
      { search with typesToLookup := innerType :: search.typesToLookup }
  | some none => search

/-- The loop body for the type that has been taken off the stack. -/
def visit (name : Name) (type : Ty) (search : MemberSearch Ty Decl) : MemberSearch Ty Decl :=
  if type ∈ search.seen then search
  else
    (ast.lookupResults name type).foldl ast.addResult
      { search with seen := search.seen ++ [type] }

/-- The declarations among the results. -/
def resolvedIn (name : Name) (type : Ty) : List Decl :=
  (ast.lookupResults name type).filter fun namedDecl =>
    (ast.asUnresolvedUsingValueDecl namedDecl).isNone

/-- The types that the using-declarations among the results lead to. -/
def innerTypes (name : Name) (type : Ty) : List Ty :=
  (ast.lookupResults name type).filterMap fun namedDecl =>
    (ast.asUnresolvedUsingValueDecl namedDecl).join

variable {ast}

omit [DecidableEq Ty] in
theorem foldl_addResult (namedDecls : List Decl) (search : MemberSearch Ty Decl) :
    namedDecls.foldl ast.addResult search =
      { search with
        results := search.results ++
          namedDecls.filter fun namedDecl => (ast.asUnresolvedUsingValueDecl namedDecl).isNone
        typesToLookup :=
          (namedDecls.filterMap fun namedDecl =>
            (ast.asUnresolvedUsingValueDecl namedDecl).join).reverse ++ search.typesToLookup } := by
  induction namedDecls generalizing search with
  | nil => simp
  | cons namedDecl namedDecls ih =>
      rw [List.foldl_cons, ih, addResult]
      rcases hdecl : ast.asUnresolvedUsingValueDecl namedDecl with _ | _ | innerType
      · simp [hdecl]
      · simp [hdecl]
      · simp [hdecl]

@[simp] theorem iterations_visit (name : Name) (type : Ty) (search : MemberSearch Ty Decl) :
    (ast.visit name type search).iterations = search.iterations := by
  unfold visit
  split
  · rfl
  · rw [foldl_addResult]

variable (ast) in
/-- The loop of `tryResolveMember`. -/
def visitTypes (name : Name) (search : MemberSearch Ty Decl) : MemberSearch Ty Decl :=
  match search.typesToLookup with
  | [] => search
  | type :: typesToLookup =>
      let iterations := search.iterations + 1
      if iterations > 10000 then { search with iterations }
      else visitTypes name (ast.visit name type { search with iterations, typesToLookup })
termination_by 10001 - search.iterations
decreasing_by
  simp only [iterations_visit]
  omega

variable (ast) in
/-- What `tryResolveMember` finds if nothing is remembered. -/
def resolve (type : Ty) (name : Name) : List Decl :=
  (ast.visitTypes name { typesToLookup := [type] }).results

/-! ## The loop as a search -/

/-- The search without the results that it collects. -/
def erase (search : MemberSearch Ty Decl) : Worklist.State Ty where
  stack := search.typesToLookup
  visited := search.seen
  pops := search.iterations

/-- The invariant of the loop. -/
structure SearchInv (ast : MemberAst Ty Record Name Decl) (name : Name) (start : Ty)
    (search : MemberSearch Ty Decl) : Prop where
  worklist : Worklist.Inv (ast.innerTypes name) start (erase search)
  results : search.results = search.seen.flatMap (ast.resolvedIn name)

variable {name : Name} {start : Ty} {search : MemberSearch Ty Decl}

/-- The loop body takes one type off the stack. -/
theorem SearchInv.visit (h : SearchInv ast name start search) {type : Ty}
    {typesToLookup : List Ty} (hstack : search.typesToLookup = type :: typesToLookup) :
    SearchInv ast name start (ast.visit name type
      { search with iterations := search.iterations + 1, typesToLookup }) := by
  have herase : erase (ast.visit name type
      { search with iterations := search.iterations + 1, typesToLookup }) =
      (erase search).pop (ast.innerTypes name) := by
    simp only [Worklist.State.pop, erase, hstack]
    unfold MemberAst.visit
    split
    · rfl
    · rw [foldl_addResult]
      rfl
  refine ⟨herase ▸ h.worklist.pop, ?_⟩
  unfold MemberAst.visit
  split
  · exact h.results
  · rw [foldl_addResult]
    show search.results ++ ast.resolvedIn name type =
      (search.seen ++ [type]).flatMap (ast.resolvedIn name)
    rw [List.flatMap_append, List.flatMap_singleton, h.results]

/-- The loop ends with an empty stack, or it gives up after 10000 types. -/
theorem visitTypes_inv (search : MemberSearch Ty Decl) (h : SearchInv ast name start search)
    (hle : search.iterations ≤ 10000) :
    ∃ final, SearchInv ast name start final ∧
      ((final.typesToLookup = [] ∧ ast.visitTypes name search = final) ∨
        (final.typesToLookup ≠ [] ∧ final.iterations = 10000)) := by
  induction search using visitTypes.induct ast name with
  | case1 search hstack =>
      refine ⟨search, h, Or.inl ⟨hstack, ?_⟩⟩
      rw [visitTypes, hstack]
  | case2 search type typesToLookup hstack iterations hlimit =>
      exact ⟨search, h, Or.inr ⟨by simp [hstack], by omega⟩⟩
  | case3 search type typesToLookup hstack iterations hlimit ih =>
      obtain ⟨final, hfinal, hend⟩ := ih (h.visit hstack)
        (by rw [iterations_visit]; exact Nat.le_of_not_lt hlimit)
      refine ⟨final, hfinal, hend.imp_left fun hdone => ⟨hdone.1, ?_⟩⟩
      rw [visitTypes, hstack]
      exact (if_neg hlimit).trans hdone.2

/-- **A lookup collects the declarations of all types that it can get to**, of each type once, if
there are fewer than 10000 using-declarations on the way. -/
theorem resolve_spec (ast : MemberAst Ty Record Name Decl) (name : Name) (start : Ty)
    (types : Finset Ty) (hreach : ∀ t, Worklist.Reaches (ast.innerTypes name) start t → t ∈ types)
    (hlimit : ∑ t ∈ types, (ast.innerTypes name t).length < 10000) :
    ∃ visited : List Ty, visited.Nodup ∧
      (∀ t, t ∈ visited ↔ Worklist.Reaches (ast.innerTypes name) start t) ∧
      ast.resolve start name = visited.flatMap (ast.resolvedIn name) := by
  have hinit : SearchInv ast name start { typesToLookup := [start] } :=
    ⟨Worklist.Inv.init (ast.innerTypes name) start, rfl⟩
  obtain ⟨final, hfinal, ⟨hstack, heq⟩ | ⟨hstack, hpops⟩⟩ :=
    visitTypes_inv _ hinit (Nat.zero_le _)
  · refine ⟨final.seen, hfinal.worklist.nodup, hfinal.worklist.mem_visited_iff hstack, ?_⟩
    rw [resolve, heq]
    exact hfinal.results
  · -- the pops so far have used up more using-declarations than there are
    have hle := hfinal.worklist.pops_le types hreach
    have hpos := List.length_pos_iff.mpr hstack
    simp only [erase, hpops] at hle
    omega

end MemberAst

/-! ## Remembered lookups -/

section Remembered

variable {Ty Record Name Decl : Type} [DecidableEq Ty] [DecidableEq Name]

/-- `ApproximateNameResolver`. -/
structure ApproximateNameResolver (Ty Name Decl : Type) [DecidableEq Ty] [DecidableEq Name] where
  dependentNameLookupCache : AList (fun _ : Ty × Name => List Decl) := ∅

/-- `dependentNameLookupCache`, as a table of results. -/
def memberTable :
    MemoTable (ApproximateNameResolver Ty Name Decl) (Ty × Name) (List Decl) where
  find resolver key := resolver.dependentNameLookupCache.lookup key
  add resolver key results :=
    { resolver with
      dependentNameLookupCache :=
        upsert resolver.dependentNameLookupCache key (·.getD results) }
  find_add resolver key results := by
    funext other
    simp [Function.update_apply, lookup_upsert]

/-- A member expression, with the type of its base. -/
structure MemberExpr (Ty Name : Type) where
  baseType : Option Ty
  memberName : Name
  location : TokenLocation

/-- `TuIndexer`, with its resolver. -/
structure MemberIndexer (Ty Name Decl : Type) [DecidableEq Ty] [DecidableEq Name]
    extends TuIndexer where
  approximateNameResolver : ApproximateNameResolver Ty Name Decl := {}

namespace MemberAst

variable (ast : MemberAst Ty Record Name Decl)

/-- `MemberLookupKey`. -/
def memberLookupKey (request : Ty × Name) : Ty × Name :=
  (ast.getCanonicalType request.1, request.2)

/-- `ApproximateNameResolver::tryResolveMember`, for a type. -/
def tryResolveMember (type : Ty) (name : Name) :
    Lookup (ApproximateNameResolver Ty Name Decl) (List Decl) :=
  memberTable.cached (ast.memberLookupKey (type, name)) (return ast.resolve type name)

/-- The type in which the member is looked up. -/
def derefBaseType (baseType : Ty) : Option Ty :=
  if ast.isPointerType baseType ∨ ast.isReferenceType baseType then ast.getPointeeType baseType
  else some (ast.getCanonicalType baseType)

/-- What the resolver is asked for an expression. -/
def request (expr : MemberExpr Ty Name) : Option (Ty × Name) :=
  (expr.baseType.bind ast.derefBaseType).map fun type => (type, expr.memberName)

/-- The reference to a declaration. -/
def referenceTo (location : TokenLocation) (namedDecl : Decl) : Option SaveCall :=
  (ast.getNamedDeclSymbol namedDecl).map fun symbol =>
    .reference symbol location (ast.forwardDecl namedDecl) 0

end MemberAst

/-- `TuIndexer::trySaveMemberReferenceViaLookup`. -/
def MemberIndexer.trySaveMemberReferenceViaLookup (ast : MemberAst Ty Record Name Decl)
    (indexer : MemberIndexer Ty Name Decl) (expr : MemberExpr Ty Name) :
    MemberIndexer Ty Name Decl :=
  match ast.request expr with
  | none => indexer
  | some (type, name) =>
      let (namedDecls, approximateNameResolver) :=
        call (ast.tryResolveMember type name) indexer.approximateNameResolver
      { toTuIndexer := (namedDecls.getD []).foldl (fun tuIndexer namedDecl =>
          match ast.getNamedDeclSymbol namedDecl with
          | some symbol =>
              tuIndexer.saveReference symbol expr.location (ast.forwardDecl namedDecl) 0
          | none => tuIndexer) indexer.toTuIndexer
        approximateNameResolver }

namespace MemberIndexer

variable {ast : MemberAst Ty Record Name Decl}

/-- The member expressions in the course of a translation unit. -/
def saveAll (ast : MemberAst Ty Record Name Decl) (indexer : MemberIndexer Ty Name Decl)
    (exprs : List (MemberExpr Ty Name)) : MemberIndexer Ty Name Decl :=
  exprs.foldl (trySaveMemberReferenceViaLookup ast) indexer

/-- The type from which the lookup of a request has started: that of the first request with the same
key. -/
def startOf (ast : MemberAst Ty Record Name Decl) (before : List (MemberExpr Ty Name))
    (request : Ty × Name) : Ty :=
  (((before.filterMap ast.request).find? fun other =>
    ast.memberLookupKey other = ast.memberLookupKey request).getD request).1

theorem approximateNameResolver_saveAll (exprs : List (MemberExpr Ty Name))
    (indexer : MemberIndexer Ty Name Decl) :
    (indexer.saveAll ast exprs).approximateNameResolver =
      (exprs.filterMap ast.request).foldl (fun resolver request =>
        (call (ast.tryResolveMember request.1 request.2) resolver).2)
        indexer.approximateNameResolver := by
  induction exprs generalizing indexer with
  | nil => rfl
  | cons expr exprs ih =>
      show ((indexer.trySaveMemberReferenceViaLookup ast expr).saveAll ast
        exprs).approximateNameResolver = _
      rw [ih, trySaveMemberReferenceViaLookup]
      cases hrequest : ast.request expr with
      | none => rw [List.filterMap_cons_none hrequest]
      | some request => rw [List.filterMap_cons_some hrequest, List.foldl_cons]

/-- The lookup of a request has the result of the first request with the same key. -/
theorem tryResolveMember_saveAll (tuIndexer : TuIndexer) (before : List (MemberExpr Ty Name))
    (type : Ty) (name : Name) :
    (call (ast.tryResolveMember type name)
        (saveAll ast { toTuIndexer := tuIndexer } before).approximateNameResolver).1 =
      some (ast.resolve (startOf ast before (type, name)) name) := by
  have hempty : memberTable.find ({} : ApproximateNameResolver Ty Name Decl)
      (ast.memberLookupKey (type, name)) = none := by
    show (∅ : AList fun _ : Ty × Name => List Decl).lookup
      (ast.memberLookupKey (type, name)) = none
    exact AList.lookup_empty _
  have hfind := MemoTable.find_foldl_cached_pure (T := memberTable) ast.memberLookupKey
    (fun request => ast.resolve request.1 request.2) (before.filterMap ast.request) {}
    (ast.memberLookupKey (type, name))
  rw [hempty, Option.none_or] at hfind
  rw [approximateNameResolver_saveAll, MemberAst.tryResolveMember,
    (MemoTable.call_cached_pure (T := memberTable) _ _ _).1, startOf]
  refine congrArg some ((congrArg (Option.getD · _) hfind).trans ?_)
  cases hfirst : (before.filterMap ast.request).find? fun other =>
      ast.memberLookupKey other = ast.memberLookupKey (type, name) with
  | none => rfl
  | some first =>
      have hkey : ast.memberLookupKey first = ast.memberLookupKey (type, name) := by
        simpa using List.find?_some hfirst
      have hname : first.2 = name := congrArg Prod.snd hkey
      show ast.resolve first.1 first.2 = ast.resolve first.1 name
      rw [hname]

omit [DecidableEq Ty] [DecidableEq Name] in
/-- The references to the declarations are saved one after the other. -/
theorem foldl_saveReference (namedDecls : List Decl) (location : TokenLocation)
    (tuIndexer : TuIndexer) :
    namedDecls.foldl (fun tuIndexer namedDecl =>
        match ast.getNamedDeclSymbol namedDecl with
        | some symbol =>
            tuIndexer.saveReference symbol location (ast.forwardDecl namedDecl) 0
        | none => tuIndexer) tuIndexer =
      tuIndexer.performAll (namedDecls.filterMap (ast.referenceTo location)) := by
  induction namedDecls generalizing tuIndexer with
  | nil => rfl
  | cons namedDecl namedDecls ih =>
      rw [List.foldl_cons, ih]
      cases hsymbol : ast.getNamedDeclSymbol namedDecl with
      | none =>
          have hnone : ast.referenceTo location namedDecl = none := by
            rw [MemberAst.referenceTo, hsymbol, Option.map_none]
          rw [List.filterMap_cons_none hnone]
      | some symbol =>
          have hsome : ast.referenceTo location namedDecl =
              some (.reference symbol location (ast.forwardDecl namedDecl) 0) := by
            rw [MemberAst.referenceTo, hsymbol, Option.map_some]
          rw [List.filterMap_cons_some hsome]
          rfl

/-- **What a member expression refers to**, whatever expressions came before it: in order, all
declarations of the types that using-declarations lead to, of each type once.  They lead there from
the type of the first expression with the same canonical type and the same name. -/
theorem trySaveMemberReferenceViaLookup_spec (ast : MemberAst Ty Record Name Decl)
    (tuIndexer : TuIndexer) (before : List (MemberExpr Ty Name)) (expr : MemberExpr Ty Name)
    {type : Ty} (hrequest : ast.request expr = some (type, expr.memberName)) {types : Finset Ty}
    (hreach : ∀ t, Worklist.Reaches (ast.innerTypes expr.memberName)
      (startOf ast before (type, expr.memberName)) t → t ∈ types)
    (hlimit : ∑ t ∈ types, (ast.innerTypes expr.memberName t).length < 10000) :
    ∃ visited : List Ty, visited.Nodup ∧
      (∀ t, t ∈ visited ↔ Worklist.Reaches (ast.innerTypes expr.memberName)
        (startOf ast before (type, expr.memberName)) t) ∧
      (saveAll ast { toTuIndexer := tuIndexer } (before ++ [expr])).toTuIndexer =
        (saveAll ast { toTuIndexer := tuIndexer } before).toTuIndexer.performAll
          ((visited.flatMap (ast.resolvedIn expr.memberName)).filterMap
            (ast.referenceTo expr.location)) := by
  obtain ⟨visited, hnodup, hvisited, hresolve⟩ := ast.resolve_spec expr.memberName _ types hreach
    hlimit
  refine ⟨visited, hnodup, hvisited, ?_⟩
  have hlookup : (call (ast.tryResolveMember type expr.memberName)
      (saveAll ast { toTuIndexer := tuIndexer } before).approximateNameResolver).1 = _ :=
    tryResolveMember_saveAll tuIndexer before type expr.memberName
  rw [hresolve] at hlookup
  rw [saveAll, List.foldl_append, List.foldl_cons, List.foldl_nil, trySaveMemberReferenceViaLookup,
    hrequest]
  show (Option.getD (call (ast.tryResolveMember type expr.memberName)
    (saveAll ast { toTuIndexer := tuIndexer } before).approximateNameResolver).1 []).foldl _ _ = _
  rw [hlookup, Option.getD_some, foldl_saveReference]
  rfl

/-- A class template that names a member of its base by `using`, and the other way round; the third
type is that of a pointer to the first.  Its members are a `using` that is skipped and one that is
followed; those of the base are a field, a function and a `using`. -/
def usingAst : MemberAst (Fin 3) (Fin 2) Unit (Fin 5) where
  isPointerType t := t = 2
  isReferenceType _ := false
  getPointeeType t := if t = 2 then some 0 else none
  getCanonicalType t := t
  getAsRecordType _ := none
  getAsInjectedClassNameType _ := none
  getAsTemplateSpecializationType t :=
    if t = 0 then some (some 0) else if t = 1 then some (some 1) else none
  getDefinition decl := some decl
  isUsingDecl namedDecl := namedDecl = 0
  asUnresolvedUsingValueDecl namedDecl :=
    if namedDecl = 1 then some (some 1) else if namedDecl = 4 then some (some 0) else none
  lookupDependentName decl _ filter := (if decl = 0 then [0, 1] else [2, 3, 4]).filter filter
  getNamedDeclSymbol namedDecl := some (Nat.toDigits 10 namedDecl)
  forwardDecl _ := none

/-- The main file of a project. -/
def usingTuIndexer : TuIndexer where
  fileIdsToBeIndexed := [⟨1⟩]
  fileMetadataMap :=
    { map := AList.singleton ⟨1⟩
        { stableFileId := ⟨⟨"foo.cc".toList, .Project⟩, true, false⟩
          originalPath := ⟨"/p/foo.cc".toList⟩
          packageInfo := none }
      projectRootPath := ⟨⟨"/p".toList⟩, .Project⟩
      buildRootPath := ⟨⟨"/p/build".toList⟩, .Build⟩
      packageMap := { projectRootPath := ⟨⟨"/p".toList⟩, .Project⟩, isTesting := false } }

/-- `x.m` on the first line, and `p->m` on the second. -/
def usingExprs : MemberExpr (Fin 3) Unit × MemberExpr (Fin 3) Unit :=
  (⟨some 0, (), ⟨⟨1, 3, 1, 4, by decide, by decide⟩, ⟨1⟩⟩⟩,
    ⟨some 2, (), ⟨⟨2, 4, 2, 5, by decide, by decide⟩, ⟨1⟩⟩⟩)

theorem trySaveMemberReferenceViaLookup_using :
    ∃ visited : List (Fin 3), visited.Nodup ∧
      (∀ t, t ∈ visited ↔ Worklist.Reaches (usingAst.innerTypes ()) 0 t) ∧
      (saveAll usingAst { toTuIndexer := usingTuIndexer }
          ([usingExprs.1] ++ [usingExprs.2])).toTuIndexer =
        (saveAll usingAst { toTuIndexer := usingTuIndexer } [usingExprs.1]).toTuIndexer.performAll
          ((visited.flatMap (usingAst.resolvedIn ())).filterMap
            (usingAst.referenceTo usingExprs.2.location)) :=
  trySaveMemberReferenceViaLookup_spec usingAst usingTuIndexer [usingExprs.1] usingExprs.2 rfl
    (fun t _ => Finset.mem_univ t) (by decide)

end MemberIndexer

end Remembered

end ScipClang
