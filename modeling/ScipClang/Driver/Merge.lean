import ScipClang.FileIndexingPlanner
import ScipClang.Scip.Effects
import ScipClang.Worker.Documents

/-!
# From translation units to the written index

The last part of the driver: `mergeShardsAndEmit` (`indexer/Driver.cc`) reads the shards
back, feeds them into an `IndexBuilder`, resolves the forward declarations and writes the
result.  Together with the planner and the workers this is the whole way from a list of
translation units to the documents of the index.

A document goes into the list of documents or is merged by path, depending on how many
hashes were reported for the file it stands for.  Whether the index then has one document
for every path is not decided by the builder alone: it is up to the planner not to hand
out a file with a single hash twice, and to the workers not to index files they were not
asked for.

* `IndexBuilder.samePaths_addForwardDeclarations`: resolving forward declarations adds and
  removes no document.
* `mergeShardsAndEmit_spec`: how many documents are written for a path.
-/

namespace ScipClang

open HashTables

/-! ## Merging shards -/

/-- The orders in which hash tables happen to be iterated during a merge. -/
structure MergeOrders where
  populate : IterationOrder Table
  forwardDecl : Nat → IterationOrder Table
  finish : IterationOrder Table

/-- `Driver::isMultiplyIndexedApproximate`. -/
def isMultiplyIndexedApproximate (planner : FileIndexingPlanner) (relativePath : Str) : Bool :=
  match planner.isMultiplyIndexed ⟨relativePath, .Project⟩ with
  | .True => true
  | .False => false
  | .Unknown => true

/-- The calls that `mergeShardsAndEmit` makes for a shard. -/
def shardCalls (planner : FileIndexingPlanner) (indexShard : Index) : List BuilderCall :=
  (indexShard.documents.map fun doc =>
    .addDocument doc (isMultiplyIndexedApproximate planner doc.relativePath)) ++
  indexShard.externalSymbols.map .addExternalSymbol

/-- `Driver::mergeShardsAndEmit`, with the shards that could be read. -/
def mergeShardsAndEmit (planner : FileIndexingPlanner) (indexShards : List Index)
    (forwardDeclShards : List (List ForwardDecl)) (orders : MergeOrders) (deterministic : Bool) :
    Option (List Index) := do
  let builder := IndexBuilder.performAll (indexShards.flatMap (shardCalls planner))
  let forwardDeclResolver := builder.populateForwardDeclResolver orders.populate
  let forwardDecls := forwardDeclShards.flatten.zipIdx.map fun forwardDecl =>
    (orders.forwardDecl forwardDecl.2, forwardDecl.1)
  let (builder, _) ← builder.addForwardDeclarations forwardDeclResolver forwardDecls
  some (builder.finish orders.finish deterministic)

/-- No path has more than one document. -/
def OneDocumentPerPath (output : List Index) : Prop :=
  ∀ path, ((concatenate output).documents.filter fun doc => doc.relativePath = path).length ≤ 1

/-! ## Forward declarations keep the documents -/

namespace IndexBuilder

/-- The paths of all documents, and those of the builders of documents by their key. -/
def paths (builder : IndexBuilder) : List Str × (Str → Option Str) :=
  (builder.documents.map Document.relativePath,
    fun path => (builder.multiplyIndexed.lookup path).map (·.soFar.relativePath))

theorem paths_congr {builder builder' : IndexBuilder}
    (hdocuments : builder'.documents = builder.documents)
    (hmulti : builder'.multiplyIndexed = builder.multiplyIndexed) :
    builder'.paths = builder.paths := by
  simp only [paths, hdocuments, hmulti]

theorem paths_setMissingDocumentation (builder : IndexBuilder) (documentation : Str)
    (ptr : SymbolInfoOrBuilderPtr) :
    (builder.setMissingDocumentation documentation ptr).paths = builder.paths := by
  cases ptr with
  | symbolInfo document symbol =>
      refine Prod.ext ?_ rfl
      simp only [paths, setMissingDocumentation]
      refine List.ext_getElem? fun i => ?_
      rw [List.getElem?_map, List.getElem?_map, List.getElem?_modify]
      cases builder.documents[i]? with
      | none => simp
      | some doc => by_cases hi : document = i <;> simp [hi]
  | builder path name =>
      unfold setMissingDocumentation
      dsimp only
      split
      · rfl
      · rename_i docBuilder hpath
        split
        · rfl
        · refine Prod.ext rfl (funext fun other => ?_)
          simp only [paths]
          by_cases hother : other = path
          · subst hother
            rw [AList.lookup_insert, hpath]
            rfl
          · rw [AList.lookup_insert_ne hother]

theorem paths_addExternalSymbolUnchecked (builder : IndexBuilder) (name : Str)
    (extSym : SymbolInformation) :
    (builder.addExternalSymbolUnchecked name extSym).paths = builder.paths := by
  unfold addExternalSymbolUnchecked
  dsimp only
  split
  · rfl
  · exact paths_congr rfl rfl

theorem paths_dropExternals (builder : IndexBuilder) (resolver : ForwardDeclResolver)
    (order : IterationOrder Table) (suffix : Str) :
    (builder.dropExternals resolver order suffix).1.paths = builder.paths := by
  unfold dropExternals
  split
  · exact paths_congr rfl rfl
  · rfl

theorem paths_addForwardDeclaration {builder builder' : IndexBuilder}
    {resolver resolver' : ForwardDeclResolver} {order : IterationOrder Table}
    {forwardDecl : ForwardDecl}
    (h : builder.addForwardDeclaration resolver order forwardDecl = some (builder', resolver')) :
    builder'.paths = builder.paths := by
  rcases addForwardDeclaration_cases h with ⟨ptr, name, -, rfl⟩ | ⟨externals, -, -, hfold⟩ |
    ⟨-, -, rfl⟩
  · refine (paths_congr rfl rfl).trans (Eq.trans ?_
      (paths_dropExternals builder resolver order forwardDecl.suffix))
    unfold writeDocumentation
    split
    · exact paths_setMissingDocumentation _ _ _
    · rfl
  · exact foldlM_resolveExternal_induction
      (motive := fun resolved => resolved.paths = builder.paths)
      (fun _ _ _ hsame _ => (paths_congr rfl rfl).trans hsame) _ rfl hfold
  · exact (paths_congr rfl rfl).trans (paths_addExternalSymbolUnchecked builder _ _)

/-- Resolving forward declarations adds and removes no document. -/
theorem samePaths_addForwardDeclarations
    (forwardDecls : List (IterationOrder Table × ForwardDecl)) {builder builder' : IndexBuilder}
    {resolver resolver' : ForwardDeclResolver}
    (h : builder.addForwardDeclarations resolver forwardDecls = some (builder', resolver')) :
    builder'.paths = builder.paths := by
  induction forwardDecls generalizing builder resolver with
  | nil =>
      obtain ⟨rfl, -⟩ := Prod.mk.inj (Option.some.inj h)
      rfl
  | cons forwardDecl forwardDecls ih =>
      obtain ⟨⟨middle, middleResolver⟩, hstep, hrest⟩ := Option.bind_eq_some_iff.mp h
      exact (ih hrest).trans (paths_addForwardDeclaration hstep)

/-- How many documents are written for a path depends on the paths in the builder only. -/
theorem length_filter_documents_finish {builder : IndexBuilder} (hpaths : builder.PathsAgree)
    (order : IterationOrder Table) (deterministic : Bool) (path : Str) :
    ((concatenate (builder.finish order deterministic)).documents.filter fun doc =>
        doc.relativePath = path).length =
      (builder.paths.1.filter fun other => other = path).length +
        (builder.paths.2 path).toList.length := by
  rw [concatenate_finish, List.filter_map, List.length_map]
  simp only [Function.comp_def, IndexWriter.relativePath_addOccurrences]
  have hdocuments : ((builder.documents.map Document.relativePath).filter fun other =>
      other = path).length =
      (builder.documents.filter fun doc => doc.relativePath = path).length := by
    rw [List.filter_map, List.length_map]
    rfl
  rw [List.filter_append, List.length_append, filter_finishedDocuments hpaths]
  simp only [paths, hdocuments]
  cases builder.multiplyIndexed.lookup path <;> rfl

theorem pathsAgree_of_paths_eq {builder builder' : IndexBuilder}
    (hpaths : builder.PathsAgree) (hsame : builder'.paths = builder.paths) :
    builder'.PathsAgree := by
  intro path docBuilder hlookup
  have hkey := congrFun (congrArg Prod.snd hsame) path
  simp only [paths, hlookup, Option.map_some] at hkey
  obtain ⟨old, hold, heq⟩ := Option.map_eq_some_iff.mp hkey.symm
  rw [← heq, hpaths path old hold]

end IndexBuilder

/-! ## How many documents are written for a path -/

theorem flaggedBy_shardCalls (planner : FileIndexingPlanner) (indexShards : List Index) :
    BuilderCall.FlaggedBy (isMultiplyIndexedApproximate planner)
      (indexShards.flatMap (shardCalls planner)) := by
  intro doc flag hmem
  obtain ⟨indexShard, -, hcall⟩ := List.mem_flatMap.mp hmem
  rcases List.mem_append.mp hcall with hcall | hcall
  · obtain ⟨other, -, heq⟩ := List.mem_map.mp hcall
    obtain ⟨rfl, rfl⟩ := BuilderCall.addDocument.inj heq
    rfl
  · obtain ⟨extSym, -, heq⟩ := List.mem_map.mp hcall
    cases heq

theorem documents_shardCalls (planner : FileIndexingPlanner) (indexShards : List Index) :
    BuilderCall.documents (indexShards.flatMap (shardCalls planner)) =
      indexShards.flatMap Index.documents := by
  induction indexShards with
  | nil => rfl
  | cons indexShard indexShards ih =>
      simp only [BuilderCall.documents, List.flatMap_cons, List.filterMap_append,
        shardCalls] at ih ⊢
      rw [ih]
      simp [List.filterMap_map]

/-- **How many documents are written for a path**: all that were read for it if exactly one
hash was reported for the file it stands for, and otherwise at most one. -/
theorem mergeShardsAndEmit_spec (planner : FileIndexingPlanner) (indexShards : List Index)
    (forwardDeclShards : List (List ForwardDecl)) (orders : MergeOrders) (deterministic : Bool) :
    ∃ output, mergeShardsAndEmit planner indexShards forwardDeclShards orders deterministic =
        some output ∧
      ∀ path, (isMultiplyIndexedApproximate planner path = true →
          ((concatenate output).documents.filter fun doc => doc.relativePath = path).length ≤ 1) ∧
        (isMultiplyIndexedApproximate planner path = false →
          ((concatenate output).documents.filter fun doc => doc.relativePath = path).length =
            ((indexShards.flatMap Index.documents).filter fun doc =>
              doc.relativePath = path).length) := by
  have hflag := flaggedBy_shardCalls planner indexShards
  obtain ⟨builder, resolver, hrun, -⟩ :=
    (IndexBuilder.resolverInv_initial (IndexBuilder.tracks_populate
      (IndexBuilder.performAll (indexShards.flatMap (shardCalls planner)))
      orders.populate)).addForwardDeclarations_spec
      (IndexBuilder.pointersValid_populate _ orders.populate)
      (forwardDeclShards.flatten.zipIdx.map fun forwardDecl =>
        (orders.forwardDecl forwardDecl.2, forwardDecl.1))
  have hsame := IndexBuilder.samePaths_addForwardDeclarations _ hrun
  have hagree := IndexBuilder.pathsAgree_performAll (indexShards.flatMap (shardCalls planner))
  -- resolving forward declarations does not change the number of documents
  have hcount : ∀ path,
      ((concatenate (builder.finish orders.finish deterministic)).documents.filter fun doc =>
        doc.relativePath = path).length =
      ((concatenate ((IndexBuilder.performAll (indexShards.flatMap (shardCalls planner))).finish
        orders.finish deterministic)).documents.filter fun doc =>
          doc.relativePath = path).length := by
    intro path
    rw [IndexBuilder.length_filter_documents_finish
        (IndexBuilder.pathsAgree_of_paths_eq hagree hsame),
      IndexBuilder.length_filter_documents_finish hagree, hsame]
  refine ⟨builder.finish orders.finish deterministic, ?_, fun path => ⟨?_, ?_⟩⟩
  · rw [mergeShardsAndEmit, hrun]
    rfl
  · intro hmulti
    rw [hcount, IndexBuilder.filter_documents_finish hflag, if_pos hmulti]
    cases (IndexBuilder.performAll
      (indexShards.flatMap (shardCalls planner))).multiplyIndexed.lookup path <;> simp
  · intro hsingle
    rw [hcount, IndexBuilder.filter_documents_finish hflag, if_neg (by simp [hsingle]),
      documents_shardCalls]

end ScipClang
