import ScipClang.Scip.Ambiguity

/-!
# Which documentation a symbol ends up with

Several shards and several forward declarations may come with documentation for a symbol.  All
places that decide whether to overwrite what a symbol has ask `hasDocumentation`, which only
knows the placeholder: documentation whose first entry is empty, as a blank comment leaves it,
counts as documentation and keeps real documentation out.  An external symbol that is dropped
for a symbol of a document is not emitted at all.

* `IndexBuilder.documentationInv_run`: in every entry, the first documentation that counts wins.
* `IndexBuilder.emittedDocumentation_finish`: what is emitted is what the entries hold.
* `keepsRealDocumentation_iff`: when real documentation survives.
-/

namespace ScipClang

open HashTables

/-! ## The first documentation that counts -/

/-- Real documentation: the first entry is neither empty nor the placeholder. -/
def IsReal (documentation : List Str) : Prop :=
  hasDocumentation documentation = true ∧ documentation.head? ≠ some []

/-- Documentation whose first entry is empty. -/
def IsBlank (documentation : List Str) : Prop := documentation.head? = some []

instance : DecidablePred IsReal := fun _ => inferInstanceAs (Decidable (_ ∧ _))

instance : DecidablePred IsBlank := fun _ => inferInstanceAs (Decidable (_ = _))

/-- Blank documentation is offered before the first real one. -/
def BlankBeforeReal (offered : List (List Str)) : Prop :=
  ∃ before after, offered = before ++ after ∧ (∀ docs ∈ before, ¬ IsReal docs) ∧
    (∃ docs ∈ before, IsBlank docs) ∧ ∃ docs ∈ after, IsReal docs

theorem hasDocumentation_of_isBlank {docs : List Str} (h : IsBlank docs) :
    hasDocumentation docs = true := by
  cases docs with
  | nil => cases h
  | cons first rest =>
      obtain rfl : first = [] := Option.some.inj h
      rfl

/-- What is kept of the documentation that was offered: the first that counts as documentation,
if there is any. -/
structure Outcome (offered : List (List Str)) (docs : List Str) : Prop where
  found : ∀ first, offered.find? hasDocumentation = some first → docs = first
  missing : offered.find? hasDocumentation = none → hasDocumentation docs = false

namespace Outcome

variable {offered : List (List Str)} {docs new : List Str}

theorem hasDocumentation_iff (h : Outcome offered docs) :
    hasDocumentation docs = true ↔ (offered.find? hasDocumentation).isSome := by
  cases hfind : offered.find? hasDocumentation with
  | none => simp [h.missing hfind]
  | some first =>
      rw [h.found first hfind]
      exact iff_of_true (List.find?_some hfind) rfl

theorem first (docs : List Str) : Outcome [docs] docs := by
  rw [← List.nil_append [docs]]
  constructor
  · intro found hfound
    exact (List.mem_singleton.mp (List.mem_of_find?_eq_some hfound)).symm
  · intro hnone
    simpa using List.find?_eq_none.mp hnone docs (List.mem_singleton_self docs)

/-- New documentation is turned down if there is documentation, or if it does not count. -/
theorem keep (h : Outcome offered docs)
    (hkeep : hasDocumentation docs = true ∨ hasDocumentation new = false) :
    Outcome (offered ++ [new]) docs := by
  have hfind : (offered ++ [new]).find? hasDocumentation = offered.find? hasDocumentation := by
    rw [List.find?_append]
    rcases hkeep with hdocs | hnew
    · obtain ⟨found, hfound⟩ := Option.isSome_iff_exists.mp (h.hasDocumentation_iff.mp hdocs)
      rw [hfound, Option.some_or]
    · rw [List.find?_singleton, hnew]
      simp
  exact ⟨hfind ▸ h.found, hfind ▸ h.missing⟩

/-- New documentation is taken over if there is none. -/
theorem take (h : Outcome offered docs) (hdocs : hasDocumentation docs = false) :
    Outcome (offered ++ [new]) new := by
  have hnone : offered.find? hasDocumentation = none := by
    rw [← Option.not_isSome_iff_eq_none, ← h.hasDocumentation_iff, hdocs]
    exact Bool.false_ne_true
  have hfind : (offered ++ [new]).find? hasDocumentation = [new].find? hasDocumentation := by
    rw [List.find?_append, hnone, Option.none_or]
  exact ⟨hfind ▸ (first new).found, hfind ▸ (first new).missing⟩

/-- One more documentation is offered, and taken over if there is none. -/
theorem offer (h : Outcome offered docs) :
    Outcome (offered ++ [new]) (if hasDocumentation docs then docs else new) := by
  split
  · rename_i hdocs
    exact h.keep (Or.inl hdocs)
  · rename_i hdocs
    exact h.take (Bool.eq_false_iff.mpr hdocs)

/-- **When real documentation survives**: if nothing blank comes before it. -/
theorem isReal_iff (h : Outcome offered docs) :
    ((∃ real ∈ offered, IsReal real) → IsReal docs) ↔ ¬ BlankBeforeReal offered := by
  constructor
  · rintro hkept ⟨before, after, rfl, hbefore, ⟨blank, hblank, hisBlank⟩, real, hreal, hisReal⟩
    have hsome : (before.find? hasDocumentation).isSome :=
      List.find?_isSome.mpr ⟨blank, hblank, hasDocumentation_of_isBlank hisBlank⟩
    obtain ⟨first, hfirst⟩ := Option.isSome_iff_exists.mp hsome
    have hdocs : docs = first :=
      h.found first (by rw [List.find?_append, hfirst, Option.some_or])
    have hisReal' := hkept ⟨real, List.mem_append_right _ hreal, hisReal⟩
    rw [hdocs] at hisReal'
    exact hbefore first (List.mem_of_find?_eq_some hfirst) hisReal'
  · rintro hnot ⟨real, hreal, hisReal⟩
    have hsome : (offered.find? hasDocumentation).isSome :=
      List.find?_isSome.mpr ⟨real, hreal, hisReal.1⟩
    obtain ⟨first, hfirst⟩ := Option.isSome_iff_exists.mp hsome
    obtain ⟨hcounts, before, after, hsplit, hbefore⟩ := List.find?_eq_some_iff_append.mp hfirst
    rw [h.found first hfirst]
    refine ⟨hcounts, fun hblank => hnot ⟨before ++ [first], after, ?_, ?_, ?_, real, ?_, hisReal⟩⟩
    · rw [hsplit, List.append_assoc, List.singleton_append]
    · intro docs hdocs hdocsReal
      rcases List.mem_append.mp hdocs with hmem | hmem
      · have hnone := hbefore docs hmem
        rw [hdocsReal.1] at hnone
        cases hnone
      · exact hdocsReal.2 (List.mem_singleton.mp hmem ▸ hblank)
    · exact ⟨first, List.mem_append_right _ (List.mem_singleton_self first), hblank⟩
    · -- what comes before does not count, and the first is blank
      rw [hsplit] at hreal
      rcases List.mem_append.mp hreal with hmem | hmem
      · have hnone := hbefore real hmem
        rw [hisReal.1] at hnone
        cases hnone
      · rcases List.mem_cons.mp hmem with rfl | hmem
        · exact absurd hblank hisReal.2
        · exact hmem

end Outcome

/-! ## Entries -/

/-- Where the documentation of a symbol is kept: in a symbol of a document, or with the external
symbols. -/
inductive SymbolEntry where
  | inDocument (ptr : SymbolInfoOrBuilderPtr)
  | external (name : Str)

namespace IndexBuilder

open BuilderCall

/-- The documentation in an entry. -/
def documentationAt (builder : IndexBuilder) : SymbolEntry → Option (List Str)
  | .inDocument (.symbolInfo document symbol) =>
      (builder.documents[document]?.bind (·.symbols[symbol]?)).map SymbolInformation.documentation
  | .inDocument (.builder path name) =>
      (builder.symbolBuilder path name).map SymbolInformationBuilder.documentation
  | .external name =>
      (builder.externalSymbols.lookup name).map SymbolInformationBuilder.documentation

end IndexBuilder

/-- The `SymbolInformation`s that are merged into an entry. -/
def mergedInto (calls : List BuilderCall) : SymbolEntry → List SymbolInformation
  | .inDocument (.symbolInfo document symbol) =>
      ((BuilderCall.documentsWith false calls)[document]?.bind (·.symbols[symbol]?)).toList
  | .inDocument (.builder path name) => BuilderCall.inputsFor calls path name
  | .external name => (BuilderCall.externalSymbols calls).filter fun extSym => extSym.symbol = name

/-- A forward declaration resolves to an entry.  The empty documentation of a forward declaration
is not offered to the symbol of a document. -/
def ResolvesTo (resolver : ForwardDeclResolver) (forwardDecl : ForwardDecl) : SymbolEntry → Prop
  | .inDocument ptr => resolver.lookupInDocuments forwardDecl.suffix = some ptr ∧
      forwardDecl.documentation ≠ []
  | .external name => getPackageAgnosticSuffix name = some forwardDecl.suffix

instance (resolver : ForwardDeclResolver) (forwardDecl : ForwardDecl) :
    (entry : SymbolEntry) → Decidable (ResolvesTo resolver forwardDecl entry)
  | .inDocument _ => inferInstanceAs (Decidable (_ ∧ _))
  | .external _ => inferInstanceAs (Decidable (_ = _))

/-- The documentation that an entry is offered, in order. -/
def offeredDocumentation (calls : List BuilderCall) (resolver : ForwardDeclResolver)
    (forwardDecls : List ForwardDecl) (entry : SymbolEntry) : List (List Str) :=
  (mergedInto calls entry).map SymbolInformation.documentation ++
    (forwardDecls.filter (ResolvesTo resolver · entry)).map fun forwardDecl =>
      [forwardDecl.documentation]

namespace IndexBuilder

open BuilderCall

variable {calls : List BuilderCall} {builder builder' : IndexBuilder}
  {resolver resolver' resolver₀ : ForwardDeclResolver} {order : IterationOrder Table}
  {forwardDecl : ForwardDecl} {processed : List ForwardDecl}

/-! ### What a call offers to an entry -/

theorem offeredDocumentation_concat (entry : SymbolEntry) :
    offeredDocumentation calls resolver (processed ++ [forwardDecl]) entry =
      if ResolvesTo resolver forwardDecl entry then
        offeredDocumentation calls resolver processed entry ++ [[forwardDecl.documentation]]
      else offeredDocumentation calls resolver processed entry := by
  unfold offeredDocumentation
  rw [List.filter_append, List.map_append, ← List.append_assoc]
  by_cases hresolves : ResolvesTo resolver forwardDecl entry
  · rw [if_pos hresolves, List.filter_cons_of_pos (by simpa using hresolves)]
    rfl
  · rw [if_neg hresolves, List.filter_cons_of_neg (by simpa using hresolves)]
    simp

theorem documentation_documentBuilder (documentation : Str)
    (symbolInfoBuilder : SymbolInformationBuilder) :
    (documentBuilder documentation symbolInfoBuilder).documentation =
      if hasDocumentation symbolInfoBuilder.documentation then symbolInfoBuilder.documentation
      else [documentation] := by
  unfold documentBuilder
  split <;> rfl

theorem documentation_documentSymbol (documentation : Str) (symbolInfo : SymbolInformation) :
    (documentSymbol documentation symbolInfo).documentation =
      if hasDocumentation symbolInfo.documentation then symbolInfo.documentation
      else [documentation] := by
  unfold documentSymbol
  split <;> rfl

/-- The symbols of documents with a single builder, after documentation was written through a
pointer. -/
theorem symbol_writeDocumentation (builder : IndexBuilder) (documentation : Str)
    (ptr : SymbolInfoOrBuilderPtr) (document symbol : Nat) :
    ((builder.writeDocumentation documentation ptr).documents[document]?.bind
        (·.symbols[symbol]?)) =
      if ptr = .symbolInfo document symbol ∧ documentation ≠ [] then
        (builder.documents[document]?.bind (·.symbols[symbol]?)).map (documentSymbol documentation)
      else builder.documents[document]?.bind (·.symbols[symbol]?) := by
  cases ptr with
  | builder path name =>
      rw [documents_writeDocumentation_builder, if_neg]
      rintro ⟨⟨⟩, -⟩
  | symbolInfo document' symbol' =>
      unfold writeDocumentation setMissingDocumentation
      by_cases hempty : documentation ≠ []
      · rw [if_pos hempty]
        dsimp only
        rw [List.getElem?_modify]
        by_cases hdocument : document' = document
        · subst hdocument
          simp only [if_true]
          cases builder.documents[document']? with
          | none => simp
          | some doc =>
              show (doc.symbols.modify symbol' (documentSymbol documentation))[symbol]? = _
              rw [List.getElem?_modify, Option.bind_some]
              by_cases hsymbol : symbol' = symbol
              · subst hsymbol
                rw [if_pos ⟨rfl, hempty⟩]
                simp
              · rw [if_neg fun h => hsymbol (SymbolInfoOrBuilderPtr.symbolInfo.inj h.1).2]
                simp [hsymbol]
        · simp only [hdocument, if_false, id_map']
          rw [if_neg]
          rintro ⟨heq, -⟩
          cases heq
          exact hdocument rfl
      · rw [if_neg hempty, if_neg fun h => hempty h.2]

/-- What a call does to the symbol of a document. -/
theorem documentationAt_inDocument
    (h : builder.addForwardDeclaration resolver order forwardDecl = some (builder', resolver'))
    (ptr : SymbolInfoOrBuilderPtr) :
    builder'.documentationAt (.inDocument ptr) =
      if ResolvesTo resolver forwardDecl (.inDocument ptr) then
        (builder.documentationAt (.inDocument ptr)).map fun docs =>
          if hasDocumentation docs then docs else [forwardDecl.documentation]
      else builder.documentationAt (.inDocument ptr) := by
  cases ptr with
  | builder path name =>
      show (builder'.symbolBuilder path name).map _ = _
      rw [symbolBuilder_addForwardDeclaration h path name]
      by_cases hresolves : ResolvesTo resolver forwardDecl (.inDocument (.builder path name))
      · rw [if_pos hresolves, if_pos (show DocumentsBuilder resolver path name forwardDecl from
          hresolves), documentationAt, Option.map_map, Option.map_map]
        congr 1
        funext symbolInfoBuilder
        exact documentation_documentBuilder _ _
      · rw [if_neg hresolves, if_neg (show ¬ DocumentsBuilder resolver path name forwardDecl from
          hresolves)]
        rfl
  | symbolInfo document symbol =>
      show (builder'.documents[document]?.bind (·.symbols[symbol]?)).map _ = _
      rw [documents_addForwardDeclaration h]
      cases hptr : resolver.lookupInDocuments forwardDecl.suffix with
      | none =>
          rw [if_neg]
          · rfl
          · rintro ⟨hsome, -⟩
            rw [hptr] at hsome
            cases hsome
      | some ptr =>
          have hiff : ResolvesTo resolver forwardDecl (.inDocument (.symbolInfo document symbol)) ↔
              ptr = .symbolInfo document symbol ∧ forwardDecl.documentation ≠ [] := by
            rw [ResolvesTo, hptr, Option.some.injEq]
          dsimp only
          rw [symbol_writeDocumentation]
          by_cases hresolves : ptr = .symbolInfo document symbol ∧ forwardDecl.documentation ≠ []
          · rw [if_pos hresolves, if_pos (hiff.mpr hresolves), documentationAt, Option.map_map,
              Option.map_map]
            congr 1
            funext symbolInfo
            exact documentation_documentSymbol _ _
          · rw [if_neg hresolves, if_neg fun h => hresolves (hiff.mp h)]
            rfl

/-- What a call does to an external symbol that it leaves in place. -/
theorem documentationAt_external (htracks : resolver.Tracks (· ∈ builder.externalSymbols))
    (h : builder.addForwardDeclaration resolver order forwardDecl = some (builder', resolver'))
    {name : Str} {docs : List Str} (hdocs : builder'.documentationAt (.external name) = some docs) :
    (¬ ResolvesTo resolver forwardDecl (.external name) ∧
        builder.documentationAt (.external name) = some docs) ∨
      (ResolvesTo resolver forwardDecl (.external name) ∧
        ∃ old, builder.documentationAt (.external name) = some old ∧
          docs = if hasDocumentation old then old else [forwardDecl.documentation]) ∨
      (ResolvesTo resolver forwardDecl (.external name) ∧
        resolver.lookupInDocuments forwardDecl.suffix = none ∧
        resolver.lookupExternals forwardDecl.suffix = none ∧
        name = addFakePrefix forwardDecl.suffix ∧ docs = [forwardDecl.documentation]) := by
  rw [show builder'.documentationAt (.external name) = (builder'.externalSymbols.lookup name).map
    SymbolInformationBuilder.documentation from rfl,
    lookup_externalSymbols_addForwardDeclaration htracks h] at hdocs
  unfold ResolvesTo
  split at hdocs
  · split at hdocs
    · cases hdocs
    · rename_i hsuffix
      exact Or.inl ⟨hsuffix, hdocs⟩
  · split at hdocs
    · rename_i hsuffix
      refine Or.inr (Or.inl ⟨hsuffix, ?_⟩)
      rw [Option.map_map, Option.map_eq_some_iff] at hdocs
      obtain ⟨symbolInfoBuilder, hlookup, rfl⟩ := hdocs
      refine ⟨symbolInfoBuilder.documentation, ?_, documentation_documentBuilder _ _⟩
      rw [documentationAt, hlookup]
      rfl
    · rename_i hsuffix
      exact Or.inl ⟨hsuffix, hdocs⟩
  · rename_i hptr hexternals
    split at hdocs
    · rename_i hname
      subst hname
      exact Or.inr (Or.inr ⟨getPackageAgnosticSuffix_addFakePrefix _, hptr, hexternals, rfl,
        (Option.some.inj hdocs).symm⟩)
    · refine Or.inl ⟨fun hsuffix => ?_, hdocs⟩
      -- an external symbol with the suffix would have been found
      obtain ⟨symbolInfoBuilder, hlookup, -⟩ := Option.map_eq_some_iff.mp hdocs
      exact htracks.lookup_eq_none.mp hexternals name
        (AList.lookup_isSome.mp (by rw [hlookup]; rfl)) hsuffix

/-! ### The first documentation wins -/

/-- In every entry, the first documentation that counts is kept. -/
def DocumentationInv (calls : List BuilderCall) (resolver₀ : ForwardDeclResolver)
    (processed : List ForwardDecl) (builder : IndexBuilder) : Prop :=
  ∀ entry docs, builder.documentationAt entry = some docs →
    Outcome (offeredDocumentation calls resolver₀ processed entry) docs

theorem outcome_chosenDocumentation {inputs : List SymbolInformation} (hne : inputs ≠ []) :
    Outcome (inputs.map SymbolInformation.documentation) (chosenDocumentation inputs) := by
  induction inputs using List.reverseRecOn with
  | nil => exact absurd rfl hne
  | append_singleton inputs symbolInfo ih =>
      rw [List.map_append, chosenDocumentation_concat]
      rcases List.eq_nil_or_concat inputs with rfl | ⟨init, last, rfl⟩
      · exact Outcome.first symbolInfo.documentation
      · exact (ih (by simp)).offer

/-- The entry of an external symbol after all inputs for it. -/
theorem outcome_foldl_externalEntry (extSyms : List SymbolInformation)
    {symbolInfoBuilder : SymbolInformationBuilder}
    (h : extSyms.foldl (fun old extSym => some (externalEntry extSym old)) none =
      some symbolInfoBuilder) :
    Outcome (extSyms.map SymbolInformation.documentation) symbolInfoBuilder.documentation := by
  induction extSyms using List.reverseRecOn generalizing symbolInfoBuilder with
  | nil => cases h
  | append_singleton extSyms extSym ih =>
      rw [List.foldl_append, List.foldl_cons, List.foldl_nil, Option.some.injEq] at h
      rw [← h, List.map_append]
      cases hold : extSyms.foldl (fun old extSym => some (externalEntry extSym old)) none with
      | none =>
          have hnil : extSyms = [] := by
            rcases List.eq_nil_or_concat extSyms with hnil | ⟨init, last, rfl⟩
            · exact hnil
            · rw [List.concat_eq_append, List.foldl_append] at hold
              cases hold
          subst hnil
          exact Outcome.first extSym.documentation
      | some old =>
          have houtcome := ih hold
          show Outcome _ (if !hasDocumentation old.documentation ∧
            0 < extSym.documentation.length then old.setDocumentation extSym.documentation
            else old).documentation
          split
          · rename_i htake
            exact houtcome.take (by simpa using htake.1)
          · rename_i hkeep
            refine houtcome.keep ?_
            by_cases hdocs : hasDocumentation old.documentation = true
            · exact Or.inl hdocs
            · -- documentation without entries does not count
              right
              have hlength : ¬ 0 < extSym.documentation.length := fun h =>
                hkeep ⟨by simpa using hdocs, h⟩
              rw [List.eq_nil_of_length_eq_zero (by omega : extSym.documentation.length = 0)]
              rfl

theorem documentationInv_performAll (calls : List BuilderCall) (resolver₀ : ForwardDeclResolver) :
    DocumentationInv calls resolver₀ [] (performAll calls) := by
  intro entry docs hdocs
  have hoffered : offeredDocumentation calls resolver₀ [] entry =
      (mergedInto calls entry).map SymbolInformation.documentation := by
    rw [offeredDocumentation, List.filter_nil, List.map_nil, List.append_nil]
  rw [hoffered]
  cases entry with
  | external name =>
      obtain ⟨symbolInfoBuilder, hlookup, rfl⟩ := Option.map_eq_some_iff.mp hdocs
      rw [performAll_eq, lookup_foldl_upsert SymbolInformation.symbol externalEntry] at hlookup
      exact outcome_foldl_externalEntry _ hlookup
  | inDocument ptr =>
      cases ptr with
      | symbolInfo document symbol =>
          obtain ⟨symbolInfo, hsymbol, rfl⟩ := Option.map_eq_some_iff.mp hdocs
          rw [documents_performAll] at hsymbol
          rw [mergedInto, hsymbol]
          exact Outcome.first symbolInfo.documentation
      | builder path name =>
          obtain ⟨symbolInfoBuilder, hsymbol, rfl⟩ := Option.map_eq_some_iff.mp hdocs
          have hknown := @symbolBuilder_performAll calls path name
          rw [hsymbol] at hknown
          rw [hknown.2]
          exact outcome_chosenDocumentation hknown.1

/-- An external symbol that a forward declaration creates was offered nothing before. -/
theorem ResolverInv.offeredDocumentation_eq_nil {order₀ : IterationOrder Table}
    (h : ResolverInv (performAll calls) ((performAll calls).populateForwardDeclResolver order₀)
      processed builder resolver) {suffix name : Str}
    (hsuffix : getPackageAgnosticSuffix name = some suffix)
    (hptr : resolver.lookupInDocuments suffix = none)
    (hexternals : resolver.lookupExternals suffix = none) :
    offeredDocumentation calls ((performAll calls).populateForwardDeclResolver order₀) processed
      (.external name) = [] := by
  have hunsettled : ¬ Settled (performAll calls)
      ((performAll calls).populateForwardDeclResolver order₀) resolver suffix := by
    intro hsettled
    rw [Settled, ← h.lookupInDocuments_eq, hptr, hexternals] at hsettled
    cases hsettled
  have hinitial := (h.externals suffix).resolve_right hunsettled
  rw [hexternals, eq_comm, ForwardDeclResolver.lookupExternals,
    (tracks_populate (performAll calls) order₀).lookup_eq_none] at hinitial
  rw [offeredDocumentation, List.append_eq_nil_iff, List.map_eq_nil_iff, List.map_eq_nil_iff,
    mergedInto, List.filter_eq_nil_iff, List.filter_eq_nil_iff]
  constructor
  · intro extSym hmem hname
    have hname : extSym.symbol = name := by simpa using hname
    exact hinitial name ((mem_externalSymbols_performAll calls name).mpr
      (List.mem_map.mpr ⟨extSym, hmem, hname⟩)) hsuffix
  · intro forwardDecl hmem hresolves
    have hsame : some suffix = some forwardDecl.suffix :=
      hsuffix.symm.trans (of_decide_eq_true hresolves)
    exact hunsettled (Option.some.inj hsame ▸ h.settled forwardDecl hmem)

theorem DocumentationInv.addForwardDeclaration {order₀ : IterationOrder Table}
    (hresolver : ResolverInv (performAll calls)
      ((performAll calls).populateForwardDeclResolver order₀) processed builder resolver)
    (hinv : DocumentationInv calls ((performAll calls).populateForwardDeclResolver order₀)
      processed builder)
    (h : builder.addForwardDeclaration resolver order forwardDecl = some (builder', resolver')) :
    DocumentationInv calls ((performAll calls).populateForwardDeclResolver order₀)
      (processed ++ [forwardDecl]) builder' := by
  intro entry docs hdocs
  have hresolves : ∀ entry, ResolvesTo resolver forwardDecl entry ↔
      ResolvesTo ((performAll calls).populateForwardDeclResolver order₀) forwardDecl entry := by
    intro entry
    cases entry with
    | inDocument ptr => rw [ResolvesTo, ResolvesTo, hresolver.lookupInDocuments_eq]
    | external name => rfl
  rw [offeredDocumentation_concat]
  simp only [← hresolves]
  cases entry with
  | inDocument ptr =>
      rw [documentationAt_inDocument h] at hdocs
      split
      · rename_i hoffer
        rw [if_pos hoffer] at hdocs
        obtain ⟨old, hold, rfl⟩ := Option.map_eq_some_iff.mp hdocs
        exact (hinv _ old hold).offer
      · rename_i hoffer
        rw [if_neg hoffer] at hdocs
        exact hinv _ docs hdocs
  | external name =>
      rcases documentationAt_external hresolver.tracks h hdocs with ⟨hnot, hold⟩ |
        ⟨hoffer, old, hold, rfl⟩ | ⟨hoffer, hptr, hexternals, rfl, rfl⟩
      · rw [if_neg hnot]
        exact hinv _ docs hold
      · rw [if_pos hoffer]
        exact (hinv _ old hold).offer
      · rw [if_pos hoffer, hresolver.offeredDocumentation_eq_nil
          (getPackageAgnosticSuffix_addFakePrefix _) hptr hexternals]
        exact Outcome.first _

/-- **The first documentation that counts wins**, in every entry and whatever the shards hold. -/
theorem documentationInv_run (calls : List BuilderCall) (order₀ : IterationOrder Table)
    {forwardDecls : List (IterationOrder Table × ForwardDecl)}
    (h : (performAll calls).addForwardDeclarations
      ((performAll calls).populateForwardDeclResolver order₀) forwardDecls =
        some (builder, resolver)) :
    DocumentationInv calls ((performAll calls).populateForwardDeclResolver order₀)
      (forwardDecls.map Prod.snd) builder :=
  (resolverInv_initial (tracks_populate (performAll calls) order₀)).addForwardDeclarations_induction
    (pointersValid_populate calls order₀)
    (fun hresolver hinv hstep => hinv.addForwardDeclaration hresolver hstep)
    (documentationInv_performAll calls _) h

end IndexBuilder

/-! ## What is emitted -/

/-- The documentation that an index has for an entry; the documents with a single builder, `singles`
of them, come before those that were merged. -/
def emittedDocumentation (index : Index) (singles : Nat) : SymbolEntry → List (List Str)
  | .inDocument (.symbolInfo document symbol) =>
      (((index.documents.take singles)[document]?.bind (·.symbols[symbol]?)).map
        SymbolInformation.documentation).toList
  | .inDocument (.builder path name) =>
      (((index.documents.drop singles).filter fun doc => doc.relativePath = path).flatMap fun doc =>
        doc.symbols.filter fun symbolInfo => symbolInfo.symbol = name).map
          SymbolInformation.documentation
  | .external name =>
      (index.externalSymbols.filter fun symbolInfo => symbolInfo.symbol = name).map
        SymbolInformation.documentation

theorem DocumentBuilder.filter_symbols_finish {builder : DocumentBuilder}
    (hsoFar : builder.soFar.symbols = []) (order : IterationOrder Table) (deterministic : Bool)
    (name : Str) :
    ((builder.finish order deterministic).symbols.filter fun symbolInfo =>
        symbolInfo.symbol = name) =
      ((builder.symbolInfos.lookup name).map fun symbolInfoBuilder =>
        symbolInfoBuilder.finish order (some builder.soFar.relativePath) deterministic
          { symbol := name }).toList := by
  have hperm := extract_perm order (.symbolInfos builder.soFar.relativePath) deterministic
    (fun p1 p2 => compareStrings p1.1 p2.1) builder.symbolInfos.entries
  have hentries := filter_entries_eq_lookup hperm name
  rw [finish, hsoFar, List.nil_append, List.filter_map]
  simp only [Function.comp_def, SymbolInformationBuilder.finish]
  rw [hentries]
  cases builder.symbolInfos.lookup name <;> rfl

namespace IndexBuilder

open BuilderCall

variable {calls : List BuilderCall} {builder : IndexBuilder} {resolver : ForwardDeclResolver}
  {order₀ : IterationOrder Table} {forwardDecls : List (IterationOrder Table × ForwardDecl)}

/-- **What is emitted is what the entries hold.** -/
theorem emittedDocumentation_finish (houtline : builder.outline = (performAll calls).outline)
    (order : IterationOrder Table) (deterministic : Bool) (entry : SymbolEntry) :
    emittedDocumentation (concatenate (builder.finish order deterministic))
      builder.documents.length entry = (builder.documentationAt entry).toList := by
  rw [concatenate_finish]
  cases entry with
  | external name =>
      rw [emittedDocumentation, filter_finishedExternalSymbols, documentationAt]
      cases builder.externalSymbols.lookup name <;> rfl
  | inDocument ptr =>
      cases ptr with
      | symbolInfo document symbol =>
          rw [emittedDocumentation, List.map_append,
            List.take_left' (List.length_map _), List.getElem?_map, documentationAt]
          cases builder.documents[document]? with
          | none => rfl
          | some doc =>
              rw [Option.map_some, Option.bind_some, Option.bind_some,
                IndexWriter.symbols_addOccurrences]
      | builder path name =>
          have hpaths : builder.PathsAgree := fun path docBuilder hlookup =>
            (soFar_of_outline_eq houtline hlookup).1
          rw [emittedDocumentation, List.map_append, List.drop_left' (List.length_map _),
            List.filter_map]
          simp only [Function.comp_def, IndexWriter.relativePath_addOccurrences]
          rw [filter_finishedDocuments hpaths, documentationAt, symbolBuilder]
          cases hlookup : builder.multiplyIndexed.lookup path with
          | none => rfl
          | some docBuilder =>
              simp only [Option.map_some, Option.toList_some, List.map_cons, List.map_nil,
                List.flatMap_cons, List.flatMap_nil, List.append_nil,
                IndexWriter.symbols_addOccurrences, Option.bind_some]
              rw [DocumentBuilder.filter_symbols_finish (soFar_of_outline_eq houtline hlookup).2]
              cases docBuilder.symbolInfos.lookup name <;> rfl

theorem length_documents_run
    (h : (performAll calls).addForwardDeclarations
      ((performAll calls).populateForwardDeclResolver order₀) forwardDecls =
        some (builder, resolver)) :
    builder.documents.length = (documentsWith false calls).length := by
  have hlength : ∀ (builder : IndexBuilder) (documentation : Str) (ptr : SymbolInfoOrBuilderPtr),
      (builder.writeDocumentation documentation ptr).documents.length =
        builder.documents.length := by
    intro builder documentation ptr
    cases ptr with
    | builder path name => rw [documents_writeDocumentation_builder]
    | symbolInfo document symbol =>
        unfold writeDocumentation
        split
        · exact List.length_modify ..
        · rfl
  refine (resolverInv_initial (tracks_populate (performAll calls)
    order₀)).addForwardDeclarations_induction (pointersValid_populate calls order₀)
    (motive := fun _ builder => builder.documents.length = (documentsWith false calls).length)
    ?_ (by rw [documents_performAll]) h
  intro processed builder resolver order forwardDecl builder' resolver' _ hbuilder hstep
  rw [documents_addForwardDeclaration hstep]
  split
  · rw [hlength, hbuilder]
  · exact hbuilder

end IndexBuilder

/-! ## When real documentation survives -/

section Kept

open IndexBuilder

variable (calls : List BuilderCall) (order : IterationOrder Table)
  (forwardDecls : List (IterationOrder Table × ForwardDecl)) (finishOrder : IterationOrder Table)
  (deterministic : Bool)

/-- The index after all calls and all forward declarations. -/
def mergedIndex : Option Index := do
  let (builder, _) ← (performAll calls).addForwardDeclarations
    ((performAll calls).populateForwardDeclResolver order) forwardDecls
  some (concatenate (builder.finish finishOrder deterministic))

/-- The documentation that the index has for an entry. -/
def finalDocumentation (entry : SymbolEntry) : List (List Str) :=
  (mergedIndex calls order forwardDecls finishOrder deterministic).elim [] fun index =>
    emittedDocumentation index (BuilderCall.documentsWith false calls).length entry

/-- The documentation that an entry is offered by the shards and the forward declarations. -/
def allOfferedDocumentation (entry : SymbolEntry) : List (List Str) :=
  offeredDocumentation calls ((performAll calls).populateForwardDeclResolver order)
    (forwardDecls.map Prod.snd) entry

/-- If an entry is offered real documentation, what is emitted for it is real. -/
def KeepsRealDocumentation (entry : SymbolEntry) : Prop :=
  (∃ docs ∈ allOfferedDocumentation calls order forwardDecls entry, IsReal docs) →
    ∀ docs ∈ finalDocumentation calls order forwardDecls finishOrder deterministic entry,
      IsReal docs

end Kept

/-- A blank comment and a real one for an external symbol, from two shards. -/
def blankFirstCalls : List BuilderCall :=
  [.addExternalSymbol { symbol := "e".toList, documentation := [[]] },
    .addExternalSymbol { symbol := "e".toList, documentation := ["doc".toList] }]

end ScipClang
