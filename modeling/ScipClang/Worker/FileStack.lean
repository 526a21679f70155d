import ScipClang.Worker.Preprocessing

/-!
# The stack of files

Clang enters and leaves files in a properly nested way; what is entered at an invalid location is
left with an invalid file id.  If the main file is left by `flushState`, then every call of
`exitFile` finds the entry of the file that it leaves, and the stack is empty at the end.

Without a recorder, the hash that is stored for a file is determined by the files that it
includes directly (`subtreeHash_eq`), and so by the calls between its entry and its exit alone
(`nested_hashes`).
-/

namespace ScipClang

open HashTables

/-- Properly nested calls of `FileChanged`: a file is left with the file id under which it was
entered; both may be invalid. -/
inductive ProperlyNested : List FileChange → Prop where
  | nil : ProperlyNested []
  | cons {fileId : Option FileId} {inner after : List FileChange} :
      ProperlyNested inner → ProperlyNested after →
        ProperlyNested (.enterFile fileId :: (inner ++ .exitFile fileId :: after))

namespace Inclusion

mutual

/-- What is left with an invalid file id has been entered so. -/
def IsPaired : Inclusion → Prop
  | .file _ includes => ArePaired includes
  | .dropped entered includes => entered = none ∧ ArePaired includes

/-- `IsPaired` for each inclusion. -/
def ArePaired : List Inclusion → Prop
  | [] => True
  | inclusion :: inclusions => IsPaired inclusion ∧ ArePaired inclusions

end

/-- The inclusion of a file, or of something invalid. -/
def ofFileId : Option FileId → List Inclusion → Inclusion
  | some fileId, includes => .file fileId includes
  | none, includes => .dropped none includes

theorem events_ofFileId (fileId : Option FileId) (includes : List Inclusion) :
    (ofFileId fileId includes).events =
      .enterFile fileId :: (eventsAll includes ++ [.exitFile fileId]) := by
  cases fileId with
  | none => rw [ofFileId, events]
  | some fileId => rw [ofFileId, events]

theorem isPaired_ofFileId {fileId : Option FileId} {includes : List Inclusion} :
    (ofFileId fileId includes).IsPaired ↔ ArePaired includes := by
  cases fileId with
  | none => rw [ofFileId, IsPaired, and_iff_right rfl]
  | some fileId => rw [ofFileId, IsPaired]

theorem IsPaired.exists_ofFileId {inclusion : Inclusion} (h : inclusion.IsPaired) :
    ∃ fileId includes, inclusion = ofFileId fileId includes ∧ ArePaired includes := by
  cases inclusion with
  | file fileId includes =>
      rw [IsPaired] at h
      exact ⟨some fileId, includes, rfl, h⟩
  | dropped entered includes =>
      rw [IsPaired] at h
      obtain ⟨rfl, hincludes⟩ := h
      exact ⟨none, includes, rfl, hincludes⟩

end Inclusion

theorem ProperlyNested.exists_eventsAll {changes : List FileChange} (h : ProperlyNested changes) :
    ∃ includes, Inclusion.ArePaired includes ∧ changes = Inclusion.eventsAll includes := by
  induction h with
  | nil => exact ⟨[], by rw [Inclusion.ArePaired]; trivial, by rw [Inclusion.eventsAll]⟩
  | @cons fileId inner after _ _ ihInner ihAfter =>
      obtain ⟨includes, hincludes, rfl⟩ := ihInner
      obtain ⟨others, hothers, rfl⟩ := ihAfter
      refine ⟨.ofFileId fileId includes :: others, ?_, ?_⟩
      · rw [Inclusion.ArePaired, Inclusion.isPaired_ofFileId]
        exact ⟨hincludes, hothers⟩
      · rw [Inclusion.eventsAll, Inclusion.events_ofFileId]
        simp

theorem ProperlyNested.append {changes changes' : List FileChange} (h : ProperlyNested changes)
    (h' : ProperlyNested changes') : ProperlyNested (changes ++ changes') := by
  induction h with
  | nil => exact h'
  | cons hinner _ _ ihAfter =>
      rw [List.cons_append, List.append_assoc, List.cons_append]
      exact .cons hinner ihAfter

namespace Inclusion

mutual

theorem properlyNested_events : ∀ inclusion : Inclusion, inclusion.IsPaired →
    ProperlyNested inclusion.events
  | .file fileId includes, h => by
      rw [IsPaired] at h
      rw [events]
      exact .cons (properlyNested_eventsAll includes h) .nil
  | .dropped entered includes, h => by
      rw [IsPaired] at h
      obtain ⟨rfl, hincludes⟩ := h
      rw [events]
      exact .cons (properlyNested_eventsAll includes hincludes) .nil

theorem properlyNested_eventsAll : ∀ inclusions : List Inclusion, ArePaired inclusions →
    ProperlyNested (eventsAll inclusions)
  | [], _ => by
      rw [eventsAll]
      exact .nil
  | inclusion :: inclusions, h => by
      rw [ArePaired] at h
      rw [eventsAll]
      exact (properlyNested_events inclusion h.1).append (properlyNested_eventsAll inclusions h.2)

end

/-- The calls for some inclusions, up to where a file is left again, determine the inclusions. -/
theorem eventsAll_append_inj : ∀ {inclusions others : List Inclusion}, ArePaired inclusions →
    ArePaired others → ∀ {after after' : List FileChange},
      (∀ entered, after.head? ≠ some (.enterFile entered)) →
      (∀ entered, after'.head? ≠ some (.enterFile entered)) →
      eventsAll inclusions ++ after = eventsAll others ++ after' →
        inclusions = others ∧ after = after'
  | [], [], _, _, _, _, _, _, heq => by
      rw [eventsAll, List.nil_append, List.nil_append] at heq
      exact ⟨rfl, heq⟩
  | [], other :: others, _, hothers, after, _, hafter, _, heq => by
      rw [ArePaired] at hothers
      obtain ⟨fileId, includes, rfl, -⟩ := hothers.1.exists_ofFileId
      rw [eventsAll, eventsAll, events_ofFileId, List.nil_append] at heq
      exact absurd (by rw [heq]; rfl) (hafter fileId)
  | inclusion :: inclusions, [], h, _, _, after', _, hafter', heq => by
      rw [ArePaired] at h
      obtain ⟨fileId, includes, rfl, -⟩ := h.1.exists_ofFileId
      rw [eventsAll, eventsAll, events_ofFileId, List.nil_append] at heq
      exact absurd (by rw [← heq]; rfl) (hafter' fileId)
  | inclusion :: inclusions, other :: others, h, hothers, after, after', hafter, hafter', heq => by
      rw [ArePaired] at h hothers
      obtain ⟨⟨fileId, includes, rfl, hincludes⟩, hinclusions⟩ :=
        And.intro h.1.exists_ofFileId h.2
      obtain ⟨⟨fileId', includes', rfl, hincludes'⟩, hothersTail⟩ :=
        And.intro hothers.1.exists_ofFileId hothers.2
      have hinner : (eventsAll includes).length <
          (eventsAll (ofFileId fileId includes :: inclusions)).length := by
        rw [eventsAll, events_ofFileId, List.length_append, List.length_cons, List.length_append]
        omega
      have hrest : (eventsAll inclusions).length <
          (eventsAll (ofFileId fileId includes :: inclusions)).length := by
        rw [eventsAll, events_ofFileId, List.length_append, List.length_cons]
        omega
      rw [eventsAll, eventsAll, events_ofFileId, events_ofFileId] at heq
      simp only [List.cons_append, List.append_assoc, List.nil_append, List.cons.injEq,
        FileChange.enterFile.injEq] at heq
      obtain ⟨rfl, heq⟩ := heq
      obtain ⟨rfl, hexit⟩ := eventsAll_append_inj hincludes hincludes' (by simp) (by simp) heq
      obtain ⟨rfl, hafters⟩ := eventsAll_append_inj hinclusions hothersTail hafter hafter'
        (List.cons.inj hexit).2
      exact ⟨rfl, hafters⟩
termination_by inclusions => (eventsAll inclusions).length

end Inclusion

/-- Properly nested calls are those for inclusions, which they determine. -/
theorem properlyNested_iff {changes : List FileChange} :
    ProperlyNested changes ↔
      ∃! includes, Inclusion.ArePaired includes ∧ changes = Inclusion.eventsAll includes := by
  constructor
  · intro h
    obtain ⟨includes, hpaired, rfl⟩ := h.exists_eventsAll
    refine ⟨includes, ⟨hpaired, rfl⟩, ?_⟩
    rintro others ⟨hothers, heq⟩
    exact (Inclusion.eventsAll_append_inj hothers hpaired (by simp) (by simp)
      (congrArg (· ++ []) heq.symm)).1
  · rintro ⟨includes, ⟨hpaired, rfl⟩, -⟩
    exact Inclusion.properlyNested_eventsAll includes hpaired

/-! ## Hashes of subtrees -/

namespace Inclusion

/-- The files among the inclusions, with what they include; not those below something invalid. -/
def directFiles (includes : List Inclusion) : List (FileId × List Inclusion) :=
  includes.filterMap fun
    | .file fileId inner => some (fileId, inner)
    | .dropped _ _ => none

section SubtreeHash

variable {H B : Type} (f : HashFunction H B)

mutual

/-- The hash after an inclusion. -/
def mixInclusion (hashValue : H) : Inclusion → H
  | .file _ includes => f.mix hashValue (f.raw (mixInclusions f.init includes))
  | .dropped _ _ => hashValue

/-- The hash after some inclusions, one after the other. -/
def mixInclusions (hashValue : H) : List Inclusion → H
  | [] => hashValue
  | inclusion :: inclusions => mixInclusions (mixInclusion hashValue inclusion) inclusions

end

/-- The hash of a file, from what it includes. -/
def subtreeHash (includes : List Inclusion) : H := mixInclusions f f.init includes

variable {f}

theorem mixInclusions_digest (data : List B) (includes : List Inclusion) :
    mixInclusions f (f.digest data) includes =
      f.digest (data ++ (directFiles includes).map fun child => f.raw (subtreeHash f child.2)) := by
  induction includes generalizing data with
  | nil => rw [mixInclusions, directFiles, List.filterMap_nil, List.map_nil, List.append_nil]
  | cons inclusion includes ih =>
      cases inclusion with
      | file fileId inner =>
          rw [mixInclusions, mixInclusion, ← HashFunction.digest_concat, ih, List.append_assoc]
          rfl
      | dropped entered inner =>
          rw [mixInclusions, mixInclusion, ih]
          rfl

/-- The hashes of the files that are included directly are mixed from left to right. -/
theorem subtreeHash_eq (includes : List Inclusion) :
    subtreeHash f includes =
      f.digest ((directFiles includes).map fun child => f.raw (subtreeHash f child.2)) :=
  mixInclusions_digest [] includes

section Transcript

variable (sourceManager : SourceManager) {own : Option Str → Option B}

mutual

/-- Without paths, the hash of a transcript is that of the subtree. -/
theorem hashAll_transcriptTree (hown : ∀ path, own path = none) :
    ∀ (hashValue : H) (inclusion : Inclusion),
      LabelledTree.hashAll f own hashValue (inclusion.transcriptTree sourceManager).toList =
        mixInclusion f hashValue inclusion
  | hashValue, .file fileId includes => by
      rw [transcriptTree, Option.toList_some, LabelledTree.hashAll, LabelledTree.hashAll,
        LabelledTree.hash, hown, Option.elim_none, hashAll_transcript hown f.init includes,
        mixInclusion]
  | hashValue, .dropped _ _ => by
      rw [transcriptTree, Option.toList_none, LabelledTree.hashAll, mixInclusion]

theorem hashAll_transcript (hown : ∀ path, own path = none) :
    ∀ (hashValue : H) (includes : List Inclusion),
      LabelledTree.hashAll f own hashValue (transcript sourceManager includes) =
        mixInclusions f hashValue includes
  | hashValue, [] => by rw [transcript, LabelledTree.hashAll, mixInclusions]
  | hashValue, inclusion :: inclusions => by
      rw [transcript, LabelledTree.hashAll_append, hashAll_transcriptTree hown hashValue inclusion,
        hashAll_transcript hown _ inclusions, mixInclusions]

end

end Transcript

end SubtreeHash

end Inclusion

namespace IndexerPreprocessorWrapper

variable {H B : Type} {ops : HashOperations H B} {sourceManager : SourceManager}

/-- Without a recorder, the hash of an expansion is that of the subtree. -/
theorem expansionHash_none (expansion : FileId × List Inclusion) :
    expansionHash ops none sourceManager expansion =
      Inclusion.subtreeHash ops.toHashFunction expansion.2 := by
  have hown : ∀ path, selfData ops none path = none := by
    intro path
    rfl
  rw [expansionHash, LabelledTree.hash, hown, Option.elim_none,
    Inclusion.hashAll_transcript sourceManager hown]
  rfl

/-- The hash that is stored for a file is that of the first expansion that was left. -/
theorem lookup_insertFinished_foldl (entries : List (FileId × H))
    (finishedProcessing : AList fun _ : FileId => H) (fileId : FileId) :
    (entries.foldl insertFinished finishedProcessing).lookup fileId =
      (finishedProcessing.lookup fileId).or
        ((entries.find? fun entry => entry.1 = fileId).map Prod.snd) := by
  induction entries generalizing finishedProcessing with
  | nil => simp
  | cons entry entries ih =>
      rw [List.foldl_cons, ih, List.find?_cons]
      unfold insertFinished
      by_cases hfileId : entry.1 = fileId
      · subst hfileId
        split
        · rename_i hmem
          obtain ⟨hashValue, hlookup⟩ :=
            Option.isSome_iff_exists.mp (AList.lookup_isSome.mpr hmem)
          rw [hlookup, Option.some_or, Option.some_or]
        · rename_i habsent
          rw [AList.lookup_insert, AList.lookup_eq_none.mpr habsent]
          simp
      · have hlookup : (if entry.1 ∈ finishedProcessing then finishedProcessing
            else finishedProcessing.insert entry.1 entry.2).lookup fileId =
              finishedProcessing.lookup fileId := by
          split
          · rfl
          · exact AList.lookup_insert_ne (Ne.symm hfileId)
        rw [hlookup, decide_eq_false hfileId]

/-! ## Every call finds its entry -/

/-- If a file is left, then its entry is at the top of the stack. -/
def FindsEntry (wrapper : IndexerPreprocessorWrapper H) : FileChange → Prop
  | .enterFile _ => True
  | .exitFile previousFileId => ∃ top rest, wrapper.stack = top :: rest ∧
      top.map HeaderInfoBuilder.fileId = previousFileId

variable (ops sourceManager) in
/-- The calls all find their entries. -/
def PopsMatch (wrapper : IndexerPreprocessorWrapper H) : List FileChange → Prop
  | [] => True
  | change :: changes => wrapper.FindsEntry change ∧
      ∃ next, wrapper.fileChanged ops none sourceManager change = some next ∧
        next.PopsMatch changes

theorem PopsMatch.append {wrapper middle : IndexerPreprocessorWrapper H}
    {changes changes' : List FileChange} (h : wrapper.PopsMatch ops sourceManager changes)
    (hrun : wrapper.run ops none sourceManager changes = some middle)
    (h' : middle.PopsMatch ops sourceManager changes') :
    wrapper.PopsMatch ops sourceManager (changes ++ changes') := by
  induction changes generalizing wrapper with
  | nil =>
      obtain rfl := Option.some.inj hrun
      exact h'
  | cons change changes ih =>
      obtain ⟨hfinds, next, hnext, hrest⟩ := h
      rw [run_cons, hnext, Option.bind_some] at hrun
      exact ⟨hfinds, next, hnext, ih hrest hrun⟩

/-- A file that is entered, with its includes, and left again. -/
theorem popsMatch_ofFileId (fileId : Option FileId) {includes : List Inclusion}
    (h : ∀ wrapper : IndexerPreprocessorWrapper H,
      wrapper.PopsMatch ops sourceManager (Inclusion.eventsAll includes))
    (wrapper : IndexerPreprocessorWrapper H) :
    wrapper.PopsMatch ops sourceManager (Inclusion.ofFileId fileId includes).events := by
  obtain ⟨middle, hmiddle, htakes⟩ := @run_eventsAll _ _ ops none sourceManager includes
    (wrapper.enterFile ops none sourceManager fileId)
  have hstack : ∃ top, middle.stack = top :: wrapper.stack ∧
      top.map HeaderInfoBuilder.fileId = fileId := by
    cases fileId with
    | none => exact ⟨none, htakes.stack_invalid wrapper.stack rfl, rfl⟩
    | some fileId =>
        obtain ⟨builder, henter, -⟩ := @enterFile_some _ _ ops none sourceManager wrapper fileId
        obtain ⟨builder', hstack, -⟩ := htakes.stack_top ⟨builder, fileId⟩ wrapper.stack
          (by rw [henter])
        exact ⟨_, hstack, rfl⟩
  obtain ⟨top, hstack, htop⟩ := hstack
  have hexit : ∃ after, middle.exitFile ops none sourceManager fileId = some after := by
    subst htop
    cases top with
    | none => exact ⟨_, exitFile_none hstack⟩
    | some info =>
        obtain ⟨after, hafter, -⟩ := @exitFile_some _ _ ops none sourceManager _ _ _ _ hstack
        exact ⟨after, hafter⟩
  obtain ⟨after, hafter⟩ := hexit
  rw [Inclusion.events_ofFileId]
  exact ⟨trivial, _, rfl,
    (h _).append hmiddle ⟨⟨top, wrapper.stack, hstack, htop⟩, after, hafter, trivial⟩⟩

mutual

theorem popsMatch_events : ∀ inclusion : Inclusion, inclusion.IsPaired →
    ∀ wrapper : IndexerPreprocessorWrapper H,
      wrapper.PopsMatch ops sourceManager inclusion.events
  | .file fileId includes, h => by
      rw [Inclusion.IsPaired] at h
      exact popsMatch_ofFileId (some fileId) (popsMatch_eventsAll includes h)
  | .dropped entered includes, h => by
      rw [Inclusion.IsPaired] at h
      obtain ⟨rfl, hincludes⟩ := h
      exact popsMatch_ofFileId none (popsMatch_eventsAll includes hincludes)

theorem popsMatch_eventsAll : ∀ inclusions : List Inclusion, Inclusion.ArePaired inclusions →
    ∀ wrapper : IndexerPreprocessorWrapper H,
      wrapper.PopsMatch ops sourceManager (Inclusion.eventsAll inclusions)
  | [], _ => fun _ => by
      rw [Inclusion.eventsAll]
      trivial
  | inclusion :: inclusions, h => fun wrapper => by
      rw [Inclusion.ArePaired] at h
      obtain ⟨middle, hmiddle, -⟩ := @run_events _ _ ops none sourceManager inclusion wrapper
      rw [Inclusion.eventsAll]
      exact (popsMatch_events inclusion h.1 wrapper).append hmiddle
        (popsMatch_eventsAll inclusions h.2 middle)

end

/-- **The stack of files is safe and hashes are compositional**: between the entry of the main
file and its exit in `flushState`, properly nested calls find their entries and leave the stack
empty; and the hash that is stored for a file id is determined by what the file includes, where
a file id was first left. -/
theorem nested_hashes (ops : HashOperations H B) (sourceManager : SourceManager)
    (mainFileId : FileId) {changes : List FileChange} (h : ProperlyNested changes) :
    PopsMatch ops sourceManager {}
        (.enterFile (some mainFileId) :: (changes ++ [.exitFile (some mainFileId)])) ∧
      ∃ includes wrapper, Inclusion.ArePaired includes ∧ changes = Inclusion.eventsAll includes ∧
        run ops none sourceManager {}
          (.enterFile (some mainFileId) :: (changes ++ [.exitFile (some mainFileId)])) =
            some wrapper ∧
        wrapper.stack = [] ∧
        (∀ fileId, wrapper.finishedProcessing.lookup fileId =
          ((Inclusion.file mainFileId includes).expansions.find? fun expansion =>
            expansion.1 = fileId).map fun expansion =>
              Inclusion.subtreeHash ops.toHashFunction expansion.2) ∧
        ∀ inner, Inclusion.subtreeHash ops.toHashFunction inner =
          ops.digest ((Inclusion.directFiles inner).map fun child =>
            ops.raw (Inclusion.subtreeHash ops.toHashFunction child.2)) := by
  obtain ⟨includes, ⟨hpaired, rfl⟩, -⟩ := properlyNested_iff.mp h
  have hevents : (Inclusion.file mainFileId includes).events =
      .enterFile (some mainFileId) ::
        (Inclusion.eventsAll includes ++ [.exitFile (some mainFileId)]) := by
    rw [Inclusion.events]
  have hmain : (Inclusion.file mainFileId includes).IsPaired := by
    rwa [Inclusion.IsPaired]
  rw [← hevents]
  refine ⟨popsMatch_events _ hmain {}, ?_⟩
  obtain ⟨wrapper, hrun, htakes⟩ := @run_events _ _ ops none sourceManager
    (.file mainFileId includes) {}
  refine ⟨includes, wrapper, hpaired, rfl, hrun, htakes.stack_empty rfl, fun fileId => ?_,
    Inclusion.subtreeHash_eq⟩
  rw [htakes.finished, lookup_insertFinished_foldl, List.find?_map, Option.map_map,
    AList.lookup_empty, Option.none_or]
  have hhash : (Prod.snd ∘ fun expansion : FileId × List Inclusion =>
      (expansion.1, expansionHash ops none sourceManager expansion)) = fun expansion =>
        Inclusion.subtreeHash ops.toHashFunction expansion.2 := by
    funext expansion
    exact expansionHash_none expansion
  rw [hhash]
  rfl

/-- A header with two includes, the first of them below something invalid. -/
def nestedIncludes : List Inclusion :=
  [.file ⟨2⟩ [.dropped none [.file ⟨3⟩ []], .file ⟨4⟩ []]]

/-- Only the second include is mixed into the hash of the header. -/
example : Inclusion.subtreeHash digestOperations.toHashFunction nestedIncludes =
    .mixValue .init (.mixValue .init .init) := by
  decide

theorem nested_hashes_nestedIncludes :
    let changes := FileChange.enterFile (some ⟨1⟩) ::
      (Inclusion.eventsAll nestedIncludes ++ [.exitFile (some ⟨1⟩)])
    PopsMatch digestOperations ⟨fun _ => none, fun _ => []⟩ {} changes ∧
      ∃ wrapper, run digestOperations none ⟨fun _ => none, fun _ => []⟩ {} changes =
        some wrapper ∧ wrapper.stack = [] := by
  have hnested : ProperlyNested (Inclusion.eventsAll nestedIncludes) :=
    Inclusion.properlyNested_eventsAll nestedIncludes
      (by simp [nestedIncludes, Inclusion.ArePaired, Inclusion.IsPaired])
  obtain ⟨hpops, includes, wrapper, -, -, hrun, hstack, -⟩ :=
    nested_hashes digestOperations ⟨fun _ => none, fun _ => []⟩ ⟨1⟩ hnested
  exact ⟨hpops, wrapper, hrun, hstack⟩

end IndexerPreprocessorWrapper

end ScipClang
