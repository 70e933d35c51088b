import Kiyomi.Api.MergeLossless
import Kiyomi.Library.MergeEffects

namespace Kiyomi.Api

open Go Library

/-! # Failures during a merge

`mergeLibraryManga` call by call, where the system may refuse any of its operations. The
moves, the cover and the deletions are best-effort; only reading the manga and saving the
merged concerns can turn into an error. -/

/-- What an accepted request writes. -/
structure MergePlan where
  metadata : MangaMetadata
  bindings : MangaBindings
  /-- The source of the cover. -/
  cover : Option String

inductive MergeError
  | refused (refusal : MergeRefusal)
  /-- `SaveMetadata` or `SaveBindings` has failed. -/
  | saveFailed
  deriving DecidableEq

/-- The answer, and the directories that `DeleteManga` has removed. -/
structure MergeReply where
  answer : Except MergeError (Option Manga)
  deleted : List Path

/-- The checks before anything is read. -/
def MergeRequest.refusal (body : MergeRequest) : Option MergeRefusal :=
  if body.keepMangaID = "" then some .keepRequired
  else if body.sourceMangaIDs = [] then some .sourcesRequired
  else if body.sourceMangaIDs.contains body.keepMangaID then some .keepAmongSources
  else if body.contentProvider.any fun pair => pair.1 = "" || pair.2 = "" then
    some .contentProviderIncomplete
  else none

/-- Steps 3 and 4. -/
def planMerge (body : MergeRequest) (keepInfo : Manga) (sources : List (String × Manga)) :
    Except MergeRefusal MergePlan :=
  let mergedProviders := mergeProviderRefs keepInfo.bindings.providers sources
  match body.contentProvider.or (keepInfo.bindings.content.map ContentSource.pair) with
  | none => .error .contentProviderUnknown
  | some pair =>
      if !mergedProviders.any fun p => p.pair == pair then .error .contentProviderUnbound
      else .ok
        { metadata := mergedMetadata body keepInfo sources
          bindings :=
            { providers := mergedProviders
              content := some
                { ContentSource.zero with
                  providerID := pair.1
                  providerMangaID := pair.2
                  readingMode := keepReadingMode keepInfo.bindings.content } }
          cover := (selectedSource body sources "cover_url").map Prod.fst }

namespace MergeEffects

variable {Question : Type} {Answer : Question → Type}
variable (l : Layout)

/-- Step 2. -/
def loadSources : List String → Effect Answer (Except String (List (String × Manga)))
  | [] => pure (.ok [])
  | srcID :: rest => do
      match ← Effects.getManga l srcID with
      | none => pure (.error srcID)
      | some srcInfo =>
          match ← loadSources rest with
          | .error missing => pure (.error missing)
          | .ok sources =>
              pure (.ok ((srcID, srcInfo) :: sources.filter fun source => source.1 ≠ srcID))

/-- Steps 1 to 4. -/
def prepareMerge (body : MergeRequest) : Effect Answer (Except MergeRefusal MergePlan) :=
  match body.refusal with
  | some refusal => pure (.error refusal)
  | none => do
      match ← Effects.getManga l body.keepMangaID with
      | none => pure (.error (.mangaNotFound body.keepMangaID))
      | some keepInfo =>
          match ← loadSources l body.sourceMangaIDs with
          | .error srcID => pure (.error (.mangaNotFound srcID))
          | .ok sources => pure (planMerge body keepInfo sources)

/-- Step 5; an error is only logged. -/
def moveChapters (keepID : String) : List String → Effect Answer Unit
  | [] => pure ()
  | srcID :: rest => do
      let _ ← Effects.mergeChapters l keepID srcID
      moveChapters keepID rest

/-- Step 6; an error is only logged. -/
def replaceCover (keepID : String) : Option String → Effect Answer Unit
  | none => pure ()
  | some srcID => do
      let _ ← Effects.replaceCoverFromSource l keepID srcID
      pure ()

/-- Step 7; an error is only logged. -/
def deleteSources : List String → Effect Answer (List Path)
  | [] => pure []
  | srcID :: rest => do
      let removed ← Effects.deleteManga l srcID
      let deleted ← deleteSources rest
      pure (removed.toList ++ deleted)

def carryOut (body : MergeRequest) (plan : MergePlan) : Effect Answer (List Path) := do
  let _ ← moveChapters l body.keepMangaID body.sourceMangaIDs
  let _ ← replaceCover l body.keepMangaID plan.cover
  deleteSources l body.sourceMangaIDs

/-- Step 8. -/
def saveMerged (body : MergeRequest) (plan : MergePlan) : Effect Answer Bool := do
  if ← Effects.saveMetadata l body.keepMangaID plan.metadata then
    Effects.saveBindings l body.keepMangaID plan.bindings
  else pure false

/-- Steps 8 and 9. -/
def finishMerge (body : MergeRequest) (plan : MergePlan) (deleted : List Path) :
    Effect Answer MergeReply := do
  if ← saveMerged l body plan then
    let saved ← Effects.getManga l body.keepMangaID
    pure ⟨.ok saved, deleted⟩
  else pure ⟨.error .saveFailed, deleted⟩

def mergeLibraryManga (body : MergeRequest) : Effect Answer MergeReply := do
  match ← prepareMerge l body with
  | .error refusal => pure ⟨.error (.refused refusal), []⟩
  | .ok plan => do
      let deleted ← carryOut l body plan
      finishMerge l body plan deleted

end MergeEffects

/-! ## What the request is worth on the disk -/

/-- Steps 1 to 4 when nothing is refused. -/
def prepared (l : Layout) (disk : Disk) (body : MergeRequest) : Except MergeRefusal MergePlan :=
  match body.refusal with
  | some refusal => .error refusal
  | none =>
      match l.getManga disk body.keepMangaID with
      | none => .error (.mangaNotFound body.keepMangaID)
      | some keepInfo =>
          match loadSources l disk body.sourceMangaIDs with
          | .error srcID => .error (.mangaNotFound srcID)
          | .ok sources => planMerge body keepInfo sources

/-! ## Steps 1 to 4 under failures -/

namespace MergeEffects

variable {Question : Type} {Answer : Question → Type} [DecidableEq Question]
variable (l : Layout)

theorem loadSources_readsAs (ids : List String) :
    ReadsAs (loadSources l ids : Effect Answer _) (Api.loadSources l · ids)
      fun value => ∃ missing, value = .error missing := by
  induction ids with
  | nil => exact .pure _
  | cons srcID rest induction =>
      let others : Option Manga → Disk → Except String (List (String × Manga))
        | none, _ => .error srcID
        | some srcInfo, disk => (Api.loadSources l disk rest).map fun sources =>
            (srcID, srcInfo) :: sources.filter fun source => source.1 ≠ srcID
      refine ((@Effects.getManga_readsAs _ Answer _ l srcID).bind others ?_ ?_).congr ?_
      · intro value
        cases value with
        | none => exact .pure _
        | some srcInfo =>
            refine (induction.bind (fun sources _ => sources.map fun sources =>
              (srcID, srcInfo) :: sources.filter fun source => source.1 ≠ srcID) ?_ ?_).congr ?_
            · intro sources
              cases sources with
              | error missing => exact .pure _
              | ok sources => exact .pure _
            · rintro _ ⟨missing, rfl⟩ disk
              exact ⟨missing, rfl⟩
            · exact fun disk => rfl
      · rintro _ rfl disk
        exact ⟨srcID, rfl⟩
      · intro disk
        simp only [Api.loadSources, others]
        cases l.getManga disk srcID with
        | none => rfl
        | some srcInfo => rfl

/-- Steps 3 and 4 on what the reading of the sources has given. -/
def plannedFrom (body : MergeRequest) (keepInfo : Manga) :
    Except String (List (String × Manga)) → Except MergeRefusal MergePlan
  | .error srcID => .error (.mangaNotFound srcID)
  | .ok sources => planMerge body keepInfo sources

/-- Steps 2 to 4 on what the reading of the kept manga has given. -/
def preparedFrom (body : MergeRequest) (disk : Disk) :
    Option Manga → Except MergeRefusal MergePlan
  | none => .error (.mangaNotFound body.keepMangaID)
  | some keepInfo => plannedFrom body keepInfo (Api.loadSources l disk body.sourceMangaIDs)

theorem prepareMerge_readsAs (body : MergeRequest) :
    ReadsAs (prepareMerge l body : Effect Answer _) (prepared l · body)
      fun value => ∃ refusal, value = .error refusal := by
  simp only [prepareMerge, prepared]
  cases body.refusal with
  | some refusal => exact .pure _
  | none =>
      refine ((@Effects.getManga_readsAs _ Answer _ l body.keepMangaID).bind
        (fun manga disk => preparedFrom l body disk manga) ?_ ?_).congr ?_
      · intro value
        cases value with
        | none => exact .pure _
        | some keepInfo =>
            refine ((@loadSources_readsAs _ Answer _ l body.sourceMangaIDs).bind
              (fun sources _ => plannedFrom body keepInfo sources) ?_ ?_).congr ?_
            · intro sources
              cases sources with
              | error srcID => exact .pure _
              | ok sources => exact .pure _
            · rintro _ ⟨missing, rfl⟩ disk
              exact ⟨_, rfl⟩
            · exact fun disk => rfl
      · rintro _ rfl disk
        exact ⟨_, rfl⟩
      · intro disk
        cases l.getManga disk body.keepMangaID with
        | none => rfl
        | some keepInfo =>
            change plannedFrom body keepInfo (Api.loadSources l disk body.sourceMangaIDs) = _
            cases Api.loadSources l disk body.sourceMangaIDs with
            | error srcID => rfl
            | ok sources => rfl

end MergeEffects

/-! ## Failure atomicity -/

/-- The merge asks nothing outside the library. -/
abbrev NoAnswer : Empty → Type := fun question => nomatch question

instance (question : Empty) : Nonempty (NoAnswer question) := nomatch question

/-- The metadata and bindings of the manga to keep and of the sources are the same. -/
def SameConcerns (l : Layout) (body : MergeRequest) (disk disk' : Disk) : Prop :=
  ∀ id, id = body.keepMangaID ∨ id ∈ body.sourceMangaIDs →
    l.getMetadata disk' id = l.getMetadata disk id ∧ l.getBindings disk' id = l.getBindings disk id

/-- An answer with an error leaves the sources and all concerns in place. -/
def Atomic (l : Layout) (body : MergeRequest) (disk : Disk) (reply : MergeReply) (disk' : Disk) :
    Prop :=
  ∀ error, reply.answer = .error error → reply.deleted = [] ∧ SameConcerns l body disk disk'

/-- The runs of a request on a disk, whatever the system refuses. -/
def Merges (l : Layout) (body : MergeRequest) (disk : Disk) (choices : List (FileChoice NoAnswer))
    (reply : MergeReply) (disk' : Disk) : Prop :=
  ∃ files, (MergeEffects.mergeLibraryManga l body).run Files.respond (.ofTree disk) choices =
    some (reply, files) ∧ files.tree = disk'

/-- The runs that get to step 8, with the choices before it and from there on. -/
def Saves (l : Layout) (body : MergeRequest) (disk : Disk)
    (before after : List (FileChoice NoAnswer)) (reply : MergeReply) (disk' : Disk) : Prop :=
  ∃ reading moving plan deleted f₁ f₂ files, before = reading ++ moving ∧
    (MergeEffects.prepareMerge l body).run Files.respond (.ofTree disk) reading =
      some (.ok plan, f₁) ∧
    (MergeEffects.carryOut l body plan).run Files.respond f₁ moving = some (deleted, f₂) ∧
    (MergeEffects.finishMerge l body plan deleted).run Files.respond f₂ after =
      some (reply, files) ∧ files.tree = disk'

namespace MergeEffects

variable {l : Layout} {Question : Type} {Answer : Question → Type}

/-- Deleting removes the directory of every source, unless something was refused. -/
theorem deleteSources_run [DecidableEq Question] {ids : List String} {f f' : Files Document}
    {choices : List (FileChoice Answer)} {deleted : List Path}
    (ran : (deleteSources l ids : Effect Answer (List Path)).run Files.respond f choices =
      some (deleted, f')) (clear : ¬ Refused choices) {id : String} (member : id ∈ ids) {dir : Path}
    (located : l.mangaDir id = .ok dir) : dir ∈ deleted := by
  induction ids generalizing f choices deleted with
  | nil => exact absurd member List.not_mem_nil
  | cons srcID rest induction =>
      rw [deleteSources] at ran
      rcases Program.run_bind.mp ran with ⟨before, after, removed, middle, rfl, removes, ran⟩
      rcases Program.run_bind.mp ran with ⟨during, none, others, last, rfl, deletes, ran⟩
      rcases Program.run_done.mp ran with ⟨rfl, rfl, rfl⟩
      rcases List.mem_cons.mp member with rfl | later
      · simp only [Effects.deleteManga, located] at removes
        rcases Program.run_call.mp removes with ⟨choice, done, reply, next, rfl, responded, removes⟩
        cases choice with
        | answer question answer => contradiction
        | refuse made =>
            exact absurd ⟨_, List.mem_append_left _ List.mem_cons_self, rfl⟩ clear
        | grant suffix =>
            cases responded
            rcases Program.run_done.mp removes with ⟨_, rfl, _⟩
            exact List.mem_append_left _ (by simp)
      · refine List.mem_append_right _ (induction deletes ?_ later)
        exact fun refused => clear ((refused.append_left []).append_right before)

theorem carryOut_run [DecidableEq Question] {body : MergeRequest} {plan : MergePlan}
    {f f' : Files Document} {choices : List (FileChoice Answer)} {deleted : List Path}
    (ran : (carryOut l body plan : Effect Answer (List Path)).run Files.respond f choices =
      some (deleted, f')) (clear : ¬ Refused choices) {id : String}
    (member : id ∈ body.sourceMangaIDs) {dir : Path} (located : l.mangaDir id = .ok dir) :
    dir ∈ deleted := by
  rcases Program.run_bind.mp ran with ⟨before, after, _, _, rfl, _, rest⟩
  rcases Program.run_bind.mp rest with ⟨during, last, _, _, rfl, _, deletes⟩
  refine deleteSources_run deletes (fun refused => clear ?_) member located
  exact (refused.append_right during).append_right before

/-- The sources of an accepted request are there to be deleted. -/
theorem prepared_sources {disk : Disk} {body : MergeRequest} {plan : MergePlan}
    (accepted : prepared l disk body = .ok plan) :
    (∃ dir, l.mangaDir body.keepMangaID = .ok dir) ∧
      ∃ id ∈ body.sourceMangaIDs, ∃ dir, l.mangaDir id = .ok dir := by
  rw [prepared] at accepted
  cases refusal : body.refusal with
  | some refusal => simp [refusal] at accepted
  | none =>
      rw [refusal] at accepted
      cases keep : l.getManga disk body.keepMangaID with
      | none => simp [keep] at accepted
      | some keepInfo =>
          cases loaded : Api.loadSources l disk body.sourceMangaIDs with
          | error srcID => simp [keep, loaded] at accepted
          | ok sources =>
              rcases located_of_getManga (by rw [keep]; rfl) with ⟨dir, located, _⟩
              refine ⟨⟨dir, located⟩, ?_⟩
              cases ids : body.sourceMangaIDs with
              | nil =>
                  rw [MergeRequest.refusal, ids] at refusal
                  split at refusal
                  · contradiction
                  · simp at refusal
              | cons srcID rest =>
                  have found := (loadSources_ok loaded).1 srcID (by rw [ids]; exact List.mem_cons_self)
                  rcases located_of_getManga found with ⟨srcDir, located, _⟩
                  exact ⟨srcID, List.mem_cons_self, srcDir, located⟩

end MergeEffects

/-- With one failure, in the first operation of `SaveMetadata`, an accepted merge answers
that saving has failed. -/
theorem exists_saveFailed {l : Layout} {body : MergeRequest} {disk : Disk} {plan : MergePlan}
    (accepted : prepared l disk body = .ok plan) :
    ∃ before after reply disk', Saves l body disk before after reply disk' ∧ ¬ Refused before ∧
      (before ++ after).countP FileChoice.isRefusal ≤ 1 ∧ reply.answer = .error .saveFailed := by
  rcases MergeEffects.prepared_sources accepted with ⟨⟨dir, keepDir⟩, _⟩
  rcases exists_unrefusedRun (MergeEffects.prepareMerge l body : Effect NoAnswer _) (.ofTree disk) with
    ⟨reading, planned, f₁, prepares, clear₁⟩
  have isPlan : planned = .ok plan := by
    rcases (MergeEffects.prepareMerge_readsAs l body prepares).2 with rfl | ⟨_, refused⟩
    · exact accepted
    · exact absurd refused clear₁
  subst isPlan
  rcases exists_unrefusedRun (MergeEffects.carryOut l body plan : Effect NoAnswer _) f₁ with
    ⟨moving, deleted, f₂, carries, clear₂⟩
  let f₃ := f₂.mkdirSome dir 0
  have unsaved : (MergeEffects.finishMerge l body plan deleted : Effect NoAnswer _).run Files.respond f₂
      [.refuse 0] = some (⟨.error .saveFailed, deleted⟩, f₃) := by
    simp only [MergeEffects.finishMerge, MergeEffects.saveMerged, Effects.saveMetadata, keepDir]
    exact Program.run_call.mpr ⟨_, _, .error .other, f₃, rfl, rfl, rfl⟩
  refine ⟨reading ++ moving, [.refuse 0], _, _,
    ⟨reading, moving, plan, deleted, f₁, f₂, f₃, rfl, prepares, carries, unsaved, rfl⟩, ?_, ?_, rfl⟩
  · rintro ⟨choice, member, isRefusal⟩
    rcases List.mem_append.mp member with early | late
    · exact clear₁ ⟨choice, early, isRefusal⟩
    · exact clear₂ ⟨choice, late, isRefusal⟩
  · rw [List.countP_append, List.countP_append, countP_eq_zero_of_not_refused clear₁,
      countP_eq_zero_of_not_refused clear₂]
    decide

theorem finishMerge_deleted {l : Layout} {body : MergeRequest} {plan : MergePlan}
    {deleted : List Path} {f f' : Files Document} {choices : List (FileChoice NoAnswer)}
    {reply : MergeReply}
    (ran : (MergeEffects.finishMerge l body plan deleted).run Files.respond f choices =
      some (reply, f')) :
    reply.deleted = deleted ∧ ∀ error, reply.answer = .error error → error = .saveFailed := by
  rcases Program.run_bind.mp ran with ⟨saving, last, isSaved, middle, rfl, saves, ran⟩
  cases isSaved with
  | false =>
      rcases Program.run_done.mp ran with ⟨_, rfl, _⟩
      exact ⟨rfl, fun error same => (Except.error.inj same).symm⟩
  | true =>
      rcases Program.run_bind.mp ran with ⟨_, _, kept, _, _, _, ran⟩
      rcases Program.run_done.mp ran with ⟨_, rfl, _⟩
      exact ⟨rfl, fun error other => nomatch other⟩

/-- A run that does not fail to save answers without an error, or has changed nothing. -/
theorem atomic_of_not_saveFailed {l : Layout} {body : MergeRequest} {disk disk' : Disk}
    {choices : List (FileChoice NoAnswer)} {reply : MergeReply}
    (merges : Merges l body disk choices reply disk') (saved : reply.answer ≠ .error .saveFailed) :
    Atomic l body disk reply disk' := by
  rcases merges with ⟨files, ran, rfl⟩
  rcases Program.run_bind.mp ran with ⟨reading, rest, planned, f₁, rfl, prepares, ran⟩
  have sameTree := (MergeEffects.prepareMerge_readsAs l body prepares).1
  intro error isError
  cases planned with
  | error refusal =>
      rcases Program.run_done.mp ran with ⟨_, rfl, rfl⟩
      refine ⟨rfl, fun id _ => ?_⟩
      rw [sameTree]
      exact ⟨rfl, rfl⟩
  | ok plan =>
      -- past step 4 the only error is that of saving
      rcases Program.run_bind.mp ran with ⟨moving, rest, deleted, f₂, rfl, carries, ran⟩
      rw [isError, (finishMerge_deleted ran).2 error isError] at saved
      exact absurd rfl saved

/-- Failing to save comes after the deletions. -/
theorem not_atomic_of_saveFailed {l : Layout} {body : MergeRequest} {disk disk' : Disk}
    {before after : List (FileChoice NoAnswer)} {reply : MergeReply}
    (saves : Saves l body disk before after reply disk') (clear : ¬ Refused before)
    (failed : reply.answer = .error .saveFailed) : ¬ Atomic l body disk reply disk' := by
  intro atomic
  rcases saves with ⟨reading, moving, plan, deleted, f₁, f₂, files, rfl, prepares, carries, ran, _⟩
  have accepted : prepared l disk body = .ok plan := by
    rcases (MergeEffects.prepareMerge_readsAs l body prepares).2 with same | ⟨_, refused⟩
    · exact same.symm
    · exact absurd (refused.append_left moving) clear
  rcases MergeEffects.prepared_sources accepted with ⟨_, srcID, member, srcDir, located⟩
  have gone := MergeEffects.carryOut_run carries
    (fun refused => clear (refused.append_right reading)) member located
  rw [← (finishMerge_deleted ran).1, (atomic _ failed).1] at gone
  exact absurd gone List.not_mem_nil

theorem Saves.merges {l : Layout} {body : MergeRequest} {disk disk' : Disk}
    {before after : List (FileChoice NoAnswer)} {reply : MergeReply}
    (saves : Saves l body disk before after reply disk') :
    Merges l body disk (before ++ after) reply disk' := by
  rcases saves with ⟨reading, moving, plan, deleted, f₁, f₂, files, rfl, prepares, carries, ran, rfl⟩
  refine ⟨files, Program.run_bind.mpr ⟨reading, moving ++ after, _, f₁, by simp, prepares, ?_⟩, rfl⟩
  exact Program.run_bind.mpr ⟨moving, after, deleted, f₂, rfl, carries, ran⟩

/-- A refused request is answered before anything has changed, whatever fails. -/
theorem atomic_of_refused {l : Layout} {body : MergeRequest} {disk disk' : Disk}
    {refusal : MergeRefusal} (refused : prepared l disk body = .error refusal)
    {choices : List (FileChoice NoAnswer)} {reply : MergeReply}
    (merges : Merges l body disk choices reply disk') : Atomic l body disk reply disk' := by
  apply atomic_of_not_saveFailed merges
  rcases merges with ⟨files, ran, rfl⟩
  rcases Program.run_bind.mp ran with ⟨reading, rest, planned, f₁, rfl, prepares, ran⟩
  have isError : ∃ refusal, planned = .error refusal := by
    rcases (MergeEffects.prepareMerge_readsAs l body prepares).2 with rfl | ⟨isError, _⟩
    · exact ⟨refusal, refused⟩
    · exact isError
  rcases isError with ⟨other, rfl⟩
  rcases Program.run_done.mp ran with ⟨_, rfl, _⟩
  simp

/-- The merge is atomic under every single failure exactly if steps 1 to 4 refuse the
request on this disk. Whatever fails, only an answer that saving has failed breaks it; and if nothing
failed before saving, every such answer does. -/
theorem merge_atomic_iff (l : Layout) (disk : Disk) (body : MergeRequest) :
    ((∀ choices reply disk', Merges l body disk choices reply disk' →
      choices.countP FileChoice.isRefusal ≤ 1 → Atomic l body disk reply disk') ↔
        ∃ refusal, prepared l disk body = .error refusal) ∧
    (∀ choices reply disk', Merges l body disk choices reply disk' →
      reply.answer ≠ .error .saveFailed → Atomic l body disk reply disk') ∧
    ∀ before after reply disk', Saves l body disk before after reply disk' → ¬ Refused before →
      (Atomic l body disk reply disk' ↔ reply.answer ≠ .error .saveFailed) := by
  refine ⟨?_, fun choices reply disk' merges saved => atomic_of_not_saveFailed merges saved,
    fun before after reply disk' saves clear => ⟨fun atomic failed => ?_, fun saved => ?_⟩⟩
  · constructor
    · intro atomic
      cases accepted : prepared l disk body with
      | error refusal => exact ⟨refusal, rfl⟩
      | ok plan =>
          rcases exists_saveFailed accepted with
            ⟨before, after, reply, disk', saves, clear, single, failed⟩
          exact absurd (atomic _ reply disk' saves.merges single)
            (not_atomic_of_saveFailed saves clear failed)
    · rintro ⟨refusal, refused⟩ choices reply disk' merges _
      exact atomic_of_refused refused merges
  · exact not_atomic_of_saveFailed saves clear failed atomic
  · exact atomic_of_not_saveFailed saves.merges saved

/-- The answer is an error, seen as a value that decides. -/
def MergeReply.isError (reply : MergeReply) : Bool :=
  !reply.answer.isOk

/-- The directory of the kept manga cannot be made, and the source is gone. -/
theorem merge_loses_source :
    ¬ ∀ l body disk choices reply disk', Merges l body disk choices reply disk' →
      choices.countP FileChoice.isRefusal ≤ 1 → Atomic l body disk reply disk' := by
  intro always
  have ran : (((MergeEffects.mergeLibraryManga plainLayout (mergeInto "abc" "def") :
      Effect NoAnswer MergeReply).run Files.respond (.ofTree twoManga)
        (List.replicate 16 (.grant "") ++ [.refuse 0])).map fun (reply, _) =>
      (reply.isError, reply.deleted)) = some (true, [["library", "def"]]) := by
    decide +kernel
  rcases Option.map_eq_some_iff.mp ran with ⟨⟨reply, files⟩, ran, observed⟩
  rcases Prod.mk.inj observed with ⟨failed, deleted⟩
  have atomic := always plainLayout (mergeInto "abc" "def") twoManga _ reply _ ⟨files, ran, rfl⟩
    (by decide)
  cases answered : reply.answer with
  | error error =>
      have untouched := (atomic error answered).1
      rw [deleted] at untouched
      contradiction
  | ok manga =>
      rw [MergeReply.isError, answered] at failed
      contradiction

end Kiyomi.Api
