import Kiyomi.Api.ProviderIsolation
import Kiyomi.Library.Provenance
import Kiyomi.Queue.PullManifests

namespace Kiyomi.Api

open Go Library Queue

/-! # The providers of chapters over any sequence of operations

Requests about chapters, pulls of a manga, the moves of a merge and the deletion of a manga.
The handlers read the provider of a chapter from its manifest. -/

inductive ChapterOperation
  | request (mangaID : String) (w : ChapterWorld) (call : ChapterCall)
  /-- One run of a job, with the effects that fail in it. -/
  | pullManga (jobID : String) (payload : PullMangaPayload) (upstream : List Chapter) (now : Time)
      (effects : List PullAction)
  /-- One move of `MergeChapters`. -/
  | mergeSingleChapter (keepID sourceID providerID chapterID : String)
  | deleteManga (id : String)

variable (l : Layout)

namespace ChapterOperation

/-- An effect inside a run that has started. -/
def isInside : PullAction → Bool
  | .start _ | .startFails => false
  | _ => true

def pullFrom (start : PullManga) (now : Time) (effects : List PullAction) : Option Disk :=
  (PullManga.step l start (.start now)).bind fun started =>
    (Run.execute (PullManga.step l) (fun _ action => isInside action) started effects).map (·.disk)

def step : StepFunction Disk ChapterOperation
  | disk, .request mangaID w call => some (call.run l w mangaID disk).disk
  | disk, .pullManga jobID payload upstream now effects =>
      pullFrom l (.queued jobID payload upstream disk) now effects
  | disk, .mergeSingleChapter keepID sourceID providerID chapterID =>
      (l.mergeSingleChapter keepID sourceID disk providerID chapterID).map Prod.fst
  | disk, .deleteManga id =>
      match l.mangaDir id with
      | .error _ => some disk
      | .ok dir => some (disk.removeAll dir)

/-- The provider that a batch refresh takes for a chapter. -/
def refreshTarget (disk : Disk) (mangaID chapterID : String) : String :=
  firstNonEmpty
    [((findChapter l disk mangaID chapterID).map (·.2)).getD "",
      ((((l.getManga disk mangaID).map (·.bindings)).bind (·.content)).map (·.providerID)).getD "",
      "local"]

/-- A manifest that names the provider. -/
def naming (providerID : String) : ChapterMeta :=
  { ChapterMeta.zero with content := some { ContentSource.zero with providerID } }

/-- What the operation writes anew goes below the directory of the provider that it names. -/
def Attributed (disk : Disk) : ChapterOperation → Prop
  | .request mangaID _ (.save chapterID body) =>
      let savedID := body.savedID chapterID
      let providerID := saveProvider l disk mangaID savedID body
      savedID = "" ∨ l.placed mangaID providerID savedID (body.filled providerID savedID) = true
  | .request mangaID _ (.refresh chapterID) =>
      ∀ chMeta providerID, findChapter l disk mangaID chapterID = some (chMeta, providerID) →
        l.placed mangaID providerID chapterID
          (naming ((chMeta.content.map (·.providerID)).getD providerID)) = true
  | .request mangaID _ (.batchRefresh chapterIDs) =>
      ∀ chapterID ∈ chapterIDs,
        (l.getChapter disk mangaID (refreshTarget l disk mangaID chapterID) chapterID).isSome ∨
        l.placed mangaID (refreshTarget l disk mangaID chapterID) chapterID
          (naming (refreshTarget l disk mangaID chapterID)) = true
  | .pullManga _ payload upstream _ _ =>
      ∀ existing, l.listChapters disk payload.mangaID [payload.providerID] = .ok existing →
        ∀ ch ∈ upstream, ch.id ∉ existing.map ChapterInfo.id →
          l.placed payload.mangaID payload.providerID ch.id (naming payload.providerID) = true
  | .mergeSingleChapter keepID sourceID providerID chapterID =>
      l.aligned keepID sourceID providerID chapterID = true
  | _ => True

end ChapterOperation

variable {l : Layout} {disk disk' : Disk}

/-! ## Requests -/

theorem provenance_patchChapterProgress (provenance : l.Provenance disk) (w : ChapterWorld)
    (mangaID chapterID : String) (req : ProgressPatch) :
    l.Provenance (patchChapterProgress l w mangaID chapterID req disk).disk := by
  rw [patchChapterProgress]
  split
  · exact provenance
  · exact (Layout.respects_saveProgress _ _ _).andThen (Layout.respects_saveLastRead _ _ _) disk
      provenance

theorem provenance_groups (provenance : l.Provenance disk)
    {op : String × List String → Disk → Disk × Bool} {entries : List (String × String)}
    (respects : ∀ group, Layout.Respects l (op group)) :
    l.Provenance (each op (byProvider entries) disk).1 :=
  Layout.each_invariant l.Provenance (fun group _ => respects group) provenance

theorem provenance_patchChaptersProgressBatch (provenance : l.Provenance disk) (w : ChapterWorld)
    (mangaID : String) (chapterIDs : List String) (req : ProgressPatch) :
    l.Provenance (patchChaptersProgressBatch l w mangaID chapterIDs req disk).disk := by
  rw [patchChaptersProgressBatch]
  split
  · exact provenance
  · split
    · exact provenance
    · exact provenance_groups provenance fun group =>
        Layout.respects_batchUpdateChapterProgress group.2 _ _ _

theorem provenance_deletions (provenance : l.Provenance disk) (w : ChapterWorld)
    (mangaID : String) {call : ChapterCall}
    (deletes : (∃ chapterID, call = .delete chapterID ∨ call = .deleteFiles chapterID) ∨
      ∃ chapterIDs, call = .batchDelete chapterIDs ∨ call = .batchDeleteFiles chapterIDs) :
    l.Provenance (call.run l w mangaID disk).disk := by
  have chapters : ∀ providerID chapterIDs,
      Layout.Respects l (l.batchDeleteChapters mangaID providerID chapterIDs) :=
    fun providerID chapterIDs disk provenance =>
      Layout.each_invariant l.Provenance (fun _ _ => Layout.respects_deleteChapter) provenance
  have files : ∀ providerID chapterIDs,
      Layout.Respects l (l.batchDeleteChapterFiles mangaID providerID chapterIDs) :=
    fun providerID chapterIDs disk provenance =>
      Layout.each_invariant l.Provenance (fun _ _ => Layout.respects_deleteChapterFiles) provenance
  rcases deletes with ⟨chapterID, rfl | rfl⟩ | ⟨chapterIDs, rfl | rfl⟩
  · rw [ChapterCall.run, deleteChapter]
    split
    · exact provenance
    · exact Layout.respects_deleteChapter disk provenance
  · rw [ChapterCall.run, deleteChapterFiles]
    split
    · exact provenance
    · exact Layout.respects_deleteChapterFiles disk provenance
  · rw [ChapterCall.run, deleteChaptersBatch]
    split
    · exact provenance
    · exact provenance_groups provenance fun group => chapters group.1 group.2
  · rw [ChapterCall.run, deleteChapterFilesBatch]
    split
    · exact provenance
    · split
      · exact provenance
      · exact provenance_groups provenance fun group => files group.1 group.2

theorem provenance_saveChapter (provenance : l.Provenance disk) {mangaID chapterID : String}
    {body : SaveChapterRequest}
    (attributed : body.savedID chapterID = "" ∨
      l.placed mangaID (saveProvider l disk mangaID (body.savedID chapterID) body)
        (body.savedID chapterID)
        (body.filled (saveProvider l disk mangaID (body.savedID chapterID) body)
          (body.savedID chapterID)) = true) :
    l.Provenance (saveChapter l mangaID chapterID body disk).disk := by
  simp only [saveChapter]
  split
  · exact provenance
  · rename_i named
    have placed := attributed.resolve_left named
    exact Layout.respects_orKeep provenance fun _ saved =>
      Layout.provenance_saveChapter provenance placed saved

theorem placed_refreshed {mangaID providerID chapterID chapterRef : String} {chMeta : ChapterMeta}
    {upstream : Chapter} {now : Time}
    (placed : l.placed mangaID providerID chapterID
      (ChapterOperation.naming ((chMeta.content.map (·.providerID)).getD providerID)) = true) :
    l.placed mangaID providerID chapterID
      (chMeta.refreshed upstream providerID chapterRef now) = true := by
  rw [← placed]
  apply Layout.placed_congr
  cases content : chMeta.content <;>
    simp [ChapterMeta.refreshed, ChapterOperation.naming, content]

theorem provenance_refreshChapter (provenance : l.Provenance disk) (w : ChapterWorld)
    {mangaID chapterID : String}
    (attributed : ∀ chMeta providerID,
      findChapter l disk mangaID chapterID = some (chMeta, providerID) →
      l.placed mangaID providerID chapterID
        (ChapterOperation.naming ((chMeta.content.map (·.providerID)).getD providerID)) = true) :
    l.Provenance (refreshChapter l w mangaID chapterID disk).disk := by
  rw [refreshChapter]
  split
  · exact provenance
  · split
    · exact provenance
    · rename_i chMeta providerID found
      have placed := attributed chMeta providerID found
      split
      · exact provenance
      · split
        · exact provenance
        · simp only
          split
          · exact provenance
          · split
            · exact provenance
            · exact Layout.respects_orKeep provenance fun _ saved =>
                Layout.provenance_saveChapter provenance (placed_refreshed placed) saved

/-- Manifests name their providers, and those that could be read still can. -/
structure Refreshing (l : Layout) (before disk : Disk) : Prop where
  provenance : l.Provenance disk
  kept : ∀ dir, readable before dir → readable disk dir

theorem Refreshing.saveChapter {before : Disk} (refreshing : Refreshing l before disk)
    {mangaID providerID chapterID : String} {chMeta : ChapterMeta}
    (placed : l.placed mangaID providerID chapterID chMeta = true) :
    Refreshing l before
      (orKeep (fun disk => l.saveChapter disk mangaID providerID chapterID chMeta) disk).1 := by
  rw [orKeep]
  cases saved : l.saveChapter disk mangaID providerID chapterID chMeta with
  | none => exact refreshing
  | some disk' =>
      rcases Layout.readable_saveChapter saved with ⟨dir, _, still⟩
      exact ⟨Layout.provenance_saveChapter refreshing.provenance placed saved,
        fun other was => (still other).mpr (.inr (refreshing.kept other was))⟩

theorem Refreshing.listed {before : Disk} (refreshing : Refreshing l before disk) (w : ChapterWorld)
    {mangaID providerID chapterID : String} (chapters : List Chapter)
    (attributed : (l.getChapter before mangaID providerID chapterID).isSome ∨
      l.placed mangaID providerID chapterID (ChapterOperation.naming providerID) = true) :
    Refreshing l before (refreshListed l w mangaID providerID chapters chapterID disk).1 := by
  simp only [refreshListed]
  split
  · exact refreshing
  · rename_i upCh _
    apply refreshing.saveChapter
    cases stored : l.getChapter disk mangaID providerID chapterID with
    | some chMeta =>
        apply Layout.placed_of_getChapter refreshing.provenance stored
        intro has
        rcases Option.isSome_iff_exists.mp has with ⟨content, found⟩
        simp [ChapterMeta.refreshed, found]
    | none =>
        have absent : ¬ (l.getChapter before mangaID providerID chapterID).isSome := by
          intro was
          rcases Layout.getChapter_isSome_iff.mp was with ⟨dir, located, found⟩
          have still := Layout.getChapter_isSome_iff.mpr ⟨dir, located, refreshing.kept dir found⟩
          simp [stored] at still
        exact placed_refreshed (attributed.resolve_left absent)

theorem provenance_refreshChaptersBatch (provenance : l.Provenance disk) (w : ChapterWorld)
    {mangaID : String} {chapterIDs : List String}
    (attributed : ∀ chapterID ∈ chapterIDs,
      (l.getChapter disk mangaID (ChapterOperation.refreshTarget l disk mangaID chapterID)
        chapterID).isSome ∨
      l.placed mangaID (ChapterOperation.refreshTarget l disk mangaID chapterID) chapterID
        (ChapterOperation.naming (ChapterOperation.refreshTarget l disk mangaID chapterID)) =
        true) :
    l.Provenance (refreshChaptersBatch l w mangaID chapterIDs disk).disk := by
  simp only [refreshChaptersBatch]
  split
  · exact provenance
  · split
    · refine (Layout.each_invariant (Refreshing l disk) (fun group member middle refreshing => ?_)
        ⟨provenance, fun _ was => was⟩).provenance
      simp only [refreshProvider]
      split
      · exact refreshing
      · split
        · exact refreshing
        · rename_i chapters _
          refine Layout.each_invariant (Refreshing l disk)
            (fun chapterID inGroup middle refreshing => ?_) refreshing
          rcases List.mem_map.mp (mem_byProvider member inGroup) with ⟨id, inBatch, same⟩
          rcases Prod.mk.inj same with ⟨rfl, target⟩
          have target : ChapterOperation.refreshTarget l disk mangaID id = group.1 := target
          exact refreshing.listed w chapters (target ▸ attributed id inBatch)
    · exact provenance

theorem provenance_request (provenance : l.Provenance disk) {mangaID : String} {w : ChapterWorld}
    {call : ChapterCall} (attributed : ChapterOperation.Attributed l disk (.request mangaID w call)) :
    l.Provenance (call.run l w mangaID disk).disk := by
  cases call with
  | progress chapterID req => exact provenance_patchChapterProgress provenance w mangaID chapterID req
  | batchProgress chapterIDs req =>
      exact provenance_patchChaptersProgressBatch provenance w mangaID chapterIDs req
  | save chapterID body => exact provenance_saveChapter provenance attributed
  | refresh chapterID => exact provenance_refreshChapter provenance w attributed
  | batchRefresh chapterIDs => exact provenance_refreshChaptersBatch provenance w attributed
  | pull chapterID =>
      rw [ChapterCall.run, pullChapter]
      repeat' split
      all_goals exact provenance
  | batchPull chapterIDs =>
      rw [ChapterCall.run, pullChaptersBatch]
      repeat' split
      all_goals exact provenance
  | delete chapterID =>
      exact provenance_deletions provenance w mangaID (.inl ⟨chapterID, .inl rfl⟩)
  | deleteFiles chapterID =>
      exact provenance_deletions provenance w mangaID (.inl ⟨chapterID, .inr rfl⟩)
  | batchDelete chapterIDs =>
      exact provenance_deletions provenance w mangaID (.inr ⟨chapterIDs, .inl rfl⟩)
  | batchDeleteFiles chapterIDs =>
      exact provenance_deletions provenance w mangaID (.inr ⟨chapterIDs, .inr rfl⟩)

/-! ## Pulls -/

/-- Inside a run: the chapters ahead that are not listed have their place. -/
structure Pulling (l : Layout) (payload : PullMangaPayload) (s : PullManga) : Prop where
  provenance : l.Provenance s.disk
  same : s.payload = payload
  ahead : ∀ existing chapters, s.point.ahead = some (existing, chapters) →
    ∀ ch ∈ chapters, ch.id ∉ existing →
      l.placed payload.mangaID payload.providerID ch.id
        (ChapterOperation.naming payload.providerID) = true

theorem Pulling.step {payload : PullMangaPayload} {s s' : PullManga} {action : PullAction}
    (pulling : Pulling l payload s) (inside : ChapterOperation.isInside action = true)
    (taken : PullManga.step l s action = some s') : Pulling l payload s' := by
  have provenance : l.Provenance s'.disk := by
    rcases PullManga.step_manifests taken with beside | ⟨existing, ch, chapters, _, saves⟩
    · exact Layout.provenance_beside pulling.provenance beside
    · have placed := pulling.ahead existing _ (by rw [saves.point]; rfl) ch List.mem_cons_self saves.unlisted
      have saved := saves.saved
      rw [pulling.same] at saved
      refine Layout.provenance_saveChapter pulling.provenance ?_ saved
      rw [← placed]
      exact Layout.placed_congr (by simp [PullManga.newChapter, ChapterOperation.naming, pulling.same])
  refine ⟨provenance, ?_, ?_⟩
  · cases PullManga.step_moved taken <;> exact pulling.same
  · cases PullManga.step_moved taken with
    | started => simp [ChapterOperation.isInside] at inside
    | skipped point listed | saved point listed saved =>
        intro existing' chapters' ahead ch member
        cases ahead
        exact pulling.ahead _ _ (by rw [point]; rfl) ch (List.mem_cons_of_mem _ member)
    | created point =>
        intro existing chapters ahead
        exact pulling.ahead existing chapters (by rw [point]; exact ahead)
    | enqueued point =>
        intro existing chapters ahead
        rw [PullResume.ahead_point] at ahead
        exact pulling.ahead existing chapters (by rw [point]; exact ahead)
    | failed | childFailed | chaptersDone | coverDone | coverClaimed | stamped =>
        exact fun existing chapters ahead => nomatch ahead

theorem pulling_started {s started : PullManga} {now : Time} (provenance : l.Provenance s.disk)
    (attributed : ∀ existing,
      l.listChapters s.disk s.payload.mangaID [s.payload.providerID] = .ok existing →
      ∀ ch ∈ s.upstream, ch.id ∉ existing.map ChapterInfo.id →
        l.placed s.payload.mangaID s.payload.providerID ch.id
          (ChapterOperation.naming s.payload.providerID) = true)
    (starts : PullManga.step l s (.start now) = some started) : Pulling l s.payload started := by
  simp only [PullManga.step] at starts
  split at starts
  · split at starts
    · cases starts
      exact ⟨provenance, rfl, fun _ _ ahead => by contradiction⟩
    · split at starts
      · cases starts
        exact ⟨provenance, rfl, fun _ _ ahead => by contradiction⟩
      · rename_i existing listed
        cases starts
        refine ⟨provenance, rfl, fun names chapters ahead => ?_⟩
        cases ahead
        exact attributed existing listed
  · contradiction

theorem provenance_pullFrom (provenance : l.Provenance disk) {jobID : String}
    {payload : PullMangaPayload} {upstream : List Chapter} {now : Time} {effects : List PullAction}
    (attributed : ChapterOperation.Attributed l disk (.pullManga jobID payload upstream now effects))
    (pulled : ChapterOperation.pullFrom l (.queued jobID payload upstream disk) now effects =
      some disk') : l.Provenance disk' := by
  rcases Option.bind_eq_some_iff.mp pulled with ⟨started, starts, pulled⟩
  rcases Option.map_eq_some_iff.mp pulled with ⟨last, executed, rfl⟩
  have initially : Pulling l payload started :=
    pulling_started (s := .queued jobID payload upstream disk) provenance attributed starts
  exact ((Run.ofExecute executed).invariant (Pulling l payload)
    (fun _ _ _ inside pulling taken => pulling.step inside taken) initially).provenance

/-! ## Every sequence of operations -/

namespace ChapterOperation

theorem provenance_step {operation : ChapterOperation} (provenance : l.Provenance disk)
    (attributed : operation.Attributed l disk) (taken : step l disk operation = some disk') :
    l.Provenance disk' := by
  cases operation with
  | request mangaID w call =>
      cases taken
      exact provenance_request provenance attributed
  | pullManga jobID payload upstream now effects =>
      exact provenance_pullFrom provenance attributed taken
  | mergeSingleChapter keepID sourceID providerID chapterID =>
      rcases Option.map_eq_some_iff.mp taken with ⟨⟨last, refused⟩, merged, rfl⟩
      exact Layout.provenance_mergeSingleChapter provenance attributed merged
  | deleteManga id =>
      simp only [step] at taken
      split at taken
      · cases taken
        exact provenance
      · cases taken
        exact Layout.provenance_removeAll provenance _

/-- `MergeChapters` is a sequence of such moves. -/
theorem mergeChapters_moves {keepID sourceID : String} {refused : Option PathError}
    (merged : l.mergeChapters keepID sourceID disk = some (disk', refused)) :
    ∃ moves : List (String × String),
      Run (step l) (fun _ _ => True) disk
        (moves.map fun (providerID, chapterID) =>
          .mergeSingleChapter keepID sourceID providerID chapterID) disk' := by
  have provider : ∀ (providerID : String) (chapterIDs : List String) (disk disk' : Disk)
      (refused : Option PathError),
      l.mergeProvider keepID sourceID providerID disk chapterIDs = some (disk', refused) →
      ∃ moves : List (String × String), Run (step l) (fun _ _ => True) disk
        (moves.map fun (providerID, chapterID) =>
          .mergeSingleChapter keepID sourceID providerID chapterID) disk' := by
    intro providerID chapterIDs
    induction chapterIDs with
    | nil =>
        intro disk disk' refused merged
        cases merged
        exact ⟨[], .nil disk⟩
    | cons chapterID chapterIDs induction =>
        intro disk disk' refused merged
        rw [Layout.mergeProvider] at merged
        cases first : l.mergeSingleChapter keepID sourceID disk providerID chapterID with
        | none => simp [first] at merged
        | some moved =>
            rcases moved with ⟨middle, stopped⟩
            have taken : step l disk (.mergeSingleChapter keepID sourceID providerID chapterID) =
                some middle := by simp [step, first]
            cases stopped with
            | some refused =>
                simp only [first, Option.some.injEq, Prod.mk.injEq] at merged
                rcases merged with ⟨rfl, _⟩
                exact ⟨[(providerID, chapterID)], .cons trivial taken (.nil _)⟩
            | none =>
                simp only [first] at merged
                rcases induction middle disk' refused merged with ⟨moves, run⟩
                exact ⟨(providerID, chapterID) :: moves, .cons trivial taken run⟩
  have providers : ∀ (sourceDir : Path) (providerIDs : List String) (disk disk' : Disk)
      (refused : Option PathError),
      l.mergeProviders keepID sourceID sourceDir disk providerIDs = some (disk', refused) →
      ∃ moves : List (String × String), Run (step l) (fun _ _ => True) disk
        (moves.map fun (providerID, chapterID) =>
          .mergeSingleChapter keepID sourceID providerID chapterID) disk' := by
    intro sourceDir providerIDs
    induction providerIDs with
    | nil =>
        intro disk disk' refused merged
        cases merged
        exact ⟨[], .nil disk⟩
    | cons providerID providerIDs induction =>
        intro disk disk' refused merged
        simp only [Layout.mergeProviders] at merged
        split at merged
        · exact induction disk disk' refused merged
        · split at merged
          · exact induction disk disk' refused merged
          · split at merged
            · contradiction
            · rename_i chapterIDs _
              cases first : l.mergeProvider keepID sourceID providerID disk chapterIDs with
              | none => simp [first] at merged
              | some moved =>
                  rcases moved with ⟨middle, stopped⟩
                  rcases provider providerID chapterIDs disk middle stopped first with ⟨moves, run⟩
                  cases stopped with
                  | some refused =>
                      simp only [first, Option.some.injEq, Prod.mk.injEq] at merged
                      rcases merged with ⟨rfl, _⟩
                      exact ⟨moves, run⟩
                  | none =>
                      simp only [first] at merged
                      rcases induction middle disk' refused merged with ⟨others, rest⟩
                      exact ⟨moves ++ others, by simpa using run.append rest⟩
  simp only [Layout.mergeChapters] at merged
  split at merged
  · cases merged
    exact ⟨[], .nil disk⟩
  · split at merged
    · cases merged
      exact ⟨[], .nil disk⟩
    · split at merged
      · contradiction
      · exact providers _ _ disk disk' refused merged

end ChapterOperation

/-- The provider that the handlers find for a chapter has its files. -/
theorem owner_of_findChapter (provenance : l.Provenance disk) {mangaID chapterID providerID : String}
    {chMeta : ChapterMeta}
    (found : findChapter l disk mangaID chapterID = some (chMeta, providerID)) :
    ∃ foundID dir, l.findChapter disk mangaID chapterID = some (chMeta, foundID) ∧
      l.providerChapterDir mangaID foundID chapterID = .ok dir ∧
      ∀ owner, l.providerOf (dir ++ ["meta.json"]) = some owner → providerID = owner := by
  rcases Option.map_eq_some_iff.mp found with ⟨⟨stored, foundID⟩, located, named⟩
  have sameMeta : stored = chMeta := by
    cases content : stored.content <;> simp only [content, Prod.mk.injEq] at named <;> exact named.1
  subst sameMeta
  have read : l.getChapter disk mangaID foundID chapterID = some stored := by
    have located' := located
    simp only [Layout.findChapter] at located'
    split at located'
    · contradiction
    · rcases List.exists_of_findSome?_eq_some located' with ⟨name, _, shown⟩
      split at shown
      · rcases Option.map_eq_some_iff.mp shown with ⟨chMeta, read, same⟩
        cases same
        exact read
      · contradiction
  rcases Layout.named_of_getChapter provenance read with ⟨dir, isDir, owns⟩
  refine ⟨foundID, dir, located, isDir, fun owner below => ?_⟩
  rcases owns owner below with ⟨notEmpty, content, has, names⟩
  simp only [has, names, ne_eq, notEmpty, not_false_eq_true, if_true, Prod.mk.injEq] at named
  exact named.2.symm

def pullFirst : ChapterOperation :=
  .pullManga "7" PullManga.frieren [PullManga.firstChapter] Time.zero [.nextChapter]

/-- A request to save the chapter with this provider in its content source. -/
def saveFor (providerID : String) : ChapterOperation :=
  .request "frieren" quietWorld
    (.save "1" ⟨"", "", "", ChapterOperation.naming providerID, ""⟩)

theorem provenance_emptyDisk (l : Layout) : l.Provenance PullManga.emptyDisk := by
  intro path owner chMeta _ _ found
  simp [PullManga.emptyDisk, FileTree.ofEntries, FileTree.find, Entries.find] at found

/-- What the manifest of the chapter names after the operations. -/
def namedAfter (operations : List ChapterOperation) : Option String :=
  (Run.execute (ChapterOperation.step PullManga.plainLayout) (fun _ _ => true)
    PullManga.emptyDisk operations).bind fun last =>
    (PullManga.plainLayout.getChapter last "frieren" "mangadex" "1").bind fun chMeta =>
      chMeta.content.map (·.providerID)

theorem attributed_pullFirst :
    pullFirst.Attributed PullManga.plainLayout PullManga.emptyDisk := by
  intro existing _ ch member _
  rw [List.mem_singleton.mp member]
  decide +kernel

end Kiyomi.Api
