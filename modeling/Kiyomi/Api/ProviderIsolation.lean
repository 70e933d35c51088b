import Kiyomi.Api.ChapterHandlers
import Kiyomi.Queue.PullCompleteness

namespace Kiyomi.Api

open Go Library Queue

/-! # Chapter requests and provider namespaces

The chapter list of a provider shows what its own directory has. The handlers find a chapter
by its id alone, in the first provider directory that has it. -/

/-- The chapter is listed for the provider. -/
def ListedFor (l : Layout) (disk : Disk) (mangaID providerID chapterID : String) : Prop :=
  ∃ chapters, l.listChapters disk mangaID [providerID] = .ok chapters ∧
    chapterID ∈ chapters.map ChapterInfo.id

/-- The ids follow the conventions of the library: they name their directories, and are no
patterns. No provider has the name of a file of the manga. -/
structure Conventional (l : Layout) (disk : Disk) (mangaID providerID : String) (mDir : Path) :
    Prop where
  located : l.mangaDir mangaID = .ok mDir
  literal : mDir.any hasMeta = false
  manga : l.plain mangaID = true
  provider : l.plain providerID = true ∧ hasMeta providerID = false
  notState : providerID ≠ "user_state.json"
  chapter : ∀ chapterID, ListedFor l disk mangaID providerID chapterID →
    l.plain chapterID = true ∧ hasMeta chapterID = false
  named : ∀ chapterID, ListedFor l disk mangaID providerID chapterID →
    ∀ chMeta other, findChapter l disk mangaID chapterID = some (chMeta, other) →
      l.plain other = true ∧ ∀ content, disk.find (mDir ++ [other]) ≠ some (.file content)

/-- Nothing but the provider's namespace and the reading state of the manga changes, and jobs
are for the provider. -/
structure Isolated (mDir : Path) (providerID : String) (disk : Disk) (outcome : ChapterOutcome) :
    Prop where
  files : ChangesOnly (mDir ++ [providerID]) (mDir ++ ["user_state.json"]) disk outcome.disk
  jobs : ∀ job ∈ outcome.jobs, job.providerID = providerID

variable {l : Layout} {disk : Disk} {mangaID providerID : String} {mDir : Path}

theorem isolated_refuse (reply : ChapterReply) :
    Isolated mDir providerID disk (.refuse reply disk) where
  files := .refl disk
  jobs := by simp [ChapterOutcome.refuse]

theorem isolated_ofResult (reply : ChapterReply) {result : Disk × Bool}
    (only : ChangesOnly (mDir ++ [providerID]) (mDir ++ ["user_state.json"]) disk result.1) :
    Isolated mDir providerID disk (.ofResult reply result) where
  files := only
  jobs := by simp [ChapterOutcome.ofResult]

namespace Conventional

/-- The requests about listed chapters find them in the provider's namespace. -/
def Finds (l : Layout) (disk : Disk) (mangaID providerID chapterID : String) : Prop :=
  ∃ chMeta, findChapter l disk mangaID chapterID = some (chMeta, providerID)

theorem readable_of_listed (conventional : Conventional l disk mangaID providerID mDir)
    {chapterID : String} (listed : ListedFor l disk mangaID providerID chapterID) :
    readable disk (mDir ++ [providerID, chapterID]) := by
  have plain := (conventional.chapter chapterID listed).1
  rcases listed with ⟨chapters, ok, member⟩
  have found := (Layout.mem_listChapters ok conventional.provider.1 plain).mp member
  rcases Layout.getChapter_isSome_iff.mp found with ⟨dir, located, isReadable⟩
  rw [Layout.providerChapterDir_of_plain conventional.located conventional.provider.1 plain,
    Except.ok.injEq] at located
  exact located ▸ isReadable

theorem directory_of_listed (conventional : Conventional l disk mangaID providerID mDir)
    {chapterID : String} (listed : ListedFor l disk mangaID providerID chapterID) :
    disk.find (mDir ++ [providerID]) = some .directory := by
  have isDirectory := Layout.directory_of_readable (conventional.readable_of_listed listed)
  have whole : mDir ++ [providerID, chapterID] = mDir ++ [providerID] ++ [chapterID] := by simp
  rw [whole] at isDirectory
  exact FileTree.parent isDirectory

theorem apart (conventional : Conventional l disk mangaID providerID mDir) :
    mDir ++ [providerID] ≠ mDir ++ ["user_state.json"] := by
  simpa using conventional.notState

theorem sanitizeID_of_plain {id : String} (plain : l.plain id = true) : l.sanitizeID id = id := by
  simp only [Layout.plain, Bool.and_eq_true, beq_iff_eq] at plain
  exact plain.2

section

variable (conventional : Conventional l disk mangaID providerID mDir)
  {chapterID : String} (listed : ListedFor l disk mangaID providerID chapterID)

include conventional listed

theorem chapterDir : l.providerChapterDir mangaID providerID chapterID =
    .ok (mDir ++ [providerID] ++ chapterID :: []) := by
  rw [Layout.providerChapterDir_of_plain conventional.located conventional.provider.1
    (conventional.chapter chapterID listed).1]
  simp

theorem literalDir : (mDir ++ [providerID] ++ chapterID :: []).any hasMeta = false := by
  simp [conventional.literal, conventional.provider.2, (conventional.chapter chapterID listed).2]

/-- The part of both progress updates about the manifest keeps within the namespace. -/
theorem keeps_saveProgress (isRead : Bool) (lastReadPage : Int) (now : Time) :
    Keeps (mDir ++ [providerID]) (mDir ++ ["user_state.json"])
      (l.saveProgress (l.sanitizeID mangaID) providerID isRead lastReadPage now
        (l.sanitizeID chapterID)) := by
  rw [sanitizeID_of_plain conventional.manga,
    sanitizeID_of_plain (conventional.chapter chapterID listed).1]
  exact Layout.keeps_saveProgress (conventional.chapterDir listed) isRead lastReadPage now

end

theorem keeps_saveLastRead (conventional : Conventional l disk mangaID providerID mDir)
    (chapterID : String) (now : Time) :
    Keeps (mDir ++ [providerID]) (mDir ++ ["user_state.json"])
      (l.saveLastRead (l.sanitizeID mangaID) chapterID now) := by
  rw [sanitizeID_of_plain conventional.manga]
  exact Layout.keeps_saveLastRead conventional.located (List.prefix_append _ _) now

/-! ## Requests that find the provider's chapters -/

/-- A batch whose groups are all of the provider keeps within its namespace. -/
theorem only_groups (conventional : Conventional l disk mangaID providerID mDir)
    {op : String × List String → Disk → Disk × Bool} {entries : List (String × String)}
    (own : ∀ entry ∈ entries, entry.2 = providerID ∧
      ListedFor l disk mangaID providerID entry.1)
    (keeps : ∀ chapterIDs : List String,
      (∀ chapterID ∈ chapterIDs, ListedFor l disk mangaID providerID chapterID) →
      Keeps (mDir ++ [providerID]) (mDir ++ ["user_state.json"]) (op (providerID, chapterIDs))) :
    ChangesOnly (mDir ++ [providerID]) (mDir ++ ["user_state.json"]) disk
      (each op (byProvider entries) disk).1 := by
  cases entries with
  | nil => exact .refl disk
  | cons first entries =>
      have isDirectory := conventional.directory_of_listed (own first List.mem_cons_self).2
      apply Keeps.each conventional.apart _ disk isDirectory
      intro group member
      have inEntries : ∀ id ∈ group.2, (id, group.1) ∈ first :: entries :=
        fun id inGroup => mem_byProvider member inGroup
      have same : group.1 = providerID := by
        rcases List.exists_mem_of_ne_nil _ (byProvider_filled _ group member) with ⟨id, inGroup⟩
        exact (own _ (inEntries id inGroup)).1
      rw [show group = (providerID, group.2) from Prod.ext same rfl]
      exact keeps group.2 fun id inGroup => (own _ (inEntries id inGroup)).2

theorem found (findable : ∀ chapterID, ListedFor l disk mangaID providerID chapterID →
      Finds l disk mangaID providerID chapterID) {chapterID other : String}
    {chMeta : ChapterMeta} (listed : ListedFor l disk mangaID providerID chapterID)
    (located : findChapter l disk mangaID chapterID = some (chMeta, other)) :
    other = providerID := by
  rcases findable chapterID listed with ⟨own, same⟩
  rw [located] at same
  cases same
  rfl

section

variable (conventional : Conventional l disk mangaID providerID mDir)
  (findable : ∀ chapterID, ListedFor l disk mangaID providerID chapterID →
    Finds l disk mangaID providerID chapterID)

include conventional findable

theorem own_of_findAll {chapterIDs : List String}
    (listed : ∀ chapterID ∈ chapterIDs, ListedFor l disk mangaID providerID chapterID)
    {entries : List (String × String)} (all : findAll l disk mangaID chapterIDs = some entries) :
    ∀ entry ∈ entries, entry.2 = providerID ∧ ListedFor l disk mangaID providerID entry.1 := by
  intro entry member
  rcases mem_findAll all member with ⟨inBatch, chMeta, located⟩
  exact ⟨found findable (listed _ inBatch) located, listed _ inBatch⟩

theorem isolated_progress (w : ChapterWorld) {chapterID : String}
    (listed : ListedFor l disk mangaID providerID chapterID) (req : ProgressPatch) :
    Isolated mDir providerID disk (patchChapterProgress l w mangaID chapterID req disk) := by
  rw [patchChapterProgress]
  rcases findable chapterID listed with ⟨chMeta, located⟩
  rw [located]
  apply isolated_ofResult
  exact (conventional.keeps_saveProgress listed _ _ _).andThen conventional.apart
    (conventional.keeps_saveLastRead _ _) disk (conventional.directory_of_listed listed)

theorem isolated_batchProgress (w : ChapterWorld) {chapterIDs : List String}
    (listed : ∀ chapterID ∈ chapterIDs, ListedFor l disk mangaID providerID chapterID)
    (req : ProgressPatch) :
    Isolated mDir providerID disk
      (patchChaptersProgressBatch l w mangaID chapterIDs req disk) := by
  rw [patchChaptersProgressBatch]
  split
  · exact isolated_refuse _
  · cases all : findAll l disk mangaID chapterIDs with
    | none => exact isolated_refuse _
    | some entries =>
        apply isolated_ofResult
        apply conventional.only_groups (conventional.own_of_findAll findable listed all)
        intro chapterIDs listed
        have each : Keeps (mDir ++ [providerID]) (mDir ++ ["user_state.json"])
            (each (l.saveProgress (l.sanitizeID mangaID) providerID (req.isRead.getD false)
              (req.lastReadPage.getD 0) w.now) (chapterIDs.map l.sanitizeID)) := by
          apply Keeps.each conventional.apart
          intro id member
          rcases List.mem_map.mp member with ⟨chapterID, inGroup, rfl⟩
          exact conventional.keeps_saveProgress (listed chapterID inGroup) _ _ _
        refine each.andThen conventional.apart ?_
        cases (chapterIDs.map l.sanitizeID).getLast? with
        | none => exact fun disk _ => .refl disk
        | some last => exact conventional.keeps_saveLastRead last w.now

/-- The filled manifest goes to the directory where the chapter was found. -/
theorem isolated_save {chapterID : String} {body : SaveChapterRequest}
    (listed : ListedFor l disk mangaID providerID (body.savedID chapterID)) :
    Isolated mDir providerID disk (saveChapter l mangaID chapterID body disk) := by
  simp only [saveChapter]
  split
  · exact isolated_refuse _
  · rcases findable _ listed with ⟨chMeta, located⟩
    have notEmpty : providerID ≠ "" := by
      intro empty
      have plain := conventional.provider.1
      simp [empty, Layout.plain, isName] at plain
    have provider : saveProvider l disk mangaID (body.savedID chapterID) body = providerID := by
      simp [saveProvider, firstNonEmpty, located, notEmpty]
    rw [provider]
    apply isolated_ofResult
    exact Keeps.orKeep (fun _ _ isDirectory saved =>
      Layout.changesOnly_saveChapter (conventional.chapterDir listed) isDirectory saved) disk
      (conventional.directory_of_listed listed)

theorem isolated_refresh (w : ChapterWorld) {chapterID : String}
    (listed : ListedFor l disk mangaID providerID chapterID) :
    Isolated mDir providerID disk (refreshChapter l w mangaID chapterID disk) := by
  rw [refreshChapter]
  rcases findable chapterID listed with ⟨chMeta, located⟩
  rw [located]
  simp only
  split
  · exact isolated_refuse _
  · split
    · exact isolated_refuse _
    · split
      · exact isolated_refuse _
      · split
        · exact isolated_refuse _
        · split
          · exact isolated_refuse _
          · apply isolated_ofResult
            exact Keeps.orKeep (fun _ _ isDirectory saved =>
              Layout.changesOnly_saveChapter (conventional.chapterDir listed) isDirectory saved)
              disk (conventional.directory_of_listed listed)

theorem isolated_batchRefresh (w : ChapterWorld) {chapterIDs : List String}
    (listed : ∀ chapterID ∈ chapterIDs, ListedFor l disk mangaID providerID chapterID) :
    Isolated mDir providerID disk (refreshChaptersBatch l w mangaID chapterIDs disk) := by
  simp only [refreshChaptersBatch]
  split
  · exact isolated_refuse _
  · split
    · apply isolated_ofResult
      apply conventional.only_groups
      · intro entry member
        rcases List.mem_map.mp member with ⟨chapterID, inBatch, rfl⟩
        rcases findable chapterID (listed chapterID inBatch) with ⟨chMeta, located⟩
        have notEmpty : providerID ≠ "" := by
          intro empty
          have plain := conventional.provider.1
          simp [empty, Layout.plain, isName] at plain
        exact ⟨by simp [firstNonEmpty, located, notEmpty], listed chapterID inBatch⟩
      · intro chapterIDs listed disk isDirectory
        simp only [refreshProvider]
        split
        · exact .refl disk
        · split
          · exact .refl disk
          · apply Keeps.each conventional.apart _ disk isDirectory
            intro chapterID member disk isDirectory
            simp only [refreshListed]
            split
            · exact .refl disk
            · exact Keeps.orKeep (fun _ _ isDirectory saved =>
                Layout.changesOnly_saveChapter (conventional.chapterDir (listed chapterID member))
                  isDirectory saved) disk isDirectory
    · exact isolated_refuse _

theorem isolated_pull (w : ChapterWorld) {chapterID : String}
    (listed : ListedFor l disk mangaID providerID chapterID) :
    Isolated mDir providerID disk (pullChapter l w mangaID chapterID disk) := by
  rw [pullChapter]
  rcases findable chapterID listed with ⟨chMeta, located⟩
  rw [located]
  simp only
  repeat' split
  all_goals first | exact isolated_refuse _ | exact ⟨.refl disk, by simp⟩

theorem isolated_batchPull (w : ChapterWorld) {chapterIDs : List String}
    (listed : ∀ chapterID ∈ chapterIDs, ListedFor l disk mangaID providerID chapterID) :
    Isolated mDir providerID disk (pullChaptersBatch l w mangaID chapterIDs disk) := by
  rw [pullChaptersBatch]
  split
  · exact isolated_refuse _
  · split
    · exact isolated_refuse _
    · split
      · exact isolated_refuse _
      · cases all : pullPayloads l w disk mangaID chapterIDs with
        | error reply => exact isolated_refuse _
        | ok payloads =>
            refine ⟨.refl disk, fun job taken => ?_⟩
            rcases mem_pullPayloads all ((List.takeWhile_prefix _).subset taken) with
              ⟨inBatch, chMeta, located⟩
            exact found findable (listed _ inBatch) located

theorem isolated_delete {chapterID : String}
    (listed : ListedFor l disk mangaID providerID chapterID) :
    Isolated mDir providerID disk (deleteChapter l mangaID chapterID disk) := by
  rw [deleteChapter]
  rcases findable chapterID listed with ⟨chMeta, located⟩
  rw [located]
  exact isolated_ofResult _ (Layout.keeps_deleteChapter (conventional.chapterDir listed) disk
    (conventional.directory_of_listed listed))

theorem isolated_batchDelete {chapterIDs : List String}
    (listed : ∀ chapterID ∈ chapterIDs, ListedFor l disk mangaID providerID chapterID) :
    Isolated mDir providerID disk (deleteChaptersBatch l mangaID chapterIDs disk) := by
  rw [deleteChaptersBatch]
  split
  · exact isolated_refuse _
  · apply isolated_ofResult
    apply conventional.only_groups
    · intro entry member
      rcases List.mem_filterMap.mp member with ⟨chapterID, inBatch, kept⟩
      rcases findable chapterID (listed chapterID inBatch) with ⟨chMeta, located⟩
      rw [located] at kept
      rcases Option.map_eq_some_iff.mp kept with ⟨own, filtered, rfl⟩
      rcases Option.filter_eq_some_iff.mp filtered with ⟨same, _⟩
      cases same
      exact ⟨rfl, listed chapterID inBatch⟩
    · intro chapterIDs listed
      exact Keeps.each conventional.apart fun chapterID member =>
        Layout.keeps_deleteChapter (conventional.chapterDir (listed chapterID member))

theorem isolated_deleteFiles {chapterID : String}
    (listed : ListedFor l disk mangaID providerID chapterID) :
    Isolated mDir providerID disk (deleteChapterFiles l mangaID chapterID disk) := by
  rw [deleteChapterFiles]
  rcases findable chapterID listed with ⟨chMeta, located⟩
  rw [located]
  exact isolated_ofResult _ (Layout.keeps_deleteChapterFiles conventional.apart
    (conventional.chapterDir listed) (conventional.literalDir listed) disk
    (conventional.directory_of_listed listed))

theorem isolated_batchDeleteFiles {chapterIDs : List String}
    (listed : ∀ chapterID ∈ chapterIDs, ListedFor l disk mangaID providerID chapterID) :
    Isolated mDir providerID disk (deleteChapterFilesBatch l mangaID chapterIDs disk) := by
  rw [deleteChapterFilesBatch]
  split
  · exact isolated_refuse _
  · cases all : findAll l disk mangaID chapterIDs with
    | none => exact isolated_refuse _
    | some entries =>
        apply isolated_ofResult
        apply conventional.only_groups (conventional.own_of_findAll findable listed all)
        intro chapterIDs listed
        exact Keeps.each conventional.apart fun chapterID member =>
          Layout.keeps_deleteChapterFiles conventional.apart
            (conventional.chapterDir (listed chapterID member))
            (conventional.literalDir (listed chapterID member))

theorem isolated_run (w : ChapterWorld) {call : ChapterCall}
    (listed : ∀ chapterID ∈ call.chapterIDs, ListedFor l disk mangaID providerID chapterID) :
    Isolated mDir providerID disk (call.run l w mangaID disk) := by
  cases call with
  | progress chapterID req =>
      exact conventional.isolated_progress findable w (listed chapterID List.mem_cons_self) req
  | batchProgress chapterIDs req =>
      exact conventional.isolated_batchProgress findable w listed req
  | save chapterID body =>
      exact conventional.isolated_save findable (listed _ List.mem_cons_self)
  | refresh chapterID =>
      exact conventional.isolated_refresh findable w (listed chapterID List.mem_cons_self)
  | batchRefresh chapterIDs => exact conventional.isolated_batchRefresh findable w listed
  | pull chapterID =>
      exact conventional.isolated_pull findable w (listed chapterID List.mem_cons_self)
  | batchPull chapterIDs => exact conventional.isolated_batchPull findable w listed
  | delete chapterID =>
      exact conventional.isolated_delete findable (listed chapterID List.mem_cons_self)
  | batchDelete chapterIDs => exact conventional.isolated_batchDelete findable listed
  | deleteFiles chapterID =>
      exact conventional.isolated_deleteFiles findable (listed chapterID List.mem_cons_self)
  | batchDeleteFiles chapterIDs => exact conventional.isolated_batchDeleteFiles findable listed

end

/-! ## Requests that find another provider's chapter -/

/-- A change to the chapter of another provider is no change of the namespace. -/
theorem not_changesOnly {disk' : Disk} {other : String} (chapterID : String)
    (different : other ≠ providerID)
    (changed : disk'.find (mDir ++ [other, chapterID]) ≠ disk.find (mDir ++ [other, chapterID])) :
    ¬ ChangesOnly (mDir ++ [providerID]) (mDir ++ ["user_state.json"]) disk disk' := by
  intro only
  rcases only _ changed with ⟨name, rest, below⟩ | state
  · rw [List.append_assoc, List.append_cancel_left_eq, List.cons_append] at below
    exact different (List.cons.inj below).1
  · simp at state

/-- A save request that says nothing but the chapter id of its path. -/
def blankRequest : SaveChapterRequest := ⟨"", "", "", ChapterMeta.zero, ""⟩

/-- Deleting the other provider's chapter, or saving it where it has no directory, is such
a change. -/
theorem exists_not_isolated (conventional : Conventional l disk mangaID providerID mDir)
    (w : ChapterWorld) {chapterID other : String} {chMeta : ChapterMeta}
    (listed : ListedFor l disk mangaID providerID chapterID)
    (located : findChapter l disk mangaID chapterID = some (chMeta, other))
    (different : other ≠ providerID) :
    ∃ call : ChapterCall, call.chapterIDs = [chapterID] ∧
      ¬ Isolated mDir providerID disk (call.run l w mangaID disk) := by
  rcases conventional.named chapterID listed chMeta other located with ⟨otherPlain, notFile⟩
  have chapterPlain := (conventional.chapter chapterID listed).1
  have dir := Layout.providerChapterDir_of_plain conventional.located otherPlain chapterPlain
  cases there : disk.find (mDir ++ [other, chapterID]) with
  | some node =>
      refine ⟨.delete chapterID, rfl, fun isolated => ?_⟩
      have only := isolated.files
      simp only [ChapterCall.run, deleteChapter, located, ChapterOutcome.ofResult,
        Layout.deleteChapter, dir] at only
      refine not_changesOnly chapterID different ?_ only
      rw [FileTree.find_removeAll (by simp), if_pos (List.prefix_refl _), there]
      simp
  | none =>
      have isDirectory : disk.find mDir = some .directory :=
        FileTree.parent (conventional.directory_of_listed listed)
      have free : ∀ upper, upper <+: mDir ++ [other, chapterID] → ∀ content,
          disk.find upper ≠ some (.file content) := by
        intro upper isUpper content
        have split : mDir ++ [other, chapterID] = mDir ++ [other] ++ [chapterID] := by simp
        rw [split, List.prefix_concat_iff] at isUpper
        rcases isUpper with rfl | isUpper
        · rw [← split, there]
          simp
        · rcases List.prefix_concat_iff.mp isUpper with rfl | above
          · exact notFile content
          · rw [FileTree.directory_above above isDirectory]
            simp
      have notEmpty : chapterID ≠ "" ∧ other ≠ "" := by
        constructor
        · intro empty
          simp [empty, Layout.plain, isName] at chapterPlain
        · intro empty
          simp [empty, Layout.plain, isName] at otherPlain
      have savedID : blankRequest.savedID chapterID = chapterID := by
        simp [SaveChapterRequest.savedID, firstNonEmpty, notEmpty.1]
      have provider : saveProvider l disk mangaID chapterID blankRequest = other := by
        simp [saveProvider, firstNonEmpty, located, notEmpty.2]
      refine ⟨.save chapterID blankRequest, by simp [ChapterCall.chapterIDs, savedID], fun isolated => ?_⟩
      have only := isolated.files
      rcases Layout.saveChapter_of_absent dir there free
        (blankRequest.filled other chapterID) with
        ⟨disk', saved, made⟩
      simp only [ChapterCall.run, saveChapter, savedID, if_neg notEmpty.1, provider,
        ChapterOutcome.ofResult, orKeep, saved] at only
      refine not_changesOnly chapterID different ?_ only
      rw [made, there]
      simp

end Conventional

/-- The provider's own directory has the chapter, so some directory has. -/
theorem Conventional.exists_found (conventional : Conventional l disk mangaID providerID mDir)
    {chapterID : String} (listed : ListedFor l disk mangaID providerID chapterID) :
    ∃ chMeta other, findChapter l disk mangaID chapterID = some (chMeta, other) := by
  have isDirectory := conventional.directory_of_listed listed
  have above : disk.find mDir = some .directory := FileTree.parent isDirectory
  rcases Option.isSome_iff_exists.mp (FileTree.readDir_isSome.mpr above) with ⟨names, entries⟩
  have inNames : providerID ∈ names := (FileTree.mem_readDir entries).mpr ⟨_, isDirectory⟩
  have isReadable := conventional.readable_of_listed listed
  have dir : l.providerChapterDir mangaID providerID chapterID =
      .ok (mDir ++ [providerID, chapterID]) := by
    simpa using conventional.chapterDir listed
  have has := Layout.getChapter_isSome_iff.mpr ⟨_, dir, isReadable⟩
  have someFound : (l.findChapter disk mangaID chapterID).isSome := by
    simp only [Layout.findChapter, conventional.located, entries, Option.getD_some]
    rw [List.findSome?_isSome_iff]
    refine ⟨providerID, inNames, ?_⟩
    rw [if_pos isDirectory, Option.isSome_map]
    exact has
  rcases Option.isSome_iff_exists.mp someFound with ⟨found, located⟩
  simp only [findChapter, located, Option.map_some]
  cases found.1.content with
  | none => exact ⟨_, _, rfl⟩
  | some content => exact ⟨_, _, rfl⟩

/-- In a library with conventional ids, every request about chapters listed for a provider
keeps to that provider exactly if each of these chapters is found for the provider: the first
provider directory with a manifest for the chapter names it, or is its own. -/
theorem requests_isolated_iff (conventional : Conventional l disk mangaID providerID mDir)
    (w : ChapterWorld) :
    (∀ call : ChapterCall,
      (∀ chapterID ∈ call.chapterIDs, ListedFor l disk mangaID providerID chapterID) →
      Isolated mDir providerID disk (call.run l w mangaID disk)) ↔
    ∀ chapterID, ListedFor l disk mangaID providerID chapterID →
      ∃ chMeta, findChapter l disk mangaID chapterID = some (chMeta, providerID) := by
  constructor
  · intro isolated chapterID listed
    rcases conventional.exists_found listed with ⟨chMeta, other, located⟩
    by_cases own : other = providerID
    · exact ⟨chMeta, own ▸ located⟩
    · rcases conventional.exists_not_isolated w listed located own with ⟨call, about, spills⟩
      refine absurd (isolated call ?_) spills
      simpa [about] using listed
  · exact fun findable call listed => conventional.isolated_run findable w listed

/-! One manga with the same chapter id under two providers. -/

def twoProviders : Disk := FileTree.ofEntries
  [(["library"], .directory),
   (["library", "frieren"], .directory),
   (["library", "frieren", "mangadex"], .directory),
   (["library", "frieren", "mangadex", "1"], .directory),
   (["library", "frieren", "mangadex", "1", "meta.json"], .file (.chapter ChapterMeta.zero)),
   (["library", "frieren", "mangafox"], .directory),
   (["library", "frieren", "mangafox", "1"], .directory),
   (["library", "frieren", "mangafox", "1", "meta.json"], .file (.chapter ChapterMeta.zero))]
  (by decide +kernel)

def quietWorld : ChapterWorld where
  now := Time.zero
  hasContent := fun _ => true
  isAvailable := fun _ => true
  fetchChapters := fun _ _ => none
  hasQueue := true
  takesJob := fun _ => true

theorem eq_of_listedFor {providerID chapterID : String}
    (lists : ((PullManga.plainLayout.listChapters twoProviders "frieren" [providerID]).toOption.map
      fun chapters => chapters.map ChapterInfo.id) = some ["1"])
    (listed : ListedFor PullManga.plainLayout twoProviders "frieren" providerID chapterID) :
    chapterID = "1" := by
  rcases listed with ⟨chapters, ok, member⟩
  rw [ok] at lists
  have ids : chapters.map ChapterInfo.id = ["1"] := Option.some.inj lists
  rw [ids] at member
  exact List.mem_singleton.mp member

theorem conventional_twoProviders {providerID : String}
    (provider : providerID = "mangadex" ∨ providerID = "mangafox") :
    Conventional PullManga.plainLayout twoProviders "frieren" providerID ["library", "frieren"] := by
  have lists : ((PullManga.plainLayout.listChapters twoProviders "frieren" [providerID]).toOption.map
      fun chapters => chapters.map ChapterInfo.id) = some ["1"] := by
    rcases provider with rfl | rfl <;> decide +kernel
  constructor
  · decide +kernel
  · decide +kernel
  · decide +kernel
  · rcases provider with rfl | rfl <;> decide +kernel
  · rcases provider with rfl | rfl <;> decide
  · intro chapterID listed
    rw [eq_of_listedFor lists listed]
    decide +kernel
  · intro chapterID listed chMeta other located
    rw [eq_of_listedFor lists listed] at located
    have first : (findChapter PullManga.plainLayout twoProviders "frieren" "1").map (·.2) =
        some "mangadex" := by decide +kernel
    rw [located] at first
    rw [show other = "mangadex" from Option.some.inj first]
    refine ⟨by decide +kernel, fun content found => ?_⟩
    have isDirectory : twoProviders.find ["library", "frieren", "mangadex"] = some .directory := by
      decide +kernel
    rw [show ["library", "frieren"] ++ ["mangadex"] = ["library", "frieren", "mangadex"] from rfl,
      isDirectory] at found
    cases found

theorem requests_isolated_iff_first_provider :
    (∀ call : ChapterCall,
      (∀ chapterID ∈ call.chapterIDs,
        ListedFor PullManga.plainLayout twoProviders "frieren" "mangadex" chapterID) →
      Isolated ["library", "frieren"] "mangadex" twoProviders
        (call.run PullManga.plainLayout quietWorld "frieren" twoProviders)) ↔
    ∀ chapterID, ListedFor PullManga.plainLayout twoProviders "frieren" "mangadex" chapterID →
      ∃ chMeta, findChapter PullManga.plainLayout twoProviders "frieren" chapterID =
        some (chMeta, "mangadex") :=
  requests_isolated_iff (conventional_twoProviders (.inl rfl)) quietWorld

/-- With `mangafox` as the active provider, deleting its chapter deletes the one of
`mangadex`, whose directory comes first. -/
theorem delete_hits_other_provider :
    ¬ ∀ l disk mangaID providerID mDir w, Conventional l disk mangaID providerID mDir →
      ∀ call : ChapterCall,
        (∀ chapterID ∈ call.chapterIDs, ListedFor l disk mangaID providerID chapterID) →
        Isolated mDir providerID disk (call.run l w mangaID disk) := by
  intro claimed
  have listed : ListedFor PullManga.plainLayout twoProviders "frieren" "mangafox" "1" := by
    have lists : ((PullManga.plainLayout.listChapters twoProviders "frieren"
        ["mangafox"]).toOption.map fun chapters => chapters.map ChapterInfo.id) = some ["1"] := by
      decide +kernel
    cases ok : PullManga.plainLayout.listChapters twoProviders "frieren" ["mangafox"] with
    | error refused =>
        rw [ok] at lists
        contradiction
    | ok chapters =>
        rw [ok] at lists
        have ids : chapters.map ChapterInfo.id = ["1"] := Option.some.inj lists
        exact ⟨chapters, ok, ids ▸ List.mem_singleton_self _⟩
  have isolated := claimed PullManga.plainLayout twoProviders "frieren" "mangafox"
    ["library", "frieren"] quietWorld (conventional_twoProviders (.inr rfl)) (.delete "1")
    (by simpa [ChapterCall.chapterIDs] using listed)
  have gone : (ChapterCall.run PullManga.plainLayout quietWorld "frieren" (.delete "1")
      twoProviders).disk.find ["library", "frieren", "mangadex", "1"] = none := by
    decide +kernel
  have there : twoProviders.find ["library", "frieren", "mangadex", "1"] = some .directory := by
    decide +kernel
  have changed := isolated.files ["library", "frieren", "mangadex", "1"]
    (by rw [gone, there]; simp)
  rcases changed with ⟨name, rest, below⟩ | state
  · simp at below
  · simp at state

end Kiyomi.Api
