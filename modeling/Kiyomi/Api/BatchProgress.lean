import Kiyomi.Api.ChapterHandlers
import Kiyomi.Library.BindingSections
import Kiyomi.Queue.DownloadedFlag

namespace Kiyomi.Api

open Go Library Queue ProgressSystem ChapterOutcome

/-! # Progress of many chapters

A batch request groups its chapters by provider and visits the groups in the order in which the
map is ranged over. Single requests take one chapter after the other. -/

variable (l : Layout)

/-- `patchChaptersProgressBatch` with the order in which the groups are visited. -/
def patchChaptersProgressBatchIn
    (visit : List (String × List String) → List (String × List String)) (w : ChapterWorld)
    (mangaID : String) (chapterIDs : List String) (req : ProgressPatch) (disk : Disk) :
    ChapterOutcome :=
  if mangaID = "" ∨ chapterIDs = [] then refuse .badRequest disk
  else
    match findAll l disk mangaID chapterIDs with
    | none => refuse .notFound disk
    | some entries =>
        ofResult .ok (each (fun (providerID, chapterIDs) =>
          l.batchUpdateChapterProgress mangaID providerID chapterIDs (req.isRead.getD false)
            (req.lastReadPage.getD 0) w.now) (visit (byProvider entries)) disk)

/-- One request after the other, each at a time of its own. -/
def patchEach (mangaID : String) (req : ProgressPatch) :
    List (String × ChapterWorld) → Disk → Disk
  | [], disk => disk
  | (chapterID, w) :: requests, disk =>
      patchEach mangaID req requests (patchChapterProgress l w mangaID chapterID req disk).disk

/-- A manifest but for the time of the last reading. -/
def untimed : Option Document → Option Document
  | some (.chapter chMeta) => some (.chapter { chMeta with lastReadAt := Time.zero })
  | document => document

/-- The same manifests up to timestamps, and the same last-read chapter. -/
structure SameReading (mangaID : String) (left right : Disk) : Prop where
  manifests : ∀ dir : Path,
    untimed (left.readFile (dir ++ ["meta.json"])) = untimed (right.readFile (dir ++ ["meta.json"]))
  lastRead : (l.getUserState left (l.sanitizeID mangaID)).map (·.lastReadChapterID) =
    (l.getUserState right (l.sanitizeID mangaID)).map (·.lastReadChapterID)

/-- Nothing is in the way of a request: the manifests are as `saveChapter` writes them, each
chapter is found in the directory of the provider that its manifest names, or in that
directory there is a manifest too, and the user state can be read. -/
structure Unhindered (mangaID : String) (chapterIDs : List String) (disk : Disk) : Prop where
  named : mangaID ≠ ""
  written : ∀ (dir : Path) stored,
    disk.readFile (dir ++ ["meta.json"]) = some (.chapter stored) → stored.saved = stored
  targets : ∀ chapterID ∈ chapterIDs, ∀ found ∈ findChapter l disk mangaID chapterID,
    (l.getChapter disk (l.sanitizeID mangaID) found.2 (l.sanitizeID chapterID)).isSome
  directory : ∀ dir, l.mangaDir (l.sanitizeID mangaID) = .ok dir → disk.find dir = some .directory
  userState : (l.getUserState disk (l.sanitizeID mangaID)).isSome

/-- What the request does not name is not read or at page zero in each chapter. -/
def NamesProgress (mangaID : String) (chapterIDs : List String) (req : ProgressPatch) (disk : Disk) :
    Prop :=
  ∀ chapterID ∈ chapterIDs, ∀ found ∈ findChapter l disk mangaID chapterID,
    patched req (progressOf found.1) = patched req ⟨false, 0⟩

/-- The provider of the last chapter is visited last. -/
def VisitsLast (mangaID : String) (chapterIDs : List String)
    (visit : List (String × List String) → List (String × List String)) (disk : Disk) : Prop :=
  ∀ entries ∈ findAll l disk mangaID chapterIDs,
    ((visit (byProvider entries)).getLast?).map (·.1) = entries.getLast?.map (·.2)

/-- Requests for different chapters are about different manifests. -/
def Separate (mangaID : String) (chapterIDs : List String) (disk : Disk) : Prop :=
  ∀ chapterID ∈ chapterIDs, ∀ other ∈ chapterIDs,
    ∀ found ∈ l.findChapter disk mangaID chapterID, ∀ owner ∈ findChapter l disk mangaID chapterID,
    ∀ target ∈ findChapter l disk mangaID other, ∀ dir,
      l.providerChapterDir (l.sanitizeID mangaID) target.2 (l.sanitizeID other) = .ok dir →
      (l.providerChapterDir mangaID found.2 chapterID = .ok dir ∨
        l.providerChapterDir (l.sanitizeID mangaID) owner.2 (l.sanitizeID chapterID) = .ok dir) →
      l.sanitizeID other = l.sanitizeID chapterID

variable {l : Layout}

/-! ## A disk on which progress was recorded -/

/-- Since the first disk, progress was recorded in the manifests of some directories, and a
chapter as the last one read. -/
structure Recorded (l : Layout) (mangaID : String) (stateDir : Path) (first disk : Disk)
    (recorded : Path → Option Progress) (lastRead : String) : Prop where
  manifest : ∀ dir progress, recorded dir = some progress → ∃ stored now,
    first.readFile (dir ++ ["meta.json"]) = some (.chapter stored) ∧
      disk.readFile (dir ++ ["meta.json"]) =
        some (.chapter (stored.updateChapterProgress (l.countDownloadedPages first dir)
          progress.isRead progress.lastReadPage now))
  others : ∀ path, (∀ dir, recorded dir ≠ none → path ≠ dir ++ ["meta.json"]) →
    path ≠ stateDir ++ ["user_state.json"] → disk.find path = first.find path
  lastRead : ∃ u, l.getUserState disk mangaID = some u ∧ u.lastReadChapterID = lastRead

theorem stateFile_ne_directory {disk : Disk} {mangaID : String} {stateDir : Path}
    (located : l.mangaDir mangaID = .ok stateDir)
    (readable : (l.getUserState disk mangaID).isSome) :
    disk.find (stateDir ++ ["user_state.json"]) ≠ some .directory := by
  intro isDirectory
  simp [Layout.getUserState, located, Layout.readConcern, Layout.notExist, isDirectory,
    FileTree.readFile] at readable

theorem listed_sorted (disk : Disk) (dir : Path) :
    ((disk.readDir dir).getD []).Pairwise (· < ·) := by
  cases listed : disk.readDir dir with
  | none => exact .nil
  | some names =>
      rw [FileTree.readDir] at listed
      split at listed
      · cases listed
        exact Entries.names_sorted dir disk.entries
      · contradiction

/-- Names in order are known by their members. -/
theorem eq_of_sorted {left right : List String} (leftSorted : left.Pairwise (· < ·))
    (rightSorted : right.Pairwise (· < ·)) (same : ∀ name, name ∈ left ↔ name ∈ right) :
    left = right := by
  refine List.Perm.eq_of_pairwise (fun first second _ _ before after => ?_) leftSorted rightSorted ?_
  · exact absurd (before.trans after) (lt_irrefl first)
  · exact (List.perm_ext_iff_of_nodup (leftSorted.imp ne_of_lt) (rightSorted.imp ne_of_lt)).mpr same

theorem imageFiles_eq {dir : Path} {disk disk' : Disk} (same : SameImages l dir disk disk') :
    imageFiles l disk' dir = imageFiles l disk dir :=
  eq_of_sorted ((listed_sorted disk' dir).filter _) ((listed_sorted disk dir).filter _) fun _ =>
    same.mem_iff

/-- The directories in a directory, in order. -/
def directoriesIn (disk : Disk) (dir : Path) : List String :=
  ((disk.readDir dir).getD []).filter fun name => decide (disk.find (dir ++ [name]) = some .directory)

theorem directoriesIn_eq {disk disk' : Disk} {dir : Path}
    (same : ∀ path, disk'.find path = some .directory ↔ disk.find path = some .directory) :
    directoriesIn disk' dir = directoriesIn disk dir := by
  refine eq_of_sorted ((listed_sorted disk' dir).filter _) ((listed_sorted disk dir).filter _) ?_
  intro name
  rw [directoriesIn, directoriesIn, List.mem_filter, List.mem_filter, mem_listed, mem_listed,
    decide_eq_true_eq, decide_eq_true_eq, same]
  refine and_congr_left fun isDirectory => ?_
  have isToo := (same _).mpr isDirectory
  simp [isDirectory, isToo]

theorem findChapter_eq_findSome (disk : Disk) (mangaID chapterID : String) {mDir : Path}
    (located : l.mangaDir mangaID = .ok mDir) :
    l.findChapter disk mangaID chapterID = (directoriesIn disk mDir).findSome? fun providerID =>
      (l.getChapter disk mangaID providerID chapterID).map (·, providerID) := by
  simp only [Layout.findChapter, located, directoriesIn]
  induction (disk.readDir mDir).getD [] with
  | nil => rfl
  | cons name names induction =>
      by_cases isDirectory : disk.find (mDir ++ [name]) = some .directory
      · rw [List.filter_cons_of_pos (by simpa using isDirectory), List.findSome?_cons,
          List.findSome?_cons, if_pos isDirectory, induction]
      · rw [List.filter_cons_of_neg (by simpa using isDirectory), List.findSome?_cons,
          if_neg isDirectory, induction]

/-- What is found in two ways is related as the places are. -/
theorem findSome?_rel {Related : α → β → Prop} {f : γ → Option α} {g : γ → Option β}
    (names : List γ) (related : ∀ name ∈ names, Option.Rel Related (f name) (g name)) :
    Option.Rel Related (names.findSome? f) (names.findSome? g) := by
  induction names with
  | nil => exact .none
  | cons name names induction =>
      have later := induction fun other member => related other (List.mem_cons_of_mem _ member)
      have here := related name List.mem_cons_self
      rw [List.findSome?_cons, List.findSome?_cons]
      revert here
      cases f name with
      | none =>
          cases g name with
          | none => exact fun _ => later
          | some _ => simp
      | some _ =>
          cases g name with
          | none => simp
          | some _ => exact id

section Recorded

variable {mangaID : String} {stateDir : Path} {first disk : Disk}
  {recorded : Path → Option Progress} {lastRead : String}

theorem not_counted_json (keeps : l.toLower ".json" = ".json") {name : String}
    (document : name = "meta.json" ∨ name = "user_state.json") : ¬ Counted l name := by
  rintro ⟨_, counted⟩
  have isJSON : ext name = ".json" := by
    rcases document with rfl | rfl
    · decide +kernel
    · decide +kernel
  rw [isJSON, keeps] at counted
  revert counted
  decide

theorem Recorded.countDownloadedPages (keeps : l.toLower ".json" = ".json")
    (evolved : Recorded l mangaID stateDir first disk recorded lastRead) (dir : Path) :
    l.countDownloadedPages disk dir = l.countDownloadedPages first dir := by
  rw [countDownloadedPages_eq, countDownloadedPages_eq, imageFiles_eq]
  intro name counted
  refine evolved.others _ (fun other _ same => ?_) fun same => ?_
  · have isManifest : name = "meta.json" := by simpa using (List.append_inj' same rfl).2
    exact not_counted_json keeps (.inl isManifest) counted
  · have isState : name = "user_state.json" := by simpa using (List.append_inj' same rfl).2
    exact not_counted_json keeps (.inr isState) counted

theorem Recorded.find_directory (located : l.mangaDir mangaID = .ok stateDir)
    (ready : (l.getUserState first mangaID).isSome)
    (evolved : Recorded l mangaID stateDir first disk recorded lastRead) (path : Path) :
    disk.find path = some .directory ↔ first.find path = some .directory := by
  by_cases isState : path = stateDir ++ ["user_state.json"]
  · rcases evolved.lastRead with ⟨u, read, _⟩
    have readable : (l.getUserState disk mangaID).isSome := by rw [read, Option.isSome_some]
    rw [isState]
    exact iff_of_false (stateFile_ne_directory located readable) (stateFile_ne_directory located ready)
  · by_cases isManifest : ∃ dir progress, recorded dir = some progress ∧ path = dir ++ ["meta.json"]
    · rcases isManifest with ⟨dir, progress, isRecorded, rfl⟩
      rcases evolved.manifest dir progress isRecorded with ⟨stored, now, before, after⟩
      rw [FileTree.readFile_eq_some] at before after
      simp [before, after]
    · rw [evolved.others path (fun dir isRecorded same => ?_) isState]
      rcases Option.ne_none_iff_exists'.mp isRecorded with ⟨progress, isRecorded⟩
      exact isManifest ⟨dir, progress, isRecorded, same⟩

/-- What a manifest holds now. -/
theorem Recorded.readFile (evolved : Recorded l mangaID stateDir first disk recorded lastRead)
    {dir : Path} (unrecorded : recorded dir = none) :
    disk.readFile (dir ++ ["meta.json"]) = first.readFile (dir ++ ["meta.json"]) := by
  have same : disk.find (dir ++ ["meta.json"]) = first.find (dir ++ ["meta.json"]) := by
    refine evolved.others _ (fun other isRecorded same => isRecorded ?_) fun same => ?_
    · rw [← (List.append_inj' same rfl).1, unrecorded]
    · simpa using (List.append_inj' same rfl).2
  simp only [FileTree.readFile, same]

theorem content_updateChapterProgress {stored : ChapterMeta} (written : stored.saved = stored)
    (pageFiles : Nat) (isRead : Bool) (lastReadPage : Int) (now : Time) :
    (stored.updateChapterProgress pageFiles isRead lastReadPage now).content = stored.content := by
  change stored.saved.content = stored.content
  rw [written]

/-- What has been recorded is found again, in the same place. -/
theorem Recorded.getChapter (written : ∀ (dir : Path) stored,
      first.readFile (dir ++ ["meta.json"]) = some (.chapter stored) → stored.saved = stored)
    (evolved : Recorded l mangaID stateDir first disk recorded lastRead)
    (owner providerID chapterID : String) :
    Option.Rel (fun before now => now.content = before.content ∧
        ∀ dir, l.providerChapterDir owner providerID chapterID = .ok dir →
          progressOf now = (recorded dir).getD (progressOf before))
      (l.getChapter first owner providerID chapterID)
      (l.getChapter disk owner providerID chapterID) := by
  simp only [Layout.getChapter]
  cases located : l.providerChapterDir owner providerID chapterID with
  | error _ => exact .none
  | ok dir =>
      cases isRecorded : recorded dir with
      | some progress =>
          rcases evolved.manifest dir progress isRecorded with ⟨stored, now, before, after⟩
          simp only [before, after]
          refine .some ⟨?_, fun other same => ?_⟩
          · exact content_updateChapterProgress (written dir stored before) _ _ _ _
          · cases same
            rw [isRecorded]
            rfl
      | none =>
          simp only [evolved.readFile isRecorded]
          split
          · refine .some ⟨rfl, fun other same => ?_⟩
            cases same
            rw [isRecorded]
            rfl
          · exact .none

/-- The handlers find a chapter in the place where they found it at first. -/
theorem Recorded.findChapter (located : l.mangaDir mangaID = .ok stateDir)
    (ready : (l.getUserState first mangaID).isSome)
    (written : ∀ (dir : Path) stored,
      first.readFile (dir ++ ["meta.json"]) = some (.chapter stored) → stored.saved = stored)
    (evolved : Recorded l mangaID stateDir first disk recorded lastRead)
    {owner chapterID foundID providerID : String} {stored existing : ChapterMeta}
    (found : l.findChapter first owner chapterID = some (stored, foundID))
    (named : Api.findChapter l first owner chapterID = some (existing, providerID)) :
    ∃ now dir, l.providerChapterDir owner foundID chapterID = .ok dir ∧
      Api.findChapter l disk owner chapterID = some (now, providerID) ∧
      progressOf now = (recorded dir).getD (progressOf existing) := by
  cases ownerLocated : l.mangaDir owner with
  | error _ => simp [Layout.findChapter, ownerLocated] at found
  | ok mDir =>
      have same := findChapter_eq_findSome disk owner chapterID ownerLocated
      rw [directoriesIn_eq (evolved.find_directory located ready)] at same
      have before := findChapter_eq_findSome first owner chapterID ownerLocated
      have related : Option.Rel (fun before now => now.2 = before.2 ∧ now.1.content = before.1.content ∧
          ∃ dir, l.providerChapterDir owner before.2 chapterID = .ok dir ∧
            progressOf now.1 = (recorded dir).getD (progressOf before.1))
          (l.findChapter first owner chapterID) (l.findChapter disk owner chapterID) := by
        rw [same, before]
        refine findSome?_rel _ fun name _ => ?_
        have here := evolved.getChapter written owner name chapterID
        cases read : l.getChapter first owner name chapterID with
        | none =>
            cases again : l.getChapter disk owner name chapterID with
            | none => exact .none
            | some _ => simp [read, again] at here
        | some chMeta =>
            cases again : l.getChapter disk owner name chapterID with
            | none => simp [read, again] at here
            | some now =>
                rw [read, again, Option.rel_some_some] at here
                have isSome : (l.getChapter first owner name chapterID).isSome := by
                  rw [read, Option.isSome_some]
                rcases Layout.getChapter_isSome_iff.mp isSome with ⟨dir, isDir, _⟩
                exact .some ⟨rfl, here.1, dir, isDir, here.2 dir isDir⟩
      rw [found] at related
      cases again : l.findChapter disk owner chapterID with
      | none => simp [again] at related
      | some result =>
          rcases result with ⟨now, name⟩
          rw [again, Option.rel_some_some] at related
          rcases related with ⟨rfl, sameContent, dir, isDir, progress⟩
          have sameMeta : stored = existing := by
            simp only [Api.findChapter, found, Option.map_some] at named
            cases content : stored.content <;> simp only [content, Option.some.injEq,
              Prod.mk.injEq] at named <;> exact named.1
          refine ⟨now, dir, isDir, ?_, sameMeta ▸ progress⟩
          have nowContent : now.content = stored.content := sameContent
          rw [Api.findChapter, found] at named
          rw [Api.findChapter, again]
          cases content : stored.content with
          | none =>
              simp only [Option.map_some, content, Option.some.injEq, Prod.mk.injEq] at named
              simp only [Option.map_some, nowContent, content, named.2]
          | some source =>
              simp only [Option.map_some, content, Option.some.injEq, Prod.mk.injEq] at named
              simp only [Option.map_some, nowContent, content, named.2]

/-! ## The writes -/

/-- A file is replaced in a directory that is there. -/
theorem writeFile_of_directory {disk : Disk} {dir : Path} {name : String}
    (isDirectory : disk.find dir = some .directory)
    (noDirectory : disk.find (dir ++ [name]) ≠ some .directory) (content : Document) :
    ∃ disk', ((disk.mkdirAll dir).bind fun disk => disk.writeFile dir name content) = some disk' ∧
      ∀ q, disk'.find q = if q = dir ++ [name] then some (.file content) else disk.find q := by
  rcases FileTree.mkdirAll_of_directory isDirectory with ⟨middle, created, same⟩
  rw [← same] at isDirectory noDirectory
  rcases FileTree.exists_writeFile isDirectory noDirectory content with ⟨disk', written⟩
  refine ⟨disk', Option.bind_eq_some_iff.mpr ⟨middle, created, written⟩, fun q => ?_⟩
  rw [FileTree.find_put written, same]

theorem updateChapterProgress_again (stored : ChapterMeta) (pageFiles : Nat) (isRead isRead' : Bool)
    (lastReadPage lastReadPage' : Int) (now now' : Time) :
    (stored.updateChapterProgress pageFiles isRead lastReadPage now).updateChapterProgress pageFiles
        isRead' lastReadPage' now' =
      stored.updateChapterProgress pageFiles isRead' lastReadPage' now' := by
  rcases stored with ⟨_, _, _, _, _, _, content, _, _, _, _, _, _, _, _, _⟩
  cases content with
  | none => rfl
  | some source =>
      by_cases unnamed : source.providerID = ""
      · simp [ChapterMeta.updateChapterProgress, ChapterMeta.read, ChapterMeta.saved, unnamed]
      · simp [ChapterMeta.updateChapterProgress, ChapterMeta.read, ChapterMeta.saved, unnamed]

/-- The user state is read as before when manifests are replaced. -/
theorem getUserState_of_manifest {disk disk' : Disk} {dir : Path}
    (located : l.mangaDir mangaID = .ok stateDir) (directory : disk.find stateDir = some .directory)
    (isReadable : readable disk dir)
    (others : ∀ q, q ≠ dir ++ ["meta.json"] → disk'.find q = disk.find q) :
    l.getUserState disk' mangaID = l.getUserState disk mangaID := by
  rcases isReadable with ⟨stored, found⟩
  rw [FileTree.readFile_eq_some] at found
  simp only [Layout.getUserState, located]
  refine (SameAt.of_find fun upper above => others upper ?_).readConcern _ _
  rintro rfl
  rcases List.prefix_concat_iff.mp above with same | inside
  · simpa using (List.append_inj' same rfl).2
  · rw [FileTree.directory_above inside directory] at found
    cases found

theorem Recorded.readable_iff (evolved : Recorded l mangaID stateDir first disk recorded lastRead)
    (dir : Path) : readable disk dir ↔ readable first dir := by
  cases isRecorded : recorded dir with
  | none => simp only [readable, evolved.readFile isRecorded]
  | some progress =>
      rcases evolved.manifest dir progress isRecorded with ⟨stored, now, before, after⟩
      exact iff_of_true ⟨_, after⟩ ⟨_, before⟩

theorem Recorded.saveProgress (keeps : l.toLower ".json" = ".json")
    (located : l.mangaDir mangaID = .ok stateDir) (ready : (l.getUserState first mangaID).isSome)
    (directory : first.find stateDir = some .directory)
    (evolved : Recorded l mangaID stateDir first disk recorded lastRead)
    {providerID chapterID : String} {dir : Path}
    (target : l.providerChapterDir mangaID providerID chapterID = .ok dir)
    (isReadable : readable first dir) (progress : Progress) (now : Time) :
    ∃ disk', l.saveProgress mangaID providerID progress.isRead progress.lastReadPage now chapterID
        disk = (disk', true) ∧
      Recorded l mangaID stateDir first disk' (Function.update recorded dir (some progress))
        lastRead := by
  have isDirectory := Layout.directory_of_readable ((evolved.readable_iff dir).mpr isReadable)
  rcases (evolved.readable_iff dir).mpr isReadable with ⟨current, found⟩
  have read : l.getChapter disk mangaID providerID chapterID =
      some (current.read (l.countDownloadedPages first dir)) := by
    simp only [Layout.getChapter, target, found, evolved.countDownloadedPages keeps]
  have noDirectory : disk.find (dir ++ ["meta.json"]) ≠ some .directory := by
    simp [FileTree.readFile_eq_some.mp found]
  rcases writeFile_of_directory isDirectory noDirectory (.chapter (current.updateChapterProgress
    (l.countDownloadedPages first dir) progress.isRead progress.lastReadPage now)) with
      ⟨disk', written, find⟩
  refine ⟨disk', ?_, ?_⟩
  · have saves : l.saveChapter disk mangaID providerID chapterID
        { current.read (l.countDownloadedPages first dir) with
          isRead := progress.isRead, lastReadPage := progress.lastReadPage, lastReadAt := now } =
        some disk' := by
      rw [Layout.saveChapter, target]
      exact written
    simp only [Layout.saveProgress, read, orKeep, saves]
  · have manifest : ∃ stored, first.readFile (dir ++ ["meta.json"]) = some (.chapter stored) ∧
        current.updateChapterProgress (l.countDownloadedPages first dir) progress.isRead
            progress.lastReadPage now =
          stored.updateChapterProgress (l.countDownloadedPages first dir) progress.isRead
            progress.lastReadPage now := by
      cases isRecorded : recorded dir with
      | none => exact ⟨current, (evolved.readFile isRecorded).symm.trans found, rfl⟩
      | some earlier =>
          rcases evolved.manifest dir earlier isRecorded with ⟨stored, time, before, after⟩
          cases found.symm.trans after
          exact ⟨stored, before, updateChapterProgress_again ..⟩
    rcases manifest with ⟨stored, before, same⟩
    refine ⟨fun other recordedProgress isRecorded => ?_, fun path unrecorded apart => ?_, ?_⟩
    · by_cases here : other = dir
      · subst here
        rw [Function.update_self] at isRecorded
        cases isRecorded
        exact ⟨stored, now, before,
          FileTree.readFile_eq_some.mpr (by rw [find, if_pos rfl, same])⟩
      · rw [Function.update_of_ne here] at isRecorded
        rcases evolved.manifest other recordedProgress isRecorded with ⟨held, time, old, new⟩
        refine ⟨held, time, old, ?_⟩
        have apart : other ++ ["meta.json"] ≠ dir ++ ["meta.json"] := by simpa using here
        rw [FileTree.readFile_eq_some, find, if_neg apart, ← FileTree.readFile_eq_some, new]
    · have other : path ≠ dir ++ ["meta.json"] := unrecorded dir (by simp)
      rw [find, if_neg other]
      refine evolved.others path (fun earlier isRecorded => unrecorded earlier ?_) apart
      by_cases here : earlier = dir
      · simp [here]
      · rwa [Function.update_of_ne here]
    · have nowDirectory := (evolved.find_directory located ready stateDir).mpr directory
      rw [getUserState_of_manifest located nowDirectory ((evolved.readable_iff dir).mpr isReadable)
        fun q other => by rw [find, if_neg other]]
      exact evolved.lastRead

theorem Recorded.saveLastRead (located : l.mangaDir mangaID = .ok stateDir)
    (ready : (l.getUserState first mangaID).isSome)
    (directory : first.find stateDir = some .directory)
    (evolved : Recorded l mangaID stateDir first disk recorded lastRead) (chapterID : String)
    (now : Time) :
    ∃ disk', l.saveLastRead mangaID chapterID now disk = (disk', true) ∧
      Recorded l mangaID stateDir first disk' recorded chapterID := by
  rcases evolved.lastRead with ⟨u, read, _⟩
  have readable : (l.getUserState disk mangaID).isSome := by rw [read, Option.isSome_some]
  have nowDirectory := (evolved.find_directory located ready stateDir).mpr directory
  rcases writeFile_of_directory nowDirectory (stateFile_ne_directory located readable)
    (.userState (u.lastRead chapterID now)) with ⟨disk', written, find⟩
  have saves : l.saveUserState disk mangaID
      { u with lastReadChapterID := chapterID, lastReadAt := now } now = some disk' := by
    rw [Layout.saveUserState, located]
    exact written
  refine ⟨disk', by simp only [Layout.saveLastRead, read, orKeep, saves], ?_⟩
  refine ⟨fun dir progress isRecorded => ?_, fun path unrecorded apart => ?_, ?_⟩
  · rcases evolved.manifest dir progress isRecorded with ⟨stored, time, before, after⟩
    refine ⟨stored, time, before, ?_⟩
    have apart : dir ++ ["meta.json"] ≠ stateDir ++ ["user_state.json"] := by
      intro same
      simpa using (List.append_inj' same rfl).2
    rw [FileTree.readFile_eq_some, find, if_neg apart, ← FileTree.readFile_eq_some, after]
  · rw [find, if_neg apart, evolved.others path unrecorded apart]
  · refine ⟨u.lastRead chapterID now, ?_, rfl⟩
    simp [Layout.getUserState, located, Layout.readConcern, Layout.notExist, FileTree.readFile, find]

end Recorded

/-! ## Groups -/

/-- The chapters by provider, each group in the order of the entries. -/
structure Groups (entries : List (String × String)) (groups : List (String × List String)) : Prop where
  distinct : (groups.map (·.1)).Nodup
  own : ∀ group ∈ groups, group.2 = (entries.filter fun e => e.2 == group.1).map (·.1)
  all : ∀ e ∈ entries, e.2 ∈ groups.map (·.1)

theorem addTo_keys (providerID chapterID : String) (groups : List (String × List String)) :
    (addTo providerID chapterID groups).map (·.1) =
      if providerID ∈ groups.map (·.1) then groups.map (·.1) else groups.map (·.1) ++ [providerID] := by
  induction groups with
  | nil => rfl
  | cons first groups induction =>
      rcases first with ⟨other, chapterIDs⟩
      rw [addTo]
      by_cases same : other = providerID
      · simp [same]
      · have apart : providerID ≠ other := Ne.symm same
        rw [if_neg same, List.map_cons, List.map_cons, induction]
        by_cases later : providerID ∈ groups.map (·.1)
        · rw [if_pos later, if_pos (List.mem_cons_of_mem _ later)]
        · have absent : providerID ∉ other :: groups.map (·.1) :=
            fun member => (List.mem_cons.mp member).elim apart later
          rw [if_neg later, if_neg absent, List.cons_append]

theorem mem_addTo_iff {providerID chapterID : String} {groups : List (String × List String)}
    (distinct : (groups.map (·.1)).Nodup) {group : String × List String}
    (member : group ∈ addTo providerID chapterID groups) :
    group.1 ≠ providerID ∧ group ∈ groups ∨
      group.1 = providerID ∧ (group.2 = [chapterID] ∧ providerID ∉ groups.map (·.1) ∨
        ∃ old ∈ groups, old.1 = providerID ∧ group.2 = old.2 ++ [chapterID]) := by
  induction groups with
  | nil =>
      rw [addTo, List.mem_singleton] at member
      subst member
      exact .inr ⟨rfl, .inl ⟨rfl, by simp⟩⟩
  | cons first groups induction =>
      rcases first with ⟨other, chapterIDs⟩
      rw [List.map_cons, List.nodup_cons] at distinct
      rw [addTo] at member
      by_cases same : other = providerID
      · rw [if_pos same, List.mem_cons] at member
        rcases member with rfl | later
        · exact .inr ⟨same, .inr ⟨_, List.mem_cons_self, same, rfl⟩⟩
        · refine .inl ⟨fun sameKey => distinct.1 ?_, List.mem_cons_of_mem _ later⟩
          rw [same, ← sameKey]
          exact List.mem_map.mpr ⟨group, later, rfl⟩
      · rw [if_neg same, List.mem_cons] at member
        rcases member with rfl | later
        · exact .inl ⟨same, List.mem_cons_self⟩
        · rcases induction distinct.2 later with ⟨apart, inGroups⟩ | ⟨key, new | ⟨old, inGroups, rest⟩⟩
          · exact .inl ⟨apart, List.mem_cons_of_mem _ inGroups⟩
          · refine .inr ⟨key, .inl ⟨new.1, ?_⟩⟩
            rw [List.map_cons, List.mem_cons, not_or]
            exact ⟨Ne.symm same, new.2⟩
          · exact .inr ⟨key, .inr ⟨old, List.mem_cons_of_mem _ inGroups, rest⟩⟩

theorem Groups.addTo {entries : List (String × String)} {groups : List (String × List String)}
    (grouped : Groups entries groups) (providerID chapterID : String) :
    Groups (entries ++ [(chapterID, providerID)]) (Api.addTo providerID chapterID groups) where
  distinct := by
    rw [addTo_keys]
    split
    · exact grouped.distinct
    · rename_i new
      rw [← List.concat_eq_append]
      exact grouped.distinct.concat new
  own group member := by
    rw [List.filter_append, List.map_append]
    rcases mem_addTo_iff grouped.distinct member with ⟨apart, inGroups⟩ | ⟨key, ⟨new, absent⟩ | old⟩
    · have skipped : (providerID == group.1) = false := beq_eq_false_iff_ne.mpr (Ne.symm apart)
      rw [← grouped.own group inGroups]
      simp [skipped]
    · have none : entries.filter (fun e => e.2 == group.1) = [] := by
        rw [List.filter_eq_nil_iff]
        intro e member same
        have same : e.2 = providerID := by simpa [key] using same
        exact absent (same ▸ grouped.all e member)
      rw [none, key, new]
      simp
    · rcases old with ⟨old, inGroups, oldKey, longer⟩
      rw [longer, grouped.own old inGroups]
      simp [oldKey, key]
  all e member := by
    rw [addTo_keys]
    rcases List.mem_append.mp member with old | new
    · split
      · exact grouped.all e old
      · exact List.mem_append_left _ (grouped.all e old)
    · rw [List.mem_singleton.mp new]
      split
      · assumption
      · exact List.mem_append_right _ (List.mem_singleton_self _)

theorem groups_byProvider (entries : List (String × String)) : Groups entries (byProvider entries) := by
  induction entries using List.reverseRecOn with
  | nil => exact ⟨by simp [byProvider], by simp [byProvider], by simp⟩
  | append_singleton entries e induction =>
      rw [byProvider, List.foldl_append]
      exact induction.addTo e.2 e.1

/-- The group of the last entry ends with it. -/
theorem Groups.getLast {entries : List (String × String)} {groups : List (String × List String)}
    (grouped : Groups entries groups) {e : String × String} (isLast : entries.getLast? = some e)
    {group : String × List String} (member : group ∈ groups) (key : group.1 = e.2) :
    group.2.getLast? = some e.1 := by
  rcases List.getLast?_eq_some_iff.mp isLast with ⟨before, rfl⟩
  rw [grouped.own group member, List.filter_append, List.map_append, key]
  simp

/-! ## The two runs -/

/-- The directory that the progress of an entry goes to. -/
def Goes (l : Layout) (mangaID : String) (e : String × String) (dir : Path) : Prop :=
  l.providerChapterDir mangaID e.2 (l.sanitizeID e.1) = .ok dir

/-- What is recorded is what each of the entries is given. -/
def Records (l : Layout) (mangaID : String) (entries : List (String × String))
    (value : String × String → Progress) (recorded : Path → Option Progress) : Prop :=
  ∀ dir progress, recorded dir = some progress ↔
    ∃ e ∈ entries, Goes l mangaID e dir ∧ progress = value e

section Runs

variable {owner mangaID : String} {stateDir : Path} {first disk : Disk}
  {recorded : Path → Option Progress} {lastRead : String} {value : String × String → Progress}
  {done : List (String × String)}

theorem Records.update (records : Records l mangaID done value recorded) {e : String × String}
    {dir : Path} (goes : Goes l mangaID e dir)
    (agrees : ∀ other ∈ done, Goes l mangaID other dir → value other = value e) :
    Records l mangaID (done ++ [e]) value (Function.update recorded dir (some (value e))) := by
  intro q progress
  by_cases here : q = dir
  · subst here
    rw [Function.update_self, Option.some.injEq]
    constructor
    · rintro rfl
      exact ⟨e, List.mem_append_right _ (List.mem_singleton_self e), goes, rfl⟩
    · rintro ⟨other, member, otherGoes, rfl⟩
      rcases List.mem_append.mp member with earlier | same
      · exact (agrees other earlier otherGoes).symm
      · rw [List.mem_singleton.mp same]
  · rw [Function.update_of_ne here, records]
    constructor
    · rintro ⟨other, member, rest⟩
      exact ⟨other, List.mem_append_left _ member, rest⟩
    · rintro ⟨other, member, otherGoes, same⟩
      rcases List.mem_append.mp member with earlier | isNew
      · exact ⟨other, earlier, otherGoes, same⟩
      · rw [List.mem_singleton.mp isNew] at otherGoes
        exact absurd (Except.ok.inj (otherGoes.symm.trans goes)) here

/-- The chapters can be found, and their progress can be written. -/
structure Ready (l : Layout) (mangaID : String) (stateDir : Path) (first : Disk) : Prop where
  keeps : l.toLower ".json" = ".json"
  located : l.mangaDir mangaID = .ok stateDir
  userState : (l.getUserState first mangaID).isSome
  directory : first.find stateDir = some .directory

/-- There is a manifest where the progress of the entry goes to. -/
def Reaches (l : Layout) (mangaID : String) (first : Disk) (e : String × String) : Prop :=
  ∃ dir, Goes l mangaID e dir ∧ readable first dir

variable (ready : Ready l mangaID stateDir first) (progress : Progress) (now : Time)

include ready in
theorem each_saveProgress (evolved : Recorded l mangaID stateDir first disk recorded lastRead)
    (records : Records l mangaID done (fun _ => progress) recorded) (providerID : String)
    (chapterIDs : List String)
    (reaches : ∀ chapterID ∈ chapterIDs, Reaches l mangaID first (chapterID, providerID)) :
    ∃ disk' recorded',
      each (l.saveProgress mangaID providerID progress.isRead progress.lastReadPage now)
        (chapterIDs.map l.sanitizeID) disk = (disk', true) ∧
      Recorded l mangaID stateDir first disk' recorded' lastRead ∧
      Records l mangaID (done ++ chapterIDs.map (·, providerID)) (fun _ => progress) recorded' := by
  induction chapterIDs generalizing disk recorded done with
  | nil => exact ⟨disk, recorded, rfl, evolved, by simpa using records⟩
  | cons chapterID chapterIDs induction =>
      rcases reaches chapterID List.mem_cons_self with ⟨dir, goes, isReadable⟩
      rcases evolved.saveProgress ready.keeps ready.located ready.userState ready.directory goes
        isReadable progress now with ⟨disk₁, saved, evolved₁⟩
      have records₁ := records.update goes fun _ _ _ => rfl
      rcases induction evolved₁ records₁ fun other member =>
        reaches other (List.mem_cons_of_mem _ member) with ⟨disk₂, recorded₂, rest, evolved₂, records₂⟩
      refine ⟨disk₂, recorded₂, ?_, evolved₂, by simpa using records₂⟩
      rw [List.map_cons, each, saved]
      exact rest

include ready in
theorem batchUpdateChapterProgress_recorded (sanitized : mangaID = l.sanitizeID owner)
    (evolved : Recorded l mangaID stateDir first disk recorded lastRead)
    (records : Records l mangaID done (fun _ => progress) recorded) (providerID : String)
    {chapterIDs : List String} (filled : chapterIDs ≠ [])
    (reaches : ∀ chapterID ∈ chapterIDs, Reaches l mangaID first (chapterID, providerID)) :
    ∃ disk' recorded',
      l.batchUpdateChapterProgress owner providerID chapterIDs progress.isRead progress.lastReadPage
        now disk = (disk', true) ∧
      Recorded l mangaID stateDir first disk' recorded'
        (l.sanitizeID (chapterIDs.getLast filled)) ∧
      Records l mangaID (done ++ chapterIDs.map (·, providerID)) (fun _ => progress) recorded' := by
  rcases each_saveProgress ready progress now evolved records providerID chapterIDs reaches with
    ⟨disk₁, recorded₁, saved, evolved₁, records₁⟩
  rcases evolved₁.saveLastRead ready.located ready.userState ready.directory
    (l.sanitizeID (chapterIDs.getLast filled)) now with ⟨disk₂, read, evolved₂⟩
  refine ⟨disk₂, recorded₁, ?_, evolved₂, records₁⟩
  have last : (chapterIDs.map l.sanitizeID).getLast? =
      some (l.sanitizeID (chapterIDs.getLast filled)) := by
    rw [List.getLast?_map, List.getLast?_eq_getLast_of_ne_nil filled, Option.map_some]
  simp only [Layout.batchUpdateChapterProgress, ← sanitized, saved, last, read]

include ready in
/-- The groups are recorded one after the other, whatever order they come in. -/
theorem each_group_recorded (sanitized : mangaID = l.sanitizeID owner)
    (evolved : Recorded l mangaID stateDir first disk recorded lastRead)
    (records : Records l mangaID done (fun _ => progress) recorded)
    {groups : List (String × List String)} (filled : ∀ group ∈ groups, group.2 ≠ [])
    (reaches : ∀ group ∈ groups, ∀ chapterID ∈ group.2,
      Reaches l mangaID first (chapterID, group.1)) :
    ∃ disk' recorded' lastRead',
      each (fun group => l.batchUpdateChapterProgress owner group.1 group.2 progress.isRead
        progress.lastReadPage now) groups disk = (disk', true) ∧
      Recorded l mangaID stateDir first disk' recorded' lastRead' ∧
      Records l mangaID (done ++ groups.flatMap fun group => group.2.map (·, group.1))
        (fun _ => progress) recorded' ∧
      (groups = [] → lastRead' = lastRead) ∧
      ∀ group ∈ groups.getLast?, ∀ chapterID ∈ group.2.getLast?, lastRead' = l.sanitizeID chapterID := by
  induction groups generalizing disk recorded lastRead done with
  | nil => exact ⟨disk, recorded, lastRead, rfl, evolved, by simpa using records, fun _ => rfl, by simp⟩
  | cons group groups induction =>
      rcases group with ⟨providerID, chapterIDs⟩
      have someIDs : chapterIDs ≠ [] := filled _ List.mem_cons_self
      rcases batchUpdateChapterProgress_recorded ready progress now sanitized evolved records
        providerID someIDs (reaches _ List.mem_cons_self) with ⟨disk₁, recorded₁, saved, evolved₁, records₁⟩
      rcases induction evolved₁ records₁
        (fun other member => filled other (List.mem_cons_of_mem _ member))
        (fun other member => reaches other (List.mem_cons_of_mem _ member)) with
          ⟨disk₂, recorded₂, last₂, rest, evolved₂, records₂, kept, ended⟩
      refine ⟨disk₂, recorded₂, last₂, ?_, evolved₂, by simpa using records₂, nofun, ?_⟩
      · rw [each]
        simp only [saved]
        exact rest
      · intro last isLast chapterID isLastID
        cases groups with
        | nil =>
            cases isLast
            have isLastID : chapterID ∈ chapterIDs.getLast? := isLastID
            rw [kept rfl]
            rw [List.getLast?_eq_getLast_of_ne_nil someIDs] at isLastID
            cases isLastID
            rfl
        | cons next groups =>
            rw [List.getLast?_cons_cons] at isLast
            exact ended last isLast chapterID isLastID

/-- What a single request makes of the progress of a chapter. -/
def patchedProgress (l : Layout) (owner : String) (req : ProgressPatch) (first : Disk)
    (e : String × String) : Progress :=
  patched req (((findChapter l first owner e.1).map (progressOf ·.1)).getD ⟨false, 0⟩)

theorem patched_patched (req : ProgressPatch) (progress : Progress) :
    patched req (patched req progress) = patched req progress := by
  cases req with
  | mk isRead lastReadPage => cases isRead <;> cases lastReadPage <;> rfl

/-- Entries that share a manifest are given the same. -/
def Consistent (l : Layout) (owner : String) (req : ProgressPatch) (first : Disk)
    (entries : List (String × String)) : Prop :=
  ∀ e ∈ entries, ∀ other ∈ entries, ∀ dir, Goes l (l.sanitizeID owner) other dir →
    (Goes l (l.sanitizeID owner) e dir ∨ ∃ found ∈ l.findChapter first owner e.1,
      l.providerChapterDir owner found.2 e.1 = .ok dir) →
    patchedProgress l owner req first other = patchedProgress l owner req first e

variable {req : ProgressPatch}

include ready in
theorem patchEach_recorded (sanitized : mangaID = l.sanitizeID owner)
    (written : ∀ (dir : Path) stored,
      first.readFile (dir ++ ["meta.json"]) = some (.chapter stored) → stored.saved = stored)
    {entries : List (String × String)} (consistent : Consistent l owner req first entries)
    (found : ∀ e ∈ entries, ∃ chMeta, findChapter l first owner e.1 = some (chMeta, e.2))
    (reaches : ∀ e ∈ entries, Reaches l mangaID first e)
    (evolved : Recorded l mangaID stateDir first disk recorded lastRead)
    (records : Records l mangaID done (patchedProgress l owner req first) recorded)
    {requests : List (String × ChapterWorld)} {pending : List (String × String)}
    (same : requests.map (·.1) = pending.map (·.1)) (all : entries = done ++ pending) :
    ∃ recorded', Recorded l mangaID stateDir first (patchEach l owner req requests disk) recorded'
        (((requests.getLast?).map fun request => l.sanitizeID request.1).getD lastRead) ∧
      Records l mangaID entries (patchedProgress l owner req first) recorded' := by
  induction requests generalizing disk recorded lastRead done pending with
  | nil =>
      obtain rfl : pending = [] := List.map_eq_nil_iff.mp same.symm
      rw [List.append_nil] at all
      subst all
      exact ⟨recorded, evolved, records⟩
  | cons request requests induction =>
      rcases request with ⟨chapterID, w⟩
      cases pending with
      | nil => simp at same
      | cons e pending =>
      rcases e with ⟨id, providerID⟩
      rw [List.map_cons, List.map_cons, List.cons.injEq] at same
      rcases same with ⟨sameID, same⟩
      obtain rfl : chapterID = id := sameID
      have member : (chapterID, providerID) ∈ entries := by simp [all]
      rcases found _ member with ⟨existing, named⟩
      rcases reaches _ member with ⟨dir, goes, isReadable⟩
      rcases Option.map_eq_some_iff.mp named with ⟨⟨stored, foundID⟩, located, _⟩
      rcases evolved.findChapter ready.located ready.userState written located named with
        ⟨now, source, isSource, finds, progress⟩
      have given : patched req (progressOf now) =
          patchedProgress l owner req first (chapterID, providerID) := by
        have own : patchedProgress l owner req first (chapterID, providerID) =
            patched req (progressOf existing) := by
          rw [patchedProgress, named]
          rfl
        rw [progress]
        cases isRecorded : recorded source with
        | none => exact own.symm
        | some earlier =>
            rcases (records source earlier).mp isRecorded with ⟨other, isDone, otherGoes, rfl⟩
            have isEntry : other ∈ entries := by simp [all, isDone]
            rw [Option.getD_some, consistent _ member other isEntry source (sanitized ▸ otherGoes)
              (.inr ⟨_, located, isSource⟩), own, patched_patched]
      rcases evolved.saveProgress ready.keeps ready.located ready.userState ready.directory goes
        isReadable (patched req (progressOf now)) w.now with ⟨disk₁, saved, evolved₁⟩
      rcases evolved₁.saveLastRead ready.located ready.userState ready.directory
        (l.sanitizeID chapterID) w.now with ⟨disk₂, read, evolved₂⟩
      have answered : (patchChapterProgress l w owner chapterID req disk).disk = disk₂ := by
        have saved : l.saveProgress mangaID providerID (req.isRead.getD now.isRead)
            (req.lastReadPage.getD now.lastReadPage) w.now (l.sanitizeID chapterID) disk =
          (disk₁, true) := saved
        simp only [patchChapterProgress, finds, Layout.updateChapterProgress, ← sanitized, saved,
          read, ofResult]
      rw [given] at evolved₂
      have agrees : ∀ other ∈ done, Goes l mangaID other dir → patchedProgress l owner req first other =
          patchedProgress l owner req first (chapterID, providerID) := fun other isDone otherGoes =>
        consistent _ member other (by simp [all, isDone]) dir (sanitized ▸ otherGoes)
          (.inl (sanitized ▸ goes))
      rcases induction evolved₂ (records.update goes agrees) same (by simp [all]) with
        ⟨recorded', evolved', records'⟩
      refine ⟨recorded', ?_, records'⟩
      rw [patchEach, answered]
      cases requests with
      | nil => exact evolved'
      | cons next requests =>
          rw [List.getLast?_cons_cons]
          have isSome : ((next :: requests).getLast?).isSome := by simp
          rcases Option.isSome_iff_exists.mp isSome with ⟨last, isLast⟩
          rw [isLast] at evolved' ⊢
          exact evolved'

end Runs

/-! ## The comparison -/

section Comparison

variable {owner mangaID : String} {stateDir : Path} {first left right : Disk}

theorem Recorded.sameReading {recorded : Path → Option Progress} {lastRead : String}
    (onLeft : Recorded l (l.sanitizeID owner) stateDir first left recorded lastRead)
    (onRight : Recorded l (l.sanitizeID owner) stateDir first right recorded lastRead) :
    SameReading l owner left right where
  manifests dir := by
    cases isRecorded : recorded dir with
    | none => rw [onLeft.readFile isRecorded, onRight.readFile isRecorded]
    | some progress =>
        rcases onLeft.manifest dir progress isRecorded with ⟨stored, now, before, leftHolds⟩
        rcases onRight.manifest dir progress isRecorded with ⟨same, time, again, rightHolds⟩
        cases before.symm.trans again
        rw [leftHolds, rightHolds]
        rfl
  lastRead := by
    rcases onLeft.lastRead with ⟨u, leftReads, rfl⟩
    rcases onRight.lastRead with ⟨u', rightReads, same⟩
    rw [leftReads, rightReads, Option.map_some, Option.map_some, same]

/-- What is recorded can be read off the manifest. -/
theorem progress_of_sameReading {recorded recorded' : Path → Option Progress}
    {lastRead lastRead' : String} (same : SameReading l owner left right)
    (onLeft : Recorded l mangaID stateDir first left recorded lastRead)
    (onRight : Recorded l mangaID stateDir first right recorded' lastRead') {dir : Path}
    {progress progress' : Progress} (leftRecorded : recorded dir = some progress)
    (rightRecorded : recorded' dir = some progress') : progress = progress' := by
  rcases onLeft.manifest dir progress leftRecorded with ⟨stored, now, before, leftHolds⟩
  rcases onRight.manifest dir progress' rightRecorded with ⟨stored', now', before', rightHolds⟩
  have equal := same.manifests dir
  rw [leftHolds, rightHolds] at equal
  simp only [untimed, Option.some.injEq, Document.chapter.injEq] at equal
  have sameRead := congrArg ChapterMeta.isRead equal
  have samePage := congrArg ChapterMeta.lastReadPage equal
  cases progress
  cases progress'
  exact congrArg₂ Progress.mk sameRead samePage

theorem findChapter_congr (disk : Disk) {chapterID other : String}
    (same : l.sanitizeID chapterID = l.sanitizeID other) :
    l.findChapter disk owner chapterID = l.findChapter disk owner other := by
  simp only [Layout.findChapter, Layout.getChapter, Layout.providerChapterDir, same]

theorem findAll_ids {disk : Disk} {chapterIDs : List String} {entries : List (String × String)}
    (all : findAll l disk owner chapterIDs = some entries) : entries.map (·.1) = chapterIDs := by
  induction chapterIDs generalizing entries with
  | nil =>
      cases all
      rfl
  | cons chapterID chapterIDs induction =>
      rw [findAll, List.mapM_cons] at all
      rcases Option.bind_eq_some_iff.mp all with ⟨e, found, all⟩
      rcases Option.bind_eq_some_iff.mp all with ⟨others, rest, all⟩
      cases all
      rcases Option.map_eq_some_iff.mp found with ⟨own, _, rfl⟩
      rw [List.map_cons, induction rest]

theorem findAll_isSome {disk : Disk} {chapterIDs : List String}
    (existing : ∀ chapterID ∈ chapterIDs, (findChapter l disk owner chapterID).isSome) :
    ∃ entries, findAll l disk owner chapterIDs = some entries := by
  induction chapterIDs with
  | nil => exact ⟨[], rfl⟩
  | cons chapterID chapterIDs induction =>
      rcases Option.isSome_iff_exists.mp (existing chapterID List.mem_cons_self) with ⟨own, found⟩
      rcases induction fun other member => existing other (List.mem_cons_of_mem _ member) with
        ⟨entries, rest⟩
      refine ⟨(chapterID, own.2) :: entries, ?_⟩
      rw [findAll, List.mapM_cons, found]
      rw [findAll] at rest
      simp [rest]

theorem consistent_of_separate {req : ProgressPatch} {chapterIDs : List String}
    {entries : List (String × String)} (separate : Separate l owner chapterIDs first)
    (ids : entries.map (·.1) = chapterIDs)
    (found : ∀ e ∈ entries, ∃ chMeta, findChapter l first owner e.1 = some (chMeta, e.2)) :
    Consistent l owner req first entries := by
  intro e member other isOther dir goes shares
  rcases found e member with ⟨own, named⟩
  rcases found other isOther with ⟨chMeta, namedToo⟩
  rcases Option.map_eq_some_iff.mp named with ⟨⟨stored, foundID⟩, located, _⟩
  have isID : ∀ e ∈ entries, e.1 ∈ chapterIDs := fun e member => ids ▸ List.mem_map_of_mem member
  have same : l.sanitizeID other.1 = l.sanitizeID e.1 := by
    refine separate e.1 (isID e member) other.1 (isID other isOther) _ located _ named _ namedToo dir
      goes ?_
    rcases shares with goesToo | ⟨place, isPlace, isSource⟩
    · exact .inr goesToo
    · rw [located] at isPlace
      cases isPlace
      exact .inl isSource
  rw [patchedProgress, patchedProgress, findChapter, findChapter, findChapter_congr first same]

theorem patchedProgress_of_named {req : ProgressPatch} {chapterIDs : List String}
    {entries : List (String × String)} (names : NamesProgress l owner chapterIDs req first)
    (ids : entries.map (·.1) = chapterIDs)
    (found : ∀ e ∈ entries, ∃ chMeta, findChapter l first owner e.1 = some (chMeta, e.2)) :
    ∀ e ∈ entries, patchedProgress l owner req first e = patched req ⟨false, 0⟩ := by
  intro e member
  rcases found e member with ⟨existing, named⟩
  rw [patchedProgress, named]
  exact names e.1 (ids ▸ List.mem_map_of_mem member) _ named

variable {req : ProgressPatch} {chapterIDs : List String} {w : ChapterWorld}
  {requests : List (String × ChapterWorld)}
  {visit : List (String × List String) → List (String × List String)}

/-- Both runs in terms of what they record. -/
theorem batch_and_singles (keeps : l.toLower ".json" = ".json")
    (visits : ∀ groups, (visit groups).Perm groups)
    (existing : ∀ chapterID ∈ chapterIDs, (findChapter l first owner chapterID).isSome)
    (unhindered : Unhindered l owner chapterIDs first) (filled : chapterIDs ≠ [])
    (ids : requests.map (·.1) = chapterIDs) :
    ∃ entries stateDir recorded lastRead,
      findAll l first owner chapterIDs = some entries ∧
      (∀ e ∈ entries, ∃ dir, Goes l (l.sanitizeID owner) e dir) ∧
      Recorded l (l.sanitizeID owner) stateDir first
        (patchChaptersProgressBatchIn l visit w owner chapterIDs req first).disk recorded lastRead ∧
      Records l (l.sanitizeID owner) entries (fun _ => patched req ⟨false, 0⟩) recorded ∧
      (∀ group ∈ (visit (byProvider entries)).getLast?, ∀ chapterID ∈ group.2.getLast?,
        lastRead = l.sanitizeID chapterID) ∧
      (Consistent l owner req first entries → ∃ recorded' e,
        Recorded l (l.sanitizeID owner) stateDir first (patchEach l owner req requests first) recorded'
          (l.sanitizeID e.1) ∧
        Records l (l.sanitizeID owner) entries (patchedProgress l owner req first) recorded' ∧
        entries.getLast? = some e) := by
  rcases findAll_isSome existing with ⟨entries, all⟩
  have sameIDs := findAll_ids all
  have found : ∀ e ∈ entries, ∃ chMeta, findChapter l first owner e.1 = some (chMeta, e.2) :=
    fun e member => (mem_findAll all member).2
  have located : ∃ stateDir, l.mangaDir (l.sanitizeID owner) = .ok stateDir := by
    have readable := unhindered.userState
    cases located : l.mangaDir (l.sanitizeID owner) with
    | error _ => simp [Layout.getUserState, located] at readable
    | ok stateDir => exact ⟨stateDir, rfl⟩
  rcases located with ⟨stateDir, located⟩
  have ready : Ready l (l.sanitizeID owner) stateDir first :=
    ⟨keeps, located, unhindered.userState, unhindered.directory stateDir located⟩
  have reaches : ∀ e ∈ entries, Reaches l (l.sanitizeID owner) first e := by
    intro e member
    rcases found e member with ⟨chMeta, named⟩
    exact Layout.getChapter_isSome_iff.mp (unhindered.targets e.1 (mem_findAll all member).1 _ named)
  rcases Option.isSome_iff_exists.mp unhindered.userState with ⟨u, read⟩
  have start : Recorded l (l.sanitizeID owner) stateDir first first (fun _ => none)
      u.lastReadChapterID :=
    ⟨fun _ _ impossible => by contradiction, fun _ _ _ => rfl, u, read, rfl⟩
  have nothing : ∀ value, Records l (l.sanitizeID owner) [] value (fun _ => none) := by
    intro value dir progress
    simp
  have grouped := groups_byProvider entries
  have sameGroups : ∀ group, group ∈ visit (byProvider entries) ↔ group ∈ byProvider entries :=
    fun group => (visits _).mem_iff
  have someIDs : ∀ group ∈ visit (byProvider entries), group.2 ≠ [] := fun group member =>
    byProvider_filled entries group ((sameGroups group).mp member)
  rcases each_group_recorded ready (patched req ⟨false, 0⟩) w.now rfl start (nothing _) someIDs
    (fun group member chapterID inGroup =>
      reaches _ (mem_byProvider ((sameGroups group).mp member) inGroup)) with
    ⟨disk', recorded, lastRead, ran, evolved, records, _, last⟩
  have goes : ∀ e ∈ entries, ∃ dir, Goes l (l.sanitizeID owner) e dir := fun e member => by
    rcases reaches e member with ⟨dir, goes, _⟩
    exact ⟨dir, goes⟩
  refine ⟨entries, stateDir, recorded, lastRead, all, goes, ?_, ?_, last, fun consistent => ?_⟩
  · have answered : (patchChaptersProgressBatchIn l visit w owner chapterIDs req first).disk =
        disk' := by
      have some : ¬ (owner = "" ∨ chapterIDs = []) := not_or.mpr ⟨unhindered.named, filled⟩
      rw [patchChaptersProgressBatchIn, if_neg some, all]
      exact congrArg Prod.fst ran
    rw [answered]
    exact evolved
  · intro dir progress
    rw [records]
    refine exists_congr fun e => and_congr_left fun _ => ?_
    rw [List.nil_append, List.mem_flatMap]
    constructor
    · rintro ⟨group, member, inGroup⟩
      rcases List.mem_map.mp inGroup with ⟨chapterID, isIn, rfl⟩
      exact mem_byProvider ((sameGroups group).mp member) isIn
    · intro member
      rcases List.mem_map.mp (grouped.all e member) with ⟨group, isGroup, key⟩
      refine ⟨group, (sameGroups group).mpr isGroup, List.mem_map.mpr ⟨e.1, ?_, ?_⟩⟩
      · rw [grouped.own group isGroup]
        exact List.mem_map_of_mem (List.mem_filter.mpr ⟨member, by simp [key]⟩)
      · rw [key]
  · rcases patchEach_recorded ready rfl unhindered.written consistent found reaches start (nothing _)
      (ids.trans sameIDs.symm) (List.nil_append entries).symm with ⟨recorded', evolved', records'⟩
    have some : entries ≠ [] := by
      rintro rfl
      exact filled sameIDs.symm
    refine ⟨recorded', entries.getLast some, ?_, records', List.getLast?_eq_getLast_of_ne_nil some⟩
    have lastRequest : (requests.getLast?).map (fun request => l.sanitizeID request.1) =
        Option.some (l.sanitizeID (entries.getLast some).1) := by
      have same : (requests.getLast?).map (·.1) = entries.getLast?.map (·.1) := by
        rw [← List.getLast?_map, ← List.getLast?_map, ids, sameIDs]
      rw [List.getLast?_eq_getLast_of_ne_nil some, Option.map_some] at same
      rcases Option.map_eq_some_iff.mp same with ⟨request, isLast, sameID⟩
      rw [isLast, Option.map_some, sameID]
    rw [lastRequest] at evolved'
    exact evolved'

end Comparison

/-! ## One chapter -/

/-- A chapter that has been read. -/
def finished : ChapterMeta := { ChapterMeta.zero with isRead := true, lastReadPage := 7 }

def finishedDisk : Disk := FileTree.ofEntries
  [(["library", "m", "p", "c", "meta.json"], .file (.chapter finished)),
    (["library", "m", "p", "c"], .directory), (["library", "m", "p"], .directory),
    (["library", "m"], .directory), (["library"], .directory)] rfl

def idleWorld : ChapterWorld where
  now := Time.zero
  hasContent _ := true
  isAvailable _ := true
  fetchChapters _ _ := none
  hasQueue := true
  takesJob _ := true

theorem findChapter_finished :
    findChapter libraryLayout finishedDisk "m" "c" = some (finished, "p") := by
  decide +kernel

theorem unhindered_finished : Unhindered libraryLayout "m" ["c"] finishedDisk where
  named := by decide
  written dir stored found := by
    rw [FileTree.readFile_eq_some, FileTree.find, Entries.find, if_neg (by simp)] at found
    have listed := Entries.mem_of_lookup found
    simp only [finishedDisk, FileTree.ofEntries, List.mem_cons, Prod.mk.injEq, Node.file.injEq,
      Document.chapter.injEq, reduceCtorEq, and_false, List.not_mem_nil, or_false] at listed
    rw [listed.2]
    rfl
  targets chapterID member found isFound := by
    rw [List.mem_singleton.mp member] at isFound ⊢
    rw [findChapter_finished] at isFound
    cases isFound
    decide +kernel
  directory dir located := by
    have isDir : libraryLayout.mangaDir (libraryLayout.sanitizeID "m") = .ok ["library", "m"] := by
      decide +kernel
    cases isDir.symm.trans located
    decide +kernel
  userState := by decide +kernel

end Kiyomi.Api
