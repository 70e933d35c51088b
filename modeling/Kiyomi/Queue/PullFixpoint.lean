import Kiyomi.Queue.PullCompleteness
import Kiyomi.Queue.PullManifests

namespace Kiyomi.Queue

open Go Library

/-! # Pulling a manga twice

A run recognises a chapter when `ListChapters` shows its upstream id, and what that shows are
the names of directories. After a run that succeeded every upstream id leads to a chapter that
can be read, so the next run has nothing to save exactly if each id is also the name of a
directory there: one from before, or one that the run makes. -/

/-- The action begins a run. -/
def PullAction.enters : PullAction → Bool
  | .start _ | .startFails => true
  | _ => false

/-- A `pull_chapter` job. -/
def ChildJob.isPull (child : ChildJob) : Bool := child.payload matches .pullChapter _

namespace PullManga

variable {l : Layout} {payload : PullMangaPayload} {upstream : List Chapter}
  {before disk disk' : Disk} {s s' : PullManga} {action : PullAction}

/-- `ListChapters` shows the id. -/
def listed (l : Layout) (payload : PullMangaPayload) (disk : Disk) (id : String) : Bool :=
  match l.listChapters disk payload.mangaID [payload.providerID] with
  | .error _ => false
  | .ok existing => (existing.map ChapterInfo.id).contains id

theorem listed_iff {mDir : Path} (located : l.mangaDir payload.mangaID = .ok mDir) {id : String} :
    listed l payload disk id = true ↔
      disk.find (join mDir [payload.providerID] ++ [id]) = some .directory ∧
        present l payload disk id = true := by
  simp only [listed, Layout.listChapters, located, List.flatMap_singleton, List.contains_eq_mem,
    decide_eq_true_eq, List.mem_map, List.mem_insertionSort, Layout.listProvider,
    List.mem_filterMap, present]
  constructor
  · intro found
    rcases found with ⟨info, ⟨name, _, shown⟩, rfl⟩
    split at shown
    · rename_i isDirectory
      rcases Option.map_eq_some_iff.mp shown with ⟨chMeta, read, rfl⟩
      exact ⟨isDirectory, by rw [read]; rfl⟩
    · contradiction
  · intro found
    rcases found with ⟨isDirectory, isIn⟩
    rcases Option.isSome_iff_exists.mp isIn with ⟨chMeta, read⟩
    have providerDirectory := FileTree.parent isDirectory
    rcases Option.isSome_iff_exists.mp (FileTree.readDir_isSome.mpr providerDirectory)
      with ⟨names, entries⟩
    refine ⟨_, ⟨id, ?_, by rw [if_pos isDirectory, read]; rfl⟩, rfl⟩
    rw [entries, Option.getD_some, FileTree.mem_readDir entries]
    exact ⟨_, isDirectory⟩

theorem contains_of_listChapters {existing : List ChapterInfo}
    (listing : l.listChapters disk payload.mangaID [payload.providerID] = .ok existing)
    (id : String) : (existing.map ChapterInfo.id).contains id = listed l payload disk id := by
  simp only [listed, listing]

/-- A state of one run of the job on this disk. -/
def InRun (l : Layout) (jobID : String) (payload : PullMangaPayload) (upstream : List Chapter)
    (before : Disk) (s : PullManga) : Prop :=
  ∃ now entered actions, step l (queued jobID payload upstream before) (.start now) = some entered ∧
    Run (step l) (fun _ action => action.enters = false) entered actions s

/-- The run returns without an error. -/
def Succeeds (l : Layout) (jobID : String) (payload : PullMangaPayload) (upstream : List Chapter)
    (before : Disk) (s : PullManga) : Prop :=
  InRun l jobID payload upstream before s ∧ s.point = .returned true

/-- The next step is `SaveChapter`. -/
def saving (s : PullManga) : Bool :=
  match s.point with
  | .loop existing (ch :: _) => !existing.contains ch.id
  | _ => false

/-- The run saves no chapter, makes no `pull_chapter` job and keeps every manifest. -/
structure LeavesChapters (disk : Disk) (s : PullManga) : Prop where
  saving : s.saving = false
  created : ∀ child ∈ s.created, child.isPull = false
  enqueued : ∀ child ∈ s.enqueued, child.isPull = false
  manifests : ∀ dir, s.disk.readFile (dir ++ ["meta.json"]) = disk.readFile (dir ++ ["meta.json"])

/-- Whatever job pulls the list next. -/
def Fixpoint (l : Layout) (payload : PullMangaPayload) (upstream : List Chapter) (disk : Disk) :
    Prop :=
  ∀ jobID s, InRun l jobID payload upstream disk s → LeavesChapters disk s

/-! ## The directories that a run makes -/

/-- On the way to the directory of an unlisted chapter, or to that of the manga for the claim. -/
def Makes (l : Layout) (payload : PullMangaPayload) (before : Disk) (chapters : List Chapter)
    (claims : Prop) (path : Path) : Prop :=
  (∃ ch ∈ chapters, listed l payload before ch.id = false ∧
    ∃ dir, l.providerChapterDir payload.mangaID payload.providerID ch.id = .ok dir ∧
      path <+: dir) ∨
  claims ∧ ∃ mDir, l.mangaDir payload.mangaID = .ok mDir ∧ path <+: mDir

/-- Every upstream id that is not listed is the name of a directory where `ListChapters` will
look: one that is there already or one that the run makes. -/
def GivenBack (l : Layout) (payload : PullMangaPayload) (upstream : List Chapter) (before : Disk) :
    Prop :=
  ∀ ch ∈ upstream, listed l payload before ch.id = false →
    ∀ mDir, l.mangaDir payload.mangaID = .ok mDir →
      before.find (join mDir [payload.providerID] ++ [ch.id]) = some .directory ∨
        Makes l payload before upstream (payload.coverURL ≠ "")
          (join mDir [payload.providerID] ++ [ch.id])

theorem directory_mkdirAll {path : Path} (created : disk.mkdirAll path = some disk') (q : Path) :
    disk'.find q = some .directory ↔ disk.find q = some .directory ∨ q <+: path := by
  rw [FileTree.find_mkdirAll created]
  split
  · simp_all
  · simp_all

theorem directory_writeFile {dir : Path} {name : String} {content : Document}
    (written : disk.writeFile dir name content = some disk') (q : Path) :
    disk'.find q = some .directory ↔ disk.find q = some .directory := by
  rw [FileTree.find_put written]
  split
  · rename_i same
    subst same
    simp [(FileTree.put_allowed written).2]
  · rfl

/-- What a run has done to the disk after a first part of the list. -/
structure Pulled (l : Layout) (payload : PullMangaPayload) (before : Disk)
    (done : List Chapter) (claims : Prop) (disk : Disk) : Prop where
  directories : ∀ path, disk.find path = some .directory ↔
    before.find path = some .directory ∨ Makes l payload before done claims path
  chapters : ∀ ch ∈ done, listed l payload before ch.id = false →
    present l payload disk ch.id = true
  kept : ∀ dir, readable before dir → readable disk dir

theorem pulled_nil : Pulled l payload before [] False before where
  directories := by simp [Makes]
  chapters := by simp
  kept := fun _ found => found

theorem Pulled.skip {done : List Chapter} {claims : Prop}
    (pulled : Pulled l payload before done claims disk) {ch : Chapter}
    (known : listed l payload before ch.id = true) :
    Pulled l payload before (done ++ [ch]) claims disk := by
  refine ⟨fun path => ?_, fun other member new => ?_, pulled.kept⟩
  · rw [pulled.directories]
    simp only [Makes, List.mem_append, List.mem_singleton, or_and_right, exists_or, exists_eq_left,
      known, Bool.true_eq_false, false_and, or_false]
  · rcases List.mem_append.mp member with earlier | last
    · exact pulled.chapters other earlier new
    · rw [List.mem_singleton.mp last, known] at new
      contradiction

theorem Pulled.save {done : List Chapter} {claims : Prop}
    (pulled : Pulled l payload before done claims disk) {ch : Chapter} {chMeta : ChapterMeta}
    (new : listed l payload before ch.id = false)
    (saved : l.saveChapter disk payload.mangaID payload.providerID ch.id chMeta = some disk') :
    Pulled l payload before (done ++ [ch]) claims disk' := by
  rcases Layout.readable_saveChapter saved with ⟨dir, located, changed⟩
  have stays : ∀ id, present l payload disk id = true → present l payload disk' id = true := by
    intro id isIn
    rcases Layout.getChapter_isSome_iff.mp isIn with ⟨own, ownLocated, found⟩
    exact Layout.getChapter_isSome_iff.mpr ⟨own, ownLocated, (changed own).mpr (.inr found)⟩
  refine ⟨fun path => ?_, fun other member fresh => ?_,
    fun own found => (changed own).mpr (.inr (pulled.kept own found))⟩
  · simp only [Layout.saveChapter, located] at saved
    rcases Option.bind_eq_some_iff.mp saved with ⟨middle, made, written⟩
    rw [directory_writeFile written, directory_mkdirAll made, pulled.directories]
    simp only [Makes, List.mem_append, List.mem_singleton, or_and_right, exists_or, exists_eq_left,
      new, true_and, located, Except.ok.injEq, exists_eq_left']
    rw [or_assoc, or_right_comm]
  · rcases List.mem_append.mp member with earlier | last
    · exact stays other.id (pulled.chapters other earlier fresh)
    · rw [List.mem_singleton.mp last]
      exact Layout.getChapter_isSome_iff.mpr ⟨dir, located, (changed dir).mpr (.inl rfl)⟩

/-- A step that keeps the chapters and has no directories but those of the claim. -/
theorem Pulled.beside {done : List Chapter} {claims claims' : Prop}
    (pulled : Pulled l payload before done claims disk) (same : SameChapters disk disk')
    (directories : ∀ path, disk'.find path = some .directory ↔
      before.find path = some .directory ∨ Makes l payload before done claims' path) :
    Pulled l payload before done claims' disk' where
  directories := directories
  chapters := fun ch member new => by
    rw [present_congr same]
    exact pulled.chapters ch member new
  kept := fun dir found => (same dir).mpr (pulled.kept dir found)

theorem Pulled.claim {done : List Chapter} {claims : Prop}
    (pulled : Pulled l payload before done False disk) (claiming : claims) {claimed : Bool}
    (result : l.claimCoverEnqueue disk payload.mangaID = some (claimed, disk')) :
    Pulled l payload before done claims disk' := by
  apply pulled.beside (sameChapters_claimCover result)
  intro path
  simp only [Layout.claimCoverEnqueue] at result
  split at result
  · contradiction
  · rename_i mDir located
    have made : (disk'.find path = some .directory ↔
        disk.find path = some .directory ∨ path <+: mDir) := by
      split at result
      · rename_i covered
        cases result
        simp only [Layout.hasCover, List.any_eq_true] at covered
        rcases covered with ⟨ext, _, found⟩
        rcases Option.isSome_iff_exists.mp found with ⟨node, found⟩
        have inside := FileTree.parent found
        exact ⟨.inl, fun either => either.elim id (FileTree.directory_above · inside)⟩
      · rcases Option.bind_eq_some_iff.mp result with ⟨middle, made, result⟩
        split at result
        · cases result
          exact directory_mkdirAll made path
        · rcases Option.map_eq_some_iff.mp result with ⟨written, wrote, same⟩
          cases same
          rw [directory_writeFile wrote]
          exact directory_mkdirAll made path
    rw [made, pulled.directories]
    simp only [Makes, claiming, located, Except.ok.injEq, exists_eq_left', true_and, false_and,
      or_false]
    rw [or_assoc]

theorem Pulled.stamp {done : List Chapter} {claims : Prop}
    (pulled : Pulled l payload before done claims disk) {bindings b : MangaBindings}
    {content : ContentSource} (read : l.getBindings disk payload.mangaID = some bindings)
    (bound : bindings.content = some content)
    (saved : l.saveBindings disk payload.mangaID b = some disk') :
    Pulled l payload before done claims disk' := by
  apply pulled.beside (sameChapters_saveBindings saved)
  intro path
  simp only [Layout.getBindings] at read
  simp only [Layout.saveBindings] at saved
  cases located : l.mangaDir payload.mangaID with
  | error refused => simp [located] at saved
  | ok mDir =>
      simp only [located] at saved read
      have inside : disk.find mDir = some .directory := by
        simp only [Layout.readConcern] at read
        split at read
        · cases read
          contradiction
        · rcases Option.bind_eq_some_iff.mp read with ⟨document, found, _⟩
          exact FileTree.parent (FileTree.readFile_eq_some.mp found)
      rcases Option.bind_eq_some_iff.mp saved with ⟨middle, made, written⟩
      rw [directory_writeFile written, directory_mkdirAll made, ← pulled.directories]
      exact ⟨fun either => either.elim id (FileTree.directory_above · inside), .inl⟩

/-! ## The first run -/

/-- The run is on its way through the list with the listing that it began with. -/
def Upward (l : Layout) (payload : PullMangaPayload) (upstream : List Chapter) (before disk : Disk)
    (existing : List String) (chapters : List Chapter) : Prop :=
  (∀ id, existing.contains id = listed l payload before id) ∧
    ∃ done, upstream = done ++ chapters ∧ Pulled l payload before done False disk

def PulledTo (l : Layout) (payload : PullMangaPayload) (upstream : List Chapter)
    (before disk : Disk) : PullPoint → Prop
  | .loop existing chapters
  | .creating _ (.nextChapter existing chapters)
  | .enqueuing _ (.nextChapter existing chapters) =>
      Upward l payload upstream before disk existing chapters
  | .coverClaim => Pulled l payload before upstream False disk
  | .creating _ .stampBindings | .enqueuing _ .stampBindings | .bindings | .returned true =>
      Pulled l payload before upstream (payload.coverURL ≠ "") disk
  | .returned false => True

structure Pulling (l : Layout) (payload : PullMangaPayload) (upstream : List Chapter)
    (before : Disk) (s : PullManga) : Prop where
  payloadEq : s.payload = payload
  upstreamEq : s.upstream = upstream
  pulled : PulledTo l payload upstream before s.disk s.point

theorem childFails_returned (resume : PullResume) (released : Bool) :
    (s.childFails l resume released).point = .returned false := by
  cases resume <;> rfl

theorem Pulling.step (pulling : Pulling l payload upstream before s)
    (inside : action.enters = false) (taken : step l s action = some s') :
    Pulling l payload upstream before s' := by
  rcases pulling with ⟨rfl, rfl, pulled⟩
  cases action with
  | start | startFails => simp [PullAction.enters] at inside
  | nextChapter =>
      simp only [PullManga.step] at taken
      split at taken
      · rename_i existing point
        cases taken
        rw [point] at pulled
        rcases pulled with ⟨_, done, parts, pulled⟩
        rw [List.append_nil] at parts
        exact ⟨rfl, rfl, parts ▸ pulled⟩
      · rename_i existing ch chapters point
        rw [point] at pulled
        rcases pulled with ⟨listing, done, parts, pulled⟩
        split at taken
        · rename_i known
          cases taken
          rw [listing] at known
          exact ⟨rfl, rfl, listing, done ++ [ch], by simp [parts], pulled.skip known⟩
        · rename_i unknown
          rw [listing, Bool.not_eq_true] at unknown
          split at taken
          · cases taken
            exact ⟨rfl, rfl, trivial⟩
          · rename_i disk saved
            cases taken
            exact ⟨rfl, rfl, listing, done ++ [ch], by simp [parts], pulled.save unknown saved⟩
      · contradiction
  | createJob =>
      simp only [PullManga.step] at taken
      split at taken
      · rename_i child resume point
        cases taken
        rw [point] at pulled
        exact ⟨rfl, rfl, by cases resume <;> exact pulled⟩
      · contradiction
  | enqueue =>
      simp only [PullManga.step] at taken
      split at taken
      · rename_i child resume point
        cases taken
        rw [point] at pulled
        exact ⟨rfl, rfl, by cases resume <;> exact pulled⟩
      · contradiction
  | claimCover =>
      simp only [PullManga.step] at taken
      split at taken
      · rename_i point
        rw [point] at pulled
        split at taken
        · rename_i coverless
          cases taken
          refine ⟨rfl, rfl, ?_⟩
          simpa only [PulledTo, coverless, ne_eq, not_true_eq_false] using pulled
        · rename_i covered
          split at taken
          · cases taken
            exact ⟨rfl, rfl, trivial⟩
          · rename_i result
            cases taken
            exact ⟨rfl, rfl, pulled.claim covered result⟩
          · rename_i result
            cases taken
            exact ⟨rfl, rfl, pulled.claim covered result⟩
      · contradiction
  | stampBindings =>
      simp only [PullManga.step] at taken
      split at taken
      · rename_i point
        rw [point] at pulled
        split at taken
        · cases taken
          exact ⟨rfl, rfl, trivial⟩
        · rename_i read
          split at taken
          · cases taken
            exact ⟨rfl, rfl, pulled⟩
          · rename_i bound
            split at taken
            · cases taken
              exact ⟨rfl, rfl, trivial⟩
            · rename_i saved
              cases taken
              exact ⟨rfl, rfl, pulled.stamp read bound saved⟩
      · contradiction
  | saveChapterFails dirMade =>
      simp only [PullManga.step] at taken
      split at taken
      · split at taken
        · contradiction
        · cases taken
          exact ⟨rfl, rfl, trivial⟩
      · contradiction
  | createJobFails released | enqueueFails released =>
      simp only [PullManga.step] at taken
      split at taken
      · cases taken
        refine ⟨?_, ?_, by rw [childFails_returned]; trivial⟩ <;>
          simp only [childFails] <;> split <;> rfl
      · contradiction
  | claimCoverFails dirMade =>
      simp only [PullManga.step] at taken
      split at taken
      · split at taken
        · contradiction
        · cases taken
          exact ⟨rfl, rfl, trivial⟩
      · contradiction
  | stampBindingsFails dirMade =>
      simp only [PullManga.step] at taken
      split at taken
      · cases taken
        exact ⟨rfl, rfl, trivial⟩
      · contradiction

theorem start_cases {now : Time} (taken : step l s (.start now) = some s') :
    (∃ existing, s.payload.complete = true ∧
        l.listChapters s.disk s.payload.mangaID [s.payload.providerID] = .ok existing ∧
        s' = { s with now, point := .loop (existing.map ChapterInfo.id) s.upstream }) ∨
      s' = s.fails s.disk := by
  simp only [PullManga.step] at taken
  split at taken
  · split at taken
    · cases taken
      exact .inr rfl
    · rename_i complete
      split at taken
      · cases taken
        exact .inr rfl
      · rename_i existing listing
        cases taken
        have named : s.payload.complete = true := by
          simpa [PullMangaPayload.complete, and_assoc] using complete
        exact .inl ⟨existing, named, listing, rfl⟩
  · contradiction

/-- How a run begins: with the listing, or it has failed already. -/
theorem entered_cases {jobID : String} {now : Time} {entered : PullManga}
    (taken : step l (queued jobID payload upstream before) (.start now) = some entered) :
    (∃ mDir existing, l.mangaDir payload.mangaID = .ok mDir ∧ payload.complete = true ∧
        (∀ id, existing.contains id = listed l payload before id) ∧
        entered =
          { queued jobID payload upstream before with now, point := .loop existing upstream }) ∨
      entered = (queued jobID payload upstream before).fails before := by
  rcases start_cases taken with ⟨existing, complete, listing, same⟩ | same
  · refine .inl ?_
    cases located : l.mangaDir payload.mangaID with
    | error refused => simp [queued, Layout.listChapters, located] at listing
    | ok mDir =>
        exact ⟨mDir, existing.map ChapterInfo.id, rfl, complete, contains_of_listChapters listing,
          same⟩
  · exact .inr same

theorem returned_stays {actions : List PullAction} {last : PullManga}
    (run : Run (step l) (fun _ action => action.enters = false) s actions last)
    (returned : s.point = .returned false) : last.point = .returned false := by
  apply run.invariant fun s => s.point = .returned false
  · intro state action next inside ended taken
    cases action <;> simp_all [PullManga.step, PullAction.enters]
  · exact returned

/-- After a run that succeeded: where the manga is, that the payload is complete, and what is on
the disk. -/
theorem Succeeds.pulled {jobID : String} {last : PullManga}
    (first : Succeeds l jobID payload upstream before last) :
    ∃ mDir, l.mangaDir payload.mangaID = .ok mDir ∧
      payload.complete = true ∧
      Pulled l payload before upstream (payload.coverURL ≠ "") last.disk := by
  rcases first with ⟨⟨now, entered, actions, taken, run⟩, returned⟩
  rcases entered_cases taken with ⟨mDir, existing, located, complete, listing, rfl⟩ | rfl
  · refine ⟨mDir, located, complete, ?_⟩
    have pulling : Pulling l payload upstream before last := by
      apply run.invariant (Pulling l payload upstream before)
      · intro state action next inside pulling taken
        exact pulling.step inside taken
      · exact ⟨rfl, rfl, listing, [], rfl, pulled_nil⟩
    have pulled := pulling.pulled
    rwa [returned] at pulled
  · rw [returned_stays run rfl] at returned
    contradiction

/-! ## The second run -/

/-- Every id ahead is listed, and the child job that waits is not for a chapter. -/
structure Idle (disk : Disk) (s : PullManga) : Prop where
  ahead : ∀ existing chapters, s.point.ahead = some (existing, chapters) →
    ∀ ch ∈ chapters, ch.id ∈ existing
  child : ∀ child, s.point.child = some child → child.isPull = false
  created : ∀ child ∈ s.created, child.isPull = false
  enqueued : ∀ child ∈ s.enqueued, child.isPull = false
  manifests : ∀ dir, s.disk.readFile (dir ++ ["meta.json"]) = disk.readFile (dir ++ ["meta.json"])

theorem idle_of_rest (point : s.point.ahead = none ∧ s.point.child = none)
    (created : ∀ child ∈ s.created, child.isPull = false)
    (enqueued : ∀ child ∈ s.enqueued, child.isPull = false)
    (manifests : ∀ dir,
      s.disk.readFile (dir ++ ["meta.json"]) = disk.readFile (dir ++ ["meta.json"])) :
    Idle disk s where
  ahead := by simp [point.1]
  child := by simp [point.2]
  created := created
  enqueued := enqueued
  manifests := manifests

theorem Idle.leavesChapters (idle : Idle disk s) : LeavesChapters disk s where
  saving := by
    rw [PullManga.saving]
    split
    · rename_i existing ch chapters point
      have known := idle.ahead existing (ch :: chapters) (by rw [point]; rfl) ch List.mem_cons_self
      simpa using known
    · rfl
  created := idle.created
  enqueued := idle.enqueued
  manifests := idle.manifests

theorem Idle.step (idle : Idle disk s) (inside : action.enters = false)
    (taken : step l s action = some s') : Idle disk s' := by
  have manifests : ∀ dir, s'.disk.readFile (dir ++ ["meta.json"]) =
      disk.readFile (dir ++ ["meta.json"]) := by
    intro dir
    rcases step_manifests taken with beside | ⟨existing, ch, chapters, _, saves⟩
    · rw [beside.same dir, idle.manifests dir]
    · have known := idle.ahead existing (ch :: chapters) (by rw [saves.point]; rfl) ch
        List.mem_cons_self
      exact absurd known saves.unlisted
  cases step_moved taken with
  | started => simp [PullAction.enters] at inside
  | failed | childFailed => exact idle_of_rest ⟨rfl, rfl⟩ idle.created idle.enqueued manifests
  | @skipped existing ch chapters point listed =>
      refine ⟨?_, fun _ child => (nomatch child), idle.created, idle.enqueued, manifests⟩
      intro _ _ ahead other member
      cases ahead
      exact idle.ahead existing (ch :: chapters) (by rw [point]; rfl) other
        (List.mem_cons_of_mem ch member)
  | @saved existing ch chapters chMeta disk point unlisted saved =>
      have known := idle.ahead existing (ch :: chapters) (by rw [point]; rfl) ch List.mem_cons_self
      exact absurd known unlisted
  | @created child resume point =>
      have cover := idle.child child (by rw [point]; rfl)
      refine ⟨fun existing chapters ahead => ?_, fun _ waits => ?_, ?_, idle.enqueued, manifests⟩
      · exact idle.ahead existing chapters (by rw [point]; exact ahead)
      · cases waits
        exact cover
      · exact List.forall_mem_cons.mpr ⟨cover, idle.created⟩
  | @enqueued child resume point =>
      have cover := idle.child child (by rw [point]; rfl)
      refine ⟨fun existing chapters ahead => ?_, fun _ waits => ?_, idle.created, ?_, manifests⟩
      · rw [PullResume.ahead_point] at ahead
        exact idle.ahead existing chapters (by rw [point]; exact ahead)
      · rw [PullResume.child_point] at waits
        contradiction
      · exact List.forall_mem_cons.mpr ⟨cover, idle.enqueued⟩
  | chaptersDone | coverDone | stamped =>
      exact idle_of_rest ⟨rfl, rfl⟩ idle.created idle.enqueued manifests
  | coverClaimed =>
      refine ⟨fun _ _ ahead => (nomatch ahead), fun _ child => ?_, idle.created, idle.enqueued,
        manifests⟩
      cases child
      rfl

/-- A listing that shows the whole list makes the next run leave the chapters alone. -/
theorem fixpoint_of_listed (known : ∀ ch ∈ upstream, listed l payload disk ch.id = true) :
    Fixpoint l payload upstream disk := by
  intro jobID s inRun
  rcases inRun with ⟨now, entered, actions, taken, run⟩
  apply Idle.leavesChapters
  apply run.invariant (Idle disk)
  · intro state action next inside idle taken
    exact idle.step inside taken
  · rcases entered_cases taken with ⟨mDir, existing, _, _, listing, rfl⟩ | rfl
    · refine ⟨?_, fun _ child => (nomatch child), by simp [queued], by simp [queued],
        fun _ => rfl⟩
      intro _ _ ahead ch member
      cases ahead
      exact List.contains_iff_mem.mp ((listing ch.id).trans (known ch member))
    · exact idle_of_rest ⟨rfl, rfl⟩ (by simp [queued, fails]) (by simp [queued, fails])
        fun _ => rfl

/-- A run goes past the chapters that are listed. -/
theorem run_skips {existing : List String} {known chapters : List Chapter}
    (point : s.point = .loop existing (known ++ chapters)) (seen : ∀ ch ∈ known, ch.id ∈ existing) :
    ∃ actions, Run (step l) (fun _ action => action.enters = false) s actions
      { s with point := .loop existing chapters } := by
  induction known generalizing s with
  | nil =>
      refine ⟨[], ?_⟩
      rw [List.nil_append] at point
      rw [← point]
      exact .nil s
  | cons ch known induction =>
      rcases List.forall_mem_cons.mp seen with ⟨first, others⟩
      have taken : step l s .nextChapter =
          some { s with point := .loop existing (known ++ chapters) } := by
        simp [PullManga.step, point, first]
      rcases induction (s := { s with point := .loop existing (known ++ chapters) }) rfl others
        with ⟨actions, rest⟩
      exact ⟨.nextChapter :: actions, .cons rfl taken rest⟩

theorem listed_of_fixpoint {mDir : Path} (located : l.mangaDir payload.mangaID = .ok mDir)
    (complete : payload.complete = true)
    (settled : Fixpoint l payload upstream disk) :
    ∀ ch ∈ upstream, listed l payload disk ch.id = true := by
  by_contra missing
  simp only [not_forall, Bool.not_eq_true] at missing
  -- the first chapter of the list that is not listed
  have first : ∃ known ch chapters, upstream = known ++ ch :: chapters ∧
      (∀ other ∈ known, listed l payload disk other.id = true) ∧
      listed l payload disk ch.id = false := by
    rcases missing with ⟨unknown, member, unlisted⟩
    clear settled
    induction upstream with
    | nil => simp at member
    | cons head rest induction =>
        cases seen : listed l payload disk head.id with
        | false => exact ⟨[], head, rest, rfl, by simp, seen⟩
        | true =>
            rcases List.mem_cons.mp member with same | later
            · rw [← same, unlisted] at seen
              contradiction
            · rcases induction later with ⟨known, ch, chapters, rfl, before, fresh⟩
              exact ⟨head :: known, ch, chapters, rfl,
                List.forall_mem_cons.mpr ⟨seen, before⟩, fresh⟩
  rcases first with ⟨known, ch, chapters, rfl, seen, fresh⟩
  cases listing : l.listChapters disk payload.mangaID [payload.providerID] with
  | error refused => simp [Layout.listChapters, located] at listing
  | ok existing =>
      have contains := contains_of_listChapters listing
      have taken : step l (queued "" payload (known ++ ch :: chapters) disk) (.start Time.zero) =
          some { queued "" payload (known ++ ch :: chapters) disk with
            now := Time.zero,
            point := .loop (existing.map ChapterInfo.id) (known ++ ch :: chapters) } := by
        simp only [PullMangaPayload.complete, Bool.and_eq_true, bne_iff_ne, ne_eq] at complete
        simp [PullManga.step, queued, complete, listing]
      have skipped : ∀ other ∈ known, other.id ∈ existing.map ChapterInfo.id :=
        fun other member => List.contains_iff_mem.mp ((contains other.id).trans (seen other member))
      rcases @run_skips l { queued "" payload (known ++ ch :: chapters) disk with
        now := Time.zero, point := .loop (existing.map ChapterInfo.id) (known ++ ch :: chapters) }
        _ _ _ rfl skipped with ⟨actions, run⟩
      have quiet := (settled "" _ ⟨Time.zero, _, actions, taken, run⟩).saving
      simp only [PullManga.saving, contains ch.id, fresh] at quiet
      contradiction

/-- After a run that succeeded, the next one with the same list leaves the chapters alone exactly
if each upstream id is listed already or is the name of a directory that `ListChapters` will
find. -/
theorem fixpoint_iff_givenBack {jobID : String} {last : PullManga}
    (first : Succeeds l jobID payload upstream before last) :
    Fixpoint l payload upstream last.disk ↔ GivenBack l payload upstream before := by
  rcases first.pulled with ⟨mDir, located, complete, pulled⟩
  have shown : ∀ id, listed l payload last.disk id = true ↔
      (before.find (join mDir [payload.providerID] ++ [id]) = some .directory ∨
        Makes l payload before upstream (payload.coverURL ≠ "")
          (join mDir [payload.providerID] ++ [id])) ∧
        present l payload last.disk id = true := by
    intro id
    rw [listed_iff located, pulled.directories]
  constructor
  · intro settled ch member _ mDir' located'
    rw [located, Except.ok.injEq] at located'
    subst located'
    exact ((shown ch.id).mp (listed_of_fixpoint located complete settled ch member)).1
  · intro given
    apply fixpoint_of_listed
    intro ch member
    rw [shown]
    cases known : listed l payload before ch.id with
    | false => exact ⟨given ch member known mDir located, pulled.chapters ch member known⟩
    | true =>
        rcases (listed_iff located).mp known with ⟨isDirectory, isIn⟩
        rcases Layout.getChapter_isSome_iff.mp isIn with ⟨dir, dirLocated, found⟩
        exact ⟨.inl isDirectory,
          Layout.getChapter_isSome_iff.mpr ⟨dir, dirLocated, pulled.kept dir found⟩⟩

/-- What a run does with one upstream chapter when nothing fails. -/
def pullOne : List PullAction :=
  [.nextChapter, .createJob, .enqueue, .nextChapter, .claimCover, .stampBindings]

theorem succeeds_of_execute {jobID : String} {now : Time} {entered last : PullManga}
    {actions : List PullAction}
    (taken : step l (queued jobID payload upstream before) (.start now) = some entered)
    (executed : Run.execute (step l) (fun _ action => !action.enters) entered actions = some last)
    (returned : last.point = .returned true) : Succeeds l jobID payload upstream before last := by
  refine ⟨⟨now, entered, actions, taken, ?_⟩, returned⟩
  exact (Run.ofExecute executed).weaken fun _ action inside => by simpa using inside

/-- The chapter of the directory `1` is given back. -/
theorem fixpoint_iff_givenBack_first_chapter :
    ∃ last, Succeeds plainLayout "pull" frieren [firstChapter] emptyDisk last ∧
      (Fixpoint plainLayout frieren [firstChapter] last.disk ↔
        GivenBack plainLayout frieren [firstChapter] emptyDisk) := by
  have executed : ((step plainLayout (queued "pull" frieren [firstChapter] emptyDisk)
      (.start Time.zero)).bind fun entered =>
        Run.execute (step plainLayout) (fun _ action => !action.enters) entered pullOne).map
      PullManga.point = some (.returned true) := by decide +kernel
  rcases Option.map_eq_some_iff.mp executed with ⟨last, executed, returned⟩
  rcases Option.bind_eq_some_iff.mp executed with ⟨entered, taken, executed⟩
  have first := succeeds_of_execute taken executed returned
  exact ⟨last, first, fixpoint_iff_givenBack first⟩

/-- An upstream id that begins with a slash: the directory has no slash, so the second run does
not know the chapter and saves it again. -/
def slashedChapter : Chapter := { firstChapter with id := "/1" }

theorem pull_again_saves_slashed_chapter :
    ¬ ∀ l payload upstream before jobID last,
      (∀ ch ∈ upstream, ∃ dir,
        l.providerChapterDir payload.mangaID payload.providerID ch.id = .ok dir) →
      Succeeds l jobID payload upstream before last → Fixpoint l payload upstream last.disk := by
  intro claimed
  have executed : ((step plainLayout (queued "pull" frieren [slashedChapter] emptyDisk)
      (.start Time.zero)).bind fun entered =>
        Run.execute (step plainLayout) (fun _ action => !action.enters) entered pullOne).map
      (fun last => (last.point,
        (step plainLayout (queued "again" frieren [slashedChapter] last.disk)
          (.start Time.zero)).map saving)) = some (.returned true, some true) := by decide +kernel
  rcases Option.map_eq_some_iff.mp executed with ⟨last, executed, observed⟩
  rw [Prod.mk.injEq] at observed
  rcases Option.bind_eq_some_iff.mp executed with ⟨entered, taken, executed⟩
  rcases Option.map_eq_some_iff.mp observed.2 with ⟨second, takenAgain, saves⟩
  have accepted : ∀ ch ∈ [slashedChapter], ∃ dir,
      plainLayout.providerChapterDir frieren.mangaID frieren.providerID ch.id = .ok dir := by
    intro ch member
    rw [List.mem_singleton.mp member]
    exact ⟨["library", "frieren", "mangadex", "1"], by decide +kernel⟩
  have quiet := claimed plainLayout frieren [slashedChapter] emptyDisk "pull" last accepted
    (succeeds_of_execute taken executed observed.1) "again" second
    ⟨Time.zero, second, [], takenAgain, .nil second⟩
  rw [quiet.saving] at saves
  contradiction

end PullManga

end Kiyomi.Queue
