import Kiyomi.Queue.PullHandlers

namespace Kiyomi.Queue

open Go Library

/-! # Where `pull_page` and `pull_cover` jobs write

The page handler falls back on ids that the library refuses, and the cover handler joins
the id itself. -/

variable {l : Layout} {dirs : Path → Prop} {dir : Path}

theorem run_askOutside {question : PullQuestion} {next : question.Answer → PullEffect α}
    {f f' : Files Document} {choices : List (FileChoice PullQuestion.Answer)} {result : α} :
    (askOutside question >>= next).run Files.respond f choices = some (result, f') ↔
      ∃ answer rest, choices = .answer question answer :: rest ∧
        (next answer).run Files.respond f rest = some (result, f') := run_ask

/-- A target in a directory, if there is one. -/
def TargetIn (dir : Path) (resolved : Option (Path × String)) : Prop :=
  ∀ target, resolved = some target → target.1 = dir

theorem askOutside_writesIn (isDir : dirs dir) {question : PullQuestion} {post : α → Prop}
    {next : question.Answer → PullEffect α} (rest : ∀ answer, WritesIn dirs post (next answer)) :
    WritesIn dirs post (askOutside question >>= next) := by
  refine writesIn_request isDir ?_ rest
  exact trivial

theorem targetIn_writesIn (isDir : dirs dir) (name : String → String) (suffix : String) :
    WritesIn dirs (TargetIn dir) (targetIn dir name suffix) := by
  unfold targetIn
  refine writesIn_request isDir ?_ fun reply => ?_
  · exact rfl
  split
  · exact fun target same => by cases same; rfl
  · exact fun target none => nomatch none

theorem copyFileAtomically_writesIn (isDir : dirs dir) (srcPath : Path) (name : String) :
    WritesIn dirs (fun _ => True) (copyFileAtomically srcPath dir name) := by
  unfold copyFileAtomically
  refine writesIn_request isDir ?_ fun reply => ?_
  · exact trivial
  split
  · exact trivial
  · exact Uses.writesIn (replaceFile_uses isDir name name _)

theorem takeCached_writesIn (isDir : dirs dir) (cachedPath : Path)
    {resolved : Option (Path × String)} (target : TargetIn dir resolved) :
    WritesIn dirs (fun _ => True) (takeCached cachedPath resolved) := by
  cases resolved with
  | none => exact trivial
  | some place =>
      have same : place.1 = dir := target place rfl
      rcases place with ⟨dir', name⟩
      cases same
      unfold takeCached
      refine writesIn_request isDir ?_ fun reply => ?_
      · exact rfl
      split
      · refine writesIn_request isDir ?_ fun reply => ?_
        · exact ⟨name, rfl⟩
        refine writesIn_request isDir ?_ fun reply => ?_
        · exact ⟨name, rfl⟩
        split
        · exact trivial
        refine Program.Calls.bind (copyFileAtomically_writesIn isDir cachedPath name) fun _ _ => ?_
        split
        all_goals exact trivial
      · exact trivial

theorem fetchImage_writesIn (isDir : dirs dir) (rawURL providerID : String)
    {resolveTarget : String → PullEffect (Option (Path × String))}
    (resolves : ∀ suffix, WritesIn dirs (TargetIn dir) (resolveTarget suffix)) :
    WritesIn dirs (fun _ => True) (fetchImage l rawURL providerID resolveTarget) := by
  unfold fetchImage
  refine askOutside_writesIn isDir fun answer => ?_
  split
  · exact trivial
  split
  · exact trivial
  refine Program.Calls.bind (resolves _) fun resolved target => ?_
  cases resolved with
  | none => exact trivial
  | some place =>
      have same : place.1 = dir := target place rfl
      rcases place with ⟨dir', name⟩
      cases same
      refine Program.Calls.bind (Uses.writesIn (replaceFile_uses isDir name name _)) fun saved _ => ?_
      split
      all_goals exact trivial

theorem downloadImage_writesIn (isDir : dirs dir) (rawURL providerID : String)
    {resolveTarget : String → PullEffect (Option (Path × String))}
    (resolves : ∀ suffix, WritesIn dirs (TargetIn dir) (resolveTarget suffix)) :
    WritesIn dirs (fun _ => True) (downloadImage l rawURL providerID resolveTarget) := by
  unfold downloadImage
  refine askOutside_writesIn isDir fun answer => ?_
  split
  · exact fetchImage_writesIn isDir rawURL providerID resolves
  refine Program.Calls.bind (resolves _) fun resolved target => ?_
  refine Program.Calls.bind (takeCached_writesIn isDir _ target) fun taken _ => ?_
  split
  · exact trivial
  · exact fetchImage_writesIn isDir rawURL providerID resolves

theorem handlePullPage_writesIn (p : PullPagePayload)
    (isDir : dirs (l.providerChapterDirOrJoined p.mangaID p.providerID p.chapterID)) :
    WritesIn dirs (fun _ => True) (handlePullPage l p) := by
  unfold handlePullPage
  split
  · exact trivial
  refine askOutside_writesIn isDir fun valid => ?_
  split
  · exact trivial
  refine Program.Calls.bind (downloadImage_writesIn isDir _ _ fun suffix =>
    targetIn_writesIn isDir _ suffix) fun handled _ => ?_
  split
  · refine Program.Calls.bind
      (Reads.writesIn isDir (Effects.getChapter_reads fun _ _ => trivial)) fun stored _ => ?_
    split
    · exact trivial
    rename_i chMeta
    refine askOutside_writesIn isDir fun downloadedAt => ?_
    have saving : Uses dirs (fun _ => True) (Effects.saveChapter l p.mangaID p.providerID
        p.chapterID { chMeta with downloadedAt } : PullEffect Bool) := by
      refine Effects.saveChapter_uses fun dir located => ?_
      rw [Layout.providerChapterDirOrJoined, located] at isDir
      exact isDir
    refine Program.Calls.bind (Uses.writesIn saving) fun saved _ => ?_
    split
    all_goals exact trivial
  · exact trivial

theorem coverProvider_reads (p : PullCoverPayload) :
    Reads (fun _ => True) (fun _ => True) (coverProvider l p) := by
  unfold coverProvider
  split
  · exact trivial
  refine Program.Calls.bind (Effects.getBindings_reads fun _ _ => trivial) fun stored _ => ?_
  split
  · exact trivial
  split
  · split
    all_goals exact trivial
  · exact trivial

/-! ## Confinement -/

/-- A regular file lies on the way to the directory. -/
def blocked (disk : Disk) (dir : Path) : Bool :=
  dir.inits.any fun upper => (disk.readFile upper).isSome

/-- Files in the directory lie below the root, which exists, or cannot be written. -/
def staysBelow (l : Layout) (disk : Disk) (dir : Path) : Bool :=
  l.root.isPrefixOf dir && decide (disk.find l.root = some .directory) || blocked disk dir

/-- Whatever the system and the world outside do, the handler writes, removes and makes
nothing that does not lie strictly below the library root. -/
def Confined (l : Layout) (disk : Disk) (handler : PullEffect Handled) : Prop :=
  ∀ choices handled files,
    handler.run Files.respond (.ofTree disk) choices = some (handled, files) →
    WrittenBelow l.root files.touched

theorem blocked_eq_false {disk : Disk} {dir : Path} (free : blocked disk dir = false) {q : Path}
    (upper : q <+: dir) (content : Document) : disk.find q ≠ some (.file content) := by
  intro found
  rw [blocked, List.any_eq_false] at free
  have isFile := free q (List.mem_inits _ _ |>.mpr upper)
  rw [FileTree.readFile_eq_some.mpr found] at isFile
  contradiction

instance : ∀ question : PullQuestion, Nonempty question.Answer
  | .hasContent _ => ⟨true⟩
  | .fetchChapters .. => ⟨none⟩
  | .fetchPages .. => ⟨none⟩
  | .enqueueChild _ => ⟨.enqueued⟩
  | .validateURL _ => ⟨true⟩
  | .cached _ => ⟨none⟩
  | .fetch .. => ⟨none⟩
  | .now => ⟨Time.zero⟩

/-- A file saved in a directory that does not stay below the root, or the directory itself,
lies outside. -/
theorem replaceFile_escapes {f : Files Document} (unsafeDir : staysBelow l f.tree dir = false)
    {tree : Disk} (made : f.tree.mkdirAll dir = some tree) (name : String) (content : Document)
    (next : Bool → PullEffect α) :
    ∃ choices result f',
      (replaceFile dir name (dir ++ [name]) content >>= next).run Files.respond
        (f.touch tree ((f.tree.missingDirectories dir).map .makeDirectory)) choices =
          some (result, f') ∧ ¬ WrittenBelow l.root f'.touched := by
  simp only [staysBelow, Bool.or_eq_false_iff, Bool.and_eq_false_iff, decide_eq_false_iff_not]
    at unsafeDir
  rcases unsafeDir with ⟨outside, free⟩
  by_cases upper : l.root <+: dir
  · -- the root is missing, and is made
    have notDirectory := outside.resolve_left (by simpa using upper)
    have isMissing : f.tree.find l.root = none := by
      cases found : f.tree.find l.root with
      | none => rfl
      | some node =>
          cases node with
          | directory => exact absurd found notDirectory
          | file content => exact absurd found (blocked_eq_false free upper content)
    rcases exists_fileRun (replaceFile dir name (dir ++ [name]) content >>= next)
        (f.touch tree ((f.tree.missingDirectories dir).map .makeDirectory)) with
      ⟨choices, result, f', ran⟩
    refine ⟨choices, result, f', ran, fun below => ?_⟩
    have made : Touch.makeDirectory l.root ∈ f'.touched := by
      refine touched_of_run ran (List.mem_append_left _ (List.mem_map.mpr ⟨l.root, ?_, rfl⟩))
      simp [FileTree.missingDirectories, upper, isMissing]
    exact (below _ made l.root rfl).2 rfl
  · -- the temporary file is created outside
    have isDirectory : tree.find dir = some .directory := by
      rw [FileTree.find_mkdirAll made, if_pos (List.prefix_refl dir)]
    let f₁ := f.touch tree ((f.tree.missingDirectories dir).map .makeDirectory)
    have creates : ∃ suffix tmp, ∃ tree', f₁.respond
        (.createTemp dir (name ++ ".tmp.") (.data []) : FileCall Document PullQuestion)
        (.grant suffix : FileChoice PullQuestion.Answer) =
          some (.ok tmp, f₁.touch tree' [.create (dir ++ [tmp])]) :=
      Files.exists_respond_createTemp f₁ isDirectory _ _
    rcases creates with ⟨suffix, tmp, tree', created⟩
    obtain ⟨choices, result, f', ran, kept⟩ : ∃ choices result f',
        (replaceFile dir name (dir ++ [name]) content >>= next).run Files.respond f₁ choices = some (result, f') ∧
          ∀ touch ∈ (f₁.touch tree' [.create (dir ++ [tmp])]).touched, touch ∈ f'.touched :=
      exists_fileRun_call created
    refine ⟨choices, result, f', ran, fun below => upper ?_⟩
    have outside := below _ (kept _ (List.mem_append_left _ List.mem_cons_self)) _ rfl
    rcases List.prefix_concat_iff.mp outside.1 with same | inside
    · exact absurd same.symm outside.2
    · exact inside

/-- A download into a directory that does not stay below the root can write outside. -/
theorem downloadImage_escapes {f : Files Document} (rawURL providerID : String)
    (name : String → String) (unsafeDir : staysBelow l f.tree dir = false) :
    ∃ choices handled f',
      (downloadImage l rawURL providerID (targetIn dir name)).run Files.respond f choices =
        some (handled, f') ∧ ¬ WrittenBelow l.root f'.touched := by
  have free := (Bool.or_eq_false_iff.mp unsafeDir).2
  rcases Option.isSome_iff_exists.mp (FileTree.mkdirAll_isSome (t := f.tree)
    fun q upper content => blocked_eq_false free upper content) with ⟨tree, made⟩
  rcases replaceFile_escapes unsafeDir made
      (name (extensionFromImageResponse l rawURL "")) (.data [])
      (fun saved => if saved then pure .completed else pure Handled.failed) with
    ⟨choices, handled, f', ran, escapes⟩
  refine ⟨.answer (.cached rawURL) none :: .answer (.fetch rawURL providerID) (some ⟨200, "", []⟩) ::
    .grant "" :: choices, handled, f', ?_, escapes⟩
  have notCached : f.respond (.ask (.cached rawURL))
      (.answer (.cached rawURL) none : FileChoice PullQuestion.Answer) = some (none, f) :=
    Files.respond_answer f _ _
  have fetched : f.respond (.ask (.fetch rawURL providerID))
      (.answer (.fetch rawURL providerID) (some ⟨200, "", []⟩) : FileChoice PullQuestion.Answer) =
        some (some ⟨200, "", []⟩, f) :=
    Files.respond_answer f _ _
  refine Program.run_call.mpr ⟨_, _, _, f, rfl, notCached, ?_⟩
  refine Program.run_call.mpr ⟨_, _, _, f, rfl, fetched, ?_⟩
  refine Program.run_call.mpr ⟨_, _, _, _, rfl, Files.respond_mkdirAll f made "", ?_⟩
  exact ran

/-- What a handler keeps as long as it writes in the directory only. -/
def Stays (l : Layout) (dir : Path) (f : Files Document) : Prop :=
  staysBelow l f.tree dir = true ∧ WrittenBelow l.root f.touched

theorem Stays.run {f f' : Files Document} (stays : Stays l dir f) {program : PullEffect α}
    {post : α → Prop} (writes : WritesIn (· = dir) post program)
    {choices : List (FileChoice PullQuestion.Answer)} {result : α}
    (ran : program.run Files.respond f choices = some (result, f')) : Stays l dir f' := by
  rcases stays with ⟨stays, written⟩
  simp only [staysBelow, Bool.or_eq_true, Bool.and_eq_true, decide_eq_true_eq,
    List.isPrefixOf_iff_prefix] at stays
  rcases stays with ⟨upper, isDirectory⟩ | isBlocked
  · rcases WritesIn.below writes (fun _ same => same ▸ upper) ran isDirectory written with
      ⟨isDirectory, written⟩
    exact ⟨by simp [staysBelow, upper, isDirectory], written⟩
  · rw [blocked, List.any_eq_true] at isBlocked
    rcases isBlocked with ⟨q, isUpper, isFile⟩
    rcases Option.isSome_iff_exists.mp isFile with ⟨content, isFile⟩
    rcases WritesIn.blocked writes (fun _ same => same ▸ (List.mem_inits _ _).mp isUpper) ran
      (FileTree.readFile_eq_some.mp isFile) written with ⟨isFile, written⟩
    have isBlocked : blocked f'.tree dir = true :=
      List.any_eq_true.mpr ⟨q, isUpper, by rw [FileTree.readFile_eq_some.mpr isFile]; rfl⟩
    exact ⟨by simp [staysBelow, isBlocked], written⟩

/-- Releasing a claim removes nothing outside the root. -/
theorem releaseCoverClaim_below {mangaID : String} {f f' : Files Document}
    {choices : List (FileChoice PullQuestion.Answer)} {released : Bool}
    (ran : (Effects.releaseCoverClaim l mangaID).run Files.respond f choices = some (released, f'))
    (written : WrittenBelow l.root f.touched) : WrittenBelow l.root f'.touched := by
  have calls : (Effects.releaseCoverClaim l mangaID : PullEffect Bool).Calls
      (fun c => ∃ place, c = .remove place ∧ l.root <+: place ∧ place ≠ l.root) fun _ => True := by
    unfold Effects.releaseCoverClaim
    split
    · exact trivial
    rename_i dir located
    have inside := Layout.mangaDir_within located
    simp only [Layout.within, Bool.and_eq_true, List.isPrefixOf_iff_prefix] at inside
    refine calls_request ⟨_, rfl, by simpa using FileCall.below_concat inside.1 ".cover-pending" []⟩
      fun reply => ?_
    split
    all_goals exact trivial
  apply (calls.invariant (fun f => WrittenBelow l.root f.touched) ?_ ran written).1
  rintro state c choice reply next ⟨place, rfl, upper, proper⟩ written responded
  rcases Files.respond_cases responded with rfl | ⟨tree, touched, rfl, effect⟩
  · exact written
  intro touch member path isPath
  rcases List.mem_append.mp member with isNew | old
  · have may := (effect.touches isNew).1
    cases touch <;> try exact may.elim
    cases isPath
    have above : place <+: path := may
    exact ⟨upper.trans above, fun same => proper
      ((same ▸ above).eq_of_length_le upper.length_le)⟩
  · exact written touch old path isPath

theorem initial_written (l : Layout) (disk : Disk) :
    WrittenBelow l.root (Files.ofTree disk).touched := fun _ member => nomatch member

/-- A run of the rest follows the run of the first part. -/
theorem bind_escapes {f : Files Document} {program : PullEffect α} {next : α → PullEffect β}
    (escapes : ∃ choices result f', program.run Files.respond f choices = some (result, f') ∧
      ¬ WrittenBelow l.root f'.touched) :
    ∃ choices result f', (program >>= next).run Files.respond f choices = some (result, f') ∧
      ¬ WrittenBelow l.root f'.touched := by
  rcases escapes with ⟨choices, result, f', ran, escapes⟩
  rcases exists_fileRun (next result) f' with ⟨others, last, f'', ran'⟩
  refine ⟨choices ++ others, last, f'', Program.run_bind.mpr
    ⟨choices, others, result, f', rfl, ran, ran'⟩, fun below => escapes ?_⟩
  exact fun touch member => below touch (touched_of_run ran' member)

variable {disk : Disk}

theorem handlePullPage_confined_iff (p : PullPagePayload) :
    Confined l disk (handlePullPage l p) ↔
      (!p.complete || staysBelow l disk
        (l.providerChapterDirOrJoined p.mangaID p.providerID p.chapterID)) = true := by
  cases complete : p.complete with
  | false =>
      refine iff_of_true (fun choices handled files ran => ?_) rfl
      simp only [handlePullPage, complete, Bool.not_false, if_true, Program.pure_eq,
        Program.run_done] at ran
      rw [← ran.2.2]
      exact initial_written l disk
  | true =>
      rw [Bool.not_true, Bool.false_or]
      constructor
      · intro confined
        refine Bool.eq_true_of_not_eq_false fun unsafeDir => ?_
        rcases bind_escapes (downloadImage_escapes (f := .ofTree disk) p.pageURL p.providerID
          (toString p.pageIndex ++ ·) unsafeDir) with ⟨choices, handled, files, ran, escapes⟩
        refine escapes (confined (.answer (.validateURL p.pageURL) true :: choices) handled files ?_)
        rw [handlePullPage, complete]
        exact run_askOutside.mpr ⟨true, choices, rfl, ran⟩
      · intro stays choices handled files ran
        have writes : WritesIn (· = l.providerChapterDirOrJoined p.mangaID p.providerID p.chapterID)
            (fun _ => True) (handlePullPage l p) := handlePullPage_writesIn p rfl
        exact (Stays.run ⟨stays, initial_written l disk⟩ writes ran).2

theorem handlePullCover_confined_iff (p : PullCoverPayload) :
    Confined l disk (handlePullCover l p) ↔
      (!p.complete || staysBelow l disk (join l.root [p.mangaID])) = true := by
  cases complete : p.complete with
  | false =>
      refine iff_of_true (fun choices handled files ran => ?_) rfl
      simp only [handlePullCover, complete, Bool.not_false, if_true, Program.pure_eq,
        Program.run_done] at ran
      rw [← ran.2.2]
      exact initial_written l disk
  | true =>
      rw [Bool.not_true, Bool.false_or]
      constructor
      · intro confined
        refine Bool.eq_true_of_not_eq_false fun unsafeDir => ?_
        rcases exists_fileRun (coverProvider l p) (.ofTree disk) with ⟨before, providerID, f, asked⟩
        have sameTree := tree_of_reads (Reads.onlyReads (coverProvider_reads p)) asked
        rcases bind_escapes (downloadImage_escapes (f := f) p.coverURL providerID ("cover" ++ ·)
          (by rw [sameTree]; exact unsafeDir)) with ⟨after, handled, files, ran, escapes⟩
        refine escapes (confined (.answer (.validateURL p.coverURL) true :: (before ++ after)) handled
          files ?_)
        rw [handlePullCover, complete]
        refine run_askOutside.mpr ⟨true, before ++ after, rfl, ?_⟩
        exact Program.run_bind.mpr ⟨before, after, providerID, f, rfl, asked, ran⟩
      · intro stays choices handled files ran
        rw [handlePullCover, complete] at ran
        rcases run_askOutside.mp ran with ⟨valid, rest, _, proceeds⟩
        have started : Stays l (join l.root [p.mangaID]) (.ofTree disk) :=
          ⟨stays, initial_written l disk⟩
        cases valid with
        | false =>
            rcases Program.run_bind.mp proceeds with ⟨before, after, _, f, _, released, returned⟩
            rcases Program.run_done.mp returned with ⟨_, _, rfl⟩
            exact releaseCoverClaim_below released started.2
        | true =>
            rcases Program.run_bind.mp proceeds with ⟨before, after, providerID, f, _, asked, rest⟩
            rcases Program.run_bind.mp rest with ⟨during, last, downloaded, f', _, loaded, ends⟩
            have asking : WritesIn (· = join l.root [p.mangaID]) (fun _ => True)
                (coverProvider l p) := Reads.writesIn rfl (coverProvider_reads p)
            have loading : WritesIn (· = join l.root [p.mangaID]) (fun _ => True)
                (downloadImage l p.coverURL providerID
                  (targetIn (join l.root [p.mangaID]) ("cover" ++ ·))) := by
              apply downloadImage_writesIn
              · exact rfl
              · intro suffix
                apply targetIn_writesIn
                exact rfl
            have saved := (started.run asking asked).run loading loaded
            have releases : ∀ {next : Bool → PullEffect Handled} {choices},
                (∀ released, ∃ handled, next released = .done handled) →
                (Effects.releaseCoverClaim l p.mangaID >>= next).run Files.respond f' choices =
                  some (handled, files) → WrittenBelow l.root files.touched := by
              intro next choices returns ran
              rcases Program.run_bind.mp ran with ⟨_, _, released, f'', _, releasing, returned⟩
              rcases returns released with ⟨_, isDone⟩
              rw [isDone] at returned
              rcases Program.run_done.mp returned with ⟨_, _, rfl⟩
              exact releaseCoverClaim_below releasing saved.2
            cases downloaded with
            | completed =>
                refine releases (fun released => ?_) ends
                cases released with
                | false => exact ⟨_, rfl⟩
                | true => exact ⟨_, rfl⟩
            | failed => exact releases (fun _ => ⟨_, rfl⟩) ends
            | permanent => exact releases (fun _ => ⟨_, rfl⟩) ends

/-- Whatever they are answered, a page job and a cover job write only strictly below the
library root exactly if their payload is incomplete or their directory stays below it. -/
theorem pull_jobs_confined_iff (l : Layout) (disk : Disk) :
    (∀ p, Confined l disk (handlePullPage l p) ↔
      (!p.complete || staysBelow l disk
        (l.providerChapterDirOrJoined p.mangaID p.providerID p.chapterID)) = true) ∧
    ∀ p, Confined l disk (handlePullCover l p) ↔
      (!p.complete || staysBelow l disk (join l.root [p.mangaID])) = true :=
  ⟨handlePullPage_confined_iff, handlePullCover_confined_iff⟩

/-- A library at `/library`, where no id is a URL. -/
def libraryLayout : Layout where
  root := ["library"]
  parseURL _ := none
  toLower := id

def libraryDisk : Disk := FileTree.ofEntries [(["library"], .directory)] rfl

/-- A page is written to `/etc/cron.d`, and a cover to `/etc`. -/
theorem pull_jobs_write_outside :
    ¬ Confined libraryLayout libraryDisk
      (handlePullPage libraryLayout ⟨"..", "etc", "cron.d", 0, "https://example.org/0.jpg"⟩) ∧
    ¬ Confined libraryLayout libraryDisk
      (handlePullCover libraryLayout ⟨"../etc", "https://example.org/cover.jpg", ""⟩) := by
  constructor
  · rw [handlePullPage_confined_iff]
    decide +kernel
  · rw [handlePullCover_confined_iff]
    decide +kernel

end Kiyomi.Queue
