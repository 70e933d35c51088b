import Kiyomi.Queue.PagePulls
import Kiyomi.Queue.PullFiles

namespace Kiyomi.Queue

open Go Library PageFiles

/-! # Page jobs side by side

Every job pulls the page of one index of a chapter, and is retried until it is done. -/

inductive PageStage
  | pulling (rest : PullEffect Handled)
  | finished (handled : Handled)

structure PageJob extends PageFiles where
  payload : PullPagePayload
  stage : PageStage
  /-- What the pull wrote to the image in place. -/
  content : Option Document

/-- The content of the image after a call. -/
def contentAfter (tree : Disk) (content : Option Document) :
    (c : FileCall Document PullQuestion) → c.Reply PullQuestion.Answer → Option Document
  | .rename _ dst, .ok _ | .link _ dst, .ok _ => tree.readFile dst
  | _, _ => content

namespace PageJob

def start (l : Layout) (p : PullPagePayload) : PageJob where
  payload := p
  stage := .pulling (pullImage l p)
  temporary := none
  image := none
  content := none

/-- After a call of its handler. -/
def called (job : PageJob) (c : FileCall Document PullQuestion)
    (reply : c.Reply PullQuestion.Answer) (tree : Disk) (rest : PullEffect Handled) : PageJob where
  toPageFiles := job.toPageFiles.after c reply
  payload := job.payload
  stage := .pulling rest
  content := contentAfter tree job.content c reply

end PageJob

structure PagePulls where
  files : Files Document
  jobs : List PageJob

namespace PagePulls

variable (l : Layout)

/-- A step of one job among others. -/
inductive Step : PagePulls → PagePulls → Prop
  | call {files files' : Files Document} {before after : List PageJob} {job : PageJob}
      {c : FileCall Document PullQuestion} {next : c.Reply PullQuestion.Answer → PullEffect Handled}
      {choice : FileChoice PullQuestion.Answer} {reply : c.Reply PullQuestion.Answer}
      (stage : job.stage = .pulling (.call c next))
      (responded : files.respond c choice = some (reply, files')) :
      Step ⟨files, before ++ job :: after⟩
        ⟨files', before ++ job.called c reply files'.tree (next reply) :: after⟩
  /-- The section under the manga's lock. -/
  | stamp {files files' : Files Document} {before after : List PageJob} {job : PageJob}
      {handled result : Handled} {choices : List (FileChoice PullQuestion.Answer)}
      (stage : job.stage = .pulling (.done handled))
      (ran : (stampDownloadedAt l job.payload handled).run Files.respond files choices =
        some (result, files')) :
      Step ⟨files, before ++ job :: after⟩
        ⟨files', before ++ { job with stage := .finished result } :: after⟩
  | retry {files : Files Document} {before after : List PageJob} {job : PageJob}
      (stage : job.stage = .finished .failed) :
      Step ⟨files, before ++ job :: after⟩
        ⟨files, before ++ PageJob.start l job.payload :: after⟩

/-- The jobs of the pages of a chapter, as `HandlePullChapter` enqueues them. -/
def start (files : Files Document) (mangaID providerID chapterID : String)
    (pages : List (Int × String)) : PagePulls where
  files
  jobs := pages.map fun (index, url) =>
    PageJob.start l ⟨mangaID, providerID, chapterID, index, url⟩

end PagePulls

/-! ## What a call of one job leaves to the others -/

section Frame

variable {dir : Path} {index : Int} {known : PageFiles} {c : FileCall Document PullQuestion}
  {f f' : Files Document}

theorem eq_of_concat_below {name other : String} (isPrefix : dir ++ [name] <+: dir ++ [other]) :
    name = other := by
  simpa using (List.prefix_append_right_inj dir).mp isPrefix

theorem eq_of_concat {name other : String} (same : dir ++ [name] = dir ++ [other]) :
    name = other := by
  simpa using same

/-- The pull of a page changes no name that is not its own. -/
theorem not_changes_of_allowed (owned : ∀ name, known.temporary = some name → Owns index name)
    (allowed : Allowed dir index known c) {name : String} (other : ¬ Owns index name) :
    ¬ c.Changes (dir ++ [name]) := by
  cases c with
  | stat | readFile | readDir | ask => exact id
  | mkdirAll path =>
      cases allowed
      intro below
      simpa using below.length_le
  | createTemp path base content =>
      rcases allowed with ⟨rfl, image, isImage, rfl⟩
      rintro ⟨digits, same⟩
      have temporary : IsTemporary index name := ⟨image, digits, isImage, by simpa using same⟩
      exact other temporary.owns
  | write path content =>
      rcases allowed with ⟨temporary, known, rfl⟩
      intro same
      have named : name = temporary := eq_of_concat same
      exact other (named ▸ owned _ known)
  | link src dst =>
      rcases allowed with ⟨image, isImage, rfl⟩
      intro same
      have named : name = image := eq_of_concat same
      exact other (named ▸ isImage.owns)
  | rename src dst =>
      rcases allowed with ⟨temporary, image, known, rfl, isImage, rfl⟩
      rintro (below | below)
      · exact other (eq_of_concat_below below ▸ owned _ known)
      · exact other (eq_of_concat_below below ▸ isImage.owns)
  | remove path =>
      rcases allowed with ⟨own, owns, rfl⟩
      intro same
      have named : name = own := eq_of_concat same
      exact other (named ▸ owns)
  | create | removeAll => exact allowed.elim

end Frame

/-! ## The files of a page -/

/-- The temporary file and the image that are known are there, the image with its content. -/
structure InPlace (dir : Path) (index : Int) (tree : Disk) (known : PageFiles)
    (content : Option Document) : Prop where
  temporary : ∀ name, known.temporary = some name →
    IsTemporary index name ∧ ∃ written, tree.find (dir ++ [name]) = some (.file written)
  image : ∀ name, known.image = some name →
    IsImage index name ∧
      ∃ written, content = some written ∧ tree.find (dir ++ [name]) = some (.file written)

namespace InPlace

variable {dir : Path} {index : Int} {tree tree' : Disk} {known : PageFiles}
  {content : Option Document}

theorem temporary_owns (inPlace : InPlace dir index tree known content) (name : String)
    (isKnown : known.temporary = some name) : Owns index name :=
  (inPlace.temporary name isKnown).1.owns

/-- What leaves the page's own names alone leaves its files in place. -/
theorem frame (inPlace : InPlace dir index tree known content)
    (kept : ∀ name, Owns index name → tree'.find (dir ++ [name]) = tree.find (dir ++ [name])) :
    InPlace dir index tree' known content where
  temporary name isKnown := by
    rcases inPlace.temporary name isKnown with ⟨temporary, found⟩
    rw [kept name temporary.owns]
    exact ⟨temporary, found⟩
  image name isKnown := by
    rcases inPlace.image name isKnown with ⟨image, found⟩
    rw [kept name image.owns]
    exact ⟨image, found⟩

/-- A new temporary file, where nothing was. -/
theorem create (inPlace : InPlace dir index tree known content) {name : String}
    (isTemporary : IsTemporary index name) {first : Document}
    (created : tree.writeFile dir name first = some tree') :
    InPlace dir index tree' { known with temporary := some name } content where
  temporary other isKnown := by
    cases isKnown
    refine ⟨isTemporary, first, ?_⟩
    rw [FileTree.find_put created, if_pos rfl]
  image image isKnown := by
    rcases inPlace.image image isKnown with ⟨isImage, written, same, found⟩
    refine ⟨isImage, written, same, ?_⟩
    rw [FileTree.find_put created, if_neg fun same => isImage.ne_temporary isTemporary
      (eq_of_concat same)]
    exact found

/-- The temporary file is written. -/
theorem write (inPlace : InPlace dir index tree known content) {name : String}
    (isKnown : known.temporary = some name) {next : Document}
    (written : tree.writeFile dir name next = some tree') :
    InPlace dir index tree' known content := by
  have isTemporary := (inPlace.temporary name isKnown).1
  have created := inPlace.create isTemporary written
  have same : { known with temporary := some name } = known := by rw [← isKnown]
  rwa [same] at created

/-- An image is linked. -/
theorem link (inPlace : InPlace dir index tree known content) {name : String}
    (isImage : IsImage index name) {linked : Document}
    (made : tree.writeFile dir name linked = some tree') :
    InPlace dir index tree' { known with image := some name } (tree'.readFile (dir ++ [name])) where
  temporary temporary isKnown := by
    rcases inPlace.temporary temporary isKnown with ⟨isTemporary, written, found⟩
    refine ⟨isTemporary, written, ?_⟩
    rw [FileTree.find_put made, if_neg fun same => isImage.ne_temporary isTemporary
      (eq_of_concat same).symm]
    exact found
  image other isKnown := by
    cases isKnown
    have found : tree'.find (dir ++ [name]) = some (.file linked) := by
      rw [FileTree.find_put made, if_pos rfl]
    exact ⟨isImage, linked, FileTree.readFile_eq_some.mpr found, found⟩

/-- The temporary file becomes the image. -/
theorem rename (inPlace : InPlace dir index tree known content) {temporary name : String}
    (isKnown : known.temporary = some temporary) (isImage : IsImage index name)
    (moved : tree.rename (dir ++ [temporary]) (dir ++ [name]) = some tree') :
    InPlace dir index tree' { temporary := none, image := some name }
      (tree'.readFile (dir ++ [name])) where
  temporary other none := nomatch none
  image other same := by
    cases same
    rcases inPlace.temporary temporary isKnown with ⟨_, written, found⟩
    have arrived : tree'.find (dir ++ [name]) = some (.file written) := by
      rw [FileTree.find_rename moved, if_pos (List.prefix_refl _), List.drop_length,
        List.append_nil, found]
    exact ⟨isImage, written, FileTree.readFile_eq_some.mpr arrived, arrived⟩

/-- After a call of the page's pull. -/
theorem called {f f' : Files Document} (inPlace : InPlace dir index f.tree known content)
    {c : FileCall Document PullQuestion} {choice : FileChoice PullQuestion.Answer}
    {reply : c.Reply PullQuestion.Answer} (responded : f.respond c choice = some (reply, f'))
    (allowed : Allowed dir index known c) :
    InPlace dir index f'.tree (known.after c reply) (contentAfter f'.tree content c reply) := by
  have outcome := Files.respond_outcome responded
  have unchanged : ∀ name, ¬ c.Changes (dir ++ [name]) →
      f'.tree.find (dir ++ [name]) = f.tree.find (dir ++ [name]) :=
    fun name => Files.find_of_unchanged responded
  cases c with
  | stat | readFile | readDir | ask => exact inPlace.frame fun name _ => unchanged name id
  | mkdirAll path =>
      cases allowed
      refine inPlace.frame fun name _ => unchanged name fun below => ?_
      simpa using below.length_le
  | createTemp path base first =>
      rcases allowed with ⟨rfl, image, isImage, rfl⟩
      cases reply with
      | error _ => exact inPlace.frame fun name _ => by rw [outcome]
      | ok name =>
          rcases outcome with ⟨digits, rfl, _, created⟩
          exact inPlace.create ⟨image, digits, isImage, rfl⟩ created
  | write path next =>
      rcases allowed with ⟨name, isKnown, rfl⟩
      cases reply with
      | error _ => exact inPlace.frame fun name _ => by rw [outcome]
      | ok _ =>
          have written : f.tree.writeFile dir name next = some f'.tree := by
            simpa [FileCall.Outcome] using outcome
          exact inPlace.write isKnown written
  | link src dst =>
      rcases allowed with ⟨name, isImage, rfl⟩
      cases reply with
      | error _ => exact inPlace.frame fun name _ => by rw [outcome]
      | ok _ =>
          rcases outcome with ⟨linked, _, made⟩
          rw [List.dropLast_concat, List.getLastD_concat] at made
          simpa [after, contentAfter] using inPlace.link isImage made
  | rename src dst =>
      rcases allowed with ⟨temporary, name, isKnown, rfl, isImage, rfl⟩
      cases reply with
      | error _ => exact inPlace.frame fun name _ => by rw [outcome]
      | ok _ => simpa [after, contentAfter] using inPlace.rename isKnown isImage outcome
  | remove path =>
      rcases allowed with ⟨name, _, rfl⟩
      have kept : ∀ other, other ≠ name →
          f'.tree.find (dir ++ [other]) = f.tree.find (dir ++ [other]) :=
        fun other different => unchanged other fun same => different (eq_of_concat same)
      have last : (dir ++ [name]).getLast? = some name := List.getLast?_concat
      exact
        { temporary := fun other isKnown => by
            simp only [after, last] at isKnown
            split at isKnown
            · cases isKnown
            · rename_i different
              have other_ne : other ≠ name := fun same => different (same ▸ isKnown)
              rw [kept other other_ne]
              exact inPlace.temporary other isKnown
          image := fun other isKnown => by
            simp only [after, last] at isKnown
            split at isKnown
            · cases isKnown
            · rename_i different
              have other_ne : other ≠ name := fun same => different (same ▸ isKnown)
              rw [kept other other_ne]
              exact inPlace.image other isKnown }
  | create | removeAll => exact allowed.elim

end InPlace

/-! ## The section under the lock -/

/-- What a file that is replaced holds afterwards, and what else stays. -/
theorem replaceFile_run {dir : Path} {base : String} {content : Document} {f f' : Files Document}
    {choices : List (FileChoice PullQuestion.Answer)} {saved : Bool}
    (ran : (replaceFile dir base (dir ++ [base]) content : PullEffect Bool).run Files.respond f
      choices = some (saved, f')) :
    (∀ name, ¬ base.toList <+: name.toList →
      f'.tree.find (dir ++ [name]) = f.tree.find (dir ++ [name])) ∧
    f'.tree.find (dir ++ [base]) =
      if saved then some (.file content) else f.tree.find (dir ++ [base]) := by
  unfold replaceFile at ran
  rcases Program.run_call.mp ran with ⟨_, rest, created, f₁, rfl, responded₁, ran⟩
  have outcome₁ := Files.respond_outcome responded₁
  cases created with
  | error _ =>
      rcases Program.run_done.mp ran with ⟨_, rfl, rfl⟩
      change f₁.tree = f.tree at outcome₁
      simp [outcome₁]
  | ok temporary =>
  rcases outcome₁ with ⟨digits, rfl, _, put₁⟩
  have other : ∀ name, ¬ base.toList <+: name.toList ∨ name = base →
      dir ++ [name] ≠ dir ++ [base ++ ".tmp." ++ digits] := by
    intro name different same
    have named := eq_of_concat same
    rcases different with different | rfl
    · exact different (by simp [named])
    · simpa using congrArg (fun name => name.toList.length) named
  have find₁ : ∀ name, ¬ base.toList <+: name.toList ∨ name = base →
      f₁.tree.find (dir ++ [name]) = f.tree.find (dir ++ [name]) := by
    intro name different
    rw [FileTree.find_put put₁, if_neg (other name different)]
  rcases Program.run_call.mp ran with ⟨_, rest, written, f₂, rfl, responded₂, ran⟩
  have find₂ : ∀ name, ¬ base.toList <+: name.toList ∨ name = base →
      f₂.tree.find (dir ++ [name]) = f₁.tree.find (dir ++ [name]) := fun name different =>
    Files.find_of_unchanged responded₂ (other name different)
  have remove : ∀ {f₃ : Files Document} {choice : FileChoice PullQuestion.Answer} {reply}, f₃.respond
      (.remove (dir ++ [base ++ ".tmp." ++ digits]) : FileCall Document PullQuestion) choice =
        some (reply, f') → ∀ name, ¬ base.toList <+: name.toList ∨ name = base →
      f'.tree.find (dir ++ [name]) = f₃.tree.find (dir ++ [name]) :=
    fun responded name different => Files.find_of_unchanged responded (other name different)
  cases written with
  | error _ =>
      rcases Program.run_call.mp ran with ⟨_, rest, removed, f₃, rfl, responded₃, ran⟩
      rcases Program.run_done.mp ran with ⟨_, rfl, rfl⟩
      have kept : ∀ name, ¬ base.toList <+: name.toList ∨ name = base →
          f₃.tree.find (dir ++ [name]) = f.tree.find (dir ++ [name]) := by
        intro name different
        rw [remove responded₃ name different, find₂ name different, find₁ name different]
      exact ⟨fun name different => kept name (.inl different), kept base (.inr rfl)⟩
  | ok _ =>
  have put₂ : f₁.tree.writeFile dir (base ++ ".tmp." ++ digits) content = some f₂.tree := by
    simpa [FileCall.Outcome] using Files.respond_outcome responded₂
  rcases Program.run_call.mp ran with ⟨_, rest, renamed, f₃, rfl, responded₃, ran⟩
  rcases Program.run_call.mp ran with ⟨_, rest, removed, f₄, rfl, responded₄, ran⟩
  rcases Program.run_done.mp ran with ⟨_, rfl, rfl⟩
  have outcome₃ := Files.respond_outcome responded₃
  constructor
  · intro name different
    have unmoved : f₃.tree.find (dir ++ [name]) = f₂.tree.find (dir ++ [name]) := by
      refine Files.find_of_unchanged responded₃ ?_
      rintro (below | below)
      · exact other name (.inl different) (congrArg (dir ++ [·]) (eq_of_concat_below below).symm)
      · exact different (by rw [← eq_of_concat_below below])
    rw [remove responded₄ name (.inl different), unmoved, find₂ name (.inl different),
      find₁ name (.inl different)]
  · rw [remove responded₄ base (.inr rfl)]
    cases renamed with
    | error _ =>
        change f₃.tree = f₂.tree at outcome₃
        rw [outcome₃, find₂ base (.inr rfl), find₁ base (.inr rfl)]
        rfl
    | ok _ =>
        rw [FileTree.find_rename outcome₃, if_pos (List.prefix_refl _), List.drop_length,
          List.append_nil, FileTree.find_put put₂, if_pos rfl]
        rfl

theorem saveChapter_run {l : Layout} {mangaID providerID chapterID : String}
    {chMeta : ChapterMeta} {f f' : Files Document}
    {choices : List (FileChoice PullQuestion.Answer)} {saved : Bool} {dir : Path}
    (located : l.providerChapterDirOrJoined mangaID providerID chapterID = dir)
    (ran : (Effects.saveChapter l mangaID providerID chapterID chMeta : PullEffect Bool).run
      Files.respond f choices = some (saved, f')) :
    (∀ name, ¬ IsManifest name → f'.tree.find (dir ++ [name]) = f.tree.find (dir ++ [name])) ∧
      (readable f.tree dir → readable f'.tree dir) ∧
      (saved = true →
        l.providerChapterDir mangaID providerID chapterID = .ok dir ∧ readable f'.tree dir) := by
  unfold Layout.providerChapterDirOrJoined at located
  unfold Effects.saveChapter at ran
  split at ran
  · rcases Program.run_done.mp ran with ⟨_, rfl, rfl⟩
    exact ⟨fun _ _ => rfl, id, fun saved => nomatch saved⟩
  rename_i here isDir
  rw [isDir] at located
  have same : here = dir := located
  cases same
  rcases Program.run_call.mp ran with ⟨_, rest, made, f₁, rfl, responded, ran⟩
  have find₁ : ∀ name, f₁.tree.find (dir ++ [name]) = f.tree.find (dir ++ [name]) := by
    intro name
    refine Files.find_of_unchanged responded fun below => ?_
    simpa using below.length_le
  have readable₁ : readable f.tree dir → readable f₁.tree dir := by
    rintro ⟨stored, found⟩
    refine ⟨stored, ?_⟩
    rw [FileTree.readFile_eq_some] at found ⊢
    rw [find₁, found]
  cases made with
  | error _ =>
      rcases Program.run_done.mp ran with ⟨_, rfl, rfl⟩
      exact ⟨fun name _ => find₁ name, readable₁, fun saved => nomatch saved⟩
  | ok _ =>
      rcases replaceFile_run ran with ⟨others, manifest⟩
      refine ⟨fun name other => by rw [others name other, find₁], ?_, ?_⟩
      · cases saved with
        | false =>
            rintro readable
            rcases readable₁ readable with ⟨stored, found⟩
            refine ⟨stored, ?_⟩
            rw [FileTree.readFile_eq_some] at found ⊢
            exact manifest.trans found
        | true => exact fun _ => ⟨_, FileTree.readFile_eq_some.mpr manifest⟩
      · rintro rfl
        exact ⟨isDir, _, FileTree.readFile_eq_some.mpr manifest⟩

theorem stampDownloadedAt_run {l : Layout} {p : PullPagePayload} {handled result : Handled}
    {f f' : Files Document} {choices : List (FileChoice PullQuestion.Answer)} {dir : Path}
    (located : l.providerChapterDirOrJoined p.mangaID p.providerID p.chapterID = dir)
    (ran : (stampDownloadedAt l p handled).run Files.respond f choices = some (result, f')) :
    (∀ name, ¬ IsManifest name → f'.tree.find (dir ++ [name]) = f.tree.find (dir ++ [name])) ∧
      (readable f.tree dir → readable f'.tree dir) ∧
      (result = .completed → handled = .completed ∧
        l.providerChapterDir p.mangaID p.providerID p.chapterID = .ok dir ∧
        readable f'.tree dir) := by
  by_cases completed : handled = .completed
  · rw [completed] at ran ⊢
    rcases Program.run_bind.mp ran with ⟨_, _, stored, f₁, rfl, got, ran⟩
    have reads : (Effects.getChapter l p.mangaID p.providerID p.chapterID :
        PullEffect (Option ChapterMeta)).Calls FileCall.Reads fun _ => True :=
      Reads.onlyReads (Effects.getChapter_reads fun _ _ => trivial)
    have same := tree_of_reads reads got
    cases stored with
    | none =>
        rcases Program.run_done.mp ran with ⟨_, rfl, rfl⟩
        rw [same]
        exact ⟨fun _ _ => rfl, id, fun completed => nomatch completed⟩
    | some chMeta =>
        rcases run_askOutside.mp ran with ⟨downloadedAt, _, _, ran⟩
        rcases Program.run_bind.mp ran with ⟨_, _, saved, f₂, rfl, saving, ran⟩
        rcases saveChapter_run located saving with ⟨others, kept, written⟩
        rw [same] at others kept
        have last : f' = f₂ ∧ (result = .completed → saved = true) := by
          cases saved with
          | false =>
              rcases Program.run_done.mp ran with ⟨_, rfl, rfl⟩
              exact ⟨rfl, fun completed => nomatch completed⟩
          | true =>
              rcases Program.run_done.mp ran with ⟨_, _, rfl⟩
              exact ⟨rfl, fun _ => rfl⟩
        rcases last with ⟨rfl, finished⟩
        exact ⟨others, kept, fun completed => ⟨rfl, written (finished completed)⟩⟩
  · have untouched : stampDownloadedAt l p handled = pure handled := by
      cases handled with
      | completed => exact absurd rfl completed
      | failed | permanent => rfl
    rw [untouched] at ran
    rcases Program.run_done.mp ran with ⟨_, rfl, rfl⟩
    exact ⟨fun _ _ => rfl, id, fun finished => absurd finished completed⟩

/-! ## The invariant of the jobs -/

/-- A job whose files are in place, and which completes only with an image and a manifest. -/
structure PageJob.Sound (l : Layout) (dir : Path) (tree : Disk) (job : PageJob) : Prop where
  located : l.providerChapterDirOrJoined job.payload.mangaID job.payload.providerID
    job.payload.chapterID = dir
  inPlace : InPlace dir job.payload.pageIndex tree job.toPageFiles job.content
  pulling : ∀ rest, job.stage = .pulling rest →
    rest.Watched (watch dir job.payload.pageIndex) Completes job.toPageFiles
  finished : job.stage = .finished .completed → job.image.isSome ∧
    l.providerChapterDir job.payload.mangaID job.payload.providerID job.payload.chapterID =
      .ok dir ∧ readable tree dir

/-- What the other jobs rely on. -/
structure LeavesOthers (dir : Path) (index : Int) (tree tree' : Disk) : Prop where
  others : ∀ name, ¬ Owns index name → ¬ IsManifest name →
    tree'.find (dir ++ [name]) = tree.find (dir ++ [name])
  readable : readable tree dir → readable tree' dir

namespace PageJob.Sound

variable {l : Layout} {dir : Path} {tree tree' : Disk} {job : PageJob}

theorem start {p : PullPagePayload}
    (located : l.providerChapterDirOrJoined p.mangaID p.providerID p.chapterID = dir) :
    (PageJob.start l p).Sound l dir tree where
  located := located
  inPlace := ⟨fun _ none => (nomatch none), fun _ none => nomatch none⟩
  pulling rest same := by
    cases same
    exact pullImage_watched p located
  finished := fun finished => nomatch finished

/-- A step of another job leaves the job sound. -/
theorem frame (sound : job.Sound l dir tree) {index : Int}
    (different : index ≠ job.payload.pageIndex) (leaves : LeavesOthers dir index tree tree') :
    job.Sound l dir tree' where
  located := sound.located
  inPlace := sound.inPlace.frame fun name owns =>
    leaves.others name (fun others => different (owns_unique others owns)) fun manifest =>
      manifest.not_owns owns
  pulling := sound.pulling
  finished finished := by
    rcases sound.finished finished with ⟨image, isDir, stored⟩
    exact ⟨image, isDir, leaves.readable stored⟩

end PageJob.Sound

namespace PagePulls

variable {l : Layout} {dir : Path} {s s' : PagePulls}

/-- What a step is: one job goes on, stays sound if it was, and leaves the others alone. -/
theorem Step.one (step : Step l s s') :
    ∃ before job job' after, s.jobs = before ++ job :: after ∧ s'.jobs = before ++ job' :: after ∧
      job'.payload = job.payload ∧
      (job.Sound l dir s.files.tree → job'.Sound l dir s'.files.tree ∧
        LeavesOthers dir job.payload.pageIndex s.files.tree s'.files.tree) := by
  cases step with
  | @call files files' before after job c next choice reply stage responded =>
      refine ⟨before, job, _, after, rfl, rfl, rfl, fun sound => ?_⟩
      have watched := sound.pulling _ stage
      have allowed : Allowed dir job.payload.pageIndex job.toPageFiles c := watched.1
      have possible : Possible c reply := by
        have outcome := Files.respond_outcome responded
        cases c with
        | createTemp path base content =>
            cases reply with
            | error _ => trivial
            | ok name =>
                rcases outcome with ⟨digits, same, _⟩
                exact ⟨digits, same⟩
        | _ => trivial
      have others : ∀ name, ¬ Owns job.payload.pageIndex name →
          files'.tree.find (dir ++ [name]) = files.tree.find (dir ++ [name]) := fun name other =>
        Files.find_of_unchanged responded
          (not_changes_of_allowed sound.inPlace.temporary_owns allowed other)
      refine ⟨⟨sound.located, sound.inPlace.called responded allowed, ?_, ?_⟩, ?_, ?_⟩
      · intro rest same
        cases same
        exact watched.2 reply possible
      · exact fun finished => nomatch finished
      · exact fun name other _ => others name other
      · rintro ⟨stored, found⟩
        refine ⟨stored, ?_⟩
        have manifest : IsManifest "meta.json" := List.prefix_refl _
        rw [FileTree.readFile_eq_some] at found ⊢
        rw [others "meta.json" manifest.not_owns, found]
  | @stamp files files' before after job handled result choices stage ran =>
      refine ⟨before, job, _, after, rfl, rfl, rfl, fun sound => ?_⟩
      have watched := sound.pulling _ stage
      rcases stampDownloadedAt_run sound.located ran with ⟨others, kept, completes⟩
      refine ⟨⟨sound.located, sound.inPlace.frame fun name owns => ?_, ?_, ?_⟩, ?_, kept⟩
      · exact others name fun manifest => manifest.not_owns owns
      · exact fun rest pulling => nomatch pulling
      · intro finished
        cases finished
        rcases completes rfl with ⟨completed, isDir, stored⟩
        exact ⟨watched completed, isDir, stored⟩
      · exact fun name _ other => others name other
  | @retry files before after job stage =>
      refine ⟨before, job, _, after, rfl, rfl, rfl, fun sound => ?_⟩
      exact ⟨.start sound.located, fun _ _ _ => rfl, id⟩

/-- All jobs are sound, and no two pull the same page. -/
structure Inv (l : Layout) (dir : Path) (s : PagePulls) : Prop where
  sound : ∀ job ∈ s.jobs, job.Sound l dir s.files.tree
  distinct : (s.jobs.map (·.payload.pageIndex)).Nodup

theorem Inv.step (inv : Inv l dir s) (step : Step l s s') : Inv l dir s' := by
  rcases (@Step.one l dir _ _ step) with ⟨before, job, job', after, jobs, jobs', payload, goes⟩
  have sound := inv.sound
  have distinct := inv.distinct
  rw [jobs] at sound distinct
  rcases goes (sound job (by simp)) with ⟨sound', leaves⟩
  have apart : ∀ other ∈ before ++ after, job.payload.pageIndex ≠ other.payload.pageIndex := by
    rw [List.map_append, List.map_cons, List.nodup_middle, List.nodup_cons,
      ← List.map_append] at distinct
    intro other member same
    exact distinct.1 (same ▸ List.mem_map_of_mem member)
  refine ⟨fun other member => ?_, ?_⟩
  · rw [jobs'] at member
    rcases List.mem_append.mp member with earlier | later
    · exact (sound other (List.mem_append_left _ earlier)).frame
        (apart other (List.mem_append_left _ earlier)) leaves
    · rcases List.mem_cons.mp later with rfl | later
      · exact sound'
      · exact (sound other (List.mem_append_right _ (List.mem_cons_of_mem _ later))).frame
          (apart other (List.mem_append_right _ later)) leaves
  · rw [jobs']
    simpa [payload] using distinct

theorem inv_start (files : Files Document) (mangaID providerID chapterID : String)
    {pages : List (Int × String)} (distinct : (pages.map (·.1)).Nodup) :
    Inv l (l.providerChapterDirOrJoined mangaID providerID chapterID)
      (start l files mangaID providerID chapterID pages) where
  sound job member := by
    rcases List.mem_map.mp member with ⟨page, _, rfl⟩
    exact .start rfl
  distinct := by
    simpa [start, PageJob.start, Function.comp_def] using distinct

/-- In every state that the jobs reach. -/
theorem Inv.reachable (inv : Inv l dir s) (reached : Relation.ReflTransGen (Step l) s s') :
    Inv l dir s' := by
  induction reached with
  | refl => exact inv
  | tail _ step induction => exact induction.step step

/-- The jobs stay those of the pages. -/
theorem payloads_of_reached (reached : Relation.ReflTransGen (Step l) s s') :
    s'.jobs.map (·.payload) = s.jobs.map (·.payload) := by
  induction reached with
  | refl => rfl
  | tail _ step induction =>
      rcases (@Step.one l [] _ _ step) with ⟨before, job, job', after, jobs, jobs', payload, _⟩
      rw [← induction, jobs, jobs']
      simp [payload]

/-- A run of the rest of a handler, taken step by step while the others stand still. -/
theorem reached_of_run {rest : PullEffect Handled} {before after : List PageJob} {job : PageJob}
    (stage : job.stage = .pulling rest) {files files' : Files Document}
    {choices : List (FileChoice PullQuestion.Answer)} {handled : Handled}
    (ran : rest.run Files.respond files choices = some (handled, files')) :
    ∃ job', Relation.ReflTransGen (Step l) ⟨files, before ++ job :: after⟩
        ⟨files', before ++ job' :: after⟩ ∧
      job'.stage = .pulling (.done handled) ∧ job'.payload = job.payload := by
  induction rest generalizing job files choices with
  | done value =>
      rcases Program.run_done.mp ran with ⟨_, rfl, rfl⟩
      exact ⟨job, .refl, stage, rfl⟩
  | call c next induction =>
      rcases Program.run_call.mp ran with ⟨choice, _, reply, middle, _, responded, rest_ran⟩
      have first : Step l ⟨files, before ++ job :: after⟩
          ⟨middle, before ++ job.called c reply middle.tree (next reply) :: after⟩ :=
        .call stage responded
      have goes_on : (job.called c reply middle.tree (next reply)).stage =
          .pulling (next reply) := rfl
      rcases induction reply goes_on rest_ran with ⟨job', steps, finished, payload⟩
      exact ⟨job', steps.head first, finished, payload⟩

end PagePulls

end Kiyomi.Queue
