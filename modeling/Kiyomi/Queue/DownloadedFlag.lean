import Kiyomi.Library.Replacements
import Kiyomi.Queue.ChapterDeletion

namespace Kiyomi.Queue

open Go Library PageFiles

/-! # The downloaded flag

Page lists of a chapter are saved, pages of any of them are pulled side by side, and the
chapter's files are deleted. The flag compares a number of files with the length of the list. -/

/-- A chapter, with the page lists that were saved for it, the last one first. -/
structure ChapterPages where
  files : Files Document
  jobs : List PageJob
  lists : List (List PageItem)

namespace ChapterPages

def pages (s : ChapterPages) : List PageItem := s.lists.headD []

inductive Action
  | enqueue (page : PageItem)
  | call (index : Int) (step : FileStep PullQuestion.Answer)
  | stamp
  | refresh (pages : List PageItem) (saved : Bool) (steps : List (FileStep PullQuestion.Answer))
  | deleteFiles

/-- A step of one operation among others. What runs under a lock is one step, the download of an
image is one for each call. -/
inductive Step (l : Layout) (encode : List PageItem → List UInt8)
    (mangaID providerID chapterID : String) : ChapterPages → Action → ChapterPages → Prop
  /-- A job for a page of the current list or an earlier one. -/
  | enqueue {s : ChapterPages} {pages : List PageItem} {page : PageItem} (saved : pages ∈ s.lists)
      (listed : page ∈ pages) :
      Step l encode mangaID providerID chapterID s (.enqueue page)
        { s with
          jobs := .start l ⟨mangaID, providerID, chapterID, page.index, page.url⟩ :: s.jobs }
  | call {s : ChapterPages} {before after : List PageJob} {job : PageJob}
      {c : FileCall Document PullQuestion} {next : c.Reply PullQuestion.Answer → PullEffect Handled}
      {choice : FileChoice PullQuestion.Answer} {reply : c.Reply PullQuestion.Answer}
      {files : Files Document} (here : s.jobs = before ++ job :: after)
      (stage : job.stage = .pulling (.call c next))
      (responded : s.files.respond c choice = some (reply, files)) :
      Step l encode mangaID providerID chapterID s
        (.call job.payload.pageIndex (s.files, c, choice))
        { s with files, jobs := before ++ job.called c reply files.tree (next reply) :: after }
  /-- The section of a page's job under the manga's lock. -/
  | stamp {s : ChapterPages} {before after : List PageJob} {job : PageJob}
      {handled result : Handled} {choices : List (FileChoice PullQuestion.Answer)}
      {files : Files Document} (here : s.jobs = before ++ job :: after)
      (stage : job.stage = .pulling (.done handled))
      (ran : (stampDownloadedAt l job.payload handled).run Files.respond s.files choices =
        some (result, files)) :
      Step l encode mangaID providerID chapterID s .stamp
        { s with files, jobs := before ++ { job with stage := .finished result } :: after }
  | refresh {s : ChapterPages} {pages : List PageItem} {saved : Bool}
      {choices : List (FileChoice PullQuestion.Answer)} {files : Files Document}
      (ran : (Effects.saveChapterPages l encode mangaID providerID chapterID pages :
        PullEffect Bool).run Files.respond s.files choices = some (saved, files)) :
      Step l encode mangaID providerID chapterID s
        (.refresh pages saved ((Effects.saveChapterPages l encode mangaID providerID chapterID pages :
          PullEffect Bool).steps Files.respond s.files choices))
        { s with files, lists := if saved then pages :: s.lists else s.lists }
  | deleteFiles {s : ChapterPages} :
      Step l encode mangaID providerID chapterID s .deleteFiles
        { s with files := { s.files with
          tree := (l.deleteChapterFiles mangaID providerID chapterID s.files.tree).1 } }

/-- Every image that is placed is that of a page of the list, and the only one of its page; a new
list has no page twice, and a page for each image that is there. -/
def Clean (l : Layout) (dir : Path) (s : ChapterPages) : Action → Prop
  | .call index step => ∀ name, Places (· = dir ++ [name]) step →
      (∃ page ∈ s.pages, page.index = index) ∧
        ∀ other ∈ imageFiles l s.files.tree dir, IsImage index other → other = name
  | .refresh pages saved steps => saved = true →
      (pages.map (·.index)).Nodup ∧
      (∀ name ∈ imageFiles l s.files.tree dir, ∃ page ∈ pages, IsImage page.index name) ∧
      ∀ step ∈ steps, ∀ path, step.2.1 = .stat path → step.2.2.isRefusal = false
  | .enqueue _ | .stamp | .deleteFiles => True

/-- A chapter with a manifest, before its first page list. -/
structure Fresh (l : Layout) (dir : Path) (s : ChapterPages) : Prop where
  manifest : readable s.files.tree dir
  images : imageFiles l s.files.tree dir = []
  jobs : s.jobs = []
  lists : s.lists = []

end ChapterPages

/-- There is an image of the page. -/
def HasImage (disk : Disk) (dir : Path) (index : Int) : Prop :=
  ∃ suffix ∈ Layout.imageExts, (disk.readFile (dir ++ [toString index ++ suffix])).isSome

/-- The flag says that the images of all pages of the list are there, and only then. -/
def ChapterPages.FlagExact (l : Layout) (mangaID providerID chapterID : String) (dir : Path)
    (s : ChapterPages) : Prop :=
  ∃ stored, s.files.tree.readFile (dir ++ ["meta.json"]) = some (.chapter stored) ∧
    ((l.getChapterFileStatus s.files.tree mangaID providerID chapterID stored.pageCount).2 = true ↔
      ∀ page ∈ s.pages, HasImage s.files.tree dir page.index)

/-! ## Names that are counted -/

/-- `strings.ToLower` leaves lower-case letters alone. -/
def KeepsExts (l : Layout) : Prop := ∀ suffix ∈ ".json" :: Layout.imageExts, l.toLower suffix = suffix

variable {l : Layout} {dir : Path}

theorem ext_append {text suffix : String} (rest : List Char) (dotted : suffix.toList = '.' :: rest)
    (last : '.' ∉ rest) : ext (text ++ suffix) = suffix := by
  have dot : '.' ∈ (text ++ suffix).toList := by simp [dotted]
  have tail : (text ++ suffix).toList.reverse.takeWhile (· ≠ '.') = rest.reverse := by
    rw [String.toList_append, dotted, List.reverse_append, List.reverse_cons, List.append_assoc,
      List.takeWhile_append_of_pos]
    · simp
    · intro c member
      have other : c ≠ '.' := fun same => last (by simpa [same] using member)
      simpa using other
  rw [ext, if_pos dot, tail, List.reverse_reverse, ← dotted, String.ofList_toList]

theorem contains_temporary (base digits : String) : contains (base ++ ".tmp." ++ digits) ".tmp." = true := by
  simp only [contains, List.any_eq_true, List.mem_tails]
  refine ⟨(".tmp." ++ digits).toList, ⟨base.toList, by simp⟩, ?_⟩
  rw [List.isPrefixOf_iff_prefix, String.toList_append]
  exact List.prefix_append _ _

theorem not_counted_temporary (base digits : String) : ¬ Counted l (base ++ ".tmp." ++ digits) := by
  rintro ⟨noTemporary, _⟩
  rw [contains_temporary] at noTemporary
  contradiction

theorem IsTemporary.not_counted {index : Int} {name : String} (temporary : IsTemporary index name) :
    ¬ Counted l name := by
  rcases temporary with ⟨image, digits, _, rfl⟩
  exact not_counted_temporary image digits

theorem not_counted_document (keeps : KeepsExts l) {name : String}
    (document : name = "meta.json" ∨ name = "pages.json") : ¬ Counted l name := by
  rintro ⟨_, counted⟩
  have isJSON : ext name = ".json" := by
    rcases document with rfl | rfl
    · decide +kernel
    · decide +kernel
  rw [isJSON, keeps ".json" List.mem_cons_self] at counted
  revert counted
  decide

theorem counted_page (keeps : KeepsExts l) (index : Int) {suffix : String}
    (member : suffix ∈ Layout.imageExts) : Counted l (toString index ++ suffix) := by
  have letters : suffix.toList.head? = some '.' ∧ '.' ∉ suffix.toList.tail ∧ 't' ∉ suffix.toList := by
    revert suffix
    decide +kernel
  have dotted : suffix.toList = '.' :: suffix.toList.tail :=
    (List.cons_head?_tail letters.1).symm
  refine ⟨?_, ?_⟩
  · rw [← Bool.not_eq_true]
    intro temporary
    simp only [contains, List.any_eq_true, List.mem_tails, List.isPrefixOf_iff_prefix] at temporary
    rcases temporary with ⟨rest, inName, begins⟩
    have isIn : 't' ∈ (toString index ++ suffix).toList :=
      inName.subset (begins.subset (by decide))
    rw [String.toList_append, List.mem_append] at isIn
    rcases isIn with number | other
    · rcases mem_toString number with digit | minus
      · simp at digit
      · simp at minus
    · exact letters.2.2 other
  · rw [ext_append _ dotted letters.2.1, keeps suffix (List.mem_cons_of_mem _ member)]
    exact member

/-! ## The pull of a page among others -/

/-- What holds of a job whatever the other jobs do. -/
structure PageJob.Works (l : Layout) (dir : Path) (job : PageJob) : Prop where
  located : l.providerChapterDir job.payload.mangaID job.payload.providerID job.payload.chapterID =
    .ok dir
  temporary : ∀ name, job.temporary = some name → IsTemporary job.payload.pageIndex name
  pulling : ∀ rest, job.stage = .pulling rest →
    rest.Watched (watch dir job.payload.pageIndex) Completes job.toPageFiles

section Calls

variable {job : PageJob} {c : FileCall Document PullQuestion}
  {choice : FileChoice PullQuestion.Answer} {reply : c.Reply PullQuestion.Answer}
  {f f' : Files Document}

theorem possible_of_respond (responded : f.respond c choice = some (reply, f')) :
    Possible c reply := by
  have outcome := Files.respond_outcome responded
  cases c with
  | createTemp path base content =>
      cases reply with
      | error _ => trivial
      | ok name =>
          rcases outcome with ⟨digits, same, _⟩
          exact ⟨digits, same⟩
  | _ => trivial

theorem temporary_after {index : Int} {known : PageFiles}
    (temporary : ∀ name, known.temporary = some name → IsTemporary index name)
    (allowed : Allowed dir index known c) (possible : Possible c reply) :
    ∀ name, (known.after c reply).temporary = some name → IsTemporary index name := by
  cases c with
  | createTemp path base content =>
      cases reply with
      | error _ => exact temporary
      | ok created =>
          rcases allowed with ⟨rfl, image, isImage, rfl⟩
          rcases possible with ⟨digits, rfl⟩
          rintro name ⟨⟩
          exact ⟨image, digits, isImage, rfl⟩
  | rename src dst =>
      cases reply with
      | error _ => exact temporary
      | ok _ => exact fun name none => nomatch none
  | remove path =>
      intro name same
      simp only [after] at same
      split at same
      · cases same
      · exact temporary name same
  | link src dst =>
      cases reply with
      | error _ => exact temporary
      | ok _ => exact temporary
  | stat | readFile | readDir | mkdirAll | write | create | removeAll | ask => exact temporary

/-- A counted file is old, or the call has placed it. -/
theorem imageFiles_after {index : Int} {known : PageFiles}
    (temporary : ∀ name, known.temporary = some name → IsTemporary index name)
    (allowed : Allowed dir index known c) (responded : f.respond c choice = some (reply, f'))
    {name : String} (isImage : name ∈ imageFiles l f'.tree dir) :
    name ∈ imageFiles l f.tree dir ∨
      IsImage index name ∧ Places (· = dir ++ [name]) (f, c, choice) := by
  rcases mem_imageFiles.mp isImage with ⟨⟨content, stored⟩, counted⟩
  have outcome := Files.respond_outcome responded
  have old (same : f'.tree.find (dir ++ [name]) = f.tree.find (dir ++ [name])) :
      name ∈ imageFiles l f.tree dir := mem_imageFiles.mpr ⟨⟨content, by rw [← same, stored]⟩, counted⟩
  have unchanged (other : ¬ c.Changes (dir ++ [name])) : name ∈ imageFiles l f.tree dir :=
    old (Files.find_of_unchanged responded other)
  cases c with
  | stat | readFile | readDir | ask => exact .inl (unchanged id)
  | mkdirAll path =>
      cases allowed
      exact .inl (unchanged fun below => by simpa using below.length_le)
  | createTemp path base first =>
      rcases allowed with ⟨rfl, image, isImage, rfl⟩
      refine .inl (unchanged ?_)
      rintro ⟨digits, same⟩
      have named : name = image ++ ".tmp." ++ digits := by simpa using same
      exact not_counted_temporary image digits (named ▸ counted)
  | write path next =>
      rcases allowed with ⟨own, isKnown, rfl⟩
      refine .inl (unchanged fun same => ?_)
      obtain rfl : name = own := eq_of_concat same
      exact (temporary name isKnown).not_counted counted
  | link src dst =>
      rcases allowed with ⟨own, isOwn, rfl⟩
      by_cases placed : name = own
      · subst placed
        cases reply with
        | error _ => exact .inl (old (by rw [outcome]))
        | ok _ => exact .inr ⟨isOwn, src, _, rfl, .inr ⟨rfl, f', responded⟩⟩
      · exact .inl (unchanged fun same => placed (eq_of_concat same))
  | rename src dst =>
      rcases allowed with ⟨own, image, isKnown, rfl, isOwn, rfl⟩
      by_cases placed : name = image
      · subst placed
        cases reply with
        | error _ => exact .inl (old (by rw [outcome]))
        | ok _ => exact .inr ⟨isOwn, _, _, rfl, .inl ⟨rfl, f', responded⟩⟩
      · refine .inl (unchanged ?_)
        rintro (below | below)
        · have named := eq_of_concat_below below
          exact (temporary own isKnown).not_counted (named ▸ counted)
        · exact placed (eq_of_concat_below below).symm
  | remove path =>
      rcases allowed with ⟨own, _, rfl⟩
      rcases respond_remove_reply (by simp) responded with ⟨_, same⟩ | ⟨_, _, removed⟩
      · exact .inl (old (by rw [same]))
      · rw [removed] at stored
        split at stored
        · cases stored
        · rename_i other
          exact .inl (unchanged other)
  | create | removeAll => exact allowed.elim

theorem PageJob.Works.start {p : PullPagePayload}
    (located : l.providerChapterDir p.mangaID p.providerID p.chapterID = .ok dir) :
    (PageJob.start l p).Works l dir where
  located := located
  temporary := fun _ none => nomatch none
  pulling rest same := by
    cases same
    exact pullImage_watched p (by rw [Layout.providerChapterDirOrJoined, located])

theorem PageJob.Works.called (works : job.Works l dir)
    {next : c.Reply PullQuestion.Answer → PullEffect Handled}
    (stage : job.stage = .pulling (.call c next))
    (responded : f.respond c choice = some (reply, f')) (tree : Disk) :
    (job.called c reply tree (next reply)).Works l dir where
  located := works.located
  temporary := temporary_after works.temporary (works.pulling _ stage).1 (possible_of_respond responded)
  pulling rest same := by
    cases same
    exact (works.pulling _ stage).2 reply (possible_of_respond responded)

end Calls

/-! ## The sections under a lock -/

/-- The manifest counts a number of pages. -/
def PageCount (dir : Path) (disk : Disk) (count : Int) : Prop :=
  ∃ stored, disk.readFile (dir ++ ["meta.json"]) = some (.chapter stored) ∧ stored.pageCount = count

/-- The images are the same. -/
def SameImages (l : Layout) (dir : Path) (disk disk' : Disk) : Prop :=
  ∀ name, Counted l name → disk'.find (dir ++ [name]) = disk.find (dir ++ [name])

section Sections

variable {mangaID providerID chapterID : String} {f f' : Files Document}
  {choices : List (FileChoice PullQuestion.Answer)}

/-- What `getChapter` returns was read from the manifest. -/
theorem getChapter_stored {chMeta : ChapterMeta}
    (located : l.providerChapterDir mangaID providerID chapterID = .ok dir)
    (ran : (Effects.getChapter l mangaID providerID chapterID :
      PullEffect (Option ChapterMeta)).run Files.respond f choices = some (some chMeta, f')) :
    f'.tree = f.tree ∧ ∃ stored, f.tree.readFile (dir ++ ["meta.json"]) = some (.chapter stored) ∧
      chMeta.pageCount = stored.pageCount := by
  have reads : (Effects.getChapter l mangaID providerID chapterID :
      PullEffect (Option ChapterMeta)).Calls FileCall.Reads fun _ => True :=
    Reads.onlyReads (Effects.getChapter_reads fun _ _ => trivial)
  refine ⟨tree_of_reads reads ran, ?_⟩
  simp only [Effects.getChapter, located] at ran
  rcases Program.run_call.mp ran with ⟨choice, rest, reply, middle, rfl, responded, ran⟩
  cases reply with
  | error why =>
      rcases Program.run_done.mp ran with ⟨_, same, _⟩
      cases same
  | ok document =>
      have found := FileTree.readFile_eq_some.mpr (respond_readFile responded)
      cases document with
      | chapter stored =>
          refine ⟨stored, found, ?_⟩
          have counts : (Effects.countDownloadedPages l dir >>= fun pages =>
              (.done (some (stored.read pages)) : PullEffect (Option ChapterMeta))).run
                Files.respond middle rest = some (some chMeta, f') := ran
          rcases Program.run_bind.mp counts with ⟨_, _, pages, _, _, _, returned⟩
          rcases Program.run_done.mp returned with ⟨_, same, _⟩
          cases same
          rfl
      | metadata | userState | bindings | data =>
          rcases Program.run_done.mp ran with ⟨_, same, _⟩
          cases same

theorem saveChapter_find {chMeta : ChapterMeta} {saved : Bool}
    (located : l.providerChapterDir mangaID providerID chapterID = .ok dir)
    (ran : (Effects.saveChapter l mangaID providerID chapterID chMeta : PullEffect Bool).run
      Files.respond f choices = some (saved, f')) {name : String}
    (noTemporary : ∀ digits : String, name ≠ "meta.json" ++ ".tmp." ++ digits) :
    f'.tree.find (dir ++ [name]) =
      if saved = true ∧ name = "meta.json" then some (.file (.chapter chMeta.saved))
      else f.tree.find (dir ++ [name]) := by
  simp only [Effects.saveChapter, located] at ran
  rcases Program.run_call.mp ran with ⟨choice, rest, made, f₁, rfl, responded, ran⟩
  have same : f₁.tree.find (dir ++ [name]) = f.tree.find (dir ++ [name]) :=
    Files.find_of_unchanged responded fun below => by simpa using below.length_le
  cases made with
  | error why =>
      rcases Program.run_done.mp ran with ⟨_, rfl, rfl⟩
      simp [same]
  | ok _ =>
      have replaced := replaceFile_find ran (q := dir ++ [name]) fun digits isTemporary =>
        noTemporary digits (eq_of_concat isTemporary)
      rw [replaced, same]
      simp

theorem SameImages.trans {first middle last : Disk} (before : SameImages l dir first middle)
    (after : SameImages l dir middle last) : SameImages l dir first last :=
  fun name counted => (after name counted).trans (before name counted)

theorem SameImages.mem_iff {disk disk' : Disk} (same : SameImages l dir disk disk') {name : String} :
    name ∈ imageFiles l disk' dir ↔ name ∈ imageFiles l disk dir := by
  rw [mem_imageFiles, mem_imageFiles]
  refine and_congr_left fun counted => ?_
  rw [same name counted]

/-- A manifest is saved, or it stays. -/
theorem saveChapter_section (keeps : KeepsExts l) {chMeta : ChapterMeta} {saved : Bool}
    (located : l.providerChapterDir mangaID providerID chapterID = .ok dir)
    (ran : (Effects.saveChapter l mangaID providerID chapterID chMeta : PullEffect Bool).run
      Files.respond f choices = some (saved, f')) :
    SameImages l dir f.tree f'.tree ∧ (saved = true → PageCount dir f'.tree chMeta.pageCount) ∧
      (saved = false → ∀ count, PageCount dir f.tree count → PageCount dir f'.tree count) := by
  have apart : ∀ digits : String, "meta.json" ≠ "meta.json" ++ ".tmp." ++ digits :=
    fun digits same => temporaryName_ne digits same.symm
  have manifest := saveChapter_find located ran apart
  refine ⟨fun name counted => ?_, fun isSaved => ?_, fun notSaved count => ?_⟩
  · have other : name ≠ "meta.json" := fun same =>
      not_counted_document keeps (.inl same) counted
    have noTemporary : ∀ digits : String, name ≠ "meta.json" ++ ".tmp." ++ digits :=
      fun digits same => not_counted_temporary "meta.json" digits (same ▸ counted)
    rw [saveChapter_find located ran noTemporary, if_neg fun both => other both.2]
  · rw [if_pos ⟨isSaved, rfl⟩] at manifest
    exact ⟨_, FileTree.readFile_eq_some.mpr manifest, rfl⟩
  · rintro ⟨stored, found, counts⟩
    refine ⟨stored, ?_, counts⟩
    rw [if_neg fun both => by simp [notSaved] at both] at manifest
    rw [FileTree.readFile_eq_some] at found ⊢
    rw [manifest, found]

theorem stampDownloadedAt_section (keeps : KeepsExts l) {p : PullPagePayload}
    {handled result : Handled}
    (located : l.providerChapterDir p.mangaID p.providerID p.chapterID = .ok dir)
    (ran : (stampDownloadedAt l p handled).run Files.respond f choices = some (result, f')) :
    SameImages l dir f.tree f'.tree ∧
      ∀ count, PageCount dir f.tree count → PageCount dir f'.tree count := by
  cases handled with
  | failed | permanent =>
      rcases Program.run_done.mp ran with ⟨_, _, rfl⟩
      exact ⟨fun _ _ => rfl, fun _ counts => counts⟩
  | completed =>
      rcases Program.run_bind.mp ran with ⟨_, _, stored, f₁, rfl, got, ran⟩
      have reads : (Effects.getChapter l p.mangaID p.providerID p.chapterID :
          PullEffect (Option ChapterMeta)).Calls FileCall.Reads fun _ => True :=
        Reads.onlyReads (Effects.getChapter_reads fun _ _ => trivial)
      have same := tree_of_reads reads got
      cases stored with
      | none =>
          rcases Program.run_done.mp ran with ⟨_, _, rfl⟩
          rw [same]
          exact ⟨fun _ _ => rfl, fun _ counts => counts⟩
      | some chMeta =>
          rcases getChapter_stored located got with ⟨_, stored, found, counts⟩
          rcases run_askOutside.mp ran with ⟨downloadedAt, _, _, ran⟩
          rcases Program.run_bind.mp ran with ⟨_, _, saved, f₂, rfl, saving, ran⟩
          have last : f' = f₂ := by
            cases saved with
            | false => exact (Program.run_done.mp ran).2.2.symm
            | true => exact (Program.run_done.mp ran).2.2.symm
          rcases saveChapter_section keeps located saving with ⟨images, isSaved, notSaved⟩
          rw [last]
          rw [same] at images notSaved
          refine ⟨images, fun count before => ?_⟩
          cases saved with
          | false => exact notSaved rfl count before
          | true =>
              rcases before with ⟨stored', found', rfl⟩
              obtain rfl : stored = stored' := by simpa [found] using found'
              rw [← counts]
              exact isSaved rfl

/-- The end of `SaveChapterPages`: the number of pages goes to the manifest. -/
def countPages (l : Layout) (mangaID providerID chapterID : String) (pages : Nat) :
    PullEffect Bool := do
  match ← Effects.getChapter l mangaID providerID chapterID with
  | none => pure false
  | some chMeta => Effects.saveChapter l mangaID providerID chapterID { chMeta with pageCount := pages }

/-- The number of pages is set if there is a manifest. -/
def recordPages (l : Layout) (mangaID providerID chapterID : String) (dir : Path) (pages : Nat) :
    PullEffect Bool := do
  if !succeeds (← request (.stat (dir ++ ["meta.json"]))) then pure true
  else countPages l mangaID providerID chapterID pages

/-- What a section does: the images stay, and the number of pages is set if it succeeds. -/
def Counts (l : Layout) (dir : Path) (disk disk' : Disk) (trace : List (FileStep PullQuestion.Answer))
    (pages : Nat) (saved : Bool) : Prop :=
  SameImages l dir disk disk' ∧
    (saved = false → ∀ count, PageCount dir disk count → PageCount dir disk' count) ∧
    (saved = true → (∀ step ∈ trace, ∀ path, step.2.1 = .stat path → step.2.2.isRefusal = false) →
      ∀ count, PageCount dir disk count → PageCount dir disk' pages)

theorem recordPages_section (keeps : KeepsExts l) {pages : Nat} {saved : Bool}
    {trace : List (FileStep PullQuestion.Answer)}
    (located : l.providerChapterDir mangaID providerID chapterID = .ok dir)
    (ran : (recordPages l mangaID providerID chapterID dir pages).run Files.respond f choices =
      some (saved, f'))
    (traced : (recordPages l mangaID providerID chapterID dir pages).steps Files.respond f choices =
      trace) : Counts l dir f.tree f'.tree trace pages saved := by
  unfold recordPages at ran traced
  rcases Program.run_call.mp ran with ⟨choice, rest, reply, f₁, rfl, responded, ran₁⟩
  rcases Program.steps_cons responded traced with ⟨later, rfl, traced₁⟩
  have same : f₁.tree = f.tree := by
    rcases Files.respond_cases responded with rfl | ⟨_, _, _, nothing⟩
    · rfl
    · exact nothing.elim
  cases reply with
  | error why =>
      rcases Program.run_done.mp ran₁ with ⟨_, rfl, rfl⟩
      rw [same]
      refine ⟨fun _ _ => rfl, fun _ _ counts => counts, fun _ granted count counted => ?_⟩
      -- the manifest is there, so the call was refused
      rcases counted with ⟨stored, found, _⟩
      have allowed := granted _ List.mem_cons_self _ rfl
      rw [FileTree.readFile_eq_some] at found
      cases choice with
      | answer question answer => contradiction
      | refuse made => contradiction
      | grant suffix => simp [Files.respond, Files.granted, found] at responded
  | ok _ =>
      change (countPages l mangaID providerID chapterID pages).run Files.respond f₁ rest =
        some (saved, f') at ran₁
      unfold countPages at ran₁
      rcases Program.run_bind.mp ran₁ with ⟨_, _, stored, f₂, rfl, got, ran₂⟩
      cases stored with
      | none =>
          rcases Program.run_done.mp ran₂ with ⟨_, rfl, rfl⟩
          have reads : (Effects.getChapter l mangaID providerID chapterID :
              PullEffect (Option ChapterMeta)).Calls FileCall.Reads fun _ => True :=
            Reads.onlyReads (Effects.getChapter_reads fun _ _ => trivial)
          rw [tree_of_reads reads got, same]
          exact ⟨fun _ _ => rfl, fun _ _ counts => counts, fun saved => by contradiction⟩
      | some chMeta =>
          rcases getChapter_stored located got with ⟨same₂, _⟩
          rcases saveChapter_section keeps located ran₂ with ⟨images, isSaved, notSaved⟩
          rw [same₂, same] at images notSaved
          exact ⟨images, notSaved, fun saved _ _ _ => isSaved saved⟩

/-- The images and the manifest stay in every step but the last. -/
theorem Counts.after {disk middle disk' : Disk} {before later : List (FileStep PullQuestion.Answer)}
    {pages : Nat} {saved : Bool} (counts : Counts l dir middle disk' later pages saved)
    (images : SameImages l dir disk middle)
    (manifest : middle.find (dir ++ ["meta.json"]) = disk.find (dir ++ ["meta.json"])) :
    Counts l dir disk disk' (before ++ later) pages saved := by
  have same : ∀ count, PageCount dir disk count → PageCount dir middle count := by
    rintro count ⟨stored, found, rfl⟩
    refine ⟨stored, ?_, rfl⟩
    rw [FileTree.readFile_eq_some] at found ⊢
    rw [manifest, found]
  refine ⟨images.trans counts.1, fun notSaved count before => ?_, fun isSaved granted count before => ?_⟩
  · exact counts.2.1 notSaved count (same count before)
  · exact counts.2.2 isSaved (fun step isStep => granted step (List.mem_append_right _ isStep)) count
      (same count before)

theorem saveChapterPages_section (keeps : KeepsExts l) {encode : List PageItem → List UInt8}
    {pages : List PageItem} {saved : Bool} {trace : List (FileStep PullQuestion.Answer)}
    (named : mangaID ≠ "")
    (again : l.providerChapterDir mangaID providerID (l.sanitizeID chapterID) = .ok dir)
    (ran : (Effects.saveChapterPages l encode mangaID providerID chapterID pages :
      PullEffect Bool).run Files.respond f choices = some (saved, f'))
    (traced : (Effects.saveChapterPages l encode mangaID providerID chapterID pages :
      PullEffect Bool).steps Files.respond f choices = trace) :
    Counts l dir f.tree f'.tree trace pages.length saved ∧ (saved = true → pages ≠ []) := by
  simp only [Effects.saveChapterPages, Effects.pagesTarget, named, ne_eq, not_false_eq_true, if_true,
    again] at ran traced
  by_cases empty : pages = []
  · simp only [empty, if_true] at ran
    rcases Program.run_done.mp ran with ⟨_, rfl, rfl⟩
    exact ⟨⟨fun _ _ => rfl, fun _ _ counts => counts, fun saved => by contradiction⟩,
      fun saved => by contradiction⟩
  refine ⟨?_, fun _ => empty⟩
  simp only [empty, if_false] at ran traced
  rcases Program.run_call.mp ran with ⟨choice, rest, made, f₁, rfl, responded, ran₁⟩
  rcases Program.steps_cons responded traced with ⟨later, rfl, traced₁⟩
  have same₁ : ∀ name, f₁.tree.find (dir ++ [name]) = f.tree.find (dir ++ [name]) := fun name =>
    Files.find_of_unchanged responded fun below => by simpa using below.length_le
  have stopped : Counts l dir f₁.tree f₁.tree later pages.length false :=
    ⟨fun _ _ => rfl, fun _ _ counts => counts, fun saved => by contradiction⟩
  change Counts l dir f.tree f'.tree ([(f, .mkdirAll dir, choice)] ++ later) pages.length saved
  refine Counts.after ?_ (fun name _ => same₁ name) (same₁ _)
  cases made with
  | error why =>
      rcases Program.run_done.mp ran₁ with ⟨_, rfl, rfl⟩
      exact stopped
  | ok _ =>
  change ((replaceFile dir "pages.json" (dir ++ ["pages.json"]) (.data (encode pages)) :
    PullEffect Bool) >>= fun replaced => if (!replaced) = true then pure false
      else recordPages l mangaID providerID (l.sanitizeID chapterID) dir pages.length).run
        Files.respond f₁ rest = some (saved, f') at ran₁
  rcases Program.run_bind.mp ran₁ with ⟨early, late, replaced, f₂, rfl, ranReplace, ran₂⟩
  replace traced₁ := (Program.steps_bind ranReplace).symm.trans traced₁
  rw [← traced₁]
  have same₂ : ∀ name, name ≠ "pages.json" →
      (∀ digits : String, name ≠ "pages.json" ++ ".tmp." ++ digits) →
      f₂.tree.find (dir ++ [name]) = f₁.tree.find (dir ++ [name]) := by
    intro name other noTemporary
    have found := replaceFile_find ranReplace (q := dir ++ [name]) fun digits isTemporary =>
      noTemporary digits (eq_of_concat isTemporary)
    rw [found, if_neg fun both => other (eq_of_concat both.2)]
  have images : SameImages l dir f₁.tree f₂.tree := by
    intro name counted
    refine same₂ name (fun same => not_counted_document keeps (.inr same) counted) ?_
    exact fun digits same => not_counted_temporary "pages.json" digits (same ▸ counted)
  have manifest : f₂.tree.find (dir ++ ["meta.json"]) = f₁.tree.find (dir ++ ["meta.json"]) := by
    refine same₂ _ (by decide) fun digits same => ?_
    have first := congrArg (fun name => name.toList.head?) same
    simp at first
  refine Counts.after ?_ images manifest
  cases replaced with
  | false =>
      rcases Program.run_done.mp ran₂ with ⟨_, rfl, rfl⟩
      exact ⟨fun _ _ => rfl, fun _ _ counts => counts, fun saved => by contradiction⟩
  | true => exact recordPages_section keeps again ran₂ rfl

end Sections

/-! ## Deletion, also when it fails -/

/-- Files may be gone, but the manifest counts as many pages. -/
def Sheds (dir : Path) (disk disk' : Disk) : Prop :=
  (∀ name, name ≠ "meta.json" →
    disk'.find (dir ++ [name]) = disk.find (dir ++ [name]) ∨ disk'.find (dir ++ [name]) = none) ∧
  ∀ count, PageCount dir disk count → PageCount dir disk' count

section Deletion

variable {mangaID providerID chapterID : String} {disk : Disk}

theorem Sheds.refl (disk : Disk) : Sheds dir disk disk :=
  ⟨fun _ _ => .inl rfl, fun _ counts => counts⟩

theorem Sheds.trans {middle disk' : Disk} (first : Sheds dir disk middle)
    (second : Sheds dir middle disk') : Sheds dir disk disk' := by
  refine ⟨fun name other => ?_, fun count counts => second.2 count (first.2 count counts)⟩
  rcases second.1 name other with same | gone
  · rw [same]
    exact first.1 name other
  · exact .inr gone

theorem each_sheds {op : α → Disk → Disk × Bool} {xs : List α}
    (one : ∀ x ∈ xs, ∀ disk, Sheds dir disk (op x disk).1) (disk : Disk) :
    Sheds dir disk (each op xs disk).1 := by
  induction xs generalizing disk with
  | nil => exact .refl disk
  | cons x xs induction =>
      rw [List.forall_mem_cons] at one
      have first := one.1 disk
      rw [each]
      split
      · rename_i middle ran
        rw [ran] at first
        exact first.trans (induction one.2 middle)
      · rename_i middle ran
        rw [ran] at first
        exact first

theorem removeFile_sheds {path : Path} (proper : path ≠ []) (other : path ≠ dir ++ ["meta.json"])
    (disk : Disk) : Sheds dir disk (orKeep (removeFile path) disk).1 := by
  rw [orKeep]
  split
  · rename_i disk' removed
    have removes := removeFile_removes proper removed
    refine ⟨fun name _ => removes.shrinks _, ?_⟩
    rintro count ⟨stored, found, counts⟩
    refine ⟨stored, ?_, counts⟩
    rw [FileTree.readFile_eq_some] at found ⊢
    rw [(removes _).2 (Ne.symm other), found]
  · exact .refl disk

theorem removeImages_sheds {ext : String} (isExt : ext ∈ Layout.imageExts) (disk : Disk) :
    Sheds dir disk (Layout.removeImages dir ext disk).1 := by
  rw [Layout.removeImages]
  split
  · exact .refl disk
  · rename_i found globbed
    have isPattern : hasMeta ("*" ++ ext) = true := by simp [hasMeta]
    refine each_sheds (fun path isFound => ?_) disk
    rcases @mem_glob _ _ _ path _ _ isPattern globbed with ⟨dirs, _, matches_⟩
    rcases matches_.mp isFound with ⟨upper, _, name, rfl, _, matched⟩
    refine removeFile_sheds (by simp) fun same => ?_
    have document : name = "meta.json" := by simpa using (List.append_inj' same rfl).2
    have unmatched : ∀ ext ∈ Layout.imageExts, matchName ("*" ++ ext) "meta.json" ≠ some true := by
      decide +kernel
    exact unmatched ext isExt (document ▸ matched)

theorem deleteChapterFiles_sheds
    (located : l.providerChapterDir mangaID providerID chapterID = .ok dir) (disk : Disk) :
    Sheds dir disk (l.deleteChapterFiles mangaID providerID chapterID disk).1 := by
  simp only [Layout.deleteChapterFiles, located]
  split
  · exact .refl disk
  have images : Sheds dir disk (each (Layout.removeImages dir) Layout.imageExts disk).1 :=
    each_sheds (fun ext isExt => removeImages_sheds isExt) disk
  split
  · rename_i middle ran
    rwa [ran] at images
  rename_i middle ran
  rw [ran] at images
  have pages : Sheds dir middle (Layout.removePages dir middle).1 := by
    rw [Layout.removePages]
    split
    · exact .refl middle
    · exact removeFile_sheds (by simp) (by simp) middle
  split
  · rename_i last ranPages
    rw [ranPages] at pages
    exact images.trans pages
  rename_i last ranPages
  rw [ranPages] at pages
  refine images.trans (pages.trans ?_)
  cases forgot : l.forgetDownload mangaID providerID chapterID dir last with
  | mk disk' went =>
  cases went with
  | true =>
      rcases forgetDownload_forgets located forgot with ⟨forgets, others⟩
      refine ⟨fun name other => .inl (others _ (by simpa using other)), ?_⟩
      rintro count ⟨stored, found, counts⟩
      rw [FileTree.readFile_eq_some] at found
      cases forgets with
      | unread same other => exact absurd found (other stored)
      | saved stored' number before after =>
          obtain rfl : stored = stored' := by simpa [before] using found.symm
          exact ⟨_, FileTree.readFile_eq_some.mpr after, counts⟩
  | false =>
      have same : disk' = last := by
        rw [Layout.forgetDownload] at forgot
        split at forgot
        · cases forgot
        split at forgot
        · cases forgot
        rw [orKeep] at forgot
        split at forgot
        · cases forgot
        · exact ((Prod.mk.injEq ..).mp forgot).1.symm
      rw [same]
      exact .refl last

end Deletion

/-! ## Counting pages -/

/-- One image for each page of the list at most, and a manifest that counts the list. -/
structure ChapterPages.Inv (l : Layout) (dir : Path) (s : ChapterPages) : Prop where
  jobs : ∀ job ∈ s.jobs, job.Works l dir
  images : ∀ name ∈ imageFiles l s.files.tree dir, ∃ page ∈ s.pages, IsImage page.index name
  single : ∀ index, ∀ name ∈ imageFiles l s.files.tree dir,
    ∀ other ∈ imageFiles l s.files.tree dir, IsImage index name → IsImage index other → name = other
  distinct : (s.pages.map (·.index)).Nodup
  proper : s.lists ≠ [] → s.pages ≠ []
  count : ∃ count, PageCount dir s.files.tree count ∧ (s.lists ≠ [] → count = s.pages.length)

theorem imageFiles_nodup (l : Layout) (disk : Disk) (dir : Path) : (imageFiles l disk dir).Nodup := by
  apply List.Nodup.filter
  cases listed : disk.readDir dir with
  | none => exact List.nodup_nil
  | some names =>
      rw [FileTree.readDir] at listed
      split at listed
      · cases listed
        exact (Entries.names_sorted dir disk.entries).imp fun less => ne_of_lt less
      · cases listed

/-- Members are as many as what has them exactly if it has no others. -/
theorem length_le_iff_subset {xs ys : List Int} (distinct : xs.Nodup) (distinct' : ys.Nodup)
    (subset : xs ⊆ ys) : ys.length ≤ xs.length ↔ ys ⊆ xs := by
  constructor
  · intro short
    exact ((List.subperm_of_subset distinct subset).perm_of_length_le short).symm.subset
  · exact fun subset' => (List.subperm_of_subset distinct' subset').length_le

theorem owns_page (index : Int) {suffix : String} (member : suffix ∈ Layout.imageExts) :
    Owns index (toString index ++ suffix) := by
  have dotted : ['.'] <+: suffix.toList := by
    revert suffix
    decide +kernel
  rw [Owns, String.toList_append]
  exact (List.prefix_append_right_inj _).mpr dotted

theorem ChapterPages.Inv.flagExact {mangaID providerID chapterID : String} {s : ChapterPages}
    (inv : s.Inv l dir) (keeps : KeepsExts l)
    (located : l.providerChapterDir mangaID providerID chapterID = .ok dir) (saved : s.lists ≠ []) :
    s.FlagExact l mangaID providerID chapterID dir := by
  rcases inv.count with ⟨count, ⟨stored, found, rfl⟩, counts⟩
  refine ⟨stored, found, ?_⟩
  have listed : ∀ name, ∃ index, name ∈ imageFiles l s.files.tree dir →
      index ∈ s.pages.map (·.index) ∧ IsImage index name := by
    intro name
    by_cases isImage : name ∈ imageFiles l s.files.tree dir
    · rcases inv.images name isImage with ⟨page, isPage, image⟩
      exact ⟨page.index, fun _ => ⟨List.mem_map_of_mem isPage, image⟩⟩
    · exact ⟨0, fun image => absurd image isImage⟩
  choose indexOf spec using listed
  have distinct : ((imageFiles l s.files.tree dir).map indexOf).Nodup := by
    refine List.Nodup.map_on (fun name isImage other isOther same => ?_) (imageFiles_nodup l _ dir)
    exact inv.single (indexOf name) name isImage other isOther (spec name isImage).2
      (same ▸ (spec other isOther).2)
  have subset : (imageFiles l s.files.tree dir).map indexOf ⊆ s.pages.map (·.index) := by
    intro index member
    rcases List.mem_map.mp member with ⟨name, isImage, rfl⟩
    exact (spec name isImage).1
  have hasImage_iff : ∀ index, HasImage s.files.tree dir index ↔
      index ∈ (imageFiles l s.files.tree dir).map indexOf := by
    intro index
    constructor
    · rintro ⟨suffix, member, isFile⟩
      rcases Option.isSome_iff_exists.mp isFile with ⟨content, held⟩
      have isImage : toString index ++ suffix ∈ imageFiles l s.files.tree dir :=
        mem_imageFiles.mpr ⟨⟨content, FileTree.readFile_eq_some.mp held⟩,
          counted_page keeps index member⟩
      exact List.mem_map.mpr ⟨_, isImage,
        owns_unique (spec _ isImage).2.owns (owns_page index member)⟩
    · intro member
      rcases List.mem_map.mp member with ⟨name, isImage, rfl⟩
      rcases mem_imageFiles.mp isImage with ⟨⟨content, held⟩, _⟩
      rcases (spec name isImage).2 with ⟨suffix, isSuffix, named⟩
      refine ⟨suffix, List.mem_append_left [".avif"] isSuffix, ?_⟩
      rw [← named, FileTree.readFile_eq_some.mpr held]
      rfl
  have proper : 0 < s.pages.length := List.length_pos_iff.mpr (inv.proper saved)
  have flag : (l.getChapterFileStatus s.files.tree mangaID providerID chapterID
      stored.pageCount).2 = true ↔
        (s.pages.map (·.index)).length ≤ ((imageFiles l s.files.tree dir).map indexOf).length := by
    simp only [Layout.getChapterFileStatus, located, countDownloadedPages_eq, counts saved,
      Bool.and_eq_true, Bool.or_eq_true, decide_eq_true_eq, beq_iff_eq, List.length_map]
    omega
  rw [flag, length_le_iff_subset distinct inv.distinct subset]
  constructor
  · intro covers page isPage
    exact (hasImage_iff page.index).mpr (covers (List.mem_map_of_mem isPage))
  · intro covers index member
    rcases List.mem_map.mp member with ⟨page, isPage, rfl⟩
    exact (hasImage_iff page.index).mp (covers page isPage)

/-! ## Runs -/

section Runs

variable {encode : List PageItem → List UInt8} {mangaID providerID chapterID : String}
  {s s' : ChapterPages} {action : ChapterPages.Action}

namespace ChapterPages

/-- Fewer images, with the list as it was. -/
theorem Inv.shed (inv : s.Inv l dir) {files : Files Document} {jobs : List PageJob}
    (works : ∀ job ∈ jobs, job.Works l dir)
    (fewer : ∀ name ∈ imageFiles l files.tree dir, name ∈ imageFiles l s.files.tree dir)
    (counts : ∀ count, PageCount dir s.files.tree count → PageCount dir files.tree count) :
    ({ s with files, jobs } : ChapterPages).Inv l dir where
  jobs := works
  images name isImage := inv.images name (fewer name isImage)
  single index name isImage other isOther :=
    inv.single index name (fewer name isImage) other (fewer other isOther)
  distinct := inv.distinct
  proper := inv.proper
  count := by
    rcases inv.count with ⟨count, before, same⟩
    exact ⟨count, counts count before, same⟩

/-- A call places one file. -/
theorem places_unique {step : FileStep PullQuestion.Answer} {path other : Path}
    (places : Places (· = path) step) (places' : Places (· = other) step) : path = other := by
  rcases places with ⟨src, _, rfl, ⟨same, _⟩ | ⟨same, _⟩⟩
  · rcases places' with ⟨src', _, rfl, ⟨same', _⟩ | ⟨same', _⟩⟩
    · exact ((FileCall.rename.injEq ..).mp (same.symm.trans same')).2
    · cases same.symm.trans same'
  · rcases places' with ⟨src', _, rfl, ⟨same', _⟩ | ⟨same', _⟩⟩
    · cases same.symm.trans same'
    · exact ((FileCall.link.injEq ..).mp (same.symm.trans same')).2

theorem Inv.step (keeps : KeepsExts l) (named : mangaID ≠ "")
    (located : l.providerChapterDir mangaID providerID chapterID = .ok dir)
    (again : l.providerChapterDir mangaID providerID (l.sanitizeID chapterID) = .ok dir)
    (inv : s.Inv l dir) (step : Step l encode mangaID providerID chapterID s action s')
    (clean : Clean l dir s action) : s'.Inv l dir := by
  cases step with
  | enqueue saved listed =>
      refine inv.shed (fun job member => ?_) (fun _ isImage => isImage) fun _ counts => counts
      rcases List.mem_cons.mp member with rfl | member
      · exact .start located
      · exact inv.jobs job member
  | @call before after job c next choice reply files here stage responded =>
      have jobs := inv.jobs
      rw [here] at jobs
      have works := jobs job (by simp)
      have allowed : Allowed dir job.payload.pageIndex job.toPageFiles c := (works.pulling _ stage).1
      have owned : ∀ name, job.temporary = some name → Owns job.payload.pageIndex name :=
        fun name isKnown => (works.temporary name isKnown).owns
      have isManifest : IsManifest "meta.json" := List.prefix_refl _
      have manifest := Files.find_of_unchanged responded
        (not_changes_of_allowed owned allowed isManifest.not_owns)
      have old : ∀ name ∈ imageFiles l files.tree dir, name ∈ imageFiles l s.files.tree dir ∨
          IsImage job.payload.pageIndex name ∧ Places (· = dir ++ [name]) (s.files, c, choice) :=
        fun name => imageFiles_after works.temporary allowed responded
      -- an image that is placed next to an old one of its page takes its place
      have replaces : ∀ index name other, IsImage index name → IsImage index other →
          IsImage job.payload.pageIndex name → Places (· = dir ++ [name]) (s.files, c, choice) →
          other ∈ imageFiles l s.files.tree dir → other = name := by
        intro index name other image image' isOwn places isOther
        have same := owns_unique image.owns isOwn.owns
        exact (clean name places).2 other isOther (same ▸ image')
      refine ⟨fun other member => ?_, fun name isImage => ?_,
        fun index name isImage other isOther image image' => ?_, inv.distinct, inv.proper, ?_⟩
      · rcases List.mem_append.mp member with earlier | later
        · exact jobs other (List.mem_append_left _ earlier)
        · rcases List.mem_cons.mp later with rfl | later
          · exact works.called stage responded files.tree
          · exact jobs other (List.mem_append_right _ (List.mem_cons_of_mem _ later))
      · rcases old name isImage with before | ⟨image, places⟩
        · exact inv.images name before
        · rcases (clean name places).1 with ⟨page, isPage, same⟩
          exact ⟨page, isPage, same ▸ image⟩
      · rcases old name isImage with before | ⟨own, places⟩
        · rcases old other isOther with before' | ⟨own', places'⟩
          · exact inv.single index name before other before' image image'
          · exact replaces index other name image' image own' places' before
        · rcases old other isOther with before' | ⟨own', places'⟩
          · exact (replaces index name other image image' own places before').symm
          · exact eq_of_concat (places_unique places places')
      · rcases inv.count with ⟨count, ⟨stored, found, counts⟩, same⟩
        refine ⟨count, ⟨stored, ?_, counts⟩, same⟩
        rw [FileTree.readFile_eq_some] at found ⊢
        exact manifest.trans found
  | @stamp before after job handled result choices files here stage ran =>
      have jobs := inv.jobs
      rw [here] at jobs
      have works := jobs job (by simp)
      rcases stampDownloadedAt_section keeps works.located ran with ⟨images, counts⟩
      refine inv.shed (fun other member => ?_) (fun name => images.mem_iff.mp) counts
      rcases List.mem_append.mp member with earlier | later
      · exact jobs other (List.mem_append_left _ earlier)
      · rcases List.mem_cons.mp later with rfl | later
        · exact ⟨works.located, works.temporary, fun rest same => nomatch same⟩
        · exact jobs other (List.mem_append_right _ (List.mem_cons_of_mem _ later))
  | @refresh pages saved choices files ran =>
      rcases saveChapterPages_section keeps named again ran rfl with ⟨⟨images, stays, counts⟩, proper⟩
      cases saved with
      | false => exact inv.shed inv.jobs (fun name => images.mem_iff.mp) (stays rfl)
      | true =>
          rcases clean rfl with ⟨distinct, covered, granted⟩
          refine ⟨inv.jobs, fun name isImage => ?_, fun index name isImage other isOther => ?_,
            distinct, fun _ => proper rfl, ?_⟩
          · exact covered name (images.mem_iff.mp isImage)
          · exact inv.single index name (images.mem_iff.mp isImage) other
              (images.mem_iff.mp isOther)
          · rcases inv.count with ⟨count, before, _⟩
            exact ⟨_, counts rfl granted count before, fun _ => rfl⟩
  | deleteFiles =>
      rcases deleteChapterFiles_sheds located s.files.tree with ⟨sheds, counts⟩
      refine inv.shed inv.jobs (fun name isImage => ?_) counts
      rcases mem_imageFiles.mp isImage with ⟨⟨content, stored⟩, counted⟩
      have other : name ≠ "meta.json" := fun same =>
        not_counted_document keeps (.inl same) counted
      rcases sheds name other with same | gone
      · exact mem_imageFiles.mpr ⟨⟨content, same.symm.trans stored⟩, counted⟩
      · rw [gone] at stored
        cases stored

theorem inv_of_fresh (fresh : Fresh l dir s) : s.Inv l dir where
  jobs job member := by simp [fresh.jobs] at member
  images name isImage := by simp [fresh.images] at isImage
  single _ name isImage := by simp [fresh.images] at isImage
  distinct := by simp [pages, fresh.lists]
  proper saved := absurd fresh.lists saved
  count := by
    rcases fresh.manifest with ⟨stored, found⟩
    exact ⟨stored.pageCount, ⟨stored, found, rfl⟩, fun saved => absurd fresh.lists saved⟩

end ChapterPages

end Runs

/-- In every run in which the images stay one for each page of the list, the flag of a chapter
whose page list was saved says exactly whether all pages are there. -/
theorem flagExact_of_clean (l : Layout) (keeps : KeepsExts l) (encode : List PageItem → List UInt8)
    (mangaID providerID chapterID : String) (dir : Path) (named : mangaID ≠ "")
    (located : l.providerChapterDir mangaID providerID chapterID = .ok dir)
    (again : l.providerChapterDir mangaID providerID (l.sanitizeID chapterID) = .ok dir)
    (s₀ s : ChapterPages) (fresh : s₀.Fresh l dir)
    (reached : Relation.ReflTransGen (fun s s' => ∃ action,
      ChapterPages.Step l encode mangaID providerID chapterID s action s' ∧ s.Clean l dir action)
        s₀ s)
    (saved : s.lists ≠ []) : s.FlagExact l mangaID providerID chapterID dir := by
  have inv : s.Inv l dir := by
    clear saved
    induction reached with
    | refl => exact ChapterPages.inv_of_fresh fresh
    | tail _ taken induction =>
        rcases taken with ⟨action, step, clean⟩
        exact induction.step keeps named located again step clean
  exact inv.flagExact keeps located saved

/-! ## One page of one, and one page of two -/

/-- A run of the rest of a handler, taken call by call. -/
theorem ChapterPages.reached_of_run {encode : List PageItem → List UInt8}
    {mangaID providerID chapterID : String} {rest : PullEffect Handled} {lists : List (List PageItem)}
    {job : PageJob} {jobs : List PageJob} (stage : job.stage = .pulling rest)
    {files files' : Files Document} {choices : List (FileChoice PullQuestion.Answer)}
    {handled : Handled} (ran : rest.run Files.respond files choices = some (handled, files')) :
    ∃ job', Relation.ReflTransGen (fun s s' : ChapterPages => s.lists = lists ∧
        ∃ step ∈ rest.steps Files.respond files choices, s.files = step.1 ∧
          Step l encode mangaID providerID chapterID s (.call job.payload.pageIndex step) s')
      ⟨files, job :: jobs, lists⟩ ⟨files', job' :: jobs, lists⟩ := by
  induction rest generalizing job files choices with
  | done value =>
      rcases Program.run_done.mp ran with ⟨_, rfl, rfl⟩
      exact ⟨job, .refl⟩
  | call c next induction =>
      rcases Program.run_call.mp ran with ⟨choice, later, reply, middle, rfl, responded, rest_ran⟩
      have goesOn : (job.called c reply middle.tree (next reply)).stage = .pulling (next reply) := rfl
      rcases induction reply goesOn rest_ran with ⟨job', reached⟩
      rw [Program.steps_call responded]
      have here : job :: jobs = [] ++ job :: jobs := rfl
      refine ⟨job', .head ⟨rfl, (files, c, choice), List.mem_cons_self, rfl,
        .call here stage responded⟩ ?_⟩
      refine Relation.ReflTransGen.mono ?_ _ _ reached
      rintro s s' ⟨same, step, isStep, same', taken⟩
      exact ⟨same, step, List.mem_cons_of_mem _ isStep, same', taken⟩

/-- A chapter with a manifest only. -/
def newChapter : ChapterPages where
  files := .ofTree (FileTree.ofEntries
    [(["library", "m", "p", "c", "meta.json"], .file (.chapter ChapterMeta.zero)),
      (["library", "m", "p", "c"], .directory), (["library", "m", "p"], .directory),
      (["library", "m"], .directory), (["library"], .directory)] rfl)
  jobs := []
  lists := []

def newPage (index : Int) : PageItem := ⟨index, "https://img.test/page", "provider"⟩

/-- Every call is granted while the page list is saved. -/
def listChoices : List (FileChoice PullQuestion.Answer) := List.replicate 13 (.grant "1")

/-- The image of a page is fetched, written and renamed. -/
def imageChoices (contentType : String) : List (FileChoice PullQuestion.Answer) :=
  [.answer (.validateURL "https://img.test/page") true,
    .answer (.cached "https://img.test/page") none,
    .answer (.fetch "https://img.test/page" "p") (some ⟨200, contentType, [255, 216]⟩),
    .grant "", .grant "1", .grant "", .grant "", .grant ""]

instance (disk : Disk) (dir : Path) (index : Int) : Decidable (HasImage disk dir index) :=
  inferInstanceAs (Decidable (∃ suffix ∈ Layout.imageExts, _))

/-- The chapter is flagged. -/
def flagged (disk : Disk) : Bool :=
  match disk.readFile ["library", "m", "p", "c", "meta.json"] with
  | some (.chapter stored) =>
      (libraryLayout.getChapterFileStatus disk "m" "p" "c" stored.pageCount).2
  | _ => false

def savedList (pages : List PageItem) : Option (Bool × Files Document) :=
  (Effects.saveChapterPages libraryLayout (fun _ => []) "m" "p" "c" pages : PullEffect Bool).run
    Files.respond newChapter.files listChoices

def pulledPage (files : Files Document) (contentType : String) : Option (Handled × Files Document) :=
  (pullImage libraryLayout ⟨"m", "p", "c", 0, "https://img.test/page"⟩).run Files.respond files
    (imageChoices contentType)

/-- The only page is pulled. -/
def pulledOnce : Option (Files Document) :=
  (savedList [newPage 0]).bind fun (saved, files) =>
    if saved then (pulledPage files "image/jpeg").map (·.2) else none

/-- The first of two pages is pulled twice, as JPEG and as PNG. -/
def pulledTwice : Option (Files Document) :=
  (savedList [newPage 0, newPage 1]).bind fun (saved, files) =>
    if saved then
      (pulledPage files "image/jpeg").bind fun (_, files) =>
        (pulledPage files "image/png").map (·.2)
    else none

/-- Some step of the example. -/
def NewStep (s s' : ChapterPages) : Prop :=
  ∃ action, ChapterPages.Step libraryLayout (fun _ => []) "m" "p" "c" s action s'

theorem pulledPage_reaches {files files' : Files Document} {contentType : String} {handled : Handled}
    {jobs : List PageJob} {pages : List PageItem} (isPage : newPage 0 ∈ pages)
    (pulled : pulledPage files contentType = some (handled, files')) :
    ∃ jobs', Relation.ReflTransGen NewStep ⟨files, jobs, [pages]⟩ ⟨files', jobs', [pages]⟩ := by
  have started : (PageJob.start libraryLayout ⟨"m", "p", "c", 0, "https://img.test/page"⟩).stage =
      .pulling (pullImage libraryLayout ⟨"m", "p", "c", 0, "https://img.test/page"⟩) := rfl
  rcases @ChapterPages.reached_of_run libraryLayout (fun _ => []) "m" "p" "c" _ [pages] _ jobs started
    _ _ _ _ pulled with ⟨job', reached⟩
  refine ⟨job' :: jobs, .head ⟨_, .enqueue List.mem_cons_self isPage⟩ ?_⟩
  refine Relation.ReflTransGen.mono ?_ _ _ reached
  rintro s s' ⟨_, step, _, _, taken⟩
  exact ⟨_, taken⟩

/-- The chapter is flagged, and its second page is missing. -/
theorem two_images_of_one_page :
    ¬ ∀ s, Relation.ReflTransGen NewStep newChapter s → s.lists ≠ [] →
      s.FlagExact libraryLayout "m" "p" "c" ["library", "m", "p", "c"] := by
  intro claimed
  have wrong : pulledTwice.map (fun files => (flagged files.tree,
      decide (HasImage files.tree ["library", "m", "p", "c"] 1))) = some (true, false) := by
    decide +kernel
  rcases Option.map_eq_some_iff.mp wrong with ⟨files, pulled, result⟩
  rcases Option.bind_eq_some_iff.mp pulled with ⟨⟨saved, files₁⟩, listed, pulled⟩
  simp only at pulled
  split at pulled
  · rename_i isSaved
    rcases Option.bind_eq_some_iff.mp pulled with ⟨⟨handled, files₂⟩, first, pulled⟩
    rcases Option.map_eq_some_iff.mp pulled with ⟨⟨handled', files₃⟩, second, rfl⟩
    have start : NewStep newChapter
        { newChapter with
          files := files₁, lists := if saved then [[newPage 0, newPage 1]] else [] } :=
      ⟨_, .refresh listed⟩
    rw [if_pos isSaved] at start
    rcases @pulledPage_reaches _ _ _ _ [] _ (List.mem_cons_self) first with ⟨jobs, reached⟩
    rcases @pulledPage_reaches _ _ _ _ jobs _ (List.mem_cons_self) second with ⟨jobs', reached'⟩
    rcases claimed _ ((reached.head start).trans reached') (by simp) with ⟨stored, found, exactly⟩
    have read : files₃.tree.readFile ["library", "m", "p", "c", "meta.json"] =
        some (.chapter stored) := found
    simp only [Prod.mk.injEq, flagged, read, decide_eq_false_iff_not] at result
    exact result.2 (exactly.mp result.1 (newPage 1) (by simp [ChapterPages.pages]))
  · cases pulled

/-- A call that can put a file in place. -/
def isPlacing : FileCall Document PullQuestion → Bool
  | .rename .. | .link .. => true
  | _ => false

theorem flagExact_of_clean_one_page :
    ∃ s : ChapterPages, s.lists = [[newPage 0]] ∧ flagged s.files.tree = true ∧
      s.FlagExact libraryLayout "m" "p" "c" ["library", "m", "p", "c"] := by
  have keeps : KeepsExts libraryLayout := fun _ _ => rfl
  have fresh : newChapter.Fresh libraryLayout ["library", "m", "p", "c"] :=
    ⟨⟨_, rfl⟩, by decide +kernel, rfl, rfl⟩
  have granted : ∀ step ∈ (Effects.saveChapterPages libraryLayout (fun _ => []) "m" "p" "c"
      [newPage 0] : PullEffect Bool).steps Files.respond newChapter.files listChoices,
      step.2.2.isRefusal = false := by decide +kernel
  -- no image is there yet when one is placed
  have first : ((savedList [newPage 0]).all fun listed =>
      ((pullImage libraryLayout ⟨"m", "p", "c", 0, "https://img.test/page"⟩).steps Files.respond
        listed.2 (imageChoices "image/jpeg")).all fun step => !isPlacing step.2.1 ||
          (imageFiles libraryLayout step.1.tree ["library", "m", "p", "c"]).isEmpty) = true := by
    decide +kernel
  have isFlagged : pulledOnce.map (fun files => flagged files.tree) = some true := by
    decide +kernel
  rcases Option.map_eq_some_iff.mp isFlagged with ⟨files, pulled, result⟩
  rcases Option.bind_eq_some_iff.mp pulled with ⟨⟨saved, files₁⟩, listed, pulled⟩
  rw [listed] at first
  simp only at pulled
  split at pulled
  · rename_i isSaved
    rcases Option.map_eq_some_iff.mp pulled with ⟨⟨handled, files₂⟩, ran, rfl⟩
    have started : (PageJob.start libraryLayout
        ⟨"m", "p", "c", 0, "https://img.test/page"⟩).stage =
          .pulling (pullImage libraryLayout ⟨"m", "p", "c", 0, "https://img.test/page"⟩) := rfl
    rcases @ChapterPages.reached_of_run libraryLayout (fun _ => []) "m" "p" "c" _ [[newPage 0]] _ []
      started _ _ _ _ ran with ⟨job', reached⟩
    refine ⟨⟨files₂, [job'], [[newPage 0]]⟩, rfl, result, ?_⟩
    refine flagExact_of_clean libraryLayout keeps (fun _ => []) "m" "p" "c" _ (by decide)
      (by decide +kernel) (by decide +kernel) newChapter _ fresh ?_ (by simp)
    refine .head ⟨.refresh [newPage 0] saved _, .refresh listed, fun _ => ⟨by simp, ?_, ?_⟩⟩ ?_
    · simp [fresh.images]
    · exact fun step isStep _ _ => granted step isStep
    rw [if_pos isSaved]
    refine .head ⟨.enqueue (newPage 0), .enqueue List.mem_cons_self List.mem_cons_self, trivial⟩ ?_
    refine Relation.ReflTransGen.mono ?_ _ _ reached
    rintro s s' ⟨lists, step, isStep, here, taken⟩
    refine ⟨_, taken, fun name places => ⟨⟨newPage 0, by simp [ChapterPages.pages, lists], rfl⟩, ?_⟩⟩
    have isPlacing : isPlacing step.2.1 = true := by
      rcases places with ⟨src, dst, _, ⟨same, _⟩ | ⟨same, _⟩⟩
      · rw [same]
        rfl
      · rw [same]
        rfl
    have none := List.all_eq_true.mp first step isStep
    rw [isPlacing, Bool.not_true, Bool.false_or, List.isEmpty_iff, ← here] at none
    simp [none]
  · cases pulled

end Kiyomi.Queue
