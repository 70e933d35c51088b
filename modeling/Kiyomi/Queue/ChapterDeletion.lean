import Kiyomi.Library.ChapterFiles
import Kiyomi.Queue.PageJobs

namespace Kiyomi.Queue

open Go Library

/-! # Deletion of a chapter's files

`DeleteChapterFiles` selects files by patterns that begin with the path of the chapter,
`countDownloadedPages` by their extensions. -/

/-- The files that `countDownloadedPages` counts. -/
def imageFiles (l : Layout) (disk : Disk) (dir : Path) : List String :=
  ((disk.readDir dir).getD []).filter fun name =>
    (disk.readFile (dir ++ [name])).isSome && !contains name ".tmp." &&
      Layout.imageExts.contains (l.toLower (ext name))

/-- A name that is counted when there is a file of it. -/
def Counted (l : Layout) (name : String) : Prop :=
  contains name ".tmp." = false ∧ l.toLower (ext name) ∈ Layout.imageExts

variable {l : Layout} {dir : Path} {disk disk' : Disk}

theorem countDownloadedPages_eq : l.countDownloadedPages disk dir = (imageFiles l disk dir).length :=
  List.countP_eq_length_filter

theorem mem_imageFiles {name : String} : name ∈ imageFiles l disk dir ↔
    (∃ content, disk.find (dir ++ [name]) = some (.file content)) ∧ Counted l name := by
  simp only [imageFiles, List.mem_filter, mem_listed, Bool.and_eq_true, Bool.not_eq_true',
    List.contains_iff_mem, Option.isSome_iff_exists, FileTree.readFile_eq_some, Counted, and_assoc]
  constructor
  · rintro ⟨_, stored, counted⟩
    exact ⟨stored, counted⟩
  · rintro ⟨⟨content, stored⟩, counted⟩
    exact ⟨by simp [stored], ⟨content, stored⟩, counted⟩

/-! ## What is removed -/

/-- Certain paths are removed, and nothing else happens. -/
def Removes (gone : Path → Prop) (disk disk' : Disk) : Prop :=
  ∀ q, (gone q → disk'.find q = none) ∧ (¬ gone q → disk'.find q = disk.find q)

theorem Removes.shrinks {gone : Path → Prop} (removes : Removes gone disk disk') :
    Shrinks disk disk' := by
  intro q
  by_cases isGone : gone q
  · exact .inr ((removes q).1 isGone)
  · exact .inl ((removes q).2 isGone)

theorem Removes.trans {first second : Path → Prop} {middle : Disk}
    (before : Removes first disk middle) (after : Removes second middle disk') :
    Removes (fun q => first q ∨ second q) disk disk' := by
  intro q
  constructor
  · rintro (isFirst | isSecond)
    · rcases after.shrinks q with kept | gone
      · rw [kept]
        exact (before q).1 isFirst
      · exact gone
    · exact (after q).1 isSecond
  · intro other
    rw [not_or] at other
    rw [(after q).2 other.2, (before q).2 other.1]

theorem Removes.congr {gone other : Path → Prop} (removes : Removes gone disk disk')
    (same : ∀ q, disk.find q ≠ none → (gone q ↔ other q)) : Removes other disk disk' := by
  intro q
  by_cases absent : disk.find q = none
  · have gone : disk'.find q = none := by
      rcases removes.shrinks q with kept | gone
      · rw [kept, absent]
      · exact gone
    exact ⟨fun _ => gone, fun _ => by rw [gone, absent]⟩
  · rw [← same q absent]
    exact removes q

theorem removeFile_removes {path : Path} (proper : path ≠ [])
    (removed : removeFile path disk = some disk') : Removes (· = path) disk disk' := by
  intro q
  rw [removeFile] at removed
  split at removed
  · contradiction
  · rw [FileTree.find_remove proper removed]
    exact ⟨fun same => if_pos same, fun other => if_neg other⟩

theorem removeFiles_removes {found : List Path} (proper : ∀ path ∈ found, path ≠ [])
    (removed : each (fun path => orKeep (removeFile path)) found disk = (disk', true)) :
    Removes (· ∈ found) disk disk' := by
  induction found generalizing disk with
  | nil =>
      cases removed
      exact fun q => ⟨fun member => (nomatch member), fun _ => rfl⟩
  | cons path found induction =>
      rw [List.forall_mem_cons] at proper
      rw [each, orKeep] at removed
      cases first : removeFile path disk with
      | none => simp [first] at removed
      | some middle =>
          simp only [first] at removed
          have one := removeFile_removes proper.1 first
          have rest := induction proper.2 removed
          exact (one.trans rest).congr fun q _ => List.mem_cons.symm

/-- The pattern for an extension matches the path. -/
def Matched (disk : Disk) (dir : Path) (ext : String) (q : Path) : Prop :=
  ∃ dirs, globDirs disk dir = some dirs ∧ ∃ upper ∈ dirs, MatchesIn disk ("*" ++ ext) upper q

theorem Matched.after {middle : Disk} (shrinks : Shrinks disk middle) {dirs dirs' : List Path}
    (before : globDirs disk dir = some dirs) (after : globDirs middle dir = some dirs')
    {ext : String} {q : Path} :
    Matched middle dir ext q ↔ Matched disk dir ext q ∧ middle.find q ≠ none := by
  constructor
  · rintro ⟨_, here, upper, isUpper, name, rfl, present, matched⟩
    obtain rfl : dirs' = _ := Option.some.inj (after.symm.trans here)
    have listed := (shrinks.mem_globDirs before after (present_of_concat present)).mp isUpper
    exact ⟨⟨dirs, before, upper, listed, name, rfl, shrinks.present present, matched⟩, present⟩
  · rintro ⟨⟨_, here, upper, isUpper, name, rfl, _, matched⟩, present⟩
    obtain rfl : dirs = _ := Option.some.inj (before.symm.trans here)
    have listed := (shrinks.mem_globDirs before after (present_of_concat present)).mpr isUpper
    exact ⟨dirs', after, upper, listed, name, rfl, present, matched⟩

theorem removeImages_removes {ext : String}
    (removed : Layout.removeImages dir ext disk = (disk', true)) :
    (∃ dirs, globDirs disk dir = some dirs) ∧ Removes (Matched disk dir ext) disk disk' := by
  rw [Layout.removeImages] at removed
  split at removed
  · cases removed
  · rename_i found globbed
    have isPattern : hasMeta ("*" ++ ext) = true := by simp [hasMeta]
    have member : ∀ q, q ∈ found ↔ Matched disk dir ext q := by
      intro q
      rcases @mem_glob _ _ _ q _ _ isPattern globbed with ⟨dirs, upper, iff⟩
      rw [iff, Matched, upper]
      simp
    have proper : ∀ path ∈ found, path ≠ [] := by
      intro path isFound
      rcases (member path).mp isFound with ⟨_, _, _, _, _, rfl, _⟩
      simp
    have removes := removeFiles_removes proper removed
    rcases @mem_glob _ _ _ [] _ _ isPattern globbed with ⟨dirs, upper, _⟩
    refine ⟨⟨dirs, upper⟩, fun q => ?_⟩
    rw [← member q]
    exact removes q

theorem globs_of_removed {exts : List String} {ext : String} (member : ext ∈ exts)
    (removed : each (Layout.removeImages dir) exts disk = (disk', true)) :
    ∃ dirs, globDirs disk dir = some dirs := by
  cases exts with
  | nil => exact nomatch member
  | cons first exts =>
      rw [each] at removed
      split at removed
      · rename_i middle ran
        exact (removeImages_removes ran).1
      · cases removed

theorem removeAllImages_removes {exts : List String}
    (removed : each (Layout.removeImages dir) exts disk = (disk', true)) :
    Removes (fun q => ∃ ext ∈ exts, Matched disk dir ext q) disk disk' := by
  induction exts generalizing disk with
  | nil =>
      cases removed
      exact fun q => ⟨fun ⟨_, member, _⟩ => (nomatch member), fun _ => rfl⟩
  | cons ext exts induction =>
      rw [each] at removed
      split at removed
      · rename_i middle first
        rcases removeImages_removes first with ⟨⟨dirs, before⟩, one⟩
        refine (one.trans (induction removed)).congr fun q present => ?_
        by_cases isFirst : Matched disk dir ext q
        · exact iff_of_true (.inl isFirst) ⟨ext, List.mem_cons_self, isFirst⟩
        · have still : middle.find q ≠ none := by rwa [(one q).2 isFirst]
          have later : ∀ other ∈ exts, (Matched middle dir other q ↔ Matched disk dir other q) := by
            intro other member
            rcases globs_of_removed member removed with ⟨dirs', after⟩
            rw [Matched.after one.shrinks before after, and_iff_left still]
          simp only [isFirst, false_or, List.exists_mem_cons_iff]
          exact exists_congr fun other => and_congr_right fun member => later other member
      · cases removed

theorem removePages_removes (removed : Layout.removePages dir disk = (disk', true)) :
    Removes (· = dir ++ ["pages.json"]) disk disk' := by
  rw [Layout.removePages] at removed
  split at removed
  · rename_i absent
    cases removed
    rw [Layout.notExist, Bool.and_eq_true, decide_eq_true_eq] at absent
    exact fun q => ⟨fun same => same ▸ absent.1, fun _ => rfl⟩
  · rw [orKeep] at removed
    split at removed
    · rename_i after ran
      cases removed
      exact removeFile_removes (by simp) ran
    · cases removed

/-- What `deleteChapterFiles` does to the manifest. -/
inductive Forgets (disk disk' : Disk) (manifest : Path) : Prop
  | unread (same : disk'.find manifest = disk.find manifest)
      (other : ∀ stored, disk.find manifest ≠ some (.file (.chapter stored)))
  | saved (stored : ChapterMeta) (pages : Nat)
      (before : disk.find manifest = some (.file (.chapter stored)))
      (after : disk'.find manifest = some (.file (.chapter
        ({ stored.read pages with downloadedAt := Time.zero }).saved)))

variable {mangaID providerID chapterID : String}

theorem forgetDownload_forgets
    (located : l.providerChapterDir mangaID providerID chapterID = .ok dir)
    (forgot : l.forgetDownload mangaID providerID chapterID dir disk = (disk', true)) :
    Forgets disk disk' (dir ++ ["meta.json"]) ∧
      ∀ q, q ≠ dir ++ ["meta.json"] → disk'.find q = disk.find q := by
  rw [Layout.forgetDownload] at forgot
  split at forgot
  · rename_i absent
    cases forgot
    rw [Option.isNone_iff_eq_none] at absent
    exact ⟨.unread rfl (by simp [absent]), fun _ _ => rfl⟩
  · rename_i present
    have found : disk.find (dir ++ ["meta.json"]) ≠ none := by
      rwa [Option.isNone_iff_eq_none] at present
    cases got : l.getChapter disk mangaID providerID chapterID with
    | none =>
        simp only [got] at forgot
        cases forgot
        refine ⟨.unread rfl fun stored same => ?_, fun _ _ => rfl⟩
        simp [Layout.getChapter, located, FileTree.readFile, same] at got
    | some chMeta =>
        simp only [got, orKeep] at forgot
        split at forgot
        · rename_i after saved
          cases forgot
          simp only [Layout.saveChapter, located] at saved
          rcases Option.bind_eq_some_iff.mp saved with ⟨middle, created, written⟩
          have isDirectory : disk.find dir = some .directory := by
            rcases Option.ne_none_iff_exists'.mp found with ⟨node, found⟩
            exact FileTree.parent found
          have same : ∀ q, middle.find q = disk.find q := by
            intro q
            rw [FileTree.find_mkdirAll created]
            split
            · rename_i upper
              exact (FileTree.directory_above upper isDirectory).symm
            · rfl
          simp only [Layout.getChapter, located] at got
          split at got
          · rename_i stored manifest
            cases got
            refine ⟨.saved stored (l.countDownloadedPages disk dir)
              (FileTree.readFile_eq_some.mp manifest) ?_, fun q other => ?_⟩
            · rw [FileTree.find_put written, if_pos rfl]
            · rw [FileTree.find_put written, if_neg other, same]
          · cases got
        · cases forgot

/-- What a deletion does that returns without an error. -/
structure Deletes (disk disk' : Disk) (dir : Path) : Prop where
  manifest : Forgets disk disk' (dir ++ ["meta.json"])
  pages : disk'.find (dir ++ ["pages.json"]) = none
  others : ∀ q, q ≠ dir ++ ["meta.json"] → q ≠ dir ++ ["pages.json"] →
    ((∃ ext ∈ Layout.imageExts, Matched disk dir ext q) → disk'.find q = none) ∧
    ((¬ ∃ ext ∈ Layout.imageExts, Matched disk dir ext q) → disk'.find q = disk.find q)

/-- The names of the two documents match no pattern of an image. -/
theorem not_matched_document {name : String} (document : name = "meta.json" ∨ name = "pages.json") :
    ¬ ∃ ext ∈ Layout.imageExts, Matched disk dir ext (dir ++ [name]) := by
  rintro ⟨ext, isExt, _, _, upper, _, other, same, _, matched⟩
  obtain rfl : name = other := by simpa using (List.append_inj' same rfl).2
  revert ext
  rcases document with rfl | rfl
  · decide +kernel
  · decide +kernel

theorem deleteChapterFiles_deletes
    (located : l.providerChapterDir mangaID providerID chapterID = .ok dir)
    (deleted : l.deleteChapterFiles mangaID providerID chapterID disk = (disk', true)) :
    Deletes disk disk' dir := by
  simp only [Layout.deleteChapterFiles, located] at deleted
  split at deleted
  · cases deleted
  split at deleted
  · cases deleted
  rename_i middle ran
  split at deleted
  · cases deleted
  rename_i last ranPages
  have images := removeAllImages_removes ran
  have pages := removePages_removes ranPages
  rcases forgetDownload_forgets located deleted with ⟨forgets, others⟩
  have manifest : last.find (dir ++ ["meta.json"]) = disk.find (dir ++ ["meta.json"]) := by
    rw [(pages _).2 (by simp), (images _).2 (not_matched_document (.inl rfl))]
  refine ⟨?_, ?_, fun q notManifest notPages => ?_⟩
  · cases forgets with
    | unread same other =>
        rw [manifest] at same other
        exact .unread same other
    | saved stored count before after =>
        rw [manifest] at before
        exact .saved stored count before after
  · rw [others _ (by simp)]
    exact (pages _).1 rfl
  · rw [others q notManifest, (pages q).2 notPages]
    exact images q

/-! ## When exactly the chapter's files are removed -/

/-- The image files in the directory are such as the pull of a page makes. -/
def Pulled (l : Layout) (disk : Disk) (dir : Path) : Prop :=
  ∀ name ∈ imageFiles l disk dir, ∃ index, IsImage index name

/-- All but what is computed when the manifest is read, and the time of the download. -/
def SameButDownload (stored after : ChapterMeta) : Prop :=
  { after with
    downloadedAt := stored.downloadedAt
    downloadedPages := stored.downloadedPages
    isDownloaded := stored.isDownloaded } = stored

/-- No image is left, the manifest differs in the download, and no file elsewhere is touched. -/
structure FreesChapter (l : Layout) (disk disk' : Disk) (dir : Path) : Prop where
  freed : l.countDownloadedPages disk' dir = 0
  manifest : ∀ stored, disk.readFile (dir ++ ["meta.json"]) = some (.chapter stored) →
    ∃ after, disk'.readFile (dir ++ ["meta.json"]) = some (.chapter after) ∧
      SameButDownload stored after
  others : ∀ q, (∀ name, q ≠ dir ++ [name]) → ∀ content, disk.readFile q = some content →
    disk'.readFile q = some content

/-- The path of the chapter, as a pattern, selects the chapter's images and no file of another
directory, and the manifest names its source. -/
structure SelectsItself (l : Layout) (disk : Disk) (dir : Path) : Prop where
  own : imageFiles l disk dir ≠ [] → ∃ dirs, globDirs disk dir = some dirs ∧ dir ∈ dirs
  only : ∀ ext ∈ Layout.imageExts, ∀ q, Matched disk dir ext q → (disk.readFile q).isSome →
    ∃ name, q = dir ++ [name]
  named : ∀ stored, disk.readFile (dir ++ ["meta.json"]) = some (.chapter stored) →
    ∀ content, stored.content = some content → content.providerID ≠ ""

theorem IsImage.matches {index : Int} {name : String} (isImage : IsImage index name) :
    ∃ ext ∈ Layout.imageExts, matchName ("*" ++ ext) name = some true := by
  rcases isImage with ⟨suffix, member, rfl⟩
  refine ⟨suffix, List.mem_append_left [".avif"] member, ?_⟩
  have letters : suffix.toList.all (fun c => !(['*', '?', '[', '\\', '/'].contains c)) = true ∧
      suffix ≠ "" := by
    revert suffix
    decide +kernel
  have parts : (∀ c ∈ suffix.toList, Literal c) ∧ '/' ∉ suffix.toList := by
    simp only [List.all_eq_true, Bool.not_eq_true', List.contains_eq_mem, decide_eq_false_iff_not,
      List.mem_cons, not_or] at letters
    exact ⟨fun c isIn => by simp [Literal, letters.1 c isIn],
      fun slash => (letters.1 '/' slash).2.2.2.2.1 rfl⟩
  have noSlash : '/' ∉ (toString index ++ suffix).toList := by
    rw [String.toList_append, List.mem_append, not_or]
    refine ⟨fun slash => ?_, parts.2⟩
    rcases mem_toString slash with digit | minus
    · simp at digit
    · simp at minus
  rw [matchName_star parts.1 letters.2 noSlash, Option.some.injEq, List.isSuffixOf_iff_suffix,
    String.toList_append]
  exact List.suffix_append _ _

theorem IsImage.ne_document {index : Int} {name : String} (isImage : IsImage index name) :
    name ≠ "meta.json" ∧ name ≠ "pages.json" := by
  rcases isImage with ⟨suffix, member, rfl⟩
  have last : suffix.toList.getLast? ≠ some 'n' := by
    revert suffix
    decide +kernel
  have proper : suffix.toList ≠ [] := by
    revert suffix
    decide +kernel
  have ends : (toString index ++ suffix).toList.getLast? ≠ some 'n' := by
    rw [String.toList_append, List.getLast?_append_of_ne_nil _ proper]
    exact last
  exact ⟨fun same => ends (by rw [same]; rfl), fun same => ends (by rw [same]; rfl)⟩

theorem matched_own {name ext : String} (matched : Matched disk dir ext (dir ++ [name])) :
    ∃ dirs, globDirs disk dir = some dirs ∧ dir ∈ dirs := by
  rcases matched with ⟨dirs, selected, upper, isUpper, other, same, _⟩
  obtain rfl : dir = upper := (List.append_inj' same rfl).1
  exact ⟨dirs, selected, isUpper⟩

theorem sameButDownload_iff {stored : ChapterMeta} {pages : Nat} :
    SameButDownload stored ({ stored.read pages with downloadedAt := Time.zero }).saved ↔
      ∀ content, stored.content = some content → content.providerID ≠ "" := by
  have content_iff : SameButDownload stored
      ({ stored.read pages with downloadedAt := Time.zero }).saved ↔
        (stored.content.map fun content =>
          if content.providerID = "" then { content with providerID := "local" } else content) =
            stored.content := by
    cases stored
    simp [SameButDownload, ChapterMeta.saved, ChapterMeta.read]
  rw [content_iff]
  cases stored.content with
  | none => simp
  | some content =>
      by_cases unnamed : content.providerID = ""
      · simp only [Option.map_some, unnamed, if_true, Option.some.injEq, forall_eq', ne_eq,
          not_true_eq_false, iff_false]
        intro same
        have named : "local" = "" := (congrArg ContentSource.providerID same).trans unnamed
        exact absurd named (by decide)
      · simp [unnamed]

variable {mangaID providerID chapterID : String}

/-- Deletion without an error removes the chapter's images and nothing else exactly if the path of
the chapter selects itself. -/
theorem deleteChapterFiles_frees_iff (pulled : Pulled l disk dir)
    (located : l.providerChapterDir mangaID providerID chapterID = .ok dir)
    (deleted : l.deleteChapterFiles mangaID providerID chapterID disk = (disk', true)) :
    FreesChapter l disk disk' dir ↔ SelectsItself l disk dir := by
  have deletes := deleteChapterFiles_deletes located deleted
  constructor
  · rintro ⟨freed, manifest, others⟩
    refine ⟨fun images => ?_, fun ext isExt q matched isFile => ?_, fun stored here => ?_⟩
    · rcases List.exists_mem_of_ne_nil _ images with ⟨name, isImage⟩
      rcases pulled name isImage with ⟨index, image⟩
      rcases mem_imageFiles.mp isImage with ⟨⟨content, stored⟩, counted⟩
      have removed := deletes.others (dir ++ [name]) (by simpa using image.ne_document.1)
        (by simpa using image.ne_document.2)
      by_cases matched : ∃ ext ∈ Layout.imageExts, Matched disk dir ext (dir ++ [name])
      · rcases matched with ⟨ext, _, matched⟩
        exact matched_own matched
      · have still : name ∈ imageFiles l disk' dir :=
          mem_imageFiles.mpr ⟨⟨content, by rw [removed.2 matched, stored]⟩, counted⟩
        rw [countDownloadedPages_eq, List.length_eq_zero_iff] at freed
        simp [freed] at still
    · by_contra elsewhere
      rw [not_exists] at elsewhere
      rcases Option.isSome_iff_exists.mp isFile with ⟨content, stored⟩
      have kept := others q elsewhere content stored
      rw [FileTree.readFile_eq_some, (deletes.others q (elsewhere _) (elsewhere _)).1
        ⟨ext, isExt, matched⟩] at kept
      cases kept
    · rcases manifest stored here with ⟨after, saved, same⟩
      rw [FileTree.readFile_eq_some] at here saved
      cases deletes.manifest with
      | unread _ other => exact absurd here (other stored)
      | saved stored' pages before after' =>
          obtain rfl : stored = stored' := by simpa [before] using here.symm
          obtain rfl : _ = after := by simpa [saved] using after'.symm
          exact sameButDownload_iff.mp same
  · rintro ⟨own, only, named⟩
    refine ⟨?_, fun stored here => ?_, fun q elsewhere content stored => ?_⟩
    · rw [countDownloadedPages_eq, List.length_eq_zero_iff, List.eq_nil_iff_forall_not_mem]
      intro name isImage
      rcases mem_imageFiles.mp isImage with ⟨⟨content, stored⟩, counted⟩
      by_cases isManifest : name = "meta.json"
      · -- the manifest was there before, and it is none of the images
        have before : ∃ content, disk.find (dir ++ [name]) = some (.file content) := by
          rw [isManifest] at stored ⊢
          cases deletes.manifest with
          | unread same _ => exact ⟨content, by rw [← same, stored]⟩
          | saved _ _ before _ => exact ⟨_, before⟩
        rcases pulled name (mem_imageFiles.mpr ⟨before, counted⟩) with ⟨index, image⟩
        exact image.ne_document.1 isManifest
      by_cases isPages : name = "pages.json"
      · rw [isPages, deletes.pages] at stored
        cases stored
      have removed := deletes.others (dir ++ [name]) (by simpa using isManifest)
        (by simpa using isPages)
      by_cases matched : ∃ ext ∈ Layout.imageExts, Matched disk dir ext (dir ++ [name])
      · rw [removed.1 matched] at stored
        cases stored
      · rw [removed.2 matched] at stored
        have listed : name ∈ imageFiles l disk dir := mem_imageFiles.mpr ⟨⟨content, stored⟩, counted⟩
        rcases pulled name listed with ⟨index, image⟩
        rcases image.matches with ⟨ext, isExt, selects⟩
        rcases own (List.ne_nil_of_mem listed) with ⟨dirs, selected, isDir⟩
        exact matched ⟨ext, isExt, dirs, selected, dir, isDir, name, rfl, by simp [stored], selects⟩
    · rw [FileTree.readFile_eq_some] at here
      cases deletes.manifest with
      | unread _ other => exact absurd here (other stored)
      | saved stored' pages before after =>
          obtain rfl : stored = stored' := by simpa [before] using here.symm
          refine ⟨_, FileTree.readFile_eq_some.mpr after, sameButDownload_iff.mpr ?_⟩
          exact named stored (FileTree.readFile_eq_some.mpr here)
    · rw [FileTree.readFile_eq_some] at stored ⊢
      rw [(deletes.others q (elsewhere _) (elsewhere _)).2, stored]
      rintro ⟨ext, isExt, matched⟩
      have isFile : (disk.readFile q).isSome := by simp [FileTree.readFile, stored]
      rcases only ext isExt q matched isFile with ⟨name, inside⟩
      exact elsewhere name inside

/-- A path without special characters selects itself. -/
theorem selectsItself_of_literal (literal : dir.any hasMeta = false)
    (named : ∀ stored, disk.readFile (dir ++ ["meta.json"]) = some (.chapter stored) →
      ∀ content, stored.content = some content → content.providerID ≠ "") :
    SelectsItself l disk dir where
  own _ := ⟨[dir], by simp [globDirs, literal], List.mem_singleton_self dir⟩
  only := by
    rintro ext _ q ⟨dirs, selected, upper, isUpper, name, rfl, _⟩ _
    simp only [globDirs, literal, Bool.false_eq_true, if_false, Option.some.injEq] at selected
    subst selected
    exact ⟨name, by rw [List.mem_singleton.mp isUpper]⟩
  named := named

/-- Two chapters with one page each, the second one's id with brackets. -/
def bracketDisk : Disk := FileTree.ofEntries
  [(["library", "m", "p", "c1", "0.jpg"], .file (.data [255, 216])),
    (["library", "m", "p", "c1", "meta.json"], .file (.chapter ChapterMeta.zero)),
    (["library", "m", "p", "c[1]", "0.jpg"], .file (.data [255, 217])),
    (["library", "m", "p", "c[1]", "meta.json"], .file (.chapter ChapterMeta.zero)),
    (["library", "m", "p", "c1"], .directory), (["library", "m", "p", "c[1]"], .directory),
    (["library", "m", "p"], .directory), (["library", "m"], .directory), (["library"], .directory)]
  rfl

theorem pulled_bracketDisk (chapterID : String) (isChapter : chapterID = "c1" ∨ chapterID = "c[1]") :
    Pulled libraryLayout bracketDisk ["library", "m", "p", chapterID] := by
  have images : imageFiles libraryLayout bracketDisk ["library", "m", "p", chapterID] = ["0.jpg"] := by
    rcases isChapter with rfl | rfl
    · decide +kernel
    · decide +kernel
  rw [Pulled, images]
  intro name member
  rw [List.mem_singleton.mp member]
  exact ⟨0, ".jpg", by decide, rfl⟩

theorem deleteChapterFiles_frees_iff_plain :
    ∃ disk', libraryLayout.deleteChapterFiles "m" "p" "c1" bracketDisk = (disk', true) ∧
      FreesChapter libraryLayout bracketDisk disk' ["library", "m", "p", "c1"] := by
  have went : (libraryLayout.deleteChapterFiles "m" "p" "c1" bracketDisk).2 = true := by
    decide +kernel
  refine ⟨_, Prod.ext rfl went, ?_⟩
  refine (deleteChapterFiles_frees_iff (pulled_bracketDisk "c1" (.inl rfl)) (by decide +kernel)
    (Prod.ext rfl went)).mpr (selectsItself_of_literal (by decide) fun stored here content same => ?_)
  have manifest : bracketDisk.readFile ["library", "m", "p", "c1", "meta.json"] =
      some (.chapter ChapterMeta.zero) := by decide +kernel
  obtain rfl : stored = ChapterMeta.zero := by simpa [manifest] using here.symm
  cases same

/-- The pattern of the second chapter selects the first: its page is removed, and the second
one's stays. -/
theorem deleteChapterFiles_brackets :
    ¬ ∀ mangaID providerID chapterID dir disk disk', Pulled libraryLayout disk dir →
      libraryLayout.providerChapterDir mangaID providerID chapterID = .ok dir →
      libraryLayout.deleteChapterFiles mangaID providerID chapterID disk = (disk', true) →
      FreesChapter libraryLayout disk disk' dir := by
  intro claimed
  have went : (libraryLayout.deleteChapterFiles "m" "p" "c[1]" bracketDisk).2 = true := by
    decide +kernel
  have frees := claimed "m" "p" "c[1]" _ _ _ (pulled_bracketDisk "c[1]" (.inr rfl))
    (by decide +kernel) (Prod.ext rfl went)
  have freed := frees.freed
  revert freed
  decide +kernel

end Kiyomi.Queue
