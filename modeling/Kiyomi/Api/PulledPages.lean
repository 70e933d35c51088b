import Kiyomi.Api.PageProxy
import Kiyomi.Queue.PageJobs

namespace Kiyomi.Api

open Go Library Queue

/-! # Pulled pages are served

The proxy counts pages from one, and takes the first file of a page by the order of its
extensions. -/

/-- The request leads to this directory. -/
def FindsDirectory (l : Layout) (disk : Disk) (req : PageRequest) (dir : Path) : Prop :=
  ∃ chMeta providerID, locateChapter l disk req = some (chMeta, providerID) ∧
    l.providerChapterDirOrJoined req.mangaID providerID req.chapterID = dir

/-- No file of the page has an extension that the proxy tries before that of this one. -/
def NoEarlierFile (disk : Disk) (dir : Path) (index : Int) (name : String) : Prop :=
  ∀ suffix, name = toString index ++ suffix →
    ∀ ext ∈ Layout.imageExts.takeWhile (· ≠ suffix),
      disk.readFile (dir ++ [toString index ++ ext]) = none

/-- The first hit of a search is a given one exactly if there is none before it. -/
theorem findSome?_eq_iff [DecidableEq α] {f : α → Option β} {a : α} {b : β} (here : f a = some b)
    (only : ∀ x, f x = some b → x = a) {xs : List α} (member : a ∈ xs) :
    xs.findSome? f = some b ↔ ∀ x ∈ xs.takeWhile (· ≠ a), f x = none := by
  induction xs with
  | nil => exact nomatch member
  | cons x xs induction =>
      by_cases same : x = a
      · rw [same]
        simp [here]
      · have later : a ∈ xs := (List.mem_cons.mp member).resolve_left (Ne.symm same)
        have first : f x ≠ some b := fun found => same (only x found)
        cases hit : f x with
        | none => simp [same, hit, induction later]
        | some other => simp_all

theorem localPage_eq_iff {disk : Disk} {dir : Path} {index : Int} {name : String}
    {content : Document} (isImage : IsImage index name)
    (stored : disk.find (dir ++ [name]) = some (.file content)) :
    localPage disk dir index = some (dir ++ [name], content) ↔
      NoEarlierFile disk dir index name := by
  rcases isImage with ⟨suffix, member, rfl⟩
  have listed : suffix ∈ Layout.imageExts := List.mem_append_left [".avif"] member
  have only : ∀ ext, pageFile disk dir index ext =
      some (dir ++ [toString index ++ suffix], content) → ext = suffix := by
    intro ext found
    rcases Option.map_eq_some_iff.mp found with ⟨_, _, same⟩
    simpa using (Prod.mk.inj same).1
  have here : pageFile disk dir index suffix =
      some (dir ++ [toString index ++ suffix], content) := by
    rw [pageFile, FileTree.readFile_eq_some.mpr stored]
    rfl
  rw [localPage, findSome?_eq_iff here only listed]
  simp [NoEarlierFile, pageFile]

/-- What the proxy serves for a page whose file is known. -/
theorem proxyPageImage_eq_iff {l : Layout} {decode : Document → Option (List PageItem)}
    {disk : Disk} {req : PageRequest} {dir : Path} {index : Int} {name : String}
    {content : Document} (number : atoi req.pageIndex = some index)
    (isImage : IsImage index name) (stored : disk.find (dir ++ [name]) = some (.file content)) :
    proxyPageImage l decode disk req = .file (dir ++ [name]) content ↔
      1 ≤ index ∧ FindsDirectory l disk req dir ∧ NoEarlierFile disk dir index name := by
  have served : ∀ other, localPage disk other index = some (dir ++ [name], content) → other = dir := by
    intro other found
    rcases List.exists_of_findSome?_eq_some found with ⟨ext, _, hit⟩
    rcases Option.map_eq_some_iff.mp hit with ⟨_, _, same⟩
    exact (List.append_inj' (Prod.mk.inj same).1 rfl).1
  simp only [proxyPageImage, number]
  by_cases early : index < 1
  · simp only [early, if_true]
    exact iff_of_false (by simp) fun holds => by omega
  simp only [early, if_false]
  have late : 1 ≤ index := by omega
  cases located : locateChapter l disk req with
  | none =>
      refine iff_of_false (by simp) fun holds => ?_
      rcases holds.2.1 with ⟨chMeta, providerID, found, _⟩
      simp [located] at found
  | some place =>
      rcases place with ⟨chMeta, providerID⟩
      have finds : FindsDirectory l disk req dir ↔
          l.providerChapterDirOrJoined req.mangaID providerID req.chapterID = dir := by
        simp [FindsDirectory, located]
      rw [finds]
      simp only
      constructor
      · intro answered
        split at answered
        · rename_i path image found
          cases answered
          have same := served _ found
          rw [same, localPage_eq_iff isImage stored] at found
          exact ⟨late, same, found⟩
        · exact absurd answered upstreamPage_ne_file
      · rintro ⟨_, same, none_earlier⟩
        rw [same, (localPage_eq_iff isImage stored).mpr none_earlier]

/-- When the pulls of all pages of a chapter are done, the proxy serves the file that the pull
of a page wrote exactly if pages are counted from one, the request finds the chapter where
it was pulled to, and no other file of the page comes first. -/
theorem pulled_page_served_iff (l : Layout) (decode : Document → Option (List PageItem))
    (files : Files Document) (mangaID providerID chapterID : String)
    (pages : List (Int × String)) (distinct : (pages.map (·.1)).Nodup) (s : PagePulls)
    (reached : Relation.ReflTransGen (PagePulls.Step l)
      (PagePulls.start l files mangaID providerID chapterID pages) s)
    (completed : ∀ job ∈ s.jobs, job.stage = .finished .completed)
    (page : Int × String) (member : page ∈ pages)
    (int64 : -0x8000000000000000 ≤ page.1 ∧ page.1 < 0x8000000000000000)
    (query url : String) :
    ∃ job ∈ s.jobs, job.payload = ⟨mangaID, providerID, chapterID, page.1, page.2⟩ ∧
      ∃ name content, job.image = some name ∧ job.content = some content ∧
        (proxyPageImage l decode s.files.tree ⟨mangaID, chapterID, toString page.1, query, url⟩ =
            .file (l.providerChapterDirOrJoined mangaID providerID chapterID ++ [name]) content ↔
          1 ≤ page.1 ∧
          FindsDirectory l s.files.tree ⟨mangaID, chapterID, toString page.1, query, url⟩
            (l.providerChapterDirOrJoined mangaID providerID chapterID) ∧
          NoEarlierFile s.files.tree (l.providerChapterDirOrJoined mangaID providerID chapterID)
            page.1 name) := by
  have inv := (PagePulls.inv_start files mangaID providerID chapterID distinct).reachable reached
  have enqueued : (⟨mangaID, providerID, chapterID, page.1, page.2⟩ : PullPagePayload) ∈
      s.jobs.map (·.payload) := by
    rw [PagePulls.payloads_of_reached reached]
    simp only [PagePulls.start, List.map_map, List.mem_map]
    exact ⟨page, member, rfl⟩
  rcases List.mem_map.mp enqueued with ⟨job, isJob, payload⟩
  have sound := inv.sound job isJob
  rcases sound.finished (completed job isJob) with ⟨hasImage, _, _⟩
  rcases Option.isSome_iff_exists.mp hasImage with ⟨name, image⟩
  rcases sound.inPlace.image name image with ⟨isImage, content, written, stored⟩
  rw [payload] at isImage
  refine ⟨job, isJob, payload, name, content, image, written, ?_⟩
  exact proxyPageImage_eq_iff (atoi_toString int64) isImage stored

section OnePage

/-- A chapter of a manga, before its pages are pulled. -/
def chapterDisk : Disk := FileTree.ofEntries
  [(["library", "m", "mangafox", "c1", "meta.json"], .file (.chapter ChapterMeta.zero)),
    (["library", "m", "mangafox", "c1"], .directory), (["library", "m", "mangafox"], .directory),
    (["library", "m"], .directory), (["library"], .directory)] rfl

def onePagePayload (index : Int) : PullPagePayload :=
  ⟨"m", "mangafox", "c1", index, "https://img.test/page"⟩

/-- The image is fetched, written and renamed. -/
def pullChoices : List (FileChoice PullQuestion.Answer) :=
  [.answer (.validateURL "https://img.test/page") true,
    .answer (.cached "https://img.test/page") none,
    .answer (.fetch "https://img.test/page" "mangafox") (some ⟨200, "image/jpeg", [255, 216]⟩),
    .grant "", .grant "1", .grant "", .grant "", .grant ""]

/-- The manifest is read, written and renamed. -/
def stampChoices : List (FileChoice PullQuestion.Answer) :=
  [.grant "", .grant "", .answer .now Time.zero, .grant "", .grant "1", .grant "", .grant "",
    .grant ""]

def pullOnePage (index : Int) : Option (Handled × Files Document) :=
  ((pullImage libraryLayout (onePagePayload index)).run Files.respond (.ofTree chapterDisk)
    pullChoices).bind fun (handled, files) =>
      (stampDownloadedAt libraryLayout (onePagePayload index) handled).run Files.respond files
        stampChoices

theorem pullOnePage_reaches (index : Int)
    (pulled : (pullOnePage index).map (·.1) = some .completed) :
    ∃ s, Relation.ReflTransGen (PagePulls.Step libraryLayout)
        (PagePulls.start libraryLayout (.ofTree chapterDisk) "m" "mangafox" "c1"
          [(index, "https://img.test/page")]) s ∧
      ∀ job ∈ s.jobs, job.stage = .finished .completed := by
  rcases Option.map_eq_some_iff.mp pulled with ⟨⟨result, files'⟩, ran, rfl⟩
  rcases Option.bind_eq_some_iff.mp ran with ⟨⟨handled, files⟩, image_ran, stamp_ran⟩
  have started : (PageJob.start libraryLayout (onePagePayload index)).stage =
      .pulling (pullImage libraryLayout (onePagePayload index)) := rfl
  rcases @PagePulls.reached_of_run libraryLayout _ [] [] _ started _ _ _ _ image_ran with
    ⟨job, steps, stage, payload⟩
  have same : job.payload = onePagePayload index := payload
  simp only [← same] at stamp_ran
  refine ⟨_, steps.tail (.stamp stage stamp_ran), fun other member => ?_⟩
  cases List.mem_singleton.mp member
  rfl

/-- No request for the page is answered with a file when the source counts from zero. -/
theorem zero_based_page_not_served :
    ∃ s, Relation.ReflTransGen (PagePulls.Step libraryLayout)
        (PagePulls.start libraryLayout (.ofTree chapterDisk) "m" "mangafox" "c1"
          [(0, "https://img.test/page")]) s ∧
      (∀ job ∈ s.jobs, job.stage = .finished .completed) ∧
      ∀ query url, proxyPageImage libraryLayout (fun _ => none) s.files.tree
        ⟨"m", "c1", toString (0 : Int), query, url⟩ = .invalidPageNumber := by
  rcases pullOnePage_reaches 0 (by decide +kernel) with ⟨s, reached, completed⟩
  have zero : atoi (toString (0 : Int)) = some 0 := atoi_toString (by decide)
  exact ⟨s, reached, completed, fun query url => by rw [proxyPageImage, zero]; rfl⟩

theorem pulled_page_served_iff_one_based :
    ∃ s, Relation.ReflTransGen (PagePulls.Step libraryLayout)
        (PagePulls.start libraryLayout (.ofTree chapterDisk) "m" "mangafox" "c1"
          [(1, "https://img.test/page")]) s ∧
      ∃ job ∈ s.jobs, job.payload = onePagePayload 1 ∧
        ∃ name content, job.image = some name ∧ job.content = some content ∧
          (proxyPageImage libraryLayout (fun _ => none) s.files.tree
              ⟨"m", "c1", toString (1 : Int), "mangafox", ""⟩ =
              .file (libraryLayout.providerChapterDirOrJoined "m" "mangafox" "c1" ++ [name])
                content ↔
            (1 : Int) ≤ 1 ∧
            FindsDirectory libraryLayout s.files.tree
              ⟨"m", "c1", toString (1 : Int), "mangafox", ""⟩
              (libraryLayout.providerChapterDirOrJoined "m" "mangafox" "c1") ∧
            NoEarlierFile s.files.tree
              (libraryLayout.providerChapterDirOrJoined "m" "mangafox" "c1") 1 name) := by
  rcases pullOnePage_reaches 1 (by decide +kernel) with ⟨s, reached, completed⟩
  exact ⟨s, reached, pulled_page_served_iff libraryLayout (fun _ => none) (.ofTree chapterDisk)
    "m" "mangafox" "c1" [(1, "https://img.test/page")] (by decide) s reached completed
    (1, "https://img.test/page") List.mem_cons_self (by decide) "mangafox" ""⟩

end OnePage

end Kiyomi.Api
