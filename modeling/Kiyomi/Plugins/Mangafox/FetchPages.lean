import Kiyomi.Plugins.Mangafox.ChapterIds
import Kiyomi.Plugins.Mangafox.Unpack
import Mathlib.Data.List.Infix
import Mathlib.Data.List.Nodup

namespace Kiyomi.Plugins.Mangafox

open Go Go.Url Patterns

/-! # The pages of a chapter -/

structure Page where
  index : Nat
  url : List UInt8
  deriving DecidableEq

/-- The pages of a list of images. -/
def numbered (urls : List (List UInt8)) : List Page :=
  urls.zipIdx.map fun entry => ⟨entry.2, entry.1⟩

/-- Note an address, unless it is there. -/
def addURL (urls : List (List UInt8)) (url : List UInt8) : List (List UInt8) :=
  if url ∈ urls then urls else urls ++ [url]

/-! ## Scripts -/

/-- `<name>\s*=\s*(\d+)`. -/
def assigned (name text : List UInt8) : Option (List UInt8) :=
  (find (literal name ++ blanks :: literal (utf8 "=") ++ [blanks, number]) text).bind List.getLast?

def chapterID (scripts : List (List UInt8)) : List UInt8 :=
  scripts.foldl (fun chapterID text =>
    if chapterID = [] then (assigned (utf8 "chapterid") text).getD chapterID else chapterID) []

/-- The largest integer where `Atoi` finds the count too large. -/
def imageCount (scripts : List (List UInt8)) : Int :=
  scripts.foldl (fun imageCount text =>
    if imageCount = 0 then
      (assigned (utf8 "imagecount") text).elim imageCount fun digits =>
        (Strconv.atoi digits).getD maxInt
    else imageCount) 0

/-! ## Addresses in a script -/

def isQuote (c : UInt8) : Bool := c ∈ [0x22, quote]

def extensions : List (List UInt8) := ["jpg", "jpeg", "png", "webp", "gif"].map utf8

/-- `pix\s*=\s*["']([^"']+)["']`. -/
def pixPattern : List (Piece UInt8) :=
  literal (utf8 "pix") ++ blanks :: literal (utf8 "=") ++
    [blanks, .one isQuote, .many (!isQuote ·) 1 false, .one isQuote]

/-- `["'](/[^"']+\.(?:jpg|jpeg|png|webp|gif)(?:\?[^"']*)?)["']`. -/
def pathPattern : List (Piece UInt8) :=
  .one isQuote :: literal [slash] ++ .many (!isQuote ·) 1 false :: literal (utf8 ".") ++
    [.choice extensions, .optional (· = question) (!isQuote ·), .one isQuote]

/-- A byte at which an address ends. -/
def endsAddress (c : UInt8) : Bool := isSpace c || c ∈ utf8 "\"'<>\\"

/-- `(?:https?:)?//[^\s"'<>\\]+?\.(?:jpg|jpeg|png|webp|gif)(?:\?[^\s"'<>\\]*)?`. -/
def imagePattern : List (Piece UInt8) :=
  .choice [utf8 "https:", utf8 "http:", []] :: literal (utf8 "//") ++
    .many (!endsAddress ·) 1 true :: literal (utf8 ".") ++
      [.choice extensions, .optional (· = question) (!endsAddress ·)]

def withScheme (url : List UInt8) : List UInt8 :=
  if utf8 "//" <+: url then utf8 "https:" ++ url else url

/-- Replace every `\/` by a slash. -/
def unescapeSlashes : List UInt8 → List UInt8
  | 0x5C :: 0x2F :: s => slash :: unescapeSlashes s
  | c :: s => c :: unescapeSlashes s
  | [] => []

def extractMangaFoxChapterfunURLs (unpacked : List UInt8) : List (List UInt8) :=
  let pix := (find pixPattern unpacked).elim [] fun texts => withScheme (texts.getD 7 [])
  (findAll pathPattern unpacked).filterMap fun texts =>
    let relPath := unescapeSlashes texts.tail.dropLast.flatten
    if pix ≠ [] then some (pix ++ relPath)
    else if utf8 "//" <+: relPath then some (utf8 "https:" ++ relPath)
    else none

def extractImageURLs (text : List UInt8) : List (List UInt8) :=
  let found := (findAll imagePattern text).map List.flatten
  let kept := found.filter fun m =>
    ¬(utf8 "logo" <:+: m ∨ utf8 "avatar" <:+: m ∨ utf8 "icon" <:+: m)
  (kept.map fun m => unescapeSlashes (withScheme m)).foldl addURL []

/-! ## Requests -/

/-- The attributes of an image. -/
structure Img where
  dataOriginal : Option (List UInt8)
  src : Option (List UInt8)

/-- What a site answers; `none` where a request is not made, not answered or not read. -/
structure Site where
  /-- The texts of the scripts of a document. -/
  scripts : List UInt8 → Option (List (List UInt8))
  /-- The body of an answer, of any status, to a request with a referrer. -/
  chapterfun (referer url : List UInt8) : Option (List UInt8)
  /-- The status of an answer and the images of its document. -/
  mobile : List UInt8 → Option (Nat × Option (List Img))

/-- The addresses in the answer to a request. -/
def replyURLs (reply : Option (List UInt8)) : List (List UInt8) :=
  reply.elim [] fun body =>
    let unpacked := unpackDeanEdwardsPacker body
    let extracted := extractMangaFoxChapterfunURLs unpacked
    if extracted = [] then extractImageURLs unpacked else extracted

/-- What is seen is what has a page. -/
def addPage (pages : List Page) (imgURL : List UInt8) : List Page :=
  if imgURL ∈ pages.map Page.url then pages else pages ++ [⟨pages.length, imgURL⟩]

def chapterfunURL (fullURL chapterID : List UInt8) (pageNum : Nat) : List UInt8 :=
  let dirURL := (Cuts.cutLast slash fullURL).elim fullURL Prod.fst
  dirURL ++ utf8 "/chapterfun.ashx?cid=" ++ chapterID ++ utf8 "&page=" ++ utf8 (toString pageNum)

def maxPage (imageCount : Int) : Nat := ((int64 (imageCount + 1)).tdiv 2).toNat

/-- The answer to a request for page `k + 1`. -/
def chapterfunReply (site : Site) (fullURL : List UInt8) (scripts : List (List UInt8)) (k : Nat) :
    Option (List UInt8) :=
  site.chapterfun fullURL (chapterfunURL fullURL (chapterID scripts) (k + 1))

def fetchChapterfunPages (site : Site) (fullURL : List UInt8) (scripts : List (List UInt8)) :
    List Page :=
  if chapterID scripts = [] ∨ imageCount scripts ≤ 0 then []
  else
    (List.range (maxPage (imageCount scripts))).foldl (fun pages k =>
      (replyURLs (chapterfunReply site fullURL scripts k)).foldl addPage pages) []

def replaceOnce (old new s : List UInt8) : List UInt8 :=
  (Cuts.cutText old s).elim s fun parts => parts.1 ++ new ++ parts.2

def mobileURL (fullURL : List UInt8) : List UInt8 :=
  replaceOnce (utf8 "http://fanfox.net") (utf8 "https://m.fanfox.net")
    (replaceOnce (utf8 "https://fanfox.net") (utf8 "https://m.fanfox.net") fullURL)

/-- The address of an image that is one of a chapter. -/
def imgURL (img : Img) : Option (List UInt8) :=
  let src := img.dataOriginal.getD (img.src.getD [])
  if src ≠ [] ∧ (utf8 "store/manga" <:+: src ∨ utf8 "zjcdn" <:+: src ∨ utf8 "mfcdn" <:+: src) then
    some (withScheme src)
  else none

/-- The images that the mobile document of a chapter lists. -/
def mobileURLs (site : Site) (fullURL : List UInt8) : List (List UInt8) :=
  (site.mobile (mobileURL fullURL)).elim [] fun answer =>
    if answer.1 = 200 then answer.2.elim [] (·.filterMap imgURL) else []

/-- `none` where no pages are found. -/
def fetchPages (r : Rules) (site : Site) (base mangaRef chapterRef : List UInt8) :
    Option (List Page) :=
  let fullURL := resolveChapterURL r base mangaRef chapterRef
  let pages := (site.scripts fullURL).elim [] (fetchChapterfunPages site fullURL)
  if pages ≠ [] then some pages
  else
    let pages := numbered (mobileURLs site fullURL)
    if pages ≠ [] then some pages else none

/-! ## Pages and addresses -/

variable {url : List UInt8} {urls images : List (List UInt8)} {scripts : List (List UInt8)}
  {fullURL : List UInt8} {site : Site}

theorem map_url_numbered (urls : List (List UInt8)) : (numbered urls).map Page.url = urls := by
  rw [numbered, List.map_map]
  exact List.zipIdx_map_fst 0 urls

theorem numbered_injective (same : numbered urls = numbered images) : urls = images := by
  rw [← map_url_numbered urls, same, map_url_numbered]

theorem numbered_eq_nil_iff : numbered urls = [] ↔ urls = [] := by
  rw [numbered, List.map_eq_nil_iff, List.zipIdx_eq_nil_iff]

theorem addPage_numbered (urls : List (List UInt8)) (url : List UInt8) :
    addPage (numbered urls) url = numbered (addURL urls url) := by
  rw [addPage, addURL, map_url_numbered]
  split
  · rfl
  · rw [numbered, numbered, List.zipIdx_append, List.map_append, List.length_map,
      List.length_zipIdx, Nat.zero_add]
    rfl

theorem foldl_addPage (urls found : List (List UInt8)) :
    found.foldl addPage (numbered urls) = numbered (found.foldl addURL urls) := by
  induction found generalizing urls with
  | nil => rfl
  | cons url found induction => rw [List.foldl_cons, List.foldl_cons, addPage_numbered, induction]

/-! ## Addresses without repetitions -/

theorem foldl_addURL_of_nodup {found : List (List UInt8)} (distinct : (urls ++ found).Nodup) :
    found.foldl addURL urls = urls ++ found := by
  induction found generalizing urls with
  | nil => rw [List.append_nil, List.foldl_nil]
  | cons url found induction =>
      have absent : url ∉ urls := fun member =>
        (List.nodup_append.mp distinct).2.2 url member url List.mem_cons_self rfl
      rw [List.append_cons] at distinct ⊢
      rw [List.foldl_cons, addURL, if_neg absent, induction distinct]

theorem nodup_foldl_addURL {found : List (List UInt8)} (distinct : urls.Nodup) :
    (found.foldl addURL urls).Nodup := by
  induction found generalizing urls with
  | nil => exact distinct
  | cons url found induction =>
      refine induction ?_
      rw [addURL]
      split
      · exact distinct
      · rename_i absent
        rw [← List.concat_eq_append]
        exact distinct.concat absent

theorem length_foldl_addURL (found urls : List (List UInt8)) :
    urls.length ≤ (found.foldl addURL urls).length ∧
      (found.foldl addURL urls).length ≤ urls.length + found.length := by
  induction found generalizing urls with
  | nil => exact ⟨Nat.le_refl _, Nat.le_refl _⟩
  | cons url found induction =>
      have one : urls.length ≤ (addURL urls url).length ∧
          (addURL urls url).length ≤ urls.length + 1 := by
        rw [addURL]
        split
        · exact ⟨Nat.le_refl _, Nat.le_succ _⟩
        · rw [List.length_append, List.length_singleton]
          exact ⟨Nat.le_succ _, Nat.le_refl _⟩
      have rest := induction (addURL urls url)
      rw [List.foldl_cons, List.length_cons]
      omega

theorem foldl_addURL_eq_nil_iff {found : List (List UInt8)} :
    found.foldl addURL [] = [] ↔ found = [] := by
  cases found with
  | nil => exact iff_of_true rfl rfl
  | cons url found =>
      refine iff_of_false (fun nothing => ?_) (List.cons_ne_nil url found)
      have long := (length_foldl_addURL found (addURL [] url)).1
      rw [List.foldl_cons] at nothing
      rw [nothing] at long
      contradiction

/-- The images of the pair behind so many others. -/
def pair (images : List (List UInt8)) (k : Nat) : List (List UInt8) := (images.drop (2 * k)).take 2

theorem flatMap_pair (images : List (List UInt8)) (m : Nat) :
    (List.range m).flatMap (pair images) = images.take (2 * m) := by
  induction m with
  | zero => rfl
  | succ m induction =>
      rw [List.range_succ, List.flatMap_append, induction, Nat.mul_succ, List.take_add,
        List.flatMap_singleton, pair]

/-- What is left out is missing. -/
theorem length_flatMap_le {carried : Nat → List (List UInt8)} {ks : List Nat}
    (each : ∀ k ∈ ks, carried k = [] ∨ carried k = pair images k) :
    (ks.flatMap carried).length ≤ (ks.flatMap (pair images)).length ∧
      ((ks.flatMap (pair images)).length ≤ (ks.flatMap carried).length →
        ∀ k ∈ ks, carried k = pair images k) := by
  induction ks with
  | nil => exact ⟨Nat.le_refl _, fun _ k member => absurd member List.not_mem_nil⟩
  | cons k ks induction =>
      rcases List.forall_mem_cons.mp each with ⟨first, rest⟩
      rcases induction rest with ⟨less, equal⟩
      simp only [List.flatMap_cons, List.length_append]
      rcases first with nothing | whole
      · rw [nothing, List.length_nil]
        refine ⟨by omega, fun enough => List.forall_mem_cons.mpr ⟨?_, equal (by omega)⟩⟩
        rw [nothing, List.eq_nil_of_length_eq_zero (l := pair images k) (by omega)]
      · rw [whole]
        exact ⟨by omega, fun enough => List.forall_mem_cons.mpr ⟨whole, equal (by omega)⟩⟩

theorem foldl_addURL_eq_iff {carried : Nat → List (List UInt8)} {m : Nat}
    (each : ∀ k < m, carried k = [] ∨ carried k = pair images k) (enough : images.length ≤ 2 * m) :
    ((List.range m).flatMap carried).foldl addURL [] = images ↔
      (∀ k < m, carried k = pair images k) ∧ images.Nodup := by
  have whole : (List.range m).flatMap (pair images) = images := by
    rw [flatMap_pair, List.take_of_length_le enough]
  constructor
  · intro same
    refine ⟨fun k inside => ?_, same ▸ nodup_foldl_addURL List.nodup_nil⟩
    have long := (length_foldl_addURL ((List.range m).flatMap carried) []).2
    rw [same, List.length_nil, Nat.zero_add] at long
    refine (@length_flatMap_le images carried (List.range m) fun k member =>
      each k (List.mem_range.mp member)).2 ?_ k (List.mem_range.mpr inside)
    rwa [whole]
  · rintro ⟨all, distinct⟩
    have same : (List.range m).flatMap carried = images := by
      rw [← whole]
      exact List.flatMap_congr fun k member => all k (List.mem_range.mp member)
    rw [same, foldl_addURL_of_nodup (by rwa [List.nil_append]), List.nil_append]

/-! ## Chapters -/

/-- A number of images as it is read; none is above the largest integer. -/
def readCount (count : Nat) : Int := if count < maxInt then count else maxInt

/-- The document and the answers of a chapter: the request for a pair fails or carries its
images. -/
structure Serves (site : Site) (fullURL : List UInt8) (scripts images : List (List UInt8))
    (fails : Nat → Prop) : Prop where
  identified : chapterID scripts ≠ []
  counted : imageCount scripts = readCount images.length
  carried : ∀ k, 2 * k < images.length → ¬fails k →
    replyURLs (chapterfunReply site fullURL scripts k) = pair images k
  failed : ∀ k, 2 * k < images.length → fails k →
    replyURLs (chapterfunReply site fullURL scripts k) = []

/-- The number of requests for the pairs. -/
def requests (site : Site) (fullURL : List UInt8) (images : List (List UInt8)) : Nat :=
  if (site.scripts fullURL).isSome ∧ images.length < maxInt then (images.length + 1) / 2 else 0

theorem maxPage_readCount (count : Nat) :
    maxPage (readCount count) = if count < maxInt then (count + 1) / 2 else 0 := by
  rw [readCount]
  split
  · rename_i small
    have value : maxInt = 2 ^ 63 - 1 := rfl
    rw [maxPage, int64_of_range (by omega) (by omega), Int.tdiv_eq_ediv_of_nonneg (by omega)]
    omega
  · decide

/-- What the requests for the pairs collect. -/
theorem fetchChapterfunPages_eq {fails : Nat → Prop}
    (served : Serves site fullURL scripts images fails)
    (isDocument : site.scripts fullURL = some scripts) :
    fetchChapterfunPages site fullURL scripts =
      numbered (((List.range (requests site fullURL images)).flatMap fun k =>
        replyURLs (chapterfunReply site fullURL scripts k)).foldl addURL []) := by
  have count : maxPage (imageCount scripts) = requests site fullURL images := by
    rw [served.counted, maxPage_readCount, requests, isDocument]
    simp
  have collected : (List.range (requests site fullURL images)).foldl (fun pages k =>
      (replyURLs (chapterfunReply site fullURL scripts k)).foldl addPage pages) [] =
        numbered (((List.range (requests site fullURL images)).flatMap fun k =>
          replyURLs (chapterfunReply site fullURL scripts k)).foldl addURL []) := by
    rw [← List.foldl_flatMap]
    exact foldl_addPage [] _
  rw [fetchChapterfunPages, count]
  split
  · rename_i nothing
    have none_asked : requests site fullURL images = 0 := by
      have few := nothing.resolve_left served.identified
      rw [served.counted, readCount] at few
      rw [requests]
      split at few
      · split <;> omega
      · exact absurd few (by decide)
    rw [none_asked]
    rfl
  · exact collected

/-- The pages that the requests for the pairs give, if the document can be fetched. -/
def pairPages (site : Site) (fullURL : List UInt8) : List Page :=
  (site.scripts fullURL).elim [] (fetchChapterfunPages site fullURL)

theorem of_requests {k : Nat} (inside : k < requests site fullURL images) :
    (site.scripts fullURL).isSome ∧ 2 * k < images.length ∧
      images.length ≤ 2 * requests site fullURL images := by
  rw [requests] at inside ⊢
  split at inside
  · rename_i asked
    rw [if_pos asked]
    exact ⟨asked.1, by omega, by omega⟩
  · contradiction

theorem pair_ne_nil {k : Nat} (inside : 2 * k < images.length) : pair images k ≠ [] := by
  intro nothing
  have none_there := congrArg List.length nothing
  rw [pair, List.length_take, List.length_drop, List.length_nil] at none_there
  omega

section Answers

variable {fails : Nat → Prop} (served : ∀ scripts, site.scripts fullURL = some scripts →
  Serves site fullURL scripts images fails)
include served

/-- They are those of the images exactly where every request is answered and no image is listed
twice. -/
theorem pairPages_eq_iff (asked : 0 < requests site fullURL images) :
    pairPages site fullURL = numbered images ↔
      (∀ k < requests site fullURL images, ¬fails k) ∧ images.Nodup := by
  rcases Option.isSome_iff_exists.mp (of_requests asked).1 with ⟨scripts, isDocument⟩
  have serves := served scripts isDocument
  rw [pairPages, isDocument, Option.elim_some, fetchChapterfunPages_eq serves isDocument]
  have answers : ∀ k < requests site fullURL images,
      (replyURLs (chapterfunReply site fullURL scripts k) = pair images k ↔ ¬fails k) := by
    intro k inside
    have there := (of_requests inside).2.1
    refine ⟨fun carried failed => ?_, serves.carried k there⟩
    rw [serves.failed k there failed] at carried
    exact pair_ne_nil there carried.symm
  have each : ∀ k < requests site fullURL images,
      replyURLs (chapterfunReply site fullURL scripts k) = [] ∨
        replyURLs (chapterfunReply site fullURL scripts k) = pair images k := by
    intro k inside
    have there := (of_requests inside).2.1
    by_cases failed : fails k
    · exact .inl (serves.failed k there failed)
    · exact .inr (serves.carried k there failed)
  rw [← forall₂_congr answers, ← foldl_addURL_eq_iff each (of_requests asked).2.2]
  exact ⟨numbered_injective, congrArg numbered⟩

/-- There are none exactly where every request fails. -/
theorem pairPages_eq_nil_iff :
    pairPages site fullURL = [] ↔ ∀ k < requests site fullURL images, fails k := by
  cases isDocument : site.scripts fullURL with
  | none =>
      refine iff_of_true ?_ fun k inside => ?_
      · rw [pairPages, isDocument]
        rfl
      · have fetched := (of_requests inside).1
        rw [isDocument] at fetched
        contradiction
  | some scripts =>
      have serves := served scripts isDocument
      rw [pairPages, isDocument, Option.elim_some, fetchChapterfunPages_eq serves isDocument,
        numbered_eq_nil_iff, foldl_addURL_eq_nil_iff, List.flatMap_eq_nil_iff]
      constructor
      · intro nothing k inside
        by_contra answered
        have there := (of_requests inside).2.1
        have carried := serves.carried k there answered
        rw [nothing k (List.mem_range.mpr inside)] at carried
        exact pair_ne_nil there carried.symm
      · intro failed k member
        have inside := List.mem_range.mp member
        exact serves.failed k (of_requests inside).2.1 (failed k inside)

end Answers

/-- A list of pages is complete exactly where all requests for pairs are answered and no image is
listed twice, or all fail and the mobile document lists all images or none. -/
theorem fetchPages_complete_iff {r : Rules} {base mangaRef chapterRef : List UInt8}
    {fails : Nat → Prop} (isURL : resolveChapterURL r base mangaRef chapterRef = fullURL)
    (served : ∀ scripts, site.scripts fullURL = some scripts →
      Serves site fullURL scripts images fails) :
    (∀ pages, fetchPages r site base mangaRef chapterRef = some pages → pages = numbered images) ↔
      (0 < requests site fullURL images ∧ (∀ k < requests site fullURL images, ¬fails k) ∧
          images.Nodup) ∨
        (∀ k < requests site fullURL images, fails k) ∧
          (mobileURLs site fullURL = [] ∨ mobileURLs site fullURL = images) := by
  have isResult : fetchPages r site base mangaRef chapterRef =
      if pairPages site fullURL ≠ [] then some (pairPages site fullURL)
      else if numbered (mobileURLs site fullURL) ≠ [] then some (numbered (mobileURLs site fullURL))
      else none := by
    rw [fetchPages, isURL]
    rfl
  have isNothing := pairPages_eq_nil_iff served
  rw [isResult]
  by_cases nothing : pairPages site fullURL = []
  · have failed := isNothing.mp nothing
    rw [if_neg (not_not.mpr nothing), ite_not]
    constructor
    · intro complete
      refine .inr ⟨failed, ?_⟩
      by_cases none_listed : numbered (mobileURLs site fullURL) = []
      · exact .inl (numbered_eq_nil_iff.mp none_listed)
      · rw [if_neg none_listed] at complete
        exact .inr (numbered_injective (complete _ rfl))
    · rintro (⟨asked, answered, _⟩ | ⟨_, none_listed | listed⟩) pages isPages
      · exact absurd (failed 0 asked) (answered 0 asked)
      · rw [if_pos (numbered_eq_nil_iff.mpr none_listed)] at isPages
        contradiction
      · split at isPages
        · contradiction
        · rw [← Option.some.inj isPages, listed]
  · have asked : 0 < requests site fullURL images := by
      by_contra none_asked
      exact nothing (isNothing.mpr fun k inside => absurd inside (by omega))
    have notAll : ¬∀ k < requests site fullURL images, fails k := fun all =>
      nothing (isNothing.mpr all)
    rw [if_pos nothing]
    simp only [Option.some.injEq, forall_eq', pairPages_eq_iff served asked, asked, notAll,
      true_and, false_and, or_false]

/-- A site that has a chapter of three images and does not always answer for the third. -/
def threeImages (answersThird : Bool) : Site where
  scripts _ := some [utf8 "var chapterid =7;", utf8 "var imagecount=3;"]
  chapterfun _ url :=
    if utf8 "page=1" <:+ url then some (utf8 "var pix=\"//i\";var v=[\"/1.jpg\",\"/2.png?t\"]")
    else if answersThird then some (utf8 "var pix=\"//i\";var v=[\"/3.jpg\"]")
    else none
  mobile _ := none

def three : List (List UInt8) :=
  [utf8 "https://i/1.jpg", utf8 "https://i/2.png?t", utf8 "https://i/3.jpg"]

theorem serves_threeImages (answersThird : Bool) (scripts : List (List UInt8))
    (isDocument : (threeImages answersThird).scripts (utf8 "http://m/c/1.html") = some scripts) :
    Serves (threeImages answersThird) (utf8 "http://m/c/1.html") scripts three
      fun k => k = 1 ∧ answersThird = false := by
  cases isDocument
  have cases_of {k : Nat} (inside : 2 * k < three.length) : k = 0 ∨ k = 1 := by
    have few : 2 * k < 3 := inside
    omega
  refine ⟨by decide +kernel, by decide +kernel, fun k inside answered => ?_, fun k _ failed => ?_⟩
  · rcases cases_of inside with rfl | rfl
    · cases answersThird <;> decide +kernel
    · cases answersThird with
      | false => exact absurd ⟨rfl, rfl⟩ answered
      | true => decide +kernel
  · rcases failed with ⟨rfl, rfl⟩
    decide +kernel

theorem fetchPages_three :
    fetchPages plainRules (threeImages true) [] [] (utf8 "http://m/c/1.html") =
      some (numbered three) := by
  have isURL : resolveChapterURL plainRules [] [] (utf8 "http://m/c/1.html") =
      utf8 "http://m/c/1.html" := by decide +kernel
  have answered : ∀ k, ¬(k = 1 ∧ true = false) := by simp
  have complete := (fetchPages_complete_iff isURL (serves_threeImages true)).mpr
    (.inl ⟨by decide, fun k _ => answered k, by decide⟩)
  have found :
      (fetchPages plainRules (threeImages true) [] [] (utf8 "http://m/c/1.html")).isSome := by
    decide +kernel
  rcases Option.isSome_iff_exists.mp found with ⟨pages, isPages⟩
  rw [isPages, complete pages isPages]

/-- The last image is missing where its request fails. -/
theorem failed_pair_is_left_out :
    ¬∀ (r : Rules) (site : Site) (base mangaRef chapterRef : List UInt8)
      (images : List (List UInt8)) (fails : Nat → Prop),
        (∀ scripts, site.scripts (resolveChapterURL r base mangaRef chapterRef) = some scripts →
          Serves site (resolveChapterURL r base mangaRef chapterRef) scripts images fails) →
        ∀ pages, fetchPages r site base mangaRef chapterRef = some pages →
          pages = numbered images := by
  intro complete
  have isURL : resolveChapterURL plainRules [] [] (utf8 "http://m/c/1.html") =
      utf8 "http://m/c/1.html" := by decide +kernel
  have isPages : fetchPages plainRules (threeImages false) [] [] (utf8 "http://m/c/1.html") =
      some (numbered (three.take 2)) := by decide +kernel
  have served := serves_threeImages false
  rw [← isURL] at served
  have same := complete plainRules _ [] [] _ three _ served _ (isURL ▸ isPages)
  exact absurd same (by decide)

end Kiyomi.Plugins.Mangafox
