import Mathlib
import Kiyomi.Queue.PullHandlers

namespace Kiyomi.Queue

open Go Library

/-! # The `pull_page` jobs of a chapter

The jobs run side by side, one call of the file system or of the outside at a time. The
section of a job under the manga's lock is one step. -/

section Handler

variable (l : Layout)

/-- `HandlePullPage` until the image is in place. -/
def pullImage (p : PullPagePayload) : PullEffect Handled := do
  if !p.complete then pure .permanent
  else if !(← askOutside (.validateURL p.pageURL)) then pure .permanent
  else
    downloadImage l p.pageURL p.providerID
      (targetIn (l.providerChapterDirOrJoined p.mangaID p.providerID p.chapterID)
        (toString p.pageIndex ++ ·))

/-- The section of `HandlePullPage` under the manga's lock. -/
def stampDownloadedAt (p : PullPagePayload) : Handled → PullEffect Handled
  | .completed => do
      match ← Effects.getChapter l p.mangaID p.providerID p.chapterID with
      | none => pure .failed
      | some chMeta =>
          let downloadedAt ← askOutside .now
          if ← Effects.saveChapter l p.mangaID p.providerID p.chapterID
            { chMeta with downloadedAt } then pure .completed
          else pure .failed
  | notSaved => pure notSaved

end Handler

/-! ## Names in a chapter's directory -/

def IsImage (index : Int) (name : String) : Prop :=
  ∃ suffix ∈ imageSuffixes, name = toString index ++ suffix

def IsTemporary (index : Int) (name : String) : Prop :=
  ∃ image digits, IsImage index image ∧ name = image ++ ".tmp." ++ digits

/-- The name begins with the index and a dot. -/
def Owns (index : Int) (name : String) : Prop := (toString index).toList ++ ['.'] <+: name.toList

theorem IsImage.owns {index : Int} {name : String} (image : IsImage index name) :
    Owns index name := by
  rcases image with ⟨suffix, member, rfl⟩
  have dotted : ['.'] <+: suffix.toList := by
    revert suffix
    decide +kernel
  rw [Owns, String.toList_append]
  exact (List.prefix_append_right_inj _).mpr dotted

theorem IsTemporary.owns {index : Int} {name : String} (temporary : IsTemporary index name) :
    Owns index name := by
  rcases temporary with ⟨image, digits, isImage, rfl⟩
  rw [Owns, String.toList_append, String.toList_append, List.append_assoc]
  exact isImage.owns.trans (List.prefix_append _ _)

theorem takeWhile_of_owns {index : Int} {name : String} (owns : Owns index name) :
    name.toList.takeWhile (· != '.') = (toString index).toList := by
  rcases owns with ⟨rest, parts⟩
  have no_dot : ∀ c ∈ (toString index).toList, (c != '.') = true := by
    intro c member
    rw [bne_iff_ne]
    rintro rfl
    rcases mem_toString member with digit | minus
    · simp at digit
    · simp at minus
  rw [← parts, List.append_assoc, List.takeWhile_append_of_pos no_dot]
  simp

theorem owns_unique {index other : Int} {name : String} (owns : Owns index name)
    (others : Owns other name) : index = other := by
  apply Int.repr_injective
  apply String.toList_injective
  exact (takeWhile_of_owns owns).symm.trans (takeWhile_of_owns others)

/-- A temporary file is no image. -/
theorem IsImage.ne_temporary {index : Int} {image temporary : String}
    (isImage : IsImage index image) (isTemporary : IsTemporary index temporary) :
    image ≠ temporary := by
  rcases isImage with ⟨suffix, member, rfl⟩
  rcases isTemporary with ⟨_, digits, ⟨other, other_member, rfl⟩, rfl⟩
  have short : suffix.toList.length ≤ 5 := by
    revert suffix
    decide +kernel
  have long : 4 ≤ other.toList.length := by
    revert other
    decide +kernel
  intro same
  have lengths := congrArg (fun name => name.toList.length) same
  simp only [String.toList_append, List.length_append] at lengths
  have marker : ".tmp.".toList.length = 5 := rfl
  omega

/-- The manifest of a chapter or a temporary file for it. -/
def IsManifest (name : String) : Prop := "meta.json".toList <+: name.toList

theorem IsManifest.not_owns {index : Int} {name : String} (manifest : IsManifest name) :
    ¬ Owns index name := by
  intro owns
  rcases manifest with ⟨rest, parts⟩
  have text := takeWhile_of_owns owns
  rw [← parts] at text
  have letter : 'm' ∈ (toString index).toList := by
    rw [← text]
    simp
  rcases mem_toString letter with digit | minus
  · simp at digit
  · simp at minus

/-! ## What a page's pull does in the directory -/

/-- What is known of the files of a page's pull by the calls it has made: its temporary file
and the image in place. -/
structure PageFiles where
  temporary : Option String
  image : Option String

namespace PageFiles

/-- After a call. -/
def after (known : PageFiles) :
    (c : FileCall Document PullQuestion) → c.Reply PullQuestion.Answer → PageFiles
  | .createTemp _ _ _, .ok name => { known with temporary := some name }
  | .rename _ dst, .ok _ => { temporary := none, image := dst.getLast? }
  | .link _ dst, .ok _ => { known with image := dst.getLast? }
  | .remove path, _ =>
      { temporary := if known.temporary = path.getLast? then none else known.temporary
        image := if known.image = path.getLast? then none else known.image }
  | _, _ => known

/-- The calls of the pull of a page of a chapter in a directory. -/
def Allowed (dir : Path) (index : Int) (known : PageFiles) :
    FileCall Document PullQuestion → Prop
  | .stat _ | .readFile _ | .readDir _ | .ask _ => True
  | .mkdirAll path => path = dir
  | .createTemp path base _ => path = dir ∧ ∃ image, IsImage index image ∧ base = image ++ ".tmp."
  | .write path _ => ∃ name, known.temporary = some name ∧ path = dir ++ [name]
  | .link _ dst => ∃ name, IsImage index name ∧ dst = dir ++ [name]
  | .rename src dst => ∃ temporary name, known.temporary = some temporary ∧
      src = dir ++ [temporary] ∧ IsImage index name ∧ dst = dir ++ [name]
  | .remove path => ∃ name, Owns index name ∧ path = dir ++ [name]
  | .create .. | .removeAll _ => False

/-- The name of a temporary file begins as it is asked for. -/
def Possible : (c : FileCall Document PullQuestion) → c.Reply PullQuestion.Answer → Prop
  | .createTemp _ base _, .ok name => ∃ digits, name = base ++ digits
  | _, _ => True

def watch (dir : Path) (index : Int) :
    Program.Watch (FileCall Document PullQuestion) (FileCall.Reply PullQuestion.Answer)
      PageFiles where
  after := after
  allowed := Allowed dir index
  possible := Possible

end PageFiles

open PageFiles

section Watched

variable {l : Layout} {dir : Path} {index : Int} {known : PageFiles} {post : PageFiles → α → Prop}

theorem watched_request {c : FileCall Document PullQuestion}
    {next : c.Reply PullQuestion.Answer → PullEffect α} (allowed : Allowed dir index known c)
    (rest : ∀ reply, Possible c reply →
      (next reply).Watched (watch dir index) post (known.after c reply)) :
    (request c >>= next).Watched (watch dir index) post known :=
  ⟨allowed, rest⟩

/-- A call that changes nothing. -/
theorem watched_ask {question : PullQuestion} {next : question.Answer → PullEffect α}
    (rest : ∀ answer, (next answer).Watched (watch dir index) post known) :
    (askOutside question >>= next).Watched (watch dir index) post known :=
  ⟨trivial, fun answer _ => rest answer⟩

/-- The image is in place when the result says so. -/
def Placed (known : PageFiles) (placed : Bool) : Prop := placed = true → known.image.isSome

theorem replaceFile_watched {name : String} (isImage : IsImage index name) (content : Document) :
    (replaceFile dir name (dir ++ [name]) content : PullEffect Bool).Watched (watch dir index)
      Placed known := by
  unfold replaceFile
  refine watched_request ⟨rfl, name, isImage, rfl⟩ fun created possible => ?_
  cases created with
  | error _ => exact fun placed => nomatch placed
  | ok temporary =>
      rcases possible with ⟨digits, rfl⟩
      have isTemporary : IsTemporary index (name ++ ".tmp." ++ digits) :=
        ⟨name, digits, isImage, rfl⟩
      have owned : Owns index (name ++ ".tmp." ++ digits) := isTemporary.owns
      refine watched_request ⟨_, rfl, rfl⟩ fun written _ => ?_
      split
      · refine watched_request ⟨_, name, rfl, rfl, isImage, rfl⟩ fun renamed _ => ?_
        refine watched_request ⟨_, owned, rfl⟩ fun removed _ => ?_
        cases renamed with
        | error _ => exact fun placed => nomatch placed
        | ok _ =>
            -- the temporary file is not the image that is in place
            have kept := isImage.ne_temporary isTemporary
            intro _
            simp [after, kept]
      · refine watched_request ⟨_, owned, rfl⟩ fun removed _ => ?_
        exact fun placed => nomatch placed

/-- A place for the image of the page. -/
def IsTarget (dir : Path) (index : Int) (resolved : Option (Path × String)) : Prop :=
  ∀ place, resolved = some place → place.1 = dir ∧ IsImage index place.2

theorem targetIn_watched {suffix : String} (member : suffix ∈ imageSuffixes) :
    (targetIn dir (toString index ++ ·) suffix).Watched (watch dir index)
      (fun later resolved => later = known ∧ IsTarget dir index resolved) known := by
  unfold targetIn
  refine watched_request rfl fun made _ => ?_
  split
  · refine ⟨rfl, fun place same => ?_⟩
    cases same
    exact ⟨rfl, suffix, member, rfl⟩
  · exact ⟨rfl, fun place none => nomatch none⟩

/-- The image is in place when the handler gets that far. -/
def Completes (known : PageFiles) (handled : Handled) : Prop :=
  handled = .completed → known.image.isSome

theorem copyFileAtomically_watched {name : String} (isImage : IsImage index name)
    (srcPath : Path) :
    (copyFileAtomically srcPath dir name).Watched (watch dir index) Placed known := by
  unfold copyFileAtomically
  refine watched_request trivial fun content _ => ?_
  split
  · exact fun placed => nomatch placed
  · exact replaceFile_watched isImage _

theorem takeCached_watched {resolved : Option (Path × String)}
    (target : IsTarget dir index resolved) (cachedPath : Path) :
    (takeCached cachedPath resolved).Watched (watch dir index)
      (fun later taken => ∀ handled, taken = some handled → Completes later handled) known := by
  cases resolved with
  | none =>
      intro handled same
      cases same
      exact fun completed => nomatch completed
  | some place =>
  rcases place with ⟨dir', name⟩
  rcases target _ rfl with ⟨rfl, isImage⟩
  unfold takeCached
  refine watched_request rfl fun made _ => ?_
  split
  · refine watched_request ⟨name, isImage.owns, rfl⟩ fun removed _ => ?_
    refine watched_request ⟨name, isImage, rfl⟩ fun linked _ => ?_
    split
    · rename_i succeeded
      rintro handled same -
      cases linked with
      | error _ => cases succeeded
      | ok _ => simp [after]
    refine Program.Watched.bind (copyFileAtomically_watched isImage cachedPath)
      fun later copied placed => ?_
    split
    · rename_i isCopied
      exact fun handled same _ => placed isCopied
    · exact fun handled none => nomatch none
  · intro handled same
    cases same
    exact fun completed => nomatch completed

theorem extension_mem (rawURL contentType : String) :
    extensionFromImageResponse l rawURL contentType ∈ imageSuffixes := by
  have recognised : ∀ suffix ∈ (l.parseURL rawURL).bind (fun u =>
      if imageSuffixes.contains (l.toLower (ext u.path)) then some (l.toLower (ext u.path))
      else none), suffix ∈ imageSuffixes := by
    intro suffix found
    rcases Option.bind_eq_some_iff.mp found with ⟨u, _, chosen⟩
    split at chosen
    · rename_i listed
      cases chosen
      exact List.contains_iff_mem.mp listed
    · cases chosen
  simp only [extensionFromImageResponse]
  split
  · rename_i suffix found
    exact recognised suffix found
  · split
    · decide
    split
    · decide
    split <;> decide

theorem fetchImage_watched (rawURL providerID : String) :
    (fetchImage l rawURL providerID (targetIn dir (toString index ++ ·))).Watched
      (watch dir index) Completes known := by
  unfold fetchImage
  refine watched_ask fun response => ?_
  split
  · exact fun completed => nomatch completed
  split
  · split <;> exact fun completed => nomatch completed
  refine Program.Watched.bind (targetIn_watched (extension_mem _ _)) fun later resolved target => ?_
  split
  · exact fun completed => nomatch completed
  rename_i dir' name
  rcases target.2 _ rfl with ⟨same, isImage⟩
  cases same
  refine Program.Watched.bind (replaceFile_watched isImage _) fun later saved placed => ?_
  split
  · rename_i isSaved
    exact fun _ => placed isSaved
  · exact fun completed => nomatch completed

theorem downloadImage_watched (rawURL providerID : String) :
    (downloadImage l rawURL providerID (targetIn dir (toString index ++ ·))).Watched
      (watch dir index) Completes known := by
  unfold downloadImage
  refine watched_ask fun found => ?_
  split
  · exact fetchImage_watched rawURL providerID
  refine Program.Watched.bind (targetIn_watched (extension_mem _ _)) fun later resolved target => ?_
  refine Program.Watched.bind (takeCached_watched target.2 _) fun later taken completes => ?_
  split
  · exact completes _ rfl
  · exact fetchImage_watched rawURL providerID

theorem pullImage_watched (p : PullPagePayload)
    (located : l.providerChapterDirOrJoined p.mangaID p.providerID p.chapterID = dir) :
    (pullImage l p).Watched (watch dir p.pageIndex) Completes known := by
  unfold pullImage
  split
  · exact fun completed => nomatch completed
  refine watched_ask fun valid => ?_
  split
  · exact fun completed => nomatch completed
  · rw [located]
    exact downloadImage_watched _ _

end Watched

end Kiyomi.Queue
