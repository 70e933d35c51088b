import Kiyomi.Library.Replacements
import Kiyomi.Queue.PageJobs

namespace Kiyomi.Queue

open Go Library

/-! # Downloading an image

`downloadImage` takes an image from the cache, by a link or a copy, or from the network. Its
targets are the files of one stem with the extension of an image. -/

/-- A file that a download can be meant for. -/
def ImageTarget (dir : Path) (stem : String) (path : Path) : Prop :=
  ∃ suffix ∈ imageSuffixes, path = dir ++ [stem ++ suffix]

/-- Where the bytes of the image come from, and which extension it gets. -/
def Source (l : Layout) (rawURL providerID : String) (before : Disk)
    (choices : List (FileChoice PullQuestion.Answer)) (suffix : String) (content : Document) : Prop :=
  (∃ cachedPath contentType,
    .answer (.cached rawURL) (some (cachedPath, contentType)) ∈ choices ∧
      before.readFile cachedPath = some content ∧
      suffix = extensionFromImageResponse l rawURL contentType) ∨
  ∃ response, .answer (.fetch rawURL providerID) (some response) ∈ choices ∧
    content = .data response.body ∧
    suffix = extensionFromImageResponse l rawURL response.contentType

/-- An error leaves the targets as they were, success leaves the whole image, and nothing but
directories and targets is new. -/
structure AllOrNothing (l : Layout) (dir : Path) (stem rawURL providerID : String)
    (before after : Disk) (choices : List (FileChoice PullQuestion.Answer)) (handled : Handled) :
    Prop where
  failed : handled ≠ .completed → ∀ q, ImageTarget dir stem q → after.find q = before.find q
  completed : handled = .completed → ∃ suffix content,
    Source l rawURL providerID before choices suffix content ∧
      after.find (dir ++ [stem ++ suffix]) = some (.file content)
  noTemporary : ∀ q, after.find q ≠ none →
    before.find q ≠ none ∨ q <+: dir ∨ ImageTarget dir stem q

/-- Every removal of a temporary file that is still there is carried out, and when an old image is
removed, a file comes into place. -/
def Replaces (dir : Path) (stem : String) (steps : List (FileStep PullQuestion.Answer)) : Prop :=
  (∀ step ∈ steps, CleansUp (ImageTarget dir stem) step) ∧
    ((∃ step ∈ steps, Takes (ImageTarget dir stem) step) →
      ∃ step ∈ steps, Places (ImageTarget dir stem) step)

variable {l : Layout} {dir : Path} {stem : String}

theorem suffix_length {suffix : String} (member : suffix ∈ imageSuffixes) :
    4 ≤ suffix.toList.length ∧ suffix.toList.length ≤ 5 := by
  revert suffix
  decide +kernel

/-- A temporary file is no target. -/
theorem not_imageTarget_temporary {suffix : String} (member : suffix ∈ imageSuffixes)
    (digits : String) : ¬ ImageTarget dir stem (dir ++ [stem ++ suffix ++ ".tmp." ++ digits]) := by
  rintro ⟨other, isSuffix, same⟩
  have lengths := congrArg (fun name => name.toList.length) (eq_of_concat same)
  simp only [String.toList_append, List.length_append] at lengths
  have tmp : ".tmp.".toList.length = 5 := by decide
  have := suffix_length member
  have := suffix_length isSuffix
  omega

theorem not_imageTarget_of_prefix {q : Path} (upper : q <+: dir) : ¬ ImageTarget dir stem q := by
  rintro ⟨suffix, _, rfl⟩
  have short := upper.length_le
  simp at short

/-! ## Temporary files -/

/-- What exists stays, but for the targets. -/
def Keeps (dir : Path) (stem : String) (f f' : Files Document) : Prop :=
  ∀ q, ¬ ImageTarget dir stem q → f.tree.find q ≠ none → f'.tree.find q ≠ none

/-- Nothing is new but directories and targets. -/
def NothingNew (dir : Path) (stem : String) (f f' : Files Document) : Prop :=
  ∀ q, f'.tree.find q ≠ none → f.tree.find q ≠ none ∨ q <+: dir ∨ ImageTarget dir stem q

/-- New temporary files are those whose removal is refused. -/
abbrev Tidy (dir : Path) (stem : String) (post : α → Prop) (program : PullEffect α) : Prop :=
  Program.Exact Files.respond (Keeps dir stem) (NothingNew dir stem) (CleansUp (ImageTarget dir stem))
    post program

theorem keeps_trans {a b c : Files Document} (first : Keeps dir stem a b)
    (second : Keeps dir stem b c) :
    Keeps dir stem a c ∧
      (NothingNew dir stem a c ↔ NothingNew dir stem a b ∧ NothingNew dir stem b c) := by
  refine ⟨fun q other found => second q other (first q other found), ?_⟩
  constructor
  · intro whole
    constructor
    · intro q found
      by_cases target : ImageTarget dir stem q
      · exact .inr (.inr target)
      · exact whole q (second q target found)
    · intro q found
      by_cases target : ImageTarget dir stem q
      · exact .inr (.inr target)
      · rcases whole q found with old | new
        · exact .inl (first q target old)
        · exact .inr new
  · rintro ⟨left, right⟩ q found
    rcases right q found with old | new
    · exact left q old
    · exact .inr new

theorem Tidy.bind {program : PullEffect α} {post : α → Prop} (tidy : Tidy dir stem post program)
    {next : α → PullEffect β} {last : β → Prop}
    (rest : ∀ value, post value → Tidy dir stem last (next value)) :
    Tidy dir stem last (program >>= next) := by
  have trans : ∀ a b c, Keeps dir stem a b → Keeps dir stem b c → Keeps dir stem a c ∧
      (NothingNew dir stem a c ↔ NothingNew dir stem a b ∧ NothingNew dir stem b c) :=
    fun _ _ _ => keeps_trans
  exact Program.Exact.bind trans tidy rest

theorem tidy_done {value : α} {post : α → Prop} (holds : post value) :
    Tidy dir stem post (.done value : PullEffect α) :=
  Program.exact_done (fun _ => ⟨fun _ _ found => found, fun _ found => .inl found⟩) holds

/-- A call that changes no path but targets, and is no removal of another. -/
theorem tidy_request {c : FileCall Document PullQuestion}
    (changes : ∀ q, c.Changes q → ImageTarget dir stem q)
    (removes : ∀ path, c = .remove path → ImageTarget dir stem path)
    {next : c.Reply PullQuestion.Answer → PullEffect α} {post : α → Prop}
    (rest : ∀ reply, Tidy dir stem post (next reply)) :
    Tidy dir stem post (request c >>= next) := by
  refine Tidy.bind (Program.exact_perform ?_) fun reply _ => rest reply
  intro f choice reply f' responded
  have same : ∀ q, ¬ ImageTarget dir stem q → f'.tree.find q = f.tree.find q := fun q other =>
    Files.find_of_unchanged responded fun change => other (changes q change)
  refine ⟨fun q other found => by rwa [same q other], iff_of_true (fun q found => ?_) ?_⟩
  · by_cases target : ImageTarget dir stem q
    · exact .inr (.inr target)
    · exact .inl (by rwa [← same q target])
  · exact fun path isRemove other => absurd (removes path isRemove) other

theorem tidy_mkdirAll {next : Except FileError Unit → PullEffect α} {post : α → Prop}
    (rest : ∀ reply, Tidy dir stem post (next reply)) :
    Tidy dir stem post (request (.mkdirAll dir) >>= next) := by
  refine Tidy.bind (Program.exact_perform ?_) fun reply _ => rest reply
  intro f choice reply f' responded
  rcases Files.respond_cases responded with rfl | ⟨tree, touched, rfl, made, created, _⟩
  · exact ⟨fun _ _ found => found, iff_of_true (fun _ found => .inl found) fun _ same => by cases same⟩
  · refine ⟨fun q _ found => ?_, iff_of_true (fun q found => ?_) fun _ same => by cases same⟩
    · cases node : f.tree.find q with
      | none => exact absurd node found
      | some kind =>
          change tree.find q ≠ none
          rw [FileTree.mkdirAll_keeps created node]
          simp
    · change tree.find q ≠ none at found
      rw [FileTree.find_mkdirAll created] at found
      split at found
      · rename_i upper
        exact .inr (.inl (upper.trans (List.take_prefix made dir)))
      · exact .inl found

theorem tidy_replaceFile {suffix : String} (member : suffix ∈ imageSuffixes) (content : Document) :
    Tidy dir stem (fun _ => True)
      (replaceFile dir (stem ++ suffix) (dir ++ [stem ++ suffix]) content) := by
  intro f choices saved f' ran
  have aim : ImageTarget dir stem (dir ++ [stem ++ suffix]) := ⟨suffix, member, rfl⟩
  rcases replaceFile_replacement (not_imageTarget_temporary member) aim ran rfl with ⟨ended, _⟩
  refine ⟨trivial, ?_⟩
  cases ended with
  | saved find places cleans =>
      refine ⟨fun q other found => ?_, iff_of_true (fun q found => ?_) cleans⟩
      · have different : q ≠ dir ++ [stem ++ suffix] := fun same => other (same ▸ aim)
        rwa [find, if_neg different]
      · rw [find] at found
        split at found
        · rename_i same
          exact .inr (.inr (same ▸ aim))
        · exact .inl found
  | kept find quiet cleans =>
      refine ⟨fun q _ found => by rwa [find], iff_of_true (fun q found => ?_) cleans⟩
      exact .inl (by rwa [← find])
  | left tmp beside other new stays find quiet fails =>
      refine ⟨fun q _ found => ?_, iff_of_false (fun nothing => ?_) fun cleans => ?_⟩
      · by_cases same : q = tmp
        · rw [same, new] at found
          contradiction
        · rwa [find q same]
      · rcases nothing tmp stays with old | upper | target
        · exact old new
        · rcases beside with ⟨name, rfl⟩
          have short := upper.length_le
          simp at short
        · exact other target
      · rcases fails with ⟨step, isStep, unclean⟩
        exact unclean (cleans step isStep)

theorem tidy_copy {suffix : String} (member : suffix ∈ imageSuffixes) (srcPath : Path) :
    Tidy dir stem (fun _ => True) (copyFileAtomically srcPath dir (stem ++ suffix)) := by
  unfold copyFileAtomically
  refine tidy_request ?_ (fun _ same => by cases same) fun reply => ?_
  · exact fun _ change => change.elim
  split
  · exact tidy_done trivial
  · exact tidy_replaceFile member _

/-- The target is one of the stem, if there is one. -/
def Resolves (dir : Path) (stem : String) (resolved : Option (Path × String)) : Prop :=
  resolved = none ∨ ∃ suffix ∈ imageSuffixes, resolved = some (dir, stem ++ suffix)

theorem tidy_targetIn {suffix : String} (member : suffix ∈ imageSuffixes) :
    Tidy dir stem (Resolves dir stem) (targetIn dir (stem ++ ·) suffix) := by
  unfold targetIn
  refine tidy_mkdirAll fun reply => ?_
  split
  · exact tidy_done (.inr ⟨suffix, member, rfl⟩)
  · exact tidy_done (.inl rfl)

theorem tidy_takeCached {resolved : Option (Path × String)} (resolves : Resolves dir stem resolved)
    (cachedPath : Path) : Tidy dir stem (fun _ => True) (takeCached cachedPath resolved) := by
  rcases resolves with rfl | ⟨suffix, member, rfl⟩
  · exact tidy_done trivial
  · have aim : ImageTarget dir stem (dir ++ [stem ++ suffix]) := ⟨suffix, member, rfl⟩
    refine tidy_mkdirAll fun made => ?_
    split
    · refine tidy_request ?_ ?_ fun removed => ?_
      · rintro q rfl
        exact aim
      · rintro _ ⟨⟩
        exact aim
      refine tidy_request ?_ (fun _ same => by cases same) fun linked => ?_
      · rintro q rfl
        exact aim
      split
      · exact tidy_done trivial
      · refine Tidy.bind (tidy_copy member cachedPath) fun copied _ => ?_
        split
        · exact tidy_done trivial
        · exact tidy_done trivial
    · exact tidy_done trivial

theorem tidy_ask {question : PullQuestion} {next : question.Answer → PullEffect α} {post : α → Prop}
    (rest : ∀ answer, Tidy dir stem post (next answer)) :
    Tidy dir stem post (askOutside question >>= next) := by
  refine tidy_request ?_ (fun _ same => by cases same) rest
  exact fun _ change => change.elim

theorem tidy_fetchImage (rawURL providerID : String) :
    Tidy dir stem (fun _ => True)
      (fetchImage l rawURL providerID (targetIn dir (stem ++ ·))) := by
  unfold fetchImage
  refine tidy_ask fun fetched => ?_
  split
  · exact tidy_done trivial
  split
  · exact tidy_done trivial
  rename_i response _
  refine Tidy.bind (tidy_targetIn (extension_mem _ _)) fun resolved resolves => ?_
  rcases resolves with rfl | ⟨suffix, member, rfl⟩
  · exact tidy_done trivial
  · refine Tidy.bind (tidy_replaceFile member _) fun saved _ => ?_
    split
    · exact tidy_done trivial
    · exact tidy_done trivial

theorem tidy_downloadImage (rawURL providerID : String) :
    Tidy dir stem (fun _ => True)
      (downloadImage l rawURL providerID (targetIn dir (stem ++ ·))) := by
  unfold downloadImage
  refine tidy_ask fun cached => ?_
  split
  · exact tidy_fetchImage rawURL providerID
  · refine Tidy.bind (tidy_targetIn (extension_mem _ _)) fun resolved resolves => ?_
    refine Tidy.bind (tidy_takeCached resolves _) fun taken _ => ?_
    split
    · exact tidy_done trivial
    · exact tidy_fetchImage rawURL providerID

/-! ## Targets -/

/-- How a part of the download ends: with an image in place, or without one. -/
inductive Attempt (dir : Path) (stem : String) (held : String → Document → Prop)
    (f f' : Files Document) (steps : List (FileStep PullQuestion.Answer)) : Bool → Prop
  | placed (suffix : String) (content : Document) (source : held suffix content)
      (find : f'.tree.find (dir ++ [stem ++ suffix]) = some (.file content))
      (places : ∃ step ∈ steps, Places (ImageTarget dir stem) step) :
      Attempt dir stem held f f' steps true
  | gaveUp
      (loses : ∀ q, ImageTarget dir stem q → f'.tree.find q = f.tree.find q ∨ f'.tree.find q = none)
      (quiet : ∀ step ∈ steps, ¬ Places (ImageTarget dir stem) step)
      (same : (∀ q, ImageTarget dir stem q → f'.tree.find q = f.tree.find q) ↔
        ∀ step ∈ steps, ¬ Takes (ImageTarget dir stem) step) :
      Attempt dir stem held f f' steps false

variable {held : String → Document → Prop} {f f₁ f' : Files Document}
  {before after trace : List (FileStep PullQuestion.Answer)} {ended : Bool}

/-- After an attempt without success another can be made. -/
theorem Attempt.append (first : Attempt dir stem held f f₁ before false)
    (second : Attempt dir stem held f₁ f' after ended) :
    Attempt dir stem held f f' (before ++ after) ended := by
  cases first with
  | gaveUp loses quiet same =>
  cases second with
  | placed suffix content source find places =>
      rcases places with ⟨step, isStep, places⟩
      exact .placed suffix content source find ⟨step, List.mem_append_right _ isStep, places⟩
  | gaveUp loses' quiet' same' =>
      refine .gaveUp (fun q target => ?_) (List.forall_mem_append.mpr ⟨quiet, quiet'⟩) ?_
      · rcases loses' q target with kept | lost
        · rw [kept]
          exact loses q target
        · exact .inr lost
      · rw [List.forall_mem_append, ← same, ← same']
        constructor
        · intro whole
          have kept : ∀ q, ImageTarget dir stem q → f₁.tree.find q = f.tree.find q := by
            intro q target
            rcases loses q target with kept | lost
            · exact kept
            · rcases loses' q target with kept' | lost'
              · rw [← kept', whole q target]
              · rw [lost, ← whole q target, lost']
          exact ⟨kept, fun q target => by rw [whole q target, kept q target]⟩
        · rintro ⟨left, right⟩ q target
          rw [right q target, left q target]

theorem attempt_nil : Attempt dir stem held f f [] false := by
  refine .gaveUp (fun _ _ => .inl rfl) (by simp) ?_
  simp

/-- A call that is about other files, or fails. -/
theorem attempt_unchanged {step : FileStep PullQuestion.Answer}
    (same : ∀ q, ImageTarget dir stem q → f'.tree.find q = f.tree.find q)
    (places : ¬ Places (ImageTarget dir stem) step) (takes : ¬ Takes (ImageTarget dir stem) step) :
    Attempt dir stem held f f' [step] false := by
  refine .gaveUp (fun q target => .inl (same q target)) (List.forall_mem_singleton.mpr places) ?_
  exact iff_of_true same (List.forall_mem_singleton.mpr takes)

theorem attempt_mkdirAll {choice : FileChoice PullQuestion.Answer} {reply : Except FileError Unit}
    (responded : f.respond (.mkdirAll dir : FileCall Document PullQuestion) choice =
      some (reply, f')) :
    Attempt dir stem held f f' [(f, .mkdirAll dir, choice)] false := by
  refine attempt_unchanged (fun q target => ?_) ?_ ?_
  · exact Files.find_of_unchanged responded fun upper => not_imageTarget_of_prefix upper target
  · exact not_places_of_ne (fun _ _ => by simp) fun _ _ => by simp
  · exact not_takes_of_ne fun _ => by simp

theorem attempt_remove {path : Path} (target : ImageTarget dir stem path)
    {choice : FileChoice PullQuestion.Answer} {reply : Except FileError Unit}
    (responded : f.respond (.remove path : FileCall Document PullQuestion) choice =
      some (reply, f')) :
    Attempt dir stem held f f' [(f, .remove path, choice)] false := by
  have places : ¬ Places (ImageTarget dir stem)
      ((f, .remove path, choice) : FileStep PullQuestion.Answer) :=
    not_places_of_ne (fun _ _ => by simp) fun _ _ => by simp
  have proper : path ≠ [] := by
    rcases target with ⟨suffix, _, rfl⟩
    simp
  rcases respond_remove_reply proper responded with ⟨⟨why, rfl⟩, same⟩ | ⟨rfl, old, after⟩
  · refine attempt_unchanged (fun q _ => by rw [same]) places ?_
    rintro ⟨other, _, isRemove, gone, gets⟩
    cases isRemove
    rw [responded] at gets
    cases gets
  · refine .gaveUp (fun q _ => ?_) (List.forall_mem_singleton.mpr places) (iff_of_false ?_ ?_)
    · rw [after]
      split
      · exact .inr rfl
      · exact .inl rfl
    · intro same
      apply old
      rw [← same path target, after, if_pos rfl]
    · intro quiet
      exact quiet _ List.mem_cons_self ⟨path, target, rfl, f', responded⟩

theorem attempt_replaceFile {suffix : String} (member : suffix ∈ imageSuffixes) {content : Document}
    (source : held suffix content) {choices : List (FileChoice PullQuestion.Answer)} {saved : Bool}
    (ran : (replaceFile dir (stem ++ suffix) (dir ++ [stem ++ suffix]) content :
      PullEffect Bool).run Files.respond f choices = some (saved, f'))
    (traced : (replaceFile dir (stem ++ suffix) (dir ++ [stem ++ suffix]) content :
      PullEffect Bool).steps Files.respond f choices = trace) :
    Attempt dir stem held f f' trace saved := by
  have aim : ImageTarget dir stem (dir ++ [stem ++ suffix]) := ⟨suffix, member, rfl⟩
  rcases replaceFile_replacement (not_imageTarget_temporary member) aim ran traced with
    ⟨ends, takes⟩
  cases ends with
  | saved find places cleans =>
      exact .placed suffix content source (by rw [find, if_pos rfl]) places
  | kept find quiet cleans =>
      exact .gaveUp (fun q _ => .inl (find q)) quiet (iff_of_true (fun q _ => find q) takes)
  | left tmp beside other new stays find quiet fails =>
      have same : ∀ q, ImageTarget dir stem q → f'.tree.find q = f.tree.find q :=
        fun q target => find q fun isTmp => other (isTmp ▸ target)
      exact .gaveUp (fun q target => .inl (same q target)) quiet (iff_of_true same takes)

/-- The bytes come from a file. -/
def HeldAt (f : Files Document) (srcPath : Path) (suffix : String) (which : String)
    (content : Document) : Prop :=
  which = suffix ∧ f.tree.readFile srcPath = some content

theorem Attempt.mono {other : String → Document → Prop}
    (attempt : Attempt dir stem held f f' trace ended)
    (implies : ∀ which content, held which content → other which content) :
    Attempt dir stem other f f' trace ended := by
  cases attempt with
  | placed suffix content source find places =>
      exact .placed suffix content (implies suffix content source) find places
  | gaveUp loses quiet same => exact .gaveUp loses quiet same

theorem attempt_copy {suffix : String} (member : suffix ∈ imageSuffixes) {srcPath : Path}
    {choices : List (FileChoice PullQuestion.Answer)} {copied : Bool}
    (ran : (copyFileAtomically srcPath dir (stem ++ suffix)).run Files.respond f choices =
      some (copied, f'))
    (traced : (copyFileAtomically srcPath dir (stem ++ suffix)).steps Files.respond f choices =
      trace) :
    Attempt dir stem (HeldAt f srcPath suffix) f f' trace copied := by
  unfold copyFileAtomically at ran traced
  rcases Program.run_call.mp ran with ⟨choice, rest, reply, f₁, rfl, responded, ran⟩
  rcases Program.steps_cons responded traced with ⟨later, rfl, traced⟩
  have read : Attempt dir stem (HeldAt f srcPath suffix) f f₁ [(f, .readFile srcPath, choice)]
      false := by
    refine attempt_unchanged (fun q _ => Files.find_of_unchanged responded id) ?_ ?_
    · exact not_places_of_ne (fun _ _ => by simp) fun _ _ => by simp
    · exact not_takes_of_ne fun _ => by simp
  cases reply with
  | error why =>
      rcases Program.run_done.mp ran with ⟨rfl, rfl, rfl⟩
      cases traced
      exact read
  | ok content =>
      have found := FileTree.readFile_eq_some.mpr (respond_readFile responded)
      exact read.append (attempt_replaceFile member ⟨rfl, found⟩ ran traced)

/-- A call that only makes directories or removes leaves no file that was not there. -/
theorem held_of_mkdirAll {choice : FileChoice PullQuestion.Answer} {reply : Except FileError Unit}
    (responded : f.respond (.mkdirAll dir : FileCall Document PullQuestion) choice =
      some (reply, f')) {path : Path} {content : Document}
    (found : f'.tree.readFile path = some content) : f.tree.readFile path = some content := by
  rcases Files.respond_cases responded with rfl | ⟨tree, touched, rfl, made, created, _⟩
  · exact found
  · rw [FileTree.readFile_eq_some] at found ⊢
    change tree.find path = _ at found
    rw [FileTree.find_mkdirAll created] at found
    split at found
    · cases found
    · exact found

theorem held_of_remove {gone : Path} (proper : gone ≠ [])
    {choice : FileChoice PullQuestion.Answer} {reply : Except FileError Unit}
    (responded : f.respond (.remove gone : FileCall Document PullQuestion) choice =
      some (reply, f')) {path : Path} {content : Document}
    (found : f'.tree.readFile path = some content) : f.tree.readFile path = some content := by
  rcases respond_remove_reply proper responded with ⟨_, same⟩ | ⟨_, _, after⟩
  · rwa [same] at found
  · rw [FileTree.readFile_eq_some] at found ⊢
    rw [after] at found
    split at found
    · contradiction
    · exact found

theorem attempt_takeCached {suffix : String} (member : suffix ∈ imageSuffixes) {cachedPath : Path}
    {choices : List (FileChoice PullQuestion.Answer)} {taken : Option Handled}
    (ran : (takeCached cachedPath (some (dir, stem ++ suffix))).run Files.respond f choices =
      some (taken, f'))
    (traced : (takeCached cachedPath (some (dir, stem ++ suffix))).steps Files.respond f choices =
      trace) :
    Attempt dir stem (HeldAt f cachedPath suffix) f f' trace (taken == some .completed) := by
  have target : ImageTarget dir stem (dir ++ [stem ++ suffix]) := ⟨suffix, member, rfl⟩
  unfold takeCached at ran traced
  rcases Program.run_call.mp ran with ⟨choice₁, rest, made, f₁, rfl, responded₁, ran⟩
  rcases Program.steps_cons responded₁ traced with ⟨later, rfl, traced₁⟩
  refine Attempt.append (attempt_mkdirAll responded₁) ?_
  cases made with
  | error why =>
      rcases Program.run_done.mp ran with ⟨rfl, rfl, rfl⟩
      cases traced₁
      exact attempt_nil
  | ok _ =>
  rcases Program.run_call.mp ran with ⟨choice₂, rest, removed, f₂, rfl, responded₂, ran⟩
  rcases Program.steps_cons responded₂ traced₁ with ⟨later, rfl, traced₂⟩
  refine Attempt.append (attempt_remove target responded₂) ?_
  rcases Program.run_call.mp ran with ⟨choice₃, rest, linked, f₃, rfl, responded₃, ran⟩
  rcases Program.steps_cons responded₃ traced₂ with ⟨later, rfl, traced₃⟩
  have outcome := Files.respond_outcome responded₃
  have held₂ : ∀ content, f₂.tree.readFile cachedPath = some content →
      f.tree.readFile cachedPath = some content := fun content found =>
    held_of_mkdirAll responded₁ (held_of_remove (by simp) responded₂ found)
  cases linked with
  | ok _ =>
      rcases Program.run_done.mp ran with ⟨rfl, rfl, rfl⟩
      cases traced₃
      rcases outcome with ⟨content, found, written⟩
      refine .placed suffix content ⟨rfl, held₂ content found⟩ ?_ ?_
      · rw [FileTree.find_put written]
        simp
      · exact ⟨_, List.mem_cons_self, cachedPath, _, target, .inr ⟨rfl, _, responded₃⟩⟩
  | error why =>
      change f₃.tree = f₂.tree at outcome
      have link : Attempt dir stem (HeldAt f cachedPath suffix) f₂ f₃
          [(f₂, .link cachedPath (dir ++ [stem ++ suffix]), choice₃)] false := by
        refine attempt_unchanged (fun q _ => by rw [outcome]) ?_ (not_takes_of_ne fun _ => by simp)
        rintro ⟨src, dst, _, ⟨same, _⟩ | ⟨same, placed, gets⟩⟩
        · cases same
        · cases same
          rw [responded₃] at gets
          cases gets
      refine link.append ?_
      change Program.run Files.respond (copyFileAtomically cachedPath dir (stem ++ suffix) >>=
        fun copied => if copied = true then pure (some .completed) else pure none) f₃ rest =
          some (taken, f') at ran
      rcases Program.run_bind.mp ran with ⟨early, late, copied, f₄, rfl, ranCopy, ran⟩
      replace traced₃ := (Program.steps_bind ranCopy).symm.trans traced₃
      have copies : Attempt dir stem (HeldAt f cachedPath suffix) f₃ f₄
          ((copyFileAtomically cachedPath dir (stem ++ suffix)).steps Files.respond f₃ early ++ [])
          copied := by
        rw [List.append_nil]
        refine (attempt_copy member ranCopy rfl).mono fun which content ⟨same, found⟩ => ?_
        rw [outcome] at found
        exact ⟨same, held₂ content found⟩
      cases copied with
      | true =>
          rcases Program.run_done.mp ran with ⟨rfl, rfl, rfl⟩
          cases traced₃
          exact copies
      | false =>
          rcases Program.run_done.mp ran with ⟨rfl, rfl, rfl⟩
          cases traced₃
          exact copies

theorem targetIn_run {suffix : String} {choices : List (FileChoice PullQuestion.Answer)}
    {resolved : Option (Path × String)}
    (ran : (targetIn dir (stem ++ ·) suffix).run Files.respond f choices = some (resolved, f')) :
    (∀ held, Attempt dir stem held f f'
        ((targetIn dir (stem ++ ·) suffix).steps Files.respond f choices) false) ∧
      (resolved = none ∨ resolved = some (dir, stem ++ suffix)) ∧
      ∀ path content, f'.tree.readFile path = some content → f.tree.readFile path = some content := by
  generalize traced : (targetIn dir (stem ++ ·) suffix).steps Files.respond f choices = trace
  unfold targetIn at ran traced
  rcases Program.run_call.mp ran with ⟨choice, rest, reply, f₁, rfl, responded, ran⟩
  rcases Program.steps_cons responded traced with ⟨later, rfl, traced₁⟩
  have makes := fun held => @attempt_mkdirAll dir stem held _ _ _ _ responded
  cases reply with
  | error why =>
      rcases Program.run_done.mp ran with ⟨rfl, rfl, rfl⟩
      cases traced₁
      exact ⟨makes, .inl rfl, fun _ _ => held_of_mkdirAll responded⟩
  | ok _ =>
      rcases Program.run_done.mp ran with ⟨rfl, rfl, rfl⟩
      cases traced₁
      exact ⟨makes, .inr rfl, fun _ _ => held_of_mkdirAll responded⟩

theorem attempt_ask {question : PullQuestion} {choice : FileChoice PullQuestion.Answer} :
    Attempt dir stem held f f [(f, .ask question, choice)] false := by
  refine attempt_unchanged (fun _ _ => rfl) ?_ (not_takes_of_ne fun _ => by simp)
  exact not_places_of_ne (fun _ _ => by simp) fun _ _ => by simp

variable {rawURL providerID : String} {choices : List (FileChoice PullQuestion.Answer)}
  {handled : Handled}

/-- The bytes come from a response. -/
def Fetched (l : Layout) (rawURL providerID : String)
    (choices : List (FileChoice PullQuestion.Answer)) (suffix : String) (content : Document) : Prop :=
  ∃ response, .answer (.fetch rawURL providerID) (some response) ∈ choices ∧
    content = .data response.body ∧
    suffix = extensionFromImageResponse l rawURL response.contentType

theorem attempt_fetchImage
    (ran : (fetchImage l rawURL providerID (targetIn dir (stem ++ ·))).run Files.respond f choices =
      some (handled, f'))
    (traced : (fetchImage l rawURL providerID (targetIn dir (stem ++ ·))).steps Files.respond f
      choices = trace) :
    Attempt dir stem (Fetched l rawURL providerID choices) f f' trace (handled == .completed) := by
  unfold fetchImage at ran traced
  rcases run_ask.mp ran with ⟨fetched, rest, rfl, ran₁⟩
  rcases Program.steps_cons (Files.respond_answer f _ fetched) traced with ⟨later, rfl, traced₁⟩
  refine Attempt.append attempt_ask ?_
  cases fetched with
  | none =>
      rcases Program.run_done.mp ran₁ with ⟨rfl, rfl, rfl⟩
      cases traced₁
      exact attempt_nil
  | some response =>
  by_cases refused : 400 ≤ response.statusCode
  · simp only [Program.bind, refused, if_true] at ran₁ traced₁
    rcases Program.run_done.mp ran₁ with ⟨rfl, rfl, rfl⟩
    cases traced₁
    split
    · exact attempt_nil
    · exact attempt_nil
  simp only [Program.bind, refused, if_false] at ran₁ traced₁
  rcases Program.run_bind.mp ran₁ with ⟨early, late, resolved, f₁, rfl, ranTarget, ran₂⟩
  replace traced₁ := (Program.steps_bind ranTarget).symm.trans traced₁
  rcases targetIn_run ranTarget with ⟨target, rfl | rfl, _⟩
 
  · rcases Program.run_done.mp ran₂ with ⟨rfl, rfl, rfl⟩
    cases traced₁
    exact (target _).append attempt_nil
  · change Program.run Files.respond (replaceFile dir
        (stem ++ extensionFromImageResponse l rawURL response.contentType)
        (dir ++ [stem ++ extensionFromImageResponse l rawURL response.contentType])
        (.data response.body) >>=
          fun saved => if saved = true then pure .completed else pure .failed) f₁ late =
            some (handled, f') at ran₂
    rcases Program.run_bind.mp ran₂ with ⟨early', late', saved, f₂, rfl, ranReplace, ran₃⟩
    have source : Fetched l rawURL providerID
        (.answer (.fetch rawURL providerID) (some response) :: (early ++ (early' ++ late')))
        (extensionFromImageResponse l rawURL response.contentType) (.data response.body) :=
      ⟨response, List.mem_cons_self, rfl, rfl⟩
    have replaced := attempt_replaceFile (extension_mem rawURL response.contentType) source ranReplace
      (List.append_nil _).symm
    replace traced₁ := (congrArg _ (Program.steps_bind ranReplace)).symm.trans traced₁
    cases saved with
    | true =>
        rcases Program.run_done.mp ran₃ with ⟨rfl, rfl, rfl⟩
        cases traced₁
        exact (target _).append replaced
    | false =>
        rcases Program.run_done.mp ran₃ with ⟨rfl, rfl, rfl⟩
        cases traced₁
        exact (target _).append replaced

theorem source_of_fetched {before : Disk} {later : List (FileChoice PullQuestion.Answer)}
    (within : ∀ choice ∈ later, choice ∈ choices) {suffix : String} {content : Document}
    (fetched : Fetched l rawURL providerID later suffix content) :
    Source l rawURL providerID before choices suffix content := by
  rcases fetched with ⟨response, answered, bytes, named⟩
  exact .inr ⟨response, within _ answered, bytes, named⟩

theorem attempt_downloadImage
    (ran : (downloadImage l rawURL providerID (targetIn dir (stem ++ ·))).run Files.respond f
      choices = some (handled, f'))
    (traced : (downloadImage l rawURL providerID (targetIn dir (stem ++ ·))).steps Files.respond f
      choices = trace) :
    Attempt dir stem (Source l rawURL providerID f.tree choices) f f' trace
      (handled == .completed) := by
  unfold downloadImage at ran traced
  rcases run_ask.mp ran with ⟨cached, rest, rfl, ran₁⟩
  rcases Program.steps_cons (Files.respond_answer f _ cached) traced with ⟨later, rfl, traced₁⟩
  refine Attempt.append attempt_ask ?_
  cases cached with
  | none =>
      refine (attempt_fetchImage ran₁ traced₁).mono fun suffix content fetched => ?_
      exact source_of_fetched (fun _ member => List.mem_cons_of_mem _ member) fetched
  | some found =>
  rcases found with ⟨cachedPath, contentType⟩
  simp only [Program.bind] at ran₁ traced₁
  rcases Program.run_bind.mp ran₁ with ⟨early, late, resolved, f₁, rfl, ranTarget, ran₂⟩
  replace traced₁ := (Program.steps_bind ranTarget).symm.trans traced₁
  rcases targetIn_run ranTarget with ⟨target, rfl | rfl, files⟩
  · rcases Program.run_done.mp ran₂ with ⟨rfl, rfl, rfl⟩
    cases traced₁
    exact (target _).append attempt_nil
  rcases Program.run_bind.mp ran₂ with ⟨early', late', taken, f₂, rfl, ranTake, ran₃⟩
  replace traced₁ := (congrArg _ (Program.steps_bind ranTake)).symm.trans traced₁
  generalize tookTrace : (takeCached cachedPath (some (dir,
    stem ++ extensionFromImageResponse l rawURL contentType))).steps Files.respond f₁ early' =
      took at traced₁
  have takes : Attempt dir stem (Source l rawURL providerID f.tree
      (.answer (.cached rawURL) (some (cachedPath, contentType)) :: (early ++ (early' ++ late'))))
      f₁ f₂ took (taken == some .completed) := by
    refine (attempt_takeCached (extension_mem rawURL contentType) ranTake tookTrace).mono
      fun which content ⟨same, held⟩ => ?_
    exact .inl ⟨cachedPath, contentType, List.mem_cons_self, files cachedPath content held, same⟩
  cases taken with
  | some ended =>
      rcases Program.run_done.mp ran₃ with ⟨rfl, rfl, rfl⟩
      cases traced₁
      rw [← List.append_nil took] at takes
      exact (target _).append takes
  | none =>
      cases traced₁
      refine (target _).append (takes.append ?_)
      refine (attempt_fetchImage ran₃ rfl).mono fun suffix content fetched => ?_
      exact source_of_fetched (fun choice member => by simp [member]) fetched

/-- A download is all or nothing exactly if temporary files can be removed and an image that was
removed is replaced. -/
theorem downloadImage_allOrNothing_iff {before : Disk}
    (ran : (downloadImage l rawURL providerID (targetIn dir (stem ++ ·))).run Files.respond
      (Files.ofTree before) choices = some (handled, f')) :
    AllOrNothing l dir stem rawURL providerID before f'.tree choices handled ↔
      Replaces dir stem ((downloadImage l rawURL providerID (targetIn dir (stem ++ ·))).steps
        Files.respond (Files.ofTree before) choices) := by
  have attempt := attempt_downloadImage ran rfl
  rcases tidy_downloadImage rawURL providerID _ _ _ _ ran with ⟨_, _, tidy⟩
  constructor
  · rintro ⟨failed, completed, noTemporary⟩
    refine ⟨tidy.mp noTemporary, fun ⟨taken, isTaken, takes⟩ => ?_⟩
    by_cases success : handled = .completed
    · subst success
      cases attempt with
      | placed suffix content source find places => exact places
    · rw [beq_eq_false_iff_ne.mpr success] at attempt
      cases attempt with
      | gaveUp loses quiet same => exact absurd takes (same.mp (failed success) taken isTaken)
  · rintro ⟨cleans, replaced⟩
    refine ⟨fun notCompleted => ?_, fun success => ?_, tidy.mpr cleans⟩
    · rw [beq_eq_false_iff_ne.mpr notCompleted] at attempt
      cases attempt with
      | gaveUp loses quiet same =>
          refine same.mpr fun step isStep takes => ?_
          rcases replaced ⟨step, isStep, takes⟩ with ⟨place, isPlace, places⟩
          exact quiet place isPlace places
    · subst success
      cases attempt with
      | placed suffix content source find places => exact ⟨suffix, content, source, find⟩

/-! ## Two downloads -/

/-- A page of a chapter, and another image in the cache. -/
def pulledDisk : Disk := FileTree.ofEntries
  [(["library", "m", "p", "c", "0.jpg"], .file (.data [255, 216])),
    (["cache", "images", "7f"], .file (.data [255, 217])), (["cache", "images"], .directory),
    (["cache"], .directory), (["library", "m", "p", "c"], .directory),
    (["library", "m", "p"], .directory), (["library", "m"], .directory),
    (["library"], .directory)] rfl

/-- The download of the page again. -/
def downloadAgain : PullEffect Handled :=
  downloadImage libraryLayout "https://img.test/0" "p" (targetIn ["library", "m", "p", "c"] ("0" ++ ·))

/-- The image is in the cache; what follows is a choice for each call. -/
def cachedChoices (later : List (FileChoice PullQuestion.Answer)) :
    List (FileChoice PullQuestion.Answer) :=
  .answer (.cached "https://img.test/0") (some (["cache", "images", "7f"], "image/jpeg")) ::
    .grant "" :: .grant "" :: .grant "" :: later

theorem downloadImage_allOrNothing_iff_linked :
    ∃ f', downloadAgain.run Files.respond (Files.ofTree pulledDisk) (cachedChoices [.grant ""]) =
        some (.completed, f') ∧
      AllOrNothing libraryLayout ["library", "m", "p", "c"] "0" "https://img.test/0" "p" pulledDisk
        f'.tree (cachedChoices [.grant ""]) .completed := by
  refine ⟨_, rfl, (downloadImage_allOrNothing_iff rfl).mpr ⟨?_, fun _ => ?_⟩⟩
  · have granted : ∀ step ∈ downloadAgain.steps Files.respond (Files.ofTree pulledDisk)
        (cachedChoices [.grant ""]), step.2.2.isRefusal = false := by decide +kernel
    exact fun step isStep _ _ _ _ => granted step isStep
  · exact ⟨_, List.mem_of_getElem? (i := 4) rfl, _, _, ⟨".jpg", by decide, rfl⟩, .inr ⟨rfl, _, rfl⟩⟩

/-- The old page is removed, the link and the copy are refused, and there is no response. -/
theorem downloadAgain_loses_page :
    ¬ ∀ choices handled f', downloadAgain.run Files.respond (Files.ofTree pulledDisk) choices =
        some (handled, f') →
      AllOrNothing libraryLayout ["library", "m", "p", "c"] "0" "https://img.test/0" "p" pulledDisk
        f'.tree choices handled := by
  intro claimed
  have kept := (claimed (cachedChoices [.refuse 0, .refuse 0,
    .answer (.fetch "https://img.test/0" "p") none]) .failed _ rfl).failed (by decide)
      ["library", "m", "p", "c", "0.jpg"] ⟨".jpg", by decide, rfl⟩
  revert kept
  decide +kernel

end Kiyomi.Queue
