import Kiyomi.Foundation.Run
import Kiyomi.Library.Covers
import Kiyomi.Queue.ImageDownloads
import Kiyomi.Queue.PullFiles
import Kiyomi.Security.ImageFetches

namespace Kiyomi.Queue

open Go Library

/-! # The latest cover

`SyncCover` and `HandlePullCover` put a cover beside those that are there, and only
`ReplaceCoverFromSource` removes them first. -/

/-- The path is there afterwards exactly if it was before and no call removed it. -/
def Spares (path : Path) (f f' : Files Document) (steps : List (FileStep PullQuestion.Answer)) :
    Prop :=
  f'.tree.find path ≠ none ↔
    f.tree.find path ≠ none ∧ ∀ step ∈ steps, ¬ Takes (· = path) step

/-- Calls that have nothing to do with the images of a stem. -/
structure Aside (dir : Path) (stem : String) (f f' : Files Document)
    (steps : List (FileStep PullQuestion.Answer)) : Prop where
  same : ∀ q, ImageTarget dir stem q → f'.tree.find q = f.tree.find q
  placed : steps.filterMap placed = []
  spares : ∀ step ∈ steps, ¬ Takes (ImageTarget dir stem) step

/-- Calls that put at most one image of a stem into place and spare the others, as far as they do
not remove them. -/
structure Puts (dir : Path) (stem : String) (suffix : Option String) (f f' : Files Document)
    (steps : List (FileStep PullQuestion.Answer)) : Prop where
  placed : steps.filterMap placed = (suffix.map fun s => dir ++ [stem ++ s]).toList
  found : ∀ s ∈ suffix, s ∈ imageSuffixes ∧ f'.tree.find (dir ++ [stem ++ s]) ≠ none
  others : ∀ s ∈ imageSuffixes, s ∉ suffix → Spares (dir ++ [stem ++ s]) f f' steps

variable {l : Layout} {dir : Path} {stem base : String} {suffix : Option String}
  {f f₁ f' : Files Document} {before after trace : List (FileStep PullQuestion.Answer)}

theorem takes_of_eq {path : Path} (target : ImageTarget dir stem path)
    {step : FileStep PullQuestion.Answer} (takes : Takes (· = path) step) :
    Takes (ImageTarget dir stem) step := by
  rcases takes with ⟨_, rfl, removes⟩
  exact ⟨_, target, removes⟩

theorem Aside.nil : Aside dir stem f f [] := ⟨fun _ _ => rfl, rfl, by simp⟩

theorem Aside.append (first : Aside dir stem f f₁ before) (second : Aside dir stem f₁ f' after) :
    Aside dir stem f f' (before ++ after) where
  same q target := (second.same q target).trans (first.same q target)
  placed := by rw [List.filterMap_append, first.placed, second.placed, List.nil_append]
  spares := List.forall_mem_append.mpr ⟨first.spares, second.spares⟩

theorem Aside.puts (aside : Aside dir stem f f' trace) : Puts dir stem none f f' trace where
  placed := aside.placed
  found := by simp
  others s member _ := by
    have target : ImageTarget dir stem (dir ++ [stem ++ s]) := ⟨s, member, rfl⟩
    have spared : ∀ step ∈ trace, ¬ Takes (· = dir ++ [stem ++ s]) step :=
      fun step isStep takes => aside.spares step isStep (takes_of_eq target takes)
    rw [Spares, aside.same _ target]
    exact (and_iff_left spared).symm

theorem Spares.append {path : Path} (first : Spares path f f₁ before)
    (second : Spares path f₁ f' after) : Spares path f f' (before ++ after) := by
  rw [Spares, List.forall_mem_append, ← and_assoc]
  exact second.trans (and_congr_left' first)

/-- After a part that put nothing into place. -/
theorem Puts.append (first : Puts dir stem none f f₁ before)
    (second : Puts dir stem suffix f₁ f' after) :
    Puts dir stem suffix f f' (before ++ after) where
  placed := by
    rw [List.filterMap_append, first.placed, second.placed]
    rfl
  found := second.found
  others s member other := (first.others s member (by simp)).append (second.others s member other)

/-- Before calls that have nothing to do with it. -/
theorem Puts.aside (first : Puts dir stem suffix f f₁ before)
    (second : Aside dir stem f₁ f' after) : Puts dir stem suffix f f' (before ++ after) where
  placed := by rw [List.filterMap_append, second.placed, List.append_nil, first.placed]
  found s isPut := by
    rcases first.found s isPut with ⟨member, there⟩
    rw [second.same _ ⟨s, member, rfl⟩]
    exact ⟨member, there⟩
  others s member other := (first.others s member other).append (second.puts.others s member (by simp))

/-! ## Calls -/

theorem placed_eq_none {c : FileCall Document PullQuestion} {choice : FileChoice PullQuestion.Answer}
    (noRename : ∀ src dst, c ≠ .rename src dst) (noLink : ∀ src dst, c ≠ .link src dst) :
    placed (f, c, choice) = none := by
  cases c with
  | rename src dst => exact absurd rfl (noRename src dst)
  | link src dst => exact absurd rfl (noLink src dst)
  | _ => rfl

/-- A call that changes none of the images and brings nothing into place. -/
theorem aside_call {c : FileCall Document PullQuestion} {choice : FileChoice PullQuestion.Answer}
    {reply : c.Reply PullQuestion.Answer} (responded : f.respond c choice = some (reply, f'))
    (changes : ∀ q, c.Changes q → ¬ ImageTarget dir stem q) (quiet : placed (f, c, choice) = none) :
    Aside dir stem f f' [(f, c, choice)] where
  same q target := Files.find_of_unchanged responded fun changed => changes q changed target
  placed := by rw [List.filterMap_cons_none quiet, List.filterMap_nil]
  spares := by
    refine List.forall_mem_singleton.mpr ?_
    rintro ⟨path, target, rfl, _⟩
    exact changes path rfl target

/-- The calls that `aside_call` is about. -/
def StaysAside (dir : Path) (stem : String) (c : FileCall Document PullQuestion) : Prop :=
  (∀ q, c.Changes q → ¬ ImageTarget dir stem q) ∧ (∀ src dst, c ≠ .rename src dst) ∧
    ∀ src dst, c ≠ .link src dst

theorem aside_of_calls {program : PullEffect α} {post : α → Prop}
    (calls : program.Calls (StaysAside dir stem) post)
    {choices : List (FileChoice PullQuestion.Answer)} {value : α}
    (ran : program.run Files.respond f choices = some (value, f')) :
    Aside dir stem f f' (program.steps Files.respond f choices) := by
  induction program generalizing f choices with
  | done result =>
      rcases Program.run_done.mp ran with ⟨rfl, _, rfl⟩
      exact .nil
  | call c next induction =>
      rcases Program.run_call.mp ran with ⟨choice, rest, reply, f₁, rfl, responded, ran⟩
      rcases calls.1 with ⟨changes, noRename, noLink⟩
      rw [Program.steps_call responded]
      exact (aside_call responded changes (placed_eq_none noRename noLink)).append
        (induction reply (calls.2 reply) ran)

theorem aside_ask {question : PullQuestion} {choice : FileChoice PullQuestion.Answer} :
    Aside dir stem f f [(f, .ask question, choice)] where
  same _ _ := rfl
  placed := rfl
  spares := List.forall_mem_singleton.mpr (not_takes_of_ne fun _ => by simp)

theorem aside_mkdirAll {choice : FileChoice PullQuestion.Answer} {reply : Except FileError Unit}
    (responded : f.respond (.mkdirAll dir : FileCall Document PullQuestion) choice =
      some (reply, f')) : Aside dir stem f f' [(f, .mkdirAll dir, choice)] :=
  aside_call responded (fun _ upper => not_imageTarget_of_prefix upper) rfl

/-- The removal of an image before it is put into place. -/
theorem puts_remove {path : Path} (target : ImageTarget dir stem path)
    {choice : FileChoice PullQuestion.Answer} {reply : Except FileError Unit}
    (responded : f.respond (.remove path : FileCall Document PullQuestion) choice =
      some (reply, f')) : Puts dir stem none f f' [(f, .remove path, choice)] where
  placed := rfl
  found := by simp
  others s member _ := by
    have proper : path ≠ [] := by
      rcases target with ⟨suffix, _, rfl⟩
      simp
    have takes : ∀ q, Takes (· = q) ((f, .remove path, choice) : FileStep PullQuestion.Answer) ↔
        q = path ∧ reply = .ok () := by
      intro q
      constructor
      · rintro ⟨_, rfl, removes, after, gets⟩
        cases removes
        rw [responded] at gets
        cases gets
        exact ⟨rfl, rfl⟩
      · rintro ⟨rfl, rfl⟩
        exact ⟨q, rfl, rfl, f', responded⟩
    rw [Spares, List.forall_mem_singleton, takes]
    rcases respond_remove_reply proper responded with ⟨⟨why, rfl⟩, same⟩ | ⟨rfl, _, after⟩
    · rw [same]
      simp
    · rw [after]
      split
      · rename_i isPath
        simp [isPath]
      · rename_i apart
        simp [apart]

/-- The call with which an image comes into place. -/
theorem puts_placed {s : String} (member : s ∈ imageSuffixes)
    {c : FileCall Document PullQuestion} {choice : FileChoice PullQuestion.Answer}
    {reply : c.Reply PullQuestion.Answer} (responded : f.respond c choice = some (reply, f'))
    (places : placed (f, c, choice) = some (dir ++ [stem ++ s]))
    (found : f'.tree.find (dir ++ [stem ++ s]) ≠ none)
    (same : ∀ q, ImageTarget dir stem q → q ≠ dir ++ [stem ++ s] →
      f'.tree.find q = f.tree.find q) :
    Puts dir stem (some s) f f' [(f, c, choice)] where
  placed := by simp [places]
  found := by
    rintro _ ⟨⟩
    exact ⟨member, found⟩
  others other isSuffix apart := by
    have different : dir ++ [stem ++ other] ≠ dir ++ [stem ++ s] := by
      simpa [eq_comm] using apart
    have noRemoval : ¬ Takes (· = dir ++ [stem ++ other])
        ((f, c, choice) : FileStep PullQuestion.Answer) := by
      rintro ⟨_, _, rfl, _⟩
      cases places
    rw [Spares, List.forall_mem_singleton, same _ ⟨other, isSuffix, rfl⟩ different]
    exact (and_iff_left noRemoval).symm

variable {choices : List (FileChoice PullQuestion.Answer)}

/-- A call of `replaceFile` at its temporary file. -/
theorem aside_temporary {tmp : Path} (other : ¬ ImageTarget dir stem tmp)
    {c : FileCall Document PullQuestion} (isWrite : (∃ content, c = .write tmp content) ∨ c = .remove tmp)
    {choice : FileChoice PullQuestion.Answer} {reply : c.Reply PullQuestion.Answer}
    (responded : f.respond c choice = some (reply, f')) : Aside dir stem f f' [(f, c, choice)] := by
  rcases isWrite with ⟨content, rfl⟩ | rfl
  · exact aside_call responded (fun _ same => same ▸ other) rfl
  · exact aside_call responded (fun _ same => same ▸ other) rfl

/-- What `replaceFile` does to the images of the stem when its target is one of them. -/
theorem replaceFile_puts {s : String} (member : s ∈ imageSuffixes)
    (apart : ∀ digits : String, ¬ ImageTarget dir stem (dir ++ [base ++ ".tmp." ++ digits]))
    {content : Document} {saved : Bool}
    (ran : (replaceFile dir base (dir ++ [stem ++ s]) content : PullEffect Bool).run Files.respond f
      choices = some (saved, f'))
    (traced : (replaceFile dir base (dir ++ [stem ++ s]) content : PullEffect Bool).steps
      Files.respond f choices = trace) :
    Puts dir stem (if saved then some s else none) f f' trace := by
  unfold replaceFile at ran traced
  rcases Program.run_call.mp ran with ⟨choice₁, rest, created, f₁, rfl, responded₁, ran⟩
  rcases Program.steps_cons responded₁ traced with ⟨later, rfl, traced₁⟩
  have outcome₁ := Files.respond_outcome responded₁
  have creates : Aside dir stem f f₁ [(f, .createTemp dir (base ++ ".tmp.") (.data []), choice₁)] := by
    refine aside_call responded₁ ?_ rfl
    rintro q ⟨digits, rfl⟩
    exact apart digits
  cases created with
  | error why =>
      rcases Program.run_done.mp ran with ⟨rfl, rfl, rfl⟩
      cases traced₁
      exact creates.puts
  | ok tmp =>
  rcases outcome₁ with ⟨digits, rfl, new, _⟩
  refine creates.puts.append ?_
  rcases Program.run_call.mp ran with ⟨choice₂, rest, written, f₂, rfl, responded₂, ran⟩
  rcases Program.steps_cons responded₂ traced₁ with ⟨later, rfl, traced₂⟩
  have outcome₂ := Files.respond_outcome responded₂
  have writes := aside_temporary (apart digits) (.inl ⟨_, rfl⟩) responded₂
  refine writes.puts.append ?_
  cases written with
  | error why =>
      rcases Program.run_call.mp ran with ⟨choice₃, rest, removed, f₃, rfl, responded₃, ran⟩
      rcases Program.steps_cons responded₃ traced₂ with ⟨later, rfl, traced₃⟩
      rcases Program.run_done.mp ran with ⟨rfl, rfl, rfl⟩
      cases traced₃
      exact (aside_temporary (apart digits) (.inr rfl) responded₃).puts
  | ok _ =>
  rcases Program.run_call.mp ran with ⟨choice₃, rest, renamed, f₃, rfl, responded₃, ran⟩
  rcases Program.steps_cons responded₃ traced₂ with ⟨later, rfl, traced₃⟩
  rcases Program.run_call.mp ran with ⟨choice₄, rest, removed, f₄, rfl, responded₄, ran⟩
  rcases Program.steps_cons responded₄ traced₃ with ⟨later, rfl, traced₄⟩
  rcases Program.run_done.mp ran with ⟨rfl, rfl, rfl⟩
  cases traced₄
  have isFile : f₂.tree.find (dir ++ [base ++ ".tmp." ++ digits]) = some (.file content) := by
    have put : f₁.tree.writeFile dir (base ++ ".tmp." ++ digits) content = some f₂.tree := by
      simpa [FileCall.Outcome] using outcome₂
    rw [FileTree.find_put put, if_pos rfl]
  have cleans := aside_temporary (apart digits) (.inr rfl) responded₄
  have outcome₃ := Files.respond_outcome responded₃
  refine @Puts.aside _ _ _ _ _ _ [_] [_] ?_ cleans
  cases renamed with
  | error why =>
      change f₃.tree = f₂.tree at outcome₃
      refine Aside.puts ⟨fun q _ => by rw [outcome₃], ?_, ?_⟩
      · simp [placed, responded₃, Library.succeeds]
      · exact List.forall_mem_singleton.mpr (not_takes_of_ne fun _ => by simp)
  | ok _ =>
      have moved := FileTree.find_rename_file outcome₃ isFile
      refine puts_placed member responded₃ ?_ ?_ ?_
      · simp [placed, responded₃, Library.succeeds]
      · rw [moved, if_pos rfl]
        simp
      · intro q target different
        have notTemporary : q ≠ dir ++ [base ++ ".tmp." ++ digits] :=
          fun same => apart digits (same ▸ target)
        rw [moved, if_neg different, if_neg notTemporary]

theorem copyFileAtomically_puts {s : String} (member : s ∈ imageSuffixes) {srcPath : Path}
    {copied : Bool}
    (ran : (copyFileAtomically srcPath dir (stem ++ s)).run Files.respond f choices =
      some (copied, f'))
    (traced : (copyFileAtomically srcPath dir (stem ++ s)).steps Files.respond f choices = trace) :
    Puts dir stem (if copied then some s else none) f f' trace := by
  unfold copyFileAtomically at ran traced
  rcases Program.run_call.mp ran with ⟨choice, rest, reply, f₁, rfl, responded, ran⟩
  rcases Program.steps_cons responded traced with ⟨later, rfl, traced₁⟩
  have reads : Aside dir stem f f₁ [(f, .readFile srcPath, choice)] :=
    aside_call responded (fun _ changed => changed.elim) rfl
  refine reads.puts.append ?_
  cases reply with
  | error why =>
      rcases Program.run_done.mp ran with ⟨rfl, rfl, rfl⟩
      cases traced₁
      exact Aside.nil.puts
  | ok content => exact replaceFile_puts member (not_imageTarget_temporary member) ran traced₁

/-- The attempt with the cached image: it puts the image into place, or spares all but the image
that it removed. -/
theorem takeCached_puts {s : String} (member : s ∈ imageSuffixes) {cachedPath : Path}
    {taken : Option Handled}
    (ran : (takeCached cachedPath (some (dir, stem ++ s))).run Files.respond f choices =
      some (taken, f'))
    (traced : (takeCached cachedPath (some (dir, stem ++ s))).steps Files.respond f choices =
      trace) :
    Puts dir stem (if taken = some .completed then some s else none) f f' trace := by
  have target : ImageTarget dir stem (dir ++ [stem ++ s]) := ⟨s, member, rfl⟩
  unfold takeCached at ran traced
  rcases Program.run_call.mp ran with ⟨choice₁, rest, made, f₁, rfl, responded₁, ran⟩
  rcases Program.steps_cons responded₁ traced with ⟨later, rfl, traced₁⟩
  refine (aside_mkdirAll responded₁).puts.append ?_
  cases made with
  | error why =>
      rcases Program.run_done.mp ran with ⟨rfl, rfl, rfl⟩
      cases traced₁
      exact Aside.nil.puts
  | ok _ =>
  rcases Program.run_call.mp ran with ⟨choice₂, rest, removed, f₂, rfl, responded₂, ran⟩
  rcases Program.steps_cons responded₂ traced₁ with ⟨later, rfl, traced₂⟩
  refine (puts_remove target responded₂).append ?_
  rcases Program.run_call.mp ran with ⟨choice₃, rest, linked, f₃, rfl, responded₃, ran⟩
  rcases Program.steps_cons responded₃ traced₂ with ⟨later, rfl, traced₃⟩
  have outcome := Files.respond_outcome responded₃
  cases linked with
  | ok _ =>
      rcases Program.run_done.mp ran with ⟨rfl, rfl, rfl⟩
      cases traced₃
      rcases outcome with ⟨content, _, written⟩
      have linked : ∀ q, f₃.tree.find q =
          if q = dir ++ [stem ++ s] then some (.file content) else f₂.tree.find q := by
        intro q
        rw [FileTree.find_put written, FileCall.path_eq (by simp)]
      refine puts_placed member responded₃ ?_ ?_ fun q _ different => ?_
      · simp [placed, responded₃, Library.succeeds]
      · rw [linked, if_pos rfl]
        simp
      · rw [linked, if_neg different]
  | error why =>
      change f₃.tree = f₂.tree at outcome
      have fails : Aside dir stem f₂ f₃ [(f₂, .link cachedPath (dir ++ [stem ++ s]), choice₃)] := by
        refine ⟨fun q _ => by rw [outcome], ?_, ?_⟩
        · simp [placed, responded₃, Library.succeeds]
        · exact List.forall_mem_singleton.mpr (not_takes_of_ne fun _ => by simp)
      refine fails.puts.append ?_
      change Program.run Files.respond (copyFileAtomically cachedPath dir (stem ++ s) >>=
        fun copied => if copied = true then pure (some .completed) else pure none) f₃ rest =
          some (taken, f') at ran
      rcases Program.run_bind.mp ran with ⟨early, late, copied, f₄, rfl, ranCopy, ran⟩
      replace traced₃ := (Program.steps_bind ranCopy).symm.trans traced₃
      have copies := copyFileAtomically_puts member ranCopy rfl
      cases copied with
      | true =>
          rcases Program.run_done.mp ran with ⟨rfl, rfl, rfl⟩
          cases traced₃
          exact copies.aside .nil
      | false =>
          rcases Program.run_done.mp ran with ⟨rfl, rfl, rfl⟩
          cases traced₃
          exact copies.aside .nil

theorem targetIn_puts {s : String} {resolved : Option (Path × String)}
    (ran : (targetIn dir (stem ++ ·) s).run Files.respond f choices = some (resolved, f')) :
    Puts dir stem none f f' ((targetIn dir (stem ++ ·) s).steps Files.respond f choices) ∧
      (resolved = none ∨ resolved = some (dir, stem ++ s)) := by
  have calls : (targetIn dir (stem ++ ·) s).Calls (StaysAside dir stem) fun _ => True := by
    unfold targetIn
    refine calls_request ⟨fun _ upper => not_imageTarget_of_prefix upper, by simp, by simp⟩ ?_
    intro reply
    split
    · exact trivial
    · exact trivial
  exact ⟨(aside_of_calls calls ran).puts, (targetIn_run ran).2.1⟩

/-! ## Downloads -/

variable {rawURL providerID : String} {handled : Handled}

/-- A download ends with an image in place exactly if it completes. -/
def Ends (dir : Path) (stem : String) (f f' : Files Document)
    (steps : List (FileStep PullQuestion.Answer)) (handled : Handled) : Prop :=
  ∃ suffix, suffix.isSome = (handled == .completed) ∧ Puts dir stem suffix f f' steps

theorem Ends.prepend (first : Puts dir stem none f f₁ before) (ends : Ends dir stem f₁ f' after handled) :
    Ends dir stem f f' (before ++ after) handled := by
  rcases ends with ⟨suffix, whether, puts⟩
  exact ⟨suffix, whether, first.append puts⟩

theorem ends_nil (notCompleted : handled ≠ .completed) : Ends dir stem f f [] handled :=
  ⟨none, by simpa using notCompleted, Aside.nil.puts⟩

theorem fetchImage_ends
    (ran : (fetchImage l rawURL providerID (targetIn dir (stem ++ ·))).run Files.respond f choices =
      some (handled, f'))
    (traced : (fetchImage l rawURL providerID (targetIn dir (stem ++ ·))).steps Files.respond f
      choices = trace) :
    Ends dir stem f f' trace handled := by
  unfold fetchImage at ran traced
  rcases run_ask.mp ran with ⟨fetched, rest, rfl, ran₁⟩
  rcases Program.steps_cons (Files.respond_answer f _ fetched) traced with ⟨later, rfl, traced₁⟩
  refine Ends.prepend aside_ask.puts ?_
  cases fetched with
  | none =>
      rcases Program.run_done.mp ran₁ with ⟨rfl, rfl, rfl⟩
      cases traced₁
      exact ends_nil (by simp)
  | some response =>
  by_cases refused : 400 ≤ response.statusCode
  · simp only [Program.bind, refused, if_true] at ran₁ traced₁
    rcases Program.run_done.mp ran₁ with ⟨rfl, rfl, rfl⟩
    cases traced₁
    refine ends_nil ?_
    split
    · simp
    · simp
  simp only [Program.bind, refused, if_false] at ran₁ traced₁
  rcases Program.run_bind.mp ran₁ with ⟨early, late, resolved, f₁, rfl, ranTarget, ran₂⟩
  replace traced₁ := (Program.steps_bind ranTarget).symm.trans traced₁
  rw [← traced₁]
  rcases targetIn_puts ranTarget with ⟨target, rfl | rfl⟩
  · rcases Program.run_done.mp ran₂ with ⟨rfl, rfl, rfl⟩
    exact Ends.prepend target (ends_nil (by simp))
  · refine Ends.prepend target ?_
    generalize traced₂ : Program.steps _ _ _ _ = last
    change Program.run Files.respond (replaceFile dir
        (stem ++ extensionFromImageResponse l rawURL response.contentType)
        (dir ++ [stem ++ extensionFromImageResponse l rawURL response.contentType])
        (.data response.body) >>=
          fun saved => if saved = true then pure .completed else pure .failed) f₁ late =
            some (handled, f') at ran₂
    rcases Program.run_bind.mp ran₂ with ⟨early', late', saved, f₂, rfl, ranReplace, ran₃⟩
    replace traced₂ := (Program.steps_bind ranReplace).symm.trans traced₂
    have puts := replaceFile_puts (extension_mem rawURL response.contentType)
      (not_imageTarget_temporary (extension_mem rawURL response.contentType)) ranReplace rfl
    rw [← traced₂]
    cases saved with
    | true =>
        rcases Program.run_done.mp ran₃ with ⟨rfl, rfl, rfl⟩
        exact ⟨_, rfl, puts.aside .nil⟩
    | false =>
        rcases Program.run_done.mp ran₃ with ⟨rfl, rfl, rfl⟩
        exact ⟨_, rfl, puts.aside .nil⟩

theorem downloadImage_ends
    (ran : (downloadImage l rawURL providerID (targetIn dir (stem ++ ·))).run Files.respond f
      choices = some (handled, f')) :
    Ends dir stem f f' ((downloadImage l rawURL providerID (targetIn dir (stem ++ ·))).steps
      Files.respond f choices) handled := by
  generalize traced : (downloadImage l rawURL providerID (targetIn dir (stem ++ ·))).steps
    Files.respond f choices = trace
  unfold downloadImage at ran traced
  rcases run_ask.mp ran with ⟨cached, rest, rfl, ran₁⟩
  rcases Program.steps_cons (Files.respond_answer f _ cached) traced with ⟨later, rfl, traced₁⟩
  refine Ends.prepend aside_ask.puts ?_
  cases cached with
  | none => exact fetchImage_ends ran₁ traced₁
  | some found =>
  rcases found with ⟨cachedPath, contentType⟩
  simp only [Program.bind] at ran₁ traced₁
  rcases Program.run_bind.mp ran₁ with ⟨early, late, resolved, f₁, rfl, ranTarget, ran₂⟩
  replace traced₁ := (Program.steps_bind ranTarget).symm.trans traced₁
  rw [← traced₁]
  rcases targetIn_puts ranTarget with ⟨target, rfl | rfl⟩
  · rcases Program.run_done.mp ran₂ with ⟨rfl, rfl, rfl⟩
    exact Ends.prepend target (ends_nil (by simp))
  refine Ends.prepend target ?_
  generalize traced₂ : Program.steps _ _ _ _ = last
  rcases Program.run_bind.mp ran₂ with ⟨early', late', taken, f₂, rfl, ranTake, ran₃⟩
  replace traced₂ := (Program.steps_bind ranTake).symm.trans traced₂
  rw [← traced₂]
  have takes := takeCached_puts (extension_mem rawURL contentType) ranTake rfl
  cases taken with
  | some ended =>
      rcases Program.run_done.mp ran₃ with ⟨rfl, rfl, rfl⟩
      refine ⟨_, ?_, takes.aside .nil⟩
      cases ended with
      | completed => rfl
      | failed => rfl
      | permanent => rfl
  | none => exact Ends.prepend takes (fetchImage_ends ran₃ rfl)

/-! ## The writers -/

variable {mangaID coverURL : String}

theorem suffix_second {suffix : String} (member : suffix ∈ imageSuffixes) :
    suffix.toList[1]? ≠ some 't' := by
  revert suffix
  decide +kernel

/-- The temporary file that `SyncCover` writes is no cover. -/
theorem not_imageTarget_stem_temporary (digits : String) :
    ¬ ImageTarget dir stem (dir ++ [stem ++ ".tmp." ++ digits]) := by
  rintro ⟨suffix, member, same⟩
  have named := congrArg String.toList (eq_of_concat same)
  simp only [String.toList_append, List.append_assoc, List.append_cancel_left_eq] at named
  exact suffix_second member (by rw [← named]; rfl)

theorem syncCover_puts
    (ran : (Security.syncCover l mangaID coverURL).run Files.respond f choices = some (true, f')) :
    ∃ dir s, Puts dir "cover" (some s) f f'
      ((Security.syncCover l mangaID coverURL).steps Files.respond f choices) := by
  generalize traced : (Security.syncCover l mangaID coverURL).steps Files.respond f choices = trace
  unfold Security.syncCover at ran traced
  by_cases noURL : coverURL = ""
  · simp only [noURL, if_true] at ran
    cases (Program.run_done.mp ran).2.1
  simp only [noURL, if_false] at ran traced
  rcases run_ask.mp ran with ⟨valid, rest, rfl, ran₁⟩
  rcases Program.steps_cons (Files.respond_answer f _ valid) traced with ⟨later, rfl, traced₁⟩
  cases valid with
  | false => cases (Program.run_done.mp ran₁).2.1
  | true =>
  cases located : l.mangaDir mangaID with
  | error refused =>
      simp only [Program.bind, located] at ran₁
      cases (Program.run_done.mp ran₁).2.1
  | ok dir =>
  simp only [Program.bind, located] at ran₁ traced₁
  rcases Program.run_call.mp ran₁ with ⟨choice, rest, made, f₁, rfl, responded, ran₂⟩
  rcases Program.steps_cons responded traced₁ with ⟨later, rfl, traced₂⟩
  cases made with
  | error why => cases (Program.run_done.mp ran₂).2.1
  | ok _ =>
  rcases run_ask.mp ran₂ with ⟨fetched, rest, rfl, ran₃⟩
  rcases Program.steps_cons (Files.respond_answer f₁ _ fetched) traced₂ with ⟨later, rfl, traced₃⟩
  cases fetched with
  | none => cases (Program.run_done.mp ran₃).2.1
  | some response =>
  by_cases refused : 400 ≤ response.statusCode
  · simp only [Program.bind, refused, if_true] at ran₃
    cases (Program.run_done.mp ran₃).2.1
  simp only [Program.bind, refused, if_false] at ran₃ traced₃
  have member := @extension_mem l coverURL response.contentType
  have puts := replaceFile_puts member not_imageTarget_stem_temporary ran₃ traced₃
  refine ⟨dir, extensionFromImageResponse l coverURL response.contentType, ?_⟩
  refine aside_ask.puts.append ((aside_mkdirAll responded).puts.append ?_)
  exact aside_ask.puts.append puts

theorem staysAside_of_reads {c : FileCall Document PullQuestion} (reads : c.Reads) :
    StaysAside dir stem c := by
  cases c with
  | stat path | readFile path | readDir path | ask question =>
      exact ⟨fun _ changed => changed.elim, by simp, by simp⟩
  | _ => exact reads.elim

theorem releaseCoverClaim_staysAside (mangaID : String) :
    (Effects.releaseCoverClaim l mangaID : PullEffect Bool).Calls (StaysAside dir "cover")
      fun _ => True := by
  unfold Effects.releaseCoverClaim
  split
  · exact trivial
  · rename_i mangaDir _
    have other : StaysAside dir "cover"
        (.remove (mangaDir ++ [".cover-pending"]) : FileCall Document PullQuestion) := by
      refine ⟨?_, by simp, by simp⟩
      rintro _ rfl ⟨suffix, _, same⟩
      have first := congrArg (·.toList.head?) (List.cons.inj (List.append_inj_right' same rfl)).1
      simp at first
    refine calls_request other fun reply => ?_
    split
    all_goals exact trivial

theorem handlePullCover_puts {p : PullCoverPayload}
    (ran : (handlePullCover l p).run Files.respond f choices = some (.completed, f')) :
    ∃ s, Puts (join l.root [p.mangaID]) "cover" (some s) f f'
      ((handlePullCover l p).steps Files.respond f choices) := by
  generalize traced : (handlePullCover l p).steps Files.respond f choices = trace
  unfold handlePullCover at ran traced
  cases complete : p.complete with
  | false =>
      simp only [complete] at ran
      cases (Program.run_done.mp ran).2.1
  | true =>
  simp only [complete] at ran traced
  rcases run_askOutside.mp ran with ⟨valid, rest, rfl, ran₁⟩
  rcases Program.steps_cons (Files.respond_answer f _ valid) traced with ⟨later, rfl, traced₁⟩
  cases valid with
  | false =>
      rcases Program.run_bind.mp ran₁ with ⟨_, _, _, _, _, _, returned⟩
      cases (Program.run_done.mp returned).2.1
  | true =>
  rcases Program.run_bind.mp ran₁ with ⟨early, late, providerID, f₁, rfl, asked, ran₂⟩
  replace traced₁ := (Program.steps_bind asked).symm.trans traced₁
  rcases Program.run_bind.mp ran₂ with ⟨early', late', handled, f₂, rfl, loaded, ran₃⟩
  replace traced₁ := (congrArg _ (Program.steps_bind loaded)).symm.trans traced₁
  rw [← traced₁]
  rcases downloadImage_ends loaded with ⟨suffix, whether, puts⟩
  have asks : Aside (join l.root [p.mangaID]) "cover" f f₁
      ((coverProvider l p).steps Files.respond f early) :=
    aside_of_calls ((Reads.onlyReads (coverProvider_reads p)).mono (fun _ => staysAside_of_reads)
      fun _ holds => holds) asked
  cases handled with
  | failed =>
      rcases Program.run_bind.mp ran₃ with ⟨_, _, _, _, _, _, returned⟩
      cases (Program.run_done.mp returned).2.1
  | permanent =>
      rcases Program.run_bind.mp ran₃ with ⟨_, _, _, _, _, _, returned⟩
      cases (Program.run_done.mp returned).2.1
  | completed =>
      rcases Option.isSome_iff_exists.mp whether with ⟨s, rfl⟩
      refine ⟨s, aside_ask.puts.append (asks.puts.append (puts.aside ?_))⟩
      rcases Program.run_bind.mp ran₃ with ⟨_, _, released, f₃, rfl, releases, returned⟩
      have isAside : Aside (join l.root [p.mangaID]) "cover" f₂ f₃ _ :=
        aside_of_calls (releaseCoverClaim_staysAside p.mangaID) releases
      cases released with
      | false => cases (Program.run_done.mp returned).2.1
      | true =>
          rcases Program.run_done.mp returned with ⟨rfl, _, rfl⟩
          exact (Program.steps_bind releases).symm ▸ isAside.append .nil

/-! ## Sequences of calls -/

/-- A call on the cover of a manga. -/
inductive CoverCall
  | syncCover (coverURL : String)
  | pullCover (coverURL providerID : String)
  | replaceCoverFromSource (sourceID : String)
  | removeCoverFiles

variable (l : Layout) (mangaID : String)

/-- Whether the call succeeds. -/
def CoverCall.program : CoverCall → PullEffect Bool
  | .syncCover coverURL => Security.syncCover l mangaID coverURL
  | .pullCover coverURL providerID => do
      pure ((← handlePullCover l ⟨mangaID, coverURL, providerID⟩) == .completed)
  | .replaceCoverFromSource sourceID => Effects.replaceCoverFromSource l mangaID sourceID
  | .removeCoverFiles => Effects.removeCoverFiles l mangaID

structure CoverState where
  disk : Disk
  /-- The file of the latest write, nothing after a removal. -/
  latest : Option (Option Path)

/-- The latest write or removal after a call. A source without a cover is no write. -/
def CoverCall.latest (steps : List (FileStep PullQuestion.Answer)) (earlier : Option (Option Path)) :
    CoverCall → Option (Option Path)
  | .removeCoverFiles => some none
  | .syncCover _ | .pullCover .. | .replaceCoverFromSource _ =>
      match (steps.filterMap placed).getLast? with
      | some path => some (some path)
      | none => earlier

/-- The calls that the program makes of the system. -/
def CoverCall.steps (call : CoverCall) (disk : Disk)
    (choices : List (FileChoice PullQuestion.Answer)) : List (FileStep PullQuestion.Answer) :=
  (call.program l mangaID).steps Files.respond (.ofTree disk) choices

/-- A successful call. -/
def coverStep (s : CoverState) (action : CoverCall × List (FileChoice PullQuestion.Answer)) :
    Option CoverState :=
  match (action.1.program l mangaID).run Files.respond (.ofTree s.disk) action.2 with
  | some (true, f) =>
      some ⟨f.tree, action.1.latest (action.1.steps l mangaID s.disk action.2) s.latest⟩
  | _ => none

/-- `CoverPath` gives the file of the latest write, and nothing after a removal. -/
def LatestWins (s : CoverState) : Prop :=
  ∀ path, s.latest = some path → l.coverPath s.disk mangaID = path

/-- The file that is put into place is a cover of the manga, and there is none with an extension
that is tried earlier, or it is removed. -/
def Unshadowed (disk : Disk) (steps : List (FileStep PullQuestion.Answer)) : Prop :=
  ∀ path ∈ steps.filterMap placed, ∃ dir ext,
    l.mangaDir mangaID = .ok dir ∧ path = dir ++ ["cover" ++ ext] ∧
      ∀ earlier ∈ Layout.coverExts.takeWhile (· ≠ ext),
        disk.find (dir ++ ["cover" ++ earlier]) = none ∨
          ∃ step ∈ steps, Takes (· = dir ++ ["cover" ++ earlier]) step

/-- A download is not shadowed. -/
def DownloadsUnshadowed (s : CoverState)
    (action : CoverCall × List (FileChoice PullQuestion.Answer)) : Prop :=
  match action.1 with
  | .syncCover _ | .pullCover .. =>
      Unshadowed l mangaID s.disk (action.1.steps l mangaID s.disk action.2)
  | .replaceCoverFromSource _ | .removeCoverFiles => True

variable {l : Layout} {mangaID : String}

theorem coverFile_inj {dir' : Path} {ext ext' : String}
    (same : dir ++ ["cover" ++ ext] = dir' ++ ["cover" ++ ext']) : dir = dir' ∧ ext = ext' := by
  rcases List.append_inj' same rfl with ⟨dirs, names⟩
  exact ⟨dirs, by simpa using names⟩

/-- A downloaded cover is the one that is found exactly if it is not shadowed. -/
theorem coverPath_iff_unshadowed {disk : Disk} {s : String}
    (puts : Puts dir "cover" (some s) (.ofTree disk) f' trace) :
    l.coverPath f'.tree mangaID = some (dir ++ ["cover" ++ s]) ↔
      Unshadowed l mangaID disk trace := by
  have isPlaced : trace.filterMap placed = [dir ++ ["cover" ++ s]] := puts.placed
  rcases puts.found s rfl with ⟨member, found⟩
  have absent : ∀ earlier ∈ Layout.coverExts.takeWhile (· ≠ s),
      (f'.tree.find (dir ++ ["cover" ++ earlier]) = none ↔
        disk.find (dir ++ ["cover" ++ earlier]) = none ∨
          ∃ step ∈ trace, Takes (· = dir ++ ["cover" ++ earlier]) step) := by
    intro earlier before
    have different : earlier ≠ s := by simpa using List.mem_takeWhile_imp before
    have spared := puts.others earlier ((List.takeWhile_prefix _).subset before)
      (by simpa using different.symm)
    have decided := not_congr spared
    simpa only [Files.ofTree, ne_eq, not_not, not_and_or, not_forall, exists_prop] using decided
  rw [coverPath_eq_some_iff, Unshadowed, isPlaced]
  constructor
  · rintro ⟨dir', ext, located, same, _, _, first⟩ path isPath
    rcases coverFile_inj same with ⟨rfl, rfl⟩
    rw [List.mem_singleton.mp isPath]
    exact ⟨dir, s, located, rfl, fun earlier before => (absent earlier before).mp (first _ before)⟩
  · intro unshadowed
    rcases unshadowed _ List.mem_cons_self with ⟨dir', ext, located, same, clear⟩
    rcases coverFile_inj same with ⟨rfl, rfl⟩
    exact ⟨dir, s, located, rfl, member, found,
      fun earlier before => (absent earlier before).mpr (clear earlier before)⟩

theorem CoverCall.latest_of_placed (call : CoverCall) (notRemoval : call ≠ .removeCoverFiles)
    (earlier : Option (Option Path)) {path : Path} (isPlaced : trace.filterMap placed = [path]) :
    call.latest trace earlier = some (some path) := by
  cases call with
  | removeCoverFiles => exact absurd rfl notRemoval
  | syncCover | pullCover | replaceCoverFromSource => simp [latest, isPlaced]

theorem CoverCall.latest_of_quiet (call : CoverCall) (notRemoval : call ≠ .removeCoverFiles)
    (earlier : Option (Option Path)) (quiet : trace.filterMap placed = []) :
    call.latest trace earlier = earlier := by
  cases call with
  | removeCoverFiles => exact absurd rfl notRemoval
  | syncCover | pullCover | replaceCoverFromSource => simp [latest, quiet]

/-- A call that downloads a cover. -/
theorem latestWins_of_download {s : CoverState} {dir : Path} {suffix : String}
    {earlier : Option (Option Path)} {call : CoverCall} (notRemoval : call ≠ .removeCoverFiles)
    (puts : Puts dir "cover" (some suffix) (.ofTree s.disk) f' trace) :
    LatestWins l mangaID ⟨f'.tree, call.latest trace earlier⟩ ↔ Unshadowed l mangaID s.disk trace := by
  rw [← coverPath_iff_unshadowed puts, LatestWins, call.latest_of_placed notRemoval _ puts.placed]
  simp

/-- One call: the latest write wins afterwards exactly if a download is not shadowed. -/
theorem coverStep_exact {s next : CoverState}
    {action : CoverCall × List (FileChoice PullQuestion.Answer)} (wins : LatestWins l mangaID s)
    (taken : coverStep l mangaID s action = some next) :
    LatestWins l mangaID next ↔ DownloadsUnshadowed l mangaID s action := by
  rcases action with ⟨call, choices⟩
  unfold coverStep at taken
  split at taken
  · rename_i f' ran
    cases taken
    cases call with
    | syncCover coverURL =>
        rcases syncCover_puts ran with ⟨dir, suffix, puts⟩
        exact latestWins_of_download (by simp) puts
    | pullCover coverURL providerID =>
        rcases Program.run_bind.mp ran with ⟨early, late, handled, f₁, rfl, pulled, returned⟩
        rcases Program.run_done.mp returned with ⟨rfl, completed, rfl⟩
        rcases beq_iff_eq.mp completed with rfl
        rcases handlePullCover_puts pulled with ⟨suffix, puts⟩
        have steps : (CoverCall.pullCover coverURL providerID).steps l mangaID s.disk (early ++ []) =
            (handlePullCover l ⟨mangaID, coverURL, providerID⟩).steps Files.respond (.ofTree s.disk)
              early ++ [] := Program.steps_bind pulled
        rw [DownloadsUnshadowed, steps]
        exact latestWins_of_download (by simp) (puts.aside .nil)
    | replaceCoverFromSource sourceID =>
        refine iff_of_true ?_ trivial
        rcases replaceCoverFromSource_run ran rfl with ⟨unchanged, quiet⟩ | ⟨path, isPlaced, found⟩
        · intro path isLatest
          have kept := CoverCall.latest_of_quiet (.replaceCoverFromSource sourceID) (by simp) s.latest
            quiet
          rw [show f'.tree = s.disk from unchanged]
          exact wins path (kept.symm.trans isLatest)
        · intro other isLatest
          have moved := CoverCall.latest_of_placed (.replaceCoverFromSource sourceID) (by simp) s.latest
            isPlaced
          rcases moved.symm.trans isLatest with ⟨⟩
          exact found
    | removeCoverFiles =>
        refine iff_of_true ?_ trivial
        rintro _ ⟨⟩
        exact removeCoverFiles_run ran
  · contradiction

/-- Over a whole sequence the latest cover wins exactly if no download is shadowed. -/
theorem latestCover_iff {first last : CoverState}
    {actions : List (CoverCall × List (FileChoice PullQuestion.Answer))}
    (run : Run (coverStep l mangaID) (fun _ _ => True) first actions last)
    (fresh : first.latest = none) :
    Run.Throughout (coverStep l mangaID) (LatestWins l mangaID) first actions ↔
      Run (coverStep l mangaID) (DownloadsUnshadowed l mangaID) first actions last := by
  refine run.throughout_iff (LatestWins l mangaID) (fun _ wins => wins) ?_ ?_
  · intro s action next wins taken
    have exactly := coverStep_exact wins taken
    exact ⟨exactly.mpr, exactly.mp⟩
  · intro path isLatest
    rw [fresh] at isLatest
    contradiction

/-! ## Two downloads -/

/-- `SyncCover` gets an image of the type, and nothing is refused. -/
def syncedCover (contentType : String) : CoverCall × List (FileChoice PullQuestion.Answer) :=
  ⟨.syncCover "https://img.test/cover",
    [.answer (.validateURL "https://img.test/cover") true, .grant "",
      .answer (.fetch "https://img.test/cover" "") (some ⟨200, contentType, [1]⟩), .grant "0",
      .grant "", .grant "", .grant ""]⟩

/-- A library without covers, before the first call. -/
def noCover : CoverState := ⟨libraryDisk, none⟩

/-- The library after a call. -/
def afterCover (s : CoverState) (contentType : String) : CoverState :=
  (coverStep libraryLayout "m" s (syncedCover contentType)).getD s

theorem coverStep_afterCover {s : CoverState} {contentType : String}
    (isSome : (coverStep libraryLayout "m" s (syncedCover contentType)).isSome = true) :
    coverStep libraryLayout "m" s (syncedCover contentType) = some (afterCover s contentType) := by
  rcases Option.isSome_iff_exists.mp isSome with ⟨next, taken⟩
  rw [afterCover, taken, Option.getD_some]

theorem unshadowed_of_placed {s : CoverState} {contentType ext : String}
    (isPlaced : ((syncedCover contentType).1.steps libraryLayout "m" s.disk
      (syncedCover contentType).2).filterMap placed = [["library", "m", "cover" ++ ext]])
    (absent : ∀ earlier ∈ Layout.coverExts.takeWhile (· ≠ ext),
      s.disk.find ["library", "m", "cover" ++ earlier] = none) :
    DownloadsUnshadowed libraryLayout "m" s (syncedCover contentType) := by
  intro path isPath
  have located : libraryLayout.mangaDir "m" = .ok ["library", "m"] := by decide +kernel
  rw [isPlaced, List.mem_singleton] at isPath
  exact ⟨["library", "m"], ext, located, isPath, fun earlier before => .inl (absent earlier before)⟩

theorem latestCover_iff_earlierExtension :
    Run.Throughout (coverStep libraryLayout "m") (LatestWins libraryLayout "m") noCover
      [syncedCover "image/png", syncedCover "image/jpeg"] := by
  have png : DownloadsUnshadowed libraryLayout "m" noCover (syncedCover "image/png") :=
    @unshadowed_of_placed _ _ ".png" (by decide +kernel) (by decide +kernel)
  have jpeg : DownloadsUnshadowed libraryLayout "m" (afterCover noCover "image/png")
      (syncedCover "image/jpeg") :=
    @unshadowed_of_placed _ _ ".jpg" (by decide +kernel) (by decide +kernel)
  have run : Run (coverStep libraryLayout "m") (DownloadsUnshadowed libraryLayout "m") noCover
      [syncedCover "image/png", syncedCover "image/jpeg"]
      (afterCover (afterCover noCover "image/png") "image/jpeg") :=
    .cons png (coverStep_afterCover (by decide +kernel))
      (.cons jpeg (coverStep_afterCover (by decide +kernel)) (.nil _))
  exact (latestCover_iff (run.weaken fun _ _ _ => trivial) rfl).mpr run

/-- A PNG after a JPEG is not found. -/
theorem earlier_cover_shadows :
    ¬ ∀ actions last, Run (coverStep libraryLayout "m") (fun _ _ => True) noCover actions last →
      LatestWins libraryLayout "m" last := by
  intro claimed
  have run : Run (coverStep libraryLayout "m") (fun _ _ => True) noCover
      [syncedCover "image/jpeg", syncedCover "image/png"]
      (afterCover (afterCover noCover "image/jpeg") "image/png") :=
    .cons trivial (coverStep_afterCover (by decide +kernel))
      (.cons trivial (coverStep_afterCover (by decide +kernel)) (.nil _))
  have found := claimed _ _ run (some ["library", "m", "cover.png"]) (by decide +kernel)
  revert found
  decide +kernel

end Kiyomi.Queue
