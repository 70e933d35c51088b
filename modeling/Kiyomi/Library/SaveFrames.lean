import Kiyomi.Library.MangaSaves

namespace Kiyomi.Library

open Go

/-! # What a save leaves alone

Beside its own file and temporary ones, a save changes nothing, but for directories that it
makes on the way. -/

variable {Question : Type} {Answer : Question → Type} [DecidableEq Question]

/-- The call makes a directory at the path, where nothing was. -/
def MakesDirectory (path : Path) (step : FileStep Answer) : Prop :=
  step.1.tree.find path = none ∧ ∃ target reply after, step.2.1 = .mkdirAll target ∧
    step.1.respond (.mkdirAll target) step.2.2 = some (reply, after) ∧ after.tree.find path ≠ none

/-- Nothing happens at a path, or a directory is made there. -/
inductive Steady (path : Path) (f f' : Files Document) (steps : List (FileStep Answer)) : Prop
  | kept (quiet : ∀ step ∈ steps, ¬ MakesDirectory path step)
      (same : f'.tree.find path = f.tree.find path)
  | made (makes : ∃ step ∈ steps, MakesDirectory path step) (new : f.tree.find path = none)
      (directory : f'.tree.find path = some .directory)

section Steadiness

variable {path : Path} {f f₁ f' : Files Document} {before after : List (FileStep Answer)}

theorem Steady.nil : Steady path f f ([] : List (FileStep Answer)) := .kept (by simp) rfl

theorem Steady.append (first : Steady path f f₁ before) (second : Steady path f₁ f' after) :
    Steady path f f' (before ++ after) := by
  cases first with
  | kept quiet same =>
      cases second with
      | kept quiet' same' =>
          exact .kept (List.forall_mem_append.mpr ⟨quiet, quiet'⟩) (same'.trans same)
      | made makes new directory =>
          rcases makes with ⟨step, member, makes⟩
          exact .made ⟨step, List.mem_append_right _ member, makes⟩ (same ▸ new) directory
  | made makes new directory =>
      cases second with
      | kept quiet' same' =>
          rcases makes with ⟨step, member, makes⟩
          exact .made ⟨step, List.mem_append_left _ member, makes⟩ new (same'.trans directory)
      | made _ new' _ =>
          rw [directory] at new'
          contradiction

theorem Steady.same_iff (steady : Steady path f f' before) :
    f'.tree.find path = f.tree.find path ↔ ∀ step ∈ before, ¬ MakesDirectory path step := by
  cases steady with
  | kept quiet same => exact iff_of_true same quiet
  | made makes new directory =>
      refine iff_of_false ?_ ?_
      · rw [new, directory]
        simp
      · rcases makes with ⟨step, member, makes⟩
        exact fun quiet => quiet step member makes

theorem Steady.readFile (steady : Steady path f f' before) :
    f'.tree.readFile path = f.tree.readFile path := by
  cases steady with
  | kept quiet same => rw [FileTree.readFile, FileTree.readFile, same]
  | made makes new directory => simp [FileTree.readFile, new, directory]

/-- A file stays. -/
theorem Steady.file (steady : Steady path f f' before) {content : Document}
    (found : f.tree.find path = some (.file content)) :
    f'.tree.find path = some (.file content) := by
  cases steady with
  | kept quiet same => rw [same, found]
  | made makes new directory =>
      rw [found] at new
      contradiction

theorem steady_mkdirAll (path : Path) {target : Path} {choice : FileChoice Answer}
    {reply : Except FileError Unit}
    (responded : f.respond (.mkdirAll target : FileCall Document Question) choice =
      some (reply, f')) :
    Steady path f f' [((f, .mkdirAll target, choice) : FileStep Answer)] := by
  have makes : MakesDirectory path ((f, .mkdirAll target, choice) : FileStep Answer) ↔
      f.tree.find path = none ∧ f'.tree.find path ≠ none := by
    constructor
    · rintro ⟨new, other, reply', after, same, responded', there⟩
      cases same
      rw [responded] at responded'
      cases responded'
      exact ⟨new, there⟩
    · rintro ⟨new, there⟩
      exact ⟨new, target, reply, f', rfl, responded, there⟩
  have kept : f'.tree.find path = f.tree.find path →
      Steady path f f' [((f, .mkdirAll target, choice) : FileStep Answer)] := by
    refine fun same => .kept (List.forall_mem_singleton.mpr ?_) same
    rw [makes, same]
    exact fun both => both.2 both.1
  rcases Files.respond_cases responded with rfl | ⟨tree, touched, rfl, reached, created, _⟩
  · exact kept rfl
  · cases found : f.tree.find path with
    | some node =>
        refine kept ?_
        rw [found]
        exact FileTree.mkdirAll_keeps created found
    | none =>
        by_cases upper : path <+: target.take reached
        · have directory : tree.find path = some .directory := by
            rw [FileTree.find_mkdirAll created, if_pos upper]
          refine .made ⟨_, List.mem_cons_self, makes.mpr ⟨found, ?_⟩⟩ found directory
          change tree.find path ≠ none
          simp [directory]
        · refine kept ?_
          change tree.find path = f.tree.find path
          rw [FileTree.find_mkdirAll created, if_neg upper]

/-- A program that makes no directories makes none at the path. -/
theorem steady_of_calls {program : Effect Answer α} {post : α → Prop}
    (calls : program.Calls (fun c => ∀ target, c ≠ .mkdirAll target) post)
    {choices : List (FileChoice Answer)} (same : f'.tree.find path = f.tree.find path) :
    Steady path f f' (program.steps Files.respond f choices) := by
  refine .kept (fun step member => ?_) same
  rintro ⟨_, target, _, _, isMkdir, _⟩
  exact calls.steps member target isMkdir

end Steadiness

/-! ## The saves -/

section Saves

variable {l : Layout} {dir q : Path} {name id : String} {content : Document}
  {f f' : Files Document} {choices : List (FileChoice Answer)} {saved : Bool}

/-- `saveJSONAtomic` at every path that is no temporary file of it. -/
theorem saveJSONAtomic_find
    (ran : (saveJSONAtomic dir name content : Effect Answer Bool).run Files.respond f choices =
      some (saved, f'))
    (noTemporary : ∀ digits : String, q ≠ dir ++ [name ++ ".tmp." ++ digits]) :
    f'.tree.find q =
      if saved = true ∧ q = dir ++ [name] then some (.file content) else f.tree.find q := by
  unfold saveJSONAtomic at ran
  rcases Program.run_call.mp ran with ⟨choice₁, _, created, f₁, rfl, responded₁, ran⟩
  have outcome₁ := Files.respond_outcome responded₁
  cases created with
  | error why =>
      rcases Program.run_done.mp ran with ⟨_, rfl, rfl⟩
      change f₁.tree = f.tree at outcome₁
      simp [outcome₁]
  | ok tmp =>
  rcases outcome₁ with ⟨digits, rfl, _, put₁⟩
  have other := noTemporary digits
  have cleans : ∀ {f₂ : Files Document} {rest : List (FileChoice Answer)},
      f₂.tree.find q = f.tree.find q →
      (request (.remove (dir ++ [name ++ ".tmp." ++ digits])) >>= fun _ => pure false :
        Effect Answer Bool).run Files.respond f₂ rest = some (saved, f') →
      f'.tree.find q =
        if saved = true ∧ q = dir ++ [name] then some (.file content) else f.tree.find q := by
    intro f₂ rest same ran
    rcases Program.run_call.mp ran with ⟨choice, _, removed, f₃, rfl, responded, ran⟩
    rcases Program.run_done.mp ran with ⟨_, rfl, rfl⟩
    rw [Files.find_of_unchanged responded other, same]
    simp
  have find₁ : f₁.tree.find q = f.tree.find q := by rw [FileTree.find_put put₁, if_neg other]
  rcases Program.run_call.mp ran with ⟨choice₂, _, written, f₂, rfl, responded₂, ran⟩
  have outcome₂ := Files.respond_outcome responded₂
  have find₂ : f₂.tree.find q = f.tree.find q := by
    rw [Files.find_of_unchanged responded₂ other, find₁]
  cases written with
  | error why => exact cleans find₂ ran
  | ok _ =>
  rcases Program.run_call.mp ran with ⟨choice₃, _, renamed, f₃, rfl, responded₃, ran⟩
  have outcome₃ := Files.respond_outcome responded₃
  cases renamed with
  | error why =>
      change f₃.tree = f₂.tree at outcome₃
      exact cleans (by rw [outcome₃, find₂]) ran
  | ok _ =>
      rcases Program.run_done.mp ran with ⟨_, rfl, rfl⟩
      have put₂ : f₁.tree.writeFile dir (name ++ ".tmp." ++ digits) content = some f₂.tree := by
        simpa [FileCall.Outcome] using outcome₂
      have isFile : f₂.tree.find (dir ++ [name ++ ".tmp." ++ digits]) = some (.file content) := by
        rw [FileTree.find_put put₂, if_pos rfl]
      rw [FileTree.find_rename_file outcome₃ isFile, if_neg other, find₂]
      simp

omit [DecidableEq Question] in
theorem saveJSONAtomic_calls (dir : Path) (name : String) (content : Document) :
    (saveJSONAtomic dir name content : Effect Answer Bool).Calls
      (fun c => ∀ target, c ≠ .mkdirAll target) fun _ => True := by
  unfold saveJSONAtomic
  refine calls_request (by simp) fun created => ?_
  split
  · exact trivial
  · refine calls_request (by simp) fun written => ?_
    split
    · refine calls_request (by simp) fun renamed => ?_
      split
      · exact trivial
      · exact calls_request (by simp) fun _ => trivial
    · exact calls_request (by simp) fun _ => trivial

omit [DecidableEq Question] in
theorem replaceFile_calls (dir target : Path) (base : String) (content : Document) :
    (replaceFile dir base target content : Effect Answer Bool).Calls
      (fun c => ∀ target, c ≠ .mkdirAll target) fun _ => True := by
  unfold replaceFile
  refine calls_request (by simp) fun created => ?_
  split
  · exact trivial
  · refine calls_request (by simp) fun written => ?_
    split
    · refine calls_request (by simp) fun renamed => ?_
      exact calls_request (by simp) fun _ => trivial
    · exact calls_request (by simp) fun _ => trivial

theorem saveLocked_steady (located : l.mangaDir id = .ok dir) (other : q ≠ dir ++ [name])
    (noTemporary : ∀ digits : String, q ≠ dir ++ [name ++ ".tmp." ++ digits])
    (ran : (Effects.saveLocked l id name content : Effect Answer Bool).run Files.respond f choices =
      some (saved, f')) :
    Steady q f f'
      ((Effects.saveLocked l id name content : Effect Answer Bool).steps Files.respond f choices) := by
  simp only [Effects.saveLocked, located] at ran ⊢
  rcases Program.run_call.mp ran with ⟨choice, rest, made, f₁, rfl, responded, ran⟩
  have makes := @steady_mkdirAll _ _ _ _ _ q _ _ _ responded
  cases made with
  | error why =>
      rcases Program.run_done.mp ran with ⟨rfl, _, rfl⟩
      exact Program.steps_call responded ▸ makes.append .nil
  | ok _ =>
      have written := saveJSONAtomic_find ran noTemporary
      rw [if_neg fun both => other both.2] at written
      exact Program.steps_call responded ▸
        makes.append (steady_of_calls (saveJSONAtomic_calls dir name content) written)

theorem saveLocked_done (located : l.mangaDir id = .ok dir)
    (ran : (Effects.saveLocked l id name content : Effect Answer Bool).run Files.respond f choices =
      some (true, f')) : f'.tree.find (dir ++ [name]) = some (.file content) := by
  have regular : ∀ digits : String, name ≠ name ++ ".tmp." ++ digits :=
    fun digits same => temporaryName_ne digits same.symm
  rw [(saveLocked_saves located ran rfl).find name regular, if_pos ⟨rfl, rfl⟩]

/-- `saveChapter`, whether it succeeds or not. -/
theorem saveChapter_steady {mangaID providerID chapterID : String} {chMeta : ChapterMeta}
    (other : saved = true →
      ∀ dir, l.providerChapterDir mangaID providerID chapterID = .ok dir → q ≠ dir ++ ["meta.json"])
    (noTemporary : ∀ dir, ∀ digits : String, q ≠ dir ++ ["meta.json" ++ ".tmp." ++ digits])
    (ran : (Effects.saveChapter l mangaID providerID chapterID chMeta : Effect Answer Bool).run
      Files.respond f choices = some (saved, f')) :
    Steady q f f' ((Effects.saveChapter l mangaID providerID chapterID chMeta :
      Effect Answer Bool).steps Files.respond f choices) := by
  unfold Effects.saveChapter at ran ⊢
  cases located : l.providerChapterDir mangaID providerID chapterID with
  | error refused =>
      simp only [located] at ran ⊢
      rcases Program.run_done.mp ran with ⟨rfl, _, rfl⟩
      exact .nil
  | ok dir =>
      simp only [located] at ran ⊢
      rcases Program.run_call.mp ran with ⟨choice, rest, made, f₁, rfl, responded, ran⟩
      have makes := @steady_mkdirAll _ _ _ _ _ q _ _ _ responded
      cases made with
      | error why =>
          rcases Program.run_done.mp ran with ⟨rfl, _, rfl⟩
          exact Program.steps_call responded ▸ makes.append .nil
      | ok _ =>
          have written := replaceFile_find ran (noTemporary dir)
          rw [if_neg fun both => other both.1 dir located both.2] at written
          exact Program.steps_call responded ▸ makes.append (steady_of_calls
            (replaceFile_calls dir (dir ++ ["meta.json"]) "meta.json" (.chapter chMeta.saved)) written)

theorem saveChapter_done {mangaID providerID chapterID : String} {chMeta : ChapterMeta}
    (ran : (Effects.saveChapter l mangaID providerID chapterID chMeta : Effect Answer Bool).run
      Files.respond f choices = some (true, f')) :
    ∃ dir, l.providerChapterDir mangaID providerID chapterID = .ok dir ∧
      f'.tree.find (dir ++ ["meta.json"]) = some (.file (.chapter chMeta.saved)) := by
  unfold Effects.saveChapter at ran
  cases located : l.providerChapterDir mangaID providerID chapterID with
  | error refused =>
      simp only [located] at ran
      cases (Program.run_done.mp ran).2.1
  | ok dir =>
      simp only [located] at ran
      rcases Program.run_call.mp ran with ⟨choice, rest, made, f₁, rfl, responded, ran⟩
      cases made with
      | error why => cases (Program.run_done.mp ran).2.1
      | ok _ =>
          have regular : ∀ digits : String,
              dir ++ ["meta.json"] ≠ dir ++ ["meta.json" ++ ".tmp." ++ digits] := by
            intro digits same
            exact temporaryName_ne digits (List.cons.inj (List.append_cancel_left same)).1.symm
          exact ⟨dir, rfl, by rw [replaceFile_find ran regular, if_pos ⟨rfl, rfl⟩]⟩

end Saves

end Kiyomi.Library
