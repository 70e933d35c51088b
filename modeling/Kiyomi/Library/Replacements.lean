import Kiyomi.Library.Effects

namespace Kiyomi.Library

open Go

/-! # Replacing a file

A file is replaced by way of a temporary one in its directory. A failure leaves the old file,
and the temporary one only if that cannot be removed again. -/

variable {Question : Type} {Answer : Question → Type} [DecidableEq Question]

/-- A call in its state, with the choice. -/
abbrev FileStep (Answer : Question → Type) :=
  Files Document × FileCall Document Question × FileChoice Answer

/-- The call can get the reply. -/
def Gets (f : Files Document) (choice : FileChoice Answer) (c : FileCall Document Question)
    (reply : c.Reply Answer) : Prop :=
  ∃ f', f.respond c choice = some (reply, f')

/-- The removal of something that is there is not refused, unless it is a target. -/
def CleansUp (isTarget : Path → Prop) (step : FileStep Answer) : Prop :=
  ∀ path, step.2.1 = .remove path → ¬ isTarget path → step.1.tree.find path ≠ none →
    step.2.2.isRefusal = false

/-- A file comes to a target. -/
def Places (isTarget : Path → Prop) (step : FileStep Answer) : Prop :=
  ∃ src dst, isTarget dst ∧
    (step.2.1 = .rename src dst ∧ Gets step.1 step.2.2 (.rename src dst) (.ok ()) ∨
      step.2.1 = .link src dst ∧ Gets step.1 step.2.2 (.link src dst) (.ok ()))

/-- A target is removed. -/
def Takes (isTarget : Path → Prop) (step : FileStep Answer) : Prop :=
  ∃ path, isTarget path ∧ step.2.1 = .remove path ∧ Gets step.1 step.2.2 (.remove path) (.ok ())

/-- How the replacement of a file ends. -/
inductive Replacement (isTarget : Path → Prop) (target : Path) (content : Document)
    (f f' : Files Document) (steps : List (FileStep Answer)) : Bool → Prop
  | saved
      (find : ∀ q, f'.tree.find q =
        if q = target then some (.file content) else f.tree.find q)
      (places : ∃ step ∈ steps, Places isTarget step)
      (cleans : ∀ step ∈ steps, CleansUp isTarget step) :
      Replacement isTarget target content f f' steps true
  | kept
      (find : ∀ q, f'.tree.find q = f.tree.find q)
      (quiet : ∀ step ∈ steps, ¬ Places isTarget step)
      (cleans : ∀ step ∈ steps, CleansUp isTarget step) :
      Replacement isTarget target content f f' steps false
  | left (tmp : Path) (beside : ∃ name, tmp = target.dropLast ++ [name])
      (other : ¬ isTarget tmp) (new : f.tree.find tmp = none)
      (stays : f'.tree.find tmp ≠ none) (find : ∀ q, q ≠ tmp → f'.tree.find q = f.tree.find q)
      (quiet : ∀ step ∈ steps, ¬ Places isTarget step)
      (fails : ∃ step ∈ steps, ¬ CleansUp isTarget step) :
      Replacement isTarget target content f f' steps false

/-! ## One call -/

section Calls

variable {isTarget : Path → Prop} {f f' : Files Document} {choice : FileChoice Answer}

omit [DecidableEq Question] in
theorem cleansUp_of_ne {c : FileCall Document Question} (other : ∀ path, c ≠ .remove path) :
    CleansUp isTarget (f, c, choice) := fun path same => absurd same (other path)

theorem not_takes_of_ne {c : FileCall Document Question} (other : ∀ path, c ≠ .remove path) :
    ¬ Takes isTarget (f, c, choice) := fun ⟨path, _, same, _⟩ => other path same

theorem not_places_of_ne {c : FileCall Document Question} (noRename : ∀ src dst, c ≠ .rename src dst)
    (noLink : ∀ src dst, c ≠ .link src dst) : ¬ Places isTarget (f, c, choice) := by
  rintro ⟨src, dst, _, ⟨same, _⟩ | ⟨same, _⟩⟩
  · exact noRename src dst same
  · exact noLink src dst same

theorem not_places_of_error {src dst : Path} {why : FileError}
    (responded : f.respond (.rename src dst : FileCall Document Question) choice =
      some (.error why, f')) : ¬ Places isTarget (f, (.rename src dst), choice) := by
  rintro ⟨src', dst', _, ⟨same, after, gets⟩ | ⟨same, _⟩⟩
  · cases same
    rw [responded] at gets
    cases gets
  · cases same

/-- A removal is refused, or nothing is there afterwards. -/
theorem respond_remove {path : Path} (proper : path ≠ [])
    (noDirectory : f.tree.find path ≠ some .directory)
    {reply : FileCall.Reply Answer (.remove path : FileCall Document Question)}
    (responded : f.respond (.remove path : FileCall Document Question) choice = some (reply, f')) :
    (choice.isRefusal = true ∧ f'.tree = f.tree) ∨
      choice.isRefusal = false ∧
        ∀ q, f'.tree.find q = if q = path then none else f.tree.find q := by
  cases choice with
  | answer question answer => contradiction
  | refuse made =>
      cases responded
      exact .inl ⟨rfl, rfl⟩
  | grant suffix =>
      refine .inr ⟨rfl, fun q => ?_⟩
      simp only [Files.respond, Files.granted] at responded
      split at responded
      · rename_i absent
        cases responded
        split
        · rename_i same
          rw [same, absent]
        · rfl
      · rename_i removed
        cases responded
        exact FileTree.find_remove proper removed q
      · rename_i node tree found blocked
        rw [FileTree.remove] at blocked
        split at blocked
        · rename_i isDirectory _
          exact absurd isDirectory noDirectory
        · contradiction

/-- A removal that succeeds leaves nothing, another one everything. -/
theorem respond_remove_reply {path : Path} (proper : path ≠ [])
    {reply : FileCall.Reply Answer (.remove path : FileCall Document Question)}
    (responded : f.respond (.remove path : FileCall Document Question) choice = some (reply, f')) :
    (∃ why, reply = .error why) ∧ f'.tree = f.tree ∨
      reply = .ok () ∧ f.tree.find path ≠ none ∧
        ∀ q, f'.tree.find q = if q = path then none else f.tree.find q := by
  cases choice with
  | answer question answer => contradiction
  | refuse made =>
      cases responded
      exact .inl ⟨⟨_, rfl⟩, rfl⟩
  | grant suffix =>
      simp only [Files.respond, Files.granted] at responded
      split at responded
      · cases responded
        exact .inl ⟨⟨_, rfl⟩, rfl⟩
      · rename_i found removed
        cases responded
        exact .inr ⟨rfl, by simp [found], FileTree.find_remove proper removed⟩
      · cases responded
        exact .inl ⟨⟨_, rfl⟩, rfl⟩

/-- A file that is read is there. -/
theorem respond_readFile {path : Path} {content : Document}
    (responded : f.respond (.readFile path : FileCall Document Question) choice =
      some (.ok content, f')) : f.tree.find path = some (.file content) := by
  cases choice with
  | answer question answer => contradiction
  | refuse made => cases responded
  | grant suffix =>
      simp only [Files.respond, Files.granted] at responded
      split at responded
      · rename_i found
        cases responded
        exact found
      · cases responded
      · cases responded

end Calls

/-! ## The replacement -/

section Replaces

variable {isTarget : Path → Prop} {dir : Path} {base : String} {content : Document}
  {f f' : Files Document} {choices : List (FileChoice Answer)} {saved : Bool}

theorem temporaryName_ne (digits : String) : base ++ ".tmp." ++ digits ≠ base := by
  intro same
  simpa using congrArg (fun name => name.toList.length) same

/-- The removal of a temporary file takes no target. -/
theorem not_takes_of_other {path : Path} {choice : FileChoice Answer} (other : ¬ isTarget path) :
    ¬ Takes isTarget ((f, .remove path, choice) : FileStep Answer) := by
  rintro ⟨_, target, same, _⟩
  cases same
  exact other target

/-- What is left to do after the temporary file could not be brought into place. -/
theorem cleanup_replacement {f₁ : Files Document} {tmp target : Path}
    {before : List (FileStep Answer)} {choice : FileChoice Answer}
    {reply : FileCall.Reply Answer (.remove tmp : FileCall Document Question)}
    (beside : ∃ name, tmp = target.dropLast ++ [name]) (other : ¬ isTarget tmp)
    (new : f.tree.find tmp = none) (isFile : ∃ held, f₁.tree.find tmp = some (.file held))
    (find : ∀ q, q ≠ tmp → f₁.tree.find q = f.tree.find q)
    (quiet : ∀ step ∈ before, ¬ Places isTarget step)
    (cleans : ∀ step ∈ before, CleansUp isTarget step)
    (responded : f₁.respond (.remove tmp : FileCall Document Question) choice = some (reply, f')) :
    Replacement isTarget target content f f' (before ++ [(f₁, .remove tmp, choice)]) false := by
  rcases isFile with ⟨held, isFile⟩
  have proper : tmp ≠ [] := by
    rcases beside with ⟨name, rfl⟩
    simp
  have noPlace : ∀ step ∈ before ++ [(f₁, .remove tmp, choice)], ¬ Places isTarget step := by
    rw [List.forall_mem_append, List.forall_mem_singleton]
    exact ⟨quiet, not_places_of_ne (fun _ _ => by simp) fun _ _ => by simp⟩
  have noDirectory : f₁.tree.find tmp ≠ some .directory := by simp [isFile]
  rcases respond_remove proper noDirectory responded with ⟨refused, same⟩ | ⟨granted, after⟩
  · refine .left tmp beside other new (by rw [same, isFile]; simp) ?_ noPlace ?_
    · intro q different
      rw [same, find q different]
    · refine ⟨_, List.mem_append_right _ List.mem_cons_self, fun cleans => ?_⟩
      have allowed := cleans tmp rfl other (by simp [isFile])
      rw [refused] at allowed
      contradiction
  · refine .kept (fun q => ?_) noPlace ?_
    · rw [after q]
      split
      · rename_i same
        rw [same, new]
      · rename_i different
        exact find q different
    · rw [List.forall_mem_append, List.forall_mem_singleton]
      exact ⟨cleans, fun _ _ _ _ => granted⟩

variable {trace : List (FileStep Answer)}

/-- `replaceFile` replaces a file, and it removes no target. -/
theorem replaceFile_replacement
    (apart : ∀ digits : String, ¬ isTarget (dir ++ [base ++ ".tmp." ++ digits]))
    (aim : isTarget (dir ++ [base]))
    (ran : (replaceFile dir base (dir ++ [base]) content : Effect Answer Bool).run Files.respond f
      choices = some (saved, f'))
    (traced : (replaceFile dir base (dir ++ [base]) content : Effect Answer Bool).steps Files.respond f
      choices = trace) :
    Replacement isTarget (dir ++ [base]) content f f' trace saved ∧
      ∀ step ∈ trace, ¬ Takes isTarget step := by
  unfold replaceFile at ran traced
  rcases Program.run_call.mp ran with ⟨choice₁, rest, created, f₁, rfl, responded₁, ran⟩
  rcases Program.steps_cons responded₁ traced with ⟨later, rfl, traced₁⟩
  have outcome₁ := Files.respond_outcome responded₁
  have quiet₁ : ¬ Places isTarget
      ((f, .createTemp dir (base ++ ".tmp.") (.data []), choice₁) : FileStep Answer) :=
    not_places_of_ne (fun _ _ => by simp) fun _ _ => by simp
  have cleans₁ : CleansUp isTarget
      ((f, .createTemp dir (base ++ ".tmp.") (.data []), choice₁) : FileStep Answer) :=
    cleansUp_of_ne fun _ => by simp
  have takes₁ : ¬ Takes isTarget
      ((f, .createTemp dir (base ++ ".tmp.") (.data []), choice₁) : FileStep Answer) :=
    not_takes_of_ne fun _ => by simp
  cases created with
  | error _ =>
      rcases Program.run_done.mp ran with ⟨rfl, rfl, rfl⟩
      change f₁.tree = f.tree at outcome₁
      obtain rfl : later = [] := traced₁.symm
      refine ⟨.kept (fun q => by rw [outcome₁]) ?_ ?_, ?_⟩
      · exact List.forall_mem_singleton.mpr quiet₁
      · exact List.forall_mem_singleton.mpr cleans₁
      · exact List.forall_mem_singleton.mpr takes₁
  | ok tmp =>
  rcases outcome₁ with ⟨digits, rfl, new, put₁⟩
  have other := apart digits
  have beside : ∃ name, dir ++ [base ++ ".tmp." ++ digits] = (dir ++ [base]).dropLast ++ [name] :=
    ⟨base ++ ".tmp." ++ digits, by simp⟩
  rcases Program.run_call.mp ran with ⟨choice₂, rest, written, f₂, rfl, responded₂, ran⟩
  rcases Program.steps_cons responded₂ traced₁ with ⟨later, rfl, traced₂⟩
  have outcome₂ := Files.respond_outcome responded₂
  have quiet₂ : ¬ Places isTarget ((f₁, .write (dir ++ [base ++ ".tmp." ++ digits]) content,
      choice₂) : FileStep Answer) :=
    not_places_of_ne (fun _ _ => by simp) fun _ _ => by simp
  have cleans₂ : CleansUp isTarget ((f₁, .write (dir ++ [base ++ ".tmp." ++ digits]) content,
      choice₂) : FileStep Answer) := cleansUp_of_ne fun _ => by simp
  have takes₂ : ¬ Takes isTarget ((f₁, .write (dir ++ [base ++ ".tmp." ++ digits]) content,
      choice₂) : FileStep Answer) := not_takes_of_ne fun _ => by simp
  cases written with
  | error _ =>
      rcases Program.run_call.mp ran with ⟨choice₃, rest, removed, f₃, rfl, responded₃, ran⟩
      rcases Program.steps_cons responded₃ traced₂ with ⟨later, rfl, traced₃⟩
      rcases Program.run_done.mp ran with ⟨rfl, rfl, rfl⟩
      obtain rfl : later = [] := traced₃.symm
      change f₂.tree = f₁.tree at outcome₂
      refine ⟨?_, ?_⟩
      · refine @cleanup_replacement _ _ _ _ _ _ _ _ _ _ [_, _] _ _ beside other new ?_ ?_ ?_ ?_
          responded₃
        · rw [outcome₂, FileTree.find_put put₁, if_pos rfl]
          exact ⟨_, rfl⟩
        · intro q different
          rw [outcome₂, FileTree.find_put put₁, if_neg different]
        · simp [quiet₁, quiet₂]
        · simp [cleans₁, cleans₂]
      · simp [takes₁, takes₂, not_takes_of_other other]
  | ok _ =>
  have put₂ : f₁.tree.writeFile dir (base ++ ".tmp." ++ digits) content = some f₂.tree := by
    simpa [FileCall.Outcome] using outcome₂
  rcases Program.run_call.mp ran with ⟨choice₃, rest, renamed, f₃, rfl, responded₃, ran⟩
  rcases Program.steps_cons responded₃ traced₂ with ⟨later, rfl, traced₃⟩
  rcases Program.run_call.mp ran with ⟨choice₄, rest, removed, f₄, rfl, responded₄, ran⟩
  rcases Program.steps_cons responded₄ traced₃ with ⟨later, rfl, traced₄⟩
  rcases Program.run_done.mp ran with ⟨rfl, rfl, rfl⟩
  obtain rfl : later = [] := traced₄.symm
  have outcome₃ := Files.respond_outcome responded₃
  have cleans₃ : CleansUp isTarget ((f₂, .rename (dir ++ [base ++ ".tmp." ++ digits])
      (dir ++ [base]), choice₃) : FileStep Answer) := cleansUp_of_ne fun _ => by simp
  have takes₃ : ¬ Takes isTarget ((f₂, .rename (dir ++ [base ++ ".tmp." ++ digits])
      (dir ++ [base]), choice₃) : FileStep Answer) := not_takes_of_ne fun _ => by simp
  have find₂ : ∀ q, f₂.tree.find q =
      if q = dir ++ [base ++ ".tmp." ++ digits] then some (.file content) else f.tree.find q := by
    intro q
    rw [FileTree.find_put put₂, FileTree.find_put put₁]
    split <;> rfl
  refine ⟨?_, by simp [takes₁, takes₂, takes₃, not_takes_of_other other]⟩
  cases renamed with
  | error why =>
      change f₃.tree = f₂.tree at outcome₃
      refine @cleanup_replacement _ _ _ _ _ _ _ _ _ _ [_, _, _] _ _ beside other new ?_ ?_ ?_ ?_
        responded₄
      · rw [outcome₃, find₂, if_pos rfl]
        exact ⟨_, rfl⟩
      · intro q different
        rw [outcome₃, find₂, if_neg different]
      · simp [quiet₁, quiet₂, not_places_of_error responded₃]
      · simp [cleans₁, cleans₂, cleans₃]
  | ok _ =>
      have isFile : f₂.tree.find (dir ++ [base ++ ".tmp." ++ digits]) = some (.file content) := by
        rw [find₂, if_pos rfl]
      have apart : dir ++ [base ++ ".tmp." ++ digits] ≠ dir ++ [base] := by
        simpa using temporaryName_ne digits
      have find₃ : ∀ q, f₃.tree.find q =
          if q = dir ++ [base] then some (.file content) else f.tree.find q := by
        intro q
        rw [FileTree.find_rename_file outcome₃ isFile, find₂]
        split
        · rfl
        · split
          · rename_i same
            rw [same, new]
          · rfl
      have gone : f₃.tree.find (dir ++ [base ++ ".tmp." ++ digits]) = none := by
        rw [find₃, if_neg apart, new]
      have find₄ : ∀ q, f₄.tree.find q = f₃.tree.find q := by
        intro q
        rcases respond_remove (by simp) (by simp [gone]) responded₄ with ⟨_, same⟩ | ⟨_, after⟩
        · rw [same]
        · rw [after]
          split
          · rename_i same
            rw [same, gone]
          · rfl
      refine .saved (fun q => by rw [find₄, find₃]) ?_ ?_
      · exact ⟨_, List.mem_cons_of_mem _ (List.mem_cons_of_mem _ List.mem_cons_self), _, _, aim,
          .inl ⟨rfl, _, responded₃⟩⟩
      · have removed : CleansUp isTarget ((f₃, .remove (dir ++ [base ++ ".tmp." ++ digits]),
            choice₄) : FileStep Answer) := by
          intro path same _ found
          cases same
          exact absurd gone found
        simp [cleans₁, cleans₂, cleans₃, removed]

/-- What a replacement leaves at a path that is no temporary file. -/
theorem Replacement.find_of_target {target q : Path}
    (ended : Replacement isTarget target content f f' trace saved) (isOne : isTarget q) :
    f'.tree.find q =
      if saved = true ∧ q = target then some (.file content) else f.tree.find q := by
  cases ended with
  | saved find _ _ => simp [find]
  | kept find _ _ => simp [find]
  | left tmp _ other _ _ find _ _ =>
      have apart : q ≠ tmp := fun same => other (same ▸ isOne)
      simp [find q apart]

theorem replaceFile_find
    (ran : (replaceFile dir base (dir ++ [base]) content : Effect Answer Bool).run Files.respond f
      choices = some (saved, f'))
    {q : Path} (noTemporary : ∀ digits : String, q ≠ dir ++ [base ++ ".tmp." ++ digits]) :
    f'.tree.find q =
      if saved = true ∧ q = dir ++ [base] then some (.file content) else f.tree.find q := by
  have apart : ∀ digits : String, ¬ ∀ others : String,
      dir ++ [base ++ ".tmp." ++ digits] ≠ dir ++ [base ++ ".tmp." ++ others] :=
    fun digits all => all digits rfl
  have aim : ∀ digits : String, dir ++ [base] ≠ dir ++ [base ++ ".tmp." ++ digits] := by
    intro digits same
    exact temporaryName_ne digits (by simpa using same.symm)
  exact (@replaceFile_replacement _ _ _ (fun q => ∀ digits : String,
    q ≠ dir ++ [base ++ ".tmp." ++ digits]) _ _ _ _ _ _ _ _ apart aim ran rfl).1.find_of_target
      noTemporary

end Replaces

end Kiyomi.Library
