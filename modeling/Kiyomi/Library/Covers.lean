import Kiyomi.Library.MergeEffects
import Kiyomi.Library.Replacements

namespace Kiyomi.Library

open Go

/-! # Covers

A manga may have several cover files, one for each extension, and the reader takes the first
one in the order of the extensions. -/

variable {Question : Type} {Answer : Question → Type} [DecidableEq Question]

namespace Layout

variable (l : Layout)

/-- `CoverPath`, when no lookup is refused. -/
def coverPath (disk : Disk) (mangaID : String) : Option Path :=
  match l.mangaDir mangaID with
  | .error _ => none
  | .ok mangaDir => (findCoverFile disk mangaDir).map fun name => mangaDir ++ [name]

end Layout

/-- `CoverPath`. -/
def Effects.coverPath (l : Layout) (mangaID : String) : Effect Answer (Option Path) :=
  match l.mangaDir mangaID with
  | .error _ => pure none
  | .ok mangaDir => do
      pure ((← findCoverFile mangaDir Layout.coverExts).map fun name => mangaDir ++ [name])

def Effects.removeCoverFiles (l : Layout) (mangaID : String) : Effect Answer Bool :=
  match l.mangaDir mangaID with
  | .error _ => pure false
  | .ok dir => removeCovers dir Layout.coverExts

/-- The file that a call brings into place. -/
def placed : FileStep Answer → Option Path
  | (f, .rename src dst, choice) =>
      (f.respond (.rename src dst) choice).bind fun reply =>
        if succeeds reply.1 then some dst else none
  | (f, .link src dst, choice) =>
      (f.respond (.link src dst) choice).bind fun reply =>
        if succeeds reply.1 then some dst else none
  | _ => none

/-! ## The reader -/

theorem find?_eq_some_iff_takeWhile {α : Type} [DecidableEq α] {p : α → Bool} {xs : List α} {a : α} :
    xs.find? p = some a ↔ a ∈ xs ∧ p a = true ∧ ∀ b ∈ xs.takeWhile (· ≠ a), p b = false := by
  induction xs with
  | nil => simp
  | cons x xs induction =>
      by_cases same : x = a
      · subst same
        cases holds : p x with
        | true => simp [holds]
        | false =>
            have other : xs.find? p ≠ some x := fun found => by
              simp [List.find?_some found] at holds
            simp [holds, other]
      · have apart : a ≠ x := fun equal => same equal.symm
        cases holds : p x with
        | true => simp [holds, same]
        | false => simp [holds, same, apart, induction]

/-- The reader finds a cover exactly if there is none with an extension that it tries earlier. -/
theorem coverPath_eq_some_iff {l : Layout} {disk : Disk} {mangaID : String} {path : Path} :
    l.coverPath disk mangaID = some path ↔
      ∃ dir ext, l.mangaDir mangaID = .ok dir ∧ path = dir ++ ["cover" ++ ext] ∧
        ext ∈ Layout.coverExts ∧ disk.find path ≠ none ∧
        ∀ earlier ∈ Layout.coverExts.takeWhile (· ≠ ext),
          disk.find (dir ++ ["cover" ++ earlier]) = none := by
  unfold Layout.coverPath
  cases l.mangaDir mangaID with
  | error refused => simp
  | ok dir =>
      simp only [Layout.findCoverFile, List.find?_map, Option.map_map, Option.map_eq_some_iff,
        find?_eq_some_iff_takeWhile, Function.comp_apply, Except.ok.injEq]
      constructor
      · rintro ⟨ext, ⟨member, found, first⟩, rfl⟩
        refine ⟨dir, ext, rfl, rfl, member, ?_, fun earlier before => ?_⟩
        · exact Option.isSome_iff_ne_none.mp found
        · exact Option.isNone_iff_eq_none.mp (by simpa using first earlier before)
      · rintro ⟨_, ext, rfl, rfl, member, found, first⟩
        refine ⟨ext, ⟨member, Option.isSome_iff_ne_none.mpr found, fun earlier before => ?_⟩, rfl⟩
        simpa using first earlier before

theorem coverPath_eq_none {l : Layout} {disk : Disk} {mangaID : String} {dir : Path}
    (located : l.mangaDir mangaID = .ok dir)
    (absent : ∀ ext ∈ Layout.coverExts, disk.find (dir ++ ["cover" ++ ext]) = none) :
    l.coverPath disk mangaID = none := by
  cases found : l.coverPath disk mangaID with
  | none => rfl
  | some path =>
      rcases coverPath_eq_some_iff.mp found with ⟨_, ext, same, rfl, member, isThere, _⟩
      rw [located] at same
      cases same
      exact absurd (absent ext member) isThere

/-! ## Removal -/

section Removal

variable {f f' : Files Document} {choices : List (FileChoice Answer)}

/-- What is not there is not there after a removal, whatever was removed. -/
theorem find_none_of_remove {path q : Path} (proper : path ≠ []) {choice : FileChoice Answer}
    {reply : FileCall.Reply Answer (.remove path : FileCall Document Question)}
    (responded : f.respond (.remove path : FileCall Document Question) choice = some (reply, f'))
    (absent : f.tree.find q = none) : f'.tree.find q = none := by
  rcases respond_remove_reply proper responded with ⟨_, same⟩ | ⟨_, _, after⟩
  · rw [same, absent]
  · rw [after]
    split
    · rfl
    · exact absent

/-- A removal that finds nothing to remove. -/
theorem find_none_of_notExist {path : Path} {choice : FileChoice Answer}
    (responded : f.respond (.remove path : FileCall Document Question) choice =
      some (.error .notExist, f')) : f'.tree.find path = none := by
  cases choice with
  | answer question answer => contradiction
  | refuse made => cases responded
  | grant suffix =>
      simp only [Files.respond, Files.granted] at responded
      split at responded
      · rename_i absent
        rw [← (Prod.mk.inj (Option.some.inj responded)).2]
        exact absent
      · cases responded
      · cases responded

/-- Once the covers are removed, none is left, and nothing has come into place. -/
theorem removeCovers_run {dir : Path} {exts : List String} {trace : List (FileStep Answer)}
    (ran : (Effects.removeCovers dir exts : Effect Answer Bool).run Files.respond f choices =
      some (true, f'))
    (traced : (Effects.removeCovers dir exts : Effect Answer Bool).steps Files.respond f choices =
      trace) :
    (∀ ext ∈ exts, f'.tree.find (dir ++ ["cover" ++ ext]) = none) ∧
      (∀ q, f.tree.find q = none → f'.tree.find q = none) ∧ trace.filterMap placed = [] := by
  induction exts generalizing f choices trace with
  | nil =>
      rcases Program.run_done.mp ran with ⟨_, _, rfl⟩
      cases traced
      exact ⟨by simp, fun _ absent => absent, rfl⟩
  | cons ext exts induction =>
      unfold Effects.removeCovers at ran traced
      rcases Program.run_call.mp ran with ⟨choice, rest, reply, f₁, rfl, responded, ran⟩
      rcases Program.steps_cons responded traced with ⟨later, rfl, traced⟩
      have goes : ∀ q, f.tree.find q = none → f₁.tree.find q = none :=
        fun q => find_none_of_remove (by simp) responded
      -- both replies with which the loop goes on mean that the cover is gone
      have continues : f₁.tree.find (dir ++ ["cover" ++ ext]) = none →
          (Effects.removeCovers dir exts : Effect Answer Bool).run Files.respond f₁ rest =
            some (true, f') →
          (Effects.removeCovers dir exts : Effect Answer Bool).steps Files.respond f₁ rest = later →
          (∀ other ∈ ext :: exts, f'.tree.find (dir ++ ["cover" ++ other]) = none) ∧
            (∀ q, f.tree.find q = none → f'.tree.find q = none) ∧
            ((f, .remove (dir ++ ["cover" ++ ext]), choice) :: later).filterMap placed = [] := by
        intro gone ran traced
        rcases induction ran traced with ⟨others, keeps, quiet⟩
        exact ⟨List.forall_mem_cons.mpr ⟨keeps _ gone, others⟩,
          fun q absent => keeps q (goes q absent), quiet⟩
      cases reply with
      | ok _ =>
          refine continues ?_ ran traced
          rcases respond_remove_reply (by simp) responded with ⟨⟨why, failed⟩, _⟩ | ⟨_, _, after⟩
          · cases failed
          · rw [after, if_pos rfl]
      | error why =>
          cases why with
          | notExist => exact continues (find_none_of_notExist responded) ran traced
          | exist => cases (Program.run_done.mp ran).2.1
          | other => cases (Program.run_done.mp ran).2.1

theorem removeCoverFiles_run {l : Layout} {mangaID : String}
    (ran : (Effects.removeCoverFiles l mangaID : Effect Answer Bool).run Files.respond f choices =
      some (true, f')) : l.coverPath f'.tree mangaID = none := by
  unfold Effects.removeCoverFiles at ran
  cases located : l.mangaDir mangaID with
  | error refused =>
      simp only [located] at ran
      cases (Program.run_done.mp ran).2.1
  | ok dir =>
      simp only [located] at ran
      exact coverPath_eq_none located (removeCovers_run ran rfl).1

/-! ## Replacement -/

/-- The search for a cover leaves everything as it is. -/
theorem findCoverFile_run {dir : Path} {exts : List String} {trace : List (FileStep Answer)}
    {found : Option String}
    (ran : (Effects.findCoverFile dir exts : Effect Answer (Option String)).run Files.respond f
      choices = some (found, f'))
    (traced : (Effects.findCoverFile dir exts : Effect Answer (Option String)).steps Files.respond f
      choices = trace) :
    f'.tree = f.tree ∧ trace.filterMap placed = [] ∧
      ∀ name ∈ found, ∃ ext ∈ exts, name = "cover" ++ ext := by
  induction exts generalizing f choices trace with
  | nil =>
      rcases Program.run_done.mp ran with ⟨_, rfl, rfl⟩
      cases traced
      exact ⟨rfl, rfl, by simp⟩
  | cons ext exts induction =>
      unfold Effects.findCoverFile at ran traced
      rcases Program.run_call.mp ran with ⟨choice, rest, reply, f₁, rfl, responded, ran⟩
      rcases Program.steps_cons responded traced with ⟨later, rfl, traced⟩
      have same : f₁.tree = f.tree := by
        rcases Files.respond_cases responded with rfl | ⟨_, _, _, effect⟩
        · rfl
        · exact effect.elim
      cases reply with
      | ok _ =>
          rcases Program.run_done.mp ran with ⟨_, rfl, rfl⟩
          cases traced
          exact ⟨same, rfl, by simp⟩
      | error why =>
          rcases induction ran traced with ⟨unchanged, quiet, named⟩
          refine ⟨unchanged.trans same, quiet, fun name isFound => ?_⟩
          rcases named name isFound with ⟨other, member, rfl⟩
          exact ⟨other, List.mem_cons_of_mem _ member, rfl⟩

/-- What `ReplaceCoverFromSource` leaves: everything, or the cover of the source alone. -/
theorem replaceCoverFromSource_run {l : Layout} {keepID sourceID : String}
    {trace : List (FileStep Answer)}
    (ran : (Effects.replaceCoverFromSource l keepID sourceID : Effect Answer Bool).run Files.respond
      f choices = some (true, f'))
    (traced : (Effects.replaceCoverFromSource l keepID sourceID : Effect Answer Bool).steps
      Files.respond f choices = trace) :
    f'.tree = f.tree ∧ trace.filterMap placed = [] ∨
      ∃ path, trace.filterMap placed = [path] ∧ l.coverPath f'.tree keepID = some path := by
  unfold Effects.replaceCoverFromSource at ran traced
  cases keepLocated : l.mangaDir keepID with
  | error refused =>
      simp only [keepLocated] at ran
      cases (Program.run_done.mp ran).2.1
  | ok keepDir =>
  cases sourceLocated : l.mangaDir sourceID with
  | error refused =>
      simp only [keepLocated, sourceLocated] at ran
      cases (Program.run_done.mp ran).2.1
  | ok sourceDir =>
  simp only [keepLocated, sourceLocated] at ran traced
  rcases Program.run_bind.mp ran with ⟨early, late, found, f₁, rfl, searched, ran⟩
  replace traced := (Program.steps_bind searched).symm.trans traced
  rcases findCoverFile_run searched rfl with ⟨same, quiet, named⟩
  cases found with
  | none =>
      rcases Program.run_done.mp ran with ⟨rfl, _, rfl⟩
      rw [← traced, List.filterMap_append, quiet]
      exact .inl ⟨same, rfl⟩
  | some cover =>
  rcases named cover rfl with ⟨ext, member, rfl⟩
  rcases Program.run_bind.mp ran with ⟨early', late', cleared, f₂, rfl, removed, ran⟩
  replace traced := (congrArg _ (Program.steps_bind removed)).symm.trans traced
  cases cleared with
  | false => cases (Program.run_done.mp ran).2.1
  | true =>
  rcases removeCovers_run removed rfl with ⟨gone, _, quiet'⟩
  rcases Program.run_call.mp ran with ⟨choice, rest, renamed, f₃, rfl, responded, ran⟩
  rcases Program.run_done.mp ran with ⟨rfl, isRenamed, rfl⟩
  have outcome := Files.respond_outcome responded
  cases renamed with
  | error why => cases isRenamed
  | ok _ =>
  have moved : f₂.tree.rename (sourceDir ++ ["cover" ++ ext]) (keepDir ++ ["cover" ++ ext]) =
      some f₃.tree := outcome
  refine .inr ⟨keepDir ++ ["cover" ++ ext], ?_, ?_⟩
  · rw [← traced, List.filterMap_append, List.filterMap_append, quiet, quiet']
    have last : (request (.rename (sourceDir ++ ["cover" ++ ext]) (keepDir ++ ["cover" ++ ext])) >>=
        fun reply => pure (succeeds reply) : Effect Answer Bool).steps Files.respond f₂ [choice] =
          [(f₂, .rename (sourceDir ++ ["cover" ++ ext]) (keepDir ++ ["cover" ++ ext]), choice)] :=
      Program.steps_call responded
    refine (congrArg (List.filterMap placed) last).trans ?_
    simp [placed, responded, succeeds]
  · refine coverPath_eq_some_iff.mpr ⟨keepDir, ext, keepLocated, rfl, member, ?_, ?_⟩
    · rw [FileTree.find_rename moved, if_pos List.prefix_rfl, List.drop_length, List.append_nil]
      exact FileTree.rename_source moved
    · intro earlier before
      have apart : ¬ keepDir ++ ["cover" ++ ext] <+: keepDir ++ ["cover" ++ earlier] := by
        intro above
        have equal := above.eq_of_length (by simp)
        have different := List.mem_takeWhile_imp before
        simp at equal different
        exact different equal.symm
      rw [FileTree.find_rename moved, if_neg apart,
        gone earlier ((List.takeWhile_prefix _).subset before)]
      split
      · rfl
      · rfl

end Removal

end Kiyomi.Library
