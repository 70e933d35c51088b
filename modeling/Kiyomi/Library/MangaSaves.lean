import Kiyomi.Library.MergeEffects
import Kiyomi.Library.Replacements

namespace Kiyomi.Library

open Go

/-! # Saving a manga

`SaveManga` writes the three files of a manga one after the other, each by way of a temporary
file. -/

namespace Effects

variable {Question : Type} {Answer : Question → Type} (l : Layout)

/-- What the functions that write one file of a manga under the lock have in common. -/
def saveLocked (id name : String) (content : Document) : Effect Answer Bool :=
  match l.mangaDir id with
  | .error _ => pure false
  | .ok dir => do
      if succeeds (← request (.mkdirAll dir)) then saveJSONAtomic dir name content else pure false

def saveMetadataLocked (id : String) (m : MangaMetadata) : Effect Answer Bool :=
  saveLocked l id "metadata.json" (.metadata (m.saved l.toLower))

def saveUserStateLocked (id : String) (u : UserState) (now : Time) : Effect Answer Bool :=
  saveLocked l id "user_state.json" (.userState (u.saved now))

def saveBindingsLocked (id : String) (b : MangaBindings) : Effect Answer Bool :=
  saveLocked l id "bindings.json" (.bindings (SavedBindings.save b).bindings)

def saveManga (id : String) (info : Manga) (now : Time) : Effect Answer Bool := do
  if ← saveMetadataLocked l id info.metadata then
    if ← saveUserStateLocked l id info.userState now then
      if ← saveBindingsLocked l id info.bindings then pure true
      else pure false
    else pure false
  else pure false

/-- Write files of a manga until one cannot be written. -/
def saveFiles (id : String) : List (String × Document) → Effect Answer Bool
  | [] => pure true
  | (name, content) :: files => do
      if ← saveLocked l id name content then saveFiles id files else pure false

end Effects

/-- The files of a manga, as `SaveManga` writes them. -/
def Layout.mangaFiles (l : Layout) (info : Manga) (now : Time) : List (String × Document) :=
  [("metadata.json", .metadata (info.metadata.saved l.toLower)),
    ("user_state.json", .userState (info.userState.saved now)),
    ("bindings.json", .bindings (SavedBindings.save info.bindings).bindings)]

variable {Question : Type} {Answer : Question → Type} [DecidableEq Question] {l : Layout}

omit [DecidableEq Question] in
theorem Effects.saveManga_eq (id : String) (info : Manga) (now : Time) :
    (saveManga l id info now : Effect Answer Bool) = saveFiles l id (l.mangaFiles info now) :=
  rfl

/-- The call reports an error. -/
def failed : (c : FileCall Document Question) → c.Reply Answer → Bool
  | .stat _, .error _ | .readFile _, .error _ | .readDir _, .error _ | .mkdirAll _, .error _
  | .createTemp .., .error _ | .create .., .error _ | .write .., .error _ | .link .., .error _
  | .rename .., .error _ | .remove _, .error _ | .removeAll _, .error _ => true
  | _, _ => false

/-- The call of the step is made and reports an error. -/
def Fails (step : FileStep Answer) : Prop :=
  ∃ reply, Gets step.1 step.2.2 step.2.1 reply ∧ failed step.2.1 reply = true

instance (step : FileStep Answer) : Decidable (Fails step) :=
  decidable_of_iff ((step.1.respond step.2.1 step.2.2).any fun reply => failed step.2.1 reply.1) <| by
    rw [Option.any_eq_true]
    exact ⟨fun ⟨reply, gets, fails⟩ => ⟨reply.1, ⟨reply.2, gets⟩, fails⟩,
      fun ⟨reply, ⟨after, gets⟩, fails⟩ => ⟨(reply, after), gets, fails⟩⟩

/-- The step brings a file with the content to the path. -/
def Brings (step : FileStep Answer) (path : Path) (content : Document) :
    Prop :=
  ∃ src, step.2.1 = .rename src path ∧ Gets step.1 step.2.2 (.rename src path) (.ok ()) ∧
    step.1.tree.find src = some (.file content)

/-- No call fails once a rename has changed what a file holds. -/
def FailsEarly (before : Disk) (steps : List (FileStep Answer)) : Prop :=
  ∀ placed late, [placed, late].Sublist steps → Fails late →
    ∀ path content, Brings placed path content → before.find path = some (.file content)

/-- A save that reports an error leaves the files of the manga, and one that reports none leaves
the new ones. -/
structure AtomicSave (dir : Path) (files : List (String × Document)) (before after : Disk)
    (saved : Bool) : Prop where
  failed : saved = false →
    ∀ file ∈ files, after.find (dir ++ [file.1]) = before.find (dir ++ [file.1])
  completed : saved = true →
    ∀ file ∈ files, after.find (dir ++ [file.1]) = some (.file file.2)

/-! ## One file -/

section OneFile

variable {f f' : Files Document} {c : FileCall Document Question} {choice : FileChoice Answer}
  {dir : Path} {name : String} {content : Document} {choices : List (FileChoice Answer)}
  {trace : List (FileStep Answer)} {saved : Bool}

theorem fails_iff {reply : c.Reply Answer} (responded : f.respond c choice = some (reply, f')) :
    Fails (f, c, choice) ↔ failed c reply = true := by
  constructor
  · rintro ⟨other, ⟨f'', gets⟩, fails⟩
    rw [responded] at gets
    cases gets
    exact fails
  · exact fun fails => ⟨reply, ⟨f', responded⟩, fails⟩

theorem not_brings_of_ne (noRename : ∀ src dst, c ≠ .rename src dst) (path : Path)
    (held : Document) : ¬ Brings (f, c, choice) path held :=
  fun ⟨src, same, _⟩ => noRename src path same

theorem not_brings_of_error {src dst : Path} {why : FileError}
    (responded : f.respond (.rename src dst : FileCall Document Question) choice =
      some (.error why, f')) (path : Path) (held : Document) :
    ¬ Brings (f, (.rename src dst : FileCall Document Question), choice) path held := by
  rintro ⟨other, same, ⟨after, gets⟩, _⟩
  cases same
  rw [responded] at gets
  cases gets

/-- What is known when the writing of one file has ended. -/
structure FileSaved (dir : Path) (name : String) (content : Document) (f f' : Files Document)
    (trace : List (FileStep Answer)) (saved : Bool) : Prop where
  find : ∀ other, (∀ digits : String, other ≠ name ++ ".tmp." ++ digits) →
    f'.tree.find (dir ++ [other]) =
      if saved = true ∧ other = name then some (.file content) else f.tree.find (dir ++ [other])
  fails : (∃ step ∈ trace, Fails step) ↔ saved = false
  brings : ∀ path held, (∃ step ∈ trace, Brings step path held) ↔
    saved = true ∧ path = dir ++ [name] ∧ held = content

/-- The temporary file is removed after a failure. -/
theorem remove_saves {f₁ : Files Document} {digits : String} {before : List (FileStep Answer)}
    (find : ∀ q, q ≠ dir ++ [name ++ ".tmp." ++ digits] → f₁.tree.find q = f.tree.find q)
    (fails : ∃ step ∈ before, Fails step)
    (brings : ∀ step ∈ before, ∀ path held, ¬ Brings step path held)
    (ran : (request (.remove (dir ++ [name ++ ".tmp." ++ digits])) >>= fun _ => pure false :
      Effect Answer Bool).run Files.respond f₁ choices = some (saved, f'))
    (traced : (request (.remove (dir ++ [name ++ ".tmp." ++ digits])) >>= fun _ => pure false :
      Effect Answer Bool).steps Files.respond f₁ choices = trace) :
    FileSaved dir name content f f' (before ++ trace) saved := by
  rcases Program.run_call.mp ran with ⟨choice, _, removed, f₂, rfl, responded, ran₁⟩
  rcases Program.steps_cons responded traced with ⟨later, rfl, traced₁⟩
  rcases Program.run_done.mp ran₁ with ⟨rfl, rfl, rfl⟩
  obtain rfl : later = [] := traced₁.symm
  have quiet := @not_brings_of_ne _ _ _ f₁ _ choice
    (fun src dst => by simp : ∀ src dst, (.remove (dir ++ [name ++ ".tmp." ++ digits]) :
      FileCall Document Question) ≠ .rename src dst)
  refine ⟨fun other regular => ?_, ?_, fun path held => ?_⟩
  · have apart : dir ++ [other] ≠ dir ++ [name ++ ".tmp." ++ digits] := by
      simpa using regular digits
    rw [Files.find_of_unchanged responded apart, find _ apart]
    simp
  · rcases fails with ⟨step, member, fails⟩
    exact iff_of_true ⟨step, List.mem_append_left _ member, fails⟩ rfl
  · refine iff_of_false ?_ fun ⟨impossible, _⟩ => nomatch impossible
    rintro ⟨step, member, moved⟩
    rcases List.mem_append.mp member with member | member
    · exact brings step member path held moved
    · rw [List.mem_singleton.mp member] at moved
      exact quiet path held moved

theorem saveJSONAtomic_saves
    (ran : (saveJSONAtomic dir name content : Effect Answer Bool).run Files.respond f choices =
      some (saved, f'))
    (traced : (saveJSONAtomic dir name content : Effect Answer Bool).steps Files.respond f choices =
      trace) : FileSaved dir name content f f' trace saved := by
  unfold saveJSONAtomic at ran traced
  rcases Program.run_call.mp ran with ⟨choice₁, _, created, f₁, rfl, responded₁, ran₁⟩
  rcases Program.steps_cons responded₁ traced with ⟨later₁, rfl, traced₁⟩
  have outcome₁ := Files.respond_outcome responded₁
  have fails₁ := fails_iff responded₁
  have brings₁ := @not_brings_of_ne _ _ _ f _ choice₁
    (fun src dst => by simp : ∀ src dst, (.createTemp dir (name ++ ".tmp.") (.data []) :
      FileCall Document Question) ≠ .rename src dst)
  cases created with
  | error why =>
      rcases Program.run_done.mp ran₁ with ⟨rfl, rfl, rfl⟩
      obtain rfl : later₁ = [] := traced₁.symm
      change f₁.tree = f.tree at outcome₁
      refine ⟨fun other _ => by simp [outcome₁], ?_, fun path held => ?_⟩
      · simp [fails₁, failed]
      · simp [brings₁ path held]
  | ok tmp =>
      rcases outcome₁ with ⟨digits, rfl, new, put₁⟩
      rcases Program.run_call.mp ran₁ with ⟨choice₂, _, written, f₂, rfl, responded₂, ran₂⟩
      rcases Program.steps_cons responded₂ traced₁ with ⟨later₂, rfl, traced₂⟩
      have outcome₂ := Files.respond_outcome responded₂
      have fails₂ := fails_iff responded₂
      have brings₂ := @not_brings_of_ne _ _ _ f₁ _ choice₂
        (fun src dst => by simp : ∀ src dst, (.write (dir ++ [name ++ ".tmp." ++ digits]) content :
          FileCall Document Question) ≠ .rename src dst)
      have find₁ : ∀ q, q ≠ dir ++ [name ++ ".tmp." ++ digits] →
          f₁.tree.find q = f.tree.find q :=
        fun q other => by rw [FileTree.find_put put₁, if_neg other]
      cases written with
      | error why =>
          change f₂.tree = f₁.tree at outcome₂
          refine @remove_saves _ _ _ _ _ _ _ _ _ _ _ f₂ digits [_, _] ?_ ?_ ?_ ran₂ traced₂
          · intro q other
            rw [outcome₂, find₁ q other]
          · exact ⟨_, List.mem_cons_of_mem _ List.mem_cons_self, fails₂.mpr rfl⟩
          · simp [brings₁, brings₂]
      | ok _ =>
          have put₂ : f₁.tree.writeFile dir (name ++ ".tmp." ++ digits) content = some f₂.tree := by
            simpa [FileCall.Outcome] using outcome₂
          have find₂ : ∀ q, f₂.tree.find q = if q = dir ++ [name ++ ".tmp." ++ digits] then
              some (.file content) else f.tree.find q := by
            intro q
            rw [FileTree.find_put put₂]
            split
            · rfl
            · rename_i other
              exact find₁ q other
          rcases Program.run_call.mp ran₂ with ⟨choice₃, _, renamed, f₃, rfl, responded₃, ran₃⟩
          rcases Program.steps_cons responded₃ traced₂ with ⟨later₃, rfl, traced₃⟩
          have outcome₃ := Files.respond_outcome responded₃
          have fails₃ := fails_iff responded₃
          cases renamed with
          | error why =>
              change f₃.tree = f₂.tree at outcome₃
              have brings₃ := not_brings_of_error responded₃
              refine @remove_saves _ _ _ _ _ _ _ _ _ _ _ f₃ digits [_, _, _] ?_ ?_ ?_ ran₃ traced₃
              · intro q other
                rw [outcome₃, find₂, if_neg other]
              · exact ⟨_, List.mem_cons_of_mem _ (List.mem_cons_of_mem _ List.mem_cons_self),
                  fails₃.mpr rfl⟩
              · simp [brings₁, brings₂, brings₃]
          | ok _ =>
              rcases Program.run_done.mp ran₃ with ⟨rfl, rfl, rfl⟩
              obtain rfl : later₃ = [] := traced₃.symm
              have isFile : f₂.tree.find (dir ++ [name ++ ".tmp." ++ digits]) =
                  some (.file content) := by
                rw [find₂, if_pos rfl]
              refine ⟨fun other regular => ?_, ?_, fun path held => ?_⟩
              · have apart : dir ++ [other] ≠ dir ++ [name ++ ".tmp." ++ digits] := by
                  simpa using regular digits
                rw [FileTree.find_rename_file outcome₃ isFile, if_neg apart, find₂, if_neg apart]
                simp
              · simp [fails₁, fails₂, fails₃, failed]
              · have brought : Brings (f₂, .rename (dir ++ [name ++ ".tmp." ++ digits])
                    (dir ++ [name]), choice₃) path held ↔ path = dir ++ [name] ∧ held = content := by
                  constructor
                  · rintro ⟨src, same, _, found⟩
                    cases same
                    rw [isFile] at found
                    cases found
                    exact ⟨rfl, rfl⟩
                  · rintro ⟨rfl, rfl⟩
                    exact ⟨_, rfl, ⟨_, responded₃⟩, isFile⟩
                simp [brings₁, brings₂, brought]

theorem saveLocked_saves {id : String} (located : l.mangaDir id = .ok dir)
    (ran : (Effects.saveLocked l id name content : Effect Answer Bool).run Files.respond f choices =
      some (saved, f'))
    (traced : (Effects.saveLocked l id name content : Effect Answer Bool).steps Files.respond f
      choices = trace) : FileSaved dir name content f f' trace saved := by
  simp only [Effects.saveLocked, located] at ran traced
  rcases Program.run_call.mp ran with ⟨choice, _, made, f₁, rfl, responded, ran₁⟩
  rcases Program.steps_cons responded traced with ⟨later, rfl, traced₁⟩
  have fails := fails_iff responded
  have quiet := @not_brings_of_ne _ _ _ f _ choice
    (fun src dst => by simp : ∀ src dst, (.mkdirAll dir : FileCall Document Question) ≠
      .rename src dst)
  have find : ∀ other, f₁.tree.find (dir ++ [other]) = f.tree.find (dir ++ [other]) := by
    refine fun other => Files.find_of_unchanged responded fun upper => ?_
    have short := upper.length_le
    simp at short
  cases made with
  | error why =>
      rcases Program.run_done.mp ran₁ with ⟨rfl, rfl, rfl⟩
      obtain rfl : later = [] := traced₁.symm
      refine ⟨fun other _ => by simp [find], ?_, fun path held => ?_⟩
      · simp [fails, failed]
      · simp [quiet path held]
  | ok _ =>
      have written := saveJSONAtomic_saves ran₁ traced₁
      refine ⟨fun other regular => by rw [written.find other regular, find], ?_, fun path held => ?_⟩
      · simpa [fails, failed] using written.fails
      · simpa [quiet] using written.brings path held

end OneFile

/-! ## All files -/

section AllFiles

variable {f f' : Files Document} {dir : Path} {id : String} {choices : List (FileChoice Answer)}
  {trace : List (FileStep Answer)} {saved : Bool} {files : List (String × Document)}

/-- No name is that of a temporary file of another one. -/
def Regular (files : List (String × Document)) : Prop :=
  ∀ file ∈ files, ∀ other ∈ files, ∀ digits : String, other.1 ≠ file.1 ++ ".tmp." ++ digits

/-- What is known when the writing of several files has ended: some of them are written, and if
these are not all, a call has failed after the last of them. -/
structure FilesSaved (dir : Path) (done rest : List (String × Document)) (f f' : Files Document)
    (trace : List (FileStep Answer)) (saved : Bool) : Prop where
  new : ∀ file ∈ done, f'.tree.find (dir ++ [file.1]) = some (.file file.2)
  old : ∀ file ∈ rest, f'.tree.find (dir ++ [file.1]) = f.tree.find (dir ++ [file.1])
  brings : ∀ path held, (∃ step ∈ trace, Brings step path held) ↔
    ∃ file ∈ done, path = dir ++ [file.1] ∧ held = file.2
  complete : rest = [] → saved = true ∧ ∀ step ∈ trace, ¬ Fails step
  broken : rest ≠ [] → saved = false ∧ ∃ before last, trace = before ++ last ∧
    (∀ step ∈ before, ¬ Fails step) ∧ (∃ step ∈ last, Fails step) ∧
    ∀ step ∈ last, ∀ path held, ¬ Brings step path held

theorem saveFiles_saves (located : l.mangaDir id = .ok dir) (regular : Regular files)
    (distinct : (files.map (·.1)).Nodup)
    (ran : (Effects.saveFiles l id files : Effect Answer Bool).run Files.respond f choices =
      some (saved, f'))
    (traced : (Effects.saveFiles l id files : Effect Answer Bool).steps Files.respond f choices =
      trace) :
    (∃ done rest, files = done ++ rest ∧ FilesSaved dir done rest f f' trace saved) ∧
      ∀ other, (∀ file ∈ files, file.1 ≠ other ∧ ∀ digits : String, other ≠ file.1 ++ ".tmp." ++ digits) →
        f'.tree.find (dir ++ [other]) = f.tree.find (dir ++ [other]) := by
  induction files generalizing f choices trace with
  | nil =>
      rcases Program.run_done.mp ran with ⟨rfl, rfl, rfl⟩
      obtain rfl : trace = [] := traced.symm
      refine ⟨⟨[], [], rfl, ?_⟩, fun _ _ => rfl⟩
      constructor <;> simp
  | cons file files induction =>
      rcases file with ⟨name, content⟩
      rcases Program.run_bind.mp ran with ⟨first, others, one, f₁, rfl, ran₁, ran₂⟩
      have split := traced.symm.trans (Program.steps_bind ran₁)
      generalize traced₁ : (Effects.saveLocked l id name content : Effect Answer Bool).steps
        Files.respond f first = before at split
      have written := saveLocked_saves located ran₁ traced₁
      have later : Regular files := fun file member other isOther =>
        regular file (List.mem_cons_of_mem _ member) other (List.mem_cons_of_mem _ isOther)
      rw [List.map_cons, List.nodup_cons] at distinct
      have apart : ∀ file ∈ files, file.1 ≠ name := fun file member same =>
        distinct.1 (List.mem_map.mpr ⟨file, member, same⟩)
      have kept : ∀ file ∈ files,
          f₁.tree.find (dir ++ [file.1]) = f.tree.find (dir ++ [file.1]) := fun file member => by
        rw [written.find file.1 (regular _ List.mem_cons_self _ (List.mem_cons_of_mem _ member)),
          if_neg fun same => apart file member same.2]
      cases one with
      | false =>
          rcases Program.run_done.mp ran₂ with ⟨rfl, rfl, rfl⟩
          obtain rfl : trace = before := split.trans (List.append_nil before)
          refine ⟨⟨[], (name, content) :: files, rfl, ?_⟩, fun other unnamed => ?_⟩
          · refine ⟨by simp, fun file member => ?_, fun path held => ?_, fun impossible => ?_,
              fun _ => ⟨rfl, [], trace, rfl, by simp, written.fails.mpr rfl, ?_⟩⟩
            · rw [written.find file.1 (regular _ List.mem_cons_self _ member)]
              simp
            · simpa using written.brings path held
            · contradiction
            · exact fun step member path held moved =>
                nomatch ((written.brings path held).mp ⟨step, member, moved⟩).1
          · rw [written.find other (unnamed _ List.mem_cons_self).2]
            simp
      | true =>
          change trace = before ++ (Effects.saveFiles l id files : Effect Answer Bool).steps
            Files.respond f₁ others at split
          generalize traced₂ : (Effects.saveFiles l id files : Effect Answer Bool).steps
            Files.respond f₁ others = after at split
          subst split
          rcases induction later distinct.2 ran₂ traced₂ with ⟨⟨done, rest, rfl, ended⟩, untouched⟩
          have sound : ∀ step ∈ before, ¬ Fails step := fun step member fails =>
            nomatch written.fails.mp ⟨step, member, fails⟩
          refine ⟨⟨(name, content) :: done, rest, rfl, ?_⟩, fun other unnamed => ?_⟩
          · refine ⟨?_, fun file member => ?_, fun path held => ?_, fun nothing => ?_,
              fun something => ?_⟩
            · rw [List.forall_mem_cons]
              refine ⟨?_, ended.new⟩
              have same := untouched name fun file member => ⟨apart file member,
                regular file (List.mem_cons_of_mem _ member) _ List.mem_cons_self⟩
              rw [same, written.find name (regular _ List.mem_cons_self _ List.mem_cons_self),
                if_pos ⟨rfl, rfl⟩]
            · rw [ended.old file member, kept file (List.mem_append_right _ member)]
            · simp only [List.mem_append, List.mem_cons, or_and_right, exists_or, exists_eq_left]
              rw [written.brings path held, ended.brings path held]
              simp
            · rcases ended.complete nothing with ⟨rfl, quiet⟩
              exact ⟨rfl, List.forall_mem_append.mpr ⟨sound, quiet⟩⟩
            · rcases ended.broken something with ⟨rfl, front, last, rfl, quiet, fails, stays⟩
              exact ⟨rfl, before ++ front, last, (List.append_assoc ..).symm,
                List.forall_mem_append.mpr ⟨sound, quiet⟩, fails, stays⟩
          · rw [untouched other fun file member => unnamed file (List.mem_cons_of_mem _ member),
              written.find other (unnamed _ List.mem_cons_self).2,
              if_neg fun same => (unnamed _ List.mem_cons_self).1 same.2.symm]

/-- A save that ends early has failed after its last rename. -/
theorem saveFiles_atomic_iff (located : l.mangaDir id = .ok dir) (regular : Regular files)
    (distinct : (files.map (·.1)).Nodup)
    (ran : (Effects.saveFiles l id files : Effect Answer Bool).run Files.respond f choices =
      some (saved, f')) :
    AtomicSave dir files f.tree f'.tree saved ↔
      FailsEarly f.tree
        ((Effects.saveFiles l id files : Effect Answer Bool).steps Files.respond f choices) := by
  rcases saveFiles_saves located regular distinct ran rfl with ⟨⟨done, rest, split, ended⟩, _⟩
  by_cases nothing : rest = []
  · rcases ended.complete nothing with ⟨rfl, quiet⟩
    rw [nothing, List.append_nil] at split
    refine iff_of_true ⟨(nomatch ·), fun _ => split ▸ ended.new⟩ ?_
    exact fun placed late sub fails => absurd fails (quiet late (sub.subset (by simp)))
  · rcases ended.broken nothing with ⟨rfl, before, last, whole, _, ⟨late, isLast, fails⟩, stays⟩
    constructor
    · intro atomic placed late sub _ path held moved
      have isStep := sub.subset List.mem_cons_self
      rcases (ended.brings path held).mp ⟨placed, isStep, moved⟩ with ⟨file, member, rfl, rfl⟩
      rw [← ended.new file member]
      exact (atomic.failed rfl file (split ▸ List.mem_append_left _ member)).symm
    · refine fun early => ⟨fun _ file member => ?_, (nomatch ·)⟩
      rw [split, List.mem_append] at member
      rcases member with member | member
      · rcases (ended.brings _ _).mpr ⟨file, member, rfl, rfl⟩ with ⟨placed, isStep, moved⟩
        rw [whole] at isStep
        have isEarlier : placed ∈ before :=
          (List.mem_append.mp isStep).resolve_right fun isLate => stays placed isLate _ _ moved
        have sub : [placed, late].Sublist (before ++ last) :=
          (List.singleton_sublist.mpr isEarlier).append (List.singleton_sublist.mpr isLast)
        rw [ended.new file member]
        exact (early placed late (whole ▸ sub) fails _ _ moved).symm
      · exact ended.old file member

omit [DecidableEq Question] in
theorem regular_mangaFiles (info : Manga) (now : Time) : Regular (l.mangaFiles info now) := by
  have apart : ∀ name ∈ ["metadata.json", "user_state.json", "bindings.json"],
      ∀ other ∈ ["metadata.json", "user_state.json", "bindings.json"],
        ¬ (name ++ ".tmp.").toList <+: other.toList := by decide +kernel
  have named : ∀ file ∈ l.mangaFiles info now,
      file.1 ∈ ["metadata.json", "user_state.json", "bindings.json"] := by
    simp [Layout.mangaFiles]
  intro file member other isOther digits same
  refine apart file.1 (named file member) other.1 (named other isOther) ?_
  simp [same]

/-- `SaveManga` is atomic exactly if no call fails once a rename has changed a file. -/
theorem saveManga_atomic_iff (located : l.mangaDir id = .ok dir) {info : Manga} {now : Time}
    (ran : (Effects.saveManga l id info now : Effect Answer Bool).run Files.respond f choices =
      some (saved, f')) :
    AtomicSave dir (l.mangaFiles info now) f.tree f'.tree saved ↔
      FailsEarly f.tree
        ((Effects.saveManga l id info now : Effect Answer Bool).steps Files.respond f choices) := by
  rw [Effects.saveManga_eq] at ran ⊢
  exact saveFiles_atomic_iff located (regular_mangaFiles info now) (by simp [Layout.mangaFiles]) ran

end AllFiles

/-! ## Two saves -/

/-- A library at `/library`, where no id is a URL. -/
def shelf : Layout where
  root := ["library"]
  parseURL _ := none
  toLower := id

/-- A program that asks nothing. -/
abbrev Alone (α : Type) := FileProgram Document Empty (fun _ => Unit) α

/-- A manga whose title and rating have changed since it was stored. -/
def renamedManga : Manga where
  id := "m"
  metadata := { MangaMetadata.zero with title := "New" }
  userState := { UserState.zero with rating := 5 }
  bindings := ⟨[], none⟩

def storedManga : Disk := FileTree.ofEntries
  [(["library", "m", "metadata.json"], .file (.metadata MangaMetadata.zero)),
    (["library", "m", "user_state.json"], .file (.userState UserState.zero)),
    (["library", "m", "bindings.json"], .file (.bindings ⟨[], none⟩)),
    (["library", "m"], .directory), (["library"], .directory)] rfl

def saveRenamed : Alone Bool := Effects.saveManga shelf "m" renamedManga Time.zero

theorem saveManga_atomic_iff_granted :
    ∃ f', saveRenamed.run Files.respond (Files.ofTree storedManga) (List.replicate 12 (.grant "")) =
        some (true, f') ∧
      AtomicSave ["library", "m"] (shelf.mangaFiles renamedManga Time.zero) storedManga f'.tree
        true := by
  have located : shelf.mangaDir "m" = .ok ["library", "m"] := by decide +kernel
  have went : (saveRenamed.run Files.respond (Files.ofTree storedManga)
      (List.replicate 12 (.grant ""))).map (·.1) = some true := by decide +kernel
  have quiet : ∀ step ∈ saveRenamed.steps Files.respond (Files.ofTree storedManga)
      (List.replicate 12 (.grant "")), ¬ Fails step := by decide +kernel
  rcases Option.map_eq_some_iff.mp went with ⟨⟨saved, f'⟩, ran, rfl⟩
  refine ⟨f', ran, (saveManga_atomic_iff located ran).mpr fun placed late sub fails => ?_⟩
  exact absurd fails (quiet late (sub.subset (by simp)))

/-- The directory cannot be made again for the user state, when the metadata is already new. -/
theorem saveRenamed_keeps_title :
    ∃ f', saveRenamed.run Files.respond (Files.ofTree storedManga)
        (List.replicate 4 (.grant "") ++ [.refuse 0]) = some (false, f') ∧
      ¬ AtomicSave ["library", "m"] (shelf.mangaFiles renamedManga Time.zero) storedManga f'.tree
        false := by
  have went : (saveRenamed.run Files.respond (Files.ofTree storedManga)
      (List.replicate 4 (.grant "") ++ [.refuse 0])).map (fun ended =>
        (ended.1, ended.2.tree.find ["library", "m", "metadata.json"])) =
      some (false, some (.file (.metadata (renamedManga.metadata.saved shelf.toLower)))) := by
    decide +kernel
  rcases Option.map_eq_some_iff.mp went with ⟨⟨saved, f'⟩, ran, ended⟩
  rcases Prod.mk.inj ended with ⟨rfl, found⟩
  refine ⟨f', ran, fun atomic => ?_⟩
  have same := found.symm.trans (atomic.failed rfl _ List.mem_cons_self)
  revert same
  decide +kernel

end Kiyomi.Library
