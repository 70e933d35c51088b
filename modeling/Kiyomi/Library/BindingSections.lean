import Kiyomi.Library.MergeEffects

namespace Kiyomi.Library

open Go

/-! # The locked sections of the provider calls

`AddProvider`, `RemoveProvider` and `SwitchContentProvider` as programs on files. Under
the lock each of them reads the bindings, changes them and saves them. A section that
fails leaves what can be read of the bindings as it was. -/

inductive BindingsError
  | unreadable
  | refused (message : String)
  | unsaved
  deriving DecidableEq, Repr

/-- The bindings as `saveBindingsLocked` writes them. -/
def MangaBindings.normalize (b : MangaBindings) : MangaBindings :=
  { b with providers := firstSeen [] b.providers }

/-- Whether the system lets a section read and save the bindings. -/
structure Storage where
  readable : Bool
  writable : Bool
  deriving DecidableEq, Repr

def Storage.saves (storage : Storage) : Bool := storage.readable && storage.writable

/-- A locked section on the bindings alone: the result, and what is stored then. -/
def updateBindings (change : MangaBindings → Except String MangaBindings) (storage : Storage)
    (stored : MangaBindings) : Except BindingsError Unit × MangaBindings :=
  if !storage.readable then (.error .unreadable, stored)
  else
    match change stored with
    | .error message => (.error (.refused message), stored)
    | .ok changed =>
        if storage.writable then (.ok (), changed.normalize) else (.error .unsaved, stored)

theorem updateBindings_error {change : MangaBindings → Except String MangaBindings}
    {storage : Storage} {stored after : MangaBindings} {error : BindingsError}
    (failed : updateBindings change storage stored = (.error error, after)) : after = stored := by
  unfold updateBindings at failed
  split at failed
  · exact (Prod.mk.inj failed).2.symm
  · split at failed
    · exact (Prod.mk.inj failed).2.symm
    · split at failed
      · exact nomatch (Prod.mk.inj failed).1
      · exact (Prod.mk.inj failed).2.symm

theorem updateBindings_ok {change : MangaBindings → Except String MangaBindings}
    {storage : Storage} {stored after : MangaBindings}
    (done : updateBindings change storage stored = (.ok (), after)) :
    ∃ changed, change stored = .ok changed ∧ after = changed.normalize := by
  unfold updateBindings at done
  split at done
  · exact nomatch (Prod.mk.inj done).1
  · split at done
    · exact nomatch (Prod.mk.inj done).1
    · rename_i changed accepted
      split at done
      · exact ⟨changed, accepted, (Prod.mk.inj done).2.symm⟩
      · exact nomatch (Prod.mk.inj done).1

namespace Effects

variable {Question : Type} {Answer : Question → Type} (l : Layout)

def updateBindings (mangaID : String) (change : MangaBindings → Except String MangaBindings) :
    Effect Answer (Except BindingsError Unit) := do
  match ← getBindings l mangaID with
  | none => pure (.error .unreadable)
  | some bindings =>
      match change bindings with
      | .error message => pure (.error (.refused message))
      | .ok changed => do
          if ← saveBindings l mangaID changed then pure (.ok ()) else pure (.error .unsaved)

def addProvider (mangaID : String) (ref : ProviderRef) : Effect Answer (Except BindingsError Unit) :=
  updateBindings l (l.sanitizeID mangaID) fun bindings => .ok (bindings.addProvider ref)

def removeProvider (mangaID providerID providerMangaID : String)
    (capabilityLookup : String → List String) : Effect Answer (Except BindingsError Unit) :=
  updateBindings l (l.sanitizeID mangaID) fun bindings =>
    bindings.removeProvider providerID providerMangaID capabilityLookup

/-- The title that `SwitchContentProvider` takes before the lock. -/
def snapshotTitle (mangaTitle : String) (metadata : Option MangaMetadata) : String :=
  if mangaTitle ≠ "" then mangaTitle
  else (metadata.map MangaMetadata.title).getD mangaTitle

def switchContentProvider (mangaID providerID providerMangaID mangaTitle readingMode : String) :
    Effect Answer (Except BindingsError Unit) := do
  let metadata ←
    if mangaTitle = "" then getMetadata l (l.sanitizeID mangaID) else pure none
  updateBindings l (l.sanitizeID mangaID) fun bindings =>
    .ok (bindings.switchContentProvider providerID providerMangaID
      (snapshotTitle mangaTitle metadata) readingMode)

end Effects

/-! ## A file that is replaced -/

/-- Whatever is read at a path gives the same. -/
def SameAt (path : Path) (disk disk' : Disk) : Prop :=
  disk'.find path = disk.find path ∧
    ∀ upper, upper <+: path → disk'.readFile upper = disk.readFile upper

namespace SameAt

variable {path : Path} {disk disk' disk'' : Disk}

theorem refl (path : Path) (disk : Disk) : SameAt path disk disk := ⟨rfl, fun _ _ => rfl⟩

theorem trans (first : SameAt path disk disk') (second : SameAt path disk' disk'') :
    SameAt path disk disk'' :=
  ⟨second.1.trans first.1, fun upper above => (second.2 upper above).trans (first.2 upper above)⟩

theorem readConcern (same : SameAt path disk disk') (zero : α) (decode : Document → Option α) :
    Layout.readConcern disk' path zero decode = Layout.readConcern disk path zero decode := by
  have above : (path.inits.all fun upper => (disk'.readFile upper).isNone) =
      path.inits.all fun upper => (disk.readFile upper).isNone := by
    rw [Bool.eq_iff_iff, List.all_eq_true, List.all_eq_true]
    exact forall₂_congr fun upper member => by rw [same.2 upper ((List.mem_inits _ _).mp member)]
  unfold Layout.readConcern Layout.notExist
  rw [same.1, above, same.2 path (List.prefix_refl path)]

/-- A file that is not on the way there changes nothing. -/
theorem of_find (same : ∀ upper, upper <+: path → disk'.find upper = disk.find upper) :
    SameAt path disk disk' := by
  refine ⟨same path (List.prefix_refl path), fun upper above => ?_⟩
  simp only [FileTree.readFile, same upper above]

/-- Directories that are made were no files. -/
theorem of_mkdirAll {dir made : Path} (name : String) (upper : made <+: dir)
    (created : disk.mkdirAll made = some disk') : SameAt (dir ++ [name]) disk disk' := by
  have short : ¬ dir ++ [name] <+: made := by
    intro below
    have lengths := (below.trans upper).length_le
    simp at lengths
  refine ⟨by rw [FileTree.find_mkdirAll created, if_neg short], fun q _ => ?_⟩
  simp only [FileTree.readFile, FileTree.find_mkdirAll created]
  split
  · rename_i content found
    split at found
    · cases found
    · rw [found]
  · rename_i noFile
    split
    · rename_i content found
      by_cases onTheWay : q <+: made
      · exact absurd found (FileTree.mkdirAll_free created onTheWay)
      · rw [if_neg onTheWay] at noFile
        exact absurd found (noFile content)
    · rfl

end SameAt

/-- The name of a temporary file is longer than that of its target. -/
theorem temporary_ne (dir : Path) (name suffix : String) :
    ∀ upper, upper <+: dir ++ [name] → upper ≠ dir ++ [name ++ ".tmp." ++ suffix] := by
  rintro upper above rfl
  have same : dir ++ [name ++ ".tmp." ++ suffix] = dir ++ [name] :=
    above.eq_of_length (by simp)
  have names : name ++ ".tmp." ++ suffix = name := by simpa using same
  have lengths := congrArg String.length names
  simp only [String.length_append] at lengths
  have dots : ".tmp.".length = 5 := by decide
  omega

namespace Effects

variable {Question : Type} {Answer : Question → Type} [DecidableEq Question] (l : Layout)

theorem sameAt_of_call {c : FileCall Document Question} {f f' : Files Document}
    {choice : FileChoice Answer} {reply : c.Reply Answer} {path : Path}
    (responded : f.respond c choice = some (reply, f'))
    (apart : ∀ upper, upper <+: path → ¬ c.Changes upper) : SameAt path f.tree f'.tree := by
  rcases Files.respond_cases responded with rfl | ⟨tree, touched, rfl, effect⟩
  · exact .refl path _
  · exact .of_find fun upper above => effect.find (apart upper above)

/-- `saveJSONAtomic` replaces the file, or leaves what can be read of it. -/
theorem saveJSONAtomic_run {dir : Path} {name : String} {content : Document}
    {f f' : Files Document} {choices : List (FileChoice Answer)} {saved : Bool}
    (ran : (saveJSONAtomic dir name content : Effect Answer Bool).run Files.respond f choices =
      some (saved, f')) :
    if saved then f'.tree.find (dir ++ [name]) = some (.file content)
    else SameAt (dir ++ [name]) f.tree f'.tree := by
  rcases Program.run_call.mp ran with ⟨_, _, created, f₁, rfl, responded, ran⟩
  have outcome := Files.respond_outcome responded
  cases created with
  | error _ =>
      rcases Program.run_done.mp ran with ⟨_, rfl, rfl⟩
      exact .of_find fun upper _ => by rw [outcome]
  | ok tmp =>
      rcases outcome with ⟨suffix, rfl, _, _⟩
      have apart := temporary_ne dir name suffix
      have first : SameAt (dir ++ [name]) f.tree f₁.tree :=
        sameAt_of_call responded fun upper above ⟨other, same⟩ =>
          temporary_ne dir name other upper above same
      rcases Program.run_call.mp ran with ⟨_, _, written, f₂, rfl, responded, ran⟩
      have second : SameAt (dir ++ [name]) f₁.tree f₂.tree := sameAt_of_call responded apart
      have before := first.trans second
      have cleanup : ∀ {f₃ : Files Document} {rest : List (FileChoice Answer)} {result : Bool},
          SameAt (dir ++ [name]) f₂.tree f₃.tree →
          (request (.remove (dir ++ [name ++ ".tmp." ++ suffix])) >>= fun _ => pure false :
            Effect Answer Bool).run Files.respond f₃ rest = some (result, f') →
          result = false ∧ SameAt (dir ++ [name]) f.tree f'.tree := by
        intro f₃ rest result third ran
        rcases Program.run_call.mp ran with ⟨_, _, removed, f₄, rfl, responded, ran⟩
        rcases Program.run_done.mp ran with ⟨_, rfl, rfl⟩
        exact ⟨rfl, (before.trans third).trans (sameAt_of_call responded apart)⟩
      have outcome := Files.respond_outcome responded
      cases written with
      | error _ =>
          rcases cleanup (.refl _ _) ran with ⟨rfl, same⟩
          exact same
      | ok _ =>
          rcases Program.run_call.mp ran with ⟨_, _, renamed, f₃, rfl, moves, ran⟩
          have moved := Files.respond_outcome moves
          cases renamed with
          | error _ =>
              rcases cleanup (.of_find fun upper _ => by rw [moved]) ran with ⟨rfl, same⟩
              exact same
          | ok _ =>
              rcases Program.run_done.mp ran with ⟨_, rfl, rfl⟩
              rw [if_pos rfl, FileTree.find_rename moved, if_pos (List.prefix_refl _)]
              simp [FileTree.find_put outcome]

theorem saveBindings_run {mangaID : String} {b : MangaBindings} {f f' : Files Document}
    {choices : List (FileChoice Answer)} {saved : Bool}
    (ran : (saveBindings l mangaID b : Effect Answer Bool).run Files.respond f choices =
      some (saved, f')) :
    l.getBindings f'.tree mangaID =
      if saved then some b.normalize else l.getBindings f.tree mangaID := by
  unfold saveBindings at ran
  cases located : l.mangaDir mangaID with
  | error refused =>
      rw [located] at ran
      rcases Program.run_done.mp ran with ⟨_, rfl, rfl⟩
      rfl
  | ok dir =>
      rw [located] at ran
      rcases Program.run_call.mp ran with ⟨_, _, made, f₁, rfl, responded, ran⟩
      have first : SameAt (dir ++ ["bindings.json"]) f.tree f₁.tree := by
        rcases Files.respond_cases responded with rfl | ⟨tree, touched, rfl, count, created, _⟩
        · exact .refl _ _
        · exact .of_mkdirAll _ (List.take_prefix _ _) created
      simp only [Layout.getBindings, located]
      cases made with
      | error _ =>
          rcases Program.run_done.mp ran with ⟨_, rfl, rfl⟩
          exact first.readConcern _ _
      | ok _ =>
          have replaced := saveJSONAtomic_run ran
          cases saved with
          | true =>
              rw [if_pos rfl] at replaced ⊢
              simp [Layout.readConcern, Layout.notExist, FileTree.readFile, replaced,
                SavedBindings.save, MangaBindings.normalize]
          | false => exact (first.trans replaced).readConcern _ _

/-- The program on files is the section on the bindings, as the system lets it. -/
theorem updateBindings_run {mangaID : String}
    {change : MangaBindings → Except String MangaBindings} {f f' : Files Document}
    {choices : List (FileChoice Answer)} {result : Except BindingsError Unit}
    (ran : (updateBindings l mangaID change : Effect Answer _).run Files.respond f choices =
      some (result, f')) :
    (∃ bindings storage, l.getBindings f.tree mangaID = some bindings ∧
      (result, l.getBindings f'.tree mangaID) =
        ((Library.updateBindings change storage bindings).1,
          some (Library.updateBindings change storage bindings).2)) ∨
    result = .error .unreadable ∧ l.getBindings f'.tree mangaID = l.getBindings f.tree mangaID := by
  rcases Program.run_bind.mp ran with ⟨reading, rest, found, f₁, rfl, reads, ran⟩
  rcases getBindings_readsAs l mangaID reads with ⟨sameTree, what⟩
  cases found with
  | none =>
      rcases Program.run_done.mp ran with ⟨_, rfl, rfl⟩
      exact .inr ⟨rfl, by rw [sameTree]⟩
  | some bindings =>
      have stored : l.getBindings f.tree mangaID = some bindings := by
        rcases what with same | ⟨nothing, _⟩
        · exact same.symm
        · contradiction
      left
      cases changes : change bindings with
      | error message =>
          simp only [changes] at ran
          rcases Program.run_done.mp ran with ⟨_, rfl, rfl⟩
          refine ⟨bindings, ⟨true, true⟩, stored, ?_⟩
          simp [Library.updateBindings, changes, sameTree, stored]
      | ok changed =>
          simp only [changes] at ran
          rcases Program.run_bind.mp ran with ⟨saving, _, saved, f₂, rfl, saves, ran⟩
          have written := saveBindings_run l saves
          refine ⟨bindings, ⟨true, saved⟩, stored, ?_⟩
          rw [sameTree, stored] at written
          cases saved with
          | true =>
              rcases Program.run_done.mp ran with ⟨_, rfl, rfl⟩
              simp [Library.updateBindings, changes, written]
          | false =>
              rcases Program.run_done.mp ran with ⟨_, rfl, rfl⟩
              simp [Library.updateBindings, changes, written]

end Effects

end Kiyomi.Library
