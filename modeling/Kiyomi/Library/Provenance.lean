import Kiyomi.Library.ChapterFiles
import Kiyomi.Library.Manifests
import Kiyomi.Library.Merge

namespace Kiyomi.Library

open Go

/-! # The provider of a chapter

The directory of a chapter comes from one provider id and the content source in its
manifest from another. Both name the same provider as long as every write puts the manifest
below the directory of the provider that it names. -/

namespace Layout

variable (l : Layout)

/-- The place of a path in the directory of a manga, which lies in the root. -/
def place (path : Path) : Path := path.drop (l.root.length + 1)

/-- The provider directory that a path is below. -/
def providerOf (path : Path) : Option String :=
  match l.place path with
  | providerID :: _ :: _ => some providerID
  | _ => none

/-- The manifests below the directory of a provider name it. -/
def Provenance (disk : Disk) : Prop :=
  ∀ path providerID chMeta, l.root <+: path → l.providerOf path = some providerID →
    disk.find path = some (.file (.chapter chMeta)) →
    chMeta.content.map ContentSource.providerID = some providerID

/-- Saving the manifest puts it below the directory of the provider that it names, or
nowhere. -/
def placed (mangaID providerID chapterID : String) (chMeta : ChapterMeta) : Bool :=
  match l.providerChapterDir mangaID providerID chapterID with
  | .error _ => true
  | .ok dir => (l.providerOf (dir ++ ["meta.json"])).all fun owner =>
      chMeta.saved.content.map ContentSource.providerID == some owner

/-- A chapter directory that a merge moves keeps its place in the manga. -/
def aligned (keepID sourceID providerID chapterID : String) : Bool :=
  match l.providerChapterDir sourceID providerID chapterID,
    l.providerChapterDir keepID providerID chapterID with
  | .ok sourceDir, .ok keepDir => l.place sourceDir == l.place keepDir && l.place sourceDir != []
  | _, _ => true

variable {l} {disk disk' : Disk}

/-! ## Paths -/

theorem place_append {path : Path} (proper : l.place path ≠ []) (rest : Path) :
    l.place (path ++ rest) = l.place path ++ rest := by
  have long : l.root.length + 1 < path.length := by
    by_contra short
    exact proper (List.drop_eq_nil_iff.mpr (by omega))
  exact List.drop_append_of_le_length (by omega)

/-- Names that cleaning a path puts behind the root are not empty. -/
theorem cleanFrom_names (n : Nat) {above names : List String}
    (filled : ∀ name ∈ above.reverse.drop n, name ≠ "") :
    ∀ name ∈ (cleanFrom above names).drop n, name ≠ "" := by
  induction names generalizing above with
  | nil => exact filled
  | cons first names induction =>
      rw [cleanFrom]
      split
      · exact induction filled
      · rename_i proper
        split
        · apply induction
          intro name member
          cases above with
          | nil => exact filled name member
          | cons last above =>
              apply filled name
              rw [List.reverse_cons, List.drop_append]
              exact List.mem_append_left _ member
        · apply induction
          intro name member
          rw [List.reverse_cons, List.drop_append] at member
          rcases List.mem_append.mp member with old | new
          · exact filled name old
          · rw [List.mem_singleton.mp (List.mem_of_mem_drop new)]
            exact fun empty => proper (.inl empty)

theorem root_of_within {dir : Path} (inside : l.within dir = true) : l.root <+: dir := by
  simp only [within, Bool.and_eq_true] at inside
  exact List.isPrefixOf_iff_prefix.mp inside.1

theorem mangaDir_names {mangaID : String} {dir : Path} (located : l.mangaDir mangaID = .ok dir) :
    ∀ name ∈ dir.drop l.root.length, name ≠ "" := by
  unfold mangaDir at located
  simp only at located
  split at located
  · contradiction
  · split at located
    · cases located
      exact cleanFrom_names _ (by simp)
    · contradiction

/-- A chapter lies in the root, behind names that are not empty. -/
theorem providerChapterDir_names {mangaID providerID chapterID : String} {dir : Path}
    (located : l.providerChapterDir mangaID providerID chapterID = .ok dir) :
    l.root <+: dir ∧ ∀ name ∈ dir.drop l.root.length, name ≠ "" := by
  unfold providerChapterDir at located
  cases manga : l.mangaDir mangaID with
  | error refused => simp [manga] at located
  | ok mDir =>
      simp only [manga] at located
      split at located
      · contradiction
      · split at located
        · rename_i inside
          cases located
          refine ⟨root_of_within inside, cleanFrom_names _ ?_⟩
          rw [List.reverse_reverse]
          exact mangaDir_names manga
        · contradiction

theorem providerOf_ne_empty {mangaID providerID chapterID owner : String} {dir : Path}
    (located : l.providerChapterDir mangaID providerID chapterID = .ok dir)
    (below : l.providerOf (dir ++ ["meta.json"]) = some owner) : owner ≠ "" := by
  have names := (providerChapterDir_names located).2
  unfold providerOf at below
  split at below
  · rename_i first name rest parts
    cases below
    have first : owner ∈ l.place (dir ++ ["meta.json"]) := by
      rw [parts]
      exact List.mem_cons_self
    have member : owner ∈ (dir ++ ["meta.json"]).drop l.root.length :=
      (List.drop_sublist_drop_left _ (Nat.le_succ _)).subset first
    rw [List.drop_append] at member
    rcases List.mem_append.mp member with inDir | manifest
    · exact names _ inDir
    · rw [List.mem_singleton.mp (List.mem_of_mem_drop manifest)]
      decide
  · contradiction

/-- Only the provider that the manifest names matters. -/
theorem placed_congr {mangaID providerID chapterID : String} {left right : ChapterMeta}
    (same : left.content.map ContentSource.providerID =
      right.content.map ContentSource.providerID) :
    l.placed mangaID providerID chapterID left = l.placed mangaID providerID chapterID right := by
  have named : ∀ chMeta : ChapterMeta, chMeta.saved.content.map ContentSource.providerID =
      (chMeta.content.map ContentSource.providerID).map fun providerID =>
        if providerID = "" then "local" else providerID := by
    intro chMeta
    rw [ChapterMeta.saved, Option.map_map, Option.map_map]
    congr 1
    funext content
    simp only [Function.comp]
    split <;> rfl
  simp only [placed, named, same]

/-! ## Writes -/

theorem provenance_of_files (provenance : l.Provenance disk)
    (old : ∀ path chMeta, disk'.find path = some (.file (.chapter chMeta)) →
      disk.find path = some (.file (.chapter chMeta))) : l.Provenance disk' :=
  fun path providerID chMeta inRoot owner found =>
    provenance path providerID chMeta inRoot owner (old path chMeta found)

theorem provenance_beside (provenance : l.Provenance disk) (beside : Beside disk disk') :
    l.Provenance disk' :=
  provenance_of_files provenance beside.old

theorem provenance_removeAll (provenance : l.Provenance disk) (path : Path) :
    l.Provenance (disk.removeAll path) := by
  by_cases proper : path ≠ []
  · apply provenance_of_files provenance
    intro q chMeta found
    rw [FileTree.find_removeAll proper] at found
    split at found
    · contradiction
    · exact found
  · rwa [FileTree.removeAll, dif_neg proper]

theorem provenance_remove (provenance : l.Provenance disk) {path : Path}
    (removed : disk.remove path = some disk') : l.Provenance disk' := by
  rw [FileTree.remove] at removed
  split at removed
  · contradiction
  · cases removed
    exact provenance_removeAll provenance path

/-- Saving a chapter keeps the property exactly if the manifest has its place. -/
theorem provenance_saveChapter_iff (provenance : l.Provenance disk)
    {mangaID providerID chapterID : String} {chMeta : ChapterMeta}
    (saved : l.saveChapter disk mangaID providerID chapterID chMeta = some disk') :
    l.Provenance disk' ↔ l.placed mangaID providerID chapterID chMeta = true := by
  simp only [saveChapter] at saved
  cases located : l.providerChapterDir mangaID providerID chapterID with
  | error refused => simp [located] at saved
  | ok dir =>
      simp only [located] at saved
      rcases Option.bind_eq_some_iff.mp saved with ⟨middle, created, written⟩
      have before := provenance_beside provenance (.of_mkdirAll created)
      simp only [placed, located]
      constructor
      · intro after
        rw [Option.all_eq_true]
        intro owner below
        have inRoot := (providerChapterDir_names located).1.trans (List.prefix_append _ ["meta.json"])
        have found : disk'.find (dir ++ ["meta.json"]) = some (.file (.chapter chMeta.saved)) := by
          rw [FileTree.find_put written, if_pos rfl]
        simp [after _ owner _ inRoot below found]
      · intro placed path owner stored inRoot below found
        rw [FileTree.find_put written] at found
        split at found
        · rename_i same
          cases found
          rw [← same, below] at placed
          simpa using placed
        · exact before path owner stored inRoot below found

theorem provenance_saveChapter (provenance : l.Provenance disk)
    {mangaID providerID chapterID : String} {chMeta : ChapterMeta}
    (placed : l.placed mangaID providerID chapterID chMeta = true)
    (saved : l.saveChapter disk mangaID providerID chapterID chMeta = some disk') :
    l.Provenance disk' :=
  (provenance_saveChapter_iff provenance saved).mpr placed

/-- What is read of a chapter names the provider whose directory it is below. -/
theorem named_of_getChapter (provenance : l.Provenance disk)
    {mangaID providerID chapterID : String} {chMeta : ChapterMeta}
    (read : l.getChapter disk mangaID providerID chapterID = some chMeta) :
    ∃ dir, l.providerChapterDir mangaID providerID chapterID = .ok dir ∧
      ∀ owner, l.providerOf (dir ++ ["meta.json"]) = some owner →
        owner ≠ "" ∧ ∃ content, chMeta.content = some content ∧ content.providerID = owner := by
  simp only [getChapter] at read
  cases located : l.providerChapterDir mangaID providerID chapterID with
  | error refused => simp [located] at read
  | ok dir =>
      simp only [located] at read
      split at read
      · rename_i stored found
        cases read
        have inRoot := (providerChapterDir_names located).1.trans (List.prefix_append _ ["meta.json"])
        refine ⟨dir, rfl, fun owner below => ⟨providerOf_ne_empty located below, ?_⟩⟩
        have named := provenance _ owner stored inRoot below (FileTree.readFile_eq_some.mp found)
        exact Option.map_eq_some_iff.mp named
      · contradiction

/-- A manifest that was read is placed where it came from. -/
theorem placed_of_getChapter (provenance : l.Provenance disk)
    {mangaID providerID chapterID : String} {chMeta changed : ChapterMeta}
    (read : l.getChapter disk mangaID providerID chapterID = some chMeta)
    (same : chMeta.content.isSome → changed.content.map ContentSource.providerID =
      chMeta.content.map ContentSource.providerID) :
    l.placed mangaID providerID chapterID changed = true := by
  rcases named_of_getChapter provenance read with ⟨dir, located, named⟩
  simp only [placed, located]
  rw [Option.all_eq_true]
  intro owner below
  rcases named owner below with ⟨notEmpty, content, has, names⟩
  have kept : changed.content.map ContentSource.providerID = some owner := by
    rw [same (by simp [has]), has, Option.map_some, names]
  rcases Option.map_eq_some_iff.mp kept with ⟨content', has', names'⟩
  simp [ChapterMeta.saved, has', names', notEmpty]

theorem provenance_mergeSingleChapter (provenance : l.Provenance disk)
    {keepID sourceID providerID chapterID : String} {refused : Option PathError}
    (aligned : l.aligned keepID sourceID providerID chapterID = true)
    (merged : l.mergeSingleChapter keepID sourceID disk providerID chapterID =
      some (disk', refused)) : l.Provenance disk' := by
  simp only [mergeSingleChapter] at merged
  cases sourceLocated : l.providerChapterDir sourceID providerID chapterID with
  | error refused =>
      simp only [sourceLocated] at merged
      cases merged
      exact provenance
  | ok sourceDir =>
      simp only [sourceLocated] at merged
      split at merged
      · cases merged
        exact provenance
      · cases keepLocated : l.providerChapterDir keepID providerID chapterID with
        | error refused =>
            simp only [keepLocated] at merged
            cases merged
            exact provenance
        | ok keepDir =>
            simp only [keepLocated] at merged
            split at merged
            · cases merged
              exact provenance
            · rcases Option.bind_eq_some_iff.mp merged with ⟨middle, created, merged⟩
              rcases Option.map_eq_some_iff.mp merged with ⟨last, moved, same⟩
              cases same
              simp only [Layout.aligned, sourceLocated, keepLocated, Bool.and_eq_true,
                beq_iff_eq, bne_iff_ne] at aligned
              rcases aligned with ⟨samePlace, proper⟩
              have before := provenance_beside provenance (.of_mkdirAll created)
              have inRoot := (providerChapterDir_names sourceLocated).1
              intro path owner stored above below found
              rw [FileTree.find_rename moved] at found
              split at found
              · rename_i inKeep
                rcases inKeep with ⟨rest, rfl⟩
                rw [List.drop_left] at found
                refine before _ owner stored (inRoot.trans (List.prefix_append _ _)) ?_ found
                rw [← below]
                simp only [providerOf, place_append proper,
                  place_append (samePlace ▸ proper), samePlace]
              · split at found
                · contradiction
                · exact before path owner stored above below found

/-! ## Operations -/

/-- Whatever an operation has changed when it ends, manifests name their providers. -/
def Respects (l : Layout) (op : Disk → Disk × Bool) : Prop :=
  ∀ disk, l.Provenance disk → l.Provenance (op disk).1

theorem each_invariant (P : Disk → Prop) {op : α → Disk → Disk × Bool} {xs : List α}
    (preserved : ∀ x ∈ xs, ∀ disk, P disk → P (op x disk).1) {disk : Disk} (initially : P disk) :
    P (each op xs disk).1 := by
  induction xs generalizing disk with
  | nil => exact initially
  | cons x xs induction =>
      have first := preserved x List.mem_cons_self disk initially
      rw [each]
      cases ran : op x disk with
      | mk middle went =>
          rw [ran] at first
          cases went with
          | false => exact first
          | true => exact induction (fun y member => preserved y (List.mem_cons_of_mem _ member)) first

theorem Respects.andThen {first second : Disk → Disk × Bool} (firstRespects : Respects l first)
    (secondRespects : Respects l second) :
    Respects l fun disk =>
      match first disk with
      | (disk, false) => (disk, false)
      | (disk, true) => second disk := by
  intro disk provenance
  have before := firstRespects disk provenance
  cases ran : first disk with
  | mk middle went =>
      rw [ran] at before
      simp only [ran]
      cases went with
      | false => exact before
      | true => exact secondRespects middle before

theorem respects_orKeep {op : Disk → Option Disk} {disk : Disk} (provenance : l.Provenance disk)
    (respects : ∀ disk', op disk = some disk' → l.Provenance disk') :
    l.Provenance (orKeep op disk).1 := by
  rw [orKeep]
  cases done : op disk with
  | none => exact provenance
  | some disk' => exact respects disk' done

variable {mangaID providerID chapterID : String}

/-- A manifest that was read and is written back keeps its provider. -/
theorem provenance_rewrite {chMeta changed : ChapterMeta} (provenance : l.Provenance disk)
    (read : l.getChapter disk mangaID providerID chapterID = some chMeta)
    (same : changed.content = chMeta.content) :
    l.Provenance
      (orKeep (fun disk => l.saveChapter disk mangaID providerID chapterID changed) disk).1 :=
  respects_orKeep provenance fun _ saved =>
    provenance_saveChapter provenance (placed_of_getChapter provenance read (by simp [same])) saved

theorem respects_saveLastRead (mangaID chapterID : String) (now : Time) :
    Respects l (l.saveLastRead mangaID chapterID now) := by
  intro disk provenance
  rw [saveLastRead]
  cases l.getUserState disk mangaID with
  | none => exact provenance
  | some userState =>
      refine respects_orKeep provenance fun disk' saved => ?_
      simp only [saveUserState] at saved
      split at saved
      · contradiction
      · rcases Option.bind_eq_some_iff.mp saved with ⟨middle, made, written⟩
        exact provenance_beside provenance
          ((Beside.of_mkdirAll made).trans (.of_writeFile (by decide) (by simp) written))

theorem respects_saveProgress (isRead : Bool) (lastReadPage : Int) (now : Time) :
    Respects l (l.saveProgress mangaID providerID isRead lastReadPage now chapterID) := by
  intro disk provenance
  rw [saveProgress]
  cases read : l.getChapter disk mangaID providerID chapterID with
  | none => exact provenance
  | some chMeta => exact provenance_rewrite provenance read rfl

theorem respects_batchUpdateChapterProgress (chapterIDs : List String) (isRead : Bool)
    (lastReadPage : Int) (now : Time) :
    Respects l (l.batchUpdateChapterProgress mangaID providerID chapterIDs isRead lastReadPage
      now) := by
  refine Respects.andThen (fun disk provenance => ?_) fun disk provenance => ?_
  · exact each_invariant l.Provenance (fun chapterID _ => respects_saveProgress _ _ _) provenance
  · split
    · exact provenance
    · exact respects_saveLastRead _ _ _ disk provenance

theorem respects_deleteChapter : Respects l (l.deleteChapter mangaID providerID chapterID) := by
  intro disk provenance
  simp only [deleteChapter]
  split
  · exact provenance
  · exact provenance_removeAll provenance _

theorem respects_removeFile (path : Path) : Respects l (orKeep (removeFile path)) := by
  intro disk provenance
  refine respects_orKeep provenance fun disk' removed => ?_
  rw [removeFile] at removed
  split at removed
  · contradiction
  · exact provenance_remove provenance removed

theorem respects_removeImages (dir : Path) (ext : String) : Respects l (removeImages dir ext) := by
  intro disk provenance
  rw [removeImages]
  split
  · exact provenance
  · exact each_invariant l.Provenance (fun path _ => respects_removeFile path) provenance

theorem respects_deleteChapterFiles :
    Respects l (l.deleteChapterFiles mangaID providerID chapterID) := by
  intro disk provenance
  simp only [deleteChapterFiles]
  split
  · exact provenance
  · rename_i dir located
    split
    · exact provenance
    · have images : Respects l (each (removeImages dir) imageExts) := fun disk provenance =>
        each_invariant l.Provenance (fun ext _ => respects_removeImages dir ext) provenance
      have pages : Respects l (removePages dir) := by
        intro disk provenance
        rw [removePages]
        split
        · exact provenance
        · exact respects_removeFile _ disk provenance
      have forget : Respects l (l.forgetDownload mangaID providerID chapterID dir) := by
        intro disk provenance
        rw [forgetDownload]
        split
        · exact provenance
        · cases read : l.getChapter disk mangaID providerID chapterID with
          | none => exact provenance
          | some chMeta => exact provenance_rewrite provenance read rfl
      exact images.andThen (pages.andThen forget) disk provenance

end Layout

end Kiyomi.Library
