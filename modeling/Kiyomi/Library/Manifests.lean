import Kiyomi.Library.Files

namespace Kiyomi.Library

open Go

/-! # Operations beside the manifests

Making directories and writing or removing the other files of a manga changes no manifest of
a chapter. -/

/-- Nothing that is a manifest was another thing before, and what is read as a manifest is
the same. -/
structure Beside (disk disk' : Disk) : Prop where
  old : ∀ path chMeta, disk'.find path = some (.file (.chapter chMeta)) →
    disk.find path = some (.file (.chapter chMeta))
  same : ∀ dir, disk'.readFile (dir ++ ["meta.json"]) = disk.readFile (dir ++ ["meta.json"])

namespace Beside

variable {disk middle disk' : Disk}

theorem refl (disk : Disk) : Beside disk disk := ⟨fun _ _ found => found, fun _ => rfl⟩

theorem trans (first : Beside disk middle) (second : Beside middle disk') : Beside disk disk' where
  old path chMeta found := first.old path chMeta (second.old path chMeta found)
  same dir := (second.same dir).trans (first.same dir)

theorem of_mkdirAll {path : Path} (created : disk.mkdirAll path = some disk') :
    Beside disk disk' := by
  have files : ∀ q content, disk'.find q = some (.file content) ↔
      disk.find q = some (.file content) := by
    intro q content
    constructor
    · intro found
      rw [FileTree.find_mkdirAll created] at found
      split at found
      · exact nomatch Option.some.inj found
      · exact found
    · exact FileTree.mkdirAll_keeps created
  refine ⟨fun q chMeta => (files q _).mp, fun dir => Option.ext fun content => ?_⟩
  rw [FileTree.readFile_eq_some, FileTree.readFile_eq_some, files]

theorem of_writeFile {path : Path} {name : String} {content : Document}
    (other : name ≠ "meta.json") (noChapter : ∀ chMeta, content ≠ .chapter chMeta)
    (written : disk.writeFile path name content = some disk') : Beside disk disk' := by
  refine ⟨fun q chMeta found => ?_, fun dir => ?_⟩
  · rw [FileTree.find_put written] at found
    split at found
    · cases found
      exact absurd rfl (noChapter chMeta)
    · exact found
  · have different := Layout.manifest_ne other dir path
    simp only [FileTree.readFile, FileTree.find_put written, if_neg different]

theorem of_remove {path : Path} {name : String} (other : name ≠ "meta.json")
    (removed : disk.remove (path ++ [name]) = some disk') : Beside disk disk' := by
  have found := FileTree.find_remove (by simp) removed
  refine ⟨fun q chMeta isFile => ?_, fun dir => ?_⟩
  · rw [found] at isFile
    split at isFile
    · contradiction
    · exact isFile
  · have different := Layout.manifest_ne other dir path
    simp only [FileTree.readFile, found, if_neg different]

end Beside

namespace Layout

variable {l : Layout} {disk disk' : Disk} {mangaID : String}

theorem claimCoverEnqueue_beside {claimed : Bool}
    (result : l.claimCoverEnqueue disk mangaID = some (claimed, disk')) : Beside disk disk' := by
  simp only [claimCoverEnqueue] at result
  split at result
  · contradiction
  · split at result
    · cases result
      exact .refl disk
    · rcases Option.bind_eq_some_iff.mp result with ⟨middle, made, result⟩
      split at result
      · cases result
        exact .of_mkdirAll made
      · rcases Option.map_eq_some_iff.mp result with ⟨written, wrote, same⟩
        cases same
        exact (Beside.of_mkdirAll made).trans (.of_writeFile (by decide) (by simp) wrote)

theorem saveBindings_beside {b : MangaBindings} (saved : l.saveBindings disk mangaID b = some disk') :
    Beside disk disk' := by
  simp only [saveBindings] at saved
  split at saved
  · contradiction
  · rcases Option.bind_eq_some_iff.mp saved with ⟨middle, made, written⟩
    exact (Beside.of_mkdirAll made).trans (.of_writeFile (by decide) (by simp) written)

theorem releaseCoverClaim_beside (disk : Disk) (mangaID : String) :
    Beside disk ((l.releaseCoverClaim disk mangaID).getD disk) := by
  cases released : l.releaseCoverClaim disk mangaID with
  | none => exact .refl disk
  | some disk' =>
      simp only [releaseCoverClaim] at released
      split at released
      · contradiction
      · exact .of_remove (by decide) released

end Layout

end Kiyomi.Library
