import Kiyomi.Api.MergeHandler
import Kiyomi.Library.MergeMoves

namespace Kiyomi.Api

open Go Library

/-! # The steps of the merge endpoint

What has been checked when the merge starts, and that the steps after the moves leave the
chapters of the kept manga alone. -/

variable {l : Layout} {body : MergeRequest} {keep source : Path} {before disk disk' : Disk}
  {keepID sourceID : String} {result : Merged}

/-! ## Acceptance -/

theorem located_of_getManga {id : String} (found : (l.getManga disk id).isSome) :
    ∃ dir, l.mangaDir id = .ok dir ∧ disk.find dir = some .directory := by
  simp only [Layout.getManga] at found
  cases located : l.mangaDir id with
  | error refused => simp [located] at found
  | ok dir =>
      simp only [located] at found
      split at found
      · simp at found
      · rename_i present
        rw [Option.isNone_iff_eq_none] at present
        rcases Option.ne_none_iff_exists'.mp present with ⟨node, inside⟩
        exact ⟨dir, rfl, FileTree.parent inside⟩

theorem loadSources_ok {ids : List String} {loaded : List (String × Manga)}
    (ok : loadSources l disk ids = .ok loaded) :
    (∀ id ∈ ids, (l.getManga disk id).isSome) ∧ ∀ entry ∈ loaded, entry.1 ∈ ids := by
  induction ids generalizing loaded with
  | nil =>
      rw [loadSources, Except.ok.injEq] at ok
      simp [← ok]
  | cons id ids induction =>
      rw [loadSources] at ok
      split at ok
      · contradiction
      · rename_i info found
        cases rest : loadSources l disk ids with
        | error missing => simp [rest, Except.map] at ok
        | ok others =>
            rw [rest, Except.map, Except.ok.injEq] at ok
            subst ok
            have later := induction rest
            constructor
            · intro other member
              rcases List.mem_cons.mp member with rfl | member
              · simp [found]
              · exact later.1 other member
            · intro entry member
              rcases List.mem_cons.mp member with rfl | member
              · exact List.mem_cons_self
              · exact List.mem_cons_of_mem _ (later.2 entry (List.mem_of_mem_filter member))

theorem mem_of_selectedSource {loaded : List (String × Manga)} {field : String}
    {chosen : String × Manga} (selected : selectedSource body loaded field = some chosen) :
    chosen ∈ loaded := by
  rw [selectedSource] at selected
  rcases Option.bind_eq_some_iff.mp selected with ⟨sel, _, selected⟩
  split at selected
  · rcases Option.map_eq_some_iff.mp selected with ⟨info, found, rfl⟩
    rcases List.lookup_eq_some_iff.mp found with ⟨before, after, parts, _⟩
    simp [parts]
  · contradiction

/-- An accepted request names manga that exist, and takes the cover from a source. -/
theorem mergeLibraryManga_accepted (accepted : mergeLibraryManga l disk body = some (.ok result)) :
    (l.getManga disk body.keepMangaID).isSome ∧
    (∀ id ∈ body.sourceMangaIDs, (l.getManga disk id).isSome) ∧
    ∃ mergedMeta mergedBindings cover, (∀ id ∈ cover, id ∈ body.sourceMangaIDs) ∧
      performMerge l disk body mergedMeta mergedBindings cover = some result := by
  rw [mergeLibraryManga] at accepted
  iterate 4 (split at accepted; · simp at accepted)
  split at accepted
  · simp at accepted
  · rename_i keepInfo keepFound
    split at accepted
    · simp at accepted
    · rename_i loaded loadedOk
      simp only at accepted
      split at accepted
      · simp at accepted
      · split at accepted
        · simp at accepted
        · rcases Option.map_eq_some_iff.mp accepted with ⟨merged, performed, same⟩
          simp only [Except.ok.injEq] at same
          subst same
          refine ⟨by simp [keepFound], (loadSources_ok loadedOk).1, _, _, _, ?_, performed⟩
          intro id asCover
          rcases Option.map_eq_some_iff.mp asCover with ⟨chosen, selected, rfl⟩
          exact (loadSources_ok loadedOk).2 chosen (mem_of_selectedSource selected)

/-- The steps of an accepted merge. -/
theorem performMerge_steps {mergedMeta : MangaMetadata} {mergedBindings : MangaBindings}
    {cover : Option String}
    (performed : performMerge l disk body mergedMeta mergedBindings cover = some result) :
    ∃ moved covered described, mergeSources l body.keepMangaID disk body.sourceMangaIDs = some moved ∧
      (match cover with
        | some srcID => l.replaceCoverFromSource body.keepMangaID srcID moved
        | none => some moved) = some covered ∧
      result.deleted = (deleteSources l covered body.sourceMangaIDs).2 ∧
      l.saveMetadata (deleteSources l covered body.sourceMangaIDs).1 body.keepMangaID mergedMeta =
        some described ∧
      l.saveBindings described body.keepMangaID mergedBindings = some result.disk := by
  rw [performMerge] at performed
  rcases Option.bind_eq_some_iff.mp performed with ⟨moved, sources, performed⟩
  rcases Option.bind_eq_some_iff.mp performed with ⟨covered, replaced, performed⟩
  rcases Option.bind_eq_some_iff.mp performed with ⟨described, saved, performed⟩
  rcases Option.map_eq_some_iff.mp performed with ⟨last, bound, rfl⟩
  exact ⟨moved, covered, described, sources, replaced, rfl, saved, bound⟩

/-! ## The chapters of the kept manga -/

/-- The chapter directories of a manga are not touched. -/
def SameChapters (keep : Path) (disk disk' : Disk) : Prop :=
  ∀ p c, disk'.subtree (keep ++ [p, c]) = disk.subtree (keep ++ [p, c])

theorem SameChapters.trans {middle : Disk} (first : SameChapters keep disk middle)
    (second : SameChapters keep middle disk') : SameChapters keep disk disk' :=
  fun p c => (second p c).trans (first p c)

theorem chapter_ne_upper (keep rest : Path) (p c name : String) :
    keep ++ [p, c] ++ rest ≠ keep ++ [name] := by
  intro same
  rw [List.append_assoc, List.append_cancel_left_eq] at same
  simp at same

theorem sameChapters_saved {name : String} {content : Document} {middle : Disk}
    (made : disk.mkdirAll keep = some middle)
    (written : middle.writeFile keep name content = some disk') : SameChapters keep disk disk' := by
  intro p c
  funext rest
  rw [FileTree.subtree, FileTree.find_put written, if_neg (chapter_ne_upper keep rest p c name),
    FileTree.find_mkdirAll made, if_neg, FileTree.subtree]
  intro above
  have lengths := above.length_le
  simp at lengths

theorem sameChapters_saveMetadata {m : MangaMetadata} (keepLocated : l.mangaDir keepID = .ok keep)
    (saved : l.saveMetadata disk keepID m = some disk') : SameChapters keep disk disk' := by
  simp only [Layout.saveMetadata, keepLocated] at saved
  rcases Option.bind_eq_some_iff.mp saved with ⟨middle, made, written⟩
  exact sameChapters_saved made written

theorem sameChapters_saveBindings {b : MangaBindings} (keepLocated : l.mangaDir keepID = .ok keep)
    (saved : l.saveBindings disk keepID b = some disk') : SameChapters keep disk disk' := by
  simp only [Layout.saveBindings, keepLocated] at saved
  rcases Option.bind_eq_some_iff.mp saved with ⟨middle, made, written⟩
  exact sameChapters_saved made written

theorem sameChapters_removeAll {dir : Path} (apart : Apart keep dir) :
    SameChapters keep disk (disk.removeAll dir) := by
  have proper : dir ≠ [] := by
    intro root
    exact apart.2 (root ▸ List.nil_prefix)
  intro p c
  funext rest
  rw [FileTree.subtree, FileTree.find_removeAll proper, if_neg, FileTree.subtree]
  rw [List.append_assoc]
  have outside := apart.symm.append [] ([p, c] ++ rest)
  rwa [List.append_nil] at outside

theorem deleteSources_deleted (ids : List String) (disk : Disk) :
    (deleteSources l disk ids).2 = ids.filterMap fun id => (l.mangaDir id).toOption := by
  induction ids generalizing disk with
  | nil => rfl
  | cons id ids induction =>
      rw [deleteSources, List.filterMap_cons]
      cases l.mangaDir id with
      | error refused => exact induction disk
      | ok dir => exact congrArg (dir :: ·) (induction _)

theorem find_deleteSources_of_none {q : Path} (ids : List String) (absent : disk.find q = none) :
    (deleteSources l disk ids).1.find q = none := by
  induction ids generalizing disk with
  | nil => exact absent
  | cons id ids induction =>
      rw [deleteSources]
      cases l.mangaDir id with
      | error refused => exact induction absent
      | ok other => exact induction (FileTree.find_removeAll_of_none absent)

/-- Nothing stays at or below a deleted directory. -/
theorem find_deleteSources {ids : List String} {dir q : Path}
    (member : dir ∈ ids.filterMap fun id => (l.mangaDir id).toOption) (proper : dir ≠ [])
    (below : dir <+: q) (disk : Disk) : (deleteSources l disk ids).1.find q = none := by
  induction ids generalizing disk with
  | nil => simp at member
  | cons id ids induction =>
      rw [List.filterMap_cons] at member
      rw [deleteSources]
      cases located : l.mangaDir id with
      | error refused =>
          rw [located] at member
          exact induction member disk
      | ok other =>
          rw [located] at member
          rcases List.mem_cons.mp member with rfl | later
          · apply find_deleteSources_of_none
            rw [FileTree.find_removeAll proper, if_pos below]
          · exact induction later _

theorem sameChapters_deleteSources (ids : List String)
    (apart : ∀ dir ∈ ids.filterMap fun id => (l.mangaDir id).toOption, Apart keep dir) :
    SameChapters keep disk (deleteSources l disk ids).1 := by
  induction ids generalizing disk with
  | nil => exact fun _ _ => rfl
  | cons id ids induction =>
      rw [deleteSources]
      rw [List.filterMap_cons] at apart
      cases located : l.mangaDir id with
      | error refused =>
          rw [located] at apart
          exact induction apart
      | ok dir =>
          rw [located] at apart
          exact (sameChapters_removeAll (apart dir List.mem_cons_self)).trans
            (induction fun other later => apart other (List.mem_cons_of_mem _ later))

theorem find_removeCovers {exts : List String}
    (removed : Layout.removeCovers keep disk exts = some disk') (q : Path) :
    disk'.find q = if q ∈ exts.map (fun ext => keep ++ ["cover" ++ ext]) then none
      else disk.find q := by
  induction exts generalizing disk with
  | nil =>
      rw [Layout.removeCovers, Option.some.injEq] at removed
      simp [removed]
  | cons ext exts induction =>
      rw [Layout.removeCovers] at removed
      rcases Option.bind_eq_some_iff.mp removed with ⟨middle, first, rest⟩
      rw [induction rest, FileTree.find_remove (by simp) first, List.map_cons]
      by_cases here : q = keep ++ ["cover" ++ ext] <;> simp [here]

/-- Replacing the cover, which is a file. -/
theorem sameChapters_replaceCover (keepLocated : l.mangaDir keepID = .ok keep)
    (sourceLocated : l.mangaDir sourceID = .ok source) (apart : Apart keep source)
    (covers : ∀ ext ∈ Layout.coverExts, disk.find (source ++ ["cover" ++ ext]) ≠ some .directory)
    (replaced : l.replaceCoverFromSource keepID sourceID disk = some disk') :
    SameChapters keep disk disk' := by
  simp only [Layout.replaceCoverFromSource, keepLocated, sourceLocated] at replaced
  split at replaced
  · rw [Option.some.injEq] at replaced
    subst replaced
    exact fun _ _ => rfl
  · rename_i cover found
    rcases Option.bind_eq_some_iff.mp replaced with ⟨middle, removed, moved⟩
    rcases List.mem_map.mp (List.mem_of_find?_eq_some found) with ⟨ext, member, rfl⟩
    have nothingBelow : ∀ {t : Disk} {path rest : Path}, t.find path ≠ some .directory →
        rest ≠ [] → t.find (path ++ rest) = none := by
      intro t path rest noDirectory proper
      cases inner : t.find (path ++ rest) with
      | none => rfl
      | some node => exact absurd (FileTree.ancestor proper inner) noDirectory
    have chaptersStay : ∀ p c rest, middle.find (keep ++ [p, c] ++ rest) =
        disk.find (keep ++ [p, c] ++ rest) := by
      intro p c rest
      rw [find_removeCovers removed, if_neg]
      intro isCover
      rcases List.mem_map.mp isCover with ⟨ext, _, same⟩
      exact chapter_ne_upper keep rest p c _ same.symm
    intro p c
    funext rest
    rw [FileTree.subtree, FileTree.find_rename moved, FileTree.subtree]
    by_cases place : keep ++ ["cover" ++ ext] <+: keep ++ [p, c] ++ rest
    · -- a cover has taken the place, and there was nothing in it
      have inner : keep ++ [p, c] ++ rest = keep ++ ["cover" ++ ext] ++ c :: rest := by
        rw [List.append_assoc] at place
        have head := (List.prefix_append_right_inj keep).mp place
        simp only [List.cons_append, List.nil_append, List.cons_prefix_cons] at head
        simp [head.1]
      rw [if_pos place, ← chaptersStay, inner, List.drop_left]
      have vacated : middle.find (keep ++ ["cover" ++ ext]) = none := by
        rw [find_removeCovers removed, if_pos (List.mem_map_of_mem member)]
      have sourceStays : middle.find (source ++ ["cover" ++ ext]) =
          disk.find (source ++ ["cover" ++ ext]) := by
        rw [find_removeCovers removed, if_neg]
        intro isCover
        rcases List.mem_map.mp isCover with ⟨ext', _, same⟩
        exact apart.append ["cover" ++ ext'] ["cover" ++ ext] (same ▸ List.prefix_refl _)
      rw [nothingBelow (by rw [sourceStays]; exact covers ext member) (by simp),
        nothingBelow (by simp [vacated]) (by simp)]
    · rw [if_neg place, if_neg, chaptersStay]
      rw [List.append_assoc]
      exact apart.symm.append _ _

end Kiyomi.Api
