import Kiyomi.Api.MergeSteps
import Kiyomi.Library.MergeChapters

namespace Kiyomi.Api

open Go Library

/-! # What a merge keeps -/

/-- A provider id and a chapter id that name, below every manga, the same chapter
directory of the same provider directory. A chapter may lie deeper. -/
structure ChapterName (l : Layout) where
  providerID : String
  chapterID : String
  provider : String
  top : String
  rest : Path
  located : ∀ mangaID dir, l.mangaDir mangaID = .ok dir →
    l.providerChapterDir mangaID providerID chapterID = .ok (dir ++ [provider, top] ++ rest)

namespace ChapterName

variable {l : Layout}

/-- The path from the manga directory. -/
def path (n : ChapterName l) : Path := [n.provider, n.top] ++ n.rest

theorem top_of_directory (n : ChapterName l) {disk : Disk} {dir : Path}
    (found : disk.find (dir ++ n.path) = some .directory) :
    disk.find (dir ++ [n.provider, n.top]) = some .directory := by
  rw [path, ← List.append_assoc] at found
  by_cases last : n.rest = []
  · rwa [last, List.append_nil] at found
  · exact FileTree.ancestor last found

theorem subtree_of_top (n : ChapterName l) {disk disk' : Disk} {left right : Path}
    (same : disk'.subtree (left ++ [n.provider, n.top]) =
      disk.subtree (right ++ [n.provider, n.top])) :
    disk'.subtree (left ++ n.path) = disk.subtree (right ++ n.path) := by
  rw [path, ← List.append_assoc, ← List.append_assoc, FileTree.subtree_append disk', same,
    FileTree.subtree_append disk _ n.rest]

end ChapterName

namespace MergeRequest

variable (l : Layout) (body : MergeRequest)

def keepDir : Path := (l.mangaDir body.keepMangaID).toOption.getD []

def sourceDirs : List Path := body.sourceMangaIDs.filterMap fun id => (l.mangaDir id).toOption

end MergeRequest

/-- The first source that has a chapter. -/
def FirstWith (before : Disk) (sources : List Path) (path first : Path) : Prop :=
  ∃ earlier later, sources = earlier ++ first :: later ∧
    (∀ other ∈ earlier, ¬ readable before (other ++ path)) ∧ readable before (first ++ path)

/-- No chapter is lost, and no manga but the sources. -/
structure Lossless (l : Layout) (body : MergeRequest) (before : Disk) (result : Merged) : Prop where
  kept : ∀ n : ChapterName l, before.find (body.keepDir l ++ n.path) = some .directory →
    result.disk.subtree (body.keepDir l ++ n.path) = before.subtree (body.keepDir l ++ n.path)
  carried : ∀ (n : ChapterName l) (first : Path), ¬ readable before (body.keepDir l ++ n.path) →
    FirstWith before (body.sourceDirs l) n.path first →
    result.disk.subtree (body.keepDir l ++ n.path) = before.subtree (first ++ n.path)
  deletions : ∀ gone ∈ result.deleted, ∀ id dir, l.mangaDir id = .ok dir →
    (l.getManga before id).isSome → gone <+: dir → dir ∈ body.sourceDirs l ∧ dir ≠ body.keepDir l

/-- The manga whose directory of these names the kept manga has afterwards. -/
def owner (l : Layout) (before : Disk) (keep : Path) (sources : List Path) (p c : String) :
    Option Path :=
  if (before.find (keep ++ [p, c])).isSome then some keep
  else sources.find? fun source =>
    (before.find (source ++ [p, c])).isSome && (l.attempts before source).contains (p, c)

/-- Every manga at or below a source directory is a source and not the one to keep. -/
def DeletesOnlySources (l : Layout) (body : MergeRequest) (before : Disk) : Prop :=
  ∀ source ∈ body.sourceDirs l, ∀ id dir, l.mangaDir id = .ok dir →
    (l.getManga before id).isSome → source <+: dir → dir ∈ body.sourceDirs l ∧ dir ≠ body.keepDir l

/-- No chapter directory of the kept manga is at or below a source directory. -/
def SparesChapters (l : Layout) (body : MergeRequest) (before : Disk) : Prop :=
  ∀ source ∈ body.sourceDirs l, ∀ n : ChapterName l,
    before.find (body.keepDir l ++ n.path) = some .directory → ¬ source <+: body.keepDir l ++ n.path

/-- Every chapter that the kept manga lacks comes along with its directory: the manga that
gives the directory has the files of the first source with the chapter. -/
def MovesChapters (l : Layout) (body : MergeRequest) (before : Disk) : Prop :=
  ∀ (n : ChapterName l) (first : Path), ¬ readable before (body.keepDir l ++ n.path) →
    FirstWith before (body.sourceDirs l) n.path first →
    ∃ manga, owner l before (body.keepDir l) (body.sourceDirs l) n.provider n.top = some manga ∧
      before.subtree (manga ++ n.path) = before.subtree (first ++ n.path)

/-! ## The moves of all sources -/

variable {l : Layout} {body : MergeRequest} {keep source : Path} {sources : List Path}
  {before disk disk' : Disk} {keepID sourceID : String} {result : Merged}

/-- The directories of the kept manga after the sources listed so far. -/
def Settled (l : Layout) (keep : Path) (sources : List Path) (before disk : Disk) : Prop :=
  ∀ p c,
    match owner l before keep sources p c with
    | some manga => disk.subtree (keep ++ [p, c]) = before.subtree (manga ++ [p, c])
    | none => disk.find (keep ++ [p, c]) = none

theorem settled_nil (l : Layout) (keep : Path) (before : Disk) :
    Settled l keep [] before before := by
  intro p c
  by_cases present : (before.find (keep ++ [p, c])).isSome = true
  · simp [owner, present]
  · have absent := present
    rw [Option.not_isSome_iff_eq_none] at absent
    simp [owner, absent]

theorem owner_present {p c : String} {manga : Path}
    (owned : owner l before keep sources p c = some manga) :
    before.find (manga ++ [p, c]) ≠ none := by
  rw [← Option.isSome_iff_ne_none]
  rw [owner] at owned
  split at owned
  · rename_i present
    cases owned
    exact present
  · have found := List.find?_some owned
    simp only [Bool.and_eq_true] at found
    exact found.1

theorem owner_append {p c : String} (owned : owner l before keep sources p c ≠ none) :
    owner l before keep (sources ++ [source]) p c = owner l before keep sources p c := by
  rw [owner] at owned ⊢
  rw [owner]
  split
  · rfl
  · rename_i absent
    rw [if_neg absent] at owned
    rw [List.find?_append]
    exact Option.or_of_isSome (Option.isSome_iff_ne_none.mpr owned)

theorem Settled.took {all : List Path} (settled : Settled l keep sources before disk)
    (moving : Moving l keep all before disk) (member : source ∈ all)
    (took : Took keep source disk disk' fun p c => (p, c) ∈ l.attempts before source) :
    Settled l keep (sources ++ [source]) before disk' := by
  intro p c
  have now := settled p c
  cases owned : owner l before keep sources p c with
  | some manga =>
      rw [owned] at now
      rw [owner_append (by simp [owned]), owned]
      have present : disk.find (keep ++ [p, c]) ≠ none := by
        rw [find_eq_of_subtree now]
        exact owner_present owned
      exact ((took p c).2 (.inl present)).trans now
  | none =>
      rw [owned] at now
      have same := moving.free p c now source member
      rw [owner] at owned ⊢
      split at owned
      · contradiction
      · rename_i absent
        rw [if_neg absent, List.find?_append, owned, Option.none_or]
        by_cases takes : (before.find (source ++ [p, c])).isSome = true ∧
            (p, c) ∈ l.attempts before source
        · have has : disk.find (source ++ [p, c]) ≠ none := by
            rw [find_eq_of_subtree same]
            exact Option.isSome_iff_ne_none.mp takes.1
          simp only [List.find?_cons, takes.1, List.contains_iff_mem.mpr takes.2, Bool.and_self]
          exact ((took p c).1 now takes.2 has).trans same
        · have skips : ((before.find (source ++ [p, c])).isSome &&
              (l.attempts before source).contains (p, c)) = false := by
            rw [Bool.eq_false_iff, Ne, Bool.and_eq_true, List.contains_iff_mem]
            exact takes
          simp only [List.find?_cons, skips, List.find?_nil]
          have stays : disk'.subtree (keep ++ [p, c]) = disk.subtree (keep ++ [p, c]) := by
            apply (took p c).2
            by_cases attempted : (p, c) ∈ l.attempts before source
            · right; right
              rw [find_eq_of_subtree same, ← Option.not_isSome_iff_eq_none]
              exact fun has => takes ⟨has, attempted⟩
            · exact .inr (.inl attempted)
          exact (find_eq_of_subtree stays).trans now

theorem mergeSources_spec (keepLocated : l.mangaDir keepID = .ok keep) {all : List Path}
    (separate : Separate keep all) (names : ∀ source ∈ all, l.TrimmedNames source before)
    (ids : List String) (located : ∀ id ∈ ids, ∃ source ∈ all, l.mangaDir id = .ok source ∧
      before.find source = some .directory)
    (settled : Settled l keep sources before disk) (moving : Moving l keep all before disk)
    (merged : mergeSources l keepID disk ids = some disk') :
    Settled l keep (sources ++ ids.filterMap fun id => (l.mangaDir id).toOption) before disk' ∧
      Moving l keep all before disk' := by
  induction ids generalizing sources disk with
  | nil =>
      rw [mergeSources, Option.some.injEq] at merged
      subst merged
      exact ⟨by simpa using settled, moving⟩
  | cons id ids induction =>
      rcases located id List.mem_cons_self with ⟨source, member, sourceLocated, isDirectory⟩
      rw [mergeSources] at merged
      rcases Option.bind_eq_some_iff.mp merged with ⟨⟨middle, refused⟩, first, merged⟩
      rcases Layout.mergeChapters_spec keepLocated sourceLocated separate member
        (names source member) isDirectory moving first with ⟨movingMiddle, took⟩
      have rest := induction (fun id later => located id (List.mem_cons_of_mem _ later))
        (settled.took moving member took) movingMiddle merged
      have dirs : (id :: ids).filterMap (fun id => (l.mangaDir id).toOption) =
          source :: ids.filterMap fun id => (l.mangaDir id).toOption :=
        List.filterMap_cons_some (by rw [sourceLocated]; rfl)
      rw [dirs]
      simpa using rest

theorem Settled.same (settled : Settled l keep sources before disk)
    (same : SameChapters keep disk disk') : Settled l keep sources before disk' := by
  intro p c
  have now := settled p c
  cases owned : owner l before keep sources p c with
  | some manga =>
      rw [owned] at now
      exact (same p c).trans now
  | none =>
      rw [owned] at now
      exact (find_eq_of_subtree (same p c)).trans now

/-! ## The whole merge -/

namespace MergeRequest

theorem keepDir_eq (located : l.mangaDir body.keepMangaID = .ok keep) : body.keepDir l = keep := by
  rw [keepDir, located]
  rfl

theorem mem_sourceDirs {dir : Path} :
    dir ∈ body.sourceDirs l ↔ ∃ id ∈ body.sourceMangaIDs, l.mangaDir id = .ok dir := by
  rw [sourceDirs, List.mem_filterMap]
  refine exists_congr fun id => and_congr_right fun _ => ?_
  cases l.mangaDir id <;> simp [Except.toOption]

end MergeRequest

theorem deleted_eq_sourceDirs (accepted : mergeLibraryManga l before body = some (.ok result)) :
    result.deleted = body.sourceDirs l := by
  rcases mergeLibraryManga_accepted accepted with ⟨_, _, _, _, _, _, performed⟩
  rcases performMerge_steps performed with ⟨_, _, _, _, _, deleted, _⟩
  rw [deleted, deleteSources_deleted, MergeRequest.sourceDirs]

/-- Afterwards the kept manga has the chapter directories of their owners. -/
theorem settled_of_accepted (accepted : mergeLibraryManga l before body = some (.ok result))
    (separate : Separate (body.keepDir l) (body.sourceDirs l))
    (names : ∀ source ∈ body.sourceDirs l, l.TrimmedNames source before) :
    Settled l (body.keepDir l) (body.sourceDirs l) before result.disk := by
  rcases mergeLibraryManga_accepted accepted with
    ⟨keepFound, sourcesFound, _, _, cover, fromSource, performed⟩
  rcases performMerge_steps performed with
    ⟨moved, covered, described, merged, replaced, _, savedMetadata, savedBindings⟩
  rcases located_of_getManga keepFound with ⟨keep, keepLocated, _⟩
  rw [MergeRequest.keepDir_eq keepLocated] at separate ⊢
  have located : ∀ id ∈ body.sourceMangaIDs, ∃ source ∈ body.sourceDirs l,
      l.mangaDir id = .ok source ∧ before.find source = some .directory := by
    intro id member
    rcases located_of_getManga (sourcesFound id member) with ⟨source, sourceLocated, isDirectory⟩
    exact ⟨source, MergeRequest.mem_sourceDirs.mpr ⟨id, member, sourceLocated⟩, sourceLocated,
      isDirectory⟩
  rcases mergeSources_spec keepLocated separate names body.sourceMangaIDs located
    (settled_nil l keep before) (Moving.refl l keep _ before) merged with ⟨settled, moving⟩
  rw [List.nil_append, ← MergeRequest.sourceDirs] at settled
  have coverSame : SameChapters keep moved covered := by
    cases cover with
    | none =>
        cases replaced
        exact fun _ _ => rfl
    | some srcID =>
        rcases located srcID (fromSource srcID rfl) with ⟨source, member, sourceLocated, _⟩
        apply sameChapters_replaceCover keepLocated sourceLocated (separate.fromKeep source member)
          ?_ replaced
        intro ext isExt
        rw [moving.upper source member _ (by simp)]
        exact (names source member).cover ext isExt
  exact (((settled.same coverSame).same (sameChapters_deleteSources _ separate.fromKeep)).same
    (sameChapters_saveMetadata keepLocated savedMetadata)).same
    (sameChapters_saveBindings keepLocated savedBindings)

theorem Settled.kept (settled : Settled l keep sources before disk) (n : ChapterName l)
    (found : before.find (keep ++ n.path) = some .directory) :
    disk.subtree (keep ++ n.path) = before.subtree (keep ++ n.path) := by
  have now := settled n.provider n.top
  rw [owner, if_pos (by simp [n.top_of_directory found])] at now
  exact n.subtree_of_top now

/-- A chapter has come along if and only if the owner of its directory has it. -/
theorem Settled.carried_iff (settled : Settled l keep sources before disk) (n : ChapterName l)
    {first : Path} (found : before.find (first ++ n.path) = some .directory) :
    disk.subtree (keep ++ n.path) = before.subtree (first ++ n.path) ↔
      ∃ manga, owner l before keep sources n.provider n.top = some manga ∧
        before.subtree (manga ++ n.path) = before.subtree (first ++ n.path) := by
  have now := settled n.provider n.top
  cases owned : owner l before keep sources n.provider n.top with
  | some manga =>
      rw [owned] at now
      simp [n.subtree_of_top now]
  | none =>
      rw [owned] at now
      simp only [reduceCtorEq, false_and, exists_false, iff_false]
      intro same
      have there := n.top_of_directory ((find_eq_of_subtree same).trans found)
      rw [now] at there
      contradiction

/-- A chapter directory of the kept manga at or below a source is deleted with it. -/
theorem deleted_chapter (accepted : mergeLibraryManga l before body = some (.ok result))
    (member : source ∈ body.sourceDirs l) (n : ChapterName l)
    (below : source <+: body.keepDir l ++ n.path) :
    result.disk.find (body.keepDir l ++ n.path) = none := by
  rcases mergeLibraryManga_accepted accepted with ⟨keepFound, _, _, _, cover, _, performed⟩
  rcases performMerge_steps performed with ⟨_, covered, _, _, _, _, savedMetadata, savedBindings⟩
  rcases located_of_getManga keepFound with ⟨keep, keepLocated, _⟩
  rcases MergeRequest.mem_sourceDirs.mp member with ⟨_, _, sourceLocated⟩
  rw [MergeRequest.keepDir_eq keepLocated] at below ⊢
  have saved := (sameChapters_saveMetadata keepLocated savedMetadata).trans
    (sameChapters_saveBindings keepLocated savedBindings)
  rw [find_eq_of_subtree (n.subtree_of_top (saved n.provider n.top))]
  exact find_deleteSources member (Layout.mangaDir_ne_nil sourceLocated) below covered

def plainLayout : Layout where
  root := ["library"]
  parseURL := fun id => some ⟨"", "", id⟩
  toLower := id

def abcBindings : MangaBindings := ⟨[⟨"mangadex", "1", "Abc"⟩], some ⟨"mangadex", "1", "", "", Time.zero⟩⟩

/-- The manga `abc` without chapters and the manga `def` with one. -/
def twoManga : Disk := FileTree.ofEntries
  [(["library"], .directory),
   (["library", "abc"], .directory),
   (["library", "abc", "metadata.json"], .file (.metadata MangaMetadata.zero)),
   (["library", "abc", "bindings.json"], .file (.bindings abcBindings)),
   (["library", "def"], .directory),
   (["library", "def", "metadata.json"], .file (.metadata MangaMetadata.zero)),
   (["library", "def", "local"], .directory),
   (["library", "def", "local", "1"], .directory),
   (["library", "def", "local", "1", "meta.json"], .file (.chapter ChapterMeta.zero))]
  (by decide +kernel)

def mergeInto (keepID sourceID : String) : MergeRequest := ⟨keepID, [sourceID], none, []⟩

theorem directory_of_def {names : Path}
    (found : twoManga.find (["library", "def"] ++ names) = some .directory) :
    names = [] ∨ names = ["local"] ∨ names = ["local", "1"] := by
  have listed := Entries.mem_of_lookup (found : List.lookup _ _ = _)
  simpa [twoManga, FileTree.ofEntries] using listed

theorem trimmedNames_def : plainLayout.TrimmedNames ["library", "def"] twoManga where
  provider := by
    intro p found _
    have names := directory_of_def found
    simp only [List.cons_ne_nil, List.cons.injEq, and_true, false_or, reduceCtorEq, and_false,
      or_false] at names
    rw [names]
    rfl
  target := by
    intro p c found _ p' c' moves
    have names := directory_of_def found
    simp only [List.cons_ne_nil, List.cons.injEq, and_true, false_or, and_false] at names
    rcases names with ⟨rfl, rfl⟩
    have same : plainLayout.target "local" "1" = some ("local", "1") := by decide +kernel
    rw [same] at moves
    cases moves
    decide +kernel
  cover := by
    intro ext isExt found
    have names := directory_of_def found
    revert ext
    decide +kernel

theorem accepted_of_deleted {deleted : List Path}
    (observed : ((mergeLibraryManga l before body).bind Except.toOption).map Merged.deleted =
      some deleted) :
    ∃ result, mergeLibraryManga l before body = some (.ok result) ∧ result.deleted = deleted := by
  rcases Option.map_eq_some_iff.mp observed with ⟨result, accepted, deletes⟩
  rcases Option.bind_eq_some_iff.mp accepted with ⟨answer, answered, ok⟩
  cases answer with
  | error refused => simp [Except.toOption] at ok
  | ok merged =>
      simp only [Except.toOption, Option.some.injEq] at ok
      exact ⟨result, ok ▸ answered, deletes⟩

end Kiyomi.Api
