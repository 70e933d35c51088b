import Kiyomi.Library.MergeMoves

namespace Kiyomi.Library

open Go

/-! # What `MergeChapters` moves

It looks up every directory two levels below the source under its trimmed name, and
moves what it finds there. -/

namespace Layout

variable (l : Layout)

/-- The names that a provider and a chapter directory are looked up under. -/
def target (p c : String) : Option (String × String) :=
  if l.sanitizeID p = "" ∨ l.sanitizeID c = "" then none
  else some (l.sanitizeID p, l.sanitizeID c)

/-- What a run over these directories moves: a name that the library refuses ends it. -/
def targets : List (String × String) → List (String × String)
  | [] => []
  | (p, c) :: rest =>
      match l.target p c with
      | none => []
      | some moved => moved :: targets rest

/-- The directories of one provider, as pairs of names. -/
def chapterDirs (before : Disk) (source : Path) (p : String) : List (String × String) :=
  ((subdirectories before (source ++ [p])).getD []).map fun c => (p, c)

/-- What `MergeChapters` moves out of a source. -/
def attempts (before : Disk) (source : Path) : List (String × String) :=
  l.targets ((((subdirectories before source).getD []).filter fun p => !hasPrefix p ".").flatMap
    (chapterDirs before source))

variable {l}

theorem target_of_plain {p c : String} (provider : l.plain p = true) (chapter : l.plain c = true) :
    l.target p c = some (p, c) := by
  have notEmpty : l.sanitizeID p ≠ "" ∧ l.sanitizeID c ≠ "" := by
    constructor <;> apply sanitizeID_ne_empty
    · simpa [spelled_of_plain provider] using ((Bool.and_eq_true _ _).mp provider).1
    · simpa [spelled_of_plain chapter] using ((Bool.and_eq_true _ _).mp chapter).1
  simp only [plain, Bool.and_eq_true, beq_iff_eq] at provider chapter
  rw [target, if_neg (by simp [notEmpty]), provider.2, chapter.2]

theorem providerChapterDir_of_target {mangaID p c p' c' : String} {mDir : Path}
    (located : l.mangaDir mangaID = .ok mDir) (moves : l.target p c = some (p', c'))
    (provider : l.plain p' = true) (chapter : l.plain c' = true) :
    l.providerChapterDir mangaID p c = .ok (mDir ++ [p', c']) := by
  rw [target] at moves
  split at moves
  · contradiction
  · simp only [Option.some.injEq, Prod.mk.injEq] at moves
    rcases moves with ⟨rfl, rfl⟩
    have single : ∀ {name : String}, l.plain (l.sanitizeID name) = true →
        l.spelled name = [l.sanitizeID name] ∧ isName (l.sanitizeID name) = true := by
      intro name plain
      have valid := ((Bool.and_eq_true _ _).mp plain).1
      exact ⟨split_of_isName valid, valid⟩
    have left := single provider
    have right := single chapter
    rw [providerChapterDir_of_names located (by simp [left]) (by simp [right]), left.1, right.1]
    rfl

theorem providerChapterDir_of_refused {mangaID p c : String} {mDir : Path}
    (located : l.mangaDir mangaID = .ok mDir) (refused : l.target p c = none) :
    l.providerChapterDir mangaID p c = .error .emptyChapterPath := by
  rw [target] at refused
  split at refused
  · rename_i empty
    simp only [providerChapterDir, located, empty, if_true]
  · contradiction

theorem mem_targets_append {left right : List (String × String)} {moved : String × String} :
    moved ∈ l.targets (left ++ right) ↔ moved ∈ l.targets left ∨
      (∀ looked ∈ left, (l.target looked.1 looked.2).isSome) ∧ moved ∈ l.targets right := by
  induction left with
  | nil => simp [targets]
  | cons looked left induction =>
      rcases looked with ⟨p, c⟩
      cases first : l.target p c with
      | none => simp [targets, first]
      | some other => simp [targets, first, induction, or_assoc]

/-- Of a listing that lost entries with plain names, the rest moves as before. -/
theorem mem_targets_filter {looked : List (String × String)} {stays : String × String → Bool}
    (plain : ∀ r ∈ looked, stays r = false → l.target r.1 r.2 = some r)
    {moved : String × String} (stayed : stays moved = true) :
    moved ∈ l.targets (looked.filter stays) ↔ moved ∈ l.targets looked := by
  induction looked with
  | nil => simp
  | cons r looked induction =>
      have later := induction fun r member => plain r (List.mem_cons_of_mem _ member)
      by_cases still : stays r = true
      · rcases r with ⟨p, c⟩
        rw [List.filter_cons_of_pos still]
        cases first : l.target p c with
        | none => simp [targets, first]
        | some other => simp [targets, first, later]
      · have first := plain r List.mem_cons_self (by simpa using still)
        have different : moved ≠ r := fun same => still (same ▸ stayed)
        rcases r with ⟨p, c⟩
        rw [List.filter_cons_of_neg still, later]
        simp [targets, first, different]

/-! ## The loops -/

variable {keep source : Path} {sources : List Path} {before disk disk' : Disk}
  {keepID sourceID : String} {refused : Option PathError}

/-- The specification of one move. -/
theorem mergeSingleChapter_spec (keepLocated : l.mangaDir keepID = .ok keep)
    (sourceLocated : l.mangaDir sourceID = .ok source) (separate : Separate keep sources)
    (member : source ∈ sources) (moving : Moving l keep sources before disk) {p c : String}
    (plain : ∀ p' c', l.target p c = some (p', c') → l.plain p' = true ∧ l.plain c' = true)
    (merged : l.mergeSingleChapter keepID sourceID disk p c = some (disk', refused)) :
    Moving l keep sources before disk' ∧
      (Took keep source disk disk' fun p' c' => l.target p c = some (p', c')) ∧
      (refused = none ↔ (l.target p c).isSome) := by
  cases moves : l.target p c with
  | none =>
      simp only [mergeSingleChapter, providerChapterDir_of_refused sourceLocated moves,
        Option.some.injEq, Prod.mk.injEq] at merged
      rcases merged with ⟨rfl, rfl⟩
      exact ⟨moving, (Took.refl keep source disk).congr (by simp), by simp⟩
  | some moved =>
      rcases moved with ⟨p', c'⟩
      have names := plain p' c' moves
      have untouched : (disk.find (keep ++ [p', c']) ≠ none ∨ disk.find (source ++ [p', c']) = none) →
          Took keep source disk disk fun p'' c'' => some (p', c') = some (p'', c'') := by
        intro idle
        apply (Took.refl keep source disk).congr
        intro p'' c'' lacks has
        refine ⟨False.elim, fun attempted => ?_⟩
        simp only [Option.some.injEq, Prod.mk.injEq] at attempted
        rcases attempted with ⟨rfl, rfl⟩
        rcases idle with present | absent
        · exact present lacks
        · exact has absent
      simp only [mergeSingleChapter,
        providerChapterDir_of_target sourceLocated moves names.1 names.2,
        providerChapterDir_of_target keepLocated moves names.1 names.2] at merged
      split at merged
      · rename_i missing
        simp only [Option.some.injEq, Prod.mk.injEq] at merged
        rcases merged with ⟨rfl, rfl⟩
        simp only [notExist, Bool.and_eq_true, decide_eq_true_eq] at missing
        exact ⟨moving, untouched (.inr missing.1), by simp⟩
      · split at merged
        · rename_i present
          simp only [Option.some.injEq, Prod.mk.injEq] at merged
          rcases merged with ⟨rfl, rfl⟩
          exact ⟨moving, untouched (.inl (Option.isSome_iff_ne_none.mp present)), by simp⟩
        · rename_i lacking
          rw [Option.not_isSome_iff_eq_none] at lacking
          rcases Option.bind_eq_some_iff.mp merged with ⟨middle, made, merged⟩
          rcases Option.map_eq_some_iff.mp merged with ⟨after, moved, result⟩
          simp only [Prod.mk.injEq] at result
          rcases result with ⟨rfl, rfl⟩
          have above : (keep ++ [p', c']).dropLast = keep ++ [p'] := by simp
          rw [above] at made
          have apart := separate.fromKeep source member
          have present : disk.find (source ++ [p', c']) ≠ none := by
            have original := FileTree.rename_source moved
            rw [FileTree.find_mkdirAll made, if_neg (apart.symm.append _ _)] at original
            exact original
          refine ⟨moved_moving separate member moving names.1 names.2 present made moved,
            (moved_took apart lacking made moved).congr ?_, by simp⟩
          intro p'' c'' _ _
          simp only [Option.some.injEq, Prod.mk.injEq, eq_comm]

/-- The directories below a source that `MergeChapters` looks at have names that the
library refuses or trims to plain ones. -/
structure TrimmedNames (l : Layout) (source : Path) (before : Disk) : Prop where
  provider : ∀ p, before.find (source ++ [p]) = some .directory → hasPrefix p "." = false →
    isName p = true
  target : ∀ p c, before.find (source ++ [p, c]) = some .directory → hasPrefix p "." = false →
    ∀ p' c', l.target p c = some (p', c') → l.plain p' = true ∧ l.plain c' = true
  cover : ∀ ext ∈ coverExts, before.find (source ++ ["cover" ++ ext]) ≠ some .directory

theorem mergeProvider_spec (keepLocated : l.mangaDir keepID = .ok keep)
    (sourceLocated : l.mangaDir sourceID = .ok source) (separate : Separate keep sources)
    (member : source ∈ sources) {p : String} (chapterIDs : List String)
    (plain : ∀ c ∈ chapterIDs, ∀ p' c', l.target p c = some (p', c') →
      l.plain p' = true ∧ l.plain c' = true)
    (moving : Moving l keep sources before disk)
    (merged : l.mergeProvider keepID sourceID p disk chapterIDs = some (disk', refused)) :
    Moving l keep sources before disk' ∧
      (Took keep source disk disk' fun p' c' =>
        (p', c') ∈ l.targets (chapterIDs.map fun c => (p, c))) ∧
      (refused = none ↔ ∀ c ∈ chapterIDs, (l.target p c).isSome) := by
  induction chapterIDs generalizing disk with
  | nil =>
      simp only [mergeProvider, Option.some.injEq, Prod.mk.injEq] at merged
      rcases merged with ⟨rfl, rfl⟩
      refine ⟨moving, (Took.refl keep source disk).congr ?_, ?_⟩ <;> simp [targets]
  | cons c chapterIDs induction =>
      cases first : l.mergeSingleChapter keepID sourceID disk p c with
      | none => simp [mergeProvider, first] at merged
      | some result =>
          rcases result with ⟨middle, stopped⟩
          rcases mergeSingleChapter_spec keepLocated sourceLocated separate member moving
            (plain c List.mem_cons_self) first with ⟨movingMiddle, took, stops⟩
          cases moves : l.target p c with
          | none =>
              rw [moves] at stops took
              cases stopped with
              | none => simp at stops
              | some error =>
                  simp only [mergeProvider, first, Option.some.injEq, Prod.mk.injEq] at merged
                  rcases merged with ⟨rfl, rfl⟩
                  refine ⟨movingMiddle, took.congr ?_, ?_⟩ <;> simp [targets, moves]
          | some moved =>
              rw [moves] at stops took
              cases stops.mpr rfl
              simp only [mergeProvider, first] at merged
              rcases induction (fun c later => plain c (List.mem_cons_of_mem _ later)) movingMiddle
                merged with ⟨movingLast, later, ends⟩
              refine ⟨movingLast, (took.trans member moving movingMiddle later).congr ?_, ?_⟩
              · intro p' c' _ _
                simp only [List.map_cons, targets, moves, List.mem_cons, Option.some.injEq]
                rw [eq_comm]
              · simp [ends, moves]

theorem subdirectories_sorted {path : Path} {names : List String}
    (listed : subdirectories disk path = some names) : names.Pairwise (· < ·) := by
  rcases Option.map_eq_some_iff.mp listed with ⟨entries, read, rfl⟩
  rw [FileTree.readDir] at read
  split at read
  · cases read
    exact (Entries.names_sorted _ _).filter _
  · contradiction

theorem mem_subdirectories {path : Path} {names : List String}
    (listed : subdirectories disk path = some names) {name : String} :
    name ∈ names ↔ disk.find (path ++ [name]) = some .directory := by
  rcases Option.map_eq_some_iff.mp listed with ⟨entries, read, rfl⟩
  rw [List.mem_filter, FileTree.mem_readDir read, decide_eq_true_eq]
  exact ⟨fun found => found.2, fun found => ⟨⟨_, found⟩, found⟩⟩

theorem subdirectories_isSome {path : Path} (found : disk.find path = some .directory) :
    ∃ names, subdirectories disk path = some names := by
  rcases Option.isSome_iff_exists.mp (FileTree.readDir_isSome.mpr found) with ⟨entries, read⟩
  exact ⟨_, by rw [subdirectories, read, Option.map_some]⟩

/-- A listing of a directory that has lost entries. -/
theorem subdirectories_eq_filter {path : Path} {names all : List String} {stays : String → Bool}
    (listed : subdirectories disk path = some names)
    (listedBefore : subdirectories before path = some all)
    (same : ∀ name, disk.find (path ++ [name]) = some .directory ↔
      before.find (path ++ [name]) = some .directory ∧ stays name = true) :
    names = all.filter stays := by
  apply (subdirectories_sorted listed).eq_of_mem_iff ((subdirectories_sorted listedBefore).filter _)
  intro name
  rw [mem_subdirectories listed, List.mem_filter, mem_subdirectories listedBefore, same]

theorem notExist_of_found {path : Path} {node : Node Document}
    (found : disk.find path = some node) : notExist disk path = false := by
  simp [notExist, found]

/-- The inner loop in terms of the disk before the merge. -/
theorem mergeProvider_before (keepLocated : l.mangaDir keepID = .ok keep)
    (sourceLocated : l.mangaDir sourceID = .ok source) (separate : Separate keep sources)
    (member : source ∈ sources) (names : TrimmedNames l source before) {p : String}
    (isDirectory : before.find (source ++ [p]) = some .directory)
    (shown : hasPrefix p "." = false) (moving : Moving l keep sources before disk)
    {chapterIDs : List String} (listed : subdirectories disk (source ++ [p]) = some chapterIDs)
    (merged : l.mergeProvider keepID sourceID p disk chapterIDs = some (disk', refused)) :
    Moving l keep sources before disk' ∧
      (Took keep source disk disk' fun p' c' => (p', c') ∈ l.targets (chapterDirs before source p)) ∧
      (refused = none ↔ ∀ looked ∈ chapterDirs before source p,
        (l.target looked.1 looked.2).isSome) := by
  rcases subdirectories_isSome isDirectory with ⟨all, listedBefore⟩
  let stays := fun looked : String × String => (disk.find (source ++ [looked.1, looked.2])).isSome
  have below : ∀ c, source ++ [p] ++ [c] = source ++ [p, c] := by simp
  have remaining : chapterIDs = all.filter fun c => stays (p, c) := by
    apply subdirectories_eq_filter listed listedBefore
    intro c
    rw [below]
    rcases moving.lower source member p c with moved | same
    · simp [stays, moved.1]
    · simp only [stays, same]
      constructor
      · intro found
        simp [found]
      · exact fun found => found.1
  have looked : chapterDirs before source p = all.map fun c => (p, c) := by
    rw [chapterDirs, listedBefore, Option.getD_some]
  have lost : ∀ r ∈ chapterDirs before source p, stays r = false → l.target r.1 r.2 = some r := by
    intro r inListing gone
    rw [looked, List.mem_map] at inListing
    rcases inListing with ⟨c, inListing, rfl⟩
    have found := (mem_subdirectories listedBefore).mp inListing
    rw [below] at found
    rcases moving.lower source member p c with moved | same
    · exact target_of_plain moved.2.1 moved.2.2
    · simp [stays, same, found] at gone
  have pairs : (chapterIDs.map fun c => (p, c)) = (chapterDirs before source p).filter stays := by
    rw [remaining, looked, List.filter_map]
    rfl
  have plain : ∀ c ∈ chapterIDs, ∀ p' c', l.target p c = some (p', c') →
      l.plain p' = true ∧ l.plain c' = true := by
    intro c inListing
    rw [remaining, List.mem_filter, mem_subdirectories listedBefore, below] at inListing
    exact names.target p c inListing.1 shown
  rcases mergeProvider_spec keepLocated sourceLocated separate member chapterIDs plain moving merged
    with ⟨movingLast, took, ends⟩
  refine ⟨movingLast, took.congr ?_, ends.trans ?_⟩
  · intro p' c' _ has
    rw [pairs, mem_targets_filter lost (Option.isSome_iff_ne_none.mpr has)]
  · constructor
    · intro remainder r inListing
      by_cases still : stays r = true
      · have inRest : r ∈ chapterIDs.map fun c => (p, c) := by
          rw [pairs, List.mem_filter]
          exact ⟨inListing, still⟩
        rcases List.mem_map.mp inRest with ⟨c, listedNow, rfl⟩
        exact remainder c listedNow
      · rw [lost r inListing (by simpa using still)]
        rfl
    · intro every c inRest
      have inPairs : (p, c) ∈ chapterIDs.map fun c => (p, c) := List.mem_map_of_mem inRest
      rw [pairs, List.mem_filter] at inPairs
      exact every _ inPairs.1

theorem mergeProviders_spec (keepLocated : l.mangaDir keepID = .ok keep)
    (sourceLocated : l.mangaDir sourceID = .ok source) (separate : Separate keep sources)
    (member : source ∈ sources) (names : TrimmedNames l source before) (providerIDs : List String)
    (directories : ∀ p ∈ providerIDs, before.find (source ++ [p]) = some .directory)
    (moving : Moving l keep sources before disk)
    (merged : l.mergeProviders keepID sourceID source disk providerIDs = some (disk', refused)) :
    Moving l keep sources before disk' ∧
      Took keep source disk disk' fun p c => (p, c) ∈ l.targets
        ((providerIDs.filter fun p => !hasPrefix p ".").flatMap (chapterDirs before source)) := by
  induction providerIDs generalizing disk with
  | nil =>
      simp only [mergeProviders, Option.some.injEq, Prod.mk.injEq] at merged
      rcases merged with ⟨rfl, rfl⟩
      exact ⟨moving, (Took.refl keep source disk).congr (by simp [targets])⟩
  | cons p providerIDs induction =>
      have later := fun q member => directories q (List.mem_cons_of_mem p member)
      rw [mergeProviders] at merged
      split at merged
      · rename_i hidden
        simpa [List.filter_cons, hidden] using induction later moving merged
      · rename_i shown
        rw [Bool.not_eq_true] at shown
        have isDirectory := directories p List.mem_cons_self
        have stillDirectory : disk.find (source ++ [p]) = some .directory :=
          (moving.upper source member [p] (by simp)).trans isDirectory
        simp only [join_name (names.provider p isDirectory shown),
          notExist_of_found stillDirectory, Bool.false_eq_true, if_false] at merged
        simp only [List.filter_cons, shown, Bool.not_false, if_true, List.flatMap_cons,
          mem_targets_append]
        split at merged
        · simp at merged
        · rename_i chapterIDs listed
          cases first : l.mergeProvider keepID sourceID p disk chapterIDs with
          | none => simp [first] at merged
          | some result =>
              rcases result with ⟨middle, stopped⟩
              rcases mergeProvider_before keepLocated sourceLocated separate member names
                isDirectory shown moving listed first with ⟨movingMiddle, took, ends⟩
              cases stopped with
              | some error =>
                  simp only [first, Option.some.injEq, Prod.mk.injEq] at merged
                  rcases merged with ⟨rfl, rfl⟩
                  have stops := mt ends.mpr (by simp)
                  refine ⟨movingMiddle, took.congr ?_⟩
                  intro p' c' _ _
                  rw [or_iff_left fun attempted => stops attempted.1]
              | none =>
                  have goesOn := ends.mp rfl
                  simp only [first] at merged
                  rcases induction later movingMiddle merged with ⟨movingLast, tookRest⟩
                  refine ⟨movingLast, (took.trans member moving movingMiddle tookRest).congr ?_⟩
                  intro p' c' _ _
                  rw [and_iff_right goesOn]

/-- The specification of `MergeChapters`. -/
theorem mergeChapters_spec (keepLocated : l.mangaDir keepID = .ok keep)
    (sourceLocated : l.mangaDir sourceID = .ok source) (separate : Separate keep sources)
    (member : source ∈ sources) (names : TrimmedNames l source before)
    (isDirectory : before.find source = some .directory)
    (moving : Moving l keep sources before disk)
    (merged : l.mergeChapters keepID sourceID disk = some (disk', refused)) :
    Moving l keep sources before disk' ∧
      Took keep source disk disk' fun p c => (p, c) ∈ l.attempts before source := by
  have upper := moving.upper source member
  have still : disk.find source = some .directory := by
    have same := upper [] (by simp)
    rwa [List.append_nil, isDirectory] at same
  simp only [mergeChapters, sourceLocated, notExist_of_found still, Bool.false_eq_true,
    if_false] at merged
  split at merged
  · simp at merged
  · rename_i providerIDs listed
    rcases subdirectories_isSome isDirectory with ⟨all, listedBefore⟩
    have same : providerIDs = all.filter fun _ => true := by
      apply subdirectories_eq_filter listed listedBefore
      intro p
      rw [upper [p] (by simp), and_iff_left rfl]
    rw [List.filter_true] at same
    have directories : ∀ p ∈ providerIDs, before.find (source ++ [p]) = some .directory := by
      intro p inListing
      rwa [same, mem_subdirectories listedBefore] at inListing
    rw [attempts, listedBefore, Option.getD_some, ← same]
    exact mergeProviders_spec keepLocated sourceLocated separate member names providerIDs
      directories moving merged

end Layout

end Kiyomi.Library
