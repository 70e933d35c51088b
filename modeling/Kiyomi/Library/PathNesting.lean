import Kiyomi.Library.Containment

namespace Kiyomi.Library

open Go

/-! # Directories inside one another

An id may have slashes and dots in it, so the directory of one can lie in that of another. -/

/-- Where a path of the library is, seen from a working directory. -/
def locate (cwd : Path) (path : String) : Path :=
  let p := lexical path
  if p.rooted then p.names else cwd.take (cwd.length - p.ups) ++ p.names

/-- Two directories of which neither is or holds the other; to remove one leaves the other. -/
structure SeparateDirs (dir other : String) : Prop where
  distinct : dir ≠ other
  notBelow : ¬StrictlyBelow dir other
  notAbove : ¬StrictlyBelow other dir
  keepsOther : ∀ cwd (disk : Disk) path, locate cwd other <+: path →
    (disk.removeAll (locate cwd dir)).find path = disk.find path
  keepsDir : ∀ cwd (disk : Disk) path, locate cwd dir <+: path →
    (disk.removeAll (locate cwd other)).find path = disk.find path

section

variable {p : Lexical} {first second : List String}

theorem walk_injective (firstValid : ∀ name ∈ first, isName name = true)
    (secondValid : ∀ name ∈ second, isName name = true) (same : p.walk first = p.walk second) :
    first = second := by
  have names := congrArg Lexical.names same
  rw [(Lexical.walk_names firstValid p).2.2, (Lexical.walk_names secondValid p).2.2] at names
  exact List.append_cancel_left names

theorem strictlyBelow_walk (firstValid : ∀ name ∈ first, isName name = true)
    (secondValid : ∀ name ∈ second, isName name = true) :
    StrictlyBelow (p.walk first).text (p.walk second).text ↔ first <+: second ∧ first ≠ second := by
  rw [LibraryAt.strictlyBelow_iff]
  constructor
  · rintro ⟨below, nonempty, valid, same⟩
    have joined : ∀ name ∈ first ++ below, isName name = true := by
      intro name member
      rcases List.mem_append.mp member with left | right
      · exact firstValid name left
      · exact valid name right
    rw [← Lexical.walk_append] at same
    have parts := walk_injective secondValid joined (Lexical.text_injective same)
    rw [parts]
    exact ⟨List.prefix_append .., fun whole => nonempty (List.self_eq_append_right.mp whole)⟩
  · rintro ⟨⟨below, rfl⟩, differs⟩
    refine ⟨below, fun empty => differs (by rw [empty, List.append_nil]),
      fun name member => secondValid name (List.mem_append_right _ member), ?_⟩
    rw [Lexical.walk_append]

theorem locate_walk (valid : ∀ name ∈ first, isName name = true) (cwd : Path) :
    locate cwd (p.walk first).text = locate cwd p.text ++ first := by
  have walked := Lexical.walk_names valid p
  simp only [locate, lexical_text, walked.1, walked.2.1, walked.2.2]
  split
  · rfl
  · rw [List.append_assoc]

theorem keeps_of_apart (firstValid : ∀ name ∈ first, isName name = true)
    (secondValid : ∀ name ∈ second, isName name = true) (apart : ¬first <+: second ∧ ¬second <+: first)
    (cwd : Path) (disk : Disk) {path : Path}
    (inside : locate cwd (p.walk second).text <+: path) :
    (disk.removeAll (locate cwd (p.walk first).text)).find path = disk.find path := by
  rw [locate_walk secondValid] at inside
  rw [locate_walk firstValid]
  have proper : locate cwd p.text ++ first ≠ [] := by
    intro empty
    rw [(List.append_eq_nil_iff.mp empty).2] at apart
    exact apart.1 (List.nil_prefix)
  rw [FileTree.find_removeAll proper, if_neg]
  intro alsoInside
  rcases List.prefix_or_prefix_of_prefix alsoInside inside with comes | comes
  · exact apart.1 ((List.prefix_append_right_inj _).mp comes)
  · exact apart.2 ((List.prefix_append_right_inj _).mp comes)

/-- Directories below a common one are separate exactly if the names that lead to them are. -/
theorem separate_walk_iff (firstValid : ∀ name ∈ first, isName name = true)
    (secondValid : ∀ name ∈ second, isName name = true) :
    SeparateDirs (p.walk first).text (p.walk second).text ↔
      ¬first <+: second ∧ ¬second <+: first := by
  constructor
  · intro separate
    have distinct : first ≠ second := fun same => separate.distinct (by rw [same])
    exact ⟨fun comes => separate.notBelow ((strictlyBelow_walk firstValid secondValid).mpr
        ⟨comes, distinct⟩),
      fun comes => separate.notAbove ((strictlyBelow_walk secondValid firstValid).mpr
        ⟨comes, distinct.symm⟩)⟩
  · intro apart
    exact
      { distinct := fun same => apart.1 (walk_injective firstValid secondValid
          (Lexical.text_injective same) ▸ List.prefix_rfl)
        notBelow := fun below => apart.1 ((strictlyBelow_walk firstValid secondValid).mp below).1
        notAbove := fun below => apart.2 ((strictlyBelow_walk secondValid firstValid).mp below).1
        keepsOther := fun cwd disk _ inside =>
          keeps_of_apart firstValid secondValid apart cwd disk inside
        keepsDir := fun cwd disk _ inside =>
          keeps_of_apart secondValid firstValid apart.symm cwd disk inside }

end

namespace LibraryAt

/-- The names that a path has below the root: where it climbs out of the root, as many names
lead back. -/
def belowRoot (l : LibraryAt) (id : String) : List String :=
  let path := Lexical.relative (split id '/')
  path.names.drop (min path.ups (lexical l.root).names.length)

/-- Neither path is the other or goes on from it. -/
def Apart (l : LibraryAt) (id other : String) : Prop :=
  ¬l.belowRoot id <+: l.belowRoot other ∧ ¬l.belowRoot other <+: l.belowRoot id

variable {l : LibraryAt}

theorem belowRoot_eq {id : String} {below : List String}
    (valid : ∀ name ∈ below, isName name = true)
    (same : (lexical l.root).walk (split id '/') = (lexical l.root).walk below) :
    below = l.belowRoot id := by
  have names := congrArg Lexical.names same
  rw [Lexical.walk_eq_append, (Lexical.walk_names valid _).2.2] at names
  have dropped := congrArg (List.drop (lexical l.root).names.length) names
  have front : ((lexical l.root).names.take ((lexical l.root).names.length -
      (Lexical.relative (split id '/')).ups)).drop (lexical l.root).names.length = [] := by
    rw [List.drop_eq_nil_iff, List.length_take]
    omega
  rw [List.drop_left, Lexical.append, List.drop_append, front, List.nil_append,
    List.length_take] at dropped
  rw [← dropped, belowRoot]
  congr 1
  omega

/-- An accepted manga id leads to the names that it has below the root. -/
theorem mangaDir_belowRoot {mangaID dir : String} (located : l.mangaDir mangaID = .ok dir) :
    (∀ name ∈ l.belowRoot (l.sanitizeID mangaID), isName name = true) ∧
      dir = ((lexical l.root).walk (l.belowRoot (l.sanitizeID mangaID))).text := by
  rcases mangaDir_text located with ⟨_, rfl, below, _, valid, same⟩
  rw [← belowRoot_eq valid same]
  exact ⟨valid, congrArg Lexical.text same⟩

/-- The ids of a chapter as one path. -/
def chapterPath (l : LibraryAt) (mangaID providerID chapterID : String) : String :=
  l.sanitizeID mangaID ++ "/" ++ (l.sanitizeID providerID ++ "/" ++ l.sanitizeID chapterID)

theorem providerChapterDir_belowRoot {mangaID providerID chapterID dir : String}
    (located : l.providerChapterDir mangaID providerID chapterID = .ok dir) :
    (∀ name ∈ l.belowRoot (l.chapterPath mangaID providerID chapterID), isName name = true) ∧
      dir = ((lexical l.root).walk (l.belowRoot (l.chapterPath mangaID providerID chapterID))).text := by
  rcases providerChapterDir_text located with ⟨_, _, rfl, below, _, valid, same⟩
  rw [← split_append_slash, ← split_append_slash] at same ⊢
  have isBelow : below = l.belowRoot (l.chapterPath mangaID providerID chapterID) :=
    belowRoot_eq valid same
  rw [← isBelow]
  exact ⟨valid, congrArg Lexical.text same⟩

/-- The directories of two mangas, or of two chapters of a manga, are separate exactly if
neither path of ids is the other or goes on from it. -/
theorem separate_iff (l : LibraryAt) :
    (∀ mangaID other dir otherDir, l.sanitizeID mangaID ≠ l.sanitizeID other →
      l.mangaDir mangaID = .ok dir → l.mangaDir other = .ok otherDir →
      (SeparateDirs dir otherDir ↔ l.Apart (l.sanitizeID mangaID) (l.sanitizeID other))) ∧
    ∀ mangaID providerID chapterID otherProvider otherChapter dir otherDir,
      (l.sanitizeID providerID, l.sanitizeID chapterID) ≠
        (l.sanitizeID otherProvider, l.sanitizeID otherChapter) →
      l.providerChapterDir mangaID providerID chapterID = .ok dir →
      l.providerChapterDir mangaID otherProvider otherChapter = .ok otherDir →
      (SeparateDirs dir otherDir ↔ l.Apart (l.chapterPath mangaID providerID chapterID)
        (l.chapterPath mangaID otherProvider otherChapter)) := by
  constructor
  · intro mangaID other dir otherDir _ located otherLocated
    rcases mangaDir_belowRoot located with ⟨valid, rfl⟩
    rcases mangaDir_belowRoot otherLocated with ⟨otherValid, rfl⟩
    exact separate_walk_iff valid otherValid
  · intro mangaID providerID chapterID otherProvider otherChapter dir otherDir _ located otherLocated
    rcases providerChapterDir_belowRoot located with ⟨valid, rfl⟩
    rcases providerChapterDir_belowRoot otherLocated with ⟨otherValid, rfl⟩
    exact separate_walk_iff valid otherValid

def srvLibrary : LibraryAt where
  root := "/srv/library"
  parseURL _ := none
  toLower := id

/-- Two single names, and two chapters of which one has the other's provider in its id. -/
theorem separate_iff_srvLibrary :
    SeparateDirs "/srv/library/x" "/srv/library/y" ∧
      ¬SeparateDirs "/srv/library/x/p/c" "/srv/library/x/p/c/d" := by
  have mangas := separate_iff srvLibrary |>.1 "x" "y" "/srv/library/x" "/srv/library/y"
    (by decide +kernel) (by decide +kernel) (by decide +kernel)
  have chapters := separate_iff srvLibrary |>.2 "x" "p" "c" "p" "c/d" "/srv/library/x/p/c"
    "/srv/library/x/p/c/d" (by decide +kernel) (by decide +kernel) (by decide +kernel)
  exact ⟨mangas.mpr (by unfold Apart; decide +kernel),
    fun separate => absurd (chapters.mp separate) (by unfold Apart; decide +kernel)⟩

/-- The directory of one manga lies in that of another, and to remove the one removes the
other; two chapters of one manga share a directory. -/
theorem directories_nest :
    srvLibrary.sanitizeID "x" ≠ srvLibrary.sanitizeID "x/y" ∧
      srvLibrary.mangaDir "x" = .ok "/srv/library/x" ∧
      srvLibrary.mangaDir "x/y" = .ok "/srv/library/x/y" ∧
      StrictlyBelow "/srv/library/x" "/srv/library/x/y" ∧
      srvLibrary.sanitizeID "a" ≠ srvLibrary.sanitizeID "a/b" ∧
      srvLibrary.providerChapterDir "x" "a" "b/c" = .ok "/srv/library/x/a/b/c" ∧
      srvLibrary.providerChapterDir "x" "a/b" "c" = .ok "/srv/library/x/a/b/c" := by
  refine ⟨by decide +kernel, by decide +kernel, by decide +kernel, ⟨["y"], ?_⟩, by decide +kernel,
    by decide +kernel, by decide +kernel⟩
  decide +kernel

end LibraryAt

end Kiyomi.Library
