import Kiyomi.Go.Bytes
import Kiyomi.Go.UrlString

namespace Kiyomi.Plugins.Mangafox

open Go Go.Url

/-! # Chapter identifiers of the MangaFox plugin -/

def hyphen : UInt8 := 0x2D
def tilde : UInt8 := 0x7E

def manga : List UInt8 := utf8 "manga"
def html : List UInt8 := utf8 ".html"
def firstPage : List UInt8 := utf8 "/1.html"
def hostSeparator : List UInt8 := utf8 "://"

/-! ## Links and slugs -/

/-- The rest of a text that starts with the directory, without the slashes around it. -/
def stripDir (dir s : List UInt8) : List UInt8 :=
  if dir ++ [slash] <+: s then Bytes.trim slash (s.drop (dir.length + 1)) else s

/-- What follows the first slash behind `://`, with the slash. -/
def afterHost (s : List UInt8) : List UInt8 :=
  match Cuts.cutText hostSeparator s with
  | some (_, rest) => if slash ∈ rest then rest.dropWhile (· ≠ slash) else s
  | none => s

section Links

variable (r : Rules)

def stripHost (s : List UInt8) : List UInt8 :=
  match r.parse s with
  | some u => if u.scheme ≠ [] ∨ u.host ≠ [] then u.path else afterHost s
  | none => afterHost s

/-- What `extractSlug` and `cleanChapterID` begin with. -/
def stripManga (s : List UInt8) : List UInt8 :=
  stripDir manga (Bytes.trim slash (stripHost r (Bytes.trimSpace s)))

def extractSlug (rawID : List UInt8) : List UInt8 := stripManga r rawID

def cleanChapterID (href slug : List UInt8) : List UInt8 :=
  let href := stripManga r href
  let href := if slug ≠ [] then stripDir slug href else href
  let cleanParts := (href.splitOn slash).filter fun p =>
    p ≠ [] ∧ p ≠ firstPage.tail ∧ ¬html <:+ p
  if cleanParts = [] then href else [hyphen].intercalate cleanParts

/-! ## Addresses -/

def resolveURL (base relativePath : List UInt8) : List UInt8 :=
  if utf8 "http://" <+: relativePath ∨ utf8 "https://" <+: relativePath then relativePath
  else if [slash, slash] <+: relativePath then utf8 "https:" ++ relativePath
  else Bytes.trimRight slash base ++ slash :: Bytes.trimLeft slash relativePath

def stripPage (s : List UInt8) : List UInt8 :=
  if firstPage <:+ s then s.take (s.length - firstPage.length)
  else if html <:+ s then s.take (s.length - html.length)
  else s

/-- The path of a chapter below that of its manga. -/
def relPath (mangaSlug chapterRef : List UInt8) : List UInt8 :=
  let chapterRef := Bytes.trim slash (Bytes.replace tilde slash chapterRef)
  let chapterRef := stripDir manga chapterRef
  let chapterRef := if mangaSlug ≠ [] then stripDir mangaSlug chapterRef else chapterRef
  Bytes.replace hyphen slash (stripPage chapterRef)

def resolveChapterURL (base mangaRef chapterRef : List UInt8) : List UInt8 :=
  let chapterRef := Bytes.trimSpace chapterRef
  if utf8 "http://" <+: chapterRef ∨ utf8 "https://" <+: chapterRef then chapterRef
  else
    let mangaSlug := extractSlug r mangaRef
    if mangaSlug ≠ [] then
      resolveURL base
        (slash :: manga ++ slash :: mangaSlug ++ slash :: relPath mangaSlug chapterRef ++ firstPage)
    else resolveURL base (slash :: manga ++ slash :: relPath mangaSlug chapterRef ++ firstPage)

end Links

/-! ## Chapter links -/

/-- `/manga/<slug>/<part1>/.../<partn>/<k>.html`. -/
def chapterLink (slug : List UInt8) (parts : List (List UInt8)) (k : List UInt8) : List UInt8 :=
  slash :: manga ++ slash :: slug ++ slash :: [slash].intercalate parts ++ slash :: k ++ html

/-- The address of page 1. -/
def pageAddress (base slug : List UInt8) (parts : List (List UInt8)) : List UInt8 :=
  Bytes.trimRight slash base ++
    (slash :: manga ++ slash :: slug ++ slash :: [slash].intercalate parts ++ firstPage)

structure IsSlug (slug : List UInt8) : Prop where
  nonempty : slug ≠ []
  free : slash ∉ slug

structure AreParts (parts : List (List UInt8)) : Prop where
  nonempty : parts ≠ []
  proper : ∀ part ∈ parts, part ≠ [] ∧ slash ∉ part
  noPage : ∀ part ∈ parts, ¬html <:+ part

variable {r : Rules} {base slug k s : List UInt8} {parts : List (List UInt8)}

/-- A text without slashes has no directory to strip. -/
theorem stripDir_of_free {dir : List UInt8} (free : slash ∉ s) : stripDir dir s = s :=
  if_neg fun starts => free (starts.subset (by simp))

theorem stripDir_append (dir : List UInt8) (s : List UInt8) :
    stripDir dir (dir ++ slash :: s) = Bytes.trim slash s := by
  rw [stripDir, if_pos ⟨s, by simp⟩]
  congr 1
  rw [show dir ++ slash :: s = (dir ++ [slash]) ++ s by simp]
  exact List.drop_left' (by simp)

theorem isInfix_stripDir (dir s : List UInt8) : stripDir dir s <:+: s := by
  rw [stripDir]
  split
  · exact (Bytes.isInfix_trim _ _).trans (List.drop_suffix _ _).isInfix
  · exact List.infix_rfl

theorem isPrefix_stripPage (s : List UInt8) : stripPage s <+: s := by
  rw [stripPage]
  split
  · exact List.take_prefix _ _
  · split
    · exact List.take_prefix _ _
    · exact List.prefix_rfl

theorem afterHost_of_absent (absent : ¬hostSeparator <:+: s) : afterHost s = s := by
  rw [afterHost, Cuts.cutText_eq_none absent]

/-! ## What is read from a link -/

/-- A path that starts with one slash is read without a host. -/
theorem parse_path {u : URL} (single : ¬[slash, slash] <+: slash :: s)
    (parsed : r.parse (slash :: s) = some u) : u.scheme = [] ∧ u.host = [] := by
  have kept (sep : UInt8) (other : slash ≠ sep) (s : List UInt8) :
      Cuts.before sep (slash :: s) = slash :: Cuts.before sep s :=
    @Cuts.before_append_of_not_mem _ _ _ [slash] (by simpa using other.symm) s
  have start : ¬[slash, slash] <+:
      slash :: Cuts.before question (Cuts.before hash s) := by
    intro double
    refine single (double.trans (List.cons_prefix_cons.mpr ⟨rfl, ?_⟩))
    exact (Cuts.before_prefix _ _).trans (Cuts.before_prefix _ _)
  rw [Rules.parse, kept hash (by decide)] at parsed
  rcases Option.bind_eq_some_iff.mp parsed with ⟨v, isReference, fragment⟩
  rcases Option.map_eq_some_iff.mp fragment with ⟨_, _, rfl⟩
  rw [Rules.parseReference] at isReference
  split at isReference
  · contradiction
  · split at isReference
    · cases isReference
      exact ⟨rfl, rfl⟩
    · rw [getScheme_of_slash, Option.bind_some] at isReference
      dsimp only [List.map_nil] at isReference
      rw [kept question (by decide), Rules.parseRest, if_neg (by simp), if_neg (by simp),
        if_neg fun both => start both.2] at isReference
      rcases Option.map_eq_some_iff.mp isReference with ⟨path, _, rfl⟩
      exact ⟨rfl, rfl⟩

theorem stripHost_path (single : ¬[slash, slash] <:+: slash :: s) :
    stripHost r (slash :: s) = slash :: s := by
  have absent : ¬hostSeparator <:+: slash :: s := fun inside => by
    have double : [slash, slash] <:+: hostSeparator := ⟨[colon], [], by decide⟩
    exact single (double.trans inside)
  rw [stripHost]
  split
  · rename_i u parsed
    rcases parse_path (fun starts => single starts.isInfix) parsed with ⟨scheme, host⟩
    rw [if_neg (by simp [scheme, host]), afterHost_of_absent absent]
  · exact afterHost_of_absent absent

theorem getLast?_append_html (s : List UInt8) : (s ++ html).getLast? = some 0x6C := by
  rw [List.getLast?_append_of_ne_nil _ (by decide)]
  decide

/-- The parts of a chapter link. -/
def segments (slug : List UInt8) (parts : List (List UInt8)) (k : List UInt8) :
    List (List UInt8) :=
  manga :: slug :: (parts ++ [k ++ html])

theorem chapterLink_eq (nonempty : parts ≠ []) :
    chapterLink slug parts k = slash :: [slash].intercalate (segments slug parts k) := by
  rw [segments, List.intercalate_cons_cons, List.intercalate_cons_of_ne_nil (by simp),
    Cuts.intercalate_concat slash nonempty, chapterLink]
  simp

theorem proper_segments (isSlug : IsSlug slug) (areParts : AreParts parts) (free : slash ∉ k) :
    ∀ part ∈ segments slug parts k, part ≠ [] ∧ slash ∉ part := by
  have inHtml : slash ∉ html := by decide
  rw [segments, List.forall_mem_cons, List.forall_mem_cons, List.forall_mem_append,
    List.forall_mem_singleton]
  refine ⟨by decide, ⟨isSlug.nonempty, isSlug.free⟩, areParts.proper, ?_, ?_⟩
  · exact List.append_ne_nil_of_right_ne_nil k (by decide)
  · rw [List.mem_append, not_or]
    exact ⟨free, inHtml⟩

theorem getLast?_intercalate (rest : List (List UInt8)) (s : List UInt8) :
    ([slash].intercalate (rest ++ [s ++ html])).getLast? = some 0x6C := by
  by_cases empty : rest = []
  · rw [empty, List.nil_append, List.intercalate_singleton, getLast?_append_html]
  · rw [Cuts.intercalate_concat slash empty, ← List.cons_append, ← List.append_assoc,
      getLast?_append_html]

theorem head?_intercalate (proper : ∀ part ∈ parts, part ≠ [] ∧ slash ∉ part) :
    ([slash].intercalate parts).head? ≠ some slash := by
  rcases parts with _ | ⟨_ | ⟨b, part⟩, parts⟩
  · simp
  · exact absurd rfl (proper [] List.mem_cons_self).1
  · rw [List.intercalate_cons_cons_left, List.head?_cons, ne_eq, Option.some.injEq]
    rintro rfl
    exact (proper _ List.mem_cons_self).2 List.mem_cons_self

/-- A path of such segments has no slash at its ends. -/
theorem trim_intercalate {rest : List (List UInt8)}
    (proper : ∀ part ∈ rest ++ [s ++ html], part ≠ [] ∧ slash ∉ part) :
    Bytes.trim slash ([slash].intercalate (rest ++ [s ++ html])) =
      [slash].intercalate (rest ++ [s ++ html]) := by
  refine Bytes.trim_of_ends (head?_intercalate proper) ?_
  rw [getLast?_intercalate]
  decide

/-- A directory in front of a path is stripped, with the slash between them. -/
theorem stripDir_intercalate (dir : List UInt8) {rest : List (List UInt8)}
    (proper : ∀ part ∈ rest ++ [s ++ html], part ≠ [] ∧ slash ∉ part) :
    stripDir dir ([slash].intercalate (dir :: (rest ++ [s ++ html]))) =
      [slash].intercalate (rest ++ [s ++ html]) := by
  rw [List.intercalate_cons_of_ne_nil (by simp), List.append_assoc, List.singleton_append,
    stripDir_append, trim_intercalate proper]

theorem stripManga_chapterLink (isSlug : IsSlug slug) (areParts : AreParts parts)
    (free : slash ∉ k) : stripManga r (chapterLink slug parts k) =
      [slash].intercalate (slug :: (parts ++ [k ++ html])) := by
  have proper := proper_segments isSlug areParts free
  have inner := (List.forall_mem_cons.mp proper).2
  have link := @chapterLink_eq slug k _ areParts.nonempty
  have ends : (chapterLink slug parts k).getLast? = some 0x6C := by
    rw [chapterLink, getLast?_append_html]
  have whole : Bytes.trimSpace (chapterLink slug parts k) = chapterLink slug parts k :=
    Bytes.trimSpace_of_ends (b := slash) (by decide) (by decide) (by decide) (by decide)
      (by rw [link]; rfl) ends
  have single : ¬[slash, slash] <:+: slash :: [slash].intercalate (segments slug parts k) := by
    rw [List.infix_cons_iff, List.cons_prefix_cons]
    rintro (⟨_, starts⟩ | inside)
    · refine head?_intercalate proper ?_
      rcases starts with ⟨rest, split⟩
      rw [← split]
      rfl
    · exact Cuts.not_double_infix proper inside
  have trimmed : Bytes.trim slash (slash :: [slash].intercalate (segments slug parts k)) =
      [slash].intercalate (segments slug parts k) := by
    rw [Bytes.trim, Bytes.trimLeft_cons]
    exact @trim_intercalate _ (manga :: slug :: parts) proper
  rw [stripManga, whole, link, stripHost_path single, trimmed]
  exact @stripDir_intercalate _ manga (slug :: parts) inner

theorem cleanChapterID_chapterLink (isSlug : IsSlug slug) (areParts : AreParts parts)
    (free : slash ∉ k) :
    cleanChapterID r (chapterLink slug parts k) slug = [hyphen].intercalate parts := by
  have proper := proper_segments isSlug areParts free
  have inner := (List.forall_mem_cons.mp (List.forall_mem_cons.mp proper).2).2
  have split : ([slash].intercalate (parts ++ [k ++ html])).splitOn slash = parts ++ [k ++ html] :=
    List.splitOn_intercalate slash (fun part member => (inner part member).2) (by simp)
  have kept : (parts ++ [k ++ html]).filter
      (fun p => decide (p ≠ [] ∧ p ≠ firstPage.tail ∧ ¬html <:+ p)) = parts := by
    have isPage : html <:+ firstPage.tail := by decide
    rw [List.filter_append, List.filter_eq_self.mpr fun part member => ?_,
      List.filter_cons_of_neg ?_, List.filter_nil, List.append_nil]
    · simp
    · rw [decide_eq_true_eq]
      refine ⟨(areParts.proper part member).1, ?_, areParts.noPage part member⟩
      rintro rfl
      exact areParts.noPage _ member isPage
  rw [cleanChapterID, stripManga_chapterLink isSlug areParts free]
  rw [if_pos isSlug.nonempty, stripDir_intercalate slug inner, split, kept,
    if_neg areParts.nonempty]

/-! ## What is resolved -/

theorem length_relPath_le (mangaSlug : List UInt8) (chapterRef : List UInt8) :
    (relPath mangaSlug chapterRef).length ≤ chapterRef.length := by
  rw [relPath, Bytes.length_replace]
  have trimmed := (Bytes.isInfix_trim slash (Bytes.replace tilde slash chapterRef)).length_le
  rw [Bytes.length_replace] at trimmed
  refine (isPrefix_stripPage _).length_le.trans (le_trans ?_ trimmed)
  split
  · exact ((isInfix_stripDir _ _).trans (isInfix_stripDir _ _)).length_le
  · exact (isInfix_stripDir _ _).length_le

theorem hyphen_not_mem_relPath (mangaSlug chapterRef : List UInt8) :
    hyphen ∉ relPath mangaSlug chapterRef := Bytes.not_mem_replace (by decide)

theorem tilde_not_mem_relPath (mangaSlug chapterRef : List UInt8) :
    tilde ∉ relPath mangaSlug chapterRef := by
  refine Bytes.not_mem_replace_of_ne (fun member => ?_) (by decide)
  have inTrimmed : tilde ∈ Bytes.trim slash (Bytes.replace tilde slash chapterRef) := by
    have inStripped := (isPrefix_stripPage _).subset member
    split at inStripped
    · exact ((isInfix_stripDir _ _).trans (isInfix_stripDir _ _)).subset inStripped
    · exact (isInfix_stripDir _ _).subset inStripped
  exact Bytes.not_mem_replace (by decide) ((Bytes.isInfix_trim _ _).subset inTrimmed)

/-- A path below the site is resolved against the base. -/
theorem resolveURL_manga (base path : List UInt8) :
    resolveURL base (slash :: manga ++ path) =
      Bytes.trimRight slash base ++ (slash :: manga ++ path) := by
  have notScheme {scheme : List UInt8} (isScheme : scheme.head? = some 0x68) :
      ¬scheme <+: slash :: manga ++ path := by
    rintro ⟨rest, split⟩
    have first := congrArg List.head? split
    rw [List.head?_append, isScheme, Option.some_or, List.cons_append, List.head?_cons] at first
    exact absurd first (by decide)
  have notDouble : ¬[slash, slash] <+: slash :: manga ++ path := by
    rintro ⟨rest, split⟩
    exact absurd (List.cons.inj (List.cons.inj split).2).1 (by decide)
  rw [resolveURL, if_neg, if_neg notDouble, List.cons_append, Bytes.trimLeft_cons,
    Bytes.trimLeft_of_head]
  · have first : manga.head? = some 0x6D := by decide
    rw [List.head?_append, first, Option.some_or]
    decide
  · rw [not_or]
    exact ⟨notScheme (by decide), notScheme (by decide)⟩

/-- No byte of a part stands for a separator. -/
def Separable (parts : List (List UInt8)) : Prop :=
  ∀ part ∈ parts, hyphen ∉ part ∧ tilde ∉ part

theorem not_mem_identifier {b : UInt8} (other : b ≠ hyphen) (free : ∀ part ∈ parts, b ∉ part) :
    b ∉ [hyphen].intercalate parts := by
  intro member
  rcases Cuts.mem_intercalate member with same | ⟨part, isPart, inPart⟩
  · exact other same
  · exact free part isPart inPart

theorem stripPage_identifier (areParts : AreParts parts) :
    stripPage ([hyphen].intercalate parts) = [hyphen].intercalate parts := by
  have noSlash := not_mem_identifier (b := slash) (by decide)
    fun part member => (areParts.proper part member).2
  have notFirst : ¬firstPage <:+ [hyphen].intercalate parts := fun ends =>
    noSlash (ends.subset (by decide))
  have notPage : ¬html <:+ [hyphen].intercalate parts := by
    rcases List.eq_nil_or_concat parts with rfl | ⟨others, last, rfl⟩
    · exact absurd rfl areParts.nonempty
    · rw [List.concat_eq_append] at areParts ⊢
      have other := areParts.noPage last (by simp)
      by_cases empty : others = []
      · rw [empty, List.nil_append, List.intercalate_singleton]
        exact other
      · rw [Cuts.intercalate_concat hyphen empty]
        exact fun ends => other (Cuts.suffix_append_cons (by decide) ends)
  rw [stripPage, if_neg notFirst, if_neg notPage]

/-- Separators become slashes, and nothing else changes. -/
theorem replace_identifier (free : ∀ part ∈ parts, hyphen ∉ part) :
    Bytes.replace hyphen slash ([hyphen].intercalate parts) = [slash].intercalate parts := by
  have each : parts.map (Bytes.replace hyphen slash) = parts.map id :=
    List.map_congr_left fun part member => Bytes.replace_of_not_mem (free part member)
  rw [Bytes.replace, Cuts.map_intercalate]
  change [_].intercalate (parts.map (Bytes.replace hyphen slash)) = _
  rw [each, List.map_id, if_pos rfl]

theorem relPath_of_separable (areParts : AreParts parts) (separable : Separable parts)
    (mangaSlug : List UInt8) :
    relPath mangaSlug ([hyphen].intercalate parts) = [slash].intercalate parts := by
  have noSlash := not_mem_identifier (b := slash) (by decide)
    fun part member => (areParts.proper part member).2
  have noTilde := not_mem_identifier (b := tilde) (by decide)
    fun part member => (separable part member).2
  have stripped : (if mangaSlug ≠ [] then stripDir mangaSlug ([hyphen].intercalate parts)
      else [hyphen].intercalate parts) = [hyphen].intercalate parts := by
    rw [stripDir_of_free noSlash, ite_self]
  rw [relPath, Bytes.replace_of_not_mem noTilde, Bytes.trim_of_not_mem noSlash,
    stripDir_of_free noSlash, stripped, stripPage_identifier areParts,
    replace_identifier fun part member => (separable part member).1]

/-! ## The slug of a slug -/

theorem subset_of_getScheme {scheme rest : List UInt8} (found : getScheme s = some (scheme, rest)) :
    rest ⊆ s := by
  rw [getScheme] at found
  split at found
  · rename_i c behind dropped
    have inside : behind ⊆ s := by
      have suffix := List.dropWhile_suffix isSchemeByte (l := s)
      rw [dropped] at suffix
      exact List.Subset.trans (List.subset_cons_self c behind) suffix.subset
    split at found
    · split at found
      · contradiction
      · split at found
        · cases found
          exact inside
        · cases found
          exact List.Subset.refl _
    · cases found
      exact List.Subset.refl _
  · cases found
    exact List.Subset.refl _

/-- A text without slashes has a path only where it has no scheme. -/
theorem path_of_free {u : URL} (free : slash ∉ s) (parsed : r.parse s = some u)
    (absolute : u.scheme ≠ [] ∨ u.host ≠ []) : u.path = [] := by
  rw [Rules.parse] at parsed
  rcases Option.bind_eq_some_iff.mp parsed with ⟨v, isReference, fragment⟩
  rcases Option.map_eq_some_iff.mp fragment with ⟨_, _, rfl⟩
  rw [Rules.parseReference] at isReference
  split at isReference
  · contradiction
  · split at isReference
    · cases isReference
      exact absurd absolute (by simp)
    · rcases Option.bind_eq_some_iff.mp isReference with ⟨⟨scheme, behind⟩, found, isRest⟩
      have noSlash : slash ∉ Cuts.before question behind := fun member =>
        free ((Cuts.before_prefix hash s).subset
          (subset_of_getScheme found ((Cuts.before_prefix question behind).subset member)))
      have notRooted : (Cuts.before question behind).head? ≠ some slash := fun isHead =>
        noSlash (List.mem_of_head? isHead)
      dsimp only at isRest
      rw [Rules.parseRest] at isRest
      split at isRest
      · cases isRest
        rfl
      · rename_i noScheme
        have empty : scheme.map toLower = [] := by
          by_contra nonempty
          exact noScheme ⟨notRooted, nonempty⟩
        split at isRest
        · contradiction
        · rw [if_neg fun both => noSlash (both.2.subset List.mem_cons_self)] at isRest
          rcases Option.map_eq_some_iff.mp isRest with ⟨path, _, rfl⟩
          exact absurd absolute (by simp [empty])

theorem extractSlug_of_free (free : slash ∉ slug) :
    extractSlug r slug = Bytes.trimSpace slug ∨ extractSlug r slug = [] := by
  have noSlash : slash ∉ Bytes.trimSpace slug := fun member =>
    free ((Bytes.isInfix_trimSpace slug).subset member)
  have absent : ¬hostSeparator <:+: Bytes.trimSpace slug := fun inside =>
    noSlash (inside.subset (by decide))
  have stripped : stripHost r (Bytes.trimSpace slug) = Bytes.trimSpace slug ∨
      stripHost r (Bytes.trimSpace slug) = [] := by
    rw [stripHost]
    split
    · rename_i u parsed
      split
      · rename_i absolute
        exact .inr (path_of_free noSlash parsed absolute)
      · exact .inl (afterHost_of_absent absent)
    · exact .inl (afterHost_of_absent absent)
  rw [extractSlug, stripManga]
  rcases stripped with same | empty
  · rw [same, Bytes.trim_of_not_mem noSlash, stripDir_of_free noSlash]
    exact .inl rfl
  · rw [empty]
    exact .inr (stripDir_of_free List.not_mem_nil)

/-! ## The round trip -/

/-- The slug is one, and the identifier of the parts can be taken apart again. -/
structure Reversible (r : Rules) (slug : List UInt8) (parts : List (List UInt8)) : Prop where
  slug : extractSlug r slug = slug
  separable : Separable parts
  ends : Bytes.trimSpace ([slash].intercalate parts) = [slash].intercalate parts

theorem trimSpace_identifier (free : ∀ part ∈ parts, hyphen ∉ part) :
    Bytes.trimSpace ([slash].intercalate parts) = [slash].intercalate parts ↔
      Bytes.trimSpace ([hyphen].intercalate parts) = [hyphen].intercalate parts := by
  rw [← replace_identifier free,
    Bytes.trimSpace_replace (by decide) (by decide) (by decide) (by decide)]
  constructor
  · intro same
    have lengths := congrArg List.length same
    rw [Bytes.length_replace, Bytes.length_replace] at lengths
    exact (Bytes.isInfix_trimSpace _).eq_of_length lengths
  · intro same
    rw [same]

theorem not_address (areParts : AreParts parts) {scheme : List UInt8} (member : slash ∈ scheme) :
    ¬scheme <+: Bytes.trimSpace ([hyphen].intercalate parts) := fun starts =>
  not_mem_identifier (b := slash) (by decide) (fun part isPart => (areParts.proper part isPart).2)
    ((Bytes.isInfix_trimSpace _).subset (starts.subset member))

/-- The identifier of parts, resolved for a slug. -/
theorem resolveChapterURL_identifier (areParts : AreParts parts) (mangaRef : List UInt8) :
    resolveChapterURL r base mangaRef ([hyphen].intercalate parts) =
      Bytes.trimRight slash base ++ (slash :: manga ++
        ((if extractSlug r mangaRef ≠ [] then slash :: extractSlug r mangaRef else []) ++
          slash :: relPath (extractSlug r mangaRef)
            (Bytes.trimSpace ([hyphen].intercalate parts)) ++ firstPage)) := by
  have notAddress := not_or.mpr ⟨@not_address _ areParts (utf8 "http://") (by decide),
    @not_address _ areParts (utf8 "https://") (by decide)⟩
  rw [resolveChapterURL]
  dsimp only
  rw [if_neg notAddress]
  split
  · rw [← resolveURL_manga]
    simp
  · rw [← resolveURL_manga]
    simp

theorem resolve_of_reversible (isSlug : IsSlug slug) (areParts : AreParts parts)
    (reversible : Reversible r slug parts) :
    resolveChapterURL r base slug ([hyphen].intercalate parts) = pageAddress base slug parts := by
  have whole := (trimSpace_identifier fun part member =>
    (reversible.separable part member).1).mp reversible.ends
  rw [resolveChapterURL_identifier areParts, whole, reversible.slug, if_pos isSlug.nonempty,
    relPath_of_separable areParts reversible.separable, pageAddress]
  simp

theorem reversible_of_resolve (isSlug : IsSlug slug) (areParts : AreParts parts)
    (resolved : resolveChapterURL r base slug ([hyphen].intercalate parts) =
      pageAddress base slug parts) : Reversible r slug parts := by
  rw [resolveChapterURL_identifier areParts, pageAddress] at resolved
  have paths : (if extractSlug r slug ≠ [] then slash :: extractSlug r slug else []) ++
      slash :: relPath (extractSlug r slug) (Bytes.trimSpace ([hyphen].intercalate parts)) =
        slash :: slug ++ slash :: [slash].intercalate parts := by
    have tails := List.append_cancel_left resolved
    rw [List.append_assoc, List.append_assoc, List.append_assoc, List.append_cancel_left_eq,
      ← List.append_assoc, ← List.append_assoc, List.append_cancel_right_eq] at tails
    exact tails
  have short := length_relPath_le (extractSlug r slug)
    (Bytes.trimSpace ([hyphen].intercalate parts))
  have trimmed := (Bytes.isInfix_trimSpace ([hyphen].intercalate parts)).length_le
  have lengths : ([hyphen].intercalate parts).length = ([slash].intercalate parts).length := by
    have left := Cuts.length_intercalate hyphen areParts.nonempty
    have right := Cuts.length_intercalate slash areParts.nonempty
    omega
  have counted := congrArg List.length paths
  have positive := List.length_pos_iff.mpr isSlug.nonempty
  rcases extractSlug_of_free (r := r) isSlug.free with trimmedSlug | empty
  · by_cases nothing : extractSlug r slug = []
    · simp only [nothing, ne_eq, not_true_eq_false, if_false, List.nil_append, List.length_cons,
        List.length_append] at counted short
      omega
    · have slugs := (Bytes.isInfix_trimSpace slug).length_le
      rw [if_pos nothing] at paths counted
      simp only [List.length_cons, List.length_append] at counted
      rw [← trimmedSlug] at slugs
      have isSame : extractSlug r slug = slug := by
        rw [trimmedSlug]
        refine (Bytes.isInfix_trimSpace slug).eq_of_length ?_
        rw [← trimmedSlug]
        omega
      rw [isSame] at paths
      have isPath : relPath slug (Bytes.trimSpace ([hyphen].intercalate parts)) =
          [slash].intercalate parts := by simpa using paths
      have separable : Separable parts := by
        intro part member
        have inside : part ⊆ [slash].intercalate parts := (Cuts.infix_intercalate member).subset
        rw [← isPath] at inside
        exact ⟨fun isHyphen => hyphen_not_mem_relPath _ _ (inside isHyphen),
          fun isTilde => tilde_not_mem_relPath _ _ (inside isTilde)⟩
      refine ⟨isSame, separable,
        (trimSpace_identifier fun part member => (separable part member).1).mpr ?_⟩
      refine (Bytes.isInfix_trimSpace _).eq_of_length ?_
      have path := congrArg List.length isPath
      rw [isSame] at short
      omega
  · simp only [empty, ne_eq, not_true_eq_false, if_false, List.nil_append, List.length_cons,
      List.length_append] at counted short
    omega

/-- Identifiers name the chapters of a slug exactly where its parts have no separator of their
own and no white space at the ends. -/
theorem roundTrip_iff {parts' : List (List UInt8)} {k' : List UInt8} (isSlug : IsSlug slug)
    (areParts : AreParts parts) (areParts' : AreParts parts') (free : slash ∉ k)
    (free' : slash ∉ k') :
    (resolveChapterURL r base slug (cleanChapterID r (chapterLink slug parts k) slug) =
        pageAddress base slug parts ∧
      resolveChapterURL r base slug (cleanChapterID r (chapterLink slug parts' k') slug) =
        pageAddress base slug parts' ∧
      (parts ≠ parts' → cleanChapterID r (chapterLink slug parts k) slug ≠
        cleanChapterID r (chapterLink slug parts' k') slug)) ↔
      Reversible r slug parts ∧ Reversible r slug parts' := by
  rw [cleanChapterID_chapterLink isSlug areParts free,
    cleanChapterID_chapterLink isSlug areParts' free']
  constructor
  · rintro ⟨first, second, _⟩
    exact ⟨reversible_of_resolve isSlug areParts first,
      reversible_of_resolve isSlug areParts' second⟩
  · rintro ⟨first, second⟩
    refine ⟨resolve_of_reversible isSlug areParts first,
      resolve_of_reversible isSlug areParts' second, fun different same => different ?_⟩
    rw [← List.splitOn_intercalate hyphen (fun part member => (first.separable part member).1)
        areParts.nonempty, same,
      List.splitOn_intercalate hyphen (fun part member => (second.separable part member).1)
        areParts'.nonempty]

/-- Rules under which no address stands in brackets. -/
def plainRules : Rules where
  isIPv6 _ := false
  strictColons _ := false
  maxSeparators := 9999

theorem roundTrip_iff_one_piece :
    IsSlug (utf8 "one_piece") ∧ AreParts [utf8 "v01", utf8 "c001"] ∧ AreParts [utf8 "c002"] ∧
      slash ∉ utf8 "1" ∧
      ((resolveChapterURL plainRules (utf8 "https://fanfox.net") (utf8 "one_piece")
            (cleanChapterID plainRules
              (chapterLink (utf8 "one_piece") [utf8 "v01", utf8 "c001"] (utf8 "1"))
              (utf8 "one_piece")) =
          pageAddress (utf8 "https://fanfox.net") (utf8 "one_piece") [utf8 "v01", utf8 "c001"] ∧
        resolveChapterURL plainRules (utf8 "https://fanfox.net") (utf8 "one_piece")
            (cleanChapterID plainRules
              (chapterLink (utf8 "one_piece") [utf8 "c002"] (utf8 "1")) (utf8 "one_piece")) =
          pageAddress (utf8 "https://fanfox.net") (utf8 "one_piece") [utf8 "c002"] ∧
        ([utf8 "v01", utf8 "c001"] ≠ [utf8 "c002"] →
          cleanChapterID plainRules
              (chapterLink (utf8 "one_piece") [utf8 "v01", utf8 "c001"] (utf8 "1"))
              (utf8 "one_piece") ≠
            cleanChapterID plainRules
              (chapterLink (utf8 "one_piece") [utf8 "c002"] (utf8 "1")) (utf8 "one_piece"))) ↔
        Reversible plainRules (utf8 "one_piece") [utf8 "v01", utf8 "c001"] ∧
          Reversible plainRules (utf8 "one_piece") [utf8 "c002"]) := by
  have isSlug : IsSlug (utf8 "one_piece") := ⟨by decide, by decide⟩
  have volume : AreParts [utf8 "v01", utf8 "c001"] := ⟨by decide, by decide, by decide⟩
  have chapter : AreParts [utf8 "c002"] := ⟨by decide, by decide, by decide⟩
  exact ⟨isSlug, volume, chapter, by decide, roundTrip_iff isSlug volume chapter (by decide)
    (by decide)⟩

/-- A hyphen in a part is taken for a separator. -/
theorem parts_collide : ¬∀ (r : Rules) (base slug k k' : List UInt8)
    (parts parts' : List (List UInt8)), IsSlug slug → AreParts parts → AreParts parts' →
      slash ∉ k → slash ∉ k' →
      resolveChapterURL r base slug (cleanChapterID r (chapterLink slug parts k) slug) =
          pageAddress base slug parts ∧
        resolveChapterURL r base slug (cleanChapterID r (chapterLink slug parts' k') slug) =
          pageAddress base slug parts' ∧
        (parts ≠ parts' → cleanChapterID r (chapterLink slug parts k) slug ≠
          cleanChapterID r (chapterLink slug parts' k') slug) := by
  intro all
  have isSlug : IsSlug (utf8 "one_piece") := ⟨by decide, by decide⟩
  have joined : AreParts [utf8 "v01-c001"] := ⟨by decide, by decide, by decide⟩
  have apart : AreParts [utf8 "v01", utf8 "c001"] := ⟨by decide, by decide, by decide⟩
  have distinct := (all plainRules (utf8 "https://fanfox.net") _ (utf8 "1") (utf8 "1") _ _ isSlug
    joined apart (by decide) (by decide)).2.2 (by decide)
  rw [cleanChapterID_chapterLink isSlug joined (by decide),
    cleanChapterID_chapterLink isSlug apart (by decide)] at distinct
  exact distinct (by decide)

end Kiyomi.Plugins.Mangafox
