import Kiyomi.Go.Bytes
import Kiyomi.Go.Url

namespace Kiyomi.PluginSdk

open Go Go.Url

/-! # Image sources of HTML elements -/

/-- What a selection is read with. -/
structure HtmlRules where
  /-- `strings.ToLower`. -/
  toLower : List UInt8 → List UInt8
  /-- `utils.ResolveURL` against a base, or the text itself where that fails. -/
  resolveURL : List UInt8 → List UInt8 → List UInt8

/-- The first element of a selection that is not `nil`. -/
structure Selection where
  baseURL : List UInt8
  /-- The value of an attribute, if the element has it. -/
  attrs : List UInt8 → Option (List UInt8)

def srcset : List UInt8 := utf8 "srcset"

def imageAttributes : List (List UInt8) :=
  [utf8 "data-original", utf8 "data-src", utf8 "data-lazy-src", utf8 "data-src-img",
    utf8 "data-cfsrc", utf8 "data-url", utf8 "src"]

namespace Selection

def attr (s : Selection) (name : List UInt8) : List UInt8 :=
  Bytes.trimSpace ((s.attrs name).getD [])

section Src

variable (rules : HtmlRules)

def isPlaceholder (url : List UInt8) : Bool :=
  let lower := rules.toLower url
  (utf8 "data:image").isPrefixOf lower ||
    [utf8 "blank.gif", utf8 "placeholder", utf8 "lazyload.png", utf8 "transparent.png"].any
      fun name => decide (name <:+: lower)

/-- A value that an image can be loaded from. -/
def shows (s : Selection) (name : List UInt8) : Bool :=
  s.attr name ≠ [] && !isPlaceholder rules (s.attr name)

/-- The first URL of a source set; `none` where an index is out of range. -/
def firstURL (sources : List UInt8) : Option (List UInt8) :=
  (sources.splitOn comma)[0]?.bind fun first => (Bytes.fields (Bytes.trimSpace first))[0]?

/-- `Src`; `none` where it panics. -/
def src (s : Selection) : Option (List UInt8) :=
  match imageAttributes.find? (s.shows rules) with
  | some name => some (rules.resolveURL s.baseURL (s.attr name))
  | none =>
      if s.attr srcset ≠ [] then
        (firstURL (s.attr srcset)).map fun url =>
          if url ≠ [] && !isPlaceholder rules url then rules.resolveURL s.baseURL url else []
      else some []

/-- `Src` of a selection that may be `nil`. -/
def srcOf (s : Option Selection) : Option (List UInt8) := (s.map (src rules)).getD (some [])

/-- `Images`, of the elements that are selected; `none` where one of them panics. -/
def images (items : List Selection) : Option (List (List UInt8)) :=
  (items.mapM (src rules)).map (·.filter (· ≠ []))

end Src

variable {rules : HtmlRules} {s : Selection} {raw : List UInt8}

/-- Of a trimmed source set the first URL is missing where nothing stands before a comma. -/
theorem isSome_firstURL_iff (nonempty : Bytes.trimSpace raw ≠ []) :
    (firstURL (Bytes.trimSpace raw)).isSome ↔ (Bytes.trimSpace raw).head? ≠ some comma := by
  have start := Bytes.spaceWidth_trimSpace raw
  have whole : [comma].intercalate ((Bytes.trimSpace raw).splitOn comma) = Bytes.trimSpace raw :=
    List.intercalate_splitOn comma
  cases parts : (Bytes.trimSpace raw).splitOn comma with
  | nil => exact absurd parts (List.splitOn_ne_nil _ _)
  | cons first rest =>
      have inside : first <+: Bytes.trimSpace raw := by
        rw [← whole, parts]
        rcases rest with _ | ⟨next, rest⟩
        · rw [List.intercalate_singleton]
        · rw [List.intercalate_cons_cons, List.append_assoc]
          exact List.prefix_append _ _
      have read : (firstURL (Bytes.trimSpace raw)).isSome ↔ first ≠ [] := by
        have blank : Bytes.fields (Bytes.trimSpace first) = [] ↔ first = [] := by
          rw [Bytes.fields_trimSpace_eq_nil_iff, Bytes.trimSpace_eq_nil_iff,
            Bytes.trimLeftSpace_of_isPrefix inside start]
        rw [firstURL, parts, List.getElem?_cons_zero, Option.bind_some, ← not_iff_not, ne_eq,
          not_not, ← blank]
        simp
      rw [read]
      cases trimmed : Bytes.trimSpace raw with
      | nil => exact absurd trimmed nonempty
      | cons b others =>
          rw [trimmed, List.splitOn_cons_eq_if_modifyHead] at parts
          rw [List.head?_cons, ne_eq, ne_eq, Option.some.injEq, not_iff_not]
          split at parts
          · rename_i same
            cases parts
            exact iff_of_true rfl (beq_iff_eq.mp same)
          · rename_i other
            refine iff_of_false ?_ fun same => other (beq_iff_eq.mpr same)
            rintro rfl
            cases behind : others.splitOn comma with
            | nil => exact absurd behind (List.splitOn_ne_nil _ _)
            | cons next more =>
                rw [behind, List.modifyHead_cons] at parts
                exact absurd (List.cons.inj parts).1 (List.cons_ne_nil b next)

/-- `Src` returns exactly where some attribute shows an image or the source set does not start
with a comma. -/
theorem isSome_src_iff : (s.src rules).isSome ↔
    (∃ name ∈ imageAttributes, s.shows rules name = true) ∨
      (s.attr srcset).head? ≠ some comma := by
  rw [src]
  cases found : imageAttributes.find? (s.shows rules) with
  | some name =>
      refine iff_of_true rfl (.inl ⟨name, List.mem_of_find?_eq_some found, ?_⟩)
      exact List.find?_some found
  | none =>
      have noneShown : ¬∃ name ∈ imageAttributes, s.shows rules name = true := by
        rintro ⟨name, member, shown⟩
        exact absurd shown (List.find?_eq_none.mp found name member)
      rw [or_iff_right noneShown]
      dsimp only
      split
      · rename_i nonempty
        rw [Option.isSome_map]
        exact isSome_firstURL_iff nonempty
      · rename_i empty
        rw [ne_eq, not_not] at empty
        rw [empty]
        exact iff_of_true rfl (by decide)

/-- A selection that is not `nil` is read exactly where an image is shown or its source set does not
start with a comma. -/
theorem isSome_srcOf_iff (selection : Option Selection) : (srcOf rules selection).isSome ↔
    ∀ s, selection = some s → (∃ name ∈ imageAttributes, s.shows rules name = true) ∨
      (s.attr srcset).head? ≠ some comma := by
  cases selection with
  | none => exact iff_of_true rfl fun s isSome => by contradiction
  | some s =>
      rw [srcOf, Option.map_some, Option.getD_some, isSome_src_iff]
      simp

/-- A selection with nothing but a source set. -/
def ofSrcset (sources : List UInt8) : Selection where
  baseURL := []
  attrs name := if name = srcset then some sources else none

theorem leading_comma_panics : ¬∀ (rules : HtmlRules) (selection : Option Selection),
    (srcOf rules selection).isSome := by
  intro returns
  have read := returns ⟨id, fun _ target => target⟩ (some (ofSrcset (utf8 " , ,")))
  rw [srcOf, Option.map_some, Option.getD_some, isSome_src_iff] at read
  exact absurd read (by decide)

end Selection

end Kiyomi.PluginSdk
