import Kiyomi.Foundation.FileTree
import Kiyomi.Go.Strings

namespace Kiyomi.Go

/-! # Functions of the `path/filepath` package

Absolute paths, as the names on the way from the root. -/

/-- `filepath.Clean`, with the names above in reverse order. -/
def cleanFrom (above : List String) : List String → Path
  | [] => above.reverse
  | name :: names =>
      if name = "" ∨ name = "." then cleanFrom above names
      else if name = ".." then cleanFrom above.tail names
      else cleanFrom (name :: above) names

/-- `filepath.Join` of a clean absolute path and further elements. -/
def join (dir : Path) (elements : List String) : Path :=
  cleanFrom dir.reverse (elements.flatMap fun element => split element '/')

/-- `filepath.Ext`. -/
def ext (name : String) : String :=
  if '.' ∈ name.toList then
    String.ofList ('.' :: (name.toList.reverse.takeWhile (· ≠ '.')).reverse)
  else ""

/-- A name that a file can have. -/
def isName (name : String) : Bool :=
  name != "" && name != "." && name != ".." && !name.toList.contains '/'

theorem split_of_isName {name : String} (valid : isName name = true) : split name '/' = [name] := by
  apply split_of_absent
  simp only [isName, Bool.and_eq_true, Bool.not_eq_true', List.contains_eq_mem,
    decide_eq_false_iff_not] at valid
  exact valid.2

theorem cleanFrom_of_isName {names : List String} (valid : ∀ name ∈ names, isName name = true)
    (above : List String) : cleanFrom above names = above.reverse ++ names := by
  induction names generalizing above with
  | nil => rw [cleanFrom, List.append_nil]
  | cons name names induction =>
      have first := valid name List.mem_cons_self
      simp only [isName, Bool.and_eq_true, bne_iff_ne] at first
      rw [cleanFrom, if_neg (by simp [first.1.1.1, first.1.1.2]), if_neg first.1.2,
        induction fun other member => valid other (List.mem_cons_of_mem _ member)]
      simp

/-- Joining elements made of file names appends the names. -/
theorem join_of_isName {elements : List String}
    (valid : ∀ name ∈ elements.flatMap fun element => split element '/', isName name = true)
    (dir : Path) : join dir elements = dir ++ elements.flatMap fun element => split element '/' := by
  rw [join, cleanFrom_of_isName valid, List.reverse_reverse]

theorem join_name {name : String} (valid : isName name = true) (dir : Path) :
    join dir [name] = dir ++ [name] := by
  have pieces : [name].flatMap (fun element => split element '/') = [name] := by
    rw [List.flatMap_singleton, split_of_isName valid]
  rw [join_of_isName (by simpa [pieces] using valid), pieces]

end Kiyomi.Go
