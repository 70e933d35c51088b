import Mathlib.Data.List.AList

namespace Kiyomi.Go

/-! # Maps -/

/-- A Go map, with its entries in the order in which a `range` visits them. -/
abbrev Map (K : Type u) (V : Type v) := AList fun _ : K => V

namespace Map

variable {K : Type u} {V : Type v} [DecidableEq K]

/-- Delete the keys one after another. -/
def deleteAll (m : Map K V) (keys : List K) : Map K V :=
  keys.foldl (fun m key => m.erase key) m

theorem lookup_erase (m : Map K V) (key other : K) :
    (m.erase other).lookup key = if key = other then none else m.lookup key := by
  split
  · rename_i same
    rw [same, AList.lookup_erase]
  · rename_i different
    exact AList.lookup_erase_ne different

theorem lookup_insert (m : Map K V) (key other : K) (value : V) :
    (m.insert other value).lookup key = if key = other then some value else m.lookup key := by
  split
  · rename_i same
    rw [same, AList.lookup_insert]
  · rename_i different
    exact AList.lookup_insert_ne different

theorem lookup_deleteAll (m : Map K V) (keys : List K) (key : K) :
    (m.deleteAll keys).lookup key = if key ∈ keys then none else m.lookup key := by
  induction keys generalizing m with
  | nil => rfl
  | cons other keys induction =>
      change (deleteAll (m.erase other) keys).lookup key = _
      rw [induction, lookup_erase]
      by_cases member : key ∈ keys <;> by_cases same : key = other <;> simp [member, same]

end Map

end Kiyomi.Go
