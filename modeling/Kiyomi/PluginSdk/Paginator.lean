import Kiyomi.Go.Strconv
import Mathlib.Data.List.Basic

namespace Kiyomi.PluginSdk

open Go

/-! # The offset paginator of the plugin SDK -/

structure OffsetPaginator where
  limit : Int
  offset : Int
  /-- -1 if unknown. -/
  totalCount : Int
  deriving DecidableEq

def newOffsetPaginator (limit initialOffset : Int) : OffsetPaginator where
  limit := if limit ≤ 0 then 20 else limit
  offset := if initialOffset < 0 then 0 else initialOffset
  totalCount := -1

namespace OffsetPaginator

def setTotal (p : OffsetPaginator) (total : Int) : OffsetPaginator :=
  { p with totalCount := total }

def hasNextPage (p : OffsetPaginator) (itemsInCurrentPage : Int) : Bool :=
  if itemsInCurrentPage ≤ 0 then false
  else if 0 ≤ p.totalCount then int64 (p.offset + itemsInCurrentPage) < p.totalCount
  else p.limit ≤ itemsInCurrentPage

def nextOffset (p : OffsetPaginator) : Int := int64 (p.offset + p.limit)

/-- The paginator afterwards, and whether there is a next page. -/
def advance (p : OffsetPaginator) (itemsInCurrentPage : Int) : OffsetPaginator × Bool :=
  if p.hasNextPage itemsInCurrentPage then ({ p with offset := p.nextOffset }, true)
  else (p, false)

end OffsetPaginator

/-! ## Crawling a server -/

/-- A server that returns at most `cap` items per request. -/
structure ItemServer (α : Type u) where
  items : List α
  cap : Nat

namespace ItemServer

variable {α : Type u} {s : ItemServer α} {p : OffsetPaginator} {page seen : List α} {requests : Nat}

def request (s : ItemServer α) (limit offset : Int) : List α :=
  (s.items.drop offset.toNat).take (min s.cap limit.toNat)

/-- The items seen by a loop that requests at the offset, sets the total and advances by the items
returned, until there is no next page; `none` where more requests than these are made. -/
def crawl (s : ItemServer α) : Nat → OffsetPaginator → Option (List α)
  | 0, _ => none
  | requests + 1, p =>
      let page := s.request p.limit p.offset
      let advanced := (p.setTotal s.items.length).advance page.length
      if advanced.2 then (s.crawl requests advanced.1).map (page ++ ·) else some page

/-- No more than the total is asked for, or no less than a page is returned. -/
def FullPages (s : ItemServer α) (p : OffsetPaginator) : Prop :=
  p.limit ≤ s.cap ∨ s.items.length ≤ s.cap

theorem length_request (s : ItemServer α) (limit : Int) (offset : Nat) :
    (s.request limit offset).length = min (min s.cap limit.toNat) (s.items.length - offset) := by
  rw [request, List.length_take, List.length_drop, Int.toNat_natCast]

theorem request_of_fullPages {offset : Nat} (full : s.FullPages p) :
    s.request p.limit offset = (s.items.drop offset).take p.limit.toNat := by
  rw [request, Int.toNat_natCast]
  rcases full with covered | covered
  · rw [Nat.min_eq_right (Int.toNat_le.mpr covered)]
  · have short : ((s.items.drop offset).take p.limit.toNat).length ≤ s.cap := by
      rw [List.length_take, List.length_drop]
      omega
    rw [← List.take_take, List.take_of_length_le short]

/-- One request of the loop. -/
theorem crawl_succ {offset : Nat} (isOffset : p.offset = offset)
    (small : s.items.length ≤ maxInt) (requests : Nat) :
    s.crawl (requests + 1) p =
      if 0 < (s.request p.limit offset).length ∧
          offset + (s.request p.limit offset).length < s.items.length then
        (s.crawl requests ⟨p.limit, int64 (offset + p.limit), s.items.length⟩).map
          (s.request p.limit offset ++ ·)
      else some (s.request p.limit offset) := by
  have returned := length_request s p.limit offset
  rw [crawl, isOffset]
  simp only [OffsetPaginator.advance, OffsetPaginator.hasNextPage, OffsetPaginator.setTotal,
    OffsetPaginator.nextOffset, isOffset]
  by_cases empty : (s.request p.limit offset).length = 0
  · simp [empty]
  · have inside : offset + (s.request p.limit offset).length ≤ s.items.length := by omega
    have exact : int64 (offset + (s.request p.limit offset).length) =
        (offset + (s.request p.limit offset).length : Nat) :=
      int64_of_range (by omega) (by omega)
    have positive : 0 < (s.request p.limit offset).length := Nat.pos_of_ne_zero empty
    have nonempty : ¬((s.request p.limit offset).length : Int) ≤ 0 := by omega
    rw [if_neg nonempty, if_pos (Int.natCast_nonneg _), exact]
    by_cases more : offset + (s.request p.limit offset).length < s.items.length
    · have counted : decide (((offset + (s.request p.limit offset).length : Nat) : Int) <
          s.items.length) = true := decide_eq_true (Int.ofNat_lt.mpr more)
      have both := And.intro positive more
      simp only [counted, both, and_self, if_true]
    · have counted : decide (((offset + (s.request p.limit offset).length : Nat) : Int) <
          s.items.length) = false := decide_eq_false fun less => more (Int.ofNat_lt.mp less)
      simp only [counted, more, and_false, if_false, Bool.false_eq_true]

/-- A loop over full pages sees what is left of the items. -/
theorem crawl_of_fullPages {offset : Nat} (isOffset : p.offset = offset) (positive : 1 ≤ p.limit)
    (small : s.items.length ≤ maxInt) (full : s.FullPages p) (inside : offset ≤ s.items.length)
    (enough : s.items.length < offset + requests) :
    s.crawl requests p = some (s.items.drop offset) := by
  induction requests generalizing p offset with
  | zero => omega
  | succ requests induction =>
      rw [crawl_succ isOffset small, request_of_fullPages full]
      have returned : ((s.items.drop offset).take p.limit.toNat).length =
          min p.limit.toNat (s.items.length - offset) := by
        rw [List.length_take, List.length_drop]
      split
      · rename_i more
        have whole : p.limit.toNat < s.items.length - offset := by omega
        have next : int64 (offset + p.limit) = (offset + p.limit.toNat : Nat) := by
          rw [int64_of_range (by omega) (by omega)]
          omega
        rw [@induction ⟨p.limit, int64 (offset + p.limit), _⟩ _ next positive full (by omega)
          (by omega), Option.map_some, ← List.drop_drop, List.take_append_drop]
      · have last : s.items.length - offset ≤ p.limit.toNat := by omega
        rw [List.take_of_length_le]
        rw [List.length_drop]
        exact last

/-- What a loop sees starts with the first page, and is nothing where that is empty. -/
theorem exists_of_crawl {offset : Nat} (isOffset : p.offset = offset)
    (small : s.items.length ≤ maxInt) (crawled : s.crawl requests p = some seen) :
    ∃ rest, seen = s.request p.limit offset ++ rest ∧
      (s.request p.limit offset = [] → rest = []) := by
  cases requests with
  | zero => contradiction
  | succ requests =>
      rw [crawl_succ isOffset small] at crawled
      split at crawled
      · rename_i more
        rcases Option.map_eq_some_iff.mp crawled with ⟨rest, _, appended⟩
        refine ⟨rest, appended.symm, fun empty => ?_⟩
        rw [empty] at more
        exact absurd more.1 (Nat.lt_irrefl 0)
      · cases crawled
        exact ⟨[], (List.append_nil _).symm, fun _ => rfl⟩

/-- The items of a server, as their numbers. -/
def numbered (total cap : Nat) : ItemServer Nat := ⟨List.range total, cap⟩

/-- Below a cap that is smaller than the limit, the item of that number is passed by. -/
theorem passed_of_cap {total cap : Nat} (small : total ≤ maxInt) (isInt : p.limit ≤ maxInt)
    (start : p.offset = 0) (capped : cap < p.limit) (more : cap < total) :
    (numbered total cap).crawl requests p ≠ some (List.range total) := by
  intro crawled
  have count : (numbered total cap).items.length = total := List.length_range
  have countSmall : ((numbered total cap).items.length : Int) ≤ maxInt := by rwa [count]
  have page (offset : Nat) : (numbered total cap).request p.limit offset =
      ((List.range total).drop offset).take cap := by
    rw [request, Int.toNat_natCast]
    exact congrArg₂ List.take (Nat.min_eq_left (show cap ≤ p.limit.toNat by omega)) rfl
  have first : (numbered total cap).request p.limit (0 : Nat) = List.range cap := by
    rw [page, List.drop_zero, List.take_range, Nat.min_eq_left (Nat.le_of_lt more)]
  cases requests with
  | zero => contradiction
  | succ requests =>
      rw [@crawl_succ _ _ _ 0 start countSmall, first, List.length_range] at crawled
      split at crawled
      · rename_i positive
        rcases Option.map_eq_some_iff.mp crawled with ⟨rest, continued, whole⟩
        have next : int64 ((0 : Nat) + p.limit) = p.limit.toNat := by
          rw [int64_of_range (by omega) (by omega)]
          omega
        have expected : rest[0]? = some cap := by
          have item := congrArg (·[cap]?) whole
          rw [List.getElem?_append_right (by simp), List.length_range, Nat.sub_self,
            List.getElem?_range more] at item
          exact item
        rcases exists_of_crawl next countSmall continued with ⟨others, isRest, none_left⟩
        rw [page] at isRest none_left
        by_cases inside : p.limit.toNat < total
        · have found : rest[0]? = some p.limit.toNat := by
            rw [isRest, List.getElem?_append_left (by simp; omega),
              List.getElem?_take_of_lt positive.1, List.getElem?_drop, Nat.add_zero,
              List.getElem?_range inside]
          rw [expected, Option.some.injEq] at found
          omega
        · have empty : ((List.range total).drop p.limit.toNat).take cap = [] := by
            rw [List.drop_of_length_le (by simp; omega), List.take_nil]
          rw [isRest, empty, none_left empty] at expected
          contradiction
      · have counts := congrArg List.length (Option.some.inj crawled)
        rw [List.length_range, List.length_range] at counts
        omega

theorem crawl_eq_range_iff {limit : Int} {total cap : Nat} (isInt : limit ≤ maxInt)
    (small : total ≤ maxInt) :
    (∃ requests, (numbered total cap).crawl requests (newOffsetPaginator limit 0) =
        some (List.range total)) ↔
      (if limit ≤ 0 then 20 else limit) ≤ (cap : Int) ∨ total ≤ cap := by
  have positive : 1 ≤ (newOffsetPaginator limit 0).limit := by
    rw [newOffsetPaginator]
    dsimp only
    split <;> omega
  have pageSize : (newOffsetPaginator limit 0).limit ≤ maxInt := by
    rw [newOffsetPaginator]
    dsimp only
    split
    · decide
    · exact isInt
  have count : (numbered total cap).items.length = total := List.length_range
  have countSmall : ((numbered total cap).items.length : Int) ≤ maxInt := by rwa [count]
  constructor
  · rintro ⟨requests, crawled⟩
    by_contra neither
    rw [not_or] at neither
    exact passed_of_cap small pageSize rfl (Int.not_le.mp neither.1) (Nat.not_le.mp neither.2)
      crawled
  · intro full
    have full : (numbered total cap).FullPages (newOffsetPaginator limit 0) := by
      rw [FullPages, count]
      exact full
    exact ⟨total + 1, @crawl_of_fullPages _ _ _ _ 0 rfl positive countSmall full
      (Nat.zero_le _) (by omega)⟩

theorem crawl_eq_range_iff_seven :
    (5 : Int) ≤ maxInt ∧ ((7 : Nat) : Int) ≤ maxInt ∧
      ((∃ requests, (numbered 7 6).crawl requests (newOffsetPaginator 5 0) =
          some (List.range 7)) ↔
        (if (5 : Int) ≤ 0 then 20 else 5) ≤ ((6 : Nat) : Int) ∨ 7 ≤ 6) :=
  ⟨by decide, by decide, crawl_eq_range_iff (by decide) (by decide)⟩

/-- The offset moves on by the limit also where the server returned less. -/
theorem items_are_passed : ¬∀ (total cap : Nat) (limit : Int),
    1 ≤ cap → total ≤ maxInt → limit ≤ maxInt →
      ∃ requests, (numbered total cap).crawl requests (newOffsetPaginator limit 0) =
        some (List.range total) := by
  intro complete
  rcases complete 3 1 2 (by decide) (by decide) (by decide) with ⟨requests, crawled⟩
  exact passed_of_cap (by decide) (by decide) rfl (by decide) (by decide) crawled

end ItemServer

end Kiyomi.PluginSdk
