import Mathlib.Data.List.DropRight
import Mathlib.Data.List.GetD
import Mathlib.Data.Nat.ModEq

namespace Kiyomi.Plugin.Host

/-! # The ring buffer -/

/-- `DefaultLogBufferCapacity`. -/
def defaultLogBufferCapacity : Nat := 200

/-- The entries from `start` on, `size` of them, going round. -/
structure RingBuffer (α : Type u) where
  cells : List α
  capacity : Nat
  start : Nat
  size : Nat
  length_eq : cells.length = capacity
  start_lt : start < capacity
  size_le : size ≤ capacity

namespace RingBuffer

variable {α : Type u}

/-- `NewRingBuffer`. -/
def new [Inhabited α] (capacity : Int) : RingBuffer α :=
  let slots := if capacity ≤ 0 then defaultLogBufferCapacity else capacity.toNat
  { cells := List.replicate slots default
    capacity := slots
    start := 0
    size := 0
    length_eq := List.length_replicate
    start_lt := by
      unfold slots defaultLogBufferCapacity
      split <;> omega
    size_le := Nat.zero_le _ }

/-- A full buffer overwrites its oldest entry. -/
def push (r : RingBuffer α) (entry : α) : RingBuffer α :=
  if room : r.size < r.capacity then
    { r with
      cells := r.cells.set ((r.start + r.size) % r.capacity) entry
      size := r.size + 1
      length_eq := by rw [List.length_set, r.length_eq]
      size_le := room }
  else
    { r with
      cells := r.cells.set r.start entry
      start := (r.start + 1) % r.capacity
      length_eq := by rw [List.length_set, r.length_eq]
      start_lt := Nat.mod_lt _ (Nat.zero_lt_of_lt r.start_lt) }

/-- The oldest entry first. -/
def entries [Inhabited α] (r : RingBuffer α) : List α :=
  (List.range r.size).map fun i => r.cells.getD ((r.start + i) % r.capacity) default

theorem capacity_push (r : RingBuffer α) (entry : α) : (r.push entry).capacity = r.capacity := by
  unfold push
  split <;> rfl

theorem rtake_of_length_le {n : Nat} {xs : List α} (small : xs.length ≤ n) : xs.rtake n = xs := by
  rw [List.rtake, Nat.sub_eq_zero_of_le small, List.drop_zero]

theorem rtake_rtake_append (n : Nat) (xs ys : List α) :
    (xs.rtake n ++ ys).rtake n = (xs ++ ys).rtake n := by
  simp only [List.rtake_eq_reverse_take_reverse, List.reverse_append, List.reverse_reverse,
    List.take_append, List.take_take, List.length_reverse]
  congr 2
  rw [Nat.min_eq_left (Nat.sub_le _ _)]

/-- Two places on the way round are the same cell only if they are the same place. -/
theorem turn_inj {start capacity i j : Nat} (i_lt : i < capacity) (j_lt : j < capacity)
    (same : (start + i) % capacity = (start + j) % capacity) : i = j := by
  have places : i % capacity = j % capacity := Nat.ModEq.add_left_cancel' start same
  rwa [Nat.mod_eq_of_lt i_lt, Nat.mod_eq_of_lt j_lt] at places

variable [Inhabited α]

theorem capacity_new {capacity : Nat} (positive : 0 < capacity) :
    (new capacity : RingBuffer α).capacity = capacity :=
  (if_neg (by omega)).trans (Int.toNat_natCast capacity)

theorem entries_new (capacity : Int) : (new capacity : RingBuffer α).entries = [] := rfl

theorem length_entries (r : RingBuffer α) : r.entries.length = r.size := by
  rw [entries, List.length_map, List.length_range]

/-! ## Going round -/

theorem getD_set {cells : List α} {place other : Nat} (entry : α) (inside : place < cells.length) :
    (cells.set place entry).getD other default =
      if other = place then entry else cells.getD other default := by
  rw [List.getD_eq_getElem?_getD, List.getD_eq_getElem?_getD, List.getElem?_set]
  by_cases same : other = place
  · subst same
    rw [if_pos rfl, if_pos inside, if_pos rfl]
    rfl
  · rw [if_neg (Ne.symm same), if_neg same]

/-- A buffer holds the last entries that were pushed, as many as it has room for. -/
theorem entries_push (r : RingBuffer α) (entry : α) :
    (r.push entry).entries = (r.entries ++ [entry]).rtake r.capacity := by
  have positive : 0 < r.capacity := Nat.zero_lt_of_lt r.start_lt
  unfold push
  split
  · rename_i room
    have place : (r.start + r.size) % r.capacity < r.cells.length := by
      rw [r.length_eq]
      exact Nat.mod_lt _ positive
    rw [rtake_of_length_le (by rw [List.length_append, length_entries]; exact room)]
    change (List.range (r.size + 1)).map (fun i =>
      (r.cells.set ((r.start + r.size) % r.capacity) entry).getD ((r.start + i) % r.capacity)
        default) = r.entries ++ [entry]
    rw [List.range_succ, List.map_append, List.map_singleton, getD_set entry place, if_pos rfl,
      entries]
    congr 1
    refine List.map_congr_left fun i member => ?_
    have earlier := List.mem_range.mp member
    rw [getD_set entry place, if_neg]
    exact fun same => earlier.ne (turn_inj (earlier.trans room) room same)
  · rename_i full
    have size : r.size = r.capacity := le_antisymm r.size_le (not_lt.mp full)
    have place : r.start < r.cells.length := r.length_eq ▸ r.start_lt
    have isStart : (r.start + 0) % r.capacity = r.start := Nat.mod_eq_of_lt r.start_lt
    have turn (i : Nat) : ((r.start + 1) % r.capacity + i) % r.capacity =
        (r.start + (i + 1)) % r.capacity := by
      rw [Nat.mod_add_mod, Nat.add_assoc, Nat.add_comm 1]
    obtain ⟨others, isSucc⟩ := Nat.exists_eq_succ_of_ne_zero positive.ne'
    have newest : (r.entries ++ [entry]).rtake r.capacity = (r.entries ++ [entry]).drop 1 := by
      rw [List.rtake, List.length_append, length_entries, List.length_singleton, size,
        Nat.add_sub_cancel_left]
    rw [newest]
    change (List.range r.size).map (fun i => (r.cells.set r.start entry).getD
      (((r.start + 1) % r.capacity + i) % r.capacity) default) = _
    have oldest : r.entries = r.cells.getD ((r.start + 0) % r.capacity) default ::
        (List.range others).map fun i => r.cells.getD ((r.start + (i + 1)) % r.capacity) default := by
      rw [entries, size, isSucc, List.range_succ_eq_map, List.map_cons, List.map_map, ← isSucc]
      rfl
    rw [oldest, List.cons_append, List.drop_one, List.tail_cons, size, isSucc, List.range_succ,
      List.map_append, List.map_singleton, ← isSucc]
    congr 1
    · refine List.map_congr_left fun i member => ?_
      have earlier : i + 1 < r.capacity := by
        rw [isSucc]
        exact Nat.succ_lt_succ (List.mem_range.mp member)
      rw [turn, getD_set entry place, if_neg]
      intro same
      exact absurd (turn_inj earlier positive (same.trans isStart.symm)) (Nat.succ_ne_zero i)
    · rw [turn, getD_set entry place, show others + 1 = r.capacity from isSucc.symm,
        Nat.add_mod_right, Nat.mod_eq_of_lt r.start_lt, if_pos rfl]

/-- The entries after any pushes. -/
theorem entries_pushAll (r : RingBuffer α) (added : List α) :
    (added.foldl push r).entries = (r.entries ++ added).rtake r.capacity := by
  induction added generalizing r with
  | nil =>
      rw [List.append_nil, rtake_of_length_le (r.length_entries.trans_le r.size_le)]
      rfl
  | cons entry added induction =>
      rw [List.foldl_cons, induction, entries_push, capacity_push, rtake_rtake_append,
        List.append_assoc, List.singleton_append]

end RingBuffer

end Kiyomi.Plugin.Host
