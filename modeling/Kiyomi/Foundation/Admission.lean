import Mathlib.Data.List.Sort

namespace Kiyomi

/-! # Admission under limits

Items come in some order. Each is let in when the state admits it, and each one let in
changes the state. With limits that only fill up, an item that is refused once stays
refused. -/

structure Admission (State : Type u) (Item : Type v) where
  admits : State → Item → Bool
  accept : State → Item → State
  refusal_stays : ∀ {state item} other, admits state item = false →
    admits (accept state other) item = false

namespace Admission

variable {State : Type u} {Item : Type v} (gate : Admission State Item)

/-- The items let in, in their order. -/
def admitted : State → List Item → List Item
  | _, [] => []
  | state, item :: items =>
      if gate.admits state item then item :: admitted (gate.accept state item) items
      else admitted state items

/-- The state when all items have come. -/
def closing (state : State) (items : List Item) : State :=
  items.foldl (fun state item => if gate.admits state item then gate.accept state item else state)
    state

variable {gate} {state : State} {items : List Item} {item : Item}

theorem admitted_cons (state : State) (item : Item) (items : List Item) :
    gate.admitted state (item :: items) =
      if gate.admits state item then item :: gate.admitted (gate.accept state item) items
      else gate.admitted state items := rfl

theorem closing_cons (state : State) (item : Item) (items : List Item) :
    gate.closing state (item :: items) =
      if gate.admits state item then gate.closing (gate.accept state item) items
      else gate.closing state items := by
  rw [closing, List.foldl_cons]
  split <;> rfl

theorem admitted_sublist (state : State) (items : List Item) :
    (gate.admitted state items).Sublist items := by
  induction items generalizing state with
  | nil => exact .slnil
  | cons item items induction =>
      unfold admitted
      split
      · exact (induction _).cons_cons item
      · exact (induction state).cons item

theorem closing_eq (state : State) (items : List Item) :
    gate.closing state items = (gate.admitted state items).foldl gate.accept state := by
  induction items generalizing state with
  | nil => rfl
  | cons item items induction =>
      rw [closing_cons, admitted_cons]
      split
      · exact induction _
      · exact induction state

theorem admitted_append (state : State) (before after : List Item) :
    gate.admitted state (before ++ after) =
      gate.admitted state before ++ gate.admitted (gate.closing state before) after := by
  induction before generalizing state with
  | nil => rfl
  | cons item before induction =>
      rw [List.cons_append, admitted_cons, admitted_cons, closing_cons]
      split
      · rw [induction, List.cons_append]
      · exact induction state

theorem refused_admitted (refused : gate.admits state item = false) (others : List Item) :
    gate.admits (others.foldl gate.accept state) item = false := by
  induction others generalizing state with
  | nil => exact refused
  | cons other others induction => exact induction (gate.refusal_stays other refused)

theorem not_mem_admitted (refused : gate.admits state item = false) :
    item ∉ gate.admitted state items := by
  induction items generalizing state with
  | nil => exact List.not_mem_nil
  | cons other items induction =>
      unfold admitted
      split
      · rename_i isAdmitted
        rw [List.mem_cons, not_or]
        refine ⟨?_, induction (gate.refusal_stays other refused)⟩
        rintro rfl
        rw [refused] at isAdmitted
        contradiction
      · exact induction refused

/-- Whoever is not let in would be refused at the end as well. -/
theorem admitted_or_refused (member : item ∈ items) :
    item ∈ gate.admitted state items ∨ gate.admits (gate.closing state items) item = false := by
  induction items generalizing state with
  | nil => cases member
  | cons other items induction =>
      rw [admitted_cons, closing_cons]
      split
      · rcases List.mem_cons.mp member with rfl | later
        · exact .inl List.mem_cons_self
        · exact (induction later).imp_left (List.mem_cons_of_mem other)
      · rename_i notAdmitted
        rcases List.mem_cons.mp member with rfl | later
        · right
          rw [closing_eq]
          exact refused_admitted (Bool.eq_false_iff.mpr notAdmitted) _
        · exact induction later

/-- Of two items that every state treats alike, the later one is not let in without the
earlier one. -/
theorem admitted_of_later {before : Item → Item → Prop} (ordered : items.Pairwise before)
    {earlier later : Item} (alike : ∀ state, gate.admits state earlier = gate.admits state later)
    (isLater : later ∈ gate.admitted state items) (member : earlier ∈ items)
    (notAfter : ¬ before later earlier) : earlier ∈ gate.admitted state items := by
  induction items generalizing state with
  | nil => cases member
  | cons first items induction =>
      rw [List.pairwise_cons] at ordered
      unfold admitted at isLater ⊢
      split at isLater
      · rename_i isAdmitted
        rw [if_pos isAdmitted]
        rcases List.mem_cons.mp member with rfl | inRest
        · exact List.mem_cons_self
        · rcases List.mem_cons.mp isLater with rfl | laterInRest
          · exact absurd (ordered.1 earlier inRest) notAfter
          · exact List.mem_cons_of_mem first (induction ordered.2 laterInRest inRest)
      · rename_i notAdmitted
        rw [if_neg notAdmitted]
        rcases List.mem_cons.mp member with rfl | inRest
        · rw [Bool.not_eq_true, alike] at notAdmitted
          exact absurd isLater (not_mem_admitted notAdmitted)
        · exact induction ordered.2 isLater inRest

/-- What holds of the state and survives each admission holds at the end. -/
theorem closing_invariant (Invariant : State → Prop)
    (admits : ∀ state item, Invariant state → gate.admits state item = true →
      Invariant (gate.accept state item)) (initially : Invariant state) :
    Invariant (gate.closing state items) := by
  induction items generalizing state with
  | nil => exact initially
  | cons item items induction =>
      rw [closing_cons]
      split
      · rename_i isAdmitted
        exact induction (admits state item initially isAdmitted)
      · exact induction initially

end Admission

end Kiyomi
