import Mathlib.Data.List.Basic
import Mathlib.Data.List.Forall2

namespace Kiyomi.Patterns

/-! # Patterns of runs

Regular expressions that are a sequence of elements and of runs of a class, of choices between
texts and of optional parts. A search returns the leftmost match, with every run as short or as long
as it can be and the first choice that leads on. -/

inductive Piece (α : Type u) where
  /-- An element of a class. -/
  | one (accepts : α → Bool)
  /-- A run of at least so many elements. -/
  | many (accepts : α → Bool) (least : Nat) (lazily : Bool)
  /-- One of some texts. -/
  | choice (options : List (List α))
  /-- An element with the run behind it, or nothing. -/
  | optional (opens accepts : α → Bool)

variable {α : Type u} {β : Type v} {accepts : α → Bool} {lazily : Bool} {least : Nat}
  {next : List α → Option β} {pattern : List (Piece α)} {s : List α} {texts : List (List α)}

/-- The texts of a piece. -/
def Piece.Matches : Piece α → List α → Prop
  | .one accepts, text => ∃ a, text = [a] ∧ accepts a = true
  | .many accepts least _, text => least ≤ text.length ∧ ∀ a ∈ text, accepts a = true
  | .choice options, text => text ∈ options
  | .optional opens accepts, text =>
      text = [] ∨ ∃ a run, text = a :: run ∧ opens a = true ∧ ∀ b ∈ run, accepts b = true

/-- A run with what follows it, in the order of preference. -/
def spread (accepts : α → Bool) (lazily : Bool) (next : List α → Option β) :
    Nat → List α → Option (List α × β)
  | least, [] => if least = 0 then (next []).map ([], ·) else none
  | least, a :: s =>
      let stop := if least = 0 then (next (a :: s)).map ([], ·) else none
      let onwards :=
        if accepts a then
          (spread accepts lazily next (least - 1) s).map fun found => (a :: found.1, found.2)
        else none
      if lazily then stop.or onwards else onwards.or stop

theorem or_cases {first second : Option β} {found : β} (some_found :
    (if lazily then first.or second else second.or first) = some found) :
    first = some found ∨ second = some found := by
  split at some_found
  · exact (Option.or_eq_some_iff.mp some_found).imp_right And.right
  · exact ((Option.or_eq_some_iff.mp some_found).imp_right And.right).symm

theorem spread_sound {run : List α} {found : β}
    (isFound : spread accepts lazily next least s = some (run, found)) :
    ∃ rest, s = run ++ rest ∧ least ≤ run.length ∧ (∀ a ∈ run, accepts a = true) ∧
      next rest = some found := by
  induction s generalizing least run with
  | nil =>
      rw [spread] at isFound
      split at isFound
      · rename_i zero
        rcases Option.map_eq_some_iff.mp isFound with ⟨_, isNext, same⟩
        cases same
        exact ⟨[], rfl, Nat.le_of_eq zero, by simp, isNext⟩
      · contradiction
  | cons a s induction =>
      rw [spread] at isFound
      rcases or_cases isFound with stopped | onwards
      · split at stopped
        · rename_i zero
          rcases Option.map_eq_some_iff.mp stopped with ⟨_, isNext, same⟩
          cases same
          exact ⟨a :: s, rfl, Nat.le_of_eq zero, by simp, isNext⟩
        · contradiction
      · split at onwards
        · rename_i accepted
          rcases Option.map_eq_some_iff.mp onwards with ⟨⟨behind, _⟩, isRun, same⟩
          cases same
          rcases induction isRun with ⟨rest, rfl, enough, all, isNext⟩
          exact ⟨rest, rfl, Nat.sub_le_iff_le_add.mp enough,
            List.forall_mem_cons.mpr ⟨accepted, all⟩, isNext⟩
        · contradiction

theorem isSome_or_cases {first second : Option β} (some_there : first.isSome ∨ second.isSome) :
    (if lazily then first.or second else second.or first).isSome := by
  split
  · rw [Option.isSome_or, Bool.or_eq_true]
    exact some_there
  · rw [Option.isSome_or, Bool.or_eq_true]
    exact some_there.symm

theorem spread_complete {run rest : List α} (enough : least ≤ run.length)
    (all : ∀ a ∈ run, accepts a = true) (continues : (next rest).isSome) :
    (spread accepts lazily next least (run ++ rest)).isSome := by
  induction run generalizing least with
  | nil =>
      have zero : least = 0 := Nat.le_zero.mp enough
      rcases rest with _ | ⟨a, rest⟩
      · rw [List.append_nil, spread, if_pos zero, Option.isSome_map]
        exact continues
      · rw [List.nil_append, spread]
        refine isSome_or_cases (.inl ?_)
        rw [if_pos zero, Option.isSome_map]
        exact continues
  | cons a run induction =>
      rcases List.forall_mem_cons.mp all with ⟨accepted, others⟩
      rw [List.cons_append, spread]
      refine isSome_or_cases (.inr ?_)
      rw [if_pos accepted, Option.isSome_map]
      refine induction ?_ others
      rw [List.length_cons] at enough
      omega

theorem matches_many :
    List.Forall₂ Piece.Matches (.many accepts least lazily :: pattern) texts ↔
      ∃ run rest, texts = run :: rest ∧ (least ≤ run.length ∧ ∀ a ∈ run, accepts a = true) ∧
        List.Forall₂ Piece.Matches pattern rest := by
  constructor
  · rintro (_ | ⟨isRun, rest⟩)
    exact ⟨_, _, rfl, isRun, rest⟩
  · rintro ⟨run, rest, rfl, isRun, matching⟩
    exact .cons isRun matching

variable [DecidableEq α]

/-- The pieces of a text that is to be matched literally. -/
def literal (text : List α) : List (Piece α) := text.map fun a => .one (· = a)

/-- The texts of the pieces, where the pattern matches at the start. -/
def matchAt : List (Piece α) → List α → Option (List (List α))
  | [], _ => some []
  | .one _ :: _, [] => none
  | .one accepts :: pattern, a :: s =>
      if accepts a then (matchAt pattern s).map ([a] :: ·) else none
  | .many accepts least lazily :: pattern, s =>
      (spread accepts lazily (matchAt pattern) least s).map fun found => found.1 :: found.2
  | .choice options :: pattern, s =>
      options.findSome? fun text =>
        if text <+: s then (matchAt pattern (s.drop text.length)).map (text :: ·) else none
  | .optional _ _ :: pattern, [] => (matchAt pattern []).map ([] :: ·)
  | .optional opens accepts :: pattern, a :: s =>
      (if opens a then
          (spread accepts false (matchAt pattern) 0 s).map fun found => (a :: found.1) :: found.2
        else none).or
        ((matchAt pattern (a :: s)).map ([] :: ·))

/-- The texts of the pieces in the leftmost match. -/
def find (pattern : List (Piece α)) : List α → Option (List (List α))
  | [] => matchAt pattern []
  | a :: s => (matchAt pattern (a :: s)).or (find pattern s)

/-- All matches of a pattern that does not match the empty text, each behind the one before it; the
elements to skip are those of the last match. -/
def findAllFrom (pattern : List (Piece α)) : Nat → List α → List (List (List α))
  | _, [] => []
  | skip + 1, _ :: s => findAllFrom pattern skip s
  | 0, a :: s =>
      match matchAt pattern (a :: s) with
      | some texts => texts :: findAllFrom pattern (texts.flatten.length - 1) s
      | none => findAllFrom pattern 0 s

def findAll (pattern : List (Piece α)) (s : List α) : List (List (List α)) :=
  findAllFrom pattern 0 s

theorem matchAt_sound (isFound : matchAt pattern s = some texts) :
    List.Forall₂ Piece.Matches pattern texts ∧ texts.flatten <+: s := by
  induction pattern generalizing s texts with
  | nil =>
      cases isFound
      exact ⟨.nil, List.nil_prefix⟩
  | cons piece pattern induction =>
      cases piece with
      | one accepts =>
          rcases s with _ | ⟨a, s⟩
          · contradiction
          · rw [matchAt] at isFound
            split at isFound
            · rename_i accepted
              rcases Option.map_eq_some_iff.mp isFound with ⟨others, isRest, rfl⟩
              rcases induction isRest with ⟨matching, inside⟩
              refine ⟨.cons ⟨a, rfl, accepted⟩ matching, ?_⟩
              rw [List.flatten_cons, List.singleton_append]
              exact List.cons_prefix_cons.mpr ⟨rfl, inside⟩
            · contradiction
      | many accepts least lazily =>
          rw [matchAt] at isFound
          rcases Option.map_eq_some_iff.mp isFound with ⟨⟨run, others⟩, isRun, rfl⟩
          rcases spread_sound isRun with ⟨rest, rfl, enough, all, isRest⟩
          rcases induction isRest with ⟨matching, inside⟩
          refine ⟨.cons ⟨enough, all⟩ matching, ?_⟩
          rw [List.flatten_cons]
          exact (List.prefix_append_right_inj run).mpr inside
      | choice options =>
          rw [matchAt] at isFound
          rcases List.exists_of_findSome?_eq_some isFound with ⟨text, isOption, starts⟩
          split at starts
          · rename_i isPrefix
            rcases isPrefix with ⟨rest, rfl⟩
            rw [List.drop_left] at starts
            rcases Option.map_eq_some_iff.mp starts with ⟨others, isRest, rfl⟩
            rcases induction isRest with ⟨matching, inside⟩
            refine ⟨.cons isOption matching, ?_⟩
            rw [List.flatten_cons]
            exact (List.prefix_append_right_inj text).mpr inside
          · contradiction
      | optional opens accepts =>
          have absent {s : List α} (isNext : (matchAt pattern s).map ([] :: ·) = some texts) :
              List.Forall₂ Piece.Matches (.optional opens accepts :: pattern) texts ∧
                texts.flatten <+: s := by
            rcases Option.map_eq_some_iff.mp isNext with ⟨others, isRest, rfl⟩
            exact (induction isRest).imp_left (.cons (.inl rfl))
          rcases s with _ | ⟨a, s⟩
          · exact absent isFound
          · rw [matchAt, Option.or_eq_some_iff] at isFound
            rcases isFound with isThere | ⟨_, isNext⟩
            · split at isThere
              · rename_i opened
                rcases Option.map_eq_some_iff.mp isThere with ⟨⟨run, others⟩, isRun, rfl⟩
                rcases spread_sound isRun with ⟨rest, rfl, _, all, isRest⟩
                rcases induction isRest with ⟨matching, inside⟩
                refine ⟨.cons (.inr ⟨a, run, rfl, opened, all⟩) matching, ?_⟩
                rw [List.flatten_cons, List.cons_append]
                exact List.cons_prefix_cons.mpr
                  ⟨rfl, (List.prefix_append_right_inj run).mpr inside⟩
              · contradiction
            · exact absent isNext

theorem matchAt_complete (matching : List.Forall₂ Piece.Matches pattern texts) (rest : List α) :
    (matchAt pattern (texts.flatten ++ rest)).isSome := by
  induction matching with
  | nil => rfl
  | @cons piece text pattern texts isText _ induction =>
      cases piece with
      | one accepts =>
          rcases isText with ⟨a, rfl, accepted⟩
          rw [List.flatten_cons, List.singleton_append, List.cons_append, matchAt, if_pos accepted,
            Option.isSome_map]
          exact induction
      | many accepts least lazily =>
          rw [List.flatten_cons, List.append_assoc, matchAt, Option.isSome_map]
          exact spread_complete isText.1 isText.2 induction
      | choice options =>
          rw [List.flatten_cons, List.append_assoc, matchAt, List.findSome?_isSome_iff]
          refine ⟨text, isText, ?_⟩
          rw [if_pos (List.prefix_append text _), List.drop_left, Option.isSome_map]
          exact induction
      | optional opens accepts =>
          rcases isText with rfl | ⟨a, run, rfl, opened, all⟩
          · have absent : ((matchAt pattern (texts.flatten ++ rest)).map ([] :: ·)).isSome := by
              rw [Option.isSome_map]
              exact induction
            rw [List.flatten_cons, List.nil_append]
            cases whole : texts.flatten ++ rest with
            | nil =>
                rw [whole] at absent
                exact absent
            | cons a s =>
                rw [whole] at absent
                rw [matchAt, Option.isSome_or, absent, Bool.or_true]
          · rw [List.flatten_cons, List.append_assoc, List.cons_append, matchAt, if_pos opened,
              Option.isSome_or, Option.isSome_map,
              spread_complete (Nat.zero_le _) all induction]
            rfl

/-- A match is a part of the text, made of texts of the pieces. -/
theorem find_sound (isFound : find pattern s = some texts) :
    List.Forall₂ Piece.Matches pattern texts ∧ texts.flatten <:+: s := by
  induction s with
  | nil => exact (matchAt_sound isFound).imp_right List.IsPrefix.isInfix
  | cons a s induction =>
      rw [find, Option.or_eq_some_iff] at isFound
      rcases isFound with here | ⟨_, later⟩
      · exact (matchAt_sound here).imp_right List.IsPrefix.isInfix
      · exact (induction later).imp_right List.infix_cons

/-- Where such a part exists, one is found. -/
theorem find_complete (matching : List.Forall₂ Piece.Matches pattern texts)
    (inside : texts.flatten <:+: s) : (find pattern s).isSome := by
  rcases inside with ⟨before, rest, rfl⟩
  have here := matchAt_complete matching rest
  induction before with
  | nil =>
      rw [List.nil_append]
      cases whole : texts.flatten ++ rest with
      | nil =>
          rw [find, ← whole]
          exact here
      | cons a s =>
          rw [whole] at here
          rw [find, Option.isSome_or, here]
          rfl
  | cons a before induction =>
      rw [List.cons_append, List.cons_append, find, Option.isSome_or, induction]
      exact Bool.or_true _

theorem matches_one {a : α} :
    List.Forall₂ Piece.Matches (.one (· = a) :: pattern) texts ↔
      ∃ rest, texts = [a] :: rest ∧ List.Forall₂ Piece.Matches pattern rest := by
  constructor
  · rintro (_ | ⟨⟨b, rfl, accepted⟩, rest⟩)
    rw [of_decide_eq_true accepted]
    exact ⟨_, rfl, rest⟩
  · rintro ⟨rest, rfl, matching⟩
    exact .cons ⟨a, rfl, decide_eq_true rfl⟩ matching

theorem flatten_of_literal {text : List α}
    (matching : List.Forall₂ Piece.Matches (literal text) texts) : texts.flatten = text := by
  induction text generalizing texts with
  | nil =>
      cases matching
      rfl
  | cons a text induction =>
      rcases matching with _ | ⟨⟨b, rfl, accepted⟩, rest⟩
      rw [List.flatten_cons, induction rest, of_decide_eq_true accepted, List.singleton_append]

theorem matches_literal (text : List α) :
    List.Forall₂ Piece.Matches (literal text) (text.map ([·])) := by
  induction text with
  | nil => exact .nil
  | cons a text induction => exact .cons ⟨a, rfl, decide_eq_true rfl⟩ induction

end Kiyomi.Patterns
