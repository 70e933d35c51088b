import Mathlib.Data.List.DropRight

namespace Kiyomi.Go

/-! # Strings as bytes

White space is trimmed where the bytes are the UTF-8 text of a white space rune; bytes that
are no UTF-8 text stay. -/

namespace Bytes

def asciiSpace (b : UInt8) : Bool := b == 32 || (9 ≤ b && b ≤ 13)

/-- The text of one rune of `unicode.IsSpace`. -/
def isSpaceText : List UInt8 → Bool
  | [a] => asciiSpace a
  | [a, b] => a == 0xC2 && (b == 0x85 || b == 0xA0)
  | [a, b, c] =>
      (a == 0xE1 && b == 0x9A && c == 0x80) ||
      (a == 0xE2 && b == 0x80 &&
        ((0x80 ≤ c && c ≤ 0x8A) || c == 0xA8 || c == 0xA9 || c == 0xAF)) ||
      (a == 0xE2 && b == 0x81 && c == 0x9F) ||
      (a == 0xE3 && b == 0x80 && c == 0x80)
  | _ => false

/-- How many bytes the white space rune at the start of `s` has. -/
def spaceWidth (isSpace : List UInt8 → Bool) (s : List UInt8) : Option Nat :=
  if isSpace (s.take 1) then some 1
  else if isSpace (s.take 2) then some 2
  else if isSpace (s.take 3) then some 3
  else none

/-- Drop `skip` bytes, and then white space. -/
def trimFrom (isSpace : List UInt8 → Bool) : Nat → List UInt8 → List UInt8
  | _, [] => []
  | skip + 1, _ :: s => trimFrom isSpace skip s
  | 0, b :: s =>
      match spaceWidth isSpace (b :: s) with
      | none => b :: s
      | some n => trimFrom isSpace (n - 1) s

def trimLeftSpace (s : List UInt8) : List UInt8 := trimFrom isSpaceText 0 s

def trimRightSpace (s : List UInt8) : List UInt8 :=
  (trimFrom (fun t => isSpaceText t.reverse) 0 s.reverse).reverse

/-- `strings.TrimSpace`. -/
def trimSpace (s : List UInt8) : List UInt8 := trimRightSpace (trimLeftSpace s)

/-- `strings.TrimRight` for a cutset of one byte. -/
def trimRight (cut : UInt8) (s : List UInt8) : List UInt8 := s.rdropWhile (· == cut)

/-- `strings.TrimLeft` for a cutset of one byte. -/
def trimLeft (cut : UInt8) (s : List UInt8) : List UInt8 := s.dropWhile (· == cut)

/-- `strings.Trim` for a cutset of one byte. -/
def trim (cut : UInt8) (s : List UInt8) : List UInt8 := trimRight cut (trimLeft cut s)

/-- Drop `skip` bytes, and then read the fields, of the first of which there are bytes already. -/
def fieldsFrom : Nat → List UInt8 → List UInt8 → List (List UInt8)
  | _, current, [] => if current = [] then [] else [current]
  | skip + 1, current, _ :: s => fieldsFrom skip current s
  | 0, current, b :: s =>
      match spaceWidth isSpaceText (b :: s) with
      | none => fieldsFrom 0 (current ++ [b]) s
      | some n => (if current = [] then [] else [current]) ++ fieldsFrom (n - 1) [] s

/-- `strings.Fields`. -/
def fields (s : List UInt8) : List (List UInt8) := fieldsFrom 0 [] s

/-- `strings.ReplaceAll` of one byte by another. -/
def replace (old new : UInt8) (s : List UInt8) : List UInt8 :=
  s.map fun b => if b = old then new else b

/-! ## Trimming at one end -/

variable {isSpace : List UInt8 → Bool} {s t : List UInt8} {n : Nat}

theorem trimFrom_skip (isSpace : List UInt8 → Bool) (skip : Nat) (s : List UInt8) :
    trimFrom isSpace skip s = trimFrom isSpace 0 (s.drop skip) := by
  induction skip generalizing s with
  | zero => rfl
  | succ skip induction =>
      cases s with
      | nil => rfl
      | cons b s => exact induction s

theorem spaceWidth_eq_some_iff : spaceWidth isSpace s = some n ↔
    (0 < n ∧ n ≤ 3) ∧ isSpace (s.take n) = true ∧
      ∀ m, 0 < m → m < n → isSpace (s.take m) = false := by
  unfold spaceWidth
  constructor
  · intro width
    split at width
    · cases width
      exact ⟨by decide, ‹_›, by omega⟩
    · rename_i first
      split at width
      · cases width
        refine ⟨by decide, ‹_›, fun m positive less => ?_⟩
        obtain rfl : m = 1 := by omega
        simpa using first
      · rename_i second
        split at width
        · cases width
          refine ⟨by decide, ‹_›, fun m positive less => ?_⟩
          obtain rfl | rfl : m = 1 ∨ m = 2 := by omega
          · simpa using first
          · simpa using second
        · contradiction
  · rintro ⟨⟨positive, small⟩, isWidth, earlier⟩
    obtain rfl | rfl | rfl : n = 1 ∨ n = 2 ∨ n = 3 := by omega
    · rw [if_pos isWidth]
    · rw [earlier 1 (by decide) (by decide), if_neg Bool.false_ne_true, if_pos isWidth]
    · rw [earlier 1 (by decide) (by decide), earlier 2 (by decide) (by decide),
        if_neg Bool.false_ne_true, if_neg Bool.false_ne_true, if_pos isWidth]

theorem spaceWidth_eq_none_iff : spaceWidth isSpace s = none ↔
    ∀ m, 0 < m → m ≤ 3 → isSpace (s.take m) = false := by
  constructor
  · intro width m positive small
    simp only [spaceWidth, ite_eq_iff, reduceCtorEq, and_false, false_or, and_true,
      Bool.not_eq_true] at width
    rcases width with ⟨first, second, third⟩
    obtain rfl | rfl | rfl : m = 1 ∨ m = 2 ∨ m = 3 := by omega
    · exact first
    · exact second
    · exact third
  · intro no_width
    rw [spaceWidth, no_width 1 (by decide) (by decide), no_width 2 (by decide) (by decide),
      no_width 3 (by decide) (by decide)]
    rfl

theorem trimFrom_space (width : spaceWidth isSpace s = some n) :
    trimFrom isSpace 0 s = trimFrom isSpace 0 (s.drop n) := by
  cases s with
  | nil => rw [List.drop_nil]
  | cons b s =>
      rw [trimFrom, width]
      obtain ⟨m, rfl⟩ := Nat.exists_eq_succ_of_ne_zero (spaceWidth_eq_some_iff.mp width).1.1.ne'
      exact trimFrom_skip isSpace m s

theorem trimFrom_other (width : spaceWidth isSpace s = none) : trimFrom isSpace 0 s = s := by
  cases s with
  | nil => rfl
  | cons b s => rw [trimFrom, width]

/-- The width is that of a whole rune. -/
theorem spaceWidth_le (noText : isSpace [] = false) (width : spaceWidth isSpace s = some n) :
    n ≤ s.length := by
  rcases (spaceWidth_eq_some_iff).mp width with ⟨_, isWidth, earlier⟩
  by_contra short
  rw [not_le] at short
  rw [List.take_of_length_le short.le] at isWidth
  cases s with
  | nil =>
      rw [noText] at isWidth
      contradiction
  | cons b s =>
      have missed := earlier (b :: s).length (Nat.succ_pos _) short
      rw [List.take_length, isWidth] at missed
      contradiction

theorem spaceWidth_append (noText : isSpace [] = false) (width : spaceWidth isSpace s = some n)
    (t : List UInt8) : spaceWidth isSpace (s ++ t) = some n := by
  have whole := spaceWidth_le noText width
  rw [spaceWidth_eq_some_iff] at width ⊢
  rcases width with ⟨bounds, isWidth, earlier⟩
  refine ⟨bounds, ?_, fun m positive less => ?_⟩
  · rwa [List.take_append_of_le_length whole]
  · rw [List.take_append_of_le_length (less.le.trans whole)]
    exact earlier m positive less

/-- White space at the start of the first part goes first. -/
theorem trimFrom_append (noText : isSpace [] = false) (s t : List UInt8) :
    trimFrom isSpace 0 (s ++ t) = trimFrom isSpace 0 (trimFrom isSpace 0 s ++ t) := by
  induction length : s.length using Nat.strongRecOn generalizing s with
  | ind size induction =>
      cases width : spaceWidth isSpace s with
      | none => rw [trimFrom_other width]
      | some n =>
          have whole := spaceWidth_le noText width
          have positive := (spaceWidth_eq_some_iff.mp width).1.1
          rw [trimFrom_space (spaceWidth_append noText width t), trimFrom_space width,
            List.drop_append_of_le_length whole]
          exact induction (s.drop n).length (by rw [List.length_drop]; omega) (s.drop n) rfl

theorem spaceWidth_trimFrom (isSpace : List UInt8 → Bool) (noText : isSpace [] = false)
    (s : List UInt8) : spaceWidth isSpace (trimFrom isSpace 0 s) = none := by
  induction length : s.length using Nat.strongRecOn generalizing s with
  | ind size induction =>
      cases width : spaceWidth isSpace s with
      | none => rwa [trimFrom_other width]
      | some n =>
          have whole := spaceWidth_le noText width
          have positive := (spaceWidth_eq_some_iff.mp width).1.1
          rw [trimFrom_space width]
          exact induction (s.drop n).length (by rw [List.length_drop]; omega) (s.drop n) rfl

theorem trimFrom_suffix (isSpace : List UInt8 → Bool) (skip : Nat) (s : List UInt8) :
    trimFrom isSpace skip s <:+ s := by
  induction s generalizing skip with
  | nil =>
      cases skip
      · exact List.suffix_rfl
      · exact List.suffix_rfl
  | cons b s induction =>
      cases skip with
      | succ skip => exact (induction skip).trans (List.suffix_cons b s)
      | zero =>
          rw [trimFrom]
          split
          · exact List.suffix_rfl
          · exact (induction _).trans (List.suffix_cons b s)

/-! ## More bytes -/

/-- The byte continues no rune. -/
def StartsRune (b : UInt8) : Prop := b < 0x80 ∨ 0xC0 ≤ b

instance (b : UInt8) : Decidable (StartsRune b) := inferInstanceAs (Decidable (_ ∨ _))

/-- No rune goes on past the start of another. -/
theorem isSpaceText_append {b : UInt8} (starts : StartsRune b) (nonempty : s ≠ [])
    (t : List UInt8) : isSpaceText (s ++ b :: t) = false := by
  have other : ∀ c : UInt8, 0x80 ≤ c → c < 0xC0 → (b == c) = false := by
    intro c low high
    refine beq_eq_false_iff_ne.mpr fun same => ?_
    subst same
    rcases starts with small | large
    · exact absurd low (UInt8.not_le.mpr small)
    · exact absurd large (UInt8.not_le.mpr high)
  have outside : (decide (0x80 ≤ b) && decide (b ≤ 0x8A)) = false := by
    rw [Bool.and_eq_false_iff, decide_eq_false_iff_not, decide_eq_false_iff_not, UInt8.not_le,
      UInt8.not_le]
    rcases starts with small | large
    · exact .inl small
    · exact .inr (UInt8.lt_of_lt_of_le (by decide) large)
  rcases s with _ | ⟨a, _ | ⟨c, _ | ⟨d, s⟩⟩⟩
  · contradiction
  · rcases t with _ | ⟨c, _ | ⟨d, t⟩⟩
    · simp [isSpaceText, other]
    · simp [isSpaceText, other]
    · rfl
  · rcases t with _ | ⟨d, t⟩
    · simp only [List.cons_append, List.nil_append, isSpaceText, outside]
      simp [other]
    · rfl
  · cases s <;> rfl

/-- A white space rune starts with such a byte. -/
theorem startsRune_of_isSpaceText {b : UInt8} (isRune : isSpaceText (b :: t) = true) :
    StartsRune b := by
  have decided : ∀ c : UInt8, StartsRune c → (b == c) = true → StartsRune b := fun c starts same =>
    beq_iff_eq.mp same ▸ starts
  rcases t with _ | ⟨c, _ | ⟨d, _ | ⟨e, t⟩⟩⟩
  · simp only [isSpaceText, asciiSpace, Bool.or_eq_true, Bool.and_eq_true, decide_eq_true_eq]
      at isRune
    rcases isRune with same | ⟨_, small⟩
    · exact decided _ (by decide) same
    · exact .inl (UInt8.lt_of_le_of_lt small (by decide))
  · simp only [isSpaceText, Bool.and_eq_true] at isRune
    exact decided _ (by decide) isRune.1
  · simp only [isSpaceText, Bool.or_eq_true, Bool.and_eq_true] at isRune
    rcases isRune with ((first | second) | third) | fourth
    · exact decided _ (by decide) first.1.1
    · exact decided _ (by decide) second.1.1
    · exact decided _ (by decide) third.1.1
    · exact decided _ (by decide) fourth.1.1
  · contradiction

/-- An ASCII byte of a white space rune is one by itself. -/
theorem asciiSpace_of_isSpaceText {b : UInt8} (ascii : b < 0x80) (member : b ∈ s)
    (isRune : isSpaceText s = true) : asciiSpace b = true := by
  rcases List.append_of_mem member with ⟨start, rest, rfl⟩
  cases start with
  | cons c start =>
      rw [isSpaceText_append (.inl ascii) (List.cons_ne_nil c start)] at isRune
      contradiction
  | nil =>
      have other : ∀ c : UInt8, 0x80 ≤ c → (b == c) = false := fun c low =>
        beq_eq_false_iff_ne.mpr fun same => absurd (same ▸ low) (UInt8.not_le.mpr ascii)
      rcases rest with _ | ⟨c, _ | ⟨d, _ | ⟨e, rest⟩⟩⟩
      · exact isRune
      · simp [isSpaceText, other] at isRune
      · simp [isSpaceText, other] at isRune
      · contradiction

theorem trimLeftSpace_append (s t : List UInt8) :
    trimLeftSpace (s ++ t) = trimLeftSpace (trimLeftSpace s ++ t) :=
  trimFrom_append rfl s t

/-- What follows the first rune of a text that is no white space stays. -/
theorem trimLeftSpace_runes {b : UInt8} (starts : StartsRune b) (other : trimLeftSpace s ≠ [])
    (t : List UInt8) : trimLeftSpace (s ++ b :: t) = trimLeftSpace s ++ b :: t := by
  rw [trimLeftSpace_append]
  refine trimFrom_other (spaceWidth_eq_none_iff.mpr fun m positive small => ?_)
  rcases le_or_gt m (trimLeftSpace s).length with within | beyond
  · rw [List.take_append_of_le_length within]
    exact (spaceWidth_eq_none_iff).mp (spaceWidth_trimFrom isSpaceText rfl s) m positive small
  · obtain ⟨more, isSucc⟩ := Nat.exists_eq_succ_of_ne_zero (Nat.sub_pos_of_lt beyond).ne'
    rw [List.take_append, List.take_of_length_le beyond.le, isSucc, List.take_succ_cons]
    exact isSpaceText_append starts other _

/-- White space at the end goes, whatever was dropped at the start. -/
theorem trimSpace_concat_space {b : UInt8} (ascii : b < 0x80) (space : asciiSpace b = true)
    (s : List UInt8) : trimSpace (s ++ [b]) = trimSpace s := by
  have first : ∀ (p : List UInt8 → Bool) (t : List UInt8), p [b] = true →
      trimFrom p 0 (b :: t) = trimFrom p 0 t := fun p t isSpace =>
    @trimFrom_space p (b :: t) 1 (spaceWidth_eq_some_iff.mpr ⟨by decide, isSpace, by omega⟩)
  rw [trimSpace, trimSpace]
  by_cases blank : trimLeftSpace s = []
  · have none_left : trimLeftSpace [b] = [] := first isSpaceText [] space
    rw [trimLeftSpace_append, blank, List.nil_append, none_left]
  · rw [trimLeftSpace_runes (.inl ascii) blank, trimRightSpace, trimRightSpace,
      List.reverse_concat, first _ _ space]

theorem trimSpace_trimRight (s : List UInt8) : trimSpace (trimRight 0x0D s) = trimSpace s := by
  induction s using List.reverseRecOn with
  | nil => rfl
  | append_singleton s b induction =>
      by_cases isReturn : b = 0x0D
      · subst isReturn
        rw [trimRight, List.rdropWhile_concat_pos _ _ _ (by decide),
          trimSpace_concat_space (by decide) (by decide)]
        exact induction
      · rw [trimRight, List.rdropWhile_concat_neg _ _ _ (by simpa using isReturn)]

/-! ## Blank texts -/

/-- What is trimmed away at one end consists of white space runes. -/
theorem exists_runes (noText : isSpace [] = false) (blank : trimFrom isSpace 0 s = []) :
    ∃ runes : List (List UInt8), s = runes.flatten ∧
      ∀ rune ∈ runes, isSpace rune = true ∧ 0 < rune.length ∧ rune.length ≤ 3 := by
  induction length : s.length using Nat.strongRecOn generalizing s with
  | ind size induction =>
      cases width : spaceWidth isSpace s with
      | none =>
          rw [trimFrom_other width] at blank
          exact ⟨[], blank, fun rune member => absurd member List.not_mem_nil⟩
      | some n =>
          have whole := spaceWidth_le noText width
          rcases (spaceWidth_eq_some_iff).mp width with ⟨⟨positive, small⟩, isWidth, _⟩
          rw [trimFrom_space width] at blank
          have takeLength : (s.take n).length = n := List.length_take_of_le whole
          rcases induction (s.drop n).length (by rw [List.length_drop]; omega) blank rfl with
            ⟨runes, parts, spaces⟩
          refine ⟨s.take n :: runes, ?_, List.forall_mem_cons.mpr ⟨⟨isWidth, ?_⟩, spaces⟩⟩
          · rw [List.flatten_cons, ← parts, List.take_append_drop]
          · rw [takeLength]
            exact ⟨positive, small⟩

theorem trimSpace_eq_nil_iff : trimSpace s = [] ↔ trimLeftSpace s = [] := by
  constructor
  · intro blank
    rw [trimSpace, trimRightSpace, List.reverse_eq_nil_iff] at blank
    rcases exists_runes rfl blank with ⟨runes, parts, spaces⟩
    rcases runes.eq_nil_or_concat with rfl | ⟨others, rune, rfl⟩
    · simpa using parts
    · -- The first rune would have been dropped at the start.
      have isLast := spaces rune (by simp)
      have none_first := (spaceWidth_eq_none_iff).mp (spaceWidth_trimFrom isSpaceText rfl s)
        rune.length isLast.2.1 isLast.2.2
      have reversed : trimLeftSpace s = rune.reverse ++ others.flatten.reverse := by
        rw [← List.reverse_reverse (trimLeftSpace s), parts]
        simp
      change isSpaceText ((trimLeftSpace s).take rune.length) = false at none_first
      rw [reversed, List.take_left' (by simp), isLast.1] at none_first
      contradiction
  · intro blank
    rw [trimSpace, blank]
    rfl

/-- A text with some other ASCII byte is not blank. -/
theorem trimSpace_ne_nil {b : UInt8} (ascii : b < 0x80) (text : asciiSpace b = false)
    (member : b ∈ s) : trimSpace s ≠ [] := by
  intro blank
  rcases exists_runes rfl (trimSpace_eq_nil_iff.mp blank) with ⟨runes, parts, spaces⟩
  rw [parts] at member
  rcases List.mem_flatten.mp member with ⟨rune, inRunes, inRune⟩
  rw [asciiSpace_of_isSpaceText ascii inRune (spaces rune inRunes).1] at text
  contradiction

/-- A blank text starts a rune. -/
theorem startsRune_of_blank {b : UInt8} (blank : trimLeftSpace (b :: t) = []) : StartsRune b := by
  rcases exists_runes rfl blank with ⟨runes, parts, spaces⟩
  rcases runes with _ | ⟨_ | ⟨c, rune⟩, runes⟩
  · contradiction
  · exact absurd (spaces [] List.mem_cons_self).1 (by decide)
  · rw [List.flatten_cons, List.cons_append, List.cons.injEq] at parts
    rw [parts.1]
    exact startsRune_of_isSpaceText (spaces _ List.mem_cons_self).1

/-- A text that does not end in white space keeps its end. -/
theorem trimRightSpace_concat {b : UInt8} (starts : StartsRune b)
    (text : isSpaceText [b] = false) (s : List UInt8) :
    trimRightSpace (s ++ [b]) = s ++ [b] := by
  have stays : trimFrom (fun t => isSpaceText t.reverse) 0 (b :: s.reverse) = b :: s.reverse := by
    refine trimFrom_other (spaceWidth_eq_none_iff.mpr fun m positive small => ?_)
    obtain ⟨more, rfl⟩ := Nat.exists_eq_succ_of_ne_zero positive.ne'
    rw [List.take_succ_cons, List.reverse_cons]
    cases (s.reverse.take more).reverse with
    | nil => exact text
    | cons c t => exact isSpaceText_append starts (List.cons_ne_nil c t) []
  rw [trimRightSpace, List.reverse_concat, stays, List.reverse_cons, List.reverse_reverse]

/-! ## Trimmed texts -/

theorem isPrefix_trimRightSpace (s : List UInt8) : trimRightSpace s <+: s := by
  have inside := trimFrom_suffix (fun t => isSpaceText t.reverse) 0 s.reverse
  rwa [← List.reverse_prefix, List.reverse_reverse] at inside

theorem isInfix_trimSpace (s : List UInt8) : trimSpace s <:+: s :=
  (isPrefix_trimRightSpace _).isInfix.trans (trimFrom_suffix isSpaceText 0 s).isInfix

theorem trimRightSpace_trimRightSpace (s : List UInt8) :
    trimRightSpace (trimRightSpace s) = trimRightSpace s := by
  rw [trimRightSpace, trimRightSpace, List.reverse_reverse,
    trimFrom_other (spaceWidth_trimFrom _ rfl s.reverse)]

/-- A text that starts with no white space does not either where it ends earlier. -/
theorem spaceWidth_of_isPrefix (inside : t <+: s) (other : spaceWidth isSpaceText s = none) :
    spaceWidth isSpaceText t = none := by
  refine (spaceWidth_eq_none_iff).mpr fun m positive small => ?_
  rw [List.prefix_iff_eq_take.mp inside, List.take_take]
  rcases Nat.eq_zero_or_pos (min m t.length) with nothing | some_left
  · rw [nothing]
    rfl
  · exact (spaceWidth_eq_none_iff).mp other _ some_left ((Nat.min_le_left _ _).trans small)

theorem trimLeftSpace_of_isPrefix (inside : t <+: s) (other : spaceWidth isSpaceText s = none) :
    trimLeftSpace t = t := trimFrom_other (spaceWidth_of_isPrefix inside other)

theorem spaceWidth_trimSpace (s : List UInt8) : spaceWidth isSpaceText (trimSpace s) = none :=
  spaceWidth_of_isPrefix (isPrefix_trimRightSpace _) (spaceWidth_trimFrom isSpaceText rfl s)

theorem trimSpace_trimSpace (s : List UInt8) : trimSpace (trimSpace s) = trimSpace s := by
  have left : trimLeftSpace (trimSpace s) = trimSpace s :=
    trimLeftSpace_of_isPrefix (isPrefix_trimRightSpace _) (spaceWidth_trimFrom isSpaceText rfl s)
  rw [trimSpace, left, trimSpace, trimRightSpace_trimRightSpace]

/-! ## Fields -/

theorem fieldsFrom_ne_nil {current : List UInt8} (nonempty : current ≠ []) (skip : Nat)
    (s : List UInt8) : fieldsFrom skip current s ≠ [] := by
  induction s generalizing skip current with
  | nil =>
      rw [fieldsFrom, if_neg nonempty]
      exact List.cons_ne_nil _ _
  | cons b s induction =>
      rcases skip with _ | skip
      · rw [fieldsFrom]
        split
        · exact induction (by simp) 0
        · rw [if_neg nonempty]
          exact List.cons_ne_nil _ _
      · exact induction nonempty skip

/-- A trimmed text has a field, unless it is empty. -/
theorem fields_trimSpace_eq_nil_iff : fields (trimSpace s) = [] ↔ trimSpace s = [] := by
  have start := spaceWidth_trimSpace s
  cases trimmed : trimSpace s with
  | nil => exact iff_of_true rfl rfl
  | cons b t =>
      rw [trimmed] at start
      refine iff_of_false ?_ (List.cons_ne_nil b t)
      rw [fields, fieldsFrom, start]
      exact fieldsFrom_ne_nil (by simp) 0 t

/-- A text that starts and ends with such bytes has no white space to trim. -/
theorem trimSpace_of_ends {b c : UInt8} (startAscii : b < 0x80) (start : asciiSpace b = false)
    (endAscii : c < 0x80) (ends : asciiSpace c = false) (isHead : s.head? = some b)
    (isLast : s.getLast? = some c) : trimSpace s = s := by
  have left : trimLeftSpace s = s := by
    refine trimFrom_other (spaceWidth_eq_none_iff.mpr fun m positive _ => ?_)
    by_contra isRune
    have member : b ∈ s.take m := by
      rcases s with _ | ⟨a, s⟩
      · contradiction
      · obtain ⟨more, rfl⟩ := Nat.exists_eq_succ_of_ne_zero positive.ne'
        rw [List.head?_cons, Option.some.injEq] at isHead
        rw [isHead, List.take_succ_cons]
        exact List.mem_cons_self
    rw [Bool.not_eq_false] at isRune
    rw [asciiSpace_of_isSpaceText startAscii member isRune] at start
    contradiction
  rcases List.getLast?_eq_some_iff.mp isLast with ⟨front, rfl⟩
  rw [trimSpace, left, trimRightSpace_concat (.inl endAscii) ends]

/-! ## Other bytes -/

theorem isInfix_trim (cut : UInt8) (s : List UInt8) : trim cut s <:+: s :=
  (List.rdropWhile_prefix _ _).isInfix.trans (List.dropWhile_suffix _).isInfix

theorem trimLeft_of_head {cut : UInt8} (start : s.head? ≠ some cut) : trimLeft cut s = s := by
  rcases s with _ | ⟨b, s⟩
  · rfl
  · refine List.dropWhile_cons_of_neg fun same => start ?_
    rw [List.head?_cons, beq_iff_eq.mp same]

theorem trim_of_ends {cut : UInt8} (start : s.head? ≠ some cut) (ends : s.getLast? ≠ some cut) :
    trim cut s = s := by
  rw [trim, trimLeft_of_head start]
  rcases List.eq_nil_or_concat s with rfl | ⟨front, last, rfl⟩
  · rfl
  · rw [List.concat_eq_append] at ends ⊢
    refine List.rdropWhile_concat_neg _ _ _ fun same => ends ?_
    rw [List.getLast?_concat, beq_iff_eq.mp same]

theorem head?_trim (cut : UInt8) (s : List UInt8) : (trim cut s).head? ≠ some cut := by
  intro start
  have inside : trim cut s <+: s.dropWhile (· == cut) := List.rdropWhile_prefix _ _
  have stops := List.head?_dropWhile_not (· == cut) s
  rcases inside with ⟨rest, split⟩
  rw [← split, List.head?_append, start, Option.some_or] at stops
  simp at stops

theorem getLast?_trim (cut : UInt8) (s : List UInt8) : (trim cut s).getLast? ≠ some cut := by
  intro ends
  have nonempty : trim cut s ≠ [] := by
    intro empty
    rw [empty] at ends
    contradiction
  have isLast := (List.getLast_eq_iff_getLast?_eq_some nonempty).mpr ends
  exact List.rdropWhile_last_not (· == cut) (trimLeft cut s) nonempty (beq_iff_eq.mpr isLast)

theorem trim_trim (cut : UInt8) (s : List UInt8) : trim cut (trim cut s) = trim cut s :=
  trim_of_ends (head?_trim cut s) (getLast?_trim cut s)

theorem trim_of_not_mem {cut : UInt8} (free : cut ∉ s) : trim cut s = s :=
  trim_of_ends (fun start => free (List.mem_of_head? start))
    fun ends => free (List.mem_of_getLast? ends)

theorem trimLeft_cons (cut : UInt8) (s : List UInt8) : trimLeft cut (cut :: s) = trimLeft cut s :=
  List.dropWhile_cons_of_pos (beq_self_eq_true cut)

theorem replace_of_not_mem {old new : UInt8} (free : old ∉ s) : replace old new s = s := by
  have each : ∀ b ∈ s, (if b = old then new else b) = id b := by
    intro b member
    rw [if_neg (ne_of_mem_of_not_mem member free), id]
  rw [replace, List.map_congr_left each, List.map_id]

theorem not_mem_replace {old new : UInt8} (different : new ≠ old) : old ∉ replace old new s := by
  rw [replace, List.mem_map]
  rintro ⟨b, _, same⟩
  split at same
  · exact different same
  · rename_i other
    exact other same

theorem not_mem_replace_of_ne {b old new : UInt8} (free : b ∉ s) (different : b ≠ new) :
    b ∉ replace old new s := by
  rw [replace, List.mem_map]
  rintro ⟨c, member, same⟩
  split at same
  · exact different same.symm
  · exact free (same ▸ member)

theorem length_replace (old new : UInt8) (s : List UInt8) :
    (replace old new s).length = s.length := List.length_map _

theorem mem_replace {old new : UInt8} (member : old ∈ s) : new ∈ replace old new s :=
  List.mem_map.mpr ⟨old, member, if_pos rfl⟩

theorem trimFrom_map {f : UInt8 → UInt8} (same : ∀ t, isSpace (t.map f) = isSpace t) (skip : Nat)
    (s : List UInt8) : trimFrom isSpace skip (s.map f) = (trimFrom isSpace skip s).map f := by
  have width (t : List UInt8) : spaceWidth isSpace (t.map f) = spaceWidth isSpace t := by
    simp only [spaceWidth, ← List.map_take, same]
  induction s generalizing skip with
  | nil =>
      rw [List.map_nil, trimFrom]
      rfl
  | cons b s induction =>
      rcases skip with _ | skip
      · rw [trimFrom, List.map_cons, trimFrom, ← List.map_cons, width]
        cases spaceWidth isSpace (b :: s) with
        | none => rfl
        | some n => exact induction (n - 1)
      · exact induction skip

/-- Bytes that are no white space can stand for each other. -/
theorem trimSpace_replace {old new : UInt8} (oldAscii : old < 0x80) (oldText : asciiSpace old = false)
    (newAscii : new < 0x80) (newText : asciiSpace new = false) (s : List UInt8) :
    trimSpace (replace old new s) = replace old new (trimSpace s) := by
  have noSpace {b : UInt8} (ascii : b < 0x80) (text : asciiSpace b = false) {t : List UInt8}
      (member : b ∈ t) : isSpaceText t = false := by
    rw [← Bool.not_eq_true]
    intro isRune
    rw [asciiSpace_of_isSpaceText ascii member isRune] at text
    contradiction
  have same (t : List UInt8) : isSpaceText (replace old new t) = isSpaceText t := by
    by_cases member : old ∈ t
    · rw [noSpace oldAscii oldText member, noSpace newAscii newText (mem_replace member)]
    · rw [replace_of_not_mem member]
  have sameReversed (t : List UInt8) :
      isSpaceText (replace old new t).reverse = isSpaceText t.reverse := by
    rw [replace, ← List.map_reverse]
    exact same t.reverse
  rw [trimSpace, trimLeftSpace, replace, trimFrom_map same, trimRightSpace, ← List.map_reverse,
    trimFrom_map sameReversed, ← List.map_reverse]
  rfl

end Bytes

end Kiyomi.Go
