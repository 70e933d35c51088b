import Kiyomi.Plugin.Host.Compatibility
import Kiyomi.Provider.Registry

namespace Kiyomi.Plugin.Host

open Go Semantic Provider

/-! # The two orders of versions

The host decides with one whether a plugin fits, the registry with the other which plugin
wins. -/

variable {v w : Version} {leadingV leadingW : Bool}

theorem sign_inj {left right : Ordering} : sign left = sign right ↔ left = right := by
  cases left <;> cases right <;> decide

/-- How both comparators treat a number. -/
theorem sign_compare_then {m n rest : Int} {order : Ordering} (isRest : rest = sign order) :
    (if m ≠ n then if m > n then 1 else -1 else rest) = sign ((compare m n).then order) := by
  rcases lt_trichotomy m n with less | rfl | greater
  · rw [if_pos less.ne, if_neg less.not_gt, compare_lt_iff_lt.mpr less]
    rfl
  · rw [if_neg (not_not.mpr rfl), compare_eq_iff_eq.mpr rfl, isRest]
    rfl
  · rw [if_pos greater.ne', if_pos greater, compare_gt_iff_gt.mpr greater]
    rfl

theorem compare_natCast (m n : Nat) : compare (m : Int) (n : Int) = compare m n := by
  rcases lt_trichotomy m n with less | rfl | greater
  · rw [compare_lt_iff_lt.mpr less, compare_lt_iff_lt.mpr (Int.ofNat_lt.mpr less)]
  · rw [compare_eq_iff_eq.mpr rfl, compare_eq_iff_eq.mpr rfl]
  · rw [compare_gt_iff_gt.mpr greater, compare_gt_iff_gt.mpr (Int.ofNat_lt.mpr greater)]

theorem compareStrings_eq_zero {a b : String} : compareStrings a b = 0 ↔ a = b := by
  rw [compareStrings, show (0 : Int) = sign .eq from rfl, sign_inj,
    @Std.LawfulEqCmp.compare_eq_iff_eq _ (List.compareLex Ord.compare) _ _ _, String.toList_inj]

/-! ## The registry -/

theorem compareVersionStrings_eq (v1 v2 : String) :
    compareVersionStrings v1 v2 = sign (compareNumbers (Provider.clean v1) (Provider.clean v2)) := by
  unfold compareVersionStrings compareNumbers
  rcases Provider.clean v1 with ⟨maj1, min1, pat1⟩
  rcases Provider.clean v2 with ⟨maj2, min2, pat2⟩
  refine sign_compare_then (sign_compare_then ?_)
  rw [sign_compare_then (show (0 : Int) = sign .eq from rfl)]
  cases compare pat1 pat2 <;> rfl

/-- The numbers that the registry reads: the largest 64-bit integer for one out of range,
and no number where build metadata follow the patch. -/
def registered (v : Version) : Int × Int × Int :=
  (min 0x7FFFFFFFFFFFFFFF (v.major : Int), min 0x7FFFFFFFFFFFFFFF (v.minor : Int),
    if v.buildOnly then if v.patch < 0x10000000000000000 then 0 else 0x7FFFFFFFFFFFFFFF
    else min 0x7FFFFFFFFFFFFFFF (v.patch : Int))

theorem clean_text : Provider.clean (v.text leadingV) = registered v := by
  rcases v.pieces with ⟨marked, more, pieces, exactly, isMarked⟩
  have patch : atoiValue (String.ofList (Nat.toDigits 10 v.patch ++ marked)) =
      (registered v).2.2 := by
    unfold registered
    cases isBuild : v.buildOnly with
    | true =>
        rcases isMarked isBuild with ⟨rest, rfl⟩
        exact atoiValue_stopped _ rfl _
    | false =>
        rw [(exactly isBuild).1, List.append_nil, atoiValue_digits]
        rfl
  unfold Provider.clean
  simp only [Version.trimSpace_text, Version.withoutV_text, pieces, List.map_cons,
    List.getD_cons_zero, List.getD_cons_succ, atoiValue_digits, patch]
  rfl

/-! ## The host -/

theorem tail_inj (noBuild : v.buildOnly = false) (noBuild' : w.buildOnly = false)
    (same : v.suffix.tail = w.suffix.tail) : v.suffix = w.suffix := by
  have cases {v : Version} (noBuild : v.buildOnly = false) : v.suffix = [] ∨
      v.suffix.tail ≠ [] ∧ v.suffix = '-' :: v.suffix.tail := by
    unfold Version.suffix Version.preReleaseText Version.buildText
    cases preRelease : v.preRelease with
    | nil =>
        have none : v.build = [] := by simpa [Version.buildOnly, preRelease] using noBuild
        simp [none]
    | cons identifier others =>
        right
        have some_ : identifier.chars ≠ [] := by
          cases identifier with
          | number n => exact Nat.toDigits_ne_nil
          | word chars _ noNumber =>
              rintro (rfl : chars = [])
              contradiction
        simp [dotted, some_]
  rcases cases noBuild with empty | ⟨some_, dash⟩
  · rcases cases noBuild' with empty' | ⟨some_', _⟩
    · rw [empty, empty']
    · rw [← same, empty] at some_'
      contradiction
  · rcases cases noBuild' with empty' | ⟨_, dash'⟩
    · rw [same, empty'] at some_
      contradiction
    · rw [dash, dash', same]

/-- Two versions that the host reads are told apart by their numbers or what follows them. -/
theorem compareSemVer_readable (isReadable : readable v = true) (isReadable' : readable w = true) :
    ∃ order, compareSemVer (v.text leadingV) (w.text leadingW) =
        sign ((compareNumbers v.numbers w.numbers).then order) ∧
      (order = .eq ↔ v.suffix.tail = w.suffix.tail) := by
  unfold compareSemVer
  rw [parseSemVer_readable isReadable, parseSemVer_readable isReadable']
  have rest : ∃ order, (if String.ofList v.suffix.tail = "" ∧ String.ofList w.suffix.tail ≠ "" then 1
      else if String.ofList v.suffix.tail ≠ "" ∧ String.ofList w.suffix.tail = "" then -1
      else compareStrings (String.ofList v.suffix.tail) (String.ofList w.suffix.tail)) =
        sign order ∧ (order = .eq ↔ v.suffix.tail = w.suffix.tail) := by
    split
    · rename_i release
      refine ⟨.gt, rfl, fun equal => Ordering.noConfusion equal, fun same => ?_⟩
      rw [same] at release
      exact absurd release.1 release.2
    · split
      · rename_i prerelease
        refine ⟨.lt, rfl, fun equal => Ordering.noConfusion equal, fun same => ?_⟩
        rw [same] at prerelease
        exact absurd prerelease.2 prerelease.1
      · refine ⟨_, rfl, ?_⟩
        rw [@Std.LawfulEqCmp.compare_eq_iff_eq _ (List.compareLex Ord.compare) _ _ _,
          String.toList_ofList, String.toList_ofList]
  rcases rest with ⟨order, isRest, isEq⟩
  refine ⟨order, ?_, isEq⟩
  rw [compareNumbers, Ordering.then_assoc, Ordering.then_assoc, ← compare_natCast,
    ← compare_natCast, ← compare_natCast]
  exact sign_compare_then (sign_compare_then (sign_compare_then isRest))

/-! ## Agreement -/

/-- Either the same version, written in the same way if the host cannot read it, or numbers
that differ so that both parsers see it. -/
def Agreeing (v w : Version) (leadingV leadingW : Bool) : Prop :=
  v = w ∧ (readable v = true ∨ leadingV = leadingW) ∨
  v.numbers ≠ w.numbers ∧
    match readable v, readable w with
    | true, true => True
    | true, false => compareNumbers v.numbers w.numbers = .gt
    | false, true => compareNumbers v.numbers w.numbers = .lt
    | false, false =>
        compareNumbers (registered v) (registered w) = compareNumbers v.numbers w.numbers ∧
          compareStrings (v.text leadingV) (w.text leadingW) =
            sign (compareNumbers v.numbers w.numbers)

theorem registered_readable (isReadable : readable v = true) :
    registered v = ((v.major : Int), (v.minor : Int), (v.patch : Int)) := by
  have fits : (v.major < 0x8000000000000000 ∧ v.minor < 0x8000000000000000 ∧
      v.patch < 0x8000000000000000) ∧ v.buildOnly = false := by
    simpa [readable] using isReadable
  rw [registered, fits.2, min_eq_right (by omega), min_eq_right (by omega), if_neg (by decide),
    min_eq_right (by omega)]

theorem compareNumbers_readable (isReadable : readable v = true) (isReadable' : readable w = true) :
    compareNumbers (registered v) (registered w) = compareNumbers v.numbers w.numbers := by
  rw [registered_readable isReadable, registered_readable isReadable', compareNumbers,
    compare_natCast, compare_natCast, compare_natCast]
  rfl

/-- The registry sees that a version which the host reads has the higher numbers. -/
theorem registered_below (isReadable : readable w = true)
    (below : compareNumbers v.numbers w.numbers = .lt) :
    compareNumbers (registered v) (registered w) = .lt := by
  have fits : (w.major < 0x8000000000000000 ∧ w.minor < 0x8000000000000000 ∧
      w.patch < 0x8000000000000000) ∧ w.buildOnly = false := by
    simpa [readable] using isReadable
  rw [registered_readable isReadable]
  rw [compareNumbers_eq_lt] at below ⊢
  simp only [registered, Version.numbers] at below ⊢
  split
  · split <;> omega
  · omega

/-- Of two versions with the same numbers the registry does not put a release higher. -/
theorem registered_release (same : v.numbers = w.numbers) (release : w.buildOnly = false) :
    compareNumbers (registered v) (registered w) ≠ .gt := by
  rw [Version.numbers, Version.numbers, Prod.mk.injEq, Prod.mk.injEq] at same
  rw [Ne, compareNumbers_eq_gt]
  simp only [registered, same, release, Bool.false_eq_true, if_false]
  split
  · split <;> omega
  · omega

/-- With the numbers equal, the registry sees no order of the pre-releases. -/
theorem preRelease_of_numbers (same : v.numbers = w.numbers)
    (agree : compareNumbers (registered v) (registered w) =
      comparePreReleases v.preRelease w.preRelease) : v.preRelease = w.preRelease := by
  cases left : v.preRelease with
  | nil =>
      cases right : w.preRelease with
      | nil => rfl
      | cons second others =>
          rw [left, right] at agree
          have release : w.buildOnly = false := by simp [Version.buildOnly, right]
          exact absurd agree (registered_release same release)
  | cons first rest =>
      have release : v.buildOnly = false := by simp [Version.buildOnly, left]
      cases right : w.preRelease with
      | nil =>
          rw [left, right] at agree
          exact absurd (compareNumbers_swap.mpr agree) (registered_release same.symm release)
      | cons second others =>
          have release' : w.buildOnly = false := by simp [Version.buildOnly, right]
          have equal : registered v = registered w := by
            rw [Version.numbers, Version.numbers, Prod.mk.injEq, Prod.mk.injEq] at same
            simp [registered, release, release', same]
          rw [compareNumbers_eq_eq.mpr equal] at agree
          rw [← left, ← right]
          exact comparePreReleases_eq_eq.mp agree.symm

/-- What the host cannot read, with numbers that it can read, is no pre-release. -/
theorem preRelease_unreadable (same : v.numbers = w.numbers) (isReadable : readable v = true)
    (isUnreadable : readable w = false) : w.preRelease = [] := by
  rw [Version.numbers, Version.numbers, Prod.mk.injEq, Prod.mk.injEq] at same
  have fits : (v.major < 0x8000000000000000 ∧ v.minor < 0x8000000000000000 ∧
      v.patch < 0x8000000000000000) ∧ v.buildOnly = false := by
    simpa [readable] using isReadable
  rw [same.1, same.2.1, same.2.2] at fits
  have isBuild : w.buildOnly = true := by simpa [readable, fits.1] using isUnreadable
  rw [Version.buildOnly, Bool.and_eq_true] at isBuild
  exact List.isEmpty_iff.mp isBuild.1

theorem comparePreReleases_nil (left : List PreRelease) :
    comparePreReleases left [] ≠ .gt ∧ comparePreReleases [] left ≠ .lt := by
  cases left <;> exact ⟨Ordering.noConfusion, Ordering.noConfusion⟩

theorem eq_of_suffix (numbers : v.numbers = w.numbers) (suffix : v.suffix = w.suffix) : v = w := by
  have identifiers := Version.suffix_inj suffix
  cases v
  cases w
  cases numbers
  cases identifiers.1
  cases identifiers.2
  rfl

/-- Both versions are readable. -/
theorem agree_readable (isReadable : readable v = true) (isReadable' : readable w = true)
    {order : Ordering} (isEq : order = .eq ↔ v.suffix.tail = w.suffix.tail) :
    ((compareNumbers v.numbers w.numbers).then order = compareNumbers v.numbers w.numbers ∧
      compareNumbers v.numbers w.numbers = (compareNumbers v.numbers w.numbers).then
        (comparePreReleases v.preRelease w.preRelease)) ↔
    v = w ∨ compareNumbers v.numbers w.numbers ≠ .eq := by
  have noBuild {v : Version} (isReadable : readable v = true) : v.buildOnly = false := by
    rw [readable, Bool.and_eq_true, Bool.not_eq_true'] at isReadable
    exact isReadable.2
  by_cases numbers : compareNumbers v.numbers w.numbers = .eq
  · rw [numbers, or_iff_left (not_not.mpr rfl)]
    constructor
    · rintro ⟨same, _⟩
      refine eq_of_suffix (compareNumbers_eq_eq.mp numbers) ?_
      exact tail_inj (noBuild isReadable) (noBuild isReadable') (isEq.mp same)
    · rintro rfl
      exact ⟨isEq.mpr rfl, (comparePreReleases_eq_eq.mpr rfl).symm⟩
  · refine iff_of_true ?_ (.inr numbers)
    cases order' : compareNumbers v.numbers w.numbers with
    | eq => exact absurd order' numbers
    | lt => exact ⟨rfl, rfl⟩
    | gt => exact ⟨rfl, rfl⟩

/-- The host reads the second version only, and puts it higher. -/
theorem agree_below (isUnreadable : readable v = false) (isReadable : readable w = true) :
    (Ordering.lt = compareNumbers (registered v) (registered w) ∧
      compareNumbers (registered v) (registered w) = (compareNumbers v.numbers w.numbers).then
        (comparePreReleases v.preRelease w.preRelease)) ↔
    compareNumbers v.numbers w.numbers = .lt := by
  constructor
  · rintro ⟨below, agree⟩
    rw [← below, eq_comm, Ordering.then_eq_lt] at agree
    rcases agree with less | ⟨numbers, preReleases⟩
    · exact less
    · have same := compareNumbers_eq_eq.mp numbers
      rw [preRelease_unreadable same.symm isReadable isUnreadable] at preReleases
      exact absurd preReleases (comparePreReleases_nil _).2
  · intro below
    rw [registered_below isReadable below, below]
    exact ⟨rfl, rfl⟩

theorem agree_above (isReadable : readable v = true) (isUnreadable : readable w = false) :
    (Ordering.gt = compareNumbers (registered v) (registered w) ∧
      compareNumbers (registered v) (registered w) = (compareNumbers v.numbers w.numbers).then
        (comparePreReleases v.preRelease w.preRelease)) ↔
    compareNumbers v.numbers w.numbers = .gt := by
  constructor
  · rintro ⟨above, agree⟩
    rw [← above, eq_comm, Ordering.then_eq_gt] at agree
    rcases agree with greater | ⟨numbers, preReleases⟩
    · exact greater
    · have same := compareNumbers_eq_eq.mp numbers
      rw [preRelease_unreadable same isReadable isUnreadable] at preReleases
      exact absurd preReleases (comparePreReleases_nil _).1
  · intro above
    have below := registered_below isReadable (compareNumbers_swap.mp above)
    rw [compareNumbers_swap.mpr below, above]
    exact ⟨rfl, rfl⟩

/-- The host reads neither version and compares the texts. -/
theorem agree_unreadable (v w : Version) (leadingV leadingW : Bool) :
    (compareStrings (v.text leadingV) (w.text leadingW) =
        sign (compareNumbers (registered v) (registered w)) ∧
      compareNumbers (registered v) (registered w) = (compareNumbers v.numbers w.numbers).then
        (comparePreReleases v.preRelease w.preRelease)) ↔
    v = w ∧ leadingV = leadingW ∨ compareNumbers v.numbers w.numbers ≠ .eq ∧
      compareNumbers (registered v) (registered w) = compareNumbers v.numbers w.numbers ∧
      compareStrings (v.text leadingV) (w.text leadingW) =
        sign (compareNumbers v.numbers w.numbers) := by
  by_cases numbers : compareNumbers v.numbers w.numbers = .eq
  · rw [numbers, or_iff_left (fun differ => differ.1 rfl)]
    constructor
    · rintro ⟨texts, agree⟩
      have same := preRelease_of_numbers (compareNumbers_eq_eq.mp numbers) agree
      have equal : compareStrings (v.text leadingV) (w.text leadingW) = 0 := by
        rw [texts, agree, comparePreReleases_eq_eq.mpr same]
        rfl
      rw [compareStrings_eq_zero, Version.text, Version.text, ← String.toList_inj,
        String.toList_ofList, String.toList_ofList] at equal
      exact (Version.chars_inj equal).symm
    · rintro ⟨rfl, rfl⟩
      rw [compareStrings_eq_zero.mpr rfl, compareNumbers_eq_eq.mpr rfl,
        comparePreReleases_eq_eq.mpr rfl]
      exact ⟨rfl, rfl⟩
  · have other : ¬ (v = w ∧ leadingV = leadingW) := fun same =>
      numbers (compareNumbers_eq_eq.mpr (congrArg Version.numbers same.1))
    have first : (compareNumbers v.numbers w.numbers).then
        (comparePreReleases v.preRelease w.preRelease) = compareNumbers v.numbers w.numbers := by
      cases order : compareNumbers v.numbers w.numbers with
      | eq => exact absurd order numbers
      | lt => rfl
      | gt => rfl
    rw [first, or_iff_right other, and_iff_right numbers]
    constructor
    · rintro ⟨texts, agree⟩
      exact ⟨agree, agree ▸ texts⟩
    · rintro ⟨agree, texts⟩
      exact ⟨agree ▸ texts, agree⟩

/-- The host and the registry order two versions alike, and as SemVer 2.0.0 does, exactly
if the versions are agreeing. -/
theorem orders_agree_iff (v w : Version) (leadingV leadingW : Bool) :
    (compareSemVer (v.text leadingV) (w.text leadingW) =
        compareVersionStrings (v.text leadingV) (w.text leadingW) ∧
      compareVersionStrings (v.text leadingV) (w.text leadingW) = sign (precedence v w)) ↔
    Agreeing v w leadingV leadingW := by
  rw [compareVersionStrings_eq, clean_text, clean_text, sign_inj, precedence, Agreeing, Ne,
    ← compareNumbers_eq_eq]
  cases isReadable : readable v with
  | true =>
      cases isReadable' : readable w with
      | true =>
          rcases @compareSemVer_readable v w leadingV leadingW isReadable isReadable' with
            ⟨order, host, isEq⟩
          rw [host, sign_inj, compareNumbers_readable isReadable isReadable',
            agree_readable isReadable isReadable' isEq]
          simp
      | false =>
          rcases @parseSemVer_unreadable w leadingW isReadable' with ⟨reason, fails⟩
          have host : compareSemVer (v.text leadingV) (w.text leadingW) = sign .gt := by
            rw [compareSemVer, parseSemVer_readable isReadable, fails]
            rfl
          have differ : v ≠ w := by
            rintro rfl
            exact Bool.noConfusion (isReadable.symm.trans isReadable')
          rw [host, sign_inj, agree_above isReadable isReadable']
          simp only [differ, false_and, false_or]
          refine ⟨fun above => ⟨?_, above⟩, And.right⟩
          rw [above]
          exact Ordering.noConfusion
  | false =>
      rcases @parseSemVer_unreadable v leadingV isReadable with ⟨reason, fails⟩
      cases isReadable' : readable w with
      | true =>
          have host : compareSemVer (v.text leadingV) (w.text leadingW) = sign .lt := by
            rw [compareSemVer, parseSemVer_readable isReadable', fails]
            rfl
          have differ : v ≠ w := by
            rintro rfl
            exact Bool.noConfusion (isReadable.symm.trans isReadable')
          rw [host, sign_inj, agree_below isReadable isReadable']
          simp only [differ, false_and, false_or]
          refine ⟨fun below => ⟨?_, below⟩, And.right⟩
          rw [below]
          exact Ordering.noConfusion
      | false =>
          rcases @parseSemVer_unreadable w leadingW isReadable' with ⟨reason', fails'⟩
          have host : compareSemVer (v.text leadingV) (w.text leadingW) =
              compareStrings (v.text leadingV) (w.text leadingW) := by
            rw [compareSemVer, fails, fails']
          rw [host, agree_unreadable]
          simp only [Bool.false_eq_true, false_or]

/-- `1.0.0-rc.n`. -/
def candidate (n : Nat) : Version where
  major := 1
  minor := 0
  patch := 0
  preRelease := [.word ['r', 'c'] rfl rfl, .number n]

/-- The host compares the numbers of pre-releases as text, and the registry not at all. -/
theorem orders_differ :
    (candidate 9).text false = "1.0.0-rc.9" ∧ (candidate 10).text false = "1.0.0-rc.10" ∧
    compareSemVer "1.0.0-rc.9" "1.0.0-rc.10" = 1 ∧
    compareVersionStrings "1.0.0-rc.9" "1.0.0-rc.10" = 0 ∧
    precedence (candidate 9) (candidate 10) = .lt := by
  refine ⟨?_, ?_, ?_, ?_, ?_⟩ <;> decide +kernel

end Kiyomi.Plugin.Host
