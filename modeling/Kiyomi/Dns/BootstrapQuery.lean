import Kiyomi.Dns.Dnsresolver
import Kiyomi.Go.UrlString

namespace Kiyomi.Dns

open Go Go.Url PercentEncoding

/-! # Bootstrap addresses in a query -/

variable {r : Rules} {part value : List UInt8} {parts entries : List (List UInt8)}

/-- The bootstrap addresses of a query. -/
def queryAddresses (r : Rules) (rawQuery : List UInt8) : List (List UInt8) :=
  bootstrapOf r ⟨[], [], [], rawQuery⟩

theorem bootstrapOf_eq (r : Rules) (u : URL) : bootstrapOf r u = queryAddresses r u.rawQuery := rfl

/-- The bootstrap addresses of one part of a query. -/
def partAddresses (part : List UInt8) : List (List UInt8) :=
  match Rules.parsePair part with
  | some pair => if pair.1 = bootstrapKey then addresses pair.2 else []
  | none => []

theorem queryAddresses_eq (r : Rules) (rawQuery : List UInt8) : queryAddresses r rawQuery =
    if rawQuery.count ampersand ≤ r.maxSeparators then
      (rawQuery.splitOn ampersand).flatMap partAddresses
    else [] := by
  rw [queryAddresses, bootstrapOf, URL.query, Rules.parseQuery]
  split
  · induction rawQuery.splitOn ampersand with
    | nil => rfl
    | cons part parts induction =>
        rw [List.flatMap_cons, ← induction, partAddresses, List.filterMap_cons]
        cases Rules.parsePair part with
        | none => rfl
        | some pair =>
            dsimp only
            rw [List.filter_cons]
            by_cases isKey : pair.1 = bootstrapKey
            · simp [isKey]
            · simp [isKey]
  · rfl

theorem addresses_of_mem {address : List UInt8} (member : address ∈ addresses value) :
    address ≠ [] ∧ Bytes.trimSpace address = address ∧ comma ∉ address ∧ address <:+: value := by
  rcases List.mem_filter.mp member with ⟨inParts, nonempty⟩
  rcases List.mem_map.mp inParts with ⟨piece, isPiece, rfl⟩
  have inside := Bytes.isInfix_trimSpace piece
  exact ⟨of_decide_eq_true nonempty, Bytes.trimSpace_trimSpace piece,
    fun isComma => Cuts.not_mem_of_mem_splitOn isPiece (inside.subset isComma),
    inside.trans (Cuts.infix_of_mem_splitOn isPiece)⟩

/-! ## Texts that are read as they are -/

/-- The byte stands for itself in a query, and is allowed there. -/
def Plain (b : UInt8) : Prop :=
  b ≠ hash ∧ b ≠ ampersand ∧ b ≠ semicolon ∧ b ≠ plus ∧ b ≠ percent ∧ isControl b = false

instance (b : UInt8) : Decidable (Plain b) := inferInstanceAs (Decidable (_ ∧ _))

/-- The list of addresses is one that `parseURL` can have made. -/
def Listed (entries : List (List UInt8)) : Prop :=
  ∀ entry ∈ entries, entry ≠ [] ∧ Bytes.trimSpace entry = entry ∧ comma ∉ entry

theorem listed_bootstrapOf (r : Rules) (u : URL) : Listed (bootstrapOf r u) := by
  intro entry member
  rcases List.mem_flatMap.mp member with ⟨value, _, inValue⟩
  rcases addresses_of_mem inValue with ⟨nonempty, trimmed, noComma, _⟩
  exact ⟨nonempty, trimmed, noComma⟩

theorem addresses_intercalate (nonempty : entries ≠ []) (listed : Listed entries) :
    addresses ([comma].intercalate entries) = entries := by
  rw [addresses, List.splitOn_intercalate comma (fun entry member => (listed entry member).2.2)
    nonempty]
  have trimmed : entries.map Bytes.trimSpace = entries :=
    (List.map_congr_left fun entry member => (listed entry member).2.1).trans (List.map_id _)
  rw [trimmed, List.filter_eq_self]
  exact fun entry member => decide_eq_true (listed entry member).1

/-- The query that lists the addresses. -/
def bootstrapQuery (entries : List (List UInt8)) : List UInt8 :=
  if entries ≠ [] then bootstrapKey ++ equalSign :: [comma].intercalate entries else []

theorem forall_bootstrapQuery {p : UInt8 → Prop} (inKey : ∀ b ∈ bootstrapKey, p b)
    (isEqual : p equalSign) (isComma : p comma) (inEntries : ∀ entry ∈ entries, ∀ b ∈ entry, p b) :
    ∀ b ∈ bootstrapQuery entries, p b := by
  intro b member
  rw [bootstrapQuery] at member
  split at member
  · rcases List.mem_append.mp member with key | rest
    · exact inKey b key
    · rcases List.mem_cons.mp rest with rfl | inJoin
      · exact isEqual
      · rcases Cuts.mem_intercalate inJoin with rfl | ⟨entry, isEntry, inEntry⟩
        · exact isComma
        · exact inEntries entry isEntry b inEntry
  · exact absurd member List.not_mem_nil

theorem plain_bootstrapQuery (plain : ∀ entry ∈ entries, ∀ b ∈ entry, Plain b) :
    ∀ b ∈ bootstrapQuery entries, Plain b :=
  forall_bootstrapQuery (List.all_iff_forall_prop.mp (by decide)) (by decide) (by decide) plain

theorem unescape_query_of_plain (plain : ∀ b ∈ value, Plain b) :
    unescape .queryComponent value = some value := by
  refine Policy.decode_of_plain fun c member => ?_
  rcases plain c member with ⟨_, _, _, noPlus, noPercent, _⟩
  exact ⟨noPercent, (if_neg noPlus).trans rfl⟩

theorem partAddresses_of_plain (nonempty : entries ≠ []) (listed : Listed entries)
    (plain : ∀ entry ∈ entries, ∀ b ∈ entry, Plain b) :
    partAddresses (bootstrapQuery entries) = entries := by
  have inQuery := plain_bootstrapQuery plain
  have noEqual : equalSign ∉ bootstrapKey := by decide
  rw [bootstrapQuery, if_pos nonempty] at *
  rcases List.forall_mem_append.mp inQuery with ⟨inKey, rest⟩
  have valued : unescape .queryComponent ([comma].intercalate entries) =
      some ([comma].intercalate entries) :=
    unescape_query_of_plain (List.forall_mem_cons.mp rest).2
  have readable : ¬(semicolon ∈ bootstrapKey ++ equalSign :: [comma].intercalate entries ∨
      bootstrapKey ++ equalSign :: [comma].intercalate entries = []) := by
    rintro (isSemicolon | empty)
    · exact (inQuery semicolon isSemicolon).2.2.1 rfl
    · exact List.cons_ne_nil _ _ (List.append_eq_nil_iff.mp empty).2
  rw [partAddresses, Rules.parsePair, if_neg readable, Cuts.before_append noEqual,
    Cuts.after_append noEqual, unescape_query_of_plain inKey, valued]
  dsimp only [Option.bind_some, Option.map_some]
  rw [if_pos rfl, addresses_intercalate nonempty listed]

theorem queryAddresses_of_plain (listed : Listed entries)
    (plain : ∀ entry ∈ entries, ∀ b ∈ entry, Plain b) :
    queryAddresses r (bootstrapQuery entries) = entries := by
  have noSeparator : ampersand ∉ bootstrapQuery entries := fun member =>
    (plain_bootstrapQuery plain ampersand member).2.1 rfl
  have within : (bootstrapQuery entries).count ampersand ≤ r.maxSeparators := by
    rw [List.count_eq_zero_of_not_mem noSeparator]
    exact Nat.zero_le _
  rw [queryAddresses_eq, if_pos within, List.splitOn_eq_singleton noSeparator, List.flatMap_singleton]
  by_cases nonempty : entries = []
  · subst nonempty
    rfl
  · exact partAddresses_of_plain nonempty listed plain

/-! ## Texts that are read otherwise

What is read of a query is never longer than the query, and shorter where an escape stands in
it, where it has a second part, or where it ends early. -/

theorem size_addresses (value : List UInt8) :
    Cuts.size (addresses value) ≤ value.length + 1 := by
  have trimmed := Cuts.size_map_le (fun piece => (Bytes.isInfix_trimSpace piece).length_le)
    (value.splitOn comma)
  rw [Cuts.size_splitOn] at trimmed
  exact (Cuts.size_filter_le _ _).trans trimmed

/-- A plus sign is read as a space. -/
theorem plus_of_unescape_query {s t : List UInt8} (decoded : unescape .queryComponent s = some t)
    (noPercent : percent ∉ s) : plus ∉ t := by
  have others : ∀ b ∈ t, b ≠ plus := by
    refine Policy.forall_mem_decode ?_ ?_ decoded
    · rintro c _ _ b isRead rfl
      change (if c = plus then some space else some c) = some plus at isRead
      split at isRead
      · exact absurd isRead (by decide)
      · rename_i other
        exact other (Option.some.inj isRead)
    · intro high low _ isPercent
      exact absurd isPercent noPercent
  exact fun member => others plus member rfl

/-- The key and the equal sign are what is not read as addresses. -/
theorem partAddresses_read (used : partAddresses part ≠ []) :
    semicolon ∉ part ∧
      (percent ∉ part → ∀ entry ∈ partAddresses part, plus ∉ entry) ∧
      Cuts.size (partAddresses part) + 9 ≤ part.length ∧
      (percent ∈ part → Cuts.size (partAddresses part) + 9 < part.length) := by
  cases pair : Rules.parsePair part with
  | none =>
      rw [partAddresses, pair] at used
      contradiction
  | some found =>
      obtain ⟨key, value⟩ := found
      have isAddresses : partAddresses part = if key = bootstrapKey then addresses value else [] := by
        rw [partAddresses, pair]
      rw [isAddresses] at used ⊢
      split at used
      · rename_i isKey
        subst isKey
        rw [if_pos rfl]
        rw [Rules.parsePair] at pair
        split at pair
        · contradiction
        · rename_i readable
          rcases Option.bind_eq_some_iff.mp pair with ⟨key, isKey, mapped⟩
          rcases Option.map_eq_some_iff.mp mapped with ⟨value', isValue, same⟩
          cases same
          have valued : equalSign ∈ part := by
            by_contra missing
            rw [Cuts.after_of_not_mem missing] at isValue
            cases isValue
            exact used rfl
          have length := congrArg List.length (Cuts.eq_before_append valued).1
          have keyLength := Policy.length_decode isKey
          have valueLength := Policy.length_decode isValue
          have bound := size_addresses value
          have nine : bootstrapKey.length = 9 := rfl
          rw [List.length_append, List.length_cons] at length
          refine ⟨fun member => readable (.inl member), fun noPercent entry member => ?_,
            by omega, fun member => ?_⟩
          · have noEscape : percent ∉ Cuts.after equalSign part := fun inValue =>
              noPercent ((Cuts.after_suffix _ _).subset inValue)
            exact fun isPlus => plus_of_unescape_query isValue noEscape
              ((addresses_of_mem member).2.2.2.subset isPlus)
          · rw [(Cuts.eq_before_append valued).1, List.mem_append, List.mem_cons] at member
            rcases member with inKey | isEqual | inValue
            · have := keyLength.2 inKey
              omega
            · exact absurd isEqual (by decide)
            · have := valueLength.2 inValue
              omega
      · contradiction

theorem size_flatMap_partAddresses (parts : List (List UInt8)) :
    Cuts.size (parts.flatMap partAddresses) + parts.length ≤ Cuts.size parts ∧
      (parts.flatMap partAddresses ≠ [] →
        Cuts.size (parts.flatMap partAddresses) + parts.length + 9 ≤ Cuts.size parts) := by
  induction parts with
  | nil => exact ⟨le_rfl, fun used => absurd rfl used⟩
  | cons part parts induction =>
      rw [List.flatMap_cons, Cuts.size_append, Cuts.size_cons, List.length_cons]
      by_cases used : partAddresses part = []
      · rw [used, List.nil_append, Cuts.size_nil]
        refine ⟨by omega, fun usedLater => ?_⟩
        have := induction.2 usedLater
        omega
      · have := (partAddresses_read used).2.2.1
        exact ⟨by omega, fun _ => by omega⟩

/-- The query is one part, which is read in full. -/
theorem single_of_queryAddresses (nonempty : entries ≠ [])
    (read : queryAddresses r (Cuts.before hash (bootstrapQuery entries)) = entries) :
    hash ∉ bootstrapQuery entries ∧ ampersand ∉ bootstrapQuery entries ∧
      partAddresses (bootstrapQuery entries) = entries ∧
      (bootstrapQuery entries).length = Cuts.size entries + 9 := by
  have total : (bootstrapQuery entries).length = Cuts.size entries + 9 := by
    have joined := Cuts.length_intercalate comma nonempty
    have nine : bootstrapKey.length = 9 := rfl
    rw [bootstrapQuery, if_pos nonempty, List.length_append, List.length_cons]
    omega
  have shorter := (Cuts.before_prefix hash (bootstrapQuery entries)).length_le
  rw [queryAddresses_eq] at read
  split at read
  · have bound := (size_flatMap_partAddresses _).2 (read ▸ nonempty)
    have split := Cuts.size_splitOn ampersand (Cuts.before hash (bootstrapQuery entries))
    rw [read, split] at bound
    have length : ((Cuts.before hash (bootstrapQuery entries)).splitOn ampersand).length ≤ 1 := by
      omega
    have positive := List.length_pos_iff.mpr
      (List.splitOn_ne_nil ampersand (Cuts.before hash (bootstrapQuery entries)))
    have whole : Cuts.before hash (bootstrapQuery entries) = bootstrapQuery entries :=
      (Cuts.before_prefix _ _).eq_of_length (by omega)
    have noHash := Cuts.not_mem_before hash (bootstrapQuery entries)
    rw [whole] at read noHash length positive
    rcases List.length_eq_one_iff.mp (le_antisymm length positive) with ⟨part, single⟩
    have isWhole : [ampersand].intercalate ((bootstrapQuery entries).splitOn ampersand) =
        bootstrapQuery entries := List.intercalate_splitOn ampersand
    rw [single, List.intercalate_singleton] at isWhole
    rw [single, isWhole, List.flatMap_singleton] at read
    have isPart : bootstrapQuery entries ∈ (bootstrapQuery entries).splitOn ampersand := by
      rw [single, isWhole]
      exact List.mem_singleton_self _
    exact ⟨noHash, Cuts.not_mem_of_mem_splitOn isPart, read, total⟩
  · exact absurd read.symm nonempty

theorem plain_of_queryAddresses
    (read : queryAddresses r (Cuts.before hash (bootstrapQuery entries)) = entries)
    (printable : (Cuts.before hash (bootstrapQuery entries)).any isControl = false) :
    ∀ entry ∈ entries, ∀ b ∈ entry, Plain b := by
  intro entry member b inEntry
  have nonempty := List.ne_nil_of_mem member
  rcases single_of_queryAddresses nonempty read with ⟨noHash, noAmpersand, whole, total⟩
  have facts := partAddresses_read (whole.symm ▸ nonempty)
  rw [whole] at facts
  have noPercent : percent ∉ bootstrapQuery entries := by
    intro isPercent
    have := facts.2.2.2 isPercent
    omega
  have inQuery : b ∈ bootstrapQuery entries := by
    rw [bootstrapQuery, if_pos nonempty]
    exact List.mem_append_right _
      (List.mem_cons_of_mem _ ((Cuts.infix_intercalate member).subset inEntry))
  rw [Cuts.before_of_not_mem noHash, List.any_eq_false] at printable
  refine ⟨?_, ?_, ?_, ?_, ?_, Bool.eq_false_iff.mpr (printable b inQuery)⟩
  · rintro rfl
    exact noHash inQuery
  · rintro rfl
    exact noAmpersand inQuery
  · rintro rfl
    exact facts.1 inQuery
  · rintro rfl
    exact facts.2.1 noPercent entry member inEntry
  · rintro rfl
    exact noPercent inQuery

end Kiyomi.Dns
