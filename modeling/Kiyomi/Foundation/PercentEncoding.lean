import Mathlib.Data.List.Basic

namespace Kiyomi.PercentEncoding

/-! # Bytes escaped by a percent sign and two digits -/

def percent : UInt8 := 0x25

def isHex (c : UInt8) : Bool :=
  (0x30 ≤ c && c ≤ 0x39) || (0x61 ≤ c && c ≤ 0x66) || (0x41 ≤ c && c ≤ 0x46)

def unhex (c : UInt8) : UInt8 :=
  if 0x30 ≤ c && c ≤ 0x39 then c - 0x30
  else if 0x61 ≤ c && c ≤ 0x66 then c - 0x61 + 10
  else c - 0x41 + 10

/-- The digit of a number below sixteen. -/
def upperHex (n : UInt8) : UInt8 := if n < 10 then 0x30 + n else 0x41 + (n - 10)

def hexByte (high low : UInt8) : UInt8 := unhex high <<< 4 ||| unhex low

/-- What a decoder accepts: the digits of an escape, and a byte that is not escaped, which it may
read as another one. -/
structure Policy where
  accepts : UInt8 → UInt8 → Bool
  read : UInt8 → Option UInt8

def Policy.decode (policy : Policy) : List UInt8 → Option (List UInt8)
  | [] => some []
  | c :: s =>
      if c = percent then
        match s with
        | high :: low :: s =>
            if isHex high && isHex low && policy.accepts high low then
              (policy.decode s).map (hexByte high low :: ·)
            else none
        | _ => none
      else (policy.read c).bind fun b => (policy.decode s).map (b :: ·)

def encodeByte (escapes : UInt8 → Bool) (c : UInt8) : List UInt8 :=
  if escapes c then [percent, upperHex (c >>> 4), upperHex (c &&& 15)] else [c]

def encode (escapes : UInt8 → Bool) (s : List UInt8) : List UInt8 := s.flatMap (encodeByte escapes)

/-! ## Digits -/

theorem forall_byte {p : UInt8 → Prop} (all : ∀ n, n < 256 → p (UInt8.ofNat n)) (c : UInt8) :
    p c := by
  rw [← UInt8.ofNat_toNat (x := c)]
  exact all c.toNat c.toNat_lt

theorem hexByte_upperHex (c : UInt8) : isHex (upperHex (c >>> 4)) = true ∧
    isHex (upperHex (c &&& 15)) = true ∧
    hexByte (upperHex (c >>> 4)) (upperHex (c &&& 15)) = c := by
  revert c
  apply forall_byte
  decide +kernel

/-! ## Decoding -/

section Decode

variable {policy : Policy} {s t : List UInt8} {c : UInt8}

theorem Policy.decode_plain (plain : c ≠ percent) (s : List UInt8) : policy.decode (c :: s) =
    (policy.read c).bind fun b => (policy.decode s).map (b :: ·) := by
  rw [Policy.decode.eq_def]
  exact if_neg plain

theorem Policy.decode_escape {high low : UInt8} (digits : isHex high = true ∧ isHex low = true)
    (s : List UInt8) : policy.decode (percent :: high :: low :: s) =
      if policy.accepts high low then (policy.decode s).map (hexByte high low :: ·) else none := by
  rw [Policy.decode, if_pos rfl, digits.1, digits.2]
  rfl

/-- What a text that is decoded begins with, and what that is read as. -/
theorem Policy.decode_cons (decoded : policy.decode (c :: s) = some t) :
    (∃ b rest, c ≠ percent ∧ policy.read c = some b ∧ policy.decode s = some rest ∧
        t = b :: rest) ∨
      ∃ high low after rest, c = percent ∧ s = high :: low :: after ∧
        ((isHex high = true ∧ isHex low = true) ∧ policy.accepts high low = true) ∧
        policy.decode after = some rest ∧ t = hexByte high low :: rest := by
  rw [Policy.decode.eq_def] at decoded
  dsimp only at decoded
  split at decoded
  · rename_i isPercent
    split at decoded
    · rename_i high low after
      split at decoded
      · rename_i valid
        simp only [Bool.and_eq_true] at valid
        rcases Option.map_eq_some_iff.mp decoded with ⟨rest, isRest, same⟩
        exact .inr ⟨high, low, after, rest, isPercent, rfl, valid, isRest, same.symm⟩
      · contradiction
    · contradiction
  · rename_i plain
    rcases Option.bind_eq_some_iff.mp decoded with ⟨b, isRead, mapped⟩
    rcases Option.map_eq_some_iff.mp mapped with ⟨rest, isRest, same⟩
    exact .inl ⟨b, rest, plain, isRead, isRest, same.symm⟩

/-- An escape is longer than what it stands for. -/
theorem Policy.length_decode (decoded : policy.decode s = some t) :
    t.length ≤ s.length ∧ (percent ∈ s → t.length < s.length) := by
  induction length : s.length using Nat.strongRecOn generalizing s t with
  | ind size induction =>
      cases s with
      | nil =>
          cases decoded
          exact ⟨Nat.zero_le _, fun member => absurd member List.not_mem_nil⟩
      | cons c s =>
          rw [List.length_cons] at length
          rcases Policy.decode_cons decoded with
            ⟨b, rest, plain, _, isRest, rfl⟩ | ⟨high, low, after, rest, _, rfl, _, isRest, rfl⟩
          · have shorter := induction s.length (by omega) isRest rfl
            rw [List.length_cons]
            refine ⟨by omega, fun member => ?_⟩
            have := shorter.2 ((List.mem_cons.mp member).resolve_left (Ne.symm plain))
            omega
          · simp only [List.length_cons] at length
            have shorter := induction after.length (by omega) isRest rfl
            rw [List.length_cons]
            exact ⟨by omega, fun _ => by omega⟩

/-- What holds of every byte read and of every byte that an escape stands for holds of what is
decoded. -/
theorem Policy.forall_mem_decode {p : UInt8 → Prop}
    (reads : ∀ c ∈ s, c ≠ percent → ∀ b, policy.read c = some b → p b)
    (escapes : ∀ high low, (isHex high = true ∧ isHex low = true) ∧ policy.accepts high low = true →
      percent ∈ s → p (hexByte high low))
    (decoded : policy.decode s = some t) : ∀ b ∈ t, p b := by
  induction length : s.length using Nat.strongRecOn generalizing s t with
  | ind size induction =>
      cases s with
      | nil =>
          cases decoded
          exact fun b member => absurd member List.not_mem_nil
      | cons c s =>
          rw [List.length_cons] at length
          rcases Policy.decode_cons decoded with
            ⟨b, rest, plain, isRead, isRest, rfl⟩ |
            ⟨high, low, after, rest, rfl, rfl, accepted, isRest, rfl⟩
          · refine List.forall_mem_cons.mpr ⟨reads c List.mem_cons_self plain b isRead, ?_⟩
            exact induction s.length (by omega)
              (fun c member => reads c (List.mem_cons_of_mem _ member))
              (fun high low accepted member =>
                escapes high low accepted (List.mem_cons_of_mem _ member)) isRest rfl
          · refine List.forall_mem_cons.mpr ⟨escapes high low accepted List.mem_cons_self, ?_⟩
            simp only [List.length_cons] at length
            exact induction after.length (by omega)
              (fun c member => reads c (List.mem_cons_of_mem _
                (List.mem_cons_of_mem _ (List.mem_cons_of_mem _ member))))
              (fun high low accepted _ => escapes high low accepted List.mem_cons_self) isRest rfl

theorem Policy.decode_of_plain (plain : ∀ c ∈ s, c ≠ percent ∧ policy.read c = some c) :
    policy.decode s = some s := by
  induction s with
  | nil => rfl
  | cons c s induction =>
      rcases List.forall_mem_cons.mp plain with ⟨first, rest⟩
      rw [Policy.decode_plain first.1, first.2, induction rest]
      rfl

/-- No escape reaches into bytes that are read as they are. -/
theorem Policy.decode_of_append {ending : List UInt8}
    (plain : ∀ c ∈ ending, isHex c = false ∧ c ≠ percent ∧ policy.read c = some c)
    (decoded : policy.decode (s ++ ending) = some t) :
    ∃ start, policy.decode s = some start ∧ t = start ++ ending := by
  have noDigit {high : UInt8} {after : List UInt8} (digit : isHex high = true) :
      ending ≠ high :: after := by
    rintro rfl
    rw [(plain high List.mem_cons_self).1] at digit
    contradiction
  induction length : s.length using Nat.strongRecOn generalizing s t with
  | ind size induction =>
      cases s with
      | nil =>
          have whole := Policy.decode_of_plain fun c member => (plain c member).2
          rw [List.nil_append, whole] at decoded
          exact ⟨[], rfl, (Option.some.inj decoded).symm⟩
      | cons c s =>
          rw [List.length_cons] at length
          rw [List.cons_append] at decoded
          rcases Policy.decode_cons decoded with
            ⟨b, rest, notEscape, isRead, isRest, rfl⟩ |
              ⟨high, low, after, rest, rfl, escape, ⟨digits, accepted⟩, isRest, rfl⟩
          · rcases induction s.length (by omega) isRest rfl with ⟨start, isStart, rfl⟩
            refine ⟨b :: start, ?_, rfl⟩
            rw [Policy.decode_plain notEscape, isRead, isStart]
            rfl
          · rcases s with _ | ⟨first, _ | ⟨second, s⟩⟩
            · exact absurd escape (noDigit digits.1)
            · exact absurd (List.cons.inj escape).2 (noDigit digits.2)
            · simp only [List.cons_append, List.cons.injEq] at escape
              rcases escape with ⟨rfl, rfl, rfl⟩
              simp only [List.length_cons] at length
              rcases induction s.length (by omega) isRest rfl with ⟨start, isStart, rfl⟩
              refine ⟨hexByte first second :: start, ?_, rfl⟩
              rw [Policy.decode_escape digits, if_pos accepted, isStart]
              rfl

/-! ## Encoding -/

variable {escapes : UInt8 → Bool}

@[simp] theorem encode_nil : encode escapes [] = [] := rfl

@[simp] theorem encode_append (s t : List UInt8) :
    encode escapes (s ++ t) = encode escapes s ++ encode escapes t := List.flatMap_append

theorem encode_cons (c : UInt8) (s : List UInt8) :
    encode escapes (c :: s) = encodeByte escapes c ++ encode escapes s := rfl

theorem encode_of_plain (plain : ∀ c ∈ s, escapes c = false) : encode escapes s = s := by
  induction s with
  | nil => rfl
  | cons c s induction =>
      rcases List.forall_mem_cons.mp plain with ⟨first, rest⟩
      rw [encode_cons, encodeByte, if_neg (Bool.eq_false_iff.mp first), induction rest]
      rfl

/-- The byte is decoded from what it is encoded as. -/
def Policy.Decodes (policy : Policy) (escapes : UInt8 → Bool) (c : UInt8) : Prop :=
  if escapes c then policy.accepts (upperHex (c >>> 4)) (upperHex (c &&& 15)) = true
  else c ≠ percent ∧ policy.read c = some c

instance (policy : Policy) (escapes : UInt8 → Bool) (c : UInt8) :
    Decidable (policy.Decodes escapes c) :=
  inferInstanceAs (Decidable (if escapes c then
    policy.accepts (upperHex (c >>> 4)) (upperHex (c &&& 15)) = true
  else c ≠ percent ∧ policy.read c = some c))

theorem Policy.decode_encodeByte (decodes : policy.Decodes escapes c) (s : List UInt8) :
    policy.decode (encodeByte escapes c ++ s) = (policy.decode s).map (c :: ·) := by
  rw [Policy.Decodes] at decodes
  rw [encodeByte]
  split
  · rename_i escaped
    rw [if_pos escaped] at decodes
    have digits := hexByte_upperHex c
    rw [List.cons_append, List.cons_append, List.cons_append, List.nil_append,
      Policy.decode_escape ⟨digits.1, digits.2.1⟩, if_pos decodes, digits.2.2]
  · rename_i plain
    rw [if_neg plain] at decodes
    rw [List.singleton_append, Policy.decode_plain decodes.1, decodes.2]
    rfl

theorem Policy.decode_encode (decodes : ∀ c ∈ s, policy.Decodes escapes c) (t : List UInt8) :
    policy.decode (encode escapes s ++ t) = (policy.decode t).map (s ++ ·) := by
  induction s with
  | nil => simp
  | cons c s induction =>
      rcases List.forall_mem_cons.mp decodes with ⟨first, rest⟩
      rw [encode_cons, List.append_assoc, Policy.decode_encodeByte first, induction rest,
        Option.map_map]
      rfl

/-- An escape that is not accepted is met wherever it stands. -/
theorem Policy.decode_encode_refused (escaped : escapes c = true)
    (refused : policy.accepts (upperHex (c >>> 4)) (upperHex (c &&& 15)) = false)
    (others : ∀ b ∈ s, policy.Decodes escapes b ∨ b = c) (member : c ∈ s) (t : List UInt8) :
    policy.decode (encode escapes s ++ t) = none := by
  induction s with
  | nil => exact absurd member List.not_mem_nil
  | cons b s induction =>
      rcases List.forall_mem_cons.mp others with ⟨first, rest⟩
      rw [encode_cons, List.append_assoc]
      by_cases same : b = c
      · have digits := hexByte_upperHex c
        rw [same, encodeByte, if_pos escaped, List.cons_append, List.cons_append, List.cons_append,
          List.nil_append, Policy.decode_escape ⟨digits.1, digits.2.1⟩, refused]
        rfl
      · rw [Policy.decode_encodeByte (first.resolve_right same),
          induction rest ((List.mem_cons.mp member).resolve_left (Ne.symm same))]
        rfl

end Decode

end Kiyomi.PercentEncoding
