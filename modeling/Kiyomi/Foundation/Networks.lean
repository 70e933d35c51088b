import Mathlib.Data.Nat.Basic
import Mathlib.Tactic.Ring

namespace Kiyomi

/-! # Networks of addresses

An address is its bytes; a network is the addresses that begin with the same bits. -/

/-- The number that bytes spell, the first one highest. -/
def addressValue : List UInt8 → Nat
  | [] => 0
  | byte :: bytes => byte.toNat * 2 ^ (8 * bytes.length) + addressValue bytes

theorem addressValue_lt (bytes : List UInt8) : addressValue bytes < 2 ^ (8 * bytes.length) := by
  induction bytes with
  | nil => exact Nat.zero_lt_one
  | cons byte bytes induction =>
      have small : byte.toNat < 2 ^ 8 := byte.toNat_lt
      calc
        addressValue (byte :: bytes)
            < byte.toNat * 2 ^ (8 * bytes.length) + 2 ^ (8 * bytes.length) :=
          Nat.add_lt_add_left induction _
        _ = (byte.toNat + 1) * 2 ^ (8 * bytes.length) := (Nat.succ_mul _ _).symm
        _ ≤ 2 ^ 8 * 2 ^ (8 * bytes.length) := Nat.mul_le_mul_right _ small
        _ = 2 ^ (8 * (byte :: bytes).length) := by
          rw [← Nat.pow_add, List.length_cons, Nat.mul_succ, Nat.add_comm]

structure Network where
  address : List UInt8
  bits : Nat

namespace Network

/-- An address of the network's length that agrees with it in the first bits. -/
def Contains (network : Network) (ip : List UInt8) : Prop :=
  ip.length = network.address.length ∧
    addressValue ip / 2 ^ (8 * network.address.length - network.bits) =
      addressValue network.address / 2 ^ (8 * network.address.length - network.bits)

instance (network : Network) (ip : List UInt8) : Decidable (network.Contains ip) :=
  inferInstanceAs (Decidable (_ ∧ _))

variable {byte first : UInt8} {bytes rest : List UInt8}

theorem contains_zero_bits : Contains ⟨rest, 0⟩ bytes ↔ bytes.length = rest.length := by
  constructor
  · exact fun inside => inside.1
  · intro same
    have none_left (ip : List UInt8) : addressValue ip / 2 ^ (8 * ip.length) = 0 :=
      Nat.div_eq_of_lt (addressValue_lt ip)
    refine ⟨same, (none_left rest).symm ▸ ?_⟩
    exact (congrArg (fun size => addressValue bytes / 2 ^ (8 * size)) same.symm).trans
      (none_left bytes)

theorem div_high (byte : UInt8) (bytes : List UInt8) (bits : Nat) :
    addressValue (byte :: bytes) / 2 ^ (8 * bytes.length + bits) = byte.toNat / 2 ^ bits := by
  rw [addressValue, Nat.pow_add, ← Nat.div_div_eq_div_mul, Nat.mul_comm byte.toNat,
    Nat.mul_add_div (Nat.two_pow_pos _), Nat.div_eq_of_lt (addressValue_lt bytes), Nat.add_zero]

/-- A network of at most a byte is about the first byte alone. -/
theorem contains_head {bits : Nat} (short : bits ≤ 8) :
    Contains ⟨first :: rest, bits⟩ (byte :: bytes) ↔
      bytes.length = rest.length ∧
        byte.toNat / 2 ^ (8 - bits) = first.toNat / 2 ^ (8 - bits) := by
  have split : 8 * (first :: rest).length - bits = 8 * rest.length + (8 - bits) := by
    rw [List.length_cons]
    omega
  rw [Contains, split, div_high, List.length_cons, List.length_cons, Nat.add_right_cancel_iff]
  constructor
  · rintro ⟨same, agree⟩
    rw [← same, div_high] at agree
    exact ⟨same, agree⟩
  · rintro ⟨same, agree⟩
    refine ⟨same, ?_⟩
    rw [← same, div_high]
    exact agree

theorem div_low (byte : UInt8) {bytes : List UInt8} {bits : Nat} (fits : bits ≤ 8 * bytes.length) :
    addressValue (byte :: bytes) / 2 ^ (8 * bytes.length - bits) =
        2 ^ bits * byte.toNat + addressValue bytes / 2 ^ (8 * bytes.length - bits) ∧
      addressValue bytes / 2 ^ (8 * bytes.length - bits) < 2 ^ bits := by
  have whole : 2 ^ (8 * bytes.length) = 2 ^ (8 * bytes.length - bits) * 2 ^ bits := by
    rw [← Nat.pow_add, Nat.sub_add_cancel fits]
  constructor
  · have shifted : byte.toNat * 2 ^ (8 * bytes.length) =
        2 ^ (8 * bytes.length - bits) * (2 ^ bits * byte.toNat) := by
      rw [whole]
      ring
    rw [addressValue, shifted, Nat.mul_add_div (Nat.two_pow_pos _)]
  · have below := addressValue_lt bytes
    rw [whole] at below
    exact Nat.div_lt_of_lt_mul below

/-- A whole byte of a network is the first byte of its addresses. -/
theorem contains_cons (bits : Nat) (fits : bits ≤ 8 * rest.length) :
    Contains ⟨first :: rest, bits + 8⟩ (byte :: bytes) ↔
      byte = first ∧ Contains ⟨rest, bits⟩ bytes := by
  have split : 8 * (first :: rest).length - (bits + 8) = 8 * rest.length - bits := by
    rw [List.length_cons]
    omega
  rw [Contains, Contains, split, List.length_cons, List.length_cons, Nat.add_right_cancel_iff]
  by_cases same : bytes.length = rest.length
  · have mine := div_low byte (same ▸ fits : bits ≤ 8 * bytes.length)
    have theirs := div_low first fits
    rw [same] at mine
    simp only [same, true_and]
    rw [mine.1, theirs.1]
    constructor
    · intro agree
      have high := congrArg (· / 2 ^ bits) agree
      have low := congrArg (· % 2 ^ bits) agree
      simp only [Nat.mul_add_div (Nat.two_pow_pos bits), Nat.div_eq_of_lt mine.2,
        Nat.div_eq_of_lt theirs.2, Nat.add_zero] at high
      simp only [Nat.mul_add_mod, Nat.mod_eq_of_lt mine.2, Nat.mod_eq_of_lt theirs.2] at low
      exact ⟨UInt8.toNat_inj.1 high, low⟩
    · rintro ⟨rfl, low⟩
      rw [low]
  · simp only [same, false_and, and_false]

theorem contains_byte :
    Contains ⟨first :: rest, 8⟩ (byte :: bytes) ↔ byte = first ∧ bytes.length = rest.length :=
  (contains_cons 0 (Nat.zero_le _)).trans (and_congr_right fun _ => contains_zero_bits)

/-- A network of all bits is a single address. -/
theorem contains_all : Contains ⟨rest, 8 * rest.length⟩ bytes ↔ bytes = rest := by
  induction rest generalizing bytes with
  | nil => exact contains_zero_bits.trans List.length_eq_zero_iff
  | cons first rest induction =>
      cases bytes with
      | nil => simp [Contains]
      | cons byte bytes =>
          rw [List.length_cons, Nat.mul_succ, contains_cons _ (Nat.le_refl _), induction,
            List.cons.injEq]

end Network

end Kiyomi
