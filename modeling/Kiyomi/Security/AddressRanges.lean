import Kiyomi.Foundation.Networks
import Kiyomi.Security.Ssrfguard

namespace Kiyomi.Security.Ssrfguard

open Go

/-! # The ranges that the guard blocks -/

/-- An address read as IPv4: itself, or its last bytes behind one of the two paddings. -/
def asIPv4 : IP → Option IP
  | [a, b, c, d] => some [a, b, c, d]
  | [0, 0, 0, 0, 0, 0, 0, 0, 0, 0, 255, 255, a, b, c, d] => some [a, b, c, d]
  | [0, 0, 0, 0, 0, 0, 0, 0, 0, 0, 0, 0, a, b, c, d] => some [a, b, c, d]
  | _ => none

def ranges4 : List Network :=
  [ -- unspecified
    ⟨[0, 0, 0, 0], 32⟩,
    -- loopback
    ⟨[127, 0, 0, 0], 8⟩,
    -- private
    ⟨[10, 0, 0, 0], 8⟩, ⟨[172, 16, 0, 0], 12⟩, ⟨[192, 168, 0, 0], 16⟩,
    -- link-local unicast and multicast
    ⟨[169, 254, 0, 0], 16⟩, ⟨[224, 0, 0, 0], 24⟩,
    -- multicast
    ⟨[224, 0, 0, 0], 4⟩,
    -- carrier-grade NAT and "this network"
    ⟨[100, 64, 0, 0], 10⟩, ⟨[0, 0, 0, 0], 8⟩ ]

/-- A network of sixteen bytes whose first two are these. -/
def network6 (first second : UInt8) (bits : Nat) : Network :=
  ⟨first :: second :: List.replicate 14 0, bits⟩

def ranges6 : List Network :=
  [ -- unspecified
    ⟨IP.ipv6Unspecified, 128⟩,
    -- loopback
    ⟨IP.ipv6Loopback, 128⟩,
    -- private
    network6 0xfc 0 7,
    -- link-local unicast and multicast
    network6 0xfe 0x80 10, network6 0xff 2 16,
    -- multicast
    network6 0xff 0 8 ]

/-- The address lies in one of the ranges. -/
def InRanges (ip : IP) : Prop :=
  (∃ four, asIPv4 ip = some four ∧ ∃ network ∈ ranges4, network.Contains four) ∨
    ∃ network ∈ ranges6, network.Contains ip

/-! ## Masks -/

set_option maxRecDepth 8192 in
theorem and_mask (shift : Fin 8) (byte : Fin 256) :
    (UInt8.ofFin byte &&& UInt8.ofNat (256 - 2 ^ shift.val)).toNat =
      byte.val / 2 ^ shift.val * 2 ^ shift.val := by
  revert shift byte
  decide

/-- A mask keeps the high bits. -/
theorem and_mask_eq_iff {shift : Nat} (small : shift < 8) {byte first mask : UInt8}
    (high : mask = UInt8.ofNat (256 - 2 ^ shift)) (low : first.toNat % 2 ^ shift = 0) :
    byte &&& mask = first ↔ byte.toNat / 2 ^ shift = first.toNat / 2 ^ shift := by
  have kept : (byte &&& mask).toNat = byte.toNat / 2 ^ shift * 2 ^ shift :=
    high ▸ and_mask ⟨shift, small⟩ byte.toFin
  have whole := Nat.div_add_mod first.toNat (2 ^ shift)
  rw [low, Nat.add_zero, Nat.mul_comm] at whole
  rw [← UInt8.toNat_inj, kept, ← whole, Nat.mul_div_cancel _ (Nat.two_pow_pos _)]
  exact Nat.mul_right_cancel_iff (Nat.two_pow_pos _)

/-- A network of a part of a byte as a mask. -/
theorem contains_mask (mask : UInt8) {bits : Nat} (short : 0 < bits ∧ bits ≤ 8)
    {byte first : UInt8} {bytes rest : IP} (high : mask = UInt8.ofNat (256 - 2 ^ (8 - bits)))
    (low : first.toNat % 2 ^ (8 - bits) = 0) :
    Network.Contains ⟨first :: rest, bits⟩ (byte :: bytes) ↔
      bytes.length = rest.length ∧ byte &&& mask = first := by
  rw [Network.contains_head short.2, and_mask_eq_iff (by omega) high low]

/-! ## Four bytes -/

theorem blocked4_iff (a b c d : UInt8) :
    blocked4 a b c d = true ↔ ∃ network ∈ ranges4, network.Contains [a, b, c, d] := by
  have unspecified : Network.Contains ⟨[0, 0, 0, 0], 32⟩ [a, b, c, d] ↔
      a = 0 ∧ b = 0 ∧ c = 0 ∧ d = 0 := by
    rw [Network.contains_cons 24 (by decide), Network.contains_cons 16
      (by decide), Network.contains_cons 8 (by decide), Network.contains_byte]
    simp
  have private12 : Network.Contains ⟨[172, 16, 0, 0], 12⟩ [a, b, c, d] ↔
      a = 172 ∧ b &&& 240 = 16 := by
    rw [Network.contains_cons 4 (by decide),
      contains_mask 240 (by decide) rfl rfl]
    simp
  have private16 : Network.Contains ⟨[192, 168, 0, 0], 16⟩ [a, b, c, d] ↔ a = 192 ∧ b = 168 := by
    rw [Network.contains_cons 8 (by decide), Network.contains_byte]
    simp
  have linkLocal : Network.Contains ⟨[169, 254, 0, 0], 16⟩ [a, b, c, d] ↔ a = 169 ∧ b = 254 := by
    rw [Network.contains_cons 8 (by decide), Network.contains_byte]
    simp
  have linkLocalMulticast : Network.Contains ⟨[224, 0, 0, 0], 24⟩ [a, b, c, d] ↔
      a = 224 ∧ b = 0 ∧ c = 0 := by
    rw [Network.contains_cons 16 (by decide), Network.contains_cons 8
      (by decide), Network.contains_byte]
    simp
  have multicast : Network.Contains ⟨[224, 0, 0, 0], 4⟩ [a, b, c, d] ↔ a &&& 240 = 224 := by
    rw [contains_mask 240 (by decide) rfl rfl]
    simp
  have shared : Network.Contains ⟨[100, 64, 0, 0], 10⟩ [a, b, c, d] ↔
      a = 100 ∧ b &&& 192 = 64 := by
    rw [Network.contains_cons 2 (by decide),
      contains_mask 192 (by decide) rfl rfl]
    simp
  have one (first : UInt8) : Network.Contains ⟨[first, 0, 0, 0], 8⟩ [a, b, c, d] ↔ a = first := by
    rw [Network.contains_byte]
    simp
  simp only [ranges4, List.exists_mem_cons_iff, List.not_mem_nil, false_and, exists_false,
    or_false, unspecified, private12, private16, linkLocal, linkLocalMulticast, multicast, shared,
    one]
  simp only [blocked4, Bool.or_eq_true, Bool.and_eq_true, beq_iff_eq, Prod.mk.injEq, or_assoc,
    and_assoc]

/-! ## Sixteen bytes -/

theorem of_asIPv4 {ip four : IP} (read : asIPv4 ip = some four) :
    ∃ a b c d, four = [a, b, c, d] ∧
      (ip = four ∨ ip = IP.mapped a b c d ∨ ip = List.replicate 12 0 ++ four) := by
  unfold asIPv4 at read
  split at read
  · rename_i a b c d
    cases read
    exact ⟨a, b, c, d, rfl, .inl rfl⟩
  · rename_i a b c d
    cases read
    exact ⟨a, b, c, d, rfl, .inr (.inl rfl)⟩
  · rename_i a b c d
    cases read
    exact ⟨a, b, c, d, rfl, .inr (.inr rfl)⟩
  · contradiction

theorem to4_of_asIPv4_none {ip : IP} (plain : asIPv4 ip = none) : ip.to4 = none := by
  unfold IP.to4
  split
  · contradiction
  · contradiction
  · rfl

theorem withoutZeros_of_asIPv4_none {ip : IP} (plain : asIPv4 ip = none) :
    withoutZeros ip = ip := by
  refine if_neg fun padded => ?_
  rw [Bool.and_eq_true, beq_iff_eq, List.all_eq_true] at padded
  obtain ⟨sixteen, zeros⟩ := padded
  have start : ip.take 12 = List.replicate 12 0 :=
    List.eq_replicate_iff.2 ⟨by simp [sixteen], fun byte member => by simpa using zeros byte member⟩
  have four : (ip.drop 12).length = 4 := by simp [sixteen]
  obtain ⟨a, b, c, d, last⟩ := List.length_eq_four.1 four
  rw [← List.take_append_drop 12 ip, start, last] at plain
  contradiction

theorem inRanges6_iff {b c : UInt8} {rest : IP} (length : rest.length = 14) :
    (∃ network ∈ ranges6, network.Contains (b :: c :: rest)) ↔
      b :: c :: rest = IP.ipv6Unspecified ∨ b :: c :: rest = IP.ipv6Loopback ∨
        b &&& 254 = 252 ∨ (b = 254 ∧ c &&& 192 = 128) ∨ b = 255 := by
  have unspecified : Network.Contains ⟨IP.ipv6Unspecified, 128⟩ (b :: c :: rest) ↔
      b :: c :: rest = IP.ipv6Unspecified := Network.contains_all
  have loopback : Network.Contains ⟨IP.ipv6Loopback, 128⟩ (b :: c :: rest) ↔
      b :: c :: rest = IP.ipv6Loopback := Network.contains_all
  have unique : (network6 0xfc 0 7).Contains (b :: c :: rest) ↔ b &&& 254 = 252 := by
    rw [network6, contains_mask 254 (by decide) rfl rfl]
    simp [length]
  have linkLocal : (network6 0xfe 0x80 10).Contains (b :: c :: rest) ↔
      b = 254 ∧ c &&& 192 = 128 := by
    rw [network6, Network.contains_cons 2 (by simp), contains_mask 192 (by decide) rfl rfl]
    simp [length]
  have linkLocalMulticast : (network6 0xff 2 16).Contains (b :: c :: rest) ↔ b = 255 ∧ c = 2 := by
    rw [network6, Network.contains_cons 8 (by simp), Network.contains_byte]
    simp [length]
  have multicast : (network6 0xff 0 8).Contains (b :: c :: rest) ↔ b = 255 := by
    rw [network6, Network.contains_byte]
    simp [length]
  simp only [ranges6, List.exists_mem_cons_iff, List.not_mem_nil, false_and, exists_false,
    or_false, unspecified, loopback, unique, linkLocal, linkLocalMulticast, multicast]
  rw [or_iff_right_of_imp (And.left : b = 255 ∧ c = 2 → b = 255)]

/-- An address of IPv6 that spells none of IPv4. -/
theorem isBlockedIP_of_asIPv4_none {b c : UInt8} {rest : IP} (length : rest.length = 14)
    (plain : asIPv4 (b :: c :: rest) = none) :
    isBlockedIP (b :: c :: rest) = true ↔ b :: c :: rest = IP.ipv6Unspecified ∨
      b :: c :: rest = IP.ipv6Loopback ∨ b &&& 254 = 252 ∨ (b = 254 ∧ c &&& 192 = 128) ∨
        b = 255 := by
  have no_four := to4_of_asIPv4_none plain
  have second : (b :: c :: rest).getD 1 0 = c := rfl
  rw [isBlockedIP, if_neg (List.cons_ne_nil _ _), withoutZeros_of_asIPv4_none plain]
  simp only [IP.isUnspecified, IP.isLoopback, IP.isPrivate, IP.isLinkLocalUnicast,
    IP.isLinkLocalMulticast, IP.isMulticast, IP.isInterfaceLocalMulticast, cgnatNet, rfc1122Net,
    no_four, Bool.or_eq_true, Bool.and_eq_true, beq_iff_eq, List.headD_cons, List.length_cons,
    length, second, reduceCtorEq, Bool.false_eq_true, false_or, or_false, true_and]
  -- The two scopes of multicast that are asked for are multicast.
  tauto

/-- What the last bytes of an address spell decides, if they spell an address of IPv4. -/
theorem isBlockedIP_of_asIPv4 {ip : IP} {a b c d : UInt8} (read : asIPv4 ip = some [a, b, c, d]) :
    isBlockedIP ip = blocked4 a b c d := by
  obtain ⟨_, _, _, _, same, spelled⟩ := of_asIPv4 read
  cases same
  rcases spelled with rfl | rfl | rfl
  · exact isBlockedIP_four a b c d
  · exact isBlockedIP_mapped a b c d
  · exact isBlockedIP_compatible a b c d

/-- An address that spells one of IPv4 lies in no other range of IPv6. -/
theorem blocked4_of_ranges6 {ip : IP} {a b c d : UInt8} (read : asIPv4 ip = some [a, b, c, d])
    (inside : ∃ network ∈ ranges6, network.Contains ip) : blocked4 a b c d = true := by
  obtain ⟨_, _, _, _, same, spelled⟩ := of_asIPv4 read
  cases same
  rcases spelled with rfl | rfl | rfl
  · obtain ⟨network, member, contains⟩ := inside
    have sixteen : ∀ network ∈ ranges6, network.address.length = 16 := by decide
    exact absurd (contains.1.trans (sixteen network member)) (by simp)
  · rw [IP.mapped, inRanges6_iff rfl] at inside
    simp [IP.ipv6Unspecified, IP.ipv6Loopback] at inside
  · rw [List.replicate_succ, List.replicate_succ, List.cons_append, List.cons_append,
      inRanges6_iff rfl] at inside
    have zero : a = 0 := by
      rcases inside with same | same | masked | ⟨same, -⟩ | same
      · simp_all [IP.ipv6Unspecified, List.replicate]
      · simp_all [IP.ipv6Loopback, List.replicate]
      · simp at masked
      · simp at same
      · simp at same
    simp [blocked4, zero]

/-- The guard blocks exactly the documented ranges, however an address of IPv4 is spelled. -/
theorem isBlockedIP_iff {ip : IP} (length : ip.length = 4 ∨ ip.length = 16) :
    isBlockedIP ip = true ↔ InRanges ip := by
  cases read : asIPv4 ip with
  | some four =>
      obtain ⟨a, b, c, d, rfl, -⟩ := of_asIPv4 read
      rw [isBlockedIP_of_asIPv4 read, InRanges]
      constructor
      · intro blocked
        exact .inl ⟨_, read, (blocked4_iff a b c d).1 blocked⟩
      · rintro (⟨four, same, inside⟩ | inside)
        · cases read.symm.trans same
          exact (blocked4_iff a b c d).2 inside
        · exact blocked4_of_ranges6 read inside
  | none =>
      rcases length with short | long
      · obtain ⟨a, b, c, d, rfl⟩ := List.length_eq_four.1 short
        contradiction
      · obtain ⟨b, more, rfl⟩ := List.exists_cons_of_length_eq_add_one long
        obtain ⟨c, rest, rfl⟩ := List.exists_cons_of_length_eq_add_one (Nat.succ.inj long)
        have fourteen : rest.length = 14 := Nat.succ.inj (Nat.succ.inj long)
        rw [isBlockedIP_of_asIPv4_none fourteen read, ← inRanges6_iff fourteen, InRanges, read]
        simp

/-- The address test is exact, and the three ways to write an address of IPv4 are answered alike. -/
theorem isBlockedIP_exact :
    (∀ ip : IP, ip.length = 4 ∨ ip.length = 16 → (isBlockedIP ip = true ↔ InRanges ip)) ∧
      ∀ a b c d : UInt8, isBlockedIP (IP.mapped a b c d) = isBlockedIP [a, b, c, d] ∧
        isBlockedIP (List.replicate 12 0 ++ [a, b, c, d]) = isBlockedIP [a, b, c, d] := by
  refine ⟨fun ip length => isBlockedIP_iff length, fun a b c d => ⟨?_, ?_⟩⟩
  · rw [isBlockedIP_mapped, isBlockedIP_four]
  · rw [isBlockedIP_compatible, isBlockedIP_four]

/-- The metadata service of a cloud, as IPv6 writes it. -/
theorem isBlockedIP_exact_metadata :
    isBlockedIP (IP.mapped 169 254 169 254) = true ↔ InRanges (IP.mapped 169 254 169 254) :=
  isBlockedIP_exact.1 (IP.mapped 169 254 169 254) (Or.inr rfl)

end Kiyomi.Security.Ssrfguard
