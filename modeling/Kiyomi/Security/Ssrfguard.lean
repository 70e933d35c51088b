import Kiyomi.Go.Http
import Kiyomi.Go.NetIP

namespace Kiyomi.Security.Ssrfguard

open Go

/-! # The guard of outbound URLs -/

/-- The functions of the standard library whose grammar is not spelled out, and the answers
of the resolver. -/
structure Names where
  /-- `url.Parse`. -/
  parse : String → Option Http.URL
  /-- `net.ParseIP`. -/
  parseIP : String → Option IP
  /-- `LookupIP`. -/
  lookupIP : String → Option (List IP)

/-- `100.64.0.0/10`. -/
def cgnatNet (ip : IP) : Bool :=
  match ip.to4 with
  | some (a, b, _) => a == 100 && b &&& 192 == 64
  | none => false

/-- `0.0.0.0/8`. -/
def rfc1122Net (ip : IP) : Bool :=
  match ip.to4 with
  | some (a, _) => a == 0
  | none => false

/-- An IPv4 address in the last bytes of sixteen is taken as one. -/
def withoutZeros (ip : IP) : IP :=
  if ip.length == 16 && (ip.take 12).all (· == 0) then ip.drop 12 else ip

def isBlockedIP (ip : IP) : Bool :=
  if ip = [] then true
  else
    let ip := withoutZeros ip
    ip.isUnspecified || ip.isLoopback || ip.isPrivate || ip.isLinkLocalUnicast ||
      ip.isLinkLocalMulticast || ip.isMulticast || ip.isInterfaceLocalMulticast ||
      cgnatNet ip || rfc1122Net ip

variable (names : Names)

/-- The checks of a URL that has been parsed. -/
def accepts (allowPrivateNetworks : Bool) (u : Http.URL) : Bool :=
  let scheme := u.scheme.toLower
  let host := u.hostname
  (scheme == "http" || scheme == "https") && host != "" &&
    (allowPrivateNetworks ||
      match names.parseIP host with
      | some ip => !isBlockedIP ip
      | none =>
          match names.lookupIP host with
          | none => false
          | some ips => !ips.isEmpty && ips.all fun ip => !isBlockedIP ip)

def validateURL (rawURL : String) (allowPrivateNetworks : Bool) : Option Http.URL := do
  let u ← names.parse rawURL
  if accepts names allowPrivateNetworks u then some u else none

/-! ## Addresses -/

/-- The blocked ranges of IPv4. -/
def blocked4 (a b c d : UInt8) : Bool :=
  (a, b, c, d) == (0, 0, 0, 0) || a == 127 ||
    (a == 10 || (a == 172 && b &&& 240 == 16) || (a == 192 && b == 168)) ||
    (a == 169 && b == 254) || (a == 224 && b == 0 && c == 0) || a &&& 240 == 224 ||
    (a == 100 && b &&& 192 == 64) || a == 0

theorem isBlockedIP_four (a b c d : UInt8) : isBlockedIP [a, b, c, d] = blocked4 a b c d := by
  simp [isBlockedIP, withoutZeros, IP.isUnspecified, IP.isLoopback, IP.isPrivate,
    IP.isLinkLocalUnicast, IP.isLinkLocalMulticast, IP.isMulticast,
    IP.isInterfaceLocalMulticast, IP.ipv6Unspecified, cgnatNet, rfc1122Net, blocked4]

theorem withoutZeros_mapped (a b c d : UInt8) :
    withoutZeros (IP.mapped a b c d) = IP.mapped a b c d := by
  simp [withoutZeros, IP.mapped]

theorem isUnspecified_mapped (a b c d : UInt8) :
    (IP.mapped a b c d).isUnspecified = ((a, b, c, d) == (0, 0, 0, 0)) := by
  have other : (IP.mapped a b c d == IP.ipv6Unspecified) = false := by
    simp [IP.mapped, IP.ipv6Unspecified]
  rw [IP.isUnspecified, IP.to4_mapped, other, Bool.or_false]
  rfl

/-- The three ways to write an IPv4 address are blocked alike. -/
theorem isBlockedIP_mapped (a b c d : UInt8) :
    isBlockedIP (IP.mapped a b c d) = blocked4 a b c d := by
  have bytes : IP.mapped a b c d ≠ [] := by simp [IP.mapped]
  have no_interface : (IP.mapped a b c d).isInterfaceLocalMulticast = false := by
    simp [IP.mapped, IP.isInterfaceLocalMulticast]
  simp only [isBlockedIP, if_neg bytes, withoutZeros_mapped, isUnspecified_mapped, no_interface,
    IP.isLoopback, IP.isPrivate, IP.isLinkLocalUnicast, IP.isLinkLocalMulticast,
    IP.isMulticast, cgnatNet, rfc1122Net, IP.to4_mapped, Bool.or_false, blocked4]

theorem isBlockedIP_compatible (a b c d : UInt8) :
    isBlockedIP (List.replicate 12 0 ++ [a, b, c, d]) = blocked4 a b c d := by
  have dropped : withoutZeros (List.replicate 12 0 ++ [a, b, c, d]) = [a, b, c, d] := by
    simp [withoutZeros]
  have unchanged : withoutZeros [a, b, c, d] = [a, b, c, d] := by simp [withoutZeros]
  have bytes : List.replicate 12 0 ++ [a, b, c, d] ≠ [] := by simp
  rw [← isBlockedIP_four, isBlockedIP, isBlockedIP, if_neg bytes, if_neg (List.cons_ne_nil _ _),
    dropped, unchanged]

variable {names}

theorem validateURL_isSome {rawURL : String} {allow : Bool} :
    (validateURL names rawURL allow).isSome ↔
      ∃ u, names.parse rawURL = some u ∧ accepts names allow u := by
  unfold validateURL
  cases names.parse rawURL with
  | none => simp
  | some u => by_cases accepted : accepts names allow u <;> simp [accepted]

end Kiyomi.Security.Ssrfguard
