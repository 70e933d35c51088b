import Mathlib.Data.List.Basic

namespace Kiyomi.Go

/-! # Addresses of the `net` package -/

/-- The bytes of an address, four or sixteen of them. -/
abbrev IP := List UInt8

namespace IP

/-- The IPv4 address `a.b.c.d` in sixteen bytes. -/
def mapped (a b c d : UInt8) : IP := [0, 0, 0, 0, 0, 0, 0, 0, 0, 0, 255, 255, a, b, c, d]

/-- The IPv4 address behind an address, if there is one. -/
def to4 : IP → Option (UInt8 × UInt8 × UInt8 × UInt8)
  | [a, b, c, d] => some (a, b, c, d)
  | [0, 0, 0, 0, 0, 0, 0, 0, 0, 0, 255, 255, a, b, c, d] => some (a, b, c, d)
  | _ => none

def ipv6Unspecified : IP := List.replicate 16 0

def ipv6Loopback : IP := List.replicate 15 0 ++ [1]

def isUnspecified (ip : IP) : Bool := ip.to4 == some (0, 0, 0, 0) || ip == ipv6Unspecified

def isLoopback (ip : IP) : Bool :=
  match ip.to4 with
  | some (a, _) => a == 127
  | none => ip == ipv6Loopback

def isPrivate (ip : IP) : Bool :=
  match ip.to4 with
  | some (a, b, _) => a == 10 || (a == 172 && b &&& 240 == 16) || (a == 192 && b == 168)
  | none => ip.length == 16 && ip.headD 0 &&& 254 == 252

def isMulticast (ip : IP) : Bool :=
  match ip.to4 with
  | some (a, _) => a &&& 240 == 224
  | none => ip.length == 16 && ip.headD 0 == 255

def isInterfaceLocalMulticast (ip : IP) : Bool :=
  ip.length == 16 && ip.headD 0 == 255 && ip.getD 1 0 &&& 15 == 1

def isLinkLocalMulticast (ip : IP) : Bool :=
  match ip.to4 with
  | some (a, b, c, _) => a == 224 && b == 0 && c == 0
  | none => ip.length == 16 && ip.headD 0 == 255 && ip.getD 1 0 &&& 15 == 2

def isLinkLocalUnicast (ip : IP) : Bool :=
  match ip.to4 with
  | some (a, b, _) => a == 169 && b == 254
  | none => ip.length == 16 && ip.headD 0 == 254 && ip.getD 1 0 &&& 192 == 128

@[simp] theorem to4_four (a b c d : UInt8) : to4 [a, b, c, d] = some (a, b, c, d) := rfl

@[simp] theorem to4_mapped (a b c d : UInt8) : to4 (mapped a b c d) = some (a, b, c, d) := rfl

end IP

end Kiyomi.Go
