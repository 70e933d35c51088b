import Kiyomi.Dns.RoundTrip

namespace Kiyomi.Dns

open Go Go.Url

/-! # Specs that a lookup can use -/

variable {r : Rules} {u : URL} {s : Spec} {raw : List UInt8}

inductive Lookup
  | plain (server : List UInt8) (port : Nat)
  | dot (server : List UInt8) (port : Nat) (bootstrap : List (List UInt8))
  | doh (server : List UInt8) (port : Nat) (path : List UInt8) (bootstrap : List (List UInt8))
  deriving DecidableEq

/-- The lookup that `resolveWithSpec` makes, if it supports the scheme. -/
def resolveWithSpec (s : Spec) : Option Lookup :=
  if s.scheme = dns then some (.plain s.host s.port)
  else if s.scheme = tls then some (.dot s.host s.port s.bootstrap)
  else if s.scheme = https then some (.doh s.host s.port s.path s.bootstrap)
  else none

structure Usable (s : Spec) : Prop where
  supported : (resolveWithSpec s).isSome
  host : s.host ≠ []
  lowest : 1 ≤ s.port
  highest : s.port ≤ 65535

/-- The URL names a resolver: of one of the three schemes, at a host, on a port of the network. -/
structure NamesResolver (u : URL) : Prop where
  scheme : u.scheme = dns ∨ u.scheme = tls ∨ u.scheme = https
  host : u.hostname ≠ []
  port : portValue u.port ≤ 65535

theorem isSome_resolveWithSpec :
    (resolveWithSpec s).isSome ↔ s.scheme = dns ∨ s.scheme = tls ∨ s.scheme = https := by
  rw [resolveWithSpec]
  split
  · simp_all
  · split
    · simp_all
    · split
      · simp_all
      · simp_all

theorem defaultPort_le {scheme : List UInt8} {port : Nat}
    (isDefault : defaultPort scheme = some port) : port ≤ 65535 := by
  rw [defaultPort] at isDefault
  split at isDefault
  · cases isDefault
    decide
  · split at isDefault
    · cases isDefault
      decide
    · split at isDefault
      · cases isDefault
        decide
      · contradiction

/-- The port of a spec is the one of its URL, or that of the scheme for none and for zero. -/
theorem port_of_specOf (parsed : specOf r u = .ok s) :
    s.port = portValue u.port ∨ portValue u.port = 0 ∧ defaultPort u.scheme = some s.port := by
  rw [specOf] at parsed
  split at parsed
  · contradiction
  · rename_i port isPort
    have value : port = portValue u.port := by
      split at isPort
      · rename_i empty
        cases isPort
        rw [empty]
        rfl
      · rw [scanPort] at isPort
        split at isPort
        · exact (Option.some.inj isPort).symm
        · contradiction
    subst value
    dsimp only at parsed
    split at parsed
    · rename_i zero
      split at parsed
      · rename_i port isDefault
        cases parsed
        exact .inr ⟨zero, isDefault⟩
      · contradiction
    · cases parsed
      exact .inl rfl

theorem port_le_iff (parsed : specOf r u = .ok s) :
    s.port ≤ 65535 ↔ portValue u.port ≤ 65535 := by
  rcases port_of_specOf parsed with written | ⟨zero, isDefault⟩
  · rw [written]
  · rw [zero]
    exact iff_of_true (defaultPort_le isDefault) (Nat.zero_le _)

theorem usable_specOf_iff (parsed : specOf r u = .ok s) : Usable s ↔ NamesResolver u := by
  rcases specOf_eq parsed with ⟨shape, nonzero, _⟩
  have scheme : s.scheme = u.scheme := congrArg Spec.scheme shape
  have host : s.host = u.hostname := congrArg Spec.host shape
  constructor
  · intro usable
    refine ⟨?_, host ▸ usable.host, (port_le_iff parsed).mp usable.highest⟩
    rw [← scheme]
    exact isSome_resolveWithSpec.mp usable.supported
  · intro names
    refine ⟨isSome_resolveWithSpec.mpr ?_, host ▸ names.host, Nat.pos_of_ne_zero nonzero,
      (port_le_iff parsed).mpr names.port⟩
    rw [scheme]
    exact names.scheme

/-- An accepted text can be used exactly where its URL names a resolver. -/
theorem usable_parseURL_iff (accepted : parseURL r raw = .ok s) :
    Usable s ↔ ∃ u, r.parse (withScheme raw) = some u ∧ NamesResolver u := by
  rcases parseURL_eq_ok_iff.mp accepted with ⟨u, isURL, isSpec⟩
  rw [usable_specOf_iff isSpec]
  constructor
  · exact fun names => ⟨u, isURL, names⟩
  · rintro ⟨v, isOther, names⟩
    rw [isURL] at isOther
    cases isOther
    exact names

theorem usable_parseURL_iff_quad9 :
    ∃ s, parseURL standardRules (utf8 "tls://dns.quad9.net:8853") = .ok s ∧
      (Usable s ↔ ∃ u,
        standardRules.parse (withScheme (utf8 "tls://dns.quad9.net:8853")) = some u ∧
          NamesResolver u) := by
  have accepted : parseURL standardRules (utf8 "tls://dns.quad9.net:8853") =
      .ok ⟨tls, utf8 "dns.quad9.net", 8853, [], []⟩ := by
    decide +kernel
  exact ⟨_, accepted, usable_parseURL_iff accepted⟩

/-- A scheme that is not known is only refused where the port is to be defaulted. -/
theorem unknown_scheme_is_accepted : ¬∀ raw s, parseURL standardRules raw = .ok s → Usable s := by
  intro usable
  have accepted : parseURL standardRules (utf8 "udp://1.1.1.1:53") =
      .ok ⟨utf8 "udp", utf8 "1.1.1.1", 53, [], []⟩ := by
    decide +kernel
  have unsupported : resolveWithSpec ⟨utf8 "udp", utf8 "1.1.1.1", 53, [], []⟩ = none := by decide
  have supported := (usable _ _ accepted).supported
  rw [unsupported] at supported
  contradiction

end Kiyomi.Dns
