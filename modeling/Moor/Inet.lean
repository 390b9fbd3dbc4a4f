import Moor.Crypto
import Moor.Lib.Mask
import Moor.Lib.Text

/-!
# Internet addresses and their texts

IPv4 addresses are words in host byte order and IPv6 addresses are sixteen bytes in network byte
order, as the relay keeps them. The address functions of the C library are parameters, with what
their documentation says of the texts they read.
-/

open Codec Text List

namespace Moor

/-- An IPv4 address in host byte order. -/
abbrev Ipv4 := BitVec 32

/-- An IPv6 address in network byte order. -/
abbrev Ipv6 := Field 16

/-- An address of either family. -/
inductive IpAddr
  | v4 (ip : Ipv4)
  | v6 (ip6 : Ipv6)
  deriving DecidableEq

/-- The first `n` bits of an address are those of an IPv4 address. -/
abbrev Ipv4.InPrefix (ip base : Ipv4) (n : ℕ) : Prop := Mask.Agree n ip base

/-- The first `n` bits of an address are those of an IPv6 address. -/
abbrev Ipv6.InPrefix (ip6 base : Ipv6) (n : ℕ) : Prop := Mask.AgreeBytes n ip6.val base.val

/-- The prefix of the whole length holds one address. -/
theorem Ipv6.inPrefix_full (ip6 base : Ipv6) : ip6.InPrefix base 128 ↔ ip6 = base := by
  rw [Subtype.ext_iff]
  exact Mask.agreeBytes_full ip6.2 base.2

def Ipv4.ofBytes (a b c d : UInt8) : Ipv4 :=
  a.toBitVec ++ b.toBitVec ++ c.toBitVec ++ d.toBitVec

/-- An address that starts with some bytes and ends with others, zero in between. -/
def Ipv6.ofEnds (front back : Bytes) : Ipv6 :=
  Arr.ofList 16 0 (front ++ replicate (16 - front.length - back.length) 0 ++ back)

def dottedQuad (a b c d : UInt8) : Bytes :=
  decimal a.toNat ++ 46 :: (decimal b.toNat ++ 46 ::
    (decimal c.toNat ++ 46 :: decimal d.toNat))

def isHexDigit (c : UInt8) : Bool := isDigit c || (65 ≤ c && c ≤ 70) || (97 ≤ c && c ≤ 102)

/-- The address functions of the C library, as documented: the characters and the length of the
texts they read, that a dotted quad is read as its four bytes, and that `getaddrinfo` reads the
numeric texts alike. -/
structure Inet where
  /-- `inet_pton` for `AF_INET`. -/
  inetPton4 : Bytes → Option Ipv4
  /-- `inet_pton` for `AF_INET6`. -/
  inetPton6 : Bytes → Option Ipv6
  /-- The first address that `getaddrinfo` returns. -/
  getaddrinfo : Bytes → Option IpAddr
  char_pton4 : ∀ {s ip}, inetPton4 s = some ip → ∀ c ∈ s, isDigit c = true ∨ c = 46
  length_pton4 : ∀ {s ip}, inetPton4 s = some ip → s.length ≤ 15
  char_pton6 : ∀ {s ip}, inetPton6 s = some ip → ∀ c ∈ s, isHexDigit c = true ∨ c = 58 ∨ c = 46
  colon_pton6 : ∀ {s ip}, inetPton6 s = some ip → 58 ∈ s
  length_pton6 : ∀ {s ip}, inetPton6 s = some ip → s.length ≤ 45
  pton4_dottedQuad : ∀ a b c d, inetPton4 (dottedQuad a b c d) = some (Ipv4.ofBytes a b c d)
  getaddrinfo_pton4 : ∀ {s ip addr}, inetPton4 s = some ip → getaddrinfo s = some addr →
    addr = .v4 ip
  getaddrinfo_pton6 : ∀ {s ip addr}, inetPton6 s = some ip → getaddrinfo s = some addr →
    addr = .v6 ip

namespace Inet

variable (I : Inet)

/-- The address that a numeric text denotes. -/
def denotes (s : Bytes) : Option IpAddr :=
  ((I.inetPton4 s).map IpAddr.v4).or ((I.inetPton6 s).map IpAddr.v6)

variable {s : Bytes} {ip6 : Ipv6}

theorem pton4_of_colon (h : 58 ∈ s) : I.inetPton4 s = none := by
  cases hs : I.inetPton4 s with
  | none => rfl
  | some ip =>
    have hc := I.char_pton4 hs 58 h
    exact absurd hc (by decide)

theorem pton6_of_no_colon (h : 58 ∉ s) : I.inetPton6 s = none := by
  cases hs : I.inetPton6 s with
  | none => rfl
  | some ip => exact absurd (I.colon_pton6 hs) h

theorem denotes_of_pton6 (h : I.inetPton6 s = some ip6) : I.denotes s = some (.v6 ip6) := by
  rw [denotes, h, I.pton4_of_colon (I.colon_pton6 h)]
  rfl

/-! ### Stand-ins -/

/-- The numbers at the start of a text and after each of its first three dots. -/
def readQuad (s : Bytes) : UInt8 × UInt8 × UInt8 × UInt8 :=
  let a := readDigits s 0
  let b := readDigits a.2.tail 0
  let c := readDigits b.2.tail 0
  let d := readDigits c.2.tail 0
  (UInt8.ofNat a.1, UInt8.ofNat b.1, UInt8.ofNat c.1, UInt8.ofNat d.1)

theorem readDigits_decimal_dot (n : ℕ) (s : Bytes) :
    readDigits (decimal n ++ 46 :: s) 0 = (n, 46 :: s) := by
  have hstop : ∀ c ∈ (46 :: s).head?, isDigit c = false := by
    intro c hc
    cases hc
    decide
  simp [readDigits_decimal_append, readDigits_stop hstop]

theorem readQuad_dottedQuad (a b c d : UInt8) : readQuad (dottedQuad a b c d) = (a, b, c, d) := by
  have hlast : readDigits (decimal d.toNat) 0 = (d.toNat, []) := by
    have h := readDigits_decimal_append d.toNat [] 0
    rwa [append_nil, Nat.mul_zero, Nat.zero_add] at h
  simp only [readQuad, dottedQuad, readDigits_decimal_dot, tail_cons, hlast, UInt8.ofNat_toNat]

theorem char_dottedQuad (a b c d : UInt8) :
    ∀ x ∈ dottedQuad a b c d, isDigit x = true ∨ x = 46 := by
  intro x hx
  simp only [dottedQuad, mem_append, mem_cons] at hx
  rcases hx with hx | hx | hx | hx | hx | hx | hx
  all_goals first
    | exact .inr hx
    | exact .inl (decimal_isDigit _ x hx)

theorem length_dottedQuad_le (a b c d : UInt8) : (dottedQuad a b c d).length ≤ 15 := by
  have hlen : ∀ x : UInt8, (decimal x.toNat).length ≤ 3 := fun x =>
    length_decimal_le (by decide) (Nat.lt_trans x.toNat_lt (by decide))
  have ha := hlen a
  have hb := hlen b
  have hc := hlen c
  have hd := hlen d
  simp only [dottedQuad, length_append, length_cons]
  omega

/-- Reads exactly the dotted quads. -/
def samplePton4 (s : Bytes) : Option Ipv4 :=
  let q := readQuad s
  if dottedQuad q.1 q.2.1 q.2.2.1 q.2.2.2 = s then
    some (Ipv4.ofBytes q.1 q.2.1 q.2.2.1 q.2.2.2)
  else none

theorem dottedQuad_of_samplePton4 {ip : Ipv4} (h : samplePton4 s = some ip) :
    ∃ a b c d, dottedQuad a b c d = s := by
  rw [samplePton4, Option.ite_none_right_eq_some] at h
  exact ⟨_, _, _, _, h.1⟩

/-- A few IPv6 texts with what they denote. -/
def sampleTexts : List (Bytes × Ipv6) :=
  [(ascii "::", Ipv6.ofEnds [] []), (ascii "::1", Ipv6.ofEnds [] [1]),
   (ascii "fc00::", Ipv6.ofEnds [0xfc] []), (ascii "fd00::1", Ipv6.ofEnds [0xfd] [1]),
   (ascii "fe80::", Ipv6.ofEnds [0xfe, 0x80] []),
   (ascii "::ffff:0:0", Ipv6.ofEnds [] [0xff, 0xff, 0, 0, 0, 0])]

def samplePton6 (s : Bytes) : Option Ipv6 := (sampleTexts.find? (·.1 = s)).map Prod.snd

theorem mem_of_samplePton6 (h : samplePton6 s = some ip6) : (s, ip6) ∈ sampleTexts := by
  obtain ⟨p, hp, rfl⟩ := Option.map_eq_some_iff.mp h
  have hs := find?_some hp
  rw [← of_decide_eq_true hs]
  exact mem_of_find?_eq_some hp

theorem colon_of_samplePton6 (h : samplePton6 s = some ip6) : 58 ∈ s := by
  have hall : ∀ p ∈ sampleTexts, 58 ∈ p.1 := by decide
  exact hall _ (mem_of_samplePton6 h)

/-- Stand-ins that read the dotted quads and a few IPv6 texts. -/
def sample : Inet where
  inetPton4 := samplePton4
  inetPton6 := samplePton6
  getaddrinfo s := ((samplePton6 s).map IpAddr.v6).or ((samplePton4 s).map IpAddr.v4)
  char_pton4 h := by
    obtain ⟨a, b, c, d, rfl⟩ := dottedQuad_of_samplePton4 h
    exact char_dottedQuad a b c d
  length_pton4 h := by
    obtain ⟨a, b, c, d, rfl⟩ := dottedQuad_of_samplePton4 h
    exact length_dottedQuad_le a b c d
  char_pton6 h := by
    have hall : ∀ p ∈ sampleTexts, ∀ c ∈ p.1, isHexDigit c = true ∨ c = 58 ∨ c = 46 := by decide
    exact hall _ (mem_of_samplePton6 h)
  colon_pton6 := colon_of_samplePton6
  length_pton6 h := by
    have hall : ∀ p ∈ sampleTexts, p.1.length ≤ 45 := by decide
    exact hall _ (mem_of_samplePton6 h)
  pton4_dottedQuad a b c d := by
    rw [samplePton4, readQuad_dottedQuad]
    exact if_pos rfl
  getaddrinfo_pton4 {s ip addr} h4 hget := by
    cases h6 : samplePton6 s with
    | none =>
      rw [h6, h4] at hget
      exact (Option.some.inj hget).symm
    | some ip6 =>
      obtain ⟨a, b, c, d, rfl⟩ := dottedQuad_of_samplePton4 h4
      exact absurd (char_dottedQuad a b c d 58 (colon_of_samplePton6 h6)) (by decide)
  getaddrinfo_pton6 h6 hget := by
    rw [h6] at hget
    exact (Option.some.inj hget).symm

end Inet

end Moor
