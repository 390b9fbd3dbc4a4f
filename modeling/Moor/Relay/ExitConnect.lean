import Moor.Config.ExitPolicy
import Moor.Lib.Run
import Moor.Relay.Dns

/-!
# Where an exit connects to

A client names a destination in a RELAY_BEGIN. The exit refuses private addresses and names of
internal hosts, resolves the other names, refuses private addresses again among what they resolve
to, asks its policy and opens a connection. Local addresses are told apart by prefixes, in IPv4,
in IPv6 and where IPv6 embeds IPv4; the tests of the code cover all of them but the unspecified
IPv6 address.

## Main results

* `privateIpv6_of_local`: every local IPv6 address but `::` is private for the code.
* `exit_connects_to_public`: the addresses an exit opens connections to.
-/

open Codec Option

namespace Moor

open Ipv6

/-! ### Private addresses -/

/-- The private IPv4 ranges: how far an address is shifted, and what is then left of it. -/
def ipv4PrivateRanges : List (ℕ × Ipv4) :=
  [(24, 127), (24, 10), (20, (172 <<< 4) ||| 1), (16, (192 <<< 8) ||| 168),
   (16, (169 <<< 8) ||| 254), (24, 0), (22, (100 <<< 2) ||| 1), (28, 14), (28, 15)]

def privateIpv4 (ip : Ipv4) : Bool := ipv4PrivateRanges.any fun r => ip >>> r.1 = r.2

namespace Ipv6

def byte (ip6 : Ipv6) (i : ℕ) : UInt8 := ip6.val.getD i 0

/-- The last four bytes of an address as an IPv4 address. -/
def inner (ip6 : Ipv6) : Ipv4 :=
  Ipv4.ofBytes (ip6.byte 12) (ip6.byte 13) (ip6.byte 14) (ip6.byte 15)

/-- `IN6_IS_ADDR_V4MAPPED`. -/
def isV4Mapped (ip6 : Ipv6) : Bool := ip6.val.take 12 = List.replicate 10 0 ++ [0xff, 0xff]

/-- `IN6_IS_ADDR_V4COMPAT`: `::` and `::1` are left out. -/
def isV4Compat (ip6 : Ipv6) : Bool :=
  decide (ip6.val.take 12 = List.replicate 12 0) && decide (1 < ip6.inner.toNat)

end Ipv6

def privateIpv6 (ip6 : Ipv6) : Bool :=
  -- ::1/128, fe80::/10 and fc00::/7
  decide (ip6 = ofEnds [] [1]) ||
  (decide (ip6.byte 0 = 0xfe) && decide (ip6.byte 1 &&& 0xc0 = 0x80)) ||
  decide (ip6.byte 0 &&& 0xfe = 0xfc) ||
  -- the embeddings of IPv4
  (ip6.isV4Mapped && privateIpv4 ip6.inner) ||
  ip6.isV4Compat ||
  (decide (ip6.byte 0 = 0x20) && decide (ip6.byte 1 = 0x02)) ||
  (decide (ip6.byte 0 = 0x20) && decide (ip6.byte 1 = 0x01) && decide (ip6.byte 2 = 0x00) &&
    decide (ip6.byte 3 = 0x00)) ||
  (decide (ip6.byte 0 = 0x00) && decide (ip6.byte 1 = 0x64) && decide (ip6.byte 2 = 0xff) &&
    decide (ip6.byte 3 = 0x9b))

def isPrivateAddress (I : Inet) (addr : Bytes) : Bool :=
  (I.inetPton4 addr).any privateIpv4 || (I.inetPton6 addr).any privateIpv6 ||
    decide (addr = ascii "localhost")

/-! ### Local addresses -/

/-- The unspecified, loopback, link-local and private IPv4 addresses. -/
def Ipv4.localPrefixes : List (Ipv4 × ℕ) :=
  [(Ipv4.ofBytes 0 0 0 0, 8), (Ipv4.ofBytes 127 0 0 0, 8), (Ipv4.ofBytes 169 254 0 0, 16),
   (Ipv4.ofBytes 10 0 0 0, 8), (Ipv4.ofBytes 172 16 0 0, 12), (Ipv4.ofBytes 192 168 0 0, 16)]

def Ipv4.Local (ip : Ipv4) : Prop := ∃ p ∈ Ipv4.localPrefixes, ip.InPrefix p.1 p.2

/-- The IPv6 addresses that embed an IPv4 address. -/
inductive Embeds : Ipv6 → Ipv4 → Prop
  | mapped (a b c d : UInt8) :
      Embeds (ofEnds [] [0xff, 0xff, a, b, c, d]) (Ipv4.ofBytes a b c d)
  | compatible (a b c d : UInt8) : Embeds (ofEnds [] [a, b, c, d]) (Ipv4.ofBytes a b c d)
  | sixToFour (a b c d : UInt8) (rest : Field 10) :
      Embeds ⟨0x20 :: 0x02 :: a :: b :: c :: d :: rest.val, by simp⟩ (Ipv4.ofBytes a b c d)
  | nat64 (a b c d : UInt8) :
      Embeds (ofEnds [0x00, 0x64, 0xff, 0x9b] [a, b, c, d]) (Ipv4.ofBytes a b c d)
  | teredo (a b c d : UInt8) (rest : Field 8) :
      Embeds ⟨0x20 :: 0x01 :: 0 :: 0 :: (rest.val ++ [~~~a, ~~~b, ~~~c, ~~~d]), by simp⟩
        (Ipv4.ofBytes a b c d)

def Ipv6.unspecified : Ipv6 := Field.zero 16

/-- The unspecified, loopback, link-local and private IPv6 addresses, and those that embed a local
IPv4 address. -/
def Ipv6.Local (ip6 : Ipv6) : Prop :=
  ip6 = unspecified ∨ ip6 = ofEnds [] [1] ∨
    ip6.InPrefix (ofEnds [0xfe, 0x80] []) 10 ∨ ip6.InPrefix (ofEnds [0xfc] []) 7 ∨
    ∃ ip, Embeds ip6 ip ∧ ip.Local

def IpAddr.Local : IpAddr → Prop
  | .v4 ip => ip.Local
  | .v6 ip6 => ip6.Local

variable {ip : Ipv4} {ip6 : Ipv6} {I : Inet} {text : Bytes}

theorem privateIpv4_of_local (h : ip.Local) : privateIpv4 ip = true := by
  have hranges : ∀ p ∈ Ipv4.localPrefixes, (32 - p.2, p.1 >>> (32 - p.2)) ∈ ipv4PrivateRanges := by
    decide
  obtain ⟨p, hp, hagree⟩ := h
  exact List.any_eq_true.mpr ⟨_, hranges p hp, decide_eq_true hagree.ushiftRight_eq⟩

/-- The bits that an address shares with a prefix, byte by byte. -/
theorem Ipv6.InPrefix.byte_and {base : Ipv6} {n k : ℕ} (h : ip6.InPrefix base n) (hn : n ≤ 128)
    (hk : k < 16) :
    (ip6.byte k).toBitVec &&& Mask.firstBits 8 (min 8 (n - 8 * k))
      = (base.byte k).toBitVec &&& Mask.firstBits 8 (min 8 (n - 8 * k)) := by
  rw [Mask.and_firstBits_eq_iff (Nat.min_le_left 8 _)]
  exact (Mask.agreeBytes_iff (by omega : n ≤ 8 * 16) _ _).mp h k hk

theorem privateIpv6_of_linkLocal (h : ip6.InPrefix (ofEnds [0xfe, 0x80] []) 10) :
    privateIpv6 ip6 = true := by
  have hfirst : ip6.byte 0 = 0xfe := by
    have h0 := h.byte_and (by decide) (by decide : 0 < 16)
    rw [show Mask.firstBits 8 (min 8 (10 - 8 * 0)) = BitVec.allOnes 8 from rfl,
      BitVec.and_allOnes, BitVec.and_allOnes] at h0
    exact UInt8.toBitVec_inj.mp h0
  have hsecond : ip6.byte 1 &&& 0xc0 = 0x80 :=
    UInt8.toBitVec_inj.mp (h.byte_and (by decide) (by decide : 1 < 16))
  simp [privateIpv6, hfirst, hsecond]

theorem privateIpv6_of_uniqueLocal (h : ip6.InPrefix (ofEnds [0xfc] []) 7) :
    privateIpv6 ip6 = true := by
  have hfirst : ip6.byte 0 &&& 0xfe = 0xfc :=
    UInt8.toBitVec_inj.mp (h.byte_and (by decide) (by decide : 0 < 16))
  simp [privateIpv6, hfirst]

theorem toNat_append_byte {w : ℕ} (x : BitVec w) (b : UInt8) :
    (x ++ b.toBitVec).toNat = x.toNat * 256 + b.toNat := by
  rw [BitVec.toNat_append, ← Nat.shiftLeft_add_eq_or_of_lt b.toBitVec.isLt, Nat.shiftLeft_eq]
  rfl

/-- An IPv4 address is above one unless all of it but the last bit is zero. -/
theorem Ipv4.one_lt_or (a b c d : UInt8) :
    1 < (Ipv4.ofBytes a b c d).toNat ∨ (a = 0 ∧ b = 0 ∧ c = 0 ∧ (d = 0 ∨ d = 1)) := by
  have hval : (Ipv4.ofBytes a b c d).toNat
      = ((a.toNat * 256 + b.toNat) * 256 + c.toNat) * 256 + d.toNat := by
    rw [Ipv4.ofBytes, toNat_append_byte, toNat_append_byte, toNat_append_byte]
    rfl
  simp only [← UInt8.toNat_inj, UInt8.toNat_zero, UInt8.toNat_one]
  omega

/-- The embedding of a private IPv4 address is private, but for `::`. -/
theorem privateIpv6_of_embeds (hembeds : Embeds ip6 ip) (hip : privateIpv4 ip = true)
    (hne : ip6 ≠ unspecified) : privateIpv6 ip6 = true := by
  cases hembeds with
  | mapped a b c d =>
    have hmapped : (ofEnds [] [0xff, 0xff, a, b, c, d]).isV4Mapped = true := rfl
    have hinner : (ofEnds [] [0xff, 0xff, a, b, c, d]).inner = Ipv4.ofBytes a b c d := rfl
    simp [privateIpv6, hmapped, hinner, hip]
  | compatible a b c d =>
    have hinner : (ofEnds [] [a, b, c, d]).inner = Ipv4.ofBytes a b c d := rfl
    have htake : (ofEnds [] [a, b, c, d]).val.take 12 = List.replicate 12 0 := rfl
    rcases Ipv4.one_lt_or a b c d with hlt | ⟨rfl, rfl, rfl, rfl | rfl⟩
    · simp [privateIpv6, isV4Compat, hinner, htake, hlt]
    · exact absurd rfl hne
    · decide
  | sixToFour a b c d rest => simp [privateIpv6, byte]
  | nat64 a b c d => simp [privateIpv6, byte, ofEnds, Arr.ofList]
  | teredo a b c d rest => simp [privateIpv6, byte]

theorem privateIpv6_of_local (h : ip6.Local) (hne : ip6 ≠ unspecified) :
    privateIpv6 ip6 = true := by
  rcases h with h | h | h | h | ⟨ip, hembeds, hlocal⟩
  · exact absurd h hne
  · rw [h]
    decide
  · exact privateIpv6_of_linkLocal h
  · exact privateIpv6_of_uniqueLocal h
  · exact privateIpv6_of_embeds hembeds (privateIpv4_of_local hlocal) hne

/-- A text that is read as an IPv4 address is private when the address is. -/
theorem isPrivateAddress_pton4 (h : I.inetPton4 text = some ip) :
    isPrivateAddress I text = privateIpv4 ip := by
  have h6 : I.inetPton6 text = none := I.pton6_of_no_colon (notMem_pton4 h (by decide))
  have hhost : text ≠ ascii "localhost" := by
    rintro rfl
    exact notMem_pton4 h (by decide : ¬(Text.isDigit 108 = true ∨ (108 : UInt8) = 46)) (by decide)
  rw [isPrivateAddress, h, h6, decide_eq_false hhost, any_some, any_none,
    Bool.or_false, Bool.or_false]

/-- A text that is read as an IPv6 address is private when the address is. -/
theorem isPrivateAddress_pton6 (h : I.inetPton6 text = some ip6) :
    isPrivateAddress I text = privateIpv6 ip6 := by
  have h4 : I.inetPton4 text = none := I.pton4_of_colon (I.colon_pton6 h)
  have hhost : text ≠ ascii "localhost" := by
    rintro rfl
    exact absurd (I.colon_pton6 h) (by decide)
  rw [isPrivateAddress, h, h4, decide_eq_false hhost, any_some, any_none,
    Bool.false_or, Bool.or_false]

/-- A text that denotes a local address is private, but for the texts of `::`. -/
theorem isPrivateAddress_of_local {addr : IpAddr} (hdenotes : I.denotes text = some addr)
    (hlocal : addr.Local) (hne : addr ≠ .v6 unspecified) : isPrivateAddress I text = true := by
  cases h4 : I.inetPton4 text with
  | some ip =>
    rw [Inet.denotes, h4] at hdenotes
    cases hdenotes
    rw [isPrivateAddress_pton4 h4, privateIpv4_of_local hlocal]
  | none =>
    rw [Inet.denotes, h4, map_none, none_or] at hdenotes
    obtain ⟨ip6, h6, rfl⟩ := map_eq_some_iff.mp hdenotes
    rw [isPrivateAddress_pton6 h6]
    exact privateIpv6_of_local hlocal fun heq => hne (congrArg IpAddr.v6 heq)

/-! ### From a BEGIN to a connection -/

/-- A stream of an exit circuit; a free slot has the identifier zero. -/
structure TargetStream where
  streamId : UInt16
  targetAddr : Bytes
  targetPort : UInt16
  connected : Bool

/-- What a call of `connect` on a socket that does not block comes to. -/
inductive ConnectResult
  | failed
  | inProgress
  | done

/-- What the world contributes: the time, the identifier of the query, what the providers answer,
whether a socket can be made, what comes of the connection, and whether there is room for one more.
-/
structure ExitWorld where
  now : ℕ
  queryId : UInt16
  responses : List (Option Bytes)
  socketOk : Bool
  connect : ConnectResult
  room : Bool

/-- An exit: its cache, its policy, the streams of each circuit, and the addresses and ports it
has called `connect` for. -/
structure ExitHost where
  cache : DnsCache
  exitPolicy : List ExitPolicyRule
  streams : ℕ → List TargetStream
  opened : List (IpAddr × UInt16)

namespace ExitHost

variable (I : Inet)

variable (world : ExitWorld) (circ : ℕ) (streamId : UInt16) (data addr : Bytes)

/-- The address to connect to, with its text; the cache takes part. -/
def resolveTarget (cache : DnsCache) : DnsCache × Option (IpAddr × Bytes) :=
  if (I.inetPton4 addr).isSome ∨ (I.inetPton6 addr).isSome then
    (cache, (I.getaddrinfo addr).map fun res => (res, addr.take 63))
  else
    match cache.lookup world.now addr with
    | (cache, some resolvedIp) =>
      (cache, (I.getaddrinfo resolvedIp).map fun res => (res, resolvedIp))
    | (cache, none) =>
      match resolveDnsEncrypted world.queryId world.responses addr with
      | none => (cache, none)
      | some resolvedIp =>
        match I.getaddrinfo resolvedIp with
        | none => (cache, none)
        | some res =>
          (cache.insert I world.now addr resolvedIp moorDnsTtlDefault, some (res, resolvedIp))

/-- The new stream takes the first free slot, if there is one. -/
def takeSlot (stream : TargetStream) (streams : List TargetStream) : List TargetStream :=
  streams.replaceF fun slot => if slot.streamId = 0 then some stream else none

/-- Opens the connection for a stream. A failed check leaves the exit as it is, but for the
cache. -/
def moorRelayExitConnect (port : UInt16) (s : ExitHost) : ExitHost :=
  if streamId = 0 ∨ (s.streams circ).any (fun stream => stream.streamId = streamId) then s
  else
    match resolveTarget I world addr s.cache with
    | (cache, none) => { s with cache := cache }
    | (cache, some (res, resolvedIp)) =>
      let s := { s with cache := cache }
      if isPrivateAddress I resolvedIp then s
      else if s.exitPolicy ≠ [] ∧ ¬moorExitPolicyAllows I s.exitPolicy (some resolvedIp) port then s
      else if !world.socketOk then s
      else
        let s := { s with opened := s.opened ++ [(res, port)] }
        match world.connect with
        | .failed => s
        | result =>
          if !world.room then s
          else
            { s with streams := Function.update s.streams circ (takeSlot
                ⟨streamId, addr, port, match result with | .done => true | _ => false⟩
                (s.streams circ)) }

/-- The endings of the names of internal hosts. -/
def badSuffixes : List Bytes :=
  [ascii ".local", ascii ".internal", ascii ".lan", ascii ".corp", ascii ".home",
   ascii ".localdomain"]

def hasBadSuffix (addr : Bytes) : Bool :=
  badSuffixes.any fun suffix =>
    decide (suffix.length ≤ addr.length) &&
      decide ((addr.drop (addr.length - suffix.length)).map Text.tolower = suffix)

/-- A RELAY_BEGIN: the address and the port are cut at the last colon of the string. -/
def relayBegin (s : ExitHost) : ExitHost :=
  if 256 ≤ data.length then s
  else
    match Text.splitLast 58 (data.takeWhile (· ≠ 0)) with
    | none => s
    | some (addr, portStr) =>
      match parsePort portStr with
      | none => s
      | some port =>
        if isPrivateAddress I addr then s
        else if 46 ∉ addr ∧ 58 ∉ addr then s
        else if hasBadSuffix addr then s
        else moorRelayExitConnect I world circ streamId addr port s

/-- A RELAY_RESOLVE, which shares the cache. -/
def relayResolve (s : ExitHost) : ExitHost :=
  if data.length < 1 ∨ 253 < data.length then s
  else
    let hostname := data.takeWhile (· ≠ 0)
    if isPrivateAddress I hostname then s
    else
      match s.cache.lookup world.now hostname with
      | (cache, some _) => { s with cache := cache }
      | (cache, none) =>
        match resolveDnsEncrypted world.queryId world.responses hostname with
        | none => { s with cache := cache }
        | some resolvedIp => { s with cache := cache.insert I world.now hostname resolvedIp 300 }

/-- What happens at an exit: a cell that names a destination or a name to resolve, and the end of
a stream. -/
inductive Event
  | begin (world : ExitWorld) (circ : ℕ) (streamId : UInt16) (data : Bytes)
  | resolve (world : ExitWorld) (data : Bytes)
  | close (circ : ℕ) (streamId : UInt16)

def step (s : ExitHost) : Event → Option ExitHost
  | .begin world circ streamId data => some (s.relayBegin I world circ streamId data)
  | .resolve world data => some (s.relayResolve I world data)
  | .close circ streamId =>
    some { s with streams := Function.update s.streams circ ((s.streams circ).map fun stream =>
      if stream.streamId = streamId then { stream with streamId := 0 } else stream) }

/-- An exit that was just started. -/
def start (exitPolicy : List ExitPolicyRule) : ExitHost :=
  ⟨DnsCache.init, exitPolicy, fun _ => List.replicate 64 ⟨0, [], 0, false⟩, []⟩

/-- A BEGIN names the unspecified IPv6 address. -/
def namesUnspecified (data : Bytes) : Bool :=
  (Text.splitLast 58 (data.takeWhile (· ≠ 0))).any fun p =>
    I.inetPton6 p.1 = some unspecified

/-- The condition on an event: a BEGIN does not name `::`. -/
def namesOther : Event → Bool
  | .begin _ _ _ data => !namesUnspecified I data
  | _ => true

/-! ### Connections go to public addresses -/

variable {I}

/-- The text that goes with a target denotes it, and a target in IPv6 was named by the client. -/
def Denoted (I : Inet) (addr : Bytes) (target : IpAddr × Bytes) : Prop :=
  I.denotes target.2 = some target.1 ∧
    ∀ ip6, target.1 = .v6 ip6 → I.inetPton6 addr = some ip6

variable {addr : Bytes} {res : IpAddr} {s : ExitHost}

theorem denoted_of_pton4 (hip : I.inetPton4 text = some ip)
    (hget : I.getaddrinfo text = some res) : Denoted I addr (res, text) := by
  have hres := I.getaddrinfo_pton4 hip hget
  refine ⟨by rw [hres, Inet.denotes, hip]; rfl, ?_⟩
  intro ip6 hip6
  cases hres.symm.trans hip6

/-- An address that the client wrote down is its own text. -/
theorem denoted_of_literal (h : (I.inetPton4 addr).isSome ∨ (I.inetPton6 addr).isSome)
    (hget : I.getaddrinfo addr = some res) : Denoted I addr (res, addr.take 63) := by
  cases h4 : I.inetPton4 addr with
  | some ip =>
    rw [DnsCache.take_of_pton4 h4]
    exact denoted_of_pton4 h4 hget
  | none =>
    have h6 : (I.inetPton6 addr).isSome := h.resolve_left (by rw [h4]; exact Bool.false_ne_true)
    obtain ⟨ip6, h6⟩ := isSome_iff_exists.mp h6
    have htake : addr.take 63 = addr :=
      List.take_of_length_le (Nat.le_trans (I.length_pton6 h6) (by decide))
    have hres := I.getaddrinfo_pton6 h6 hget
    rw [Denoted, htake, hres]
    refine ⟨I.denotes_of_pton6 h6, ?_⟩
    intro ip6' heq
    rw [← IpAddr.v6.inj heq]
    exact h6

theorem resolveTarget_spec {cache : DnsCache} (h : cache.Numeric I) (world : ExitWorld)
    (addr : Bytes) :
    (resolveTarget I world addr cache).1.Numeric I ∧
      ∀ target, (resolveTarget I world addr cache).2 = some target → Denoted I addr target := by
  rw [resolveTarget]
  split
  · rename_i hliteral
    refine ⟨h, ?_⟩
    intro target htarget
    obtain ⟨res, hget, rfl⟩ := map_eq_some_iff.mp htarget
    exact denoted_of_literal hliteral hget
  have hlookup := h.lookup world.now addr
  have hfound (text : Bytes) : (cache.lookup world.now addr).2 = some text →
      ∃ ip, I.inetPton4 text = some ip := h.pton4_of_lookup
  split
  · rename_i cache' text heq
    rw [heq] at hlookup hfound
    obtain ⟨ip, hip⟩ := hfound text rfl
    refine ⟨hlookup, ?_⟩
    intro target htarget
    obtain ⟨res, hget, rfl⟩ := map_eq_some_iff.mp htarget
    exact denoted_of_pton4 hip hget
  rename_i cache' heq
  rw [heq] at hlookup
  split
  · exact ⟨hlookup, fun target htarget => nomatch htarget⟩
  rename_i text hresolve
  obtain ⟨a, b, c, d, rfl⟩ := dottedQuad_of_resolve hresolve
  have hip := I.pton4_dottedQuad a b c d
  split
  · exact ⟨hlookup, fun target htarget => nomatch htarget⟩
  rename_i res hget
  refine ⟨hlookup.insert world.now addr hip moorDnsTtlDefault, ?_⟩
  intro target htarget
  rw [← some.inj htarget]
  exact denoted_of_pton4 hip hget

/-- The cache holds IPv4 addresses, and no connection went to a local address. -/
structure Public (I : Inet) (s : ExitHost) : Prop where
  numeric : s.cache.Numeric I
  opened : ∀ c ∈ s.opened, ¬c.1.Local

theorem Public.exitConnect (h : s.Public I) (world : ExitWorld) (circ : ℕ) (streamId : UInt16)
    (haddr : I.inetPton6 addr ≠ some unspecified) (port : UInt16) :
    (s.moorRelayExitConnect I world circ streamId addr port).Public I := by
  have hspec := resolveTarget_spec h.numeric world addr
  rw [moorRelayExitConnect]
  split
  · exact h
  split
  · rename_i cache heq
    rw [heq] at hspec
    exact ⟨hspec.1, h.opened⟩
  rename_i cache res text heq
  rw [heq] at hspec
  have hdenoted := hspec.2 (res, text) rfl
  have hkeep : ({ s with cache := cache } : ExitHost).Public I := ⟨hspec.1, h.opened⟩
  -- Only what has passed the test of the resolved text is connected to.
  have hopen : isPrivateAddress I text ≠ true →
      ∀ c ∈ s.opened ++ [(res, port)], ¬c.1.Local := by
    intro hpublic c hc hlocal
    rcases List.mem_append.mp hc with hc | hc
    · exact h.opened c hc hlocal
    rw [List.mem_singleton.mp hc] at hlocal
    refine hpublic (isPrivateAddress_of_local hdenoted.1 hlocal ?_)
    intro hun
    exact haddr (hdenoted.2 _ hun)
  dsimp only
  split_ifs with hprivate hpolicy hsocket hroom
  · exact hkeep
  · exact hkeep
  · exact hkeep
  · split <;> exact ⟨hspec.1, hopen hprivate⟩
  · split <;> exact ⟨hspec.1, hopen hprivate⟩

theorem Public.relayBegin (h : s.Public I) (world : ExitWorld) (circ : ℕ) (streamId : UInt16)
    {data : Bytes} (hdata : namesUnspecified I data = false) :
    (s.relayBegin I world circ streamId data).Public I := by
  rw [ExitHost.relayBegin]
  split
  · exact h
  split
  · exact h
  rename_i addr portStr hsplit
  split
  · exact h
  split_ifs
  · exact h
  · exact h
  · exact h
  apply h.exitConnect
  intro hun
  rw [namesUnspecified, hsplit, any_some, decide_eq_true hun] at hdata
  cases hdata

theorem Public.relayResolve (h : s.Public I) (world : ExitWorld) (data : Bytes) :
    (s.relayResolve I world data).Public I := by
  have hlookup := h.numeric.lookup world.now (data.takeWhile (· ≠ 0))
  simp only [ExitHost.relayResolve]
  split
  · exact h
  split
  · exact h
  split
  · rename_i cache _ heq
    rw [heq] at hlookup
    exact ⟨hlookup, h.opened⟩
  rename_i cache heq
  rw [heq] at hlookup
  split
  · exact ⟨hlookup, h.opened⟩
  · rename_i text hresolve
    obtain ⟨a, b, c, d, rfl⟩ := dottedQuad_of_resolve hresolve
    exact ⟨hlookup.insert world.now _ (I.pton4_dottedQuad a b c d) 300, h.opened⟩

theorem Public.step {s' : ExitHost} (h : s.Public I) {e : Event} (he : namesOther I e = true)
    (hstep : s.step I e = some s') : s'.Public I := by
  cases e with
  | begin world circ streamId data =>
    rw [← some.inj hstep]
    exact h.relayBegin world circ streamId (Bool.not_eq_eq_eq_not.mp he)
  | resolve world data =>
    rw [← some.inj hstep]
    exact h.relayResolve world data
  | close circ streamId =>
    rw [← some.inj hstep]
    exact { h with }

end ExitHost

/-- Over every run of an exit in which no BEGIN names `::`, whatever names the clients send and
whatever the providers answer, no connection goes to a local address, in IPv4 or IPv6 or embedded.
An IPv4 address that is refused in its plain form is refused in every embedding but `::`. -/
theorem exit_connects_to_public (I : Inet) (exitPolicy : List ExitPolicyRule)
    {events : List ExitHost.Event} {s : ExitHost}
    (hrun : Run.run (ExitHost.step I) (ExitHost.start exitPolicy) events = some s)
    (hnames : Run.Along (ExitHost.step I) (fun _ e => ExitHost.namesOther I e = true)
      (ExitHost.start exitPolicy) events) :
    (∀ c ∈ s.opened, ¬c.1.Local) ∧
    ∀ {text₄ text₆ : Bytes} {ip : Ipv4} {ip6 : Ipv6}, I.inetPton4 text₄ = some ip →
      I.inetPton6 text₆ = some ip6 → Embeds ip6 ip → isPrivateAddress I text₄ = true →
      (isPrivateAddress I text₆ = true ↔ ip6 ≠ unspecified) := by
  refine ⟨?_, ?_⟩
  · have hpublic : s.Public I := by
      refine Run.run_invariant (fun _ _ _ hs he hstep => hs.step he hstep) ?_ hnames hrun
      exact ⟨DnsCache.numeric_init, nofun⟩
    exact hpublic.opened
  intro text₄ text₆ ip ip6 h4 h6 hembeds hprivate
  rw [isPrivateAddress_pton4 h4] at hprivate
  rw [isPrivateAddress_pton6 h6]
  constructor
  · rintro h rfl
    cases h
  · exact privateIpv6_of_embeds hembeds hprivate

/-- The providers answer with the address 93.184.216.34. -/
def sampleDnsAnswer : Bytes :=
  [0, 0, 0x81, 0x80, 0, 1, 0, 1, 0, 0, 0, 0] ++ [1, 97, 1, 98, 0, 0, 1, 0, 1] ++
    [0xc0, 12, 0, 1, 0, 1, 0, 0, 0, 60, 0, 4, 93, 184, 216, 34]

/-- A world in which every connection succeeds. -/
def sampleExitWorld : ExitWorld := ⟨1000, 7, [none, some sampleDnsAnswer], true, .done, true⟩

/-- Clients ask for a name, for a public address and for `127.0.0.1`. -/
def sampleBegins : List ExitHost.Event :=
  [.begin sampleExitWorld 0 1 (ascii "a.b:443"), .begin sampleExitWorld 0 2 (ascii "8.8.8.8:53"),
   .begin sampleExitWorld 1 1 (ascii "127.0.0.1:80"), .close 0 1]

/-- The name and the public address are connected to, and the loopback address is not. -/
theorem exit_connects_to_public_sample :
    ∃ s, Run.run (ExitHost.step Inet.sample) (ExitHost.start []) sampleBegins = some s ∧
      s.opened = [(.v4 (Ipv4.ofBytes 93 184 216 34), 443), (.v4 (Ipv4.ofBytes 8 8 8 8), 53)] ∧
      ∀ c ∈ s.opened, ¬c.1.Local :=
  Run.exists_some_and (by decide +kernel) fun _ hs =>
    (exit_connects_to_public Inet.sample [] hs (by decide +kernel)).1

/-- A client that asks for `:::80` has the exit connect to the unspecified address. -/
theorem exit_connects_to_unspecified :
    (Run.run (ExitHost.step Inet.sample) (ExitHost.start [])
        [.begin sampleExitWorld 0 1 (ascii ":::80")]).map ExitHost.opened
      = some [(.v6 unspecified, 80)] ∧
    (IpAddr.v6 unspecified).Local := by
  refine ⟨by decide +kernel, ?_⟩
  exact .inl rfl

end Moor
