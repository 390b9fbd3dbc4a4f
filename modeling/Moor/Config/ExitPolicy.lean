import Mathlib.Data.List.Forall2
import Moor.Inet

/-!
# The exit policy

Rules are read from texts such as `reject 10.0.0.0/8:*` by a parser that cuts its buffer at the
space, the last colon, the brackets, the slash and the dash, and a destination gets the action of
the first rule that matches it. What the texts mean is stated on their grammar, by prefixes of
addresses; the two agree except where the parser loses the length that follows a bracket.
-/

open Codec List Text

namespace Moor

open Ipv6

def moorMaxExitRules : ℕ := 64

/-- A rule as the parser leaves it. -/
structure ExitPolicyRule where
  action : Bool
  addr : Ipv4
  mask : Ipv4
  addrWildcard : Bool
  portLo : UInt16
  portHi : UInt16
  portWildcard : Bool
  isIpv6 : Bool
  addr6 : Ipv6
  mask6 : Ipv6
  deriving DecidableEq

/-! ### Masks -/

/-- The bytes of a mask, `count` of them, for the bits that are left. -/
def prefixMaskBytes : ℕ → ℕ → Bytes
  | 0, _ => []
  | count + 1, bits =>
    if bits = 0 then 0 :: prefixMaskBytes count 0
    else if 8 ≤ bits then 0xFF :: prefixMaskBytes count (bits - 8)
    else UInt8.ofNat (0xFF <<< (8 - bits)) :: prefixMaskBytes count 0

theorem length_prefixMaskBytes (count bits : ℕ) :
    (prefixMaskBytes count bits).length = count := by
  induction count generalizing bits with
  | zero => rfl
  | succ count ih =>
    rw [prefixMaskBytes]
    split_ifs <;> rw [length_cons, ih]

def ipv6PrefixMask (bits : ℕ) : Ipv6 := ⟨prefixMaskBytes 16 bits, length_prefixMaskBytes 16 bits⟩

/-- An address with the bits outside a mask cleared. -/
def ipv6And (a mask : Ipv6) : Ipv6 :=
  ⟨List.zipWith (· &&& ·) a.val mask.val, by simp⟩

def ipv6MaskedEq (a b mask : Ipv6) : Bool :=
  (List.range 16).all fun i =>
    decide (a.val.getD i 0 &&& mask.val.getD i 0 = b.val.getD i 0 &&& mask.val.getD i 0)

theorem toBitVec_shiftedByte :
    ∀ bits < 8, (UInt8.ofNat (0xFF <<< (8 - bits))).toBitVec = Mask.firstBits 8 bits := by
  decide

/-- The byte of a mask covers the bits that are left for it. -/
theorem toBitVec_prefixMaskBytes {count i : ℕ} (hi : i < count) (bits : ℕ) :
    ((prefixMaskBytes count bits).getD i 0).toBitVec = Mask.firstBits 8 (min 8 (bits - 8 * i)) := by
  induction count generalizing i bits with
  | zero => exact absurd hi (Nat.not_lt_zero i)
  | succ count ih =>
    rw [prefixMaskBytes]
    cases i with
    | zero =>
      rw [Nat.mul_zero, Nat.sub_zero]
      split_ifs with hzero hfull
      · rw [hzero]
        rfl
      · rw [Nat.min_eq_left hfull]
        rfl
      · rw [Nat.min_eq_right (by omega)]
        exact toBitVec_shiftedByte bits (by omega)
    | succ i =>
      have hrest : bits - 8 - 8 * i = bits - 8 * (i + 1) := by omega
      split_ifs with hzero hfull
      · rw [getD_cons_succ, ih (by omega), hzero, Nat.zero_sub, Nat.zero_sub]
      · rw [getD_cons_succ, ih (by omega), hrest]
      · have hnone : bits - 8 * (i + 1) = 0 := by omega
        rw [getD_cons_succ, ih (by omega), hnone, Nat.zero_sub]

/-- Comparing under the mask of a length compares as many leading bits. -/
theorem ipv6MaskedEq_prefixMask {bits : ℕ} (h : bits ≤ 128) (a b : Ipv6) :
    ipv6MaskedEq a (ipv6And b (ipv6PrefixMask bits)) (ipv6PrefixMask bits) = true ↔
      a.InPrefix b bits := by
  rw [ipv6MaskedEq, all_eq_true, InPrefix, Mask.agreeBytes_iff (by omega : bits ≤ 8 * 16)]
  have hbyte : ∀ i < 16,
      (ipv6And b (ipv6PrefixMask bits)).val.getD i 0 &&& (ipv6PrefixMask bits).val.getD i 0
        = b.val.getD i 0 &&& (ipv6PrefixMask bits).val.getD i 0 := by
    intro i hi
    have hb : i < b.val.length := by rwa [b.2]
    have hm : i < (ipv6PrefixMask bits).val.length := by rwa [(ipv6PrefixMask bits).2]
    have hz : i < (ipv6And b (ipv6PrefixMask bits)).val.length := by
      rwa [(ipv6And b (ipv6PrefixMask bits)).2]
    rw [getD_eq_getElem _ _ hz, getD_eq_getElem _ _ hm, getD_eq_getElem _ _ hb]
    simp [ipv6And, UInt8.and_assoc]
  constructor
  · intro hall i hi
    have heq := of_decide_eq_true (hall i (mem_range.mpr hi))
    rw [hbyte i hi] at heq
    rw [← Mask.and_firstBits_eq_iff (Nat.min_le_left 8 _), ← toBitVec_prefixMaskBytes hi]
    exact congrArg UInt8.toBitVec heq
  · intro hall i hi
    have hagree := hall i (mem_range.mp hi)
    rw [← Mask.and_firstBits_eq_iff (Nat.min_le_left 8 _),
      ← toBitVec_prefixMaskBytes (mem_range.mp hi)] at hagree
    rw [decide_eq_true_eq, hbyte i (mem_range.mp hi)]
    exact UInt8.toBitVec_inj.mp hagree

/-! ### Reading a rule -/

section

variable (I : Inet)

def parsePort (s : Bytes) : Option UInt16 :=
  match strtol s with
  | none => none
  | some (v, rest) =>
    if rest ≠ [] ∨ v < 1 ∨ 65535 < v then none else some (UInt16.ofNat v.toNat)

/-- The address part without its brackets: the closing one is overwritten by the end of the
string. -/
def stripBrackets (addrPart : Bytes) : Bytes :=
  if addrPart.head? = some 91 then
    match splitFirst 93 addrPart.tail with
    | some (inside, _) => inside
    | none => addrPart.tail
  else addrPart

/-- The address text and the length after the slash, `-1` when there is no slash. -/
def splitSlash (addrPart : Bytes) : Option (Bytes × ℤ) :=
  match splitFirst 47 addrPart with
  | none => some (addrPart, -1)
  | some (text, pfxStr) =>
    if pfxStr.head?.any isDigit then some (text, atoi pfxStr) else none

variable (rule : ExitPolicyRule)

def parseRuleAddr (addrPart : Bytes) : Option ExitPolicyRule :=
  if addrPart = ascii "*" then
    some { rule with addrWildcard := true, addr := 0, mask := 0, isIpv6 := false }
  else
    match splitSlash addrPart with
    | none => none
    | some (text, len) =>
      if 58 ∈ text then
        let len := if len < 0 then 128 else len
        if 128 < len then none
        else
          match I.inetPton6 text with
          | none => none
          | some addr6 =>
            let mask6 := ipv6PrefixMask len.toNat
            some { rule with
              addrWildcard := false, isIpv6 := true, addr6 := ipv6And addr6 mask6, mask6 := mask6 }
      else
        let len := if len < 0 then 32 else len
        if 32 < len then none
        else
          match I.inetPton4 text with
          | none => none
          | some addr =>
            let mask := if len = 0 then 0 else BitVec.allOnes 32 <<< (32 - len.toNat)
            some { rule with
              addrWildcard := false, isIpv6 := false, addr := addr &&& mask, mask := mask }

def parseRulePorts (portPart : Bytes) : Option ExitPolicyRule :=
  if portPart = ascii "*" then
    some { rule with portWildcard := true, portLo := 0, portHi := 65535 }
  else
    match splitFirst 45 portPart with
    | some (loStr, hiStr) =>
      match parsePort loStr, parsePort hiStr with
      | some lo, some hi => some { rule with portWildcard := false, portLo := lo, portHi := hi }
      | _, _ => none
    | none =>
      match parsePort portPart with
      | some p => some { rule with portWildcard := false, portLo := p, portHi := p }
      | none => none

/-- The action that a rule's first word names. -/
def parseAction (actionStr : Bytes) : Option Bool :=
  if actionStr = ascii "accept" then some true
  else if actionStr = ascii "reject" then some false
  else none

/-- Reads a rule from its text into a record, whose other fields keep what was in memory. -/
def parseExitPolicyRule (value : Bytes) : Option ExitPolicyRule := do
  let buf := value.take 255
  let (actionStr, rest) ← splitFirst 32 buf
  let pattern := rest.dropWhile (· = 32)
  let action ← parseAction actionStr
  let (addrPart, portPart) ← splitLast 58 pattern
  let rule ← parseRuleAddr I { rule with action := action } (stripBrackets addrPart)
  let rule ← parseRulePorts rule portPart
  if rule.portHi < rule.portLo then none else some rule

/-- An `ExitPolicy` line of the configuration adds a rule to the policy; the record starts with
whatever was in memory. -/
def configSetExitPolicy (policy : List ExitPolicyRule) (rule : ExitPolicyRule) (value : Bytes) :
    Option (List ExitPolicyRule) :=
  if moorMaxExitRules ≤ policy.length then none
  else
    match parseExitPolicyRule I rule value with
    | none => none
    | some rule => some (policy ++ [rule])

/-- The policy that the lines of a configuration build, with what each record starts with. -/
def configExitPolicy (policy : List ExitPolicyRule) :
    List (ExitPolicyRule × Bytes) → Option (List ExitPolicyRule)
  | [] => some policy
  | (rule, value) :: lines =>
    match configSetExitPolicy I policy rule value with
    | none => none
    | some policy => configExitPolicy policy lines

end

/-! ### Matching a destination -/

/-- The destination that an address text denotes for the policy; no address is `0.0.0.0`. -/
def policyDestination (I : Inet) : Option Bytes → Option IpAddr
  | none => some (.v4 0)
  | some addr =>
    if 58 ∈ addr then (I.inetPton6 addr).map IpAddr.v6 else (I.inetPton4 addr).map IpAddr.v4

def ExitPolicyRule.addrMatch (r : ExitPolicyRule) : IpAddr → Bool
  | .v6 ip6 => r.addrWildcard || (r.isIpv6 && ipv6MaskedEq ip6 r.addr6 r.mask6)
  | .v4 ip => r.addrWildcard || (!r.isIpv6 && decide (ip &&& r.mask = r.addr))

def ExitPolicyRule.portMatch (r : ExitPolicyRule) (port : UInt16) : Bool :=
  r.portWildcard || (decide (r.portLo ≤ port) && decide (port ≤ r.portHi))

def moorExitPolicyAllows (I : Inet) (policy : List ExitPolicyRule) (addr : Option Bytes)
    (port : UInt16) : Bool :=
  match policyDestination I addr with
  | none => false
  | some dest =>
    match policy.find? fun r => r.addrMatch dest && r.portMatch port with
    | none => false
    | some r => r.action

/-- The texts of the default policy. -/
def exitPolicyDefaults : List Bytes :=
  [ascii "reject 0.0.0.0/8:*", ascii "reject 10.0.0.0/8:*", ascii "reject 100.64.0.0/10:*",
   ascii "reject 127.0.0.0/8:*", ascii "reject 169.254.0.0/16:*", ascii "reject 172.16.0.0/12:*",
   ascii "reject 192.168.0.0/16:*",
   ascii "reject [::1]/128:*", ascii "reject [fc00::]/7:*", ascii "reject [fe80::]/10:*",
   ascii "reject [::ffff:0:0]/96:*",
   ascii "reject *:25", ascii "reject *:119", ascii "reject *:135-139", ascii "reject *:445",
   ascii "reject *:563", ascii "reject *:1214", ascii "reject *:4661-4666",
   ascii "reject *:6346-6429", ascii "reject *:6699", ascii "reject *:6881-6999",
   ascii "reject *:465", ascii "reject *:587",
   ascii "accept *:*"]

/-- A record of zero bytes. -/
def ExitPolicyRule.zero : ExitPolicyRule where
  action := false
  addr := 0
  mask := 0
  addrWildcard := false
  portLo := 0
  portHi := 0
  portWildcard := false
  isIpv6 := false
  addr6 := Field.zero 16
  mask6 := Field.zero 16

/-- The default policy; a text that cannot be read is passed over. -/
def moorExitPolicySetDefaults (I : Inet) : List ExitPolicyRule :=
  (exitPolicyDefaults.filterMap (parseExitPolicyRule I ExitPolicyRule.zero)).take moorMaxExitRules

/-! ### The documented grammar -/

section

variable {I : Inet}

/-- The address of a rule as documented, with a text that denotes it. -/
inductive AddrPattern (I : Inet)
  | any
  | ipv4 (text : Bytes) (ip : Ipv4) (reads : I.inetPton4 text = some ip) (len : Option (Fin 33))
  | ipv6 (bracketed : Bool) (text : Bytes) (ip6 : Ipv6) (reads : I.inetPton6 text = some ip6)
      (len : Option (Fin 129))

/-- The ports of a rule as documented. -/
inductive PortPattern
  | any
  | single (port : UInt16) (pos : 1 ≤ port)
  | range (lo hi : UInt16) (pos : 1 ≤ lo) (le : lo ≤ hi)

/-- A rule as documented. -/
structure RuleText (I : Inet) where
  accept : Bool
  addr : AddrPattern I
  ports : PortPattern

/-- The text of an optional prefix length. -/
def renderLen : Option ℕ → Bytes
  | none => []
  | some n => 47 :: decimal n

def AddrPattern.render : AddrPattern I → Bytes
  | .any => ascii "*"
  | .ipv4 text _ _ len => text ++ renderLen (len.map Fin.val)
  | .ipv6 false text _ _ len => text ++ renderLen (len.map Fin.val)
  | .ipv6 true text _ _ len => 91 :: (text ++ 93 :: renderLen (len.map Fin.val))

def PortPattern.render : PortPattern → Bytes
  | .any => ascii "*"
  | .single port _ => decimal port.toNat
  | .range lo hi _ _ => decimal lo.toNat ++ 45 :: decimal hi.toNat

/-- The text of a rule: the action, a space, the address, a colon and the ports. -/
def RuleText.render (r : RuleText I) : Bytes :=
  ascii (if r.accept then "accept" else "reject") ++ 32 :: (r.addr.render ++ 58 :: r.ports.render)

/-- The address is in the prefix; without a length the prefix is the whole address. -/
def AddrPattern.Contains : AddrPattern I → IpAddr → Prop
  | .any, _ => True
  | .ipv4 _ base _ len, .v4 ip => ip.InPrefix base (len.elim 32 Fin.val)
  | .ipv6 _ _ base _ len, .v6 ip6 => ip6.InPrefix base (len.elim 128 Fin.val)
  | .ipv4 .., .v6 _ => False
  | .ipv6 .., .v4 _ => False

def PortPattern.Contains : PortPattern → UInt16 → Prop
  | .any, _ => True
  | .single p _, port => port = p
  | .range lo hi _ _, port => lo ≤ port ∧ port ≤ hi

instance (a : AddrPattern I) (dest : IpAddr) : Decidable (a.Contains dest) := by
  cases a <;> cases dest <;> unfold AddrPattern.Contains <;> infer_instance

instance (p : PortPattern) (port : UInt16) : Decidable (p.Contains port) := by
  cases p <;> unfold PortPattern.Contains <;> infer_instance

/-- The action of the first rule that contains the destination; reject when there is none. -/
def policyAction (rules : List (RuleText I)) (dest : IpAddr) (port : UInt16) : Bool :=
  match rules.find? fun r => decide (r.addr.Contains dest ∧ r.ports.Contains port) with
  | none => false
  | some r => r.accept

/-- An address pattern with the length after a bracket left out. -/
def AddrPattern.withoutLen : AddrPattern I → AddrPattern I
  | .ipv6 true text ip6 reads _ => .ipv6 true text ip6 reads none
  | a => a

/-- A rule with the length after a bracket left out. -/
def RuleText.withoutLen (r : RuleText I) : RuleText I := { r with addr := r.addr.withoutLen }

/-! ### Reading the text of a rule -/

variable {c : UInt8} {text s addr : Bytes} {ip6 : Ipv6} {texts : List (RuleText I)}
  {rules : List ExitPolicyRule} {dest : IpAddr}

theorem notMem_renderLen (h : isDigit c = false) (hslash : c ≠ 47) (len : Option ℕ) :
    c ∉ renderLen len := by
  cases len with
  | none => exact not_mem_nil
  | some n => exact not_mem_cons_of_ne_of_not_mem hslash (notMem_decimal h n)

/-- The characters that no address text has. -/
theorem notMem_pton6 (reads : I.inetPton6 text = some ip6)
    (h : ¬(isHexDigit c = true ∨ c = 58 ∨ c = 46)) : c ∉ text :=
  fun hc => h (I.char_pton6 reads c hc)

theorem notMem_pton4 {ip : Ipv4} (reads : I.inetPton4 text = some ip)
    (h : ¬(isDigit c = true ∨ c = 46)) : c ∉ text :=
  fun hc => h (I.char_pton4 reads c hc)

theorem parsePort_decimal {port : UInt16} (pos : 1 ≤ port) :
    parsePort (decimal port.toNat) = some port := by
  have hlt : port.toNat < 65536 := port.toNat_lt
  have hpos : 1 ≤ port.toNat := UInt16.le_iff_toNat_le.mp pos
  have hread : strtol (decimal port.toNat) = some ((port.toNat : ℤ), []) := by
    have h := @strtol_decimal port.toNat (by omega) [] (fun _ hc => nomatch hc)
    rwa [append_nil] at h
  have hrange : ¬(([] : Bytes) ≠ [] ∨ (port.toNat : ℤ) < 1 ∨ 65535 < (port.toNat : ℤ)) := by
    simp only [ne_eq, not_true_eq_false, false_or]
    omega
  rw [parsePort, hread]
  simp only [if_neg hrange, Int.toNat_natCast, UInt16.ofNat_toNat]

variable (rule : ExitPolicyRule)

/-- The ports that are read match the ports that the text means. -/
theorem parseRulePorts_render (p : PortPattern) :
    ∃ lo hi any, parseRulePorts rule p.render
        = some { rule with portWildcard := any, portLo := lo, portHi := hi } ∧ lo ≤ hi ∧
      ∀ port, (any || (decide (lo ≤ port) && decide (port ≤ hi))) = decide (p.Contains port) := by
  cases p with
  | any => exact ⟨0, 65535, true, if_pos rfl, by decide, fun _ => rfl⟩
  | single p pos =>
    have hstar : decimal p.toNat ≠ ascii "*" := by
      intro h
      have hmem : (42 : UInt8) ∈ decimal p.toNat := by
        rw [h]
        decide
      exact notMem_decimal (by decide) _ hmem
    refine ⟨p, p, false, ?_, UInt16.le_refl p, ?_⟩
    · rw [PortPattern.render, parseRulePorts, if_neg hstar,
        splitFirst_of_notMem (notMem_decimal (by decide) _), parsePort_decimal pos]
    intro port
    rw [Bool.false_or, ← Bool.decide_and]
    refine decide_eq_decide.mpr ⟨fun h => UInt16.le_antisymm h.2 h.1, ?_⟩
    intro h
    have heq : port = p := h
    rw [heq]
    exact ⟨UInt16.le_refl p, UInt16.le_refl p⟩
  | range lo hi pos le =>
    have hstar : decimal lo.toNat ++ 45 :: decimal hi.toNat ≠ ascii "*" := by
      intro h
      have hmem : (45 : UInt8) ∈ ascii "*" := by
        rw [← h]
        exact mem_append_right _ mem_cons_self
      exact absurd hmem (by decide)
    refine ⟨lo, hi, false, ?_, le, ?_⟩
    · rw [PortPattern.render, parseRulePorts, if_neg hstar,
        splitFirst_append (notMem_decimal (by decide) _)]
      simp only [parsePort_decimal pos, parsePort_decimal (UInt16.le_trans pos le)]
    · intro port
      rw [Bool.false_or, ← Bool.decide_and]
      rfl

theorem splitSlash_renderLen (h : 47 ∉ text) {len : Option ℕ} (hlen : ∀ n ∈ len, n < 2 ^ 31) :
    splitSlash (text ++ renderLen len) = some (text, len.elim (-1) Nat.cast) := by
  cases len with
  | none =>
    rw [renderLen, append_nil, splitSlash, splitFirst_of_notMem h]
    rfl
  | some n =>
    have hdigit : (decimal n).head?.any isDigit = true := by
      cases hd : decimal n with
      | nil => exact absurd hd (decimal_ne_nil n)
      | cons c t => exact decimal_isDigit n c (hd ▸ mem_cons_self)
    rw [renderLen, splitSlash, splitFirst_append h]
    simp only [hdigit, if_true, atoi_decimal (hlen n rfl)]
    rfl

theorem append_renderLen_ne_star (h : 42 ∉ text) (len : Option ℕ) :
    text ++ renderLen len ≠ ascii "*" := by
  intro heq
  have hmem : (42 : UInt8) ∈ text ++ renderLen len := by
    rw [heq]
    decide
  rcases mem_append.mp hmem with hmem | hmem
  · exact h hmem
  · exact notMem_renderLen (by decide) (by decide) len hmem

theorem lt_of_mem_map_val {k n : ℕ} (h : k ≤ 1000) {len : Option (Fin k)}
    (hn : n ∈ len.map Fin.val) : n < 2 ^ 31 := by
  obtain ⟨m, _, rfl⟩ := Option.map_eq_some_iff.mp hn
  omega

theorem elim_val_le {n : ℕ} (len : Option (Fin (n + 1))) : len.elim n Fin.val ≤ n := by
  cases len with
  | none => exact le_rfl
  | some m => exact Nat.lt_succ_iff.mp m.2

theorem parseRuleAddr_pton6 (bracketed : Bool) (reads : I.inetPton6 text = some ip6)
    (len : Option (Fin 129)) :
    ∃ rule', parseRuleAddr I rule (text ++ renderLen (len.map Fin.val)) = some rule' ∧
      rule'.action = rule.action ∧
      ∀ dest, rule'.addrMatch dest
        = decide ((AddrPattern.ipv6 bracketed text ip6 reads len).Contains dest) := by
  have hparse : parseRuleAddr I rule (text ++ renderLen (len.map Fin.val))
      = some { rule with
          addrWildcard := false, isIpv6 := true,
          addr6 := ipv6And ip6 (ipv6PrefixMask (len.elim 128 Fin.val)),
          mask6 := ipv6PrefixMask (len.elim 128 Fin.val) } := by
    rw [parseRuleAddr, if_neg (append_renderLen_ne_star (notMem_pton6 reads (by decide)) _),
      splitSlash_renderLen (notMem_pton6 reads (by decide))
        fun n hn => lt_of_mem_map_val (by decide) hn]
    cases len with
    | none => simp [I.colon_pton6 reads, reads]
    | some n =>
      have hle : ¬(128 : ℤ) < (n.val : ℤ) := by omega
      have hpos : ¬((n.val : ℤ) < 0) := by omega
      simp [I.colon_pton6 reads, reads, hle, hpos]
  refine ⟨_, hparse, rfl, fun dest => ?_⟩
  cases dest with
  | v4 ip => rfl
  | v6 ip6 =>
    rw [ExitPolicyRule.addrMatch, Bool.false_or, Bool.true_and, Bool.eq_iff_iff,
      ipv6MaskedEq_prefixMask (elim_val_le len), decide_eq_true_eq, AddrPattern.Contains]

theorem parseRuleAddr_pton4 {ip : Ipv4} (reads : I.inetPton4 text = some ip)
    (len : Option (Fin 33)) :
    ∃ rule', parseRuleAddr I rule (text ++ renderLen (len.map Fin.val)) = some rule' ∧
      rule'.action = rule.action ∧
      ∀ dest, rule'.addrMatch dest
        = decide ((AddrPattern.ipv4 text ip reads len).Contains dest) := by
  have hcolon : 58 ∉ text := notMem_pton4 reads (by decide)
  have hparse : parseRuleAddr I rule (text ++ renderLen (len.map Fin.val))
      = some { rule with
          addrWildcard := false, isIpv6 := false,
          addr := ip &&& Mask.firstBits 32 (len.elim 32 Fin.val),
          mask := Mask.firstBits 32 (len.elim 32 Fin.val) } := by
    rw [parseRuleAddr, if_neg (append_renderLen_ne_star (notMem_pton4 reads (by decide)) _),
      splitSlash_renderLen (notMem_pton4 reads (by decide))
        fun n hn => lt_of_mem_map_val (by decide) hn]
    cases len with
    | none => simp [hcolon, reads, Mask.firstBits]
    | some n =>
      have hle : ¬(32 : ℤ) < (n.val : ℤ) := by omega
      have hpos : ¬((n.val : ℤ) < 0) := by omega
      have hmask : (if (n.val : ℤ) = 0 then 0 else BitVec.allOnes 32 <<< (32 - n.val))
          = Mask.firstBits 32 n.val := by
        split_ifs with hzero
        · rw [Int.natCast_eq_zero.mp hzero]
          decide
        · rfl
      simp only [hcolon, reads, if_false, hle, hpos, Option.map_some, Option.elim_some,
        Int.toNat_natCast, hmask]
  refine ⟨_, hparse, rfl, fun dest => ?_⟩
  cases dest with
  | v4 ip' => exact decide_eq_decide.mpr (Mask.and_firstBits_eq_iff (elim_val_le len) ip' ip)
  | v6 ip6 => rfl

theorem stripBrackets_of_notMem (h : 91 ∉ s) : stripBrackets s = s := by
  refine if_neg ?_
  intro hhead
  exact h (mem_of_mem_head? hhead)

theorem stripBrackets_brackets (h : 93 ∉ s) (t : Bytes) :
    stripBrackets (91 :: (s ++ 93 :: t)) = s := by
  simp [stripBrackets, splitFirst_append h]

theorem notMem_append_renderLen (h : c ∉ text) (hdigit : isDigit c = false) (hslash : c ≠ 47)
    (len : Option ℕ) : c ∉ text ++ renderLen len := by
  rw [mem_append, not_or]
  exact ⟨h, notMem_renderLen hdigit hslash len⟩

variable (r : RuleText I) (a : AddrPattern I)

/-- The address that is read matches the addresses that the text means, but for the length after
a bracket. -/
theorem parseRuleAddr_render :
    ∃ rule', parseRuleAddr I rule (stripBrackets a.render) = some rule' ∧
      rule'.action = rule.action ∧
      ∀ dest, rule'.addrMatch dest = decide (a.withoutLen.Contains dest) := by
  match a with
  | .any =>
    refine ⟨{ rule with addrWildcard := true, addr := 0, mask := 0, isIpv6 := false },
      if_pos rfl, rfl, fun dest => ?_⟩
    cases dest <;> rfl
  | .ipv4 text ip reads len =>
    have hstrip : stripBrackets (text ++ renderLen (len.map Fin.val)) = _ :=
      stripBrackets_of_notMem
        (notMem_append_renderLen (notMem_pton4 reads (by decide)) (by decide) (by decide) _)
    rw [AddrPattern.render, hstrip]
    exact parseRuleAddr_pton4 rule reads len
  | .ipv6 false text ip6 reads len =>
    have hstrip : stripBrackets (text ++ renderLen (len.map Fin.val)) = _ :=
      stripBrackets_of_notMem
        (notMem_append_renderLen (notMem_pton6 reads (by decide)) (by decide) (by decide) _)
    rw [AddrPattern.render, hstrip]
    exact parseRuleAddr_pton6 rule false reads len
  | .ipv6 true text ip6 reads len =>
    -- The length stands after the bracket, so that what is read ends before it.
    have hstrip : stripBrackets (91 :: (text ++ 93 :: renderLen (len.map Fin.val)))
        = text ++ renderLen none := by
      simp [stripBrackets_brackets (notMem_pton6 reads (by decide)), renderLen]
    rw [AddrPattern.render, hstrip]
    exact parseRuleAddr_pton6 rule true reads none

theorem notMem_portsRender (hdigit : isDigit c = false) (hstar : c ≠ 42) (hdash : c ≠ 45)
    (p : PortPattern) : c ∉ p.render := by
  cases p with
  | any =>
    intro hc
    exact hstar (mem_singleton.mp hc)
  | single port pos => exact notMem_decimal hdigit _
  | range lo hi pos le =>
    rw [PortPattern.render, mem_append, mem_cons, not_or, not_or]
    exact ⟨notMem_decimal hdigit _, hdash, notMem_decimal hdigit _⟩

theorem space_notMem_addrRender : 32 ∉ a.render := by
  match a with
  | .any =>
    show 32 ∉ ascii "*"
    decide
  | .ipv4 text ip reads len =>
    exact notMem_append_renderLen (notMem_pton4 reads (by decide)) (by decide) (by decide) _
  | .ipv6 false text ip6 reads len =>
    exact notMem_append_renderLen (notMem_pton6 reads (by decide)) (by decide) (by decide) _
  | .ipv6 true text ip6 reads len =>
    rw [AddrPattern.render, mem_cons, mem_append, mem_cons, not_or, not_or, not_or]
    exact ⟨by decide, notMem_pton6 reads (by decide), by decide,
      notMem_renderLen (by decide) (by decide) _⟩

theorem length_renderLen_le {k : ℕ} (len : Option (Fin k)) (h : k ≤ 1000) :
    (renderLen (len.map Fin.val)).length ≤ 4 := by
  cases len with
  | none => exact Nat.zero_le 4
  | some n =>
    have hn : n.val < 10 ^ 3 := by omega
    exact Nat.succ_le_succ (length_decimal_le (by decide) hn)

theorem length_addrRender_le : a.render.length ≤ 51 := by
  match a with
  | .any =>
    show (ascii "*").length ≤ 51
    decide
  | .ipv4 text ip reads len =>
    have htext := I.length_pton4 reads
    have hlen := length_renderLen_le len (by decide)
    rw [AddrPattern.render, length_append]
    omega
  | .ipv6 false text ip6 reads len =>
    have htext := I.length_pton6 reads
    have hlen := length_renderLen_le len (by decide)
    rw [AddrPattern.render, length_append]
    omega
  | .ipv6 true text ip6 reads len =>
    have htext := I.length_pton6 reads
    have hlen := length_renderLen_le len (by decide)
    rw [AddrPattern.render, length_cons, length_append, length_cons]
    omega

theorem length_portsRender_le (p : PortPattern) : p.render.length ≤ 11 := by
  have hlen : ∀ x : UInt16, (decimal x.toNat).length ≤ 5 := fun x =>
    length_decimal_le (by decide) (Nat.lt_trans x.toNat_lt (by decide))
  cases p with
  | any => decide
  | single port pos => exact Nat.le_trans (hlen port) (by decide)
  | range lo hi pos le =>
    have hlo := hlen lo
    have hhi := hlen hi
    rw [PortPattern.render, length_append, length_cons]
    omega

/-- A rule's text fits the buffer. -/
theorem length_render_le : r.render.length ≤ 255 := by
  have haddr := length_addrRender_le r.addr
  have hports := length_portsRender_le r.ports
  have haction : (ascii (if r.accept then "accept" else "reject")).length = 6 := by
    cases r.accept <;> rfl
  rw [RuleText.render, length_append, length_cons, length_append, length_cons, haction]
  omega

theorem dropWhile_eq_self (h : 32 ∉ s) : s.dropWhile (· = 32) = s := by
  cases s with
  | nil => rfl
  | cons c s =>
    have hc : decide (c = 32) = false := decide_eq_false fun heq => h (heq ▸ mem_cons_self)
    rw [dropWhile_cons, hc]
    rfl

/-- The text of a rule is read as that rule, without the length after a bracket. -/
theorem parse_render :
    ∃ rule', parseExitPolicyRule I rule r.render = some rule' ∧ rule'.action = r.accept ∧
      ∀ dest port, (rule'.addrMatch dest && rule'.portMatch port)
        = decide (r.withoutLen.addr.Contains dest ∧ r.withoutLen.ports.Contains port) := by
  have hspace : 32 ∉ ascii (if r.accept then "accept" else "reject") := by
    cases r.accept <;> decide
  have hpattern : 32 ∉ r.addr.render ++ 58 :: r.ports.render := by
    rw [mem_append, mem_cons, not_or, not_or]
    exact ⟨space_notMem_addrRender r.addr, by decide,
      notMem_portsRender (by decide) (by decide) (by decide) r.ports⟩
  have hcolon : 58 ∉ r.ports.render :=
    notMem_portsRender (by decide) (by decide) (by decide) r.ports
  have haction : parseAction (ascii (if r.accept then "accept" else "reject")) = some r.accept := by
    cases r.accept <;> decide
  obtain ⟨rule₁, haddr, hact, hmatch⟩ :=
    parseRuleAddr_render { rule with action := r.accept } r.addr
  obtain ⟨lo, hi, any, hports, hle, hport⟩ := parseRulePorts_render rule₁ r.ports
  refine ⟨{ rule₁ with portWildcard := any, portLo := lo, portHi := hi }, ?_, hact, ?_⟩
  · have horder : ¬hi < lo := UInt16.not_lt.mpr hle
    rw [parseExitPolicyRule, take_of_length_le (length_render_le r), RuleText.render,
      splitFirst_append hspace]
    simp only [Option.bind_eq_bind, Option.bind_some, dropWhile_eq_self hpattern, haction,
      splitLast_append _ hcolon, haddr, hports, if_neg horder]
  · intro dest port
    rw [Bool.decide_and]
    exact congrArg₂ (· && ·) (hmatch dest) (hport port)

/-! ### A policy -/

/-- A rule was read from a text: it has the same action, and it matches what the text means but
for the length after a bracket. -/
def RuleText.ReadAs (rule : ExitPolicyRule) : Prop :=
  rule.action = r.accept ∧ ∀ dest port, (rule.addrMatch dest && rule.portMatch port)
    = decide (r.withoutLen.addr.Contains dest ∧ r.withoutLen.ports.Contains port)

/-- Lines of the configuration are read one after another, as long as there is room. -/
theorem configExitPolicy_render (policy : List ExitPolicyRule)
    (lines : List (ExitPolicyRule × RuleText I))
    (hlen : policy.length + lines.length ≤ moorMaxExitRules) :
    ∃ rules, configExitPolicy I policy (lines.map fun l => (l.1, l.2.render))
        = some (policy ++ rules) ∧
      List.Forall₂ RuleText.ReadAs (lines.map Prod.snd) rules := by
  induction lines generalizing policy with
  | nil => exact ⟨[], congrArg some (append_nil policy).symm, .nil⟩
  | cons line lines ih =>
    rw [length_cons] at hlen
    obtain ⟨rule, hparse, hread⟩ := parse_render line.1 line.2
    obtain ⟨rules, hconfig, hall⟩ := ih (policy ++ [rule])
      (by rw [length_append, length_singleton]; omega)
    refine ⟨rule :: rules, ?_, .cons hread hall⟩
    have hroom : ¬moorMaxExitRules ≤ policy.length := by omega
    rw [map_cons, configExitPolicy, configSetExitPolicy, if_neg hroom, hparse]
    simp [hconfig]

theorem policyDestination_of_denotes (h : I.denotes addr = some dest) :
    policyDestination I (some addr) = some dest := by
  rw [policyDestination]
  split_ifs with hcolon
  · rwa [Inet.denotes, I.pton4_of_colon hcolon, Option.map_none, Option.none_or] at h
  · rwa [Inet.denotes, I.pton6_of_no_colon hcolon, Option.map_none, Option.or_none] at h

/-- A policy that was read gives the action that its texts mean without the lengths after a
bracket. -/
theorem allows_readAs (h : List.Forall₂ RuleText.ReadAs texts rules)
    (hdest : I.denotes addr = some dest) (port : UInt16) :
    moorExitPolicyAllows I rules (some addr) port
      = policyAction (texts.map RuleText.withoutLen) dest port := by
  rw [moorExitPolicyAllows, policyDestination_of_denotes hdest]
  dsimp only
  -- the first rule that matches is the one read from the first text that contains the destination
  induction h with
  | nil => rfl
  | @cons r rule texts rules hread _ ih =>
    rw [map_cons, policyAction, find?_cons, find?_cons, hread.2]
    cases decide (r.withoutLen.addr.Contains dest ∧ r.withoutLen.ports.Contains port) with
    | true => exact hread.1
    | false => exact ih

/-- A length after a bracket that is the whole address changes nothing. -/
theorem withoutLen_contains {a : AddrPattern I}
    (h : ∀ text ip6 reads len, a = .ipv6 true text ip6 reads (some len) → len.val = 128)
    (dest : IpAddr) : a.withoutLen.Contains dest ↔ a.Contains dest := by
  match a, h with
  | .any, _ => rfl
  | .ipv4 .., _ => rfl
  | .ipv6 false .., _ => rfl
  | .ipv6 true _ _ _ none, _ => rfl
  | .ipv6 true text ip6 reads (some len), h =>
    have hlen := h text ip6 reads len rfl
    cases dest with
    | v4 ip => rfl
    | v6 ip =>
      rw [AddrPattern.withoutLen, AddrPattern.Contains, AddrPattern.Contains, Option.elim_none,
        Option.elim_some, hlen]

theorem policyAction_withoutLen (h : ∀ r ∈ texts, ∀ text ip6 reads len,
      r.addr = .ipv6 true text ip6 reads (some len) → len.val = 128) (dest : IpAddr)
    (port : UInt16) :
    policyAction (texts.map RuleText.withoutLen) dest port = policyAction texts dest port := by
  induction texts with
  | nil => rfl
  | cons r texts ih =>
    have hr : decide (r.withoutLen.addr.Contains dest ∧ r.withoutLen.ports.Contains port)
        = decide (r.addr.Contains dest ∧ r.ports.Contains port) :=
      decide_eq_decide.mpr (and_congr_left' (withoutLen_contains (h r mem_cons_self) dest))
    rw [map_cons, policyAction, policyAction, find?_cons, find?_cons, hr]
    cases decide (r.addr.Contains dest ∧ r.ports.Contains port) with
    | true => rfl
    | false => exact ih fun r' hr' => h r' (mem_cons_of_mem r hr')

/-! ### The default policy -/

/-- The four IPv6 texts of the default policy denote what they are meant to. -/
structure ReadsDefaults (I : Inet) : Prop where
  loopback : I.inetPton6 (ascii "::1") = some (ofEnds [] [1])
  uniqueLocal : I.inetPton6 (ascii "fc00::") = some (ofEnds [0xfc] [])
  linkLocal : I.inetPton6 (ascii "fe80::") = some (ofEnds [0xfe, 0x80] [])
  mapped : I.inetPton6 (ascii "::ffff:0:0") = some (ofEnds [] [0xff, 0xff, 0, 0, 0, 0])

/-- A rule that rejects all ports of an address. -/
def rejectAddr (a : AddrPattern I) : RuleText I := ⟨false, a, .any⟩

/-- A rule that rejects ports of all addresses. -/
def rejectPorts (p : PortPattern) : RuleText I := ⟨false, .any, p⟩

def defaultIpv4 (I : Inet) : List (RuleText I) :=
  [rejectAddr (.ipv4 (dottedQuad 0 0 0 0) _ (I.pton4_dottedQuad 0 0 0 0) (some 8)),
   rejectAddr (.ipv4 (dottedQuad 10 0 0 0) _ (I.pton4_dottedQuad 10 0 0 0) (some 8)),
   rejectAddr (.ipv4 (dottedQuad 100 64 0 0) _ (I.pton4_dottedQuad 100 64 0 0) (some 10)),
   rejectAddr (.ipv4 (dottedQuad 127 0 0 0) _ (I.pton4_dottedQuad 127 0 0 0) (some 8)),
   rejectAddr (.ipv4 (dottedQuad 169 254 0 0) _ (I.pton4_dottedQuad 169 254 0 0) (some 16)),
   rejectAddr (.ipv4 (dottedQuad 172 16 0 0) _ (I.pton4_dottedQuad 172 16 0 0) (some 12)),
   rejectAddr (.ipv4 (dottedQuad 192 168 0 0) _ (I.pton4_dottedQuad 192 168 0 0) (some 16))]

def defaultIpv6 (h : ReadsDefaults I) : List (RuleText I) :=
  [rejectAddr (.ipv6 true (ascii "::1") _ h.loopback (some 128)),
   rejectAddr (.ipv6 true (ascii "fc00::") _ h.uniqueLocal (some 7)),
   rejectAddr (.ipv6 true (ascii "fe80::") _ h.linkLocal (some 10)),
   rejectAddr (.ipv6 true (ascii "::ffff:0:0") _ h.mapped (some 96))]

/-- The ports that the default policy rejects. -/
def defaultPorts : List PortPattern :=
  [.single 25 (by decide), .single 119 (by decide), .range 135 139 (by decide) (by decide),
   .single 445 (by decide), .single 563 (by decide), .single 1214 (by decide),
   .range 4661 4666 (by decide) (by decide), .range 6346 6429 (by decide) (by decide),
   .single 6699 (by decide), .range 6881 6999 (by decide) (by decide),
   .single 465 (by decide), .single 587 (by decide)]

/-- The default policy as rules of the grammar. -/
def defaultTexts (h : ReadsDefaults I) : List (RuleText I) :=
  (defaultIpv4 I ++ defaultIpv6 h ++ defaultPorts.map rejectPorts) ++ [⟨true, .any, .any⟩]

theorem render_defaultTexts (h : ReadsDefaults I) :
    (defaultTexts h).map RuleText.render = exitPolicyDefaults := by
  simp only [defaultTexts, defaultIpv4, defaultIpv6, defaultPorts, rejectAddr, rejectPorts,
    RuleText.render, AddrPattern.render, PortPattern.render, map_append, map_cons,
    map_nil, Option.map_some, Bool.false_eq_true, if_false, if_true]
  decide +kernel

theorem filterMap_parse_render (texts : List (RuleText I)) (rule : ExitPolicyRule) :
    List.Forall₂ RuleText.ReadAs texts
      ((texts.map RuleText.render).filterMap (parseExitPolicyRule I rule)) := by
  induction texts with
  | nil => exact .nil
  | cons r texts ih =>
    obtain ⟨rule', hparse, hread⟩ := parse_render rule r
    rw [map_cons, filterMap_cons_some hparse]
    exact .cons hread ih

theorem setDefaults_readAs (h : ReadsDefaults I) :
    List.Forall₂ RuleText.ReadAs (defaultTexts h) (moorExitPolicySetDefaults I) := by
  have hread := filterMap_parse_render (defaultTexts h) ExitPolicyRule.zero
  have hlen : (defaultTexts h).length ≤ moorMaxExitRules := by
    show 24 ≤ 64
    decide
  rw [hread.length_eq] at hlen
  rw [render_defaultTexts h] at hread hlen
  rwa [moorExitPolicySetDefaults, take_of_length_le hlen]

/-- Rules that all reject decide for the destinations that one of them contains. -/
theorem policyAction_append_of_reject {rejects : List (RuleText I)}
    (h : ∀ r ∈ rejects, r.accept = false) (rest : List (RuleText I)) (dest : IpAddr)
    (port : UInt16) :
    policyAction (rejects ++ rest) dest port = false ↔
      (∃ r ∈ rejects, r.addr.Contains dest ∧ r.ports.Contains port) ∨
        policyAction rest dest port = false := by
  induction rejects with
  | nil => simp
  | cons r rejects ih =>
    have ih := ih fun r' hr' => h r' (mem_cons_of_mem r hr')
    rw [cons_append, policyAction, find?_cons, exists_mem_cons_iff, or_assoc, ← ih]
    by_cases hr : r.addr.Contains dest ∧ r.ports.Contains port
    · rw [decide_eq_true hr]
      exact iff_of_true (h r mem_cons_self) (.inl hr)
    · rw [decide_eq_false hr]
      exact (or_iff_right hr).symm

theorem defaultRejects (h : ReadsDefaults I) :
    ∀ r ∈ (defaultIpv4 I ++ defaultIpv6 h ++ defaultPorts.map rejectPorts).map
      RuleText.withoutLen, r.accept = false := by
  simp [defaultIpv4, defaultIpv6, rejectAddr, rejectPorts, RuleText.withoutLen]

/-- The default policy rejects an IPv6 destination exactly when it is one of four addresses or
its port is a blocked one. -/
theorem defaults_reject_ipv6 (h : ReadsDefaults I) (ip6 : Ipv6) (port : UInt16) :
    policyAction ((defaultTexts h).map RuleText.withoutLen) (.v6 ip6) port = false ↔
      ip6 ∈ [ofEnds [] [1], ofEnds [0xfc] [], ofEnds [0xfe, 0x80] [],
        ofEnds [] [0xff, 0xff, 0, 0, 0, 0]] ∨ ∃ p ∈ defaultPorts, p.Contains port := by
  have haccept : policyAction (([⟨true, .any, .any⟩] : List (RuleText I)).map RuleText.withoutLen)
      (.v6 ip6) port = true := rfl
  have hv4 : ¬∃ r ∈ (defaultIpv4 I).map RuleText.withoutLen,
      r.addr.Contains (.v6 ip6) ∧ r.ports.Contains port := by
    simp [defaultIpv4, rejectAddr, RuleText.withoutLen, AddrPattern.withoutLen,
      AddrPattern.Contains]
  have hv6 : (∃ r ∈ (defaultIpv6 h).map RuleText.withoutLen,
        r.addr.Contains (.v6 ip6) ∧ r.ports.Contains port) ↔
      ip6 ∈ [ofEnds [] [1], ofEnds [0xfc] [], ofEnds [0xfe, 0x80] [],
        ofEnds [] [0xff, 0xff, 0, 0, 0, 0]] := by
    simp [defaultIpv6, rejectAddr, RuleText.withoutLen, AddrPattern.withoutLen,
      AddrPattern.Contains, PortPattern.Contains, inPrefix_full]
  have hports : (∃ r ∈ (defaultPorts.map rejectPorts).map (RuleText.withoutLen (I := I)),
        r.addr.Contains (.v6 ip6) ∧ r.ports.Contains port) ↔
      ∃ p ∈ defaultPorts, p.Contains port := by
    simp [rejectPorts, RuleText.withoutLen, AddrPattern.withoutLen, AddrPattern.Contains]
  rw [defaultTexts, map_append, policyAction_append_of_reject (defaultRejects h), haccept]
  simp only [map_append, mem_append, or_and_right, exists_or, hv4, hv6, hports,
    false_or, or_false, Bool.true_eq_false]

end

/-! ### What a policy allows -/

/-- A policy of at most 64 rules of the grammar is read from its texts, and gives a destination
the action of the first rule that contains it exactly when the lengths after a bracket do not
matter for the destination: the parser drops them. It does so for every destination when no
length but that of a whole address stands after a bracket. The default policy has such lengths,
and rejects of the IPv6 addresses only four, and the blocked ports. -/
theorem exit_policy_first_match (I : Inet) :
    (∀ lines : List (ExitPolicyRule × RuleText I), lines.length ≤ moorMaxExitRules →
      ∃ policy, configExitPolicy I [] (lines.map fun l => (l.1, l.2.render)) = some policy ∧
        (∀ addr dest port, I.denotes addr = some dest →
          (moorExitPolicyAllows I policy (some addr) port
              = policyAction (lines.map Prod.snd) dest port ↔
            policyAction ((lines.map Prod.snd).map RuleText.withoutLen) dest port
              = policyAction (lines.map Prod.snd) dest port)) ∧
        ((∀ r ∈ lines.map Prod.snd, ∀ text ip6 reads len,
            r.addr = .ipv6 true text ip6 reads (some len) → len.val = 128) →
          ∀ addr dest port, I.denotes addr = some dest →
            moorExitPolicyAllows I policy (some addr) port
              = policyAction (lines.map Prod.snd) dest port)) ∧
    (∀ (_ : ReadsDefaults I) (addr : Bytes) (ip6 : Ipv6) (port : UInt16),
      I.inetPton6 addr = some ip6 →
      (moorExitPolicyAllows I (moorExitPolicySetDefaults I) (some addr) port = false ↔
        ip6 ∈ [ofEnds [] [1], ofEnds [0xfc] [], ofEnds [0xfe, 0x80] [],
          ofEnds [] [0xff, 0xff, 0, 0, 0, 0]] ∨ ∃ p ∈ defaultPorts, p.Contains port)) := by
  refine ⟨?_, ?_⟩
  · intro lines hlen
    obtain ⟨policy, hconfig, hread⟩ := configExitPolicy_render [] lines (by simpa using hlen)
    refine ⟨policy, hconfig, ?_, ?_⟩
    · intro addr dest port hdest
      rw [allows_readAs hread hdest]
    · intro hwhole addr dest port hdest
      rw [allows_readAs hread hdest, policyAction_withoutLen hwhole]
  · intro h addr ip6 port hreads
    rw [allows_readAs (setDefaults_readAs h) (I.denotes_of_pton6 hreads), defaults_reject_ipv6]

theorem readsDefaults_sample : ReadsDefaults Inet.sample where
  loopback := by decide +kernel
  uniqueLocal := by decide +kernel
  linkLocal := by decide +kernel
  mapped := by decide +kernel

/-- The example of the documentation that blocks two subnets. -/
def sampleLines : List (ExitPolicyRule × RuleText Inet.sample) :=
  [(.zero, rejectAddr (.ipv4 (dottedQuad 10 0 0 0) _ (Inet.sample.pton4_dottedQuad 10 0 0 0)
      (some 8))),
   (.zero, rejectAddr (.ipv6 true (ascii "fc00::") _ readsDefaults_sample.uniqueLocal (some 7))),
   (.zero, ⟨true, .any, .any⟩)]

/-- The example blocks an address of its first subnet, where the length after the bracket does
not matter; the default policy blocks a port at an address of the second. -/
theorem exit_policy_first_match_sample :
    (∃ policy, configExitPolicy Inet.sample [] (sampleLines.map fun l => (l.1, l.2.render))
        = some policy ∧
      moorExitPolicyAllows Inet.sample policy (some (dottedQuad 10 1 2 3)) 80
        = policyAction (sampleLines.map Prod.snd) (.v4 (Ipv4.ofBytes 10 1 2 3)) 80) ∧
    moorExitPolicyAllows Inet.sample (moorExitPolicySetDefaults Inet.sample)
      (some (ascii "fd00::1")) 25 = false := by
  have hmain := exit_policy_first_match Inet.sample
  obtain ⟨policy, hconfig, hiff, _⟩ := hmain.1 sampleLines (by decide)
  have hdest : Inet.sample.denotes (dottedQuad 10 1 2 3) = some (.v4 (Ipv4.ofBytes 10 1 2 3)) := by
    decide +kernel
  refine ⟨⟨policy, hconfig, (hiff _ _ 80 hdest).mpr (by decide +kernel)⟩, ?_⟩
  have hreads : Inet.sample.inetPton6 (ascii "fd00::1") = some (ofEnds [0xfd] [1]) := by
    decide +kernel
  exact (hmain.2 readsDefaults_sample _ _ 25 hreads).mpr
    (.inr ⟨.single 25 (by decide), mem_cons_self, rfl⟩)

/-- The default policy, whose text rejects `fc00::/7`, lets an address of it through: the length
after the bracket is lost, and the rule is left with the one address `fc00::`. -/
theorem exit_policy_loses_length :
    InPrefix (ofEnds [0xfd] [1]) (ofEnds [0xfc] []) 7 ∧
    Inet.sample.inetPton6 (ascii "fd00::1") = some (ofEnds [0xfd] [1]) ∧
    ascii "reject [fc00::]/7:*" ∈ exitPolicyDefaults ∧
    moorExitPolicyAllows Inet.sample (moorExitPolicySetDefaults Inet.sample)
      (some (ascii "fd00::1")) 80 = true := by
  decide +kernel

end Moor
