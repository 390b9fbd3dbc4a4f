import Moor.Lib.Scanf
import Moor.Node.Select
import Moor.Node.Wire

/-!
# The consensus as a text

The authorities publish the consensus as a text of lines. A line starts with a keyword: those of the
header and the footer are words, those of a relay are single letters, and the line with the letter
`n` begins a new relay. The parser goes through the lines with the relay that it is at.

The calendar of the C library and the base64 of libsodium are used for times and keys. They stay
abstract, with the laws that they are documented to have.
-/

namespace Moor

open Codec Text Scanf

/-- A consensus with the bandwidth weights and the shared random values. -/
structure FullConsensus extends WeightedConsensus where
  srvCurrent : Field 32
  srvPrevious : Field 32

def FullConsensus.init : FullConsensus where
  validAfter := 0
  freshUntil := 0
  validUntil := 0
  relays := []
  daSigs := []
  relays_le := Nat.zero_le _
  daSigs_le := Nat.zero_le _
  bwWeights := fun _ => 0
  srvCurrent := Field.zero 32
  srvPrevious := Field.zero 32

/-! ### Times -/

/-- A broken-down time, with years from 1900 and months from zero. -/
structure Tm where
  year : ℤ
  mon : ℤ
  mday : ℤ
  hour : ℤ
  min : ℤ
  sec : ℤ
  deriving DecidableEq

/-- The fields of a time from 1970 to the end of the year 9999. -/
structure Tm.InRange (tm : Tm) : Prop where
  year : 70 ≤ tm.year ∧ tm.year ≤ 8099
  mon : 0 ≤ tm.mon ∧ tm.mon ≤ 11
  mday : 1 ≤ tm.mday ∧ tm.mday ≤ 31
  hour : 0 ≤ tm.hour ∧ tm.hour ≤ 23
  min : 0 ≤ tm.min ∧ tm.min ≤ 59
  sec : 0 ≤ tm.sec ∧ tm.sec ≤ 60

/-- The first second of the year 10000. -/
def year10000 : UInt64 := 253402300800

/-- `gmtime_r`, on a zeroed result, and `timegm`, with casts between `time_t` and 64-bit words,
which are inverse to each other where the year has four digits. `sodium_bin2base64` and
`sodium_base642bin` in the original variant: the decoder gives what it has written to a buffer of so
many bytes, and whether it has not failed. -/
structure TextLib where
  gmtime : UInt64 → Tm
  timegm : Tm → UInt64
  bin2base64 : Bytes → Bytes
  base642bin : ℕ → Bytes → Bytes × Bool
  inRange : ∀ t < year10000, (gmtime t).InRange
  timegm_gmtime : ∀ t < year10000, timegm (gmtime t) = t
  length_bin2base64 : ∀ bin, (bin2base64 bin).length = 4 * ((bin.length + 2) / 3)
  /-- The characters are printable and none is white space. -/
  char_bin2base64 : ∀ bin, ∀ c ∈ bin2base64 bin, 43 ≤ c ∧ c ≤ 122
  base642bin_bin2base64 : ∀ bin maxLen, bin.length ≤ maxLen →
    base642bin maxLen (bin2base64 bin) = (bin, true)

/-! ### Stand-ins for evaluation -/

/-- Six bits as a character. -/
def sampleDigit (d : ℕ) : UInt8 := UInt8.ofNat (43 + d % 64)

def sampleValue (c : UInt8) : ℕ := c.toNat - 43

/-- Three bytes as four characters: the upper six bits of each, and the rest of all. -/
def sampleEncode : Bytes → Bytes
  | [] => []
  | [a] => [sampleDigit (a.toNat / 4), sampleDigit (a.toNat % 4), 122, 122]
  | [a, b] => [sampleDigit (a.toNat / 4), sampleDigit (b.toNat / 4),
      sampleDigit (a.toNat % 4 * 4 + b.toNat % 4), 122]
  | a :: b :: c :: rest => sampleDigit (a.toNat / 4) :: sampleDigit (b.toNat / 4) ::
      sampleDigit (c.toNat / 4) :: sampleDigit (a.toNat % 4 * 16 + b.toNat % 4 * 4 + c.toNat % 4) ::
      sampleEncode rest

def sampleDecode : Bytes → Bytes
  | p :: q :: r :: s :: rest =>
    if r = 122 then [UInt8.ofNat (sampleValue p * 4 + sampleValue q)]
    else if s = 122 then [UInt8.ofNat (sampleValue p * 4 + sampleValue r / 4),
      UInt8.ofNat (sampleValue q * 4 + sampleValue r % 4)]
    else UInt8.ofNat (sampleValue p * 4 + sampleValue s / 16) ::
      UInt8.ofNat (sampleValue q * 4 + sampleValue s / 4 % 4) ::
      UInt8.ofNat (sampleValue r * 4 + sampleValue s % 4) :: sampleDecode rest
  | _ => []

theorem toNat_sampleDigit (d : ℕ) : (sampleDigit d).toNat = 43 + d % 64 := by
  rw [sampleDigit, UInt8.toNat_ofNat']
  omega

/-- The digits are below the character that fills up. -/
theorem sampleDigit_range (d : ℕ) : 43 ≤ sampleDigit d ∧ sampleDigit d < 122 := by
  simp only [UInt8.le_iff_toNat_le, UInt8.lt_iff_toNat_lt, toNat_sampleDigit, UInt8.reduceToNat]
  omega

theorem ofNat_eq_of_eq {n : ℕ} {a : UInt8} (h : n = a.toNat) : UInt8.ofNat n = a := by
  rw [h, UInt8.ofNat_toNat]

theorem char_sampleEncode (bin : Bytes) : ∀ c ∈ sampleEncode bin, 43 ≤ c ∧ c ≤ 122 := by
  have hdigit (d : ℕ) : 43 ≤ sampleDigit d ∧ sampleDigit d ≤ 122 :=
    (sampleDigit_range d).imp_right UInt8.le_of_lt
  fun_induction sampleEncode bin with
  | case1 => simp
  | case2 | case3 => simp [hdigit]
  | case4 a b c rest ih => simpa [hdigit] using ih

theorem length_sampleEncode (bin : Bytes) :
    (sampleEncode bin).length = 4 * ((bin.length + 2) / 3) := by
  fun_induction sampleEncode bin with
  | case1 | case2 | case3 => simp
  | case4 a b c rest ih =>
    simp only [List.length_cons, ih]
    omega

theorem sampleDecode_sampleEncode (bin : Bytes) : sampleDecode (sampleEncode bin) = bin := by
  have hne (d : ℕ) : sampleDigit d ≠ 122 := UInt8.ne_of_lt (sampleDigit_range d).2
  fun_induction sampleEncode bin with
  | case1 => rfl
  | case2 a =>
    have ha := a.toNat_lt
    simp only [sampleDecode, sampleValue, toNat_sampleDigit, if_true]
    rw [ofNat_eq_of_eq (a := a) (by omega)]
  | case3 a b =>
    have ha := a.toNat_lt
    have hb := b.toNat_lt
    simp only [sampleDecode, sampleValue, toNat_sampleDigit, hne, if_true, if_false]
    rw [ofNat_eq_of_eq (a := a) (by omega), ofNat_eq_of_eq (a := b) (by omega)]
  | case4 a b c rest ih =>
    have ha := a.toNat_lt
    have hb := b.toNat_lt
    have hc := c.toNat_lt
    simp only [sampleDecode, sampleValue, toNat_sampleDigit, hne, if_false, ih]
    rw [ofNat_eq_of_eq (a := a) (by omega), ofNat_eq_of_eq (a := b) (by omega),
      ofNat_eq_of_eq (a := c) (by omega)]

/-- A calendar of years with twelve months of 31 days, and an alphabet without gaps. -/
def TextLib.sample : TextLib where
  gmtime t :=
    let day : ℕ := t.toNat / 86400
    let sec : ℕ := t.toNat % 86400
    ⟨70 + day / 372, day % 372 / 31, day % 31 + 1, sec / 3600, sec / 60 % 60, sec % 60⟩
  timegm tm :=
    UInt64.ofNat ((((tm.year - 70) * 372 + tm.mon * 31 + (tm.mday - 1)) * 86400 +
      tm.hour * 3600 + tm.min * 60 + tm.sec).toNat)
  bin2base64 := sampleEncode
  base642bin maxLen b64 :=
    let bin := sampleDecode b64
    (bin.take maxLen, decide (bin.length ≤ maxLen) && sampleEncode bin == b64)
  inRange t h := by
    have ht : t.toNat < 253402300800 := UInt64.lt_iff_toNat_lt.mp h
    constructor <;> dsimp only <;> omega
  timegm_gmtime t h := by
    rw [← UInt64.toNat_inj, UInt64.toNat_ofNat']
    have ht : t.toNat < 253402300800 := UInt64.lt_iff_toNat_lt.mp h
    have hdays : ∀ n : ℤ, n / 372 * 372 + n % 372 / 31 * 31 + n % 31 = n := fun n => by
      omega
    have hsecs : ∀ n : ℤ, n / 3600 * 3600 + n / 60 % 60 * 60 + n % 60 = n := fun n => by omega
    have hday := hdays (t.toNat / 86400 : ℕ)
    have hsec := hsecs (t.toNat % 86400 : ℕ)
    dsimp only
    omega
  length_bin2base64 := length_sampleEncode
  char_bin2base64 := char_sampleEncode
  base642bin_bin2base64 bin maxLen h := by
    simp [sampleDecode_sampleEncode, h]

variable (lib : TextLib) (outLen : ℕ) (out : Bytes)

/-- `YYYY-MM-DD HH:MM:SS`, in a buffer of 20 bytes. -/
def fmtTime (ts : UInt64) : Bytes :=
  let tm := lib.gmtime ts
  (intNumeral 4 (tm.year + 1900) ++ [45] ++ intNumeral 2 (tm.mon + 1) ++ [45] ++
    intNumeral 2 tm.mday ++ [32] ++ intNumeral 2 tm.hour ++ [58] ++ intNumeral 2 tm.min ++ [58] ++
    intNumeral 2 tm.sec).take 19

def timeFormat : List Directive :=
  [.int, .literal 45, .int, .literal 45, .int, .blank, .int, .literal 58, .int, .literal 58, .int]

def parseTime (s : Bytes) : UInt64 :=
  match scan timeFormat s with
  | [.num yr, .num mo, .num dy, .num hr, .num mn, .num sc] =>
    lib.timegm ⟨yr - 1900, mo - 1, dy, hr, mn, sc⟩
  | _ => 0

/-! ### Keys and flags -/

def b64enc {n : ℕ} (f : Field n) : Bytes := lib.bin2base64 f.val

/-- The field with what the decoder has written over it, and the number of bytes if it has not
failed. -/
def b64dec {n : ℕ} (f : Field n) (b64 : Bytes) : Field n × ℕ :=
  let d := lib.base642bin n b64
  (Arr.ofList n 0 (d.1 ++ f.val.drop d.1.length), if d.2 then d.1.length else 0)

def nodeFlagValid : UInt32 := Flags.bit 5

def flagTable : List (UInt32 × Bytes) :=
  [(nodeFlagAuthority, ascii "Authority"), (nodeFlagBadexit, ascii "BadExit"),
   (nodeFlagExit, ascii "Exit"), (nodeFlagFast, ascii "Fast"), (nodeFlagGuard, ascii "Guard"),
   (nodeFlagMiddleonly, ascii "MiddleOnly"), (nodeFlagRunning, ascii "Running"),
   (nodeFlagStable, ascii "Stable"), (nodeFlagValid, ascii "Valid")]

/-- The words of a line, which are separated by blanks. -/
def flagWords (s : Bytes) : List Bytes := (s.splitOn 32).filter fun w => !w.isEmpty

def parseFlags (s : Bytes) : UInt32 :=
  if (ascii "s ").isPrefixOf s then
    (flagWords (s.drop 2)).foldl (fun flags w =>
      match flagTable.find? fun row => row.2 == w with
      | some row => flags ||| row.1
      | none => flags) 0
  else 0

def unpackCountry (code : UInt16) : Bytes :=
  [UInt8.ofNat (code.toNat >>> 8), UInt8.ofNat code.toNat].takeWhile (· != 0)

def packCountry : Bytes → UInt16
  | [hi, lo] => UInt16.ofNat (hi.toNat <<< 8 ||| lo.toNat)
  | _ => 0

/-- The keys of the bandwidth weights, in the order of the line. -/
def weightKey : Fin 8 → Bytes :=
  ![ascii "Wgg=", ascii "Wgd=", ascii "Wee=", ascii "Wed=", ascii "Wmg=", ascii "Wme=",
    ascii "Wmm=", ascii "Wmd="]

/-! ### Writing -/

/-- Appends a string if it fits. -/
def bcat (s : Bytes) : Option Bytes :=
  if out.length + s.length > outLen then none else some (out ++ s)

/-- A line of the scratch buffer. -/
def tmpLine (s : Bytes) : Bytes := (s ++ [10]).take 8191

def knownFlagsLine : Bytes :=
  ascii "known-flags " ++ (ascii "Authority BadExit Exit Fast Guard " ++
    ascii "MiddleOnly Running Stable Valid")

def headerTexts (cons : FullConsensus) : List Bytes :=
  [ascii "moor-consensus 1" ++ [10],
   tmpLine (ascii "valid-after " ++ fmtTime lib cons.validAfter),
   tmpLine (ascii "fresh-until " ++ fmtTime lib cons.freshUntil),
   tmpLine (ascii "valid-until " ++ fmtTime lib cons.validUntil),
   knownFlagsLine ++ [10],
   tmpLine (ascii "shared-rand-current-value " ++ b64enc lib cons.srvCurrent),
   tmpLine (ascii "shared-rand-previous-value " ++ b64enc lib cons.srvPrevious)]

variable (sig : DaSig) (d : NodeDescriptor)

/-- The address up to a colon. -/
def ipStr : Bytes := ((cString d.address).take 63).takeWhile (· != 58)

def nicknameOrUnnamed : Bytes :=
  if nonEmpty d.nickname then cString d.nickname else ascii "Unnamed"

def relayLine : Bytes :=
  ascii "n " ++ nicknameOrUnnamed d ++ [32] ++ b64enc lib d.identityPk ++ [32] ++
    fmtTime lib d.published ++ [32] ++ ipStr d ++ [32] ++ decimal d.orPort.toNat ++ [32] ++
    decimal d.dirPort.toNat

def flagsLine : Bytes :=
  ascii "s" ++ (flagTable.filter fun row => Flags.has d.flags row.1).flatMap fun row => 32 :: row.2

def bandwidthLine : Bytes :=
  ascii "w Bandwidth=" ++ decimal d.bandwidth.toNat ++
    (if d.verifiedBandwidth > 0 then ascii " Measured=" ++ decimal d.verifiedBandwidth.toNat
      else []) ++
    ascii " Features=" ++ decimal d.features.toNat

def geoLine : Bytes :=
  ascii "g " ++ unpackCountry d.countryCode ++ [32] ++ decimal d.asNumber.toNat

/-- The lines of a relay before that of the KEM key. -/
def relayTextsBefore : List Bytes :=
  [tmpLine (relayLine lib d), tmpLine (ascii "o " ++ b64enc lib d.onionPk)] ++
    if nonEmpty d.address6 then [tmpLine (ascii "a " ++ cString d.address6)] else []

/-- The lines of a relay after that of the KEM key. The line of the flags is put together without
the formatter. -/
def relayTextsAfter : List Bytes :=
  [flagsLine d ++ [10], tmpLine (bandwidthLine d)] ++
    (if d.countryCode ≠ 0 then [tmpLine (geoLine d)] else []) ++
    (if d.familyId ≠ Field.zero 32 then [tmpLine (ascii "f " ++ b64enc lib d.familyId)] else []) ++
    [tmpLine (ascii "p " ++ b64enc lib d.signature)] ++
    if nonEmpty d.contactInfo then [tmpLine (ascii "c " ++ cString d.contactInfo)] else []

/-- The line of the KEM key. Its first two characters are written before there is a check, but a
buffer that is too short for them fails the check that follows. -/
def kemSerialize (kemPk : Field 1184) : Option Bytes := do
  let out ← bcat outLen (out ++ ascii "k ") (b64enc lib kemPk)
  if out.length + 1 > outLen then none else some (out ++ [10])

def relaySerialize : Option Bytes := do
  let out ← (relayTextsBefore lib d).foldlM (bcat outLen) out
  let out ← if Flags.has d.features nodeFeaturePq then kemSerialize lib outLen out d.kemPk
    else some out
  (relayTextsAfter lib d).foldlM (bcat outLen) out

/-- Appends a line if it fits, and goes on without it otherwise. -/
def appendFitting (s : Bytes) : Bytes :=
  if out.length + s.length + 1 ≤ outLen then out ++ s ++ [10] else out

def daSignatureLine : Bytes :=
  ascii "directory-signature " ++ b64enc lib sig.identityPk ++ [32] ++ b64enc lib sig.signature

def pqDaSignatureLine : Bytes :=
  ascii "pq-directory-signature " ++ b64enc lib sig.identityPk

def daSigSerialize : Option Bytes := do
  let out ← bcat outLen out (tmpLine (daSignatureLine lib sig))
  if sig.hasPq then
    let out ← bcat outLen out (tmpLine (pqDaSignatureLine lib sig))
    let out := appendFitting outLen out (b64enc lib sig.pqPk)
    some (appendFitting outLen out (b64enc lib sig.pqSignature))
  else some out

def weightsLine (w : Fin 8 → Int32) : Bytes :=
  ascii "bandwidth-weights" ++
    (List.finRange 8).flatMap fun i => 32 :: (weightKey i ++ intNumeral 0 (w i).toInt)

/-- Writes the text into a buffer of `outLen` bytes. -/
def moorConsensusSerialize (cons : FullConsensus) : Option Bytes := do
  let out ← (headerTexts lib cons).foldlM (bcat outLen) []
  let out ← cons.relays.foldlM (relaySerialize lib outLen) out
  let out ← bcat outLen out (tmpLine (weightsLine cons.bwWeights))
  let out ← bcat outLen out (ascii "directory-footer" ++ [10])
  cons.daSigs.foldlM (daSigSerialize lib outLen) out

def moorConsensusWireSize (cons : Consensus) : ℕ :=
  512 + 64 + cons.relays.length * 2400 +
    (cons.daSigs.map fun sig => 256 + if sig.hasPq then 8192 else 0).sum + 256

/-! ### Reading lines -/

/-- The lines of a text, each with its newline. -/
def splitLines : Bytes → List Bytes
  | [] => []
  | c :: s =>
    if c = 10 then [10] :: splitLines s
    else match splitLines s with
      | [] => [[c]]
      | line :: lines => (c :: line) :: lines

/-- What a line is in its buffer of 8192 bytes: the newline is cut off, and a carriage return at
the place before the last one. -/
def lineText (raw : Bytes) : Bytes :=
  let line := raw.take 8191
  let copy := line.length
  let line := if (line)[copy - 1]? = some 10 then line.set (copy - 1) 0 else line
  let line := if copy > 1 ∧ (line)[copy - 2]? = some 13 then line.set (copy - 2) 0 else line
  line.takeWhile (· != 0)

/-- What a line is for. -/
inductive LineKind
  | version | validAfter | freshUntil | validUntil | knownFlags | srvCurrent | srvPrevious
  | relay | onion | address6 | kem | flags | bandwidth | geo | family | signature | contact
  | weights | footer | daSignature | pqDaSignature | other
  deriving DecidableEq

/-- The keywords in the order in which they are compared. The length compared leaves out the blank
after the keywords of signatures. -/
def lineKinds : List (Bytes × LineKind) :=
  [(ascii "moor-consensus ", .version), (ascii "valid-after ", .validAfter),
   (ascii "fresh-until ", .freshUntil), (ascii "valid-until ", .validUntil),
   (ascii "known-flags ", .knownFlags), (ascii "shared-rand-current-value ", .srvCurrent),
   (ascii "shared-rand-previous-value ", .srvPrevious), (ascii "n ", .relay), (ascii "o ", .onion),
   (ascii "a ", .address6), (ascii "k ", .kem), (ascii "s ", .flags), (ascii "w ", .bandwidth),
   (ascii "g ", .geo), (ascii "f ", .family), (ascii "p ", .signature), (ascii "c ", .contact),
   (ascii "bandwidth-weights ", .weights), (ascii "directory-footer", .footer),
   (ascii "directory-signature", .daSignature), (ascii "pq-directory-signature", .pqDaSignature)]

/-- The kind of a line. No line starts with two of the keywords, so that a line which is out of
place falls through all the rest. -/
def lineKind (line : Bytes) : LineKind :=
  ((lineKinds.find? fun k => k.1.isPrefixOf line).map Prod.snd).getD .other

/-- The parser: the consensus so far, whether the footer has begun, and the relay it is at. -/
structure TextState extends FullConsensus where
  inFooter : Bool
  currentRelay : Option ℕ

namespace TextState

theorem length_relays_le (st : TextState) : st.relays.length ≤ moorMaxRelays := st.relays_le

theorem length_daSigs_le (st : TextState) : st.daSigs.length ≤ moorMaxDaAuthorities := st.daSigs_le

/-- A change of the relay that the parser is at. -/
def onRelay (f : NodeDescriptor → NodeDescriptor) (st : TextState) : TextState :=
  if st.inFooter then st
  else match st.currentRelay with
    | none => st
    | some i => { st with
        relays := st.relays.modify i f
        relays_le := (List.length_modify f st.relays i).trans_le st.relays_le }

/-- A change of a signature. -/
def onDaSig (i : ℕ) (f : DaSig → DaSig) (st : TextState) : TextState :=
  { st with
    daSigs := st.daSigs.modify i f
    daSigs_le := (List.length_modify f st.daSigs i).trans_le st.daSigs_le }

/-- A new relay, if there is room. -/
def addRelay (d : NodeDescriptor) (st : TextState) : Option TextState :=
  if h : st.relays.length + 1 > moorMaxRelays then none
  else some { st with
    relays := st.relays ++ [d]
    relays_le := by simpa using h
    currentRelay := some st.relays.length }

/-- A new signature, if there is room. -/
def addDaSig (sig : DaSig) (st : TextState) : TextState :=
  if h : st.daSigs.length ≥ moorMaxDaAuthorities then st
  else { st with
    daSigs := st.daSigs ++ [sig]
    daSigs_le := by
      rw [List.length_append]
      exact Nat.not_le.mp h }

end TextState

/-! ### Reading -/

def relayFormat : List Directive :=
  [.word 63, .blank, .word 63, .blank, .word 15, .blank, .word 15, .blank, .word 63, .blank, .uint,
   .blank, .uint]

variable (lib : TextLib) (stack : Field 32) (args : Bytes)

/-- The relay of a line, zero but for what the line says. -/
def parseRelay (args : Bytes) : NodeDescriptor :=
  match scan relayFormat args with
  | [.word nickname, .word idB64, .word dateS, .word timeS, .word ipS, .num orPort, .num dirPort] =>
    let nick : Field 32 := Arr.ofList 32 0 (nickname.take 31)
    { NodeDescriptor.zero with
      nickname := if cString nick = ascii "Unnamed" then nick.set 0 0 else nick
      identityPk := (b64dec lib (Field.zero 32) idB64).1
      published := parseTime lib ((dateS ++ [32] ++ timeS).take 39)
      address := Arr.ofList 64 0 (ipS.take 63)
      orPort := UInt16.ofNat orPort.toNat
      dirPort := UInt16.ofNat dirPort.toNat }
  | _ => NodeDescriptor.zero

def numberAfter (key line : Bytes) : Option ℕ :=
  (strstr key line).map fun p => ((strtoul (p.drop key.length)).map Prod.fst).getD 0

def parseBandwidth (line : Bytes) (d : NodeDescriptor) : NodeDescriptor :=
  { d with
    bandwidth := UInt64.ofNat ((numberAfter (ascii "Bandwidth=") line).getD 0)
    verifiedBandwidth := UInt64.ofNat ((numberAfter (ascii "Measured=") line).getD 0)
    features := match numberAfter (ascii "Features=") line with
      | some features => UInt32.ofNat features
      | none => d.features }

def parseKem (b64 : Bytes) (d : NodeDescriptor) : NodeDescriptor :=
  let decoded := b64dec lib d.kemPk b64
  { d with
    kemPk := decoded.1
    features := if decoded.2 = 1184 then d.features ||| nodeFeaturePq else d.features }

def parseGeo (d : NodeDescriptor) : NodeDescriptor :=
  match scan [.word 2, .blank, .uint] args with
  | [.word cc, .num asn] =>
    { d with countryCode := packCountry cc, asNumber := UInt32.ofNat asn.toNat }
  | [.word cc] => { d with countryCode := packCountry cc, asNumber := 0 }
  | _ => d

def weightsFormat : List Directive :=
  (List.finRange 8).flatMap fun i =>
    (if i = bwWgg then [] else [.blank]) ++ (weightKey i).map .literal ++ [.int]

/-- The weights, if all are there. -/
def scanWeights : Option (Fin 8 → Int32) :=
  match scan weightsFormat args with
  | [.num wgg, .num wgd, .num wee, .num wed, .num wmg, .num wme, .num wmm, .num wmd] =>
    some fun i => Int32.ofInt (![wgg, wgd, wee, wed, wmg, wme, wmm, wmd] i)
  | _ => none

def parseWeights (w : Fin 8 → Int32) : Fin 8 → Int32 := (scanWeights args).getD w

/-- A signature, unless there is one of the same authority. The buffer for the key is not
initialised. -/
def parseDaSignature (st : TextState) : TextState :=
  match scan [.word 63, .blank, .word 127] args with
  | [.word pkB64, .word sigB64] =>
    let pk := (b64dec lib stack pkB64).1
    if st.daSigs.any fun sig => sig.identityPk = pk then st
    else st.addDaSig {
      signature := (b64dec lib (Field.zero 64) sigB64).1
      identityPk := pk
      pqSignature := Field.zero 3309
      pqPk := Field.zero 1952
      hasPq := false }
  | _ => st

/-- The signature that the PQ parts in the next two lines belong to. -/
def pqDaSignatureSlot (st : TextState) : Option ℕ :=
  match scan [.word 63] args with
  | [.word pkB64] =>
    st.daSigs.findIdx? fun sig => sig.identityPk = (b64dec lib stack pkB64).1
  | _ => none

/-- What becomes of a line: the document is refused, the parser goes on, or the next two lines are
the PQ parts of a signature. -/
inductive LineResult
  | malformed
  | next (st : TextState)
  | pqParts (found : ℕ)

def parseLine (line : Bytes) (st : TextState) : LineResult :=
  match lineKind line with
  | .version | .knownFlags | .other => .next st
  | .validAfter => .next { st with validAfter := parseTime lib (line.drop 12) }
  | .freshUntil => .next { st with freshUntil := parseTime lib (line.drop 12) }
  | .validUntil => .next { st with validUntil := parseTime lib (line.drop 12) }
  | .srvCurrent =>
    let decoded := b64dec lib st.srvCurrent (line.drop 26)
    if decoded.2 = 0 then .malformed else .next { st with srvCurrent := decoded.1 }
  | .srvPrevious =>
    let decoded := b64dec lib st.srvPrevious (line.drop 27)
    if decoded.2 = 0 then .malformed else .next { st with srvPrevious := decoded.1 }
  | .relay =>
    if st.inFooter then .next st
    else match st.addRelay (parseRelay lib (line.drop 2)) with
      | some st => .next st
      | none => .malformed
  | .onion =>
    .next (st.onRelay fun d => { d with onionPk := (b64dec lib d.onionPk (line.drop 2)).1 })
  | .address6 =>
    .next (st.onRelay fun d => { d with address6 := Arr.ofList 64 0 ((line.drop 2).take 63) })
  | .kem => .next (st.onRelay (parseKem lib (line.drop 2)))
  | .flags => .next (st.onRelay fun d => { d with flags := parseFlags line })
  | .bandwidth => .next (st.onRelay (parseBandwidth line))
  | .geo => .next (st.onRelay (parseGeo (line.drop 2)))
  | .family =>
    .next (st.onRelay fun d => { d with familyId := (b64dec lib d.familyId (line.drop 2)).1 })
  | .signature =>
    .next (st.onRelay fun d => { d with signature := (b64dec lib d.signature (line.drop 2)).1 })
  | .contact =>
    -- The text and its NUL are copied over what is there.
    let text := (line.drop 2).take 127 ++ [0]
    .next (st.onRelay fun d => { d with
      contactInfo := Arr.ofList 128 0 (text ++ d.contactInfo.val.drop text.length) })
  | .weights => .next { st with bwWeights := parseWeights (line.drop 18) st.bwWeights }
  | .footer => .next { st with inFooter := true, currentRelay := none }
  | .daSignature =>
    if !st.inFooter || moorMaxDaAuthorities ≤ st.daSigs.length then .next st
    else .next (parseDaSignature lib stack (line.drop 19) st)
  | .pqDaSignature =>
    if !st.inFooter then .next st
    else match pqDaSignatureSlot lib stack (line.drop 22) st with
      | some found => .pqParts found
      | none => .next st

def parseLines (lib : TextLib) (stack : Field 32) : List Bytes → TextState → Option TextState
  | [], st => some st
  | raw :: lines, st =>
    match parseLine lib stack (lineText raw) st with
    | .malformed => none
    | .next st => parseLines lib stack lines st
    | .pqParts found =>
      match lines with
      | [] => some st
      | pqPk :: lines =>
        let st := st.onDaSig found fun sig =>
          { sig with pqPk := (b64dec lib sig.pqPk (lineText pqPk)).1 }
        match lines with
        | [] => some st
        | pqSig :: lines =>
          parseLines lib stack lines (st.onDaSig found fun sig =>
            { sig with
              pqSignature := (b64dec lib sig.pqSignature (lineText pqSig)).1
              hasPq := true })

/-- The parser before the first line. -/
def TextState.start (cons : FullConsensus) : TextState :=
  { cons with
    relays := []
    daSigs := []
    relays_le := Nat.zero_le _
    daSigs_le := Nat.zero_le _
    srvCurrent := Field.zero 32
    srvPrevious := Field.zero 32
    inFooter := false
    currentRelay := none }

/-- Reads a text into a consensus, of which the times and the weights are kept where the text has
none. The result comes with the number of bytes read. -/
def moorConsensusDeserialize (cons : FullConsensus) (data : Bytes) : Option (FullConsensus × ℕ) :=
  if data.length < 20 then none
  else if data.length < 17 ∨ data.take 14 ≠ ascii "moor-consensus" then none
  else do
    let st ← parseLines lib stack (splitLines data) (.start cons)
    if st.validAfter = 0 then none else some (st.toFullConsensus, data.length)

end Moor
