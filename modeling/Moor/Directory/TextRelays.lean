import Mathlib.Data.List.Find
import Moor.Directory.TextLines

/-!
# The relays of a consensus are read back

A relay is written as up to ten lines. A name with a blank in it, an address that starts with a
colon, a year of five digits or a country code that starts with a newline disturbs them; every
other relay is read back, without the port in its address, without flags that have no word, and
with a KEM key only if it is a PQ relay.
-/

namespace Moor

open Codec Text Scanf List TextState Flags

/-! ### Relays -/

section

variable {n : ℕ} {f : Field n} {bad : UInt8 → Bool}

theorem ne_zero_of_mem_cString {c : UInt8} (h : c ∈ cString f) : c ≠ 0 := by
  simpa using @mem_takeWhile_imp _ (· != 0) _ _ h

theorem length_cString_le (f : Field n) : (cString f).length ≤ n :=
  (takeWhile_sublist _).length_le.trans_eq f.2

/-- A terminated text is shorter than its field. -/
theorem IsText.length_cString_lt (h : IsText bad f) (hn : 0 < n) : (cString f).length < n := by
  refine lt_of_le_of_ne (length_cString_le f) ?_
  intro hall
  have hval : cString f = f.val := (takeWhile_sublist _).eq_of_length (hall.trans f.2.symm)
  have hlast : f.val[n - 1]? = some 0 := by
    have hset : f.val.set (n - 1) 0 = f.val := congrArg Subtype.val h.1
    rw [← hset, getElem?_set_self (by omega)]
  exact ne_zero_of_mem_cString (hval ▸ mem_of_getElem? hlast : 0 ∈ cString f) rfl

theorem IsText.notBad (h : IsText bad f) {c : UInt8} (hc : c ∈ cString f) : bad c = false := by
  simpa using any_eq_false.mp h.2 c hc

theorem IsText.printable (h : IsText badTextChar f) : Printable (cString f) := by
  intro c hc
  have hgood := h.notBad hc
  simp only [badTextChar, Bool.or_eq_false_iff, decide_eq_false_iff_not] at hgood
  exact UInt8.not_lt.mp hgood.1

theorem IsText.graphic (h : IsText badAddressChar f) : Graphic (cString f) := by
  intro c hc
  have hgood := h.notBad hc
  simp only [badAddressChar, Bool.or_eq_false_iff, decide_eq_false_iff_not] at hgood
  exact UInt8.lt_of_le_of_ne (UInt8.not_lt.mp hgood.1.1) (Ne.symm (by simpa using hgood.1.2))

/-- A text that is copied into a zeroed field. -/
theorem cString_ofList {s : Bytes} (h : 0 ∉ s) (hlen : s.length ≤ n) :
    cString (Arr.ofList n 0 s) = s := by
  have hne : ∀ c ∈ s, (c != 0) = true := by
    intro c hc
    rw [bne_iff_ne]
    rintro rfl
    exact h hc
  rw [cString, Arr.val_ofList_of_le 0 hlen, takeWhile_append_of_pos hne]
  cases n - s.length with
  | zero => simp
  | succ k => simp [replicate_succ]

theorem nonEmpty_iff (f : Field n) : nonEmpty f = true ↔ cString f ≠ [] := by
  unfold nonEmpty cString
  cases f.val with
  | nil => simp
  | cons c s => by_cases hc : c = 0 <;> simp [hc]

end

/-- What a relay must not have to be read back: a blank in its name or the name that stands for
none, an address without anything before a colon, a time after the year 9999, and a newline at the
start of its country code. -/
structure NodeDescriptor.TextSafe (d : NodeDescriptor) : Prop where
  nickname_blank : 32 ∉ cString d.nickname
  nickname_ne : cString d.nickname ≠ ascii "Unnamed"
  address_ne : (cString d.address).takeWhile (· != 58) ≠ []
  published : d.published < year10000
  country : d.countryCode.toNat >>> 8 ≠ 10

/-- A relay whose lines are read back. -/
structure NodeDescriptor.TextReadable (d : NodeDescriptor) : Prop extends d.TextSafe where
  texts : TextsAccepted d

section RelayLine

variable {d : NodeDescriptor} (h : d.TextReadable)
include h

theorem graphic_nickname : Graphic (cString d.nickname) := by
  intro c hc
  refine UInt8.lt_of_le_of_ne (h.texts.nickname.printable c hc) ?_
  rintro rfl
  exact h.nickname_blank hc

theorem ipStr_eq : ipStr d = (cString d.address).takeWhile (· != 58) := by
  have hlen := h.texts.address.length_cString_lt (by decide)
  rw [ipStr, take_of_length_le (by omega)]

theorem graphic_ipStr : Graphic (ipStr d) := by
  rw [ipStr_eq h]
  exact fun c hc => h.texts.address.graphic c (takeWhile_sublist _ |>.subset hc)

omit h in
theorem length_ipStr_le (d : NodeDescriptor) : (ipStr d).length ≤ 63 :=
  (takeWhile_sublist _).length_le.trans (length_take_le _ _)

theorem graphic_nicknameOrUnnamed : Graphic (nicknameOrUnnamed d) := by
  unfold nicknameOrUnnamed
  split
  · exact graphic_nickname h
  · decide

theorem length_nicknameOrUnnamed_le : (nicknameOrUnnamed d).length ≤ 31 := by
  unfold nicknameOrUnnamed
  split
  · exact Nat.le_of_lt_succ (h.texts.nickname.length_cString_lt (by decide))
  · decide

omit h in
theorem nicknameOrUnnamed_ne_nil (d : NodeDescriptor) : nicknameOrUnnamed d ≠ [] := by
  unfold nicknameOrUnnamed
  split
  · rename_i hne
    exact (nonEmpty_iff _).mp hne
  · decide

theorem scan_relayLine (lib : TextLib) :
    scan relayFormat ((relayLine lib d).drop 2) = [.word (nicknameOrUnnamed d),
      .word (b64enc lib d.identityPk), .word (dateText lib d.published),
      .word (clockText lib d.published), .word (ipStr d), .num d.orPort.toNat,
      .num d.dirPort.toNat] := by
  have hport : ∀ p : UInt16, p.toNat < 2 ^ 32 := fun p => p.toNat_lt.trans (by decide)
  have hspace : ∀ s : Bytes, ∀ c ∈ (32 :: s).head?, isSpace c = true := by
    intro s c hc
    rw [← Option.some_inj.mp hc]
    rfl
  have hdate : dateText lib d.published ≠ [] := by
    rw [← length_pos_iff, length_dateText lib h.published]
    decide
  have hclock : clockText lib d.published ≠ [] := by
    rw [← length_pos_iff, length_clockText lib h.published]
    decide
  have hargs : (relayLine lib d).drop 2 = nicknameOrUnnamed d ++ 32 :: (b64enc lib d.identityPk ++
      32 :: (dateText lib d.published ++ 32 :: (clockText lib d.published ++ 32 :: (ipStr d ++
      32 :: (decimal d.orPort.toNat ++ 32 :: (decimal d.dirPort.toNat ++ [])))))) := by
    simp only [relayLine, fmtTime_eq lib h.published, append_assoc, cons_append,
      nil_append, append_nil]
    exact drop_left' rfl
  rw [hargs, relayFormat,
    scan_word _ (nicknameOrUnnamed_ne_nil d)
      ((length_nicknameOrUnnamed_le h).trans (by decide)) (graphic_nicknameOrUnnamed h).isSpace
      (hspace _),
    scan_blank _ ((graphic_b64enc _).isSpace_head (b64enc_ne_nil _ (by decide)) _),
    scan_word _ (b64enc_ne_nil _ (by decide)) (by rw [length_b64enc]; decide)
      (graphic_b64enc _).isSpace (hspace _),
    scan_blank _ ((graphic_dateText lib _).isSpace_head hdate _),
    scan_word _ hdate (by rw [length_dateText lib h.published]; decide)
      (graphic_dateText lib _).isSpace (hspace _),
    scan_blank _ ((graphic_clockText lib _).isSpace_head hclock _),
    scan_word _ hclock (by rw [length_clockText lib h.published]; decide)
      (graphic_clockText lib _).isSpace (hspace _),
    scan_blank _ ((graphic_ipStr h).isSpace_head (ipStr_eq h ▸ h.address_ne) _),
    scan_word _ (ipStr_eq h ▸ h.address_ne) (length_ipStr_le d) (graphic_ipStr h).isSpace
      (hspace _),
    scan_blank _ ((graphic_decimal _).isSpace_head (decimal_ne_nil _) _),
    scan_uint _ (hport _) (notDigit_head rfl _),
    scan_blank _ ((graphic_decimal _).isSpace_head (decimal_ne_nil _) _),
    scan_uint _ (hport _) (by simp), scan]

omit h in
/-- The relay after its first line, with what the later lines may leave at zero. -/
structure RelayHead (d e : NodeDescriptor) : Prop where
  identityPk : e.identityPk = d.identityPk
  published : e.published = d.published
  address : cString e.address = (cString d.address).takeWhile (· != 58)
  orPort : e.orPort = d.orPort
  dirPort : e.dirPort = d.dirPort
  nickname : cString e.nickname = cString d.nickname
  kemPk : e.kemPk = Field.zero 1184
  flags : e.flags = 0
  familyId : e.familyId = Field.zero 32

theorem relayHead_parseRelay (lib : TextLib) :
    RelayHead d (parseRelay lib ((relayLine lib d).drop 2)) := by
  have hdate : ((dateText lib d.published ++ [32] ++ clockText lib d.published).take 39)
      = fmtTime lib d.published := by
    rw [fmtTime_eq lib h.published, append_assoc, singleton_append]
    refine take_of_length_le ?_
    rw [length_append, length_cons, length_dateText lib h.published,
      length_clockText lib h.published]
    decide
  have hnn : (nicknameOrUnnamed d).take 31 = nicknameOrUnnamed d :=
    take_of_length_le (length_nicknameOrUnnamed_le h)
  have hip : (ipStr d).take 63 = ipStr d := take_of_length_le (length_ipStr_le d)
  have haddress : cString (Arr.ofList 64 0 (ipStr d)) = ipStr d := by
    refine cString_ofList ?_ ((length_ipStr_le d).trans (by decide))
    exact fun hmem => absurd (graphic_ipStr h 0 hmem) (by decide)
  have hnick : cString (Arr.ofList 32 0 (nicknameOrUnnamed d)) = nicknameOrUnnamed d := by
    refine cString_ofList ?_ ((length_nicknameOrUnnamed_le h).trans (by decide))
    exact fun hmem => absurd (graphic_nicknameOrUnnamed h 0 hmem) (by decide)
  simp only [parseRelay, scan_relayLine h lib, hnn, hip, hdate, parseTime_fmtTime lib h.published,
    b64dec_b64enc, Int.toNat_natCast, UInt16.ofNat_toNat, hnick]
  refine ⟨rfl, rfl, haddress.trans (ipStr_eq h), rfl, rfl, ?_, rfl, rfl, rfl⟩
  unfold nicknameOrUnnamed
  split
  · rename_i hne
    have hname : nicknameOrUnnamed d = cString d.nickname := if_pos hne
    rw [if_neg h.nickname_ne, ← hname, hnick]
  rename_i hempty
  rw [nonEmpty_iff, not_not] at hempty
  rw [if_pos rfl, hempty]
  rfl

end RelayLine

/-! ### The relay that the parser is at -/

theorem modify_concat {α : Type*} (l : List α) (a : α) (f : α → α) :
    (l ++ [a]).modify l.length f = l ++ [f a] := by
  induction l with
  | nil => rfl
  | cons b l ih => simp [ih]

namespace TextState

/-- The state after a relay was added. -/
def atRelay (st : TextState) (d : NodeDescriptor) (h : st.relays.length + 1 ≤ moorMaxRelays) :
    TextState :=
  { st with
    relays := st.relays ++ [d]
    relays_le := by simpa using h
    daSigs_le := st.length_daSigs_le
    currentRelay := some st.relays.length }

variable {st : TextState} {d : NodeDescriptor} {h : st.relays.length + 1 ≤ moorMaxRelays}

theorem addRelay_eq : st.addRelay d = some (st.atRelay d h) := dif_neg (by omega)

theorem onRelay_atRelay (hfoot : st.inFooter = false) (f : NodeDescriptor → NodeDescriptor) :
    (st.atRelay d h).onRelay f = st.atRelay (f d) h := by
  simp [onRelay, atRelay, hfoot, modify_concat]

end TextState

section LinesOfRelay

variable {lib : TextLib} {stack : Field 32} {st : TextState} {d e : NodeDescriptor}
  {hroom : st.relays.length + 1 ≤ moorMaxRelays} (s : Bytes)

def relayLetters : List (UInt8 × LineKind) :=
  [(110, .relay), (111, .onion), (97, .address6), (107, .kem), (115, .flags), (119, .bandwidth),
   (103, .geo), (102, .family), (112, .signature), (99, .contact)]

/-- A keyword is two characters long or has no blank in second place, so that two characters decide
on a line that starts with a letter and a blank. -/
theorem lineKind_of_letter {c : UInt8} {kind : LineKind} (h : (c, kind) ∈ relayLetters) :
    lineKind (c :: 32 :: s) = kind := by
  have hletters : ∀ p ∈ relayLetters, lineKind [p.1, 32] = p.2 := by decide
  have hkeys : ∀ k ∈ lineKinds, k.1.length = 2 ∨ k.1.tail.head? ≠ some 32 := by decide
  have hsame : ∀ k ∈ lineKinds,
      k.1.isPrefixOf (c :: 32 :: s) = k.1.isPrefixOf [c, 32] := by
    intro k hk
    rcases k with ⟨_ | ⟨a, _ | ⟨b, t⟩⟩, kind⟩
    · rfl
    · simp [isPrefixOf]
    rcases hkeys _ hk with hlen | hblank
    · obtain rfl : t = [] := by simpa using hlen
      simp [isPrefixOf]
    · have hb : (b == 32) = false := by simpa using hblank
      simp [isPrefixOf, hb]
  refine .trans ?_ (hletters _ h)
  rw [lineKind, lineKind, find?_congr hsame]

theorem parseLine_onion : parseLine lib stack (ascii "o " ++ s) st
    = .next (st.onRelay fun d => { d with onionPk := (b64dec lib d.onionPk s).1 }) := rfl

theorem parseLine_kem : parseLine lib stack (ascii "k " ++ s) st
    = .next (st.onRelay (parseKem lib s)) := rfl

theorem parseLine_family : parseLine lib stack (ascii "f " ++ s) st
    = .next (st.onRelay fun d => { d with familyId := (b64dec lib d.familyId s).1 }) := rfl

theorem parseLine_signature : parseLine lib stack (ascii "p " ++ s) st
    = .next (st.onRelay fun d => { d with signature := (b64dec lib d.signature s).1 }) := rfl

theorem parseLine_relay (hfoot : st.inFooter = false) :
    parseLine lib stack (ascii "n " ++ s) st
      = .next (st.atRelay (parseRelay lib s) hroom) := by
  have hkind : lineKind (ascii "n " ++ s) = .relay := rfl
  simp only [parseLine, hkind, hfoot, Bool.false_eq_true, if_false]
  rw [@addRelay_eq _ _ hroom]
  rfl

end LinesOfRelay

/-! ### The line of bandwidths -/

section

variable {key line : Bytes} {a : UInt8} {needle : Bytes} (hkey : key = a :: needle)
include hkey

/-- The number after the first occurrence of a key. -/
theorem numberAfter_eq {t rest : Bytes} (h : a ∉ t) {n : ℕ} (hn : n < 2 ^ 64)
    (hrest : ∀ c ∈ rest.head?, isDigit c = false) :
    numberAfter key (t ++ (key ++ (decimal n ++ rest))) = some n := by
  subst hkey
  rw [numberAfter, strstr_append _ h, strstr_self, Option.map_some, drop_left,
    strtoul_decimal hn hrest, Option.map_some, Option.getD_some]

theorem numberAfter_of_notMem (h : a ∉ line) : numberAfter key line = none := by
  subst hkey
  simp [numberAfter, strstr_of_notMem _ h]

end

/-- The part of the line with the measured bandwidth. -/
def measuredText (d : NodeDescriptor) : Bytes :=
  if d.verifiedBandwidth > 0 then 32 :: (ascii "Measured=" ++ decimal d.verifiedBandwidth.toNat)
  else []

variable (d : NodeDescriptor)

theorem bandwidthLine_eq :
    bandwidthLine d = ascii "w " ++ (ascii "Bandwidth=" ++ (decimal d.bandwidth.toNat ++
      (measuredText d ++ 32 :: (ascii "Features=" ++ (decimal d.features.toNat ++ []))))) := by
  have hbandwidth : ascii "w Bandwidth=" = ascii "w " ++ ascii "Bandwidth=" := rfl
  have hmeasured : ascii " Measured=" = 32 :: ascii "Measured=" := rfl
  have hfeatures : ascii " Features=" = 32 :: ascii "Features=" := rfl
  rw [bandwidthLine, measuredText, hbandwidth, hmeasured, hfeatures]
  simp

theorem notMem_measuredText {c : UInt8} (hdigit : isDigit c = false) (hkey : c ∉ ascii " Measured=")
    (d : NodeDescriptor) : c ∉ measuredText d := by
  unfold measuredText
  split
  · rw [← cons_append, mem_append, not_or]
    exact ⟨hkey, notMem_decimal hdigit _⟩
  · exact not_mem_nil

theorem numberAfter_bandwidth :
    numberAfter (ascii "Bandwidth=") (bandwidthLine d) = some d.bandwidth.toNat := by
  rw [bandwidthLine_eq]
  refine numberAfter_eq rfl (by decide) d.bandwidth.toNat_lt ?_
  unfold measuredText
  split
  · exact notDigit_head rfl _
  · exact notDigit_head rfl _

theorem numberAfter_features :
    numberAfter (ascii "Features=") (bandwidthLine d) = some d.features.toNat := by
  have hline : bandwidthLine d = (ascii "w " ++ ascii "Bandwidth=" ++ decimal d.bandwidth.toNat ++
      measuredText d ++ [32]) ++ (ascii "Features=" ++ (decimal d.features.toNat ++ [])) := by
    rw [bandwidthLine_eq]
    simp
  rw [hline]
  refine numberAfter_eq rfl ?_ (d.features.toNat_lt.trans (by decide)) (by simp)
  simp only [mem_append, not_or]
  exact ⟨⟨⟨⟨by decide, by decide⟩, notMem_decimal rfl _⟩,
    notMem_measuredText rfl (by decide) d⟩, by decide⟩

theorem numberAfter_measured :
    (numberAfter (ascii "Measured=") (bandwidthLine d)).getD 0 = d.verifiedBandwidth.toNat := by
  rw [bandwidthLine_eq, measuredText]
  split
  · have hline := @numberAfter_eq (ascii "Measured=") 77 (ascii "easured=") rfl
      (ascii "w " ++ ascii "Bandwidth=" ++ decimal d.bandwidth.toNat ++ [32])
      (32 :: (ascii "Features=" ++ (decimal d.features.toNat ++ []))) (by
        simp only [mem_append, not_or]
        exact ⟨⟨⟨by decide, by decide⟩, notMem_decimal rfl _⟩, by decide⟩)
      _ d.verifiedBandwidth.toNat_lt (notDigit_head rfl _)
    simp only [append_assoc, cons_append, nil_append] at hline ⊢
    rw [hline, Option.getD_some]
  · rename_i hzero
    have hvbw : d.verifiedBandwidth.toNat = 0 := by
      simpa [UInt64.lt_iff_toNat_lt] using hzero
    rw [@numberAfter_of_notMem (ascii "Measured=") _ 77 (ascii "easured=") rfl, hvbw]
    · rfl
    · simp only [nil_append, append_nil, mem_append, mem_cons, not_or]
      exact ⟨by decide, by decide, notMem_decimal rfl _, by decide, by decide, notMem_decimal rfl _⟩

theorem parseBandwidth_bandwidthLine (d e : NodeDescriptor) :
    parseBandwidth (bandwidthLine d) e = { e with
      bandwidth := d.bandwidth
      verifiedBandwidth := d.verifiedBandwidth
      features := d.features } := by
  simp only [parseBandwidth, numberAfter_bandwidth, numberAfter_measured, numberAfter_features,
    Option.getD_some, UInt64.ofNat_toNat, UInt32.ofNat_toNat]

/-! ### The line of flags -/

def namedFlags : UInt32 := flagTable.foldl (fun flags row => flags ||| row.1) 0

def flagRows (d : NodeDescriptor) : List (UInt32 × Bytes) :=
  flagTable.filter fun row => has d.flags row.1

theorem foldl_flagRows :
    (flagRows d).foldl (fun flags row => flags ||| row.1) 0 = d.flags &&& namedFlags := by
  have hbits : ∀ row ∈ flagTable, ∃ k, row.1 = bit k := by
    simp only [flagTable, forall_mem_cons]
    exact ⟨⟨6, rfl⟩, ⟨7, rfl⟩, ⟨1, rfl⟩, ⟨3, rfl⟩, ⟨0, rfl⟩, ⟨8, rfl⟩, ⟨4, rfl⟩, ⟨2, rfl⟩, ⟨5, rfl⟩,
      nofun⟩
  have hfold := foldl_or_filter Prod.fst hbits d.flags 0
  rwa [UInt32.and_zero] at hfold

/-- The names of flags are words, and each stands for its own flag. -/
theorem flagTable_names : ∀ row ∈ flagTable, Graphic row.2 ∧ row.2 ≠ [] ∧ row.2.length ≤ 10 ∧
    flagTable.find? (fun row' => row'.2 == row.2) = some row := by
  decide

/-- The names of some rows, as they stand on the line, are read as these rows. -/
theorem parseFlags_rows {rows : List (UInt32 × Bytes)} (hrows : rows ⊆ flagTable)
    (hne : rows ≠ []) :
    parseFlags (ascii "s " ++ [32].intercalate (rows.map Prod.snd))
      = rows.foldl (fun flags row => flags ||| row.1) 0 := by
  have hwords : flagWords ([32].intercalate (rows.map Prod.snd)) = rows.map Prod.snd := by
    rw [flagWords, splitOn_intercalate]
    · refine filter_eq_self.mpr ?_
      simp only [forall_mem_map]
      intro row hrow
      simpa using (flagTable_names row (hrows hrow)).2.1
    · simp only [forall_mem_map]
      intro row hrow hblank
      exact absurd ((flagTable_names row (hrows hrow)).1 32 hblank) (by decide)
    · simpa using hne
  have hargs : (ascii "s " ++ [32].intercalate (rows.map Prod.snd)).drop 2
      = [32].intercalate (rows.map Prod.snd) := drop_left' rfl
  rw [parseFlags, if_pos (by simp), hargs, hwords, foldl_map]
  clear hwords hargs hne
  generalize (0 : UInt32) = flags
  induction rows generalizing flags with
  | nil => rfl
  | cons row rows ih =>
    have hrow := (flagTable_names row (hrows mem_cons_self)).2.2.2
    rw [foldl_cons, foldl_cons, hrow]
    exact ih (subset_of_cons_subset hrows) _

/-- A line with flags is the letter and the names, separated by blanks. -/
theorem flagsLine_eq {d : NodeDescriptor} (h : flagRows d ≠ []) :
    flagsLine d = ascii "s " ++ [32].intercalate ((flagRows d).map Prod.snd) := by
  have hblanks : ∀ (row : UInt32 × Bytes) rows,
      (row :: rows).flatMap (fun row => 32 :: row.2)
        = 32 :: [32].intercalate ((row :: rows).map Prod.snd) := by
    intro row rows
    induction rows generalizing row with
    | nil => simp [intercalate]
    | cons next rows ih =>
      rw [flatMap_cons, ih next]
      simp [intercalate]
  have hletter : ascii "s " = ascii "s" ++ [32] := rfl
  obtain ⟨row, rows, hrows⟩ := exists_cons_of_ne_nil h
  rw [flagsLine, ← flagRows, hrows, hblanks, hletter, append_assoc, singleton_append]

theorem length_flagsLine_le : (flagsLine d).length ≤ 100 := by
  have hsum : ((flagRows d).map fun row => (32 :: row.2).length).sum ≤ 9 * 11 := by
    refine (sum_le_card_nsmul _ 11 ?_).trans ?_
    · simp only [forall_mem_map, length_cons]
      intro row hrow
      have hlen := (flagTable_names row (mem_filter.mp hrow).1).2.2.1
      omega
    · rw [length_map, smul_eq_mul]
      exact Nat.mul_le_mul_right 11 (length_filter_le _ _)
  rw [flagsLine, length_append, length_flatMap, ← flagRows]
  exact Nat.add_le_add_left hsum 1

theorem isLine_flagsLine : IsLine (flagsLine d) := by
  refine ⟨?_, (length_flagsLine_le d).trans (by decide)⟩
  intro c hc
  rw [flagsLine, mem_append, mem_flatMap] at hc
  rcases hc with hc | ⟨row, hrow, hc⟩
  · exact (by decide : Printable (ascii "s")) c hc
  · rcases mem_cons.mp hc with rfl | hc
    · decide
    · exact (flagTable_names row (mem_filter.mp hrow).1).1.printable c hc

section RelayReads

variable {lib : TextLib} {stack : Field 32} {st : TextState} {d e : NodeDescriptor}
  {hroom : st.relays.length + 1 ≤ moorMaxRelays} (hfoot : st.inFooter = false)
include hfoot

variable {line key : Bytes} {f : NodeDescriptor → NodeDescriptor}

/-- A line that changes the relay that the parser is at. -/
theorem Reads.onRelay (hline : IsLine line)
    (hparse : ∀ {st}, parseLine lib stack line st = .next (st.onRelay f)) :
    Reads lib stack (line ++ [10]) (st.atRelay e hroom) (st.atRelay (f e) hroom) :=
  .ofLine hline (by rw [hparse, onRelay_atRelay hfoot])

/-- A line that is there under a condition. -/
theorem Reads.optional {c : Prop} [Decidable c] {e' : NodeDescriptor} (hline : c → IsLine line)
    (hparse : ∀ {st}, parseLine lib stack line st = .next (st.onRelay f)) (hthen : c → e' = f e)
    (helse : ¬ c → e' = e) :
    Reads lib stack (if c then [Moor.tmpLine line] else []).flatten (st.atRelay e hroom)
      (st.atRelay e' hroom) := by
  split
  · rename_i hc
    rw [flatten_singleton, tmpLine_eq (hline hc).length, hthen hc]
    exact .onRelay hfoot (hline hc) hparse
  · rename_i hc
    rw [helse hc]
    exact .nil

theorem reads_flags (he : e.flags = 0) : ∃ e', e' = { e with flags := d.flags &&& namedFlags } ∧
    Reads lib stack (flagsLine d ++ [10]) (st.atRelay e hroom) (st.atRelay e' hroom) := by
  refine ⟨_, rfl, ?_⟩
  have hfold := foldl_flagRows d
  by_cases hrows : flagRows d = []
  · -- The letter alone is not a line of flags.
    have hline : flagsLine d = ascii "s" := by
      rw [flagsLine, ← flagRows, hrows]
      rfl
    have hsame : { e with flags := d.flags &&& namedFlags } = e := by
      simp [← hfold, hrows, ← he]
    rw [hsame]
    refine .ofLine (isLine_flagsLine d) ?_
    rw [hline]
    rfl
  · have hparse := @parseFlags_rows (flagRows d) filter_sublist.subset hrows
    rw [← flagsLine_eq hrows, hfold] at hparse
    have hline : ∀ {st}, parseLine lib stack (flagsLine d) st = .next (st.onRelay fun e =>
        { e with flags := parseFlags (flagsLine d) }) := by
      rw [flagsLine_eq hrows]
      exact rfl
    rw [← hparse]
    exact .onRelay hfoot (isLine_flagsLine d) hline

omit hfoot in
/-- A line that starts with a letter and a blank still does so in its buffer, whatever follows. -/
theorem lineText_letter {a b : UInt8} (ha : a ≠ 0) (hb : b ≠ 0 ∧ b ≠ 13) {s : Bytes}
    (hs : s ≠ []) : ∃ t, lineText (a :: b :: s) = a :: b :: t := by
  have htake : (a :: b :: s).take 8191 = a :: b :: s.take 8189 := rfl
  obtain ⟨c, u, hu⟩ := exists_cons_of_ne_nil (by simpa using hs : s.take 8189 ≠ [])
  -- The newline and the carriage return are looked for behind the first character after the blank.
  have hnl : ∃ v, v.length = u.length + 1 ∧
      (if (a :: b :: c :: u)[u.length + 2]? = some 10 then
        (a :: b :: c :: u).set (u.length + 2) 0 else a :: b :: c :: u) = a :: b :: v := by
    split
    · exact ⟨(c :: u).set u.length 0, by simp, rfl⟩
    · exact ⟨c :: u, by simp, rfl⟩
  obtain ⟨v, hv, hnl⟩ := hnl
  have hreturn : ∃ t, (if u.length + 3 > 1 ∧ (a :: b :: v)[u.length + 1]? = some 13 then
      (a :: b :: v).set (u.length + 1) 0 else a :: b :: v) = a :: b :: t := by
    cases u with
    | nil => exact ⟨v, if_neg (by simp [hb.2])⟩
    | cons _ u =>
      split
      · exact ⟨v.set u.length 0, rfl⟩
      · exact ⟨v, rfl⟩
  obtain ⟨t, hreturn⟩ := hreturn
  refine ⟨t.takeWhile (· != 0), ?_⟩
  have hcopy : u.length + 1 + 1 + 1 - 1 = u.length + 2 ∧
      u.length + 1 + 1 + 1 - 2 = u.length + 1 := by omega
  simp only [lineText, htake, hu, length_cons, hcopy.1, hcopy.2, hnl]
  rw [hreturn, takeWhile_cons_of_pos (by simpa using ha),
    takeWhile_cons_of_pos (by simpa using hb.1)]

omit hfoot in
theorem parseGeo_eq (s : Bytes) (e : NodeDescriptor) :
    ∃ cc asn, parseGeo s e = { e with countryCode := cc, asNumber := asn } := by
  unfold parseGeo
  split
  · exact ⟨_, _, rfl⟩
  · exact ⟨_, _, rfl⟩
  · exact ⟨e.countryCode, e.asNumber, rfl⟩

omit hfoot in
theorem length_geoLine_le (d : NodeDescriptor) : (geoLine d).length ≤ 15 := by
  have hcode : (unpackCountry d.countryCode).length ≤ 2 :=
    (takeWhile_sublist _).length_le
  have hlen := length_decimal_le (by decide) (d.asNumber.toNat_lt.trans (by decide : _ < 10 ^ 10))
  simp [geoLine, length_ascii]
  omega

omit hfoot in
/-- A newline in a country code that does not start with one is its second character. -/
theorem unpackCountry_of_newline {code : UInt16} (h : code.toNat >>> 8 ≠ 10)
    (hnl : 10 ∈ unpackCountry code) : ∃ hi, hi ≠ 10 ∧ unpackCountry code = [hi, 10] := by
  have hhi : UInt8.ofNat (code.toNat >>> 8) ≠ 10 := by
    intro heq
    have hnat := congrArg UInt8.toNat heq
    rw [UInt8.toNat_ofNat', Nat.mod_eq_of_lt] at hnat
    · exact h hnat
    · have hlt := code.toNat_lt
      omega
  unfold unpackCountry at hnl ⊢
  generalize UInt8.ofNat (code.toNat >>> 8) = hi at hhi hnl ⊢
  generalize UInt8.ofNat code.toNat = lo at hnl ⊢
  refine ⟨hi, hhi, ?_⟩
  rw [takeWhile_cons] at hnl ⊢
  split at hnl
  · rename_i hnonzero
    rw [if_pos hnonzero]
    rcases mem_cons.mp hnl with heq | hmem
    · exact absurd heq.symm hhi
    · obtain rfl : 10 = lo := mem_singleton.mp (takeWhile_sublist _ |>.subset hmem)
      rfl
  · cases hnl

omit hfoot in
theorem parseLine_blank (s : Bytes) : parseLine lib stack (32 :: s) st = .next st := by
  have hkeys : ∀ k ∈ lineKinds, k.1.head? ≠ some 32 ∧ k.1 ≠ [] := by decide
  have hnone : lineKinds.find? (fun k => k.1.isPrefixOf (32 :: s)) = none := by
    refine find?_eq_none.mpr fun k hk => ?_
    obtain ⟨hhead, hne⟩ := hkeys k hk
    obtain ⟨a, t, hkey⟩ := exists_cons_of_ne_nil hne
    have ha : (a == 32) = false := by simpa [hkey] using hhead
    simp [hkey, isPrefixOf, ha]
  simp [parseLine, lineKind, hnone]

/-- The line of the country, which takes up two lines if the code ends with a newline, changes
nothing else. -/
theorem reads_geo (hcountry : d.countryCode.toNat >>> 8 ≠ 10) :
    ∃ cc asn, Reads lib stack (tmpLine (geoLine d)) (st.atRelay e hroom)
      (st.atRelay { e with countryCode := cc, asNumber := asn } hroom) := by
  have hlen := length_geoLine_le d
  have hdecimal : IsLine (32 :: decimal d.asNumber.toNat) := by
    refine ⟨printable_cons.mpr ⟨by decide, (graphic_decimal _).printable⟩, ?_⟩
    have hlen := length_decimal_le (by decide) (d.asNumber.toNat_lt.trans (by decide : _ < 10 ^ 10))
    rw [length_cons]
    omega
  -- Every line with the letter changes the country alone.
  have hletter : ∀ s : Bytes, s ≠ [] → ∃ cc asn, parseLine lib stack (lineText (103 :: 32 :: s))
      (st.atRelay e hroom)
        = .next (st.atRelay { e with countryCode := cc, asNumber := asn } hroom) := by
    intro s hs
    obtain ⟨t, ht⟩ := @lineText_letter 103 32 (by decide) (by decide) s hs
    obtain ⟨cc, asn, hgeo⟩ := parseGeo_eq t e
    refine ⟨cc, asn, ?_⟩
    rw [ht, ← hgeo, ← onRelay_atRelay hfoot]
    rfl
  rw [tmpLine_eq (hlen.trans (by decide))]
  by_cases hnl : 10 ∈ geoLine d
  · obtain ⟨hi, hhi, hunpack⟩ := unpackCountry_of_newline hcountry (by
      simp only [geoLine, mem_append] at hnl
      rcases hnl with ((hnl | hnl) | hnl) | hnl
      · exact absurd hnl (by decide)
      · exact hnl
      · exact absurd hnl (by decide)
      · exact absurd hnl (notMem_decimal rfl _))
    obtain ⟨cc, asn, hparse⟩ := hletter ([hi] ++ [10]) (by simp)
    refine ⟨cc, asn, fun rest => ?_⟩
    have htext : geoLine d ++ [10] ++ rest = [103, 32, hi] ++ 10 ::
        ((32 :: decimal d.asNumber.toNat) ++ 10 :: rest) := by
      simp only [geoLine, hunpack, append_assoc, cons_append, nil_append]
      rfl
    rw [htext, splitLines_line (by simpa using Ne.symm hhi),
      splitLines_line (hdecimal.notMem (by decide)), parseLines]
    have hraw : [103, 32, hi] ++ [10] = 103 :: 32 :: ([hi] ++ [10]) := rfl
    rw [hraw, hparse]
    dsimp only
    rw [parseLines, lineText_line hdecimal, parseLine_blank]
  · obtain ⟨cc, asn, hparse⟩ := hletter (unpackCountry d.countryCode ++ [32] ++
      decimal d.asNumber.toNat ++ [10]) (by simp)
    refine ⟨cc, asn, fun rest => ?_⟩
    rw [append_assoc, singleton_append, splitLines_line hnl, parseLines]
    have hraw : geoLine d ++ [10] = 103 :: 32 :: (unpackCountry d.countryCode ++ [32] ++
      decimal d.asNumber.toNat ++ [10]) := by
      rfl
    rw [hraw, hparse]

theorem reads_geo_optional (hcountry : d.countryCode.toNat >>> 8 ≠ 10) :
    ∃ e' countryCode asNumber, e' = { e with countryCode, asNumber } ∧ Reads lib stack
      (if d.countryCode ≠ 0 then [tmpLine (geoLine d)] else []).flatten (st.atRelay e hroom)
      (st.atRelay e' hroom) := by
  split
  · obtain ⟨cc, asn, hreads⟩ := @reads_geo lib stack st d e hroom hfoot hcountry
    exact ⟨_, cc, asn, rfl, by rwa [flatten_singleton]⟩
  · exact ⟨e, e.countryCode, e.asNumber, rfl, .nil⟩

omit hfoot in
theorem isLine_b64enc (hkey : Printable key) (hlen : key.length ≤ 30) {n : ℕ} (hn : n ≤ 3309)
    (f : Field n) : IsLine (key ++ b64enc lib f) :=
  isLine_of_graphic hkey (graphic_b64enc f) (by rw [length_b64enc]; omega)

omit hfoot in
theorem isLine_cString (hkey : Printable key) (hlen : key.length ≤ 30) {n : ℕ} {f : Field n}
    (hn : 0 < n ∧ n ≤ 128) (h : IsText badTextChar f) : IsLine (key ++ cString f) := by
  refine ⟨printable_append.mpr ⟨hkey, h.printable⟩, ?_⟩
  have hcString := h.length_cString_lt hn.1
  rw [length_append]
  omega

theorem reads_onion : ∃ e', e' = { e with onionPk := d.onionPk } ∧ Reads lib stack
    (tmpLine (ascii "o " ++ b64enc lib d.onionPk)) (st.atRelay e hroom) (st.atRelay e' hroom) := by
  refine ⟨_, rfl, .ofTmpLine (isLine_b64enc (by decide) (by decide) (by decide) _) ?_⟩
  rw [parseLine_onion, onRelay_atRelay hfoot, b64dec_b64enc]

theorem reads_signature : ∃ e', e' = { e with signature := d.signature } ∧ Reads lib stack
    (tmpLine (ascii "p " ++ b64enc lib d.signature)) (st.atRelay e hroom)
    (st.atRelay e' hroom) := by
  refine ⟨_, rfl, .ofTmpLine (isLine_b64enc (by decide) (by decide) (by decide) _) ?_⟩
  rw [parseLine_signature, onRelay_atRelay hfoot, b64dec_b64enc]

theorem reads_address6 (h : TextsAccepted d) :
    ∃ e' address6, e' = { e with address6 } ∧ Reads lib stack
      (if nonEmpty d.address6 then [tmpLine (ascii "a " ++ cString d.address6)] else []).flatten
      (st.atRelay e hroom) (st.atRelay e' hroom) :=
  ⟨_, if nonEmpty d.address6 then _ else e.address6, rfl, .optional hfoot
    (fun _ => isLine_cString (by decide) (by decide) (by decide) h.address6)
    rfl (fun hc => by rw [if_pos hc]) (fun hc => by rw [if_neg hc])⟩

theorem reads_kem :
    ∃ e' features, e' = { e with
        kemPk := if has d.features nodeFeaturePq then d.kemPk else e.kemPk
        features } ∧ Reads lib stack (if has d.features nodeFeaturePq then
        [tmpLine (ascii "k " ++ b64enc lib d.kemPk)] else []).flatten
      (st.atRelay e hroom) (st.atRelay e' hroom) :=
  ⟨_, if has d.features nodeFeaturePq then _ else e.features, rfl, .optional hfoot
    (fun _ => isLine_b64enc (by decide) (by decide) (by decide) _) (parseLine_kem _)
    (fun hc => by rw [if_pos hc, if_pos hc, parseKem, b64dec_b64enc])
    (fun hc => by rw [if_neg hc, if_neg hc])⟩

theorem reads_family :
    ∃ e', e' = { e with
        familyId := if d.familyId ≠ Field.zero 32 then d.familyId else e.familyId } ∧
      Reads lib stack (if d.familyId ≠ Field.zero 32 then
        [tmpLine (ascii "f " ++ b64enc lib d.familyId)] else []).flatten
      (st.atRelay e hroom) (st.atRelay e' hroom) :=
  ⟨_, rfl, .optional hfoot (fun _ => isLine_b64enc (by decide) (by decide) (by decide) _)
    (parseLine_family _) (fun hc => by rw [if_pos hc, b64dec_b64enc])
    (fun hc => by rw [if_neg hc])⟩

theorem reads_contact (h : TextsAccepted d) :
    ∃ e' contactInfo, e' = { e with contactInfo } ∧ Reads lib stack (if nonEmpty d.contactInfo then
        [tmpLine (ascii "c " ++ cString d.contactInfo)] else []).flatten
      (st.atRelay e hroom) (st.atRelay e' hroom) :=
  ⟨_, if nonEmpty d.contactInfo then _ else e.contactInfo, rfl, .optional hfoot
    (fun _ => isLine_cString (by decide) (by decide) (by decide) h.contactInfo)
    rfl (fun hc => by rw [if_pos hc]) (fun hc => by rw [if_neg hc])⟩

end RelayReads

/-- What the text keeps of a relay: the address up to a colon, the KEM key of a PQ relay and the
flags that have a name; all the rest that clients use. -/
structure NodeDescriptor.SameInText (d e : NodeDescriptor) : Prop where
  identityPk : e.identityPk = d.identityPk
  onionPk : e.onionPk = d.onionPk
  kemPk : e.kemPk = if has d.features nodeFeaturePq then d.kemPk else Field.zero 1184
  address : cString e.address = (cString d.address).takeWhile (· != 58)
  orPort : e.orPort = d.orPort
  dirPort : e.dirPort = d.dirPort
  flags : e.flags = d.flags &&& namedFlags
  bandwidth : e.bandwidth = d.bandwidth
  verifiedBandwidth : e.verifiedBandwidth = d.verifiedBandwidth
  features : e.features = d.features
  familyId : e.familyId = d.familyId
  nickname : cString e.nickname = cString d.nickname
  published : e.published = d.published

def relayText (lib : TextLib) (d : NodeDescriptor) : Bytes :=
  (relayTextsBefore lib d).flatten ++ (if has d.features nodeFeaturePq then
    [tmpLine (ascii "k " ++ b64enc lib d.kemPk)] else []).flatten ++ (relayTextsAfter lib d).flatten

theorem length_relayLine_le (lib : TextLib) (d : NodeDescriptor) :
    (relayLine lib d).length ≤ 175 := by
  have hport : ∀ p : UInt16, (decimal p.toNat).length ≤ 5 := fun p =>
    length_decimal_le (by decide) (p.toNat_lt.trans (by decide))
  have hor := hport d.orPort
  have hdir := hport d.dirPort
  have hname : (nicknameOrUnnamed d).length ≤ 32 := by
    unfold nicknameOrUnnamed
    split
    · exact length_cString_le _
    · decide
  have htime := length_fmtTime_le lib d.published
  have hip := length_ipStr_le d
  simp [relayLine, length_ascii, length_b64enc]
  omega

variable {lib : TextLib}

theorem isLine_relayLine {d : NodeDescriptor} (h : d.TextReadable) : IsLine (relayLine lib d) := by
  refine ⟨?_, (length_relayLine_le lib d).trans (by decide)⟩
  have hblank : Printable [32] := by decide
  have hletter : Printable (ascii "n ") := by decide
  simp only [relayLine, printable_append, fmtTime_eq lib h.published, printable_cons, hletter,
    hblank, (graphic_nicknameOrUnnamed h).printable, (graphic_b64enc d.identityPk).printable,
    (graphic_dateText lib d.published).printable, (graphic_clockText lib d.published).printable,
    (graphic_ipStr h).printable, (graphic_decimal _).printable, UInt8.le_refl, and_self]

theorem length_bandwidthLine_le (d : NodeDescriptor) : (bandwidthLine d).length ≤ 82 := by
  have hword : ∀ w : UInt64, (decimal w.toNat).length ≤ 20 := fun w =>
    length_decimal_le (by decide) (w.toNat_lt.trans (by decide))
  have hbandwidth := hword d.bandwidth
  have hmeasured : (measuredText d).length ≤ 30 := by
    have hverified := hword d.verifiedBandwidth
    unfold measuredText
    split
    · simp [length_ascii]
      omega
    · exact Nat.zero_le _
  have hfeatures : (decimal d.features.toNat).length ≤ 10 :=
    length_decimal_le (by decide) (d.features.toNat_lt.trans (by decide))
  rw [bandwidthLine_eq]
  simp [length_ascii]
  omega

theorem isLine_bandwidthLine (d : NodeDescriptor) : IsLine (bandwidthLine d) := by
  refine ⟨?_, (length_bandwidthLine_le d).trans (by decide)⟩
  have hmeasured : Printable (measuredText d) := by
    unfold measuredText
    split
    · rw [printable_cons, printable_append]
      exact ⟨by decide, by decide, (graphic_decimal _).printable⟩
    · exact nofun
  rw [bandwidthLine_eq]
  simp only [printable_append, printable_cons, hmeasured, (graphic_decimal _).printable, true_and]
  decide

theorem reads_bandwidth {stack : Field 32} {st : TextState} {d e : NodeDescriptor}
    {hroom : st.relays.length + 1 ≤ moorMaxRelays} (hfoot : st.inFooter = false) :
    ∃ e', e' = { e with
      bandwidth := d.bandwidth
      verifiedBandwidth := d.verifiedBandwidth
      features := d.features } ∧
    Reads lib stack (tmpLine (bandwidthLine d)) (st.atRelay e hroom) (st.atRelay e' hroom) := by
  refine ⟨_, rfl, .ofTmpLine (isLine_bandwidthLine d) ?_⟩
  have hparse := onRelay_atRelay (d := e) (h := hroom) hfoot
    (parseBandwidth (bandwidthLine d))
  rw [parseBandwidth_bandwidthLine] at hparse
  rw [← hparse, bandwidthLine_eq]
  rfl

theorem relayLine_eq (lib : TextLib) (d : NodeDescriptor) :
    relayLine lib d = ascii "n " ++ (relayLine lib d).drop 2 := rfl

/-- The lines of a relay are read as a relay that the text cannot tell from it. -/
theorem reads_relay {stack : Field 32} {st : TextState} {d : NodeDescriptor}
    {hroom : st.relays.length + 1 ≤ moorMaxRelays} (hfoot : st.inFooter = false)
    (h : d.TextReadable) :
    ∃ e, d.SameInText e ∧ Reads lib stack (relayText lib d) st (st.atRelay e hroom) := by
  have hhead := relayHead_parseRelay h lib
  have hfirst : Reads lib stack (tmpLine (relayLine lib d)) st
      (st.atRelay (parseRelay lib ((relayLine lib d).drop 2)) hroom) := by
    have hparse := @parseLine_relay lib stack st hroom ((relayLine lib d).drop 2) hfoot
    rw [← relayLine_eq] at hparse
    exact .ofTmpLine (isLine_relayLine h) hparse
  generalize parseRelay lib ((relayLine lib d).drop 2) = e₀ at hhead hfirst
  -- The relay gets a name after each line.
  obtain ⟨e₁, he₁, honion⟩ := @reads_onion lib stack st d e₀ hroom hfoot
  obtain ⟨e₂, address6, he₂, haddress6⟩ := @reads_address6 lib stack st d e₁ hroom hfoot h.texts
  obtain ⟨e₃, features, he₃, hkem⟩ := @reads_kem lib stack st d e₂ hroom hfoot
  obtain ⟨e₄, he₄, hflags⟩ := @reads_flags lib stack st d e₃ hroom hfoot (by
    simp only [he₃, he₂, he₁, hhead.flags])
  obtain ⟨e₅, he₅, hbandwidth⟩ := @reads_bandwidth lib stack st d e₄ hroom hfoot
  obtain ⟨e₆, countryCode, asNumber, he₆, hgeo⟩ :=
    @reads_geo_optional lib stack st d e₅ hroom hfoot h.country
  obtain ⟨e₇, he₇, hfamily⟩ := @reads_family lib stack st d e₆ hroom hfoot
  obtain ⟨e₈, he₈, hsignature⟩ := @reads_signature lib stack st d e₇ hroom hfoot
  obtain ⟨e₉, contactInfo, he₉, hcontact⟩ := @reads_contact lib stack st d e₈ hroom hfoot h.texts
  refine ⟨e₉, ?_, ?_⟩
  · have hfamilyId : (if d.familyId ≠ Field.zero 32 then d.familyId else Field.zero 32)
        = d.familyId := by
      split
      · rfl
      · rename_i hzero
        rw [not_not.mp hzero]
    constructor <;> simp only [he₉, he₈, he₇, he₆, he₅, he₄, he₃, he₂, he₁, hhead.identityPk,
      hhead.published, hhead.address, hhead.orPort, hhead.dirPort, hhead.nickname, hhead.kemPk,
      hhead.familyId, hfamilyId]
  · simp only [relayText, relayTextsBefore, relayTextsAfter, flatten_append,
      flatten_cons, flatten_nil, append_nil, append_assoc]
    rw [← append_assoc (flagsLine d)]
    exact hfirst.append <| honion.append <| haddress6.append <| hkem.append <| hflags.append <|
      hbandwidth.append <| hgeo.append <| hfamily.append <| hsignature.append hcontact

/-- The relays of a table are read one after the other. -/
theorem reads_relays {stack : Field 32} (relays : List NodeDescriptor)
    (h : ∀ d ∈ relays, d.TextReadable) {st : TextState} (hfoot : st.inFooter = false)
    (hroom : st.relays.length + relays.length ≤ moorMaxRelays) :
    ∃ es currentRelay, ∃ hle : (st.relays ++ es).length ≤ moorMaxRelays,
      List.Forall₂ NodeDescriptor.SameInText relays es ∧
      Reads lib stack (relays.flatMap (relayText lib)) st
        { st with relays := st.relays ++ es, relays_le := hle, currentRelay } := by
  induction relays generalizing st with
  | nil =>
    refine ⟨[], st.currentRelay, by simpa using st.relays_le, .nil, ?_⟩
    simp only [append_nil]
    exact .nil
  | cons d relays ih =>
    rw [length_cons] at hroom
    obtain ⟨e, hsame, hreads⟩ := @reads_relay lib stack st d (by omega) hfoot
      (h d mem_cons_self)
    obtain ⟨es, currentRelay, hle, hall, hrest⟩ := @ih
      (fun d' hd' => h d' (mem_cons_of_mem d hd')) (st.atRelay e (by omega)) hfoot (by
        simp only [atRelay, length_append, length_singleton]
        omega)
    simp only [atRelay, append_assoc, singleton_append] at hrest hle
    exact ⟨e :: es, currentRelay, hle, .cons hsame hall, hreads.append hrest⟩

end Moor
