import Moor.Directory.TextFrame
import Moor.Directory.TextRoundTrip

/-!
# Reading again what was read

The texts of relays that a consensus was read from have no newline, since each was part of a line.
The document that is written for such a consensus consists of the lines that it should, and the
parser does not refuse it, whether or not it makes the same of its lines.

## Main results

* `lineSafe_of_deserialize`: relays that were read are safe.
* `isSome_deserialize_consensusText`: the document of safe relays is accepted.
-/

namespace Moor

open Codec Text Scanf List

/-! ### The lines of the document -/

/-- No text of the relay has a newline. -/
structure NodeDescriptor.LineSafe (d : NodeDescriptor) : Prop where
  nickname : 10 ∉ cString d.nickname
  address : 10 ∉ cString d.address
  address6 : 10 ∉ cString d.address6
  contactInfo : 10 ∉ cString d.contactInfo
  country : 10 ∉ unpackCountry d.countryCode

/-- The lines of a relay after the first one. -/
def relayRestLines (lib : TextLib) (d : NodeDescriptor) : List Bytes :=
  [ascii "o " ++ b64enc lib d.onionPk] ++
    (if nonEmpty d.address6 then [ascii "a " ++ cString d.address6] else []) ++
    (if Flags.has d.features nodeFeaturePq then [ascii "k " ++ b64enc lib d.kemPk] else []) ++
    [flagsLine d, bandwidthLine d] ++
    (if d.countryCode ≠ 0 then [geoLine d] else []) ++
    (if d.familyId ≠ Field.zero 32 then [ascii "f " ++ b64enc lib d.familyId] else []) ++
    [ascii "p " ++ b64enc lib d.signature] ++
    (if nonEmpty d.contactInfo then [ascii "c " ++ cString d.contactInfo] else [])

def headerLines (lib : TextLib) (cons : FullConsensus) : List Bytes :=
  [ascii "moor-consensus 1", ascii "valid-after " ++ fmtTime lib cons.validAfter,
   ascii "fresh-until " ++ fmtTime lib cons.freshUntil,
   ascii "valid-until " ++ fmtTime lib cons.validUntil, knownFlagsLine,
   ascii "shared-rand-current-value " ++ b64enc lib cons.srvCurrent,
   ascii "shared-rand-previous-value " ++ b64enc lib cons.srvPrevious]

def daSigLines (lib : TextLib) (sig : DaSig) : List Bytes :=
  daSignatureLine lib sig ::
    if sig.hasPq then [pqDaSignatureLine lib sig, b64enc lib sig.pqPk, b64enc lib sig.pqSignature]
    else []

def consensusLines (lib : TextLib) (cons : FullConsensus) : List Bytes :=
  headerLines lib cons ++
    (cons.relays.flatMap (fun d => relayLine lib d :: relayRestLines lib d) ++
      ([weightsLine cons.bwWeights, ascii "directory-footer"] ++
        cons.daSigs.flatMap (daSigLines lib)))

def unlines (lines : List Bytes) : Bytes := lines.flatMap (· ++ [10])

@[simp] theorem unlines_append (l l' : List Bytes) : unlines (l ++ l') = unlines l ++ unlines l' :=
  flatMap_append

@[simp] theorem unlines_cons (line : Bytes) (l : List Bytes) :
    unlines (line :: l) = line ++ 10 :: unlines l := by
  rw [unlines, flatMap_cons, append_assoc]
  rfl

@[simp] theorem unlines_nil : unlines [] = [] := rfl

theorem splitLines_unlines {lines : List Bytes} (h : ∀ line ∈ lines, 10 ∉ line) :
    splitLines (unlines lines) = lines.map (· ++ [10]) := by
  induction lines with
  | nil => rfl
  | cons line lines ih =>
    simp [splitLines_line (h line mem_cons_self), ih fun l hl => h l (mem_cons_of_mem line hl)]

section Texts

variable (lib : TextLib) (d : NodeDescriptor)

theorem IsLine.tmpLine_eq {line : Bytes} (h : IsLine line) : tmpLine line = line ++ [10] :=
  Moor.tmpLine_eq h.length

theorem tmpLine_key {n : ℕ} {key : Bytes} (hkey : Printable key ∧ key.length ≤ 30 ∧ n ≤ 3309)
    (f : Field n) : tmpLine (key ++ b64enc lib f) = key ++ b64enc lib f ++ [10] :=
  (isLine_b64enc hkey.1 hkey.2.1 hkey.2.2 f).tmpLine_eq

theorem tmpLine_text {n : ℕ} (key : Bytes) (hkey : key.length ≤ 30) (hn : n ≤ 128) (f : Field n) :
    tmpLine (key ++ cString f) = key ++ cString f ++ [10] := by
  have := length_cString_le f
  refine tmpLine_eq ?_
  rw [length_append]
  omega

theorem flatten_optional {p : Prop} [Decidable p] {t line : Bytes} (h : t = line ++ [10]) :
    (if p then [t] else []).flatten = unlines (if p then [line] else []) := by
  split
  · rw [flatten_singleton, h, unlines_cons]
    rfl
  · rfl

theorem relayText_eq : relayText lib d = unlines (relayLine lib d :: relayRestLines lib d) := by
  have hrelay : tmpLine (relayLine lib d) = _ :=
    tmpLine_eq ((length_relayLine_le lib d).trans (by decide))
  have hgeo : tmpLine (geoLine d) = _ := tmpLine_eq ((length_geoLine_le d).trans (by decide))
  simp only [relayText, relayTextsBefore, relayTextsAfter, relayRestLines, flatten_append,
    flatten_cons, unlines_cons, unlines_append, hrelay, flatten_optional hgeo,
    (isLine_bandwidthLine d).tmpLine_eq,
    flatten_optional (tmpLine_text (ascii "a ") (by decide) (by decide) d.address6),
    flatten_optional (tmpLine_text (ascii "c ") (by decide) (by decide) d.contactInfo),
    flatten_optional (@tmpLine_key lib _ (ascii "k ") (by decide) d.kemPk),
    flatten_optional (@tmpLine_key lib _ (ascii "f ") (by decide) d.familyId),
    @tmpLine_key lib _ (ascii "o ") (by decide) d.onionPk,
    @tmpLine_key lib _ (ascii "p ") (by decide) d.signature, append_assoc, cons_append, nil_append]

theorem headerTexts_eq (cons : FullConsensus) :
    (headerTexts lib cons).flatten = unlines (headerLines lib cons) := by
  have htime : ∀ (key : Bytes) t, Printable key ∧ key.length ≤ 30 →
      tmpLine (key ++ fmtTime lib t) = key ++ fmtTime lib t ++ [10] := fun key t hkey =>
    (isLine_time hkey.1 hkey.2 t).tmpLine_eq
  simp only [headerTexts, headerLines, flatten_cons, unlines_cons,
    htime (ascii "valid-after ") _ (by decide), htime (ascii "fresh-until ") _ (by decide),
    htime (ascii "valid-until ") _ (by decide),
    @tmpLine_key lib _ (ascii "shared-rand-current-value ") (by decide) cons.srvCurrent,
    @tmpLine_key lib _ (ascii "shared-rand-previous-value ") (by decide) cons.srvPrevious,
    append_assoc, cons_append, nil_append]
  rfl

theorem daSigText_eq (sig : DaSig) : daSigText lib sig = unlines (daSigLines lib sig) := by
  rw [daSigText, daSigLines, (isLine_daSignatureLine sig).tmpLine_eq,
    (isLine_pqDaSignatureLine sig).tmpLine_eq, unlines_cons, append_assoc]
  split
  · simp
  · rfl

theorem unlines_flatMap {α : Type*} (f : α → List Bytes) (l : List α) :
    unlines (l.flatMap f) = l.flatMap fun a => unlines (f a) :=
  flatMap_assoc

theorem consensusText_eq (cons : FullConsensus) :
    consensusText lib cons = unlines (consensusLines lib cons) := by
  have hrelays : relayText lib = fun d => relayLine lib d ++ 10 :: unlines (relayRestLines lib d) :=
    funext fun d => (relayText_eq lib d).trans (unlines_cons _ _)
  simp only [consensusText, unsignedText, consensusLines, headerTexts_eq, unlines_append,
    unlines_flatMap, unlines_cons, (isLine_weightsLine cons.bwWeights).tmpLine_eq, hrelays,
    ← daSigText_eq, append_assoc, cons_append, nil_append]

end Texts

/-! ### What the lines are for -/

def kindOf (line : Bytes) : LineKind := lineKind (lineText (line ++ [10]))

/-- Lines of the kind neither begin a relay nor hold a shared random value or the start of the
validity. -/
def LineKind.Quiet (kind : LineKind) : Prop :=
  kind ≠ .relay ∧ kind ≠ .srvCurrent ∧ kind ≠ .srvPrevious ∧ kind ≠ .validAfter
  deriving Decidable

variable {lib : TextLib} {line : Bytes} {d : NodeDescriptor}

theorem notMem_of_printable {s : Bytes} (h : Printable s) : 10 ∉ s :=
  fun hmem => absurd (h 10 hmem) (by decide)

theorem kindOf_of_isLine (h : IsLine line) : kindOf line = lineKind line := by
  rw [kindOf, lineText_line h]

theorem kindOf_letter {c : UInt8} {kind : LineKind} (h : (c, kind) ∈ relayLetters) (s : Bytes) :
    kindOf (c :: 32 :: s) = kind := by
  have hc : ∀ p ∈ relayLetters, p.1 ≠ 0 := by decide
  have hblank : (32 : UInt8) ≠ 0 ∧ (32 : UInt8) ≠ 13 := by decide
  have hs : s ++ [10] ≠ [] := by simp
  obtain ⟨t, ht⟩ := lineText_letter (hc _ h) hblank hs
  rw [kindOf, cons_append, cons_append, ht]
  exact lineKind_of_letter t h

/-- The keywords without a blank are those of the footer. -/
theorem quiet_of_notMem_blank (h : 32 ∉ line) : (lineKind line).Quiet := by
  have hkeys : ∀ k ∈ lineKinds, 32 ∈ k.1 ∨ k.2.Quiet := by decide
  rw [lineKind]
  cases hfind : lineKinds.find? (fun k => k.1.isPrefixOf line) with
  | none => decide
  | some k =>
    have hpre : k.1.isPrefixOf line = true := by simpa using find?_some hfind
    rcases hkeys k (mem_of_find?_eq_some hfind) with hblank | hquiet
    · exact absurd ((List.isPrefixOf_iff_prefix.mp hpre).subset hblank) h
    · exact hquiet

/-- A line that begins with a keyword. -/
theorem quiet_of_isLine {kind : LineKind} (h : IsLine line) (hkind : lineKind line = kind)
    (hquiet : kind.Quiet) : (kindOf line).Quiet ∧ 10 ∉ line := by
  rw [kindOf_of_isLine h, hkind]
  exact ⟨hquiet, h.notMem (by decide)⟩

theorem quiet_b64enc {n : ℕ} (f : Field n) (hn : n ≤ 3309) : (kindOf (b64enc lib f)).Quiet := by
  have hgraphic := @graphic_b64enc lib n f
  rw [kindOf_of_isLine ⟨hgraphic.printable, by rw [length_b64enc]; omega⟩]
  exact quiet_of_notMem_blank fun hmem => absurd (hgraphic 32 hmem) (by decide)

theorem quiet_flagsLine (d : NodeDescriptor) : (kindOf (flagsLine d)).Quiet := by
  rw [kindOf_of_isLine (isLine_flagsLine d), flagsLine, ← flagRows]
  cases flagRows d with
  | nil => decide
  | cons row rows =>
    have hkind : lineKind (ascii "s" ++ (row :: rows).flatMap fun row => 32 :: row.2) = .flags :=
      lineKind_of_letter _ (by decide)
    rw [hkind]
    decide

theorem relayRestLines_spec (d : NodeDescriptor) :
    ∀ line ∈ relayRestLines lib d, (kindOf line).Quiet ∧ (d.LineSafe → 10 ∉ line) := by
  have hquiet : ∀ p ∈ relayLetters.tail, p.2.Quiet := by decide
  have hletter : ∀ p ∈ relayLetters.tail, ∀ s, (kindOf (p.1 :: 32 :: s)).Quiet := by
    intro p hp s
    rw [kindOf_letter (mem_of_mem_tail hp)]
    exact hquiet p hp
  have hkey : ∀ {n : ℕ}, ∀ p ∈ relayLetters.tail, 10 ∉ [p.1, 32] → ∀ f : Field n,
      (kindOf ([p.1, 32] ++ b64enc lib f)).Quiet ∧ (d.LineSafe → 10 ∉ [p.1, 32] ++ b64enc lib f) :=
    fun p hp hne f => ⟨hletter p hp _, fun _ =>
      not_mem_append hne (notMem_of_printable (graphic_b64enc f).printable)⟩
  intro line hline
  simp only [relayRestLines, mem_append, mem_cons, not_mem_nil, or_false,
    mem_ite_nil_right] at hline
  rcases hline with
    (((((((rfl | ⟨-, rfl⟩) | ⟨-, rfl⟩) | (rfl | rfl)) | ⟨-, rfl⟩) | ⟨-, rfl⟩) | rfl) | ⟨-, rfl⟩)
  · exact hkey (111, .onion) (by decide) (by decide) _
  · exact ⟨hletter (97, .address6) (by decide) _, fun h => not_mem_append (by decide) h.address6⟩
  · exact hkey (107, .kem) (by decide) (by decide) _
  · exact ⟨quiet_flagsLine d, fun _ => (isLine_flagsLine d).notMem (by decide)⟩
  · refine ⟨?_, fun _ => (isLine_bandwidthLine d).notMem (by decide)⟩
    rw [bandwidthLine_eq]
    exact hletter (119, .bandwidth) (by decide) _
  · rw [geoLine, append_assoc, append_assoc]
    refine ⟨hletter (103, .geo) (by decide) _, fun h => not_mem_append (by decide) ?_⟩
    exact not_mem_append h.country (not_mem_append (by decide) (notMem_decimal rfl _))
  · exact hkey (102, .family) (by decide) (by decide) _
  · exact hkey (112, .signature) (by decide) (by decide) _
  · exact ⟨hletter (99, .contact) (by decide) _, fun h => not_mem_append (by decide) h.contactInfo⟩

theorem kindOf_relayLine (lib : TextLib) (d : NodeDescriptor) :
    kindOf (relayLine lib d) = .relay := by
  exact kindOf_letter (by decide) _

theorem daSigLines_spec (sig : DaSig) :
    ∀ line ∈ daSigLines lib sig, (kindOf line).Quiet ∧ 10 ∉ line := by
  intro line hline
  rw [daSigLines, mem_cons] at hline
  rcases hline with rfl | hline
  · have hkind : lineKind (daSignatureLine lib sig) = .daSignature := daSignatureLine_eq sig ▸ rfl
    exact quiet_of_isLine (isLine_daSignatureLine sig) hkind (by decide)
  simp only [mem_ite_nil_right, mem_cons, not_mem_nil, or_false] at hline
  rcases hline with ⟨-, rfl | rfl | rfl⟩
  · have hkind : lineKind (pqDaSignatureLine lib sig) = .pqDaSignature :=
      pqDaSignatureLine_eq sig ▸ rfl
    exact quiet_of_isLine (isLine_pqDaSignatureLine sig) hkind (by decide)
  · exact ⟨quiet_b64enc _ (by decide), notMem_of_printable (graphic_b64enc _).printable⟩
  · exact ⟨quiet_b64enc _ (by decide), notMem_of_printable (graphic_b64enc _).printable⟩

theorem footerLines_spec (w : Fin 8 → Int32) :
    ∀ line ∈ [weightsLine w, ascii "directory-footer"], (kindOf line).Quiet ∧ 10 ∉ line := by
  intro line hline
  simp only [mem_cons, not_mem_nil, or_false] at hline
  rcases hline with rfl | rfl
  · have hkind : lineKind (weightsLine w) = .weights := weightsLine_eq w ▸ rfl
    exact quiet_of_isLine (isLine_weightsLine w) hkind (by decide)
  · decide

/-! ### Newlines -/

theorem notMem_relayLine (lib : TextLib) (h : d.LineSafe) : 10 ∉ relayLine lib d := by
  have hname : 10 ∉ nicknameOrUnnamed d := by
    rw [nicknameOrUnnamed]
    split
    · exact h.nickname
    · decide
  have hip : 10 ∉ ipStr d := fun hmem =>
    h.address (mem_of_mem_take (takeWhile_subset _ hmem))
  have hb64 := notMem_of_printable (@graphic_b64enc lib _ d.identityPk).printable
  have htime := notMem_of_printable (printable_fmtTime lib d.published)
  have hport : ∀ p : UInt16, 10 ∉ decimal p.toNat := fun p =>
    notMem_of_printable (graphic_decimal _).printable
  simp [relayLine, hname, hip, hb64, htime, hport, (by decide : (10 : UInt8) ∉ ascii "n ")]

/-! ### The document is accepted -/

/-- The lines that are taken for themselves are among those of the document, in their order. -/
theorem dispatched_sublist (lib : TextLib) (stack : Field 32) (lines : List Bytes)
    (inFooter : Bool) (ids : List (Field 32)) :
    ((dispatched lib stack lines inFooter ids).map Prod.snd).Sublist (lines.map lineText) := by
  -- Two lines are left out at once, so that the induction is on the number of lines.
  induction hn : lines.length using Nat.strong_induction_on generalizing lines inFooter ids with
  | _ n ih =>
    cases lines with
    | nil => exact .slnil
    | cons raw lines =>
      rw [length_cons] at hn
      cases hskim : skim lib stack (lineText raw) inFooter ids with
      | some p =>
        rw [dispatched_of_some hskim]
        exact (ih lines.length (by omega) lines p.1 p.2 rfl).cons_cons _
      | none =>
        rw [dispatched_of_none hskim]
        refine List.Sublist.cons_cons _ ?_
        match lines with
        | [] => exact .slnil
        | [pqPk] => exact nil_sublist _
        | pqPk :: pqSig :: lines =>
          rw [length_cons, length_cons] at hn
          exact ((ih lines.length (by omega) lines inFooter ids rfl).cons _).cons _

section Accepted

variable (lib : TextLib) (cons : FullConsensus)

/-- No line of the header begins a relay or has a value that cannot be decoded. -/
theorem headerLines_spec : ∀ line ∈ headerLines lib cons, IsLine line ∧
    srvMalformed lib line = false ∧ lineKind line ≠ .relay ∧
      (lineKind line = .validAfter → line.drop 12 = fmtTime lib cons.validAfter) := by
  have hdrop : ∀ s, (ascii "valid-after " ++ s).drop 12 = s := fun _ => rfl
  have hsrv : ∀ f : Field 32, ((b64dec lib (Field.zero 32) (b64enc lib f)).2 == 0) = false := by
    intro f
    rw [b64dec_b64enc]
    rfl
  intro line hline
  simp only [headerLines, mem_cons, not_mem_nil, or_false] at hline
  rcases hline with rfl | rfl | rfl | rfl | rfl | rfl | rfl
  · exact ⟨⟨by decide, by decide⟩, rfl, nofun, nofun⟩
  · exact ⟨isLine_time (by decide) (by decide) _, rfl, nofun, fun _ => hdrop _⟩
  · exact ⟨isLine_time (by decide) (by decide) _, rfl, nofun, nofun⟩
  · exact ⟨isLine_time (by decide) (by decide) _, rfl, nofun, nofun⟩
  · exact ⟨isLine_knownFlags, rfl, nofun, nofun⟩
  · exact ⟨isLine_b64enc (by decide) (by decide) (by decide) _, hsrv _, nofun, nofun⟩
  · exact ⟨isLine_b64enc (by decide) (by decide) (by decide) _, hsrv _, nofun, nofun⟩

variable {line : Bytes}

/-- A line after the header begins a relay or is quiet. -/
theorem consensusLines_cases (hsafe : ∀ d ∈ cons.relays, d.LineSafe)
    (h : line ∈ consensusLines lib cons) :
    10 ∉ line ∧ (line ∈ headerLines lib cons ∨ kindOf line = .relay ∨ (kindOf line).Quiet) := by
  rw [consensusLines, mem_append, mem_append, mem_append, mem_flatMap, mem_flatMap] at h
  rcases h with hheader | ⟨d, hd, hline⟩ | hfoot | ⟨sig, -, hsig⟩
  · exact ⟨(headerLines_spec lib cons line hheader).1.notMem (by decide), .inl hheader⟩
  · rcases mem_cons.mp hline with rfl | hrest
    · exact ⟨notMem_relayLine lib (hsafe d hd), .inr (.inl (kindOf_relayLine lib d))⟩
    · obtain ⟨hquiet, hnl⟩ := relayRestLines_spec d line hrest
      exact ⟨hnl (hsafe d hd), .inr (.inr hquiet)⟩
  · obtain ⟨hquiet, hnl⟩ := footerLines_spec cons.bwWeights line hfoot
    exact ⟨hnl, .inr (.inr hquiet)⟩
  · obtain ⟨hquiet, hnl⟩ := daSigLines_spec sig line hsig
    exact ⟨hnl, .inr (.inr hquiet)⟩

/-- No line is refused for its value, and the validity has one beginning. -/
theorem consensusLines_spec (hsafe : ∀ d ∈ cons.relays, d.LineSafe)
    (h : line ∈ consensusLines lib cons) :
    srvMalformed lib (lineText (line ++ [10])) = false ∧
      ∀ t ∈ timeOf lib .validAfter (lineText (line ++ [10])),
        t = parseTime lib (fmtTime lib cons.validAfter) := by
  rcases (consensusLines_cases lib cons hsafe h).2 with hheader | hkind
  · obtain ⟨hline, hsrv, -, htime⟩ := headerLines_spec lib cons line hheader
    rw [lineText_line hline]
    refine ⟨hsrv, fun t ht => ?_⟩
    rw [timeOf, Option.mem_def, Option.ite_none_right_eq_some] at ht
    rw [← htime ht.1]
    exact (Option.some.inj ht.2).symm
  have hother : kindOf line ≠ .srvCurrent ∧ kindOf line ≠ .srvPrevious ∧
      kindOf line ≠ .validAfter := by
    rcases hkind with hrelay | hquiet
    · rw [hrelay]
      decide
    · exact hquiet.2
  refine ⟨?_, fun t ht => ?_⟩
  · rw [srvMalformed]
    split
    · exact absurd ‹_› hother.1
    · exact absurd ‹_› hother.2.1
    · rfl
  · rw [timeOf, ← kindOf, if_neg hother.2.2] at ht
    cases ht

theorem countP_eq_zero_of_quiet {lines : List Bytes} (h : ∀ line ∈ lines, (kindOf line).Quiet) :
    lines.countP (fun line => kindOf line == .relay) = 0 :=
  countP_eq_zero.mpr fun line hline => by simpa using (h line hline).1

theorem countP_consensusLines :
    (consensusLines lib cons).countP (fun line => kindOf line == .relay) = cons.relays.length := by
  have hheader : (headerLines lib cons).countP (fun line => kindOf line == .relay) = 0 := by
    refine countP_eq_zero.mpr fun line hline => ?_
    obtain ⟨hline, -, hkind, -⟩ := headerLines_spec lib cons line hline
    rw [kindOf_of_isLine hline]
    simpa using hkind
  have hrelay : ∀ d, (relayLine lib d :: relayRestLines lib d).countP
      (fun line => kindOf line == .relay) = 1 := by
    intro d
    rw [countP_cons_of_pos (by simpa using kindOf_relayLine lib d),
      countP_eq_zero_of_quiet fun line hline => (relayRestLines_spec d line hline).1]
  have hsigs : (cons.daSigs.flatMap (daSigLines lib)).countP
      (fun line => kindOf line == .relay) = 0 := by
    refine countP_eq_zero_of_quiet fun line hline => ?_
    obtain ⟨sig, -, hsig⟩ := mem_flatMap.mp hline
    exact (daSigLines_spec sig line hsig).1
  rw [consensusLines, countP_append, countP_append, countP_append, hheader, hsigs,
    countP_eq_zero_of_quiet fun line hline => (footerLines_spec cons.bwWeights line hline).1,
    countP_flatMap]
  simp [Function.comp_def, hrelay]

/-- The lines of the document that the parser takes for themselves. -/
def taken (stack : Field 32) : List (Bool × Bytes) :=
  dispatched lib stack (splitLines (consensusText lib cons)) false []

variable {lib cons} (stack : Field 32) (h : ∀ d ∈ cons.relays, d.LineSafe)
include h

theorem splitLines_consensusText :
    splitLines (consensusText lib cons) = (consensusLines lib cons).map (· ++ [10]) := by
  rw [consensusText_eq, splitLines_unlines fun line hline =>
    (consensusLines_cases lib cons h hline).1]

theorem taken_sublist : ((taken lib cons stack).map Prod.snd).Sublist
    ((consensusLines lib cons).map fun line => lineText (line ++ [10])) := by
  have hsub := dispatched_sublist lib stack (splitLines (consensusText lib cons)) false []
  rwa [splitLines_consensusText h, map_map, ← splitLines_consensusText h] at hsub

theorem taken_spec : ∀ p ∈ taken lib cons stack, srvMalformed lib p.2 = false ∧
    ∀ t ∈ timeOf lib .validAfter p.2, t = parseTime lib (fmtTime lib cons.validAfter) := by
  intro p hp
  obtain ⟨line, hline, hp⟩ :=
    mem_map.mp ((taken_sublist stack h).subset (mem_map_of_mem hp))
  rw [← hp]
  exact consensusLines_spec lib cons h hline

theorem countP_taken_le :
    (taken lib cons stack).countP (fun p => startsRelay p.1 p.2) ≤ cons.relays.length :=
  calc (taken lib cons stack).countP (fun p => startsRelay p.1 p.2)
      ≤ (taken lib cons stack).countP ((fun line => lineKind line == .relay) ∘ Prod.snd) :=
        countP_mono_left fun p _ hp => (Bool.and_eq_true_iff.mp hp).2
    _ = ((taken lib cons stack).map Prod.snd).countP (fun line => lineKind line == .relay) :=
        countP_map.symm
    _ ≤ ((consensusLines lib cons).map fun line => lineText (line ++ [10])).countP
          (fun line => lineKind line == .relay) := (taken_sublist stack h).countP_le
    _ = cons.relays.length := by
        rw [countP_map]
        exact countP_consensusLines lib cons

/-- The parser gets to the line with the beginning of the validity. -/
theorem validAfter_mem_taken :
    (false, ascii "valid-after " ++ fmtTime lib cons.validAfter) ∈ taken lib cons stack := by
  obtain ⟨rest, hrest⟩ : ∃ rest, consensusLines lib cons = ascii "moor-consensus 1" ::
      (ascii "valid-after " ++ fmtTime lib cons.validAfter) :: rest := ⟨_, rfl⟩
  have hversion : skim lib stack (lineText (ascii "moor-consensus 1" ++ [10])) false [] =
      some (false, []) := by
    rw [lineText_line ⟨by decide, by decide⟩]
    rfl
  have htime : lineText (ascii "valid-after " ++ fmtTime lib cons.validAfter ++ [10]) = _ :=
    lineText_line (isLine_time (by decide) (by decide) cons.validAfter)
  rw [taken, splitLines_consensusText h, hrest, map_cons, map_cons, dispatched_of_some hversion]
  refine mem_cons_of_mem _ ?_
  rw [dispatched.eq_def]
  dsimp only
  rw [htime]
  exact mem_cons_self

/-- The beginning of the validity is that of the one line for it. -/
theorem validAfter_taken (m : Kept) :
    (m.afterAll lib (taken lib cons stack)).validAfter =
      parseTime lib (fmtTime lib cons.validAfter) := by
  rw [validAfter_afterAll]
  generalize htimes : (taken lib cons stack).filterMap
    (fun p => timeOf lib .validAfter p.2) = times
  have hne : times ≠ [] := by
    have hmem : parseTime lib (fmtTime lib cons.validAfter) ∈ times := by
      rw [← htimes]
      exact mem_filterMap.mpr ⟨_, validAfter_mem_taken stack h, if_pos rfl⟩
    exact ne_nil_of_mem hmem
  have hall : ∀ t ∈ times, t = parseTime lib (fmtTime lib cons.validAfter) := by
    intro t ht
    rw [← htimes] at ht
    obtain ⟨p, hp, ht⟩ := mem_filterMap.mp ht
    exact (taken_spec stack h p hp).2 t ht
  rw [getLast?_eq_some_getLast hne, Option.getD_some]
  exact hall _ (getLast_mem hne)

/-- The document of safe relays is accepted unless the beginning of the validity is read as zero. -/
theorem isSome_deserialize_consensusText (old : FullConsensus) :
    (moorConsensusDeserialize lib stack old (consensusText lib cons)).isSome = true ↔
      parseTime lib (fmtTime lib cons.validAfter) ≠ 0 := by
  obtain ⟨hlength, hmagic⟩ := consensusText_magic lib cons
  have hparse :
      parseLines lib stack (splitLines (consensusText lib cons)) (.start .init) ≠ none := by
    rw [Ne, parseLines_eq_none_iff]
    rintro (hsrv | hfull)
    · obtain ⟨p, hp, hsrv⟩ := any_eq_true.mp hsrv
      exact absurd ((taken_spec stack h p hp).1.symm.trans hsrv) (by decide)
    have hcount : (taken lib cons stack).countP _ ≤ _ := countP_taken_le stack h
    have hrelays := cons.relays_le
    have hstart : (TextState.start .init).relays.length = 0 := rfl
    rw [hstart, Nat.zero_add] at hfull
    exact absurd (hfull.trans_le hcount) (Nat.not_lt.mpr hrelays)
  obtain ⟨st, hst⟩ := Option.ne_none_iff_exists'.mp hparse
  rw [moorConsensusDeserialize_eq old hlength hmagic, hst, Option.bind_some]
  dsimp only
  rw [← taken, validAfter_taken stack h]
  split
  · simpa
  · simpa

end Accepted

/-! ### What was read has no newlines -/

theorem notMem_or_of_mem_splitLines {data raw : Bytes} (h : raw ∈ splitLines data) :
    ∃ line, 10 ∉ line ∧ (raw = line ∨ raw = line ++ [10]) := by
  induction data generalizing raw with
  | nil => cases h
  | cons c s ih =>
    rw [splitLines] at h
    split at h
    · rcases mem_cons.mp h with rfl | h
      · exact ⟨[], not_mem_nil, .inr rfl⟩
      · exact ih h
    rename_i hc
    have hcons : ∀ line, 10 ∉ line → 10 ∉ c :: line := fun line hline =>
      not_mem_cons_of_ne_of_not_mem (Ne.symm hc) hline
    split at h
    · rw [mem_singleton.mp h]
      exact ⟨[c], hcons [] not_mem_nil, .inl rfl⟩
    rename_i line lines hsplit
    rcases mem_cons.mp h with rfl | h
    · obtain ⟨line', hline', heq⟩ := ih (hsplit ▸ mem_cons_self)
      refine ⟨c :: line', hcons line' hline', ?_⟩
      exact heq.imp (congrArg (c :: ·)) (congrArg (c :: ·))
    · exact ih (hsplit ▸ mem_cons_of_mem _ h)

/-- A line has no newline. -/
theorem notMem_lineText {data raw : Bytes} (h : raw ∈ splitLines data) : 10 ∉ lineText raw := by
  have hset : ∀ {l : Bytes} (i : ℕ), 10 ∉ l → 10 ∉ l.set i 0 := by
    intro l i hl hmem
    exact (mem_or_eq_of_mem_set hmem).elim hl (by decide)
  -- The newline that a line ends with is overwritten if it is within the buffer.
  have hcut : ∀ l : Bytes, (∃ line, 10 ∉ line ∧ (l = line ∨ l = line ++ [10])) →
      10 ∉ if l[l.length - 1]? = some 10 then l.set (l.length - 1) 0 else l := by
    rintro l ⟨line, hline, rfl | rfl⟩
    · split
      · exact hset _ hline
      · exact hline
    · rw [length_append, length_singleton, Nat.add_sub_cancel, getElem?_concat_length, if_pos rfl]
      simpa using hline
  obtain ⟨line, hline, hraw⟩ := notMem_or_of_mem_splitLines h
  have htake : ∃ line, 10 ∉ line ∧ (raw.take 8191 = line ∨ raw.take 8191 = line ++ [10]) := by
    rcases hraw with rfl | rfl
    · exact ⟨_, mt mem_of_mem_take hline, .inl rfl⟩
    rcases Nat.lt_or_ge line.length 8191 with hlt | hge
    · exact ⟨line, hline, .inr (take_of_length_le (by rwa [length_append]))⟩
    · refine ⟨line.take 8191, mt mem_of_mem_take hline, .inl ?_⟩
      exact take_append_of_le_length hge
  have hnl := hcut _ htake
  have hreturn : ∀ (l : Bytes) (p : Prop) [Decidable p] (i : ℕ), 10 ∉ l →
      10 ∉ if p then l.set i 0 else l := by
    intro l p _ i hl
    split
    · exact hset i hl
    · exact hl
  rw [lineText]
  exact fun hmem => hreturn _ _ _ hnl (takeWhile_subset _ hmem)

section LineSafe

variable {n : ℕ}

variable {f : Field n} {d : NodeDescriptor} {lib : TextLib} {stack : Field 32}

theorem notMem_cString (h : 10 ∉ f.val) : 10 ∉ cString f := mt (takeWhile_subset _ ·) h

theorem notMem_ofList {l : Bytes} (h : 10 ∉ l) : 10 ∉ (Arr.ofList n 0 l).val := by
  intro hmem
  rw [Arr.ofList, mem_append] at hmem
  rcases hmem with htake | hzero
  · exact h (mem_of_mem_take htake)
  · exact absurd (eq_of_mem_replicate hzero) (by decide)

theorem notMem_set (i : ℕ) (h : 10 ∉ f.val) : 10 ∉ (f.set i 0).val :=
  fun hmem => (mem_or_eq_of_mem_set hmem).elim h (by decide)

/-- A text with its NUL hides what is left behind it. -/
theorem notMem_cString_terminated {l rest : Bytes} (h : 10 ∉ l) (hlen : l.length < n) :
    10 ∉ cString (Arr.ofList n 0 (l ++ [0] ++ rest)) := by
  obtain ⟨more, hmore⟩ : ∃ more, (Arr.ofList n 0 (l ++ [0] ++ rest)).val = l ++ 0 :: more := by
    obtain ⟨k, hk⟩ := Nat.exists_eq_add_of_lt hlen
    have htake : (l ++ [0] ++ rest).take n = l ++ 0 :: rest.take k := by
      rw [hk, Nat.add_assoc, append_assoc, take_length_add_append, singleton_append, take_succ_cons]
    refine ⟨rest.take k ++ replicate (n - (l ++ [0] ++ rest).length) 0, ?_⟩
    simp only [Arr.ofList, htake]
    simp
  intro hmem
  rw [cString, hmore, takeWhile_append] at hmem
  split at hmem
  · simp [h] at hmem
  · exact h (takeWhile_subset _ hmem)

theorem notMem_of_scan {fmt : List Directive} {s w : Bytes} {values : List Value}
    (hscan : scan fmt s = values) (h : .word w ∈ values) : 10 ∉ w :=
  fun hmem => absurd (isSpace_of_mem_scan (hscan ▸ h) hmem) (by decide)

theorem notMem_unpackCountry {w : Bytes} (h : 10 ∉ w) : 10 ∉ unpackCountry (packCountry w) := by
  have hbytes : ∀ hi lo : UInt8, unpackCountry (packCountry [hi, lo]) =
      [hi, lo].takeWhile (· != 0) := by
    intro hi lo
    have hlo := lo.toNat_lt
    have hhi := hi.toNat_lt
    have hcode : (hi.toNat <<< 8 ||| lo.toNat) = hi.toNat * 256 + lo.toNat := by
      rw [← Nat.shiftLeft_add_eq_or_of_lt (by omega), Nat.shiftLeft_eq]
    have hnat : (packCountry [hi, lo]).toNat = hi.toNat * 256 + lo.toNat := by
      rw [packCountry, hcode, UInt16.toNat_ofNat']
      omega
    have hfirst : UInt8.ofNat ((packCountry [hi, lo]).toNat >>> 8) = hi := by
      rw [← UInt8.toNat_inj, hnat, UInt8.toNat_ofNat', Nat.shiftRight_eq_div_pow]
      omega
    have hsecond : UInt8.ofNat (packCountry [hi, lo]).toNat = lo := by
      rw [← UInt8.toNat_inj, hnat, UInt8.toNat_ofNat']
      omega
    rw [unpackCountry, hfirst, hsecond]
  rw [packCountry.eq_def]
  split
  · rename_i hi lo
    have heq := hbytes hi lo
    rw [packCountry] at heq
    rw [heq]
    exact mt (takeWhile_subset _ ·) h
  · decide

theorem lineSafe_zero : NodeDescriptor.zero.LineSafe :=
  ⟨by decide, by decide, by decide, by decide, by decide⟩

theorem lineSafe_parseRelay (lib : TextLib) (args : Bytes) : (parseRelay lib args).LineSafe := by
  rw [parseRelay]
  split
  · rename_i nickname idB64 dateS timeS ipS orPort dirPort hscan
    have hnickname : 10 ∉ nickname := notMem_of_scan hscan (by simp)
    have hip : 10 ∉ ipS := notMem_of_scan hscan (by simp)
    have hnick : 10 ∉ (Arr.ofList 32 0 (nickname.take 31)).val :=
      notMem_ofList (mt mem_of_mem_take hnickname)
    refine { lineSafe_zero with nickname := ?_, address := ?_ }
    · dsimp only
      split
      · exact notMem_cString (notMem_set 0 hnick)
      · exact notMem_cString hnick
    · exact notMem_cString (notMem_ofList (mt mem_of_mem_take hip))
  · exact lineSafe_zero

theorem lineSafe_parseGeo (h : d.LineSafe) (args : Bytes) : (parseGeo args d).LineSafe := by
  rw [parseGeo]
  split
  · rename_i cc asn hscan
    exact { h with country := notMem_unpackCountry (notMem_of_scan hscan (by simp)) }
  · rename_i cc hscan
    exact { h with country := notMem_unpackCountry (notMem_of_scan hscan (by simp)) }
  · exact h

variable {st st' : TextState} (h : ∀ d ∈ st.relays, d.LineSafe)
include h

/-- A line keeps the relays safe. -/
theorem lineSafe_onRelay {f : NodeDescriptor → NodeDescriptor}
    (hf : ∀ d : NodeDescriptor, d.LineSafe → (f d).LineSafe) :
    ∀ d ∈ (st.onRelay f).relays, d.LineSafe := by
  rw [TextState.onRelay]
  split
  · exact h
  split
  · exact h
  intro d hd
  obtain ⟨j, hj⟩ := getElem?_of_mem hd
  rw [getElem?_modify] at hj
  obtain ⟨e, he, rfl⟩ := Option.map_eq_some_iff.mp hj
  have hsafe := h e (mem_of_getElem? he)
  split
  · exact hf e hsafe
  · exact hsafe

theorem lineSafe_addRelay (hd : d.LineSafe) (hadd : st.addRelay d = some st') :
    ∀ d ∈ st'.relays, d.LineSafe := by
  rw [TextState.addRelay] at hadd
  split at hadd
  · cases hadd
  rw [← Option.some.inj hadd]
  exact forall_mem_append.mpr ⟨h, forall_mem_singleton.mpr hd⟩

/-- What holds of the state if the parser goes on. -/
def LineResult.All (P : TextState → Prop) : LineResult → Prop
  | .next st => P st
  | _ => True

theorem lineSafe_parseLine (hline : 10 ∉ line) :
    (parseLine lib stack line st).All fun st' => ∀ d ∈ st'.relays, d.LineSafe := by
  have hdrop : ∀ i j, 10 ∉ (line.drop i).take j := fun i j hmem =>
    hline (mem_of_mem_drop (mem_of_mem_take hmem))
  unfold parseLine
  cases lineKind line with
  | version | knownFlags | other | validAfter | freshUntil | validUntil | weights | footer =>
    exact h
  | srvCurrent | srvPrevious =>
    dsimp only
    split
    · trivial
    · exact h
  | relay =>
    dsimp only
    split
    · exact h
    split
    · rename_i st₁ hadd
      exact lineSafe_addRelay h (lineSafe_parseRelay lib _) hadd
    · trivial
  | onion | kem | flags | bandwidth | family | signature =>
    refine lineSafe_onRelay h ?_
    intro d hd
    exact { hd with }
  | address6 =>
    refine lineSafe_onRelay h ?_
    intro d hd
    exact { hd with address6 := notMem_cString (notMem_ofList (hdrop 2 63)) }
  | geo => exact lineSafe_onRelay h fun d hd => lineSafe_parseGeo hd _
  | contact =>
    refine lineSafe_onRelay h ?_
    intro d hd
    have hlen : ((line.drop 2).take 127).length < 128 :=
      (length_take_le 127 _).trans_lt (by decide)
    exact { hd with contactInfo := notMem_cString_terminated (hdrop 2 127) hlen }
  | daSignature =>
    dsimp only
    split
    · exact h
    · rwa [LineResult.All, (parseDaSignature_frame _).2]
  | pqDaSignature =>
    dsimp only
    split
    · exact h
    · split
      · trivial
      · exact h

theorem lineSafe_parseLines {lines : List Bytes} (hlines : ∀ raw ∈ lines, 10 ∉ lineText raw)
    (hparse : parseLines lib stack lines st = some st') : ∀ d ∈ st'.relays, d.LineSafe := by
  fun_induction parseLines lib stack lines st with
  | case1 st => rwa [← Option.some.inj hparse]
  | case2 => cases hparse
  | case3 raw lines st st₁ hnext ih =>
    refine ih ?_ (fun raw' hraw => hlines raw' (mem_cons_of_mem raw hraw)) hparse
    have hsafe := @lineSafe_parseLine _ lib stack _ h (hlines raw mem_cons_self)
    rwa [hnext] at hsafe
  | case4 raw st found hpq | case5 raw st found hpq pqPk => rwa [← Option.some.inj hparse]
  | case6 raw st found hpq pqPk st₁ pqSig lines ih =>
    refine ih h (fun raw' hraw => hlines raw' ?_) hparse
    exact mem_cons_of_mem _ (mem_cons_of_mem _ (mem_cons_of_mem _ hraw))

omit h

/-- Relays that were read from a text are safe. -/
theorem lineSafe_of_deserialize {old cons : FullConsensus} {data : Bytes} {len : ℕ}
    (h : moorConsensusDeserialize lib stack old data = some (cons, len)) :
    ∀ d ∈ cons.relays, d.LineSafe := by
  rw [moorConsensusDeserialize] at h
  split at h
  · cases h
  split at h
  · cases h
  obtain ⟨st, hst, hvalid⟩ := Option.bind_eq_some_iff.mp h
  split at hvalid
  · cases hvalid
  obtain ⟨rfl, -⟩ := Prod.mk.inj (Option.some.inj hvalid)
  have hstart : ∀ d ∈ (TextState.start old).relays, d.LineSafe := forall_mem_nil _
  exact lineSafe_parseLines hstart (fun raw hraw => notMem_lineText hraw) hst

end LineSafe

end Moor
