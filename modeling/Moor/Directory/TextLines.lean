import Moor.Directory.TextFormat

/-!
# The lines of a consensus

The parser goes over the text line by line, so that what it makes of a text is put together from
what it makes of the lines: `Reads` says that it gets from one state to another over a piece of
text, whatever follows. The header is the first such piece.
-/

namespace Moor

open Codec Text Scanf List

theorem length_ascii (text : String) : (ascii text).length = text.toList.length := length_map _

/-! ### Words -/

/-- Neither blanks nor control characters. -/
def Graphic (s : Bytes) : Prop := ∀ c ∈ s, 32 < c
  deriving Decidable

/-- No control characters. -/
def Printable (s : Bytes) : Prop := ∀ c ∈ s, 32 ≤ c
  deriving Decidable

variable {lib : TextLib} {s : Bytes} {c : UInt8} {n : ℕ}

@[simp] theorem graphic_append {t : Bytes} : Graphic (s ++ t) ↔ Graphic s ∧ Graphic t :=
  forall_mem_append

@[simp] theorem graphic_cons : Graphic (c :: s) ↔ 32 < c ∧ Graphic s :=
  forall_mem_cons

@[simp] theorem printable_append {t : Bytes} : Printable (s ++ t) ↔ Printable s ∧ Printable t :=
  forall_mem_append

@[simp] theorem printable_cons : Printable (c :: s) ↔ 32 ≤ c ∧ Printable s :=
  forall_mem_cons

theorem Graphic.printable (h : Graphic s) : Printable s :=
  fun c hc => UInt8.le_of_lt (h c hc)

theorem isSpace_of_lt (h : 32 < c) : isSpace c = false := by
  have hc := UInt8.lt_iff_toNat_lt.mp h
  simp only [isSpace, Bool.or_eq_false_iff, decide_eq_false_iff_not, Bool.and_eq_false_imp,
    decide_eq_true_eq, UInt8.le_iff_toNat_le]
  refine ⟨?_, ?_⟩
  · rintro rfl
    exact absurd hc (by decide)
  · intro _ hle
    exact absurd (hc.trans_le hle) (by decide)

theorem Graphic.isSpace (h : Graphic s) : ∀ c ∈ s, isSpace c = false :=
  fun c hc => isSpace_of_lt (h c hc)

/-- A word is not skipped as white space. -/
theorem Graphic.isSpace_head (h : Graphic s) (hne : s ≠ []) (rest : Bytes) :
    ∀ c ∈ (s ++ rest).head?, Text.isSpace c = false := by
  cases s with
  | nil => exact absurd rfl hne
  | cons a s =>
    intro c hc
    cases hc
    exact h.isSpace _ mem_cons_self

theorem lt_of_isDigit (h : isDigit c = true) : 32 < c := by
  rw [isDigit_iff] at h
  exact Nat.lt_of_lt_of_le (by decide) h.1

/-- A number ends at a character that is no digit. -/
theorem notDigit_head {a : UInt8} (h : isDigit a = false) (s : Bytes) :
    ∀ c ∈ (a :: s).head?, isDigit c = false := by
  intro c hc
  rwa [← Option.some_inj.mp hc]

theorem graphic_decimal (n : ℕ) : Graphic (decimal n) :=
  fun c hc => lt_of_isDigit (decimal_isDigit n c hc)

theorem graphic_intNumeral (width : ℕ) (z : ℤ) : Graphic (intNumeral width z) := by
  intro c hc
  rcases char_intNumeral hc with rfl | hc
  · decide
  · exact lt_of_isDigit hc

theorem graphic_b64enc (f : Field n) : Graphic (b64enc lib f) :=
  fun _ hc => UInt8.lt_of_lt_of_le (by decide) (lib.char_bin2base64 f.val _ hc).1

theorem length_b64enc (f : Field n) : (b64enc lib f).length = 4 * ((n + 2) / 3) := by
  rw [b64enc, lib.length_bin2base64, f.2]

theorem b64enc_ne_nil (f : Field n) (hn : 0 < n) : b64enc lib f ≠ [] := by
  rw [← length_pos_iff, length_b64enc]
  omega

theorem scan_b64enc {width : ℕ} (fmt : List Directive) (f : Field n) (hn : 0 < n)
    (hlen : 4 * ((n + 2) / 3) ≤ width) {rest : Bytes}
    (hrest : ∀ c ∈ rest.head?, Text.isSpace c = true) :
    scan (.word width :: fmt) (b64enc lib f ++ rest) = .word (b64enc lib f) :: scan fmt rest :=
  scan_word fmt (b64enc_ne_nil f hn) ((length_b64enc f).trans_le hlen) (graphic_b64enc f).isSpace
    hrest

theorem scan_b64enc_end {width : ℕ} (f : Field n) (hn : 0 < n) (hlen : 4 * ((n + 2) / 3) ≤ width) :
    scan [.word width] (b64enc lib f) = [.word (b64enc lib f)] := by
  have hend : ∀ c ∈ ([] : Bytes).head?, isSpace c = true := by simp
  have hscan : scan [.word width] (b64enc lib f ++ []) = _ := scan_b64enc [] f hn hlen hend
  rwa [append_nil, scan] at hscan

/-- A field is read back over whatever was there. -/
theorem b64dec_b64enc (f g : Field n) : b64dec lib g (b64enc lib f) = (f, n) := by
  rw [b64dec, b64enc, lib.base642bin_bin2base64 _ n f.2.le]
  simp [Arr.ofList_append]

/-! ### Times -/

section

variable (lib : TextLib) {t : UInt64} (h : t < year10000)

def dateText (t : UInt64) : Bytes :=
  let tm := lib.gmtime t
  intNumeral 4 (tm.year + 1900) ++ 45 :: (intNumeral 2 (tm.mon + 1) ++ 45 :: intNumeral 2 tm.mday)

def clockText (t : UInt64) : Bytes :=
  let tm := lib.gmtime t
  intNumeral 2 tm.hour ++ 58 :: (intNumeral 2 tm.min ++ 58 :: intNumeral 2 tm.sec)

theorem graphic_dateText (t : UInt64) : Graphic (dateText lib t) := by
  simp only [dateText, graphic_append, graphic_cons]
  exact ⟨graphic_intNumeral _ _, by decide, graphic_intNumeral _ _, by decide,
    graphic_intNumeral _ _⟩

theorem graphic_clockText (t : UInt64) : Graphic (clockText lib t) := by
  simp only [clockText, graphic_append, graphic_cons]
  exact ⟨graphic_intNumeral _ _, by decide, graphic_intNumeral _ _, by decide,
    graphic_intNumeral _ _⟩

/-- Whatever the year, a time has no control characters. -/
theorem printable_fmtTime (t : UInt64) : Printable (fmtTime lib t) := by
  have hwhole : fmtTime lib t = (dateText lib t ++ 32 :: clockText lib t).take 19 := by
    simp only [fmtTime, dateText, clockText, append_assoc, cons_append, nil_append]
  rw [hwhole]
  intro c hc
  refine printable_append.mpr ⟨(graphic_dateText lib t).printable, ?_⟩ c (mem_of_mem_take hc)
  exact printable_cons.mpr ⟨by decide, (graphic_clockText lib t).printable⟩

theorem length_fmtTime_le (t : UInt64) : (fmtTime lib t).length ≤ 19 := length_take_le _ _

include h

theorem length_dateText : (dateText lib t).length = 10 := by
  obtain ⟨hyear, hmon, hday, -, -, -⟩ := lib.inRange t h
  simp only [dateText, length_append, length_cons]
  rw [length_intNumeral (by decide) (by omega) (by omega),
    length_intNumeral (by decide) (by omega) (by omega),
    length_intNumeral (by decide) (by omega) (by omega)]

theorem length_clockText : (clockText lib t).length = 8 := by
  obtain ⟨-, -, -, hhour, hmin, hsec⟩ := lib.inRange t h
  simp only [clockText, length_append, length_cons]
  rw [length_intNumeral (by decide) (by omega) (by omega),
    length_intNumeral (by decide) (by omega) (by omega),
    length_intNumeral (by decide) (by omega) (by omega)]

/-- A time is a date and a clock time. -/
theorem fmtTime_eq : fmtTime lib t = dateText lib t ++ 32 :: clockText lib t := by
  have hlen : (dateText lib t ++ 32 :: clockText lib t).length = 19 := by
    simp [length_dateText lib h, length_clockText lib h]
  rw [← take_of_length_le hlen.le]
  simp only [fmtTime, dateText, clockText, append_assoc, cons_append, nil_append]

theorem parseTime_fmtTime : parseTime lib (fmtTime lib t) = t := by
  obtain ⟨hyear, hmon, hday, hhour, hmin, hsec⟩ := lib.inRange t h
  have hscan : scan timeFormat (fmtTime lib t) = [.num ((lib.gmtime t).year + 1900),
      .num ((lib.gmtime t).mon + 1), .num (lib.gmtime t).mday, .num (lib.gmtime t).hour,
      .num (lib.gmtime t).min, .num (lib.gmtime t).sec] := by
    rw [fmtTime_eq lib h, dateText, clockText, ← append_nil (intNumeral 2 (lib.gmtime t).sec)]
    simp only [append_assoc, cons_append]
    rw [timeFormat, scan_int _ _ (by omega) (by omega) (notDigit_head rfl _), scan_literal,
      scan_int _ _ (by omega) (by omega) (notDigit_head rfl _), scan_literal,
      scan_int _ _ (by omega) (by omega) (notDigit_head rfl _),
      scan_blank _ ((graphic_intNumeral _ _).isSpace_head (intNumeral_ne_nil _ _) _),
      scan_int _ _ (by omega) (by omega) (notDigit_head rfl _), scan_literal,
      scan_int _ _ (by omega) (by omega) (notDigit_head rfl _), scan_literal,
      scan_int _ _ (by omega) (by omega) (by simp), scan]
  rw [parseTime, hscan]
  simp only [add_sub_cancel_right]
  exact lib.timegm_gmtime t h

end

/-! ### Lines -/

/-- A text that fits on a line: it has no control characters and is not too long. -/
structure IsLine (line : Bytes) : Prop where
  char : Printable line
  length : line.length ≤ 8190

variable {line : Bytes}

theorem IsLine.notMem (h : IsLine line) (hc : c < 32) : c ∉ line :=
  fun hmem => absurd (h.char c hmem) (UInt8.not_le.mpr hc)

theorem tmpLine_eq (h : line.length ≤ 8190) : tmpLine line = line ++ [10] :=
  take_of_length_le (by rw [length_append]; exact Nat.succ_le_succ h)

theorem splitLines_line (h : 10 ∉ line) (rest : Bytes) :
    splitLines (line ++ 10 :: rest) = (line ++ [10]) :: splitLines rest := by
  induction line with
  | nil => rfl
  | cons c line ih =>
    rw [mem_cons, not_or] at h
    rw [cons_append, splitLines, if_neg (Ne.symm h.1), ih h.2]
    rfl

theorem lineText_line (h : IsLine line) : lineText (line ++ [10]) = line := by
  have hlen : (line ++ [10]).length = line.length + 1 := by simp
  have htake : (line ++ [10]).take 8191 = line ++ [10] := tmpLine_eq h.length
  have hset : (line ++ [10]).set line.length 0 = line ++ [0] := by simp
  -- The character before the newline is no carriage return.
  have hlast : ¬ (line.length + 1 > 1 ∧ (line ++ [0])[line.length + 1 - 2]? = some 13) := by
    rintro ⟨hpos, hcr⟩
    rw [getElem?_append_left (by omega)] at hcr
    exact h.notMem (by decide) (mem_of_getElem? hcr)
  have hnul : ∀ c ∈ line, (c != 0) = true := by
    intro c hc
    rw [bne_iff_ne]
    rintro rfl
    exact h.notMem (by decide) hc
  simp only [lineText, htake, hlen, Nat.add_sub_cancel, getElem?_concat_length, if_true, hset,
    if_neg hlast, takeWhile_append_of_pos hnul]
  simp

/-! ### Texts -/

/-- Over the text the parser gets from one state to another. -/
def Reads (lib : TextLib) (stack : Field 32) (text : Bytes) (st st' : TextState) : Prop :=
  ∀ rest, parseLines lib stack (splitLines (text ++ rest)) st
    = parseLines lib stack (splitLines rest) st'

section Reads

variable {lib : TextLib} {stack : Field 32} {st st' st'' : TextState} {line text text' : Bytes}

theorem Reads.nil : Reads lib stack [] st st := fun _ => rfl

theorem Reads.append (h : Reads lib stack text st st') (h' : Reads lib stack text' st' st'') :
    Reads lib stack (text ++ text') st st'' := by
  intro rest
  rw [append_assoc, h, h']

theorem Reads.ofLine (hline : IsLine line) (h : parseLine lib stack line st = .next st') :
    Reads lib stack (line ++ [10]) st st' := by
  intro rest
  rw [append_assoc, singleton_append, splitLines_line (hline.notMem (by decide)),
    parseLines, lineText_line hline, h]

theorem Reads.ofTmpLine (hline : IsLine line) (h : parseLine lib stack line st = .next st') :
    Reads lib stack (tmpLine line) st st' := by
  rw [tmpLine_eq hline.length]
  exact .ofLine hline h

end Reads

/-! ### The header -/

section

variable {lib : TextLib} {stack : Field 32} {st : TextState}

theorem isLine_of_graphic {key s : Bytes} (hkey : Printable key) (hs : Graphic s)
    (hlen : key.length + s.length ≤ 8190) : IsLine (key ++ s) :=
  ⟨printable_append.mpr ⟨hkey, hs.printable⟩, by rwa [length_append]⟩

theorem isLine_time {key : Bytes} (hkey : Printable key) (hlen : key.length ≤ 30) (t : UInt64) :
    IsLine (key ++ fmtTime lib t) := by
  have htime := length_fmtTime_le lib t
  refine ⟨printable_append.mpr ⟨hkey, printable_fmtTime lib t⟩, ?_⟩
  rw [length_append]
  omega

theorem parseLine_validAfter (s : Bytes) : parseLine lib stack (ascii "valid-after " ++ s) st
    = .next { st with validAfter := parseTime lib s } := rfl

theorem parseLine_freshUntil (s : Bytes) : parseLine lib stack (ascii "fresh-until " ++ s) st
    = .next { st with freshUntil := parseTime lib s } := rfl

theorem parseLine_validUntil (s : Bytes) : parseLine lib stack (ascii "valid-until " ++ s) st
    = .next { st with validUntil := parseTime lib s } := rfl

theorem isLine_knownFlags : IsLine knownFlagsLine := by
  refine ⟨?_, by decide⟩
  simp only [knownFlagsLine, printable_append]
  exact ⟨by decide, by decide, by decide⟩

theorem parseLine_knownFlags (s : Bytes) :
    parseLine lib stack (ascii "known-flags " ++ s) st = .next st := rfl

/-- A header line with a shared random value. -/
theorem parseLine_srvCurrent (f : Field 32) :
    parseLine lib stack (ascii "shared-rand-current-value " ++ b64enc lib f) st
      = .next { st with srvCurrent := f } := by
  have hline : ∀ s, parseLine lib stack (ascii "shared-rand-current-value " ++ s) st
      = if (b64dec lib st.srvCurrent s).2 = 0 then .malformed
        else .next { st with srvCurrent := (b64dec lib st.srvCurrent s).1 } := fun _ => rfl
  rw [hline, b64dec_b64enc]
  rfl

theorem parseLine_srvPrevious (f : Field 32) :
    parseLine lib stack (ascii "shared-rand-previous-value " ++ b64enc lib f) st
      = .next { st with srvPrevious := f } := by
  have hline : ∀ s, parseLine lib stack (ascii "shared-rand-previous-value " ++ s) st
      = if (b64dec lib st.srvPrevious s).2 = 0 then .malformed
        else .next { st with srvPrevious := (b64dec lib st.srvPrevious s).1 } := fun _ => rfl
  rw [hline, b64dec_b64enc]
  rfl

/-- The header sets the times and the shared random values. -/
theorem reads_header {cons : FullConsensus} (hafter : cons.validAfter < year10000)
    (hfresh : cons.freshUntil < year10000) (huntil : cons.validUntil < year10000) :
    Reads lib stack (headerTexts lib cons).flatten st { st with
      validAfter := cons.validAfter
      freshUntil := cons.freshUntil
      validUntil := cons.validUntil
      srvCurrent := cons.srvCurrent
      srvPrevious := cons.srvPrevious } := by
  have hb64 : ∀ {key : Bytes} (f : Field 32), Printable key → key.length ≤ 30 →
      IsLine (key ++ b64enc lib f) := fun f hkey hlen =>
    isLine_of_graphic hkey (graphic_b64enc f) (by rw [length_b64enc]; omega)
  simp only [headerTexts, flatten_cons, flatten_nil]
  refine .append (.ofLine ⟨by decide, by decide⟩ rfl) <|
    .append (.ofTmpLine (isLine_time (by decide) (by decide) _) (parseLine_validAfter _)) <|
    .append (.ofTmpLine (isLine_time (by decide) (by decide) _) (parseLine_freshUntil _)) <|
    .append (.ofTmpLine (isLine_time (by decide) (by decide) _) (parseLine_validUntil _)) <|
    .append (.ofLine isLine_knownFlags (parseLine_knownFlags _)) <|
    .append (.ofTmpLine (hb64 _ (by decide) (by decide)) (parseLine_srvCurrent _)) <|
    .append (.ofTmpLine (hb64 _ (by decide) (by decide)) (parseLine_srvPrevious _)) ?_
  simp only [parseTime_fmtTime lib hafter, parseTime_fmtTime lib hfresh,
    parseTime_fmtTime lib huntil]
  exact .nil

end

end Moor
