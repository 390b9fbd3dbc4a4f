import Moor.Lib.Text

/-!
# `sscanf`

Formats of words, numbers, literal characters and white space, matched against the start of a
string. Matching stops at the first directive that fails, and the values converted until then are
the result.
-/

namespace Scanf

open Text List

/-- One directive of a format. -/
inductive Directive
  /-- A word of at most so many characters, `%63s`. -/
  | word (width : ℕ)
  /-- A number for an `int`, `%d`. -/
  | int
  /-- A number for an `unsigned int`, `%u`. -/
  | uint
  | literal (c : UInt8)
  /-- White space of any length. -/
  | blank

/-- A converted value. -/
inductive Value
  | word (s : List UInt8)
  | num (z : ℤ)
  deriving DecidableEq

def scan : List Directive → List UInt8 → List Value
  | [], _ => []
  | .word width :: fmt, s =>
    let t := s.dropWhile isSpace
    let w := (t.takeWhile fun c => !isSpace c).take width
    if w.isEmpty then [] else .word w :: scan fmt (t.drop w.length)
  | .int :: fmt, s =>
    match strtol s with
    | some (z, t) => .num (Int.bmod z (2 ^ 32)) :: scan fmt t
    | none => []
  | .uint :: fmt, s =>
    match strtoul s with
    | some (n, t) => .num ((n % 2 ^ 32 : ℕ) : ℤ) :: scan fmt t
    | none => []
  | .literal c :: fmt, s => if s.head? = some c then scan fmt s.tail else []
  | .blank :: fmt, s => scan fmt (s.dropWhile isSpace)

/-- The words that are converted have no white space. -/
theorem isSpace_of_mem_scan {fmt : List Directive} {s w : List UInt8} {c : UInt8}
    (h : .word w ∈ scan fmt s) (hc : c ∈ w) : isSpace c = false := by
  fun_induction scan fmt s with
  | case1 | case2 | case5 | case7 | case9 => cases h
  | case3 width fmt s t w' hne ih =>
    rcases mem_cons.mp h with heq | h
    · rw [Value.word.inj heq] at hc
      simpa using mem_takeWhile_imp (mem_of_mem_take hc)
    · exact ih h
  | case4 fmt s z t hread ih | case6 fmt s z t hread ih =>
    exact ih ((mem_cons.mp h).resolve_left nofun)
  | case8 c' fmt s hhead ih | case10 fmt s ih => exact ih h

variable (fmt : List Directive)

variable {rest : List UInt8}

/-- A word ends at white space or at the end of the string. -/
theorem scan_word {width : ℕ} {w : List UInt8} (hne : w ≠ []) (hlen : w.length ≤ width)
    (hw : ∀ c ∈ w, isSpace c = false) (hrest : ∀ c ∈ rest.head?, isSpace c = true) :
    scan (.word width :: fmt) (w ++ rest) = .word w :: scan fmt rest := by
  have hdrop : (w ++ rest).dropWhile isSpace = w ++ rest := by
    cases w with
    | nil => exact absurd rfl hne
    | cons c w => rw [cons_append, dropWhile_cons_of_neg (by simp [hw c])]
  have htake : (w ++ rest).takeWhile (fun c => !isSpace c) = w := by
    rw [takeWhile_append_of_pos (by simpa using hw)]
    cases rest with
    | nil => simp
    | cons c rest =>
      rw [takeWhile_cons_of_neg (by simp [hrest c rfl]), append_nil]
  rw [scan, hdrop, htake, take_of_length_le hlen, isEmpty_eq_false_iff.mpr hne,
    if_neg Bool.false_ne_true, drop_left]

theorem scan_int (width : ℕ) {z : ℤ} (hlo : -2 ^ 31 ≤ z) (hhi : z < 2 ^ 31)
    (hrest : ∀ c ∈ rest.head?, isDigit c = false) :
    scan (.int :: fmt) (intNumeral width z ++ rest) = .num z :: scan fmt rest := by
  have hread := strtol_intNumeral width (z := z) (by omega) (by omega) hrest
  have hmod : Int.bmod z (2 ^ 32) = z := Int.bmod_eq_of_le (by omega) (by omega)
  simp only [scan, hread, hmod]

theorem scan_uint {n : ℕ} (hn : n < 2 ^ 32) (hrest : ∀ c ∈ rest.head?, isDigit c = false) :
    scan (.uint :: fmt) (decimal n ++ rest) = .num n :: scan fmt rest := by
  have hread := strtoul_decimal (n := n) (by omega) hrest
  simp only [scan, hread, Nat.mod_eq_of_lt hn]

theorem scan_literal (c : UInt8) (s : List UInt8) :
    scan (.literal c :: fmt) (c :: s) = scan fmt s := by
  simp [scan]

theorem scan_literals (key s : List UInt8) :
    scan (key.map .literal ++ fmt) (key ++ s) = scan fmt s := by
  induction key with
  | nil => rfl
  | cons c key ih => simp [scan_literal, ih]

theorem scan_blank {s : List UInt8} (hs : ∀ c ∈ s.head?, isSpace c = false) :
    scan (.blank :: fmt) (32 :: s) = scan fmt s := by
  have hdrop : s.dropWhile isSpace = s := by
    cases s with
    | nil => rfl
    | cons c s => rw [dropWhile_cons_of_neg (by simp [hs c rfl])]
  rw [scan, dropWhile_cons_of_pos (by decide), hdrop]

/-- White space before a word is skipped. -/
theorem scan_word_space (width : ℕ) (s : List UInt8) :
    scan (.word width :: fmt) (32 :: s) = scan (.word width :: fmt) s := by
  rw [scan, scan, dropWhile_cons_of_pos (by decide)]

end Scanf
