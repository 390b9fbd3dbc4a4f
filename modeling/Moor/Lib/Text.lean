import Mathlib.Data.List.TakeWhile
import Mathlib.Tactic.Ring

/-!
# C strings and decimal numerals

The string functions that hand-written C parsers are made of, on lists of bytes: cutting a string
at the first or the last occurrence of a character (`strchr`, `strrchr` and a `NUL` written
there), finding a string in another (`strstr`), and reading a number from the start of a string
(`strtol`, `strtoul`, `atoi`).
-/

namespace Text

open List

/-- A letter in lower case. -/
def tolower (c : UInt8) : UInt8 := if 65 ≤ c ∧ c ≤ 90 then c + 32 else c

/-! ## Cutting a string at a character -/

/-- The pieces before and after the first occurrence of a character. -/
def splitFirst (c : UInt8) : List UInt8 → Option (List UInt8 × List UInt8)
  | [] => none
  | d :: s => if d = c then some ([], s) else (splitFirst c s).map fun p => (d :: p.1, p.2)

/-- The pieces before and after the last occurrence of a character. -/
def splitLast (c : UInt8) : List UInt8 → Option (List UInt8 × List UInt8)
  | [] => none
  | d :: s =>
    match splitLast c s with
    | some p => some (d :: p.1, p.2)
    | none => if d = c then some ([], s) else none

theorem splitFirst_of_notMem {c : UInt8} {s : List UInt8} (h : c ∉ s) : splitFirst c s = none := by
  induction s with
  | nil => rfl
  | cons d s ih =>
    rw [mem_cons, not_or] at h
    simp [splitFirst, if_neg (Ne.symm h.1), ih h.2]

theorem splitFirst_append {c : UInt8} {s : List UInt8} (h : c ∉ s) (t : List UInt8) :
    splitFirst c (s ++ c :: t) = some (s, t) := by
  induction s with
  | nil => exact if_pos rfl
  | cons d s ih =>
    rw [mem_cons, not_or] at h
    simp [splitFirst, if_neg (Ne.symm h.1), ih h.2]

theorem splitLast_of_notMem {c : UInt8} {s : List UInt8} (h : c ∉ s) : splitLast c s = none := by
  induction s with
  | nil => rfl
  | cons d s ih =>
    rw [mem_cons, not_or] at h
    rw [splitLast, ih h.2]
    exact if_neg (Ne.symm h.1)

theorem splitLast_append {c : UInt8} (s : List UInt8) {t : List UInt8} (h : c ∉ t) :
    splitLast c (s ++ c :: t) = some (s, t) := by
  induction s with
  | nil =>
    rw [nil_append, splitLast, splitLast_of_notMem h]
    exact if_pos rfl
  | cons d s ih => simp [splitLast, ih]

/-! ## Finding a string -/

/-- The string from the first occurrence of another on. -/
def strstr (needle : List UInt8) : List UInt8 → Option (List UInt8)
  | [] => if needle.isEmpty then some [] else none
  | c :: s => if needle.isPrefixOf (c :: s) then some (c :: s) else strstr needle s

theorem strstr_self (needle s : List UInt8) : strstr needle (needle ++ s) = some (needle ++ s) := by
  have hfound : needle.isPrefixOf (needle ++ s) = true := by simp
  cases h : needle ++ s with
  | nil =>
    rw [append_eq_nil_iff.mp h |>.1]
    rfl
  | cons c t => rw [strstr, if_pos (h ▸ hfound)]

/-- A string does not start where its first character does not occur. -/
theorem strstr_append {a : UInt8} {t : List UInt8} (needle : List UInt8) (h : a ∉ t)
    (s : List UInt8) : strstr (a :: needle) (t ++ s) = strstr (a :: needle) s := by
  induction t with
  | nil => rfl
  | cons c t ih =>
    rw [mem_cons, not_or] at h
    have hne : (a == c) = false := beq_false_of_ne h.1
    rw [cons_append, strstr, isPrefixOf, hne, Bool.false_and, if_neg Bool.false_ne_true, ih h.2]

theorem strstr_of_notMem {a : UInt8} {s : List UInt8} (needle : List UInt8) (h : a ∉ s) :
    strstr (a :: needle) s = none := by
  have hend := strstr_append needle h []
  rwa [append_nil] at hend

/-! ## Numbers -/

def isDigit (c : UInt8) : Bool := 48 ≤ c && c ≤ 57

/-- White space, as `isspace` has it. -/
def isSpace (c : UInt8) : Bool := c = 32 || (9 ≤ c && c ≤ 13)

/-- The number that the digits at the start of a string extend a number to, and what follows. -/
def readDigits : List UInt8 → ℕ → ℕ × List UInt8
  | [], n => (n, [])
  | c :: s, n => if isDigit c then readDigits s (10 * n + (c.toNat - 48)) else (n, c :: s)

/-- A `long` of 64 bits keeps to its range. -/
def clampLong (x : ℤ) : ℤ := max (-2 ^ 63) (min x (2 ^ 63 - 1))

/-- The number at the start of a string and what follows it; `none` when there is no number, so
that `strtol` leaves its end pointer at the start. -/
def strtol (s : List UInt8) : Option (ℤ × List UInt8) :=
  let t := s.dropWhile isSpace
  let negative := t.head? = some 45
  let u := if t.head? = some 45 ∨ t.head? = some 43 then t.tail else t
  match u with
  | [] => none
  | c :: _ =>
    if isDigit c then
      let n := readDigits u 0
      some (clampLong (if negative then -n.1 else n.1), n.2)
    else none

/-- The same for an `unsigned long`: a number out of range becomes the largest one, and a minus sign
takes the number modulo `2 ^ 64`. -/
def strtoul (s : List UInt8) : Option (ℕ × List UInt8) :=
  let t := s.dropWhile isSpace
  let negative := t.head? = some 45
  let u := if t.head? = some 45 ∨ t.head? = some 43 then t.tail else t
  match u with
  | [] => none
  | c :: _ =>
    if isDigit c then
      let n := readDigits u 0
      some (if 2 ^ 64 ≤ n.1 then 2 ^ 64 - 1
        else if negative then (2 ^ 64 - n.1) % 2 ^ 64 else n.1, n.2)
    else none

/-- The same number as an `int`: what `strtol` gives, taken modulo `2 ^ 32`. -/
def atoi (s : List UInt8) : ℤ := Int.bmod (((strtol s).map Prod.fst).getD 0) (2 ^ 32)

/-- The numeral of a natural number. -/
def decimal (n : ℕ) : List UInt8 :=
  if n < 10 then [UInt8.ofNat (48 + n)] else decimal (n / 10) ++ [UInt8.ofNat (48 + n % 10)]

variable (width k n : ℕ) (s : List UInt8)

/-- The numeral of an integer, filled up with zeros to a width, as `printf` writes it. -/
def intNumeral (z : ℤ) : List UInt8 :=
  let digits := decimal z.natAbs
  if z < 0 then 45 :: (List.replicate (width - 1 - digits.length) 48 ++ digits)
  else List.replicate (width - digits.length) 48 ++ digits

theorem toNat_digit {d : ℕ} (h : d < 10) : (UInt8.ofNat (48 + d)).toNat = 48 + d := by
  rw [UInt8.toNat_ofNat']
  omega

theorem isDigit_digit {d : ℕ} (h : d < 10) : isDigit (UInt8.ofNat (48 + d)) = true := by
  simp only [isDigit, UInt8.le_iff_toNat_le, toNat_digit h, Bool.and_eq_true, decide_eq_true_eq]
  exact ⟨Nat.le_add_right 48 d, by simpa using (by omega : 48 + d ≤ 57)⟩

theorem decimal_isDigit : ∀ c ∈ decimal n, isDigit c = true := by
  fun_induction decimal n with
  | case1 n h => exact forall_mem_singleton.mpr (isDigit_digit h)
  | case2 n h ih =>
    have hlast := isDigit_digit (Nat.mod_lt n (by decide))
    exact forall_mem_append.mpr ⟨ih, forall_mem_singleton.mpr hlast⟩

theorem notMem_decimal {c : UInt8} (h : isDigit c = false) (n : ℕ) : c ∉ decimal n := by
  intro hc
  rw [decimal_isDigit n c hc] at h
  cases h

theorem decimal_ne_nil : decimal n ≠ [] := by
  rw [decimal]
  split
  · exact cons_ne_nil _ _
  · exact append_ne_nil_of_right_ne_nil _ (cons_ne_nil _ _)

theorem length_decimal_le {n k : ℕ} (hk : 0 < k) (h : n < 10 ^ k) : (decimal n).length ≤ k := by
  induction k generalizing n with
  | zero => exact absurd hk (Nat.lt_irrefl 0)
  | succ k ih =>
    rw [decimal]
    split
    · exact hk
    rename_i hn
    have hpos : 0 < k := by
      by_contra h0
      rw [Nat.eq_zero_of_not_pos h0] at h
      exact hn h
    have hdiv : n / 10 < 10 ^ k := by
      rw [Nat.div_lt_iff_lt_mul (by decide), ← pow_succ]
      exact h
    rw [length_append]
    exact Nat.succ_le_succ (ih hpos hdiv)

theorem readDigits_digit {d : ℕ} (h : d < 10) (s : List UInt8) (n : ℕ) :
    readDigits (UInt8.ofNat (48 + d) :: s) n = readDigits s (10 * n + d) := by
  rw [readDigits, if_pos (isDigit_digit h), toNat_digit h, Nat.add_sub_cancel_left]

/-- A numeral shifts the number read so far by its length. -/
theorem readDigits_decimal_append (acc : ℕ) :
    readDigits (decimal n ++ s) acc = readDigits s (10 ^ (decimal n).length * acc + n) := by
  fun_induction decimal n generalizing s with
  | case1 n h =>
    rw [singleton_append, readDigits_digit h, length_singleton, pow_one]
  | case2 n h ih =>
    rw [append_assoc, ih, singleton_append, readDigits_digit (Nat.mod_lt n (by decide)),
      length_append, length_singleton, pow_succ]
    congr 1
    have hn := Nat.div_add_mod n 10
    calc 10 * (10 ^ (decimal (n / 10)).length * acc + n / 10) + n % 10
        = 10 ^ (decimal (n / 10)).length * 10 * acc + (10 * (n / 10) + n % 10) := by ring
      _ = 10 ^ (decimal (n / 10)).length * 10 * acc + n := by rw [hn]

/-- Reading stops at the first character that is no digit. -/
theorem readDigits_stop {s : List UInt8} (h : ∀ c ∈ s.head?, isDigit c = false) (n : ℕ) :
    readDigits s n = (n, s) := by
  cases s with
  | nil => rfl
  | cons c s =>
    have hc : isDigit c = false := h c rfl
    rw [readDigits, hc]
    rfl

theorem isDigit_iff (c : UInt8) : isDigit c = true ↔ 48 ≤ c.toNat ∧ c.toNat ≤ 57 := by
  rw [isDigit, Bool.and_eq_true, decide_eq_true_eq, decide_eq_true_eq, UInt8.le_iff_toNat_le,
    UInt8.le_iff_toNat_le]
  rfl

/-- A digit is neither white space nor a sign. -/
theorem plain_of_isDigit {c : UInt8} (h : isDigit c = true) :
    isSpace c = false ∧ c ≠ 45 ∧ c ≠ 43 := by
  rw [isDigit_iff] at h
  refine ⟨?_, ?_, ?_⟩
  · simp only [isSpace, Bool.or_eq_false_iff, decide_eq_false_iff_not, Bool.and_eq_false_imp,
      decide_eq_true_eq]
    refine ⟨?_, ?_⟩
    · rintro rfl
      exact absurd h.1 (by decide)
    · intro _ hle
      exact absurd (Nat.le_trans h.1 (UInt8.le_iff_toNat_le.mp hle)) (by decide)
  · rintro rfl
    exact absurd h.1 (by decide)
  · rintro rfl
    exact absurd h.1 (by decide)

theorem readDigits_zeros : readDigits (List.replicate k 48 ++ s) 0 = readDigits s 0 := by
  induction k with
  | zero => rfl
  | succ k ih =>
    exact ih

/-- A numeral, filled up with zeros, is read digit by digit. -/
theorem readDigits_filled {s : List UInt8} (h : ∀ c ∈ s.head?, isDigit c = false) :
    readDigits (List.replicate k 48 ++ decimal n ++ s) 0 = (n, s) := by
  rw [append_assoc, readDigits_zeros, readDigits_decimal_append, mul_zero, zero_add,
    readDigits_stop h]

theorem filled_isDigit : ∀ c ∈ List.replicate k 48 ++ decimal n, isDigit c = true := by
  refine forall_mem_append.mpr ⟨fun c hc => ?_, decimal_isDigit n⟩
  rw [eq_of_mem_replicate hc]
  rfl

/-- A filled numeral starts with a digit. -/
theorem exists_cons_filled :
    ∃ c t, List.replicate k 48 ++ decimal n ++ s = c :: t ∧ isDigit c = true := by
  cases h : replicate k 48 ++ decimal n with
  | nil => exact absurd (append_eq_nil_iff.mp h).2 (decimal_ne_nil n)
  | cons c t =>
    exact ⟨c, t ++ s, rfl, filled_isDigit k n c (h ▸ mem_cons_self)⟩

/-- `strtol` reads the numeral of an integer back. -/
theorem strtol_intNumeral {z : ℤ} (hlo : -2 ^ 63 ≤ z) (hhi : z < 2 ^ 63) {s : List UInt8}
    (h : ∀ c ∈ s.head?, isDigit c = false) : strtol (intNumeral width z ++ s) = some (z, s) := by
  have hclamp : clampLong z = z := by
    rw [clampLong]
    omega
  unfold intNumeral
  split
  · have habs : -(z.natAbs : ℤ) = z := by omega
    generalize z.natAbs = n at habs ⊢
    obtain ⟨c, t, hct, hc⟩ := exists_cons_filled (width - 1 - (decimal n).length) n s
    have hread := readDigits_filled (width - 1 - (decimal n).length) n h
    rw [hct] at hread
    rw [cons_append, hct]
    simp [strtol, isSpace, hc, hread, habs, hclamp]
  · have habs : (z.natAbs : ℤ) = z := by omega
    obtain ⟨c, t, hct, hc⟩ := exists_cons_filled (width - (decimal z.natAbs).length) z.natAbs s
    have hread := readDigits_filled (width - (decimal z.natAbs).length) z.natAbs h
    have hplain := plain_of_isDigit hc
    rw [hct] at hread
    rw [hct]
    simp only [strtol, dropWhile_cons, hplain, Bool.false_eq_true, if_false, head?_cons,
      Option.some.injEq, or_self, hc, if_true, hread, habs, hclamp]

/-- A numeral that is filled up has the width asked for. -/
theorem length_intNumeral {width : ℕ} (hw : 0 < width) {z : ℤ} (hlo : 0 ≤ z)
    (hhi : z < 10 ^ width) : (intNumeral width z).length = width := by
  have habs : z.natAbs < 10 ^ width := by
    have hcast : ((z.natAbs : ℕ) : ℤ) < ((10 ^ width : ℕ) : ℤ) := by
      rw [Int.natAbs_of_nonneg hlo]
      exact_mod_cast hhi
    exact Int.ofNat_lt.mp hcast
  have hlen := length_decimal_le hw habs
  rw [intNumeral, if_neg (by omega), length_append, length_replicate]
  omega

/-- A numeral consists of digits and perhaps a minus sign. -/
theorem char_intNumeral {width : ℕ} {z : ℤ} {c : UInt8} (h : c ∈ intNumeral width z) :
    c = 45 ∨ isDigit c = true := by
  unfold intNumeral at h
  split at h
  · rcases mem_cons.mp h with h | h
    · exact .inl h
    · exact .inr (filled_isDigit _ _ c h)
  · exact .inr (filled_isDigit _ _ c h)

theorem intNumeral_ne_nil (z : ℤ) : intNumeral width z ≠ [] := by
  unfold intNumeral
  split
  · exact cons_ne_nil _ _
  · exact append_ne_nil_of_right_ne_nil _ (decimal_ne_nil _)

theorem intNumeral_natCast : intNumeral 0 n = decimal n := by
  simp [intNumeral]

theorem strtol_decimal {n : ℕ} (hn : n < 2 ^ 63) {s : List UInt8}
    (h : ∀ c ∈ s.head?, isDigit c = false) : strtol (decimal n ++ s) = some ((n : ℤ), s) := by
  rw [← intNumeral_natCast]
  exact strtol_intNumeral 0 (by omega) (by omega) h

theorem strtoul_decimal {n : ℕ} (hn : n < 2 ^ 64) {s : List UInt8}
    (h : ∀ c ∈ s.head?, isDigit c = false) : strtoul (decimal n ++ s) = some (n, s) := by
  obtain ⟨c, t, hct, hc⟩ := exists_cons_filled 0 n s
  have hread := readDigits_filled 0 n h
  have hplain := plain_of_isDigit hc
  rw [replicate_zero, nil_append] at hct hread
  rw [hct] at hread ⊢
  simp only [strtoul, dropWhile_cons, hplain, Bool.false_eq_true, if_false, head?_cons,
    Option.some.injEq, or_self, hc, if_true, hread, if_neg (Nat.not_le.mpr hn)]

theorem atoi_decimal {n : ℕ} (hn : n < 2 ^ 31) : atoi (decimal n) = n := by
  have hread : strtol (decimal n) = some ((n : ℤ), []) := by
    have h := @strtol_decimal n (by omega) [] (fun _ hc => nomatch hc)
    rwa [append_nil] at h
  rw [atoi, hread, Option.map_some, Option.getD_some]
  exact Int.bmod_eq_of_le (by omega) (by omega)

end Text
