import Mathlib.Data.List.GetD

/-!
# Masks and leading bits

Masking two words with the first `n` bits set compares their first `n` bits. The same holds for
byte strings that are masked byte by byte, where the first `n` bits are the leading bits of the
bytes one after another.
-/

namespace Mask

open BitVec

variable {w : ℕ}

/-- The word whose first `n` bits are set. -/
def firstBits (w n : ℕ) : BitVec w := BitVec.allOnes w <<< (w - n)

/-- Two words agree on their first `n` bits. -/
def Agree (n : ℕ) (x y : BitVec w) : Prop := ∀ i < n, x.getMsbD i = y.getMsbD i

instance (n : ℕ) (x y : BitVec w) : Decidable (Agree n x y) :=
  inferInstanceAs (Decidable (∀ i < n, _))

variable {n : ℕ}

theorem getMsbD_firstBits (h : n ≤ w) (i : ℕ) : (firstBits w n).getMsbD i = decide (i < n) := by
  rw [firstBits, getMsbD_shiftLeft, getMsbD_allOnes]
  exact decide_eq_decide.mpr (by omega)

/-- Two masked words are equal exactly when the words agree on the bits of the mask. -/
theorem and_firstBits_eq_iff (h : n ≤ w) (x y : BitVec w) :
    x &&& firstBits w n = y &&& firstBits w n ↔ Agree n x y := by
  constructor
  · intro heq i hi
    have hbit := congrArg (fun z => getMsbD z i) heq
    simpa only [getMsbD_and, getMsbD_firstBits h, hi, decide_true, Bool.and_true] using hbit
  intro hagree
  apply eq_of_getMsbD_eq
  intro i _
  rw [getMsbD_and, getMsbD_and, getMsbD_firstBits h]
  by_cases hi : i < n
  · rw [hagree i hi]
  · simp [decide_eq_false hi]

/-- Words that agree on their first bits are equal once the others are shifted out. -/
theorem Agree.ushiftRight_eq {x y : BitVec w} (h : Agree n x y) :
    x >>> (w - n) = y >>> (w - n) := by
  apply eq_of_getMsbD_eq
  intro i hi
  rw [getMsbD_ushiftRight, getMsbD_ushiftRight]
  by_cases hshift : i < w - n
  · rw [decide_eq_true hshift, Bool.not_true, Bool.false_and]
    rfl
  · rw [h (i - (w - n)) (by omega)]

/-- The bit at position `i` of a byte string, each byte with its highest bit first. -/
def bit (s : List UInt8) (i : ℕ) : Bool := (s.getD (i / 8) 0).toBitVec.getMsbD (i % 8)

/-- Two byte strings agree on their first `n` bits. -/
def AgreeBytes (n : ℕ) (s t : List UInt8) : Prop := ∀ i < n, bit s i = bit t i

instance (n : ℕ) (s t : List UInt8) : Decidable (AgreeBytes n s t) :=
  inferInstanceAs (Decidable (∀ i < n, _))

/-- Masking `m` bytes one after another compares the first `n` bits, for the mask that has as
many of them in each byte as there are left. -/
theorem agreeBytes_iff {m : ℕ} (h : n ≤ 8 * m) (s t : List UInt8) :
    AgreeBytes n s t ↔
      ∀ k < m, Agree (min 8 (n - 8 * k)) (s.getD k 0).toBitVec (t.getD k 0).toBitVec := by
  constructor
  · intro hagree k _ i hi
    have hbit := hagree (8 * k + i) (by omega)
    have hdiv : (8 * k + i) / 8 = k := by omega
    have hmod : (8 * k + i) % 8 = i := by omega
    rwa [bit, bit, hdiv, hmod] at hbit
  · intro hagree i hi
    exact hagree (i / 8) (by omega) (i % 8) (by omega)

/-- Byte strings that agree on all their bits are equal. -/
theorem agreeBytes_full {m : ℕ} {s t : List UInt8} (hs : s.length = m) (ht : t.length = m) :
    AgreeBytes (8 * m) s t ↔ s = t := by
  constructor
  · intro hagree
    rw [agreeBytes_iff (Nat.le_refl _)] at hagree
    apply List.ext_getElem (hs.trans ht.symm)
    intro k hk hk'
    have hbits := hagree k (hs ▸ hk)
    rw [List.getD_eq_getElem _ _ hk, List.getD_eq_getElem _ _ hk'] at hbits
    apply UInt8.toBitVec_inj.mp
    apply eq_of_getMsbD_eq
    intro i hi
    exact hbits i (by omega)
  · rintro rfl i _
    rfl

end Mask
