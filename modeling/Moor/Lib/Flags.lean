import Mathlib.Data.UInt

/-!
# Flag words

32-bit words read as sets of flags, tested against a mask and joined by bitwise or.
-/

namespace Flags

open BitVec

/-- The word whose only set bit is bit `k`. -/
def bit (k : ℕ) : UInt32 := UInt32.ofNat (2 ^ k)

/-- The word has at least one of the flags of the mask. -/
def has (w mask : UInt32) : Bool := w &&& mask != 0

/-- The word without the flags of the mask. -/
def clear (w mask : UInt32) : UInt32 := w &&& ~~~mask

variable {w mask : UInt32}

theorem has_iff : has w mask = true ↔ w &&& mask ≠ 0 := by simp [has]

theorem has_self (h : mask ≠ 0) : has mask mask = true := by simp [has, h]

theorem and_or (w a b : UInt32) : w &&& (a ||| b) = w &&& a ||| w &&& b := by
  apply UInt32.toBitVec_inj.mp
  simp [and_or_distrib_left]

theorem has_or (w a b : UInt32) : has w (a ||| b) = (has w a || has w b) := by
  rw [Bool.eq_iff_iff]
  simp only [has_iff, and_or, Bool.or_eq_true, ne_eq, UInt32.or_eq_zero_iff]
  tauto

theorem or_has (v w a : UInt32) : has (v ||| w) a = (has v a || has w a) := by
  have hcomm : ∀ x y : UInt32, has x y = has y x := by
    intro x y
    rw [has, has, UInt32.and_comm]
  simp [hcomm, has_or]

/-- A word with all flags of a mask has each of them. -/
theorem has_of_and_eq {a : UInt32} (h : w &&& mask = mask) (ha : has mask a = true) :
    has w a = true := by
  rw [has_iff] at ha ⊢
  intro hzero
  apply ha
  rw [← h, UInt32.and_comm w, UInt32.and_assoc, hzero, UInt32.and_zero]

theorem toBitVec_bit (k : ℕ) : (bit k).toBitVec = BitVec.twoPow 32 k := by
  apply eq_of_toNat_eq
  simp [bit, toNat_twoPow]

/-- A word that has a one-bit flag is unchanged when the flag is set again. -/
theorem or_bit_eq_self {k : ℕ} (h : has w (bit k) = true) : w ||| bit k = w := by
  have hbit : w.toBitVec.getLsbD k = true := by
    by_contra hoff
    apply has_iff.mp h
    apply UInt32.toBitVec_inj.mp
    simp [toBitVec_bit, and_twoPow, hoff]
  apply UInt32.toBitVec_inj.mp
  rw [UInt32.toBitVec_or, toBitVec_bit]
  apply eq_of_getLsbD_eq
  intro i hi
  by_cases hki : k = i
  · subst hki
    simp [hbit]
  · simp [hki]

/-- A one-bit flag is in a word as a whole or not at all. -/
theorem and_bit (w : UInt32) (k : ℕ) : w &&& bit k = if has w (bit k) then bit k else 0 := by
  split
  · rename_i h
    have habsorb : (w ||| bit k) &&& bit k = bit k := by
      apply UInt32.toBitVec_inj.mp
      apply eq_of_getLsbD_eq
      intro i _
      rw [UInt32.toBitVec_and, UInt32.toBitVec_or, getLsbD_and, getLsbD_or]
      cases (bit k).toBitVec.getLsbD i <;> simp
    rwa [or_bit_eq_self h] at habsorb
  · rename_i h
    simpa [has] using h

/-- The one-bit flags of a table that a word has are, joined, the word cut down to the table. -/
theorem foldl_or_filter {α : Type*} (flag : α → UInt32) {table : List α}
    (h : ∀ row ∈ table, ∃ k, flag row = bit k) (w acc : UInt32) :
    (table.filter fun row => has w (flag row)).foldl (fun v row => v ||| flag row) (w &&& acc)
      = w &&& table.foldl (fun v row => v ||| flag row) acc := by
  induction table generalizing acc with
  | nil => rfl
  | cons row table ih =>
    obtain ⟨k, hk⟩ := h row List.mem_cons_self
    have hrow := and_bit w k
    rw [← hk] at hrow
    rw [List.foldl_cons, ← ih (fun r hr => h r (List.mem_cons_of_mem row hr)), and_or, hrow]
    split
    · rename_i hhas
      rw [List.filter_cons_of_pos (by exact hhas), List.foldl_cons]
    · rename_i hnot
      rw [List.filter_cons_of_neg (by exact hnot), UInt32.or_zero]

variable {f : UInt32}

/-- Clearing other flags leaves a flag alone. -/
theorem has_clear_of_disjoint (h : f &&& ~~~mask = f) : has (clear w mask) f = has w f := by
  rw [has, has, clear, UInt32.and_assoc, UInt32.and_comm (~~~mask), h]

theorem has_clear_eq_false (h : f &&& ~~~mask = 0) : has (clear w mask) f = false := by
  rw [has, clear, UInt32.and_assoc, UInt32.and_comm (~~~mask), h, UInt32.and_zero]
  rfl

theorem has_of_has_clear (h : has (clear w mask) f = true) : has w f = true := by
  rw [has_iff] at h ⊢
  intro hzero
  apply h
  rw [clear, UInt32.and_comm w, UInt32.and_assoc, hzero, UInt32.and_zero]

/-- A flag of the mask is kept when the word is cut down to the mask. -/
theorem has_and_of_mask (h : f &&& mask = f) : has (w &&& mask) f = has w f := by
  rw [has, has, UInt32.and_assoc, UInt32.and_comm mask, h]

/-- Changing only flags of the mask does not change what is left once they are cleared. -/
theorem clear_xor_and (w v mask : UInt32) : clear (w ^^^ (v &&& mask)) mask = clear w mask := by
  apply UInt32.toBitVec_inj.mp
  apply eq_of_getLsbD_eq
  intro i hi
  simp only [clear, UInt32.toBitVec_and, UInt32.toBitVec_xor, UInt32.toBitVec_not,
    getLsbD_and, getLsbD_xor, getLsbD_not, hi, decide_true, Bool.true_and]
  cases w.toBitVec.getLsbD i <;> cases v.toBitVec.getLsbD i <;>
    cases mask.toBitVec.getLsbD i <;> rfl

end Flags
