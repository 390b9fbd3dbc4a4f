import Mathlib.Data.Nat.Bitwise

/-!
# Feistel networks

A network of rounds on pairs of words, each of which adds a function of one half to the other and
swaps the halves. It is undone by the rounds in reverse, whatever the functions are.

## Main results

* `decrypt_encrypt`, `encrypt_decrypt`: a network is undone.
* `ofHalves_halves`, `halves_ofHalves`: words of 64 bits are pairs of words of 32 bits.
-/

namespace Feistel

variable (f : UInt32 → UInt32) (fs : List (UInt32 → UInt32)) (x : UInt32 × UInt32)

/-- A round: the halves are swapped, and one is changed by a function of the other. -/
def round (x : UInt32 × UInt32) : UInt32 × UInt32 := (x.2, x.1 ^^^ f x.2)

/-- A round in reverse. -/
def unround (x : UInt32 × UInt32) : UInt32 × UInt32 := (x.2 ^^^ f x.1, x.1)

@[simp]
theorem unround_round : unround f (round f x) = x := by
  simp only [unround, round, UInt32.xor_assoc, UInt32.xor_self, UInt32.xor_zero]

@[simp]
theorem round_unround : round f (unround f x) = x := by
  simp only [unround, round, UInt32.xor_assoc, UInt32.xor_self, UInt32.xor_zero]

def encrypt (x : UInt32 × UInt32) : UInt32 × UInt32 :=
  fs.foldl (fun x f => round f x) x

/-- The rounds from the last to the first, in reverse. -/
def decrypt (x : UInt32 × UInt32) : UInt32 × UInt32 :=
  fs.foldr unround x

theorem decrypt_encrypt : decrypt fs (encrypt fs x) = x := by
  induction fs generalizing x with
  | nil => rfl
  | cons f fs ih =>
    change unround f (decrypt fs (encrypt fs (round f x))) = x
    rw [ih, unround_round]

theorem encrypt_decrypt : encrypt fs (decrypt fs x) = x := by
  induction fs with
  | nil => rfl
  | cons f fs ih =>
    change encrypt fs (round f (unround f (decrypt fs x))) = x
    rw [round_unround, ih]

/-! ### Words of 64 bits -/

/-- The high and the low half of a word. -/
def halves (w : UInt64) : UInt32 × UInt32 := ((w >>> 32).toUInt32, w.toUInt32)

/-- The word with the given halves. -/
def ofHalves (x : UInt32 × UInt32) : UInt64 := x.1.toUInt64 <<< 32 ||| x.2.toUInt64

theorem toNat_ofHalves : (ofHalves x).toNat = x.1.toNat * 2 ^ 32 + x.2.toNat := by
  have hhigh := x.1.toNat_lt
  have hlow : x.2.toNat < 2 ^ 32 := x.2.toNat_lt
  have hshift : (x.1.toUInt64 <<< 32).toNat = x.1.toNat <<< 32 := by
    change x.1.toNat <<< 32 % 2 ^ 64 = _
    rw [Nat.shiftLeft_eq, Nat.mod_eq_of_lt (by omega)]
  rw [ofHalves, UInt64.toNat_or, hshift, UInt32.toNat_toUInt64,
    ← Nat.shiftLeft_add_eq_or_of_lt hlow, Nat.shiftLeft_eq]

theorem toNat_halves (w : UInt64) :
    (halves w).1.toNat = w.toNat / 2 ^ 32 ∧ (halves w).2.toNat = w.toNat % 2 ^ 32 := by
  have hlt := w.toNat_lt
  have hshift : (w >>> 32).toNat = w.toNat / 2 ^ 32 := by
    rw [UInt64.toNat_shiftRight, Nat.shiftRight_eq_div_pow]
    rfl
  constructor
  · rw [halves, UInt64.toNat_toUInt32, hshift, Nat.mod_eq_of_lt (by omega)]
  · simp [halves]

theorem ofHalves_halves (w : UInt64) : ofHalves (halves w) = w := by
  rw [← UInt64.toNat_inj, toNat_ofHalves, (toNat_halves w).1, (toNat_halves w).2, Nat.div_add_mod']

theorem halves_ofHalves : halves (ofHalves x) = x := by
  have hlow : x.2.toNat < 2 ^ 32 := x.2.toNat_lt
  refine Prod.ext ?_ ?_
  · rw [← UInt32.toNat_inj, (toNat_halves _).1, toNat_ofHalves]
    omega
  · rw [← UInt32.toNat_inj, (toNat_halves _).2, toNat_ofHalves]
    omega

end Feistel
