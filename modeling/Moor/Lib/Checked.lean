import Mathlib.Algebra.Order.Ring.Int

/-!
# Arithmetic that fails when it leaves its type

Machine integers as integers whose operations fail instead of wrapping around, so that a program
written with them says by succeeding that no operation leaves its type.
-/

namespace Checked

/-- A signed integer of a width. -/
def signed (width : ℕ) (x : ℤ) : Option ℤ :=
  if -2 ^ (width - 1) ≤ x ∧ x < 2 ^ (width - 1) then some x else none

/-- An unsigned integer of a width. -/
def unsigned (width : ℕ) (x : ℤ) : Option ℕ :=
  if 0 ≤ x ∧ x < 2 ^ width then some x.toNat else none

/-- Division towards zero. -/
def quotient (x y : ℤ) : Option ℤ := if y = 0 then none else some (x.tdiv y)

theorem signed_eq_some (width : ℕ) {x : ℤ} (hlow : -2 ^ (width - 1) ≤ x)
    (hhigh : x < 2 ^ (width - 1)) : signed width x = some x := if_pos ⟨hlow, hhigh⟩

theorem unsigned_eq_some (width : ℕ) {x : ℤ} (hlow : 0 ≤ x) (hhigh : x < 2 ^ width) :
    unsigned width x = some x.toNat := if_pos ⟨hlow, hhigh⟩

theorem quotient_eq_some {x y : ℤ} (h : y ≠ 0) : quotient x y = some (x.tdiv y) := if_neg h

end Checked
