import Mathlib.Data.Fin.Basic
import Mathlib.Tactic.Ring

/-!
# Ring buffers

A queue of bounded length in an array: the next element is written at the head, and the oldest
stands as many slots before the head as there are elements. A full ring takes no more elements.
-/

/-- An array with the position of the next element and the number of elements. -/
structure RingBuffer (α : Type*) (n : ℕ) [NeZero n] where
  slots : Fin n → α
  head : Fin n
  count : ℕ
  count_le : count ≤ n

namespace RingBuffer

open List

variable {α : Type*} {n : ℕ} [NeZero n]

/-- The ring without elements. -/
def empty (a : α) : RingBuffer α n := ⟨fun _ => a, 0, 0, Nat.zero_le n⟩

variable (r : RingBuffer α n)

/-- The slot of an element, counted from the oldest. -/
def index (i : ℕ) : Fin n := Fin.ofNat n (r.head + n - r.count + i)

/-- The element that was pushed first, if there is one. -/
def oldest (r : RingBuffer α n) : α := r.slots (r.index 0)

/-- Adds an element, if there is room. -/
def push (a : α) : RingBuffer α n :=
  if h : r.count < n then ⟨Function.update r.slots r.head a, r.head + 1, r.count + 1, h⟩ else r

/-- Takes the oldest element away. -/
def pop (r : RingBuffer α n) : RingBuffer α n :=
  ⟨r.slots, r.head, r.count - 1, (Nat.sub_le ..).trans r.count_le⟩

/-- The elements, the oldest first. -/
def toList (r : RingBuffer α n) : List α := (List.range r.count).map fun i => r.slots (r.index i)

@[simp] theorem length_toList : r.toList.length = r.count := by simp [toList]

@[simp] theorem toList_empty (a : α) : (empty a : RingBuffer α n).toList = [] := rfl

@[simp] theorem count_empty (a : α) : (empty a : RingBuffer α n).count = 0 := rfl

@[simp] theorem count_pop : r.pop.count = r.count - 1 := rfl

variable {r : RingBuffer α n}

theorem pop_of_count_eq_zero (h : r.count = 0) : r.pop = r := by
  cases r
  subst h
  rfl

theorem count_push (h : r.count < n) (a : α) : (r.push a).count = r.count + 1 := by
  rw [push, dif_pos h]

/-- An element that is pushed is the youngest. -/
theorem toList_push (h : r.count < n) (a : α) : (r.push a).toList = r.toList ++ [a] := by
  have hhead := r.head.isLt
  have hsucc : ((r.head + 1 : Fin n) : ℕ) = (r.head + 1) % n := by
    simp [Fin.val_add]
  have hindex (i : ℕ) (hi : i ≤ r.count) :
      ((r.push a).index i : ℕ) = (r.head + n - r.count + i) % n := by
    rw [push, dif_pos h, index, Fin.val_ofNat, hsucc]
    simp only
    by_cases hwrap : (r.head : ℕ) + 1 < n
    · rw [Nat.mod_eq_of_lt hwrap]
      congr 1
      omega
    have hlast : (r.head : ℕ) + 1 = n := by omega
    rw [hlast, Nat.mod_self, ← Nat.add_mod_right]
    congr 1
    omega
  have hslots : (r.push a).slots = Function.update r.slots r.head a := by rw [push, dif_pos h]
  have hold (i : ℕ) (hi : i < r.count) :
      (r.push a).slots ((r.push a).index i) = r.slots (r.index i) := by
    have heq : (r.push a).index i = r.index i := Fin.ext (hindex i hi.le)
    have hne : r.index i ≠ r.head := by
      intro hcontra
      have hval := congrArg Fin.val hcontra
      rw [index, Fin.val_ofNat] at hval
      by_cases hlt : (r.head : ℕ) + n - r.count + i < n
      · rw [Nat.mod_eq_of_lt hlt] at hval
        omega
      · rw [Nat.mod_eq_sub_mod (not_lt.mp hlt), Nat.mod_eq_of_lt (by omega)] at hval
        omega
    rw [heq, hslots, Function.update_of_ne hne]
  have hnew : (r.push a).slots ((r.push a).index r.count) = a := by
    have heq : (r.push a).index r.count = r.head := by
      refine Fin.ext ((hindex _ le_rfl).trans ?_)
      rw [Nat.sub_add_cancel (by omega), Nat.add_mod_right, Nat.mod_eq_of_lt hhead]
    simp [heq, hslots]
  rw [toList, count_push h, range_succ, map_append, map_singleton, hnew, toList]
  congr 1
  exact map_congr_left fun i hi => hold i (mem_range.mp hi)

/-- The oldest element stands first, and is the one that is taken away. -/
theorem toList_eq_cons (h : 0 < r.count) : r.toList = r.oldest :: r.pop.toList := by
  have hcount : r.count = (r.count - 1) + 1 := by omega
  have hhead := r.count_le
  rw [toList, hcount, range_succ_eq_map, map_cons, map_map]
  refine congrArg (r.oldest :: ·) (map_congr_left fun i _ => ?_)
  have hindex : r.index (i + 1) = r.pop.index i := by
    refine congrArg (Fin.ofNat n) ?_
    simp only [pop]
    omega
  exact congrArg r.slots hindex

end RingBuffer
