import Mathlib.Data.List.Perm.Basic

/-!
# Removing entries by swapping with the last one

A loop goes over a list and removes the entries that meet a test: an entry is overwritten with the
last one, the list gets shorter by one, and the entry that came in is tested next. What is left is
what does not meet the test, in some order.

## Main results

* `perm_filter`: the loop keeps the entries that do not meet the test.
-/

namespace SwapRemove

open List

variable {α : Type*} (test : α → Bool)

/-- The iterations of the loop, from index `i` on. -/
def loop : ℕ → ℕ → List α → List α
  | 0, _, xs => xs
  | steps + 1, i, xs =>
    match xs[i]? with
    | none => xs
    | some x =>
      if test x then loop steps i (xs.set i (xs.getLastD x)).dropLast else loop steps (i + 1) xs

/-- Removes the entries that meet the test. Every iteration leaves one entry less to look at. -/
def remove (xs : List α) : List α := loop test xs.length 0 xs

variable {test}

/-- The entry that is removed is replaced by the last of those behind it. -/
theorem dropLast_set (pre post : List α) (x : α) :
    ∃ post', ((pre ++ x :: post).set pre.length ((pre ++ x :: post).getLastD x)).dropLast
      = pre ++ post' ∧ post'.Perm post := by
  rcases eq_nil_or_concat post with rfl | ⟨rest, last, rfl⟩
  · exact ⟨[], by simp, .nil⟩
  rw [concat_eq_append]
  refine ⟨last :: rest, ?_, (perm_append_singleton last rest).symm⟩
  have hlast : (pre ++ x :: (rest ++ [last])).getLastD x = last := by
    rw [← cons_append, ← append_assoc, getLastD_concat]
  rw [hlast, set_append_right _ _ (Nat.le_refl _), Nat.sub_self, set_cons_zero,
    ← cons_append, ← append_assoc, dropLast_concat]

theorem loop_perm (pre post : List α) :
    (loop test post.length pre.length (pre ++ post)).Perm
      (pre ++ post.filter fun x => !test x) := by
  -- Induction on the number of entries that are still to be looked at.
  induction hn : post.length generalizing pre post with
  | zero =>
    rw [length_eq_zero_iff.mp hn]
    simp [loop]
  | succ n ih =>
    obtain ⟨x, post, rfl⟩ := exists_cons_of_length_eq_add_one hn
    have hlen : post.length = n := Nat.succ.inj hn
    have hget : (pre ++ x :: post)[pre.length]? = some x := by simp
    by_cases hx : test x = true
    · obtain ⟨post', hset, hperm⟩ := dropLast_set pre post x
      simp only [loop, hget, hx, if_true, hset]
      rw [filter_cons_of_neg (by simp [hx])]
      exact (ih pre post' (hperm.length_eq.trans hlen)).trans
        ((hperm.filter _).append_left pre)
    · simp only [loop, hget, hx, Bool.false_eq_true, if_false]
      rw [filter_cons_of_pos (by simp [hx])]
      have hrest := ih (pre ++ [x]) post hlen
      simpa using hrest

/-- The loop keeps the entries that do not meet the test. -/
theorem perm_filter (test : α → Bool) (xs : List α) :
    (remove test xs).Perm (xs.filter fun x => !test x) :=
  loop_perm [] xs

theorem map_loop {β : Type*} (f : α → β) (test : β → Bool) (steps i : ℕ) (xs : List α) :
    (loop (fun x => test (f x)) steps i xs).map f = loop test steps i (xs.map f) := by
  induction steps generalizing i xs with
  | zero => rfl
  | succ steps ih =>
    rw [loop, loop, getElem?_map]
    cases xs[i]? with
    | none => rfl
    | some x =>
      simp only [Option.map_some]
      split
      · rw [ih, map_dropLast, map_set, getLastD_map]
      · exact ih (i + 1) xs

/-- A test that only looks at a part of the entries removes what it removes from the parts. -/
theorem map_remove {β : Type*} (f : α → β) (test : β → Bool) (xs : List α) :
    (remove (fun x => test (f x)) xs).map f = remove test (xs.map f) := by
  rw [remove, remove, length_map, map_loop]

end SwapRemove
