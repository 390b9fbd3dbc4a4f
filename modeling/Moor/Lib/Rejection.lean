import Mathlib.Algebra.BigOperators.Fin
import Mathlib.Data.Nat.Count
import Mathlib.Tactic.Ring

/-!
# Rejection sampling, by counting

A sampler draws from a finite source until a draw is accepted, and returns what the draw stands for.
Over all sequences of a number of draws, the results are spread over those that end as they are
spread over the single draws that are accepted, however many draws there are.

## Main results

* `card_findSome?_mul`: the share of a result among the sequences that end.
* `card_findSome?_eq_none`: the sequences that do not end.
* `card_range_mul_filter_mod`: numbers below a multiple, by their remainder.
-/

namespace Rejection

open Finset Nat

variable {α β : Type*} [Fintype α]

/-- Sequences are counted by their first draw. -/
theorem card_filter_ofFn_succ (P : List α → Prop) [DecidablePred P] (n : ℕ) :
    #{v : Fin (n + 1) → α | P (List.ofFn v)}
      = ∑ a, #{v : Fin n → α | P (a :: List.ofFn v)} := by
  simp only [card_filter]
  rw [← Fintype.sum_equiv (Fin.consEquiv fun _ => α)
    (fun x => if P (x.1 :: List.ofFn x.2) then 1 else 0) _ ?_, Fintype.sum_prod_type]
  simp [Fin.consEquiv]

variable (g : α → Option β)

/-- A condition on the result of the first draw that is accepted, if the first draw is or is not. -/
theorem card_filter_findSome?_succ (Q : Option β → Prop) [DecidablePred Q] (hQ : ¬Q none) (n : ℕ) :
    #{v : Fin (n + 1) → α | Q ((List.ofFn v).findSome? g)}
      = #{a | Q (g a)} * Fintype.card α ^ n
        + #{a | g a = none} * #{v : Fin n → α | Q ((List.ofFn v).findSome? g)} := by
  rw [card_filter_ofFn_succ (fun l => Q (l.findSome? g))]
  have hterm : ∀ a, #{v : Fin n → α | Q ((a :: List.ofFn v).findSome? g)}
      = (if Q (g a) then Fintype.card α ^ n else 0)
        + if g a = none then #{v : Fin n → α | Q ((List.ofFn v).findSome? g)} else 0 := by
    intro a
    cases ha : g a with
    | none => simp [ha, hQ]
    | some b =>
      by_cases hb : Q (some b)
      · simp [ha, hb]
      · simp [ha, hb]
  simp [hterm, sum_add_distrib, ← sum_filter]

/-- Among the sequences of `n` draws that end, a result has the share that it has among the draws
that are accepted. -/
theorem card_findSome?_mul [DecidableEq β] (b : β) (n : ℕ) :
    #{v : Fin n → α | (List.ofFn v).findSome? g = some b} * #{a | (g a).isSome = true}
      = #{a | g a = some b} * #{v : Fin n → α | ((List.ofFn v).findSome? g).isSome = true} := by
  induction n with
  | zero => simp
  | succ n ih =>
    rw [card_filter_findSome?_succ g (· = some b) (by simp) n,
      card_filter_findSome?_succ g (fun r => r.isSome = true) (by simp) n, add_mul,
      mul_add, mul_assoc _ _ #{a | (g a).isSome = true}, mul_assoc _ _ #{a | _}, ih]
    ring

/-- The sequences that do not end are those of rejected draws alone. -/
theorem card_findSome?_eq_none (n : ℕ) :
    #{v : Fin n → α | (List.ofFn v).findSome? g = none} = #{a | g a = none} ^ n := by
  have hset : ({v | (List.ofFn v).findSome? g = none} : Finset (Fin n → α))
      = Fintype.piFinset fun _ => {a | g a = none} := by
    ext v
    simp [List.findSome?_eq_none_iff]
  rw [hset, Fintype.card_piFinset_const]

/-- Among the numbers below a multiple of `t`, each remainder comes equally often. -/
theorem card_range_mul_filter_mod (q t : ℕ) (p : ℕ → Prop) [DecidablePred p] :
    #{d ∈ range (q * t) | p (d % t)} = q * #{r ∈ range t | p r} := by
  have hperiod : ∀ q, #{d ∈ range (q * t) | p (d % t)} = count (fun d => p (d % t)) (q * t) :=
    fun q => (count_eq_card_filter_range _ _).symm
  have hone : count (fun d => p (d % t)) t = #{r ∈ range t | p r} := by
    rw [count_eq_card_filter_range]
    refine congrArg card (filter_congr fun r hr => ?_)
    rw [mod_eq_of_lt (mem_range.mp hr)]
  rw [hperiod]
  induction q with
  | zero => simp
  | succ q ih =>
    have hshift : ∀ k, (q * t + k) % t = k % t := fun k => mul_add_mod' q t k
    rw [succ_mul, count_add, ih, succ_mul]
    simp only [hshift, hone]

end Rejection
