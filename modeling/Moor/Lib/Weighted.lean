import Mathlib.Algebra.Order.BigOperators.Group.List
import Moor.Lib.Rejection

/-!
# Weighted choice

A choice among weighted items by one random word: the running totals of the weights, a word below
the last of them by rejection, and a bisection for the first total above the word.

## Main results

* `bisect_eq`: bisection finds the place where a test changes.
* `card_place`: the words for which an item is chosen are as many as its weight.
* `card_choose_mul`: the share of an item among the sequences of words for which the choice ends.
* `card_choose_eq_none_mul_le`: the choice ends for nearly all sequences.
-/

namespace Weighted

open Finset UInt64 Nat

/-! ### Bisection -/

/-- The first place from `lo` to `hi` where the test fails, if it fails from there on. -/
def bisect (test : ℕ → Bool) (lo hi : ℕ) : ℕ :=
  if lo < hi then
    if test ((lo + hi) / 2) then bisect test ((lo + hi) / 2 + 1) hi
    else bisect test lo ((lo + hi) / 2)
  else lo
termination_by hi - lo

/-- Whatever the test, the place is between the bounds. -/
theorem bisect_le (test : ℕ → Bool) {lo hi : ℕ} (h : lo ≤ hi) : bisect test lo hi ≤ hi := by
  fun_induction bisect test lo hi with
  | case1 lo hi hlt htest ih => exact ih (by omega)
  | case2 lo hi hlt htest ih => exact (ih (by omega)).trans (by omega)
  | case3 lo hi hge => exact h

theorem bisect_eq {test : ℕ → Bool} {lo hi k : ℕ} (hlo : lo ≤ k) (hhi : k ≤ hi)
    (hbelow : ∀ i < k, test i = true) (habove : ∀ i < hi, k ≤ i → test i = false) :
    bisect test lo hi = k := by
  fun_induction bisect test lo hi with
  | case1 lo hi hlt htest ih =>
    refine ih ?_ hhi habove
    by_contra hk
    rw [habove _ (by omega) (by omega)] at htest
    cases htest
  | case2 lo hi hlt htest ih =>
    refine ih hlo ?_ fun i hi => habove i (by omega)
    by_contra hk
    exact htest (hbelow _ (by omega))
  | case3 lo hi hge => omega

/-! ### Running totals -/

/-- The running totals of a list of words. -/
def cumulative : UInt64 → List UInt64 → List UInt64
  | _, [] => []
  | total, w :: ws => (total + w) :: cumulative (total + w) ws

@[simp]
theorem length_cumulative (total : UInt64) (ws : List UInt64) :
    (cumulative total ws).length = ws.length := by
  induction ws generalizing total with
  | nil => rfl
  | cons w ws ih => simp [cumulative, ih]

/-- The total of the first words of a list, as a number. -/
def before (ws : List UInt64) (i : ℕ) : ℕ := ((ws.take i).map toNat).sum

/-- The sum of all weights, which need not fit into a word. -/
abbrev sumOf (ws : List UInt64) : ℕ := before ws ws.length

variable {ws : List UInt64}

theorem before_succ {i : ℕ} (hi : i < ws.length) :
    before ws (i + 1) = before ws i + ws[i].toNat := by
  simp only [before, List.take_succ_eq_append_getElem hi, List.map_append, List.map_singleton,
    List.sum_append, List.sum_singleton]

theorem before_mono (ws : List UInt64) {i j : ℕ} (hij : i ≤ j) : before ws i ≤ before ws j :=
  ((List.take_sublist_take_left hij).map toNat).sum_le_sum fun _ _ => zero_le _

theorem before_length (ws : List UInt64) : sumOf ws = (ws.map toNat).sum := by
  rw [sumOf, before, List.take_length]

/-- Totals that fit into a word are those of the numbers. -/
theorem toNat_cumulative {total : UInt64} {i : ℕ} (hi : i < ws.length)
    (hfits : total.toNat + sumOf ws < 2 ^ 64) :
    ((cumulative total ws).getD i 0).toNat = total.toNat + before ws (i + 1) := by
  induction ws generalizing total i with
  | nil => exact absurd hi (not_lt_zero i)
  | cons w ws ih =>
    rw [before_length, List.map_cons, List.sum_cons] at hfits
    have hadd : (total + w).toNat = total.toNat + w.toNat := by
      rw [UInt64.toNat_add, mod_eq_of_lt (by omega)]
    cases i with
    | zero => simp [cumulative, before, hadd]
    | succ i =>
      have hrest := @ih (total + w) i (lt_of_succ_lt_succ hi)
        (by rw [before_length]; omega)
      simp only [cumulative, List.getD_cons_succ, before, List.take_succ_cons, List.map_cons,
        List.sum_cons, hadd] at hrest ⊢
      omega

/-- Running totals that start at zero and fit into a word. -/
theorem toNat_cumulative_zero (hfits : sumOf ws < 2 ^ 64) {i : ℕ} (hi : i < ws.length) :
    ((cumulative 0 ws).getD i 0).toNat = before ws (i + 1) := by
  rw [toNat_cumulative hi (by rwa [UInt64.toNat_zero, zero_add]), UInt64.toNat_zero, zero_add]

/-- A number below a total lies between two totals that follow each other. -/
theorem exists_before_le_lt (ws : List UInt64) {n r : ℕ} (hr : r < before ws n) :
    ∃ k < n, before ws k ≤ r ∧ r < before ws (k + 1) := by
  induction n with
  | zero => exact absurd hr (not_lt_zero r)
  | succ n ih =>
    rcases lt_or_ge r (before ws n) with hlt | hge
    · obtain ⟨k, hk, hbetween⟩ := ih hlt
      exact ⟨k, hk.trans (lt_succ_self n), hbetween⟩
    · exact ⟨n, lt_succ_self n, hge, hr⟩

/-- The place of the first total above a word. -/
def place (ws : List UInt64) (r : UInt64) : ℕ :=
  bisect (fun i => (cumulative 0 ws).getD i 0 ≤ r) 0 (ws.length - 1)

theorem place_eq (hfits : sumOf ws < 2 ^ 64) {r : UInt64} {k : ℕ} (hk : k < ws.length)
    (hle : before ws k ≤ r.toNat) (hlt : r.toNat < before ws (k + 1)) : place ws r = k := by
  refine bisect_eq (zero_le k) (by omega) ?_ ?_
  · intro i hi
    rw [decide_eq_true_iff, le_iff_toNat_le, toNat_cumulative_zero hfits (by omega)]
    exact (before_mono ws hi).trans hle
  · intro i hi hki
    rw [decide_eq_false_iff_not, le_iff_toNat_le, toNat_cumulative_zero hfits (by omega)]
    exact not_le.mpr (hlt.trans_le (before_mono ws (by omega)))

/-- An item is chosen for as many words below the total as its weight says. -/
theorem card_place (hfits : sumOf ws < 2 ^ 64) {k : ℕ} (hk : k < ws.length) :
    #{r ∈ range (sumOf ws) | place ws (UInt64.ofNat r) = k} = ws[k].toNat := by
  have hword : ∀ r < sumOf ws, (ofNat r).toNat = r := by
    intro r hr
    rw [toNat_ofNat', mod_eq_of_lt (hr.trans hfits)]
  have hset : {r ∈ range (sumOf ws) | place ws (ofNat r) = k}
      = Ico (before ws k) (before ws (k + 1)) := by
    ext r
    rw [mem_filter, mem_range, mem_Ico]
    constructor
    · rintro ⟨hr, rfl⟩
      obtain ⟨k', hk', hle, hlt⟩ := exists_before_le_lt ws hr
      rw [place_eq hfits hk' ((hword r hr).symm ▸ hle) ((hword r hr).symm ▸ hlt)]
      exact ⟨hle, hlt⟩
    · rintro ⟨hle, hlt⟩
      have hr : r < sumOf ws := hlt.trans_le (before_mono ws hk)
      exact ⟨hr, place_eq hfits hk ((hword r hr).symm ▸ hle) ((hword r hr).symm ▸ hlt)⟩
  simp [hset, before_succ hk]

/-! ### A word below a bound -/

/-- Draws words until one is below the largest multiple of the bound, and reduces it. -/
def drawBelow (bound : UInt64) : List UInt64 → Option (UInt64 × List UInt64)
  | [] => none
  | r :: draws =>
    if r < 18446744073709551615 - 18446744073709551615 % bound then some (r % bound, draws)
    else drawBelow bound draws

/-- The largest multiple of a bound that is a word. -/
def limit (bound : UInt64) : UInt64 := 18446744073709551615 - 18446744073709551615 % bound

theorem toNat_limit (bound : UInt64) :
    (limit bound).toNat = 18446744073709551615 / bound.toNat * bound.toNat := by
  have hle : (18446744073709551615 : UInt64) % bound ≤ 18446744073709551615 := by
    rw [UInt64.le_iff_toNat_le, UInt64.toNat_mod]
    exact mod_le _ _
  have hmultiple := div_add_mod' 18446744073709551615 bound.toNat
  rw [limit, UInt64.toNat_sub_of_le _ _ hle, UInt64.toNat_mod]
  change 18446744073709551615 - 18446744073709551615 % bound.toNat = _
  omega

theorem lt_limit_of_lt {bound r : UInt64} (h : r < bound) : r < limit bound := by
  have hlt : r.toNat < bound.toNat := lt_iff_toNat_lt.mp h
  have hbound : bound.toNat ≤ 18446744073709551615 := le_of_lt_succ bound.toNat_lt
  have hquotient : 1 ≤ 18446744073709551615 / bound.toNat :=
    (one_le_div_iff (by omega)).mpr hbound
  rw [lt_iff_toNat_lt, toNat_limit]
  exact hlt.trans_le (Nat.le_mul_of_pos_left _ hquotient)

theorem mod_eq_of_lt {bound r : UInt64} (h : r < bound) : r % bound = r := by
  simp [← UInt64.toNat_inj, Nat.mod_eq_of_lt (UInt64.lt_iff_toNat_lt.mp h)]

/-! ### The choice -/

section

variable {α : Type*} {weight : α → UInt64} {items : List α} {draws rest : List UInt64} {a : α}

/-- The item of a list with weights that the next words choose. -/
def choose (weight : α → UInt64) (items : List α) (draws : List UInt64) :
    Option (α × List UInt64) :=
  let cum := cumulative 0 (items.map weight)
  (drawBelow (cum.getD (items.length - 1) 0) draws).bind fun (r, rest) =>
    items[bisect (fun i => cum.getD i 0 ≤ r) 0 (items.length - 1)]?.map fun a => (a, rest)

theorem mem_of_choose (h : choose weight items draws = some (a, rest)) : a ∈ items := by
  obtain ⟨_, -, hget⟩ := Option.bind_eq_some_iff.mp h
  obtain ⟨b, hb, heq⟩ := Option.map_eq_some_iff.mp hget
  cases heq
  exact List.mem_of_getElem? hb

/-- The total of the weights, as it is computed. -/
def total (ws : List UInt64) : UInt64 := (cumulative 0 ws).getD (ws.length - 1) 0

theorem toNat_total (hfits : sumOf ws < 2 ^ 64) :
    (total ws).toNat = sumOf ws := by
  cases ws with
  | nil => rfl
  | cons w ws =>
    have hlast : (w :: ws).length - 1 < (w :: ws).length := lt_succ_self _
    rw [total, toNat_cumulative_zero hfits hlast]
    rfl

/-- What a word stands for: nothing if it is rejected, and else the item at its place. -/
def pick (weight : α → UInt64) (items : List α) (d : UInt64) : Option α :=
  if d < limit (total (items.map weight)) then
    items[place (items.map weight) (d % total (items.map weight))]?
  else none

theorem choose_cons (d : UInt64) :
    choose weight items (d :: draws)
      = if d < limit (total (items.map weight)) then
          items[place (items.map weight) (d % total (items.map weight))]?.map fun a => (a, draws)
        else choose weight items draws := by
  have hlen : (items.map weight).length = items.length := List.length_map _
  rw [choose, choose, place, total, hlen, limit]
  dsimp only
  rw [drawBelow]
  split <;> rfl

/-- Every item of positive weight is chosen for some word, if the weights add up to a word: for the
total of the weights before it. -/
theorem exists_choose_eq (hpos : ∀ a ∈ items, 0 < (weight a).toNat)
    (hfits : sumOf (items.map weight) < 2 ^ 64) (ha : a ∈ items) :
    ∃ r, ∀ draws, choose weight items (r :: draws) = some (a, draws) := by
  obtain ⟨k, hk, rfl⟩ := List.getElem_of_mem ha
  have hk' : k < (items.map weight).length := by rwa [List.length_map]
  have hlt : before (items.map weight) k < before (items.map weight) (k + 1) := by
    rw [before_succ hk', List.getElem_map]
    exact Nat.lt_add_of_pos_right (hpos _ (List.getElem_mem hk))
  have hword : (ofNat (before (items.map weight) k)).toNat
      = before (items.map weight) k := by
    rw [toNat_ofNat']
    exact Nat.mod_eq_of_lt ((before_mono _ hk'.le).trans_lt hfits)
  refine ⟨ofNat (before (items.map weight) k), fun draws => ?_⟩
  have hdraw : ofNat (before (items.map weight) k) < total (items.map weight) := by
    rw [lt_iff_toNat_lt, hword, toNat_total hfits]
    exact hlt.trans_le (before_mono _ hk')
  rw [choose_cons, if_pos (lt_limit_of_lt hdraw), mod_eq_of_lt hdraw,
    place_eq hfits hk' (by rw [hword]) (by rwa [hword]), List.getElem?_eq_getElem hk]
  rfl

theorem getElem?_place_isSome (hne : items ≠ []) (r : UInt64) :
    (items[place (items.map weight) r]?).isSome = true := by
  have hpos : 0 < items.length := List.length_pos_iff.mpr hne
  have hle : place (items.map weight) r ≤ items.length - 1 := by
    rw [place, List.length_map]
    exact bisect_le _ (zero_le _)
  rw [isSome_getElem?]
  omega

/-- The item that is chosen is the one that the first word stands for that is not rejected. -/
theorem map_fst_choose (hne : items ≠ []) (draws : List UInt64) :
    (choose weight items draws).map Prod.fst = draws.findSome? (pick weight items) := by
  induction draws with
  | nil => rfl
  | cons d draws ih =>
    rw [choose_cons, List.findSome?_cons, pick]
    split
    · obtain ⟨a, ha⟩ := Option.isSome_iff_exists.mp (getElem?_place_isSome hne _)
      rw [ha]
      rfl
    · exact ih

end

/-! ### Counting -/

section

variable {α : Type*} {weight : α → UInt64} {items : List α}

def words {n : ℕ} (v : Fin n → Fin (2 ^ 64)) : List UInt64 :=
  (List.ofFn v).map fun d => UInt64.ofNat d.val

theorem card_filter_fin (n : ℕ) (p : ℕ → Prop) [DecidablePred p] :
    #{d : Fin n | p d.val} = #{d ∈ range n | p d} := by
  rw [card_filter, card_filter, Fin.sum_univ_eq_sum_range (fun d => if p d then 1 else 0) n]

theorem card_filter_getElem? [DecidableEq α] (l : List α) (a : α) :
    #{k ∈ range l.length | l[k]? = some a} = l.count a := by
  induction l with
  | nil => rfl
  | cons b l ih =>
    rw [card_filter, List.length_cons, sum_range_succ', List.count_cons, ← ih, card_filter]
    simp

variable (hfits : sumOf (items.map weight) < 2 ^ 64)
include hfits

/-- The words below the total that stand for an item. -/
theorem card_getElem?_place [DecidableEq α] (a : α) :
    #{r ∈ range (sumOf (items.map weight)) |
        items[place (items.map weight) (UInt64.ofNat r)]? = some a}
      = items.count a * (weight a).toNat := by
  -- The words are counted by their place.
  have hplace : ∀ r ∈ ({r ∈ range (sumOf (items.map weight)) |
      items[place (items.map weight) (ofNat r)]? = some a} : Finset ℕ),
      place (items.map weight) (ofNat r) ∈ range items.length := by
    intro r hr
    exact mem_range.mpr (List.getElem?_eq_some_iff.mp (mem_filter.mp hr).2).1
  rw [card_eq_sum_card_fiberwise hplace, ← card_filter_getElem?, card_filter, sum_mul]
  refine sum_congr rfl fun k hk => ?_
  have hk' : k < (items.map weight).length := by
    rw [List.length_map]
    exact mem_range.mp hk
  rw [filter_filter]
  by_cases hitem : items[k]? = some a
  · have hweight : (items.map weight)[k].toNat = (weight a).toNat := by
      simp [(List.getElem?_eq_some_iff.mp hitem).2]
    rw [if_pos hitem, Nat.one_mul, ← hweight, ← card_place hfits hk']
    refine congrArg card (filter_congr fun r _ => ?_)
    exact ⟨fun h => h.2, fun h => ⟨h ▸ hitem, h⟩⟩
  · rw [if_neg hitem, Nat.zero_mul, Finset.card_eq_zero, filter_eq_empty_iff]
    rintro r - ⟨hget, rfl⟩
    exact hitem hget

/-- Every word below the total comes equally often among the words that are not rejected. -/
theorem card_pick (p : Option α → Prop) [DecidablePred p] (hp : ¬p none) :
    #{d : Fin (2 ^ 64) | p (pick weight items (UInt64.ofNat d.val))}
      = 18446744073709551615 / sumOf (items.map weight) *
        #{r ∈ range (sumOf (items.map weight)) |
          p items[place (items.map weight) (UInt64.ofNat r)]?} := by
  rw [card_filter_fin (2 ^ 64) fun d => p (pick weight items (UInt64.ofNat d)),
    ← Rejection.card_range_mul_filter_mod]
  have htotal := toNat_total hfits
  have hlimit := toNat_limit (total (items.map weight))
  rw [htotal] at hlimit
  refine congrArg card ?_
  ext d
  rw [mem_filter, mem_filter, mem_range, mem_range, ← hlimit]
  have hword : d < 2 ^ 64 → (UInt64.ofNat d).toNat = d := by
    intro hd
    rw [toNat_ofNat', Nat.mod_eq_of_lt hd]
  have hmod : d < 2 ^ 64 → UInt64.ofNat d % total (items.map weight)
      = UInt64.ofNat (d % sumOf (items.map weight)) := by
    intro hd
    rw [← UInt64.toNat_inj, UInt64.toNat_mod, hword hd, htotal, UInt64.toNat_ofNat',
      Nat.mod_eq_of_lt ((Nat.mod_le _ _).trans_lt hd)]
  constructor
  · rintro ⟨hd, hpick⟩
    rw [pick] at hpick
    split at hpick
    next hlt =>
      rw [lt_iff_toNat_lt, hword hd] at hlt
      exact ⟨hlt, hmod hd ▸ hpick⟩
    · exact absurd hpick hp
  · rintro ⟨hlt, hitem⟩
    have hd : d < 2 ^ 64 := hlt.trans (toNat_lt _)
    have hlt' : UInt64.ofNat d < limit (total (items.map weight)) := by
      rw [lt_iff_toNat_lt, hword hd]
      exact hlt
    refine ⟨hd, ?_⟩
    rw [pick, if_pos hlt', hmod hd]
    exact hitem

omit hfits

variable (hne : items ≠ [])
include hne

/-- The words that are not rejected. -/
theorem card_pick_isSome (hfits : sumOf (items.map weight) < 2 ^ 64) :
    #{d : Fin (2 ^ 64) | (pick weight items (UInt64.ofNat d.val)).isSome = true}
      = 18446744073709551615 / sumOf (items.map weight) *
        sumOf (items.map weight) := by
  have hall := card_pick hfits (fun r : Option α => r.isSome = true) (by simp)
  simpa only [getElem?_place_isSome hne, filter_true, card_range] using hall

theorem map_fst_choose_words {n : ℕ} (v : Fin n → Fin (2 ^ 64)) :
    (choose weight items (words v)).map Prod.fst
      = (List.ofFn v).findSome? fun d => pick weight items (UInt64.ofNat d.val) := by
  rw [map_fst_choose hne, words, List.findSome?_map, Function.comp_def]

/-- Among the sequences of `n` words for which the choice ends, an item has its weight's share, once
for each time that it is in the list. -/
theorem card_choose_mul [DecidableEq α] (hpos : 0 < sumOf (items.map weight))
    (hfits : sumOf (items.map weight) < 2 ^ 64) (a : α) (n : ℕ) :
    #{v : Fin n → Fin (2 ^ 64) | (choose weight items (words v)).map Prod.fst = some a} *
        sumOf (items.map weight)
      = items.count a * (weight a).toNat *
        #{v : Fin n → Fin (2 ^ 64) |
          ((choose weight items (words v)).map Prod.fst).isSome = true} := by
  simp only [map_fst_choose_words hne]
  have hshare := Rejection.card_findSome?_mul
    (fun d : Fin (2 ^ 64) => pick weight items (ofNat d.val)) a n
  rw [card_pick_isSome hne hfits, card_pick hfits (· = some a) (by simp),
    card_getElem?_place hfits] at hshare
  have hquotient : 0 < 18446744073709551615 / sumOf (items.map weight) :=
    Nat.div_pos (Nat.le_of_lt_succ hfits) hpos
  refine Nat.eq_of_mul_eq_mul_left hquotient ?_
  rw [Nat.mul_left_comm, hshare]
  ring

/-- At most half of the words are rejected, so that the choice goes on with each word for at most
half as many sequences. -/
theorem card_choose_eq_none_mul_le (hpos : 0 < sumOf (items.map weight))
    (hfits : sumOf (items.map weight) < 2 ^ 64) (n : ℕ) :
    #{v : Fin n → Fin (2 ^ 64) | (choose weight items (words v)).map Prod.fst = none} * 2 ^ n
      ≤ (2 ^ 64) ^ n := by
  simp only [map_fst_choose_words hne]
  rw [Rejection.card_findSome?_eq_none, ← Nat.mul_pow]
  refine Nat.pow_le_pow_left ?_ n
  have hparts := card_filter_add_card_filter_not (s := @univ (Fin (2 ^ 64)) _)
    fun d => (pick weight items (ofNat d.val)).isSome = true
  have hnone : #{d : Fin (2 ^ 64) | pick weight items (ofNat d.val) = none}
      = #{d : Fin (2 ^ 64) | ¬(pick weight items (ofNat d.val)).isSome = true} :=
    congrArg card (filter_congr fun d _ => by simp)
  rw [card_pick_isSome hne hfits, ← hnone, Finset.card_univ, Fintype.card_fin] at hparts
  set t := sumOf (items.map weight)
  have hquotient : 1 ≤ 18446744073709551615 / t :=
    (one_le_div_iff hpos).mpr (le_of_lt_succ hfits)
  have hmost : 18446744073709551615 < 18446744073709551615 / t * t + t := by
    have hrest := mod_lt 18446744073709551615 hpos
    have hwhole := div_add_mod' 18446744073709551615 t
    omega
  have honce : t ≤ 18446744073709551615 / t * t := Nat.le_mul_of_pos_left t hquotient
  omega

omit hne

end

end Weighted
