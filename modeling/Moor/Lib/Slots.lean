import Mathlib.Data.Fintype.Card

/-!
# Tables of slots

A table is a list of slots, some of them in use, and a slot in use has a key. The operations find
the slot with a key, take the first that is free, and change one slot.

## Main results

* `Keyed.set`: what a change of one slot has to meet.
* `Keyed.exists_free`: a slot is free if there are fewer keys than slots.
-/

namespace Slots

open List

variable {α κ : Type*} {active : α → Bool} {key : α → κ} {l : List α}

/-- No two slots in use have the same key. -/
def Keyed (active : α → Bool) (key : α → κ) (l : List α) : Prop :=
  ∀ (i j : ℕ) a b, l[i]? = some a → l[j]? = some b → active a → active b → key a = key b → i = j

theorem keyed_of_free (h : ∀ a ∈ l, active a = false) : Keyed active key l := by
  intro i _ a _ ha _ hact
  rw [h a (mem_of_getElem? ha)] at hact
  cases hact

theorem getElem?_set {i j : ℕ} {a b : α} (hi : i < l.length) (h : (l.set i a)[j]? = some b) :
    (j = i ∧ b = a) ∨ (j ≠ i ∧ l[j]? = some b) := by
  rcases eq_or_ne j i with rfl | hji
  · rw [getElem?_set_self hi] at h
    exact .inl ⟨rfl, (Option.some_inj.mp h).symm⟩
  · rw [getElem?_set_ne hji.symm] at h
    exact .inr ⟨hji, h⟩

theorem mem_set {i : ℕ} {a b : α} (hi : i < l.length) (h : b ∈ l.set i a) : b = a ∨ b ∈ l := by
  obtain ⟨j, hj⟩ := getElem?_of_mem h
  rcases getElem?_set hi hj with ⟨-, rfl⟩ | ⟨-, hb⟩
  · exact .inl rfl
  · exact .inr (mem_of_getElem? hb)

/-- A slot is in the table after another one has changed. -/
theorem mem_set_of_ne {i : ℕ} {a b c : α} (hi : l[i]? = some c) (hb : b ∈ l) (hbc : b ≠ c) :
    b ∈ l.set i a := by
  obtain ⟨j, hj⟩ := getElem?_of_mem hb
  have hji : i ≠ j := by
    rintro rfl
    exact hbc (Option.some_inj.mp (hj.symm.trans hi))
  exact mem_of_getElem? ((getElem?_set_ne hji).trans hj)

namespace Keyed

/-- One slot may change if no other slot in use has the key that it gets. -/
theorem set (h : Keyed active key l) {i : ℕ} (hi : i < l.length) {a : α}
    (hother : active a → ∀ (j : ℕ) b, j ≠ i → l[j]? = some b → active b → key b ≠ key a) :
    Keyed active key (l.set i a) := by
  intro j k b c hb hc hbactive hcactive hkey
  rcases getElem?_set hi hb with ⟨hji, hba⟩ | ⟨hji, hb'⟩
  · rcases getElem?_set hi hc with ⟨hki, -⟩ | ⟨hki, hc'⟩
    · rw [hji, hki]
    · rw [hba] at hbactive hkey
      exact absurd hkey.symm (hother hbactive k c hki hc' hcactive)
  · rcases getElem?_set hi hc with ⟨-, hca⟩ | ⟨-, hc'⟩
    · rw [hca] at hcactive hkey
      exact absurd hkey (hother hcactive j b hji hb' hbactive)
    · exact h j k b c hb' hc' hbactive hcactive hkey

/-- A slot in use is found by its key. -/
theorem findIdx?_eq [BEq κ] [LawfulBEq κ] (h : Keyed active key l) {i : ℕ} {a : α}
    (hi : l[i]? = some a) (ha : active a) :
    l.findIdx? (fun b => active b && key b == key a) = some i := by
  cases hfind : l.findIdx? fun b => active b && key b == key a with
  | none =>
    have hnone := findIdx?_eq_none_iff.mp hfind a (mem_of_getElem? hi)
    simp [ha] at hnone
  | some j =>
    obtain ⟨hlen, htest, -⟩ := findIdx?_eq_some_iff_getElem.mp hfind
    rw [Bool.and_eq_true, beq_iff_eq] at htest
    rw [h j i _ a (getElem?_eq_getElem hlen) hi htest.1 ha htest.2]

/-- A slot is free if the keys in use are among fewer than there are slots. -/
theorem exists_free (h : Keyed active key l) {s : Finset κ} (hs : ∀ a ∈ l, active a → key a ∈ s)
    (hcard : s.card < l.length) :
    ∃ (i : ℕ) (a : α), l.findIdx? (fun a => !active a) = some i ∧ l[i]? = some a ∧
      active a = false := by
  cases hfind : l.findIdx? fun a => !active a with
  | some i =>
    obtain ⟨hlen, htest, -⟩ := findIdx?_eq_some_iff_getElem.mp hfind
    exact ⟨i, l[i], rfl, getElem?_eq_getElem hlen, by simpa using htest⟩
  | none =>
    have hact : ∀ a ∈ l, active a = true := by
      simpa using findIdx?_eq_none_iff.mp hfind
    -- All slots are in use, so that their keys are different.
    have hle : (Finset.univ : Finset (Fin l.length)).card ≤ s.card := by
      refine Finset.card_le_card_of_injOn (fun i => key l[i])
        (fun i _ => hs _ (getElem_mem i.isLt) (hact _ (getElem_mem i.isLt))) ?_
      intro i _ j _ hij
      exact Fin.ext (h i j _ _ (getElem?_eq_getElem i.isLt) (getElem?_eq_getElem j.isLt)
        (hact _ (getElem_mem i.isLt)) (hact _ (getElem_mem j.isLt)) hij)
    rw [Finset.card_univ, Fintype.card_fin] at hle
    exact absurd hle (Nat.not_le.mpr hcard)

end Keyed

end Slots
