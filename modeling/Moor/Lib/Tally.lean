import Mathlib.Data.List.Induction

/-!
# Tallies that credit each key at most once

Entries are taken one after another. An entry walks over the keys, passing those that are already
credited and those it does not name, and stops at the first key it names: the key is credited when
the entry is valid for it, and in any case the walk ends there.

When no entry names two keys, the tally is the number of keys that some valid entry names. In
particular it does not depend on the order or the multiplicity of the entries.
-/

namespace Tally

open List

variable {E K : Type*} (names valid : E → K → Bool)

/-- One entry walks over the keys, each with its mark; the second component counts credits. -/
def credit (e : E) : List (K × Bool) → ℕ → List (K × Bool) × ℕ
  | [], count => ([], count)
  | (k, marked) :: rest, count =>
    if marked then ((k, marked) :: (credit e rest count).1, (credit e rest count).2)
    else if names e k then
      if valid e k then ((k, true) :: rest, count + 1) else ((k, marked) :: rest, count)
    else ((k, marked) :: (credit e rest count).1, (credit e rest count).2)

/-- All entries walk over the keys in turn, starting with no key credited. -/
def run (keys : List K) (entries : List E) : List (K × Bool) × ℕ :=
  entries.foldl (fun s e => credit names valid e s.1 s.2) (keys.map fun k => (k, false), 0)

/-- Some entry names the key and is valid for it. -/
def supported (entries : List E) (k : K) : Bool := entries.any fun e => names e k && valid e k

/-- Every credit sets one mark. -/
theorem credit_count (e : E) (marks : List (K × Bool)) (count : ℕ) :
    (credit names valid e marks count).2 + marks.countP Prod.snd
      = count + (credit names valid e marks count).1.countP Prod.snd := by
  induction marks with
  | nil => rfl
  | cons p rest ih =>
    obtain ⟨k, marked⟩ := p
    cases marked with
    | true =>
      simp only [credit, if_true, countP_cons_of_pos]
      omega
    | false =>
      by_cases hname : names e k = true
      · by_cases hvalid : valid e k = true
        · simp [credit, hname, hvalid]
          omega
        · simp [credit, hname, hvalid]
      · simpa [credit, hname] using ih

variable {names valid}

/-- A change of the entries that no key can tell leaves the tally as it is. -/
theorem run_map {g : E → E} (h : ∀ e k, names (g e) k = names e k ∧ valid (g e) k = valid e k)
    (keys : List K) (entries : List E) :
    run names valid keys (entries.map g) = run names valid keys entries := by
  have hstep : ∀ e : E, credit names valid (g e) = credit (K := K) names valid e := by
    intro e
    funext marks count
    induction marks with
    | nil => rfl
    | cons p rest ih => simp only [credit, h e p.1, ih]
  simp only [run, foldl_map, hstep]

variable {marks : List (K × Bool)}

/-- An entry that names none of the keys changes no mark. -/
theorem credit_marks_of_forall_not {e : E} (h : ∀ p ∈ marks, names e p.1 = false) (count : ℕ) :
    (credit names valid e marks count).1 = marks := by
  induction marks with
  | nil => rfl
  | cons p rest ih =>
    have hp := h p mem_cons_self
    have hrest := ih fun q hq => h q (mem_cons_of_mem _ hq)
    simp [credit, hp, hrest]

/-- An entry that names at most one of the keys marks exactly the key it names and is valid for. -/
theorem credit_marks {e : E}
    (h : marks.Pairwise fun p q => names e p.1 = true → names e q.1 = false) (count : ℕ) :
    (credit names valid e marks count).1
      = marks.map fun p => (p.1, p.2 || (names e p.1 && valid e p.1)) := by
  induction marks with
  | nil => rfl
  | cons p rest ih =>
    obtain ⟨hhead, htail⟩ := pairwise_cons.mp h
    obtain ⟨k, marked⟩ := p
    by_cases hname : names e k = true
    · -- The walk would stop here; no later key is named, so going on changes nothing either.
      have hlater : ∀ q ∈ rest, names e q.1 = false := fun q hq => hhead q hq hname
      have hmap : rest.map (fun p => (p.1, p.2 || (names e p.1 && valid e p.1))) = rest := by
        conv_rhs => rw [← map_id rest]
        refine map_congr_left ?_
        intro q hq
        simp [hlater q hq]
      cases marked with
      | true => simp [credit, hmap, credit_marks_of_forall_not hlater]
      | false =>
        by_cases hvalid : valid e k = true
        · simp [credit, hname, hvalid, hmap]
        · simp [credit, hname, hvalid, hmap]
    · cases marked with
      | true => simp [credit, hname, ih htail]
      | false => simp [credit, hname, ih htail]

private theorem countP_snd_map (keys : List K) (f : K → Bool) :
    (keys.map fun k => (k, f k)).countP Prod.snd = keys.countP f := by
  rw [countP_map]
  rfl

/-- The marks and the count after all entries, when no entry names two keys. -/
theorem run_eq {keys : List K} {entries : List E}
    (h : ∀ e ∈ entries, keys.Pairwise fun k l => names e k = true → names e l = false) :
    run names valid keys entries
      = (keys.map fun k => (k, supported names valid entries k),
          keys.countP (supported names valid entries)) := by
  -- Induction on the entries taken so far: the marks are those of the entries before.
  induction entries using reverseRecOn with
  | nil =>
    have hnone : supported names valid ([] : List E) = fun _ : K => false := rfl
    simp [run, hnone]
  | append_singleton entries e ih =>
    have ih := ih fun e' he' => h e' (mem_append_left _ he')
    have hpair : (keys.map fun k => (k, supported names valid entries k)).Pairwise
        fun p q => names e p.1 = true → names e q.1 = false := by
      rw [pairwise_map]
      exact h e (by simp)
    have hstep : run names valid keys (entries ++ [e])
        = credit names valid e (keys.map fun k => (k, supported names valid entries k))
            (keys.countP (supported names valid entries)) := by
      rw [run, foldl_append, ← run, ih, foldl_cons, foldl_nil]
    have hmarks : (run names valid keys (entries ++ [e])).1
        = keys.map fun k => (k, supported names valid (entries ++ [e]) k) := by
      rw [hstep, credit_marks hpair, map_map]
      refine map_congr_left ?_
      intro k _
      simp [supported]
    have hcount : (run names valid keys (entries ++ [e])).2
        = keys.countP (supported names valid (entries ++ [e])) := by
      have hcredit := credit_count names valid e
        (keys.map fun k => (k, supported names valid entries k))
        (keys.countP (supported names valid entries))
      rw [← hstep, hmarks, countP_snd_map, countP_snd_map] at hcredit
      omega
    exact Prod.ext hmarks hcount

end Tally
