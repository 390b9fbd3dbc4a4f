import Mathlib.Data.List.Induction

/-!
# Hash tables with linear probing

An entry is stored in the first free slot from the slot of its key on, and a lookup walks from there
to the first free slot. Nothing is ever removed. A table can be given more entries than it has
slots; those that find no free slot are left out.

## Main results

* `lookup_build`: a lookup finds the first entry with the key among those that have a slot.
-/

namespace Probe

open List Option

variable {V K : Type*}

variable (t : List (Option V)) (slot : ℕ)

/-- The slot that is visited at step `j`, or rather what is in it. -/
def entry (j : ℕ) : Option V := (t[(slot + j) % t.length]?).join

def insertFrom (t : List (Option V)) (slot : ℕ) (v : V) : ℕ → ℕ → List (Option V)
  | 0, _ => t
  | steps + 1, j =>
    match entry t slot j with
    | none => t.set ((slot + j) % t.length) (some v)
    | some _ => insertFrom t slot v steps (j + 1)

/-- Stores an entry in the first free slot. -/
def insert (v : V) : List (Option V) :=
  insertFrom t slot v t.length 0

def lookupFrom (t : List (Option V)) (slot : ℕ) (found : V → Bool) : ℕ → ℕ → Option V
  | 0, _ => none
  | steps + 1, j =>
    match entry t slot j with
    | none => none
    | some v => if found v then some v else lookupFrom t slot found steps (j + 1)

/-- Looks for an entry up to the first free slot. -/
def lookup (found : V → Bool) : Option V :=
  lookupFrom t slot found t.length 0

/-- The table of the entries, inserted one after another. -/
def build (slotOf : V → ℕ) (size : ℕ) (items : List V) : List (Option V) :=
  items.foldl (fun t v => insert t (slotOf v) v) (List.replicate size none)

/-! ### The entries on the way -/

/-- The entries that are met before a free slot. -/
def walkFrom (t : List (Option V)) (slot : ℕ) : ℕ → ℕ → List V
  | 0, _ => []
  | steps + 1, j =>
    match entry t slot j with
    | none => []
    | some v => v :: walkFrom t slot steps (j + 1)

theorem lookupFrom_eq_find? (found : V → Bool) (steps j : ℕ) :
    lookupFrom t slot found steps j = (walkFrom t slot steps j).find? found := by
  induction steps generalizing j with
  | zero => rfl
  | succ steps ih =>
    rw [lookupFrom, walkFrom]
    cases entry t slot j with
    | none => rfl
    | some v => simp only [find?_cons, ih]; cases found v <;> rfl

variable {t : List (Option V)}

theorem mem_of_entry {slot j : ℕ} {v : V} (h : entry t slot j = some v) : some v ∈ t := by
  rw [entry, join_eq_some_iff] at h
  exact mem_of_getElem? h

theorem mem_of_mem_walkFrom {slot steps j : ℕ} {v : V} (h : v ∈ walkFrom t slot steps j) :
    some v ∈ t := by
  induction steps generalizing j with
  | zero => cases h
  | succ steps ih =>
    rw [walkFrom] at h
    cases hentry : entry t slot j with
    | none =>
      rw [hentry] at h
      cases h
    | some u =>
      rw [hentry] at h
      rcases mem_cons.mp h with rfl | h
      · exact mem_of_entry hentry
      · exact ih h

section Set

variable {t : List (Option V)} {q : ℕ} {v : V}

/-- A slot that is in use is not the free slot that is filled. -/
theorem entry_set_of_some (hfree : t[q]? = some none) {slot j : ℕ} {u : V}
    (h : entry t slot j = some u) : entry (t.set q (some v)) slot j = some u := by
  rw [entry, join_eq_some_iff] at h
  have hne : q ≠ (slot + j) % t.length := by
    rintro rfl
    rw [hfree] at h
    cases h
  simp [entry, getElem?_set_ne hne, h]

theorem entry_set_of_none (hq : q < t.length) {slot j : ℕ} (h : entry t slot j = none) :
    entry (t.set q (some v)) slot j = if (slot + j) % t.length = q then some v else none := by
  rw [entry, length_set]
  split
  · rename_i heq
    simp [heq, getElem?_set_self hq]
  · rename_i hne
    rw [getElem?_set_ne (Ne.symm hne)]
    exact h

/-- What is met after a free slot is filled was in the table, or is the new entry. -/
theorem mem_of_mem_walkFrom_set {slot steps j : ℕ} {w : V}
    (h : w ∈ walkFrom (t.set q (some v)) slot steps j) : w = v ∨ some w ∈ t := by
  rcases mem_or_eq_of_mem_set (mem_of_mem_walkFrom h) with hmem | heq
  · exact .inr hmem
  · exact .inl (some_inj.mp heq)

/-- Filling a free slot leaves a walk as it is, or continues it with the new entry. -/
theorem walkFrom_set (hfree : t[q]? = some none) (slot steps j : ℕ) :
    walkFrom (t.set q (some v)) slot steps j = walkFrom t slot steps j ∨
    ∃ more, walkFrom (t.set q (some v)) slot steps j = walkFrom t slot steps j ++ v :: more ∧
      ∀ w ∈ more, w = v ∨ some w ∈ t := by
  have hq : q < t.length := (List.getElem?_eq_some_iff.mp hfree).1
  induction steps generalizing j with
  | zero => exact .inl rfl
  | succ steps ih =>
    cases hentry : entry t slot j with
    | none =>
      by_cases hstep : (slot + j) % t.length = q
      · simp only [walkFrom, hentry, entry_set_of_none hq hentry, if_pos hstep]
        exact .inr ⟨_, rfl, fun w hw => mem_of_mem_walkFrom_set hw⟩
      · simp only [walkFrom, hentry, entry_set_of_none hq hentry, if_neg hstep, true_or]
    | some u =>
      simp only [walkFrom, hentry, entry_set_of_some hfree hentry]
      rcases ih (j + 1) with hsame | ⟨more, heq, hmore⟩
      · exact .inl (by rw [hsame])
      · exact .inr ⟨more, by rw [heq, cons_append], hmore⟩

end Set

/-- An insertion fills a free slot at the end of the walk, unless every slot it visits is in use. -/
theorem insertFrom_cases (ht : 0 < t.length) (slot : ℕ) (v : V) (steps j : ℕ) :
    (insertFrom t slot v steps j = t ∧ ∀ i < steps, entry t slot (j + i) ≠ none) ∨
    ∃ q, t[q]? = some none ∧ insertFrom t slot v steps j = t.set q (some v) ∧
      ∃ more, walkFrom (t.set q (some v)) slot steps j = walkFrom t slot steps j ++ v :: more ∧
        ∀ w ∈ more, w = v ∨ some w ∈ t := by
  induction steps generalizing j with
  | zero => exact .inl ⟨rfl, fun i hi => absurd hi (Nat.not_lt_zero i)⟩
  | succ steps ih =>
    have hlt : (slot + j) % t.length < t.length := Nat.mod_lt _ ht
    cases hentry : entry t slot j with
    | none =>
      have hfree : t[(slot + j) % t.length]? = some none := by
        rw [entry, getElem?_eq_getElem hlt, join_some] at hentry
        rw [getElem?_eq_getElem hlt, hentry]
      refine .inr ⟨_, hfree, by rw [insertFrom, hentry], ?_⟩
      simp only [walkFrom, hentry, entry_set_of_none hlt hentry, if_true]
      exact ⟨_, rfl, fun w hw => mem_of_mem_walkFrom_set hw⟩
    | some u =>
      rw [insertFrom, hentry]
      rcases ih (j + 1) with ⟨heq, hused⟩ | ⟨q, hfree, heq, more, hwalk, hmore⟩
      · refine .inl ⟨heq, ?_⟩
        rintro (- | i) hi
        · simp [hentry]
        · have := hused i (by omega)
          rwa [show j + 1 + i = j + (i + 1) by omega] at this
      · refine .inr ⟨q, hfree, heq, more, ?_, hmore⟩
        simp only [walkFrom, hentry, entry_set_of_some hfree hentry, hwalk, cons_append]

/-- The steps of a whole round visit every slot. -/
theorem exists_step {n q : ℕ} (hq : q < n) (slot : ℕ) : ∃ j < n, (slot + j) % n = q := by
  have hn : 0 < n := by omega
  refine ⟨(q + (n - slot % n)) % n, Nat.mod_lt _ hn, ?_⟩
  have hslot : slot % n < n := Nat.mod_lt _ hn
  rw [Nat.add_mod_mod, ← Nat.mod_add_div slot n]
  have : slot % n + n * (slot / n) + (q + (n - (slot % n + n * (slot / n)) % n))
      = q + n * (slot / n + 1) := by
    rw [Nat.add_mul_mod_self_left, Nat.mod_mod, Nat.mul_add, Nat.mul_one]
    omega
  rw [this, Nat.add_mul_mod_self_left, Nat.mod_eq_of_lt hq]

/-! ### The table of a list of entries -/

/-- The table holds exactly these entries, and finds the first one with each key. -/
structure Holds [DecidableEq K] (key : V → K) (hash : K → ℕ) (size : ℕ) (items : List V)
    (t : List (Option V)) : Prop where
  length : t.length = size
  count : t.countP Option.isSome = items.length
  mem : ∀ v, some v ∈ t → v ∈ items
  find : ∀ k, (walkFrom t (hash k) size 0).find? (fun v => key v = k)
    = items.find? (fun v => key v = k)

section Holds

variable [DecidableEq K] {key : V → K} {hash : K → ℕ} {size : ℕ} {items : List V}
  {t : List (Option V)}

theorem holds_nil (key : V → K) (hash : K → ℕ) (size : ℕ) :
    Holds key hash size [] (List.replicate size none) where
  length := length_replicate
  count := by simp [countP_replicate]
  mem v h := by simp at h
  find k := by
    cases size with
    | zero => rfl
    | succ n =>
      have hentry : entry (replicate (n + 1) (none : Option V)) (hash k) 0 = none := by
        rw [entry, getElem?_replicate]
        split <;> rfl
      simp [walkFrom, hentry]

theorem countP_set_isSome {q : ℕ} (hfree : t[q]? = some none) (v : V) :
    (t.set q (some v)).countP Option.isSome = t.countP Option.isSome + 1 := by
  have hq : q < t.length := (List.getElem?_eq_some_iff.mp hfree).1
  have hval : t[q] = none := (List.getElem?_eq_some_iff.mp hfree).2
  rw [countP_set hq, hval]
  simp

/-- A table that is not full takes one more entry. -/
theorem Holds.insert (h : Holds key hash size items t) (hlt : items.length < size) (v : V) :
    Holds key hash size (items ++ [v]) (insert t (hash (key v)) v) := by
  have hpos : 0 < t.length := by
    rw [h.length]
    omega
  rcases insertFrom_cases hpos (hash (key v)) v t.length 0 with ⟨-, hfull⟩ | ⟨q, hfree, heq, hown⟩
  · -- Some slot is free, and the insertion would have come by.
    have hall : t.countP isSome = t.length := by
      refine countP_eq_length.mpr ?_
      intro o ho
      obtain ⟨q, hq⟩ := getElem?_of_mem ho
      obtain ⟨j, hj, hstep⟩ := exists_step (List.getElem?_eq_some_iff.mp hq).1 (hash (key v))
      have hused := hfull j hj
      rw [Nat.zero_add, entry, hstep, hq, join_some] at hused
      exact isSome_iff_ne_none.mpr hused
    rw [h.count, h.length] at hall
    omega
  rw [Probe.insert, heq]
  refine ⟨by simp [h.length], ?_, ?_, ?_⟩
  · simp [countP_set_isSome hfree, h.count]
  · intro w hw
    rcases mem_or_eq_of_mem_set hw with hmem | heq
    · exact mem_append_left _ (h.mem w hmem)
    · rw [some_inj.mp heq]
      exact mem_append_right _ mem_cons_self
  intro k
  rw [find?_append, ← h.find k]
  by_cases hk : key v = k
  · obtain ⟨more, hwalk, -⟩ := hown
    rw [h.length] at hwalk
    rw [← hk, hwalk, find?_append]
    simp
  rcases walkFrom_set (v := v) hfree (hash k) size 0 with hwalk | ⟨more, hwalk, hmore⟩
  · rw [hwalk]
    simp [hk]
  -- An entry with the key further on is one that was found before.
  rw [hwalk, find?_append]
  cases hfind : (walkFrom t (hash k) size 0).find? (fun v => key v = k) with
  | some w => rfl
  | none =>
    rw [h.find k, find?_eq_none] at hfind
    have hnone : more.find? (fun v => key v = k) = none := by
      refine find?_eq_none.mpr ?_
      intro w hw
      rcases hmore w hw with rfl | hmem
      · simpa using hk
      · exact hfind w (h.mem w hmem)
    simp [hk, hnone]

/-- A full table stays as it is. -/
theorem insert_of_full (h : Holds key hash size items t) (hfull : items.length = size) (slot : ℕ)
    (v : V) : insert t slot v = t := by
  cases t with
  | nil => rfl
  | cons o rest =>
    rcases insertFrom_cases (t := o :: rest) (by simp) slot v (o :: rest).length 0 with
      ⟨heq, -⟩ | ⟨q, hfree, -, -⟩
    · exact heq
    · have hall := h.count.trans (hfull.trans h.length.symm)
      have := countP_eq_length.mp hall none (mem_of_getElem? hfree)
      cases this

end Holds

/-- The table holds the entries that came before it was full. -/
theorem holds_build [DecidableEq K] (key : V → K) (hash : K → ℕ) (size : ℕ) (items : List V) :
    Holds key hash size (items.take size) (build (fun v => hash (key v)) size items) := by
  -- Induction on the entries inserted so far.
  induction items using reverseRecOn with
  | nil => simpa [build] using holds_nil key hash size
  | append_singleton items v ih =>
    have hbuild : build (fun v => hash (key v)) size (items ++ [v])
        = insert (build (fun v => hash (key v)) size items) (hash (key v)) v := by
      simp [build]
    rw [hbuild]
    rcases Nat.lt_or_ge items.length size with hlt | hge
    · rw [take_of_length_le (Nat.le_of_lt hlt)] at ih
      rw [take_of_length_le (by simpa using Nat.succ_le_of_lt hlt)]
      exact ih.insert hlt v
    · rw [insert_of_full ih (by simp [hge]), take_append_of_le_length hge]
      exact ih

/-- A lookup finds the first entry with the key among those that came before the table was full. -/
theorem lookup_build [DecidableEq K] (key : V → K) (hash : K → ℕ) (size : ℕ) (items : List V)
    (k : K) :
    lookup (build (fun v => hash (key v)) size items) (hash k) (fun v => key v = k)
      = (items.take size).find? (fun v => key v = k) := by
  have h := holds_build key hash size items
  rw [lookup, lookupFrom_eq_find?, h.length, h.find]

end Probe
