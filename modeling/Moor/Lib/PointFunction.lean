import Mathlib.Tactic.Ring

/-!
# Distributed point functions

Two parties share a function that is not zero at one point only, so that neither of them learns the
point. Each expands a tree of seeds with control bits from its own root; a correction word for each
level makes the two trees agree everywhere but on the way to the point. Nothing is needed of the
function that expands a seed, and of the sum of seeds only that it cancels.

## Main results

* `node_agree`: the trees agree off the way and differ in the control bit on it.
* `level_eq`: a level holds the nodes that the numbers of its leaves lead to.
-/

namespace PointFunction

open List

/-- A seed with its control bit. -/
abbrev Node (S : Type*) := S × Bool

/-- A correction word: what is added to a seed, and to the control bit of each child. -/
structure Correction (S : Type*) where
  s : S
  left : Bool
  right : Bool
  deriving DecidableEq

variable {S : Type*} (add : S → S → S) (expand : S → Node S × Node S)

/-- The child of a seed in a direction. -/
def branch (x : Node S) (dir : Bool) : Node S := if dir then (expand x.1).2 else (expand x.1).1

/-- The child of a node in a direction. -/
def child (cw : Correction S) (x : Node S) (dir : Bool) : Node S :=
  if x.2 then
    (add (branch expand x dir).1 cw.s, (branch expand x dir).2 ^^ if dir then cw.right else cw.left)
  else branch expand x dir

/-- The correction word for two nodes: the children that are lost shall agree, and those that are
kept differ in the control bit. -/
def correction (a b : Node S) (dir : Bool) : Correction S where
  s := add (branch expand a !dir).1 (branch expand b !dir).1
  left := (branch expand a false).2 ^^ (branch expand b false).2 ^^ !dir
  right := (branch expand a true).2 ^^ (branch expand b true).2 ^^ dir

variable {add expand} {a b : Node S}

/-- The bit that is added to the control bit of a child: the sum of those of the two nodes, changed
for the child that is kept. -/
theorem correction_bit (dir dir' : Bool) :
    (if dir' then (correction add expand a b dir).right else (correction add expand a b dir).left)
      = ((branch expand a dir').2 ^^ (branch expand b dir').2 ^^ (dir' == dir)) := by
  cases dir <;> cases dir' <;> rfl

/-- Of two nodes that differ in the control bit, one child is corrected. -/
theorem child_of_ne {cw : Correction S} {P : Node S → Node S → Prop}
    (hsymm : ∀ {x y}, P x y → P y x) (h : a.2 ≠ b.2) {dir : Bool}
    (hcorrect : ∀ x y : Node S, (x = a ∧ y = b ∨ x = b ∧ y = a) →
      P (add (branch expand x dir).1 cw.s,
        (branch expand x dir).2 ^^ if dir then cw.right else cw.left) (branch expand y dir)) :
    P (child add expand cw a dir) (child add expand cw b dir) := by
  cases ha : a.2 with
  | true =>
    have hb : b.2 = false := Bool.eq_false_iff.mpr fun hb => h (ha.trans hb.symm)
    rw [child, child, ha, hb]
    exact hcorrect a b (.inl ⟨rfl, rfl⟩)
  | false =>
    have hb : b.2 = true := Bool.not_eq_false _ |>.mp fun hb => h (ha.trans hb.symm)
    rw [child, child, ha, hb]
    exact hsymm (hcorrect b a (.inr ⟨rfl, rfl⟩))

/-- The children that are kept differ in the control bit. -/
theorem child_keep (h : a.2 ≠ b.2) (dir : Bool) :
    (child add expand (correction add expand a b dir) a dir).2
      ≠ (child add expand (correction add expand a b dir) b dir).2 := by
  have hbits : ∀ u v : Bool, (u ^^ (u ^^ v ^^ true)) ≠ v ∧ (u ^^ (v ^^ u ^^ true)) ≠ v := by
    decide
  refine child_of_ne (P := fun x y => x.2 ≠ y.2) Ne.symm h fun x y hxy => ?_
  rw [correction_bit, beq_self_eq_true]
  rcases hxy with ⟨rfl, rfl⟩ | ⟨rfl, rfl⟩
  · exact (hbits _ _).1
  · exact (hbits _ _).2

/-- The children that are lost agree. -/
theorem child_lose (hcomm : ∀ x y, add x y = add y x) (hcancel : ∀ x y, add x (add x y) = y)
    (h : a.2 ≠ b.2) (dir : Bool) :
    child add expand (correction add expand a b dir) a (!dir)
      = child add expand (correction add expand a b dir) b (!dir) := by
  have hbits : ∀ u v : Bool, (u ^^ (u ^^ v ^^ false)) = v ∧ (u ^^ (v ^^ u ^^ false)) = v := by
    decide
  have hdir : ((!dir) == dir) = false := by cases dir <;> rfl
  refine child_of_ne (P := Eq) Eq.symm h fun x y hxy => Prod.ext ?_ ?_
  · rcases hxy with ⟨rfl, rfl⟩ | ⟨rfl, rfl⟩
    · exact hcancel _ _
    · rw [correction, hcomm (branch expand y !dir).1]
      exact hcancel _ _
  · rw [correction_bit, hdir]
    rcases hxy with ⟨rfl, rfl⟩ | ⟨rfl, rfl⟩
    · exact (hbits _ _).1
    · exact (hbits _ _).2

/-! ### The tree -/

variable (add expand)

/-- The node at a place of a level, with the correction words of the levels. -/
def node (cw : ℕ → Correction S) (root : Node S) : ℕ → ℕ → Node S
  | 0, _ => root
  | l + 1, j => child add expand (cw l) (node cw root l (j / 2)) (decide (j % 2 = 1))

/-- A level of the tree of which no more than a number of nodes are kept. -/
def level (n : ℕ) (cw : ℕ → Correction S) (root : Node S) : ℕ → List (Node S)
  | 0 => [root]
  | l + 1 =>
    let nodes := level n cw root l
    (nodes.flatMap fun x => [child add expand (cw l) x false, child add expand (cw l) x true]).take
      (min (2 * nodes.length) n)

variable {add expand} {cw : ℕ → Correction S}

/-- The two children of each of a number of nodes, in order. -/
theorem flatMap_range_pair {β : Type*} (f : ℕ → β) (m : ℕ) :
    (List.range m).flatMap (fun j => [f (2 * j), f (2 * j + 1)]) = (List.range (2 * m)).map f := by
  induction m with
  | zero => rfl
  | succ m ih =>
    rw [range_succ, flatMap_append, ih, show 2 * (m + 1) = 2 * m + 1 + 1 by omega,
      range_succ, range_succ]
    simp

/-- A level holds the first nodes of the tree. -/
theorem level_eq {n : ℕ} (hn : 0 < n) (root : Node S) (l : ℕ) :
    level add expand n cw root l =
      (List.range (min (2 ^ l) n)).map (node add expand cw root l) := by
  induction l with
  | zero =>
    rw [Nat.pow_zero, Nat.min_eq_left hn]
    rfl
  | succ l ih =>
    have hpair : ∀ j, [child add expand (cw l) (node add expand cw root l j) false,
        child add expand (cw l) (node add expand cw root l j) true]
        = [node add expand cw root (l + 1) (2 * j),
          node add expand cw root (l + 1) (2 * j + 1)] := by
      intro j
      have heven : 2 * j / 2 = j := by omega
      have hodd : (2 * j + 1) / 2 = j := by omega
      have hmod : (2 * j + 1) % 2 = 1 := by omega
      simp [node, heven, hodd, hmod]
    have hcount : min (2 * min (2 ^ l) n) n = min (2 ^ (l + 1)) n := by
      omega
    simp only [level, ih, flatMap_map, hpair, length_map, length_range, hcount,
      flatMap_range_pair, ← map_take, take_range]
    congr 2
    omega

/-- The correction words of the way to a target that is `d` levels down. -/
def Corrects (add : S → S → S) (expand : S → Node S × Node S) (cw : ℕ → Correction S)
    (a b : Node S) (d target : ℕ) : Prop :=
  ∀ l < d, cw l = correction add expand (node add expand cw a l (target / 2 ^ (d - l)))
    (node add expand cw b l (target / 2 ^ (d - l))) (decide (target / 2 ^ (d - (l + 1)) % 2 = 1))

/-- The trees differ in the control bit on the way to the target, and agree off it. -/
theorem node_agree (hcomm : ∀ x y, add x y = add y x) (hcancel : ∀ x y, add x (add x y) = y)
    {d target : ℕ} (hcw : Corrects add expand cw a b d target) (hroot : a.2 ≠ b.2)
    (htarget : target < 2 ^ d) {l : ℕ} (hl : l ≤ d) {j : ℕ} (hj : j < 2 ^ l) :
    if j = target / 2 ^ (d - l) then (node add expand cw a l j).2 ≠ (node add expand cw b l j).2
    else node add expand cw a l j = node add expand cw b l j := by
  induction l generalizing j with
  | zero =>
    have hzero : j = target / 2 ^ (d - 0) := by
      rw [Nat.sub_zero, Nat.div_eq_of_lt htarget]
      exact Nat.lt_one_iff.mp hj
    rw [if_pos hzero]
    exact hroot
  | succ l ih =>
    have hparent : target / 2 ^ (d - (l + 1)) / 2 = target / 2 ^ (d - l) := by
      rw [Nat.div_div_eq_div_mul, ← Nat.pow_succ, show (d - (l + 1)).succ = d - l by omega]
    have hbefore := @ih (by omega) (j / 2) (by omega)
    simp only [node]
    by_cases hway : j / 2 = target / 2 ^ (d - l)
    · -- The parent is on the way, and one of its children is.
      rw [if_pos hway] at hbefore
      rw [hcw l (by omega), ← hway]
      split
      next hj =>
        rw [← hj]
        exact child_keep hbefore _
      next hj =>
        have hdir : decide (j % 2 = 1) = !decide (target / 2 ^ (d - (l + 1)) % 2 = 1) := by
          rw [← decide_not, decide_eq_decide]
          omega
        rw [hdir]
        exact child_lose hcomm hcancel hbefore _
    · rw [if_neg hway] at hbefore
      rw [if_neg (fun hj => hway (by rw [hj, hparent])), hbefore]

end PointFunction
