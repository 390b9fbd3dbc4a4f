import Mathlib.Data.Nat.Bitwise
import Mathlib.Data.List.Basic
import Mathlib.Tactic.Ring

/-!
# Byte codecs

Byte strings, fixed-width byte fields, big-endian machine words and a reader that consumes a
byte string from the front.

Two families of rules are provided, and both are tagged for `simp`. The *cancellation* rules
split an equation between two concatenations at the end of a field of known width, so that an
equation between two encodings of records becomes the conjunction of the equations of their
fields. The *replay* rules say what a reader does when its input starts with the encoding it
expects.
-/

namespace Codec

open List Nat

/-- A byte string. -/
abbrev Bytes := List UInt8

/-- What holds of all elements is tested on them, also if the type is finite. -/
instance (priority := 2000) decidableForallMem {α : Type*} (p : α → Prop) [DecidablePred p]
    (l : List α) : Decidable (∀ a ∈ l, p a) := decidableBAll p l

/-- An array of fixed length `n`. -/
abbrev Arr (α : Type*) (n : ℕ) := { xs : List α // xs.length = n }

/-- A byte field of fixed width `n`. -/
abbrev Field (n : ℕ) := Arr UInt8 n

instance decidableMemField {n : ℕ} (a : Field n) (l : List (Field n)) : Decidable (a ∈ l) :=
  instDecidableMemOfLawfulBEq a l

namespace Arr

variable {α : Type*} {n : ℕ}

/-- The array that holds `n` copies of one element. -/
def replicate (n : ℕ) (a : α) : Arr α n := ⟨List.replicate n a, List.length_replicate⟩

/-- The first `n` elements of a list, padded with `a` when it is too short. -/
def ofList (n : ℕ) (a : α) (xs : List α) : Arr α n :=
  ⟨xs.take n ++ List.replicate (n - xs.length) a, by simp; omega⟩

variable (a : α) (f : Arr α n)

/-- The array with its element at position `i` overwritten; unchanged when `i` is out of range. -/
def set (i : ℕ) (a : α) : Arr α n := ⟨f.val.set i a, by simp [f.2]⟩

@[simp] theorem length_val : f.val.length = n := f.2

theorem ofList_append (rest : List α) : ofList n a (f.val ++ rest) = f := by
  simp [ofList]

theorem ofList_val : ofList n a f.val = f := by
  rw [← append_nil f.val, ofList_append]

theorem take_val_ofList (xs : List α) (k : ℕ) (hk : k ≤ xs.length) (hn : k ≤ n) :
    (ofList n a xs).val.take k = xs.take k := by
  have hlen : k ≤ (xs.take n).length := by simp; omega
  rw [ofList, take_append_of_le_length hlen, take_take, min_eq_left hn]

theorem val_ofList_of_le {xs : List α} (h : xs.length ≤ n) :
    (ofList n a xs).val = xs ++ List.replicate (n - xs.length) a := by
  simp only [ofList, take_of_length_le h]

theorem ofList_eq_of_take_eq {xs ys : List α} (hx : n ≤ xs.length) (hy : n ≤ ys.length)
    (h : xs.take n = ys.take n) : ofList n a xs = ofList n a ys := by
  simp only [ofList, h, Nat.sub_eq_zero_of_le hx, Nat.sub_eq_zero_of_le hy]

theorem replicate_injective (hn : 0 < n) : Function.Injective (replicate n : α → Arr α n) := by
  intro a b hab
  have hval : List.replicate n a = List.replicate n b := congrArg Subtype.val hab
  exact (List.replicate_inj.mp hval).2.resolve_left (by omega)

end Arr

/-- The field of `n` zero bytes. -/
abbrev Field.zero (n : ℕ) : Field n := Arr.replicate n 0

/-- The exclusive or of two fields, byte by byte. -/
def Field.xor {n : ℕ} (a b : Field n) : Field n :=
  ⟨List.zipWith (· ^^^ ·) a.val b.val, by rw [List.length_zipWith, a.2, b.2, min_self]⟩

variable {n : ℕ}

theorem Field.xor_comm (a b : Field n) : a.xor b = b.xor a :=
  Subtype.ext (zipWith_comm_of_comm UInt8.xor_comm)

theorem Field.xor_xor_cancel_left (a b : Field n) : a.xor (a.xor b) = b := by
  refine Subtype.ext (ext_getElem ?_ fun i hi _ => ?_)
  · rw [(a.xor (a.xor b)).2, b.2]
  · simp only [Field.xor, getElem_zipWith, ← UInt8.xor_assoc, UInt8.xor_self, UInt8.zero_xor]

/-! ### Cancellation -/

/-- Two concatenations whose first parts have the same length are equal exactly when both parts
are. -/
theorem append_cancel {α : Type*} {a b x y : List α} (h : a.length = b.length) :
    a ++ x = b ++ y ↔ a = b ∧ x = y :=
  ⟨fun e => append_inj e h, fun ⟨ea, ex⟩ => by rw [ea, ex]⟩

@[simp] theorem field_append_cancel (a b : Field n) (x y : Bytes) :
    a.val ++ x = b.val ++ y ↔ a = b ∧ x = y := by
  rw [append_cancel (by simp), Subtype.ext_iff]

/-- Fields of one width, back to back. -/
@[simp] def joinFields {n : ℕ} : List (Field n) → Bytes
  | [] => []
  | f :: fs => f.val ++ joinFields fs

/-- Two runs of the same number of fields cancel as a whole. -/
theorem joinFields_append_cancel {fs gs : List (Field n)} (h : fs.length = gs.length)
    (x y : Bytes) : joinFields fs ++ x = joinFields gs ++ y ↔ fs = gs ∧ x = y := by
  induction fs generalizing gs with
  | nil =>
    obtain rfl : gs = [] := length_eq_zero_iff.mp h.symm
    simp
  | cons f fs ih =>
    obtain ⟨g, gs, rfl⟩ := exists_cons_of_length_eq_add_one h.symm
    simp [ih (Nat.succ.inj h), and_assoc]

/-! ### Big-endian words -/

/-- The low `k` bytes of `n`, most significant first. -/
def beEncode : ℕ → ℕ → Bytes
  | 0, _ => []
  | k + 1, n => UInt8.ofNat (n >>> (8 * k)) :: beEncode k n

/-- The number a big-endian byte string denotes. -/
def beDecode (bs : Bytes) : ℕ := bs.foldl (fun acc b => acc <<< 8 ||| b.toNat) 0

@[simp] theorem length_beEncode (k n : ℕ) : (beEncode k n).length = k := by
  induction k with
  | zero => rfl
  | succ k ih => simp [beEncode, ih]

private theorem shift_or_byte (a : ℕ) (b : UInt8) : a <<< 8 ||| b.toNat = a * 2 ^ 8 + b.toNat := by
  rw [← shiftLeft_add_eq_or_of_lt (by simpa using b.toNat_lt), shiftLeft_eq]

private theorem foldl_be (bs : Bytes) (a : ℕ) :
    bs.foldl (fun acc b => acc <<< 8 ||| b.toNat) a = a * 2 ^ (8 * bs.length) + beDecode bs := by
  induction bs generalizing a with
  | nil => simp [beDecode]
  | cons b bs ih =>
    rw [beDecode, foldl_cons, foldl_cons, ih, ih, shift_or_byte, shift_or_byte,
      length_cons, show 8 * (bs.length + 1) = 8 * bs.length + 8 by ring, pow_add]
    ring

theorem beDecode_cons (b : UInt8) (bs : Bytes) :
    beDecode (b :: bs) = b.toNat * 2 ^ (8 * bs.length) + beDecode bs := by
  rw [beDecode, foldl_cons, foldl_be, shift_or_byte, zero_mul, zero_add]

theorem beDecode_beEncode (k n : ℕ) : beDecode (beEncode k n) = n % 2 ^ (8 * k) := by
  induction k with
  | zero => simp [beEncode, beDecode, mod_one]
  | succ k ih =>
    -- The first byte is digit `k` of `n` in base 256.
    have hbyte : (UInt8.ofNat (n >>> (8 * k))).toNat = n / 2 ^ (8 * k) % 2 ^ 8 := by
      simp [shiftRight_eq_div_pow]
    rw [beEncode, beDecode_cons, length_beEncode, ih, hbyte,
      show 8 * (k + 1) = 8 * k + 8 by ring, pow_add, mod_mul]
    ring

theorem beEncode_append_cancel {k m : ℕ} (hm : m < 2 ^ (8 * k)) (hn : n < 2 ^ (8 * k))
    (x y : Bytes) : beEncode k m ++ x = beEncode k n ++ y ↔ m = n ∧ x = y := by
  rw [append_cancel (by simp)]
  refine and_congr_left' ⟨fun h => ?_, congrArg _⟩
  have hdec := congrArg beDecode h
  rwa [beDecode_beEncode, beDecode_beEncode, mod_eq_of_lt hm, mod_eq_of_lt hn] at hdec

/-- Numbers that fit in 32 bits are determined by their 32-bit words. -/
theorem uint32_ofNat_inj {m : ℕ} (hm : m < 2 ^ 32) (hn : n < 2 ^ 32) :
    UInt32.ofNat m = UInt32.ofNat n ↔ m = n := by
  rw [← UInt32.toNat_inj, UInt32.toNat_ofNat', UInt32.toNat_ofNat', mod_eq_of_lt hm,
    mod_eq_of_lt hn]

/-- A 16-bit word, most significant byte first. -/
def be16 (v : UInt16) : Bytes := beEncode 2 v.toNat

/-- A 32-bit word, most significant byte first. -/
def be32 (v : UInt32) : Bytes := beEncode 4 v.toNat

/-- A 64-bit word, most significant byte first. -/
def be64 (v : UInt64) : Bytes := beEncode 8 v.toNat

/-- A 32-bit word in the byte order of a little-endian machine. -/
def le32 (v : UInt32) : Bytes := (be32 v).reverse

@[simp] theorem length_be16 (v : UInt16) : (be16 v).length = 2 := length_beEncode ..
variable (v w : UInt32)

@[simp] theorem length_be32 : (be32 v).length = 4 := length_beEncode ..
@[simp] theorem length_be64 (v : UInt64) : (be64 v).length = 8 := length_beEncode ..
@[simp] theorem length_le32 : (le32 v).length = 4 := by simp [le32]

/-- A 16-bit word is read back from its bytes. -/
@[simp] theorem ofNat_beDecode_be16 (v : UInt16) : UInt16.ofNat (beDecode (be16 v)) = v := by
  simp [be16, beDecode_beEncode, mod_eq_of_lt v.toNat_lt]

@[simp] theorem be16_append_cancel (v w : UInt16) (x y : Bytes) :
    be16 v ++ x = be16 w ++ y ↔ v = w ∧ x = y := by
  rw [be16, be16, beEncode_append_cancel v.toNat_lt w.toNat_lt, UInt16.toNat_inj]

@[simp] theorem be32_append_cancel (x y : Bytes) : be32 v ++ x = be32 w ++ y ↔ v = w ∧ x = y := by
  rw [be32, be32, beEncode_append_cancel v.toNat_lt w.toNat_lt, UInt32.toNat_inj]

@[simp] theorem be64_append_cancel (v w : UInt64) (x y : Bytes) :
    be64 v ++ x = be64 w ++ y ↔ v = w ∧ x = y := by
  rw [be64, be64, beEncode_append_cancel v.toNat_lt w.toNat_lt, UInt64.toNat_inj]

theorem be64_inj (v w : UInt64) : be64 v = be64 w ↔ v = w := by
  simpa using be64_append_cancel v w [] []

theorem be32_inj : be32 v = be32 w ↔ v = w := by
  simpa using be32_append_cancel v w [] []

@[simp] theorem le32_append_cancel (x y : Bytes) : le32 v ++ x = le32 w ++ y ↔ v = w ∧ x = y := by
  rw [append_cancel (by simp), le32, le32, reverse_inj, be32_inj]

/-! ### Readers -/

/-- A reader consumes bytes from the front of its input, or fails. -/
abbrev Reader := StateT Bytes Option

/-- The number of bytes that are left. -/
def remaining : Reader ℕ := fun s => some (s.length, s)

def readField (n : ℕ) : Reader (Field n) := fun s =>
  if h : n ≤ s.length then some (⟨s.take n, by simpa using h⟩, s.drop n) else none

/-- Reads a big-endian number of `k` bytes. -/
def readBe (k : ℕ) : Reader ℕ := do return beDecode (← readField k).val

def readU8 : Reader UInt8 := do return UInt8.ofNat (← readBe 1)

/-- Reads a 16-bit word. -/
def readU16 : Reader UInt16 := do return UInt16.ofNat (← readBe 2)

/-- Reads a 32-bit word. -/
def readU32 : Reader UInt32 := do return UInt32.ofNat (← readBe 4)

/-- Reads a 64-bit word. -/
def readU64 : Reader UInt64 := do return UInt64.ofNat (← readBe 8)

def readMany {α : Type} (item : Reader α) : ℕ → Reader (List α)
  | 0 => return []
  | k + 1 => do return (← item) :: (← readMany item k)

@[simp] theorem remaining_run (s : Bytes) : remaining.run s = some (s.length, s) := rfl

@[simp] theorem readField_run_append (f : Field n) (rest : Bytes) :
    (readField n).run (f.val ++ rest) = some (f, rest) := by
  simp [readField, StateT.run]

private theorem readBe_run_append (k n : ℕ) (rest : Bytes) :
    (readBe k).run (beEncode k n ++ rest) = some (n % 2 ^ (8 * k), rest) := by
  have hread := readField_run_append (⟨beEncode k n, length_beEncode k n⟩ : Field k) rest
  simp [readBe, hread, beDecode_beEncode]

@[simp] theorem readU8_run_cons (b : UInt8) (rest : Bytes) :
    readU8.run (b :: rest) = some (b, rest) := by
  have hread := readBe_run_append 1 b.toNat rest
  simp only [beEncode, mul_zero, shiftRight_zero, UInt8.ofNat_toNat, cons_append,
    nil_append] at hread
  simp [readU8, hread]

@[simp] theorem readU16_run_append (v : UInt16) (rest : Bytes) :
    readU16.run (be16 v ++ rest) = some (v, rest) := by
  simp [readU16, be16, readBe_run_append]

@[simp] theorem readU32_run_append (rest : Bytes) :
    readU32.run (be32 v ++ rest) = some (v, rest) := by
  simp [readU32, be32, readBe_run_append]

@[simp] theorem readU64_run_append (v : UInt64) (rest : Bytes) :
    readU64.run (be64 v ++ rest) = some (v, rest) := by
  simp [readU64, be64, readBe_run_append]

/-! ### What a reader returns -/

variable {α β : Type} {P : α → Prop} {Q : β → Prop} {m : Reader α}

/-- Whatever the input, what the reader returns has the property. -/
def Ensures (m : Reader α) (P : α → Prop) : Prop :=
  ∀ s a s', m.run s = some (a, s') → P a

namespace Ensures

theorem trivial (m : Reader α) : Ensures m fun _ => True := fun _ _ _ _ => True.intro

theorem pure {a : α} (h : P a) : Ensures (Pure.pure a : Reader α) P := by
  intro s b s' hrun
  exact (Prod.mk.inj (Option.some_inj.mp hrun)).1 ▸ h

theorem failure : Ensures (Alternative.failure : Reader α) P := by
  intro s a s' hrun
  simp at hrun

variable {k : α → Reader β}

theorem bind (hm : Ensures m P) (hk : ∀ a, P a → Ensures (k a) Q) : Ensures (m >>= k) Q := by
  intro s b s' hrun
  obtain ⟨⟨a, t⟩, ha, hb⟩ := Option.bind_eq_some_iff.mp hrun
  exact hk a (hm s a t ha) t b s' hb

/-- The rule for a step of which nothing is needed. -/
theorem bind_any (hk : ∀ a, Ensures (k a) Q) : Ensures (m >>= k) Q :=
  (trivial m).bind fun a _ => hk a

theorem ite {c : Prop} [Decidable c] {m' : Reader α} (hm : c → Ensures m P)
    (hm' : ¬ c → Ensures m' P) : Ensures (if c then m else m') P := by
  split
  · exact hm ‹_›
  · exact hm' ‹_›

end Ensures

/-! ### How much a reader leaves -/

/-- From at most `k` bytes the reader leaves at most `j`, and what it returns has the property. -/
def Within (k : ℕ) (m : Reader α) (j : ℕ) (P : α → Prop) : Prop :=
  ∀ s a s', s.length ≤ k → m.run s = some (a, s') → s'.length ≤ j ∧ P a

namespace Within

variable {i j k : ℕ}

theorem pure {a : α} (h : P a) : Within k (Pure.pure a : Reader α) k P := by
  intro s b s' hs hrun
  cases hrun
  exact ⟨hs, h⟩

theorem failure : Within k (Alternative.failure : Reader α) j P := by
  intro s a s' _ hrun
  simp at hrun

theorem bind {f : α → Reader β} (hm : Within k m j P) (hf : ∀ a, P a → Within j (f a) i Q) :
    Within k (m >>= f) i Q := by
  intro s b s' hs hrun
  obtain ⟨⟨a, t⟩, ha, hb⟩ := Option.bind_eq_some_iff.mp hrun
  have ⟨ht, hPa⟩ := hm s a t hs ha
  exact hf a hPa t b s' ht hb

theorem ite {c : Prop} [Decidable c] {m' : Reader α} (hm : c → Within k m j P)
    (hm' : ¬ c → Within k m' j P) : Within k (if c then m else m') j P := by
  split
  · exact hm ‹_›
  · exact hm' ‹_›

theorem mono (h : Within k m j P) (hj : j ≤ i) : Within k m i P := by
  intro s a s' hs hrun
  have ⟨hlen, hP⟩ := h s a s' hs hrun
  exact ⟨hlen.trans hj, hP⟩

theorem remaining : Within k remaining k (· ≤ k) := by
  intro s a s' hs hrun
  cases hrun
  exact ⟨hs, hs⟩

theorem readField (n : ℕ) : Within k (readField n) (k - n) fun _ => True := by
  intro s a s' hs hrun
  unfold Codec.readField StateT.run at hrun
  dsimp only at hrun
  split at hrun
  · cases hrun
    simp only [length_drop, and_true]
    omega
  · cases hrun

theorem readBe (n : ℕ) : Within k (readBe n) (k - n) fun _ => True :=
  (readField n).bind fun _ _ => .pure trivial

theorem readU8 : Within k readU8 (k - 1) fun _ => True := (readBe 1).bind fun _ _ => .pure trivial

theorem readU16 : Within k readU16 (k - 2) fun _ => True := (readBe 2).bind fun _ _ => .pure trivial

theorem readU32 : Within k readU32 (k - 4) fun _ => True := (readBe 4).bind fun _ _ => .pure trivial

theorem readU64 : Within k readU64 (k - 8) fun _ => True := (readBe 8).bind fun _ _ => .pure trivial

theorem readMany {item : Reader α} (h : Within k item k fun _ => True) (n : ℕ) :
    Within k (readMany item n) k fun _ => True := by
  induction n with
  | zero => exact .pure trivial
  | succ n ih => exact h.bind fun _ _ => ih.bind fun _ _ => .pure trivial

end Within

theorem readMany_run_flatMap {α β : Type} {emit : α → Bytes} {item : Reader β} (view : α → β)
    (as : List α) (h : ∀ a ∈ as, ∀ rest, item.run (emit a ++ rest) = some (view a, rest))
    (rest : Bytes) :
    (readMany item as.length).run (as.flatMap emit ++ rest) = some (as.map view, rest) := by
  induction as with
  | nil => rfl
  | cons a as ih =>
    have hfirst := h a mem_cons_self
    have hrest := ih fun b hb => h b (mem_cons_of_mem a hb)
    simp [readMany, hfirst, hrest]

@[simp] theorem readMany_run_append (fs : List (Field n)) (rest : Bytes) :
    (readMany (readField n) fs.length).run (joinFields fs ++ rest) = some (fs, rest) := by
  induction fs with
  | nil => rfl
  | cons f fs ih => simp [readMany, ih]

end Codec
