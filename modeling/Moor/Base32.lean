import Moor.Lib.Codec

/-!
# Base32

The encoder and the decoder keep pending bits in the low end of a 32-bit buffer; what lies above
them is left over from earlier input and is masked off when it is used. Decoding an encoding gives
back the bytes.
-/

namespace Moor

open Codec List UInt32 Nat

/-- The lower-case letters and the digits 2 to 7, as ASCII. -/
def b32Alphabet : Bytes :=
  [97, 98, 99, 100, 101, 102, 103, 104, 105, 106, 107, 108, 109, 110, 111, 112, 113, 114, 115, 116,
    117, 118, 119, 120, 121, 122, 50, 51, 52, 53, 54, 55]

/-- The character for the low five bits of a word. -/
def b32Char (v : UInt32) : UInt8 := b32Alphabet.getD (v &&& 0x1F).toNat 0

/-- Emits a character for every five pending bits; returns the characters and the number of bits
left over. -/
def b32Drain (buffer : UInt32) : ℕ → Bytes × ℕ
  | bits + 5 =>
    (b32Char (buffer >>> UInt32.ofNat bits) :: (b32Drain buffer bits).1, (b32Drain buffer bits).2)
  | bits => ([], bits)

/-- The encoder's loop over the data, with its flush at the end. -/
def base32EncodeLoop : Bytes → UInt32 → ℕ → Bytes
  | [], buffer, bits => if bits > 0 then [b32Char (buffer <<< UInt32.ofNat (5 - bits))] else []
  | b :: data, buffer, bits =>
    let buffer := buffer <<< 8 ||| b.toUInt32
    (b32Drain buffer (bits + 8)).1 ++ base32EncodeLoop data buffer (b32Drain buffer (bits + 8)).2

variable (outLen : ℕ) (buffer v : UInt32)

/-- Encodes `data` into a buffer of `outLen` characters. -/
def base32Encode (data : Bytes) : Option Bytes :=
  if outLen < (data.length * 8 + 4) / 5 + 1 then none else some (base32EncodeLoop data 0 0)

/-- What a character stands for. -/
inductive B32Symbol where
  | value (v : UInt32)
  | padding
  | invalid
  deriving DecidableEq

/-- Letters of either case and the digits 2 to 7 have a value; `=` is skipped. -/
def b32Symbol (c : UInt8) : B32Symbol :=
  if 97 ≤ c ∧ c ≤ 122 then .value (c - 97).toUInt32
  else if 65 ≤ c ∧ c ≤ 90 then .value (c - 65).toUInt32
  else if 50 ≤ c ∧ c ≤ 55 then .value (c - 50 + 26).toUInt32
  else if c = 61 then .padding
  else .invalid

/-- The decoder's loop; `o` counts the bytes already written. -/
def base32DecodeLoop (outLen : ℕ) : Bytes → UInt32 → ℕ → ℕ → Option Bytes
  | [], _, _, _ => some []
  | c :: str, buffer, bits, o =>
    match b32Symbol c with
    | .invalid => none
    | .padding => base32DecodeLoop outLen str buffer bits o
    | .value v =>
      let buffer := buffer <<< 5 ||| v
      if 8 ≤ bits + 5 then
        if outLen ≤ o then none
        else (base32DecodeLoop outLen str buffer (bits + 5 - 8) (o + 1)).map
          ((buffer >>> UInt32.ofNat (bits + 5 - 8)).toUInt8 :: ·)
      else base32DecodeLoop outLen str buffer (bits + 5) o

/-- Decodes `str` into a buffer of `outLen` bytes. -/
def base32Decode (str : Bytes) : Option Bytes :=
  if outLen < str.length * 5 / 8 then none else base32DecodeLoop outLen str 0 0 0

/-! ### The buffers as numbers -/

private theorem toNat_shl_or {buffer v : UInt32} {k : ℕ} (hk : k < 32) (hv : v.toNat < 2 ^ k) :
    (buffer <<< UInt32.ofNat k ||| v).toNat
      = (buffer.toNat * 2 ^ k + v.toNat) % 2 ^ 32 := by
  have hsplit : (2 : ℕ) ^ 32 = 2 ^ (32 - k) * 2 ^ k := by
    rw [← pow_add, Nat.sub_add_cancel hk.le]
  -- Shifting drops the top bits first; the low bits are then free for `v`.
  have hshift : buffer.toNat <<< k % 2 ^ 32 = (buffer.toNat % 2 ^ (32 - k)) <<< k := by
    simp [Nat.shiftLeft_eq, hsplit, Nat.mul_mod_mul_right]
  have hfit : (buffer.toNat % 2 ^ (32 - k)) * 2 ^ k + v.toNat < 2 ^ 32 := by
    have hlt : buffer.toNat % 2 ^ (32 - k) < 2 ^ (32 - k) := Nat.mod_lt _ (Nat.two_pow_pos _)
    calc (buffer.toNat % 2 ^ (32 - k)) * 2 ^ k + v.toNat
        < (buffer.toNat % 2 ^ (32 - k)) * 2 ^ k + 1 * 2 ^ k := by omega
      _ = (buffer.toNat % 2 ^ (32 - k) + 1) * 2 ^ k := by ring
      _ ≤ 2 ^ (32 - k) * 2 ^ k := mul_le_mul_right _ hlt
      _ = 2 ^ 32 := hsplit.symm
  have hk' : (UInt32.ofNat k).toNat % 32 = k := by
    rw [UInt32.toNat_ofNat']
    omega
  rw [UInt32.toNat_or, UInt32.toNat_shiftLeft, hk', hshift,
    ← shiftLeft_add_eq_or_of_lt hv, shiftLeft_eq, ← mod_eq_of_lt hfit]
  conv_rhs => rw [← mod_add_mod]
  rw [hsplit, mul_mod_mul_right]

/-- The value that the character of a word stands for is the low five bits of the word. -/
theorem b32Symbol_b32Char : b32Symbol (b32Char v) = .value (v &&& 0x1F) := by
  have htable : ∀ n : Fin 32,
      b32Symbol (b32Alphabet.getD n.val 0) = .value (UInt32.ofNat n.val) := by
    decide
  have hlt : (v &&& 0x1F).toNat < 32 := by
    exact lt_of_le_of_lt Nat.and_le_right (by decide)
  rw [b32Char, htable ⟨_, hlt⟩, UInt32.ofNat_toNat]

private theorem toNat_shl8_or (b : UInt8) :
    (buffer <<< 8 ||| b.toUInt32).toNat = (buffer.toNat * 256 + b.toNat) % 4294967296 :=
  toNat_shl_or (by decide) (by simpa using b.toNat_lt)

private theorem toNat_shl5_or :
    (buffer <<< 5 ||| (v &&& 0x1F)).toNat = (buffer.toNat * 32 + v.toNat % 32) % 4294967296 := by
  have hmask : (v &&& 0x1F).toNat = v.toNat % 32 := by
    exact and_two_pow_sub_one_eq_mod v.toNat 5
  rw [← hmask]
  exact toNat_shl_or (by decide) (by rw [hmask]; exact mod_lt _ (by decide))

private theorem toNat_shr {k : ℕ} (hk : k < 32) :
    (buffer >>> UInt32.ofNat k).toNat = buffer.toNat / 2 ^ k := by
  have hk' : (UInt32.ofNat k).toNat % 32 = k := by
    rw [UInt32.toNat_ofNat']
    omega
  rw [UInt32.toNat_shiftRight, hk', shiftRight_eq_div_pow]

/-! ### The decoder follows the encoder -/

section

variable {outLen : ℕ}

/-- A character that does not complete a byte. -/
theorem base32DecodeLoop_char_of_lt (v buffer : UInt32) (str : Bytes) {bits : ℕ} (o : ℕ)
    (h : bits + 5 < 8) :
    base32DecodeLoop outLen (b32Char v :: str) buffer bits o
      = base32DecodeLoop outLen str (buffer <<< 5 ||| (v &&& 0x1F)) (bits + 5) o := by
  simp [base32DecodeLoop, b32Symbol_b32Char, not_le.mpr h]

/-- A character that completes the byte `p`. -/
theorem base32DecodeLoop_char_of_le (v buffer : UInt32) (str : Bytes) {bits o : ℕ} {p : UInt8}
    (h : 8 ≤ bits + 5) (hbits : bits < 8) (ho : o < outLen)
    (hp : (buffer.toNat * 32 + v.toNat % 32) % 4294967296 / 2 ^ (bits + 5 - 8) % 256 = p.toNat) :
    base32DecodeLoop outLen (b32Char v :: str) buffer bits o
      = (base32DecodeLoop outLen str (buffer <<< 5 ||| (v &&& 0x1F)) (bits + 5 - 8) (o + 1)).map
          (p :: ·) := by
  have hout : ((buffer <<< 5 ||| (v &&& 0x1F)) >>> ofNat (bits + 5 - 8)).toUInt8 = p := by
    apply UInt8.toNat_inj.mp
    rw [toNat_toUInt8, toNat_shr _ (by omega), toNat_shl5_or]
    exact hp
  simp only [base32DecodeLoop, b32Symbol_b32Char]
  rw [if_pos h, if_neg (not_le.mpr ho), hout]

/-- What the decoder has not written yet is at most one byte, of which it holds the high bits and
the encoder the low bits. -/
def Pending (eb : UInt32) (ebits : ℕ) (db : UInt32) (dbits : ℕ) : Bytes → Prop
  | [] => ebits = 0 ∧ dbits = 0
  | [p] => 1 ≤ ebits ∧ ebits ≤ 4 ∧ dbits + ebits = 8 ∧
      eb.toNat % 2 ^ ebits = p.toNat % 2 ^ ebits ∧ db.toNat % 2 ^ dbits = p.toNat / 2 ^ ebits
  | _ => False

theorem base32DecodeLoop_flush {eb db : UInt32} {ebits dbits o : ℕ} {p : UInt8}
    (h : Pending eb ebits db dbits [p]) (ho : o < outLen) :
    base32DecodeLoop outLen (base32EncodeLoop [] eb ebits) db dbits o = some [p] := by
  obtain ⟨h1, h4, hsum, hlow, hhigh⟩ := h
  have hchar : base32EncodeLoop [] eb ebits = [b32Char (eb <<< ofNat (5 - ebits))] :=
    if_pos h1
  have hshift : (eb <<< ofNat (5 - ebits)).toNat
      = eb.toNat * 2 ^ (5 - ebits) % 4294967296 := by
    have hzero := @toNat_shl_or eb 0 (5 - ebits) (by omega) (Nat.two_pow_pos _)
    simpa using hzero
  rw [hchar, base32DecodeLoop_char_of_le _ _ _ (by omega) (by omega) ho (p := p)]
  · rfl
  obtain rfl | rfl | rfl | rfl : ebits = 1 ∨ ebits = 2 ∨ ebits = 3 ∨ ebits = 4 := by omega
  · obtain rfl : dbits = 7 := by omega
    omega
  · obtain rfl : dbits = 6 := by omega
    omega
  · obtain rfl : dbits = 5 := by omega
    omega
  · obtain rfl : dbits = 4 := by omega
    omega

/-- A byte of which the decoder holds the high bits and the encoder at least the low four. -/
theorem base32DecodeLoop_byte {data : Bytes} {eb db : UInt32} {k o : ℕ} {b : UInt8}
    (hk : 4 ≤ k ∧ k ≤ 8) (hlow : eb.toNat % 2 ^ k = b.toNat % 2 ^ k)
    (hhigh : db.toNat % 2 ^ (8 - k) = b.toNat / 2 ^ k)
    (ih : ∀ {ebits db dbits o pending}, Pending eb ebits db dbits pending →
      o + pending.length + data.length ≤ outLen →
      base32DecodeLoop outLen (base32EncodeLoop data eb ebits) db dbits o
        = some (pending ++ data)) (hroom : o + 1 + data.length ≤ outLen) :
    base32DecodeLoop outLen
      ((b32Drain eb k).1 ++ base32EncodeLoop data eb (b32Drain eb k).2) db (8 - k) o
        = some (b :: data) := by
  obtain rfl | rfl | ⟨j, rfl, hj⟩ : k = 4 ∨ k = 5 ∨ ∃ j, k = j + 5 ∧ 1 ≤ j ∧ j ≤ 3 := by
    rcases lt_or_ge k 6 with hsmall | hlarge
    · omega
    · exact .inr (.inr ⟨k - 5, by omega, by omega, by omega⟩)
  · exact ih (show Pending _ _ _ _ [b] from ⟨by decide, by decide, rfl, hlow, hhigh⟩) hroom
  · rw [show b32Drain eb 5 = ([b32Char (eb >>> ofNat 0)], 0) from rfl, singleton_append,
      base32DecodeLoop_char_of_le _ _ _ (by decide) (by decide) (by omega) (p := b),
      ih (show Pending _ _ _ _ [] from ⟨rfl, rfl⟩) hroom]
    · rfl
    rw [toNat_shr _ (by decide)]
    omega
  · have hdrain : b32Drain eb (j + 5) = ([b32Char (eb >>> ofNat j)], j) := by
      obtain rfl | rfl | rfl : j = 1 ∨ j = 2 ∨ j = 3 := by omega
      all_goals rfl
    rw [hdrain, singleton_append, base32DecodeLoop_char_of_lt _ _ _ _ (by omega)]
    refine ih (show Pending _ _ _ _ [b] from ⟨hj.1, by omega, by omega, ?_, ?_⟩) hroom
    · rw [pow_add] at hlow
      rw [← mod_mul_right_mod eb.toNat, hlow, mod_mul_right_mod]
    · rw [toNat_shl5_or, toNat_shr _ (by omega)]
      obtain rfl | rfl | rfl : j = 1 ∨ j = 2 ∨ j = 3 := by omega
      all_goals omega

theorem base32DecodeLoop_encodeLoop (data : Bytes) {eb db : UInt32} {ebits dbits o : ℕ}
    {pending : Bytes} (h : Pending eb ebits db dbits pending)
    (ho : o + pending.length + data.length ≤ outLen) :
    base32DecodeLoop outLen (base32EncodeLoop data eb ebits) db dbits o
      = some (pending ++ data) := by
  induction data generalizing eb ebits db dbits o pending with
  | nil =>
    match pending, h with
    | [], ⟨he, hd⟩ =>
      subst he hd
      rfl
    | [p], h =>
      simp only [length_cons, length_nil] at ho
      exact base32DecodeLoop_flush h (by omega)
  | cons b data ih =>
    have hb := b.toNat_lt
    have hbuf := toNat_shl8_or eb b
    simp only [base32EncodeLoop]
    generalize eb <<< 8 ||| b.toUInt32 = eb' at hbuf ⊢
    match pending, h with
    | [], ⟨he, hd⟩ =>
      subst he hd
      simp only [length_cons, length_nil] at ho
      exact base32DecodeLoop_byte (by decide) (by omega) (by omega) ih (by omega)
    | [p], ⟨h1, h4, hsum, hlow, hhigh⟩ =>
      simp only [length_cons, length_nil] at ho
      obtain rfl : dbits = 8 - ebits := by omega
      have hebits : ebits = 1 ∨ ebits = 2 ∨ ebits = 3 ∨ ebits = 4 := by omega
      -- the first character completes `p`
      have hdrain : b32Drain eb' (ebits + 8) = (b32Char (eb' >>> ofNat (ebits + 3)) ::
          (b32Drain eb' (ebits + 3)).1, (b32Drain eb' (ebits + 3)).2) := rfl
      rw [hdrain, cons_append, base32DecodeLoop_char_of_le _ _ _ (by omega) (by omega) (by omega)
        (p := p), show 8 - ebits + 5 - 8 = 8 - (ebits + 3) by omega,
        base32DecodeLoop_byte (b := b) (by omega) ?_ ?_ ih (by omega)]
      · rfl
      · rcases hebits with rfl | rfl | rfl | rfl
        all_goals omega
      · rw [toNat_shl5_or, toNat_shr _ (by omega), hbuf]
        rcases hebits with rfl | rfl | rfl | rfl
        all_goals omega
      · rw [toNat_shr _ (by omega), hbuf]
        rcases hebits with rfl | rfl | rfl | rfl
        all_goals omega

end

private theorem length_b32Drain (buffer : UInt32) (bits : ℕ) :
    5 * (b32Drain buffer bits).1.length + (b32Drain buffer bits).2 = bits ∧
      (b32Drain buffer bits).2 < 5 := by
  fun_induction b32Drain buffer bits with
  | case1 bits ih =>
    simp only [length_cons]
    omega
  | case2 bits hsmall =>
    simp only [length_nil]
    by_contra hge
    exact hsmall (bits - 5) (by omega)

/-- Five bits a character, the last one padded. -/
theorem length_base32EncodeLoop (data : Bytes) (buffer : UInt32) {bits : ℕ} (h : bits < 5) :
    (base32EncodeLoop data buffer bits).length = (data.length * 8 + bits + 4) / 5 := by
  induction data generalizing buffer bits with
  | nil =>
    rw [base32EncodeLoop]
    split
    · simp only [length_cons, length_nil]
      omega
    · simp only [length_nil]
      omega
  | cons b data ih =>
    obtain ⟨hsum, hlt⟩ := length_b32Drain (buffer <<< 8 ||| b.toUInt32) (bits + 8)
    simp only [base32EncodeLoop, length_append, ih _ hlt, length_cons]
    omega

theorem eq_of_base32Encode {outLen : ℕ} {data str : Bytes}
    (h : base32Encode outLen data = some str) : base32EncodeLoop data 0 0 = str :=
  Option.some.inj (Option.ite_none_left_eq_some.mp h).2

theorem length_of_base32Encode {outLen : ℕ} {data str : Bytes}
    (h : base32Encode outLen data = some str) : str.length = (data.length * 8 + 4) / 5 := by
  rw [← eq_of_base32Encode h]
  exact length_base32EncodeLoop data 0 (by decide)

/-- Decoding an encoding gives back the bytes, when the output buffer holds them. -/
theorem base32Decode_base32Encode {outLen decLen : ℕ} {data str : Bytes}
    (hdec : data.length ≤ decLen) (h : base32Encode outLen data = some str) :
    base32Decode decLen str = some data := by
  have hlen := length_of_base32Encode h
  rw [base32Decode, if_neg (by omega), ← eq_of_base32Encode h]
  exact base32DecodeLoop_encodeLoop data (show Pending 0 0 0 0 [] from ⟨rfl, rfl⟩) (by simpa)

end Moor
