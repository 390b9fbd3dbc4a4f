import Moor.Crypto
import Moor.Lib.Run

/-!
# Admission by proof of work

A relay shows a nonce for which Argon2id of the nonce and a timestamp, salted with its identity,
starts with zero bits. A directory authority that verifies the proof keeps the solutions it has
accepted in a cache of 4096 slots, so that each is accepted once.
-/

namespace Moor

open Codec List Function

/-- `MOOR_POW_TIMESTAMP_WINDOW`, in seconds. -/
abbrev powTimestampWindow : UInt64 := 300

/-- `POW_NONCE_CACHE_SIZE` -/
abbrev powNonceCacheSize : ℕ := 4096

/-- `pow_nonce_entry_t` -/
structure PowNonceEntry where
  nonce : UInt64
  timestamp : UInt64
  /-- Zero in an empty slot. -/
  insertTime : UInt64
  contextHash : UInt64
deriving DecidableEq

/-- `g_nonce_cache` -/
abbrev NonceCache := Fin powNonceCacheSize → PowNonceEntry

namespace PowNonceEntry

/-- The entry was inserted too long ago to matter. -/
def expired (now : UInt64) (e : PowNonceEntry) : Bool :=
  e.insertTime != 0 && now > e.insertTime + powTimestampWindow + 60

def same (e e' : PowNonceEntry) : Bool :=
  e.nonce == e'.nonce && e.timestamp == e'.timestamp && e.contextHash == e'.contextHash

end PowNonceEntry

def nonceCacheSlot (secretWord nonce timestamp ctx : UInt64) : ℕ :=
  let h := nonce ^^^ (timestamp * 2654435761) ^^^ (ctx * 0x9E3779B97F4A7C15) ^^^ secretWord
  (h % UInt64.ofNat powNonceCacheSize).toNat

def probeIdx (slot probe : ℕ) : Fin powNonceCacheSize := Fin.ofNat powNonceCacheSize (slot + probe)

/-- The first loop of `nonce_cache_check_and_insert`: whether the solution was seen, if the loop
returns. -/
def nonceCacheProbe (new : PowNonceEntry) (now : UInt64) (slot : ℕ) :
    List ℕ → NonceCache → Option Bool × NonceCache
  | [], cache => (none, cache)
  | probe :: probes, cache =>
    let idx := probeIdx slot probe
    let e := if (cache idx).expired now then { cache idx with insertTime := 0 } else cache idx
    if e.insertTime = 0 then (some false, update cache idx new)
    else if e.same new then (some true, update cache idx e)
    else nonceCacheProbe new now slot probes (update cache idx e)

/-- The second loop of `nonce_cache_check_and_insert`: the slot of the oldest entry. -/
def nonceCacheOldest (cache : NonceCache) (slot : ℕ) : Fin powNonceCacheSize :=
  (List.range' 1 7).foldl (fun oldestIdx probe =>
    if (cache (probeIdx slot probe)).insertTime < (cache oldestIdx).insertTime then
      probeIdx slot probe
    else oldestIdx) (probeIdx slot 0)

/-- Both loops, from the slot of a solution on. -/
def nonceCacheFrom (new : PowNonceEntry) (now : UInt64) (slot : ℕ) (cache : NonceCache) :
    Bool × NonceCache :=
  match nonceCacheProbe new now slot (List.range 8) cache with
  | (some seen, cache) => (seen, cache)
  | (none, cache) => (false, update cache (nonceCacheOldest cache slot) new)

/-- Whether the solution is in the cache; if it is not, it is inserted. -/
def nonceCacheCheckAndInsert (secretWord nonce timestamp ctx now : UInt64) (cache : NonceCache) :
    Bool × NonceCache :=
  nonceCacheFrom ⟨nonce, timestamp, now, ctx⟩ now (nonceCacheSlot secretWord nonce timestamp ctx)
    cache

/-! ### The verification -/

/-- The hash has at least this many leading zero bits. -/
def hasLeadingZeros (hash : Bytes) (bits : ℤ) : Bool :=
  if bits ≤ 0 then bits = 0
  else if hash.length * 8 < bits then false
  else
    let fullBytes := (bits / 8).toNat
    let remainingBits := (bits % 8).toNat
    (hash.take fullBytes).all (· == 0) &&
      (remainingBits == 0 ||
        hash.getD fullBytes 0 &&& UInt8.ofNat (0xFF <<< (8 - remainingBits)) == 0)

def resolveMemlimit (memlimit : UInt32) : UInt32 :=
  if memlimit = 0 then 256 * 1024
  else if memlimit < 8 * 1024 then 8 * 1024
  else if 64 * 1024 * 1024 < memlimit then 64 * 1024 * 1024
  else memlimit

def moorPowTimestampIsFresh (timestamp now : UInt64) : Bool :=
  if now < timestamp ∧ 60 < timestamp - now then false
  else if timestamp < now ∧ powTimestampWindow < now - timestamp then false
  else
    let solutionEpoch := timestamp / powTimestampWindow
    let currentEpoch := now / powTimestampWindow
    solutionEpoch == currentEpoch || (0 < currentEpoch && solutionEpoch == currentEpoch - 1)

/-- What the verification depends on besides its arguments: the hash functions and the start of
`g_nonce_cache_secret`. -/
structure PowEnv where
  C : Crypto
  /-- Argon2id of a password and a salt with a memory limit. -/
  pwhash : Bytes → Bytes → UInt32 → Option (Field 32)
  secretWord : UInt64

/-- The eight bytes of a word in memory, the lowest first. -/
def leBytes (n : UInt64) : Bytes := (beEncode 8 n.toNat).reverse

/-- `derive_epoch_salt`, the full hash; the salt is its start. -/
def deriveEpochSalt (C : Crypto) (identityPk : Field 32) (epoch : UInt64) : Field 32 :=
  C.hash (identityPk.val ++ beEncode 8 epoch.toNat)

/-- A call of `moor_pow_verify` with the clock it reads for the timestamp and again for the
cache. -/
structure PowVerification where
  identityPk : Field 32
  nonce : UInt64
  timestamp : UInt64
  difficulty : ℤ
  memlimit : UInt32
  now : UInt64
  cacheNow : UInt64

namespace PowVerification

variable (env : PowEnv) (v : PowVerification)

/-- The hash that binds the solution to the identity and to the epoch of its timestamp. -/
def saltFull : Field 32 := deriveEpochSalt env.C v.identityPk (v.timestamp / powTimestampWindow)

/-- The context under which the solution is cached. -/
def ctx : UInt64 := UInt64.ofNat (beDecode ((v.saltFull env).val.take 8).reverse)

/-- What is shown: the identity, the nonce and the timestamp. -/
def triple : Field 32 × UInt64 × UInt64 := (v.identityPk, v.nonce, v.timestamp)

end PowVerification

/-- `moor_pow_verify`: whether the proof is accepted, and the cache afterwards. -/
def moorPowVerify (env : PowEnv) (cache : NonceCache) (v : PowVerification) : Bool × NonceCache :=
  if v.difficulty < 0 ∨ 64 < v.difficulty then (false, cache)
  -- proof of work is disabled
  else if v.difficulty = 0 then (true, cache)
  else if !moorPowTimestampIsFresh v.timestamp v.now then (false, cache)
  else
    let salt := (v.saltFull env).val.take 16
    match env.pwhash (leBytes v.nonce ++ leBytes v.timestamp) salt (resolveMemlimit v.memlimit) with
    | none => (false, cache)
    | some hash =>
      if hasLeadingZeros hash.val v.difficulty then
        let r := nonceCacheCheckAndInsert env.secretWord v.nonce v.timestamp (v.ctx env) v.cacheNow
          cache
        (!r.1, r.2)
      else (false, cache)

/-! ### What the cache does -/

namespace PowNonceEntry

/-- A slot with this entry is taken by the next solution that comes by. -/
def free (now : UInt64) (e : PowNonceEntry) : Bool := e.insertTime == 0 || e.expired now

variable {now : UInt64} {e : PowNonceEntry}

theorem insertTime_ne_zero (h : e.free now = false) : e.insertTime ≠ 0 := by
  simp only [free, Bool.or_eq_false_iff, beq_eq_false_iff_ne] at h
  exact h.1

theorem not_expired (h : e.free now = false) : e.expired now = false := by
  rw [free, Bool.or_eq_false_iff] at h
  exact h.2

/-- An entry stays for the window and a minute, unless the clock is about to wrap around. -/
theorem free_eq_false_iff (h : e.insertTime.toNat + 360 < 2 ^ 64) :
    e.free now = false ↔ e.insertTime ≠ 0 ∧ now.toNat ≤ e.insertTime.toNat + 360 := by
  have hsum : (e.insertTime + powTimestampWindow + 60).toNat = e.insertTime.toNat + 360 := by
    change ((e.insertTime.toNat + 300) % 2 ^ 64 + 60) % 2 ^ 64 = _
    omega
  by_cases hzero : e.insertTime = 0
  · simp [free, hzero]
  · simp [free, expired, hzero, UInt64.le_iff_toNat_le, hsum]

end PowNonceEntry

/-- The first probe whose slot is free or holds the solution decides. -/
theorem nonceCacheProbe_eq (new : PowNonceEntry) (now : UInt64) (slot : ℕ) (probes : List ℕ)
    (cache : NonceCache) :
    nonceCacheProbe new now slot probes cache
      = match probes.find? fun p =>
          (cache (probeIdx slot p)).free now || (cache (probeIdx slot p)).same new with
        | none => (none, cache)
        | some p =>
          if (cache (probeIdx slot p)).free now then
            (some false, update cache (probeIdx slot p) new)
          else (some true, cache) := by
  induction probes with
  | nil => rfl
  | cons p probes ih =>
    rw [nonceCacheProbe, find?_cons]
    cases hfree : (cache (probeIdx slot p)).free now with
    | true =>
      -- An entry that has expired is emptied and taken at once.
      have hzero : (if (cache (probeIdx slot p)).expired now then
          { cache (probeIdx slot p) with insertTime := 0 } else cache (probeIdx slot p)).insertTime
          = 0 := by
        split
        · rfl
        · rename_i hexpired
          simpa [PowNonceEntry.free, hexpired] using hfree
      simp [hzero, hfree]
    | false =>
      have hkeep := PowNonceEntry.not_expired hfree
      have hused := PowNonceEntry.insertTime_ne_zero hfree
      cases hsame : (cache (probeIdx slot p)).same new with
      | true => simp [hkeep, hused, hsame, hfree]
      | false => simpa [hkeep, hused, hsame] using ih

/-- A fresh timestamp is at most a minute ahead and a window behind. -/
theorem bounds_of_fresh {timestamp now : UInt64}
    (h : moorPowTimestampIsFresh timestamp now = true) :
    timestamp.toNat ≤ now.toNat + 60 ∧ now.toNat ≤ timestamp.toNat + 300 := by
  rw [moorPowTimestampIsFresh] at h
  split at h
  · cases h
  rename_i hahead
  split at h
  · cases h
  rename_i hbehind
  rw [not_and, UInt64.not_lt] at hahead hbehind
  constructor
  · by_contra hlt
    have hle : now ≤ timestamp := UInt64.le_iff_toNat_le.mpr (by omega)
    have hfar := hahead (UInt64.lt_iff_toNat_lt.mpr (by omega))
    rw [UInt64.le_iff_toNat_le, UInt64.toNat_sub_of_le _ _ hle] at hfar
    change timestamp.toNat - now.toNat ≤ 60 at hfar
    omega
  · by_contra hlt
    have hle : timestamp ≤ now := UInt64.le_iff_toNat_le.mpr (by omega)
    have hfar := hbehind (UInt64.lt_iff_toNat_lt.mpr (by omega))
    rw [UInt64.le_iff_toNat_le, UInt64.toNat_sub_of_le _ _ hle] at hfar
    change now.toNat - timestamp.toNat ≤ 300 at hfar
    omega

/-! ### One verification -/

namespace PowVerification

variable (env : PowEnv) (v : PowVerification)

/-- What the verification puts into the cache. -/
def entry : PowNonceEntry := ⟨v.nonce, v.timestamp, v.cacheNow, v.ctx env⟩

/-- The slot that the verification visits at a probe. -/
def idx (p : ℕ) : Fin powNonceCacheSize :=
  probeIdx (nonceCacheSlot env.secretWord v.nonce v.timestamp (v.ctx env)) p

/-- The slot of the probe is free when the verification comes to it. -/
def FreeAt (cache : NonceCache) (p : ℕ) : Prop := (cache (v.idx env p)).free v.cacheNow = true
  deriving Decidable

/-- The slot of the probe has an entry of the solution that is verified. -/
def HeldAt (cache : NonceCache) (p : ℕ) : Prop :=
  (cache (v.idx env p)).same (v.entry env) = true ∧ ¬ v.FreeAt env cache p
  deriving Decidable

/-- The proof is one: the timestamp is fresh and the hash starts with enough zeros. -/
def proofValid : Bool :=
  0 < v.difficulty && v.difficulty ≤ 64 && moorPowTimestampIsFresh v.timestamp v.now &&
    (env.pwhash (leBytes v.nonce ++ leBytes v.timestamp) ((v.saltFull env).val.take 16)
      (resolveMemlimit v.memlimit)).any fun hash => hasLeadingZeros hash.val v.difficulty

/-- What the verification does to the cache if it comes to it, and whether it finds the solution. -/
def cached (cache : NonceCache) : Bool × NonceCache :=
  nonceCacheCheckAndInsert env.secretWord v.nonce v.timestamp (v.ctx env) v.cacheNow cache

variable {env v}

theorem fresh_of_proofValid (h : v.proofValid env = true) :
    moorPowTimestampIsFresh v.timestamp v.now = true := by
  simp only [proofValid, Bool.and_eq_true] at h
  exact h.1.2

variable (cache : NonceCache)

/-- Unless proof of work is disabled, the cache is asked about the proofs that are valid. -/
theorem moorPowVerify_eq (h : v.difficulty ≠ 0) :
    moorPowVerify env cache v
      = if v.proofValid env then (!(v.cached env cache).1, (v.cached env cache).2)
        else (false, cache) := by
  rw [moorPowVerify]
  by_cases hrange : v.difficulty < 0 ∨ 64 < v.difficulty
  · rw [if_pos hrange, if_neg]
    simp only [proofValid, Bool.and_eq_true, decide_eq_true_eq]
    omega
  rw [if_neg hrange, if_neg h]
  have hpos : 0 < v.difficulty ∧ v.difficulty ≤ 64 := by omega
  cases hfresh : moorPowTimestampIsFresh v.timestamp v.now with
  | false => simp [proofValid, hfresh]
  | true =>
    cases hhash : env.pwhash (leBytes v.nonce ++ leBytes v.timestamp)
        ((v.saltFull env).val.take 16) (resolveMemlimit v.memlimit) with
    | none => simp [proofValid, hhash]
    | some hash => simp [proofValid, hhash, hfresh, hpos, cached]

/-- The verification ends at the first slot that is free or has the solution, or displaces another
one. -/
theorem cached_cases :
    (∃ p < 8, v.FreeAt env cache p ∧ (∀ q < p, ¬ v.HeldAt env cache q) ∧
      v.cached env cache = (false, update cache (v.idx env p) (v.entry env))) ∨
    (∃ p < 8, v.HeldAt env cache p ∧ (∀ q < p, ¬ v.FreeAt env cache q) ∧
      v.cached env cache = (true, cache)) ∨
    (∀ p < 8, ¬ (v.FreeAt env cache p ∨ v.HeldAt env cache p)) ∧
      (v.cached env cache).1 = false := by
  have hcached : v.cached env cache = nonceCacheFrom (v.entry env) v.cacheNow _ cache := rfl
  have hidx (p : ℕ) : probeIdx _ p = v.idx env p := rfl
  simp only [nonceCacheFrom, nonceCacheProbe_eq, hidx] at hcached
  cases hfind : (range 8).find? fun p =>
      (cache (v.idx env p)).free v.cacheNow || (cache (v.idx env p)).same (v.entry env) with
  | none =>
    refine .inr (.inr ⟨fun p hp => ?_, by rw [hcached, hfind]⟩)
    have hpass := find?_eq_none.mp hfind p (mem_range.mpr hp)
    simp only [Bool.or_eq_true, not_or] at hpass
    exact fun hends => hends.elim hpass.1 fun hheld => hpass.2 hheld.1
  | some p =>
    rw [hfind] at hcached
    obtain ⟨hends, hp, hbefore⟩ := find?_range_eq_some.mp hfind
    have hpass (q : ℕ) (hq : q < p) : ¬ v.FreeAt env cache q ∧ ¬ v.HeldAt env cache q := by
      have hlive := hbefore q hq
      simp only [Bool.not_eq_true', Bool.or_eq_false_iff] at hlive
      simp [FreeAt, HeldAt, hlive]
    cases hfree : (cache (v.idx env p)).free v.cacheNow with
    | true =>
      exact .inl ⟨p, mem_range.mp hp, hfree, fun q hq => (hpass q hq).2,
        by simpa [hfree] using hcached⟩
    | false =>
      refine .inr (.inl ⟨p, mem_range.mp hp, ?_, fun q hq => (hpass q hq).1, ?_⟩)
      · simpa [HeldAt, FreeAt, hfree] using hends
      · simpa [hfree] using hcached

/-- The cache finds a solution exactly when it holds it and no slot before it is free. -/
theorem cached_fst_iff :
    (v.cached env cache).1 = true ↔
      ∃ p < 8, v.HeldAt env cache p ∧ ∀ q < p, ¬ v.FreeAt env cache q := by
  rcases @cached_cases env v cache with
    ⟨p, hp, hfree, hbefore, heq⟩ | ⟨p, hp, hheld, hbefore, heq⟩ | ⟨hpass, heq⟩
  · rw [heq]
    refine iff_of_false (by simp) ?_
    rintro ⟨r, -, hheld, hlive⟩
    -- The solution lies behind the free slot, so that slot is not live.
    rcases Nat.lt_trichotomy r p with hlt | rfl | hgt
    · exact hbefore r hlt hheld
    · exact hheld.2 hfree
    · exact hlive p hgt hfree
  · rw [heq]
    exact iff_of_true rfl ⟨p, hp, hheld, hbefore⟩
  · rw [heq]
    refine iff_of_false (by simp) ?_
    rintro ⟨r, hr, hheld, -⟩
    exact hpass r hr (.inr hheld)

end PowVerification

/-! ### Verifications one after another -/

/-- The cache of an authority, with the verifications it has accepted. -/
structure PowState where
  cache : NonceCache
  accepted : List PowVerification

/-- The cache is empty. -/
def PowState.init : PowState := ⟨fun _ => ⟨0, 0, 0, 0⟩, []⟩

def powStep (env : PowEnv) (s : PowState) (v : PowVerification) : PowState :=
  let r := moorPowVerify env s.cache v
  ⟨r.2, if r.1 then v :: s.accepted else s.accepted⟩

/-- The clock never goes back, neither between verifications nor during one. -/
def ClockMonotone (vs : List PowVerification) : Prop :=
  (vs.flatMap fun v => [v.now, v.cacheNow]).Pairwise (· ≤ ·)

instance (vs : List PowVerification) : Decidable (ClockMonotone vs) :=
  inferInstanceAs (Decidable (List.Pairwise _ _))

/-- Proof of work is enabled, the clock can be stored and added to, and a valid proof finds a slot:
one that holds it, or else one that is free, and never a free one before the one that holds it. -/
structure PowVerification.Orderly (env : PowEnv) (s : PowState) (v : PowVerification) : Prop where
  enabled : v.difficulty ≠ 0
  clock : v.cacheNow ≠ 0 ∧ v.cacheNow.toNat + 360 < 2 ^ 64
  room : v.proofValid env = true → ∃ p < 8, v.FreeAt env s.cache p ∨ v.HeldAt env s.cache p
  unbroken : v.proofValid env = true →
    ∀ p < 8, v.HeldAt env s.cache p → ∀ q < p, ¬ v.FreeAt env s.cache q

instance (env : PowEnv) (s : PowState) (v : PowVerification) : Decidable (v.Orderly env s) :=
  decidable_of_iff (v.difficulty ≠ 0 ∧ (v.cacheNow ≠ 0 ∧ v.cacheNow.toNat + 360 < 2 ^ 64) ∧
      (v.proofValid env = true → ∃ p < 8, v.FreeAt env s.cache p ∨ v.HeldAt env s.cache p) ∧
      (v.proofValid env = true →
        ∀ p < 8, v.HeldAt env s.cache p → ∀ q < p, ¬ v.FreeAt env s.cache q))
    ⟨fun ⟨h₁, h₂, h₃, h₄⟩ => ⟨h₁, h₂, h₃, h₄⟩, fun ⟨h₁, h₂, h₃, h₄⟩ => ⟨h₁, h₂, h₃, h₄⟩⟩

namespace PowVerification

variable {env : PowEnv}

/-- The entry is of the solution, inserted at most a minute before its timestamp. -/
structure KeptIn (env : PowEnv) (u : PowVerification) (e : PowNonceEntry) : Prop where
  same : e.same (u.entry env) = true
  used : e.insertTime ≠ 0
  bound : e.insertTime.toNat + 360 < 2 ^ 64
  time : u.timestamp.toNat ≤ e.insertTime.toNat + 60

/-- An entry is only given up when the timestamp is no longer fresh. -/
theorem KeptIn.late_of_free {u : PowVerification} {e : PowNonceEntry} (h : u.KeptIn env e)
    {now : UInt64} (hfree : e.free now = true) : u.timestamp.toNat + 300 < now.toNat := by
  by_contra hle
  have htime := h.time
  have hlive : e.free now = false :=
    (PowNonceEntry.free_eq_false_iff h.bound).mpr ⟨h.used, by omega⟩
  rw [hfree] at hlive
  cases hlive

/-- Every accepted solution is in the cache, or too old for a clock that was read since. -/
def Remembered (env : PowEnv) (past : List PowVerification) (s : PowState) : Prop :=
  ∀ u ∈ s.accepted, (∃ w ∈ past, u.timestamp.toNat + 300 < w.cacheNow.toNat) ∨
    ∃ p < 8, u.KeptIn env (s.cache (u.idx env p))

variable {past : List PowVerification} {s : PowState} {v : PowVerification}

variable (h : Remembered env past s)
include h

/-- A slot that is taken was free, so what it held is too old by then. -/
theorem Remembered.update {p : ℕ} (hp : p < 8) (hfree : v.FreeAt env s.cache p)
    (hkept : v.KeptIn env (v.entry env)) :
    Remembered env (v :: past)
      ⟨update s.cache (v.idx env p) (v.entry env), v :: s.accepted⟩ := by
  intro u hu
  dsimp only at hu ⊢
  rcases mem_cons.mp hu with rfl | hu
  · refine .inr ⟨p, hp, ?_⟩
    rw [update_self]
    exact hkept
  rcases h u hu with ⟨w, hw, hlate⟩ | ⟨r, hr, hold⟩
  · exact .inl ⟨w, mem_cons_of_mem v hw, hlate⟩
  by_cases hidx : u.idx env r = v.idx env p
  · refine .inl ⟨v, mem_cons_self, hold.late_of_free ?_⟩
    rw [hidx]
    exact hfree
  · refine .inr ⟨r, hr, ?_⟩
    rw [update_of_ne hidx]
    exact hold

theorem Remembered.cons (v : PowVerification) : Remembered env (v :: past) s := by
  intro u hu
  exact (h u hu).imp (fun ⟨w, hw, hlate⟩ => ⟨w, mem_cons_of_mem v hw, hlate⟩) id

/-- A verification that finds a slot keeps what was accepted. -/
theorem Remembered.step (hnow : v.now ≤ v.cacheNow) (hv : v.Orderly env s) :
    Remembered env (v :: past) (powStep env s v) := by
  rw [powStep, moorPowVerify_eq s.cache hv.enabled]
  cases hvalid : v.proofValid env with
  | false => exact h.cons v
  | true =>
    have hkept : v.KeptIn env (v.entry env) := by
      refine ⟨by simp [PowNonceEntry.same], hv.clock.1, hv.clock.2, ?_⟩
      have hfresh := (bounds_of_fresh (fresh_of_proofValid hvalid)).1
      exact hfresh.trans (Nat.add_le_add_right (UInt64.le_iff_toNat_le.mp hnow) 60)
    rcases @cached_cases env v s.cache with ⟨p, hp, hfree, -, heq⟩ | ⟨-, -, -, -, heq⟩ | ⟨hpass, -⟩
    · simpa [heq] using h.update hp hfree hkept
    · simpa [heq] using h.cons v
    · -- Every slot is used by another solution, which is ruled out.
      obtain ⟨p, hp, hfound⟩ := hv.room hvalid
      exact absurd hfound (hpass p hp)

/-- What was accepted and is still fresh is held when it comes again. -/
theorem Remembered.heldAt {u : PowVerification} (hu : u ∈ s.accepted)
    (htriple : v.triple = u.triple) (hpast : ∀ w ∈ past, w.cacheNow ≤ v.cacheNow)
    (hfresh : moorPowTimestampIsFresh v.timestamp v.cacheNow = true) :
    ∃ p < 8, v.HeldAt env s.cache p := by
  obtain ⟨hpk, hnonce, htime⟩ : v.identityPk = u.identityPk ∧ v.nonce = u.nonce ∧
      v.timestamp = u.timestamp := by simpa [triple] using htriple
  have hctx : v.ctx env = u.ctx env := by rw [ctx, ctx, saltFull, saltFull, hpk, htime]
  have hle := (bounds_of_fresh hfresh).2
  rcases h u hu with ⟨w, hw, hlate⟩ | ⟨p, hp, hkept⟩
  · have hclock := UInt64.le_iff_toNat_le.mp (hpast w hw)
    rw [htime] at hle
    omega
  have hidx : v.idx env p = u.idx env p := by rw [idx, idx, hnonce, htime, hctx]
  refine ⟨p, hp, ?_, ?_⟩
  · have hsame := hkept.same
    rw [← hidx] at hsame
    simpa [PowNonceEntry.same, entry, hnonce, htime, hctx] using hsame
  intro hfree
  rw [FreeAt, hidx] at hfree
  have hlate := hkept.late_of_free hfree
  rw [htime] at hle
  omega

omit h

end PowVerification

open PowVerification

/-- A valid proof is rejected exactly when the cache holds it and no slot before it is free. In
every run of verifications with a clock that does not go back, in which each finds a slot in this
way, a triple that was accepted is rejected as long as its timestamp is fresh. -/
theorem pow_replay_rejected (env : PowEnv) :
    (∀ (cache : NonceCache) (v : PowVerification), v.proofValid env = true →
      ((moorPowVerify env cache v).1 = false ↔
        ∃ p < 8, v.HeldAt env cache p ∧ ∀ q < p, ¬ v.FreeAt env cache q)) ∧
    ∀ (vs : List PowVerification) (v : PowVerification) (s : PowState),
      ClockMonotone (vs ++ [v]) →
      Run.run (fun s v => some (powStep env s v)) PowState.init vs = some s →
      Run.Along (fun s v => some (powStep env s v)) (fun s v => v.Orderly env s) PowState.init vs →
      v.Orderly env s →
      moorPowTimestampIsFresh v.timestamp v.cacheNow = true →
      v.triple ∈ s.accepted.map triple → (moorPowVerify env s.cache v).1 = false := by
  constructor
  · intro cache v hvalid
    have henabled : v.difficulty ≠ 0 := by
      intro hzero
      simp [proofValid, hzero] at hvalid
    rw [moorPowVerify_eq cache henabled, if_pos hvalid, ← cached_fst_iff]
    simp
  intro vs v s hclock hrun halong hv hfresh hmem
  obtain ⟨u, hu, htriple⟩ := mem_map.mp hmem
  have hpair := pairwise_append.mp
    (show (vs.flatMap (fun v => [v.now, v.cacheNow]) ++ [v.now, v.cacheNow]).Pairwise (· ≤ ·) by
      simpa [ClockMonotone] using hclock)
  have hnow : ∀ w ∈ vs, w.now ≤ w.cacheNow := by
    intro w hw
    have hsub := (pairwise_flatMap.mp hpair.1).1 w hw
    simpa using hsub
  have hpast : ∀ w ∈ vs.reverse ++ [], w.cacheNow ≤ v.cacheNow := by
    intro w hw
    refine hpair.2.2 _ ?_ _ (by simp)
    exact mem_flatMap.mpr ⟨w, by simpa using hw, by simp⟩
  -- The invariant of the run, with the clock of each verification beside the condition.
  have hinv : Remembered env (vs.reverse ++ []) s := by
    refine Run.run_invariant_past (I := Remembered env) ?_ []
      (fun u hu => absurd hu not_mem_nil)
      (halong.and_of_forall_mem hnow) hrun
    intro past s v s' hs hcond hstep
    cases hstep
    exact hs.step hcond.1 hcond.2
  obtain ⟨p, hp, hheld⟩ := hinv.heldAt hu htriple.symm hpast hfresh
  rw [moorPowVerify_eq s.cache hv.enabled]
  cases hvalid : v.proofValid env with
  | false => rfl
  | true =>
    have hseen := (cached_fst_iff s.cache).mpr ⟨p, hp, hheld, hv.unbroken hvalid p hp hheld⟩
    simp [hseen]

/-! ### Verifications on stand-ins -/

/-- Stand-ins for evaluation: every hash is zero, so every solution is one. -/
def samplePowEnv : PowEnv := ⟨Crypto.sample, fun _ _ _ => some (Field.zero 32), 0⟩

/-- A solution whose slot is the first one, verified at the given time. -/
def samplePow (timestamp now : UInt64) : PowVerification where
  identityPk := Field.zero 32
  nonce := timestamp * 2654435761 % 4096
  timestamp := timestamp
  difficulty := 16
  memlimit := 0
  now := now
  cacheNow := now

/-- The state of an authority after two solutions with one slot. -/
def samplePowState : PowState :=
  [samplePow 1000 1000, samplePow 1100 1100].foldl (powStep samplePowEnv) PowState.init

/-- The second solution is rejected when it comes again while the first one is in its slot. -/
theorem pow_replay_rejected_sample :
    (moorPowVerify samplePowEnv samplePowState.cache (samplePow 1100 1200)).1 = false ∧
    ∃ p < 8, (samplePow 1100 1200).HeldAt samplePowEnv samplePowState.cache p ∧
      ∀ q < p, ¬ (samplePow 1100 1200).FreeAt samplePowEnv samplePowState.cache q := by
  have hrejected : (moorPowVerify samplePowEnv samplePowState.cache (samplePow 1100 1200)).1
      = false :=
    (pow_replay_rejected samplePowEnv).2 [samplePow 1000 1000, samplePow 1100 1100]
      (samplePow 1100 1200) samplePowState (by decide +kernel) (Run.run_some _ _ _)
      (by decide +kernel) (by decide +kernel) (by decide +kernel) (by decide +kernel)
  exact ⟨hrejected, ((pow_replay_rejected samplePowEnv).1 samplePowState.cache
    (samplePow 1100 1200) (by decide +kernel)).mp hrejected⟩

/-- Once the first solution has expired, the second one, stored behind it, is accepted again. -/
theorem pow_replay_accepted :
    ClockMonotone [samplePow 1000 1000, samplePow 1100 1100, samplePow 1100 1361] ∧
    Run.run (fun s v => some (powStep samplePowEnv s v)) PowState.init
      [samplePow 1000 1000, samplePow 1100 1100] = some samplePowState ∧
    moorPowTimestampIsFresh 1100 1361 = true ∧
    (samplePow 1100 1361).triple ∈ samplePowState.accepted.map triple ∧
    (moorPowVerify samplePowEnv samplePowState.cache (samplePow 1100 1361)).1 = true :=
  ⟨by decide +kernel, Run.run_some _ _ _, by decide +kernel, by decide +kernel, by decide +kernel⟩

end Moor
