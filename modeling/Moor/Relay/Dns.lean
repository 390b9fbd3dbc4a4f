import Mathlib.Data.List.DropRight
import Moor.Inet

/-!
# Names and their addresses at the exit

An exit resolves names through encrypted queries to a few providers, reads the first A record of
an answer, and keeps it as a text in a cache of 512 slots that are chained by the hash of the
name. Whatever the providers answer, what comes out is the text of an IPv4 address, and the cache
holds no other text that it would return.
-/

open Codec List Option

namespace Moor

def moorDnsCacheSize : ℕ := 512
def moorDnsHashBuckets : ℕ := 1024
def moorDnsTtlDefault : ℕ := 300
def dnscryptNumProviders : ℕ := 3

/-! ### Queries and answers -/

variable (id : UInt16) (resp : Bytes)

/-- The query for the A records of a name. The labels of a name of at most 253 bytes always fit
the buffer of 512. -/
def buildDnsQuery (hostname : Bytes) : Option Bytes :=
  let labels := (hostname.splitOn 46).filter (· ≠ [])
  if 253 < hostname.length ∨ labels.any (fun label => decide (63 < label.length)) then none
  else
    some (be16 id ++ [1, 0, 0, 1, 0, 0, 0, 0, 0, 0] ++
      labels.flatMap (fun label => UInt8.ofNat label.length :: label) ++ [0, 0, 1, 0, 1])

/-- A number of two bytes at an offset. -/
def read16 (off : ℕ) : ℕ :=
  (resp.getD off 0).toNat * 256 + (resp.getD (off + 1) 0).toNat

/-- The first two bits of a byte mark a pointer to a name. -/
def isPointer (off : ℕ) : Bool := resp.getD off 0 &&& 0xC0 = 0xC0

/-- Steps over the labels of a name to the byte that ends it, or past the first pointer when
pointers are looked for. -/
def skipLabels (pointers : Bool) (resp : Bytes) (off : ℕ) : ℕ :=
  if h : off < resp.length ∧ resp.getD off 0 ≠ 0 then
    if pointers ∧ isPointer resp off then off + 2
    else skipLabels pointers resp (off + (1 + (resp.getD off 0).toNat))
  else off
termination_by resp.length - off

/-- Steps over the name of an answer. -/
def skipAnswerName (off : ℕ) : ℕ :=
  if isPointer resp off then off + 2 else skipLabels false resp off + 1

/-- The first A record among the answers that are left. -/
def parseAnswers (resp : Bytes) : ℕ → ℕ → Option Bytes
  | 0, _ => none
  | count + 1, off =>
    if resp.length < off + 12 then none
    else
      let off := skipAnswerName resp off
      if resp.length < off + 10 then none
      else
        let rtype := read16 resp off
        let rdlen := read16 resp (off + 8)
        let off := off + 10
        if rtype = 1 ∧ rdlen = 4 ∧ off + 4 ≤ resp.length then
          some (dottedQuad (resp.getD off 0) (resp.getD (off + 1) 0) (resp.getD (off + 2) 0)
            (resp.getD (off + 3) 0))
        else parseAnswers resp count (off + rdlen)

def parseDnsARecord (resp : Bytes) : Option Bytes :=
  if resp.length < 12 then none
  else
    let ancount := read16 resp 6
    let off := skipLabels true resp 12
    let off := if off < resp.length ∧ resp.getD off 0 = 0 then off + 1 else off
    parseAnswers resp ancount (off + 4)

/-- The providers are asked one after another, for what each of them answers, until an answer has
an A record. -/
def resolveDnsEncrypted (responses : List (Option Bytes)) (hostname : Bytes) : Option Bytes :=
  match buildDnsQuery id hostname with
  | none => none
  | some _ =>
    (responses.take dnscryptNumProviders).findSome? fun response =>
      response.bind fun resp => parseDnsARecord (resp.take 1024)

theorem dottedQuad_of_parseAnswers {resp text : Bytes} {count off : ℕ}
    (h : parseAnswers resp count off = some text) : ∃ a b c d, text = dottedQuad a b c d := by
  induction count generalizing off with
  | zero => cases h
  | succ count ih =>
    simp only [parseAnswers, ite_none_left_eq_some] at h
    obtain ⟨_, _, h⟩ := h
    split at h
    · exact ⟨_, _, _, _, (some.inj h).symm⟩
    · exact ih h

theorem dottedQuad_of_resolve {id : UInt16} {responses : List (Option Bytes)}
    {hostname text : Bytes} (h : resolveDnsEncrypted id responses hostname = some text) :
    ∃ a b c d, text = dottedQuad a b c d := by
  rw [resolveDnsEncrypted] at h
  cases hquery : buildDnsQuery id hostname with
  | none =>
    rw [hquery] at h
    cases h
  | some query =>
    rw [hquery] at h
    obtain ⟨response, _, hresponse⟩ := exists_of_findSome?_eq_some h
    obtain ⟨resp, _, hparse⟩ := bind_eq_some_iff.mp hresponse
    rw [parseDnsARecord, ite_none_left_eq_some] at hparse
    exact dottedQuad_of_parseAnswers hparse.2

/-! ### The cache -/

/-- A slot of the cache; a free one has no host name. -/
structure DnsEntry where
  hostname : Bytes
  resolvedIp : Bytes
  expiresAt : ℕ
  lastUsed : ℕ
  hashNext : Option ℕ

/-- A slot of zero bytes that ends its chain. -/
def DnsEntry.free : DnsEntry := ⟨[], [], 0, 0, none⟩

structure DnsCache where
  entries : List DnsEntry
  count : ℕ
  hashBuckets : List (Option ℕ)

/-- A name in lower case without the dots at its end. -/
def normalizeHostname (hostname : Bytes) : Bytes :=
  ((hostname.take 255).map Text.tolower).rdropWhile (· = 46)

def dnsHash (hostname : Bytes) : ℕ :=
  (hostname.foldl (fun (h : UInt32) c => ((h <<< 5) + h) ^^^ c.toUInt32) 5381).toNat
    % moorDnsHashBuckets

namespace DnsCache

def init : DnsCache :=
  ⟨List.replicate moorDnsCacheSize DnsEntry.free, 0, List.replicate moorDnsHashBuckets none⟩

variable (I : Inet) (cache : DnsCache)

/-- The first slot of a bucket's chain. -/
def head (bucket : ℕ) : Option ℕ := (cache.hashBuckets[bucket]?).join

/-- The first slot along a chain that passes a test. A chain has no more slots than there are. -/
def walk (entries : List DnsEntry) (test : ℕ → DnsEntry → Bool) : ℕ → Option ℕ → Option ℕ
  | 0, _ => none
  | _, none => none
  | fuel + 1, some idx =>
    match entries[idx]? with
    | none => none
    | some e => if test idx e then some idx else walk entries test fuel e.hashNext

/-- The slot of a name, along the chain of its bucket. -/
def findSlot (norm : Bytes) : Option ℕ :=
  walk cache.entries (fun _ e => e.hostname = norm) moorDnsCacheSize (cache.head (dnsHash norm))

def setNext (idx : ℕ) (next : Option ℕ) (entries : List DnsEntry) : List DnsEntry :=
  entries.modify idx fun e => { e with hashNext := next }

/-- Takes a slot out of the chain of its name. -/
def hashRemove (idx : ℕ) : DnsCache :=
  match cache.entries[idx]? with
  | none => cache
  | some e =>
    if e.hostname = [] then cache
    else
      let bucket := dnsHash e.hostname
      if cache.head bucket = some idx then
        { cache with
          hashBuckets := cache.hashBuckets.set bucket e.hashNext
          entries := setNext idx none cache.entries }
      else
        match walk cache.entries (fun _ e => e.hashNext = some idx) moorDnsCacheSize
            (cache.head bucket) with
        | none => cache
        | some before =>
          { cache with entries := setNext idx none (setNext before e.hashNext cache.entries) }

/-- Puts a slot at the start of the chain of its name. -/
def hashInsert (idx : ℕ) : DnsCache :=
  match cache.entries[idx]? with
  | none => cache
  | some e =>
    let bucket := dnsHash e.hostname
    { cache with
      entries := setNext idx (cache.head bucket) cache.entries
      hashBuckets := cache.hashBuckets.set bucket (some idx) }

/-- Looks a name up; an entry that is too old is cleared. -/
def lookup (now : ℕ) (hostname : Bytes) : DnsCache × Option Bytes :=
  match cache.findSlot (normalizeHostname hostname) with
  | none => (cache, none)
  | some idx =>
    match cache.entries[idx]? with
    | none => (cache, none)
    | some e =>
      if e.expiresAt ≤ now then
        let cache := cache.hashRemove idx
        ({ cache with entries := cache.entries.set idx .free, count := cache.count - 1 }, none)
      else
        ({ cache with entries := cache.entries.set idx { e with lastUsed := now } },
          some (e.resolvedIp.take 63))

/-- The slot that was used the longest time ago. -/
def lruIdx (entries : List DnsEntry) : ℕ :=
  (List.range entries.length).foldl (fun best i =>
    if (entries.getD i .free).lastUsed < (entries.getD best .free).lastUsed then i else best) 0

/-- The slot with a name and its address written into it. -/
def fill (norm ip : Bytes) (expires now : ℕ) (e : DnsEntry) : DnsEntry :=
  { e with hostname := norm, resolvedIp := ip.take 63, expiresAt := expires, lastUsed := now }

/-- Stores the address of a name: in the slot of the name, in a free one, or in the one that was
used the longest time ago. What is not the text of an address is not stored. -/
def insert (now : ℕ) (hostname ip : Bytes) (ttl : ℕ) : DnsCache :=
  let ttl := if 3600 < ttl then 3600 else if ttl = 0 then 60 else ttl
  if I.inetPton4 ip = none ∧ I.inetPton6 ip = none then cache
  else
    let norm := normalizeHostname hostname
    let expires := now + ttl
    match cache.findSlot norm with
    | some idx =>
      { cache with entries := cache.entries.modify idx fun e =>
          { e with resolvedIp := ip.take 63, expiresAt := expires, lastUsed := now } }
    | none =>
      match if cache.count < moorDnsCacheSize then
          cache.entries.findIdx? fun e => e.hostname = [] else none with
      | some idx =>
        let cache := hashInsert
          { cache with entries := cache.entries.modify idx (fill norm ip expires now) } idx
        { cache with count := cache.count + 1 }
      | none =>
        let idx := lruIdx cache.entries
        let cache := cache.hashRemove idx
        hashInsert { cache with entries := cache.entries.modify idx (fill norm ip expires now) } idx

/-! ### What the cache returns -/

/-- An entry that can be returned is the text of an IPv4 address: only such texts are resolved. -/
def NumericEntry (e : DnsEntry) : Prop :=
  e.expiresAt = 0 ∨ ∃ ip, I.inetPton4 e.resolvedIp = some ip

/-- All entries that can be returned are texts of IPv4 addresses. -/
def Numeric (cache : DnsCache) : Prop := ∀ e ∈ cache.entries, NumericEntry I e

variable {I : Inet}

variable {entries : List DnsEntry} {cache : DnsCache} {text : Bytes}

variable (h : ∀ e ∈ entries, NumericEntry I e)
include h

theorem Numeric.modify (idx : ℕ) {f : DnsEntry → DnsEntry}
    (hf : ∀ e, NumericEntry I e → NumericEntry I (f e)) :
    ∀ e ∈ entries.modify idx f, NumericEntry I e := by
  intro e he
  obtain ⟨i, hi⟩ := mem_iff_getElem?.mp he
  rw [getElem?_modify, Option.map_eq_map, map_eq_some_iff] at hi
  obtain ⟨e', he', rfl⟩ := hi
  have hnum := h e' (mem_of_getElem? he')
  split_ifs with hidx
  · exact hf e' hnum
  · exact hnum

theorem Numeric.set (idx : ℕ) {e' : DnsEntry} (he' : NumericEntry I e') :
    ∀ e ∈ entries.set idx e', NumericEntry I e := by
  intro e he
  rcases mem_or_eq_of_mem_set he with he | rfl
  · exact h e he
  · exact he'

theorem Numeric.setNext (idx : ℕ) (next : Option ℕ) :
    ∀ e ∈ DnsCache.setNext idx next entries, NumericEntry I e :=
  Numeric.modify h idx fun _ he => he

omit h

theorem numeric_init : Numeric I init := by
  intro e he
  rw [eq_of_mem_replicate he]
  exact .inl rfl

theorem Numeric.hashRemove (h : Numeric I cache) (idx : ℕ) : Numeric I (cache.hashRemove idx) := by
  simp only [DnsCache.hashRemove]
  split
  · exact h
  split_ifs
  · exact h
  · exact Numeric.setNext h idx none
  · split
    · exact h
    · exact Numeric.setNext (Numeric.setNext h _ _) idx none

theorem Numeric.hashInsert (h : Numeric I cache) (idx : ℕ) : Numeric I (cache.hashInsert idx) := by
  rw [DnsCache.hashInsert]
  split
  · exact h
  · exact Numeric.setNext h idx _

theorem take_of_pton4 {ip : Ipv4} (h : I.inetPton4 text = some ip) : text.take 63 = text :=
  take_of_length_le (Nat.le_trans (I.length_pton4 h) (by decide))

/-- A look-up keeps the cache numeric. -/
theorem Numeric.lookup (h : Numeric I cache) (now : ℕ) (hostname : Bytes) :
    Numeric I (cache.lookup now hostname).1 := by
  rw [DnsCache.lookup]
  split
  · exact h
  rename_i idx _
  split
  · exact h
  rename_i e he
  split_ifs
  · exact Numeric.set (h.hashRemove idx) idx (.inl rfl)
  · exact Numeric.set h idx (h e (mem_of_getElem? he))

/-- What a look-up returns is the text of an IPv4 address. -/
theorem Numeric.pton4_of_lookup (h : Numeric I cache) {now : ℕ} {hostname : Bytes}
    (htext : (cache.lookup now hostname).2 = some text) : ∃ ip, I.inetPton4 text = some ip := by
  rw [DnsCache.lookup] at htext
  split at htext
  · cases htext
  split at htext
  · cases htext
  rename_i e he
  split_ifs at htext with hold
  rcases h e (mem_of_getElem? he) with hzero | ⟨ip, hip⟩
  · exact absurd (hzero ▸ Nat.zero_le now) hold
  · rw [take_of_pton4 hip] at htext
    exact ⟨ip, some.inj htext ▸ hip⟩

/-- Storing the text of an IPv4 address keeps the cache numeric. -/
theorem Numeric.insert (h : Numeric I cache) (now : ℕ) (hostname : Bytes) {ip : Ipv4}
    (hip : I.inetPton4 text = some ip) (ttl : ℕ) :
    Numeric I (cache.insert I now hostname text ttl) := by
  have htake : I.inetPton4 (text.take 63) = some ip := by rwa [take_of_pton4 hip]
  -- Wherever the address goes, the slot is filled and put into its chain.
  have hfill : ∀ {c : DnsCache}, Numeric I c → ∀ idx norm expires,
      Numeric I (DnsCache.hashInsert
        { c with entries := c.entries.modify idx (fill norm text expires now) } idx) := by
    intro c hc idx norm expires
    apply Numeric.hashInsert
    exact Numeric.modify hc idx fun _ _ => .inr ⟨ip, htake⟩
  simp only [DnsCache.insert]
  split
  · exact h
  split
  · exact Numeric.modify h _ fun _ _ => .inr ⟨ip, htake⟩
  · split
    · exact hfill h _ _ _
    · exact hfill (h.hashRemove _) _ _ _

end DnsCache

end Moor
