import Moor.Node.Select
import Moor.Lib.Probe

/-!
# Families of relays

A relay lists the identity keys of its siblings. When it builds a consensus, an authority looks for
relays that list each other and gives them an identifier of their family, the hash of the two keys.
A relay keeps the first identifier it gets, so that what is found in a table depends on the order
of its relays and of their lists.

Keys are looked up in a hash table of 4096 slots, which is smaller than a full relay table.

## Main results

* `familyId_daResolveFamilies`: a relay has the identifier of the first declaration that names it.
* `families_resolved_iff`: when relays that list each other are of one family.
-/

namespace Moor

open Codec List Option

/-- A relay in the table of an authority, with what the authority alone knows of it. -/
structure DaRelay extends NodeDescriptor where
  firstSeen : UInt64
  lastRegistered : UInt64
  probeFailures : UInt8
  deriving DecidableEq

def familyHtSize : ℕ := 4096

/-- The slot of a key, from its first eight bytes. -/
def familyHtHash (pk : Field 32) : ℕ :=
  let key := UInt64.ofNat (beDecode (pk.val.take 8).reverse)
  (((key * 11400714819323198485) >>> 32) &&& 4095).toNat

variable (relays : List DaRelay) (C : Crypto) (badexitIds : List (Field 32))

/-- The identity key of the relay at an index. -/
def identityAt (i : ℕ) : Field 32 :=
  (relays[i]?.map (·.identityPk)).getD (Field.zero 32)

/-- The hash table of the indices of the relays. -/
def familyHt (relays : List DaRelay) : List (Option ℕ) :=
  Probe.build (fun i => familyHtHash (identityAt relays i)) familyHtSize
    (range relays.length)

/-- The index of the relay with the key, by the hash table. -/
def familyHtFind (ht : List (Option ℕ)) (relays : List DaRelay) (pk : Field 32) : Option ℕ :=
  Probe.lookup ht (familyHtHash pk) fun i => identityAt relays i = pk

/-- What is hashed for two keys: the smaller one first. -/
def familyInput (a b : Field 32) : Bytes :=
  if a.val < b.val then a.val ++ b.val else b.val ++ a.val

/-- A relay without a family takes the identifier. -/
def DaRelay.assignFamily (fid : Field 32) (r : DaRelay) : DaRelay :=
  if r.familyId = Field.zero 32 then { r with familyId := fid } else r

def resolveMember (ht : List (Option ℕ)) (i : ℕ) (relays : List DaRelay) (member : Field 32) :
    List DaRelay :=
  match relays[i]?, familyHtFind ht relays member with
  | some a, some foundB =>
    if foundB = i then relays
    else match relays[foundB]? with
      | some b =>
        if a.identityPk ∈ familyList b.toNodeDescriptor then
          let fid := C.hash (familyInput a.identityPk b.identityPk)
          (relays.modify i (·.assignFamily fid)).modify foundB (·.assignFamily fid)
        else relays
      | none => relays
  | _, _ => relays

/-- The keys that the relay at index `i` lists, one after another. -/
def resolveRelay (ht : List (Option ℕ)) (relays : List DaRelay) (i : ℕ) : List DaRelay :=
  match relays[i]? with
  | some a => (familyList a.toNodeDescriptor).foldl (resolveMember C ht i) relays
  | none => relays

/-- Marks the exits that the authority is configured to call bad. -/
def flagBadexit (r : DaRelay) : DaRelay :=
  if r.identityPk ∈ badexitIds then { r with flags := r.flags ||| nodeFlagBadexit } else r

/-- Resolves the families of the relays and marks the bad exits. -/
def daResolveFamilies (relays : List DaRelay) : List DaRelay :=
  let relays := relays.map fun r => { r with familyId := Field.zero 32 }
  let ht := familyHt relays
  let relays := (range relays.length).foldl (resolveRelay C ht) relays
  relays.map (flagBadexit badexitIds)

/-! ### Identifiers apart from the table -/

/-- The table with the given identifiers. -/
def withFamilies (fids : ℕ → Field 32) : List DaRelay :=
  relays.mapIdx fun i r => { r with familyId := fids i }

/-- Two relays take an identifier, unless they have one. -/
def assignPair (i j : ℕ) (fid : Field 32) (fids : ℕ → Field 32) : ℕ → Field 32 := fun x =>
  if (x = i ∨ x = j) ∧ fids x = Field.zero 32 then fid else fids x

section WithFamilies

variable (relays : List DaRelay) (fids : ℕ → Field 32)

@[simp] theorem length_withFamilies : (withFamilies relays fids).length = relays.length := by
  simp [withFamilies]

@[simp] theorem getElem?_withFamilies (i : ℕ) :
    (withFamilies relays fids)[i]? = relays[i]?.map fun r => { r with familyId := fids i } := by
  simp [withFamilies]

@[simp] theorem identityAt_withFamilies (i : ℕ) :
    identityAt (withFamilies relays fids) i = identityAt relays i := by
  simp only [identityAt, getElem?_withFamilies, Option.map_map]
  rfl

theorem familyHt_withFamilies : familyHt (withFamilies relays fids) = familyHt relays := by
  simp [familyHt]

theorem familyHtFind_withFamilies (ht : List (Option ℕ)) (pk : Field 32) :
    familyHtFind ht (withFamilies relays fids) pk = familyHtFind ht relays pk := by
  simp [familyHtFind]

theorem clear_eq_withFamilies :
    relays.map (fun r => { r with familyId := Field.zero 32 })
      = withFamilies relays fun _ => Field.zero 32 := by
  refine ext_getElem? ?_
  simp

theorem assignFamily_familyId (r : DaRelay) (f fid : Field 32) :
    ({ r with familyId := f } : DaRelay).assignFamily fid
      = { r with familyId := if f = Field.zero 32 then fid else f } := by
  unfold DaRelay.assignFamily
  split <;> rfl

theorem modify_withFamilies (i j : ℕ) (hne : j ≠ i) (fid : Field 32) :
    ((withFamilies relays fids).modify i (·.assignFamily fid)).modify j (·.assignFamily fid)
      = withFamilies relays (assignPair i j fid fids) := by
  refine ext_getElem? ?_
  intro x
  simp only [getElem?_modify, getElem?_withFamilies, assignPair]
  rcases eq_or_ne i x with rfl | hi
  · simp [hne, Function.comp_def, assignFamily_familyId]
  · rcases eq_or_ne j x with rfl | hj
    · simp [hi, Function.comp_def, assignFamily_familyId]
    · simp [hi, hj, hi.symm, hj.symm]

end WithFamilies

/-! ### Declarations in order -/

section

variable (relays : List DaRelay)

/-- The relays at two indices list each other. -/
def Mutual (i j : ℕ) : Prop :=
  i ≠ j ∧ ∃ a b, relays[i]? = some a ∧ relays[j]? = some b ∧
    b.identityPk ∈ familyList a.toNodeDescriptor ∧ a.identityPk ∈ familyList b.toNodeDescriptor

/-- The relay that a key stands for: the first with the key among the first 4096. -/
def relayOfKey (pk : Field 32) : Option ℕ :=
  ((range relays.length).take familyHtSize).find? fun i => identityAt relays i = pk

/-- The declaration of relay `i` that lists a key, if the relay of that key lists `i` as well. -/
def declaration (i : ℕ) (member : Field 32) : Option (ℕ × ℕ) :=
  match relayOfKey relays member with
  | some j =>
    if j ≠ i ∧ identityAt relays i ∈ ((relays[j]?).map (familyList ·.toNodeDescriptor)).getD [] then
      some (i, j)
    else none
  | none => none

/-- The declarations that are met, in order: by relay, and by the order of its list. -/
def declarations : List (ℕ × ℕ) :=
  (range relays.length).flatMap fun i =>
    (((relays[i]?).map (familyList ·.toNodeDescriptor)).getD []).filterMap (declaration relays i)

/-- What is hashed for a declaration. -/
def declarationInput (d : ℕ × ℕ) : Bytes :=
  familyInput (identityAt relays d.1) (identityAt relays d.2)

/-- One declaration gives its two relays an identifier. -/
def declare (C : Crypto) (fids : ℕ → Field 32) (d : ℕ × ℕ) : ℕ → Field 32 :=
  assignPair d.1 d.2 (C.hash (declarationInput relays d)) fids

theorem familyHtFind_familyHt (pk : Field 32) :
    familyHtFind (familyHt relays) relays pk = relayOfKey relays pk :=
  Probe.lookup_build (identityAt relays) familyHtHash familyHtSize _ pk

variable {relays} {i x : ℕ} {C : Crypto} {badexitIds : List (Field 32)} {fids : ℕ → Field 32}

theorem identityAt_of_getElem? {r : DaRelay} (h : relays[i]? = some r) :
    identityAt relays i = r.identityPk := by
  rw [identityAt, h]
  rfl

theorem relayOfKey_eq_some {pk : Field 32} {j : ℕ} (h : relayOfKey relays pk = some j) :
    j < relays.length ∧ j < familyHtSize ∧ identityAt relays j = pk := by
  have hmem := mem_of_find?_eq_some h
  rw [take_range, mem_range] at hmem
  exact ⟨by omega, by omega, by simpa using find?_some h⟩

/-- A relay that lists a key changes the identifiers as its declaration says. -/
theorem resolveMember_withFamilies (hi : i < relays.length) (member : Field 32) :
    resolveMember C (familyHt relays) i (withFamilies relays fids) member
      = withFamilies relays
          ((declaration relays i member).toList.foldl (declare relays C) fids) := by
  have ha : relays[i]? = some relays[i] := getElem?_eq_getElem hi
  unfold resolveMember declaration
  rw [familyHtFind_withFamilies, familyHtFind_familyHt]
  simp only [getElem?_withFamilies, ha, map_some]
  cases hfind : relayOfKey relays member with
  | none => rfl
  | some j =>
    obtain ⟨hj, -, hkey⟩ := relayOfKey_eq_some hfind
    have hb : relays[j]? = some relays[j] := getElem?_eq_getElem hj
    simp only [hb, map_some, getD_some, identityAt_of_getElem? ha]
    by_cases hji : j = i
    · simp [hji]
    have hlist : familyList ({ relays[j] with familyId := fids j } : DaRelay).toNodeDescriptor
        = familyList relays[j].toNodeDescriptor := rfl
    by_cases hmutual : relays[i].identityPk ∈ familyList relays[j].toNodeDescriptor
    · simp [hji, hlist, hmutual, modify_withFamilies, declare, declarationInput,
        identityAt_of_getElem? ha, identityAt_of_getElem? hb]
    · simp [hji, hlist, hmutual]

theorem foldl_resolveMember (hi : i < relays.length) (members : List (Field 32)) :
    members.foldl (resolveMember C (familyHt relays) i) (withFamilies relays fids)
      = withFamilies relays
          ((members.filterMap (declaration relays i)).foldl (declare relays C) fids) := by
  induction members generalizing fids with
  | nil => rfl
  | cons member members ih =>
    rw [foldl_cons, resolveMember_withFamilies hi, ih, filterMap_cons]
    cases declaration relays i member with
    | none => rfl
    | some d => rfl

theorem foldl_resolveRelay {is : List ℕ} (his : ∀ i ∈ is, i < relays.length) :
    is.foldl (resolveRelay C (familyHt relays)) (withFamilies relays fids)
      = withFamilies relays ((is.flatMap fun i =>
          (((relays[i]?).map (familyList ·.toNodeDescriptor)).getD []).filterMap
            (declaration relays i)).foldl (declare relays C) fids) := by
  induction is generalizing fids with
  | nil => rfl
  | cons i is ih =>
    have hi := his i mem_cons_self
    have ha : relays[i]? = some relays[i] := getElem?_eq_getElem hi
    have hstep : resolveRelay C (familyHt relays) (withFamilies relays fids) i
        = withFamilies relays (((familyList relays[i].toNodeDescriptor).filterMap
            (declaration relays i)).foldl (declare relays C) fids) := by
      rw [← foldl_resolveMember hi]
      simp only [resolveRelay, getElem?_withFamilies, ha, map_some]
      rfl
    rw [foldl_cons, hstep, ih fun j hj => his j (mem_cons_of_mem i hj),
      flatMap_cons, foldl_append, ha]
    rfl

/-- The declaration names the relay, and its identifier is not that of no family. -/
def names (relays : List DaRelay) (C : Crypto) (x : ℕ) (d : ℕ × ℕ) : Bool :=
  (d.1 = x ∨ d.2 = x) && C.hash (declarationInput relays d) ≠ Field.zero 32

def firstDeclaration (relays : List DaRelay) (C : Crypto) (x : ℕ) : Option (ℕ × ℕ) :=
  (declarations relays).find? (names relays C x)

/-- The first identifier is kept. -/
theorem foldl_declare (ds : List (ℕ × ℕ)) :
    ds.foldl (declare relays C) fids x
      = if fids x ≠ Field.zero 32 then fids x
        else ((ds.find? (names relays C x)).map fun d =>
          C.hash (declarationInput relays d)).getD (Field.zero 32) := by
  induction ds generalizing fids with
  | nil =>
    by_cases h : fids x = Field.zero 32
    · simp [h]
    · simp [h]
  | cons d ds ih =>
    rw [foldl_cons, ih, find?_cons]
    by_cases hset : fids x = Field.zero 32
    · by_cases hnamed : d.1 = x ∨ d.2 = x
      · have hnamed' : x = d.1 ∨ x = d.2 := hnamed.imp Eq.symm Eq.symm
        by_cases hzero : C.hash (declarationInput relays d) = Field.zero 32
        · simp [declare, assignPair, hset, hnamed', hzero, names]
        · simp [declare, assignPair, hset, hnamed, hnamed', hzero, names]
      · have hnamed' : ¬ (x = d.1 ∨ x = d.2) := fun h => hnamed (h.imp Eq.symm Eq.symm)
        simp [declare, assignPair, hset, hnamed, hnamed', names]
    · simp [declare, assignPair, hset]

/-- The identifier of the first declaration that names the relay. -/
def familyOf (relays : List DaRelay) (C : Crypto) (x : ℕ) : Field 32 :=
  ((firstDeclaration relays C x).map fun d => C.hash (declarationInput relays d)).getD
    (Field.zero 32)

/-- The pass gives each relay the identifier of the first declaration that names it. -/
theorem daResolveFamilies_eq :
    daResolveFamilies C badexitIds relays
      = (withFamilies relays (familyOf relays C)).map (flagBadexit badexitIds) := by
  unfold daResolveFamilies
  simp only [clear_eq_withFamilies, length_withFamilies, familyHt_withFamilies]
  rw [foldl_resolveRelay fun i hi => mem_range.mp hi, ← declarations]
  congr 2
  funext x
  rw [foldl_declare]
  simp [familyOf, firstDeclaration]

theorem getElem?_daResolveFamilies :
    (daResolveFamilies C badexitIds relays)[i]? = relays[i]?.map fun r =>
      flagBadexit badexitIds { r with familyId := familyOf relays C i } := by
  rw [daResolveFamilies_eq, getElem?_map, getElem?_withFamilies, Option.map_map]
  rfl

theorem familyId_daResolveFamilies (hx : x < relays.length) :
    (daResolveFamilies C badexitIds relays)[x]?.map (·.familyId)
      = some (familyOf relays C x) := by
  have hflag : ∀ r : DaRelay, (flagBadexit badexitIds r).familyId = r.familyId := by
    intro r
    unfold flagBadexit
    split <;> rfl
  rw [getElem?_daResolveFamilies, getElem?_eq_getElem hx]
  exact congrArg some (hflag _)

/-! ### Which declarations are met -/

theorem Mutual.symm {j : ℕ} (h : Mutual relays i j) : Mutual relays j i := by
  obtain ⟨hne, a, b, ha, hb, hab, hba⟩ := h
  exact ⟨hne.symm, b, a, hb, ha, hba, hab⟩

/-- A declaration is met if the relays list each other and the key of the second one leads to it. -/
theorem mem_declarations {j : ℕ} :
    (i, j) ∈ declarations relays ↔
      Mutual relays i j ∧ relayOfKey relays (identityAt relays j) = some j := by
  simp only [declarations, mem_flatMap, mem_range, mem_filterMap]
  constructor
  · rintro ⟨i', hi', member, hmember, hdecl⟩
    have ha : relays[i']? = some relays[i'] := getElem?_eq_getElem hi'
    unfold declaration at hdecl
    cases hfind : relayOfKey relays member with
    | none =>
      rw [hfind] at hdecl
      cases hdecl
    | some j' =>
      obtain ⟨hj', -, hkey⟩ := relayOfKey_eq_some hfind
      have hb : relays[j']? = some relays[j'] := getElem?_eq_getElem hj'
      rw [hfind] at hdecl
      simp only [hb, map_some, getD_some, ite_none_right_eq_some,
        some.injEq, Prod.mk.injEq] at hdecl
      obtain ⟨⟨hne, hlists⟩, rfl, rfl⟩ := hdecl
      rw [ha, map_some, getD_some, ← hkey, identityAt_of_getElem? hb] at hmember
      rw [identityAt_of_getElem? ha] at hlists
      refine ⟨⟨hne.symm, _, _, ha, hb, hmember, hlists⟩, ?_⟩
      rw [hkey, hfind]
  · rintro ⟨⟨hne, a, b, ha, hb, hab, hba⟩, hfind⟩
    refine ⟨i, (List.getElem?_eq_some_iff.mp ha).1, b.identityPk, ?_, ?_⟩
    · rw [ha]
      exact hab
    · rw [identityAt_of_getElem? hb] at hfind
      simp [declaration, hfind, hb, identityAt_of_getElem? ha, hba, hne.symm]

theorem familyInput_comm (a b : Field 32) : familyInput a b = familyInput b a := by
  unfold familyInput
  by_cases hab : a.val < b.val
  · rw [if_pos hab, if_neg (List.lt_asymm hab)]
  by_cases hba : b.val < a.val
  · rw [if_neg hab, if_pos hba]
  · have heq : a = b := Subtype.ext (List.le_antisymm (List.not_lt.mp hba) (List.not_lt.mp hab))
    rw [heq]

/-- What is hashed determines the two keys, up to their order. -/
theorem familyInput_inj {a b a' b' : Field 32} (h : familyInput a b = familyInput a' b') :
    (a = a' ∧ b = b') ∨ (a = b' ∧ b = a') := by
  have hsplit : ∀ {p q p' q' : Field 32}, p.val ++ q.val = p'.val ++ q'.val → p = p' ∧ q = q' := by
    intro p q p' q' hpq
    rw [field_append_cancel] at hpq
    exact ⟨hpq.1, Subtype.ext hpq.2⟩
  unfold familyInput at h
  split_ifs at h
  · exact .inl (hsplit h)
  · exact .inr (hsplit h)
  · exact .inr (hsplit h).symm
  · exact .inl (hsplit h).symm

/-- The first declaration that names a relay is one with a relay that it lists and that lists it. -/
theorem firstDeclaration_eq_some {d : ℕ × ℕ} (h : firstDeclaration relays C x = some d) :
    ∃ y, Mutual relays x y ∧
      declarationInput relays d = familyInput (identityAt relays x) (identityAt relays y) ∧
      C.hash (declarationInput relays d) ≠ Field.zero 32 ∧
      (relayOfKey relays (identityAt relays x) = some x ∨
        relayOfKey relays (identityAt relays y) = some y) := by
  obtain ⟨i, j⟩ := d
  obtain ⟨hmutual, hfind⟩ := mem_declarations.mp (mem_of_find?_eq_some h)
  have hnames := find?_some h
  simp only [names, Bool.and_eq_true, decide_eq_true_eq] at hnames
  obtain ⟨rfl | rfl, hzero⟩ := hnames
  · exact ⟨j, hmutual, rfl, hzero, .inr hfind⟩
  · exact ⟨i, hmutual.symm, familyInput_comm _ _, hzero, .inl hfind⟩

theorem exists_firstDeclaration {j : ℕ} (hmem : (i, j) ∈ declarations relays)
    (hzero : C.hash (declarationInput relays (i, j)) ≠ Field.zero 32) (hx : i = x ∨ j = x) :
    ∃ d, firstDeclaration relays C x = some d := by
  refine isSome_iff_exists.mp (find?_isSome.mpr ⟨(i, j), hmem, ?_⟩)
  simp [names, hx, hzero]

end

/-! ### One family -/

/-- The relays at two indices are of one family. -/
def SameFamilyAt (relays : List DaRelay) (i j : ℕ) : Prop :=
  ∃ a b, relays[i]? = some a ∧ relays[j]? = some b ∧
    moorNodeSameFamily a.toNodeDescriptor b.toNodeDescriptor = true

/-- What can be hashed for two relays of the table. -/
def familyInputs (relays : List DaRelay) : List Bytes :=
  relays.flatMap fun a => relays.map fun b => familyInput a.identityPk b.identityPk

section SameFamily

variable {C : Crypto} {relays : List DaRelay} {badexitIds : List (Field 32)}

theorem Mutual.lt {i j : ℕ} (h : Mutual relays i j) : i < relays.length := by
  obtain ⟨-, a, -, ha, -⟩ := h
  exact (List.getElem?_eq_some_iff.mp ha).1

theorem familyInput_mem_familyInputs {i j : ℕ} (hi : i < relays.length) (hj : j < relays.length) :
    familyInput (identityAt relays i) (identityAt relays j) ∈ familyInputs relays := by
  rw [identityAt_of_getElem? (getElem?_eq_getElem hi),
    identityAt_of_getElem? (getElem?_eq_getElem hj)]
  exact mem_flatMap.mpr ⟨relays[i], getElem_mem hi, mem_map.mpr ⟨relays[j], getElem_mem hj, rfl⟩⟩

variable {x : ℕ}

/-- The input of a first declaration is one of two relays of the table. -/
theorem declarationInput_mem_familyInputs {d : ℕ × ℕ} (h : firstDeclaration relays C x = some d) :
    declarationInput relays d ∈ familyInputs relays := by
  obtain ⟨y, hmutual, hinput, -⟩ := firstDeclaration_eq_some h
  rw [hinput]
  exact familyInput_mem_familyInputs hmutual.lt hmutual.symm.lt

theorem sameFamilyAt_iff {i j : ℕ} :
    SameFamilyAt relays i j ↔ ∃ f, f ≠ Field.zero 32 ∧ relays[i]?.map (·.familyId) = some f ∧
      relays[j]?.map (·.familyId) = some f := by
  simp only [SameFamilyAt, map_eq_some_iff, moorNodeSameFamily, Bool.and_eq_true,
    decide_eq_true_eq, beq_iff_eq]
  constructor
  · rintro ⟨a, b, ha, hb, ⟨hzero, -⟩, heq⟩
    exact ⟨_, hzero, ⟨a, ha, rfl⟩, b, hb, heq.symm⟩
  · rintro ⟨f, hzero, ⟨a, ha, rfl⟩, b, hb, heq⟩
    exact ⟨a, b, ha, hb, ⟨hzero, heq ▸ hzero⟩, heq.symm⟩

theorem familyOf_eq_iff {f : Field 32} (hf : f ≠ Field.zero 32) :
    familyOf relays C x = f ↔
      ∃ d, firstDeclaration relays C x = some d ∧ C.hash (declarationInput relays d) = f := by
  unfold familyOf
  cases firstDeclaration relays C x with
  | none => simp [hf.symm]
  | some d => simp

/-- Two relays are of one family if and only if their first declarations have the same
identifier. -/
theorem sameFamilyAt_daResolveFamilies {i j : ℕ} (hi : i < relays.length) (hj : j < relays.length) :
    SameFamilyAt (daResolveFamilies C badexitIds relays) i j ↔
      ∃ d e, firstDeclaration relays C i = some d ∧ firstDeclaration relays C j = some e ∧
        C.hash (declarationInput relays d) = C.hash (declarationInput relays e) := by
  rw [sameFamilyAt_iff, familyId_daResolveFamilies hi, familyId_daResolveFamilies hj]
  simp only [some.injEq]
  constructor
  · rintro ⟨f, hf, hfi, hfj⟩
    obtain ⟨d, hd, hdf⟩ := (familyOf_eq_iff hf).mp hfi
    obtain ⟨e, he, hef⟩ := (familyOf_eq_iff hf).mp hfj
    exact ⟨d, e, hd, he, hdf.trans hef.symm⟩
  · rintro ⟨d, e, hd, he, hde⟩
    obtain ⟨-, -, -, hzero, -⟩ := firstDeclaration_eq_some hd
    exact ⟨_, hzero, (familyOf_eq_iff hzero).mpr ⟨d, hd, rfl⟩,
      (familyOf_eq_iff hzero).mpr ⟨e, he, hde.symm⟩⟩

/-- Relays that list each other have first declarations between the same two keys. -/
def FirstDeclarationsAgree (relays : List DaRelay) (C : Crypto) : Prop :=
  ∀ i j, Mutual relays i j → ∃ d e,
    firstDeclaration relays C i = some d ∧ firstDeclaration relays C j = some e ∧
      declarationInput relays d = declarationInput relays e

/-- No relay is in mutual declarations with two others, of the relays of a mutual declaration one
is among the first 4096, and their identifier is not that of no family. -/
def Paired (relays : List DaRelay) (C : Crypto) : Prop :=
  ∀ i j, Mutual relays i j → (∀ k, Mutual relays i k → k = j) ∧
    (i < familyHtSize ∨ j < familyHtSize) ∧
    C.hash (familyInput (identityAt relays i) (identityAt relays j)) ≠ Field.zero 32

theorem length_daResolveFamilies :
    (daResolveFamilies C badexitIds relays).length = relays.length := by
  simp [daResolveFamilies_eq]

theorem SameFamilyAt.lt {i j : ℕ} (h : SameFamilyAt relays i j) :
    i < relays.length ∧ j < relays.length := by
  obtain ⟨a, b, ha, hb, -⟩ := h
  exact ⟨(List.getElem?_eq_some_iff.mp ha).1, (List.getElem?_eq_some_iff.mp hb).1⟩

/-- A relay lists the relays with the key of one that it lists, if they list its key. -/
theorem Mutual.of_identityAt_eq {i j k l : ℕ} (hij : Mutual relays i j) (hkl : Mutual relays k l)
    (hne : i ≠ k) (hjk : identityAt relays j = identityAt relays k)
    (hil : identityAt relays i = identityAt relays l) : Mutual relays i k := by
  obtain ⟨-, a, b, ha, hb, hab, -⟩ := hij
  obtain ⟨-, c, d, hc, hd, hcd, -⟩ := hkl
  rw [identityAt_of_getElem? hb, identityAt_of_getElem? hc] at hjk
  rw [identityAt_of_getElem? ha, identityAt_of_getElem? hd] at hil
  exact ⟨hne, a, c, ha, hc, hjk ▸ hab, hil ▸ hcd⟩

/-- Without collisions, relays of one family list each other or have a sibling in common. -/
theorem reflTransGen_of_sameFamilyAt (hinj : HashInjOn C (familyInputs relays)) {i j : ℕ}
    (h : SameFamilyAt (daResolveFamilies C badexitIds relays) i j) :
    Relation.ReflTransGen (Mutual relays) i j := by
  have hlt := h.lt
  rw [length_daResolveFamilies] at hlt
  obtain ⟨d, e, hd, he, hhash⟩ := (sameFamilyAt_daResolveFamilies hlt.1 hlt.2).mp h
  have hinput := hinj _ (declarationInput_mem_familyInputs hd) _
    (declarationInput_mem_familyInputs he) hhash
  obtain ⟨x, hx, hdx, -⟩ := firstDeclaration_eq_some hd
  obtain ⟨y, hy, hey, -⟩ := firstDeclaration_eq_some he
  rw [hdx, hey] at hinput
  rcases eq_or_ne i j with rfl | hne
  · exact .refl
  rcases familyInput_inj hinput with ⟨hij, hxy⟩ | ⟨hiy, hxj⟩
  · -- Two records of one identity: the second one lists the sibling of the first as well.
    rcases eq_or_ne j x with rfl | hjx
    · exact .single hx
    · have hjx' := hy.of_identityAt_eq hx.symm hjx hxy.symm hij.symm
      exact (Relation.ReflTransGen.single hx).tail hjx'.symm
  · exact .single (hx.of_identityAt_eq hy hne hxj hiy)

/-! ### Tables without duplicates -/

variable (hnodup : (relays.map (·.identityPk)).Nodup)
include hnodup

theorem identityAt_inj {i j : ℕ} (hi : i < relays.length) (hj : j < relays.length)
    (h : identityAt relays i = identityAt relays j) : i = j := by
  rw [identityAt_of_getElem? (getElem?_eq_getElem hi),
    identityAt_of_getElem? (getElem?_eq_getElem hj)] at h
  refine (@Nodup.getElem_inj_iff _ _ hnodup i (by simpa using hi) j (by simpa using hj)).mp ?_
  simpa using h

theorem relayOfKey_identityAt (hx : x < relays.length) (hsize : x < familyHtSize) :
    relayOfKey relays (identityAt relays x) = some x := by
  have hsome : (relayOfKey relays (identityAt relays x)).isSome := by
    refine find?_isSome.mpr ⟨x, ?_, by simp⟩
    rw [take_range, mem_range]
    omega
  obtain ⟨y, hy⟩ := isSome_iff_exists.mp hsome
  obtain ⟨hlt, -, hkey⟩ := relayOfKey_eq_some hy
  rw [hy, identityAt_inj hnodup hlt hx hkey]

/-- If first declarations agree, that of a relay is with any sibling it has. -/
theorem FirstDeclarationsAgree.sibling (h : FirstDeclarationsAgree relays C) {i j : ℕ}
    (hij : Mutual relays i j) :
    ∃ d, firstDeclaration relays C i = some d ∧
      declarationInput relays d = familyInput (identityAt relays i) (identityAt relays j) ∧
      (i < familyHtSize ∨ j < familyHtSize) := by
  obtain ⟨d, e, hd, he, hinput⟩ := h i j hij
  obtain ⟨x, hx, hdx, -, hfind⟩ := firstDeclaration_eq_some hd
  obtain ⟨y, -, hey, -⟩ := firstDeclaration_eq_some he
  have hxj : identityAt relays x = identityAt relays j := by
    rw [hdx, hey] at hinput
    rcases familyInput_inj hinput with ⟨heq, -⟩ | ⟨-, heq⟩
    · exact absurd (identityAt_inj hnodup hij.lt hij.symm.lt heq) hij.1
    · exact heq
  have hx' : x = j := identityAt_inj hnodup hx.symm.lt hij.symm.lt hxj
  rw [hx'] at hdx hfind
  exact ⟨d, hd, hdx, hfind.imp (fun hi => (relayOfKey_eq_some hi).2.1)
    fun hj => (relayOfKey_eq_some hj).2.1⟩

/-- Among relays with distinct keys, first declarations agree exactly if relays come in pairs. -/
theorem firstDeclarationsAgree_iff_paired :
    FirstDeclarationsAgree relays C ↔ Paired relays C := by
  constructor
  · intro h i j hij
    obtain ⟨d, hd, hdj, hsize⟩ := h.sibling hnodup hij
    refine ⟨?_, hsize, ?_⟩
    · intro k hik
      obtain ⟨e, he, hek, -⟩ := h.sibling hnodup hik
      rw [hd, some.injEq] at he
      rw [← he, hdj] at hek
      rcases familyInput_inj hek with ⟨-, heq⟩ | ⟨hi, hj⟩
      · exact (identityAt_inj hnodup hij.symm.lt hik.symm.lt heq).symm
      · exact absurd (identityAt_inj hnodup hij.lt hij.symm.lt hj.symm) hij.1
    · obtain ⟨-, -, -, hzero, -⟩ := firstDeclaration_eq_some hd
      rwa [hdj] at hzero
  intro h i j hij
  obtain ⟨hunique, hsize, hzero⟩ := h i j hij
  obtain ⟨hunique', -, -⟩ := h j i hij.symm
  -- The declaration is met at one of the two relays.
  have hmet : ∀ x, x = i ∨ x = j → ∃ d, firstDeclaration relays C x = some d := by
    intro x hx
    rcases hsize with hi | hj
    · refine exists_firstDeclaration (mem_declarations.mpr
        ⟨hij.symm, relayOfKey_identityAt hnodup hij.lt hi⟩) ?_ (hx.symm.imp Eq.symm Eq.symm)
      rwa [declarationInput, familyInput_comm]
    · exact exists_firstDeclaration (mem_declarations.mpr
        ⟨hij, relayOfKey_identityAt hnodup hij.symm.lt hj⟩) hzero (hx.imp Eq.symm Eq.symm)
  obtain ⟨d, hd⟩ := hmet i (.inl rfl)
  obtain ⟨e, he⟩ := hmet j (.inr rfl)
  obtain ⟨x, hx, hdx, -⟩ := firstDeclaration_eq_some hd
  obtain ⟨y, hy, hey, -⟩ := firstDeclaration_eq_some he
  refine ⟨d, e, hd, he, ?_⟩
  rw [hdx, hey, hunique x hx, hunique' y hy, familyInput_comm]

omit hnodup

/-- Families are symmetric: relays that list each other are of one family, and relays of one family
are connected by mutual declarations. -/
structure FamiliesSymmetric (relays resolved : List DaRelay) : Prop where
  sibling : ∀ i j, Mutual relays i j → SameFamilyAt resolved i j
  chain : ∀ i j, SameFamilyAt resolved i j → Relation.ReflTransGen (Mutual relays) i j

/-- For every relay table on whose keys the hash does not collide, families are symmetric if and
only if relays that list each other have first declarations between the same two keys. In a table
without duplicate keys that means that no relay is in mutual declarations with two others, that of
the relays of a mutual declaration one is among the first 4096, and that the hash is not zero. -/
theorem families_resolved_iff (C : Crypto) (badexitIds : List (Field 32)) (relays : List DaRelay)
    (hinj : HashInjOn C (familyInputs relays)) :
    (FamiliesSymmetric relays (daResolveFamilies C badexitIds relays) ↔
      FirstDeclarationsAgree relays C) ∧
    ((relays.map (·.identityPk)).Nodup → (FirstDeclarationsAgree relays C ↔ Paired relays C)) := by
  refine ⟨⟨?_, ?_⟩, firstDeclarationsAgree_iff_paired⟩
  · intro h i j hij
    obtain ⟨d, e, hd, he, hhash⟩ :=
      (sameFamilyAt_daResolveFamilies hij.lt hij.symm.lt).mp (h.sibling i j hij)
    exact ⟨d, e, hd, he, hinj _ (declarationInput_mem_familyInputs hd) _
      (declarationInput_mem_familyInputs he) hhash⟩
  · intro h
    refine ⟨?_, fun i j => reflTransGen_of_sameFamilyAt hinj⟩
    intro i j hij
    obtain ⟨d, e, hd, he, hinput⟩ := h i j hij
    exact (sameFamilyAt_daResolveFamilies hij.lt hij.symm.lt).mpr
      ⟨d, e, hd, he, by rw [hinput]⟩

end SameFamily

/-- A relay whose identity key repeats one byte and that lists such keys. -/
def sampleDaRelay (b : UInt8) (siblings : List UInt8) : DaRelay where
  toNodeDescriptor := { NodeDescriptor.zero with
    identityPk := Arr.replicate 32 b
    numFamilyMembers := UInt8.ofNat siblings.length
    familyMembers := Arr.ofList 8 (Field.zero 32) (siblings.map (Arr.replicate 32)) }
  firstSeen := 0
  lastRegistered := 0
  probeFailures := 0

/-- The stand-ins with a hash that keeps a byte of each of two keys. -/
def samplePairHash : Crypto :=
  { Crypto.sample with hash := fun bs => Arr.ofList 32 0 [1, bs.getD 0 0, bs.getD 32 0] }

/-- Two relays that list each other. -/
theorem families_resolved_iff_pair :
    SameFamilyAt (daResolveFamilies samplePairHash []
      [sampleDaRelay 1 [2], sampleDaRelay 2 [1]]) 0 1 := by
  obtain ⟨hiff, -⟩ := families_resolved_iff samplePairHash []
    [sampleDaRelay 1 [2], sampleDaRelay 2 [1]] (by decide +kernel)
  have hfirst : ∀ x < 2, firstDeclaration [sampleDaRelay 1 [2], sampleDaRelay 2 [1]]
      samplePairHash x = some (0, 1) := by decide +kernel
  have hagree : FirstDeclarationsAgree [sampleDaRelay 1 [2], sampleDaRelay 2 [1]]
      samplePairHash := by
    intro i j hij
    exact ⟨(0, 1), (0, 1), hfirst i hij.lt, hfirst j hij.symm.lt, rfl⟩
  exact (hiff.mpr hagree).sibling 0 1
    ⟨by decide, _, _, rfl, rfl, by decide +kernel, by decide +kernel⟩

/-- Three relays, of which the second is a sibling of the first and of the third: the second has
the family of the first, and the third is left with another one. -/
theorem families_break_on_chain :
    ¬ FamiliesSymmetric [sampleDaRelay 1 [2], sampleDaRelay 2 [1, 3], sampleDaRelay 3 [2]]
      (daResolveFamilies samplePairHash []
        [sampleDaRelay 1 [2], sampleDaRelay 2 [1, 3], sampleDaRelay 3 [2]]) := by
  intro h
  obtain ⟨f, -, h₁, h₂⟩ := sameFamilyAt_iff.mp (h.sibling 1 2
    ⟨by decide, _, _, rfl, rfl, by decide +kernel, by decide +kernel⟩)
  exact absurd (h₁.trans h₂.symm) (by decide +kernel)

end Moor
