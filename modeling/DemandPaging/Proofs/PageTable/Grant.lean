import DemandPaging.PageTable.Directory
import DemandPaging.Proofs.Computation
import Mathlib.Tactic

/-!
What the changes to a page directory do to the rights it grants.

A canonical address has 36 bits that take part in a walk, so two addresses share a path exactly if
they lie in the same page. An entry is one word, and address and flags are two disjoint parts of it.
Both facts together turn every change of a directory into an update of a finite map from page
numbers to grants: the address of a frame and the rights to it. The accessed and the dirty bit are
no part of a grant; what happens to them is said on its own.
-/

namespace DemandPaging

/-! ### Entries -/

namespace PageEntry

theorem flags_setFlags (entry : PageEntry) (flags : PageFlags) :
    (entry.setFlags flags).flags = .ofBits flags.bits := by
  apply PageFlags.ext
  simp only [PageEntry.flags, setFlags, PageFlags.ofBits, flagMask]
  ext i hi
  simp only [BitVec.getElem_and, BitVec.getElem_or, BitVec.getElem_not]
  cases addressMask[i] <;> cases entry.word[i] <;> cases flags.bits[i] <;> rfl

theorem word_setFlags_and_addressMask (entry : PageEntry) (flags : PageFlags) :
    (entry.setFlags flags).word &&& addressMask = entry.word &&& addressMask := by
  simp only [setFlags, flagMask]
  ext i hi
  simp only [BitVec.getElem_and, BitVec.getElem_or, BitVec.getElem_not]
  cases addressMask[i] <;> cases entry.word[i] <;> cases flags.bits[i] <;> rfl

@[simp] theorem locate_setFlags (entry : PageEntry) (flags : PageFlags) (offset : Nat)
    (h : offset < pageSize) : (entry.setFlags flags).locate offset h = entry.locate offset h := by
  apply Address.ext
  simp only [locate, word_setFlags_and_addressMask]

end PageEntry

/-- Every flag with a meaning lies outside the address. -/
@[simp] theorem PageFlags.test_ofBits (word : BitVec 64) (flag : Flag) :
    (PageFlags.ofBits word).test flag = word.getLsbD flag.bit := by
  have hmask : flagMask.getLsbD flag.bit = true := by cases flag <;> decide
  simp only [PageFlags.test, PageFlags.ofBits, BitVec.getLsbD_and, hmask, Bool.and_true]

namespace PageEntry

theorem test_flags_setFlags (entry : PageEntry) (flags : PageFlags) (flag : Flag) :
    (entry.setFlags flags).flags.test flag = flags.test flag := by
  rw [flags_setFlags, PageFlags.test_ofBits]
  rfl

/-- The bits of a page-aligned physical address are those of the address part of a word. -/
theorem ofNat_and_addressMask {pa : PhysicalAddress} (h : pa.isPageAligned = true) :
    (BitVec.ofNat 64 pa.toNat &&& addressMask).toNat = pa.toNat := by
  have hvalid : pa.toNat < 2 ^ 52 := pa.valid
  have halign : pa.toNat % 4096 = 0 := by simpa [Address.isPageAligned] using h
  obtain ⟨k, hk⟩ : ∃ k, pa.toNat = 2 ^ 12 * k := ⟨pa.toNat / 4096, by omega⟩
  have hword : BitVec.ofNat 64 pa.toNat &&& addressMask = BitVec.ofNat 64 pa.toNat := by
    apply BitVec.eq_of_getLsbD_eq
    intro i hi
    rw [BitVec.getLsbD_and, BitVec.getLsbD_ofNat]
    by_cases hlow : i < 12
    · have hbit : pa.toNat.testBit i = false := by
        rw [hk, Nat.testBit_two_pow_mul]
        simp [hlow]
      simp [hbit]
    · by_cases hhigh : 52 ≤ i
      · have hbit : pa.toNat.testBit i = false :=
          Nat.testBit_lt_two_pow (Nat.lt_of_lt_of_le hvalid (Nat.pow_le_pow_right (by decide) hhigh))
        simp [hbit]
      · have hmask : ∀ j : Fin 64, ¬j.val < 12 → ¬52 ≤ j.val →
            addressMask.getLsbD j.val = true := by decide
        have hset : addressMask.getLsbD i = true := hmask ⟨i, hi⟩ hlow hhigh
        rw [hset, Bool.and_true]
  rw [hword, BitVec.toNat_ofNat]
  omega

theorem toNat_locate_encode {pa : PhysicalAddress} {flags : PageFlags} {entry : PageEntry}
    (h : encode pa flags = .ok entry) {offset : Nat} (hoffset : offset < pageSize) :
    (entry.locate offset hoffset).toNat = pa.toNat + offset := by
  unfold encode at h
  split at h
  · next haligned =>
    cases h
    simp only [locate]
    have hword : (BitVec.ofNat 64 pa.toNat &&& addressMask ||| flags.bits &&& flagMask) &&&
        addressMask = BitVec.ofNat 64 pa.toNat &&& addressMask := by
      simp only [flagMask]
      ext i hi
      simp only [BitVec.getElem_and, BitVec.getElem_or, BitVec.getElem_not]
      cases addressMask[i] <;> simp
    rw [hword, ofNat_and_addressMask haligned]
  · cases h

theorem test_flags_encode {pa : PhysicalAddress} {flags : PageFlags} {entry : PageEntry}
    (h : encode pa flags = .ok entry) (flag : Flag) :
    entry.flags.test flag = flags.test flag := by
  unfold encode at h
  split at h
  · cases h
    have hflags := flags_setFlags ⟨BitVec.ofNat 64 pa.toNat⟩ flags
    simp only [setFlags] at hflags
    rw [hflags, PageFlags.test_ofBits]
    rfl
  · cases h

end PageEntry

/-! ### Pages -/

theorem Address.number_eq_number_iff {kind : AddressKind} {a b : Address kind} :
    a.number = b.number ↔ a.toNat / pageSize = b.toNat / pageSize := by
  constructor
  · intro h
    exact congrArg Number.toNat h
  · intro h
    exact Number.ext h

theorem Number.start_eq_ok {kind : AddressKind} {n : Number kind} {a : Address kind}
    (h : n.start = .ok a) : a.toNat = n.toNat * pageSize := by
  simp only [Number.start, bind_eq_ok, Word.mul_eq_ok, Address.ofNat] at h
  obtain ⟨_, ⟨-, rfl⟩, h⟩ := h
  split at h
  · cases h
    rfl
  · cases h

theorem Number.start_injective {kind : AddressKind} {n n' : Number kind} {a : Address kind}
    (h : n.start = .ok a) (h' : n'.start = .ok a) : n = n' := by
  have hmul := start_eq_ok h
  have hmul' := start_eq_ok h'
  simp only [pageSize] at hmul hmul'
  exact Number.ext (by omega)

theorem Address.start_number {kind : AddressKind} (a : Address kind) :
    a.number.start = .ok a.roundDown := by
  have hround : a.toNat / pageSize * pageSize = a.toNat - a.toNat % pageSize := by
    simp only [pageSize]
    omega
  have hvalid : kind.Valid (a.toNat / pageSize * pageSize) := by
    rw [hround]
    exact a.valid.roundDown
  have hmul : Word.mul a.number.toNat pageSize = .ok (a.toNat / pageSize * pageSize) :=
    Word.mul_ok hvalid.lt_limit
  rw [Number.start, bind_eq_ok]
  refine ⟨_, hmul, ?_⟩
  rw [Address.ofNat, dif_pos hvalid]
  exact congrArg Except.ok (Address.ext hround)

/-- There is an address some bytes further up exactly if the sum is an address. -/
theorem Address.add?_eq_some_iff {kind : AddressKind} {a b : Address kind} {bytes : Nat} :
    a.add? bytes = some b ↔ b.toNat = a.toNat + bytes := by
  unfold add? Word.add?
  constructor
  · intro h
    split at h
    · rw [Option.bind_some, ofNat?] at h
      split at h
      · cases h
        rfl
      · cases h
    · cases h
  · intro h
    have hvalid : kind.Valid (a.toNat + bytes) := h ▸ b.valid
    rw [if_pos hvalid.lt_limit, Option.bind_some, ofNat?, dif_pos hvalid]
    exact congrArg some (ext h.symm)

theorem Address.toNat_add? {kind : AddressKind} {a b : Address kind} {bytes : Nat}
    (h : a.add? bytes = some b) : b.toNat = a.toNat + bytes := add?_eq_some_iff.1 h

theorem Address.roundDown_eq_self {kind : AddressKind} {a : Address kind}
    (h : a.isPageAligned = true) : a.roundDown = a := by
  simp only [Address.isPageAligned, beq_iff_eq] at h
  exact Address.ext (by rw [Address.toNat_roundDown, h, Nat.sub_zero])

theorem Address.number_mul_pageSize {kind : AddressKind} {a : Address kind}
    (h : a.isPageAligned = true) : a.number.toNat * pageSize = a.toNat := by
  rw [Address.isPageAligned, beq_iff_eq] at h
  rw [Address.toNat_number, Nat.div_mul_cancel (Nat.dvd_of_mod_eq_zero h)]

theorem Address.eq_of_number_eq {kind : AddressKind} {a b : Address kind}
    (ha : a.isPageAligned = true) (hb : b.isPageAligned = true) (h : a.number = b.number) :
    a = b := by
  have hstart := Address.start_number a
  rw [h, Address.start_number b, roundDown_eq_self ha, roundDown_eq_self hb] at hstart
  exact (Except.ok.inj hstart).symm

/-- The index at a level is a digit of the page number. -/
theorem val_indexAt (address level : Nat) :
    (indexAt address level).val = address / pageSize / entryCount ^ level % entryCount := by
  have hpage : pageSize = 2 ^ pageShift := rfl
  have hentry : entryCount = 2 ^ indexBits := rfl
  simp only [indexAt]
  rw [Nat.shiftRight_eq_div_pow, Nat.pow_add, ← Nat.div_div_eq_div_mul, Nat.mul_comm level,
    Nat.pow_mul, hpage, hentry]

theorem Directory.samePage_iff {a b : VirtualAddress} :
    Directory.SamePage a b ↔ a.number = b.number := by
  have ha := AddressKind.valid_virtual_iff.1 a.valid
  have hb := AddressKind.valid_virtual_iff.1 b.valid
  rw [Address.number_eq_number_iff]
  simp only [Directory.SamePage, Table.SamePath, pageTableLevels, pageSize]
  constructor
  · intro h
    have h0 := congrArg Fin.val (h 0 (by decide))
    have h1 := congrArg Fin.val (h 1 (by decide))
    have h2 := congrArg Fin.val (h 2 (by decide))
    have h3 := congrArg Fin.val (h 3 (by decide))
    simp only [val_indexAt, pageSize, entryCount] at h0 h1 h2 h3
    norm_num at h0 h1 h2 h3
    omega
  · intro h l hl
    apply Fin.ext
    rw [val_indexAt, val_indexAt, h]

/-! ### Grants -/

/-- What a page directory grants for a page: the address of a frame, and who may use it how. -/
structure Grant where
  address : PhysicalAddress
  user : Bool
  writable : Bool

namespace PageEntry

def grant (entry : PageEntry) : Grant :=
  { address := entry.locate 0 pageSize_pos
    user := entry.flags.test .user
    writable := entry.flags.test .writable }

theorem toNat_locate (entry : PageEntry) {offset : Nat} (h : offset < pageSize) :
    (entry.locate offset h).toNat = entry.grant.address.toNat + offset := rfl

end PageEntry

namespace Directory

def grant? (directory : Directory) (va : VirtualAddress) : Option Grant :=
  (directory.find? va).map PageEntry.grant

variable {directory changed : Directory} {va pa : VirtualAddress}

theorem isMapped_eq_isSome_grant? (directory : Directory) (va : VirtualAddress) :
    directory.isMapped va = (directory.grant? va).isSome := by
  rw [grant?, Option.isSome_map, isMapped]

theorem locate_eq_of_grant? {grant : Grant} (h : directory.grant? va = some grant) :
    ∃ pa flags, directory.locate va = some (pa, flags) ∧
      pa.toNat = grant.address.toNat + va.pageOffset ∧ flags.test .present = true ∧
      flags.test .user = grant.user ∧ flags.test .writable = grant.writable := by
  obtain ⟨entry, hentry, rfl⟩ := Option.map_eq_some_iff.1 h
  refine ⟨entry.locate va.pageOffset va.pageOffset_lt, entry.flags, ?_, rfl, ?_, rfl, rfl⟩
  · rw [locate, hentry]
    rfl
  · exact (Option.filter_eq_some_iff.1 hentry).2

theorem test_eq_of_locate {pa : PhysicalAddress} {flags : PageFlags}
    (h : directory.locate va = some (pa, flags)) (flag : Flag) :
    directory.test va flag = flags.test flag := by
  obtain ⟨entry, hentry, he⟩ := Option.map_eq_some_iff.1 h
  cases he
  rw [test, hentry, Option.any_some]

theorem find?_eq_of_number_eq {a b : VirtualAddress} (h : a.number = b.number) :
    directory.find? a = directory.find? b := by
  have hsame : Table.SamePath (pageTableLevels - 1) a.toNat b.toNat := samePage_iff.2 h
  rw [find?, find?, Table.find?_congr _ _ hsame]

theorem grant?_eq_of_number_eq {a b : VirtualAddress} (h : a.number = b.number) :
    directory.grant? a = directory.grant? b := by
  rw [grant?, grant?, find?_eq_of_number_eq h]

@[simp] theorem grant?_empty (va : VirtualAddress) : empty.grant? va = none := by
  simp [grant?, find?, empty, Table.find?, Table.empty]

theorem isPresent_encode {pa : PhysicalAddress} {flags : PageFlags} {entry : PageEntry}
    (h : PageEntry.encode pa
      (((flags.set .present true).set .accessed false).set .dirty false) = .ok entry) :
    entry.isPresent = true := by
  rw [PageEntry.isPresent, PageEntry.test_flags_encode h]
  simp

/-- Mapping a page replaces its entry and no other; the new entry is clean. -/
theorem find?_map {va : VirtualAddress} {pa : PhysicalAddress} {flags : PageFlags}
    (h : directory.map va pa flags = .ok changed) :
    ∃ entry, entry.grant = ⟨pa, flags.test .user, flags.test .writable⟩ ∧
      entry.flags.test .accessed = false ∧ entry.flags.test .dirty = false ∧
      ∀ b, changed.find? b = if va.number = b.number then some entry else directory.find? b := by
  simp only [map, require_eq_ok, bind_eq_ok, pure_eq_ok] at h
  obtain ⟨-, -, entry, hentry, rfl⟩ := h
  refine ⟨entry, ?_, ?_, ?_, ?_⟩
  · have haddress : entry.locate 0 (by decide) = pa :=
      Address.ext (PageEntry.toNat_locate_encode hentry _)
    simp only [PageEntry.grant, haddress, PageEntry.test_flags_encode hentry]
    simp
  · rw [PageEntry.test_flags_encode hentry]
    simp
  · rw [PageEntry.test_flags_encode hentry]
    simp
  · intro b
    rw [find?_setEntry, Option.filter_some_pos (isPresent_encode hentry)]
    simp only [samePage_iff]

theorem find?_unmap (directory : Directory) (va b : VirtualAddress) :
    (directory.unmap va).2.find? b =
      if va.number = b.number then none else directory.find? b := by
  unfold unmap
  cases hfind : directory.find? va with
  | none =>
      by_cases h : va.number = b.number
      · rw [if_pos h, ← find?_eq_of_number_eq h]
        exact hfind
      · rw [if_neg h]
  | some entry =>
      simp only [find?_setEntry, samePage_iff]
      rfl

theorem find?_setFlag (directory : Directory) (va b : VirtualAddress) {flag : Flag} {on : Bool}
    (hflag : flag ≠ .present) :
    (directory.setFlag va flag on).find? b =
      if va.number = b.number then
        (directory.find? b).map fun entry => entry.updateFlags fun flags => flags.set flag on
      else directory.find? b := by
  unfold setFlag
  cases hfind : directory.find? va with
  | none =>
      by_cases h : va.number = b.number
      · rw [if_pos h, ← find?_eq_of_number_eq h, hfind, Option.map_none]
      · rw [if_neg h]
  | some entry =>
      have hpresent : entry.isPresent = true := (Option.filter_eq_some_iff.1 hfind).2
      have hkept : (entry.updateFlags fun flags => flags.set flag on).isPresent = true := by
        rw [PageEntry.isPresent, PageEntry.updateFlags, PageEntry.test_flags_setFlags,
          PageFlags.test_set, if_neg hflag]
        exact hpresent
      simp only [find?_setEntry, samePage_iff, Option.filter_some_pos hkept]
      split
      · next h => rw [← find?_eq_of_number_eq h, hfind, Option.map_some]
      · rfl

def touch (write : Bool) (entry : PageEntry) : PageEntry :=
  entry.updateFlags fun flags =>
    if write then (flags.set .accessed true).set .dirty true else flags.set .accessed true

theorem test_touch (write : Bool) (entry : PageEntry) (flag : Flag) :
    (touch write entry).flags.test flag =
      (entry.flags.test flag || (flag = .accessed ∨ flag = .dirty ∧ write = true)) := by
  rw [touch, PageEntry.updateFlags, PageEntry.test_flags_setFlags]
  cases write <;> cases flag <;> simp

theorem grant_touch (write : Bool) (entry : PageEntry) : (touch write entry).grant = entry.grant := by
  have haddress : (touch write entry).locate 0 (by decide) = entry.locate 0 (by decide) :=
    PageEntry.locate_setFlags _ _ _ _
  simp only [PageEntry.grant, test_touch, haddress]
  simp

/-- An access that is permitted found a grant that covers it, leads into the frame that was granted
and touches the entry of the page. -/
theorem access_eq_ok {directory changed : Directory} {va : VirtualAddress} {write : Bool}
    {pa : PhysicalAddress} (h : directory.access va write = .ok (pa, changed)) :
    ∃ grant, directory.grant? va = some grant ∧ grant.user = true ∧
      (write = true → grant.writable = true) ∧
      pa.toNat = grant.address.toNat + va.pageOffset ∧
      ∀ b, changed.find? b =
        if va.number = b.number then (directory.find? b).map (touch write)
        else directory.find? b := by
  unfold access at h
  split at h
  · cases h
  · next entry hfind =>
    split at h
    · cases h
    · next hpermitted =>
      cases h
      simp only [Bool.or_eq_true, Bool.not_eq_true', Bool.and_eq_true, not_or, not_and,
        Bool.not_eq_false] at hpermitted
      refine ⟨entry.grant, by rw [grant?, hfind, Option.map_some], hpermitted.1, hpermitted.2, ?_, ?_⟩
      · rw [← grant_touch write entry]
        exact PageEntry.toNat_locate _ _
      · intro b
        have hpresent : entry.isPresent = true := (Option.filter_eq_some_iff.1 hfind).2
        have hkept : (touch write entry).isPresent = true := by
          rw [PageEntry.isPresent, test_touch, ← PageEntry.isPresent, hpresent, Bool.true_or]
        simp only [find?_setEntry, samePage_iff]
        split
        · next hsame =>
          rw [← find?_eq_of_number_eq hsame, hfind, Option.map_some]
          exact Option.filter_some_pos hkept
        · rfl

/-! ### Grants after a change -/

theorem grant?_map {va : VirtualAddress} {pa : PhysicalAddress} {flags : PageFlags}
    (h : directory.map va pa flags = .ok changed) (b : VirtualAddress) :
    changed.grant? b =
      if va.number = b.number then some ⟨pa, flags.test .user, flags.test .writable⟩
      else directory.grant? b := by
  obtain ⟨entry, hgrant, -, -, hfind⟩ := find?_map h
  rw [grant?, hfind]
  split
  · rw [Option.map_some, hgrant]
  · rfl

theorem grant?_unmap (directory : Directory) (va b : VirtualAddress) :
    (directory.unmap va).2.grant? b =
      if va.number = b.number then none else directory.grant? b := by
  rw [grant?, find?_unmap]
  split <;> rfl

theorem grant?_setFlag_accessed (directory : Directory) (va b : VirtualAddress) (on : Bool) :
    (directory.setFlag va .accessed on).grant? b = directory.grant? b := by
  rw [grant?, find?_setFlag _ _ _ (by decide)]
  split
  · rw [Option.map_map]
    apply congrArg (Option.map · _)
    funext entry
    have haddress : (entry.updateFlags fun flags => flags.set .accessed on).locate 0 (by decide) =
        entry.locate 0 (by decide) := PageEntry.locate_setFlags _ _ _ _
    simp only [Function.comp, PageEntry.grant, haddress]
    simp only [PageEntry.updateFlags, PageEntry.test_flags_setFlags, PageFlags.test_set]
    simp
  · rfl

theorem grant?_access {write : Bool} {va : VirtualAddress} {pa : PhysicalAddress}
    (h : directory.access va write = .ok (pa, changed)) (b : VirtualAddress) :
    changed.grant? b = directory.grant? b := by
  obtain ⟨-, -, -, -, -, hfind⟩ := access_eq_ok h
  rw [grant?, hfind]
  split
  · rw [Option.map_map]
    apply congrArg (Option.map · _)
    funext entry
    exact grant_touch write entry
  · rfl

/-! ### The accessed and the dirty bit after a change -/

theorem test_map {va : VirtualAddress} {pa : PhysicalAddress} {flags : PageFlags} {flag : Flag}
    (h : directory.map va pa flags = .ok changed) (hflag : flag = .accessed ∨ flag = .dirty)
    (b : VirtualAddress) :
    changed.test b flag = if va.number = b.number then false else directory.test b flag := by
  obtain ⟨entry, -, haccessed, hdirty, hfind⟩ := find?_map h
  rw [test, hfind]
  split
  · rw [Option.any_some]
    obtain rfl | rfl := hflag
    · exact haccessed
    · exact hdirty
  · rfl

theorem test_unmap (directory : Directory) (va b : VirtualAddress) (flag : Flag) :
    (directory.unmap va).2.test b flag =
      if va.number = b.number then false else directory.test b flag := by
  rw [test, find?_unmap]
  split <;> rfl

theorem test_accessed_clear (directory : Directory) (va b : VirtualAddress) :
    (directory.setFlag va .accessed false).test b .accessed =
      if va.number = b.number then false else directory.test b .accessed := by
  rw [test, find?_setFlag _ _ _ (by decide)]
  split
  · simp [PageEntry.updateFlags, PageEntry.test_flags_setFlags, Option.any_map]
  · rfl

theorem test_dirty_setFlag_accessed (directory : Directory) (va b : VirtualAddress) (on : Bool) :
    (directory.setFlag va .accessed on).test b .dirty = directory.test b .dirty := by
  rw [test, find?_setFlag _ _ _ (by decide)]
  split
  · rw [Option.any_map]
    apply congrArg (Option.any · _)
    funext entry
    simp only [PageEntry.updateFlags, PageEntry.test_flags_setFlags, PageFlags.test_set]
    simp
  · rfl

/-- A store makes its page dirty; apart from that an access leaves the dirty bits alone. -/
theorem test_dirty_access {write : Bool} {va : VirtualAddress} {pa : PhysicalAddress}
    (h : directory.access va write = .ok (pa, changed)) (b : VirtualAddress) :
    changed.test b .dirty =
      (directory.test b .dirty || (va.number = b.number ∧ write = true)) := by
  obtain ⟨grant, hgrant, -, -, -, hfind⟩ := access_eq_ok h
  rw [test, hfind]
  split
  · next hsame =>
    rw [grant?_eq_of_number_eq hsame] at hgrant
    obtain ⟨entry, hentry, -⟩ := Option.map_eq_some_iff.1 hgrant
    rw [test, hentry, Option.map_some, Option.any_some, Option.any_some, test_touch]
    simp [hsame]
  · next hother => simp [test, hother]

end Directory

end DemandPaging
