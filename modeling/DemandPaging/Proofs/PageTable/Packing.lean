import DemandPaging.Proofs.PageTable.FlatMap

/-!
An entry packs an address and flags into one word.

Bits 12 to 51 of the word belong to the address and the others are flags. No change of the flags
reaches the address, also while the entry is not present, and every flag bit has a history of its own:
replacing the flags gives it the value in the new ones, a setter gives a value to its own bit, and
clearing the entry takes the address and all flags away. The word is nothing more than its two parts,
so an entry that is made anew from them is the same entry.
-/

namespace DemandPaging

def isAddressBit (i : Nat) : Bool := decide (12 ≤ i ∧ i < 52)

theorem getLsbD_addressMask (i : Nat) : addressMask.getLsbD i = isAddressBit i := by
  by_cases hi : i < 64
  · have hall : ∀ j : Fin 64, addressMask.getLsbD j.val = isAddressBit j.val := by decide
    exact hall ⟨i, hi⟩
  · rw [BitVec.getLsbD_of_ge _ _ (Nat.not_lt.1 hi), isAddressBit]
    exact (decide_eq_false (by omega)).symm

theorem getLsbD_flagMask {i : Nat} (hi : i < 64) : flagMask.getLsbD i = !isAddressBit i := by
  rw [flagMask, BitVec.getLsbD_not, getLsbD_addressMask, decide_eq_true hi, Bool.true_and]

namespace PageFlags

theorem getLsbD_set (flags : PageFlags) (flag : Flag) (on : Bool) (i : Nat) :
    (flags.set flag on).bits.getLsbD i = if flag.bit = i then on else flags.bits.getLsbD i := by
  have hlt : flag.bit < 64 := by cases flag <;> decide
  by_cases h : flag.bit = i
  · subst h
    cases on <;> simp [set, hlt]
  · cases on with
    | true => simp [set, h]
    | false =>
        simp only [set, Bool.false_eq_true, if_false, BitVec.getLsbD_and, BitVec.getLsbD_not,
          BitVec.getLsbD_twoPow, h, decide_false, Bool.and_false, Bool.not_false, Bool.and_true]
        exact Bool.and_eq_left_iff_imp.2 fun hbit => decide_eq_true (BitVec.lt_of_getLsbD hbit)

def setAll (flags : PageFlags) (settings : List (Flag × Bool)) : PageFlags :=
  settings.foldl (fun flags setting => flags.set setting.1 setting.2) flags

theorem getLsbD_setAll (flags : PageFlags) (settings : List (Flag × Bool)) (i : Nat) :
    (flags.setAll settings).bits.getLsbD i =
      settings.foldl (fun bit setting => if setting.1.bit = i then setting.2 else bit)
        (flags.bits.getLsbD i) := by
  induction settings generalizing flags with
  | nil => rfl
  | cons setting rest ih =>
      rw [List.foldl_cons, ← getLsbD_set]
      exact ih _

end PageFlags

inductive EntryChange where
  | setFlags (flags : PageFlags)
  | updateFlags (settings : List (Flag × Bool))
  | clear

namespace EntryChange

def onAddress (address : PageStart .physical) : EntryChange → PageStart .physical
  | setFlags _ => address
  | updateFlags _ => address
  | clear => ⟨.null .physical, rfl⟩

def onBit (i : Nat) (bit : Bool) : EntryChange → Bool
  | setFlags flags => flags.bits.getLsbD i
  | updateFlags settings =>
      settings.foldl (fun bit setting => if setting.1.bit = i then setting.2 else bit) bit
  | clear => false

end EntryChange

namespace PageEntry

def perform (entry : PageEntry) : EntryChange → PageEntry
  | .setFlags flags => entry.setFlags flags
  | .updateFlags settings => entry.updateFlags (·.setAll settings)
  | .clear => empty

/-- The bits of the word are those of an address and of some flags. -/
def Packs (entry : PageEntry) (address : PageStart .physical) (bit : Nat → Bool) : Prop :=
  ∀ i < 64, entry.word.getLsbD i =
    if isAddressBit i then address.val.toNat.testBit i else bit i

/-- What can be read from an entry with an address and some flags. -/
structure Shows (entry : PageEntry) (address : PageStart .physical) (bit : Nat → Bool) : Prop where
  /-- The address is in the word whether or not the entry is present. -/
  addressBits : ∀ i, 12 ≤ i → i < 52 → entry.word.getLsbD i = address.val.toNat.testBit i
  flags : ∀ i < 64, entry.flags.bits.getLsbD i = (decide (i < 12 ∨ 52 ≤ i) && bit i)
  address? : entry.address? = if bit Flag.present.bit then some address.val else none
  /-- The entry can be made anew from its address bits and its flags. -/
  encode : encode (entry.locate 0 pageSize_pos) entry.flags = .ok entry

/-! ### The two parts of a word -/

theorem getLsbD_flags (entry : PageEntry) {i : Nat} (hi : i < 64) :
    entry.flags.bits.getLsbD i = (entry.word.getLsbD i && !isAddressBit i) := by
  rw [flags, PageFlags.ofBits, BitVec.getLsbD_and, getLsbD_flagMask hi]

theorem getLsbD_join (word word' : BitVec 64) {i : Nat} (hi : i < 64) :
    (word &&& addressMask ||| word' &&& flagMask).getLsbD i =
      if isAddressBit i then word.getLsbD i else word'.getLsbD i := by
  rw [BitVec.getLsbD_or, BitVec.getLsbD_and, BitVec.getLsbD_and, getLsbD_addressMask,
    getLsbD_flagMask hi]
  cases isAddressBit i <;> simp

/-- A word is nothing more than its two parts. -/
theorem encode_locate (entry : PageEntry) :
    encode (entry.locate 0 pageSize_pos) entry.flags = .ok entry := by
  have haddress : (entry.locate 0 pageSize_pos).toNat = (entry.word &&& addressMask).toNat := rfl
  have hword : BitVec.ofNat 64 (entry.locate 0 pageSize_pos).toNat &&& addressMask |||
      entry.flags.bits &&& flagMask = entry.word := by
    apply BitVec.eq_of_getLsbD_eq
    intro i hi
    rw [getLsbD_join _ _ hi, haddress, BitVec.ofNat_toNat, BitVec.setWidth_eq, BitVec.getLsbD_and,
      getLsbD_addressMask, getLsbD_flags entry hi]
    cases isAddressBit i <;> simp
  rw [encode, if_pos entry.isPageAligned_locate, hword]

theorem packs_of_encode {address : PageStart .physical} {word : BitVec 64} {entry : PageEntry}
    (h : encode address.val (.ofBits word) = .ok entry) : entry.Packs address word.getLsbD := by
  intro i hi
  rw [encode, if_pos address.property] at h
  cases h
  rw [getLsbD_join _ _ hi, BitVec.getLsbD_ofNat, decide_eq_true hi, Bool.true_and,
    PageFlags.ofBits, BitVec.getLsbD_and, getLsbD_flagMask hi]
  cases isAddressBit i <;> simp

namespace Packs

variable {entry : PageEntry} {address : PageStart .physical} {bit : Nat → Bool}

/-! ### Changes -/

theorem setFlags (h : entry.Packs address bit) (flags : PageFlags) :
    (entry.setFlags flags).Packs address fun i => flags.bits.getLsbD i := by
  intro i hi
  rw [PageEntry.setFlags, getLsbD_join _ _ hi]
  split
  · next haddress => rw [h i hi, if_pos haddress]
  · rfl

theorem perform (h : entry.Packs address bit) (change : EntryChange) :
    (entry.perform change).Packs (change.onAddress address) fun i => change.onBit i (bit i) := by
  cases change with
  | setFlags flags => exact h.setFlags flags
  | updateFlags settings =>
      intro i hi
      refine (h.setFlags _ i hi).trans ?_
      split
      · rfl
      · next hflag =>
        simp only [PageFlags.getLsbD_setAll, getLsbD_flags entry hi, h i hi, if_neg hflag,
          Bool.not_eq_true] at hflag ⊢
        rw [hflag, Bool.not_false, Bool.and_true]
        rfl
  | clear =>
      intro i _
      change (0#64).getLsbD i = if isAddressBit i then Nat.testBit 0 i else false
      simp

theorem foldl_perform (h : entry.Packs address bit) (changes : List EntryChange) :
    (changes.foldl PageEntry.perform entry).Packs (changes.foldl EntryChange.onAddress address)
      fun i => changes.foldl (EntryChange.onBit i) (bit i) := by
  induction changes generalizing entry address bit with
  | nil => exact h
  | cons change rest ih => exact ih (h.perform change)

/-! ### Reading -/

theorem toNat_word (h : entry.Packs address bit) :
    (entry.word &&& addressMask).toNat = address.val.toNat := by
  rw [← ofNat_and_addressMask address.property]
  congr 1
  apply BitVec.eq_of_getLsbD_eq
  intro i hi
  rw [BitVec.getLsbD_and, BitVec.getLsbD_and, getLsbD_addressMask, h i hi, BitVec.getLsbD_ofNat,
    decide_eq_true hi, Bool.true_and]
  cases isAddressBit i <;> simp

theorem isPresent (h : entry.Packs address bit) : entry.isPresent = bit Flag.present.bit := by
  rw [PageEntry.isPresent, PageFlags.test, getLsbD_flags entry (by decide), h _ (by decide),
    show isAddressBit Flag.present.bit = false from rfl]
  simp

theorem shows (h : entry.Packs address bit) : entry.Shows address bit where
  addressBits i hlow hhigh :=
    (h i (by omega)).trans (if_pos (decide_eq_true ⟨hlow, hhigh⟩))
  flags i hi := by
    rw [getLsbD_flags entry hi, h i hi]
    have houtside : isAddressBit i = !decide (i < 12 ∨ 52 ≤ i) := by
      rw [isAddressBit, ← decide_not, decide_eq_decide]
      omega
    rw [houtside]
    cases decide (i < 12 ∨ 52 ≤ i) <;> simp
  address? := by
    have hlocate : entry.locate 0 pageSize_pos = address.val := Address.ext h.toNat_word
    rw [PageEntry.address?, h.isPresent, hlocate]
  encode := entry.encode_locate

end Packs

/-- Whatever is done to an entry, it shows the address that it was made with, or zero once it was
cleared, and the flags that it was given last. -/
theorem shows_of_changes (address : PageStart .physical) (word : BitVec 64)
    (changes : List EntryChange) :
    ∃ entry, encode address.val (.ofBits word) = .ok entry ∧
      (changes.foldl perform entry).Shows (changes.foldl EntryChange.onAddress address) fun i =>
        changes.foldl (EntryChange.onBit i) (word.getLsbD i) := by
  obtain ⟨entry, hentry⟩ : ∃ entry, encode address.val (.ofBits word) = .ok entry := by
    rw [encode, if_pos address.property]
    exact ⟨_, rfl⟩
  exact ⟨entry, hentry, ((packs_of_encode hentry).foldl_perform changes).shows⟩

end PageEntry

end DemandPaging
