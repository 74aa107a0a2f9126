import DemandPaging.Address
import DemandPaging.PageTable.Flags

/-!
Page table entries: an address and a set of flags in one word.

The address part of an entry is always a multiple of the page size below `2 ^ 52`, whatever the
word is, so an entry never yields an invalid address and adding a page offset stays in range.
-/

namespace DemandPaging

structure PageEntry where
  word : BitVec 64
deriving DecidableEq

namespace PageEntry

def empty : PageEntry := ⟨0⟩

def encode (address : PhysicalAddress) (flags : PageFlags) : Except Panic PageEntry :=
  if address.isPageAligned then
    .ok ⟨BitVec.ofNat 64 address.toNat &&& addressMask ||| flags.bits &&& flagMask⟩
  else .error .physicalAddressMisaligned

def flags (entry : PageEntry) : PageFlags := .ofBits entry.word

def isPresent (entry : PageEntry) : Bool := entry.flags.test .present

def setFlags (entry : PageEntry) (flags : PageFlags) : PageEntry :=
  ⟨entry.word &&& addressMask ||| flags.bits &&& flagMask⟩

def updateFlags (entry : PageEntry) (change : PageFlags → PageFlags) : PageEntry :=
  entry.setFlags (change entry.flags)

theorem word_and_addressMask_le (entry : PageEntry) :
    (entry.word &&& addressMask).toNat ≤ physicalLimit - pageSize := by
  rw [BitVec.toNat_and]
  exact Nat.and_le_right

def locate (entry : PageEntry) (offset : Nat) (h : offset < pageSize) : PhysicalAddress :=
  ⟨(entry.word &&& addressMask).toNat + offset, by
    have hle := entry.word_and_addressMask_le
    simp only [AddressKind.Valid, physicalLimit, pageSize] at *
    omega⟩

def address? (entry : PageEntry) : Option PhysicalAddress :=
  if entry.isPresent then some (entry.locate 0 (by decide)) else none

def describe (entry : PageEntry) : String := "PageEntry(" ++ toString entry.word.toNat ++ ")"

@[simp] theorem isPresent_empty : empty.isPresent = false := by decide

end PageEntry

end DemandPaging
