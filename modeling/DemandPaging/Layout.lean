import DemandPaging.Failure

/-!
The layout of the address space.

Addresses have 48 significant bits. A page offset takes 12 of them and each of the four levels of
the page table takes 9, so the five parts fill an address exactly. User memory is the low part of
the lower half; everything from `kernelBase` upward belongs to the kernel. An address is canonical
when its upper 16 bits repeat bit 47.
-/

namespace DemandPaging

abbrev pageSize : Nat := 4096

theorem pageSize_pos : 0 < pageSize := by decide

abbrev pageShift : Nat := 12

/-- Levels of the page table; the root is level 3 and the last level is level 0. -/
abbrev pageTableLevels : Nat := 4

abbrev indexBits : Nat := 9

/-- Entries in one table of any level: as many as `indexBits` bits can tell apart. -/
abbrev entryCount : Nat := 512

abbrev maxPhysicalBits : Nat := 52

/-- The first number that is too wide for a physical address. -/
abbrev physicalLimit : Nat := 0x10000000000000

abbrev maxVirtualBits : Nat := 48

/-- The first address that belongs to the kernel. -/
abbrev kernelBase : Nat := 0x8004000000

abbrev userStack : Nat := 0x47480000

abbrev maxStackSize : Nat := 0x100000

/-- The lowest address to which the user stack may grow. -/
abbrev stackLimit : Nat := userStack - maxStackSize

/-- How far below the stack pointer an access still counts as a push. -/
abbrev stackSlack : Nat := 8

abbrev sectorSize : Nat := 512

abbrev sectorsPerPage : Nat := pageSize / sectorSize

abbrev killedExitStatus : Int := -1

/-- The sizes and bounds of the layout by their names in diagnostics. -/
def layoutConstants : List (String × Nat) :=
  [("PAGE_SIZE", pageSize), ("PAGE_SHIFT", pageShift), ("PAGE_TABLE_LEVELS", pageTableLevels),
    ("INDEX_BITS", indexBits), ("MAX_PHYSICAL_BITS", maxPhysicalBits),
    ("MAX_VIRTUAL_BITS", maxVirtualBits), ("KERNEL_BASE", kernelBase), ("USER_STACK", userStack),
    ("MAX_STACK_SIZE", maxStackSize), ("STACK_LIMIT", stackLimit), ("STACK_SLACK", stackSlack),
    ("SECTOR_SIZE", sectorSize), ("SECTORS_PER_PAGE", sectorsPerPage)]

/-- The index of an address in the table of a level: the nine bits of that level. -/
def indexAt (address level : Nat) : Fin entryCount :=
  ⟨address >>> (pageShift + level * indexBits) % entryCount, Nat.mod_lt _ (by decide)⟩

/-- `indexAt` as a plain number, refused for a level that does not exist. -/
def pageIndex (address level : Nat) : Except Panic Nat :=
  if level < pageTableLevels then .ok (indexAt address level) else .error .tableLevelOutOfRange

def fitsPhysical (address : Nat) : Bool := address < physicalLimit

/-- The canonical address with the same low 48 bits: bit 47 is copied upward. -/
def canonicalize (address : Nat) : Nat :=
  ((BitVec.ofNat maxVirtualBits address).signExtend 64).toNat

def isCanonical (address : Nat) : Bool := canonicalize address == address

/-- Sign extension in arithmetic: the low 48 bits, lifted to the upper half when bit 47 is set. -/
theorem canonicalize_eq (address : Nat) :
    canonicalize address =
      if address % 0x1000000000000 < 0x800000000000 then address % 0x1000000000000
      else address % 0x1000000000000 + 0xFFFF000000000000 := by
  unfold canonicalize
  rw [BitVec.toNat_signExtend, BitVec.toNat_setWidth]
  have hmod : address % 2 ^ 48 % 2 ^ 64 = address % 2 ^ 48 := by omega
  simp only [maxVirtualBits, BitVec.toNat_ofNat, hmod, BitVec.msb_eq_decide, decide_eq_true_eq]
  split <;> split <;> omega

end DemandPaging
